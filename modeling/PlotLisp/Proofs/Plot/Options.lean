/-
  PlotLisp.Proofs.Plot.Options
  ──────────────────────────────────────
  **PLOT OPTIONS ARE A RECORD WHERE THE LAST PAIR WINS.**

  Options are read pair by pair.  A field belongs to one key, and what it ends
  up as is what the last pair with that key says:

    • `Sets` — everything that one pair can do (`set_eq_ok_iff`);
    • `IsOption` — the pairs that are accepted, which does not depend on the
      pairs before (`exists_foldlM_iff`);
    • `IsField` — a field that one key sets and all others leave alone
      (`IsField.foldlM`);
    • `Says` — the four fields of a list of options;
    • `Edit` — changes to a list of options that change no field.
-/
import Mathlib.Data.List.Basic
import Mathlib.Logic.Relation
import PlotLisp.Plot.Options

namespace PlotLisp.PlotOptions

/-! ## §1. Pairs. -/

/-- The key and the value of a `("key" value)` pair. -/
def pair? (option : Expr) : Option (String × Expr) :=
  match option.items? with
  | some [name, value] => name.string?.map fun key => (key, value)
  | _ => none

/-- What an option gives as the value of the key, if it has that key. -/
def valueOf? (key : String) (option : Expr) : Option Expr :=
  ((pair? option).filter fun pair => pair.1 = key).map Prod.snd

/-- The values that the pairs with the key have, in order. -/
def values (key : String) (items : List Expr) : List Expr := items.filterMap (valueOf? key)

/-- The value of the last pair with the key. -/
def last? (key : String) (items : List Expr) : Option Expr := (values key items).getLast?

theorem values_append (key : String) (before after : List Expr) :
    values key (before ++ after) = values key before ++ values key after :=
  List.filterMap_append

theorem values_cons {option : Expr} {key : String} {value : Expr}
    (h : pair? option = some (key, value)) (own : String) (rest : List Expr) :
    values own (option :: rest)
      = if key = own then value :: values own rest else values own rest := by
  by_cases hkey : key = own <;> simp [values, valueOf?, h, hkey, Option.filter]

/-! ## §2. What one pair does. -/

/-- The keys whose value is a text. -/
def textKeys : List String := ["title", "abscissa-label", "ordinate-label"]

/-- The keys that set a field. -/
def recognised : List String := textKeys ++ ["text-scale"]

/-- Everything that a key and its value can do to the options. -/
inductive Sets (options : PlotOptions Float) : String → Expr → PlotOptions Float → Prop
  | title {value : Expr} {text : String} (h : value.string? = some text) :
      Sets options "title" value { options with title := some text }
  | abscissaLabel {value : Expr} {text : String} (h : value.string? = some text) :
      Sets options "abscissa-label" value { options with abscissaLabel := some text }
  | ordinateLabel {value : Expr} {text : String} (h : value.string? = some text) :
      Sets options "ordinate-label" value { options with ordinateLabel := some text }
  | textScale {value : Expr} {x : Float} (h : value.number? = some x) (hpos : 0.0 < x) :
      Sets options "text-scale" value { options with textScale := x }
  | other {key : String} {value : Expr} (h : key ∉ recognised) : Sets options key value options

theorem bind_eq_ok_iff {α β : Type} {x : Except Fault α} {next : α → Except Fault β} {b : β} :
    x >>= next = .ok b ↔ ∃ a, x = .ok a ∧ next a = .ok b := by
  cases x with
  | ok a => exact ⟨fun h => ⟨a, rfl, h⟩, fun ⟨_, rfl, h⟩ => h⟩
  | error fault => exact ⟨nofun, fun ⟨_, h, _⟩ => nomatch h⟩

theorem expect_bind_eq_ok_iff {α β : Type} {e : Expr} {view : Option α} {place expected : String}
    {next : α → Except Fault β} {b : β} :
    e.expect view place expected >>= next = .ok b ↔ ∃ a, view = some a ∧ next a = .ok b := by
  rw [bind_eq_ok_iff]
  cases view <;> simp [Expr.expect]

theorem recognised_cases {key : String} :
    key ∈ recognised
      ↔ key = "title" ∨ key = "abscissa-label" ∨ key = "ordinate-label" ∨ key = "text-scale" := by
  simp [recognised, textKeys]

/-- A key and its value are taken into account exactly as `Sets` says. -/
theorem set_eq_ok_iff {options after : PlotOptions Float} {key : String} {value : Expr} :
    options.set key value = .ok after ↔ Sets options key value after := by
  constructor
  · -- the keys are tried one after another
    intro h
    unfold set at h
    split at h
    · rename_i hkey
      obtain ⟨text, htext, ⟨⟩⟩ := expect_bind_eq_ok_iff.mp h
      exact hkey ▸ .title htext
    split at h
    · rename_i hkey
      obtain ⟨text, htext, ⟨⟩⟩ := expect_bind_eq_ok_iff.mp h
      exact hkey ▸ .abscissaLabel htext
    split at h
    · rename_i hkey
      obtain ⟨text, htext, ⟨⟩⟩ := expect_bind_eq_ok_iff.mp h
      exact hkey ▸ .ordinateLabel htext
    split at h
    · rename_i hkey
      obtain ⟨x, hx, ⟨⟩⟩ := expect_bind_eq_ok_iff.mp h
      obtain ⟨hnumber, hpos⟩ := Option.filter_eq_some_iff.mp hx
      exact hkey ▸ .textScale hnumber (of_decide_eq_true hpos)
    · rename_i htitle habscissa hordinate hscale
      cases h
      have hkey : key ∉ recognised := by simp [recognised_cases, *]
      exact .other hkey
  · intro h
    cases h with
    | title h => exact expect_bind_eq_ok_iff.mpr ⟨_, h, rfl⟩
    | abscissaLabel h => exact expect_bind_eq_ok_iff.mpr ⟨_, h, rfl⟩
    | ordinateLabel h => exact expect_bind_eq_ok_iff.mpr ⟨_, h, rfl⟩
    | textScale h hpos =>
      refine expect_bind_eq_ok_iff.mpr ⟨_, Option.filter_eq_some_iff.mpr ⟨h, ?_⟩, rfl⟩
      exact decide_eq_true hpos
    | other h =>
      rw [recognised_cases] at h
      simp only [not_or] at h
      obtain ⟨htitle, habscissa, hordinate, hscale⟩ := h
      unfold set
      rw [if_neg htitle, if_neg habscissa, if_neg hordinate, if_neg hscale]

/-- An option is taken into account if it is a pair, and then as its key and value say. -/
theorem setPair_eq_ok_iff {options after : PlotOptions Float} {option : Expr} :
    options.setPair option = .ok after
      ↔ ∃ key value, pair? option = some (key, value) ∧ Sets options key value after := by
  simp only [← set_eq_ok_iff]
  unfold setPair pair? Expr.asItems
  rw [expect_bind_eq_ok_iff]
  constructor
  · rintro ⟨items, hitems, h⟩
    rw [hitems]
    -- a pair has two items, and the first of them is a string
    split at h
    · rename_i name value
      cases hname : name.string? with
      | none =>
        rw [hname] at h
        cases h
      | some key =>
        rw [hname] at h
        exact ⟨key, value, by simp [hname], h⟩
    · cases h
  · rintro ⟨key, value, hpair, h⟩
    split at hpair
    · rename_i name other hitems
      obtain ⟨found, hname, ⟨⟩⟩ := Option.map_eq_some_iff.mp hpair
      refine ⟨_, hitems, ?_⟩
      simp only [hname]
      exact h
    · cases hpair

/-! ## §3. Which options are accepted. -/

/-- The value is one that the key can have. -/
structure Suits (key : String) (value : Expr) : Prop where
  text : key ∈ textKeys → ∃ text, value.string? = some text
  scale : key = "text-scale" → ∃ x, value.number? = some x ∧ 0.0 < x

/-- A key that is not recognised can have any value. -/
theorem Suits.of_not_mem {key : String} (h : key ∉ recognised) (value : Expr) :
    Suits key value where
  text htext := absurd (List.mem_append_left _ htext) h
  scale hscale := absurd (recognised_cases.mpr (.inr (.inr (.inr hscale)))) h

/-- The option is a pair of a key and a value that suits it. -/
def IsOption (option : Expr) : Prop :=
  ∃ key value, pair? option = some (key, value) ∧ Suits key value

/-- Whether a key and a value are accepted does not depend on the options so far. -/
theorem exists_sets_iff (options : PlotOptions Float) (key : String) (value : Expr) :
    (∃ after, Sets options key value after) ↔ Suits key value := by
  constructor
  · rintro ⟨after, h⟩
    cases h with
    | title h => exact ⟨fun _ => ⟨_, h⟩, fun hscale => absurd hscale (by decide)⟩
    | abscissaLabel h => exact ⟨fun _ => ⟨_, h⟩, fun hscale => absurd hscale (by decide)⟩
    | ordinateLabel h => exact ⟨fun _ => ⟨_, h⟩, fun hscale => absurd hscale (by decide)⟩
    | textScale h hpos => exact ⟨fun htext => absurd htext (by decide), fun _ => ⟨_, h, hpos⟩⟩
    | other h => exact .of_not_mem h value
  · rintro ⟨htext, hscale⟩
    by_cases hkey : key ∈ recognised
    · obtain rfl | rfl | rfl | rfl := recognised_cases.mp hkey
      · obtain ⟨text, h⟩ := htext (by decide)
        exact ⟨_, .title h⟩
      · obtain ⟨text, h⟩ := htext (by decide)
        exact ⟨_, .abscissaLabel h⟩
      · obtain ⟨text, h⟩ := htext (by decide)
        exact ⟨_, .ordinateLabel h⟩
      · obtain ⟨x, h, hpos⟩ := hscale rfl
        exact ⟨_, .textScale h hpos⟩
    · exact ⟨options, .other hkey⟩

theorem exists_setPair_iff (options : PlotOptions Float) (option : Expr) :
    (∃ after, options.setPair option = .ok after) ↔ IsOption option := by
  simp only [setPair_eq_ok_iff, IsOption, ← exists_sets_iff options]
  constructor
  · rintro ⟨after, key, value, hpair, h⟩
    exact ⟨key, value, hpair, after, h⟩
  · rintro ⟨key, value, hpair, after, h⟩
    exact ⟨after, key, value, hpair, h⟩

theorem foldlM_cons_eq_ok_iff {start options : PlotOptions Float} {option : Expr}
    {rest : List Expr} :
    (option :: rest).foldlM setPair start = .ok options
      ↔ ∃ between, start.setPair option = .ok between
          ∧ rest.foldlM setPair between = .ok options := by
  rw [List.foldlM_cons, bind_eq_ok_iff]

/-- Options are accepted when each of them is. -/
theorem exists_foldlM_iff (items : List Expr) (start : PlotOptions Float) :
    (∃ options, items.foldlM setPair start = .ok options) ↔ ∀ option ∈ items, IsOption option := by
  -- from whatever options: those of the first pairs are not known
  induction items generalizing start with
  | nil => exact ⟨fun _ => by simp, fun _ => ⟨start, rfl⟩⟩
  | cons option rest ih =>
    rw [List.forall_mem_cons, ← exists_setPair_iff start]
    simp only [foldlM_cons_eq_ok_iff]
    constructor
    · rintro ⟨options, between, hoption, hrest⟩
      exact ⟨⟨between, hoption⟩, (ih between).mp ⟨options, hrest⟩⟩
    · rintro ⟨⟨between, hoption⟩, hrest⟩
      obtain ⟨options, hoptions⟩ := (ih between).mpr hrest
      exact ⟨options, between, hoption, hoptions⟩

/-! ## §4. What the fields become. -/

/-- The field is what the last pair with the key says, as far as `view` shows it, or the default
if there is none. -/
def FromLast {α : Type} (key : String) (view : Expr → Option α) (items : List Expr)
    (default field : α) : Prop :=
  match last? key items with
  | some value => view value = some field
  | none => field = default

section Field

variable {α : Type} {own : String} {view : Expr → Option α} {field : PlotOptions Float → α}

/-- The last pair decides. -/
theorem FromLast.unique {items items' : List Expr} {default x y : α}
    (hx : FromLast own view items default x) (hy : FromLast own view items' default y)
    (hlast : last? own items' = last? own items) : x = y := by
  unfold FromLast at hx hy
  rw [hlast] at hy
  cases hvalue : last? own items with
  | none =>
    rw [hvalue] at hx hy
    exact hx.trans hy.symm
  | some value =>
    rw [hvalue] at hx hy
    exact Option.some.inj (hx.symm.trans hy)

/-- The field is set by the key `own` to what `view` shows, and by no other key. -/
def IsField (own : String) (view : Expr → Option α) (field : PlotOptions Float → α) : Prop :=
  ∀ {options after : PlotOptions Float} {key : String} {value : Expr},
    Sets options key value after →
      if key = own then view value = some (field after) else field after = field options

/-- **The last pair wins**, whatever the options were before. -/
theorem IsField.foldlM (hfield : IsField own view field) {items : List Expr}
    {start options : PlotOptions Float} (h : items.foldlM setPair start = .ok options) :
    FromLast own view items (field start) (field options) := by
  induction items generalizing start with
  | nil =>
    cases h
    exact rfl
  | cons option rest ih =>
    obtain ⟨between, hoption, hrest⟩ := foldlM_cons_eq_ok_iff.mp h
    obtain ⟨key, value, hpair, hsets⟩ := setPair_eq_ok_iff.mp hoption
    have hbetween := hfield hsets
    have hlater := ih hrest
    unfold FromLast last? at hlater ⊢
    rw [values_cons hpair]
    by_cases hkey : key = own
    · rw [if_pos hkey] at hbetween ⊢
      rw [List.getLast?_cons]
      cases hlast : (values own rest).getLast? with
      | none =>
        -- the pair is the last one with its key
        rw [hlast] at hlater
        exact hlater ▸ hbetween
      | some last =>
        -- a later pair overrides it
        rw [hlast] at hlater
        exact hlater
    · -- the pair leaves the field to the later ones
      rw [if_neg hkey] at hbetween ⊢
      exact hbetween ▸ hlater

end Field

/-- A text, as the fields that may have none keep it. -/
def text? (value : Expr) : Option (Option String) := value.string?.map some

/-- A key that is not recognised is not the key of a field. -/
theorem ne_of_not_mem_recognised {key own : String} (h : key ∉ recognised)
    (hown : own ∈ recognised) : key ≠ own :=
  (ne_of_mem_of_not_mem hown h).symm

theorem isField_title : IsField "title" text? PlotOptions.title := by
  intro options after key value h
  cases h with
  | title h => exact congrArg (Option.map some) h
  | other h => rw [if_neg (ne_of_not_mem_recognised h (by decide))]
  | _ => rfl

theorem isField_abscissaLabel : IsField "abscissa-label" text? PlotOptions.abscissaLabel := by
  intro options after key value h
  cases h with
  | abscissaLabel h => exact congrArg (Option.map some) h
  | other h => rw [if_neg (ne_of_not_mem_recognised h (by decide))]
  | _ => rfl

theorem isField_ordinateLabel : IsField "ordinate-label" text? PlotOptions.ordinateLabel := by
  intro options after key value h
  cases h with
  | ordinateLabel h => exact congrArg (Option.map some) h
  | other h => rw [if_neg (ne_of_not_mem_recognised h (by decide))]
  | _ => rfl

theorem isField_textScale : IsField "text-scale" Expr.number? PlotOptions.textScale := by
  intro options after key value h
  cases h with
  | textScale h hpos => exact h
  | other h => rw [if_neg (ne_of_not_mem_recognised h (by decide))]
  | _ => rfl

/-- Every field of the options is what the last pair with its key says, or the default. -/
structure Says (items : List Expr) (options : PlotOptions Float) : Prop where
  title : FromLast "title" text? items (default : PlotOptions Float).title options.title
  abscissaLabel : FromLast "abscissa-label" text? items (default : PlotOptions Float).abscissaLabel
    options.abscissaLabel
  ordinateLabel : FromLast "ordinate-label" text? items (default : PlotOptions Float).ordinateLabel
    options.ordinateLabel
  textScale : FromLast "text-scale" Expr.number? items (default : PlotOptions Float).textScale
    options.textScale

theorem Says.of_foldlM {items : List Expr} {options : PlotOptions Float}
    (h : items.foldlM setPair default = .ok options) : Says items options where
  title := isField_title.foldlM h
  abscissaLabel := isField_abscissaLabel.foldlM h
  ordinateLabel := isField_ordinateLabel.foldlM h
  textScale := isField_textScale.foldlM h

/-- What a list says is settled by the last pairs with the recognised keys. -/
theorem Says.unique {items items' : List Expr} {options options' : PlotOptions Float}
    (h : Says items options) (h' : Says items' options')
    (hlast : ∀ own ∈ recognised, last? own items' = last? own items) : options = options' := by
  obtain ⟨title, abscissaLabel, ordinateLabel, textScale⟩ := options
  have htitle : title = options'.title := h.title.unique h'.title (hlast _ (by decide))
  have habscissa : abscissaLabel = options'.abscissaLabel :=
    h.abscissaLabel.unique h'.abscissaLabel (hlast _ (by decide))
  have hordinate : ordinateLabel = options'.ordinateLabel :=
    h.ordinateLabel.unique h'.ordinateLabel (hlast _ (by decide))
  have hscale : textScale = options'.textScale :=
    h.textScale.unique h'.textScale (hlast _ (by decide))
  rw [htitle, habscissa, hordinate, hscale]

/-! ## §5. Changes that change no field. -/

/-- One change to a list of options. -/
inductive Edit : List Expr → List Expr → Prop
  /-- A pair whose key is not recognised is put somewhere. -/
  | insert (before after : List Expr) {option value : Expr} {key : String}
      (hpair : pair? option = some (key, value)) (hkey : key ∉ recognised) :
      Edit (before ++ after) (before ++ option :: after)
  /-- A pair whose key is not recognised is taken away. -/
  | remove (before after : List Expr) {option value : Expr} {key : String}
      (hpair : pair? option = some (key, value)) (hkey : key ∉ recognised) :
      Edit (before ++ option :: after) (before ++ after)
  /-- The pairs are reordered, but not those with one key among themselves. -/
  | reorder {items items' : List Expr} (hperm : items.Perm items')
      (horder : ∀ key, values key items' = values key items) : Edit items items'
  /-- A pair is taken away that a later pair with its key overrides. -/
  | drop (before after : List Expr) {option value : Expr} {key : String}
      (hpair : pair? option = some (key, value)) (hlater : values key after ≠ []) :
      Edit (before ++ option :: after) (before ++ after)

/-- A pair shows in the values of its own key only. -/
theorem values_append_cons_of_ne {before after : List Expr} {option value : Expr}
    {key own : String} (hpair : pair? option = some (key, value)) (hne : key ≠ own) :
    values own (before ++ option :: after) = values own (before ++ after) := by
  rw [values_append, values_cons hpair, if_neg hne, ← values_append]

namespace Edit

variable {items items' : List Expr}

/-- What is accepted is still accepted. -/
theorem isOption (h : Edit items items') (hall : ∀ option ∈ items, IsOption option) :
    ∀ option ∈ items', IsOption option := by
  cases h with
  | insert before after hpair hkey =>
    simp only [List.forall_mem_append, List.forall_mem_cons] at hall ⊢
    exact ⟨hall.1, ⟨_, _, hpair, .of_not_mem hkey _⟩, hall.2⟩
  | remove before after hpair hkey =>
    simp only [List.forall_mem_append, List.forall_mem_cons] at hall ⊢
    exact ⟨hall.1, hall.2.2⟩
  | reorder hperm horder => exact fun option hmem => hall option (hperm.mem_iff.mpr hmem)
  | drop before after hpair hlater =>
    simp only [List.forall_mem_append, List.forall_mem_cons] at hall ⊢
    exact ⟨hall.1, hall.2.2⟩

/-- The last pair with a recognised key still says the same. -/
theorem last?_eq (h : Edit items items') {own : String} (hown : own ∈ recognised) :
    last? own items' = last? own items := by
  unfold last?
  cases h with
  | insert before after hpair hkey =>
    rw [values_append_cons_of_ne hpair (ne_of_not_mem_recognised hkey hown)]
  | remove before after hpair hkey =>
    rw [values_append_cons_of_ne hpair (ne_of_not_mem_recognised hkey hown)]
  | reorder hperm horder => rw [horder]
  | @drop before after option value key hpair hlater =>
    by_cases hkey : key = own
    · -- both lists end with what comes after the pair
      subst hkey
      rw [values_append, values_append, values_cons hpair, if_pos rfl, List.getLast?_append_cons,
        List.getLast?_cons_of_ne_nil hlater, List.getLast?_append_of_ne_nil _ hlater]
    · rw [values_append_cons_of_ne hpair hkey]

/-- A list of options that is changed step by step is accepted as before, and its last pairs say
the same. -/
theorem keeps (h : Relation.ReflTransGen Edit items items')
    (hall : ∀ option ∈ items, IsOption option) :
    (∀ option ∈ items', IsOption option)
      ∧ ∀ own ∈ recognised, last? own items' = last? own items := by
  induction h with
  | refl => exact ⟨hall, fun _ _ => rfl⟩
  | tail _ hedit ih =>
    -- the last change keeps what the changes before it have kept
    obtain ⟨hoptions, hlast⟩ := ih
    exact ⟨hedit.isOption hoptions, fun own hown =>
      (hedit.last?_eq hown).trans (hlast own hown)⟩

end Edit

/-! ## §6. Reading. -/

theorem ofExpr_eq_ok_iff {e : Expr} {options : PlotOptions Float} :
    ofExpr e = .ok options
      ↔ ∃ items, e.items? = some items ∧ items.foldlM setPair default = .ok options :=
  expect_bind_eq_ok_iff

/-- **THE LAST PAIR WITH A KEY WINS.**  Options are read exactly when they are a list of pairs,
each of a string and a value that suits it; every field is then what the last pair with its key
says, or the default.  So the same is read, however often pairs with other keys are put in or
taken away, pairs with different keys change places, and pairs are dropped that later ones
override. -/
theorem last_pair_with_a_key_wins (e : Expr) :
    ((∃ options, ofExpr e = .ok options)
        ↔ ∃ items, e.items? = some items ∧ ∀ option ∈ items, IsOption option)
      ∧ ∀ options items, ofExpr e = .ok options → e.items? = some items →
          Says items options
            ∧ ∀ e' items', e'.items? = some items' → Relation.ReflTransGen Edit items items' →
                ofExpr e' = .ok options := by
  refine ⟨?_, fun options items hread hitems => ?_⟩
  · simp only [ofExpr_eq_ok_iff, ← exists_foldlM_iff _ default]
    constructor
    · rintro ⟨options, items, hitems, hread⟩
      exact ⟨items, hitems, options, hread⟩
    · rintro ⟨items, hitems, options, hread⟩
      exact ⟨options, items, hitems, hread⟩
  · obtain ⟨found, hfound, hread⟩ := ofExpr_eq_ok_iff.mp hread
    cases hfound.symm.trans hitems
    refine ⟨.of_foldlM hread, fun e' items' hitems' hedits => ?_⟩
    have hall := (exists_foldlM_iff items default).mp ⟨options, hread⟩
    obtain ⟨hall', hlast⟩ := Edit.keeps hedits hall
    -- the changed list is accepted too, and its fields are settled by the same pairs
    obtain ⟨options', hread'⟩ := (exists_foldlM_iff items' default).mpr hall'
    have hsame : options = options' := (Says.of_foldlM hread).unique (.of_foldlM hread') hlast
    exact ofExpr_eq_ok_iff.mpr ⟨items', hitems', hsame ▸ hread'⟩

/-- A title in place of another, with a key between them that means nothing. -/
example :
    ofExpr (.list [.list [.string "title", .string "Rain"], .list [.string "colour", .string "red"],
        .list [.string "title", .string "Snow"]])
      = .ok { (default : PlotOptions Float) with title := some "Snow" } := by
  rfl

end PlotLisp.PlotOptions
