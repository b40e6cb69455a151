/-
  PlotLisp.Proofs.Json.Codec
  ──────────────────────────────────────
  **EXPRESSIONS FROM THEIR JSON VALUES.**

  Reading the value that is written for an expression gives that expression if
  all its numbers are finite and the nesting is within the limit, and nothing
  otherwise (`expr?_ofExpr`).  What reading does is a sequence of steps that
  each may fail, so what a step gives is stated as `GivenIf`, and the steps are
  put together by `GivenIf.bind` and `GivenIf.mapM`.

  Whatever else is read as an expression, the expression can be written and
  read again (`decodable_of_expr?`): its properties are maps, its numbers are
  finite, and its own value is nested no deeper.
-/
import PlotLisp.Proofs.Json.Encoding
import PlotLisp.Proofs.Number.Finite

namespace PlotLisp

/-! ## §1. Answers under a condition. -/

/-- The answer is `a` if `p` holds, and there is none otherwise. -/
def GivenIf {α : Type} (answer : Option α) (p : Prop) (a : α) : Prop :=
  ∀ b, answer = some b ↔ p ∧ b = a

namespace GivenIf

variable {α β : Type} {answer : Option α} {p q : Prop} {a : α}

theorem some (a : α) : GivenIf (some a) True a := fun b => by simp [eq_comm]

theorem none (hp : ¬p) (a : α) : GivenIf none p a := fun b => by simp [hp]

theorem congr (h : GivenIf answer p a) (hpq : p ↔ q) : GivenIf answer q a := fun b => by
  rw [h b, hpq]

theorem map (h : GivenIf answer p a) (f : α → β) : GivenIf (answer.map f) p (f a) := fun b => by
  rw [Option.map_eq_some_iff]
  constructor
  · rintro ⟨a', ha', rfl⟩
    obtain ⟨hp, rfl⟩ := (h a').mp ha'
    exact ⟨hp, rfl⟩
  · rintro ⟨hp, rfl⟩
    exact ⟨a, (h a).mpr ⟨hp, rfl⟩, rfl⟩

/-- A step after a step. -/
theorem bind {next : α → Option β} {b : β} (h : GivenIf answer p a) (hnext : GivenIf (next a) q b) :
    GivenIf (answer >>= next) (p ∧ q) b := fun b' => by
  rw [Option.bind_eq_bind, Option.bind_eq_some_iff]
  constructor
  · rintro ⟨a', ha', hb'⟩
    obtain ⟨hp, rfl⟩ := (h a').mp ha'
    obtain ⟨hq, rfl⟩ := (hnext b').mp hb'
    exact ⟨⟨hp, hq⟩, rfl⟩
  · rintro ⟨⟨hp, hq⟩, rfl⟩
    exact ⟨a, (h a).mpr ⟨hp, rfl⟩, (hnext b').mpr ⟨hq, rfl⟩⟩

/-- A step on each of many parts. -/
theorem mapM {γ : Type} {w : α → γ} {r : γ → Option β} {v : α → β} {ok : α → Prop}
    (items : List α) (h : ∀ x ∈ items, GivenIf (r (w x)) (ok x) (v x)) :
    GivenIf ((items.map w).mapM r) (∀ x ∈ items, ok x) (items.map v) := by
  induction items with
  | nil => exact (GivenIf.some []).congr (by simp)
  | cons x rest ih =>
    have hrest := ih fun y hy => h y (List.mem_cons_of_mem x hy)
    have hcons : GivenIf (pure (v x :: rest.map v)) True (v x :: rest.map v) :=
      GivenIf.some _
    rw [List.map_cons, List.mapM_cons, List.map_cons]
    refine ((h x (by simp)).bind (q := (∀ y ∈ rest, ok y) ∧ True) ?_).congr (by simp)
    exact hrest.bind hcons

end GivenIf

namespace Json

/-! ## §2. Strings and numbers. -/

/-- The code points of characters are read as these characters. -/
theorem chars?_map_toNat (text : List Char) : Codes.chars? (text.map Char.toNat) = some text := by
  have hwhole : ∀ c : Char, Codes.isLeading c.toNat = false ∧ Codes.isTrailing c.toNat = false := by
    intro c
    have hvalid : c.toNat.isValidChar := c.valid
    unfold Nat.isValidChar at hvalid
    constructor
    · simp only [Codes.isLeading, Bool.and_eq_false_iff, decide_eq_false_iff_not]
      omega
    · simp only [Codes.isTrailing, Bool.and_eq_false_iff, decide_eq_false_iff_not]
      omega
  induction text with
  | nil => rfl
  | cons c rest ih =>
    obtain ⟨hleading, htrailing⟩ := hwhole c
    cases rest with
    | nil => simp [Codes.chars?, hleading, htrailing, Char.ofNat_toNat]
    | cons d rest =>
      rw [List.map_cons] at ih
      simp only [List.map_cons, Codes.chars?, hleading, htrailing, Bool.false_eq_true, if_false, ih,
        Option.map_some, Char.ofNat_toNat]

/-- A text is read from its codes. -/
@[simp] theorem text?_codes (text : String) : (Codes.ofString text).text? = some text := by
  rw [Codes.text?, Codes.ofString, chars?_map_toNat, Option.map_some, String.ofList_toList]

/-- A string of the encoder is read as its text. -/
@[simp] theorem text?_ofString (text : String) : (ofString text).text? = some text := text?_codes text

/-- A number is read unless it is written as `null`. -/
theorem float?_ofFloat {x : Float} (h : ∀ n, Numeral.ofFloat? x = some n → n.toFloat? = some x) :
    GivenIf (ofFloat x).float? (x.isFinite = true) x := by
  unfold ofFloat
  cases hx : Numeral.ofFloat? x with
  | none => exact GivenIf.none (by simp [(Numeral.ofFloat?_eq_none_iff x).mp hx]) x
  | some n =>
    have hfinite : x.isFinite = true := by
      by_contra hnot
      rw [(Numeral.ofFloat?_eq_none_iff x).mpr (by simpa using hnot)] at hx
      cases hx
    show GivenIf n.toFloat? _ x
    rw [h n hx]
    exact (GivenIf.some x).congr (by simp [hfinite])

@[simp] theorem nesting_ofFloat (x : Float) : (ofFloat x).nesting = 0 := by
  unfold ofFloat
  split <;> rfl

/-! ## §3. Atoms. -/

@[simp] theorem keyed?_nil : keyed? [] = some [] := rfl

@[simp] theorem keyed?_cons (key : String) (value : Json) (rest : List (Codes × Json)) :
    keyed? (member key value :: rest) = (keyed? rest).map ((key, value) :: ·) := by
  rw [keyed?, List.mapM_cons]
  show ((Codes.ofString key).text?.map fun key => (key, value)) >>=
    (fun m => keyed? rest >>= fun ms => pure (m :: ms)) = _
  rw [text?_codes]
  cases keyed? rest <;> rfl

/-- A typed value lies one level above its payload: this is where an atom counts as a level. -/
theorem nesting_typed_le {typeName : String} {value : Option Json} {depth : Nat} :
    (typed typeName value).nesting ≤ depth + 1 ↔ ∀ j ∈ value, j.nesting ≤ depth := by
  rw [typed, nesting_object_le]
  cases value <;> simp [member, ofString, nesting]

/-- An atom is read by its type. -/
theorem atom?_typed (depth : Nat) (typeName : String) (value : Option Json) :
    atom? (depth + 1) (typed typeName value) = atomOf? depth typeName value := by
  cases value <;> simp [atom?, typed, field?, typeName?, ofString]

/-- An atom is read back exactly if its numbers are finite and the levels reach down to its
payload. That numerals read back is a hypothesis here, since only the written ones are known to.
-/
theorem atom?_ofAtom {head : Atom} (depth : Nat)
    (h : ∀ x ∈ head.numbers, ∀ n, Numeral.ofFloat? x = some n → n.toFloat? = some x) :
    GivenIf (atom? depth (ofAtom head))
      ((ofAtom head).nesting ≤ depth ∧ ∀ x ∈ head.numbers, x.isFinite = true) head := by
  cases depth with
  | zero =>
    have hdeep : ¬(ofAtom head).nesting ≤ 0 := by cases head <;> simp [ofAtom, typed, nesting]
    exact GivenIf.none (fun hc => hdeep hc.1) head
  | succ depth =>
    cases head with
    | none =>
      rw [ofAtom, atom?_typed, nesting_typed_le]
      exact (GivenIf.some Atom.none).congr (by simp [Atom.numbers])
    | number x =>
      rw [ofAtom, atom?_typed, nesting_typed_le]
      have hx := (float?_ofFloat (h x (by simp [Atom.numbers]))).map Atom.number
      exact hx.congr (by simp [Atom.numbers])
    | complex z =>
      rw [ofAtom, atom?_typed, nesting_typed_le]
      cases depth with
      | zero => exact GivenIf.none (fun hc => absurd (hc.1 _ rfl) (by simp [nesting])) _
      | succ depth =>
        -- both parts are read, one after the other
        have hsteps : atomOf? (depth + 1) "complex" (some (.array [ofFloat z.re, ofFloat z.im]))
            = ((ofFloat z.re).float? >>= fun re => (ofFloat z.im).float? >>= fun im =>
                some (Atom.complex ⟨re, im⟩)) := by
          cases hre : (ofFloat z.re).float? <;> cases him : (ofFloat z.im).float? <;>
            simp [atomOf?, hre, him]
        rw [hsteps]
        have hre := float?_ofFloat (h z.re (by simp [Atom.numbers]))
        have him := float?_ofFloat (h z.im (by simp [Atom.numbers]))
        exact (hre.bind (him.bind (GivenIf.some (Atom.complex z)))).congr
          (by simp [Atom.numbers, nesting_array_le])
    | symbol name =>
      rw [ofAtom, atom?_typed, nesting_typed_le]
      have hname : atomOf? depth "symbol" (some (ofString name)) = some (.symbol name) := by
        simp [atomOf?]
      rw [hname]
      exact (GivenIf.some _).congr (by simp [Atom.numbers, ofString, nesting])
    | string contents =>
      rw [ofAtom, atom?_typed, nesting_typed_le]
      have hcontents : atomOf? depth "string" (some (ofString contents))
          = some (.string contents) := by
        simp [atomOf?]
      rw [hcontents]
      exact (GivenIf.some _).congr (by simp [Atom.numbers, ofString, nesting])

/-! ## §4. Nodes. -/

/-- The reader for nodes inside a field, if a field may open its bracket. -/
def reader? : Nat → Option (Json → Option Expr)
  | 0 => none
  | depth + 1 => some (expr? depth)

/-- Reading with a level to spare: the three fields, then each part with one level less. -/
theorem expr?_succ (depth : Nat) (j : Json) :
    expr? (depth + 1) j = (do
      let (head, tail, props) ← fields? j
      return .node (← atom? depth head) (← tailOf? (reader? depth) tail)
        (← propsOf? (reader? depth) props)) := by
  cases depth <;> rfl

/-- The fields of a written node are found in either order. -/
theorem fields?_nodeMembers (order : FieldOrder) (head : Atom) (tail props : Option Json) :
    fields? (.object (nodeMembers order head tail props)) = some (ofAtom head, tail, props) := by
  cases order <;> cases tail <;> cases props <;> simp [nodeMembers, fields?, field?]

/-- What is written for an expression is read as it, its properties put in order, at
any depth that its nesting leaves room for, if its numbers are finite. -/
def IsReadBack (order : FieldOrder) (e : Expr) : Prop :=
  ∀ depth, GivenIf (expr? depth (ofExpr order e))
    ((ofExpr order e).nesting ≤ depth ∧ e.AllFinite) e.canonical

variable {order : FieldOrder}

/-- The encoder leaves an empty tail out, and the decoder takes a missing one for empty: the
operands are read back exactly if each of them is. -/
theorem tailOf?_tailField {tail : List Expr} (depth : Nat) (h : ∀ e ∈ tail, IsReadBack order e) :
    GivenIf (tailOf? (reader? depth) (tailField order tail))
      (∀ e ∈ tail, (ofExpr order e).nesting < depth ∧ e.AllFinite) (tail.map Expr.canonical) := by
  cases tail with
  | nil => exact (GivenIf.some []).congr (by simp)
  | cons e rest =>
    have hfield : tailField order (e :: rest) = some (.array ((e :: rest).map (ofExpr order))) := by
      rw [← ofExprs_eq_map]
      rfl
    rw [hfield]
    cases depth with
    | zero => exact GivenIf.none (fun hc => absurd (hc e (by simp)).1 (by omega)) _
    | succ depth =>
      have hitems := GivenIf.mapM (e :: rest) fun e he => h e he depth
      exact hitems.congr (by simp only [Nat.lt_succ_iff])

/-- The keys of a property object are read back, in its order. -/
theorem keyed?_ofProps (props : List (String × Expr)) :
    keyed? (ofProps order props) = some (props.map fun m => (m.1, ofExpr order m.2)) := by
  induction props with
  | nil => rfl
  | cons m rest ih => rw [ofProps, keyed?_cons, ih]; rfl

/-- Read a property from its member. -/
def property? (read : Json → Option Expr) (m : String × Json) : Option (String × Expr) :=
  (read m.2).map fun e => (m.1, e)

/-- The properties of an object: its keys, then its values, then one map of them. -/
theorem propsOf?_object (read : Json → Option Expr) (members : List (Codes × Json)) :
    propsOf? (some read) (some (.object members))
      = (keyed? members).bind fun members => (members.mapM (property? read)).map propsOf := by
  show (keyed? members).bind (fun members => (members.mapM (property? read)).bind
    fun props => some (propsOf props)) = _
  simp only [Option.map_eq_bind, Function.comp_def]

/-- The properties are read back exactly if each value is, as the map the decoder builds: in the
order of the keys, with one value a key. -/
theorem propsOf?_propsField {props : List (String × Expr)} (depth : Nat)
    (h : ∀ m ∈ props, IsReadBack order m.2) :
    GivenIf (propsOf? (reader? depth) (propsField order props))
      (∀ m ∈ props, (ofExpr order m.2).nesting < depth ∧ m.2.AllFinite)
      (propsOf (props.map fun m => (m.1, m.2.canonical))) := by
  cases props with
  | nil => exact (GivenIf.some []).congr (by simp)
  | cons m rest =>
    have hfield : propsField order (m :: rest) = some (.object (ofProps order (m :: rest))) := rfl
    rw [hfield]
    cases depth with
    | zero => exact GivenIf.none (fun hc => absurd (hc m (by simp)).1 (by omega)) _
    | succ depth =>
      rw [reader?, propsOf?_object, keyed?_ofProps, Option.bind_some]
      have hvalues := GivenIf.mapM (m :: rest) fun m hm =>
        show GivenIf (property? (expr? depth) (m.1, ofExpr order m.2)) _ (m.1, m.2.canonical)
        from (h m hm depth).map fun e => (m.1, e)
      exact (hvalues.map propsOf).congr (by simp only [Nat.lt_succ_iff])

/-- Reading what is written for an expression, with the fields in either order. -/
theorem expr?_ofExpr {e : Expr} (hback : e.ReadsBack) : IsReadBack order e := by
  induction e using Expr.treeInduction with
  | node head tail props ihtail ihprops =>
    obtain ⟨hhead, hback, hpropsBack⟩ := Expr.readsBack_node.mp hback
    intro depth
    cases depth with
    | zero =>
      -- a node is a bracket at least
      exact GivenIf.none (fun hc => by simp [ofExpr_node, nesting] at hc) _
    | succ depth =>
      rw [nesting_ofExpr_le, ofExpr_node, expr?_succ, fields?_nodeMembers, Expr.allFinite_node,
        Expr.canonical_node]
      have hnode : ∀ e : Expr, GivenIf (pure e) True e := GivenIf.some
      refine ((atom?_ofAtom depth hhead).bind ((tailOf?_tailField depth fun e he =>
        ihtail e he (hback e he)).bind ((propsOf?_propsField depth fun m hm =>
        ihprops m hm (hpropsBack m hm)).bind (hnode _)))).congr ?_
      -- each step has a condition on nesting and one on numbers
      simp only [forall_and]
      tauto

/-! ## §5. Whatever is read can be written. -/

/-- No numeral of a text stands for NaN or an infinity. -/
theorem isFinite_of_float? {j : Json} {x : Float} (h : j.float? = some x) : x.isFinite = true := by
  cases j with
  | number n => exact Numeral.isFinite_of_toFloat? h
  | _ => cases h

/-- An atom that is read, whatever it is read from. -/
theorem of_atomOf? {depth : Nat} {typeName : String} {value : Option Json} {head : Atom}
    (h : atomOf? depth typeName value = some head) :
    (ofAtom head).nesting ≤ depth + 1 ∧ ∀ x ∈ head.numbers, x.isFinite = true := by
  unfold atomOf? at h
  split at h
  · obtain rfl := Option.some.inj h
    simp [ofAtom, nesting_typed_le, Atom.numbers]
  · obtain rfl := Option.some.inj h
    simp [ofAtom, nesting_typed_le, Atom.numbers]
  · obtain ⟨x, hx, rfl⟩ := Option.map_eq_some_iff.mp h
    simp [ofAtom, nesting_typed_le, Atom.numbers, isFinite_of_float? hx]
  · -- two numbers inside a bracket
    split_ifs at h with hdepth
    obtain ⟨d, rfl⟩ := Nat.exists_eq_succ_of_ne_zero hdepth
    split at h
    next re im hre him =>
      obtain rfl := Option.some.inj h
      simp [ofAtom, nesting_typed_le, nesting_array_le, Atom.numbers, isFinite_of_float? hre,
        isFinite_of_float? him]
    next => cases h
  · obtain ⟨name, -, rfl⟩ := Option.map_eq_some_iff.mp h
    simp [ofAtom, nesting_typed_le, Atom.numbers, ofString, nesting]
  · obtain ⟨contents, -, rfl⟩ := Option.map_eq_some_iff.mp h
    simp [ofAtom, nesting_typed_le, Atom.numbers, ofString, nesting]
  · cases h

/-- A decoded atom could have been written: its numbers are finite, at a depth it fits in. -/
theorem of_atom? {depth : Nat} {j : Json} {head : Atom} (h : atom? depth j = some head) :
    (ofAtom head).nesting ≤ depth ∧ ∀ x ∈ head.numbers, x.isFinite = true := by
  unfold atom? at h
  split at h
  next =>
    obtain ⟨members, -, h⟩ := Option.bind_eq_some_iff.mp h
    obtain ⟨typeField, -, h⟩ := Option.bind_eq_some_iff.mp h
    obtain ⟨typeName, -, h⟩ := Option.bind_eq_some_iff.mp h
    obtain ⟨value, -, h⟩ := Option.bind_eq_some_iff.mp h
    exact of_atomOf? h
  next =>
    obtain ⟨typeName, -, h⟩ := Option.bind_eq_some_iff.mp h
    exact of_atomOf? h
  next => cases h

/-- The expression can be written and read again where `depth` brackets may be
opened. -/
structure Decodable (order : FieldOrder) (depth : Nat) (e : Expr) : Prop where
  keyed : e.Keyed
  allFinite : e.AllFinite
  nesting_le : (ofExpr order e).nesting ≤ depth

theorem mem_of_mapM {α β : Type} {f : α → Option β} {items : List α} {results : List β}
    (h : items.mapM f = some results) {b : β} (hb : b ∈ results) : ∃ a ∈ items, f a = some b := by
  induction items generalizing results with
  | nil =>
    obtain rfl : [] = results := by simpa using h
    simp at hb
  | cons a rest ih =>
    rw [List.mapM_cons] at h
    obtain ⟨b', hb', h⟩ := Option.bind_eq_some_iff.mp h
    obtain ⟨bs, hbs, h⟩ := Option.bind_eq_some_iff.mp h
    obtain rfl : b' :: bs = results := Option.some.inj h
    rcases List.mem_cons.mp hb with rfl | hb
    · exact ⟨a, by simp, hb'⟩
    · obtain ⟨a', ha', hf⟩ := ih hbs hb
      exact ⟨a', List.mem_cons_of_mem a ha', hf⟩

/-- Every operand of a decoded node was read with the reader of the level below. -/
theorem of_tailOf? {reader : Option (Json → Option Expr)} {field : Option Json} {tail : List Expr}
    (h : tailOf? reader field = some tail) :
    ∀ e ∈ tail, ∃ read j, reader = some read ∧ read j = some e := by
  unfold tailOf? at h
  split at h
  next => cases h; simp
  next items =>
    obtain ⟨read, hread, h⟩ := Option.bind_eq_some_iff.mp h
    intro e he
    obtain ⟨j, -, hj⟩ := mem_of_mapM h he
    exact ⟨read, j, hread, hj⟩
  next => cases h

/-- The decoder sorts its keys, and read every value with the reader of the level below. -/
theorem of_propsOf? {reader : Option (Json → Option Expr)} {field : Option Json}
    {props : List (String × Expr)} (h : propsOf? reader field = some props) :
    Expr.Ascending props ∧ ∀ m ∈ props, ∃ read j, reader = some read ∧ read j = some m.2 := by
  have hnil : Expr.Ascending ([] : List (String × Expr)) := List.Pairwise.nil
  rcases field with _ | field
  · cases h; exact ⟨hnil, by simp⟩
  · cases field with
    | null => cases h; exact ⟨hnil, by simp⟩
    | object members =>
      cases reader with
      | none => cases h
      | some read =>
        rw [propsOf?_object] at h
        obtain ⟨members, -, h⟩ := Option.bind_eq_some_iff.mp h
        obtain ⟨values, hvalues, rfl⟩ := Option.map_eq_some_iff.mp h
        obtain ⟨horder, hmem⟩ := Expr.ascending_propsOf values
        refine ⟨horder, fun m hm => ?_⟩
        obtain ⟨member, -, hvalue⟩ := mem_of_mapM hvalues (hmem m hm)
        obtain ⟨e, he, rfl⟩ := Option.map_eq_some_iff.mp hvalue
        exact ⟨read, member.2, rfl, he⟩
    | _ => cases h

/-- Whatever is read as an expression is one that can be written and read again. -/
theorem decodable_of_expr? (order : FieldOrder) {depth : Nat} {j : Json} {e : Expr}
    (h : expr? depth j = some e) : Decodable order depth e := by
  induction depth using Nat.strong_induction_on generalizing j e with
  | _ depth ih =>
    cases depth with
    | zero => cases h
    | succ depth =>
      -- what stands in a field is read one bracket further inside
      have hread : ∀ {read j e}, reader? depth = some read → read j = some e →
          e.Keyed ∧ e.AllFinite ∧ (ofExpr order e).nesting < depth := by
        intro read j e hreader hj
        cases depth with
        | zero => cases hreader
        | succ depth =>
          obtain rfl : expr? depth = read := Option.some.inj hreader
          obtain ⟨hkeyed, hfinite, hnesting⟩ := ih depth (by omega) hj
          exact ⟨hkeyed, hfinite, Nat.lt_succ_of_le hnesting⟩
      rw [expr?_succ] at h
      obtain ⟨⟨headJson, tailJson, propsJson⟩, -, h⟩ := Option.bind_eq_some_iff.mp h
      obtain ⟨head, hhead, h⟩ := Option.bind_eq_some_iff.mp h
      obtain ⟨tail, htail, h⟩ := Option.bind_eq_some_iff.mp h
      obtain ⟨props, hprops, h⟩ := Option.bind_eq_some_iff.mp h
      obtain rfl : Expr.node head tail props = e := Option.some.inj h
      obtain ⟨hheadNesting, hheadFinite⟩ := of_atom? hhead
      have htail : ∀ e ∈ tail, e.Keyed ∧ e.AllFinite ∧ (ofExpr order e).nesting < depth := by
        intro e he
        obtain ⟨read, j, hreader, hj⟩ := of_tailOf? htail e he
        exact hread hreader hj
      obtain ⟨horder, hvalues⟩ := of_propsOf? hprops
      have hvalues : ∀ m ∈ props, m.2.Keyed ∧ m.2.AllFinite ∧ (ofExpr order m.2).nesting < depth := by
        intro m hm
        obtain ⟨read, j, hreader, hj⟩ := hvalues m hm
        exact hread hreader hj
      exact
        { keyed := .node (fun e he => (htail e he).1) horder fun m hm => (hvalues m hm).1
          allFinite := Expr.allFinite_node.mpr ⟨hheadFinite, fun e he => (htail e he).2.1,
            fun m hm => (hvalues m hm).2.1⟩
          nesting_le := nesting_ofExpr_le.mpr ⟨hheadNesting, fun e he => (htail e he).2.2,
            fun m hm => (hvalues m hm).2.2⟩ }

end Json

end PlotLisp
