/-
  PlotLisp.Proofs.Source.Offsets
  ──────────────────────────────────────
  **OFFSETS LIE IN THE TEXT.**

  The scanner counts the bytes it has read, and a token starts where the count was
  when its first character was read:

    • `offset_foldl_push` — the count after a text is the length of the text;
    • `Scanner.Within` — no token starts behind the count, whatever is read;
    • `offset_le_of_parse_error` — so no text is blamed behind its end.
-/
import PlotLisp.Proofs.Source.Acceptance

namespace PlotLisp.Source

/-! ## §1. The length of a text. -/

/-- The length counts the bytes of the text. -/
theorem byteLength_toList (text : String) : byteLength text.toList = text.utf8ByteSize := by
  have hlist (chars : List Char) : byteLength chars = (String.ofList chars).utf8ByteSize := by
    induction chars with
    | nil => rfl
    | cons c chars ih =>
      rw [byteLength_cons, ih, ← List.singleton_append, String.ofList_append,
        String.utf8ByteSize_append, ← String.singleton_eq_ofList, String.utf8ByteSize_singleton]
  rw [hlist, String.ofList_toList]

/-! ## §2. The scanner's count. -/

/-- What the scanner is in the middle of starts at or before `offset`. -/
def Mode.StartsBy (offset : Nat) : Mode → Prop
  | .between | .comment => True
  | .word start _ | .string start _ | .escape start _ => start ≤ offset

namespace Scanner

/-- Nothing starts behind the count. -/
structure Within (s : Scanner) : Prop where
  mode : s.mode.StartsBy s.offset
  found : ∀ token ∈ s.found, token.offset ≤ s.offset

theorem within_initial : initial.Within :=
  ⟨trivial, fun _ hmem => absurd hmem List.not_mem_nil⟩

/-- A token that starts no later than here may join the others. -/
theorem Within.found_cons {s : Scanner} (h : s.Within) (token : Token)
    (htoken : token.offset ≤ s.offset) : ∀ other ∈ token :: s.found, other.offset ≤ s.offset :=
  List.forall_mem_cons.mpr ⟨htoken, h.found⟩

/-- Whatever character comes, what it begins starts at it. -/
theorem Within.beginAt {s : Scanner} (h : s.Within) (c : Char) : (s.beginAt c).Within := by
  unfold Scanner.beginAt
  split_ifs
  · exact ⟨trivial, h.found⟩
  · exact ⟨trivial, h.found⟩
  · exact ⟨trivial, h.found_cons _ (Nat.le_refl _)⟩
  · exact ⟨trivial, h.found_cons _ (Nat.le_refl _)⟩
  · exact ⟨Nat.le_refl _, h.found⟩
  · exact ⟨Nat.le_refl _, h.found⟩

/-- Looking at a character is not yet reading it. -/
@[simp] theorem offset_beginAt (s : Scanner) (c : Char) : (s.beginAt c).offset = s.offset := by
  unfold beginAt
  split_ifs <;> rfl

theorem offset_take (s : Scanner) (c : Char) : (s.take c).offset = s.offset := by
  obtain ⟨mode, offset, found⟩ := s
  cases mode with
  | between => exact offset_beginAt _ c
  | comment => unfold take; dsimp only; split_ifs <;> rfl
  | word start chars =>
    unfold take
    dsimp only
    split_ifs
    · exact offset_beginAt _ c
    · rfl
  | string start chars => unfold take; dsimp only; split_ifs <;> rfl
  | escape start chars => rfl

/-- Every token is where the character that began it stood. -/
theorem Within.take {s : Scanner} (h : s.Within) (c : Char) : (s.take c).Within := by
  obtain ⟨mode, offset, found⟩ := s
  have hstart {mode' : Mode} (hmode : mode'.StartsBy offset) : Within ⟨mode', offset, found⟩ :=
    ⟨hmode, h.found⟩
  cases mode with
  | between => exact h.beginAt c
  | comment =>
    unfold Scanner.take
    dsimp only
    split_ifs
    · exact hstart trivial
    · exact h
  | word start chars =>
    have hmode : start ≤ offset := h.mode
    unfold Scanner.take
    dsimp only
    split_ifs
    · -- the delimiter ends the word, and begins a token itself
      have hended : Within ((⟨.word start chars, offset, found⟩ : Scanner).endWord start chars) :=
        ⟨trivial, h.found_cons ⟨start, _⟩ hmode⟩
      exact hended.beginAt c
    · exact hstart hmode
  | string start chars =>
    have hmode : start ≤ offset := h.mode
    unfold Scanner.take
    dsimp only
    split_ifs
    · exact ⟨trivial, h.found_cons _ hmode⟩
    · exact hstart hmode
    · exact hstart hmode
  | escape start chars => exact ⟨h.mode, h.found⟩

theorem Within.grow {s : Scanner} (h : s.Within) {offset : Nat} (hle : s.offset ≤ offset) :
    Within { s with offset := offset } := by
  obtain ⟨mode, start, found⟩ := s
  refine ⟨?_, fun token hmem => Nat.le_trans (h.found token hmem) hle⟩
  have hmode := h.mode
  cases mode with
  | between => trivial
  | comment => trivial
  | word => exact Nat.le_trans hmode hle
  | string => exact Nat.le_trans hmode hle
  | escape => exact Nat.le_trans hmode hle

theorem Within.push {s : Scanner} (h : s.Within) (c : Char) : (s.push c).Within :=
  (h.take c).grow (by rw [offset_take]; exact Nat.le_add_right _ _)

/-- However far the text goes, no token starts behind the part of it that was read. -/
theorem Within.foldl {s : Scanner} (h : s.Within) (text : List Char) :
    (text.foldl Scanner.push s).Within := by
  induction text generalizing s with
  | nil => exact h
  | cons c text ih => exact ih (h.push c)

/-- The offset counts the bytes of what was read. -/
theorem offset_foldl_push (text : List Char) (s : Scanner) :
    (text.foldl push s).offset = s.offset + byteLength text := by
  induction text generalizing s with
  | nil => simp
  | cons c text ih =>
    rw [List.foldl_cons, ih, byteLength_cons]
    show s.offset + c.utf8Size + byteLength text = _
    omega

/-- The end of the text may end a word, which began before it. -/
theorem Within.finish {s : Scanner} (h : s.Within) : ∀ token ∈ s.finish, token.offset ≤ s.offset := by
  obtain ⟨mode, offset, found⟩ := s
  have hmode := h.mode
  intro token hmem
  cases mode with
  | between => exact h.found token (List.mem_reverse.mp hmem)
  | comment => exact h.found token (List.mem_reverse.mp hmem)
  | word start chars =>
    exact h.found_cons ⟨start, _⟩ hmode token (List.mem_reverse.mp hmem)
  | string start chars =>
    exact h.found_cons ⟨start, .invalid⟩ hmode token (List.mem_reverse.mp hmem)
  | escape start chars =>
    exact h.found_cons ⟨start, .invalid⟩ hmode token (List.mem_reverse.mp hmem)

end Scanner

/-- No token starts behind the end of the text. -/
theorem offset_le_of_mem_tokens {text : List Char} {token : Token} (h : token ∈ tokens text) :
    token.offset ≤ byteLength text := by
  have hle := (Scanner.within_initial.foldl text).finish token h
  rwa [Scanner.offset_foldl_push, show Scanner.initial.offset = 0 from rfl, Nat.zero_add] at hle

/-! ## §3. Parse errors. -/

namespace Progress

/-- If something is wrong, it is blamed at or before `size`. -/
def BlamesBy (size : Nat) (p : Progress) : Prop := ∀ error, p = .failed error → error.offset ≤ size

/-- Closing an expression never fails: it is a child, or the whole program. -/
theorem close_ne_failed (e : Expr) (outer : List Open) (error : ParseError) :
    close e outer ≠ .failed error := by
  cases outer <;> simp [close]

/-- A lexeme is taken or refused; failing is left to whoever knows its place. -/
theorem take?_ne_failed {p : Progress} {lexeme : Lexeme} (error : ParseError) :
    p.take? lexeme ≠ some (.failed error) := by
  intro h
  cases p with
  | before => exact absurd (take?_before h).2 (by simp)
  | opened outer => simp [take?] at h
  | inside current outer =>
    rcases take?_inside h with ⟨-, h⟩ | ⟨-, h⟩ | ⟨_, -, h⟩
    · exact absurd h (by simp)
    · exact close_ne_failed _ _ _ h.symm
    · exact absurd h (by simp)
  | after e => simp [take?] at h
  | failed error => simp [take?] at h

/-- A step is a success or the first error. -/
theorem push_eq {p : Progress} (hp : ∀ error, p ≠ .failed error) (token : Token) :
    p.push token = (p.take? token.lexeme).getD (.failed ⟨token.offset, p.expected⟩) := by
  cases p with
  | failed error => exact absurd rfl (hp error)
  | _ => rfl

/-- A token that is blamed stands in the text. -/
theorem BlamesBy.push {size : Nat} {p : Progress} (h : p.BlamesBy size) {token : Token}
    (htoken : token.offset ≤ size) : (p.push token).BlamesBy size := by
  intro error herror
  by_cases hfailed : ∃ before, p = .failed before
  · obtain ⟨before, rfl⟩ := hfailed
    exact h error herror
  · rw [push_eq fun before hbefore => hfailed ⟨before, hbefore⟩] at herror
    cases htake : p.take? token.lexeme with
    | none =>
      rw [htake] at herror
      cases herror
      exact htoken
    | some p' =>
      rw [htake] at herror
      obtain rfl : p' = .failed error := herror
      exact absurd htake (take?_ne_failed error)

/-- Tokens inside a text are all that is ever blamed. -/
theorem BlamesBy.foldl {size : Nat} {found : List Token} (hfound : ∀ token ∈ found, token.offset ≤ size)
    {p : Progress} (h : p.BlamesBy size) : (found.foldl Progress.push p).BlamesBy size := by
  induction found generalizing p with
  | nil => exact h
  | cons token found ih =>
    exact ih (fun other hmem => hfound other (.tail _ hmem)) (h.push (hfound token (.head _)))

/-- A text that ends too early is blamed at its end. -/
theorem BlamesBy.finish {size : Nat} {p : Progress} (h : p.BlamesBy size) {error : ParseError}
    (herror : p.finish size = .error error) : error.offset ≤ size := by
  cases p with
  | after program => simp [Progress.finish] at herror
  | failed before =>
    cases herror
    exact h error rfl
  | before => cases herror; exact Nat.le_refl _
  | opened outer => cases herror; exact Nat.le_refl _
  | inside current outer => cases herror; exact Nat.le_refl _

end Progress

/-- **No text is blamed behind its end.** -/
theorem offset_le_of_parse_error {text : String} {error : ParseError}
    (h : parse text = .error error) : error.offset ≤ text.utf8ByteSize := by
  rw [← byteLength_toList]
  have hbefore : Progress.before.BlamesBy (byteLength text.toList) := fun _ hfailed => by cases hfailed
  exact (hbefore.foldl fun _ => offset_le_of_mem_tokens).finish h

end PlotLisp.Source
