/-
  PlotLisp.Source.Whitespace
  ──────────────────────────────────────
  **UNICODE WHITE SPACE.**

  Lines that a person types are trimmed of every character with the Unicode
  property `White_Space`, 25 in all; program texts know four blanks only.
-/

namespace PlotLisp.Source

/-- The characters with the property `White_Space`, in ranges. -/
def whitespaceRanges : List (Nat × Nat) :=
  [ (0x9, 0xD), (0x20, 0x20), (0x85, 0x85), (0xA0, 0xA0), (0x1680, 0x1680), (0x2000, 0x200A),
    (0x2028, 0x2029), (0x202F, 0x202F), (0x205F, 0x205F), (0x3000, 0x3000) ]

/-- Has the character the property `White_Space`? -/
def isWhitespace (c : Char) : Bool :=
  whitespaceRanges.any fun (first, last) => first ≤ c.toNat && c.toNat ≤ last

/-- The blanks of a program text are white space. -/
theorem isWhitespace_of_mem_blanks {c : Char} (h : c ∈ [' ', '\t', '\r', '\n']) :
    isWhitespace c = true := by
  simp only [List.mem_cons, List.not_mem_nil, or_false] at h
  rcases h with rfl | rfl | rfl | rfl <;> decide

/-- Drop white space at both ends. -/
def trim (chars : List Char) : List Char :=
  ((chars.dropWhile isWhitespace).reverse.dropWhile isWhitespace).reverse

end PlotLisp.Source
