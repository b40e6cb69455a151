/-
  PlotLisp.Environment.Summary
  ──────────────────────────────────────
  **AN ENVIRONMENT AT A GLANCE.**

  The summary of an environment lists its names in order, each in quotes.
  Characters that do not show as themselves are written as escapes.
-/
import PlotLisp.Environment
import PlotLisp.Environment.Unshown

namespace PlotLisp

/-! ## §1. Quoted names. -/

/-- A character of a quoted name. -/
def shownText (c : Char) : String :=
  if c = '\x00' then "\\0"
  else if c = '\t' then "\\t"
  else if c = '\r' then "\\r"
  else if c = '\n' then "\\n"
  else if c = '"' then "\\\""
  else if c = '\\' then "\\\\"
  else if isShown c then String.singleton c
  else "\\u\x7b" ++ String.ofList (Nat.toDigits 16 c.toNat) ++ "\x7d"

/-- A name in quotes. -/
def quotedName (name : String) : String :=
  "\"" ++ String.join (name.toList.map shownText) ++ "\""

/-! ## §2. Summaries. -/

/-- The names of an environment, in order. -/
def Environment.summary (env : Environment) : String :=
  "Environment \x7b names: [" ++ String.intercalate ", " (env.names.map quotedName) ++ "] \x7d"

end PlotLisp
