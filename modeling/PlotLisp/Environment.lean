/-
  PlotLisp.Environment
  ──────────────────────────────────────
  **ENVIRONMENTS.**

  An environment gives names their meaning: a bound value or a built-in
  procedure, at most one of the two.

    • `bind` is the only way for a program to change an environment, and it
      refuses the reserved names: special forms, the three constants, and
      whatever names a procedure;
    • a standard environment holds the constants and all 26 procedures.
-/
import PlotLisp.Expr.Basic
import PlotLisp.Fault
import PlotLisp.Procedure.Basic
import PlotLisp.SpecialForm

namespace PlotLisp

/-! ## §1. Entries. -/

/-- What a name denotes. -/
inductive Entry where
  | binding (value : Expr)
  | procedure (procedure : Procedure)
deriving DecidableEq, Repr

/-- The meanings of names. -/
structure Environment where
  entries : List (String × Entry)
deriving DecidableEq, Repr, Inhabited

namespace Environment

/-- No name means anything. -/
def empty : Environment := ⟨[]⟩

/-- What a name denotes, if anything. -/
def find? (env : Environment) (name : String) : Option Entry := env.entries.lookup name

/-- Give `name` the meaning `entry` in a list of meanings. -/
def putEntry (name : String) (entry : Entry) : List (String × Entry) → List (String × Entry)
  | [] => [(name, entry)]
  | (n, old) :: rest =>
      if n = name then (name, entry) :: rest else (n, old) :: putEntry name entry rest

/-- Give `name` the meaning `entry`, in place of any other. -/
def put (env : Environment) (name : String) (entry : Entry) : Environment :=
  ⟨putEntry name entry env.entries⟩

/-- A new meaning changes what is found under its own name only. -/
theorem lookup_putEntry (name other : String) (entry : Entry) (entries : List (String × Entry)) :
    (putEntry name entry entries).lookup other =
      if other = name then some entry else entries.lookup other := by
  induction entries with
  | nil => exact Expr.lookup_cons_eq other name entry []
  | cons first rest ih =>
    obtain ⟨n, old⟩ := first
    unfold putEntry
    by_cases hn : n = name
    · -- in place of the old meaning
      subst hn
      simp only [if_true, Expr.lookup_cons_eq]
      by_cases h : other = n <;> simp [h]
    · -- further on
      rw [if_neg hn, Expr.lookup_cons_eq, Expr.lookup_cons_eq, ih]
      by_cases h : other = n
      · subst h; simp [hn]
      · simp [h]

/-- After `put`, a name means what it was given, every other name what it meant
before. -/
theorem find?_put (env : Environment) (name other : String) (entry : Entry) :
    (env.put name entry).find? other = if other = name then some entry else env.find? other :=
  lookup_putEntry name other entry env.entries

/-! ## §2. Questions. -/

/-- The value bound to a name. -/
def binding? (env : Environment) (name : String) : Option Expr :=
  match env.find? name with
  | some (.binding value) => some value
  | _ => none

/-- The procedure that a name denotes. -/
def procedure? (env : Environment) (name : String) : Option Procedure :=
  match env.find? name with
  | some (.procedure procedure) => some procedure
  | _ => none

/-- Does the name denote anything? -/
def isKnown (env : Environment) (name : String) : Bool := (env.find? name).isSome

/-- Does the name denote a procedure? -/
def isProcedure (env : Environment) (name : String) : Bool := (env.procedure? name).isSome

/-- The names, in their own order. -/
def names (env : Environment) : List String :=
  (env.entries.map Prod.fst).mergeSort (fun a b => decide (a ≤ b))

/-- The names of procedures, in their own order. -/
def procedureNames (env : Environment) : List String := env.names.filter env.isProcedure

/-! ## §3. Reserved names and binding. -/

/-- The names of the constants. -/
def constantNames : List String := ["pi", "e", "I"]

/-- May programs not bind the name? -/
def isReserved (env : Environment) (name : String) : Bool :=
  (SpecialForm.ofName? name).isSome || constantNames.contains name || env.isProcedure name

/-- Refuse a reserved name. -/
def checkBindable (env : Environment) (name : String) : Except Fault Unit :=
  if env.isReserved name then .error (runtime.fault (.redefinition name)) else .ok ()

/-- Bind a name to a value, in place of an earlier binding. -/
def bind (env : Environment) (name : String) (value : Expr) : Except Fault Environment :=
  if env.isReserved name then .error (runtime.fault (.redefinition name))
  else .ok (env.put name (.binding value))

/-- Binding succeeds for the names that are not reserved. -/
theorem bind_eq_ok {env after : Environment} {name : String} {value : Expr}
    (h : env.bind name value = .ok after) :
    env.isReserved name = false ∧ after = env.put name (.binding value) := by
  unfold bind at h
  split at h
  · cases h
  · rename_i hfree
    cases h
    exact ⟨Bool.eq_false_iff.mpr hfree, rfl⟩

/-- Binding fails for one reason only. -/
theorem bind_eq_error {env : Environment} {name : String} {value : Expr} {fault : Fault}
    (h : env.bind name value = .error fault) : fault = runtime.fault (.redefinition name) := by
  unfold bind at h
  split at h
  · cases h
    rfl
  · cases h

/-- Bind names to values, first name first. -/
def bindAll (env : Environment) : List (String × Expr) → Except Fault Environment
  | [] => .ok env
  | (name, value) :: rest =>
      match env.bind name value with
      | .ok env => env.bindAll rest
      | .error fault => .error fault

/-- Install a procedure under a name, whatever the name meant before. -/
def install (env : Environment) (name : String) (procedure : Procedure) : Environment :=
  env.put name (.procedure procedure)

/-! ## §4. The standard environment. -/

/-- The constants: the circle number, the base of natural logarithms, and the
imaginary unit. -/
def constants : List (String × Expr) :=
  [ ("pi", .number 3.141592653589793),
    ("e", .number 2.718281828459045),
    ("I", .complex ComplexFloat.unit) ]

/-- The constants and every standard procedure. -/
def standard : Environment :=
  ⟨constants.map (fun (name, value) => (name, .binding value))
    ++ Procedure.standard.map (fun procedure => (procedure.name, .procedure procedure))⟩

end Environment

end PlotLisp
