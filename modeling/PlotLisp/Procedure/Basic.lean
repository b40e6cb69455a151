/-
  PlotLisp.Procedure.Basic
  ──────────────────────────────────────
  **THE BUILT-IN PROCEDURES.**

  A procedure takes evaluated arguments and gives one value.  This module
  lists the procedures and their standard names; what they do is
  `Procedure.run`.
-/
import PlotLisp.Plot.Kind

namespace PlotLisp

/-! ## §1. Families. -/

/-- Procedures on real and complex numbers alike. -/
inductive Arithmetic where
  | add
  | subtract
  | multiply
  | divide
  | power
  | root
  | logarithm
  | sine
  | cosine
  | tangent
deriving DecidableEq, Repr

/-- Procedures that take a complex number apart. -/
inductive ComplexPart where
  | real
  | imaginary
  | magnitude
  | angle
  | conjugate
deriving DecidableEq, Repr

/-- A built-in procedure.  `nothing` takes anything and gives the value that
stands for nothing. -/
inductive Procedure where
  | arithmetic (operation : Arithmetic)
  | part (which : ComplexPart)
  | list
  | first
  | rest
  | length
  | append
  | join
  | range
  | setProperty
  | getProperty
  | plot (kind : PlotKind)
  | nothing
deriving DecidableEq, Repr

/-! ## §2. Names. -/

/-- The name of an arithmetic procedure. -/
def Arithmetic.name : Arithmetic → String
  | .add => "+"
  | .subtract => "-"
  | .multiply => "*"
  | .divide => "/"
  | .power => "^"
  | .root => "sqrt"
  | .logarithm => "ln"
  | .sine => "sin"
  | .cosine => "cos"
  | .tangent => "tan"

/-- The name of a part of a complex number. -/
def ComplexPart.name : ComplexPart → String
  | .real => "real"
  | .imaginary => "imag"
  | .magnitude => "mag"
  | .angle => "arg"
  | .conjugate => "conj"

namespace Procedure

/-- The name by which a procedure refers to itself in faults. -/
def name : Procedure → String
  | .arithmetic operation => operation.name
  | .part which => which.name
  | .list => "list"
  | .first => "first"
  | .rest => "rest"
  | .length => "length"
  | .append => "append"
  | .join => "join"
  | .range => "range"
  | .setProperty => "set-property"
  | .getProperty => "get-property"
  | .plot kind => kind.name
  | .nothing => "nothing"

/-- The procedures that every standard environment installs. -/
def standard : List Procedure :=
  [ .arithmetic .add, .arithmetic .subtract, .arithmetic .multiply, .arithmetic .divide,
    .arithmetic .power, .arithmetic .root, .arithmetic .logarithm, .arithmetic .sine,
    .arithmetic .cosine, .arithmetic .tangent,
    .part .real, .part .imaginary, .part .magnitude, .part .angle, .part .conjugate,
    .list, .first, .rest, .length, .append, .join, .range,
    .setProperty, .getProperty, .plot .discrete, .plot .continuous ]

end Procedure

end PlotLisp
