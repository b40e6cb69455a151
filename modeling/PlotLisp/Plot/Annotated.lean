/-
  PlotLisp.Plot.Annotated
  ──────────────────────────────────────
  **SCENES AS ANNOTATED VALUES.**

  A renderer reads a scene as a list of ordinary values whose properties say
  what they are: `"object-name"` tells points, lines and texts apart, and the
  other properties carry sizes, places and turns.

    • a point is a list of two numbers, a line a list of two points;
    • a text is a string that carries its own place.
-/
import PlotLisp.Plot.Scene
import PlotLisp.Number.Significant

namespace PlotLisp

/-! ## §1. Property names. -/

/-- The property that says what kind of element a value is. -/
def objectNameKey : String := "object-name"

/-- The radius of a point marker. -/
def sizeKey : String := "size"

/-- The thickness of a line. -/
def thicknessKey : String := "thickness"

/-- The place of a text. -/
def positionKey : String := "position"

/-- The size of a text. -/
def textScaleKey : String := "text-scale"

/-- The turn of a text, in radians. -/
def textRotationKey : String := "text-rotation"

/-! ## §2. Elements. -/

/-- The significant digits of a tick label. -/
def tickDigits : Nat := 2

/-- The words of a caption. -/
def Caption.text : Caption Float → String
  | .words text => text
  | .quantity value => significantText value tickDigits

/-- The turn in radians; a label along the vertical axis reads upwards. -/
def Rotation.radians : Rotation → Float
  | .level => 0.0
  | .quarterTurn => -1.5707963267948966

/-- A value marked as the kind of element `name`. -/
def tagged (name : String) (e : Expr) : Expr := e.setProp objectNameKey (.string name)

/-- A bare position, as lines and texts use it. -/
def anchor (place : Position Float) : Expr :=
  tagged "point" (.list [.number place.1, .number place.2])

/-- The annotated value of an element. -/
def Primitive.toExpr : Primitive Float → Expr
  | .point place size => (anchor place).setProp sizeKey (.number size)
  | .line start stop =>
      (tagged "line" (.list [anchor start, anchor stop])).setProp thicknessKey (.number 0.0)
  | .text caption place scale rotation =>
      (((tagged "text" (.string caption.text)).setProp positionKey (anchor place)).setProp
        textScaleKey (.number scale)).setProp textRotationKey (.number rotation.radians)

/-- The kind of element that a value is marked as. -/
def objectName? (e : Expr) : Option String := (e.prop? objectNameKey).bind Expr.string?

/-! ## §3. Plots. -/

/-- The plot of samples, as a list of annotated values. -/
def plotOf (kind : PlotKind) (options : PlotOptions Float) (samples : List (Position Float)) :
    Except Fault Expr :=
  match scene kind options samples with
  | .ok elements => .ok (.list (elements.map Primitive.toExpr))
  | .error refusal => .error (plotting.fault (.plotDomain refusal))

end PlotLisp
