import BoolCalc.Text.Join
import BoolCalc.Text.Quoted

/-!
# Pointer Diagrams

A two-line picture of a place in a source: the source itself, and below it a
caret under one of its characters.

The picture is laid out for one of two media. In text a line ends with a line
feed and the caret is moved by spaces; in HTML a line ends with a break
element and the caret is moved by non-breaking spaces. The caret line is
padded on the right too, so that it is as wide as the source.

## Main definitions

* `PointerStyle`: The two layouts.
* `pointerDiagram`: The picture of a place.
* `Place`: A place in a source, with the layout it is to be shown in.
-/

namespace BoolCalc

/-- The medium a pointer diagram is laid out for. -/
inductive PointerStyle
  | html
  | text
  deriving DecidableEq, Repr

namespace PointerStyle

/-- The name a style is chosen by. -/
def name : PointerStyle → String
  | html => "html"
  | text => "text"

/-- The style of a name. -/
def ofName? (s : String) : Option PointerStyle :=
  if s = "html" then some html else if s = "text" then some text else none

/-- What is said of a name that no style has. -/
def unknownMessage (s : String) : String :=
  Text.quoted s ++ " is not a valid PointerStyle"

/-- What ends a line. -/
def lineBreak : PointerStyle → String
  | html => "<br>"
  | text => "\n"

/-- What moves the caret by one character. -/
def pad : PointerStyle → String
  | html => "&#160"
  | text => " "

end PointerStyle

/-- The caret line for a source of the given length. -/
def caretLine (length index : Nat) (style : PointerStyle) : String :=
  Text.repeatText index style.pad ++ "^" ++ Text.repeatText (length - index - 1) style.pad

/-- The picture of a place. An index in front of the source counts as its
    beginning; one behind it moves the caret out past the end. -/
def pointerDiagram (source : String) (index : Int) (style : PointerStyle) : String :=
  style.lineBreak ++ source ++ style.lineBreak ++
    caretLine source.length index.toNat style ++ style.lineBreak

/-- A place in a source, with the layout it is to be shown in. -/
structure Place where
  /-- The whole source. -/
  source : String
  /-- The position of the character meant. -/
  index : Nat
  /-- The layout of the picture. -/
  style : PointerStyle
  deriving DecidableEq, Repr

/-- The picture of a place. -/
def Place.diagram (p : Place) : String := pointerDiagram p.source p.index p.style

end BoolCalc
