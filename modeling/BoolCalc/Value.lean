import BoolCalc.Operator
import BoolCalc.Numeric.Digits
import BoolCalc.Numeric.Shortest
import BoolCalc.Text.Join
import BoolCalc.Text.Quoted

/-!
# Context Values

The values a caller may put into a context before anything is checked.

A context binds names to bits, but what is handed in need not be a name nor a
bit: a key can be any scalar and a value any scalar, list or object. Most of
them are refused, and the refusal shows the offending value in its written
form, so this module is mainly about telling values apart and writing them
down.

Two scalars are the same key when they denote the same thing: the integer 1,
the float 1.0 and the truth value true are one number. `Scalar.identity`
names what a scalar denotes, and `==` on scalars compares identities.

Not every value has a written form. An integer is not written if it has too
many digits, and a value is written by going down into its parts, which needs
room for each level. Parts are written from the first to the last, and the
first fault that is met is the fault of the whole.

## Main definitions

* `Scalar`: Null, a truth value, a number or a text.
* `Value`: A scalar, a list or an object.
* `Scalar.identity`: What a scalar denotes as a key.
* `Value.toBit?`: The bit a value is accepted for.
* `WritingFault`: Why a value cannot be written down.
* `Scalar.literal`, `Value.literal`: The written form.
* `Value.HasLiteral`: There is a written form.
-/

namespace BoolCalc

/-- A value without parts. -/
inductive Scalar
  | null
  | truth (b : Bool)
  | integer (n : Int)
  | float (x : Binary64)
  | text (s : String)
  deriving Repr, Inhabited

/-- Why a value cannot be written down. -/
inductive WritingFault
  | numberTooLong
  | tooDeep
  deriving DecidableEq, Repr

/-- What is said of a value that cannot be written down. -/
def WritingFault.message : WritingFault → String
  | numberTooLong =>
    "Exceeds the limit (" ++ toString greatestDigits ++ " digits) for integer string " ++
      "conversion; use sys.set_int_max_str_digits() to increase the limit"
  | tooDeep => "maximum recursion depth exceeded while getting the repr of an object"

/-- What a scalar denotes when it is used as a key. -/
inductive Identity
  | null
  | integer (n : Int)
  | fraction (x : Binary64)
  | text (s : String)
  deriving DecidableEq, Repr

/-- A value of any kind. -/
inductive Value
  | scalar (s : Scalar)
  | list (items : List Value)
  | object (fields : List (String × Value))
  deriving Repr, Inhabited

namespace Scalar

/-- What a scalar denotes: truth values and integral floats are integers. -/
def identity : Scalar → Identity
  | null => .null
  | truth b => .integer (if b then 1 else 0)
  | integer n => .integer n
  | float x =>
    match x.toInt? with
    | some n => .integer n
    | none => .fraction x
  | text s => .text s

instance : BEq Scalar := ⟨fun x y => x.identity = y.identity⟩

/-- The written form of a scalar. -/
def literal : Scalar → Except WritingFault String
  | null => .ok "None"
  | truth b => .ok (if b then "True" else "False")
  | integer n =>
    if greatestDigits < (Nat.toDigits 10 n.natAbs).length then .error .numberTooLong
    else .ok (toString n)
  | float x => .ok x.text
  | text s => .ok (Text.quoted s)

end Scalar

namespace Value

/-- The bit a value is accepted for: a text `0` or `1`, a truth value, or an
    integer 0 or 1. Floats are not accepted. -/
def toBit? : Value → Option Bit
  | scalar (.text s) => Bit.ofText? s
  | scalar (.truth b) => some (.ofBool b)
  | scalar (.integer n) => if n = 0 then some .zero else if n = 1 then some .one else none
  | _ => none

/-- The text `0` or `1` as a value. -/
def ofBit (b : Bit) : Value := scalar (.text b.text)

/-- Whether a value is exactly this text. -/
def isText (expected : String) : Value → Bool
  | scalar (.text s) => s = expected
  | _ => false

/-- In an unchecked context only the texts `0` and `1` count as bits. -/
instance : TwoValued Value where
  ofBit := ofBit
  isOne := isText "1"
  isZero := isText "0"

mutual

/-- The written form of a value, if there is room for some levels. -/
def literalWithin : Nat → Value → Except WritingFault String
  | 0, _ => .error .tooDeep
  | _ + 1, scalar s => s.literal
  | room + 1, list items => do
    let parts ← literalsWithin room items
    return "[" ++ Text.joinWith ", " parts ++ "]"
  | room + 1, object fields => do
    let parts ← fieldLiteralsWithin room fields
    return "\x7b" ++ Text.joinWith ", " parts ++ "\x7d"
termination_by structural _ v => v

/-- The written forms of the items of a list. -/
def literalsWithin (room : Nat) : List Value → Except WritingFault (List String)
  | [] => .ok []
  | v :: rest => do
    let part ← literalWithin room v
    let parts ← literalsWithin room rest
    return part :: parts
termination_by structural items => items

/-- The written forms of the fields of an object. -/
def fieldLiteralsWithin (room : Nat) :
    List (String × Value) → Except WritingFault (List String)
  | [] => .ok []
  | (k, v) :: rest => do
    let part ← literalWithin room v
    let parts ← fieldLiteralsWithin room rest
    return (Text.quoted k ++ ": " ++ part) :: parts
termination_by structural fields => fields

end

/-- The most levels of a value that is written down. How much room there is
    depends on what else is on the stack; a thousand is the order of it, and
    nothing but where writing is given up depends on the number. -/
def greatestLevels : Nat := 1000

/-- The written form of a value. -/
def literal (v : Value) : Except WritingFault String := v.literalWithin greatestLevels

/-- There is a written form. -/
abbrev HasLiteral (v : Value) : Prop := v.literal.isOk = true

/-- The written form of a value that has one. -/
def text (v : Value) (h : v.HasLiteral) : String :=
  match hv : v.literal with
  | .ok s => s
  | .error _ => absurd h (by rw [HasLiteral, hv]; exact Bool.false_ne_true)

end Value

end BoolCalc
