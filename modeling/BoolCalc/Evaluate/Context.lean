import BoolCalc.Evaluate.Error
import BoolCalc.OrderedMap

/-!
# Contexts

What a caller says the variables are bound to, and the bindings that follow
from it.

A context may hold anything. `Context.bindings` goes through its entries in
order and looks at the key of each before its value: the key has to be a text
of one character and the value has to be one that is accepted for a bit. The
first entry that fails is the error, and the error shows the key or the value
if it can be written down. What results binds the same names, in the same
order, to bits.

## Main definitions

* `Context`: Scalars bound to values, in order.
* `Bindings`: Names bound to bits, in order.
* `Context.bindings`: The bindings a context comes to.
-/

namespace BoolCalc

/-- Bindings as a caller gives them. -/
abbrev Context := OrderedMap Scalar Value

/-- Names bound to bits. -/
abbrev Bindings := OrderedMap String Bit

/-- The name a key is accepted for: a text of one character. -/
def Scalar.toName? : Scalar → Option String
  | .text s => if s.length = 1 then some s else none
  | _ => none

namespace Context

/-- The name and the bit of one entry, the key being looked at first. -/
def bindEntry (key : Scalar) (value : Value) : Except EvalError (String × Bit) :=
  match key.toName? with
  | none => .error (.showing (.scalar key) fun h => .invalidName key h)
  | some name =>
    match value.toBit? with
    | none => .error (.showing value fun h => .invalidBit name value h)
    | some b => .ok (name, b)

/-- Extend bindings by the entries of a context, stopping at the first that is
    not acceptable. -/
def bindAll (bound : Bindings) : List (Scalar × Value) → Except EvalError Bindings
  | [] => .ok bound
  | (key, value) :: rest =>
    match bindEntry key value with
    | .error e => .error e
    | .ok (name, b) => bindAll (bound.insert name b) rest

/-- The bindings a context comes to. -/
def bindings (c : Context) : Except EvalError Bindings := bindAll .empty c.entries

end Context

end BoolCalc
