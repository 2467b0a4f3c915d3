import BoolCalc.Toml.Number
import BoolCalc.Toml.Text

/-!
# TOML Documents

Documents in TOML 1.0.

A document is a sequence of statements, one a line: a key with its value, a
header that opens a table, or a header that adds a table to a list. What a
statement may define depends on how earlier ones defined what is there, so
reading a document keeps notes on keys. A table may be opened by a header
only once, and not if it came about through a dotted key under another
header; and nothing may be added to an array or an inline table once it is
written. Dotted keys are noted only when their header ends, since until then
further keys may extend them.

A document is either read completely or refused, with the fault that is met
first. Values contain values, so their readers carry fuel. Every second call
takes a character, and the fuel is set to twice the length of the document.

## Main definitions

* `Notes`: What is noted about keys.
* `readValue`: A value of any kind.
* `parseDocument`: The table a document describes.
-/

namespace BoolCalc

namespace Toml

/-- What can be noted about a key. -/
inductive Note
  | opened
  | frozen
  deriving DecidableEq, Repr

/-- What is noted about keys. A frozen key also freezes what is below it. -/
abbrev Notes := List (Key × Note)

namespace Notes

/-- Whether something is noted about a key. -/
def has (notes : Notes) (key : Key) (note : Note) : Bool :=
  notes.any fun (noted, n) =>
    n = note && (noted = key || (note = .frozen && noted.isPrefixOf key))

/-- Forget what is noted about a key and what is below it. -/
def forget (notes : Notes) (key : Key) : Notes :=
  notes.filter fun (noted, _) => !key.isPrefixOf noted

end Notes

/-- Whether a value is closed to additions once it is written. -/
def Value.isClosed : Value → Bool
  | .array _ | .table _ => true
  | .text _ | .integer _ | .float _ | .truth _ | .moment _ => false

/-- Leave out a comment, if one begins here. There is no result if it holds a
    character that is refused. -/
def skipComment : List Char → Option (List Char)
  | '#' :: rest =>
    if (rest.takeWhile (· != '\n')).any (isRefused false) then none
    else some (rest.dropWhile (· != '\n'))
  | cs => some cs

/-- Leave out white space, line breaks and comments. Each round ends a comment,
    so the characters given bound the number of rounds. -/
def skipFiller : Nat → List Char → Option (List Char)
  | 0, cs => some cs
  | fuel + 1, cs =>
    match cs.dropWhile isSpaceOrBreak with
    | '#' :: rest => (skipComment ('#' :: rest)).bind (skipFiller fuel)
    | rest => some rest

/-- Leave out white space, line breaks and comments. -/
def skipAllFiller (cs : List Char) : Option (List Char) := skipFiller (cs.length + 1) cs

/-- A value without parts. -/
def readPlain (cs : List Char) : Reading (Value × List Char) :=
  match cs with
  | '"' :: _ | '\'' :: _ => wellFormed ((readText? cs).map fun r => (.text r.1, r.2))
  | 't' :: 'r' :: 'u' :: 'e' :: rest => .ok (.truth true, rest)
  | 'f' :: 'a' :: 'l' :: 's' :: 'e' :: rest => .ok (.truth false, rest)
  | _ =>
    match readMoment? cs with
    | some moment => wellFormed moment
    | none => readNumber cs

mutual

/-- A value of any kind. -/
def readValue : Nat → List Char → Reading (Value × List Char)
  | 0, _ => .error .malformed
  | fuel + 1, cs =>
    match cs with
    | '[' :: rest => do
      let rest ← wellFormed (skipAllFiller rest)
      readItems fuel #[] rest
    | '\x7b' :: rest =>
      match skipSpace rest with
      | '\x7d' :: rest => .ok (.table [], rest)
      | rest => readInline fuel [] [] rest
    | _ => readPlain cs

/-- The items of an array up to its closing bracket. -/
def readItems : Nat → Array Value → List Char → Reading (Value × List Char)
  | 0, _, _ => .error .malformed
  | fuel + 1, done, cs =>
    match cs with
    | ']' :: rest => .ok (.array done.toList, rest)
    | _ => do
      let (v, rest) ← readValue fuel cs
      match ← wellFormed (skipAllFiller rest) with
      | ']' :: rest => return (.array (done.push v).toList, rest)
      | ',' :: rest =>
        let rest ← wellFormed (skipAllFiller rest)
        readItems fuel (done.push v) rest
      | _ => .error .malformed

/-- The fields of an inline table up to its closing brace. -/
def readInline : Nat → Fields → Notes → List Char → Reading (Value × List Char)
  | 0, _, _, _ => .error .malformed
  | fuel + 1, fields, notes, cs => do
    let ((key, v), rest) ← readPair fuel cs
    if notes.has key .frozen then .error .malformed
    else
      let fields ← wellFormed (fields.updateAt false (Fields.define (key.getLastD "") v)
        key.dropLast)
      match skipSpace rest with
      | '\x7d' :: rest => return (.table fields, rest)
      | ',' :: rest =>
        let notes := if v.isClosed then (key, .frozen) :: notes else notes
        readInline fuel fields notes (skipSpace rest)
      | _ => .error .malformed

/-- A key with its value. -/
def readPair : Nat → List Char → Reading ((Key × Value) × List Char)
  | 0, _ => .error .malformed
  | fuel + 1, cs => do
    let (key, rest) ← wellFormed (readKey cs)
    match rest with
    | '=' :: rest =>
      let (v, rest) ← readValue fuel (skipSpace rest)
      return ((key, v), rest)
    | _ => .error .malformed

end

/-- A document that has been read in part. -/
structure Progress where
  /-- The table so far. -/
  fields : Fields
  /-- What is noted about keys. -/
  notes : Notes
  /-- The keys that will be noted as opened when the current header ends. -/
  pending : List Key
  /-- The key of the current header. -/
  header : Key

namespace Progress

/-- The document of which nothing has been read. -/
def empty : Progress := ⟨[], [], [], []⟩

/-- Note what was pending under the header that ends. -/
def settle (d : Progress) : Progress :=
  { d with notes := d.pending.map (·, .opened) ++ d.notes, pending := [] }

/-- Open the table of a header. -/
def openTable (d : Progress) (key : Key) : Option Progress := do
  if d.notes.has key .opened || d.notes.has key .frozen then none
  let fields ← d.fields.updateAt true some key
  return { d with fields, notes := (key, .opened) :: d.notes, header := key }

/-- Add a table to the list of a header. -/
def extendList (d : Progress) (key : Key) : Option Progress := do
  if d.notes.has key .frozen then none
  let fields ← d.fields.updateAt true (Fields.appendTable (key.getLastD "")) key.dropLast
  return { d with fields, notes := (key, .opened) :: d.notes.forget key, header := key }

/-- Define the value of a key under the current header. -/
def defineKey (d : Progress) (key : Key) (v : Value) : Option Progress := do
  let containers := (List.range (key.length - 1)).map fun i => d.header ++ key.take (i + 1)
  if containers.any (d.notes.has · .opened) then none
  let parent := d.header ++ key.dropLast
  if d.notes.has parent .frozen then none
  let fields ← d.fields.updateAt true (Fields.define (key.getLastD "") v) parent
  let notes := if v.isClosed then (d.header ++ key, .frozen) :: d.notes else d.notes
  return { d with fields, notes, pending := containers ++ d.pending }

end Progress

/-- Read one statement; none is there on an empty line or before a comment. -/
def readStatement (fuel : Nat) (d : Progress) (cs : List Char) : Reading (Progress × List Char) :=
  match cs with
  | '[' :: '[' :: rest => do
    let (key, rest) ← wellFormed (readKey (skipSpace rest))
    let d ← wellFormed (d.settle.extendList key)
    match rest with
    | ']' :: ']' :: rest => return (d, rest)
    | _ => .error .malformed
  | '[' :: rest => do
    let (key, rest) ← wellFormed (readKey (skipSpace rest))
    let d ← wellFormed (d.settle.openTable key)
    match rest with
    | ']' :: rest => return (d, rest)
    | _ => .error .malformed
  | c :: _ =>
    if c == '\n' || c == '#' then .ok (d, cs)
    else do
      let ((key, v), rest) ← readPair fuel cs
      let d ← wellFormed (d.defineKey key v)
      return (d, rest)
  | [] => .ok (d, [])

/-- Read the lines of a document. Each line but the last takes its line feed,
    so the characters given bound the number of lines. -/
def readLines (fuel : Nat) : Nat → Progress → List Char → Reading Progress
  | 0, _, _ => .error .malformed
  | lines + 1, d, cs => do
    let (d, rest) ← readStatement fuel d (skipSpace cs)
    match ← wellFormed (skipComment (skipSpace rest)) with
    | [] => return d
    | '\n' :: rest => readLines fuel lines d rest
    | _ => .error .malformed

/-- A carriage return before a line feed is left out. -/
def joinBreaks : List Char → List Char
  | '\r' :: '\n' :: rest => '\n' :: joinBreaks rest
  | c :: rest => c :: joinBreaks rest
  | [] => []

/-- The table a document describes, if it can be read. -/
def parseDocument (source : String) : Reading Fields :=
  let cs := joinBreaks source.toList
  (readLines (2 * cs.length + 4) (cs.length + 1) .empty cs).map Progress.fields

end Toml

end BoolCalc
