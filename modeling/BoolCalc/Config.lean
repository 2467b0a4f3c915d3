import BoolCalc.Issue
import BoolCalc.Numeric.Spelled
import BoolCalc.Pointer
import BoolCalc.Table.Basic
import BoolCalc.Toml.Document

/-!
# Configuration

The settings of the command line, and how they are read from a file.

The settings stand in the table `booltree` of a TOML document. A document that
cannot be read as TOML is ignored with a warning, and a section that is absent
or empty in any way changes nothing. A section that is there is validated
field by field: every field accepts what can be converted to it without loss,
and all issues are collected in the order of the fields.

Two kinds of files are neither ignored nor validated but refused: a file that is not even
text, and one with a decimal integer of more digits than are converted.

## Main definitions

* `Config`: The settings.
* `Config.validate`: The settings a section describes, or its issues.
* `Config.load`: The settings a file describes.
-/

namespace BoolCalc

/-- The settings of the command line. -/
structure Config where
  /-- The layout of diagrams in error messages. -/
  pointerStyle : PointerStyle
  /-- Whether to report what the parser does. -/
  debug : Bool
  /-- How many variables a table may have. -/
  maxVariables : Nat
  /-- What a line of HTML is indented by. -/
  htmlPadding : String
  deriving DecidableEq, Repr

namespace Config

/-- The settings without a file. -/
def default : Config := ⟨.text, false, defaultMaxVariables, " "⟩

/-- The most variables a file may allow. -/
def greatestMaxVariables : Nat := 20

/-- A setting, or what is wrong with the value given for it. -/
abbrev Field (α : Type) := Except IssueCode α

/-- A layout is given by its exact name. -/
def readStyle : Toml.Value → Field PointerStyle
  | .text s =>
    match PointerStyle.ofName? s with
    | some style => .ok style
    | none => .error .notInEnumeration
  | _ => .error .notInEnumeration

/-- The words for truth and falsehood, in lower case. -/
def truthWord? (s : String) : Option Bool :=
  if ["1", "on", "t", "true", "y", "yes"].contains s then some true
  else if ["0", "off", "f", "false", "n", "no"].contains s then some false
  else none

/-- The least integer that is too large for 64 bits. -/
def wordEnd : Int := Nat.pow 2 63

/-- Whether an integer lies between the two ends of the range of 64 bits, which
    do not count. -/
def isInsideWord (n : Int) : Bool := -wordEnd < n && n < wordEnd

/-- Whether an integer has 64 bits. The least one is the only end that counts. -/
def isWord (n : Int) : Bool := isInsideWord n || n == -wordEnd

/-- The truth value a number stands for, where `inRange` says whether it counts
    as a number of 64 bits. -/
def truthOfNumber (inRange : Bool) (n : Int) : Field Bool :=
  if n = 0 then .ok false
  else if n = 1 then .ok true
  else .error (if inRange then .truthUnreadable else .notTruth)

/-- A truth value is given as such, as the number 0 or 1, or by a word. -/
def readTruth : Toml.Value → Field Bool
  | .truth b => .ok b
  | .integer n => truthOfNumber (isWord n) n
  | .float x =>
    match x.toInt? with
    | some n => truthOfNumber (isInsideWord n) n
    | none => .error .notTruth
  | .text s =>
    match truthWord? s.toLower with
    | some b => .ok b
    | none => .error .truthUnreadable
  | .moment _ | .array _ | .table _ => .error .notTruth

/-- The issue with a text that spells no integer. -/
def issueOfSpelling : SpellingError → IssueCode
  | .unreadable => .integerUnreadable
  | .tooLong => .integerTooLarge

/-- An integer is given as such, as a truth value, as a float without a
    fraction, or as a text that spells one. -/
def readInteger : Toml.Value → Field Int
  | .integer n => .ok n
  | .truth b => .ok (if b then 1 else 0)
  | .float x =>
    match x.toInt? with
    | some n => if isInsideWord n then .ok n else .error .integerTooLarge
    | none => .error (if x.isFinite then .hasFraction else .notFinite)
  | .text s => (spelledInteger s).mapError issueOfSpelling
  | .moment _ | .array _ | .table _ => .error .notInteger

/-- The number of variables is an integer from zero to the greatest allowed. -/
def readMaxVariables (v : Toml.Value) : Field Nat :=
  match readInteger v with
  | .error issue => .error issue
  | .ok n =>
    if n < 0 then .error .tooSmall
    else if (greatestMaxVariables : Int) < n then .error .tooLarge
    else .ok n.toNat

/-- The padding is a text. -/
def readPadding : Toml.Value → Field String
  | .text s => .ok s
  | _ => .error .notText

/-- The setting under a name, or its default if the section does not give it. -/
def readField {α : Type} (fields : Toml.Fields) (name : String) (default : α)
    (read : Toml.Value → Field α) : Except Issue α :=
  match fields.get? name with
  | none => .ok default
  | some v => (read v).mapError fun kind => ⟨[name], kind⟩

/-- The issue of a setting, if it has one. -/
def issueOf {α : Type} : Except Issue α → List Issue
  | .ok _ => []
  | .error issue => [issue]

/-- The settings a section describes, or its issues in the order of the
    fields. -/
def validate (fields : Toml.Fields) : Except (List Issue) Config :=
  let style := readField fields "pointer_style" default.pointerStyle readStyle
  let debug := readField fields "debug" default.debug readTruth
  let limit := readField fields "max_variables" default.maxVariables readMaxVariables
  let padding := readField fields "html_padding" default.htmlPadding readPadding
  match style, debug, limit, padding with
  | .ok style, .ok debug, .ok limit, .ok padding => .ok ⟨style, debug, limit, padding⟩
  | _, _, _, _ => .error (issueOf style ++ issueOf debug ++ issueOf limit ++ issueOf padding)

/-- Whether a section is empty in any of the ways a value can be. -/
def isVoid : Toml.Value → Bool
  | .text s => s = ""
  | .integer n => n = 0
  | .float x => x.toInt? = some 0
  | .truth b => !b
  | .moment _ => false
  | .array items => items.isEmpty
  | .table fields => fields.isEmpty

/-- The settings of a document. -/
def ofDocument (document : Toml.Fields) : Except (List Issue) Config :=
  match document.get? "booltree" with
  | none => .ok default
  | some v =>
    if isVoid v then .ok default
    else
      match v with
      | .table fields => validate fields
      | _ => .error [⟨[], .notTable⟩]

/-- Why a file gives no settings. -/
inductive LoadError
  | notText
  | numberTooLong (digits : Nat)
  | invalid (issues : List Issue)
  deriving DecidableEq, Repr

/-- Settings, and whether a file was ignored on the way to them. -/
structure Loaded where
  /-- The settings. -/
  config : Config
  /-- Whether the file could not be read as TOML and was ignored. -/
  ignored : Bool
  deriving DecidableEq, Repr

/-- The settings that the text of a file describes. -/
def ofText (source : String) : Except LoadError Loaded :=
  match Toml.parseDocument source with
  | .error .malformed => .ok ⟨default, true⟩
  | .error (.numberTooLong digits) => .error (.numberTooLong digits)
  | .ok document =>
    match ofDocument document with
    | .ok config => .ok ⟨config, false⟩
    | .error issues => .error (.invalid issues)

/-- The settings that a file describes, if there is one. -/
def load (file : Option ByteArray) : Except LoadError Loaded :=
  match file with
  | none => .ok ⟨default, false⟩
  | some bytes =>
    match String.fromUTF8? bytes with
    | none => .error .notText
    | some source => ofText source

end Config

end BoolCalc
