/-!
# Command-Line Arguments

Options and operands among the words of a command line.

An option has a long name after two hyphens and may have a short one after a
single hyphen. Its value, if it takes one, is what follows the equals sign of
the long form, what follows the letter of the short form, or else the next
word, whatever that is. Short options that take no value can share a hyphen.
Two hyphens on their own end the options, and a single hyphen on its own is an
operand.

Either options and operands can be mixed freely, or the first operand ends the
options and leaves everything after it untouched.

## Main definitions

* `OptionSpec`: An option that may be given.
* `Arguments`: Options and operands that were given.
* `Arguments.ofWords?`: The arguments that a list of words amounts to.
-/

namespace BoolCalc

namespace Cli

/-- An option that may be given. -/
structure OptionSpec (κ : Type) where
  /-- What the option means. -/
  meaning : κ
  /-- Its name after two hyphens. -/
  long : String
  /-- Its letter after a single hyphen. -/
  short : Option Char
  /-- Whether it takes a value. -/
  takesValue : Bool

/-- Options and operands that were given. -/
structure Arguments (κ : Type) where
  /-- The options with their values, in order. -/
  options : List (κ × String)
  /-- The words that are not options. -/
  operands : List String

/-- What a single word that holds options amounts to: options that are
    complete, and possibly one that waits for its value. -/
structure Word (κ : Type) where
  /-- The complete options. -/
  complete : List (κ × String)
  /-- The option whose value is the next word. -/
  waiting : Option κ

namespace Arguments

variable {κ : Type}

/-- Whether a word is read as options. -/
def isOptionWord (word : String) : Bool := word.startsWith "-" && word != "-"

/-- The options in a word with a single hyphen, letter by letter. -/
def ofLetters? (specs : List (OptionSpec κ)) : List Char → Option (Word κ)
  | [] => some ⟨[], none⟩
  | c :: rest =>
    match specs.find? fun spec => spec.short == some c with
    | none => none
    | some spec =>
      if spec.takesValue then
        if rest.isEmpty then some ⟨[], some spec.meaning⟩
        else some ⟨[(spec.meaning, String.ofList rest)], none⟩
      else
        (ofLetters? specs rest).map fun word =>
          { word with complete := (spec.meaning, "") :: word.complete }

/-- The options in a word. The long names are tried first, also against a word
    with a single hyphen. -/
def ofWord? (specs : List (OptionSpec κ)) (word : String) : Option (Word κ) :=
  let cs := word.toList
  let name := String.ofList (cs.takeWhile (· != '='))
  let afterSign := (cs.dropWhile (· != '=')).drop 1
  let given := if cs.contains '=' then some (String.ofList afterSign) else none
  match specs.find? fun spec => "--" ++ spec.long == name with
  | some spec =>
    match spec.takesValue, given with
    | true, some v => some ⟨[(spec.meaning, v)], none⟩
    | true, none => some ⟨[], some spec.meaning⟩
    | false, some _ => none
    | false, none => some ⟨[(spec.meaning, "")], none⟩
  | none => if word.startsWith "--" then none else ofLetters? specs (cs.drop 1)

/-- The arguments with options put in front. -/
def withOptions (options : List (κ × String)) (a : Arguments κ) : Arguments κ :=
  { a with options := options ++ a.options }

/-- The arguments that a list of words amounts to. There is no result if an
    option is unknown, lacks its value, or has one that it does not take. -/
def ofWords? (specs : List (OptionSpec κ)) (mixed : Bool) : List String → Option (Arguments κ)
  | [] => some ⟨[], []⟩
  | word :: rest =>
    if word = "--" then some ⟨[], rest⟩
    else if isOptionWord word then
      match ofWord? specs word, rest with
      | none, _ => none
      | some ⟨complete, none⟩, rest => (ofWords? specs mixed rest).map (withOptions complete)
      | some ⟨_, some _⟩, [] => none
      | some ⟨complete, some waiting⟩, v :: rest =>
        (ofWords? specs mixed rest).map (withOptions (complete ++ [(waiting, v)]))
    else if mixed then
      (ofWords? specs mixed rest).map fun a => { a with operands := word :: a.operands }
    else some ⟨[], word :: rest⟩

end Arguments

end Cli

end BoolCalc
