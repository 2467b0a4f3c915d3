import BoolCalc.Cli.Arguments
import BoolCalc.Config
import BoolCalc.Release
import BoolCalc.Render.Html
import BoolCalc.Render.Outline
import BoolCalc.Table.Grid
import BoolCalc.Text.Terminal

/-!
# Commands

What the command line does, up to reading files and printing.

A command line is either a question for the version or a request for one of
four commands. The options in front of the command are settled first, then
the configuration is loaded, then the words after the command are looked at,
and only then does the command run. A command either succeeds with all of its
output or fails with none: what it prints is returned as lines.

## Main definitions

* `Request`: What a command line asks for.
* `Command`: A command with its arguments.
* `Command.run`: The output of a command.
* `Command.report`: What is logged while it runs, without the times.
* `Request.answer`: The lines a request is answered by, given the
  configuration file.
* `Output`: What the program writes and the status it ends with.
* `Output.plain`: The same for a reader that is not a terminal.
-/

namespace BoolCalc

namespace Cli

/-- Why a request has no output. -/
inductive Failure
  | usage
  | config (e : Config.LoadError)
  | expression (e : Error)
  deriving Repr

/-- The status the program ends with after a failure. -/
def Failure.status : Failure → Nat
  | usage => 2
  | config _ | expression _ => 1

/-- What is said of a failure. -/
def Failure.message : Failure → String
  | usage => "Usage: booltree [--version] [--config FILE] [--debug] COMMAND EXPRESSION"
  | config _ => "Invalid configuration"
  | expression e => "Error: " ++ e.message

/-- The options in front of a command. -/
inductive GlobalOption
  | version
  | config
  | debug
  deriving DecidableEq, Repr

/-- The options in front of a command. -/
def globalOptions : List (OptionSpec GlobalOption) :=
  [⟨.version, "version", some 'V', false⟩, ⟨.config, "config", some 'c', true⟩,
    ⟨.debug, "debug", none, false⟩]

/-- The commands. -/
inductive CommandName
  | parse
  | eval
  | table
  | vars
  deriving DecidableEq, Repr

/-- The command of a name. -/
def CommandName.ofName? (s : String) : Option CommandName :=
  if s = "parse" then some .parse
  else if s = "eval" then some .eval
  else if s = "table" then some .table
  else if s = "vars" then some .vars
  else none

/-- What a command line asks for. -/
inductive Request
  | version
  | command (configPath : Option String) (debug : Bool) (name : CommandName) (words : List String)
  deriving DecidableEq, Repr

/-- Whether the version is asked for among options. -/
def asksVersion (given : List (GlobalOption × String)) : Bool := given.any (·.1 = .version)

/-- What words ask for that should begin with a command and do not. Options that
    two hyphens kept from being read are read after all, but only the version is
    given out on their account. -/
def Request.ofStray? (words : List String) : Option Request := do
  let arguments ← Arguments.ofWords? globalOptions false words
  if asksVersion arguments.options then some .version else none

/-- What a command line asks for, if it is well formed up to the command. -/
def Request.ofWords? (words : List String) : Option Request := do
  let arguments ← Arguments.ofWords? globalOptions false words
  let given := arguments.options
  if asksVersion given then return .version
  match arguments.operands with
  | [] => none
  | word :: rest =>
    match CommandName.ofName? word with
    | none => Request.ofStray? (word :: rest)
    | some name =>
      let paths := (given.filter (·.1 = .config)).map Prod.snd
      return .command paths.getLast? (given.any (·.1 = .debug)) name rest

/-- The options of the commands. -/
inductive CommandOption
  | html
  | set
  | minterms
  | maxterms
  | fragments
  deriving DecidableEq, Repr

/-- The options of a command. -/
def CommandName.options : CommandName → List (OptionSpec CommandOption)
  | parse => [⟨.html, "html", none, false⟩]
  | eval => [⟨.set, "set", some 's', true⟩]
  | table =>
    [⟨.minterms, "minterms", none, false⟩, ⟨.maxterms, "maxterms", none, false⟩,
      ⟨.fragments, "fragments", none, false⟩]
  | vars => []

/-- A command with its arguments. -/
inductive Command
  | parse (expression : String) (html : Bool)
  | eval (expression : String) (items : List String)
  | table (expression : String) (minterms maxterms fragments : Bool)
  | vars (expression : String)
  deriving DecidableEq, Repr

/-- The command that a name and the words after it amount to. Exactly one word
    has to be the expression. -/
def Command.ofWords? (name : CommandName) (words : List String) : Option Command := do
  let arguments ← Arguments.ofWords? name.options true words
  let has (o : CommandOption) : Bool := arguments.options.any (·.1 = o)
  match arguments.operands with
  | [expression] =>
    match name with
    | .parse => return .parse expression (has .html)
    | .eval => return .eval expression ((arguments.options.filter (·.1 = .set)).map Prod.snd)
    | .table => return .table expression (has .minterms) (has .maxterms) (has .fragments)
    | .vars => return .vars expression
  | _ => none

/-- A binding in the form of a name, an equals sign and a value. The name has
    one character, and blanks around the value are left out. -/
def readItem? (item : String) : Option (Scalar × Value) :=
  match item.toList with
  | name :: '=' :: value =>
    if name = '=' then none
    else some (.text (String.singleton name),
      .scalar (.text (Text.trim Text.isBlank (String.ofList value))))
  | _ => none

/-- The parser after it has parsed an expression. -/
def parsed (limit : Nat) (config : Config) (expression : String) : Step Expr :=
  (Parser.ofSource expression config.pointerStyle).construct limit

/-- The printed form, the tree, and the numbered fragments. -/
def parseLines (config : Config) (html : Bool) (tree : Expr) (fragments : List Expr) :
    List String :=
  let drawing :=
    if html then [tree.html Expr.defaultRootId config.htmlPadding 0]
    else (tree.draw Expr.defaultRootId).outline
  let numbered := fragments.zipIdx.map fun (f, i) => toString (i + 1) ++ ". " ++ f.text
  tree.text :: drawing ++ numbered

/-- Parse an expression and show its tree and its fragments. -/
def runParse (limit : Nat) (config : Config) (expression : String) (html : Bool) :
    Except Failure (List String) :=
  let step := parsed limit config expression
  match step.answer with
  | .error e => .error (.expression (.parse e))
  | .ok tree => .ok (parseLines config html tree step.parser.fragments)

/-- Evaluate an expression, showing the value of each fragment. -/
def runEval (limit : Nat) (config : Config) (expression : String) (items : List String) :
    Except Failure (List String) :=
  match items.mapM readItem? with
  | none => .error .usage
  | some pairs =>
    let context : Context := .ofList pairs
    let step := parsed limit config expression
    match step.answer with
    | .error e => .error (.expression (.parse e))
    | .ok tree =>
      match evaluate limit tree context, evaluateFragments limit step.parser.fragments context with
      | .ok b, .ok steps =>
        .ok (steps.map (fun (text, b) => text ++ " = " ++ b.text) ++
          [tree.text ++ " => " ++ b.text])
      | .error e, _ | _, .error e => .error (.expression (.eval e))

/-- A line with a canonical form, if it is asked for. -/
def formLines (wanted : Bool) (label : String) (form : Except TableError String) :
    Except Failure (List String) :=
  if wanted then
    match form with
    | .error e => .error (.expression (.table e))
    | .ok text => .ok [label ++ text]
  else .ok []

/-- Tabulate an expression over all of its variables: the grid, and then the forms
    that are asked for. -/
def runTable (limit : Nat) (config : Config) (expression : String)
    (minterms maxterms fragments : Bool) : Except Failure (List String) :=
  match TruthTable.ofExpression limit expression config.maxVariables config.pointerStyle with
  | .error e => .error (.expression e)
  | .ok t => do
    let grid := t.grid fragments
    let sum ← formLines minterms ("Minterms of " ++ expression ++ ": ") (t.mintermsOf expression)
    let product ←
      formLines maxterms ("Maxterms of " ++ expression ++ ": ") (t.maxtermsOf expression)
    return grid ++ sum ++ product

/-- The output of a command. -/
def Command.run (limit : Nat) (config : Config) : Command → Except Failure (List String)
  | parse expression html => runParse limit config expression html
  | eval expression items => runEval limit config expression items
  | table expression minterms maxterms fragments =>
    runTable limit config expression minterms maxterms fragments
  | vars expression => .ok [Text.joinWith " " (collectVariables expression)]

/-- What the parser reports of an expression. -/
def parseReport (limit : Nat) (config : Config) (expression : String) : List String :=
  (parsed limit config expression).log.map Event.message

/-- What is reported of a tree that has a value. -/
def valueReport (limit : Nat) (tree : Expr) (context : Context) : List String :=
  match evaluate limit tree context with
  | .ok b => [tree.text ++ " -> " ++ b.text]
  | .error _ => []

/-- What is reported while an expression is evaluated. The items are read before
    anything is parsed. -/
def evalReport (limit : Nat) (config : Config) (expression : String) (items : List String) :
    List String :=
  match items.mapM readItem? with
  | none => []
  | some pairs =>
    let value := match (parsed limit config expression).answer with
      | .ok tree => valueReport limit tree (.ofList pairs)
      | .error _ => []
    parseReport limit config expression ++ value

/-- What is reported while an expression is tabulated. The variables are counted
    before anything is parsed. -/
def tableReport (limit : Nat) (config : Config) (expression : String) : List String :=
  match TruthTable.create (collectVariables expression) config.maxVariables with
  | .error _ => []
  | .ok empty =>
    let added := match empty.add limit expression config.pointerStyle with
      | .ok t => ["Added " ++ expression ++ " over " ++ toString t.inputs.length ++ " row(s)"]
      | .error _ => []
    parseReport limit config expression ++ added

/-- What is reported while a command runs, if that is asked for. -/
def Command.report (limit : Nat) (config : Config) : Command → List String
  | parse expression _ => parseReport limit config expression
  | eval expression items => evalReport limit config expression items
  | table expression _ _ _ => tableReport limit config expression
  | vars _ => []

/-- The lines a request is answered by, given the contents of the configuration
    file if there is one. The words after the command are looked at only once the
    configuration is known to be valid. -/
def Request.answer (limit : Nat) (file : Option ByteArray) :
    Request → Except Failure (List String)
  | version => .ok [Release.distribution ++ " " ++ Release.current]
  | command _ _ name words =>
    match Config.load file with
    | .error e => .error (.config e)
    | .ok loaded =>
      match Command.ofWords? name words with
      | none => .error .usage
      | some c => c.run limit loaded.config

/-- What the program writes and the status it ends with. -/
structure Output where
  /-- The exit status. -/
  status : Nat
  /-- What is written to standard output. -/
  stdout : String
  /-- What is written to standard error. -/
  stderr : String
  deriving DecidableEq, Repr

/-- The output of a request: every line of a success, or the message of a
    failure and nothing else. -/
def Output.ofAnswer : Except Failure (List String) → Output
  | .ok lines => ⟨0, Text.unlines lines, ""⟩
  | .error failure => ⟨failure.status, "", failure.message ++ "\n"⟩

/-- The output as it is written to anything but a terminal: without the
    sequences that only a terminal understands. -/
def Output.plain (o : Output) : Output := ⟨o.status, Text.plain o.stdout, Text.plain o.stderr⟩

/-- What is reported while a request is answered. -/
def Request.report (limit : Nat) (file : Option ByteArray) : Request → List String
  | version => []
  | command _ debug name words =>
    match Config.load file, Command.ofWords? name words with
    | .ok loaded, some c =>
      if debug || loaded.config.debug then c.report limit loaded.config else []
    | _, _ => []

end Cli

end BoolCalc
