import BoolCalc.Proofs.Commands

/-!
# Assignments Written as Items

Which assignments can be written on the command line, and that they are read as
what they are.

An assignment is written as one item for each variable: the name, an equals sign
and the bit. Names are never trimmed and words are taken as they come, so a
blank, a hyphen or a digit of another script is a name like any other. The one
name that gets in the way of writing is the equals sign. An item begins with its
name, and where the name is an equals sign nothing is left in front of the first
one. So an expression with that variable cannot be evaluated on the command
line, although it is parsed, tabulated and evaluated otherwise.

The items of an assignment give every name just one value. Their order plays no
part, therefore, and all that is used of it is which items there are.

## Main definitions

* `assignmentItem`: A name and its bit as an item.
* `setWords`: Items and an expression as the words behind a command.

## Theorems

* `ofWords?_setWords`: Every item can be passed on the command line.
* `gives_assignmentItem`, `not_gives_equalsItem`: What an assignment's item
  gives.
* `evaluable_of_written`: The items of an assignment are all that is asked for.
* `written_assignment`: All of this in one statement.
* `equals_sign_refused`: The variable that cannot be written.
-/

namespace BoolCalc

namespace Cli

/-- A variable and its bit as an item. -/
def assignmentItem (assignment : String → Bit) (name : String) : String :=
  name ++ "=" ++ (assignment name).text

/-- The words that pass items and an expression to a command. The expression
    stands behind two hyphens, so that it is no option whatever it begins with. -/
def setWords (items : List String) (expression : String) : List String :=
  items.flatMap (fun item => ["--set", item]) ++ ["--", expression]

section Words

theorem arguments_setWords (items : List String) (expression : String) :
    Arguments.ofWords? CommandName.eval.options true (setWords items expression) =
      some ⟨items.map fun item => (.set, item), [expression]⟩ := by
  induction items with
  | nil =>
      have hwords : setWords [] expression = ["--", expression] := rfl
      rw [hwords, Arguments.ofWords?.eq_def]
      rfl
  | cons item rest ih =>
      have hwords : setWords (item :: rest) expression =
          "--set" :: item :: setWords rest expression := rfl
      have hoption : Arguments.isOptionWord "--set" = true := by decide +kernel
      have hword : Arguments.ofWord? CommandName.eval.options "--set" =
          some ⟨[], some CommandOption.set⟩ := rfl
      -- The item is the word that the option waits for, whatever it looks like.
      rw [hwords, Arguments.ofWords?.eq_def]
      simp only [if_neg (show "--set" ≠ "--" by decide), if_pos hoption, hword, ih]
      rfl

/-- Every list of items can be passed to `eval` with every expression. -/
theorem ofWords?_setWords (items : List String) (expression : String) :
    Command.ofWords? .eval (setWords items expression) = some (.eval expression items) := by
  -- All the options are items, so none of them is lost.
  have hitems : ((items.map fun item => (CommandOption.set, item)).filter
      (·.1 = .set)).map Prod.snd = items := by
    have hall : items.filter
        ((fun o : CommandOption × String => o.1 = .set) ∘ fun item => (.set, item)) = items :=
      List.filter_eq_self.mpr fun _ _ => rfl
    rw [List.filter_map, hall, List.map_map]
    exact List.map_id items
  rw [Command.ofWords?, arguments_setWords]
  exact congrArg (fun given => some (Command.eval expression given)) hitems

end Words

section Encoding

variable {assignment : String → Bit} {name : Char} {value : String}

theorem toList_assignmentItem (assignment : String → Bit) (name : Char) :
    (assignmentItem assignment (String.singleton name)).toList =
      [name, '=', (assignment (String.singleton name)).char] := by
  have hbit : (assignment (String.singleton name)).text.toList =
      [(assignment (String.singleton name)).char] := by
    cases assignment (String.singleton name) with
    | zero | one => rfl
  rw [assignmentItem, String.toList_append, String.toList_append, String.toList_singleton, hbit]
  rfl

/-- The item of a name gives the name its bit. -/
theorem gives_assignmentItem (assignment : String → Bit) (hname : name ≠ '=') :
    Gives (assignmentItem assignment (String.singleton name)) name
      (assignment (String.singleton name)).text := by
  refine ⟨hname, _, toList_assignmentItem assignment name, ?_⟩
  cases assignment (String.singleton name) with
  | zero | one => rfl

/-- Where the name is an equals sign there is nothing in front of the first
    one. -/
theorem not_gives_equalsItem (assignment : String → Bit) :
    ¬Gives (assignmentItem assignment "=") name value := by
  rintro ⟨hname, rest, hitem, _⟩
  have hlist := toList_assignmentItem assignment '='
  exact hname (List.cons.inj (hitem.symm.trans hlist)).1

end Encoding

section Written

variable {limit : Nat} {config : Config} {expression : String} {tree : Expr}
  {assignment : String → Bit} {items : List String}

/-- The items of an assignment give each variable its bit, unless the equals sign
    is one of the variables. -/
theorem gives_of_written
    (hitems : items.Perm ((collectVariables expression).map (assignmentItem assignment)))
    (hequals : "=" ∉ collectVariables expression) {item : String} (hmem : item ∈ items) :
    ∃ c, Gives item c (assignment (String.singleton c)).text := by
  rcases List.mem_map.mp (hitems.mem_iff.mp hmem) with ⟨s, hs, rfl⟩
  rcases (mem_collectVariables expression s).mp hs with ⟨c, _, _, rfl⟩
  refine ⟨c, gives_assignmentItem assignment ?_⟩
  rintro rfl
  exact hequals hs

/-- What they give in the end is the assignment. -/
theorem lastGiven_of_written
    (hitems : items.Perm ((collectVariables expression).map (assignmentItem assignment)))
    (hequals : "=" ∉ collectVariables expression) {name : Char} {value : String}
    (h : LastGiven items name value) : value = (assignment (String.singleton name)).text := by
  rcases h with ⟨before, item, after, rfl, hgives, _⟩
  rcases gives_of_written hitems hequals (List.mem_append_right _ List.mem_cons_self) with
    ⟨c, hgives'⟩
  rcases gives_unique hgives hgives' with ⟨rfl, hvalue⟩
  exact hvalue

/-- The items of an assignment are all that `eval` asks for. -/
theorem evaluable_of_written (hparse : parse limit expression config.pointerStyle = .ok tree)
    (hitems : items.Perm ((collectVariables expression).map (assignmentItem assignment)))
    (hequals : "=" ∉ collectVariables expression) :
    Evaluable limit config expression items := by
  refine ⟨fun item hmem => ?_, ⟨tree, hparse⟩, fun name value hlast => ?_, fun c hc hname => ?_⟩
  · -- Every word is the item of a variable, which gives its value.
    rcases gives_of_written hitems hequals hmem with ⟨c, hgives⟩
    exact ⟨c, _, hgives⟩
  · -- What is given last is the value of the assignment, so it is a bit.
    exact ⟨_, lastGiven_of_written hitems hequals hlast⟩
  · -- Every identifier of the source is among the variables.
    have hs : String.singleton c ∈ collectVariables expression :=
      (mem_collectVariables expression _).mpr ⟨c, hc, isReserved_of_isIdentifier hname, rfl⟩
    refine exists_lastGiven (hitems.mem_iff.mpr (List.mem_map_of_mem hs))
      (gives_assignmentItem assignment ?_)
    rintro rfl
    exact hequals hs

/-- What is printed of a tree depends on its variables alone. -/
theorem valueLines_congr {σ τ : String → Bit} (h : ∀ s ∈ tree.vars, σ s = τ s) :
    valueLines tree σ = valueLines tree τ := by
  have hfragments : ∀ f ∈ tree.fragments, f.value σ = f.value τ := fun f hf =>
    Expr.value_congr fun s hs => h s (Expr.vars_of_fragment hf s hs)
  rw [valueLines, valueLines, Expr.value_congr h]
  refine congrArg (· ++ _) (List.map_congr_left fun f hf => ?_)
  rw [hfragments f hf]

/-- Where the equals sign is no variable, `eval` prints the values under the
    assignment. -/
theorem runEval_of_written (hparse : parse limit expression config.pointerStyle = .ok tree)
    (hitems : items.Perm ((collectVariables expression).map (assignmentItem assignment)))
    (hequals : "=" ∉ collectVariables expression) :
    runEval limit config expression items = .ok (valueLines tree assignment) := by
  have hevaluable := evaluable_of_written hparse hitems hequals
  rcases runEval_cases limit config expression items with
    ⟨hnot, _⟩ | ⟨_, tree', assignment', hparse', hlast, hrun⟩
  · exact absurd hevaluable hnot
  · obtain rfl : tree' = tree := Except.ok.inj (hparse'.symm.trans hparse)
    rw [hrun]
    -- The run is under an assignment of its own, which is the same on all
    -- variables of the tree.
    refine congrArg Except.ok (valueLines_congr fun s hs => ?_)
    rw [vars_of_derives (derives_of_parse hparse)] at hs
    rcases List.mem_map.mp hs with ⟨c, hc, rfl⟩
    rcases List.mem_filter.mp hc with ⟨hc, hname⟩
    rcases hevaluable.given c hc hname with ⟨value, hvalue⟩
    rw [lastGiven_of_written hitems hequals hvalue] at hvalue
    exact hlast c _ hvalue

/-- Where it is one, its item is refused. -/
theorem runEval_of_equals
    (hitems : items.Perm ((collectVariables expression).map (assignmentItem assignment)))
    (hequals : "=" ∈ collectVariables expression) :
    runEval limit config expression items = .error .usage :=
  runEval_of_not_gives (hitems.mem_iff.mpr (List.mem_map_of_mem hequals))
    fun _ _ => not_gives_equalsItem assignment

/-- A context that gives the variables the bits of an assignment gives the tree
    its value. -/
theorem evaluate_of_assigned (hparse : parse limit expression config.pointerStyle = .ok tree)
    {context : Context} {bound : Bindings} (hcontext : context.bindings = .ok bound)
    (hbound : ∀ s ∈ collectVariables expression, bound.get? s = some (assignment s)) :
    evaluate limit tree context = .ok (tree.value assignment) := by
  have hderives := derives_of_parse hparse
  rw [evaluate, hcontext]
  simp only [Expr.evalWithin_eq_eval _ (height_le_of_parse hparse)]
  exact Expr.eval_eq_value (regular_of_derives hderives)
    fun s hs => hbound s ((mem_collectVariables_of_derives hderives s).mpr hs)

end Written

/-- An assignment of bits to the variables of a parsed expression can be passed
    to `eval` as items, in any order. If the equals sign is none of the
    variables, `eval` succeeds, and its last line ends with the bit to which the
    tree is evaluated in every context that gives the variables these bits. If
    it is one of them, `eval` refuses the items as a matter of usage. -/
theorem written_assignment {limit : Nat} {config : Config} {expression : String} {tree : Expr}
    (hparse : parse limit expression config.pointerStyle = .ok tree)
    (assignment : String → Bit) {items : List String}
    (hitems : items.Perm ((collectVariables expression).map (assignmentItem assignment))) :
    Command.ofWords? .eval (setWords items expression) = some (.eval expression items) ∧
      (∀ (context : Context) (bound : Bindings), context.bindings = .ok bound →
        (∀ s ∈ collectVariables expression, bound.get? s = some (assignment s)) →
          evaluate limit tree context = .ok (tree.value assignment)) ∧
      ("=" ∉ collectVariables expression →
        (Command.eval expression items).output limit config =
          .success (valueLines tree assignment) ∧
        (valueLines tree assignment).getLast? =
          some (tree.text ++ " => " ++ (tree.value assignment).text)) ∧
      ("=" ∈ collectVariables expression →
        (Command.eval expression items).run limit config = .error .usage) := by
  refine ⟨ofWords?_setWords items expression,
    fun context bound hcontext hbound => evaluate_of_assigned hparse hcontext hbound,
    fun hequals => ⟨?_, List.getLast?_concat⟩, runEval_of_equals hitems⟩
  rw [Command.output, Command.run, runEval_of_written hparse hitems hequals]
  rfl

/-- A space, a hyphen and a letter with an accent are written like any other
    name, and their items may come in any order. -/
theorem written_unusual_names :
    ∃ (expression : String) (tree : Expr) (assignment : String → Bit) (items : List String),
      expression = " *!(-+é)" ∧ parse 9 expression .text = .ok tree ∧
      assignment = (fun s => if s = " " then .one else .zero) ∧
      items = ["é=0", " =1", "-=0"] ∧
      items.Perm ((collectVariables expression).map (assignmentItem assignment)) ∧
      Command.ofWords? .eval ["--set", "é=0", "--set", " =1", "--set", "-=0", "--", " *!(-+é)"] =
        some (.eval expression items) ∧
      "=" ∉ collectVariables expression ∧
      (Command.eval expression items).output 9 .default =
        .success ["(-+é) = 0", "( *!(-+é)) = 1", "( *!(-+é)) => 1"] := by
  have hparse : parse 9 " *!(-+é)" Config.default.pointerStyle = .ok (.connect .conj (.symbol ' ')
      (Expr.connect .disj (.symbol '-') (.symbol 'é')).negation) := rfl
  have hitems : List.Perm ["é=0", " =1", "-=0"] ((collectVariables " *!(-+é)").map
      (assignmentItem fun s => if s = " " then .one else .zero)) := by decide
  rcases written_assignment hparse _ hitems with ⟨hwords, _, hsuccess, _⟩
  have hequals : "=" ∉ collectVariables " *!(-+é)" := by decide
  exact ⟨_, _, _, _, rfl, hparse, rfl, rfl, hitems, hwords, hequals, (hsuccess hequals).1⟩

/-- The equals sign is a variable like any other until it has to be written. The
    item of its bit is refused, although the context of the same bit is
    accepted. -/
theorem equals_sign_refused :
    ∃ tree, parse 9 "=" .text = .ok tree ∧ collectVariables "=" = ["="] ∧
      evaluate 9 tree (OrderedMap.ofList [(.text "=", .ofBit .one)]) = .ok .one ∧
      (collectVariables "=").map (assignmentItem fun _ => .one) = ["==1"] ∧
      ((Command.eval "=" ["==1"]).output 9 .default).status = 2 ∧
      ((Command.eval "=" ["==1"]).output 9 .default).stdout = "" :=
  ⟨_, rfl, rfl, rfl, rfl, rfl, rfl⟩

end Cli

end BoolCalc
