import BoolCalc.Proofs.Agreement
import BoolCalc.Proofs.Items

/-!
# Commands that Print All or Nothing

What the commands print, and when they refuse.

A command that refuses prints nothing but the message of the error, and one that
does not refuse prints all it has to. What has to be shown for this is that the
steps behind the first one cannot fail. `eval` goes over the fragments after it
has evaluated the tree, and a fragment has no more variables than the tree and
is no higher. `table` asks a finished table for its canonical forms, and the
table holds the one function that it was made for.

`eval` has four things to check, and `Evaluable` names them. They are checked in
the order of the fields: an item that gives nothing is found before the
expression is parsed, what is given is looked at only for an expression that is
parsed, and an expression is evaluated only if all that is given are bits.

## Main definitions

* `Command.output`: What a command writes.
* `Output.success`, `Output.refusal`: The two ways to write anything.
* `Evaluable`: What `eval` asks of its arguments.
* `EvalRefusal`: The errors that `eval` refuses for.
* `tableLines`, `valueLines`: What `table` and `eval` have to print.

## Theorems

* `output_parse`, `output_table`, `runEval_cases`: Each of the commands.
* `tableReport_cases`, `evalReport_cases`: What is reported while a command runs,
  against what it prints.
* `exists_ofExpression_iff`: When there is a table.
* `exists_evaluate_itemContext_iff`: When there is a value.
* `commands_all_or_nothing`: All of this in one statement.
-/

namespace BoolCalc

namespace Cli

/-- What a command writes, and the status it ends with. -/
def Command.output (limit : Nat) (config : Config) (c : Command) : Output :=
  .ofAnswer (c.run limit config)

/-- The output of a command that has lines to print. -/
def Output.success (lines : List String) : Output := ⟨0, Text.unlines lines, ""⟩

/-- The output of a command that refuses because of an error. -/
def Output.refusal (e : Error) : Output := ⟨1, "", "Error: " ++ e.message ++ "\n"⟩

variable {limit : Nat} {config : Config} {expression : String}

section Requests

/-- A request that nothing is reported of is answered by its command and by
    nothing else. -/
theorem answer_of_quiet {file : Option ByteArray} {path : Option String} {name : CommandName}
    {words : List String} {loaded : Config.Loaded} {c : Command}
    (hload : Config.load file = .ok loaded) (hquiet : loaded.config.debug = false)
    (hwords : Command.ofWords? name words = some c) :
    (Request.command path false name words).report limit file = [] ∧
      Output.ofAnswer ((Request.command path false name words).answer limit file) =
        c.output limit loaded.config := by
  simp only [Request.report, Request.answer, hload, hwords, hquiet, Bool.or_self,
    Bool.false_eq_true, if_false]
  exact ⟨trivial, rfl⟩

end Requests

section Parse

/-- `parse` prints what it has to of every expression that has a tree. -/
theorem output_parse (limit : Nat) (config : Config) (expression : String) (html : Bool) :
    (∃ tree, parse limit expression config.pointerStyle = .ok tree ∧
        (Command.parse expression html).output limit config =
          .success (parseLines config html tree tree.fragments)) ∨
      ∃ err, parse limit expression config.pointerStyle = .error err ∧
        (Command.parse expression html).output limit config = .refusal (.parse err) := by
  rw [Command.output, Command.run, runParse]
  cases hparse : parse limit expression config.pointerStyle with
  | error err =>
      rw [parse] at hparse
      simp only [parsed, hparse]
      exact Or.inr ⟨err, rfl, rfl⟩
  | ok tree =>
      -- The parser keeps the fragments of the tree that it gave.
      have hkept := fragments_of_construct hparse
      rw [parse] at hparse
      simp only [parsed, hparse, hkept]
      exact Or.inl ⟨tree, rfl, rfl⟩

end Parse

section Table

/-- There is a table for an expression exactly if it is parsed and does not have
    too many variables. -/
theorem exists_ofExpression_iff {maxVariables : Nat} {style : PointerStyle} :
    (∃ t, TruthTable.ofExpression limit expression maxVariables style = .ok t) ↔
      (∃ tree, parse limit expression style = .ok tree) ∧
        (expression.toList.filter isIdentifier).toFinset.card ≤ maxVariables := by
  -- The variables that are listed are the identifiers of the source, each once.
  simp only [TruthTable.ofExpression_eq_ok_iff]
  constructor
  · rintro ⟨_, tree, hparse, hcount, _⟩
    rw [length_collectVariables_of_derives (derives_of_parse hparse)] at hcount
    exact ⟨⟨tree, hparse⟩, Int.ofNat_le.mp hcount⟩
  · rintro ⟨⟨tree, hparse⟩, hcount⟩
    refine ⟨_, tree, hparse, ?_, rfl⟩
    rw [length_collectVariables_of_derives (derives_of_parse hparse)]
    exact Int.ofNat_le.mpr hcount

/-- The lines of a table: its grid, and the forms that are asked for. -/
def tableLines (expression : String) (t : TruthTable) (sum product : String)
    (minterms maxterms fragments : Bool) : List String :=
  t.grid fragments ++ (if minterms then ["Minterms of " ++ expression ++ ": " ++ sum] else []) ++
    (if maxterms then ["Maxterms of " ++ expression ++ ": " ++ product] else [])

/-- A table has a column for the expression that it was made for, and so it has both forms. -/
theorem exists_forms_of_ofExpression {maxVariables : Int} {style : PointerStyle} {t : TruthTable}
    (htable : TruthTable.ofExpression limit expression maxVariables style = .ok t) :
    ∃ sum product, t.mintermsOf expression = .ok sum ∧ t.maxtermsOf expression = .ok product := by
  rcases TruthTable.ofExpression_eq_ok_iff.mp htable with ⟨tree, _, _, rfl⟩
  rw [TruthTable.mintermsOf, TruthTable.maxtermsOf, TruthTable.column_store]
  exact ⟨_, _, rfl, rfl⟩

/-- A table that is made has all its lines printed. -/
theorem runTable_of_ofExpression {t : TruthTable} (minterms maxterms fragments : Bool)
    (htable : TruthTable.ofExpression limit expression config.maxVariables config.pointerStyle =
      .ok t) :
    ∃ sum product, t.mintermsOf expression = .ok sum ∧ t.maxtermsOf expression = .ok product ∧
      runTable limit config expression minterms maxterms fragments =
        .ok (tableLines expression t sum product minterms maxterms fragments) := by
  rcases exists_forms_of_ofExpression htable with ⟨sum, product, hsum, hproduct⟩
  refine ⟨sum, product, hsum, hproduct, ?_⟩
  simp only [runTable, htable, hsum, hproduct]
  cases minterms with
  | true | false =>
      cases maxterms with
      | true | false => rfl

/-- `table` prints what it has to of every expression that has a table. -/
theorem output_table (limit : Nat) (config : Config) (expression : String)
    (minterms maxterms fragments : Bool) :
    (∃ t sum product,
        TruthTable.ofExpression limit expression config.maxVariables config.pointerStyle = .ok t ∧
        t.mintermsOf expression = .ok sum ∧ t.maxtermsOf expression = .ok product ∧
        (Command.table expression minterms maxterms fragments).output limit config =
          .success (tableLines expression t sum product minterms maxterms fragments)) ∨
      ∃ err, TruthTable.ofExpression limit expression config.maxVariables config.pointerStyle =
        .error err ∧ (Command.table expression minterms maxterms fragments).output limit config =
          .refusal err := by
  rw [Command.output, Command.run]
  cases htable : TruthTable.ofExpression limit expression config.maxVariables
      config.pointerStyle with
  | error err =>
      rw [runTable, htable]
      exact Or.inr ⟨err, rfl, rfl⟩
  | ok t =>
      rcases runTable_of_ofExpression minterms maxterms fragments htable with
        ⟨sum, product, hsum, hproduct, hrun⟩
      rw [hrun]
      exact Or.inl ⟨t, sum, product, rfl, hsum, hproduct, rfl⟩

/-- What `table` reports. Behind what the parser has reported stands the number of
    rows, and if there is no table nothing stands there. -/
theorem tableReport_cases (limit : Nat) (config : Config) (expression : String)
    (minterms maxterms fragments : Bool) :
    (∃ (t : TruthTable) (lines : List String),
      TruthTable.ofExpression limit expression config.maxVariables config.pointerStyle = .ok t ∧
        runTable limit config expression minterms maxterms fragments = .ok lines ∧
        tableReport limit config expression = parseReport limit config expression ++
          ["Added " ++ expression ++ " over " ++ toString (2 ^ t.names.length) ++ " row(s)"]) ∨
      (∃ failure,
        runTable limit config expression minterms maxterms fragments = .error failure) ∧
        tableReport limit config expression <+: parseReport limit config expression := by
  rw [tableReport]
  cases hcreate : TruthTable.create (collectVariables expression) config.maxVariables with
  | error err =>
      refine Or.inr ⟨⟨.expression (.table err), ?_⟩, List.nil_prefix⟩
      rw [runTable, TruthTable.ofExpression, hcreate]
  | ok empty =>
      cases hadd : empty.add limit expression config.pointerStyle with
      | error err =>
          simp only [hadd, List.append_nil]
          refine Or.inr ⟨⟨.expression err, ?_⟩, List.prefix_refl _⟩
          simp only [runTable, TruthTable.ofExpression, hcreate, hadd]
      | ok t =>
          have htable : TruthTable.ofExpression limit expression config.maxVariables
              config.pointerStyle = .ok t := by
            simp only [TruthTable.ofExpression, hcreate, hadd]
          rcases runTable_of_ofExpression minterms maxterms fragments htable with
            ⟨sum, product, _, _, hrun⟩
          have hrows : t.inputs.length = 2 ^ t.names.length := length_bitRows _
          simp only [hadd, hrows]
          exact Or.inl ⟨t, _, htable, hrun, rfl⟩

end Table

section Eval

/-- What `eval` asks of its arguments. -/
structure Evaluable (limit : Nat) (config : Config) (expression : String)
    (items : List String) : Prop where
  /-- Every item gives something. -/
  gives : ∀ item ∈ items, ∃ name value, Gives item name value
  /-- The expression is parsed. -/
  parses : ∃ tree, parse limit expression config.pointerStyle = .ok tree
  /-- What is given to a name in the end is a bit. -/
  bits : ∀ name value, LastGiven items name value → ∃ b : Bit, value = b.text
  /-- Every variable is given something. -/
  given : ∀ c ∈ expression.toList, isIdentifier c = true → ∃ value, LastGiven items c value

variable {items : List String} {named : List (Char × String)} {tree : Expr}

/-- An item that gives nothing is a matter of usage, whatever the expression. -/
theorem runEval_of_not_gives {item : String} (hmem : item ∈ items)
    (h : ∀ name value, ¬Gives item name value) :
    runEval limit config expression items = .error .usage := by
  rw [runEval, mapM_readItem?_of_not_gives hmem h]

theorem runEval_of_parse_error {err : ParseError} (hnamed : GiveEach items named)
    (hparse : parse limit expression config.pointerStyle = .error err) :
    runEval limit config expression items = .error (.expression (.parse err)) := by
  rcases mapM_readItem?_of_gives hnamed with ⟨pairs, hpairs, _⟩
  rw [parse] at hparse
  simp only [runEval, hpairs, parsed, hparse]

theorem runEval_of_eval_error {err : EvalError} (hnamed : GiveEach items named)
    (hparse : parse limit expression config.pointerStyle = .ok tree)
    (heval : evaluate limit tree (itemContext named) = .error err) :
    runEval limit config expression items = .error (.expression (.eval err)) := by
  rcases mapM_readItem?_of_gives hnamed with ⟨pairs, hpairs, hcontext⟩
  rw [parse] at hparse
  simp only [runEval, hpairs, parsed, hparse, hcontext, heval]

/-- The lines of a tree with a value: each fragment, and last the tree. -/
def valueLines (tree : Expr) (assignment : String → Bit) : List String :=
  tree.fragments.map (fun f => f.text ++ " = " ++ (f.value assignment).text) ++
    [tree.text ++ " => " ++ (tree.value assignment).text]

/-- If the tree has a value, then so have all fragments. -/
theorem runEval_of_value {b : Bit} {bound : Bindings} (hnamed : GiveEach items named)
    (hparse : parse limit expression config.pointerStyle = .ok tree)
    (hbound : (itemContext named).bindings = .ok bound)
    (heval : evaluate limit tree (itemContext named) = .ok b) :
    runEval limit config expression items = .ok (valueLines tree (assigned bound.get?)) := by
  have hregular := regular_of_derives (derives_of_parse hparse)
  rcases evaluate_ok_inv hregular heval with ⟨bound', hbound', hheight, hvars, rfl⟩
  obtain rfl : bound = bound' := Except.ok.inj (hbound.symm.trans hbound')
  -- The fragments are evaluated in the same context, and none of them is higher
  -- than the tree or has a variable that the tree does not have.
  have hfragments := evaluateFragments_of_bound hregular hbound hheight hvars
  rcases mapM_readItem?_of_gives hnamed with ⟨pairs, hpairs, hcontext⟩
  have hkept := fragments_of_construct hparse
  rw [parse] at hparse
  simp only [runEval, hpairs, parsed, hparse, hcontext, heval, hkept, hfragments, List.map_map]
  rfl

/-- What `eval` reports. Behind what the parser has reported stands the value that the
    last line shows, and if nothing is shown nothing stands there. -/
theorem evalReport_cases (limit : Nat) (config : Config) (expression : String)
    (items : List String) :
    (∃ (tree : Expr) (b : Bit) (lines : List String),
      runEval limit config expression items = .ok lines ∧
        lines.getLast? = some (tree.text ++ " => " ++ b.text) ∧
        evalReport limit config expression items =
          parseReport limit config expression ++ [tree.text ++ " -> " ++ b.text]) ∨
      (∃ failure, runEval limit config expression items = .error failure) ∧
        evalReport limit config expression items <+: parseReport limit config expression := by
  rw [runEval, evalReport]
  cases items.mapM readItem? with
  | none => exact Or.inr ⟨⟨_, rfl⟩, List.nil_prefix⟩
  | some pairs =>
      cases hanswer : (parsed limit config expression).answer with
      | error err =>
          simp only [hanswer, List.append_nil]
          exact Or.inr ⟨⟨_, rfl⟩, List.prefix_refl _⟩
      | ok tree =>
          cases heval : evaluate limit tree (.ofList pairs) with
          | error err =>
              simp only [hanswer, heval, valueReport, List.append_nil]
              exact Or.inr ⟨⟨_, rfl⟩, List.prefix_refl _⟩
          | ok b =>
              -- The value has been reported by now, but no fragment can fail behind it.
              have hregular := regular_of_derives (derives_of_parse hanswer)
              rcases evaluate_ok_inv hregular heval with ⟨bound, hbound, hheight, hvars, _⟩
              have hfragments := evaluateFragments_of_bound hregular hbound hheight hvars
              have hkept : (parsed limit config expression).parser.fragments = tree.fragments :=
                fragments_of_construct hanswer
              simp only [hanswer, hkept, heval, hfragments, valueReport]
              exact Or.inl ⟨tree, b, _, rfl, List.getLast?_concat, rfl⟩

/-- Where all that is given in the end are bits, the names are bound to them. -/
theorem exists_bindings_itemContext (hnamed : GiveEach items named)
    (hbits : ∀ name value, LastGiven items name value → ∃ b : Bit, value = b.text) :
    ∃ bound, (itemContext named).bindings = .ok bound ∧
      ∀ name b, bound.get? (String.singleton name) = some b ↔ LastGiven items name b.text := by
  have hentries : ∀ entry ∈ (OrderedMap.ofList named).entries, ∃ b : Bit, entry.2 = b.text := by
    intro entry hentry
    exact hbits entry.1 entry.2 ((lastGiven_iff_get? hnamed).mpr
      (OrderedMap.get?_eq_some_iff.mpr hentry))
  -- The bindings are the map of the items with its texts read as bits.
  refine ⟨_, Context.bindings_ofTexts_eq_ok_iff.mpr ⟨hentries, rfl⟩, fun name b => ?_⟩
  rw [OrderedMap.get?_mapEntries, lastGiven_iff_get? hnamed, Option.map_eq_some_iff]
  constructor
  · rintro ⟨value, hvalue, rfl⟩
    rcases hentries (name, value) (OrderedMap.get?_eq_some_iff.mp hvalue) with ⟨b, rfl⟩
    rw [Context.textBit_text]
    exact hvalue
  · exact fun hvalue => ⟨b.text, hvalue, Context.textBit_text b⟩

/-- What comes to bindings has been given bits in the end. -/
theorem bits_of_bindings {bound : Bindings} (hnamed : GiveEach items named)
    (hbound : (itemContext named).bindings = .ok bound) :
    ∀ name value, LastGiven items name value → ∃ b : Bit, value = b.text := by
  intro name value hlast
  have hentry := OrderedMap.get?_eq_some_iff.mp ((lastGiven_iff_get? hnamed).mp hlast)
  exact (Context.bindings_ofTexts_eq_ok_iff.mp hbound).1 _ hentry

/-- An expression has a value exactly if all that is given in the end are bits
    and every variable is given something. -/
theorem exists_evaluate_itemContext_iff (hnamed : GiveEach items named)
    (hparse : parse limit expression config.pointerStyle = .ok tree) :
    (∃ b, evaluate limit tree (itemContext named) = .ok b) ↔
      (∀ name value, LastGiven items name value → ∃ b : Bit, value = b.text) ∧
        ∀ c ∈ expression.toList, isIdentifier c = true → ∃ value, LastGiven items c value := by
  have hderives := derives_of_parse hparse
  have hregular := regular_of_derives hderives
  constructor
  · -- What has a value has bindings, so all that is given are bits.
    rintro ⟨b, heval⟩
    rcases evaluate_ok_inv hregular heval with ⟨bound, hbound, _, hvars, _⟩
    have hbits := bits_of_bindings hnamed hbound
    refine ⟨hbits, fun c hc hname => ?_⟩
    rcases exists_bindings_itemContext hnamed hbits with ⟨bound', hbound', hlast⟩
    obtain rfl : bound' = bound := Except.ok.inj (hbound'.symm.trans hbound)
    -- An identifier of the source is a variable of the tree, so it is bound.
    have hvar : String.singleton c ∈ tree.vars := by
      rw [vars_of_derives hderives]
      exact List.mem_map_of_mem (List.mem_filter.mpr ⟨hc, hname⟩)
    exact ⟨_, (hlast c _).mp (hvars _ hvar)⟩
  · -- The bindings are what is given last, and every variable is among them.
    rintro ⟨hbits, hgiven⟩
    rcases exists_bindings_itemContext hnamed hbits with ⟨bound, hbound, hlast⟩
    have hvars : ∀ s ∈ tree.vars, bound.get? s = some (assigned bound.get? s) := by
      intro s hs
      rw [vars_of_derives hderives] at hs
      rcases List.mem_map.mp hs with ⟨c, hc, rfl⟩
      rcases List.mem_filter.mp hc with ⟨hc, hname⟩
      rcases hgiven c hc hname with ⟨value, hvalue⟩
      rcases hbits c value hvalue with ⟨b, rfl⟩
      rw [assigned, (hlast c b).mpr hvalue, Option.getD_some]
    refine ⟨tree.value (assigned bound.get?), ?_⟩
    rw [evaluate, hbound]
    simp only [Expr.evalWithin_eq_eval _ (height_le_of_parse hparse)]
    exact Expr.eval_eq_value hregular hvars

/-- The errors that `eval` refuses for: that of the parse, or else that of the
    evaluation in the context of the items. -/
inductive EvalRefusal (limit : Nat) (config : Config) (expression : String)
    (items : List String) : Error → Prop
  | parse {err : ParseError} (hparse : parse limit expression config.pointerStyle = .error err) :
      EvalRefusal limit config expression items (.parse err)
  | eval {tree : Expr} {named : List (Char × String)} {err : EvalError}
      (hparse : parse limit expression config.pointerStyle = .ok tree)
      (hnamed : GiveEach items named)
      (heval : evaluate limit tree (itemContext named) = .error err) :
      EvalRefusal limit config expression items (.eval err)

/-- Every outcome of `eval`. It refuses exactly the arguments that are not
    `Evaluable`. -/
theorem runEval_cases (limit : Nat) (config : Config) (expression : String)
    (items : List String) :
    (¬Evaluable limit config expression items ∧
        ((∃ item ∈ items, ∀ name value, ¬Gives item name value) ∧
            runEval limit config expression items = .error .usage ∨
          ∃ err, EvalRefusal limit config expression items err ∧
            runEval limit config expression items = .error (.expression err))) ∨
      Evaluable limit config expression items ∧ ∃ tree assignment,
        parse limit expression config.pointerStyle = .ok tree ∧
        (∀ name b, LastGiven items name b.text → assignment (String.singleton name) = b) ∧
        runEval limit config expression items = .ok (valueLines tree assignment) := by
  -- The items are read before the expression, and that is parsed before the evaluation.
  by_cases hgives : ∀ item ∈ items, ∃ name value, Gives item name value
  · rcases exists_giveEach hgives with ⟨named, hnamed⟩
    cases hparse : parse limit expression config.pointerStyle with
    | error err =>
        -- An expression that is not parsed has no tree.
        refine Or.inl ⟨fun h => ?_, Or.inr ⟨_, .parse hparse, runEval_of_parse_error hnamed hparse⟩⟩
        rcases h.parses with ⟨tree, htree⟩
        rw [hparse] at htree
        exact absurd htree nofun
    | ok tree =>
        cases heval : evaluate limit tree (itemContext named) with
        | error err =>
            -- Bits for every variable would have given a value.
            refine Or.inl ⟨fun h => ?_,
              Or.inr ⟨_, .eval hparse hnamed heval, runEval_of_eval_error hnamed hparse heval⟩⟩
            rcases (exists_evaluate_itemContext_iff hnamed hparse).mpr ⟨h.bits, h.given⟩ with
              ⟨b, hb⟩
            rw [heval] at hb
            exact absurd hb nofun
        | ok b =>
            -- A value shows that every variable was given a bit.
            rcases (exists_evaluate_itemContext_iff hnamed hparse).mp ⟨b, heval⟩ with
              ⟨hbits, hgiven⟩
            rcases exists_bindings_itemContext hnamed hbits with ⟨bound, hbound, hlast⟩
            refine Or.inr ⟨⟨hgives, ⟨tree, hparse⟩, hbits, hgiven⟩, tree, assigned bound.get?, rfl,
              fun name b hname => ?_, runEval_of_value hnamed hparse hbound heval⟩
            rw [assigned, (hlast name b).mpr hname, Option.getD_some]
  · -- An item that gives nothing is found before anything else is looked at.
    have hbad : ∃ item ∈ items, ∀ name value, ¬Gives item name value := by
      simpa only [not_forall, not_exists, exists_prop] using hgives
    rcases hbad with ⟨item, hmem, hnone⟩
    exact Or.inl ⟨fun h => hgives h.gives,
      Or.inl ⟨⟨item, hmem, hnone⟩, runEval_of_not_gives hmem hnone⟩⟩

end Eval

/-- Commands print all or nothing. A request comes to the output of its command
    if the configuration is read and does not ask for a report. `parse` and
    `table` print all their lines, or nothing but the message of the error for
    which there is no tree or no table. `eval` does so too, unless an item gives
    nothing, which is a matter of usage whatever the expression is. `parse`
    succeeds exactly if there is a tree, `table` if there also are not too many
    variables, and `eval` if its arguments are `Evaluable`. The last line of
    `eval` is then the tree with its value, where every name has the bit that it
    was given last. -/
theorem commands_all_or_nothing (limit : Nat) (config : Config) (expression : String) :
    (∀ (file : Option ByteArray) (path : Option String) (name : CommandName)
      (words : List String) (c : Command),
      Config.load file = .ok ⟨config, false⟩ → config.debug = false →
        Command.ofWords? name words = some c →
          (Request.command path false name words).report limit file = [] ∧
            Output.ofAnswer ((Request.command path false name words).answer limit file) =
              c.output limit config) ∧
      (∀ html,
        (((Command.parse expression html).output limit config).status = 0 ↔
          ∃ tree, parse limit expression config.pointerStyle = .ok tree) ∧
        ((∃ tree, parse limit expression config.pointerStyle = .ok tree ∧
            (Command.parse expression html).output limit config =
              .success (parseLines config html tree tree.fragments)) ∨
          ∃ err, parse limit expression config.pointerStyle = .error err ∧
            (Command.parse expression html).output limit config = .refusal (.parse err))) ∧
      (∀ minterms maxterms fragments,
        (((Command.table expression minterms maxterms fragments).output limit config).status = 0 ↔
          (∃ tree, parse limit expression config.pointerStyle = .ok tree) ∧
            (expression.toList.filter isIdentifier).toFinset.card ≤ config.maxVariables) ∧
        ((∃ t sum product,
            TruthTable.ofExpression limit expression config.maxVariables config.pointerStyle =
              .ok t ∧
            t.mintermsOf expression = .ok sum ∧ t.maxtermsOf expression = .ok product ∧
            (Command.table expression minterms maxterms fragments).output limit config =
              .success (tableLines expression t sum product minterms maxterms fragments)) ∨
          ∃ err,
            TruthTable.ofExpression limit expression config.maxVariables config.pointerStyle =
              .error err ∧
            (Command.table expression minterms maxterms fragments).output limit config =
              .refusal err)) ∧
      ∀ items,
        (((Command.eval expression items).output limit config).status = 0 ↔
          Evaluable limit config expression items) ∧
        ((∃ item ∈ items, ∀ name value, ¬Gives item name value) →
          ((Command.eval expression items).output limit config).status = 2 ∧
            ((Command.eval expression items).output limit config).stdout = "") ∧
        ((∀ item ∈ items, ∃ name value, Gives item name value) →
          (∃ tree assignment, parse limit expression config.pointerStyle = .ok tree ∧
            (∀ name b, LastGiven items name b.text → assignment (String.singleton name) = b) ∧
            (Command.eval expression items).output limit config =
              .success (valueLines tree assignment)) ∨
          ∃ err, EvalRefusal limit config expression items err ∧
            (Command.eval expression items).output limit config = .refusal err) := by
  refine ⟨fun file path name words c => answer_of_quiet, fun html => ?_,
    fun minterms maxterms fragments => ?_, fun items => ?_⟩
  · -- The outcome of a parse is that of its tree.
    rcases output_parse limit config expression html with
      ⟨tree, hparse, hout⟩ | ⟨err, hparse, hout⟩
    · rw [hout]
      exact ⟨iff_of_true rfl ⟨tree, hparse⟩, Or.inl ⟨tree, hparse, rfl⟩⟩
    · rw [hout, hparse]
      exact ⟨iff_of_false nofun nofun, Or.inr ⟨err, rfl, rfl⟩⟩
  · -- A table is made, and then no later step of the command fails.
    rw [← exists_ofExpression_iff]
    rcases output_table limit config expression minterms maxterms fragments with
      ⟨t, sum, product, htable, hsum, hproduct, hout⟩ | ⟨err, htable, hout⟩
    · rw [hout]
      exact ⟨iff_of_true rfl ⟨t, htable⟩, Or.inl ⟨t, sum, product, htable, hsum, hproduct, rfl⟩⟩
    · rw [hout, htable]
      exact ⟨iff_of_false nofun nofun, Or.inr ⟨err, rfl, rfl⟩⟩
  · -- The three ways that an evaluation can go: a usage error, a refusal and a value.
    rw [Command.output, Command.run]
    rcases runEval_cases limit config expression items with
      ⟨hnot, ⟨⟨item, hmem, hnone⟩, hrun⟩ | ⟨err, hrefusal, hrun⟩⟩ |
        ⟨hevaluable, tree, assignment, hparse, hlast, hrun⟩
    · rw [hrun]
      refine ⟨iff_of_false nofun hnot, fun _ => ⟨rfl, rfl⟩, fun hgives => ?_⟩
      rcases hgives item hmem with ⟨name, value, hgives⟩
      exact absurd hgives (hnone name value)
    · rw [hrun]
      refine ⟨iff_of_false nofun hnot, ?_, fun _ => Or.inr ⟨err, hrefusal, rfl⟩⟩
      rintro ⟨item, hmem, hnone⟩
      exact absurd (hrun.symm.trans (runEval_of_not_gives hmem hnone)) nofun
    · rw [hrun]
      refine ⟨iff_of_true rfl hevaluable, ?_,
        fun _ => Or.inl ⟨tree, assignment, hparse, hlast, rfl⟩⟩
      rintro ⟨item, hmem, hnone⟩
      rcases hevaluable.gives item hmem with ⟨name, value, hgives⟩
      exact absurd hgives (hnone name value)

/-- A name is given two values, the last of them between blanks, and another
    name is given a value that it does not need. Without the name `b` the same
    expression is refused, and an item without a name is a matter of usage even
    where the expression cannot be parsed. -/
theorem eval_last_given :
    ∃ (words items : List String) (config : Config),
      words = ["a*!b", "--set", "b=1", "-s", "a= 1", "--set=b= 0 ", "-sx=1"] ∧
      items = ["b=1", "a= 1", "b= 0 ", "x=1"] ∧
      Config.load none = .ok ⟨config, false⟩ ∧ config.debug = false ∧
      Command.ofWords? .eval words = some (.eval "a*!b" items) ∧
      Output.ofAnswer ((Request.command none false .eval words).answer 9 none) =
        .success ["(a*!b) = 1", "(a*!b) => 1"] ∧
      Evaluable 9 config "a*!b" items ∧
      (Command.eval "a*!b" ["a= 1"]).output 9 config =
        .refusal (.eval (.undefinedVariable "b")) ∧
      ¬Evaluable 9 config "a*!b" ["a= 1"] ∧
      (∀ name value, ¬Gives "=1" name value) ∧
      ((Command.eval "a*!" ["=1"]).output 9 config).status = 2 := by
  -- The request, the same command with fewer items, and a command that is not read at
  -- all.
  rcases commands_all_or_nothing 9 .default "a*!b" with ⟨hrequest, _, _, heval⟩
  rcases commands_all_or_nothing 9 .default "a*!" with ⟨_, _, _, heval'⟩
  have hwords : Command.ofWords? .eval
      ["a*!b", "--set", "b=1", "-s", "a= 1", "--set=b= 0 ", "-sx=1"] =
        some (.eval "a*!b" ["b=1", "a= 1", "b= 0 ", "x=1"]) := by decide +kernel
  have hrun : (Command.eval "a*!b" ["b=1", "a= 1", "b= 0 ", "x=1"]).output 9 .default =
      .success ["(a*!b) = 1", "(a*!b) => 1"] := rfl
  have hrefused : (Command.eval "a*!b" ["a= 1"]).output 9 .default =
      .refusal (.eval (.undefinedVariable "b")) := rfl
  have hnone : ∀ name value, ¬Gives "=1" name value := readItem?_eq_none_iff.mp rfl
  refine ⟨_, _, _, rfl, rfl, rfl, rfl, hwords, ?_, (heval _).1.mp ?_, hrefused, ?_, hnone,
    ((heval' ["=1"]).2.1 ⟨_, List.mem_singleton_self _, hnone⟩).1⟩
  · exact (hrequest none none .eval _ _ rfl rfl hwords).2.trans hrun
  · rw [hrun]
    rfl
  · rw [← (heval _).1, hrefused]
    exact nofun

end Cli

end BoolCalc
