import BoolCalc.Proofs.Characters
import BoolCalc.Proofs.Parsing
import BoolCalc.Proofs.Scan
import BoolCalc.Proofs.Variables

/-!
# Renaming and Parsing

Parsing commutes with every renaming of the identifiers.

A renaming takes identifiers to identifiers and keeps different ones different.
It is extended to all characters by leaving the others as they are, and from
there to everything that holds characters, with one map for each kind of data.
Nothing in a parse depends on which identifier a character is, so each function
of the machine has an equation by which a renaming passes through it. No two
characters are compared on the way, and injectivity is therefore not needed
before the variables of a source are collected.

The machine's runs are not compared character by character. A renamed walk is a
walk, the verdict where it ends is the renamed verdict, and these two fix how a
run ends.

## Main definitions

* `Renaming`: An injective map of identifiers.
* `Renaming.char`, `Renaming.text`, `Renaming.expr`, `Renaming.parseError`:
  Characters, texts, trees and parse errors with their identifiers renamed.

## Theorems

* `classify_char`: What a renamed character stands for.
* `respond_stage`, `conclude_stage`: What the machine does at a renamed stage.
* `walk_stage`, `verdict_stage`: Renamed walks, and the verdicts at their ends.
* `parse_text`: Parsing a renamed source.
* `collectVariables_text`: The variables of a renamed source.
-/

namespace BoolCalc

/-- A character that can name a variable. -/
abbrev Identifier := {c : Char // isIdentifier c = true}

/-- A change of identifiers that keeps different ones different. -/
structure Renaming where
  /-- What an identifier becomes. -/
  map : Identifier → Identifier
  /-- Different identifiers stay different. -/
  injective : Function.Injective map

namespace Renaming

variable (r : Renaming)

/-- A character after the renaming. One that is no identifier stays as it is. -/
def char (c : Char) : Char := if h : isIdentifier c = true then (r.map ⟨c, h⟩).1 else c

/-- A text after the renaming of all its characters. -/
def text (s : String) : String := String.ofList (s.toList.map r.char)

/-- A symbol after the renaming. -/
def symbol : Symbol → Symbol
  | .identifier c => .identifier (r.char c)
  | s => s

/-- A tree after the renaming of its symbols. Its operators stay as they are. -/
def expr : Expr → Expr
  | .terminal symbol => .terminal (r.text symbol)
  | .unary op operand => .unary op (expr operand)
  | .binary op left right => .binary op (expr left) (expr right)

/-- An open construct after the renaming. -/
def pending : Pending → Pending
  | .negation => .negation
  | .group => .group
  | .operator left op => .operator (r.expr left) op

/-- A stage of the machine after the renaming. -/
def stage : Stage → Stage
  | .want pending => .want (pending.map r.pending)
  | .leaf c pending => .leaf (r.char c) (pending.map r.pending)
  | .complete e pending => .complete (r.expr e) (pending.map r.pending)

/-- The cause of an error after the renaming. -/
def cause : Cause → Cause
  | .badSymbol fault c => .badSymbol fault (r.char c)
  | .noTerm => .noTerm
  | .tooDeep => .tooDeep
  | .missingClose found => .missingClose (found.map r.symbol)
  | .trailing found => .trailing (r.symbol found)

/-- An outcome after the renaming, whether or not it is a tree. -/
def outcome (o : Except Cause Expr) : Except Cause Expr := (o.mapError r.cause).map r.expr

/-- A move of the machine after the renaming. -/
def move : Move → Move
  | .advance next => .advance (r.stage next)
  | .accept e => .accept (r.expr e)
  | .refuse cause => .refuse (r.cause cause)

/-- A parse error after the renaming, at the same place of the renamed source. -/
def parseError (err : ParseError) : ParseError :=
  ⟨r.cause err.cause, r.text err.source, err.cursor, err.style⟩

section Characters

theorem char_of_isIdentifier {c : Char} (h : isIdentifier c = true) :
    r.char c = (r.map ⟨c, h⟩).1 := dif_pos h

theorem char_of_not_isIdentifier {c : Char} (h : ¬isIdentifier c = true) : r.char c = c :=
  dif_neg h

theorem isIdentifier_char (c : Char) : isIdentifier (r.char c) = isIdentifier c := by
  by_cases h : isIdentifier c = true
  · rw [char_of_isIdentifier r h, h]
    exact (r.map ⟨c, h⟩).2
  · rw [char_of_not_isIdentifier r h]

/-- Different characters stay different, since no identifier becomes one of the
    others. -/
theorem char_injective : Function.Injective r.char := by
  intro c d h
  -- Being an identifier is kept, so both characters are of one kind.
  have hkind : isIdentifier c = isIdentifier d := by
    rw [← isIdentifier_char r c, h, isIdentifier_char]
  by_cases hc : isIdentifier c = true
  · -- Both are renamed, by a map that takes no two identifiers to one.
    have hd := hkind ▸ hc
    rw [char_of_isIdentifier r hc, char_of_isIdentifier r hd] at h
    exact congrArg Subtype.val (r.injective (Subtype.ext h))
  · -- Neither of them is renamed.
    have hd : ¬isIdentifier d = true := hkind ▸ hc
    rwa [char_of_not_isIdentifier r hc, char_of_not_isIdentifier r hd] at h

theorem char_bit (b : Bit) : r.char b.char = b.char := by
  refine char_of_not_isIdentifier r ?_
  cases b with
  | zero | one => decide

/-- What a renamed character stands for. -/
theorem classify_char (c : Char) :
    Symbol.classify (r.char c) = (Symbol.classify c).map r.symbol := by
  -- An identifier stands for itself, as it is no constant and begins no construct.
  have hname : ∀ {d}, isIdentifier d = true → Symbol.classify d = .ok (.identifier d) := by
    intro d hd
    have hleaf := (Symbol.classify_eq_leaf_iff d).mpr (isOperand_of_isIdentifier hd)
    rcases hleaf with ⟨s, hs, hleaf⟩
    have hreading := Symbol.reading_classify d
    rw [hs] at hreading
    cases hreading with
    | identifier _ => exact hs
    | constant b =>
        cases b with
        | zero | one => exact absurd hd (by decide)
    | negation | operator op | openParen | closeParen => exact absurd hleaf nofun
  -- A character that is no identifier is not renamed, so it stands for what it stood
  -- for.
  by_cases h : isIdentifier c = true
  · rw [hname h, hname ((isIdentifier_char r c).trans h)]
    rfl
  · rw [char_of_not_isIdentifier r h]
    have hreading := Symbol.reading_classify c
    cases hs : Symbol.classify c with
    | error fault => rfl
    | ok s =>
        rw [hs] at hreading
        -- Only the identifiers could have been renamed.
        cases hreading with
        | identifier hname => exact absurd hname h
        | negation | operator op | constant b | openParen | closeParen => rfl

end Characters

section Texts

theorem toList_text (s : String) : (r.text s).toList = s.toList.map r.char := String.toList_ofList

theorem text_injective : Function.Injective r.text := by
  intro s t h
  have hlist := congrArg String.toList h
  rw [toList_text, toList_text] at hlist
  exact String.toList_inj.mp (List.map_injective_iff.mpr r.char_injective hlist)

theorem text_singleton (c : Char) : r.text (String.singleton c) = String.singleton (r.char c) := by
  rw [text, String.toList_singleton]
  rfl

theorem length_text (s : String) : (r.text s).length = s.length := by
  rw [← String.length_toList, toList_text, List.length_map, String.length_toList]

theorem text_bit (b : Bit) : r.text b.text = b.text := by
  have htext : b.text = String.singleton b.char := by
    cases b with
    | zero | one => rfl
  rw [htext, text_singleton, char_bit]

end Texts

section Trees

theorem expr_symbol (c : Char) : r.expr (.symbol c) = .symbol (r.char c) :=
  congrArg Expr.terminal (r.text_singleton c)

theorem height_expr (e : Expr) : (r.expr e).height = e.height := by
  induction e with
  | terminal symbol => rfl
  | unary op operand ih => rw [expr, Expr.height, Expr.height, ih]
  | binary op left right ihl ihr => rw [expr, Expr.height, Expr.height, ihl, ihr]

theorem fragments_expr (e : Expr) : (r.expr e).fragments = e.fragments.map r.expr := by
  induction e with
  | terminal symbol => rfl
  | unary op operand ih => exact ih
  | binary op left right ihl ihr =>
      rw [expr, Expr.fragments_binary, Expr.fragments_binary, ihl, ihr, List.map_append,
        List.map_append]
      rfl

end Trees

section Machine

theorem nesting_map (pending : List Pending) :
    nesting (pending.map r.pending) = nesting pending := by
  rw [nesting, nesting, List.countP_map]
  refine List.countP_congr fun p _ => ?_
  cases p with
  | negation | group | operator left op => rfl

theorem reduce_map (e : Expr) (pending : List Pending) :
    reduce (r.expr e) (pending.map r.pending) =
      Prod.map r.expr (Option.map (List.map r.pending)) (reduce e pending) := by
  -- The tree grows by each construct that is closed on the way down.
  induction pending generalizing e with
  | nil => rfl
  | cons p rest ih =>
      cases p with
      | negation => exact ih e.negation
      | group => rfl
      | operator left op => exact ih (.connect op left e)

theorem finish_map (goal : Goal) (next : Option Symbol) (e : Expr) :
    goal.finish (next.map r.symbol) (r.expr e) = r.outcome (goal.finish next e) := by
  -- A finish looks at whether the input is over, never at which symbol is next.
  cases next with
  | none =>
      cases goal with
      | term => rfl
      | expression bound whole =>
          cases whole with
          | true | false => rfl
  | some s =>
      cases goal with
      | term => rfl
      | expression bound whole =>
          cases whole with
          | true | false => rfl

theorem ofFinish_outcome (o : Except Cause Expr) :
    Move.ofFinish (r.outcome o) = r.move (.ofFinish o) := by
  cases o with
  | error cause | ok e => rfl

theorem weigh_map (goal : Goal) (op : BinaryOp) (e : Expr) (pending : List Pending) :
    (weigh goal op (r.expr e) (pending.map r.pending)).2 = r.move (weigh goal op e pending).2 := by
  -- The pending constructs are taken off one by one, by their kinds and precedences
  -- only.
  induction pending generalizing e with
  | nil =>
      cases goal with
      | term => rfl
      | expression bound whole =>
          simp only [List.map_nil, weigh]
          -- The bound is compared with the operator, which is not renamed.
          by_cases hle : op.precedence ≤ bound
          · rw [if_pos hle, if_pos hle, ← ofFinish_outcome, ← finish_map]
            rfl
          · rw [if_neg hle, if_neg hle]
            rfl
  | cons p rest ih =>
      cases p with
      | negation => exact ih e.negation
      | group => rfl
      | operator left before =>
          simp only [List.map_cons, Renaming.pending, weigh]
          -- The operator on the left is compared in the same way.
          by_cases hle : op.precedence ≤ before.precedence
          · rw [if_pos hle, if_pos hle]
            exact ih (.connect before left e)
          · rw [if_neg hle, if_neg hle]
            rfl

theorem symbol_ne_operator {s : Symbol} (hs : ∀ op, s ≠ .operator op) :
    ∀ op, r.symbol s ≠ .operator op := by
  cases s with
  | operator op => exact absurd rfl (hs op)
  | negation | constant b | identifier c | openParen | closeParen => exact fun op => nofun

theorem symbol_eq_closeParen_iff {s : Symbol} : r.symbol s = .closeParen ↔ s = .closeParen := by
  cases s with
  | closeParen => exact Iff.rfl
  | negation | operator op | constant b | identifier c | openParen => exact iff_of_false nofun nofun

theorem follow_map (goal : Goal) (e : Expr) (pending : List Pending) (s : Symbol) :
    (follow goal (r.expr e) (pending.map r.pending) (r.symbol s)).2 =
      r.move (follow goal e pending s).2 := by
  -- An operator is weighed; before every other symbol the operand is reduced.
  by_cases hs : ∃ op, s = .operator op
  · rcases hs with ⟨op, rfl⟩
    exact r.weigh_map goal op e pending
  · have hother : ∀ op, s ≠ .operator op := fun op hop => hs ⟨op, hop⟩
    rw [follow_of_not_operator _ _ _ hother,
      follow_of_not_operator _ _ _ (r.symbol_ne_operator hother), reduce_map]
    rcases reduce e pending with ⟨e', _ | outer⟩
    · -- No group is open, so the finish decides.
      exact (congrArg Move.ofFinish (r.finish_map goal (some s) e')).trans (r.ofFinish_outcome _)
    · simp only [Prod.map, Option.map, symbol_eq_closeParen_iff]
      -- A group is open, and a bracket is not renamed.
      by_cases hclose : s = .closeParen
      · rw [if_pos hclose, if_pos hclose]
        rfl
      · rw [if_neg hclose, if_neg hclose]
        rfl

theorem openConstruct_map (limit : Nat) (construct : Pending) (pending : List Pending) :
    openConstruct limit (r.pending construct) (pending.map r.pending) =
      r.move (openConstruct limit construct pending) := by
  rw [openConstruct, openConstruct, nesting_map]
  by_cases h : nesting pending < limit
  · rw [if_pos h, if_pos h]
    rfl
  · rw [if_neg h, if_neg h]
    rfl

theorem beginTerm_map (limit : Nat) (pending : List Pending) (s : Symbol) :
    beginTerm limit (pending.map r.pending) (r.symbol s) = r.move (beginTerm limit pending s) := by
  cases s with
  | negation => exact r.openConstruct_map limit .negation pending
  | openParen => exact r.openConstruct_map limit .group pending
  | constant b =>
      exact congrArg (fun c => Move.advance (.leaf c (pending.map r.pending))) (r.char_bit b).symm
  | identifier c | operator op | closeParen => rfl

/-- The machine answers a renamed symbol at a renamed stage by the renamed
    move. -/
theorem respond_stage (limit : Nat) (goal : Goal) (σ : Stage) (s : Symbol) :
    (respond limit goal (r.stage σ) (r.symbol s)).2 = r.move (respond limit goal σ s).2 := by
  cases σ with
  | want pending => exact r.beginTerm_map limit pending s
  | leaf c pending =>
      simp only [stage, respond]
      rw [← expr_symbol]
      exact r.follow_map goal (.symbol c) pending s
  | complete e pending => exact r.follow_map goal e pending s

theorem close_map (goal : Goal) (e : Expr) (pending : List Pending) :
    close goal (r.expr e) (pending.map r.pending) = r.outcome (close goal e pending) := by
  simp only [close, reduce_map]
  rcases reduce e pending with ⟨e', _ | outer⟩
  · exact r.finish_map goal none e'
  · rfl

/-- The same for the end of the input. -/
theorem conclude_stage (goal : Goal) (σ : Stage) :
    (conclude goal (r.stage σ)).2 = r.outcome (conclude goal σ).2 := by
  cases σ with
  | want pending => rfl
  | leaf c pending =>
      simp only [stage, conclude]
      rw [← expr_symbol]
      exact r.close_map goal (.symbol c) pending
  | complete e pending => exact r.close_map goal e pending

end Machine

section Runs

variable {limit : Nat} {goal : Goal} {σ τ : Stage}

theorem outcome?_move (m : Move) : (r.move m).outcome? = m.outcome?.map r.outcome := by
  cases m with
  | advance next | accept e | refuse cause => rfl

/-- A renamed walk is a walk. -/
theorem walk_stage {v : List Char} (h : Walk limit goal σ v τ) :
    Walk limit goal (r.stage σ) (v.map r.char) (r.stage τ) := by
  induction h with
  | stay σ => exact Walk.stay (r.stage σ)
  -- One step: the character stands for the renamed symbol, and the machine responds
  -- alike.
  | @step _ _ _ c s _ hc hs _ ih =>
      have hc' : Symbol.classify (r.char c) = .ok (r.symbol s) := by
        rw [classify_char, hc]
        rfl
      refine Walk.step hc' ?_ ih
      rw [respond_stage, hs]
      rfl

/-- The verdict at a renamed stage. -/
theorem verdict_stage (limit : Nat) (goal : Goal) (σ : Stage) (rest : List Char) :
    verdict limit goal (r.stage σ) (rest.map r.char) =
      (verdict limit goal σ rest).map r.outcome := by
  cases rest with
  | nil => exact congrArg some (r.conclude_stage goal σ)
  -- A character: if it stands for nothing the fault is the same, else the response is.
  | cons c rest =>
      rw [List.map_cons, verdict, verdict, classify_char]
      cases Symbol.classify c with
      | error fault => rfl
      | ok s =>
          simp only [Except.map]
          rw [respond_stage, outcome?_move]

/-- The run on renamed characters ends where the run on the characters ends, and
    with the renamed outcome. -/
theorem consume_map (limit : Nat) (goal : Goal) (σ : Stage) (cs : List Char)
    (current : Option Token) (index : Nat) :
    (consume limit goal current (r.stage σ) (cs.map r.char) index).outcome =
        r.outcome (consume limit goal current σ cs index).outcome ∧
      (consume limit goal current (r.stage σ) (cs.map r.char) index).index =
        (consume limit goal current σ cs index).index := by
  rcases exists_walk limit goal σ cs with ⟨v, rest, τ, outcome, rfl, hwalk, hverdict⟩
  -- The renamed walk ends at as many characters, and there is a verdict there too.
  have hverdict' : verdict limit goal (r.stage τ) (rest.map r.char) = some (r.outcome outcome) := by
    rw [verdict_stage, hverdict]
    rfl
  rcases consume_of_walk hwalk hverdict current index with ⟨hout, hindex⟩
  rcases consume_of_walk (r.walk_stage hwalk) hverdict' current index with ⟨hout', hindex'⟩
  rw [List.map_append, hout, hindex, hout', hindex', List.length_map, List.length_map]
  exact ⟨rfl, rfl⟩

end Runs

/-- Parsing a renamed source gives the renamed tree, or the renamed error at the
    same place. -/
theorem parse_text (limit : Nat) (source : String) (style : PointerStyle) :
    parse limit (r.text source) style =
      ((parse limit source style).mapError r.parseError).map r.expr := by
  -- Both runs stop at the same place, with outcomes that correspond.
  have hrun : ((Parser.ofSource (r.text source) style).wholeRun limit).outcome =
        r.outcome ((Parser.ofSource source style).wholeRun limit).outcome ∧
      ((Parser.ofSource (r.text source) style).wholeRun limit).index =
        ((Parser.ofSource source style).wholeRun limit).index := by
    have hsource : (Parser.ofSource (r.text source) style).reader.source.toList =
        source.toList.map r.char := r.toList_text source
    rw [Parser.wholeRun, hsource]
    exact r.consume_map limit _ (.want []) source.toList none 0
  -- So an error is the renamed one, wherever it is raised.
  have herror : ∀ cause, (Parser.ofSource (r.text source) style).wholeError limit (r.cause cause) =
      r.parseError ((Parser.ofSource source style).wholeError limit cause) := by
    intro cause
    rw [Parser.wholeError, hrun.2]
    rfl
  rw [parse, Parser.construct_answer, hrun.1, parse, Parser.construct_answer]
  cases hout : ((Parser.ofSource source style).wholeRun limit).outcome with
  | error cause => exact congrArg Except.error (herror cause)
  | ok e =>
      -- A tree is as high as the renamed one, so both pass the check or neither does.
      simp only [outcome, Except.mapError, Except.map, height_expr]
      by_cases hdeep : limit < e.height
      · rw [if_pos hdeep, if_pos hdeep]
        exact congrArg Except.error (herror .tooDeep)
      · rw [if_neg hdeep, if_neg hdeep]

theorem pos_parseError (err : ParseError) : (r.parseError err).pos = err.pos := rfl

theorem complaint?_cause (cause : Cause) : (r.cause cause).complaint? = cause.complaint? := by
  cases cause with
  | badSymbol fault c =>
      cases fault with
      | invalid | unknown => rfl
  | noTerm | tooDeep | missingClose found | trailing found => rfl

section Collecting

theorem isReserved_char (c : Char) : isReserved (r.char c) = isReserved c := by
  by_cases h : isIdentifier c = true
  · rw [isReserved_of_isIdentifier h,
      isReserved_of_isIdentifier ((r.isIdentifier_char c).trans h)]
  · rw [char_of_not_isIdentifier r h]

/-- The variables of a renamed source are the renamed variables, in the same
    order. -/
theorem collectVariables_text (source : String) :
    collectVariables (r.text source) = (collectVariables source).map r.text := by
  have hfree : (fun c => !isReserved c) ∘ r.char = fun c => !isReserved c :=
    funext fun c => congrArg not (r.isReserved_char c)
  -- It is only here that different identifiers have to stay different.
  rw [collectVariables, toList_text, collectFrom_nil, List.filter_map, hfree,
    eraseDups_map r.char_injective, collectVariables, collectFrom_nil, List.map_map, List.map_map]
  exact List.map_congr_left fun c _ => (r.text_singleton c).symm

end Collecting

end Renaming

end BoolCalc
