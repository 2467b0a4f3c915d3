import BoolCalc.Parse.Parser
import BoolCalc.Proofs.Sentence
import BoolCalc.Proofs.Spelling

/-!
# Parsing by the Grammar

A whole parse accepts exactly the sums of the grammar, and answers with the
tree that the grammar gives them.

A parse can also fail because it would have to nest too deeply. `Ample` says
that this is not what happens. It is a condition on the outcome and not on the
source, which makes it as weak as it can be: a long source that nests little
is parsed under a small limit. `ample_of_length_le` says that the length of
the source is always enough.

What is proved about a parse under an ample limit is proved for a limit that
is greater than the source is long, where reading a sentence is known to
succeed, and brought back by `consume_mono`.

## Main definitions

* `Parser.wholeRun`: The run that a whole parse makes.
* `Parser.wholeState`: What it leaves behind if it fails.
* `Parser.Ample`: The limit is not what a source is refused for.

## Theorems

* `construct_eq`, `construct_answer`: A whole parse and its answer, told by its
  run.
* `construct_answer_eq_ok_iff`: When a whole parse succeeds.
* `parser_of_error`, `parser_of_ok`: What a whole parse leaves behind.
* `index_of_error`: An error is about what has been read last.
* `ample_iff`: What an ample limit means for the run.
* `consume_ne_tooDeep`, `ample_of_length_le`: The length of the source is an ample limit.
* `construct_eq_ok_iff`: What a whole parse accepts.
* `derives_unique`: A sentence has one tree.
* `parse_eq_ok_iff_derives`: Parsing is deriving, and how operators group.
-/

namespace BoolCalc

namespace Parser

/-- The run that a whole parse makes. -/
def wholeRun (limit : Nat) (p : Parser) : Run :=
  consume limit (.expression 0 true) p.current (.want []) p.reader.source.toList 0

/-- The error that a whole parse reports for a cause. -/
def wholeError (limit : Nat) (p : Parser) (cause : Cause) : ParseError :=
  ⟨cause, p.reader.source, (p.wholeRun limit).index, p.reader.style⟩

/-- The limit on nesting is not what the source is refused for. -/
def Ample (limit : Nat) (p : Parser) : Prop :=
  ∀ e, (p.construct limit).answer = .error e → e.cause ≠ .tooDeep

/-- The state that a whole parse leaves behind if it fails. -/
def wholeState (limit : Nat) (p : Parser) : Parser :=
  ⟨{ p.reader with index := (p.wholeRun limit).index }, (p.wholeRun limit).current, none, []⟩

/-- A whole parse, told by its run. It fails if the run does, or if the tree of
    the run is higher than the limit, and then it leaves no tree. -/
theorem construct_eq (limit : Nat) (p : Parser) :
    p.construct limit = match (p.wholeRun limit).outcome with
      | .error cause =>
        ⟨.error (p.wholeError limit cause), p.wholeState limit, (p.wholeRun limit).log⟩
      | .ok e =>
        if limit < e.height then
          ⟨.error (p.wholeError limit .tooDeep), p.wholeState limit, (p.wholeRun limit).log⟩
        else
          ⟨.ok e, { p.wholeState limit with tree := some e, fragments := e.fragments },
            (p.wholeRun limit).log ++ [.constructed e.text e.fragments.length]⟩ := by
  -- The reader was taken back to the beginning, where everything remains.
  have hrun : consume limit (.expression 0 true) p.restart.current (.want [])
      p.restart.reader.remaining p.restart.reader.index = p.wholeRun limit := by
    unfold wholeRun Reader.remaining
    exact congrArg (fun cs => consume limit _ p.current (.want []) cs 0) List.drop_zero
  simp only [construct, hrun, wholeState, wholeError]
  rcases p.wholeRun limit with ⟨log, index, current, outcome⟩
  cases outcome with
  | error cause => rfl
  | ok e => rfl

/-- The answer of a whole parse: the tree of the run, unless it is higher than
    the limit, or the cause for which the run stopped, at the run's place. -/
theorem construct_answer (limit : Nat) (p : Parser) :
    (p.construct limit).answer = match (p.wholeRun limit).outcome with
      | .error cause => .error (p.wholeError limit cause)
      | .ok e => if limit < e.height then .error (p.wholeError limit .tooDeep) else .ok e := by
  rw [construct_eq]
  cases (p.wholeRun limit).outcome with
  | error cause => rfl
  | ok e => exact apply_ite Step.answer _ _ _

/-- A whole parse succeeds exactly if its run does, with a tree that is no higher
    than the limit. -/
theorem construct_answer_eq_ok_iff {limit : Nat} {p : Parser} {e : Expr} :
    (p.construct limit).answer = .ok e ↔
      (p.wholeRun limit).outcome = .ok e ∧ e.height ≤ limit := by
  rw [construct_answer]
  cases (p.wholeRun limit).outcome with
  | error cause => exact iff_of_false nofun fun h => absurd h.1 nofun
  | ok e' =>
      -- A tree that was read may still be too high to keep.
      by_cases hdeep : limit < e'.height
      · simp only [if_pos hdeep, reduceCtorEq, false_iff, not_and]
        intro h
        cases h
        exact Nat.not_le.mpr hdeep
      · simp only [if_neg hdeep, Except.ok.injEq]
        refine ⟨fun h => ⟨h, ?_⟩, fun h => h.1⟩
        exact h ▸ Nat.not_lt.mp hdeep

/-- What a whole parse leaves behind if it fails. -/
theorem parser_of_error {limit : Nat} {p : Parser} {err : ParseError}
    (h : (p.construct limit).answer = .error err) :
    (p.construct limit).parser = p.wholeState limit := by
  rw [construct_eq] at h ⊢
  cases hout : (p.wholeRun limit).outcome with
  | error cause => rfl
  | ok e =>
      rw [hout] at h
      by_cases hdeep : limit < e.height
      · simp only [if_pos hdeep]
      · simp only [if_neg hdeep, reduceCtorEq] at h

/-- What a whole parse leaves behind if it succeeds. -/
theorem parser_of_ok {limit : Nat} {p : Parser} {e : Expr}
    (h : (p.construct limit).answer = .ok e) :
    (p.construct limit).parser =
      { p.wholeState limit with tree := some e, fragments := e.fragments } := by
  -- Only a run that succeeds with a tree of admissible height leaves a tree.
  rw [construct_eq] at h ⊢
  cases hout : (p.wholeRun limit).outcome with
  | error cause =>
      rw [hout] at h
      exact absurd h nofun
  | ok e' =>
      rw [hout] at h
      by_cases hdeep : limit < e'.height
      · simp only [if_pos hdeep, reduceCtorEq] at h
      · simp only [if_neg hdeep] at h ⊢
        cases h
        rfl

/-- An error of a whole parse carries the position the reader is left at. -/
theorem index_of_error {limit : Nat} {p : Parser} {err : ParseError}
    (h : (p.construct limit).answer = .error err) :
    (p.construct limit).parser.reader.index = err.cursor := by
  rw [parser_of_error h]
  rw [construct_answer] at h
  -- Both kinds of failure stop where the run did.
  cases hout : (p.wholeRun limit).outcome with
  | error cause =>
      rw [hout] at h
      cases h
      rfl
  | ok e =>
      rw [hout] at h
      by_cases hdeep : limit < e.height
      · simp only [if_pos hdeep] at h
        cases h
        rfl
      · simp only [if_neg hdeep, reduceCtorEq] at h

theorem ample_of_ok {limit : Nat} {p : Parser} {e : Expr}
    (h : (p.construct limit).answer = .ok e) : Ample limit p := by
  intro err herr
  rw [h] at herr
  exact absurd herr nofun

/-- A limit is ample if the run does not meet it and the tree is within it. -/
theorem ample_iff (limit : Nat) (p : Parser) :
    Ample limit p ↔ (p.wholeRun limit).outcome ≠ .error .tooDeep ∧
      ∀ e, (p.wholeRun limit).outcome = .ok e → e.height ≤ limit := by
  unfold Ample
  rw [construct_answer]
  -- The two ways to be refused for nesting: the run meets the limit, or its
  -- tree is found to be too high afterwards.
  constructor
  · intro h
    refine ⟨fun hdeep => ?_, fun e he => ?_⟩
    · rw [hdeep] at h
      exact h _ rfl rfl
    · refine Nat.not_lt.mp (fun hlt => ?_)
      rw [he] at h
      simp only [if_pos hlt] at h
      exact h _ rfl rfl
  · rintro ⟨hdeep, hheight⟩ err herr
    cases hout : (p.wholeRun limit).outcome with
    | error cause =>
        rw [hout] at herr hdeep
        cases herr
        exact fun hcause => hdeep (congrArg Except.error hcause)
    | ok e =>
        rw [hout] at herr
        simp only [if_neg (Nat.not_lt.mpr (hheight e hout)), reduceCtorEq] at herr

/-- Under an ample limit a whole parse answers what its run comes to. -/
theorem construct_answer_of_ample {limit : Nat} {p : Parser} (h : Ample limit p) :
    (p.construct limit).answer = (p.wholeRun limit).outcome.mapError (p.wholeError limit) := by
  rw [construct_answer]
  rcases (ample_iff limit p).mp h with ⟨_, hheight⟩
  cases hout : (p.wholeRun limit).outcome with
  | error cause => rfl
  | ok e => exact if_neg (Nat.not_lt.mpr (hheight e hout))

end Parser

theorem wholeRun_mono {limit limit' : Nat} (hle : limit ≤ limit') {p : Parser}
    (h : p.Ample limit) : p.wholeRun limit' = p.wholeRun limit :=
  consume_mono hle _ _ _ _ _ ((p.ample_iff limit).mp h).1

/-- A limit that is as great as the characters are many is not what a run is refused for: a
    construct takes a character to open. -/
theorem consume_ne_tooDeep {limit : Nat} {goal : Goal} {cs : List Char} (h : cs.length ≤ limit)
    (current : Option Token) (index : Nat) :
    (consume limit goal current (.want []) cs index).outcome ≠ .error .tooDeep := by
  intro hdeep
  rcases exists_walk limit goal (.want []) cs with ⟨v, rest, τ, outcome, rfl, hw, ho⟩
  rw [(consume_of_walk hw ho _ _).1] at hdeep
  rcases stops_of_verdict ho with ⟨c, rest', fault, _, _, hbad⟩ | ⟨next, hnext, hs⟩
  · rw [hbad] at hdeep
    exact absurd hdeep nofun
  · rcases limit_le_of_stops hs hdeep with ⟨hne, hlimit⟩
    -- What is open has been read, and there is still a character ahead.
    have hopen : nesting τ.pending ≤ nesting [] + v.length := nesting_le_of_walk hw
    rw [nesting_nil] at hopen
    cases rest with
    | nil => exact hne (Except.ok.inj hnext).symm
    | cons c rest =>
        simp only [List.length_append, List.length_cons] at h
        omega

/-- The length of the source is an ample limit: no run is refused for it, and a tree is lower
    than its sentence is long. -/
theorem ample_of_length_le {limit : Nat} {p : Parser} (h : p.reader.source.length ≤ limit) :
    p.Ample limit := by
  rw [← String.length_toList] at h
  refine (p.ample_iff limit).mpr ⟨consume_ne_tooDeep h p.current 0, fun e he => ?_⟩
  -- The run accepts only sentences, and their trees are low.
  have hlt := height_lt_length (derives_of_consume he)
  omega

/-- Under an ample limit the run of a whole parse accepts exactly the sums,
    each with its tree. -/
theorem wholeRun_eq_ok_iff {limit : Nat} {p : Parser} (h : p.Ample limit) (e : Expr) :
    (p.wholeRun limit).outcome = .ok e ↔ Derives .sum p.reader.source.toList e := by
  constructor
  · exact fun hok => derives_of_consume hok
  · -- A sentence is read where the limit is great enough, and so it is here.
    intro hd
    rw [← wholeRun_mono (Nat.le_max_left limit p.reader.source.toList.length) h]
    have hsum : Derives (Goal.expression 0 true).level p.reader.source.toList e := hd
    have hend : ∀ op, none = some (Symbol.operator op) →
        op.precedence < (Goal.expression 0 true).level.floor := nofun
    have hnext : ahead [] = .ok none := rfl
    have hread := consume_of_derives hsum hnext hend (Nat.le_max_right limit _) p.current 0
    rwa [List.append_nil] at hread

theorem construct_eq_ok_iff {limit : Nat} {p : Parser} (h : p.Ample limit) (e : Expr) :
    (p.construct limit).answer = .ok e ↔ Derives .sum p.reader.source.toList e := by
  rw [Parser.construct_answer_of_ample h, ← wholeRun_eq_ok_iff h]
  cases (p.wholeRun limit).outcome with
  | error cause => exact ⟨nofun, nofun⟩
  | ok e' =>
      have hanswer : (Except.ok e' : Except Cause Expr).mapError (p.wholeError limit) = .ok e' :=
        rfl
      rw [hanswer, Except.ok.injEq, Except.ok.injEq]

theorem parse_eq_ok_iff {limit : Nat} {source : String} {style : PointerStyle}
    (h : (Parser.ofSource source style).Ample limit) (e : Expr) :
    parse limit source style = .ok e ↔ Derives .sum source.toList e :=
  construct_eq_ok_iff h e

/-- A sentence has one tree, since reading it as a source has one outcome. -/
theorem derives_unique {lvl : Level} {w : List Char} {e e' : Expr} (h : Derives lvl w e)
    (h' : Derives lvl w e') : e = e' := by
  -- Take the sentence for a source, with its length for a limit.
  have hsource : (String.ofList w).toList = w := String.toList_ofList
  have hsum : ∀ {e}, Derives lvl w e →
      parse w.length (String.ofList w) .html = .ok e := by
    intro e hd
    refine (parse_eq_ok_iff (ample_of_length_le ?_) e).mpr ?_
    · rw [← hsource, String.length_toList, String.ofList_toList]
      exact Nat.le_refl _
    · rw [hsource]
      exact derives_lift (sum_floor_le lvl) hd
  exact Except.ok.inj ((hsum h).symm.trans (hsum h'))

/-- Three factors and two operators have one tree as a sum. The second
    operator gets the first as its left side unless it binds more tightly. -/
theorem derives_three_iff (op op' : BinaryOp) {u v w : List Char} {x y z : Expr}
    (hu : Derives .factor u x) (hv : Derives .factor v y) (hw : Derives .factor w z) (e : Expr) :
    Derives .sum (u ++ op.char :: v ++ op'.char :: w) e ↔
      e = if op'.precedence ≤ op.precedence then .connect op' (.connect op x y) z
        else .connect op x (.connect op' y z) := by
  -- A factor is a sentence of every level, and so it can stand on any side.
  have hfactor : ∀ {lvl w e}, Derives .factor w e → Derives lvl w e :=
    fun hd => derives_lift (floor_le_factor_floor _) hd
  have hsum : Derives .sum (u ++ op.char :: v ++ op'.char :: w)
      (if op'.precedence ≤ op.precedence then .connect op' (.connect op x y) z
        else .connect op x (.connect op' y z)) := by
    by_cases hle : op'.precedence ≤ op.precedence
    · -- The first two factors are of the level of the second operator's left side.
      rw [if_pos hle]
      rw [← BinaryOp.leftLevel_floor, ← BinaryOp.leftLevel_floor] at hle
      have hleft := derives_lift hle (derives_connect op (hfactor hu) (hfactor hv))
      exact derives_lift (sum_floor_le _) (derives_connect op' hleft (hfactor hw))
    · -- The last two are of the level of the first operator's right side.
      rw [if_neg hle]
      have hright : op.rightLevel.floor ≤ op'.leftLevel.floor := by
        rw [BinaryOp.rightLevel_floor, BinaryOp.leftLevel_floor]
        omega
      have hsecond := derives_lift hright (derives_connect op' (hfactor hv) (hfactor hw))
      have hwhole := derives_connect op (hfactor hu) hsecond
      rw [List.append_assoc, List.cons_append]
      exact derives_lift (sum_floor_le _) hwhole
  -- One tree is enough, since a sentence has no more than one.
  exact ⟨fun hd => derives_unique hd hsum, fun he => he ▸ hsum⟩

/-- Parsing is deriving. A source is accepted with a tree exactly if it is a
    sum of the grammar that stands for that tree, whenever the limit is ample,
    and a limit as great as the source is long is. In the whole source as in
    every group the tree of two operators in a row is the one in which equal
    operators group to the left and a conjunction binds more tightly. -/
theorem parse_eq_ok_iff_derives :
    (∀ (limit : Nat) (source : String) (style : PointerStyle), source.length ≤ limit →
        (Parser.ofSource source style).Ample limit) ∧
      (∀ (limit : Nat) (source : String) (style : PointerStyle) (e : Expr),
        (Parser.ofSource source style).Ample limit →
          (parse limit source style = .ok e ↔ Derives .sum source.toList e)) ∧
      ∀ (op op' : BinaryOp) (u v w : List Char) (x y z e : Expr), Derives .factor u x →
        Derives .factor v y → Derives .factor w z →
          (Derives .sum (u ++ op.char :: v ++ op'.char :: w) e ↔
            e = if op'.precedence ≤ op.precedence then .connect op' (.connect op x y) z
              else .connect op x (.connect op' y z)) := by
  refine ⟨fun limit source style hlen => ample_of_length_le hlen,
    fun limit source style e hample => parse_eq_ok_iff hample e, ?_⟩
  intro op op' u v w x y z e hu hv hw
  exact derives_three_iff op op' hu hv hw e

/-- A conjunction with a group on its right is the right side of the
    disjunction before it. -/
theorem parse_mixed_operators :
    "a+!b*(c+0)".length ≤ 10 ∧ (Parser.ofSource "a+!b*(c+0)" .html).Ample 10 ∧
      Derives .factor ['a'] (.symbol 'a') ∧ Derives .factor ['!', 'b'] (Expr.symbol 'b').negation ∧
      Derives .factor ['(', 'c', '+', '0', ')'] (.connect .disj (.symbol 'c') (.symbol '0')) ∧
      parse 10 "a+!b*(c+0)" .html = .ok (.connect .disj (.symbol 'a')
        (.connect .conj (Expr.symbol 'b').negation
          (.connect .disj (.symbol 'c') (.symbol '0')))) := by
  rcases parse_eq_ok_iff_derives with ⟨hlength, hparse, hthree⟩
  have hlen : "a+!b*(c+0)".length ≤ 10 := by decide
  have hample := hlength 10 "a+!b*(c+0)" .html hlen
  have ha : Derives .factor ['a'] (.symbol 'a') := Derives.leaf (by decide)
  have hb : Derives .factor ['b'] (.symbol 'b') := Derives.leaf (by decide)
  have hc : Derives .factor ['c'] (.symbol 'c') := Derives.leaf (by decide)
  have hzero : Derives .factor ['0'] (.symbol '0') := Derives.leaf (by decide)
  have hnot := Derives.negation hb
  have hgroup := Derives.group (Derives.disj (Derives.product (Derives.factor hc))
    (Derives.factor hzero))
  -- The group is what makes the disjunction a factor.
  have hsum := (hthree .disj .conj _ _ _ _ _ _ _ ha hnot hgroup).mpr rfl
  exact ⟨hlen, hample, ha, hnot, hgroup, (hparse 10 _ .html _ hample).mpr hsum⟩

end BoolCalc
