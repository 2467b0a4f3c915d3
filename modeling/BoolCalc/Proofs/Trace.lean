import BoolCalc.Proofs.Conservation
import BoolCalc.Proofs.Rounds

/-!
# The Trace of a Whole Parse

A whole parse reads its source once, from left to right and without going back,
and its reports show it.

The reports fall into rounds, one for each character that was read, and what a
round can look like is known. So everything that is said of the reports here is
said of a round first and added up by an induction on the rounds. Where the parse
succeeds the rounds are those of the whole source, followed by the end of the
input. Where it fails they stop somewhere, and what has been read is a first
part of the source.

The leaves are not told from the tree. They are reported in the order in which
operands are read, and that these are the leaves of the tree is known of every
sentence.

## Main definitions

* `Event.symbolRead?`, `Event.termStart?`, `Event.leaf?`, `Event.weighed?`: The
  kinds of report.
* `beginsTerm`: The characters that a term can begin with.
* `Round.Weighs`: How often operators are weighed in a round.

## Theorems

* `symbolRead_of_rounds`, `termStart_of_rounds`, `leaf_of_rounds`,
  `length_of_rounds`: What is reported in rounds.
* `symbolRead_of_consume`: What a run has read.
* `construct_trace`: The reports of a whole parse.
-/

namespace BoolCalc

namespace Event

/-- The symbol of a report that a symbol was read. -/
def symbolRead? : Event → Option Symbol
  | tokenRead s => some s
  | endReached | termStart _ | leafReached _ | operatorWeighed _ | constructed _ _ => none

/-- The character of a report that a term begins, absent at the end of the
    input. -/
def termStart? : Event → Option (Option Char)
  | termStart s => some (s.map Symbol.char)
  | tokenRead _ | endReached | leafReached _ | operatorWeighed _ | constructed _ _ => none

/-- The character of a report of a leaf. -/
def leaf? : Event → Option Char
  | leafReached c => some c
  | tokenRead _ | endReached | termStart _ | operatorWeighed _ | constructed _ _ => none

/-- The operator of a report that an operator is weighed. -/
def weighed? : Event → Option BinaryOp
  | operatorWeighed op => some op
  | tokenRead _ | endReached | termStart _ | leafReached _ | constructed _ _ => none

theorem symbolRead?_of_isToken {event : Event} (h : event.isToken = false) :
    event.symbolRead? = none := by
  cases event with
  | tokenRead s | endReached => exact absurd h nofun
  | termStart s | leafReached c | operatorWeighed op | constructed text n => rfl

end Event

/-- Whether a term can begin with a character. -/
def beginsTerm (c : Char) : Bool := c = '!' || c = '(' || isOperand c

section Reports

variable (owed : Option Char)

theorem termStart_leafReport : (leafReport owed).filterMap Event.termStart? = [] := by
  cases owed <;> rfl

theorem leaf_leafReport : (leafReport owed).filterMap Event.leaf? = owed.toList := by
  cases owed <;> rfl

theorem weighed_leafReport : (leafReport owed).filterMap Event.weighed? = [] := by
  cases owed <;> rfl

theorem length_leafReport : (leafReport owed).length = owed.toList.length := by
  cases owed <;> rfl

end Reports

namespace Round

/-- In the round of an operator that operator is weighed, at least once and no
    more often than there are levels for it, and no operator is weighed in
    another round. -/
def Weighs (t : Round) : Prop :=
  (∀ op, t.symbol = .operator op → ∃ n, t.report.filterMap Event.weighed? = List.replicate n op ∧
      1 ≤ n ∧ n ≤ op.levels) ∧
    ((∀ op, t.symbol ≠ .operator op) → t.report.filterMap Event.weighed? = [])

variable {owed owed' : Option Char} {t : Round} {c : Char}

theorem isToken_of_fits (h : t.Fits owed owed') : ∀ event ∈ t.report, event.isToken = false := by
  intro event hmem
  cases h with
  | opening _ | leaf _ => rw [List.mem_singleton.mp hmem]; rfl
  | close _ => exact isToken_of_mem_leafReport hmem
  | operator _ _ _ =>
      rcases List.mem_append.mp hmem with hmem | hmem
      · exact isToken_of_mem_leafReport hmem
      · rw [List.eq_of_mem_replicate hmem]; rfl

theorem weighs_of_fits (h : t.Fits owed owed') : t.Weighs := by
  cases h with
  -- Neither an opening bracket nor a negation is an operator that is weighed.
  | opening hs =>
      refine ⟨fun op hop => ?_, fun _ => rfl⟩
      rcases hs with rfl | rfl
      · exact absurd hop nofun
      · exact absurd hop nofun
  -- A leaf is no operator, as it stands for an operand.
  | @leaf s hs =>
      refine ⟨fun op hop => ?_, fun _ => rfl⟩
      rw [show s = .operator op from hop] at hs
      exact absurd hs nofun
  -- A bracket that closes may settle a leaf, but weighs nothing.
  | close owed => exact ⟨fun op hop => absurd hop nofun, fun _ => weighed_leafReport owed⟩
  -- The leaf that is owed is settled first, then the operator is weighed alone.
  | @operator owed op n hpos hle =>
      refine ⟨fun op' hop => ?_, fun hne => absurd rfl (hne op)⟩
      cases hop
      have hweighed : (List.replicate n (Event.operatorWeighed op)).filterMap Event.weighed? =
          List.replicate n op := List.filterMap_replicate_of_some rfl
      refine ⟨n, ?_, hpos, hle⟩
      rw [List.filterMap_append, weighed_leafReport, hweighed, List.nil_append]

/-- The characters of the shapes of a round: the ones that open a construct or
    stand between operands are no operands. -/
theorem kind_of_fits (hc : Symbol.classify c = .ok t.symbol) (h : t.Fits owed owed') :
    (owed = none ∧ owed' = none ∧ beginsTerm c = true ∧ isOperand c = false ∧
        t.report = [.termStart (some t.symbol)]) ∨
      (owed = none ∧ owed' = some c ∧ beginsTerm c = true ∧ isOperand c = true ∧
        t.report = [.termStart (some t.symbol)]) ∨
      owed' = none ∧ beginsTerm c = false ∧ isOperand c = false ∧
        ∃ n op, n ≤ 3 ∧ t.report = leafReport owed ++ List.replicate n (.operatorWeighed op) := by
  have hchar := Symbol.char_of_classify hc
  cases h with
  -- A bracket that opens and a negation begin a term and are no operand.
  | opening hs =>
      refine Or.inl ⟨rfl, rfl, ?_⟩
      rcases hs with rfl | rfl
      · subst hchar
        decide
      · subst hchar
        decide
  | @leaf s hs =>
      -- A leaf is owed from here on.
      have hoperand := (Symbol.classify_eq_leaf_iff c).mp ⟨s, hc, hs⟩
      refine Or.inr (Or.inl ⟨rfl, congrArg some hchar, ?_, hoperand, rfl⟩)
      rw [beginsTerm, hoperand, Bool.or_true]
  | close owed =>
      -- A bracket that closes is counted as an operator that is weighed no times.
      subst hchar
      refine Or.inr (Or.inr ⟨rfl, rfl, rfl, 0, .conj, Nat.zero_le 3, ?_⟩)
      exact (List.append_nil _).symm
  | @operator owed op n _ hle =>
      -- An operator is weighed once at each of its levels, of which there are three at most.
      subst hchar
      have hthree : op.levels ≤ 3 := by cases op <;> decide
      refine Or.inr (Or.inr ⟨rfl, ?_, ?_, n, op, Nat.le_trans hle hthree, rfl⟩)
      · cases op <;> rfl
      · cases op <;> rfl

end Round

section Sums

variable {owed owed' : Option Char} {cs : List Char} {ts : List Round}

/-- The symbols of rounds are those of the characters. -/
theorem symbols_of_rounds (h : Rounds owed cs ts owed') :
    ts.map (fun t => Except.ok t.symbol) = cs.map Symbol.classify := by
  induction h with
  | nil _ => rfl
  | cons hc _ _ ih => rw [List.map_cons, List.map_cons, hc, ih]

theorem chars_of_rounds (h : Rounds owed cs ts owed') :
    ts.map (Symbol.char ∘ Round.symbol) = cs := by
  induction h with
  | nil _ => rfl
  | cons hc _ _ ih => rw [List.map_cons, ih, Function.comp_apply, Symbol.char_of_classify hc]

theorem forall_of_rounds (h : Rounds owed cs ts owed') :
    ∀ t ∈ ts, ∃ before after, t.Fits before after := by
  induction h with
  | nil _ => exact fun t ht => absurd ht List.not_mem_nil
  | cons _ ht _ ih => exact List.forall_mem_cons.mpr ⟨⟨_, _, ht⟩, ih⟩

/-- What is reported to be read in rounds are their symbols. -/
theorem symbolRead_of_rounds (h : Rounds owed cs ts owed') :
    (ts.flatMap Round.events).filterMap Event.symbolRead? = ts.map Round.symbol := by
  induction h with
  | nil _ => rfl
  | @cons _ _ _ _ _ t _ _ ht _ ih =>
      -- The symbol of the round is reported first, and what follows it reads no symbol.
      have hnone : t.report.filterMap Event.symbolRead? = [] :=
        List.filterMap_eq_nil_iff.mpr fun event hmem =>
          Event.symbolRead?_of_isToken (Round.isToken_of_fits ht event hmem)
      rw [List.flatMap_cons, List.filterMap_append, ih, Round.events,
        List.filterMap_cons_some (by rfl), hnone]
      rfl

theorem endReached_of_rounds (h : Rounds owed cs ts owed') :
    (ts.flatMap Round.events).count .endReached = 0 := by
  rw [List.count_eq_zero, List.mem_flatMap]
  rintro ⟨t, hmem, hevent⟩
  rcases forall_of_rounds h t hmem with ⟨before, after, hfits⟩
  rcases List.mem_cons.mp hevent with hread | hreport
  · exact absurd hread nofun
  · exact absurd (Round.isToken_of_fits hfits _ hreport) nofun

/-- The terms that are reported to begin are the characters that a term can
    begin with. -/
theorem termStart_of_rounds (h : Rounds owed cs ts owed') :
    (ts.flatMap Round.events).filterMap Event.termStart? = (cs.filter beginsTerm).map some := by
  induction h with
  | nil _ => rfl
  | @cons owed _ _ c cs t ts hc ht _ ih =>
      rw [List.flatMap_cons, List.filterMap_append, ih, Round.events,
        List.filterMap_cons_none (by rfl)]
      -- Only the first two kinds of round report that a term begins.
      rcases Round.kind_of_fits hc ht with ⟨_, _, hbegins, _, hreport⟩ |
        ⟨_, _, hbegins, _, hreport⟩ | ⟨_, hbegins, _, n, op, _, hreport⟩
      · rw [hreport, List.filter_cons_of_pos hbegins, ← Symbol.char_of_classify hc]
        rfl
      · rw [hreport, List.filter_cons_of_pos hbegins, ← Symbol.char_of_classify hc]
        rfl
      · rw [hreport, List.filterMap_append, termStart_leafReport,
          List.filterMap_replicate_of_none rfl, List.filter_cons_of_neg (by rw [hbegins]; decide)]
        rfl

/-- The leaves that are reported, with the one that is owed in the end, are the
    operands, with the one that was owed before. -/
theorem leaf_of_rounds (h : Rounds owed cs ts owed') :
    (ts.flatMap Round.events).filterMap Event.leaf? ++ owed'.toList =
      owed.toList ++ cs.filter isOperand := by
  induction h with
  | nil _ => exact (List.append_nil _).symm
  | @cons owed _ _ c cs t ts hc ht _ ih =>
      rw [List.flatMap_cons, List.filterMap_append, List.append_assoc, ih, Round.events,
        List.filterMap_cons_none (by rfl)]
      -- The leaf that was owed is reported in this round only if the round begins no term.
      rcases Round.kind_of_fits hc ht with ⟨rfl, rfl, _, hoperand, hreport⟩ |
        ⟨rfl, rfl, _, hoperand, hreport⟩ | ⟨rfl, _, hoperand, n, op, _, hreport⟩
      · rw [hreport, List.filter_cons_of_neg (by rw [hoperand]; decide)]
        rfl
      · rw [hreport, List.filter_cons_of_pos hoperand]
        rfl
      · rw [hreport, List.filterMap_append, leaf_leafReport,
          List.filterMap_replicate_of_none rfl, List.filter_cons_of_neg (by rw [hoperand]; decide),
          List.append_nil]
        rfl

/-- There are at most four reports for each character, if a leaf that is owed is
    counted where it was read. -/
theorem length_of_rounds (h : Rounds owed cs ts owed') :
    (ts.flatMap Round.events).length + owed'.toList.length ≤
      4 * cs.length + owed.toList.length := by
  induction h with
  | nil _ => exact Nat.le_refl (0 + _)
  | @cons owed _ _ c cs t ts hc ht _ ih =>
      have hown : t.events.length = t.report.length + 1 := rfl
      rw [List.flatMap_cons, List.length_append, List.length_cons, hown]
      -- A round that begins a term has two reports. Any other has at most three operators,
      -- the symbol, and the leaf that the earlier character has paid for.
      rcases Round.kind_of_fits hc ht with ⟨rfl, rfl, _, _, hreport⟩ |
        ⟨rfl, rfl, _, _, hreport⟩ | ⟨rfl, _, _, n, op, hn, hreport⟩
      · rw [hreport, List.length_singleton]
        simp only [Option.toList_none, List.length_nil] at ih ⊢
        omega
      · rw [hreport, List.length_singleton]
        simp only [Option.toList_none, Option.toList_some, List.length_nil,
          List.length_singleton] at ih ⊢
        omega
      · rw [hreport, List.length_append, length_leafReport, List.length_replicate]
        simp only [Option.toList_none, List.length_nil] at ih ⊢
        omega

end Sums

section Runs

variable {limit : Nat}

theorem isToken_of_mem_conclude_log {goal : Goal} {σ : Stage} {event : Event}
    (h : event ∈ (conclude goal σ).1) : event.isToken = false := by
  cases ho : σ.operand? with
  | none =>
      -- Nothing was read, and the missing operand is reported and no more.
      cases σ with
      | leaf c p | complete e p => exact absurd ho nofun
      | want p => rw [List.mem_singleton.mp h]; rfl
  | some operand =>
      rcases operand with ⟨e, p⟩
      rw [conclude_log_operand goal ho] at h
      exact isToken_of_mem_leafReport h

theorem symbolRead_of_isToken {log : List Event} (h : ∀ event ∈ log, event.isToken = false) :
    log.filterMap Event.symbolRead? = [] :=
  List.filterMap_eq_nil_iff.mpr fun event hmem => Event.symbolRead?_of_isToken (h event hmem)

/-- What a run has read is a first part of the characters. It is all that the
    reader has passed, but for a character that stands for nothing. -/
theorem symbolRead_of_consume (limit : Nat) {bound : Int} {whole : Bool}
    (current : Option Token) {σ : Stage} (cs : List Char) (index : Nat) {w : List Char}
    (h : StageSpells (.expression bound whole) σ w) :
    ∃ n ≤ cs.length,
      ((consume limit (.expression bound whole) current σ cs index).log.filterMap
          Event.symbolRead?).map .ok = (cs.take n).map Symbol.classify ∧
        ((consume limit (.expression bound whole) current σ cs index).index = index + n ∨
          (∃ fault c, (consume limit (.expression bound whole) current σ cs index).outcome =
              .error (.badSymbol fault c)) ∧
            (consume limit (.expression bound whole) current σ cs index).index =
              index + n + 1) := by
  -- The run splits into rounds, and one last report where the verdict falls.
  rcases consume_rounds limit current cs index h with
    ⟨v, rest, τ, outcome, ts, rfl, hw, ho, hts, hlog⟩
  rcases consume_of_walk hw ho current index with ⟨hout, hindex⟩
  rw [hlog, hout, hindex, List.filterMap_append, symbolRead_of_rounds hts, List.map_append,
    List.map_map]
  have hread : ts.map (Except.ok ∘ Round.symbol) = v.map Symbol.classify := symbols_of_rounds hts
  rw [hread]
  -- The verdict falls at the end of the input or at a character.
  cases rest with
  | nil =>
      have hnone : (lastReport limit (.expression bound whole) τ []).filterMap
          Event.symbolRead? = [] := by
        rw [lastReport, List.filterMap_cons_none (by rfl)]
        exact symbolRead_of_isToken fun event hmem => isToken_of_mem_conclude_log hmem
      refine ⟨v.length, by simp only [List.append_nil, Nat.le_refl], ?_, Or.inl rfl⟩
      rw [hnone, List.append_nil, List.take_length]
      exact List.append_nil _
  | cons c rest =>
      have hone : min 1 (c :: rest).length = 1 := Nat.min_eq_left (Nat.succ_pos _)
      rw [hone]
      cases hc : Symbol.classify c with
      -- A character that stands for nothing is passed, but it is not reported.
      | error fault =>
          rw [verdict_badSymbol limit _ τ rest hc, Option.some.injEq] at ho
          refine ⟨v.length, by simp only [List.length_append, Nat.le_add_right], ?_,
            Or.inr ⟨⟨fault, c, ho.symm⟩, rfl⟩⟩
          simp only [lastReport, hc]
          rw [List.take_left]
          exact List.append_nil _
      | ok s =>
          -- A character that is refused for another reason has been read and reported.
          have hrest : ((respond limit (.expression bound whole) τ s).1).filterMap
              Event.symbolRead? = [] :=
            symbolRead_of_isToken fun event hmem => isToken_of_mem_respond_log hmem
          have htake : (v ++ c :: rest).take (v.length + 1) = v ++ [c] := by
            rw [List.take_length_add_append]
            rfl
          refine ⟨v.length + 1, by simp only [List.length_append, List.length_cons]; omega, ?_,
            Or.inl rfl⟩
          simp only [lastReport, hc]
          rw [List.filterMap_cons_some (by rfl), hrest, htake, List.map_append,
            List.map_singleton, List.map_singleton, hc]

/-- A run of a whole expression accepts only at the end of the input, and with
    an operand. -/
theorem accept_of_stops {bound : Int} {σ : Stage} {next : Option Symbol}
    {outcome : Except Cause Expr} {e : Expr}
    (h : Stops limit (.expression bound true) σ next outcome) (hok : outcome = .ok e) :
    next = none ∧ ∃ operand, σ.operand? = some operand := by
  cases h with
  | noTerm _ | tooDeep _ _ | missingClose _ _ _ _ => exact absurd hok nofun
  | operator _ _ _ => exact absurd hok nofun
  | finished ho _ _ =>
      cases next with
      | some s => exact absurd hok nofun
      | none => exact ⟨rfl, _, ho⟩

end Runs

namespace Parser

variable {limit : Nat} {p : Parser}

theorem log_of_error {err : ParseError} (h : (p.construct limit).answer = .error err) :
    (p.construct limit).log = (p.wholeRun limit).log := by
  rw [construct_eq] at h ⊢
  cases hout : (p.wholeRun limit).outcome with
  | error cause => rfl
  | ok e =>
      rw [hout] at h
      by_cases hdeep : limit < e.height
      · simp only [if_pos hdeep]
      · simp only [if_neg hdeep, reduceCtorEq] at h

theorem log_of_ok {e : Expr} (h : (p.construct limit).answer = .ok e) :
    (p.construct limit).log =
      (p.wholeRun limit).log ++ [.constructed e.text e.fragments.length] := by
  rcases construct_answer_eq_ok_iff.mp h with ⟨hout, hheight⟩
  rw [construct_eq, hout]
  simp only [if_neg (Nat.not_lt.mpr hheight)]

/-- What a whole parse that succeeds reports: a round for each character, the end
    of the input, a leaf that is still owed, and what was constructed. -/
theorem rounds_of_ok {e : Expr} (h : (p.construct limit).answer = .ok e) :
    ∃ owed ts, Rounds none p.reader.source.toList ts owed ∧
      (p.construct limit).log = ts.flatMap Round.events ++ .endReached ::
        (leafReport owed ++ [.constructed e.text e.fragments.length]) := by
  have hout := (construct_answer_eq_ok_iff.mp h).1
  have hspells : StageSpells (.expression 0 true) (.want []) [] := .want .nil
  rcases consume_rounds limit p.current p.reader.source.toList 0 hspells with
    ⟨v, rest, τ, outcome, ts, hcs, hw, ho, hts, hlog⟩
  have hsame : (p.wholeRun limit).outcome = outcome := by
    rw [wholeRun, hcs]
    exact (consume_of_walk hw ho p.current 0).1
  rw [hsame] at hout
  -- A run that succeeds has not stopped at a character, so all of them were read.
  rcases stops_of_verdict ho with ⟨_, _, _, _, _, hbad⟩ | ⟨next, hnext, hstops⟩
  · rw [hout] at hbad
    exact absurd hbad nofun
  · rcases accept_of_stops hstops hout with ⟨rfl, ⟨operand, q⟩, hoperand⟩
    cases rest with
    | cons c rest =>
        rw [ahead] at hnext
        cases hc : Symbol.classify c with
        | error fault | ok s =>
            rw [hc] at hnext
            cases hnext
    | nil =>
        rw [List.append_nil] at hcs
        refine ⟨τ.owed, ts, hcs ▸ hts, ?_⟩
        have hlast : lastReport limit (.expression 0 true) τ [] =
            .endReached :: leafReport τ.owed :=
          congrArg (Event.endReached :: ·) (conclude_log_operand _ hoperand)
        rw [log_of_ok h, wholeRun, hlog, hlast, List.append_assoc, List.cons_append]

/-- What a whole parse that fails reports to have read, against the position it
    fails at. -/
theorem symbolRead_of_error {err : ParseError} (h : (p.construct limit).answer = .error err) :
    ∃ n ≤ p.reader.source.length,
      ((p.construct limit).log.filterMap Event.symbolRead?).map .ok =
          (p.reader.source.toList.take n).map Symbol.classify ∧
        (err.cursor = n ∨
          (∃ fault c, err.cause = .badSymbol fault c) ∧ err.cursor = n + 1) := by
  have hcursor : (p.wholeRun limit).index = err.cursor := by
    rw [← index_of_error h, parser_of_error h]
    rfl
  have hcause : ∀ cause, (p.wholeRun limit).outcome = .error cause → err.cause = cause := by
    intro cause hout
    rw [construct_answer, hout] at h
    cases h
    rfl
  have hspells : StageSpells (.expression 0 true) (.want []) [] := .want .nil
  rcases symbolRead_of_consume limit p.current p.reader.source.toList 0 hspells with
    ⟨n, hn, hread, hindex⟩
  refine ⟨n, hn, by rw [log_of_error h]; exact hread, ?_⟩
  rw [← hcursor]
  -- Positions are counted from the beginning.
  rcases hindex with hindex | ⟨⟨fault, c, hout⟩, hindex⟩
  · exact Or.inl (hindex.trans (Nat.zero_add n))
  · exact Or.inr ⟨⟨fault, c, hcause _ hout⟩, hindex.trans (by omega)⟩

end Parser

/-- The reports of one kind in those of a whole parse, for a kind that neither the
    end of the input nor what was constructed is of. -/
theorem filterMap_rounds {β : Type} (f : Event → Option β) (hend : f Event.endReached = none)
    (hlast : ∀ text n, f (Event.constructed text n) = none) (ts : List Round)
    (owed : Option Char) (text : String) (n : Nat) :
    (ts.flatMap Round.events ++ Event.endReached ::
        (leafReport owed ++ [Event.constructed text n])).filterMap f =
      (ts.flatMap Round.events).filterMap f ++ (leafReport owed).filterMap f := by
  rw [List.filterMap_append, List.filterMap_cons_none hend, List.filterMap_append,
    List.filterMap_cons_none (hlast text n), List.filterMap_nil, List.append_nil]

/-- The reports of a whole parse, whatever the parser did before.

    If the parse succeeds, each character of the source is read once and in
    order, as the symbol that it stands for, and so is the end of the input.
    Terms are reported to begin at the characters that a term can begin with, in
    the order of the source, and the leaves are those of the tree from left to
    right. From the reading of one symbol to that of the next an operator is
    weighed only if it is the one that was read, at least once, and at most
    twice or three times, as it is a conjunction or a disjunction. In all there
    are at most four reports for each character and two more.

    If the parse fails, what has been read is a first part of the source, each
    character of it once and in order, and nothing else has been passed but the
    character that the parse fails at, if that stands for nothing. -/
theorem construct_trace (limit : Nat) (p : Parser) :
    (∀ tree, (p.construct limit).answer = .ok tree →
      ((p.construct limit).log.filterMap Event.symbolRead?).map .ok =
          p.reader.source.toList.map Symbol.classify ∧
        ((p.construct limit).log.filterMap Event.symbolRead?).map Symbol.char =
          p.reader.source.toList ∧
        (p.construct limit).log.count .endReached = 1 ∧
        (p.construct limit).log.filterMap Event.termStart? =
          (p.reader.source.toList.filter beginsTerm).map some ∧
        ((p.construct limit).log.filterMap Event.leaf?).map String.singleton = tree.leaves ∧
        (∃ (ts : List Round) (last : List Event),
          (p.construct limit).log = ts.flatMap Round.events ++ .endReached :: last ∧
          ts.map Round.symbol = (p.construct limit).log.filterMap Event.symbolRead? ∧
          (∀ t ∈ ts, t.Weighs ∧ ∀ event ∈ t.report, event.isToken = false) ∧
          last.filterMap Event.weighed? = []) ∧
        (p.construct limit).log.length ≤ 4 * p.reader.source.length + 2) ∧
      ∀ err, (p.construct limit).answer = .error err →
        ∃ n ≤ p.reader.source.length,
          ((p.construct limit).log.filterMap Event.symbolRead?).map .ok =
              (p.reader.source.toList.take n).map Symbol.classify ∧
            (err.cursor = n ∨
              (∃ fault c, err.cause = .badSymbol fault c) ∧ err.cursor = n + 1) := by
  refine ⟨fun tree h => ?_, fun err h => Parser.symbolRead_of_error h⟩
  rcases Parser.rounds_of_ok h with ⟨owed, ts, hts, hlog⟩
  have hsource := (construct_eq_ok_iff (Parser.ample_of_ok h) tree).mp h
  have hread : (p.construct limit).log.filterMap Event.symbolRead? = ts.map Round.symbol := by
    have hnone : (leafReport owed).filterMap Event.symbolRead? = [] :=
      symbolRead_of_isToken fun event hmem => isToken_of_mem_leafReport hmem
    rw [hlog, filterMap_rounds Event.symbolRead? rfl (fun _ _ => rfl), symbolRead_of_rounds hts,
      hnone, List.append_nil]
  have hclassified : (ts.map Round.symbol).map Except.ok = p.reader.source.toList.map
      Symbol.classify := by
    rw [List.map_map]
    exact symbols_of_rounds hts
  have hleaves : (p.construct limit).log.filterMap Event.leaf? =
      p.reader.source.toList.filter isOperand := by
    rw [hlog, filterMap_rounds Event.leaf? rfl (fun _ _ => rfl), leaf_leafReport]
    exact leaf_of_rounds hts
  refine ⟨by rw [hread, hclassified], ?_, ?_, ?_, ?_, ⟨ts, _, hlog, hread.symm, ?_, ?_⟩, ?_⟩
  · rw [hread, List.map_map]
    exact chars_of_rounds hts
  · -- The end is reported once, as no round reports it and no leaf does.
    rw [hlog, List.count_append, endReached_of_rounds hts, List.count_cons_self]
    have hnone : (leafReport owed ++ [Event.constructed tree.text tree.fragments.length]).count
        Event.endReached = 0 := by
      cases owed <;> rfl
    rw [hnone]
  · rw [hlog, filterMap_rounds Event.termStart? rfl (fun _ _ => rfl), termStart_of_rounds hts,
      termStart_leafReport, List.append_nil]
  · rw [hleaves, leaves_of_derives hsource]
  · intro t ht
    -- Each round weighs as its shape says, whatever leaf is owed around it.
    rcases forall_of_rounds hts t ht with ⟨before, after, hfits⟩
    exact ⟨Round.weighs_of_fits hfits, Round.isToken_of_fits hfits⟩
  · rw [List.filterMap_append, weighed_leafReport]
    rfl
  · have hlength := length_of_rounds hts
    -- The rounds are bounded by the characters, and two reports are left over.
    rw [hlog, ← String.length_toList]
    simp only [List.length_append, List.length_cons, length_leafReport, List.length_nil,
      Option.toList_none] at hlength ⊢
    omega

/-- The last operator is weighed at three levels, and a source that is refused is
    read as far as the character that stands for nothing. -/
theorem construct_trace_mixed_operators :
    ∃ (tree : Expr) (log log' : List Event),
      ((Parser.ofSource "a+!b*c+0" .text).construct 9).answer = .ok tree ∧
      log = ((Parser.ofSource "a+!b*c+0" .text).construct 9).log ∧
      log.filterMap Event.weighed? = [.disj, .conj, .disj, .disj, .disj] ∧
      (log.filterMap Event.symbolRead?).map Symbol.char = "a+!b*c+0".toList ∧
      log.count .endReached = 1 ∧
      log.filterMap Event.termStart? = ("a+!b*c+0".toList.filter beginsTerm).map some ∧
      (log.filterMap Event.leaf?).map String.singleton = ["a", "b", "c", "0"] ∧
      log.length ≤ 34 ∧
      ((Parser.ofSource "(a7b" .html).construct 9).answer =
        .error ⟨.badSymbol .invalid '7', "(a7b", 3, .html⟩ ∧
      log' = ((Parser.ofSource "(a7b" .html).construct 9).log ∧
      ∃ n ≤ 4, (log'.filterMap Event.symbolRead?).map .ok =
        ("(a7b".toList.take n).map Symbol.classify := by
  have hok : ((Parser.ofSource "a+!b*c+0" .text).construct 9).answer =
      .ok (.connect .disj (.connect .disj (.symbol 'a')
        (.connect .conj (Expr.symbol 'b').negation (.symbol 'c'))) (.symbol '0')) := rfl
  have herr : ((Parser.ofSource "(a7b" .html).construct 9).answer =
      .error ⟨.badSymbol .invalid '7', "(a7b", 3, .html⟩ := rfl
  rcases (construct_trace 9 (.ofSource "a+!b*c+0" .text)).1 _ hok with
    ⟨_, hchars, hend, hstarts, hleaves, _, hlength⟩
  rcases (construct_trace 9 (.ofSource "(a7b" .html)).2 _ herr with ⟨n, hn, hread, _⟩
  exact ⟨_, _, _, hok, rfl, rfl, hchars, hend, hstarts, hleaves, hlength, herr, rfl, n, hn, hread⟩

end BoolCalc
