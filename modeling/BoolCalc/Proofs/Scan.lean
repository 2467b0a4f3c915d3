import BoolCalc.Proofs.RoundTrip

/-!
# Parse Errors by Scanning

Which error a source is refused with, and where, without parsing it.

The machine keeps a stack of trees and operators. To know whether it stops at
a character it is enough to know whether it wants an operand and how many
groups are open, which is what an `Outlook` says. A scan reads characters from
left to right and keeps only its outlook; it stops at the first character that
the outlook does not allow.

`Outlook.read` is written on characters, as a rule that can be followed by
hand. It is held against the machine rule by rule: `read_of_advances` says that
the outlook follows every rule for going on, and `scan_of_verdict` that the
scan stops wherever the machine stops, with the same complaint. Along a walk
the two stay together by induction.

Since a scan looks at nothing behind the character it stops at, neither does
the error.

## Main definitions

* `Complaint`, `Cause.complaint?`: The kinds of error in a source.
* `Outlook`: What a scan knows.
* `Outlook.read`, `Outlook.finish`: What it makes of a character and of the
  end of the input.
* `Outlook.scan`: The first complaint, with its position.
* `Stage.outlook`: What a scan knows of a stage.
* `Parser.Builds`: A tree is made in the course of a whole parse.

## Theorems

* `read_of_advances`: The outlook follows the machine.
* `scan_of_walk`, `scan_of_verdict`: The scan of a run.
* `scan_of_take_eq`: A scan does not look beyond where it stops.
* `scan_bounds`: Where a scan stops.
* `ok_of_scan`, `error_of_scan`: The answer of a whole parse is that of the
  scan.
* `readable_of_builds`: What is built on the way passes validation.
* `construct_follows_scan`: The error law of whole parses.
-/

namespace BoolCalc

/-- The kinds of error that a source can have. -/
inductive Complaint
  | invalidSymbol
  | unknownSymbol
  | noTerm
  | missingClose
  | trailing
  deriving DecidableEq, Repr

/-- The kind of a cause. Nesting too deeply is no error of the source. -/
def Cause.complaint? : Cause → Option Complaint
  | .badSymbol .invalid _ => some .invalidSymbol
  | .badSymbol .unknown _ => some .unknownSymbol
  | .noTerm => some .noTerm
  | .tooDeep => none
  | .missingClose _ => some .missingClose
  | .trailing _ => some .trailing

/-- What a scan knows: whether it wants an operand or has one behind it, and
    how many groups are open. -/
inductive Outlook
  | operand (depth : Nat)
  | continuation (depth : Nat)
  deriving DecidableEq, Repr

namespace Outlook

/-- What a scan makes of a character. -/
def read (o : Outlook) (c : Char) : Except Complaint Outlook :=
  if Symbol.isInvalidDigit c then .error .invalidSymbol
  else if !Text.isPrintable c then .error .unknownSymbol
  else
    match o with
    | operand depth =>
      if c = '!' then .ok (operand depth)
      else if c = '(' then .ok (operand (depth + 1))
      else if isOperand c then .ok (continuation depth)
      else .error .noTerm
    | continuation depth =>
      if c = '*' ∨ c = '+' then .ok (operand depth)
      else if c = ')' ∧ 0 < depth then .ok (continuation (depth - 1))
      else if 0 < depth then .error .missingClose
      else .error .trailing

/-- What a scan makes of the end of the input. -/
def finish : Outlook → Option Complaint
  | operand _ => some .noTerm
  | continuation depth => if 0 < depth then some .missingClose else none

/-- The first complaint about characters from a position on, with the position
    of the character it is about. The end of the input has the position behind
    the last character. -/
def scan (o : Outlook) : List Char → Nat → Option (Complaint × Nat)
  | [], index => o.finish.map (·, index)
  | c :: rest, index =>
    match o.read c with
    | .error complaint => some (complaint, index)
    | .ok next => next.scan rest (index + 1)

theorem scan_ok {o next : Outlook} {c : Char} (h : o.read c = .ok next) (rest : List Char)
    (index : Nat) : o.scan (c :: rest) index = next.scan rest (index + 1) := by
  rw [scan, h]

theorem scan_error {o : Outlook} {c : Char} {complaint : Complaint}
    (h : o.read c = .error complaint) (rest : List Char) (index : Nat) :
    o.scan (c :: rest) index = some (complaint, index) := by
  rw [scan, h]

theorem read_legal {c : Char} {s : Symbol} (hc : Symbol.classify c = .ok s) (o : Outlook) :
    o.read c = match o with
      | operand depth =>
        if c = '!' then .ok (operand depth)
        else if c = '(' then .ok (operand (depth + 1))
        else if isOperand c then .ok (continuation depth)
        else .error .noTerm
      | continuation depth =>
        if c = '*' ∨ c = '+' then .ok (operand depth)
        else if c = ')' ∧ 0 < depth then .ok (continuation (depth - 1))
        else if 0 < depth then .error .missingClose
        else .error .trailing := by
  rcases Symbol.legal_of_classify hc with ⟨hdigit, hprint⟩
  unfold read
  rw [if_neg (by rw [hdigit]; decide), if_neg (by rw [hprint]; decide)]

end Outlook

/-- What a scan knows of a stage. -/
def Stage.outlook : Stage → Outlook
  | .want pending => .operand (groups pending)
  | .leaf _ pending | .complete _ pending => .continuation (groups pending)

theorem outlook_of_operand {σ : Stage} {e : Expr} {p : List Pending}
    (h : σ.operand? = some (e, p)) : σ.outlook = .continuation (groups p) := by
  rcases operand_cases h with ⟨c, rfl, _⟩ | rfl
  · rfl
  · rfl

theorem ne_operator_of_classify {c : Char} {s : Symbol} (hc : Symbol.classify c = .ok s)
    (hs : ∀ op, some s ≠ some (.operator op)) : ¬(c = '*' ∨ c = '+') := by
  rintro (rfl | rfl)
  · exact hs .conj (congrArg some (Except.ok.inj (hc.symm.trans rfl)))
  · exact hs .disj (congrArg some (Except.ok.inj (hc.symm.trans rfl)))

theorem operator_char_eq (op : BinaryOp) : op.char = '*' ∨ op.char = '+' := by
  cases op with
  | conj => exact Or.inl rfl
  | disj => exact Or.inr rfl

section Simulation

variable {limit : Nat} {goal : Goal}

/-- The outlook follows every rule for going on. -/
theorem read_of_advances {σ τ : Stage} {c : Char} {s : Symbol} (hc : Symbol.classify c = .ok s)
    (h : Advances limit goal σ s τ) : σ.outlook.read c = .ok τ.outlook := by
  have hchar := Symbol.char_of_classify hc
  rw [Outlook.read_legal hc]
  -- Only the groups on the stack are counted, and finishing never removes one.
  cases h with
  | @negation p _ =>
      subst hchar
      simp only [Stage.outlook, groups_negation]
      exact if_pos rfl
  | @group p _ =>
      subst hchar
      simp only [Stage.outlook, groups_group]
      exact (if_neg (by decide)).trans (if_pos rfl)
  | leaf hs =>
      have hoperand := (Symbol.classify_eq_leaf_iff c).mp ⟨s, hc, hs⟩
      simp only [Stage.outlook]
      rw [if_neg (ne_of_isOperand hoperand (by decide)),
        if_neg (ne_of_isOperand hoperand (by decide)), if_pos hoperand]
  | @operator _ _ _ _ _ op ho hs _ =>
      subst hchar
      rw [outlook_of_operand ho, groups_of_settles hs]
      simp only [Stage.outlook, groups_operator]
      exact if_pos (operator_char_eq op)
  | @close _ _ _ _ outer ho hs =>
      -- There is a group to close, so the depth is not zero.
      subst hchar
      rw [outlook_of_operand ho, groups_of_settles hs, groups_group]
      simp only [Stage.outlook]
      rw [if_neg (by decide), if_pos ⟨rfl, Nat.succ_pos _⟩, Nat.add_sub_cancel]

/-- On a walk the outlook stays with the machine. -/
theorem scan_of_walk {σ τ : Stage} {v : List Char} (hw : Walk limit goal σ v τ)
    (rest : List Char) (index : Nat) :
    σ.outlook.scan (v ++ rest) index = τ.outlook.scan rest (index + v.length) := by
  induction hw generalizing index with
  | stay σ => rfl
  | step hc hs _ ih =>
      rw [List.cons_append, Outlook.scan_ok (read_of_advances hc (advances_of_advance hs)), ih]
      rw [List.length_cons, Nat.add_assoc, Nat.add_comm 1]

/-- Before a legal character the outlook complains if the machine stops. -/
theorem read_of_stops {bound : Int} (hbound : bound ≤ 0) {σ : Stage} {c : Char} {s : Symbol}
    {outcome : Except Cause Expr} (hc : Symbol.classify c = .ok s)
    (h : Stops limit (.expression bound true) σ (some s) outcome)
    (hdeep : outcome ≠ .error .tooDeep) :
    ∃ cause complaint, outcome = .error cause ∧ cause.complaint? = some complaint ∧
      σ.outlook.read c = .error complaint := by
  have hchar := Symbol.char_of_classify hc
  rw [Outlook.read_legal hc]
  cases h with
  | @noTerm p _ hn =>
      refine ⟨.noTerm, .noTerm, rfl, rfl, ?_⟩
      simp only [Stage.outlook]
      rcases hn with hn | hn | ⟨op, hn⟩
      · exact absurd hn nofun
      · cases hn
        subst hchar
        rfl
      · cases hn
        subst hchar
        cases op with
        | conj | disj => rfl
  | tooDeep _ _ => exact absurd rfl hdeep
  | @operator _ _ _ _ op _ _ hb =>
      -- A whole expression lets no operator stop it.
      have hfloor := sum_floor_le_precedence op
      rw [Goal.level, if_pos hbound] at hb
      exact absurd hfloor (Int.not_le.mpr hb)
  | @finished _ _ e' _ _ ho hs hn =>
      -- Nothing is open, and there is more behind the expression.
      refine ⟨.trailing s, .trailing, rfl, rfl, ?_⟩
      rw [outlook_of_operand ho, groups_of_settles hs, groups_nil]
      simp only []
      rw [if_neg (ne_operator_of_classify hc hn), if_neg (fun h => Nat.lt_irrefl 0 h.2),
        if_neg (Nat.lt_irrefl 0)]
  | @missingClose _ _ _ _ outer _ ho hs hn hclose =>
      refine ⟨.missingClose (some s), .missingClose, rfl, rfl, ?_⟩
      rw [outlook_of_operand ho, groups_of_settles hs, groups_group]
      have hne : c ≠ ')' := by
        rintro rfl
        exact hclose (congrArg some (Except.ok.inj (hc.symm.trans rfl)))
      simp only []
      rw [if_neg (ne_operator_of_classify hc hn), if_neg (fun h => hne h.1),
        if_pos (Nat.succ_pos _)]

/-- At the end of the input the outlook complains unless the machine accepts. -/
theorem finish_of_stops {whole : Bool} {bound : Int} {σ : Stage} {outcome : Except Cause Expr}
    (h : Stops limit (.expression bound whole) σ none outcome) :
    (∃ e, outcome = .ok e ∧ σ.outlook.finish = none) ∨
      ∃ cause complaint, outcome = .error cause ∧ cause.complaint? = some complaint ∧
        σ.outlook.finish = some complaint := by
  -- No operator can follow at the end, and no construct can be opened there.
  cases h with
  | noTerm _ => exact Or.inr ⟨.noTerm, .noTerm, rfl, rfl, rfl⟩
  | @finished _ _ e' _ _ ho hs _ =>
      refine Or.inl ⟨e', ?_, ?_⟩
      · cases whole with
        | true | false => rfl
      · rw [outlook_of_operand ho, groups_of_settles hs]
        rfl
  | @missingClose _ _ _ _ outer _ ho hs _ _ =>
      refine Or.inr ⟨.missingClose none, .missingClose, rfl, rfl, ?_⟩
      rw [outlook_of_operand ho, groups_of_settles hs, groups_group, Outlook.finish,
        if_pos (Nat.succ_pos _)]

/-- Where the machine stops the scan stops, with the complaint that the
    machine's cause is of. -/
theorem scan_of_verdict {bound : Int} (hbound : bound ≤ 0) {σ : Stage} {rest : List Char}
    {outcome : Except Cause Expr}
    (ho : verdict limit (.expression bound true) σ rest = some outcome)
    (hdeep : outcome ≠ .error .tooDeep) (index : Nat) :
    (∃ e, outcome = .ok e ∧ σ.outlook.scan rest index = none) ∨
      ∃ cause complaint, outcome = .error cause ∧ cause.complaint? = some complaint ∧
        σ.outlook.scan rest index = some (complaint, index) := by
  rcases stops_of_verdict ho with ⟨c, rest', fault, rfl, hc, rfl⟩ | ⟨next, hnext, hs⟩
  · -- Both look at the character before anything else.
    cases fault with
    | invalid =>
        have hdigit := (Symbol.classify_eq_invalid_iff c).mp hc
        refine Or.inr ⟨_, .invalidSymbol, rfl, rfl, Outlook.scan_error ?_ rest' index⟩
        exact if_pos hdigit
    | unknown =>
        have hprint := (Symbol.classify_eq_unknown_iff c).mp hc
        have hdigit : ¬Symbol.isInvalidDigit c = true := by
          intro h
          rw [Symbol.isPrintable_of_isInvalidDigit h] at hprint
          cases hprint
        refine Or.inr ⟨_, .unknownSymbol, rfl, rfl, Outlook.scan_error ?_ rest' index⟩
        have hunknown : (!Text.isPrintable c) = true := by
          rw [hprint]
          rfl
        exact (if_neg hdigit).trans (if_pos hunknown)
  · -- The character is legal, or there is none: the rules decide as the scan does.
    cases rest with
    | nil =>
        cases hnext
        rw [Outlook.scan]
        rcases finish_of_stops hs with ⟨e, he, hf⟩ | ⟨cause, complaint, hcause, hk, hf⟩
        · exact Or.inl ⟨e, he, by rw [hf]; rfl⟩
        · exact Or.inr ⟨cause, complaint, hcause, hk, by rw [hf]; rfl⟩
    | cons c rest' =>
        cases hc : Symbol.classify c with
        | error fault =>
            rw [ahead, hc] at hnext
            cases hnext
        | ok s =>
            rw [ahead, hc] at hnext
            cases hnext
            rcases read_of_stops hbound hc hs hdeep with ⟨cause, complaint, hcause, hk, hread⟩
            exact Or.inr ⟨cause, complaint, hcause, hk, Outlook.scan_error hread rest' index⟩

end Simulation

/-- What is known before anything is read: an operand is wanted and no group is
    open. -/
def Outlook.start : Outlook := .operand 0

theorem scan_bounds {o : Outlook} {cs : List Char} {index stop : Nat} {complaint : Complaint}
    (h : o.scan cs index = some (complaint, stop)) : index ≤ stop ∧ stop ≤ index + cs.length := by
  -- The scan stops at the character it complains of, or further on.
  induction cs generalizing o index with
  | nil =>
      rw [Outlook.scan, Option.map_eq_some_iff] at h
      rcases h with ⟨_, _, heq⟩
      cases heq
      exact ⟨Nat.le_refl _, Nat.le_refl _⟩
  | cons c rest ih =>
      cases hread : o.read c with
      | error k =>
          rw [Outlook.scan_error hread] at h
          cases h
          exact ⟨Nat.le_refl _, Nat.le_add_right _ _⟩
      | ok next =>
          rw [Outlook.scan_ok hread] at h
          have hbounds := ih h
          simp only [List.length_cons]
          omega

/-- A scan that stops at a character does not look beyond it. -/
theorem scan_of_take_eq {o : Outlook} {cs cs' : List Char} {index stop : Nat}
    {complaint : Complaint} (h : o.scan cs index = some (complaint, stop))
    (hstop : stop < index + cs.length)
    (htake : cs'.take (stop + 1 - index) = cs.take (stop + 1 - index)) :
    o.scan cs' index = some (complaint, stop) := by
  induction cs generalizing o cs' index with
  | nil =>
      have hbounds := scan_bounds h
      simp only [List.length_nil] at hstop
      omega
  | cons c rest ih =>
      have hbounds := scan_bounds h
      -- The first characters agree, and the rest is behind one of them.
      have hpos : stop + 1 - index = stop - index + 1 := by omega
      rw [hpos, List.take_succ_cons] at htake
      cases cs' with
      | nil => exact absurd htake nofun
      | cons c' rest' =>
          rw [List.take_succ_cons, List.cons.injEq] at htake
          rcases htake with ⟨rfl, htake⟩
          cases hread : o.read c' with
          | error k =>
              rw [Outlook.scan_error hread] at h ⊢
              exact h
          | ok next =>
              rw [Outlook.scan_ok hread] at h ⊢
              have hnext := scan_bounds h
              have hlen : stop + 1 - (index + 1) = stop - index := by omega
              refine ih h ?_ (by rw [hlen, htake])
              simp only [List.length_cons] at hstop
              omega

/-- The position of an error whose cursor is past the place where a scan stops,
    or at the end of the input. -/
theorem pos_of_cursor {err : ParseError} {stop length : Nat} (hstop : stop ≤ length)
    (h : err.cursor = min (stop + 1) length) :
    err.pos = if stop < length then stop else length - 1 := by
  unfold ParseError.pos
  by_cases hlt : stop < length
  · rw [if_pos hlt]
    omega
  · rw [if_neg hlt]
    omega

/-- A whole parse answers as the scan of its source does. -/
theorem answer_of_scan {limit : Nat} {p : Parser} (h : p.Ample limit) :
    (∃ e, (p.construct limit).answer = .ok e ∧
        Outlook.start.scan p.reader.source.toList 0 = none) ∨
      ∃ err complaint stop, (p.construct limit).answer = .error err ∧
        Outlook.start.scan p.reader.source.toList 0 = some (complaint, stop) ∧
        err.cause.complaint? = some complaint ∧ stop ≤ p.reader.source.length ∧
        err.cursor = min (stop + 1) p.reader.source.length := by
  rcases exists_walk limit (.expression 0 true) (.want []) p.reader.source.toList with
    ⟨v, rest, τ, outcome, hcs, hw, ho⟩
  -- The machine and the scan take the same walk and stop at the same place.
  have hrun := consume_of_walk hw ho p.current 0
  rw [← hcs] at hrun
  rcases hrun with ⟨hout, hindex⟩
  have hdeep : outcome ≠ .error .tooDeep := by
    rw [← hout]
    exact ((p.ample_iff limit).mp h).1
  have hscan := scan_of_walk hw rest 0
  rw [← hcs, Nat.zero_add] at hscan
  have hanswer := Parser.construct_answer_of_ample h
  rw [show (p.wholeRun limit).outcome = outcome from hout] at hanswer
  rcases scan_of_verdict (Int.le_refl 0) ho hdeep v.length with
    ⟨e, rfl, hstop⟩ | ⟨cause, complaint, rfl, hk, hstop⟩
  · exact Or.inl ⟨e, hanswer, hscan.trans hstop⟩
  · have hlen : p.reader.source.length = v.length + rest.length := by
      rw [← String.length_toList, hcs, List.length_append]
    have hcursor : (p.wholeRun limit).index = 0 + v.length + min 1 rest.length := hindex
    refine Or.inr ⟨_, complaint, v.length, hanswer, hscan.trans hstop, hk, by omega, ?_⟩
    -- The cursor is past the character ahead, and at the end there is none.
    simp only [Parser.wholeError, hlen, hcursor]
    omega

theorem ok_of_scan {limit : Nat} {p : Parser} (h : p.Ample limit)
    (hscan : Outlook.start.scan p.reader.source.toList 0 = none) :
    ∃ e, (p.construct limit).answer = .ok e := by
  rcases answer_of_scan h with ⟨e, hok, _⟩ | ⟨_, _, _, _, hsome, _⟩
  · exact ⟨e, hok⟩
  · rw [hscan] at hsome
    exact absurd hsome nofun

theorem error_of_scan {limit : Nat} {p : Parser} (h : p.Ample limit) {complaint : Complaint}
    {stop : Nat} (hscan : Outlook.start.scan p.reader.source.toList 0 = some (complaint, stop)) :
    ∃ err, (p.construct limit).answer = .error err ∧ err.cause.complaint? = some complaint ∧
      stop ≤ p.reader.source.length ∧ err.cursor = min (stop + 1) p.reader.source.length := by
  rcases answer_of_scan h with ⟨_, _, hnone⟩ | ⟨err, _, _, herr, hsome, hrest⟩
  · rw [hscan] at hnone
    exact absurd hnone nofun
  · rw [hscan] at hsome
    cases hsome
    exact ⟨err, herr, hrest⟩

/-- A tree that is made in the course of a whole parse: an operand that has
    been read, or what it comes to when constructs around it are finished. -/
def Parser.Builds (limit : Nat) (p : Parser) (e : Expr) : Prop :=
  ∃ v rest τ operand pending pending', p.reader.source.toList = v ++ rest ∧
    Walk limit (.expression 0 true) (.want []) v τ ∧ τ.operand? = some (operand, pending) ∧
    Settles Level.sum.floor operand pending e pending'

/-- Every tree that is made is readable, whether or not the parse succeeds. It
    stands for some of the characters that have been read. -/
theorem readable_of_builds {limit : Nat} {p : Parser} {e : Expr} (h : p.Builds limit e) :
    e.Readable := by
  rcases h with ⟨v, rest, τ, operand, pending, pending', _, hw, ho, hs⟩
  have hspells := stageSpells_of_walk hw (StageSpells.want Spells.nil)
  rcases spells_of_operand hspells ho hs with ⟨lvl, w, u, _, _, hd, _⟩
  exact (readable_iff_regular e).mpr (regular_of_derives hd)

/-- The error law of whole parses. Whatever the parser did before, a whole
    parse succeeds if the scan of the source finds nothing to complain about,
    and otherwise fails with the first complaint at the place it is about. What
    lies behind a character that is complained about makes no difference. No
    other error is possible: every source is answered by one of the two, and
    every tree made on the way passes validation. -/
theorem construct_follows_scan (limit : Nat) (p : Parser) (h : p.Ample limit) :
    (Outlook.start.scan p.reader.source.toList 0 = none →
        ∃ e, (p.construct limit).answer = .ok e) ∧
      (∀ complaint stop, Outlook.start.scan p.reader.source.toList 0 = some (complaint, stop) →
        (∃ err, (p.construct limit).answer = .error err ∧
          err.cause.complaint? = some complaint ∧
          err.pos = if stop < p.reader.source.length then stop
            else p.reader.source.length - 1) ∧
        (stop < p.reader.source.length → ∀ (limit' : Nat) (q : Parser), q.Ample limit' →
          q.reader.source.toList.take (stop + 1) = p.reader.source.toList.take (stop + 1) →
            ∃ err, (q.construct limit').answer = .error err ∧
              err.cause.complaint? = some complaint ∧ err.pos = stop)) ∧
      ∀ e, p.Builds limit e → e.Readable := by
  refine ⟨fun hnone => ok_of_scan h hnone, fun complaint stop hscan => ⟨?_, ?_⟩,
    fun e hbuilds => readable_of_builds hbuilds⟩
  · rcases error_of_scan h hscan with ⟨err, herr, hk, hle, hcursor⟩
    exact ⟨err, herr, hk, pos_of_cursor hle hcursor⟩
  · intro hstop limit' q hq htake
    have hqscan : Outlook.start.scan q.reader.source.toList 0 = some (complaint, stop) := by
      refine scan_of_take_eq hscan ?_ htake
      rw [Nat.zero_add, String.length_toList]
      exact hstop
    -- The other source is long enough to hold the character.
    have hlen : stop < q.reader.source.length := by
      have htaken := congrArg List.length htake
      rw [List.length_take, List.length_take, String.length_toList,
        String.length_toList] at htaken
      omega
    rcases error_of_scan hq hqscan with ⟨err, herr, hk, hle, hcursor⟩
    refine ⟨err, herr, hk, ?_⟩
    rw [pos_of_cursor hle hcursor, if_pos hlen]

/-- In an open group a second operand is refused where it stands, whatever
    follows, and the first one has been built. -/
theorem construct_open_group :
    (Parser.ofSource "(a b" .html).Ample 4 ∧
      Outlook.start.scan "(a b".toList 0 = some (.missingClose, 2) ∧
      (∃ err, ((Parser.ofSource "(a b" .html).construct 4).answer = .error err ∧
        err.cause.complaint? = some .missingClose ∧ err.pos = 2) ∧
      (∃ err, ((Parser.ofSource "(a 3)*" .text).construct 6).answer = .error err ∧
        err.cause.complaint? = some .missingClose ∧ err.pos = 2) ∧
      (Parser.ofSource "(a b" .html).Builds 4 (.symbol 'a') ∧ (Expr.symbol 'a').Readable := by
  -- Neither source comes near its limit.
  have hample : (Parser.ofSource "(a b" .html).Ample 4 := ample_of_length_le (by decide)
  have hample' : (Parser.ofSource "(a 3)*" .text).Ample 6 := ample_of_length_le (by decide)
  have hscan : Outlook.start.scan "(a b".toList 0 = some (.missingClose, 2) := by decide
  rcases construct_follows_scan 4 (Parser.ofSource "(a b" .html) hample with ⟨_, hfails, hreads⟩
  rcases hfails .missingClose 2 hscan with ⟨herr, hsame⟩
  -- The machine has opened the group and read its first operand when it stops.
  have hwalk : Walk 4 (.expression 0 true) (.want []) ['(', 'a'] (.leaf 'a' [.group]) :=
    Walk.step rfl rfl (Walk.step rfl rfl (Walk.stay _))
  have hbuilds : (Parser.ofSource "(a b" .html).Builds 4 (.symbol 'a') :=
    ⟨['(', 'a'], [' ', 'b'], _, _, _, _, rfl, hwalk, rfl, Settles.refl _ _⟩
  exact ⟨hample, hscan, herr, hsame (by decide) 6 _ hample' (by decide), hbuilds,
    hreads _ hbuilds⟩

end BoolCalc
