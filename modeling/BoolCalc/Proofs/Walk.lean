import BoolCalc.Parse.Machine

/-!
# Walks of the Parsing Machine

A run of the machine taken apart into the part where it goes on and the place
where it stops.

`consume` is one recursion that reads, answers and reports. What is proved
about it mostly concerns the stages it goes through, and there the reports,
the positions and the last token are in the way. A `Walk` is the part of a run
in which every character is answered by going on, stated on stages alone, and
`verdict` is what the machine says at a place where it does not go on.
`exists_walk` says that every run is a walk with a verdict at its end, and
`consume_of_walk` that the walk and the verdict fix the outcome and the
position. An invariant of the machine is therefore proved for one answer, then
carried along a walk by induction, and then read off at the verdict.

The equations of a run are `consume_badSymbol`, `consume_advance` and
`consume_stop`, one for each thing that can happen at a character.

The limit on nesting matters only where it refuses. `respond_mono` says that
an answer other than that refusal stays the same under a greater limit, and
`consume_mono` carries this over to whole runs, with all that they report.

## Main definitions

* `Stage.pending`: What is open at a stage.
* `Walk`: Reading characters and going on after each.
* `Move.outcome?`: What a move comes to that does not go on.
* `verdict`: What the machine says where it stops.

## Theorems

* `walk_trans`: Walks are put together.
* `exists_walk`: Every run is a walk that ends with a verdict.
* `consume_badSymbol`, `consume_advance`, `consume_stop`: The equations of a
  run.
* `consume_of_walk`: A walk and a verdict fix how a run ends.
* `consume_mono`: A greater limit changes nothing but refusals to nest too
  deeply.
-/

namespace BoolCalc

/-- The constructs that are open at a stage, innermost first. -/
def Stage.pending : Stage → List Pending
  | .want pending | .leaf _ pending | .complete _ pending => pending

/-- The machine reads characters from one stage to another and goes on after
    each of them. -/
inductive Walk (limit : Nat) (goal : Goal) : Stage → List Char → Stage → Prop
  | stay (σ : Stage) : Walk limit goal σ [] σ
  | step {σ τ υ : Stage} {c : Char} {s : Symbol} {w : List Char}
      (hc : Symbol.classify c = .ok s) (hs : (respond limit goal σ s).2 = .advance τ)
      (hw : Walk limit goal τ w υ) : Walk limit goal σ (c :: w) υ

theorem walk_trans {limit : Nat} {goal : Goal} {σ τ υ : Stage} {v w : List Char}
    (hv : Walk limit goal σ v τ) (hw : Walk limit goal τ w υ) :
    Walk limit goal σ (v ++ w) υ := by
  induction hv with
  | stay _ => exact hw
  | step hc hs _ ih => exact Walk.step hc hs (ih hw)

/-- What a move comes to, unless it is to go on. -/
def Move.outcome? : Move → Option (Except Cause Expr)
  | .advance _ => none
  | .accept e => some (.ok e)
  | .refuse cause => some (.error cause)

/-- What the machine says at a stage with these characters ahead, unless it
    goes on. -/
def verdict (limit : Nat) (goal : Goal) (σ : Stage) : List Char → Option (Except Cause Expr)
  | [] => some (conclude goal σ).2
  | c :: _ =>
    match Symbol.classify c with
    | .error fault => some (.error (.badSymbol fault c))
    | .ok s => (respond limit goal σ s).2.outcome?

theorem verdict_badSymbol (limit : Nat) (goal : Goal) (σ : Stage) {c : Char} {fault : SymbolFault}
    (rest : List Char) (hc : Symbol.classify c = .error fault) :
    verdict limit goal σ (c :: rest) = some (.error (.badSymbol fault c)) := by
  simp only [verdict, hc]

theorem verdict_symbol (limit : Nat) (goal : Goal) (σ : Stage) {c : Char} {s : Symbol}
    (rest : List Char) (hc : Symbol.classify c = .ok s) :
    verdict limit goal σ (c :: rest) = (respond limit goal σ s).2.outcome? := by
  simp only [verdict, hc]

/-- Every run is a walk that ends with a verdict. -/
theorem exists_walk (limit : Nat) (goal : Goal) (σ : Stage) (cs : List Char) :
    ∃ v rest τ outcome, cs = v ++ rest ∧ Walk limit goal σ v τ ∧
      verdict limit goal τ rest = some outcome := by
  -- The walk ends before the first character that is not answered by going on.
  induction cs generalizing σ with
  | nil => exact ⟨[], [], σ, (conclude goal σ).2, rfl, Walk.stay σ, rfl⟩
  | cons c rest ih =>
      cases hc : Symbol.classify c with
      | error fault =>
          exact ⟨[], c :: rest, σ, _, rfl, Walk.stay σ, verdict_badSymbol limit goal σ rest hc⟩
      | ok s =>
          have hv := verdict_symbol limit goal σ rest hc
          cases hs : (respond limit goal σ s).2 with
          | advance τ =>
              rcases ih τ with ⟨v, rest', υ, outcome, rfl, hw, ho⟩
              exact ⟨c :: v, rest', υ, outcome, rfl, Walk.step hc hs hw, ho⟩
          | accept e =>
              rw [hs] at hv
              exact ⟨[], c :: rest, σ, .ok e, rfl, Walk.stay σ, hv⟩
          | refuse cause =>
              rw [hs] at hv
              exact ⟨[], c :: rest, σ, .error cause, rfl, Walk.stay σ, hv⟩

section Equations

variable {limit : Nat} {goal : Goal} {σ : Stage} {c : Char} {s : Symbol} {log : List Event}
  (current : Option Token) (rest : List Char) (index : Nat)

/-- A character that stands for nothing is passed and replaces no token. -/
theorem consume_badSymbol {fault : SymbolFault} (hc : Symbol.classify c = .error fault) :
    consume limit goal current σ (c :: rest) index =
      ⟨[], index + 1, current, .error (.badSymbol fault c)⟩ := by
  simp only [consume, hc]

/-- A run goes on behind a symbol, which is then the last token. -/
theorem consume_advance {τ : Stage} (hc : Symbol.classify c = .ok s)
    (hs : respond limit goal σ s = (log, .advance τ)) :
    consume limit goal current σ (c :: rest) index =
      (consume limit goal (some ⟨some s, index⟩) τ rest (index + 1)).after
        (.tokenRead s :: log) := by
  simp only [consume, hc, hs]

/-- A run that does not go on behind a symbol ends with it. -/
theorem consume_stop {move : Move} {outcome : Except Cause Expr} (hc : Symbol.classify c = .ok s)
    (hs : respond limit goal σ s = (log, move)) (ho : move.outcome? = some outcome) :
    consume limit goal current σ (c :: rest) index =
      .atToken ⟨some s, index⟩ (index + 1) (.tokenRead s :: log) outcome := by
  cases move with
  | advance τ => exact absurd ho nofun
  | accept e | refuse cause =>
      cases ho
      simp only [consume, hc, hs]

end Equations

/-- Where the machine stops, it has looked at the character ahead, if there is
    one, and said its verdict. -/
theorem consume_of_verdict {limit : Nat} {goal : Goal} {σ : Stage} {rest : List Char}
    {outcome : Except Cause Expr} (ho : verdict limit goal σ rest = some outcome)
    (current : Option Token) (index : Nat) :
    (consume limit goal current σ rest index).outcome = outcome ∧
      (consume limit goal current σ rest index).index = index + min 1 rest.length := by
  cases rest with
  | nil =>
      -- The end of the input takes no room, so the position stays.
      simp only [verdict, Option.some.injEq] at ho
      exact ⟨ho, rfl⟩
  | cons c rest =>
      have hlen : index + 1 = index + min 1 (c :: rest).length := by
        simp only [List.length_cons]
        omega
      cases hc : Symbol.classify c with
      | error fault =>
          rw [verdict_badSymbol limit goal σ rest hc, Option.some.injEq] at ho
          rw [consume_badSymbol current rest index hc]
          exact ⟨ho, hlen⟩
      | ok s =>
          rw [verdict_symbol limit goal σ rest hc] at ho
          rw [consume_stop current rest index hc rfl ho]
          exact ⟨rfl, hlen⟩

/-- A walk and the verdict at its end fix the outcome of a run and how far it
    reads. -/
theorem consume_of_walk {limit : Nat} {goal : Goal} {σ τ : Stage} {v rest : List Char}
    {outcome : Except Cause Expr} (hw : Walk limit goal σ v τ)
    (ho : verdict limit goal τ rest = some outcome) (current : Option Token) (index : Nat) :
    (consume limit goal current σ (v ++ rest) index).outcome = outcome ∧
      (consume limit goal current σ (v ++ rest) index).index =
        index + v.length + min 1 rest.length := by
  induction hw generalizing current index with
  | stay _ => exact consume_of_verdict ho current index
  | @step σ _ _ c s w hc hs _ ih =>
      rcases ih ho (some ⟨some s, index⟩) (index + 1) with ⟨hout, hidx⟩
      rw [List.cons_append, consume_advance current (w ++ rest) index hc (Prod.ext rfl hs)]
      -- What the run reports on this step changes neither outcome nor position.
      refine ⟨hout, hidx.trans ?_⟩
      simp only [List.length_cons]
      omega

section Limits

variable {limit limit' : Nat}

theorem openConstruct_mono (hle : limit ≤ limit') (construct : Pending) (pending : List Pending)
    (h : openConstruct limit construct pending ≠ .refuse .tooDeep) :
    openConstruct limit' construct pending = openConstruct limit construct pending := by
  unfold openConstruct at h ⊢
  by_cases hn : nesting pending < limit
  · rw [if_pos hn, if_pos (Nat.lt_of_lt_of_le hn hle)]
  · rw [if_neg hn] at h
    exact absurd rfl h

theorem respond_mono (hle : limit ≤ limit') (goal : Goal) (σ : Stage) (s : Symbol)
    (h : (respond limit goal σ s).2 ≠ .refuse .tooDeep) :
    respond limit' goal σ s = respond limit goal σ s := by
  -- Only opening a construct looks at the limit.
  cases σ with
  | want pending =>
      cases s with
      | negation =>
          simp only [respond, beginTerm] at h ⊢
          rw [openConstruct_mono hle _ _ h]
      | openParen =>
          simp only [respond, beginTerm] at h ⊢
          rw [openConstruct_mono hle _ _ h]
      | operator op | constant b | identifier c | closeParen => rfl
  | leaf c pending | complete e pending => rfl

/-- Unless it ends with a refusal to nest too deeply, a run is the same under a
    greater limit. -/
theorem consume_mono (hle : limit ≤ limit') (goal : Goal) (current : Option Token) (σ : Stage)
    (cs : List Char) (index : Nat)
    (h : (consume limit goal current σ cs index).outcome ≠ .error .tooDeep) :
    consume limit' goal current σ cs index = consume limit goal current σ cs index := by
  induction cs generalizing current σ index with
  | nil => rfl
  | cons c rest ih =>
      cases hc : Symbol.classify c with
      | error fault =>
          rw [consume_badSymbol current rest index hc, consume_badSymbol current rest index hc]
      | ok s =>
          rcases hs : respond limit goal σ s with ⟨log, move⟩
          -- The run does not stop here because of the limit, so the greater one answers alike.
          have hne : move ≠ .refuse .tooDeep := by
            rintro rfl
            rw [consume_stop current rest index hc hs rfl] at h
            exact h rfl
          have hs' : respond limit' goal σ s = (log, move) := by
            rw [respond_mono hle goal σ s (by rw [hs]; exact hne), hs]
          cases move with
          | advance τ =>
              rw [consume_advance current rest index hc hs] at h ⊢
              rw [consume_advance current rest index hc hs', ih _ _ _ h]
          | accept e | refuse cause =>
              rw [consume_stop current rest index hc hs rfl,
                consume_stop current rest index hc hs' rfl]

end Limits

end BoolCalc
