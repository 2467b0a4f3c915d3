import BoolCalc.Proofs.Columns
import BoolCalc.Proofs.Parsing
import BoolCalc.Proofs.Contexts

/-!
# What a Limit Decides

The limit on nesting decides whether there is an outcome, and never which one.

A limit is looked at in many places: at every construct that is opened, at the
height of a finished tree, at every step down of an evaluation, and at every
fragment before it is printed. Each of them either refuses or goes on as if
there were no limit. So there is one refusal that depends on the limit, and
every other outcome, an error as well as a value, is the outcome under all
greater limits too. What has to be seen for this is that the refusal is passed
on: wherever a part is refused, the whole is refused, and is not taken for
another error or passed over.

For a run of the parsing machine that is `consume_mono`. Evaluation is a
recursion over the tree, where a part that is not refused is evaluated in the
same way under the greater limit by induction. A pass over fragments breaks off
at the first error, so if that error is not a refusal then no fragment before
it was refused.

## Theorems

* `construct_mono`: A whole parse that is not refused is the same under a
  greater limit, with all that it reports and leaves behind.
* `cleared_of_error`: A whole parse that fails leaves no tree.
* `mapM_mono`: A pass that is not refused, over items that are treated alike.
* `evalWithin_mono`, `evaluate_mono`, `evaluateFragments_mono`: Evaluations that
  are not refused.
* `evaluate_eq_eval`: They have the outcome of an evaluation without a limit.
* `limit_decides_only_refusal`: All of this in one statement.
-/

namespace BoolCalc

namespace Parser

/-- A whole parse that is not refused is the same under a greater limit. -/
theorem construct_mono {limit limit' : Nat} (hle : limit ≤ limit') {p : Parser}
    (h : p.Ample limit) : p.construct limit' = p.construct limit := by
  have hrun := wholeRun_mono hle h
  rw [construct_eq, construct_eq]
  simp only [wholeState, wholeError, hrun]
  cases hout : (p.wholeRun limit).outcome with
  | error cause => rfl
  | ok e =>
      -- The tree is within the smaller limit, or it would have been refused.
      have hlow := ((ample_iff limit p).mp h).2 e hout
      have hlow' := Nat.le_trans hlow hle
      simp only [if_neg (Nat.not_lt.mpr hlow), if_neg (Nat.not_lt.mpr hlow')]

/-- A whole parse that fails leaves no tree. -/
theorem cleared_of_error {limit : Nat} {p : Parser} {err : ParseError}
    (h : (p.construct limit).answer = .error err) :
    (p.construct limit).parser.tree = none ∧ (p.construct limit).parser.fragments = [] := by
  rw [parser_of_error h]
  exact ⟨rfl, rfl⟩

end Parser

/-- A pass over a list does not change if its items are treated alike, unless
    the one error is met for which they may not be. -/
theorem mapM_mono {ε α β : Type} {f g : α → Except ε β} {err : ε} {xs : List α}
    (hfg : ∀ x, f x ≠ .error err → g x = f x) (h : xs.mapM f ≠ .error err) :
    xs.mapM g = xs.mapM f := by
  induction xs with
  | nil => rfl
  | cons x rest ih =>
      -- An item that fails with that error would fail the pass with it.
      have hx : f x ≠ .error err := fun hx => h (mapM_cons_error rest hx)
      rw [List.mapM_cons, List.mapM_cons, hfg x hx]
      cases hfx : f x with
      | error other => rfl
      | ok y =>
          have hrest : rest.mapM f ≠ .error err := by
            intro hrest
            rw [List.mapM_cons, hfx, hrest] at h
            exact h rfl
          rw [ih hrest]

section Evaluation

variable {limit limit' : Nat}

/-- An evaluation that is not refused is the same under a greater limit. -/
theorem Expr.evalWithin_mono {α : Type} [TwoValued α] {lookup : String → Option α}
    (hle : limit ≤ limit') {e : Expr} (h : e.evalWithin lookup limit ≠ .error .tooDeep) :
    e.evalWithin lookup limit' = e.evalWithin lookup limit := by
  induction e generalizing limit limit' with
  | terminal symbol => simp only [evalWithin]
  | unary op operand ih =>
      -- Only the negation goes down to its operand.
      by_cases hop : op = negationText
      · cases limit with
        -- Without room the evaluation is refused, whatever the operand is.
        | zero =>
            simp only [evalWithin, if_pos hop] at h
            exact absurd rfl h
        | succ n =>
            rcases Nat.exists_eq_succ_of_ne_zero (Nat.ne_zero_of_lt hle) with ⟨m, rfl⟩
            simp only [evalWithin, if_pos hop] at h ⊢
            -- Below a node that is not refused no operand is refused either.
            have hoperand : operand.evalWithin lookup n ≠ .error .tooDeep := by
              intro hdeep
              rw [hdeep] at h
              exact h rfl
            rw [ih (Nat.le_of_succ_le_succ hle) hoperand]
      · -- The operator is found wanting before the operand is looked at.
        cases limit with
        | zero | succ n =>
            cases limit' with
            | zero | succ m => simp only [evalWithin, if_neg hop]
  | binary op left right ihl ihr =>
      cases limit with
      | zero =>
          simp only [evalWithin] at h
          exact absurd rfl h
      | succ n =>
          rcases Nat.exists_eq_succ_of_ne_zero (Nat.ne_zero_of_lt hle) with ⟨m, rfl⟩
          have hnm := Nat.le_of_succ_le_succ hle
          simp only [evalWithin] at h ⊢
          have hleft : left.evalWithin lookup n ≠ .error .tooDeep := by
            intro hdeep
            rw [hdeep] at h
            exact h rfl
          rw [ihl hnm hleft]
          cases hx : left.evalWithin lookup n with
          -- The error of the left side is passed on, so the right one does not matter.
          | error err => rfl
          | ok x =>
              rw [hx] at h
              have hright : right.evalWithin lookup n ≠ .error .tooDeep := by
                intro hdeep
                rw [hdeep] at h
                exact h rfl
              rw [ihr hnm hright]

theorem evaluate_mono (hle : limit ≤ limit') {e : Expr} {context : Context}
    (h : evaluate limit e context ≠ .error .tooDeep) :
    evaluate limit' e context = evaluate limit e context := by
  rw [evaluate] at h ⊢
  cases hbound : context.bindings with
  | error err => rw [evaluate, hbound]
  | ok bound =>
      simp only [evaluate, hbound] at h ⊢
      exact Expr.evalWithin_mono hle h

/-- An evaluation that is not refused has the outcome of one without a limit. -/
theorem evaluate_eq_eval {e : Expr} {context : Context}
    (h : evaluate limit e context ≠ .error .tooDeep) :
    evaluate limit e context = match context.bindings with
      | .error err => .error err
      | .ok bound => e.eval bound.get? := by
  -- Under a limit that is great enough there would be the same outcome.
  rw [← evaluate_mono (Nat.le_max_left limit e.height) h, evaluate]
  cases context.bindings with
  | error err => rfl
  | ok bound => exact Expr.evalWithin_eq_eval _ (Nat.le_max_right limit e.height)

/-- A fragment is refused for its height alone. -/
theorem evaluateStep_mono (hle : limit ≤ limit') {bound : Bindings} {e : Expr}
    (h : evaluateStep limit bound e ≠ .error .tooDeep) :
    evaluateStep limit' bound e = evaluateStep limit bound e := by
  have hlow : e.height ≤ limit := by
    refine Nat.not_lt.mp fun hdeep => h ?_
    rw [evaluateStep, if_pos hdeep]
  have hlow' := Nat.le_trans hlow hle
  rw [evaluateStep, evaluateStep, if_neg (Nat.not_lt.mpr hlow), if_neg (Nat.not_lt.mpr hlow'),
    Expr.evalWithin_eq_eval _ hlow, Expr.evalWithin_eq_eval _ hlow']

theorem evaluateFragments_mono (hle : limit ≤ limit') {fragments : List Expr} {context : Context}
    (h : evaluateFragments limit fragments context ≠ .error .tooDeep) :
    evaluateFragments limit' fragments context = evaluateFragments limit fragments context := by
  rw [evaluateFragments] at h ⊢
  cases hbound : context.bindings with
  | error err => rw [evaluateFragments, hbound]
  | ok bound =>
      simp only [evaluateFragments, hbound] at h ⊢
      exact mapM_mono (fun _ hstep => evaluateStep_mono hle hstep) h

/-- What is wrong with a context is never a matter of depth. -/
theorem Context.bindings_ne_tooDeep (context : Context) : context.bindings ≠ .error .tooDeep :=
  fun h => Bool.false_ne_true (stemsFromContext_of_bindings h)

/-- An invalid context is reported whatever the limit is. -/
theorem evaluate_of_invalid {context : Context} {err : EvalError}
    (h : context.bindings = .error err) (limit : Nat) (e : Expr) (fragments : List Expr) :
    evaluate limit e context = .error err ∧
      evaluateFragments limit fragments context = .error err := by
  rw [evaluate, evaluateFragments, h]
  exact ⟨rfl, rfl⟩

end Evaluation

/-- The limit decides whether there is an outcome, and never which one. A whole
    parse that is not refused for nesting under a limit has the same answer
    under a greater one, reports the same, and leaves the same behind; one that
    fails, for whatever reason, leaves no tree and no fragments. An evaluation
    of a tree or of fragments that is not refused is the same under a greater
    limit, and an invalid context is reported by an error of its own, which is
    the same under all limits. -/
theorem limit_decides_only_refusal {limit limit' : Nat} (hle : limit ≤ limit') :
    (∀ p : Parser, (∀ err, (p.construct limit).answer = .error err → err.cause ≠ .tooDeep) →
        p.construct limit' = p.construct limit) ∧
      (∀ (p : Parser) (err : ParseError), (p.construct limit).answer = .error err →
        (p.construct limit).parser.tree = none ∧ (p.construct limit).parser.fragments = []) ∧
      (∀ (e : Expr) (context : Context), evaluate limit e context ≠ .error .tooDeep →
        evaluate limit' e context = evaluate limit e context) ∧
      (∀ (fragments : List Expr) (context : Context),
        evaluateFragments limit fragments context ≠ .error .tooDeep →
          evaluateFragments limit' fragments context = evaluateFragments limit fragments context) ∧
      ∀ (context : Context) (err : EvalError), context.bindings = .error err →
        err ≠ .tooDeep ∧ ∀ (any : Nat) (e : Expr) (fragments : List Expr),
          evaluate any e context = .error err ∧
            evaluateFragments any fragments context = .error err := by
  refine ⟨fun p hample => Parser.construct_mono hle hample, fun p err => Parser.cleared_of_error,
    fun e context => evaluate_mono hle, fun fragments context => evaluateFragments_mono hle, ?_⟩
  intro context err hcontext
  refine ⟨fun hdeep => context.bindings_ne_tooDeep (hdeep ▸ hcontext), ?_⟩
  exact fun any e fragments => evaluate_of_invalid hcontext any e fragments

/-- A group that is not closed is reported under a limit of two and under a
    greater one, and under a limit of one there is no way to see it. The tree of
    a longer source is evaluated under the same limits as far as its first
    unbound variable, and in an invalid context not at all. -/
theorem limit_at_open_group :
    ∃ (p : Parser) (err : ParseError) (e : Expr) (context invalid : Context),
      p = .ofSource "!(a+b" .text ∧ err = ⟨.missingClose none, "!(a+b", 5, .text⟩ ∧
      2 ≤ 5 ∧ (p.construct 1).answer = .error ⟨.tooDeep, "!(a+b", 2, .text⟩ ∧
      (p.construct 2).answer = .error err ∧ p.construct 5 = p.construct 2 ∧
      (p.construct 2).parser.tree = none ∧ (p.construct 2).parser.fragments = [] ∧
      e = (Expr.connect .disj (.symbol 'a') (.symbol 'b')).negation ∧
      context = .ofList [(.text "a", .scalar (.integer 1))] ∧
      invalid = .ofList [(.text "a", .scalar (.integer 2))] ∧
      evaluate 1 e context = .error .tooDeep ∧
      evaluate 2 e context = .error (.undefinedVariable "b") ∧
      evaluate 5 e context = evaluate 2 e context ∧
      evaluateFragments 2 e.fragments context = .error (.undefinedVariable "b") ∧
      evaluateFragments 5 e.fragments context = evaluateFragments 2 e.fragments context ∧
      invalid.bindings = .error (.invalidBit "a" (.scalar (.integer 2))) ∧
      evaluate 0 e invalid = .error (.invalidBit "a" (.scalar (.integer 2))) := by
  have hle : 2 ≤ 5 := by decide
  rcases limit_decides_only_refusal hle with ⟨hsame, hcleared, heval, hfragments, hinvalid⟩
  have herr : ((Parser.ofSource "!(a+b" .text).construct 2).answer =
      .error ⟨.missingClose none, "!(a+b", 5, .text⟩ := rfl
  -- The other error is of no avail: the group is missing its end, not its room.
  have hample : ∀ err, ((Parser.ofSource "!(a+b" .text).construct 2).answer = .error err →
      err.cause ≠ .tooDeep := by
    intro err h
    rw [herr] at h
    cases h
    exact nofun
  rcases hcleared _ _ herr with ⟨htree, hnone⟩
  have hundefined : evaluate 2 (Expr.connect .disj (.symbol 'a') (.symbol 'b')).negation
      (.ofList [(.text "a", .scalar (.integer 1))]) = .error (.undefinedVariable "b") := rfl
  have hstep : evaluateFragments 2
      (Expr.connect .disj (.symbol 'a') (.symbol 'b')).negation.fragments
      (.ofList [(.text "a", .scalar (.integer 1))]) = .error (.undefinedVariable "b") := rfl
  have hbit : Context.bindings (.ofList [(.text "a", .scalar (.integer 2))]) =
      .error (.invalidBit "a" (.scalar (.integer 2))) := rfl
  refine ⟨_, _, _, _, _, rfl, rfl, hle, rfl, herr, hsame _ hample, htree, hnone, rfl, rfl, rfl,
    rfl, hundefined, heval _ _ ?_, hstep, hfragments _ _ ?_, hbit, ?_⟩
  · rw [hundefined]
    exact nofun
  · rw [hstep]
    exact nofun
  · exact ((hinvalid _ _ hbit).2 0 _ []).1

end BoolCalc
