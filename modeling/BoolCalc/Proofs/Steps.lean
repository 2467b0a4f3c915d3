import BoolCalc.Proofs.Agreement
import BoolCalc.Proofs.Faults
import BoolCalc.Proofs.RoundTrip

/-!
# Steps and the Value

The values of the fragments of a tree, shown one after another, and the value of
the tree itself.

The fragments are evaluated in a pass of their own, in which the tree does not
occur unless it is binary. Still the pass gets through exactly if the tree has a
value, or there are no fragments. One direction holds because a fragment has no
more variables than the tree and is no higher. For the other it is enough to look
at the last fragment. Between it and the root there are only negations, so it has
all leaves of the tree (`leaves_of_getLast?`), and what binds its variables binds
those of the tree.

Where the pass breaks off it may report another variable than the tree would, and
where the tree is too deep the fragments need not be, since the negations above the
last one count for the tree alone. So nothing is said about errors, and it has to be
assumed that the tree is not too deep.

## Theorems

* `leaves_of_getLast?`: The last fragment has all leaves of the tree.
* `steps_of_evaluateFragments`: What the whole pass comes to.
* `exists_steps_iff`: When it gets through.
* `steps_agree_with_value`: All of this for what a parser keeps.
-/

namespace BoolCalc

/-- What is paired with the last item of a list is the last item. -/
theorem forall₂_getLast? {α β : Type} {R : α → β → Prop} {xs : List α} {ys : List β}
    (h : List.Forall₂ R xs ys) {x : α} (hx : xs.getLast? = some x) :
    ∃ y, ys.getLast? = some y ∧ R x y := by
  rcases List.getLast?_eq_some_iff.mp hx with ⟨before, rfl⟩
  rcases forall₂_cons_split h.flip with ⟨before', y, after, rfl, hxy, hafter⟩
  rw [List.forall₂_nil_right_iff.mp hafter]
  exact ⟨y, List.getLast?_concat, hxy⟩

namespace Expr

variable {e f : Expr}

/-- The last fragment has all leaves of the tree, since only negations are above
    it. -/
theorem leaves_of_getLast? (h : e.fragments.getLast? = some f) : f.leaves = e.leaves := by
  induction e with
  | terminal symbol => exact absurd h nofun
  | unary op operand ih => exact ih h
  | binary op left right _ _ =>
      rw [fragments_binary, List.getLast?_concat] at h
      cases h
      rfl

end Expr

section Passes

variable {limit : Nat} {e : Expr} {fragments : List Expr} {context : Context}

/-- A pass over fragments comes to one step for each of them: its printed form and
    the value that it has by itself. -/
theorem steps_of_evaluateFragments {steps : List (String × Bit)}
    (h : evaluateFragments limit fragments context = .ok steps) :
    List.Forall₂ (fun f step => step.1 = f.text ∧ evaluate limit f context = .ok step.2)
      fragments steps := by
  rw [evaluateFragments] at h
  -- The context is read once, for all the fragments.
  cases hcontext : context.bindings with
  | error err =>
      rw [hcontext] at h
      cases h
  | ok bound =>
      rw [hcontext] at h
      refine (mapM_eq_ok_iff.mp h).imp fun f step hstep => ?_
      rw [evaluate, hcontext]
      exact evaluateStep_eq_ok_iff.mp hstep

/-- A pass that gets through has had a valid context. -/
theorem valid_of_evaluateFragments {steps : List (String × Bit)}
    (h : evaluateFragments limit fragments context = .ok steps) : context.Valid := by
  refine Context.exists_bindings_iff.mp ?_
  cases hcontext : context.bindings with
  | error err =>
      rw [evaluateFragments, hcontext] at h
      cases h
  | ok bound => exact ⟨bound, rfl⟩

/-- If the last fragment of a regular tree has a value, so has the tree, unless it
    is too deep. -/
theorem evaluate_of_last_fragment {last : Expr} {b : Bit} (hregular : e.Regular)
    (hlast : e.fragments.getLast? = some last) (hdeep : evaluate limit e context ≠ .error .tooDeep)
    (h : evaluate limit last context = .ok b) : ∃ b, evaluate limit e context = .ok b := by
  have hfragment := Expr.regular_of_fragment hregular (List.mem_of_getLast? hlast)
  rcases evaluate_ok_inv hfragment h with ⟨bound, hcontext, _, hbound, _⟩
  -- What is bound for the fragment is bound for the tree, which has no other leaves.
  rw [Expr.vars, Expr.leaves_of_getLast? hlast] at hbound
  rw [evaluate_eq_firstFault hcontext hdeep, ← Expr.eval_eq_firstFault,
    Expr.eval_eq_value hregular hbound]
  exact ⟨_, rfl⟩

/-- The pass over the fragments of a regular tree gets through exactly if the
    context is valid and the tree has a value, or no fragments. -/
theorem exists_steps_iff (hregular : e.Regular)
    (hdeep : evaluate limit e context ≠ .error .tooDeep) :
    (∃ steps, evaluateFragments limit e.fragments context = .ok steps) ↔
      context.Valid ∧ (e.fragments = [] ∨ ∃ b, evaluate limit e context = .ok b) := by
  constructor
  · rintro ⟨steps, hsteps⟩
    refine ⟨valid_of_evaluateFragments hsteps, ?_⟩
    -- If there are fragments, the last of them decides for the tree.
    cases hlast : e.fragments.getLast? with
    | none => exact .inl (List.getLast?_eq_none_iff.mp hlast)
    | some last =>
        rcases forall₂_getLast? (steps_of_evaluateFragments hsteps) hlast with ⟨step, _, _, hstep⟩
        exact .inr (evaluate_of_last_fragment hregular hlast hdeep hstep)
  · rintro ⟨hvalid, hnil | ⟨b, hb⟩⟩
    · rcases Context.exists_bindings_iff.mpr hvalid with ⟨bound, hcontext⟩
      rw [hnil, evaluateFragments, hcontext]
      exact ⟨[], rfl⟩
    · rcases evaluate_ok_inv hregular hb with ⟨bound, hcontext, hheight, hbound, _⟩
      exact ⟨_, evaluateFragments_of_bound hregular hcontext hheight hbound⟩

end Passes

/-- The steps that are shown for a source agree with its value, for every source
    that is parsed, whatever the parser did before, and for every context.

    The steps come through exactly if the context is valid and the tree has a value,
    or the parser kept no fragments. This is under the assumption that the limit does
    not decide the outcome for the tree, and a limit that is enough for the parse is
    enough for that. There is then one step for each fragment, in the same order. It
    is the printed form of the fragment, which is parsed as the fragment, and the
    value that the fragment has in the context. If the tree is binary the last step
    is its printed form and its value. -/
theorem steps_agree_with_value {limit₁ : Nat} {p : Parser} {tree : Expr} {fragments : List Expr}
    (hparse : (p.construct limit₁).answer = .ok tree)
    (hfragments : (p.construct limit₁).parser.fragments = fragments) :
    (∀ (limit : Nat) (context : Context),
      (limit₁ ≤ limit → evaluate limit tree context ≠ .error .tooDeep) ∧
      (evaluate limit tree context ≠ .error .tooDeep →
        ((∃ steps, evaluateFragments limit fragments context = .ok steps) ↔
          context.Valid ∧ (fragments = [] ∨ ∃ b, evaluate limit tree context = .ok b))) ∧
      ∀ steps, evaluateFragments limit fragments context = .ok steps →
        List.Forall₂ (fun f step => step.1 = f.text ∧ evaluate limit f context = .ok step.2)
          fragments steps ∧
        (tree.isBinary = true → ∃ b, steps.getLast? = some (tree.text, b) ∧
          evaluate limit tree context = .ok b)) ∧
      ∀ f ∈ fragments, ∀ (limit : Nat) (style : PointerStyle),
        (Parser.ofSource f.text style).Ample limit → parse limit f.text style = .ok f := by
  rw [fragments_of_construct hparse] at hfragments
  subst hfragments
  have hregular := (readable_iff_regular tree).mp (readable_of_construct hparse)
  refine ⟨fun limit context => ⟨fun hle => ?_, exists_steps_iff hregular, ?_⟩, ?_⟩
  · -- A tree that was parsed is within the limit of its parse.
    have hheight := (Parser.construct_answer_eq_ok_iff.mp hparse).2
    exact evaluate_ne_tooDeep (Nat.le_trans hheight hle) context
  · -- The last fragment of a binary tree is the tree itself.
    intro steps hsteps
    have hpairs := steps_of_evaluateFragments hsteps
    refine ⟨hpairs, fun hbinary => ?_⟩
    rcases forall₂_getLast? hpairs (Expr.getLast?_of_isBinary hbinary) with
      ⟨step, hlast, htext, hvalue⟩
    exact ⟨step.2, htext ▸ hlast, hvalue⟩
  · -- A fragment is printed as a sentence, which is parsed as the fragment.
    intro f hf limit style hample
    exact parse_text ((readable_iff_regular f).mpr (Expr.regular_of_fragment hregular hf)) hample

/-- For a negated conjunction the steps come through exactly where there is a value,
    although the last of them is not that value. For a disjunction it is. -/
theorem steps_of_negated_conjunction :
    ∃ (e e' : Expr) (context empty : Context),
      ((Parser.ofSource "!(a*!b)" .text).construct 8).answer = .ok e ∧
      ((Parser.ofSource "a+b*a" .html).construct 8).answer = .ok e' ∧
      context = .ofList [(.text "b", .scalar (.truth false)), (.text "a", .scalar (.integer 1))] ∧
      empty = .ofList [] ∧
      evaluate 8 e context = .ok .zero ∧
      (∃ steps, evaluateFragments 8 e.fragments context = .ok steps) ∧
      (¬∃ steps, evaluateFragments 8 e.fragments empty = .ok steps) ∧
      (∀ steps, evaluateFragments 8 e'.fragments context = .ok steps →
        ∃ b, steps.getLast? = some ("(a+(b*a))", b) ∧ evaluate 8 e' context = .ok b) ∧
      ∀ f ∈ e'.fragments, parse 9 f.text .text = .ok f := by
  have hparse : ((Parser.ofSource "!(a*!b)" .text).construct 8).answer =
      .ok (Expr.connect .conj (.symbol 'a') (Expr.symbol 'b').negation).negation := rfl
  have hparse' : ((Parser.ofSource "a+b*a" .html).construct 8).answer =
      .ok (.connect .disj (.symbol 'a') (.connect .conj (.symbol 'b') (.symbol 'a'))) := rfl
  rcases steps_agree_with_value hparse rfl with ⟨hagree, _⟩
  rcases steps_agree_with_value hparse' rfl with ⟨hagree', hreparse⟩
  refine ⟨_, _, _, _, hparse, hparse', rfl, rfl, rfl, ?_, ?_, ?_, ?_⟩
  · refine ((hagree 8 _).2.1 ((hagree 8 _).1 (Nat.le_refl 8))).mpr ⟨?_, .inr ⟨.zero, rfl⟩⟩
    exact Context.exists_bindings_iff.mp ⟨_, rfl⟩
  · -- There is a fragment and no value, so the steps do not come through.
    rw [← fragments_of_construct hparse, (hagree 8 _).2.1 ((hagree 8 _).1 (Nat.le_refl 8))]
    rintro ⟨_, hnil | ⟨b, hb⟩⟩
    · cases hnil
    · cases hb
  · -- A disjunction is its own last step.
    exact fun steps hsteps => ((hagree' 8 _).2.2 steps hsteps).2 rfl
  · intro f hf
    refine hreparse f hf 9 .text (ample_of_length_le ?_)
    exact (show ∀ f ∈ _, f.text.length ≤ 9 by decide) f hf

end BoolCalc
