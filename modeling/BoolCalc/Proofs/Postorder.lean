import BoolCalc.Expr.Fragments
import BoolCalc.Proofs.Addresses

/-!
# Fragments in Post-Order

Where the fragments of a tree stand, and that they stand there in blocks.

Fragments are collected by a recursion that pushes onto what has been collected so far,
and it passes through negations without leaving a trace. So the position of a fragment
depends on everything that was collected before it, and nothing in the recursion says
which entries belong together. What keeps them together is that a node is pushed right
after its operands are done. Whatever stands at a position, the entries up to it end in
the fragments of what stands there (`fragments_suffix_take`). This is a statement about
every position of the list at once, and it is kept when lists are put one behind the
other, since what is in front of a block does not matter to it.

That every binary node has its entry, and nothing else has one, is seen by comparing two
walks. `inner` lists the sub-expressions below the root in post-order, and the fragments
are what is binary among them and the root. The addresses of nodes come from a walk in
pre-order, and the two walks list the same nodes.

## Main definitions

* `Expr.inner`: The proper sub-expressions of a tree in post-order.
* `Expr.binaryCount`: The number of binary nodes.

## Theorems

* `fragments_eq_filter`: The fragments are the binary sub-expressions.
* `postorder_perm_nodes`: The walk in post-order lists every node once.
* `length_fragments`: There is a fragment for each binary node.
* `fragments_suffix_take`: A fragment stands behind its own fragments.
* `fragments_in_postorder`: All of this in one statement.
-/

namespace BoolCalc

namespace Expr

variable {e f : Expr}

/-- The sub-expressions of a tree other than the tree itself, each after its own and
    those on the left first. -/
def inner : Expr → List Expr
  | terminal _ => []
  | unary _ operand => operand.inner ++ [operand]
  | binary _ left right => (left.inner ++ [left]) ++ (right.inner ++ [right])

/-- The fragments of a tree are its binary sub-expressions, in the same order. -/
theorem fragments_eq_filter (e : Expr) : e.fragments = (e.inner ++ [e]).filter isBinary := by
  induction e with
  | terminal symbol => rfl
  | unary op operand ih =>
      -- A negation is no binary node, so its own entry is left out.
      rw [fragments_unary, ih, inner, List.filter_append (operand.inner ++ [operand])]
      exact (List.append_nil _).symm
  | binary op left right ihl ihr =>
      -- The node itself comes last, behind what both operands give.
      rw [fragments_binary, ihl, ihr, inner, List.filter_append (_ ++ _),
        List.filter_append (_ ++ _)]
      rfl

theorem height_of_inner (h : f ∈ e.inner) : f.height < e.height := by
  induction e with
  | terminal symbol => exact absurd h List.not_mem_nil
  | unary op operand ih =>
      rw [inner, List.mem_append, List.mem_singleton] at h
      rcases h with h | rfl
      · exact Nat.lt_succ_of_lt (ih h)
      · exact Nat.lt_succ_self _
  | binary op left right ihl ihr =>
      rw [inner, List.mem_append, List.mem_append, List.mem_append, List.mem_singleton,
        List.mem_singleton] at h
      -- An operand is lower than the node, and what lies inside it is lower still.
      rw [height, Nat.lt_succ_iff, le_max_iff]
      rcases h with (h | rfl) | h | rfl
      · exact .inl (Nat.le_of_lt (ihl h))
      · exact .inl (Nat.le_refl _)
      · exact .inr (Nat.le_of_lt (ihr h))
      · exact .inr (Nat.le_refl _)

/-- No proper sub-expression is the whole. -/
theorem ne_of_mem_inner (h : f ∈ e.inner) : f ≠ e := by
  rintro rfl
  exact Nat.lt_irrefl _ (height_of_inner h)

/-- The number of binary nodes. -/
def binaryCount (e : Expr) : Nat := e.nodes.countP fun node => node.2.isBinary

theorem map_snd_under (turn : Turn) (nodes : List (List Turn × Expr)) :
    (under turn nodes).map Prod.snd = nodes.map Prod.snd := by
  rw [under, List.map_map]
  rfl

/-- In post-order every node is listed once, as it is in pre-order. -/
theorem postorder_perm_nodes (e : Expr) : (e.inner ++ [e]).Perm (e.nodes.map Prod.snd) := by
  -- The root is moved from the end to the front, in the operands and then here.
  refine List.perm_append_singleton e e.inner |>.trans ?_
  induction e with
  | terminal symbol => exact List.Perm.refl _
  | unary op operand ih =>
      rw [nodes, descendants, List.map_cons, map_snd_under, inner]
      exact (List.perm_append_singleton operand operand.inner |>.trans ih).cons _
  | binary op left right ihl ihr =>
      rw [nodes, descendants, List.map_cons, List.map_append, map_snd_under, map_snd_under, inner]
      exact ((List.perm_append_singleton left left.inner |>.trans ihl).append
        (List.perm_append_singleton right right.inner |>.trans ihr)).cons _

/-- There is a fragment for each binary node. -/
theorem length_fragments (e : Expr) : e.fragments.length = e.binaryCount := by
  rw [fragments_eq_filter, ← List.countP_eq_length_filter, (postorder_perm_nodes e).countP_eq,
    List.countP_map]
  rfl

theorem isBinary_of_mem_fragments (h : f ∈ e.fragments) : f.isBinary = true := by
  rw [fragments_eq_filter] at h
  exact List.of_mem_filter h

/-- A position of two lists in a row is a position of one of them, and the entries up
    to it are those up to there, behind the whole first list if it is in the second. -/
theorem getElem?_append_cases {α : Type} {xs ys : List α} {i : Nat} {x : α}
    (h : (xs ++ ys)[i]? = some x) :
    xs[i]? = some x ∧ (xs ++ ys).take (i + 1) = xs.take (i + 1) ∨
      ∃ j, ys[j]? = some x ∧ (xs ++ ys).take (i + 1) = xs ++ ys.take (j + 1) := by
  -- The position falls into the first list or is counted from the end of it.
  by_cases hi : i < xs.length
  · rw [List.getElem?_append_left hi] at h
    exact Or.inl ⟨h, List.take_append_of_le_length hi⟩
  · have hle := Nat.le_of_not_lt hi
    rw [List.getElem?_append_right hle] at h
    refine Or.inr ⟨i - xs.length, h, ?_⟩
    rw [List.take_append, List.take_of_length_le (by omega)]
    congr 2
    omega

/-- The entries up to a fragment end in its own fragments, of which it is the last. -/
theorem fragments_suffix_take {i : Nat} (h : e.fragments[i]? = some f) :
    f.fragments <:+ e.fragments.take (i + 1) := by
  induction e generalizing i with
  | terminal symbol => exact absurd h nofun
  | unary op operand ih => exact ih h
  | binary op left right ihl ihr =>
      rw [fragments_binary] at h ⊢
      rcases getElem?_append_cases h with ⟨hi, htake⟩ | ⟨j, hj, htake⟩
      · -- What is in front of the block may grow: the left fragments come first.
        rw [htake]
        rcases getElem?_append_cases hi with ⟨hl, htake'⟩ | ⟨k, hr, htake'⟩
        · rw [htake']
          exact ihl hl
        · rw [htake']
          exact List.suffix_append_of_suffix (ihr hr)
      · -- Behind the fragments of both operands there is only the node itself.
        rw [htake]
        rcases List.getElem?_eq_some_iff.mp hj with ⟨hlt, hself⟩
        rw [List.length_singleton, Nat.lt_one_iff] at hlt
        subst hlt
        rw [← hself, List.getElem_singleton, fragments_binary]
        exact List.suffix_refl _

/-- Counted from the position of a fragment, as many entries as it has binary nodes are
    its own fragments. -/
theorem block_of_fragment {i : Nat} (h : e.fragments[i]? = some f) :
    f.binaryCount ≤ i + 1 ∧
      (e.fragments.take (i + 1)).drop (i + 1 - f.binaryCount) = f.fragments := by
  have hsuffix := fragments_suffix_take h
  -- The position is in the list, so that many entries are taken.
  have hlength : (e.fragments.take (i + 1)).length = i + 1 := by
    rcases List.getElem?_eq_some_iff.mp h with ⟨hlt, _⟩
    rw [List.length_take]
    omega
  have hcount := hsuffix.length_le
  -- The end of a list is what is left when the rest is dropped.
  rw [List.suffix_iff_eq_drop] at hsuffix
  rw [hlength] at hsuffix hcount
  rw [← length_fragments]
  exact ⟨hcount, hsuffix.symm⟩

/-- Fragments are collected in post-order. Collecting appends them to what is there and
    changes nothing of it. They are the binary sub-expressions among all nodes of the
    tree, taken in post-order, so there is one for each binary node and none for any
    other. At every position as many entries as the fragment there has binary nodes, the
    last of them that fragment, are its own fragments: first those of its left operand,
    then those of its right one, then itself. So a binary tree is its own last
    fragment. -/
theorem fragments_in_postorder (t : Expr) (collected : Array Expr) :
    (t.pushFragments collected).toList = collected.toList ++ t.fragments ∧
      t.fragments = (t.inner ++ [t]).filter isBinary ∧
      (t.inner ++ [t]).Perm (t.nodes.map Prod.snd) ∧
      t.fragments.length = t.binaryCount ∧
      (∀ i f, t.fragments[i]? = some f → f.isBinary = true ∧ f.binaryCount ≤ i + 1 ∧
        (t.fragments.take (i + 1)).drop (i + 1 - f.binaryCount) = f.fragments) ∧
      (∀ i op left right, t.fragments[i]? = some (binary op left right) →
        left.fragments ++ right.fragments ++ [binary op left right] <:+
          t.fragments.take (i + 1)) ∧
      (t.isBinary = true → t.fragments.getLast? = some t) := by
  refine ⟨pushFragments_toList t collected, fragments_eq_filter t, postorder_perm_nodes t,
    length_fragments t, fun i f h => ?_, fun i op left right h => ?_, getLast?_of_isBinary⟩
  · exact ⟨isBinary_of_mem_fragments (List.mem_of_getElem? h), block_of_fragment h⟩
  · rw [← fragments_binary]
    exact fragments_suffix_take h

/-- A sum behind the fragments of another one, which is negated. The negation has no
    entry, and the product of the two is last. -/
theorem fragments_of_negated_sum :
    let sum := connect .disj (symbol 'a') (symbol 'b')
    let other := connect .disj (symbol 'c') (symbol 'd').negation
    let t := connect .conj sum.negation other
    t.fragments = [sum, other, t] ∧ t.isBinary = true ∧ t.fragments[1]? = some other ∧
      (t.fragments.take 2).drop (2 - other.binaryCount) = other.fragments ∧
      (symbol 'c').fragments ++ (symbol 'd').negation.fragments ++ [other] <:+ [sum, other] ∧
      t.fragments.getLast? = some t := by
  intro sum other t
  rcases fragments_in_postorder t #[] with ⟨_, _, _, _, hblock, horder, hlast⟩
  exact ⟨rfl, rfl, rfl, (hblock 1 other rfl).2.2, horder 1 _ _ _ rfl, hlast rfl⟩

end Expr

end BoolCalc
