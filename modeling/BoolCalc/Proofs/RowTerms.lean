import BoolCalc.Proofs.CanonicalForms
import BoolCalc.Proofs.Display

/-!
# Terms of Single Rows

Each canonical term tells one row of a table from all the others.

What a term denotes is known from `denotes_term`: it has the bit that its
operator absorbs where the names do not have the values of the row. The rows of
a table differ from each other, and a row over distinct names lists what it
assigns to them. So under the bindings of a row a term has the absorbed bit
unless the row is its own.

That a term is accepted is not settled by its being a sentence, for the parser
also has a limit on nesting. The number of names is enough, although a term is up
to three times as long. Its literals are joined from the left, so nothing
is open where a literal begins, and all that a literal opens is one negation.
`Flat` says this of characters, with a bound on the height of their tree: each
literal behind the first adds one edge.

## Main definitions

* `Flat`: Characters are read to a low tree with hardly any room for nesting.
* `TruthTable.SinglesOut`: A text has a bit in one row of a table alone.

## Theorems

* `flat_joinChars`, `flat_term`: Joined literals are flat.
* `parse_of_flat`: The height is all that a limit has to allow.
* `singlesOut_term`: The term of a row singles it out.
* `canonicalTerms_single_out`: This holds of every term of a table.
-/

namespace BoolCalc

/-- Characters are read to a tree no higher than `n`, wherever their level is
    awaited and one more construct may be opened. -/
def Flat (lvl : Level) (w : List Char) (n : Nat) : Prop :=
  ∃ e : Expr, e.height ≤ n ∧ ∀ (limit : Nat) (goal : Goal) (p : List Pending),
    nesting p < limit → (awaited goal p).floor ≤ lvl.floor → Reads limit goal lvl p w e

section Flat

variable {v w : List Char} {m n : Nat}

theorem flat_lift {tight loose : Level} (hle : loose.floor ≤ tight.floor)
    (h : Flat tight w n) : Flat loose w n := by
  rcases h with ⟨e, hheight, hreads⟩
  exact ⟨e, hheight, fun limit goal p hn ha =>
    reads_lift hle (hreads limit goal p hn (Int.le_trans ha hle))⟩

/-- A literal opens one negation at most. -/
theorem flat_literal {c : Char} (hc : isIdentifier c = true) (negated : Prop)
    [Decidable negated] :
    Flat .factor (if negated then negationText ++ String.singleton c
      else String.singleton c).toList 1 := by
  have hleaf := isOperand_of_isIdentifier hc
  by_cases h : negated
  · rw [if_pos h, String.toList_append, String.toList_singleton]
    exact ⟨(Expr.symbol c).negation, Nat.le_refl 1, fun limit goal p hn _ =>
      reads_negation hn (reads_leaf hleaf .factor _)⟩
  · rw [if_neg h, String.toList_singleton]
    exact ⟨.symbol c, Nat.zero_le 1, fun limit goal p _ _ => reads_leaf hleaf .factor p⟩

/-- The right side of an operator is read behind the left one, with as much room
    for nesting as there was for that. -/
theorem flat_connect {op : BinaryOp} (hl : Flat op.leftLevel v n) (hr : Flat op.rightLevel w m)
    (hle : m ≤ n) : Flat op.leftLevel (v ++ op.char :: w) (n + 1) := by
  rcases hl with ⟨l, hheightl, hreadsl⟩
  rcases hr with ⟨r, hheightr, hreadsr⟩
  refine ⟨.connect op l r, ?_, fun limit goal p hn ha => ?_⟩
  · -- The node is one higher than the higher of its operands.
    simp only [Expr.connect, Expr.height]
    omega
  · -- What is pending to the left of an operator is no nesting.
    have hright : nesting (.operator l op :: p) < limit := by
      rw [nesting_operator]
      exact hn
    have hawaited : (awaited goal p).floor ≤ op.precedence := op.leftLevel_floor ▸ ha
    exact reads_connect hawaited (hreadsl limit goal p hn ha)
      (hreadsr limit goal _ hright (Int.le_refl _))

variable {ι : Type} {text : ι → List Char}

/-- Literals are joined to a tree no higher than they are many. -/
theorem flat_joinChars {op : BinaryOp} {items : List ι} (hne : items ≠ [])
    (hitems : ∀ i ∈ items, Flat .factor (text i) 1) :
    Flat op.leftLevel (Text.joinChars [op.char] (items.map text)) items.length := by
  have hjoined : 1 ≤ items.length ∧
      Flat op.leftLevel (Text.joinChars [op.char] (items.map text)) items.length := by
    refine Text.joinChars_induction (motive := fun v joined =>
      1 ≤ joined.length ∧ Flat op.leftLevel v joined.length) hne ?_ ?_
    · intro i hi
      exact ⟨Nat.le_refl 1, flat_lift (floor_le_factor_floor op.leftLevel) (hitems i hi)⟩
    · rintro v joined i hi ⟨hpos, h⟩
      -- The literal is read behind the operator, where it is as low as before.
      have hitem := flat_lift (floor_le_factor_floor op.rightLevel) (hitems i hi)
      rw [List.append_assoc, List.singleton_append, List.length_append, List.length_singleton]
      exact ⟨Nat.le_add_left 1 _, flat_connect h hitem hpos⟩
  exact hjoined.2

/-- The term of a row has a tree no higher than there are names. -/
theorem flat_term {names : List String}
    (hnames : ∀ s ∈ names, ∃ c, isIdentifier c = true ∧ s = String.singleton c)
    (hne : names ≠ []) (negated : Bit) (op : BinaryOp) {row : List Bit}
    (hlen : row.length = names.length) :
    Flat op.leftLevel (TruthTable.canonicalTerm names negated op row).toList names.length := by
  have hcount : (names.zip row).length = names.length := by
    rw [List.length_zip, hlen, Nat.min_self]
  rw [toList_canonicalTerm, ← hcount]
  refine flat_joinChars (zip_row_ne_nil hne hlen) ?_
  rintro ⟨s, b⟩ hmem
  rcases hnames s (List.of_mem_zip hmem).1 with ⟨c, hc, rfl⟩
  exact flat_literal hc (b = negated)

/-- Flat characters are a source for every limit that their tree is within. -/
theorem parse_of_flat {lvl : Level} {source : String} (h : Flat lvl source.toList n)
    (hpos : 0 < n) : ∃ e : Expr, e.height ≤ n ∧
      ∀ (limit : Nat) (style : PointerStyle), n ≤ limit → parse limit source style = .ok e := by
  rcases flat_lift (sum_floor_le lvl) h with ⟨e, hheight, hreads⟩
  refine ⟨e, hheight, fun limit style hle => ?_⟩
  -- Nothing is pending at the start, so any room is enough to begin with.
  have hroom : nesting [] < limit := by
    rw [nesting_nil]
    omega
  have hend : ∀ op, none = some (Symbol.operator op) →
      op.precedence < (Goal.expression 0 true).level.floor := nofun
  have hahead : ahead [] = .ok none := rfl
  -- The whole text is read, as nothing stands behind it.
  have hrun : ((Parser.ofSource source style).wholeRun limit).outcome = .ok e := by
    have hread := consume_of_reads
      (hreads limit (.expression 0 true) [] hroom (Int.le_refl _)) hahead hend none 0
    rwa [List.append_nil] at hread
  exact Parser.construct_answer_eq_ok_iff.mpr ⟨hrun, Nat.le_trans hheight hle⟩

end Flat

namespace TruthTable

/-- A text is a source that has a bit in the row of a number, and the other bit
    in every other row. The number of names is a limit that is enough for it. -/
def SinglesOut (t : TruthTable) (i : Nat) (b : Bit) (term : String) : Prop :=
  ∃ e : Expr, (∀ (limit : Nat) (style : PointerStyle), t.names.length ≤ limit →
      parse limit term style = .ok e) ∧
    ∀ (j : Nat) (bound : Bindings), t.contexts[j]? = some bound →
      ∀ limit : Nat, t.names.length ≤ limit →
        evaluate limit e (.ofBindings bound) = .ok (if j = i then b else negate b)

/-- The term of a row has the absorbed bit in every other row. -/
theorem singlesOut_term {t : TruthTable} (hnodup : t.names.Nodup)
    (hnames : ∀ s ∈ t.names, ∃ c, isIdentifier c = true ∧ s = String.singleton c)
    (hne : t.names ≠ []) (op : BinaryOp) {i : Nat} {row : List Bit}
    (hi : t.inputs[i]? = some row) :
    t.SinglesOut i op.dual.absorbing (canonicalTerm t.names op.absorbing op row) := by
  have hlen := mem_bitRows_iff.mp (List.mem_of_getElem? hi)
  have hsingle : ∀ name ∈ t.names, name.length = 1 := by
    intro name hname
    rcases hnames name hname with ⟨c, _, rfl⟩
    exact String.length_singleton
  rcases parse_of_flat (flat_term hnames hne op.absorbing op hlen)
    (List.length_pos_iff.mpr hne) with ⟨e, hheight, hparse⟩
  rcases denotes_lift (sum_floor_le _) (denotes_term hnames hne op hlen) with
    ⟨e', hd, hvars, hvalue⟩
  -- What is parsed is what the term denotes.
  have hsum := derives_of_parse (hparse _ .html (Nat.le_refl _))
  obtain rfl := derives_unique hsum hd
  refine ⟨e, hparse, fun j bound hj limit hle => ?_⟩
  rw [contexts, List.getElem?_map, Option.map_eq_some_iff] at hj
  rcases hj with ⟨row', hj, rfl⟩
  have hlen' := mem_bitRows_iff.mp (List.mem_of_getElem? hj)
  rw [evaluate_of_heads ⟨hsum, hvars⟩ hsingle hlen' (Nat.le_trans hheight hle)]
  have hat : e.value (rowAssignment t.names row') = op.absorbing ↔
      t.names.map (rowAssignment t.names row') ≠ row := hvalue _
  rw [map_rowAssignment hnodup hlen', Ne, getElem?_bitRows_inj hi hj] at hat
  refine congrArg Except.ok ?_
  by_cases hji : j = i
  · rw [if_pos hji]
    exact not_not.mp (mt (op.eq_absorbing_iff _).mpr (not_not.mpr hji ∘ hat.mp))
  · rw [if_neg hji, hat.mpr hji]
    cases op with
    | conj | disj => rfl

/-- Each canonical term singles out one row. In a table that was made for a
    function with a variable, whatever was added to it since, there is a minterm
    and a maxterm for every row; the minterm of a row is accepted and is one in
    that row and zero in every other, and its maxterm is accepted and is zero in
    that row and one in every other. -/
theorem canonicalTerms_single_out {limit : Nat} {source : String} {maxVariables : Int}
    {style : PointerStyle} {start : TruthTable}
    (hstart : ofExpression limit source maxVariables style = .ok start)
    (hne : start.names ≠ []) (additions : List Addition) {t : TruthTable}
    (hadded : start.performAll limit additions = t) :
    t.contexts.length = 2 ^ t.names.length ∧ t.minterms.length = t.contexts.length ∧
      t.maxterms.length = t.contexts.length ∧
      (∀ (i : Nat) (term : String), t.minterms[i]? = some term → t.SinglesOut i .one term) ∧
      ∀ (i : Nat) (term : String), t.maxterms[i]? = some term → t.SinglesOut i .zero term := by
  have hsame := names_performAll limit start additions
  rw [hadded] at hsame
  -- No request changes the names, so they are those of the source: distinct identifiers.
  have hnodup := nodup_names_of_ofExpression hstart
  have hnames := isIdentifier_of_ofExpression hstart
  rw [← hsame] at hnodup hnames hne
  refine ⟨?_, ?_, ?_, ?_, ?_⟩
  · rw [contexts, List.length_map]
    exact length_bitRows _
  · rw [minterms, contexts, List.length_map, List.length_map]
  · rw [maxterms, contexts, List.length_map, List.length_map]
  · -- The term of a number is that of the row with it, and its context is the row's.
    intro i term hterm
    rw [minterms, List.getElem?_map, Option.map_eq_some_iff] at hterm
    rcases hterm with ⟨row, hi, rfl⟩
    exact singlesOut_term hnodup hnames hne .conj hi
  · intro i term hterm
    rw [maxterms, List.getElem?_map, Option.map_eq_some_iff] at hterm
    rcases hterm with ⟨row, hi, rfl⟩
    exact singlesOut_term hnodup hnames hne .disj hi

/-- The terms of the row in which only the second of two variables is one, in
    that row and in the one after it. A limit of two is enough for them. -/
theorem canonicalTerms_of_second_row :
    ∃ (start t : TruthTable) (e f : Expr) (own next : Bindings),
      ofExpression 4 "b+!a" 2 .html = .ok start ∧ start.names ≠ [] ∧
      start.performAll 4 [⟨"a*b", "text"⟩] = t ∧ t.minterms[1]? = some "!b*a" ∧
      t.maxterms[1]? = some "b+!a" ∧ t.contexts[1]? = some own ∧ t.contexts[2]? = some next ∧
      parse 2 "!b*a" .text = .ok e ∧ parse 2 "b+!a" .text = .ok f ∧
      evaluate 2 e (.ofBindings own) = .ok .one ∧ evaluate 2 e (.ofBindings next) = .ok .zero ∧
      evaluate 2 f (.ofBindings own) = .ok .zero ∧ evaluate 2 f (.ofBindings next) = .ok .one := by
  have hstart : ofExpression 4 "b+!a" 2 .html = .ok (store ⟨["b", "a"], .empty⟩ "b+!a"
      (Column.tabulated ["b", "a"] "b+!a"
        (.connect .disj (.symbol 'b') (Expr.symbol 'a').negation))) := rfl
  -- The table stays closed until each fact is computed from it once.
  generalize hs : store ⟨["b", "a"], .empty⟩ "b+!a" _ = start at hstart
  have hne : start.names ≠ [] := by
    rw [← hs]
    exact nofun
  have hnames : (start.performAll 4 [⟨"a*b", "text"⟩]).names = ["b", "a"] := by
    rw [names_performAll, ← hs]
    rfl
  rcases canonicalTerms_single_out hstart hne [⟨"a*b", "text"⟩] rfl with
    ⟨_, _, _, hminterms, hmaxterms⟩
  -- From here on only the names of the table are used.
  generalize ht : start.performAll 4 [⟨"a*b", "text"⟩] = t at hnames hminterms hmaxterms
  have hlimit : t.names.length ≤ 2 := by
    rw [hnames]
    exact Nat.le_refl 2
  have hmin : t.minterms[1]? = some "!b*a" := by
    rw [minterms, inputs, hnames]
    rfl
  have hmax : t.maxterms[1]? = some "b+!a" := by
    rw [maxterms, inputs, hnames]
    rfl
  have hown : t.contexts[1]? = some (bindRow ["b", "a"] [.zero, .one]) := by
    rw [contexts, inputs, hnames]
    rfl
  have hnext : t.contexts[2]? = some (bindRow ["b", "a"] [.one, .zero]) := by
    rw [contexts, inputs, hnames]
    rfl
  rcases hminterms 1 _ hmin with ⟨e, he, hone⟩
  rcases hmaxterms 1 _ hmax with ⟨f, hf, hzero⟩
  exact ⟨start, t, e, f, _, _, hstart, hne, ht, hmin, hmax, hown, hnext, he 2 .text hlimit,
    hf 2 .text hlimit, hone 1 _ hown 2 hlimit, hone 2 _ hnext 2 hlimit,
    hzero 1 _ hown 2 hlimit, hzero 2 _ hnext 2 hlimit⟩

end TruthTable

end BoolCalc
