import BoolCalc.Proofs.Meaning
import BoolCalc.Table.Assignment
import Mathlib

/-!
# The Rows of a Table

The list of all rows, where each of them stands, and what a row binds.

`bitRows` lists the rows by recursion on their width, and this module says
what the list amounts to: every row of the width is there once, and the place
of a row is the number that it spells in binary. So a row need not be searched
for, and what a table holds for a row is found by reading the row as a number.

A row binds each name to its bit. What a row binds is used as an assignment,
`rowAssignment`, and the two lemmas about it go back and forth between rows and
assignments: every assignment is that of some row as far as the names are
concerned, and a row over distinct names is the list of the values that it
assigns to them. Only the second needs the names to be distinct.

## Main definitions

* `rowNumber`: A row read as a number in binary.
* `rowAssignment`: The assignment that a row describes.

## Theorems

* `mem_bitRows_iff`, `length_bitRows`, `nodup_bitRows`: The list of rows.
* `getElem?_bitRows_inj`, `getElem?_bitRows`: Where a row stands in it.
* `get?_bindRow_eq_none_iff`, `get?_bindRow_of_mem`: What a row binds.
* `rowAssignment_map`, `map_rowAssignment`: Rows and assignments.
-/

namespace BoolCalc

/-- A bit as a number. -/
def Bit.toNat : Bit → Nat
  | .zero => 0
  | .one => 1

/-- A row read as a number in binary, the first bit being the most
    significant. -/
def rowNumber : List Bit → Nat
  | [] => 0
  | b :: rest => b.toNat * 2 ^ rest.length + rowNumber rest

theorem rowNumber_lt (row : List Bit) : rowNumber row < 2 ^ row.length := by
  -- The first bit counts for the half of the range, and the others stay below that.
  induction row with
  | nil => exact Nat.zero_lt_one
  | cons b rest ih =>
      simp only [rowNumber, List.length_cons, Nat.pow_succ]
      cases b with
      | zero | one =>
          simp only [Bit.toNat]
          omega

section Listing

theorem length_bitRows (n : Nat) : (bitRows n).length = 2 ^ n := by
  induction n with
  | zero => rfl
  | succ n ih =>
      rw [bitRows, List.length_append, List.length_map, List.length_map, ih, Nat.pow_succ]
      omega

theorem mem_bitRows_iff {n : Nat} {row : List Bit} : row ∈ bitRows n ↔ row.length = n := by
  induction n generalizing row with
  | zero => rw [bitRows, List.mem_singleton, List.length_eq_zero_iff]
  | succ n ih =>
      simp only [bitRows, List.mem_append, List.mem_map, ih]
      -- A row begins with either bit, and the rest is a shorter row.
      cases row with
      | nil =>
          refine iff_of_false ?_ nofun
          rintro (⟨rest, _, h⟩ | ⟨rest, _, h⟩)
          · exact absurd h nofun
          · exact absurd h nofun
      | cons b rest =>
          rw [List.length_cons, Nat.add_right_cancel_iff]
          constructor
          · rintro (⟨rest', hlen, h⟩ | ⟨rest', hlen, h⟩)
            · cases h
              exact hlen
            · cases h
              exact hlen
          · intro hlen
            cases b with
            | zero => exact Or.inl ⟨rest, hlen, rfl⟩
            | one => exact Or.inr ⟨rest, hlen, rfl⟩

/-- No row is listed twice: the two halves differ in the first bit. -/
theorem nodup_bitRows (n : Nat) : (bitRows n).Nodup := by
  induction n with
  | zero => exact List.nodup_singleton []
  | succ n ih =>
      rw [bitRows, List.nodup_append]
      refine ⟨ih.map List.cons_injective, ih.map List.cons_injective, ?_⟩
      intro row hrow row' hrow' heq
      rcases List.mem_map.mp hrow with ⟨rest, _, rfl⟩
      rcases List.mem_map.mp hrow' with ⟨rest', _, rfl⟩
      -- Their first bits are different.
      exact absurd heq nofun

/-- A row is at one place only. -/
theorem getElem?_bitRows_inj {n i j : Nat} {row row' : List Bit}
    (hi : (bitRows n)[i]? = some row) (hj : (bitRows n)[j]? = some row') :
    row' = row ↔ j = i := by
  rcases List.getElem?_eq_some_iff.mp hi with ⟨hlti, rfl⟩
  rcases List.getElem?_eq_some_iff.mp hj with ⟨hltj, rfl⟩
  exact (nodup_bitRows n).getElem_inj_iff

theorem bitRows_ne_nil (n : Nat) : bitRows n ≠ [] := by
  intro h
  have hlen := length_bitRows n
  rw [h, List.length_nil] at hlen
  exact absurd hlen.symm (Nat.pos_iff_ne_zero.mp (Nat.two_pow_pos n))

/-- A row stands at the number it spells. -/
theorem getElem?_bitRows {n : Nat} {row : List Bit} (hlen : row.length = n) :
    (bitRows n)[rowNumber row]? = some row := by
  induction row generalizing n with
  | nil =>
      rw [← hlen]
      rfl
  | cons b rest ih =>
      have hlt := rowNumber_lt rest
      rw [← hlen, List.length_cons, bitRows, rowNumber]
      -- The rows that begin with a zero come first, and there are as many of
      -- them as the first bit counts for.
      cases b with
      | zero =>
          rw [Bit.toNat, Nat.zero_mul, Nat.zero_add, List.getElem?_append_left,
            List.getElem?_map, ih rfl]
          · rfl
          · rw [List.length_map, length_bitRows]
            exact hlt
      | one =>
          rw [Bit.toNat, Nat.one_mul, List.getElem?_append_right, List.length_map,
            length_bitRows, Nat.add_sub_cancel_left, List.getElem?_map, ih rfl]
          · rfl
          · rw [List.length_map, length_bitRows]
            exact Nat.le_add_right _ _

end Listing

section Binding

variable {names : List String} {row : List Bit} {s : String}

/-- The assignment that a row describes. -/
def rowAssignment (names : List String) (row : List Bit) : String → Bit :=
  assigned (bindRow names row).get?

/-- A row binds the names and nothing else. -/
theorem get?_bindRow_eq_none_iff (hlen : row.length = names.length) :
    (bindRow names row).get? s = none ↔ s ∉ names := by
  rw [bindRow, OrderedMap.get?_ofList_eq_none_iff, List.map_fst_zip (Nat.le_of_eq hlen.symm)]

theorem get?_bindRow_of_mem (hlen : row.length = names.length) (hs : s ∈ names) :
    (bindRow names row).get? s = some (rowAssignment names row s) := by
  cases h : (bindRow names row).get? s with
  | none => exact absurd hs ((get?_bindRow_eq_none_iff hlen).mp h)
  | some b => rw [rowAssignment, assigned, h, Option.getD_some]

/-- On the names, the row of an assignment's values describes that
    assignment. -/
theorem rowAssignment_map (assignment : String → Bit) (hs : s ∈ names) :
    rowAssignment names (names.map assignment) s = assignment s := by
  -- Each name stands beside its own value.
  have hagree : ∀ entry ∈ names.zip (names.map assignment), assignment entry.1 = entry.2 := by
    rw [← List.map_prod_left_eq_zip]
    intro entry hentry
    rcases List.mem_map.mp hentry with ⟨name, _, rfl⟩
    rfl
  have hkey : s ∈ (names.zip (names.map assignment)).map Prod.fst := by
    rw [List.map_fst_zip (Nat.le_of_eq (List.length_map ..).symm)]
    exact hs
  rw [rowAssignment, assigned, bindRow, OrderedMap.get?_ofList_of_agree hagree hkey,
    Option.getD_some]

/-- A row over distinct names can be had from an assignment. -/
theorem exists_assignment_of_nodup (hnames : names.Nodup) (hlen : row.length = names.length) :
    ∃ assignment, names.map assignment = row := by
  induction names generalizing row with
  | nil => exact ⟨fun _ => .zero, (List.length_eq_zero_iff.mp hlen).symm⟩
  | cons name rest ih =>
      cases row with
      | nil => exact absurd hlen nofun
      | cons b row =>
          rcases List.nodup_cons.mp hnames with ⟨hname, hrest⟩
          rcases ih hrest (Nat.succ.inj hlen) with ⟨assignment, hrow⟩
          -- The first name does not come again, so its bit disturbs no other.
          refine ⟨fun s => if s = name then b else assignment s, ?_⟩
          rw [List.map_cons, if_pos rfl, ← hrow]
          refine congrArg _ (List.map_congr_left fun s hs => if_neg ?_)
          exact fun heq => hname (heq ▸ hs)

/-- A row over distinct names lists what it assigns to them. -/
theorem map_rowAssignment (hnames : names.Nodup) (hlen : row.length = names.length) :
    names.map (rowAssignment names row) = row := by
  rcases exists_assignment_of_nodup hnames hlen with ⟨assignment, rfl⟩
  exact List.map_congr_left fun s hs => rowAssignment_map assignment hs

end Binding

end BoolCalc
