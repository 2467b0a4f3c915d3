import BoolCalc.OrderedMap
import Mathlib.Data.List.Induction

/-!
# Maps Entry by Entry

Maps whose entries are put another way, and the last value that a list of pairs
gives a key.

When the keys of a map are renamed, or are written as keys of another type, the
map stays the same in all but its spelling, provided that different keys stay
different. `OrderedMap.mapEntries` asks for exactly that. It says nothing about
equality, so it also serves keys of which `==` tells less than equality does.
Inserting and looking up go along with it, and therefore everything that is
built from them.

The map of a list of pairs holds under each key the value that the list gives it
last. That is a statement about the list alone, and `get?_ofList_eq_some_iff`
makes it.

## Main definitions

* `OrderedMap.mapEntries`: A map with its keys and values put another way.

## Theorems

* `ext_entries`: A map is determined by its entries.
* `get?_mapEntries`, `mapEntries_insert`, `ofList_map`: Looking up, inserting
  and listing, in other words.
* `ofList_entries`: A map is that of its own entries.
* `get?_ofList_eq_some_iff`: What the map of a list holds.
-/

namespace BoolCalc

namespace OrderedMap

/-- A map is determined by its entries. -/
theorem ext_entries {κ α : Type} [BEq κ] {m n : OrderedMap κ α} (h : m.entries = n.entries) :
    m = n := by
  cases m
  cases n
  cases h
  rfl

section Mapped

variable {κ κ' α β : Type} [BEq κ] [BEq κ'] (f : κ → κ') (g : α → β)
  (hf : ∀ k k', (f k == f k') = (k == k'))

/-- The map with its keys and values put another way. Keys that differ have to
    be put in ways that differ. -/
def mapEntries (m : OrderedMap κ α) : OrderedMap κ' β :=
  ⟨m.entries.map (Prod.map f g), by
    rw [List.pairwise_map]
    exact m.distinct.imp fun h => (hf _ _).trans h⟩

@[simp] theorem entries_mapEntries (m : OrderedMap κ α) :
    (m.mapEntries f g hf).entries = m.entries.map (Prod.map f g) := rfl

theorem contains_mapEntries (m : OrderedMap κ α) (k : κ) :
    (m.mapEntries f g hf).contains (f k) = m.contains k := by
  rw [contains, contains, entries_mapEntries, List.any_map]
  exact congrArg (List.any m.entries) (funext fun entry => hf entry.1 k)

/-- A key is found under its new spelling. -/
theorem get?_mapEntries (m : OrderedMap κ α) (k : κ) :
    (m.mapEntries f g hf).get? (f k) = (m.get? k).map g := by
  have hkey : (fun entry : κ' × β => entry.1 == f k) ∘ Prod.map f g =
      fun entry : κ × α => entry.1 == k := funext fun entry => hf entry.1 k
  rw [get?, get?, entries_mapEntries, List.find?_map, hkey, Option.map_map, Option.map_map]
  rfl

theorem entries_insert (m : OrderedMap κ α) (k : κ) (v : α) :
    (m.insert k v).entries =
      if m.contains k then replaceEntry k v m.entries else m.entries ++ [(k, v)] := by
  rw [insert]
  by_cases h : m.contains k = true
  · rw [dif_pos h, if_pos h]
  · rw [dif_neg h, if_neg h]

include hf in
theorem replaceEntry_map (k : κ) (v : α) (entries : List (κ × α)) :
    (replaceEntry k v entries).map (Prod.map f g) =
      replaceEntry (f k) (g v) (entries.map (Prod.map f g)) := by
  rw [replaceEntry, replaceEntry, List.map_map, List.map_map]
  refine List.map_congr_left fun entry _ => ?_
  simp only [Function.comp, Prod.map_fst, hf]
  by_cases h : (entry.1 == k) = true
  · rw [if_pos h, if_pos h]
    rfl
  · rw [if_neg h, if_neg h]

theorem mapEntries_insert (m : OrderedMap κ α) (k : κ) (v : α) :
    (m.insert k v).mapEntries f g hf = (m.mapEntries f g hf).insert (f k) (g v) := by
  refine ext_entries ?_
  rw [entries_mapEntries, entries_insert, entries_insert, contains_mapEntries, entries_mapEntries]
  by_cases h : m.contains k = true
  · rw [if_pos h, if_pos h, replaceEntry_map f g hf]
  · rw [if_neg h, if_neg h, List.map_append]
    rfl

/-- Pairs may be put another way before or after they are inserted. -/
theorem foldl_insert_map (pairs : List (κ × α)) (m : OrderedMap κ α) :
    (pairs.map (Prod.map f g)).foldl (fun acc entry => acc.insert entry.1 entry.2)
        (m.mapEntries f g hf) =
      (pairs.foldl (fun acc entry => acc.insert entry.1 entry.2) m).mapEntries f g hf := by
  induction pairs generalizing m with
  | nil => rfl
  | cons pair rest ih =>
      rw [List.map_cons, List.foldl_cons, List.foldl_cons, ← ih, mapEntries_insert]
      rfl

theorem ofList_map (pairs : List (κ × α)) :
    ofList (pairs.map (Prod.map f g)) = (ofList pairs).mapEntries f g hf :=
  foldl_insert_map f g hf pairs empty

end Mapped

section Listed

variable {κ α : Type} [BEq κ] [LawfulBEq κ]

/-- A map is that of its own entries. -/
theorem ofList_entries (m : OrderedMap κ α) : ofList m.entries = m :=
  ext_entries (entries_foldl_insert_of_fresh m.distinct fun _ _ => List.not_mem_nil)

/-- Under a key the map of a list holds the value of the last pair that has the
    key. -/
theorem get?_ofList_eq_some_iff {pairs : List (κ × α)} {k : κ} {v : α} :
    (ofList pairs).get? k = some v ↔
      ∃ before after, pairs = before ++ (k, v) :: after ∧ k ∉ after.map Prod.fst := by
  -- The last pair is the one that is inserted last, so the list is taken apart
  -- from its end.
  induction pairs using List.reverseRecOn with
  | nil =>
      refine iff_of_false nofun ?_
      rintro ⟨before, after, h, _⟩
      exact absurd h.symm (List.append_ne_nil_of_right_ne_nil _ (List.cons_ne_nil _ _))
  | append_singleton pairs pair ih =>
      have hinsert : ofList (pairs ++ [pair]) = (ofList pairs).insert pair.1 pair.2 := by
        rw [ofList, List.foldl_append]
        rfl
      rw [hinsert]
      constructor
      · intro h
        by_cases hkey : k = pair.1
        · rw [hkey, get?_insert_self, Option.some.injEq] at h
          exact ⟨pairs, [], by rw [hkey, ← h], List.not_mem_nil⟩
        · rw [get?_insert_of_ne hkey] at h
          rcases ih.mp h with ⟨before, after, rfl, hafter⟩
          refine ⟨before, after ++ [pair], by simp only [List.append_assoc, List.cons_append], ?_⟩
          rw [List.map_append, List.mem_append, not_or]
          exact ⟨hafter, fun hmem => hkey (List.mem_singleton.mp hmem)⟩
      · rintro ⟨before, after, h, hafter⟩
        -- The pair that is inserted last has the key, or else it is one of those after.
        rcases List.eq_nil_or_concat after with rfl | ⟨after, last, rfl⟩
        · rcases List.append_inj' h rfl with ⟨_, hpair⟩
          cases hpair
          exact get?_insert_self _ k v
        · rw [List.concat_eq_append, ← List.cons_append, ← List.append_assoc] at h
          rcases List.append_inj' h rfl with ⟨rfl, hpair⟩
          cases hpair
          rw [List.concat_eq_append, List.map_append, List.mem_append, not_or] at hafter
          have hkey : k ≠ pair.1 := fun hkey => hafter.2 (List.mem_singleton.mpr hkey)
          rw [get?_insert_of_ne hkey]
          exact ih.mpr ⟨before, after, rfl, hafter.1⟩

end Listed

end OrderedMap

end BoolCalc
