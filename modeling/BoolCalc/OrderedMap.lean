/-!
# Maps that Remember Insertion Order

A finite map whose entries are listed in the order in which their keys first
arrived. Contexts, the functions of a truth table and the index of a drawn
tree are all such maps: each answers look-ups, and each is also read from
front to back.

Inserting under a key that is already present keeps the key where it stands
and only replaces its value. Keys are compared with `==`, which need not be
equality; when two keys are `==` the first one stays.

That no two entries share a key is part of the type, so nothing that walks
the entries has to allow for a repeated one.

## Main definitions

* `OrderedMap`: Entries with pairwise different keys.
* `OrderedMap.insert`: Replace in place, or append.
* `OrderedMap.get?`: The value under a key.
* `OrderedMap.ofList`: Insert the pairs of a list from left to right.

## Theorems

* `keys_insert`: What an insertion does to the order of the keys.
* `get?_insert_self`, `get?_insert_of_ne`: What an insertion does to look-ups.
* `get?_eq_none_iff`, `get?_eq_some_iff`: Look-ups find the entries.
* `get?_ofList_eq_none_iff`, `get?_ofList_of_agree`: Look-ups in the map of a
  list of pairs.
* `entries_union_of_disjoint`: The entries of a union without common keys.
-/

namespace BoolCalc

/-- Whether two entries have different keys. -/
def entriesDiffer {κ α : Type} [BEq κ] (x y : κ × α) : Prop :=
  (x.1 == y.1) = false

/-- A finite map in order of first insertion. -/
structure OrderedMap (κ α : Type) [BEq κ] where
  /-- The entries from first inserted to last. -/
  entries : List (κ × α)
  /-- No key occurs twice. -/
  distinct : entries.Pairwise entriesDiffer

namespace OrderedMap

variable {κ α β : Type} [BEq κ]

/-- Replace the value of the entry under `k`, wherever it stands. -/
def replaceEntry (k : κ) (v : α) (entries : List (κ × α)) : List (κ × α) :=
  entries.map fun entry => if entry.1 == k then (entry.1, v) else entry

theorem map_fst_replaceEntry (k : κ) (v : α) (entries : List (κ × α)) :
    (replaceEntry k v entries).map Prod.fst = entries.map Prod.fst := by
  simp only [replaceEntry, List.map_map]
  refine List.map_congr_left fun entry _ => ?_
  simp only [Function.comp]
  split <;> rfl

/-- Replacing an entry does not change where a key is found. -/
theorem find?_replaceEntry (k k' : κ) (v : α) (entries : List (κ × α)) :
    (replaceEntry k v entries).find? (fun entry => entry.1 == k') =
      (entries.find? fun entry => entry.1 == k').map
        fun entry => if entry.1 == k then (entry.1, v) else entry := by
  rw [replaceEntry, List.find?_map]
  refine congrArg (fun p => Option.map _ (List.find? p entries)) (funext fun entry => ?_)
  simp only [Function.comp]
  split <;> rfl

/-- Distinctness only looks at the keys. -/
theorem pairwise_entriesDiffer_iff (entries : List (κ × α)) :
    entries.Pairwise entriesDiffer ↔
      (entries.map Prod.fst).Pairwise fun x y => (x == y) = false := by
  rw [List.pairwise_map]
  rfl

/-- The map with no entry. -/
def empty : OrderedMap κ α := ⟨[], List.Pairwise.nil⟩

instance : Inhabited (OrderedMap κ α) := ⟨empty⟩

/-- Whether a key is present. -/
def contains (m : OrderedMap κ α) (k : κ) : Bool :=
  m.entries.any fun entry => entry.1 == k

/-- The value under a key. -/
def get? (m : OrderedMap κ α) (k : κ) : Option α :=
  (m.entries.find? fun entry => entry.1 == k).map Prod.snd

/-- The keys in order of first insertion. -/
def keys (m : OrderedMap κ α) : List κ := m.entries.map Prod.fst

/-- The values in the order of their keys. -/
def values (m : OrderedMap κ α) : List α := m.entries.map Prod.snd

/-- Bind `k` to `v`. A key that is already there keeps its place. -/
def insert (m : OrderedMap κ α) (k : κ) (v : α) : OrderedMap κ α :=
  if h : m.contains k then
    ⟨replaceEntry k v m.entries, by
      rw [pairwise_entriesDiffer_iff, map_fst_replaceEntry, ← pairwise_entriesDiffer_iff]
      exact m.distinct⟩
  else
    ⟨m.entries ++ [(k, v)], by
      refine List.pairwise_append.2 ⟨m.distinct, List.pairwise_singleton .., ?_⟩
      intro x hx y hy
      rw [List.mem_singleton.1 hy]
      simp only [contains, List.any_eq_true, not_exists, not_and, Bool.not_eq_true] at h
      exact h x hx⟩

/-- Insert every entry of `n` into `m`, in the order of `n`. -/
def union (m n : OrderedMap κ α) : OrderedMap κ α :=
  n.entries.foldl (fun acc entry => acc.insert entry.1 entry.2) m

/-- The map a list of pairs describes: a repeated key keeps its first place
    and its last value. -/
def ofList (pairs : List (κ × α)) : OrderedMap κ α :=
  pairs.foldl (fun acc entry => acc.insert entry.1 entry.2) empty

@[simp] theorem keys_empty : (empty : OrderedMap κ α).keys = [] := rfl

/-- An insertion leaves the keys as they are, or appends one new key. -/
theorem keys_insert (m : OrderedMap κ α) (k : κ) (v : α) :
    (m.insert k v).keys = if m.contains k then m.keys else m.keys ++ [k] := by
  unfold insert keys
  split
  · exact map_fst_replaceEntry k v m.entries
  · simp

section Lawful

variable [LawfulBEq κ] {m : OrderedMap κ α} {k k' : κ} {v : α}

theorem contains_iff_mem_keys : m.contains k = true ↔ k ∈ m.keys := by
  simp only [contains, keys, List.any_eq_true, List.mem_map, beq_iff_eq]

theorem entries_insert_of_mem (h : k ∈ m.keys) (v : α) :
    (m.insert k v).entries = replaceEntry k v m.entries := by
  rw [insert, dif_pos (contains_iff_mem_keys.mpr h)]

theorem entries_insert_of_not_mem (h : k ∉ m.keys) (v : α) :
    (m.insert k v).entries = m.entries ++ [(k, v)] := by
  rw [insert, dif_neg (mt contains_iff_mem_keys.mp h)]

theorem mem_entries_of_get? (h : m.get? k = some v) : (k, v) ∈ m.entries := by
  rcases Option.map_eq_some_iff.mp h with ⟨entry, hfind, rfl⟩
  have hfound := List.find?_some hfind
  rw [← beq_iff_eq.mp hfound]
  exact List.mem_of_find?_eq_some hfind

theorem get?_eq_none_iff : m.get? k = none ↔ k ∉ m.keys := by
  rw [get?, Option.map_eq_none_iff, List.find?_eq_none, ← contains_iff_mem_keys, contains,
    List.any_eq_true]
  exact ⟨fun h hany => hany.elim fun entry hentry => h entry hentry.1 hentry.2,
    fun h entry hentry hkey => h ⟨entry, hentry, hkey⟩⟩

theorem nodup_keys (m : OrderedMap κ α) : m.keys.Nodup :=
  ((pairwise_entriesDiffer_iff m.entries).mp m.distinct).imp beq_eq_false_iff_ne.mp

/-- Among entries with pairwise different keys a key leads to its entry. -/
theorem find?_of_mem {entries : List (κ × α)} (hdistinct : entries.Pairwise entriesDiffer)
    (hmem : (k, v) ∈ entries) : entries.find? (fun entry => entry.1 == k) = some (k, v) := by
  -- The first entry is the one, or it has another key and is skipped.
  induction entries with
  | nil => exact absurd hmem List.not_mem_nil
  | cons entry rest ih =>
      rcases List.pairwise_cons.mp hdistinct with ⟨hfirst, hrest⟩
      rcases List.mem_cons.mp hmem with rfl | hlater
      · exact List.find?_cons_of_pos (beq_self_eq_true k)
      · have hskip : (entry.1 == k) = false := hfirst (k, v) hlater
        rw [List.find?_cons, hskip]
        exact ih hrest hlater

theorem get?_eq_some_iff : m.get? k = some v ↔ (k, v) ∈ m.entries := by
  refine ⟨mem_entries_of_get?, fun hmem => ?_⟩
  rw [get?, find?_of_mem m.distinct hmem, Option.map_some]

theorem get?_insert_self (m : OrderedMap κ α) (k : κ) (v : α) :
    (m.insert k v).get? k = some v := by
  rw [get?]
  -- The key is there and its entry is replaced, or a new entry comes last.
  by_cases h : k ∈ m.keys
  · rw [entries_insert_of_mem h, find?_replaceEntry]
    cases hfind : m.entries.find? fun entry => entry.1 == k with
    | none =>
        refine absurd h (get?_eq_none_iff.mp ?_)
        rw [get?, hfind]
        rfl
    | some entry => simp only [Option.map_some, List.find?_some hfind, if_pos]
  · -- No earlier entry has the key, so the search goes on to the new one.
    have hnone : m.entries.find? (fun entry => entry.1 == k) = none :=
      Option.map_eq_none_iff.mp (get?_eq_none_iff.mpr h)
    rw [entries_insert_of_not_mem h, List.find?_append, hnone]
    simp only [List.find?_cons, beq_self_eq_true, Option.none_or, Option.map_some]

theorem get?_insert_of_ne (h : k' ≠ k) (v : α) : (m.insert k v).get? k' = m.get? k' := by
  rw [get?, get?]
  by_cases hmem : k ∈ m.keys
  · rw [entries_insert_of_mem hmem, find?_replaceEntry]
    cases hfind : m.entries.find? fun entry => entry.1 == k' with
    | none => rfl
    | some entry =>
        -- The entry that is found has the other key, and so it was not replaced.
        have hfound := List.find?_some hfind
        have hne : ¬(entry.1 == k) = true := by
          rw [beq_iff_eq.mp hfound, beq_iff_eq]
          exact h
        simp only [Option.map_some, if_neg hne]
  · have hne : (k == k') = false := beq_eq_false_iff_ne.mpr h.symm
    rw [entries_insert_of_not_mem hmem, List.find?_append]
    simp only [List.find?_cons, List.find?_nil, hne, Option.or_none]

/-- An insertion brings no entry but its own. -/
theorem mem_entries_insert {entry : κ × α} (h : entry ∈ (m.insert k v).entries) :
    entry = (k, v) ∨ entry ∈ m.entries := by
  -- An entry is replaced where it stands, or the new one is appended.
  by_cases hmem : k ∈ m.keys
  · rw [entries_insert_of_mem hmem, replaceEntry, List.mem_map] at h
    rcases h with ⟨old, hold, rfl⟩
    by_cases hkey : (old.1 == k) = true
    · rw [if_pos hkey, beq_iff_eq.mp hkey]
      exact Or.inl rfl
    · rw [if_neg hkey]
      exact Or.inr hold
  · rw [entries_insert_of_not_mem hmem, List.mem_append, List.mem_singleton] at h
    exact h.symm

theorem mem_keys_insert : k' ∈ (m.insert k v).keys ↔ k' ∈ m.keys ∨ k' = k := by
  rw [keys_insert]
  by_cases h : m.contains k = true
  · rw [if_pos h]
    exact ⟨Or.inl, fun hk => hk.elim id fun hk => hk ▸ contains_iff_mem_keys.mp h⟩
  · rw [if_neg h, List.mem_append, List.mem_singleton]

/-- The keys after inserting the pairs of a list from left to right. -/
theorem mem_keys_foldl_insert {pairs : List (κ × α)} :
    k ∈ (pairs.foldl (fun acc entry => acc.insert entry.1 entry.2) m).keys ↔
      k ∈ m.keys ∨ k ∈ pairs.map Prod.fst := by
  induction pairs generalizing m with
  | nil => exact ⟨Or.inl, fun h => h.resolve_right List.not_mem_nil⟩
  | cons entry rest ih =>
      rw [List.foldl_cons, ih, mem_keys_insert, List.map_cons, List.mem_cons, or_assoc]

/-- If all pairs of a list agree with a function, so does the map after
    inserting them, at every key that they have. -/
theorem get?_foldl_insert_of_agree {pairs : List (κ × α)} {f : κ → α}
    (hagree : ∀ entry ∈ pairs, f entry.1 = entry.2)
    (h : k ∈ pairs.map Prod.fst ∨ m.get? k = some (f k)) :
    (pairs.foldl (fun acc entry => acc.insert entry.1 entry.2) m).get? k = some (f k) := by
  induction pairs generalizing m with
  | nil => exact h.resolve_left List.not_mem_nil
  | cons entry rest ih =>
      refine ih (fun other hmem => hagree other (List.mem_cons_of_mem _ hmem)) ?_
      rw [List.map_cons, List.mem_cons] at h
      by_cases hkey : k = entry.1
      · -- The pair itself agrees, whatever was under its key before.
        right
        rw [hkey, get?_insert_self, hagree entry List.mem_cons_self]
      · rw [get?_insert_of_ne hkey]
        exact h.imp_left fun h => h.resolve_left hkey

theorem get?_ofList_eq_none_iff {pairs : List (κ × α)} :
    (ofList pairs).get? k = none ↔ k ∉ pairs.map Prod.fst := by
  rw [get?_eq_none_iff, ofList, mem_keys_foldl_insert, keys_empty]
  exact not_congr ⟨fun h => h.resolve_left List.not_mem_nil, Or.inr⟩

theorem get?_ofList_of_agree {pairs : List (κ × α)} {f : κ → α}
    (hagree : ∀ entry ∈ pairs, f entry.1 = entry.2) (h : k ∈ pairs.map Prod.fst) :
    (ofList pairs).get? k = some (f k) :=
  get?_foldl_insert_of_agree hagree (Or.inl h)

theorem mem_keys_union {n : OrderedMap κ α} :
    k ∈ (m.union n).keys ↔ k ∈ m.keys ∨ k ∈ n.keys :=
  mem_keys_foldl_insert

/-- Inserting pairs whose keys are new and differ from each other appends
    them. -/
theorem entries_foldl_insert_of_fresh {pairs : List (κ × α)}
    (hdistinct : pairs.Pairwise entriesDiffer) (hfresh : ∀ entry ∈ pairs, entry.1 ∉ m.keys) :
    (pairs.foldl (fun acc entry => acc.insert entry.1 entry.2) m).entries =
      m.entries ++ pairs := by
  induction pairs generalizing m with
  | nil => exact (List.append_nil _).symm
  | cons entry rest ih =>
      rcases List.pairwise_cons.mp hdistinct with ⟨hfirst, hrest⟩
      rw [List.foldl_cons, ih hrest,
        entries_insert_of_not_mem (hfresh entry List.mem_cons_self), List.append_assoc,
        List.singleton_append]
      -- The next key is new also after this insertion, as the two are different.
      intro other hmem hkey
      rcases mem_keys_insert.mp hkey with hold | hsame
      · exact hfresh other (List.mem_cons_of_mem _ hmem) hold
      · exact beq_eq_false_iff_ne.mp (hfirst other hmem) hsame.symm

/-- The entries of a union without common keys stand one after another. -/
theorem entries_union_of_disjoint {n : OrderedMap κ α} (h : ∀ k ∈ n.keys, k ∉ m.keys) :
    (m.union n).entries = m.entries ++ n.entries :=
  entries_foldl_insert_of_fresh n.distinct fun _ hmem => h _ (List.mem_map_of_mem hmem)

end Lawful

end OrderedMap

end BoolCalc
