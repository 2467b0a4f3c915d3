import BoolCalc.Cli.Command
import BoolCalc.Proofs.Contexts

/-!
# What Items Give

The bindings that are written down as items, and what several of them come to.

An item is a name, an equals sign and a value. `Gives` says so without reading
the item from left to right, and `readItem?_eq_some_iff` that reading finds
exactly this. The name cannot be the equals sign itself: the first equals sign of
an item separates, and before it there would be nothing left.

Items are read one after another into a map, where a repeated name keeps its
place and loses its value. All that is said about the map here is which value a
name has in the end, namely the one that `LastGiven` says. As keys and values the
names and values are texts, and the context is another spelling of the map. If
every value is a bit, the bindings of the context are a third spelling of it.

## Main definitions

* `Context.ofTexts`: The context in which characters are given texts.
* `Gives`: What an item gives to which name.
* `GiveEach`: What items give one after another.
* `LastGiven`: What items give to a name in the end.
* `itemContext`: The context of names and values.

## Theorems

* `bindings_ofTexts_eq_ok_iff`: When texts come to bindings, and to which.
* `readItem?_eq_some_iff`, `readItem?_eq_none_iff`: What is read in an item.
* `exists_lastGiven`: What is given is given last by some item.
* `mapM_readItem?_of_gives`, `mapM_readItem?_of_not_gives`: What is read in
  items.
* `lastGiven_iff_get?`: What the map of all items holds.
-/

namespace BoolCalc

namespace Context

section Texts

theorem singleton_beq (c c' : Char) : (String.singleton c == String.singleton c') = (c == c') := by
  rw [Bool.eq_iff_iff, beq_iff_eq, beq_iff_eq, String.singleton_inj]

theorem text_singleton_beq (c c' : Char) :
    (Scalar.text (String.singleton c) == Scalar.text (String.singleton c')) = (c == c') :=
  (text_beq _ _).trans (singleton_beq c c')

/-- The bit that a text is written for, and zero if it is written for none. -/
def textBit (v : String) : Bit := (Bit.ofText? v).getD .zero

theorem textBit_text (b : Bit) : textBit b.text = b := by
  rw [textBit, Bit.ofText?_text, Option.getD_some]

/-- The context in which characters are given texts. -/
def ofTexts (given : OrderedMap Char String) : Context :=
  given.mapEntries (fun c => .text (String.singleton c)) (fun v => .scalar (.text v))
    text_singleton_beq

variable {given : OrderedMap Char String}

theorem valid_ofTexts_iff :
    (ofTexts given).Valid ↔ ∀ entry ∈ given.entries, ∃ b : Bit, entry.2 = b.text := by
  rw [Valid, ofTexts, OrderedMap.entries_mapEntries, List.forall_mem_map]
  refine forall₂_congr fun entry _ => ?_
  constructor
  · rintro ⟨_, b, hb⟩
    exact ⟨b, Bit.ofText?_eq_some_iff.mp (Value.toBit?_eq_some_iff.mpr hb)⟩
  · rintro ⟨b, hb⟩
    exact ⟨⟨entry.1, rfl⟩, b, Value.toBit?_eq_some_iff.mp (Bit.ofText?_eq_some_iff.mpr hb)⟩

/-- Texts come to bindings exactly if they are all bits, and then the bindings are
    the same map with names for characters and bits for texts. -/
theorem bindings_ofTexts_eq_ok_iff {bound : Bindings} : (ofTexts given).bindings = .ok bound ↔
    (∀ entry ∈ given.entries, ∃ b : Bit, entry.2 = b.text) ∧
      bound = given.mapEntries String.singleton textBit singleton_beq := by
  have hbound : (∀ entry ∈ given.entries, ∃ b : Bit, entry.2 = b.text) →
      (ofTexts given).bindings = .ok (given.mapEntries String.singleton textBit singleton_beq) := by
    intro hbits
    have hentries : ComeTo (ofTexts given).entries
        (given.entries.map (Prod.map String.singleton textBit)) := by
      rw [ofTexts, OrderedMap.entries_mapEntries, ComeTo, List.forall₂_map_left_iff,
        List.forall₂_map_right_iff, List.forall₂_same]
      intro entry hentry
      rcases hbits entry hentry with ⟨b, hb⟩
      refine bindEntry_eq_ok_iff.mpr ⟨⟨rfl, entry.1, rfl⟩, ?_⟩
      rw [Prod.map_snd, Prod.map_snd, hb, textBit_text]
      exact Value.StandsFor.text b
    -- The entries have different keys, so inserting them restores the map.
    rw [bindings_of_entries hentries, OrderedMap.ofList_map _ _ singleton_beq,
      OrderedMap.ofList_entries]
  constructor
  · intro h
    have hbits := valid_ofTexts_iff.mp (exists_bindings_iff.mp ⟨bound, h⟩)
    exact ⟨hbits, Except.ok.inj (h.symm.trans (hbound hbits))⟩
  · rintro ⟨hbits, rfl⟩
    exact hbound hbits

end Texts

end Context

namespace Cli

/-- An item gives a value to a name. The name is the one character in front of
    the first equals sign, and the value is what follows it, without blanks
    around it. -/
def Gives (item : String) (name : Char) (value : String) : Prop :=
  name ≠ '=' ∧ ∃ rest, item.toList = name :: '=' :: rest ∧
    value = Text.trim Text.isBlank (String.ofList rest)

/-- Items give names their values, one after another. -/
abbrev GiveEach (items : List String) (named : List (Char × String)) : Prop :=
  List.Forall₂ (fun item entry => Gives item entry.1 entry.2) items named

/-- The last of some items that gives anything to a name gives it this value. -/
def LastGiven (items : List String) (name : Char) (value : String) : Prop :=
  ∃ before item after, items = before ++ item :: after ∧ Gives item name value ∧
    ∀ later ∈ after, ∀ other, ¬Gives later name other

section Reading

variable {item : String}

theorem gives_unique {name name' : Char} {value value' : String} (h : Gives item name value)
    (h' : Gives item name' value') : name = name' ∧ value = value' := by
  rcases h with ⟨_, rest, hitem, rfl⟩
  rcases h' with ⟨_, rest', hitem', rfl⟩
  rw [hitem] at hitem'
  cases hitem'
  exact ⟨rfl, rfl⟩

/-- What is read in an item is what it gives. -/
theorem readItem?_eq_some_iff {entry : Scalar × Value} : readItem? item = some entry ↔
    ∃ name value, Gives item name value ∧
      entry = (.text (String.singleton name), .scalar (.text value)) := by
  unfold readItem?
  split
  · next name rest hitem =>
      -- A name that is the equals sign ends at once, so nothing is given.
      by_cases hname : name = '='
      · rw [if_pos hname]
        refine iff_of_false nofun ?_
        rintro ⟨name', value, ⟨hne, rest', hitem', _⟩, _⟩
        rw [hitem] at hitem'
        exact hne ((List.cons.inj hitem').1 ▸ hname)
      · rw [if_neg hname, Option.some.injEq]
        constructor
        · rintro rfl
          exact ⟨name, _, ⟨hname, rest, hitem, rfl⟩, rfl⟩
        · rintro ⟨name', value, hgives, rfl⟩
          rcases gives_unique ⟨hname, rest, hitem, rfl⟩ hgives with ⟨rfl, rfl⟩
          rfl
  · -- An item that is empty has no name.
    next hother =>
      refine iff_of_false nofun ?_
      rintro ⟨name, value, ⟨_, rest, hitem, _⟩, _⟩
      exact hother name rest hitem

theorem readItem?_eq_none_iff :
    readItem? item = none ↔ ∀ name value, ¬Gives item name value := by
  rw [Option.eq_none_iff_forall_ne_some]
  constructor
  · intro h name value hgives
    exact h _ (readItem?_eq_some_iff.mpr ⟨name, value, hgives, rfl⟩)
  · intro h entry hentry
    rcases readItem?_eq_some_iff.mp hentry with ⟨name, value, hgives, _⟩
    exact h name value hgives

end Reading

/-- What is given at all is given in the end. -/
theorem exists_lastGiven {items : List String} {item value : String} {name : Char}
    (hmem : item ∈ items) (hgives : Gives item name value) :
    ∃ value, LastGiven items name value := by
  induction items generalizing item value with
  | nil => exact absurd hmem List.not_mem_nil
  | cons first rest ih =>
      -- Either a later item gives the name something, or this one is the last to.
      by_cases hlater : ∃ later ∈ rest, ∃ other, Gives later name other
      · rcases hlater with ⟨later, hrest, other, hother⟩
        rcases ih hrest hother with ⟨value, before, last, after, rfl, hlast⟩
        exact ⟨value, first :: before, last, after, rfl, hlast⟩
      · -- Nothing further on gives anything, so the item has to be the first.
        have hnone : ∀ later ∈ rest, ∀ other, ¬Gives later name other :=
          fun later hrest other hother => hlater ⟨later, hrest, other, hother⟩
        rcases List.mem_cons.mp hmem with rfl | hrest
        · exact ⟨value, [], item, rest, rfl, hgives, hnone⟩
        · exact absurd hgives (hnone item hrest value)

/-- The context of names and values that come one after another. -/
def itemContext (named : List (Char × String)) : Context := .ofTexts (.ofList named)

section Lists

variable {items : List String} {named : List (Char × String)}

/-- If every item gives something, all that they give is read. -/
theorem mapM_readItem?_of_gives (h : GiveEach items named) :
    ∃ pairs, items.mapM readItem? = some pairs ∧
      (OrderedMap.ofList pairs : Context) = itemContext named := by
  refine ⟨named.map (Prod.map (fun c => .text (String.singleton c)) fun v => .scalar (.text v)),
    ?_, OrderedMap.ofList_map _ _ Context.text_singleton_beq named⟩
  induction h with
  | nil => rfl
  | cons hgives _ ih =>
      rw [List.mapM_cons, readItem?_eq_some_iff.mpr ⟨_, _, hgives, rfl⟩, ih]
      rfl

/-- An item that gives nothing spoils them all. -/
theorem mapM_readItem?_of_not_gives {item : String} (hmem : item ∈ items)
    (h : ∀ name value, ¬Gives item name value) : items.mapM readItem? = none := by
  induction items with
  | nil => exact absurd hmem List.not_mem_nil
  | cons first rest ih =>
      rw [List.mapM_cons]
      -- The pass fails at this item, or behind the ones before it.
      rcases List.mem_cons.mp hmem with rfl | hrest
      · rw [readItem?_eq_none_iff.mpr h]
        rfl
      · rw [ih hrest]
        cases readItem? first with
        | none | some entry => rfl

theorem exists_giveEach (h : ∀ item ∈ items, ∃ name value, Gives item name value) :
    ∃ named, GiveEach items named := by
  induction items with
  | nil => exact ⟨[], .nil⟩
  | cons item rest ih =>
      rcases List.forall_mem_cons.mp h with ⟨⟨name, value, hgives⟩, hrest⟩
      rcases ih hrest with ⟨named, hnamed⟩
      exact ⟨(name, value) :: named, .cons hgives hnamed⟩

/-- Under a name the map of all items holds what is given to the name last. -/
theorem lastGiven_iff_get? (h : GiveEach items named) {name : Char} {value : String} :
    LastGiven items name value ↔ (OrderedMap.ofList named).get? name = some value := by
  rw [OrderedMap.get?_ofList_eq_some_iff]
  constructor
  · rintro ⟨before, item, after, rfl, hgives, hafter⟩
    rcases forall₂_cons_split h.flip with ⟨before', entry, after', rfl, hentry, hlater⟩
    rcases gives_unique hgives hentry with ⟨rfl, rfl⟩
    refine ⟨before', after', rfl, fun hmem => ?_⟩
    -- An entry of the name would have been read in an item after the last one.
    rcases List.mem_map.mp hmem with ⟨entry', hentry', hname⟩
    rcases exists_mem_of_forall₂ hlater.flip hentry' with ⟨later, hmem', hgives'⟩
    exact hafter later hmem' entry'.2 (hname ▸ hgives')
  · rintro ⟨before, after, rfl, hafter⟩
    rcases forall₂_cons_split h with ⟨before', item, after', rfl, hgives, hlater⟩
    refine ⟨before', item, after', rfl, hgives, fun later hmem other hgives' => hafter ?_⟩
    rcases exists_mem_of_forall₂ hlater.flip hmem with ⟨entry, hentry, hgives''⟩
    rw [(gives_unique hgives' hgives'').1]
    exact List.mem_map_of_mem hentry

end Lists

end Cli

end BoolCalc
