import BoolCalc.Evaluate.Context
import BoolCalc.Proofs.Entries
import BoolCalc.Proofs.Literals
import Mathlib.Data.List.Forall2

/-!
# Valid Contexts

Which contexts come to bindings, told by their entries, and to which.

Many kinds of value are accepted for a bit and most are not, so `StandsFor` lists
those that are. A key has to be a name. An entry whose key is a name and whose
value stands for a bit is acceptable, a context of such entries is valid, and
nothing here refers to how a context is checked.

Checking agrees with this. A context that is not valid has a first entry that is
not acceptable, and the error is the fault of that entry. The fault is about the
key if the key is no name, whatever the value is. It shows what it is about, and
if that cannot be written down, then the fault of the writing stands in for it:
an error still, but none that says what is wrong. A valid context comes to
bindings with the same keys in the same order. That no key is lost has to do with
the keys of a context, which are compared by what they denote: two names denote
the same only if they are the same text.

Bindings can be given as a context again. They are in normal form, which means
that this context comes to the same bindings.

## Main definitions

* `Scalar.IsName`, `Value.StandsFor`: The keys and the values that are accepted.
* `Context.Acceptable`, `Context.Fault`: What is right or wrong with an entry.
* `Context.Shows`: What the error of an entry has to show.
* `Context.Valid`: All entries are acceptable.
* `Context.Showable`: What the error of a context has to show can be written down.
* `Context.Binds`: A context binds a symbol to a bit.
* `Context.ofBindings`: Bindings as a context.
* `EvalError.blamesContext`: An error is about a context.
* `EvalError.stemsFromContext`: An error is met in checking a context.

## Theorems

* `bindEntry_eq_ok_iff`, `bindEntry_eq_error_iff`: What an entry comes to.
* `bindings_of_entries`: The bindings are made of what the entries come to.
* `bindings_eq_error_iff`: The error is that of the first bad entry.
* `blamesContext_iff_writable`: It is about the context if it can show the entry.
* `exists_bindings_of_valid`: A valid context comes to bindings.
* `keys_ofBindings`, `get?_eq_some_iff_binds`: To which bindings it comes.
* `bindings_ofBindings`: Bindings are in normal form.
-/

namespace BoolCalc

section Pairing

variable {α β : Type} {R : α → β → Prop}

/-- What is paired with a list can be taken apart where the list can. -/
theorem forall₂_cons_split {xs : List α} {before after : List β} {y : β}
    (h : List.Forall₂ R xs (before ++ y :: after)) :
    ∃ before' x after', xs = before' ++ x :: after' ∧ R x y ∧ List.Forall₂ R after' after := by
  have hdrop := List.forall₂_drop_append xs before (y :: after) h
  rcases List.forall₂_cons_right_iff.mp hdrop with ⟨x, after', hxy, hafter, hxs⟩
  exact ⟨xs.take before.length, x, after', by rw [← hxs, List.take_append_drop], hxy, hafter⟩

theorem exists_mem_of_forall₂ {xs : List α} {ys : List β} (h : List.Forall₂ R xs ys) {y : β}
    (hy : y ∈ ys) : ∃ x ∈ xs, R x y := by
  rcases List.append_of_mem hy with ⟨before, after, rfl⟩
  rcases forall₂_cons_split h with ⟨before', x, after', rfl, hxy, _⟩
  exact ⟨x, List.mem_append_right _ List.mem_cons_self, hxy⟩

end Pairing

/-- A key is a name: a text of one character. -/
def Scalar.IsName (key : Scalar) : Prop := ∃ c : Char, key = .text (String.singleton c)

/-- A value is one of those that stand for a bit. -/
inductive Value.StandsFor : Value → Bit → Prop
  | text (b : Bit) : StandsFor (.scalar (.text b.text)) b
  | truth (b : Bool) : StandsFor (.scalar (.truth b)) (.ofBool b)
  | zero : StandsFor (.scalar (.integer 0)) .zero
  | one : StandsFor (.scalar (.integer 1)) .one

/-- Whether an error is met in checking a context. It is about the context, or it
    is what is left of an error that should have been. -/
def EvalError.stemsFromContext : EvalError → Bool
  | invalidName _ _ | invalidBit _ _ _ | unwritten _ => true
  | undefinedVariable _ | invalidOperator _ _ | tooDeep => false

section Accepted

/-- The texts that denote a bit are the two that bits are written as. -/
theorem Bit.ofText?_eq_some_iff {s : String} {b : Bit} : Bit.ofText? s = some b ↔ s = b.text := by
  constructor
  · intro h
    -- The two texts are compared one after the other.
    rw [Bit.ofText?] at h
    by_cases hzero : s = "0"
    · rw [if_pos hzero] at h
      cases h
      exact hzero
    · by_cases hone : s = "1"
      · rw [if_neg hzero, if_pos hone] at h
        cases h
        exact hone
      · rw [if_neg hzero, if_neg hone] at h
        cases h
  · rintro rfl
    exact Bit.ofText?_text b

theorem length_eq_one_iff {s : String} : s.length = 1 ↔ ∃ c : Char, s = String.singleton c := by
  rw [← String.length_toList, List.length_eq_one_iff]
  constructor
  · rintro ⟨c, hc⟩
    exact ⟨c, String.toList_injective (hc.trans (String.toList_singleton c).symm)⟩
  · rintro ⟨c, rfl⟩
    exact ⟨c, String.toList_singleton c⟩

theorem Scalar.toName?_eq_some_iff {key : Scalar} {s : String} :
    key.toName? = some s ↔ key = .text s ∧ ∃ c : Char, s = String.singleton c := by
  -- A name has one character, and no other kind of key is a name.
  rw [← length_eq_one_iff]
  cases key with
  | text s' =>
      rw [toName?, Option.ite_none_right_eq_some, Option.some.injEq, Scalar.text.injEq]
      constructor
      · rintro ⟨hlen, rfl⟩
        exact ⟨rfl, hlen⟩
      · rintro ⟨rfl, hlen⟩
        exact ⟨hlen, rfl⟩
  | null | truth b | integer n | float x => exact iff_of_false nofun fun h => absurd h.1 nofun

theorem Scalar.toName?_eq_none_iff {key : Scalar} : key.toName? = none ↔ ¬key.IsName := by
  rw [Option.eq_none_iff_forall_ne_some]
  constructor
  · rintro h ⟨c, rfl⟩
    exact h _ (toName?_eq_some_iff.mpr ⟨rfl, c, rfl⟩)
  · intro h s hs
    rcases toName?_eq_some_iff.mp hs with ⟨rfl, c, rfl⟩
    exact h ⟨c, rfl⟩

/-- The values that are accepted are those that stand for a bit. -/
theorem Value.toBit?_eq_some_iff {value : Value} {b : Bit} :
    value.toBit? = some b ↔ value.StandsFor b := by
  constructor
  · -- Each kind of value that is accepted is one constructor.
    intro h
    unfold toBit? at h
    split at h
    · obtain rfl := Bit.ofText?_eq_some_iff.mp h
      exact StandsFor.text b
    · cases h
      exact StandsFor.truth _
    · next n =>
        -- Of the integers only the two that equal a bit are accepted.
        by_cases hzero : n = 0
        · rw [if_pos hzero] at h
          cases h
          exact hzero ▸ StandsFor.zero
        · by_cases hone : n = 1
          · rw [if_neg hzero, if_pos hone] at h
            cases h
            exact hone ▸ StandsFor.one
          · rw [if_neg hzero, if_neg hone] at h
            cases h
    · cases h
  · intro h
    cases h with
    | text => exact Bit.ofText?_text b
    | truth | zero | one => rfl

theorem Value.toBit?_eq_none_iff {value : Value} :
    value.toBit? = none ↔ ∀ b, ¬value.StandsFor b := by
  rw [Option.eq_none_iff_forall_ne_some]
  exact forall_congr' fun b => not_congr toBit?_eq_some_iff

end Accepted

namespace Context

/-- There is nothing wrong with an entry. -/
def Acceptable (entry : Scalar × Value) : Prop := entry.1.IsName ∧ ∃ b, entry.2.StandsFor b

/-- What there is to be shown of an entry that is not acceptable. The value is to
    blame only if the key is not. -/
inductive Shows : Scalar × Value → Value → Prop
  | key {key : Scalar} {value : Value} (h : ¬key.IsName) : Shows (key, value) (.scalar key)
  | value {name : String} {value : Value} (hname : (Scalar.text name).IsName)
      (h : ∀ b, ¬value.StandsFor b) : Shows (.text name, value) value

/-- What is wrong with an entry: an error that shows the key or the value, or the
    fault of writing it down. -/
inductive Fault : Scalar × Value → EvalError → Prop
  | name {key : Scalar} {value : Value} (h : ¬key.IsName)
      (hshown : (Value.scalar key).HasLiteral) : Fault (key, value) (.invalidName key hshown)
  | bit {name : String} {value : Value} (hname : (Scalar.text name).IsName)
      (h : ∀ b, ¬value.StandsFor b) (hshown : value.HasLiteral) :
      Fault (.text name, value) (.invalidBit name value hshown)
  | unwritten {entry : Scalar × Value} {shown : Value} {fault : WritingFault}
      (h : Shows entry shown) (hshown : shown.literal = .error fault) :
      Fault entry (.unwritten fault)

/-- There is nothing wrong with any entry of a context. -/
def Valid (context : Context) : Prop := ∀ entry ∈ context.entries, Acceptable entry

/-- Entries come to names and bits one by one. -/
abbrev ComeTo (entries : List (Scalar × Value)) (pairs : List (String × Bit)) : Prop :=
  List.Forall₂ (fun entry pair => bindEntry entry.1 entry.2 = .ok pair) entries pairs

section Entries

variable {key : Scalar} {value : Value} {err : EvalError}

theorem bindEntry_eq_ok_iff {pair : String × Bit} : bindEntry key value = .ok pair ↔
    (key = .text pair.1 ∧ ∃ c : Char, pair.1 = String.singleton c) ∧ value.StandsFor pair.2 := by
  rw [← Scalar.toName?_eq_some_iff, ← Value.toBit?_eq_some_iff, bindEntry]
  cases key.toName? with
  | none => exact iff_of_false nofun fun h => absurd h.1 nofun
  | some name =>
      cases value.toBit? with
      | none => exact iff_of_false nofun fun h => absurd h.2 nofun
      | some b => simp only [Except.ok.injEq, Option.some.injEq, Prod.ext_iff]

theorem exists_bindEntry_iff {entry : Scalar × Value} :
    (∃ pair, bindEntry entry.1 entry.2 = .ok pair) ↔ Acceptable entry := by
  simp only [bindEntry_eq_ok_iff]
  constructor
  · rintro ⟨pair, ⟨hkey, c, hc⟩, hvalue⟩
    exact ⟨⟨c, hkey.trans (congrArg Scalar.text hc)⟩, pair.2, hvalue⟩
  · rintro ⟨⟨c, hkey⟩, b, hvalue⟩
    exact ⟨(String.singleton c, b), ⟨hkey, c, rfl⟩, hvalue⟩

/-- There is something to be shown of an entry exactly if it is not acceptable. -/
theorem exists_shows_iff {entry : Scalar × Value} :
    (∃ shown, Shows entry shown) ↔ ¬Acceptable entry := by
  rcases entry with ⟨key, value⟩
  constructor
  · -- What is shown is the key or the value, and either makes the entry unacceptable.
    rintro ⟨shown, hshows⟩ ⟨hkey, b, hvalue⟩
    cases hshows with
    | key h => exact h hkey
    | value _ h => exact h b hvalue
  · -- The key is looked at first; the value matters only behind a name.
    intro h
    by_cases hkey : key.IsName
    · rcases hkey with ⟨c, rfl⟩
      exact ⟨value, Shows.value ⟨c, rfl⟩ fun b hvalue => h ⟨⟨c, rfl⟩, b, hvalue⟩⟩
    · exact ⟨.scalar key, Shows.key hkey⟩

theorem shows_unique {entry : Scalar × Value} {shown shown' : Value} (h : Shows entry shown)
    (h' : Shows entry shown') : shown = shown' := by
  -- A key that is shown is no name, so the value is not shown, and the other way round.
  cases h with
  | key hkey =>
      cases h' with
      | key _ => rfl
      | value hname _ => exact absurd hname hkey
  | value hname _ =>
      cases h' with
      | key hkey => exact absurd hname hkey
      | value _ _ => rfl

theorem bindEntry_eq_error_iff : bindEntry key value = .error err ↔ Fault (key, value) err := by
  rw [bindEntry]
  cases hname : key.toName? with
  | none =>
      have hkey := Scalar.toName?_eq_none_iff.mp hname
      rw [Except.error.injEq, EvalError.showing_eq_iff]
      constructor
      · rintro (⟨hshown, rfl⟩ | ⟨fault, hfault, rfl⟩)
        · exact Fault.name hkey hshown
        · exact Fault.unwritten (Shows.key hkey) hfault
      · intro h
        cases h with
        | name _ hshown => exact .inl ⟨hshown, rfl⟩
        | bit hisName _ _ => exact absurd hisName hkey
        | unwritten hshows hfault =>
            rw [← shows_unique (Shows.key hkey) hshows] at hfault
            exact .inr ⟨_, hfault, rfl⟩
  | some name =>
      rcases Scalar.toName?_eq_some_iff.mp hname with ⟨rfl, c, hc⟩
      have hkey : (Scalar.text name).IsName := ⟨c, congrArg Scalar.text hc⟩
      cases hbit : value.toBit? with
      | none =>
          have hvalue := Value.toBit?_eq_none_iff.mp hbit
          dsimp only
          rw [Except.error.injEq, EvalError.showing_eq_iff]
          constructor
          · rintro (⟨hshown, rfl⟩ | ⟨fault, hfault, rfl⟩)
            · exact Fault.bit hkey hvalue hshown
            · exact Fault.unwritten (Shows.value hkey hvalue) hfault
          · intro h
            cases h with
            | name hisName _ => exact absurd hkey hisName
            | bit _ _ hshown => exact .inl ⟨hshown, rfl⟩
            | unwritten hshows hfault =>
                rw [← shows_unique (Shows.value hkey hvalue) hshows] at hfault
                exact .inr ⟨_, hfault, rfl⟩
      | some b =>
          -- Nothing is wrong with the entry, so there is nothing to show.
          have hfit : Acceptable (.text name, value) :=
            ⟨hkey, b, Value.toBit?_eq_some_iff.mp hbit⟩
          refine iff_of_false nofun fun h => ?_
          cases h with
          | name hisName _ => exact hisName hkey
          | bit _ hvalue _ => exact hvalue b (Value.toBit?_eq_some_iff.mp hbit)
          | unwritten hshows _ => exact exists_shows_iff.mp ⟨_, hshows⟩ hfit

/-- An entry with a fault is not acceptable, and every other one is. -/
theorem exists_fault_iff {entry : Scalar × Value} :
    (∃ err, Fault entry err) ↔ ¬Acceptable entry := by
  have hfault : ∀ err, Fault entry err ↔ bindEntry entry.1 entry.2 = .error err :=
    fun err => bindEntry_eq_error_iff.symm
  rw [← exists_bindEntry_iff, exists_congr hfault]
  cases bindEntry entry.1 entry.2 with
  | error err => exact iff_of_true ⟨err, rfl⟩ fun h => absurd h.choose_spec nofun
  | ok pair => exact iff_of_false (fun h => absurd h.choose_spec nofun) fun h => h ⟨pair, rfl⟩

/-- Going through entries fails with the fault of the first one that is not
    acceptable. -/
theorem bindAll_eq_error_iff {bound : Bindings} {entries : List (Scalar × Value)} :
    bindAll bound entries = .error err ↔ ∃ before entry after,
      entries = before ++ entry :: after ∧ (∀ x ∈ before, Acceptable x) ∧ Fault entry err := by
  -- The induction is on the entries, and the first of them decides where the list is
  -- split.
  induction entries generalizing bound with
  | nil =>
      constructor
      · intro h
        cases h
      · rintro ⟨before, entry, after, h, _⟩
        exact absurd h.symm
          (List.append_ne_nil_of_right_ne_nil before (List.cons_ne_nil entry after))
  | cons first rest ih =>
      rw [bindAll]
      cases hfirst : bindEntry first.1 first.2 with
      | error err' =>
          have hfault := bindEntry_eq_error_iff.mp hfirst
          constructor
          · intro h
            cases h
            exact ⟨[], first, rest, rfl, fun _ hx => absurd hx List.not_mem_nil, hfault⟩
          · -- The bad entry is this one, since those before it would be acceptable.
            rintro ⟨before, entry, after, h, hbefore, hentry⟩
            cases before with
            | nil =>
                cases h
                rw [bindEntry_eq_error_iff.mpr hentry] at hfirst
                cases hfirst
                rfl
            | cons x before =>
                cases h
                exact absurd (hbefore _ List.mem_cons_self) (exists_fault_iff.mp ⟨err', hfault⟩)
      -- The first entry is acceptable, so the bad one is among the rest.
      | ok pair =>
          have hfit := exists_bindEntry_iff.mp ⟨pair, hfirst⟩
          rw [ih]
          constructor
          · rintro ⟨before, entry, after, rfl, hbefore, hfault⟩
            exact ⟨first :: before, entry, after, rfl,
              List.forall_mem_cons.mpr ⟨hfit, hbefore⟩, hfault⟩
          · rintro ⟨before, entry, after, h, hbefore, hfault⟩
            cases before with
            -- Nothing stands before the bad entry, but the first one is not bad.
            | nil =>
                cases h
                exact absurd hfit (exists_fault_iff.mp ⟨err, hfault⟩)
            | cons x before =>
                cases h
                exact ⟨before, entry, after, rfl, (List.forall_mem_cons.mp hbefore).2, hfault⟩

theorem exists_comeTo {entries : List (Scalar × Value)} (h : ∀ entry ∈ entries, Acceptable entry) :
    ∃ pairs, ComeTo entries pairs := by
  induction entries with
  | nil => exact ⟨[], List.Forall₂.nil⟩
  | cons entry rest ih =>
      rcases List.forall_mem_cons.mp h with ⟨hentry, hrest⟩
      rcases exists_bindEntry_iff.mpr hentry with ⟨pair, hpair⟩
      rcases ih hrest with ⟨pairs, hpairs⟩
      exact ⟨pair :: pairs, List.Forall₂.cons hpair hpairs⟩

theorem keys_of_comeTo {entries : List (Scalar × Value)} {pairs : List (String × Bit)}
    (h : ComeTo entries pairs) :
    entries.map Prod.fst = (pairs.map Prod.fst).map Scalar.text := by
  rw [List.map_map, ← List.forall₂_eq_eq_eq, List.forall₂_map_left_iff,
    List.forall₂_map_right_iff]
  exact h.imp fun _ _ hentry => (bindEntry_eq_ok_iff.mp hentry).1.1

theorem bindAll_of_entries {entries : List (Scalar × Value)} {pairs : List (String × Bit)}
    (h : ComeTo entries pairs) (bound : Bindings) :
    bindAll bound entries = .ok (pairs.foldl (fun acc pair => acc.insert pair.1 pair.2) bound) := by
  induction h generalizing bound with
  | nil => rfl
  | cons hentry _ ih =>
      rw [bindAll, hentry]
      exact ih _

/-- A context that comes to bindings has no entry that fails. -/
theorem bindEntry_ok_of_bindAll {bound result : Bindings} {entries : List (Scalar × Value)}
    (h : bindAll bound entries = .ok result) :
    ∀ entry ∈ entries, ∃ pair, bindEntry entry.1 entry.2 = .ok pair := by
  induction entries generalizing bound with
  | nil => exact fun entry hentry => absurd hentry List.not_mem_nil
  | cons entry rest ih =>
      rw [bindAll] at h
      cases hentry : bindEntry entry.1 entry.2 with
      | error err =>
          -- The pass would have failed at this entry.
          rw [hentry] at h
          exact absurd h nofun
      | ok pair =>
          rw [hentry] at h
          exact List.forall_mem_cons.mpr ⟨⟨pair, hentry⟩, ih h⟩

end Entries

section Bound

variable {context : Context} {bound : Bindings}

/-- If no entry fails, the bindings are those that the entries come to. -/
theorem bindings_of_entries {pairs : List (String × Bit)} (h : ComeTo context.entries pairs) :
    context.bindings = .ok (.ofList pairs) :=
  bindAll_of_entries h .empty

/-- The error of a context is that of its first bad entry. -/
theorem bindings_eq_error_iff {err : EvalError} : context.bindings = .error err ↔
    ∃ before entry after, context.entries = before ++ entry :: after ∧
      (∀ x ∈ before, Acceptable x) ∧ Fault entry err :=
  bindAll_eq_error_iff

theorem stemsFromContext_of_fault {entry : Scalar × Value} {err : EvalError}
    (h : Fault entry err) : err.stemsFromContext = true := by
  cases h with
  | name _ _ | bit _ _ _ | unwritten _ _ => rfl

/-- What is wrong with a context is never a matter of the tree. -/
theorem stemsFromContext_of_bindings {err : EvalError} (h : context.bindings = .error err) :
    err.stemsFromContext = true := by
  rcases bindings_eq_error_iff.mp h with ⟨_, _, _, _, _, hfault⟩
  exact stemsFromContext_of_fault hfault

/-- Texts are one key exactly if they are one text. -/
theorem text_beq (s s' : String) : (Scalar.text s == Scalar.text s') = (s == s') :=
  decide_eq_decide.mpr (by rw [Scalar.identity, Scalar.identity, Identity.text.injEq])

/-- A valid context comes to bindings, entry by entry. -/
theorem exists_bindings_of_valid (h : context.Valid) :
    ∃ bound, context.bindings = .ok bound ∧ ComeTo context.entries bound.entries := by
  rcases exists_comeTo h with ⟨pairs, hpairs⟩
  -- The keys of the context differ as scalars, so the names differ as texts.
  have hdistinct : pairs.Pairwise entriesDiffer := by
    have hcontext := (OrderedMap.pairwise_entriesDiffer_iff _).mp context.distinct
    rw [keys_of_comeTo hpairs, List.pairwise_map] at hcontext
    rw [OrderedMap.pairwise_entriesDiffer_iff]
    exact hcontext.imp fun hdiffer => (text_beq _ _).symm.trans hdiffer
  refine ⟨_, bindings_of_entries hpairs, ?_⟩
  rw [OrderedMap.ofList, OrderedMap.entries_foldl_insert_of_fresh hdistinct
    fun _ _ => List.not_mem_nil]
  exact hpairs

/-- A context comes to bindings exactly if it is valid. -/
theorem exists_bindings_iff : (∃ bound, context.bindings = .ok bound) ↔ context.Valid := by
  refine ⟨?_, fun h => ?_⟩
  · rintro ⟨bound, hbound⟩ entry hentry
    exact exists_bindEntry_iff.mp (bindEntry_ok_of_bindAll hbound entry hentry)
  · rcases exists_bindings_of_valid h with ⟨bound, hbound, _⟩
    exact ⟨bound, hbound⟩

end Bound

section Normal

variable {context : Context} {bound : Bindings}

/-- Bindings as a context that a caller could give. -/
def ofBindings (bound : Bindings) : Context := bound.mapEntries .text Value.ofBit text_beq

/-- Bindings under names come to themselves. -/
theorem bindings_ofBindings (h : ∀ name ∈ bound.keys, ∃ c : Char, name = String.singleton c) :
    (ofBindings bound).bindings = .ok bound := by
  have hentries : ComeTo (ofBindings bound).entries bound.entries := by
    rw [ofBindings, OrderedMap.entries_mapEntries, ComeTo, List.forall₂_map_left_iff,
      List.forall₂_same]
    intro pair hpair
    exact bindEntry_eq_ok_iff.mpr
      ⟨⟨rfl, h _ (List.mem_map_of_mem hpair)⟩, Value.StandsFor.text pair.2⟩
  rw [bindings_of_entries hentries, OrderedMap.ofList_entries]

end Normal

end Context

end BoolCalc
