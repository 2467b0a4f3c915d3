import BoolCalc.Proofs.Rules

/-!
# What the Stack Spells

Every tree the parsing machine accepts is the tree of a sentence, and the
sentence is what the machine has read.

The machine keeps trees and forgets the characters they came from. `Spells`
puts the characters back: it relates a stack to the list of characters that
was read to get there. An operator on the stack contributes a sentence of the
level of its left side and its own character, and it may lie only on a stack
that awaits an operand loose enough to be that whole expression. This second
condition is the invariant that the precedences are about. It is what an
operator is weighed for before it is put on the stack, and it is what makes
the operand still fit when the operator is finished later.

An operand that has just been read is always a factor. It is while constructs
are finished around it that it becomes a sentence of looser levels, so
`spells_of_settles` carries the level along and keeps it tight enough both for
the stack that is left and for the floor that is being settled to.

## Main definitions

* `Spells`: The characters a stack was read from.
* `StageSpells`: The characters a stage was read from.

## Theorems

* `spells_of_settles`: Finishing constructs keeps what has been read.
* `stageSpells_of_advances`: Going on adds one character.
* `stageSpells_of_walk`: A walk adds its characters.
* `derives_of_stops`: What is accepted is the tree of what has been read.
* `exists_sentence_of_consume`: An accepted tree has its sentence in front of
  the source.
-/

namespace BoolCalc

/-- A stack was read from these characters. -/
inductive Spells (goal : Goal) : List Pending → List Char → Prop
  | nil : Spells goal [] []
  | negation {p : List Pending} {w : List Char} (h : Spells goal p w) :
      Spells goal (.negation :: p) (w ++ ['!'])
  | group {p : List Pending} {w : List Char} (h : Spells goal p w) :
      Spells goal (.group :: p) (w ++ ['('])
  | operator {p : List Pending} {w v : List Char} {left : Expr} {op : BinaryOp}
      (h : Spells goal p w) (ha : (awaited goal p).floor ≤ op.precedence)
      (hd : Derives op.leftLevel v left) :
      Spells goal (.operator left op :: p) (w ++ v ++ [op.char])

/-- A stage was read from these characters. An operand that has just been read
    is a factor. -/
inductive StageSpells (goal : Goal) : Stage → List Char → Prop
  | want {p : List Pending} {w : List Char} (h : Spells goal p w) : StageSpells goal (.want p) w
  | operand {σ : Stage} {e : Expr} {p : List Pending} {w v : List Char}
      (ho : σ.operand? = some (e, p)) (h : Spells goal p w) (hd : Derives .factor v e) :
      StageSpells goal σ (w ++ v)

variable {goal : Goal}

/-- Finishing constructs around an operand only moves the border between the
    characters of the stack and those of the operand. The level of the operand
    may get looser, but no looser than the stack awaits and the floor allows. -/
theorem spells_of_settles {floor : Int} {e e' : Expr} {p p' : List Pending}
    (hs : Settles floor e p e' p') {lvl : Level} {w v : List Char} (hp : Spells goal p w)
    (hd : Derives lvl v e) (hawaited : (awaited goal p).floor ≤ lvl.floor)
    (hfloor : floor ≤ lvl.floor) :
    ∃ lvl' w' v', w ++ v = w' ++ v' ∧ Spells goal p' w' ∧ Derives lvl' v' e' ∧
      (awaited goal p').floor ≤ lvl'.floor ∧ floor ≤ lvl'.floor := by
  induction hs generalizing lvl w v with
  | refl e p => exact ⟨lvl, w, v, rfl, hp, hd, hawaited, hfloor⟩
  | negation _ ih =>
      cases hp with
      | @negation p w hp =>
          -- Behind a negation only a factor is awaited, and it stays one.
          have hfactor : Derives .factor v _ := derives_lift hawaited hd
          have hle : floor ≤ Level.factor.floor :=
            Int.le_trans hfloor (floor_le_factor_floor lvl)
          rcases ih hp (Derives.negation hfactor) (floor_le_factor_floor _) hle with
            ⟨lvl', w', v', heq, hrest⟩
          refine ⟨lvl', w', v', ?_, hrest⟩
          rw [← heq, List.append_assoc]
          rfl
  | @operator _ _ _ _ _ op hop _ ih =>
      cases hp with
      | @operator p w u _ _ hp ha hl =>
          have hright : Derives op.rightLevel v _ := derives_lift hawaited hd
          have hwhole := derives_connect op hl hright
          rw [← BinaryOp.leftLevel_floor op] at ha hop
          rcases ih hp hwhole ha hop with ⟨lvl', w', v', heq, hrest⟩
          refine ⟨lvl', w', v', ?_, hrest⟩
          rw [← heq]
          simp only [List.append_assoc, List.singleton_append]

/-- The same for an operand that a stage has. A factor is tight enough for
    everything. -/
theorem spells_of_operand {σ : Stage} {w : List Char} (h : StageSpells goal σ w)
    {e e' : Expr} {p p' : List Pending} (ho : σ.operand? = some (e, p)) {lvl : Level}
    (hs : Settles lvl.floor e p e' p') :
    ∃ lvl' w' v', w = w' ++ v' ∧ Spells goal p' w' ∧ Derives lvl' v' e' ∧
      (awaited goal p').floor ≤ lvl'.floor ∧ lvl.floor ≤ lvl'.floor := by
  cases h with
  | want hp => exact absurd ho nofun
  | operand ho' hp hd =>
      rw [ho'] at ho
      simp only [Option.some.injEq, Prod.mk.injEq] at ho
      rcases ho with ⟨rfl, rfl⟩
      exact spells_of_settles hs hp hd (floor_le_factor_floor _) (floor_le_factor_floor _)

/-- Going on after a symbol adds the character that it was read from. -/
theorem stageSpells_of_advances {limit : Nat} {σ τ : Stage} {c : Char} {s : Symbol}
    {w : List Char} (h : StageSpells goal σ w) (hc : Symbol.classify c = .ok s)
    (hs : Advances limit goal σ s τ) : StageSpells goal τ (w ++ [c]) := by
  have hchar := Symbol.char_of_classify hc
  -- Where an operand is wanted the character opens something or is an operand,
  -- so nothing that was read before changes its meaning.
  cases hs with
  | negation _ =>
      cases h with
      | operand ho _ _ => exact absurd ho nofun
      | want hp =>
          rw [← hchar]
          exact StageSpells.want (Spells.negation hp)
  | group _ =>
      cases h with
      | operand ho _ _ => exact absurd ho nofun
      | want hp =>
          rw [← hchar]
          exact StageSpells.want (Spells.group hp)
  | leaf hleaf =>
      cases h with
      | operand ho _ _ => exact absurd ho nofun
      | want hp =>
          have hoperand := (Symbol.classify_eq_leaf_iff c).mp ⟨s, hc, hleaf⟩
          rw [hchar]
          exact StageSpells.operand rfl hp (Derives.leaf hoperand)
  | @operator _ e e' p p' op ho hsettles ha =>
      -- What was finished for the operator is tight enough to be its left side.
      rw [← BinaryOp.leftLevel_floor] at hsettles
      rcases spells_of_operand h ho hsettles with ⟨lvl, w', v', rfl, hp, hd, _, hfloor⟩
      rw [← hchar]
      exact StageSpells.want (Spells.operator hp ha (derives_lift hfloor hd))
  | @close _ e e' p outer ho hsettles =>
      rcases spells_of_operand h ho hsettles with ⟨lvl, w', v', rfl, hp, hd, _, hfloor⟩
      cases hp with
      | @group _ w hp =>
          -- The parentheses and the sum between them are a factor again.
          have hgroup := Derives.group (derives_lift hfloor hd)
          rw [← hchar]
          have heq : w ++ ['('] ++ v' ++ [Symbol.closeParen.char] = w ++ ('(' :: v' ++ [')']) := by
            simp only [List.append_assoc, List.cons_append, List.nil_append, Symbol.char]
          rw [heq]
          exact StageSpells.operand rfl hp hgroup

theorem stageSpells_of_walk {limit : Nat} {σ τ : Stage} {v : List Char}
    (hw : Walk limit goal σ v τ) {w : List Char} (h : StageSpells goal σ w) :
    StageSpells goal τ (w ++ v) := by
  induction hw generalizing w with
  | stay σ =>
      rw [List.append_nil]
      exact h
  | step hc hs _ ih =>
      have hnext := ih (stageSpells_of_advances h hc (advances_of_advance hs))
      rwa [List.append_assoc, List.singleton_append] at hnext

theorem finish_eq_ok {next : Option Symbol} {e e' : Expr} (h : goal.finish next e' = .ok e) :
    e' = e ∧ goal.finish next e = .ok e := by
  have heq : e' = e := by
    unfold Goal.finish at h
    split at h
    · exact absurd h nofun
    · exact Except.ok.inj h
  exact ⟨heq, heq ▸ h⟩

/-- A tree that is accepted is the tree of what has been read. -/
theorem derives_of_stops {limit : Nat} {σ : Stage} {next : Option Symbol} {e : Expr}
    {w : List Char} (h : StageSpells goal σ w) {outcome : Except Cause Expr}
    (hs : Stops limit goal σ next outcome) (hok : outcome = .ok e) :
    Derives goal.level w e ∧ goal.finish next e = .ok e := by
  -- With nothing left open the whole of `w` belongs to the operand.
  have hall : ∀ {lvl : Level} {e e' : Expr} {p : List Pending}, σ.operand? = some (e, p) →
      Settles lvl.floor e p e' [] → Derives goal.level w e' := by
    intro lvl e e' p ho hsettles
    rcases spells_of_operand h ho hsettles with ⟨lvl', w', v', rfl, hp, hd, hawaited, _⟩
    cases hp with
    | nil => exact derives_lift hawaited hd
  cases hs with
  | noTerm _ | tooDeep _ _ | missingClose _ _ _ _ => exact absurd hok nofun
  | operator ho hsettles _ =>
      rw [← BinaryOp.leftLevel_floor] at hsettles
      rcases finish_eq_ok hok with ⟨rfl, hfinish⟩
      exact ⟨hall ho hsettles, hfinish⟩
  | finished ho hsettles _ =>
      rcases finish_eq_ok hok with ⟨rfl, hfinish⟩
      exact ⟨hall ho hsettles, hfinish⟩

/-- A run that accepts a tree has read a sentence of that tree and stopped
    before a symbol that the goal lets follow. -/
theorem exists_sentence_of_consume {limit : Nat} {current : Option Token} {cs : List Char}
    {index : Nat} {e : Expr}
    (h : (consume limit goal current (.want []) cs index).outcome = .ok e) :
    ∃ v rest next, cs = v ++ rest ∧ Derives goal.level v e ∧ ahead rest = .ok next ∧
      goal.finish next e = .ok e := by
  rcases exists_walk limit goal (.want []) cs with ⟨v, rest, τ, outcome, rfl, hw, ho⟩
  rw [(consume_of_walk hw ho current index).1] at h
  have hspells := stageSpells_of_walk hw (StageSpells.want Spells.nil)
  rcases stops_of_verdict ho with ⟨c, rest', fault, _, _, hbad⟩ | ⟨next, hnext, hs⟩
  · rw [hbad] at h
    exact absurd h nofun
  · rcases derives_of_stops hspells hs h with ⟨hd, hfinish⟩
    exact ⟨v, rest, next, rfl, hd, hnext, hfinish⟩

/-- A run that accepts a whole source has read all of it. -/
theorem derives_of_consume {limit : Nat} {bound : Int} {current : Option Token} {cs : List Char}
    {index : Nat} {e : Expr}
    (h : (consume limit (.expression bound true) current (.want []) cs index).outcome = .ok e) :
    Derives (Goal.expression bound true).level cs e := by
  rcases exists_sentence_of_consume h with ⟨v, rest, next, rfl, hd, hnext, hfinish⟩
  cases next with
  | some s => cases hfinish
  | none =>
      cases rest with
      | nil =>
          rw [List.append_nil]
          exact hd
      | cons c rest =>
          -- With a character left there is a symbol ahead, or a fault.
          rw [ahead] at hnext
          cases hc : Symbol.classify c with
          | error fault | ok s =>
              rw [hc] at hnext
              cases hnext

end BoolCalc
