import BoolCalc.Toml.Document
import Mathlib

/-!
# Documents That Are Not Read

When the reader of documents breaks off at a number, and what this says about the text.

A document that is not well formed is one thing. A decimal integer of too many digits is
another: the document that holds it is as TOML wants it, and still it is not read. Such an
integer has to stand in the text, so a text with few digits is free of the trouble. To see
this one has to know of every reader that it makes no digits: what it leaves to the next
one has no more of them than what it was given. This is what `Leaves` says of a reader
that finds something or nothing, and `Within` of one that can break off. Both speak of a
bound, not of the text, so that they can be passed along a chain of readers.

The values contain each other, and their readers are treated together, by an induction on
the fuel they share.

## Main definitions

* `digitCount`: How many decimal digits a text has.
* `Leaves`, `Within`, `Faults`: Bounds on what a reader leaves and on where it breaks off.
* `longNumber`: A document whose only value is a long integer.

## Theorems

* `within_values`: The readers of values keep the bounds.
* `digits_of_parseDocument`: A number for which a document is not read stands in it.
* `parseDocument_longNumber`: Such documents exist, for every length that is too much.
-/

namespace BoolCalc

namespace Toml

/-- How many decimal digits a text has. -/
def digitCount (cs : List Char) : Nat := cs.countP isDigit

theorem digitCount_nil : digitCount [] = 0 := rfl

theorem digitCount_cons (c : Char) (cs : List Char) :
    digitCount (c :: cs) = digitCount cs + (isDigit c).toNat := by
  cases hc : isDigit c with
  | true => exact List.countP_cons_of_pos hc
  | false => exact List.countP_cons_of_neg (by rw [hc]; exact Bool.false_ne_true)

/-- What is behind the first character has no more digits. -/
theorem digitCount_behind {c : Char} {cs rest : List Char} {n : Nat} (heq : cs = c :: rest)
    (h : digitCount cs ≤ n) : digitCount rest ≤ n := by
  rw [heq, digitCount_cons] at h
  omega

theorem digitCount_tail_le (c : Char) (cs : List Char) : digitCount cs ≤ digitCount (c :: cs) :=
  digitCount_behind rfl (Nat.le_refl _)

theorem digitCount_dropWhile_le (p : Char → Bool) (cs : List Char) :
    digitCount (cs.dropWhile p) ≤ digitCount cs :=
  (List.dropWhile_sublist p).countP_le

/-- What is left after reading has at most so many digits. -/
def Leaves {α : Type} (n : Nat) (o : Option (α × List Char)) : Prop :=
  ∀ r, o = some r → digitCount r.2 ≤ n

section Leaves

variable {α β : Type} {n m : Nat} {o : Option (α × List Char)}

theorem Leaves.mono (h : Leaves n o) (hle : n ≤ m) : Leaves m o := by
  intro r hr
  exact Nat.le_trans (h r hr) hle

theorem leaves_none : Leaves n (none : Option (α × List Char)) := nofun

theorem leaves_some {r : α × List Char} (h : digitCount r.2 ≤ n) : Leaves n (some r) := by
  intro r' hr'
  rw [← Option.some.inj hr']
  exact h

theorem Leaves.map (h : Leaves n o) {f : α × List Char → β × List Char}
    (hf : ∀ r, digitCount (f r).2 ≤ digitCount r.2) : Leaves n (o.map f) := by
  intro r hr
  rcases Option.map_eq_some_iff.mp hr with ⟨r', hr', rfl⟩
  exact Nat.le_trans (hf r') (h r' hr')

theorem Leaves.map_fst (h : Leaves n o) (f : α → β) : Leaves n (o.map fun r => (f r.1, r.2)) :=
  h.map fun _ => Nat.le_refl _

theorem Leaves.bind (h : Leaves n o) {f : α × List Char → Option (β × List Char)}
    (hf : ∀ v rest, digitCount rest ≤ n → Leaves n (f (v, rest))) : Leaves n (o >>= f) := by
  intro r hr
  rcases Option.bind_eq_some_iff.mp hr with ⟨⟨v, rest⟩, hv, hr⟩
  exact hf v rest (h _ hv) r hr

theorem Leaves.cons {cs : List Char} (h : Leaves (digitCount cs) o) (c : Char) :
    Leaves (digitCount (c :: cs)) o :=
  h.mono (digitCount_tail_le c cs)

end Leaves

/-! ## Texts and keys -/

theorem digitCount_skipSpace_le (cs : List Char) : digitCount (skipSpace cs) ≤ digitCount cs :=
  digitCount_dropWhile_le isSpace cs

/-- A text takes characters and gives none back. Every branch goes on behind at least one
    character, so the induction follows the reader. -/
theorem leaves_readBasic (multiline skipping : Bool) (done cs : List Char) :
    Leaves (digitCount cs) (readBasic multiline skipping done cs) := by
  intro r h
  fun_induction readBasic multiline skipping done cs
  all_goals
    simp only [digitCount_nil, digitCount_cons]
    grind

theorem leaves_readLiteral (multiline : Bool) (done cs : List Char) :
    Leaves (digitCount cs) (readLiteral multiline done cs) := by
  intro r h
  fun_induction readLiteral multiline done cs
  all_goals
    simp only [digitCount_nil, digitCount_cons]
    grind

theorem digitCount_dropBreak_le (cs : List Char) : digitCount (dropBreak cs) ≤ digitCount cs := by
  unfold dropBreak
  split
  · exact digitCount_tail_le '\n' _
  · exact Nat.le_refl _

theorem digitCount_withClosingQuotes_le (quote : Char) (body cs : List Char) :
    digitCount (withClosingQuotes quote body cs).2 ≤ digitCount cs := by
  unfold withClosingQuotes
  split
  · split_ifs <;> simp only [digitCount_cons] <;> omega
  · split_ifs <;> simp only [digitCount_nil, digitCount_cons] <;> omega
  · exact Nat.le_refl _

theorem leaves_readLineText (cs : List Char) : Leaves (digitCount cs) (readLineText? cs) := by
  unfold readLineText?
  split
  · exact ((leaves_readBasic false false [] _).map_fst String.ofList).cons '"'
  · exact ((leaves_readLiteral false [] _).map_fst String.ofList).cons '\''
  · exact leaves_none

theorem leaves_readText (cs : List Char) : Leaves (digitCount cs) (readText? cs) := by
  unfold readText?
  split
  · -- Three double quotes: a break right behind them is dropped first.
    rename_i rest
    have htext := (leaves_readBasic true false [] (dropBreak rest)).map fun r =>
      digitCount_withClosingQuotes_le '"' r.1 r.2
    exact (((htext.mono (digitCount_dropBreak_le rest)).cons '"').cons '"').cons '"'
  · -- Three single quotes, where nothing is escaped.
    rename_i rest
    have htext := (leaves_readLiteral true [] (dropBreak rest)).map fun r =>
      digitCount_withClosingQuotes_le '\'' r.1 r.2
    exact (((htext.mono (digitCount_dropBreak_le rest)).cons '\'').cons '\'').cons '\''
  · exact leaves_readLineText cs

theorem leaves_readKeyPart (cs : List Char) : Leaves (digitCount cs) (readKeyPart cs) := by
  unfold readKeyPart
  split
  · exact leaves_readLineText cs
  · exact leaves_some (digitCount_dropWhile_le isBareKeyChar cs)

theorem leaves_readKeyParts (fuel : Nat) (cs : List Char) :
    Leaves (digitCount cs) (readKeyParts fuel cs) := by
  induction fuel generalizing cs with
  | zero => exact leaves_none
  | succ fuel ih =>
      rw [readKeyParts]
      refine (leaves_readKeyPart cs).bind fun part rest hrest => ?_
      have hskip := Nat.le_trans (digitCount_skipSpace_le rest) hrest
      dsimp only
      split
      · -- A dot: another part of the key follows, behind spaces.
        rename_i rest' heq
        have hnext := Nat.le_trans (digitCount_skipSpace_le rest') (digitCount_behind heq hskip)
        exact ((ih (skipSpace rest')).mono hnext).bind fun parts rest hrest => leaves_some hrest
      · exact leaves_some hskip

theorem leaves_readKey (cs : List Char) : Leaves (digitCount cs) (readKey cs) :=
  leaves_readKeyParts (cs.length + 1) cs

/-! ## Numbers and moments -/

/-- What is read and what is left are parts of what was there; the underscores between digits
    are in neither. -/
theorem digitCount_moreDigits_le (p : Char → Bool) (cs : List Char) :
    digitCount (moreDigits p cs).1 + digitCount (moreDigits p cs).2 ≤ digitCount cs := by
  fun_induction moreDigits p cs
  all_goals
    simp only [digitCount_nil, digitCount_cons, Nat.zero_add, Nat.le_refl]
    try grind

theorem of_mem_moreDigits {p : Char → Bool} {cs : List Char} :
    ∀ c ∈ (moreDigits p cs).1, p c = true := by
  fun_induction moreDigits p cs
  all_goals grind

/-- Decimal digits that are read are no longer there. -/
theorem length_moreDigits_le (cs : List Char) :
    (moreDigits isDigit cs).1.length + digitCount (moreDigits isDigit cs).2 ≤ digitCount cs := by
  have hall : digitCount (moreDigits isDigit cs).1 = (moreDigits isDigit cs).1.length :=
    List.countP_eq_length.mpr of_mem_moreDigits
  rw [← hall]
  exact digitCount_moreDigits_le isDigit cs

theorem leaves_someDigits (p : Char → Bool) (cs : List Char) :
    Leaves (digitCount cs) (someDigits? p cs) := by
  unfold someDigits?
  split
  · exact leaves_none
  · rename_i c rest
    have hle := digitCount_moreDigits_le p (c :: rest)
    split_ifs
    · exact leaves_some (by omega)
    · exact leaves_none

theorem leaves_readBased (cs : List Char) : Leaves (digitCount cs) (readBased? cs) := by
  -- The three bases differ in the digits that they have and in the letter only.
  have hbased : ∀ (base : Nat) (p : Char → Bool) (mark : Char) (rest : List Char),
      Leaves (digitCount ('0' :: mark :: rest)) ((someDigits? p rest).map fun r =>
        (Value.integer (ofDigits base r.1), r.2)) := by
    intro base p mark rest
    exact (((leaves_someDigits p rest).map_fst fun digits =>
      Value.integer (ofDigits base digits)).cons mark).cons '0'
  unfold readBased?
  split
  · exact hbased 16 _ 'x' _
  · exact hbased 8 _ 'o' _
  · exact hbased 2 _ 'b' _
  · exact leaves_none

theorem digitCount_readSign_le (cs : List Char) : digitCount (readSign cs).2 ≤ digitCount cs := by
  unfold readSign
  split
  · exact digitCount_tail_le '-' _
  · exact digitCount_tail_le '+' _
  · exact Nat.le_refl _

/-- The digits of a whole number are no longer there either. -/
theorem length_readWhole_le {cs whole rest : List Char} (h : readWhole? cs = some (whole, rest)) :
    whole.length + digitCount rest ≤ digitCount cs := by
  unfold readWhole? at h
  split at h
  · -- A zero stands alone, whatever digits follow it.
    rename_i rest'
    rw [Option.some.injEq, Prod.mk.injEq] at h
    rcases h with ⟨rfl, rfl⟩
    rw [digitCount_cons, List.length_singleton, Nat.add_comm]
    exact Nat.le_refl _
  · unfold someDigits? at h
    split at h
    · exact absurd h nofun
    · rename_i c rest' _
      split_ifs at h
      have hle := length_moreDigits_le (c :: rest')
      rw [Option.some.inj h] at hle
      exact hle

theorem leaves_readFraction (cs : List Char) : Leaves (digitCount cs) (readFraction? cs) := by
  unfold readFraction?
  split
  · exact (leaves_someDigits isDigit _).cons '.'
  · exact leaves_none

theorem leaves_readExponent (cs : List Char) : Leaves (digitCount cs) (readExponent? cs) := by
  unfold readExponent?
  split
  · rename_i c rest
    have hsign := digitCount_readSign_le rest
    -- The sign is dropped before the digits, and takes no digit with it.
    rcases hs : readSign rest with ⟨negative, rest'⟩
    rw [hs] at hsign
    split_ifs
    · have hdigits := leaves_someDigits isDigit rest'
      exact ((hdigits.map fun _ => by exact Nat.le_refl _).mono hsign).cons c
    · exact leaves_none
  · exact leaves_none

/-- Where a part is missing, nothing is taken. -/
theorem Leaves.getD {α : Type} {n : Nat} {o : Option (α × List Char)} {rest : List Char}
    (h : Leaves n o) (hrest : digitCount rest ≤ n) :
    digitCount ((o.map Prod.snd).getD rest) ≤ n := by
  cases o with
  | none => exact hrest
  | some r => exact h r rfl

/-- Reading leaves at most so many digits, or it breaks off at a decimal integer that is too
    long and has no more digits than these. -/
def Within {α : Type} (n : Nat) : Reading (α × List Char) → Prop
  | .ok r => digitCount r.2 ≤ n
  | .error .malformed => True
  | .error (.numberTooLong digits) => greatestDigits < digits ∧ digits ≤ n

section Within

variable {α β : Type} {n m : Nat} {r : Reading (α × List Char)}

theorem Within.mono (h : Within n r) (hle : n ≤ m) : Within m r := by
  unfold Within at h ⊢
  split at h
  · exact Nat.le_trans h hle
  · trivial
  · exact ⟨h.1, Nat.le_trans h.2 hle⟩

theorem within_ok {v : α} {rest : List Char} (h : digitCount rest ≤ n) :
    Within n (.ok (v, rest)) := h

theorem within_malformed : Within n (.error .malformed : Reading (α × List Char)) := trivial

theorem within_wellFormed {o : Option (α × List Char)} (h : Leaves n o) :
    Within n (wellFormed o) := by
  cases o with
  | none => trivial
  | some r => exact h r rfl

theorem Within.bind (h : Within n r) {f : α × List Char → Reading (β × List Char)}
    (hf : ∀ v rest, digitCount rest ≤ n → Within n (f (v, rest))) : Within n (r >>= f) := by
  cases r with
  | ok r => exact hf r.1 r.2 h
  | error fault =>
    cases fault with
    | malformed => trivial
    | numberTooLong digits => exact h

theorem within_bind_wellFormed {γ : Type} {o : Option γ} {f : γ → Reading (β × List Char)}
    (hf : ∀ v, o = some v → Within n (f v)) : Within n (wellFormed o >>= f) := by
  cases o with
  | none => trivial
  | some v => exact hf v rfl

end Within

/-- The integer that is too long has been taken from the text, so it had room there. -/
theorem within_readDecimal (cs : List Char) : Within (digitCount cs) (readDecimal cs) := by
  unfold readDecimal
  have hsign := digitCount_readSign_le cs
  rcases hs : readSign cs with ⟨negative, signed⟩
  rw [hs] at hsign
  refine within_bind_wellFormed fun ⟨whole, rest⟩ hwhole => ?_
  have hlength := length_readWhole_le hwhole
  have hfraction := (leaves_readFraction rest).getD (Nat.le_refl _)
  have hexponent := (leaves_readExponent _).getD (Nat.le_refl (digitCount
    (((readFraction? rest).map Prod.snd).getD rest)))
  dsimp only at hsign hlength hfraction hexponent ⊢
  split
  · -- Without a fraction and an exponent the number is an integer, and may be too long.
    unfold convertWhole
    split
    · rename_i hlong
      exact ⟨hlong, by omega⟩
    · change digitCount _ ≤ digitCount cs
      dsimp only
      omega
  · -- Any other number is a float, and no float is too long.
    change digitCount _ ≤ digitCount cs
    dsimp only
    omega

theorem leaves_readSpecial (cs : List Char) : Leaves (digitCount cs) (readSpecial? cs) := by
  unfold readSpecial?
  have hsign := digitCount_readSign_le cs
  split
  · -- The two words stand behind a sign, and have no digits.
    rename_i heq
    rw [heq] at hsign
    simp only [digitCount_cons] at hsign
    exact leaves_some (by dsimp only; omega)
  · rename_i heq
    rw [heq] at hsign
    simp only [digitCount_cons] at hsign
    exact leaves_some (by dsimp only; omega)
  · exact leaves_none

theorem within_readNumber (cs : List Char) : Within (digitCount cs) (readNumber cs) := by
  unfold readNumber
  split
  · rename_i r heq
    exact leaves_readBased cs r heq
  · split
    · exact within_wellFormed (leaves_readSpecial cs)
    · exact within_readDecimal cs

theorem digitCount_skipFraction_le (cs : List Char) :
    digitCount (skipFraction cs) ≤ digitCount cs := by
  unfold skipFraction
  split
  · rename_i c rest
    have hdrop := digitCount_dropWhile_le isDigit rest
    split_ifs
    · simp only [digitCount_cons]
      omega
    · exact Nat.le_refl _
  · exact Nat.le_refl _

theorem digitCount_afterTime_le {cs rest : List Char} (h : afterTime? cs = some rest) :
    digitCount rest ≤ digitCount cs := by
  unfold afterTime? at h
  split at h
  · rename_i rest'
    -- What the other checks of a time read is fixed, so only the fraction matters.
    simp only [Option.bind_eq_bind, Option.bind_eq_some_iff] at h
    rcases h with ⟨-, -, -, -, -, -, h⟩
    have hskip := digitCount_skipFraction_le rest'
    rw [Option.some.inj h] at hskip
    simp only [digitCount_cons]
    omega
  · exact absurd h nofun

theorem digitCount_skipOffset_le (cs : List Char) : digitCount (skipOffset cs) ≤ digitCount cs := by
  unfold skipOffset
  split
  · -- An offset that is a letter, in either case.
    simp only [digitCount_cons]
    omega
  · simp only [digitCount_cons]
    omega
  · -- An offset that is written with a sign, else none.
    split_ifs
    · simp only [digitCount_cons]
      omega
    · exact Nat.le_refl _
  · exact Nat.le_refl _

theorem digitCount_skipTimeOfDay_le (cs : List Char) :
    digitCount (skipTimeOfDay cs) ≤ digitCount cs := by
  unfold skipTimeOfDay
  split
  · split_ifs
    · -- A time follows the date, behind a letter or a space.
      split
      · rename_i rest rest' htime
        have hle := digitCount_afterTime_le htime
        have hoffset := digitCount_skipOffset_le rest'
        rw [digitCount_cons]
        omega
      · exact Nat.le_refl _
    · exact Nat.le_refl _
  · exact Nat.le_refl _

theorem leaves_readDate (cs : List Char) : Leaves (digitCount cs) (readDate? cs) := by
  unfold readDate?
  split
  · split_ifs
    · exact leaves_none
    · -- Year, month and day are dropped from the front.
      intro r hr
      simp only [Option.bind_eq_bind, Option.bind_eq_some_iff] at hr
      rcases hr with ⟨month, -, day, -, hr⟩
      rw [← Option.some.inj hr]
      simp only [digitCount_cons]
      omega
  · exact leaves_none

theorem leaves_readMoment {cs : List Char} {moment : Option (Value × List Char)}
    (h : readMoment? cs = some moment) : Leaves (digitCount cs) moment := by
  unfold readMoment? at h
  split at h
  · -- A date, and maybe a time behind it.
    rename_i date rest hdate
    have hle := leaves_readDate cs _ hdate
    have hskip := digitCount_skipTimeOfDay_le rest
    rw [← Option.some.inj h]
    split_ifs
    · exact leaves_some (Nat.le_trans hskip hle)
    · exact leaves_none
  · -- No date, so a time alone.
    rcases Option.map_eq_some_iff.mp h with ⟨rest, htime, rfl⟩
    exact leaves_some (digitCount_afterTime_le htime)

/-! ## Values -/

theorem digitCount_skipComment_le {cs rest : List Char} (h : skipComment cs = some rest) :
    digitCount rest ≤ digitCount cs := by
  unfold skipComment at h
  split at h
  · rename_i rest'
    split_ifs at h
    have hdrop := digitCount_dropWhile_le (· != '\n') rest'
    rw [Option.some.inj h] at hdrop
    rw [digitCount_cons]
    omega
  · exact Nat.le_of_eq (congrArg digitCount (Option.some.inj h).symm)

/-- Each round of filler ends with a comment. -/
theorem digitCount_skipFiller_le {fuel : Nat} {cs rest : List Char}
    (h : skipFiller fuel cs = some rest) : digitCount rest ≤ digitCount cs := by
  induction fuel generalizing cs with
  | zero =>
      exact Nat.le_of_eq (congrArg digitCount (Option.some.inj h).symm)
  | succ fuel ih =>
      have hdrop := digitCount_dropWhile_le isSpaceOrBreak cs
      rw [skipFiller] at h
      split at h
      · rename_i rest' heq
        rcases Option.bind_eq_some_iff.mp h with ⟨behind, hcomment, h⟩
        have hbehind := digitCount_skipComment_le hcomment
        have hrest := ih h
        rw [heq] at hdrop
        omega
      · rw [← Option.some.inj h]
        exact hdrop

theorem digitCount_skipAllFiller_le {cs rest : List Char} (h : skipAllFiller cs = some rest) :
    digitCount rest ≤ digitCount cs :=
  digitCount_skipFiller_le h

theorem within_readPlain (cs : List Char) : Within (digitCount cs) (readPlain cs) := by
  unfold readPlain
  split
  · -- A text, in either kind of quotes.
    exact within_wellFormed ((leaves_readText _).map_fst _)
  · exact within_wellFormed ((leaves_readText _).map_fst _)
  · -- The two truth values take their letters and no digit.
    change digitCount _ ≤ _
    simp only [digitCount_cons]
    omega
  · change digitCount _ ≤ _
    simp only [digitCount_cons]
    omega
  · -- A date or a time is tried before a number, as both begin with digits.
    split
    · rename_i hmoment
      exact within_wellFormed (leaves_readMoment hmoment)
    · exact within_readNumber cs

section Values

-- Each reader is taken one step down, with what the others do with the fuel that is left.
variable {fuel : Nat}

theorem within_readValue
    (hitems : ∀ done cs, Within (digitCount cs) (readItems fuel done cs))
    (hinline : ∀ fields notes cs, Within (digitCount cs) (readInline fuel fields notes cs))
    (cs : List Char) : Within (digitCount cs) (readValue (fuel + 1) cs) := by
  rw [readValue.eq_def]
  dsimp only
  split
  · -- An array, with filler before its first item.
    rename_i rest
    refine within_bind_wellFormed fun rest' hskip => (hitems #[] rest').mono ?_
    exact Nat.le_trans (digitCount_skipAllFiller_le hskip) (digitCount_tail_le '[' rest)
  · -- An inline table: it ends at once, or has pairs.
    rename_i rest
    have hskip := Nat.le_trans (digitCount_skipSpace_le rest) (digitCount_tail_le '\x7b' rest)
    split
    · rename_i heq
      exact within_ok (digitCount_behind heq hskip)
    · exact (hinline [] [] _).mono hskip
  · -- Every other value holds no value.
    exact within_readPlain cs

theorem within_readItems (hvalue : ∀ cs, Within (digitCount cs) (readValue fuel cs))
    (hitems : ∀ done cs, Within (digitCount cs) (readItems fuel done cs))
    (done : Array Value) (cs : List Char) :
    Within (digitCount cs) (readItems (fuel + 1) done cs) := by
  rw [readItems.eq_def]
  dsimp only
  split
  · -- The bracket that closes ends the array before the next item.
    exact within_ok (digitCount_tail_le ']' _)
  · refine (hvalue cs).bind fun v rest hrest => within_bind_wellFormed fun behind hskip => ?_
    have hbehind := Nat.le_trans (digitCount_skipAllFiller_le hskip) hrest
    split
    · -- Behind a value stands the bracket that closes, or a comma.
      exact within_ok (digitCount_behind rfl hbehind)
    · refine within_bind_wellFormed fun next hnext => (hitems _ next).mono ?_
      exact Nat.le_trans (digitCount_skipAllFiller_le hnext) (digitCount_behind rfl hbehind)
    · exact within_malformed

theorem within_readInline (hpair : ∀ cs, Within (digitCount cs) (readPair fuel cs))
    (hinline : ∀ fields notes cs, Within (digitCount cs) (readInline fuel fields notes cs))
    (fields : Fields) (notes : Notes) (cs : List Char) :
    Within (digitCount cs) (readInline (fuel + 1) fields notes cs) := by
  rw [readInline.eq_def]
  dsimp only
  refine (hpair cs).bind fun ⟨key, v⟩ rest hrest => ?_
  dsimp only
  split
  · -- A key that is there already is refused, and nothing is read.
    exact within_malformed
  · refine within_bind_wellFormed fun fields' _ => ?_
    have hskip := Nat.le_trans (digitCount_skipSpace_le rest) hrest
    split
    · rename_i heq
      exact within_ok (digitCount_behind heq hskip)
    · rename_i rest' heq
      refine (hinline _ _ _).mono ?_
      exact Nat.le_trans (digitCount_skipSpace_le rest') (digitCount_behind heq hskip)
    · exact within_malformed

theorem within_readPair (hvalue : ∀ cs, Within (digitCount cs) (readValue fuel cs))
    (cs : List Char) : Within (digitCount cs) (readPair (fuel + 1) cs) := by
  rw [readPair.eq_def]
  dsimp only
  -- No number is read in a key, so only the value can fail for its length.
  refine within_bind_wellFormed fun ⟨key, rest⟩ hkey => ?_
  have hrest := leaves_readKey cs _ hkey
  dsimp only at hrest ⊢
  split
  · rename_i rest'
    have hvalues := (hvalue (skipSpace rest')).mono
      (Nat.le_trans (digitCount_skipSpace_le rest') (digitCount_behind rfl hrest))
    exact hvalues.bind fun v behind hbehind => within_ok hbehind
  · exact within_malformed

end Values

/-- All readers of values at once, since values contain each other. -/
theorem within_values (fuel : Nat) :
    (∀ cs, Within (digitCount cs) (readValue fuel cs)) ∧
    (∀ done cs, Within (digitCount cs) (readItems fuel done cs)) ∧
    (∀ fields notes cs, Within (digitCount cs) (readInline fuel fields notes cs)) ∧
    ∀ cs, Within (digitCount cs) (readPair fuel cs) := by
  induction fuel with
  | zero => exact ⟨fun _ => trivial, fun _ _ => trivial, fun _ _ _ => trivial, fun _ => trivial⟩
  | succ fuel ih =>
      rcases ih with ⟨hvalue, hitems, hinline, hpair⟩
      exact ⟨within_readValue hitems hinline, within_readItems hvalue hitems,
        within_readInline hpair hinline, within_readPair hvalue⟩

/-! ## Documents -/

theorem within_readStatement (fuel : Nat) (d : Progress) (cs : List Char) :
    Within (digitCount cs) (readStatement fuel d cs) := by
  unfold readStatement
  split
  · -- The header of an array of tables is closed by two brackets.
    rename_i rest
    refine within_bind_wellFormed fun ⟨key, behind⟩ hkey => within_bind_wellFormed fun d' _ => ?_
    have hbehind := Nat.le_trans (leaves_readKey _ _ hkey) (digitCount_skipSpace_le rest)
    have hrest := Nat.le_trans (digitCount_tail_le '[' rest) (digitCount_tail_le '[' ('[' :: rest))
    dsimp only at hbehind ⊢
    split
    · exact within_ok (digitCount_behind rfl (digitCount_behind rfl (Nat.le_trans hbehind hrest)))
    · exact within_malformed
  · -- The header of a table is closed by one.
    rename_i rest _
    refine within_bind_wellFormed fun ⟨key, behind⟩ hkey => within_bind_wellFormed fun d' _ => ?_
    have hbehind := Nat.le_trans (leaves_readKey _ _ hkey) (digitCount_skipSpace_le rest)
    have hrest := digitCount_tail_le '[' rest
    dsimp only at hbehind ⊢
    split
    · exact within_ok (digitCount_behind rfl (Nat.le_trans hbehind hrest))
    · exact within_malformed
  · -- Every other line is a pair, if it is not empty.
    split
    · exact within_ok (Nat.le_refl _)
    · refine ((within_values fuel).2.2.2 _).bind fun ⟨key, v⟩ rest hrest => ?_
      exact within_bind_wellFormed fun d' _ => within_ok hrest
  · exact within_ok (Nat.le_refl _)

/-- Reading breaks off for no other number than one that is too long and stands there. -/
def Faults {α : Type} (n : Nat) (r : Reading α) : Prop :=
  ∀ digits, r = .error (.numberTooLong digits) → greatestDigits < digits ∧ digits ≤ n

theorem Within.faults_bind {α β : Type} {n : Nat} {r : Reading (α × List Char)} (h : Within n r)
    {f : α × List Char → Reading β}
    (hf : ∀ v rest, digitCount rest ≤ n → Faults n (f (v, rest))) : Faults n (r >>= f) := by
  intro digits hr
  cases r with
  | ok r => exact hf r.1 r.2 h digits hr
  | error fault =>
    rw [Except.error.inj hr] at h
    exact h

theorem faults_bind_wellFormed {α β : Type} {n : Nat} {o : Option α} {f : α → Reading β}
    (hf : ∀ v, o = some v → Faults n (f v)) : Faults n (wellFormed o >>= f) := by
  cases o with
  | none => nofun
  | some v => exact hf v rfl

theorem faults_readLines {fuel lines n : Nat} {d : Progress} {cs : List Char}
    (h : digitCount cs ≤ n) : Faults n (readLines fuel lines d cs) := by
  -- The induction is on the number of lines; what is left has no more digits each time.
  induction lines generalizing d cs with
  | zero => nofun
  | succ lines ih =>
      rw [readLines]
      have hstatement := (within_readStatement fuel d (skipSpace cs)).mono
        (Nat.le_trans (digitCount_skipSpace_le cs) h)
      refine hstatement.faults_bind fun d' rest hrest => ?_
      refine faults_bind_wellFormed fun behind hskip => ?_
      have hbehind := Nat.le_trans (digitCount_skipComment_le hskip)
        (Nat.le_trans (digitCount_skipSpace_le rest) hrest)
      -- Behind a statement stands the end of the document or of the line.
      split
      · nofun
      · exact ih (digitCount_behind rfl hbehind)
      · nofun

theorem digitCount_joinBreaks_le (cs : List Char) : digitCount (joinBreaks cs) ≤ digitCount cs := by
  fun_induction joinBreaks cs with
  | case1 rest ih =>
    simp only [digitCount_cons]
    omega
  | case2 c rest _ ih =>
    simp only [digitCount_cons]
    omega
  | case3 => exact Nat.le_refl _

/-- A number for which a document is not read has too many digits, and the document has at
    least as many. -/
theorem digits_of_parseDocument {source : String} {digits : Nat}
    (h : parseDocument source = .error (.numberTooLong digits)) :
    greatestDigits < digits ∧ digits ≤ digitCount source.toList := by
  unfold parseDocument at h
  dsimp only at h
  cases hread : readLines (2 * (joinBreaks source.toList).length + 4)
    ((joinBreaks source.toList).length + 1) .empty (joinBreaks source.toList) with
  | ok d =>
    rw [hread] at h
    exact absurd h nofun
  | error fault =>
    rw [hread] at h
    rw [Except.error.inj h] at hread
    exact faults_readLines (digitCount_joinBreaks_le source.toList) digits hread

/-! ## A number that is too long -/

theorem joinBreaks_of_not_mem {cs : List Char} (h : '\r' ∉ cs) : joinBreaks cs = cs := by
  fun_induction joinBreaks cs with
  | case1 rest ih => exact absurd List.mem_cons_self h
  | case2 c rest _ ih => rw [ih (List.not_mem_of_not_mem_cons h)]
  | case3 => rfl

/-- All of a run of digits is taken. -/
theorem moreDigits_replicate (k : Nat) :
    moreDigits isDigit (List.replicate k '1') = (List.replicate k '1', []) := by
  induction k with
  | zero => rfl
  | succ k ih =>
      rw [List.replicate_succ, moreDigits.eq_def]
      dsimp only
      rw [if_pos (by decide), ih]

/-- A decimal integer that has too many digits is not read. -/
theorem readPlain_replicate {k : Nat} (hk : greatestDigits < k) :
    readPlain (List.replicate k '1') = .error (.numberTooLong k) := by
  have hlong : 8 ≤ k := Nat.le_trans (by decide) (Nat.le_of_lt hk)
  -- The shape of a time is excluded by the eight digits in a row.
  rcases Nat.exists_eq_add_of_le' hlong with ⟨j, rfl⟩
  have hwhole : readWhole? (List.replicate (j + 8) '1') =
      some (List.replicate (j + 8) '1', []) :=
    congrArg some (moreDigits_replicate (j + 8))
  have hdecimal : readDecimal (List.replicate (j + 8) '1') = .error (.numberTooLong (j + 8)) := by
    have hsign : readSign (List.replicate (j + 8) '1') = (false, List.replicate (j + 8) '1') := rfl
    -- There is no sign, and all the digits belong to the whole number.
    rw [readDecimal, hsign]
    dsimp only
    rw [hwhole]
    have hconvert : convertWhole false (List.replicate (j + 8) '1') =
        .error (.numberTooLong (j + 8)) := by
      rw [convertWhole, List.length_replicate, if_pos hk]
    change (convertWhole false (List.replicate (j + 8) '1') >>= _) = _
    rw [hconvert]
    rfl
  -- The text begins neither a date nor a number in another base.
  have hnumber : readPlain (List.replicate (j + 8) '1') =
      readNumber (List.replicate (j + 8) '1') := rfl
  have hbased : readBased? (List.replicate (j + 8) '1') = none := rfl
  rw [hnumber, readNumber, hbased, hdecimal]

/-- The text of a document that gives a name such an integer. -/
def longNumber (k : Nat) : String := String.ofList ('n' :: '=' :: List.replicate k '1')

theorem readPair_longNumber {k : Nat} (hk : greatestDigits < k) (fuel : Nat) :
    readPair (fuel + 2) ('n' :: '=' :: List.replicate k '1') = .error (.numberTooLong k) := by
  have hplain := readPlain_replicate hk
  have hlong : 8 ≤ k := Nat.le_trans (by decide) (Nat.le_of_lt hk)
  rcases Nat.exists_eq_add_of_le' hlong with ⟨j, rfl⟩
  -- The key and the value stand apart, without spaces between them.
  have hkey : readKey ('n' :: '=' :: List.replicate (j + 8) '1') =
      some (["n"], '=' :: List.replicate (j + 8) '1') := rfl
  have hvalue : readValue (fuel + 1) (skipSpace (List.replicate (j + 8) '1')) =
      readPlain (List.replicate (j + 8) '1') := rfl
  rw [readPair.eq_def]
  dsimp only
  rw [hkey]
  change (readValue (fuel + 1) (skipSpace (List.replicate (j + 8) '1')) >>= _) = _
  rw [hvalue, hplain]
  rfl

theorem readStatement_longNumber {k : Nat} (hk : greatestDigits < k) (fuel : Nat) (d : Progress) :
    readStatement (fuel + 2) d ('n' :: '=' :: List.replicate k '1') =
      .error (.numberTooLong k) := by
  change (readPair (fuel + 2) ('n' :: '=' :: List.replicate k '1') >>= _) = _
  rw [readPair_longNumber hk]
  rfl

/-- There is a document for every number of digits that is too great. -/
theorem parseDocument_longNumber {k : Nat} (hk : greatestDigits < k) :
    parseDocument (longNumber k) = .error (.numberTooLong k) := by
  have hbreaks : joinBreaks (longNumber k).toList = 'n' :: '=' :: List.replicate k '1' := by
    rw [longNumber, String.toList_ofList]
    exact joinBreaks_of_not_mem (by simp)
  have hspace : skipSpace ('n' :: '=' :: List.replicate k '1') =
      'n' :: '=' :: List.replicate k '1' := rfl
  rw [parseDocument, hbreaks, readLines, hspace, readStatement_longNumber hk]
  rfl

end Toml

end BoolCalc
