import BoolCalc.Proofs.Locations
import BoolCalc.Token.Stream

/-!
# Runs of a Reader

What successive requests for a token are answered by, errors included.

The cursor is moved before the character is looked at, and so it does not matter
to the cursor what the character is. After any number of requests it is at that
number, or at the end of the source (`skip_ofSource`). Each answer is then about
one character: it is a token of the kind that the character makes, or the error
that it makes none (`answeredBy_advance`). Put together in their order these
characters are the source.

A listing of tokens stops at the first answer that is an error or the end. It is
found by one scan of the characters, and no request is made for it. The two are
compared one character at a time: a request answers the head of the listing, and
unless the listing ends there, the reader that the request leaves lists the rest
(`listing_of_ok`). A stream of tokens stops at the same place. All that it knows
then is that it has ended; its reader is where the requests have left it.

## Main definitions

* `TokenKind.Covers`, `SymbolFault.Covers`: The classes of characters.
* `AnsweredBy`: An answer is about a character at a position.
* `spelled`: The character that an answer is about.
* `Reader.listing`: The answers up to the end or the first error.

## Theorems

* `answeredBy_advance`, `advance_at_end`: What one request does.
* `skip_ofSource`: Where any number of requests lead.
* `spelled_answers`: The answers spell the source.
* `exists_listing`: A listing is a first part of the answers.
* `skip_of_last`, `next_skip_of_last`: What a stream does and gives out.
* `advance_loses_nothing`: All of this for every source.
-/

namespace BoolCalc

/-- The characters that make a token of a kind. -/
def TokenKind.Covers : TokenKind → Char → Prop
  | unaryOperator, c => c = '!'
  | binaryOperator, c => c = '*' ∨ c = '+'
  | binaryConstant, c => c = '0' ∨ c = '1'
  | identifier, c => isIdentifier c = true
  | openParen, c => c = '('
  | closeParen, c => c = ')'
  | endOfInput, _ => False

/-- The characters that have a fault. -/
def SymbolFault.Covers : SymbolFault → Char → Prop
  | invalid, c => Symbol.isInvalidDigit c = true
  | unknown, c => Text.isPrintable c = false

/-- A request is answered for the character at a position of a source: by the token
    of that character, or by the error that it stands for nothing. -/
inductive AnsweredBy (source : String) (style : PointerStyle) (i : Nat) (c : Char) :
    Except ParseError Token → Prop
  | token {t : Token} (hlexeme : t.lexeme = some c) (hpos : t.pos = i)
      (hkind : t.kind.Covers c) : AnsweredBy source style i c (.ok t)
  | refusal {e : ParseError} {fault : SymbolFault} (hcause : e.cause = .badSymbol fault c)
      (hpos : e.pos = i) (hplace : e = ⟨e.cause, source, i + 1, style⟩)
      (hfault : fault.Covers c) : AnsweredBy source style i c (.error e)

/-- The character that an answer is about: what the token is written as, or the
    symbol of the error. -/
def spelled : Except ParseError Token → Option Char
  | .ok t => t.lexeme
  | .error e => e.cause.character?

theorem spelled_of_answeredBy {source : String} {style : PointerStyle} {i : Nat} {c : Char}
    {answer : Except ParseError Token} (h : AnsweredBy source style i c answer) :
    spelled answer = some c := by
  cases h with
  | token hlexeme _ _ => exact hlexeme
  | refusal hcause _ _ _ =>
      rw [spelled, hcause]
      rfl

/-- A character is classified by the class that it is in. -/
theorem Symbol.covers_classify (c : Char) :
    (∃ s, classify c = .ok s ∧ s.char = c ∧ s.kind.Covers c) ∨
      ∃ fault, classify c = .error fault ∧ fault.Covers c := by
  have hreading := reading_classify c
  generalize classify c = reading at hreading
  -- The reading says which class the character is of, one case after another.
  cases hreading with
  | negation => exact Or.inl ⟨_, rfl, rfl, rfl⟩
  | operator op =>
      refine Or.inl ⟨_, rfl, rfl, ?_⟩
      cases op with
      | conj => exact Or.inl rfl
      | disj => exact Or.inr rfl
  | constant b =>
      refine Or.inl ⟨_, rfl, rfl, ?_⟩
      cases b with
      | zero => exact Or.inl rfl
      | one => exact Or.inr rfl
  | openParen | closeParen => exact Or.inl ⟨_, rfl, rfl, rfl⟩
  | identifier h => exact Or.inl ⟨_, rfl, rfl, h⟩
  | invalid h => exact Or.inr ⟨_, rfl, h⟩
  | unknown h => exact Or.inr ⟨_, rfl, h⟩

namespace Reader

section Single

variable {r : Reader} {c : Char}

/-- The character at the cursor is the first of those that remain. -/
theorem exists_remaining (h : r.source.toList[r.index]? = some c) :
    ∃ rest, r.remaining = c :: rest := by
  rwa [← List.head?_drop, List.head?_eq_some_iff] at h

/-- A request goes past the character at the cursor, and its answer is about that
    character. -/
theorem answeredBy_advance (h : r.source.toList[r.index]? = some c) :
    r.advance.2 = { r with index := r.index + 1 } ∧
      AnsweredBy r.source r.style r.index c r.advance.1 := by
  rcases exists_remaining h with ⟨rest, hrest⟩
  rcases Symbol.covers_classify c with ⟨s, hs, hchar, hkind⟩ | ⟨fault, hbad, hfault⟩
  · simp only [advance, hrest, hs]
    exact ⟨trivial, .token (congrArg some hchar) rfl hkind⟩
  · simp only [advance, hrest, hbad]
    exact ⟨trivial, .refusal rfl rfl rfl hfault⟩

/-- At the end a request is answered with the end and changes nothing. -/
theorem advance_at_end (h : r.source.length ≤ r.index) :
    r.advance = (.ok ⟨none, r.source.length⟩, r) := by
  have hnone : r.remaining = [] := by
    rw [remaining, List.drop_eq_nil_iff, String.length_toList]
    exact h
  rw [advance, hnone]

end Single

section Successive

variable (source : String) (style : PointerStyle)

/-- After a number of requests the cursor is at that number, but not behind the
    source. -/
theorem skip_ofSource (i : Nat) :
    (ofSource source style).skip i = ⟨source, min i source.length, style⟩ := by
  induction i with
  | zero => rw [Nat.zero_min, skip, ofSource]
  | succ i ih =>
      rw [skip, ih]
      -- Before the end each request passes one character, and behind it none.
      by_cases hi : i < source.length
      · rw [Nat.min_eq_left (Nat.le_of_lt hi), Nat.min_eq_left hi]
        have hchar : source.toList[i]? = some source.toList[i] :=
          List.getElem?_eq_getElem (by rwa [String.length_toList])
        exact (answeredBy_advance (r := ⟨source, i, style⟩) hchar).1
      · rw [Nat.min_eq_right (Nat.not_lt.mp hi),
          Nat.min_eq_right (Nat.le_succ_of_le (Nat.not_lt.mp hi)), advance_at_end (Nat.le_refl _)]

/-- The answer to a request is about the character at its number. -/
theorem answeredBy_answer {i : Nat} {c : Char} (h : source.toList[i]? = some c) :
    AnsweredBy source style i c ((ofSource source style).answer i) := by
  have hi : i < source.length := by
    rw [← String.length_toList]
    exact (List.getElem?_eq_some_iff.mp h).1
  rw [answer, skip_ofSource, Nat.min_eq_left (Nat.le_of_lt hi)]
  exact (answeredBy_advance (r := ⟨source, i, style⟩) h).2

/-- When there have been as many requests as characters, all others are answered
    with the end and leave the reader where it is. -/
theorem advance_skip_of_length_le {i : Nat} (h : source.length ≤ i) :
    ((ofSource source style).skip i).advance =
      (.ok ⟨none, source.length⟩, (ofSource source style).skip i) := by
  rw [skip_ofSource, Nat.min_eq_right h]
  exact advance_at_end (Nat.le_refl _)

/-- The answer to a request spells the character at its number, if there is
    one. -/
theorem spelled_answer (i : Nat) :
    spelled ((ofSource source style).answer i) = source.toList[i]? := by
  cases hc : source.toList[i]? with
  | some c => exact spelled_of_answeredBy (answeredBy_answer source style hc)
  | none =>
      rw [List.getElem?_eq_none_iff, String.length_toList] at hc
      rw [answer, advance_skip_of_length_le source style hc]
      rfl

/-- The answers spell the source, as far as requests have been made. -/
theorem spelled_answers (n : Nat) :
    ((ofSource source style).answers n).filterMap spelled = source.toList.take n := by
  induction n with
  | zero => rfl
  | succ n ih =>
      rw [answers, List.range_succ, List.map_append, List.filterMap_append, List.take_add_one,
        ← spelled_answer source style n, ← ih]
      refine congrArg _ ?_
      rw [List.map_singleton, List.filterMap_cons]
      -- One more answer spells one more character, or none behind the end.
      cases spelled ((ofSource source style).answer n) with
      | none => rfl
      | some c => rfl

end Successive

section Listing

/-- The answers up to the end of the input or the first error, found by one
    scan. -/
def listing (r : Reader) : List (Except ParseError Token) :=
  r.takeAll.1.map .ok ++ r.takeAll.2.1.toList.map .error

variable {r : Reader}

/-- Requests may be counted from the second on. -/
theorem skip_advance (r : Reader) (n : Nat) : r.advance.2.skip n = r.skip (n + 1) := by
  induction n with
  | zero => rfl
  | succ n ih => rw [skip, ih, ← skip]

theorem answer_advance (r : Reader) (i : Nat) : r.advance.2.answer i = r.answer (i + 1) := by
  rw [answer, answer, skip_advance]

theorem answers_succ (r : Reader) (n : Nat) :
    r.answers (n + 1) = r.advance.1 :: r.advance.2.answers n := by
  rw [answers, List.range_succ_eq_map, List.map_cons, List.map_map]
  exact congrArg (r.advance.1 :: ·)
    (List.map_congr_left fun i _ => (answer_advance r i).symm)

theorem length_answers (r : Reader) (n : Nat) : (r.answers n).length = n := by
  rw [answers, List.length_map, List.length_range]

theorem getElem?_answers (r : Reader) {n i : Nat} (h : i < n) :
    (r.answers n)[i]? = some (r.answer i) := by
  rw [answers, List.getElem?_map, List.getElem?_range h]
  rfl

/-- Where nothing remains but the end, the listing is the answer to one request. -/
theorem listing_of_nil (hwithin : r.Within) (h : r.remaining = []) :
    listing r = [r.advance.1] := by
  have hend : r.source.length ≤ r.index := by
    rwa [remaining, List.drop_eq_nil_iff, String.length_toList] at h
  rw [advance_at_end hend, Nat.le_antisymm hend hwithin]
  simp only [listing, takeAll, h, scan]
  rfl

/-- A character that stands for nothing ends the listing. -/
theorem listing_of_error {c : Char} {rest : List Char} {fault : SymbolFault}
    (h : r.remaining = c :: rest) (hc : Symbol.classify c = .error fault) :
    listing r = [r.advance.1] := by
  simp only [listing, takeAll, advance, h, scan, hc]
  rfl

theorem remaining_succ {c : Char} {rest : List Char} (h : r.remaining = c :: rest) :
    ({ r with index := r.index + 1 } : Reader).remaining = rest := by
  rw [remaining, ← List.drop_drop, ← remaining, h]
  rfl

/-- Any other character gives the head of the listing, and the rest is listed by
    the reader behind it. -/
theorem listing_of_ok {c : Char} {rest : List Char} {s : Symbol}
    (h : r.remaining = c :: rest) (hc : Symbol.classify c = .ok s) :
    listing r = r.advance.1 :: listing r.advance.2 := by
  simp only [listing, takeAll, advance, h, scan, hc, remaining_succ h]
  rcases scan rest (r.index + 1) with ⟨tokens, stop⟩
  cases stop with
  | none => rfl
  | some stopped => rfl

/-- A listing is the answers to requests up to the first that is the last of a
    stream. -/
theorem exists_listing (hwithin : r.Within) :
    ∃ k, listing r = r.answers (k + 1) ∧
      (∀ i < k, TokenStream.isLast (r.answer i) = false) ∧
      TokenStream.isLast (r.answer k) = true := by
  -- The induction is on what remains, and each request takes one character of it.
  generalize hcs : r.remaining = cs
  induction cs generalizing r with
  | nil =>
      refine ⟨0, listing_of_nil hwithin hcs, nofun, ?_⟩
      simp only [answer, skip, advance, hcs]
      rfl
  | cons c rest ih =>
      cases hc : Symbol.classify c with
      | error fault =>
          refine ⟨0, listing_of_error hcs hc, nofun, ?_⟩
          simp only [answer, skip, advance, hcs, hc]
          rfl
      | ok s =>
          have hadvance : r.advance = (.ok ⟨some s, r.index⟩, { r with index := r.index + 1 }) := by
            simp only [advance, hcs, hc]
          have hrest : r.advance.2.remaining = rest := by
            rw [hadvance]
            exact remaining_succ hcs
          rcases ih (located_advance hwithin).1 hrest with ⟨k, hlisting, hbefore, hlast⟩
          refine ⟨k + 1, ?_, fun i hi => ?_, ?_⟩
          · rw [listing_of_ok hcs hc, hlisting, ← answers_succ]
          · cases i with
            | zero =>
                rw [answer, skip, hadvance]
                rfl
            | succ i =>
                rw [← answer_advance]
                exact hbefore i (Nat.lt_of_succ_lt_succ hi)
          · rw [← answer_advance]
            exact hlast

end Listing

end Reader

namespace TokenStream

section Ending

variable {r : Reader} {k : Nat} (hbefore : ∀ i < k, isLast (r.answer i) = false)
  (hlast : isLast (r.answer k) = true)

include hbefore hlast

/-- A stream makes requests up to the first whose answer is the last, and makes
    none afterwards. -/
theorem skip_of_last (m : Nat) :
    (⟨r, false⟩ : TokenStream).skip m = ⟨r.skip (min m (k + 1)), decide (k < m)⟩ := by
  induction m with
  | zero => simp only [skip, Reader.skip, Nat.zero_min, Nat.not_lt_zero, decide_false]
  | succ m ih =>
      rw [skip, ih]
      by_cases hm : k < m
      · rw [Nat.min_eq_right hm, Nat.min_eq_right (Nat.le_succ_of_le hm), decide_eq_true hm,
          decide_eq_true (Nat.lt_succ_of_lt hm)]
        rfl
      · have hle := Nat.not_lt.mp hm
        rw [Nat.min_eq_left (Nat.le_succ_of_le hle), Nat.min_eq_left (Nat.succ_le_succ hle),
          decide_eq_false hm]
        -- A request is made, and its answer decides whether it is the last one.
        have hends : isLast (r.answer m) = decide (k < m + 1) := by
          rcases Nat.lt_or_eq_of_le hle with hlt | rfl
          · rw [hbefore m hlt, decide_eq_false (Nat.not_lt.mpr hlt)]
          · rw [hlast, decide_eq_true (Nat.lt_succ_self m)]
        rw [← hends]
        rfl

/-- What a stream gives out is the answers up to the last one. -/
theorem next_skip_of_last (m : Nat) :
    ((⟨r, false⟩ : TokenStream).skip m).next.1 = (r.answers (k + 1))[m]? := by
  rw [skip_of_last hbefore hlast]
  -- The stream ends with its last answer and gives out nothing more.
  by_cases hm : k < m
  · rw [decide_eq_true hm, List.getElem?_eq_none]
    · rfl
    · rw [Reader.length_answers]
      exact hm
  · have hle := Nat.not_lt.mp hm
    rw [decide_eq_false hm, Nat.min_eq_left (Nat.le_succ_of_le hle),
      Reader.getElem?_answers r (Nat.lt_succ_of_le hle)]
    rfl

end Ending

end TokenStream

/-- Nothing is lost by requests for tokens, whether they fail or not. Each request
    moves the cursor by one, up to the end of the source, and is answered for the
    character that it goes past, by its token or by its error; behind the source
    every request is answered with the end and changes nothing. So the answers
    spell the source. A source is tokenized as the answers up to the first that
    is the end or an error. The stream of the tokens gives out these, and then
    nothing more, while its reader is left behind the last of them. -/
theorem advance_loses_nothing (source : String) (style : PointerStyle) :
    (∀ i, (Reader.ofSource source style).skip i = ⟨source, min i source.length, style⟩) ∧
      (∀ i c, source.toList[i]? = some c →
        AnsweredBy source style i c ((Reader.ofSource source style).answer i)) ∧
      (∀ i, source.length ≤ i → ((Reader.ofSource source style).skip i).advance =
        (.ok ⟨none, source.length⟩, (Reader.ofSource source style).skip i)) ∧
      (∀ n, ((Reader.ofSource source style).answers n).filterMap spelled =
        source.toList.take n) ∧
      (∃ k, tokenize source = (Reader.ofSource source .html).answers (k + 1) ∧
        (∀ i < k, TokenStream.isLast ((Reader.ofSource source .html).answer i) = false) ∧
        TokenStream.isLast ((Reader.ofSource source .html).answer k) = true) ∧
      ∀ m, ((TokenStream.ofSource source).skip m).next.1 = (tokenize source)[m]? ∧
        ((TokenStream.ofSource source).skip m).reader =
          (Reader.ofSource source .html).skip (min m (tokenize source).length) := by
  have hwithin : (Reader.ofSource source .html).Within := Nat.zero_le _
  rcases Reader.exists_listing hwithin with ⟨k, hlisting, hbefore, hlast⟩
  have htokens : tokenize source = (Reader.ofSource source .html).answers (k + 1) := hlisting
  refine ⟨Reader.skip_ofSource source style, fun i c => Reader.answeredBy_answer source style,
    fun i => Reader.advance_skip_of_length_le source style, Reader.spelled_answers source style,
    ⟨k, htokens, hbefore, hlast⟩, fun m => ⟨?_, ?_⟩⟩
  · -- The answers of the stream are the listing, entry by entry.
    rw [htokens]
    exact TokenStream.next_skip_of_last hbefore hlast m
  · rw [htokens, Reader.length_answers, TokenStream.ofSource,
      TokenStream.skip_of_last hbefore hlast]

/-- A digit that is no constant is between two characters that make tokens. The
    requests go past it, the stream ends with it, and the reader of the stream
    can go on. -/
theorem advance_past_invalid_digit :
    "a3+".toList[1]? = some '3' ∧
      AnsweredBy "a3+" .html 1 '3' ((Reader.ofSource "a3+" .html).answer 1) ∧
      "a3+".length ≤ 3 ∧
      ((Reader.ofSource "a3+" .html).skip 3).advance = (.ok ⟨none, 3⟩, ⟨"a3+", 3, .html⟩) ∧
      ((Reader.ofSource "a3+" .html).answers 3).filterMap spelled = ['a', '3', '+'] ∧
      tokenize "a3+" = (Reader.ofSource "a3+" .html).answers 2 ∧
      ((TokenStream.ofSource "a3+").skip 2).next.1 = none ∧
      ((TokenStream.ofSource "a3+").skip 2).reader.advance.1 =
        .ok ⟨some (.operator .disj), 2⟩ := by
  rcases advance_loses_nothing "a3+" .html with
    ⟨hskip, hanswer, hend, hspelled, _, hstream⟩
  have htokens : tokenize "a3+" = (Reader.ofSource "a3+" .html).answers 2 := rfl
  refine ⟨rfl, hanswer 1 '3' rfl, Nat.le_refl 3, ?_, hspelled 3, htokens, (hstream 2).1, ?_⟩
  · -- The third request is the last that passes a character.
    rw [hend 3 (Nat.le_refl 3), hskip]
    rfl
  · rw [(hstream 2).2, htokens, Reader.length_answers]
    rfl

end BoolCalc
