import BoolCalc.Proofs.Scan
import Mathlib.Order.Bounds.Defs

/-!
# Errors at the Longest Viable Prefix

An error is reported at the first character that cannot be continued to an
accepted source, and nothing behind that character is read.

The length of a prefix is viable if some text put behind the prefix makes an
accepted source of it. `Viable` says nothing about how a source is parsed, so
that the longest viable prefix is a property of the accepted sources alone.

Both halves of the argument are about scans. What has been scanned without
complaint leaves an outlook, and every outlook can be completed: an operand if
one is wanted, and a closing parenthesis for each open group. So the prefix up
to a complaint is viable. A longer prefix is not, because a scan does not look
beyond the character it complains about, and whatever is put behind that
character meets the same complaint.

## Main definitions

* `Outlook.completion`: The characters that complete an outlook.
* `Viable`: A prefix can be continued to an accepted source.

## Theorems

* `scan_completion`: A completed outlook has nothing to complain about.
* `exists_completion`: What stands before a complaint can be completed.
* `viable_of_scan`: The prefix up to a complaint is viable.
* `le_of_viable`: No longer prefix is viable.
* `error_at_longest_viable`: Where a whole parse reports its error.
-/

namespace BoolCalc

namespace Outlook

/-- The characters that complete an outlook: an operand if one is wanted, and
    the closing parentheses of the open groups. -/
def completion : Outlook → List Char
  | operand depth => '0' :: List.replicate depth ')'
  | continuation depth => List.replicate depth ')'

theorem scan_completion_continuation (depth index : Nat) :
    (continuation depth).scan (List.replicate depth ')') index = none := by
  induction depth generalizing index with
  | zero => rfl
  | succ depth ih =>
      have hread : (continuation (depth + 1)).read ')' = .ok (continuation depth) := by
        rw [read_legal (s := .closeParen) rfl]
        exact (if_neg (by decide)).trans (if_pos ⟨rfl, Nat.succ_pos depth⟩)
      rw [List.replicate_succ, scan_ok hread]
      exact ih (index + 1)

/-- A completed outlook has nothing to complain about. -/
theorem scan_completion (o : Outlook) (index : Nat) : o.scan o.completion index = none := by
  cases o with
  | operand depth =>
      have hread : (operand depth).read '0' = .ok (continuation depth) := by
        rw [read_legal (s := .constant .zero) rfl]
        rfl
      rw [completion, scan_ok hread]
      exact scan_completion_continuation depth (index + 1)
  | continuation depth => exact scan_completion_continuation depth index

/-- What stands before a complaint can be completed, by the outlook that the
    complaint is made from. -/
theorem exists_completion {o : Outlook} {cs : List Char} {index stop : Nat}
    {complaint : Complaint} (h : o.scan cs index = some (complaint, stop)) :
    ∃ suffix, o.scan (cs.take (stop - index) ++ suffix) index = none := by
  induction cs generalizing o index with
  | nil =>
      refine ⟨o.completion, ?_⟩
      rw [List.take_nil, List.nil_append]
      exact scan_completion o index
  | cons c rest ih =>
      cases hread : o.read c with
      | error k =>
          -- The scan stops here, so that nothing has been read.
          rw [scan_error hread] at h
          cases h
          refine ⟨o.completion, ?_⟩
          rw [Nat.sub_self, List.take_zero, List.nil_append]
          exact scan_completion o _
      | ok next =>
          rw [scan_ok hread] at h
          have hbounds := scan_bounds h
          have hlength : stop - index = stop - (index + 1) + 1 := by omega
          rcases ih h with ⟨suffix, hsuffix⟩
          refine ⟨suffix, ?_⟩
          rw [hlength, List.take_succ_cons, List.cons_append, scan_ok hread]
          exact hsuffix

end Outlook

/-- The first characters of a source can be continued to a source that is
    accepted. -/
def Viable (source : String) (n : Nat) : Prop :=
  ∃ (suffix : String) (limit : Nat) (style : PointerStyle) (e : Expr),
    parse limit (String.ofList (source.toList.take n) ++ suffix) style = .ok e

/-- A source is accepted under some limit exactly if its scan finds nothing to
    complain about. -/
theorem exists_parse_iff_scan (source : String) :
    (∃ limit style e, parse limit source style = .ok e) ↔
      Outlook.start.scan source.toList 0 = none := by
  constructor
  · rintro ⟨limit, style, e, hok⟩
    have hanswer : ((Parser.ofSource source style).construct limit).answer = .ok e := hok
    -- A complaint would have made the parse fail under every ample limit.
    cases hscan : Outlook.start.scan source.toList 0 with
    | none => rfl
    | some stopped =>
        rcases error_of_scan (Parser.ample_of_ok hanswer) hscan with ⟨err, herr, _⟩
        rw [hanswer] at herr
        exact absurd herr nofun
  · -- The length of the source is a limit under which nothing is refused for depth.
    intro hscan
    have hample : (Parser.ofSource source .html).Ample source.length :=
      ample_of_length_le (Nat.le_refl _)
    rcases ok_of_scan hample hscan with ⟨e, hok⟩
    exact ⟨_, _, e, hok⟩

theorem viable_iff_scan (source : String) (n : Nat) :
    Viable source n ↔
      ∃ suffix, Outlook.start.scan (source.toList.take n ++ suffix) 0 = none := by
  constructor
  · rintro ⟨suffix, haccept⟩
    refine ⟨suffix.toList, ?_⟩
    have hscan := (exists_parse_iff_scan _).mp haccept
    rwa [String.toList_append, String.toList_ofList] at hscan
  · rintro ⟨suffix, hscan⟩
    refine ⟨String.ofList suffix, (exists_parse_iff_scan _).mpr ?_⟩
    rwa [String.toList_append, String.toList_ofList, String.toList_ofList]

section Complaint

variable {source : String} {complaint : Complaint} {stop : Nat}

/-- The prefix up to a complaint is viable. -/
theorem viable_of_scan
    (h : Outlook.start.scan source.toList 0 = some (complaint, stop)) : Viable source stop :=
  (viable_iff_scan source stop).mpr (Outlook.exists_completion h)

/-- No prefix with the character that is complained about is viable, since the
    complaint does not depend on what is put behind it. -/
theorem le_of_viable (h : Outlook.start.scan source.toList 0 = some (complaint, stop)) {n : Nat}
    (hn : n ≤ source.length) (hviable : Viable source n) : n ≤ stop := by
  refine Nat.not_lt.mp (fun hlt => ?_)
  rcases (viable_iff_scan source n).mp hviable with ⟨suffix, hnone⟩
  rw [← String.length_toList] at hn
  -- The continued prefix still has the character that is complained about.
  have htake : (source.toList.take n ++ suffix).take (stop + 1 - 0) =
      source.toList.take (stop + 1 - 0) := by
    rw [List.take_append_of_le_length (by rw [List.length_take]; omega), List.take_take,
      Nat.min_eq_left (by omega)]
  have hsome := scan_of_take_eq h (by omega) htake
  rw [hnone] at hsome
  exact absurd hsome nofun

end Complaint

/-- Where a whole parse reports its error. A source is refused at its longest
    viable prefix: the position is that of the character behind the prefix, or
    of the last character if the whole source is viable, and the reader has
    not gone beyond that character. -/
theorem error_at_longest_viable (limit : Nat) (p : Parser) (err : ParseError)
    (h : (p.construct limit).answer = .error err) (hdeep : err.cause ≠ .tooDeep) :
    ∃ k, IsGreatest {n | n ≤ p.reader.source.length ∧ Viable p.reader.source n} k ∧
      err.pos = (if k < p.reader.source.length then k else p.reader.source.length - 1) ∧
      (p.construct limit).parser.reader.index = min (k + 1) p.reader.source.length := by
  -- There is but one error, and it is not about nesting.
  have hample : p.Ample limit := by
    intro err' herr'
    rw [h] at herr'
    cases herr'
    exact hdeep
  cases hscan : Outlook.start.scan p.reader.source.toList 0 with
  | none =>
      rcases ok_of_scan hample hscan with ⟨e, hok⟩
      rw [h] at hok
      exact absurd hok nofun
  | some stopped =>
      rcases stopped with ⟨complaint, stop⟩
      rcases error_of_scan hample hscan with ⟨err', herr', _, hle, hcursor⟩
      rw [h] at herr'
      cases herr'
      refine ⟨stop, ⟨⟨hle, viable_of_scan hscan⟩, ?_⟩, pos_of_cursor hle hcursor,
        (Parser.index_of_error h).trans hcursor⟩
      rintro n ⟨hn, hviable⟩
      exact le_of_viable hscan hn hviable

/-- A stray closing parenthesis is not viable, and what stands before it is. -/
theorem error_at_stray_close :
    ((Parser.ofSource "a+)b" .html).construct 4).answer = .error ⟨.noTerm, "a+)b", 3, .html⟩ ∧
      Cause.noTerm ≠ .tooDeep ∧
      ∃ k, IsGreatest {n | n ≤ "a+)b".length ∧ Viable "a+)b" n} k ∧
        3 - 1 = (if k < "a+)b".length then k else "a+)b".length - 1) ∧
        ((Parser.ofSource "a+)b" .html).construct 4).parser.reader.index =
          min (k + 1) "a+)b".length := by
  have herr : ((Parser.ofSource "a+)b" .html).construct 4).answer =
      .error ⟨.noTerm, "a+)b", 3, .html⟩ := rfl
  have hdeep : Cause.noTerm ≠ .tooDeep := nofun
  exact ⟨herr, hdeep, error_at_longest_viable 4 _ _ herr hdeep⟩

end BoolCalc
