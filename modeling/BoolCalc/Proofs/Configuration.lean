import BoolCalc.Proofs.Reading
import BoolCalc.Config

/-!
# Settings of Any File

What comes of a configuration file, whatever bytes it holds.

A file passes four layers: its bytes are decoded, the text is read as TOML, the entry of the
program is looked up, and the fields of the entry are validated. A failure of the second
is ignored, one of the last two is reported as issues, and an entry that is missing or empty
leaves the defaults. What is left are the files that are refused. Those that are no text
are the ones that no text has as its encoding. Those with an integer of too many digits are
found by the reader of documents, and the bound on the digits of a text shows that
such an integer has to stand there.

The number of variables is the one setting with a bound. A setting is either the default or
what was read, so a property of it needs to be checked for these two alone
(`of_readField`).

## Main definitions

* `fieldPaths`: The places that issues can be about.

## Theorems

* `le_of_validate`, `issues_of_validate`: What a section comes to.
* `ofDocument_of_void`, `ofDocument_cases`: What a document comes to.
* `load_eq_notText_iff`, `ofText_of_few_digits`: Which files are refused, and which are not.
* `load_of_bytes`: All of this for the bytes of a file.
-/

namespace BoolCalc

namespace Config

/-- What every setting of a kind has holds of the one that is read, if the default has it. -/
theorem of_readField {α : Type} {P : α → Prop} {fields : Toml.Fields} {name : String} {a b : α}
    {read : Toml.Value → Field α} (hdefault : P a) (hread : ∀ v b, read v = .ok b → P b)
    (h : readField fields name a read = .ok b) : P b := by
  unfold readField at h
  split at h
  · -- A field that is not there has the default.
    rw [← Except.ok.inj h]
    exact hdefault
  · -- A field that is there is read, or the section has an issue.
    rename_i v _
    cases hv : read v with
    | error kind =>
      rw [hv] at h
      exact absurd h nofun
    | ok b' =>
      rw [hv] at h
      rw [← Except.ok.inj h]
      exact hread v b' hv

/-- The issue of a setting names its field. -/
theorem path_issueOf_readField {α : Type} (fields : Toml.Fields) (name : String) (a : α)
    (read : Toml.Value → Field α) :
    ((issueOf (readField fields name a read)).map Issue.path).Sublist [[name]] := by
  unfold readField
  split
  · exact List.nil_sublist _
  · rename_i v _
    cases read v with
    | ok b => exact List.nil_sublist _
    | error kind => exact List.Sublist.refl _

theorem le_of_readMaxVariables {v : Toml.Value} {n : Nat} (h : readMaxVariables v = .ok n) :
    n ≤ greatestMaxVariables := by
  unfold readMaxVariables at h
  split at h
  · exact absurd h nofun
  · split_ifs at h with hsmall hlarge
    have hn := Except.ok.inj h
    omega

/-- The fields of a section, in the order in which they are checked. -/
def fieldPaths : List (List String) :=
  [["pointer_style"], ["debug"], ["max_variables"], ["html_padding"]]

variable {fields : Toml.Fields}

theorem le_of_validate {config : Config} (h : validate fields = .ok config) :
    config.maxVariables ≤ greatestMaxVariables := by
  unfold validate at h
  dsimp only at h
  split at h
  · -- Of the four fields only the limit matters here.
    rename_i limit _ _ _ hlimit _
    rw [← Except.ok.inj h]
    have hdefault : default.maxVariables ≤ greatestMaxVariables := by decide
    exact of_readField (P := (· ≤ greatestMaxVariables)) hdefault
      (fun _ _ => le_of_readMaxVariables) hlimit
  · exact absurd h nofun

theorem exists_ok_of_issueOf {α : Type} {r : Except Issue α} (h : issueOf r = []) :
    ∃ a, r = .ok a := by
  cases r with
  | ok a => exact ⟨a, rfl⟩
  | error issue => exact absurd h (List.cons_ne_nil issue [])

/-- A section that is refused has an issue, each of them names a field, and they stand in the
    order of the fields. -/
theorem issues_of_validate {issues : List Issue} (h : validate fields = .error issues) :
    issues ≠ [] ∧ (issues.map Issue.path).Sublist fieldPaths := by
  unfold validate at h
  dsimp only at h
  -- The section passes only if all four fields are read.
  split at h
  · exact absurd h nofun
  · rename_i hrefused
    rw [← Except.error.inj h]
    constructor
    · -- Without an issue every field would have been read.
      intro hnil
      simp only [List.append_eq_nil_iff] at hnil
      rcases hnil with ⟨⟨⟨hstyle, hdebug⟩, hlimit⟩, hpadding⟩
      rcases exists_ok_of_issueOf hstyle with ⟨style, hstyle⟩
      rcases exists_ok_of_issueOf hdebug with ⟨debug, hdebug⟩
      rcases exists_ok_of_issueOf hlimit with ⟨limit, hlimit⟩
      rcases exists_ok_of_issueOf hpadding with ⟨padding, hpadding⟩
      exact hrefused style debug limit padding hstyle hdebug hlimit hpadding
    · -- Each field adds one issue at most, and they are joined in the order of the fields.
      simp only [List.map_append]
      exact (((path_issueOf_readField fields _ _ _).append
        (path_issueOf_readField fields _ _ _)).append
        (path_issueOf_readField fields _ _ _)).append (path_issueOf_readField fields _ _ _)

variable {document : Toml.Fields}

/-- A document without an entry for the program, or with one that is empty in any way, changes
    nothing. -/
theorem ofDocument_of_void (h : ∀ v, document.get? "booltree" = some v → isVoid v = true) :
    ofDocument document = .ok default := by
  unfold ofDocument
  split
  · rfl
  · rename_i v hv
    rw [if_pos (h v hv)]

/-- Any other entry gives settings in which the number of variables is bounded, or it has
    issues. -/
theorem ofDocument_cases (document : Toml.Fields) :
    (∃ config, ofDocument document = .ok config ∧ config.maxVariables ≤ greatestMaxVariables) ∨
      ∃ issues, ofDocument document = .error issues ∧ issues ≠ [] ∧
        (issues.map Issue.path = [[]] ∨ (issues.map Issue.path).Sublist fieldPaths) := by
  have hdefault : default.maxVariables ≤ greatestMaxVariables := by decide
  unfold ofDocument
  split
  · -- Neither without an entry nor with an empty one is anything read.
    exact .inl ⟨default, rfl, hdefault⟩
  · split_ifs
    · exact .inl ⟨default, rfl, hdefault⟩
    · split
      · -- Only a table has fields; an entry of another kind is refused with the empty path.
        rename_i fields _ _
        cases hvalidate : validate fields with
        | ok config => exact .inl ⟨config, rfl, le_of_validate hvalidate⟩
        | error issues =>
          rcases issues_of_validate hvalidate with ⟨hne, hpaths⟩
          exact .inr ⟨issues, rfl, hne, .inr hpaths⟩
      · exact .inr ⟨_, rfl, List.cons_ne_nil _ _, .inl rfl⟩

/-- A file is text exactly if it is the encoding of one. -/
theorem fromUTF8?_eq_none_iff {bytes : ByteArray} :
    String.fromUTF8? bytes = none ↔ ∀ source : String, source.toUTF8 ≠ bytes := by
  unfold String.fromUTF8?
  split_ifs with hvalid
  · refine iff_of_false nofun fun h => h (String.fromUTF8 bytes hvalid) rfl
  · refine iff_of_true rfl fun source hsource => hvalid ?_
    rw [← hsource]
    exact source.isValidUTF8

theorem load_toUTF8 (source : String) : load (some source.toUTF8) = ofText source := by
  have hdecode : String.fromUTF8? source.toUTF8 = some source := dif_pos source.isValidUTF8
  rw [load, hdecode]

theorem ofText_ne_notText (source : String) : ofText source ≠ .error .notText := by
  unfold ofText
  split
  · nofun
  · nofun
  · split
    · nofun
    · nofun

/-- A file is refused as no text exactly if it is not one. -/
theorem load_eq_notText_iff {bytes : ByteArray} :
    load (some bytes) = .error .notText ↔ ∀ source : String, source.toUTF8 ≠ bytes := by
  rw [← fromUTF8?_eq_none_iff, load]
  cases hdecode : String.fromUTF8? bytes with
  | none => exact iff_of_true rfl rfl
  | some source => exact iff_of_false (ofText_ne_notText source) nofun

variable {source : String}

/-- A document gives settings in which the number of variables is bounded, or it has issues. -/
theorem ofText_cases (h : Toml.parseDocument source = .ok document) :
    (∃ config, ofText source = .ok ⟨config, false⟩ ∧
        config.maxVariables ≤ greatestMaxVariables) ∨
      ∃ issues, ofText source = .error (.invalid issues) ∧ issues ≠ [] ∧
        (issues.map Issue.path = [[]] ∨ (issues.map Issue.path).Sublist fieldPaths) := by
  rw [ofText, h]
  dsimp only
  rcases ofDocument_cases document with ⟨config, hok, hle⟩ | ⟨issues, herror, hissues⟩
  · rw [hok]
    exact .inl ⟨config, rfl, hle⟩
  · rw [herror]
    exact .inr ⟨issues, rfl, hissues⟩

/-- In a text of few digits no integer is too long. -/
theorem ofText_of_few_digits (h : Toml.digitCount source.toList ≤ greatestDigits) :
    (∃ loaded, ofText source = .ok loaded ∧
        loaded.config.maxVariables ≤ greatestMaxVariables) ∨
      ∃ issues, ofText source = .error (.invalid issues) ∧ issues ≠ [] := by
  cases hparse : Toml.parseDocument source with
  | ok document =>
    rcases ofText_cases hparse with ⟨config, hok, hle⟩ | ⟨issues, herror, hne, -⟩
    · exact .inl ⟨_, hok, hle⟩
    · exact .inr ⟨issues, herror, hne⟩
  | error fault =>
    cases fault with
    | malformed =>
      rw [ofText, hparse]
      exact .inl ⟨_, rfl, by decide⟩
    -- The integer that is too long would have more digits than the whole text.
    | numberTooLong digits =>
      have hdigits := Toml.digits_of_parseDocument hparse
      omega

/-- What the settings of any file are. A file that is not text is refused. A text that is not
    well formed is ignored. A document with an integer that is too long is refused as well, and
    the integer has to stand in it. Any other document gives the default settings, or those
    of its entry, or the issues of its entry. For a text of few digits there is nothing but
    settings and issues. Files that are nested so deeply that reading them would exhaust the
    stack are left out of account: here the stack is as deep as the file needs. -/
theorem load_of_bytes (bytes : ByteArray) :
    (load (some bytes) = .error .notText ↔ ∀ source : String, source.toUTF8 ≠ bytes) ∧
    ∀ source : String, source.toUTF8 = bytes →
      (Toml.parseDocument source = .error .malformed →
        load (some bytes) = .ok ⟨default, true⟩) ∧
      (∀ digits, Toml.parseDocument source = .error (.numberTooLong digits) →
        load (some bytes) = .error (.numberTooLong digits) ∧
          greatestDigits < digits ∧ digits ≤ Toml.digitCount source.toList) ∧
      (∀ document, Toml.parseDocument source = .ok document →
        ((∀ v, document.get? "booltree" = some v → isVoid v = true) →
          load (some bytes) = .ok ⟨default, false⟩) ∧
        ((∃ config, load (some bytes) = .ok ⟨config, false⟩ ∧
            config.maxVariables ≤ greatestMaxVariables) ∨
          ∃ issues, load (some bytes) = .error (.invalid issues) ∧ issues ≠ [] ∧
            (issues.map Issue.path = [[]] ∨ (issues.map Issue.path).Sublist fieldPaths))) ∧
      (Toml.digitCount source.toList ≤ greatestDigits →
        (∃ loaded, load (some bytes) = .ok loaded ∧
            loaded.config.maxVariables ≤ greatestMaxVariables) ∨
          ∃ issues, load (some bytes) = .error (.invalid issues) ∧ issues ≠ []) := by
  refine ⟨load_eq_notText_iff, ?_⟩
  rintro source rfl
  rw [load_toUTF8]
  refine ⟨fun h => ?_, fun digits h => ⟨?_, Toml.digits_of_parseDocument h⟩,
    fun document h => ⟨fun hvoid => ?_, ofText_cases h⟩, ofText_of_few_digits⟩
  · rw [ofText, h]
  · rw [ofText, h]
  · rw [ofText, h]
    dsimp only
    rw [ofDocument_of_void hvoid]

/-- An empty list stands for no entry. -/
theorem load_of_empty_entry :
    load (some "booltree = []".toUTF8) = .ok ⟨default, false⟩ := by
  have hparse : Toml.parseDocument "booltree = []" = .ok [("booltree", .array [])] := by cbv
  refine (((load_of_bytes _).2 "booltree = []" rfl).2.2.1 _ hparse).1 ?_
  intro v hv
  rw [← Option.some.inj hv]
  rfl

/-- A single byte that begins no character, and a document with an integer of one digit too
    many: neither gives settings, nor is it ignored or found invalid. -/
theorem load_refuses :
    load (some ⟨#[0xFF]⟩) = .error .notText ∧
    load (some (Toml.longNumber 4301).toUTF8) = .error (.numberTooLong 4301) := by
  constructor
  · have hbytes : ¬ByteArray.IsValidUTF8 ⟨#[0xFF]⟩ := by decide
    have hdecode : String.fromUTF8? ⟨#[0xFF]⟩ = none := dif_neg hbytes
    rw [load, hdecode]
  · have hlong := Toml.parseDocument_longNumber (by decide : greatestDigits < 4301)
    rw [load_toUTF8, ofText, hlong]

end Config

end BoolCalc
