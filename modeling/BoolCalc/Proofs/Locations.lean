import BoolCalc.Parse.Access
import BoolCalc.Proofs.Restart

/-!
# Where Errors Point

Every error points at a character of the source that is loaded when it is
raised, and its diagram shows the caret under that character.

The place of an error is not kept anywhere. It is computed from the reader's
cursor after the fact, as the character in front of it, and so everything
depends on what the cursor has done. It never leaves the source (`Within`),
because it is moved by reading alone, and what is read is there. An error is
always what the reader says at the cursor where the step has left it
(`Blames`), also if the step read nothing, if the token it is about was read
long before, or if that token is of a source that is gone. For a character
that stands for nothing more can be said: it is the one in front of the
cursor, since the cursor has moved past it.

`Located` puts these two together for one step. It holds of every access to
the parser in which the cursor was within the source before, and a history is
then one induction.

The diagram is a matter of texts. The caret line is told in two ways, as a
number of pads on either side of the caret, and as columns, one for each
character of the source and the caret in one of them.

## Main definitions

* `Reader.Within`: The cursor is in the source.
* `Reader.Blames`: An error about the place where a reader is.
* `Step.Located`: A step that stays within the source and fails where it is.
* `caretColumns`: The caret line by columns.
* `ParseError.PointsInto`: An error with its place and its diagram.

## Theorems

* `readsFrom_consume`: A run reads a first part of what is ahead of it.
* `located_access`: Every access is located.
* `accessAll_within`: The cursor after a history.
* `caretLine_eq_columns`: The two forms of the caret line.
* `pointsInto_of_blames`: What the place of an error makes of its diagram.
* `access_points_into_loaded`: Every error of every history.
-/

namespace BoolCalc

/-- The cursor of a reader is in its source or at its end. -/
def Reader.Within (r : Reader) : Prop := r.index ≤ r.source.length

/-- An error is about the place where a reader is. If it is about a character
    of its own, this is the character at the position it reports. -/
structure Reader.Blames (r : Reader) (err : ParseError) : Prop where
  /-- The error has the source, the cursor and the layout of the reader. -/
  eq_fail : err = r.fail err.cause
  /-- The character it is about stands at its position. -/
  refused : ∀ c, err.cause.character? = some c → r.source.toList[err.pos]? = some c

/-- A step leaves its reader within the source, and an error is about the place
    where the reader is left. -/
structure Step.Located {α : Type} (step : Step α) : Prop where
  /-- The cursor is in the source. -/
  within : step.parser.reader.Within
  /-- An error is about the place of the cursor. -/
  failed : ∀ err, step.answer = .error err → step.parser.reader.Blames err

namespace Reader

variable {r : Reader} {read rest : List Char}

/-- Reading a part of what is ahead does not lead out of the source. -/
theorem within_of_read (hr : r.Within) (h : r.remaining = read ++ rest) :
    ({ r with index := r.index + read.length } : Reader).Within := by
  have hlength := congrArg List.length h
  rw [remaining, List.length_drop, String.length_toList, List.length_append] at hlength
  unfold Within at hr ⊢
  simp only
  omega

/-- Behind what has been read, an error may be about the last character of it. -/
theorem blames_of_read (h : r.remaining = read ++ rest) {cause : Cause}
    (hc : ∀ c, cause.character? = some c → read.getLast? = some c) :
    ({ r with index := r.index + read.length } : Reader).Blames
      (({ r with index := r.index + read.length } : Reader).fail cause) where
  eq_fail := rfl
  refused c hchar := by
    rcases List.getLast?_eq_some_iff.mp (hc c hchar) with ⟨init, rfl⟩
    have hpos : r.index + (init ++ [c]).length - 1 = r.index + init.length := by
      rw [List.length_append, List.length_singleton]
      rfl
    show r.source.toList[r.index + (init ++ [c]).length - 1]? = some c
    rw [hpos, ← List.getElem?_drop, ← remaining, h, List.append_assoc,
      List.getElem?_append_right (Nat.le_refl _), Nat.sub_self]
    rfl

/-- An error about no character of its own can be raised at any place. -/
theorem blames_fail (r : Reader) {cause : Cause} (h : cause.character? = none) :
    r.Blames (r.fail cause) where
  eq_fail := rfl
  refused c hchar := by
    rw [fail, h] at hchar
    exact absurd hchar nofun

theorem located_advance (hr : r.Within) :
    r.advance.2.Within ∧ ∀ err, r.advance.1 = .error err → r.advance.2.Blames err := by
  cases hrem : r.remaining with
  | nil =>
      simp only [advance, hrem]
      exact ⟨hr, by rintro _ ⟨⟩⟩
  | cons c rest =>
      have hread : r.remaining = [c] ++ rest := hrem
      cases hc : Symbol.classify c with
      | ok s =>
          simp only [advance, hrem, hc]
          exact ⟨within_of_read hr hread, by rintro _ ⟨⟩⟩
      -- A character that is refused has been read, so the cursor stands behind it.
      | error fault =>
          simp only [advance, hrem, hc]
          refine ⟨within_of_read hr hread, ?_⟩
          rintro err ⟨⟩
          exact blames_of_read hread fun d hd => hd

/-- A pass over characters stops at one of them. -/
theorem exists_of_scan {cs : List Char} {index stop : Nat} {fault : SymbolFault} {c : Char}
    (h : (scan cs index).2 = some (stop, fault, c)) :
    ∃ init rest, cs = init ++ [c] ++ rest ∧ stop = index + init.length := by
  induction cs generalizing index with
  | nil => exact absurd h nofun
  | cons d cs ih =>
      cases hd : Symbol.classify d with
      | error fault' =>
          simp only [scan, hd, Option.some.injEq, Prod.mk.injEq] at h
          rcases h with ⟨rfl, _, rfl⟩
          exact ⟨[], cs, rfl, rfl⟩
      -- The pass goes on, so the stop is counted from the next character.
      | ok s =>
          simp only [scan, hd] at h
          rcases ih h with ⟨init, rest, rfl, rfl⟩
          refine ⟨d :: init, rest, rfl, ?_⟩
          rw [List.length_cons]
          omega

theorem located_takeAll (hr : r.Within) :
    r.takeAll.2.2.Within ∧ ∀ err, r.takeAll.2.1 = some err → r.takeAll.2.2.Blames err := by
  rcases hscan : scan r.remaining r.index with ⟨tokens, stop⟩
  cases stop with
  | none =>
      -- Nothing stopped the pass, so the cursor is at the end.
      simp only [takeAll, hscan]
      exact ⟨Nat.le_refl _, by rintro _ ⟨⟩⟩
  | some stopped =>
      rcases stopped with ⟨stop, fault, c⟩
      -- What has been read ends with the character that stopped the pass.
      rcases exists_of_scan (congrArg Prod.snd hscan) with ⟨init, rest, hread, rfl⟩
      have hindex : r.index + init.length + 1 = r.index + (init ++ [c]).length := by
        rw [List.length_append, List.length_singleton, Nat.add_assoc]
      simp only [takeAll, hscan, hindex]
      refine ⟨within_of_read hr hread, ?_⟩
      rintro err ⟨⟩
      refine blames_of_read hread fun d hd => ?_
      rw [List.getLast?_append, List.getLast?_singleton]
      exact hd

end Reader

/-- A run has read a first part of what was ahead of it. If it fails with an
    error about a character, this is the last one of that part. -/
def Run.ReadsFrom (run : Run) (cs : List Char) (index : Nat) : Prop :=
  ∃ read rest, cs = read ++ rest ∧ run.index = index + read.length ∧
    ∀ cause, run.outcome = .error cause → ∀ c, cause.character? = some c → read.getLast? = some c

section Runs

variable {limit : Nat} {goal : Goal}

/-- A stop by one of the rules is about no character of its own. -/
theorem character?_of_stops {σ : Stage} {next : Option Symbol} {outcome : Except Cause Expr}
    (h : Stops limit goal σ next outcome) {cause : Cause} (hout : outcome = .error cause) :
    cause.character? = none := by
  -- A trailing character is no character of the error.
  have hfinish : ∀ e, goal.finish next e = .error cause → cause.character? = none := by
    intro e he
    unfold Goal.finish at he
    split at he
    · cases he
      rfl
    · exact absurd he nofun
  cases h with
  | noTerm _ | tooDeep _ _ | missingClose _ _ _ _ =>
      cases hout
      rfl
  | operator _ _ _ | finished _ _ _ => exact hfinish _ hout

theorem readsFrom_consume (current : Option Token) (σ : Stage) (cs : List Char) (index : Nat) :
    (consume limit goal current σ cs index).ReadsFrom cs index := by
  rcases exists_walk limit goal σ cs with ⟨v, rest, τ, outcome, rfl, hw, ho⟩
  rcases consume_of_walk hw ho current index with ⟨hout, hindex⟩
  -- The character at which the machine stops has been read too.
  refine ⟨v ++ rest.take 1, rest.drop 1, ?_, ?_, ?_⟩
  · rw [List.append_assoc, List.take_append_drop]
  · rw [hindex, List.length_append, List.length_take, Nat.add_assoc]
  · intro cause hcause c hc
    rw [hout] at hcause
    rcases stops_of_verdict ho with ⟨d, rest', fault, rfl, _, hbad⟩ | ⟨next, _, hs⟩
    · rw [hbad] at hcause
      cases hcause
      rw [List.take_succ_cons, List.take_zero, List.getLast?_append, List.getLast?_singleton]
      exact hc
    · rw [character?_of_stops hs hcause] at hc
      exact absurd hc nofun

theorem readsFrom_resume (token : Token) (cs : List Char) (index : Nat) :
    (resume limit goal token cs index).ReadsFrom cs index := by
  -- A run that ends with the token it is given reads nothing.
  have hnothing : ∀ log next outcome, Stops limit goal (.want []) next outcome →
      (Run.atToken token index log outcome).ReadsFrom cs index := by
    intro log next outcome hs
    refine ⟨[], cs, rfl, rfl, fun cause hcause c hc => ?_⟩
    rw [character?_of_stops hs hcause] at hc
    exact absurd hc nofun
  rw [resume]
  cases hsymbol : token.symbol with
  | none => exact hnothing _ none _ (stops_conclude _)
  | some s =>
      simp only
      rcases hrespond : respond limit goal (.want []) s with ⟨log, move⟩
      cases move with
      | advance τ => exact readsFrom_consume (some token) τ cs index
      | accept e | refuse cause =>
          exact hnothing _ _ _ (stops_of_outcome (congrArg (Move.outcome? ∘ Prod.snd) hrespond))

end Runs

section Steps

variable {limit : Nat} {p : Parser}

/-- A step that does not fail is located wherever it leaves the cursor within the
    source. -/
theorem Step.located_ok {α : Type} (x : α) (hp : p.reader.Within) (log : List Event) :
    Step.Located ⟨.ok x, p, log⟩ where
  within := hp
  failed := by rintro _ ⟨⟩

/-- What an answer is put as does not matter. -/
theorem Step.Located.map {α β : Type} {step : Step α} (h : step.Located) (f : α → β) :
    (step.map f).Located where
  within := h.within
  failed err herr := by
    cases hanswer : step.answer with
    | ok x =>
        rw [Step.map, hanswer] at herr
        exact absurd herr nofun
    | error err' =>
        rw [Step.map, hanswer] at herr
        cases herr
        exact h.failed _ hanswer

namespace Parser

theorem located_readToken (hp : p.reader.Within) : p.readToken.Located := by
  rcases Reader.located_advance hp with ⟨hwithin, hblames⟩
  rw [readToken]
  rcases hstep : p.reader.advance with ⟨answer, reader⟩
  rw [hstep] at hwithin hblames
  cases answer with
  | ok token => exact Step.located_ok token hwithin _
  | error err => exact ⟨hwithin, hblames⟩

/-- The parser takes a token as it is taken past it, and looks at it. -/
theorem located_advance (hp : p.reader.Within) : p.advance.Located := by
  have hread := located_readToken hp
  rw [readToken] at hread
  rw [advance]
  rcases hstep : p.reader.advance with ⟨answer, reader⟩
  rw [hstep] at hread
  cases answer with
  | ok token | error err => exact ⟨hread.within, hread.failed⟩

theorem located_readAll (hp : p.reader.Within) : p.readAll.Located := by
  rcases Reader.located_takeAll hp with ⟨hwithin, hblames⟩
  rw [readAll]
  rcases hstep : p.reader.takeAll with ⟨tokens, stop, reader⟩
  rw [hstep] at hwithin hblames
  cases stop with
  | none => exact Step.located_ok tokens hwithin _
  | some err =>
      -- The error of the reader is passed on as it is.
      refine ⟨hwithin, ?_⟩
      rintro err' ⟨⟩
      exact hblames err rfl

theorem located_look (hp : p.reader.Within) : p.look.Located := by
  rw [look]
  cases p.current with
  | some token => exact Step.located_ok token hp _
  | none => exact located_advance hp

theorem located_closeGroup (hp : p.reader.Within) : p.closeGroup.Located := by
  have hlook := located_look hp
  rw [closeGroup]
  rcases hstep : p.look with ⟨answer, q, log⟩
  rw [hstep] at hlook
  -- Looking ahead may fail itself, and was located then.
  cases answer with
  | error err => exact hlook
  | ok token =>
      by_cases hclose : token.symbol = some .closeParen
      · have hnext := located_advance hlook.within
        simp only [if_pos hclose]
        exact ⟨hnext.within, hnext.failed⟩
      · -- The error is that of the parser, at the place that was looked at.
        simp only [if_neg hclose]
        refine ⟨hlook.within, ?_⟩
        rintro err ⟨⟩
        exact Reader.blames_fail _ rfl

/-- A step that is a run is located, since it moves the cursor by reading. -/
theorem located_settle (hp : p.reader.Within) {run : Run}
    (hrun : run.ReadsFrom p.reader.remaining p.reader.index) : (p.settle run).Located := by
  rcases hrun with ⟨read, rest, hread, hindex, hcause⟩
  rcases run with ⟨log, index, current, outcome⟩
  simp only at hindex hcause
  subst hindex
  refine ⟨Reader.within_of_read hp hread, fun err herr => ?_⟩
  -- Only a run that fails has an error to locate.
  cases outcome with
  | ok e => exact absurd herr nofun
  | error cause =>
      cases herr
      exact Reader.blames_of_read hread (hcause cause rfl)

theorem located_pursue (hp : p.reader.Within) (goal : Goal) : (p.pursue limit goal).Located := by
  refine located_settle hp ?_
  cases p.current with
  | some token => exact readsFrom_resume token _ _
  | none => exact readsFrom_consume none _ _ _

theorem located_construct (p : Parser) : (p.construct limit).Located := by
  have hstep : (p.restart.settle (consume limit (.expression 0 true) p.restart.current (.want [])
      p.restart.reader.remaining p.restart.reader.index)).Located :=
    located_settle (Nat.zero_le _) (readsFrom_consume _ _ _ _)
  rw [construct]
  revert hstep
  generalize p.restart.settle _ = step
  intro hstep
  simp only
  cases hanswer : step.answer with
  | error err => exact hstep
  | ok e =>
      -- The tree may still be refused, or it is kept beside the reader.
      by_cases hdeep : limit < e.height
      · simp only [if_pos hdeep]
        refine ⟨hstep.within, ?_⟩
        rintro err ⟨⟩
        exact Reader.blames_fail _ rfl
      · simp only [if_neg hdeep]
        exact ⟨hstep.within, by rintro _ ⟨⟩⟩

theorem located_perform (hp : p.reader.Within) (request : ParserRequest) :
    (p.perform limit request).Located := by
  cases request with
  | construct => exact (located_construct p).map _
  | advance => exact (located_advance hp).map _
  | closeGroup => exact (located_closeGroup hp).map _
  | expression bound whole | term => exact (located_pursue hp _).map _
  | load source => exact Step.located_ok _ (Nat.zero_le _) _

/-- Every access leaves the cursor within the source, and an error is about the
    place where it leaves it. -/
theorem located_access (hp : p.reader.Within) (a : Access) : (p.access limit a).Located := by
  cases a with
  | request request => exact (located_perform hp request).map _
  | readToken => exact (located_readToken hp).map _
  | readAll => exact (located_readAll hp).map _

end Parser

end Steps

/-- The source that is there after an access. -/
def Access.sourceAfter (source : String) : Access → String
  | .request r => r.sourceAfter source
  | .readToken | .readAll => source

/-- Taking all tokens only moves the cursor. -/
theorem Reader.exists_index_takeAll (r : Reader) : ∃ index, r.takeAll.2.2 = { r with index } := by
  rw [takeAll]
  rcases scan r.remaining r.index with ⟨tokens, stop⟩
  cases stop with
  | none => exact ⟨r.source.length, rfl⟩
  | some stopped => exact ⟨stopped.1 + 1, rfl⟩

namespace Parser

theorem movedFrom_readToken (p : Parser) : p.readToken.parser.MovedFrom p := by
  rcases p.reader.exists_index_advance with ⟨index, hindex⟩
  rw [readToken]
  rcases hstep : p.reader.advance with ⟨answer, reader⟩
  rw [hstep] at hindex
  subst hindex
  cases answer with
  | ok token | error err => exact ⟨index, p.current, rfl⟩

theorem movedFrom_readAll (p : Parser) : p.readAll.parser.MovedFrom p := by
  rcases p.reader.exists_index_takeAll with ⟨index, hindex⟩
  rw [readAll]
  rcases hstep : p.reader.takeAll with ⟨tokens, stop, reader⟩
  rw [hstep] at hindex
  subst hindex
  cases stop with
  | none | some err => exact ⟨index, p.current, rfl⟩

/-- An access does nothing to the layout, and nothing to the source unless it is
    a request to load one. -/
theorem agrees_access (limit : Nat) (p : Parser) (a : Access) :
    (p.access limit a).parser.reader.source = a.sourceAfter p.reader.source ∧
      (p.access limit a).parser.reader.style = p.reader.style := by
  cases a with
  | request request => exact agrees_perform limit p request
  | readToken => exact agrees_of_movedFrom (movedFrom_readToken p)
  | readAll => exact agrees_of_movedFrom (movedFrom_readAll p)

/-- After a history the cursor is within the source, which is the one that was
    loaded last, and the layout is the one that it began with. -/
theorem accessAll_within (limit : Nat) {p : Parser} (hp : p.reader.Within)
    (accesses : List Access) :
    (p.accessAll limit accesses).reader.Within ∧
      (p.accessAll limit accesses).reader.source =
        accesses.foldl Access.sourceAfter p.reader.source ∧
      (p.accessAll limit accesses).reader.style = p.reader.style := by
  induction accesses generalizing p with
  | nil => exact ⟨hp, rfl, rfl⟩
  | cons a rest ih =>
      rcases agrees_access limit p a with ⟨hsource, hstyle⟩
      rcases ih (located_access hp a).within with ⟨hwithin, ihsource, ihstyle⟩
      rw [hsource] at ihsource
      exact ⟨hwithin, ihsource, ihstyle.trans hstyle⟩

end Parser

/-- The columns of a caret line: the caret in one of them, and a pad in every
    other. -/
def caretColumns (width column : Nat) (style : PointerStyle) : List String :=
  (List.range width).map fun i => if i = column then "^" else style.pad

/-- Columns that do not have the caret are pads. -/
theorem map_columns_of_not_mem {columns : List Nat} {column : Nat} (h : column ∉ columns)
    (style : PointerStyle) :
    (columns.map fun i => if i = column then "^" else style.pad) =
      List.replicate columns.length style.pad := by
  refine List.map_eq_replicate_iff.mpr fun i hi => if_neg ?_
  rintro rfl
  exact h hi

/-- The columns in front of the caret, the caret, and the columns behind it. -/
theorem caretColumns_eq (before after : Nat) (style : PointerStyle) :
    caretColumns (before + (1 + after)) before style =
      List.replicate before style.pad ++ "^" :: List.replicate after style.pad := by
  have hbefore : before ∉ List.range before := List.not_mem_range_self
  have hafter : before ∉ ((List.range after).map (1 + ·)).map (before + ·) := by
    simp only [List.mem_map, not_exists, not_and]
    omega
  rw [caretColumns, List.range_add, List.range_add, List.map_append, List.map_append,
    List.map_append, map_columns_of_not_mem hbefore, map_columns_of_not_mem hafter,
    List.length_range, List.length_map, List.length_map, List.length_range, List.range_one,
    List.map_singleton, List.map_singleton, Nat.add_zero, if_pos rfl, List.singleton_append]

/-- For a caret among the columns, the caret line is made of the columns. -/
theorem caretLine_eq_columns {length index : Nat} (h : index < max 1 length)
    (style : PointerStyle) :
    caretLine length index style = String.join (caretColumns (max 1 length) index style) := by
  have hwidth : max 1 length = index + (1 + (length - index - 1)) := by omega
  rw [hwidth, caretColumns_eq, ← String.toList_inj]
  simp only [caretLine, String.toList_append, Text.toList_repeatText, String.toList_join,
    List.flatMap_append, List.flatMap_cons, List.flatMap_replicate, List.append_assoc]

/-- Whatever the cause, the message has the diagram in it. -/
theorem ParseError.exists_message (err : ParseError) :
    ∃ before after, err.message = before ++ err.diagram ++ after := by
  rcases err with ⟨cause, source, cursor, style⟩
  -- The diagram ends the message, but for the two causes that name what was expected.
  cases cause with
  | badSymbol fault c =>
      cases fault with
      | invalid | unknown => exact ⟨_, "", String.append_empty.symm⟩
  | noTerm | tooDeep => exact ⟨_, "", String.append_empty.symm⟩
  | missingClose found => exact ⟨_, _, rfl⟩
  | trailing found =>
      refine ⟨"Unexpected token: " ++ describe (some found) ++ " ", " Expected type: " ++
        (TokenKind.binaryOperator.name ++ (", Received: " ++ found.kind.name)), ?_⟩
      rw [← String.append_assoc, ← String.append_assoc, ← String.append_assoc]
      rfl

/-- An error with its place in a source, and what its diagram looks like. -/
structure ParseError.PointsInto (err : ParseError) (source : String) (style : PointerStyle) :
    Prop where
  /-- The error has this source. -/
  source_eq : err.source = source
  /-- The error has this layout. -/
  style_eq : err.style = style
  /-- Its position is one of the source, or 0 if the source is empty. -/
  pos_lt : err.pos < max 1 source.length
  /-- If it is about a character of its own, this is the one at its position. -/
  refused : ∀ c, err.cause.character? = some c → source.toList[err.pos]? = some c
  /-- The message has the diagram in it. -/
  message : ∃ before after, err.message = before ++ err.diagram ++ after
  /-- The diagram is the source above a caret line. The caret line has as many
      pads in front of the caret as there are characters in front of the
      position, and as many behind it as there are behind the position, so that
      it has a column for each character and the caret in that of the position. -/
  diagram : ∃ line, err.diagram =
      style.lineBreak ++ source ++ style.lineBreak ++ line ++ style.lineBreak ∧
    line = Text.repeatText err.pos style.pad ++ "^" ++
      Text.repeatText (source.length - err.pos - 1) style.pad ∧
    line = String.join (caretColumns (max 1 source.length) err.pos style)

/-- What a reader within its source blames points into that source. -/
theorem pointsInto_of_blames {r : Reader} {err : ParseError} (hr : r.Within) (h : r.Blames err) :
    err.PointsInto r.source r.style := by
  -- The position is within the source, or zero for an empty one.
  have hpos : err.pos < max 1 r.source.length := by
    have hcursor : err.cursor = r.index := congrArg ParseError.cursor h.eq_fail
    unfold Reader.Within at hr
    rw [ParseError.pos, hcursor]
    omega
  have hsource : err.source = r.source := congrArg ParseError.source h.eq_fail
  have hstyle : err.style = r.style := congrArg ParseError.style h.eq_fail
  refine ⟨hsource, hstyle, hpos, h.refused, err.exists_message, ?_⟩
  refine ⟨caretLine r.source.length err.pos r.style, ?_, rfl, caretLine_eq_columns hpos r.style⟩
  rw [← hsource, ← hstyle]
  rfl

/-- After every history of accesses to a parser and its reader, which may have
    failed, the cursor is in the source that was loaded last. Every error that the
    next access raises points into that source, in the layout that the parser was
    given, with its message and its diagram. -/
theorem access_points_into_loaded (past limit : Nat) (source : String) (style : PointerStyle)
    (history : List Access) :
    ∃ (q : Parser) (loaded : String),
      q = (Parser.ofSource source style).accessAll past history ∧
      loaded = history.foldl Access.sourceAfter source ∧ q.reader.source = loaded ∧
      q.reader.index ≤ loaded.length ∧
      ∀ (a : Access) (err : ParseError), (q.access limit a).answer = .error err →
        err.PointsInto (a.sourceAfter loaded) style := by
  have hstart : (Parser.ofSource source style).reader.Within := Nat.zero_le _
  rcases Parser.accessAll_within past hstart history with ⟨hwithin, hsource, hstyle⟩
  -- Only the invariant of the history is used from here on.
  generalize (Parser.ofSource source style).accessAll past history = q at hwithin hsource hstyle
  have hindex : q.reader.index ≤ (history.foldl Access.sourceAfter source).length :=
    hsource ▸ hwithin
  refine ⟨q, _, rfl, rfl, hsource, hindex, fun a err herr => ?_⟩
  -- The step keeps the source that it worked in, which is the one that is loaded by
  -- then.
  have hlocated : (q.access limit a).Located := Parser.located_access hwithin a
  have hpoints := pointsInto_of_blames hlocated.within (hlocated.failed err herr)
  rcases Parser.agrees_access limit q a with ⟨hafter, hafterStyle⟩
  rw [hafter, hsource, hafterStyle, hstyle] at hpoints
  exact hpoints

/-- A whole parse fails before the end of its source, the reader is taken past a
    digit there, and a shorter source is loaded. The token that is still looked at
    is then not the closing parenthesis that is asked for, and the error about it
    points into the shorter source. -/
theorem access_points_at_shorter_source :
    ∃ (q : Parser) (err : ParseError),
      q = (Parser.ofSource "ab7" .text).accessAll 5
        [.request .construct, .readToken, .request (.load "!")] ∧
      q.current = some ⟨some (.identifier 'b'), 1⟩ ∧ q.reader.source = "!" ∧
      (q.access 5 (.request .closeGroup)).answer = .error err ∧ err.pos = 0 ∧
      err.PointsInto "!" .text ∧
      err.message = "Unexpected symbol: b " ++ "\n!\n^\n" ++ " Expected: )" := by
  rcases access_points_into_loaded 5 5 "ab7" .text
    [.request .construct, .readToken, .request (.load "!")] with
    ⟨q, _, rfl, rfl, hsource, _, hpoints⟩
  exact ⟨_, _, rfl, rfl, hsource, rfl, rfl, hpoints (.request .closeGroup) _ rfl, rfl⟩

end BoolCalc
