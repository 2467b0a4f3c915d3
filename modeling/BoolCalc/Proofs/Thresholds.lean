import BoolCalc.Proofs.Parsing

/-!
# Expressions above a Bound

What a parser takes when it is asked for an expression above any bound, from any token on.

A request for an expression starts with the token that is being looked at. That token has
been read already, and the cursor is behind it. `Parser.LooksAt` says where in the source it
stands. The request is then a walk over what remains of the source from that token on, as if
it had not been read (`pursue_of_looksAt`). What the walk takes is a sentence of the level
that belongs to the bound, and it ends before a symbol that the sentence cannot go on with.

A sentence can be a first part of another one, as `a` is of `a*b`. That it is a sentence does
not make it the one that is taken, but that it ends there does: the symbol behind it is no
operator above the bound. There is only one such sentence, and this is read off the machine
and not off the grammar. After the run the parser looks at the token behind the sentence,
the run is the same for every such sentence, and a token has one place.

## Main definitions

* `Level.above`: The level of the expressions above a bound.
* `SentenceAt`: A sentence that ends where it cannot go on.
* `Parser.LooksAt`: Where the token stands that is being looked at.
* `Parser.AmpleAbove`: The limit is not what a request is refused for.
* `Parser.walkFrom`: The walk of a request.

## Theorems

* `current_of_walk`: A walk fixes the token that a run ends with.
* `consume_of_sentence`, `sentence_of_consume`: Runs and the sentences they take.
* `sentenceAt_unique`: There is one sentence to be taken.
* `looksAt_iff`: Looking at a token, told by what stands there.
* `pursue_of_looksAt`, `expression_of_looksAt`: A request is a walk from its token on.
* `expression_takes_sentence`: What a request takes and what it leaves behind.
-/

namespace BoolCalc

/-- The level of the expressions whose operators, outside of parentheses, are above a bound. -/
def Level.above (bound : Int) : Level :=
  if bound ≤ 0 then .sum else if bound = 1 then .product else .factor

theorem level_eq_above (bound : Int) (whole : Bool) :
    (Goal.expression bound whole).level = Level.above bound := by
  unfold Goal.level Level.above
  by_cases h0 : bound ≤ 0
  · simp only [if_pos h0]
  · by_cases h1 : bound = 1
    · simp only [if_neg h0, if_pos h1, if_pos (Int.le_of_eq h1)]
    · have h2 : ¬bound ≤ 1 := by omega
      simp only [if_neg h0, if_neg h1, if_neg h2]

theorem precedence_lt_iff (bound : Int) (op : BinaryOp) :
    op.precedence < (Level.above bound).floor ↔ op.precedence ≤ bound := by
  have hle := level_floor_le_iff bound false op
  rw [level_eq_above] at hle
  omega

section Runs

variable {limit : Nat} {goal : Goal} {σ τ : Stage} {rest : List Char} {next : Option Symbol}
  {outcome : Except Cause Expr}

/-- Where the machine stops before a symbol or the end, that is the last token. -/
theorem current_of_verdict (ho : verdict limit goal σ rest = some outcome)
    (hnext : ahead rest = .ok next) (current : Option Token) (index : Nat) :
    (consume limit goal current σ rest index).current = some ⟨next, index⟩ := by
  cases rest with
  | nil =>
      cases hnext
      rfl
  | cons c rest =>
      cases hc : Symbol.classify c with
      -- A character that stands for nothing gives no token, so it is not ahead.
      | error fault =>
          rw [ahead, hc] at hnext
          cases hnext
      | ok s =>
          rw [ahead, hc] at hnext
          cases hnext
          rw [verdict_symbol limit goal σ rest hc] at ho
          rw [consume_stop current rest index hc rfl ho]
          rfl

theorem current_of_walk {v : List Char} (hw : Walk limit goal σ v τ)
    (ho : verdict limit goal τ rest = some outcome) (hnext : ahead rest = .ok next)
    (current : Option Token) (index : Nat) :
    (consume limit goal current σ (v ++ rest) index).current = some ⟨next, index + v.length⟩ := by
  induction hw generalizing current index with
  | stay σ => exact current_of_verdict ho hnext current index
  | @step σ _ _ c s w hc hs _ ih =>
      have hcurrent := ih ho (some ⟨some s, index⟩) (index + 1)
      rw [List.cons_append, consume_advance current (w ++ rest) index hc (Prod.ext rfl hs)]
      refine hcurrent.trans ?_
      rw [List.length_cons, Nat.add_assoc, Nat.add_comm 1]

/-- A tree is accepted only before a symbol that is no operator of its level. -/
theorem precedence_of_stops {e : Expr} (hs : Stops limit goal σ next outcome)
    (hok : outcome = .ok e) (op : BinaryOp) (hop : next = some (.operator op)) :
    op.precedence < goal.level.floor := by
  cases hs with
  | noTerm _ | tooDeep _ _ | missingClose _ _ _ _ => exact absurd hok nofun
  | operator _ _ hb =>
      cases hop
      exact hb
  | finished _ _ hn => exact absurd hop (hn op)

end Runs

/-- At a position of the source stands a sentence above a bound, and what is behind it can be
    read and is no operator above the bound. -/
structure SentenceAt (source : List Char) (i : Nat) (bound : Int) (v : List Char) (e : Expr) :
    Prop where
  /-- The sentence stands there. -/
  stands : source.drop i = v ++ source.drop (i + v.length)
  /-- It is a sentence above the bound, and this is its tree. -/
  derives : Derives (Level.above bound) v e
  /-- It ends before a symbol, or the end of the input, that it cannot go on with. -/
  ends : ∃ next, ahead (source.drop (i + v.length)) = .ok next ∧
    ∀ op, next = some (.operator op) → op.precedence ≤ bound

section Sentences

variable {limit : Nat} {source v v' : List Char} {i : Nat} {bound : Int} {e e' : Expr}

/-- A sentence that can be taken is taken, and after it the run is at the symbol behind it. -/
theorem consume_of_sentence (h : SentenceAt source i bound v e) (hlimit : v.length ≤ limit)
    (current : Option Token) :
    ∃ next, ahead (source.drop (i + v.length)) = .ok next ∧
      (consume limit (.expression bound false) current (.want []) (source.drop i) i).outcome =
        .ok e ∧
      (consume limit (.expression bound false) current (.want []) (source.drop i) i).current =
        some ⟨next, i + v.length⟩ ∧
      (consume limit (.expression bound false) current (.want []) (source.drop i) i).index =
        i + v.length + min 1 (source.drop (i + v.length)).length := by
  rcases h.ends with ⟨next, hnext, hend⟩
  -- The sentence is one of the goal's own level, and there is room for it.
  have hd := h.derives
  rw [← level_eq_above bound false] at hd
  have hroom : nesting [] + v.length ≤ limit := by
    rw [nesting_nil]
    omega
  -- What stands behind it joins no more: it binds as loosely as the bound or looser.
  have hbeyond : ∀ op, next = some (.operator op) →
      op.precedence < (Goal.expression bound false).level.floor := by
    intro op hop
    rw [level_eq_above]
    exact (precedence_lt_iff bound op).mpr (hend op hop)
  have hawaited : (awaited (.expression bound false) []).floor ≤
      (Goal.expression bound false).level.floor := Int.le_refl _
  -- The machine reads the sentence and settles on its tree before the next symbol.
  rcases reads_of_derives hd hawaited hroom with ⟨σ, e', p, hw, ho, hs⟩
  have hverdict : verdict limit (.expression bound false) σ (source.drop (i + v.length)) =
      some (.ok e) :=
    verdict_of_settles ho hs hnext hbeyond
  rcases consume_of_walk hw hverdict current i with ⟨hout, hindex⟩
  have hcurrent := current_of_walk hw hverdict hnext current i
  rw [h.stands]
  exact ⟨next, hnext, hout, hcurrent, hindex⟩

/-- What is accepted is the tree of a sentence that can be taken. -/
theorem sentence_of_consume {current : Option Token}
    (h : (consume limit (.expression bound false) current (.want []) (source.drop i) i).outcome =
      .ok e) : ∃ v, SentenceAt source i bound v e := by
  -- The run is a walk up to its verdict, and what was read is the sentence.
  rcases exists_walk limit (.expression bound false) (.want []) (source.drop i) with
    ⟨v, rest, τ, outcome, hsplit, hw, ho⟩
  rw [hsplit, (consume_of_walk hw ho current i).1] at h
  have hrest : source.drop (i + v.length) = rest := by
    rw [← List.drop_drop, hsplit, List.drop_left]
  have hspells := stageSpells_of_walk hw (StageSpells.want Spells.nil)
  rcases stops_of_verdict ho with ⟨c, rest', fault, _, _, hbad⟩ | ⟨next, hnext, hs⟩
  · -- A verdict by a character that stands for nothing is no success.
    rw [hbad] at h
    exact absurd h nofun
  · -- The rules that the machine stops by say the same as the grammar at this level.
    have hd := (derives_of_stops hspells hs h).1
    rw [level_eq_above] at hd
    refine ⟨v, ?_, hd, next, ?_, fun op hop => ?_⟩
    · rw [hrest]
      exact hsplit
    · rw [hrest]
      exact hnext
    · have hlt := precedence_of_stops hs h op hop
      rw [level_eq_above] at hlt
      exact (precedence_lt_iff bound op).mp hlt

/-- There is one sentence that can be taken: the token behind it has one place. -/
theorem sentenceAt_unique (h : SentenceAt source i bound v e)
    (h' : SentenceAt source i bound v' e') : v = v' ∧ e = e' := by
  rcases consume_of_sentence h (Nat.le_max_left v.length v'.length) none with
    ⟨next, -, hout, hcurrent, -⟩
  rcases consume_of_sentence h' (Nat.le_max_right v.length v'.length) none with
    ⟨next', -, hout', hcurrent', -⟩
  have htoken := Option.some.inj (hcurrent.symm.trans hcurrent')
  have hlength : v.length = v'.length := Nat.add_left_cancel (congrArg Token.pos htoken)
  have hv := h.stands.symm.trans h'.stands
  exact ⟨(List.append_inj hv hlength).1, Except.ok.inj (hout.symm.trans hout')⟩

end Sentences

namespace Reader

variable {r : Reader} {next : Option Symbol}

/-- Where a symbol or the end is ahead, this is the next token, at the cursor. -/
theorem advance_of_ahead (hr : r.index ≤ r.source.length) (h : ahead r.remaining = .ok next) :
    r.advance = (.ok ⟨next, r.index⟩, { r with index := r.index + min 1 r.remaining.length }) := by
  rw [advance]
  cases hremaining : r.remaining with
  | nil =>
      rw [hremaining] at h
      cases h
      -- Nothing remains at the end of the source and nowhere else.
      rw [remaining, List.drop_eq_nil_iff, String.length_toList] at hremaining
      have hend : r.source.length = r.index := Nat.le_antisymm hremaining hr
      simp only [hend]
      rfl
  | cons c rest =>
      rw [hremaining] at h
      have hone : min 1 (c :: rest).length = 1 := Nat.min_eq_left (Nat.le_add_left 1 rest.length)
      cases hc : Symbol.classify c with
      | error fault =>
        rw [ahead, hc] at h
        cases h
      | ok s =>
        rw [ahead, hc] at h
        cases h
        simp only [hc, hone]

/-- A token can be taken only where a symbol or the end is ahead. -/
theorem ahead_of_advance {token : Token} {r' : Reader} (h : r.advance = (.ok token, r')) :
    ∃ next, ahead r.remaining = .ok next := by
  -- The reader fails at a character that stands for nothing.
  rw [advance] at h
  cases hremaining : r.remaining with
  | nil => exact ⟨none, rfl⟩
  | cons c rest =>
      cases hc : Symbol.classify c with
      | error fault =>
        simp only [hremaining, hc, Prod.mk.injEq, reduceCtorEq, false_and] at h
      | ok s =>
        refine ⟨some s, ?_⟩
        rw [ahead, hc]
        rfl

end Reader

/-- The token that is being looked at is the one at a position of the source, or the end of
    the input behind the last one, and the cursor is just past it. -/
structure Parser.LooksAt (p : Parser) (i : Nat) : Prop where
  /-- The position is one of the source. -/
  within : i ≤ p.reader.source.length
  /-- Reading there gives the token and takes the cursor to where it is. -/
  reads : ∃ token, p.current = some token ∧
    ({ p.reader with index := i } : Reader).advance = (.ok token, p.reader)

namespace Parser

variable {limit : Nat} {p : Parser} {i : Nat}

/-- The token at a position, told by what stands there. -/
theorem looksAt_iff : p.LooksAt i ↔ i ≤ p.reader.source.length ∧
    ∃ next, ahead (p.reader.source.toList.drop i) = .ok next ∧ p.current = some ⟨next, i⟩ ∧
      p.reader = { p.reader with
        index := i + min 1 (p.reader.source.toList.drop i).length } := by
  constructor
  · -- The token was read there, so the reader stands behind it.
    rintro ⟨hi, token, hcurrent, hadvance⟩
    rcases Reader.ahead_of_advance hadvance with ⟨next, hnext⟩
    rw [Reader.advance_of_ahead hi hnext, Prod.mk.injEq, Except.ok.injEq] at hadvance
    rcases hadvance with ⟨rfl, hreader⟩
    exact ⟨hi, next, hnext, hcurrent, hreader.symm⟩
  · rintro ⟨hi, next, hnext, hcurrent, hreader⟩
    -- The reader is where it would be after that token was read.
    refine ⟨hi, ⟨next, i⟩, hcurrent, ?_⟩
    rw [hreader]
    exact Reader.advance_of_ahead hi hnext

/-- A token that has been read makes no difference: the request is a walk over what remains
    from that token on, apart from what is reported about reading the token. -/
theorem pursue_of_looksAt (limit : Nat) (h : p.LooksAt i) (goal : Goal) :
    ∃ log, p.pursue limit goal = p.settle
      { consume limit goal none (.want []) (p.reader.source.toList.drop i) i with log } := by
  rcases looksAt_iff.mp h with ⟨hi, next, hnext, hcurrent, hreader⟩
  have hindex : p.reader.index = i + min 1 (p.reader.source.toList.drop i).length :=
    congrArg Reader.index hreader
  rw [pursue, hcurrent]
  -- The token that was read is the end, or it is the character that has been passed.
  cases hdrop : p.reader.source.toList.drop i with
  | nil =>
      rw [hdrop] at hnext hindex
      cases hnext
      -- At the end there was nothing to pass, and the run concludes at once.
      have hend : p.reader.index = i := hindex
      rw [hend]
      exact ⟨_, rfl⟩
  | cons c rest =>
      rw [hdrop] at hnext hindex
      have hone : min 1 (c :: rest).length = 1 := Nat.min_eq_left (Nat.le_add_left 1 rest.length)
      -- The cursor is one behind, and what remains begins after the character.
      have hpast : p.reader.index = i + 1 := by
        rw [hindex, hone]
      have hrest : p.reader.remaining = rest := by
        rw [Reader.remaining, hpast, ← List.drop_drop, hdrop]
        rfl
      cases hc : Symbol.classify c with
      | error fault =>
        rw [ahead, hc] at hnext
        cases hnext
      | ok s =>
        rw [ahead, hc] at hnext
        cases hnext
        -- The resumed run responds to the symbol as a run does that comes to its character.
        rw [hrest, hpast]
        simp only [resume]
        rcases hs : respond limit goal (.want []) s with ⟨log, move⟩
        cases move with
        | advance τ =>
          rw [consume_advance none rest i hc hs]
          exact ⟨_, rfl⟩
        | accept e | refuse cause =>
          rw [consume_stop none rest i hc hs rfl]
          exact ⟨_, rfl⟩

/-- The limit on nesting is not what a request for an expression above a bound is refused
    for. -/
def AmpleAbove (limit : Nat) (p : Parser) (bound : Int) : Prop :=
  ∀ err, (p.expression limit bound false).answer = .error err → err.cause ≠ .tooDeep

section Requests

variable {bound : Int} {v : List Char} {e : Expr}

/-- The walk over what remains from the token on that is being looked at. -/
def walkFrom (limit : Nat) (p : Parser) (i : Nat) (bound : Int) : Run :=
  consume limit (.expression bound false) none (.want []) (p.reader.source.toList.drop i) i

/-- The answer of a request is what the walk comes to, and it leaves the parser where the walk
    ends. -/
theorem expression_of_looksAt (h : p.LooksAt i) (bound : Int) :
    (p.expression limit bound false).answer = (p.walkFrom limit i bound).outcome.mapError
        ({ p.reader with index := (p.walkFrom limit i bound).index } : Reader).fail ∧
      (p.expression limit bound false).parser =
        { p with
          reader := { p.reader with index := (p.walkFrom limit i bound).index }
          current := (p.walkFrom limit i bound).current } := by
  rcases pursue_of_looksAt limit h (.expression bound false) with ⟨log, heq⟩
  rw [expression, heq]
  exact ⟨rfl, rfl⟩

theorem answer_eq_ok_iff (h : p.LooksAt i) :
    (p.expression limit bound false).answer = .ok e ↔
      (p.walkFrom limit i bound).outcome = .ok e := by
  rw [(expression_of_looksAt h bound).1]
  cases (p.walkFrom limit i bound).outcome with
  | ok e' =>
    have hanswer : ∀ f : Cause → ParseError,
        (Except.ok e' : Except Cause Expr).mapError f = .ok e' := fun _ => rfl
    rw [hanswer, Except.ok.injEq, Except.ok.injEq]
  | error cause =>
    constructor
    · -- Neither the parse nor the walk has succeeded.
      intro h
      cases h
    · intro h
      cases h

theorem ampleAbove_iff (h : p.LooksAt i) :
    p.AmpleAbove limit bound ↔ (p.walkFrom limit i bound).outcome ≠ .error .tooDeep := by
  unfold AmpleAbove
  rw [(expression_of_looksAt h bound).1]
  -- Only an error can be the one that tells of the depth.
  cases (p.walkFrom limit i bound).outcome with
  | ok e => exact iff_of_true nofun nofun
  | error cause =>
    constructor
    · intro hample hdeep
      exact hample _ rfl (Except.error.inj hdeep)
    · rintro hne err herr hdeep
      rw [← Except.error.inj herr] at hdeep
      exact hne (congrArg Except.error hdeep)

/-- Under an ample limit the walk takes every sentence that can be taken: it is the walk under
    a limit that is as great as the sentence is long. -/
theorem walkFrom_of_sentence (h : p.LooksAt i) (hample : p.AmpleAbove limit bound)
    (hs : SentenceAt p.reader.source.toList i bound v e) :
    ∃ next, ahead (p.reader.source.toList.drop (i + v.length)) = .ok next ∧
      (p.walkFrom limit i bound).outcome = .ok e ∧
      (p.walkFrom limit i bound).current = some ⟨next, i + v.length⟩ ∧
      (p.walkFrom limit i bound).index =
        i + v.length + min 1 (p.reader.source.toList.drop (i + v.length)).length := by
  have hmax : p.walkFrom (max limit v.length) i bound = p.walkFrom limit i bound :=
    consume_mono (Nat.le_max_left limit v.length) _ _ _ _ _ ((ampleAbove_iff h).mp hample)
  rw [← hmax]
  exact consume_of_sentence hs (Nat.le_max_right limit v.length) none

theorem expression_eq_ok_iff (h : p.LooksAt i) (hample : p.AmpleAbove limit bound) :
    (p.expression limit bound false).answer = .ok e ↔
      ∃ v, SentenceAt p.reader.source.toList i bound v e := by
  rw [answer_eq_ok_iff h]
  refine ⟨sentence_of_consume, ?_⟩
  rintro ⟨v, hs⟩
  rcases walkFrom_of_sentence h hample hs with ⟨next, -, hout, -, -⟩
  exact hout

/-- After a request the parser looks at the token behind the sentence that was taken. -/
theorem looksAt_expression (h : p.LooksAt i) (hample : p.AmpleAbove limit bound)
    (hs : SentenceAt p.reader.source.toList i bound v e) :
    (p.expression limit bound false).parser.LooksAt (i + v.length) := by
  rcases walkFrom_of_sentence h hample hs with ⟨next, hnext, -, hcurrent, hindex⟩
  have hi := h.within
  have hlength := congrArg List.length hs.stands
  simp only [List.length_append, List.length_drop, String.length_toList] at hlength
  have hwithin : i + v.length ≤ p.reader.source.length := by omega
  rw [(expression_of_looksAt h bound).2, looksAt_iff]
  refine ⟨hwithin, next, hnext, hcurrent, ?_⟩
  rw [hindex]

theorem ampleAbove_of_length_le (h : p.LooksAt i) (hlimit : p.reader.source.length ≤ limit) :
    p.AmpleAbove limit bound := by
  have hrest : (p.reader.source.toList.drop i).length ≤ limit := by
    rw [List.length_drop, String.length_toList]
    exact Nat.le_trans (Nat.sub_le _ _) hlimit
  exact (ampleAbove_iff h).mpr (consume_ne_tooDeep hrest none i)

end Requests

end Parser

/-- From a token that stands anywhere in the source, a parser that is asked for an expression
    above a bound takes the one sentence above the bound that begins there and ends where it
    cannot go on. If there is none it fails. Afterwards it looks at the token behind the
    sentence. The limit has to be ample, and the length of the source is. -/
theorem expression_takes_sentence (limit : Nat) (p : Parser) (i : Nat) (bound : Int)
    (hlooks : p.LooksAt i) :
    (p.reader.source.length ≤ limit → p.AmpleAbove limit bound) ∧
    (p.AmpleAbove limit bound →
      (∀ e, (p.expression limit bound false).answer = .ok e ↔
        ∃ v, SentenceAt p.reader.source.toList i bound v e) ∧
      (∀ v e, SentenceAt p.reader.source.toList i bound v e →
        (∀ v' e', SentenceAt p.reader.source.toList i bound v' e' → v = v' ∧ e = e') ∧
        (p.expression limit bound false).parser.LooksAt (i + v.length) ∧
        (p.expression limit bound false).parser.reader.source = p.reader.source)) := by
  refine ⟨Parser.ampleAbove_of_length_le hlooks, fun hample => ⟨fun e => ?_, fun v e hs => ?_⟩⟩
  · exact Parser.expression_eq_ok_iff hlooks hample
  · refine ⟨fun v' e' hs' => sentenceAt_unique hs hs',
      Parser.looksAt_expression hlooks hample hs, ?_⟩
    rw [(Parser.expression_of_looksAt hlooks bound).2]

/-- A parser that has read three tokens looks at the third of them. Above the bound 1 it takes
    a product from there, and it stops before what no product can go on with. -/
theorem expression_takes_product :
    (Parser.ofSource "a+b*c)" .html).advance.parser.advance.parser.advance.parser.LooksAt 2 ∧
    ((Parser.ofSource "a+b*c)" .html).advance.parser.advance.parser.advance.parser.expression
      6 1 false).answer = .ok (.connect .conj (.symbol 'b') (.symbol 'c')) ∧
    ((Parser.ofSource "a+b*c)" .html).advance.parser.advance.parser.advance.parser.expression
      6 1 false).parser.LooksAt 5 := by
  -- The three tokens are read, and the rest follows from the theorem.
  have hlooks : (Parser.ofSource "a+b*c)"
      .html).advance.parser.advance.parser.advance.parser.LooksAt 2 :=
    ⟨by decide, ⟨some (.identifier 'b'), 2⟩, rfl, rfl⟩
  have hb : Derives .factor ['b'] (.symbol 'b') := Derives.leaf (by decide)
  have hc : Derives .factor ['c'] (.symbol 'c') := Derives.leaf (by decide)
  have hsentence : SentenceAt "a+b*c)".toList 2 1 ['b', '*', 'c']
      (.connect .conj (.symbol 'b') (.symbol 'c')) :=
    ⟨by decide, Derives.conj (Derives.factor hb) hc, some .closeParen, by rfl, nofun⟩
  rcases expression_takes_sentence 6 _ 2 1 hlooks with ⟨hlimit, htakes⟩
  rcases htakes (hlimit (by decide)) with ⟨hanswer, hafter⟩
  exact ⟨hlooks, (hanswer _).mpr ⟨_, hsentence⟩, (hafter _ _ hsentence).2.1⟩

end BoolCalc
