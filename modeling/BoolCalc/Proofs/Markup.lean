import BoolCalc.Proofs.Addresses
import BoolCalc.Render.Html

/-!
# Reading the Markup Back

Nothing of a tree is lost when it is written as nested HTML tables.

The markup does not say how long the block of an operand is, and the padding may be
empty, so where a block ends has to follow from the block itself. It does, because what is
escaped holds none of the characters that delimit it. The text of a span ends before the
next tag, and a tag says by its second character whether it belongs to a leaf or to an
operator. If two blocks with something behind them are equal, then their trees are equal,
and so is what stands behind them (`htmlLines_append_injective`). This is what the
induction over the tree needs: it uses up the block of one operand and goes on behind it.

The spans can be read without any knowledge of the tables around them. `spans` looks for
the beginning of a span at every place of a text. That a piece of the markup shows
certain spans and no others, whatever comes behind it, is `Emits`. It is kept when
pieces are put together, and this is why it speaks about what comes behind: a piece that
ended in the middle of a tag could show a span together with the next piece.

## Main definitions

* `unescapeHtml`: A text with its entities replaced.
* `spans`: The addresses and symbols that the spans of a text show.
* `Emits`, `Shows`: The spans of a piece of markup and of lines.

## Theorems

* `unescapeHtml_flatMap`, `escapeHtml_injective`: Escaping can be undone.
* `emits_span`: A span shows itself.
* `spans_html`: The markup shows the nodes of the tree in the order of the index.
* `htmlLines_append_injective`: A block determines its tree and where it ends.
* `html_lossless`: All of this for the whole markup.
-/

namespace BoolCalc

/-- The characters of a text in which entities stand for what delimits markup. -/
def unescapeHtml : List Char → List Char
  | '&' :: 'a' :: 'm' :: 'p' :: ';' :: rest => '&' :: unescapeHtml rest
  | '&' :: 'l' :: 't' :: ';' :: rest => '<' :: unescapeHtml rest
  | '&' :: 'g' :: 't' :: ';' :: rest => '>' :: unescapeHtml rest
  | '&' :: 'q' :: 'u' :: 'o' :: 't' :: ';' :: rest => '"' :: unescapeHtml rest
  | '&' :: '#' :: 'x' :: '2' :: '7' :: ';' :: rest => '\'' :: unescapeHtml rest
  | c :: rest => c :: unescapeHtml rest
  | [] => []

/-- What begins with no ampersand begins with no entity. -/
theorem unescapeHtml_cons {c : Char} (hc : c ≠ '&') (rest : List Char) :
    unescapeHtml (c :: rest) = c :: unescapeHtml rest := by
  conv_lhs => unfold unescapeHtml
  -- The five entities all begin with an ampersand.
  split
  iterate 5
    rename_i heq
    exact absurd (List.cons.inj heq).1 hc
  · rename_i heq
    rw [(List.cons.inj heq).1, (List.cons.inj heq).2]
  · rename_i heq
    exact absurd heq (List.cons_ne_nil c rest)

/-- An escaped character is read back as itself. -/
theorem unescapeHtml_escapeHtmlChar (c : Char) (rest : List Char) :
    unescapeHtml (escapeHtmlChar c ++ rest) = c :: unescapeHtml rest := by
  unfold escapeHtmlChar
  -- Each character that is escaped is one of the entities.
  split_ifs with hamp hlt hgt hquot hapos
  · rw [hamp]
    rfl
  · rw [hlt]
    rfl
  · rw [hgt]
    rfl
  · rw [hquot]
    rfl
  · rw [hapos]
    rfl
  · exact unescapeHtml_cons hamp rest

theorem unescapeHtml_flatMap (cs : List Char) :
    unescapeHtml (cs.flatMap escapeHtmlChar) = cs := by
  induction cs with
  | nil => rfl
  | cons c cs ih => rw [List.flatMap_cons, unescapeHtml_escapeHtmlChar, ih]

theorem toList_escapeHtml (s : String) :
    (escapeHtml s).toList = s.toList.flatMap escapeHtmlChar :=
  String.toList_ofList

/-- Escaping merges no two texts. -/
theorem escapeHtml_injective : Function.Injective escapeHtml := by
  intro s s' h
  have hchars := congrArg (fun t => unescapeHtml t.toList) h
  simp only [toList_escapeHtml, unescapeHtml_flatMap] at hchars
  exact String.toList_injective hchars

/-- Whether a character delimits a tag or a quoted address. -/
def isDelimiter (c : Char) : Bool := c = '<' || c = '>' || c = '"'

/-- An escaped text holds nothing that could delimit it. -/
theorem not_mem_escapeHtml {d : Char} (hd : isDelimiter d = true) (s : String) :
    d ∉ (escapeHtml s).toList := by
  rw [toList_escapeHtml, List.mem_flatMap]
  rintro ⟨c, -, hc⟩
  simp only [isDelimiter, Bool.or_eq_true, decide_eq_true_eq] at hd
  unfold escapeHtmlChar at hc
  -- An entity has none of them, and a character that stays as it is was tested.
  split_ifs at hc with hamp hlt hgt hquot hapos
  iterate 5
    rcases hd with (rfl | rfl) | rfl <;> exact absurd hc (by decide)
  · rw [List.mem_singleton] at hc
    subst hc
    rcases hd with (rfl | rfl) | rfl
    · exact hlt rfl
    · exact hgt rfl
    · exact hquot rfl

section Delimited

variable {d : Char} {u u' v v' : List Char}

theorem takeWhile_before (h : d ∉ u) : (u ++ d :: v).takeWhile (· ≠ d) = u := by
  rw [List.takeWhile_append_of_pos]
  · simp only [ne_eq, not_true_eq_false, decide_false, Bool.false_eq_true, not_false_eq_true,
      List.takeWhile_cons_of_neg, List.append_nil]
  · intro c hc
    exact decide_eq_true (ne_of_mem_of_not_mem hc h)

theorem dropWhile_before (h : d ∉ u) : (u ++ d :: v).dropWhile (· ≠ d) = d :: v := by
  rw [List.dropWhile_append_of_pos]
  · simp only [ne_eq, not_true_eq_false, decide_false, Bool.false_eq_true, not_false_eq_true,
      List.dropWhile_cons_of_neg]
  · intro c hc
    exact decide_eq_true (ne_of_mem_of_not_mem hc h)

/-- What ends before the same delimiter is the same. -/
theorem eq_of_delimited (h : d ∉ u) (h' : d ∉ u') (heq : u ++ d :: v = u' ++ d :: v') :
    u = u' ∧ v = v' := by
  have htake := congrArg (List.takeWhile (· ≠ d)) heq
  have hdrop := congrArg (List.dropWhile (· ≠ d)) heq
  rw [takeWhile_before h, takeWhile_before h'] at htake
  rw [dropWhile_before h, dropWhile_before h'] at hdrop
  exact ⟨htake, List.tail_eq_of_cons_eq hdrop⟩

end Delimited

/-- The beginning of a span, up to its address. -/
def spanOpening : List Char := ['<', 's', 'p', 'a', 'n', ' ', 'i', 'd', '=', '"']

/-- The address that stands before the next quotation mark, and the text that stands
    behind the tag. -/
def readSpan (cs : List Char) : String × String :=
  (String.ofList (cs.takeWhile (· ≠ '"')),
    String.ofList (((cs.dropWhile (· ≠ '>')).drop 1).takeWhile (· ≠ '<')))

/-- What the spans of a text show, wherever they begin, from the top to the bottom. -/
def spans : List Char → List (String × String)
  | [] => []
  | c :: rest =>
    if spanOpening.isPrefixOf (c :: rest) then
      readSpan ((c :: rest).drop spanOpening.length) :: spans rest
    else spans rest

theorem spans_cons_of_not_prefix {c : Char} {rest : List Char}
    (h : spanOpening.isPrefixOf (c :: rest) = false) : spans (c :: rest) = spans rest := by
  rw [spans, h]
  rfl

theorem spans_opening (rest : List Char) :
    spans (spanOpening ++ rest) = readSpan rest :: spans (spanOpening.tail ++ rest) := by
  rfl

/-- A piece of markup has certain spans and no others, whatever comes behind it. -/
def Emits (u : List Char) (found : List (String × String)) : Prop :=
  ∀ v, spans (u ++ v) = found ++ spans v

theorem emits_append {u v : List Char} {found more : List (String × String)}
    (hu : Emits u found) (hv : Emits v more) : Emits (u ++ v) (found ++ more) := by
  intro w
  rw [List.append_assoc, hu, hv, List.append_assoc]

/-- Where no tag begins there is no span. -/
theorem emits_plain {u : List Char} (h : '<' ∉ u) : Emits u [] := by
  intro v
  induction u with
  | nil => rfl
  | cons c u ih =>
      rw [List.mem_cons, not_or] at h
      have hprefix : spanOpening.isPrefixOf (c :: (u ++ v)) = false := by
        rw [spanOpening, List.isPrefixOf, beq_eq_false_iff_ne.mpr h.1, Bool.false_and]
      rw [List.cons_append, spans_cons_of_not_prefix hprefix, ih h.2]

/-- Whether a text is a single tag, and not one of a span. -/
def isOtherTag : List Char → Bool
  | '<' :: c :: u => c ≠ 's' && !(c :: u).contains '<'
  | _ => false

/-- A tag of another name is no span. -/
theorem emits_otherTag {u : List Char} (h : isOtherTag u = true) : Emits u [] := by
  unfold isOtherTag at h
  split at h
  · -- The bracket is not followed by the letter that a span begins with.
    rename_i c u
    simp only [ne_eq, decide_not, Bool.and_eq_true, Bool.not_eq_true', decide_eq_false_iff_not,
      List.contains_eq_mem] at h
    intro v
    have hprefix : spanOpening.isPrefixOf ('<' :: c :: (u ++ v)) = false := by
      rw [spanOpening, List.isPrefixOf, List.isPrefixOf, beq_eq_false_iff_ne.mpr (Ne.symm h.1),
        Bool.false_and, Bool.and_false]
    rw [List.cons_append, List.cons_append, spans_cons_of_not_prefix hprefix]
    exact emits_plain h.2 v
  · exact absurd h nofun

/-- What stands in a span between its address and the end of its tag. -/
def spanClass (kind : NodeKind) : List Char :=
  [' ', 'c', 'l', 'a', 's', 's', '=', '"'] ++ kind.name.toList ++ ['"']

/-- A span by what delimits its address and its text. -/
theorem toList_span (id : String) (kind : NodeKind) (symbol : String) :
    (Drawn.span id kind symbol).toList = spanOpening ++ ((escapeHtml id).toList ++ '"' ::
      (spanClass kind ++ '>' :: ((escapeHtml symbol).toList ++
        '<' :: ['/', 's', 'p', 'a', 'n', '>']))) := by
  unfold Drawn.span
  simp only [spanOpening, spanClass, String.toList_append, String.reduceToList,
    List.append_assoc, List.cons_append, List.nil_append]

/-- Where nothing delimits the address, the class and the text but what stands between
    them, they are read as they are. -/
theorem readSpan_delimited {a m t w : List Char} (ha : '"' ∉ a) (hm : '>' ∉ a ++ '"' :: m)
    (ht : '<' ∉ t) : readSpan (a ++ '"' :: (m ++ '>' :: (t ++ '<' :: w))) =
      (String.ofList a, String.ofList t) := by
  have hdrop : (a ++ '"' :: (m ++ '>' :: (t ++ '<' :: w))).dropWhile (· ≠ '>') =
      '>' :: (t ++ '<' :: w) := by
    rw [← List.cons_append, ← List.append_assoc]
    exact dropWhile_before hm
  rw [readSpan, takeWhile_before ha, hdrop, List.drop_succ_cons, List.drop_zero,
    takeWhile_before ht]

/-- A span shows its own address and its own text, both escaped. -/
theorem emits_span (id : String) (kind : NodeKind) (symbol : String) :
    Emits (Drawn.span id kind symbol).toList [(escapeHtml id, escapeHtml symbol)] := by
  have hclass : '<' ∉ spanClass kind ∧ '>' ∉ spanClass kind := by
    cases kind with
    | constant | unaryOperator | binaryOperator => decide
  have hquote : '"' ∉ (escapeHtml id).toList := not_mem_escapeHtml rfl id
  have htext : '<' ∉ (escapeHtml symbol).toList := not_mem_escapeHtml rfl symbol
  have htag : '>' ∉ (escapeHtml id).toList ++ '"' :: spanClass kind := by
    simp only [List.mem_append, List.mem_cons, not_or]
    exact ⟨not_mem_escapeHtml rfl id, by decide, hclass.2⟩
  -- Behind its beginning a span has no tag but the closing one.
  have hrest : '<' ∉ spanOpening.tail ++ ((escapeHtml id).toList ++ '"' ::
      (spanClass kind ++ '>' :: (escapeHtml symbol).toList)) := by
    simp only [List.mem_append, List.mem_cons, not_or]
    exact ⟨by decide, not_mem_escapeHtml rfl id, by decide, hclass.1, by decide, htext⟩
  have hclose : Emits ('<' :: ['/', 's', 'p', 'a', 'n', '>']) [] := emits_otherTag rfl
  intro v
  have htail := emits_append (emits_plain hrest) hclose v
  have hread := readSpan_delimited (w := ['/', 's', 'p', 'a', 'n', '>'] ++ v) hquote htag htext
  simp only [List.append_assoc, List.cons_append, List.nil_append] at htail hread
  rw [toList_span]
  simp only [List.append_assoc, List.cons_append, List.nil_append]
  rw [spans_opening, hread, htail, String.ofList_toList, String.ofList_toList]

/-- The spans of lines are those of one line after the other. -/
inductive Shows : List String → List (String × String) → Prop
  | nil : Shows [] []
  | cons {line : String} {lines : List String} {found more : List (String × String)}
      (h : Emits line.toList found) (hs : Shows lines more) : Shows (line :: lines) (found ++ more)

theorem shows_append {lines lines' : List String} {found more : List (String × String)}
    (h : Shows lines found) (h' : Shows lines' more) : Shows (lines ++ lines') (found ++ more) := by
  induction h with
  | nil => exact h'
  | cons hline _ ih =>
      rw [List.append_assoc]
      exact Shows.cons hline ih

theorem shows_blank {line : String} {lines : List String} {found : List (String × String)}
    (h : Emits line.toList []) (hs : Shows lines found) : Shows (line :: lines) found :=
  Shows.cons h hs

/-- Between the lines of a text there is no span. -/
theorem emits_joinWith {lines : List String} {found : List (String × String)}
    (h : Shows lines found) : Emits (Text.joinWith "\n" lines).toList found := by
  rw [Text.toList_joinWith]
  induction h with
  | nil => exact emits_plain List.not_mem_nil
  -- The break between two lines is plain text.
  | @cons line lines found more hline hs ih =>
      cases lines with
      | nil =>
          cases hs with
          -- The last line has no break behind it.
          | nil =>
            rw [List.append_nil]
            exact hline
      | cons next lines =>
          have hbreak := emits_append hline (emits_plain (u := "\n".toList) (by decide))
          rw [List.append_nil] at hbreak
          exact emits_append hbreak ih

namespace Drawn

section Spans

variable {padding : String} (hpadding : '<' ∉ padding.toList)
include hpadding

/-- The indentation of a line has no span. -/
theorem emits_indented (level : Int) {line : String} {found : List (String × String)}
    (h : Emits line.toList found) : Emits (indentation padding level ++ line).toList found := by
  have hindent : '<' ∉ (indentation padding level).toList := by
    rw [indentation, Text.toList_repeatText, List.mem_flatten]
    rintro ⟨cs, hcs, hmem⟩
    rw [List.eq_of_mem_replicate hcs] at hmem
    exact hpadding hmem
  rw [String.toList_append]
  exact emits_append (emits_plain hindent) h

/-- An operator shows its own span, and then those of its operands. -/
theorem shows_operatorLines (level : Int) {span : String} {node : String × String}
    (hspan : Emits span.toList [node]) (header : String)
    (hheader : isOtherTag ("<th" ++ header ++ ">").toList = true)
    {operands : List (List String)} {found : List (List (String × String))}
    (hops : List.Forall₂ Shows operands found) :
    Shows (operatorLines padding level span header operands) (node :: found.flatten) := by
  -- Every line but that of the operator is a tag.
  have htag : ∀ (extra : Int) (tag : String), isOtherTag tag.toList = true →
      Emits (indentation padding (level + extra) ++ tag).toList [] :=
    fun extra _ h => emits_indented hpadding (level + extra) (emits_otherTag h)
  have hth : Emits ("<th" ++ header ++ ">" ++ span ++ "</th>").toList [node] := by
    rw [String.toList_append, String.toList_append]
    exact emits_append (emits_append (emits_otherTag hheader) hspan) (emits_otherTag rfl)
  have hcells : Shows (operands.flatMap fun lines =>
      (indentation padding (level + 2) ++ "<td valign=\"top\">") :: lines ++
        [indentation padding (level + 2) ++ "</td>"]) found.flatten := by
    induction hops with
    | nil => exact Shows.nil
    | cons hop _ ih =>
        have hend := shows_blank (htag 2 "</td>" rfl) Shows.nil
        have hcell := shows_append (shows_blank (htag 2 "<td valign=\"top\">" rfl) hop) hend
        rw [List.append_nil] at hcell
        exact shows_append hcell ih
  have hend := shows_blank (htag 1 "</tr>" rfl)
    (shows_blank (htag 0 "</table>" rfl) Shows.nil)
  have hhead := shows_blank (htag 0 "<table cellpadding=\"1\" cellspacing=\"1\">" rfl)
    (shows_blank (htag 1 "<tr>" rfl)
      (Shows.cons (emits_indented hpadding (level + 2) hth)
        (shows_blank (htag 1 "</tr>" rfl) (shows_blank (htag 1 "<tr>" rfl)
          Shows.nil))))
  have hall := shows_append (shows_append hhead hcells) hend
  rw [List.append_nil] at hall
  exact hall

/-- The lines of a drawn tree show its nodes in the order of their addresses. -/
theorem shows_htmlLines (t : Expr) (id : String) (level : Int) :
    Shows ((t.draw id).htmlLines padding level)
      ((addressed id t.nodes).map fun node => (escapeHtml node.1, escapeHtml node.2.label)) := by
  -- The induction is on the tree, whose operands are drawn three levels further in.
  induction t generalizing id level with
  | terminal symbol =>
      rw [addressed_nodes, List.map_cons]
      exact Shows.cons (emits_indented hpadding level (emits_span id .constant symbol)) Shows.nil
  | unary op operand ih =>
      -- The operand's lines follow the operator's span, and the cell around them shows
      -- nothing.
      rw [addressed_nodes, addressed_unary, List.map_cons]
      have hops := List.Forall₂.cons (ih (Expr.operandOf id) (level + 3)) List.Forall₂.nil
      have hall := shows_operatorLines hpadding level (emits_span id .unaryOperator op) ""
        rfl hops
      rw [List.flatten_singleton] at hall
      exact hall
  | binary op left right ihl ihr =>
      rw [addressed_nodes, addressed_binary, List.map_cons, List.map_append]
      have hops := List.Forall₂.cons (ihl (Expr.leftOf id) (level + 3))
        (List.Forall₂.cons (ihr (Expr.rightOf id) (level + 3)) List.Forall₂.nil)
      have hall := shows_operatorLines hpadding level (emits_span id .binaryOperator op)
        " colspan=\"2\"" rfl hops
      rw [List.flatten_cons, List.flatten_singleton] at hall
      exact hall

end Spans

end Drawn

/-- The spans of the markup of a tree show its nodes, in the order of the index. -/
theorem spans_html {padding : String} (hpadding : '<' ∉ padding.toList) (t : Expr) (id : String)
    (level : Int) : spans (t.html id padding level).toList =
      (t.nodeIndex id).entries.map fun node => (escapeHtml node.1, escapeHtml node.2.label) := by
  have hall := emits_joinWith (Drawn.shows_htmlLines hpadding t id level) []
  rw [List.append_nil, spans, List.append_nil] at hall
  rw [Expr.html, hall, Expr.entries_nodeIndex]

/-- A text that is escaped ends before the tag behind it. -/
theorem eq_of_escaped {s s' : String} {u u' : List Char}
    (h : (escapeHtml s).toList ++ '<' :: u = (escapeHtml s').toList ++ '<' :: u') :
    s = s' ∧ u = u' := by
  rcases eq_of_delimited (not_mem_escapeHtml rfl s) (not_mem_escapeHtml rfl s') h with ⟨hs, hu⟩
  exact ⟨escapeHtml_injective (String.toList_injective hs), hu⟩

/-- All lines of a text are ended but the last. -/
theorem toList_joinWith_break {lines : List String} (h : lines ≠ []) :
    (Text.joinWith "\n" lines).toList ++ ['\n'] = (Text.unlines lines).toList := by
  rw [Text.toList_joinWith, Text.toList_unlines]
  induction lines with
  -- Only a text without lines lacks the last break.
  | nil => exact absurd rfl h
  | cons line lines ih =>
      cases lines with
      | nil => rw [List.map_singleton, Text.joinChars, List.flatMap_singleton]
      | cons next lines =>
          rw [List.map_cons] at ih
          rw [List.map_cons, List.map_cons, Text.joinChars, List.append_assoc,
            ih (List.cons_ne_nil next lines), List.flatMap_cons]
          rfl

namespace Drawn

/-- The text of an operator: what is put around its span and its operands does not depend
    on them, and it begins with another tag than a span. -/
theorem exists_frame (padding : String) (level : Int) : ∃ head between cell uncell after,
    (∃ rest, head = (indentation padding level).toList ++ '<' :: 't' :: rest) ∧
    ∀ (span header : String) (operands : List (List String)),
      (Text.unlines (operatorLines padding level span header operands)).toList =
        head ++ (header.toList ++ '>' :: (span.toList ++ (between ++
          ((operands.flatMap fun lines => cell ++ ((Text.unlines lines).toList ++ uncell)) ++
            after)))) := by
  -- What is put around is a line for each tag, indented as far as the tag is deep.
  let line (extra : Int) (tag : String) : List Char :=
    (indentation padding (level + extra) ++ tag).toList
  refine ⟨line 0 "<table cellpadding=\"1\" cellspacing=\"1\">\n" ++ line 1 "<tr>\n" ++
      line 2 "<th",
    "</th>\n".toList ++ line 1 "</tr>\n" ++ line 1 "<tr>\n",
    line 2 "<td valign=\"top\">\n", line 2 "</td>\n", line 1 "</tr>\n" ++ line 0 "</table>\n",
    ?_, fun span header operands => ?_⟩
  · -- The first line ends with its break, so the tag in it is no span.
    simp only [line, String.toList_append, List.append_assoc, String.reduceToList,
      List.cons_append, Int.add_zero]
    exact ⟨_, rfl⟩
  · -- Both sides are the same pieces, once they are all written in a row.
    simp only [line, operatorLines, Text.toList_unlines, List.flatMap_cons, List.flatMap_nil,
      List.flatMap_append, String.toList_append, List.append_assoc, List.append_nil, Int.add_zero,
      List.flatMap_assoc, String.reduceToList, List.cons_append, List.nil_append]

/-- A span ends before what stands behind it, and shows its text. -/
theorem span_append_injective {id : String} {kind : NodeKind} {symbol symbol' : String}
    {u u' : List Char} (h : (span id kind symbol).toList ++ u =
      (span id kind symbol').toList ++ u') : symbol = symbol' ∧ u = u' := by
  rw [toList_span, toList_span] at h
  simp only [List.append_assoc, List.cons_append, List.nil_append, List.append_cancel_left_eq,
    List.cons.injEq, true_and] at h
  rcases eq_of_escaped h with ⟨hsymbol, hu⟩
  simp only [List.cons.injEq, true_and] at hu
  exact ⟨hsymbol, hu⟩

/-- The block of a leaf: behind its indentation there is a span. -/
theorem unlines_leaf (padding : String) (level : Int) (id symbol : String) :
    (Text.unlines ((leaf id symbol).htmlLines padding level)).toList =
      (indentation padding level).toList ++ ((span id .constant symbol).toList ++ ['\n']) := by
  simp only [htmlLines, Text.toList_unlines, List.flatMap_cons, List.flatMap_nil,
    String.toList_append, List.append_assoc, List.append_nil]

section Blocks

variable (padding : String) (level : Int) (u u' : List Char)

/-- Behind the same indentation a leaf begins with a span and an operator with a table. -/
theorem leaf_ne_operator (id symbol span header : String) (operands : List (List String)) :
    (Text.unlines ((leaf id symbol).htmlLines padding level)).toList ++ u ≠
      (Text.unlines (operatorLines padding level span header operands)).toList ++ u' := by
  intro h
  rcases exists_frame padding level with
    ⟨head, between, cell, uncell, after, ⟨rest, rfl⟩, hframe⟩
  rw [unlines_leaf, hframe, toList_span] at h
  simp only [spanOpening, List.append_assoc, List.cons_append, List.append_cancel_left_eq,
    List.cons.injEq, true_and] at h
  exact absurd h.1 (by decide)

/-- The header of an operator ends its tag at once or says how wide it is. -/
theorem unary_ne_binary (span span' : String) (operands operands' : List (List String)) :
    (Text.unlines (operatorLines padding level span "" operands)).toList ++ u ≠
      (Text.unlines (operatorLines padding level span' " colspan=\"2\"" operands')).toList ++
        u' := by
  intro h
  rcases exists_frame padding level with ⟨head, between, cell, uncell, after, -, hframe⟩
  rw [hframe, hframe] at h
  simp only [String.reduceToList, List.append_assoc, List.cons_append, List.nil_append,
    List.append_cancel_left_eq, List.cons.injEq] at h
  exact absurd h.1 (by decide)

end Blocks

/-- A block determines its tree, and it determines where it ends. -/
theorem htmlLines_append_injective (padding : String) {t t' : Expr} {id : String} {level : Int}
    {u u' : List Char}
    (h : (Text.unlines ((t.draw id).htmlLines padding level)).toList ++ u =
      (Text.unlines ((t'.draw id).htmlLines padding level)).toList ++ u') : t = t' ∧ u = u' := by
  induction t generalizing t' id level u u' with
  | terminal symbol =>
      cases t' with
      | terminal symbol' =>
        rw [Expr.draw, Expr.draw, unlines_leaf, unlines_leaf] at h
        simp only [List.append_assoc, List.append_cancel_left_eq] at h
        rcases span_append_injective h with ⟨rfl, hu⟩
        rw [List.append_cancel_left_eq] at hu
        exact ⟨rfl, hu⟩
      | unary _ _ | binary _ _ _ =>
        exact absurd h (leaf_ne_operator padding level u u' id symbol _ _ _)
  | unary op operand ih =>
      cases t' with
      | terminal symbol' =>
        exact absurd h.symm (leaf_ne_operator padding level u' u id symbol' _ _ _)
      | unary op' operand' =>
        rcases exists_frame padding level with ⟨head, between, cell, uncell, after, -, hframe⟩
        rw [Expr.draw, Expr.draw, htmlLines, htmlLines, hframe, hframe] at h
        simp only [List.flatMap_singleton, List.append_assoc, List.append_cancel_left_eq,
          List.cons_append, List.cons.injEq, true_and] at h
        rcases span_append_injective h with ⟨rfl, hcells⟩
        simp only [List.append_cancel_left_eq] at hcells
        rcases ih hcells with ⟨rfl, hu⟩
        simp only [List.append_cancel_left_eq] at hu
        exact ⟨rfl, hu⟩
      | binary _ _ _ => exact absurd h (unary_ne_binary padding level u u' _ _ _ _)
  | binary op left right ihl ihr =>
      cases t' with
      | terminal symbol' =>
        exact absurd h.symm (leaf_ne_operator padding level u' u id symbol' _ _ _)
      | unary _ _ => exact absurd h.symm (unary_ne_binary padding level u' u _ _ _ _)
      | binary op' left' right' =>
        rcases exists_frame padding level with ⟨head, between, cell, uncell, after, -, hframe⟩
        rw [Expr.draw, Expr.draw, htmlLines, htmlLines, hframe, hframe] at h
        simp only [List.flatMap_cons, List.flatMap_nil, List.append_nil, List.append_assoc,
          List.append_cancel_left_eq, List.cons_append, List.cons.injEq, true_and] at h
        rcases span_append_injective h with ⟨rfl, hcells⟩
        simp only [List.append_cancel_left_eq] at hcells
        -- The block of the left operand is used up, and what is left begins with the right one.
        rcases ihl hcells with ⟨rfl, hright⟩
        simp only [List.append_cancel_left_eq] at hright
        rcases ihr hright with ⟨rfl, hu⟩
        simp only [List.append_cancel_left_eq] at hu
        exact ⟨rfl, hu⟩

end Drawn

/-- No two trees have the same markup. -/
theorem html_injective (id padding : String) (level : Int) :
    Function.Injective fun t : Expr => t.html id padding level := by
  intro t t' h
  have hlines : ∀ t : Expr, (t.draw id).htmlLines padding level ≠ [] := by
    intro t
    cases t with
    | terminal _ | unary _ _ | binary _ _ _ => exact List.cons_ne_nil _ _
  have hblock := congrArg (fun html => html.toList ++ ['\n']) h
  simp only [Expr.html, toList_joinWith_break (hlines _)] at hblock
  exact (Drawn.htmlLines_append_injective padding (congrArg (· ++ []) hblock)).1

/-- Whatever the address of the root and the level, and whatever the padding as long as no
    tag can begin in it: the spans of the markup show the nodes of the index, one after
    the other, an escaped text can be read back, and the tree is the only one that has
    this markup. -/
theorem html_lossless (id padding : String) (level : Int) (hpadding : '<' ∉ padding.toList) :
    (∀ t : Expr, spans (t.html id padding level).toList =
      (t.nodeIndex id).entries.map fun node => (escapeHtml node.1, escapeHtml node.2.label)) ∧
    (∀ s, unescapeHtml (escapeHtml s).toList = s.toList) ∧
    Function.Injective fun t : Expr => t.html id padding level := by
  refine ⟨fun t => spans_html hpadding t id level, fun s => ?_, html_injective id padding level⟩
  rw [toList_escapeHtml, unescapeHtml_flatMap]

/-- Symbols that look like markup, an address with a quotation mark, and a level at which
    only the operands are indented. -/
theorem html_of_delimiters : '<' ∉ "\t ".toList ∧
    spans ((Expr.binary "+" (.terminal "<") (.unary "!" (.terminal "&"))).html
      "a\"b" "\t " (-2)).toList =
      [("a&quot;b", "+"), ("a&quot;bL", "&lt;"), ("a&quot;bR", "!"), ("a&quot;bRD", "&amp;")] :=
  ⟨by decide, ((html_lossless "a\"b" "\t " (-2) (by decide)).1 _).trans (by decide)⟩

end BoolCalc
