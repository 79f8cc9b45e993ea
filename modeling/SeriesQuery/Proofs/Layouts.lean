import SeriesQuery.Proofs.Cursors
import SeriesQuery.Proofs.PlainTexts

/-!
# Layouts keep the tokens

The canonical text of an expression and its layouts put the same parts together; a layout has line
breaks and blanks where the text has one blank or none.  So each rule of `Expr.layout` is `Alike` the
rule of `Expr.render` for the same node, and a layout of what a query stands for has the tokens of
its text (`Expr.takeAll_layout`).
-/

namespace SeriesQuery

open Text

/-! ## Parts -/

theorem apart_blank : Apart " " " " :=
  apart_self (by decide)

section

variable {follow : Char → Bool} {s s' : String}

/-- An optional modifier behind a text that a blank may follow. -/
theorem Alike.optional {α : Type} {render : α → String} (hs : Alike follow s s')
    (hspace : follow ' ') {o : Option α} (h : ∀ a ∈ o, Alike follow (render a) (render a)) :
    Alike follow (s ++ BinaryOp.renderOptional render o)
      (s' ++ BinaryOp.renderOptional render o) := by
  cases o with
  | none => simpa [BinaryOp.renderOptional] using hs
  | some a =>
      have hstart : startsWith follow (" " ++ render a) := startsWith_append (by simpa [startsWith]) _
      exact hs.append (apart_blank.alike.append_any (h a rfl)) hstart hstart

end

theorem apart_renderLabels (labels : List String) :
    Apart (renderLabels labels) (renderLabels labels) := by
  have hopen : Apart "(" "(" := apart_self (by decide)
  have hcomma : Apart "," "," := apart_self (by decide)
  have hclose : Apart ")" ")" := apart_self (by decide)
  exact apart_list hopen hcomma hclose fun name _ => (alike_name name).mono afterIdent_of_afterTerm

/-- A word with a list of labels behind it. -/
theorem alike_wordLabels {word : String} (h : isPlainWord word) (labels : List String) :
    Alike anyChar (word ++ renderLabels labels) (word ++ renderLabels labels) :=
  (alike_word h).apart (apart_renderLabels labels)

theorem alike_matching (m : Matching) : Alike anyChar m.render m.render :=
  alike_wordLabels (by cases m.kind <;> decide) m.labels

theorem apart_star : Apart "(*)" "(*)" where
  alike := by
    have hstar : Lexes afterSign ['*'] ["*"] := lexes_sign (by decide)
    have hclose : Lexes anyChar [')'] [")"] := lexes_punctuation (by decide)
    have hopen : Lexes anyChar ['('] ["("] := lexes_punctuation (by decide)
    have hall := hopen.append_any (hstar.append_cons hclose (by decide))
    have hlexes : Lexes anyChar "(*)".toList ["(", "*", ")"] := hall
    exact hlexes.alike_self
  left := by decide
  right := by decide

theorem alike_join (j : Join) : Alike anyChar j.render j.render := by
  have hword : isPlainWord j.side.word := by cases j.side <;> decide
  unfold Join.render
  split
  · exact (alike_word hword).apart apart_star
  · exact alike_wordLabels hword j.labels

theorem alike_grouping (g : Grouping) : Alike anyChar g.render g.render := by
  cases g with
  | «by» labels => exact alike_wordLabels (show isPlainWord "by" by decide) labels
  | without labels => exact alike_wordLabels (show isPlainWord "without" by decide) labels

/-! ## Operators -/

/-- A blank that is written. -/
def isBreak (c : Char) : Bool :=
  c == ' ' || c == '\n'

theorem of_isBreak {p : Char → Bool} (hspace : p ' ') (hline : p '\n') (c : Char)
    (h : isBreak c) : p c := by
  simp only [isBreak, Bool.or_eq_true, beq_iff_eq] at h
  rcases h with rfl | rfl
  · exact hspace
  · exact hline

theorem alike_symbol (op : Operator) : Alike isBreak op.symbol op.symbol := by
  rcases symbol_cases op with hsign | hword
  · have hsymbol := (lexes_operatorSign hsign).alike_self
    exact hsymbol.mono (of_isBreak (by decide) (by decide))
  · exact (alike_word hword).mono (of_isBreak (by decide) (by decide))

/-- The operator with its modifiers, in front of a blank. -/
theorem alike_operator {b : BinaryOp} (h : b.WellFormed) : Alike isBreak b.render b.render := by
  have hsymbol : Alike isBreak (b.op.symbol ++ if b.asBool then "bool" else "")
      (b.op.symbol ++ if b.asBool then "bool" else "") := by
    split
    · rename_i hset
      have hsign := (lexes_operatorSign (symbol_mem_of_isComparison (h.asBool hset))).alike_self
      have hword : Alike isBreak "bool" "bool" :=
        (alike_word (by decide)).mono (of_isBreak (by decide) (by decide))
      exact hsign.append hword (by decide) (by decide)
    · simpa using alike_symbol b.op
  have hlead : ∀ lead ∈ b.joinLead,
      Alike anyChar ("prefix " ++ lead.render) ("prefix " ++ lead.render) := by
    intro lead hlead
    rcases (h.joinLead lead hlead).2 with ⟨value, hvalue⟩
    have hquote : lead.render = quote value := by simp [StringExpr.render, hvalue, Segment.render]
    have hword : Alike afterTerm "prefix" "prefix" := alike_word (by decide)
    have hboth : Alike anyChar ("prefix" ++ " " ++ quote value) ("prefix" ++ " " ++ quote value) :=
      hword.separated apart_blank (alike_quote value)
    simpa [hquote] using hboth
  have hmatching := hsymbol.optional (by decide) fun m (_ : m ∈ b.matching) =>
    (alike_matching m).anywhere
  have hjoin := hmatching.optional (by decide) fun j (_ : j ∈ b.join) => (alike_join j).anywhere
  exact hjoin.optional (by decide) fun lead hmem => (hlead lead hmem).anywhere

/-! ## Ranges and suffixes -/

theorem IsPlain.of_renderDuration {d : Option Duration} (hresolved : Duration.Resolved d)
    (hplain : ∀ d' ∈ d, d'.leaf.Plain) : IsPlain (Range.renderDuration d).toList := by
  cases d with
  | none => exact isPlain_nil
  | some d =>
      have htemplate : d.isTemplate = false := hresolved d rfl
      have htext := hplain d rfl
      simpa [Duration.leaf, Leaf.Plain, Range.renderDuration, Duration.render, htemplate] using htext

section

variable {r : Range} (hresolved : r.Resolved) (hplain : ∀ l ∈ r.leaves, l.Plain) {s s' : String}
  (hs : Alike afterTerm s s')
include hresolved hplain hs

theorem alike_window : Alike afterTerm (s ++ r.renderWindow) (s' ++ r.renderWindow) := by
  have hparts := forall_mem_rangeLeaves.1 hplain
  unfold Range.renderWindow
  split
  · -- Window, colon and step are one plain text.
    have hinside : IsPlain (Range.renderDuration r.window ++ (if r.isSubquery then ":" else "") ++
        Range.renderDuration r.step).toList := by
      have hcolon : IsPlain (if r.isSubquery then ":" else "").toList := by
        unfold IsPlain
        split <;> decide
      rw [String.toList_append, String.toList_append]
      exact isPlain_append.2 ⟨isPlain_append.2
        ⟨.of_renderDuration hresolved.window hparts.1, hcolon⟩,
        .of_renderDuration hresolved.step hparts.2.1⟩
    have hopen : Apart "[" "[" := apart_self (by decide)
    have hclose : Apart "]" "]" := apart_self (by decide)
    have hall := (hs.separated hopen (alike_plain hinside)).apart hclose
    simpa [String.append_assoc] using hall.anywhere
  · simpa using hs

theorem alike_range : Alike afterTerm (s ++ r.render) (s' ++ r.render) := by
  have hparts := forall_mem_rangeLeaves.1 hplain
  have hwindow := alike_window hresolved hplain hs
  have hoffset : ∀ d ∈ r.offset,
      Alike afterTerm ("offset " ++ Duration.render d) ("offset " ++ Duration.render d) := by
    intro d hd
    have hword : Alike afterTerm "offset" "offset" := alike_word (by decide)
    have htext : IsPlain (Range.renderDuration (some d)).toList :=
      .of_renderDuration (hd ▸ hresolved.offset) (hd ▸ hparts.2.2)
    have hboth : Alike afterTerm ("offset" ++ " " ++ d.render) ("offset" ++ " " ++ d.render) :=
      hword.separated apart_blank (alike_plain htext)
    simpa using hboth
  have hall := hwindow.optional (by decide) hoffset
  rwa [String.append_assoc, String.append_assoc] at hall

end

/-- The text behind the arguments of an aggregate. -/
theorem alike_aggregateSuffix (a : Aggregation) {s s' : String} (hs : Alike afterTerm s s') :
    Alike afterTerm (s ++ a.renderSuffix) (s' ++ a.renderSuffix) := by
  have hgrouping := hs.optional (by decide) fun g (_ : g ∈ a.grouping) =>
    (alike_grouping g).anywhere
  unfold Aggregation.renderSuffix
  split
  · have hword : Apart " limit " " limit " := by
      simpa using apart_blank.word (show isPlainWord "limit" by decide) apart_blank
    have hlimit : IsPlain (toString a.limit).toList := by
      have htext : (toString a.limit).toList = Nat.toDigits 10 a.limit := Nat.toList_repr
      rw [htext]
      exact isPlain_toDigits a.limit
    have hall := hgrouping.separated hword (alike_plain hlimit)
    simpa [String.append_assoc] using hall
  · simpa using hgrouping

/-! ## Line breaks -/

theorem indent_toList (level : Nat) : (indent level).toList = List.replicate (2 * level) ' ' :=
  String.toList_ofList

theorem isSpace_of_mem_indent (level : Nat) : ∀ c ∈ (indent level).toList, isSpace c := by
  intro c hc
  rw [indent_toList] at hc
  rw [List.eq_of_mem_replicate hc]
  decide

theorem Apart.indent {s t : String} (h : Apart s t) (level : Nat) : Apart s (t ++ indent level) := by
  have hblanks : Alike anyChar "" (SeriesQuery.indent level) :=
    alike_blanks (by simp) (isSpace_of_mem_indent level)
  have hall := h.append hblanks
  rwa [String.append_empty] at hall

/-- A separator may be put on a new line. -/
theorem Apart.newLine {s t : String} (h : Apart s t) (level : Nat) :
    Apart s ("\n" ++ SeriesQuery.indent level ++ t) where
  alike := by
    refine h.alike.indented fun c hc => ?_
    rw [String.toList_append, List.mem_append] at hc
    rcases hc with hc | hc
    · rcases List.mem_singleton.1 hc with rfl
      decide
    · exact isSpace_of_mem_indent level c hc
  left := h.left
  right := startsWith_append (startsWith_append (by decide) _) t

/-! ## Selectors -/

theorem alike_filter (f : LabelFilter) : Alike anyChar f.render f.render := by
  have hsign : Alike afterSign f.op.symbol f.op.symbol := by
    have hmem : f.op.symbol.toList ∈ operatorSigns := by cases f.op <;> decide
    have hlexes := lexes_sign hmem
    rw [String.ofList_toList] at hlexes
    exact hlexes.alike_self
  have hquote : startsWith afterSign (quote f.value) := by simp [startsWith, quote, afterSign]
  have hvalue := hsign.append (alike_quote f.value) hquote hquote
  have hsymbol : startsWith afterIdent f.op.symbol := by cases f.op <;> decide
  have hstart := startsWith_append hsymbol (quote f.value)
  have hall := (alike_name f.label).append hvalue hstart hstart
  rwa [← String.append_assoc] at hall

theorem alike_layoutGroup (level max : Nat) (group : List LabelFilter) :
    Alike afterTerm (String.intercalate "," (group.map LabelFilter.render))
      (Selector.layoutGroup level max group) := by
  have hcomma : Apart "," ",\n" := apart_of_isSeparator (by decide) (by decide) rfl
  have hitems := alike_intercalate (hcomma.indent level) fun f (_ : f ∈ group) =>
    (alike_filter f).anywhere
  unfold Selector.layoutGroup
  dsimp only
  split
  · exact hitems.self.indented (isSpace_of_mem_indent level)
  · exact hitems.indented (isSpace_of_mem_indent level)

theorem alike_selectorName (name? : Option String) :
    Alike afterTerm ((name?.map escapeIdent).getD "") ((name?.map escapeIdent).getD "") := by
  cases name? with
  | none => exact alike_empty
  | some name => exact (alike_name name).mono afterIdent_of_afterTerm

theorem Selector.alike_layout (s : Selector) (level max : Nat) :
    Alike afterTerm s.render (s.layout level max) := by
  have hname := (alike_selectorName s.name?).indented (isSpace_of_mem_indent level)
  have hopening : Apart "\x7b" "\x7b\n" := apart_of_isSeparator (by decide) (by decide) rfl
  have hclosing : Apart "\x7d" "\x7d" := apart_self (by decide)
  have hline : Apart " " "\n" := apart_of_isSeparator (by decide) (by decide) rfl
  have hor : Apart " or " ("\n" ++ indent (level + 2) ++ "or\n") := by
    have hword := (hline.indent (level + 2)).word (show isPlainWord "or" by decide) hline
    simpa [String.append_assoc] using hword
  have hgroups := apart_list hopening hor (hclosing.newLine level) fun g (_ : g ∈ s.writtenGroups) =>
    alike_layoutGroup (level + 1) max g
  unfold Selector.render renderSelector Selector.layout
  rw [filter_writtenGroups]
  simp only [List.isEmpty_map, List.map_map, Function.comp_def]
  split
  · split
    · rename_i hnone
      have hbraces : Apart "\x7b\x7d" "\x7b\x7d" := apart_self (by decide)
      have hindented : Alike afterTerm "\x7b\x7d" (indent level ++ "\x7b\x7d") :=
        hbraces.alike.anywhere.indented (isSpace_of_mem_indent level)
      simpa [Option.isNone_iff_eq_none.1 hnone] using hindented
    · exact hname
  · have hall : Alike afterTerm _ _ := (hname.apart hgroups).anywhere
    simpa [String.append_assoc] using hall

/-! ## Calls and operands -/

namespace Expr

/-- A name with a list of expressions behind it, each as it is laid out. -/
theorem alike_layoutCall {α : Type} {name : String} (hname : Alike afterTerm name name)
    {text text' : α → String} {xs : List α} (h : ∀ x ∈ xs, Alike afterTerm (text x) (text' x))
    (level : Nat) :
    Alike afterTerm (name ++ renderTuple (xs.map text)) (layoutCall name (xs.map text') level) := by
  have hopening : Apart "(" "(\n" := apart_of_isSeparator (by decide) (by decide) rfl
  have hcomma : Apart ", " ",\n" := apart_of_isSeparator (by decide) (by decide) rfl
  have hclosing : Apart ")" ")" := apart_self (by decide)
  have hnone : Apart "()" "()" := apart_self (by decide)
  have hindented := hname.indented (isSpace_of_mem_indent level)
  unfold layoutCall
  dsimp only
  split
  · rename_i hempty
    have hxs : xs = [] := by simpa using hempty
    subst hxs
    have hall : Alike afterTerm _ _ := (hindented.apart hnone).anywhere
    simpa [renderTuple] using hall
  · have hlist := apart_list hopening hcomma (hclosing.newLine level) h
    have hall : Alike afterTerm _ _ := (hindented.apart hlist).anywhere
    simpa [renderTuple, joinArgs, String.append_assoc] using hall

theorem alike_keepMark (keep : Bool) {s s' : String} (hs : Alike afterTerm s s') :
    Alike afterTerm (s ++ keepMark keep) (s' ++ keepMark keep) := by
  unfold keepMark
  split
  · have hword : Alike afterTerm "keep_metric_names" "keep_metric_names" := alike_word (by decide)
    simpa [String.append_assoc] using hs.separated apart_blank hword
  · simpa using hs

theorem alike_parenthesize (needed : Bool) {s : String} (h : Alike afterTerm s s) :
    Alike afterTerm (parenthesize needed s) (parenthesize needed s) := by
  have hopening : Apart "(" "(" := apart_self (by decide)
  have hclosing : Apart ")" ")" := apart_self (by decide)
  unfold parenthesize
  split
  · exact ((hopening.alike.append_any h).apart hclosing).anywhere
  · exact h

/-- Parentheses, where they are needed, may be on lines of their own. -/
theorem alike_layoutOperand (needed : Bool) {text : String} {layoutAt : Nat → String}
    (h : ∀ level, Alike afterTerm text (layoutAt level)) (level max : Nat) :
    Alike afterTerm (parenthesize needed text) (layoutOperand needed text layoutAt level max) := by
  have hopening : Apart "(" "(\n" := apart_of_isSeparator (by decide) (by decide) rfl
  have hclosing : Apart ")" ")" := apart_self (by decide)
  cases needed with
  | false => simpa [parenthesize, layoutOperand] using h level
  | true =>
      simp only [parenthesize, layoutOperand, if_true, Bool.not_true, Bool.false_eq_true, if_false]
      split
      · have hline := (alike_parenthesize true (h level).self).indented (isSpace_of_mem_indent level)
        simpa [parenthesize, String.append_assoc] using hline
      · have hlines := (hopening.alike.append_any (h (level + 1))).apart (hclosing.newLine level)
        have hindented : Alike afterTerm _ _ :=
          hlines.anywhere.indented (isSpace_of_mem_indent level)
        simpa [String.append_assoc] using hindented

/-- The time of a rollup stands behind what it is the time of. -/
theorem alike_time {time : Option Expr} (h : ∀ e ∈ time, Alike afterTerm e.render e.render)
    {s s' : String} (hs : Alike afterTerm s s') :
    Alike afterTerm (s ++ renderTimeOf time) (s' ++ renderTimeOf time) := by
  cases time with
  | none => simpa [renderTimeOf] using hs
  | some e =>
      have hat : Apart " @ " " @ " := apart_self (by decide)
      have htime := alike_parenthesize e.isBinary (h e rfl)
      simpa [renderTimeOf, renderTime, String.append_assoc] using hs.separated hat htime

/-- An operator with its operands may be on several lines. -/
theorem alike_infix {b : BinaryOp} (hb : b.WellFormed) {left left' right right' : String}
    (hleft : Alike afterTerm left left') (hright : Alike afterTerm right right') (level : Nat) :
    Alike afterTerm (left ++ " " ++ b.render ++ " " ++ right)
      (left' ++ "\n" ++ indent level ++ b.render ++ "\n" ++ right') := by
  have hline : Apart " " "\n" := apart_of_isSeparator (by decide) (by decide) rfl
  have hoperator := hleft.separated (hline.indent level) (alike_operator hb)
  rw [← String.append_assoc] at hoperator
  exact (hoperator.append hline.alike (by decide) (by decide)).append_any hright

/-- An operator that keeps names stands in parentheses, which may be on lines of their own. -/
theorem alike_keepNames (keep : Bool) {text body : String} (h : Alike afterTerm text body)
    (level : Nat) :
    Alike afterTerm (if keep then "(" ++ text ++ ") keep_metric_names" else text)
      (if keep then indent level ++ "(\n" ++ body ++ "\n" ++ indent level ++ ") keep_metric_names"
        else body) := by
  have hopening : Apart "(" "(\n" := apart_of_isSeparator (by decide) (by decide) rfl
  have hclosing : Apart ")" ")" := apart_self (by decide)
  split
  · have hlines := (hopening.alike.append_any h).apart (hclosing.newLine level)
    have hmarked := (alike_keepMark true hlines.anywhere).indented (isSpace_of_mem_indent level)
    simpa [keepMark, String.append_assoc] using hmarked
  · exact h

/-! ## Expressions -/

theorem layoutList_eq_map (level max : Nat) (es : List Expr) :
    layoutList level max es = es.map (layout level max) := by
  induction es with
  | nil => rfl
  | cons e es ih => simp [layoutList, ih]

/-- A node may stay on its line. -/
theorem alike_needsSplit {e : Expr} {text : String} (h : Alike afterTerm e.render text)
    (level max : Nat) :
    Alike afterTerm e.render (if e.needsSplit level max then text else e.layoutLine level) := by
  split
  · exact h
  · exact h.self.indented (isSpace_of_mem_indent level)

/-- A layout of an expression has the tokens of its text. -/
theorem alike_layout {e : Expr} (h : e.Expanded) (hplain : e.Made Leaf.Plain) (level max : Nat) :
    Alike afterTerm e.render (e.layout level max) := by
  induction e using Expr.inductionOn generalizing level max with
  | number n =>
      have hnumber : IsPlain n.render.toList := made_number.1 hplain
      rw [layout, layoutLine, render]
      exact (alike_plain hnumber).indented (isSpace_of_mem_indent level)
  | duration d =>
      have htemplate : d.isTemplate = false := h.self
      have htext : IsPlain d.render.toList := by
        have hleaf := made_duration.1 hplain
        simpa [Duration.leaf, Leaf.Plain, Duration.render, htemplate] using hleaf
      rw [layout, layoutLine, render]
      exact (alike_plain htext).indented (isSpace_of_mem_indent level)
  | string value =>
      rw [layout, layoutLine, render]
      exact (alike_quote value).anywhere.indented (isSpace_of_mem_indent level)
  | concat s => exact h.self.elim
  | selector s =>
      have hselector : Alike afterTerm (selector s).render (s.layout level max) := by
        rw [render]
        exact s.alike_layout level max
      rw [layout]
      exact alike_needsSplit hselector level max
  | selectorExpr s => exact h.self.elim
  | call name args keep ih =>
      have hnodes := allNodes_call.1 h
      have hparts := made_call.1 hplain
      have hname := (alike_name name).mono afterIdent_of_afterTerm
      have hargs : ∀ e ∈ args, Alike afterTerm e.render (e.layout (level + 1) max) := fun e he =>
        ih e he (hnodes.2 e he) (hparts.2 e he) (level + 1) max
      have hcall := alike_keepMark keep (alike_layoutCall hname hargs level)
      rw [← renderList_eq_map, ← layoutList_eq_map, ← render] at hcall
      rw [layout]
      exact alike_needsSplit hcall level max
  | aggregate a args ih =>
      have hnodes := allNodes_aggregate.1 h
      have hparts := made_aggregate.1 hplain
      have hname := (alike_name a.name).mono afterIdent_of_afterTerm
      have hargs : ∀ e ∈ args, Alike afterTerm e.render (e.layout (level + 1) max) := fun e he =>
        ih e he (hnodes.2 e he) (hparts.2 e he) (level + 1) max
      have haggregate := alike_aggregateSuffix a (alike_layoutCall hname hargs level)
      rw [← renderList_eq_map, ← layoutList_eq_map, ← render] at haggregate
      rw [layout]
      exact alike_needsSplit haggregate level max
  | binary b l r ihl ihr =>
      have hnodes := allNodes_binary.1 h
      have hparts := made_binary.1 hplain
      -- The operands of an operator that keeps names stand one level deeper.
      let depth := if b.keepNames then level + 1 else level
      have hleft := alike_layoutOperand (l.leftNeedsParens b.op)
        (fun n => ihl hnodes.2.1 hparts.2.1 n max) depth max
      have hright := alike_layoutOperand r.rightNeedsParens
        (fun n => ihr hnodes.2.2 hparts.2.2 n max) depth max
      have hinfix := alike_infix hnodes.1 hleft hright (depth + 1)
      have hbinary := alike_keepNames b.keepNames hinfix level
      rw [layout]
      refine alike_needsSplit ?_ level max
      rw [render]
      exact hbinary
  | rollup inner range time ih iht =>
      have hnodes := allNodes_rollup.1 h
      have hparts := made_rollup.1 hplain
      have hinner := alike_layoutOperand inner.innerNeedsParens
        (fun n => ih hnodes.2.1 hparts.1 n max) level max
      have hrange := alike_range hnodes.1 hparts.2.1 hinner
      have htime : ∀ e ∈ time, Alike afterTerm e.render e.render := fun e he =>
        (iht e he (hnodes.2.2 e he) (hparts.2.2 e he) level max).self
      have hall := alike_time htime hrange
      rw [← render, String.append_assoc] at hall
      rw [layout]
      exact alike_needsSplit hall level max
  | tuple items ih =>
      have hnodes := allNodes_tuple.1 h
      have hparts := made_tuple.1 hplain
      have hitems : ∀ e ∈ items, Alike afterTerm e.render (e.layout (level + 1) max) := fun e he =>
        ih e he (hnodes.2 e he) (hparts e he) (level + 1) max
      have htuple := alike_layoutCall alike_empty hitems level
      rw [String.empty_append, ← renderList_eq_map, ← layoutList_eq_map, ← render] at htuple
      rw [layout]
      exact alike_needsSplit htuple level max
  | withTemplates ts body _ _ => exact h.self.elim

/-! ## Queries -/

/-- What a query stands for refers to no template. -/
theorem expanded_parse {query : String} {e : Expr} (h : parse query = .ok e) : e.Expanded := by
  have hparse : Gives Expanded (parse query) := by
    refine (gives_ofText query).bind fun written hwritten => ?_
    refine (gives_expandTemplates hwritten).bind fun expanded hexpanded => ?_
    exact (gives_normalize hexpanded).imp fun e he n hn => (he n hn).expanded
  exact hparse e h

/-- A layout of what a query stands for has the tokens of its text, and is scanned to its end if the
text is. -/
theorem takeAll_layout {query : String} {e : Expr} (h : parse query = .ok e) (level max : Nat) :
    (Cursor.ofText (e.layout level max)).takeAll.1 = (Cursor.ofText e.render).takeAll.1 ∧
      ((Cursor.ofText (e.layout level max)).takeAll.2.1 = .ok () ↔
        (Cursor.ofText e.render).takeAll.2.1 = .ok ()) := by
  have halike := alike_layout (expanded_parse h) (made_parse h) level max
  exact Cursor.takeAll_congr halike.texts.symm

/-- A query that is laid out over several lines, with the filters of each group on lines of their
own. -/
def sharedQuery : String :=
  "sum(rate(a\x7bb=\"c\",d!=\"e\" or b=\"f\"\x7d[5m:1h] offset -1d)) by (b) / on(b) (g or h)"

theorem takeAll_layout_sharedQuery :
    ∃ e, parse sharedQuery = .ok e ∧ (e.layout 1 20).toList.contains '\n' ∧
      (Cursor.ofText (e.layout 1 20)).takeAll.1 = (Cursor.ofText e.render).takeAll.1 ∧
      ((Cursor.ofText (e.layout 1 20)).takeAll.2.1 = .ok () ↔
        (Cursor.ofText e.render).takeAll.2.1 = .ok ()) := by
  have hlines : (parse sharedQuery).toOption.any fun e => (e.layout 1 20).toList.contains '\n' := by
    apply parse_of_toList (P := fun x => x.toOption.any fun e => (e.layout 1 20).toList.contains '\n')
      String.toList_ofList
    · decide +kernel
    · decide +kernel
  cases h : parse sharedQuery with
  | ok e =>
      rw [h] at hlines
      exact ⟨e, rfl, hlines, takeAll_layout h 1 20⟩
  | error cause =>
      rw [h] at hlines
      cases hlines

end Expr

end SeriesQuery
