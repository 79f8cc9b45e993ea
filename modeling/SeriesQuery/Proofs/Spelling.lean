import SeriesQuery.Expr.Render
import SeriesQuery.Proofs.Scanning
import SeriesQuery.Proofs.Tree
import SeriesQuery.Syntax.Operand

/-!
# Tokens of the text of an expression

`Expr.tokens` are the tokens that the canonical text of an expression is made of.  The text is read
as these tokens where its names, numbers and durations are tokens by themselves (`Expr.Spelled`);
`lexes_render` says so of any text in which the expression stands before a blank or a bracket.
-/

namespace SeriesQuery

open Text

/-! ## Lists of tokens -/

/-- Tokens of several parts with a separator between them. -/
def separated (separator : String) : List (List String) → List String
  | [] => []
  | [ts] => ts
  | ts :: rest => ts ++ separator :: separated separator rest

/-- Tokens of a list in parentheses. -/
def listTokens (items : List (List String)) : List String :=
  "(" :: separated "," items ++ [")"]

/-- Tokens in parentheses, where they are needed. -/
def parenTokens (needed : Bool) (ts : List String) : List String :=
  if needed then "(" :: ts ++ [")"] else ts

/-- Tokens of a part that may be missing. -/
def optionTokens {α : Type} (tokens : α → List String) : Option α → List String
  | some a => tokens a
  | none => []

/-- The text without a minus at its start. -/
def magnitude (text : String) : String :=
  match text.toList with
  | '-' :: cs => String.ofList cs
  | _ => text

/-- The text starts with a minus. -/
def isNegated (text : String) : Bool :=
  text.toList.head? == some '-'

/-- Tokens of a number or a duration with an optional minus. -/
def signedTokens (text : String) : List String :=
  if isNegated text then ["-", magnitude text] else [text]

/-- Tokens of a list of labels. -/
def labelTokens (labels : List String) : List String :=
  listTokens (labels.map fun label => [escapeIdent label])

/-! ## Tokens of parts -/

def StringExpr.tokens (s : StringExpr) : List String :=
  if s.segments.isEmpty then ["\"\""] else separated "+" (s.segments.map fun seg => [seg.render])

def LabelFilter.tokens (f : LabelFilter) : List String :=
  [escapeIdent f.label, f.op.symbol, quote f.value]

/-- Tokens of groups of filters in braces. -/
def groupTokens (groups : List (List LabelFilter)) : List String :=
  "\x7b" :: separated "or" (groups.map fun g => separated "," (g.map LabelFilter.tokens)) ++ ["\x7d"]

def Selector.tokens (s : Selector) : List String :=
  match s.name? with
  | none => groupTokens s.writtenGroups
  | some name =>
      escapeIdent name :: if s.writtenGroups.isEmpty then [] else groupTokens s.writtenGroups

def Matching.tokens (m : Matching) : List String :=
  m.kind.word :: labelTokens m.labels

def Join.tokens (j : Join) : List String :=
  j.side.word :: if j.labels = ["*"] then ["(", "*", ")"] else labelTokens j.labels

def BinaryOp.modifierTokens (b : BinaryOp) : List String :=
  (if b.asBool then ["bool"] else []) ++ (optionTokens Matching.tokens b.matching ++
    (optionTokens Join.tokens b.join ++
      optionTokens (fun lead => "prefix" :: lead.tokens) b.joinLead))

def BinaryOp.tokens (b : BinaryOp) : List String :=
  b.op.symbol :: b.modifierTokens

def Grouping.tokens : Grouping → List String
  | .by labels => "by" :: labelTokens labels
  | .without labels => "without" :: labelTokens labels

def Aggregation.suffixTokens (a : Aggregation) : List String :=
  optionTokens Grouping.tokens a.grouping ++
    if 0 < a.limit then ["limit", toString a.limit] else []

/-- Tokens of the window and the step.  The step is one token with the colon before it. -/
def Range.windowTokens (r : Range) : List String :=
  if r.window.isSome || r.inheritStep || r.step.isSome then
    "[" :: optionTokens (fun d => [d.render]) r.window ++
      (if r.isSubquery then [":" ++ Range.renderDuration r.step] else []) ++ ["]"]
  else []

theorem Range.windowTokens_start {range : Range} (h : range.windowTokens ≠ []) :
    ∃ s, range.windowTokens = "[" :: s := by
  unfold Range.windowTokens at h ⊢
  split at h
  · rename_i hset
    rw [if_pos hset]
    exact ⟨_, rfl⟩
  · exact absurd rfl h

def Range.tokens (r : Range) : List String :=
  r.windowTokens ++ optionTokens (fun d => "offset" :: signedTokens d.render) r.offset

/-! ## Tokens of expressions -/

namespace Expr

/-- Tokens of the time of a rollup, where those of the expression for it are given. -/
def timeTokens (time : Expr) (ts : List String) : List String :=
  "@" :: parenTokens time.isBinary ts

mutual

/-- Tokens of the canonical text of an expression without templates. -/
def tokens : Expr → List String
  | number n => signedTokens n.render
  | duration d => [d.render]
  | string value => [quote value]
  | concat s => s.tokens
  | selector s => s.tokens
  | selectorExpr _ => []
  | call name args keep =>
      escapeIdent name :: listTokens (tokensList args) ++
        (if keep then ["keep_metric_names"] else [])
  | aggregate a args => escapeIdent a.name :: listTokens (tokensList args) ++ a.suffixTokens
  | binary b l r =>
      let ts :=
        parenTokens (l.leftNeedsParens b.op) (tokens l) ++ b.tokens ++
          parenTokens r.rightNeedsParens (tokens r)
      if b.keepNames then "(" :: ts ++ [")", "keep_metric_names"] else ts
  | rollup inner range time =>
      parenTokens inner.innerNeedsParens (tokens inner) ++ range.tokens ++ tokensOfTime time
  | tuple items => listTokens (tokensList items)
  | withTemplates _ _ => []

/-- Tokens of each of the expressions. -/
def tokensList : List Expr → List (List String)
  | [] => []
  | e :: es => tokens e :: tokensList es

/-- Tokens of the time of a rollup. -/
def tokensOfTime : Option Expr → List String
  | none => []
  | some e => timeTokens e (tokens e)

end

theorem tokensList_eq_map (es : List Expr) : tokensList es = es.map tokens := by
  induction es with
  | nil => rfl
  | cons e es ih => simp [tokensList, ih]

theorem renderList_eq_map (es : List Expr) : renderList es = es.map render := by
  induction es with
  | nil => rfl
  | cons e es ih => simp [renderList, ih]

end Expr

/-! ## Texts that are tokens by themselves -/

/-- A numeral, or a word for an infinity or for no number. -/
def IsNumber (text : String) : Prop :=
  IsNumeral text ∨ Grammar.isNumberWord text

/-- The text of a step goes on with the token that a colon starts. -/
def IsStepText (text : String) : Prop :=
  ∀ c ∈ text.toList, isIdentChar c

namespace Expr

/-- The names, numbers and durations of the node are tokens by themselves. -/
def IsSpelled : Expr → Prop
  | number n => IsNumber (magnitude n.render)
  | duration d => IsNumeral d.render
  | string _ => True
  | concat s => ∀ name, Segment.ident name ∈ s.segments → name ≠ ""
  | selector s => (∀ name ∈ s.name?, name ≠ "") ∧ ∀ g ∈ s.writtenGroups, ∀ f ∈ g, f.label ≠ ""
  | selectorExpr _ => False
  | call name _ _ => name ≠ ""
  | aggregate a _ => a.name ≠ "" ∧ ∀ grouping ∈ a.grouping, "" ∉ grouping.labels
  | binary b _ _ =>
      (∀ m ∈ b.matching, "" ∉ m.labels) ∧ (∀ j ∈ b.join, "" ∉ j.labels) ∧
        (∀ lead ∈ b.joinLead, ∀ name, Segment.ident name ∈ lead.segments → name ≠ "") ∧
        (b.asBool → b.op.isComparison)
  | rollup _ range _ =>
      (∀ d ∈ range.window, IsNumeral d.render) ∧ (∀ d ∈ range.step, IsStepText d.render) ∧
        ∀ d ∈ range.offset, IsNumeral (magnitude d.render)
  | tuple _ => True
  | withTemplates _ _ => False

/-- All nodes are spelled. -/
abbrev Spelled (e : Expr) : Prop :=
  e.AllNodes IsSpelled

end Expr

/-! ## Putting texts together -/

/-- A character that may follow anything but a sign. -/
def afterTerm (c : Char) : Bool :=
  c == ' ' || c == '\n' || isPunctuation c

section Parts

variable {follow : Char → Bool} {cs ds : List Char} {ts us : List String}

theorem Lexes.spaced (hc : Lexes afterTerm cs ts) (hd : Lexes follow ds us) :
    Lexes follow (cs ++ ' ' :: ds) (ts ++ us) := by
  have hspace := lexes_space.append_any hd
  exact hc.append_cons hspace (by decide)

theorem Lexes.opened {c : Char} (h : isPunctuation c) (hd : Lexes follow ds us) :
    Lexes follow (c :: ds) (String.singleton c :: us) :=
  (lexes_punctuation h).append_any hd

theorem Lexes.closed {c : Char} (h : isPunctuation c) (hc : Lexes afterTerm cs ts) :
    Lexes follow (cs ++ [c]) (ts ++ [String.singleton c]) := by
  have hpunctuation : Lexes follow [c] [String.singleton c] :=
    (lexes_punctuation h).mono fun _ _ => rfl
  exact hc.append_cons hpunctuation (by simp [afterTerm, h])

theorem Lexes.followed {c : Char} (h : isPunctuation c) (hc : Lexes afterTerm cs ts)
    (hd : Lexes follow ds us) : Lexes follow (cs ++ c :: ds) (ts ++ String.singleton c :: us) :=
  hc.append_cons (hd.opened h) (by simp [afterTerm, h])

theorem Lexes.parenthesized (follow : Char → Bool) (hc : Lexes afterTerm cs ts) :
    Lexes follow ('(' :: cs ++ [')']) ("(" :: ts ++ [")"]) :=
  (hc.closed (c := ')') (by decide)).opened (c := '(') (by decide)

end Parts

/-- The text of a list has the tokens of its items, if the separator keeps items apart. -/
theorem lexes_intercalate {α : Type} {text : α → String} {tokens : α → List String}
    {between separator : String}
    (hseparator : ∀ cs ds ts us, Lexes afterTerm cs ts → Lexes afterTerm ds us →
      Lexes afterTerm (cs ++ (between.toList ++ ds)) (ts ++ separator :: us))
    {xs : List α} (h : ∀ x ∈ xs, Lexes afterTerm (text x).toList (tokens x)) :
    Lexes afterTerm (String.intercalate between (xs.map text)).toList
      (separated separator (xs.map tokens)) := by
  induction xs with
  | nil => exact lexes_nil
  | cons x xs ih =>
      have hparts := List.forall_mem_cons.1 h
      cases xs with
      | nil => simpa [separated] using hparts.1
      | cons y ys =>
          have hrest := hseparator _ _ _ _ hparts.1 (ih hparts.2)
          simpa [separated, String.intercalate_cons_cons] using hrest

/-! ## Words -/

theorem mem_of_afterTerm {c : Char} (h : afterTerm c) :
    c ∈ [' ', '\n', '{', '}', '[', ']', '(', ')', ',', '@'] := by
  simp only [afterTerm, isPunctuation, Bool.or_eq_true, beq_iff_eq] at h
  simp only [List.mem_cons, List.not_mem_nil, or_false]
  tauto

theorem afterIdent_of_afterTerm (c : Char) (h : afterTerm c) : afterIdent c := by
  have hall : ∀ d ∈ [' ', '\n', '{', '}', '[', ']', '(', ')', ',', '@'], afterIdent d := by decide
  exact hall c (mem_of_afterTerm h)

theorem afterNumber_of_afterTerm (c : Char) (h : afterTerm c) : afterNumber c := by
  have hall : ∀ d ∈ [' ', '\n', '{', '}', '[', ']', '(', ')', ',', '@'], afterNumber d := by decide
  exact hall c (mem_of_afterTerm h)

theorem escapeTail_of_forall {cs : List Char} (h : ∀ c ∈ cs, isIdentChar c) :
    escapeTail cs = cs := by
  induction cs with
  | nil => rfl
  | cons c cs ih =>
      have hparts := List.forall_mem_cons.1 h
      have htail := ih hparts.2
      simp only [escapeTail] at htail
      simp [escapeTail, hparts.1, htail]

theorem escapeIdent_of_start {c : Char} {cs : List Char} {word : String}
    (htext : word.toList = c :: cs) (hc : isIdentStart c) (h : ∀ d ∈ cs, isIdentChar d) :
    escapeIdent word = word := by
  rw [escapeIdent, htext, escape, escapeTail_of_forall h]
  simp only [hc, if_true, List.singleton_append]
  rw [← htext, String.ofList_toList]

/-- The text is a word that needs no escapes. -/
def isPlainWord (word : String) : Bool :=
  match word.toList with
  | c :: cs => isIdentStart c && cs.all isIdentChar
  | [] => false

theorem lexes_plainWord {word : String} (h : isPlainWord word) :
    Lexes afterTerm word.toList [word] := by
  unfold isPlainWord at h
  cases htext : word.toList with
  | nil =>
      rw [htext] at h
      cases h
  | cons c cs =>
      simp only [htext, Bool.and_eq_true, List.all_eq_true] at h
      have hplain := escapeIdent_of_start htext h.1 h.2
      have hne : word ≠ "" := by
        rintro rfl
        cases htext
      rw [← htext]
      exact (lexes_word hne hplain).mono afterIdent_of_afterTerm

theorem lexes_name {name : String} (h : name ≠ "") :
    Lexes afterTerm (escapeIdent name).toList [escapeIdent name] :=
  (lexes_escapeIdent h).mono afterIdent_of_afterTerm

/-! ## Lists -/

theorem lexes_listTokens {α : Type} {text : α → String} {tokens : α → List String}
    {between : String} (hbetween : between = "," ∨ between = ", ") (follow : Char → Bool)
    {xs : List α} (h : ∀ x ∈ xs, Lexes afterTerm (text x).toList (tokens x)) :
    Lexes follow ('(' :: (String.intercalate between (xs.map text)).toList ++ [')'])
      (listTokens (xs.map tokens)) := by
  have hcomma : Lexes anyChar ([','] : List Char) [","] := lexes_punctuation (by decide)
  have hitems : Lexes afterTerm (String.intercalate between (xs.map text)).toList
      (separated "," (xs.map tokens)) := by
    refine lexes_intercalate (fun cs ds ts us hc hd => ?_) h
    rcases hbetween with rfl | rfl
    · exact hc.followed (c := ',') (by decide) hd
    · have hspaced := (lexes_space.append_any hd)
      exact hc.followed (c := ',') (by decide) hspaced
  exact hitems.parenthesized follow

theorem lexes_renderLabels (follow : Char → Bool) {labels : List String} (h : "" ∉ labels) :
    Lexes follow (renderLabels labels).toList (labelTokens labels) := by
  have hnames : ∀ label ∈ labels, Lexes afterTerm (escapeIdent label).toList
      ((fun label => [escapeIdent label]) label) := by
    intro label hlabel
    exact lexes_name (by rintro rfl; exact h hlabel)
  have hlist := lexes_listTokens (.inl rfl) follow hnames
  simpa [renderLabels, labelTokens] using hlist

/-! ## Parts of expressions -/

theorem symbol_cases (op : Operator) :
    op.symbol.toList ∈ operatorSigns ∨ isPlainWord op.symbol := by
  cases op <;> decide

theorem symbol_mem_of_isComparison {op : Operator} (h : op.isComparison) :
    op.symbol.toList ∈ operatorSigns := by
  cases op <;> first | decide | cases h

theorem lexes_operatorSign {op : Operator} (h : op.symbol.toList ∈ operatorSigns) :
    Lexes afterSign op.symbol.toList [op.symbol] := by
  have hsign := lexes_sign h
  rwa [String.ofList_toList] at hsign

theorem lexes_symbol (op : Operator) : Lexes (· == ' ') op.symbol.toList [op.symbol] := by
  have hspace : ∀ {p : Char → Bool}, p ' ' → ∀ c, (c == ' ') = true → p c := by
    intro p hp c hc
    rwa [beq_iff_eq.1 hc]
  rcases symbol_cases op with hsign | hword
  · exact (lexes_operatorSign hsign).mono (hspace (by decide))
  · exact (lexes_plainWord hword).mono (hspace (by decide))

theorem lexes_segments {s : StringExpr} (h : ∀ name, Segment.ident name ∈ s.segments → name ≠ "") :
    Lexes afterTerm s.render.toList s.tokens := by
  unfold StringExpr.render StringExpr.tokens
  split
  · exact (lexes_quote "").mono fun _ _ => rfl
  · refine lexes_intercalate (fun cs ds ts us hc hd => ?_) fun seg hseg => ?_
    · have hplus : Lexes afterSign ['+'] ["+"] := lexes_sign (by decide)
      have hmore : Lexes afterTerm ('+' :: ' ' :: ds) ("+" :: us) :=
        hplus.append_cons (lexes_space.append_any hd) (by decide)
      exact hc.spaced hmore
    · cases seg with
      | literal value => exact (lexes_quote value).mono fun _ _ => rfl
      | ident name => exact lexes_name (h name hseg)

/-- A modifier set off by a space, or nothing. -/
theorem lexes_renderOptional {α : Type} {render : α → String} {tokens : α → List String}
    {follow : Char → Bool} (hspace : follow ' ') {o : Option α}
    (h : ∀ a ∈ o, Lexes follow (render a).toList (tokens a)) {cs : List Char} {ts : List String}
    (hc : Lexes follow cs ts) :
    Lexes follow (cs ++ (BinaryOp.renderOptional render o).toList)
      (ts ++ optionTokens tokens o) := by
  cases o with
  | none => simpa [BinaryOp.renderOptional, optionTokens] using hc
  | some a =>
      have hspaced := hc.append_cons (lexes_space.append_any (h a rfl)) hspace
      simpa [BinaryOp.renderOptional, optionTokens] using hspaced

/-- A word with a list of labels behind it. -/
theorem lexes_wordLabels {word : String} (hword : isPlainWord word) {labels : List String}
    (h : "" ∉ labels) :
    Lexes afterTerm (word ++ renderLabels labels).toList (word :: labelTokens labels) := by
  have hlabels := lexes_renderLabels afterTerm h
  have htext : (renderLabels labels).toList =
      '(' :: ((String.intercalate "," (labels.map escapeIdent)).toList ++ [')']) := by
    simp [renderLabels]
  rw [htext] at hlabels
  have hboth := (lexes_plainWord hword).append_cons hlabels (by decide)
  rwa [String.toList_append, htext]

theorem lexes_matching {m : Matching} (h : "" ∉ m.labels) :
    Lexes afterTerm m.render.toList m.tokens :=
  lexes_wordLabels (by cases m.kind <;> decide) h

theorem lexes_join {j : Join} (h : "" ∉ j.labels) : Lexes afterTerm j.render.toList j.tokens := by
  have hword : isPlainWord j.side.word := by cases j.side <;> decide
  unfold Join.render Join.tokens
  split
  · have hstar : Lexes afterTerm ['(', '*', ')'] ["(", "*", ")"] := by
      have hsign : Lexes afterSign ['*'] ["*"] := lexes_sign (by decide)
      have hend : Lexes afterTerm [')'] [")"] :=
        (lexes_punctuation (by decide)).mono fun _ _ => rfl
      exact (hsign.append_cons hend (by decide)).opened (c := '(') (by decide)
    have hboth := (lexes_plainWord hword).append_cons hstar (by decide)
    simpa using hboth
  · exact lexes_wordLabels hword h

theorem lexes_lead {lead : StringExpr}
    (h : ∀ name, Segment.ident name ∈ lead.segments → name ≠ "") :
    Lexes afterTerm ("prefix " ++ lead.render).toList ("prefix" :: lead.tokens) := by
  have hword : Lexes afterTerm "prefix".toList ["prefix"] := lexes_plainWord (by decide)
  have hboth := hword.spaced (lexes_segments h)
  simpa using hboth

/-- The operator with its modifiers, in front of a blank. -/
theorem lexes_operator {b : BinaryOp} {l r : Expr} (h : (Expr.binary b l r).IsSpelled) :
    Lexes (· == ' ') b.render.toList b.tokens := by
  rcases h with ⟨hmatching, hjoin, hlead, hbool⟩
  have hspace : ∀ {cs ts}, Lexes afterTerm cs ts → Lexes (· == ' ') cs ts := by
    intro cs ts hc
    refine hc.mono fun c hmem => ?_
    rw [beq_iff_eq.1 hmem]
    decide
  have hsymbol : Lexes (· == ' ') (b.op.symbol ++ if b.asBool then "bool" else "").toList
      (b.op.symbol :: if b.asBool then ["bool"] else []) := by
    split
    · rename_i hset
      have hsign := lexes_operatorSign (symbol_mem_of_isComparison (hbool hset))
      have hword : Lexes (· == ' ') ['b', 'o', 'o', 'l'] ["bool"] :=
        hspace (lexes_plainWord (show isPlainWord "bool" by decide))
      have hboth := hsign.append_cons hword (by decide)
      simpa using hboth
    · simpa using lexes_symbol b.op
  have hone := lexes_renderOptional rfl (fun m hm => hspace (lexes_matching (hmatching m hm))) hsymbol
  have htwo := lexes_renderOptional rfl (fun j hj => hspace (lexes_join (hjoin j hj))) hone
  have hthree := lexes_renderOptional rfl (fun s hs => hspace (lexes_lead (hlead s hs))) htwo
  simpa [BinaryOp.render, BinaryOp.tokens, BinaryOp.modifierTokens] using hthree

/-! ## Numbers and durations -/

theorem isIdentStart_of_toLower {c : Char} (h : isAsciiLetter c.toLower) : isIdentStart c := by
  rcases isAsciiLetter_or_toLower_eq c with hletter | hsame
  · exact isIdentStart_of_isAsciiLetter hletter
  · rw [hsame] at h
    exact isIdentStart_of_isAsciiLetter h

theorem isPlainWord_of_sameWord {word : String} {c : Char} {cs : List Char}
    (h : word.toList.map Char.toLower = c :: cs) (hall : ∀ d ∈ c :: cs, isAsciiLetter d) :
    isPlainWord word := by
  unfold isPlainWord
  cases htext : word.toList with
  | nil =>
      rw [htext] at h
      cases h
  | cons a as =>
      have hletters : ∀ d ∈ a :: as, isIdentStart d := by
        intro d hd
        apply isIdentStart_of_toLower
        apply hall
        rw [← h, htext]
        exact List.mem_map_of_mem hd
      have hparts := List.forall_mem_cons.1 hletters
      simp only [Bool.and_eq_true, List.all_eq_true]
      exact ⟨hparts.1, fun d hd => isIdentChar_of_isIdentStart (hparts.2 d hd)⟩

theorem toList_of_sameWord {word other : String} (h : sameWord word other) :
    word.toList.map Char.toLower = other.toList.map Char.toLower := by
  have heq : lower word = lower other := by simpa [sameWord] using h
  have htext := congrArg String.toList heq
  simpa only [lower, String.toList_ofList] using htext

theorem isPlainWord_of_isNumberWord {word : String} (h : Grammar.isNumberWord word) :
    isPlainWord word := by
  simp only [Grammar.isNumberWord, Bool.or_eq_true] at h
  rcases h with h | h
  · exact isPlainWord_of_sameWord (c := 'i') (toList_of_sameWord h) (by decide)
  · exact isPlainWord_of_sameWord (c := 'n') (toList_of_sameWord h) (by decide)

theorem lexes_isNumber {text : String} (h : IsNumber text) :
    Lexes afterTerm text.toList [text] := by
  rcases h with hnumeral | hword
  · exact (lexes_number hnumeral).mono afterNumber_of_afterTerm
  · exact lexes_plainWord (isPlainWord_of_isNumberWord hword)

theorem IsNumeral.isNumber {text : String} (h : IsNumeral text) : IsNumber text :=
  .inl h

theorem start_of_isNumber {text : String} (h : IsNumber text) :
    ∃ c cs, text.toList = c :: cs ∧ afterSign c := by
  rcases h with hnumeral | hword
  · rcases hnumeral.start with ⟨c, cs, htext, hstart⟩
    refine ⟨c, cs, htext, ?_⟩
    simp only [startsNumeral, Bool.or_eq_true, beq_iff_eq, isDigit_iff] at hstart
    simp only [afterSign, Bool.and_eq_true, bne_iff_ne]
    constructor
    · rintro rfl
      revert hstart
      decide
    · rintro rfl
      revert hstart
      decide
  · have hplain := isPlainWord_of_isNumberWord hword
    unfold isPlainWord at hplain
    cases htext : text.toList with
    | nil => simp [htext] at hplain
    | cons c cs =>
        refine ⟨c, cs, rfl, ?_⟩
        simp only [htext, Bool.and_eq_true] at hplain
        simp only [afterSign, Bool.and_eq_true, bne_iff_ne]
        constructor
        · rintro rfl
          exact absurd hplain.1 (by decide)
        · rintro rfl
          exact absurd hplain.1 (by decide)

theorem toList_of_isNegated {text : String} (h : isNegated text) :
    text.toList = '-' :: (magnitude text).toList := by
  unfold isNegated at h
  unfold magnitude
  cases hcs : text.toList with
  | nil => simp [hcs] at h
  | cons c cs =>
      have hc : c = '-' := by simpa [hcs] using h
      subst hc
      simp

theorem minus_append_magnitude {text : String} (h : isNegated text) :
    "-" ++ magnitude text = text := by
  rw [← String.toList_inj, String.toList_append, toList_of_isNegated h]
  rfl

theorem magnitude_of_not_isNegated {text : String} (h : isNegated text = false) :
    magnitude text = text := by
  unfold magnitude
  split
  · rename_i heq
    simp [isNegated, heq] at h
  · rfl

theorem lexes_signedTokens {text : String} (h : IsNumber (magnitude text)) :
    Lexes afterTerm text.toList (signedTokens text) := by
  have hlexes := lexes_isNumber h
  unfold signedTokens
  split
  · rename_i hminus
    rcases start_of_isNumber h with ⟨c, cs, hmagnitude, hstart⟩
    rw [hmagnitude] at hlexes
    rw [toList_of_isNegated hminus, hmagnitude]
    have hsign : Lexes afterSign ['-'] ["-"] := lexes_sign (by decide)
    exact hsign.append_cons hlexes hstart
  · rename_i hplain
    rwa [magnitude_of_not_isNegated (by simpa using hplain)] at hlexes

theorem lexes_stepText {text : String} (h : IsStepText text) :
    Lexes afterTerm (":" ++ text).toList [":" ++ text] := by
  apply lexes_plainWord
  unfold isPlainWord
  simp only [String.toList_append]
  have hstart : isIdentStart ':' := by decide
  have hall : text.toList.all isIdentChar := List.all_eq_true.2 h
  simp [hstart, hall]

/-- The end of a window from the colon on. -/
theorem lexes_windowEnd {range : Range} (hstep : ∀ d ∈ range.step, IsStepText d.render) :
    ∃ c cs, afterNumber c ∧
      ((if range.isSubquery then ":" else "") ++ Range.renderDuration range.step ++ "]").toList =
        c :: cs ∧
      Lexes afterTerm (c :: cs)
        ((if range.isSubquery then [":" ++ Range.renderDuration range.step] else []) ++ ["]"]) := by
  have hend : Lexes afterTerm [']'] ["]"] := (lexes_punctuation (by decide)).mono fun _ _ => rfl
  split
  · have htext : IsStepText (Range.renderDuration range.step) := by
      intro c hc
      cases h : range.step with
      | none => simp [h, Range.renderDuration] at hc
      | some d => exact hstep d h c (by simpa [h, Range.renderDuration] using hc)
    have hboth := (lexes_stepText htext).append_cons hend (by decide)
    refine ⟨':', (Range.renderDuration range.step).toList ++ [']'], by decide, by simp, ?_⟩
    simpa using hboth
  · rename_i hplain
    have hnone : range.step = none := by
      cases h : range.step with
      | none => rfl
      | some d => simp [Range.isSubquery, h] at hplain
    exact ⟨']', [], by decide, by simp [hnone, Range.renderDuration], hend⟩

theorem lexes_window {range : Range} (hwindow : ∀ d ∈ range.window, IsNumeral d.render)
    (hstep : ∀ d ∈ range.step, IsStepText d.render) :
    Lexes afterTerm range.renderWindow.toList range.windowTokens := by
  unfold Range.renderWindow Range.windowTokens
  split
  · rcases lexes_windowEnd hstep with ⟨c, cs, hc, htext, hend⟩
    have hwidth : Lexes afterTerm ((Range.renderDuration range.window).toList ++ c :: cs)
        (optionTokens (fun d => [d.render]) range.window ++
          ((if range.isSubquery then [":" ++ Range.renderDuration range.step] else []) ++
            ["]"])) := by
      cases h : range.window with
      | none => simpa [Range.renderDuration, optionTokens] using hend
      | some d => exact (lexes_number (hwindow d h)).append_cons hend hc
    have hopen := hwidth.opened (c := '[') (by decide)
    rw [← htext] at hopen
    simpa using hopen
  · exact lexes_nil

theorem lexes_range {inner : Expr} {range : Range} {time : Option Expr}
    (h : (Expr.rollup inner range time).IsSpelled) {cs : List Char} {ts : List String}
    (hc : Lexes afterTerm cs ts) :
    Lexes afterTerm (cs ++ range.render.toList) (ts ++ range.tokens) := by
  rcases h with ⟨hwindow, hstep, hoffset⟩
  have hbracket : Lexes afterTerm (cs ++ range.renderWindow.toList) (ts ++ range.windowTokens) := by
    have hlexes := lexes_window hwindow hstep
    unfold Range.renderWindow Range.windowTokens at hlexes ⊢
    split
    · rename_i hset
      rw [if_pos hset, if_pos hset] at hlexes
      simp only [String.toList_append] at hlexes ⊢
      exact hc.append_cons hlexes (by decide)
    · simpa using hc
  have hword : Lexes afterTerm "offset".toList ["offset"] := lexes_plainWord (by decide)
  have htimes : ∀ d ∈ range.offset, Lexes afterTerm
      ((fun d => "offset " ++ Duration.render d) d).toList
      ((fun d => "offset" :: signedTokens d.render) d) := by
    intro d hd
    have hsigned := lexes_signedTokens (hoffset d hd).isNumber
    simpa using hword.spaced hsigned
  have hall := lexes_renderOptional (by decide) htimes hbracket
  simpa [Range.render, Range.tokens] using hall

/-! ## Selectors -/

theorem lexes_filter {f : LabelFilter} (h : f.label ≠ "") :
    Lexes afterTerm f.render.toList f.tokens := by
  have hsign : Lexes afterSign f.op.symbol.toList [f.op.symbol] := by
    have hmem : f.op.symbol.toList ∈ operatorSigns := by cases f.op <;> decide
    have hlexes := lexes_sign hmem
    rwa [String.ofList_toList] at hlexes
  have hquote : (quote f.value).toList = '"' :: (f.value.toList.flatMap quoteChar ++ ['"']) := by
    simp [quote]
  have hvalue := lexes_quote f.value
  rw [hquote] at hvalue
  have hright := hsign.append_cons hvalue (by decide)
  have hstart : ∃ c cs, f.op.symbol.toList = c :: cs ∧ afterIdent c := by
    cases f.op <;> exact ⟨_, _, rfl, by decide⟩
  rcases hstart with ⟨c, cs, hsymbol, hc⟩
  rw [hsymbol] at hright
  have hall := (lexes_escapeIdent h).append_cons hright hc
  have hfilter : Lexes anyChar f.render.toList f.tokens := by
    simpa [LabelFilter.render, LabelFilter.tokens, hsymbol, hquote] using hall
  exact hfilter.mono fun _ _ => rfl

theorem lexes_groups {groups : List (List LabelFilter)}
    (h : ∀ g ∈ groups, ∀ f ∈ g, f.label ≠ "") :
    Lexes afterTerm ('{' :: (String.intercalate " or "
        (groups.map fun g => String.intercalate "," (g.map LabelFilter.render))).toList ++ ['}'])
      (groupTokens groups) := by
  have hgroup : ∀ g ∈ groups, Lexes afterTerm
      (String.intercalate "," (g.map LabelFilter.render)).toList
      (separated "," (g.map LabelFilter.tokens)) := by
    intro g hg
    refine lexes_intercalate (fun cs ds ts us hc hd => ?_) fun f hf => lexes_filter (h g hg f hf)
    exact hc.followed (c := ',') (by decide) hd
  have hor : ∀ (cs ds : List Char) (ts us : List String), Lexes afterTerm cs ts →
      Lexes afterTerm ds us → Lexes afterTerm (cs ++ (" or ".toList ++ ds)) (ts ++ "or" :: us) := by
    intro cs ds ts us hc hd
    have hword : Lexes afterTerm ['o', 'r'] ["or"] := lexes_plainWord (show isPlainWord "or" by decide)
    exact hc.spaced (hword.spaced hd)
  have hall := lexes_intercalate hor hgroup
  exact (hall.closed (c := '}') (by decide)).opened (c := '{') (by decide)

theorem filter_writtenGroups (s : Selector) :
    (s.writtenGroups.map (List.map LabelFilter.render)).filter (fun g => !g.isEmpty) =
      s.writtenGroups.map (List.map LabelFilter.render) := by
  rw [List.filter_eq_self]
  intro g hg
  rcases List.mem_map.1 hg with ⟨fs, hfs, rfl⟩
  have hne := (List.mem_filter.1 hfs).2
  simpa using hne

/-- The text of a selector by its name and by the groups that are written. -/
theorem render_selector (s : Selector) :
    s.render = match s.name? with
      | none => "\x7b" ++ String.intercalate " or "
          (s.writtenGroups.map fun g => String.intercalate "," (g.map LabelFilter.render)) ++ "\x7d"
      | some name => escapeIdent name ++
          if s.writtenGroups.isEmpty then "" else "\x7b" ++ String.intercalate " or "
            (s.writtenGroups.map fun g => String.intercalate "," (g.map LabelFilter.render)) ++
              "\x7d" := by
  unfold Selector.render renderSelector
  rw [filter_writtenGroups]
  cases hname : s.name? with
  | none =>
      cases hgroups : s.writtenGroups with
      | nil => rfl
      | cons g gs => simp [Function.comp_def]
  | some name =>
      cases hgroups : s.writtenGroups with
      | nil => simp
      | cons g gs => simp [Function.comp_def, String.append_assoc]

theorem lexes_selector {s : Selector} (h : (Expr.selector s).IsSpelled) :
    Lexes afterTerm s.render.toList s.tokens := by
  have hgroups := lexes_groups h.2
  rw [render_selector]
  unfold Selector.tokens
  cases hname : s.name? with
  | none => simpa using hgroups
  | some name =>
      have hident := lexes_name (h.1 name hname)
      dsimp only
      split
      · simpa using hident
      · have hboth := hident.append_cons hgroups (by decide)
        simpa using hboth

/-! ## Expressions -/

theorem lexes_grouping {grouping : Grouping} (h : "" ∉ grouping.labels) :
    Lexes afterTerm grouping.render.toList grouping.tokens := by
  cases grouping with
  | «by» labels => exact lexes_wordLabels (show isPlainWord "by" by decide) h
  | without labels => exact lexes_wordLabels (show isPlainWord "without" by decide) h

theorem lexes_aggregateSuffix {a : Aggregation} {args : List Expr}
    (h : (Expr.aggregate a args).IsSpelled) {cs : List Char} {ts : List String}
    (hc : Lexes afterTerm cs ts) :
    Lexes afterTerm (cs ++ a.renderSuffix.toList) (ts ++ a.suffixTokens) := by
  have hgrouping := lexes_renderOptional (by decide) (fun g hg => lexes_grouping (h.2 g hg)) hc
  unfold Aggregation.renderSuffix Aggregation.suffixTokens
  split
  · rename_i hlimit
    have hword : Lexes afterTerm "limit".toList ["limit"] := lexes_plainWord (by decide)
    have hnumber := (lexes_number (isNumeral_toString hlimit)).mono afterNumber_of_afterTerm
    have hall := hgrouping.spaced (hword.spaced hnumber)
    simpa using hall
  · simpa using hgrouping

theorem lexes_parenthesize {text : String} {ts : List String} (needed : Bool)
    (h : Lexes afterTerm text.toList ts) :
    Lexes afterTerm (Expr.parenthesize needed text).toList (parenTokens needed ts) := by
  unfold Expr.parenthesize parenTokens
  split
  · simpa using h.parenthesized afterTerm
  · exact h

namespace Expr

theorem lexes_renderTuple {es : List Expr}
    (h : ∀ e ∈ es, Lexes afterTerm e.render.toList e.tokens) :
    Lexes afterTerm (renderTuple (renderList es)).toList (listTokens (tokensList es)) := by
  have hlist := lexes_listTokens (Or.inr (rfl : ", " = ", ")) afterTerm h
  simpa [renderTuple, renderList_eq_map, tokensList_eq_map] using hlist

theorem lexes_keepMark (keep : Bool) {cs : List Char} {ts : List String}
    (hc : Lexes afterTerm cs ts) :
    Lexes afterTerm (cs ++ (keepMark keep).toList)
      (ts ++ if keep then ["keep_metric_names"] else []) := by
  unfold keepMark
  split
  · have hword : Lexes afterTerm "keep_metric_names".toList ["keep_metric_names"] :=
      lexes_plainWord (by decide)
    simpa using hc.spaced hword
  · simpa using hc

/-- A name with a list of expressions behind it. -/
theorem lexes_called {name : String} (hname : name ≠ "") {es : List Expr}
    (h : ∀ e ∈ es, Lexes afterTerm e.render.toList e.tokens) :
    Lexes afterTerm (escapeIdent name ++ renderTuple (renderList es)).toList
      (escapeIdent name :: listTokens (tokensList es)) := by
  have hlist := lexes_renderTuple h
  have htext : (renderTuple (renderList es)).toList =
      '(' :: ((String.intercalate ", " (renderList es)).toList ++ [')']) := by
    simp [renderTuple]
  rw [htext] at hlist
  have hboth := (lexes_name hname).append_cons hlist (by decide)
  rwa [String.toList_append, htext]

/-- The canonical text of an expression has its tokens, in front of a blank or a bracket. -/
theorem lexes_render {e : Expr} (h : e.Spelled) : Lexes afterTerm e.render.toList e.tokens := by
  induction e using Expr.inductionOn with
  | number n => exact lexes_signedTokens h.self
  | duration d => exact lexes_isNumber (IsNumeral.isNumber h.self)
  | string value => exact (lexes_quote value).mono fun _ _ => rfl
  | concat s => exact lexes_segments h.self
  | selector s => exact lexes_selector h.self
  | selectorExpr s => exact h.self.elim
  | call name args keepNames ih =>
      have hparts := allNodes_call.1 h
      have hcalled := lexes_called hparts.1 fun e he => ih e he (hparts.2 e he)
      have hmark := lexes_keepMark keepNames hcalled
      simpa [render, tokens] using hmark
  | aggregate a args ih =>
      have hparts := allNodes_aggregate.1 h
      have hcalled := lexes_called hparts.1.1 fun e he => ih e he (hparts.2 e he)
      have hsuffix := lexes_aggregateSuffix hparts.1 hcalled
      simpa [render, tokens] using hsuffix
  | binary b l r ihl ihr =>
      have hparts := allNodes_binary.1 h
      have hleft := lexes_parenthesize (l.leftNeedsParens b.op) (ihl hparts.2.1)
      have hright := lexes_parenthesize r.rightNeedsParens (ihr hparts.2.2)
      have hoperator := lexes_operator hparts.1
      -- The blanks around the operator end both what is before and the operator itself.
      have hrest := hoperator.append_cons (lexes_space.append_any hright) rfl
      have hall := hleft.spaced hrest
      simp only [render, tokens]
      split
      · have hmark := lexes_keepMark true (hall.parenthesized afterTerm)
        simpa [keepMark] using hmark
      · simpa using hall
  | rollup inner range time ih iht =>
      have hparts := allNodes_rollup.1 h
      have hinner := lexes_parenthesize inner.innerNeedsParens (ih hparts.2.1)
      have hrange := lexes_range hparts.1 hinner
      cases time with
      | none => simpa [render, tokens, renderTimeOf, tokensOfTime] using hrange
      | some e =>
          -- The sign of the time stands between blanks, and so is a token by itself.
          have htime := lexes_parenthesize e.isBinary (iht e rfl (hparts.2.2 e rfl))
          have hspaced := (lexes_space.append_any htime).opened (c := '@') (by decide)
          have hall := hrange.spaced hspaced
          simpa [render, tokens, renderTimeOf, tokensOfTime, renderTime, timeTokens] using hall
  | tuple items ih =>
      have hparts := allNodes_tuple.1 h
      have hlist := lexes_renderTuple fun e he => ih e he (hparts.2 e he)
      simpa [render, tokens] using hlist
  | withTemplates ts body _ _ => exact h.self.elim

end Expr
end SeriesQuery
