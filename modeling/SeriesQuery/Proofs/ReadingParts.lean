import Mathlib.Algebra.Order.BigOperators.Group.List
import SeriesQuery.Proofs.Expanded
import SeriesQuery.Proofs.Quoting
import SeriesQuery.Proofs.Reading
import SeriesQuery.Proofs.SelectorForms

/-!
# Reading parts without operands

Each rule of the grammar that holds no expressions reads the tokens of what it is for, where these
stand in canonical text.
-/

namespace SeriesQuery

open Text

/-! ## Strings -/

/-- A string literal in front of these tokens goes on behind them. -/
def continues (s : List String) : Bool :=
  match s with
  | "+" :: next :: more =>
      startsQuoted next.toList ||
        (startsIdent next.toList && !(current more == "(" || current more == "\x7b"))
  | _ => false

theorem continues_of_ne {s : List String} (h : current s ≠ "+") : continues s = false := by
  unfold continues
  split
  · exact absurd rfl h
  · rfl

namespace Reader

variable {s l : List String}

theorem takes_continuesString : Takes continuesString s (continues s) s := by
  by_cases hplus : current s = "+"
  · refine (takes_isToken hplus).ifTrue ?_
    cases s with
    | nil => exact absurd hplus (by decide)
    | cons t rest =>
        rw [current_cons] at hplus
        subst hplus
        refine (takes_lookAt 1).bind ?_
        cases rest with
        | nil => exact takes_pure
        | cons next more =>
            dsimp only [List.getElem?_cons_succ, List.getElem?_cons_zero, Option.getD_some]
            by_cases hquoted : startsQuoted next.toList
            · simp only [hquoted, if_true, continues, Bool.true_or]
              exact takes_pure
            · by_cases hident : startsIdent next.toList
              · simp only [hquoted, hident, if_true, continues, Bool.false_or, Bool.true_and]
                refine (takes_lookAt 2).bind ?_
                have hmore : ("+" :: next :: more)[2]?.getD "" = current more := by
                  cases more <;> rfl
                rw [hmore]
                exact takes_pure
              · simp only [hquoted, hident, continues, Bool.false_or, Bool.false_and]
                exact takes_pure
  · rw [continues_of_ne hplus]
    exact (takes_notToken hplus).ifFalse takes_pure

theorem startsQuoted_quote (value : String) : startsQuoted (quote value).toList := by
  simp [quote, startsQuoted, isQuote]

theorem takes_literal (value : String) (s : StringExpr) :
    Takes (segment s) (quote value :: l) (s.pushLiteral value) (quote value :: l) := by
  refine takes_token.bind ?_
  simp only [current_cons, startsQuoted_quote, if_true]
  exact (takes_ofExcept (unquote_quote value)).bind takes_pure

theorem takes_stringExpr {value : String} (h : continues l = false) :
    Takes stringExpr (quote value :: l) (.ofLiteral value) l := by
  have hstring : ∀ fuel, Takes (stringFrom .empty (fuel + 1)) (quote value :: l)
      (.ofLiteral value) l := by
    intro fuel
    refine (takes_literal value .empty).bind (takes_bump.bind ?_)
    have hend := takes_continuesString (s := l)
    rw [h] at hend
    exact hend.ifFalse takes_pure
  exact reads_count (k := fun n => stringFrom .empty (n + 1)) (hstring _)

/-! ## Lists of labels -/

end Reader

/-- The labels can be read back from a list in parentheses, where a star must stand alone. -/
structure LegibleLabels (labels : List String) : Prop where
  legible : ∀ label ∈ labels, IsLegible label
  star : "*" ∈ labels → labels = ["*"]

theorem LegibleLabels.unmixed {labels : List String} (h : LegibleLabels labels) :
    (1 < labels.length && labels.contains "*") = false := by
  by_cases hstar : "*" ∈ labels
  · rw [h.star hstar]
    rfl
  · simp [hstar]

namespace Reader

variable {s l : List String}

theorem readsItem_label {name : String} (h : IsLegible name) (allowStar : Bool) :
    TakesItem (label allowStar) [escapeIdent name] name := by
  refine ⟨by simp, escapeIdent_ne _ h.ne_empty (by decide), fun l _ => ?_⟩
  have hstar := escapeIdent_ne "*" h.ne_empty (by decide)
  cases allowStar with
  | false => exact takes_identifier h .identList
  | true =>
      have hnot : Takes (atToken "*") (escapeIdent name :: l) false (escapeIdent name :: l) :=
        takes_notToken hstar
      exact hnot.ifFalse (takes_identifier h .identList)

theorem takes_labels {names : List String} (h : LegibleLabels names) (allowStar : Bool) :
    Takes (labels allowStar) (labelTokens names ++ l) names l := by
  have hitems : ∀ name ∈ names, TakesItem (label allowStar)
      ((fun label => [escapeIdent label]) name) (id name) :=
    fun name hname => readsItem_label (h.legible name hname) allowStar
  have hlist := reads_parenthesized .identList hitems l
  rw [List.map_id] at hlist
  have hnames : Takes (parenthesized .identList (label allowStar)) (labelTokens names ++ l) names l :=
    hlist.congr (by simp)
  refine hnames.bind ?_
  simp only [h.unmixed]
  exact takes_pure

theorem takes_star : Takes (labels true) ("(" :: "*" :: ")" :: l) ["*"] l := by
  have hitem : TakesItem (label true) ["*"] "*" := by
    refine ⟨by simp, by decide, fun l _ => ?_⟩
    have hstar : Takes (atToken "*") ("*" :: l) true ("*" :: l) := takes_isToken rfl
    exact hstar.ifTrue (takes_bump.bind takes_pure)
  have hitems : ∀ name ∈ ["*"], TakesItem (label true)
      ((fun _ => ["*"]) name) (id name) := by
    intro name hname
    rcases List.mem_singleton.1 hname with rfl
    exact hitem
  have hlist := reads_parenthesized .identList hitems l
  have hnames : Takes (parenthesized .identList (label true)) ("(" :: "*" :: ")" :: l) ["*"] l :=
    hlist.congr (by simp)
  exact hnames.bind takes_pure

end Reader

/-! ## Selectors -/

/-- The filter can be read back from its text. -/
structure LegibleFilter (f : LabelFilter) : Prop where
  label : IsLegible f.label
  valid : f.isValid

theorem ofSymbol?_symbol (op : FilterOp) : FilterOp.ofSymbol? op.symbol = some op := by
  cases op <;> decide

theorem LegibleFilter.ofParts? {f : LabelFilter} (h : LegibleFilter f) :
    FilterExpr.ofParts? f.op f.label (.ofLiteral f.value) = .ok (.ofFilter f) := by
  have hcheck : LabelFilter.ofParts? f.op f.label f.value = .ok f := if_pos h.valid
  simp only [FilterExpr.ofParts?, StringExpr.literal?_ofLiteral, hcheck]
  rfl

namespace Reader

variable {s l : List String}

theorem takes_ofSelectorExpr {sel : Selector}
    (h : ∀ g ∈ sel.groups, ∀ f ∈ g, LegibleFilter f) :
    Takes (ofSelectorExpr (.ofSelector sel)) s (.selector sel) s := by
  unfold ofSelectorExpr
  rw [if_pos (SelectorExpr.isResolved_ofSelector sel)]
  have hvalid := SelectorExpr.toSelector_ofSelector fun g hg f hf => (h g hg f hf).valid
  exact (takes_ofExcept hvalid).bind takes_pure

theorem takes_labelFilter {f : LabelFilter} (h : LegibleFilter f) (hl : continues l = false) :
    Takes labelFilter (f.tokens ++ l) (.ofFilter f) l := by
  have htokens : f.tokens ++ l = escapeIdent f.label :: f.op.symbol :: quote f.value :: l := rfl
  rw [htokens]
  refine (takes_identifier h.label .labelFilter).bind (takes_token.bind ?_)
  simp only [current_cons, ofSymbol?_symbol]
  exact takes_bump.bind ((takes_stringExpr hl).bind (takes_ofExcept h.ofParts?))

theorem current_filterTokens {f : LabelFilter} (h : IsLegible f.label) (g : List LabelFilter)
    (groups : List (List LabelFilter)) (l : List String) :
    current (separated "or" (((f :: g) :: groups).map fun g =>
      separated "," (g.map LabelFilter.tokens)) ++ l) ≠ "\x7d" := by
  have hne := escapeIdent_ne "\x7d" h.ne_empty (by decide)
  cases g <;> cases groups <;> exact hne

/-- The filters in groups that each hold one at least, in front of the closing brace. -/
theorem takes_filterGroups {groups : List (List LabelFilter)}
    (hlegible : ∀ g ∈ groups, ∀ f ∈ g, LegibleFilter f) (hfull : ∀ g ∈ groups, g ≠ [])
    (hne : groups ≠ []) {fuel : Nat} (hfuel : (groups.map List.length).sum ≤ fuel) (l : List String) :
    Takes (filterGroups fuel)
      (separated "or" (groups.map fun g => separated "," (g.map LabelFilter.tokens)) ++ "\x7d" :: l)
      (groups.map (List.map FilterExpr.ofFilter)) l := by
  induction fuel generalizing groups with
  | zero =>
      rcases List.exists_cons_of_ne_nil hne with ⟨g, gs, rfl⟩
      have hpos := List.length_pos_iff.2 (hfull g List.mem_cons_self)
      simp only [List.map_cons, List.sum_cons] at hfuel
      omega
  | succ fuel ih =>
      rcases List.exists_cons_of_ne_nil hne with ⟨g, gs, rfl⟩
      rcases List.exists_cons_of_ne_nil (hfull g List.mem_cons_self) with ⟨f, fs, rfl⟩
      have hgroups := List.forall_mem_cons.1 hlegible
      have hfilters := List.forall_mem_cons.1 hgroups.1
      have hmore := List.forall_mem_cons.1 hfull
      simp only [List.map_cons, List.sum_cons, List.length_cons] at hfuel
      cases fs with
      | nil =>
          cases gs with
          | nil =>
              -- The last filter of all.
              refine (takes_labelFilter hfilters.1 (continues_of_ne (by simp))).bind ?_
              refine (takes_notToken (by simp)).ifFalse ((takes_isToken rfl).ifTrue ?_)
              exact takes_bump.bind takes_pure
          | cons g' gs =>
              -- The last filter of a group that another one comes behind.
              rcases List.exists_cons_of_ne_nil (hmore.2 g' List.mem_cons_self) with ⟨f', fs', rfl⟩
              have hlabel := (hgroups.2 _ List.mem_cons_self f' List.mem_cons_self).label
              have hrest := ih hgroups.2 hmore.2 (by simp)
                (by simp only [List.map_cons, List.sum_cons, List.length_cons] at hfuel ⊢; omega)
              have hbrace := current_filterTokens hlabel fs' gs ("\x7d" :: l)
              have htokens : separated "or" (([f] :: (f' :: fs') :: gs).map fun g =>
                  separated "," (g.map LabelFilter.tokens)) = f.tokens ++ "or" ::
                  separated "or" (((f' :: fs') :: gs).map fun g =>
                    separated "," (g.map LabelFilter.tokens)) := rfl
              rw [htokens, List.append_assoc]
              refine (takes_labelFilter hfilters.1 (continues_of_ne (by simp))).bind ?_
              refine (takes_notToken (by simp)).ifFalse ((takes_notToken (by simp)).ifFalse ?_)
              have hword : sameWord "or" "or" := by decide
              refine (takes_isWord hword).ifTrue (takes_bump.bind ?_)
              exact (takes_notToken hbrace).ifFalse (hrest.bind takes_pure)
      | cons f' fs =>
          -- A filter that another one of the same group comes behind.
          have hlabel := (hfilters.2 f' List.mem_cons_self).label
          have hrest := @ih ((f' :: fs) :: gs) (List.forall_mem_cons.2 ⟨hfilters.2, hgroups.2⟩)
            (List.forall_mem_cons.2 ⟨by simp, hmore.2⟩) (by simp)
            (by simp only [List.map_cons, List.sum_cons, List.length_cons] at hfuel ⊢; omega)
          have hbrace := current_filterTokens hlabel fs gs ("\x7d" :: l)
          have htokens : separated "or" (((f :: f' :: fs) :: gs).map fun g =>
              separated "," (g.map LabelFilter.tokens)) = f.tokens ++ "," ::
              separated "or" (((f' :: fs) :: gs).map fun g =>
                separated "," (g.map LabelFilter.tokens)) := by
            have hsplit := separated_append "or" (f.tokens ++ [","])
              (separated "," ((f' :: fs).map LabelFilter.tokens))
              (gs.map fun g => separated "," (g.map LabelFilter.tokens))
            simpa [separated] using hsplit
          rw [htokens, List.append_assoc]
          refine (takes_labelFilter hfilters.1 (continues_of_ne (by simp))).bind ?_
          refine (takes_isToken rfl).ifTrue (takes_bump.bind ?_)
          exact (takes_notToken hbrace).ifFalse (hrest.bind takes_pure)

end Reader
theorem length_le_filterTokens (g : List LabelFilter) :
    g.length ≤ (separated "," (g.map LabelFilter.tokens)).length := by
  have hfull : ∀ ts ∈ g.map LabelFilter.tokens, ts ≠ [] := by
    intro ts hts
    rcases List.mem_map.1 hts with ⟨f, _, rfl⟩
    simp [LabelFilter.tokens]
  have hle := length_le_separated "," hfull
  rwa [List.length_map] at hle

theorem sum_length_le_groupTokens (groups : List (List LabelFilter)) :
    (groups.map List.length).sum ≤ (groupTokens groups).length := by
  have hsum := sum_length_le_separated "or"
    (groups.map fun g => separated "," (g.map LabelFilter.tokens))
  have hgroups : (groups.map List.length).sum ≤
      ((groups.map fun g => separated "," (g.map LabelFilter.tokens)).map List.length).sum := by
    rw [List.map_map]
    exact List.sum_le_sum fun g _ => length_le_filterTokens g
  simp only [groupTokens, List.length_append, List.length_cons]
  omega

/-- All filters of the groups can be read back. -/
abbrev LegibleGroups (groups : List (List LabelFilter)) : Prop :=
  ∀ g ∈ groups, ∀ f ∈ g, LegibleFilter f

namespace Reader

variable {s l : List String}

theorem takes_bracedFilters {groups : List (List LabelFilter)} (hlegible : LegibleGroups groups)
    (hfull : ∀ g ∈ groups, g ≠ []) (l : List String) :
    Takes bracedFilters (groupTokens groups ++ l) (groups.map (List.map FilterExpr.ofFilter)) l := by
  have hlength := sum_length_le_groupTokens groups
  simp only [groupTokens, List.cons_append, List.append_assoc, List.nil_append, List.length_cons,
    List.length_append, List.length_nil] at hlength ⊢
  refine (takes_expect "\x7b" .labelFilters).bind ?_
  cases groups with
  | nil => exact (takes_isToken rfl).ifTrue (takes_bump.bind takes_pure)
  | cons g gs =>
      rcases List.exists_cons_of_ne_nil (hfull g List.mem_cons_self) with ⟨f, fs, rfl⟩
      have hlabel := (hlegible _ List.mem_cons_self f List.mem_cons_self).label
      refine (takes_notToken (current_filterTokens hlabel _ _ _)).ifFalse ?_
      refine reads_count (k := fun n => filterGroups (n + 1)) ?_
      exact takes_filterGroups hlegible hfull (by simp)
        (by simp only [List.length_append, List.length_cons]; omega) l

end Reader

namespace Selector

/-- The selector that is read from the text of the selector: groups that are not written are gone,
and the name stands before each group. -/
def reread (s : Selector) : Selector :=
  match s.name? with
  | none => ⟨s.writtenGroups⟩
  | some name =>
      if s.writtenGroups.isEmpty then .ofName name
      else ⟨s.writtenGroups.map (.equal nameLabel name :: ·)⟩

end Selector

theorem isLegible_nameLabel : IsLegible nameLabel :=
  ⟨by decide, by decide⟩

theorem legibleFilter_name (name : String) : LegibleFilter (.equal nameLabel name) where
  label := isLegible_nameLabel
  valid := rfl

theorem ne_nil_of_mem_writtenGroups {s : Selector} : ∀ g ∈ s.writtenGroups, g ≠ [] := by
  intro g hg
  have hne := (List.mem_filter.1 hg).2
  simpa using hne

namespace Reader

variable {l : List String}

/-- Filters in braces without a name before them. -/
theorem takes_namelessMetric {groups : List (List LabelFilter)} (hgroups : LegibleGroups groups)
    (hfull : ∀ g ∈ groups, g ≠ []) :
    Takes metric (groupTokens groups ++ l) (.selector ⟨groups⟩) l := by
  refine takes_token.bind ?_
  have hstart : startsIdent (current (groupTokens groups ++ l)).toList = false := by
    simp [groupTokens]
    decide
  simp only [hstart]
  refine (takes_bracedFilters hgroups hfull l).bind ?_
  exact @takes_ofSelectorExpr _ ⟨groups⟩ hgroups

theorem takes_metric {s : Selector} (hname : ∀ name ∈ s.name?, IsLegible name)
    (hgroups : LegibleGroups s.writtenGroups) (hl : current l ≠ "\x7b") :
    Takes metric (s.tokens ++ l) (.selector s.reread) l := by
  have hfull := ne_nil_of_mem_writtenGroups (s := s)
  unfold Selector.tokens Selector.reread
  cases hs : s.name? with
  | none => exact takes_namelessMetric hgroups hfull
  | some name =>
      have hlegible := hname name hs
      have hstart := startsIdent_escapeIdent hlegible.ne_empty
      dsimp only
      refine takes_token.bind ?_
      simp only [List.cons_append, current_cons, hstart, if_true]
      refine (takes_identifier hlegible .metric).bind ?_
      -- Without braces the name is the only filter; with them it comes before each group.
      by_cases hempty : s.writtenGroups.isEmpty
      · simp only [hempty, if_true, List.nil_append]
        refine (takes_notToken hl).ifFalse ?_
        exact @takes_ofSelectorExpr _ (.ofName name) (by
          simpa [Selector.ofName] using legibleFilter_name name)
      · have hbraces := takes_bracedFilters hgroups hfull l
        simp only [hempty]
        have hopen : current (groupTokens s.writtenGroups ++ l) = "\x7b" := rfl
        refine (takes_isToken hopen).ifTrue (hbraces.bind ?_)
        have hselector := @takes_ofSelectorExpr l
          ⟨s.writtenGroups.map (.equal nameLabel name :: ·)⟩ (by
            intro g hg f hf
            rcases List.mem_map.1 hg with ⟨g', hg', rfl⟩
            rcases List.mem_cons.1 hf with rfl | hf
            · exact legibleFilter_name name
            · exact hgroups g' hg' f hf)
        have hnamed : nameGroups name (s.writtenGroups.map (List.map FilterExpr.ofFilter)) =
            (s.writtenGroups.map (.equal nameLabel name :: ·)).map (List.map FilterExpr.ofFilter) := by
          have hne : (s.writtenGroups.map (List.map FilterExpr.ofFilter)).isEmpty = false := by
            simpa using hempty
          simp [nameGroups, hne, Function.comp_def, FilterExpr.named, FilterExpr.ofFilter,
            LabelFilter.equal]
        rw [hnamed]
        exact hselector

end Reader
/-! ## Binary operators -/

namespace BinaryOp

/-- The labels and the string of the modifiers can be read back. -/
structure Legible (b : BinaryOp) : Prop where
  matching : ∀ m ∈ b.matching, LegibleLabels m.labels
  join : ∀ j ∈ b.join, LegibleLabels j.labels

theorem legible_plain (op : Operator) : (plain op).Legible := by
  constructor <;> simp [plain]

/-- The token would be read as one more modifier of the operator. -/
def takesMore (b : BinaryOp) (t : String) : Bool :=
  match b.matching, b.join with
  | none, _ => (!b.asBool && sameWord t "bool") || (MatchingKind.ofWord? t).isSome
  | some _, none => (JoinSide.ofWord? t).isSome
  | some _, some _ => b.joinLead.isNone && sameWord t "prefix"

end BinaryOp

namespace Reader

variable {l : List String}

theorem takes_joinLead {lead : Option StringExpr}
    (hlead : ∀ s ∈ lead, ∃ value, s.segments = [.literal value])
    (hmore : lead = none → sameWord (current l) "prefix" = false) (hplus : current l ≠ "+") :
    Takes joinLead (optionTokens (fun lead => "prefix" :: lead.tokens) lead ++ l) lead l := by
  cases lead with
  | none => exact (takes_notWord (hmore rfl)).ifFalse takes_pure
  | some s =>
      rcases hlead s rfl with ⟨value, hsegments⟩
      have heq : s = .ofLiteral value := by
        cases s
        cases hsegments
        rfl
      subst heq
      have hword : sameWord "prefix" "prefix" := by decide
      refine (takes_isWord hword).ifTrue (takes_bump.bind ?_)
      exact (takes_stringExpr (continues_of_ne hplus)).bind takes_pure

theorem ofWord?_joinWord (side : JoinSide) : JoinSide.ofWord? side.word = some side := by
  cases side <;> decide

theorem ofWord?_matchingWord (kind : MatchingKind) :
    MatchingKind.ofWord? kind.word = some kind := by
  cases kind <;> decide

theorem takes_joinLabels {j : Join} (h : LegibleLabels j.labels) (l : List String) :
    Takes (labels true) ((if j.labels = ["*"] then ["(", "*", ")"] else labelTokens j.labels) ++ l)
      j.labels l := by
  split
  · rename_i hstar
    rw [hstar]
    exact takes_star
  · exact takes_labels h true

theorem takes_join {b : BinaryOp} (hw : b.WellFormed) (h : b.Legible)
    (hmatching : b.matching.isSome) (hnext : b.takesMore (current l) = false)
    (hplus : current l ≠ "+") :
    Takes (join b.op) (optionTokens Join.tokens b.join ++
      (optionTokens (fun lead => "prefix" :: lead.tokens) b.joinLead ++ l)) (b.join, b.joinLead) l := by
  rcases Option.isSome_iff_exists.1 hmatching with ⟨m, hm⟩
  cases hj : b.join with
  -- The next token is no word for a join, as else it would be taken for one.
  | none =>
      have hlead := hw.joinLead_eq_none hj
      simp only [BinaryOp.takesMore, hm, hj] at hnext
      simp only [hlead, optionTokens, List.nil_append]
      refine takes_token.bind ?_
      rw [Option.isSome_eq_false_iff, Option.isNone_iff_eq_none] at hnext
      simp only [hnext]
      exact takes_pure
  | some j =>
      have hparts := hw.join j hj
      simp only [BinaryOp.takesMore, hm, hj] at hnext
      simp only [optionTokens, Join.tokens, List.cons_append]
      refine takes_token.bind ?_
      simp only [current_cons, ofWord?_joinWord, hparts.2.1]
      refine takes_bump.bind ?_
      have hopen : ∀ l, current
          ((if j.labels = ["*"] then ["(", "*", ")"] else labelTokens j.labels) ++ l) = "(" := by
        intro l
        split <;> rfl
      refine (takes_isToken (hopen _)).ifTrue ((takes_joinLabels (h.join j hj) _).bind ?_)
      have hlead := @takes_joinLead l b.joinLead (fun s hs => (hw.joinLead s hs).2)
        (fun hnone => by simpa [hnone] using hnext) hplus
      exact hlead.bind takes_pure

theorem takes_boolModifier {b : BinaryOp} (hw : b.WellFormed) {s : List String}
    (hnext : b.asBool = false → sameWord (current s) "bool" = false) :
    Takes (boolModifier b.op) ((if b.asBool then ["bool"] else []) ++ s) b.asBool s := by
  by_cases hbool : b.asBool
  · have hword : sameWord "bool" "bool" := by decide
    simp only [hbool, if_true, List.cons_append, List.nil_append]
    refine (takes_isWord hword).ifTrue ?_
    simp only [hw.asBool hbool, if_true]
    exact takes_bump.bind takes_pure
  · rw [Bool.not_eq_true] at hbool
    simp only [hbool]
    exact (takes_notWord (hnext hbool)).ifFalse takes_pure

/-- The modifiers of an operator are read up to a token that is not one more of them. -/
theorem takes_modifiers {b : BinaryOp} (hw : b.WellFormed) (h : b.Legible)
    (hnext : b.takesMore (current l) = false) (hplus : current l ≠ "+") :
    Takes (modifiers b.op) (b.modifierTokens ++ l) { b with keepNames := false } l := by
  unfold BinaryOp.modifierTokens
  rw [List.append_assoc, List.append_assoc, List.append_assoc]
  cases hm : b.matching with
  | none =>
      have hjoin := hw.join_eq_none hm
      have hlead := hw.joinLead_eq_none hjoin
      simp only [BinaryOp.takesMore, hm, Bool.or_eq_false_iff, Bool.and_eq_false_iff,
        Bool.not_eq_false'] at hnext
      simp only [hjoin, hlead, optionTokens, List.nil_append]
      have hbool : b.asBool = false → sameWord (current l) "bool" = false := by
        intro hfalse
        simpa [hfalse] using hnext.1
      refine (takes_boolModifier hw hbool).bind (takes_token.bind ?_)
      have hnone := hnext.2
      rw [Option.isSome_eq_false_iff, Option.isNone_iff_eq_none] at hnone
      simp only [hnone]
      exact takes_pure
  | some m =>
      simp only [optionTokens, Matching.tokens, List.cons_append]
      -- The word for the matching stands next, which is not `bool`.
      have hbool : ∀ s, b.asBool = false → sameWord (current (m.kind.word :: s)) "bool" = false := by
        intro s _
        simp only [current_cons]
        cases m.kind <;> decide
      refine (takes_boolModifier hw (hbool _)).bind (takes_token.bind ?_)
      simp only [current_cons, ofWord?_matchingWord]
      refine takes_bump.bind ((takes_labels (h.matching m hm) false).bind ?_)
      refine (takes_join hw h (by simp [hm]) hnext hplus).bind ?_
      exact takes_pure

end Reader
/-! ## Aggregates -/

theorem readDigits_toDigits (n acc : Nat) :
    ∃ k, readDigits 10 (Nat.toDigits 10 n) acc = some (acc * k + n) := by
  induction n using Nat.strongRecOn generalizing acc with
  | ind n ih =>
      have hdigit : ∀ d < 10, digitIn 10 d.digitChar = some d := by decide
      by_cases hsmall : n < 10
      · refine ⟨10, ?_⟩
        rw [Nat.toDigits_of_lt_base hsmall]
        simp [readDigits, hdigit n hsmall]
      · rcases ih (n / 10) (by omega) acc with ⟨k, hk⟩
        refine ⟨k * 10, ?_⟩
        rw [Nat.toDigits_of_base_le (by decide) (by omega), readDigits_append, hk]
        have hlast := hdigit (n % 10) (Nat.mod_lt n (by decide))
        simp only [Option.bind_some, readDigits, hlast, Option.some.injEq]
        have hdiv := Nat.div_add_mod n 10
        rw [Nat.add_mul, Nat.mul_assoc]
        omega

theorem readUnsigned_toString (n : Nat) : readUnsigned 10 (toString n).toList = some n := by
  have htext : (toString n).toList = Nat.toDigits 10 n := Nat.toList_repr
  rcases readDigits_toDigits n 0 with ⟨k, hread⟩
  rw [htext]
  cases hdigits : Nat.toDigits 10 n with
  | nil => exact absurd hdigits Nat.toDigits_ne_nil
  | cons c cs =>
      have hdigit := isDigit_of_mem_toDigits (n := n) (c := c) (by simp [hdigits])
      have hplus : c ≠ '+' := by
        rintro rfl
        exact absurd hdigit (by decide)
      rw [hdigits] at hread
      simp [readUnsigned, hplus, readNat, hread]

namespace Reader

variable {l : List String}

theorem takes_limit {n : Nat} (h : n < 2 ^ 64) :
    Takes limit ("limit" :: toString n :: l) n l := by
  refine takes_bump.bind (takes_token.bind ?_)
  have hbound : n < Nat.pow 2 64 := h
  have hfilter : (readUnsigned 10 (toString n).toList).filter (· < Nat.pow 2 64) = some n := by
    rw [readUnsigned_toString]
    exact Option.filter_some_pos (by simpa using hbound)
  simp only [current_cons, hfilter]
  exact takes_bump.bind takes_pure

theorem takes_grouping {g : Grouping} (h : LegibleLabels g.labels) :
    Takes grouping (g.tokens ++ l) g l := by
  cases g with
  | «by» names =>
      have hword : sameWord "by" "by" := by decide
      exact (takes_isWord hword).bind (takes_bump.bind ((takes_labels h false).bind takes_pure))
  | without names =>
      have hword : sameWord (current ("without" :: labelTokens names ++ l)) "by" = false := by
        simp only [List.cons_append, current_cons]
        decide
      exact (takes_notWord hword).bind (takes_bump.bind ((takes_labels h false).bind takes_pure))

theorem takes_atGrouping {s : List String} : Takes atGrouping s
    (sameWord (current s) "by" || sameWord (current s) "without") s :=
  (takes_atWord "by").bind ((takes_atWord "without").bind takes_pure)

end Reader

/-! ## Durations -/

/-- The duration can be read back from its text where no sign may stand. -/
structure LegibleDuration (d : Duration) : Prop where
  resolved : d.isTemplate = false
  numeral : IsNumeral d.text
  reads : isPositiveDuration d.text ∨ startsNumber d.text.toList ∧ Reader.bareSeconds d.text = .ok d

/-- The duration can be read back from its text, which may have a minus. -/
structure LegibleOffset (d : Duration) : Prop where
  resolved : d.isTemplate = false
  magnitude : LegibleDuration ⟨magnitude d.text, false⟩

/-- The duration is read from its text, be that a token or the rest of one. -/
structure ReadableDuration (d : Duration) : Prop where
  resolved : d.isTemplate = false
  reads : isPositiveDuration d.text ∨ startsNumber d.text.toList ∧ Reader.bareSeconds d.text = .ok d

theorem startsIdent_of_startsNumeral {c : Char} (h : startsNumeral c) (cs : List Char) :
    startsIdent (c :: cs) = false := by
  cases hident : startsIdent (c :: cs) with
  | false => rfl
  | true =>
      simp only [startsIdent, Bool.or_eq_true, beq_iff_eq] at hident
      simp only [startsNumeral, Bool.or_eq_true, beq_iff_eq] at h
      exfalso
      rcases hident with rfl | hletter
      · revert h
        decide
      · have hle := le_toNat_of_isIdentStart hletter
        rcases h with hdigit | rfl
        · have hrange := isDigit_iff.1 hdigit
          omega
        · exact absurd hle (by decide)

theorem startsIdent_of_numeral {text : String} (h : IsNumeral text) :
    startsIdent text.toList = false := by
  rcases h.start with ⟨c, cs, htext, hstart⟩
  rw [htext]
  exact startsIdent_of_startsNumeral hstart cs

/-- A numeral is none of the other tokens. -/
theorem IsNumeral.ne {text other : String} (h : IsNumeral text)
    (hother : ∀ c cs, other.toList = c :: cs → startsNumeral c = false) : text ≠ other := by
  rintro rfl
  rcases h.start with ⟨c, cs, htext, hstart⟩
  rw [hother c cs htext] at hstart
  cases hstart

theorem legibleDuration_of_positive {text : String} (h : isPositiveDuration text) :
    LegibleDuration ⟨text, false⟩ :=
  ⟨rfl, isNumeral_of_isPositiveDuration h, .inl h⟩

namespace LegibleDuration

variable {d : Duration}

theorem readable (h : LegibleDuration d) : ReadableDuration d :=
  ⟨h.resolved, h.reads⟩

theorem render_eq (h : LegibleDuration d) : d.render = d.text := by
  simp [Duration.render, h.resolved]

end LegibleDuration

namespace ReadableDuration

variable {d : Duration} (h : ReadableDuration d)
include h

theorem eq : d = ⟨d.text, false⟩ := by
  cases d
  have hresolved := h.resolved
  cases hresolved
  rfl

theorem render_eq : d.render = d.text := by
  simp [Duration.render, h.resolved]

theorem start : ∃ c cs, d.text.toList = c :: cs ∧ startsNumeral c := by
  rcases h.reads with hpositive | ⟨hnumber, _⟩
  · exact (isNumeral_of_isPositiveDuration hpositive).start
  · cases htext : d.text.toList with
    | nil =>
        rw [htext] at hnumber
        cases hnumber
    | cons c cs =>
        refine ⟨c, cs, rfl, ?_⟩
        rw [htext] at hnumber
        unfold startsNumber at hnumber
        split at hnumber
        · rename_i heq
          cases heq
          rfl
        · rename_i heq
          cases heq
          simp [startsNumeral, hnumber]
        · cases hnumber

theorem ne {other : String} (hother : ∀ c cs, other.toList = c :: cs → startsNumeral c = false) :
    d.text ≠ other := by
  rintro rfl
  rcases h.start with ⟨c, cs, htext, hstart⟩
  rw [hother c cs htext] at hstart
  cases hstart

end ReadableDuration

namespace Reader

variable {l : List String}

theorem takes_duration {d : Duration} (h : ReadableDuration d) :
    Takes duration (d.text :: l) d l := by
  rcases h.start with ⟨c, cs, htext, hstart⟩
  refine takes_token.bind ?_
  simp only [current_cons, htext, startsIdent_of_startsNumeral hstart]
  rw [← htext]
  by_cases hpositive : isPositiveDuration d.text
  · simp only [hpositive, if_true]
    refine takes_bump.bind ?_
    rw [← h.eq]
    exact takes_pure
  · rcases h.reads with hduration | ⟨hnumber, hseconds⟩
    · exact absurd hduration hpositive
    · simp only [hpositive, hnumber, if_true]
      exact (takes_ofExcept hseconds).bind (takes_bump.bind takes_pure)

theorem takes_offset {d : Duration} (h : LegibleOffset d) :
    Takes offset ("offset" :: signedTokens d.render ++ l) (some d) l := by
  have hrender : d.render = d.text := by simp [Duration.render, h.resolved]
  have hword : sameWord "offset" "offset" := by decide
  rw [hrender]
  refine (takes_isWord hword).ifTrue (takes_bump.bind ?_)
  unfold signedTokens
  split
  · rename_i hminus
    have hmagnitude := takes_duration h.magnitude.readable (l := l)
    refine (takes_isToken rfl).ifTrue (takes_bump.bind (hmagnitude.bind ?_))
    -- The minus is put before the magnitude again.
    have heq : (⟨"-" ++ magnitude d.text, false⟩ : Duration) = d := by
      rw [minus_append_magnitude hminus]
      cases d
      have hresolved := h.resolved
      cases hresolved
      rfl
    have hdone : Takes (pure (some ⟨"-" ++ magnitude d.text, false⟩) : Reader _) l (some d) l := by
      rw [heq]
      exact takes_pure
    exact hdone
  · rename_i hplain
    have hmagnitude := magnitude_of_not_isNegated (by simpa using hplain)
    have hduration : LegibleDuration d := by
      have hsame := h.magnitude
      rw [hmagnitude] at hsame
      cases d
      have hresolved := h.resolved
      cases hresolved
      exact hsame
    have hminus : current ([d.text] ++ l) ≠ "-" := by
      refine hduration.numeral.ne ?_
      rintro c cs heq
      cases heq
      decide
    exact (takes_notToken hminus).ifFalse ((takes_duration hduration.readable).bind takes_pure)

theorem takes_noOffset (h : sameWord (current l) "offset" = false) : Takes offset l none l :=
  (takes_notWord h).ifFalse takes_pure

end Reader

/-- The window and the step can be read back; the step is the rest of an identifier. -/
structure LegibleWindow (r : Range) : Prop where
  window : ∀ d ∈ r.window, LegibleDuration d
  step : ∀ d ∈ r.step, LegibleDuration d

/-- The window and the step are read from their texts. -/
structure ReadableWindow (r : Range) : Prop where
  window : ∀ d ∈ r.window, ReadableDuration d
  step : ∀ d ∈ r.step, ReadableDuration d

theorem LegibleWindow.readable {r : Range} (h : LegibleWindow r) : ReadableWindow r where
  window d hd := (h.window d hd).readable
  step d hd := (h.step d hd).readable

/-- The range without its offset, where a step says that the step of the query is not meant. -/
def Range.reread (r : Range) : Range :=
  { r with inheritStep := r.inheritStep && r.step.isNone }

namespace Reader

variable {l : List String}

theorem takes_atColon {s : List String} :
    Takes atColon s ((current s).toList.head? == some ':') s :=
  takes_token.bind takes_pure

/-- The end of a window from the colon on. -/
theorem takes_step {r : Range} (h : ∀ d ∈ r.step, ReadableDuration d) :
    Takes step ((if r.isSubquery then [":" ++ Range.renderDuration r.step] else []) ++ "]" :: l)
      (r.step, r.inheritStep && r.step.isNone) ("]" :: l) := by
  refine takes_token.bind ?_
  cases hstep : r.step with
  | none =>
      simp only [Range.isSubquery, hstep, Option.isSome_none, Bool.false_or, Range.renderDuration,
        String.append_empty, Option.isNone_none, Bool.and_true]
      cases hinherit : r.inheritStep with
      | false =>
          have htext : "]".toList = [']'] := by decide
          simp only [Bool.false_eq_true, if_false, List.nil_append, current_cons, htext]
          exact takes_pure
      | true =>
          have htext : ":".toList = [':'] := by decide
          simp only [if_true, List.cons_append, List.nil_append, current_cons, htext]
          refine (takes_replace _).bind ?_
          simp only [List.isEmpty_nil, if_true]
          exact takes_bump.bind ((takes_isToken rfl).ifTrue takes_pure)
  | some d =>
      have hd := h d hstep
      rcases hd.start with ⟨c, cs, htext, _⟩
      have htoken : (":" ++ d.render).toList = ':' :: d.text.toList := by
        simp [hd.render_eq]
      simp only [Range.isSubquery, hstep, Option.isSome_some, Bool.true_or, if_true,
        Range.renderDuration, Option.isNone_some, Bool.and_false, List.cons_append,
        List.nil_append, current_cons, htoken, String.ofList_toList]
      -- The colon is taken off its token, which leaves the step to be read by itself.
      refine (takes_replace d.text).bind ?_
      have hne : d.text.toList.isEmpty = false := by simp [htext]
      simp only [hne]
      have hbracket : current (d.text :: "]" :: l) ≠ "]" := by
        refine hd.ne ?_
        rintro c cs heq
        cases heq
        decide
      refine (takes_notToken hbracket).ifFalse ?_
      exact (takes_duration hd).bind takes_pure

theorem atColon_windowEnd (r : Range) (l : List String) :
    ((current ((if r.isSubquery then [":" ++ Range.renderDuration r.step] else []) ++
      "]" :: l)).toList.head? == some ':') = r.isSubquery := by
  split
  · rename_i hsub
    simp [hsub]
  · rename_i hplain
    have htext : "]".toList = [']'] := by decide
    rw [Bool.not_eq_true] at hplain
    simp only [List.nil_append, current_cons, htext, hplain]
    decide

theorem takes_window {r : Range} (h : ReadableWindow r) (hl : current l ≠ "[") :
    Takes window (r.windowTokens ++ l) { r.reread with offset := none } l := by
  unfold Range.windowTokens
  split
  · rename_i hset
    have hstep := takes_step (l := l) h.step
    have hclose : Takes (atToken "]") ("]" :: l) true ("]" :: l) := takes_isToken rfl
    have hrange : { r.reread with offset := none } =
        Range.mk r.window r.step none (r.inheritStep && r.step.isNone) := rfl
    rw [hrange]
    simp only [List.cons_append, List.append_assoc, List.nil_append]
    refine (takes_isToken rfl).ifTrue (takes_bump.bind ?_)
    cases hwindow : r.window with
    | none =>
        -- The window starts with the colon.
        have hsub : r.isSubquery := by
          simpa [hwindow, Range.isSubquery, Bool.or_comm] using hset
        have hcolon := takes_atColon
          (s := (if r.isSubquery then [":" ++ Range.renderDuration r.step] else []) ++ "]" :: l)
        rw [atColon_windowEnd, hsub] at hcolon
        rw [hsub] at hstep
        simp only [optionTokens, List.nil_append, hsub]
        refine hcolon.bind (Takes.bind (r := pure none) takes_pure (hstep.bind ?_))
        exact hclose.ifTrue (takes_bump.bind takes_pure)
    | some d =>
        have hd := h.window d hwindow
        have hcolon : ∀ s, Takes atColon (d.text :: s) false (d.text :: s) := by
          intro s
          have hfirst : (d.text.toList.head? == some ':') = false := by
            rcases hd.start with ⟨c, cs, htext, hstart⟩
            rw [htext]
            have hne : c ≠ ':' := by
              rintro rfl
              exact absurd hstart (by decide)
            simpa using hne
          have hfound := takes_atColon (s := d.text :: s)
          rwa [current_cons, hfirst] at hfound
        simp only [optionTokens, hd.render_eq, List.cons_append, List.nil_append]
        refine (hcolon _).bind (Takes.bind (r := some <$> duration) (takes_duration hd).map
          (hstep.bind ?_))
        exact hclose.ifTrue (takes_bump.bind takes_pure)
  · rename_i hnone
    simp only [Bool.or_eq_true, not_or, Bool.not_eq_true, Option.isSome_eq_false_iff,
      Option.isNone_iff_eq_none] at hnone
    have heq : { r.reread with offset := none } = Range.none := by
      simp [Range.reread, Range.none, hnone]
    rw [heq]
    exact (takes_notToken hl).ifFalse takes_pure

end Reader

end SeriesQuery
