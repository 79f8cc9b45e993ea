import SeriesQuery.Proofs.LegibleReaders
import SeriesQuery.Proofs.ReadingOperands

/-!
# Trees that come from tokens

The labels that filters compare are read from identifiers, and so each of them can be written as one.
Numbers and durations are tokens by themselves, names of aggregates are put in small letters, and
limits have a bound.  `Expr.Tokenized` says so of all nodes of a tree, with those in the bodies of its
templates; each rule of the grammar keeps to it.
-/

namespace SeriesQuery

open Text

/-! ## Trees -/

/-- The labels that the filters compare are legible, and the names of templates among them. -/
def SelectorExpr.Labelled (s : SelectorExpr) : Prop :=
  ∀ g ∈ s.groups, ∀ f ∈ g, IsLegible f.label

/-- The labels that the filters compare are legible. -/
def Selector.Labelled (s : Selector) : Prop :=
  ∀ g ∈ s.groups, ∀ f ∈ g, IsLegible f.label

namespace Expr

/-- Labels of filters, numbers, durations and limits of the tree are as they are read from tokens, also
within templates. -/
inductive Tokenized : Expr → Prop where
  | number {n : NumberLiteral} : (∀ text ∈ n.text, LegibleNumber text) → Tokenized (.number n)
  | duration {d : Duration} : isPositiveDuration d.text → Tokenized (.duration d)
  | string (value : String) : Tokenized (.string value)
  | concat (s : StringExpr) : Tokenized (.concat s)
  | selector {s : Selector} : s.Labelled → Tokenized (.selector s)
  | selectorExpr {s : SelectorExpr} : s.Labelled → Tokenized (.selectorExpr s)
  | call (name : String) {args : List Expr} (keepNames : Bool) :
      (∀ e ∈ args, Tokenized e) → Tokenized (.call name args keepNames)
  | aggregate {a : Aggregation} {args : List Expr} : lower a.name = a.name → a.limit < 2 ^ 64 →
      (∀ e ∈ args, Tokenized e) → Tokenized (.aggregate a args)
  | binary (b : BinaryOp) {l r : Expr} : Tokenized l → Tokenized r → Tokenized (.binary b l r)
  | rollup {inner : Expr} (range : Range) {time : Option Expr} :
      Tokenized inner → (∀ e ∈ time, Tokenized e) → Tokenized (.rollup inner range time)
  | tuple {items : List Expr} : (∀ e ∈ items, Tokenized e) → Tokenized (.tuple items)
  | withTemplates {ts : List Template} {body : Expr} :
      (∀ t ∈ ts, Tokenized t.body) → Tokenized body → Tokenized (.withTemplates ts body)

theorem tokenized_ofFloat (x : Float) : Tokenized (.ofFloat x) :=
  .number (by simp [NumberLiteral.ofFloat])

theorem Tokenized.markKeepNames {e : Expr} (h : Tokenized e) :
    ∀ e' ∈ e.markKeepNames, Tokenized e' := by
  intro e' he'
  cases h with
  | call name _ hargs =>
      cases he'
      exact .call name true hargs
  | binary b hl hr =>
      cases he'
      exact .binary _ hl hr
  | _ => cases he'

theorem Tokenized.attach {left right : Expr} {b : BinaryOp} (hl : Tokenized left)
    (hr : Tokenized right) : Tokenized (left.attach b right) := by
  fun_induction Expr.attach left b right with
  | case1 b right c l r _ ih =>
      cases hl with
      | binary _ hl hr' => exact .binary _ hl (ih hr' hr)
  | case2 => exact .binary _ hl hr
  | case3 => exact .binary _ hl hr

end Expr

/-! ## Selectors -/

theorem gives_label_check (f : LabelFilter) : Gives (fun g => g.label = f.label) f.check := by
  unfold LabelFilter.check
  split
  · exact gives_ok rfl
  · exact gives_error _

theorem gives_label_ofParts? (op : FilterOp) (label : String) (value : StringExpr) :
    Gives (fun f => f.label = label) (FilterExpr.ofParts? op label value) := by
  unfold FilterExpr.ofParts?
  dsimp only
  split
  · exact (gives_true _).map fun _ _ => rfl
  · exact gives_ok rfl

theorem gives_label_toFilter (f : FilterExpr) :
    Gives (fun g => g.label = f.label) f.toFilter := by
  unfold FilterExpr.toFilter
  split
  · exact gives_error _
  · split
    · rename_i value _
      have hcheck := gives_label_check ⟨f.op, f.label, value⟩
      intro g hg
      cases h : LabelFilter.ofParts? f.op f.label value with
      | error cause =>
          rw [h] at hg
          cases hg
      | ok g' =>
          rw [h] at hg
          cases hg
          exact hcheck g h
    · exact gives_error _

theorem labelled_toSelector {s : SelectorExpr} (h : s.Labelled) :
    Gives Selector.Labelled s.toSelector := by
  refine Gives.map (gives_mapM fun g hg => gives_mapM fun f hf => ?_) fun _ hgroups => hgroups
  exact (gives_label_toFilter f).imp fun f' hf' => hf' ▸ h g hg f hf

namespace Reader

/-- The labels of filters are read from identifiers. -/
theorem collects_labelFilter : Collects (fun f => IsLegible f.label) labelFilter := by
  refine (collects_identifier _).bind fun label hlabel => collects_bind_any fun sign => ?_
  split
  · refine collects_bind_any fun _ => collects_bind_any fun value => ?_
    exact collects_ofExcept ((gives_label_ofParts? _ label value).imp fun f hf => hf ▸ hlabel)
  · split
    · exact collects_pure hlabel
    · exact collects_unexpected _ _

theorem forall_mem_addToFirst {P : FilterExpr → Prop} {f : FilterExpr}
    {groups : List (List FilterExpr)} (hf : P f) (hgroups : ∀ g ∈ groups, ∀ f ∈ g, P f) :
    ∀ g ∈ addToFirst f groups, ∀ f ∈ g, P f := by
  cases groups with
  | nil => simpa [addToFirst] using hf
  | cons g gs =>
      have hparts := List.forall_mem_cons.1 hgroups
      exact List.forall_mem_cons.2 ⟨List.forall_mem_cons.2 ⟨hf, hparts.1⟩, hparts.2⟩

theorem collects_filterGroups (fuel : Nat) :
    Collects (fun groups => ∀ g ∈ groups, ∀ f ∈ g, IsLegible f.label) (filterGroups fuel) := by
  induction fuel with
  | zero => exact collects_unexpected _ _
  | succ fuel ih =>
      refine collects_labelFilter.bind fun f hf => collects_bind_any fun atComma => ?_
      have hone : ∀ g ∈ [[f]], ∀ f ∈ g, IsLegible f.label := by simpa using hf
      split
      · refine collects_bind_any fun _ => collects_bind_any fun atEnd => ?_
        split
        · exact collects_bind_any fun _ => collects_pure hone
        · exact ih.bind fun groups hgroups => collects_pure (forall_mem_addToFirst hf hgroups)
      · refine collects_bind_any fun atEnd => ?_
        split
        · exact collects_bind_any fun _ => collects_pure hone
        · refine collects_bind_any fun atOr => ?_
          split
          · refine collects_bind_any fun _ => collects_bind_any fun atEnd => ?_
            split
            · exact collects_misuse _
            · refine ih.bind fun groups hgroups => collects_pure ?_
              exact List.forall_mem_cons.2 ⟨by simpa using hf, hgroups⟩
          · exact collects_unexpected _ _

theorem collects_bracedFilters :
    Collects (fun groups => ∀ g ∈ groups, ∀ f ∈ g, IsLegible f.label) bracedFilters := by
  refine collects_bind_any fun _ => collects_bind_any fun atEnd => ?_
  split
  · exact collects_bind_any fun _ => collects_pure (by simp)
  · exact collects_bind_any fun feed => collects_filterGroups _

theorem collects_ofSelectorExpr {s : SelectorExpr} (h : s.Labelled) :
    Collects Expr.Tokenized (ofSelectorExpr s) := by
  unfold ofSelectorExpr
  split
  · refine (collects_ofExcept (labelled_toSelector h)).bind fun _ hs => ?_
    exact collects_pure (.selector hs)
  · exact collects_pure (.selectorExpr h)

theorem labelled_nameGroups (name : String) {groups : List (List FilterExpr)}
    (h : ∀ g ∈ groups, ∀ f ∈ g, IsLegible f.label) :
    SelectorExpr.Labelled ⟨nameGroups name groups⟩ := by
  intro g hg
  rcases List.mem_map.1 hg with ⟨g', hg', rfl⟩
  refine List.forall_mem_cons.2 ⟨isLegible_nameLabel, ?_⟩
  split at hg'
  · rcases List.mem_singleton.1 hg' with rfl
    simp
  · exact h g' hg'

theorem collects_metric : Collects Expr.Tokenized metric := by
  refine collects_bind_any fun text => ?_
  split
  · refine collects_bind_any fun name => collects_bind_any fun atBrace => ?_
    split
    · exact collects_bracedFilters.bind fun groups hgroups =>
        collects_ofSelectorExpr (labelled_nameGroups name hgroups)
    · exact collects_ofSelectorExpr (@labelled_nameGroups name [] (by simp))
  · exact collects_bracedFilters.bind fun groups hgroups => collects_ofSelectorExpr hgroups

end Reader

/-! ## Operands -/

namespace Grammar

theorem tokenized_markLone {items items' : List Expr} (hitems : ∀ e ∈ items, Expr.Tokenized e)
    (h : markLone items = some items') : ∀ e ∈ items', Expr.Tokenized e := by
  unfold markLone at h
  split at h
  · rename_i b l r
    cases h
    cases hitems _ List.mem_cons_self with
    | binary _ hl hr => simpa using Expr.Tokenized.binary _ hl hr
  · cases h

/-- The text of a number is the token that it is read from. -/
theorem text_of_ofToken {text : String} {n : NumberLiteral} (h : NumberLiteral.ofToken text = .ok n) :
    n.text = some text := by
  unfold NumberLiteral.ofToken at h
  cases hread : readNumber text with
  | error cause =>
      rw [hread] at h
      cases h
  | ok x =>
      rw [hread] at h
      cases h
      rfl

theorem isNumber_of_isLegibleToken {text : String} (h : IsLegibleToken text)
    (hstart : (startsNumber text.toList || isNumberWord text) = true) : IsNumber text := by
  rcases Bool.or_eq_true_iff.1 hstart with hnumber | hword
  · rcases startsNumeral_of_startsNumber hnumber with ⟨c, rest, htext, hnumeral⟩
    exact .inl (h.numeral c (by simp [htext]) hnumeral)
  · exact .inr hword

theorem collects_number {text : String} (htoken : IsNumber text)
    (hduration : isPositiveDuration text = false) : Collects Expr.Tokenized (number text) := by
  refine (Reader.collects_ofExcept (P := fun n => NumberLiteral.ofToken text = .ok n)
    fun n hn => hn).bind fun n hn => collects_bind_any fun _ => collects_pure (.number ?_)
  rw [text_of_ofToken hn]
  rintro _ ⟨⟩
  exact ⟨htoken, hduration, n, hn⟩

theorem collects_stringOperand : Collects Expr.Tokenized stringOperand := by
  refine collects_bind_any fun s => ?_
  split
  · exact collects_pure (.string _)
  · exact collects_pure (.concat s)

instance : Keeps atTemplates := by
  unfold atTemplates
  infer_instance

instance (template : String) : Keeps (parameters template) := by
  refine ⟨collects_bind_any fun atParen => ?_⟩
  split
  · refine collects_bind_any fun names => ?_
    split <;> exact Keeps.collects
  · exact Keeps.collects

instance (earlier : Option Grouping) : Keeps (laterGrouping earlier) := by
  unfold laterGrouping
  infer_instance

/-- The readers for inner expressions give tokenized ones. -/
structure Tokenizes (g : Grammar) : Prop where
  expression : Collects Expr.Tokenized g.expression
  operand : Collects Expr.Tokenized g.operand

section

variable {g : Grammar} (hg : g.Tokenizes)
include hg

theorem collects_arguments : Collects (fun args => ∀ e ∈ args, Expr.Tokenized e) g.arguments :=
  Reader.collects_parenthesized hg.expression

theorem collects_template : Collects (fun t => Expr.Tokenized t.body) g.template := by
  refine collects_bind_any fun name => collects_bind_any fun params => collects_bind_any fun _ => ?_
  exact hg.expression.bind fun body hbody => collects_pure hbody

theorem collects_withTemplates : Collects Expr.Tokenized g.withTemplates := by
  refine collects_bind_any fun _ => ?_
  refine (Reader.collects_parenthesized (collects_template hg)).bind fun templates htemplates => ?_
  split
  · exact collects_throw _
  · exact hg.expression.bind fun body hbody => collects_pure (.withTemplates htemplates hbody)

theorem collects_call : Collects Expr.Tokenized g.call := by
  refine collects_bind_any fun name => (collects_arguments hg).bind fun args hargs => ?_
  refine collects_bind_any fun keep => ?_
  split
  · exact collects_bind_any fun _ => collects_pure (.call name true hargs)
  · exact collects_pure (.call name false hargs)

theorem collects_aggregate : Collects Expr.Tokenized g.aggregate := by
  refine collects_bind_any fun name => collects_bind_any fun text => ?_
  dsimp only
  split
  case' isTrue =>
    refine collects_bind_any fun atGrouping => ?_
    split
  -- Whatever stands before the arguments, they are read alike.
  all_goals
    refine collects_bind_any fun earlier => collects_bind_any fun atParen => ?_
    split
    · refine (collects_arguments hg).bind fun args hargs => collects_bind_any fun grouping => ?_
      refine collects_bind_any fun atLimit => ?_
      split
      · exact Reader.collects_limit.bind fun limit hlimit =>
          collects_pure (.aggregate (lower_lower name) hlimit hargs)
      · exact (collects_pure (P := (· < 2 ^ 64)) (by decide)).bind fun limit hlimit =>
          collects_pure (.aggregate (lower_lower name) hlimit hargs)
    · exact Reader.collects_unexpected _ _

theorem collects_identExpr : Collects Expr.Tokenized g.identExpr := by
  refine collects_bind_any fun text => collects_bind_any fun next => ?_
  split
  · exact Reader.collects_metric
  split
  · split
    · exact collects_aggregate hg
    · exact Reader.collects_metric
  split
  · exact Reader.collects_metric
  split
  · split
    · exact collects_aggregate hg
    · exact collects_call hg
  split
  · exact Reader.collects_metric
  · exact collects_bind_any fun _ => Reader.collects_unexpected _ _

theorem collects_tuple : Collects Expr.Tokenized g.tuple := by
  refine (collects_arguments hg).bind fun items hitems => collects_bind_any fun keep => ?_
  split
  · split
    · exact collects_bind_any fun _ => collects_pure (.tuple (tokenized_markLone hitems ‹_›))
    · exact collects_pure (.tuple hitems)
  · exact collects_pure (.tuple hitems)

theorem collects_negation : Collects Expr.Tokenized g.negation := by
  refine collects_bind_any fun _ => hg.operand.bind fun e he => ?_
  exact collects_pure (.binary _ (Expr.tokenized_ofFloat 0.0) he)

theorem collects_bareOperand : Collects Expr.Tokenized g.bareOperand := by
  refine Reader.collects_token.bind fun text htext => ?_
  split
  · exact collects_throw _
  split
  · exact collects_bind_any fun _ => collects_pure (.duration ‹_›)
  split
  · exact collects_number (isNumber_of_isLegibleToken htext ‹_›)
      (Bool.eq_false_iff.2 ‹_›)
  split
  · exact collects_stringOperand
  split
  · exact collects_identExpr hg
  split
  · exact collects_tuple hg
  split
  · exact Reader.collects_metric
  split
  · exact collects_negation hg
  split
  · exact collects_bind_any fun _ => hg.operand
  · exact Reader.collects_unexpected _ _

theorem collects_time : Collects (fun time => ∀ e ∈ time, Expr.Tokenized e) g.time := by
  refine collects_bind_any fun atTime => ?_
  split
  · refine collects_bind_any fun _ feed hfeed => ?_
    have hoperand := collects_bareOperand hg feed hfeed
    split
    · rename_i e feed h
      have he := hoperand _ h
      exact gives_ok ⟨by simpa using he.1, he.2⟩
    · exact gives_error _
  · exact collects_pure (by simp)

theorem collects_laterTime {earlier : Option Expr} (h : ∀ e ∈ earlier, Expr.Tokenized e) :
    Collects (fun time => ∀ e ∈ time, Expr.Tokenized e) (g.laterTime earlier) := by
  refine collects_bind_any fun atTime => ?_
  split
  · exact Reader.collects_misuse _
  · split
    · exact collects_pure h
    · exact collects_time hg

theorem collects_rollup {inner : Expr} (h : inner.Tokenized) :
    Collects Expr.Tokenized (g.rollup inner) := by
  refine collects_bind_any fun range => ?_
  refine (collects_time hg).bind fun earlier hearlier => collects_bind_any fun offset => ?_
  refine (collects_laterTime hg hearlier).bind fun time htime => collects_bind_any fun keep => ?_
  split
  · split
    · exact collects_bind_any fun _ => collects_pure (.rollup _ (h.markKeepNames _ ‹_›) htime)
    · exact collects_pure (.rollup _ h htime)
  · exact collects_pure (.rollup _ h htime)

theorem collects_fullOperand : Collects Expr.Tokenized g.fullOperand := by
  refine collects_bind_any fun atTemplates => ?_
  split
  · exact collects_withTemplates hg
  · refine (collects_bareOperand hg).bind fun inner hinner => collects_bind_any fun text => ?_
    split
    · exact collects_rollup hg hinner
    · exact collects_pure hinner

end

end Grammar

/-! ## Queries -/

namespace Reader

/-- Operands and chains are read with a smaller budget each time. -/
theorem collects_operand_and_chain (budget : Nat) :
    Collects Expr.Tokenized (operand budget) ∧
      ∀ left : Expr, left.Tokenized → Collects Expr.Tokenized (chain budget left) := by
  -- Operands read chains, and chains read operands, so both are shown at once.
  induction budget using Nat.strongRecOn with
  | ind budget ih =>
      constructor
      · unfold operand
        split
        · rename_i budget
          have hsmaller := ih budget (by omega)
          have hexpression := hsmaller.1.bind hsmaller.2
          exact Grammar.collects_fullOperand ⟨hexpression, hsmaller.1⟩
        · exact collects_throw _
      · intro left hleft
        unfold chain
        split
        · rename_i budget
          refine collects_bind_any fun text => ?_
          split
          · exact collects_pure hleft
          · refine collects_bind_any fun _ => collects_bind_any fun b => ?_
            refine (ih budget (by omega)).1.bind fun right hright => ?_
            refine collects_bind_any fun keepNames => ?_
            have hchain := (ih budget (by omega)).2 _
              (hleft.attach (b := { b with keepNames }) hright)
            dsimp only
            split
            · exact collects_bind_any fun _ => hchain
            · exact hchain
        · refine collects_bind_any fun text => ?_
          split
          · exact collects_pure hleft
          · exact collects_throw _

end Reader

/-- The tree that a query is read as is tokenized. -/
theorem Expr.tokenized_ofText (query : String) : Gives Expr.Tokenized (Expr.ofText query) := by
  refine (Feed.legible_ofText query).bind fun feed hfeed => ?_
  have hexpression := (Reader.collects_operand_and_chain depthBudget).1.bind
    (Reader.collects_operand_and_chain depthBudget).2
  refine (hexpression feed hfeed).bind fun found hfound => ?_
  dsimp only
  split
  · exact gives_ok hfound.1
  · exact gives_error _

end SeriesQuery
