import Mathlib.Data.List.Forall2
import Mathlib.Data.Option.Basic
import SeriesQuery.Proofs.Places
import SeriesQuery.Proofs.SelectorNames

/-!
# Revisions of expressions

A revision of an expression may give other names to what it declares, and may declare more
templates, as long as each name refers to what it referred to.  `Expr.Revises T ρ e e'` says so,
where the `Naming` `ρ` says which names of the one refer to what which names of the other do.

Expansion looks names up that are not written down, where a filter asks for the name of the metric.
So `Terms` say of the strings that there may be, and of the names that filters may ask for, that they
mean the same in both expressions.
-/

namespace SeriesQuery

/-! ## Namings -/

/-- What revisions must keep. -/
structure Terms where
  /-- Errors must be the same. -/
  exact : Bool
  /-- What the strings may be that names stand for. -/
  strings : String → Prop
  /-- What filters may ask the name of the metric for, besides the name that the selector has. -/
  names : String → Prop
  empty : strings ""
  append : ∀ s t, strings s → strings t → strings (s ++ t)

/-- The names are the same, or no filter asks for them and errors may tell of either. -/
def Terms.Same (T : Terms) (n n' : String) : Prop :=
  n = n' ∨ T.exact = false ∧ ¬T.names n ∧ ¬T.names n'

/-- Which names of an expression refer to what which names of its revision do. -/
abbrev Naming := String → String → Prop

namespace Naming

/-- The naming where `x` is declared by the one and `x'` by the other. -/
def bind (x x' : String) (ρ : Naming) : Naming :=
  fun n n' => n = x ∧ n' = x' ∨ n ≠ x ∧ n' ≠ x' ∧ ρ n n'

/-- The naming where pairs of names are declared; the first of equal ones counts. -/
def bindAll (pairs : List (String × String)) (ρ : Naming) : Naming :=
  pairs.foldr (fun pair => bind pair.1 pair.2) ρ

/-- The naming where `x'` is declared by the revision only. -/
def hide (x' : String) (ρ : Naming) : Naming :=
  fun n n' => n' ≠ x' ∧ ρ n n'

/-- The names with the property refer to the same. -/
def Keeps (A : String → Prop) (ρ : Naming) : Prop :=
  ∀ n, A n → ρ n n

/-- Names that filters may ask for refer to the same, and others that do are like it or apart. -/
structure Fair (T : Terms) (ρ : Naming) : Prop where
  keeps : ρ.Keeps T.names
  same : ∀ n n', ρ n n' → T.Same n n'

section

variable {A : String → Prop} {T : Terms} {ρ : Naming}

theorem Keeps.bind (h : ρ.Keeps A) (x : String) : (ρ.bind x x).Keeps A := by
  intro n hn
  by_cases heq : n = x
  · exact .inl ⟨heq, heq⟩
  · exact .inr ⟨heq, heq, h n hn⟩

theorem Keeps.bindAll (h : ρ.Keeps A) (params : List String) :
    (ρ.bindAll (params.zip params)).Keeps A := by
  induction params with
  | nil => exact h
  | cons x params ih => exact ih.bind x

theorem Keeps.hide (h : ρ.Keeps A) {x : String} (hx : ¬A x) : (ρ.hide x).Keeps A := by
  intro n hn
  refine ⟨?_, h n hn⟩
  rintro rfl
  exact hx hn

theorem Fair.bind (h : ρ.Fair T) {x x' : String} (hx : T.Same x x') : (ρ.bind x x').Fair T where
  keeps := by
    intro n hn
    rcases hx with rfl | ⟨_, hx, hx'⟩
    · exact h.keeps.bind x n hn
    · refine .inr ⟨?_, ?_, h.keeps n hn⟩
      · rintro rfl
        exact hx hn
      · rintro rfl
        exact hx' hn
  same := by
    rintro n n' (⟨rfl, rfl⟩ | ⟨_, _, hn⟩)
    · exact hx
    · exact h.same n n' hn

theorem Fair.bindAll (h : ρ.Fair T) {pairs : List (String × String)}
    (hpairs : ∀ pair ∈ pairs, T.Same pair.1 pair.2) : (ρ.bindAll pairs).Fair T := by
  induction pairs with
  | nil => exact h
  | cons pair pairs ih =>
      have hparts := List.forall_mem_cons.1 hpairs
      exact (ih hparts.2).bind hparts.1

theorem Fair.hide (h : ρ.Fair T) {x : String} (hx : ¬T.names x) : (ρ.hide x).Fair T where
  keeps := h.keeps.hide hx
  same n n' hn := h.same n n' hn.2

end

end Naming

/-! ## Parts of nodes -/

/-- A literal and itself, or two names. -/
inductive Segment.Revises (ρ : Naming) : Segment → Segment → Prop where
  | literal {value : String} : Segment.Revises ρ (.literal value) (.literal value)
  | ident {n n' : String} : ρ n n' → Segment.Revises ρ (.ident n) (.ident n')

def StringExpr.Revises (ρ : Naming) (s s' : StringExpr) : Prop :=
  List.Forall₂ (Segment.Revises ρ) s.segments s'.segments

/-- A duration and itself, or two names for durations. -/
inductive Duration.Revises (ρ : Naming) : Duration → Duration → Prop where
  | span {d : Duration} : d.isTemplate = false → Duration.Revises ρ d d
  | template {n n' : String} : ρ n n' → Duration.Revises ρ ⟨n, true⟩ ⟨n', true⟩

structure Range.Revises (ρ : Naming) (r r' : Range) : Prop where
  window : Option.Rel (Duration.Revises ρ) r.window r'.window
  step : Option.Rel (Duration.Revises ρ) r.step r'.step
  offset : Option.Rel (Duration.Revises ρ) r.offset r'.offset
  inheritStep : r.inheritStep = r'.inheritStep

/-- The filters ask the name of the metric for such names only, or for none. -/
def Terms.Clear (T : Terms) (g : List LabelFilter) : Prop :=
  ∀ f ∈ g, f.isNameFilter → f.value = "" ∨ T.names f.value

/-- The same selector, or one of the same filters with another name. -/
inductive Selector.Revises (T : Terms) (ρ : Naming) : Selector → Selector → Prop where
  | plain {rs : List (List LabelFilter)} : (∀ r ∈ rs, T.Clear r) → Selector.Revises T ρ ⟨rs⟩ ⟨rs⟩
  | named {n n' : String} {rs : List (List LabelFilter)} :
      n ≠ "" → n' ≠ "" → ρ n n' → (∀ r ∈ rs, T.Clear r) →
        Selector.Revises T ρ (.named n rs) (.named n' rs)

/-- Two names for filters, or the same filter with values that are revisions. -/
inductive FilterExpr.Revises (T : Terms) (ρ : Naming) : FilterExpr → FilterExpr → Prop where
  | splice {op : FilterOp} {n n' : String} {value : StringExpr} :
      ρ n n' → FilterExpr.Revises T ρ ⟨op, n, value, true⟩ ⟨op, n', value, true⟩
  | plain {op : FilterOp} {label : String} {value value' : StringExpr} :
      value.Revises ρ value' →
        ((FilterExpr.mk op label value false).isNameFilter →
          ∀ v, Spells T.strings value.segments v → v = "" ∨ T.names v) →
        FilterExpr.Revises T ρ ⟨op, label, value, false⟩ ⟨op, label, value', false⟩

/-- The selector of a metric by its name, with a group of filters or several. -/
def SelectorExpr.named (n : String) (gs : List (List FilterExpr)) : SelectorExpr :=
  ⟨gs.map (.named n :: ·)⟩

/-- Filters that are revisions, without a name or with a name each. -/
inductive SelectorExpr.Revises (T : Terms) (ρ : Naming) : SelectorExpr → SelectorExpr → Prop where
  | plain {gs gs' : List (List FilterExpr)} :
      List.Forall₂ (List.Forall₂ (FilterExpr.Revises T ρ)) gs gs' →
        SelectorExpr.Revises T ρ ⟨gs⟩ ⟨gs'⟩
  | named {n n' : String} {gs gs' : List (List FilterExpr)} :
      n ≠ "" → n' ≠ "" → ρ n n' → List.Forall₂ (List.Forall₂ (FilterExpr.Revises T ρ)) gs gs' →
        SelectorExpr.Revises T ρ (.named n gs) (.named n' gs')

inductive Grouping.Revises (ρ : Naming) : Grouping → Grouping → Prop where
  | by {labels labels' : List String} :
      List.Forall₂ ρ labels labels' → Grouping.Revises ρ (.by labels) (.by labels')
  | without {labels labels' : List String} :
      List.Forall₂ ρ labels labels' → Grouping.Revises ρ (.without labels) (.without labels')

structure Aggregation.Revises (ρ : Naming) (a a' : Aggregation) : Prop where
  name : ρ a.name a'.name
  grouping : Option.Rel (Grouping.Revises ρ) a.grouping a'.grouping
  limit : a.limit = a'.limit

inductive Matching.Revises (ρ : Naming) : Matching → Matching → Prop where
  | mk {kind : MatchingKind} {labels labels' : List String} :
      List.Forall₂ ρ labels labels' → Matching.Revises ρ ⟨kind, labels⟩ ⟨kind, labels'⟩

inductive Join.Revises (ρ : Naming) : Join → Join → Prop where
  | mk {side : JoinSide} {labels labels' : List String} :
      List.Forall₂ ρ labels labels' → Join.Revises ρ ⟨side, labels⟩ ⟨side, labels'⟩

/-- The same operator with modifiers that are revisions. -/
inductive BinaryOp.Revises (ρ : Naming) : BinaryOp → BinaryOp → Prop where
  | mk {op : Operator} {asBool keepNames : Bool} {matching matching' : Option Matching}
      {join join' : Option Join} {joinLead joinLead' : Option StringExpr} :
      Option.Rel (Matching.Revises ρ) matching matching' → Option.Rel (Join.Revises ρ) join join' →
        Option.Rel (StringExpr.Revises ρ) joinLead joinLead' →
        BinaryOp.Revises ρ ⟨op, asBool, matching, join, joinLead, keepNames⟩
          ⟨op, asBool, matching', join', joinLead', keepNames⟩

/-! ## Expressions -/

mutual

/-- The second expression is a revision of the first. -/
inductive Expr.Revises (T : Terms) : Naming → Expr → Expr → Prop where
  | number {ρ : Naming} {n : NumberLiteral} : Expr.Revises T ρ (.number n) (.number n)
  | duration {ρ : Naming} {d : Duration} : Expr.Revises T ρ (.duration d) (.duration d)
  | string {ρ : Naming} {value : String} :
      T.strings value → Expr.Revises T ρ (.string value) (.string value)
  | concat {ρ : Naming} {s s' : StringExpr} :
      s.Revises ρ s' → (∀ value ∈ s.literals, T.strings value) →
        Expr.Revises T ρ (.concat s) (.concat s')
  | selector {ρ : Naming} {s s' : Selector} :
      s.Revises T ρ s' → Expr.Revises T ρ (.selector s) (.selector s')
  | selectorExpr {ρ : Naming} {s s' : SelectorExpr} :
      s.Revises T ρ s' → Expr.Revises T ρ (.selectorExpr s) (.selectorExpr s')
  | call {ρ : Naming} {n n' : String} {args args' : List Expr} {keepNames : Bool} :
      ρ n n' → Expr.Revise T ρ args args' →
        Expr.Revises T ρ (.call n args keepNames) (.call n' args' keepNames)
  | aggregate {ρ : Naming} {a a' : Aggregation} {args args' : List Expr} :
      a.Revises ρ a' → Expr.Revise T ρ args args' →
        Expr.Revises T ρ (.aggregate a args) (.aggregate a' args')
  | binary {ρ : Naming} {b b' : BinaryOp} {l l' r r' : Expr} :
      b.Revises ρ b' → Expr.Revises T ρ l l' → Expr.Revises T ρ r r' →
        Expr.Revises T ρ (.binary b l r) (.binary b' l' r')
  | rollup {ρ : Naming} {inner inner' : Expr} {range range' : Range} {time time' : Option Expr} :
      Expr.Revises T ρ inner inner' → range.Revises ρ range' →
        Expr.Revise T ρ time.toList time'.toList →
        Expr.Revises T ρ (.rollup inner range time) (.rollup inner' range' time')
  | tuple {ρ : Naming} {items items' : List Expr} :
      Expr.Revise T ρ items items' → Expr.Revises T ρ (.tuple items) (.tuple items')
  | withTemplates {ρ ρ' : Naming} {ts ts' : List Template} {body body' : Expr} :
      Template.Revise T ρ ts ts' ρ' → Expr.Revises T ρ' body body' →
        Expr.Revises T ρ (.withTemplates ts body) (.withTemplates ts' body')

/-- The expressions of the second list are revisions of those of the first. -/
inductive Expr.Revise (T : Terms) : Naming → List Expr → List Expr → Prop where
  | nil {ρ : Naming} : Expr.Revise T ρ [] []
  | cons {ρ : Naming} {e e' : Expr} {es es' : List Expr} :
      Expr.Revises T ρ e e' → Expr.Revise T ρ es es' → Expr.Revise T ρ (e :: es) (e' :: es')

/-- The second block of templates is a revision of the first, and behind them stands the second
naming.  The revision may have more templates; the others have the names they had. -/
inductive Template.Revise (T : Terms) : Naming → List Template → List Template → Naming → Prop where
  | nil {ρ : Naming} : Template.Revise T ρ [] [] ρ
  | both {ρ ρ' : Naming} {name : String} {params params' : List String} {body body' : Expr}
      {ts ts' : List Template} :
      params.length = params'.length → (∀ pair ∈ params.zip params', T.Same pair.1 pair.2) →
        Expr.Revises T (ρ.bindAll (params.zip params')) body body' →
        Template.Revise T (ρ.bind name name) ts ts' ρ' →
        Template.Revise T ρ (.mk name params body :: ts) (.mk name params' body' :: ts') ρ'
  | added {ρ ρ' : Naming} {t : Template} {ts ts' : List Template} :
      ¬T.names t.name → (∀ u ∈ ts, u.name ≠ t.name) → Template.Revise T (ρ.hide t.name) ts ts' ρ' →
        Template.Revise T ρ ts (t :: ts') ρ'

end

theorem Expr.revise_iff {T : Terms} {ρ : Naming} {es es' : List Expr} :
    Expr.Revise T ρ es es' ↔ List.Forall₂ (Expr.Revises T ρ) es es' := by
  induction es generalizing es' with
  | nil =>
      constructor
      · rintro ⟨⟩
        exact .nil
      · rintro ⟨⟩
        exact .nil
  | cons e es ih =>
      constructor
      · rintro (_ | ⟨he, hes⟩)
        exact .cons he (ih.1 hes)
      · rintro (_ | ⟨he, hes⟩)
        exact .cons he (ih.2 hes)

end SeriesQuery
