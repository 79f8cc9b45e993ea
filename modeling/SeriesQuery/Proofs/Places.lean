import SeriesQuery.Proofs.Leaves

/-!
# Places in expressions

A place is the way down to a node, into the bodies of templates too; `Expr.put` puts an expression
at a place.

`Expr.quotes` are the strings that expansion may take for the name of a metric: the strings that
stand by themselves, which names in other strings may stand for, and the values that filters ask
the name of the metric for besides the name that the selector has.
-/

namespace SeriesQuery

/-! ## Strings for names -/

/-- A string that stands by itself, or the value of a further filter on the name of the metric. -/
inductive Quote where
  | operand (value : String)
  | metric (value : StringExpr)
  deriving DecidableEq

/-- The literals among the parts. -/
def StringExpr.literals (s : StringExpr) : List String :=
  s.segments.filterMap fun
    | .literal value => some value
    | .ident _ => none

/-- What the filters ask the name of the metric for, besides the name that all groups start with. -/
def Selector.nameValues (s : Selector) : List StringExpr :=
  let cut := if s.name?.isSome then 1 else 0
  s.groups.flatMap fun g =>
    ((g.drop cut).filter LabelFilter.isNameFilter).map fun f => .ofLiteral f.value

/-- The name that a group of filters starts with, if it is written as one literal. -/
def FilterExpr.metric? : List FilterExpr → Option String
  | ⟨.equal, label, ⟨[.literal n]⟩, false⟩ :: _ =>
      if label = nameLabel ∧ n ≠ "" then some n else none
  | _ => none

/-- The name of the metric, if it is written as one literal. -/
def SelectorExpr.metric? (s : SelectorExpr) : Option String :=
  commonName FilterExpr.metric? s.groups

/-- What the filters ask the name of the metric for, besides the name that all groups start with. -/
def SelectorExpr.nameValues (s : SelectorExpr) : List StringExpr :=
  let cut := if s.metric?.isSome then 1 else 0
  s.groups.flatMap fun g => ((g.drop cut).filter FilterExpr.isNameFilter).map FilterExpr.value

/-- What the parts may be joined to, where names among them stand for strings with the property. -/
inductive Spells (K : String → Prop) : List Segment → String → Prop where
  | nil : Spells K [] ""
  | literal {text value : String} {rest : List Segment} :
      Spells K rest value → Spells K (.literal text :: rest) (text ++ value)
  | ident {name text value : String} {rest : List Segment} :
      K text → Spells K rest value → Spells K (.ident name :: rest) (text ++ value)

/-- What is joined of strings with a property has it too, if the property is kept when strings are
joined. -/
theorem Spells.closed {K : String → Prop} (hempty : K "")
    (happend : ∀ s t, K s → K t → K (s ++ t)) {segments : List Segment} {value : String}
    (h : Spells K segments value) (hliterals : ∀ text, .literal text ∈ segments → K text) :
    K value := by
  induction h with
  | nil => exact hempty
  | literal _ ih =>
      refine happend _ _ (hliterals _ List.mem_cons_self) (ih fun text htext => ?_)
      exact hliterals text (List.mem_cons_of_mem _ htext)
  | ident htext _ ih =>
      refine happend _ _ htext (ih fun text hmem => ?_)
      exact hliterals text (List.mem_cons_of_mem _ hmem)

namespace Expr

mutual

/-- The strings that may become the name of a metric, those in templates among them. -/
@[simp] def quotes : Expr → List Quote
  | number _ | duration _ => []
  | string value => [.operand value]
  | concat s => s.literals.map .operand
  | selector s => s.nameValues.map .metric
  | selectorExpr s => s.nameValues.map .metric
  | call _ args _ => quotesOfList args
  | aggregate _ args => quotesOfList args
  | binary _ l r => quotes l ++ quotes r
  | rollup inner _ time => quotes inner ++ quotesOfOption time
  | tuple items => quotesOfList items
  | withTemplates ts body => quotesOfTemplates ts ++ quotes body

/-- The strings of each of the expressions. -/
@[simp] def quotesOfList : List Expr → List Quote
  | [] => []
  | e :: es => quotes e ++ quotesOfList es

/-- The strings of the expression, if there is one. -/
@[simp] def quotesOfOption : Option Expr → List Quote
  | none => []
  | some e => quotes e

/-- The strings of the body. -/
@[simp] def quotesOfTemplate : Template → List Quote
  | .mk _ _ body => quotes body

/-- The strings of the bodies. -/
@[simp] def quotesOfTemplates : List Template → List Quote
  | [] => []
  | t :: ts => quotesOfTemplate t ++ quotesOfTemplates ts

end

/-- All strings that may become the name of a metric have the property. -/
def Quotes (Q : Quote → Prop) (e : Expr) : Prop :=
  ∀ x ∈ e.quotes, Q x

section

variable {Q : Quote → Prop}

theorem forall_mem_quotesOfList {es : List Expr} :
    (∀ x ∈ quotesOfList es, Q x) ↔ ∀ e ∈ es, e.Quotes Q := by
  induction es with
  | nil => simp
  | cons e es ih => simp [Quotes, or_imp, forall_and, ih]

theorem forall_mem_quotesOfTemplates {ts : List Template} :
    (∀ x ∈ quotesOfTemplates ts, Q x) ↔ ∀ t ∈ ts, t.body.Quotes Q := by
  induction ts with
  | nil => simp
  | cons t ts ih =>
      rcases t with ⟨name, params, body⟩
      simp [Quotes, Template.body, or_imp, forall_and, ih]

theorem quotes_string {value : String} : Quotes Q (.string value) ↔ Q (.operand value) := by
  simp [Quotes]

theorem quotes_concat {s : StringExpr} :
    Quotes Q (.concat s) ↔ ∀ value ∈ s.literals, Q (.operand value) := by
  simp only [Quotes, quotes, List.forall_mem_map]

theorem quotes_selector {s : Selector} :
    Quotes Q (.selector s) ↔ ∀ value ∈ s.nameValues, Q (.metric value) := by
  simp only [Quotes, quotes, List.forall_mem_map]

theorem quotes_selectorExpr {s : SelectorExpr} :
    Quotes Q (.selectorExpr s) ↔ ∀ value ∈ s.nameValues, Q (.metric value) := by
  simp only [Quotes, quotes, List.forall_mem_map]

theorem quotes_call {name : String} {args : List Expr} {keepNames : Bool} :
    Quotes Q (.call name args keepNames) ↔ ∀ e ∈ args, e.Quotes Q :=
  forall_mem_quotesOfList

theorem quotes_aggregate {a : Aggregation} {args : List Expr} :
    Quotes Q (.aggregate a args) ↔ ∀ e ∈ args, e.Quotes Q :=
  forall_mem_quotesOfList

theorem quotes_binary {b : BinaryOp} {l r : Expr} :
    Quotes Q (.binary b l r) ↔ l.Quotes Q ∧ r.Quotes Q := by
  simp [Quotes, or_imp, forall_and]

theorem quotes_rollup {inner : Expr} {range : Range} {time : Option Expr} :
    Quotes Q (.rollup inner range time) ↔ inner.Quotes Q ∧ ∀ e ∈ time, e.Quotes Q := by
  cases time <;> simp [Quotes, or_imp, forall_and]

theorem quotes_tuple {items : List Expr} : Quotes Q (.tuple items) ↔ ∀ e ∈ items, e.Quotes Q :=
  forall_mem_quotesOfList

theorem quotes_withTemplates {ts : List Template} {body : Expr} :
    Quotes Q (.withTemplates ts body) ↔ (∀ t ∈ ts, t.body.Quotes Q) ∧ body.Quotes Q := by
  rw [← forall_mem_quotesOfTemplates]
  simp [Quotes, or_imp, forall_and]

end

/-! ## Places -/

/-- A step down to an operand, or to the body of a template, with what stands beside it. -/
inductive Step where
  | callArg (name : String) (before after : List Expr) (keepNames : Bool)
  | aggregateArg (a : Aggregation) (before after : List Expr)
  | left (b : BinaryOp) (r : Expr)
  | right (b : BinaryOp) (l : Expr)
  | rolledUp (range : Range) (time : Option Expr)
  | moment (inner : Expr) (range : Range)
  | item (before after : List Expr)
  | templateBody (before : List Template) (name : String) (params : List String)
      (after : List Template) (body : Expr)
  | underTemplates (ts : List Template)

/-- The node with the expression at the step. -/
def Step.put : Step → Expr → Expr
  | callArg name before after keepNames, e => call name (before ++ e :: after) keepNames
  | aggregateArg a before after, e => aggregate a (before ++ e :: after)
  | left b r, e => binary b e r
  | right b l, e => binary b l e
  | rolledUp range time, e => rollup e range time
  | moment inner range, e => rollup inner range (some e)
  | item before after, e => tuple (before ++ e :: after)
  | templateBody before name params after body, e =>
      withTemplates (before ++ .mk name params e :: after) body
  | underTemplates ts, e => withTemplates ts e

/-- The expression with another one at the place, which lies behind the steps from the root. -/
def put (place : List Step) (e : Expr) : Expr :=
  place.foldr Step.put e

end Expr

end SeriesQuery
