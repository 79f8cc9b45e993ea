import SeriesQuery.Expr.Render
import SeriesQuery.Proofs.Tree
import SeriesQuery.Template.Scope

/-!
# What expressions are made of

The leaves of an expression are the names and strings, the labels, the numbers and the durations
that stand at its nodes, also within templates.  `Expr.Made K` says that each leaf has the property
`K`, and there is a lemma for each kind of node.  A label that a filter compares refers to nothing
and is no leaf; nor is the mark that it is the name of a metric.
-/

namespace SeriesQuery

/-- A name or a string, a label of a list, a number, or the text of a duration. -/
inductive Leaf where
  | text (value : String)
  | label (name : String)
  | number (n : NumberLiteral)
  | duration (text : String)

/-! ## Leaves of parts -/

/-- The text of the part of a string. -/
def Segment.leaf : Segment → Leaf
  | literal value => .text value
  | ident name => .text name

def StringExpr.leaves (s : StringExpr) : List Leaf :=
  s.segments.map Segment.leaf

/-- The text of the duration, or the name of the template for it. -/
def Duration.leaf (d : Duration) : Leaf :=
  if d.isTemplate then .text d.text else .duration d.text

def Range.leaves (r : Range) : List Leaf :=
  (r.window.toList ++ r.step.toList ++ r.offset.toList).map Duration.leaf

def LabelFilter.leaf (f : LabelFilter) : Leaf :=
  .text f.value

def Selector.leaves (s : Selector) : List Leaf :=
  s.groups.flatMap (List.map LabelFilter.leaf)

def FilterExpr.leaves (f : FilterExpr) : List Leaf :=
  if f.isSplice then [.text f.label] else f.value.leaves

def SelectorExpr.leaves (s : SelectorExpr) : List Leaf :=
  s.groups.flatMap (List.flatMap FilterExpr.leaves)

def Aggregation.leaves (a : Aggregation) : List Leaf :=
  .text a.name :: a.grouping.toList.flatMap fun g => g.labels.map .label

def BinaryOp.leaves (b : BinaryOp) : List Leaf :=
  (b.matching.toList.flatMap fun m => m.labels.map .label) ++
    (b.join.toList.flatMap fun j => j.labels.map .label) ++
    b.joinLead.toList.flatMap StringExpr.leaves

/-! ## Leaves of expressions -/

namespace Expr

mutual

/-- The leaves of an expression, those of its templates among them. -/
@[simp] def leaves : Expr → List Leaf
  | number n => [.number n]
  | duration d => [d.leaf]
  | string value => [.text value]
  | concat s => s.leaves
  | selector s => s.leaves
  | selectorExpr s => s.leaves
  | call name args _ => .text name :: leavesOfList args
  | aggregate a args => a.leaves ++ leavesOfList args
  | binary b l r => b.leaves ++ leaves l ++ leaves r
  | rollup inner range time => leaves inner ++ range.leaves ++ leavesOfOption time
  | tuple items => leavesOfList items
  | withTemplates ts body => leavesOfTemplates ts ++ leaves body

/-- The leaves of each of the expressions. -/
@[simp] def leavesOfList : List Expr → List Leaf
  | [] => []
  | e :: es => leaves e ++ leavesOfList es

/-- The leaves of the expression, if there is one. -/
@[simp] def leavesOfOption : Option Expr → List Leaf
  | none => []
  | some e => leaves e

/-- The name, the parameters and what the template stands for. -/
@[simp] def leavesOfTemplate : Template → List Leaf
  | .mk name params body => .text name :: params.map .text ++ leaves body

/-- The leaves of each of the templates. -/
@[simp] def leavesOfTemplates : List Template → List Leaf
  | [] => []
  | t :: ts => leavesOfTemplate t ++ leavesOfTemplates ts

end

/-- All leaves of the expression have the property. -/
def Made (K : Leaf → Prop) (e : Expr) : Prop :=
  ∀ l ∈ e.leaves, K l

end Expr

/-- All leaves of the template have the property. -/
def Template.Made (K : Leaf → Prop) (t : Template) : Prop :=
  ∀ l ∈ Expr.leavesOfTemplate t, K l

instance (K : Leaf → Prop) [DecidablePred K] : DecidablePred (Expr.Made K) :=
  fun e => inferInstanceAs (Decidable (∀ l ∈ e.leaves, K l))

instance (K : Leaf → Prop) [DecidablePred K] : DecidablePred (Template.Made K) :=
  fun t => inferInstanceAs (Decidable (∀ l ∈ Expr.leavesOfTemplate t, K l))

/-! ## Nodes -/

section

variable {K : Leaf → Prop}

theorem Template.made_iff {t : Template} :
    t.Made K ↔ K (.text t.name) ∧ (∀ p ∈ t.params, K (.text p)) ∧ t.body.Made K := by
  rcases t with ⟨name, params, body⟩
  simp [Template.Made, Expr.Made, Template.name, Template.params,
    Template.body, or_imp, forall_and]

namespace Expr

theorem forall_mem_leavesOfList {es : List Expr} :
    (∀ l ∈ leavesOfList es, K l) ↔ ∀ e ∈ es, e.Made K := by
  induction es with
  | nil => simp
  | cons e es ih => simp [Made, or_imp, forall_and, ih]

theorem forall_mem_leavesOfOption {o : Option Expr} :
    (∀ l ∈ leavesOfOption o, K l) ↔ ∀ e ∈ o, e.Made K := by
  cases o <;> simp [Made]

theorem forall_mem_leavesOfTemplates {ts : List Template} :
    (∀ l ∈ leavesOfTemplates ts, K l) ↔ ∀ t ∈ ts, t.Made K := by
  induction ts with
  | nil => simp
  | cons t ts ih => simp [Template.Made, or_imp, forall_and, ih]

theorem made_number {n : NumberLiteral} : Made K (.number n) ↔ K (.number n) := by
  simp [Made]

theorem made_duration {d : Duration} : Made K (.duration d) ↔ K d.leaf := by
  simp [Made]

theorem made_string {value : String} : Made K (.string value) ↔ K (.text value) := by
  simp [Made]

theorem made_concat {s : StringExpr} :
    Made K (.concat s) ↔ ∀ segment ∈ s.segments, K segment.leaf := by
  simp [Made, StringExpr.leaves]

theorem made_selector {s : Selector} :
    Made K (.selector s) ↔ ∀ g ∈ s.groups, ∀ f ∈ g, K f.leaf := by
  simp only [Made, leaves, Selector.leaves, List.forall_mem_flatMap, List.forall_mem_map]

theorem made_selectorExpr {s : SelectorExpr} :
    Made K (.selectorExpr s) ↔ ∀ g ∈ s.groups, ∀ f ∈ g, ∀ l ∈ f.leaves, K l := by
  simp only [Made, leaves, SelectorExpr.leaves, List.forall_mem_flatMap]

theorem made_call {name : String} {args : List Expr} {keepNames : Bool} :
    Made K (.call name args keepNames) ↔ K (.text name) ∧ ∀ e ∈ args, e.Made K := by
  rw [← forall_mem_leavesOfList]
  simp [Made]

theorem made_aggregate {a : Aggregation} {args : List Expr} :
    Made K (.aggregate a args) ↔ (∀ l ∈ a.leaves, K l) ∧ ∀ e ∈ args, e.Made K := by
  rw [← forall_mem_leavesOfList]
  simp [Made, or_imp, forall_and]

theorem made_binary {b : BinaryOp} {l r : Expr} :
    Made K (.binary b l r) ↔ (∀ l ∈ b.leaves, K l) ∧ l.Made K ∧ r.Made K := by
  simp [Made, or_imp, forall_and]

theorem made_rollup {inner : Expr} {range : Range} {time : Option Expr} :
    Made K (.rollup inner range time) ↔
      inner.Made K ∧ (∀ l ∈ range.leaves, K l) ∧ ∀ e ∈ time, e.Made K := by
  rw [← forall_mem_leavesOfOption]
  simp [Made, or_imp, forall_and]

theorem made_tuple {items : List Expr} : Made K (.tuple items) ↔ ∀ e ∈ items, e.Made K := by
  rw [← forall_mem_leavesOfList]
  simp [Made]

theorem made_withTemplates {ts : List Template} {body : Expr} :
    Made K (.withTemplates ts body) ↔ (∀ t ∈ ts, t.Made K) ∧ body.Made K := by
  rw [← forall_mem_leavesOfTemplates]
  simp [Made, or_imp, forall_and]

theorem made_ofItems {items : List Expr} (h : ∀ e ∈ items, e.Made K) : Made K (ofItems items) := by
  unfold ofItems
  split
  · exact h _ List.mem_cons_self
  · exact made_tuple.2 h

theorem Made.markKeepNames {e : Expr} (h : e.Made K) : ∀ e' ∈ e.markKeepNames, e'.Made K := by
  intro e' he'
  cases e with
  | call name args keepNames =>
      cases he'
      exact made_call.2 (made_call.1 h)
  | binary b l r =>
      cases he'
      exact made_binary.2 (made_binary.1 h)
  | _ => cases he'

theorem Made.imp {K' : Leaf → Prop} {e : Expr} (h : e.Made K) (hK : ∀ l, K l → K' l) : e.Made K' :=
  fun l hl => hK l (h l hl)

end Expr

/-! ## Scopes -/

/-- The leaves of what the frame declares have the property, and the names that it declares. -/
def Frame.Made (K : Leaf → Prop) : Frame → Prop
  | .templates ts => ∀ t ∈ ts, t.Made K
  | .arguments bound => ∀ b ∈ bound, K (.text b.1) ∧ b.2.Made K

/-- All frames of the scope are made of leaves that have the property. -/
def Scope.Made (K : Leaf → Prop) (scope : Scope) : Prop :=
  ∀ frame ∈ scope, frame.Made K

/-- The template and its scope, or the argument, is made of leaves that have the property. -/
def Meaning.Made (K : Leaf → Prop) : Meaning → Prop
  | .template t scope => t.Made K ∧ scope.Made K
  | .value e => e.Made K

instance (K : Leaf → Prop) [DecidablePred K] : DecidablePred (Frame.Made K)
  | .templates ts => inferInstanceAs (Decidable (∀ t ∈ ts, t.Made K))
  | .arguments bound => inferInstanceAs (Decidable (∀ b ∈ bound, K (.text b.1) ∧ b.2.Made K))

instance (K : Leaf → Prop) [DecidablePred K] : DecidablePred (Scope.Made K) :=
  fun scope => inferInstanceAs (Decidable (∀ frame ∈ scope, frame.Made K))

theorem Scope.made_cons {frame : Frame} {scope : Scope} :
    Scope.Made K (frame :: scope) ↔ frame.Made K ∧ scope.Made K :=
  List.forall_mem_cons

/-- What a name stands for in a frame is made of what the frame is made of; the name is declared
there. -/
theorem Frame.made_lookup {frame : Frame} {outer : Scope} (hframe : frame.Made K)
    (houter : outer.Made K) {name : String} {meaning : Meaning}
    (h : frame.lookup outer name = some meaning) : K (.text name) ∧ meaning.Made K := by
  cases frame with
  | templates ts =>
      rcases Option.map_eq_some_iff.1 h with ⟨t, ht, rfl⟩
      have hmade := hframe t (List.mem_of_find?_eq_some ht)
      have hname : t.name = name := by simpa using List.find?_some ht
      refine ⟨hname ▸ (Template.made_iff.1 hmade).1, hmade, Scope.made_cons.2 ⟨?_, houter⟩⟩
      -- A template sees those before it only.
      intro t' ht'
      exact hframe t' ((List.takeWhile_sublist _).mem ht')
  | arguments bound =>
      rcases Option.map_eq_some_iff.1 h with ⟨b, hb, rfl⟩
      have hmade := hframe b (List.mem_of_find?_eq_some hb)
      have hname : b.1 = name := by simpa using List.find?_some hb
      exact ⟨hname ▸ hmade.1, hmade.2⟩

theorem Scope.made_lookup {scope : Scope} (h : scope.Made K) {name : String} {meaning : Meaning}
    (hfound : scope.lookup name = some meaning) : K (.text name) ∧ meaning.Made K := by
  induction scope with
  | nil => cases hfound
  | cons frame outer ih =>
      have hparts := Scope.made_cons.1 h
      simp only [Scope.lookup] at hfound
      split at hfound
      · rename_i hframe
        cases hfound
        exact Frame.made_lookup hparts.1 hparts.2 hframe
      · exact ih hparts.2 hfound

end

/-! ## Properties that expansion keeps -/

/-- What can be said of the leaves that expansion puts together: strings are joined, the names of
metrics are taken for labels, and numbers for durations. -/
structure Leaf.Closed (K : Leaf → Prop) : Prop where
  empty : K (.text "")
  append {s t : String} : K (.text s) → K (.text t) → K (.text (s ++ t))
  label {name : String} : K (.text name) → K (.label name)
  duration {n : NumberLiteral} : K (.number n) → K (.duration n.render)

end SeriesQuery
