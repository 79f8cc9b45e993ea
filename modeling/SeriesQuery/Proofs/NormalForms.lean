import SeriesQuery.Proofs.Foreign

/-!
# Results are normal forms

A node is settled where it is expanded and does not call a template of every query.  The outermost
scope has nothing to say on settled nodes: plain names do not refer to its templates, which all take
parameters.  So expansion takes away the parentheses around single expressions there, and does
nothing else.

All nodes of what a query stands for are settled, bare and folded, and none of the passes changes it
again.
-/

namespace SeriesQuery

/-! ## The outermost scope -/

theorem params_builtinTemplates : ∀ t ∈ builtinTemplates, t.params.isEmpty = false := by
  simp [builtinTemplates, Template.params]

/-- No plain name refers to a template of every query. -/
theorem plainMeaning_builtinScope (name : String) : plainMeaning builtinScope name = none := by
  unfold plainMeaning
  rw [lookup_builtinScope, Frame.lookup]
  cases hfind : builtinTemplates.find? fun t => t.name == name with
  | none => rfl
  | some t =>
      have hparams := params_builtinTemplates t (List.mem_of_find?_eq_some hfind)
      simp [hparams]

/-! ## Settled nodes -/

section

variable {enter : Enter}

theorem expandName_builtinScope (s : Selector) :
    expandName enter builtinScope s = .ok (.selector s) := by
  unfold expandName
  split
  · rfl
  · rw [plainMeaning_builtinScope]

theorem expandLabelList_builtinScope (labels : List String) :
    expandLabelList enter builtinScope labels = .ok labels := by
  induction labels with
  | nil => rfl
  | cons label rest ih =>
      simp only [expandLabelList, expandLabel, plainMeaning_builtinScope, ih]
      rfl

theorem expandLabels_builtinScope {labels : List String} (h : labels.Nodup) :
    expandLabels enter builtinScope labels = .ok labels := by
  simp [expandLabels, expandLabelList_builtinScope, eraseDups_of_nodup h]

theorem expandString_of_literal {scope : Scope} {s : StringExpr} {value : String}
    (h : s.segments = [.literal value]) : expandString enter scope s = .ok value := by
  simp [expandString, StringExpr.resolve, h, StringExpr.resolveSegments]

theorem expandDuration?_of_resolved {scope : Scope} {d : Option Duration}
    (h : Duration.Resolved d) : expandDuration? enter scope d = .ok d := by
  cases d with
  | none => rfl
  | some d => simp [expandDuration?, expandDuration, Duration.templateName?, h d rfl]

theorem expandRange_of_resolved {scope : Scope} {r : Range} (h : r.Resolved) :
    expandRange enter scope r = .ok r := by
  rw [expandRange, expandDuration?_of_resolved h.window, expandDuration?_of_resolved h.step,
    expandDuration?_of_resolved h.offset]
  rfl

theorem expandCall_builtinScope {name : String} (h : name ∉ builtinNames) (args : List Expr)
    (keepNames : Bool) :
    expandCall enter builtinScope name args keepNames = .ok (.call name args keepNames) := by
  simp [expandCall, lookup_builtinScope_eq_none.2 h]

theorem expandAggregate_builtinScope {a : Aggregation} (h : a.name ∉ builtinNames)
    (hlabels : ∀ g ∈ a.grouping, g.labels.Nodup) (args : List Expr) :
    expandAggregate enter builtinScope a args = .ok (.aggregate a args) := by
  rcases a with ⟨name, grouping, limit⟩
  cases grouping with
  | none => simp [expandAggregate, lookup_builtinScope_eq_none.2 h]
  | some g =>
      have hg : g.withLabels g.labels = g := by cases g <;> rfl
      simp [expandAggregate, lookup_builtinScope_eq_none.2 h,
        expandLabels_builtinScope (hlabels g rfl), hg]

theorem mapM_some_id {α : Type} {o : Option α} {f : α → Expansion α} (h : ∀ a ∈ o, f a = .ok a) :
    o.mapM f = .ok o := by
  cases o with
  | none => rfl
  | some a => simp [h a rfl]

theorem expandOperator_builtinScope {b : BinaryOp} (h : b.WellFormed) :
    expandOperator enter builtinScope b = .ok b := by
  have hmatching : (b.matching.mapM fun m =>
      Matching.mk m.kind <$> expandLabels enter builtinScope m.labels) = .ok b.matching :=
    mapM_some_id fun m hm => by rw [expandLabels_builtinScope (h.matching m hm)]; rfl
  have hjoin : (b.join.mapM fun j =>
      Join.mk j.side <$> expandLabels enter builtinScope j.labels) = .ok b.join :=
    mapM_some_id fun j hj => by rw [expandLabels_builtinScope (h.join j hj).2.2]; rfl
  have hlead : (b.joinLead.mapM fun lead =>
      StringExpr.ofLiteral <$> expandString enter builtinScope lead) = .ok b.joinLead := by
    refine mapM_some_id fun lead hmem => ?_
    rcases (h.joinLead lead hmem).2 with ⟨value, hvalue⟩
    rw [expandString_of_literal hvalue]
    exact congrArg Except.ok (congrArg StringExpr.mk hvalue.symm)
  rw [expandOperator_eq, hmatching, hjoin, hlead]
  rfl

end

/-! ## Settled trees -/

namespace Expr

/-- The node refers to no template, and calls none of every query. -/
abbrev IsSettled (e : Expr) : Prop :=
  e.IsExpanded ∧ e.IsForeign

section

variable {enter : Enter}

theorem expandListWith_eq_map {scope : Scope} {es : List Expr} {f : Expr → Expr}
    (h : ∀ e ∈ es, expandWith enter scope e = .ok (f e)) :
    expandListWith enter scope es = .ok (es.map f) := by
  induction es with
  | nil => rfl
  | cons e es ih =>
      have hparts := List.forall_mem_cons.1 h
      rw [expandListWith, hparts.1, ih hparts.2]
      rfl

theorem expandOptionWith_eq_map {scope : Scope} {time : Option Expr} {f : Expr → Expr}
    (h : ∀ e ∈ time, expandWith enter scope e = .ok (f e)) :
    expandOptionWith enter scope time = .ok (time.map f) := by
  cases time with
  | none => rfl
  | some e =>
      rw [expandOptionWith, h e rfl]
      rfl

/-- Expansion of a settled tree only takes away parentheses around single expressions. -/
theorem expandWith_builtinScope {e : Expr} (h : AllNodes IsSettled e) :
    expandWith enter builtinScope e = .ok e.dropParens := by
  induction e using Expr.inductionOn with
  | number n => rfl
  | duration d => rfl
  | string value => rfl
  | concat s => exact h.self.1.elim
  | selector s => simp [expandWith, expandName_builtinScope, dropParens]
  | selectorExpr s => exact h.self.1.elim
  -- The scope holds the built-in templates only, and no name of the tree is one of them.
  | call name args keepNames ih =>
      have hparts := allNodes_call.1 h
      have hargs := expandListWith_eq_map fun e he => ih e he (hparts.2 e he)
      rw [expandWith, hargs, dropParens, dropParensList_eq_map]
      exact expandCall_builtinScope hparts.1.2 _ _
  | aggregate a args ih =>
      have hparts := allNodes_aggregate.1 h
      have hargs := expandListWith_eq_map fun e he => ih e he (hparts.2 e he)
      rw [expandWith, hargs, dropParens, dropParensList_eq_map]
      exact expandAggregate_builtinScope hparts.1.2 hparts.1.1.2 _
  | binary b l r ihl ihr =>
      have hparts := allNodes_binary.1 h
      have hnode : expandOperator enter builtinScope b = .ok b :=
        expandOperator_builtinScope hparts.1.1
      rw [expandWith, ihl hparts.2.1, ihr hparts.2.2, hnode, dropParens]
      rfl
  | rollup inner range time ih iht =>
      have hparts := allNodes_rollup.1 h
      have htime := expandOptionWith_eq_map fun e he => iht e he (hparts.2.2 e he)
      have hnode : expandRange enter builtinScope range = .ok range :=
        expandRange_of_resolved hparts.1.1
      rw [expandWith, ih hparts.2.1, htime, hnode, dropParens, dropParensOption_eq_map]
      rfl
  | tuple items ih =>
      have hparts := allNodes_tuple.1 h
      have hitems := expandListWith_eq_map fun e he => ih e he (hparts.2 e he)
      rw [expandWith, hitems, dropParens, dropParensList_eq_map]
      rfl
  | withTemplates ts body => exact h.self.1.elim

end

theorem expandTemplates_of_settled {e : Expr} (h : AllNodes IsSettled e) :
    e.expandTemplates = .ok e.dropParens :=
  expandWith_builtinScope h

/-! ## Bare and folded trees -/

theorem map_eq_self {α : Type} {f : α → α} {xs : List α} (h : ∀ x ∈ xs, f x = x) :
    xs.map f = xs := by
  rw [List.map_congr_left h, List.map_id']

theorem optionMap_eq_self {α : Type} {f : α → α} {o : Option α} (h : ∀ a ∈ o, f a = a) :
    o.map f = o := by
  rw [Option.map_congr h, Option.map_id']

theorem ofItems_of_length_ne {items : List Expr} (h : items.length ≠ 1) :
    ofItems items = tuple items := by
  unfold ofItems
  split
  · exact absurd rfl h
  · rfl

/-- A tree without needless parentheses has none to take away. -/
theorem dropParens_of_bare {e : Expr} (h : AllNodes IsBare e) : e.dropParens = e := by
  induction e using Expr.inductionOn with
  | call name args keepNames ih =>
      have hparts := allNodes_call.1 h
      rw [dropParens, dropParensList_eq_map, map_eq_self fun e he => ih e he (hparts.2 e he)]
  | aggregate a args ih =>
      have hparts := allNodes_aggregate.1 h
      rw [dropParens, dropParensList_eq_map, map_eq_self fun e he => ih e he (hparts.2 e he)]
  | binary b l r ihl ihr =>
      have hparts := allNodes_binary.1 h
      rw [dropParens, ihl hparts.2.1, ihr hparts.2.2]
  | rollup inner range time ih iht =>
      have hparts := allNodes_rollup.1 h
      rw [dropParens, dropParensOption_eq_map, ih hparts.2.1,
        optionMap_eq_self fun e he => iht e he (hparts.2.2 e he)]
  | tuple items ih =>
      have hparts := allNodes_tuple.1 h
      rw [dropParens, dropParensList_eq_map, map_eq_self fun e he => ih e he (hparts.2 e he),
        ofItems_of_length_ne hparts.1]
  | _ => rfl

theorem foldStrings_of_takesStrings {b : BinaryOp} (h : b.op.takesStrings = false) (s t : String) :
    foldStrings b s t = none := by
  cases hop : b.op <;>
    simp_all [foldStrings, Operator.compareStrings, Operator.comparesStrings?,
      Operator.takesStrings, Operator.isComparison, Operator.kind]

theorem foldBinary_of_folded {b : BinaryOp} {l r : Expr} (h : IsFolded (binary b l r)) :
    foldBinary b l r = binary b l r := by
  unfold foldBinary
  split
  · exact h.elim
  · rw [foldStrings_of_takesStrings h]
    rfl
  · rfl

/-- A tree without operators on constants has none to fold. -/
theorem foldConstants_of_folded {e : Expr} (h : AllNodes IsFolded e) : e.foldConstants = e := by
  induction e using Expr.inductionOn with
  | call name args keepNames ih =>
      have hparts := allNodes_call.1 h
      rw [foldConstants, foldConstantsList_eq_map,
        map_eq_self fun e he => ih e he (hparts.2 e he)]
  | aggregate a args ih =>
      have hparts := allNodes_aggregate.1 h
      rw [foldConstants, foldConstantsList_eq_map,
        map_eq_self fun e he => ih e he (hparts.2 e he)]
  | binary b l r ihl ihr =>
      have hparts := allNodes_binary.1 h
      rw [foldConstants, ihl hparts.2.1, ihr hparts.2.2, foldBinary_of_folded hparts.1]
  | rollup inner range time ih iht =>
      have hparts := allNodes_rollup.1 h
      rw [foldConstants, foldConstantsOption_eq_map, ih hparts.2.1,
        optionMap_eq_self fun e he => iht e he (hparts.2.2 e he)]
  | tuple items ih =>
      have hparts := allNodes_tuple.1 h
      rw [foldConstants, foldConstantsList_eq_map,
        map_eq_self fun e he => ih e he (hparts.2 e he)]
  | _ => rfl

theorem AllNodes.imp {P Q : Expr → Prop} {e : Expr} (h : AllNodes P e) (hPQ : ∀ n, P n → Q n) :
    AllNodes Q e :=
  fun n hn => hPQ n (h n hn)

end Expr

/-! ## Queries -/

/-- What a query stands for is a normal form of each of the passes. -/
theorem normal_parse {query : String} {e : Expr} (h : parse query = .ok e) :
    e.expandTemplates = .ok e ∧ e.dropParens = e ∧ e.foldConstants = e := by
  have hnodes := gives_parse query e h
  have hbare : e.dropParens = e := Expr.dropParens_of_bare (hnodes.imp fun _ hn => hn.bare)
  refine ⟨?_, hbare, Expr.foldConstants_of_folded (hnodes.imp fun _ hn => hn.folded)⟩
  have hforeign := foreign_parse query e h
  have hsettled : e.AllNodes Expr.IsSettled := fun n hn => ⟨(hnodes n hn).expanded, hforeign n hn⟩
  rw [Expr.expandTemplates_of_settled hsettled, hbare]

/-- A query with metrics and labels that are named as the templates of every query are. -/
def namesakeQuery : String :=
  "sum(ru\x7bttf=\"a\"\x7d) by (ttf) @ (ru + on(ru) ttf)"

theorem normal_parse_namesakeQuery :
    ∃ e, parse namesakeQuery = .ok e ∧
      e.expandTemplates = .ok e ∧ e.dropParens = e ∧ e.foldConstants = e := by
  have hok : (parse namesakeQuery).isOk :=
    parse_of_toList (P := fun x => x.isOk) String.toList_ofList (by decide +kernel)
      (by decide +kernel)
  cases h : parse namesakeQuery with
  | ok e => exact ⟨e, rfl, normal_parse h⟩
  | error cause =>
      rw [h] at hok
      cases hok

end SeriesQuery
