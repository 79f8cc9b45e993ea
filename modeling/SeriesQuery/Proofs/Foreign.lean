import SeriesQuery.Proofs.Places
import SeriesQuery.Proofs.WellFormed

/-!
# Calls of the templates of every query

`ru` is a template of every query, and the name of a function too.  A tree is `Foreign` where no
call in it is of such a template.  What an expression expands to is foreign: a call is left as it is
only where the scope does not know its name, and then it is not the name of such a template either.

The bodies of these templates do not see them all, but call none of them.  So the scope covers them,
or the expression does not name them (`Expr.Guarded`).
-/

namespace SeriesQuery

/-! ## The outermost scope -/

/-- The names of the templates that every query may use. -/
def builtinNames : List String :=
  builtinTemplates.map Template.name

theorem lookup_builtinScope (name : String) :
    builtinScope.lookup name = Frame.lookup [] name (.templates builtinTemplates) := by
  simp only [builtinScope, Scope.lookup]
  split
  · exact Eq.symm ‹_›
  · exact Eq.symm ‹_›

theorem lookup_builtinScope_eq_none {name : String} :
    builtinScope.lookup name = none ↔ name ∉ builtinNames := by
  rw [lookup_builtinScope, Frame.lookup, Option.map_eq_none_iff, List.find?_eq_none, builtinNames,
    List.mem_map]
  simp

/-- The scope has a meaning for each template of every query. -/
def Scope.Covers (scope : Scope) : Prop :=
  ∀ name ∈ builtinNames, scope.lookup name ≠ none

theorem Scope.covers_builtinScope : builtinScope.Covers :=
  fun _ hname hnone => lookup_builtinScope_eq_none.1 hnone hname

theorem Scope.Covers.cons {scope : Scope} (h : scope.Covers) (frame : Frame) :
    Scope.Covers (frame :: scope) := by
  intro name hname
  simp only [Scope.lookup]
  split
  · simp
  · exact h name hname

/-! ## Foreign trees -/

/-- The leaf does not name a template of every query. -/
def Leaf.Foreign : Leaf → Prop
  | .text value => value ∉ builtinNames
  | _ => True

instance : DecidablePred Leaf.Foreign
  | .text value => inferInstanceAs (Decidable (value ∉ builtinNames))
  | .label _ => inferInstanceAs (Decidable True)
  | .number _ => inferInstanceAs (Decidable True)
  | .duration _ => inferInstanceAs (Decidable True)

namespace Expr

/-- The node does not call a template of every query. -/
def IsForeign : Expr → Prop
  | call name _ _ => name ∉ builtinNames
  | aggregate a _ => a.name ∉ builtinNames
  | _ => True

/-- No node calls a template of every query. -/
abbrev Foreign : Expr → Prop :=
  AllNodes IsForeign

/-- Whichever template of every query the expression names, the scope has a meaning for it. -/
def Guarded (scope : Scope) (e : Expr) : Prop :=
  scope.Covers ∨ e.Made Leaf.Foreign

theorem foreign_selector (s : Selector) : Foreign (.selector s) :=
  (allNodes_atom rfl).2 trivial

theorem foreign_ofItems {items : List Expr} (h : ∀ e ∈ items, Foreign e) :
    Foreign (ofItems items) := by
  unfold ofItems
  split
  · exact h _ List.mem_cons_self
  · exact allNodes_tuple.2 ⟨trivial, h⟩

theorem Foreign.markKeepNames {e : Expr} (h : Foreign e) : Foreign (e.markKeepNames.getD e) := by
  cases e with
  | call name args keepNames =>
      have hparts := allNodes_call.1 h
      exact allNodes_call.2 ⟨hparts.1, hparts.2⟩
  | binary b l r =>
      have hparts := allNodes_binary.1 h
      exact allNodes_binary.2 ⟨trivial, hparts.2⟩
  | _ => exact h

end Expr

/-! ## Scopes -/

/-- Templates are guarded by what is around them, and arguments are foreign. -/
def Scope.Sheltered : Scope → Prop
  | [] => True
  | .templates ts :: outer =>
      (Scope.Covers outer ∨ ∀ t ∈ ts, t.body.Made Leaf.Foreign) ∧ Scope.Sheltered outer
  | .arguments bound :: outer => (∀ b ∈ bound, b.2.Foreign) ∧ Scope.Sheltered outer

/-- The template is guarded in its scope, or the argument is foreign. -/
def Meaning.Sheltered : Meaning → Prop
  | .template t scope => Scope.Sheltered scope ∧ t.body.Guarded scope
  | .value e => e.Foreign

theorem Scope.Sheltered.lookup {scope : Scope} (h : scope.Sheltered) {name : String} :
    ∀ meaning ∈ scope.lookup name, meaning.Sheltered := by
  induction scope with
  | nil =>
      intro meaning hfound
      cases hfound
  | cons frame outer ih =>
      intro meaning hfound
      simp only [Scope.lookup] at hfound
      split at hfound
      · rename_i hframe
        cases hfound
        cases frame with
        | templates ts =>
            rcases Option.map_eq_some_iff.1 hframe with ⟨t, ht, rfl⟩
            rcases h.1 with hcovers | hforeign
            · exact ⟨⟨.inl hcovers, h.2⟩, .inl (Scope.Covers.cons hcovers _)⟩
            · have hbefore : ∀ t' ∈ ts.takeWhile fun t => t.name != name,
                  t'.body.Made Leaf.Foreign :=
                fun t' ht' => hforeign t' ((List.takeWhile_sublist _).mem ht')
              exact ⟨⟨.inr hbefore, h.2⟩, .inr (hforeign t (List.mem_of_find?_eq_some ht))⟩
        | arguments bound =>
            rcases Option.map_eq_some_iff.1 hframe with ⟨b, hb, rfl⟩
            exact h.1 b (List.mem_of_find?_eq_some hb)
      · cases frame with
        | templates ts => exact ih h.2 meaning hfound
        | arguments bound => exact ih h.2 meaning hfound

theorem plainMeaning_sheltered {scope : Scope} (h : scope.Sheltered) {name : String} :
    ∀ meaning ∈ plainMeaning scope name, meaning.Sheltered :=
  fun meaning hmeaning => h.lookup meaning (Option.eq_some_of_filter_eq_some hmeaning)

/-- A property of the body of a template, found from the characters of its text. -/
theorem Template.body_of_toList {P : Expr → Prop} [DecidablePred P] {t : Template} {text : String}
    {cs : List Char} (ht : t.body = bodyOf text) (hcs : text.toList = cs)
    (hscan : (Lexeme.texts cs).2)
    (hbody : (Reader.expression depthBudget ⟨(Lexeme.texts cs).1, none, 0⟩).toOption.all
      fun found => P found.1)
    (hnone : P (.tuple [])) : P t.body := by
  have htexts : Lexeme.texts text.toList = ((Lexeme.texts cs).1, true) := by
    rw [hcs, ← hscan]
  rw [ht, bodyOf, Expr.ofText_of_texts htexts]
  cases hread : Reader.expression depthBudget ⟨(Lexeme.texts cs).1, none, 0⟩ with
  | error cause => exact hnone
  | ok found =>
      have hfound : P found.1 := by
        rw [hread] at hbody
        exact of_decide_eq_true hbody
      by_cases hend : found.2.tokens.isEmpty
      · simp only [Bind.bind, Except.bind, hend, if_true]
        exact hfound
      · simp only [Bind.bind, Except.bind, hend]
        exact hnone

/-- The templates of every query name none of them, and quote no strings. -/
theorem body_builtinTemplates :
    ∀ t ∈ builtinTemplates, t.body.Made Leaf.Foreign ∧ t.body.quotes = [] := by
  have hnone : Expr.Made Leaf.Foreign (.tuple []) ∧ Expr.quotes (.tuple []) = [] := by
    simp [Expr.Made]
  intro t ht
  simp only [builtinTemplates, List.mem_cons, List.not_mem_nil, or_false] at ht
  rcases ht with ht | ht
  · have hbody := ht ▸ body_mk _ _ _
    exact Template.body_of_toList (P := fun e => e.Made Leaf.Foreign ∧ e.quotes = []) hbody
      String.toList_ofList (by decide +kernel) (by decide +kernel) hnone
  · have hbody := ht ▸ body_mk _ _ _
    exact Template.body_of_toList (P := fun e => e.Made Leaf.Foreign ∧ e.quotes = []) hbody
      (toList_append_eq String.toList_ofList String.toList_ofList) (by decide +kernel)
      (by decide +kernel) hnone

theorem Scope.sheltered_builtinScope : builtinScope.Sheltered :=
  ⟨.inr fun t ht => (body_builtinTemplates t ht).1, trivial⟩

/-! ## References -/

/-- Bodies of templates expand to foreign trees. -/
def Enter.Foreign (enter : Enter) : Prop :=
  ∀ name scope body, Scope.Sheltered scope → body.Guarded scope →
    Gives Expr.Foreign (enter name scope body)

section

variable {enter : Enter} (henter : enter.Foreign)
include henter

theorem foreign_instantiate {t : Template} {scope : Scope} {args : List Expr}
    (hscope : scope.Sheltered) (hbody : t.body.Guarded scope) (hargs : ∀ e ∈ args, e.Foreign) :
    Gives Expr.Foreign (instantiate enter t scope args) :=
  gives_instantiate_of (henter t.name scope t.body hscope hbody) fun _ hbound =>
    henter t.name _ t.body ⟨fun b hb => hargs b.2 (hbound b hb), hscope⟩
      (hbody.imp_left (·.cons _))

theorem Meaning.Sheltered.givesOf {meaning : Meaning} (h : meaning.Sheltered) :
    meaning.GivesOf Expr.Foreign enter := by
  cases meaning with
  | value e => exact h
  | template t scope => exact fun args hargs => foreign_instantiate henter h.1 h.2 hargs

theorem foreign_refer {meaning : Meaning} (h : meaning.Sheltered) :
    Gives Expr.Foreign (refer enter meaning) :=
  (h.givesOf henter).refer fun _ => Expr.foreign_selector _

theorem foreign_callMeaning {name : String} {args : List Expr} {meaning : Meaning}
    (hargs : ∀ e ∈ args, e.Foreign) (h : meaning.Sheltered) :
    Gives Expr.Foreign (callMeaning enter name args meaning) :=
  (h.givesOf henter).call hargs

end

/-! ## Nodes -/

theorem foreign_addFilters {name : String} {more : List (List LabelFilter)} {value : Expr}
    (hvalue : value.Foreign) : Gives Expr.Foreign (addFilters name more value) := by
  unfold addFilters
  split
  · exact gives_ok hvalue
  · split
    · exact (gives_true _).map fun s _ => Expr.foreign_selector s
    · have hparts := Expr.allNodes_rollup.1 hvalue
      refine (gives_true _).map fun s _ => ?_
      exact Expr.allNodes_rollup.2 ⟨trivial, Expr.foreign_selector s, hparts.2.2⟩
    · exact gives_error _

section

variable {enter : Enter} {scope : Scope} (henter : enter.Foreign) (hscope : scope.Sheltered)
include henter hscope

theorem foreign_expandName (s : Selector) : Gives Expr.Foreign (expandName enter scope s) := by
  unfold expandName
  split
  · exact gives_ok (Expr.foreign_selector s)
  · split
    · exact gives_ok (Expr.foreign_selector s)
    · rename_i meaning hmeaning
      have hsheltered := plainMeaning_sheltered hscope meaning hmeaning
      exact (foreign_refer henter hsheltered).bind fun e he => foreign_addFilters he

/-- A call is left as it is where its name is unknown.  Then it is not that of a template of every
query. -/
theorem foreign_expandCall {name : String} {args : List Expr} {keepNames : Bool}
    (hname : scope.Covers ∨ name ∉ builtinNames) (hargs : ∀ e ∈ args, e.Foreign) :
    Gives Expr.Foreign (expandCall enter scope name args keepNames) := by
  unfold expandCall
  split
  · rename_i hnone
    refine gives_ok (Expr.allNodes_call.2 ⟨?_, hargs⟩)
    exact hname.elim (fun hcovers hmem => hcovers name hmem hnone) id
  · rename_i meaning hmeaning
    have hsheltered := hscope.lookup meaning hmeaning
    refine (foreign_callMeaning henter hargs hsheltered).bind fun e he => gives_ok ?_
    split
    · exact he.markKeepNames
    · exact he

theorem foreign_expandAggregate {a : Aggregation} {args : List Expr}
    (hname : scope.Covers ∨ a.name ∉ builtinNames) (hargs : ∀ e ∈ args, e.Foreign) :
    Gives Expr.Foreign (expandAggregate enter scope a args) := by
  unfold expandAggregate
  split
  · rename_i meaning hmeaning
    exact foreign_callMeaning henter hargs (hscope.lookup meaning hmeaning)
  · rename_i hnone
    have hother : a.name ∉ builtinNames :=
      hname.elim (fun hcovers hmem => hcovers a.name hmem hnone) id
    split
    · exact gives_ok (Expr.allNodes_aggregate.2 ⟨hother, hargs⟩)
    · exact gives_bind_any fun labels => gives_ok (Expr.allNodes_aggregate.2 ⟨hother, hargs⟩)

end

/-! ## Trees -/

namespace Expr

section

variable {enter : Enter}

/-- What an expression expands to is foreign, where its scope guards it. -/
theorem foreign_expandWith (henter : enter.Foreign) (e : Expr) :
    ∀ scope, Scope.Sheltered scope → e.Guarded scope → Gives Foreign (expandWith enter scope e) := by
  induction e using Expr.inductionOn with
  | number _ => exact fun _ _ _ => gives_ok ((allNodes_atom rfl).2 trivial)
  | duration _ => exact fun _ _ _ => gives_ok ((allNodes_atom rfl).2 trivial)
  | string _ => exact fun _ _ _ => gives_ok ((allNodes_atom rfl).2 trivial)
  | concat s => exact fun _ _ _ => (gives_true _).map fun _ _ => (allNodes_atom rfl).2 trivial
  | selector s => exact fun scope hscope _ => foreign_expandName henter hscope s
  | selectorExpr s =>
      exact fun scope hscope _ => gives_bind_any fun _ => foreign_expandName henter hscope _
  | call name args keepNames ih =>
      intro scope hscope hguarded
      have hparts := hguarded.imp_right made_call.1
      have hargs := gives_expandListWith fun e he =>
        ih e he scope hscope (hparts.imp_right fun h => h.2 e he)
      exact hargs.bind fun args' hargs' =>
        foreign_expandCall henter hscope (hparts.imp_right (·.1)) hargs'
  | aggregate a args ih =>
      intro scope hscope hguarded
      have hparts := hguarded.imp_right made_aggregate.1
      have hargs := gives_expandListWith fun e he =>
        ih e he scope hscope (hparts.imp_right fun h => h.2 e he)
      have hname : scope.Covers ∨ a.name ∉ builtinNames :=
        hparts.imp_right fun h => h.1 (.text a.name) List.mem_cons_self
      exact hargs.bind fun args' hargs' => foreign_expandAggregate henter hscope hname hargs'
  | binary b l r ihl ihr =>
      intro scope hscope hguarded
      have hparts := hguarded.imp_right made_binary.1
      refine (ihl scope hscope (hparts.imp_right fun h => h.2.1)).bind fun l' hl' => ?_
      refine (ihr scope hscope (hparts.imp_right fun h => h.2.2)).bind fun r' hr' => ?_
      exact gives_bind_any fun b' => gives_ok (allNodes_binary.2 ⟨trivial, hl', hr'⟩)
  | rollup inner range time ih iht =>
      intro scope hscope hguarded
      have hparts := hguarded.imp_right made_rollup.1
      refine (ih scope hscope (hparts.imp_right (·.1))).bind fun inner' hinner' => ?_
      refine gives_bind_any fun range' => ?_
      have htime := gives_expandOptionWith fun e he =>
        iht e he scope hscope (hparts.imp_right fun h => h.2.2 e he)
      exact htime.bind fun time' htime' => gives_ok (allNodes_rollup.2 ⟨trivial, hinner', htime'⟩)
  | tuple items ih =>
      intro scope hscope hguarded
      have hparts := hguarded.imp_right made_tuple.1
      have hitems := gives_expandListWith fun e he =>
        ih e he scope hscope (hparts.imp_right fun h => h e he)
      exact hitems.map fun items' hitems' => foreign_ofItems hitems'
  | withTemplates ts body _ ih =>
      intro scope hscope hguarded
      have hparts := hguarded.imp_right made_withTemplates.1
      have hts : scope.Covers ∨ ∀ t ∈ ts, t.body.Made Leaf.Foreign :=
        hparts.imp_right fun h t ht => (Template.made_iff.1 (h.1 t ht)).2.2
      -- Either the scope covers what is under the block as well, or that is foreign itself.
      exact ih _ ⟨hts, hscope⟩ (hparts.imp (·.cons _) (·.2))

theorem enterTemplate_foreign (depth : Nat) : Enter.Foreign (enterTemplate depth) := by
  induction depth with
  | zero => exact fun _ _ _ _ _ => gives_error _
  | succ depth ih =>
      exact fun _ scope body hscope hbody => foreign_expandWith ih body scope hscope hbody

theorem foreign_expandTemplates (e : Expr) : Gives Foreign e.expandTemplates :=
  foreign_expandWith (enterTemplate_foreign maxExpansionDepth) e builtinScope
    Scope.sheltered_builtinScope (.inl Scope.covers_builtinScope)

end

/-! ## Simplification -/

theorem Foreign.dropParens {e : Expr} (h : Foreign e) : Foreign e.dropParens := by
  induction e using Expr.inductionOn with
  | call name args keepNames ih =>
      have hparts := allNodes_call.1 h
      refine allNodes_call.2 ⟨hparts.1, ?_⟩
      rw [dropParensList_eq_map]
      exact List.forall_mem_map.2 fun e he => ih e he (hparts.2 e he)
  | aggregate a args ih =>
      have hparts := allNodes_aggregate.1 h
      refine allNodes_aggregate.2 ⟨hparts.1, ?_⟩
      rw [dropParensList_eq_map]
      exact List.forall_mem_map.2 fun e he => ih e he (hparts.2 e he)
  | binary b l r ihl ihr =>
      have hparts := allNodes_binary.1 h
      exact allNodes_binary.2 ⟨trivial, ihl hparts.2.1, ihr hparts.2.2⟩
  | rollup inner range time ih iht =>
      have hparts := allNodes_rollup.1 h
      refine allNodes_rollup.2 ⟨trivial, ih hparts.2.1, ?_⟩
      rw [dropParensOption_eq_map]
      exact Option.forall_mem_map.2 fun e he => iht e he (hparts.2.2 e he)
  | tuple items ih =>
      have hparts := allNodes_tuple.1 h
      have hitems : ∀ e ∈ items.map Expr.dropParens, Foreign e :=
        List.forall_mem_map.2 fun e he => ih e he (hparts.2 e he)
      simpa only [Expr.dropParens, dropParensList_eq_map] using foreign_ofItems hitems
  | _ => exact h

theorem foreign_foldBinary {b : BinaryOp} {l r : Expr} (hl : Foreign l) (hr : Foreign r) :
    Foreign (foldBinary b l r) := by
  rcases foldBinary_cases b l r with hsame | ⟨x, hnumber⟩ | ⟨value, hstring⟩
  · rw [hsame]
    exact allNodes_binary.2 ⟨trivial, hl, hr⟩
  · rw [hnumber]
    exact (allNodes_atom rfl).2 trivial
  · rw [hstring]
    exact (allNodes_atom rfl).2 trivial

theorem Foreign.foldConstants {e : Expr} (h : Foreign e) : Foreign e.foldConstants := by
  induction e using Expr.inductionOn with
  | call name args keepNames ih =>
      have hparts := allNodes_call.1 h
      refine allNodes_call.2 ⟨hparts.1, ?_⟩
      rw [foldConstantsList_eq_map]
      exact List.forall_mem_map.2 fun e he => ih e he (hparts.2 e he)
  | aggregate a args ih =>
      have hparts := allNodes_aggregate.1 h
      refine allNodes_aggregate.2 ⟨hparts.1, ?_⟩
      rw [foldConstantsList_eq_map]
      exact List.forall_mem_map.2 fun e he => ih e he (hparts.2 e he)
  | binary b l r ihl ihr =>
      have hparts := allNodes_binary.1 h
      exact foreign_foldBinary (ihl hparts.2.1) (ihr hparts.2.2)
  | rollup inner range time ih iht =>
      have hparts := allNodes_rollup.1 h
      refine allNodes_rollup.2 ⟨trivial, ih hparts.2.1, ?_⟩
      rw [foldConstantsOption_eq_map]
      exact Option.forall_mem_map.2 fun e he => iht e he (hparts.2.2 e he)
  | tuple items ih =>
      have hparts := allNodes_tuple.1 h
      simp only [Expr.foldConstants, foldConstantsList_eq_map]
      refine allNodes_tuple.2 ⟨trivial, ?_⟩
      exact List.forall_mem_map.2 fun e he => ih e he (hparts.2 e he)
  | _ => exact h

end Expr

/-! ## Queries -/

theorem foreign_normalize {e : Expr} (h : e.Foreign) : Gives Expr.Foreign (normalize e) := by
  unfold normalize
  split
  · exact gives_error _
  · exact gives_bind_any fun _ => gives_ok h.dropParens.foldConstants

/-- No call in what a query stands for is of a template of every query. -/
theorem foreign_parse (query : String) : Gives Expr.Foreign (parse query) :=
  gives_bind_any fun e => (Expr.foreign_expandTemplates e).bind fun _ h => foreign_normalize h

end SeriesQuery
