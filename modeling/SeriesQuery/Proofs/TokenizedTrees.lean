import SeriesQuery.Proofs.TokenizedReaders
import SeriesQuery.Proofs.WellFormed

/-!
# What a query stands for comes from tokens

Expansion makes up no labels: those of a selector are the ones that it was written with, those of
the filters of templates, or the label for the name of a metric.  Numbers, durations and aggregates
stay as they were read, and numbers that are computed have no text.  So the result of `parse` is
tokenized as what the grammar reads (`tokenized_parse`).
-/

namespace SeriesQuery

/-! ## Scopes -/

/-- The bodies of the templates and the arguments are tokenized. -/
def Frame.Tokenized : Frame → Prop
  | .templates ts => ∀ t ∈ ts, t.body.Tokenized
  | .arguments bound => ∀ b ∈ bound, b.2.Tokenized

/-- All frames are tokenized. -/
def Scope.Tokenized (scope : Scope) : Prop :=
  ∀ frame ∈ scope, frame.Tokenized

/-- The template and its scope, or the argument, is tokenized. -/
def Meaning.Tokenized : Meaning → Prop
  | .template t scope => t.body.Tokenized ∧ scope.Tokenized
  | .value e => e.Tokenized

theorem Scope.tokenized_cons {frame : Frame} {scope : Scope} :
    Scope.Tokenized (frame :: scope) ↔ frame.Tokenized ∧ scope.Tokenized :=
  List.forall_mem_cons

theorem Frame.Tokenized.lookup {frame : Frame} {outer : Scope} (hframe : frame.Tokenized)
    (houter : outer.Tokenized) {name : String} :
    ∀ meaning ∈ frame.lookup outer name, meaning.Tokenized := by
  intro meaning hmeaning
  cases frame with
  | templates ts =>
      rcases Option.map_eq_some_iff.1 hmeaning with ⟨t, ht, rfl⟩
      refine ⟨hframe t (List.mem_of_find?_eq_some ht), Scope.tokenized_cons.2 ⟨?_, houter⟩⟩
      -- A template sees those before it only.
      exact fun t' ht' => hframe t' ((List.takeWhile_sublist _).mem ht')
  | arguments bound =>
      rcases Option.map_eq_some_iff.1 hmeaning with ⟨b, hb, rfl⟩
      exact hframe b (List.mem_of_find?_eq_some hb)

theorem Scope.Tokenized.lookup {scope : Scope} (h : scope.Tokenized) {name : String} :
    ∀ meaning ∈ scope.lookup name, meaning.Tokenized := by
  induction scope with
  | nil =>
      intro meaning hmeaning
      cases hmeaning
  | cons frame outer ih =>
      have hparts := Scope.tokenized_cons.1 h
      intro meaning hmeaning
      simp only [Scope.lookup] at hmeaning
      split at hmeaning
      · rename_i hfound
        cases hmeaning
        exact hparts.1.lookup hparts.2 meaning hfound
      · exact ih hparts.2 meaning hmeaning

theorem Scope.Tokenized.plainMeaning {scope : Scope} (h : scope.Tokenized) {name : String} :
    ∀ meaning ∈ plainMeaning scope name, meaning.Tokenized :=
  fun meaning hmeaning => h.lookup meaning (Option.eq_some_of_filter_eq_some hmeaning)

theorem tokenized_bodyOf (text : String) : (bodyOf text).Tokenized := by
  unfold bodyOf
  split
  · rename_i e he
    exact Expr.tokenized_ofText text e he
  · exact .tuple (by simp)

-- The texts are not read here: any text gives a tokenized body.
theorem tokenized_builtinScope : builtinScope.Tokenized := by
  have hbody : ∀ {t : Template} {text : String}, t.body = bodyOf text → t.body.Tokenized := by
    intro t text ht
    rw [ht]
    exact tokenized_bodyOf text
  refine Scope.tokenized_cons.2 ⟨?_, fun frame hframe => by cases hframe⟩
  intro t ht
  simp only [builtinTemplates, List.mem_cons, List.not_mem_nil, or_false] at ht
  rcases ht with ht | ht
  · exact hbody (ht ▸ body_mk _ _ _)
  · exact hbody (ht ▸ body_mk _ _ _)

/-! ## References -/

theorem Selector.labelled_ofName (name : String) : (Selector.ofName name).Labelled := by
  intro g hg f hf
  rcases List.mem_singleton.1 hg with rfl
  rcases List.mem_singleton.1 hf with rfl
  exact isLegible_nameLabel

theorem Expr.tokenized_selector {s : Selector} : Tokenized (.selector s) ↔ s.Labelled := by
  constructor
  · intro h
    cases h
    assumption
  · exact .selector

theorem Expr.tokenized_ofItems {items : List Expr} (h : ∀ e ∈ items, Tokenized e) :
    Tokenized (ofItems items) := by
  unfold ofItems
  split
  · exact h _ List.mem_cons_self
  · exact .tuple h

/-- Bodies of templates expand to tokenized trees. -/
def Enter.Tokenized (enter : Enter) : Prop :=
  ∀ name scope body, Scope.Tokenized scope → body.Tokenized →
    Gives Expr.Tokenized (enter name scope body)

section

variable {enter : Enter} (henter : enter.Tokenized)
include henter

theorem tokenized_instantiate {t : Template} {scope : Scope} {args : List Expr}
    (ht : t.body.Tokenized) (hscope : scope.Tokenized) (hargs : ∀ e ∈ args, e.Tokenized) :
    Gives Expr.Tokenized (instantiate enter t scope args) :=
  gives_instantiate_of (henter t.name scope t.body hscope ht) fun _ hbound =>
    henter t.name _ t.body
      (Scope.tokenized_cons.2 ⟨fun b hb => hargs b.2 (hbound b hb), hscope⟩) ht

theorem Meaning.Tokenized.givesOf {meaning : Meaning} (h : meaning.Tokenized) :
    meaning.GivesOf Expr.Tokenized enter := by
  cases meaning with
  | value e => exact h
  | template t scope => exact fun args hargs => tokenized_instantiate henter h.1 h.2 hargs

theorem tokenized_refer {meaning : Meaning} (h : meaning.Tokenized) :
    Gives Expr.Tokenized (refer enter meaning) :=
  (h.givesOf henter).refer fun name => .selector (Selector.labelled_ofName name)

theorem tokenized_callMeaning {name : String} {args : List Expr} {meaning : Meaning}
    (hargs : ∀ e ∈ args, e.Tokenized) (h : meaning.Tokenized) :
    Gives Expr.Tokenized (callMeaning enter name args meaning) :=
  (h.givesOf henter).call hargs

end

/-! ## Selectors -/

theorem tokenized_filtersOf {name : String} {e : Expr} (h : e.Tokenized) :
    Gives (fun filters => ∀ f ∈ filters, IsLegible f.label) (filtersOf name e) := by
  unfold filtersOf
  split
  · split
    · exact gives_error _
    · split
      · exact gives_error _
      · exact gives_ok (forall_mem_head (Expr.tokenized_selector.1 h))
  · exact gives_error _

theorem tokenized_addFilters {name : String} {more : List (List LabelFilter)} {value : Expr}
    (hmore : ∀ g ∈ more, ∀ f ∈ g, IsLegible f.label) (hvalue : value.Tokenized) :
    Gives Expr.Tokenized (addFilters name more value) := by
  unfold addFilters
  split
  · exact gives_ok hvalue
  · split
    · exact (gives_mergeGroups (Expr.tokenized_selector.1 hvalue) hmore).map fun _ hs => .selector hs
    · cases hvalue with
      | rollup _ hinner htime =>
          refine (gives_mergeGroups (Expr.tokenized_selector.1 hinner) hmore).map fun _ hs => ?_
          exact .rollup _ (.selector hs) htime
    · exact gives_error _

section

variable {enter : Enter} {scope : Scope} (henter : enter.Tokenized) (hscope : scope.Tokenized)
include henter hscope

theorem tokenized_expandSplice (name : String) :
    Gives (fun filters => ∀ f ∈ filters, IsLegible f.label) (expandSplice enter scope name) := by
  unfold expandSplice
  split
  · exact gives_error _
  · rename_i meaning hmeaning
    have htokenized := hscope.lookup meaning hmeaning
    exact (tokenized_refer henter htokenized).bind fun e he => tokenized_filtersOf he

theorem tokenized_expandFilter {f : FilterExpr} (h : IsLegible f.label) :
    Gives (fun filters => ∀ f' ∈ filters, IsLegible f'.label) (expandFilter enter scope f) := by
  unfold expandFilter
  split
  · exact tokenized_expandSplice henter hscope f.label
  · refine gives_bind_any fun value => ?_
    split
    · rename_i filter hfilter
      have hlabel : filter.label = f.label := gives_label_check _ filter hfilter
      exact gives_ok (by simpa [hlabel] using h)
    · exact gives_error _

theorem tokenized_expandGroup {fs : List FilterExpr} (h : ∀ f ∈ fs, IsLegible f.label) :
    Gives (fun filters => ∀ f ∈ filters, IsLegible f.label) (expandGroup enter scope fs) := by
  induction fs with
  | nil => exact gives_ok (by simp)
  | cons f fs ih =>
      have hparts := List.forall_mem_cons.1 h
      refine (tokenized_expandFilter henter hscope hparts.1).bind fun here hhere => ?_
      refine (ih hparts.2).bind fun there hthere => gives_ok ?_
      exact List.forall_mem_append.2 ⟨hhere, hthere⟩

theorem tokenized_expandGroups (unique : Bool) {gs : List (List FilterExpr)}
    (h : ∀ g ∈ gs, ∀ f ∈ g, IsLegible f.label) :
    Gives (fun groups => ∀ g ∈ groups, ∀ f ∈ g, IsLegible f.label)
      (expandGroups enter scope unique gs) := by
  induction gs with
  | nil => exact gives_ok (by simp)
  | cons g gs ih =>
      have hparts := List.forall_mem_cons.1 h
      refine (tokenized_expandGroup henter hscope hparts.1).bind fun here hhere => ?_
      refine (ih hparts.2).bind fun there hthere => gives_ok (List.forall_mem_cons.2 ⟨?_, hthere⟩)
      intro f hf
      split at hf
      · exact hhere f (List.mem_eraseDups.1 hf)
      · exact hhere f hf

theorem tokenized_expandName {s : Selector} (h : s.Labelled) :
    Gives Expr.Tokenized (expandName enter scope s) := by
  unfold expandName
  split
  · exact gives_ok (.selector h)
  · split
    · exact gives_ok (.selector h)
    · rename_i meaning hmeaning
      have htokenized := hscope.plainMeaning meaning hmeaning
      exact (tokenized_refer henter htokenized).bind fun e he =>
        tokenized_addFilters (forall_mem_filtersBesides h) he

theorem tokenized_expandSelector {s : SelectorExpr} (h : s.Labelled) :
    Gives Expr.Tokenized (expandSelector enter scope s) :=
  (tokenized_expandGroups henter hscope _ h).bind fun _ hgroups =>
    tokenized_expandName henter hscope hgroups

/-! ## Nodes -/

theorem tokenized_expandCall {name : String} {args : List Expr} {keepNames : Bool}
    (hargs : ∀ e ∈ args, e.Tokenized) :
    Gives Expr.Tokenized (expandCall enter scope name args keepNames) := by
  unfold expandCall
  split
  · exact gives_ok (.call name keepNames hargs)
  · rename_i meaning hmeaning
    have htokenized := hscope.lookup meaning hmeaning
    refine (tokenized_callMeaning henter hargs htokenized).bind fun e he => gives_ok ?_
    split
    · cases hmark : e.markKeepNames with
      | none => exact he
      | some e' => exact he.markKeepNames e' hmark
    · exact he

theorem tokenized_expandAggregate {a : Aggregation} {args : List Expr}
    (hname : Text.lower a.name = a.name) (hlimit : a.limit < 2 ^ 64)
    (hargs : ∀ e ∈ args, e.Tokenized) :
    Gives Expr.Tokenized (expandAggregate enter scope a args) := by
  unfold expandAggregate
  split
  · rename_i meaning hmeaning
    exact tokenized_callMeaning henter hargs (hscope.lookup meaning hmeaning)
  · split
    · exact gives_ok (.aggregate hname hlimit hargs)
    · exact gives_bind_any fun labels => gives_ok (.aggregate hname hlimit hargs)

end

/-! ## Trees -/

namespace Expr

section

variable {enter : Enter}

/-- What a tokenized expression expands to is tokenized. -/
theorem tokenized_expandWith (henter : enter.Tokenized) {e : Expr} (h : e.Tokenized) :
    ∀ scope, Scope.Tokenized scope → Gives Tokenized (expandWith enter scope e) := by
  -- As for expanded trees, the induction is for any scope with tokenized templates.
  induction h with
  | number htext => exact fun _ _ => gives_ok (.number htext)
  | duration hpositive => exact fun _ _ => gives_ok (.duration hpositive)
  | string value => exact fun _ _ => gives_ok (.string value)
  | concat s => exact fun _ _ => (gives_true _).map fun value _ => .string value
  | selector hs => exact fun scope hscope => tokenized_expandName henter hscope hs
  | selectorExpr hs => exact fun scope hscope => tokenized_expandSelector henter hscope hs
  | call name keepNames _ ih =>
      intro scope hscope
      have hargs := gives_expandListWith fun e he => ih e he scope hscope
      exact hargs.bind fun args' hargs' => tokenized_expandCall henter hscope hargs'
  | aggregate hname hlimit _ ih =>
      intro scope hscope
      have hargs := gives_expandListWith fun e he => ih e he scope hscope
      exact hargs.bind fun args' hargs' =>
        tokenized_expandAggregate henter hscope hname hlimit hargs'
  | binary b _ _ ihl ihr =>
      intro scope hscope
      refine (ihl scope hscope).bind fun l' hl' => (ihr scope hscope).bind fun r' hr' => ?_
      exact gives_bind_any fun b' => gives_ok (.binary b' hl' hr')
  | rollup range _ _ ih iht =>
      intro scope hscope
      refine (ih scope hscope).bind fun inner' hinner' => gives_bind_any fun range' => ?_
      have htime := gives_expandOptionWith fun e he => iht e he scope hscope
      exact htime.bind fun time' htime' => gives_ok (.rollup range' hinner' htime')
  | tuple _ ih =>
      intro scope hscope
      have hitems := gives_expandListWith fun e he => ih e he scope hscope
      exact hitems.map fun items' hitems' => tokenized_ofItems hitems'
  | withTemplates hts _ _ ih =>
      intro scope hscope
      exact ih _ (Scope.tokenized_cons.2 ⟨hts, hscope⟩)

theorem tokenized_enterTemplate (depth : Nat) : Enter.Tokenized (enterTemplate depth) := by
  induction depth with
  | zero => exact fun _ _ _ _ _ => gives_error _
  | succ depth ih =>
      exact fun _ scope body hscope hbody => tokenized_expandWith ih hbody scope hscope

theorem tokenized_expandTemplates {e : Expr} (h : e.Tokenized) : Gives Tokenized e.expandTemplates :=
  tokenized_expandWith (tokenized_enterTemplate maxExpansionDepth) h builtinScope
    tokenized_builtinScope

end

/-! ## Simplification -/

theorem Tokenized.dropParens {e : Expr} (h : e.Tokenized) : e.dropParens.Tokenized := by
  induction h with
  | call name keepNames _ ih =>
      rw [Expr.dropParens, dropParensList_eq_map]
      exact .call name keepNames (List.forall_mem_map.2 ih)
  | aggregate hname hlimit _ ih =>
      rw [Expr.dropParens, dropParensList_eq_map]
      exact .aggregate hname hlimit (List.forall_mem_map.2 ih)
  | binary b _ _ ihl ihr => exact .binary b ihl ihr
  | rollup range _ _ ih iht =>
      rw [Expr.dropParens, dropParensOption_eq_map]
      exact .rollup range ih (Option.forall_mem_map.2 iht)
  | tuple _ ih =>
      rw [Expr.dropParens, dropParensList_eq_map]
      exact tokenized_ofItems (List.forall_mem_map.2 ih)
  | number htext => exact .number htext
  | duration hpositive => exact .duration hpositive
  | string value => exact .string value
  | concat s => exact .concat s
  | selector hs => exact .selector hs
  | selectorExpr hs => exact .selectorExpr hs
  | withTemplates hts hbody => exact .withTemplates hts hbody

theorem tokenized_foldBinary {b : BinaryOp} {l r : Expr} (hl : l.Tokenized) (hr : r.Tokenized) :
    (foldBinary b l r).Tokenized := by
  rcases foldBinary_cases b l r with hsame | ⟨x, hnumber⟩ | ⟨value, hstring⟩
  · rw [hsame]
    exact .binary b hl hr
  · rw [hnumber]
    exact tokenized_ofFloat x
  · rw [hstring]
    exact .string value

theorem Tokenized.foldConstants {e : Expr} (h : e.Tokenized) : e.foldConstants.Tokenized := by
  induction h with
  | call name keepNames _ ih =>
      rw [Expr.foldConstants, foldConstantsList_eq_map]
      exact .call name keepNames (List.forall_mem_map.2 ih)
  | aggregate hname hlimit _ ih =>
      rw [Expr.foldConstants, foldConstantsList_eq_map]
      exact .aggregate hname hlimit (List.forall_mem_map.2 ih)
  | binary b _ _ ihl ihr => exact tokenized_foldBinary ihl ihr
  | rollup range _ _ ih iht =>
      rw [Expr.foldConstants, foldConstantsOption_eq_map]
      exact .rollup range ih (Option.forall_mem_map.2 iht)
  | tuple _ ih =>
      rw [Expr.foldConstants, foldConstantsList_eq_map]
      exact .tuple (List.forall_mem_map.2 ih)
  | number htext => exact .number htext
  | duration hpositive => exact .duration hpositive
  | string value => exact .string value
  | concat s => exact .concat s
  | selector hs => exact .selector hs
  | selectorExpr hs => exact .selectorExpr hs
  | withTemplates hts hbody => exact .withTemplates hts hbody

/-- All nodes of a tokenized tree are tokenized. -/
theorem Tokenized.within {e n : Expr} (h : e.Tokenized) (hn : Within n e) : n.Tokenized := by
  induction hn with
  | refl => exact h
  | call he _ ih =>
      cases h with
      | call _ _ hargs => exact ih (hargs _ he)
  | aggregate he _ ih =>
      cases h with
      | aggregate _ _ hargs => exact ih (hargs _ he)
  | left _ ih =>
      cases h with
      | binary _ hl _ => exact ih hl
  | right _ ih =>
      cases h with
      | binary _ _ hr => exact ih hr
  | inner _ ih =>
      cases h with
      | rollup _ hinner _ => exact ih hinner
  | time he _ ih =>
      cases h with
      | rollup _ _ htime => exact ih (htime _ he)
  | tuple he _ ih =>
      cases h with
      | tuple hitems => exact ih (hitems _ he)

end Expr

/-! ## Queries -/

theorem tokenized_normalize {e : Expr} (h : e.Tokenized) : Gives Expr.Tokenized (normalize e) := by
  unfold normalize
  split
  · exact gives_error _
  · exact gives_bind_any fun _ => gives_ok h.dropParens.foldConstants

/-- What a query stands for is tokenized. -/
theorem tokenized_parse (query : String) : Gives Expr.Tokenized (parse query) :=
  (Expr.tokenized_ofText query).bind fun _ hwritten =>
    (Expr.tokenized_expandTemplates hwritten).bind fun _ hexpanded => tokenized_normalize hexpanded

end SeriesQuery
