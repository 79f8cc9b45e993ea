import SeriesQuery.Proofs.Filters
import SeriesQuery.Proofs.Tree
import SeriesQuery.Proofs.Written
import SeriesQuery.Template.Expand

/-!
# What expansion gives

`Expr.IsExpanded` says what holds of each node when all templates are expanded: nothing refers to a
template any more, and what was put in for the references is of the right kind.

Bodies of templates are `Written`, and arguments are expanded before they are bound to their
parameters.  That is `Scope.Sound`, and with it each function of `Template.Expand` is taken once.
-/

namespace SeriesQuery

/-! ## Expanded trees -/

/-- The modifiers are those that the operator may have, without references and repetitions. -/
structure BinaryOp.WellFormed (b : BinaryOp) : Prop where
  asBool : b.asBool → b.op.isComparison
  matching : ∀ m ∈ b.matching, m.labels.Nodup
  join : ∀ j ∈ b.join, b.matching.isSome ∧ b.op.isSetOperator = false ∧ j.labels.Nodup
  joinLead : ∀ lead ∈ b.joinLead, b.join.isSome ∧ ∃ value, lead.segments = [.literal value]

namespace BinaryOp

theorem wellFormed_plain (op : Operator) : (plain op).WellFormed := by
  constructor <;> simp [plain]

namespace WellFormed

variable {b : BinaryOp} (h : b.WellFormed)
include h

theorem withKeepNames (keepNames : Bool) : { b with keepNames }.WellFormed where
  asBool := h.asBool
  matching := h.matching
  join := h.join
  joinLead := h.joinLead

theorem asBool_eq_false (hop : b.op.isComparison = false) : b.asBool = false := by
  rw [Bool.eq_false_iff]
  intro hasBool
  rw [h.asBool hasBool] at hop
  cases hop

theorem join_eq_none (hmatching : b.matching = none) : b.join = none := by
  rw [Option.eq_none_iff_forall_not_mem]
  intro j hj
  have hsome := (h.join j hj).1
  rw [hmatching] at hsome
  cases hsome

theorem joinLead_eq_none (hjoin : b.join = none) : b.joinLead = none := by
  rw [Option.eq_none_iff_forall_not_mem]
  intro lead hlead
  have hsome := (h.joinLead lead hlead).1
  rw [hjoin] at hsome
  cases hsome

end WellFormed
end BinaryOp

/-- The duration, if there is one, is not the name of a template. -/
def Duration.Resolved (d : Option Duration) : Prop :=
  ∀ d' ∈ d, d'.isTemplate = false

/-- No duration of the range is the name of a template. -/
structure Range.Resolved (r : Range) : Prop where
  window : Duration.Resolved r.window
  step : Duration.Resolved r.step
  offset : Duration.Resolved r.offset

namespace Expr

/-- The node refers to no template. -/
def IsExpanded : Expr → Prop
  | number _ | string _ | tuple _ => True
  | concat _ | selectorExpr _ | withTemplates .. => False
  | duration d => d.isTemplate = false
  | selector s => s.Valid
  | call name _ _ => isAggregateName name = false
  | aggregate a _ => isAggregateName a.name ∧ ∀ g ∈ a.grouping, g.labels.Nodup
  | binary b _ _ => b.WellFormed
  | rollup _ range _ => range.Resolved

/-- No node refers to a template. -/
abbrev Expanded : Expr → Prop :=
  AllNodes IsExpanded

theorem expanded_selector {s : Selector} : Expanded (.selector s) ↔ s.Valid :=
  allNodes_atom rfl

theorem expanded_ofItems {items : List Expr} (h : ∀ e ∈ items, Expanded e) :
    Expanded (ofItems items) := by
  unfold ofItems
  split
  · exact h _ List.mem_cons_self
  · exact allNodes_tuple.2 ⟨trivial, h⟩

theorem Expanded.markKeepNames {e : Expr} (h : Expanded e) : ∀ e' ∈ e.markKeepNames, Expanded e' := by
  intro e' he'
  cases e with
  | call name args keepNames =>
      cases he'
      have hparts := allNodes_call.1 h
      exact allNodes_call.2 ⟨hparts.1, hparts.2⟩
  | binary b l r =>
      cases he'
      have hparts := allNodes_binary.1 h
      exact allNodes_binary.2 ⟨hparts.1.withKeepNames true, hparts.2⟩
  | _ => cases he'

end Expr

/-! ## Scopes -/

/-- Templates are as they were read, and arguments are expanded. -/
def Frame.Sound : Frame → Prop
  | .templates ts => ∀ t ∈ ts, t.body.Written
  | .arguments bound => ∀ b ∈ bound, b.2.Expanded

/-- All frames are sound. -/
def Scope.Sound (scope : Scope) : Prop :=
  ∀ frame ∈ scope, frame.Sound

/-- The template can be expanded in its scope, or the argument is expanded. -/
def Meaning.Sound : Meaning → Prop
  | .template t scope => t.body.Written ∧ scope.Sound
  | .value e => e.Expanded

theorem Scope.sound_cons {frame : Frame} {scope : Scope} (hframe : frame.Sound)
    (hscope : scope.Sound) : Scope.Sound (frame :: scope) :=
  List.forall_mem_cons.2 ⟨hframe, hscope⟩

theorem Frame.lookup_sound {frame : Frame} {outer : Scope} (hframe : frame.Sound)
    (houter : outer.Sound) (name : String) : ∀ meaning ∈ frame.lookup outer name, meaning.Sound := by
  intro meaning hmeaning
  cases frame with
  | templates ts =>
      rcases Option.map_eq_some_iff.1 hmeaning with ⟨t, ht, rfl⟩
      refine ⟨hframe t (List.mem_of_find?_eq_some ht), Scope.sound_cons ?_ houter⟩
      -- A template sees those before it only.
      intro t' ht'
      exact hframe t' ((List.takeWhile_sublist _).mem ht')
  | arguments bound =>
      rcases Option.map_eq_some_iff.1 hmeaning with ⟨b, hb, rfl⟩
      exact hframe b (List.mem_of_find?_eq_some hb)

theorem Scope.lookup_sound {scope : Scope} (h : scope.Sound) (name : String) :
    ∀ meaning ∈ scope.lookup name, meaning.Sound := by
  induction scope with
  | nil =>
      intro meaning hmeaning
      cases hmeaning
  | cons frame outer ih =>
      have hparts := List.forall_mem_cons.1 h
      intro meaning hmeaning
      simp only [Scope.lookup] at hmeaning
      split at hmeaning
      · rename_i hfound
        cases hmeaning
        exact Frame.lookup_sound hparts.1 hparts.2 name meaning hfound
      · exact ih hparts.2 meaning hmeaning

theorem plainMeaning_sound {scope : Scope} (h : scope.Sound) {name : String} :
    ∀ meaning ∈ plainMeaning scope name, meaning.Sound := by
  intro meaning hmeaning
  exact Scope.lookup_sound h name meaning (Option.eq_some_of_filter_eq_some hmeaning)

theorem written_bodyOf (text : String) : (bodyOf text).Written := by
  unfold bodyOf
  split
  · rename_i e he
    exact Expr.gives_ofText text e he
  · exact .tuple (by simp)

theorem written_template {t : Template} {text : String} (h : t.body = bodyOf text) :
    t.body.Written := by
  rw [h]
  exact written_bodyOf text

theorem body_mk (name : String) (params : List String) (body : Expr) :
    (Template.mk name params body).body = body :=
  rfl

-- The texts are not read here: any text gives a body that is as it was written.
theorem written_builtinTemplates : ∀ t ∈ builtinTemplates, t.body.Written := by
  intro t ht
  simp only [builtinTemplates, List.mem_cons, List.not_mem_nil, or_false] at ht
  rcases ht with ht | ht
  · exact written_template (ht ▸ body_mk _ _ _)
  · exact written_template (ht ▸ body_mk _ _ _)

theorem builtinScope_sound : builtinScope.Sound := by
  unfold builtinScope
  refine Scope.sound_cons written_builtinTemplates ?_
  intro frame hframe
  cases hframe

/-! ## References -/

section

variable {P : Expr → Prop} {enter : Enter}

/-- The argument has the property, or the template gives trees that have it, where its arguments
have it. -/
def Meaning.GivesOf (P : Expr → Prop) (enter : Enter) : Meaning → Prop
  | .template t scope => ∀ args, (∀ e ∈ args, P e) → Gives P (instantiate enter t scope args)
  | .value e => P e

/-- A template is expanded in its scope, with a frame for its arguments if it has any. -/
theorem gives_instantiate_of {t : Template} {scope : Scope} {args : List Expr}
    (hplain : Gives P (enter t.name scope t.body))
    (hbound : ∀ bound : List (String × Expr), (∀ b ∈ bound, b.2 ∈ args) →
      Gives P (enter t.name (.arguments bound :: scope) t.body)) :
    Gives P (instantiate enter t scope args) := by
  unfold instantiate
  split
  · exact gives_error _
  · split
    · exact hplain
    · exact hbound _ fun b hb => (List.of_mem_zip hb).2

theorem Meaning.GivesOf.refer {meaning : Meaning} (h : meaning.GivesOf P enter)
    (hmetric : ∀ name, P (.selector (.ofName name))) : Gives P (refer enter meaning) := by
  cases meaning with
  | value e => exact gives_ok h
  | template t scope =>
      simp only [SeriesQuery.refer]
      split
      · exact h [] (by simp)
      · exact gives_ok (hmetric t.name)

theorem Meaning.GivesOf.call {meaning : Meaning} (h : meaning.GivesOf P enter) {name : String}
    {args : List Expr} (hargs : ∀ e ∈ args, P e) : Gives P (callMeaning enter name args meaning) := by
  cases meaning with
  | value e =>
      simp only [callMeaning]
      split
      · exact gives_ok h
      · exact gives_error _
  | template t scope => exact h args hargs

end

theorem LabelFilter.isValid_equal (label value : String) : (LabelFilter.equal label value).isValid := by
  simp [LabelFilter.isValid, LabelFilter.equal, FilterOp.isPattern]

theorem Selector.valid_ofName (name : String) : (Selector.ofName name).Valid := by
  intro g hg f hf
  rcases List.mem_singleton.1 hg with rfl
  rcases List.mem_singleton.1 hf with rfl
  exact LabelFilter.isValid_equal _ _

/-- Bodies of templates are expanded in sound scopes. -/
def Enter.Sound (enter : Enter) : Prop :=
  ∀ name scope body, Scope.Sound scope → body.Written → Gives Expr.Expanded (enter name scope body)

section

variable {enter : Enter} {scope : Scope} (henter : Enter.Sound enter)
include henter

theorem gives_instantiate {t : Template} {args : List Expr} (ht : t.body.Written)
    (hscope : scope.Sound) (hargs : ∀ e ∈ args, e.Expanded) :
    Gives Expr.Expanded (instantiate enter t scope args) :=
  gives_instantiate_of (henter t.name scope t.body hscope ht) fun _ hbound =>
    henter t.name _ t.body (Scope.sound_cons (fun b hb => hargs b.2 (hbound b hb)) hscope) ht

theorem Meaning.Sound.givesOf {meaning : Meaning} (h : meaning.Sound) :
    meaning.GivesOf Expr.Expanded enter := by
  cases meaning with
  | value e => exact h
  | template t scope => exact fun args hargs => gives_instantiate henter h.1 h.2 hargs

theorem gives_refer {meaning : Meaning} (h : meaning.Sound) :
    Gives Expr.Expanded (refer enter meaning) :=
  (h.givesOf henter).refer fun name => Expr.expanded_selector.2 (Selector.valid_ofName name)

theorem gives_callMeaning {name : String} {args : List Expr} {meaning : Meaning}
    (hargs : ∀ e ∈ args, e.Expanded) (h : meaning.Sound) :
    Gives Expr.Expanded (callMeaning enter name args meaning) :=
  (h.givesOf henter).call hargs

end

/-! ## Durations -/

theorem gives_durationOf {name : String} {e : Expr} (h : e.Expanded) :
    Gives (fun d => d.isTemplate = false) (durationOf name e) := by
  unfold durationOf
  split
  · exact gives_ok h.self
  · exact gives_ok rfl
  · exact gives_error _

section

variable {enter : Enter} {scope : Scope} (henter : Enter.Sound enter) (hscope : scope.Sound)
include henter hscope

theorem gives_expandDuration (d : Duration) :
    Gives (fun d' => d'.isTemplate = false) (expandDuration enter scope d) := by
  unfold expandDuration
  split
  · rename_i hplain
    refine gives_ok ?_
    simpa [Duration.templateName?] using hplain
  · split
    · exact gives_error _
    · rename_i meaning hmeaning
      have hsound := Scope.lookup_sound hscope _ meaning hmeaning
      exact (gives_refer henter hsound).bind fun e he => gives_durationOf he

theorem gives_expandDuration? (d : Option Duration) :
    Gives Duration.Resolved (expandDuration? enter scope d) := by
  cases d with
  | none => exact gives_ok (by simp [Duration.Resolved])
  | some d =>
      refine (gives_expandDuration henter hscope d).map fun d' hd' => ?_
      simpa [Duration.Resolved] using hd'

theorem gives_expandRange (r : Range) : Gives Range.Resolved (expandRange enter scope r) := by
  refine (gives_expandDuration? henter hscope r.window).bind fun window hwindow => ?_
  refine (gives_expandDuration? henter hscope r.step).bind fun step hstep => ?_
  refine (gives_expandDuration? henter hscope r.offset).bind fun offset hoffset => ?_
  exact gives_ok ⟨hwindow, hstep, hoffset⟩

end

/-! ## Filters -/

theorem forall_mem_head {P : LabelFilter → Prop} {groups : List (List LabelFilter)}
    (h : ∀ g ∈ groups, ∀ f ∈ g, P f) : ∀ f ∈ groups.head?.getD [], P f := by
  cases groups with
  | nil => simp
  | cons g gs => exact h g List.mem_cons_self

theorem gives_filtersOf {name : String} {e : Expr} (h : e.Expanded) :
    Gives (fun filters => ∀ f ∈ filters, f.isValid) (filtersOf name e) := by
  unfold filtersOf
  split
  · rename_i s
    split
    · exact gives_error _
    · split
      · exact gives_error _
      · exact gives_ok (forall_mem_head (Expr.expanded_selector.1 h))
  · exact gives_error _

section

variable {enter : Enter} {scope : Scope} (henter : Enter.Sound enter) (hscope : scope.Sound)
include henter hscope

theorem gives_expandSplice (name : String) :
    Gives (fun filters => ∀ f ∈ filters, f.isValid) (expandSplice enter scope name) := by
  unfold expandSplice
  split
  · exact gives_error _
  · rename_i meaning hmeaning
    have hsound := Scope.lookup_sound hscope _ meaning hmeaning
    exact (gives_refer henter hsound).bind fun e he => gives_filtersOf he

theorem gives_expandFilter (f : FilterExpr) :
    Gives (fun filters => ∀ f' ∈ filters, f'.isValid) (expandFilter enter scope f) := by
  unfold expandFilter
  split
  · exact gives_expandSplice henter hscope f.label
  · refine gives_bind_any fun value => ?_
    split
    · rename_i filter hfilter
      have hvalid := gives_ofParts? f.op f.label value filter hfilter
      exact gives_ok (by simpa using hvalid)
    · exact gives_error _

theorem gives_expandGroup (fs : List FilterExpr) :
    Gives (fun filters => ∀ f ∈ filters, f.isValid) (expandGroup enter scope fs) := by
  induction fs with
  | nil => exact gives_ok (by simp)
  | cons f fs ih =>
      refine (gives_expandFilter henter hscope f).bind fun here hhere => ?_
      refine ih.bind fun there hthere => gives_ok ?_
      exact List.forall_mem_append.2 ⟨hhere, hthere⟩

theorem gives_expandGroups (unique : Bool) (gs : List (List FilterExpr)) :
    Gives (fun groups => ∀ g ∈ groups, ∀ f ∈ g, f.isValid)
      (expandGroups enter scope unique gs) := by
  induction gs with
  | nil => exact gives_ok (by simp)
  | cons g gs ih =>
      refine (gives_expandGroup henter hscope g).bind fun here hhere => ?_
      refine ih.bind fun there hthere => gives_ok (List.forall_mem_cons.2 ⟨?_, hthere⟩)
      intro f hf
      split at hf
      · exact hhere f (List.mem_eraseDups.1 hf)
      · exact hhere f hf

end

/-! ## Selectors -/

section

variable {P : LabelFilter → Prop} {name : String} {s : Selector} {more : List (List LabelFilter)}

theorem forall_mem_filtersBesides (h : ∀ g ∈ s.groups, ∀ f ∈ g, P f) :
    ∀ g ∈ filtersBesides name s, ∀ f ∈ g, P f := by
  intro g hg f hf
  rcases List.mem_map.1 hg with ⟨g', hg', rfl⟩
  exact h g' hg' f (List.mem_filter.1 hf).1

/-- What holds of all filters of the template and of the further ones holds where they are merged. -/
theorem gives_mergeGroups (hs : ∀ g ∈ s.groups, ∀ f ∈ g, P f) (hmore : ∀ g ∈ more, ∀ f ∈ g, P f) :
    Gives (fun s' : Selector => ∀ g ∈ s'.groups, ∀ f ∈ g, P f) (mergeGroups name s more) := by
  unfold mergeGroups
  split
  · exact gives_error _
  · refine gives_ok ?_
    intro g hg f hf
    rcases List.mem_flatMap.1 hg with ⟨g', hg', hg⟩
    rcases List.mem_map.1 hg with ⟨h, hh, rfl⟩
    rcases List.mem_append.1 (List.mem_eraseDups.1 hf) with hf | hf
    · split at hg'
      · rcases List.mem_singleton.1 hg' with rfl
        cases hf
      · exact hs g' hg' f hf
    · exact hmore h hh f hf

end

theorem gives_addFilters {name : String} {more : List (List LabelFilter)} {value : Expr}
    (hmore : ∀ g ∈ more, ∀ f ∈ g, f.isValid) (hvalue : value.Expanded) :
    Gives Expr.Expanded (addFilters name more value) := by
  unfold addFilters
  split
  · exact gives_ok hvalue
  · split
    · rename_i s
      have hs := Expr.expanded_selector.1 hvalue
      exact (gives_mergeGroups hs hmore).map fun s hs => Expr.expanded_selector.2 hs
    · rename_i s range time
      have hparts := Expr.allNodes_rollup.1 hvalue
      have hs := Expr.expanded_selector.1 hparts.2.1
      refine (gives_mergeGroups hs hmore).map fun s hs => ?_
      exact Expr.allNodes_rollup.2 ⟨hparts.1, Expr.expanded_selector.2 hs, hparts.2.2⟩
    · exact gives_error _

section

variable {enter : Enter} {scope : Scope} (henter : Enter.Sound enter) (hscope : scope.Sound)
include henter hscope

theorem gives_expandName {s : Selector} (h : s.Valid) :
    Gives Expr.Expanded (expandName enter scope s) := by
  unfold expandName
  split
  · exact gives_ok (Expr.expanded_selector.2 h)
  · split
    · exact gives_ok (Expr.expanded_selector.2 h)
    · rename_i meaning hmeaning
      have hsound := plainMeaning_sound hscope meaning hmeaning
      exact (gives_refer henter hsound).bind fun e he =>
        gives_addFilters (forall_mem_filtersBesides h) he

theorem gives_expandSelector (s : SelectorExpr) :
    Gives Expr.Expanded (expandSelector enter scope s) :=
  (gives_expandGroups henter hscope _ s.groups).bind fun _ hgroups =>
    gives_expandName henter hscope hgroups

end

/-! ## Labels -/

/-- Labels that are expanded are listed once. -/
theorem gives_expandLabels (enter : Enter) (scope : Scope) (labels : List String) :
    Gives List.Nodup (expandLabels enter scope labels) :=
  (gives_true _).map fun labels _ => nodup_eraseDups labels

/-! ## Nodes -/

section

variable {enter : Enter} {scope : Scope} (henter : Enter.Sound enter) (hscope : scope.Sound)
include henter hscope

theorem gives_expandCall {name : String} {args : List Expr} {keepNames : Bool}
    (hname : isAggregateName name = false) (hargs : ∀ e ∈ args, e.Expanded) :
    Gives Expr.Expanded (expandCall enter scope name args keepNames) := by
  unfold expandCall
  split
  · exact gives_ok (Expr.allNodes_call.2 ⟨hname, hargs⟩)
  · rename_i meaning hmeaning
    have hsound := Scope.lookup_sound hscope _ meaning hmeaning
    refine (gives_callMeaning henter hargs hsound).bind fun e he => gives_ok ?_
    split
    · cases hmark : e.markKeepNames with
      | none => exact he
      | some e' => exact he.markKeepNames e' hmark
    · exact he

theorem gives_expandAggregate {a : Aggregation} {args : List Expr} (hname : isAggregateName a.name)
    (hargs : ∀ e ∈ args, e.Expanded) :
    Gives Expr.Expanded (expandAggregate enter scope a args) := by
  unfold expandAggregate
  split
  · rename_i meaning hmeaning
    have hsound := Scope.lookup_sound hscope _ meaning hmeaning
    exact gives_callMeaning henter hargs hsound
  · split
    · rename_i hgrouping
      exact gives_ok (Expr.allNodes_aggregate.2 ⟨⟨hname, by simp [hgrouping]⟩, hargs⟩)
    · rename_i grouping hgrouping
      refine (gives_expandLabels enter scope grouping.labels).bind fun labels hlabels => ?_
      refine gives_ok (Expr.allNodes_aggregate.2 ⟨⟨hname, ?_⟩, hargs⟩)
      intro g hg
      cases hg
      cases grouping
      · exact hlabels
      · exact hlabels

omit henter hscope in
/-- The parts of an operator are expanded one after the other. -/
theorem expandOperator_eq (b : BinaryOp) :
    expandOperator enter scope b = (do
      let matching ← b.matching.mapM fun m =>
        Matching.mk m.kind <$> expandLabels enter scope m.labels
      let join ← b.join.mapM fun j => Join.mk j.side <$> expandLabels enter scope j.labels
      let joinLead ← b.joinLead.mapM fun lead =>
        StringExpr.ofLiteral <$> expandString enter scope lead
      return { b with matching, join, joinLead }) := by
  rcases b with ⟨op, asBool, matching, join, joinLead, keepNames⟩
  cases matching <;> cases join <;> cases joinLead <;> simp [expandOperator]

omit henter hscope in
theorem gives_expandOperator {b : BinaryOp} (hb : b.Written) :
    Gives BinaryOp.WellFormed (expandOperator enter scope b) := by
  rw [expandOperator_eq]
  have hlabels := gives_expandLabels enter scope
  have hmatching : ∀ m ∈ b.matching, Gives (fun m' : Matching => m'.labels.Nodup)
      (Matching.mk m.kind <$> expandLabels enter scope m.labels) :=
    fun m _ => (hlabels m.labels).map fun _ h => h
  have hjoin : ∀ j ∈ b.join, Gives (fun j' : Join => j'.labels.Nodup)
      (Join.mk j.side <$> expandLabels enter scope j.labels) :=
    fun j _ => (hlabels j.labels).map fun _ h => h
  have hlead : ∀ lead ∈ b.joinLead,
      Gives (fun lead' : StringExpr => ∃ value, lead'.segments = [.literal value])
        (StringExpr.ofLiteral <$> expandString enter scope lead) :=
    fun lead _ => (gives_true _).map fun value _ => ⟨value, rfl⟩
  refine (gives_mapM_option hmatching).bind fun matching hm => ?_
  refine (gives_mapM_option hjoin).bind fun join hj => ?_
  refine (gives_mapM_option hlead).bind fun joinLead hl => gives_ok ?_
  refine ⟨hb.asBool, hm.2, ?_, ?_⟩
  · intro j (hmem : j ∈ join)
    have hsome : b.join.isSome := hj.1 ▸ Option.isSome_of_mem hmem
    have hallowed := hb.join hsome
    exact ⟨hm.1 ▸ hallowed.1, hallowed.2, hj.2 j hmem⟩
  · intro lead (hmem : lead ∈ joinLead)
    have hsome : b.joinLead.isSome := hl.1 ▸ Option.isSome_of_mem hmem
    exact ⟨hj.1 ▸ hb.joinLead hsome, hl.2 lead hmem⟩

end

/-! ## Trees -/

namespace Expr

section

variable {enter : Enter} (henter : Enter.Sound enter)

/-- What each of the expressions expands to has the property. -/
theorem gives_expandListWith {P : Expr → Prop} {scope : Scope} {es : List Expr}
    (h : ∀ e ∈ es, Gives P (expandWith enter scope e)) :
    Gives (fun es' => ∀ e ∈ es', P e) (expandListWith enter scope es) := by
  induction es with
  | nil => exact gives_ok (by simp)
  | cons e es ih =>
      have hparts := List.forall_mem_cons.1 h
      refine hparts.1.bind fun e' he' => (ih hparts.2).bind fun es' hes' => ?_
      exact gives_ok (List.forall_mem_cons.2 ⟨he', hes'⟩)

theorem gives_expandOptionWith {P : Expr → Prop} {scope : Scope} {time : Option Expr}
    (h : ∀ e ∈ time, Gives P (expandWith enter scope e)) :
    Gives (fun time' => ∀ e ∈ time', P e) (expandOptionWith enter scope time) := by
  cases time with
  | none => exact gives_ok (by simp)
  | some e => exact (h e rfl).map fun e' he' => by simpa using he'

include henter

/-- What is written expands to a tree without templates. -/
theorem gives_expandWith {e : Expr} (h : e.Written) :
    ∀ scope, Scope.Sound scope → Gives Expanded (expandWith enter scope e) := by
  -- The scope grows under templates, so the induction is for any sound scope.
  induction h with
  | number _ => exact fun _ _ => gives_ok ((allNodes_atom rfl).2 trivial)
  | duration hd _ => exact fun _ _ => gives_ok ((allNodes_atom rfl).2 hd)
  | string value => exact fun _ _ => gives_ok ((allNodes_atom rfl).2 trivial)
  | concat s =>
      intro scope hscope
      exact (gives_true _).map fun value _ => (allNodes_atom rfl).2 trivial
  | selector hs => exact fun scope hscope => gives_expandName henter hscope hs
  | selectorExpr s => exact fun scope hscope => gives_expandSelector henter hscope s
  | call hname _ ih =>
      intro scope hscope
      have hargs := gives_expandListWith fun e he => ih e he scope hscope
      exact hargs.bind fun args' hargs' => gives_expandCall henter hscope hname hargs'
  | aggregate hname _ ih =>
      intro scope hscope
      have hargs := gives_expandListWith fun e he => ih e he scope hscope
      exact hargs.bind fun args' hargs' => gives_expandAggregate henter hscope hname hargs'
  | binary hb _ _ ihl ihr =>
      intro scope hscope
      refine (ihl scope hscope).bind fun l' hl' => (ihr scope hscope).bind fun r' hr' => ?_
      refine (gives_expandOperator hb).bind fun b' hb' => ?_
      exact gives_ok (allNodes_binary.2 ⟨hb', hl', hr'⟩)
  | rollup _ _ _ ih iht =>
      intro scope hscope
      refine (ih scope hscope).bind fun inner' hinner' => ?_
      refine (gives_expandRange henter hscope _).bind fun range' hrange' => ?_
      have htime := gives_expandOptionWith fun e he => iht e he scope hscope
      refine htime.bind fun time' htime' => ?_
      exact gives_ok (allNodes_rollup.2 ⟨hrange', hinner', htime'⟩)
  | tuple _ ih =>
      intro scope hscope
      have hitems := gives_expandListWith fun e he => ih e he scope hscope
      exact hitems.map fun items' hitems' => expanded_ofItems hitems'
  | withTemplates hts _ _ ih =>
      intro scope hscope
      exact ih _ (Scope.sound_cons hts hscope)

omit henter in
/-- Bodies of templates are expanded as other expressions are, as deep as templates may go. -/
theorem enterTemplate_sound (depth : Nat) : Enter.Sound (enterTemplate depth) := by
  induction depth with
  | zero => exact fun _ _ _ _ _ => gives_error _
  | succ depth ih => exact fun _ scope body hscope hbody => gives_expandWith ih hbody scope hscope

omit henter in
theorem gives_expandTemplates {e : Expr} (h : e.Written) : Gives Expanded e.expandTemplates :=
  gives_expandWith (enterTemplate_sound maxExpansionDepth) h builtinScope builtinScope_sound

end

end Expr

end SeriesQuery
