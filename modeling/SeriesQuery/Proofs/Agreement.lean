import SeriesQuery.Proofs.Expanded
import SeriesQuery.Proofs.Leaves

/-!
# Expansions that agree

`Concur exact P x y` says that two results are the same and have the property `P`; there may also be
fewer than two results, but for an `exact` agreement only where both fail alike.

Two ways of expanding, each with a scope, are `Interchangeable` where names stand for the same in
both.  Each function of `Template.Expand` is taken once: it gives the same in interchangeable scopes.
For relations between scopes that come down to that, `concur_expandWith` says so of expressions.
-/

namespace SeriesQuery

/-! ## Results that agree -/

/-- The results are the same and have the property, or one is missing.  Where the agreement is
`exact`, both are missing then, for the same cause. -/
def Concur {ε α : Type} (exact : Bool) (P : α → Prop) : Except ε α → Except ε α → Prop
  | .ok a, .ok b => a = b ∧ P a
  | .error cause, .error cause' => exact → cause = cause'
  | _, _ => exact = false

section

variable {ε α β : Type} {exact : Bool} {P : α → Prop} {Q : β → Prop}

theorem concur_ok {a : α} (h : P a) : Concur exact P (.ok a : Except ε α) (.ok a) :=
  ⟨rfl, h⟩

theorem concur_error (cause : ε) : Concur exact P (.error cause) (.error cause) :=
  fun _ => rfl

/-- A result agrees with itself. -/
theorem concur_self {x : Except ε α} (h : Gives P x) : Concur exact P x x := by
  cases x with
  | error cause => exact concur_error cause
  | ok a => exact concur_ok (h a rfl)

theorem Concur.gives {x : Except ε α} (h : Concur exact P x x) : Gives P x := by
  intro a ha
  rw [ha] at h
  exact h.2

theorem Concur.eq {x y : Except ε α} (h : Concur exact P x y) {a b : α} (hx : x = .ok a)
    (hy : y = .ok b) : a = b ∧ P a := by
  rw [hx, hy] at h
  exact h

theorem Concur.bind {x y : Except ε α} {k k' : α → Except ε β} (h : Concur exact P x y)
    (hk : ∀ a, P a → Concur exact Q (k a) (k' a)) : Concur exact Q (x >>= k) (y >>= k') := by
  cases x with
  | error cause =>
      cases y with
      | error cause' => exact h
      | ok b =>
          -- One of two results is missing, so the agreement is not exact.
          have hexact : exact = false := h
          subst hexact
          cases hb : k' b <;> simp [Bind.bind, Except.bind, Concur, hb]
  | ok a =>
      cases y with
      | error cause' =>
          have hexact : exact = false := h
          subst hexact
          cases ha : k a <;> simp [Bind.bind, Except.bind, Concur, ha]
      | ok b =>
          rcases h with ⟨rfl, ha⟩
          exact hk a ha

theorem Concur.map {x y : Except ε α} (h : Concur exact P x y) {g : α → β}
    (hg : ∀ a, P a → Q (g a)) : Concur exact Q (g <$> x) (g <$> y) := by
  have hok : ∀ a, P a → Concur exact Q (.ok (g a) : Except ε β) (.ok (g a)) :=
    fun a ha => concur_ok (hg a ha)
  have hbind := h.bind hok
  cases x <;> cases y <;> exact hbind

theorem concur_mapM_option {g g' : α → Except ε β} {o : Option α}
    (hg : ∀ a ∈ o, Concur exact Q (g a) (g' a)) :
    Concur exact (fun found => ∀ b ∈ found, Q b) (o.mapM g) (o.mapM g') := by
  cases o with
  | none => exact concur_ok (by simp)
  | some a =>
      rw [Option.mapM_some, Option.mapM_some]
      exact (hg a rfl).map fun b hb => by simpa using hb

end

/-! ## Scopes that agree -/

section

variable (exact : Bool) (K : Leaf → Prop) (enter enter' : Enter)

/-- A name stands for the same by itself. -/
def SameReference : Option Meaning → Option Meaning → Prop
  | none, none => True
  | some m, some m' => Concur exact (Expr.Made K) (refer enter m) (refer enter' m')
  | _, _ => False

/-- A name stands for the same by itself and when it is called. -/
def SameUse (name : String) (m m' : Option Meaning) : Prop :=
  SameReference exact K enter enter' m m' ∧
    ∀ meaning ∈ m, ∀ meaning' ∈ m', ∀ args : List Expr, (∀ e ∈ args, e.Made K) →
      Concur exact (Expr.Made K) (callMeaning enter name args meaning)
        (callMeaning enter' name args meaning')

/-- Names stand for the same in both scopes: those that can be put together from the leaves of
expressions, and as labels and the names of metrics all names. -/
structure Interchangeable (scope scope' : Scope) : Prop where
  lookup : ∀ name, K (.text name) →
    SameUse exact K enter enter' name (scope.lookup name) (scope'.lookup name)
  plain : ∀ name, SameReference exact K enter enter' (plainMeaning scope name)
    (plainMeaning scope' name)

end

section

variable {exact : Bool} {K : Leaf → Prop} {enter enter' : Enter} {scope scope' : Scope}

theorem Interchangeable.refer (h : Interchangeable exact K enter enter' scope scope')
    {name : String} (hname : K (.text name)) :
    SameReference exact K enter enter' (scope.lookup name) (scope'.lookup name) :=
  (h.lookup name hname).1

/-- The rule for a name that is looked up by both. -/
theorem SameReference.cases {m m' : Option Meaning}
    (h : SameReference exact K enter enter' m m') :
    (m = none ∧ m' = none) ∨ ∃ meaning meaning', m = some meaning ∧ m' = some meaning' ∧
      Concur exact (Expr.Made K) (SeriesQuery.refer enter meaning)
        (SeriesQuery.refer enter' meaning') := by
  cases m <;> cases m'
  · exact .inl ⟨rfl, rfl⟩
  · exact h.elim
  · exact h.elim
  · exact .inr ⟨_, _, rfl, rfl, h⟩

end

/-! ## Durations -/

section

variable {exact : Bool} {K : Leaf → Prop} (hK : Leaf.Closed K) {enter enter' : Enter}
  {scope scope' : Scope} (h : Interchangeable exact K enter enter' scope scope')

include hK

theorem gives_durationOf_made {name : String} {e : Expr} (he : e.Made K) :
    Gives (fun d => K d.leaf) (durationOf name e) := by
  unfold durationOf
  split
  · exact gives_ok (Expr.made_duration.1 he)
  · exact gives_ok (hK.duration (Expr.made_number.1 he))
  · exact gives_error _

include h

theorem concur_expandDuration {d : Duration} (hd : K d.leaf) :
    Concur exact (fun d => K d.leaf) (expandDuration enter scope d)
      (expandDuration enter' scope' d) := by
  unfold expandDuration
  split
  · exact concur_ok hd
  · rename_i name hname
    have htext : K (.text name) := by
      unfold Duration.templateName? at hname
      split at hname
      · rename_i htemplate
        cases hname
        rwa [Duration.leaf, if_pos htemplate] at hd
      · cases hname
    rcases (h.refer htext).cases with ⟨hm, hm'⟩ | ⟨m, m', hm, hm', hrefer⟩
    · rw [hm, hm']
      exact concur_error _
    · rw [hm, hm']
      exact hrefer.bind fun e he => concur_self (gives_durationOf_made hK he)

theorem concur_expandDuration? {d : Option Duration} (hd : ∀ d' ∈ d, K d'.leaf) :
    Concur exact (fun found => ∀ d' ∈ found, K d'.leaf) (expandDuration? enter scope d)
      (expandDuration? enter' scope' d) := by
  cases d with
  | none => exact concur_ok (by simp)
  | some d => exact (concur_expandDuration hK h (hd d rfl)).map fun d' hd' => by simpa using hd'

end

theorem forall_mem_rangeLeaves {K : Leaf → Prop} {r : Range} :
    (∀ l ∈ r.leaves, K l) ↔
      (∀ d ∈ r.window, K d.leaf) ∧ (∀ d ∈ r.step, K d.leaf) ∧ ∀ d ∈ r.offset, K d.leaf := by
  simp [Range.leaves, or_imp, forall_and]

section

variable {exact : Bool} {K : Leaf → Prop} (hK : Leaf.Closed K) {enter enter' : Enter}
  {scope scope' : Scope} (h : Interchangeable exact K enter enter' scope scope')

include hK h

theorem concur_expandRange {r : Range} (hr : ∀ l ∈ r.leaves, K l) :
    Concur exact (fun r => ∀ l ∈ r.leaves, K l) (expandRange enter scope r)
      (expandRange enter' scope' r) := by
  have hparts := forall_mem_rangeLeaves.1 hr
  refine (concur_expandDuration? hK h hparts.1).bind fun window hwindow => ?_
  refine (concur_expandDuration? hK h hparts.2.1).bind fun step hstep => ?_
  refine (concur_expandDuration? hK h hparts.2.2).bind fun offset hoffset => ?_
  exact concur_ok (forall_mem_rangeLeaves.2 ⟨hwindow, hstep, hoffset⟩)

end

/-! ## Labels -/

/-- The name of a selector is the value of one of its filters. -/
theorem Selector.mem_of_name? {s : Selector} {name : String} (h : s.name? = some name) :
    ∃ g ∈ s.groups, ∃ f ∈ g, f.value = name := by
  unfold Selector.name? commonName at h
  split at h
  · cases h
  · rename_i first rest hgroups
    split at h
    · rename_i found hfound
      have hname : found = name := by
        split at h
        · exact Option.some.inj h
        · cases h
      unfold Selector.groupName? at hfound
      split at hfound
      · rename_i f fs
        split at hfound
        · exact ⟨f :: fs, by simp [hgroups], f, by simp, by rw [← hname]; exact Option.some.inj hfound⟩
        · cases hfound
      · cases hfound
    · cases h

section

variable {K : Leaf → Prop} (hK : Leaf.Closed K)
include hK

theorem made_labelOf? {e : Expr} (he : e.Made K) : ∀ name ∈ labelOf? e, K (.label name) := by
  intro name hname
  unfold labelOf? at hname
  split at hname
  · rename_i s
    split at hname
    · rcases Selector.mem_of_name? hname with ⟨g, hg, f, hf, rfl⟩
      exact hK.label (Expr.made_selector.1 he g hg f hf)
    · cases hname
  · cases hname

theorem gives_labelsOfList {label : String} {es : List Expr} (hes : ∀ e ∈ es, e.Made K) :
    Gives (fun names => ∀ name ∈ names, K (.label name)) (labelsOfList label es) := by
  induction es with
  | nil => exact gives_ok (by simp)
  | cons e es ih =>
      have hparts := List.forall_mem_cons.1 hes
      unfold labelsOfList
      split
      · rename_i name hname
        have hlabel := made_labelOf? hK hparts.1 name hname
        exact (ih hparts.2).map fun names hnames => List.forall_mem_cons.2 ⟨hlabel, hnames⟩
      · exact gives_error _

theorem gives_labelsOf {label : String} {e : Expr} (he : e.Made K) :
    Gives (fun names => ∀ name ∈ names, K (.label name)) (labelsOf label e) := by
  unfold labelsOf
  split
  · exact gives_labelsOfList hK (Expr.made_tuple.1 he)
  · split
    · rename_i name hname
      exact gives_ok (by simpa using made_labelOf? hK he name hname)
    · exact gives_error _

variable {exact : Bool} {enter enter' : Enter} {scope scope' : Scope}
  (h : Interchangeable exact K enter enter' scope scope')
include h

theorem concur_expandLabel {label : String} (hlabel : K (.label label)) :
    Concur exact (fun names => ∀ name ∈ names, K (.label name)) (expandLabel enter scope label)
      (expandLabel enter' scope' label) := by
  unfold expandLabel
  rcases (h.plain label).cases with ⟨hm, hm'⟩ | ⟨m, m', hm, hm', hrefer⟩
  · rw [hm, hm']
    exact concur_ok (by simpa using hlabel)
  · rw [hm, hm']
    exact hrefer.bind fun e he => concur_self (gives_labelsOf hK he)

theorem concur_expandLabelList {labels : List String} (hlabels : ∀ l ∈ labels, K (.label l)) :
    Concur exact (fun names => ∀ name ∈ names, K (.label name))
      (expandLabelList enter scope labels) (expandLabelList enter' scope' labels) := by
  induction labels with
  | nil => exact concur_ok (by simp)
  | cons label rest ih =>
      have hparts := List.forall_mem_cons.1 hlabels
      refine (concur_expandLabel hK h hparts.1).bind fun here hhere => ?_
      refine (ih hparts.2).bind fun there hthere => concur_ok ?_
      exact List.forall_mem_append.2 ⟨hhere, hthere⟩

theorem concur_expandLabels {labels : List String} (hlabels : ∀ l ∈ labels, K (.label l)) :
    Concur exact (fun names => ∀ name ∈ names, K (.label name)) (expandLabels enter scope labels)
      (expandLabels enter' scope' labels) :=
  (concur_expandLabelList hK h hlabels).map fun _ hnames name hname =>
    hnames name (List.mem_eraseDups.1 hname)

end

/-! ## Strings -/

theorem gives_stringOf {K : Leaf → Prop} {name : String} {within : StringExpr} {e : Expr}
    (he : e.Made K) :
    Gives (fun found => ∀ value ∈ found, K (.text value)) (stringOf name within e) := by
  unfold stringOf
  split
  · exact gives_ok (by simpa using Expr.made_string.1 he)
  · exact gives_error _

section

variable {exact : Bool} {K : Leaf → Prop} (hK : Leaf.Closed K)

include hK in
theorem concur_resolveSegments {missing : String → ParseError}
    {value value' : String → Expansion (Option String)} {segments : List Segment}
    (hvalue : ∀ name, K (.text name) →
      Concur exact (fun found => ∀ text ∈ found, K (.text text)) (value name) (value' name))
    (hsegments : ∀ s ∈ segments, K s.leaf) :
    Concur exact (fun text => K (.text text)) (StringExpr.resolveSegments missing value segments)
      (StringExpr.resolveSegments missing value' segments) := by
  induction segments with
  | nil => exact concur_ok hK.empty
  | cons segment rest ih =>
      have hparts := List.forall_mem_cons.1 hsegments
      have hrest := ih hparts.2
      cases segment with
      | literal text => exact hrest.map fun more hmore => hK.append hparts.1 hmore
      | ident name =>
          refine (hvalue name hparts.1).bind fun found hfound => ?_
          cases found with
          | none => exact concur_error _
          | some text => exact hrest.map fun more hmore => hK.append (hfound text rfl) hmore

variable {enter enter' : Enter} {scope scope' : Scope}
  (h : Interchangeable exact K enter enter' scope scope')

include hK h

theorem concur_expandString {s : StringExpr} (hs : ∀ l ∈ s.leaves, K l) :
    Concur exact (fun text => K (.text text)) (expandString enter scope s)
      (expandString enter' scope' s) := by
  refine concur_resolveSegments hK (fun name hname => ?_) (by simpa [StringExpr.leaves] using hs)
  rcases (h.refer hname).cases with ⟨hm, hm'⟩ | ⟨m, m', hm, hm', hrefer⟩
  · rw [hm, hm']
    exact concur_ok (by simp)
  · rw [hm, hm']
    exact hrefer.bind fun e he => concur_self (gives_stringOf he)

end

/-! ## Filters -/

theorem gives_filtersOf_made {K : Leaf → Prop} {name : String} {e : Expr} (he : e.Made K) :
    Gives (fun filters => ∀ f ∈ filters, K f.leaf) (filtersOf name e) := by
  unfold filtersOf
  split
  · split
    · exact gives_error _
    · split
      · exact gives_error _
      · exact gives_ok (forall_mem_head (Expr.made_selector.1 he))
  · exact gives_error _

theorem ofParts?_eq_ok {op : FilterOp} {label value : String} {f : LabelFilter}
    (h : LabelFilter.ofParts? op label value = .ok f) : f = ⟨op, label, value⟩ := by
  unfold LabelFilter.ofParts? LabelFilter.check at h
  split at h
  · exact (Except.ok.inj h).symm
  · cases h

section

variable {exact : Bool} {K : Leaf → Prop} (hK : Leaf.Closed K) {enter enter' : Enter}
  {scope scope' : Scope} (h : Interchangeable exact K enter enter' scope scope')
include hK h

omit hK in
theorem concur_expandSplice {name : String} (hname : K (.text name)) :
    Concur exact (fun filters => ∀ f ∈ filters, K f.leaf) (expandSplice enter scope name)
      (expandSplice enter' scope' name) := by
  unfold expandSplice
  rcases (h.refer hname).cases with ⟨hm, hm'⟩ | ⟨m, m', hm, hm', hrefer⟩
  · rw [hm, hm']
    exact concur_error _
  · rw [hm, hm']
    exact hrefer.bind fun e he => concur_self (gives_filtersOf_made he)

theorem concur_expandFilter {f : FilterExpr} (hf : ∀ l ∈ f.leaves, K l) :
    Concur exact (fun filters => ∀ f' ∈ filters, K f'.leaf) (expandFilter enter scope f)
      (expandFilter enter' scope' f) := by
  unfold FilterExpr.leaves at hf
  unfold expandFilter
  split
  · rename_i hsplice
    rw [if_pos hsplice] at hf
    exact concur_expandSplice h (by simpa using hf)
  · rename_i hplain
    rw [if_neg hplain] at hf
    refine (concur_expandString hK h hf).bind fun value hvalue => concur_self ?_
    split
    · rename_i filter hfilter
      rw [ofParts?_eq_ok hfilter]
      exact gives_ok (by simpa [LabelFilter.leaf] using hvalue)
    · exact gives_error _

theorem concur_expandGroup {fs : List FilterExpr} (hfs : ∀ f ∈ fs, ∀ l ∈ f.leaves, K l) :
    Concur exact (fun filters => ∀ f ∈ filters, K f.leaf) (expandGroup enter scope fs)
      (expandGroup enter' scope' fs) := by
  induction fs with
  | nil => exact concur_ok (by simp)
  | cons f fs ih =>
      have hparts := List.forall_mem_cons.1 hfs
      refine (concur_expandFilter hK h hparts.1).bind fun here hhere => ?_
      refine (ih hparts.2).bind fun there hthere => concur_ok ?_
      exact List.forall_mem_append.2 ⟨hhere, hthere⟩

theorem concur_expandGroups {unique : Bool} {gs : List (List FilterExpr)}
    (hgs : ∀ g ∈ gs, ∀ f ∈ g, ∀ l ∈ f.leaves, K l) :
    Concur exact (fun groups => ∀ g ∈ groups, ∀ f ∈ g, K f.leaf)
      (expandGroups enter scope unique gs) (expandGroups enter' scope' unique gs) := by
  induction gs with
  | nil => exact concur_ok (by simp)
  | cons g gs ih =>
      have hparts := List.forall_mem_cons.1 hgs
      refine (concur_expandGroup hK h hparts.1).bind fun here hhere => ?_
      refine (ih hparts.2).bind fun there hthere => concur_ok ?_
      refine List.forall_mem_cons.2 ⟨?_, hthere⟩
      intro f hf
      split at hf
      · exact hhere f (List.mem_eraseDups.1 hf)
      · exact hhere f hf

end

/-! ## Selectors -/

theorem gives_addFilters_made {K : Leaf → Prop} {name : String} {more : List (List LabelFilter)}
    {value : Expr} (hmore : ∀ g ∈ more, ∀ f ∈ g, K f.leaf) (hvalue : value.Made K) :
    Gives (Expr.Made K) (addFilters name more value) := by
  unfold addFilters
  split
  · exact gives_ok hvalue
  · split
    · have hs := Expr.made_selector.1 hvalue
      exact (gives_mergeGroups hs hmore).map fun s hs => Expr.made_selector.2 hs
    · have hparts := Expr.made_rollup.1 hvalue
      have hs := Expr.made_selector.1 hparts.1
      refine (gives_mergeGroups hs hmore).map fun s hs => ?_
      exact Expr.made_rollup.2 ⟨Expr.made_selector.2 hs, hparts.2⟩
    · exact gives_error _

section

variable {exact : Bool} {K : Leaf → Prop} (hK : Leaf.Closed K) {enter enter' : Enter}
  {scope scope' : Scope} (h : Interchangeable exact K enter enter' scope scope')
include hK h

omit hK in
theorem concur_expandName {s : Selector} (hs : ∀ g ∈ s.groups, ∀ f ∈ g, K f.leaf) :
    Concur exact (Expr.Made K) (expandName enter scope s) (expandName enter' scope' s) := by
  unfold expandName
  split
  · exact concur_ok (Expr.made_selector.2 hs)
  · rename_i name _
    rcases (h.plain name).cases with ⟨hm, hm'⟩ | ⟨m, m', hm, hm', hrefer⟩
    · rw [hm, hm']
      exact concur_ok (Expr.made_selector.2 hs)
    · rw [hm, hm']
      exact hrefer.bind fun e he =>
        concur_self (gives_addFilters_made (forall_mem_filtersBesides hs) he)

theorem concur_expandSelector {s : SelectorExpr}
    (hs : ∀ g ∈ s.groups, ∀ f ∈ g, ∀ l ∈ f.leaves, K l) :
    Concur exact (Expr.Made K) (expandSelector enter scope s) (expandSelector enter' scope' s) :=
  (concur_expandGroups hK h hs).bind fun _ hgroups => concur_expandName h hgroups

end

/-! ## Nodes -/

section

variable {exact : Bool} {K : Leaf → Prop} (hK : Leaf.Closed K) {enter enter' : Enter}
  {scope scope' : Scope} (h : Interchangeable exact K enter enter' scope scope')

include h in
/-- The rule for a name that is looked up by both to be called. -/
theorem Interchangeable.call_cases {name : String} (hname : K (.text name)) {args : List Expr}
    (hargs : ∀ e ∈ args, e.Made K) :
    (scope.lookup name = none ∧ scope'.lookup name = none) ∨ ∃ meaning meaning',
      scope.lookup name = some meaning ∧ scope'.lookup name = some meaning' ∧
        Concur exact (Expr.Made K) (callMeaning enter name args meaning)
          (callMeaning enter' name args meaning') := by
  have huse := h.lookup name hname
  rcases huse.1.cases with hnone | ⟨m, m', hm, hm', _⟩
  · exact .inl hnone
  · exact .inr ⟨m, m', hm, hm', huse.2 m hm m' hm' args hargs⟩

include h in
theorem concur_expandCall {name : String} {args : List Expr} {keepNames : Bool}
    (hname : K (.text name)) (hargs : ∀ e ∈ args, e.Made K) :
    Concur exact (Expr.Made K) (expandCall enter scope name args keepNames)
      (expandCall enter' scope' name args keepNames) := by
  unfold expandCall
  rcases h.call_cases hname hargs with ⟨hm, hm'⟩ | ⟨m, m', hm, hm', hcall⟩
  · rw [hm, hm']
    exact concur_ok (Expr.made_call.2 ⟨hname, hargs⟩)
  · rw [hm, hm']
    refine hcall.bind fun e he => concur_ok ?_
    split
    · cases hmark : e.markKeepNames with
      | none => exact he
      | some e' => exact he.markKeepNames e' hmark
    · exact he

theorem forall_mem_aggregationLeaves {a : Aggregation} :
    (∀ l ∈ a.leaves, K l) ↔
      K (.text a.name) ∧ ∀ g ∈ a.grouping, ∀ label ∈ g.labels, K (.label label) := by
  simp only [Aggregation.leaves, List.forall_mem_cons, List.forall_mem_flatMap, List.forall_mem_map,
    Option.mem_toList, Option.mem_def]

include hK h in
theorem concur_expandAggregate {a : Aggregation} {args : List Expr} (ha : ∀ l ∈ a.leaves, K l)
    (hargs : ∀ e ∈ args, e.Made K) :
    Concur exact (Expr.Made K) (expandAggregate enter scope a args)
      (expandAggregate enter' scope' a args) := by
  have hparts := forall_mem_aggregationLeaves.1 ha
  unfold expandAggregate
  rcases h.call_cases hparts.1 hargs with ⟨hm, hm'⟩ | ⟨m, m', hm, hm', hcall⟩
  · rw [hm, hm']
    dsimp only
    split
    · exact concur_ok (Expr.made_aggregate.2 ⟨ha, hargs⟩)
    · rename_i grouping hgrouping
      refine (concur_expandLabels hK h (hparts.2 grouping hgrouping)).bind fun labels hlabels => ?_
      refine concur_ok (Expr.made_aggregate.2 ⟨?_, hargs⟩)
      refine forall_mem_aggregationLeaves.2 ⟨hparts.1, fun g hg => ?_⟩
      cases hg
      cases grouping
      · exact hlabels
      · exact hlabels
  · rw [hm, hm']
    exact hcall

theorem forall_mem_operatorLeaves {b : BinaryOp} :
    (∀ l ∈ b.leaves, K l) ↔ (∀ m ∈ b.matching, ∀ label ∈ m.labels, K (.label label)) ∧
      (∀ j ∈ b.join, ∀ label ∈ j.labels, K (.label label)) ∧
        ∀ lead ∈ b.joinLead, ∀ l ∈ lead.leaves, K l := by
  simp only [BinaryOp.leaves, List.forall_mem_append, List.forall_mem_flatMap, List.forall_mem_map,
    Option.mem_toList, Option.mem_def, and_assoc]

include hK h in
theorem concur_expandOperator {b : BinaryOp} (hb : ∀ l ∈ b.leaves, K l) :
    Concur exact (fun b => ∀ l ∈ b.leaves, K l) (expandOperator enter scope b)
      (expandOperator enter' scope' b) := by
  have hparts := forall_mem_operatorLeaves.1 hb
  rw [expandOperator_eq, expandOperator_eq]
  have hmatching : ∀ m ∈ b.matching,
      Concur exact (fun m' : Matching => ∀ label ∈ m'.labels, K (.label label))
        (Matching.mk m.kind <$> expandLabels enter scope m.labels)
        (Matching.mk m.kind <$> expandLabels enter' scope' m.labels) :=
    fun m hm => (concur_expandLabels hK h (hparts.1 m hm)).map fun _ hlabels => hlabels
  have hjoin : ∀ j ∈ b.join,
      Concur exact (fun j' : Join => ∀ label ∈ j'.labels, K (.label label))
        (Join.mk j.side <$> expandLabels enter scope j.labels)
        (Join.mk j.side <$> expandLabels enter' scope' j.labels) :=
    fun j hj => (concur_expandLabels hK h (hparts.2.1 j hj)).map fun _ hlabels => hlabels
  have hlead : ∀ lead ∈ b.joinLead,
      Concur exact (fun lead' : StringExpr => ∀ l ∈ lead'.leaves, K l)
        (StringExpr.ofLiteral <$> expandString enter scope lead)
        (StringExpr.ofLiteral <$> expandString enter' scope' lead) := by
    intro lead hmem
    refine (concur_expandString hK h (hparts.2.2 lead hmem)).map fun text htext => ?_
    simpa [StringExpr.leaves, StringExpr.ofLiteral, Segment.leaf] using htext
  refine (concur_mapM_option hmatching).bind fun matching hm => ?_
  refine (concur_mapM_option hjoin).bind fun join hj => ?_
  refine (concur_mapM_option hlead).bind fun joinLead hl => concur_ok ?_
  exact forall_mem_operatorLeaves.2 ⟨hm, hj, hl⟩

end

/-! ## Trees -/

namespace Expr

section

variable {exact : Bool} {K : Leaf → Prop} {enter enter' : Enter}

theorem concur_expandListWith {scope scope' : Scope} {es : List Expr}
    (h : ∀ e ∈ es, Concur exact (Made K) (expandWith enter scope e) (expandWith enter' scope' e)) :
    Concur exact (fun es' => ∀ e ∈ es', Made K e) (expandListWith enter scope es)
      (expandListWith enter' scope' es) := by
  induction es with
  | nil => exact concur_ok (by simp)
  | cons e es ih =>
      have hparts := List.forall_mem_cons.1 h
      refine hparts.1.bind fun e' he' => (ih hparts.2).bind fun es' hes' => ?_
      exact concur_ok (List.forall_mem_cons.2 ⟨he', hes'⟩)

theorem concur_expandOptionWith {scope scope' : Scope} {time : Option Expr}
    (h : ∀ e ∈ time, Concur exact (Made K) (expandWith enter scope e) (expandWith enter' scope' e)) :
    Concur exact (fun time' => ∀ e ∈ time', Made K e) (expandOptionWith enter scope time)
      (expandOptionWith enter' scope' time) := by
  cases time with
  | none => exact concur_ok (by simp)
  | some e => exact (h e rfl).map fun e' he' => by simpa using he'

/-- Expressions expand alike in scopes that are related, if related scopes are interchangeable and
stay related when the same frame is put on them. -/
theorem concur_expandWith (hK : Leaf.Closed K) {R : Scope → Scope → Prop}
    (hR : ∀ scope scope', R scope scope' → Interchangeable exact K enter enter' scope scope')
    (hframe : ∀ frame scope scope', frame.Made K → R scope scope' →
      R (frame :: scope) (frame :: scope')) {e : Expr} (he : e.Made K) :
    ∀ scope scope', R scope scope' →
      Concur exact (Made K) (expandWith enter scope e) (expandWith enter' scope' e) := by
  induction e using Expr.inductionOn with
  | number n => exact fun _ _ _ => concur_ok he
  | duration d => exact fun _ _ _ => concur_ok he
  | string value => exact fun _ _ _ => concur_ok he
  | concat s =>
      intro scope scope' h
      exact (concur_expandString hK (hR _ _ h) he).map fun value hvalue => made_string.2 hvalue
  | selector s => exact fun scope scope' h => concur_expandName (hR _ _ h) (made_selector.1 he)
  | selectorExpr s =>
      exact fun scope scope' h => concur_expandSelector hK (hR _ _ h) (made_selectorExpr.1 he)
  | call name args keepNames ih =>
      intro scope scope' h
      have hparts := made_call.1 he
      have hargs := concur_expandListWith fun a ha => ih a ha (hparts.2 a ha) scope scope' h
      exact hargs.bind fun args' hargs' => concur_expandCall (hR _ _ h) hparts.1 hargs'
  | aggregate a args ih =>
      intro scope scope' h
      have hparts := made_aggregate.1 he
      have hargs := concur_expandListWith fun a ha => ih a ha (hparts.2 a ha) scope scope' h
      exact hargs.bind fun args' hargs' => concur_expandAggregate hK (hR _ _ h) hparts.1 hargs'
  | binary b l r ihl ihr =>
      intro scope scope' h
      have hparts := made_binary.1 he
      refine (ihl hparts.2.1 scope scope' h).bind fun l' hl' => ?_
      refine (ihr hparts.2.2 scope scope' h).bind fun r' hr' => ?_
      refine (concur_expandOperator hK (hR _ _ h) hparts.1).bind fun b' hb' => ?_
      exact concur_ok (made_binary.2 ⟨hb', hl', hr'⟩)
  | rollup inner range time ih iht =>
      intro scope scope' h
      have hparts := made_rollup.1 he
      refine (ih hparts.1 scope scope' h).bind fun inner' hinner' => ?_
      refine (concur_expandRange hK (hR _ _ h) hparts.2.1).bind fun range' hrange' => ?_
      have htime := concur_expandOptionWith fun e hmem =>
        iht e hmem (hparts.2.2 e hmem) scope scope' h
      refine htime.bind fun time' htime' => ?_
      exact concur_ok (made_rollup.2 ⟨hinner', hrange', htime'⟩)
  | tuple items ih =>
      intro scope scope' h
      have hparts := made_tuple.1 he
      have hitems := concur_expandListWith fun a ha => ih a ha (hparts a ha) scope scope' h
      exact hitems.map fun items' hitems' => made_ofItems hitems'
  | withTemplates ts body _ ih =>
      intro scope scope' h
      have hparts := made_withTemplates.1 he
      -- The block puts the same frame on either scope.
      exact ih hparts.2 _ _ (hframe _ _ _ hparts.1 h)

end

end Expr

end SeriesQuery
