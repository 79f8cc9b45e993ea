import SeriesQuery.Proofs.RevisedParts
import SeriesQuery.Proofs.RevisedPlaces

/-!
# Expansion of the selectors of revisions

Where a selector has a name, the revision has it under its own naming, with the same filters besides.
A name that is computed is one that filters may ask for, and means the same in both scopes.
-/

namespace SeriesQuery

/-! ## Filters on the name -/

section

variable {T : Terms}

theorem Terms.Clear.append {g h : List LabelFilter} (hg : T.Clear g) (hh : T.Clear h) :
    T.Clear (g ++ h) := by
  intro f hf
  rcases List.mem_append.1 hf with hf | hf
  · exact hg f hf
  · exact hh f hf

theorem Terms.Clear.sublist {g h : List LabelFilter} (hg : T.Clear g) (hsub : ∀ f ∈ h, f ∈ g) :
    T.Clear h :=
  fun f hf => hg f (hsub f hf)

theorem Terms.Clear.dedup {g : List LabelFilter} (hg : T.Clear g) :
    T.Clear (LabelFilter.dedup g) :=
  hg.sublist fun _ hf => List.mem_eraseDups.1 hf

/-- No further filter asks for a name that the terms do not have. -/
theorem Terms.Clear.value_ne {g : List LabelFilter} (hg : T.Clear g) {n : String} (hne : n ≠ "")
    (hn : ¬T.names n) {f : LabelFilter} (hf : f ∈ g) (hfilter : f.isNameFilter) : f.value ≠ n := by
  rintro rfl
  rcases hg f hf hfilter with hempty | hname
  · exact hne hempty
  · exact hn hname

/-- The further filters that are not like the one on the name are the same for two names. -/
theorem Terms.Clear.filter_eq {g : List LabelFilter} (hg : T.Clear g) {n n' : String}
    (hne : n ≠ "") (hne' : n' ≠ "") (hn : T.Same n n') {P : String → LabelFilter → Bool}
    (hP : ∀ n f, (f.isNameFilter → f.value ≠ n) → P n f) : g.filter (P n) = g.filter (P n') := by
  rcases hn with rfl | ⟨_, hn, hn'⟩
  · rfl
  · have hall : g.filter (P n) = g :=
      List.filter_eq_self.2 fun f hf => hP n f fun hfilter => hg.value_ne hne hn hf hfilter
    have hall' : g.filter (P n') = g :=
      List.filter_eq_self.2 fun f hf => hP n' f fun hfilter => hg.value_ne hne' hn' hf hfilter
    rw [hall, hall']

theorem isNameFilter_equal (n : String) : (LabelFilter.equal nameLabel n).isNameFilter := by
  simp [LabelFilter.equal, LabelFilter.isNameFilter]

/-- Without repetitions the filter on the name stays first. -/
theorem dedup_named (n : String) (r : List LabelFilter) :
    LabelFilter.dedup (.equal nameLabel n :: r) =
      .equal nameLabel n :: LabelFilter.dedup (r.filter fun f => !(f == .equal nameLabel n)) := by
  simp [LabelFilter.dedup, List.eraseDups_cons]

/-- The filters that stand for a template are those of a selector without a name. -/
theorem clear_of_name?_none {s : Selector} (hs : s.Tame T) (hname : s.name? = none) :
    ∀ g ∈ s.groups, T.Clear g := by
  cases hs with
  | plain hrs => exact hrs
  | @named n rs hne hrs =>
      intro g hg
      have hsome : rs ≠ [] := by
        rintro rfl
        cases hg
      rw [Selector.name?_named hne hsome] at hname
      cases hname

theorem relates_filtersOf {n n' : String} {e : Expr} (hn : T.Same n n') (he : e.Tame T) :
    Relates T.exact (Both T.Clear) (filtersOf n e) (filtersOf n' e) := by
  unfold filtersOf
  split
  · rename_i s
    have hs : s.Tame T := he
    split
    · intro hexact
      rw [hn.eq hexact]
    · rename_i hnone
      split
      · intro hexact
        rw [hn.eq hexact]
      · refine ⟨rfl, ?_⟩
        have hname : s.name? = none := by simpa using hnone
        have hgroups := clear_of_name?_none hs hname
        cases hhead : s.groups.head? with
        | none => exact fun f hf => by cases hf
        | some g => exact hgroups g (List.mem_of_head? hhead)
  · intro hexact
    rw [hn.eq hexact]

end

/-! ## Filters -/

section

variable {T : Terms} {ρ : Naming} {enter enter' : Enter} {scope scope' : Scope}
  (henter : Enter.Relates T enter enter') (h : Scope.Revises T ρ scope scope')

/-- A filter that fixes a name is kept as it is. -/
theorem expandFilter_named (enter : Enter) (scope : Scope) (n : String) :
    expandFilter enter scope (.named n) = .ok [.equal nameLabel n] := by
  simp [expandFilter, FilterExpr.named, expandString, StringExpr.resolve, StringExpr.ofLiteral,
    StringExpr.resolveSegments, LabelFilter.ofParts?, LabelFilter.check, LabelFilter.isValid,
    FilterOp.isPattern, LabelFilter.equal]

include henter h

theorem relates_expandSplice {n n' : String} (hn : ρ n n') :
    Relates T.exact (Both T.Clear) (expandSplice enter scope n) (expandSplice enter' scope' n') := by
  unfold expandSplice
  rcases h.lookup hn with ⟨hm, hm', rfl⟩ | ⟨m, m', hm, hm', hrev⟩
  · rw [hm, hm']
    exact fun _ => rfl
  · rw [hm, hm']
    refine (hrev.refer henter).bind fun e e' he => ?_
    rcases he with ⟨rfl, he⟩
    exact relates_filtersOf (h.fair.same n n' hn) he

theorem relates_expandFilter {f f' : FilterExpr} (hf : f.Revises T ρ f') :
    Relates T.exact (Both T.Clear) (expandFilter enter scope f) (expandFilter enter' scope' f') := by
  cases hf with
  | splice hn => exact relates_expandSplice henter h hn
  | @plain op label value value' hvalue hnames =>
      refine (relates_expandString henter h hvalue).bind fun text _ htext => ?_
      rcases htext with ⟨rfl, htext⟩
      refine relates_self ?_
      dsimp only
      split
      · rename_i filter hfilter
        refine gives_ok fun f hf hfixes => ?_
        rcases List.mem_singleton.1 hf with rfl
        rw [ofParts?_eq_ok hfilter] at hfixes ⊢
        exact hnames (by simpa [LabelFilter.isNameFilter, FilterExpr.isNameFilter] using hfixes)
          text htext
      · exact gives_error _

theorem relates_expandGroup {fs fs' : List FilterExpr}
    (hfs : List.Forall₂ (FilterExpr.Revises T ρ) fs fs') :
    Relates T.exact (Both T.Clear) (expandGroup enter scope fs) (expandGroup enter' scope' fs') := by
  induction hfs with
  | nil => exact ⟨rfl, by simp [Terms.Clear]⟩
  | cons hf _ ih =>
      refine (relates_expandFilter henter h hf).bind fun here _ hhere => ?_
      rcases hhere with ⟨rfl, hhere⟩
      refine ih.bind fun there _ hthere => ?_
      rcases hthere with ⟨rfl, hthere⟩
      exact ⟨rfl, hhere.append hthere⟩

theorem relates_expandGroups (unique : Bool) {gs gs' : List (List FilterExpr)}
    (hgs : List.Forall₂ (List.Forall₂ (FilterExpr.Revises T ρ)) gs gs') :
    Relates T.exact (Both fun rs => ∀ r ∈ rs, T.Clear r) (expandGroups enter scope unique gs)
      (expandGroups enter' scope' unique gs') := by
  induction hgs with
  | nil => exact ⟨rfl, by simp⟩
  | cons hg _ ih =>
      refine (relates_expandGroup henter h hg).bind fun here _ hhere => ?_
      rcases hhere with ⟨rfl, hhere⟩
      refine ih.bind fun there _ hthere => ?_
      rcases hthere with ⟨rfl, hthere⟩
      refine ⟨rfl, List.forall_mem_cons.2 ⟨?_, hthere⟩⟩
      split
      · exact hhere.dedup
      · exact hhere

/-- Under two names there are the same groups. -/
theorem relates_expandGroups_named (unique : Bool) {n n' : String} (hne : n ≠ "") (hne' : n' ≠ "")
    (hn : ρ n n') {gs gs' : List (List FilterExpr)}
    (hgs : List.Forall₂ (List.Forall₂ (FilterExpr.Revises T ρ)) gs gs') :
    Relates T.exact
      (fun groups groups' => ∃ rs, (∀ r ∈ rs, T.Clear r) ∧
        groups = (Selector.named n rs).groups ∧ groups' = (Selector.named n' rs).groups)
      (expandGroups enter scope unique (SelectorExpr.named n gs).groups)
      (expandGroups enter' scope' unique (SelectorExpr.named n' gs').groups) := by
  induction hgs with
  | nil => exact ⟨[], by simp, rfl, rfl⟩
  | @cons g g' gs gs' hg _ ih =>
      have hgroup : Relates T.exact
          (fun here here' => ∃ r, T.Clear r ∧ here = .equal nameLabel n :: r ∧
            here' = .equal nameLabel n' :: r)
          (expandGroup enter scope (.named n :: g)) (expandGroup enter' scope' (.named n' :: g')) := by
        simp only [expandGroup, expandFilter_named]
        refine (relates_expandGroup henter h hg).bind fun r _ hr => ?_
        rcases hr with ⟨rfl, hr⟩
        exact ⟨r, hr, rfl, rfl⟩
      refine hgroup.bind fun here here' hhere => ?_
      rcases hhere with ⟨r, hr, rfl, rfl⟩
      refine ih.bind fun there there' hthere => ?_
      rcases hthere with ⟨rs, hrs, rfl, rfl⟩
      cases unique with
      | false => exact ⟨r :: rs, List.forall_mem_cons.2 ⟨hr, hrs⟩, rfl, rfl⟩
      | true =>
          -- The filter on the name stays first, and is taken out of the others.
          have hrest : r.filter (fun f => !(f == .equal nameLabel n)) =
              r.filter (fun f => !(f == .equal nameLabel n')) := by
            refine hr.filter_eq hne hne' (h.fair.same n n' hn)
              (P := fun n f => !(f == .equal nameLabel n)) fun n f hf => ?_
            simp only [Bool.not_eq_true', beq_eq_false_iff_ne]
            rintro rfl
            exact hf (isNameFilter_equal n) rfl
          refine ⟨LabelFilter.dedup (r.filter fun f => !(f == .equal nameLabel n)) :: rs,
            List.forall_mem_cons.2 ⟨?_, hrs⟩, ?_, ?_⟩
          · exact (hr.sublist fun f hf => (List.mem_filter.1 hf).1).dedup
          · simp [Selector.named, dedup_named]
          · simp [Selector.named, dedup_named, hrest]

end

/-! ## Names of metrics -/

section

variable {T : Terms}

theorem gives_mergeGroups_tame {n : String} {s : Selector} {more : List (List LabelFilter)}
    (hs : s.Tame T) (hmore : ∀ g ∈ more, T.Clear g) :
    Gives (Selector.Tame T) (mergeGroups n s more) := by
  unfold mergeGroups
  split
  · exact gives_error _
  · refine gives_ok ?_
    have hplain : ∀ rs : List (List LabelFilter), (∀ r ∈ rs, T.Clear r) → Selector.Tame T
        ⟨rs.flatMap fun g => more.map fun h => LabelFilter.dedup (g ++ h)⟩ := by
      intro rs hrs
      refine .plain fun r hr => ?_
      rcases List.mem_flatMap.1 hr with ⟨g, hg, hr⟩
      rcases List.mem_map.1 hr with ⟨h, hh, rfl⟩
      exact ((hrs g hg).append (hmore h hh)).dedup
    split
    · exact hplain [[]] (by simp [Terms.Clear])
    · cases hs with
      | plain hrs => exact hplain _ hrs
      | @named m rs hne hrs =>
          -- Each group starts with the name still.
          have hgroups : ((Selector.named m rs).groups.flatMap fun g =>
              more.map fun h => LabelFilter.dedup (g ++ h)) =
                (rs.flatMap fun r => more.map fun h => LabelFilter.dedup
                  ((r ++ h).filter fun f => !(f == .equal nameLabel m))).map
                    (.equal nameLabel m :: ·) := by
            simp [Selector.named, List.flatMap_map, List.map_flatMap, dedup_named,
              Function.comp_def]
          rw [hgroups]
          refine .named hne fun r hr => ?_
          rcases List.mem_flatMap.1 hr with ⟨g, hg, hr⟩
          rcases List.mem_map.1 hr with ⟨h, hh, rfl⟩
          exact (((hrs g hg).append (hmore h hh)).sublist fun f hf => (List.mem_filter.1 hf).1).dedup

theorem gives_addFilters_tame {n : String} {more : List (List LabelFilter)} {e : Expr}
    (hmore : ∀ g ∈ more, T.Clear g) (he : e.Tame T) :
    Gives (Expr.Tame T) (addFilters n more e) := by
  unfold addFilters
  split
  · exact gives_ok he
  · split
    · exact (gives_mergeGroups_tame he hmore).map fun s hs => hs
    · exact (gives_true _).map fun s _ => trivial
    · exact gives_error _

variable {n n' : String} (hn : T.Same n n')
include hn

theorem relates_mergeGroups (s : Selector) (more : List (List LabelFilter)) :
    Relates T.exact Eq (mergeGroups n s more) (mergeGroups n' s more) := by
  unfold mergeGroups
  split
  · intro hexact
    rw [hn.eq hexact]
  · exact rfl

/-- The name is told in errors only. -/
theorem relates_addFilters (more : List (List LabelFilter)) (e : Expr) :
    Relates T.exact Eq (addFilters n more e) (addFilters n' more e) := by
  unfold addFilters
  split
  · exact rfl
  · split
    · exact (relates_mergeGroups hn _ more).map fun s s' heq => by rw [heq]
    · exact (relates_mergeGroups hn _ more).map fun s s' heq => by rw [heq]
    · intro hexact
      rw [hn.eq hexact]

end

section

variable {T : Terms} {ρ : Naming} {enter enter' : Enter} {scope scope' : Scope}
  (henter : Enter.Relates T enter enter') (h : Scope.Revises T ρ scope scope')
include henter h

/-- Selectors of names that refer to the same, with the same filters besides. -/
theorem relates_expandName_of_name? {n n' : String} {s s' : Selector} (hn : ρ n n')
    (hs : s.name? = some n) (hs' : s'.name? = some n')
    (hbesides : filtersBesides n s = filtersBesides n' s')
    (hclear : ∀ g ∈ filtersBesides n' s', T.Clear g) (heq : n = n' → s = s') (htame : s.Tame T) :
    Relates T.exact (Both (Expr.Tame T)) (expandName enter scope s)
      (expandName enter' scope' s') := by
  unfold expandName
  rw [hs, hs']
  dsimp only
  rcases h.plain hn with ⟨hm, hm', hsame⟩ | ⟨m, m', hm, hm', hrev⟩
  · rw [hm, hm', ← heq hsame]
    exact ⟨rfl, htame⟩
  · rw [hm, hm', hbesides]
    refine (hrev.refer henter).bind fun e e' he => ?_
    rcases he with ⟨rfl, he⟩
    exact (relates_addFilters (h.fair.same n n' hn) _ e).both (gives_addFilters_tame hclear he)

theorem relates_expandName {s s' : Selector} (hs : s.Revises T ρ s') :
    Relates T.exact (Both (Expr.Tame T)) (expandName enter scope s)
      (expandName enter' scope' s') := by
  cases hs with
  | @plain rs hrs =>
      have htame : Selector.Tame T ⟨rs⟩ := .plain hrs
      cases hname : Selector.name? ⟨rs⟩ with
      | none =>
          simp only [expandName, hname]
          exact ⟨rfl, htame⟩
      | some n =>
          -- The name is one that filters may ask for, so it refers to the same in both scopes.
          have hn : T.names n := by
            rcases Selector.eq_named hname with ⟨hne, hsome, heq⟩
            rcases List.exists_mem_of_ne_nil _ hsome with ⟨g, hg⟩
            have hnamed : g ∈ (Selector.named n (rs.map (List.drop 1))).groups := heq ▸ hg
            rcases List.mem_map.1 hnamed with ⟨r, _, rfl⟩
            have hfixed := hrs _ hg _ List.mem_cons_self (isNameFilter_equal n)
            exact hfixed.resolve_left hne
          refine relates_expandName_of_name? henter h (h.fair.keeps n hn) hname hname rfl ?_
            (fun _ => rfl) htame
          intro g hg
          rcases List.mem_map.1 hg with ⟨r, hr, rfl⟩
          exact (hrs r hr).sublist fun f hf => (List.mem_filter.1 hf).1
  | @named n n' rs hne hne' hn hrs =>
      by_cases hempty : rs = []
      · subst hempty
        have htame : Selector.Tame T ⟨[]⟩ := .plain (by simp)
        exact ⟨rfl, htame⟩
      · -- The further filters are the same, whichever of the names they are not to ask for.
        have hbesides : ∀ m, filtersBesides m (.named m rs) =
            rs.map fun r => r.filter fun f => !(f.isNameFilter && f.value == m) := by
          intro m
          have hfixed : (LabelFilter.equal nameLabel m).value = m := rfl
          simp [filtersBesides, Selector.named, isNameFilter_equal, hfixed]
        have hsame : ∀ r ∈ rs, (r.filter fun f => !(f.isNameFilter && f.value == n)) =
            r.filter fun f => !(f.isNameFilter && f.value == n') := by
          intro r hr
          refine (hrs r hr).filter_eq hne hne' (h.fair.same n n' hn)
            (P := fun m f => !(f.isNameFilter && f.value == m)) fun m f hf => ?_
          cases hfilter : f.isNameFilter with
          | false => rfl
          | true => simpa using hf hfilter
        refine relates_expandName_of_name? henter h hn (Selector.name?_named hne hempty)
          (Selector.name?_named hne' hempty) ?_ ?_ ?_ (.named hne hrs)
        · rw [hbesides, hbesides]
          exact List.map_congr_left hsame
        · intro g hg
          rw [hbesides] at hg
          rcases List.mem_map.1 hg with ⟨r, hr, rfl⟩
          exact (hrs r hr).sublist fun f hf => (List.mem_filter.1 hf).1
        · rintro rfl
          rfl

omit henter h in
theorem any_isSplice_eq {gs gs' : List (List FilterExpr)}
    (hgs : List.Forall₂ (List.Forall₂ (FilterExpr.Revises T ρ)) gs gs') :
    (gs.any fun g => g.any FilterExpr.isSplice) = gs'.any fun g => g.any FilterExpr.isSplice := by
  induction hgs with
  | nil => rfl
  | cons hg _ ih =>
      have hgroup : ∀ {g g' : List FilterExpr}, List.Forall₂ (FilterExpr.Revises T ρ) g g' →
          g.any FilterExpr.isSplice = g'.any FilterExpr.isSplice := by
        intro g g' hg
        induction hg with
        | nil => rfl
        | cons hf _ ih => cases hf <;> simp [ih]
      rw [List.any_cons, List.any_cons, hgroup hg, ih]

theorem relates_expandSelector {s s' : SelectorExpr} (hs : s.Revises T ρ s') :
    Relates T.exact (Both (Expr.Tame T)) (expandSelector enter scope s)
      (expandSelector enter' scope' s') := by
  unfold expandSelector
  cases hs with
  | plain hgs =>
      dsimp only
      rw [any_isSplice_eq hgs]
      refine (relates_expandGroups henter h _ hgs).bind fun rs _ hrs => ?_
      rcases hrs with ⟨rfl, hrs⟩
      exact relates_expandName henter h (.plain hrs)
  | @named n n' gs gs' hne hne' hn hgs =>
      have hunique : ∀ m (gs : List (List FilterExpr)),
          ((SelectorExpr.named m gs).groups.any fun g => g.any FilterExpr.isSplice) =
            gs.any fun g => g.any FilterExpr.isSplice := by
        intro m gs
        simp [SelectorExpr.named, FilterExpr.named, Function.comp_def]
      dsimp only
      rw [hunique, hunique, any_isSplice_eq hgs]
      refine (relates_expandGroups_named henter h _ hne hne' hn hgs).bind fun groups groups' hrs => ?_
      rcases hrs with ⟨rs, hrs, rfl, rfl⟩
      exact relates_expandName henter h (.named hne hne' hn hrs)

end

end SeriesQuery
