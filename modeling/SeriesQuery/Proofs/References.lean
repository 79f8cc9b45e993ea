import SeriesQuery.Proofs.PrintedSelectors

/-!
# Selectors that refer to templates

A selector refers to a template or an argument by its name, and puts further filters to what that
stands for; a lone name among the filters puts those of another selector in its place.

The further filters are a conjunction with the selector of the template: its groups are combined
with theirs, each with each, so that a map passes the result when it passes both
(`Selector.Merges`).  Only one of the two may have more than one group.
-/

namespace SeriesQuery

/-- A selector, or a rollup over it. -/
def Expr.over (window : Option (Range × Option Expr)) (s : Selector) : Expr :=
  match window with
  | none => .selector s
  | some (range, time) => .rollup (.selector s) range time

/-- The expression is a selector that is this one when the templates of its filters are expanded. -/
def Expr.Resolves (enter : Enter) (scope : Scope) (s : Selector) : Expr → Prop
  | .selector t => t = s
  | .selectorExpr x =>
      expandGroups enter scope (x.groups.any fun g => g.any FilterExpr.isSplice) x.groups =
        .ok s.groups
  | _ => False

/-- The selector selects what the template does where one of the further groups holds, and no group
has a filter twice. -/
structure Selector.Merges (merged template : Selector) (more : List (List LabelFilter)) : Prop where
  passes : ∀ fits m, merged.Passes fits m ↔
    template.Passes fits m ∧ ∃ g ∈ more, ∀ f ∈ g, f.Passes fits m
  nodup : ∀ g ∈ merged.groups, g.Nodup

variable {enter : Enter} {scope : Scope} {name : String} {s template : Selector}
  {more : List (List LabelFilter)} {value e : Expr} {meaning : Meaning} {f : FilterExpr}
  {before after : List FilterExpr}

/-! ## Further filters -/

/-- No groups pass what a group without filters passes. -/
theorem Selector.passes_iff_exists {fits : String → String → Prop} {m : LabelMap} :
    s.Passes fits m ↔ ∃ g ∈ (if s.groups.isEmpty then [[]] else s.groups),
      ∀ f ∈ g, f.Passes fits m := by
  cases hgroups : s.groups with
  | nil => simp [Selector.Passes, hgroups]
  | cons g gs => simp [Selector.Passes, hgroups]

theorem mergeGroups_of_alternatives (htemplate : 1 < template.groups.length)
    (hmore : 1 < more.length) :
    mergeGroups name template more = expansionError (.bothWithOr name template.render) := by
  rw [mergeGroups, if_pos (by simp [Selector.hasAlternatives, htemplate, hmore])]

/-- Each group of the template with each of the further ones is the conjunction of both. -/
theorem mergeGroups_merges (hsome : more ≠ [])
    (hfew : ¬ (1 < template.groups.length ∧ 1 < more.length)) :
    ∃ merged, mergeGroups name template more = .ok merged ∧ merged.Merges template more := by
  rw [mergeGroups, if_neg (by simpa [Selector.hasAlternatives] using hfew)]
  refine ⟨_, rfl, ?_, ?_⟩
  · intro fits m
    rw [Selector.passes_iff_exists (s := template)]
    constructor
    · rintro (hnone | ⟨g, hg, hpasses⟩)
      · -- There are groups on both sides, so there is one of the two.
        have hgroups : (if template.groups.isEmpty then [[]] else template.groups) ≠ [] := by
          split
          · exact List.cons_ne_nil _ _
          · rename_i hfull
            exact fun hempty => hfull (List.isEmpty_iff.2 hempty)
        rcases List.exists_mem_of_ne_nil _ hgroups with ⟨here, hhere⟩
        have hmap := List.flatMap_eq_nil_iff.1 hnone here hhere
        exact absurd (List.map_eq_nil_iff.1 hmap) hsome
      · rcases List.mem_flatMap.1 hg with ⟨here, hhere, hg⟩
        rcases List.mem_map.1 hg with ⟨there, hthere, rfl⟩
        simp only [LabelFilter.dedup, List.mem_eraseDups, List.forall_mem_append] at hpasses
        exact ⟨⟨here, hhere, hpasses.1⟩, there, hthere, hpasses.2⟩
    · rintro ⟨⟨here, hhere, hpasses⟩, there, hthere, hmore⟩
      refine .inr ⟨LabelFilter.dedup (here ++ there), ?_, ?_⟩
      · exact List.mem_flatMap.2 ⟨here, hhere, List.mem_map_of_mem hthere⟩
      · simp only [LabelFilter.dedup, List.mem_eraseDups, List.forall_mem_append]
        exact ⟨hpasses, hmore⟩
  · intro g hg
    rcases List.mem_flatMap.1 hg with ⟨_, _, hg⟩
    rcases List.mem_map.1 hg with ⟨_, _, rfl⟩
    exact nodup_eraseDups _

theorem ne_nil_of_not_all_isEmpty (h : ¬ more.all List.isEmpty) : more ≠ [] := by
  rintro rfl
  exact h rfl

theorem addFilters_over {window : Option (Range × Option Expr)} (h : ¬ more.all List.isEmpty) :
    addFilters name more (.over window template) =
      Expr.over window <$> mergeGroups name template more := by
  unfold addFilters
  rw [if_neg h]
  rcases window with _ | ⟨range, time⟩ <;> rfl

theorem addFilters_other (h : ¬ more.all List.isEmpty)
    (hvalue : ∀ window template, value ≠ .over window template) :
    addFilters name more value = expansionError (.takesNoFilters name value.render) := by
  unfold addFilters
  rw [if_neg h]
  split
  · rename_i template
    exact absurd rfl (hvalue none template)
  · rename_i template range time
    exact absurd rfl (hvalue (some (range, time)) template)
  · rfl

theorem expandWith_of_resolves (h : e.Resolves enter scope s) :
    e.expandWith enter scope = expandName enter scope s := by
  unfold Expr.Resolves at h
  split at h
  · rw [← h, Expr.expandWith]
  · rw [Expr.expandWith, expandSelector, h]
    rfl
  · exact absurd h id

/-- The name of a selector is replaced by what it stands for, with the other filters added. -/
theorem expandWith_of_meaning (h : e.Resolves enter scope s) (hname : s.name? = some name)
    (hmeaning : plainMeaning scope name = some meaning) (hvalue : refer enter meaning = .ok value) :
    e.expandWith enter scope = addFilters name (filtersBesides name s) value := by
  rw [expandWith_of_resolves h]
  simp only [expandName, hname, hmeaning, hvalue]
  rfl

/-! ## Filters in the place of a name -/

theorem expandFilter_splice (hf : f.isSplice) (hmeaning : scope.lookup f.label = some meaning)
    (hvalue : refer enter meaning = .ok value) :
    expandFilter enter scope f = filtersOf f.label value := by
  rw [expandFilter, if_pos hf, expandSplice, hmeaning]
  simp only [hvalue]
  rfl

theorem filtersOf_error (h : template.name?.isSome ∨ 1 < template.groups.length) :
    ∃ cause, filtersOf name (.selector template) = .error cause := by
  unfold filtersOf
  by_cases hname : template.name?.isSome
  · exact ⟨_, if_pos hname⟩
  · have hmany : template.hasAlternatives := decide_eq_true (h.resolve_left hname)
    simp only [hname, hmany, if_true]
    exact ⟨_, rfl⟩

theorem filtersOf_selector (h : ¬ (template.name?.isSome ∨ 1 < template.groups.length)) :
    filtersOf name (.selector template) = .ok template.groups.flatten := by
  rcases not_or.1 h with ⟨hname, hfew⟩
  have hone : template.hasAlternatives = false := decide_eq_false hfew
  simp only [filtersOf, hname, hone]
  match hgroups : template.groups with
  | [] => rfl
  | [g] => simp
  | g :: h :: gs => simp [hgroups] at hfew

theorem expandGroup_append (fs gs : List FilterExpr) :
    expandGroup enter scope (fs ++ gs) = do
      let here ← expandGroup enter scope fs
      let there ← expandGroup enter scope gs
      return here ++ there := by
  induction fs with
  | nil => exact (bind_pure (expandGroup enter scope gs)).symm
  | cons f fs ih =>
      simp only [List.cons_append, expandGroup, ih, bind_assoc, pure_bind, List.append_assoc]

theorem expandGroups_append {unique : Bool} (fs gs : List (List FilterExpr)) :
    expandGroups enter scope unique (fs ++ gs) = do
      let here ← expandGroups enter scope unique fs
      let there ← expandGroups enter scope unique gs
      return here ++ there := by
  induction fs with
  | nil => exact (bind_pure (expandGroups enter scope unique gs)).symm
  | cons f fs ih =>
      simp only [List.cons_append, expandGroups, ih, bind_assoc, pure_bind]

/-- The filters of a template stand where its name does. -/
theorem expandGroup_splice (hf : f.isSplice) (hmeaning : scope.lookup f.label = some meaning)
    (hvalue : refer enter meaning = .ok (.selector template)) :
    expandGroup enter scope (before ++ f :: after) = do
      let left ← expandGroup enter scope before
      let filters ← filtersOf f.label (.selector template)
      let right ← expandGroup enter scope after
      return left ++ (filters ++ right) := by
  simp only [expandGroup_append, expandGroup, expandFilter_splice hf hmeaning hvalue, bind_assoc,
    pure_bind]

/-- A selector with the name of a template among its filters is expanded group by group, each
without repetitions. -/
theorem expandSelector_splice (hf : f.isSplice) (earlier later : List (List FilterExpr)) :
    expandSelector enter scope ⟨earlier ++ (before ++ f :: after) :: later⟩ = (do
      let first ← expandGroups enter scope true earlier
      let here ← expandGroup enter scope (before ++ f :: after)
      let last ← expandGroups enter scope true later
      expandName enter scope ⟨first ++ LabelFilter.dedup here :: last⟩) := by
  have hsplice : ((earlier ++ (before ++ f :: after) :: later).any fun g =>
      g.any FilterExpr.isSplice) = true := by
    simp [hf]
  simp only [expandSelector, hsplice, expandGroups_append, expandGroups, if_true, bind_assoc,
    pure_bind]

/-! ## References -/

/-- How references to selectors are expanded.  A selector that refers by its name to an expression
is this expression, if there are no further filters, and with them it is the conjunction of both,
where the expression is a selector or a rollup over one and not both have several groups.  A name
among the filters stands for the only group of the selector that it refers to. -/
theorem expandWith_references (enter : Enter) (scope : Scope) :
    (∀ e s name meaning value, Expr.Resolves enter scope s e → s.name? = some name →
      plainMeaning scope name = some meaning → refer enter meaning = .ok value →
      let more := filtersBesides name s
      (more.all List.isEmpty → e.expandWith enter scope = .ok value) ∧
      (¬ more.all List.isEmpty →
        (∀ window template, value = .over window template →
          (1 < template.groups.length ∧ 1 < more.length →
            e.expandWith enter scope = expansionError (.bothWithOr name template.render)) ∧
          (¬ (1 < template.groups.length ∧ 1 < more.length) → ∃ merged,
            e.expandWith enter scope = .ok (.over window merged) ∧
              merged.Merges template more)) ∧
        ((∀ window template, value ≠ .over window template) →
          e.expandWith enter scope = expansionError (.takesNoFilters name value.render)))) ∧
    (∀ f meaning template, f.isSplice → scope.lookup f.label = some meaning →
      refer enter meaning = .ok (.selector template) →
      ∀ earlier before after later,
        let e := Expr.selectorExpr ⟨earlier ++ (before ++ f :: after) :: later⟩
        (template.name?.isSome ∨ 1 < template.groups.length →
          ∃ cause, e.expandWith enter scope = .error cause) ∧
        (¬ (template.name?.isSome ∨ 1 < template.groups.length) →
          e.expandWith enter scope = do
            let first ← expandGroups enter scope true earlier
            let left ← expandGroup enter scope before
            let right ← expandGroup enter scope after
            let last ← expandGroups enter scope true later
            expandName enter scope
              ⟨first ++ LabelFilter.dedup (left ++ template.groups.flatten ++ right) ::
                last⟩)) := by
  refine ⟨?names, ?splices⟩
  case names =>
    intro e s name meaning value hresolves hname hmeaning hvalue more
    -- What is left to look at is how further filters are added to the value.
    have hexpand := expandWith_of_meaning hresolves hname hmeaning hvalue
    refine ⟨?_, fun hmore => ⟨?_, ?_⟩⟩
    · intro hnone
      rw [hexpand]
      exact if_pos hnone
    · rintro window template rfl
      rw [hexpand, addFilters_over hmore]
      refine ⟨?_, fun hfew => ?_⟩
      · rintro ⟨htemplate, hmany⟩
        rw [mergeGroups_of_alternatives htemplate hmany]
        rfl
      · rcases mergeGroups_merges (ne_nil_of_not_all_isEmpty hmore) hfew with
          ⟨merged, hmerged, hmeans⟩
        refine ⟨merged, ?_, hmeans⟩
        rw [hmerged]
        rfl
    · intro hother
      rw [hexpand, addFilters_other hmore hother]
  case splices =>
    intro f meaning template hf hmeaning hvalue earlier before after later e
    have hexpand : e.expandWith enter scope = _ := expandSelector_splice hf earlier later
    rw [expandGroup_splice hf hmeaning hvalue] at hexpand
    refine ⟨fun hrefused => ?_, fun hspliced => ?_⟩
    · rcases filtersOf_error hrefused with ⟨cause, hcause⟩
      rw [hexpand, hcause]
      -- What stands before the name may fail as well, and then first.
      cases expandGroups enter scope true earlier with
      | error first => exact ⟨first, rfl⟩
      | ok first =>
          cases expandGroup enter scope before with
          | error left => exact ⟨left, rfl⟩
          | ok left => exact ⟨cause, rfl⟩
    · rw [hexpand, filtersOf_selector hspliced]
      simp only [bind_assoc, List.append_assoc]
      rfl

/-- The groups that failures may belong to. -/
def failures : Selector :=
  ⟨[[.equal "code" "5"], [.equal "code" "6"]]⟩

/-- A template for a job, and one for the failures within five minutes. -/
def jobTemplates : Scope :=
  [.templates [.mk "job" [] (.selector ⟨[[.equal "job" "a"]]⟩),
    .mk "failed" [] (.over (some (⟨some ⟨"5m", false⟩, none, none, false⟩, none)) failures)]]

/-- The failures of a job, and a job between two filters, of which the later is in its template. -/
theorem expandWith_references_jobTemplates :
    (∃ merged,
      (Expr.selector ⟨[[.equal nameLabel "failed", .equal "job" "a"]]⟩).expandWith
          (Expr.enterTemplate 1) jobTemplates =
        .ok (.over (some (⟨some ⟨"5m", false⟩, none, none, false⟩, none)) merged) ∧
      merged.Merges failures [[.equal "job" "a"]]) ∧
    (Expr.selectorExpr ⟨[[.ofFilter (.equal "env" "b"), .splice "job",
        .ofFilter (.equal "job" "a")]]⟩).expandWith (Expr.enterTemplate 1) jobTemplates =
      .ok (.selector ⟨[[.equal "env" "b", .equal "job" "a"]]⟩) := by
  rcases expandWith_references (Expr.enterTemplate 1) jobTemplates with ⟨hnames, hsplices⟩
  refine ⟨?_, ?_⟩
  · have hmerged := hnames (.selector ⟨[[.equal nameLabel "failed", .equal "job" "a"]]⟩) _ "failed"
      _ _ rfl (by decide) rfl rfl
    exact (hmerged.2 (by decide)).1 _ failures rfl |>.2 (by decide)
  · have hspliced := hsplices (.splice "job") _ ⟨[[.equal "job" "a"]]⟩ rfl rfl rfl []
      [.ofFilter (.equal "env" "b")] [.ofFilter (.equal "job" "a")] []
    exact (hspliced.2 (by decide)).trans rfl

end SeriesQuery
