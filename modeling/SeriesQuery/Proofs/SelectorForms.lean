import SeriesQuery.Label.Selector

/-!
# The two forms of selectors

Before templates are expanded a selector is a `SelectorExpr`, after that a `Selector`.  Both have a text
and a name of their own.  A plain selector that is taken as one with templates keeps both, and is given
back when the templates are resolved, unless one of its patterns is not well formed
(`SelectorExpr.ofSelector_agrees`).
-/

namespace SeriesQuery

open Text

/-! ## Filters -/

@[simp] theorem StringExpr.literal?_ofLiteral (value : String) :
    (StringExpr.ofLiteral value).literal? = some value := by
  simp [ofLiteral, literal?, joinLiterals]

@[simp] theorem StringExpr.render_ofLiteral (value : String) :
    (StringExpr.ofLiteral value).render = quote value := by
  simp [ofLiteral, render, Segment.render, String.intercalate_singleton]

namespace FilterExpr

variable (f : LabelFilter)

@[simp] theorem render_ofFilter : (ofFilter f).render = f.render := by
  simp [render, ofFilter, LabelFilter.render]

@[simp] theorem isNameFilter_ofFilter : (ofFilter f).isNameFilter = f.isNameFilter := by
  simp [isNameFilter, ofFilter, LabelFilter.isNameFilter]

@[simp] theorem isResolved_ofFilter : (ofFilter f).isResolved := by
  simp [isResolved, ofFilter, StringExpr.isLiteral, StringExpr.ofLiteral]

theorem toFilter_ofFilter : (ofFilter f).toFilter = f.check.mapError .pattern := by
  simp [toFilter, ofFilter, LabelFilter.ofParts?]

end FilterExpr

/-! ## Names -/

theorem commonName_map {α β : Type} {nameOf : List α → Option String} {nameOf' : List β → Option String}
    {form : List α → List β} (h : ∀ g, nameOf' (form g) = nameOf g) (gs : List (List α)) :
    commonName nameOf' (gs.map form) = commonName nameOf gs := by
  cases gs with
  | nil => rfl
  | cons first rest => simp [commonName, h, List.all_map, Function.comp_def]

theorem SelectorExpr.groupName?_ofFilter (g : List LabelFilter) :
    SelectorExpr.groupName? (g.map FilterExpr.ofFilter) = Selector.groupName? g := by
  cases g with
  | nil => rfl
  | cons f g =>
      have hvalue : (FilterExpr.ofFilter f).value.literal? = some f.value :=
        StringExpr.literal?_ofLiteral f.value
      simp only [List.map_cons, groupName?, Selector.groupName?, FilterExpr.isNameFilter_ofFilter, hvalue]
      cases f.isNameFilter with
      | false => rfl
      | true => simp [Option.filter]

theorem SelectorExpr.name?_ofSelector (s : Selector) : (ofSelector s).name? = s.name? :=
  commonName_map groupName?_ofFilter s.groups

/-! ## Texts -/

/-- Groups that are empty make no difference to the text. -/
theorem renderSelector_filter (name : Option String) (groups : List (List String)) :
    renderSelector name (groups.filter fun g => !g.isEmpty) = renderSelector name groups := by
  simp [renderSelector]

theorem SelectorExpr.render_ofSelector (s : Selector) : (ofSelector s).render = s.render := by
  have hgroups : (ofSelector s).groups = s.groups.map (List.map FilterExpr.ofFilter) := rfl
  unfold SelectorExpr.render Selector.render Selector.writtenGroups
  -- one side leaves out the empty groups itself, the other leaves it to the printing
  rw [name?_ofSelector, hgroups, ← renderSelector_filter]
  simp [List.filter_map, Function.comp_def, ← List.map_drop]

/-! ## Resolving -/

/-- The first filter whose pattern is not well formed. -/
def Selector.firstInvalid? (s : Selector) : Option LabelFilter :=
  s.groups.flatten.find? fun f => !f.isValid

/-- The result, unless a filter was found whose pattern is not well formed. -/
def unlessInvalid {α : Type} (result : α) : Option LabelFilter → Except FilterError α
  | none => .ok result
  | some f => .error (.pattern ⟨f.value, f.wholePattern⟩)

/-- A walk over a list ends at the first entry with such a filter. -/
theorem mapM_unlessInvalid {α : Type} {check : α → Except FilterError α} {invalid? : α → Option LabelFilter}
    (h : ∀ x, check x = unlessInvalid x (invalid? x)) (xs : List α) :
    xs.mapM check = unlessInvalid xs (xs.findSome? invalid?) := by
  induction xs with
  | nil => rfl
  | cons x xs ih =>
      rw [List.mapM_cons, h, ih, List.findSome?_cons]
      cases invalid? x with
      | some f => rfl
      | none => cases xs.findSome? invalid? <;> rfl

theorem FilterExpr.toFilter_ofFilter_eq (f : LabelFilter) :
    (ofFilter f).toFilter = unlessInvalid f (Option.guard (fun f => !f.isValid) f) := by
  rw [toFilter_ofFilter]
  cases hvalid : f.isValid with
  | true =>
      have hcheck : f.check = .ok f := if_pos hvalid
      have hguard : Option.guard (fun f => !f.isValid) f = none := by simp [hvalid]
      rw [hcheck, hguard]
      rfl
  | false =>
      have hcheck : f.check = .error ⟨f.value, f.wholePattern⟩ := if_neg (by simp [hvalid])
      have hguard : Option.guard (fun f => !f.isValid) f = some f := by simp [hvalid]
      rw [hcheck, hguard]
      rfl

theorem mapM_toFilter_ofFilter (g : List LabelFilter) :
    (g.map FilterExpr.ofFilter).mapM FilterExpr.toFilter =
      unlessInvalid g (g.find? fun f => !f.isValid) := by
  rw [List.mapM_map, ← List.findSome?_guard]
  exact mapM_unlessInvalid FilterExpr.toFilter_ofFilter_eq g

theorem SelectorExpr.toSelector_ofSelector_eq (s : Selector) :
    (ofSelector s).toSelector = unlessInvalid s s.firstInvalid? := by
  have hgroups : (ofSelector s).groups.mapM (fun g => g.mapM FilterExpr.toFilter) =
      unlessInvalid s.groups s.firstInvalid? := by
    rw [Selector.firstInvalid?, List.find?_flatten, ofSelector, List.mapM_map]
    exact mapM_unlessInvalid mapM_toFilter_ofFilter s.groups
  unfold toSelector
  rw [hgroups]
  cases s.firstInvalid? <;> rfl

theorem Selector.firstInvalid?_eq_none {s : Selector} :
    s.firstInvalid? = none ↔
      ∀ g ∈ s.groups, ∀ f ∈ g, f.op.isPattern → Pattern.isValid f.wholePattern := by
  simp [firstInvalid?, LabelFilter.isValid]

theorem SelectorExpr.toSelector_ofSelector {s : Selector} (h : ∀ g ∈ s.groups, ∀ f ∈ g, f.isValid) :
    (ofSelector s).toSelector = .ok s := by
  have hnone : s.firstInvalid? = none := by simpa [Selector.firstInvalid?] using h
  rw [toSelector_ofSelector_eq, hnone]
  rfl

theorem SelectorExpr.isResolved_ofSelector (s : Selector) : (ofSelector s).isResolved := by
  simp [isResolved, ofSelector]

/-! ## Both forms -/

/-- A plain selector keeps its text and its name as a selector with templates, and refers to none.
Resolving gives it back where the patterns of all filters are well formed; otherwise it fails with the
error of the first filter whose pattern is not. -/
theorem SelectorExpr.ofSelector_agrees (s : Selector) :
    (ofSelector s).render = s.render ∧ (ofSelector s).name? = s.name? ∧ (ofSelector s).isResolved ∧
      (ofSelector s).toSelector = unlessInvalid s s.firstInvalid? ∧
      (s.firstInvalid? = none ↔
        ∀ g ∈ s.groups, ∀ f ∈ g, f.op.isPattern → Pattern.isValid f.wholePattern) :=
  ⟨render_ofSelector s, name?_ofSelector s, isResolved_ofSelector s, toSelector_ofSelector_eq s,
    Selector.firstInvalid?_eq_none⟩

end SeriesQuery
