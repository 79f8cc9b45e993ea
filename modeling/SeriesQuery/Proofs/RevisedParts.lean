import SeriesQuery.Proofs.RevisedScopes

/-!
# Expansion of the parts of revisions

The functions of `Template.Expand` on the parts of an expression and of a revision, in scopes where
names refer to the same: both results are the same, or both are missing.  For strings and selectors
the results keep to the terms too, so that the names of metrics that are computed from them mean the
same as well.
-/

namespace SeriesQuery

/-! ## Names that are the same or apart -/

section

variable {T : Terms} {ρ : Naming}

theorem Terms.Same.eq {n n' : String} (h : T.Same n n') (hexact : T.exact = true) : n = n' := by
  rcases h with heq | ⟨hloose, _⟩
  · exact heq
  · rw [hexact] at hloose
    cases hloose

theorem Template.Revises.signature_eq {t t' : Template} (h : t.Revises T ρ t')
    (hexact : T.exact = true) : t.signature = t'.signature := by
  have hparams : List.Forall₂ (fun x x' : String => x = x') t.params t'.params := by
    refine List.forall₂_iff_zip.2 ⟨h.length, fun hmem => ?_⟩
    exact (h.same _ hmem).eq hexact
  rw [List.forall₂_eq_eq_eq] at hparams
  rw [Template.signature, Template.signature, h.name, hparams]

theorem StringExpr.Revises.eq {s s' : StringExpr} (h : s.Revises ρ s') (hρ : ρ.Fair T)
    (hexact : T.exact = true) : s = s' := by
  rcases s with ⟨segments⟩
  rcases s' with ⟨segments'⟩
  have hsegments : List.Forall₂ (fun a b : Segment => a = b) segments segments' := by
    refine List.Forall₂.imp (fun a b hab => ?_) h
    cases hab with
    | literal => rfl
    | ident hn => rw [(hρ.same _ _ hn).eq hexact]
  rw [List.forall₂_eq_eq_eq] at hsegments
  rw [hsegments]

end

/-! ## References -/

/-- Bodies of templates expand to the same as their revisions. -/
def Enter.Relates (T : Terms) (enter enter' : Enter) : Prop :=
  ∀ name ρ scope scope' body body', Scope.Revises T ρ scope scope' → body.Revises T ρ body' →
    SeriesQuery.Relates T.exact (Both (Expr.Tame T)) (enter name scope body)
      (enter' name scope' body')

theorem Selector.tame_ofName (T : Terms) (n : String) : (Selector.ofName n).Tame T := by
  by_cases hempty : n = ""
  · refine .plain fun r hr f hf _ => .inl ?_
    rcases List.mem_singleton.1 hr with rfl
    rcases List.mem_singleton.1 hf with rfl
    exact hempty
  · have hclear : ∀ r ∈ [([] : List LabelFilter)], T.Clear r := by simp [Terms.Clear]
    exact .named hempty hclear

section

variable {T : Terms} {enter enter' : Enter} (henter : Enter.Relates T enter enter')
include henter

theorem relates_instantiate {ρ : Naming} {t t' : Template} {scope scope' : Scope}
    {args : List Expr} (ht : t.Revises T ρ t') (hscope : Scope.Revises T ρ scope scope')
    (hargs : ∀ e ∈ args, e.Tame T) :
    Relates T.exact (Both (Expr.Tame T)) (instantiate enter t scope args)
      (instantiate enter' t' scope' args) := by
  have hparams : t.params.isEmpty = t'.params.isEmpty := by
    rw [Bool.eq_iff_iff, List.isEmpty_iff_length_eq_zero, List.isEmpty_iff_length_eq_zero, ht.length]
  have hbody := ht.body
  unfold instantiate
  rw [← ht.length, ← hparams, ← ht.name]
  split
  · intro hexact
    rw [ht.signature_eq hexact]
  · rename_i hcount
    split
    · rename_i hempty
      rw [List.isEmpty_iff.1 hempty] at hbody
      exact henter t.name ρ scope scope' t.body t'.body hscope hbody
    · have hlength : t.params.length = args.length := by omega
      exact henter t.name _ _ _ t.body t'.body
        (hscope.arguments ht.length hlength ht.same hargs) hbody

variable {n n' : String} {meaning meaning' : Meaning}

theorem Meaning.Revises.refer (h : Meaning.Revises T n n' meaning meaning') :
    Relates T.exact (Both (Expr.Tame T)) (refer enter meaning) (refer enter' meaning') := by
  cases h with
  | @template ρ t t' scope scope' hscope ht =>
      have hparams : t.params.isEmpty = t'.params.isEmpty := by
        rw [Bool.eq_iff_iff, List.isEmpty_iff_length_eq_zero, List.isEmpty_iff_length_eq_zero,
          ht.length]
      simp only [SeriesQuery.refer, ← hparams]
      split
      · exact relates_instantiate henter ht hscope (by simp)
      · rw [← ht.name]
        exact ⟨rfl, Selector.tame_ofName T t.name⟩
  | value _ he => exact ⟨rfl, he⟩

theorem Meaning.Revises.call (h : Meaning.Revises T n n' meaning meaning') {args : List Expr}
    (hargs : ∀ e ∈ args, e.Tame T) :
    Relates T.exact (Both (Expr.Tame T)) (callMeaning enter n args meaning)
      (callMeaning enter' n' args meaning') := by
  cases h with
  | template hscope ht => exact relates_instantiate henter ht hscope hargs
  | value hsame he =>
      simp only [callMeaning]
      split
      · exact ⟨rfl, he⟩
      · intro hexact
        rw [hsame.eq hexact]

end

/-! ## Durations -/

section

variable {T : Terms}

theorem relates_durationOf {n n' : String} (hn : T.Same n n') (e : Expr) :
    Relates T.exact Eq (durationOf n e) (durationOf n' e) := by
  unfold durationOf
  split
  · exact rfl
  · exact rfl
  · intro hexact
    rw [hn.eq hexact]

variable {ρ : Naming} {enter enter' : Enter} {scope scope' : Scope}
  (henter : Enter.Relates T enter enter') (h : Scope.Revises T ρ scope scope')
include henter h

theorem relates_expandDuration {d d' : Duration} (hd : d.Revises ρ d') :
    Relates T.exact Eq (expandDuration enter scope d)
      (expandDuration enter' scope' d') := by
  cases hd with
  | span htext =>
      simp only [expandDuration, Duration.templateName?, htext]
      exact rfl
  | @template n n' hn =>
      simp only [expandDuration, Duration.templateName?, if_true]
      rcases h.lookup hn with ⟨hm, hm', rfl⟩ | ⟨m, m', hm, hm', hrev⟩
      · rw [hm, hm']
        exact fun _ => rfl
      · rw [hm, hm']
        refine (hrev.refer henter).bind fun e e' he => ?_
        rcases he with ⟨rfl, _⟩
        exact relates_durationOf (h.fair.same n n' hn) e

theorem relates_expandDuration? {d d' : Option Duration}
    (hd : Option.Rel (Duration.Revises ρ) d d') :
    Relates T.exact Eq (expandDuration? enter scope d)
      (expandDuration? enter' scope' d') := by
  cases hd with
  | none => exact rfl
  | some hd => exact (relates_expandDuration henter h hd).map fun d d' heq => by rw [heq]

theorem relates_expandRange {r r' : Range} (hr : r.Revises ρ r') :
    Relates T.exact Eq (expandRange enter scope r)
      (expandRange enter' scope' r') := by
  refine (relates_expandDuration? henter h hr.window).bind fun window _ hwindow => ?_
  refine (relates_expandDuration? henter h hr.step).bind fun step _ hstep => ?_
  refine (relates_expandDuration? henter h hr.offset).bind fun offset _ hoffset => ?_
  subst hwindow hstep hoffset
  rw [hr.inheritStep]
  exact rfl

end

/-! ## Labels -/

section

variable {T : Terms} {n n' : String} (hn : T.Same n n')
include hn

theorem relates_labelsOfList (es : List Expr) :
    Relates T.exact Eq (labelsOfList n es) (labelsOfList n' es) := by
  induction es with
  | nil => exact rfl
  | cons e es ih =>
      unfold labelsOfList
      split
      · exact ih.map fun labels labels' heq => by rw [heq]
      · intro hexact
        rw [hn.eq hexact]

theorem relates_labelsOf (e : Expr) :
    Relates T.exact Eq (labelsOf n e) (labelsOf n' e) := by
  unfold labelsOf
  split
  · exact relates_labelsOfList hn _
  · split
    · exact rfl
    · intro hexact
      rw [hn.eq hexact]

end

section

variable {T : Terms} {ρ : Naming} {enter enter' : Enter} {scope scope' : Scope}
  (henter : Enter.Relates T enter enter') (h : Scope.Revises T ρ scope scope')
include henter h

theorem relates_expandLabel {n n' : String} (hn : ρ n n') :
    Relates T.exact Eq (expandLabel enter scope n) (expandLabel enter' scope' n') := by
  unfold expandLabel
  rcases h.plain hn with ⟨hm, hm', rfl⟩ | ⟨m, m', hm, hm', hrev⟩
  · rw [hm, hm']
    exact rfl
  · rw [hm, hm']
    refine (hrev.refer henter).bind fun e e' he => ?_
    rcases he with ⟨rfl, _⟩
    exact relates_labelsOf (h.fair.same n n' hn) e

theorem relates_expandLabelList {labels labels' : List String}
    (hlabels : List.Forall₂ ρ labels labels') :
    Relates T.exact Eq (expandLabelList enter scope labels)
      (expandLabelList enter' scope' labels') := by
  induction hlabels with
  | nil => exact rfl
  | cons hlabel _ ih =>
      refine (relates_expandLabel henter h hlabel).bind fun here _ hhere => ?_
      refine ih.bind fun there _ hthere => ?_
      subst hhere hthere
      exact rfl

theorem relates_expandLabels {labels labels' : List String}
    (hlabels : List.Forall₂ ρ labels labels') :
    Relates T.exact Eq (expandLabels enter scope labels) (expandLabels enter' scope' labels') :=
  (relates_expandLabelList henter h hlabels).map fun _ _ heq => by rw [heq]

end

/-! ## Strings -/

section

variable {T : Terms} {ρ : Naming}

theorem relates_stringOf {n n' : String} {s s' : StringExpr} {e : Expr} (hn : T.Same n n')
    (hs : T.exact = true → s = s') (he : e.Tame T) :
    Relates T.exact (Both fun o => ∀ value ∈ o, T.strings value) (stringOf n s e)
      (stringOf n' s' e) := by
  unfold stringOf
  split
  · refine ⟨rfl, fun value hvalue => ?_⟩
    cases hvalue
    exact he
  · intro hexact
    rw [hn.eq hexact, hs hexact]

/-- Strings are joined from the same parts. -/
theorem relates_resolveSegments {ε : Type} {missing missing' : String → ε}
    {value value' : String → Except ε (Option String)}
    (hmissing : ∀ n n', ρ n n' → T.exact = true → missing n = missing' n')
    (hvalue : ∀ n n', ρ n n' →
      Relates T.exact (Both fun o => ∀ v ∈ o, T.strings v) (value n) (value' n'))
    {segments segments' : List Segment}
    (h : List.Forall₂ (Segment.Revises ρ) segments segments') :
    Relates T.exact (Both (Spells T.strings segments))
      (StringExpr.resolveSegments missing value segments)
      (StringExpr.resolveSegments missing' value' segments') := by
  induction h with
  | nil => exact ⟨rfl, .nil⟩
  | cons hsegment _ ih =>
      cases hsegment with
      | literal =>
          refine ih.map fun rest _ hrest => ?_
          rcases hrest with ⟨rfl, hrest⟩
          exact ⟨rfl, .literal hrest⟩
      | ident hn =>
          refine (hvalue _ _ hn).bind fun found _ hfound => ?_
          rcases hfound with ⟨rfl, hfound⟩
          cases found with
          | none => exact fun hexact => hmissing _ _ hn hexact
          | some text =>
              refine ih.map fun rest _ hrest => ?_
              rcases hrest with ⟨rfl, hrest⟩
              exact ⟨rfl, .ident (hfound text rfl) hrest⟩

variable {enter enter' : Enter} {scope scope' : Scope} (henter : Enter.Relates T enter enter')
  (h : Scope.Revises T ρ scope scope')
include henter h

theorem relates_expandString {s s' : StringExpr} (hs : s.Revises ρ s') :
    Relates T.exact (Both (Spells T.strings s.segments)) (expandString enter scope s)
      (expandString enter' scope' s') := by
  have heq : T.exact = true → s = s' := hs.eq h.fair
  refine relates_resolveSegments (fun n n' hn hexact => ?_) (fun n n' hn => ?_) hs
  · rw [(h.fair.same n n' hn).eq hexact, heq hexact]
  · rcases h.lookup hn with ⟨hm, hm', _⟩ | ⟨m, m', hm, hm', hrev⟩
    · rw [hm, hm']
      exact ⟨rfl, by simp⟩
    · rw [hm, hm']
      refine (hrev.refer henter).bind fun e e' he => ?_
      rcases he with ⟨rfl, he⟩
      exact relates_stringOf (h.fair.same n n' hn) heq he

end

end SeriesQuery
