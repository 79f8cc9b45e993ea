import SeriesQuery.Proofs.Binding
import SeriesQuery.Proofs.Revisions

/-!
# Scopes of revisions

The expansion of an expression and that of a revision go through scopes that declare other names and
more templates, but agree where names refer to the same (`Scope.Revises`): a name stands for nothing
in either scope, for the same argument, or for a template and its revision (`Scope.Revises.lookup`).

Both expansions are to give the same tree, or to fail both; `Relates` says so of steps.
-/

namespace SeriesQuery

/-! ## Results that are related -/

/-- The results are related, or both are missing, for the same cause if the relation is `exact`. -/
def Relates {ε α β : Type} (exact : Bool) (R : α → β → Prop) : Except ε α → Except ε β → Prop
  | .ok a, .ok b => R a b
  | .error cause, .error cause' => exact → cause = cause'
  | _, _ => False

/-- The values are the same and have the property. -/
def Both {α : Type} (P : α → Prop) (a b : α) : Prop :=
  a = b ∧ P a

section

variable {ε α β γ δ : Type} {exact : Bool} {R : α → β → Prop} {S : γ → δ → Prop}

theorem Relates.bind {x : Except ε α} {y : Except ε β} {k : α → Except ε γ} {k' : β → Except ε δ}
    (h : Relates exact R x y) (hk : ∀ a b, R a b → Relates exact S (k a) (k' b)) :
    Relates exact S (x >>= k) (y >>= k') := by
  cases x with
  | error cause =>
      cases y with
      | error cause' => exact h
      | ok b => exact h.elim
  | ok a =>
      cases y with
      | error cause' => exact h.elim
      | ok b => exact hk a b h

theorem Relates.map {x : Except ε α} {y : Except ε β} {g : α → γ} {g' : β → δ}
    (h : Relates exact R x y) (hg : ∀ a b, R a b → S (g a) (g' b)) :
    Relates exact S (g <$> x) (g' <$> y) := by
  cases x <;> cases y
  · exact h
  · exact h.elim
  · exact h.elim
  · exact hg _ _ h

/-- A result is related to itself. -/
theorem relates_self {P : α → Prop} {x : Except ε α} (h : Gives P x) :
    Relates exact (Both P) x x := by
  cases x with
  | error cause => exact fun _ => rfl
  | ok a => exact ⟨rfl, h a rfl⟩

/-- Where errors must be the same, the results are. -/
theorem Relates.eq {P : α → Prop} {x y : Except ε α} (h : Relates exact (Both P) x y)
    (hexact : exact = true) : x = y := by
  cases x <;> cases y
  · rw [h hexact]
  · exact h.elim
  · exact h.elim
  · rw [h.1]

/-- Both results are the same, or both are missing. -/
theorem Relates.toOption_eq {P : α → Prop} {x y : Except ε α} (h : Relates exact (Both P) x y) :
    x.toOption = y.toOption := by
  cases x <;> cases y
  · rfl
  · exact h.elim
  · exact h.elim
  · rw [h.1]

/-- The same result has the property. -/
theorem Relates.both {P : α → Prop} {x y : Except ε α} (h : Relates exact Eq x y)
    (hx : Gives P x) : Relates exact (Both P) x y := by
  cases x <;> cases y
  · exact h
  · exact h.elim
  · exact h.elim
  · exact ⟨h, hx _ rfl⟩

theorem relates_mapM_option {g : α → Except ε γ} {g' : β → Except ε δ} {o : Option α}
    {o' : Option β} (ho : Option.Rel R o o') (hg : ∀ a b, R a b → Relates exact S (g a) (g' b)) :
    Relates exact (Option.Rel S) (o.mapM g) (o'.mapM g') := by
  cases ho with
  | none => exact .none
  | some hab =>
      rw [Option.mapM_some, Option.mapM_some]
      exact (hg _ _ hab).map fun _ _ h => .some h

end

/-! ## Values -/

/-- The selector of a metric by a name, or one without; other filters on the name keep to the
terms. -/
inductive Selector.Tame (T : Terms) : Selector → Prop where
  | plain {rs : List (List LabelFilter)} : (∀ r ∈ rs, T.Clear r) → Selector.Tame T ⟨rs⟩
  | named {n : String} {rs : List (List LabelFilter)} :
      n ≠ "" → (∀ r ∈ rs, T.Clear r) → Selector.Tame T (.named n rs)

/-- What names stand for keeps to the terms. -/
def Expr.Tame (T : Terms) : Expr → Prop
  | .string value => T.strings value
  | .selector s => s.Tame T
  | _ => True

/-! ## Scopes -/

/-- A template with the same name, other names for the parameters and a body to match. -/
structure Template.Revises (T : Terms) (ρ : Naming) (t t' : Template) : Prop where
  name : t.name = t'.name
  length : t.params.length = t'.params.length
  same : ∀ pair ∈ t.params.zip t'.params, T.Same pair.1 pair.2
  body : t.body.Revises T (ρ.bindAll (t.params.zip t'.params)) t'.body

/-- Scopes in which the naming holds. -/
inductive Scope.Revises (T : Terms) : Naming → Scope → Scope → Prop where
  | nil : Scope.Revises T (fun n n' => n = n') [] []
  | templates {ρ ρ' : Naming} {ts ts' : List Template} {scope scope' : Scope} :
      Scope.Revises T ρ scope scope' → Template.Revise T ρ ts ts' ρ' →
        Scope.Revises T ρ' (.templates ts :: scope) (.templates ts' :: scope')
  | arguments {ρ : Naming} {params params' : List String} {args : List Expr}
      {scope scope' : Scope} :
      Scope.Revises T ρ scope scope' → params.length = params'.length →
        params.length = args.length → (∀ pair ∈ params.zip params', T.Same pair.1 pair.2) →
        (∀ e ∈ args, e.Tame T) →
        Scope.Revises T (ρ.bindAll (params.zip params')) (.arguments (params.zip args) :: scope)
          (.arguments (params'.zip args) :: scope')

/-- What two names stand for that refer to the same. -/
inductive Meaning.Revises (T : Terms) : String → String → Meaning → Meaning → Prop where
  | template {n : String} {ρ : Naming} {t t' : Template} {scope scope' : Scope} :
      Scope.Revises T ρ scope scope' → t.Revises T ρ t' →
        Meaning.Revises T n n (.template t scope) (.template t' scope')
  | value {n n' : String} {e : Expr} :
      T.Same n n' → e.Tame T → Meaning.Revises T n n' (.value e) (.value e)

section

variable {T : Terms} {ρ ρ' : Naming} {n n' : String}

theorem Template.Revise.fair {ts ts' : List Template} (h : Template.Revise T ρ ts ts' ρ')
    (hρ : ρ.Fair T) : ρ'.Fair T := by
  induction ts' generalizing ts ρ with
  | nil =>
      cases h
      exact hρ
  | cons t' ts' ih =>
      cases h with
      | both _ _ _ hrest => exact ih hrest (hρ.bind (.inl rfl))
      | added hname _ hrest => exact ih hrest (hρ.hide hname)

theorem Scope.Revises.fair {scope scope' : Scope} (h : Scope.Revises T ρ scope scope') :
    ρ.Fair T := by
  induction h with
  | nil => exact ⟨fun _ _ => rfl, fun _ _ heq => .inl heq⟩
  | templates _ hts ih => exact hts.fair ih
  | arguments _ _ _ hsame _ ih => exact ih.bindAll hsame

/-- Both blocks have templates of the name.  The first ones are revisions, and so are the blocks up to
them. -/
def Template.FoundIn (T : Terms) (ρ : Naming) (n : String) (ts ts' : List Template) : Prop :=
  ∃ t t' ρ', ts.find? (fun t => t.name == n) = some t ∧
    ts'.find? (fun t => t.name == n) = some t' ∧ t.Revises T ρ' t' ∧
      Template.Revise T ρ (ts.takeWhile fun t => t.name != n) (ts'.takeWhile fun t => t.name != n) ρ'

/-- A name is found in neither block, or in both. -/
theorem Template.Revise.find {ts ts' : List Template} (h : Template.Revise T ρ ts ts' ρ')
    (hn : ρ' n n') :
    (ts.find? (fun t => t.name == n) = none ∧ ts'.find? (fun t => t.name == n') = none ∧ ρ n n') ∨
      n = n' ∧ Template.FoundIn T ρ n ts ts' := by
  induction ts' generalizing ts ρ with
  | nil =>
      cases h
      exact .inl ⟨rfl, rfl, hn⟩
  | cons t' ts' ih =>
      cases h with
      | @both _ _ name params params' body body' ts _ hlength hsame hbody hrest =>
          -- The first templates of the two blocks have the same name.
          have hfirst : Template.FoundIn T ρ name (.mk name params body :: ts)
              (.mk name params' body' :: ts') := by
            refine ⟨.mk name params body, .mk name params' body', ρ, ?_, ?_,
              ⟨rfl, hlength, hsame, hbody⟩, ?_⟩
            · simp [Template.name]
            · simp [Template.name]
            · simpa [Template.name] using Template.Revise.nil
          rcases ih hrest with ⟨hnone, hnone', hbound⟩ | ⟨heq, t, t', ρ₁, ht, ht', hrev, hbefore⟩
          · rcases hbound with ⟨rfl, rfl⟩ | ⟨hne, hne', hold⟩
            · exact .inr ⟨rfl, hfirst⟩
            · refine .inl ⟨?_, ?_, hold⟩
              · simpa [Template.name, Ne.symm hne] using hnone
              · simpa [Template.name, Ne.symm hne'] using hnone'
          · refine .inr ⟨heq, ?_⟩
            by_cases hname : name = n
            · exact hname ▸ hfirst
            · refine ⟨t, t', ρ₁, ?_, ?_, hrev, ?_⟩
              · simpa [Template.name, hname] using ht
              · simpa [Template.name, hname] using ht'
              · have hboth := Template.Revise.both hlength hsame hbody hbefore
                simpa [Template.name, hname] using hboth
      | added hname hothers hrest =>
          rcases ih hrest with ⟨hnone, hnone', hne, hold⟩ | ⟨heq, t, u, ρ₁, ht, hu, hrev, hbefore⟩
          · refine .inl ⟨hnone, ?_, hold⟩
            simpa [Ne.symm hne] using hnone'
          · -- What is found has not the name of the template that is added.
            have hfound : t.name = n := by simpa using List.find?_some ht
            have hne : t'.name ≠ n := by
              rw [← hfound]
              exact Ne.symm (hothers t (List.mem_of_find?_eq_some ht))
            refine .inr ⟨heq, t, u, ρ₁, ht, ?_, hrev, ?_⟩
            · simpa [hne] using hu
            · have hadded := Template.Revise.added hname
                (fun v hv => hothers v ((List.takeWhile_sublist _).mem hv)) hbefore
              simpa [hne] using hadded

/-- Parameters with an argument for each: a name is bound to nothing, or to the same. -/
theorem find_zip {params params' : List String} {args : List Expr}
    (hlength : params.length = params'.length) (hargs : params.length = args.length)
    (hn : ρ.bindAll (params.zip params') n n') :
    ((params.zip args).find? (fun b => b.1 == n) = none ∧
        (params'.zip args).find? (fun b => b.1 == n') = none ∧ ρ n n') ∨
      ∃ e ∈ args, (params.zip args).find? (fun b => b.1 == n) = some (n, e) ∧
        (params'.zip args).find? (fun b => b.1 == n') = some (n', e) := by
  induction params generalizing params' args with
  | nil =>
      have hempty : params' = [] := List.length_eq_zero_iff.1 hlength.symm
      subst hempty
      exact .inl ⟨rfl, rfl, hn⟩
  | cons x params ih =>
      cases params' with
      | nil => cases hlength
      | cons x' params' =>
          cases args with
          | nil => cases hargs
          | cons arg args =>
              -- The first parameter of the name decides, on both sides at the same place.
              rcases hn with ⟨rfl, rfl⟩ | ⟨hne, hne', hrest⟩
              · exact .inr ⟨arg, List.mem_cons_self, by simp, by simp⟩
              · rcases ih (Nat.succ.inj hlength) (Nat.succ.inj hargs) hrest with
                  ⟨hnone, hnone', hold⟩ | ⟨e, he, hfound, hfound'⟩
                · refine .inl ⟨?_, ?_, hold⟩
                  · simpa [Ne.symm hne] using hnone
                  · simpa [Ne.symm hne'] using hnone'
                · refine .inr ⟨e, List.mem_cons_of_mem arg he, ?_, ?_⟩
                  · simpa [Ne.symm hne] using hfound
                  · simpa [Ne.symm hne'] using hfound'

/-- Names that refer to the same stand for nothing in both scopes, or for the same. -/
theorem Scope.Revises.lookup {scope scope' : Scope} (h : Scope.Revises T ρ scope scope')
    (hn : ρ n n') :
    (scope.lookup n = none ∧ scope'.lookup n' = none ∧ n = n') ∨
      ∃ m m', scope.lookup n = some m ∧ scope'.lookup n' = some m' ∧
        Meaning.Revises T n n' m m' := by
  induction h with
  | nil => exact .inl ⟨rfl, rfl, hn⟩
  | templates hscope hts ih =>
      rw [Scope.lookup_cons, Scope.lookup_cons]
      rcases hts.find hn with ⟨hnone, hnone', hold⟩ | ⟨rfl, t, t', ρ', ht, ht', hrev, hbefore⟩
      · simpa [Frame.lookup, hnone, hnone'] using ih hold
      · refine .inr ⟨_, _, ?_, ?_, .template (hscope.templates hbefore) hrev⟩
        · simp [Frame.lookup, ht]
        · simp [Frame.lookup, ht']
  | arguments hscope hlength hargs hsame htame ih =>
      have hfair := (hscope.fair.bindAll hsame).same _ _ hn
      rw [Scope.lookup_cons, Scope.lookup_cons]
      rcases find_zip hlength hargs hn with ⟨hnone, hnone', hold⟩ | ⟨e, he, hfound, hfound'⟩
      · simpa [Frame.lookup, hnone, hnone'] using ih hold
      · refine .inr ⟨.value e, .value e, ?_, ?_, .value hfair (htame e he)⟩
        · simp [Frame.lookup, hfound]
        · simp [Frame.lookup, hfound']

/-- So do plain names. -/
theorem Scope.Revises.plain {scope scope' : Scope} (h : Scope.Revises T ρ scope scope')
    (hn : ρ n n') :
    (plainMeaning scope n = none ∧ plainMeaning scope' n' = none ∧ n = n') ∨
      ∃ m m', plainMeaning scope n = some m ∧ plainMeaning scope' n' = some m' ∧
        Meaning.Revises T n n' m m' := by
  unfold plainMeaning
  rcases h.lookup hn with ⟨hm, hm', heq⟩ | ⟨m, m', hm, hm', hrev⟩
  · rw [hm, hm']
    exact .inl ⟨rfl, rfl, heq⟩
  · rw [hm, hm']
    cases hrev with
    | @template ρ' t t' scope scope' hscope ht =>
        -- Parameters are had by both or by none.
        have hparams : t.params.isEmpty = t'.params.isEmpty := by
          rw [Bool.eq_iff_iff, List.isEmpty_iff_length_eq_zero, List.isEmpty_iff_length_eq_zero,
            ht.length]
        by_cases hplain : t'.params.isEmpty
        · refine .inr ⟨_, _, ?_, ?_, .template hscope ht⟩
          · simp [Option.filter, hparams, hplain]
          · simp [Option.filter, hplain]
        · refine .inl ⟨?_, ?_, rfl⟩
          · simp [Option.filter, hparams, hplain]
          · simp [Option.filter, hplain]
    | value hsame he => exact .inr ⟨_, _, rfl, rfl, .value hsame he⟩

end

end SeriesQuery
