import SeriesQuery.Proofs.Agreement

/-!
# Calls of templates and bindings of names

A template with a parameter may be called, or its body may be expanded where the parameter is bound
to the argument as a template of its own: `with (f(x) = B) f(A)` and `with (x = A) B`.  The first
expands the argument once, the second at each reference.  Both come to the same if the name `f`
cannot be put together from the names and strings that there are (`expand_call_eq_binding`).

`Corresponds` relates the scopes that the two go through, and the names in them stand for the same
(`Corresponds.lookup`), however deep templates may still go on either side.
-/

namespace SeriesQuery

/-- The character does not stand in the name or the string. -/
def Leaf.Avoids (c : Char) : Leaf → Prop
  | .text value => c ∉ value.toList
  | _ => True

instance (c : Char) : DecidablePred (Leaf.Avoids c)
  | .text value => inferInstanceAs (Decidable (c ∉ value.toList))
  | .label _ => inferInstanceAs (Decidable True)
  | .number _ => inferInstanceAs (Decidable True)
  | .duration _ => inferInstanceAs (Decidable True)

theorem Leaf.closed_avoids (c : Char) : Leaf.Closed (Leaf.Avoids c) where
  empty := by simp [Leaf.Avoids]
  append hs ht := by
    simp only [Leaf.Avoids, String.toList_append, List.mem_append, not_or]
    exact ⟨hs, ht⟩
  label _ := trivial
  duration _ := trivial

/-! ## Scopes of a call and of a binding -/

/-- Nothing refers to the template: its name cannot be put together from leaves, and as a label or
the name of a metric it stands for itself. -/
def Template.Unseen (K : Leaf → Prop) (t : Template) : Prop :=
  ¬K (.text t.name) ∧ t.params ≠ []

/-- The scopes are the same but for templates that nothing refers to, or but for an argument of the
one that is a template of the other.  That template expands to the argument. -/
inductive Corresponds (K : Leaf → Prop) : Scope → Scope → Prop where
  | same {scope : Scope} : scope.Made K → Corresponds K scope scope
  | unseen {ts ts' : List Template} {scope : Scope} :
      (∀ t ∈ ts, t.Unseen K) → (∀ t ∈ ts', t.Unseen K) → scope.Made K →
        Corresponds K (.templates ts :: scope) (.templates ts' :: scope)
  | bound {x : String} {a A : Expr} {scope : Scope} :
      scope.Made K → a.Made K →
        (∀ depth b, Expr.expandWith (Expr.enterTemplate depth) (.templates [] :: scope) A = .ok b →
          b = a) →
        Corresponds K (.arguments [(x, a)] :: .templates [] :: scope)
          (.templates [.mk x [] A] :: scope)
  | frame {frame : Frame} {scope scope' : Scope} :
      frame.Made K → Corresponds K scope scope' → Corresponds K (frame :: scope) (frame :: scope')

/-- What names stand for in scopes that correspond. -/
inductive SameMeaning (K : Leaf → Prop) : Meaning → Meaning → Prop where
  | template {t : Template} {scope scope' : Scope} :
      t.Made K → Corresponds K scope scope' →
        SameMeaning K (.template t scope) (.template t scope')
  | value {e : Expr} : e.Made K → SameMeaning K (.value e) (.value e)
  | bound {x : String} {a A : Expr} {scope : Scope} :
      a.Made K →
        (∀ depth b, Expr.expandWith (Expr.enterTemplate depth) scope A = .ok b → b = a) →
        SameMeaning K (.value a) (.template (.mk x [] A) scope)

theorem Scope.lookup_cons (name : String) (frame : Frame) (outer : Scope) :
    Scope.lookup name (frame :: outer) = (frame.lookup outer name).or (outer.lookup name) := by
  simp only [Scope.lookup]
  cases frame.lookup outer name <;> rfl

section

variable {K : Leaf → Prop} {scope scope' : Scope}

/-- Nothing is found, or a template with parameters. -/
def FindsNone (m : Option Meaning) : Prop :=
  ∀ meaning ∈ m, ∃ t outer, meaning = .template t outer ∧ t.params ≠ []

theorem plainMeaning_of_findsNone {scope : Scope} {name : String}
    (h : FindsNone (scope.lookup name)) : plainMeaning scope name = none := by
  unfold plainMeaning
  cases hm : scope.lookup name with
  | none => rfl
  | some meaning =>
      rcases h meaning hm with ⟨t, outer, rfl, hparams⟩
      simp [Option.filter, hparams]

/-- Both find nothing, or the same; or the name is not put together from leaves. -/
def SameLookup (K : Leaf → Prop) (name : String) (m m' : Option Meaning) : Prop :=
  (m = none ∧ m' = none) ∨ (∃ meaning ∈ m, ∃ meaning' ∈ m', SameMeaning K meaning meaning') ∨
    ¬K (.text name) ∧ FindsNone m ∧ FindsNone m'

theorem SameMeaning.of_made {meaning : Meaning} (h : meaning.Made K) :
    SameMeaning K meaning meaning := by
  cases meaning with
  | template t scope => exact .template h.1 (.same h.2)
  | value e => exact .value h

theorem Scope.Made.lookup (h : scope.Made K) (name : String) :
    SameLookup K name (scope.lookup name) (scope.lookup name) := by
  cases hfound : scope.lookup name with
  | none => exact .inl ⟨rfl, rfl⟩
  | some meaning =>
      have hmade := (Scope.made_lookup h hfound).2
      exact .inr (.inl ⟨meaning, rfl, meaning, rfl, .of_made hmade⟩)

theorem lookup_unseen {ts : List Template} (h : ∀ t ∈ ts, t.Unseen K) {name : String}
    (hname : K (.text name)) : Frame.lookup scope name (.templates ts) = none := by
  have hnone : (ts.find? fun t => t.name == name) = none := by
    rw [List.find?_eq_none]
    intro t ht heq
    have htext : t.name = name := by simpa using heq
    exact (h t ht).1 (htext ▸ hname)
  simp [Frame.lookup, hnone]

theorem findsNone_unseen {ts : List Template} (h : ∀ t ∈ ts, t.Unseen K) {name : String} :
    FindsNone (Frame.lookup scope name (.templates ts)) := by
  intro meaning hmeaning
  rcases Option.map_eq_some_iff.1 hmeaning with ⟨t, ht, rfl⟩
  exact ⟨t, _, rfl, (h t (List.mem_of_find?_eq_some ht)).2⟩

/-- A frame that both scopes have. -/
theorem Corresponds.lookup_frame {frame : Frame} (hframe : frame.Made K)
    (h : Corresponds K scope scope') (name : String) :
    (frame.lookup scope name = none ∧ frame.lookup scope' name = none) ∨
      ∃ meaning ∈ frame.lookup scope name, ∃ meaning' ∈ frame.lookup scope' name,
        SameMeaning K meaning meaning' := by
  cases frame with
  | templates ts =>
      cases hfound : ts.find? fun t => t.name == name with
      | none => exact .inl (by simp [Frame.lookup, hfound])
      | some t =>
          have hmade := hframe t (List.mem_of_find?_eq_some hfound)
          -- A template sees those before it only.
          have hbefore : Frame.Made K (.templates (ts.takeWhile fun t => t.name != name)) :=
            fun t' ht' => hframe t' ((List.takeWhile_sublist _).mem ht')
          have hsame := SameMeaning.template hmade (h.frame hbefore)
          exact .inr ⟨_, by simp [Frame.lookup, hfound], _, by simp [Frame.lookup, hfound], hsame⟩
  | arguments bound =>
      cases hfound : bound.find? fun b => b.1 == name with
      | none => exact .inl (by simp [Frame.lookup, hfound])
      | some b =>
          have hmade := (hframe b (List.mem_of_find?_eq_some hfound)).2
          exact .inr ⟨.value b.2, by simp [Frame.lookup, hfound], .value b.2,
            by simp [Frame.lookup, hfound], .value hmade⟩

theorem Corresponds.lookup (h : Corresponds K scope scope') (name : String) :
    SameLookup K name (scope.lookup name) (scope'.lookup name) := by
  induction h with
  | same hscope => exact hscope.lookup name
  | @unseen ts ts' scope hts hts' hscope =>
      rw [Scope.lookup_cons, Scope.lookup_cons]
      by_cases hname : K (.text name)
      · rw [lookup_unseen hts hname, lookup_unseen hts' hname]
        exact hscope.lookup name
      · -- The scope around declares no such name.
        have hnone : scope.lookup name = none := by
          cases hfound : scope.lookup name with
          | none => rfl
          | some meaning => exact absurd (Scope.made_lookup hscope hfound).1 hname
        rw [hnone, Option.or_none, Option.or_none]
        exact .inr (.inr ⟨hname, findsNone_unseen hts, findsNone_unseen hts'⟩)
  | @bound x a A scope hscope ha hA =>
      rw [Scope.lookup_cons, Scope.lookup_cons, Scope.lookup_cons]
      by_cases heq : x = name
      · subst heq
        refine .inr (.inl ⟨.value a, by simp [Frame.lookup],
          .template (.mk x [] A) (.templates [] :: scope), ?_, .bound ha hA⟩)
        simp [Frame.lookup, Template.name]
      · have hlookup := hscope.lookup name
        simpa [Frame.lookup, Template.name, heq] using hlookup
  | @frame frame scope scope' hframe h ih =>
      rw [Scope.lookup_cons, Scope.lookup_cons]
      rcases h.lookup_frame hframe name with ⟨hm, hm'⟩ | ⟨m, hm, m', hm', hsame⟩
      · rw [hm, hm']
        exact ih
      · rw [Option.mem_def.1 hm, Option.mem_def.1 hm']
        exact .inr (.inl ⟨m, rfl, m', rfl, hsame⟩)

end

/-! ## References -/

theorem concur_error_left {ε α : Type} {P : α → Prop} (cause : ε) (y : Except ε α) :
    Concur false P (.error cause) y := by
  cases y <;> simp [Concur]

theorem concur_error_right {ε α : Type} {P : α → Prop} (x : Except ε α) (cause : ε) :
    Concur false P x (.error cause) := by
  cases x <;> simp [Concur]

section

variable {K : Leaf → Prop} {enter enter' : Enter}

/-- Bodies of templates expand alike in scopes that correspond. -/
def EntersAlike (K : Leaf → Prop) (enter enter' : Enter) : Prop :=
  ∀ name scope scope' body, Corresponds K scope scope' → body.Made K →
    Concur false (Expr.Made K) (enter name scope body) (enter' name scope' body)

theorem concur_instantiate (henter : EntersAlike K enter enter') {t : Template}
    {scope scope' : Scope} {args : List Expr} (ht : t.Made K) (hscope : Corresponds K scope scope')
    (hargs : ∀ e ∈ args, e.Made K) :
    Concur false (Expr.Made K) (instantiate enter t scope args)
      (instantiate enter' t scope' args) := by
  have hparts := Template.made_iff.1 ht
  unfold instantiate
  split
  · exact concur_error _
  · split
    · exact henter t.name scope scope' t.body hscope hparts.2.2
    · have hframe : Frame.Made K (.arguments (t.params.zip args)) := by
        intro b hb
        have hmem := List.of_mem_zip hb
        exact ⟨hparts.2.1 b.1 hmem.1, hargs b.2 hmem.2⟩
      exact henter t.name _ _ t.body (hscope.frame hframe) hparts.2.2

/-- What an argument stands for is what the template for it expands to. -/
theorem concur_bound {a A : Expr} {scope : Scope} {depth : Nat} {name : String} (ha : a.Made K)
    (hA : ∀ depth b, Expr.expandWith (Expr.enterTemplate depth) scope A = .ok b → b = a) :
    Concur false (Expr.Made K) (.ok a) (Expr.enterTemplate depth name scope A) := by
  cases depth with
  | zero => exact concur_error_right _ _
  | succ depth =>
      rw [Expr.enterTemplate]
      cases hb : Expr.expandWith (Expr.enterTemplate depth) scope A with
      | error cause => exact concur_error_right _ _
      | ok b =>
          rw [hA depth b hb]
          exact concur_ok ha

variable {depth : Nat} (henter : EntersAlike K enter (Expr.enterTemplate depth))
  {meaning meaning' : Meaning}
include henter

theorem SameMeaning.refer (h : SameMeaning K meaning meaning') :
    Concur false (Expr.Made K) (refer enter meaning)
      (refer (Expr.enterTemplate depth) meaning') := by
  cases h with
  | @template t scope scope' ht hscope =>
      by_cases hplain : t.params.isEmpty
      · simp only [SeriesQuery.refer, if_pos hplain]
        exact concur_instantiate henter ht hscope (by simp)
      · simp only [SeriesQuery.refer, if_neg hplain]
        have hname := (Template.made_iff.1 ht).1
        refine concur_ok (Expr.made_selector.2 ?_)
        simpa [Selector.ofName, LabelFilter.leaf, LabelFilter.equal] using hname
  | value he => exact concur_ok he
  | bound ha hA => exact concur_bound ha hA

theorem SameMeaning.call (h : SameMeaning K meaning meaning') (name : String) {args : List Expr}
    (hargs : ∀ e ∈ args, e.Made K) :
    Concur false (Expr.Made K) (callMeaning enter name args meaning)
      (callMeaning (Expr.enterTemplate depth) name args meaning') := by
  cases h with
  | template ht hscope => exact concur_instantiate henter ht hscope hargs
  | value he =>
      by_cases hnone : args.isEmpty
      · simp only [callMeaning, if_pos hnone]
        exact concur_ok he
      · simp only [callMeaning, if_neg hnone]
        exact concur_error _
  | bound ha hA =>
      cases args with
      | nil => exact concur_bound ha hA
      | cons e es => exact concur_error_left _ _

theorem Corresponds.interchangeable {scope scope' : Scope} (h : Corresponds K scope scope') :
    Interchangeable false K enter (Expr.enterTemplate depth) scope scope' where
  lookup name hname := by
    rcases h.lookup name with ⟨hm, hm'⟩ | ⟨m, hm, m', hm', hsame⟩ | ⟨hhidden, _⟩
    · rw [hm, hm']
      exact ⟨trivial, by simp⟩
    · rw [Option.mem_def.1 hm, Option.mem_def.1 hm']
      refine ⟨hsame.refer henter, ?_⟩
      rintro _ ⟨⟩ _ ⟨⟩ args hargs
      exact hsame.call henter name hargs
    · exact absurd hname hhidden
  plain name := by
    rcases h.lookup name with ⟨hm, hm'⟩ | ⟨m, hm, m', hm', hsame⟩ | ⟨_, hm, hm'⟩
    · simp [plainMeaning, hm, hm', SameReference]
    · have hrefer := hsame.refer henter
      unfold plainMeaning
      rw [Option.mem_def.1 hm, Option.mem_def.1 hm']
      -- Parameters are had by both or by none.
      cases hsame with
      | @template t scope scope' ht hscope =>
          by_cases hplain : t.params.isEmpty
          · simp only [Option.filter, hplain]
            exact hrefer
          · simp [Option.filter, hplain, SameReference]
      | value he => exact hrefer
      | bound ha hA => exact hrefer
    · rw [plainMeaning_of_findsNone hm, plainMeaning_of_findsNone hm']
      trivial

end

/-! ## Expansion -/

section

variable {K : Leaf → Prop} (hK : Leaf.Closed K)
include hK

/-- Expressions expand alike in scopes that correspond, as deep as templates may go on either
side. -/
theorem Corresponds.concur (depth depth' : Nat) {scope scope' : Scope}
    (h : Corresponds K scope scope') {e : Expr} (he : e.Made K) :
    Concur false (Expr.Made K) (Expr.expandWith (Expr.enterTemplate depth) scope e)
      (Expr.expandWith (Expr.enterTemplate depth') scope' e) := by
  induction depth generalizing depth' scope scope' e with
  | zero =>
      have henter : EntersAlike K (Expr.enterTemplate 0) (Expr.enterTemplate depth') :=
        fun _ _ _ _ _ _ => concur_error_left _ _
      exact Expr.concur_expandWith hK (fun _ _ h => h.interchangeable henter)
        (fun _ _ _ hframe h => h.frame hframe) he scope scope' h
  | succ depth ih =>
      have henter : EntersAlike K (Expr.enterTemplate (depth + 1)) (Expr.enterTemplate depth') := by
        intro name scope scope' body hscope hbody
        cases depth' with
        | zero => exact concur_error_right _ _
        | succ depth' => exact ih depth' hscope hbody
      exact Expr.concur_expandWith hK (fun _ _ h => h.interchangeable henter)
        (fun _ _ _ hframe h => h.frame hframe) he scope scope' h

end

namespace Expr

/-- The node calls the name with the arguments.  Where the name is that of an aggregate, calls of it
are aggregates. -/
def Applies (name : String) (args : List Expr) : Expr → Prop
  | call name' args' keepNames => name' = name ∧ args' = args ∧ keepNames = false
  | aggregate a args' => a = .plain name ∧ args' = args
  | _ => False

/-- A call of the only template of a frame: the argument is expanded, and bound to the parameter. -/
theorem eq_ok_of_expandWith_applies {enter : Enter} {scope : Scope} {f x : String}
    {A B applied a : Expr} (happlied : applied.Applies f [A])
    (h : expandWith enter (.templates [.mk f [x] B] :: scope) applied = .ok a) :
    ∃ arg, expandWith enter (.templates [.mk f [x] B] :: scope) A = .ok arg ∧
      enter f (.arguments [(x, arg)] :: .templates [] :: scope) B = .ok a := by
  have hlookup : Scope.lookup f (.templates [.mk f [x] B] :: scope) =
      some (.template (.mk f [x] B) (.templates [] :: scope)) := by
    simp [Scope.lookup, Frame.lookup, Template.name]
  have hargs : expandListWith enter (.templates [.mk f [x] B] :: scope) [A] =
      (fun arg => [arg]) <$> expandWith enter (.templates [.mk f [x] B] :: scope) A := by
    simp only [expandListWith]
    cases expandWith enter (.templates [.mk f [x] B] :: scope) A <;> rfl
  -- The body is expanded in the scope of the template, which does not see the template.
  have hcall : ∀ arg, callMeaning enter f [arg]
      (.template (.mk f [x] B) (.templates [] :: scope)) =
        enter f (.arguments [(x, arg)] :: .templates [] :: scope) B := by
    intro arg
    simp [callMeaning, instantiate, Template.params, Template.name, Template.body]
  have hbind : ∀ {k : List Expr → Expansion Expr},
      ((fun arg => [arg]) <$> expandWith enter (.templates [.mk f [x] B] :: scope) A) >>= k = .ok a →
        ∃ arg, expandWith enter (.templates [.mk f [x] B] :: scope) A = .ok arg ∧
          k [arg] = .ok a := by
    intro k hk
    cases harg : expandWith enter (.templates [.mk f [x] B] :: scope) A with
    | error cause =>
        rw [harg] at hk
        cases hk
    | ok arg =>
        rw [harg] at hk
        exact ⟨arg, rfl, hk⟩
  cases applied with
  | call name args keepNames =>
      rcases happlied with ⟨rfl, rfl, rfl⟩
      simp only [expandWith, hargs, expandCall, hlookup] at h
      rcases hbind h with ⟨arg, harg, hresult⟩
      have hpure : (callMeaning enter name [arg] (.template (.mk name [x] B) (.templates [] :: scope))
          >>= fun e => pure e) = .ok a := hresult
      rw [bind_pure, hcall] at hpure
      exact ⟨arg, harg, hpure⟩
  | aggregate aggregation args =>
      rcases happlied with ⟨rfl, rfl⟩
      simp only [expandWith, hargs, expandAggregate, Aggregation.plain, hlookup] at h
      rcases hbind h with ⟨arg, harg, hresult⟩
      rw [hcall] at hresult
      exact ⟨arg, harg, hresult⟩
  | _ => exact happlied.elim

/-- A template that is called and its body with the parameter bound expand to the same tree, if both
expand.  A character of the template's name occurs in no name and string that there is. -/
theorem expand_call_eq_binding {depth depth' : Nat} {scope : Scope} {f x : String} {c : Char}
    {A B applied a b : Expr} (hc : c ∈ f.toList) (hscope : scope.Made (Leaf.Avoids c))
    (hA : A.Made (Leaf.Avoids c)) (hB : B.Made (Leaf.Avoids c)) (happlied : applied.Applies f [A])
    (hcall : expandWith (enterTemplate depth) scope
      (.withTemplates [.mk f [x] B] applied) = .ok a)
    (hbinding : expandWith (enterTemplate depth') scope
      (.withTemplates [.mk x [] A] B) = .ok b) : a = b := by
  have hK := Leaf.closed_avoids c
  -- First the argument, where the template may be seen and where it may not; then the body.
  simp only [expandWith] at hcall hbinding
  rcases eq_ok_of_expandWith_applies happlied hcall with ⟨arg, harg, hbody⟩
  have hunseen : ∀ t ∈ [Template.mk f [x] B], t.Unseen (Leaf.Avoids c) := by
    intro t ht
    rcases List.mem_singleton.1 ht with rfl
    exact ⟨by simpa [Leaf.Avoids, Template.name] using hc, by simp [Template.params]⟩
  have hmade : arg.Made (Leaf.Avoids c) :=
    ((Corresponds.unseen hunseen hunseen hscope).concur hK depth depth hA).gives arg harg
  -- The argument expands to the same where the template cannot be seen.
  have hargument : ∀ depth' b,
      expandWith (enterTemplate depth') (.templates [] :: scope) A = .ok b → b = arg := by
    intro depth' b hb
    have hhidden : Corresponds (Leaf.Avoids c) (.templates [.mk f [x] B] :: scope)
        (.templates [] :: scope) := .unseen hunseen (by simp) hscope
    exact ((hhidden.concur hK depth depth' hA).eq harg hb).1.symm
  cases depth with
  | zero => cases hbody
  | succ depth =>
      have hbound : Corresponds (Leaf.Avoids c) (.arguments [(x, arg)] :: .templates [] :: scope)
          (.templates [.mk x [] A] :: scope) := .bound hscope hmade hargument
      exact ((hbound.concur hK depth depth' hB).eq hbody hbinding).1

/-- What `sum(m[w]) by (m, job) / m{a="b"}` comes to, where the metric and the window are given. -/
def shareOf (metric : String) (window : Duration) : Expr :=
  .binary (.plain .div)
    (.aggregate ⟨"sum", some (.by [metric, "job"]), 0⟩
      [.rollup (.selector (.ofName metric)) ⟨some window, none, none, false⟩ none])
    (.selector ⟨[[.equal nameLabel metric, .equal "a" "b"]]⟩)

/-- The parameter is the name of a metric, a label and the name of a metric with filters, and the
window is a template around. -/
theorem expand_call_eq_binding_shareOf :
    let scope : Scope := [.templates [.mk "w" [] (.duration ⟨"5m", false⟩)]]
    let body := shareOf "x" ⟨"w", true⟩
    let argument := Expr.selector (.ofName "foo")
    let applied := Expr.call "share2" [argument] false
    '2' ∈ "share2".toList ∧ scope.Made (Leaf.Avoids '2') ∧ argument.Made (Leaf.Avoids '2') ∧
      body.Made (Leaf.Avoids '2') ∧ applied.Applies "share2" [argument] ∧
        ∃ called bound,
          expandWith (enterTemplate 64) scope
            (.withTemplates [.mk "share2" ["x"] body] applied) = .ok called ∧
          expandWith (enterTemplate 64) scope (.withTemplates [.mk "x" [] argument] body) =
            .ok bound ∧ called = bound := by
  intro scope body argument applied
  have hc : '2' ∈ "share2".toList := by decide
  have hscope : scope.Made (Leaf.Avoids '2') := by decide
  have hargument : argument.Made (Leaf.Avoids '2') := by decide
  have hbody : body.Made (Leaf.Avoids '2') := by decide
  have happlied : applied.Applies "share2" [argument] := ⟨rfl, rfl, rfl⟩
  have hcall : expandWith (enterTemplate 64) scope
      (.withTemplates [.mk "share2" ["x"] body] applied) =
        .ok (shareOf "foo" ⟨"5m", false⟩) := by rfl
  have hbinding : expandWith (enterTemplate 64) scope
      (.withTemplates [.mk "x" [] argument] body) = .ok (shareOf "foo" ⟨"5m", false⟩) := by rfl
  exact ⟨hc, hscope, hargument, hbody, happlied, _, _, hcall, hbinding,
    expand_call_eq_binding hc hscope hargument hbody happlied hcall hbinding⟩

end Expr

end SeriesQuery
