import SeriesQuery.Proofs.Foreign
import SeriesQuery.Proofs.RevisedSelectors

/-!
# Expansion of revisions

An expression and a revision of it expand to the same tree, or both fail (`Expr.relates_expand`).
-/

namespace SeriesQuery

/-! ## Nodes -/

section

variable {T : Terms} {ρ : Naming} {enter enter' : Enter} {scope scope' : Scope}
  (henter : Enter.Relates T enter enter') (h : Scope.Revises T ρ scope scope')
include henter h

theorem relates_expandCall {n n' : String} {args : List Expr} {keepNames : Bool} (hn : ρ n n')
    (hargs : ∀ e ∈ args, e.Tame T) :
    Relates T.exact (Both (Expr.Tame T)) (expandCall enter scope n args keepNames)
      (expandCall enter' scope' n' args keepNames) := by
  unfold expandCall
  rcases h.lookup hn with ⟨hm, hm', rfl⟩ | ⟨m, m', hm, hm', hrev⟩
  · rw [hm, hm']
    exact ⟨rfl, trivial⟩
  · rw [hm, hm']
    refine (hrev.call henter hargs).bind fun e e' he => ?_
    rcases he with ⟨rfl, he⟩
    refine ⟨rfl, ?_⟩
    split
    · -- Only calls and operators are marked, and of those nothing is to be shown.
      cases e <;> exact he
    · exact he

theorem relates_expandAggregate {a a' : Aggregation} {args : List Expr} (ha : a.Revises ρ a')
    (hargs : ∀ e ∈ args, e.Tame T) :
    Relates T.exact (Both (Expr.Tame T)) (expandAggregate enter scope a args)
      (expandAggregate enter' scope' a' args) := by
  rcases a with ⟨n, grouping, limit⟩
  rcases a' with ⟨n', grouping', limit'⟩
  have hn : ρ n n' := ha.name
  have hgrouping : Option.Rel (Grouping.Revises ρ) grouping grouping' := ha.grouping
  have hlimit : limit = limit' := ha.limit
  subst hlimit
  unfold expandAggregate
  dsimp only
  -- Either both names stand for nothing, and both are aggregates, or both for revised templates.
  rcases h.lookup hn with ⟨hm, hm', rfl⟩ | ⟨m, m', hm, hm', hrev⟩
  · rw [hm, hm']
    cases hgrouping with
    | none => exact ⟨rfl, trivial⟩
    | some hlabels =>
        cases hlabels with
        | «by» hlabels =>
            refine (relates_expandLabels henter h hlabels).bind fun labels _ heq => ?_
            subst heq
            exact ⟨rfl, trivial⟩
        | without hlabels =>
            refine (relates_expandLabels henter h hlabels).bind fun labels _ heq => ?_
            subst heq
            exact ⟨rfl, trivial⟩
  · rw [hm, hm']
    exact hrev.call henter hargs

theorem relates_expandOperator {b b' : BinaryOp} (hb : b.Revises ρ b') :
    Relates T.exact Eq (expandOperator enter scope b) (expandOperator enter' scope' b') := by
  have hrel : ∀ {α : Type} {o o' : Option α}, Option.Rel Eq o o' → o = o' := by
    rintro α o o' (⟨rfl⟩ | _)
    · rfl
    · rfl
  rw [expandOperator_eq, expandOperator_eq]
  cases hb with
  | mk hmatching hjoin hlead =>
      refine (relates_mapM_option hmatching (S := Eq) fun m m' hm => ?_).bind
        fun matching _ hmatching => ?_
      · cases hm with
        | mk hlabels => exact (relates_expandLabels henter h hlabels).map fun _ _ heq => by rw [heq]
      refine (relates_mapM_option hjoin (S := Eq) fun j j' hj => ?_).bind fun join _ hjoin => ?_
      · cases hj with
        | mk hlabels => exact (relates_expandLabels henter h hlabels).map fun _ _ heq => by rw [heq]
      refine (relates_mapM_option hlead (S := Eq) fun s s' hs => ?_).bind fun lead _ hlead => ?_
      · exact (relates_expandString henter h hs).map fun _ _ heq => by rw [heq.1]
      · rw [hrel hmatching, hrel hjoin, hrel hlead]
        exact rfl

end

/-! ## Trees -/

namespace Expr

section

variable {T : Terms} {enter enter' : Enter}

theorem relates_expandListWith {ρ : Naming} {scope scope' : Scope} {es es' : List Expr}
    (hes : Revise T ρ es es')
    (ih : ∀ e ∈ es, ∀ e', e.Revises T ρ e' →
      Relates T.exact (Both (Tame T)) (expandWith enter scope e) (expandWith enter' scope' e')) :
    Relates T.exact (Both fun found => ∀ e ∈ found, e.Tame T) (expandListWith enter scope es)
      (expandListWith enter' scope' es') := by
  induction es generalizing es' with
  | nil =>
      cases hes
      exact ⟨rfl, by simp⟩
  | cons e es ihs =>
      cases hes with
      | cons he hes =>
          have hparts := List.forall_mem_cons.1 ih
          refine (hparts.1 _ he).bind fun a _ ha => ?_
          rcases ha with ⟨rfl, ha⟩
          refine (ihs hes hparts.2).bind fun as _ has => ?_
          rcases has with ⟨rfl, has⟩
          exact ⟨rfl, List.forall_mem_cons.2 ⟨ha, has⟩⟩

theorem relates_expandOptionWith {ρ : Naming} {scope scope' : Scope} {time time' : Option Expr}
    (htime : Revise T ρ time.toList time'.toList)
    (ih : ∀ e ∈ time, ∀ e', e.Revises T ρ e' →
      Relates T.exact (Both (Tame T)) (expandWith enter scope e) (expandWith enter' scope' e')) :
    Relates T.exact Eq (expandOptionWith enter scope time)
      (expandOptionWith enter' scope' time') := by
  cases time with
  | none =>
      cases time' with
      | none => exact rfl
      | some e' => cases htime
  | some e =>
      cases time' with
      | none => cases htime
      | some e' =>
          cases htime with
          | cons he _ => exact (ih e rfl e' he).map fun a a' ha => by rw [ha.1]

theorem tame_ofItems {items : List Expr} (h : ∀ e ∈ items, e.Tame T) : (ofItems items).Tame T := by
  unfold ofItems
  split
  · exact h _ List.mem_cons_self
  · trivial

/-- An expression and a revision expand to the same in scopes where names refer to the same. -/
theorem relates_expandWith (henter : Enter.Relates T enter enter') {e : Expr} :
    ∀ {e' : Expr} {ρ : Naming} {scope scope' : Scope}, e.Revises T ρ e' →
      Scope.Revises T ρ scope scope' →
      Relates T.exact (Both (Tame T)) (expandWith enter scope e) (expandWith enter' scope' e') := by
  induction e using Expr.inductionOn with
  | number n =>
      intro e' ρ scope scope' he h
      cases he
      exact ⟨rfl, trivial⟩
  | duration d =>
      intro e' ρ scope scope' he h
      cases he
      exact ⟨rfl, trivial⟩
  | string value =>
      intro e' ρ scope scope' he h
      cases he with
      | string hvalue => exact ⟨rfl, hvalue⟩
  | concat s =>
      intro e' ρ scope scope' he h
      cases he with
      | concat hs hliterals =>
          refine (relates_expandString henter h hs).map fun text _ htext => ?_
          rcases htext with ⟨rfl, htext⟩
          refine ⟨rfl, htext.closed T.empty T.append fun literal hliteral => ?_⟩
          exact hliterals literal (List.mem_filterMap.2 ⟨.literal literal, hliteral, rfl⟩)
  | selector s =>
      intro e' ρ scope scope' he h
      cases he with
      | selector hs => exact relates_expandName henter h hs
  | selectorExpr s =>
      intro e' ρ scope scope' he h
      cases he with
      | selectorExpr hs => exact relates_expandSelector henter h hs
  | call name args keepNames ih =>
      intro e' ρ scope scope' he h
      cases he with
      | call hname hargs =>
          have hlist := relates_expandListWith hargs fun a ha a' hrev => ih a ha hrev h
          refine hlist.bind fun found _ hfound => ?_
          rcases hfound with ⟨rfl, hfound⟩
          exact relates_expandCall henter h hname hfound
  | aggregate a args ih =>
      intro e' ρ scope scope' he h
      cases he with
      | aggregate ha hargs =>
          have hlist := relates_expandListWith hargs fun arg harg arg' hrev => ih arg harg hrev h
          refine hlist.bind fun found _ hfound => ?_
          rcases hfound with ⟨rfl, hfound⟩
          exact relates_expandAggregate henter h ha hfound
  | binary b l r ihl ihr =>
      intro e' ρ scope scope' he h
      cases he with
      | binary hb hl hr =>
          refine (ihl hl h).bind fun l₁ _ hl₁ => ?_
          refine (ihr hr h).bind fun r₁ _ hr₁ => ?_
          refine (relates_expandOperator henter h hb).bind fun b₁ _ hb₁ => ?_
          rw [hl₁.1, hr₁.1, hb₁]
          exact ⟨rfl, trivial⟩
  | rollup inner range time ih iht =>
      intro e' ρ scope scope' he h
      cases he with
      | rollup hinner hrange htime =>
          refine (ih hinner h).bind fun inner₁ _ hinner₁ => ?_
          refine (relates_expandRange henter h hrange).bind fun range₁ _ hrange₁ => ?_
          have hoption := relates_expandOptionWith htime fun e he e' hrev => iht e he hrev h
          refine hoption.bind fun time₁ _ htime₁ => ?_
          rw [hinner₁.1, hrange₁, htime₁]
          exact ⟨rfl, trivial⟩
  | tuple items ih =>
      intro e' ρ scope scope' he h
      cases he with
      | tuple hitems =>
          have hlist := relates_expandListWith hitems fun e he e' hrev => ih e he hrev h
          refine hlist.map fun found _ hfound => ?_
          rcases hfound with ⟨rfl, hfound⟩
          exact ⟨rfl, tame_ofItems hfound⟩
  | withTemplates ts body _ ih =>
      intro e' ρ scope scope' he h
      cases he with
      | withTemplates hts hbody =>
          -- The bodies of the templates wait in the scopes until they are entered.
          have hmain := ih hbody (h.templates hts)
          exact hmain

theorem relates_enterTemplate (T : Terms) (depth : Nat) :
    Enter.Relates T (enterTemplate depth) (enterTemplate depth) := by
  induction depth with
  | zero => exact fun _ _ _ _ _ _ _ _ _ => rfl
  | succ depth ih => exact fun _ _ _ _ _ _ hscope hbody => relates_expandWith ih hbody hscope

end

/-! ## Expansion -/

/-- The templates of every query are revisions of themselves, whichever names refer to the same. -/
theorem exists_revises_builtinScope (A : String → Prop) (T : Terms) :
    ∃ ρ : Naming, ρ.Keeps A ∧ Scope.Revises T ρ builtinScope builtinScope := by
  have hproper : ∀ t ∈ builtinTemplates, t.body.Proper (fun _ => True) T := by
    intro t ht
    refine ⟨fun l _ => ?_, fun x hx => ?_⟩
    · cases l <;> trivial
    · rw [(body_builtinTemplates t ht).2] at hx
      cases hx
  have hkeeps : Naming.Keeps (fun _ => True) fun n n' => n = n' := fun _ _ => rfl
  rcases Template.reviseWhere_self (fun t ht => (hproper t ht).revisesWhere) _ hkeeps with
    ⟨ρ, hρ, hts⟩
  exact ⟨ρ, fun n _ => hρ n trivial, .templates .nil hts⟩

/-- An expression and a revision of it expand to the same. -/
theorem RevisesWhere.relates {A : String → Prop} {T : Terms} {e e' : Expr}
    (h : e.RevisesWhere A T e') :
    Relates T.exact (Both (Tame T)) e.expandTemplates e'.expandTemplates := by
  rcases exists_revises_builtinScope A T with ⟨ρ, hρ, hscope⟩
  exact relates_expandWith (relates_enterTemplate T maxExpansionDepth) (h ρ hρ) hscope

end Expr

end SeriesQuery
