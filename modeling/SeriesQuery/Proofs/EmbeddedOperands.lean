import SeriesQuery.Proofs.Embedding
import SeriesQuery.Proofs.ReadingQueries

/-!
# Expressions within longer queries

What is read as an expression from all tokens of a query is read from them in front of a comma or a
closing parenthesis too, as long as the budget for depth is not smaller (`embeds_expression`).  So
an argument or an expression in parentheses is read as it would be by itself.
-/

namespace SeriesQuery

open Text

variable {E : ParseError → Prop} {fits : Prop} {s : List String}

namespace Grammar

/-! ## Operands -/

/-- What the first grammar reads inside an operand, the second one reads in front of more tokens. -/
structure Covers (E : ParseError → Prop) (fits : Prop) (g g' : Grammar) : Prop where
  expression : ∀ s, Embeds E Expr.exprEnds fits g.expression g'.expression s
  operand : ∀ s, Embeds E Expr.exprEnds fits g.operand g'.operand s
  wanted : Refuses g.expression []

variable {g g' : Grammar} (h : Covers E fits g g')
include h

theorem embeds_arguments : Embeds E Expr.exprEnds fits g.arguments g'.arguments s :=
  Reader.embeds_parenthesized h.expression h.wanted _

omit h in
theorem embeds_parameters (template : String) :
    Embeds E Expr.exprEnds fits (parameters template) (parameters template) s := by
  refine embeds_ifToken (fun _ => by decide) (fun _ => ?_) fun _ => embeds_pure
  refine (Reader.embeds_labels false).bind_any fun names m => ?_
  split
  · exact (refuses_throw _).embeds
  · exact embeds_pure

theorem embeds_template : Embeds E Expr.exprEnds fits g.template g'.template s := by
  refine (Reader.embeds_identifier _).bind_any fun name m => ?_
  refine (embeds_parameters name).bind_any fun params m => ?_
  refine (Reader.embeds_expect "=" _ (by decide)).bind_any fun _ m => ?_
  exact (h.expression m).bind_any fun _ _ => embeds_pure

omit h in
theorem refuses_template : Refuses g.template [] :=
  (Reader.refuses_identifier _).bind

theorem embeds_withTemplates {t : String} :
    Embeds E Expr.exprEnds fits g.withTemplates g'.withTemplates (t :: s) := by
  refine steps_bump.bind ?_
  refine (Reader.embeds_parenthesized (fun _ => embeds_template h) refuses_template _).bind_any
    fun templates m => ?_
  split
  · exact (refuses_throw _).embeds
  · exact (h.expression m).bind_any fun _ _ => embeds_pure

omit h in
/-- The mark that the names of metrics are kept, where it is followed by no more. -/
theorem embeds_ifKeeps {α : Type} {a b : α} :
    Embeds E Expr.exprEnds fits
      (Reader.atKeepNames >>= fun keep => if keep then Reader.bump >>= fun _ => pure a else pure b)
      (Reader.atKeepNames >>= fun keep => if keep then Reader.bump >>= fun _ => pure a else pure b)
      s := by
  refine Reader.steps_atKeepNames.test (fun hword => ?_) fun _ => embeds_pure
  cases s with
  | nil => exact absurd hword (by decide)
  | cons t s => exact steps_bump.bind embeds_pure

theorem embeds_call : Embeds E Expr.exprEnds fits g.call g'.call s := by
  refine (Reader.embeds_identifier _).bind_any fun name m => ?_
  exact (embeds_arguments h).bind_any fun args m => embeds_ifKeeps

omit h in
theorem steps_atGrouping : Steps Expr.exprEnds Reader.atGrouping s
    (sameWord (current s) "by" || sameWord (current s) "without") s := by
  have hends : ∀ t ∈ Expr.exprEnds, (sameWord t "by" || sameWord t "without") =
      (sameWord "" "by" || sameWord "" "without") := by decide
  intro l hl
  have hat := Reader.takes_atGrouping (s := s ++ l)
  rwa [current_append_congr (g := fun t => sameWord t "by" || sameWord t "without") hends hl] at hat

omit h in
theorem embeds_laterGrouping (earlier : Option Grouping) : Embeds E Expr.exprEnds fits
    (laterGrouping earlier) (laterGrouping earlier) s := by
  refine steps_atGrouping.test (fun _ => ?_) fun _ => embeds_pure
  split
  · exact (refuses_misuse _).embeds
  · exact Reader.embeds_grouping.bind_any fun _ _ => embeds_pure

theorem embeds_aggregate : Embeds E Expr.exprEnds fits g.aggregate g'.aggregate s := by
  have hends : ∀ t ∈ Expr.exprEnds, startsIdent t.toList = startsIdent "".toList := by decide
  refine (Reader.embeds_identifier _).bind_any fun name m => ?_
  refine embeds_token_congr (fun t ht => by simp only [hends t ht]) ?_
  split
  case' isTrue =>
    refine steps_atGrouping.test (fun _ => Reader.embeds_grouping.map.bind_any fun earlier m => ?_)
      fun _ => (refuses_unexpected _ _).bind.embeds
  case' isFalse => refine steps_pure.bind ?_
  -- Whatever stands before the arguments, they are read alike.
  all_goals
    refine embeds_ifToken (fun _ => by decide) (fun _ => ?_) fun _ => (refuses_unexpected _ _).embeds
    refine (embeds_arguments h).bind_any fun args m => ?_
    refine (embeds_laterGrouping _).bind_any fun grouping m => ?_
    refine (steps_atWord (by decide)).test (fun _ => ?_) fun _ => steps_pure.bind embeds_pure
    exact Reader.embeds_limit.bind_any fun _ _ => embeds_pure

omit h in
/-- A name that stands alone is that of a metric, and so it is in front of a comma or a parenthesis. -/
theorem embeds_loneName (t : String) : Embeds E Expr.exprEnds fits g.identExpr g'.identExpr [t] := by
  intro ahead a f heq
  have hmetric : Reader.metric ⟨[t], none, max ahead 1⟩ = .ok (a, f) := heq
  rcases Reader.embeds_metric _ _ _ hmetric with ⟨hfailure, hreads⟩
  refine ⟨hfailure, fun l hl => ?_⟩
  rcases hreads l hl with ⟨p, hp, hread⟩
  have hends : ∀ t ∈ "" :: Expr.exprEnds, ∀ isAggregate, tellsMetric isAggregate t := by decide
  have hnext : ([] ++ l)[0]?.getD "" = current l := by
    cases l <;> rfl
  exact ⟨p, hp, reads_metricName hnext (hends _ (current_mem hl) _) hread⟩

theorem embeds_identExpr : Embeds E Expr.exprEnds fits g.identExpr g'.identExpr s := by
  match s with
  | [] =>
      have hmetric : Refuses Reader.metric [] := Reader.takes_token.refuses
        (Reader.refuses_expect (by decide) _).bind.bind
      exact (Reader.takes_token.refuses ((Reader.takes_lookAt 1).refuses hmetric)).embeds
  | [t] => exact embeds_loneName t
  | t :: next :: m =>
      have hlook : Steps Expr.exprEnds (Reader.lookAt 1) (t :: next :: m) next (t :: next :: m) :=
        fun _ _ => Reader.takes_lookAt 1
      refine steps_token.bind (hlook.bind ?_)
      split
      · exact Reader.embeds_metric
      · split
        · split
          · exact embeds_aggregate h
          · exact Reader.embeds_metric
        · split
          · exact Reader.embeds_metric
          · split
            · split
              · exact embeds_aggregate h
              · exact embeds_call h
            · split
              · exact Reader.embeds_metric
              · exact steps_bump.bind (refuses_unexpected _ _).embeds

theorem embeds_tuple : Embeds E Expr.exprEnds fits g.tuple g'.tuple s := by
  refine (embeds_arguments h).bind_any fun items m => ?_
  refine Reader.steps_atKeepNames.test (fun hword => ?_) fun _ => embeds_pure
  cases markLone items with
  | none => exact embeds_pure
  | some marked =>
      cases m with
      | nil => exact absurd hword (by decide)
      | cons t m => exact steps_bump.bind embeds_pure

omit h in
theorem embeds_number (text t : String) : Embeds E Expr.exprEnds fits
    (number text) (number text) (t :: s) := by
  cases hvalue : NumberLiteral.ofToken text with
  | error cause =>
      have hfails : Refuses (Reader.ofExcept ParseError.number (NumberLiteral.ofToken text)) (t :: s) := by
        rw [hvalue]
        exact fun _ => ⟨_, rfl⟩
      exact hfails.bind.embeds
  | ok n => exact (steps_ofExcept hvalue).bind (steps_bump.bind embeds_pure)

omit h in
theorem embeds_stringOperand : Embeds E Expr.exprEnds fits
    stringOperand stringOperand s := by
  refine Reader.embeds_stringExpr.bind_any fun x m => ?_
  cases x.literal? with
  | some value => exact embeds_pure
  | none => exact embeds_pure

theorem embeds_bareOperand : Embeds E Expr.exprEnds fits
    g.bareOperand g'.bareOperand s := by
  refine embeds_token (fun _ => refuses_throw _) fun t m _ => ?_
  split
  · exact (refuses_throw _).embeds
  · split
    · exact steps_bump.bind embeds_pure
    · split
      · exact embeds_number t t
      · split
        · exact embeds_stringOperand
        · split
          · exact embeds_identExpr h
          · split
            · exact embeds_tuple h
            · split
              · exact Reader.embeds_metric
              · split
                · exact steps_bump.bind ((h.operand m).bind_any fun _ _ => embeds_pure)
                · split
                  · exact steps_bump.bind (h.operand m)
                  · exact (refuses_unexpected _ _).embeds

/-! ## Ranges -/

section Times

variable (hat : ∀ cause, E cause → E (.atExpr cause))
include hat

theorem embeds_time : Embeds E Expr.exprEnds fits g.time g'.time s := by
  refine embeds_ifToken (fun _ => by decide) (fun htoken => ?_) fun _ => embeds_pure
  cases s with
  | nil => exact absurd htoken (by decide)
  | cons t s =>
      refine steps_bump.bind ?_
      intro ahead a f heq
      cases hfound : g.bareOperand ⟨s, none, ahead⟩ with
      | error cause =>
          simp only [hfound] at heq
          cases heq
      | ok found =>
          simp only [hfound] at heq
          cases heq
          rcases embeds_bareOperand h _ _ _ hfound with ⟨hfailure, hreads⟩
          refine ⟨hfailure, fun l hl => ?_⟩
          rcases hreads l hl with ⟨p, hp, hread⟩
          refine ⟨p, hp, fun ahead => ⟨fun hfits => ?_, fun hfits => ?_⟩⟩
          · rcases (hread ahead).1 hfits with ⟨ahead', hok⟩
            exact ⟨ahead', by simp only [hok]⟩
          · rcases (hread ahead).2 hfits with ⟨cause, herror, hcause⟩
            exact ⟨.atExpr cause, by simp only [herror], hat cause hcause⟩

theorem embeds_laterTime (earlier : Option Expr) :
    Embeds E Expr.exprEnds fits (g.laterTime earlier) (g'.laterTime earlier) s := by
  refine (steps_atToken fun _ => by decide).bind ?_
  split
  · exact (refuses_misuse _).embeds
  · split
    · exact embeds_pure
    · exact embeds_time h hat

theorem embeds_rollup (inner : Expr) :
    Embeds E Expr.exprEnds fits (g.rollup inner) (g'.rollup inner) s := by
  have hends : Expr.exprEnds ⊆ rangeEnds := List.subset_append_left _ _
  refine (Reader.embeds_window.mono hends).bind_any fun range m => ?_
  refine (embeds_time h hat).bind_any fun earlier m => ?_
  refine (Reader.embeds_offset.mono hends).bind_any fun offset m => ?_
  refine (embeds_laterTime h hat earlier).bind_any fun time m => ?_
  refine Reader.steps_atKeepNames.test (fun hword => ?_) fun _ => embeds_pure
  cases inner.markKeepNames with
  | none => exact embeds_pure
  | some inner =>
      cases m with
      | nil => exact absurd hword (by decide)
      | cons t m => exact steps_bump.bind embeds_pure

omit h hat in
theorem steps_atTemplates : Steps Expr.exprEnds atTemplates s
    (sameWord (current s) "with" && current s.tail == "(") s := by
  have hends : ∀ t ∈ Expr.exprEnds, sameWord t "with" = sameWord "" "with" ∧
      (t == "(") = ("" == "(") := by decide
  intro l hl
  refine (steps_atWord (fun t ht => (hends t ht).1) l hl).bind ?_
  cases s with
  | nil => exact takes_pure
  | cons t s =>
      rw [current_cons]
      cases sameWord t "with" with
      | false => exact takes_pure
      | true =>
          have hnext : ((t :: s ++ l)[1]?.getD "" == "(") = (current s == "(") := by
            rw [← current_append_congr (g := (· == "(")) (fun t ht => (hends t ht).2) hl]
            cases h : s ++ l <;> simp [h]
          refine (Reader.takes_lookAt 1).bind ?_
          rw [hnext]
          exact takes_pure

theorem embeds_fullOperand : Embeds E Expr.exprEnds fits g.fullOperand g'.fullOperand s := by
  have hends : ∀ t ∈ Expr.exprEnds, startsRange t = startsRange "" := by decide
  refine steps_atTemplates.test (fun hfound => ?_) fun _ => ?_
  · cases s with
    | nil => exact absurd hfound (by decide)
    | cons t s => exact embeds_withTemplates h
  · refine (embeds_bareOperand h).bind_any fun inner m => ?_
    refine embeds_token_congr (fun t ht => by simp only [hends t ht]) ?_
    split
    · exact embeds_rollup h hat inner
    · exact embeds_pure

end Times

end Grammar

/-! ## Expressions -/

namespace Reader

theorem refuses_operand (budget : Nat) : Refuses (operand budget) [] := by
  by_cases hbudget : 4 ≤ budget
  · obtain ⟨b, rfl⟩ := Nat.exists_eq_add_of_le' hbudget
    rw [operand_add]
    have hnone : Takes Grammar.atTemplates [] false [] :=
      Grammar.takes_atTemplates (.inl (by decide))
    have hbare : Refuses (grammar b).bareOperand [] := takes_token.refuses (refuses_throw _)
    exact hnone.refuses hbare.bind
  · have hfew : budget = 0 ∨ budget = 1 ∨ budget = 2 ∨ budget = 3 := by omega
    rcases hfew with rfl | rfl | rfl | rfl <;> exact refuses_throw _

theorem refuses_expression (budget : Nat) : Refuses (expression budget) [] :=
  (refuses_operand budget).bind

/-- One more operator of a chain, with its operand and all that comes behind it. -/
def link (budget : Nat) (left : Expr) (op : Operator) : Reader Expr := do
  bump
  let b ← modifiers op
  let right ← operand budget
  let keepNames ← atKeepNames
  if keepNames then bump
  chain budget (left.attach { b with keepNames } right)

theorem chain_succ (budget : Nat) (left : Expr) : chain (budget + 1) left =
    token >>= fun t => (Operator.ofWord? t).elim (pure left) (link budget left) := by
  rw [chain]
  congr 1
  funext t
  cases Operator.ofWord? t <;> rfl

theorem chain_zero (left : Expr) : chain 0 left =
    token >>= fun t => (Operator.ofWord? t).elim (pure left) fun _ => throw (.tooNested maxDepth) := by
  rw [chain]
  congr 1
  funext t
  cases Operator.ofWord? t <;> rfl

section Expressions

variable (hdeep : E (.tooNested maxDepth)) (hat : ∀ cause, E cause → E (.atExpr cause))

include hdeep in
/-- A reader that has no budget left fails for that reason. -/
theorem embeds_tooNested {α : Type} {ends : List String} {r r' : Reader α} (hfits : ¬fits)
    (h : Embeds E ends True r r s) (hr' : r' = throw (.tooNested maxDepth)) :
    Embeds E ends fits r r' s := by
  intro ahead a f heq
  refine ⟨(h _ _ _ heq).1, fun _ _ => ⟨False, hfits, ?_⟩⟩
  rw [hr']
  exact reads_throw hdeep

theorem embeds_link {b b' : Nat} (left : Expr) (op : Operator) {t : String}
    (ho : ∀ s, Embeds E Expr.exprEnds fits (operand b) (operand b') s)
    (hc : ∀ s left, Embeds E Expr.exprEnds fits (chain b left) (chain b' left) s) :
    Embeds E Expr.exprEnds fits (link b left op) (link b' left op) (t :: s) := by
  refine steps_bump.bind ((embeds_modifiers op).bind_any fun found m => ?_)
  refine (ho m).bind_any fun right m => ?_
  refine steps_atKeepNames.bind ?_
  split
  · rename_i hword
    cases m with
    | nil => exact absurd hword (by decide)
    | cons t m => exact steps_bump.bind (hc _ _)
  · exact hc _ _

/-- The rule for a chain, which goes on behind an operator only. -/
theorem embeds_operators (left : Expr) {k k' : Operator → Reader Expr}
    (h : ∀ op t m, Embeds E Expr.exprEnds fits (k op) (k' op) (t :: m)) :
    Embeds E Expr.exprEnds fits (token >>= fun t => (Operator.ofWord? t).elim (pure left) k)
      (token >>= fun t => (Operator.ofWord? t).elim (pure left) k') s := by
  have hends : ∀ t ∈ Expr.exprEnds, Operator.ofWord? t = Operator.ofWord? "" := by decide
  refine embeds_token_congr (fun t ht => by rw [hends t ht]) ?_
  cases s with
  | nil =>
      have hnone : Operator.ofWord? "" = none := by decide
      rw [current_nil, hnone]
      exact embeds_pure
  | cons t m =>
      cases Operator.ofWord? (current (t :: m)) with
      | none => exact embeds_pure
      | some op => exact h op t m

/-- Operands and chains with this budget are embedded in those with any other. -/
def EmbedsAll (E : ParseError → Prop) (budget : Nat) : Prop :=
  ∀ budget' s,
    Embeds E Expr.exprEnds (budget ≤ budget') (operand budget) (operand budget') s ∧
      ∀ left, Embeds E Expr.exprEnds (budget ≤ budget') (chain budget left) (chain budget' left) s

theorem EmbedsAll.covers {b b' : Nat} (h : EmbedsAll E b) (hfits : fits → b ≤ b') :
    Grammar.Covers E fits (grammar b) (grammar b') where
  expression s := ((h b' s).1.weaken hfits).bind_any fun left m => ((h b' m).2 left).weaken hfits
  operand s := (h b' s).1.weaken hfits
  wanted := refuses_expression b

theorem EmbedsAll.link {b b' : Nat} (h : EmbedsAll E b) (hfits : fits → b ≤ b') (left : Expr)
    (op : Operator) (t : String) (m : List String) :
    Embeds E Expr.exprEnds fits (Reader.link b left op) (Reader.link b' left op) (t :: m) :=
  embeds_link left op (fun s => (h b' s).1.weaken hfits) fun s left => ((h b' s).2 left).weaken hfits

theorem operand_of_lt {budget : Nat} (h : budget < 4) :
    operand budget = throw (.tooNested maxDepth) := by
  have hfew : budget = 0 ∨ budget = 1 ∨ budget = 2 ∨ budget = 3 := by omega
  rcases hfew with rfl | rfl | rfl | rfl <;> rfl

include hdeep hat in
theorem embeds_operand {budget : Nat} (h : ∀ b < budget, EmbedsAll E b) (budget' : Nat) :
    Embeds E Expr.exprEnds (budget ≤ budget') (operand budget) (operand budget') s := by
  by_cases hbudget : 4 ≤ budget
  · obtain ⟨b, rfl⟩ := Nat.exists_eq_add_of_le' hbudget
    have hinside := h b (by omega)
    rw [operand_add]
    by_cases hbudget' : 4 ≤ budget'
    · obtain ⟨b', rfl⟩ := Nat.exists_eq_add_of_le' hbudget'
      rw [operand_add]
      exact Grammar.embeds_fullOperand (hinside.covers fun hle => by omega) hat
    · -- The second budget is spent, so only what the first one reads has to be known.
      have hself : Grammar.Covers E True (grammar b) (grammar b) :=
        hinside.covers fun _ => Nat.le_refl b
      exact embeds_tooNested hdeep (by omega) (Grammar.embeds_fullOperand hself hat)
        (operand_of_lt (by omega))
  · rw [operand_of_lt (by omega)]
    exact (refuses_throw _).embeds

include hdeep in
theorem embeds_chain {budget : Nat} (h : ∀ b < budget, EmbedsAll E b) (budget' : Nat) (left : Expr) :
    Embeds E Expr.exprEnds (budget ≤ budget') (chain budget left) (chain budget' left) s := by
  cases budget with
  | zero =>
      rw [chain_zero]
      cases budget' with
      | zero =>
          rw [chain_zero]
          exact embeds_operators left fun _ _ _ => (refuses_throw _).embeds
      | succ budget' =>
          rw [chain_succ]
          exact embeds_operators left fun _ _ _ => (refuses_throw _).embeds
  | succ budget =>
      have hinside := h budget (Nat.lt_succ_self _)
      rw [chain_succ]
      cases budget' with
      | zero =>
          rw [chain_zero]
          refine embeds_operators left fun op t m => ?_
          exact embeds_tooNested hdeep (by omega)
            (hinside.link (fun _ => Nat.le_refl budget) left op t m) rfl
      | succ budget' =>
          rw [chain_succ]
          exact embeds_operators left fun op t m => hinside.link (fun hle => by omega) left op t m

include hdeep hat in
theorem embedsAll (budget : Nat) : EmbedsAll E budget := by
  -- The induction is on the budget, of which an operand costs four and an operator one.
  induction budget using Nat.strongRecOn with
  | ind budget ih =>
      exact fun budget' s => ⟨embeds_operand hdeep hat ih budget', embeds_chain hdeep ih budget'⟩

include hdeep hat in
/-- What is read as an expression from all tokens is read in front of a comma or a closing
parenthesis, if the budget for depth is not smaller. -/
theorem embeds_expression (budget budget' : Nat) (s : List String) :
    Embeds E Expr.exprEnds (budget ≤ budget') (expression budget) (expression budget') s :=
  ((embedsAll hdeep hat budget).covers id).expression s

end Expressions

end Reader

end SeriesQuery
