import SeriesQuery.Expr.Basic

/-!
# Induction on expressions

`Expr.inductionOn` is induction on the tree of an expression with one case for each kind of node, where
a hypothesis is had of every member of a list of expressions and of the body of every template.

`Expr.AllNodes` says that a property holds of all nodes of an expression, those in the time of a
rollup among them; there is a lemma for each kind of node with operands.  What is equal to a node up
to the values of numbers is a node of its kind.
-/

namespace SeriesQuery
namespace Expr

/-! ## Induction -/

section Induction

variable {P : Expr → Prop}
  (number : ∀ n, P (number n))
  (duration : ∀ d, P (duration d))
  (string : ∀ value, P (string value))
  (concat : ∀ s, P (concat s))
  (selector : ∀ s, P (selector s))
  (selectorExpr : ∀ s, P (selectorExpr s))
  (call : ∀ name args keepNames, (∀ e ∈ args, P e) → P (call name args keepNames))
  (aggregate : ∀ a args, (∀ e ∈ args, P e) → P (aggregate a args))
  (binary : ∀ b l r, P l → P r → P (binary b l r))
  (rollup : ∀ inner range time, P inner → (∀ e ∈ time, P e) → P (rollup inner range time))
  (tuple : ∀ items, (∀ e ∈ items, P e) → P (tuple items))
  (withTemplates : ∀ ts body, (∀ t ∈ ts, P (Template.body t)) → P body →
    P (withTemplates ts body))

include number duration string concat selector selectorExpr call aggregate binary rollup tuple
  withTemplates

/-- Induction on an expression. -/
@[elab_as_elim]
theorem inductionOn (e : Expr) : P e := by
  refine Expr.rec (motive_1 := P) (motive_2 := fun t => P t.body)
    (motive_3 := fun es => ∀ e ∈ es, P e) (motive_4 := fun time => ∀ e ∈ time, P e)
    (motive_5 := fun ts => ∀ t ∈ ts, P (Template.body t))
    number duration string concat selector selectorExpr call aggregate binary rollup tuple
    withTemplates ?template ?nil ?cons ?none ?some ?noTemplates ?moreTemplates e
  case template =>
    intro _ _ body ih
    exact ih
  case nil =>
    intro e he
    cases he
  case cons =>
    intro e es ih ihs
    exact List.forall_mem_cons.2 ⟨ih, ihs⟩
  case none =>
    intro e he
    cases he
  case some =>
    intro e ih e' he
    cases he
    exact ih
  case noTemplates =>
    intro t ht
    cases ht
  case moreTemplates =>
    intro t ts ih ihs
    exact List.forall_mem_cons.2 ⟨ih, ihs⟩

end Induction

/-! ## Nodes -/

/-- The first expression is a node of the second one, be it in the time of a rollup.  Templates are
not looked into. -/
inductive Within (n : Expr) : Expr → Prop where
  | refl : Within n n
  | call {name : String} {args : List Expr} {keepNames : Bool} {e : Expr} :
      e ∈ args → Within n e → Within n (.call name args keepNames)
  | aggregate {a : Aggregation} {args : List Expr} {e : Expr} :
      e ∈ args → Within n e → Within n (.aggregate a args)
  | left {b : BinaryOp} {l r : Expr} : Within n l → Within n (.binary b l r)
  | right {b : BinaryOp} {l r : Expr} : Within n r → Within n (.binary b l r)
  | inner {e : Expr} {range : Range} {time : Option Expr} :
      Within n e → Within n (.rollup e range time)
  | time {inner e : Expr} {range : Range} {time : Option Expr} :
      e ∈ time → Within n e → Within n (.rollup inner range time)
  | tuple {items : List Expr} {e : Expr} : e ∈ items → Within n e → Within n (.tuple items)

/-- A property of all nodes of an expression. -/
def AllNodes (Q : Expr → Prop) (e : Expr) : Prop :=
  ∀ n, Within n e → Q n

section AllNodes

variable {Q : Expr → Prop}

theorem AllNodes.self {e : Expr} (h : AllNodes Q e) : Q e :=
  h e .refl

theorem allNodes_call {name : String} {args : List Expr} {keepNames : Bool} :
    AllNodes Q (.call name args keepNames) ↔
      Q (.call name args keepNames) ∧ ∀ e ∈ args, AllNodes Q e := by
  constructor
  · intro h
    exact ⟨h.self, fun e he n hn => h n (.call he hn)⟩
  · rintro ⟨hself, hargs⟩ n hn
    cases hn with
    | refl => exact hself
    | call he hn => exact hargs _ he n hn

theorem allNodes_aggregate {a : Aggregation} {args : List Expr} :
    AllNodes Q (.aggregate a args) ↔ Q (.aggregate a args) ∧ ∀ e ∈ args, AllNodes Q e := by
  constructor
  · intro h
    exact ⟨h.self, fun e he n hn => h n (.aggregate he hn)⟩
  · rintro ⟨hself, hargs⟩ n hn
    cases hn with
    | refl => exact hself
    | aggregate he hn => exact hargs _ he n hn

theorem allNodes_binary {b : BinaryOp} {l r : Expr} :
    AllNodes Q (.binary b l r) ↔ Q (.binary b l r) ∧ AllNodes Q l ∧ AllNodes Q r := by
  constructor
  · intro h
    exact ⟨h.self, fun n hn => h n (.left hn), fun n hn => h n (.right hn)⟩
  · rintro ⟨hself, hl, hr⟩ n hn
    cases hn with
    | refl => exact hself
    | left hn => exact hl n hn
    | right hn => exact hr n hn

theorem allNodes_rollup {inner : Expr} {range : Range} {time : Option Expr} :
    AllNodes Q (.rollup inner range time) ↔
      Q (.rollup inner range time) ∧ AllNodes Q inner ∧ ∀ e ∈ time, AllNodes Q e := by
  constructor
  · intro h
    exact ⟨h.self, fun n hn => h n (.inner hn), fun e he n hn => h n (.time he hn)⟩
  · rintro ⟨hself, hinner, htime⟩ n hn
    cases hn with
    | refl => exact hself
    | inner hn => exact hinner n hn
    | time he hn => exact htime _ he n hn

theorem allNodes_tuple {items : List Expr} :
    AllNodes Q (.tuple items) ↔ Q (.tuple items) ∧ ∀ e ∈ items, AllNodes Q e := by
  constructor
  · intro h
    exact ⟨h.self, fun e he n hn => h n (.tuple he hn)⟩
  · rintro ⟨hself, hitems⟩ n hn
    cases hn with
    | refl => exact hself
    | tuple he hn => exact hitems _ he n hn

/-- The node is one without operands, or a block of templates. -/
def isAtom : Expr → Bool
  | .call .. | .aggregate .. | .binary .. | .rollup .. | .tuple _ => false
  | _ => true

theorem allNodes_atom {e : Expr} (he : e.isAtom) : AllNodes Q e ↔ Q e := by
  constructor
  · exact AllNodes.self
  · intro h n hn
    cases hn <;> first | exact h | simp [isAtom] at he

end AllNodes

/-! ## Equal trees -/

section Same

variable {e : Expr}

theorem same_number_iff {n : NumberLiteral} :
    e.same (.number n) ↔ ∃ m, e = .number m ∧ sameValue m.value n.value := by
  cases e <;> simp [same]

theorem same_selector_iff {s : Selector} : e.same (.selector s) ↔ e = .selector s := by
  cases e <;> simp [same]

theorem same_binary_iff {b : BinaryOp} {l r : Expr} :
    e.same (.binary b l r) ↔ ∃ l' r', e = .binary b l' r' ∧ l'.same l ∧ r'.same r := by
  cases e <;> simp [same, and_assoc]

theorem same_rollup_iff {inner : Expr} {range : Range} {time : Option Expr} :
    e.same (.rollup inner range time) ↔
      ∃ inner' time', e = .rollup inner' range time' ∧ inner'.same inner ∧
        sameOption time' time := by
  cases e <;> simp [same, and_assoc, and_left_comm]

/-- No numbers stand in a range of a selector. -/
theorem same_selectorRange_iff {s : Selector} {range : Range} :
    e.same (.rollup (.selector s) range none) ↔ e = .rollup (.selector s) range none := by
  rw [same_rollup_iff]
  constructor
  · rintro ⟨inner, time, rfl, hinner, htime⟩
    cases time with
    | some e => cases htime
    | none => rw [same_selector_iff.1 hinner]
  · rintro rfl
    exact ⟨_, none, rfl, same_selector_iff.2 rfl, rfl⟩

end Same

end Expr
end SeriesQuery
