import SeriesQuery.Proofs.Tree
import SeriesQuery.Proofs.Written

/-!
# Precedence in chains of operators

A chain is a first operand and links, each an operator with its modifiers and the operand behind it.
`Expr.chained` attaches the links from the left, as `Reader.chain` does.  `Expr.firstOperand` and
`Expr.links` read a tree from left to right again, and `Expr.Grouped` says that each operator stands
below those that bind less.

* `chained_grouped`, `links_chained` — the tree of a chain is grouped, and reads as the chain;
* `chained_links` — a grouped tree is the tree of the chain that it reads as;
* `Reader.yields_chain` — a chain is read as the tree of a chain.
-/

namespace SeriesQuery

/-! ## Precedence -/

namespace Operator

/-- The operator may be the left operand of the other one without parentheses. -/
def StandsLeftOf (op parent : Operator) : Prop :=
  parent.precedence < op.precedence ∨
    op.precedence = parent.precedence ∧ parent.isRightAssociative = false

/-- The operator may be the right operand of the other one without parentheses. -/
def StandsRightOf (op parent : Operator) : Prop :=
  parent.precedence < op.precedence ∨
    op.precedence = parent.precedence ∧ parent.isRightAssociative

/-- Operators of one precedence associate alike. -/
theorem isRightAssociative_eq (op : Operator) : op.isRightAssociative = (op.precedence == 60) := by
  cases op <;> rfl

theorem yieldsTo_iff {earlier later : Operator} :
    earlier.yieldsTo later ↔ later.StandsRightOf earlier := by
  simp only [yieldsTo, StandsRightOf, isRightAssociative_eq, Bool.or_eq_true, Bool.and_eq_true,
    decide_eq_true_eq, beq_iff_eq]
  omega

theorem not_yieldsTo_iff {earlier later : Operator} :
    earlier.yieldsTo later = false ↔ earlier.StandsLeftOf later := by
  simp only [yieldsTo, StandsLeftOf, isRightAssociative_eq, Bool.or_eq_false_iff,
    Bool.and_eq_false_iff, decide_eq_false_iff_not, beq_eq_false_iff_ne]
  omega

theorem StandsLeftOf.le {op parent : Operator} (h : op.StandsLeftOf parent) :
    parent.precedence ≤ op.precedence := by
  unfold StandsLeftOf at h
  omega

theorem StandsRightOf.le {op parent : Operator} (h : op.StandsRightOf parent) :
    parent.precedence ≤ op.precedence := by
  unfold StandsRightOf at h
  omega

/-- What binds no less than a right operand may be a right operand, too. -/
theorem StandsRightOf.of_le {op op' parent : Operator} (h : op.StandsRightOf parent)
    (hle : op.precedence ≤ op'.precedence) : op'.StandsRightOf parent := by
  unfold StandsRightOf at h ⊢
  rcases h with hlt | ⟨heq, hright⟩
  · exact .inl (by omega)
  · rcases Nat.lt_or_ge parent.precedence op'.precedence with hlt | hge
    · exact .inl hlt
    · exact .inr ⟨by omega, hright⟩

end Operator

/-! ## Chains -/

/-- An operator with its modifiers, and the operand behind it. -/
abbrev Link := BinaryOp × Expr

namespace Expr

/-- The tree of a chain: its links are attached from the left. -/
def chained (first : Expr) (chain : List Link) : Expr :=
  chain.foldl (fun left link => left.attach link.1 link.2) first

/-- The leftmost operand of a tree of operators. -/
def firstOperand : Expr → Expr
  | binary _ l _ => firstOperand l
  | e => e

/-- The operators of a tree from left to right, each with the operand behind it. -/
def links : Expr → List Link
  | binary b l r => links l ++ (b, firstOperand r) :: links r
  | _ => []

/-- The operator of the expression, if it is one, has the property. -/
def RootIs (P : Operator → Prop) : Expr → Prop
  | binary b _ _ => P b.op
  | _ => True

/-- Each operator stands below those that bind less, and on the side that it is grouped from. -/
def Grouped : Expr → Prop
  | binary b l r =>
      l.RootIs (·.StandsLeftOf b.op) ∧ r.RootIs (·.StandsRightOf b.op) ∧ Grouped l ∧ Grouped r
  | _ => True

@[simp] theorem firstOperand_binary (b : BinaryOp) (l r : Expr) :
    (binary b l r).firstOperand = l.firstOperand :=
  rfl

@[simp] theorem links_binary (b : BinaryOp) (l r : Expr) :
    (binary b l r).links = l.links ++ (b, r.firstOperand) :: r.links :=
  rfl

theorem firstOperand_of_not_isBinary {e : Expr} (h : e.isBinary = false) : e.firstOperand = e := by
  cases e <;> first | rfl | cases h

theorem links_of_not_isBinary {e : Expr} (h : e.isBinary = false) : e.links = [] := by
  cases e <;> first | rfl | cases h

theorem rootIs_of_not_isBinary {P : Operator → Prop} {e : Expr} (h : e.isBinary = false) :
    e.RootIs P := by
  cases e <;> trivial

theorem RootIs.imp {P Q : Operator → Prop} {e : Expr} (h : e.RootIs P) (hPQ : ∀ op, P op → Q op) :
    e.RootIs Q := by
  cases e with
  | binary b l r => exact hPQ b.op h
  | _ => trivial

theorem grouped_of_not_isBinary {e : Expr} (h : e.isBinary = false) : e.Grouped := by
  cases e <;> trivial

/-! ## Reading a tree again -/

theorem firstOperand_attach (left : Expr) (b : BinaryOp) (right : Expr) :
    (left.attach b right).firstOperand = left.firstOperand := by
  fun_induction attach left b right with
  | case1 => rfl
  | case2 => rfl
  | case3 => rfl

theorem links_attach (left : Expr) (b : BinaryOp) {right : Expr} (h : right.isBinary = false) :
    (left.attach b right).links = left.links ++ [(b, right)] := by
  have hfirst := firstOperand_of_not_isBinary h
  have hnone := links_of_not_isBinary h
  fun_induction attach left b right with
  | case1 b right c l r _ ih => simp [ih h hfirst hnone, firstOperand_attach]
  | case2 => simp [hfirst, hnone]
  | case3 => simp [hfirst, hnone]

theorem chained_cons (first : Expr) (link : Link) (chain : List Link) :
    first.chained (link :: chain) = (first.attach link.1 link.2).chained chain :=
  rfl

theorem chained_append (first : Expr) (chain more : List Link) :
    first.chained (chain ++ more) = (first.chained chain).chained more :=
  List.foldl_append

theorem firstOperand_chained (first : Expr) (chain : List Link) :
    (first.chained chain).firstOperand = first.firstOperand := by
  induction chain generalizing first with
  | nil => rfl
  | cons link chain ih => rw [chained_cons, ih, firstOperand_attach]

theorem links_chained (first : Expr) {chain : List Link}
    (h : ∀ link ∈ chain, link.2.isBinary = false) :
    (first.chained chain).links = first.links ++ chain := by
  induction chain generalizing first with
  | nil => simp [chained]
  | cons link chain ih =>
      have hparts := List.forall_mem_cons.1 h
      rw [chained_cons, ih _ hparts.2, links_attach _ _ hparts.1, List.append_assoc]
      rfl

/-! ## Grouping -/

/-- The root of a chain with one more link is the root that it had, or the operator of the link. -/
theorem rootIs_attach {P : Operator → Prop} {left : Expr} {b : BinaryOp} {right : Expr}
    (hleft : left.RootIs P) (hb : P b.op) : (left.attach b right).RootIs P := by
  fun_induction attach left b right with
  | case1 => exact hleft
  | case2 => exact hb
  | case3 => exact hb

/-- No operator of the tree keeps the names of metrics. -/
def Open (e : Expr) : Prop :=
  ∀ link ∈ e.links, link.1.keepNames = false

theorem Open.left {b : BinaryOp} {l r : Expr} (h : (binary b l r).Open) : l.Open := by
  intro link hlink
  exact h link (by simp [hlink])

theorem Open.right {b : BinaryOp} {l r : Expr} (h : (binary b l r).Open) : r.Open := by
  intro link hlink
  exact h link (by simp [hlink])

theorem Open.root {b : BinaryOp} {l r : Expr} (h : (binary b l r).Open) : b.keepNames = false :=
  h (b, r.firstOperand) (by simp)

/-- One more link keeps the tree grouped.  On its right edge the operators bind more and more, so
that the place for the new one is the first where the operator there does not yield. -/
theorem Grouped.attach {left : Expr} {b : BinaryOp} {right : Expr} (hleft : left.Grouped)
    (hopen : left.Open) (hright : right.isBinary = false) : (left.attach b right).Grouped := by
  fun_induction Expr.attach left b right with
  | case1 b right c l r hyields ih =>
      rcases hleft with ⟨hroot, hrootRight, hl, hr⟩
      -- The root keeps its place, as everything that is now on its right may stand there.
      simp only [Bool.and_eq_true] at hyields
      have hb := Operator.yieldsTo_iff.1 hyields.2
      exact ⟨hroot, rootIs_attach hrootRight hb, hl, ih hr hopen.right hright⟩
  | case2 c l r b right hyields =>
      -- The root does not yield, so that the whole tree is the left operand.
      have hnot : c.op.yieldsTo b.op = false := by simpa [hopen.root] using hyields
      exact ⟨Operator.not_yieldsTo_iff.1 hnot, rootIs_of_not_isBinary hright, hleft,
        grouped_of_not_isBinary hright⟩
  | case3 left b right hnot =>
      have hatom : left.isBinary = false := by
        cases left with
        | binary c l r => exact absurd rfl (hnot c l r)
        | _ => rfl
      exact ⟨rootIs_of_not_isBinary hatom, rootIs_of_not_isBinary hright, hleft,
        grouped_of_not_isBinary hright⟩

theorem chained_grouped {first : Expr} {chain : List Link} (hfirst : first.Grouped)
    (hopen : first.Open) (h : ∀ link ∈ chain, link.2.isBinary = false ∧ link.1.keepNames = false) :
    (first.chained chain).Grouped := by
  induction chain generalizing first with
  | nil => exact hfirst
  | cons link chain ih =>
      have hparts := List.forall_mem_cons.1 h
      have hattached : (first.attach link.1 link.2).Open := by
        intro link' hlink'
        rw [links_attach _ _ hparts.1.1] at hlink'
        rcases List.mem_append.1 hlink' with hmem | hmem
        · exact hopen link' hmem
        · rw [List.mem_singleton.1 hmem]
          exact hparts.1.2
      exact ih (hfirst.attach hopen hparts.1.1) hattached hparts.2

/-! ## Uniqueness -/

/-- No operator of the expression binds less than this one. -/
def BindsLeast (e : Expr) (op : Operator) : Prop :=
  ∀ link ∈ e.links, op.precedence ≤ link.1.op.precedence

theorem BindsLeast.of_le {e : Expr} (h : e.RootIs e.BindsLeast) {parent : Operator}
    (hroot : e.RootIs fun op => parent.precedence ≤ op.precedence) : e.BindsLeast parent := by
  intro link hlink
  cases e with
  | binary b l r => exact Nat.le_trans hroot (h link hlink)
  | _ => cases hlink

/-- In a grouped tree no operator binds less than the one at the root. -/
theorem Grouped.bindsLeast {e : Expr} (h : e.Grouped) : e.RootIs e.BindsLeast := by
  induction e using Expr.inductionOn with
  | binary b l r ihl ihr =>
      rcases h with ⟨hrootLeft, hrootRight, hl, hr⟩
      have hleft := BindsLeast.of_le (ihl hl) (hrootLeft.imp fun _ => Operator.StandsLeftOf.le)
      have hright := BindsLeast.of_le (ihr hr) (hrootRight.imp fun _ => Operator.StandsRightOf.le)
      intro link hlink
      rw [links_binary] at hlink
      rcases List.mem_append.1 hlink with hmem | hmem
      · exact hleft link hmem
      · rcases List.mem_cons.1 hmem with rfl | hmem
        · exact Nat.le_refl _
        · exact hright link hmem
  | _ => trivial

/-- All operators of a right operand may be right operands of the same operator. -/
theorem Grouped.standsRightOf {e : Expr} (h : e.Grouped) {parent : Operator}
    (hroot : e.RootIs (·.StandsRightOf parent)) :
    ∀ link ∈ e.links, link.1.op.StandsRightOf parent := by
  intro link hlink
  have hleast := h.bindsLeast
  cases e with
  | binary b l r => exact hroot.of_le (hleast link hlink)
  | _ => cases hlink

/-- Links that bind more than the root go to its right operand. -/
theorem chained_binary {b : BinaryOp} (hb : b.keepNames = false) (l : Expr) {r : Expr}
    {chain : List Link} (h : ∀ link ∈ chain, link.1.op.StandsRightOf b.op) :
    (binary b l r).chained chain = binary b l (r.chained chain) := by
  induction chain generalizing r with
  | nil => rfl
  | cons link chain ih =>
      have hparts := List.forall_mem_cons.1 h
      have hyields := Operator.yieldsTo_iff.2 hparts.1
      have hattach : (binary b l r).attach link.1 link.2 = binary b l (r.attach link.1 link.2) := by
        simp [Expr.attach, hb, hyields]
      rw [chained_cons, hattach, ih hparts.2, chained_cons]

theorem attach_of_rootIs {left : Expr} {b : BinaryOp} {right : Expr}
    (h : left.RootIs (·.StandsLeftOf b.op)) : left.attach b right = binary b left right := by
  cases left with
  | binary c l r =>
      have hnot := Operator.not_yieldsTo_iff.2 h
      simp [Expr.attach, hnot]
  | _ => rfl

/-- A grouped tree is the tree of the chain that it reads as. -/
theorem chained_links {e : Expr} (h : e.Grouped) (hopen : e.Open) :
    e.firstOperand.chained e.links = e := by
  induction e using Expr.inductionOn with
  | binary b l r ihl ihr =>
      rcases h with ⟨hrootLeft, hrootRight, hl, hr⟩
      -- The chain builds the left operand, then the root, then goes on in the right operand.
      have hright := hr.standsRightOf hrootRight
      calc (binary b l r).firstOperand.chained (binary b l r).links
          = (l.attach b r.firstOperand).chained r.links := by
            rw [firstOperand_binary, links_binary, chained_append, ihl hl hopen.left, chained_cons]
        _ = (binary b l r.firstOperand).chained r.links := by rw [attach_of_rootIs hrootLeft]
        _ = binary b l (r.firstOperand.chained r.links) := chained_binary hopen.root l hright
        _ = binary b l r := by rw [ihr hr hopen.right]
  | _ => rfl

/-- The tree of a chain is the only grouped one that reads as the chain. -/
theorem eq_chained_iff {first : Expr} {chain : List Link} (hfirst : first.isBinary = false)
    (hchain : ∀ link ∈ chain, link.2.isBinary = false ∧ link.1.keepNames = false) (e : Expr) :
    e = first.chained chain ↔ e.firstOperand = first ∧ e.links = chain ∧ e.Grouped := by
  constructor
  · rintro rfl
    have hnone := links_of_not_isBinary hfirst
    have hopen : first.Open := by
      intro link hlink
      rw [hnone] at hlink
      cases hlink
    refine ⟨?_, ?_, chained_grouped (grouped_of_not_isBinary hfirst) hopen hchain⟩
    · rw [firstOperand_chained, firstOperand_of_not_isBinary hfirst]
    · rw [links_chained first fun link hlink => (hchain link hlink).1, hnone, List.nil_append]
  · rintro ⟨rfl, rfl, hgrouped⟩
    exact (chained_links hgrouped fun link hlink => (hchain link hlink).2).symm

/-- The metric of a name. -/
def ofMetric (name : String) : Expr :=
  selector (.ofName name)

/-- The links of a chain that goes up, down and up in precedence, and is grouped from the right. -/
def mixedChain : List Link :=
  [(.plain .mul, ofMetric "b"), ({ BinaryOp.plain .gt with asBool := true }, ofMetric "c"),
    ({ BinaryOp.plain .sub with matching := some ⟨.on, ["job"]⟩ }, ofMetric "d"),
    (.plain .pow, ofMetric "e"), (.plain .pow, ofMetric "f")]

/-- The tree of `mixedChain` behind a first operand. -/
def mixedTree : Expr :=
  binary { BinaryOp.plain .gt with asBool := true }
    (binary (.plain .mul) (ofMetric "a") (ofMetric "b"))
    (binary { BinaryOp.plain .sub with matching := some ⟨.on, ["job"]⟩ } (ofMetric "c")
      (binary (.plain .pow) (ofMetric "d")
        (binary (.plain .pow) (ofMetric "e") (ofMetric "f"))))

theorem eq_chained_mixedChain :
    mixedTree = (ofMetric "a").chained mixedChain ∧ mixedTree.firstOperand = ofMetric "a" ∧
      mixedTree.links = mixedChain ∧ mixedTree.Grouped := by
  have hchain : ∀ link ∈ mixedChain, link.2.isBinary = false ∧ link.1.keepNames = false := by
    simp [mixedChain, ofMetric, isBinary, BinaryOp.plain]
  have htree : mixedTree = (ofMetric "a").chained mixedChain := rfl
  exact ⟨htree, (eq_chained_iff rfl hchain mixedTree).1 htree⟩

end Expr

/-! ## Reading chains -/

namespace Reader

/-- What is read behind a chain is attached to it, link by link. -/
theorem yields_chain (budget : Nat) (left : Expr) :
    Yields (fun e => ∃ chain : List Link, e = left.chained chain) (chain budget left) := by
  induction budget generalizing left with
  | zero =>
      unfold chain
      refine yields_bind_any fun text => ?_
      split
      · exact yields_pure ⟨[], rfl⟩
      · exact yields_throw _
  | succ budget ih =>
      unfold chain
      refine yields_bind_any fun text => ?_
      split
      · exact yields_pure ⟨[], rfl⟩
      · refine yields_bind_any fun _ => yields_bind_any fun b => yields_bind_any fun right => ?_
        refine yields_bind_any fun keepNames => ?_
        have hmore : Yields (fun e => ∃ chain : List Link, e = left.chained chain)
            (chain budget (left.attach { b with keepNames } right)) := by
          intro feed found hfound
          rcases ih _ feed found hfound with ⟨chain, hchain⟩
          exact ⟨({ b with keepNames }, right) :: chain, hchain⟩
        dsimp only
        split
        · exact yields_bind_any fun _ => hmore
        · exact hmore

end Reader
end SeriesQuery
