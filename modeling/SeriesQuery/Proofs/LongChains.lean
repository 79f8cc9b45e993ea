import SeriesQuery.Proofs.BinaryTrees
import SeriesQuery.Proofs.Depth
import SeriesQuery.Proofs.LeftOperands
import SeriesQuery.Proofs.Precedence
import SeriesQuery.Proofs.Respacing

/-!
# Long chains of operators

A chain of operators over names of metrics has no parentheses: each operator costs one of the budget
for depth, wherever it stands in the tree (`Reader.reads_metricLinks`).  The canonical text has
parentheses around every operand that is an operator, and they cost four each (`Expr.cost`).  So the
chain and the text of its tree are both accepted, as far as the budget allows, but not up to the
same length (`parse_chain`): a sum of 65 metrics is accepted, and its text is not.
-/

namespace SeriesQuery

open Text

/-! ## Chains over names -/

/-- An operator without the mark that names are kept, and the name of a metric that is not read as
one of its modifiers. -/
structure IsMetricLink (link : BinaryOp × String) : Prop where
  wellFormed : link.1.WellFormed
  legible : link.1.Legible
  unmarked : link.1.keepNames = false
  name : IsMetricName link.2
  notModifier : Expr.isModifierWord link.2 = false

/-- The tokens of a chain over names of metrics. -/
def chainTokens (first : String) (chain : List (BinaryOp × String)) : List String :=
  escapeIdent first :: chain.flatMap fun link => link.1.tokens ++ [escapeIdent link.2]

/-- The tree of a chain over names of metrics. -/
def chainTree (first : String) (chain : List (BinaryOp × String)) : Expr :=
  (Expr.ofMetric first).chained (chain.map fun link => (link.1, Expr.ofMetric link.2))

theorem links_chainTree (first : String) (chain : List (BinaryOp × String)) :
    (chainTree first chain).links = chain.map fun link => (link.1, Expr.ofMetric link.2) := by
  have hatoms : ∀ link ∈ chain.map fun link => (link.1, Expr.ofMetric link.2),
      link.2.isBinary = false := by
    intro link hlink
    rcases List.mem_map.1 hlink with ⟨named, _, rfl⟩
    rfl
  exact Expr.links_chained (Expr.ofMetric first) hatoms

namespace Expr

theorem OverMetrics.attach {left right : Expr} {b : BinaryOp} (hb : b.WellFormed)
    (hlegible : b.Legible) (hleft : left.OverMetrics) (hright : right.OverMetrics) :
    (left.attach b right).OverMetrics := by
  fun_induction Expr.attach left b right with
  | case1 b right c l r _ ih =>
      cases hleft with
      | binary hc hclegible hl hr => exact .binary hc hclegible hl (ih hb hlegible hr hright)
  | case2 => exact .binary hb hlegible hleft hright
  | case3 => exact .binary hb hlegible hleft hright

theorem OverMetrics.chained {first : Expr} {chain : List Link} (hfirst : first.OverMetrics)
    (h : ∀ link ∈ chain, link.1.WellFormed ∧ link.1.Legible ∧ link.2.OverMetrics) :
    (first.chained chain).OverMetrics := by
  induction chain generalizing first with
  | nil => exact hfirst
  | cons link chain ih =>
      rcases List.forall_mem_cons.1 h with ⟨⟨hwellFormed, hlegible, hlink⟩, hchain⟩
      exact ih (hfirst.attach hwellFormed hlegible hlink) hchain

/-! ## What trees cost -/

/-- A node is never as deep as what its text costs. -/
theorem OverMetrics.depth_add_le_cost {e : Expr} (h : e.OverMetrics) :
    e.depth + nestingCost ≤ e.cost := by
  induction h with
  | metric _ => exact Nat.le_refl _
  | @binary b l r _ _ hl hr ihl ihr =>
      -- An operand without parentheses is a leaf.
      have hleft : 1 + l.depth + nestingCost ≤
          max (parenCost (l.leftNeedsParens b.op) l.cost)
            (1 + parenCost r.rightNeedsParens r.cost) := by
        cases hl with
        | metric _ =>
            have hcost := r.nestingCost_le_cost
            have hparens := le_parenCost r.rightNeedsParens r.cost
            simp only [depth, nestingCost] at hcost ⊢
            omega
        | binary _ _ _ _ =>
            simp only [leftNeedsParens, parenCost, if_true, nestingCost] at ihl ⊢
            omega
      have hright : 1 + r.depth + nestingCost ≤ 1 + parenCost r.rightNeedsParens r.cost := by
        have hparens := le_parenCost r.rightNeedsParens r.cost
        omega
      have hall := le_parenCost b.keepNames (max (parenCost (l.leftNeedsParens b.op) l.cost)
        (1 + parenCost r.rightNeedsParens r.cost))
      simp only [depth, cost]
      omega

/-- A tree is no deeper than it has operators. -/
theorem OverMetrics.depth_le_length {e : Expr} (h : e.OverMetrics) : e.depth ≤ e.links.length := by
  induction h with
  | metric _ => exact Nat.le_refl _
  | binary _ _ _ _ ihl ihr =>
      simp only [depth, links_binary, List.length_append, List.length_cons]
      omega

theorem parenCost_le (needed : Bool) (cost : Nat) : parenCost needed cost ≤ cost + nestingCost := by
  unfold parenCost
  split <;> omega

/-- Without marks an operator adds five to the cost at most: one, and four for parentheses. -/
theorem OverMetrics.cost_le {e : Expr} (h : e.OverMetrics) (hopen : e.Open) :
    e.cost ≤ 5 * e.links.length + nestingCost := by
  induction h with
  | metric _ => exact Nat.le_refl _
  | @binary b l r _ _ _ _ ihl ihr =>
      have hl := ihl hopen.left
      have hr := ihr hopen.right
      have hleft := parenCost_le (l.leftNeedsParens b.op) l.cost
      have hright := parenCost_le r.rightNeedsParens r.cost
      have hcost : (Expr.binary b l r).cost = max (parenCost (l.leftNeedsParens b.op) l.cost)
          (1 + parenCost r.rightNeedsParens r.cost) := by
        rw [cost, hopen.root]
        rfl
      rw [hcost, links_binary, List.length_append, List.length_cons]
      simp only [nestingCost] at hl hr hleft hright ⊢
      omega

theorem OverMetrics.settled {e : Expr} (h : e.OverMetrics) : AllNodes IsSettled e := by
  induction h with
  | @metric name _ => exact (allNodes_atom rfl).2 ⟨Selector.valid_ofName name, trivial⟩
  | binary hwellFormed _ _ _ ihl ihr => exact allNodes_binary.2 ⟨⟨hwellFormed, trivial⟩, ihl, ihr⟩

/-- A tree within the budget is in normal form. -/
theorem OverMetrics.normalize_of_le {e : Expr} (h : e.OverMetrics)
    (hdepth : e.depth ≤ depthBudget) : SeriesQuery.normalize e = .ok e := by
  have hfits : ¬e.exceeds depthBudget = true := by
    rw [exceeds_iff]
    omega
  have hsimple := h.simple
  unfold SeriesQuery.normalize
  rw [if_neg hfits]
  simp only [hsimple.1, hsimple.2.1, hsimple.2.2]
  rfl

theorem tokens_metric {name : String} (h : name ≠ "") :
    (ofMetric name).tokens = [escapeIdent name] := by
  simp [ofMetric, tokens, Selector.tokens, Selector.name?_ofName h, Selector.writtenGroups_ofName h]

/-- The name of a metric is an operand of its own in front of an operator and at the end. -/
theorem reads_metricOperand {name : String} (h : IsMetricName name) (budget : Nat) {l : List String}
    (hl : current l ∈ operandEnds) :
    Reads (.tooNested maxDepth = ·) (nestingCost ≤ budget) (Reader.operand budget)
      (escapeIdent name :: l) (ofMetric name) l := by
  have hmetric := OverMetrics.metric h
  have hstand : (ofMetric name).standsBefore l := by
    rintro _ ⟨found, hfound, haggregate⟩
    rw [Selector.name?_ofName h.legible.ne_empty] at hfound
    cases hfound
    rw [h.notAggregate] at haggregate
    cases haggregate
  have hread := hmetric.readsBack.operand rfl budget l hl hstand
  have htokens := tokens_metric h.legible.ne_empty
  rw [ofMetric] at htokens
  rwa [htokens, written, Selector.reread_ofName h.legible.ne_empty] at hread

end Expr

/-! ## Reading -/

/-- The modifiers end in front of the name. -/
theorem IsMetricLink.takes_modifiers {link : BinaryOp × String} (h : IsMetricLink link)
    (l : List String) :
    Takes (Reader.modifiers link.1.op) (link.1.modifierTokens ++ (escapeIdent link.2 :: l)) link.1
      (escapeIdent link.2 :: l) := by
  have hmore : link.1.takesMore (escapeIdent link.2) = false :=
    h.name.legible.takesMore_escapeIdent h.notModifier link.1
  have hplus : escapeIdent link.2 ≠ "+" :=
    (startsOperand_escapeIdent h.name.legible.ne_empty).ne fun c cs heq => by
      have htext : "+".toList = ['+'] := by decide
      rw [htext] at heq
      cases heq
      decide
  have hmodifiers := Reader.takes_modifiers (l := escapeIdent link.2 :: l) h.wellFormed h.legible
    hmore hplus
  have hunmarked : { link.1 with keepNames := false } = link.1 := by rw [← h.unmarked]
  rwa [hunmarked] at hmodifiers

section Chains

variable {chain : List (BinaryOp × String)} (h : ∀ link ∈ chain, IsMetricLink link)
include h

theorem current_links : current (chain.flatMap fun link => link.1.tokens ++ [escapeIdent link.2]) ∈
    Expr.operandEnds := by
  cases chain with
  | nil => decide
  | cons link chain =>
      rw [List.flatMap_cons, List.append_assoc]
      exact Expr.mem_operandEnds link.1 _

/-- Each link costs one of the budget, and the last operand four more. -/
theorem Reader.reads_metricLinks (budget : Nat) (left : Expr) :
    Reads (.tooNested maxDepth = ·) (chain = [] ∨ chain.length + Expr.nestingCost ≤ budget)
      (Reader.chain budget left)
      (chain.flatMap fun link => link.1.tokens ++ [escapeIdent link.2])
      (left.chained (chain.map fun link => (link.1, Expr.ofMetric link.2))) [] := by
  -- The induction is on the links, as the budget and the tree so far change with each of them.
  induction chain generalizing budget left with
  | nil => exact (Reader.takes_chainEnd budget left (by decide)).reads (.inl rfl)
  | cons link chain ih =>
      rcases List.forall_mem_cons.1 h with ⟨hlink, hchain⟩
      have htokens : (link :: chain).flatMap (fun link => link.1.tokens ++ [escapeIdent link.2]) =
          link.1.op.symbol :: (link.1.modifierTokens ++ (escapeIdent link.2 ::
            chain.flatMap fun link => link.1.tokens ++ [escapeIdent link.2])) := by
        simp [BinaryOp.tokens]
      have hends := current_links hchain
      rw [htokens]
      generalize chain.flatMap (fun link => link.1.tokens ++ [escapeIdent link.2]) = rest
        at hends ih ⊢
      cases budget with
      | zero =>
          refine Reads.congr (p := False) ?_ (by simp [Expr.nestingCost])
          refine takes_token.bind ?_
          simp only [current_cons, ofWord?_symbol]
          exact reads_throw rfl
      | succ budget =>
          have hoperand := Expr.reads_metricOperand hlink.name budget hends
          have hnone : Takes atKeepNames rest false rest :=
            takes_notWord (Grammar.words_bareEnds _
              (Grammar.not_range_operandEnds _ hends).2.2.2.2).1
          have hunmarked : { link.1 with keepNames := false } = link.1 := by rw [← hlink.unmarked]
          have hrest := ih hchain budget (left.attach link.1 (Expr.ofMetric link.2))
          refine Reads.congr (takes_token.bind ?_) (p := Expr.nestingCost ≤ budget ∧
            (chain = [] ∨ chain.length + Expr.nestingCost ≤ budget)) ?_
          · simp only [current_cons, ofWord?_symbol]
            refine takes_bump.bind ((hlink.takes_modifiers rest).bind (reads_bind hoperand (hnone.bind ?_)))
            simp only [Bool.false_eq_true, if_false, hunmarked]
            exact hrest
          · cases chain with
            | nil => simp [Expr.nestingCost]
            | cons next chain =>
                simp only [Expr.nestingCost, List.length_cons, reduceCtorEq, false_or]
                omega

theorem overMetrics_chainTree {first : String} (hfirst : IsMetricName first) :
    (chainTree first chain).OverMetrics := by
  refine Expr.OverMetrics.chained (.metric hfirst) fun link hlink => ?_
  rcases List.mem_map.1 hlink with ⟨named, hmem, rfl⟩
  have hnamed := h named hmem
  exact ⟨hnamed.wellFormed, hnamed.legible, .metric hnamed.name⟩

theorem depth_chainTree_le {first : String} (hfirst : IsMetricName first) :
    (chainTree first chain).depth ≤ chain.length :=
  calc (chainTree first chain).depth
      ≤ (chainTree first chain).links.length := (overMetrics_chainTree h hfirst).depth_le_length
    _ = chain.length := by rw [links_chainTree, List.length_map]

/-- A text with the tokens of a chain is read as its tree, as far as the budget allows. -/
theorem ofText_chain {first query : String} (hfirst : IsMetricName first)
    (htexts : Lexeme.texts query.toList = (chainTokens first chain, true)) :
    Expr.ofText query =
      if chain.length + Expr.nestingCost ≤ depthBudget then .ok (chainTree first chain)
      else .error (.tooNested maxDepth) := by
  have hoperand := Expr.reads_metricOperand hfirst depthBudget (current_links h)
  have hchain := Reader.reads_metricLinks h depthBudget (Expr.ofMetric first)
  have hread : Reads (.tooNested maxDepth = ·) (chain.length + Expr.nestingCost ≤ depthBudget)
      (Reader.expression depthBudget) (chainTokens first chain) (chainTree first chain) [] := by
    refine (reads_bind hoperand hchain).congr ⟨fun hfits => ?_, fun hfits => ⟨?_, .inr hfits⟩⟩
    · rcases hfits with ⟨hfits, rfl | hmore⟩
      · simpa using hfits
      · exact hmore
    · omega
  have htext := Expr.ofText_of_reads htexts hread
  split
  · exact htext.1 ‹_›
  · rcases htext.2 ‹_› with ⟨cause, heq, rfl⟩
    exact heq

/-- A text with the tokens of a chain stands for its tree, if there are 252 operators at most. -/
theorem parse_of_chain {first query : String} (hfirst : IsMetricName first)
    (htexts : Lexeme.texts query.toList = (chainTokens first chain, true)) :
    parse query =
      if chain.length + Expr.nestingCost ≤ depthBudget then .ok (chainTree first chain)
      else .error (.tooNested maxDepth) := by
  have htree := overMetrics_chainTree h hfirst
  have hdepth := depth_chainTree_le h hfirst
  unfold parse
  rw [ofText_chain h hfirst htexts]
  split
  · rename_i hfits
    have hexpand : (chainTree first chain).expandTemplates = .ok (chainTree first chain) := by
      rw [Expr.expandTemplates_of_settled htree.settled, htree.simple.1]
    have hnormalize := htree.normalize_of_le (by omega)
    simp only [Bind.bind, Except.bind, hexpand, hnormalize]
  · rfl

end Chains

/-- The text of a tree of operators over names stands for that tree, if its cost is within the
budget, and else it is refused. -/
theorem Expr.OverMetrics.parse_render {e : Expr} (h : e.OverMetrics) :
    parse e.render = if e.cost ≤ depthBudget then .ok e else .error (.tooNested maxDepth) := by
  have htext := h.readsBack.ofText_render (Expr.spelled_of_readable h.readable)
  have hdepth := h.depth_add_le_cost
  unfold parse
  split
  · rename_i hfits
    have hexpand : e.written.expandTemplates = .ok e := by
      rw [Expr.expandTemplates_of_settled h.settled_written, h.dropParens_written]
    have hnormalize := h.normalize_of_le (by omega)
    rw [htext.1 hfits]
    simp only [Bind.bind, Except.bind, hexpand, hnormalize]
  · rename_i hdeep
    rcases htext.2 hdeep with ⟨cause, heq, rfl⟩
    rw [heq]
    rfl

/-- A chain of operators over names of metrics is accepted if each operator and an operand fit the
budget, and its canonical text if the parentheses fit it as well.  They do for fifty operators, in
whatever order these stand. -/
theorem parse_chain {first query : String} {chain : List (BinaryOp × String)}
    (hfirst : IsMetricName first) (h : ∀ link ∈ chain, IsMetricLink link)
    (htexts : Lexeme.texts query.toList = (chainTokens first chain, true)) :
    (parse query =
      if chain.length + Expr.nestingCost ≤ depthBudget then .ok (chainTree first chain)
      else .error (.tooNested maxDepth)) ∧
    (parse (chainTree first chain).render =
      if (chainTree first chain).cost ≤ depthBudget then .ok (chainTree first chain)
      else .error (.tooNested maxDepth)) ∧
    (chain.length ≤ 50 → (chainTree first chain).cost ≤ depthBudget) := by
  have htree := overMetrics_chainTree h hfirst
  refine ⟨parse_of_chain h hfirst htexts, htree.parse_render, fun hfew => ?_⟩
  have hlinks := links_chainTree first chain
  have hopen : (chainTree first chain).Open := by
    rw [Expr.Open, hlinks]
    intro link hlink
    rcases List.mem_map.1 hlink with ⟨named, hmem, rfl⟩
    exact (h named hmem).unmarked
  calc (chainTree first chain).cost
      ≤ 5 * (chainTree first chain).links.length + Expr.nestingCost := htree.cost_le hopen
    _ = 5 * chain.length + Expr.nestingCost := by rw [hlinks, List.length_map]
    _ ≤ depthBudget := by
      simp only [Expr.nestingCost, depthBudget, maxDepth]
      omega

theorem isMetricLink_plain (op : Operator) {name : String} (h : name ∈ ["foo", "bar"]) :
    IsMetricLink (.plain op, name) := by
  have hwords : ∀ name ∈ ["foo", "bar"], name ∈ ["foo", "bar", "on", "ignoring"] ∧
      Expr.isModifierWord name = false := by
    decide
  exact ⟨BinaryOp.wellFormed_plain op, BinaryOp.legible_plain op, rfl,
    isMetricName_of_plain (hwords name h).1, (hwords name h).2⟩

/-- The links of a chain that is grouped from the left and from the right. -/
def mixedLinks : List (BinaryOp × String) :=
  [(.plain .sub, "bar"), (timesOnJob, "foo"), (.plain .pow, "bar"), (.plain .pow, "foo")]

theorem parse_chain_mixedLinks :
    let query := "foo - bar\n*on (job)foo^bar^foo"
    IsMetricName "foo" ∧ (∀ link ∈ mixedLinks, IsMetricLink link) ∧
      Lexeme.texts query.toList = (chainTokens "foo" mixedLinks, true) ∧
      parse query = .ok (chainTree "foo" mixedLinks) ∧
      (chainTree "foo" mixedLinks).render =
        "foo - (bar * on(job) (foo ^ (bar ^ foo)))" ∧
      parse (chainTree "foo" mixedLinks).render = .ok (chainTree "foo" mixedLinks) := by
  intro query
  have hname : IsMetricName "foo" := isMetricName_of_plain (by simp)
  have hlinks : ∀ link ∈ mixedLinks, IsMetricLink link := by
    have htimes : IsMetricLink (timesOnJob, "foo") :=
      ⟨⟨by decide, by simp [timesOnJob], by simp [timesOnJob], by simp [timesOnJob]⟩,
        legible_timesOnJob, rfl, hname, by decide⟩
    simp only [mixedLinks, List.forall_mem_cons]
    exact ⟨isMetricLink_plain .sub (by simp), htimes, isMetricLink_plain .pow (by simp),
      isMetricLink_plain .pow (by simp), by simp⟩
  have htexts : Lexeme.texts query.toList = (chainTokens "foo" mixedLinks, true) := by
    decide +kernel
  rcases parse_chain hname hlinks htexts with ⟨hparse, hrender, hfew⟩
  rw [if_pos (by decide)] at hparse
  rw [if_pos (hfew (by decide))] at hrender
  exact ⟨hname, hlinks, htexts, hparse, by decide +kernel, hrender⟩

/-! ## Sums -/

/-- The tree of a sum of a metric with itself, with so many operators. -/
def sumTree : Nat → Expr
  | 0 => Expr.ofMetric "foo"
  | n + 1 => .binary (.plain .add) (sumTree n) (Expr.ofMetric "foo")

theorem chainTree_sum (n : Nat) :
    chainTree "foo" (List.replicate n (.plain .add, "foo")) = sumTree n := by
  induction n with
  | zero => rfl
  | succ n ih =>
      have hattach : (sumTree n).attach (.plain .add) (Expr.ofMetric "foo") = sumTree (n + 1) := by
        cases n <;> rfl
      rw [chainTree, List.replicate_succ', List.map_append, Expr.chained_append, ← chainTree, ih]
      exact hattach

/-- Each operator of a sum is a left operand in parentheses, but the last one. -/
theorem cost_sumTree (n : Nat) : (sumTree (n + 1)).cost = 4 * n + 5 := by
  induction n with
  | zero => decide
  | succ n ih =>
      have hnode : (sumTree (n + 2)).cost = max ((sumTree (n + 1)).cost + 4) 5 := by
        have hright : (Expr.ofMetric "foo").rightNeedsParens = false := by decide
        rw [sumTree, Expr.cost, hright]
        rfl
      rw [hnode, ih]
      omega

/-- The tokens of a sum are names and signs. -/
theorem texts_sum (n : Nat) :
    Lexeme.texts (String.intercalate " "
      (chainTokens "foo" (List.replicate n (.plain .add, "foo")))).toList =
        (chainTokens "foo" (List.replicate n (.plain .add, "foo")), true) := by
  have hplain : escapeIdent "foo" = "foo" := by decide
  have hname : Lexes afterTerm "foo".toList ["foo"] :=
    (lexes_word (by decide) hplain).mono afterIdent_of_afterTerm
  have hmem : ['+'] ∈ operatorSigns := by decide
  have hsign : Lexes afterTerm "+".toList ["+"] := (lexes_sign hmem).mono afterSign_of_afterTerm
  refine texts_spaced fun t ht => ?_
  rw [chainTokens, List.mem_cons, List.mem_flatMap] at ht
  rcases ht with rfl | ⟨link, hlink, ht⟩
  · rwa [hplain]
  · rw [List.eq_of_mem_replicate hlink] at ht
    have htokens : (BinaryOp.plain .add).tokens ++ [escapeIdent "foo"] = ["+", "foo"] := by decide
    rw [htokens, List.mem_cons, List.mem_singleton] at ht
    rcases ht with rfl | rfl
    · exact hsign
    · exact hname

/-- A sum of 65 metrics is accepted, but its canonical text is not. -/
theorem not_parse_chain_render :
    ¬∀ (first query : String) (chain : List (BinaryOp × String)), IsMetricName first →
      (∀ link ∈ chain, IsMetricLink link) →
      Lexeme.texts query.toList = (chainTokens first chain, true) →
      ∀ e, parse query = .ok e → (parse e.render).isOk := by
  intro hclaim
  have hname : IsMetricName "foo" := isMetricName_of_plain (by simp)
  have hlinks : ∀ link ∈ List.replicate 64 (BinaryOp.plain .add, "foo"), IsMetricLink link := by
    intro link hlink
    rw [List.eq_of_mem_replicate hlink]
    exact isMetricLink_plain .add (by simp)
  have hparse := parse_of_chain hlinks hname (texts_sum 64)
  have hcost : ¬(sumTree 64).cost ≤ depthBudget := by
    rw [cost_sumTree 63]
    decide
  have htree := overMetrics_chainTree hlinks hname
  rw [if_pos (by decide), chainTree_sum] at hparse
  rw [chainTree_sum] at htree
  have hrender := htree.parse_render
  rw [if_neg hcost] at hrender
  have hok := hclaim _ _ _ hname hlinks (texts_sum 64) _ hparse
  rw [hrender] at hok
  cases hok

end SeriesQuery
