import SeriesQuery.Proofs.RevisedTrees

/-!
# Templates that nothing refers to

A template may be added to any block of an expression if its name has a character that stands in no
name and no string of the expression: the name is not written anywhere, and cannot be put together
from what is.  The expression with it is a revision of the one without, where no name refers to it.
-/

namespace SeriesQuery

/-- Errors are the same, and all strings lack the character. -/
def Terms.lacking (c : Char) : Terms where
  exact := true
  strings s := c ∉ s.toList
  names n := c ∉ n.toList
  empty := by simp
  append s t hs ht := by
    rw [String.toList_append, List.mem_append, not_or]
    exact ⟨hs, ht⟩

namespace Expr

/-- The character stands in no name and no string of the expression. -/
def Lacks (c : Char) (e : Expr) : Prop :=
  e.Made (Leaf.Names fun n => c ∉ n.toList)

instance (c : Char) : DecidablePred (Lacks c) :=
  fun e => inferInstanceAs (Decidable (e.Made (Leaf.Names fun n => c ∉ n.toList)))

/-- The literals of the strings that may become names are among the strings of the expression. -/
theorem quotes_of_made {A : String → Prop} {e : Expr} (h : e.Made (Leaf.Names A)) :
    e.Quotes fun
      | .operand value => A value
      | .metric s => ∀ text, .literal text ∈ s.segments → A text := by
  induction e using Expr.inductionOn with
  | number n => exact fun _ hx => nomatch hx
  | duration d => exact fun _ hx => nomatch hx
  | string value => exact quotes_string.2 (made_string.1 h)
  | concat s =>
      refine quotes_concat.2 fun value hvalue => ?_
      rcases List.mem_filterMap.1 hvalue with ⟨segment, hsegment, heq⟩
      cases segment with
      | literal text =>
          cases heq
          exact made_concat.1 h _ hsegment
      | ident name => cases heq
  | selector s =>
      refine quotes_selector.2 fun value hvalue => ?_
      rcases List.mem_flatMap.1 hvalue with ⟨g, hg, hvalue⟩
      rcases List.mem_map.1 hvalue with ⟨f, hf, rfl⟩
      have hmem : f ∈ g := List.mem_of_mem_drop (List.mem_filter.1 hf).1
      intro text htext
      rcases List.mem_singleton.1 htext with ⟨⟩
      exact made_selector.1 h g hg f hmem
  | selectorExpr s =>
      refine quotes_selectorExpr.2 fun value hvalue => ?_
      rcases List.mem_flatMap.1 hvalue with ⟨g, hg, hvalue⟩
      rcases List.mem_map.1 hvalue with ⟨f, hf, rfl⟩
      have hparts := List.mem_filter.1 hf
      have hleaves := made_selectorExpr.1 h g hg f (List.mem_of_mem_drop hparts.1)
      -- A filter on the name is no splice, so its leaves are those of its value.
      have hplain : f.isSplice = false := by
        have hfilter := hparts.2
        simp only [FilterExpr.isNameFilter, Bool.and_eq_true, Bool.not_eq_true'] at hfilter
        exact hfilter.1.1
      intro text htext
      refine hleaves (.text text) ?_
      rw [FilterExpr.leaves, hplain]
      exact List.mem_map_of_mem htext
  | call name args keepNames ih =>
      exact quotes_call.2 fun e he => ih e he ((made_call.1 h).2 e he)
  | aggregate a args ih =>
      exact quotes_aggregate.2 fun e he => ih e he ((made_aggregate.1 h).2 e he)
  | binary b l r ihl ihr =>
      have hparts := made_binary.1 h
      exact quotes_binary.2 ⟨ihl hparts.2.1, ihr hparts.2.2⟩
  | rollup inner range time ih iht =>
      have hparts := made_rollup.1 h
      exact quotes_rollup.2 ⟨ih hparts.1, fun e he => iht e he (hparts.2.2 e he)⟩
  | tuple items ih => exact quotes_tuple.2 fun e he => ih e he (made_tuple.1 h e he)
  | withTemplates ts body ihts ih =>
      have hparts := made_withTemplates.1 h
      refine quotes_withTemplates.2 ⟨fun t ht => ?_, ih hparts.2⟩
      exact ihts t ht (Template.made_iff.1 (hparts.1 t ht)).2.2

/-- The names of metrics that are computed lack the character too. -/
theorem Lacks.proper {c : Char} {e : Expr} (h : e.Lacks c) :
    e.Proper (fun n => c ∉ n.toList) (Terms.lacking c) := by
  refine ⟨h, fun x hx => ?_⟩
  have hquote := quotes_of_made h x hx
  cases x with
  | operand value => exact hquote
  | metric s =>
      intro v hv
      have hclosed := hv.closed (Terms.lacking c).empty (Terms.lacking c).append hquote
      exact .inr hclosed

/-- A template whose name has a character of its own does not change what the expression around it
expands to, nor the error. -/
theorem expandTemplates_put_unused {place : List Step} {before after : List Template}
    {t : Template} {body : Expr} {c : Char} (hc : c ∈ t.name.toList)
    (h : (put place (.withTemplates (before ++ after) body)).Lacks c) :
    (put place (.withTemplates (before ++ t :: after) body)).expandTemplates =
      (put place (.withTemplates (before ++ after) body)).expandTemplates := by
  have hunused : ¬c ∉ t.name.toList := not_not_intro hc
  have hrevises : (put place (.withTemplates (before ++ after) body)).RevisesWhere
      (fun n => c ∉ n.toList) (Terms.lacking c)
        (put place (.withTemplates (before ++ t :: after) body)) := by
    refine put_revisesWhere h.proper fun hproper => ?_
    have hparts := hproper.withTemplates
    have hts := List.forall_mem_append.1 hparts.1
    have hself : ∀ u ∈ before ++ after, u.body.RevisesWhere (fun n => c ∉ n.toList)
        (Terms.lacking c) u.body := fun u hu => (hparts.1 u hu).body.revisesWhere
    have hadded : Template.ReviseWhere (fun n => c ∉ n.toList) (Terms.lacking c) after
        (t :: after) := by
      intro ρ hρ
      have hafter := fun u hu => hself u (List.mem_append_right before hu)
      rcases Template.reviseWhere_self hafter _ (hρ.hide hunused) with ⟨ρ', hρ', hrest⟩
      refine ⟨ρ', hρ', .added hunused (fun u hu heq => ?_) hrest⟩
      exact (hts.2 u hu).name (heq ▸ hc)
    have hblock := Template.reviseWhere_append
      (fun u hu => hself u (List.mem_append_left after hu)) hadded
    intro ρ hρ
    rcases hblock ρ hρ with ⟨ρ', hρ', hrevise⟩
    exact .withTemplates hrevise (hparts.2.revisesWhere ρ' hρ')
  exact (hrevises.relates.eq rfl).symm

/-- The template is added between two others, in a block that is the body of a template.  The metric
`k` has a name that is computed from the template before. -/
theorem expandTemplates_put_unused_between :
    let place : List Step :=
      [.templateBody [] "f" ["x"] [] (.call "f" [.selector (.ofName "foo")] false)]
    let before : List Template := [.mk "m" [] (.string "a")]
    let t : Template := .mk "m2" ["k"] (.selector (.ofName "x"))
    let after : List Template :=
      [.mk "k" [] (.selectorExpr ⟨[[⟨.equal, nameLabel, .ofIdent "m", false⟩]]⟩)]
    let body : Expr := .binary (.plain .add) (.selector (.ofName "k")) (.selector (.ofName "x"))
    '2' ∈ t.name.toList ∧ (put place (.withTemplates (before ++ after) body)).Lacks '2' ∧
      (put place (.withTemplates (before ++ t :: after) body)).expandTemplates =
        .ok (.binary (.plain .add) (.selector (.ofName "a")) (.selector (.ofName "foo"))) := by
  intro place before t after body
  have hc : '2' ∈ t.name.toList := by decide
  have hlacks : (put place (.withTemplates (before ++ after) body)).Lacks '2' := by decide
  have hwithout : (put place (.withTemplates (before ++ after) body)).expandTemplates =
      .ok (.binary (.plain .add) (.selector (.ofName "a")) (.selector (.ofName "foo"))) := by
    rfl
  exact ⟨hc, hlacks, (expandTemplates_put_unused hc hlacks).trans hwithout⟩

end Expr

end SeriesQuery
