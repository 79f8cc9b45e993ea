import SeriesQuery.Proofs.Expanded
import SeriesQuery.Proofs.Scanning
import SeriesQuery.Query

/-!
# Well-formed results

After expansion a query goes through three more passes.  Each of them brings about one property of
all nodes, and keeps those that the passes before it brought about:

* `dropParens` — no parentheses around a single expression (`IsBare`);
* `foldConstants` — no operator on two constants (`IsFolded`);
* `checkFunctions` — no unknown function (`IsKnown`).

So all nodes of the result of `parse` have all four properties.
-/

namespace SeriesQuery
namespace Expr

/-! ## Properties of nodes -/

/-- The node is not a pair of parentheses around a single expression. -/
def IsBare : Expr → Prop
  | tuple items => items.length ≠ 1
  | _ => True

/-- The node is not an operator on two numbers, nor one on two strings that takes strings. -/
def IsFolded : Expr → Prop
  | binary _ (number _) (number _) => False
  | binary b (string _) (string _) => b.op.takesStrings = false
  | _ => True

/-- The node does not call a function that is not there. -/
def IsKnown : Expr → Prop
  | call name _ _ => isFunctionName name
  | aggregate a _ => isFunctionName a.name
  | _ => True

/-- The node is as all nodes of results are. -/
structure WellFormed (e : Expr) : Prop where
  expanded : e.IsExpanded
  bare : e.IsBare
  folded : e.IsFolded
  known : e.IsKnown

/-! ## Parentheses -/

theorem dropParensList_eq_map (es : List Expr) : dropParensList es = es.map dropParens := by
  induction es with
  | nil => rfl
  | cons e es ih => simp [dropParensList, ih]

theorem dropParensOption_eq_map (time : Option Expr) :
    dropParensOption time = time.map dropParens := by
  cases time <;> rfl

/-- The node is expanded, and has no needless parentheses. -/
abbrev IsExpandedBare (e : Expr) : Prop :=
  e.IsExpanded ∧ e.IsBare

theorem allNodes_ofItems {items : List Expr} (h : ∀ e ∈ items, AllNodes IsExpandedBare e) :
    AllNodes IsExpandedBare (ofItems items) := by
  unfold ofItems
  split
  · exact h _ List.mem_cons_self
  · rename_i hlength
    refine allNodes_tuple.2 ⟨⟨trivial, ?_⟩, h⟩
    intro hone
    rcases List.length_eq_one_iff.1 hone with ⟨e, rfl⟩
    exact hlength e rfl

theorem allNodes_dropParens {e : Expr} (h : Expanded e) :
    AllNodes IsExpandedBare e.dropParens := by
  induction e using Expr.inductionOn with
  | call name args keepNames ih =>
      have hparts := allNodes_call.1 h
      refine allNodes_call.2 ⟨⟨hparts.1, trivial⟩, ?_⟩
      rw [dropParensList_eq_map]
      exact List.forall_mem_map.2 fun e he => ih e he (hparts.2 e he)
  | aggregate a args ih =>
      have hparts := allNodes_aggregate.1 h
      refine allNodes_aggregate.2 ⟨⟨hparts.1, trivial⟩, ?_⟩
      rw [dropParensList_eq_map]
      exact List.forall_mem_map.2 fun e he => ih e he (hparts.2 e he)
  | binary b l r ihl ihr =>
      have hparts := allNodes_binary.1 h
      exact allNodes_binary.2 ⟨⟨hparts.1, trivial⟩, ihl hparts.2.1, ihr hparts.2.2⟩
  | rollup inner range time ih iht =>
      have hparts := allNodes_rollup.1 h
      refine allNodes_rollup.2 ⟨⟨hparts.1, trivial⟩, ih hparts.2.1, ?_⟩
      rw [dropParensOption_eq_map]
      exact Option.forall_mem_map.2 fun e he => iht e he (hparts.2.2 e he)
  | tuple items ih =>
      have hparts := allNodes_tuple.1 h
      have hitems : ∀ e ∈ items.map dropParens, AllNodes IsExpandedBare e :=
        List.forall_mem_map.2 fun e he => ih e he (hparts.2 e he)
      simpa only [dropParens, dropParensList_eq_map] using allNodes_ofItems hitems
  | _ => exact (allNodes_atom rfl).2 ⟨h.self, trivial⟩

/-! ## Constants -/

/-- What becomes of an operator is the operator itself, or a constant. -/
theorem foldBinary_cases (b : BinaryOp) (l r : Expr) :
    foldBinary b l r = binary b l r ∨ (∃ x, foldBinary b l r = ofFloat x) ∨
      ∃ value, foldBinary b l r = string value := by
  unfold foldBinary
  split
  · exact .inr (.inl ⟨_, rfl⟩)
  · rename_i s t
    cases hfold : foldStrings b s t with
    | none => exact .inl rfl
    | some e =>
        unfold foldStrings at hfold
        split at hfold
        · cases hfold
          exact .inr (.inr ⟨_, rfl⟩)
        · rcases Option.map_eq_some_iff.1 hfold with ⟨x, _, rfl⟩
          exact .inr (.inl ⟨x, rfl⟩)
  · exact .inl rfl

theorem foldConstantsList_eq_map (es : List Expr) :
    foldConstantsList es = es.map foldConstants := by
  induction es with
  | nil => rfl
  | cons e es ih => simp [foldConstantsList, ih]

theorem foldConstantsOption_eq_map (time : Option Expr) :
    foldConstantsOption time = time.map foldConstants := by
  cases time <;> rfl

/-- The node is expanded, has no needless parentheses and is no operator on constants. -/
abbrev IsSimple (e : Expr) : Prop :=
  e.IsExpanded ∧ e.IsBare ∧ e.IsFolded

/-- Only operators that take no strings have no value on strings. -/
theorem takesStrings_of_foldStrings {b : BinaryOp} {s t : String} (h : foldStrings b s t = none) :
    b.op.takesStrings = false := by
  cases hop : b.op <;>
    simp_all [foldStrings, Operator.compareStrings, Operator.comparesStrings?,
      Operator.takesStrings, Operator.isComparison, Operator.kind]

theorem allNodes_foldBinary {b : BinaryOp} {l r : Expr} (hb : b.WellFormed)
    (hl : AllNodes IsSimple l) (hr : AllNodes IsSimple r) :
    AllNodes IsSimple (foldBinary b l r) := by
  unfold foldBinary
  split
  · exact (allNodes_atom rfl).2 ⟨trivial, trivial, trivial⟩
  · rename_i s t
    cases hfold : foldStrings b s t with
    | none => exact allNodes_binary.2 ⟨⟨hb, trivial, takesStrings_of_foldStrings hfold⟩, hl, hr⟩
    | some e =>
        -- The value is a string or a number.
        unfold foldStrings at hfold
        split at hfold
        · cases hfold
          exact (allNodes_atom rfl).2 ⟨trivial, trivial, trivial⟩
        · rcases Option.map_eq_some_iff.1 hfold with ⟨x, _, rfl⟩
          exact (allNodes_atom rfl).2 ⟨trivial, trivial, trivial⟩
  · rename_i hnumbers hstrings
    refine allNodes_binary.2 ⟨⟨hb, trivial, ?_⟩, hl, hr⟩
    unfold IsFolded
    split
    · rename_i m n heq
      cases heq
      exact hnumbers m n rfl rfl
    · rename_i s t heq
      cases heq
      exact absurd rfl (hstrings s t rfl)
    · trivial

theorem allNodes_foldConstants {e : Expr} (h : AllNodes IsExpandedBare e) :
    AllNodes IsSimple e.foldConstants := by
  induction e using Expr.inductionOn with
  | call name args keepNames ih =>
      have hparts := allNodes_call.1 h
      refine allNodes_call.2 ⟨⟨hparts.1.1, trivial, trivial⟩, ?_⟩
      rw [foldConstantsList_eq_map]
      exact List.forall_mem_map.2 fun e he => ih e he (hparts.2 e he)
  | aggregate a args ih =>
      have hparts := allNodes_aggregate.1 h
      refine allNodes_aggregate.2 ⟨⟨hparts.1.1, trivial, trivial⟩, ?_⟩
      rw [foldConstantsList_eq_map]
      exact List.forall_mem_map.2 fun e he => ih e he (hparts.2 e he)
  | binary b l r ihl ihr =>
      have hparts := allNodes_binary.1 h
      exact allNodes_foldBinary hparts.1.1 (ihl hparts.2.1) (ihr hparts.2.2)
  | rollup inner range time ih iht =>
      have hparts := allNodes_rollup.1 h
      refine allNodes_rollup.2 ⟨⟨hparts.1.1, trivial, trivial⟩, ih hparts.2.1, ?_⟩
      rw [foldConstantsOption_eq_map]
      exact Option.forall_mem_map.2 fun e he => iht e he (hparts.2.2 e he)
  -- Folding keeps the number of items, so that no tuple becomes one with a single item.
  | tuple items ih =>
      have hparts := allNodes_tuple.1 h
      have hbare : items.length ≠ 1 := hparts.1.2
      simp only [foldConstants, foldConstantsList_eq_map]
      refine allNodes_tuple.2 ⟨⟨trivial, ?_, trivial⟩, ?_⟩
      · simpa [IsBare] using hbare
      · exact List.forall_mem_map.2 fun e he => ih e he (hparts.2 e he)
  | _ => exact (allNodes_atom rfl).2 ⟨h.self.1, trivial, trivial⟩

/-! ## Functions -/

theorem gives_checkName (name : String) :
    Gives (fun _ => isFunctionName name) (checkName name) := by
  unfold checkName
  split
  · exact gives_ok ‹_›
  · exact gives_error _

theorem gives_checkFunctionsList {es : List Expr}
    (h : ∀ e ∈ es, Gives (fun _ => AllNodes IsKnown e) e.checkFunctions) :
    Gives (fun _ => ∀ e ∈ es, AllNodes IsKnown e) (checkFunctionsList es) := by
  induction es with
  | nil => exact gives_ok (by simp)
  | cons e es ih =>
      have hparts := List.forall_mem_cons.1 h
      refine hparts.1.bind fun _ he => (ih hparts.2).imp fun _ hes => ?_
      exact List.forall_mem_cons.2 ⟨he, hes⟩

theorem gives_checkFunctions (e : Expr) :
    Gives (fun _ => AllNodes IsKnown e) e.checkFunctions := by
  induction e using Expr.inductionOn with
  | call name args keepNames ih =>
      refine (gives_checkName name).bind fun _ hname => ?_
      exact (gives_checkFunctionsList ih).imp fun _ hargs => allNodes_call.2 ⟨hname, hargs⟩
  | aggregate a args ih =>
      refine (gives_checkName a.name).bind fun _ hname => ?_
      exact (gives_checkFunctionsList ih).imp fun _ hargs => allNodes_aggregate.2 ⟨hname, hargs⟩
  | binary b l r ihl ihr =>
      refine ihl.bind fun _ hl => ihr.imp fun _ hr => ?_
      exact allNodes_binary.2 ⟨trivial, hl, hr⟩
  | rollup inner range time ih iht =>
      refine ih.bind fun _ hinner => ?_
      cases time with
      | none => exact gives_ok (allNodes_rollup.2 ⟨trivial, hinner, by simp⟩)
      | some e =>
          refine (iht e rfl).imp fun _ he => allNodes_rollup.2 ⟨trivial, hinner, ?_⟩
          simpa using he
  | tuple items ih =>
      exact (gives_checkFunctionsList ih).imp fun _ hitems => allNodes_tuple.2 ⟨trivial, hitems⟩
  | _ => exact gives_ok ((allNodes_atom rfl).2 trivial)

end Expr

/-! ## Queries -/

theorem gives_normalize {e : Expr} (h : e.Expanded) :
    Gives (Expr.AllNodes Expr.WellFormed) (normalize e) := by
  unfold normalize
  split
  · exact gives_error _
  · have hsimple := Expr.allNodes_foldConstants (Expr.allNodes_dropParens h)
    refine (Expr.gives_checkFunctions _).bind fun _ hknown => gives_ok ?_
    intro n hn
    have hparts := hsimple n hn
    exact ⟨hparts.1, hparts.2.1, hparts.2.2, hknown n hn⟩

theorem gives_parse (query : String) : Gives (Expr.AllNodes Expr.WellFormed) (parse query) := by
  refine (Expr.gives_ofText query).bind fun written hwritten => ?_
  refine (Expr.gives_expandTemplates hwritten).bind fun expanded hexpanded => ?_
  exact gives_normalize hexpanded

/-- All nodes of what a query stands for are well formed. -/
theorem wellFormed_parse {query : String} {e : Expr} (h : parse query = .ok e) :
    e.AllNodes Expr.WellFormed :=
  gives_parse query e h

theorem Expr.ofText_of_texts {text : String} {ts : List String}
    (h : Lexeme.texts text.toList = (ts, true)) :
    Expr.ofText text = (do
      let (e, feed) ← Reader.expression depthBudget ⟨ts, none, 0⟩
      if feed.tokens.isEmpty then return e
      else throw (.leftOver feed.place)) := by
  rw [Expr.ofText, Feed.ofText_of_texts h]
  rfl

theorem toList_append_eq {s t : String} {cs ds : List Char} (hs : s.toList = cs)
    (ht : t.toList = ds) : (s ++ t).toList = cs ++ ds := by
  rw [String.toList_append, hs, ht]

/-- A property of the result of a query, found from the characters of the query. -/
theorem parse_of_toList {P : Except ParseError Expr → Prop} {query : String} {cs : List Char}
    (hcs : query.toList = cs) (hscan : (Lexeme.texts cs).2)
    (h : P (do
      let (e, feed) ← Reader.expression depthBudget ⟨(Lexeme.texts cs).1, none, 0⟩
      if feed.tokens.isEmpty then e.expandTemplates >>= normalize
      else throw (.leftOver feed.place))) : P (parse query) := by
  have htexts : Lexeme.texts query.toList = ((Lexeme.texts cs).1, true) := by
    rw [hcs, ← hscan]
  rw [parse, Expr.ofText_of_texts htexts]
  cases hread : Reader.expression depthBudget ⟨(Lexeme.texts cs).1, none, 0⟩ with
  | error cause =>
      rw [hread] at h
      exact h
  | ok found =>
      rw [hread] at h
      by_cases hend : found.2.tokens.isEmpty
      · simp only [Bind.bind, Except.bind, hend, if_true] at h ⊢
        exact h
      · simp only [Bind.bind, Except.bind, hend] at h ⊢
        exact h

/-- A query with a template, parentheses, repeated labels and a join. -/
def joinedQuery : String :=
  "WITH (x(a) = a\x7bjob=~\"node.*\"\x7d) sum((x(foo)[5m] @ end())) by (job,job) " ++
    "+ on(job) group_left() prefix \"p\" (bar)"

theorem wellFormed_parse_joinedQuery :
    ∃ e, parse joinedQuery = .ok e ∧ e.AllNodes Expr.WellFormed := by
  have hok : (parse joinedQuery).isOk :=
    parse_of_toList (P := fun x => x.isOk)
      (toList_append_eq String.toList_ofList String.toList_ofList) (by decide +kernel)
      (by decide +kernel)
  cases h : parse joinedQuery with
  | ok e => exact ⟨e, rfl, wellFormed_parse h⟩
  | error cause =>
      rw [h] at hok
      cases hok

end SeriesQuery
