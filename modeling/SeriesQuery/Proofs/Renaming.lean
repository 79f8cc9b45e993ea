import SeriesQuery.Proofs.RevisedTrees

/-!
# Other names for parameters

A parameter of a template may be given another name, in the list of parameters and wherever the body
refers to it (`Expr.rename`), without changing what the expression around expands to.  The new name
must not stand in the expression; nor may the name of a metric be computed to be the old one or the
new one, for the metric would then be looked up where the parameter is bound.
-/

namespace SeriesQuery

/-! ## Renaming -/

/-- The new name for the parameter, and every other name as it is. -/
def newName (p q n : String) : String :=
  if n = p then q else n

namespace Expr

mutual

/-- The expression where `p` has the new name `q`, except where templates declare it anew. -/
def rename (p q : String) : Expr → Expr
  | number n => number n
  | duration d => duration d
  | string value => string value
  | concat s => concat (s.mapNames (newName p q))
  | selector s => selector (s.mapNames (newName p q))
  | selectorExpr s => selectorExpr (s.mapNames (newName p q))
  | call name args keepNames => call (newName p q name) (renameList p q args) keepNames
  | aggregate a args => aggregate (a.mapNames (newName p q)) (renameList p q args)
  | binary b l r => binary (b.mapNames (newName p q)) (rename p q l) (rename p q r)
  | rollup inner range time =>
      rollup (rename p q inner) (range.mapNames (newName p q)) (renameOption p q time)
  | tuple items => tuple (renameList p q items)
  | withTemplates ts body =>
      withTemplates (renameTemplates p q ts)
        (if p ∈ ts.map Template.name then body else rename p q body)

/-- The expressions where `p` has the new name. -/
def renameList (p q : String) : List Expr → List Expr
  | [] => []
  | e :: es => rename p q e :: renameList p q es

/-- The expression, if there is one, where `p` has the new name. -/
def renameOption (p q : String) : Option Expr → Option Expr
  | none => none
  | some e => some (rename p q e)

/-- The template where `p` has the new name, unless it is a parameter. -/
def renameTemplate (p q : String) : Template → Template
  | .mk name params body => .mk name params (if p ∈ params then body else rename p q body)

/-- The templates where `p` has the new name, up to the one that declares it. -/
def renameTemplates (p q : String) : List Template → List Template
  | [] => []
  | t :: ts =>
      renameTemplate p q t :: if t.name = p then ts else renameTemplates p q ts

end

theorem renameList_eq_map (p q : String) (es : List Expr) :
    renameList p q es = es.map (rename p q) := by
  induction es with
  | nil => rfl
  | cons e es ih => simp [renameList, ih]

theorem renameOption_eq_map (p q : String) (time : Option Expr) :
    renameOption p q time = time.map (rename p q) := by
  cases time <;> rfl

end Expr

/-! ## Namings -/

section

variable {p q : String}

theorem newName_ne {n : String} (hn : n ≠ p) : newName p q n = n :=
  if_neg hn

theorem newName_self (p q : String) : newName p q p = q :=
  if_pos rfl

/-- Names other than the new one are told apart still. -/
theorem newName_injective {n n' : String} (hn : n ≠ q) (hn' : n' ≠ q)
    (h : newName p q n = newName p q n') : n = n' := by
  by_cases hp : n = p <;> by_cases hp' : n' = p
  · rw [hp, hp']
  · rw [hp, newName_self, newName_ne hp'] at h
    exact absurd h.symm hn'
  · rw [hp', newName_self, newName_ne hp] at h
    exact absurd h hn
  · rwa [newName_ne hp, newName_ne hp'] at h

namespace Naming

variable {ρ : Naming}

/-- Where the parameters have their new names, so has what refers to them. -/
theorem Keeps.bindAll_newName (hρ : ρ.Keeps (· ≠ q)) {params : List String}
    (hparams : ∀ x ∈ params, x ≠ q) {n : String} (hn : n ≠ q) (hp : n ∈ params ∨ n ≠ p) :
    ρ.bindAll (params.zip (params.map (newName p q))) n (newName p q n) := by
  induction params with
  | nil =>
      have hne : n ≠ p := hp.resolve_left (by simp)
      rw [newName_ne hne]
      exact hρ n hn
  | cons x params ih =>
      have hparts := List.forall_mem_cons.1 hparams
      by_cases heq : n = x
      · exact .inl ⟨heq, by rw [heq]⟩
      · refine .inr ⟨heq, fun hsame => heq (newName_injective hn hparts.1 hsame), ?_⟩
        exact ih hparts.2 (hp.imp_left fun hmem => (List.mem_cons.1 hmem).resolve_left heq)

/-- A declaration of another name changes nothing. -/
theorem Sends.bind (hρ : ρ.Sends (· ≠ q) (newName p q)) {x : String} (hx : x ≠ q) (hp : x ≠ p) :
    (ρ.bind x x).Sends (· ≠ q) (newName p q) where
  names := by
    intro n hn
    by_cases heq : n = x
    · subst heq
      exact .inl ⟨rfl, newName_ne hp⟩
    · refine .inr ⟨heq, fun hsame => ?_, hρ.names n hn⟩
      have hself : newName p q n = newName p q x := hsame.trans (newName_ne hp).symm
      exact heq (newName_injective hn hx hself)
  nonempty := hρ.nonempty

theorem Sends.bindAll (hρ : ρ.Sends (· ≠ q) (newName p q)) {params : List String}
    (hparams : ∀ x ∈ params, x ≠ q) (hp : p ∉ params) :
    (ρ.bindAll (params.zip params)).Sends (· ≠ q) (newName p q) := by
  induction params with
  | nil => exact hρ
  | cons x params ih =>
      have hparts := List.forall_mem_cons.1 hparams
      have hmem := not_or.1 (mt List.mem_cons.2 hp)
      exact (ih hparts.2 hmem.2).bind hparts.1 (Ne.symm hmem.1)

/-- Where the old name is declared anew, all names refer to the same. -/
theorem Sends.keeps_bindAll (hρ : ρ.Sends (· ≠ q) (newName p q)) {params : List String}
    (hp : p ∈ params) : (ρ.bindAll (params.zip params)).Keeps (· ≠ q) := by
  have hall : ∀ n, n ≠ q → n ∈ params ∨ n ≠ p → ρ.bindAll (params.zip params) n n := by
    intro n hn
    clear hp
    induction params with
    | nil =>
        intro hp
        have hne : n ≠ p := hp.resolve_left (by simp)
        have hname := hρ.names n hn
        rwa [newName_ne hne] at hname
    | cons x params ih =>
        intro hp
        by_cases heq : n = x
        · exact .inl ⟨heq, heq⟩
        · refine .inr ⟨heq, heq, ih (hp.imp_left fun hmem => ?_)⟩
          exact (List.mem_cons.1 hmem).resolve_left heq
  intro n hn
  by_cases heq : n = p
  · exact hall n hn (.inl (heq ▸ hp))
  · exact hall n hn (.inr heq)

end Naming

end

/-! ## Revisions -/

namespace Expr

section

variable {p q : String} {T : Terms}

/-- The body of a template, whether or not a parameter declares the old name anew. -/
theorem revises_ite {ρ : Naming} {params : List String} {body : Expr}
    (hρ : ρ.Sends (· ≠ q) (newName p q)) (hparams : ∀ x ∈ params, x ≠ q)
    (hself : body.RevisesWhere (· ≠ q) T body)
    (ih : ∀ ρ : Naming, ρ.Sends (· ≠ q) (newName p q) → body.Revises T ρ (body.rename p q)) :
    body.Revises T (ρ.bindAll (params.zip params))
      (if p ∈ params then body else body.rename p q) := by
  split
  · rename_i hp
    exact hself _ (hρ.keeps_bindAll hp)
  · rename_i hp
    exact ih _ (hρ.bindAll hparams hp)

/-- A block, and what refers to the same behind it. -/
theorem revise_renameTemplates {ts : List Template} (hts : ∀ t ∈ ts, t.Proper (· ≠ q) T)
    (ih : ∀ t ∈ ts, ∀ ρ : Naming, ρ.Sends (· ≠ q) (newName p q) →
      t.body.Revises T ρ (t.body.rename p q))
    {ρ : Naming} (hρ : ρ.Sends (· ≠ q) (newName p q)) :
    ∃ ρ' : Naming, Template.Revise T ρ ts (renameTemplates p q ts) ρ' ∧
      if p ∈ ts.map Template.name then ρ'.Keeps (· ≠ q)
      else ρ'.Sends (· ≠ q) (newName p q) := by
  induction ts generalizing ρ with
  | nil => exact ⟨ρ, .nil, hρ⟩
  | cons t ts ihs =>
      have hproper := List.forall_mem_cons.1 hts
      have hbodies := List.forall_mem_cons.1 ih
      rcases t with ⟨name, params, body⟩
      have hbody : body.Revises T (ρ.bindAll (params.zip params))
          (if p ∈ params then body else body.rename p q) :=
        revises_ite hρ hproper.1.params hproper.1.body.revisesWhere hbodies.1
      by_cases hname : name = p
      · -- Behind this template its own name is meant.
        subst hname
        have hkeeps : (ρ.bind name name).Keeps (· ≠ q) := by
          have hparams : name ∈ [name] := List.mem_singleton.2 rfl
          exact hρ.keeps_bindAll hparams
        have hself : ∀ t ∈ ts, t.body.RevisesWhere (· ≠ q) T t.body :=
          fun t ht => (hproper.2 t ht).body.revisesWhere
        rcases Template.reviseWhere_self hself _ hkeeps with ⟨ρ', hρ', hrest⟩
        refine ⟨ρ', ?_, ?_⟩
        · have hboth := Template.Revise.both rfl Terms.same_of_mem_zip hbody hrest
          simpa [renameTemplates, renameTemplate, Template.name] using hboth
        · rw [if_pos (by simp [Template.name])]
          exact hρ'
      · have hsends := hρ.bind hproper.1.name hname
        rcases ihs hproper.2 hbodies.2 hsends with ⟨ρ', hrest, hρ'⟩
        refine ⟨ρ', ?_, ?_⟩
        · have hboth := Template.Revise.both rfl Terms.same_of_mem_zip hbody hrest
          simpa [renameTemplates, renameTemplate, Template.name, hname] using hboth
        · simpa [Template.name, Ne.symm hname] using hρ'

/-- Under the new name everything refers to what it referred to. -/
theorem Proper.revises_rename {e : Expr} (he : e.Proper (· ≠ q) T) :
    ∀ ρ : Naming, ρ.Sends (· ≠ q) (newName p q) → e.Revises T ρ (e.rename p q) := by
  induction e using Expr.inductionOn with
  | number n => exact fun _ _ => .number
  | duration d => exact fun _ _ => .duration
  | string value => exact fun _ _ => .string (quotes_string.1 he.quotes)
  | concat s =>
      intro ρ hρ
      exact .concat (StringExpr.revises_mapNames hρ (made_concat.1 he.names))
        (quotes_concat.1 he.quotes)
  | selector s =>
      intro ρ hρ
      exact .selector (Selector.revises_mapNames hρ (made_selector.1 he.names)
        (quotes_selector.1 he.quotes))
  | selectorExpr s =>
      intro ρ hρ
      exact .selectorExpr (SelectorExpr.revises_mapNames hρ (made_selectorExpr.1 he.names)
        (quotes_selectorExpr.1 he.quotes))
  | call name args keepNames ih =>
      intro ρ hρ
      have hparts := he.call
      rw [rename, renameList_eq_map]
      refine .call (hρ.names name hparts.1) (revise_iff.2 (forall₂_map fun a ha => ?_))
      exact ih a ha (hparts.2 a ha) ρ hρ
  | aggregate a args ih =>
      intro ρ hρ
      have hparts := he.aggregate
      rw [rename, renameList_eq_map]
      refine .aggregate (Aggregation.revises_mapNames hρ hparts.1)
        (revise_iff.2 (forall₂_map fun arg harg => ?_))
      exact ih arg harg (hparts.2 arg harg) ρ hρ
  | binary b l r ihl ihr =>
      intro ρ hρ
      have hparts := he.binary
      exact .binary (BinaryOp.revises_mapNames hρ hparts.1) (ihl hparts.2.1 ρ hρ)
        (ihr hparts.2.2 ρ hρ)
  | rollup inner range time ih iht =>
      intro ρ hρ
      have hparts := he.rollup
      rw [rename, renameOption_eq_map]
      refine .rollup (ih hparts.1 ρ hρ) (Range.revises_mapNames hρ hparts.2.1) ?_
      cases time with
      | none => exact .nil
      | some e => exact .cons (iht e rfl (hparts.2.2 e rfl) ρ hρ) .nil
  | tuple items ih =>
      intro ρ hρ
      rw [rename, renameList_eq_map]
      refine .tuple (revise_iff.2 (forall₂_map fun e hmem => ?_))
      exact ih e hmem (he.tuple e hmem) ρ hρ
  | withTemplates ts body ihts ih =>
      intro ρ hρ
      have hparts := he.withTemplates
      have hts : ∀ t ∈ ts, ∀ ρ : Naming, ρ.Sends (· ≠ q) (newName p q) →
          t.body.Revises T ρ (t.body.rename p q) :=
        fun t ht => ihts t ht (hparts.1 t ht).body
      rcases revise_renameTemplates hparts.1 hts hρ with ⟨ρ', hblock, hρ'⟩
      rw [rename]
      refine .withTemplates hblock ?_
      -- Where the block has the old name itself, the body refers to that and is left as it is.
      split
      · rename_i hp
        rw [if_pos hp] at hρ'
        exact hparts.2.revisesWhere ρ' hρ'
      · rename_i hp
        rw [if_neg hp] at hρ'
        exact ih hparts.2 ρ' hρ'

end

end Expr

/-! ## Parameters -/

/-- The strings that can be joined from those with the property. -/
inductive Joined (P : String → Prop) : String → Prop where
  | empty : Joined P ""
  | cons {s t : String} : P s → Joined P t → Joined P (s ++ t)

theorem Joined.append {P : String → Prop} {s t : String} (hs : Joined P s) (ht : Joined P t) :
    Joined P (s ++ t) := by
  induction hs with
  | empty => simpa using ht
  | cons hP _ ih =>
      rw [String.append_assoc]
      exact .cons hP ih

/-- Results are the same; strings are joined from those with the property, and filters may not ask
for either name. -/
def Terms.renaming (P : String → Prop) (p q : String) : Terms where
  exact := false
  strings := Joined P
  names n := n ≠ p ∧ n ≠ q
  empty := .empty
  append _ _ := Joined.append

namespace Expr

/-- The string stands in the expression by itself. -/
def Quoted (e : Expr) (value : String) : Prop :=
  .operand value ∈ e.quotes

/-- No filter asks the name of the metric for one of the names, whatever strings the names in it
stand for, unless it is the name of a selector. -/
def AsksForNeither (p q : String) (e : Expr) : Prop :=
  ∀ s, .metric s ∈ e.quotes → ∀ v, Spells (Joined e.Quoted) s.segments v →
    v = "" ∨ v ≠ p ∧ v ≠ q

theorem AsksForNeither.proper {p q : String} {e : Expr} (h : e.AsksForNeither p q)
    (hfresh : e.Made (Leaf.Names (· ≠ q))) :
    e.Proper (· ≠ q) (Terms.renaming e.Quoted p q) := by
  refine ⟨hfresh, fun x hx => ?_⟩
  cases x with
  | operand value =>
      have hjoined : Joined e.Quoted (value ++ "") := .cons hx .empty
      rwa [String.append_empty] at hjoined
  | metric s => exact h s hx

/-- A block where a parameter has a new name is a revision. -/
theorem revisesWhere_rename {P : String → Prop} {before after : List Template} {f : String}
    {params : List String} {body main : Expr} {p q : String} (hp : p ∈ params) (hq : q ≠ "")
    (h : Proper (· ≠ q) (Terms.renaming P p q)
      (.withTemplates (before ++ .mk f params body :: after) main)) :
    RevisesWhere (· ≠ q) (Terms.renaming P p q)
      (.withTemplates (before ++ .mk f params body :: after) main)
      (.withTemplates (before ++ .mk f (params.map (newName p q)) (body.rename p q) :: after)
        main) := by
  have hparts := h.withTemplates
  have hts := List.forall_mem_append.1 hparts.1
  have hrest := List.forall_mem_cons.1 hts.2
  have hparams : ∀ x ∈ params, x ≠ q := hrest.1.params
  have hself : ∀ ts : List Template, (∀ t ∈ ts, t.Proper (· ≠ q) (Terms.renaming P p q)) →
      ∀ t ∈ ts, t.body.RevisesWhere (· ≠ q) (Terms.renaming P p q) t.body :=
    fun ts hts t ht => (hts t ht).body.revisesWhere
  -- The old and the new name are not asked for by filters; the other parameters stay.
  have hsame : ∀ pair ∈ params.zip (params.map (newName p q)),
      (Terms.renaming P p q).Same pair.1 pair.2 := by
    have hall : List.Forall₂ (Terms.renaming P p q).Same params (params.map (newName p q)) := by
      refine forall₂_map fun x hx => ?_
      by_cases heq : x = p
      · rw [heq, newName_self]
        exact .inr ⟨rfl, fun h => h.1 rfl, fun h => h.2 rfl⟩
      · exact .inl (newName_ne heq).symm
    exact fun pair hpair => (List.forall₂_iff_zip.1 hall).2 hpair
  have hbody : ∀ ρ : Naming, ρ.Keeps (· ≠ q) → body.Revises (Terms.renaming P p q)
      (ρ.bindAll (params.zip (params.map (newName p q)))) (body.rename p q) := by
    intro ρ hρ
    refine hrest.1.body.revises_rename _ ⟨fun n hn => ?_, fun n hn => ?_⟩
    · refine hρ.bindAll_newName hparams hn ?_
      by_cases heq : n = p
      · exact .inl (heq ▸ hp)
      · exact .inr heq
    · by_cases heq : n = p
      · rwa [heq, newName_self]
      · rwa [newName_ne heq]
  have hblock : Template.ReviseWhere (· ≠ q) (Terms.renaming P p q) (.mk f params body :: after)
      (.mk f (params.map (newName p q)) (body.rename p q) :: after) := by
    have hafter := Template.reviseWhere_self (hself after hrest.2)
    exact Template.reviseWhere_cons (List.length_map _).symm hsame hbody hafter
  intro ρ hρ
  rcases Template.reviseWhere_append (hself before hts.1) hblock ρ hρ with ⟨ρ', hρ', hrevise⟩
  exact .withTemplates hrevise (hparts.2.revisesWhere ρ' hρ')

/-- A parameter of a template may be given a name that is new to the expression.  Either both
expressions expand to the same tree, or both fail. -/
theorem toOption_expandTemplates_rename {place : List Step} {before after : List Template}
    {f : String} {params : List String} {body main : Expr} {p q : String} (hp : p ∈ params)
    (hq : q ≠ "")
    (hfresh : (put place (.withTemplates (before ++ .mk f params body :: after) main)).Made
      (Leaf.Names (· ≠ q)))
    (hnames : (put place
      (.withTemplates (before ++ .mk f params body :: after) main)).AsksForNeither p q) :
    (put place (.withTemplates (before ++ .mk f (params.map (newName p q)) (body.rename p q) ::
      after) main)).expandTemplates.toOption =
        (put place (.withTemplates (before ++ .mk f params body :: after)
          main)).expandTemplates.toOption := by
  have hrevises := put_revisesWhere (hnames.proper hfresh) (revisesWhere_rename hp hq)
  exact hrevises.relates.toOption_eq.symm

/-- The block where `g(p, w)` is called with a metric and a window.  Its body refers to `p` as a metric
with filters and as a label, and declares a template that has a parameter of that name; a metric
there has a computed name. -/
def windowedSum (params : List String) (body : Expr) : Expr :=
  .withTemplates [.mk "g" params body]
    (.call "g" [.selector (.ofName "foo"), .duration ⟨"5m", false⟩] false)

/-- The body of `g`. -/
def windowedBody : Expr :=
  .withTemplates
    [.mk "s" [] (.string "x"), .mk "h" ["p"] (.selector (.ofName "p")),
      .mk "m" []
        (.selectorExpr ⟨[[⟨.equal, nameLabel, ⟨[.literal "m:", .ident "s"]⟩, false⟩]]⟩)]
    (.binary (.plain .add)
      (.aggregate ⟨"sum", some (.by ["p"]), 0⟩
        [.rollup (.selector ⟨[[.equal nameLabel "p", .equal "a" "b"]]⟩)
          ⟨some ⟨"w", true⟩, none, none, false⟩ none])
      (.call "h" [.selector (.ofName "m")] false))

theorem toOption_expandTemplates_rename_windowed :
    let e := windowedSum ["p", "w"] windowedBody
    let result : Expr := .binary (.plain .add)
      (.aggregate ⟨"sum", some (.by ["foo"]), 0⟩
        [.rollup (.selector ⟨[[.equal nameLabel "foo", .equal "a" "b"]]⟩)
          ⟨some ⟨"5m", false⟩, none, none, false⟩ none])
      (.selector (.ofName "m:x"))
    "p" ∈ ["p", "w"] ∧ "r" ≠ "" ∧ e.Made (Leaf.Names (· ≠ "r")) ∧ e.AsksForNeither "p" "r" ∧
      e.expandTemplates = .ok result ∧
        (windowedSum ["r", "w"] (windowedBody.rename "p" "r")).expandTemplates.toOption =
          some result := by
  intro e result
  have hfresh : e.Made (Leaf.Names (· ≠ "r")) := by decide
  have hquotes : ∀ x ∈ e.quotes,
      x = .operand "x" ∨ x = .metric ⟨[.literal "m:", .ident "s"]⟩ := by
    decide
  have hnames : e.AsksForNeither "p" "r" := by
    intro s hs v hv
    rcases hquotes _ hs with heq | heq
    · cases heq
    · cases heq
      -- Whatever the name stands for, the string starts with the literal.
      cases hv with
      | literal hrest =>
          refine .inr ⟨fun heq => ?_, fun heq => ?_⟩
          · simpa using congrArg String.toList heq
          · simpa using congrArg String.toList heq
  have hresult : e.expandTemplates = .ok result := by rfl
  have hrename : (windowedSum ["r", "w"] (windowedBody.rename "p" "r")).expandTemplates.toOption =
      e.expandTemplates.toOption :=
    @toOption_expandTemplates_rename [] [] [] "g" ["p", "w"] windowedBody _ "p" "r" (by decide)
      (by decide) hfresh hnames
  refine ⟨by decide, by decide, hfresh, hnames, hresult, ?_⟩
  rw [hrename, hresult]
  rfl

/-- Names of metrics are looked up after they have been computed.  Where the string that `s` stands for
is the name of the parameter `p`, the metric is what `p` is bound to, but not under another name for
`p`. -/
theorem expandTemplates_rename_computed :
    let body : Expr := .selectorExpr ⟨[[⟨.equal, nameLabel, .ofIdent "s", false⟩]]⟩
    let main : Expr := .call "f" [.selector (.ofName "foo"), .string "p"] false
    let e : Expr := .withTemplates [.mk "f" ["p", "s"] body] main
    let e' : Expr :=
      .withTemplates [.mk "f" (["p", "s"].map (newName "p" "q")) (body.rename "p" "q")] main
    e.Made (Leaf.Names (· ≠ "q")) ∧ e.expandTemplates = .ok (.selector (.ofName "foo")) ∧
      e'.expandTemplates = .ok (.selector (.ofName "p")) ∧
        e'.expandTemplates.toOption ≠ e.expandTemplates.toOption := by
  intro body main e e'
  have hold : e.expandTemplates = .ok (.selector (.ofName "foo")) := by rfl
  have hnew : e'.expandTemplates = .ok (.selector (.ofName "p")) := by rfl
  refine ⟨by decide, hold, hnew, ?_⟩
  rw [hold, hnew]
  simp [Except.toOption, Selector.ofName, LabelFilter.equal]

end Expr

end SeriesQuery
