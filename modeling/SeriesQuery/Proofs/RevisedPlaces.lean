import SeriesQuery.Proofs.Agreement
import SeriesQuery.Proofs.Revisions

/-!
# Revisions of parts

Where names are mapped to others that refer to the same, each part of a node becomes a revision of
what it was.  With no name changed, an expression is a revision of itself
(`Expr.Proper.revisesWhere`), and so revising what stands at a place revises the whole
(`Expr.put_revisesWhere`).
-/

namespace SeriesQuery

/-! ## Other names -/

section

variable (σ : String → String)

def Segment.mapNames : Segment → Segment
  | literal value => literal value
  | ident name => ident (σ name)

def StringExpr.mapNames (s : StringExpr) : StringExpr :=
  ⟨s.segments.map (Segment.mapNames σ)⟩

def Duration.mapNames (d : Duration) : Duration :=
  if d.isTemplate then ⟨σ d.text, true⟩ else d

def Range.mapNames (r : Range) : Range :=
  { r with
    window := r.window.map (Duration.mapNames σ)
    step := r.step.map (Duration.mapNames σ)
    offset := r.offset.map (Duration.mapNames σ) }

/-- Another name for the metric.  What further filters ask for is no reference. -/
def Selector.mapNames (s : Selector) : Selector :=
  match s.name? with
  | some n => .named (σ n) (s.groups.map (List.drop 1))
  | none => s

def FilterExpr.mapNames (f : FilterExpr) : FilterExpr :=
  if f.isSplice then { f with label := σ f.label } else { f with value := f.value.mapNames σ }

def SelectorExpr.mapNames (s : SelectorExpr) : SelectorExpr :=
  match s.metric? with
  | some n => .named (σ n) ((s.groups.map (List.drop 1)).map (List.map (FilterExpr.mapNames σ)))
  | none => ⟨s.groups.map (List.map (FilterExpr.mapNames σ))⟩

def Grouping.mapNames (g : Grouping) : Grouping :=
  g.withLabels (g.labels.map σ)

def Aggregation.mapNames (a : Aggregation) : Aggregation :=
  { a with name := σ a.name, grouping := a.grouping.map (Grouping.mapNames σ) }

def Matching.mapNames (m : Matching) : Matching :=
  { m with labels := m.labels.map σ }

def Join.mapNames (j : Join) : Join :=
  { j with labels := j.labels.map σ }

def BinaryOp.mapNames (b : BinaryOp) : BinaryOp :=
  { b with
    matching := b.matching.map (Matching.mapNames σ)
    join := b.join.map (Join.mapNames σ)
    joinLead := b.joinLead.map (StringExpr.mapNames σ) }

end

/-- Names with the property refer to what they are mapped to, and those of metrics stay names. -/
structure Naming.Sends (A : String → Prop) (σ : String → String) (ρ : Naming) : Prop where
  names : ∀ n, A n → ρ n (σ n)
  nonempty : ∀ n, n ≠ "" → σ n ≠ ""

theorem Naming.Keeps.sends {A : String → Prop} {ρ : Naming} (h : ρ.Keeps A) : ρ.Sends A id :=
  ⟨h, fun _ hn => hn⟩

/-! ## Names of selectors -/

/-- A selector with a name that is one literal is one of its filters under that name. -/
theorem SelectorExpr.eq_named {s : SelectorExpr} {n : String} (h : s.metric? = some n) :
    n ≠ "" ∧ s.groups ≠ [] ∧ s = .named n (s.groups.map (List.drop 1)) := by
  rcases commonName_eq_some h with ⟨hsome, hall⟩
  have hgroup : ∀ g ∈ s.groups, n ≠ "" ∧ .named n :: g.drop 1 = g := by
    intro g hg
    have hname := hall g hg
    unfold FilterExpr.metric? at hname
    split at hname
    · split at hname
      · rename_i hfixes
        cases hname
        rcases hfixes with ⟨rfl, hne⟩
        exact ⟨hne, rfl⟩
      · cases hname
    · cases hname
  rcases List.exists_mem_of_ne_nil _ hsome with ⟨g, hg⟩
  refine ⟨(hgroup g hg).1, hsome, ?_⟩
  rw [SelectorExpr.named, map_cons_drop fun g hg => (hgroup g hg).2]

/-! ## Names that stay -/

@[simp] theorem Segment.mapNames_id : Segment.mapNames id = id := by
  funext segment
  cases segment <;> rfl

@[simp] theorem StringExpr.mapNames_id (s : StringExpr) : s.mapNames id = s := by
  simp [StringExpr.mapNames]

@[simp] theorem Duration.mapNames_id : Duration.mapNames id = id := by
  funext d
  rcases d with ⟨text, isTemplate⟩
  cases isTemplate <;> rfl

@[simp] theorem Range.mapNames_id (r : Range) : r.mapNames id = r := by
  simp [Range.mapNames]

@[simp] theorem Selector.mapNames_id (s : Selector) : s.mapNames id = s := by
  unfold Selector.mapNames
  split
  · rename_i n hname
    exact (Selector.eq_named hname).2.2.symm
  · rfl

@[simp] theorem FilterExpr.mapNames_id : FilterExpr.mapNames id = id := by
  funext f
  simp [FilterExpr.mapNames]

@[simp] theorem SelectorExpr.mapNames_id (s : SelectorExpr) : s.mapNames id = s := by
  unfold SelectorExpr.mapNames
  split
  · rename_i n hname
    simpa using (SelectorExpr.eq_named hname).2.2.symm
  · simp

@[simp] theorem Grouping.mapNames_id : Grouping.mapNames id = id := by
  funext g
  cases g <;> simp [Grouping.mapNames, Grouping.withLabels, Grouping.labels]

@[simp] theorem Aggregation.mapNames_id (a : Aggregation) : a.mapNames id = a := by
  simp [Aggregation.mapNames]

@[simp] theorem BinaryOp.mapNames_id (b : BinaryOp) : b.mapNames id = b := by
  have hmatching : Matching.mapNames id = id := funext fun m => by simp [Matching.mapNames]
  have hjoin : Join.mapNames id = id := funext fun j => by simp [Join.mapNames]
  have hlead : StringExpr.mapNames id = id := funext fun s => by simp
  simp [BinaryOp.mapNames, hmatching, hjoin, hlead]

/-! ## Parts -/

/-- The names and labels have the property. -/
def Leaf.Names (A : String → Prop) : Leaf → Prop
  | .text value => A value
  | .label name => A name
  | _ => True

instance (A : String → Prop) [DecidablePred A] : DecidablePred (Leaf.Names A)
  | .text value => inferInstanceAs (Decidable (A value))
  | .label name => inferInstanceAs (Decidable (A name))
  | .number _ => inferInstanceAs (Decidable True)
  | .duration _ => inferInstanceAs (Decidable True)

/-- The string keeps to the terms. -/
def Quote.Fits (T : Terms) : Quote → Prop
  | .operand value => T.strings value
  | .metric s => ∀ v, Spells T.strings s.segments v → v = "" ∨ T.names v

theorem Quote.Fits.literal {T : Terms} {value : String}
    (h : Quote.Fits T (.metric (.ofLiteral value))) : value = "" ∨ T.names value := by
  have hspells : Spells T.strings [.literal value] (value ++ "") := .literal .nil
  rw [String.append_empty] at hspells
  exact h value hspells

theorem forall₂_map {α : Type} {R : α → α → Prop} {g : α → α} {as : List α}
    (h : ∀ a ∈ as, R a (g a)) : List.Forall₂ R as (as.map g) :=
  List.forall₂_map_right_iff.2 (List.forall₂_same.2 h)

theorem optionRel_map {α : Type} {R : α → α → Prop} {g : α → α} {o : Option α}
    (h : ∀ a ∈ o, R a (g a)) : Option.Rel R o (o.map g) := by
  cases o with
  | none => exact .none
  | some a => exact .some (h a rfl)

section

variable {A : String → Prop} {T : Terms} {ρ : Naming} {σ : String → String} (hρ : ρ.Sends A σ)
include hρ

theorem StringExpr.revises_mapNames {s : StringExpr}
    (hs : ∀ segment ∈ s.segments, segment.leaf.Names A) : s.Revises ρ (s.mapNames σ) := by
  refine forall₂_map fun segment hsegment => ?_
  cases segment with
  | literal value => exact .literal
  | ident name => exact .ident (hρ.names name (hs _ hsegment))

theorem Duration.revises_mapNames {d : Duration} (hd : d.leaf.Names A) :
    d.Revises ρ (d.mapNames σ) := by
  rcases d with ⟨text, isTemplate⟩
  cases isTemplate with
  | false => exact .span rfl
  | true => exact .template (hρ.names text hd)

theorem Range.revises_mapNames {r : Range} (hr : ∀ l ∈ r.leaves, Leaf.Names A l) :
    r.Revises ρ (r.mapNames σ) := by
  have hparts := forall_mem_rangeLeaves.1 hr
  exact ⟨optionRel_map fun d hd => Duration.revises_mapNames hρ (hparts.1 d hd),
    optionRel_map fun d hd => Duration.revises_mapNames hρ (hparts.2.1 d hd),
    optionRel_map fun d hd => Duration.revises_mapNames hρ (hparts.2.2 d hd), rfl⟩

theorem Selector.revises_mapNames {s : Selector} (hs : ∀ g ∈ s.groups, ∀ f ∈ g, f.leaf.Names A)
    (hvalues : ∀ value ∈ s.nameValues, Quote.Fits T (.metric value)) :
    s.Revises T ρ (s.mapNames σ) := by
  unfold Selector.mapNames
  cases hname : s.name? with
  | none =>
      refine .plain fun g hg f hf hfilter => Quote.Fits.literal (hvalues _ ?_)
      simp only [Selector.nameValues, hname, List.mem_flatMap, List.mem_map, List.mem_filter]
      exact ⟨g, hg, f, ⟨hf, hfilter⟩, rfl⟩
  | some n =>
      rcases Selector.mem_of_name? hname with ⟨g, hg, f, hf, rfl⟩
      rcases Selector.eq_named hname with ⟨hne, _, heq⟩
      have hn := hρ.names _ (hs g hg f hf)
      have hrest : ∀ r ∈ s.groups.map (List.drop 1), T.Clear r := by
        intro r hr f' hf' hfilter
        rcases List.mem_map.1 hr with ⟨g', hg', rfl⟩
        refine Quote.Fits.literal (hvalues _ ?_)
        simp only [Selector.nameValues, hname, List.mem_flatMap, List.mem_map, List.mem_filter]
        exact ⟨g', hg', f', ⟨hf', hfilter⟩, rfl⟩
      have hrevises := Selector.Revises.named hne (hρ.nonempty _ hne) hn hrest
      rwa [← heq] at hrevises

theorem FilterExpr.revises_mapNames {f : FilterExpr} (hf : ∀ l ∈ f.leaves, Leaf.Names A l)
    (hvalue : f.isNameFilter → Quote.Fits T (.metric f.value)) :
    f.Revises T ρ (f.mapNames σ) := by
  rcases f with ⟨op, label, value, isSplice⟩
  cases isSplice with
  | true => exact .splice (hρ.names label (hf (.text label) (by simp [FilterExpr.leaves])))
  | false =>
      refine .plain (StringExpr.revises_mapNames hρ fun segment hsegment => ?_) hvalue
      exact hf segment.leaf (List.mem_map_of_mem hsegment)

theorem SelectorExpr.revises_mapNames {s : SelectorExpr}
    (hs : ∀ g ∈ s.groups, ∀ f ∈ g, ∀ l ∈ f.leaves, Leaf.Names A l)
    (hvalues : ∀ value ∈ s.nameValues, Quote.Fits T (.metric value)) :
    s.Revises T ρ (s.mapNames σ) := by
  have hgroups : ∀ gs : List (List FilterExpr),
      (∀ g ∈ gs, ∀ f ∈ g, ∀ l ∈ f.leaves, Leaf.Names A l) →
      (∀ g ∈ gs, ∀ f ∈ g, f.isNameFilter → f.value ∈ s.nameValues) →
        List.Forall₂ (List.Forall₂ (FilterExpr.Revises T ρ)) gs
          (gs.map (List.map (FilterExpr.mapNames σ))) := by
    intro gs hgs hmem
    refine forall₂_map fun g hg => forall₂_map fun f hf => ?_
    exact FilterExpr.revises_mapNames hρ (hgs g hg f hf) fun hfilter =>
      hvalues f.value (hmem g hg f hf hfilter)
  unfold SelectorExpr.mapNames
  cases hname : s.metric? with
  | none =>
      refine .plain (hgroups s.groups hs fun g hg f hf hfilter => ?_)
      simp only [SelectorExpr.nameValues, hname, List.mem_flatMap, List.mem_map, List.mem_filter]
      exact ⟨g, hg, f, ⟨hf, hfilter⟩, rfl⟩
  -- The name is renamed once, and what stands behind it in each group by itself.
  | some n =>
      rcases SelectorExpr.eq_named hname with ⟨hne, hsome, heq⟩
      have hrest : ∀ r ∈ s.groups.map (List.drop 1), ∃ g ∈ s.groups, r = g.drop 1 := by
        intro r hr
        rcases List.mem_map.1 hr with ⟨g, hg, rfl⟩
        exact ⟨g, hg, rfl⟩
      have hrevise := hgroups (s.groups.map (List.drop 1)) ?_ ?_
      · -- The name is a leaf of the first filter of any group.
        have hn : A n := by
          rcases List.exists_mem_of_ne_nil _ hsome with ⟨g, hg⟩
          rw [heq] at hg
          rcases List.mem_map.1 hg with ⟨r, hr, rfl⟩
          refine hs _ (by rw [heq]; exact hg) (.named n) List.mem_cons_self (.text n) ?_
          simp [FilterExpr.named, FilterExpr.leaves, StringExpr.ofLiteral, StringExpr.leaves,
            Segment.leaf]
        have hnamed := SelectorExpr.Revises.named hne (hρ.nonempty n hne) (hρ.names n hn) hrevise
        rwa [← heq] at hnamed
      · intro r hr f hf
        rcases hrest r hr with ⟨g, hg, rfl⟩
        exact hs g hg f (List.mem_of_mem_drop hf)
      · intro r hr f hf hfilter
        rcases hrest r hr with ⟨g, hg, rfl⟩
        simp only [SelectorExpr.nameValues, hname, List.mem_flatMap, List.mem_map, List.mem_filter]
        exact ⟨g, hg, f, ⟨hf, hfilter⟩, rfl⟩

theorem Grouping.revises_mapNames {g : Grouping} (hg : ∀ label ∈ g.labels, A label) :
    g.Revises ρ (g.mapNames σ) := by
  cases g with
  | «by» labels => exact .by (forall₂_map fun label hlabel => hρ.names label (hg label hlabel))
  | without labels =>
      exact .without (forall₂_map fun label hlabel => hρ.names label (hg label hlabel))

theorem Aggregation.revises_mapNames {a : Aggregation} (ha : ∀ l ∈ a.leaves, Leaf.Names A l) :
    a.Revises ρ (a.mapNames σ) := by
  have hparts := forall_mem_aggregationLeaves.1 ha
  exact ⟨hρ.names a.name hparts.1,
    optionRel_map fun g hg => Grouping.revises_mapNames hρ (hparts.2 g hg), rfl⟩

theorem BinaryOp.revises_mapNames {b : BinaryOp} (hb : ∀ l ∈ b.leaves, Leaf.Names A l) :
    b.Revises ρ (b.mapNames σ) := by
  have hparts := forall_mem_operatorLeaves.1 hb
  refine .mk (optionRel_map fun m hm => .mk ?_) (optionRel_map fun j hj => .mk ?_)
    (optionRel_map fun lead hlead => StringExpr.revises_mapNames hρ ?_)
  · exact forall₂_map fun label hlabel => hρ.names label (hparts.1 m hm label hlabel)
  · exact forall₂_map fun label hlabel => hρ.names label (hparts.2.1 j hj label hlabel)
  · intro segment hsegment
    exact hparts.2.2 lead hlead segment.leaf (List.mem_map_of_mem hsegment)

end

/-! ## Expressions as revisions of themselves -/

section

variable (A : String → Prop) (T : Terms)

/-- The names in the expression have the property, and its strings keep to the terms. -/
structure Expr.Proper (e : Expr) : Prop where
  names : e.Made (Leaf.Names A)
  quotes : e.Quotes (Quote.Fits T)

structure Template.Proper (t : Template) : Prop where
  name : A t.name
  params : ∀ x ∈ t.params, A x
  body : t.body.Proper A T

/-- The second expression is a revision of the first, as long as names with the property refer to
the same. -/
def Expr.RevisesWhere (e e' : Expr) : Prop :=
  ∀ ρ : Naming, ρ.Keeps A → e.Revises T ρ e'

/-- The second block is a revision of the first, as long as names with the property refer to the same;
behind it they still do. -/
def Template.ReviseWhere (ts ts' : List Template) : Prop :=
  ∀ ρ : Naming, ρ.Keeps A → ∃ ρ' : Naming, ρ'.Keeps A ∧ Template.Revise T ρ ts ts' ρ'

end

section

variable {A : String → Prop} {T : Terms} {ρ : Naming}

/-- The parts of nodes whose names refer to the same are revisions of themselves. -/
theorem Range.revises_self (hρ : ρ.Keeps A) {r : Range} (hr : ∀ l ∈ r.leaves, Leaf.Names A l) :
    r.Revises ρ r := by
  have hself := Range.revises_mapNames hρ.sends hr
  rwa [Range.mapNames_id] at hself

theorem Aggregation.revises_self (hρ : ρ.Keeps A) {a : Aggregation}
    (ha : ∀ l ∈ a.leaves, Leaf.Names A l) : a.Revises ρ a := by
  have hself := Aggregation.revises_mapNames hρ.sends ha
  rwa [Aggregation.mapNames_id] at hself

theorem BinaryOp.revises_self (hρ : ρ.Keeps A) {b : BinaryOp}
    (hb : ∀ l ∈ b.leaves, Leaf.Names A l) : b.Revises ρ b := by
  have hself := BinaryOp.revises_mapNames hρ.sends hb
  rwa [BinaryOp.mapNames_id] at hself

theorem Terms.same_of_mem_zip {params : List String} :
    ∀ pair ∈ params.zip params, T.Same pair.1 pair.2 := by
  have hsame : List.Forall₂ T.Same params params := List.forall₂_same.2 fun x _ => .inl rfl
  exact fun pair hpair => (List.forall₂_iff_zip.1 hsame).2 hpair

/-- A template whose parameters and body are revised. -/
theorem Template.reviseWhere_cons {name : String} {params params' : List String}
    {body body' : Expr} {ts ts' : List Template} (hlength : params.length = params'.length)
    (hsame : ∀ pair ∈ params.zip params', T.Same pair.1 pair.2)
    (hbody : ∀ ρ : Naming, ρ.Keeps A → body.Revises T (ρ.bindAll (params.zip params')) body')
    (hts : Template.ReviseWhere A T ts ts') :
    Template.ReviseWhere A T (.mk name params body :: ts) (.mk name params' body' :: ts') := by
  intro ρ hρ
  rcases hts _ (hρ.bind name) with ⟨ρ', hρ', hrest⟩
  exact ⟨ρ', hρ', .both hlength hsame (hbody ρ hρ) hrest⟩

theorem Template.reviseWhere_body {name : String} {params : List String} {body body' : Expr}
    {ts ts' : List Template} (hbody : body.RevisesWhere A T body')
    (hts : Template.ReviseWhere A T ts ts') :
    Template.ReviseWhere A T (.mk name params body :: ts) (.mk name params body' :: ts') :=
  Template.reviseWhere_cons rfl Terms.same_of_mem_zip (fun _ hρ => hbody _ (hρ.bindAll params)) hts

/-- Templates before those that are revised. -/
theorem Template.reviseWhere_append {ts us us' : List Template}
    (hts : ∀ t ∈ ts, t.body.RevisesWhere A T t.body) (hus : Template.ReviseWhere A T us us') :
    Template.ReviseWhere A T (ts ++ us) (ts ++ us') := by
  induction ts with
  | nil => exact hus
  | cons t ts ih =>
      have hparts := List.forall_mem_cons.1 hts
      rcases t with ⟨name, params, body⟩
      exact Template.reviseWhere_body hparts.1 (ih hparts.2)

theorem Template.reviseWhere_self {ts : List Template}
    (hts : ∀ t ∈ ts, t.body.RevisesWhere A T t.body) : Template.ReviseWhere A T ts ts := by
  have hnil : Template.ReviseWhere A T [] [] := fun ρ hρ => ⟨ρ, hρ, .nil⟩
  simpa using Template.reviseWhere_append hts hnil

namespace Expr

theorem Proper.call {name : String} {args : List Expr} {keepNames : Bool}
    (h : Proper A T (.call name args keepNames)) : A name ∧ ∀ e ∈ args, e.Proper A T := by
  have hnames := made_call.1 h.names
  exact ⟨hnames.1, fun e he => ⟨hnames.2 e he, quotes_call.1 h.quotes e he⟩⟩

theorem Proper.aggregate {a : Aggregation} {args : List Expr} (h : Proper A T (.aggregate a args)) :
    (∀ l ∈ a.leaves, l.Names A) ∧ ∀ e ∈ args, e.Proper A T := by
  have hnames := made_aggregate.1 h.names
  exact ⟨hnames.1, fun e he => ⟨hnames.2 e he, quotes_aggregate.1 h.quotes e he⟩⟩

theorem Proper.binary {b : BinaryOp} {l r : Expr} (h : Proper A T (.binary b l r)) :
    (∀ l ∈ b.leaves, l.Names A) ∧ l.Proper A T ∧ r.Proper A T := by
  have hnames := made_binary.1 h.names
  have hquotes := quotes_binary.1 h.quotes
  exact ⟨hnames.1, ⟨hnames.2.1, hquotes.1⟩, ⟨hnames.2.2, hquotes.2⟩⟩

theorem Proper.rollup {inner : Expr} {range : Range} {time : Option Expr}
    (h : Proper A T (.rollup inner range time)) :
    inner.Proper A T ∧ (∀ l ∈ range.leaves, l.Names A) ∧ ∀ e ∈ time, e.Proper A T := by
  have hnames := made_rollup.1 h.names
  have hquotes := quotes_rollup.1 h.quotes
  exact ⟨⟨hnames.1, hquotes.1⟩, hnames.2.1, fun e he => ⟨hnames.2.2 e he, hquotes.2 e he⟩⟩

theorem Proper.tuple {items : List Expr} (h : Proper A T (.tuple items)) :
    ∀ e ∈ items, e.Proper A T :=
  fun e he => ⟨made_tuple.1 h.names e he, quotes_tuple.1 h.quotes e he⟩

theorem Proper.withTemplates {ts : List Template} {body : Expr}
    (h : Proper A T (.withTemplates ts body)) : (∀ t ∈ ts, t.Proper A T) ∧ body.Proper A T := by
  have hnames := made_withTemplates.1 h.names
  have hquotes := quotes_withTemplates.1 h.quotes
  refine ⟨fun t ht => ?_, ⟨hnames.2, hquotes.2⟩⟩
  have hparts := Template.made_iff.1 (hnames.1 t ht)
  exact ⟨hparts.1, hparts.2.1, ⟨hparts.2.2, hquotes.1 t ht⟩⟩

/-- An expression is a revision of itself, if its names refer to the same and its strings keep to the
terms. -/
theorem Proper.revisesWhere {e : Expr} (he : e.Proper A T) : e.RevisesWhere A T e := by
  induction e using Expr.inductionOn with
  | number n => exact fun _ _ => .number
  | duration d => exact fun _ _ => .duration
  | string value => exact fun _ _ => .string (quotes_string.1 he.quotes)
  | concat s =>
      intro ρ hρ
      have hs := StringExpr.revises_mapNames hρ.sends (made_concat.1 he.names)
      rw [StringExpr.mapNames_id] at hs
      exact .concat hs (quotes_concat.1 he.quotes)
  | selector s =>
      intro ρ hρ
      have hs := Selector.revises_mapNames hρ.sends (made_selector.1 he.names)
        (quotes_selector.1 he.quotes)
      rw [Selector.mapNames_id] at hs
      exact .selector hs
  | selectorExpr s =>
      intro ρ hρ
      have hs := SelectorExpr.revises_mapNames hρ.sends (made_selectorExpr.1 he.names)
        (quotes_selectorExpr.1 he.quotes)
      rw [SelectorExpr.mapNames_id] at hs
      exact .selectorExpr hs
  | call name args keepNames ih =>
      intro ρ hρ
      have hparts := he.call
      refine .call (hρ name hparts.1) (revise_iff.2 (List.forall₂_same.2 fun a ha => ?_))
      exact ih a ha (hparts.2 a ha) ρ hρ
  | aggregate a args ih =>
      intro ρ hρ
      have hparts := he.aggregate
      refine .aggregate (Aggregation.revises_self hρ hparts.1)
        (revise_iff.2 (List.forall₂_same.2 fun arg harg => ?_))
      exact ih arg harg (hparts.2 arg harg) ρ hρ
  | binary b l r ihl ihr =>
      intro ρ hρ
      have hparts := he.binary
      exact .binary (BinaryOp.revises_self hρ hparts.1) (ihl hparts.2.1 ρ hρ) (ihr hparts.2.2 ρ hρ)
  | rollup inner range time ih iht =>
      intro ρ hρ
      have hparts := he.rollup
      refine .rollup (ih hparts.1 ρ hρ) (Range.revises_self hρ hparts.2.1)
        (revise_iff.2 (List.forall₂_same.2 fun e hmem => ?_))
      have htime := Option.mem_toList.1 hmem
      exact iht e htime (hparts.2.2 e htime) ρ hρ
  | tuple items ih =>
      intro ρ hρ
      refine .tuple (revise_iff.2 (List.forall₂_same.2 fun e hmem => ?_))
      exact ih e hmem (he.tuple e hmem) ρ hρ
  | withTemplates ts body ihts ih =>
      intro ρ hρ
      have hparts := he.withTemplates
      have hts : ∀ t ∈ ts, t.body.RevisesWhere A T t.body :=
        fun t ht => ihts t ht (hparts.1 t ht).body
      -- The names of the block are bound to themselves, and the body keeps its names under them.
      rcases Template.reviseWhere_self hts ρ hρ with ⟨ρ', hρ', hblock⟩
      exact .withTemplates hblock (ih hparts.2 ρ' hρ')

/-! ## Revisions at a place -/

/-- A list where one member is revised. -/
theorem revise_around {ρ : Naming} {before after : List Expr} {e e' : Expr}
    (hbefore : ∀ e ∈ before, e.Revises T ρ e) (hafter : ∀ e ∈ after, e.Revises T ρ e)
    (he : e.Revises T ρ e') : Revise T ρ (before ++ e :: after) (before ++ e' :: after) := by
  refine revise_iff.2 ?_
  exact List.rel_append (List.forall₂_same.2 hbefore) (.cons he (List.forall₂_same.2 hafter))

theorem Step.proper_of_put {step : Step} {e : Expr} (h : (step.put e).Proper A T) :
    e.Proper A T := by
  cases step with
  | callArg name before after keepNames => exact h.call.2 e (by simp)
  | aggregateArg a before after => exact h.aggregate.2 e (by simp)
  | left b r => exact h.binary.2.1
  | right b l => exact h.binary.2.2
  | rolledUp range time => exact h.rollup.1
  | moment inner range => exact h.rollup.2.2 e rfl
  | item before after => exact h.tuple e (by simp)
  | templateBody before name params after body =>
      exact (h.withTemplates.1 (.mk name params e) (by simp)).body
  | underTemplates ts => exact h.withTemplates.2

/-- Revising an operand or the body of a template revises the node. -/
theorem Step.put_revisesWhere {step : Step} {e e' : Expr} (hproper : (step.put e).Proper A T)
    (he : e.RevisesWhere A T e') :
    (step.put e).RevisesWhere A T (step.put e') := by
  have hself : ∀ es : List Expr, (∀ e ∈ es, e.Proper A T) → ∀ ρ : Naming, ρ.Keeps A →
      ∀ e ∈ es, e.Revises T ρ e :=
    fun es hes ρ hρ e he => (hes e he).revisesWhere ρ hρ
  intro ρ hρ
  cases step with
  | callArg name before after keepNames =>
      have hparts := hproper.call
      have hargs := List.forall_mem_append.1 hparts.2
      refine .call (hρ name hparts.1) ?_
      exact revise_around (hself _ hargs.1 ρ hρ)
        (hself _ (List.forall_mem_cons.1 hargs.2).2 ρ hρ) (he ρ hρ)
  | aggregateArg a before after =>
      have hparts := hproper.aggregate
      have hargs := List.forall_mem_append.1 hparts.2
      refine .aggregate (Aggregation.revises_self hρ hparts.1) ?_
      exact revise_around (hself _ hargs.1 ρ hρ)
        (hself _ (List.forall_mem_cons.1 hargs.2).2 ρ hρ) (he ρ hρ)
  | left b r =>
      have hparts := hproper.binary
      exact .binary (BinaryOp.revises_self hρ hparts.1) (he ρ hρ) (hparts.2.2.revisesWhere ρ hρ)
  | right b l =>
      have hparts := hproper.binary
      exact .binary (BinaryOp.revises_self hρ hparts.1) (hparts.2.1.revisesWhere ρ hρ) (he ρ hρ)
  | rolledUp range time =>
      have hparts := hproper.rollup
      refine .rollup (he ρ hρ) (Range.revises_self hρ hparts.2.1) (revise_iff.2 ?_)
      exact List.forall₂_same.2
        (hself _ (fun e he => hparts.2.2 e (Option.mem_toList.1 he)) ρ hρ)
  | moment inner range =>
      have hparts := hproper.rollup
      exact .rollup (hparts.1.revisesWhere ρ hρ) (Range.revises_self hρ hparts.2.1)
        (.cons (he ρ hρ) .nil)
  | item before after =>
      have hargs := List.forall_mem_append.1 hproper.tuple
      refine .tuple ?_
      exact revise_around (hself _ hargs.1 ρ hρ)
        (hself _ (List.forall_mem_cons.1 hargs.2).2 ρ hρ) (he ρ hρ)
  | templateBody before name params after body =>
      have hparts := hproper.withTemplates
      have hts := List.forall_mem_append.1 hparts.1
      have hbefore : ∀ t ∈ before, t.body.RevisesWhere A T t.body :=
        fun t ht => (hts.1 t ht).body.revisesWhere
      have hafter : ∀ t ∈ after, t.body.RevisesWhere A T t.body :=
        fun t ht => ((List.forall_mem_cons.1 hts.2).2 t ht).body.revisesWhere
      -- The template has its name and parameters, so that the ones behind it mean the same.
      have hrest : Template.ReviseWhere A T (.mk name params e :: after)
          (.mk name params e' :: after) :=
        Template.reviseWhere_body he (Template.reviseWhere_self hafter)
      rcases Template.reviseWhere_append hbefore hrest ρ hρ with ⟨ρ', hρ', hblock⟩
      exact .withTemplates hblock (hparts.2.revisesWhere ρ' hρ')
  | underTemplates ts =>
      have hparts := hproper.withTemplates
      have hts : ∀ t ∈ ts, t.body.RevisesWhere A T t.body :=
        fun t ht => (hparts.1 t ht).body.revisesWhere
      rcases Template.reviseWhere_self hts ρ hρ with ⟨ρ', hρ', hblock⟩
      exact .withTemplates hblock (he ρ' hρ')

/-- Revising what stands at a place revises the whole. -/
theorem put_revisesWhere {place : List Step} {e e' : Expr} (hproper : (put place e).Proper A T)
    (he : e.Proper A T → e.RevisesWhere A T e') :
    (put place e).RevisesWhere A T (put place e') := by
  induction place with
  | nil => exact he hproper
  | cons step place ih => exact Step.put_revisesWhere hproper (ih (Step.proper_of_put hproper))

end Expr

end

end SeriesQuery
