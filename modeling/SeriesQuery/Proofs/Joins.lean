import SeriesQuery.Proofs.Meaning

/-!
# Filters of joins

An operator with a join gives the maps of the side with many matches, where the labels of the join
are those of the map that each is matched with.

The common filters of the node have those of that side whole, but on a label that is taken over the
results have the values of the other side.  So the common filters hold on the labels that are not
taken over, and on those that the operands are matched by (`BinaryOp.passes_of_mem_joined`).  On
another label they may not hold (`BinaryOp.not_passes_of_mem_joined`).
-/

namespace SeriesQuery

/-! ## Results of joins -/

namespace Join

/-- The label is taken over from the side with single matches.  A lone star stands for all. -/
def takes (j : Join) (label : String) : Bool :=
  j.labels == ["*"] || j.labels.contains label

/-- A map of the side with many matches, without its name and with the labels that are taken over
from its match. -/
def merge (j : Join) (many one : LabelMap) : LabelMap :=
  fun label =>
    if j.takes label then one label else if label = nameLabel then "" else many label

end Join

namespace BinaryOp

/-- Arithmetic or a comparison with this join, where nothing stands before the labels taken over. -/
structure Joins (b : BinaryOp) (j : Join) : Prop where
  kind : b.op.kind = .arithmetic ∨ b.op.kind = .comparison
  join : b.join = some j
  joinLead : b.joinLead = none

/-- What an operator with a join makes of its operands. -/
def joined (b : BinaryOp) (j : Join) (left right : Set LabelMap) : Set LabelMap :=
  match j.side with
  | .left => {k | ∃ m ∈ left, ∃ n ∈ right, b.key m = b.key n ∧ k = j.merge m n}
  | .right => {k | ∃ m ∈ right, ∃ n ∈ left, b.key m = b.key n ∧ k = j.merge m n}

variable {fits : String → String → Prop} {b : BinaryOp} {j : Join} {f : LabelFilter}
  {many one k : LabelMap} {label : String}

/-! ## Filters that hold -/

/-- On a label that the operands are matched by it makes no difference which side it is from. -/
theorem merge_eq_many (hkey : b.key many = b.key one) (hname : label ≠ nameLabel)
    (htaken : j.takes label → keyLabels b.matching label) :
    j.merge many one label = many label := by
  by_cases htakes : j.takes label
  · calc j.merge many one label
        = one label := if_pos htakes
      _ = many label := (LabelMap.restrict_eq_restrict.1 hkey label (htaken htakes)).symm
  · simp [Join.merge, htakes, hname]

theorem passes_merge (hkey : b.key many = b.key one) (hname : f.label ≠ nameLabel)
    (htaken : j.takes f.label → keyLabels b.matching f.label) (h : f.Passes fits many) :
    f.Passes fits (j.merge many one) :=
  (World.passes_congr (merge_eq_many hkey hname htaken)).2 h

/-- A filter of the side with single matches holds if it is carried over. -/
theorem passes_merge_of_carriedBy (hkey : b.key many = b.key one) (hname : f.label ≠ nameLabel)
    (hcarried : CarriedBy b.matching f) (h : f.Passes fits one) :
    f.Passes fits (j.merge many one) := by
  have hmany : f.Passes fits many := (World.passes_iff_of_key_eq hname hcarried hkey).2 h
  exact passes_merge hkey hname (fun _ => World.keyLabels_of_carriedBy hname hcarried) hmany

theorem operatorFilters_of_joins (h : b.Joins j) (left right : List LabelFilter) :
    operatorFilters b left right =
      match j.side with
      | .left => together left (trimMatching b.matching right)
      | .right => together (trimMatching b.matching left) right := by
  have hkind := h.kind
  unfold operatorFilters
  rw [h.join]
  cases hside : j.side <;> cases hop : b.op <;>
    simp [hop, Operator.kind] at hkind <;> simp [hside]

/-- All maps of a join pass the common filters of the node on the labels that are not taken over,
and on those that the operands are matched by. -/
theorem passes_of_mem_joined {l r : Expr} {left right : Set LabelMap} (hjoins : b.Joins j)
    (hleft : ∀ m ∈ left, ∀ f ∈ l.commonFilters, f.Passes fits m)
    (hright : ∀ m ∈ right, ∀ f ∈ r.commonFilters, f.Passes fits m)
    (hk : k ∈ b.joined j left right) (hf : f ∈ (Expr.binary b l r).commonFilters)
    (htaken : j.takes f.label → keyLabels b.matching f.label) : f.Passes fits k := by
  have hname := Expr.label_ne_nameLabel hf
  rw [Expr.commonFilters, operatorFilters_of_joins hjoins] at hf
  unfold joined at hk
  -- The filters of the side with many matches are there as they are, the others if carried over.
  cases hside : j.side with
  | left =>
      simp only [hside, mem_together, mem_trimMatching] at hf hk
      rcases hk with ⟨m, hm, n, hn, hkey, rfl⟩
      rcases hf with hmany | ⟨hone, hcarried⟩
      · exact passes_merge hkey hname htaken (hleft m hm f hmany)
      · exact passes_merge_of_carriedBy hkey hname hcarried (hright n hn f hone)
  | right =>
      simp only [hside, mem_together, mem_trimMatching] at hf hk
      rcases hk with ⟨m, hm, n, hn, hkey, rfl⟩
      rcases hf with ⟨hone, hcarried⟩ | hmany
      · exact passes_merge_of_carriedBy hkey hname hcarried (hleft n hn f hone)
      · exact passes_merge hkey hname htaken (hright m hm f hmany)

/-! ## A product with a join -/

/-- A product of maps with the same `c`, where `a` is from the right one. -/
def timesInfo : BinaryOp :=
  { BinaryOp.plain .mul with matching := some ⟨.on, ["c"]⟩, join := some ⟨.left, ["a"]⟩ }

theorem joins_timesInfo : timesInfo.Joins ⟨.left, ["a"]⟩ :=
  ⟨.inl rfl, rfl, rfl⟩

/-- The map with these values; other labels are missing. -/
def labelled (values : List (String × String)) : LabelMap :=
  fun label => (values.lookup label).getD ""

/-- A series of the left operand. -/
def foo : LabelMap :=
  labelled [(nameLabel, "foo"), ("a", "b"), ("c", "1"), ("job", "j")]

/-- A series of the right operand. -/
def bar : LabelMap :=
  labelled [(nameLabel, "bar"), ("a", "x"), ("c", "1")]

theorem merge_mem_joined :
    Join.merge ⟨.left, ["a"]⟩ foo bar ∈ timesInfo.joined ⟨.left, ["a"]⟩ {foo} {bar} := by
  refine ⟨foo, rfl, bar, rfl, ?_, rfl⟩
  refine LabelMap.restrict_eq_restrict.2 fun label hkey => ?_
  have hlabel : label = "c" := by simpa [keyLabels, timesInfo, plain] using hkey
  rw [hlabel]
  decide

/-- A filter that is all there is besides the name of a metric. -/
theorem passes_of_commonFilters (metric : String) (h : f.Passes fits one) :
    ∀ m ∈ ({one} : Set LabelMap),
      ∀ g ∈ (Expr.selector ⟨[[.equal nameLabel metric, f]]⟩).commonFilters, g.Passes fits m := by
  rintro m rfl g hg
  rcases mem_labelFilters.1 hg with ⟨hg, hname⟩
  rcases List.mem_cons.1 hg with rfl | hf
  · exact absurd rfl hname
  · rwa [List.mem_singleton.1 hf]

/-- The left filter on a label that stays holds, and so does the right one on the label that the
operands are matched by. -/
theorem passes_of_mem_joined_timesInfo :
    let k := Join.merge ⟨.left, ["a"]⟩ foo bar
    k "a" = "x" ∧ LabelFilter.Passes Eq (.equal "job" "j") k ∧
      LabelFilter.Passes Eq (.equal "c" "1") k := by
  have hleft := passes_of_commonFilters "foo" (show LabelFilter.Passes Eq (.equal "job" "j") foo
    by exact rfl)
  have hright := passes_of_commonFilters "bar" (show LabelFilter.Passes Eq (.equal "c" "1") bar
    by exact rfl)
  refine ⟨rfl, ?_, ?_⟩
  · exact passes_of_mem_joined joins_timesInfo hleft hright merge_mem_joined (by decide) (by decide)
  · exact passes_of_mem_joined joins_timesInfo hleft hright merge_mem_joined (by decide) (by decide)

/-- The left filter on `a` does not hold, since the value is that of the right map. -/
theorem not_passes_of_mem_joined :
    ¬ ∀ (fits : String → String → Prop) (b : BinaryOp) (j : Join) (l r : Expr)
      (left right : Set LabelMap), b.Joins j →
      (∀ m ∈ left, ∀ f ∈ l.commonFilters, f.Passes fits m) →
      (∀ m ∈ right, ∀ f ∈ r.commonFilters, f.Passes fits m) →
      ∀ k ∈ b.joined j left right, ∀ f ∈ (Expr.binary b l r).commonFilters, f.Passes fits k := by
  intro hsound
  have hleft := passes_of_commonFilters "foo" (show LabelFilter.Passes Eq (.equal "a" "b") foo
    by exact rfl)
  have hnone : (Expr.selector ⟨[[.equal nameLabel "bar"]]⟩).commonFilters = [] := by decide
  have hright : ∀ m ∈ ({bar} : Set LabelMap),
      ∀ f ∈ (Expr.selector ⟨[[.equal nameLabel "bar"]]⟩).commonFilters, f.Passes Eq m := by
    rw [hnone]
    exact fun _ _ f hf => absurd hf List.not_mem_nil
  have hpasses : "x" = "b" := hsound Eq timesInfo ⟨.left, ["a"]⟩ _ _ {foo} {bar} joins_timesInfo
    hleft hright _ merge_mem_joined (.equal "a" "b") (by decide)
  exact absurd hpasses (by decide)

end BinaryOp
end SeriesQuery
