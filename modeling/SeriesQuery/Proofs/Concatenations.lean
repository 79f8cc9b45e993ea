import Mathlib.Data.List.Chain
import SeriesQuery.Proofs.ReadingOperands

/-!
# Strings put together from parts

A string is built from literals and names that are added one by one, where a literal joins one that
is last.  So no two literals stand next to each other (`StringExpr.IsMerged`).  A merged string comes
back when its own parts are added again, and this is what happens when its text is read.

* `StringExpr.isMerged_ofParts` — strings that are built are merged;
* `StringExpr.resolve_ofParts` — what a string stands for is joined from what its parts stand for;
* `Reader.takes_merged` — a merged string is read from its tokens.
-/

namespace SeriesQuery

open Text

/-! ## Parts -/

namespace Segment

/-- The part is a literal. -/
def isLiteral : Segment → Bool
  | literal _ => true
  | ident _ => false

/-- What two parts become side by side: literals are joined. -/
def beside : Segment → Segment → List Segment
  | literal first, literal second => [literal (first ++ second)]
  | first, second => [first, second]

/-- The string that the part stands for.  `value` gives the value of a name, and `missing` what to say
of a name that has none. -/
def resolve {ε : Type} (missing : String → ε) (value : String → Except ε (Option String)) :
    Segment → Except ε String
  | literal text => return text
  | ident name => do
      match ← value name with
      | some text => return text
      | none => throw (missing name)

/-- Of two parts side by side one is a name. -/
def OneIsName (s t : Segment) : Prop :=
  ¬(s.isLiteral ∧ t.isLiteral)

theorem beside_of_oneIsName {s t : Segment} (h : OneIsName s t) : s.beside t = [s, t] := by
  cases s with
  | ident name => rfl
  | literal first =>
      cases t with
      | ident name => rfl
      | literal second => exact absurd ⟨rfl, rfl⟩ h

theorem isChain_beside (s t : Segment) : (s.beside t).IsChain OneIsName := by
  cases s <;> cases t <;> simp [beside, OneIsName, isLiteral]

/-- Joining literals does not change what they are to the part before them. -/
theorem isLiteral_head_beside {s t u : Segment} (h : u ∈ (s.beside t).head?) :
    u.isLiteral = s.isLiteral := by
  cases s <;> cases t <;> cases h <;> rfl

end Segment

/-! ## Building -/

namespace StringExpr

/-- The string with a part added at its end. -/
def push (e : StringExpr) : Segment → StringExpr
  | .literal value => e.pushLiteral value
  | .ident name => e.pushIdent name

/-- The string that is built by adding the parts one by one. -/
def ofParts (parts : List Segment) : StringExpr :=
  parts.foldl push empty

/-- No two literals stand next to each other. -/
def IsMerged (e : StringExpr) : Prop :=
  e.segments.IsChain Segment.OneIsName

theorem appendLiteral_concat (value : String) (xs : List Segment) (s : Segment) :
    appendLiteral value (xs ++ [s]) = xs ++ s.beside (.literal value) := by
  induction xs with
  | nil => cases s <;> rfl
  | cons x xs ih =>
      have hcons : ∃ y ys, xs ++ [s] = y :: ys := List.exists_cons_of_ne_nil (by simp)
      rcases hcons with ⟨y, ys, hys⟩
      rw [List.cons_append, List.cons_append, ← ih, hys]
      cases x <;> rfl

/-- A part is added beside the last one. -/
theorem push_concat (xs : List Segment) (s t : Segment) :
    push ⟨xs ++ [s]⟩ t = ⟨xs ++ s.beside t⟩ := by
  cases t with
  | literal value => exact congrArg StringExpr.mk (appendLiteral_concat value xs s)
  | ident name => cases s <;> simp [push, pushIdent, Segment.beside]

/-- All that adding a part can do. -/
theorem push_cases (e : StringExpr) (t : Segment) :
    (e = empty ∧ e.push t = ⟨[t]⟩) ∨ ∃ xs s, e = ⟨xs ++ [s]⟩ ∧ e.push t = ⟨xs ++ s.beside t⟩ := by
  rcases e with ⟨segments⟩
  rcases List.eq_nil_or_concat' segments with rfl | ⟨xs, s, rfl⟩
  · cases t <;> exact .inl ⟨rfl, rfl⟩
  · exact .inr ⟨xs, s, rfl, push_concat xs s t⟩

theorem push_segments_ne_nil (e : StringExpr) (t : Segment) : (e.push t).segments ≠ [] := by
  rcases push_cases e t with ⟨-, hpush⟩ | ⟨xs, s, -, hpush⟩ <;> rw [hpush]
  · simp
  · cases s <;> cases t <;> simp [Segment.beside]

theorem ofParts_segments_ne_nil {parts : List Segment} (h : parts ≠ []) :
    (ofParts parts).segments ≠ [] := by
  rcases List.eq_nil_or_concat' parts with rfl | ⟨before, last, rfl⟩
  · exact absurd rfl h
  · rw [ofParts, List.foldl_concat]
    exact push_segments_ne_nil _ last

theorem IsMerged.push {e : StringExpr} (h : e.IsMerged) (t : Segment) : (e.push t).IsMerged := by
  rcases push_cases e t with ⟨-, hpush⟩ | ⟨xs, s, rfl, hpush⟩ <;> rw [hpush]
  · exact List.isChain_singleton t
  · rcases List.isChain_append.1 h with ⟨hxs, -, hlast⟩
    refine List.isChain_append.2 ⟨hxs, Segment.isChain_beside s t, fun r hr u hu => ?_⟩
    unfold Segment.OneIsName
    rw [Segment.isLiteral_head_beside hu]
    exact hlast r hr s rfl

/-- Strings that are built are merged. -/
theorem isMerged_ofParts (parts : List Segment) : (ofParts parts).IsMerged := by
  have hrun : ∀ e : StringExpr, e.IsMerged → (parts.foldl StringExpr.push e).IsMerged := by
    induction parts with
    | nil => exact fun e he => he
    | cons t parts ih => exact fun e he => ih (e.push t) (he.push t)
  exact hrun empty List.isChain_nil

/-- Adding the parts of a merged string to those before them changes no part. -/
theorem foldl_push {xs ys : List Segment} (h : (xs ++ ys).IsChain Segment.OneIsName) :
    ys.foldl push ⟨xs⟩ = ⟨xs ++ ys⟩ := by
  induction ys generalizing xs with
  | nil => simp
  | cons t ys ih =>
      have hadded : push ⟨xs⟩ t = ⟨xs ++ [t]⟩ := by
        rcases push_cases ⟨xs⟩ t with ⟨hxs, hpush⟩ | ⟨before, s, hxs, hpush⟩ <;> cases hxs
        · exact hpush
        · rcases List.isChain_append.1 h with ⟨-, -, hlast⟩
          have hst : Segment.OneIsName s t := hlast s (by simp) t rfl
          rw [hpush, Segment.beside_of_oneIsName hst, List.append_assoc]
          rfl
      rw [List.append_cons] at h ⊢
      rw [List.foldl_cons, hadded, ih h]

/-- A merged string is built from its own parts. -/
theorem ofParts_segments {e : StringExpr} (h : e.IsMerged) : ofParts e.segments = e :=
  @foldl_push [] e.segments h

/-! ## Resolving -/

section Resolve

variable {ε : Type} (missing : String → ε) (value : String → Except ε (Option String))

/-- Parts stand for what each of them stands for, joined in their order. -/
theorem resolveSegments_eq (parts : List Segment) :
    resolveSegments missing value parts =
      String.join <$> parts.mapM (Segment.resolve missing value) := by
  induction parts with
  | nil => rfl
  | cons s rest ih =>
      rw [List.mapM_cons]
      cases s with
      | literal text => simp [resolveSegments, ih, Segment.resolve]
      | ident name =>
          rw [resolveSegments, ih, Segment.resolve, bind_assoc, map_bind]
          refine bind_congr fun found => ?_
          cases found with
          | none => rfl
          | some text => simp

/-- What stands behind other parts matters only by what it stands for. -/
theorem resolveSegments_append_congr {xs ys zs : List Segment}
    (h : resolveSegments missing value ys = resolveSegments missing value zs) :
    resolveSegments missing value (xs ++ ys) = resolveSegments missing value (xs ++ zs) := by
  induction xs with
  | nil => exact h
  | cons x xs ih => cases x <;> simp only [List.cons_append, resolveSegments, ih]

/-- Literals that are joined stand for the same as before. -/
theorem resolveSegments_beside (s t : Segment) (rest : List Segment) :
    resolveSegments missing value (s.beside t ++ rest) =
      resolveSegments missing value (s :: t :: rest) := by
  cases s with
  | ident name => rfl
  | literal first =>
      cases t with
      | ident name => rfl
      | literal second => simp [Segment.beside, resolveSegments, String.append_assoc]

theorem resolveSegments_push (e : StringExpr) (t : Segment) (rest : List Segment) :
    resolveSegments missing value ((e.push t).segments ++ rest) =
      resolveSegments missing value (e.segments ++ t :: rest) := by
  rcases push_cases e t with ⟨rfl, hpush⟩ | ⟨xs, s, rfl, hpush⟩ <;> rw [hpush]
  · rfl
  · simp only [List.append_assoc, List.singleton_append]
    exact resolveSegments_append_congr missing value (resolveSegments_beside missing value s t rest)

/-- A string that is built stands for what the added parts stand for, joined in their order, or fails
as the first of them that fails. -/
theorem resolve_ofParts (parts : List Segment) :
    (ofParts parts).resolve missing value =
      String.join <$> parts.mapM (Segment.resolve missing value) := by
  have hrun : ∀ e : StringExpr, resolveSegments missing value (parts.foldl push e).segments =
      resolveSegments missing value (e.segments ++ parts) := by
    induction parts with
    | nil => simp
    | cons t parts ih =>
        intro e
        rw [List.foldl_cons, ih, resolveSegments_push]
  rw [← resolveSegments_eq]
  exact hrun empty

end Resolve

theorem ident_mem_push {e : StringExpr} {t : Segment} {name : String} :
    .ident name ∈ (e.push t).segments ↔ .ident name ∈ e.segments ∨ .ident name = t := by
  rcases push_cases e t with ⟨rfl, hpush⟩ | ⟨xs, s, rfl, hpush⟩ <;> rw [hpush]
  · simp [empty]
  · cases s <;> cases t <;> simp [Segment.beside, or_assoc]

/-- The names in a string that is built are those that were added. -/
theorem ident_mem_ofParts {parts : List Segment} {name : String} :
    .ident name ∈ (ofParts parts).segments ↔ .ident name ∈ parts := by
  have hrun : ∀ e : StringExpr, .ident name ∈ (parts.foldl push e).segments ↔
      .ident name ∈ e.segments ∨ .ident name ∈ parts := by
    induction parts with
    | nil => simp
    | cons t parts ih =>
        intro e
        rw [List.foldl_cons, ih, ident_mem_push, List.mem_cons, or_assoc]
  simpa [ofParts, empty] using hrun empty

end StringExpr

/-! ## Reading -/

/-- These tokens end a string: no part follows, and a name before them is not called and has no
filters. -/
structure EndsString (l : List String) : Prop where
  stops : continues l = false
  call : current l ≠ "("
  filters : current l ≠ "\x7b"

theorem continues_separated {s : Segment} {rest : List Segment} {l : List String}
    (hs : ∀ name, s = .ident name → name ≠ "") (hl : EndsString l) :
    continues ("+" :: (separated "+" ((s :: rest).map fun s => [s.render]) ++ l)) := by
  have hmore : ∃ more, separated "+" ((s :: rest).map fun s => [s.render]) ++ l = s.render :: more ∧
      current more ≠ "(" ∧ current more ≠ "\x7b" := by
    cases rest with
    | nil => exact ⟨l, rfl, hl.call, hl.filters⟩
    | cons t rest =>
        refine ⟨"+" :: (separated "+" ((t :: rest).map fun s => [s.render]) ++ l), rfl, ?_, ?_⟩ <;>
          rw [current_cons] <;> decide
  rcases hmore with ⟨more, heq, hcall, hfilters⟩
  rw [heq]
  cases s with
  | literal value => simp [continues, Segment.render, Reader.startsQuoted_quote]
  | ident name =>
      simp [continues, Segment.render, startsIdent_escapeIdent (hs name rfl), hcall, hfilters]

namespace Reader

variable {l : List String}

/-- The current token is added as the part that it is written for. -/
theorem takes_segment {s : Segment} (h : ∀ name, s = .ident name → IsLegible name)
    (e : StringExpr) : Takes (segment e) (s.render :: l) (e.push s) (s.render :: l) := by
  cases s with
  | literal value => exact takes_literal value e
  | ident name =>
      have hlegible := h name rfl
      have hident := startsIdent_escapeIdent hlegible.ne_empty
      refine takes_token.bind ?_
      simp only [current_cons, Segment.render, startsQuoted_of_startsIdent hident, hident, if_true,
        hlegible.unescape]
      exact takes_pure

/-- Parts with plus signs between them are added one by one. -/
theorem takes_stringFrom {parts : List Segment} (hne : parts ≠ [])
    (hparts : ∀ name, .ident name ∈ parts → IsLegible name) (hl : EndsString l) (e : StringExpr)
    {fuel : Nat} (hfuel : parts.length ≤ fuel) :
    Takes (stringFrom e fuel) (separated "+" (parts.map fun s => [s.render]) ++ l)
      (parts.foldl StringExpr.push e) l := by
  induction parts generalizing e fuel with
  | nil => exact absurd rfl hne
  | cons s rest ih =>
      rcases Nat.exists_eq_add_of_lt (Nat.lt_of_lt_of_le (Nat.succ_pos _) hfuel) with ⟨fuel, rfl⟩
      have hs : ∀ name, s = .ident name → IsLegible name := by
        rintro name rfl
        exact hparts name List.mem_cons_self
      cases rest with
      | nil =>
          have hstop := takes_continuesString (s := l)
          rw [hl.stops] at hstop
          exact (takes_segment hs e).bind (takes_bump.bind (hstop.ifFalse takes_pure))
      | cons t rest =>
          have hrest : ∀ name, .ident name ∈ t :: rest → IsLegible name :=
            fun name hname => hparts name (List.mem_cons_of_mem s hname)
          have hmore := takes_continuesString
            (s := "+" :: (separated "+" ((t :: rest).map fun s => [s.render]) ++ l))
          rw [continues_separated (fun name hname => (hrest name (by simp [hname])).ne_empty) hl]
            at hmore
          refine (takes_segment hs e).bind (takes_bump.bind (hmore.ifTrue (takes_bump.bind ?_)))
          exact ih (by simp) hrest (e.push s) (by simpa using hfuel)

/-- A merged string is read from its tokens. -/
theorem takes_merged {e : StringExpr} (he : e.IsMerged) (hne : e.segments ≠ [])
    (hnames : ∀ name, .ident name ∈ e.segments → IsLegible name) (hl : EndsString l) :
    Takes stringExpr (e.tokens ++ l) e l := by
  have htokens : e.tokens = separated "+" (e.segments.map fun s => [s.render]) := by
    simp [StringExpr.tokens, hne]
  have hlength : e.segments.length ≤ (e.tokens ++ l).length := by
    have hfull : ∀ ts ∈ e.segments.map fun s => [s.render], ts ≠ [] := by simp
    have hle := length_le_separated "+" hfull
    rw [List.length_map, ← htokens] at hle
    simp only [List.length_append]
    omega
  refine reads_count (k := fun n => stringFrom .empty (n + 1)) ?_
  have hread := takes_stringFrom hne hnames hl .empty (Nat.le_succ_of_le hlength)
  rw [← htokens] at hread
  have hbuilt : e.segments.foldl StringExpr.push .empty = e := StringExpr.ofParts_segments he
  rwa [hbuilt] at hread

end Reader

/-! ## Building, printing and reading -/

/-- Strings survive being built, resolved, written and read.  Whatever literals and names are added,
no two literals stand next to each other; the string stands for what was added, joined in this order,
or fails as the first name that does not resolve; and the string is read back from its text, to the
end. -/
theorem stringExpr_ofParts {parts : List Segment} (hne : parts ≠ [])
    (hparts : ∀ name, .ident name ∈ parts → IsLegible name) :
    (StringExpr.ofParts parts).IsMerged ∧
      (∀ (ε : Type) (missing : String → ε) (value : String → Except ε (Option String)),
        (StringExpr.ofParts parts).resolve missing value =
          String.join <$> parts.mapM (Segment.resolve missing value)) ∧
      ∃ feed ahead, Feed.ofText (StringExpr.ofParts parts).render = .ok feed ∧
        Reader.stringExpr feed = .ok (StringExpr.ofParts parts, ⟨[], none, ahead⟩) := by
  have hmerged := StringExpr.isMerged_ofParts parts
  refine ⟨hmerged, fun ε missing value => StringExpr.resolve_ofParts missing value parts, ?_⟩
  have hnames : ∀ name, .ident name ∈ (StringExpr.ofParts parts).segments → IsLegible name :=
    fun name hname => hparts name (StringExpr.ident_mem_ofParts.1 hname)
  have htexts := (lexes_segments fun name hname => (hnames name hname).ne_empty).texts
  have hends : EndsString [] := ⟨rfl, by decide, by decide⟩
  have hread := Reader.takes_merged hmerged (StringExpr.ofParts_segments_ne_nil hne) hnames hends
  rw [List.append_nil] at hread
  rcases hread.eq 0 with ⟨ahead, hahead⟩
  exact ⟨_, ahead, Feed.ofText_of_texts htexts, hahead⟩

/-- Literals side by side, with a quote and a line break, and names that need escapes. -/
def mixedParts : List Segment :=
  [.ident "per job", .literal "a\"", .literal "\\\n", .ident "été", .ident "x", .literal ""]

/-- The two literals in the middle are joined. -/
theorem stringExpr_ofParts_mixed :
    mixedParts ≠ [] ∧ (∀ name, .ident name ∈ mixedParts → IsLegible name) ∧
      StringExpr.ofParts mixedParts =
        ⟨[.ident "per job", .literal "a\"\\\n", .ident "été", .ident "x", .literal ""]⟩ ∧
      (StringExpr.ofParts mixedParts).IsMerged ∧
      (∀ (ε : Type) (missing : String → ε) (value : String → Except ε (Option String)),
        (StringExpr.ofParts mixedParts).resolve missing value =
          String.join <$> mixedParts.mapM (Segment.resolve missing value)) ∧
      ∃ feed ahead, Feed.ofText (StringExpr.ofParts mixedParts).render = .ok feed ∧
        Reader.stringExpr feed = .ok (StringExpr.ofParts mixedParts, ⟨[], none, ahead⟩) := by
  have hne : mixedParts ≠ [] := by decide
  have hnames : ∀ name, .ident name ∈ mixedParts → IsLegible name := by
    intro name hname
    simp only [mixedParts, List.mem_cons, Segment.ident.injEq, reduceCtorEq, List.not_mem_nil,
      or_false, false_or] at hname
    rcases hname with rfl | rfl | rfl <;> exact ⟨by decide, by decide⟩
  exact ⟨hne, hnames, by decide, stringExpr_ofParts hne hnames⟩

end SeriesQuery
