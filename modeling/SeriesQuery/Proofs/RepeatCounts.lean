import Mathlib.Data.List.Induction
import SeriesQuery.Pattern.Braces

/-!
# Repeat counts and escaped braces

What `escapeBraces` does to the braces of a pattern.  It only ever puts backslashes in front of braces
that open no repeat count (`Marks`).  Every brace that is left unescaped opens a count, but for one slip:
the character that ends an incomplete count has been looked at and is not looked at again, so a brace
that is this character, or that stands behind it when it is a backslash, is left stranded
(`escapeBraces_complete_iff`).

* `IsCount`, `OpensCount` — what stands between the braces of `{n}`, `{n,}` and `{n,m}`;
* `Walk` — the pattern taken apart as `escapeBraces` does it, with what it writes for each part;
* `EveryBrace` — a property of what follows each brace that is not escaped;
* `Strands` — what follows a brace that leaves another one unescaped.
-/

namespace SeriesQuery
namespace Pattern

open Text

/-! ## Counts -/

/-- What stands between the braces of a repeat count: `n`, `n,` or `n,m`. -/
inductive IsCount : List Char → Prop
  | exactly {n : List Char} (hne : n ≠ []) (hn : ∀ c ∈ n, isDigit c) : IsCount n
  | between {n m : List Char} (hne : n ≠ []) (hn : ∀ c ∈ n, isDigit c) (hm : ∀ c ∈ m, isDigit c) :
      IsCount (n ++ ',' :: m)

/-- Behind the opening brace stands a count with its closing brace. -/
def OpensCount (behind : List Char) : Prop :=
  ∃ c, IsCount c ∧ c ++ ['}'] <+: behind

/-- What can be read of a count before its closing brace comes. -/
def StartsCount (c : List Char) : Prop :=
  c = [] ∨ IsCount c

theorem comma_notMem {ds : List Char} (h : ∀ c ∈ ds, isDigit c) : ',' ∉ ds := fun hmem =>
  absurd (h _ hmem) (by decide)

theorem head?_ne_comma {n : List Char} (hne : n ≠ []) (hn : ∀ c ∈ n, isDigit c) (m : List Char) :
    (n ++ m).head? ≠ some ',' := by
  obtain ⟨d, ds, rfl⟩ := List.exists_cons_of_ne_nil hne
  have hd : ',' ≠ d := List.ne_of_not_mem_cons (comma_notMem hn)
  simpa using hd.symm

theorem IsCount.ne_nil {c : List Char} (h : IsCount c) : c ≠ [] := by
  cases h with
  | exactly hne _ => exact hne
  | between => simp

theorem startsCount_iff {c : List Char} :
    StartsCount c ↔ (∀ x ∈ c, isDigit x ∨ x = ',') ∧ c.count ',' ≤ 1 ∧ c.head? ≠ some ',' := by
  constructor
  · rintro (rfl | hc)
    · simp
    · cases hc with
      | exactly hne hn =>
          have hone : c.count ',' = 0 := List.count_eq_zero.2 (comma_notMem hn)
          exact ⟨fun x hx => .inl (hn x hx), by omega, by simpa using head?_ne_comma hne hn []⟩
      | @between n m hne hn hm =>
          have hn0 : n.count ',' = 0 := List.count_eq_zero.2 (comma_notMem hn)
          have hm0 : m.count ',' = 0 := List.count_eq_zero.2 (comma_notMem hm)
          refine ⟨?_, by simp [hn0, hm0], head?_ne_comma hne hn _⟩
          simp only [List.mem_append, List.mem_cons]
          rintro x (hx | rfl | hx)
          exacts [.inl (hn x hx), .inr rfl, .inl (hm x hx)]
  · rintro ⟨hmem, hone, hfirst⟩
    have hdigits {ds : List Char} (hsub : ∀ x ∈ ds, x ∈ c) (h0 : ds.count ',' = 0) :
        ∀ x ∈ ds, isDigit x := fun x hx =>
      (hmem x (hsub x hx)).resolve_right fun heq => List.count_eq_zero.1 h0 (heq ▸ hx)
    -- The comma, if there is one, parts the two numbers of the count.
    by_cases hcomma : ',' ∈ c
    · obtain ⟨n, m, rfl⟩ := List.append_of_mem hcomma
      simp only [List.count_append, List.count_cons_self] at hone
      refine .inr (.between ?_ (hdigits (by simp +contextual) (by omega))
        (hdigits (by simp +contextual) (by omega)))
      rintro rfl
      simp at hfirst
    · rcases eq_or_ne c [] with rfl | hne
      · exact .inl rfl
      · exact .inr (.exactly hne (hdigits (fun _ => id) (List.count_eq_zero.2 hcomma)))

theorem StartsCount.notMem {c : List Char} (h : StartsCount c) {x : Char} (hdigit : isDigit x = false)
    (hcomma : x ≠ ',') : x ∉ c := by
  intro hx
  rcases (startsCount_iff.1 h).1 x hx with hd | rfl
  · simp [hdigit] at hd
  · exact hcomma rfl

/-- What starts a count is taken over as it is. -/
theorem StartsCount.ne_escaped {c : List Char} (h : StartsCount c) :
    ∀ x ∈ c, x ≠ '\\' ∧ x ≠ '{' := by
  intro x hx
  constructor
  · rintro rfl
    exact h.notMem (by decide) (by decide) hx
  · rintro rfl
    exact h.notMem (by decide) (by decide) hx

theorem StartsCount.isPrefix {c start : List Char} (h : StartsCount c) (hpre : start <+: c) :
    StartsCount start := by
  obtain ⟨rest, rfl⟩ := hpre
  obtain ⟨hmem, hone, hfirst⟩ := startsCount_iff.1 h
  refine startsCount_iff.2 ⟨fun x hx => hmem x (by simp [hx]), ?_, ?_⟩
  · simp only [List.count_append] at hone
    omega
  · cases start <;> simp_all

/-- A count goes on with a digit, or with its one comma behind the first number. -/
theorem startsCount_concat {c : List Char} (h : StartsCount c) (x : Char) :
    StartsCount (c ++ [x]) ↔ isDigit x ∨ x = ',' ∧ c ≠ [] ∧ ',' ∉ c := by
  obtain ⟨hmem, hone, hfirst⟩ := startsCount_iff.1 h
  rw [startsCount_iff]
  constructor
  · rintro ⟨hmem', hone', hfirst'⟩
    rcases hmem' x (by simp) with hx | rfl
    · exact .inl hx
    · refine .inr ⟨rfl, ?_, ?_⟩
      · rintro rfl
        simp at hfirst'
      · apply List.count_eq_zero.1
        simp only [List.count_append, List.count_singleton_self] at hone'
        omega
  · rintro (hx | ⟨rfl, hne, hnone⟩)
    · have hcomma : x ≠ ',' := fun heq => absurd (heq ▸ hx) (by decide)
      refine ⟨?_, ?_, ?_⟩
      · simp only [List.mem_append, List.mem_singleton]
        rintro y (hy | rfl)
        exacts [hmem y hy, .inl hx]
      · simpa [List.count_append, List.count_singleton, hcomma] using hone
      · cases c <;> simp_all
    · refine ⟨?_, ?_, ?_⟩
      · simp only [List.mem_append, List.mem_singleton]
        rintro y (hy | rfl)
        exacts [hmem y hy, .inr rfl]
      · simp [List.count_append, List.count_eq_zero.2 hnone]
      · cases c <;> simp_all

/-! ## Where a count stops -/

/-- The character `x` behind the start of a count ends it, and does not complete it. -/
def StopsCount (c : List Char) (x : Char) : Prop :=
  ¬ StartsCount (c ++ [x]) ∧ (x = '}' → c = [])

theorem not_startsCount_concat {c : List Char} {x : Char} (hdigit : isDigit x = false) (hx : x ≠ ',') :
    ¬ StartsCount (c ++ [x]) :=
  fun h => h.notMem hdigit hx (by simp)

theorem isPrefix_of_stop {c c' rest tail : List Char} {x : Char} (hx : ¬ StartsCount (c ++ [x]))
    (hc' : StartsCount c') (heq : c ++ x :: rest = c' ++ tail) : c' <+: c := by
  rcases List.append_eq_append_iff.1 heq with ⟨more, rfl, hmore⟩ | ⟨more, rfl, -⟩
  · cases more with
    | nil => simp
    | cons y more =>
        obtain ⟨rfl, -⟩ := List.cons.inj hmore
        exact absurd (hc'.isPrefix ⟨more, by simp⟩) hx
  · exact List.prefix_append ..

/-- A text can be taken apart in one way only into what starts a count and what stops it. -/
theorem startsCount_unique {c c' rest rest' : List Char} {x x' : Char} (hc : StartsCount c)
    (hx : ¬ StartsCount (c ++ [x])) (hc' : StartsCount c') (hx' : ¬ StartsCount (c' ++ [x']))
    (heq : c ++ x :: rest = c' ++ x' :: rest') : c = c' ∧ x = x' ∧ rest = rest' := by
  obtain rfl : c = c' :=
    (isPrefix_of_stop hx' hc heq.symm).eq_of_length_le (isPrefix_of_stop hx hc' heq).length_le
  simpa using heq

theorem opensCount_append {c : List Char} (hc : IsCount c) (rest : List Char) :
    OpensCount (c ++ '}' :: rest) :=
  ⟨c, hc, rest, by simp⟩

theorem not_opensCount_of_startsCount {c : List Char} (hc : StartsCount c) : ¬ OpensCount c := by
  rintro ⟨c', -, rest, rfl⟩
  exact hc.notMem (x := '}') (by decide) (by decide) (by simp)

theorem not_opensCount_of_stopsCount {c : List Char} {x : Char} (hc : StartsCount c)
    (hstop : StopsCount c x) (rest : List Char) : ¬ OpensCount (c ++ x :: rest) := by
  rintro ⟨c', hc', rest', heq⟩
  have hclose : ¬ StartsCount (c' ++ ['}']) := not_startsCount_concat (by decide) (by decide)
  rw [List.append_assoc, List.singleton_append] at heq
  obtain ⟨rfl, rfl, rfl⟩ := startsCount_unique (.inr hc') hclose hc hstop.1 heq
  -- the brace completes the count unless there is none
  exact hc'.ne_nil (hstop.2 rfl)

/-! ## Reading a count -/

/-- What `readCount` answers about the text behind a brace. -/
inductive CountRead : List Char → Bool × Nat → Prop
  | count {c : List Char} (hc : IsCount c) (cs : List Char) :
      CountRead (c ++ '}' :: cs) (true, c.length + 1)
  | unfinished {c : List Char} (hc : StartsCount c) : CountRead c (false, c.length)
  | stopped {c : List Char} {x : Char} (hc : StartsCount c) (hstop : StopsCount c x) (cs : List Char) :
      CountRead (c ++ x :: cs) (false, c.length + 1)

theorem countRead_append {seen : List Char} (hseen : StartsCount seen) (cs : List Char) :
    let r := readCount (decide (seen ≠ [])) (decide (',' ∈ seen)) cs
    CountRead (seen ++ cs) (r.1, seen.length + r.2) := by
  induction cs generalizing seen with
  | nil => simpa [readCount] using CountRead.unfinished hseen
  | cons x cs ih =>
      unfold readCount
      by_cases hgo : StartsCount (seen ++ [x])
      · -- the count goes on: the character joins what has been seen
        have hnext := ih hgo
        rcases (startsCount_concat hseen x).1 hgo with hdigit | ⟨rfl, hne, hnone⟩
        · have hcomma : x ≠ ',' := fun heq => absurd (heq ▸ hdigit) (by decide)
          have hclose : x ≠ '}' := fun heq => absurd (heq ▸ hdigit) (by decide)
          simpa [hdigit, hcomma, hcomma.symm, hclose, Nat.add_assoc, Nat.add_comm 1] using hnext
        · simpa [hne, hnone, Nat.add_assoc, Nat.add_comm 1] using hnext
      · have hstays : ¬ (isDigit x ∨ x = ',' ∧ seen ≠ [] ∧ ',' ∉ seen) :=
          mt (startsCount_concat hseen x).2 hgo
        by_cases hclose : x = '}'
        · subst hclose
          rcases hseen with rfl | hcount
          · simpa using CountRead.stopped (.inl rfl) ⟨hgo, fun _ => rfl⟩ cs
          · simpa [hcount.ne_nil] using CountRead.count hcount cs
        · have hstopped := CountRead.stopped hseen ⟨hgo, fun heq => absurd heq hclose⟩ cs
          by_cases hcomma : x = ','
          · -- a comma stops the count where none may stand
            subst hcomma
            have hstop : ',' ∈ seen ∨ seen = [] := by
              by_contra hneither
              exact hstays (.inr ⟨rfl, (not_or.1 hneither).2, (not_or.1 hneither).1⟩)
            simpa [hstop] using hstopped
          · have hdigit : isDigit x = false := by simpa using (not_or.1 hstays).1
            simpa [hcomma, hclose, hdigit] using hstopped

theorem countRead_readCount (cs : List Char) : CountRead cs (readCount false false cs) := by
  simpa using countRead_append (.inl rfl) cs

/-! ## The walk through a pattern -/

theorem escapeBracesFrom_append (taken cs : List Char) :
    escapeBracesFrom taken.length (taken ++ cs) = taken ++ escapeBracesFrom 0 cs := by
  induction taken with
  | nil => rfl
  | cons c taken ih => simpa [escapeBracesFrom] using ih

/-- A pattern taken apart from left to right, and what is written for it. -/
inductive Walk : List Char → List Char → Prop
  | done : Walk [] []
  | plain {c : Char} {cs out : List Char} (hc : c ≠ '\\') (hc' : c ≠ '{') (rest : Walk cs out) :
      Walk (c :: cs) (c :: out)
  | last : Walk ['\\'] ['\\']
  | escaped (c : Char) {cs out : List Char} (rest : Walk cs out) :
      Walk ('\\' :: c :: cs) ('\\' :: c :: out)
  | count {c cs out : List Char} (hc : IsCount c) (rest : Walk cs out) :
      Walk ('{' :: (c ++ '}' :: cs)) ('{' :: (c ++ '}' :: out))
  | unfinished {c : List Char} (hc : StartsCount c) : Walk ('{' :: c) ('\\' :: '{' :: c)
  | stopped {c : List Char} {x : Char} {cs out : List Char} (hc : StartsCount c)
      (hstop : StopsCount c x) (rest : Walk cs out) :
      Walk ('{' :: (c ++ x :: cs)) ('\\' :: '{' :: (c ++ x :: out))

theorem walk_escapeBracesFrom (cs : List Char) : Walk cs (escapeBracesFrom 0 cs) := by
  -- a step takes one character, an escape, or all that was looked at as a count
  match cs with
  | [] => exact .done
  | c :: cs =>
      by_cases hback : c = '\\'
      · subst hback
        match cs with
        | [] => exact .last
        | c :: cs => simpa [escapeBracesFrom] using Walk.escaped c (walk_escapeBracesFrom cs)
      · by_cases hbrace : c = '{'
        · subst hbrace
          unfold escapeBracesFrom
          generalize hread : readCount false false cs = r
          have hcases := countRead_readCount cs
          rw [hread] at hcases
          cases hcases with
          | @count c hc cs =>
              have htake : escapeBracesFrom (c.length + 1) (c ++ '}' :: cs) =
                  c ++ '}' :: escapeBracesFrom 0 cs := by
                simpa using escapeBracesFrom_append (c ++ ['}']) cs
              simpa [htake] using Walk.count hc (walk_escapeBracesFrom cs)
          | unfinished hc =>
              have htake : escapeBracesFrom cs.length cs = cs := by
                simpa [escapeBracesFrom] using escapeBracesFrom_append cs []
              simpa [htake] using Walk.unfinished hc
          | @stopped c x hc hstop cs =>
              have htake : escapeBracesFrom (c.length + 1) (c ++ x :: cs) =
                  c ++ x :: escapeBracesFrom 0 cs := by
                simpa using escapeBracesFrom_append (c ++ [x]) cs
              simpa [htake] using Walk.stopped hc hstop (walk_escapeBracesFrom cs)
        · simpa [escapeBracesFrom, hback, hbrace] using Walk.plain hback hbrace (walk_escapeBracesFrom cs)
termination_by cs.length

/-! ## What is written -/

/-- A pattern with backslashes put in front of braces that open no count. -/
inductive Marks : List Char → List Char → Prop
  | nil : Marks [] []
  | keep (c : Char) {cs out : List Char} (rest : Marks cs out) : Marks (c :: cs) (c :: out)
  | mark {cs out : List Char} (hcount : ¬ OpensCount cs) (rest : Marks cs out) :
      Marks ('{' :: cs) ('\\' :: '{' :: out)

theorem Marks.append (taken : List Char) {cs out : List Char} (h : Marks cs out) :
    Marks (taken ++ cs) (taken ++ out) := by
  induction taken with
  | nil => exact h
  | cons c taken ih => exact .keep c ih

theorem Walk.marks {cs out : List Char} (h : Walk cs out) : Marks cs out := by
  induction h with
  | done => exact .nil
  | plain _ _ _ ih => exact .keep _ ih
  | last => exact .keep _ .nil
  | escaped c _ ih => exact .keep _ (.keep _ ih)
  | count _ _ ih => exact .keep _ (.append _ (.keep _ ih))
  | @unfinished c hc =>
      have hsame : Marks c c := by simpa using Marks.nil.append c
      exact .mark (not_opensCount_of_startsCount hc) hsame
  | stopped hc hstop _ ih => exact .mark (not_opensCount_of_stopsCount hc hstop _) (.append _ (.keep _ ih))

/-- Nothing is written in front of what is neither a brace nor a backslash. -/
theorem Walk.isPrefix_iff {cs out : List Char} (h : Walk cs out) {c : List Char}
    (hc : ∀ x ∈ c, x ≠ '\\' ∧ x ≠ '{') : c <+: cs ↔ c <+: out := by
  induction h generalizing c with
  | done => rfl
  | plain _ _ _ ih =>
      cases c with
      | nil => simp
      | cons x c => simp only [List.cons_prefix_cons, ih fun y hy => hc y (.tail _ hy)]
  | last | escaped | count | unfinished | stopped =>
      -- both texts start with a brace or a backslash, and no such text starts with `c`
      cases c with
      | nil => simp
      | cons x c =>
          have hx := hc x (by simp)
          simp [List.cons_prefix_cons, hx.1, hx.2]

theorem Walk.opensCount_iff {cs out : List Char} (h : Walk cs out) : OpensCount cs ↔ OpensCount out := by
  apply exists_congr
  intro c
  apply and_congr_right
  intro hc
  apply h.isPrefix_iff
  simp only [List.mem_append, List.mem_singleton]
  rintro x (hx | rfl)
  · exact StartsCount.ne_escaped (.inr hc) x hx
  · decide

/-! ## Braces that are not escaped -/

/-- The number of backslashes at the end of a text. -/
def backslashes (text : List Char) : Nat :=
  (text.reverse.takeWhile (· == '\\')).length

/-- Behind every brace without an odd number of backslashes in front of it stands what `P` asks for. -/
def EveryBrace (P : List Char → Prop) (text : List Char) : Prop :=
  ∀ front behind, text = front ++ '{' :: behind → backslashes front % 2 = 0 → P behind

/-- The same from left to right.  `odd` tells that an odd number of backslashes stands in front. -/
def EveryBraceFrom (P : List Char → Prop) : Bool → List Char → Prop
  | _, [] => True
  | odd, c :: cs => (c = '{' → odd = false → P cs) ∧ EveryBraceFrom P (c == '\\' && !odd) cs

section EveryBraceFrom

variable {P : List Char → Prop} {odd : Bool} {cs : List Char}

@[simp] theorem everyBraceFrom_nil : EveryBraceFrom P odd [] := trivial

@[simp] theorem everyBraceFrom_brace :
    EveryBraceFrom P odd ('{' :: cs) ↔ (odd = false → P cs) ∧ EveryBraceFrom P false cs := by
  simp [EveryBraceFrom]

@[simp] theorem everyBraceFrom_backslash :
    EveryBraceFrom P odd ('\\' :: cs) ↔ EveryBraceFrom P (!odd) cs := by
  simp [EveryBraceFrom]

/-- An escaped character opens nothing, and escapes nothing. -/
theorem everyBraceFrom_odd {c : Char} : EveryBraceFrom P true (c :: cs) ↔ EveryBraceFrom P false cs := by
  simp [EveryBraceFrom]

theorem everyBraceFrom_plain {c : Char} (hback : c ≠ '\\') (hbrace : c ≠ '{') :
    EveryBraceFrom P odd (c :: cs) ↔ EveryBraceFrom P false cs := by
  have hc : (c == '\\') = false := by simpa using hback
  simp [EveryBraceFrom, hbrace, hc]

/-- In what starts a count stands no brace. -/
theorem everyBraceFrom_append {c : List Char} (hc : ∀ x ∈ c, x ≠ '\\' ∧ x ≠ '{') :
    EveryBraceFrom P false (c ++ cs) ↔ EveryBraceFrom P false cs := by
  induction c with
  | nil => rfl
  | cons x c ih =>
      obtain ⟨hback, hbrace⟩ := hc x (by simp)
      rw [List.cons_append, everyBraceFrom_plain hback hbrace]
      exact ih fun y hy => hc y (.tail _ hy)

theorem everyBraceFrom_behind {c : List Char} (hc : StartsCount c) (x : Char) :
    EveryBraceFrom P odd ('{' :: (c ++ x :: cs)) ↔
      (odd = false → P (c ++ x :: cs)) ∧ EveryBraceFrom P false (x :: cs) := by
  rw [everyBraceFrom_brace, everyBraceFrom_append hc.ne_escaped]

end EveryBraceFrom

/-- Whether an odd number of backslashes stands at the end of a text, when `odd` tells it of what is in
front of the text. -/
def oddBehind (odd : Bool) (text : List Char) : Bool :=
  text.foldl (fun odd c => c == '\\' && !odd) odd

theorem oddBehind_eq (text : List Char) : oddBehind false text = (backslashes text % 2 == 1) := by
  induction text using List.reverseRecOn with
  | nil => rfl
  | append_singleton text c ih =>
      have hstep : oddBehind false (text ++ [c]) = (c == '\\' && !oddBehind false text) := by
        simp [oddBehind]
      rw [hstep, ih]
      by_cases hc : c = '\\'
      · have hmore : backslashes (text ++ [c]) = backslashes text + 1 := by simp [backslashes, hc]
        rw [hmore]
        grind
      · simp [backslashes, hc]

theorem everyBraceFrom_iff {P : List Char → Prop} {odd : Bool} {text : List Char} :
    EveryBraceFrom P odd text ↔
      ∀ front behind, text = front ++ '{' :: behind → oddBehind odd front = false → P behind := by
  induction text generalizing odd with
  | nil => simp [EveryBraceFrom]
  | cons c cs ih =>
      simp only [EveryBraceFrom, ih]
      constructor
      · -- a brace is the first character, or stands in the rest
        rintro ⟨hhere, hrest⟩ front behind heq hodd
        cases front with
        | nil =>
            obtain ⟨rfl, rfl⟩ := List.cons.inj heq
            exact hhere rfl hodd
        | cons d front =>
            obtain ⟨rfl, rfl⟩ := List.cons.inj heq
            exact hrest front behind rfl hodd
      · intro h
        refine ⟨?_, ?_⟩
        · rintro rfl hodd
          exact h [] cs rfl hodd
        · rintro front behind rfl hodd
          exact h (c :: front) behind rfl hodd

theorem everyBrace_iff {P : List Char → Prop} {text : List Char} :
    EveryBrace P text ↔ EveryBraceFrom P false text := by
  rw [everyBraceFrom_iff]
  apply forall_congr'
  intro front
  rw [oddBehind_eq]
  simp

/-! ## Stranded braces -/

/-- A brace that opens no count, with nothing but backslashes in front of it. -/
inductive Stranded : List Char → Prop
  | brace {behind : List Char} (hcount : ¬ OpensCount behind) : Stranded ('{' :: behind)
  | escaped {cs : List Char} (rest : Stranded cs) : Stranded ('\\' :: cs)

/-- What stands behind a brace starts a count that goes no further: there stands a brace that opens no
count itself, with nothing but backslashes in front of it. -/
def Strands (behind : List Char) : Prop :=
  ∃ start cs, StartsCount start ∧ behind = start ++ cs ∧ Stranded cs

@[simp] theorem stranded_cons {c : Char} {cs : List Char} :
    Stranded (c :: cs) ↔ c = '{' ∧ ¬ OpensCount cs ∨ c = '\\' ∧ Stranded cs := by
  constructor
  · rintro (hcount | hrest)
    · exact .inl ⟨rfl, hcount⟩
    · exact .inr ⟨rfl, hrest⟩
  · rintro (⟨rfl, hcount⟩ | ⟨rfl, hrest⟩)
    · exact .brace hcount
    · exact .escaped hrest

@[simp] theorem not_stranded_nil : ¬ Stranded [] := nofun

theorem strands_append {c cs : List Char} {x : Char} (hc : StartsCount c) (hx : ¬ StartsCount (c ++ [x])) :
    Strands (c ++ x :: cs) ↔ Stranded (x :: cs) := by
  constructor
  · rintro ⟨start, stranded, hstart, heq, h⟩
    have hstop : ∀ y rest, stranded = y :: rest → ¬ StartsCount (start ++ [y]) := by
      rintro y rest rfl
      rcases stranded_cons.1 h with ⟨rfl, -⟩ | ⟨rfl, -⟩ <;>
        exact not_startsCount_concat (by decide) (by decide)
    cases stranded with
    | nil => exact absurd h not_stranded_nil
    | cons y rest =>
        obtain ⟨-, rfl, rfl⟩ := startsCount_unique hc hx hstart (hstop _ _ rfl) heq
        exact h
  · intro h
    exact ⟨c, x :: cs, hc, rfl, h⟩

theorem Stranded.brace_mem {cs : List Char} (h : Stranded cs) : '{' ∈ cs := by
  induction h with
  | brace _ => simp
  | escaped _ ih => simp [ih]

theorem not_strands_of_startsCount {c : List Char} (hc : StartsCount c) : ¬ Strands c := by
  rintro ⟨start, cs, -, rfl, h⟩
  exact hc.notMem (x := '{') (by decide) (by decide) (by simp [h.brace_mem])

theorem not_strands_of_opensCount {cs : List Char} (h : OpensCount cs) : ¬ Strands cs := by
  obtain ⟨c, hc, rest, rfl⟩ := h
  have hclose : ¬ StartsCount (c ++ ['}']) := not_startsCount_concat (by decide) (by decide)
  rw [List.append_assoc, List.singleton_append, strands_append (.inr hc) hclose]
  simp

/-- How the braces of what is written follow from those of the pattern.  `odd` is for what is written
behind a backslash that was looked at as a part of a count: the backslashes pair up differently there,
until something else comes. -/
structure InStep (cs out : List Char) : Prop where
  even : EveryBraceFrom OpensCount false out ↔ EveryBraceFrom (¬ Strands ·) false cs
  odd : EveryBraceFrom OpensCount true out ↔ ¬ Stranded cs ∧ EveryBraceFrom (¬ Strands ·) true cs

/-- A character that is taken over without a look at what it is. -/
theorem InStep.cons {cs out : List Char} (h : InStep cs out) (hcount : OpensCount cs ↔ OpensCount out)
    (x : Char) :
    EveryBraceFrom OpensCount false (x :: out) ↔
      ¬ Stranded (x :: cs) ∧ EveryBraceFrom (¬ Strands ·) false (x :: cs) := by
  by_cases hback : x = '\\'
  · subst hback
    simpa using h.odd
  · by_cases hbrace : x = '{'
    · subst hbrace
      have hnot : OpensCount cs → ¬ Strands cs := not_strands_of_opensCount
      simp only [everyBraceFrom_brace, stranded_cons, h.even, ← hcount]
      grind
    · simpa [everyBraceFrom_plain hback hbrace, hback, hbrace] using h.even

theorem Walk.inStep {cs out : List Char} (h : Walk cs out) : InStep cs out := by
  induction h with
  | done => exact ⟨by simp, by simp⟩
  | plain hc hc' _ ih =>
      constructor
      · simpa [everyBraceFrom_plain hc hc'] using ih.even
      · simpa [everyBraceFrom_plain hc hc', hc, hc'] using ih.even
  | last => exact ⟨by simp, by simp⟩
  | @escaped c cs out rest ih =>
      constructor
      · simpa [everyBraceFrom_odd] using ih.even
      · -- the backslash is escaped itself, so that the character behind it is not
        simpa using ih.cons rest.opensCount_iff c
  | @count c cs out hc rest ih =>
      have hplain {P : List Char → Prop} {cs : List Char} :
          EveryBraceFrom P false ('}' :: cs) ↔ EveryBraceFrom P false cs :=
        everyBraceFrom_plain (by decide) (by decide)
      have hopens := opensCount_append hc
      constructor
      · simp only [everyBraceFrom_behind (.inr hc), hplain, ih.even, hopens,
          not_strands_of_opensCount (hopens cs)]
        simp
      · simp only [everyBraceFrom_behind (.inr hc), hplain, ih.even, stranded_cons, hopens]
        simp
  | @unfinished c hc =>
      -- nothing but a part of a count is left, in which no brace stands
      have hnone {P : List Char → Prop} : EveryBraceFrom P false c := by
        have hinside : EveryBraceFrom P false (c ++ []) ↔ EveryBraceFrom P false [] :=
          everyBraceFrom_append hc.ne_escaped
        simpa using hinside
      constructor
      · simp [hnone, not_strands_of_startsCount hc]
      · simp [not_opensCount_of_startsCount hc]
  | @stopped c x cs out hc hstop rest ih =>
      have hclosed := not_opensCount_of_stopsCount hc hstop
      constructor
      · -- what stops the count is all that the two sides differ in
        simp only [everyBraceFrom_backslash, everyBraceFrom_behind hc, strands_append hc hstop.1,
          ih.cons rest.opensCount_iff x]
        simp
      · -- behind a backslash the one that is written escapes the other, and not the brace
        simp [everyBraceFrom_behind hc, hclosed]

/-! ## Every pattern -/

/-- Whatever the pattern, backslashes are put only in front of braces that open no count, and then every
brace without an odd number of backslashes in front of it opens a count, unless the pattern has a brace
that strands another one. -/
theorem escapeBraces_complete_iff (pattern : String) :
    Marks pattern.toList (escapeBraces pattern).toList ∧
      (EveryBrace OpensCount (escapeBraces pattern).toList ↔
        EveryBrace (¬ Strands ·) pattern.toList) := by
  have hwalk := walk_escapeBracesFrom pattern.toList
  have hout : (escapeBraces pattern).toList = escapeBracesFrom 0 pattern.toList := by
    simp [escapeBraces]
  rw [hout]
  refine ⟨hwalk.marks, ?_⟩
  calc EveryBrace OpensCount (escapeBracesFrom 0 pattern.toList)
      ↔ EveryBraceFrom OpensCount false (escapeBracesFrom 0 pattern.toList) := everyBrace_iff
    _ ↔ EveryBraceFrom (¬ Strands ·) false pattern.toList := hwalk.inStep.even
    _ ↔ EveryBrace (¬ Strands ·) pattern.toList := everyBrace_iff.symm

/-- In `{{a}` the second brace ends the count of the first one, and is not looked at again. -/
theorem not_escapeBraces_complete :
    ¬ ∀ pattern : String, Marks pattern.toList (escapeBraces pattern).toList ∧
      EveryBrace OpensCount (escapeBraces pattern).toList := by
  intro h
  have hopens : OpensCount ['a', '}'] :=
    (h "\x7b\x7ba\x7d").2 ['\\', '{'] ['a', '}'] (by decide) (by decide)
  have hstop : StopsCount [] 'a' :=
    ⟨not_startsCount_concat (by decide) (by decide), by decide⟩
  exact not_opensCount_of_stopsCount (.inl rfl) hstop ['}'] hopens

end Pattern
end SeriesQuery
