import SeriesQuery.Syntax.Feed

/-!
# Results of steps that may fail

`Gives P x` says that the result of `x`, if it has one, has the property `P`, and `Yields P r` says
the same of a reader, from whatever feed it starts.
-/

namespace SeriesQuery

/-! ## Results -/

/-- The result has the property, unless there is an error. -/
def Gives {ε α : Type} (P : α → Prop) (x : Except ε α) : Prop :=
  ∀ a, x = .ok a → P a

section Gives

variable {ε α β : Type} {P : α → Prop} {Q : β → Prop}

theorem gives_ok {a : α} (h : P a) : Gives P (.ok a : Except ε α) := by
  intro b hb
  cases hb
  exact h

theorem gives_error (cause : ε) : Gives P (.error cause) := by
  intro a ha
  cases ha

theorem gives_true (x : Except ε α) : Gives (fun _ => True) x :=
  fun _ _ => trivial

theorem Gives.bind {x : Except ε α} {k : α → Except ε β} (hx : Gives P x)
    (hk : ∀ a, P a → Gives Q (k a)) : Gives Q (x >>= k) := by
  intro b hb
  cases x with
  | error cause => cases hb
  | ok a => exact hk a (hx a rfl) b hb

theorem gives_bind_any {x : Except ε α} {k : α → Except ε β} (hk : ∀ a, Gives Q (k a)) :
    Gives Q (x >>= k) :=
  (gives_true x).bind fun a _ => hk a

theorem Gives.map {x : Except ε α} {g : α → β} (hx : Gives P x) (hg : ∀ a, P a → Q (g a)) :
    Gives Q (g <$> x) := by
  intro b hb
  cases x with
  | error cause => cases hb
  | ok a =>
      cases hb
      exact hg a (hx a rfl)

theorem Gives.imp {P' : α → Prop} {x : Except ε α} (hx : Gives P x) (h : ∀ a, P a → P' a) :
    Gives P' x :=
  fun a ha => h a (hx a ha)

theorem gives_mapM {g : α → Except ε β} {xs : List α} (hg : ∀ x ∈ xs, Gives Q (g x)) :
    Gives (fun ys => ∀ y ∈ ys, Q y) (xs.mapM g) := by
  induction xs with
  | nil => exact gives_ok (by simp)
  | cons x xs ih =>
      have hxs := ih fun y hy => hg y (List.mem_cons_of_mem x hy)
      rw [List.mapM_cons]
      refine (hg x List.mem_cons_self).bind fun y hy => hxs.bind fun ys hys => ?_
      exact gives_ok (List.forall_mem_cons.2 ⟨hy, hys⟩)

theorem gives_mapM_option {g : α → Except ε β} {o : Option α} (hg : ∀ a ∈ o, Gives Q (g a)) :
    Gives (fun found => found.isSome = o.isSome ∧ ∀ b ∈ found, Q b) (o.mapM g) := by
  cases o with
  | none => exact gives_ok ⟨rfl, by simp⟩
  | some a =>
      rw [Option.mapM_some]
      exact (hg a rfl).map fun b hb => ⟨rfl, by simpa using hb⟩

end Gives

/-! ## Readers -/

/-- What the reader gives has the property, unless there is an error. -/
def Yields {α : Type} (P : α → Prop) (r : Reader α) : Prop :=
  ∀ feed, Gives (fun result => P result.1) (r feed)

section Yields

variable {α β : Type} {P : α → Prop} {Q : β → Prop}

theorem yields_pure {a : α} (h : P a) : Yields P (pure a : Reader α) :=
  fun _ => gives_ok h

theorem yields_throw (cause : ParseError) : Yields P (throw cause : Reader α) :=
  fun _ => gives_error cause

theorem yields_true (r : Reader α) : Yields (fun _ => True) r :=
  fun _ _ _ => trivial

theorem Yields.bind {r : Reader α} {k : α → Reader β} (hr : Yields P r)
    (hk : ∀ a, P a → Yields Q (k a)) : Yields Q (r >>= k) :=
  fun feed => (hr feed).bind fun result h => hk result.1 h result.2

/-- The rule for two steps from one feed, where it matters what feed the first one leaves. -/
theorem gives_seq {P : α × Feed → Prop} {Q : β × Feed → Prop} {r : Reader α} {k : α → Reader β}
    {feed : Feed} (hr : Gives P (r feed)) (hk : ∀ found, P found → Gives Q (k found.1 found.2)) :
    Gives Q ((r >>= k) feed) :=
  hr.bind hk

/-- The rule where only the value matters that the first step gives. -/
theorem Gives.read {r : Reader α} {k : α → Reader β} {feed : Feed}
    (hr : Gives (fun found => P found.1) (r feed)) (hk : ∀ a, P a → Yields Q (k a)) :
    Gives (fun found => Q found.1) ((r >>= k) feed) :=
  gives_seq hr fun found h => hk found.1 h found.2

theorem gives_token (feed : Feed) :
    Gives (fun found => found = (feed.token, feed)) (Reader.token feed) :=
  gives_ok rfl

theorem yields_bind_any {r : Reader α} {k : α → Reader β} (hk : ∀ a, Yields Q (k a)) :
    Yields Q (r >>= k) :=
  (yields_true r).bind fun a _ => hk a

theorem Yields.map {r : Reader α} {g : α → β} (hr : Yields P r) (hg : ∀ a, P a → Q (g a)) :
    Yields Q (g <$> r) :=
  hr.bind fun a ha => yields_pure (hg a ha)

theorem yields_unexpected (what : Construct) (wanted : String) :
    Yields P (Reader.unexpected what wanted : Reader α) :=
  yields_bind_any fun _ => yields_throw _

theorem yields_misuse (cause : Misuse) : Yields P (Reader.misuse cause : Reader α) :=
  yields_bind_any fun _ => yields_throw _

theorem yields_ofExcept {ε : Type} {wrap : ε → ParseError} {x : Except ε α} (h : Gives P x) :
    Yields P (Reader.ofExcept wrap x) := by
  cases x with
  | error cause => exact fun _ => gives_error _
  | ok a => exact fun _ => gives_ok (h a rfl)

theorem yields_items {what : Construct} {item : Reader α} (h : Yields P item) (fuel : Nat) :
    Yields (fun found => ∀ a ∈ found, P a) (Reader.items what item fuel) := by
  induction fuel with
  | zero => exact yields_unexpected _ _
  | succ fuel ih =>
      unfold Reader.items
      refine yields_bind_any fun atEnd => ?_
      split
      · exact yields_pure (by simp)
      · refine h.bind fun a ha => yields_bind_any fun atComma => ?_
        split
        · refine yields_bind_any fun _ => ih.bind fun rest hrest => ?_
          exact yields_pure (List.forall_mem_cons.2 ⟨ha, hrest⟩)
        · refine yields_bind_any fun atEnd => ?_
          split
          · exact yields_pure (by simpa using ha)
          · exact yields_unexpected _ _

theorem yields_parenthesized {what : Construct} {item : Reader α} (h : Yields P item) :
    Yields (fun found => ∀ a ∈ found, P a) (Reader.parenthesized what item) := by
  refine yields_bind_any fun _ => yields_bind_any fun feed => ?_
  refine (yields_items h _).bind fun found hfound => yields_bind_any fun _ => ?_
  exact yields_pure hfound

end Yields

end SeriesQuery
