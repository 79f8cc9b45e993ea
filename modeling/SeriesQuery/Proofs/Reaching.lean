import SeriesQuery.Proofs.ReadingQueries
import SeriesQuery.Proofs.Precedence

/-!
# Readers that may fail

`Reaches r s P` says what is known of a reader that starts at the tokens `s`: if it gives a result,
that and the tokens it leaves have the property `P`.  Nothing is asked of the text behind the tokens,
which may not be scanned to its end.  So it can be told where the window, the step and the offset of
a rollup were read, whatever else stands in its text.
-/

namespace SeriesQuery

open Text

/-! ## Steps -/

/-- What the reader gives from these tokens, and what it leaves, has the property, unless there is an
error. -/
def Reaches {α : Type} (r : Reader α) (s : List String) (P : α → List String → Prop) : Prop :=
  ∀ feed : Feed, feed.tokens = s → Gives (fun found => P found.1 found.2.tokens) (r feed)

/-- The reader gives `a` and leaves the tokens `m`, unless there is an error. -/
abbrev Lands {α : Type} (r : Reader α) (s : List String) (a : α) (m : List String) : Prop :=
  Reaches r s fun found left => found = a ∧ left = m

section Rules

variable {α β : Type} {r : Reader α} {k : α → Reader β} {s m : List String} {a : α}
  {P P' : α → List String → Prop} {Q : β → List String → Prop}

theorem Reaches.bind (hr : Reaches r s P) (hk : ∀ a m, P a m → Reaches (k a) m Q) :
    Reaches (r >>= k) s Q :=
  fun feed hfeed => gives_seq (hr feed hfeed) fun found hfound => hk found.1 _ hfound found.2 rfl

/-- The rule for a first step of which the result is known. -/
theorem Lands.bind (hr : Lands r s a m) (hk : Reaches (k a) m Q) : Reaches (r >>= k) s Q :=
  Reaches.bind hr fun _ _ hfound => hfound.1 ▸ hfound.2 ▸ hk

theorem Reaches.imp (hr : Reaches r s P) (h : ∀ a m, P a m → P' a m) : Reaches r s P' :=
  fun feed hfeed => (hr feed hfeed).imp fun found hfound => h found.1 _ hfound

theorem Yields.reaches {P : α → Prop} (h : Yields P r) : Reaches r s fun a _ => P a :=
  fun feed _ => h feed

theorem reaches_any : Reaches r s fun _ _ => True :=
  (yields_true r).reaches

theorem reaches_pure (h : P a s) : Reaches (pure a : Reader α) s P := by
  intro feed hfeed
  exact gives_ok (hfeed ▸ h)

theorem lands_pure : Lands (pure a : Reader α) s a s :=
  reaches_pure ⟨rfl, rfl⟩

theorem reaches_throw (cause : ParseError) : Reaches (throw cause : Reader α) s P :=
  fun _ _ => gives_error _

theorem reaches_unexpected (what : Construct) (wanted : String) :
    Reaches (Reader.unexpected what wanted : Reader α) s P :=
  Reaches.bind reaches_any fun _ _ _ => reaches_throw _

theorem lands_ofExcept {ε : Type} {wrap : ε → ParseError} {x : Except ε α} (h : x = .ok a) :
    Lands (Reader.ofExcept wrap x) s a s := by
  intro feed hfeed
  rw [h]
  exact gives_ok ⟨rfl, hfeed⟩

theorem reaches_ofExcept {ε : Type} {wrap : ε → ParseError} {x : Except ε α} {P : α → Prop}
    (h : Gives P x) : Reaches (Reader.ofExcept wrap x) s fun a m => P a ∧ m = s := by
  intro feed hfeed
  cases x with
  | error cause => exact gives_error _
  | ok a => exact gives_ok ⟨h a rfl, hfeed⟩

end Rules

namespace Reader

variable {s : List String}

theorem lands_token : Lands token s (current s) s := by
  rintro feed rfl
  exact gives_ok ⟨rfl, rfl⟩

theorem lands_bump : Lands bump s () s.tail := by
  rintro ⟨tokens, failure, ahead⟩ rfl
  rcases tokens with _ | ⟨t, _ | ⟨u, tokens⟩⟩ <;> cases failure <;>
    first | exact gives_ok ⟨rfl, rfl⟩ | exact gives_error _

theorem lands_lookAt (n : Nat) : Lands (lookAt n) s (s[n]?.getD "") s := by
  rintro ⟨tokens, failure, ahead⟩ rfl
  simp only [lookAt, Feed.lookAt]
  cases tokens[n]? <;> cases failure <;> first | exact gives_ok ⟨rfl, rfl⟩ | exact gives_error _

theorem lands_replace (text : String) : Lands (replace text) s () (text :: s.tail) := by
  rintro feed rfl
  exact gives_ok ⟨rfl, rfl⟩

theorem lands_atToken (text : String) : Lands (atToken text) s (current s == text) s :=
  lands_token.bind lands_pure

theorem lands_atWord (word : String) : Lands (atWord word) s (sameWord (current s) word) s :=
  lands_token.bind lands_pure

/-! ## Durations -/

/-- A duration is one token, unless it is the name of a template. -/
theorem reaches_duration : Reaches duration s fun d m =>
    d.isTemplate = false → d.text = current s ∧ m = s.tail := by
  have hname : Yields (fun d => d.isTemplate) (durationName (current s)) := by
    unfold durationName
    dsimp only
    split <;> exact yields_bind_any fun _ => yields_pure rfl
  refine lands_token.bind ?_
  split
  · exact hname.reaches.imp fun d m htemplate hresolved => by simp [htemplate] at hresolved
  split
  · exact lands_bump.bind (reaches_pure fun _ => ⟨rfl, rfl⟩)
  split
  · refine (reaches_ofExcept (gives_bareSeconds _)).bind ?_
    rintro d m ⟨rfl, rfl⟩
    exact lands_bump.bind (reaches_pure fun _ => ⟨rfl, rfl⟩)
  · exact reaches_unexpected _ _

end Reader

/-! ## Windows, steps and offsets -/

/-- The window is the first token, or is missing in front of a colon. -/
def WidthRead (s : List String) : Option Duration → List String → Prop
  | none, m => m = s
  | some d, m => d.text = current s ∧ m = s.tail

/-- The step stands behind a colon, as the rest of its token or as the next one. -/
def StepRead (s : List String) (inherits : Bool) : Option Duration → List String → Prop
  | none, m => (current s ≠ ":" ∧ m.tail = s.tail) ∨ (current s = ":" ∧ m = s.tail)
  | some d, m => inherits = false ∧ ((current s = ":" ++ d.text ∧ m = s.tail) ∨
      (current s = ":" ∧ d.text = current s.tail ∧ m = s.tail.tail))

/-- The window and the step are read from the brackets, if there are any. -/
def WindowRead (s : List String) (r : Range) (m : List String) : Prop :=
  (current s ≠ "[" ∧ m = s) ∨ (current s = "[" ∧ ∃ t u, WidthRead s.tail r.window t ∧
    StepRead t r.inheritStep r.step u ∧ m = u.tail)

/-- The offset is read behind its word, with the sign before it. -/
def OffsetRead (s : List String) (offset : Option Duration) : Prop :=
  ∀ d ∈ offset, (current s.tail = "-" ∧ d.text = "-" ++ current s.tail.tail) ∨
    (current s.tail ≠ "-" ∧ d.text = current s.tail)

namespace Reader

variable {s : List String}

theorem reaches_step : Reaches step s fun found m => Duration.Resolved found.1 →
    StepRead s found.2 found.1 m := by
  refine lands_token.bind ?_
  split
  · rename_i rest hcolon
    have htoken : current s = ":" ++ String.ofList rest := by
      rw [← String.toList_inj, hcolon]
      simp
    refine (lands_replace _).bind ?_
    -- A colon alone is gone past; of a longer token the rest is the step.
    cases rest with
    | nil =>
        simp only [List.isEmpty_nil, if_true]
        refine lands_bump.bind ((lands_atToken _).bind ?_)
        split
        · exact reaches_pure fun _ => .inr ⟨htoken, rfl⟩
        · refine reaches_duration.bind fun d m hd => reaches_pure fun hresolved => ?_
          have hfound := hd (hresolved d rfl)
          exact ⟨rfl, .inr ⟨htoken, hfound.1, hfound.2⟩⟩
    | cons c cs =>
        simp only [List.isEmpty_cons]
        refine (lands_atToken _).bind ?_
        split
        · refine reaches_pure fun _ => .inl ⟨?_, rfl⟩
          intro hlone
          have hlength := congrArg (fun t : String => t.toList.length) (hlone.symm.trans htoken)
          simp at hlength
        · refine reaches_duration.bind fun d m hd => reaches_pure fun hresolved => ?_
          have hfound := hd (hresolved d rfl)
          exact ⟨rfl, .inl ⟨by rw [hfound.1]; exact htoken, hfound.2⟩⟩
  · rename_i hplain
    refine reaches_pure fun _ => .inl ⟨?_, rfl⟩
    intro hcolon
    rw [hcolon] at hplain
    exact hplain [] rfl

theorem reaches_window : Reaches window s fun r m =>
    Duration.Resolved r.window → Duration.Resolved r.step → WindowRead s r m := by
  refine (lands_atToken _).bind ?_
  split
  · rename_i hopen
    rw [beq_iff_eq] at hopen
    have hcolon : Lands atColon s.tail ((current s.tail).toList.head? == some ':') s.tail :=
      lands_token.bind lands_pure
    have hnone : Reaches (pure none : Reader (Option Duration)) s.tail fun width m =>
        Duration.Resolved width → WidthRead s.tail width m :=
      reaches_pure fun _ => rfl
    have hsome : Reaches (some <$> duration) s.tail fun width m =>
        Duration.Resolved width → WidthRead s.tail width m :=
      Reaches.bind reaches_duration fun d m hd => reaches_pure fun hresolved => hd (hresolved d rfl)
    -- The window may be missing, and the step is read alike behind it.
    refine lands_bump.bind (hcolon.bind ?_)
    dsimp only
    split
    case' isTrue => refine hnone.bind fun width t hwidth => ?_
    case' isFalse => refine hsome.bind fun width t hwidth => ?_
    all_goals
      refine reaches_step.bind fun found u hstep => (lands_atToken _).bind ?_
      split
      · refine lands_bump.bind (reaches_pure fun hwindow hevery => ?_)
        exact .inr ⟨hopen, t, u, hwidth hwindow, hstep hevery, rfl⟩
      · exact reaches_unexpected _ _
  · rename_i hplain
    have hnone : current s ≠ "[" := by simpa using hplain
    exact reaches_pure fun _ _ => .inl ⟨hnone, rfl⟩

theorem reaches_offset : Reaches offset s fun found _ =>
    Duration.Resolved found → OffsetRead s found := by
  refine (lands_atWord _).bind ?_
  split
  · refine lands_bump.bind ((lands_atToken _).bind ?_)
    split
    · rename_i hminus
      rw [beq_iff_eq] at hminus
      refine lands_bump.bind (reaches_duration.bind fun d m hd => ?_)
      split
      · exact reaches_throw _
      · rename_i hplain
        refine reaches_pure fun _ d' hd' => .inl ⟨hminus, ?_⟩
        cases hd'
        rw [(hd (by simpa using hplain)).1]
    · rename_i hplain
      refine reaches_duration.bind fun d m hd => reaches_pure fun hresolved d' hd' => .inr ⟨?_, ?_⟩
      · simpa using hplain
      · cases hd'
        exact (hd (hresolved d rfl)).1
  · exact reaches_pure fun _ d hd => by cases hd

end Reader

/-- The window, the step and the offset of a range are read from these tokens. -/
def RangeRead (s : List String) (r : Range) : Prop :=
  ∃ m, WindowRead s r m ∧ (current m ≠ "@" → OffsetRead m r.offset)

namespace Grammar

variable {g : Grammar} {s : List String}

theorem lands_noTime (h : current s ≠ "@") : Lands g.time s none s := by
  refine (Reader.lands_atToken _).bind ?_
  rw [beq_eq_false_iff_ne.2 h]
  exact lands_pure

/-- The range of an operand that has no names of metrics to keep. -/
theorem reaches_rollup {inner : Expr} (hinner : inner.markKeepNames = none) :
    Reaches (g.rollup inner) s fun e _ => ∃ range time, e = .rollup inner range time ∧
      (range.Resolved → RangeRead s range) := by
  refine (Reader.reaches_window (s := s)).bind fun range m hwindow => ?_
  -- A time in front of the offset is arbitrary, and so are the tokens behind it.
  have htime : Reaches g.time m fun _ left => current m ≠ "@" → left = m := by
    by_cases hat : current m = "@"
    · exact reaches_any.imp fun _ _ _ hnot => absurd hat hnot
    · exact (lands_noTime hat).imp fun _ _ hfound _ => hfound.2
  refine htime.bind fun earlier left hleft => ?_
  refine Reader.reaches_offset.bind fun offset _ hoffset => reaches_any.bind fun time _ _ => ?_
  have hdone : ∀ s', Reaches (pure (.rollup inner { range with offset } time) : Reader Expr) s'
      fun e _ => ∃ range time, e = .rollup inner range time ∧
        (range.Resolved → RangeRead s range) := by
    refine fun s' => reaches_pure ⟨_, _, rfl, fun hresolved => ⟨m, ?_, fun hat => ?_⟩⟩
    · exact hwindow hresolved.window hresolved.step
    · have hread := hoffset hresolved.offset
      rwa [hleft hat] at hread
  refine reaches_any.bind fun keep _ _ => ?_
  simp only [hinner]
  split
  · exact hdone _
  · exact hdone _

/-- A name in front of a range is that of a metric. -/
theorem lands_metricName {name : String} (hname : IsLegible name)
    (hword : isNumberWord (escapeIdent name) = false) (hs : current s = "[" ∨ current s = "offset") :
    Lands g.bareOperand (escapeIdent name :: s) (.selector (.ofName name)) s := by
  have hident := startsIdent_escapeIdent hname.ne_empty
  have hmetric : Lands Reader.metric (escapeIdent name :: s) (.selector (.ofName name)) s := by
    have hbrace : (current s == "\x7b") = false := by rcases hs with hs | hs <;> rw [hs] <;> decide
    have hresolved : (SelectorExpr.ofName name).toSelector = .ok (.ofName name) :=
      SelectorExpr.toSelector_ofSelector (s := .ofName name) (by
        simpa [Selector.ofName] using (legibleFilter_name name).valid)
    refine Reader.lands_token.bind ?_
    simp only [current_cons, hident, if_true, Reader.identifier]
    refine Lands.bind (a := name) (m := s) ?_ ((Reader.lands_atToken _).bind ?_)
    · refine Reader.lands_token.bind ?_
      simp only [current_cons, hident, if_true]
      refine Reader.lands_bump.bind ?_
      rw [hname.unescape]
      exact lands_pure
    · rw [hbrace]
      unfold Reader.ofSelectorExpr
      exact (lands_ofExcept hresolved).bind lands_pure
  refine Reader.lands_token.bind ?_
  simp only [current_cons, beq_eq_false_iff_ne.2 (ne_empty_of_startsIdent hident),
    isPositiveDuration_of_startsIdent hident, startsNumber_of_startsIdent hident, hword,
    startsQuoted_of_startsIdent hident, hident, Bool.or_self, if_true]
  refine Reader.lands_token.bind ((Reader.lands_lookAt 1).bind ?_)
  have hnext : (escapeIdent name :: s)[1]?.getD "" = current s := by
    cases s <;> rfl
  rw [hnext]
  -- Both tokens tell that the name is neither called nor aggregated.
  rcases hs with hs | hs
  · have hclass : ("[" == "" || sameWord "[" "offset") = false ∧ startsIdent "[".toList = false ∧
        isOperatorWord "[" = false ∧ ("[" == "(") = false ∧
        ["\x7b", "[", ")", ",", "@"].contains "[" = true := by decide
    simp only [hs, hclass, if_true]
    exact hmetric
  · have hclass : ("offset" == "" || sameWord "offset" "offset") = true := by decide
    simp only [hs, hclass, if_true]
    exact hmetric

end Grammar

/-- An expression that starts with the range of a metric is that range, or the first operand of
operators. -/
theorem Reader.reaches_rangedMetric {name : String} {s : List String} (hname : IsLegible name)
    (hword : Grammar.isNumberWord (escapeIdent name) = false)
    (hs : current s = "[" ∨ current s = "offset") (budget : Nat) :
    Reaches (expression (budget + 4)) (escapeIdent name :: s) fun e _ => ∃ range time chain,
      e = (Expr.rollup (.selector (.ofName name)) range time).chained chain ∧
        (range.Resolved → RangeRead s range) := by
  have hfirst : ∀ t ∈ ["[", "offset"], t ≠ "(" ∧ Grammar.startsRange t := by decide
  have hrange := hfirst (current s) (by simpa using hs)
  -- A metric may be named like the word for templates, but no parenthesis stands behind it.
  have htemplates : Lands Grammar.atTemplates (escapeIdent name :: s) false (escapeIdent name :: s) := by
    refine (Reader.lands_atWord _).bind ?_
    split
    · have hnext : ((escapeIdent name :: s)[1]?.getD "" == "(") = false := by
        have hsame : (escapeIdent name :: s)[1]?.getD "" = current s := by
          cases s <;> rfl
        rw [hsame, beq_eq_false_iff_ne]
        exact hrange.1
      refine (lands_lookAt 1).bind ?_
      rw [hnext]
      exact lands_pure
    · exact lands_pure
  have hoperand : Reaches (operand (budget + 4)) (escapeIdent name :: s) fun e _ => ∃ range time,
      e = Expr.rollup (.selector (.ofName name)) range time ∧
        (range.Resolved → RangeRead s range) := by
    rw [operand_add]
    refine htemplates.bind ((Grammar.lands_metricName hname hword hs).bind ?_)
    refine lands_token.bind ?_
    simp only [hrange.2, if_true]
    exact Grammar.reaches_rollup rfl
  refine hoperand.bind ?_
  rintro left m ⟨range, time, rfl, hread⟩
  refine (yields_chain (budget + 4) _).reaches.imp ?_
  rintro e _ ⟨chain, rfl⟩
  exact ⟨range, time, chain, rfl, hread⟩

end SeriesQuery
