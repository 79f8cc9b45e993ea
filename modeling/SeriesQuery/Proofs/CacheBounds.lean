import SeriesQuery.Proofs.CacheRuns

/-!
# How large caches grow

An eviction makes room of a tenth of the limit, however long the text is that is put next.  So a put
keeps the size within the limit and the longest text, unless it puts a longer text than that into a
cache over its limit; a run with such a put does exceed it (`Run.exceeds_overfull`).

How far runs get is told by weighing the texts.  Where what an eviction drives out weighs as much as
any text, the weight of all texts grows only as long as the size is within the limit
(`Run.total_le`).  A text weighs its length then, but no more than the room of an eviction; and
where evictions make no room, since the limit is too small, it weighs one.
-/

namespace SeriesQuery
namespace Pattern
namespace Cache

variable {α : Type} {c : Cache α} {key : String} {value : α} {limit room unit bound : Nat}
  {order : List String} {calls : List (Call α)} {weigh : String → Nat}

/-- The length of the longest text that was put. -/
def longestPut : List (Call α) → Nat
  | [] => 0
  | .put key _ :: calls => max key.utf8ByteSize (longestPut calls)
  | _ :: calls => longestPut calls

/-- The weight of all texts. -/
def total (weigh : String → Nat) (c : Cache α) : Nat :=
  (c.keys.map weigh).sum

/-! ## Totals -/

theorem Accounted.total_length (h : c.Accounted) : c.total String.utf8ByteSize = c.size :=
  h.size.symm

theorem total_of_keys_nil (h : c.keys = []) : c.total weigh = 0 := by
  simp [total, h]

theorem total_erase (hdistinct : c.keys.Nodup) (hkey : key ∈ c.keys) :
    (c.erase key).total weigh + weigh key = c.total weigh := by
  rw [total, keys_erase hdistinct, Nat.add_comm, total, List.sum_map_erase weigh hkey]

theorem total_insert_le : (c.insert key value).total weigh ≤ c.total weigh + weigh key := by
  rw [total, keys_insert]
  split
  · exact Nat.le_add_right _ _
  · simp [total]

/-- Weights in proportion to the lengths bound the size. -/
theorem Accounted.mul_size_le {a b : Nat} (h : c.Accounted)
    (hweigh : ∀ key ∈ c.keys, a * key.utf8ByteSize ≤ b * weigh key) :
    a * c.size ≤ b * c.total weigh := by
  calc a * c.size
      = (c.keys.map fun key => a * key.utf8ByteSize).sum := by
          rw [h.size, List.sum_map_mul_left]
    _ ≤ (c.keys.map fun key => b * weigh key).sum := List.sum_le_sum hweigh
    _ = b * c.total weigh := by rw [List.sum_map_mul_left, total]

/-- At most one text is empty. -/
theorem Accounted.length_keys_le (h : c.Accounted) : c.keys.length ≤ c.size + 1 := by
  have hlong : ∀ key ∈ c.keys.erase "", 1 ≤ key.utf8ByteSize := by
    intro key hkey
    have hne := (h.distinct.mem_erase_iff.1 hkey).1
    exact Nat.one_le_iff_ne_zero.2 fun hzero => hne (String.utf8ByteSize_eq_zero_iff.1 hzero)
  have hrest : (c.keys.erase "").length ≤ ((c.keys.erase "").map String.utf8ByteSize).sum := by
    have hsum := List.length_le_sum_of_one_le ((c.keys.erase "").map String.utf8ByteSize)
      (by simpa using hlong)
    simpa using hsum
  by_cases hempty : "" ∈ c.keys
  · have hsize := h.size_erase hempty
    rw [List.length_erase_of_mem hempty] at hrest
    omega
  · rw [List.erase_of_not_mem hempty, ← h.size] at hrest
    exact Nat.le_succ_of_le hrest

/-! ## Evictions -/

/-- Where texts weigh as much as they are long, up to the room, the texts that are driven out weigh
as much as the room that is made, unless no text is left. -/
theorem total_evict (hweigh : ∀ key, min key.utf8ByteSize room ≤ weigh key)
    (hdistinct : c.keys.Nodup) (horder : order.Perm c.keys) {left : Nat} (hleft : left ≤ room) :
    (c.evict left order).total weigh + left ≤ c.total weigh ∨ (c.evict left order).keys = [] := by
  -- The room that is left shrinks along the order, so the lemma is about any part of the room.
  induction order generalizing c left with
  | nil => exact .inr horder.nil_eq.symm
  | cons key order ih =>
      have hkey : key ∈ c.keys := horder.mem_iff.1 List.mem_cons_self
      have herase : (c.erase key).total weigh + weigh key = c.total weigh :=
        total_erase hdistinct hkey
      have hlight := hweigh key
      unfold Cache.evict
      split
      · rename_i hlast
        refine .inl ?_
        have hpart : left ≤ weigh key := (le_min hlast hleft).trans hlight
        calc (c.erase key).total weigh + left
            ≤ (c.erase key).total weigh + weigh key := Nat.add_le_add_left hpart _
          _ = c.total weigh := herase
      · rename_i hshort
        have hrest : order.Perm (c.erase key).keys := by
          rw [keys_erase hdistinct]
          have hperm := horder.erase key
          rwa [List.erase_cons_head] at hperm
        have hdistinct' : (c.erase key).keys.Nodup := by
          rw [keys_erase hdistinct]
          exact hdistinct.erase key
        -- The text is shorter than the room still to be made, so it weighs its length.
        refine Or.imp_left ?_ (ih hdistinct' hrest ?_)
        · intro hmore
          omega
        · omega

/-- An eviction that has to make no room still drives out one text. -/
theorem length_keys_evict_zero (hdistinct : c.keys.Nodup) (horder : order.Perm c.keys) :
    (c.evict 0 order).keys.length + 1 ≤ c.keys.length ∨ (c.evict 0 order).keys = [] := by
  cases order with
  | nil => exact .inr horder.nil_eq.symm
  | cons key order =>
      have hkey : key ∈ c.keys := horder.mem_iff.1 List.mem_cons_self
      have hsome : 0 < c.keys.length := List.length_pos_of_mem hkey
      refine .inl ?_
      rw [Cache.evict, if_pos (Nat.zero_le _), keys_erase hdistinct, List.length_erase_of_mem hkey]
      omega

/-! ## Puts -/

theorem total_put_of_le (hfits : c.size ≤ c.limit) :
    (c.put order key value).total weigh ≤ c.total weigh + weigh key := by
  rw [Cache.put, if_neg (Nat.not_lt.2 hfits)]
  exact total_insert_le

/-- Over the limit a text replaces what weighs as much, or it is the only text afterwards. -/
theorem total_put_of_lt (hover : c.limit < c.size) (hkey : weigh key ≤ unit)
    (hevict : (c.evict (c.limit / 10) order).total weigh + unit ≤ c.total weigh ∨
      (c.evict (c.limit / 10) order).keys = []) :
    (c.put order key value).total weigh ≤ max (c.total weigh) unit := by
  rw [Cache.put, if_pos hover]
  have hinsert : ((c.evict (c.limit / 10) order).insert key value).total weigh ≤
      (c.evict (c.limit / 10) order).total weigh + weigh key := total_insert_le
  rcases hevict with hless | hnone
  · exact le_max_of_le_left (by omega)
  · rw [total_of_keys_nil hnone, Nat.zero_add] at hinsert
    exact le_max_of_le_right (hinsert.trans hkey)

/-- A put that meets the limit, or a text that is no longer than what an eviction drives out, keeps
the size within the limit and the longest text. -/
theorem Accounted.size_put_le {longest : Nat} (h : c.Accounted) (horder : order.Perm c.keys)
    (hsize : c.size ≤ c.limit + longest)
    (hput : c.size ≤ c.limit ∨ key.utf8ByteSize ≤ c.limit / 10) :
    (c.put order key value).size ≤ c.limit + max key.utf8ByteSize longest := by
  have hsum := h.total_length
  have hput' : (c.put order key value).Accounted := h.put horder
  rw [← hput'.total_length]
  rcases Nat.lt_or_ge c.limit c.size with hover | hfits
  · have hshort : key.utf8ByteSize ≤ c.limit / 10 := hput.resolve_left (Nat.not_le.2 hover)
    have hevict : (c.evict (c.limit / 10) order).total String.utf8ByteSize + c.limit / 10 ≤
        c.total String.utf8ByteSize ∨ (c.evict (c.limit / 10) order).keys = [] :=
      total_evict (fun _ => min_le_left _ _) h.distinct horder le_rfl
    have hnext : (c.put order key value).total String.utf8ByteSize ≤
        max (c.total String.utf8ByteSize) (c.limit / 10) := total_put_of_lt hover hshort hevict
    omega
  · have hnext : (c.put order key value).total String.utf8ByteSize ≤
        c.total String.utf8ByteSize + key.utf8ByteSize := total_put_of_le hfits
    omega

namespace Run

/-! ## Runs -/

theorem utf8ByteSize_le_longestPut (h : Run limit calls c) (hkey : key ∈ c.keys) :
    key.utf8ByteSize ≤ longestPut calls := by
  have hfound := isSome_find?.2 hkey
  rcases h.find?_latest key with hnone | hlatest
  · rw [hnone] at hfound
    cases hfound
  · rw [hlatest] at hfound
    clear h hkey hlatest
    -- A text with a latest value was put.
    induction calls with
    | nil => cases hfound
    | cons call calls ih =>
        cases call with
        | get _ _ => exact ih hfound
        | clear => exact ih hfound
        | put stored value =>
            by_cases heq : stored = key
            · exact heq ▸ le_max_left _ _
            · simp only [latestPut, beq_iff_eq, heq, if_false] at hfound
              exact (ih hfound).trans (le_max_right _ _)

/-- Where an eviction drives out what weighs as much as any text, the weight of all texts grows no
further than by one text beyond its bound within the limit. -/
theorem total_le {longest : Nat} (h : Run limit calls c) (hlongest : longestPut calls ≤ longest)
    (hunit : ∀ key, key.utf8ByteSize ≤ longest → weigh key ≤ unit)
    (hwithin : ∀ c : Cache α, c.Accounted → c.size ≤ limit → c.total weigh ≤ bound)
    (hevict : ∀ (c : Cache α) order, c.Accounted → order.Perm c.keys →
      (c.evict (limit / 10) order).total weigh + unit ≤ c.total weigh ∨
        (c.evict (limit / 10) order).keys = []) :
    c.total weigh ≤ bound + unit := by
  induction h with
  | start => exact Nat.zero_le _
  | get _ _ ih => exact ih hlongest
  | clear _ _ => exact Nat.zero_le _
  | @put calls c order key value hrun horder ih =>
      have hkey : weigh key ≤ unit := hunit key ((le_max_left _ _).trans hlongest)
      -- Over the limit the bound is that of the run so far, within it the new text comes on top.
      rcases Nat.lt_or_ge limit c.size with hover | hfits
      · rw [← hrun.limit_eq] at hover hevict
        exact (total_put_of_lt hover hkey (hevict c order hrun.accounted horder)).trans
          (max_le (ih ((le_max_right _ _).trans hlongest)) (Nat.le_add_left _ _))
      · have hbound := hwithin c hrun.accounted hfits
        rw [← hrun.limit_eq] at hfits
        exact (total_put_of_le hfits).trans (Nat.add_le_add hbound hkey)

/-- A limit of less than ten makes no room, and each eviction drives out one text. -/
theorem length_keys_le (h : Run limit calls c) (hlimit : limit / 10 = 0) :
    c.keys.length ≤ limit + 2 := by
  have hcount : ∀ c : Cache α, c.total (fun _ => 1) = c.keys.length := by
    intro c
    simp [total]
  rw [← hcount]
  show c.total (fun _ => 1) ≤ limit + 1 + 1
  refine h.total_le le_rfl (fun _ _ => le_rfl) ?_ ?_
  · intro c hc hfits
    rw [hcount]
    exact hc.length_keys_le.trans (Nat.succ_le_succ hfits)
  · intro c order hc horder
    rw [hcount, hcount, hlimit]
    exact length_keys_evict_zero hc.distinct horder

/-- A run that puts no text longer than a tenth of the limit. -/
theorem size_le_of_short (h : Run limit calls c) (hshort : longestPut calls ≤ limit / 10) :
    c.size ≤ limit + longestPut calls := by
  rw [← h.accounted.total_length]
  refine h.total_le le_rfl (fun _ hkey => hkey) ?_ ?_
  · intro c hc hfits
    exact hc.total_length.trans_le hfits
  · intro c order hc horder
    refine (total_evict (fun _ => min_le_left _ _) hc.distinct horder le_rfl).imp_left ?_
    exact fun hless => (Nat.add_le_add_left hshort _).trans hless

/-- A text weighs its length here, but no more than the room that an eviction makes. -/
theorem mul_size_le_of_long (h : Run limit calls c) (hlong : limit / 10 ≤ longestPut calls) :
    limit / 10 * c.size ≤ longestPut calls * (limit + limit / 10) := by
  have htotal : c.total (fun key => min key.utf8ByteSize (limit / 10)) ≤ limit + limit / 10 := by
    refine h.total_le le_rfl (fun _ _ => min_le_right _ _) ?_ ?_
    · intro c hc hfits
      calc c.total (fun key => min key.utf8ByteSize (limit / 10))
          ≤ c.total String.utf8ByteSize := List.sum_le_sum fun _ _ => min_le_left _ _
        _ = c.size := hc.total_length
        _ ≤ limit := hfits
    · intro c order hc horder
      exact total_evict (fun _ => le_rfl) hc.distinct horder le_rfl
  refine (h.accounted.mul_size_le fun key hkey => ?_).trans (Nat.mul_le_mul_left _ htotal)
  -- A text that weighs the room only is no longer than the longest one.
  rcases Nat.le_total key.utf8ByteSize (limit / 10) with hshort | hover
  · rw [min_eq_left hshort]
    exact Nat.mul_le_mul_right _ hlong
  · rw [min_eq_right hover, Nat.mul_comm]
    exact Nat.mul_le_mul_right _ (h.utf8ByteSize_le_longestPut hkey)

/-- How large caches are.  Within the limit, or for a text of up to a tenth of it, a put leaves the
size within the limit and the longest text; so does a run that puts no longer texts.  In any run the
size is bounded by a multiple of the longest text. -/
theorem size_bounds (h : Run limit calls c) :
    (∀ order key value, order.Perm c.keys → c.size ≤ limit + longestPut calls →
      c.size ≤ limit ∨ key.utf8ByteSize ≤ limit / 10 →
      (c.put order key value).size ≤ limit + longestPut (.put key value :: calls)) ∧
    (longestPut calls ≤ limit / 10 → c.size ≤ limit + longestPut calls) ∧
    (limit / 10 ≤ longestPut calls →
      limit / 10 * c.size ≤ longestPut calls * (limit + limit / 10)) ∧
    (limit / 10 = 0 → c.size ≤ longestPut calls * (limit + 2)) := by
  refine ⟨?_, h.size_le_of_short, h.mul_size_le_of_long, ?_⟩
  · intro order key value horder hsize hput
    rw [← h.limit_eq] at hsize hput ⊢
    exact h.accounted.size_put_le horder hsize hput
  · intro hlimit
    calc c.size
        = 1 * c.size := (Nat.one_mul _).symm
      _ ≤ longestPut calls * c.total (fun _ => 1) := by
          refine h.accounted.mul_size_le fun key hkey => ?_
          rw [Nat.one_mul, Nat.mul_one]
          exact h.utf8ByteSize_le_longestPut hkey
      _ = longestPut calls * c.keys.length := by simp [total]
      _ ≤ longestPut calls * (limit + 2) := Nat.mul_le_mul_left _ (h.length_keys_le hlimit)

/-! ## A cache beyond its limit -/

/-- Texts that are put one after another, each driving out the oldest ones. -/
theorem putOldest (h : Run limit calls c) (texts : List String) :
    Run limit ((texts.map (Call.put · value)).reverse ++ calls)
      (texts.foldl (·.putOldest · value) c) := by
  induction texts generalizing calls c with
  | nil => exact h
  | cons text texts ih =>
      rw [List.map_cons, List.reverse_cons, List.append_assoc]
      exact ih (h.put text value (.refl _))

/-- Nineteen texts of one byte, and one of twenty. -/
def overfull : List String :=
  ["a", "b", "c", "d", "e", "f", "g", "h", "i", "j", "k", "l", "m", "n", "o", "p", "q", "r", "s",
    "tttttttttttttttttttt"]

theorem run_overfull : Run 19 (overfull.map (Call.put · ())).reverse
    (overfull.foldl (·.putOldest · ()) (empty 19)) := by
  have hstart : Run 19 [] (empty 19 : Cache Unit) := .start
  simpa using hstart.putOldest overfull

/-- The long text brings the cache over its limit of nineteen bytes.  A text of one byte that is
put next takes the place of one, and no run with texts of up to twenty bytes gets beyond four
hundred. -/
theorem size_bounds_overfull :
    let calls := (overfull.map (Call.put · ())).reverse
    let c := overfull.foldl (·.putOldest · ()) (empty 19 : Cache Unit)
    Run 19 calls c ∧ c.size = 39 ∧ (c.putOldest "v" ()).size ≤ 39 ∧
      longestPut calls * (19 + 19 / 10) = 400 ∧ 19 / 10 * c.size ≤ 400 := by
  have hrun := run_overfull
  have hnext := hrun.size_bounds.1 _ "v" () (.refl _) (by decide +kernel) (.inr (by decide +kernel))
  have hlong := hrun.size_bounds.2.2.1 (by decide +kernel)
  have hbound : longestPut (overfull.map (Call.put · ())).reverse * (19 + 19 / 10) = 400 := by
    decide +kernel
  refine ⟨hrun, by decide +kernel, hnext.trans (by decide +kernel), hbound, ?_⟩
  rwa [hbound] at hlong

/-- A text of one byte is also enough to be driven out for another long text, and then the size
exceeds the limit and the longest text. -/
theorem exceeds_overfull :
    ¬ ∀ (limit : Nat) (calls : List (Call Unit)) (c : Cache Unit), Run limit calls c →
      c.size ≤ limit + longestPut calls := by
  intro hbounded
  have hrun := run_overfull.put "uuuuuuuuuuuuuuuuuuuu" () (.refl _)
  exact absurd (hbounded 19 _ _ hrun) (by decide +kernel)

end Run
end Cache
end Pattern
end SeriesQuery
