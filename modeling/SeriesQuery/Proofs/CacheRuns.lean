import Mathlib
import SeriesQuery.Pattern.Cache

/-!
# What caches keep along their runs

`Run` is a sequence of calls of a cache from its beginning, with any order of eviction in each.  At
every point of a run the size is the total length of the texts that are stored, the counts are those
of the calls, and a value that is found is the one that was put last (`Run.accounts`).
-/

namespace SeriesQuery
namespace Pattern
namespace Cache

variable {α : Type} {c : Cache α} {key other : String} {value : α} {room : Nat}
  {order : List String}

/-! ## Runs -/

/-- A call of a cache; a value that was asked for comes with the answer. -/
inductive Call (α : Type) where
  | get (key : String) (answer : Option α)
  | put (key : String) (value : α)
  | clear

namespace Call

/-- A value was asked for. -/
def isGet : Call α → Bool
  | get _ _ => true
  | _ => false

/-- A value was asked for in vain. -/
def isMiss : Call α → Bool
  | get _ answer => answer.isNone
  | _ => false

end Call

/-- The value that was put last for the text; the latest call is the first. -/
def latestPut (key : String) : List (Call α) → Option α
  | [] => none
  | .put stored value :: calls => if stored == key then some value else latestPut key calls
  | _ :: calls => latestPut key calls

/-- The calls, the latest first, lead from an empty cache to this one.  Entries are driven out in
whatever order the texts are listed in. -/
inductive Run (limit : Nat) : List (Call α) → Cache α → Prop where
  | start : Run limit [] (empty limit)
  | get {calls : List (Call α)} {c : Cache α} (key : String) :
      Run limit calls c → Run limit (.get key (c.get key).1 :: calls) (c.get key).2
  | put {calls : List (Call α)} {c : Cache α} {order : List String} (key : String) (value : α) :
      Run limit calls c → order.Perm c.keys →
        Run limit (.put key value :: calls) (c.put order key value)
  | clear {calls : List (Call α)} {c : Cache α} :
      Run limit calls c → Run limit (.clear :: calls) c.clear

/-! ## Lookups -/

theorem find?_eq_none : c.find? key = none ↔ key ∉ c.keys := by
  simp only [find?, keys, Option.map_eq_none_iff, List.find?_eq_none, List.mem_map, beq_iff_eq]
  constructor
  · rintro h ⟨e, he, hkey⟩
    exact h e he hkey
  · intro h e he hkey
    exact h ⟨e, he, hkey⟩

theorem isSome_find? : (c.find? key).isSome ↔ key ∈ c.keys := by
  rw [← not_iff_not, ← find?_eq_none]
  simp

theorem find?_erase :
    (c.erase key).find? other = if other = key then none else c.find? other := by
  simp only [find?, erase, List.find?_filter]
  split
  · rename_i heq
    subst heq
    simp
  · rename_i hne
    congr 2
    funext e
    by_cases heq : e.1 = other <;> simp [heq, hne]

/-- An entry that is overwritten is found with its new value, and the others as before. -/
theorem find?_overwrite (entries : List (String × α)) :
    ((entries.map fun e => if e.1 == key then (key, value) else e).find? fun e => e.1 == other) =
      if other = key then (entries.find? fun e => e.1 == key).map fun _ => (key, value)
      else entries.find? fun e => e.1 == other := by
  induction entries with
  | nil => simp
  | cons e entries ih =>
      by_cases hother : other = key
      · subst hother
        by_cases hkey : e.1 = other <;> simp_all
      · by_cases hkey : e.1 = key
        · have hne : key ≠ other := fun heq => hother heq.symm
          simp_all
        · by_cases hfound : e.1 = other <;> simp_all

theorem find?_insert :
    (c.insert key value).find? other = if other = key then some value else c.find? other := by
  unfold insert
  split
  · rename_i hstored
    have hfound : (c.entries.find? fun e => e.1 == key).isSome := by simpa [find?] using hstored
    simp only [find?, find?_overwrite]
    split
    · rcases Option.isSome_iff_exists.1 hfound with ⟨e, he⟩
      simp [he]
    · rfl
  · rename_i hnew
    simp only [find?, List.find?_append]
    split
    · rename_i heq
      subst heq
      have hnone : (c.entries.find? fun e => e.1 == other) = none := by
        simpa only [find?, Option.isSome_map, Bool.not_eq_true, Option.isSome_eq_false_iff,
          Option.isNone_iff_eq_none] using hnew
      simp [hnone]
    · rename_i hne
      have hother : (key == other) = false := by simpa using fun heq => hne heq.symm
      simp [hother]

/-- What is found after entries are driven out was there before. -/
theorem find?_evict : (c.evict room order).find? other = none ∨
    (c.evict room order).find? other = c.find? other := by
  have herase : ∀ (c : Cache α) key, (c.erase key).find? other = none ∨
      (c.erase key).find? other = c.find? other := by
    intro c key
    rw [find?_erase]
    split
    · exact .inl rfl
    · exact .inr rfl
  induction order generalizing c room with
  | nil => exact .inr rfl
  | cons key order ih =>
      unfold evict
      split
      · exact herase c key
      · rcases @ih (c.erase key) (room - key.utf8ByteSize) with hnone | hsame
        · exact .inl hnone
        · rw [hsame]
          exact herase c key

/-! ## Size -/

/-- The texts differ, and the size is their total length. -/
structure Accounted (c : Cache α) : Prop where
  distinct : c.keys.Nodup
  size : c.size = (c.keys.map String.utf8ByteSize).sum

theorem keys_erase (h : c.keys.Nodup) : (c.erase key).keys = c.keys.erase key := by
  rw [h.erase_eq_filter]
  simp only [keys, erase, List.filter_map]
  rfl

/-- A stored text counts for its length. -/
theorem Accounted.size_erase (h : c.Accounted) (hkey : key ∈ c.keys) :
    key.utf8ByteSize + ((c.keys.erase key).map String.utf8ByteSize).sum = c.size := by
  rw [h.size, List.sum_map_erase _ hkey]

theorem Accounted.le_size (h : c.Accounted) (hkey : key ∈ c.keys) : key.utf8ByteSize ≤ c.size := by
  have hsum := h.size_erase hkey
  omega

theorem Accounted.erase (h : c.Accounted) (hkey : key ∈ c.keys) : (c.erase key).Accounted := by
  have hsum := h.size_erase hkey
  refine ⟨?_, ?_⟩
  · rw [keys_erase h.distinct]
    exact h.distinct.erase key
  · rw [keys_erase h.distinct]
    simp only [Cache.erase]
    omega

/-- Eviction that fails where a text is longer than the size that is left. -/
def evictChecked (c : Cache α) (room : Nat) : List String → Option (Cache α)
  | [] => some c
  | key :: rest =>
      if c.size < key.utf8ByteSize then none
      else if room ≤ key.utf8ByteSize then some (c.erase key)
      else (c.erase key).evictChecked (room - key.utf8ByteSize) rest

/-- Driving out stored texts, each once, keeps the account, and no text is longer than the size that
is left. -/
theorem Accounted.evict (h : c.Accounted) (hdistinct : order.Nodup)
    (hstored : ∀ key ∈ order, key ∈ c.keys) :
    (c.evict room order).Accounted ∧ c.evictChecked room order = some (c.evict room order) := by
  induction order generalizing c room with
  | nil => exact ⟨h, rfl⟩
  | cons key order ih =>
      have hkey := hstored key List.mem_cons_self
      have herase := h.erase hkey
      have hfits : ¬ c.size < key.utf8ByteSize := Nat.not_lt.2 (h.le_size hkey)
      unfold Cache.evict evictChecked
      rw [if_neg hfits]
      split
      · exact ⟨herase, rfl⟩
      · refine ih herase (List.nodup_cons.1 hdistinct).2 fun other hother => ?_
        have hne : other ≠ key := by
          rintro rfl
          exact (List.nodup_cons.1 hdistinct).1 hother
        rw [keys_erase h.distinct]
        exact (List.mem_erase_of_ne hne).2 (hstored other (List.mem_cons_of_mem key hother))

/-- A text that is put in stands among the texts once. -/
theorem keys_insert :
    (c.insert key value).keys = if key ∈ c.keys then c.keys else c.keys ++ [key] := by
  unfold Cache.insert
  simp only [isSome_find?]
  split
  · simp only [keys, List.map_map]
    refine List.map_congr_left fun e _ => ?_
    by_cases heq : e.1 = key <;> simp [heq]
  · simp [keys]

theorem size_insert :
    (c.insert key value).size = if key ∈ c.keys then c.size else c.size + key.utf8ByteSize := by
  unfold Cache.insert
  simp only [isSome_find?]
  split <;> rfl

theorem Accounted.insert (h : c.Accounted) : (c.insert key value).Accounted := by
  refine ⟨?_, ?_⟩
  · rw [keys_insert]
    split
    · exact h.distinct
    · rename_i hnew
      exact List.perm_append_comm.nodup_iff.1 (List.nodup_cons.2 ⟨hnew, h.distinct⟩)
  · rw [keys_insert, size_insert]
    split
    · exact h.size
    · simp [h.size]

/-- A put in any order of the texts keeps the account. -/
theorem Accounted.put (h : c.Accounted) (horder : order.Perm c.keys) :
    (c.put order key value).Accounted := by
  unfold Cache.put
  split
  · have hevict : (c.evict (c.limit / 10) order).Accounted :=
      (h.evict (horder.nodup_iff.2 h.distinct) fun key hkey => horder.mem_iff.1 hkey).1
    exact hevict.insert
  · exact h.insert

/-! ## Counts and values -/

/-- Puts change neither the limit nor the counts. -/
theorem put_counts : (c.put order key value).limit = c.limit ∧
    (c.put order key value).requests = c.requests ∧ (c.put order key value).misses = c.misses := by
  have hinsert : ∀ c : Cache α, (c.insert key value).limit = c.limit ∧
      (c.insert key value).requests = c.requests ∧ (c.insert key value).misses = c.misses := by
    intro c
    unfold insert
    split <;> exact ⟨rfl, rfl, rfl⟩
  have hevict : ∀ (order : List String) (c : Cache α) room, (c.evict room order).limit = c.limit ∧
      (c.evict room order).requests = c.requests ∧ (c.evict room order).misses = c.misses := by
    intro order
    induction order with
    | nil => exact fun c room => ⟨rfl, rfl, rfl⟩
    | cons key order ih =>
        intro c room
        unfold evict
        split
        · exact ⟨rfl, rfl, rfl⟩
        · exact ih (c.erase key) _
  unfold put
  split
  · rcases hinsert (c.evict (c.limit / 10) order) with ⟨hlimit, hrequests, hmisses⟩
    rcases hevict order c (c.limit / 10) with ⟨hlimit', hrequests', hmisses'⟩
    exact ⟨hlimit.trans hlimit', hrequests.trans hrequests', hmisses.trans hmisses'⟩
  · exact hinsert c

theorem find?_put_self : (c.put order key value).find? key = some value := by
  unfold put
  split <;> simp [find?_insert]

/-- Another text is found after a put as before, unless its entry was driven out. -/
theorem find?_put_ne (hne : other ≠ key) : (c.put order key value).find? other = none ∨
    (c.put order key value).find? other = c.find? other := by
  unfold put
  split
  · rw [find?_insert, if_neg hne]
    exact find?_evict
  · rw [find?_insert, if_neg hne]
    exact .inr rfl

/-- Within the limit no entry is driven out. -/
theorem find?_put_of_le (hfits : c.size ≤ c.limit) (hne : other ≠ key) :
    (c.put order key value).find? other = c.find? other := by
  unfold put
  rw [if_neg (Nat.not_lt.2 hfits), find?_insert, if_neg hne]

namespace Run

variable {limit : Nat} {calls : List (Call α)}

theorem limit_eq (h : Run limit calls c) : c.limit = limit := by
  induction h with
  | start => rfl
  | get key _ ih => exact ih
  | put key value _ _ ih => exact put_counts.1.trans ih
  | clear _ ih => exact ih

theorem accounted (h : Run limit calls c) : c.Accounted := by
  induction h with
  | start => exact ⟨List.nodup_nil, rfl⟩
  | get key _ ih => exact ⟨ih.distinct, ih.size⟩
  | put key value _ horder ih => exact ih.put horder
  | clear _ _ => exact ⟨List.nodup_nil, rfl⟩

theorem counts (h : Run limit calls c) :
    c.requests = calls.countP Call.isGet ∧ c.misses = calls.countP Call.isMiss := by
  induction h with
  | start => exact ⟨rfl, rfl⟩
  | @get calls c key _ ih =>
      refine ⟨by simp [Cache.get, Call.isGet, List.countP_cons, ih.1], ?_⟩
      cases hfound : c.find? key <;>
        simp [Cache.get, Call.isMiss, List.countP_cons, hfound, ih.2]
  | put key value _ _ ih =>
      rcases put_counts with ⟨-, hrequests, hmisses⟩
      simpa [Call.isGet, Call.isMiss] using ⟨hrequests.trans ih.1, hmisses.trans ih.2⟩
  | clear _ ih => exact ih

/-- What is found was put last. -/
theorem find?_latest (h : Run limit calls c) (key : String) :
    c.find? key = none ∨ c.find? key = latestPut key calls := by
  induction h with
  | start => exact .inl rfl
  | get _ _ ih => exact ih
  | put stored value _ _ ih =>
      by_cases heq : key = stored
      · subst heq
        exact .inr (by simp [find?_put_self, latestPut])
      · have hother : (stored == key) = false := by simpa using fun h => heq h.symm
        simp only [latestPut, hother]
        rcases find?_put_ne heq with hnone | hsame
        · exact .inl hnone
        · rw [hsame]
          exact ih
  | clear _ _ => exact .inl rfl

/-- The account of a cache at any point of a run, and what any further put does there: no text that
it drives out is longer than the size that is left, its value is found, and if the size is within
the limit then all other entries stay. -/
theorem accounts (h : Run limit calls c) :
    c.size = (c.keys.map String.utf8ByteSize).sum ∧
      c.requests = calls.countP Call.isGet ∧
      c.misses = calls.countP Call.isMiss ∧
      (∀ key, (c.get key).1 = none ∨ (c.get key).1 = latestPut key calls) ∧
      ∀ order key value, order.Perm c.keys →
        c.evictChecked (limit / 10) order = some (c.evict (limit / 10) order) ∧
        ((c.put order key value).get key).1 = some value ∧
        (c.size ≤ limit → ∀ other, other ≠ key →
          ((c.put order key value).get other).1 = (c.get other).1) := by
  refine ⟨h.accounted.size, h.counts.1, h.counts.2, h.find?_latest, ?_⟩
  intro order key value horder
  refine ⟨?_, find?_put_self, ?_⟩
  · exact (h.accounted.evict (horder.nodup_iff.2 h.accounted.distinct)
      fun key hkey => horder.mem_iff.1 hkey).2
  · intro hfits other hne
    exact find?_put_of_le (by rw [h.limit_eq]; exact hfits) hne

/-- Three texts bring a cache over a limit of ten bytes; the last of them, put within the limit,
leaves the others.  The next put is of the text that it drives out, which is stored anew. -/
theorem accounts_overfull :
    let put : Cache Nat → List String → String → Nat → Cache Nat := Cache.put
    let within := put (put (empty 10) [] "aaaa" 1) ["aaaa"] "bbbb" 2
    let full := put within ["bbbb", "aaaa"] "äcc" 3
    Run 10 [.put "äcc" 3, .put "bbbb" 2, .put "aaaa" 1] full ∧ full.size = 12 ∧
      (full.get "aaaa").1 = some 1 ∧
      ((put full ["bbbb", "äcc", "aaaa"] "bbbb" 4).get "bbbb").1 = some 4 := by
  have hstart : Run 10 [] (empty 10 : Cache Nat) := .start
  have hwithin := (hstart.put "aaaa" 1 .nil).put "bbbb" 2 (.refl ["aaaa"])
  have hfull := hwithin.put "äcc" 3 (.swap "aaaa" "bbbb" [])
  have hkept := (hwithin.accounts.2.2.2.2 _ "äcc" 3 (.swap "aaaa" "bbbb" [])).2.2 (by decide)
    "aaaa" (by decide)
  have hput := hfull.accounts.2.2.2.2 ["bbbb", "äcc", "aaaa"] "bbbb" 4 (by decide)
  exact ⟨hfull, hfull.accounts.1.trans (by decide), hkept.trans (by decide), hput.2.1⟩

end Run
end Cache
end Pattern
end SeriesQuery
