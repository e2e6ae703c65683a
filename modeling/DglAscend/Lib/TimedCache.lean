import Mathlib.Data.List.AList
import Mathlib.Data.List.MinMax
import Mathlib.Tactic

/-!
# Least recently used eviction under a budget

A cache maps keys to values with the time of their last use and their bytes.  While the bytes
exceed a budget the entry with the smallest time goes.  When the times are those of a clock that
ticks with every use, the entry that goes is the one whose last use in the history of all uses is
the oldest.
-/

namespace DglAscend

/-- A cached value. -/
structure Timed (V : Type) where
  value : V
  lastUsed : ℕ
  bytes : ℕ

/-- A cache, keyed by `K`. -/
abbrev TimedMap (K V : Type) := AList fun _ : K => Timed V

/-- An eviction: the entries before it, the victim and the byte counter before it. -/
structure Eviction (K V : Type) where
  resident : TimedMap K V
  victim : K
  counter : ℕ

/-- The last of the `uses` of `k` is number `n`. -/
def LastUse {K : Type} (uses : List K) (k : K) (n : ℕ) : Prop :=
  uses[n]? = some k ∧ ∀ j, n < j → uses[j]? ≠ some k

namespace LastUse

variable {K : Type} {uses : List K} {k k' : K} {n : ℕ}

lemma lt_length (h : LastUse uses k n) : n < uses.length :=
  (List.getElem?_eq_some_iff.1 h.1).1

lemma unique (h : LastUse uses k n) (h' : LastUse uses k' n) : k = k' :=
  Option.some.inj (h.1.symm.trans h'.1)

/-- A use of `k` is its last use from then on. -/
lemma push_self : LastUse (uses ++ [k]) k uses.length := by
  refine ⟨by simp, fun j hj => ?_⟩
  rw [List.getElem?_eq_none (by simpa using hj)]
  exact Option.some_ne_none k |>.symm

/-- A use of another key leaves the last use of `k` as it was. -/
lemma push (h : LastUse uses k n) (hne : k ≠ k') : LastUse (uses ++ [k']) k n := by
  refine ⟨by rw [List.getElem?_append_left h.lt_length, h.1], fun j hj => ?_⟩
  by_cases hlt : j < uses.length
  · rw [List.getElem?_append_left hlt]
    exact h.2 j hj
  · rw [List.getElem?_append_right (by omega)]
    intro heq
    have hmem := List.mem_of_getElem? heq
    exact hne (List.mem_singleton.1 hmem)

end LastUse

namespace TimedMap

variable {K V : Type} [DecidableEq K] {m : TimedMap K V} {k k' : K} {t t' : Timed V}
  {budget fuel counter : ℕ}

/-- The bytes of all entries. -/
def bytes (m : TimedMap K V) : ℕ := (m.entries.map fun e => e.2.bytes).sum

/-- While the counter exceeds the budget, the entry with the smallest time goes.  Returns the
cache, the counter and the evictions. -/
def evictLoop (budget : ℕ) :
    ℕ → TimedMap K V → ℕ → TimedMap K V × ℕ × List (Eviction K V)
  | 0, m, counter => (m, counter, [])
  | fuel + 1, m, counter =>
    if budget < counter then
      match m.entries.argmin fun e => e.2.lastUsed with
      | none => (m, counter, [])
      | some v =>
        let r := evictLoop budget fuel (m.erase v.1) (counter - v.2.bytes)
        (r.1, r.2.1, ⟨m, v.1, counter⟩ :: r.2.2)
    else (m, counter, [])

lemma entries_perm (h : m.lookup k = some t) : m.entries.Perm (⟨k, t⟩ :: (m.erase k).entries) := by
  have hk : k ∈ m.entries.keys := AList.mem_keys.1 (AList.lookup_isSome.1 (by rw [h]; rfl))
  obtain ⟨t', l₁, l₂, -, heq, herase⟩ := List.exists_of_kerase hk
  have ht : t' = t := by
    have hmem : (⟨k, t'⟩ : Sigma fun _ : K => Timed V) ∈ m.entries := by
      rw [heq]
      exact List.mem_append_right _ List.mem_cons_self
    have hlook : m.lookup k = some t' := (List.mem_dlookup_iff m.nodupKeys).2 hmem
    exact Option.some.inj (hlook.symm.trans h)
  rw [show (m.erase k).entries = l₁ ++ l₂ from herase, heq, ht]
  exact List.perm_middle

lemma bytes_erase (h : m.lookup k = some t) : bytes m = t.bytes + bytes (m.erase k) := by
  rw [bytes, bytes, ((entries_perm h).map _).sum_eq, List.map_cons, List.sum_cons]

lemma length_erase (h : m.lookup k = some t) :
    m.entries.length = (m.erase k).entries.length + 1 := by
  rw [(entries_perm h).length_eq, List.length_cons]

lemma lookup_of_erase (h : (m.erase k').lookup k = some t) : m.lookup k = some t := by
  by_cases hk : k = k'
  · rw [hk, AList.lookup_erase] at h
    exact absurd h (Option.some_ne_none t).symm
  · rwa [AList.lookup_erase_ne hk] at h

/-- The entry that goes has the smallest time. -/
lemma lookup_of_argmin {v : Sigma fun _ : K => Timed V}
    (h : (m.entries.argmin fun e => e.2.lastUsed) = some v) : m.lookup v.1 = some v.2 ∧
      ∀ k t, m.lookup k = some t → v.2.lastUsed ≤ t.lastUsed := by
  refine ⟨(List.mem_dlookup_iff m.nodupKeys).2 (List.argmin_mem h), fun k t ht => ?_⟩
  exact List.le_of_mem_argmin (f := fun e : Sigma fun _ : K => Timed V => e.2.lastUsed)
    ((List.mem_dlookup_iff m.nodupKeys).1 ht) h

/-- What an eviction is: the counter holds the bytes of the entries, exceeds the budget, and the
victim has the smallest time. -/
structure Evicted (budget : ℕ) (m : TimedMap K V) (e : Eviction K V) : Prop where
  counter_eq : e.counter = bytes e.resident
  exceeds : budget < e.counter
  victim : ∃ t, e.resident.lookup e.victim = some t ∧
    ∀ k t', e.resident.lookup k = some t' → t.lastUsed ≤ t'.lastUsed
  resident : ∀ k t, e.resident.lookup k = some t → m.lookup k = some t

/-- **The eviction loop** ends within the budget, with the bytes of what is left on the counter. -/
theorem evictLoop_spec (budget : ℕ) (hfuel : m.entries.length ≤ fuel) (hcounter : counter = bytes m) :
    (evictLoop budget fuel m counter).2.1 = bytes (evictLoop budget fuel m counter).1 ∧
      (evictLoop budget fuel m counter).2.1 ≤ budget ∧
      (∀ k t, (evictLoop budget fuel m counter).1.lookup k = some t → m.lookup k = some t) ∧
      ∀ e ∈ (evictLoop budget fuel m counter).2.2, Evicted budget m e := by
  induction fuel generalizing m counter with
  | zero =>
      have hnil : m.entries = [] := List.length_eq_zero_iff.1 (Nat.le_zero.1 hfuel)
      have hzero : bytes m = 0 := by rw [bytes, hnil, List.map_nil, List.sum_nil]
      simp [evictLoop, hcounter, hzero]
  | succ fuel ih =>
      by_cases hover : budget < counter
      · cases hv : m.entries.argmin fun e => e.2.lastUsed with
        | none =>
            have hzero : bytes m = 0 := by
              rw [bytes, List.argmin_eq_none.1 hv, List.map_nil, List.sum_nil]
            omega
        | some v =>
            obtain ⟨hlook, hmin⟩ := lookup_of_argmin hv
            have hlen := length_erase hlook
            have hsum := bytes_erase hlook
            obtain ⟨h1, h2, h3, h4⟩ := ih (by omega : (m.erase v.1).entries.length ≤ fuel)
              (by omega : counter - v.2.bytes = bytes (m.erase v.1))
            simp only [evictLoop, if_pos hover, hv]
            refine ⟨h1, h2, fun k t ht => lookup_of_erase (h3 k t ht), fun e he => ?_⟩
            rcases List.mem_cons.1 he with rfl | he
            · exact ⟨hcounter, hover, ⟨v.2, hlook, hmin⟩, fun _ _ ht => ht⟩
            · obtain ⟨hc, hx, hvict, hres⟩ := h4 e he
              exact ⟨hc, hx, hvict, fun k t ht => lookup_of_erase (hres k t ht)⟩
      · simp only [evictLoop, if_neg hover]
        exact ⟨hcounter, Nat.not_lt.1 hover, fun _ _ ht => ht, by simp⟩

/-! ## The history of all uses -/

/-- The times of the entries are the numbers of their last uses, counted from one on. -/
def Timely (uses : List K) (m : TimedMap K V) : Prop :=
  ∀ k t, m.lookup k = some t → ∃ n, t.lastUsed = n + 1 ∧ LastUse uses k n

/-- A use of `k` stamps its entry with the next time. -/
lemma Timely.insert {uses : List K} (h : Timely uses m) (ht : t.lastUsed = uses.length + 1) :
    Timely (uses ++ [k]) (m.insert k t) := by
  intro k' t' ht'
  by_cases hk : k' = k
  · subst hk
    rw [AList.lookup_insert] at ht'
    obtain rfl := Option.some.inj ht'
    exact ⟨uses.length, ht, LastUse.push_self⟩
  · rw [AList.lookup_insert_ne hk] at ht'
    obtain ⟨n, hn, hlast⟩ := h k' t' ht'
    exact ⟨n, hn, hlast.push hk⟩

lemma Timely.push {uses : List K} (h : Timely uses m) (hk : k ∉ m) : Timely (uses ++ [k]) m := by
  intro k' t' ht'
  obtain ⟨n, hn, hlast⟩ := h k' t' ht'
  refine ⟨n, hn, hlast.push ?_⟩
  rintro rfl
  exact hk (AList.lookup_isSome.1 (by rw [ht']; rfl))

/-- **The victim is the least recently used entry.** -/
theorem Evicted.leastRecentlyUsed {uses : List K} {e : Eviction K V} (h : Evicted budget m e)
    (htimely : Timely uses m) : ∃ n, LastUse uses e.victim n ∧
      ∀ k ∈ e.resident, k ≠ e.victim → ∃ j, n < j ∧ LastUse uses k j := by
  obtain ⟨t, ht, hmin⟩ := h.victim
  obtain ⟨n, hn, hlast⟩ := htimely _ t (h.resident _ t ht)
  refine ⟨n, hlast, fun k hk hne => ?_⟩
  obtain ⟨t', ht'⟩ := Option.isSome_iff_exists.1 (AList.lookup_isSome.2 hk)
  obtain ⟨j, hj, hlast'⟩ := htimely k t' (h.resident k t' ht')
  have hle := hmin k t' ht'
  refine ⟨j, lt_of_le_of_ne (by omega) ?_, hlast'⟩
  rintro rfl
  exact hne (hlast'.unique hlast)

end TimedMap

end DglAscend
