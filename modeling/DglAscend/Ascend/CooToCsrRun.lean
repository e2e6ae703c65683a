import DglAscend.Ascend.CooToCsrCache

/-!
# Cached conversions return what an uncached conversion returns

A run allocates, releases and writes arrays, forks, and converts matrices.  An array may be written
until a conversion has used it, and again once its memory was given to a new array.  Every entry of
the cache then stays the conversion of its own input, since the input and the result are pinned.
-/

namespace DglAscend.Ascend

variable {B : Type}

/-- The entry of `coo` with the result `csr`. -/
def CooToCsrCacheValue.ofMatrix (coo : CooMatrix) (csr : CsrMatrix) : CooToCsrCacheValue :=
  ⟨csr, coo.row, coo.col, if coo.hasData then some coo.data else none⟩

lemma CooToCsrCacheValue.regions_ofMatrix (coo : CooMatrix) (csr : CsrMatrix) :
    (CooToCsrCacheValue.ofMatrix coo csr).regions = csr.regions ++ coo.regions := by
  by_cases h : coo.hasData <;> simp [ofMatrix, regions, CooMatrix.regions, h]

/-- **The key pins the input.**  Matrices with one key are read alike. -/
theorem CooMatrix.input_of_cacheKey {coo coo' : CooMatrix} (h : coo.cacheKey = coo'.cacheKey)
    (m : Memory B) : coo.input m = coo'.input m := by
  simp only [cacheKey, CooToCsrCacheKey.mk.injEq] at h
  obtain ⟨hdev, hrow, hcol, hdata, hrows, hcols, hnnz, hbits, hhas, hrs, hcs⟩ := h
  have hroweq : coo.row = coo'.row := by
    cases hr : coo.row
    cases hr' : coo'.row
    simp_all
  have hcoleq : coo.col = coo'.col := coo.col_like.eq coo'.col_like hroweq hcol
  by_cases hd : coo.hasData
  · have hd' : coo'.hasData := hhas ▸ hd
    rw [if_pos hd, if_pos hd'] at hdata
    have hdateq : coo.data = coo'.data :=
      (coo.data_like (by simpa [hasData] using hd)).eq
        (coo'.data_like (by simpa [hasData] using hd')) hroweq (Option.some.inj hdata)
    simp [input, hroweq, hcoleq, hd, hd', hdateq, hrows, hcols, hrs, hcs]
  · have hd' : ¬coo'.hasData := hhas ▸ hd
    simp [input, hroweq, hcoleq, hd, hd', hrows, hcols, hrs, hcs]

namespace CooToCsrCache

variable {convert : CooInput B → Except String (CsrContents B)} {m m' : Memory B}
  {used used' : Set Address} {calls : List CooToCsrCacheKey} {c : CooToCsrCache} {pid : ℤ}
  {coo : CooMatrix} {csr : CsrMatrix} {k : CooToCsrCacheKey}

/-- The books of the cache: the bytes are within the budget, and the clock and the times of the
entries are those of the stamped calls so far. -/
structure Accounted (calls : List CooToCsrCacheKey) (c : CooToCsrCache) : Prop where
  bounded : TimedMap.bytes c.map ≤ kCacheBudgetBytes
  timely : TimedMap.Timely calls c.map
  clock_eq : c.clock = calls.length + 1

/-- Every entry is the conversion of its own input as it stands in memory, and its arrays are in
use. -/
structure Current (convert : CooInput B → Except String (CsrContents B)) (m : Memory B)
    (used : Set Address) (c : CooToCsrCache) : Prop where
  valid : ∀ k t, c.map.lookup k = some t → ∃ coo csr, CooMatrix.cacheKey coo = k ∧
    t.value = .ofMatrix coo csr ∧ convert (coo.input m) = .ok (csr.contents m)
  pinned_used : addressesOf c.pinned ⊆ used

variable {t : Timed CooToCsrCacheValue}

lemma mem_pinned (h : c.map.lookup k = some t) {r : Region} (hr : r ∈ t.value.regions) :
    r ∈ c.pinned :=
  List.mem_flatMap.2 ⟨⟨k, t⟩, (List.mem_dlookup_iff c.map.nodupKeys).1 h, hr⟩

lemma exists_of_mem_pinned {r : Region} (hr : r ∈ c.pinned) :
    ∃ k t, c.map.lookup k = some t ∧ r ∈ t.value.regions := by
  obtain ⟨e, he, hr⟩ := List.mem_flatMap.1 hr
  exact ⟨e.1, e.2, (List.mem_dlookup_iff c.map.nodupKeys).2 he, hr⟩

/-- Entries stay current while the memory that they pin stays as it is. -/
lemma Current.congr (h : Current convert m used c) (hm : Set.EqOn m' m (addressesOf c.pinned))
    (hused : addressesOf c.pinned ⊆ used') : Current convert m' used' c := by
  refine ⟨fun k t ht => ?_, hused⟩
  obtain ⟨coo, csr, hkey, hval, hconv⟩ := h.valid k t ht
  have hsub : addressesOf (csr.regions ++ coo.regions) ⊆ addressesOf c.pinned := by
    refine addressesOf_subset fun r hr => mem_pinned ht ?_
    rwa [hval, CooToCsrCacheValue.regions_ofMatrix]
  have hin : coo.input m' = coo.input m := CooMatrix.input_congr fun a ha =>
    hm (hsub (addressesOf_subset (List.subset_append_right _ _) ha))
  have hout : csr.contents m' = csr.contents m := CsrMatrix.contents_congr fun a ha =>
    hm (hsub (addressesOf_subset (List.subset_append_left _ _) ha))
  exact ⟨coo, csr, hkey, hval, by rw [hin, hconv, hout]⟩

lemma Current.of_lookup {c' : CooToCsrCache} (h : Current convert m used c)
    (hsub : ∀ k t, c'.map.lookup k = some t → c.map.lookup k = some t) :
    Current convert m used c' := by
  refine ⟨fun k t ht => h.valid k t (hsub k t ht), ?_⟩
  refine subset_trans (addressesOf_subset fun r hr => ?_) h.pinned_used
  obtain ⟨k, t, ht, hr⟩ := exists_of_mem_pinned hr
  exact mem_pinned (hsub k t ht) hr

/-! ## Forks -/

@[simp] lemma owner_resetCacheIfForked : (c.resetCacheIfForked pid).owner = pid := by
  unfold resetCacheIfForked
  by_cases h : c.owner = pid
  · rw [if_neg (not_not.2 h), h]
  · rw [if_pos h]

lemma resetCacheIfForked_self (h : c.owner = pid) : c.resetCacheIfForked pid = c := by
  rw [resetCacheIfForked, if_neg (not_not.2 h)]

lemma Accounted.resetCacheIfForked (h : Accounted calls c) :
    Accounted calls (c.resetCacheIfForked pid) := by
  unfold CooToCsrCache.resetCacheIfForked
  by_cases hown : c.owner = pid
  · rwa [if_neg (not_not.2 hown)]
  · rw [if_pos hown]
    exact ⟨Nat.zero_le _, fun k t ht => by simp at ht, h.clock_eq⟩

/-- The entries that a forked process inherits are dropped. -/
lemma Current.resetCacheIfForked (h : c.owner = pid → Current convert m used c) :
    Current convert m used (c.resetCacheIfForked pid) := by
  unfold CooToCsrCache.resetCacheIfForked
  by_cases hown : c.owner = pid
  · rw [if_neg (not_not.2 hown)]
    exact h hown
  · rw [if_pos hown]
    exact ⟨fun k t ht => by simp at ht, by simp [pinned, addressesOf]⟩

/-! ## Lookups -/

/-- A lookup stamps what it finds, and changes nothing if it finds nothing. -/
lemma lookup_cases (pid : ℤ) (k : CooToCsrCacheKey) (c : CooToCsrCache) :
    (∃ t, (c.resetCacheIfForked pid).map.lookup k = some t ∧
      c.lookup pid k = (some t.value.csr,
        { (c.resetCacheIfForked pid).nextCacheClock with
          map := (c.resetCacheIfForked pid).map.insert k
            { t with lastUsed := (c.resetCacheIfForked pid).clock } })) ∨
    ((c.resetCacheIfForked pid).map.lookup k = none ∧
      c.lookup pid k = (none, c.resetCacheIfForked pid)) := by
  cases h : (c.resetCacheIfForked pid).map.lookup k with
  | some t => exact .inl ⟨t, rfl, by simp only [lookup, h]⟩
  | none => exact .inr ⟨rfl, by simp only [lookup, h]⟩

lemma Accounted.stamp (h : Accounted calls c) (ht : c.map.lookup k = some t) :
    Accounted (calls ++ [k]) { c.nextCacheClock with
      map := c.map.insert k { t with lastUsed := c.clock } } := by
  refine ⟨?_, h.timely.insert h.clock_eq, ?_⟩
  · have hbytes := TimedMap.bytes_erase ht
    have hins : TimedMap.bytes (c.map.insert k { t with lastUsed := c.clock }) =
        t.bytes + TimedMap.bytes (c.map.erase k) := by
      rw [TimedMap.bytes, AList.entries_insert, List.map_cons, List.sum_cons]
      rfl
    simp only [hins, ← hbytes]
    exact h.bounded
  · simp [nextCacheClock, h.clock_eq]

/-- An entry that was stamped is as current as before. -/
lemma Current.stamp (h : Current convert m used c) (ht : c.map.lookup k = some t) (n : ℕ)
    {c' : CooToCsrCache} (hmap : c'.map = c.map.insert k { t with lastUsed := n }) :
    Current convert m used c' := by
  have hlook (k' : CooToCsrCacheKey) (t' : Timed CooToCsrCacheValue)
      (ht' : c'.map.lookup k' = some t') :
      ∃ t'', c.map.lookup k' = some t'' ∧ t'.value = t''.value := by
    rw [hmap] at ht'
    by_cases hk : k' = k
    · subst hk
      rw [AList.lookup_insert] at ht'
      exact ⟨t, ht, by rw [← Option.some.inj ht']⟩
    · rw [AList.lookup_insert_ne hk] at ht'
      exact ⟨t', ht', rfl⟩
  refine ⟨fun k' t' ht' => ?_, ?_⟩
  · obtain ⟨t'', ht'', hval⟩ := hlook k' t' ht'
    rw [hval]
    exact h.valid k' t'' ht''
  · refine subset_trans (addressesOf_subset fun r hr => ?_) h.pinned_used
    obtain ⟨k', t', ht', hr⟩ := exists_of_mem_pinned hr
    obtain ⟨t'', ht'', hval⟩ := hlook k' t' ht'
    exact mem_pinned ht'' (hval ▸ hr)

/-! ## Insertions -/

/-- What an insertion reports: the counter is the sum over the entries and within the budget, and
every entry that went was the least recently used one of those that were there. -/
structure Reported (calls : List CooToCsrCacheKey) (c : CooToCsrCache) (ins : Insertion) :
    Prop where
  counter_eq : ins.counter = TimedMap.bytes c.map
  bounded : ins.counter ≤ kCacheBudgetBytes
  evictions : ∀ e ∈ ins.evictions, e.counter = TimedMap.bytes e.resident ∧
    ∃ n, LastUse calls e.victim n ∧
      ∀ k ∈ e.resident, k ≠ e.victim → ∃ j, n < j ∧ LastUse calls k j

/-- The eviction leaves a cache that fits the budget. -/
lemma evictCacheLocked_spec (ht : TimedMap.Timely calls c.map) (hclock : c.clock = calls.length + 1) :
    Accounted calls (evictCacheLocked kCacheBudgetBytes c).1 ∧
      Reported calls (evictCacheLocked kCacheBudgetBytes c).1
        (evictCacheLocked kCacheBudgetBytes c).2 ∧
      ∀ k t, (evictCacheLocked kCacheBudgetBytes c).1.map.lookup k = some t →
        c.map.lookup k = some t := by
  obtain ⟨hcount, hle, hsub, hev⟩ := TimedMap.evictLoop_spec kCacheBudgetBytes
    (le_refl c.map.entries.length) rfl
  refine ⟨⟨hcount ▸ hle, fun k t h => ht k t (hsub k t h), hclock⟩, ⟨hcount, hle, ?_⟩, hsub⟩
  intro e he
  exact ⟨(hev e he).counter_eq, (hev e he).leastRecentlyUsed ht⟩

/-- **An insertion** keeps the books and the entries. -/
theorem insert_spec (hacc : Accounted calls c) (hcur : Current convert m used c)
    (hown : c.owner = pid) (hmiss : c.map.lookup coo.cacheKey = none)
    (hconv : convert (coo.input m) = .ok (csr.contents m))
    (hused : addressesOf (csr.regions ++ coo.regions) ⊆ used) :
    Accounted (calls ++ [coo.cacheKey]) (c.insert pid coo csr).1 ∧
      Current convert m used (c.insert pid coo csr).1 ∧ (c.insert pid coo csr).1.owner = pid ∧
      ∀ ins ∈ (c.insert pid coo csr).2,
        Reported (calls ++ [coo.cacheKey]) (c.insert pid coo csr).1 ins := by
  have hnot : coo.cacheKey ∉ c.map := AList.lookup_eq_none.1 hmiss
  unfold insert
  by_cases hfit : estimateEntryBytes coo csr ≤ kCacheBudgetBytes
  · -- Nobody has inserted the matrix since the lookup.
    simp only [if_pos hfit, resetCacheIfForked_self (c := c.nextCacheClock) hown,
      show c.nextCacheClock.map = c.map from rfl, hmiss]
    generalize hc' : ({ c.nextCacheClock with map := _ } : CooToCsrCache) = c'
    have hmap : c'.map = c.map.insert coo.cacheKey
        ⟨.ofMatrix coo csr, c.clock, estimateEntryBytes coo csr⟩ := by
      rw [← hc']
      rfl
    have htimely : TimedMap.Timely (calls ++ [coo.cacheKey]) c'.map := by
      rw [hmap]
      exact hacc.timely.insert hacc.clock_eq
    have hclock : c'.clock = (calls ++ [coo.cacheKey]).length + 1 := by
      rw [← hc']
      simp [nextCacheClock, hacc.clock_eq]
    obtain ⟨hacc', hrep, hsub⟩ := evictCacheLocked_spec htimely hclock
    refine ⟨hacc', ?_, ?_, fun ins hins => ?_⟩
    · refine Current.of_lookup ⟨fun k t ht => ?_, ?_⟩ hsub
      · rw [hmap] at ht
        by_cases hk : k = coo.cacheKey
        · subst hk
          rw [AList.lookup_insert] at ht
          exact ⟨coo, csr, rfl, by rw [← Option.some.inj ht], hconv⟩
        · rw [AList.lookup_insert_ne hk] at ht
          exact hcur.valid k t ht
      · rintro a ⟨r, hr, ha⟩
        obtain ⟨k, t, ht, hr⟩ := exists_of_mem_pinned hr
        rw [hmap] at ht
        by_cases hk : k = coo.cacheKey
        · subst hk
          rw [AList.lookup_insert] at ht
          rw [← Option.some.inj ht, CooToCsrCacheValue.regions_ofMatrix] at hr
          exact hused ⟨r, hr, ha⟩
        · rw [AList.lookup_insert_ne hk] at ht
          exact hcur.pinned_used ⟨r, mem_pinned ht hr, ha⟩
    · rw [evictCacheLocked, ← hc']
      exact hown
    · obtain rfl := Option.some.inj hins
      exact hrep
  · rw [if_neg hfit]
    refine ⟨⟨hacc.bounded, hacc.timely.push hnot, ?_⟩, ⟨hcur.valid, hcur.pinned_used⟩, hown,
      fun ins hins => absurd hins (Option.not_mem_none ins)⟩
    simp [nextCacheClock, hacc.clock_eq]

end CooToCsrCache

/-! ## Runs -/

/-- What `COOToCSRCountingSort` does: it returns what `convert` makes of its input, in new arrays,
and touches nothing that somebody holds. -/
structure Converts (convert : CooInput B → Except String (CsrContents B)) (pinned : List Region)
    (coo : CooMatrix) (h : Heap B) (r : Except String CsrMatrix × Heap B) : Prop where
  frame : Set.EqOn r.2.memory h.memory (addressesOf (h.arrays ++ pinned))
  result : r.1.map (CsrMatrix.contents r.2.memory) = convert (coo.input h.memory)
  arrays_eq : r.2.arrays = (r.1.toOption.map CsrMatrix.regions).getD [] ++ h.arrays
  fresh : ∀ csr, r.1 = .ok csr → Disjoint (addressesOf csr.regions) (addressesOf (h.arrays ++ pinned))

/-- A process that converts matrices.  `used` are the addresses of arrays that a conversion has
read or written and whose memory was not given to a new array since; `calls` are the keys of the
conversions that went through the cache and returned, in order. -/
structure World (B : Type) where
  heap : Heap B
  cache : CooToCsrCache
  pid : ℤ
  used : Set Address
  calls : List CooToCsrCacheKey

namespace World

variable {convert : CooInput B → Except String (CsrContents B)} {disabled : Bool} {w w' : World B}
  {coo : CooMatrix} {r : Except String CsrMatrix} {ins : Option Insertion}

/-- A call of `COOToCSR` on a matrix whose arrays the process holds: `r` is what it returns and
`ins` what the insertion reports. -/
structure Call (convert : CooInput B → Except String (CsrContents B)) (disabled : Bool)
    (w : World B) (coo : CooMatrix) (r : Except String CsrMatrix) (ins : Option Insertion)
    (w' : World B) : Prop where
  held : coo.regions ⊆ w.heap.arrays
  run : ∃ countingSort,
    Converts convert (w.cache.lookup w.pid coo.cacheKey).2.pinned coo w.heap
      (countingSort coo w.heap) ∧
    cooToCsr countingSort disabled w.pid coo w.cache w.heap = (r, ins, w'.cache, w'.heap)
  pid_eq : w'.pid = w.pid
  used_eq : w'.used = w.used ∪
    addressesOf ((r.toOption.map CsrMatrix.regions).getD [] ++ coo.regions)
  calls_eq : w'.calls = if r.toOption.isSome ∧ ¬disabled then w.calls ++ [coo.cacheKey]
    else w.calls

/-- A step of the process. -/
inductive Step (convert : CooInput B → Except String (CsrContents B)) (disabled : Bool) :
    World B → World B → Prop
  /-- The process uses its arrays. -/
  | heap {w : World B} {h' : Heap B} {used' : Set Address}
      (hstep : w.heap.Step w.cache.pinned w.used h' used') :
      Step convert disabled w { w with heap := h', used := used' }
  /-- A forked process inherits the cache, but no device memory. -/
  | fork {w : World B} (pid : ℤ) (hpid : pid ≠ w.cache.owner) (h' : Heap B) (used' : Set Address) :
      Step convert disabled w { w with pid := pid, heap := h', used := used' }
  | call {w w' : World B} {coo : CooMatrix} {r : Except String CsrMatrix} {ins : Option Insertion}
      (hcall : w.Call convert disabled coo r ins w') : Step convert disabled w w'

/-- The worlds of a run that starts with an empty cache. -/
inductive Reachable (convert : CooInput B → Except String (CsrContents B)) (disabled : Bool) :
    World B → Prop
  | init (h : Heap B) (pid : ℤ) : Reachable convert disabled ⟨h, .init, pid, ∅, []⟩
  | step {w w' : World B} (h : Reachable convert disabled w) (hstep : Step convert disabled w w') :
      Reachable convert disabled w'

/-- The invariant of a run. -/
structure Inv (convert : CooInput B → Except String (CsrContents B)) (disabled : Bool)
    (w : World B) : Prop where
  accounted : w.cache.Accounted w.calls
  current : w.cache.owner = w.pid → w.cache.Current convert w.heap.memory w.used
  disabled : disabled = true → w.cache.map = ∅

lemma init_inv (h : Heap B) (pid : ℤ) : Inv convert disabled ⟨h, .init, pid, ∅, []⟩ := by
  refine ⟨⟨Nat.zero_le _, fun k t ht => ?_, rfl⟩, fun _ => ⟨fun k t ht => ?_, ?_⟩, fun _ => rfl⟩
  · simp [CooToCsrCache.init] at ht
  · simp [CooToCsrCache.init] at ht
  · simp [CooToCsrCache.init, CooToCsrCache.pinned, addressesOf]

variable {pinned : List Region}

/-- The arrays of the argument are pinned by the caller. -/
lemma Call.frame_regions {h : Heap B} {m : Memory B} (hheld : coo.regions ⊆ h.arrays)
    (hframe : Set.EqOn m h.memory (addressesOf (h.arrays ++ pinned))) :
    coo.input m = coo.input h.memory :=
  CooMatrix.input_congr fun _ ha =>
    hframe (addressesOf_subset (fun _ hr => List.mem_append_left _ (hheld hr)) ha)

/-- **One call** returns what an uncached conversion of its input returns, keeps the invariant and
reports its insertion. -/
theorem Call.spec (hinv : w.Inv convert disabled) (hcall : w.Call convert disabled coo r ins w') :
    r.map (CsrMatrix.contents w'.heap.memory) = convert (coo.input w.heap.memory) ∧
      w'.Inv convert disabled ∧ ∀ i ∈ ins, w'.cache.Reported w'.calls i := by
  obtain ⟨hheld, ⟨countingSort, hconv, hrun⟩, hpid, hused, hcalls⟩ := hcall
  obtain ⟨hacc, hcur, hdis⟩ := hinv
  unfold cooToCsr at hrun
  by_cases hd : disabled = true
  · -- Without the cache every call is a conversion.
    rw [if_pos hd, Prod.mk.injEq, Prod.mk.injEq, Prod.mk.injEq] at hrun
    obtain ⟨hr, hins, hcache, hheap⟩ := hrun
    have hempty := hdis hd
    refine ⟨?_, ⟨?_, fun _ => ⟨fun k t ht => ?_, ?_⟩, fun _ => hcache ▸ hempty⟩, ?_⟩
    · rw [← hr, ← hheap, hconv.result]
    · rw [← hcache, hcalls, if_neg fun h => h.2 hd]
      exact hacc
    · rw [← hcache, hempty] at ht
      simp at ht
    · rw [← hcache, CooToCsrCache.pinned, hempty]
      simp [addressesOf]
    · rw [← hins]
      exact fun i hi => absurd hi (Option.not_mem_none i)
  · rw [if_neg hd] at hrun
    have hacc' : (w.cache.resetCacheIfForked w.pid).Accounted w.calls := hacc.resetCacheIfForked
    have hcur' := CooToCsrCache.Current.resetCacheIfForked hcur
    have hown : (w.cache.resetCacheIfForked w.pid).owner = w.pid :=
      CooToCsrCache.owner_resetCacheIfForked
    have hdisabled : disabled = true → w'.cache.map = ∅ := fun h => absurd h hd
    rcases CooToCsrCache.lookup_cases w.pid coo.cacheKey w.cache with
      ⟨t, ht, hlook⟩ | ⟨hmiss, hlook⟩
    · -- A hit: the entry was made from a matrix that reads like this one.
      rw [hlook] at hrun
      simp only [Prod.mk.injEq] at hrun
      obtain ⟨rfl, rfl, hcache, hheap⟩ := hrun
      obtain ⟨coo', csr, hkey, hval, hconv'⟩ := hcur'.valid _ t ht
      have hmem : w'.heap.memory = w.heap.memory := by rw [← hheap]
      refine ⟨?_, ⟨?_, fun _ => ?_, hdisabled⟩, fun i hi => absurd hi (Option.not_mem_none i)⟩
      · rw [hmem, hval, ← CooMatrix.input_of_cacheKey hkey, hconv']
        rfl
      · rw [← hcache, hcalls, if_pos ⟨rfl, hd⟩]
        exact hacc'.stamp ht
      · rw [hmem, ← hcache]
        refine CooToCsrCache.Current.stamp ⟨hcur'.valid, ?_⟩ ht _ rfl
        exact hcur'.pinned_used.trans (hused ▸ Set.subset_union_left)
    · rw [hlook] at hrun hconv
      simp only at hrun hconv
      generalize hrun' : countingSort coo w.heap = res at hrun hconv
      obtain ⟨r₀, h₀⟩ := res
      obtain ⟨hframe, hresult, -, -⟩ := hconv
      have hinput := Call.frame_regions hheld hframe
      have hkeep : (w.cache.resetCacheIfForked w.pid).Current convert h₀.memory w'.used := by
        refine hcur'.congr (fun a ha => hframe ?_) (hcur'.pinned_used.trans ?_)
        · exact addressesOf_subset (List.subset_append_right _ _) ha
        · exact hused ▸ Set.subset_union_left
      cases r₀ with
      | error e =>
          simp only [Prod.mk.injEq] at hrun
          obtain ⟨rfl, rfl, hcache, rfl⟩ := hrun
          refine ⟨hresult, ⟨?_, fun _ => hcache ▸ hkeep, hdisabled⟩,
            fun i hi => absurd hi (Option.not_mem_none i)⟩
          rw [← hcache, hcalls, if_neg fun h => by simp [Except.toOption] at h]
          exact hacc'
      | ok csr =>
          simp only [Prod.mk.injEq] at hrun
          obtain ⟨rfl, rfl, hcache, rfl⟩ := hrun
          have hconv' : convert (coo.input w'.heap.memory) = .ok (csr.contents w'.heap.memory) := by
            rw [hinput, ← hresult]
            rfl
          obtain ⟨h1, h2, -, h4⟩ := CooToCsrCache.insert_spec hacc' hkeep hown hmiss hconv'
            (hused ▸ Set.subset_union_right)
          have hstamp : w'.calls = w.calls ++ [coo.cacheKey] := by
            rw [hcalls, if_pos ⟨rfl, hd⟩]
          rw [hcache, ← hstamp] at h1 h4
          rw [hcache] at h2
          exact ⟨hresult, ⟨h1, fun _ => h2, hdisabled⟩, h4⟩

lemma Step.inv (hinv : w.Inv convert disabled) (hstep : Step convert disabled w w') :
    w'.Inv convert disabled := by
  cases hstep with
  | heap hstep =>
      refine ⟨hinv.accounted, fun hown => ?_, hinv.disabled⟩
      obtain ⟨hmem, hused⟩ := hstep.keeps (hinv.current hown).pinned_used
      exact (hinv.current hown).congr hmem hused
  | fork pid hpid h' used' =>
      exact ⟨hinv.accounted, fun hown => absurd hown.symm hpid, hinv.disabled⟩
  | call hcall => exact (hcall.spec hinv).2.1

/-- **The invariant holds in every run.** -/
theorem Reachable.inv (h : Reachable convert disabled w) : w.Inv convert disabled := by
  induction h with
  | init h pid => exact init_inv h pid
  | step _ hstep ih => exact hstep.inv ih

/-- **The cache is transparent and bounded.**  In every run of allocations, releases, writes to
arrays that no conversion has used, forks and conversions, a conversion returns what an uncached
conversion of its own input returns; the entries never account for more than the budget; and after
an insertion the byte counter is the sum over the entries that are left, was the sum over those
that were there before each eviction, and each victim was last used before all others. -/
theorem cooToCsr_transparent_and_bounded (hw : Reachable convert disabled w)
    (hcall : w.Call convert disabled coo r ins w') :
    r.map (CsrMatrix.contents w'.heap.memory) = convert (coo.input w.heap.memory) ∧
      TimedMap.bytes w'.cache.map ≤ kCacheBudgetBytes ∧
      ∀ i ∈ ins, i.counter = TimedMap.bytes w'.cache.map ∧ i.counter ≤ kCacheBudgetBytes ∧
        ∀ e ∈ i.evictions, e.counter = TimedMap.bytes e.resident ∧
          ∃ n, LastUse w'.calls e.victim n ∧
            ∀ k ∈ e.resident, k ≠ e.victim → ∃ j, n < j ∧ LastUse w'.calls k j := by
  obtain ⟨hres, hinv, hrep⟩ := hcall.spec hw.inv
  refine ⟨hres, hinv.accounted.bounded, fun i hi => ?_⟩
  obtain ⟨hcount, hle, hev⟩ := hrep i hi
  exact ⟨hcount, hle, hev⟩

/-! ## One edge, converted twice -/

/-- The matrix of one edge from node 0 to node 0, at address 0. -/
def oneEdge : CooMatrix where
  numRows := 1
  numCols := 1
  row := ⟨0, 0, 1, 32⟩
  col := ⟨0, 4, 1, 32⟩
  data := ⟨0, 0, 0, 32⟩
  rowSorted := false
  colSorted := false
  col_like := ⟨rfl, rfl, rfl⟩
  data_like := by simp

/-- Its conversion, at address `p`. -/
def oneEdgeCsr (p : ℕ) : CsrMatrix where
  numRows := 1
  numCols := 1
  indptr := ⟨0, p, 2, 32⟩
  indices := ⟨0, p + 8, 1, 32⟩
  data := ⟨0, p + 12, 1, 32⟩
  sorted := false

/-- What the conversion of the edge says. -/
def oneEdgeConvert (_ : CooInput ℕ) : Except String (CsrContents ℕ) :=
  .ok ⟨1, 1, [0, 0, 0, 0, 1, 0, 0, 0], [0, 0, 0, 0], [0, 0, 0, 0], false⟩

/-- A conversion that allocates from address `p` on. -/
def oneEdgeCountingSort (p : ℕ) (_ : CooMatrix) (h : Heap ℕ) :
    Except String CsrMatrix × Heap ℕ :=
  (.ok (oneEdgeCsr p),
    { memory := fun a => if a = (0, p + 4) then 1 else if p ≤ a.2 then 0 else h.memory a
      arrays := (oneEdgeCsr p).regions ++ h.arrays })

/-- A process that holds the edge. -/
def oneEdgeInit : World ℕ := ⟨⟨fun _ => 0, oneEdge.regions⟩, .init, 1, ∅, []⟩

/-- The process after it has converted the edge, which returned the matrix at `q`. -/
def convertOneEdge (p q : ℕ) (w : World ℕ) : World ℕ where
  heap := (cooToCsr (oneEdgeCountingSort p) false w.pid oneEdge w.cache w.heap).2.2.2
  cache := (cooToCsr (oneEdgeCountingSort p) false w.pid oneEdge w.cache w.heap).2.2.1
  pid := w.pid
  used := w.used ∪ addressesOf ((oneEdgeCsr q).regions ++ oneEdge.regions)
  calls := w.calls ++ [oneEdge.cacheKey]

lemma converts_oneEdge {p : ℕ} {h : Heap ℕ}
    (hfree : ∀ a ∈ addressesOf (h.arrays ++ pinned), a.2 < p)
    (hres : (oneEdgeCountingSort p oneEdge h).1.map
      (CsrMatrix.contents (oneEdgeCountingSort p oneEdge h).2.memory) =
        oneEdgeConvert (oneEdge.input h.memory)) :
    Converts oneEdgeConvert pinned oneEdge h (oneEdgeCountingSort p oneEdge h) := by
  refine ⟨fun a ha => ?_, hres, rfl, ?_⟩
  · have hlt := hfree a ha
    have hne : a ≠ (0, p + 4) := by
      rintro rfl
      simp at hlt
    simp only [oneEdgeCountingSort, if_neg hne, if_neg (Nat.not_le.2 hlt)]
  · intro csr hcsr
    obtain rfl := Except.ok.inj hcsr
    refine Set.disjoint_left.2 ?_
    rintro a ⟨r, hr, -, hle, -⟩ ha
    have hlt := hfree a ha
    have hp : p ≤ r.ptr := by
      simp only [oneEdgeCsr, CsrMatrix.regions, List.mem_cons, List.not_mem_nil, or_false] at hr
      rcases hr with rfl | rfl | rfl <;> simp [IdArray.region]
    omega

/-- The arrays in use end before `p`. -/
lemma lt_of_mem_addressesOf {rs : List Region} {p : ℕ} (h : ∀ r ∈ rs, r.ptr + r.bytes ≤ p) :
    ∀ a ∈ addressesOf rs, a.2 < p := by
  rintro a ⟨r, hr, -, -, hlt⟩
  exact hlt.trans_le (h r hr)

/-- The second conversion of the edge is found in the cache. -/
theorem cooToCsr_transparent_and_bounded_oneEdge :
    (Except.ok (oneEdgeCsr 8)).map (CsrMatrix.contents
        (convertOneEdge 24 8 (convertOneEdge 8 8 oneEdgeInit)).heap.memory) =
      oneEdgeConvert (oneEdge.input (convertOneEdge 8 8 oneEdgeInit).heap.memory) := by
  have hfirst : oneEdgeInit.Call oneEdgeConvert false oneEdge (.ok (oneEdgeCsr 8))
      (some ⟨24, []⟩) (convertOneEdge 8 8 oneEdgeInit) :=
    ⟨by decide, ⟨oneEdgeCountingSort 8,
      converts_oneEdge (lt_of_mem_addressesOf (by decide)) (by decide), rfl⟩, rfl, rfl, rfl⟩
  have hsecond : (convertOneEdge 8 8 oneEdgeInit).Call oneEdgeConvert false oneEdge
      (.ok (oneEdgeCsr 8)) none (convertOneEdge 24 8 (convertOneEdge 8 8 oneEdgeInit)) :=
    ⟨by decide, ⟨oneEdgeCountingSort 24,
      converts_oneEdge (lt_of_mem_addressesOf (by decide)) (by decide), rfl⟩, rfl, rfl, rfl⟩
  exact (cooToCsr_transparent_and_bounded (.step (.init _ 1) (.call hfirst)) hsecond).1

end World

end DglAscend.Ascend
