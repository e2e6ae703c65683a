import DglAscend.Graphbolt.Cache.FeatureCache
import DglAscend.Graphbolt.Cache.ReferenceCount
import Mathlib.Data.List.ReduceOption

/-!
# The rows of a feature cache

`Rows` ties the storage of a feature cache to its policies: with the pins `P` and the writes `W`
of each policy outstanding, the counts are balanced, and every row that nobody is writing holds
the value of its key.  This file says what each part of a cached read does to it.
-/

namespace DglAscend.Graphbolt

open PolicyQueues

/-- The id of a key to which `offset` has been added. -/
def idOf (offset key : ℤ) : ℤ := (key - offset).bmod (2 ^ 64)

variable {ks : List ℤ}

lemma idOf_addOffset {keys : KeyTensor} {offset : ℤ}
    (h : addOffset keys.ty keys.keys offset = .ok ks) {i : ℕ} (hi : i < keys.keys.length) :
    idOf offset (ks.getD i 0) = keys.keys.getD i 0 := by
  have hmem : keys.keys[i] ∈ keys.keys := List.getElem_mem hi
  have hrange := keys.inRange _ hmem
  have h64 : -2 ^ 63 ≤ keys.keys[i] ∧ keys.keys[i] < 2 ^ 63 := by
    cases hty : keys.ty with
    | int32 => rw [hty, IndexType.InRange] at hrange; omega
    | int64 => rwa [hty] at hrange
  have hself : keys.keys[i].bmod (2 ^ 64) = keys.keys[i] :=
    Int.bmod_eq_of_le (by norm_num at h64 ⊢; omega) (by norm_num at h64 ⊢; omega)
  rw [List.getD_eq_getElem _ _ hi]
  unfold addOffset at h
  split at h
  · rename_i h0
    obtain rfl := Except.ok.inj h
    rw [List.getD_eq_getElem _ _ hi, idOf, h0, sub_zero, hself]
  · cases hty : keys.ty with
    | int32 =>
        rw [hty] at h
        simp only at h
        split at h
        · obtain rfl := Except.ok.inj h
          rw [List.getD_eq_getElem _ _ (by simpa), List.getElem_map, idOf, add_sub_cancel_right,
            hself]
        · simp at h
    | int64 =>
        rw [hty] at h
        obtain rfl := Except.ok.inj h
        rw [List.getD_eq_getElem _ _ (by simpa), List.getElem_map, idOf, Int.bmod_sub_bmod,
          add_sub_cancel_right, hself]

/-- The keys that policies are given fit in 64 bits. -/
lemma addOffset_range {keys : KeyTensor} {offset : ℤ}
    (h : addOffset keys.ty keys.keys offset = .ok ks) : ∀ k ∈ ks, IndexType.int64.InRange k := by
  have hrange : ∀ k ∈ keys.keys, IndexType.int64.InRange k := by
    intro k hk
    have := keys.inRange k hk
    cases hty : keys.ty with
    | int32 =>
        rw [hty] at this
        simp only [IndexType.InRange] at this ⊢
        omega
    | int64 => rwa [hty] at this
  unfold addOffset at h
  split at h
  · obtain rfl := Except.ok.inj h
    exact hrange
  · cases hty : keys.ty with
    | int32 =>
        rw [hty] at h
        simp only at h
        split at h
        · rename_i hall
          obtain rfl := Except.ok.inj h
          intro k hk
          obtain ⟨k₀, hk₀, rfl⟩ := List.mem_map.1 hk
          have := hall k₀ hk₀
          simp only [IndexType.InRange] at this ⊢
          omega
        · simp at h
    | int64 =>
        rw [hty] at h
        obtain rfl := Except.ok.inj h
        intro k hk
        obtain ⟨k₀, -, rfl⟩ := List.mem_map.1 hk
        have h1 := @Int.le_bmod (k₀ + offset) (2 ^ 64) (by norm_num)
        have h2 := @Int.bmod_lt (k₀ + offset) (2 ^ 64) (by norm_num)
        rw [IndexType.InRange]
        norm_num at h1 h2 ⊢
        omega

lemma eq_of_idOf_eq (offset : ℤ) {k k' : ℤ} (hk : IndexType.int64.InRange k)
    (hk' : IndexType.int64.InRange k') (h : idOf offset k = idOf offset k') : k = k' := by
  rw [IndexType.InRange] at hk hk'
  simp only [idOf, Int.bmod] at h
  norm_num at h hk hk'
  omega

namespace CachePolicy

variable {Q : Type} [PolicyQueues Q] [LawfulQueues Q]

lemma completed_comes {s s' : CachePolicy Q} {write : Bool} {ps : List (Option ℕ)}
    (h : readingWritingCompletedImpl write ps s = .ok () s') {e' : SlotEntry ℤ}
    (he' : e' ∈ s'.directory.resident) :
    ∃ e ∈ s.directory.resident, e.addr = e'.addr ∧ e.key = e'.key ∧ e.slot = e'.slot := by
  revert e'
  refine Outcome.loop_invariant (P := fun _ _ t => ∀ {e' : SlotEntry ℤ},
    e' ∈ t.directory.resident → ∃ e ∈ s.directory.resident,
      e.addr = e'.addr ∧ e.key = e'.key ∧ e.slot = e'.slot) h (fun he => ⟨_, he, rfl, rfl, rfl⟩) ?_
  intro _ p _ _ t _ t' _ ih hrun e' he'
  cases p with
  | none => exact ih ((endUse_none hrun).1 ▸ he')
  | some b =>
      rw [endUse_some hrun, directory_addReference] at he'
      obtain ⟨e₀, he₀, rfl⟩ := Directory.mem_repin.1 he'
      obtain ⟨e, he, ha, hk, hs⟩ := ih he₀
      exact ⟨e, he, by simpa using ha, by simpa using hk, by simpa using hs⟩

end CachePolicy

namespace PartitionedCachePolicy

variable {kind : PolicyKind} {s s' : PartitionedCachePolicy kind}

/-- Every policy takes a step. -/
structure StepAll (s s' : PartitionedCachePolicy kind) : Prop where
  capacity_eq : s'.capacity = s.capacity
  numParts_eq : s'.numParts = s.numParts
  step : ∀ (p : ℕ) (t t' : CachePolicy kind.Queues), s.policies[p]? = some t →
    s'.policies[p]? = some t' → t.Step t'

lemma stepAll_of_onPolicies {β : Type} {call : ℕ → CachePolicy kind.Queues →
    Outcome CacheError (CachePolicy kind.Queues) β} {bs : List β}
    (hcall : ∀ p t b t', call p t = .ok b t' → t.Step t')
    (h : s.onPolicies call = .ok bs s') : s.StepAll s' := by
  obtain ⟨hcap, hbs, hparts, hpoint⟩ := onPolicies_eq_ok.1 h
  refine ⟨hcap, hparts, fun p t t' ht ht' => ?_⟩
  have hp : p < bs.length := by
    rw [hbs]
    exact (List.getElem?_eq_some_iff.1 ht).1
  exact hcall p _ _ _ (hpoint p _ _ _ ht (List.getElem?_eq_getElem hp) ht')

lemma StepAll.positionOffset_eq (h : s.StepAll s') (p : ℕ) :
    s'.positionOffset p = s.positionOffset p := by
  unfold positionOffset
  rw [h.capacity_eq, h.numParts_eq]

variable {p q : ℕ}

lemma StepAll.exists_after (h : s.StepAll s') {t : CachePolicy kind.Queues}
    (ht : s.policies[p]? = some t) : ∃ t', s'.policies[p]? = some t' := by
  have hp : p < s.numParts := (List.getElem?_eq_some_iff.1 ht).1
  have hp' : p < s'.policies.length := hp.trans_eq h.numParts_eq.symm
  exact ⟨_, List.getElem?_eq_getElem hp'⟩

lemma StepAll.exists_before (h : s.StepAll s') {t' : CachePolicy kind.Queues}
    (ht' : s'.policies[p]? = some t') : ∃ t, s.policies[p]? = some t := by
  have hp : p < s'.numParts := (List.getElem?_eq_some_iff.1 ht').1
  have hp' : p < s.policies.length := hp.trans_eq h.numParts_eq
  exact ⟨_, List.getElem?_eq_getElem hp'⟩

/-! ## Cells and their entries -/

/-- The pointer of the cell is `a`, the address of an entry of policy `p` that has the key and
the position of the cell. -/
def Points (s : PartitionedCachePolicy kind) (p : ℕ) (c : BatchCell) (a : ℕ) : Prop :=
  c.pointer = some a ∧ ∃ t e, s.policies[p]? = some t ∧ e ∈ t.directory.resident ∧ e.addr = a ∧
    e.key = c.key ∧ c.position = e.slot + s.positionOffset p

/-- The cell names no row. -/
def Skipped (c : BatchCell) : Prop := c.pointer = none ∧ c.position < 0

variable {c d : BatchCell} {a b : ℕ}

lemma Points.stays (h : s.Points p c a) (hs : s.Inv) {P W : Multiset ℕ}
    (hb : ∀ t, s.policies[p]? = some t → t.directory.Balanced P W) (ha : a ∈ P + W)
    (hst : s.StepAll s') : s'.Points p c a := by
  obtain ⟨hptr, t, e, ht, he, hea, hkey, hpos⟩ := h
  obtain ⟨t', ht'⟩ := hst.exists_after ht
  have hpins : e.pins ≠ 0 := by
    intro h0
    have hnot := ((hb t ht).pins_eq_zero_iff he).1 h0
    rw [hea] at hnot
    rcases Multiset.mem_add.1 ha with hmem | hmem
    · exact hnot.1 hmem
    · exact hnot.2 hmem
  obtain ⟨e', he', ha', hk', hs'⟩ := (hst.step p t t' ht ht').stays (hs.policy p t ht).1 he hpins
  exact ⟨hptr, t', e', ht', he', ha'.trans hea, hk'.trans hkey, by
    rw [hs', hst.positionOffset_eq, hpos]⟩

lemma Points.lt (h : s.Points p c a) : p < s.numParts := by
  obtain ⟨-, t, e, ht, -⟩ := h
  exact (List.getElem?_eq_some_iff.1 ht).1

/-- A cell that points to an entry has a position in the storage. -/
lemma Points.position_range (h : s.Points p c a) (hs : s.Inv) :
    0 ≤ c.position ∧ c.position < s.capacity := by
  obtain ⟨-, t, e, ht, he, -, -, hpos⟩ := h
  rw [hpos]
  exact hs.position_lt_capacity ht he

/-- The pointers to the entries of policy `p` that a batch found. -/
def pinsOf (cs : List PartCells) (p : ℕ) : Multiset ℕ :=
  pointersOf ((cs.getD p ⟨[], []⟩).found.map BatchCell.pointer)

/-- The pointers to the entries of policy `p` that a batch made. -/
def reservationsOf (cs : List PartCells) (p : ℕ) : Multiset ℕ :=
  pointersOf ((cs.getD p ⟨[], []⟩).missed.map BatchCell.pointer)

lemma mem_pointersOf {l : List (Option ℕ)} : a ∈ pointersOf l ↔ some a ∈ l := by
  rw [pointersOf, Multiset.mem_coe, List.reduceOption_mem_iff]

section Looked

variable {ks : List ℤ} {groups : List (List ℕ)} {ls : List Trace} {l : Trace}

lemma cells_getD (hl : ls[p]? = some l) :
    (s.cells ls).getD p ⟨[], []⟩ = ⟨l.found.map (BatchCell.shift (s.positionOffset p)),
      l.missed.reverse.map (BatchCell.shift (s.positionOffset p))⟩ := by
  rw [List.getD_eq_getElem?_getD, cells, List.getElem?_mapIdx, hl, Option.map_some,
    Option.getD_some]

lemma pinsOf_cells (hl : ls[p]? = some l) : pinsOf (s.cells ls) p = pinnedBy l.accesses := by
  rw [pinsOf, cells_getD hl, ← Trace.pointersOf_found]
  simp only [List.map_map]
  rfl

lemma reservationsOf_cells (hl : ls[p]? = some l) :
    reservationsOf (s.cells ls) p = reservedBy l.accesses := by
  rw [reservationsOf, cells_getD hl, ← Trace.pointersOf_missed, ← pointersOf_reverse]
  simp only [List.map_map, ← List.map_reverse, List.reverse_reverse]
  rfl

/-- The cells that a batch found point to their entries. -/
lemma LookedAll.points_found (hs : s.Inv) (h : s.LookedAll ks groups ls s')
    (hc : c ∈ ((s.cells ls).getD p ⟨[], []⟩).found) :
    ∃ a ∈ pinsOf (s.cells ls) p, s'.Points p c a := by
  by_cases hp : p < ls.length
  · have hl := List.getElem?_eq_getElem hp
    obtain ⟨g, t', -, ht', hall⟩ := h.leaves hs hl
    have hmem := hc
    rw [cells_getD hl] at hc
    obtain ⟨c₀, hc₀, rfl⟩ := List.mem_map.1 hc
    obtain ⟨x, hx, rfl⟩ := List.mem_map.1 hc₀
    obtain ⟨hx, hhit⟩ := List.mem_filter.1 hx
    obtain ⟨k, r⟩ := x
    cases r with
    | hit a q =>
        obtain ⟨e, he, hea, hkey, hslot, -⟩ := (hall _ hx).2.2
        refine ⟨a, ?_, rfl, t', e, ht', he, hea, hkey, ?_⟩
        · exact mem_pointersOf.2 (List.mem_map.2 ⟨_, hmem, rfl⟩)
        · have hoff : s'.positionOffset p = s.positionOffset p := by
            unfold positionOffset
            rw [h.capacity_eq, h.numParts_eq]
          rw [hoff, hslot]
          rfl
    | busy => simp [Access.isHit] at hhit
    | absent => simp [Access.isHit] at hhit
    | admitted a q => simp [Access.isHit] at hhit
  · rw [List.getD_eq_default _ _ (by simpa [cells] using hp)] at hc
    simp at hc

/-- The other cells point to the entries that the batch made, or name no row. -/
lemma LookedAll.points_missed (hs : s.Inv) (h : s.LookedAll ks groups ls s')
    (hc : c ∈ ((s.cells ls).getD p ⟨[], []⟩).missed) :
    Skipped c ∨ ∃ a ∈ reservationsOf (s.cells ls) p, s'.Points p c a := by
  by_cases hp : p < ls.length
  · have hl := List.getElem?_eq_getElem hp
    obtain ⟨g, t', -, ht', hall⟩ := h.leaves hs hl
    have hmem := hc
    have hlt := positionOffset_lt hs (h.length_traces ▸ hp)
    rw [cells_getD hl] at hc
    obtain ⟨c₀, hc₀, rfl⟩ := List.mem_map.1 hc
    obtain ⟨x, hx, rfl⟩ := List.mem_map.1 (List.mem_reverse.1 hc₀)
    obtain ⟨hx, hhit⟩ := List.mem_filter.1 hx
    have hskip : int64Min + s.positionOffset p < 0 := by
      rw [int64Min]
      omega
    obtain ⟨k, r⟩ := x
    cases r with
    | hit a q => simp [Access.isHit] at hhit
    | busy => exact Or.inl ⟨rfl, hskip⟩
    | absent => exact Or.inl ⟨rfl, hskip⟩
    | admitted a q =>
        obtain ⟨e, he, hea, hkey, hslot, -⟩ := (hall _ hx).2.2
        refine Or.inr ⟨a, ?_, rfl, t', e, ht', he, hea, hkey, ?_⟩
        · exact mem_pointersOf.2 (List.mem_map.2 ⟨_, hmem, rfl⟩)
        · have hoff : s'.positionOffset p = s.positionOffset p := by
            unfold positionOffset
            rw [h.capacity_eq, h.numParts_eq]
          rw [hoff, hslot]
          rfl
  · rw [List.getD_eq_default _ _ (by simpa [cells] using hp)] at hc
    simp at hc

lemma replacedCells_getElem? (hl : ls[p]? = some l) :
    (s.replacedCells ls)[p]? = some (l.replaced.map (BatchCell.shift (s.positionOffset p))) := by
  rw [replacedCells, List.getElem?_mapIdx, hl, Option.map_some]

/-- The pointers that `Replace` returns for policy `p` are those of the entries that it made. -/
lemma pointersOf_replacedCells (hl : ls[p]? = some l) :
    pointersOf (((s.replacedCells ls).getD p []).map BatchCell.pointer) =
      reservationsOf (s.cells ls) p := by
  rw [reservationsOf_cells hl, List.getD_eq_getElem?_getD, replacedCells_getElem? hl,
    Option.getD_some, ← Trace.pointersOf_replaceResult, Trace.replaceResult_eq, List.map_map]
  rfl

lemma LookedAll.replacedCell_key (hs : s.Inv) (h : s.LookedAll ks groups ls s')
    (hl : ls[p]? = some l) (hc : c ∈ (s.replacedCells ls).getD p []) :
    c.key = ks.getD c.index 0 := by
  rw [List.getD_eq_getElem?_getD, replacedCells_getElem? hl, Option.getD_some] at hc
  obtain ⟨c₀, hc₀, rfl⟩ := List.mem_map.1 hc
  obtain ⟨x, hx, rfl⟩ := List.mem_map.1 hc₀
  obtain ⟨g, t', -, -, hall⟩ := h.leaves hs hl
  exact (hall x hx).2.1

/-- The cells of `Replace` point to the entries that it made, or name no row. -/
lemma LookedAll.points_replaced (hs : s.Inv) (h : s.LookedAll ks groups ls s')
    (hl : ls[p]? = some l) (hc : c ∈ (s.replacedCells ls).getD p []) :
    Skipped c ∨ ∃ a ∈ reservationsOf (s.cells ls) p, s'.Points p c a := by
  have hmem := hc
  rw [List.getD_eq_getElem?_getD, replacedCells_getElem? hl, Option.getD_some] at hc
  obtain ⟨c₀, hc₀, rfl⟩ := List.mem_map.1 hc
  obtain ⟨x, hx, rfl⟩ := List.mem_map.1 hc₀
  obtain ⟨g, t', -, ht', hall⟩ := h.leaves hs hl
  have hlt := positionOffset_lt hs (h.length_traces ▸ (List.getElem?_eq_some_iff.1 hl).1)
  have hskip : int64Min + s.positionOffset p < 0 := by
    rw [int64Min]
    omega
  obtain ⟨k, r⟩ := x
  cases r with
  | hit a q => exact Or.inl ⟨rfl, hskip⟩
  | busy => exact Or.inl ⟨rfl, hskip⟩
  | absent => exact Or.inl ⟨rfl, hskip⟩
  | admitted a q =>
      obtain ⟨e, he, hea, hkey, hslot, -⟩ := (hall _ hx).2.2
      refine Or.inr ⟨a, ?_, rfl, t', e, ht', he, hea, hkey, ?_⟩
      · rw [← pointersOf_replacedCells hl]
        exact mem_pointersOf.2 (List.mem_map.2 ⟨_, hmem, rfl⟩)
      · have hoff : s'.positionOffset p = s.positionOffset p := by
          unfold positionOffset
          rw [h.capacity_eq, h.numParts_eq]
        rw [hoff, hslot]
        rfl

end Looked

/-! ## The invariant -/

/-- **The rows are coherent** with the policies: `P` and `W` are the pins and the writes of each
policy that are outstanding, and `val` is the value of a key. -/
structure Rows {V : Type} (s : PartitionedCachePolicy kind) (tensor : List (Option V))
    (P W : ℕ → Multiset ℕ) (val : ℤ → V) : Prop where
  inv : s.Inv
  length_eq : tensor.length = s.capacity
  balanced : ∀ (p : ℕ) (t : CachePolicy kind.Queues), s.policies[p]? = some t →
    t.directory.Balanced (P p) (W p)
  coherent : ∀ (p : ℕ) (t : CachePolicy kind.Queues), s.policies[p]? = some t →
    t.directory.Coherent (W p) (fun x => (load tensor (x + s.positionOffset p)).join) val

section Rows

variable {V : Type} {tensor : List (Option V)} {P W R : ℕ → Multiset ℕ} {val : ℤ → V}

lemma resident_create {kind : PolicyKind} {size n : ℕ}
    {hsize : CpuFeatureCache.cacheSize kind size n < 2 ^ 63} {c : CpuFeatureCache kind V}
    (h : CpuFeatureCache.create kind size n hsize = .ok c) :
    create kind (CpuFeatureCache.cacheSize kind size n) hsize n = .ok c.policy ∧
      c.cache = .create (CpuFeatureCache.cacheSize kind size n) ∧
      ∀ (p : ℕ) (t : CachePolicy kind.Queues), c.policy.policies[p]? = some t →
        t.directory.resident = 0 := by
  unfold CpuFeatureCache.create at h
  cases hp : create kind (CpuFeatureCache.cacheSize kind size n) hsize n with
  | error e => rw [hp] at h; cases h
  | ok policy =>
      rw [hp] at h
      obtain rfl := Except.ok.inj h
      refine ⟨rfl, rfl, fun p t ht => ?_⟩
      obtain ⟨-, rfl⟩ := PolicyKind.create_eq_ok ((create_eq_ok hp).2.2.2 p t ht)
      simp [CachePolicy.create, CachePolicy.directory]

/-- A new cache: nothing is resident, and nothing outstanding. -/
lemma rows_create {kind : PolicyKind} {size n : ℕ}
    {hsize : CpuFeatureCache.cacheSize kind size n < 2 ^ 63} {c : CpuFeatureCache kind V}
    (h : CpuFeatureCache.create kind size n hsize = .ok c) (val : ℤ → V) :
    c.policy.Rows c.cache.tensor 0 0 val := by
  obtain ⟨hp, hcache, hres⟩ := resident_create h
  have hcap := (create_eq_ok hp).2.2.1
  refine ⟨(Reachable.create hp : Reachable twoPartDraws _ _ _ _).inv, ?_, fun p t ht => ?_,
    fun p t ht e he => ?_⟩
  · rw [hcap, hcache]
    exact List.length_replicate
  · exact ⟨by simp [hres p t ht], by simp, by simp, by simp⟩
  · rw [hres p t ht] at he
    simp at he

lemma Rows.congr {P' W' : ℕ → Multiset ℕ} (h : s.Rows tensor P W val)
    (hP : ∀ p < s.numParts, P p = P' p) (hW : ∀ p < s.numParts, W p = W' p) :
    s.Rows tensor P' W' val where
  inv := h.inv
  length_eq := h.length_eq
  balanced := by
    intro p t ht
    have hp : p < s.numParts := (List.getElem?_eq_some_iff.1 ht).1
    rw [← hP p hp, ← hW p hp]
    exact h.balanced p t ht
  coherent := by
    intro p t ht
    rw [← hW p (List.getElem?_eq_some_iff.1 ht).1]
    exact h.coherent p t ht

/-- The row of an entry that nobody is writing holds the value of its key. -/
lemma Rows.load_eq (h : s.Rows tensor P W val) (hc : s.Points p c a) (ha : a ∉ W p) :
    load tensor c.position = some (some (val c.key)) := by
  obtain ⟨-, t, e, ht, he, rfl, hkey, hpos⟩ := hc
  have hcoh := h.coherent p t ht e he ha
  rw [Option.join_eq_some_iff] at hcoh
  rw [hpos, ← hkey]
  exact hcoh

lemma Rows.stays (h : s.Rows tensor P W val) (hc : s.Points p c a) (ha : a ∈ P p + W p)
    (hst : s.StepAll s') : s'.Points p c a :=
  hc.stays h.inv (h.balanced p) ha hst

/-- **Lookups** pin what they find and reserve what they admit. -/
theorem Rows.looked {groups : List (List ℕ)} {ls : List Trace} (h : s.Rows tensor P W val)
    (hl : s.LookedAll ks groups ls s') : s'.Rows tensor (fun p => pinsOf (s.cells ls) p + P p)
      (fun p => reservationsOf (s.cells ls) p + W p) val where
  inv := hl.inv h.inv
  length_eq := by rw [h.length_eq, hl.capacity_eq]
  balanced := by
    intro p t' ht'
    obtain ⟨t, g, l, ht, -, hlp, hlook⟩ := hl.exists_before ht'
    rw [pinsOf_cells hlp, reservationsOf_cells hlp, add_comm _ (P p), add_comm _ (W p)]
    exact hlook.balanced (h.inv.policy p t ht).1 (h.balanced p t ht)
  coherent := by
    intro p t' ht'
    obtain ⟨t, g, l, ht, -, hlp, hlook⟩ := hl.exists_before ht'
    have hoff : s'.positionOffset p = s.positionOffset p := by
      unfold positionOffset
      rw [hl.capacity_eq, hl.numParts_eq]
    rw [reservationsOf_cells hlp, add_comm _ (W p), hoff]
    exact hlook.run.coherent (h.coherent p t ht)

/-! ## The completions -/

/-- The pointers that a completion gives to policy `p` of `n`. -/
def completedBy (n : ℕ) (pointers : List (Option ℕ)) (offsets : List ℤ) (p : ℕ) :
    List (Option ℕ) :=
  if n = 1 then pointers else nthSlice pointers offsets p

variable {pointers : List (Option ℕ)} {offsets : List ℤ}

/-- The policies of a completion, one by one. -/
lemma completed_policy {write : Bool}
    (h : s.readingWritingCompletedImpl write pointers offsets = .ok () s') :
    s.StepAll s' ∧ ∀ p t t', s.policies[p]? = some t → s'.policies[p]? = some t' →
      CachePolicy.readingWritingCompletedImpl write (completedBy s.numParts pointers offsets p) t =
        .ok () t' := by
  obtain ⟨bs, hrun⟩ := onPolicies_of_completed h
  refine ⟨stepAll_of_onPolicies (fun p t b t' hcall => ?_) hrun, fun p t t' ht ht' => ?_⟩
  · cases write with
    | false => exact .readingCompleted hcall
    | true => exact .writingCompleted hcall
  · obtain ⟨-, hbs, -, hpoint⟩ := onPolicies_eq_ok.1 hrun
    have hp : p < bs.length := by
      rw [hbs]
      exact (List.getElem?_eq_some_iff.1 ht).1
    exact hpoint p _ _ _ ht (List.getElem?_eq_getElem hp) ht'

lemma StepAll.inv (h : s.StepAll s') (hs : s.Inv) : s'.Inv := by
  refine ⟨by rw [h.numParts_eq]; exact hs.numParts_pos, fun p t' ht' => ?_⟩
  obtain ⟨t, ht⟩ := h.exists_before ht'
  obtain ⟨hinv, hcap⟩ := hs.policy p t ht
  have hstep := h.step p t t' ht ht'
  exact ⟨hstep.inv hinv, by rw [hstep.capacity_eq hinv, hcap, h.capacity_eq, h.numParts_eq]⟩

/-- A completed read hands its pins back. -/
theorem Rows.readingCompleted (h : s.Rows tensor (fun p => R p + P p) W val)
    (hR : ∀ p < s.numParts, pointersOf (completedBy s.numParts pointers offsets p) = R p)
    (hrun : s.readingCompleted pointers offsets = .ok () s') : s'.Rows tensor P W val := by
  obtain ⟨hst, hcall⟩ := completed_policy hrun
  refine ⟨hst.inv h.inv, by rw [h.length_eq, hst.capacity_eq], fun p t' ht' => ?_,
    fun p t' ht' => ?_⟩
  · obtain ⟨t, ht⟩ := hst.exists_before ht'
    have hb := h.balanced p t ht
    rw [← hR p (List.getElem?_eq_some_iff.1 ht).1] at hb
    exact CachePolicy.readingCompleted_balanced (h.inv.policy p t ht).1 hb (hcall p t t' ht ht')
  · obtain ⟨t, ht⟩ := hst.exists_before ht'
    intro e' he' hW
    obtain ⟨e, he, hea, hkey, hslot⟩ := CachePolicy.completed_comes (hcall p t t' ht ht') he'
    rw [hst.positionOffset_eq, ← hslot, ← hkey]
    exact h.coherent p t ht e he (hea.symm ▸ hW)

/-- A completed write publishes its rows, which have been filled. -/
theorem Rows.writingCompleted (h : s.Rows tensor P (fun p => R p + W p) val)
    (hR : ∀ p < s.numParts, pointersOf (completedBy s.numParts pointers offsets p) = R p)
    (hfilled : ∀ (p : ℕ) (t : CachePolicy kind.Queues) e, s.policies[p]? = some t →
      e ∈ t.directory.resident → e.addr ∈ R p → load tensor (e.slot + s.positionOffset p) = some (some (val e.key)))
    (hrun : s.writingCompleted pointers offsets = .ok () s') : s'.Rows tensor P W val := by
  obtain ⟨hst, hcall⟩ := completed_policy hrun
  refine ⟨hst.inv h.inv, by rw [h.length_eq, hst.capacity_eq], fun p t' ht' => ?_,
    fun p t' ht' => ?_⟩
  · obtain ⟨t, ht⟩ := hst.exists_before ht'
    have hb := h.balanced p t ht
    rw [← hR p (List.getElem?_eq_some_iff.1 ht).1] at hb
    exact CachePolicy.writingCompleted_balanced hb (hcall p t t' ht ht')
  · obtain ⟨t, ht⟩ := hst.exists_before ht'
    intro e' he' hW
    obtain ⟨e, he, hea, hkey, hslot⟩ := CachePolicy.completed_comes (hcall p t t' ht ht') he'
    rw [hst.positionOffset_eq, ← hslot, ← hkey]
    by_cases hmem : e.addr ∈ R p
    · exact congrArg Option.join (hfilled p t e ht he hmem)
    · refine h.coherent p t ht e he fun hsum => ?_
      rcases Multiset.mem_add.1 hsum with hr | hw
      · exact hmem hr
      · exact hW (hea ▸ hw)

/-! ## Filling rows -/

/-- Cells with one position belong to one entry. -/
lemma Points.eq_of_position (hs : s.Inv) (hc : s.Points p c a) (hd : s.Points q d b)
    (h : c.position = d.position) : p = q ∧ a = b ∧ c.key = d.key := by
  obtain ⟨-, t, e, ht, he, rfl, hkey, hpos⟩ := hc
  obtain ⟨-, u, f, hu, hf, rfl, hkey', hpos'⟩ := hd
  obtain ⟨rfl, rfl⟩ := hs.position_inj ht hu he hf (by rw [← hpos, ← hpos', h])
  exact ⟨rfl, rfl, hkey.symm.trans hkey'⟩

/-- **`Replace` fills rows that are being written** and leaves the others alone. -/
theorem Rows.replace_writes {cache : FeatureCache V} (h : s.Rows cache.tensor P W val)
    (ws : List (ℤ × V)) (hws : ∀ w ∈ ws, w.1 < 0 ∨
      ∃ p c, ∃ a ∈ W p, s.Points p c a ∧ w = (c.position, val c.key)) :
    ∃ cache', cache.replace (ws.map Prod.fst) (ws.map Prod.snd) = .ok cache' ∧
      s.Rows cache'.tensor P W val ∧
      (∀ w ∈ ws, 0 ≤ w.1 → load cache'.tensor w.1 = some (some w.2)) ∧
      ∀ i, (∀ w ∈ ws, w.1 ≠ i) → load cache'.tensor i = load cache.tensor i := by
  have hzip : (ws.map Prod.fst).zip (ws.map Prod.snd) = ws := by
    rw [List.zip_map', List.map_id']
  have hpoints : ∀ w ∈ ws, 0 ≤ w.1 →
      ∃ p c, ∃ a ∈ W p, s.Points p c a ∧ w = (c.position, val c.key) :=
    fun w hw h0 => (hws w hw).resolve_left (by omega)
  obtain ⟨rows, hrun, hst⟩ := exists_stored cache.tensor
    ((ws.filter fun w => 0 ≤ w.1).map fun w => (w.1, some w.2)) (by
      intro v hv
      obtain ⟨w, hw, rfl⟩ := List.mem_map.1 hv
      obtain ⟨hw, h0⟩ := List.mem_filter.1 hw
      obtain ⟨p, c, a, -, hpt, rfl⟩ := hpoints w hw (by simpa using h0)
      rw [h.length_eq]
      exact hpt.position_range h.inv)
  have hfilled : ∀ w ∈ ws, 0 ≤ w.1 → load rows w.1 = some (some w.2) := by
    intro w hw h0
    have hmem : (w.1, some w.2) ∈
        (ws.filter fun w => 0 ≤ w.1).map fun w => (w.1, some w.2) :=
      List.mem_map.2 ⟨w, List.mem_filter.2 ⟨hw, by simpa using h0⟩, rfl⟩
    refine hst.load_eq hmem fun v hv heq => ?_
    obtain ⟨w', hw', rfl⟩ := List.mem_map.1 hv
    obtain ⟨hw', h0'⟩ := List.mem_filter.1 hw'
    obtain ⟨p, c, a, -, hpt, rfl⟩ := hpoints w hw h0
    obtain ⟨q, d, b, -, hpt', rfl⟩ := hpoints w' hw' (by simpa using h0')
    simp only at heq ⊢
    rw [(hpt'.eq_of_position h.inv hpt heq).2.2]
  have hframe : ∀ i, (∀ w ∈ ws, w.1 ≠ i) → load rows i = load cache.tensor i := by
    intro i hi
    refine hst.frame i fun v hv => ?_
    obtain ⟨w, hw, rfl⟩ := List.mem_map.1 hv
    exact hi w (List.mem_of_mem_filter hw)
  refine ⟨⟨rows⟩, ?_, ⟨h.inv, by rw [← h.length_eq, hst.length_eq], h.balanced, ?_⟩, hfilled,
    hframe⟩
  · rw [FeatureCache.replace, if_pos (by simp), hzip, hrun]
    rfl
  · intro p t ht e he hW
    -- An entry that nobody is writing has another row than the writes, whose entries are written.
    have hother : ∀ w ∈ ws, w.1 ≠ e.slot + s.positionOffset p := by
      intro w hw heq
      have hrange := h.inv.position_lt_capacity ht he
      obtain ⟨q, c, a, ha, hpt, rfl⟩ := hpoints w hw (by omega)
      obtain ⟨rfl, rfl, -⟩ := hpt.eq_of_position h.inv
        (d := ⟨0, e.key, e.slot + s.positionOffset p, some e.addr⟩)
        ⟨rfl, t, e, ht, he, rfl, rfl, rfl⟩ heq
      exact hW ha
    exact (congrArg Option.join (hframe _ hother)).trans (h.coherent p t ht e he hW)

/-- The case of cells with the values of their keys. -/
theorem Rows.replace {cache : FeatureCache V} (h : s.Rows cache.tensor P W val)
    {cells : List BatchCell}
    (hcells : ∀ c ∈ cells, Skipped c ∨ ∃ p, ∃ a ∈ W p, s.Points p c a) :
    ∃ cache', cache.replace (cells.map BatchCell.position) (cells.map fun c => val c.key) =
        .ok cache' ∧ s.Rows cache'.tensor P W val ∧
      (∀ c ∈ cells, 0 ≤ c.position →
        load cache'.tensor c.position = some (some (val c.key))) ∧
      ∀ i, (∀ c ∈ cells, c.position ≠ i) → load cache'.tensor i = load cache.tensor i := by
  obtain ⟨cache', hrun, hrows, hfilled, hframe⟩ := h.replace_writes
    (cells.map fun c => (c.position, val c.key)) (by
      intro w hw
      obtain ⟨c, hc, rfl⟩ := List.mem_map.1 hw
      refine (hcells c hc).imp And.right ?_
      rintro ⟨p, a, ha, hpt⟩
      exact ⟨p, c, a, ha, hpt, rfl⟩)
  rw [List.map_map, List.map_map] at hrun
  refine ⟨cache', hrun, hrows, fun c hc h0 => ?_, fun i hi => hframe i fun w hw => ?_⟩
  · exact hfilled _ (List.mem_map.2 ⟨c, hc, rfl⟩) h0
  · obtain ⟨c, hc, rfl⟩ := List.mem_map.1 hw
    exact hi c hc

end Rows

end PartitionedCachePolicy

end DglAscend.Graphbolt
