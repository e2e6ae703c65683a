import DglAscend.Graph.MappingTable
import DglAscend.Graphbolt.IdHashMapCover

/-!
# The block table of `to_block`

The hash table of `array/ascend/to_block_kernel.cpp`: the first kernel inserts the ids with a bound on
the number of probes, and the second one looks them up without one.  The capacity is computed on the host
(`graph/transform/ascend/to_block_ascend.cc`).  With every capacity that the host admits the bound is
large enough for a probe of every slot (`BlockTable.probesCover`).
-/

namespace DglAscend.Ascend

open Graphbolt

/-! ## The capacity -/

/-- `NextPow2` -/
def nextPow2 (x : ℕ) : ℕ :=
  let x := x - 1
  let x := x ||| x >>> 1
  let x := x ||| x >>> 2
  let x := x ||| x >>> 4
  let x := x ||| x >>> 8
  let x := x ||| x >>> 16
  let x := x ||| x >>> 32
  x + 1

/-- `kToBlockMaxHashCapacity` -/
def toBlockMaxHashCapacity : ℕ := 8192

/-- `kToBlockMaxProbes` -/
def toBlockMaxProbes : ℕ := 16384

/-- `MaxHashCapacityForDtype` -/
def maxHashCapacityForDtype (dtypeBytes : ℕ) : ℕ :=
  if dtypeBytes = 8 then toBlockMaxHashCapacity / 2 else toBlockMaxHashCapacity

/-- `ComputeHashCapacity` -/
def computeHashCapacity (numIds dtypeBytes : ℕ) : Except String ℕ :=
  if numIds = 0 then .ok 16
  else if maxHashCapacityForDtype dtypeBytes < nextPow2 (max 16 (numIds * 3)) then
    .error "to_block: candidate node count exceeds the single-band hash table capacity"
  else .ok (nextPow2 (max 16 (numIds * 3)))

/-- After a step of `NextPow2` a bit is set if one of the next `2 * k` bits had been set. -/
lemma testBit_smear {x y k : ℕ} (h : ∀ i, y.testBit i = true ↔ ∃ d < k, x.testBit (i + d) = true)
    (i : ℕ) : (y ||| y >>> k).testBit i = true ↔ ∃ d < 2 * k, x.testBit (i + d) = true := by
  rw [Nat.testBit_or, Bool.or_eq_true, Nat.testBit_shiftRight, h, h]
  constructor
  · rintro (⟨d, hd, hbit⟩ | ⟨d, hd, hbit⟩)
    · exact ⟨d, by omega, hbit⟩
    · exact ⟨k + d, by omega, by rwa [← Nat.add_assoc, Nat.add_comm i]⟩
  · rintro ⟨d, hd, hbit⟩
    by_cases hlt : d < k
    · exact Or.inl ⟨d, hlt, hbit⟩
    · refine Or.inr ⟨d - k, by omega, ?_⟩
      rwa [show k + i + (d - k) = i + d by omega]

/-- **`NextPow2` is a power of two**, and not smaller. -/
theorem exists_nextPow2 {x : ℕ} (hx : x < 2 ^ 64) : ∃ m, nextPow2 x = 2 ^ m ∧ x ≤ 2 ^ m := by
  have hbits := testBit_smear (testBit_smear (testBit_smear (testBit_smear (testBit_smear
    (testBit_smear (x := x - 1) (y := x - 1) (k := 1)
      fun i => ⟨fun h => ⟨0, Nat.one_pos, h⟩, fun ⟨d, hd, h⟩ => by
        obtain rfl : d = 0 := by omega
        exact h⟩)))))
  by_cases hzero : x - 1 = 0
  · refine ⟨0, ?_, by omega⟩
    rw [nextPow2, hzero]
    rfl
  · refine ⟨(x - 1).log2 + 1, ?_, ?_⟩
    · rw [nextPow2]
      have hlog := (Nat.log2_lt hzero).2 (by omega : x - 1 < 2 ^ 64)
      have heq : ∀ y, (∀ i, y.testBit i = true ↔ ∃ d < 2 * (2 * (2 * (2 * (2 * (2 * 1))))),
          (x - 1).testBit (i + d) = true) → y = 2 ^ ((x - 1).log2 + 1) - 1 := by
        intro y hy
        apply Nat.eq_of_testBit_eq
        intro i
        rw [Nat.testBit_two_pow_sub_one, Bool.eq_iff_iff, hy, decide_eq_true_iff]
        constructor
        · rintro ⟨d, -, hbit⟩
          have hge := (Nat.le_log2 hzero).2 (Nat.ge_two_pow_of_testBit hbit)
          omega
        · intro hi
          refine ⟨(x - 1).log2 - i, by omega, ?_⟩
          rw [show i + ((x - 1).log2 - i) = (x - 1).log2 by omega]
          exact Nat.testBit_log2 hzero
      have hpos : 0 < 2 ^ ((x - 1).log2 + 1) := Nat.two_pow_pos _
      have hy := heq _ hbits
      show _ + 1 = _
      rw [hy]
      omega
    · have hlt := Nat.lt_log2_self (n := x - 1)
      omega

lemma computeHashCapacity_ok {numIds dtypeBytes capacity : ℕ} (hids : numIds * 3 < 2 ^ 64)
    (h : computeHashCapacity numIds dtypeBytes = .ok capacity) :
    ∃ m ≤ 13, capacity = 2 ^ m ∧ numIds < capacity := by
  have hmax : maxHashCapacityForDtype dtypeBytes ≤ 2 ^ 13 := by
    rw [maxHashCapacityForDtype]
    split <;> decide
  rw [computeHashCapacity] at h
  split_ifs at h with hzero hlarge
  · obtain rfl := Except.ok.inj h
    exact ⟨4, by omega, rfl, by omega⟩
  · obtain rfl := Except.ok.inj h
    obtain ⟨m, hm, hle⟩ := exists_nextPow2 (x := max 16 (numIds * 3)) (by omega)
    refine ⟨m, ?_, hm, by omega⟩
    apply (Nat.pow_le_pow_iff_right Nat.one_lt_two).1
    omega

/-! ## The table -/

/-- The keys and values in local memory, with `hash_mask_`. -/
structure BlockTable (τ : IdType) where
  mask : Id τ
  keys : ℕ → Id τ
  vals : ℕ → Id τ

/-- Why a kernel does not go on. -/
inductive BlockFailure
  | saturated
  | running
  deriving DecidableEq

/-- What the loop over the positions comes to. -/
inductive ProbeResult
  | empty (pos : ℕ)
  | existing (pos : ℕ)
  deriving DecidableEq

variable {τ : IdType}

namespace BlockTable

variable (t : BlockTable τ)

/-- The first position for an id. -/
def home (id : Id τ) : ℕ := (id &&& t.mask).toNat % 2 ^ 32

/-- The next position. -/
def nextPos (pos delta : ℕ) : ℕ := ((pos + delta * delta) % 2 ^ 64 &&& t.mask.toNat) % 2 ^ 32

/-- The loop of the first kernel over the positions for an id. -/
def probe (id : Id τ) : ℕ → ℕ → ℕ → Except BlockFailure ProbeResult
  | 0, _, _ => .error .running
  | fuel + 1, pos, delta =>
    if t.keys pos = emptyKey then .ok (.empty pos)
    else if t.keys pos = id then .ok (.existing pos)
    else if toBlockMaxProbes < delta + 1 then .error .saturated
    else probe id fuel (t.nextPos pos delta) (delta + 1)

/-- The loop of `Lookup`. -/
def lookupFrom (key : Id τ) : ℕ → ℕ → ℕ → Except BlockFailure (Id τ)
  | 0, _, _ => .error .running
  | fuel + 1, pos, delta =>
    if t.keys pos = emptyKey then .ok (-1)
    else if t.keys pos = key then .ok (t.vals pos)
    else lookupFrom key fuel (t.nextPos pos delta) (delta + 1)

/-- `Lookup` -/
def lookup (fuel : ℕ) (key : Id τ) : Except BlockFailure (Id τ) := t.lookupFrom key fuel (t.home key) 1

/-- An id with its value is written. -/
def setEntry (pos : ℕ) (id : Id τ) (nextLocal : ℕ) : BlockTable τ :=
  { t with
    keys := Function.update t.keys pos id
    vals := Function.update t.vals pos (BitVec.ofNat τ.bits nextLocal) }

end BlockTable

/-- The table, `next_local` and the unique ids while the first kernel runs. -/
structure DedupState (τ : IdType) where
  table : BlockTable τ
  nextLocal : ℕ
  unique : List (Id τ)

/-- One id in the loop of the first kernel. -/
def dedupStep (fuel : ℕ) (s : DedupState τ) (id : Id τ) : Except BlockFailure (DedupState τ) := do
  let r ← s.table.probe id fuel (s.table.home id) 1
  match r with
  | .empty pos => .ok ⟨s.table.setEntry pos id s.nextLocal, s.nextLocal + 1, s.unique ++ [id]⟩
  | .existing _ => .ok s

/-- The first kernel. -/
def dedupHashBuild (fuel : ℕ) (ids : List (Id τ)) (s : DedupState τ) :
    Except BlockFailure (DedupState τ) :=
  ids.foldlM (dedupStep fuel) s

/-- The table of a capacity before the first id. -/
def dedupInit (τ : IdType) (capacity : ℕ) : DedupState τ where
  table := ⟨BitVec.ofNat τ.bits (capacity - 1), fun _ => emptyKey, fun _ => emptyKey⟩
  nextLocal := 0
  unique := []

namespace BlockTable

/-- The position of the `j`-th probe for an id. -/
def positionAt (t : BlockTable τ) (id : Id τ) : ℕ → ℕ
  | 0 => t.home id
  | j + 1 => t.nextPos (t.positionAt id j) (j + 1)

/-- The sequences of probes in block tables of a capacity: they reach every slot within the bound on the
probes, and with ids in the table that do not fill it, the first kernel comes to a free slot or to the id
within the bound, and `Lookup` to the slot of the id. -/
structure ProbesCover (τ : IdType) (capacity : ℕ) : Prop where
  reach : ∀ t : BlockTable τ, t.mask = BitVec.ofNat τ.bits (capacity - 1) →
    ∀ id : Id τ, ∀ r < capacity, ∃ j < toBlockMaxProbes, t.positionAt id j = r
  stored : ∀ ids : List (Id τ), (∀ id ∈ ids, id ≠ emptyKey) → ids.dedup.length < capacity →
    ∀ fuel ≥ toBlockMaxProbes, ∃ s, dedupHashBuild fuel ids (dedupInit τ capacity) = .ok s ∧
      (∀ id, id ≠ emptyKey → ∃ p < capacity,
        s.table.keys p = emptyKey ∧ s.table.probe id fuel (s.table.home id) 1 = .ok (.empty p) ∨
        s.table.keys p = id ∧ s.table.probe id fuel (s.table.home id) 1 = .ok (.existing p)) ∧
      ∀ id ∈ ids, ∃ p < capacity, s.table.keys p = id ∧
        s.table.lookup fuel id = .ok (s.table.vals p)

/-! ## The positions -/

variable {t : BlockTable τ} {m j n d fuel : ℕ} {id : Id τ} {ids : List (Id τ)}

/-- The key of a slot. -/
def keyAt (t : BlockTable τ) (p : ℕ) : Option (Id τ) :=
  if t.keys p = emptyKey then none else some (t.keys p)

lemma keyAt_eq_none {p : ℕ} : t.keyAt p = none ↔ t.keys p = emptyKey := by
  simp [keyAt]

lemma keyAt_eq_some {p : ℕ} : t.keyAt p = some id ↔ t.keys p = id ∧ id ≠ emptyKey := by
  rw [keyAt, Option.ite_none_left_eq_some, Option.some.injEq]
  exact ⟨fun h => ⟨h.2, h.2 ▸ h.1⟩, fun h => ⟨h.1 ▸ h.2, h.1⟩⟩

/-- The paths in tables with `2 ^ m` slots. -/
abbrev paths (m : ℕ) (ids : List (Id τ)) : Paths ids := squarePaths BitVec.toNat m ids

/-- **The positions** advance by the squares. -/
lemma positionAt_eq (ht : t.mask = BitVec.ofNat τ.bits (2 ^ m - 1)) (hm : m ≤ 13) (id : Id τ) (j : ℕ) :
    t.positionAt id j = (paths m ids).path id j := by
  have hbits : 2 ^ m ≤ 2 ^ 13 := Nat.pow_le_pow_right (by omega) hm
  have hwidth : 2 ^ 13 < 2 ^ τ.bits := by
    cases τ
    · decide
    · decide
  have hpos : 0 < 2 ^ m := Nat.two_pow_pos m
  have hmask : t.mask.toNat = 2 ^ m - 1 := by
    rw [ht, BitVec.toNat_ofNat, Nat.mod_eq_of_lt (by omega)]
  have hsmall (x : ℕ) : x % 2 ^ m % 2 ^ 32 = x % 2 ^ m := by
    have hlt := Nat.mod_lt x hpos
    exact Nat.mod_eq_of_lt (by omega)
  induction j with
  | zero =>
      show (id &&& t.mask).toNat % 2 ^ 32 = (id.toNat + 0) % 2 ^ m
      rw [BitVec.toNat_and, hmask, Nat.and_two_pow_sub_one_eq_mod, hsmall, Nat.add_zero]
  | succ j ih =>
      show ((t.positionAt id j + (j + 1) * (j + 1)) % 2 ^ 64 &&& t.mask.toNat) % 2 ^ 32 =
        (id.toNat + (squareSum j + (j + 1) * (j + 1))) % 2 ^ m
      rw [ih, hmask, Nat.and_two_pow_sub_one_eq_mod, hsmall,
        Nat.mod_mod_of_dvd _ (Nat.pow_dvd_pow 2 (by omega : m ≤ 64))]
      show ((id.toNat + squareSum j) % 2 ^ m + (j + 1) * (j + 1)) % 2 ^ m = _
      rw [Nat.mod_add_mod, Nat.add_assoc]

/-- The paths cover the table within the bound on the probes. -/
lemma paths_cover (hm : m ≤ 13) (id : Id τ) (ids : List (Id τ)) :
    ∀ r < 2 ^ m, ∃ k < toBlockMaxProbes, (paths m ids).path id k = r := by
  intro r hr
  obtain ⟨k, hk, hsum⟩ := exists_start_add_squareSum m id.toNat hr
  have hle : 2 ^ (m + 1) ≤ 2 ^ 14 := Nat.pow_le_pow_right (by omega) (by omega)
  exact ⟨k, hk.trans_le hle, hsum⟩

/-- The probes from the `d`-th one on. -/
lemma probe_eq (hpass : ∀ i < j, t.keys (t.positionAt id i) ≠ emptyKey ∧ t.keys (t.positionAt id i) ≠ id)
    (hj : j < toBlockMaxProbes) (hd : d + n = j) (hn : n < fuel) :
    t.probe id fuel (t.positionAt id d) (d + 1) = t.probe id 1 (t.positionAt id j) (j + 1) ∨
      t.keys (t.positionAt id j) ≠ emptyKey ∧ t.keys (t.positionAt id j) ≠ id := by
  by_cases hend : t.keys (t.positionAt id j) ≠ emptyKey ∧ t.keys (t.positionAt id j) ≠ id
  · exact Or.inr hend
  · left
    induction n generalizing d fuel with
    | zero =>
        obtain ⟨fuel, rfl⟩ := Nat.exists_eq_add_of_lt hn
        obtain rfl : d = j := by omega
        rw [Nat.zero_add, probe, probe]
        by_cases hempty : t.keys (t.positionAt id d) = emptyKey
        · rw [if_pos hempty, if_pos hempty]
        · have hid : t.keys (t.positionAt id d) = id := by
            by_contra hne
            exact hend ⟨hempty, hne⟩
          rw [if_neg hempty, if_pos hid, if_neg hempty, if_pos hid]
    | succ n ih =>
        obtain ⟨fuel, rfl⟩ := Nat.exists_eq_add_of_lt (Nat.zero_lt_of_lt hn)
        obtain ⟨hempty, hne⟩ := hpass d (by omega)
        rw [Nat.zero_add, probe, if_neg hempty, if_neg hne, if_neg (by omega)]
        exact ih (d := d + 1) (by omega) (by omega)

/-- The lookups from the `d`-th one on. -/
lemma lookupFrom_eq
    (hpass : ∀ i < j, t.keys (t.positionAt id i) ≠ emptyKey ∧ t.keys (t.positionAt id i) ≠ id)
    (hid : id ≠ emptyKey) (hkey : t.keys (t.positionAt id j) = id) (hd : d + n = j) (hn : n < fuel) :
    t.lookupFrom id fuel (t.positionAt id d) (d + 1) = .ok (t.vals (t.positionAt id j)) := by
  induction n generalizing d fuel with
  | zero =>
      obtain ⟨fuel, rfl⟩ := Nat.exists_eq_add_of_lt hn
      obtain rfl : d = j := by omega
      rw [Nat.zero_add, lookupFrom, hkey, if_neg hid, if_pos rfl]
  | succ n ih =>
      obtain ⟨fuel, rfl⟩ := Nat.exists_eq_add_of_lt (Nat.zero_lt_of_lt hn)
      obtain ⟨hempty, hne⟩ := hpass d (by omega)
      rw [Nat.zero_add, lookupFrom, if_neg hempty, if_neg hne]
      exact ih (d := d + 1) (by omega) (by omega)

lemma setEntry_keyAt (t : BlockTable τ) (p nextLocal : ℕ) (hid : id ≠ emptyKey) :
    (t.setEntry p id nextLocal).keyAt = Function.update t.keyAt p (some id) := by
  funext q
  by_cases hqp : q = p
  · rw [hqp, Function.update_self, keyAt_eq_some]
    exact ⟨Function.update_self _ _ _, hid⟩
  · have hkey : (t.setEntry p id nextLocal).keys q = t.keys q := Function.update_of_ne hqp _ _
    rw [Function.update_of_ne hqp, keyAt, keyAt, hkey]

/-- **The first kernel comes to a free slot or to the id** within the bound on the probes. -/
lemma probe_stops (ht : t.mask = BitVec.ofNat τ.bits (2 ^ m - 1)) (hm : m ≤ 13)
    (h : (paths m ids).Holds t.keyAt) (hlen : ids.length < 2 ^ m) (hid : id ≠ emptyKey)
    (hfuel : toBlockMaxProbes ≤ fuel) : ∃ p < 2 ^ m,
      t.keys p = emptyKey ∧ t.probe id fuel (t.home id) 1 = .ok (.empty p) ∧
        (∀ nextLocal, (paths m ids).Puts t.keyAt id (t.setEntry p id nextLocal).keyAt) ∨
      t.keys p = id ∧ t.probe id fuel (t.home id) 1 = .ok (.existing p) := by
  obtain ⟨j, hj, hpassed, hstop⟩ := h.chained.exists_stop h.keys hlen (paths_cover hm id ids)
  have hpos (i : ℕ) : t.positionAt id i = (paths m ids).path id i := positionAt_eq ht hm id i
  have hpass : ∀ i < j, t.keys (t.positionAt id i) ≠ emptyKey ∧ t.keys (t.positionAt id i) ≠ id := by
    intro i hi
    obtain ⟨k, hk, hne⟩ := hpassed i hi
    rw [← hpos] at hk
    obtain ⟨hkey, hnonempty⟩ := keyAt_eq_some.1 hk
    rw [hkey]
    exact ⟨hnonempty, hne⟩
  have hprobe := probe_eq hpass hj (Nat.zero_add j) (hj.trans_le hfuel)
  have hlt : t.positionAt id j < 2 ^ m := by
    rw [hpos]
    exact Nat.mod_lt _ (Nat.two_pow_pos m)
  refine ⟨t.positionAt id j, hlt, ?_⟩
  rcases hstop with hnone | hsome
  · left
    rw [← hpos] at hnone
    have hkey := keyAt_eq_none.1 hnone
    refine ⟨hkey, ?_, fun nextLocal => ?_⟩
    · have heq := hprobe.resolve_right fun hboth => hboth.1 hkey
      rw [probe, if_pos hkey] at heq
      exact heq
    · rw [setEntry_keyAt t _ _ hid, hpos]
      exact .put trivial hpassed (hpos j ▸ hnone)
  · right
    rw [← hpos] at hsome
    obtain ⟨hkey, hne⟩ := keyAt_eq_some.1 hsome
    have heq := hprobe.resolve_right fun hboth => hboth.2 hkey
    rw [probe, hkey, if_neg hne, if_pos rfl] at heq
    exact ⟨hkey, heq⟩

/-- **The bound on the probes is large enough** for every capacity that the host admits. -/
theorem probesCover (hm : m ≤ 13) : ProbesCover τ (2 ^ m) := by
  refine ⟨fun t ht id r hr => ?_, fun ids hids hlen fuel hfuel => ?_⟩
  · obtain ⟨k, hk, heq⟩ := paths_cover hm id [] r hr
    exact ⟨k, hk, (positionAt_eq ht hm id k).trans heq⟩
  · have hholds := (paths m ids.dedup).holds_empty
      (t := (dedupInit τ (2 ^ m)).table.keyAt) fun p => keyAt_eq_none.2 rfl
    have hstep : ∀ (s : DedupState τ) (k : Id τ), s.table.mask = BitVec.ofNat τ.bits (2 ^ m - 1) →
        (paths m ids.dedup).Holds s.table.keyAt → k ∈ ids.dedup →
        ∃ s', dedupStep fuel s k = .ok s' ∧ s'.table.mask = BitVec.ofNat τ.bits (2 ^ m - 1) ∧
          (paths m ids.dedup).Puts s.table.keyAt k s'.table.keyAt := by
      intro s k hs hok hk
      have hne := hids k (List.mem_dedup.1 hk)
      obtain ⟨p, -, ⟨-, heq, hputs⟩ | ⟨hkey, heq⟩⟩ := probe_stops hs hm hok hlen hne hfuel
      · refine ⟨⟨s.table.setEntry p k s.nextLocal, s.nextLocal + 1, s.unique ++ [k]⟩, ?_, hs,
          hputs s.nextLocal⟩
        rw [dedupStep, heq]
        rfl
      · exact ⟨s, by rw [dedupStep, heq]; rfl, hs, .found (keyAt_eq_some.2 ⟨hkey, hne⟩)⟩
    obtain ⟨s, hall, hs, hok, -, hin⟩ := Paths.foldlM_puts hstep rfl hholds
      fun k hk => List.mem_dedup.2 hk
    refine ⟨s, hall, fun id hid => ?_, fun id hid => ?_⟩
    · obtain ⟨p, hp, ⟨hfree, heq, -⟩ | hfound⟩ := probe_stops hs hm hok hlen hid hfuel
      · exact ⟨p, hp, Or.inl ⟨hfree, heq⟩⟩
      · exact ⟨p, hp, Or.inr hfound⟩
    · obtain ⟨p, hp⟩ := hin id hid
      obtain ⟨j, -, rfl, hpassed⟩ := hok.chained p id hp
      have hj := hok.chained.passed_lt hok.keys hlen (paths_cover hm id ids.dedup) hpassed
      have hpos (i : ℕ) : s.table.positionAt id i = (paths m ids.dedup).path id i :=
        positionAt_eq hs hm id i
      have hpass : ∀ i < j, s.table.keys (s.table.positionAt id i) ≠ emptyKey ∧
          s.table.keys (s.table.positionAt id i) ≠ id := by
        intro i hi
        obtain ⟨k, hk, hne⟩ := hpassed i hi
        rw [← hpos] at hk
        obtain ⟨hkey, hnonempty⟩ := keyAt_eq_some.1 hk
        rw [hkey]
        exact ⟨hnonempty, hne⟩
      rw [← hpos] at hp
      obtain ⟨hkey, hne⟩ := keyAt_eq_some.1 hp
      have hlt : s.table.positionAt id j < 2 ^ m := by
        rw [hpos]
        exact Nat.mod_lt _ (Nat.two_pow_pos m)
      exact ⟨_, hlt, hkey,
        lookupFrom_eq hpass hne hkey (Nat.zero_add j) (hj.trans_le hfuel)⟩

end BlockTable

/-! ## All tables -/

/-- **The probes cover the tables** for `n` ids: in the core map if and only if the slots are numbers of
the type of the ids, in the graphbolt map if and only if the keys have indices in it, and in the block
table always. -/
theorem probes_cover_tables (τ : IdType) (infinite n : ℕ) (hn : n ≠ 0) :
    (Graph.MappingTable.ProbesCover τ (getMapSize infinite n) ↔
      getMapSize infinite n ≤ 2 ^ (τ.bits - 1)) ∧
    (IdTable.ProbesCover τ (getMapSize infinite n) ↔ getMapSize infinite n ≤ 2 ^ (τ.bits - 2)) ∧
    ∀ numIds capacity, numIds * 3 < 2 ^ 63 → computeHashCapacity numIds (τ.bits / 8) = .ok capacity →
      BlockTable.ProbesCover τ capacity := by
  refine ⟨?_, ?_, fun numIds capacity hids hcap => ?_⟩
  · rw [getMapSize, if_neg hn]
    exact Graph.MappingTable.probesCover_iff
  · rw [getMapSize, if_neg hn]
    exact IdTable.probesCover_iff
  · obtain ⟨m, hm, rfl, -⟩ := computeHashCapacity_ok (by omega) hcap
    exact BlockTable.probesCover hm

/-- The tables for five ids. -/
theorem probes_cover_tables_five :
    (Graph.MappingTable.ProbesCover .int32 (getMapSize 0 5) ↔ getMapSize 0 5 ≤ 2 ^ 31) ∧
    (IdTable.ProbesCover .int32 (getMapSize 0 5) ↔ getMapSize 0 5 ≤ 2 ^ 30) ∧
    ∀ numIds capacity, numIds * 3 < 2 ^ 63 → computeHashCapacity numIds 4 = .ok capacity →
      BlockTable.ProbesCover .int32 capacity :=
  probes_cover_tables .int32 0 5 (by decide)

/-- In the graphbolt table for 357913942 ids a stored id is not found. -/
theorem probes_miss_key : ¬ IdTable.ProbesCover .int32 (getMapSize 0 357913942) := by
  have hlog : 30 ≤ Nat.log 2 (357913942 * 3) := by
    apply Nat.le_log_of_pow_le
    · decide
    · decide
  rw [getMapSize, if_neg (by decide), IdTable.probesCover_iff]
  apply Nat.not_le.2
  exact Nat.pow_lt_pow_right (by decide) (show 30 < 1 + Nat.log 2 (357913942 * 3) by omega)

end DglAscend.Ascend
