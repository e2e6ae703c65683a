import DglAscend.Graphbolt.IdHashMapProbes

/-!
# The table of the core id hash map

`Next`, `Insert` and `MapId` of `array/cpu/concurrent_id_hash_map.cc`.  A slot of `hash_map_` is a key
with its value, and its index is the position itself, a number of the type of the ids.  A table whose
positions are all numbers of the type is covered by every sequence of probes
(`MappingTable.probesCover_iff`).
-/

namespace DglAscend.Graph

open Graphbolt

variable {τ : IdType}

/-- `Mapping` -/
structure Mapping (τ : IdType) where
  key : Id τ
  value : Id τ

/-- `hash_map_`, with its capacity and `mask_`. -/
structure MappingTable (τ : IdType) where
  mask : Id τ
  capacity : ℕ
  slots : ℕ → Mapping τ

namespace MappingTable

variable (t : MappingTable τ)

/-- `hash_map_[pos]` -/
def slot (pos : Id τ) : Except IdMapFailure (Mapping τ) :=
  if 0 ≤ pos.toInt ∧ pos.toInt < t.capacity then .ok (t.slots pos.toInt.toNat)
  else .error .outOfBounds

/-- A key is written. -/
def setKey (p : ℕ) (id : Id τ) : MappingTable τ :=
  { t with slots := Function.update t.slots p { t.slots p with key := id } }

/-- The first position for an id. -/
def home (id : Id τ) : Probe τ := ⟨id &&& t.mask, 1⟩

/-- `Next` -/
def next (p : Probe τ) : Probe τ := ⟨(p.pos + p.delta * p.delta) &&& t.mask, p.delta + 1⟩

/-- `AttemptInsertAt`: whether the key is inserted, unless the slot is occupied. -/
def attemptInsertAt (id : Id τ) (p : Probe τ) :
    Except IdMapFailure (Option (Bool × MappingTable τ)) := do
  let e ← t.slot p.pos
  if e.key = emptyKey then .ok (some (true, t.setKey p.pos.toInt.toNat id))
  else if e.key = id then .ok (some (false, t))
  else .ok none

/-- `Insert` -/
def insert (fuel : ℕ) (id : Id τ) : Except IdMapFailure (Bool × MappingTable τ) :=
  walk t.next (t.attemptInsertAt id) .running fuel (t.home id)

/-- What `MapId` does at a position. -/
def mapIdAt (id : Id τ) (p : Probe τ) : Except IdMapFailure (Option (Id τ)) := do
  let e ← t.slot p.pos
  .ok (if e.key ≠ emptyKey ∧ e.key ≠ id then none else some e.value)

/-- `MapId` -/
def mapId (fuel : ℕ) (id : Id τ) : Except IdMapFailure (Id τ) :=
  walk t.next (t.mapIdAt id) .running fuel (t.home id)

/-- `Insert` of one id after the other. -/
def insertAll (fuel : ℕ) (keys : List (Id τ)) : Except IdMapFailure (MappingTable τ) :=
  keys.foldlM (fun t id => do
    let r ← t.insert fuel id
    .ok r.2) t

end MappingTable

/-- The sequences of probes in tables of a capacity: they reach every slot from any first position, and
with ids in the table that do not fill it, `Insert` comes to a free slot or to the id, and `MapId` to the
slot of the id. -/
structure MappingTable.ProbesCover (τ : IdType) (capacity : ℕ) : Prop where
  reach : ∀ t : MappingTable τ, t.mask = BitVec.ofNat τ.bits (capacity - 1) → t.capacity = capacity →
    ∀ id : Id τ, ∀ r < capacity, ∃ j, (t.next^[j] (t.home id)).pos.toInt = r
  stored : ∀ t : MappingTable τ, t.mask = BitVec.ofNat τ.bits (capacity - 1) → t.capacity = capacity →
    (∀ p, (t.slots p).key = emptyKey) → ∀ keys : List (Id τ), (∀ k ∈ keys, k ≠ emptyKey) →
    keys.dedup.length < capacity → ∃ steps, ∀ fuel ≥ steps, ∃ t', t.insertAll fuel keys = .ok t' ∧
      (∀ id, id ≠ emptyKey → ∃ p < capacity,
        (t'.slots p).key = emptyKey ∧ t'.insert fuel id = .ok (true, t'.setKey p id) ∨
        (t'.slots p).key = id ∧ t'.insert fuel id = .ok (false, t')) ∧
      ∀ k ∈ keys, ∃ p < capacity, (t'.slots p).key = k ∧ t'.mapId fuel k = .ok (t'.slots p).value

namespace MappingTable

variable {t t' : MappingTable τ} {m n j fuel : ℕ} {id : Id τ} {ids keys : List (Id τ)}

/-! ## Positions -/

/-- The table has `2 ^ m` slots. -/
structure Sized (t : MappingTable τ) (m : ℕ) : Prop where
  mask : t.mask = BitVec.ofNat τ.bits (2 ^ m - 1)
  capacity : t.capacity = 2 ^ m

/-- A table of ids with the same positions. -/
def positions (t : MappingTable τ) : IdTable τ := ⟨t.mask, 2 * t.capacity, fun _ => emptyKey⟩

lemma positions_sized (ht : t.Sized m) : t.positions.Sized m :=
  ⟨ht.mask, by rw [← ht.capacity]; rfl⟩

/-- The key of a slot. -/
def keyAt (t : MappingTable τ) (p : ℕ) : Option (Id τ) :=
  if (t.slots p).key = emptyKey then none else some (t.slots p).key

lemma keyAt_eq_none {p : ℕ} : t.keyAt p = none ↔ (t.slots p).key = emptyKey := by
  simp [keyAt]

lemma keyAt_eq_some {p : ℕ} : t.keyAt p = some id ↔ (t.slots p).key = id ∧ id ≠ emptyKey := by
  rw [keyAt, Option.ite_none_left_eq_some, Option.some.injEq]
  exact ⟨fun h => ⟨h.2, h.2 ▸ h.1⟩, fun h => ⟨h.1 ▸ h.2, h.1⟩⟩

/-- Where the `j`-th position for an id is. -/
def place (t : MappingTable τ) (id : Id τ) (j : ℕ) : ℕ := (t.next^[j] (t.home id)).pos.toNat

lemma slot_eq (ht : t.Sized m) (hm : m ≤ τ.bits - 1) (id : Id τ) (j : ℕ) :
    (t.next^[j] (t.home id)).pos.toInt = t.place id j ∧ t.place id j < 2 ^ m ∧
      t.slot (t.next^[j] (t.home id)).pos = .ok (t.slots (t.place id j)) := by
  have hlt : t.place id j < 2 ^ m := IdTable.toNat_probeAt_lt (positions_sized ht) id j
  have hle : 2 ^ m ≤ 2 ^ (τ.bits - 1) := Nat.pow_le_pow_right (by omega) hm
  have hint : (t.next^[j] (t.home id)).pos.toInt = t.place id j :=
    toInt_eq_toNat (hlt.trans_le hle)
  refine ⟨hint, hlt, ?_⟩
  rw [slot, hint, ht.capacity, if_pos ⟨Int.natCast_nonneg _, by exact_mod_cast hlt⟩, Int.toNat_natCast]

/-! ## Inserting -/

lemma setKey_keyAt (t : MappingTable τ) (p : ℕ) (hid : id ≠ emptyKey) :
    (t.setKey p id).keyAt = Function.update t.keyAt p (some id) := by
  funext q
  by_cases hqp : q = p
  · rw [hqp, Function.update_self, keyAt_eq_some]
    refine ⟨?_, hid⟩
    show (Function.update t.slots p _ p).key = id
    rw [Function.update_self]
  · rw [Function.update_of_ne hqp]
    have hslot : (t.setKey p id).slots q = t.slots q := Function.update_of_ne hqp _ _
    rw [keyAt, keyAt, hslot]

/-- The positions before the end of a path are passed. -/
lemma passed_key (hpassed : (t.positions.quadraticPaths ids).Passed t.keyAt id j) {i : ℕ} (hi : i < j) :
    (t.slots (t.place id i)).key ≠ emptyKey ∧ (t.slots (t.place id i)).key ≠ id := by
  obtain ⟨k, hk, hne⟩ := hpassed i hi
  obtain ⟨hkey, hnonempty⟩ := keyAt_eq_some.1 hk
  have hkey' : (t.slots (t.place id i)).key = k := hkey
  rw [hkey']
  exact ⟨hnonempty, hne⟩

/-- **`Insert`** into a table that is not full comes to a free slot or to the id. -/
lemma insert_eq (h : (t.positions.quadraticPaths ids).Holds t.keyAt) (ht : t.Sized m)
    (hm : m ≤ τ.bits - 1) (hlen : ids.length < 2 ^ m) (hid : id ≠ emptyKey)
    (hfuel : 2 ^ (m + 1) ≤ fuel) : ∃ p < 2 ^ m,
      (t.slots p).key = emptyKey ∧ t.insert fuel id = .ok (true, t.setKey p id) ∧
        (t.positions.quadraticPaths ids).Puts t.keyAt id (t.setKey p id).keyAt ∨
      (t.slots p).key = id ∧ t.insert fuel id = .ok (false, t) := by
  have hcover := IdTable.quadraticPaths_cover (positions_sized ht) (by omega) ids id
  obtain ⟨j, hj, hpassed, hstop⟩ := h.chained.exists_stop h.keys hlen hcover
  obtain ⟨hint, hlt, hslot⟩ := slot_eq ht hm id j
  have hpass : ∀ i < j, t.attemptInsertAt id (t.next^[i] (t.home id)) = .ok none := by
    intro i hi
    obtain ⟨hnonempty, hne⟩ := passed_key hpassed hi
    rw [attemptInsertAt, (slot_eq ht hm id i).2.2]
    show (if _ then _ else _) = _
    rw [if_neg hnonempty, if_neg hne]
  refine ⟨t.place id j, hlt, ?_⟩
  rcases hstop with hnone | hsome
  · left
    have hkey : (t.slots (t.place id j)).key = emptyKey := keyAt_eq_none.1 hnone
    refine ⟨hkey, walk_eq hpass ?_ (hj.trans_le hfuel), ?_⟩
    · rw [attemptInsertAt, hslot]
      show (if _ then _ else _) = _
      rw [if_pos hkey, hint, Int.toNat_natCast]
    · rw [setKey_keyAt t _ hid]
      exact .put trivial hpassed hnone
  · right
    obtain ⟨hkey, hne⟩ := keyAt_eq_some.1 hsome
    have hkey' : (t.slots (t.place id j)).key = id := hkey
    refine ⟨hkey', walk_eq hpass ?_ (hj.trans_le hfuel)⟩
    rw [attemptInsertAt, hslot]
    show (if _ then _ else _) = _
    rw [hkey', if_neg hne, if_pos rfl]

/-- **`MapId`** of an id in the table comes to its slot. -/
lemma mapId_eq (h : (t.positions.quadraticPaths ids).Holds t.keyAt) (ht : t.Sized m)
    (hm : m ≤ τ.bits - 1) (hlen : ids.length < 2 ^ m) (hfuel : 2 ^ (m + 1) ≤ fuel) {p : ℕ}
    (hp : t.keyAt p = some id) : p < 2 ^ m ∧ t.mapId fuel id = .ok (t.slots p).value := by
  have hcover := IdTable.quadraticPaths_cover (positions_sized ht) (by omega) ids id
  obtain ⟨j, -, rfl, hpassed⟩ := h.chained p id hp
  have hj := h.chained.passed_lt h.keys hlen hcover hpassed
  obtain ⟨hint, hlt, hslot⟩ := slot_eq ht hm id j
  refine ⟨hlt, walk_eq (fun i hi => ?_) ?_ (hj.trans_le hfuel)⟩
  · obtain ⟨hnonempty, hne⟩ := passed_key hpassed hi
    rw [mapIdAt, (slot_eq ht hm id i).2.2]
    show Except.ok (if _ then _ else _) = _
    rw [if_pos ⟨hnonempty, hne⟩]
  · obtain ⟨hkey, -⟩ := keyAt_eq_some.1 hp
    have hkey' : (t.slots (t.place id j)).key = id := hkey
    rw [mapIdAt, hslot]
    show Except.ok (if _ then _ else _) = _
    rw [if_neg fun hboth => hboth.2 hkey']
    rfl

/-- Ids that are inserted one after the other. -/
lemma insertAll_eq (ht : t.Sized m) (hm : m ≤ τ.bits - 1) (hlen : ids.length < 2 ^ m)
    (hfuel : 2 ^ (m + 1) ≤ fuel) (hempty : ∀ p, (t.slots p).key = emptyKey)
    (hids : ∀ k ∈ ids, k ≠ emptyKey) (hkeys : ∀ k ∈ keys, k ∈ ids) :
    ∃ t', t.insertAll fuel keys = .ok t' ∧ t'.Sized m ∧
      (t'.positions.quadraticPaths ids).Holds t'.keyAt ∧ ∀ k ∈ keys, ∃ p, t'.keyAt p = some k := by
  have hholds := (t.positions.quadraticPaths ids).holds_empty fun p => keyAt_eq_none.2 (hempty p)
  have hstep : ∀ (s : MappingTable τ) (k : Id τ), s.Sized m ∧ s.positions = t.positions →
      (t.positions.quadraticPaths ids).Holds s.keyAt → k ∈ ids →
      ∃ s', (do let r ← s.insert fuel k; .ok r.2) = (.ok s' : Except IdMapFailure (MappingTable τ)) ∧
        (s'.Sized m ∧ s'.positions = t.positions) ∧
        (t.positions.quadraticPaths ids).Puts s.keyAt k s'.keyAt := by
    rintro s k ⟨hs, hpos⟩ hok hk
    rw [← hpos] at hok ⊢
    obtain ⟨p, -, ⟨-, heq, hputs⟩ | ⟨hkey, heq⟩⟩ := insert_eq hok hs hm hlen (hids k hk) hfuel
    · exact ⟨s.setKey p k, by rw [heq]; rfl, ⟨⟨hs.mask, hs.capacity⟩, rfl⟩, hputs⟩
    · exact ⟨s, by rw [heq]; rfl, ⟨hs, rfl⟩, .found (keyAt_eq_some.2 ⟨hkey, hids k hk⟩)⟩
  obtain ⟨t', hall, ⟨hs, hpos⟩, hok, -, hin⟩ := Paths.foldlM_puts hstep ⟨ht, rfl⟩ hholds hkeys
  exact ⟨t', hall, hs, hpos ▸ hok, hin⟩

/-! ## Which tables are covered -/

/-- A table whose positions are all numbers of the type is covered. -/
lemma probesCover_of_le (hm : m ≤ τ.bits - 1) : ProbesCover τ (2 ^ m) := by
  refine ⟨fun t hmask hcap id r hr => ?_, fun t hmask hcap hempty keys hkeys hlen => ?_⟩
  · obtain ⟨k, -, hk⟩ := IdTable.quadraticPaths_cover (positions_sized ⟨hmask, hcap⟩) (by omega) [] id r hr
    refine ⟨k, ?_⟩
    rw [(slot_eq ⟨hmask, hcap⟩ hm id k).1]
    exact_mod_cast hk
  · refine ⟨2 ^ (m + 1), fun fuel hfuel => ?_⟩
    obtain ⟨t', hall, hsized, hok, hin⟩ := insertAll_eq ⟨hmask, hcap⟩ hm hlen hfuel hempty
      (fun k hk => hkeys k (List.mem_dedup.1 hk)) fun k hk => List.mem_dedup.2 hk
    refine ⟨t', hall, fun id hid => ?_, fun k hk => ?_⟩
    · obtain ⟨p, hp, ⟨hfree, heq, -⟩ | hfound⟩ := insert_eq hok hsized hm hlen hid hfuel
      · exact ⟨p, hp, Or.inl ⟨hfree, heq⟩⟩
      · exact ⟨p, hp, Or.inr hfound⟩
    · obtain ⟨p, hp⟩ := hin k hk
      obtain ⟨hlt, heq⟩ := mapId_eq hok hsized hm hlen hfuel hp
      exact ⟨p, hlt, (keyAt_eq_some.1 hp).1, heq⟩

/-- **The probes cover a table** if and only if its slots are numbers of the type. -/
theorem probesCover_iff : ProbesCover τ (2 ^ m) ↔ 2 ^ m ≤ 2 ^ (τ.bits - 1) := by
  constructor
  · intro h
    by_contra hlt
    -- The slot behind the last number of the type is not a position.
    let t : MappingTable τ := ⟨BitVec.ofNat τ.bits (2 ^ m - 1), 2 ^ m, fun _ => ⟨emptyKey, emptyKey⟩⟩
    obtain ⟨j, hj⟩ := h.reach t rfl rfl 0 (2 ^ (τ.bits - 1)) (Nat.not_le.1 hlt)
    have hbound : (t.next^[j] (t.home 0)).pos.toInt < 2 ^ (τ.bits - 1) := BitVec.toInt_lt
    rw [hj] at hbound
    push_cast at hbound
    exact lt_irrefl _ hbound
  · intro hle
    exact probesCover_of_le ((Nat.pow_le_pow_iff_right Nat.one_lt_two).1 hle)

end MappingTable

end DglAscend.Graph
