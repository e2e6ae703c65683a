import DglAscend.Graphbolt.IdHashMapLimits

/-!
# The probes of the graphbolt id hash map

`Insert` of one id after the other, and `MapId` afterwards.  The sequences of probes cover a table, and
`MapId` comes to the slot of an id, if and only if the slots have indices in the type of the ids
(`IdTable.probesCover_iff`).
-/

namespace DglAscend.Graphbolt

variable {τ : IdType}

namespace IdTable

/-- `AttemptInsertAt`: whether the key is inserted, unless the slot is occupied. -/
def attemptInsertAt (t : IdTable τ) (id : Id τ) (p : Probe τ) :
    Except IdMapFailure (Option (Bool × IdTable τ)) :=
  match t.load (attemptIndex p.pos) with
  | none => .error .outOfBounds
  | some key =>
    if key = emptyKey then .ok (some (true, t.store (attemptIndex p.pos) id))
    else if key = id then .ok (some (false, t))
    else .ok none

/-- `Insert` -/
def insert (t : IdTable τ) (fuel : ℕ) (id : Id τ) : Except IdMapFailure (Bool × IdTable τ) :=
  walk t.next (t.attemptInsertAt id) .running fuel (t.home id)

/-- `Insert` of one id after the other. -/
def insertAll (t : IdTable τ) (fuel : ℕ) (keys : List (Id τ)) : Except IdMapFailure (IdTable τ) :=
  keys.foldlM (fun t id => do
    let r ← t.insert fuel id
    .ok r.2) t

/-- The sequences of probes in tables of a capacity: they reach every slot from any first position, and
with ids in the table that do not fill it, `Insert` comes to a free slot or to the id, and `MapId` to the
slot of the id. -/
structure ProbesCover (τ : IdType) (capacity : ℕ) : Prop where
  reach : ∀ t : IdTable τ, t.mask = BitVec.ofNat τ.bits (capacity - 1) → t.size = 2 * capacity →
    ∀ id : Id τ, ∀ r < capacity, ∃ j, (t.next^[j] (t.home id)).pos.toInt = r
  stored : ∀ t : IdTable τ, t.mask = BitVec.ofNat τ.bits (capacity - 1) → t.size = 2 * capacity →
    (∀ p, t.cells (2 * p) = emptyKey) → ∀ keys : List (Id τ), (∀ k ∈ keys, k ≠ emptyKey) →
    keys.dedup.length < capacity → ∃ steps, ∀ fuel ≥ steps, ∃ t', t.insertAll fuel keys = .ok t' ∧
      (∀ id, id ≠ emptyKey → ∃ p < capacity,
        t'.cells (2 * p) = emptyKey ∧ t'.insert fuel id = .ok (true, t'.store (2 * p) id) ∨
        t'.cells (2 * p) = id ∧ t'.insert fuel id = .ok (false, t')) ∧
      ∀ k ∈ keys, ∃ p < capacity, t'.cells (2 * p) = k ∧
        t'.mapId fuel k = .ok (t'.cells (2 * p + 1))

variable {t t₀ t' : IdTable τ} {m j fuel : ℕ} {id : Id τ} {ids keys : List (Id τ)}

/-- What `AttemptInsertAt` reads at the `j`-th position. -/
lemma load_attempt (ht : t₀.Sized m) (hsmall : 2 ^ m ≤ 2 ^ (τ.bits - 2)) (hlike : t.Like t₀)
    (id : Id τ) (j : ℕ) : t.next^[j] (t.home id) = t₀.probeAt id j ∧
      attemptIndex (t₀.probeAt id j).pos = 2 * ((t₀.probeAt id j).pos.toNat : ℤ) ∧
      t.load (attemptIndex (t₀.probeAt id j).pos) =
        some (t.cells (2 * (t₀.probeAt id j).pos.toNat)) := by
  have hlt := toNat_probeAt_lt ht id j
  have hidx := attemptIndex_eq (hlt.trans_le hsmall)
  refine ⟨by rw [hlike.next, hlike.home]; rfl, hidx, ?_⟩
  rw [hidx]
  exact_mod_cast load_eq (t := t) (k := 2 * (t₀.probeAt id j).pos.toNat)
    (by rw [hlike.size, ht.size]; omega)

/-- **`Insert`** into a table that is not full comes to a free slot or to the id. -/
lemma insert_eq (ht : t₀.Sized m) (hlen : ids.length < 2 ^ m) (hsmall : 2 ^ m ≤ 2 ^ (τ.bits - 2))
    (hlike : t.Like t₀) (h : (t₀.quadraticPaths ids).Holds t.keyAt) (hid : id ≠ emptyKey)
    (hfuel : 2 ^ (m + 1) ≤ fuel) : ∃ p < 2 ^ m,
      t.cells (2 * p) = emptyKey ∧ t.insert fuel id = .ok (true, t.setKey p id) ∧
        (t₀.quadraticPaths ids).Puts t.keyAt id (t.setKey p id).keyAt ∨
      t.cells (2 * p) = id ∧ t.insert fuel id = .ok (false, t) := by
  have hle : m ≤ τ.bits := by
    have hlt := (Nat.pow_le_pow_iff_right Nat.one_lt_two).1 hsmall
    omega
  obtain ⟨j, hj, hpassed, hstop⟩ := h.chained.exists_stop h.keys hlen
    (quadraticPaths_cover ht hle ids id)
  obtain ⟨hprobe, hidx, hload⟩ := load_attempt ht hsmall hlike id j
  have hpass : ∀ i < j, t.attemptInsertAt id (t.next^[i] (t.home id)) = .ok none := by
    intro i hi
    obtain ⟨k, hk, hne⟩ := hpassed i hi
    obtain ⟨hcell, hnonempty⟩ := keyAt_eq_some.1 hk
    obtain ⟨hprobe, -, hload⟩ := load_attempt ht hsmall hlike id i
    have hcell' : t.cells (2 * (t₀.probeAt id i).pos.toNat) = k := hcell
    rw [attemptInsertAt, hprobe, hload, hcell']
    show (if _ then _ else _) = _
    rw [if_neg hnonempty, if_neg hne]
  refine ⟨(t₀.probeAt id j).pos.toNat, toNat_probeAt_lt ht id j, ?_⟩
  rcases hstop with hnone | hsome
  · left
    have hcell : t.cells (2 * (t₀.probeAt id j).pos.toNat) = emptyKey := keyAt_eq_none.1 hnone
    refine ⟨hcell, walk_eq hpass ?_ (hj.trans_le hfuel), ?_⟩
    · rw [attemptInsertAt, hprobe, hload]
      show (if _ then _ else _) = _
      rw [if_pos hcell, hidx]
      rfl
    · rw [setKey_keyAt t _ hid]
      exact .put trivial hpassed hnone
  · right
    obtain ⟨hcell, hne⟩ := keyAt_eq_some.1 hsome
    have hcell' : t.cells (2 * (t₀.probeAt id j).pos.toNat) = id := hcell
    refine ⟨hcell', walk_eq hpass ?_ (hj.trans_le hfuel)⟩
    rw [attemptInsertAt, hprobe, hload, hcell']
    show (if _ then _ else _) = _
    rw [if_neg hne, if_pos rfl]

/-- Ids that are inserted one after the other. -/
lemma insertAll_eq (ht : t₀.Sized m) (hlen : ids.length < 2 ^ m)
    (hsmall : 2 ^ m ≤ 2 ^ (τ.bits - 2)) (hfuel : 2 ^ (m + 1) ≤ fuel)
    (hnone : ∀ p, t₀.cells (2 * p) = emptyKey) (hempty : ∀ id ∈ ids, id ≠ emptyKey)
    (hkeys : ∀ k ∈ keys, k ∈ ids) :
    ∃ t', t₀.insertAll fuel keys = .ok t' ∧ t'.Like t₀ ∧ (t₀.quadraticPaths ids).Holds t'.keyAt ∧
      ∀ k ∈ keys, ∃ p, t'.keyAt p = some k := by
  have hholds := (t₀.quadraticPaths ids).holds_empty fun p => keyAt_eq_none.2 (hnone p)
  have hstep : ∀ (s : IdTable τ) (k : Id τ), s.Like t₀ → (t₀.quadraticPaths ids).Holds s.keyAt →
      k ∈ ids →
      ∃ s', (do let r ← s.insert fuel k; .ok r.2) = (.ok s' : Except IdMapFailure (IdTable τ)) ∧
        s'.Like t₀ ∧ (t₀.quadraticPaths ids).Puts s.keyAt k s'.keyAt := by
    intro s k hlike hok hk
    obtain ⟨p, -, ⟨-, heq, hputs⟩ | ⟨hkey, heq⟩⟩ :=
      insert_eq ht hlen hsmall hlike hok (hempty k hk) hfuel
    · exact ⟨s.setKey p k, by rw [heq]; rfl, ⟨hlike.mask, hlike.size⟩, hputs⟩
    · exact ⟨s, by rw [heq]; rfl, hlike, .found (keyAt_eq_some.2 ⟨hkey, hempty k hk⟩)⟩
  obtain ⟨t', hall, hlike, hok, -, hin⟩ := Paths.foldlM_puts hstep (.refl t₀) hholds hkeys
  exact ⟨t', hall, hlike, hok, hin⟩

/-- A table whose slots all have indices is covered. -/
lemma probesCover_of_le (hsmall : 2 ^ m ≤ 2 ^ (τ.bits - 2)) : ProbesCover τ (2 ^ m) := by
  have hle : m ≤ τ.bits := by
    have hlt := (Nat.pow_le_pow_iff_right Nat.one_lt_two).1 hsmall
    omega
  have hhalf : 2 ^ (τ.bits - 2) ≤ 2 ^ (τ.bits - 1) := Nat.pow_le_pow_right (by omega) (by omega)
  refine ⟨fun t hmask hsize id r hr => ?_, fun t hmask hsize hnone keys hkeys hlen => ?_⟩
  · obtain ⟨k, -, hk⟩ := quadraticPaths_cover (t := t) ⟨hmask, hsize⟩ hle [] id r hr
    have hk' : (t.next^[k] (t.home id)).pos.toNat = r := hk
    refine ⟨k, ?_⟩
    rw [toInt_eq_toNat (by omega), hk']
  · have ht : t.Sized m := ⟨hmask, hsize⟩
    have hempty : ∀ k ∈ keys.dedup, k ≠ emptyKey := fun k hk => hkeys k (List.mem_dedup.1 hk)
    refine ⟨2 ^ (m + 1), fun fuel hfuel => ?_⟩
    obtain ⟨t', hall, hlike, hok, hin⟩ := insertAll_eq ht hlen hsmall hfuel hnone hempty
      fun k hk => List.mem_dedup.2 hk
    refine ⟨t', hall, fun id hid => ?_, fun k hk => ?_⟩
    · obtain ⟨p, hp, ⟨hfree, heq, -⟩ | hfound⟩ := insert_eq ht hlen hsmall hlike hok hid hfuel
      · exact ⟨p, hp, Or.inl ⟨hfree, heq⟩⟩
      · exact ⟨p, hp, Or.inr hfound⟩
    · choose! place hplace using hin
      have hfilled : Filled (smallPlacement ht hlen hempty hsmall) (fun k => t'.valueAt (place k)) t' :=
        ⟨hlike, hok.chained, hok.keys, fun k hk =>
          ⟨place k, hplace k (List.mem_dedup.1 hk), rfl⟩⟩
      have hlt : place k < 2 ^ m := by
        obtain ⟨j, -, hj, -⟩ := hok.chained _ _ (hplace k hk)
        rw [← hj]
        exact toNat_probeAt_lt ht k j
      exact ⟨place k, hlt, (keyAt_eq_some.1 (hplace k hk)).1,
        hfilled.mapId_eq (List.mem_dedup.2 hk) hfuel⟩

lemma insert_like {r : Bool × IdTable τ} (h : t.insert fuel id = .ok r) : r.2.Like t := by
  obtain ⟨p, hp⟩ := exists_of_walk_eq h
  rw [attemptInsertAt] at hp
  cases hload : t.load (attemptIndex p.pos) with
  | none =>
      rw [hload] at hp
      cases hp
  | some key =>
      rw [hload] at hp
      change (if _ then _ else _) = _ at hp
      split_ifs at hp
      · obtain rfl := Option.some.inj (Except.ok.inj hp)
        exact ⟨rfl, rfl⟩
      · obtain rfl := Option.some.inj (Except.ok.inj hp)
        exact .refl t
      · cases Except.ok.inj hp

/-- **The probes cover a table, and `MapId` comes to its keys**, if and only if the slots have indices
in the type of the ids. -/
theorem probesCover_iff : ProbesCover τ (2 ^ m) ↔ 2 ^ m ≤ 2 ^ (τ.bits - 2) := by
  refine ⟨fun h => ?_, probesCover_of_le⟩
  by_contra hlt
  have hbits := τ.bits_pos
  have hbound := (Nat.pow_lt_pow_iff_right Nat.one_lt_two).1 (Nat.not_le.1 hlt)
  have hhalf : 2 ^ (τ.bits - 2) < 2 ^ (τ.bits - 1) := Nat.pow_lt_pow_right Nat.one_lt_two (by omega)
  -- The first id whose key has no index.
  let high : Id τ := valueOf τ (2 ^ (τ.bits - 2))
  have hhigh : high.toNat = 2 ^ (τ.bits - 2) := toNat_valueOf hhalf
  have hne : high ≠ emptyKey := valueOf_ne_empty hhalf
  let t : IdTable τ := ⟨BitVec.ofNat τ.bits (2 ^ m - 1), 2 * 2 ^ m, fun _ => emptyKey⟩
  have hone : [high].dedup.length < 2 ^ m := by
    rw [List.dedup_eq_self.2 (List.nodup_singleton high), List.length_singleton]
    exact Nat.one_lt_two_pow (by omega)
  obtain ⟨steps, hstored⟩ := h.stored t rfl rfl (fun _ => rfl) [high]
    (by simpa using hne) hone
  obtain ⟨t', hall, -, hmap⟩ := hstored steps (le_refl steps)
  obtain ⟨p, -, -, heq⟩ := hmap high List.mem_cons_self
  have hsized : t'.Sized m := by
    rw [insertAll, List.foldlM_cons] at hall
    cases hinsert : t.insert steps high with
    | error e =>
        rw [hinsert] at hall
        cases hall
    | ok r =>
        rw [hinsert] at hall
        obtain rfl := Except.ok.inj hall
        have hlike := insert_like hinsert
        exact ⟨hlike.mask, hlike.size⟩
  exact mapId_high hsized (by omega) hhigh.ge (hhigh.trans_lt hhalf) _ heq

end IdTable

end DglAscend.Graphbolt
