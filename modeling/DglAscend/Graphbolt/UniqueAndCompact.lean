import DglAscend.Graphbolt.IdHashMapLimits

/-!
# Unique and compact

`UniqueAndCompact` on the CPU relabels exactly, under every schedule of its threads, if and only if the
table is not too large for the type of the ids (`exactRelabelling_iff`).
-/

namespace DglAscend.Graphbolt

variable {τ : IdType} {ids : List (Id τ)} {infinite numSeeds m : ℕ}

/-! ## An exact relabelling -/

namespace IdMap

/-- The unique id that a compacted id stands for. -/
def idOf (m : IdMap τ) (y : Id τ) : Option (Id τ) :=
  if 0 ≤ y.toInt then m.uniqueIds[y.toInt.toNat]? else none

/-- The unique ids begin with the seeds and have every id once, and compacted ids are decoded by them. -/
structure Relabels (m : IdMap τ) (ids : List (Id τ)) (numSeeds fuel : ℕ) : Prop where
  seeds : m.uniqueIds.take numSeeds = ids.take numSeeds
  nodup : m.uniqueIds.Nodup
  mem : ∀ id, id ∈ m.uniqueIds ↔ id ∈ ids
  mapIds : ∀ xs, (∀ x ∈ xs, x ∈ ids) → ∃ ys, m.mapIds fuel xs = .ok ys ∧
    ys.map m.idOf = xs.map some
  compact : ∀ srcIds dstIds, (∀ x ∈ srcIds, x ∈ ids) → (∀ x ∈ dstIds, x ∈ ids) →
    ∃ src dst, m.uniqueAndCompact fuel srcIds dstIds =
      .ok (m.uniqueIds, src, dst, [0, m.uniqueIds.length]) ∧
      src.map m.idOf = srcIds.map some ∧ dst.map m.idOf = dstIds.map some

end IdMap

/-- The constructor ends without leaving the table, and makes a map that relabels, whatever the order of
the insertions, of the stores and of the calls of `Set`.  Behind the seeds are always the ids of `unique`,
in some order. -/
structure ExactRelabelling (ids : List (Id τ)) (numSeeds infinite : ℕ) (unique : List (Id τ))
    (par : ParallelFor) : Prop where
  ends : Acc (fun s' s => InsertStep ids par.numThreads s s') (insertInit ids infinite par)
  safe : ∀ s, InsertReach ids infinite par s → ¬ Faults ids par.numThreads s
  relabels : ∃ steps, ∀ s, InsertReach ids infinite par s → Inserted par.numThreads s →
    ∀ fuel ≥ steps, ∃ valid, validIds ids numSeeds fuel s.table par = .ok valid ∧
      ∀ memory stores sets, memory.length = ids.length → stores.Perm (placed numSeeds valid) →
        sets.Perm (placed numSeeds valid) →
        ∃ m, finish ids numSeeds fuel s.table memory stores sets = .ok m ∧
          m.Relabels ids numSeeds fuel ∧ (m.uniqueIds.drop numSeeds).Perm (unique.drop numSeeds)

/-- No id is the empty key, and either the places of the table have indices in the type of the ids, or
all ids are below those that have none and every index is a value. -/
def FitsIdType (ids : List (Id τ)) (infinite : ℕ) : Prop :=
  (∀ id ∈ ids, id ≠ emptyKey) ∧
    (getMapSize infinite ids.length ≤ 2 ^ (τ.bits - 2) ∨
      ids.length ≤ 2 ^ (τ.bits - 1) ∧ ∀ id ∈ ids, id.toNat < 2 ^ (τ.bits - 2))

/-! ## The sizes of tables -/

lemma exists_getMapSize (infinite : ℕ) (hids : ids ≠ []) :
    ∃ m, getMapSize infinite ids.length = 2 ^ m ∧ ids.length < 2 ^ m := by
  have hlen := List.length_pos_iff.2 hids
  refine ⟨1 + Nat.log 2 (ids.length * 3), ?_, ?_⟩
  · rw [getMapSize, if_neg (by omega)]
  · have hlt := Nat.lt_pow_succ_log_self Nat.one_lt_two (ids.length * 3)
    rw [Nat.add_comm 1]
    exact (Nat.le_mul_of_pos_right _ (by omega)).trans_lt hlt

lemma emptyTable_sized (hm : getMapSize infinite ids.length = 2 ^ m) :
    (emptyTable ids infinite).Sized m where
  mask := by rw [emptyTable, hm]
  size := by rw [emptyTable, hm]

/-- With low ids in a large table every id has its first position for itself. -/
lemma direct_of_low (hlarge : 2 ^ (τ.bits - 2) < getMapSize infinite ids.length)
    (hlow : ∀ id ∈ ids, id.toNat < 2 ^ (τ.bits - 2)) : Direct (emptyTable ids infinite) ids := by
  have hle : 2 ^ (τ.bits - 2) ≤ 2 ^ (τ.bits - 1) := Nat.pow_le_pow_right (by omega) (by omega)
  refine ⟨fun id hid => ?_, hlow, fun id hid => ?_⟩
  · obtain ⟨m, hm, -⟩ := exists_getMapSize infinite (List.ne_nil_of_mem hid)
    apply home_pos_eq (emptyTable_sized hm)
    · rw [hm] at hlarge
      have hlt := (Nat.pow_lt_pow_iff_right Nat.one_lt_two).1 hlarge
      omega
    · exact (hlow id hid).trans_le hle
  · have hid := hlow id hid
    show 2 * id.toNat + 1 < 2 * getMapSize infinite ids.length
    omega

/-- Paths of one step. -/
def directPlacement (h : Direct (emptyTable ids infinite) ids)
    (hlen : ids.length ≤ 2 ^ (τ.bits - 1)) : Placement (emptyTable ids infinite) ids where
  paths :=
    { path := fun id j => ((emptyTable ids infinite).probeAt id j).pos.toNat
      Allowed := fun id j => id ∈ ids ∧ j = 0
      zero := fun id hid => ⟨hid, rfl⟩
      next := by
        rintro id id' j j' ⟨hid, rfl⟩ ⟨hid', rfl⟩ heq hne
        rw [IdTable.probeAt_zero, IdTable.probeAt_zero, h.home id hid, h.home id' hid'] at heq
        exact absurd (BitVec.eq_of_toNat_eq heq) hne }
  steps := 1
  path_eq _ _ := rfl
  low := by
    rintro id hid j ⟨-, rfl⟩
    show ((emptyTable ids infinite).home id).pos.toNat < _
    rw [h.home id hid]
    exact h.low id hid
  inside := by
    rintro id hid j ⟨-, rfl⟩
    show 2 * ((emptyTable ids infinite).home id).pos.toNat + 1 < _
    rw [h.home id hid]
    exact h.inside id hid
  steps_lt := Nat.one_lt_two_pow (by have := τ.bits_pos; omega)
  short := by
    rintro t - - id - j ⟨-, rfl⟩ -
    exact Nat.zero_lt_one
  length_le := hlen
  noEmpty id hid hempty := by
    have hlow := h.low id hid
    have hfour := τ.four_mul
    have hnat : (emptyKey : Id τ).toNat = 2 ^ τ.bits - 1 := by
      cases τ
      · rfl
      · rfl
    rw [hempty, hnat] at hlow
    omega

lemma FitsIdType.placement (h : FitsIdType ids infinite) :
    Nonempty (Placement (emptyTable ids infinite) ids) := by
  obtain ⟨hempty, hfits⟩ := h
  by_cases hsmall : ids ≠ [] ∧ getMapSize infinite ids.length ≤ 2 ^ (τ.bits - 2)
  · obtain ⟨m, hm, hlen⟩ := exists_getMapSize infinite hsmall.1
    exact ⟨smallPlacement (emptyTable_sized hm) hlen hempty (hm ▸ hsmall.2)⟩
  · by_cases hids : ids = []
    · subst hids
      exact ⟨directPlacement ⟨nofun, nofun, nofun⟩ (Nat.zero_le _)⟩
    · rw [not_and, Nat.not_le] at hsmall
      obtain ⟨hlen, hlow⟩ := hfits.resolve_left (Nat.not_le.2 (hsmall hids))
      exact ⟨directPlacement (direct_of_low (hsmall hids) hlow) hlen⟩

/-! ## The relabelling -/

section

variable {par : ParallelFor} {s : InsertState τ}

/-- A filled table with the positions of the ids relabels. -/
lemma Filled.relabels {t₀ t : IdTable τ} {P : Placement t₀ ids} {val : Id τ → Id τ} {fuel : ℕ}
    (h : Filled P val t) (hfuel : P.steps ≤ fuel) (hle : numSeeds ≤ ids.length)
    (hseeds : (ids.take numSeeds).Nodup)
    (hval : ∀ id ∈ ids, ∃ k, val id = valueOf τ k ∧ (uniqueOf ids numSeeds)[k]? = some id) :
    (IdMap.mk t (uniqueOf ids numSeeds)).Relabels ids numSeeds fuel := by
  have hmaps : ∀ xs, (∀ x ∈ xs, x ∈ ids) →
      ∃ ys, (IdMap.mk t (uniqueOf ids numSeeds)).mapIds fuel xs = .ok ys ∧
        ys.map (IdMap.mk t (uniqueOf ids numSeeds)).idOf = xs.map some := by
    intro xs hxs
    refine ⟨xs.map val, mapM_ok fun x hx => h.mapId_eq (hxs x hx) hfuel, ?_⟩
    rw [List.map_map]
    apply List.map_congr_left
    intro x hx
    obtain ⟨k, hk, hget⟩ := hval x (hxs x hx)
    have hlen := length_uniqueOf hle
    have hcount := length_firstFrom_le ids numSeeds
    have hlt := (List.getElem?_eq_some_iff.1 hget).1
    have hint : (valueOf τ k).toInt = k := toInt_valueOf (P.lt_of_lt (by omega))
    show (if 0 ≤ (val x).toInt then (uniqueOf ids numSeeds)[(val x).toInt.toNat]? else none) = some x
    rw [hk, hint, if_pos (Int.natCast_nonneg k), Int.toNat_natCast, hget]
  refine ⟨?_, uniqueOf_nodup hseeds, fun id => mem_uniqueOf, hmaps, fun src dst hsrc hdst => ?_⟩
  · show (uniqueOf ids numSeeds).take numSeeds = _
    have hlen : (ids.take numSeeds).length = numSeeds := by rw [List.length_take, min_eq_left hle]
    rw [uniqueOf, List.take_append_of_le_length hlen.ge, List.take_take, min_self]
  · obtain ⟨src', hsrc', hdecode⟩ := hmaps src hsrc
    obtain ⟨dst', hdst', hdecode'⟩ := hmaps dst hdst
    refine ⟨src', dst', ?_, hdecode, hdecode'⟩
    rw [IdMap.uniqueAndCompact, hsrc', hdst']
    rfl

/-- A table with room for the ids relabels them exactly. -/
lemma Placement.exactRelabelling (P : Placement (emptyTable ids infinite) ids)
    (hle : numSeeds ≤ ids.length) (hseeds : (ids.take numSeeds).Nodup) (par : ParallelFor) :
    ExactRelabelling ids numSeeds infinite (uniqueOf ids numSeeds) par := by
  refine ⟨(stateOk_init P par).acc, fun s hs => (stateOk_of_reach P hs).not_faults,
    P.steps, fun s hs hend fuel hfuel => ?_⟩
  have hfilled := Placement.filled (stateOk_of_reach P hs) hend
  obtain ⟨valid, hvalid, hflatten⟩ := hfilled.validIds_eq hfuel hle par
  refine ⟨valid, hvalid, fun memory stores sets hmemory hstores hsets => ?_⟩
  rw [placed_eq, hflatten] at hstores hsets
  obtain ⟨table, hfinish, htable⟩ := hfilled.finish_eq hfuel hle hmemory hstores hsets
  refine ⟨_, hfinish, htable.relabels hfuel hle hseeds fun id hid => ?_, .refl _⟩
  exact setAll_placed hle hsets hid

variable {unique : List (Id τ)}

section

variable (h : ExactRelabelling ids numSeeds infinite unique par)
include h

/-- An exact relabelling makes a map of some table that the threads have come to. -/
lemma ExactRelabelling.exists_map :
    ∃ s, InsertReach ids infinite par s ∧ Inserted par.numThreads s ∧
      ∃ fuel valid table, validIds ids numSeeds fuel s.table par = .ok valid ∧
        (placed numSeeds valid).foldlM
          (fun t w => t.set fuel (ids.getD w.1 0) (valueOf τ w.2)) s.table = .ok table ∧
        ∀ id ∈ ids, ∃ y : Id τ, table.mapId fuel id = .ok y ∧ 0 ≤ y.toInt := by
  obtain ⟨s, hs, hend⟩ := exists_inserted h.ends .refl h.safe
  obtain ⟨fuel, hrelabels⟩ := h.relabels
  obtain ⟨valid, hvalid, hfinish⟩ := hrelabels s hs hend fuel (le_refl fuel)
  obtain ⟨m, hm, hrel, -⟩ := hfinish ids _ _ rfl (.refl _) (.refl _)
  refine ⟨s, hs, hend, fuel, valid, m.table, hvalid, ?_, fun id hid => ?_⟩
  · rw [finish] at hm
    cases hsets : (placed numSeeds valid).foldlM
        (fun t w => t.set fuel (ids.getD w.1 0) (valueOf τ w.2)) s.table with
    | error e =>
        rw [hsets] at hm
        cases hm
    | ok table =>
        rw [hsets] at hm
        obtain rfl := Except.ok.inj hm
        rfl
  · obtain ⟨ys, hys, hdecode⟩ := hrel.mapIds [id] (by simpa using hid)
    have hlen : ys.length = 1 := by simpa using congrArg List.length hdecode
    obtain ⟨y, rfl⟩ := List.length_eq_one_iff.1 hlen
    obtain ⟨x, hx, hmap⟩ := mem_of_mapM_ok hys List.mem_cons_self
    rw [List.mem_singleton] at hx
    subst hx
    refine ⟨y, hmap, ?_⟩
    have hone : m.idOf y = some x := by simpa using hdecode
    by_contra hneg
    rw [IdMap.idOf, if_neg hneg] at hone
    cases hone

lemma ExactRelabelling.noEmpty : ∀ id ∈ ids, id ≠ emptyKey := by
  obtain ⟨s, -, -, fuel, valid, table, -, -, hmap⟩ := h.exists_map
  rintro id hid rfl
  obtain ⟨y, hy, -⟩ := hmap _ hid
  exact mapId_emptyKey _ _ _ hy

lemma ExactRelabelling.low (hlarge : 2 ^ (τ.bits - 2) < getMapSize infinite ids.length)
    (hpositive : ∀ id ∈ ids, 0 ≤ id.toInt) : ∀ id ∈ ids, id.toNat < 2 ^ (τ.bits - 2) := by
  obtain ⟨s, hs, -, fuel, valid, table, -, hsets, hmap⟩ := h.exists_map
  intro id hid
  by_contra hhigh
  obtain ⟨y, hy, -⟩ := hmap id hid
  obtain ⟨m, hm, -⟩ := exists_getMapSize infinite (List.ne_nil_of_mem hid)
  have hlike := (setAll_like hsets).trans (insertReach_like hs)
  have hsized : table.Sized m :=
    ⟨hlike.mask.trans (emptyTable_sized hm).mask, hlike.size.trans (emptyTable_sized hm).size⟩
  have hbound : id.toNat < 2 ^ (τ.bits - 1) := by
    have hpos := hpositive id hid
    have htwo := τ.two_mul
    have hlt := id.isLt
    rw [BitVec.toInt_eq_toNat_cond] at hpos
    split_ifs at hpos <;> omega
  apply mapId_high hsized ?_ (Nat.not_lt.1 hhigh) hbound y hy
  rw [hm] at hlarge
  have hlt := (Nat.pow_lt_pow_iff_right Nat.one_lt_two).1 hlarge
  omega

lemma ExactRelabelling.length_le (hlarge : 2 ^ (τ.bits - 2) < getMapSize infinite ids.length)
    (hle : numSeeds ≤ ids.length) (hlow : ∀ id ∈ ids, id.toNat < 2 ^ (τ.bits - 2)) :
    ids.length ≤ 2 ^ (τ.bits - 1) := by
  obtain ⟨s, hs, hend, fuel, valid, table, hvalid, hsets, hmap⟩ := h.exists_map
  by_contra hmany
  rw [Nat.not_le] at hmany
  have hdirect := direct_of_low hlarge hlow
  have hok := (Direct.stateOk_of_reach hdirect hs).table
  have hleast := Direct.value_least hdirect hs hend hmany
  have hid : ids.getD (2 ^ (τ.bits - 1)) 0 ∈ ids := Placement.getD_mem hmany
  have hneg : (leastValue τ).toInt < 0 := by
    rw [toInt_leastValue]
    have hpos : (0 : ℤ) < 2 ^ (τ.bits - 1) := by positivity
    omega
  -- No valid index belongs to the id with the least value, and so its value is never set.
  have hother : ∀ w ∈ placed numSeeds valid, ids.getD w.1 0 ∈ ids ∧
      ids.getD w.1 0 ≠ ids.getD (2 ^ (τ.bits - 1)) 0 ∧
      s.table.keyAt (ids.getD w.1 0).toNat = some (ids.getD w.1 0) := by
    intro w hw
    rw [placed_eq] at hw
    obtain ⟨hlt, v, hv, hint⟩ := mem_validIds hle hvalid (List.mem_of_getElem?
      (List.mem_zipIdx_iff_le_and_getElem?_sub.1 hw).2)
    have hmem : ids.getD w.1 0 ∈ ids := Placement.getD_mem hlt
    obtain ⟨hkey, rfl⟩ := hdirect.key_of_mapId hok hmem hv
    refine ⟨hmem, fun heq => ?_, hkey⟩
    rw [heq, hleast] at hint
    omega
  obtain ⟨htable, hvalue⟩ := hdirect.setAll_value hok hother hsets
  obtain ⟨y, hy, hpos⟩ := hmap _ hid
  obtain ⟨-, rfl⟩ := hdirect.key_of_mapId htable hid hy
  rw [hvalue, hleast] at hpos
  omega

end

/-- One thread takes all elements. -/
def oneThread : ParallelFor where
  numThreads := 1
  bound s e t := if t = 0 then s else e
  first _ _ _ := rfl
  last _ _ _ := rfl
  mono s e hse t ht := by
    rw [if_pos (Nat.lt_one_iff.1 ht), if_neg (Nat.succ_ne_zero t)]
    exact hse

end

end DglAscend.Graphbolt
