import DglAscend.Graphbolt.IdHashMapLookups

/-!
# The unique ids

What the constructor makes of the filled table.  The valid ids are the first occurrences behind the
seeds, whatever the threads are; in whatever order the threads store them and set their values, the
unique ids are the seeds and the first occurrences, and the table holds the positions
(`Filled.finish_eq`).
-/

namespace DglAscend.Graphbolt

variable {τ : IdType} {ids : List (Id τ)} {t t₀ : IdTable τ} {P : Placement t₀ ids}
  {val : Id τ → Id τ} {id : Id τ} {fuel numSeeds i : ℕ} {par : ParallelFor}

/-! ## First occurrences -/

/-- The first occurrences from an index on. -/
def firstFrom (ids : List (Id τ)) (s : ℕ) : List ℕ :=
  (List.range' s (ids.length - s)).filter fun i => ids.idxOf (ids.getD i 0) = i

/-- The seeds and the first occurrences behind them. -/
def uniqueOf (ids : List (Id τ)) (numSeeds : ℕ) : List (Id τ) :=
  ids.take numSeeds ++ (firstFrom ids numSeeds).map fun i => ids.getD i 0

lemma mem_firstFrom : i ∈ firstFrom ids numSeeds ↔
    numSeeds ≤ i ∧ i < ids.length ∧ ids.idxOf (ids.getD i 0) = i := by
  rw [firstFrom, List.mem_filter, List.mem_range'_1, decide_eq_true_iff]
  constructor
  · rintro ⟨⟨hle, hlt⟩, heq⟩
    exact ⟨hle, by omega, heq⟩
  · rintro ⟨hle, hlt, heq⟩
    exact ⟨⟨hle, by omega⟩, heq⟩

lemma getD_idxOf (hid : id ∈ ids) : ids.getD (ids.idxOf id) 0 = id := by
  rw [List.getD_eq_getElem _ _ (List.idxOf_lt_length_of_mem hid), List.getElem_idxOf]

/-- An id that is not among the seeds has its first occurrence behind them. -/
lemma idxOf_mem_firstFrom (hid : id ∈ ids) (hle : numSeeds ≤ ids.idxOf id) :
    ids.idxOf id ∈ firstFrom ids numSeeds := by
  rw [mem_firstFrom, getD_idxOf hid]
  exact ⟨hle, List.idxOf_lt_length_of_mem hid, rfl⟩

lemma mem_of_mem_firstFrom (hi : i ∈ firstFrom ids numSeeds) : ids.getD i 0 ∈ ids :=
  Placement.getD_mem (mem_firstFrom.1 hi).2.1

lemma length_firstFrom_le (ids : List (Id τ)) (s : ℕ) :
    (firstFrom ids s).length ≤ ids.length - s := by
  rw [firstFrom]
  exact (List.length_filter_le _ _).trans_eq List.length_range'

lemma firstFrom_nodup (ids : List (Id τ)) (s : ℕ) :
    ((firstFrom ids s).map fun i => ids.getD i 0).Nodup := by
  apply List.Nodup.map_on
  · intro i hi j hj heq
    rw [← (mem_firstFrom.1 hi).2.2, ← (mem_firstFrom.1 hj).2.2, heq]
  · exact List.Nodup.filter _ List.nodup_range'

/-- Among the first ids are those with a small first index. -/
lemma mem_take_iff : id ∈ ids.take numSeeds ↔ id ∈ ids ∧ ids.idxOf id < numSeeds := by
  constructor
  · intro hid
    refine ⟨List.mem_of_mem_take hid, ?_⟩
    have hlt := List.idxOf_lt_length_of_mem hid
    have happend : (ids.take numSeeds ++ ids.drop numSeeds).idxOf id = (ids.take numSeeds).idxOf id := by
      rw [List.idxOf_append, if_pos hid]
    rw [List.take_append_drop] at happend
    rw [List.length_take] at hlt
    omega
  · rintro ⟨hid, hlt⟩
    have hlen := List.idxOf_lt_length_of_mem hid
    have hget := getD_idxOf hid
    rw [List.getD_eq_getElem _ _ hlen] at hget
    rw [List.mem_take_iff_getElem]
    exact ⟨ids.idxOf id, by omega, hget⟩

lemma mem_uniqueOf : id ∈ uniqueOf ids numSeeds ↔ id ∈ ids := by
  rw [uniqueOf, List.mem_append]
  constructor
  · rintro (hid | hid)
    · exact List.mem_of_mem_take hid
    · obtain ⟨i, hi, rfl⟩ := List.mem_map.1 hid
      exact mem_of_mem_firstFrom hi
  · intro hid
    by_cases hlt : ids.idxOf id < numSeeds
    · exact Or.inl (mem_take_iff.2 ⟨hid, hlt⟩)
    · right
      exact List.mem_map.2 ⟨ids.idxOf id, idxOf_mem_firstFrom hid (Nat.not_lt.1 hlt), getD_idxOf hid⟩

lemma uniqueOf_nodup (hseeds : (ids.take numSeeds).Nodup) : (uniqueOf ids numSeeds).Nodup := by
  rw [uniqueOf, List.nodup_append]
  refine ⟨hseeds, firstFrom_nodup ids numSeeds, fun x hx y hy hxy => ?_⟩
  obtain ⟨i, hi, rfl⟩ := List.mem_map.1 hy
  obtain ⟨hle, -, heq⟩ := mem_firstFrom.1 hi
  have hlt := (mem_take_iff.1 hx).2
  rw [hxy, heq] at hlt
  omega

lemma length_uniqueOf (hle : numSeeds ≤ ids.length) :
    (uniqueOf ids numSeeds).length = numSeeds + (firstFrom ids numSeeds).length := by
  rw [uniqueOf, List.length_append, List.length_take, List.length_map, min_eq_left hle]

/-! ## The valid ids -/

lemma Filled.validIn_eq (h : Filled P (fun id => valueOf τ (ids.idxOf id)) t)
    (hfuel : P.steps ≤ fuel) {s e : ℕ} (he : e ≤ ids.length) :
    validIn ids fuel t s e =
      .ok ((List.range' s (e - s)).filter fun i => ids.idxOf (ids.getD i 0) = i) := by
  apply filterM_ok
  intro i hi
  have hlt : i < ids.length := by
    have hi' := List.mem_range'_1.1 hi
    omega
  have hmem : ids.getD i 0 ∈ ids := Placement.getD_mem hlt
  rw [h.mapId_eq hmem hfuel]
  show Except.ok (decide ((valueOf τ (ids.idxOf (ids.getD i 0))).toInt = (i : ℤ))) = _
  rw [toInt_valueOf (P.lt_of_lt (List.idxOf_lt_length_of_mem hmem))]
  simp only [Nat.cast_inj]

/-- **The threads together** find the first occurrences valid. -/
lemma Filled.validIds_eq (h : Filled P (fun id => valueOf τ (ids.idxOf id)) t)
    (hfuel : P.steps ≤ fuel) (hle : numSeeds ≤ ids.length) (par : ParallelFor) :
    ∃ valid, validIds ids numSeeds fuel t par = .ok valid ∧ valid.flatten = firstFrom ids numSeeds := by
  have hfirst := par.first numSeeds ids.length hle
  have hlast := par.last numSeeds ids.length hle
  have hmono := par.mono numSeeds ids.length hle
  refine ⟨_, mapM_ok fun k hk => h.validIn_eq hfuel ?_, ?_⟩
  · have hbound := boundary_mono hmono (List.mem_range.1 hk) (le_refl _)
    rwa [hlast] at hbound
  · rw [← List.flatMap_def, ← List.filter_flatMap]
    show (slotItems (par.bound numSeeds ids.length) par.numThreads).filter _ = _
    rw [slotItems_eq_range' hmono, hfirst, hlast]
    rfl

/-- The positions of the valid ids are one behind the other. -/
lemma placed_eq (s : ℕ) (valid : List (List ℕ)) : placed s valid = valid.flatten.zipIdx s := by
  have hrest (before rest : List (List ℕ)) :
      (rest.zipIdx before.length).flatMap (fun v => v.1.zipIdx (blockOffset (before ++ rest) v.2 + s)) =
        rest.flatten.zipIdx (before.flatten.length + s) := by
    induction rest generalizing before with
    | nil => rfl
    | cons l rest ih =>
        have hih := ih (before ++ [l])
        rw [List.append_assoc, List.length_append, List.flatten_append, List.length_append] at hih
        rw [List.zipIdx_cons, List.flatMap_cons, List.flatten_cons, List.zipIdx_append]
        have hoffset : blockOffset (before ++ l :: rest) before.length = before.flatten.length := by
          rw [blockOffset, List.take_left, List.length_flatten]
        rw [hoffset]
        congr 1
        have hsum : before.flatten.length + s + l.length =
            before.flatten.length + [l].flatten.length + s := by
          simp only [List.flatten_cons, List.flatten_nil, List.append_nil]
          omega
        rw [hsum]
        exact hih
  have hall := hrest [] valid
  simpa [placed] using hall

/-! ## The end of the constructor -/

section

variable {stores sets : List (ℕ × ℕ)} {memory : List (Id τ)}

/-- What is stored at positions behind the seeds. -/
lemma mem_placed {w : ℕ × ℕ} : w ∈ (firstFrom ids numSeeds).zipIdx numSeeds ↔
    numSeeds ≤ w.2 ∧ (firstFrom ids numSeeds)[w.2 - numSeeds]? = some w.1 := by
  obtain ⟨i, k⟩ := w
  rw [List.mem_zipIdx_iff_le_and_getElem?_sub]

/-- The unique ids at a position behind the seeds. -/
lemma uniqueOf_placed (hle : numSeeds ≤ ids.length) {w : ℕ × ℕ}
    (hw : w ∈ (firstFrom ids numSeeds).zipIdx numSeeds) :
    (uniqueOf ids numSeeds)[w.2]? = some (ids.getD w.1 0) := by
  obtain ⟨hseeds, hget⟩ := mem_placed.1 hw
  have hlen : (ids.take numSeeds).length = numSeeds := by
    rw [List.length_take, min_eq_left hle]
  rw [uniqueOf, List.getElem?_append_right (by omega), hlen, List.getElem?_map, hget, Option.map_some]

/-- **The unique ids** after all stores. -/
lemma uniqueIds_eq (hle : numSeeds ≤ ids.length) (hmemory : memory.length = ids.length)
    (hstores : stores.Perm ((firstFrom ids numSeeds).zipIdx numSeeds)) :
    (applyWrites (ids.take numSeeds ++ memory.drop numSeeds)
      (stores.map fun w => (w.2, ids.getD w.1 0))).take (numSeeds + (firstFrom ids numSeeds).length) =
      uniqueOf ids numSeeds := by
  have hcount := length_firstFrom_le ids numSeeds
  have hlen := length_uniqueOf hle
  set rest := memory.drop (uniqueOf ids numSeeds).length with hrest
  have hout : (ids.take numSeeds ++ memory.drop numSeeds).length =
      (uniqueOf ids numSeeds ++ rest).length := by
    simp only [hrest, List.length_append, List.length_take, List.length_drop]
    omega
  have hvalues : ∀ w ∈ stores.map fun w => (w.2, ids.getD w.1 0),
      (uniqueOf ids numSeeds ++ rest)[w.1]? = some w.2 := by
    intro w hw
    obtain ⟨v, hv, rfl⟩ := List.mem_map.1 hw
    have hget := uniqueOf_placed hle (hstores.subset hv)
    rw [List.getElem?_append_left (List.getElem?_eq_some_iff.1 hget).1]
    exact hget
  rw [← hlen]
  apply List.ext_getElem?
  intro k
  by_cases hk : k < (uniqueOf ids numSeeds).length
  · rw [List.getElem?_take_of_lt hk, applyWrites_getElem? hout hvalues]
    by_cases hmem : k ∈ (stores.map fun w => (w.2, ids.getD w.1 0)).map Prod.fst
    · rw [if_pos hmem, List.getElem?_append_left hk]
    · rw [if_neg hmem]
      -- All positions behind the seeds are written.
      have hseed : k < numSeeds := by
        by_contra hge
        apply hmem
        rw [List.map_map]
        have hlt : k - numSeeds < (firstFrom ids numSeeds).length := by omega
        refine List.mem_map.2 ⟨((firstFrom ids numSeeds)[k - numSeeds], k), hstores.symm.subset ?_, rfl⟩
        exact mem_placed.2 ⟨Nat.not_lt.1 hge, List.getElem?_eq_getElem hlt⟩
      have htake : k < (ids.take numSeeds).length := by
        rw [List.length_take]
        omega
      rw [uniqueOf, List.getElem?_append_left htake, List.getElem?_append_left htake]
  · rw [List.getElem?_eq_none (Nat.not_lt.1 hk), List.getElem?_eq_none]
    exact (List.length_take_le _ _).trans (Nat.not_lt.1 hk)

/-- **The position of an id** after all calls of `Set`. -/
lemma setAll_placed (hle : numSeeds ≤ ids.length)
    (hsets : sets.Perm ((firstFrom ids numSeeds).zipIdx numSeeds)) (hid : id ∈ ids) :
    ∃ k, setAll ids (fun id => valueOf τ (ids.idxOf id)) sets id = valueOf τ k ∧
      (uniqueOf ids numSeeds)[k]? = some id := by
  have hget := getD_idxOf hid
  have hlt := List.idxOf_lt_length_of_mem hid
  by_cases hseed : ids.idxOf id < numSeeds
  · refine ⟨ids.idxOf id, setAll_of_notMem fun w hw heq => ?_, ?_⟩
    · obtain ⟨-, hw'⟩ := mem_placed.1 (hsets.subset hw)
      obtain ⟨hge, -, hidx⟩ := mem_firstFrom.1 (List.mem_of_getElem? hw')
      rw [heq] at hidx
      omega
    · rw [uniqueOf, List.getElem?_append_left (by rw [List.length_take]; omega),
        List.getElem?_take_of_lt hseed, List.getElem?_eq_getElem hlt, List.getElem_idxOf]
  · obtain ⟨q, hq, hget'⟩ := List.mem_iff_getElem.1 (idxOf_mem_firstFrom hid (Nat.not_lt.1 hseed))
    have hw : (ids.idxOf id, numSeeds + q) ∈ (firstFrom ids numSeeds).zipIdx numSeeds := by
      refine mem_placed.2 ⟨Nat.le_add_right _ _, ?_⟩
      rw [Nat.add_sub_cancel_left, List.getElem?_eq_getElem hq, hget']
    have hnodup : (sets.map fun w => ids.getD w.1 0).Nodup := by
      have hperm := hsets.map fun w => ids.getD w.1 0
      rw [hperm.nodup_iff]
      have hfst : ((firstFrom ids numSeeds).zipIdx numSeeds).map (fun w => ids.getD w.1 0) =
          (firstFrom ids numSeeds).map fun i => ids.getD i 0 := by
        conv_rhs => rw [← List.zipIdx_map_fst numSeeds (firstFrom ids numSeeds)]
        rw [List.map_map]
        rfl
      rw [hfst]
      exact firstFrom_nodup ids numSeeds
    refine ⟨numSeeds + q, ?_, ?_⟩
    · have hset : setAll ids (fun id => valueOf τ (ids.idxOf id)) sets
          (ids.getD (ids.idxOf id) 0) = valueOf τ (numSeeds + q) :=
        setAll_of_mem hnodup (hsets.symm.subset hw)
      rwa [hget] at hset
    · have hplace := uniqueOf_placed hle hw
      rwa [hget] at hplace

/-- **The end of the constructor**, whatever the order of the stores and of the calls of `Set`. -/
theorem Filled.finish_eq (h : Filled P (fun id => valueOf τ (ids.idxOf id)) t)
    (hfuel : P.steps ≤ fuel) (hle : numSeeds ≤ ids.length) (hmemory : memory.length = ids.length)
    (hstores : stores.Perm ((firstFrom ids numSeeds).zipIdx numSeeds))
    (hsets : sets.Perm ((firstFrom ids numSeeds).zipIdx numSeeds)) :
    ∃ table, finish ids numSeeds fuel t memory stores sets = .ok ⟨table, uniqueOf ids numSeeds⟩ ∧
      Filled P (setAll ids (fun id => valueOf τ (ids.idxOf id)) sets) table := by
  have hmem : ∀ w ∈ sets, ids.getD w.1 0 ∈ ids := by
    intro w hw
    obtain ⟨-, hw'⟩ := mem_placed.1 (hsets.subset hw)
    exact mem_of_mem_firstFrom (List.mem_of_getElem? hw')
  obtain ⟨table, heq, hfilled⟩ := h.setAll_eq hfuel hmem
  refine ⟨table, ?_, hfilled⟩
  rw [finish, heq]
  show Except.ok (IdMap.mk table _) = _
  rw [hsets.length_eq, List.length_zipIdx, uniqueIds_eq hle hmemory hstores]

end

end DglAscend.Graphbolt
