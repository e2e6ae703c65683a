import DglAscend.Lib.Store

/-!
# The id hash map of `to_block`

`ConcurrentIdHashMap` of `array/cpu/concurrent_id_hash_map.cc` gives the ids of an array consecutive
numbers: the first `num_seeds` ids keep their positions, and the others are inserted by several
threads.  Which of the occurrences of an id is the one that inserts it is decided by the threads;
that outcome is an argument here.  The outcomes of the runs of the threads are `Race`s, as
`Graph.InsertRace` shows of the table.
-/

namespace DglAscend.Graph

/-- `ConcurrentIdHashMap`: the stored keys with their values. -/
structure IdHashMap where
  entries : List (ℕ × ℕ)
  deriving DecidableEq, Repr

namespace IdHashMap

variable {ids : List ℕ} {numSeeds : ℕ} {valid : List Bool} {x : ℕ}

/-- The ids after the seeds whose `Insert` succeeded. -/
def inserted (ids : List ℕ) (numSeeds : ℕ) (valid : List Bool) : List ℕ :=
  ((ids.drop numSeeds).zip valid).filterMap fun w => if w.2 then some w.1 else none

/-- `unique_ids`: the seeds and the inserted ids, in the order of the array. -/
def uniqueIds (ids : List ℕ) (numSeeds : ℕ) (valid : List Bool) : List ℕ :=
  ids.take numSeeds ++ inserted ids numSeeds valid

/-- `Init`.  `valid` tells for each id after the seeds whether its `Insert` succeeded. -/
def init (ids : List ℕ) (numSeeds : ℕ) (valid : List Bool) : Except String (IdHashMap × List ℕ) :=
  if ids.length < numSeeds then .error "Check failed: num_ids >= num_seeds"
  else .ok (⟨(uniqueIds ids numSeeds valid).zipIdx⟩, uniqueIds ids numSeeds valid)

/-- `MapId`: an id that is not stored is mapped to the value of an empty slot. -/
def mapId (h : IdHashMap) (id : ℕ) : ℤ :=
  match h.entries.lookup id with
  | some v => v
  | none => -1

/-- `MapIds`. -/
def mapIds (h : IdHashMap) (ids : List ℕ) : Except String (List ℤ) :=
  if ids.length = 0 then .error "Check failed: num_ids > 0" else .ok (ids.map h.mapId)

/-- What the threads may decide: every id that is not a seed is inserted by exactly one of its
occurrences, since `Insert` claims a slot by compare and swap. -/
structure Race (ids : List ℕ) (numSeeds : ℕ) (valid : List Bool) : Prop where
  length_eq : valid.length = ids.length - numSeeds
  nodup : (inserted ids numSeeds valid).Nodup
  not_seed : ∀ x ∈ inserted ids numSeeds valid, x ∉ ids.take numSeeds
  covers : ∀ x ∈ ids, x ∈ uniqueIds ids numSeeds valid

/-- The value of an id is its position among the unique ids. -/
lemma lookup_zipIdx (l : List ℕ) (n : ℕ) (hx : x ∈ l) :
    ∃ i, (l.zipIdx n).lookup x = some (n + i) ∧ l[i]? = some x := by
  induction l generalizing n with
  | nil => exact absurd hx List.not_mem_nil
  | cons y l ih =>
      rw [List.zipIdx_cons, List.lookup_cons]
      by_cases hxy : x = y
      · subst hxy
        exact ⟨0, by simp, rfl⟩
      · obtain ⟨i, hi, hget⟩ := ih (n + 1) ((List.mem_cons.1 hx).resolve_left hxy)
        refine ⟨i + 1, ?_, by simpa using hget⟩
        rw [beq_eq_false_iff_ne.2 hxy, hi, Nat.add_right_comm, Nat.add_assoc]

/-- **Mapped ids name their ids**: the unique id at the value of `x` is `x`. -/
theorem load_mapId {l : List ℕ} (hx : x ∈ l) : load l ((⟨l.zipIdx⟩ : IdHashMap).mapId x) = some x := by
  obtain ⟨i, hi, hget⟩ := lookup_zipIdx l 0 hx
  rw [mapId, hi, Nat.zero_add]
  exact (load_natCast l i).trans hget

lemma Race.nodup_uniqueIds (h : Race ids numSeeds valid) (hseeds : (ids.take numSeeds).Nodup) :
    (uniqueIds ids numSeeds valid).Nodup := by
  refine List.Nodup.append hseeds h.nodup fun x hx hx' => ?_
  exact h.not_seed x hx' hx

/-- When the ids are distinct nothing is left out. -/
lemma Race.uniqueIds_eq (h : Race ids numSeeds valid) (hids : ids.Nodup) :
    uniqueIds ids numSeeds valid = ids := by
  have hlen := h.length_eq
  have hsub : (inserted ids numSeeds valid).Sublist (ids.drop numSeeds) := by
    have hfst : ((ids.drop numSeeds).zip valid).map Prod.fst = ids.drop numSeeds :=
      List.map_fst_zip (by rw [List.length_drop, hlen])
    have hfm : (inserted ids numSeeds valid).Sublist
        (((ids.drop numSeeds).zip valid).map Prod.fst) := by
      unfold inserted
      generalize (ids.drop numSeeds).zip valid = l
      induction l with
      | nil => exact List.Sublist.refl _
      | cons w l ih =>
          obtain ⟨y, b⟩ := w
          cases b with
          | true => simpa using ih
          | false => simpa using ih.cons y
    rwa [hfst] at hfm
  have heq : inserted ids numSeeds valid = ids.drop numSeeds := by
    refine hsub.eq_of_length_le ?_
    have hmem : ∀ x ∈ ids.drop numSeeds, x ∈ inserted ids numSeeds valid := by
      intro x hx
      have hnot : x ∉ ids.take numSeeds := by
        have hdis := List.disjoint_take_drop hids (le_refl numSeeds)
        exact fun hx' => hdis hx' hx
      exact (List.mem_append.1 (h.covers x (List.mem_of_mem_drop hx))).resolve_left hnot
    exact (List.subperm_of_subset (hids.drop (i := numSeeds)) hmem).length_le
  rw [uniqueIds, heq, List.take_append_drop]

end IdHashMap

end DglAscend.Graph
