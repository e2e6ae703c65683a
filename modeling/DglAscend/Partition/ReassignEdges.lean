import DglAscend.Hetero.Formats
import DglAscend.Lib.StdAlgorithms

/-!
# Reassigning edge ids

`_CAPI_DGLReassignEdges_Hetero` of `transform/partition_hetero.cc` on the relation of a homogeneous
graph.  The ids in one CSR object are rewritten in place, in the order of the partitions of the
rows and the edge types, and afterwards the CSR and COO formats are dropped.
-/

namespace DglAscend.Hetero

open Aten

/-- An id array with the width of its elements. -/
structure Ids where
  bits : ℕ
  vals : List ℕ
  deriving DecidableEq, Repr

/-- `EdgeProperty`. -/
structure EdgeProperty where
  eid : ℕ
  idx : ℕ
  partId : ℕ
  deriving DecidableEq, Repr

/-- How the call fails: a `CHECK` or a `LOG(FATAL)`, or a write beyond `indexed_eids`. -/
inductive ReassignFailure
  | fatal
  | outOfBounds
  deriving DecidableEq, Repr

/-- `indexed_eids[j]`, for every place of the matrix. -/
def indexedEids (csr : CSRMatrix) (partId : List ℕ) : List EdgeProperty :=
  (List.range csr.numRows).flatMap fun i =>
    (csr.places i).map fun j => ⟨csr.data.getD j 0, j, partId.getD i 0⟩

/-- `comp`. -/
def comp (etype : List ℕ) (a b : EdgeProperty) : Bool :=
  if a.partId = b.partId then etype.getD a.eid 0 < etype.getD b.eid 0 else a.partId < b.partId

/-- Sorting is needed only if there are edge types. -/
def reassignOrder (sort : StdSort EdgeProperty) (csr : CSRMatrix) (etype partId : List ℕ) :
    List EdgeProperty :=
  if 0 < etype.length then sort.run (comp etype) (indexedEids csr partId) else indexedEids csr partId

/-- `new_data[new_eid] = data[orig_idx]; data[orig_idx] = new_eid` -/
def assignStep (s : List ℕ × List ℕ) (x : EdgeProperty × ℕ) : List ℕ × List ℕ :=
  (s.1 ++ [s.2.getD x.1.idx 0], s.2.set x.1.idx x.2)

/-- `_CAPI_DGLReassignEdges_Hetero`: the original ids and what the graph stores afterwards.  A null
data array has elements of `nullBits` bits. -/
def reassignEdges (sort : StdSort EdgeProperty) (T : ℕ+) (nullBits : ℕ) (s : Stored)
    (etype partId : Ids) (isIncsr : Bool) : Except ReassignFailure (List ℕ × Stored) :=
  if !(if isIncsr then s.formats.csc else s.formats.csr) then .error .fatal
  else
    match if isIncsr then s.cscMatrix T else s.csrMatrix T with
    | none => .error .fatal
    | some csr =>
        let dataBits := if csr.hasData then csr.bits else nullBits
        if etype.bits ≠ dataBits ∨ partId.bits ≠ dataBits then .error .fatal
        else if !csr.hasData && 0 < (indexedEids csr partId.vals).length then .error .outOfBounds
        else
          let order := reassignOrder sort csr etype.vals partId.vals
          let filled := order.zipIdx.foldl assignStep ([], csr.data)
          -- The matrix is the graph's own, so the new ids are its ids.  Then `InvalidateCSR` and
          -- `InvalidateCOO`.
          .ok (filled.1,
            { s with
              inCsr := if isIncsr then some { csr with data := filled.2 } else s.inCsr
              outCsr := none
              coo := none })

/-! ## The loop -/

section Assign

variable {data : List ℕ} {order : List EdgeProperty}

/-- Every place gets its position in the order, and its old id is returned. -/
lemma assign_spec (hlt : ∀ x ∈ order, x.idx < data.length) (hnodup : (order.map (·.idx)).Nodup) :
    (order.zipIdx.foldl assignStep ([], data)).1 = order.map (fun x => data.getD x.idx 0) ∧
      (order.zipIdx.foldl assignStep ([], data)).2.length = data.length ∧
      (∀ k x, order[k]? = some x →
        (order.zipIdx.foldl assignStep ([], data)).2.getD x.idx 0 = k) ∧
      ∀ j, (∀ x ∈ order, x.idx ≠ j) →
        (order.zipIdx.foldl assignStep ([], data)).2.getD j 0 = data.getD j 0 := by
  induction order using List.reverseRecOn with
  | nil => exact ⟨rfl, rfl, (fun _ _ h => nomatch h), fun _ _ => rfl⟩
  | append_singleton l x ih =>
      rw [List.map_append, List.nodup_append] at hnodup
      obtain ⟨h1, h2, h3, h4⟩ := ih (fun y hy => hlt y (List.mem_append_left _ hy)) hnodup.1
      have hx := hlt x (List.mem_append_right _ List.mem_cons_self)
      have hne : ∀ y ∈ l, y.idx ≠ x.idx := fun y hy =>
        hnodup.2.2 _ (List.mem_map_of_mem hy) _ (by simp)
      have hzip : (l ++ [x]).zipIdx = l.zipIdx ++ [(x, l.length)] := by
        rw [List.zipIdx_append]
        simp
      rw [hzip, List.foldl_append, List.foldl_cons, List.foldl_nil]
      set filled := l.zipIdx.foldl assignStep ([], data) with hfilled
      refine ⟨?_, ?_, ?_, ?_⟩
      · show filled.1 ++ [filled.2.getD x.idx 0] = _
        rw [h1, h4 x.idx hne, List.map_append]
        rfl
      · show (filled.2.set _ _).length = _
        rw [List.length_set, h2]
      · intro k y hy
        show (filled.2.set x.idx l.length).getD y.idx 0 = k
        rw [List.getElem?_append] at hy
        split at hy
        · have hyl := List.mem_of_getElem? hy
          rw [getD_set _ _ (by rw [h2]; exact hlt y (List.mem_append_left _ hyl)),
            if_neg (hne y hyl).symm]
          exact h3 k y hy
        · obtain ⟨hk, hxy⟩ := List.getElem?_eq_some_iff.1 hy
          rw [List.length_singleton] at hk
          obtain rfl : x = y := by simpa using hxy
          rw [getD_set _ _ (by rw [h2]; exact hx), if_pos rfl]
          omega
      · intro j hj
        show (filled.2.set x.idx l.length).getD j 0 = _
        have hxj := hj x (List.mem_append_right _ List.mem_cons_self)
        rw [List.getD_eq_getElem?_getD, List.getElem?_set_ne hxj, ← List.getD_eq_getElem?_getD]
        exact h4 j fun y hy => hj y (List.mem_append_left _ hy)

end Assign

/-! ## The order -/

section Order

variable {csr : CSRMatrix} {etype partId : List ℕ} {sort : StdSort EdgeProperty} {x y z : EdgeProperty}

/-- What the edges are sorted by. -/
def EdgeProperty.key (etype : List ℕ) (x : EdgeProperty) : ℕ × ℕ := (x.partId, etype.getD x.eid 0)

/-- Partitions first, then edge types. -/
def keyLe (a b : ℕ × ℕ) : Prop := a.1 < b.1 ∨ a.1 = b.1 ∧ a.2 ≤ b.2

lemma keyLe_antisymm {a b : ℕ × ℕ} (hab : keyLe a b) (hba : keyLe b a) : a = b := by
  rw [keyLe] at hab hba
  exact Prod.ext (by omega) (by omega)

lemma comp_eq_false : comp etype y x = false ↔ keyLe (x.key etype) (y.key etype) := by
  rw [comp, keyLe]
  simp only [EdgeProperty.key]
  split
  · rename_i h
    rw [decide_eq_false_iff_not]
    omega
  · rename_i h
    rw [decide_eq_false_iff_not]
    omega

lemma comp_asymm (h : comp etype x y = true) : comp etype y x = false := by
  by_contra hne
  have h' : ¬ keyLe (y.key etype) (x.key etype) := fun hle => by
    rw [comp_eq_false.2 hle] at h
    cases h
  rw [comp_eq_false] at hne
  rw [keyLe] at h' hne
  omega

lemma comp_negtrans (hxy : comp etype y x = false) (hyz : comp etype z y = false) :
    comp etype z x = false := by
  rw [comp_eq_false, keyLe] at *
  omega

lemma reassignOrder_perm : (reassignOrder sort csr etype partId).Perm (indexedEids csr partId) := by
  rw [reassignOrder]
  split
  · exact sort.perm _ _
  · exact List.Perm.refl _

lemma reassignOrder_sorted (h : 0 < etype.length) :
    (reassignOrder sort csr etype partId).Pairwise
      fun x y => keyLe (x.key etype) (y.key etype) := by
  rw [reassignOrder, if_pos h]
  refine (sort.sorted (comp etype) _ (fun _ _ => comp_asymm) fun _ _ _ => comp_negtrans).imp ?_
  intro x y hxy
  exact comp_eq_false.1 hxy

lemma map_idx (h : csr.Valid) (partId : List ℕ) :
    (indexedEids csr partId).map (·.idx) = List.range csr.nnz := by
  rw [← h.flatMap_places, indexedEids, List.map_flatMap]
  apply List.flatMap_congr
  intro r _
  rw [List.map_map]
  exact List.map_id' _

lemma length_indexedEids (h : csr.Valid) (partId : List ℕ) :
    (indexedEids csr partId).length = csr.nnz := by
  have hmap := congrArg List.length (map_idx h partId)
  rwa [List.length_map, List.length_range] at hmap

lemma mem_indexedEids : x ∈ indexedEids csr partId ↔
    ∃ r < csr.numRows, ∃ j ∈ csr.places r, x = ⟨csr.data.getD j 0, j, partId.getD r 0⟩ := by
  simp only [indexedEids, List.mem_flatMap, List.mem_map, List.mem_range]
  constructor
  · rintro ⟨r, hr, j, hj, rfl⟩
    exact ⟨r, hr, j, hj, rfl⟩
  · rintro ⟨r, hr, j, hj, rfl⟩
    exact ⟨r, hr, j, hj, rfl⟩

/-- The properties stand at the places that they are about. -/
lemma indexedEids_getElem? (h : csr.Valid) {r j : ℕ} (hr : r < csr.numRows)
    (hj : j ∈ csr.places r) :
    (indexedEids csr partId)[j]? = some ⟨csr.data.getD j 0, j, partId.getD r 0⟩ := by
  have hget : ((indexedEids csr partId).map (·.idx))[j]? = some j := by
    rw [map_idx h partId, List.getElem?_range (h.place_lt hr hj)]
  rw [List.getElem?_map, Option.map_eq_some_iff] at hget
  obtain ⟨x, hx, hxj⟩ := hget
  obtain ⟨r', hr', j', hj', rfl⟩ := mem_indexedEids.1 (List.mem_of_getElem? hx)
  obtain rfl : j' = j := hxj
  rw [hx, h.row_unique hr hr' hj hj']

end Order

/-! ## The new numbering -/

/-- The edge of the original numbering. -/
def original (ret : List ℕ) (e : Entry) : Entry := (e.1, e.2.1, ret.getD e.2.2 0)

/-- The matrix with new ids: every place has its position in the order. -/
structure Reassigned (csr : CSRMatrix) (order : List EdgeProperty) (ret data : List ℕ) : Prop where
  perm : ret.Perm (List.range csr.nnz)
  valid : CSRMatrix.Valid { csr with data := data }
  entries : (CSRMatrix.entries { csr with data := data }).map (original ret) = csr.entries
  at_place : ∀ r < csr.numRows, ∀ j ∈ csr.places r, ∃ x, order[idAt data j]? = some x ∧
    x.idx = j ∧ x.eid = ret.getD (idAt data j) 0
  ret_eq : ret = order.map (·.eid)

section Reassigned

variable {csr : CSRMatrix} {partId : List ℕ} {order : List EdgeProperty}

lemma reassigned (h : csr.Valid) (hdata : csr.data.length = csr.nnz)
    (hperm : order.Perm (indexedEids csr partId)) :
    Reassigned csr order (order.zipIdx.foldl assignStep ([], csr.data)).1
      (order.zipIdx.foldl assignStep ([], csr.data)).2 := by
  have hidx : (order.map (·.idx)).Perm (List.range csr.nnz) := by
    rw [← map_idx h partId]
    exact hperm.map _
  have hlt : ∀ x ∈ order, x.idx < csr.data.length := fun x hx => by
    rw [hdata]
    exact List.mem_range.1 (hidx.mem_iff.1 (List.mem_map_of_mem hx))
  obtain ⟨hret, hlen, hplace, -⟩ := assign_spec hlt (hidx.nodup_iff.2 List.nodup_range)
  set filled := order.zipIdx.foldl assignStep ([], csr.data) with hfilled
  have hfind (j : ℕ) (hj : j < csr.nnz) :
      ∃ k x, order[k]? = some x ∧ x.idx = j ∧ filled.2.getD j 0 = k := by
    obtain ⟨x, hx, hxj⟩ := List.mem_map.1 (hidx.mem_iff.2 (List.mem_range.2 hj))
    obtain ⟨k, hk⟩ := List.mem_iff_getElem?.1 hx
    exact ⟨k, x, hk, hxj, hxj ▸ hplace k x hk⟩
  have hid (j : ℕ) (hj : j < csr.nnz) : idAt filled.2 j = filled.2.getD j 0 := by
    apply if_neg
    intro hnil
    rw [hnil, List.length_nil, hdata] at hlen
    omega
  have horder : order.length = csr.nnz := by
    have hl := hidx.length_eq
    rwa [List.length_map, List.length_range] at hl
  have hnumbers : (order.map fun x => filled.2.getD x.idx 0) = List.range csr.nnz := by
    apply List.ext_getElem
    · rw [List.length_map, List.length_range, horder]
    · intro k hk hk'
      rw [List.length_map] at hk
      rw [List.getElem_map, List.getElem_range]
      exact hplace k _ (List.getElem?_eq_getElem hk)
  have hall : filled.2 = (List.range csr.nnz).map fun j => filled.2.getD j 0 := by
    apply List.ext_getElem
    · rw [List.length_map, List.length_range, hlen, hdata]
    · intro j hj hj'
      rw [List.getElem_map, List.getElem_range, List.getD_eq_getElem _ _ hj]
  have hdataAll : csr.data = (List.range csr.nnz).map fun j => csr.data.getD j 0 := by
    apply List.ext_getElem
    · rw [List.length_map, List.length_range, hdata]
    · intro j hj hj'
      rw [List.getElem_map, List.getElem_range, List.getD_eq_getElem _ _ hj]
  have hfilledPerm : filled.2.Perm (List.range csr.nnz) := by
    rw [← hnumbers]
    nth_rewrite 1 [hall]
    have hmap := hidx.map fun j => filled.2.getD j 0
    rw [List.map_map] at hmap
    exact hmap.symm
  have hdataPerm : csr.data.Perm (List.range csr.nnz) := by
    rcases h.numbers with hnil | hperm
    · rw [hnil, List.length_nil] at hdata
      rw [hnil, ← hdata]
      exact List.Perm.refl _
    · exact hperm
  have hplaces (r : ℕ) (hr : r < csr.numRows) (j : ℕ) (hj : j ∈ csr.places r) :
      ∃ x, order[idAt filled.2 j]? = some x ∧ x.idx = j ∧
        x.eid = filled.1.getD (idAt filled.2 j) 0 ∧
        filled.1.getD (idAt filled.2 j) 0 = csr.data.getD j 0 := by
    have hjn := h.place_lt hr hj
    obtain ⟨k, x, hk, hxj, hfk⟩ := hfind j hjn
    rw [hid j hjn, hfk]
    have hretk : filled.1.getD k 0 = csr.data.getD j 0 := by
      rw [hret, List.getD_eq_getElem?_getD, List.getElem?_map, hk, ← hxj]
      rfl
    refine ⟨x, hk, hxj, ?_, hretk⟩
    obtain ⟨r', hr', j', hj', rfl⟩ := mem_indexedEids.1 (hperm.mem_iff.1 (List.mem_of_getElem? hk))
    obtain rfl : j' = j := hxj
    exact hretk.symm
  refine ⟨?_, ?_, ?_, ?_, ?_⟩
  · rw [hret]
    have hmap := hidx.map fun j => csr.data.getD j 0
    rw [List.map_map, ← hdataAll] at hmap
    exact hmap.trans hdataPerm
  · exact ⟨h.indptr_length, h.ptr_zero, h.ptr_mono, h.ptr_last, h.col_lt, Or.inr hfilledPerm⟩
  · rw [CSRMatrix.entries, CSRMatrix.entries, List.map_flatMap]
    apply List.flatMap_congr
    intro r hr
    rw [CSRMatrix.rowEntries, CSRMatrix.rowEntries, List.map_map]
    apply List.map_congr_left
    intro j hj
    have hr := List.mem_range.1 hr
    obtain ⟨x, -, -, -, heq⟩ := hplaces r hr j hj
    have hjn := h.place_lt hr hj
    have hdid : idAt csr.data j = csr.data.getD j 0 := by
      apply if_neg
      intro hnil
      rw [hnil, List.length_nil] at hdata
      omega
    show (r, csr.indices.getD j 0, filled.1.getD (idAt filled.2 j) 0) =
      (r, csr.indices.getD j 0, idAt csr.data j)
    rw [heq, hdid]
  · intro r hr j hj
    obtain ⟨x, h1, h2, h3, -⟩ := hplaces r hr j hj
    exact ⟨x, h1, h2, h3⟩
  · rw [hret]
    apply List.map_congr_left
    intro x hx
    obtain ⟨r, hr, j, hj, rfl⟩ := mem_indexedEids.1 (hperm.mem_iff.1 hx)
    rfl

end Reassigned

end DglAscend.Hetero
