import DglAscend.Aten.Conversions

/-!
# Slices of matrices

`COOSliceRows`, `COOSliceMatrix`, `CSRSliceRows` and `CSRSliceMatrix` on the host.  The rows of a
slice are numbered by their places in the id array; `IdHashMap` numbers the distinct ids of an array
by their first occurrences.
-/

namespace DglAscend.Aten

/-- How a call fails: a check stops it, or it reads memory that is not there. -/
inductive Fault
  | raised
  | outOfBounds
  deriving DecidableEq, Repr

/-! ## `IdHashMap` -/

/-- `IdHashMap`: the ids in the order of their numbers. -/
structure IdHashMap where
  ids : List ℕ
  deriving DecidableEq, Repr

namespace IdHashMap

/-- `oldv2newv_.insert({id, oldv2newv_.size()})` -/
def insert (m : IdHashMap) (id : ℕ) : IdHashMap := if id ∈ m.ids then m else ⟨m.ids ++ [id]⟩

/-- The map of an id array. -/
def ofIds (ids : List ℕ) : IdHashMap := ids.foldl insert ⟨[]⟩

/-- `Map`; the default value is `none`. -/
def map (m : IdHashMap) (id : ℕ) : Option ℕ := if id ∈ m.ids then some (m.ids.idxOf id) else none

variable {xs ys : List ℕ} {x : ℕ}

lemma insert_ids (m : IdHashMap) (xs : List ℕ) (hm : m.ids.Nodup) :
    (xs.foldl insert m).ids.Nodup ∧ m.ids <+: (xs.foldl insert m).ids ∧
      ∀ x, x ∈ (xs.foldl insert m).ids ↔ x ∈ m.ids ∨ x ∈ xs := by
  induction xs generalizing m with
  | nil => exact ⟨hm, List.prefix_rfl, fun x => by simp⟩
  | cons y xs ih =>
      rw [List.foldl_cons, insert]
      by_cases hy : y ∈ m.ids
      · rw [if_pos hy]
        obtain ⟨hnodup, hpre, hmem⟩ := ih m hm
        refine ⟨hnodup, hpre, fun x => ?_⟩
        rw [hmem, List.mem_cons]
        constructor
        · tauto
        · rintro (hx | rfl | hx)
          · exact Or.inl hx
          · exact Or.inl hy
          · exact Or.inr hx
      · rw [if_neg hy]
        have hm' : (m.ids ++ [y]).Nodup := by
          rw [List.nodup_append]
          exact ⟨hm, List.nodup_singleton y, fun a ha b hb hab => by
            obtain rfl := List.mem_singleton.1 hb
            exact hy (hab ▸ ha)⟩
        obtain ⟨hnodup, hpre, hmem⟩ := ih ⟨m.ids ++ [y]⟩ hm'
        refine ⟨hnodup, (List.prefix_append _ _).trans hpre, fun x => ?_⟩
        rw [hmem, List.mem_append, List.mem_singleton, List.mem_cons]
        tauto

lemma nodup_ofIds (xs : List ℕ) : (ofIds xs).ids.Nodup := (insert_ids ⟨[]⟩ xs List.nodup_nil).1

lemma mem_ofIds : x ∈ (ofIds xs).ids ↔ x ∈ xs := by
  rw [ofIds, (insert_ids ⟨[]⟩ xs List.nodup_nil).2.2 x]
  simp

lemma prefix_ofIds (xs ys : List ℕ) : (ofIds xs).ids <+: (ofIds (xs ++ ys)).ids := by
  rw [ofIds, ofIds, List.foldl_append]
  exact (insert_ids _ ys (nodup_ofIds xs)).2.1

lemma getD_idxOf (hx : x ∈ xs) : xs.getD (xs.idxOf x) 0 = x := by
  rw [List.getD_eq_getElem _ _ (List.idxOf_lt_length_of_mem hx), List.getElem_idxOf]

lemma ofIds_of_nodup (h : xs.Nodup) : (ofIds xs).ids = xs := by
  induction xs using List.reverseRecOn with
  | nil => rfl
  | append_singleton xs y ih =>
      rw [List.nodup_append] at h
      have hxs := ih h.1
      have hy : y ∉ (ofIds xs).ids := by
        rw [mem_ofIds]
        exact fun hy => h.2.2 y hy y List.mem_cons_self rfl
      rw [ofIds, List.foldl_append, List.foldl_cons, List.foldl_nil]
      show (insert (ofIds xs) y).ids = _
      rw [insert, if_neg hy, hxs]

lemma map_ofIds_of_nodup (h : xs.Nodup) (x : ℕ) :
    (ofIds xs).map x = if x ∈ xs then some (xs.idxOf x) else none := by
  rw [map, ofIds_of_nodup h]

lemma mem_map_ofIds {p : ℕ} :
    p ∈ (ofIds xs).map x ↔ x ∈ xs ∧ (ofIds xs).ids.idxOf x = p := by
  rw [map, Option.mem_def]
  by_cases hx : x ∈ xs
  · rw [if_pos (mem_ofIds.2 hx), Option.some_inj, and_iff_right hx]
  · rw [if_neg fun hmem => hx (mem_ofIds.1 hmem)]
    exact iff_of_false nofun fun h => hx h.1

lemma map_ofIds_inj {y p : ℕ} (hx : p ∈ (ofIds xs).map x) (hy : p ∈ (ofIds xs).map y) : x = y := by
  rw [mem_map_ofIds] at hx hy
  exact (List.idxOf_inj (mem_ofIds.2 hx.1)).1 (hx.2.trans hy.2.symm)

/-- The numbers are in the order of the first occurrences. -/
lemma idxOf_ofIds_lt_iff {y : ℕ} (hx : x ∈ xs) (hy : y ∈ xs) :
    (ofIds xs).ids.idxOf x < (ofIds xs).ids.idxOf y ↔ xs.idxOf x < xs.idxOf y := by
  induction xs using List.reverseRecOn with
  | nil => cases hx
  | append_singleton xs z ih =>
      have hstep : ofIds (xs ++ [z]) = insert (ofIds xs) z := by
        rw [ofIds, List.foldl_append]
        rfl
      rw [List.mem_append, List.mem_singleton] at hx hy
      rw [hstep, insert]
      by_cases hz : z ∈ xs
      · have hx' : x ∈ xs := hx.elim id fun h => h ▸ hz
        have hy' : y ∈ xs := hy.elim id fun h => h ▸ hz
        rw [if_pos (mem_ofIds.2 hz), List.idxOf_append_of_mem hx', List.idxOf_append_of_mem hy']
        exact ih hx' hy'
      · have hids : z ∉ (ofIds xs).ids := fun h => hz (mem_ofIds.1 h)
        have hlast (l : List ℕ) (hl : z ∉ l) : (l ++ [z]).idxOf z = l.length := by
          rw [List.idxOf_append_of_notMem hl, List.idxOf_cons_self, Nat.add_zero]
        have hbefore (l : List ℕ) {w : ℕ} (hw : w ∈ l) : (l ++ [z]).idxOf w < l.length := by
          rw [List.idxOf_append_of_mem hw]
          exact List.idxOf_lt_length_of_mem hw
        rw [if_neg hids]
        rcases hx with hx | rfl <;> rcases hy with hy | rfl
        · rw [List.idxOf_append_of_mem hx, List.idxOf_append_of_mem hy,
            List.idxOf_append_of_mem (mem_ofIds.2 hx), List.idxOf_append_of_mem (mem_ofIds.2 hy)]
          exact ih hx hy
        · rw [hlast _ hids, hlast _ hz]
          exact iff_of_true (hbefore _ (mem_ofIds.2 hx)) (hbefore _ hx)
        · rw [hlast _ hids, hlast _ hz]
          exact iff_of_false (hbefore _ (mem_ofIds.2 hy)).not_gt (hbefore _ hy).not_gt
        · exact iff_of_false (lt_irrefl _) (lt_irrefl _)

lemma length_ofIds_le (xs : List ℕ) : (ofIds xs).ids.length ≤ xs.length :=
  ((nodup_ofIds xs).subperm fun _ hx => mem_ofIds.1 hx).length_le

lemma map_ofIds_lt {p : ℕ} (hp : p ∈ (ofIds xs).map x) : p < xs.length := by
  obtain ⟨hx, rfl⟩ := mem_map_ofIds.1 hp
  exact (List.idxOf_lt_length_of_mem (mem_ofIds.2 hx)).trans_le (length_ofIds_le xs)

end IdHashMap

/-! ## COO -/

namespace COOMatrix

/-- The matrix of collected rows, columns and ids. -/
def ofEntries (bits numRows numCols : ℕ) (es : List Entry) (rowSorted colSorted : Bool) :
    COOMatrix where
  bits := bits
  numRows := numRows
  numCols := numCols
  row := es.map Prod.fst
  col := es.map fun e => e.2.1
  data := es.map fun e => e.2.2
  rowSorted := rowSorted
  colSorted := colSorted

/-- `COOSliceRows`. -/
def sliceRows (coo : COOMatrix) (rows : List ℕ) : COOMatrix :=
  ofEntries coo.bits rows.length coo.numCols
    (coo.entries.filterMap fun e => ((IdHashMap.ofIds rows).map e.1).map fun r => (r, e.2))
    coo.rowSorted coo.colSorted

/-- `COOSliceMatrix`. -/
def sliceMatrix (coo : COOMatrix) (rows cols : List ℕ) : COOMatrix :=
  ofEntries coo.bits rows.length cols.length
    (coo.entries.filterMap fun e =>
      ((IdHashMap.ofIds rows).map e.1).bind fun r =>
        ((IdHashMap.ofIds cols).map e.2.1).map fun c => (r, c, e.2.2))
    coo.rowSorted coo.colSorted

lemma entries_of_arrays {coo : COOMatrix} {es : List Entry} (hrow : coo.row = es.map Prod.fst)
    (hcol : coo.col = es.map fun e => e.2.1) (hdata : coo.data = es.map fun e => e.2.2) :
    coo.entries = es := by
  have hnnz : coo.nnz = es.length := by
    rw [nnz, hrow, List.length_map]
  apply List.ext_getElem
  · rw [entries, List.length_map, List.length_range, hnnz]
  · intro i hi hi'
    have hne : coo.data ≠ [] := by
      rw [hdata]
      intro hnil
      rw [List.map_eq_nil_iff.1 hnil] at hi'
      exact absurd hi' (Nat.not_lt_zero i)
    simp only [entries, List.getElem_map, List.getElem_range]
    rw [entry, idAt, if_neg hne, hrow, hcol, hdata, List.getD_eq_getElem _ _ (by simpa using hi'),
      List.getD_eq_getElem _ _ (by simpa using hi'), List.getD_eq_getElem _ _ (by simpa using hi'),
      List.getElem_map, List.getElem_map, List.getElem_map]

@[simp] lemma entries_ofEntries (bits numRows numCols : ℕ) (es : List Entry) (rs cs : Bool) :
    (ofEntries bits numRows numCols es rs cs).entries = es := entries_of_arrays rfl rfl rfl

end COOMatrix

/-! ## CSR -/

namespace CSRMatrix

/-- The matrix of collected columns and ids; `indptr` is the prefix sum of the lengths. -/
def ofRows (bits numCols : ℕ) (rows : List (List (ℕ × ℕ))) (sorted : Bool) : CSRMatrix where
  bits := bits
  numRows := rows.length
  numCols := numCols
  indptr := (List.range (rows.length + 1)).map fun i => ((rows.take i).map List.length).sum
  indices := rows.flatten.map Prod.fst
  data := rows.flatten.map Prod.snd
  sorted := sorted

/-- `CSRSliceRows`. -/
def sliceRows (csr : CSRMatrix) (rows : List ℕ) : Except Fault CSRMatrix :=
  if rows.any fun r => csr.numRows ≤ r then .error .raised
  else .ok (ofRows csr.bits csr.numCols (rows.map fun r => (csr.rowEntries r).map Prod.snd)
    csr.sorted)

/-- `CSRSliceMatrix`. -/
def sliceMatrix (csr : CSRMatrix) (rows cols : List ℕ) : Except Fault CSRMatrix :=
  if rows.any fun r => csr.numRows ≤ r then .error .raised
  else .ok (ofRows csr.bits cols.length (rows.map fun r => (csr.rowEntries r).filterMap fun e =>
    ((IdHashMap.ofIds cols).map e.2.1).map fun c => (c, e.2.2)) false)

section OfRows

variable {bits numCols : ℕ} {rows : List (List (ℕ × ℕ))} {sorted : Bool} {i k : ℕ}

lemma ofRows_ptr (hi : i ≤ rows.length) :
    (ofRows bits numCols rows sorted).ptr i = ((rows.take i).map List.length).sum := by
  show ((List.range (rows.length + 1)).map _).getD i 0 = _
  rw [List.getD_eq_getElem _ _ (by simpa using Nat.lt_succ_of_le hi), List.getElem_map,
    List.getElem_range]

lemma ofRows_ptr_succ (hi : i < rows.length) : (ofRows bits numCols rows sorted).ptr (i + 1) =
      (ofRows bits numCols rows sorted).ptr i + rows[i].length := by
  rw [ofRows_ptr hi, ofRows_ptr hi.le, List.take_add_one, List.getElem?_eq_getElem hi,
    Option.toList_some, List.map_append, List.sum_append, List.map_singleton, List.sum_singleton]

lemma framed_ofRows : (ofRows bits numCols rows sorted).Framed where
  ptr_zero := ofRows_ptr (Nat.zero_le _)
  ptr_mono := by
    intro r hr
    rw [ofRows_ptr_succ hr]
    exact Nat.le_add_right _ _
  ptr_last := by
    show (ofRows bits numCols rows sorted).ptr rows.length = (rows.flatten.map Prod.fst).length
    rw [ofRows_ptr le_rfl, List.take_length, List.length_map, List.length_flatten]

/-- What the arrays hold at a place of a row. -/
lemma ofRows_get (bits numCols : ℕ) (sorted : Bool) (hi : i < rows.length) (hk : k < rows[i].length) :
    rows.flatten[(ofRows bits numCols rows sorted).ptr i + k]? = some rows[i][k] := by
  have hget := getElem?_flatMap rows id (i := i) (x := rows[i]) (k := k)
    (List.getElem?_eq_getElem hi) hk
  rw [List.flatMap_id, List.flatMap_id, List.length_flatten] at hget
  rw [ofRows_ptr hi.le, hget]
  exact List.getElem?_eq_getElem hk

lemma rowEntries_ofRows (hi : i < rows.length) :
    (ofRows bits numCols rows sorted).rowEntries i = rows[i].map fun x => (i, x) := by
  rw [rowEntries, places, ofRows_ptr_succ hi, Nat.add_sub_cancel_left]
  apply List.ext_getElem
  · rw [List.length_map, List.length_map, List.length_range']
  · intro k hk hk'
    rw [List.length_map] at hk'
    have hget := ofRows_get bits numCols sorted hi hk'
    have hne : (ofRows bits numCols rows sorted).data ≠ [] := by
      show rows.flatten.map Prod.snd ≠ []
      intro hnil
      rw [List.map_eq_nil_iff.1 hnil] at hget
      cases hget
    rw [List.getElem_map, List.getElem_map, List.getElem_range', Nat.one_mul, entry, idAt,
      if_neg hne, List.getD_eq_getElem?_getD, List.getD_eq_getElem?_getD]
    show (i, ((rows.flatten.map Prod.fst)[_]?).getD 0, ((rows.flatten.map Prod.snd)[_]?).getD 0) = _
    rw [List.getElem?_map, List.getElem?_map, hget]
    rfl

lemma entries_ofRows : (ofRows bits numCols rows sorted).entries =
    (List.range rows.length).flatMap fun i => (rows.getD i []).map fun x => (i, x) := by
  apply List.flatMap_congr
  intro i hi
  rw [rowEntries_ofRows (List.mem_range.1 hi), List.getD_eq_getElem _ _ (List.mem_range.1 hi)]

end OfRows

end CSRMatrix

end DglAscend.Aten
