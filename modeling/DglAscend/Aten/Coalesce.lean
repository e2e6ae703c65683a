import DglAscend.Aten.Lookups
import DglAscend.Lib.Runs

/-!
# Merging duplicates

`cpu/coo_coalesce.cc`.  The loop compares every entry with the one before it, so it merges what stands
together.  It reads the arrays of the matrix that was given: their pointers are taken before the matrix
is sorted.
-/

namespace DglAscend.Aten

/-- The local variables of the loop of `COOCoalesce`. -/
structure CoalesceState where
  prevRow : ℤ
  prevCol : ℤ
  newRow : List ℕ
  newCol : List ℕ
  count : List ℕ
  deriving DecidableEq, Repr

namespace CoalesceState

/-- One entry. -/
def step (s : CoalesceState) (currRow currCol : ℕ) : CoalesceState :=
  if (currRow : ℤ) = s.prevRow ∧ (currCol : ℤ) = s.prevCol then
    { s with count := s.count.modify (s.count.length - 1) (· + 1) }
  else
    { prevRow := currRow
      prevCol := currCol
      newRow := s.newRow ++ [currRow]
      newCol := s.newCol ++ [currCol]
      count := s.count ++ [1] }

end CoalesceState

/-- By rows, and by columns within a row. -/
def RowMajorLe (a b : ℕ × ℕ) : Prop := a.1 < b.1 ∨ a.1 = b.1 ∧ a.2 ≤ b.2

instance (a b : ℕ × ℕ) : Decidable (RowMajorLe a b) :=
  inferInstanceAs (Decidable (a.1 < b.1 ∨ a.1 = b.1 ∧ a.2 ≤ b.2))

lemma RowMajorLe.trans {a b c : ℕ × ℕ} (hab : RowMajorLe a b) (hbc : RowMajorLe b c) :
    RowMajorLe a c := by
  rw [RowMajorLe] at *
  omega

lemma RowMajorLe.antisymm {a b : ℕ × ℕ} (hab : RowMajorLe a b) (hba : RowMajorLe b a) : a = b := by
  rw [RowMajorLe] at hab hba
  apply Prod.ext
  · omega
  · omega

namespace COOMatrix

variable (coo : COOMatrix)

/-- The rows and columns of the entries. -/
def pairs : List (ℕ × ℕ) := coo.row.zip coo.col

/-- The loop over the entries. -/
def coalesceLoop (cooRowData cooColData : List ℕ) (nnz : ℕ) : CoalesceState :=
  (List.range nnz).foldl (fun s i => s.step (cooRowData.getD i 0) (cooColData.getD i 0))
    ⟨-1, -1, [], [], []⟩

/-- `COOCoalesce`: the matrix and the counts. -/
def coalesce (sort : StdSort Entry) : COOMatrix × List ℕ :=
  let cooRowData := coo.row
  let cooColData := coo.col
  let sorted := if !coo.rowSorted || !coo.colSorted then coo.sort sort else coo
  let s := coalesceLoop cooRowData cooColData coo.nnz
  ({ bits := sorted.bits
     numRows := sorted.numRows
     numCols := sorted.numCols
     row := s.newRow
     col := s.newCol
     data := []
     rowSorted := true
     colSorted := false }, s.count)

/-- The duplicates of a matrix are merged: every pair of indices is there once, in order, with its
multiplicity. -/
structure Merges (result : COOMatrix) (count : List ℕ) : Prop where
  numRows : result.numRows = coo.numRows
  numCols : result.numCols = coo.numCols
  col_length : result.col.length = result.nnz
  count_length : count.length = result.nnz
  nodup : result.pairs.Nodup
  mem_iff : ∀ p, p ∈ result.pairs ↔ p ∈ coo.pairs
  ordered : result.pairs.Pairwise RowMajorLe
  counts : count = result.pairs.map fun p => coo.pairs.count p
  total : count.sum = coo.nnz

end COOMatrix

/-! ## The loop collects the runs -/

namespace CoalesceState

variable {s : CoalesceState} {l : List (ℕ × ℕ)} {rs : List ((ℕ × ℕ) × ℕ)}

/-- The state holds these runs. -/
structure Holds (s : CoalesceState) (rs : List ((ℕ × ℕ) × ℕ)) : Prop where
  newRow : s.newRow = rs.map fun r => r.1.1
  newCol : s.newCol = rs.map fun r => r.1.2
  count : s.count = rs.map Prod.snd
  prev : ∀ p : ℕ × ℕ, ((p.1 : ℤ) = s.prevRow ∧ (p.2 : ℤ) = s.prevCol) ↔
    (rs.map Prod.fst).getLast? = some p

lemma holds_start : Holds ⟨-1, -1, [], [], []⟩ [] where
  newRow := rfl
  newCol := rfl
  count := rfl
  prev p := by
    refine iff_of_false (fun h => ?_) nofun
    have hrow : (p.1 : ℤ) = -1 := h.1
    omega

/-- **One entry** lengthens the last run or begins one. -/
lemma Holds.step (hs : s.Holds rs) (hrs : IsRuns l rs) (p : ℕ × ℕ) :
    ∃ rs', (s.step p.1 p.2).Holds rs' ∧ IsRuns (l ++ [p]) rs' := by
  rw [CoalesceState.step]
  by_cases hp : (p.1 : ℤ) = s.prevRow ∧ (p.2 : ℤ) = s.prevCol
  · rw [if_pos hp]
    have hlast := (hs.prev p).1 hp
    rw [List.getLast?_map, Option.map_eq_some_iff] at hlast
    obtain ⟨⟨q, n⟩, hlast, hq⟩ := hlast
    obtain ⟨before, rfl⟩ := List.getLast?_eq_some_iff.1 hlast
    have hq : q = p := hq
    subst hq
    refine ⟨before ++ [(q, n + 1)], ⟨?_, ?_, ?_, fun p' => ?_⟩, hrs.grow⟩
    · rw [hs.newRow, List.map_append, List.map_append]
      rfl
    · rw [hs.newCol, List.map_append, List.map_append]
      rfl
    · show s.count.modify _ _ = _
      rw [hs.count, List.map_append, List.map_append, List.map_singleton, List.length_append,
        List.length_singleton, Nat.add_sub_cancel, List.modify_eq_take_cons_drop (by simp)]
      simp
    · rw [hs.prev p', List.map_append, List.map_append]
      rfl
  · rw [if_neg hp]
    refine ⟨rs ++ [(p, 1)], ⟨?_, ?_, ?_, fun p' => ?_⟩, hrs.begin fun hlast => hp ((hs.prev p).2 hlast)⟩
    · rw [List.map_append, ← hs.newRow]
      rfl
    · rw [List.map_append, ← hs.newCol]
      rfl
    · rw [List.map_append, ← hs.count]
      rfl
    · rw [List.map_append, List.map_singleton, List.getLast?_concat, Option.some_inj]
      show (p'.1 : ℤ) = (p.1 : ℤ) ∧ (p'.2 : ℤ) = (p.2 : ℤ) ↔ p = p'
      rw [Int.natCast_inj, Int.natCast_inj, ← Prod.ext_iff, eq_comm]

end CoalesceState

namespace COOMatrix

variable {coo : COOMatrix}

lemma coalesceLoop_holds (row col : List ℕ) (n : ℕ) :
    ∃ rs, (coalesceLoop row col n).Holds rs ∧
      IsRuns ((List.range n).map fun i => (row.getD i 0, col.getD i 0)) rs := by
  induction n with
  | zero => exact ⟨[], CoalesceState.holds_start, isRuns_nil⟩
  | succ n ih =>
      obtain ⟨rs, hs, hrs⟩ := ih
      rw [coalesceLoop, List.range_succ, List.foldl_append, List.map_append]
      exact hs.step hrs (row.getD n 0, col.getD n 0)

lemma pairs_eq (hcol : coo.col.length = coo.nnz) :
    coo.pairs = (List.range coo.nnz).map fun i => (coo.row.getD i 0, coo.col.getD i 0) := by
  have hrow : coo.row.length = coo.nnz := rfl
  apply List.ext_getElem
  · simp [pairs, hcol, hrow]
  · intro i hi hi'
    have hi : i < coo.nnz := by simpa using hi'
    rw [List.getElem_map, List.getElem_range, List.getD_eq_getElem _ _ hi,
      List.getD_eq_getElem _ _ (by rwa [hcol])]
    exact List.getElem_zip

lemma length_pairs (hcol : coo.col.length = coo.nnz) : coo.pairs.length = coo.nnz := by
  rw [pairs, List.length_zip, hcol]
  exact Nat.min_self _

/-- The result holds the runs of the arrays as they were given. -/
lemma coalesce_runs (hcol : coo.col.length = coo.nnz) (sort : StdSort Entry) :
    ∃ rs, IsRuns coo.pairs rs ∧ (coo.coalesce sort).1.pairs = rs.map Prod.fst ∧
      (coo.coalesce sort).1.nnz = rs.length ∧ (coo.coalesce sort).1.col.length = rs.length ∧
      (coo.coalesce sort).2 = rs.map Prod.snd := by
  obtain ⟨rs, hs, hrs⟩ := coalesceLoop_holds coo.row coo.col coo.nnz
  rw [← pairs_eq hcol] at hrs
  refine ⟨rs, hrs, ?_, ?_, ?_, hs.count⟩
  · show (coalesceLoop _ _ _).newRow.zip (coalesceLoop _ _ _).newCol = _
    rw [hs.newRow, hs.newCol, List.zip_map']
  · show (coalesceLoop _ _ _).newRow.length = _
    rw [hs.newRow, List.length_map]
  · show (coalesceLoop _ _ _).newCol.length = _
    rw [hs.newCol, List.length_map]

lemma coalesce_shape (coo : COOMatrix) (sort : StdSort Entry) :
    (coo.coalesce sort).1.numRows = coo.numRows ∧ (coo.coalesce sort).1.numCols = coo.numCols := by
  have hsort : (coo.sort sort).numRows = coo.numRows ∧ (coo.sort sort).numCols = coo.numCols := by
    rw [COOMatrix.sort]
    split <;> exact ⟨rfl, rfl⟩
  rw [coalesce]
  dsimp only
  split
  · exact hsort
  · exact ⟨rfl, rfl⟩

/-- Three entries, the first and the last of which are duplicates. -/
def twoDuplicates : COOMatrix where
  bits := 64
  numRows := 2
  numCols := 1
  row := [0, 1, 0]
  col := [0, 0, 0]
  data := []
  rowSorted := false
  colSorted := false

end COOMatrix

end DglAscend.Aten
