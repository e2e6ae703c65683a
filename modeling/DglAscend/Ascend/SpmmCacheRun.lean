import Mathlib
import DglAscend.Ascend.SpmmPreprocessCache
import DglAscend.Ascend.SpmmSum

/-!
# The preprocess cache over a run

A run allocates, releases and writes arrays and calls the SpMM.  The tables hold, for every key,
the preprocessing of the first matrix that was called with it.  A call gets its own preprocessing
as long as that matrix had the index arrays that lie at the addresses now.
-/

namespace DglAscend.Ascend

/-- `n` bytes as a number, the lowest byte first. -/
def word (m : Memory UInt8) (device : ℤ) (ptr n : ℕ) : ℕ :=
  ((List.range n).map fun i => (m (device, ptr + i)).toNat * 256 ^ i).sum

/-- The ids in an array. -/
def IdArray.ids (m : Memory UInt8) (a : IdArray) : List ℕ :=
  (List.range a.length).map fun i =>
    word m a.deviceId (a.ptr + i * ((a.bits + 7) / 8)) ((a.bits + 7) / 8)

/-- The ids depend on the memory of the array only. -/
lemma IdArray.ids_congr {m m' : Memory UInt8} {a : IdArray} (h : Set.EqOn m m' a.region.addresses) :
    a.ids m = a.ids m' := by
  apply List.map_congr_left
  intro i hi
  rw [word, word]
  congr 1
  apply List.map_congr_left
  intro j hj
  rw [List.mem_range] at hi hj
  have hlt : i * ((a.bits + 7) / 8) + j < a.length * ((a.bits + 7) / 8) :=
    calc i * ((a.bits + 7) / 8) + j < (i + 1) * ((a.bits + 7) / 8) := by
          rw [Nat.add_mul, Nat.one_mul]
          exact Nat.add_lt_add_left hj _
      _ ≤ a.length * ((a.bits + 7) / 8) := Nat.mul_le_mul_right _ hi
  have hmem : (a.deviceId, a.ptr + i * ((a.bits + 7) / 8) + j) ∈ a.region.addresses := by
    refine ⟨rfl, ?_, ?_⟩
    · show a.ptr ≤ _
      omega
    · show _ < a.ptr + a.size
      rw [IdArray.size]
      omega
  rw [h hmem]

/-- The index arrays of a matrix. -/
def CsrMatrix.indexRegions (a : CsrMatrix) : List Region := [a.indptr.region, a.indices.region]

/-- The index arrays, with ids of some bits, as they stand in memory. -/
structure CsrMatrix.Holds (m : Memory UInt8) (a : CsrMatrix) (bits : ℕ) (indptr indices : List ℕ) :
    Prop where
  indptr_bits : a.indptr.bits = bits
  indices_bits : a.indices.bits = bits
  indptr_ids : a.indptr.ids m = indptr
  indices_ids : a.indices.ids m = indices

/-! ## Rows that are written -/

/-- The rows that the cores write in a sum, with the boundaries of the preprocessing, if nothing is read
behind the dense blocks. -/
def SumPreprocessCacheValue.writes (csr : Csr) (feat : Features) (value : SumPreprocessCacheValue) :
    Option (List (ℕ × (ℕ → ℚ))) :=
  let cube := slotItems (fun core => value.cubeCoreBoundaries.getD core 0)
    (value.cubeCoreBoundaries.length - 1)
  if cube.all value.windows.loadsInside then
    some ((slotItems (fun core => value.vectorCoreBoundaries.getD core 0)
        (value.vectorCoreBoundaries.length - 1)).flatMap
        (SumPreprocess.vectorWindow csr feat value.windows) ++
      cube.flatMap (SumPreprocess.cubeWindow csr feat value.windows))
  else none

variable {F : Type} {p : Platform} {aivOnlySum : Bool} {request : SpmmRequest F} {csr csr' : Csr}

/-! ## What the preprocessing depends on -/

/-- The boundaries of the rows depend on `indptr` only. -/
lemma buildRowNnzBalancedPartitions_congr (h : csr'.indptr = csr.indptr) (n : ℕ) :
    buildRowNnzBalancedPartitions csr' n = buildRowNnzBalancedPartitions csr n := by
  have hrows : csr'.numRows = csr.numRows := by
    have h1 := csr'.indptr_length
    have h2 := csr.indptr_length
    rw [h] at h1
    omega
  simp only [buildRowNnzBalancedPartitions, Csr.ptr, h, hrows]

/-- The windows depend on the index arrays only. -/
lemma sumPreprocess_congr (hindptr : csr'.indptr = csr.indptr) (hindices : csr'.indices = csr.indices)
    (deviceId : ℤ) (outDim : ℕ) :
    sumPreprocess p deviceId outDim csr' = sumPreprocess p deviceId outDim csr := by
  have hrows : csr'.numRows = csr.numRows := by
    have h1 := csr'.indptr_length
    have h2 := csr.indptr_length
    rw [hindptr] at h1
    omega
  obtain ⟨numRows, numCols, indptr, indices, h1, h2, h3, h4, h5⟩ := csr
  obtain ⟨numRows', numCols', indptr', indices', h1', h2', h3', h4', h5'⟩ := csr'
  subst hindptr hindices hrows
  rfl

/-! ## Runs -/

/-- The memory, the tables, and what happened so far: the matrices that were looked up in each
table, and what every call passed to the kernels, with what it would have passed with empty
tables. -/
structure SpmmWorld (F : Type) where
  heap : Heap UInt8
  caches : SpmmCaches
  maxMinCalls : List (SpMMPreprocessCacheKey × Csr)
  sumCalls : List (SpMMPreprocessCacheKey × Csr)
  launches : List (Launch F × Launch F)

namespace SpmmWorld

variable {w : SpmmWorld F} {m : Memory UInt8} {a : CsrMatrix}
  {ok : SpmmWorld F → SpmmRequest F → CsrMatrix → Csr → Prop}

/-- `SpMMCsrAscend` gets the matrix `csr` in the arrays `a`; `m` is the memory during the call. -/
inductive Passed (w : SpmmWorld F) : Memory UInt8 → CsrMatrix → Csr → Prop
  /-- The overload for 32-bit ids passes its argument. -/
  | int32 {a : CsrMatrix} {csr : Csr} (hheld : a.indexRegions ⊆ w.heap.arrays)
      (hrows : a.numRows = csr.numRows) (hcols : a.numCols = csr.numCols)
      (hids : a.Holds w.heap.memory 32 csr.indptr csr.indices) : Passed w w.heap.memory a csr
  /-- The overload for 64-bit ids passes a new matrix: `CastCSRToInt32SpMM`. -/
  | int64 {m : Memory UInt8} {a t : CsrMatrix} {csr : Csr} {indptr indices : List ℕ}
      (hheld : a.indexRegions ⊆ w.heap.arrays) (hids : a.Holds w.heap.memory 64 indptr indices)
      (hfree : Disjoint (addressesOf t.regions) (addressesOf w.heap.arrays))
      (hm : Set.EqOn m w.heap.memory (addressesOf t.regions)ᶜ)
      (hrows : t.numRows = a.numRows ∧ a.numRows = csr.numRows)
      (hcols : t.numCols = a.numCols ∧ a.numCols = csr.numCols)
      (hindptr : csr.indptr = indptr.map (· % 2 ^ 32))
      (hindices : csr.indices = indices.map (· % 2 ^ 32))
      (hcast : t.Holds m 32 csr.indptr csr.indices) : Passed w m t csr

/-- The world after a call; the temporary arrays are gone. -/
def after (p : Platform) (aivOnlySum : Bool) (request : SpmmRequest F) (m : Memory UInt8)
    (a : CsrMatrix) (csr : Csr) (w : SpmmWorld F) : SpmmWorld F where
  heap := { w.heap with memory := m }
  caches := (spmmCsrAscend p aivOnlySum request a csr w.caches).2
  maxMinCalls := if request.reduce ≠ .sum then w.maxMinCalls ++ [(request.cacheKey a, csr)]
    else w.maxMinCalls
  sumCalls := if request.reduce = .sum ∧ request.bypass aivOnlySum = false
    then w.sumCalls ++ [(request.cacheKey a, csr)] else w.sumCalls
  launches := w.launches ++ [((spmmCsrAscend p aivOnlySum request a csr w.caches).1,
    (spmmCsrAscend p aivOnlySum request a csr .init).1)]

/-- The worlds of a run that starts with empty tables and whose calls all are `ok`. -/
inductive Reachable (p : Platform) (aivOnlySum : Bool)
    (ok : SpmmWorld F → SpmmRequest F → CsrMatrix → Csr → Prop) : SpmmWorld F → Prop
  | init (h : Heap UInt8) : Reachable p aivOnlySum ok ⟨h, .init, [], [], []⟩
  /-- The process allocates, releases and writes arrays. -/
  | heap {w : SpmmWorld F} {h' : Heap UInt8} (hw : Reachable p aivOnlySum ok w)
      (hstep : w.heap.Step [] ∅ h' ∅) : Reachable p aivOnlySum ok { w with heap := h' }
  | call {w : SpmmWorld F} {m : Memory UInt8} {a : CsrMatrix} {csr : Csr}
      (hw : Reachable p aivOnlySum ok w) (request : SpmmRequest F) (hpassed : w.Passed m a csr)
      (hok : ok w request a csr) :
      Reachable p aivOnlySum ok (w.after p aivOnlySum request m a csr)

/-- Every call passes to the kernels what it passes with empty tables. -/
def Transparent (w : SpmmWorld F) : Prop := ∀ l ∈ w.launches, l.1 = l.2

/-- The first matrix that was looked up with the key of this call had the index arrays of this
call: `indptr` for the boundaries of the rows, both arrays for the windows. -/
def Unchanged (aivOnlySum : Bool) (w : SpmmWorld F) (request : SpmmRequest F) (a : CsrMatrix)
    (csr : Csr) : Prop :=
  (request.reduce ≠ .sum → ∀ first ∈ Memo.firstInput w.maxMinCalls (request.cacheKey a),
    first.indptr = csr.indptr) ∧
  (request.reduce = .sum → request.bypass aivOnlySum = false →
    ∀ first ∈ Memo.firstInput w.sumCalls (request.cacheKey a),
      first.indptr = csr.indptr ∧ first.indices = csr.indices)

/-! ## The tables -/

/-- The tables hold the preprocessing of the first matrix with each key. -/
structure Inv (p : Platform) (w : SpmmWorld F) : Prop where
  maxMin : Memo.Holds (fun k csr => buildRowNnzBalancedPartitions csr (p.vectorCores k.deviceId))
    w.maxMinCalls w.caches.maxMin
  sum : Memo.Holds (fun k csr => sumPreprocess p k.deviceId k.outDim csr) w.sumCalls w.caches.sum

/-- **A call keeps the tables.** -/
theorem Inv.after (hinv : w.Inv p) (request : SpmmRequest F) (m : Memory UInt8) (a : CsrMatrix)
    (csr : Csr) : (w.after p aivOnlySum request m a csr).Inv p := by
  obtain ⟨hmaxMin, hsum⟩ := hinv
  by_cases hred : request.reduce = .sum
  · by_cases hbypass : request.bypass aivOnlySum = true
    · constructor
      · simpa [SpmmWorld.after, spmmCsrAscend, hred, hbypass] using hmaxMin
      · simpa [SpmmWorld.after, spmmCsrAscend, hred, hbypass] using hsum
    · constructor
      · simpa [SpmmWorld.after, spmmCsrAscend, hred, hbypass] using hmaxMin
      · have hnext := hsum.getOrInsert_snd (request.cacheKey a) csr
        simpa [SpmmWorld.after, spmmCsrAscend, hred, hbypass] using hnext
  · constructor
    · have hnext := hmaxMin.getOrInsert_snd (request.cacheKey a) csr
      simpa [SpmmWorld.after, spmmCsrAscend, hred] using hnext
    · simpa [SpmmWorld.after, spmmCsrAscend, hred] using hsum

/-- **The tables in every run.** -/
theorem Reachable.inv (h : Reachable p aivOnlySum ok w) : w.Inv p := by
  induction h with
  | init h => exact ⟨Memo.holds_empty _, Memo.holds_empty _⟩
  | heap _ _ ih => exact ⟨ih.maxMin, ih.sum⟩
  | call _ request _ _ ih => exact ih.after request _ _ _

lemma firstInput_getD {calls : List (SpMMPreprocessCacheKey × Csr)} {k : SpMMPreprocessCacheKey}
    {P : Csr → Prop} (h : ∀ first ∈ Memo.firstInput calls k, P first) (hcsr : P csr) :
    P ((Memo.firstInput calls k).getD csr) := by
  cases hfirst : Memo.firstInput calls k with
  | none => exact hcsr
  | some first => exact h first hfirst

/-- **One call** with unchanged arrays. -/
theorem Inv.launch_eq (hinv : w.Inv p) {request : SpmmRequest F}
    (hunchanged : w.Unchanged aivOnlySum request a csr) :
    (spmmCsrAscend p aivOnlySum request a csr w.caches).1 =
      (spmmCsrAscend p aivOnlySum request a csr .init).1 := by
  unfold spmmCsrAscend
  by_cases hred : request.reduce = .sum
  · rw [if_neg (not_not.2 hred), if_neg (not_not.2 hred)]
    by_cases hbypass : request.bypass aivOnlySum = true
    · rw [if_pos hbypass, if_pos hbypass]
    · rw [if_neg hbypass, if_neg hbypass]
      have hfirst := firstInput_getD
        (P := fun first => first.indptr = csr.indptr ∧ first.indices = csr.indices)
        (hunchanged.2 hred (Bool.not_eq_true _ ▸ hbypass)) ⟨rfl, rfl⟩
      have hvalue := hinv.sum.getOrInsert_fst (request.cacheKey a) csr
      have hinit := (Memo.holds_empty fun k csr => sumPreprocess p k.deviceId k.outDim csr)
        |>.getOrInsert_fst (request.cacheKey a) csr
      simp only at hvalue hinit ⊢
      rw [SpmmCaches.init, hvalue, hinit, sumPreprocess_congr hfirst.1 hfirst.2]
      rfl
  · rw [if_pos hred, if_pos hred]
    have hfirst := firstInput_getD (P := fun first => first.indptr = csr.indptr)
      (hunchanged.1 hred) rfl
    have hvalue := hinv.maxMin.getOrInsert_fst (request.cacheKey a) csr
    have hinit := (Memo.holds_empty fun (k : SpMMPreprocessCacheKey) csr =>
      buildRowNnzBalancedPartitions csr (p.vectorCores k.deviceId))
        |>.getOrInsert_fst (request.cacheKey a) csr
    simp only at hvalue hinit ⊢
    rw [SpmmCaches.init, hvalue, hinit, buildRowNnzBalancedPartitions_congr hfirst]
    rfl

/-- **The cache is transparent while the arrays stay.**  In every run in which every call finds the
index arrays with which its key was first looked up, every call passes to the kernels what it
passes with empty tables. -/
theorem spmmCsrAscend_transparent (hw : Reachable p aivOnlySum (Unchanged aivOnlySum) w) :
    w.Transparent := by
  induction hw with
  | init h => exact fun l hl => absurd hl List.not_mem_nil
  | heap _ _ ih => exact ih
  | call hw request _ hok ih =>
      intro l hl
      rcases List.mem_append.1 hl with hl | hl
      · exact ih l hl
      · rw [List.mem_singleton.1 hl]
        exact hw.inv.launch_eq hok

/-! ## Two matrices with 64-bit ids -/

/-- Two vector cores and a cube core, which gets all windows with edges. -/
def twoCores : Platform := ⟨fun _ => 2, fun _ => 1, fun _ _ _ _ => true⟩

/-- A matrix with two columns and one edge to the column `c`. -/
def edgeTo (c : Fin 2) : Csr where
  numRows := 1
  numCols := 2
  indptr := [0, 1]
  indices := [c]
  indptr_length := SumPreprocess.singleEdge.indptr_length
  indptr_zero := SumPreprocess.singleEdge.indptr_zero
  indptr_mono := SumPreprocess.singleEdge.indptr_mono
  indptr_last := SumPreprocess.singleEdge.indptr_last
  col_lt := fun _ h => List.mem_singleton.1 h ▸ c.2

/-- The same with 64-bit ids; the matrices share `indptr`. -/
def wideEdgeTo (c : Fin 2) : CsrMatrix where
  numRows := 1
  numCols := 2
  indptr := ⟨0, 0, 2, 64⟩
  indices := ⟨0, 16 + 8 * c, 1, 64⟩
  data := ⟨0, 0, 0, 64⟩
  sorted := false

/-- The temporary matrix, at one place in both calls. -/
def narrowEdge : CsrMatrix where
  numRows := 1
  numCols := 2
  indptr := ⟨0, 32, 2, 32⟩
  indices := ⟨0, 40, 1, 32⟩
  data := ⟨0, 44, 0, 32⟩
  sorted := false

/-- The memory with the two matrices. -/
def wideMemory : Memory UInt8 := fun a => if a = (0, 8) ∨ a = (0, 24) then 1 else 0

/-- The memory with the temporary matrix, too. -/
def narrowMemory (c : Fin 2) : Memory UInt8 := fun a =>
  if a = (0, 36) then 1 else if a = (0, 40) then c.val.toUInt8 else wideMemory a

/-- A batched sum. -/
def batchedSum : SpmmRequest Features := ⟨.sum, true, true, 1, fun c _ => c⟩

/-- The process holds both matrices. -/
def holdsBoth : SpmmWorld Features where
  heap := ⟨wideMemory, (wideEdgeTo 0).indexRegions ++ (wideEdgeTo 1).indexRegions⟩
  caches := .init
  maxMinCalls := []
  sumCalls := []
  launches := []

/-- The process after a sum over one of the matrices. -/
def sumOver (c : Fin 2) (w : SpmmWorld Features) : SpmmWorld Features :=
  w.after twoCores false batchedSum (narrowMemory c) narrowEdge (edgeTo c)

lemma narrowMemory_of_notMem {c : Fin 2} {x : Address} (hx : x ∉ addressesOf narrowEdge.regions) :
    narrowMemory c x = wideMemory x := by
  have hindptr : x ≠ (0, 36) := by
    rintro rfl
    exact hx ⟨narrowEdge.indptr.region, by decide, rfl, by decide, by decide⟩
  have hindices : x ≠ (0, 40) := by
    rintro rfl
    exact hx ⟨narrowEdge.indices.region, by decide, rfl, by decide, by decide⟩
  rw [narrowMemory, if_neg hindptr, if_neg hindices]

/-- The arrays of the process lie before the temporary ones. -/
lemma disjoint_narrowEdge :
    Disjoint (addressesOf narrowEdge.regions) (addressesOf holdsBoth.heap.arrays) := by
  have hheld : ∀ r ∈ holdsBoth.heap.arrays, r.ptr + r.bytes ≤ 32 := by decide
  have hnarrow : ∀ r ∈ narrowEdge.regions, 32 ≤ r.ptr := by decide
  rw [Set.disjoint_left]
  rintro x ⟨r, hr, -, hle, -⟩ ⟨r', hr', -, -, hlt⟩
  have h1 := hheld r' hr'
  have h2 := hnarrow r hr
  omega

variable (c : Fin 2)

lemma holds_wideMemory : (wideEdgeTo c).Holds wideMemory 64 [0, 1] [c.val] := by
  refine ⟨rfl, rfl, ?_, ?_⟩ <;> revert c <;> decide

lemma holds_narrowMemory :
    narrowEdge.Holds (narrowMemory c) 32 (edgeTo c).indptr (edgeTo c).indices := by
  refine ⟨rfl, rfl, ?_, ?_⟩ <;> revert c <;> decide

lemma indices_edgeTo : (edgeTo c).indices = [c.val].map (· % 2 ^ 32) := by
  revert c
  decide

lemma passed_edgeTo {w : SpmmWorld Features} (harrays : w.heap.arrays = holdsBoth.heap.arrays)
    (hmemory : ∀ x, x ∉ addressesOf narrowEdge.regions → w.heap.memory x = wideMemory x) :
    w.Passed (narrowMemory c) narrowEdge (edgeTo c) := by
  have hheld : (wideEdgeTo c).indexRegions ⊆ w.heap.arrays := by
    rw [harrays]
    revert c
    decide
  have hread (r : Region) (hr : r ∈ (wideEdgeTo c).indexRegions) :
      Set.EqOn w.heap.memory wideMemory r.addresses := by
    intro x hx
    apply hmemory x
    intro hnarrow
    have hmem : x ∈ addressesOf holdsBoth.heap.arrays := harrays ▸ ⟨r, hheld hr, hx⟩
    exact Set.disjoint_left.1 disjoint_narrowEdge hnarrow hmem
  have hindptr : (wideEdgeTo c).indptr.ids w.heap.memory = [0, 1] := by
    rw [IdArray.ids_congr (hread _ List.mem_cons_self), (holds_wideMemory c).indptr_ids]
  have hindices : (wideEdgeTo c).indices.ids w.heap.memory = [c.val] := by
    rw [IdArray.ids_congr (hread _ (List.mem_cons_of_mem _ List.mem_cons_self)),
      (holds_wideMemory c).indices_ids]
  refine .int64 hheld ⟨rfl, rfl, hindptr, hindices⟩ ?_ ?_ ⟨rfl, rfl⟩ ⟨rfl, rfl⟩ rfl
    (indices_edgeTo c) (holds_narrowMemory c)
  · rw [harrays]
    exact disjoint_narrowEdge
  · intro x hx
    rw [narrowMemory_of_notMem hx, hmemory x hx]

lemma reachable_sumOver {ok : SpmmWorld Features → SpmmRequest Features → CsrMatrix → Csr → Prop}
    (c d : Fin 2) (hfirst : ok holdsBoth batchedSum narrowEdge (edgeTo c))
    (hsecond : ok (sumOver c holdsBoth) batchedSum narrowEdge (edgeTo d)) :
    Reachable twoCores false ok (sumOver d (sumOver c holdsBoth)) := by
  have hinit : Reachable twoCores false ok (sumOver c holdsBoth) :=
    (Reachable.init _).call batchedSum (passed_edgeTo c rfl fun _ _ => rfl) hfirst
  exact hinit.call batchedSum (passed_edgeTo d rfl fun _ hx => narrowMemory_of_notMem hx) hsecond

/-- The sum over the second matrix gets the windows of the first one, and writes feature 0 instead
of feature 1. -/
theorem not_transparent_sumOver :
    Reachable twoCores false (fun _ _ _ _ => True) (sumOver 1 (sumOver 0 holdsBoth)) ∧
      ¬(sumOver 1 (sumOver 0 holdsBoth)).Transparent ∧
      ∃ value fresh, (Launch.sum batchedSum (edgeTo 1) value, Launch.sum batchedSum (edgeTo 1) fresh) ∈
          (sumOver 1 (sumOver 0 holdsBoth)).launches ∧
        (value.writes (edgeTo 1) batchedSum.feat).map (List.map fun row => (row.1, row.2 0)) =
          some [(0, 0)] ∧
        (fresh.writes (edgeTo 1) batchedSum.feat).map (List.map fun row => (row.1, row.2 0)) =
          some [(0, 1)] := by
  have hlaunch : (Launch.sum batchedSum (edgeTo 1) (sumPreprocess twoCores 0 1 (edgeTo 0)),
      Launch.sum batchedSum (edgeTo 1) (sumPreprocess twoCores 0 1 (edgeTo 1))) ∈
        (sumOver 1 (sumOver 0 holdsBoth)).launches := List.mem_append_right _ List.mem_cons_self
  have hstale : ((sumPreprocess twoCores 0 1 (edgeTo 0)).writes (edgeTo 1) batchedSum.feat).map
      (List.map fun row => (row.1, row.2 0)) = some [(0, 0)] := by decide +kernel
  have hfresh : ((sumPreprocess twoCores 0 1 (edgeTo 1)).writes (edgeTo 1) batchedSum.feat).map
      (List.map fun row => (row.1, row.2 0)) = some [(0, 1)] := by decide +kernel
  refine ⟨reachable_sumOver 0 1 trivial trivial, ?_, _, _, hlaunch, hstale, hfresh⟩
  intro h
  have heq := h _ hlaunch
  simp only [Launch.sum.injEq, true_and] at heq
  rw [heq, hfresh] at hstale
  exact absurd hstale (by decide)

/-- Two sums over one matrix: the second one finds its own windows. -/
theorem spmmCsrAscend_transparent_sumOver : (sumOver 0 (sumOver 0 holdsBoth)).Transparent := by
  apply spmmCsrAscend_transparent (reachable_sumOver 0 0 ?_ ?_)
  · exact ⟨fun h => absurd rfl h, fun _ _ first hfirst => absurd hfirst (Option.not_mem_none _)⟩
  · refine ⟨fun h => absurd rfl h, fun _ _ first hfirst => ?_⟩
    obtain rfl : edgeTo 0 = first := Option.some.inj hfirst
    exact ⟨rfl, rfl⟩

end SpmmWorld

end DglAscend.Ascend
