import DglAscend.Aten.SortedFlags

/-!
# `CSRGetData` on the device

`ascend/csr_get_data.cc` with `csr_get_data_kernel.cpp`.  The kernel searches a row from its start,
takes the queries one by one and knows neither of arrays of length 1 nor of missing data arrays.  It
is compared with the host version (`getData_agrees_iff`).
-/

namespace DglAscend.Aten

/-- An element of an array in global memory; the index is a `uint32_t`. -/
def readGm {α : Type} (xs : List α) (i : ℕ) : Except Fault α :=
  match xs[i % 2 ^ 32]? with
  | some x => .ok x
  | none => .error .outOfBounds

lemma readGm_eq {α : Type} {xs : List α} {i : ℕ} (hi : i < xs.length) (h32 : i < 2 ^ 32) :
    readGm xs i = .ok xs[i] := by
  rw [readGm, Nat.mod_eq_of_lt h32, List.getElem?_eq_getElem hi]

lemma readGm_eq_error {α : Type} {xs : List α} {i : ℕ} (hi : xs.length ≤ i) (h32 : i < 2 ^ 32) :
    readGm xs i = .error .outOfBounds := by
  rw [readGm, Nat.mod_eq_of_lt h32, List.getElem?_eq_none hi]

namespace CSRMatrix

variable {α : Type} (csr : CSRMatrix)

/-- `data_ptr`: without a data array the launch passes the columns. -/
def devicePtr : List ℕ := if csr.hasData then csr.data else csr.indices

/-- The loop over the places of a row: the value of the first match, or the filler. -/
def searchGm (values : List α) (filler : α) (col : ℕ) : List ℕ → Except Fault α
  | [] => .ok filler
  | j :: js => do
      if (← readGm csr.indices j) = col then readGm values j else searchGm values filler col js

/-- The body of `Process` for the query `i`. -/
def queryGm (values : List α) (filler : α) (rows cols : List ℕ) (i : ℕ) : Except Fault α := do
  let row ← readGm rows i
  let col ← readGm cols i
  let start ← readGm csr.indptr row
  let stop ← readGm csr.indptr (row % 2 ^ 32 + 1)
  csr.searchGm values filler col (List.range' start (stop - start))

/-- `KernelCsrGetData` and `KernelCsrGetDataWithWeights` on `n` queries; the launch has one block. -/
def kernelCsrGetData (values : List α) (filler : α) (rows cols : List ℕ) (n : ℕ) :
    Except Fault (List α) :=
  (List.range (n % 2 ^ 32)).mapM fun i => csr.queryGm values filler rows cols i

/-- `rstlen` -/
def rstLen (rows cols : List ℕ) : ℕ := max rows.length cols.length

/-- `CSRGetData` on the device with `return_eids`.  From `2 ^ 32` queries on the result has elements
that are not written. -/
def getDataAscend (filler : ℤ) (rows cols : List ℕ) : Except Fault (List ℤ) :=
  if !fits rows cols then .error .raised
  else if 2 ^ 32 ≤ rstLen rows cols then .error .outOfBounds
  else csr.kernelCsrGetData (csr.devicePtr.map Int.ofNat) filler rows cols (rstLen rows cols)

/-- A word of a floating point number: a `float`, or one half of a `double`. -/
abbrev Word := BitVec 32

/-- `static_cast<float>` of a `double` is a parameter. -/
def narrow (toFloat : Word → Word → Word) : List Word → Word
  | [] => 0
  | [w] => w
  | low :: high :: _ => toFloat low high

/-- `CSRGetData` on the device with weights of `width` words each.  The kernel reads and writes the
arrays as arrays of `float`; what it does not write is left as `Empty` has given it. -/
def getWeightsAscend (toFloat : Word → Word → Word) (width : ℕ) (weights filler : List Word)
    (rows cols : List ℕ) : Except Fault (List (Option Word)) :=
  if !fits rows cols then .error .raised
  else if 2 ^ 32 ≤ rstLen rows cols then .error .outOfBounds
  else do
    let out ← csr.kernelCsrGetData weights (narrow toFloat filler) rows cols (rstLen rows cols)
    .ok (out.map some ++ List.replicate ((width - 1) * rstLen rows cols) none)

/-- The weight of an edge. -/
def weightAt (width : ℕ) (weights : List Word) (eid : ℕ) : List Word :=
  (weights.drop (width * eid)).take width

/-- `CSRGetData` on the host with weights. -/
def getWeights (width : ℕ) (weights filler : List Word) (rows cols : List ℕ) :
    Except Fault (List (Option Word)) := do
  let ret ← csr.getData (weightAt width weights) filler rows cols
  .ok (ret.flatten.map some)

/-! ## Searching a row -/

/-- The place of the first entry with the column. -/
def firstMatch (r c : ℕ) : Option ℕ := (csr.places r).find? fun j => csr.indices.getD j 0 = c

variable {csr}

/-- The arrays of the matrix fit together. -/
structure Fitting (csr : CSRMatrix) : Prop where
  framed : csr.Framed
  indptr_length : csr.indptr.length = csr.numRows + 1
  data_length : csr.hasData = true → csr.data.length = csr.nnz

/-- 32-bit indices reach the extent and the places of a row. -/
def InReach (csr : CSRMatrix) (r : ℕ) : Prop := r + 1 < 2 ^ 32 ∧ csr.ptr (r + 1) ≤ 2 ^ 32

/-- The arrays of the matrix fit together, and the numbers of rows and entries fit in 32 bits. -/
structure OnDevice (csr : CSRMatrix) : Prop extends Fitting csr where
  numRows_lt : csr.numRows + 1 < 2 ^ 32
  nnz_lt : csr.nnz < 2 ^ 32

variable {rows cols : List ℕ} {r c j : ℕ}

namespace Fitting

lemma ptr_le_nnz (h : csr.Fitting) (hr : r ≤ csr.numRows) : csr.ptr r ≤ csr.nnz := by
  rw [← h.framed.ptr_last]
  exact boundary_mono h.framed.ptr_mono hr le_rfl

lemma place_lt_ptr (h : csr.Fitting) (hr : r < csr.numRows) (hj : j ∈ csr.places r) :
    j < csr.ptr (r + 1) := by
  have hmono := h.framed.ptr_mono r hr
  have hj' := (List.mem_range'_1.1 hj).2
  omega

lemma place_lt (h : csr.Fitting) (hr : r < csr.numRows) (hj : j ∈ csr.places r) : j < csr.nnz :=
  (h.place_lt_ptr hr hj).trans_le (h.ptr_le_nnz hr)

lemma firstMatch_lt (h : csr.Fitting) (hr : r < csr.numRows) (hj : csr.firstMatch r c = some j) :
    j < csr.nnz ∧ csr.indices.getD j 0 = c := by
  refine ⟨h.place_lt hr (List.mem_of_find?_eq_some hj), ?_⟩
  have hfound : decide (csr.indices.getD j 0 = c) = true :=
    List.find?_some (p := fun j => decide (csr.indices.getD j 0 = c)) hj
  exact of_decide_eq_true hfound

lemma searchGm_eq (values : List α) (filler : α) (c : ℕ) {js : List ℕ}
    (hjs : ∀ j ∈ js, j < csr.nnz ∧ j < 2 ^ 32) :
    csr.searchGm values filler c js =
      match js.find? fun j => csr.indices.getD j 0 = c with
      | some j => readGm values j
      | none => .ok filler := by
  induction js with
  | nil => rfl
  | cons j js ih =>
      obtain ⟨hj, h32⟩ := hjs j List.mem_cons_self
      have hread : readGm csr.indices j = .ok csr.indices[j] := readGm_eq hj h32
      have hget : csr.indices.getD j 0 = csr.indices[j] := List.getD_eq_getElem _ _ hj
      rw [searchGm, hread, List.find?_cons, hget]
      show (if csr.indices[j] = c then _ else _) = _
      by_cases hc : csr.indices[j] = c
      · rw [if_pos hc, decide_eq_true hc]
      · rw [if_neg hc, decide_eq_false hc]
        exact ih fun k hk => hjs k (List.mem_cons_of_mem _ hk)

lemma readGm_start (h : csr.Fitting) (hr : r < csr.numRows) (hreach : csr.InReach r) :
    readGm csr.indptr r = .ok (csr.ptr r) := by
  have hlen := h.indptr_length
  have h32 := hreach.1
  have hlt : r < csr.indptr.length := by omega
  rw [readGm_eq hlt (by omega), ptr, List.getD_eq_getElem _ _ hlt]

lemma readGm_stop (h : csr.Fitting) (hr : r < csr.numRows) (hreach : csr.InReach r) :
    readGm csr.indptr (r % 2 ^ 32 + 1) = .ok (csr.ptr (r + 1)) := by
  have hlen := h.indptr_length
  have h32 := hreach.1
  have hlt : r + 1 < csr.indptr.length := by omega
  rw [Nat.mod_eq_of_lt (by omega), readGm_eq hlt (by omega), ptr, List.getD_eq_getElem _ _ hlt]

lemma queryGm_eq (h : csr.Fitting) (values : List α) (filler : α) {i : ℕ} (hrow : i < rows.length)
    (hcol : i < cols.length) (h32 : i < 2 ^ 32) (hr : rows[i] < csr.numRows)
    (hreach : csr.InReach rows[i]) : csr.queryGm values filler rows cols i =
      match csr.firstMatch rows[i] cols[i] with
      | some j => readGm values j
      | none => .ok filler := by
  rw [queryGm, readGm_eq hrow h32, readGm_eq hcol h32]
  show (do let start ← readGm csr.indptr rows[i]
           let stop ← readGm csr.indptr (rows[i] % 2 ^ 32 + 1)
           csr.searchGm values filler cols[i] (List.range' start (stop - start))) = _
  rw [h.readGm_start hr hreach, h.readGm_stop hr hreach]
  exact searchGm_eq values filler cols[i] fun j hj =>
    ⟨h.place_lt hr hj, (h.place_lt_ptr hr hj).trans_le hreach.2⟩

/-- A query behind the end of an id array reads memory that is not there. -/
lemma queryGm_error (values : List α) (filler : α) {i : ℕ} (hi : rows.length ≤ i ∨ cols.length ≤ i)
    (h32 : i < 2 ^ 32) : csr.queryGm values filler rows cols i = .error .outOfBounds := by
  rw [queryGm]
  by_cases hrow : rows.length ≤ i
  · rw [readGm_eq_error hrow h32]
    rfl
  · rw [readGm_eq (not_le.1 hrow) h32, readGm_eq_error (hi.resolve_left hrow) h32]
    rfl

end Fitting

lemma OnDevice.inReach (h : csr.OnDevice) (hr : r < csr.numRows) : csr.InReach r :=
  ⟨(Nat.succ_lt_succ hr).trans h.numRows_lt, (h.ptr_le_nnz hr).trans h.nnz_lt.le⟩

/-! ## Comparing the two -/

/-- The host version returns, and the version on the device returns the same. -/
def Agrees {β : Type} (host device : Except Fault β) : Prop := ∃ v, host = .ok v ∧ device = .ok v

/-- The ids are those of the matrix. -/
def QueriesValid (csr : CSRMatrix) (rows cols : List ℕ) : Prop :=
  ∀ p ∈ rows.zip cols, p.1 < csr.numRows ∧ p.2 < csr.numCols

/-- The host version on arrays of the same length. -/
lemma getData_of_length_eq (hs : csr.ColsSorted) (value : ℕ → α) (filler : α)
    (hlen : rows.length = cols.length) (hvalid : csr.QueriesValid rows cols) :
    csr.getData value filler rows cols = .ok ((rows.zip cols).map fun p =>
      ((csr.firstMatch p.1 p.2).map fun j => value (idAt csr.data j)).getD filler) := by
  have hzip : broadcast rows cols = rows.zip cols := by
    rw [broadcast, if_neg (by omega), if_neg (by omega)]
  have hfits : fits rows cols = true := decide_eq_true (Or.inl hlen)
  have hreads : readsWithin rows cols = true := by
    refine decide_eq_true ?_
    rw [hzip, List.length_zip]
    omega
  rw [getData, if_neg (by rw [hfits]; exact Bool.noConfusion),
    if_neg (by rw [hreads]; exact Bool.noConfusion), hzip]
  refine mapM_ok fun p hp => ?_
  obtain ⟨hr, hc⟩ := hvalid p hp
  have hfind : ((csr.rowEntries p.1).find? fun e => e.2.1 = p.2) =
      (csr.firstMatch p.1 p.2).map (csr.entry p.1) := by
    rw [rowEntries, List.find?_map, firstMatch]
    rfl
  rw [if_neg (by omega)]
  dsimp only
  split
  · rename_i hsorted
    rw [head?_lowerBound (hs hsorted p.1 hr), hfind, Option.map_map]
    rfl
  · rw [hfind, Option.map_map]
    rfl

variable {value : ℕ → α} {filler : α}

/-- Where the host version returns, the ids are valid, and every query has been answered. -/
lemma of_getData_eq_ok {vs : List α} (h : csr.getData value filler rows cols = .ok vs) :
    fits rows cols = true ∧ readsWithin rows cols = true ∧
      ∀ p ∈ broadcast rows cols, p.1 < csr.numRows ∧ p.2 < csr.numCols := by
  rw [getData] at h
  split at h
  · cases h
  · rename_i hfits
    split at h
    · cases h
    · rename_i hreads
      refine ⟨by simpa using hfits, by simpa using hreads, fun p hp => ?_⟩
      obtain ⟨v, hv⟩ := exists_of_mapM_ok h hp
      by_contra hout
      rw [if_pos (by omega)] at hv
      cases hv

/-- The kernel runs through only if each id array has an element for each query. -/
lemma length_eq_of_kernel {β : Type} {values : List α} {value : ℕ → β} {filler : β} {filler' : α}
    {vs : List β} {ws : List α} (hhost : csr.getData value filler rows cols = .ok vs)
    (h32 : rstLen rows cols < 2 ^ 32)
    (h : csr.kernelCsrGetData values filler' rows cols (rstLen rows cols) = .ok ws) :
    rows.length = cols.length := by
  by_contra hne
  have hread := (of_getData_eq_ok hhost).2.1
  rw [kernelCsrGetData, Nat.mod_eq_of_lt h32] at h
  have hlt : min rows.length cols.length < rstLen rows cols := by
    rw [rstLen]
    omega
  obtain ⟨v, hv⟩ := exists_of_mapM_ok h (List.mem_range.2 hlt)
  rw [Fitting.queryGm_error values filler' (by omega) (hlt.trans h32)] at hv
  cases hv

/-- The device takes the queries of the call as the host does. -/
structure Taken (csr : CSRMatrix) (rows cols : List ℕ) : Prop where
  length_eq : rows.length = cols.length
  length_lt : rows.length < 2 ^ 32
  valid : csr.QueriesValid rows cols

lemma Taken.rstLen_lt (h : csr.Taken rows cols) : rstLen rows cols < 2 ^ 32 := by
  have := h.length_eq
  have := h.length_lt
  rw [rstLen]
  omega

/-- Where both versions run through, the queries are taken. -/
lemma taken_of_kernel {β : Type} {values : List α} {value : ℕ → β} {filler : β} {filler' : α}
    {vs : List β} {ws : List α} (hhost : csr.getData value filler rows cols = .ok vs)
    (h32 : rstLen rows cols < 2 ^ 32)
    (h : csr.kernelCsrGetData values filler' rows cols (rstLen rows cols) = .ok ws) :
    csr.Taken rows cols := by
  have hlen := length_eq_of_kernel hhost h32 h
  refine ⟨hlen, (le_max_left _ _).trans_lt h32, ?_⟩
  have hall := (of_getData_eq_ok hhost).2.2
  rw [broadcast, if_neg (by omega), if_neg (by omega)] at hall
  exact hall

/-- The kernel returns what the host version does, if it finds the value of every match. -/
lemma Fitting.kernel_eq_ok_iff (h : csr.Fitting) (values : List α) (value : ℕ → α)
    (hlen : rows.length = cols.length) (h32 : rows.length < 2 ^ 32)
    (hvalid : csr.QueriesValid rows cols) (hreach : ∀ r ∈ rows, csr.InReach r) :
    csr.kernelCsrGetData values filler rows cols (rstLen rows cols) = .ok ((rows.zip cols).map
        fun p => ((csr.firstMatch p.1 p.2).map fun j => value (idAt csr.data j)).getD filler) ↔
      ∀ p ∈ rows.zip cols, ∀ j, csr.firstMatch p.1 p.2 = some j →
        readGm values j = .ok (value (idAt csr.data j)) := by
  have hn : rstLen rows cols = rows.length := by
    rw [rstLen]
    omega
  have hzip : (rows.zip cols).length = rows.length := by
    rw [List.length_zip]
    omega
  rw [kernelCsrGetData, hn, Nat.mod_eq_of_lt h32, mapM_eq_ok_iff, List.forall₂_map_right_iff,
    List.forall₂_iff_get]
  have hquery {i : ℕ} (hi : i < rows.length) (hi' : i < (rows.zip cols).length) :
      csr.queryGm values filler rows cols i =
        match csr.firstMatch (rows.zip cols)[i].1 (rows.zip cols)[i].2 with
        | some j => readGm values j
        | none => .ok filler := by
    have hr := (hvalid _ (List.getElem_mem hi')).1
    rw [List.getElem_zip] at hr ⊢
    exact h.queryGm_eq values filler hi (hlen ▸ hi) (hi.trans h32) hr (hreach _ (List.getElem_mem hi))
  constructor
  · rintro ⟨-, hall⟩ p hp j hj
    obtain ⟨i, hi, rfl⟩ := List.mem_iff_getElem.1 hp
    have hi' : i < rows.length := hzip ▸ hi
    have hstep := hall i (by rwa [List.length_range]) hi
    rw [List.get_eq_getElem, List.get_eq_getElem, List.getElem_range, hquery hi' hi, hj] at hstep
    exact hstep
  · intro hall
    refine ⟨by rw [List.length_range, hzip], fun i hi hi' => ?_⟩
    rw [List.length_range] at hi
    rw [List.get_eq_getElem, List.get_eq_getElem, List.getElem_range, hquery hi hi']
    cases hj : csr.firstMatch (rows.zip cols)[i].1 (rows.zip cols)[i].2 with
    | none => rfl
    | some j => exact hall _ (List.getElem_mem hi') j hj

/-- Both versions agree on a call that takes its queries, if the kernel finds the values. -/
lemma Fitting.kernel_agrees_iff (h : csr.Fitting) (hs : csr.ColsSorted) {values : List α}
    (hreach : ∀ r ∈ rows, csr.InReach r) :
    (∃ vs, csr.getData value filler rows cols = .ok vs ∧ rstLen rows cols < 2 ^ 32 ∧
        csr.kernelCsrGetData values filler rows cols (rstLen rows cols) = .ok vs) ↔
      csr.Taken rows cols ∧ ∀ p ∈ rows.zip cols, ∀ j, csr.firstMatch p.1 p.2 = some j →
        readGm values j = .ok (value (idAt csr.data j)) := by
  constructor
  · rintro ⟨vs, hhost, h32, hdev⟩
    have ht : csr.Taken rows cols := taken_of_kernel hhost h32 hdev
    have heq := getData_of_length_eq hs value filler ht.length_eq ht.valid
    rw [hhost] at heq
    obtain rfl := Except.ok.inj heq
    exact ⟨ht, (h.kernel_eq_ok_iff values value ht.length_eq ht.length_lt ht.valid hreach).1 hdev⟩
  · rintro ⟨ht, hall⟩
    exact ⟨_, getData_of_length_eq hs value filler ht.length_eq ht.valid, ht.rstLen_lt,
      (h.kernel_eq_ok_iff values value ht.length_eq ht.length_lt ht.valid hreach).2 hall⟩

/-- The checks of the launch, for a call that the host answers. -/
lemma launch_eq_ok_iff {β : Type} {vs : List α}
    (hhost : csr.getData value filler rows cols = .ok vs) {device : Except Fault β} {y : β} :
    (if !fits rows cols then .error .raised
      else if 2 ^ 32 ≤ rstLen rows cols then .error .outOfBounds else device) = .ok y ↔
      rstLen rows cols < 2 ^ 32 ∧ device = .ok y := by
  have hfits := (of_getData_eq_ok hhost).1
  rw [if_neg (by rw [hfits]; exact Bool.noConfusion)]
  by_cases h32 : 2 ^ 32 ≤ rstLen rows cols
  · rw [if_pos h32]
    constructor
    · intro h
      cases h
    · rintro ⟨hlt, -⟩
      omega
  · rw [if_neg h32, and_iff_right (not_le.1 h32)]

lemma Fitting.match_lt (h : csr.Fitting) (ht : csr.QueriesValid rows cols) {p : ℕ × ℕ}
    (hp : p ∈ rows.zip cols) (hj : csr.firstMatch p.1 p.2 = some j) :
    j < csr.nnz ∧ csr.indices.getD j 0 = p.2 :=
  h.firstMatch_lt (ht p hp).1 hj

lemma Fitting.match_lt32 (h : csr.Fitting) (ht : csr.QueriesValid rows cols)
    (hreach : ∀ r ∈ rows, csr.InReach r) {p : ℕ × ℕ} (hp : p ∈ rows.zip cols)
    (hj : csr.firstMatch p.1 p.2 = some j) : j < 2 ^ 32 :=
  (h.place_lt_ptr (ht p hp).1 (List.mem_of_find?_eq_some hj)).trans_le
    (hreach _ (List.of_mem_zip hp).1).2

/-- Without a data array, the device returns the column of a match and not its place. -/
lemma Fitting.readGm_devicePtr_iff (h : csr.Fitting) (hj : j < csr.nnz) (h32 : j < 2 ^ 32)
    (hc : csr.indices.getD j 0 = c) :
    readGm (csr.devicePtr.map Int.ofNat) j = .ok (Int.ofNat (idAt csr.data j)) ↔
      csr.hasData = true ∨ j = c := by
  by_cases hdata : csr.hasData = true
  · have hne : csr.data ≠ [] := of_decide_eq_true hdata
    have hlt : j < (csr.data.map Int.ofNat).length := by
      rw [List.length_map, h.data_length hdata]
      exact hj
    rw [devicePtr, if_pos hdata, readGm_eq hlt h32, List.getElem_map, idAt, if_neg hne,
      List.getD_eq_getElem _ _ (by rwa [List.length_map] at hlt)]
    exact iff_of_true rfl (Or.inl hdata)
  · have hnil : csr.data = [] := by
      by_contra hne
      exact hdata (decide_eq_true hne)
    have hlt : j < (csr.indices.map Int.ofNat).length := by
      rw [List.length_map]
      exact hj
    have hget (hin : j < csr.indices.length) : csr.indices[j] = c := by
      rw [← hc, List.getD_eq_getElem _ _ hin]
    rw [devicePtr, if_neg hdata, readGm_eq hlt h32, List.getElem_map, idAt, if_pos hnil, hget,
      or_iff_right hdata]
    constructor
    · intro heq
      exact (Int.ofNat.inj (Except.ok.inj heq)).symm
    · rintro rfl
      rfl

lemma Fitting.ids_agree_iff (h : csr.Fitting) (hs : csr.ColsSorted) (filler : ℤ)
    (hreach : ∀ r ∈ rows, csr.InReach r) (cols : List ℕ) :
    Agrees (csr.getData Int.ofNat filler rows cols) (csr.getDataAscend filler rows cols) ↔
      csr.Taken rows cols ∧ ∀ p ∈ rows.zip cols, ∀ j, csr.firstMatch p.1 p.2 = some j →
        csr.hasData = true ∨ j = p.2 := by
  have hkernel : (∃ vs, csr.getData Int.ofNat filler rows cols = .ok vs ∧
      rstLen rows cols < 2 ^ 32 ∧
      csr.kernelCsrGetData (csr.devicePtr.map Int.ofNat) filler rows cols (rstLen rows cols) =
        .ok vs) ↔ _ := h.kernel_agrees_iff hs hreach
  have hlaunch : Agrees (csr.getData Int.ofNat filler rows cols)
      (csr.getDataAscend filler rows cols) ↔ _ :=
    exists_congr fun vs => and_congr_right fun hhost => launch_eq_ok_iff hhost
  rw [hlaunch, hkernel]
  refine and_congr_right fun ht => ?_
  refine forall_congr' fun p => forall_congr' fun hp => forall_congr' fun j =>
    forall_congr' fun hj => ?_
  obtain ⟨hlt, hc⟩ := h.match_lt ht.valid hp hj
  exact h.readGm_devicePtr_iff hlt (h.match_lt32 ht.valid hreach hp hj) hc

variable {weights filler : List Word}

lemma readGm_weights_iff (hj : j < 2 ^ 32) (hid : idAt csr.data j < weights.length) :
    readGm weights j = .ok (weights.getD (idAt csr.data j) 0) ↔
      weights[j]? = weights[idAt csr.data j]? := by
  have hget : weights[idAt csr.data j]? = some (weights.getD (idAt csr.data j) 0) := by
    rw [List.getD_eq_getElem _ _ hid, List.getElem?_eq_getElem hid]
  rw [readGm, Nat.mod_eq_of_lt hj, hget]
  cases weights[j]? with
  | none =>
      constructor
      · intro heq
        cases heq
      · intro heq
        cases heq
  | some w =>
      constructor
      · intro heq
        rw [Except.ok.inj heq]
      · intro heq
        rw [Option.some.inj heq]

lemma weightAt_one {eid : ℕ} (h : eid < weights.length) :
    weightAt 1 weights eid = [weights.getD eid 0] := by
  rw [weightAt, Nat.one_mul, List.drop_eq_getElem_cons h, List.getD_eq_getElem _ _ h,
    List.take_succ_cons, List.take_zero]

lemma Fitting.flatten_weights (h : csr.Fitting) {w : Word} (hvalid : csr.QueriesValid rows cols)
    (hweights : ∀ j < csr.nnz, idAt csr.data j < weights.length) :
    ((rows.zip cols).map fun p => ((csr.firstMatch p.1 p.2).map fun j =>
        weightAt 1 weights (idAt csr.data j)).getD [w]).flatten =
      (rows.zip cols).map fun p => ((csr.firstMatch p.1 p.2).map fun j =>
        weights.getD (idAt csr.data j) 0).getD w := by
  rw [← List.flatMap_def, ← List.flatMap_singleton' (List.map _ _), List.flatMap_map]
  refine List.flatMap_congr fun p hp => ?_
  cases hj : csr.firstMatch p.1 p.2 with
  | none => rfl
  | some j => exact weightAt_one (hweights j (h.match_lt hvalid hp hj).1)

/-- The kernel returns the weights, if it finds those of the matches. -/
lemma Fitting.kernel_weights_iff (h : csr.Fitting) (w : Word) (ht : csr.Taken rows cols)
    (hreach : ∀ r ∈ rows, csr.InReach r)
    (hweights : ∀ j < csr.nnz, idAt csr.data j < weights.length) :
    csr.kernelCsrGetData weights w rows cols (rstLen rows cols) = .ok ((rows.zip cols).map fun p =>
        ((csr.firstMatch p.1 p.2).map fun j => weights.getD (idAt csr.data j) 0).getD w) ↔
      ∀ p ∈ rows.zip cols, ∀ j, csr.firstMatch p.1 p.2 = some j →
        weights[j]? = weights[idAt csr.data j]? := by
  rw [h.kernel_eq_ok_iff weights (fun eid => weights.getD eid 0) ht.length_eq ht.length_lt ht.valid
    hreach]
  refine forall_congr' fun p => forall_congr' fun hp => forall_congr' fun j =>
    forall_congr' fun hj => ?_
  have hlt := (h.match_lt ht.valid hp hj).1
  exact readGm_weights_iff (h.match_lt32 ht.valid hreach hp hj) (hweights j hlt)

/-- The weights of type `float`. -/
lemma Fitting.floats_agree_iff (h : csr.Fitting) (hs : csr.ColsSorted)
    (toFloat : Word → Word → Word) (w : Word) (hreach : ∀ r ∈ rows, csr.InReach r) (cols : List ℕ)
    (hweights : ∀ j < csr.nnz, idAt csr.data j < weights.length) :
    Agrees (csr.getWeights 1 weights [w] rows cols)
        (csr.getWeightsAscend toFloat 1 weights [w] rows cols) ↔
      csr.Taken rows cols ∧ ∀ p ∈ rows.zip cols, ∀ j, csr.firstMatch p.1 p.2 = some j →
        weights[j]? = weights[idAt csr.data j]? := by
  have hwords (out : List Word) :
      out.map some ++ List.replicate ((1 - 1) * rstLen rows cols) none = out.map some := by
    rw [Nat.sub_self, Nat.zero_mul, List.replicate_zero, List.append_nil]
  constructor
  · rintro ⟨v, hhost, hdev⟩
    obtain ⟨vs, hvs, hv⟩ := bind_eq_ok_iff.1 hhost
    obtain ⟨h32, hdev⟩ := (launch_eq_ok_iff hvs).1 hdev
    obtain ⟨out, hout, hv'⟩ := bind_eq_ok_iff.1 hdev
    have ht : csr.Taken rows cols := taken_of_kernel hvs h32 hout
    refine ⟨ht, (h.kernel_weights_iff w ht hreach hweights).1 ?_⟩
    rw [getData_of_length_eq hs _ _ ht.length_eq ht.valid] at hvs
    obtain rfl := Except.ok.inj hvs
    rw [h.flatten_weights ht.valid hweights] at hv
    have heq := Except.ok.inj (hv'.trans hv.symm)
    rw [hwords] at heq
    rw [← List.map_injective_iff.2 (Option.some_injective _) heq]
    exact hout
  · rintro ⟨ht, hall⟩
    have hhost := getData_of_length_eq hs (weightAt 1 weights) [w] ht.length_eq ht.valid
    have hdev := (h.kernel_weights_iff w ht hreach hweights).2 hall
    refine ⟨_, bind_eq_ok_iff.2 ⟨_, hhost, rfl⟩, (launch_eq_ok_iff hhost).2 ⟨ht.rstLen_lt, ?_⟩⟩
    refine bind_eq_ok_iff.2 ⟨_, hdev, ?_⟩
    rw [h.flatten_weights ht.valid hweights, hwords]

/-- Half of the result for weights of type `double` is not written. -/
lemma doubles_agree_iff (toFloat : Word → Word → Word) (rows cols : List ℕ) :
    Agrees (csr.getWeights 2 weights filler rows cols)
        (csr.getWeightsAscend toFloat 2 weights filler rows cols) ↔ rows = [] ∧ cols = [] := by
  constructor
  · rintro ⟨v, hhost, hdev⟩
    obtain ⟨vs, hvs, hv⟩ := bind_eq_ok_iff.1 hhost
    obtain ⟨-, hdev⟩ := (launch_eq_ok_iff hvs).1 hdev
    obtain ⟨out, -, hv'⟩ := bind_eq_ok_iff.1 hdev
    have heq := Except.ok.inj (hv'.trans hv.symm)
    by_contra hne
    have hpos : 0 < rstLen rows cols := by
      rw [rstLen, lt_max_iff, List.length_pos_iff, List.length_pos_iff]
      exact not_and_or.1 hne
    have hmem : none ∈ vs.flatten.map some := by
      rw [← heq]
      refine List.mem_append_right _ (List.mem_replicate.2 ⟨?_, rfl⟩)
      omega
    obtain ⟨w, -, hw⟩ := List.mem_map.1 hmem
    cases hw
  · rintro ⟨rfl, rfl⟩
    exact ⟨[], rfl, rfl⟩

/-- Where `CSRGetData` on the device returns what it does on the host: the ids of the matches, their
weights of type `float`, and those of type `double`. -/
theorem getData_agrees_iff (h : csr.Fitting) (hs : csr.ColsSorted)
    (toFloat : Word → Word → Word) (filler : ℤ) (weights : List Word) (w : Word)
    (doubles pair : List Word) (rows cols : List ℕ) (hreach : ∀ r ∈ rows, csr.InReach r)
    (hweights : ∀ j < csr.nnz, idAt csr.data j < weights.length) :
    (Agrees (csr.getData Int.ofNat filler rows cols) (csr.getDataAscend filler rows cols) ↔
      csr.Taken rows cols ∧ ∀ p ∈ rows.zip cols, ∀ j, csr.firstMatch p.1 p.2 = some j →
        csr.hasData = true ∨ j = p.2) ∧
    (Agrees (csr.getWeights 1 weights [w] rows cols)
        (csr.getWeightsAscend toFloat 1 weights [w] rows cols) ↔
      csr.Taken rows cols ∧ ∀ p ∈ rows.zip cols, ∀ j, csr.firstMatch p.1 p.2 = some j →
        weights[j]? = weights[idAt csr.data j]?) ∧
    (Agrees (csr.getWeights 2 doubles pair rows cols)
        (csr.getWeightsAscend toFloat 2 doubles pair rows cols) ↔ rows = [] ∧ cols = []) :=
  ⟨h.ids_agree_iff hs filler hreach cols, h.floats_agree_iff hs toFloat w hreach cols hweights,
    doubles_agree_iff toFloat rows cols⟩

/-- One row with two entries. -/
def fan (data : List ℕ) : CSRMatrix where
  bits := 64
  numRows := 1
  numCols := 6
  indptr := [0, 2]
  indices := [3, 5]
  data := data
  sorted := true

lemma fan_onDevice {data : List ℕ} (hdata : (fan data).hasData = true → data.length = 2) :
    (fan data).OnDevice where
  framed := by
    refine ⟨rfl, fun r hr => ?_, rfl⟩
    obtain rfl : r = 0 := Nat.lt_one_iff.1 hr
    exact Nat.zero_le 2
  indptr_length := rfl
  data_length := hdata
  numRows_lt := by
    show 1 + 1 < 2 ^ 32
    decide
  nnz_lt := by
    show 2 < 2 ^ 32
    decide

lemma fan_colsSorted (data : List ℕ) : (fan data).ColsSorted := by
  intro _ r hr
  obtain rfl : r = 0 := Nat.lt_one_iff.1 hr
  show [3, 5].Pairwise (· ≤ ·)
  decide

lemma fan_taken (data : List ℕ) : (fan data).Taken [0, 0] [5, 4] where
  length_eq := rfl
  length_lt := by decide
  valid := by
    show ∀ p ∈ [(0, 5), (0, 4)], p.1 < 1 ∧ p.2 < 6
    decide

/-- Ids and weights of type `float` in the order of the entries. -/
theorem getData_agrees_fan :
    Agrees ((fan [0, 1]).getData Int.ofNat (-1) [0, 0] [5, 4])
        ((fan [0, 1]).getDataAscend (-1) [0, 0] [5, 4]) ∧
      Agrees ((fan [0, 1]).getWeights 1 [7, 8] [0] [0, 0] [5, 4])
        ((fan [0, 1]).getWeightsAscend (fun _ high => high) 1 [7, 8] [0] [0, 0] [5, 4]) ∧
      Agrees ((fan [0, 1]).getWeights 2 [7, 8, 9, 10] [0, 0] [] [])
        ((fan [0, 1]).getWeightsAscend (fun _ high => high) 2 [7, 8, 9, 10] [0, 0] [] []) := by
  have hfan : (fan [0, 1]).OnDevice := fan_onDevice fun _ => rfl
  have hreach : ∀ r ∈ [0, 0], (fan [0, 1]).InReach r := by
    intro r hr
    obtain rfl : r = 0 := by simpa using hr
    exact hfan.inReach Nat.zero_lt_one
  have hids : ∀ j < (fan [0, 1]).nnz, idAt (fan [0, 1]).data j < [7, 8].length := by
    show ∀ j < 2, idAt [0, 1] j < 2
    decide
  have hplace {j : ℕ} (hj : j < 2) : ([7, 8] : List Word)[j]? = [7, 8][idAt [0, 1] j]? := by
    revert j
    decide
  obtain ⟨hdata, hfloat, -⟩ := getData_agrees_iff hfan.toFitting (fan_colsSorted _)
    (fun _ high => high) (-1) [7, 8] 0 [7, 8, 9, 10] [0, 0] [0, 0] [5, 4] hreach hids
  obtain ⟨-, -, hdouble⟩ := getData_agrees_iff hfan.toFitting (fan_colsSorted _)
    (fun _ high => high) (-1) [7, 8] 0 [7, 8, 9, 10] [0, 0] [] [] (by simp) hids
  refine ⟨hdata.2 ⟨fan_taken _, fun _ _ _ _ => Or.inl rfl⟩, hfloat.2 ⟨fan_taken _, ?_⟩,
    hdouble.2 ⟨rfl, rfl⟩⟩
  intro p hp j hj
  exact hplace (hfan.match_lt (fan_taken _).valid hp hj).1

/-- Without a data array the device returns the columns, the id arrays of a call are read behind their
ends, and the weights are those of the places; of those of type `double` half is not written. -/
theorem getData_differs_fan :
    (fan []).getData Int.ofNat (-1) [0, 0] [3, 5] = .ok [0, 1] ∧
      (fan []).getDataAscend (-1) [0, 0] [3, 5] = .ok [3, 5] ∧
      (fan [1, 0]).getData Int.ofNat (-1) [0] [3, 5] = .ok [1, 0] ∧
      (fan [1, 0]).getDataAscend (-1) [0] [3, 5] = .error .outOfBounds ∧
      (fan [1, 0]).getWeights 1 [7, 8] [0] [0] [3] = .ok [some 8] ∧
      (fan [1, 0]).getWeightsAscend (fun _ high => high) 1 [7, 8] [0] [0] [3] = .ok [some 7] ∧
      (fan [0, 1]).getWeights 2 [7, 8, 9, 10] [0, 0] [0] [3] = .ok [some 7, some 8] ∧
      (fan [0, 1]).getWeightsAscend (fun _ high => high) 2 [7, 8, 9, 10] [0, 0] [0] [3] =
        .ok [some 7, none] := by
  decide +kernel

end CSRMatrix

end DglAscend.Aten
