import DglAscend.Aten.Slices
import DglAscend.Lib.StaticChunks
import DglAscend.Random.Choice

/-!
# Picking neighbours for each edge type

`CSRRowWisePerEtypePick` of `rowwise_pick.h`.  The ids of the edges tell their types, since the ids of
type `t` are those from `eid2etype_offset[t]` to `eid2etype_offset[t + 1]`.  A row is taken whole when
no type can have more edges than are wanted; otherwise its edges are sorted by type and the edges of
each type are picked in turn.
-/

namespace DglAscend.Aten

open DglAscend.Random

/-- `std::upper_bound`: the number of elements before the first one that is greater. -/
def upperBound (l : List ℕ) (v : ℕ) : ℕ := (l.takeWhile fun x => x ≤ v).length

/-- The arguments of `CSRRowWisePerEtypePick` that are not functions.  A null probability array is
empty. -/
structure EtypePick where
  csr : CSRMatrix
  eid2etypeOffset : List ℕ
  numPicks : List ℤ
  replace : Bool
  rowwiseEtypeSorted : Bool
  probOrMask : List (List ℚ)

/-- `EtypeRangePickFn`; the first argument is the place of the seed, since every call draws numbers of
its own. -/
abbrev EtypeRangePickFn := (seed off etOffset curEt etLen : ℕ) → (etIdx etEid : List ℕ) →
  Except Stop (List (Option ℕ))

namespace EtypePick

variable (c : EtypePick)

/-- `heterogenized_etype` -/
def heterogenizedEtype (eid : ℕ) : ℕ := upperBound c.eid2etypeOffset eid - 1

/-- `heterogenized_eid` -/
def heterogenizedEid (eid : ℕ) : ℕ := eid - c.eid2etypeOffset.getD (c.heterogenizedEtype eid) 0

/-- `homogenized_eid`, the id of the edge at a place. -/
def eidAt (p : ℕ) : ℕ := idAt c.csr.data p

/-- No probability array, or a probability that is not zero. -/
def selects (eid : ℕ) : Bool :=
  c.probOrMask = [] ∨ c.probOrMask.getD (c.heterogenizedEtype eid) [] = [] ∨
    0 < (c.probOrMask.getD (c.heterogenizedEtype eid) []).getD (c.heterogenizedEid eid) 0

/-- The edges of some places that are selected. -/
def selectAll (rid : ℕ) (places : List ℕ) : List Entry :=
  places.filterMap fun p => if c.selects (c.eidAt p) then some (c.csr.entry rid p) else none

/-- `same_num_pick` -/
def sameNumPick : Bool := c.numPicks.all fun n => n = c.numPicks.headD 0

/-- The edges of the current type, `etLen` of them from `etOffset` on. -/
def pickEtype (pick : EtypeRangePickFn) (seed rid : ℕ) (etIdx etEid : List ℕ)
    (curEt etOffset etLen : ℕ) : Except Stop (List Entry) :=
  let off := c.csr.ptr rid
  let numPick := c.numPicks.getD curEt 0
  if numPick = -1 ∨ ((etLen : ℤ) ≤ numPick ∧ c.replace = false) then
    .ok (c.selectAll rid ((List.range etLen).map fun k => off + etIdx.getD (etOffset + k) 0))
  else if numPick < 0 then .error .raised
  else do
    let picked ← pick seed off etOffset curEt etLen etIdx etEid
    return picked.reduceOption.map fun k => c.csr.entry rid (off + etIdx.getD (etOffset + k) 0)

end EtypePick

/-- The loop over the sorted row; `n` iterations are left. -/
def etypeLoop (len : ℕ) (et etIdx : List ℕ) (pickEtype : ℕ → ℕ → ℕ → Except Stop (List Entry)) :
    ℕ → ℕ → ℕ → ℕ → ℕ → Except Stop (List Entry)
  | 0, _, _, _, _ => .ok []
  | n + 1, j, curEt, etOffset, etLen =>
    if ¬(j + 1 = len ∨ et.getD (etIdx.getD j 0) 0 ≤ et.getD (etIdx.getD (j + 1) 0) 0) then
      .error .raised
    else if j + 1 = len ∨ curEt ≠ et.getD (etIdx.getD (j + 1) 0) 0 then do
      let picked ← pickEtype curEt etOffset etLen
      if j + 1 = len then return picked
      else do
        let rest ← etypeLoop len et etIdx pickEtype n (j + 1)
          (et.getD (etIdx.getD (j + 1) 0) 0) (j + 1) 1
        return picked ++ rest
    else etypeLoop len et etIdx pickEtype n (j + 1) curEt etOffset (etLen + 1)

namespace EtypePick

variable (c : EtypePick)

/-- `et` -/
def et (rid : ℕ) : List ℕ := (c.csr.places rid).map fun p => c.heterogenizedEtype (c.eidAt p)

/-- `et_eid` -/
def etEid (rid : ℕ) : List ℕ := (c.csr.places rid).map fun p => c.heterogenizedEid (c.eidAt p)

/-- `et_idx` -/
def etIdx (sort : StdSort ℕ) (rid : ℕ) : List ℕ :=
  let len := c.csr.ptr (rid + 1) - c.csr.ptr rid
  if c.rowwiseEtypeSorted then List.range len
  else sort.run (fun i j => (c.et rid).getD i 0 < (c.et rid).getD j 0) (List.range len)

/-- A row that is picked type by type. -/
def slowRow (pick : EtypeRangePickFn) (sort : StdSort ℕ) (seed rid : ℕ) :
    Except Stop (List Entry) :=
  let len := c.csr.ptr (rid + 1) - c.csr.ptr rid
  let idx := c.etIdx sort rid
  if c.numPicks.length ≤ (c.et rid).getD (idx.getD (len - 1) 0) 0 then .error .raised
  else etypeLoop len (c.et rid) idx (c.pickEtype pick seed rid idx (c.etEid rid)) len 0
    ((c.et rid).getD (idx.getD 0 0) 0) 0 1

/-- What is picked for a seed. -/
def pickRow (pick : EtypeRangePickFn) (sort : StdSort ℕ) (seed rid : ℕ) :
    Except Stop (List Entry) :=
  let len := c.csr.ptr (rid + 1) - c.csr.ptr rid
  if c.csr.numRows ≤ rid then .error .raised
  else if len = 0 then .ok []
  else if c.sameNumPick ∧ (len : ℤ) ≤ c.numPicks.headD 0 ∧ c.replace = false then
    .ok (c.selectAll rid (c.csr.places rid))
  else c.slowRow pick sort seed rid

/-- `CSRRowWisePerEtypePick`.  `num_picks[0]` is read before the loop, and `Concat` reads the first of
its arrays. -/
def csrRowWisePerEtypePick (numThreads : ℕ) (pick : EtypeRangePickFn) (sort : StdSort ℕ)
    (rows : List ℕ) : Except Stop COOMatrix :=
  if c.numPicks = [] then .error .outOfBounds
  else do
    let picked ← parallelFor numThreads rows.length fun i => c.pickRow pick sort i (rows.getD i 0)
    if rows = [] then .error .outOfBounds
    else .ok (.ofEntries c.csr.bits c.csr.numRows c.csr.numCols picked.flatten false false)

/-! ## `CSRRowWisePerEtypeSampling` -/

/-- The numbers that the engine draws for a seed and an edge type, and the order of its set. -/
structure Engine where
  uniform : (seed etype : ℕ) → ℕ → ℚ
  ints : (seed etype : ℕ) → List ℕ
  setOrder : AnyOrder ℕ

/-- `GetSamplingRangePickFn` -/
def samplingRangePickFn (engine : Engine) : EtypeRangePickFn :=
  fun seed _ etOffset curEt etLen etIdx etEid =>
    let p := c.probOrMask.getD curEt []
    let probs := (List.range etLen).map fun j =>
      if p = [] then 1 else p.getD (etEid.getD (etIdx.getD (etOffset + j) 0) 0) 0
    choice ((List.range (c.numPicks.getD curEt 0).toNat).map (engine.uniform seed curEt)) probs
      c.replace

/-- `GetSamplingUniformRangePickFn` -/
def samplingUniformRangePickFn (engine : Engine) : EtypeRangePickFn :=
  fun seed _ _ curEt etLen _ _ =>
    (uniformChoice (engine.ints seed curEt) engine.setOrder (c.numPicks.getD curEt 0).toNat etLen
      c.replace).map (List.map some)

/-- `aten::CSRRowWisePerEtypeSampling`: without any probability array the choice is uniform, and the
picking sees no array. -/
def csrRowWisePerEtypeSampling (numThreads : ℕ) (engine : Engine) (sort : StdSort ℕ)
    (rows : List ℕ) : Except Stop COOMatrix :=
  if c.probOrMask = [] then .error .raised
  else if c.probOrMask.all fun p => p = [] then
    { c with probOrMask := [] }.csrRowWisePerEtypePick numThreads
      ({ c with probOrMask := [] }.samplingUniformRangePickFn engine) sort rows
  else if c.probOrMask.length = c.numPicks.length then
    c.csrRowWisePerEtypePick numThreads (c.samplingRangePickFn engine) sort rows
  else .error .raised

/-! ## What is picked -/

/-- The edge has the type. -/
def OfType (t eid : ℕ) : Prop :=
  c.eid2etypeOffset.getD t 0 ≤ eid ∧ eid < c.eid2etypeOffset.getD (t + 1) 0

instance (t eid : ℕ) : Decidable (c.OfType t eid) :=
  inferInstanceAs (Decidable (_ ∧ _))

/-- The edge of the type has a positive probability. -/
def Likely (t eid : ℕ) : Prop :=
  c.probOrMask = [] ∨ c.probOrMask.getD t [] = [] ∨
    0 < (c.probOrMask.getD t []).getD (eid - c.eid2etypeOffset.getD t 0) 0

instance (t eid : ℕ) : Decidable (c.Likely t eid) :=
  inferInstanceAs (Decidable (_ ∨ _ ∨ _))

/-- The edges of a row that can be picked for a type. -/
def candidates (rid t : ℕ) : List Entry :=
  (c.csr.rowEntries rid).filter fun e => c.OfType t e.2.2 ∧ c.Likely t e.2.2

/-- The picks of one seed and one type. -/
structure PicksRight (numPick : ℤ) (replace : Bool) (candidates picked : List Entry) : Prop where
  all : numPick = -1 → picked.Perm candidates
  once : numPick ≠ -1 → replace = false → (picked.map fun e => e.2.2).Nodup ∧
    (∀ e ∈ picked, e ∈ candidates) ∧ picked.length = min numPick.toNat candidates.length
  again : numPick ≠ -1 → replace = true → (∀ e ∈ picked, e ∈ candidates) ∧
    picked.length = if candidates = [] then 0 else numPick.toNat

/-- The picks of a seed: every pick has a type, and those of each type are as they should be. -/
structure RowPicked (rid : ℕ) (picked : List Entry) : Prop where
  typed : ∀ e ∈ picked, ∃ t < c.numPicks.length, c.OfType t e.2.2
  right : ∀ t < c.numPicks.length, PicksRight (c.numPicks.getD t 0) c.replace (c.candidates rid t)
    (picked.filter fun e => c.OfType t e.2.2)

/-- The picks of all seeds, one after the other. -/
def PicksAll (rows : List ℕ) (picked : COOMatrix) : Prop :=
  picked.numRows = c.csr.numRows ∧ picked.numCols = c.csr.numCols ∧
    ∃ picks : List (List Entry), picks.length = rows.length ∧ picked.entries = picks.flatten ∧
      ∀ i < rows.length, c.RowPicked (rows.getD i 0) (picks.getD i [])

/-- The arguments belong together: the offsets part the ids of the edges, a fanout is a number of
picks or `-1`, and a probability array is null or has a weight for every edge of its type. -/
structure WellFormed : Prop where
  csr : c.csr.Valid
  nonempty : c.numPicks ≠ []
  offset_length : c.eid2etypeOffset.length = c.numPicks.length + 1
  offset_zero : c.eid2etypeOffset.getD 0 0 = 0
  offset_sorted : c.eid2etypeOffset.Pairwise (· ≤ ·)
  offset_last : c.csr.nnz ≤ c.eid2etypeOffset.getD c.numPicks.length 0
  picks : ∀ n ∈ c.numPicks, -1 ≤ n
  prob_length : c.probOrMask = [] ∨ c.probOrMask.length = c.numPicks.length
  prob_sizes : ∀ t < c.probOrMask.length, c.probOrMask.getD t [] = [] ∨
    (c.probOrMask.getD t []).length =
      c.eid2etypeOffset.getD (t + 1) 0 - c.eid2etypeOffset.getD t 0
  prob_nonneg : ∀ p ∈ c.probOrMask, ∀ x ∈ p, 0 ≤ x

/-- The edges of the row are sorted by type. -/
def RowSorted (rid : ℕ) : Prop :=
  (c.csr.rowEntries rid).Pairwise fun e e' => ∀ t t', c.OfType t e.2.2 → c.OfType t' e'.2.2 → t ≤ t'

end EtypePick

/-! ## Types -/

lemma upperBound_spec {l : List ℕ} (hsorted : l.Pairwise (· ≤ ·)) (v : ℕ) :
    (∀ i < upperBound l v, l.getD i 0 ≤ v) ∧
      (upperBound l v < l.length → v < l.getD (upperBound l v) 0) := by
  induction l with
  | nil => exact ⟨nofun, nofun⟩
  | cons x l ih =>
      obtain ⟨hle, hlt⟩ := ih (List.pairwise_cons.1 hsorted).2
      by_cases hx : x ≤ v
      · have hstep : upperBound (x :: l) v = upperBound l v + 1 := by
          rw [upperBound, List.takeWhile_cons_of_pos (by simpa using hx), List.length_cons]
          rfl
        rw [hstep]
        refine ⟨fun i hi => ?_, fun h => hlt (Nat.lt_of_succ_lt_succ h)⟩
        cases i with
        | zero => exact hx
        | succ i => exact hle i (Nat.lt_of_succ_lt_succ hi)
      · have hstep : upperBound (x :: l) v = 0 := by
          rw [upperBound, List.takeWhile_cons_of_neg (by simpa using hx)]
          rfl
        rw [hstep]
        exact ⟨nofun, fun _ => Nat.lt_of_not_le hx⟩

namespace EtypePick

variable {c : EtypePick} {eid t t' : ℕ}

lemma WellFormed.offset_mono (h : c.WellFormed) {i j : ℕ} (hij : i ≤ j)
    (hj : j ≤ c.numPicks.length) :
    c.eid2etypeOffset.getD i 0 ≤ c.eid2etypeOffset.getD j 0 := by
  have hlen := h.offset_length
  rw [List.getD_eq_getElem _ _ (by omega), List.getD_eq_getElem _ _ (by omega)]
  rcases hij.eq_or_lt with rfl | hlt
  · exact le_rfl
  · exact List.pairwise_iff_getElem.1 h.offset_sorted i j _ _ hlt

lemma WellFormed.lt_of_ofType (h : c.WellFormed) (htype : c.OfType t eid) : t < c.numPicks.length := by
  by_contra hge
  have hlen := h.offset_length
  have hlt := htype.2
  rw [List.getD_eq_default _ _ (by omega)] at hlt
  exact absurd hlt eid.not_lt_zero

lemma WellFormed.ofType_unique (h : c.WellFormed) (htype : c.OfType t eid) (htype' : c.OfType t' eid) :
    t = t' := by
  have hlt := h.lt_of_ofType htype
  have hlt' := h.lt_of_ofType htype'
  obtain ⟨hlow, hhigh⟩ := htype
  obtain ⟨hlow', hhigh'⟩ := htype'
  by_contra hne
  rcases Nat.lt_or_gt_of_ne hne with hless | hless
  · have hmono := h.offset_mono (i := t + 1) (j := t') hless hlt'.le
    omega
  · have hmono := h.offset_mono (i := t' + 1) (j := t) hless hlt.le
    omega

lemma WellFormed.ofType_heterogenizedEtype (h : c.WellFormed) (heid : eid < c.csr.nnz) :
    c.OfType (c.heterogenizedEtype eid) eid := by
  obtain ⟨hle, hlt⟩ := upperBound_spec h.offset_sorted eid
  have hlen := h.offset_length
  have hlast := h.offset_last
  have hpos : 0 < upperBound c.eid2etypeOffset eid := by
    by_contra hzero
    have hzero : upperBound c.eid2etypeOffset eid = 0 := by omega
    rw [hzero, h.offset_zero] at hlt
    exact absurd (hlt (by omega)) eid.not_lt_zero
  have hless : upperBound c.eid2etypeOffset eid < c.eid2etypeOffset.length := by
    by_contra hge
    have hmax := hle c.numPicks.length (by omega)
    omega
  refine ⟨hle _ (by rw [heterogenizedEtype]; omega), ?_⟩
  rw [heterogenizedEtype, Nat.sub_add_cancel hpos]
  exact hlt hless

lemma WellFormed.ofType_iff (h : c.WellFormed) (heid : eid < c.csr.nnz) :
    c.OfType t eid ↔ c.heterogenizedEtype eid = t :=
  ⟨fun htype => h.ofType_unique (h.ofType_heterogenizedEtype heid) htype,
    fun heq => heq ▸ h.ofType_heterogenizedEtype heid⟩

lemma selects_iff : c.selects eid = true ↔ c.Likely (c.heterogenizedEtype eid) eid :=
  decide_eq_true_iff

/-! ## Places and ids -/

lemma WellFormed.eidAt_lt (h : c.WellFormed) {p : ℕ} (hp : p < c.csr.nnz) : c.eidAt p < c.csr.nnz :=
  List.mem_range.1 (h.csr.numbers.map_idAt.mem_iff.1
    (List.mem_map_of_mem (List.mem_range.2 hp)))

lemma WellFormed.eidAt_inj (h : c.WellFormed) {p q : ℕ} (hp : p < c.csr.nnz) (hq : q < c.csr.nnz)
    (heq : c.eidAt p = c.eidAt q) : p = q :=
  List.inj_on_of_nodup_map (h.csr.numbers.map_idAt.nodup_iff.2 List.nodup_range)
    (List.mem_range.2 hp) (List.mem_range.2 hq) heq

lemma selectAll_eq (c : EtypePick) (rid : ℕ) (places : List ℕ) :
    c.selectAll rid places = (places.map (c.csr.entry rid)).filter fun e => c.selects e.2.2 := by
  induction places with
  | nil => rfl
  | cons p places ih =>
      rw [selectAll, List.filterMap_cons, List.map_cons, List.filter_cons, ← ih]
      by_cases hp : c.selects (c.eidAt p) = true
      · have hp' : c.selects (c.csr.entry rid p).2.2 = true := hp
        rw [if_pos hp, if_pos hp']
        rfl
      · have hp' : ¬c.selects (c.csr.entry rid p).2.2 = true := hp
        rw [if_neg hp, if_neg hp']
        rfl

end EtypePick

/-! ## The loop over the types -/

/-- The loop picks once for every type in the row, from the edges of that type. -/
theorem etypeLoop_spec {len : ℕ} {et etIdx : List ℕ}
    {pickEtype : ℕ → ℕ → ℕ → Except Stop (List Entry)} {key : ℕ → ℕ} {typeOf : Entry → ℕ}
    {right : ℕ → List ℕ → List Entry → Prop} (hlen : etIdx.length = len)
    (hkey : ∀ k ∈ etIdx, et.getD k 0 = key k) (hsorted : etIdx.Pairwise fun k k' => key k ≤ key k')
    (hnil : ∀ t, right t [] [])
    (hpick : ∀ cur pre group rest, etIdx = pre ++ group ++ rest → group ≠ [] →
      (∀ k ∈ group, key k = cur) → ∃ out, pickEtype cur pre.length group.length = .ok out ∧
        (∀ e ∈ out, typeOf e = cur) ∧ right cur group out)
    (pre group rest : List ℕ) (cur : ℕ) (hidx : etIdx = pre ++ group ++ rest) (hne : group ≠ [])
    (hcur : ∀ k ∈ group, key k = cur) :
    ∃ out, etypeLoop len et etIdx pickEtype (rest.length + 1) (pre.length + group.length - 1) cur
        pre.length group.length = .ok out ∧
      (∀ e ∈ out, ∃ k ∈ group ++ rest, typeOf e = key k) ∧
      ∀ t, right t ((group ++ rest).filter fun k => key k = t) (out.filter fun e => typeOf e = t) := by
  have hpos := List.length_pos_iff.2 hne
  induction rest generalizing pre group cur with
  | nil =>
      obtain ⟨out, hout, htype, hright⟩ := hpick cur pre group [] hidx hne hcur
      have hlast : pre.length + group.length - 1 + 1 = len := by
        rw [← hlen, hidx, List.append_nil, List.length_append]
        omega
      refine ⟨out, ?_, ?_, fun t => ?_⟩
      · rw [List.length_nil, etypeLoop, if_neg (by simp [hlast]), if_pos (.inl hlast), hout]
        simp only [hlast, if_true]
        rfl
      · obtain ⟨k, hk⟩ := List.exists_mem_of_ne_nil _ hne
        exact fun e he => ⟨k, List.mem_append_left _ hk, (htype e he).trans (hcur k hk).symm⟩
      · rw [List.append_nil]
        by_cases ht : cur = t
        · rw [List.filter_eq_self.2 fun k hk => decide_eq_true ((hcur k hk).trans ht),
            List.filter_eq_self.2 fun e he => decide_eq_true ((htype e he).trans ht), ← ht]
          exact hright
        · rw [List.filter_eq_nil_iff.2 fun k hk => by simpa [hcur k hk] using ht,
            List.filter_eq_nil_iff.2 fun e he => by simpa [htype e he] using ht]
          exact hnil t
  | cons next rest ih =>
      have hlast : pre.length + group.length - 1 + 1 = pre.length + group.length := by omega
      have hnext : etIdx.getD (pre.length + group.length) 0 = next := by
        rw [hidx, ← List.length_append, List.getD_append_right _ _ _ _ le_rfl, Nat.sub_self]
        rfl
      have hkeynext : et.getD next 0 = key next := hkey next (by rw [hidx]; simp)
      have hends : pre.length + group.length ≠ len := by
        rw [← hlen, hidx, List.length_append, List.length_append, List.length_cons]
        omega
      have hle : ∀ k ∈ group, ∀ k' ∈ next :: rest, key k ≤ key k' := by
        intro k hk k' hk'
        rw [hidx, List.append_assoc] at hsorted
        exact (List.pairwise_append.1 (List.pairwise_append.1 hsorted).2.1).2.2 k hk k' hk'
      obtain ⟨k₀, hk₀⟩ := List.exists_mem_of_ne_nil _ hne
      have hcheck : et.getD (etIdx.getD (pre.length + group.length - 1) 0) 0 ≤ key next := by
        have hmem : etIdx.getD (pre.length + group.length - 1) 0 ∈ group := by
          rw [hidx, List.append_assoc, List.getD_append_right _ _ _ _ (by omega),
            List.getD_append _ _ _ _ (by omega), List.getD_eq_getElem _ _ (by omega)]
          exact List.getElem_mem _
        have hmemidx : ∀ k ∈ group, k ∈ etIdx := fun k hk => by
          rw [hidx]
          exact List.mem_append_left _ (List.mem_append_right _ hk)
        rw [hkey _ (hmemidx _ hmem)]
        exact hle _ hmem next List.mem_cons_self
      rw [List.length_cons, etypeLoop, if_neg (by rw [hlast, hnext, hkeynext]; simpa using fun _ => hcheck)]
      by_cases hsame : cur = key next
      · obtain ⟨out, hout, htype, hright⟩ := ih pre (group ++ [next]) cur
          (by rw [hidx]; simp) (by simp)
          (fun k hk => (List.mem_append.1 hk).elim (hcur k) fun hk => by
            rw [List.mem_singleton.1 hk, hsame]) (by simp)
        rw [List.length_append, List.length_singleton, ← Nat.add_assoc, Nat.add_sub_cancel] at hout
        rw [List.append_assoc] at htype hright
        refine ⟨out, ?_, htype, hright⟩
        rw [if_neg (by rw [hlast, hnext, hkeynext]; simpa [hends] using hsame), hlast]
        exact hout
      · obtain ⟨here, hhere, htypehere, hrighthere⟩ := hpick cur pre group (next :: rest) hidx hne hcur
        obtain ⟨out, hout, htype, hright⟩ := ih (pre ++ group) [next] (key next)
          (by rw [hidx]; simp) (by simp)
          (fun k hk => by rw [List.mem_singleton.1 hk]) (by simp)
        rw [List.length_append, List.length_singleton, Nat.add_sub_cancel] at hout
        have hlater : ∀ k ∈ [next] ++ rest, cur < key k := by
          have hcurlt : cur < key next :=
            lt_of_le_of_ne (hcur k₀ hk₀ ▸ hle k₀ hk₀ next List.mem_cons_self) hsame
          rw [hidx] at hsorted
          have hnextle := (List.pairwise_cons.1 (List.pairwise_append.1 hsorted).2.1).1
          intro k hk
          rcases List.mem_cons.1 hk with rfl | hk
          · exact hcurlt
          · exact hcurlt.trans_le (hnextle k hk)
        refine ⟨here ++ out, ?_, fun e he => ?_, fun t => ?_⟩
        · rw [if_pos (by rw [hlast, hnext, hkeynext]; exact .inr hsame), hhere]
          simp only [hlast, if_neg hends, hnext, hkeynext]
          rw [hout]
          rfl
        · rcases List.mem_append.1 he with he | he
          · exact ⟨k₀, List.mem_append_left _ hk₀, (htypehere e he).trans (hcur k₀ hk₀).symm⟩
          · obtain ⟨k, hk, heq⟩ := htype e he
            exact ⟨k, List.mem_append_right _ hk, heq⟩
        · have hright := hright t
          have hsplit : next :: rest = [next] ++ rest := rfl
          rw [List.filter_append, List.filter_append, hsplit]
          by_cases ht : cur = t
          · have hnone : ([next] ++ rest).filter (fun k => key k = t) = [] :=
              List.filter_eq_nil_iff.2 fun k hk => by
                simpa [← ht] using (hlater k hk).ne'
            have hnoneout : out.filter (fun e => typeOf e = t) = [] :=
              List.filter_eq_nil_iff.2 fun e he => by
                obtain ⟨k, hk, heq⟩ := htype e he
                simpa [← ht, heq] using (hlater k hk).ne'
            rw [hnone, hnoneout, List.append_nil, List.append_nil,
              List.filter_eq_self.2 fun k hk => decide_eq_true ((hcur k hk).trans ht),
              List.filter_eq_self.2 fun e he => decide_eq_true ((htypehere e he).trans ht), ← ht]
            exact hrighthere
          · have hnone : group.filter (fun k => key k = t) = [] :=
              List.filter_eq_nil_iff.2 fun k hk => by simpa [hcur k hk] using ht
            have hnonehere : here.filter (fun e => typeOf e = t) = [] :=
              List.filter_eq_nil_iff.2 fun e he => by simpa [htypehere e he] using ht
            rw [hnone, hnonehere]
            exact hright

namespace EtypePick

variable {c : EtypePick} {rid : ℕ}

/-! ## Picking for one type -/

variable {candidates candidates' picked : List Entry} {replace : Bool} {numPick : ℤ}

lemma PicksRight.perm (h : PicksRight numPick replace candidates picked)
    (hperm : candidates.Perm candidates') : PicksRight numPick replace candidates' picked where
  all hall := (h.all hall).trans hperm
  once hnum hreplace := by
    obtain ⟨hnodup, hmem, hlen⟩ := h.once hnum hreplace
    exact ⟨hnodup, fun e he => hperm.mem_iff.1 (hmem e he), hperm.length_eq ▸ hlen⟩
  again hnum hreplace := by
    obtain ⟨hmem, hlen⟩ := h.again hnum hreplace
    refine ⟨fun e he => hperm.mem_iff.1 (hmem e he), hlen.trans ?_⟩
    by_cases hnil : candidates = []
    · rw [if_pos hnil, if_pos (List.nil_perm.1 (hnil ▸ hperm))]
    · have hnil' : candidates' ≠ [] := by
        rintro rfl
        exact hnil (List.perm_nil.1 hperm)
      rw [if_neg hnil, if_neg hnil']

lemma PicksRight.subset (h : PicksRight numPick replace candidates picked) :
    ∀ e ∈ picked, e ∈ candidates := by
  by_cases hall : numPick = -1
  · exact fun e he => (h.all hall).mem_iff.1 he
  · cases replace with
    | true => exact (h.again hall rfl).1
    | false => exact (h.once hall rfl).2.1

lemma picksRight_nil (numPick : ℤ) (replace : Bool) : PicksRight numPick replace [] [] where
  all _ := .refl _
  once _ _ := ⟨List.nodup_nil, nofun, (Nat.min_zero _).symm⟩
  again _ _ := ⟨nofun, rfl⟩

/-- Taking all candidates is right when all are wanted, or no more are there than wanted. -/
lemma picksRight_self (hnodup : (candidates.map fun e => e.2.2).Nodup)
    (hfew : numPick = -1 ∨ ((candidates.length : ℤ) ≤ numPick ∧ replace = false)) :
    PicksRight numPick replace candidates candidates where
  all _ := .refl _
  once hnum _ := by
    have hle := (hfew.resolve_left hnum).1
    exact ⟨hnodup, fun _ he => he, (Nat.min_eq_right (by omega)).symm⟩
  again hnum hreplace := by
    rw [(hfew.resolve_left hnum).2] at hreplace
    cases hreplace

/-- The places that are chosen are those of the picked edges. -/
lemma picksRight_of_validPick {edges : List Entry} {likely : Entry → Bool}
    {picked : List (Option ℕ)} (hnum : numPick ≠ -1)
    (h : ValidPick (edges.map likely) numPick.toNat replace picked)
    (hnodup : (edges.map fun e => e.2.2).Nodup) : PicksRight numPick replace (edges.filter likely)
      (picked.reduceOption.map fun k => edges.getD k (0, 0, 0)) := by
  have hlt : ∀ k ∈ picked.reduceOption, k < edges.length := fun k hk => by
    have hklt := h.place_lt hk
    rwa [List.length_map] at hklt
  have hmem : ∀ e ∈ picked.reduceOption.map fun k => edges.getD k (0, 0, 0),
      e ∈ edges.filter likely := by
    intro e he
    obtain ⟨k, hk, rfl⟩ := List.mem_map.1 he
    have hplace := h.places k hk
    have hklt := hlt k hk
    rw [List.getD_eq_getElem _ _ (by rwa [List.length_map]), List.getElem_map] at hplace
    rw [List.getD_eq_getElem _ _ hklt]
    exact List.mem_filter.2 ⟨List.getElem_mem hklt, hplace⟩
  have hcount : (edges.map likely).count true = (edges.filter likely).length := by
    rw [List.count_eq_countP, List.countP_map, List.countP_eq_length_filter]
    congr 1
    exact List.filter_congr fun e _ => by simp
  refine ⟨fun hall => absurd hall hnum, fun _ hreplace => ?_, fun _ hreplace => ?_⟩
  · obtain ⟨honce, hlen⟩ := h.once hreplace
    refine ⟨?_, hmem, by rw [List.length_map, hlen, hcount]⟩
    rw [List.map_map]
    refine honce.map_on fun k hk k' hin' heq => ?_
    have heq : (edges.getD k (0, 0, 0)).2.2 = (edges.getD k' (0, 0, 0)).2.2 := heq
    rw [List.getD_eq_getElem _ _ (hlt k hk), List.getD_eq_getElem _ _ (hlt k' hin')] at heq
    have hk' : k < (edges.map fun e => e.2.2).length := by
      rw [List.length_map]
      exact hlt k hk
    have hk'' : k' < (edges.map fun e => e.2.2).length := by
      rw [List.length_map]
      exact hlt k' hin'
    have hids : (edges.map fun e => e.2.2)[k] = (edges.map fun e => e.2.2)[k'] := by
      rw [List.getElem_map, List.getElem_map]
      exact heq
    exact hnodup.getElem_inj_iff.1 hids
  · refine ⟨hmem, ?_⟩
    rw [List.length_map, h.again hreplace, hcount]
    simp only [List.length_eq_zero_iff]

/-- The edges at some places of a row. -/
def edgesAt (c : EtypePick) (rid : ℕ) (group : List ℕ) : List Entry :=
  group.map fun k => c.csr.entry rid (c.csr.ptr rid + k)

/-- A pick function chooses among the edges of a type with a positive probability, when not all of
them are wanted. -/
def PicksValid (c : EtypePick) (pick : EtypeRangePickFn) : Prop :=
  ∀ seed off etOffset t etLen etIdx etEid, 0 < etLen → etLen ≤ c.csr.nnz →
    t < c.numPicks.length → 0 ≤ c.numPicks.getD t 0 →
    (c.replace = false → c.numPicks.getD t 0 < etLen) →
      ∃ picked, pick seed off etOffset t etLen etIdx etEid = .ok picked ∧
        ValidPick ((List.range etLen).map fun j =>
            decide (c.probOrMask = [] ∨ c.probOrMask.getD t [] = [] ∨
              0 < (c.probOrMask.getD t []).getD (etEid.getD (etIdx.getD (etOffset + j) 0) 0) 0))
          (c.numPicks.getD t 0).toNat c.replace picked

lemma getD_map_places {k : ℕ} (f : ℕ → ℕ) (hk : k < c.csr.ptr (rid + 1) - c.csr.ptr rid) :
    ((c.csr.places rid).map f).getD k 0 = f (c.csr.ptr rid + k) := by
  have hlen : k < ((c.csr.places rid).map f).length := by
    rwa [List.length_map, CSRMatrix.places, List.length_range']
  rw [List.getD_eq_getElem _ _ hlen, List.getElem_map]
  simp [CSRMatrix.places]

lemma WellFormed.place_lt (h : c.WellFormed) (hrid : rid < c.csr.numRows) {k : ℕ}
    (hk : k < c.csr.ptr (rid + 1) - c.csr.ptr rid) : c.csr.ptr rid + k < c.csr.nnz :=
  h.csr.place_lt hrid (List.mem_range'_1.2 ⟨Nat.le_add_right _ _, by omega⟩)

lemma WellFormed.nodup_edgesAt (h : c.WellFormed) (hrid : rid < c.csr.numRows) {group : List ℕ}
    (hnodup : group.Nodup) (hlt : ∀ k ∈ group, k < c.csr.ptr (rid + 1) - c.csr.ptr rid) :
    ((c.edgesAt rid group).map fun e => e.2.2).Nodup := by
  rw [edgesAt, List.map_map]
  refine hnodup.map_on fun k hk k' hk' heq => ?_
  have hplace := h.eidAt_inj (h.place_lt hrid (hlt k hk)) (h.place_lt hrid (hlt k' hk')) heq
  omega

section Group

variable {etIdx pre group rest : List ℕ}

lemma getD_group (hidx : etIdx = pre ++ group ++ rest) {k : ℕ} (hk : k < group.length) :
    etIdx.getD (pre.length + k) 0 = group.getD k 0 := by
  rw [hidx, List.append_assoc, List.getD_append_right _ _ _ _ (Nat.le_add_right _ _),
    Nat.add_sub_cancel_left, List.getD_append _ _ _ _ hk]

lemma length_edgesAt (c : EtypePick) (rid : ℕ) (group : List ℕ) :
    (c.edgesAt rid group).length = group.length := List.length_map _

variable {pick : EtypeRangePickFn} {seed cur : ℕ}

/-- All edges of the type with a positive probability. -/
lemma selectAll_group (hidx : etIdx = pre ++ group ++ rest)
    (htype : ∀ e ∈ c.edgesAt rid group, c.heterogenizedEtype e.2.2 = cur) :
    c.selectAll rid ((List.range group.length).map
        fun k => c.csr.ptr rid + etIdx.getD (pre.length + k) 0) =
      (c.edgesAt rid group).filter fun e => c.Likely cur e.2.2 := by
  have hplaces : (List.range group.length).map
      (fun k => c.csr.ptr rid + etIdx.getD (pre.length + k) 0) = group.map (c.csr.ptr rid + ·) := by
    apply List.ext_getElem
    · rw [List.length_map, List.length_map, List.length_range]
    · intro k hk hk'
      rw [List.length_map, List.length_range] at hk
      rw [List.getElem_map, List.getElem_map, List.getElem_range, getD_group hidx hk,
        List.getD_eq_getElem _ _ hk]
  rw [hplaces, selectAll_eq, List.map_map]
  refine List.filter_congr fun e he => ?_
  rw [Bool.eq_iff_iff, selects_iff, decide_eq_true_iff, htype e he]

/-- What is asked for each edge of the group. -/
lemma likely_group (hidx : etIdx = pre ++ group ++ rest)
    (hlt : ∀ k ∈ group, k < c.csr.ptr (rid + 1) - c.csr.ptr rid)
    (hcur : ∀ k ∈ group, c.heterogenizedEtype (c.eidAt (c.csr.ptr rid + k)) = cur) :
    ((List.range group.length).map fun j =>
        decide (c.probOrMask = [] ∨ c.probOrMask.getD cur [] = [] ∨ 0 < (c.probOrMask.getD cur []).getD
          ((c.etEid rid).getD (etIdx.getD (pre.length + j) 0) 0) 0)) =
      (c.edgesAt rid group).map fun e => decide (c.Likely cur e.2.2) := by
  apply List.ext_getElem
  · rw [List.length_map, List.length_map, length_edgesAt, List.length_range]
  · intro k hk hk'
    rw [List.length_map, List.length_range] at hk
    have hmem := List.getElem_mem hk
    have hheid : (c.etEid rid).getD group[k] 0 =
        c.eidAt (c.csr.ptr rid + group[k]) - c.eid2etypeOffset.getD cur 0 := by
      rw [etEid, getD_map_places _ (hlt _ hmem), heterogenizedEid, hcur _ hmem]
    simp only [List.getElem_map, List.getElem_range, edgesAt]
    rw [getD_group hidx hk, List.getD_eq_getElem _ _ hk, hheid]
    rfl

/-- The edges at the places that are picked within the group. -/
lemma map_picked_group (hidx : etIdx = pre ++ group ++ rest) {picked : List ℕ}
    (hpicked : ∀ k ∈ picked, k < group.length) :
    (picked.map fun k => c.csr.entry rid (c.csr.ptr rid + etIdx.getD (pre.length + k) 0)) =
      picked.map fun k => (c.edgesAt rid group).getD k (0, 0, 0) := by
  refine List.map_congr_left fun k hk => ?_
  have hklt := hpicked k hk
  rw [getD_group hidx hklt, List.getD_eq_getElem _ _ hklt,
    List.getD_eq_getElem _ _ (by rwa [length_edgesAt])]
  simp [edgesAt]

/-- The edges of one type, which are a part of the sorted row, are picked as they should be. -/
theorem WellFormed.pickEtype_spec (h : c.WellFormed) (hpick : c.PicksValid pick)
    (hrid : rid < c.csr.numRows) (hidx : etIdx = pre ++ group ++ rest) (hne : group ≠ [])
    (hnodup : group.Nodup) (hlt : ∀ k ∈ group, k < c.csr.ptr (rid + 1) - c.csr.ptr rid)
    (hcur : ∀ k ∈ group, c.heterogenizedEtype (c.eidAt (c.csr.ptr rid + k)) = cur) :
    ∃ out, c.pickEtype pick seed rid etIdx (c.etEid rid) cur pre.length group.length = .ok out ∧
      (∀ e ∈ out, c.heterogenizedEtype e.2.2 = cur) ∧
      PicksRight (c.numPicks.getD cur 0) c.replace
        ((c.edgesAt rid group).filter fun e => c.Likely cur e.2.2) out := by
  have hids := h.nodup_edgesAt hrid hnodup hlt
  have htype : ∀ e ∈ c.edgesAt rid group, c.heterogenizedEtype e.2.2 = cur := by
    intro e he
    obtain ⟨k, hk, rfl⟩ := List.mem_map.1 he
    exact hcur k hk
  rw [pickEtype]
  by_cases hall : c.numPicks.getD cur 0 = -1 ∨
      ((group.length : ℤ) ≤ c.numPicks.getD cur 0 ∧ c.replace = false)
  · refine ⟨_, by rw [if_pos hall, selectAll_group hidx htype],
      fun e he => htype e (List.mem_of_mem_filter he), ?_⟩
    refine picksRight_self (hids.sublist (List.filter_sublist.map _)) (hall.imp id fun hfew => ?_)
    have hle := List.length_filter_le (fun e => decide (c.Likely cur e.2.2)) (c.edgesAt rid group)
    rw [length_edgesAt] at hle
    exact ⟨le_trans (by exact_mod_cast hle) hfew.1, hfew.2⟩
  · have hfound : cur < c.numPicks.length := by
      obtain ⟨k, hk⟩ := List.exists_mem_of_ne_nil _ hne
      rw [← hcur k hk]
      exact h.lt_of_ofType
        (h.ofType_heterogenizedEtype (h.eidAt_lt (h.place_lt hrid (hlt k hk))))
    have hnum : -1 ≤ c.numPicks.getD cur 0 := by
      rw [List.getD_eq_getElem _ _ hfound]
      exact h.picks _ (List.getElem_mem hfound)
    have hnot : ¬c.numPicks.getD cur 0 = -1 := fun hneg => hall (.inl hneg)
    have hmany : c.replace = false → c.numPicks.getD cur 0 < group.length := fun hreplace =>
      Int.not_le.1 fun hle => hall (.inr ⟨hle, hreplace⟩)
    have hsmall : group.length ≤ c.csr.nnz := by
      have hle := (hnodup.subperm fun k hk => List.mem_range.2 (hlt k hk)).length_le
      have hlast := h.csr.ptr_le (r := rid + 1) hrid le_rfl
      rw [h.csr.ptr_last] at hlast
      rw [List.length_range] at hle
      omega
    obtain ⟨picked, hpicked, hvalid⟩ := hpick seed (c.csr.ptr rid) pre.length cur group.length etIdx
      (c.etEid rid) (List.length_pos_iff.2 hne) hsmall hfound (by omega) hmany
    rw [likely_group hidx hlt hcur] at hvalid
    have hplaces : ∀ k ∈ picked.reduceOption, k < group.length := by
      intro k hk
      have hklt := hvalid.place_lt hk
      rwa [List.length_map, length_edgesAt] at hklt
    have hright := picksRight_of_validPick hnot hvalid hids
    rw [← map_picked_group hidx hplaces] at hright
    rw [if_neg hall, if_neg (by omega), hpicked]
    exact ⟨_, rfl, fun e he => htype e (List.mem_of_mem_filter (hright.subset e he)), hright⟩

end Group

/-! ## Picking for a seed -/

lemma edgesAt_filter (c : EtypePick) (rid t : ℕ) (l : List ℕ) :
    c.edgesAt rid (l.filter fun k => c.heterogenizedEtype (c.eidAt (c.csr.ptr rid + k)) = t) =
      (c.edgesAt rid l).filter fun e => c.heterogenizedEtype e.2.2 = t := by
  rw [edgesAt, edgesAt, List.filter_map]
  rfl

lemma edgesAt_range (c : EtypePick) (rid : ℕ) :
    c.edgesAt rid (List.range (c.csr.ptr (rid + 1) - c.csr.ptr rid)) = c.csr.rowEntries rid := by
  rw [CSRMatrix.rowEntries, CSRMatrix.places, List.range'_eq_map_range, List.map_map]
  rfl

lemma WellFormed.eid_lt (h : c.WellFormed) (hrid : rid < c.csr.numRows) {e : Entry}
    (he : e ∈ c.csr.rowEntries rid) : e.2.2 < c.csr.nnz := by
  obtain ⟨p, hp, rfl⟩ := List.mem_map.1 he
  exact h.eidAt_lt (h.csr.place_lt hrid hp)

/-- The candidates for a type, found through the types of the edges. -/
lemma WellFormed.candidates_eq (h : c.WellFormed) (hrid : rid < c.csr.numRows) (t : ℕ) :
    c.candidates rid t = ((c.csr.rowEntries rid).filter fun e => c.heterogenizedEtype e.2.2 = t).filter
      fun e => c.Likely t e.2.2 := by
  rw [candidates, List.filter_filter]
  refine List.filter_congr fun e he => ?_
  rw [Bool.eq_iff_iff, Bool.and_eq_true, decide_eq_true_iff, decide_eq_true_iff, decide_eq_true_iff,
    h.ofType_iff (h.eid_lt hrid he), and_comm]

/-- Picks that are right for each type of a rearranged row are right. -/
lemma WellFormed.rowPicked (h : c.WellFormed) (hrid : rid < c.csr.numRows) {idx : List ℕ}
    (hperm : idx.Perm (List.range (c.csr.ptr (rid + 1) - c.csr.ptr rid))) {out : List Entry}
    (htyped : ∀ e ∈ out, c.heterogenizedEtype e.2.2 < c.numPicks.length)
    (hright : ∀ t < c.numPicks.length, PicksRight (c.numPicks.getD t 0) c.replace
      ((c.edgesAt rid (idx.filter fun k =>
        c.heterogenizedEtype (c.eidAt (c.csr.ptr rid + k)) = t)).filter fun e => c.Likely t e.2.2)
      (out.filter fun e => c.heterogenizedEtype e.2.2 = t)) : c.RowPicked rid out := by
  have hright' : ∀ t < c.numPicks.length, PicksRight (c.numPicks.getD t 0) c.replace
      (c.candidates rid t) (out.filter fun e => c.heterogenizedEtype e.2.2 = t) := by
    intro t ht
    refine (hright t ht).perm ?_
    rw [edgesAt_filter, h.candidates_eq hrid, ← edgesAt_range]
    exact ((hperm.map _).filter _).filter _
  have heid : ∀ e ∈ out, e.2.2 < c.csr.nnz := by
    intro e he
    have hmem := (hright' _ (htyped e he)).subset e (List.mem_filter.2 ⟨he, decide_eq_true rfl⟩)
    exact h.eid_lt hrid (List.mem_of_mem_filter hmem)
  refine ⟨fun e he => ⟨_, htyped e he, h.ofType_heterogenizedEtype (heid e he)⟩, fun t ht => ?_⟩
  have hfilter : out.filter (fun e => c.OfType t e.2.2) =
      out.filter fun e => c.heterogenizedEtype e.2.2 = t :=
    List.filter_congr fun e he => decide_eq_decide.2 (h.ofType_iff (heid e he))
  rw [hfilter]
  exact hright' t ht

lemma WellFormed.etype_lt (h : c.WellFormed) (hrid : rid < c.csr.numRows) {k : ℕ}
    (hk : k < c.csr.ptr (rid + 1) - c.csr.ptr rid) :
    c.heterogenizedEtype (c.eidAt (c.csr.ptr rid + k)) < c.numPicks.length :=
  h.lt_of_ofType (h.ofType_heterogenizedEtype (h.eidAt_lt (h.place_lt hrid hk)))

lemma WellFormed.fastRow_spec (h : c.WellFormed) (hrid : rid < c.csr.numRows)
    (hsame : c.sameNumPick = true)
    (hfew : ((c.csr.ptr (rid + 1) - c.csr.ptr rid : ℕ) : ℤ) ≤ c.numPicks.headD 0)
    (hreplace : c.replace = false) : c.RowPicked rid (c.selectAll rid (c.csr.places rid)) := by
  have hnum : ∀ t < c.numPicks.length, c.numPicks.getD t 0 = c.numPicks.headD 0 := by
    intro t ht
    rw [List.getD_eq_getElem _ _ ht]
    exact of_decide_eq_true (List.all_eq_true.1 hsame _ (List.getElem_mem ht))
  have hout : c.selectAll rid (c.csr.places rid) =
      (c.csr.rowEntries rid).filter fun e => c.selects e.2.2 := selectAll_eq c rid _
  have hids := h.nodup_edgesAt hrid List.nodup_range fun k hk => List.mem_range.1 hk
  rw [edgesAt_range] at hids
  refine h.rowPicked hrid (.refl _) (fun e he => ?_) fun t ht => ?_
  · rw [hout] at he
    exact h.lt_of_ofType (h.ofType_heterogenizedEtype (h.eid_lt hrid (List.mem_of_mem_filter he)))
  · have hcandidates : (c.selectAll rid (c.csr.places rid)).filter
        (fun e => c.heterogenizedEtype e.2.2 = t) =
          ((c.csr.rowEntries rid).filter fun e => c.heterogenizedEtype e.2.2 = t).filter
            fun e => c.Likely t e.2.2 := by
      rw [hout, List.filter_filter, List.filter_filter]
      refine List.filter_congr fun e _ => ?_
      rw [Bool.eq_iff_iff, Bool.and_eq_true, Bool.and_eq_true, selects_iff, decide_eq_true_iff,
        decide_eq_true_iff, and_comm]
      exact and_congr_left fun heq => by rw [heq]
    rw [hcandidates, edgesAt_filter, edgesAt_range]
    refine picksRight_self ((hids.sublist (List.filter_sublist.map _)).sublist
      (List.filter_sublist.map _)) (.inr ⟨?_, hreplace⟩)
    have hlen : (((c.csr.rowEntries rid).filter fun e => c.heterogenizedEtype e.2.2 = t).filter
        fun e => c.Likely t e.2.2).length ≤ c.csr.ptr (rid + 1) - c.csr.ptr rid := by
      refine (List.length_filter_le _ _).trans ((List.length_filter_le _ _).trans ?_)
      rw [CSRMatrix.rowEntries, List.length_map, CSRMatrix.places, List.length_range']
    rw [hnum t ht]
    exact le_trans (by exact_mod_cast hlen) hfew

/-- The places of a row in the order of the types of their edges. -/
lemma WellFormed.etIdx_spec (h : c.WellFormed) (sort : StdSort ℕ) (hrid : rid < c.csr.numRows)
    (hsorted : c.rowwiseEtypeSorted = true → c.RowSorted rid) :
    (c.etIdx sort rid).Perm (List.range (c.csr.ptr (rid + 1) - c.csr.ptr rid)) ∧
      (c.etIdx sort rid).Pairwise fun k k' =>
        c.heterogenizedEtype (c.eidAt (c.csr.ptr rid + k)) ≤
          c.heterogenizedEtype (c.eidAt (c.csr.ptr rid + k')) := by
  rw [etIdx]
  by_cases hflag : c.rowwiseEtypeSorted = true
  · rw [if_pos hflag]
    have hrow := hsorted hflag
    rw [RowSorted, ← edgesAt_range, edgesAt, List.pairwise_map] at hrow
    refine ⟨.refl _, hrow.imp_of_mem fun hk hk' hle => hle _ _ ?_ ?_⟩
    · exact h.ofType_heterogenizedEtype (h.eidAt_lt (h.place_lt hrid (List.mem_range.1 hk)))
    · exact h.ofType_heterogenizedEtype (h.eidAt_lt (h.place_lt hrid (List.mem_range.1 hk')))
  · rw [if_neg hflag]
    have hperm := sort.perm (fun i j => (c.et rid).getD i 0 < (c.et rid).getD j 0)
      (List.range (c.csr.ptr (rid + 1) - c.csr.ptr rid))
    refine ⟨hperm, (sort.sorted _ _ (fun i j hij => ?_) fun i j k hij hjk => ?_).imp_of_mem
      fun {k k'} hk hk' hle => ?_⟩
    · have hij := of_decide_eq_true hij
      exact decide_eq_false (by omega)
    · have hij := of_decide_eq_false hij
      have hjk := of_decide_eq_false hjk
      exact decide_eq_false (by omega)
    · have hle := of_decide_eq_false hle
      rw [et, getD_map_places _ (List.mem_range.1 (hperm.mem_iff.1 hk)),
        getD_map_places _ (List.mem_range.1 (hperm.mem_iff.1 hk'))] at hle
      exact Nat.le_of_not_lt hle

variable {pick : EtypeRangePickFn}

lemma WellFormed.slowRow_spec (h : c.WellFormed) (hpick : c.PicksValid pick) (sort : StdSort ℕ)
    (seed : ℕ) (hrid : rid < c.csr.numRows)
    (hsorted : c.rowwiseEtypeSorted = true → c.RowSorted rid)
    (hlen : c.csr.ptr (rid + 1) - c.csr.ptr rid ≠ 0) :
    ∃ out, c.slowRow pick sort seed rid = .ok out ∧ c.RowPicked rid out := by
  obtain ⟨hperm, hidx⟩ := h.etIdx_spec sort hrid hsorted
  have hlength := hperm.length_eq
  rw [List.length_range] at hlength
  have hmem : ∀ k ∈ c.etIdx sort rid, k < c.csr.ptr (rid + 1) - c.csr.ptr rid := fun k hk =>
    List.mem_range.1 (hperm.mem_iff.1 hk)
  have hkey : ∀ k ∈ c.etIdx sort rid, (c.et rid).getD k 0 =
      c.heterogenizedEtype (c.eidAt (c.csr.ptr rid + k)) := fun k hk => getD_map_places _ (hmem k hk)
  have hlast : ¬c.numPicks.length ≤ (c.et rid).getD ((c.etIdx sort rid).getD
      (c.csr.ptr (rid + 1) - c.csr.ptr rid - 1) 0) 0 := by
    have hin : (c.etIdx sort rid).getD (c.csr.ptr (rid + 1) - c.csr.ptr rid - 1) 0 ∈
        c.etIdx sort rid := by
      rw [List.getD_eq_getElem _ _ (by omega)]
      exact List.getElem_mem _
    rw [hkey _ hin, Nat.not_le]
    exact h.etype_lt hrid (hmem _ hin)
  obtain ⟨first, rest, hcons⟩ := List.exists_cons_of_length_pos (l := c.etIdx sort rid) (by omega)
  have hnodup := hperm.nodup_iff.2 List.nodup_range
  have hgroups : ∀ cur pre group rest, c.etIdx sort rid = pre ++ group ++ rest → group ≠ [] →
      (∀ k ∈ group, c.heterogenizedEtype (c.eidAt (c.csr.ptr rid + k)) = cur) →
        ∃ out, c.pickEtype pick seed rid (c.etIdx sort rid) (c.etEid rid) cur pre.length
            group.length = .ok out ∧ (∀ e ∈ out, c.heterogenizedEtype e.2.2 = cur) ∧
          PicksRight (c.numPicks.getD cur 0) c.replace
            ((c.edgesAt rid group).filter fun e => c.Likely cur e.2.2) out := by
    intro cur pre group rest hsplit hne hcur
    have hsub : ∀ k ∈ group, k ∈ c.etIdx sort rid := fun k hk => by
      rw [hsplit]
      exact List.mem_append_left _ (List.mem_append_right _ hk)
    have hgroup : group.Nodup := by
      rw [hsplit] at hnodup
      exact (List.nodup_append.1 (List.nodup_append.1 hnodup).1).2.1
    exact h.pickEtype_spec hpick hrid hsplit hne hgroup (fun k hk => hmem k (hsub k hk)) hcur
  obtain ⟨out, hout, htyped, hright⟩ := etypeLoop_spec hlength hkey hidx (fun t => picksRight_nil _ _)
    hgroups [] [first] rest (c.heterogenizedEtype (c.eidAt (c.csr.ptr rid + first)))
    (by rw [hcons]; rfl) (List.cons_ne_nil _ _) (fun k hk => by rw [List.mem_singleton.1 hk])
  have hall : [first] ++ rest = c.etIdx sort rid := hcons.symm
  rw [hall] at htyped hright
  refine ⟨out, ?_, h.rowPicked hrid hperm (fun e he => ?_) fun t _ => hright t⟩
  · have hfirst : (c.etIdx sort rid).getD 0 0 = first := by
      rw [hcons]
      rfl
    have hlenrest : rest.length + 1 = c.csr.ptr (rid + 1) - c.csr.ptr rid := by
      rw [← hlength, hcons, List.length_cons]
    have hstart : (c.et rid).getD ((c.etIdx sort rid).getD 0 0) 0 =
        c.heterogenizedEtype (c.eidAt (c.csr.ptr rid + first)) := by
      rw [hfirst, hkey first (by rw [hcons]; exact List.mem_cons_self)]
    rw [slowRow, if_neg hlast, hstart, ← hlenrest]
    rw [← hlenrest] at hout
    exact hout
  · obtain ⟨k, hk, heq⟩ := htyped e he
    rw [heq]
    exact h.etype_lt hrid (hmem k hk)

/-- What is picked for a seed is right, on either path. -/
theorem WellFormed.pickRow_spec (h : c.WellFormed) (hpick : c.PicksValid pick) (sort : StdSort ℕ)
    (seed : ℕ) (hrid : rid < c.csr.numRows)
    (hsorted : c.rowwiseEtypeSorted = true → c.RowSorted rid) :
    ∃ out, c.pickRow pick sort seed rid = .ok out ∧ c.RowPicked rid out := by
  rw [pickRow, if_neg (Nat.not_le.2 hrid)]
  by_cases hlen : c.csr.ptr (rid + 1) - c.csr.ptr rid = 0
  · refine ⟨[], if_pos hlen, nofun, fun t _ => ?_⟩
    have hnone : c.candidates rid t = [] := by
      rw [candidates, CSRMatrix.rowEntries, CSRMatrix.places, hlen]
      rfl
    rw [hnone]
    exact picksRight_nil _ _
  · rw [if_neg hlen]
    by_cases hfast : c.sameNumPick ∧
        ((c.csr.ptr (rid + 1) - c.csr.ptr rid : ℕ) : ℤ) ≤ c.numPicks.headD 0 ∧ c.replace = false
    · exact ⟨_, if_pos hfast, h.fastRow_spec hrid hfast.1 hfast.2.1 hfast.2.2⟩
    · rw [if_neg hfast]
      exact h.slowRow_spec hpick sort seed hrid hsorted hlen

/-- The picks of all seeds. -/
theorem WellFormed.csrRowWisePerEtypePick_spec (h : c.WellFormed) (hpick : c.PicksValid pick)
    (sort : StdSort ℕ) {numThreads : ℕ} (hthreads : 0 < numThreads) {rows : List ℕ}
    (hne : rows ≠ []) (hrows : ∀ rid ∈ rows, rid < c.csr.numRows)
    (hsorted : c.rowwiseEtypeSorted = true → ∀ rid ∈ rows, c.RowSorted rid) :
    ∃ picked, c.csrRowWisePerEtypePick numThreads pick sort rows = .ok picked ∧
      c.PicksAll rows picked := by
  have hseed : ∀ i < rows.length, ∃ out,
      c.pickRow pick sort i (rows.getD i 0) = .ok out ∧ c.RowPicked (rows.getD i 0) out := by
    intro i hi
    have hmem : rows.getD i 0 ∈ rows := by
      rw [List.getD_eq_getElem _ _ hi]
      exact List.getElem_mem hi
    exact h.pickRow_spec hpick sort i (hrows _ hmem) fun hflag => hsorted hflag _ hmem
  obtain ⟨picks, hpicks, hlen, hright⟩ := exists_mapM_range [] hseed
  rw [csrRowWisePerEtypePick, if_neg h.nonempty, parallelFor_eq hthreads, hpicks]
  exact ⟨_, if_neg hne, rfl, rfl, picks, hlen, COOMatrix.entries_ofEntries .., hright⟩

/-! ## The pick functions -/

lemma WellFormed.samplingRangePickFn_valid (h : c.WellFormed) {engine : Engine}
    (huniform : ∀ seed t k, 0 < engine.uniform seed t k ∧ engine.uniform seed t k ≤ 1) :
    c.PicksValid (c.samplingRangePickFn engine) := by
  intro seed off etOffset t etLen etIdx etEid _ _ _ hnum hmany
  have hnonneg : ∀ x ∈ (List.range etLen).map (fun j =>
      if c.probOrMask.getD t [] = [] then 1
      else (c.probOrMask.getD t []).getD (etEid.getD (etIdx.getD (etOffset + j) 0) 0) 0), 0 ≤ x := by
    intro x hx
    obtain ⟨j, -, rfl⟩ := List.mem_map.1 hx
    by_cases hnull : c.probOrMask.getD t [] = []
    · rw [if_pos hnull]
      exact zero_le_one
    · rw [if_neg hnull]
      have ht : t < c.probOrMask.length := by
        by_contra hge
        exact hnull (List.getD_eq_default _ _ (Nat.not_lt.1 hge))
      have hmem : c.probOrMask.getD t [] ∈ c.probOrMask := by
        rw [List.getD_eq_getElem _ _ ht]
        exact List.getElem_mem ht
      by_cases hin : etEid.getD (etIdx.getD (etOffset + j) 0) 0 < (c.probOrMask.getD t []).length
      · rw [List.getD_eq_getElem _ _ hin]
        exact h.prob_nonneg _ hmem _ (List.getElem_mem hin)
      · rw [List.getD_eq_default _ _ (Nat.not_lt.1 hin)]
  have hdraws : ∀ u ∈ (List.range (c.numPicks.getD t 0).toNat).map (engine.uniform seed t),
      0 < u ∧ u ≤ 1 := by
    intro u hu
    obtain ⟨k, -, rfl⟩ := List.mem_map.1 hu
    exact huniform seed t k
  have hfew : c.replace = false →
      ((List.range (c.numPicks.getD t 0).toNat).map (engine.uniform seed t)).length ≤
        ((List.range etLen).map fun j => if c.probOrMask.getD t [] = [] then 1
          else (c.probOrMask.getD t []).getD (etEid.getD (etIdx.getD (etOffset + j) 0) 0) 0).length := by
    intro hreplace
    have hlt := hmany hreplace
    rw [List.length_map, List.length_map, List.length_range, List.length_range]
    omega
  obtain ⟨picked, hpicked, -, hvalid⟩ := choice_valid hdraws hnonneg hfew
  refine ⟨picked, hpicked, ?_⟩
  rw [List.length_map, List.length_range, List.map_map] at hvalid
  have hallowed : (List.range etLen).map ((fun x : ℚ => decide (0 < x)) ∘ fun j =>
      if c.probOrMask.getD t [] = [] then 1
      else (c.probOrMask.getD t []).getD (etEid.getD (etIdx.getD (etOffset + j) 0) 0) 0) =
        (List.range etLen).map fun j =>
          decide (c.probOrMask = [] ∨ c.probOrMask.getD t [] = [] ∨
            0 < (c.probOrMask.getD t []).getD (etEid.getD (etIdx.getD (etOffset + j) 0) 0) 0) := by
    refine List.map_congr_left fun j _ => decide_eq_decide.2 ?_
    have hempty : c.probOrMask = [] → c.probOrMask.getD t [] = [] := fun hnil => by
      rw [hnil]
      rfl
    show 0 < (if _ then (1 : ℚ) else _) ↔ _
    by_cases hnull : c.probOrMask.getD t [] = []
    · rw [if_pos hnull]
      exact iff_of_true one_pos (.inr (.inl hnull))
    · rw [if_neg hnull]
      exact ⟨fun hpos => .inr (.inr hpos),
        fun hor => (hor.resolve_left fun hnil => hnull (hempty hnil)).resolve_left hnull⟩
  rwa [hallowed] at hvalid

lemma samplingUniformRangePickFn_valid {engine : Engine} (hprob : c.probOrMask = [])
    (hints : ∀ seed t population, 0 < population → population ≤ c.csr.nnz →
      Plenty (engine.ints seed t) (c.numPicks.getD t 0).toNat population) :
    c.PicksValid (c.samplingUniformRangePickFn engine) := by
  intro seed off etOffset t etLen etIdx etEid hpos hle _ hnum hmany
  have hfew : c.replace = false → (c.numPicks.getD t 0).toNat ≤ etLen := by
    intro hreplace
    have hlt := hmany hreplace
    omega
  obtain ⟨picked, hpicked, -, hvalid⟩ :=
    uniformChoice_valid engine.setOrder hpos hfew (hints seed t etLen hpos hle)
  refine ⟨picked.map some, by rw [samplingUniformRangePickFn, hpicked]; rfl, ?_⟩
  have hallowed : (List.range etLen).map (fun j =>
      decide (c.probOrMask = [] ∨ c.probOrMask.getD t [] = [] ∨
        0 < (c.probOrMask.getD t []).getD (etEid.getD (etIdx.getD (etOffset + j) 0) 0) 0)) =
          List.replicate etLen true := by
    rw [List.eq_replicate_iff]
    refine ⟨by rw [List.length_map, List.length_range], fun b hb => ?_⟩
    obtain ⟨j, -, rfl⟩ := List.mem_map.1 hb
    exact decide_eq_true (.inl hprob)
  rwa [hallowed]

lemma candidates_of_null (hnull : ∀ p ∈ c.probOrMask, p = []) (rid t : ℕ) :
    { c with probOrMask := [] }.candidates rid t = c.candidates rid t := by
  refine List.filter_congr fun e _ => decide_eq_decide.2 (and_congr_right fun _ => ?_)
  refine iff_of_true (.inl rfl) (.inr (.inl ?_))
  by_cases ht : t < c.probOrMask.length
  · rw [List.getD_eq_getElem _ _ ht]
    exact hnull _ (List.getElem_mem ht)
  · exact List.getD_eq_default _ _ (Nat.not_lt.1 ht)

lemma WellFormed.withoutProb (h : c.WellFormed) : { c with probOrMask := [] }.WellFormed where
  csr := h.csr
  nonempty := h.nonempty
  offset_length := h.offset_length
  offset_zero := h.offset_zero
  offset_sorted := h.offset_sorted
  offset_last := h.offset_last
  picks := h.picks
  prob_length := .inl rfl
  prob_sizes := nofun
  prob_nonneg := nofun

/-- A row with an edge of each of two types, the later type first, that is said to be sorted. -/
def laterTypeFirst : EtypePick where
  csr := ⟨64, 1, 2, [0, 2], [0, 1], [1, 0], false⟩
  eid2etypeOffset := [0, 1, 2]
  numPicks := [1, 1]
  replace := false
  rowwiseEtypeSorted := true
  probOrMask := [[], []]

/-- A row with an edge of one type and three edges of another one, of which the first cannot be
picked. -/
def unlikelyEdge : EtypePick where
  csr := ⟨64, 1, 4, [0, 4], [3, 2, 1, 0], [1, 2, 0, 3], false⟩
  eid2etypeOffset := [0, 1, 4]
  numPicks := [1, 1]
  replace := false
  rowwiseEtypeSorted := false
  probOrMask := [[], [0, 1, 1]]

end EtypePick

end DglAscend.Aten
