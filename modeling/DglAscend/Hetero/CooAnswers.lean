import DglAscend.Hetero.QueryAnswers

/-!
# What a `COO` object answers

A `COO` object answers every query.  Only its slices by an id array are not what the queries ask
for: an edge is listed once however often its vertex is in the array, and the vertex is read from
the array at the number that `IdHashMap` gives it.
-/

namespace DglAscend.Hetero

open Aten

variable {E : Multiset Entry} {a b : ℕ} {m : COOMatrix} (n : ℕ) (host : Host)

/-! ## Slices by an id array -/

/-- `IndexSelect(vids, row)` at the number of a vertex. -/
def relabel (us : List ℕ) (u : ℕ) : ℕ := us.getD ((IdHashMap.ofIds us).ids.idxOf u) 0

/-- The edges that `COOSliceRows` finds. -/
def sliced (E : Multiset Entry) (us : List ℕ) : Multiset Entry :=
  (E.filter fun e => e.1 ∈ us).map fun e => (relabel us e.1, e.2)

/-- The vertex is in the array once, and no other is repeated before it. -/
def UniqueIn (us : List ℕ) (u : ℕ) : Prop := us.count u = 1 ∧ (us.takeWhile (· ≠ u)).Nodup

variable {us vs : List ℕ}

lemma nodup_of_length_ofIds (h : us.length ≤ (IdHashMap.ofIds us).ids.length) : us.Nodup := by
  have hsub := List.subperm_of_subset (IdHashMap.nodup_ofIds us)
    fun _ hx => IdHashMap.mem_ofIds.1 hx
  exact (hsub.perm_of_length_le h).nodup_iff.1 (IdHashMap.nodup_ofIds us)

variable {u v : ℕ}

/-- A vertex keeps its name if nothing before it is repeated. -/
lemma relabel_eq_self_iff (hu : u ∈ us) : relabel us u = u ↔ (us.takeWhile (· ≠ u)).Nodup := by
  obtain ⟨pre, post, hus, hpre⟩ := List.eq_append_cons_of_mem hu
  have htake : us.takeWhile (· ≠ u) = pre := by
    rw [hus, List.takeWhile_append_of_pos fun x hx => by
      simpa using fun hxu : x = u => hpre (hxu ▸ hx)]
    simp
  have hidx : (IdHashMap.ofIds us).ids.idxOf u = (IdHashMap.ofIds pre).ids.length := by
    have hnot : u ∉ (IdHashMap.ofIds pre).ids := fun h => hpre (IdHashMap.mem_ofIds.1 h)
    have hins : (IdHashMap.ofIds (pre ++ [u])).ids = (IdHashMap.ofIds pre).ids ++ [u] := by
      rw [IdHashMap.ofIds, List.foldl_append, List.foldl_cons, List.foldl_nil]
      show (IdHashMap.insert (IdHashMap.ofIds pre) u).ids = _
      rw [IdHashMap.insert, if_neg hnot]
    obtain ⟨t, ht⟩ := IdHashMap.prefix_ofIds (pre ++ [u]) post
    rw [List.append_assoc, List.singleton_append, ← hus, hins] at ht
    rw [← ht, List.append_assoc, List.idxOf_append_of_notMem hnot, List.singleton_append,
      List.idxOf_cons_self, Nat.add_zero]
  rw [relabel, hidx, htake]
  constructor
  · intro h
    by_contra hnodup
    have hlt : (IdHashMap.ofIds pre).ids.length < pre.length := by
      by_contra hle
      exact hnodup (nodup_of_length_ofIds (Nat.le_of_not_lt hle))
    rw [hus, List.getD_append _ _ _ _ hlt, List.getD_eq_getElem _ _ hlt] at h
    exact hpre (h ▸ List.getElem_mem hlt)
  · intro hnodup
    rw [IdHashMap.ofIds_of_nodup hnodup, hus, List.getD_append_right _ _ _ _ le_rfl, Nat.sub_self]
    rfl

lemma count_sum_outOf (E : Multiset Entry) (us : List ℕ) (e : Entry) :
    (us.map (outOf E)).sum.count e = us.count e.1 * E.count e := by
  induction us with
  | nil => simp
  | cons u us ih =>
      rw [List.map_cons, List.sum_cons, Multiset.count_add, ih, outOf, Multiset.count_filter,
        List.count_cons]
      by_cases hu : e.1 = u
      · rw [if_pos hu, if_pos (by simp [hu]), Nat.add_mul, Nat.one_mul, Nat.add_comm]
      · rw [if_neg hu, if_neg (by simpa using fun h : u = e.1 => hu h.symm), Nat.add_zero, Nat.zero_add]

/-- **Slices that are right**: every vertex with an edge has to be in the array once, with no
repetition before it. -/
theorem sliced_eq_iff (hE : Numbered E) (us : List ℕ) :
    sliced E us = (us.map (outOf E)).sum ↔ ∀ e ∈ E, e.1 ∈ us → UniqueIn us e.1 := by
  have hnodup : E.Nodup := hE.nodup_ids.of_map _
  constructor
  · intro h e he hu
    have hids : (sliced E us).map (fun e => e.2.2) = (E.filter fun e => e.1 ∈ us).map fun e => e.2.2 := by
      rw [sliced, Multiset.map_map]
      rfl
    have hsum : ((us.map (outOf E)).sum).Nodup := by
      rw [← h]
      apply Multiset.Nodup.of_map (fun e : Entry => e.2.2)
      rw [hids]
      exact Multiset.nodup_of_le (Multiset.map_le_map (Multiset.filter_le _ _)) hE.nodup_ids
    have hcount := Multiset.nodup_iff_count_le_one.1 hsum e
    rw [count_sum_outOf, Multiset.count_eq_one_of_mem hnodup he, Nat.mul_one] at hcount
    have hpos := List.count_pos_iff.2 hu
    refine ⟨by omega, (relabel_eq_self_iff hu).1 ?_⟩
    have hmem : (relabel us e.1, e.2) ∈ (us.map (outOf E)).sum := by
      rw [← h]
      exact Multiset.mem_map_of_mem _ (Multiset.mem_filter.2 ⟨he, hu⟩)
    have hmemE : (relabel us e.1, e.2) ∈ E := by
      have hpos := Multiset.count_pos.2 hmem
      rw [count_sum_outOf] at hpos
      exact Multiset.count_pos.1 (Nat.pos_of_mul_pos_left hpos)
    exact congrArg Prod.fst (Multiset.inj_on_of_nodup_map hE.nodup_ids _ hmemE _ he rfl)
  · intro h
    have hmap : sliced E us = E.filter fun e => e.1 ∈ us := by
      rw [sliced]
      conv_rhs => rw [← Multiset.map_id (E.filter _)]
      apply Multiset.map_congr rfl
      intro e he
      obtain ⟨he, hu⟩ := Multiset.mem_filter.1 he
      show (relabel us e.1, e.2) = e
      rw [(relabel_eq_self_iff hu).2 (h e he hu).2]
    rw [hmap]
    ext e
    rw [count_sum_outOf, Multiset.count_filter]
    by_cases he : e ∈ E
    · by_cases hu : e.1 ∈ us
      · rw [if_pos hu, (h e he hu).1, Nat.one_mul]
      · rw [if_neg hu, List.count_eq_zero_of_not_mem hu, Nat.zero_mul]
    · rw [Multiset.count_eq_zero_of_notMem he, Nat.mul_zero, ite_self]

/-! ## Lookups -/

namespace ListsCOO

section

variable (h : ListsCOO E a b m)
include h

lemma coo_entry (k : ℕ) : m.entry k = (m.row.getD k 0, m.col.getD k 0, k) := by
  rw [COOMatrix.entry, h.of.data, idAt, if_pos rfl]

lemma mem_entry {k : ℕ} (hk : k < m.nnz) : m.entry k ∈ E := by
  rw [← h.of.entries]
  exact Multiset.mem_coe.2 (List.mem_map_of_mem (List.mem_range.2 hk))

lemma card : Multiset.card E = m.nnz := by
  rw [← h.of.entries, Multiset.coe_card, COOMatrix.entries, List.length_map, List.length_range]

lemma hasEdges (hfits : readsWithin us vs = true) (hus : ∀ u ∈ us, u < a) (hvs : ∀ v ∈ vs, v < b) :
    ∃ xs, COO.ask host n m (.hasEdgesBetween us vs) = .ok (.flags xs) ∧
      List.Forall₂ (fun p x => x = true ↔ ∃ e ∈ E, e.1 = p.1 ∧ e.2.1 = p.2) (broadcast us vs) xs := by
  refine ⟨(broadcast us vs).map fun p => m.entries.any fun e => e.1 = p.1 ∧ e.2.1 = p.2, ?_, ?_⟩
  · show (m.isNonZeros us vs).map _ = _
    rw [COOMatrix.isNonZeros, if_pos hfits, mapM_ok fun p hp => COOMatrix.isNonZero_eq
      (by rw [h.rows]; exact hus _ (mem_broadcast hp).1)
      (by rw [h.cols]; exact hvs _ (mem_broadcast hp).2)]
    rfl
  · apply forall₂_map
    intro p _
    rw [← h.of.entries, List.any_eq_true]
    simp

lemma rowEntries (hu : u < a) :
    ∃ es : List Entry, m.getRowDataAndIndices u = .ok es ∧ (∀ e ∈ es, e.1 = u) ∧
      (es : Multiset Entry) = outOf E u := by
  refine ⟨m.entries.filter fun e => e.1 = u, ?_, fun e he => by simpa using (List.mem_filter.1 he).2, ?_⟩
  · rw [COOMatrix.getRowDataAndIndices, if_neg (by rw [h.rows]; omega)]
  · rw [outOf, ← h.of.entries]
    rfl

lemma successors (hu : u < a) : ∃ xs, COO.ask host n m (.successors u) = .ok (.nodes xs) ∧
      (xs : Multiset ℕ) = (outOf E u).map fun e => e.2.1 := by
  obtain ⟨es, hes, -, heq⟩ := h.rowEntries hu
  refine ⟨es.map fun e => e.2.1, ?_, ?_⟩
  · show (if m.numRows ≤ u then _ else _) = _
    rw [if_neg (by rw [h.rows]; omega), hes]
    rfl
  · rw [← heq]
    rfl

lemma predecessors (hsquare : n = 1 → a = b) (hv : v < b) :
    ∃ xs, COO.ask host n m (.predecessors v) = .ok (.nodes xs) ∧
      (xs : Multiset ℕ) = (into E v).map Prod.fst := by
  obtain ⟨es, hes, -, heq⟩ := h.transpose.rowEntries hv
  have hdst : ¬ numDstVertices n m.numRows m.numCols ≤ v := by
    rw [numDstVertices, h.rows, h.cols]
    split
    · rename_i hn
      rw [hsquare hn]
      exact Nat.not_le.2 hv
    · exact Nat.not_le.2 hv
  refine ⟨es.map fun e => e.2.1, ?_, ?_⟩
  · show (if numDstVertices n m.numRows m.numCols ≤ v then _ else _) = _
    rw [if_neg hdst, hes]
    rfl
  · rw [outOf_reversed] at heq
    rw [← Multiset.map_coe, heq, reversed, Multiset.map_map]
    rfl

lemma edgeIdsAll (multimap : AnyOrder Entry) (hfits : fits us vs = true) (hus : ∀ u ∈ us, u < a)
    (hvs : ∀ v ∈ vs, v < b) :
    ∃ found : List (List Entry), m.getDataAndIndices multimap us vs = .ok found ∧
      List.Forall₂ (fun p (es : List Entry) => (es : Multiset Entry) = between E p)
        (broadcast us vs) found := by
  set big : Bool := decide (200 ≤ max us.length vs.length) with hbig
  refine ⟨(broadcast us vs).map fun p =>
    if big then multimap.run (m.entries.filter fun e => e.1 = p.1 ∧ e.2.1 = p.2)
    else m.entries.filter fun e => e.1 = p.1 ∧ e.2.1 = p.2, ?_, ?_⟩
  · rw [COOMatrix.getDataAndIndices, if_neg (by simp [hfits])]
    apply mapM_ok
    intro p hp
    have hu := hus _ (mem_broadcast hp).1
    have hv := hvs _ (mem_broadcast hp).2
    rw [if_neg (by rw [h.rows, h.cols]; omega)]
    simp [hbig]
  · apply forall₂_map
    intro p _
    rw [between, ← h.of.entries]
    split
    · exact Multiset.coe_eq_coe.2 (multimap.perm _)
    · rfl

lemma edgeId (hsquare : n = 1 → a = b) (hu : u < a) (hv : v < b) :
    ∃ xs, COO.ask host n m (.edgeId u v) = .ok (.ids xs) ∧
      (xs : Multiset ℕ) = (between E (u, v)).map fun e => e.2.2 := by
  obtain ⟨found, hget, hfound⟩ := h.edgeIdsAll host.multimap (rfl : fits [u] [v] = true)
    (by simpa using hu) (by simpa using hv)
  obtain ⟨es, hes, rfl⟩ := forall₂_singleton hfound
  refine ⟨es.map fun e => e.2.2, ?_, ?_⟩
  · show (if m.numRows ≤ u ∨ numDstVertices n m.numRows m.numCols ≤ v then _ else _) = _
    rw [if_neg (by rw [h.rows, h.cols]; exact in_range hsquare hu hv), COO.getAllData, hget]
    show Except.ok (Answer.ids (List.map _ [es].flatten)) = _
    rw [List.flatten_singleton]
  · rw [← hes]
    rfl

lemma inEdges (hv : v < b) :
    ∃ es : List Entry, COO.ask host n m (.inEdges v) = .ok (.edges (.ofEntries es)) ∧
      (es : Multiset Entry) = into E v := by
  obtain ⟨es, hes, hrow, heq⟩ := h.transpose.rowEntries hv
  refine ⟨es.map .swap, ?_, ?_⟩
  · show (m.transpose.getRowDataAndIndices v).map _ = _
    have hdst : es.map (fun _ => v) = es.map Prod.fst :=
      List.map_congr_left fun e he => (hrow e he).symm
    rw [hes, EdgeArray.ofEntries, List.map_map, List.map_map, List.map_map]
    show Except.ok (Answer.edges ⟨_, es.map fun _ => v, _⟩) = _
    rw [hdst]
    rfl
  · rw [outOf_reversed] at heq
    rw [← reversed_coe, heq, reversed_reversed]

lemma outEdges (hu : u < a) :
    ∃ es : List Entry, COO.ask host n m (.outEdges u) = .ok (.edges (.ofEntries es)) ∧
      (es : Multiset Entry) = outOf E u := by
  obtain ⟨es, hes, hrow, heq⟩ := h.rowEntries hu
  refine ⟨es, ?_, heq⟩
  show (m.getRowDataAndIndices u).map _ = _
  have hsrc : es.map (fun _ => u) = es.map Prod.fst :=
    List.map_congr_left fun e he => (hrow e he).symm
  rw [hes, EdgeArray.ofEntries, ← hsrc]
  rfl

lemma outDegrees (hus : ∀ u ∈ us, u < a) :
    m.getRowsNNZ us = .ok (us.map fun u => Multiset.card (outOf E u)) := by
  rw [COOMatrix.getRowsNNZ_eq (by rwa [h.rows]), ← h.of.entries]
  simp only [outOf, Multiset.filter_coe, Multiset.coe_card, List.countP_eq_length_filter]

lemma inDegrees (hvs : ∀ v ∈ vs, v < b) :
    m.transpose.getRowsNNZ vs = .ok (vs.map fun v => Multiset.card (into E v)) := by
  rw [h.transpose.outDegrees hvs]
  simp only [outOf_reversed, card_reversed]

/-- The arrays of the matrix list the edges by their ids. -/
lemma coo_ofEntries : (⟨m.row, m.col, List.range m.nnz⟩ : EdgeArray) = .ofEntries m.entries := by
  have hids : (List.range m.nnz).map (fun k => (m.entry k).2.2) = List.range m.nnz := by
    simp only [h.coo_entry, List.map_id']
  have hrow : m.row = (List.range m.nnz).map fun k => (m.entry k).1 := by
    apply List.ext_getElem
    · simp [COOMatrix.nnz]
    · intro k hk hk'
      simp [COOMatrix.entry, hk]
  have hcol : m.col = (List.range m.nnz).map fun k => (m.entry k).2.1 := by
    apply List.ext_getElem
    · simp [h.of.valid.col_length]
    · intro k hk hk'
      simp [COOMatrix.entry, hk]
  rw [EdgeArray.ofEntries, COOMatrix.entries, List.map_map, List.map_map, List.map_map]
  show _ = (⟨(List.range m.nnz).map fun k => (m.entry k).1,
    (List.range m.nnz).map fun k => (m.entry k).2.1,
    (List.range m.nnz).map fun k => (m.entry k).2.2⟩ : EdgeArray)
  rw [← hrow, ← hcol, hids]

lemma ids_sorted : (m.entries.map fun e => e.2.2).Pairwise (· < ·) := by
  have hids : List.range m.nnz = m.entries.map fun e => e.2.2 :=
    congrArg EdgeArray.id h.coo_ofEntries
  rw [← hids]
  exact List.pairwise_lt_range

lemma edgesOf {ids : List ℕ} (hids : ∀ k ∈ ids, k < Multiset.card E) :
    ∃ es : List Entry, indexSelect m.row ids = .ok (es.map Prod.fst) ∧
      (indexSelect m.col ids = .ok (es.map fun e => e.2.1)) ∧
      es.map (fun e => e.2.2) = ids ∧ EdgesOf E ids es ∧ ∀ e ∈ es, e ∈ m.entries := by
  rw [h.card] at hids
  refine ⟨ids.map m.entry, ?_, ?_, ?_, ?_, ?_⟩
  · rw [indexSelect_eq hids, List.map_map]
    rfl
  · rw [indexSelect_eq (by rw [h.of.valid.col_length]; exact hids), List.map_map]
    rfl
  · rw [List.map_map]
    conv_rhs => rw [← List.map_id ids]
    apply List.map_congr_left
    intro k _
    show (m.entry k).2.2 = k
    rw [h.coo_entry]
  · apply forall₂_map
    intro k hk
    exact ⟨h.mem_entry (hids k hk), by rw [h.coo_entry]⟩
  · intro e he
    obtain ⟨k, hk, rfl⟩ := List.mem_map.1 he
    exact List.mem_map_of_mem (List.mem_range.2 (hids k hk))

lemma findEdges {ids : List ℕ} (hids : ∀ k ∈ ids, k < Multiset.card E) :
    ∃ es : List Entry, COO.ask host n m (.findEdges ids) = .ok (.edges (.ofEntries es)) ∧
      EdgesOf E ids es := by
  obtain ⟨es, hsrc, hdst, hback, hes, -⟩ := h.edgesOf hids
  refine ⟨es, ?_, hes⟩
  show (do
    let src ← indexSelect m.row ids
    let dst ← indexSelect m.col ids
    pure (Answer.edges ⟨src, dst, ids⟩)) = _
  rw [hsrc, hdst, EdgeArray.ofEntries, hback]
  rfl

/-- The slice by an id array, with the rows looked up in the array. -/
lemma sliceRows (us : List ℕ) :
    ∃ es : List Entry, indexSelect us (m.sliceRows us).row = .ok (es.map Prod.fst) ∧
      ((m.sliceRows us).col = es.map fun e => e.2.1) ∧
      ((m.sliceRows us).data = es.map fun e => e.2.2) ∧ (es : Multiset Entry) = sliced E us := by
  set ids := (IdHashMap.ofIds us).ids with hids
  set found := m.entries.filter fun e => e.1 ∈ us with hfound
  have hfilter : (m.entries.filterMap fun e =>
      ((IdHashMap.ofIds us).map e.1).map fun r => (r, e.2)) =
      found.map fun e => (ids.idxOf e.1, e.2) := by
    rw [hfound, ← List.filterMap_eq_filter, List.map_filterMap]
    apply List.filterMap_congr
    intro e _
    rw [IdHashMap.map, Option.guard_eq_ite]
    by_cases hu : e.1 ∈ us
    · rw [if_pos (IdHashMap.mem_ofIds.2 hu), if_pos (by simpa using hu)]
      rfl
    · rw [if_neg fun hmem => hu (IdHashMap.mem_ofIds.1 hmem), if_neg (by simpa using hu)]
      rfl
  have hrow : (m.sliceRows us).row = found.map fun e => ids.idxOf e.1 := by
    show (List.filterMap _ _).map Prod.fst = _
    rw [hfilter, List.map_map]
    rfl
  refine ⟨found.map fun e => (relabel us e.1, e.2), ?_, ?_, ?_, ?_⟩
  · rw [hrow, indexSelect_eq, List.map_map, List.map_map]
    · rfl
    · intro i hi
      obtain ⟨e, he, rfl⟩ := List.mem_map.1 hi
      have hu : e.1 ∈ us := by simpa using (List.mem_filter.1 he).2
      exact (List.idxOf_lt_length_of_mem (IdHashMap.mem_ofIds.2 hu)).trans_le
        (IdHashMap.length_ofIds_le us)
  · show (List.filterMap _ _).map (fun e : Entry => e.2.1) = _
    rw [hfilter, List.map_map, List.map_map]
    rfl
  · show (List.filterMap _ _).map (fun e : Entry => e.2.2) = _
    rw [hfilter, List.map_map, List.map_map]
    rfl
  · rw [sliced, ← h.of.entries]
    rfl

lemma outEdgesOf (us : List ℕ) :
    ∃ es : List Entry, COO.ask host n m (.outEdgesOf us) = .ok (.edges (.ofEntries es)) ∧
      (es : Multiset Entry) = sliced E us := by
  obtain ⟨es, hrow, hcol, hdata, heq⟩ := h.sliceRows us
  refine ⟨es, ?_, heq⟩
  show (do
    let idx ← indexSelect us (m.sliceRows us).row
    pure (Answer.edges ⟨idx, (m.sliceRows us).col, (m.sliceRows us).data⟩)) = _
  rw [hrow, hcol, hdata]
  rfl

lemma inEdgesOf (vs : List ℕ) :
    ∃ es : List Entry, COO.ask host n m (.inEdgesOf vs) = .ok (.edges (.ofEntries es)) ∧
      (es : Multiset Entry) = reversed (sliced (reversed E) vs) := by
  obtain ⟨es, hrow, hcol, hdata, heq⟩ := h.transpose.sliceRows vs
  refine ⟨es.map .swap, ?_, ?_⟩
  · show (do
      let idx ← indexSelect vs (m.transpose.sliceRows vs).row
      pure (Answer.edges ⟨(m.transpose.sliceRows vs).col, idx, (m.transpose.sliceRows vs).data⟩)) = _
    rw [hrow, hcol, hdata, ← swap_ofEntries]
    rfl
  · rw [← heq]
    rfl

end

/-! ## Subgraphs -/

/-- Arrays without ids name the edges by their places. -/
lemma map_named {α : Type} {m' : COOMatrix} {es : List α} {f g k : α → ℕ} (hdata : m'.data = [])
    (hrow : m'.row = es.map f) (hcol : m'.col = es.map g) (src dst : ℕ → ℕ) :
    m'.entries.map (named src dst (es.map k)) = es.map fun x => (src (f x), dst (g x), k x) := by
  have hnnz : m'.nnz = es.length := by
    rw [COOMatrix.nnz, hrow, List.length_map]
  apply List.ext_getElem
  · simp [COOMatrix.entries, hnnz]
  · intro i hi hi'
    rw [List.length_map] at hi'
    simp [COOMatrix.entries, COOMatrix.entry, idAt, hdata, hrow, hcol, named, hi']

/-- Edges with their ends renumbered by their places in two lists. -/
lemma renumbered (m' : COOMatrix) {srcs dsts : List ℕ} {es : List Entry} (hdata : m'.data = [])
    (hsorted : m'.rowSorted = false) (hrows : m'.numRows = srcs.length)
    (hcols : m'.numCols = dsts.length) (hrow : m'.row = es.map fun e => srcs.idxOf e.1)
    (hcol : m'.col = es.map fun e => dsts.idxOf e.2.1)
    (hmem : ∀ e ∈ es, e.1 ∈ srcs ∧ e.2.1 ∈ dsts) :
    OfCOO (m'.entries : Multiset Entry) m' ∧ (m'.entries : Multiset Entry).map
      (named (srcs.getD · 0) (dsts.getD · 0) (es.map fun e => e.2.2)) = es := by
  refine ⟨⟨⟨?_, ?_, ?_, Or.inl hdata, fun h => nomatch hsorted.symm.trans h⟩, hdata, rfl⟩, ?_⟩
  · rw [hcol, COOMatrix.nnz, hrow, List.length_map, List.length_map]
  · intro r hr
    rw [hrow] at hr
    obtain ⟨e, he, rfl⟩ := List.mem_map.1 hr
    rw [hrows]
    exact List.idxOf_lt_length_of_mem (hmem e he).1
  · intro c hc
    rw [hcol] at hc
    obtain ⟨e, he, rfl⟩ := List.mem_map.1 hc
    rw [hcols]
    exact List.idxOf_lt_length_of_mem (hmem e he).2
  · have hself : (es.map fun e => (srcs.getD (srcs.idxOf e.1) 0, dsts.getD (dsts.idxOf e.2.1) 0,
        e.2.2)) = es := by
      conv_rhs => rw [← List.map_id es]
      apply List.map_congr_left
      intro e he
      rw [IdHashMap.getD_idxOf (hmem e he).1, IdHashMap.getD_idxOf (hmem e he).2]
      rfl
    rw [Multiset.map_coe, map_named hdata hrow hcol, hself]

lemma vertexSubgraph (h : ListsCOO E a b m) {vids : List (List ℕ)} (hlen : vids.length = n)
    (hsrc : (vids.getD 0 []).Nodup) (hdst : (dstVids n vids).Nodup) :
    ∃ sub : COOMatrix, ∃ ids, COO.ask host n m (.vertexSubgraph vids) = .ok (.subgraph (.coo sub) vids ids) ∧
      sub.numRows = (vids.getD 0 []).length ∧ sub.numCols = (dstVids n vids).length ∧
      OfCOO (sub.entries : Multiset Entry) sub ∧
      (sub.entries : Multiset Entry).map
          (named ((vids.getD 0 []).getD · 0) ((dstVids n vids).getD · 0) ids) =
        E.filter fun e => e.1 ∈ vids.getD 0 [] ∧ e.2.1 ∈ dstVids n vids := by
  set srcs := vids.getD 0 []
  set dsts := dstVids n vids
  set found := m.entries.filter fun e => e.1 ∈ srcs ∧ e.2.1 ∈ dsts with hfound
  have hfilter : (m.entries.filterMap fun e => ((IdHashMap.ofIds srcs).map e.1).bind fun r =>
      ((IdHashMap.ofIds dsts).map e.2.1).map fun c => (r, c, e.2.2)) =
      found.map fun e => (srcs.idxOf e.1, dsts.idxOf e.2.1, e.2.2) := by
    rw [hfound, ← List.filterMap_eq_filter, List.map_filterMap]
    apply List.filterMap_congr
    intro e _
    rw [IdHashMap.map_ofIds_of_nodup hsrc, IdHashMap.map_ofIds_of_nodup hdst, Option.guard_eq_ite]
    by_cases hu : e.1 ∈ srcs
    · by_cases hv : e.2.1 ∈ dsts
      · rw [if_pos hu, if_pos hv, if_pos (by simp [hu, hv])]
        rfl
      · rw [if_pos hu, if_neg hv, if_neg (by simp [hv])]
        rfl
    · rw [if_neg hu, Option.bind_none, if_neg (by simp [hu])]
      rfl
  have hmem {e : Entry} (he : e ∈ found) : e.1 ∈ srcs ∧ e.2.1 ∈ dsts := by
    simpa using (List.mem_filter.1 he).2
  set sub : COOMatrix :=
    { m.sliceMatrix srcs dsts with data := [], rowSorted := false, colSorted := false } with hsub
  have hrow : sub.row = found.map fun e => srcs.idxOf e.1 := by
    show (List.filterMap _ _).map Prod.fst = _
    rw [hfilter, List.map_map]
    rfl
  have hcol : sub.col = found.map fun e => dsts.idxOf e.2.1 := by
    show (List.filterMap _ _).map (fun e : Entry => e.2.1) = _
    rw [hfilter, List.map_map]
    rfl
  have hids : (m.sliceMatrix srcs dsts).data = found.map fun e => e.2.2 := by
    show (List.filterMap _ _).map (fun e : Entry => e.2.2) = _
    rw [hfilter, List.map_map]
    rfl
  obtain ⟨hof, hnamed⟩ := renumbered sub rfl rfl rfl rfl hrow hcol fun _ he => hmem he
  refine ⟨sub, (m.sliceMatrix srcs dsts).data, ?_, rfl, rfl, hof, ?_⟩
  · show COO.vertexSubgraph n m vids = _
    rw [COO.vertexSubgraph, if_neg (by simp [hlen])]
  · rw [hids, hnamed, ← h.of.entries]
    rfl

lemma edgeSubgraph_preserve (h : ListsCOO E a b m) {eids : List (List ℕ)} (hlen : eids.length = 1)
    (hids : ∀ k ∈ eids.getD 0 [], k < Multiset.card E) :
    ∃ (sub : COOMatrix) (es : List Entry), COO.ask host n m (.edgeSubgraph eids true) =
        .ok (.subgraph (.coo sub) [[], []] (eids.getD 0 [])) ∧ EdgesOf E (eids.getD 0 []) es ∧
      sub.numRows = a ∧ sub.numCols = b ∧ OfCOO (sub.entries : Multiset Entry) sub ∧
      (sub.entries : Multiset Entry).map (named id id (eids.getD 0 [])) = es := by
  obtain ⟨es, hsrc, hdst, hback, hes, hmem⟩ := h.edgesOf hids
  refine ⟨⟨m.bits, m.numRows, m.numCols, es.map Prod.fst, es.map fun e => e.2.1, [], false, false⟩,
    es, ?_, hes, h.rows, h.cols, ⟨⟨?_, ?_, ?_, Or.inl rfl, nofun⟩, rfl, rfl⟩, ?_⟩
  · show COO.edgeSubgraph m eids true = _
    rw [COO.edgeSubgraph, if_neg (by simp [hlen]), hsrc, hdst]
    rfl
  · simp [COOMatrix.nnz]
  · intro r hr
    obtain ⟨e, he, rfl⟩ := List.mem_map.1 hr
    exact (h.of.valid.entry_lt (hmem e he)).1
  · intro c hc
    obtain ⟨e, he, rfl⟩ := List.mem_map.1 hc
    exact (h.of.valid.entry_lt (hmem e he)).2
  · rw [Multiset.map_coe, ← hback, map_named rfl rfl rfl]
    show ((es.map id : List Entry) : Multiset Entry) = _
    rw [List.map_id]

lemma edgeSubgraph_relabel (h : ListsCOO E a b m) {eids : List (List ℕ)} (hlen : eids.length = 1)
    (hids : ∀ k ∈ eids.getD 0 [], k < Multiset.card E) :
    ∃ (sub : COOMatrix) (es : List Entry) (srcs dsts : List ℕ),
      COO.ask host n m (.edgeSubgraph eids false) =
        .ok (.subgraph (.coo sub) [srcs, dsts] (eids.getD 0 [])) ∧ EdgesOf E (eids.getD 0 []) es ∧
      srcs.Nodup ∧ dsts.Nodup ∧ (∀ x, x ∈ srcs ↔ ∃ e ∈ es, e.1 = x) ∧
      (∀ x, x ∈ dsts ↔ ∃ e ∈ es, e.2.1 = x) ∧ sub.numRows = srcs.length ∧
      sub.numCols = dsts.length ∧ OfCOO (sub.entries : Multiset Entry) sub ∧
      (sub.entries : Multiset Entry).map (named (srcs.getD · 0) (dsts.getD · 0) (eids.getD 0 [])) =
        es := by
  obtain ⟨es, hsrc, hdst, hback, hes, -⟩ := h.edgesOf hids
  set srcs := (IdHashMap.ofIds (es.map Prod.fst)).ids with hsrcs
  set dsts := (IdHashMap.ofIds (es.map fun e => e.2.1)).ids with hdsts
  have hsrcMem (x : ℕ) : x ∈ srcs ↔ ∃ e ∈ es, e.1 = x := by
    rw [hsrcs, IdHashMap.mem_ofIds, List.mem_map]
  have hdstMem (x : ℕ) : x ∈ dsts ↔ ∃ e ∈ es, e.2.1 = x := by
    rw [hdsts, IdHashMap.mem_ofIds, List.mem_map]
  obtain ⟨hof, hnamed⟩ := renumbered
    ⟨m.bits, srcs.length, dsts.length, (es.map Prod.fst).map srcs.idxOf,
      (es.map fun e => e.2.1).map dsts.idxOf, [], false, false⟩ rfl rfl rfl rfl
    (List.map_map (l := es)) (List.map_map (l := es))
    fun e he => ⟨(hsrcMem _).2 ⟨e, he, rfl⟩, (hdstMem _).2 ⟨e, he, rfl⟩⟩
  rw [← hback]
  refine ⟨_, es, srcs, dsts, ?_, hback.symm ▸ hes, IdHashMap.nodup_ofIds _, IdHashMap.nodup_ofIds _,
    hsrcMem, hdstMem, rfl, rfl, hof, hnamed⟩
  show COO.edgeSubgraph m eids false = _
  rw [COO.edgeSubgraph, if_neg (by simp [hlen]), hsrc, hdst, hback]
  rfl

end ListsCOO

end DglAscend.Hetero
