import DglAscend.Bfs.KernelRun
import DglAscend.Bfs.TraversalLevels

/-!
# The frontiers of the kernel and of the CPU

On a valid graph the kernel returns the frontiers of the CPU.  On any graph it flags an error if
and only if the input is invalid in one of the ways that it checks.
-/

namespace DglAscend.Bfs

variable {g : Args} {isEdge : Bool}

/-! ## The CPU -/

lemma pushSources_eq (us : List ℤ) (s : Traversal) :
    us.foldl (fun s u => { s with
        visited := Function.update s.visited u true, queue := s.queue.push u }) s = { s with
      visited := fun v => s.visited v || decide (v ∈ us)
      queue := ⟨s.queue.vec ++ us, s.queue.head⟩ } := by
  induction us generalizing s with
  | nil => simp
  | cons u us ih =>
      rw [List.foldl_cons, ih]
      simp only [Traversal.mk.injEq, VectorQueue.push, List.append_assoc, List.singleton_append,
        and_true, true_and]
      funext v
      by_cases hv : v = u
      · simp [hv]
      · simp [hv]

/-- **The CPU** ends, and collects the levels of the traversal. -/
theorem traverse_spec (hg : g.Valid) (isEdge : Bool) :
    (traverse g isEdge).ids isEdge = (if isEdge then [] else g.source) ++
        (g.kernelLevels isEdge).flatten.map (if isEdge then g.edgeId else g.indices) ∧
      (traverse g isEdge).sections =
        (if isEdge ∨ g.source = [] then [] else [(g.source.length : ℤ)]) ++
          sectionsOf (g.kernelLevels isEdge) ∧
      (traverse g isEdge).queue.size = 0 := by
  have hlevels : g.kernelLevels isEdge =
      levels g.indices g.out (g.numRows + 1) g.source g.source := by
    rw [Args.kernelLevels, Args.marked_eq hg.source_inRange,
      Args.firstFrontier_eq hg.numRows_lt hg.source_inRange]
  set s : Traversal := ⟨⟨g.source, 0⟩, fun v => decide (v ∈ g.source), [], [], true⟩ with hs
  have hpush : traverse g isEdge = traverseLevels g isEdge (g.numRows + 1) (makeFrontier isEdge s) := by
    rw [traverse, pushSources_eq]
    simp [hs]
  -- The first frontier is a section of the nodes only.
  have hfirst : makeFrontier isEdge s = { s with
      sections := if isEdge ∨ g.source = [] then [] else [(g.source.length : ℤ)]
      firstFrontier := !isEdge } := by
    cases isEdge with
    | true => rfl
    | false =>
        rw [makeFrontier, if_neg fun h => Bool.false_ne_true h.1]
        by_cases hsource : g.source = []
        · simp [hs, VectorQueue.empty, hsource]
        · have hlen : ¬0 = g.source.length := fun h => hsource (List.length_eq_zero_iff.1 h.symm)
          simp [hs, VectorQueue.empty, VectorQueue.size, hsource, hlen]
  have hvec₁ : (makeFrontier isEdge s).queue.vec = [] ++ g.source := by rw [hfirst]; rfl
  have hhead₁ : (makeFrontier isEdge s).queue.head = ([] : List ℤ).length := by rw [hfirst]; rfl
  have hseen₁ : ∀ v, (makeFrontier isEdge s).visited v = true ↔ v ∈ g.source := by
    intro v
    rw [hfirst]
    exact decide_eq_true_iff
  obtain ⟨hvec, hedges, hsections, hleft⟩ := traverseLevels_spec (n := g.numRows + 1) hg hvec₁ hhead₁
    hseen₁ hg.source_inRange fun h : isEdge = true => by rw [hfirst, h]; rfl
  rw [hpush, hlevels]
  refine ⟨?_, ?_, ?_⟩
  · rw [Traversal.ids]
    cases isEdge with
    | true =>
        rw [if_pos rfl, hedges, hfirst]
        rfl
    | false =>
        rw [if_neg Bool.false_ne_true, hvec, hfirst]
        rfl
  · rw [hsections, hfirst]
  · rw [hleft, rest_eq_nil Args.out_nodes (Args.enough_fuel _ _)]
    rfl

/-! ## The kernel and the CPU -/

/-- On a valid graph the kernel writes what the CPU collects. -/
lemma map_output_kernelLevels (hg : g.Valid) (isEdge : Bool) :
    (g.kernelLevels isEdge).flatten.map (g.output isEdge) =
      (g.kernelLevels isEdge).flatten.map (if isEdge then g.edgeId else g.indices) := by
  apply List.map_congr_left
  intro e he
  obtain ⟨u, hu⟩ := exists_mem_out he
  obtain ⟨hedge, -⟩ := Args.mem_out.1 hu
  rw [Args.edgesOf] at hedge
  by_cases hin : g.InRange u
  · rw [if_pos hin] at hedge
    obtain ⟨h1, h2⟩ := hg.edge_bounds hin hedge
    have hnnz := hg.nnz_lt
    cases isEdge with
    | true =>
        show g.rdEid e = g.edgeId e
        rw [Args.rdEid, Args.edgeId]
        cases g.eid with
        | some eid => rfl
        | none =>
            show g.toId e = e
            rw [Args.toId, Args.toInt32]
            split_ifs
            · exact Int.bmod_eq_of_le (by omega) (by omega)
            · exact Int.bmod_eq_of_le (by omega) (by omega)
    | false => rfl
  · rw [if_neg hin] at hedge
    exact absurd hedge List.not_mem_nil

/-- A check of the kernel fails: `indptr` goes down, it does not end with the number of edges, a
source is no node, or a visited row has an edge that leaves the graph. -/
def Invalid (g : Args) : Prop :=
  (∃ i < g.numRows, g.indptr (i + 1) < g.indptr i) ∨
    (0 < g.numRows ∧ g.indptr g.numRows ≠ g.nnz) ∨
    (∃ u ∈ g.source, ¬g.InRange u) ∨ BadIndex g

lemma badIndptr_iff (hnnz : g.nnz < 2 ^ 31) :
    BadIndptr g ↔ (∃ i < g.numRows, g.indptr (i + 1) < g.indptr i) ∨
      0 < g.numRows ∧ g.indptr g.numRows ≠ g.nnz := by
  have hcast : g.toId g.nnz = g.nnz := by
    rw [Args.toId, Args.toInt32]
    split_ifs
    · exact Int.bmod_eq_of_le (by omega) (by omega)
    · exact Int.bmod_eq_of_le (by omega) (by omega)
  rw [BadIndptr, hcast]

lemma Args.Valid.not_invalid (hg : g.Valid) : ¬Invalid g := by
  rintro (⟨i, hi, hdown⟩ | ⟨-, hlast⟩ | ⟨u, hu, hout⟩ | ⟨u, hu, e, h1, h2, hout⟩)
  · exact absurd (hg.indptr_mono i hi) (not_le.2 hdown)
  · exact hlast hg.indptr_last
  · exact hout (hg.source_inRange u hu)
  · obtain ⟨h3, h4⟩ := hg.edge_bounds (hu.inRange hg.source_inRange) (Args.mem_rowEdges.2 ⟨h1, h2⟩)
    exact hout (hg.indices_inRange e h3 h4)

/-- The kernel ends with the ids and the sections of the CPU, which ends, too, and without an
error. -/
structure SameFrontiers (g : Args) (isEdge : Bool) (s : State) : Prop where
  kernel_ends : (processSerial g isEdge s).2 = 0
  cpu_ends : (traverse g isEdge).queue.size = 0
  ids_eq : (processSerial g isEdge s).1.idsOut = (traverse g isEdge).ids isEdge
  sections_eq : (processSerial g isEdge s).1.sectionsOut = (traverse g isEdge).sections
  errflag_eq : (processSerial g isEdge s).1.errflag = 0

lemma sameFrontiers (hg : g.Valid) (isEdge : Bool) (visTag : ℤ → ℤ) (ids sections frNodes : ℕ → ℤ) :
    SameFrontiers g isEdge (initState visTag ids sections frNodes) := by
  obtain ⟨hkernel, hends⟩ := processSerial_result hg.numRows_lt isEdge visTag ids sections frNodes
  obtain ⟨hids, hsections, hcpu⟩ := traverse_spec hg isEdge
  refine ⟨hends, hcpu, ?_, ?_, ?_⟩
  · rw [hkernel.idsOut, hids, map_output_kernelLevels hg]
  · rw [hkernel.sectionsOut, hsections]
  · by_contra herr
    rw [← ne_eq, hkernel.errflag_iff hg.numRows_lt, badIndptr_iff hg.nnz_lt, or_assoc] at herr
    exact hg.not_invalid herr

/-- **The BFS of the kernel is the BFS of the CPU** on every valid graph, and on every graph of the
sizes that the hosts accept the kernel flags an error if and only if a check fails. -/
theorem processSerial_eq_traverse_and_errflag_iff (g : Args) (isEdge : Bool) (visTag : ℤ → ℤ)
    (ids sections frNodes : ℕ → ℤ) :
    (g.Valid → SameFrontiers g isEdge (initState visTag ids sections frNodes)) ∧
      (g.numRows < 2 ^ 31 → g.nnz < 2 ^ 31 →
        ((processSerial g isEdge (initState visTag ids sections frNodes)).2 = 0 ∧
          ((processSerial g isEdge (initState visTag ids sections frNodes)).1.errflag ≠ 0 ↔
            Invalid g))) := by
  refine ⟨fun hg => sameFrontiers hg isEdge visTag ids sections frNodes, fun hrows hnnz => ?_⟩
  obtain ⟨hkernel, hends⟩ := processSerial_result hrows isEdge visTag ids sections frNodes
  refine ⟨hends, ?_⟩
  rw [hkernel.errflag_iff hrows, badIndptr_iff hnnz, or_assoc]
  rfl

/-- Sources 0 and 0, two edges from node 0 to node 1, and one from node 1 to node 0. -/
def doubleEdge : Args where
  wide := false
  numRows := 2
  nnz := 3
  indptr := fun i => if i = 0 then 0 else if i = 1 then 2 else 3
  indices := fun e => if e = 2 then 0 else 1
  eid := none
  source := [0, 0]

lemma valid_doubleEdge : doubleEdge.Valid := by
  refine ⟨by decide, by decide, by decide, by decide, by decide, fun e h1 h2 => ?_, by decide⟩
  unfold Args.InRange doubleEdge
  simp only
  split_ifs <;> decide

theorem processSerial_doubleEdge :
    SameFrontiers doubleEdge true (initState (fun _ => 0) (fun _ => 0) (fun _ => 0) (fun _ => 0)) ∧
      (processSerial doubleEdge true
        (initState (fun _ => 0) (fun _ => 0) (fun _ => 0) (fun _ => 0))).1.errflag = 0 := by
  obtain ⟨hsame, herr⟩ := processSerial_eq_traverse_and_errflag_iff doubleEdge true (fun _ => 0)
    (fun _ => 0) (fun _ => 0) (fun _ => 0)
  obtain ⟨-, hiff⟩ := herr (by decide) (by decide)
  exact ⟨hsame valid_doubleEdge, not_not.1 fun h => valid_doubleEdge.not_invalid (hiff.1 h)⟩

/-- No rows, but an edge. -/
def edgeWithoutRows : Args where
  wide := false
  numRows := 0
  nnz := 1
  indptr := fun _ => 0
  indices := fun _ => 0
  eid := none
  source := []

/-- Without rows the number of edges is not checked. -/
theorem edgeWithoutRows_errflag :
    ¬∀ (g : Args) (isEdge : Bool) (visTag : ℤ → ℤ) (ids sections frNodes : ℕ → ℤ),
      g.numRows < 2 ^ 31 → g.nnz < 2 ^ 31 →
        ((processSerial g isEdge (initState visTag ids sections frNodes)).1.errflag ≠ 0 ↔
          (∃ i < g.numRows, g.indptr (i + 1) < g.indptr i) ∨ g.indptr g.numRows ≠ g.nnz ∨
            (∃ u ∈ g.source, ¬g.InRange u) ∨ BadIndex g) := by
  intro h
  have hiff := h edgeWithoutRows false (fun _ => 0) (fun _ => 0) (fun _ => 0) (fun _ => 0)
    (by decide) (by decide)
  exact hiff.2 (Or.inr (Or.inl (by decide))) (by decide)

end DglAscend.Bfs
