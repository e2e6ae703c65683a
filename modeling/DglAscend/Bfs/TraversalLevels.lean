import DglAscend.Bfs.KernelLevels
import DglAscend.Bfs.Traversal

/-!
# The levels of the BFS on the CPU

On a valid graph, the nodes that the queue holds at the start of a level are the frontier, and the
level pushes what a level of a traversal discovers.
-/

namespace DglAscend.Bfs

/-- A valid CSR graph with source nodes that exist.  The hosts check that the sizes are below
`2 ^ 31`. -/
structure Args.Valid (g : Args) : Prop where
  numRows_lt : g.numRows < 2 ^ 31
  nnz_lt : g.nnz < 2 ^ 31
  indptr_zero : g.indptr 0 = 0
  indptr_mono : ∀ i < g.numRows, g.indptr i ≤ g.indptr (i + 1)
  indptr_last : g.indptr g.numRows = g.nnz
  indices_inRange : ∀ e : ℤ, 0 ≤ e → e < g.nnz → g.InRange (g.indices e)
  source_inRange : ∀ u ∈ g.source, g.InRange u

namespace Args.Valid

variable {g : Args} {u e : ℤ}

lemma indptr_le (h : g.Valid) {i j : ℕ} (hij : i ≤ j) (hj : j ≤ g.numRows) :
    g.indptr i ≤ g.indptr j := by
  induction j, hij using Nat.le_induction with
  | base => exact le_refl _
  | succ j _ ih =>
      have hstep := h.indptr_mono j (by omega)
      exact (ih (by omega)).trans (by exact_mod_cast hstep)

/-- The edges of a node are edges of the graph. -/
lemma edge_bounds (h : g.Valid) (hu : g.InRange u) (he : e ∈ g.rowEdges u) : 0 ≤ e ∧ e < g.nnz := by
  obtain ⟨h1, h2⟩ := hu
  lift u to ℕ using h1
  have hlt : u < g.numRows := by exact_mod_cast h2
  have hfirst := h.indptr_le (Nat.zero_le u) hlt.le
  have hlast := h.indptr_le (Nat.succ_le_of_lt hlt) (le_refl _)
  rw [Nat.cast_zero, h.indptr_zero] at hfirst
  rw [h.indptr_last, Nat.cast_succ] at hlast
  rw [mem_rowEdges] at he
  omega

lemma out_eq (h : g.Valid) (hu : g.InRange u) : g.out u = g.rowEdges u := by
  rw [out, edgesOf, if_pos hu, List.filter_eq_self]
  intro e he
  obtain ⟨h1, h2⟩ := h.edge_bounds hu he
  exact decide_eq_true (h.indices_inRange e h1 h2)

end Args.Valid

variable {g : Args} {isEdge : Bool} {seen frontier raw : List ℤ} {s₀ s : Traversal}

/-- What a level has done after the edges `raw`. -/
structure Walked (g : Args) (isEdge : Bool) (seen : List ℤ) (s₀ : Traversal) (raw : List ℤ)
    (s : Traversal) : Prop where
  visited : ∀ v, s.visited v = true ↔ v ∈ seen ++ (discover g.indices seen raw).map g.indices
  vec : s.queue.vec = s₀.queue.vec ++ (discover g.indices seen raw).map g.indices
  edges : s.edges = s₀.edges ++
    if isEdge then (discover g.indices seen raw).map g.edgeId else []
  sections : s.sections = s₀.sections
  firstFrontier : s.firstFrontier = s₀.firstFrontier

/-- **One edge.** -/
theorem Walked.edge (h : Walked g isEdge seen s₀ raw s) (e : ℤ) :
    Walked g isEdge seen s₀ (raw ++ [e]) (traverseEdge g isEdge s e) := by
  obtain ⟨hvisited, hvec, hedges, hsec, hfirst⟩ := h
  by_cases hvis : s.visited (g.indices e) = true
  · have hsame : discover g.indices seen (raw ++ [e]) = discover g.indices seen raw := by
      rw [discover_concat, if_pos ((hvisited _).1 hvis), List.append_nil]
    rw [traverseEdge, if_pos hvis]
    exact ⟨by rw [hsame]; exact hvisited, by rw [hsame]; exact hvec, by rw [hsame]; exact hedges,
      hsec, hfirst⟩
  · have hnew : discover g.indices seen (raw ++ [e]) = discover g.indices seen raw ++ [e] := by
      rw [discover_concat, if_neg fun hmem => hvis ((hvisited _).2 hmem)]
    have hstep : traverseEdge g isEdge s e = { s with
        visited := Function.update s.visited (g.indices e) true
        edges := s.edges ++ if isEdge then [g.edgeId e] else []
        queue := s.queue.push (g.indices e) } := by
      rw [traverseEdge, if_neg hvis, visit]
      cases isEdge
      · simp
      · rfl
    rw [hstep]
    refine ⟨fun v => ?_, ?_, ?_, hsec, hfirst⟩
    · rw [hnew, List.map_append, ← List.append_assoc, List.mem_append, ← hvisited v]
      by_cases hv : v = g.indices e
      · simp [hv]
      · simp [hv]
    · rw [hnew, List.map_append, ← List.append_assoc, ← hvec]
      rfl
    · rw [hnew, hedges, List.append_assoc]
      cases isEdge
      · rfl
      · simp

lemma Walked.edges_foldl (h : Walked g isEdge seen s₀ raw s) (es : List ℤ) :
    Walked g isEdge seen s₀ (raw ++ es) (es.foldl (traverseEdge g isEdge) s) := by
  induction es generalizing raw s with
  | nil => rwa [List.append_nil]
  | cons e es ih =>
      rw [List.foldl_cons, List.append_cons]
      exact ih (h.edge e)

@[simp] lemma head_traverseEdge (s : Traversal) (e : ℤ) :
    (traverseEdge g isEdge s e).queue.head = s.queue.head := by
  rw [traverseEdge]
  split_ifs
  · rfl
  · cases isEdge <;> rfl

lemma head_foldl (es : List ℤ) (s : Traversal) :
    (es.foldl (traverseEdge g isEdge) s).queue.head = s.queue.head := by
  induction es generalizing s with
  | nil => rfl
  | cons e es ih => rw [List.foldl_cons, ih, head_traverseEdge]

/-- A node is popped and its edges are gone over. -/
lemma traverseNode_eq (s : Traversal) : traverseNode g isEdge s =
    (g.rowEdges s.queue.top).foldl (traverseEdge g isEdge) { s with queue := s.queue.pop } := by
  rw [Args.rowEdges_eq, List.foldl_map]
  rfl

/-- **One level** pops the frontier. -/
theorem traverseNode_iterate (g : Args) (isEdge : Bool) {done : List ℤ} (hvec : s.queue.vec = done ++ frontier)
    (hhead : s.queue.head = done.length) (hseen : ∀ v, s.visited v = true ↔ v ∈ seen) {n : ℕ}
    (hn : n ≤ frontier.length) :
    Walked g isEdge seen s ((frontier.take n).flatMap g.rowEdges)
        ((traverseNode g isEdge)^[n] s) ∧
      ((traverseNode g isEdge)^[n] s).queue.head = done.length + n := by
  induction n with
  | zero =>
      refine ⟨⟨fun v => ?_, ?_, ?_, rfl, rfl⟩, hhead⟩
      · simpa [discover] using hseen v
      · simp [discover]
      · simp [discover]
  | succ n ih =>
      obtain ⟨h, hpop⟩ := ih (by omega)
      set s' := (traverseNode g isEdge)^[n] s with hs'
      have htop : s'.queue.top = frontier[n] := by
        rw [VectorQueue.top, hpop, h.vec, hvec, List.append_assoc, List.getD_eq_getElem?_getD,
          List.getElem?_append_right (Nat.le_add_right _ _), Nat.add_sub_cancel_left,
          List.getElem?_append_left hn, List.getElem?_eq_getElem hn]
        rfl
      rw [Function.iterate_succ_apply', ← hs', traverseNode_eq, htop,
        List.take_succ_eq_append_getElem hn, List.flatMap_append, List.flatMap_singleton]
      have hpopped : Walked g isEdge seen s ((frontier.take n).flatMap g.rowEdges)
          { s' with queue := s'.queue.pop } := ⟨h.visited, h.vec, h.edges, h.sections, h.firstFrontier⟩
      refine ⟨hpopped.edges_foldl _, ?_⟩
      rw [head_foldl]
      show s'.queue.head + 1 = _
      rw [hpop, Nat.add_assoc]

/-! ## All levels -/

/-- A frontier that was not the first one of the edges. -/
lemma makeFrontier_eq (hfirst : isEdge = true → s.firstFrontier = false) {xs ys : List ℤ}
    (hvec : s.queue.vec = xs ++ ys) (hhead : s.queue.head = xs.length) :
    makeFrontier isEdge s = { s with
      sections := s.sections ++ if ys = [] then [] else [(ys.length : ℤ)] } := by
  have hcond : ¬(isEdge = true ∧ s.firstFrontier = true) := by
    rintro ⟨hedge, hf⟩
    rw [hfirst hedge] at hf
    exact Bool.false_ne_true hf
  rw [makeFrontier, if_neg hcond, VectorQueue.empty, VectorQueue.size, hvec, hhead,
    List.length_append, Nat.add_sub_cancel_left]
  by_cases hys : ys = []
  · simp [hys]
  · have hlen : ¬xs.length = xs.length + ys.length := fun h =>
      hys (List.length_eq_zero_iff.1 (by omega))
    simp [hys]

/-- **The loop over the levels** on a valid graph. -/
theorem traverseLevels_spec (hg : g.Valid) {n : ℕ} {done : List ℤ}
    (hvec : s.queue.vec = done ++ frontier) (hhead : s.queue.head = done.length)
    (hseen : ∀ v, s.visited v = true ↔ v ∈ seen) (hfrontier : ∀ u ∈ frontier, g.InRange u)
    (hfirst : isEdge = true → s.firstFrontier = false) :
    (traverseLevels g isEdge n s).queue.vec = s.queue.vec ++
        (levels g.indices g.out n seen frontier).flatten.map g.indices ∧
      (traverseLevels g isEdge n s).edges = s.edges ++
        (if isEdge then (levels g.indices g.out n seen frontier).flatten.map g.edgeId else []) ∧
      (traverseLevels g isEdge n s).sections = s.sections ++
        sectionsOf (levels g.indices g.out n seen frontier) ∧
      (traverseLevels g isEdge n s).queue.size = (rest g.indices g.out n seen frontier).length := by
  induction n generalizing s seen frontier done with
  | zero =>
      refine ⟨?_, ?_, ?_, ?_⟩
      · simp [traverseLevels, levels]
      · simp [traverseLevels, levels]
      · simp [traverseLevels, levels, sectionsOf]
      · simp [traverseLevels, rest, VectorQueue.size, hvec, hhead]
  | succ n ih =>
      by_cases hf : frontier = []
      · have hempty : s.queue.empty = true := by
          simp [VectorQueue.empty, hvec, hhead, hf]
        have hstop : traverseLevels g isEdge (n + 1) s = s := by
          rw [traverseLevels, if_pos hempty]
        rw [hstop, levels, rest, if_pos hf, if_pos hf]
        refine ⟨?_, ?_, ?_, ?_⟩
        · simp
        · simp
        · simp [sectionsOf]
        · simp [VectorQueue.size, hvec, hhead, hf]
      · have hnonempty : ¬s.queue.empty = true := by
          simp [VectorQueue.empty, hvec, hhead, hf]
        have hsize : s.queue.size = frontier.length := by
          rw [VectorQueue.size, hvec, hhead, List.length_append, Nat.add_sub_cancel_left]
        obtain ⟨hwalked, hpop⟩ := traverseNode_iterate g isEdge hvec hhead hseen
          (le_refl frontier.length)
        have hout : frontier.flatMap g.rowEdges = frontier.flatMap g.out := by
          rw [List.flatMap_def, List.flatMap_def,
            List.map_congr_left fun u hu => (hg.out_eq (hfrontier u hu)).symm]
        rw [List.take_length, hout] at hwalked
        set new := discover g.indices seen (frontier.flatMap g.out) with hnew
        set s₁ := (traverseNode g isEdge)^[frontier.length] s with hs₁
        have hfirst₁ : isEdge = true → s₁.firstFrontier = false := fun h => by
          rw [hwalked.firstFrontier, hfirst h]
        have hvec₁ : s₁.queue.vec = (done ++ frontier) ++ new.map g.indices := by
          rw [hwalked.vec, hvec]
        have hhead₁ : s₁.queue.head = (done ++ frontier).length := by
          rw [hpop, List.length_append]
        have hmake := makeFrontier_eq hfirst₁ hvec₁ hhead₁
        set s₂ := makeFrontier isEdge s₁ with hs₂
        have hstep : traverseLevels g isEdge (n + 1) s = traverseLevels g isEdge n s₂ := by
          rw [traverseLevels, if_neg hnonempty, hsize]
        have hnewIn : ∀ u ∈ new.map g.indices, g.InRange u := by
          intro u hu
          obtain ⟨e, he, rfl⟩ := List.mem_map.1 hu
          obtain ⟨v, -, he⟩ := List.mem_flatMap.1 (discover_subset he)
          exact (Args.mem_out.1 he).2
        obtain ⟨hvecEnd, hedges, hsections, hleft⟩ := ih (s := s₂) (by rw [hmake]; exact hvec₁)
          (by rw [hmake]; exact hhead₁) (by rw [hmake]; exact hwalked.visited) hnewIn
          (by rw [hmake]; exact hfirst₁)
        rw [hstep, levels, rest, if_neg hf, if_neg hf]
        simp only [← hnew]
        refine ⟨?_, ?_, ?_, hleft⟩
        · have hvec₂ : s₂.queue.vec = s₁.queue.vec := by rw [hmake]
          rw [hvecEnd, hvec₂, hwalked.vec, List.flatten_cons, List.map_append, List.append_assoc]
        · have hedges₂ : s₂.edges = s₁.edges := by rw [hmake]
          rw [hedges, hedges₂, hwalked.edges, List.flatten_cons, List.append_assoc, List.map_append]
          cases isEdge <;> rfl
        · have hsections₂ : s₂.sections = s.sections ++ sectionsOf [new] := by
            rw [hmake]
            show s₁.sections ++ _ = _
            rw [hwalked.sections, sectionsOf]
            by_cases hempty : new = []
            · simp [hempty]
            · simp [hempty]
          rw [hsections, hsections₂, List.append_assoc, sectionsOf, sectionsOf, sectionsOf,
            ← List.map_append, ← List.filter_append]
          rfl

end DglAscend.Bfs
