import Mathlib.Data.List.GetD
import DglAscend.Traversal.Topological

/-!
# The frontiers of a topological traversal

The invariant of the loop over the levels: what is left of the in-degree of a node are the in-edges from
nodes that have not been taken from the queue.  From it: the loop ends, every edge goes to a later
frontier, and all nodes are emitted if and only if there is no directed cycle (`topologicalNodes_spec`).
-/

namespace DglAscend.Traversal

open Ascend

variable {g : Digraph} {s : Topo} {u v : ℕ}

namespace Digraph

lemma lt_of_mem_rowCols (hu : u < g.numRows) (hv : v ∈ g.rowCols u) : v < g.numRows := by
  obtain ⟨e, he, rfl⟩ := List.mem_map.1 hv
  rw [← g.square]
  apply g.col_lt
  have hlt : e < g.indices.length := by
    have hmono : g.ptr (u + 1) ≤ g.ptr g.numRows := Csr.ptr_mono (Nat.succ_le_of_lt hu) (le_refl _)
    have hlast : g.ptr g.numRows = g.indices.length := g.indptr_last
    have hmem := (Csr.mem_edgesBetween.1 he).2
    omega
  rw [Csr.col, List.getD_eq_getElem _ _ hlt]
  exact List.getElem_mem hlt

lemma flatMap_rowCols (g : Digraph) : (List.range g.numRows).flatMap g.rowCols = g.indices := by
  have hedges : (List.range' 0 (g.numRows - 0)).flatMap g.rowEdges =
      Csr.edgesBetween (g.ptr 0) (g.ptr g.numRows) :=
    Csr.flatMap_rowEdges (Nat.zero_le _) (le_refl g.numRows)
  have hzero : g.ptr 0 = 0 := g.indptr_zero
  have hlast : g.ptr g.numRows = g.indices.length := g.indptr_last
  rw [hzero, hlast, Nat.sub_zero, ← List.range_eq_range', Csr.edgesBetween, Nat.sub_zero,
    ← List.range_eq_range'] at hedges
  have hmap := congrArg (List.map g.col) hedges
  rw [List.map_flatMap] at hmap
  refine hmap.trans (List.ext_getElem ?_ fun i h₁ h₂ => ?_)
  · rw [List.length_map, List.length_range]
  · rw [List.getElem_map, List.getElem_range, Csr.col, List.getD_eq_getElem _ _ h₂]

/-- The in-edges from some of the nodes, and from the others. -/
lemma count_add (g : Digraph) {us : List ℕ} (hnodup : us.Nodup) (hus : ∀ u ∈ us, u < g.numRows) (v : ℕ) :
    (us.flatMap g.rowCols).count v +
        (((List.range g.numRows).filter fun u => u ∉ us).flatMap g.rowCols).count v =
      g.indices.count v := by
  have hperm : (us ++ (List.range g.numRows).filter fun u => u ∉ us).Perm (List.range g.numRows) := by
    rw [List.perm_ext_iff_of_nodup _ List.nodup_range]
    · intro u
      rw [List.mem_append, List.mem_filter, decide_eq_true_eq, List.mem_range]
      constructor
      · rintro (hu | hu)
        · exact hus u hu
        · exact hu.1
      · intro hu
        by_cases hin : u ∈ us
        · exact Or.inl hin
        · exact Or.inr ⟨hu, hin⟩
    · refine hnodup.append (List.nodup_range.filter _) fun u hu hrest => ?_
      rw [List.mem_filter, decide_eq_true_eq] at hrest
      exact hrest.2 hu
  rw [← List.count_append, ← List.flatMap_append, ← g.flatMap_rowCols]
  exact (hperm.flatMap_right g.rowCols).count_eq v

end Digraph

/-! ## Levels -/

/-- The loop over edges does not look at the head of the queue. -/
lemma foldl_visitEdge_head (es : List ℕ) (s : Topo) (head : ℕ) :
    es.foldl Topo.visitEdge { s with head := head } = { es.foldl Topo.visitEdge s with head := head } := by
  induction es generalizing s with
  | nil => rfl
  | cons e es ih =>
      have hedge : Topo.visitEdge { s with head := head } e =
          { Topo.visitEdge s e with head := head } := by
        rw [Topo.visitEdge, Topo.visitEdge]
        split_ifs <;> rfl
      rw [List.foldl_cons, List.foldl_cons, hedge, ih]

/-- The loop over a part of the queue goes over the edges of its nodes. -/
lemma visitNode_iterate (frontier before rest : List ℕ)
    (hids : s.ids = before ++ (frontier ++ rest)) (hhead : s.head = before.length) :
    (g.visitNode)^[frontier.length] s =
      { (frontier.flatMap g.rowCols).foldl Topo.visitEdge s with
        head := (before ++ frontier).length } := by
  induction frontier generalizing s before rest with
  | nil =>
      rw [List.append_nil, ← hhead]
      rfl
  | cons u frontier ih =>
      have htop : s.ids.getD s.head 0 = u := by
        rw [hids, hhead, List.getD_append_right _ _ _ _ (le_refl _), Nat.sub_self, List.cons_append,
          List.getD_cons_zero]
      obtain ⟨new, hfold, -, -⟩ := foldl_visitEdge (g.rowCols u) s
      have hnode : g.visitNode s =
          { (g.rowCols u).foldl Topo.visitEdge s with head := s.head + 1 } := by
        rw [Digraph.visitNode, htop, foldl_visitEdge_head]
      have hnext := ih (s := g.visitNode s) (before ++ [u]) (rest ++ new)
        (by rw [hnode, hfold, hids]; simp)
        (by rw [hnode, List.length_append, List.length_singleton, hhead])
      rw [List.length_cons, Function.iterate_succ_apply, hnext, hnode, foldl_visitEdge_head,
        List.flatMap_cons, List.foldl_append, List.append_assoc, List.singleton_append]

/-- What holds before a level: the frontiers `fs` have been taken from the queue, and `frontier` is in
it. -/
structure Level (g : Digraph) (fs : List (List ℕ)) (frontier : List ℕ) (s : Topo) : Prop where
  ids : s.ids = fs.flatten ++ frontier
  head : s.head = fs.flatten.length
  sections : s.sections = (fs ++ if frontier = [] then [] else [frontier]).map List.length
  nonempty : ∀ f ∈ fs, f ≠ []
  numVisited : s.numVisited = s.ids.length
  nodup : s.ids.Nodup
  lt : ∀ v ∈ s.ids, v < g.numRows
  degrees : ∀ v, s.degrees v = g.inDegrees v - (fs.flatten.flatMap g.rowCols).count v
  mem : ∀ v < g.numRows, v ∈ s.ids ↔ s.degrees v = 0
  before : ∀ i, ∀ v ∈ (fs ++ [frontier]).getD i [], ∀ u, g.Edge u v → u ∈ (fs.take i).flatten

/-- A node that has no in-edge left has its in-edges from nodes that have been taken. -/
lemma mem_of_count (us : List ℕ) (hnodup : us.Nodup) (hus : ∀ u ∈ us, u < g.numRows)
    (hcount : g.inDegrees v = (us.flatMap g.rowCols).count v) (hedge : g.Edge u v) : u ∈ us := by
  by_contra hnot
  have hadd := g.count_add hnodup hus v
  rw [Digraph.inDegrees, Nat.cast_inj] at hcount
  have hzero : (((List.range g.numRows).filter fun u => u ∉ us).flatMap g.rowCols).count v = 0 := by
    omega
  rw [List.count_eq_zero] at hzero
  apply hzero
  refine List.mem_flatMap.2 ⟨u, List.mem_filter.2 ⟨List.mem_range.2 hedge.1, ?_⟩, hedge.2⟩
  exact decide_eq_true hnot

lemma makeFrontier_eq (s : Topo) : s.makeFrontier = { s with
    sections := s.sections ++ if s.pending then [s.ids.length - s.head] else [] } := by
  rw [Topo.makeFrontier]
  split_ifs
  · rfl
  · rw [List.append_nil]

variable {fs : List (List ℕ)} {frontier : List ℕ}

lemma Level.nodup_taken (h : Level g fs frontier s) : fs.flatten.Nodup := by
  have hnodup := h.nodup
  rw [h.ids] at hnodup
  exact hnodup.of_append_left

/-- The in-edges from nodes that have been emitted. -/
lemma Level.count_le (h : Level g fs frontier s) (v : ℕ) :
    ((frontier.flatMap g.rowCols).count v : ℤ) ≤ s.degrees v := by
  have hadd := g.count_add h.nodup h.lt v
  rw [h.ids, List.flatMap_append, List.count_append] at hadd
  rw [h.degrees, Digraph.inDegrees]
  omega

/-- **The turn of a level.** -/
theorem Level.next (h : Level g fs frontier s) (hne : frontier ≠ []) :
    ∃ new, Level g (fs ++ [frontier]) new (g.visitLevel s) := by
  have hsize : s.ids.length - s.head = frontier.length := by
    rw [h.ids, h.head, List.length_append, Nat.add_sub_cancel_left]
  have hturn := visitNode_iterate (g := g) frontier fs.flatten []
    (by rw [h.ids, List.append_nil]) h.head
  obtain ⟨new, hfold, hnodup, hmem⟩ := foldl_visitEdge (frontier.flatMap g.rowCols) s
  rw [hfold] at hturn
  have hlevel : g.visitLevel s = Topo.makeFrontier
      { s with
        ids := s.ids ++ new
        head := (fs.flatten ++ frontier).length
        degrees := fun v => s.degrees v - (frontier.flatMap g.rowCols).count v
        numVisited := s.numVisited + new.length } := by
    rw [Digraph.visitLevel, hsize, hturn]
  have hflat : (fs ++ [frontier]).flatten = s.ids := by
    rw [List.flatten_append, List.flatten_singleton, h.ids]
  have hdegrees : ∀ v, s.degrees v - (frontier.flatMap g.rowCols).count v =
      g.inDegrees v - (s.ids.flatMap g.rowCols).count v := by
    intro v
    rw [h.degrees, h.ids, List.flatMap_append, List.count_append]
    push_cast
    omega
  have hnew : ∀ v, v ∈ new ↔ 0 < s.degrees v ∧ s.degrees v - (frontier.flatMap g.rowCols).count v = 0 := by
    intro v
    have hle := h.count_le v
    rw [hmem]
    omega
  have hpending : (decide ((fs.flatten ++ frontier).length ≠ (s.ids ++ new).length)) =
      decide (new ≠ []) := by
    rw [decide_eq_decide, ← h.ids, List.length_append, ne_eq, ne_eq, ← List.length_eq_zero_iff]
    omega
  have hpart (rest : List (List ℕ)) : (fs ++ [frontier] ++ rest).map List.length =
      (fs ++ [frontier]).map List.length ++ rest.map List.length := List.map_append
  rw [hlevel, makeFrontier_eq]
  refine ⟨new, ?_, ?_, ?_, ?_, ?_, ?_, ?_, ?_, ?_, ?_⟩
  · rw [hflat]
  · rw [hflat, h.ids]
  · show s.sections ++ (if decide ((fs.flatten ++ frontier).length ≠ (s.ids ++ new).length) = true then
      [(s.ids ++ new).length - (fs.flatten ++ frontier).length] else []) = _
    rw [hpending, h.sections, if_neg hne, ← h.ids, List.length_append, Nat.add_sub_cancel_left,
      hpart]
    by_cases hnil : new = []
    · rw [if_pos hnil, if_neg (by rw [decide_eq_true_eq]; exact not_not.2 hnil)]
      rfl
    · rw [if_neg hnil, if_pos (decide_eq_true hnil)]
      rfl
  · intro f hf
    rcases List.mem_append.1 hf with hf | hf
    · exact h.nonempty f hf
    · rw [List.mem_singleton.1 hf]
      exact hne
  · show s.numVisited + new.length = (s.ids ++ new).length
    rw [h.numVisited, List.length_append]
  · refine h.nodup.append hnodup fun v hold hin => ?_
    have hzero := (h.mem v (h.lt v hold)).1 hold
    have hpos := ((hnew v).1 hin).1
    omega
  · intro v hv
    rcases List.mem_append.1 hv with hv | hv
    · exact h.lt v hv
    · have hcount : 0 < (frontier.flatMap g.rowCols).count v := by
        have hv := (hmem v).1 hv
        omega
      obtain ⟨u, hu, hvu⟩ := List.mem_flatMap.1 (List.count_pos_iff.1 hcount)
      apply Digraph.lt_of_mem_rowCols _ hvu
      apply h.lt u
      rw [h.ids]
      exact List.mem_append_right _ hu
  · intro v
    rw [hflat]
    exact hdegrees v
  · intro v hv
    have hle := h.count_le v
    have hold := h.mem v hv
    show v ∈ s.ids ++ new ↔ s.degrees v - (frontier.flatMap g.rowCols).count v = 0
    rw [List.mem_append, hnew, hold]
    omega
  · intro i v hv u hedge
    rcases Nat.lt_trichotomy i (fs ++ [frontier]).length with hi | hi | hi
    · rw [List.getD_append _ _ _ _ hi] at hv
      have hpred := h.before i v hv u hedge
      rw [List.length_append, List.length_singleton] at hi
      rw [List.take_append_of_le_length (by omega)]
      exact hpred
    · rw [hi, List.getD_append_right _ _ _ _ (le_refl _), Nat.sub_self, List.getD_cons_zero] at hv
      rw [hi, List.take_length, hflat]
      have hzero := ((hnew v).1 hv).2
      rw [hdegrees] at hzero
      exact mem_of_count s.ids h.nodup h.lt (by omega) hedge
    · rw [List.getD_eq_default _ _ (by rw [List.length_append, List.length_singleton]; omega)] at hv
      cases hv

/-! ## The whole traversal -/

lemma foldl_emit (degrees : ℕ → ℤ) (us : List ℕ) {s : Topo} (hs : s.degrees = degrees) :
    us.foldl (fun (s : Topo) v => if s.degrees v = 0 then s.emit v else s) s =
      { s with
        ids := s.ids ++ us.filter fun v => degrees v = 0
        numVisited := s.numVisited + (us.filter fun v => degrees v = 0).length } := by
  induction us generalizing s with
  | nil => simp
  | cons u us ih =>
      have hu : s.degrees u = degrees u := congrFun hs u
      rw [List.foldl_cons]
      by_cases hzero : degrees u = 0
      · have hfilter : (u :: us).filter (fun v => degrees v = 0) =
            u :: us.filter fun v => degrees v = 0 := List.filter_cons_of_pos (decide_eq_true hzero)
        rw [if_pos (hu.trans hzero), ih (s := s.emit u) hs, hfilter]
        simp only [Topo.emit, List.append_assoc, List.singleton_append, List.length_cons, Topo.mk.injEq,
          true_and]
        omega
      · have hfilter : (u :: us).filter (fun v => degrees v = 0) = us.filter fun v => degrees v = 0 :=
          List.filter_cons_of_neg (by rwa [decide_eq_true_eq])
        rw [if_neg (by rw [hu]; exact hzero), ih hs, hfilter]

/-- Before the first level the nodes without in-edges are in the queue. -/
lemma level_start (g : Digraph) :
    Level g [] ((List.range g.numRows).filter fun v => g.inDegrees v = 0) g.start := by
  have hcount : ∀ v, g.inDegrees v = 0 → ∀ u, ¬g.Edge u v := by
    intro v hzero u hedge
    have hmem := mem_of_count [] List.nodup_nil (fun u hu => absurd hu List.not_mem_nil)
      (by rw [hzero]; rfl) hedge
    cases hmem
  rw [Digraph.start, foldl_emit g.inDegrees _ rfl, makeFrontier_eq]
  generalize hfrontier : (List.range g.numRows).filter (fun v => g.inDegrees v = 0) = frontier
  have hmem : ∀ v, v ∈ frontier ↔ v < g.numRows ∧ g.inDegrees v = 0 := by
    intro v
    rw [← hfrontier, List.mem_filter, List.mem_range, decide_eq_true_eq]
  refine ⟨rfl, rfl, ?_, fun f hf => absurd hf List.not_mem_nil, ?_, ?_, fun v hv => ((hmem v).1 hv).1, ?_, ?_, ?_⟩
  · show [] ++ (if decide (0 ≠ ([] ++ frontier).length) = true then [([] ++ frontier).length - 0]
      else []) = _
    by_cases hnil : frontier = []
    · rw [hnil]
      rfl
    · have hlen := List.length_pos_of_ne_nil hnil
      rw [if_neg hnil, List.nil_append frontier, if_pos (decide_eq_true hlen.ne), Nat.sub_zero]
      rfl
  · exact Nat.zero_add _
  · rw [← hfrontier]
    exact List.nodup_range.filter _
  · intro v
    exact (sub_zero _).symm
  · exact fun v hv => (hmem v).trans (and_iff_right hv)
  · intro i v hv u hedge
    cases i with
    | zero => exact absurd hedge (hcount v ((hmem v).1 hv).2 u)
    | succ i =>
        rw [List.nil_append, List.getD_cons_succ, List.getD_nil] at hv
        cases hv

lemma Level.pending_iff (h : Level g fs frontier s) : s.pending = true ↔ frontier ≠ [] := by
  rw [Topo.pending, decide_eq_true_eq, h.ids, h.head, List.length_append, ne_eq, ne_eq,
    ← List.length_eq_zero_iff]
  omega

lemma Level.length_le (h : Level g fs frontier s) : fs.length ≤ g.numRows := by
  have hflat : fs.length ≤ fs.flatten.length := by
    have hne := h.nonempty
    clear h
    induction fs with
    | nil => exact le_refl _
    | cons f fs ih =>
        have hf := List.length_pos_of_ne_nil (hne f List.mem_cons_self)
        have hfs := ih fun f' hf' => hne f' (List.mem_cons_of_mem f hf')
        rw [List.flatten_cons, List.length_append, List.length_cons]
        omega
  have hsub : fs.flatten ⊆ List.range g.numRows := by
    intro v hv
    rw [List.mem_range]
    apply h.lt
    rw [h.ids]
    exact List.mem_append_left _ hv
  have hle := (h.nodup_taken.subperm hsub).length_le
  rw [List.length_range] at hle
  exact hflat.trans hle

/-- **The loop ends** with an empty queue. -/
theorem loop_spec (g : Digraph) : ∃ fs s, g.loop = .ok s ∧ Level g fs [] s := by
  have hlevels : ∀ k, (∀ j < k, ((g.visitLevel)^[j] g.start).pending = true) →
      ∃ fs frontier, fs.length = k ∧ Level g fs frontier ((g.visitLevel)^[k] g.start) := by
    intro k
    induction k with
    | zero => exact fun _ => ⟨[], _, rfl, level_start g⟩
    | succ k ih =>
        intro hpending
        obtain ⟨fs, frontier, hlen, hlevel⟩ := ih fun j hj => hpending j (by omega)
        have hne := hlevel.pending_iff.1 (hpending k (Nat.lt_succ_self k))
        obtain ⟨new, hnext⟩ := hlevel.next hne
        rw [Function.iterate_succ_apply']
        refine ⟨fs ++ [frontier], new, ?_, hnext⟩
        rw [List.length_append, List.length_singleton, hlen]
  rw [Digraph.loop]
  cases hloop : whileLoop Topo.pending g.visitLevel (g.numRows + 1) g.start with
  | error t =>
      obtain ⟨-, hpending⟩ := whileLoop_error hloop
      obtain ⟨fs, frontier, hlen, hlevel⟩ := hlevels (g.numRows + 1) hpending
      have hle := hlevel.length_le
      omega
  | ok t =>
      obtain ⟨n, -, rfl, hend, hpending⟩ := whileLoop_ok hloop
      obtain ⟨fs, frontier, -, hlevel⟩ := hlevels n hpending
      have hnil : frontier = [] := by
        by_contra hne
        rw [hlevel.pending_iff.2 hne] at hend
        cases hend
      rw [hnil] at hlevel
      exact ⟨fs, _, rfl, hlevel⟩

/-! ## Cycles -/

/-- Where every edge goes up in rank there is no cycle. -/
lemma not_cyclic_of_rank (rank : ℕ → ℕ) (hrank : ∀ u v, g.Edge u v → rank u < rank v) :
    ¬g.Cyclic := by
  rintro ⟨v, hcycle⟩
  have hlt : ∀ w, Relation.TransGen g.Edge v w → rank v < rank w := by
    intro w hpath
    induction hpath with
    | single h => exact hrank _ _ h
    | tail _ h ih => exact ih.trans (hrank _ _ h)
  exact lt_irrefl _ (hlt v hcycle)

/-- Where every one of some nodes has an in-edge from another of them there is a cycle. -/
lemma cyclic_of_closed (left : ℕ → Prop) (hlt : ∀ v, left v → v < g.numRows)
    (hpred : ∀ v, left v → ∃ u, left u ∧ g.Edge u v) (hv : left v) : g.Cyclic := by
  by_contra hnone
  let before : Fin g.numRows → Fin g.numRows → Prop := fun u v => Relation.TransGen g.Edge u v
  have : IsTrans (Fin g.numRows) before := ⟨fun _ _ _ huv hvw => Relation.TransGen.trans huv hvw⟩
  have : Std.Irrefl before := ⟨fun w hw => hnone ⟨w, hw⟩⟩
  have hwf : WellFounded before := Finite.wellFounded_of_trans_of_irrefl before
  obtain ⟨w, hw, hmin⟩ := hwf.has_min {w | left w} ⟨⟨v, hlt v hv⟩, hv⟩
  obtain ⟨u, hu, hedge⟩ := hpred w hw
  exact hmin ⟨u, hlt u hu⟩ hu (Relation.TransGen.single hedge)

/-! ## Frontiers -/

lemma splitSections_map_length (fs : List (List ℕ)) :
    splitSections (fs.map List.length) fs.flatten = fs := by
  induction fs with
  | nil => rfl
  | cons f fs ih =>
      rw [List.map_cons, List.flatten_cons, splitSections, List.take_left, List.drop_left, ih]

lemma Level.lt_of_edge (h : Level g fs [] s) {i j : ℕ} (hedge : g.Edge u v) (hu : u ∈ fs.getD i [])
    (hv : v ∈ fs.getD j []) : i < j := by
  have hj : j < fs.length := by
    by_contra hge
    rw [List.getD_eq_default _ _ (not_lt.1 hge)] at hv
    cases hv
  have hpred : u ∈ (fs.take j).flatten := by
    apply h.before j v _ u hedge
    rwa [List.getD_append _ _ _ _ hj]
  by_contra hge
  have hdrop : u ∈ (fs.drop j).flatten := by
    have hi : i < fs.length := by
      by_contra hge
      rw [List.getD_eq_default _ _ (not_lt.1 hge)] at hu
      cases hu
    rw [List.getD_eq_getElem _ _ hi] at hu
    refine List.mem_flatten.2 ⟨_, ?_, hu⟩
    rw [List.mem_drop_iff_getElem]
    exact ⟨i - j, by omega, by congr 1; omega⟩
  have hnodup := h.nodup_taken
  rw [← List.take_append_drop j fs, List.flatten_append] at hnodup
  exact List.disjoint_of_nodup_append hnodup hpred hdrop

/-- All nodes have been emitted if and only if there is no cycle. -/
lemma Level.cyclic_iff (h : Level g fs [] s) : g.Cyclic ↔ s.ids.length ≠ g.numRows := by
  have hids : s.ids = fs.flatten := by rw [h.ids, List.append_nil]
  have hsub : s.ids ⊆ List.range g.numRows := fun v hv => List.mem_range.2 (h.lt v hv)
  constructor
  · intro hcyclic hlen
    have hperm : s.ids.Perm (List.range g.numRows) := by
      apply (h.nodup.subperm hsub).perm_of_length_le
      rw [List.length_range, hlen]
    have hrank : ∀ v < g.numRows, v ∈ fs.getD (fs.findIdx fun f => v ∈ f) [] := by
      intro v hv
      have hmem : v ∈ s.ids := hperm.symm.subset (List.mem_range.2 hv)
      rw [hids] at hmem
      obtain ⟨f, hf, hvf⟩ := List.mem_flatten.1 hmem
      have hlt : fs.findIdx (fun f => v ∈ f) < fs.length :=
        List.findIdx_lt_length_of_exists ⟨f, hf, decide_eq_true hvf⟩
      have hfound := List.findIdx_getElem (w := hlt)
      rw [decide_eq_true_eq] at hfound
      rw [List.getD_eq_getElem _ _ hlt]
      exact hfound
    refine not_cyclic_of_rank (fun v => fs.findIdx fun f => v ∈ f) ?_ hcyclic
    intro u v hedge
    exact h.lt_of_edge hedge (hrank u hedge.1) (hrank v (Digraph.lt_of_mem_rowCols hedge.1 hedge.2))
  · intro hlen
    have hmissing : ∃ v < g.numRows, v ∉ s.ids := by
      by_contra hall
      push Not at hall
      apply hlen
      have hperm : s.ids.Perm (List.range g.numRows) := by
        rw [List.perm_ext_iff_of_nodup h.nodup List.nodup_range]
        exact fun v => ⟨fun hv => hsub hv, fun hv => hall v (List.mem_range.1 hv)⟩
      rw [hperm.length_eq, List.length_range]
    obtain ⟨v, hv, hnot⟩ := hmissing
    refine cyclic_of_closed (fun v => v < g.numRows ∧ v ∉ s.ids) (fun v hv => hv.1) ?_ ⟨hv, hnot⟩
    rintro v ⟨hv, hnot⟩
    have hdegree : s.degrees v ≠ 0 := fun hzero => hnot ((h.mem v hv).2 hzero)
    have hadd := g.count_add h.nodup h.lt v
    rw [h.degrees, ← hids, Digraph.inDegrees] at hdegree
    have hpos : 0 < (((List.range g.numRows).filter fun u => u ∉ s.ids).flatMap g.rowCols).count v := by
      omega
    obtain ⟨u, hu, hvu⟩ := List.mem_flatMap.1 (List.count_pos_iff.1 hpos)
    rw [List.mem_filter, List.mem_range, decide_eq_true_eq] at hu
    exact ⟨u, hu, hu.1, hvu⟩

/-- **Topological traversal.**  The loop over the levels ends.  No node is emitted twice, the sections cut
the emitted nodes into frontiers, and every edge between emitted nodes goes from a frontier to a later
one.  The check at the end fails if and only if there is a directed cycle. -/
theorem topologicalNodes_spec (g : Digraph) : ∃ s, g.loop = .ok s ∧
    s.ids.Nodup ∧ (∀ v ∈ s.ids, v < g.numRows) ∧
    (splitSections s.sections s.ids).flatten = s.ids ∧
    (∀ u v i j, g.Edge u v → u ∈ (splitSections s.sections s.ids).getD i [] →
      v ∈ (splitSections s.sections s.ids).getD j [] → i < j) ∧
    (g.topologicalNodes = .error .loopDetected ↔ g.Cyclic) ∧
    (¬g.Cyclic → g.topologicalNodes = .ok (s.ids, s.sections)) := by
  obtain ⟨fs, s, hloop, hlevel⟩ := loop_spec g
  have hids : s.ids = fs.flatten := by rw [hlevel.ids, List.append_nil]
  have hsections : s.sections = fs.map List.length := by
    rw [hlevel.sections, if_pos rfl, List.append_nil]
  have hsplit : splitSections s.sections s.ids = fs := by
    rw [hsections, hids, splitSections_map_length]
  have hcheck : g.topologicalNodes =
      if s.ids.length ≠ g.numRows then .error .loopDetected else .ok (s.ids, s.sections) := by
    rw [Digraph.topologicalNodes, hloop]
    show (if s.numVisited ≠ g.numRows then _ else _) = _
    rw [hlevel.numVisited]
  refine ⟨s, hloop, hlevel.nodup, hlevel.lt, ?_, ?_, ?_, ?_⟩
  · rw [hsplit, hids]
  · intro u v i j hedge hu hv
    rw [hsplit] at hu hv
    exact hlevel.lt_of_edge hedge hu hv
  · rw [hcheck, hlevel.cyclic_iff]
    by_cases hlen : s.ids.length ≠ g.numRows
    · rw [if_pos hlen]
      exact ⟨fun _ => hlen, fun _ => rfl⟩
    · rw [if_neg hlen]
      exact ⟨fun h => (by cases h), fun h => absurd h hlen⟩
  · intro hnone
    rw [hcheck, if_neg fun hlen => hnone (hlevel.cyclic_iff.2 hlen)]

end DglAscend.Traversal
