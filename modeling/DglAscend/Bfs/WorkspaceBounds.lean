import DglAscend.Bfs.Workspace

/-!
# What the kernel writes into its buffers

Every write lies below the cursor of its buffer.  The cursor of `frNodes` ends at the number of
sources, with their repetitions, plus the number of nodes that are discovered, while the region has
room for the nodes of the graph.
-/

namespace DglAscend.Bfs

variable {g : Args} {isEdge : Bool} {s : State} {e layer : ℤ}

/-! ## The layout -/

/-- **One layout** for the host and the kernel. -/
lemma hostLayout_eq (coreMax : ℕ) : g.hostLayout isEdge coreMax = g.kernelLayout isEdge coreMax := rfl

lemma pairwise_zip_tail {l : List ℕ} (h : l.Pairwise (· ≤ ·)) :
    (l.zip l.tail).Pairwise fun r r' => r.2 ≤ r'.1 := by
  induction l with
  | nil => exact List.Pairwise.nil
  | cons a l ih =>
      obtain ⟨-, hl⟩ := List.pairwise_cons.1 h
      cases l with
      | nil => exact List.Pairwise.nil
      | cons b l =>
          refine List.pairwise_cons.2 ⟨fun r hr => ?_, ih hl⟩
          rcases List.mem_cons.1 (List.of_mem_zip hr).1 with hb | hmem
          · exact hb.ge
          · exact (List.pairwise_cons.1 hl).1 _ hmem

/-- **The regions do not overlap**: each one ends before the later ones start. -/
lemma regions_pairwise (coreMax : ℕ) :
    (g.hostLayout isEdge coreMax).regions.Pairwise fun r r' => r.2 ≤ r'.1 := by
  apply pairwise_zip_tail
  rw [← List.isChain_iff_pairwise]
  simp [BfsWs.offsets, Args.hostLayout, hsWorkspaceLayout]

/-! ## The log of the writes -/

/-- The cells that were written so far; `k` cells of `frNodes`. -/
structure Logged (g : Args) (isEdge : Bool) (k : ℕ) (s : State) : Prop where
  visTag : ∀ i, (Buffer.visTag, i) ∈ s.writes → g.InRange i
  ids : ∀ i, (Buffer.ids, i) ∈ s.writes → 0 ≤ i ∧ i < s.t
  sections : ∀ i, (Buffer.sections, i) ∈ s.writes → 0 ≤ i ∧ i < s.secIdx
  frNodes : ∀ i, (Buffer.frNodes, i) ∈ s.writes ↔ isEdge = true ∧ 0 ≤ i ∧ i < k

variable {k : ℕ}

/-- Only the buffers, the cursors and the log matter. -/
lemma Logged.congr {s' : State} (h : Logged g isEdge k s) (ht : s'.t = s.t)
    (hidx : s'.secIdx = s.secIdx) (hwrites : s'.writes = s.writes) : Logged g isEdge k s' := by
  obtain ⟨hvis, hids, hsec, hfr⟩ := h
  exact ⟨by rwa [hwrites], by rwa [hwrites, ht], by rwa [hwrites, hidx], by rwa [hwrites]⟩

/-- **One edge.** -/
lemma Logged.edge (h : Logged g isEdge (s.frTotal + s.w) s) (e : ℤ) :
    Logged g isEdge ((visitEdge g isEdge layer s e).frTotal + (visitEdge g isEdge layer s e).w)
      (visitEdge g isEdge layer s e) := by
  by_cases hin : g.InRange (g.indices e)
  · by_cases hzero : s.visTag (g.indices e) = 0
    · have hstep : visitEdge g isEdge layer s e = { visitEdge g isEdge layer s e with
          t := s.t + 1
          secIdx := s.secIdx
          frTotal := s.frTotal
          w := s.w + 1
          writes := s.writes ++ ((Buffer.visTag, g.indices e) :: (Buffer.ids, (s.t : ℤ)) ::
            if isEdge then [(Buffer.frNodes, ((s.frTotal + s.w : ℕ) : ℤ))] else []) } := by
        rw [visitEdge, if_neg (not_not.2 hin), if_pos hzero]
        cases isEdge <;> simp [State.wrVis, State.setId, State.setFrNode]
      obtain ⟨hvis, hids, hsec, hfr⟩ := h
      rw [hstep]
      refine ⟨fun i hi => ?_, fun i hi => ?_, fun i hi => ?_, fun i => ?_⟩
      · simp only [List.mem_append, List.mem_cons, Prod.mk.injEq] at hi
        rcases hi with hi | ⟨-, rfl⟩ | ⟨hi, -⟩ | hi
        · exact hvis i hi
        · exact hin
        · exact absurd hi (by decide)
        · cases isEdge <;> simp at hi
      · simp only [List.mem_append, List.mem_cons, Prod.mk.injEq] at hi
        rcases hi with hi | ⟨hi, -⟩ | ⟨-, rfl⟩ | hi
        · have := hids i hi
          push_cast
          omega
        · exact absurd hi (by decide)
        · push_cast
          omega
        · cases isEdge <;> simp at hi
      · simp only [List.mem_append, List.mem_cons, Prod.mk.injEq] at hi
        rcases hi with hi | ⟨hi, -⟩ | ⟨hi, -⟩ | hi
        · exact hsec i hi
        · exact absurd hi (by decide)
        · exact absurd hi (by decide)
        · cases isEdge <;> simp at hi
      · simp only [List.mem_append, List.mem_cons, Prod.mk.injEq, reduceCtorEq, false_and, false_or,
          hfr i]
        cases isEdge
        · simp
        · simp only [if_true, List.mem_singleton, Prod.mk.injEq, true_and]
          push_cast
          omega
    · rw [visitEdge, if_neg (not_not.2 hin), if_neg hzero]
      exact h
  · rw [visitEdge, if_pos hin]
    exact h.congr rfl rfl rfl

lemma Logged.edges (h : Logged g isEdge (s.frTotal + s.w) s) (es : List ℤ) :
    Logged g isEdge ((es.foldl (visitEdge g isEdge layer) s).frTotal +
      (es.foldl (visitEdge g isEdge layer) s).w) (es.foldl (visitEdge g isEdge layer) s) := by
  induction es generalizing s with
  | nil => exact h
  | cons e es ih => exact ih (h.edge e)

/-- **One level.** -/
lemma Logged.level (h : Logged g isEdge s.frTotal s) (layer : ℤ) (frontStart frontLen : ℕ) :
    Logged g isEdge ((visitLevel g isEdge layer frontStart frontLen s).frTotal +
      (visitLevel g isEdge layer frontStart frontLen s).w)
      (visitLevel g isEdge layer frontStart frontLen s) := by
  have hsteps (is : List ℕ) (s : State) (h : Logged g isEdge (s.frTotal + s.w) s) :
      Logged g isEdge ((is.foldl (visitNode g isEdge layer frontStart) s).frTotal +
        (is.foldl (visitNode g isEdge layer frontStart) s).w)
        (is.foldl (visitNode g isEdge layer frontStart) s) := by
    induction is generalizing s with
    | nil => exact h
    | cons i is ih =>
        apply ih
        rw [visitNode]
        split_ifs
        · exact h.edges _
        · exact h
  exact hsteps _ _ (h.congr rfl rfl rfl)

lemma Logged.closeLevel (h : Logged g isEdge k s) : Logged g isEdge k (closeLevel s) := by
  unfold Bfs.closeLevel
  by_cases hw : 0 < s.w
  · rw [if_pos hw]
    obtain ⟨hvis, hids, hsec, hfr⟩ := h
    refine ⟨fun i hi => ?_, fun i hi => ?_, fun i hi => ?_, fun i => ?_⟩
    · exact hvis i (by simpa [State.setSection] using hi)
    · exact hids i (by simpa [State.setSection] using hi)
    · simp only [State.setSection, List.mem_append, List.mem_singleton, Prod.mk.injEq, true_and] at hi
      rcases hi with hi | rfl
      · have := hsec i hi
        push_cast
        omega
      · push_cast
        omega
    · rw [← hfr i]
      simp [State.setSection]
  · rwa [if_neg hw]

/-- **All levels.** -/
lemma Logged.levels (h : Logged g isEdge s.frTotal s) (n frontStart frontLen : ℕ) :
    Logged g isEdge (visitLevels g isEdge n layer frontStart frontLen s).1.frTotal
      (visitLevels g isEdge n layer frontStart frontLen s).1 := by
  induction n generalizing s layer frontStart frontLen with
  | zero => exact h
  | succ n ih =>
      rw [visitLevels]
      by_cases hlen : frontLen = 0
      · rw [if_pos hlen]
        exact h
      · have hlevel := (h.level layer frontStart frontLen).closeLevel
        rw [if_neg hlen]
        apply ih
        show Logged g isEdge ((Bfs.closeLevel (visitLevel g isEdge layer frontStart frontLen s)).frTotal +
          (Bfs.closeLevel (visitLevel g isEdge layer frontStart frontLen s)).w) _
        rw [closeLevel_frTotal, closeLevel_w]
        exact hlevel.congr rfl rfl rfl

/-! ## Before the levels -/

lemma Logged.wrVis (h : Logged g isEdge k s) {v : ℤ} (hv : g.InRange v) (x : ℤ) :
    Logged g isEdge k (s.wrVis v x) := by
  obtain ⟨hvis, hids, hsec, hfr⟩ := h
  refine ⟨fun i hi => ?_, fun i hi => ?_, fun i hi => ?_, fun i => ?_⟩
  · simp only [State.wrVis, List.mem_append, List.mem_singleton, Prod.mk.injEq, true_and] at hi
    rcases hi with hi | rfl
    · exact hvis i hi
    · exact hv
  · exact hids i (by simpa [State.wrVis] using hi)
  · exact hsec i (by simpa [State.wrVis] using hi)
  · rw [← hfr i]
    simp [State.wrVis]

lemma Logged.clearVisTag (h : Logged g isEdge k s) : Logged g isEdge k (clearVisTag g s) := by
  have hsteps (is : List ℕ) (his : ∀ i ∈ is, i < g.numRows) (s : State) (h : Logged g isEdge k s) :
      Logged g isEdge k (is.foldl (fun s (i : ℕ) => s.wrVis i 0) s) := by
    induction is generalizing s with
    | nil => exact h
    | cons i is ih =>
        apply ih fun j hj => his j (List.mem_cons_of_mem _ hj)
        have hi := his i List.mem_cons_self
        exact h.wrVis ⟨by omega, by exact_mod_cast hi⟩ 0
  exact hsteps _ (fun i hi => List.mem_range.1 hi) s h

lemma Logged.markSources (h : Logged g isEdge k s) : Logged g isEdge k (markSources g s) := by
  unfold Bfs.markSources
  generalize g.source = us
  induction us generalizing s with
  | nil => exact h
  | cons u us ih =>
      apply ih
      rw [markSource]
      split_ifs with hu
      · exact h.wrVis hu 1
      · exact h.congr rfl rfl rfl

/-- A loop that sets the items of a buffer one after the other. -/
lemma mem_writes_foldl {b : Buffer} {set : State → ℕ → State}
    (hset : ∀ s i, (set s i).writes = s.writes ++ [(b, (i : ℤ))]) (n : ℕ) (s : State)
    (p : Buffer × ℤ) :
    p ∈ ((List.range n).foldl set s).writes ↔ p ∈ s.writes ∨ ∃ i < n, p = (b, (i : ℤ)) := by
  induction n with
  | zero => simp
  | succ n ih =>
      rw [List.range_succ, List.foldl_append, List.foldl_cons, List.foldl_nil, hset, List.mem_append,
        ih, List.mem_singleton, or_assoc]
      simp only [Nat.lt_succ_iff_lt_or_eq, or_and_right, exists_or, exists_eq_left]

lemma Logged.storeSources (h : Logged g isEdge 0 s) (ht : s.t = 0) (hidx : s.secIdx = 0)
    (hfr : s.frTotal = 0) :
    Logged g isEdge (storeSources g isEdge s).frTotal (storeSources g isEdge s) := by
  obtain ⟨hvis, hids, hsec, hfrNodes⟩ := h
  by_cases hsource : g.source = []
  · have hstore : Bfs.storeSources g isEdge s = s := by rw [Bfs.storeSources, if_pos hsource]
    rw [hstore, hfr]
    exact ⟨hvis, hids, hsec, hfrNodes⟩
  · cases isEdge with
    | true =>
        have hwrites (p : Buffer × ℤ) : p ∈ (Bfs.storeSources g true s).writes ↔
            p ∈ s.writes ∨ ∃ i < g.source.length, p = (Buffer.frNodes, (i : ℤ)) := by
          rw [Bfs.storeSources, if_neg hsource, if_pos rfl]
          exact mem_writes_foldl (fun _ _ => rfl) _ _ _
        have hcursors : (Bfs.storeSources g true s).t = s.t ∧
            (Bfs.storeSources g true s).secIdx = s.secIdx ∧
            (Bfs.storeSources g true s).frTotal = g.source.length := by
          rw [Bfs.storeSources, if_neg hsource, if_pos rfl, foldl_setFrNode]
          exact ⟨rfl, rfl, rfl⟩
        obtain ⟨ht', hidx', hfr'⟩ := hcursors
        refine ⟨fun i hi => ?_, fun i hi => ?_, fun i hi => ?_, fun i => ?_⟩
        · have hold := (hwrites _).1 hi
          simp only [Prod.mk.injEq, reduceCtorEq, false_and, and_false, exists_false, or_false] at hold
          exact hvis i hold
        · have hold := (hwrites _).1 hi
          simp only [Prod.mk.injEq, reduceCtorEq, false_and, and_false, exists_false, or_false] at hold
          rw [ht']
          exact hids i hold
        · have hold := (hwrites _).1 hi
          simp only [Prod.mk.injEq, reduceCtorEq, false_and, and_false, exists_false, or_false] at hold
          rw [hidx']
          exact hsec i hold
        · rw [hwrites, hfrNodes i, hfr']
          simp only [Prod.mk.injEq, true_and]
          constructor
          · rintro (⟨h1, h2⟩ | ⟨j, hj, rfl⟩)
            · omega
            · omega
          · rintro ⟨h1, h2⟩
            exact Or.inr ⟨i.toNat, by omega, by omega⟩
    | false =>
        have hwrites (p : Buffer × ℤ) : p ∈ (Bfs.storeSources g false s).writes ↔
            (p ∈ s.writes ∨ ∃ i < g.source.length, p = (Buffer.ids, (i : ℤ))) ∨
              p = (Buffer.sections, 0) := by
          rw [Bfs.storeSources, if_neg hsource, if_neg Bool.false_ne_true]
          show p ∈ _ ++ [_] ↔ _
          rw [List.mem_append, mem_writes_foldl (fun _ _ => rfl), List.mem_singleton, foldl_setId]
          simp [hidx]
        have hcursors : (Bfs.storeSources g false s).t = g.source.length ∧
            (Bfs.storeSources g false s).secIdx = 1 := by
          rw [Bfs.storeSources, if_neg hsource, if_neg Bool.false_ne_true, foldl_setId]
          exact ⟨rfl, congrArg (· + 1) hidx⟩
        obtain ⟨ht', hidx'⟩ := hcursors
        refine ⟨fun i hi => ?_, fun i hi => ?_, fun i hi => ?_, fun i => ?_⟩
        · have hold := (hwrites _).1 hi
          simp only [Prod.mk.injEq, reduceCtorEq, false_and, and_false, exists_false, or_false] at hold
          exact hvis i hold
        · have hold := (hwrites _).1 hi
          simp only [Prod.mk.injEq, reduceCtorEq, false_and, true_and, or_false] at hold
          rw [ht']
          rcases hold with hold | ⟨j, hj, rfl⟩
          · have := hids i hold
            omega
          · omega
        · have hold := (hwrites _).1 hi
          simp only [Prod.mk.injEq, reduceCtorEq, false_and, and_false, exists_false, or_false,
            true_and] at hold
          rw [hidx']
          rcases hold with hold | rfl
          · have := hsec i hold
            omega
          · omega
        · rw [hwrites, hfrNodes i]
          simp

/-- **The whole kernel.** -/
theorem logged_processSerial (visTag : ℤ → ℤ) (ids sections frNodes : ℕ → ℤ) :
    Logged g isEdge (processSerial g isEdge (initState visTag ids sections frNodes)).1.frTotal
      (processSerial g isEdge (initState visTag ids sections frNodes)).1 := by
  set s₀ := initState visTag ids sections frNodes with hs₀
  have hinit : Logged g isEdge 0 s₀ :=
    ⟨fun i hi => absurd hi List.not_mem_nil, fun i hi => absurd hi List.not_mem_nil,
      fun i hi => absurd hi List.not_mem_nil, fun i => ⟨fun hi => absurd hi List.not_mem_nil,
        fun hi => by omega⟩⟩
  have hcheck : Logged g isEdge 0 (checkIndptr g s₀) := by
    rw [checkIndptr_eq]
    exact hinit.congr rfl rfl rfl
  obtain ⟨hclear, hzero⟩ := clearVisTag_spec (g := g) (checkIndptr g s₀)
  obtain ⟨hmark, -, -⟩ := markSources_spec hzero
  have hstored := hcheck.clearVisTag.markSources.storeSources
    (by rw [hmark, hclear, checkIndptr_eq]; rfl) (by rw [hmark, hclear, checkIndptr_eq]; rfl)
    (by rw [hmark, hclear, checkIndptr_eq]; rfl)
  exact hstored.levels _ _ _

end DglAscend.Bfs
