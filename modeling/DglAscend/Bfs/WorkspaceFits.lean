import DglAscend.Bfs.WorkspaceBounds
import Mathlib.Data.Set.Card

/-!
# Whether the workspace is large enough

The hosts accept every valid graph.  On what they accept, all writes of the kernel are inside the
regions, except that the sources with their repetitions and the nodes that are discovered may be
too many for `frNodes`.
-/

namespace DglAscend.Bfs

variable {g : Args} {isEdge : Bool} {k : State}

/-- The nodes that are reached and are not sources. -/
def Args.NewlyReached (g : Args) : Set ℤ := {v | g.Visited v ∧ v ∉ g.source}

lemma Args.nodup_kernelLevels (g : Args) (isEdge : Bool) :
    ((g.kernelLevels isEdge).flatten.map g.indices).Nodup ∧
      ∀ v ∈ (g.kernelLevels isEdge).flatten.map g.indices, v ∉ g.marked :=
  nodup_levels _ _ _

/-- The kernel discovers the nodes that can be reached and are not sources. -/
lemma ncard_newlyReached (hrows : g.numRows < 2 ^ 31) (hsource : ∀ u ∈ g.source, g.InRange u)
    (isEdge : Bool) : g.NewlyReached.ncard = (g.kernelLevels isEdge).flatten.length := by
  obtain ⟨hnodup, hnew⟩ := g.nodup_kernelLevels isEdge
  have hset : g.NewlyReached = ((g.kernelLevels isEdge).flatten.map g.indices).toFinset := by
    ext v
    have hvisited : v ∈ g.source ++ (g.kernelLevels isEdge).flatten.map g.indices ↔ g.Visited v :=
      Args.mem_visited hrows hsource
    show g.Visited v ∧ v ∉ g.source ↔ _
    rw [← hvisited, Finset.mem_coe, List.mem_toFinset, List.mem_append]
    constructor
    · rintro ⟨hv | hv, hnot⟩
      · exact absurd hv hnot
      · exact hv
    · intro hv
      refine ⟨Or.inr hv, fun hmem => hnew v hv ?_⟩
      rwa [Args.marked_eq hsource]
  rw [hset, Set.ncard_coe_finset, List.toFinset_card_of_nodup hnodup, List.length_map]

/-! ## The hosts accept valid graphs -/

lemma length_sectionsOf_le (ls : List (List ℤ)) : (sectionsOf ls).length ≤ ls.flatten.length := by
  induction ls with
  | nil => exact le_refl _
  | cons l ls ih =>
      rw [List.flatten_cons, List.length_append]
      by_cases hl : l = []
      · simp only [sectionsOf, hl] at ih ⊢
        simpa using ih
      · have hpos := List.length_pos_iff.2 hl
        simp only [sectionsOf, List.length_map] at ih ⊢
        rw [List.filter_cons_of_pos (by simpa using hl), List.length_cons]
        omega

/-- Distinct nodes are discovered through distinct edges. -/
lemma length_kernelLevels_le (hg : g.Valid) (isEdge : Bool) :
    (g.kernelLevels isEdge).flatten.length ≤ g.numRows ∧
      (g.kernelLevels isEdge).flatten.length ≤ g.nnz := by
  obtain ⟨hnodup, -⟩ := g.nodup_kernelLevels isEdge
  have hedge : ∀ e ∈ (g.kernelLevels isEdge).flatten, 0 ≤ e ∧ e < g.nnz := by
    intro e he
    obtain ⟨u, hu⟩ := exists_mem_out he
    obtain ⟨hmem, -⟩ := Args.mem_out.1 hu
    rw [Args.edgesOf] at hmem
    by_cases hin : g.InRange u
    · rw [if_pos hin] at hmem
      exact hg.edge_bounds hin hmem
    · rw [if_neg hin] at hmem
      exact absurd hmem List.not_mem_nil
  constructor
  · have hsub : ((g.kernelLevels isEdge).flatten.map g.indices).toFinset ⊆ g.nodes := by
      intro v hv
      obtain ⟨e, he, rfl⟩ := List.mem_map.1 (List.mem_toFinset.1 hv)
      obtain ⟨h1, h2⟩ := hedge e he
      exact Args.mem_nodes.2 (hg.indices_inRange e h1 h2)
    have hcard := Finset.card_le_card hsub
    rwa [List.toFinset_card_of_nodup hnodup, List.length_map, Args.card_nodes] at hcard
  · have hsub : (g.kernelLevels isEdge).flatten.toFinset ⊆
        (Finset.range g.nnz).image fun i : ℕ => (i : ℤ) := by
      intro e he
      obtain ⟨h1, h2⟩ := hedge e (List.mem_toFinset.1 he)
      exact Finset.mem_image.2 ⟨e.toNat, Finset.mem_range.2 (by omega), by omega⟩
    have hcard := Finset.card_le_card hsub
    rwa [List.toFinset_card_of_nodup (List.Nodup.of_map _ hnodup),
      Finset.card_image_of_injective _ Nat.cast_injective, Finset.card_range] at hcard

/-- **No check fires on a valid graph.** -/
theorem bfsFrontiersAscend_isSome (hg : g.Valid) (isEdge : Bool) (visTag : ℤ → ℤ)
    (ids sections frNodes : ℕ → ℤ) :
    (bfsFrontiersAscend g isEdge (initState visTag ids sections frNodes)).isSome := by
  obtain ⟨hkernel, -⟩ := processSerial_result hg.numRows_lt isEdge visTag ids sections frNodes
  set s := (processSerial g isEdge (initState visTag ids sections frNodes)).1 with hs
  obtain ⟨hnodes, hedges⟩ := length_kernelLevels_le hg isEdge
  have hsec := length_sectionsOf_le (g.kernelLevels isEdge)
  have herr := (sameFrontiers hg isEdge visTag ids sections frNodes).errflag_eq
  have ht : s.t = ((if isEdge then [] else g.source) ++
      (g.kernelLevels isEdge).flatten.map (g.output isEdge)).length := by
    rw [← hkernel.idsOut, State.idsOut, List.length_map, List.length_range]
  have hidx : s.secIdx = ((if isEdge ∨ g.source = [] then [] else [(g.source.length : ℤ)]) ++
      sectionsOf (g.kernelLevels isEdge)).length := by
    rw [← hkernel.sectionsOut, State.sectionsOut, List.length_map, List.length_range]
  have hlenIds : s.t ≤ g.idsLenUb isEdge := by
    rw [ht, Args.idsLenUb, List.length_append, List.length_map]
    cases isEdge
    · exact Nat.add_le_add_left hnodes _
    · simpa using hedges
  have hlenSec : s.secIdx ≤ g.secLenUb isEdge := by
    rw [hidx, Args.secLenUb, List.length_append]
    cases isEdge
    · have hone : (if g.source = [] then [] else [(g.source.length : ℤ)]).length ≤ 1 := by
        by_cases hsource : g.source = []
        · simp [hsource]
        · simp [hsource]
      simp only [Bool.false_eq_true, false_or, if_false]
      omega
    · simp only [true_or, if_true, List.length_nil, Nat.zero_add]
      omega
  have hempty : ¬(g.numRows = 0 ∧ 0 < g.source.length) := by
    rintro ⟨hzero, hpos⟩
    obtain ⟨u, hu⟩ := List.exists_mem_of_length_pos hpos
    obtain ⟨h1, h2⟩ := hg.source_inRange u hu
    omega
  rw [bfsFrontiersAscend, if_neg (not_not.2 ⟨hg.numRows_lt, hg.nnz_lt⟩), if_neg hempty]
  by_cases hlaunch : g.source.length = 0 ∨ g.numRows = 0
  · rw [if_pos hlaunch]
    rfl
  · rw [if_neg hlaunch]
    show (if _ then _ else _ : Option State).isSome
    rw [if_pos ⟨herr, hlenIds, hlenSec⟩]
    rfl

/-- What is accepted: the kernel was not launched, or it reported no error. -/
lemma bfsFrontiersAscend_cases {s : State} (h : bfsFrontiersAscend g isEdge s = some k) :
    (g.source = [] ∧ k = s) ∨
      (g.numRows < 2 ^ 31 ∧ k = (processSerial g isEdge s).1 ∧ k.errflag = 0 ∧
        k.t ≤ g.idsLenUb isEdge ∧ k.secIdx ≤ g.secLenUb isEdge) := by
  by_cases hsize : g.numRows < 2 ^ 31 ∧ g.nnz < 2 ^ 31
  · by_cases hempty : g.numRows = 0 ∧ 0 < g.source.length
    · rw [bfsFrontiersAscend, if_neg (not_not.2 hsize), if_pos hempty] at h
      exact absurd h (by simp)
    · rw [bfsFrontiersAscend, if_neg (not_not.2 hsize), if_neg hempty] at h
      by_cases hlaunch : g.source.length = 0 ∨ g.numRows = 0
      · rw [if_pos hlaunch] at h
        have hzero : g.source.length = 0 := by omega
        exact Or.inl ⟨List.length_eq_zero_iff.1 hzero, (Option.some.inj h).symm⟩
      · rw [if_neg hlaunch] at h
        by_cases hcheck : (processSerial g isEdge s).1.errflag = 0 ∧
            (processSerial g isEdge s).1.t ≤ g.idsLenUb isEdge ∧
            (processSerial g isEdge s).1.secIdx ≤ g.secLenUb isEdge
        · have hk : some (processSerial g isEdge s).1 = some k := by rw [← h, if_pos hcheck]
          obtain rfl := Option.some.inj hk
          exact Or.inr ⟨hsize.1, rfl, hcheck⟩
        · exact absurd (h.symm.trans (if_neg hcheck)) (by simp)
  · rw [bfsFrontiersAscend, if_pos hsize] at h
    exact absurd h (by simp)

/-! ## The writes -/

/-- The cell lies inside its region or output buffer. -/
def Fits (g : Args) (isEdge : Bool) (coreMax : ℕ) : Buffer × ℤ → Prop
  | (.visTag, i) => 0 ≤ i ∧ (g.hostLayout isEdge coreMax).visTag + 4 * i + 4 ≤
      (g.hostLayout isEdge coreMax).syncGm
  | (.ids, i) => 0 ≤ i ∧ i < g.idsLenUb isEdge
  | (.sections, i) => 0 ≤ i ∧ i < g.secLenUb isEdge
  | (.frNodes, i) => 0 ≤ i ∧ (g.hostLayout isEdge coreMax).frNodes + 4 * i + 4 ≤
      (g.hostLayout isEdge coreMax).stgIds

/-- The host and the kernel agree on the layout, its regions are disjoint, and all writes are inside
them. -/
structure WorkspaceFits (g : Args) (isEdge : Bool) (coreMax : ℕ) (k : State) : Prop where
  same_layout : g.hostLayout isEdge coreMax = g.kernelLayout isEdge coreMax
  regions_disjoint : (g.hostLayout isEdge coreMax).regions.Pairwise fun r r' => r.2 ≤ r'.1
  writes_fit : ∀ p ∈ k.writes, Fits g isEdge coreMax p

lemma le_hsAlign (v : ℕ) {a : ℕ} (ha : 0 < a) : v ≤ hsAlign v a := by
  have hdiv := Nat.div_add_mod (v + a - 1) a
  have hmod := Nat.mod_lt (v + a - 1) ha
  rw [Nat.mul_comm] at hdiv
  unfold hsAlign
  omega

lemma fits_frNodes {coreMax : ℕ} {i : ℤ} : Fits g isEdge coreMax (.frNodes, i) ↔
    0 ≤ i ∧ 4 * i + 4 ≤ (hsAlign (g.numRows * 4) wsAlign : ℕ) := by
  have hend : (g.hostLayout isEdge coreMax).stgIds =
      (g.hostLayout isEdge coreMax).frNodes + hsAlign (g.numRows * 4) wsAlign := rfl
  rw [Fits, hend]
  omega

lemma fits_visTag {coreMax : ℕ} {i : ℤ} (hi : g.InRange i) : Fits g isEdge coreMax (.visTag, i) := by
  have halign := le_hsAlign (g.numRows * 4) (by decide : 0 < wsAlign)
  have hstart : (g.hostLayout isEdge coreMax).visTag = 0 := rfl
  have hend : (g.hostLayout isEdge coreMax).syncGm = 0 + hsAlign (g.numRows * 4) wsAlign := rfl
  obtain ⟨h1, h2⟩ := hi
  refine ⟨h1, ?_⟩
  rw [hstart, hend]
  omega

/-- **The kernel stays inside the workspace**, for node frontiers always, and for edge frontiers if
and only if the sources with their repetitions and the nodes that are discovered fit into the room
for the nodes of the graph. -/
theorem workspaceFits_iff (g : Args) (isEdge : Bool) (coreMax : ℕ) (visTag : ℤ → ℤ)
    (ids sections frNodes : ℕ → ℤ) (k : State)
    (h : bfsFrontiersAscend g isEdge (initState visTag ids sections frNodes) = some k) :
    WorkspaceFits g isEdge coreMax k ↔
      (isEdge = true →
        4 * (g.source.length + g.NewlyReached.ncard) ≤ hsAlign (g.numRows * 4) wsAlign) := by
  rcases bfsFrontiersAscend_cases h with ⟨hsource, rfl⟩ | ⟨hrows, rfl, herr, ht, hidx⟩
  · -- Nothing is reached and nothing is written.
    have hnew : g.NewlyReached = ∅ := by
      apply Set.eq_empty_of_forall_notMem
      rintro v ⟨hvisited, -⟩
      apply ReachedFrom.of_closed (s := fun _ => False) (fun u hu => hu.elim)
      exact hvisited.mono fun u hu => by rw [hsource] at hu; exact absurd hu List.not_mem_nil
    rw [hnew, Set.ncard_empty, hsource]
    exact ⟨fun _ _ => Nat.zero_le _, fun _ =>
      ⟨hostLayout_eq _, regions_pairwise _, fun p hp => absurd hp List.not_mem_nil⟩⟩
  · obtain ⟨hkernel, -⟩ := processSerial_result hrows isEdge visTag ids sections frNodes
    have hlogged : Logged g isEdge _ _ := logged_processSerial visTag ids sections frNodes
    set s := (processSerial g isEdge (initState visTag ids sections frNodes)).1 with hs
    have hsource : ∀ u ∈ g.source, g.InRange u := by
      by_contra hnot
      have hbad : ∃ u ∈ g.source, ¬g.InRange u := by
        simpa only [not_forall, exists_prop] using hnot
      exact (hkernel.errflag_iff hrows).2 (Or.inr (Or.inl hbad)) herr
    have hcard := ncard_newlyReached hrows hsource isEdge
    constructor
    · intro hfits hedge
      rw [hcard, ← hkernel.frTotal hedge]
      by_cases hzero : s.frTotal = 0
      · rw [hzero]
        exact Nat.zero_le _
      · -- The last cell of the frontier.
        have hlast := (hlogged.frNodes (s.frTotal - 1)).2 ⟨hedge, by omega, by omega⟩
        obtain ⟨-, hle⟩ := fits_frNodes.1 (hfits.writes_fit _ hlast)
        omega
    · intro hroom
      refine ⟨hostLayout_eq _, regions_pairwise _, ?_⟩
      rintro ⟨buffer, i⟩ hp
      cases buffer with
      | visTag => exact fits_visTag (hlogged.visTag i hp)
      | ids =>
          obtain ⟨h1, h2⟩ := hlogged.ids i hp
          exact ⟨h1, h2.trans_le (by exact_mod_cast ht)⟩
      | sections =>
          obtain ⟨h1, h2⟩ := hlogged.sections i hp
          exact ⟨h1, h2.trans_le (by exact_mod_cast hidx)⟩
      | frNodes =>
          obtain ⟨hedge, h1, h2⟩ := (hlogged.frNodes i).1 hp
          have hle := hroom hedge
          rw [hcard, ← hkernel.frTotal hedge] at hle
          exact fits_frNodes.2 ⟨h1, by omega⟩

theorem workspaceFits_doubleEdge : ∃ k,
    bfsFrontiersAscend doubleEdge true (initState (fun _ => 0) (fun _ => 0) (fun _ => 0)
      (fun _ => 0)) = some k ∧ WorkspaceFits doubleEdge true 20 k := by
  obtain ⟨k, hk⟩ := Option.isSome_iff_exists.1 (bfsFrontiersAscend_isSome valid_doubleEdge true
    (fun _ => 0) (fun _ => 0) (fun _ => 0) (fun _ => 0))
  refine ⟨k, hk, (workspaceFits_iff doubleEdge true 20 _ _ _ _ k hk).2 fun _ => ?_⟩
  have hle := (length_kernelLevels_le valid_doubleEdge true).1
  rw [← ncard_newlyReached valid_doubleEdge.numRows_lt valid_doubleEdge.source_inRange] at hle
  have hrows : doubleEdge.numRows = 2 := rfl
  have hlen : doubleEdge.source.length = 2 := rfl
  have halign : hsAlign (2 * 4) wsAlign = 512 := by decide
  rw [hrows] at hle
  rw [hrows, hlen, halign]
  omega

/-- One node without edges, which is a source 129 times. -/
def repeatedSource : Args where
  wide := false
  numRows := 1
  nnz := 0
  indptr := fun _ => 0
  indices := fun _ => 0
  eid := none
  source := List.replicate 129 0

lemma valid_repeatedSource : repeatedSource.Valid := by
  refine ⟨by decide, by decide, by decide, by decide, by decide, fun e h1 h2 => ?_, fun u hu => ?_⟩
  · exact absurd (h1.trans_lt h2) (lt_irrefl 0)
  · rw [List.eq_of_mem_replicate hu]
    decide

/-- **The frontier is too long** for its region. -/
theorem repeatedSource_overflows :
    ¬∀ (g : Args) (isEdge : Bool) (coreMax : ℕ) (visTag : ℤ → ℤ) (ids sections frNodes : ℕ → ℤ)
      (k : State), bfsFrontiersAscend g isEdge (initState visTag ids sections frNodes) = some k →
        WorkspaceFits g isEdge coreMax k := by
  intro h
  obtain ⟨k, hk⟩ := Option.isSome_iff_exists.1 (bfsFrontiersAscend_isSome valid_repeatedSource true
    (fun _ => 0) (fun _ => 0) (fun _ => 0) (fun _ => 0))
  have hfits := h repeatedSource true 20 _ _ _ _ k hk
  rcases bfsFrontiersAscend_cases hk with ⟨hsource, -⟩ | ⟨hrows, hrun, -⟩
  · exact absurd hsource (by decide)
  · obtain ⟨hkernel, -⟩ := processSerial_result hrows true (fun _ => 0) (fun _ => 0) (fun _ => 0)
      (fun _ => 0)
    have hlogged : Logged repeatedSource true _ _ :=
      logged_processSerial (fun _ => 0) (fun _ => 0) (fun _ => 0) (fun _ => 0)
    have hlen : repeatedSource.source.length = 129 := List.length_replicate
    have hlast := (hlogged.frNodes 128).2
      ⟨rfl, by decide, by rw [hkernel.frTotal rfl, hlen]; push_cast; omega⟩
    rw [← hrun] at hlast
    obtain ⟨-, hle⟩ := fits_frNodes.1 (hfits.writes_fit _ hlast)
    have halign : hsAlign (repeatedSource.numRows * 4) wsAlign = 512 := by decide
    rw [halign] at hle
    exact absurd hle (by decide)

end DglAscend.Bfs
