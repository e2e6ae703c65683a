import DglAscend.Bfs.Kernel
import DglAscend.Lib.Levels

/-!
# The levels of the kernel

One level of the kernel discovers what one level of a traversal discovers, in the same order, and
flags the edges that leave the graph.  So the whole loop writes the levels of the traversal one
after the other.
-/

namespace DglAscend.Bfs

namespace Args

variable {g : Args} {u v : ℤ}

/-- The edges that the kernel goes over for a node of the frontier. -/
def edgesOf (g : Args) (u : ℤ) : List ℤ := if g.InRange u then g.rowEdges u else []

/-- The edges to nodes. -/
def out (g : Args) (u : ℤ) : List ℤ := (g.edgesOf u).filter fun e => g.InRange (g.indices e)

lemma chunk_pos : 0 < g.chunk := by
  unfold chunk
  split_ifs <;> decide

lemma offsets_eq {chunk : ℕ} (hchunk : 0 < chunk) (deg : ℕ) : offsets chunk deg = List.range deg := by
  have hwindows (n : ℕ) : ((List.range n).flatMap fun k =>
      List.range' (k * chunk) (min (deg - k * chunk) chunk)) = List.range (min deg (n * chunk)) := by
    induction n with
    | zero => simp
    | succ n ih =>
        rw [List.range_succ, List.flatMap_append, List.flatMap_singleton, ih, Nat.succ_mul]
        by_cases hn : n * chunk ≤ deg
        · have happ := List.range'_append_1 (s := 0) (m := n * chunk) (n := min (deg - n * chunk) chunk)
          rw [Nat.zero_add] at happ
          rw [min_eq_right hn, List.range_eq_range', happ, List.range_eq_range']
          congr 1
          omega
        · rw [min_eq_left (by omega), show deg - n * chunk = 0 by omega,
            Nat.zero_min, List.range'_zero, List.append_nil, min_eq_left (by omega)]
  rw [offsets, hwindows, min_eq_left]
  have hdiv := Nat.div_add_mod (deg + chunk - 1) chunk
  have hmod := Nat.mod_lt (deg + chunk - 1) hchunk
  rw [Nat.mul_comm] at hdiv
  omega

lemma rowEdges_eq : g.rowEdges u = (List.range (g.degree u)).map fun off : ℕ => g.indptr u + off := by
  rw [rowEdges, offsets_eq chunk_pos]

lemma mem_rowEdges {e : ℤ} : e ∈ g.rowEdges u ↔ g.indptr u ≤ e ∧ e < g.indptr (u + 1) := by
  rw [rowEdges_eq, List.mem_map]
  simp only [List.mem_range, degree]
  constructor
  · rintro ⟨off, hoff, rfl⟩
    omega
  · rintro ⟨h1, h2⟩
    exact ⟨(e - g.indptr u).toNat, by omega, by omega⟩

lemma mem_out {e : ℤ} : e ∈ g.out u ↔ e ∈ g.edgesOf u ∧ g.InRange (g.indices e) := by
  rw [out, List.mem_filter, decide_eq_true_eq]

lemma toInt32_of_inRange (hrows : g.numRows < 2 ^ 31) (hv : g.InRange v) : toInt32 v = v := by
  obtain ⟨h1, h2⟩ := hv
  exact Int.bmod_eq_of_le (by omega) (by omega)

lemma toId_of_inRange (hrows : g.numRows < 2 ^ 31) (hv : g.InRange v) : g.toId v = v := by
  obtain ⟨h1, h2⟩ := hv
  unfold toId
  split_ifs
  · exact Int.bmod_eq_of_le (by omega) (by omega)
  · exact toInt32_of_inRange hrows ⟨h1, h2⟩

/-- What is written to `ids` for an edge that is discovered. -/
def output (g : Args) (isEdge : Bool) (e : ℤ) : ℤ := if isEdge then g.rdEid e else g.indices e

end Args

lemma map_range_update (f : ℕ → ℤ) (n : ℕ) (x : ℤ) :
    (List.range (n + 1)).map (Function.update f n x) = (List.range n).map f ++ [x] := by
  rw [List.range_succ, List.map_append, List.map_singleton, Function.update_self]
  congr 1
  apply List.map_congr_left
  intro i hi
  exact Function.update_of_ne (List.mem_range.1 hi).ne _ _

variable {g : Args} {isEdge : Bool} {seen frontier raw : List ℤ} {s₀ s : State} {e layer : ℤ}

/-- What a level has done after the edges `raw`. -/
structure Expanded (g : Args) (isEdge : Bool) (seen : List ℤ) (s₀ : State) (raw : List ℤ)
    (new : List ℤ) (s : State) : Prop where
  new_eq : new = discover g.indices seen (raw.filter fun e => g.InRange (g.indices e))
  visTag : ∀ v, g.InRange v → (s.visTag v ≠ 0 ↔ v ∈ seen ++ new.map g.indices)
  w : s.w = new.length
  t : s.t = s₀.t + new.length
  ids : (List.range s.t).map s.ids = (List.range s₀.t).map s₀.ids ++ new.map (g.output isEdge)
  frNodes : isEdge = true → (List.range (s₀.frTotal + s.w)).map s.frNodes =
    (List.range s₀.frTotal).map s₀.frNodes ++ new.map g.indices
  frTotal : s.frTotal = s₀.frTotal
  sections : s.sections = s₀.sections
  secIdx : s.secIdx = s₀.secIdx
  errflag : s.errflag ≠ 0 ↔ s₀.errflag ≠ 0 ∨ ∃ e ∈ raw, ¬g.InRange (g.indices e)

/-- The state after an edge to a node that was not visited. -/
lemma visitEdge_new (hrows : g.numRows < 2 ^ 31) (hin : g.InRange (g.indices e))
    (hzero : s.visTag (g.indices e) = 0) :
    visitEdge g isEdge layer s e =
      { s with
        visTag := Function.update s.visTag (g.indices e) (layer + 1)
        ids := Function.update s.ids s.t (g.output isEdge e)
        frNodes := if isEdge then Function.update s.frNodes (s.frTotal + s.w) (g.indices e)
          else s.frNodes
        t := s.t + 1
        w := s.w + 1
        writes := (visitEdge g isEdge layer s e).writes } := by
  unfold visitEdge
  rw [if_neg (not_not.2 hin), if_pos hzero, Args.output, Args.toInt32_of_inRange hrows hin,
    Args.toId_of_inRange hrows hin]
  cases isEdge <;> rfl

variable {new : List ℤ}

/-- **One edge.** -/
theorem Expanded.edge (h : Expanded g isEdge seen s₀ raw new s) (hrows : g.numRows < 2 ^ 31)
    (hlayer : layer + 1 ≠ 0) (e : ℤ) :
    ∃ new', Expanded g isEdge seen s₀ (raw ++ [e]) new' (visitEdge g isEdge layer s e) := by
  obtain ⟨hnew, hvis, hw, ht, hids, hfr, hfrTotal, hsec, hidx, herr⟩ := h
  by_cases hin : g.InRange (g.indices e)
  · have hfilter : (raw ++ [e]).filter (fun e => g.InRange (g.indices e)) =
        raw.filter (fun e => g.InRange (g.indices e)) ++ [e] := by
      rw [List.filter_append]
      simp [hin]
    have herr' : s.errflag ≠ 0 ↔ s₀.errflag ≠ 0 ∨ ∃ e' ∈ raw ++ [e], ¬g.InRange (g.indices e') := by
      rw [herr]
      simp [or_and_right, exists_or, hin]
    by_cases hzero : s.visTag (g.indices e) = 0
    · -- A new node.
      have hfresh : g.indices e ∉ seen ++ new.map g.indices := fun hmem =>
        (hvis _ hin).2 hmem hzero
      rw [visitEdge_new hrows hin hzero]
      refine ⟨new ++ [e], ?_, fun v hv => ?_, ?_, ?_, ?_, fun hedge => ?_, hfrTotal, hsec, hidx,
        herr'⟩
      · rw [hfilter, discover_concat, ← hnew, if_neg hfresh]
      · rw [List.map_append, ← List.append_assoc, List.mem_append, ← hvis v hv]
        by_cases hve : v = g.indices e
        · simp [hve, hlayer]
        · simp [hve]
      · rw [List.length_append, hw, List.length_singleton]
      · rw [List.length_append, ht, List.length_singleton, Nat.add_assoc]
      · show (List.range (s.t + 1)).map _ = _
        rw [map_range_update, hids, List.map_append, List.append_assoc]
        rfl
      · show (List.range (s₀.frTotal + (s.w + 1))).map _ = _
        rw [if_pos hedge, hfrTotal, ← Nat.add_assoc, map_range_update, hfr hedge, List.map_append,
          List.append_assoc]
        rfl
    · -- A node that was visited.
      have hmem := (hvis _ hin).1 hzero
      have hsame : visitEdge g isEdge layer s e = s := by
        rw [visitEdge, if_neg (not_not.2 hin), if_neg hzero]
      rw [hsame]
      refine ⟨new, ?_, hvis, hw, ht, hids, hfr, hfrTotal, hsec, hidx, herr'⟩
      rw [hfilter, discover_concat, ← hnew, if_pos hmem, List.append_nil]
  · -- An edge that leaves the graph.
    have herror : visitEdge g isEdge layer s e = s.setErr 4 := by
      rw [visitEdge, if_pos hin]
    rw [herror]
    refine ⟨new, ?_, hvis, hw, ht, hids, hfr, hfrTotal, hsec, hidx, ?_⟩
    · rw [List.filter_append, hnew]
      simp [hin]
    · have hleft : (s.setErr 4).errflag ≠ 0 := Nat.succ_ne_zero 3
      have hright : ∃ e' ∈ raw ++ [e], ¬g.InRange (g.indices e') :=
        ⟨e, List.mem_append_right _ List.mem_cons_self, hin⟩
      exact ⟨fun _ => Or.inr hright, fun _ => hleft⟩

/-- **The edges of a row.** -/
lemma Expanded.edges (h : Expanded g isEdge seen s₀ raw new s) (hrows : g.numRows < 2 ^ 31)
    (hlayer : layer + 1 ≠ 0) (es : List ℤ) :
    ∃ new', Expanded g isEdge seen s₀ (raw ++ es) new' (es.foldl (visitEdge g isEdge layer) s) := by
  induction es generalizing raw new s with
  | nil => exact ⟨new, by rwa [List.append_nil]⟩
  | cons e es ih =>
      obtain ⟨new', h'⟩ := h.edge hrows hlayer e
      rw [List.foldl_cons, List.append_cons]
      exact ih h'

/-- Nodes that lie in a buffer from `frontStart` on. -/
structure Window (isEdge : Bool) (s : State) (frontStart : ℕ) (frontier : List ℤ) : Prop where
  size : frontStart + frontier.length = if isEdge then s.frTotal else s.t
  read : ∀ i (hi : i < frontier.length), s.readNode isEdge (frontStart + i) = frontier[i]

lemma Expanded.readNode_eq (h : Expanded g isEdge seen s₀ raw new s) {i : ℕ}
    (hi : i < if isEdge then s₀.frTotal else s₀.t) :
    s.readNode isEdge i = s₀.readNode isEdge i := by
  have happend {f f₀ : ℕ → ℤ} {n n₀ : ℕ} {xs : List ℤ} (hn : n₀ ≤ n) (hin : i < n₀)
      (heq : (List.range n).map f = (List.range n₀).map f₀ ++ xs) : f i = f₀ i := by
    have hget := congrArg (fun l : List ℤ => l[i]?) heq
    rw [List.getElem?_append_left (by simpa using hin), List.getElem?_map, List.getElem?_map,
      List.getElem?_range hin, List.getElem?_range (hin.trans_le hn)] at hget
    exact Option.some.inj hget
  unfold State.readNode
  cases isEdge with
  | true => exact happend (Nat.le_add_right _ _) hi (h.frNodes rfl)
  | false => exact happend (h.t ▸ Nat.le_add_right _ _) hi h.ids

/-- **One level.** -/
theorem visitLevel_expanded (hrows : g.numRows < 2 ^ 31) (hlayer : layer + 1 ≠ 0) {frontStart : ℕ}
    (hseen : ∀ v, g.InRange v → (s.visTag v ≠ 0 ↔ v ∈ seen))
    (hwindow : Window isEdge s frontStart frontier) :
    ∃ new, Expanded g isEdge seen s (frontier.flatMap g.edgesOf) new
      (visitLevel g isEdge layer frontStart frontier.length s) := by
  unfold visitLevel
  suffices hsteps : ∀ n ≤ frontier.length, ∃ new,
      Expanded g isEdge seen s ((frontier.take n).flatMap g.edgesOf) new
        ((List.range n).foldl (visitNode g isEdge layer frontStart) { s with w := 0 }) by
    have hall := hsteps frontier.length (le_refl _)
    rwa [List.take_length] at hall
  intro n hn
  induction n with
  | zero =>
      refine ⟨[], rfl, fun v hv => ?_, rfl, rfl, ?_, fun _ => ?_, rfl, rfl, rfl, ?_⟩
      · rw [List.map_nil, List.append_nil]
        exact hseen v hv
      · rw [List.map_nil, List.append_nil]
        rfl
      · rw [List.map_nil, List.append_nil]
        rfl
      · simp
  | succ n ih =>
      obtain ⟨new, h⟩ := ih (by omega)
      have hread : ((List.range n).foldl (visitNode g isEdge layer frontStart)
          { s with w := 0 }).readNode isEdge (frontStart + n) = frontier[n] := by
        rw [h.readNode_eq (hwindow.size ▸ by omega), hwindow.read n hn]
      rw [List.range_succ, List.foldl_append, List.foldl_cons, List.foldl_nil, visitNode, hread,
        List.take_succ_eq_append_getElem hn, List.flatMap_append, List.flatMap_singleton,
        Args.edgesOf]
      by_cases hin : g.InRange frontier[n]
      · rw [if_pos hin, if_pos hin]
        exact h.edges hrows hlayer _
      · rw [if_neg hin, if_neg hin, List.append_nil]
        exact ⟨new, h⟩

/-! ## All levels -/

/-- The edges that the kernel considers are those to nodes. -/
lemma filter_edgesOf :
    (frontier.flatMap g.edgesOf).filter (fun e => g.InRange (g.indices e)) =
      frontier.flatMap g.out := by
  rw [List.filter_flatMap]
  rfl

/-- The sections of some levels. -/
def sectionsOf (ls : List (List ℤ)) : List ℤ :=
  (ls.filter fun l => l ≠ []).map fun l => (l.length : ℤ)

/-- What the loop has done when it ends. -/
structure Traversed (g : Args) (isEdge : Bool) (n : ℕ) (seen frontier : List ℤ) (s s' : State) :
    Prop where
  idsOut : s'.idsOut = s.idsOut ++
    (levels g.indices g.out n seen frontier).flatten.map (g.output isEdge)
  sectionsOut : s'.sectionsOut = s.sectionsOut ++
    sectionsOf (levels g.indices g.out n seen frontier)
  frTotal : s'.frTotal = s.frTotal + (levels g.indices g.out n seen frontier).flatten.length
  errflag : s'.errflag ≠ 0 ↔ s.errflag ≠ 0 ∨ ∃ u ∈ expanded g.indices g.out n seen frontier,
    ∃ e ∈ g.edgesOf u, ¬g.InRange (g.indices e)

lemma sectionsOut_closeLevel : (closeLevel s).sectionsOut =
    s.sectionsOut ++ if 0 < s.w then [(s.w : ℤ)] else [] := by
  unfold closeLevel
  by_cases hw : 0 < s.w
  · rw [if_pos hw, if_pos hw]
    exact map_range_update _ _ _
  · rw [if_neg hw, if_neg hw, List.append_nil]

/-! Closing a level writes sections only. -/

@[simp] lemma closeLevel_errflag : (closeLevel s).errflag = s.errflag := by
  unfold closeLevel
  split_ifs <;> rfl

@[simp] lemma closeLevel_visTag : (closeLevel s).visTag = s.visTag := by
  unfold closeLevel
  split_ifs <;> rfl

@[simp] lemma closeLevel_ids : (closeLevel s).ids = s.ids := by
  unfold closeLevel
  split_ifs <;> rfl

@[simp] lemma closeLevel_frNodes : (closeLevel s).frNodes = s.frNodes := by
  unfold closeLevel
  split_ifs <;> rfl

@[simp] lemma closeLevel_t : (closeLevel s).t = s.t := by
  unfold closeLevel
  split_ifs <;> rfl

@[simp] lemma closeLevel_frTotal : (closeLevel s).frTotal = s.frTotal := by
  unfold closeLevel
  split_ifs <;> rfl

@[simp] lemma closeLevel_w : (closeLevel s).w = s.w := by
  unfold closeLevel
  split_ifs <;> rfl

lemma Expanded.window (h : Expanded g isEdge seen s₀ raw new s) {s' : State} (hids : s'.ids = s.ids)
    (hfr : s'.frNodes = s.frNodes) (ht : s'.t = s.t) (hfrTotal : s'.frTotal = s.frTotal + s.w) :
    Window isEdge s' (if isEdge then s₀.frTotal else s.t - s.w) (new.map g.indices) := by
  have hlast {f f₀ : ℕ → ℤ} {n₀ i : ℕ} {xs : List ℤ} (hi : i < xs.length)
      (heq : (List.range (n₀ + xs.length)).map f = (List.range n₀).map f₀ ++ xs) :
      f (n₀ + i) = xs[i] := by
    have hget := congrArg (fun l : List ℤ => l[n₀ + i]?) heq
    have hlen : ((List.range n₀).map f₀).length = n₀ := by
      rw [List.length_map, List.length_range]
    have hright : ((List.range n₀).map f₀ ++ xs)[n₀ + i]? =
        xs[n₀ + i - ((List.range n₀).map f₀).length]? := List.getElem?_append_right (by omega)
    rw [hlen, Nat.add_sub_cancel_left] at hright
    rw [hright, List.getElem?_map, List.getElem?_range (by omega), List.getElem?_eq_getElem hi] at hget
    exact Option.some.inj hget
  cases isEdge with
  | true =>
      refine ⟨?_, fun i hi => ?_⟩
      · show s₀.frTotal + (new.map g.indices).length = s'.frTotal
        rw [hfrTotal, h.frTotal, h.w, List.length_map]
      · show s'.frNodes (s₀.frTotal + i) = _
        rw [hfr]
        apply hlast hi
        rw [List.length_map, ← h.w]
        exact h.frNodes rfl
  | false =>
      have hstart : s.t - s.w = s₀.t := by
        rw [h.t, h.w, Nat.add_sub_cancel]
      refine ⟨?_, fun i hi => ?_⟩
      · show s.t - s.w + (new.map g.indices).length = s'.t
        rw [hstart, ht, h.t, List.length_map]
      · show s'.ids (s.t - s.w + i) = _
        rw [hids, hstart]
        apply hlast hi
        rw [List.length_map, ← h.t]
        exact h.ids

/-- **The loop over the levels.** -/
theorem visitLevels_traversed (hrows : g.numRows < 2 ^ 31) {n : ℕ} (hlayer : 0 ≤ layer)
    {frontStart : ℕ} (hseen : ∀ v, g.InRange v → (s.visTag v ≠ 0 ↔ v ∈ seen))
    (hwindow : Window isEdge s frontStart frontier) :
    Traversed g isEdge n seen frontier s
        (visitLevels g isEdge n layer frontStart frontier.length s).1 ∧
      (visitLevels g isEdge n layer frontStart frontier.length s).2 =
        (rest g.indices g.out n seen frontier).length := by
  induction n generalizing s seen frontier layer frontStart with
  | zero =>
      refine ⟨⟨?_, ?_, rfl, ?_⟩, rfl⟩
      · rw [levels, List.flatten_nil, List.map_nil, List.append_nil]
        rfl
      · rw [levels]
        exact (List.append_nil _).symm
      · simp [visitLevels, expanded]
  | succ n ih =>
      by_cases hf : frontier = []
      · subst hf
        refine ⟨⟨?_, ?_, rfl, ?_⟩, rfl⟩
        · simp [visitLevels, levels]
        · simp [visitLevels, levels, sectionsOf]
        · simp [visitLevels, expanded]
      · have hlen : frontier.length ≠ 0 := fun h => hf (List.length_eq_zero_iff.1 h)
        obtain ⟨new, h⟩ := visitLevel_expanded hrows (by omega : layer + 1 ≠ 0) hseen hwindow
        have hnew : new = discover g.indices seen (frontier.flatMap g.out) := by
          rw [h.new_eq, filter_edgesOf]
        set s₁ := visitLevel g isEdge layer frontStart frontier.length s with hs₁
        set s₂ : State := { closeLevel s₁ with
          frTotal := (closeLevel s₁).frTotal + (closeLevel s₁).w } with hs₂
        have hstep : visitLevels g isEdge (n + 1) layer frontStart frontier.length s =
            visitLevels g isEdge n (layer + 1)
              (if isEdge then s.frTotal else s₁.t - s₁.w) (new.map g.indices).length s₂ := by
          rw [visitLevels, if_neg hlen, ← hs₁, List.length_map, ← h.w]
          simp only [closeLevel_t, closeLevel_w, hs₂]
        have hwindow₂ : Window isEdge s₂ (if isEdge then s.frTotal else s₁.t - s₁.w)
            (new.map g.indices) := by
          apply h.window
          · exact closeLevel_ids
          · exact closeLevel_frNodes
          · exact closeLevel_t
          · show (closeLevel s₁).frTotal + (closeLevel s₁).w = _
            rw [closeLevel_frTotal, closeLevel_w]
        have hseen₂ : ∀ v, g.InRange v → (s₂.visTag v ≠ 0 ↔ v ∈ seen ++ new.map g.indices) := by
          have hvis : s₂.visTag = s₁.visTag := closeLevel_visTag
          rw [hvis]
          exact h.visTag
        obtain ⟨⟨hids, hsections, hfrTotal, herr⟩, hrest⟩ :=
          ih (by omega : 0 ≤ layer + 1) hseen₂ hwindow₂
        have hlevels : levels g.indices g.out (n + 1) seen frontier = new ::
            levels g.indices g.out n (seen ++ new.map g.indices) (new.map g.indices) := by
          rw [levels, if_neg hf, hnew]
        have hexpanded : expanded g.indices g.out (n + 1) seen frontier = frontier ++
            expanded g.indices g.out n (seen ++ new.map g.indices) (new.map g.indices) := by
          rw [expanded, if_neg hf, hnew]
        have hrest' : rest g.indices g.out (n + 1) seen frontier =
            rest g.indices g.out n (seen ++ new.map g.indices) (new.map g.indices) := by
          rw [rest, if_neg hf, hnew]
        rw [hstep, hrest']
        refine ⟨⟨?_, ?_, ?_, ?_⟩, hrest⟩
        · have hids₂ : s₂.idsOut = s.idsOut ++ new.map (g.output isEdge) := by
            show (List.range (closeLevel s₁).t).map (closeLevel s₁).ids = _
            rw [closeLevel_t, closeLevel_ids]
            exact h.ids
          rw [hids, hids₂, hlevels, List.flatten_cons, List.map_append, List.append_assoc]
        · have hsections₁ : s₁.sectionsOut = s.sectionsOut := by
            rw [State.sectionsOut, h.sections, h.secIdx]
            rfl
          have hsections₂ : s₂.sectionsOut = s.sectionsOut ++ sectionsOf [new] := by
            show (closeLevel s₁).sectionsOut = _
            rw [sectionsOut_closeLevel, hsections₁, h.w, sectionsOf]
            by_cases hempty : new = []
            · simp [hempty]
            · simp [hempty, List.length_pos_iff]
          rw [hsections, hsections₂, hlevels, List.append_assoc, sectionsOf, sectionsOf, sectionsOf,
            ← List.map_append, ← List.filter_append]
          rfl
        · have hfrTotal₂ : s₂.frTotal = s.frTotal + new.length := by
            show (closeLevel s₁).frTotal + (closeLevel s₁).w = _
            rw [closeLevel_frTotal, closeLevel_w, h.frTotal, h.w]
          rw [hfrTotal, hfrTotal₂, hlevels, List.flatten_cons, List.length_append, Nat.add_assoc]
        · have herr₂ : s₂.errflag = s₁.errflag := closeLevel_errflag
          have hraw : (∃ e ∈ frontier.flatMap g.edgesOf, ¬g.InRange (g.indices e)) ↔
              ∃ u ∈ frontier, ∃ e ∈ g.edgesOf u, ¬g.InRange (g.indices e) := by
            constructor
            · rintro ⟨e, he, hout⟩
              obtain ⟨u, hu, he⟩ := List.mem_flatMap.1 he
              exact ⟨u, hu, e, he, hout⟩
            · rintro ⟨u, hu, e, he, hout⟩
              exact ⟨e, List.mem_flatMap.2 ⟨u, hu, he⟩, hout⟩
          rw [herr, herr₂, h.errflag, hraw, hexpanded, or_assoc]
          simp only [List.mem_append, or_and_right, exists_or]

end DglAscend.Bfs
