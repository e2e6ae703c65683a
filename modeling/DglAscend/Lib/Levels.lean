import Mathlib.Tactic

/-!
# Breadth-first traversals by levels

A traversal keeps the nodes that were seen and a frontier.  A level goes over the edges of the
frontier in order, and the edges that reach something new make the next frontier.  With enough fuel
the frontier runs empty, and then everything that can be reached was seen.
-/

namespace DglAscend

variable {α ε : Type*} {s s' : α → Prop}

section Reached

variable (target : ε → α) (out : α → List ε)

/-- The nodes that can be reached from `s`. -/
inductive ReachedFrom (s : α → Prop) : α → Prop
  | start {v : α} (h : s v) : ReachedFrom s v
  | step {u : α} {e : ε} (h : ReachedFrom s u) (he : e ∈ out u) : ReachedFrom s (target e)

variable {target out} {v : α}

lemma ReachedFrom.mono (hs : ∀ v, s v → s' v) (h : ReachedFrom target out s v) :
    ReachedFrom target out s' v := by
  induction h with
  | start h => exact .start (hs _ h)
  | step _ he ih => exact .step ih he

/-- Closed sets have all that can be reached. -/
lemma ReachedFrom.of_closed (hs : ∀ u, s u → ∀ e ∈ out u, s (target e))
    (h : ReachedFrom target out s v) : s v := by
  induction h with
  | start h => exact h
  | step _ he ih => exact hs _ ih _ he

end Reached

variable [DecidableEq α] (target : ε → α) (out : α → List ε)

/-- The edges that reach something new, in order. -/
def discover (seen : List α) : List ε → List ε
  | [] => []
  | e :: es =>
    if target e ∈ seen then discover seen es else e :: discover (seen ++ [target e]) es

/-- The edges that each level discovers. -/
def levels : ℕ → List α → List α → List (List ε)
  | 0, _, _ => []
  | n + 1, seen, frontier =>
    if frontier = [] then []
    else
      let new := discover target seen (frontier.flatMap out)
      new :: levels n (seen ++ new.map target) (new.map target)

/-- The nodes whose edges the levels go over. -/
def expanded : ℕ → List α → List α → List α
  | 0, _, _ => []
  | n + 1, seen, frontier =>
    if frontier = [] then []
    else
      let new := discover target seen (frontier.flatMap out)
      frontier ++ expanded n (seen ++ new.map target) (new.map target)

/-- The frontier that is left without fuel. -/
def rest : ℕ → List α → List α → List α
  | 0, _, frontier => frontier
  | n + 1, seen, frontier =>
    if frontier = [] then []
    else
      let new := discover target seen (frontier.flatMap out)
      rest n (seen ++ new.map target) (new.map target)

variable {target out} {seen frontier : List α} {es es' : List ε} {e : ε} {v : α} {n : ℕ}

/-! ## One level -/

lemma discover_append :
    discover target seen (es ++ es') = discover target seen es ++
      discover target (seen ++ (discover target seen es).map target) es' := by
  induction es generalizing seen with
  | nil => simp [discover]
  | cons e es ih =>
      by_cases he : target e ∈ seen
      · rw [List.cons_append, discover, if_pos he, discover, if_pos he]
        exact ih
      · rw [List.cons_append, discover, if_neg he, discover, if_neg he, ih, List.cons_append,
          List.map_cons, List.append_assoc]
        rfl

lemma discover_concat :
    discover target seen (es ++ [e]) = discover target seen es ++
      if target e ∈ seen ++ (discover target seen es).map target then [] else [e] := by
  rw [discover_append]
  congr 1

/-- What is discovered is new, and discovered once. -/
lemma nodup_discover (target : ε → α) (seen : List α) (es : List ε) :
    ((discover target seen es).map target).Nodup ∧
      ∀ v ∈ (discover target seen es).map target, v ∉ seen := by
  induction es generalizing seen with
  | nil => exact ⟨List.nodup_nil, fun v hv => absurd hv List.not_mem_nil⟩
  | cons e es ih =>
      by_cases he : target e ∈ seen
      · rw [discover, if_pos he]
        exact ih seen
      · obtain ⟨hnodup, hnew⟩ := ih (seen ++ [target e])
        rw [discover, if_neg he, List.map_cons, List.nodup_cons]
        refine ⟨⟨fun hmem => ?_, hnodup⟩, fun v hv => ?_⟩
        · exact hnew _ hmem (List.mem_append_right _ List.mem_cons_self)
        · rcases List.mem_cons.1 hv with rfl | hv
          · exact he
          · exact fun hseen => hnew v hv (List.mem_append_left _ hseen)

/-- Every edge reaches what was seen or is discovered. -/
lemma target_mem (he : e ∈ es) : target e ∈ seen ++ (discover target seen es).map target := by
  obtain ⟨l, r, rfl⟩ := List.append_of_mem he
  rw [List.append_cons, discover_append, List.map_append, ← List.append_assoc]
  apply List.mem_append_left
  rw [discover_concat, List.map_append, ← List.append_assoc]
  by_cases hmem : target e ∈ seen ++ (discover target seen l).map target
  · exact List.mem_append_left _ hmem
  · rw [if_neg hmem]
    exact List.mem_append_right _ List.mem_cons_self

lemma discover_subset : discover target seen es ⊆ es := by
  induction es generalizing seen with
  | nil => exact fun _ h => h
  | cons e es ih =>
      by_cases he : target e ∈ seen
      · rw [discover, if_pos he]
        exact fun x hx => List.mem_cons_of_mem _ (ih hx)
      · rw [discover, if_neg he]
        exact List.cons_subset_cons _ ih

/-! ## All levels -/

/-- All discoveries are new, and discovered once. -/
lemma nodup_levels (n : ℕ) (seen frontier : List α) :
    ((levels target out n seen frontier).flatten.map target).Nodup ∧
      ∀ v ∈ (levels target out n seen frontier).flatten.map target, v ∉ seen := by
  induction n generalizing seen frontier with
  | zero => exact ⟨List.nodup_nil, fun v hv => absurd hv List.not_mem_nil⟩
  | succ n ih =>
      rw [levels]
      by_cases hf : frontier = []
      · rw [if_pos hf]
        exact ⟨List.nodup_nil, fun v hv => absurd hv List.not_mem_nil⟩
      · obtain ⟨hnodup, hnew⟩ := nodup_discover target seen (frontier.flatMap out)
        obtain ⟨hrest, hlater⟩ := ih
          (seen ++ (discover target seen (frontier.flatMap out)).map target)
          ((discover target seen (frontier.flatMap out)).map target)
        rw [if_neg hf, List.flatten_cons, List.map_append]
        refine ⟨List.Nodup.append hnodup hrest fun v hv hv' => ?_, fun v hv => ?_⟩
        · exact hlater v hv' (List.mem_append_right _ hv)
        · rcases List.mem_append.1 hv with hv | hv
          · exact hnew v hv
          · exact fun hseen => hlater v hv (List.mem_append_left _ hseen)

lemma exists_mem_out (he : e ∈ (levels target out n seen frontier).flatten) : ∃ u, e ∈ out u := by
  induction n generalizing seen frontier with
  | zero => exact absurd he List.not_mem_nil
  | succ n ih =>
      rw [levels] at he
      by_cases hf : frontier = []
      · rw [if_pos hf] at he
        exact absurd he List.not_mem_nil
      · rw [if_neg hf, List.flatten_cons] at he
        rcases List.mem_append.1 he with he | he
        · obtain ⟨u, -, he⟩ := List.mem_flatMap.1 (discover_subset he)
          exact ⟨u, he⟩
        · exact ih he

/-- Nothing is discovered but what can be reached. -/
lemma reachedFrom_levels (hf : ∀ v ∈ frontier, ReachedFrom target out s v)
    (hv : v ∈ (levels target out n seen frontier).flatten.map target) :
    ReachedFrom target out s v := by
  induction n generalizing seen frontier with
  | zero => exact absurd hv List.not_mem_nil
  | succ n ih =>
      rw [levels] at hv
      by_cases hempty : frontier = []
      · rw [if_pos hempty] at hv
        exact absurd hv List.not_mem_nil
      · have hnew : ∀ v ∈ (discover target seen (frontier.flatMap out)).map target,
            ReachedFrom target out s v := by
          intro v hv
          obtain ⟨e, he, rfl⟩ := List.mem_map.1 hv
          obtain ⟨u, hu, he⟩ := List.mem_flatMap.1 (discover_subset he)
          exact .step (hf u hu) he
        rw [if_neg hempty, List.flatten_cons, List.map_append] at hv
        rcases List.mem_append.1 hv with hv | hv
        · exact hnew v hv
        · exact ih hnew hv

variable {U : Finset α}

/-- Something new makes the rest of the universe smaller. -/
lemma card_sdiff_lt (hU : ∀ e ∈ es, target e ∈ U) (hnew : discover target seen es ≠ []) :
    (U \ (seen ++ (discover target seen es).map target).toFinset).card <
      (U \ seen.toFinset).card := by
  obtain ⟨e, he⟩ := List.exists_mem_of_ne_nil _ hnew
  have hmem := List.mem_map_of_mem (f := target) he
  apply Finset.card_lt_card
  refine ⟨fun v hv => ?_, fun hsub => ?_⟩
  · rw [Finset.mem_sdiff, List.mem_toFinset] at hv ⊢
    exact ⟨hv.1, fun hseen => hv.2 (List.mem_append_left _ hseen)⟩
  · have hin : target e ∈ U \ seen.toFinset := by
      rw [Finset.mem_sdiff, List.mem_toFinset]
      exact ⟨hU e (discover_subset he), (nodup_discover target seen es).2 _ hmem⟩
    have hout := (Finset.mem_sdiff.1 (hsub hin)).2
    rw [List.mem_toFinset] at hout
    exact hout (List.mem_append_right _ hmem)

section

variable (hU : ∀ u, ∀ e ∈ out u, target e ∈ U)
include hU

lemma fuel_step (hn : (U \ seen.toFinset).card < n + 1 ∨ frontier = []) (hf : frontier ≠ []) :
    (U \ (seen ++ (discover target seen (frontier.flatMap out)).map target).toFinset).card < n ∨
      (discover target seen (frontier.flatMap out)).map target = [] := by
  have hedges : ∀ e ∈ frontier.flatMap out, target e ∈ U := by
    intro e he
    obtain ⟨u, -, he⟩ := List.mem_flatMap.1 he
    exact hU u e he
  have hcard := hn.resolve_right hf
  by_cases hnew : discover target seen (frontier.flatMap out) = []
  · exact Or.inr (by rw [hnew]; rfl)
  · have hlt := card_sdiff_lt hedges hnew
    exact Or.inl (by omega)

section

variable (hn : (U \ seen.toFinset).card < n ∨ frontier = [])
include hn

/-- **Enough fuel**: the levels go over everything that is discovered. -/
theorem expanded_eq : expanded target out n seen frontier =
      frontier ++ (levels target out n seen frontier).flatten.map target := by
  induction n generalizing seen frontier with
  | zero =>
      obtain rfl := hn.resolve_left (Nat.not_lt_zero _)
      rfl
  | succ n ih =>
      rw [expanded, levels]
      by_cases hf : frontier = []
      · rw [if_pos hf, if_pos hf, hf]
        rfl
      · rw [if_neg hf, if_neg hf, List.flatten_cons, List.map_append]
        simp only
        rw [ih (fuel_step hU hn hf)]

/-- **Enough fuel** leaves no frontier. -/
theorem rest_eq_nil : rest target out n seen frontier = [] := by
  induction n generalizing seen frontier with
  | zero => exact hn.resolve_left (Nat.not_lt_zero _)
  | succ n ih =>
      rw [rest]
      by_cases hf : frontier = []
      · rw [if_pos hf]
      · rw [if_neg hf]
        exact ih (fuel_step hU hn hf)

/-- **Everything that can be reached is seen.** -/
theorem seen_of_reachedFrom (hclosed : ∀ u ∈ seen, u ∉ frontier → ∀ e ∈ out u, target e ∈ seen)
    (hv : ReachedFrom target out (· ∈ seen) v) :
    v ∈ seen ++ (levels target out n seen frontier).flatten.map target := by
  induction n generalizing seen frontier with
  | zero =>
      obtain rfl := hn.resolve_left (Nat.not_lt_zero _)
      exact List.mem_append_left _ (hv.of_closed fun u hu => hclosed u hu List.not_mem_nil)
  | succ n ih =>
      rw [levels]
      by_cases hf : frontier = []
      · rw [if_pos hf]
        exact List.mem_append_left _
          (hv.of_closed fun u hu => hclosed u hu (hf ▸ List.not_mem_nil))
      · rw [if_neg hf, List.flatten_cons, List.map_append, ← List.append_assoc]
        apply ih (fuel_step hU hn hf)
        · -- The edges of the old frontier were gone over; the new nodes are the frontier.
          intro u hu hnot e he
          have hseen := (List.mem_append.1 hu).resolve_right hnot
          by_cases hfront : u ∈ frontier
          · exact target_mem (List.mem_flatMap.2 ⟨u, hfront, he⟩)
          · exact List.mem_append_left _ (hclosed u hseen hfront e he)
        · exact hv.mono fun v h => List.mem_append_left _ h

end

end

end DglAscend
