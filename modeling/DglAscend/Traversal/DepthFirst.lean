import Mathlib.Algebra.BigOperators.Group.Finset.Basic
import Mathlib.Logic.Relation
import DglAscend.Aten.SparseMatrix
import DglAscend.Lib.Loops

/-!
# Depth-first search

`DFSLabeledEdges` of `array/cpu/traversal.h`.  A stack holds, for every node on the way down, the edge
that is looked at; the edges are emitted with their tags.
-/

namespace DglAscend.Traversal

open Aten

/-- `DFSEdgeTag` -/
inductive DfsEdgeTag
  | forward
  | reverse
  | nonTree
  deriving DecidableEq, Repr

/-- `StackEntry` -/
structure StackEntry where
  node : ℕ
  idx : ℕ
  onTree : Bool

/-- The stack, from the top down, the visited nodes, and the places of the edges that were emitted. -/
structure Dfs where
  stack : List StackEntry
  visited : Finset ℕ
  events : List (ℕ × DfsEdgeTag)

/-- Why the search fails. -/
inductive DfsError
  | outOfRange
  | notEnded
  deriving DecidableEq

/-! ## The search -/

section Search

variable (g : CSRMatrix)

/-- The node that the edge at a place leads to. -/
def target (p : ℕ) : ℕ := g.indices.getD p 0

/-- The place of the edge that is looked at. -/
def StackEntry.place (f : StackEntry) : ℕ := g.ptr f.node + f.idx

/-- The next edge of the node goes on the stack, if there is one. -/
def pushNext (f : StackEntry) (stack : List StackEntry) : List StackEntry :=
  if f.place g + 1 < g.ptr (f.node + 1) then ⟨f.node, f.idx + 1, false⟩ :: stack else stack

/-- The first edge of a node goes on the stack, if there is one. -/
def expand (v : ℕ) (stack : List StackEntry) : List StackEntry :=
  if g.ptr v < g.ptr (v + 1) then ⟨v, 0, false⟩ :: stack else stack

/-- What is emitted for an edge to a visited node. -/
def backEvents (hasReverse hasNontree : Bool) (f : StackEntry) : List (ℕ × DfsEdgeTag) :=
  if !f.onTree && hasNontree then [(f.place g, .nonTree)]
  else if f.onTree && hasReverse then [(f.place g, .reverse)]
  else []

/-- The body of the loop. -/
def dfsStep (hasReverse hasNontree : Bool) (s : Dfs) : Dfs :=
  match s.stack with
  | [] => s
  | f :: rest =>
    if target g (f.place g) ∈ s.visited then
      ⟨pushNext g f rest, s.visited, s.events ++ backEvents g hasReverse hasNontree f⟩
    else
      ⟨expand g (target g (f.place g)) (⟨f.node, f.idx, true⟩ :: rest),
        insert (target g (f.place g)) s.visited, s.events ++ [(f.place g, .forward)]⟩

/-- `DFSLabeledEdges`: the ids of the edges with their tags. -/
def dfsLabeledEdges (source : ℕ) (hasReverse hasNontree : Bool) (fuel : ℕ) :
    Except DfsError (List (ℕ × DfsEdgeTag)) :=
  if g.numRows < source then .error .outOfRange
  else if g.ptr (source + 1) - g.ptr source = 0 then .ok []
  else
    match whileLoop (fun s => !s.stack.isEmpty) (dfsStep g hasReverse hasNontree) fuel
        ⟨[⟨source, 0, false⟩], {source}, []⟩ with
    | .error _ => .error .notEnded
    | .ok s => .ok (s.events.map fun e => (idAt g.data e.1, e.2))

end Search

/-! ## What the labels are -/

/-- There is an edge. -/
def Edge (g : CSRMatrix) (u v : ℕ) : Prop := ∃ e ∈ g.entries, e.1 = u ∧ e.2.1 = v

/-- Nodes that paths lead to. -/
def Reachable (g : CSRMatrix) : ℕ → ℕ → Prop := Relation.ReflTransGen (Edge g)

/-- The edge was emitted as a forward edge. -/
def IsForward (out : List (ℕ × DfsEdgeTag)) (e : Entry) : Prop := (e.2.2, .forward) ∈ out

/-- The forward edges whose reverse is still to come, the last one first; `none` if a reverse edge
does not belong to the last one. -/
def openEdges : List ℕ → List (ℕ × DfsEdgeTag) → Option (List ℕ)
  | opened, [] => some opened
  | opened, (p, .forward) :: out => openEdges (p :: opened) out
  | opened, (_, .nonTree) :: out => openEdges opened out
  | [], (_, .reverse) :: _ => none
  | q :: opened, (p, .reverse) :: out => if q = p then openEdges opened out else none

/-- Every edge that leaves a reachable node has its label, the reverse edges close the forward edges
like brackets, and the forward edges are a spanning tree of the reachable nodes. -/
structure Labels (g : CSRMatrix) (source : ℕ) (out : List (ℕ × DfsEdgeTag)) : Prop where
  leaves : ∀ x ∈ out, ∃ e ∈ g.entries, e.2.2 = x.1 ∧ Reachable g source e.1
  once : ∀ e ∈ g.entries, Reachable g source e.1 →
    out.count (e.2.2, .forward) + out.count (e.2.2, .nonTree) = 1
  reverse : ∀ e ∈ g.entries, out.count (e.2.2, .reverse) = out.count (e.2.2, .forward)
  nested : openEdges [] out = some []
  parent : ∀ v, Reachable g source v → v ≠ source →
    ∃! e, e ∈ g.entries ∧ IsForward out e ∧ e.2.1 = v
  root : ∀ e ∈ g.entries, IsForward out e → e.2.1 ≠ source
  spans : ∀ v, Reachable g source v →
    Relation.ReflTransGen (fun u v => ∃ e ∈ g.entries, IsForward out e ∧ e.1 = u ∧ e.2.1 = v) source v

/-! ## The state of the search -/

/-- The edge at a place of a node was emitted on the way down. -/
def Done (g : CSRMatrix) (s : Dfs) (u p : ℕ) : Prop :=
  u ∈ s.visited ∧ ∀ f ∈ s.stack, f.node = u → p < f.place g ∨ p = f.place g ∧ f.onTree = true

/-- The places of the forward edges. -/
def forwards (events : List (ℕ × DfsEdgeTag)) : List ℕ :=
  (events.filter fun e => e.2 = .forward).map Prod.fst

/-- How often an edge was emitted on the way down. -/
def labelled (events : List (ℕ × DfsEdgeTag)) (p : ℕ) : ℕ :=
  events.count (p, .forward) + events.count (p, .nonTree)

/-- Between two steps. -/
structure Searching (g : CSRMatrix) (source : ℕ) (s : Dfs) : Prop where
  nodes : (s.stack.map StackEntry.node).Nodup
  seen : ∀ f ∈ s.stack, f.node ∈ s.visited
  places : ∀ f ∈ s.stack, f.place g ∈ g.places f.node
  lt : ∀ v ∈ s.visited, v < g.numRows
  leaves : ∀ x ∈ s.events, ∃ u ∈ s.visited, x.1 ∈ g.places u
  reaches : ∀ u p, p ∈ g.places u → Done g s u p → target g p ∈ s.visited
  done : ∀ u < g.numRows, ∀ p ∈ g.places u, Done g s u p → labelled s.events p = 1
  undone : ∀ u < g.numRows, ∀ p ∈ g.places u, ¬Done g s u p → labelled s.events p = 0
  order : (source :: (forwards s.events).map (target g)).Nodup
  visited : s.visited = (source :: (forwards s.events).map (target g)).toFinset
  spans : ∀ v ∈ s.visited, Relation.ReflTransGen
    (fun u v => ∃ p ∈ g.places u, (p, .forward) ∈ s.events ∧ target g p = v) source v
  opened : openEdges [] s.events = some ((s.stack.filter StackEntry.onTree).map (StackEntry.place g))

/-! ## Brackets and counts -/

lemma openEdges_append (opened : List ℕ) (xs ys : List (ℕ × DfsEdgeTag)) :
    openEdges opened (xs ++ ys) = (openEdges opened xs).bind fun opened => openEdges opened ys := by
  induction xs generalizing opened with
  | nil => rfl
  | cons x xs ih =>
      obtain ⟨p, tag⟩ := x
      cases tag with
      | forward => exact ih _
      | nonTree => exact ih _
      | reverse =>
          cases opened with
          | nil => rfl
          | cons q opened =>
              rw [List.cons_append, openEdges, openEdges]
              split
              · exact ih _
              · rfl

variable {out : List (ℕ × DfsEdgeTag)}

/-- Brackets stay brackets under other names. -/
lemma openEdges_map (f : ℕ → ℕ) {opened opened' : List ℕ}
    (h : openEdges opened out = some opened') :
    openEdges (opened.map f) (out.map fun e => (f e.1, e.2)) = some (opened'.map f) := by
  induction out generalizing opened with
  | nil => rw [Option.some.inj h]; rfl
  | cons x out ih =>
      obtain ⟨p, tag⟩ := x
      cases tag with
      | forward => exact ih h
      | nonTree => exact ih h
      | reverse =>
          cases opened with
          | nil => cases h
          | cons q opened =>
              rw [openEdges] at h
              split at h
              · rename_i hqp
                show (if f q = f p then _ else _) = _
                rw [if_pos (congrArg f hqp)]
                exact ih h
              · cases h

/-- A forward edge is open or was followed by its reverse. -/
lemma count_reverse {opened opened' : List ℕ} (h : openEdges opened out = some opened') (p : ℕ) :
    out.count (p, .reverse) + opened'.count p = out.count (p, .forward) + opened.count p := by
  induction out generalizing opened with
  | nil => rw [Option.some.inj h]; rfl
  | cons x out ih =>
      obtain ⟨q, tag⟩ := x
      cases tag with
      | forward =>
          have hrest := ih h
          rw [List.count_cons] at hrest
          rw [List.count_cons, List.count_cons]
          by_cases hqp : q = p <;> simp [hqp] at hrest ⊢ <;> omega
      | nonTree =>
          have hrest := ih h
          rw [List.count_cons, List.count_cons]
          simpa using hrest
      | reverse =>
          cases opened with
          | nil => cases h
          | cons q' opened =>
              rw [openEdges] at h
              split at h
              · rename_i hqq
                have hrest := ih h
                rw [List.count_cons, List.count_cons, List.count_cons]
                by_cases hqp : q = p <;> simp [hqp, hqq] at hrest ⊢ <;> omega
              · cases h

variable (events : List (ℕ × DfsEdgeTag))

lemma labelled_append_reverse (p q : ℕ) :
    labelled (events ++ [(p, .reverse)]) q = labelled events q := by
  simp [labelled, List.count_append]

lemma labelled_append {tag : DfsEdgeTag} (htag : tag ≠ .reverse) (p q : ℕ) :
    labelled (events ++ [(p, tag)]) q = labelled events q + if p = q then 1 else 0 := by
  cases tag with
  | reverse => exact absurd rfl htag
  | forward =>
      by_cases hpq : p = q <;> simp [labelled, List.count_append, hpq]
      omega
  | nonTree =>
      by_cases hpq : p = q <;> simp [labelled, List.count_append, hpq]
      omega

/-! ## One step -/

variable {u p : ℕ} {stack : List StackEntry}

section Step

variable {g : CSRMatrix} {source : ℕ} {s : Dfs} {f : StackEntry} {rest : List StackEntry}

lemma dfsStep_visited (hstack : s.stack = f :: rest) (hv : target g (f.place g) ∈ s.visited) :
    dfsStep g true true s = ⟨pushNext g f rest, s.visited,
      s.events ++ [(f.place g, if f.onTree then .reverse else .nonTree)]⟩ := by
  rw [dfsStep, hstack]
  simp only [if_pos hv, backEvents]
  cases f.onTree <;> rfl

lemma dfsStep_new (hstack : s.stack = f :: rest) (hv : target g (f.place g) ∉ s.visited) :
    dfsStep g true true s = ⟨expand g (target g (f.place g)) (⟨f.node, f.idx, true⟩ :: rest),
      insert (target g (f.place g)) s.visited, s.events ++ [(f.place g, .forward)]⟩ := by
  rw [dfsStep, hstack]
  simp only [if_neg hv]

lemma place_first (g : CSRMatrix) (v : ℕ) : StackEntry.place g ⟨v, 0, false⟩ = g.ptr v := Nat.add_zero _

lemma mem_pushNext {e : StackEntry} (he : e ∈ pushNext g f rest) :
    e ∈ rest ∨ e = ⟨f.node, f.idx + 1, false⟩ ∧ f.place g + 1 < g.ptr (f.node + 1) := by
  rw [pushNext] at he
  split at he
  · rename_i hlt
    rcases List.mem_cons.1 he with rfl | he
    · exact .inr ⟨rfl, hlt⟩
    · exact .inl he
  · exact .inl he

lemma mem_expand {v : ℕ} {e : StackEntry} (he : e ∈ expand g v stack) :
    e ∈ stack ∨ e = ⟨v, 0, false⟩ ∧ g.ptr v < g.ptr (v + 1) := by
  rw [expand] at he
  split at he
  · rename_i hlt
    rcases List.mem_cons.1 he with rfl | he
    · exact .inr ⟨rfl, hlt⟩
    · exact .inl he
  · exact .inl he

variable (h : Searching g source s) (hstack : s.stack = f :: rest)
include h hstack

lemma Searching.node_ne {e : StackEntry} (he : e ∈ rest) : e.node ≠ f.node := by
  have hnodes := h.nodes
  rw [hstack, List.map_cons, List.nodup_cons] at hnodes
  exact fun heq => hnodes.1 (heq ▸ List.mem_map_of_mem he)

lemma Searching.place_top : g.ptr f.node ≤ f.place g ∧ f.place g < g.ptr (f.node + 1) := by
  have hplace := List.mem_range'_1.1 (h.places f (hstack ▸ List.mem_cons_self))
  omega

lemma Searching.seen_top : f.node ∈ s.visited := h.seen f (hstack ▸ List.mem_cons_self)

/-- The edges of the node at the top of the stack. -/
lemma Searching.done_top (p : ℕ) :
    Done g s f.node p ↔ p < f.place g ∨ p = f.place g ∧ f.onTree = true := by
  constructor
  · exact fun hdone => hdone.2 f (hstack ▸ List.mem_cons_self) rfl
  · intro hp
    refine ⟨h.seen_top hstack, fun e he heq => ?_⟩
    rw [hstack] at he
    rcases List.mem_cons.1 he with rfl | he
    · exact hp
    · exact absurd heq (h.node_ne hstack he)

lemma Searching.done_visited (hv : target g (f.place g) ∈ s.visited) (hp : p ∈ g.places u) :
    Done g (dfsStep g true true s) u p ↔ Done g s u p ∨ u = f.node ∧ p = f.place g := by
  have hp' := List.mem_range'_1.1 hp
  have htop := h.place_top hstack
  rw [dfsStep_visited hstack hv]
  by_cases hu : u = f.node
  · subst hu
    rw [h.done_top hstack]
    constructor
    · rintro ⟨-, hframes⟩
      by_cases hlt : f.place g + 1 < g.ptr (f.node + 1)
      · have hnext := hframes ⟨f.node, f.idx + 1, false⟩ (by
          show _ ∈ pushNext g f rest
          rw [pushNext, if_pos hlt]
          exact List.mem_cons_self) rfl
        have hplace : f.place g = g.ptr f.node + f.idx := rfl
        simp only [StackEntry.place, Bool.false_eq_true, and_false, or_false] at hnext
        omega
      · omega
    · intro hor
      refine ⟨h.seen_top hstack, fun e he heq => ?_⟩
      rcases mem_pushNext he with he | ⟨rfl, -⟩
      · exact absurd heq (h.node_ne hstack he)
      · refine .inl ?_
        simp only [StackEntry.place] at hor ⊢
        omega
  · have hother : Done g ⟨pushNext g f rest, s.visited,
        s.events ++ [(f.place g, if f.onTree then .reverse else .nonTree)]⟩ u p ↔ Done g s u p := by
      refine and_congr_right fun _ => ⟨fun hframes e he heq => ?_, fun hframes e he heq => ?_⟩
      · rw [hstack] at he
        rcases List.mem_cons.1 he with rfl | he
        · exact absurd heq.symm hu
        · refine hframes e ?_ heq
          show e ∈ pushNext g f rest
          rw [pushNext]
          split
          · exact List.mem_cons_of_mem _ he
          · exact he
      · rcases mem_pushNext he with he | ⟨rfl, -⟩
        · exact hframes e (hstack ▸ List.mem_cons_of_mem _ he) heq
        · exact absurd heq.symm hu
    rw [hother]
    exact ⟨.inl, fun hor => hor.resolve_right fun heq => hu heq.1⟩

/-- An edge to a new node is done, and none of the edges of the node. -/
lemma Searching.done_new (hv : target g (f.place g) ∉ s.visited) (hp : p ∈ g.places u) :
    Done g (dfsStep g true true s) u p ↔ Done g s u p ∨ u = f.node ∧ p = f.place g := by
  have hp' := List.mem_range'_1.1 hp
  have hne : target g (f.place g) ≠ f.node := fun heq => hv (heq ▸ h.seen_top hstack)
  rw [dfsStep_new hstack hv]
  by_cases hu : u = target g (f.place g)
  · have hold : ¬Done g s u p := fun hdone => hv (hu ▸ hdone.1)
    refine ⟨fun hdone => ?_, fun hor => ?_⟩
    · have hlt : g.ptr u < g.ptr (u + 1) := by omega
      have hfirst := hdone.2 ⟨u, 0, false⟩ (by
        show _ ∈ expand g _ _
        rw [expand, ← hu, if_pos hlt]
        exact List.mem_cons_self) rfl
      simp only [StackEntry.place, Bool.false_eq_true, and_false, or_false] at hfirst
      omega
    · rcases hor with hdone | ⟨heq, -⟩
      · exact absurd hdone hold
      · exact absurd (hu.symm.trans heq) hne
  · have hmem : u ∈ insert (target g (f.place g)) s.visited ↔ u ∈ s.visited := by
      rw [Finset.mem_insert, or_iff_right hu]
    have hframe : (∀ e ∈ expand g (target g (f.place g)) (⟨f.node, f.idx, true⟩ :: rest), e.node = u →
        p < e.place g ∨ p = e.place g ∧ e.onTree = true) ↔
          (f.node = u → p < f.place g ∨ p = f.place g) ∧
            ∀ e ∈ rest, e.node = u → p < e.place g ∨ p = e.place g ∧ e.onTree = true := by
      constructor
      · intro hframes
        have hmem (e : StackEntry) (he : e ∈ (⟨f.node, f.idx, true⟩ : StackEntry) :: rest) :
            e ∈ expand g (target g (f.place g)) (⟨f.node, f.idx, true⟩ :: rest) := by
          rw [expand]
          split
          · exact List.mem_cons_of_mem _ he
          · exact he
        refine ⟨fun heq => ?_, fun e he => hframes e (hmem e (List.mem_cons_of_mem _ he))⟩
        have htop := hframes _ (hmem _ List.mem_cons_self) heq
        exact htop.imp_right And.left
      · rintro ⟨htop, hrest⟩ e he heq
        rcases mem_expand he with he | ⟨rfl, -⟩
        · rcases List.mem_cons.1 he with rfl | he
          · exact (htop heq).imp_right fun hp => ⟨hp, rfl⟩
          · exact hrest e he heq
        · exact absurd heq.symm hu
    show u ∈ insert _ s.visited ∧ _ ↔ _
    rw [hmem, hframe]
    by_cases hfu : u = f.node
    · subst hfu
      rw [h.done_top hstack]
      refine ⟨fun hdone => ?_, fun hor => ⟨h.seen_top hstack, fun _ => ?_, fun e he heq => ?_⟩⟩
      · rcases hdone.2.1 rfl with hlt | heq
        · exact .inl (.inl hlt)
        · exact .inr ⟨rfl, heq⟩
      · rcases hor with (hlt | heq) | heq
        · exact .inl hlt
        · exact .inr heq.1
        · exact .inr heq.2
      · exact absurd heq (h.node_ne hstack he)
    · have hold : Done g s u p ↔ u ∈ s.visited ∧
          ∀ e ∈ rest, e.node = u → p < e.place g ∨ p = e.place g ∧ e.onTree = true := by
        rw [Done, hstack, List.forall_mem_cons]
        refine and_congr_right fun _ => ⟨And.right, fun hrest => ⟨fun heq => absurd heq.symm hfu, hrest⟩⟩
      rw [hold]
      refine ⟨fun hdone => .inl ⟨hdone.1, hdone.2.2⟩, fun hor => ?_⟩
      have hdone := hor.resolve_right fun heq => hfu heq.1
      exact ⟨hdone.1, fun heq => absurd heq.symm hfu, hdone.2⟩

/-- The edge at the top is done exactly if it is on the tree. -/
lemma Searching.done_place : Done g s f.node (f.place g) ↔ f.onTree = true := by
  rw [h.done_top hstack]
  exact ⟨fun hor => (hor.resolve_left (Nat.lt_irrefl _)).2, fun htree => .inr ⟨rfl, htree⟩⟩

lemma Searching.place_mem : f.place g ∈ g.places f.node := h.places f (hstack ▸ List.mem_cons_self)

/-- An edge to a new node is not on the tree yet. -/
lemma Searching.not_onTree (hv : target g (f.place g) ∉ s.visited) : f.onTree = false := by
  rw [← Bool.not_eq_true, ← h.done_place hstack]
  exact fun hdone => hv (h.reaches _ _ (h.place_mem hstack) hdone)

/-- The labels after an edge was emitted on the way down. -/
lemma Searching.labels_step (hg : g.Valid) {s' : Dfs} (tag : DfsEdgeTag) (htag : tag ≠ .reverse)
    (htree : f.onTree = false) (hevents : s'.events = s.events ++ [(f.place g, tag)])
    (hdone : ∀ u p, p ∈ g.places u → (Done g s' u p ↔ Done g s u p ∨ u = f.node ∧ p = f.place g)) :
    (∀ u < g.numRows, ∀ p ∈ g.places u, Done g s' u p → labelled s'.events p = 1) ∧
      ∀ u < g.numRows, ∀ p ∈ g.places u, ¬Done g s' u p → labelled s'.events p = 0 := by
  have hnode := h.lt _ (h.seen_top hstack)
  have hfresh : ¬Done g s f.node (f.place g) := by
    rw [h.done_place hstack, htree]
    exact Bool.false_ne_true
  have hrow (u p : ℕ) (hu : u < g.numRows) (hp : p ∈ g.places u) (heq : f.place g = p) : u = f.node :=
    hg.row_unique hu hnode hp (heq ▸ h.place_mem hstack)
  refine ⟨fun u hu p hp hd => ?_, fun u hu p hp hd => ?_⟩
  · rw [hevents, labelled_append _ htag]
    by_cases heq : f.place g = p
    · obtain rfl := hrow u p hu hp heq
      rw [if_pos heq, ← heq, h.undone f.node hu _ (h.place_mem hstack) hfresh]
    · rw [if_neg heq]
      exact h.done u hu p hp (((hdone u p hp).1 hd).resolve_right fun hor => heq hor.2.symm)
  · rw [hdone u p hp] at hd
    rw [hevents, labelled_append _ htag, if_neg fun heq => hd (.inr ⟨hrow u p hu hp heq, heq.symm⟩)]
    exact h.undone u hu p hp fun hold => hd (.inl hold)

omit h hstack in
lemma filter_pushNext : (pushNext g f rest).filter StackEntry.onTree = rest.filter StackEntry.onTree := by
  rw [pushNext]
  split
  · exact List.filter_cons_of_neg Bool.false_ne_true
  · rfl

omit h hstack in
lemma filter_expand (v : ℕ) (stack : List StackEntry) :
    (expand g v stack).filter StackEntry.onTree = stack.filter StackEntry.onTree := by
  rw [expand]
  split
  · exact List.filter_cons_of_neg Bool.false_ne_true
  · rfl

omit h hstack in
lemma forwards_append (p : ℕ) (tag : DfsEdgeTag) :
    forwards (events ++ [(p, tag)]) = forwards events ++ if tag = .forward then [p] else [] := by
  rw [forwards, forwards, List.filter_append, List.map_append]
  cases tag <;> rfl

omit hstack in
lemma Searching.spans_append (x : ℕ × DfsEdgeTag) {v : ℕ} (hv : v ∈ s.visited) :
    Relation.ReflTransGen
      (fun a b => ∃ p ∈ g.places a, (p, .forward) ∈ s.events ++ [x] ∧ target g p = b) source v :=
  Relation.ReflTransGen.mono
    (fun _ _ ⟨p, hp, hin, hto⟩ => ⟨p, hp, List.mem_append_left _ hin, hto⟩) _ _ (h.spans v hv)

/-- An edge to a visited node keeps the search going. -/
lemma Searching.step_visited (hg : g.Valid) (hv : target g (f.place g) ∈ s.visited) :
    Searching g source (dfsStep g true true s) := by
  have hdone (u p : ℕ) (hp : p ∈ g.places u) := h.done_visited hstack hv hp
  have hstep := dfsStep_visited hstack hv
  have hopened := h.opened
  have hnodes := h.nodes
  rw [hstack] at hopened hnodes
  have hlabels : (∀ u < g.numRows, ∀ p ∈ g.places u, Done g (dfsStep g true true s) u p →
      labelled (dfsStep g true true s).events p = 1) ∧ ∀ u < g.numRows, ∀ p ∈ g.places u,
        ¬Done g (dfsStep g true true s) u p → labelled (dfsStep g true true s).events p = 0 := by
    cases htree : f.onTree with
    | false =>
        exact h.labels_step hstack hg .nonTree nofun htree (by rw [hstep, htree]; rfl) hdone
    | true =>
        have hsame (u p : ℕ) (hp : p ∈ g.places u) :
            Done g (dfsStep g true true s) u p ↔ Done g s u p := by
          rw [hdone u p hp]
          refine ⟨fun hor => hor.elim id ?_, .inl⟩
          rintro ⟨rfl, rfl⟩
          exact (h.done_place hstack).2 htree
        have hevents : (dfsStep g true true s).events = s.events ++ [(f.place g, .reverse)] := by
          rw [hstep, htree]
          rfl
        rw [hevents]
        refine ⟨fun u hu p hp hd => ?_, fun u hu p hp hd => ?_⟩
        · rw [labelled_append_reverse]
          exact h.done u hu p hp ((hsame u p hp).1 hd)
        · rw [labelled_append_reverse]
          exact h.undone u hu p hp fun hold => hd ((hsame u p hp).2 hold)
  have hforwards : forwards (dfsStep g true true s).events = forwards s.events := by
    rw [hstep, forwards_append, if_neg, List.append_nil]
    cases f.onTree <;> exact nofun
  rw [hstep] at hdone hlabels hforwards ⊢
  constructor
  case nodes =>
    rw [pushNext]
    split
    · exact hnodes
    · exact (List.nodup_cons.1 hnodes).2
  case seen =>
    intro e he
    rcases mem_pushNext he with he | ⟨rfl, -⟩
    · exact h.seen e (hstack ▸ List.mem_cons_of_mem _ he)
    · show f.node ∈ s.visited
      exact h.seen_top hstack
  case places =>
    intro e he
    rcases mem_pushNext he with he | ⟨rfl, hlt⟩
    · exact h.places e (hstack ▸ List.mem_cons_of_mem _ he)
    · have htop := h.place_top hstack
      have hplace : f.place g = g.ptr f.node + f.idx := rfl
      refine List.mem_range'_1.2 ?_
      simp only [StackEntry.place] at hplace hlt ⊢
      omega
  case lt => exact h.lt
  case leaves =>
    intro x hx
    rcases List.mem_append.1 hx with hx | hx
    · exact h.leaves x hx
    · rw [List.mem_singleton.1 hx]
      exact ⟨f.node, h.seen_top hstack, h.place_mem hstack⟩
  case reaches =>
    intro u p hp hd
    rcases (hdone u p hp).1 hd with hd | ⟨rfl, rfl⟩
    · exact h.reaches u p hp hd
    · exact hv
  case done => exact hlabels.1
  case undone => exact hlabels.2
  case order =>
    rw [hforwards]
    exact h.order
  case visited =>
    rw [hforwards]
    exact h.visited
  case spans =>
    exact fun v hv => h.spans_append _ hv
  case opened =>
    rw [openEdges_append, hopened, filter_pushNext]
    cases htree : f.onTree with
    | false =>
        rw [List.filter_cons_of_neg (by rw [htree]; exact Bool.false_ne_true)]
        rfl
    | true =>
        rw [List.filter_cons_of_pos htree]
        exact if_pos rfl

/-- An edge to a new node keeps the search going. -/
lemma Searching.step_new (hg : g.Valid) (hsquare : g.numCols = g.numRows)
    (hv : target g (f.place g) ∉ s.visited) : Searching g source (dfsStep g true true s) := by
  have hdone (u p : ℕ) (hp : p ∈ g.places u) := h.done_new hstack hv hp
  have hstep := dfsStep_new hstack hv
  have hopened := h.opened
  have hnodes := h.nodes
  have htree := h.not_onTree hstack hv
  have hseen := h.seen
  rw [hstack] at hopened hnodes hseen
  have hlabels := h.labels_step hstack hg .forward nofun htree (by rw [hstep]) hdone
  have hforwards : forwards (dfsStep g true true s).events = forwards s.events ++ [f.place g] := by
    rw [hstep, forwards_append, if_pos rfl]
  have hlt : f.place g < g.nnz := hg.place_lt (h.lt _ (h.seen_top hstack)) (h.place_mem hstack)
  have htarget : target g (f.place g) < g.numRows := by
    rw [← hsquare, target, List.getD_eq_getElem _ _ hlt]
    exact hg.col_lt _ (List.getElem_mem hlt)
  rw [hstep] at hdone hlabels hforwards ⊢
  constructor
  case nodes =>
    rw [expand]
    split
    · refine List.nodup_cons.2 ⟨fun hin => ?_, hnodes⟩
      have hin : target g (f.place g) ∈ (f :: rest).map StackEntry.node := hin
      obtain ⟨e, he, heq⟩ := List.mem_map.1 hin
      exact hv (heq ▸ hseen e he)
    · exact hnodes
  case seen =>
    intro e he
    rcases mem_expand he with he | ⟨rfl, -⟩
    · rcases List.mem_cons.1 he with rfl | he
      · exact Finset.mem_insert_of_mem (show f.node ∈ s.visited from h.seen_top hstack)
      · exact Finset.mem_insert_of_mem (hseen e (List.mem_cons_of_mem _ he))
    · exact Finset.mem_insert_self _ _
  case places =>
    intro e he
    rcases mem_expand he with he | ⟨rfl, hne⟩
    · rcases List.mem_cons.1 he with rfl | he
      · show f.place g ∈ g.places f.node
        exact h.place_mem hstack
      · exact h.places e (hstack ▸ List.mem_cons_of_mem _ he)
    · show StackEntry.place g ⟨target g (f.place g), 0, false⟩ ∈ g.places (target g (f.place g))
      rw [place_first]
      exact List.mem_range'_1.2 ⟨le_rfl, by omega⟩
  case lt =>
    intro v hv
    rcases Finset.mem_insert.1 hv with rfl | hv
    · exact htarget
    · exact h.lt v hv
  case leaves =>
    intro x hx
    rcases List.mem_append.1 hx with hx | hx
    · obtain ⟨u, hu, hp⟩ := h.leaves x hx
      exact ⟨u, Finset.mem_insert_of_mem hu, hp⟩
    · rw [List.mem_singleton.1 hx]
      exact ⟨f.node, Finset.mem_insert_of_mem (h.seen_top hstack), h.place_mem hstack⟩
  case reaches =>
    intro u p hp hd
    rcases (hdone u p hp).1 hd with hd | ⟨rfl, rfl⟩
    · exact Finset.mem_insert_of_mem (h.reaches u p hp hd)
    · exact Finset.mem_insert_self _ _
  case done => exact hlabels.1
  case undone => exact hlabels.2
  case order =>
    rw [hforwards, List.map_append, ← List.cons_append]
    refine List.nodup_append.2 ⟨h.order, List.nodup_singleton _, fun a ha b hb => ?_⟩
    rintro rfl
    rw [List.map_singleton, List.mem_singleton] at hb
    rw [h.visited, List.mem_toFinset, ← hb] at hv
    exact hv ha
  case visited =>
    rw [hforwards, List.map_append, ← List.cons_append, List.toFinset_append, ← h.visited,
      List.map_singleton, List.toFinset_cons, List.toFinset_nil, Finset.union_comm]
    rfl
  case spans =>
    intro v hv
    rcases Finset.mem_insert.1 hv with rfl | hv
    · exact (h.spans_append _ (h.seen_top hstack)).tail ⟨f.place g, h.place_mem hstack,
        List.mem_append_right _ List.mem_cons_self, rfl⟩
    · exact h.spans_append _ hv
  case opened =>
    rw [List.filter_cons_of_neg (by rw [htree]; exact Bool.false_ne_true)] at hopened
    rw [openEdges_append, hopened, filter_expand]
    rfl

omit hstack in
/-- **Every step keeps the search going.** -/
theorem Searching.step (hg : g.Valid) (hsquare : g.numCols = g.numRows) :
    Searching g source (dfsStep g true true s) := by
  cases hstack : s.stack with
  | nil =>
      have hsame : dfsStep g true true s = s := by rw [dfsStep, hstack]
      rwa [hsame]
  | cons f rest =>
      by_cases hv : target g (f.place g) ∈ s.visited
      · exact h.step_visited hstack hg hv
      · exact h.step_new hstack hg hsquare hv

end Step

/-! ## The end of the search -/

/-- What is left to do: two events for every edge that was not looked at. -/
def work (g : CSRMatrix) (s : Dfs) : ℕ :=
  ∑ u ∈ Finset.range g.numRows \ s.visited, 2 * (g.ptr (u + 1) - g.ptr u) +
    (s.stack.map fun f => 2 * (g.ptr (f.node + 1) - f.place g) - f.onTree.toNat).sum

section Run

variable {g : CSRMatrix} {source : ℕ} {s : Dfs}

lemma Searching.work_lt (h : Searching g source s) (hg : g.Valid) (hsquare : g.numCols = g.numRows)
    (hstack : s.stack ≠ []) : work g (dfsStep g true true s) < work g s := by
  obtain ⟨f, rest, hstack⟩ := List.exists_cons_of_ne_nil hstack
  have htop := h.place_top hstack
  by_cases hv : target g (f.place g) ∈ s.visited
  · have htree : f.onTree.toNat ≤ 1 := Bool.toNat_le f.onTree
    have hplace : f.place g = g.ptr f.node + f.idx := rfl
    rw [dfsStep_visited hstack hv, work, work, hstack, pushNext, List.map_cons, List.sum_cons]
    split
    · rw [List.map_cons, List.sum_cons]
      simp only [StackEntry.place, Bool.toNat_false] at hplace htop ⊢
      omega
    · dsimp only
      omega
  · have hlt : f.place g < g.nnz := hg.place_lt (h.lt _ (h.seen_top hstack)) (h.place_mem hstack)
    have htarget : target g (f.place g) < g.numRows := by
      rw [← hsquare, target, List.getD_eq_getElem _ _ hlt]
      exact hg.col_lt _ (List.getElem_mem hlt)
    have hin : target g (f.place g) ∈ Finset.range g.numRows \ s.visited :=
      Finset.mem_sdiff.2 ⟨Finset.mem_range.2 htarget, hv⟩
    have htree := h.not_onTree hstack hv
    rw [dfsStep_new hstack hv, work, work, hstack, Finset.sdiff_insert, ← Finset.add_sum_erase _ _ hin,
      expand, List.map_cons, List.sum_cons, htree]
    split
    · rw [List.map_cons, List.sum_cons, List.map_cons, List.sum_cons, place_first]
      simp only [StackEntry.place, Bool.toNat_false, Bool.toNat_true] at htop ⊢
      omega
    · rw [List.map_cons, List.sum_cons]
      simp only [StackEntry.place, Bool.toNat_false, Bool.toNat_true] at htop ⊢
      omega

/-- The search at its start; without an edge that leaves the source it is at its end. -/
lemma searching_start (hsource : source < g.numRows)
    (hstack : stack = [⟨source, 0, false⟩] ∧ g.ptr source < g.ptr (source + 1) ∨
      stack = [] ∧ g.ptr (source + 1) - g.ptr source = 0) :
    Searching g source ⟨stack, {source}, []⟩ := by
  have hframe (f : StackEntry) (hf : f ∈ stack) :
      f = ⟨source, 0, false⟩ ∧ g.ptr source < g.ptr (source + 1) := by
    rcases hstack with ⟨rfl, hlt⟩ | ⟨rfl, -⟩
    · exact ⟨List.mem_singleton.1 hf, hlt⟩
    · exact absurd hf List.not_mem_nil
  have hdone (u p : ℕ) (hp : p ∈ g.places u) : ¬Done g ⟨stack, {source}, []⟩ u p := by
    rintro ⟨hu, hframes⟩
    obtain rfl : u = source := Finset.mem_singleton.1 hu
    have hp := List.mem_range'_1.1 hp
    rcases hstack with ⟨rfl, -⟩ | ⟨-, hempty⟩
    · have hfirst := hframes ⟨u, 0, false⟩ List.mem_cons_self rfl
      rw [place_first] at hfirst
      rcases hfirst with hlt | ⟨-, htree⟩
      · omega
      · cases htree
    · omega
  constructor
  case nodes => rcases hstack with ⟨rfl, -⟩ | ⟨rfl, -⟩ <;> simp
  case seen =>
    intro f hf
    rw [(hframe f hf).1]
    exact Finset.mem_singleton_self source
  case places =>
    intro f hf
    obtain ⟨rfl, hlt⟩ := hframe f hf
    rw [place_first]
    exact List.mem_range'_1.2 ⟨le_rfl, by dsimp only; omega⟩
  case lt => exact fun v hv => Finset.mem_singleton.1 hv ▸ hsource
  case leaves => exact nofun
  case reaches => exact fun u p hp hd => absurd hd (hdone u p hp)
  case done => exact fun u _ p hp hd => absurd hd (hdone u p hp)
  case undone => exact fun _ _ _ _ _ => rfl
  case order => exact List.nodup_singleton source
  case visited => rfl
  case spans => exact fun v hv => Finset.mem_singleton.1 hv ▸ .refl
  case opened => rcases hstack with ⟨rfl, -⟩ | ⟨rfl, -⟩ <;> rfl

/-! ## The labels -/

variable {events : List (ℕ × DfsEdgeTag)}

lemma mem_forwards : p ∈ forwards events ↔ (p, .forward) ∈ events := by
  rw [forwards, List.mem_map]
  constructor
  · rintro ⟨⟨q, tag⟩, hin, rfl⟩
    obtain ⟨hin, htag⟩ := List.mem_filter.1 hin
    obtain rfl : tag = .forward := of_decide_eq_true htag
    exact hin
  · exact fun hin => ⟨(p, .forward), List.mem_filter.2 ⟨hin, rfl⟩, rfl⟩

/-- The events with the ids of the edges. -/
def named (g : CSRMatrix) (events : List (ℕ × DfsEdgeTag)) : List (ℕ × DfsEdgeTag) :=
  events.map fun e => (idAt g.data e.1, e.2)

lemma idAt_inj (hg : g.Valid) {p q : ℕ} (hp : p < g.nnz) (hq : q < g.nnz)
    (heq : idAt g.data p = idAt g.data q) : p = q := by
  have hnodup : ((List.range g.nnz).map (idAt g.data)).Nodup :=
    hg.numbers.map_idAt.nodup_iff.2 List.nodup_range
  exact List.inj_on_of_nodup_map hnodup (List.mem_range.2 hp) (List.mem_range.2 hq) heq

lemma count_named (hg : g.Valid) (hevents : ∀ x ∈ events, x.1 < g.nnz) (hp : p < g.nnz)
    (tag : DfsEdgeTag) : (named g events).count (idAt g.data p, tag) = events.count (p, tag) := by
  induction events with
  | nil => rfl
  | cons x events ih =>
      have hx := hevents x List.mem_cons_self
      have hsame : (idAt g.data x.1, x.2) = (idAt g.data p, tag) ↔ x = (p, tag) := by
        rw [Prod.ext_iff, Prod.ext_iff]
        exact and_congr_left fun _ => ⟨idAt_inj hg hx hp, congrArg (idAt g.data)⟩
      rw [named, List.map_cons, List.count_cons, List.count_cons, ← named,
        ih fun y hy => hevents y (List.mem_cons_of_mem _ hy)]
      simp only [beq_iff_eq, hsame]

section End

variable (h : Searching g source s) (hg : g.Valid)
include h hg

lemma Searching.event_lt : ∀ x ∈ s.events, x.1 < g.nnz := by
  intro x hx
  obtain ⟨u, hu, hp⟩ := h.leaves x hx
  exact hg.place_lt (h.lt u hu) hp

omit hg in
lemma Searching.entry_mem (hu : u ∈ s.visited) (hp : p ∈ g.places u) : g.entry u p ∈ g.entries :=
  List.mem_flatMap.2 ⟨u, List.mem_range.2 (h.lt u hu), List.mem_map_of_mem hp⟩

/-- The row of an edge that was emitted was visited. -/
lemma Searching.row_visited {tag : DfsEdgeTag} (hp : p ∈ g.places u) (hin : (p, tag) ∈ s.events) :
    u ∈ s.visited := by
  obtain ⟨v, hv, hp'⟩ := h.leaves _ hin
  have hlt : u < g.numRows := by
    by_contra hge
    have hlast : g.ptr (u + 1) = 0 := List.getD_eq_default _ _ (by rw [hg.indptr_length]; omega)
    have hp := List.mem_range'_1.1 hp
    omega
  rwa [hg.row_unique hlt (h.lt v hv) hp hp']

lemma Searching.isForward {e : Entry} : e ∈ g.entries ∧ IsForward (named g s.events) e ↔
    ∃ u ∈ s.visited, ∃ p ∈ g.places u, (p, .forward) ∈ s.events ∧ g.entry u p = e := by
  constructor
  · rintro ⟨he, hforward⟩
    obtain ⟨u, hu, he⟩ := List.mem_flatMap.1 he
    obtain ⟨p, hp, rfl⟩ := List.mem_map.1 he
    have hu := List.mem_range.1 hu
    obtain ⟨x, hx, heq⟩ := List.mem_map.1 hforward
    obtain ⟨hid, htag⟩ := Prod.ext_iff.1 heq
    obtain ⟨v, hv, hplace⟩ := h.leaves x hx
    obtain rfl : x.1 = p := idAt_inj hg (h.event_lt hg x hx) (hg.place_lt hu hp) hid
    obtain rfl : v = u := hg.row_unique (h.lt v hv) hu hplace hp
    refine ⟨v, hv, x.1, hp, ?_, rfl⟩
    have htag : x.2 = .forward := htag
    rwa [← htag]
  · rintro ⟨u, hu, p, hp, hin, rfl⟩
    exact ⟨h.entry_mem hu hp, List.mem_map.2 ⟨_, hin, rfl⟩⟩

variable (hend : s.stack = [])
include hend

/-- At the end the visited nodes are the reachable ones. -/
lemma Searching.mem_visited {v : ℕ} : v ∈ s.visited ↔ Reachable g source v := by
  have hdone (u : ℕ) (hu : u ∈ s.visited) (p : ℕ) : Done g s u p :=
    ⟨hu, by rw [hend]; exact nofun⟩
  constructor
  · intro hv
    refine Relation.ReflTransGen.mono ?_ _ _ (h.spans v hv)
    rintro a b ⟨p, hp, hin, rfl⟩
    exact ⟨g.entry a p, h.entry_mem (h.row_visited hg hp hin) hp, rfl, rfl⟩
  · intro hv
    induction hv with
    | refl =>
        rw [h.visited]
        exact List.mem_toFinset.2 List.mem_cons_self
    | tail _ hedge ih =>
        obtain ⟨e, he, rfl, rfl⟩ := hedge
        obtain ⟨u, -, he⟩ := List.mem_flatMap.1 he
        obtain ⟨p, hp, rfl⟩ := List.mem_map.1 he
        exact h.reaches u p hp (hdone u ih p)

/-- **At the end every edge has its label.** -/
theorem Searching.labels : Labels g source (named g s.events) where
  leaves x hx := by
    obtain ⟨y, hy, rfl⟩ := List.mem_map.1 hx
    obtain ⟨u, hu, hp⟩ := h.leaves y hy
    exact ⟨g.entry u y.1, h.entry_mem hu hp, rfl, (h.mem_visited hg hend).1 hu⟩
  once e he hreach := by
    obtain ⟨u, hu, he⟩ := List.mem_flatMap.1 he
    obtain ⟨p, hp, rfl⟩ := List.mem_map.1 he
    have hu := List.mem_range.1 hu
    have hlt := hg.place_lt hu hp
    have hdone : Done g s u p := ⟨(h.mem_visited hg hend).2 hreach, by rw [hend]; exact nofun⟩
    show (named g s.events).count (idAt g.data p, _) + (named g s.events).count (idAt g.data p, _) = 1
    rw [count_named hg (h.event_lt hg) hlt, count_named hg (h.event_lt hg) hlt]
    exact h.done u hu p hp hdone
  reverse e he := by
    obtain ⟨u, hu, he⟩ := List.mem_flatMap.1 he
    obtain ⟨p, hp, rfl⟩ := List.mem_map.1 he
    have hlt := hg.place_lt (List.mem_range.1 hu) hp
    have hopened := h.opened
    rw [hend] at hopened
    show (named g s.events).count (idAt g.data p, _) = (named g s.events).count (idAt g.data p, _)
    rw [count_named hg (h.event_lt hg) hlt, count_named hg (h.event_lt hg) hlt]
    exact count_reverse hopened p
  nested := by
    have hopened := h.opened
    rw [hend] at hopened
    exact openEdges_map (idAt g.data) hopened
  parent v hv hne := by
    have hv := (h.mem_visited hg hend).2 hv
    rw [h.visited, List.mem_toFinset] at hv
    obtain ⟨p, hp, rfl⟩ := List.mem_map.1 ((List.mem_cons.1 hv).resolve_left hne)
    obtain ⟨u, hu, hplace⟩ := h.leaves _ (mem_forwards.1 hp)
    obtain ⟨he, hforward⟩ := (h.isForward hg).2 ⟨u, hu, p, hplace, mem_forwards.1 hp, rfl⟩
    refine ⟨g.entry u p, ⟨he, hforward, rfl⟩, ?_⟩
    rintro e ⟨he, hforward, hto⟩
    obtain ⟨u', hu', p', hplace', hin, rfl⟩ := (h.isForward hg).1 ⟨he, hforward⟩
    -- two forward edges to one node would have visited it twice
    obtain rfl : p' = p := List.inj_on_of_nodup_map (List.nodup_cons.1 h.order).2 (mem_forwards.2 hin) hp hto
    obtain rfl := hg.row_unique (h.lt u' hu') (h.lt u hu) hplace' hplace
    rfl
  root e he hforward := by
    obtain ⟨u, hu, p, hplace, hin, rfl⟩ := (h.isForward hg).1 ⟨he, hforward⟩
    intro hto
    refine (List.nodup_cons.1 h.order).1 ?_
    rw [← hto]
    exact List.mem_map_of_mem (mem_forwards.2 hin)
  spans v hv := by
    refine Relation.ReflTransGen.mono ?_ _ _ (h.spans v ((h.mem_visited hg hend).2 hv))
    rintro a b ⟨p, hp, hin, rfl⟩
    obtain ⟨he, hforward⟩ := (h.isForward hg).2 ⟨a, h.row_visited hg hp hin, p, hp, hin, rfl⟩
    exact ⟨g.entry a p, he, hforward, rfl, rfl⟩

end End

/-- **The search labels every edge**: it ends, and its labels are those of a depth-first search. -/
theorem dfsLabeledEdges_labels (g : CSRMatrix) (hg : g.Valid) (hsquare : g.numCols = g.numRows)
    {source : ℕ} (hsource : source < g.numRows) : ∃ steps, ∀ fuel ≥ steps, ∃ out,
      dfsLabeledEdges g source true true fuel = .ok out ∧ Labels g source out := by
  by_cases hempty : g.ptr (source + 1) - g.ptr source = 0
  · refine ⟨0, fun fuel _ => ⟨[], ?_, (searching_start hsource (.inr ⟨rfl, hempty⟩)).labels hg rfl⟩⟩
    rw [dfsLabeledEdges, if_neg (Nat.not_lt.2 hsource.le), if_pos hempty]
  · have hstart := searching_start hsource (.inl ⟨rfl, by omega⟩)
    refine ⟨work g ⟨[⟨source, 0, false⟩], {source}, []⟩ + 1, fun fuel hfuel => ?_⟩
    have hstep (s : Dfs) (hs : Searching g source s) (hgo : (!s.stack.isEmpty) = true) :
        Searching g source (dfsStep g true true s) ∧ work g (dfsStep g true true s) < work g s :=
      ⟨hs.step hg hsquare, hs.work_lt hg hsquare fun hnil => by simp [hnil] at hgo⟩
    obtain ⟨s, hloop, hs, hend⟩ := whileLoop_measure (work g) hstart hstep hfuel
    refine ⟨named g s.events, ?_, hs.labels hg (by simpa using hend)⟩
    rw [dfsLabeledEdges, if_neg (Nat.not_lt.2 hsource.le), if_neg hempty, hloop]
    rfl

end Run

/-- Two nodes with edges both ways and a self loop. -/
def twoNodes : CSRMatrix := ⟨64, 2, 2, [0, 2, 3], [0, 1, 0], [2, 0, 1], false⟩

lemma valid_twoNodes : twoNodes.Valid where
  indptr_length := rfl
  ptr_zero := rfl
  ptr_mono := by decide
  ptr_last := rfl
  col_lt := by decide
  numbers := .inr (by decide)

theorem dfsLabeledEdges_twoNodes : ∃ steps, ∀ fuel ≥ steps, ∃ out,
    dfsLabeledEdges twoNodes 0 true true fuel = .ok out ∧ Labels twoNodes 0 out :=
  dfsLabeledEdges_labels twoNodes valid_twoNodes rfl (by decide)

example : dfsLabeledEdges twoNodes 0 true true 5 =
    .ok [(2, .nonTree), (0, .forward), (1, .nonTree), (0, .reverse)] := by decide

end DglAscend.Traversal
