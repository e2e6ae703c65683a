import Mathlib.Logic.Relation
import DglAscend.Ascend.Csr
import DglAscend.Lib.Loops

/-!
# Topological traversal

`TopologicalNodes` of `array/cpu/traversal.h` with the queue and the callback of
`TopologicalNodesFrontiers`.  A node is emitted when the last of its in-edges has been visited; the nodes
that wait in the queue make a frontier.
-/

namespace DglAscend.Traversal

open Ascend

/-- The CSR matrix of a directed graph. -/
structure Digraph extends Csr where
  square : numCols = numRows

namespace Digraph

variable (g : Digraph)

/-- There is an edge. -/
def Edge (u v : ℕ) : Prop := u < g.numRows ∧ v ∈ g.rowCols u

/-- There is a directed cycle. -/
def Cyclic : Prop := ∃ v, Relation.TransGen g.Edge v v

end Digraph

/-- The vector of the queue with its head, the in-degrees that are left, the sections, and
`num_visited_nodes`. -/
structure Topo where
  ids : List ℕ
  head : ℕ
  degrees : ℕ → ℤ
  sections : List ℕ
  numVisited : ℕ

namespace Topo

/-- A node that has no in-edge left is visited and goes to the queue. -/
def emit (s : Topo) (v : ℕ) : Topo :=
  { s with ids := s.ids ++ [v], numVisited := s.numVisited + 1 }

/-- The queue is not empty. -/
def pending (s : Topo) : Bool := s.head ≠ s.ids.length

/-- `make_frontier` -/
def makeFrontier (s : Topo) : Topo :=
  if s.pending then { s with sections := s.sections ++ [s.ids.length - s.head] } else s

/-- `if (--(degrees[v]) == 0)` -/
def visitEdge (s : Topo) (v : ℕ) : Topo :=
  let s := { s with degrees := Function.update s.degrees v (s.degrees v - 1) }
  if s.degrees v = 0 then s.emit v else s

end Topo

/-- Why the traversal fails. -/
inductive TraversalError
  | loopDetected
  | notEnded
  deriving DecidableEq

namespace Digraph

variable (g : Digraph)

/-- A node is taken from the queue. -/
def visitNode (s : Topo) : Topo :=
  (g.rowCols (s.ids.getD s.head 0)).foldl Topo.visitEdge { s with head := s.head + 1 }

/-- The loop over the queue as it is at first, and `make_frontier`. -/
def visitLevel (s : Topo) : Topo := ((g.visitNode)^[s.ids.length - s.head] s).makeFrontier

/-- `degrees` -/
def inDegrees (v : ℕ) : ℤ := (g.indices.count v : ℤ)

/-- The nodes without in-edges. -/
def start : Topo :=
  ((List.range g.numRows).foldl (fun (s : Topo) v => if s.degrees v = 0 then s.emit v else s)
    ⟨[], 0, g.inDegrees, [], 0⟩).makeFrontier

/-- `while (!queue->empty())` -/
def loop : Except Topo Topo := whileLoop Topo.pending g.visitLevel (g.numRows + 1) g.start

/-- `TopologicalNodesFrontiers` -/
def topologicalNodes : Except TraversalError (List ℕ × List ℕ) :=
  match g.loop with
  | .error _ => .error .notEnded
  | .ok s => if s.numVisited ≠ g.numRows then .error .loopDetected else .ok (s.ids, s.sections)

end Digraph

/-- The frontiers, as the sections say. -/
def splitSections : List ℕ → List ℕ → List (List ℕ)
  | [], _ => []
  | n :: ns, ids => ids.take n :: splitSections ns (ids.drop n)

/-! ## Edges -/

variable {g : Digraph} {s : Topo} {v : ℕ} {es : List ℕ}

/-- **A run over edges** emits the nodes of which the last in-edge is among them. -/
theorem foldl_visitEdge (es : List ℕ) (s : Topo) : ∃ new : List ℕ,
    es.foldl Topo.visitEdge s =
        { s with
          ids := s.ids ++ new
          degrees := fun v => s.degrees v - es.count v
          numVisited := s.numVisited + new.length } ∧
      new.Nodup ∧ ∀ v, v ∈ new ↔ 0 < s.degrees v ∧ s.degrees v ≤ es.count v := by
  induction es generalizing s with
  | nil =>
      refine ⟨[], ?_, List.nodup_nil, fun v => ⟨fun h => absurd h List.not_mem_nil, fun h => ?_⟩⟩
      · simp
      · rw [List.count_nil] at h
        omega
  | cons e es ih =>
      have hcount : ∀ v, ((e :: es).count v : ℤ) = es.count v + if e = v then 1 else 0 := by
        intro v
        rw [List.count_cons]
        by_cases hev : e = v <;> simp [hev]
      have hupdate : ∀ v, Function.update s.degrees e (s.degrees e - 1) v =
          s.degrees v - if e = v then 1 else 0 := by
        intro v
        by_cases hev : e = v
        · rw [hev, Function.update_self, if_pos rfl]
        · rw [Function.update_of_ne (Ne.symm hev), if_neg hev, sub_zero]
      rw [List.foldl_cons, Topo.visitEdge]
      by_cases hzero : Function.update s.degrees e (s.degrees e - 1) e = 0
      · rw [if_pos hzero]
        obtain ⟨new, heq, hnodup, hmem⟩ := ih (Topo.emit
          { s with degrees := Function.update s.degrees e (s.degrees e - 1) } e)
        have hnot : e ∉ new := fun hin => by
          have hpos := ((hmem e).1 hin).1
          rw [show (Topo.emit { s with
            degrees := Function.update s.degrees e (s.degrees e - 1) } e).degrees e = 0 from hzero] at hpos
          exact lt_irrefl 0 hpos
        refine ⟨e :: new, ?_, List.nodup_cons.2 ⟨hnot, hnodup⟩, fun v => ?_⟩
        · rw [heq]
          simp only [Topo.emit, List.append_assoc, List.singleton_append, List.length_cons, Topo.mk.injEq,
            true_and]
          refine ⟨?_, by omega⟩
          funext v
          rw [hupdate, hcount]
          omega
        · have hv := hmem v
          rw [show (Topo.emit { s with
            degrees := Function.update s.degrees e (s.degrees e - 1) } e).degrees v =
              s.degrees v - if e = v then 1 else 0 from hupdate v] at hv
          rw [hupdate, if_pos rfl] at hzero
          rw [List.mem_cons, hcount, hv]
          by_cases hev : e = v
          · subst hev
            rw [if_pos rfl]
            have hnonneg : (0 : ℤ) ≤ es.count e := Int.natCast_nonneg _
            constructor
            · intro _
              omega
            · exact fun _ => Or.inl rfl
          · rw [if_neg hev, sub_zero, add_zero]
            constructor
            · rintro (h | h)
              · exact absurd h.symm hev
              · exact h
            · exact Or.inr
      · rw [if_neg hzero]
        obtain ⟨new, heq, hnodup, hmem⟩ := ih
          { s with degrees := Function.update s.degrees e (s.degrees e - 1) }
        refine ⟨new, ?_, hnodup, fun v => ?_⟩
        · rw [heq]
          simp only [Topo.mk.injEq, true_and, and_true]
          funext v
          rw [hupdate, hcount]
          omega
        · rw [hmem, hcount]
          show 0 < Function.update s.degrees e (s.degrees e - 1) v ∧
            Function.update s.degrees e (s.degrees e - 1) v ≤ _ ↔ _
          rw [hupdate] at hzero ⊢
          by_cases hev : e = v
          · subst hev
            rw [if_pos rfl] at hzero ⊢
            omega
          · rw [if_neg hev]
            omega

end DglAscend.Traversal
