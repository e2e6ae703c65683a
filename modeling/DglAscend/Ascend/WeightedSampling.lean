import DglAscend.Ascend.Csr
import DglAscend.Ascend.UnifiedBuffer
import DglAscend.Lib.WeightedDraw

/-!
# Weighted sampling

`CSRRowWiseSampling` and its kernel, which runs on one core: row after row the probabilities of the edges
are copied to a workspace, the picks are counted, and then as many edges are drawn.  The workspace of
marks is not cleared between rows; row `i` marks with `i + 1`.  Probabilities and draws are rational
numbers.
-/

namespace DglAscend.Ascend.Weighted

/-- A row, a column and an edge id. -/
abbrev Pick := ℕ × ℕ × ℕ

/-- The id of the edge at a position: `has_data ? data[k] : k`. -/
def edgeId (data : Option (List ℕ)) (k : ℕ) : ℕ :=
  match data with
  | some d => d.getD k 0
  | none => k

/-- The arguments of a call.  The seeds are rows, and every edge has a probability. -/
structure Call where
  csr : Csr
  data : Option (List ℕ)
  prob : List ℚ
  seeds : List ℕ
  numSamples : ℤ
  replaceGiven : Bool
  bits : ℕ
  data_length : ∀ d ∈ data, d.length = csr.indices.length
  ids_lt : ∀ k < csr.indices.length, edgeId data k < prob.length
  prob_nonneg : ∀ p ∈ prob, 0 ≤ p
  seeds_lt : ∀ rid ∈ seeds, rid < csr.numRows
  numSamples_ge : -1 ≤ numSamples
  bits_eq : bits = 32 ∨ bits = 64

/-- What a run does not say: the result of `rand_unit` for pick `p` of row `i`, and what is in the
workspaces at first. -/
structure Draws where
  unit : ℕ → ℕ → ℚ
  probWs : ℕ → ℚ
  cdfWs : ℕ → ℚ
  unit_nonneg : ∀ i p, 0 ≤ unit i p
  unit_le : ∀ i p, unit i p ≤ 1

/-- What the kernel has in global memory, and its writes to `out_ptr` and to the three outputs. -/
structure Gm where
  probWs : ℕ → ℚ
  cdfWs : ℕ → ℚ
  usedWs : ℕ → ℕ
  outPtr : List (ℕ × ℤ)
  writes : List (ℕ × Pick)

namespace Call

variable (c : Call)

def selectAll : Bool := c.numSamples = -1

def replace : Bool := c.replaceGiven && !c.selectAll

/-- `num_samples_` -/
def fanout : ℕ := if c.selectAll then 0 else u32 c.numSamples.toNat

/-- A value of the type of ids. -/
def toId (x : ℤ) : ℤ := Int.bmod x (2 ^ c.bits)

/-! ## A row -/

/-- `off` -/
def off (rid : ℕ) : ℕ := c.csr.ptr (u32 rid)

/-- `deg` -/
def deg (rid : ℕ) : ℕ := u32 (c.csr.ptr (u32 (u32 rid + 1)) - c.off rid)

/-- `eid` of the loop over the edges. -/
def eidAt (rid j : ℕ) : ℕ := edgeId c.data (u32 (u32 (c.off rid) + j))

/-- `prob_ws` after the first loop. -/
def gather (rid : ℕ) (ws : ℕ → ℚ) (j : ℕ) : ℚ :=
  if j < c.deg rid then c.prob.getD (u32 (c.eidAt rid j)) 0 else ws j

/-- The count of positive weights. -/
def nnzPos (deg : ℕ) (ws : ℕ → ℚ) : ℕ := ((List.range deg).filter fun j => 0 < ws j).length

/-- `num_picks` -/
def numPicks (nnz : ℕ) : ℕ :=
  if c.selectAll then nnz
  else if c.replace then (if nnz = 0 then 0 else c.fanout)
  else if nnz < c.fanout then nnz else c.fanout

/-- `WritePick` -/
def writePick (rid pos picked : ℕ) (g : Gm) : Gm :=
  { g with writes := g.writes ++ [(u32 pos, (rid, c.csr.indices.getD (u32 picked) 0,
      match c.data with
      | some d => d.getD (u32 picked) 0
      | none => picked))] }

/-- The branch for all edges. -/
def copyPositive (rid offset picks : ℕ) (g : Gm) : Gm :=
  ((List.range (c.deg rid)).foldl (fun (x : ℕ × Gm) j =>
    if x.1 < picks ∧ 0 < x.2.probWs j then
      (x.1 + 1, c.writePick rid (offset + x.1) (c.off rid + j) x.2)
    else x) (0, g)).2

/-- `cdf_ws` with the sums of `prob_ws`. -/
def sumUp (deg : ℕ) (g : Gm) : Gm :=
  { g with cdfWs := fun j => if j < deg then ((List.range (j + 1)).map g.probWs).sum else g.cdfWs j }

/-- The binary search among the sums, and the last place if it finds none. -/
def place (cdf : ℕ → ℚ) (deg : ℕ) (target : ℚ) : ℕ :=
  if upperSearch cdf target deg 0 deg < deg then upperSearch cdf target deg 0 deg else deg - 1

/-- The branch with replacement. -/
def drawReplace (r : Draws) (i rid offset picks : ℕ) (g : Gm) : Gm :=
  let g := sumUp (c.deg rid) g
  let total := ((List.range (c.deg rid)).map g.probWs).sum
  (List.range picks).foldl (fun g p =>
    c.writePick rid (offset + p) (c.off rid + place g.cdfWs (c.deg rid) (r.unit i p * total)) g) g

/-- The scan for the first edge that is not marked, at which the running sum is above the target. -/
def scan (g : Gm) (mark : ℕ) (target : ℚ) : List ℕ → ℚ → Option ℕ
  | [], _ => none
  | j :: js, running =>
      if g.usedWs j = mark then scan g mark target js running
      else if g.probWs j ≤ 0 then scan g mark target js running
      else if target < running + g.probWs j then some j
      else scan g mark target js (running + g.probWs j)

/-- The first edge that is not marked and has a positive probability. -/
def firstUsable (g : Gm) (mark deg : ℕ) : Option ℕ :=
  (List.range deg).find? fun j => g.usedWs j ≠ mark ∧ 0 < g.probWs j

/-- The branch without replacement, from pick `p` on. -/
def drawDistinct (r : Draws) (i rid offset : ℕ) : ℕ → ℕ → ℚ → Gm → Gm
  | 0, _, _, g => g
  | left + 1, p, remaining, g =>
      if remaining ≤ 0 then g
      else
        match (scan g (u32 (i + 1)) (r.unit i p * remaining) (List.range (c.deg rid)) 0).or
          (firstUsable g (u32 (i + 1)) (c.deg rid)) with
        | none => g
        | some j =>
            drawDistinct r i rid offset left (p + 1) (remaining - g.probWs j)
              (c.writePick rid (offset + p) (c.off rid + j)
                { g with usedWs := Function.update g.usedWs j (u32 (i + 1)) })

/-- The picks of a row. -/
def drawRow (r : Draws) (i rid offset picks : ℕ) (g : Gm) : Gm :=
  if picks = 0 then g
  else if c.selectAll then c.copyPositive rid offset picks g
  else if c.replace then c.drawReplace r i rid offset picks g
  else c.drawDistinct r i rid offset picks 0 ((List.range (c.deg rid)).map g.probWs).sum g

/-- The turn of the loop for row `i`. -/
def processRow (r : Draws) (x : ℕ × Gm) (i : ℕ) : ℕ × Gm :=
  let rid := c.seeds.getD i 0
  let g := { x.2 with outPtr := x.2.outPtr ++ [(i, c.toId x.1)] }
  if c.deg rid = 0 then (x.1, g)
  else
    let g := { g with probWs := c.gather rid g.probWs }
    let picks := c.numPicks (nnzPos (c.deg rid) g.probWs)
    (u32 (x.1 + picks), c.drawRow r i rid x.1 picks g)

/-! ## The call -/

/-- `Process` -/
def process (r : Draws) : Gm :=
  let numRows := u32 c.seeds.length
  let x := (List.range numRows).foldl (c.processRow r) (0, ⟨r.probWs, r.cdfWs, fun _ => 0, [], []⟩)
  { x.2 with outPtr := x.2.outPtr ++ [(numRows, c.toId x.1)] }

/-- The degrees that `CSRGetRowNNZ` returns. -/
def degrees : List ℕ := c.seeds.map fun rid => c.csr.ptr (rid + 1) - c.csr.ptr rid

/-- `sum_deg`, in the type of ids. -/
def sumDeg : ℤ := c.degrees.foldl (fun (s : ℤ) (d : ℕ) => c.toId (s + d)) 0

/-- `max_output` -/
def maxOutput : ℤ := if c.selectAll then c.sumDeg else c.seeds.length * c.numSamples

/-- The kernel is launched; otherwise the call returns an empty matrix. -/
def Launched : Prop :=
  c.seeds ≠ [] ∧ (c.numSamples ≠ 0 ∨ c.selectAll) ∧ c.maxOutput ≠ 0 ∧ ∃ d ∈ c.degrees, d ≠ 0

end Call

end DglAscend.Ascend.Weighted
