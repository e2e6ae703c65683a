import DglAscend.Hetero.Formats
import DglAscend.Lib.Placeholders

/-!
# Unit graphs share their matrices

A `UnitGraph` holds pointers to its matrices.  A format that does not exist yet is a placeholder
object, which `GetInCSR`, `GetOutCSR` and `GetCOO` fill in place, and `Reverse` and
`GetGraphInFormat` hand pointers on to new graphs: what one graph fills in is seen by all that hold
the object.
-/

namespace DglAscend.Hetero

open Aten

/-- The matrix objects; a placeholder has no matrix. -/
structure Heap where
  csrs : List (Option CSRMatrix)
  coos : List (Option COOMatrix)
  deriving DecidableEq, Repr

namespace Heap

variable (h : Heap)

/-- The matrix of a CSR object. -/
def csr (p : ℕ) : Option CSRMatrix := cell h.csrs p

/-- The matrix of a COO object. -/
def coo (p : ℕ) : Option COOMatrix := cell h.coos p

/-- `CSRPtr(new CSR(…))` -/
def newCSR (m : Option CSRMatrix) : ℕ × Heap := (h.csrs.length, { h with csrs := h.csrs ++ [m] })

/-- `COOPtr(new COO(…))` -/
def newCOO (m : Option COOMatrix) : ℕ × Heap := (h.coos.length, { h with coos := h.coos ++ [m] })

/-- `*(in_csr_) = CSR(…)` -/
def setCSR (p : ℕ) (m : CSRMatrix) : Heap := { h with csrs := h.csrs.set p (some m) }

/-- `*(coo_) = COO(…)` -/
def setCOO (p : ℕ) (m : COOMatrix) : Heap := { h with coos := h.coos.set p (some m) }

/-- A null pointer is replaced by a placeholder. -/
def orPlaceholderCSR : Option ℕ → ℕ × Heap
  | some p => (p, h)
  | none => h.newCSR none

/-- A null pointer is replaced by a placeholder. -/
def orPlaceholderCOO : Option ℕ → ℕ × Heap
  | some p => (p, h)
  | none => h.newCOO none

end Heap

/-- `UnitGraph`. -/
structure UnitGraph where
  numVTypes : ℕ
  inCsr : ℕ
  outCsr : ℕ
  coo : ℕ
  formats : Formats
  deriving DecidableEq, Repr

namespace UnitGraph

variable (T : ℕ+) (h : Heap) (g : UnitGraph)

/-- What the graph stores. -/
def stored : Stored := ⟨g.numVTypes, h.csr g.inCsr, h.csr g.outCsr, h.coo g.coo, g.formats⟩

/-- The constructor: placeholders for null pointers, and no format beyond the allowed ones. -/
def new (numVTypes : ℕ) (inCsr outCsr coo : Option ℕ) (formats : Formats) :
    Option (UnitGraph × Heap) :=
  let (inCsr, h) := h.orPlaceholderCSR inCsr
  let (outCsr, h) := h.orPlaceholderCSR outCsr
  let (coo, h) := h.orPlaceholderCOO coo
  let g : UnitGraph := ⟨numVTypes, inCsr, outCsr, coo, formats⟩
  if (g.stored h).createdFormats.within formats then some (g, h) else none

/-- `CHECK(num_vtypes == 1 || num_vtypes == 2)`, and with one vertex type the matrix is square. -/
def shapeOk (numVTypes numRows numCols : ℕ) : Bool :=
  (numVTypes = 1 ∨ numVTypes = 2) ∧ (numVTypes = 1 → numRows = numCols)

/-- `CreateFromCOO`. -/
def createFromCOO (numVTypes : ℕ) (mat : COOMatrix) (formats : Formats) :
    Option (UnitGraph × Heap) :=
  if shapeOk numVTypes mat.numRows mat.numCols && !mat.hasData then
    let (coo, h) := h.newCOO (some mat)
    new h numVTypes none none (some coo) formats
  else none

/-- `CreateFromCSR`. -/
def createFromCSR (numVTypes : ℕ) (mat : CSRMatrix) (formats : Formats) :
    Option (UnitGraph × Heap) :=
  if shapeOk numVTypes mat.numRows mat.numCols then
    let (csr, h) := h.newCSR (some mat)
    new h numVTypes none (some csr) none formats
  else none

/-- `CreateFromCSC`. -/
def createFromCSC (numVTypes : ℕ) (mat : CSRMatrix) (formats : Formats) :
    Option (UnitGraph × Heap) :=
  if shapeOk numVTypes mat.numRows mat.numCols then
    let (csc, h) := h.newCSR (some mat)
    new h numVTypes (some csc) none none formats
  else none

/-- `GetInCSR`. -/
def getInCSR (inplace : Bool) : Option (ℕ × Heap) :=
  if inplace && !g.formats.csc then none
  else if (h.csr g.inCsr).isSome then some (g.inCsr, h)
  else do
    let newadj ← (g.stored h).cscMatrix T
    if inplace then some (g.inCsr, h.setCSR g.inCsr newadj) else some (h.newCSR (some newadj))

/-- `GetOutCSR`. -/
def getOutCSR (inplace : Bool) : Option (ℕ × Heap) :=
  if inplace && !g.formats.csr then none
  else if (h.csr g.outCsr).isSome then some (g.outCsr, h)
  else do
    let newadj ← (g.stored h).csrMatrix T
    if inplace then some (g.outCsr, h.setCSR g.outCsr newadj) else some (h.newCSR (some newadj))

/-- `GetCOO`. -/
def getCOO (inplace : Bool) : Option (ℕ × Heap) :=
  if inplace && !g.formats.coo then none
  else if (h.coo g.coo).isSome then some (g.coo, h)
  else do
    let newadj ← (g.stored h).cooMatrix
    if inplace then some (g.coo, h.setCOO g.coo newadj) else some (h.newCOO (some newadj))

/-- `GetFormat`: the format is materialised in place. -/
def getFormat (format : SparseFormat) : Option Heap :=
  match format with
  | .csr => (g.getOutCSR T h true).map Prod.snd
  | .csc => (g.getInCSR T h true).map Prod.snd
  | .coo => (g.getCOO h true).map Prod.snd

/-- `wanted ? get : nullptr` -/
def orNull (wanted : Bool) (get : Option (ℕ × Heap)) : Option (Option ℕ × Heap) :=
  if wanted then get.map fun r => (some r.1, r.2) else some (none, h)

/-- `GetGraphInFormat`: the created formats that are wanted are shared, and when there is none, one
is made. -/
def getGraphInFormat (formats : Formats) : Option (UnitGraph × Heap) :=
  let intersection := formats.inter (g.stored h).createdFormats
  if intersection.nonzero then do
    let (coo, h) ← orNull h intersection.coo (g.getCOO h false)
    let (inCsr, h) ← orNull h intersection.csc (g.getInCSR T h false)
    let (outCsr, h) ← orNull h intersection.csr (g.getOutCSR T h false)
    new h g.numVTypes inCsr outCsr coo formats
  else if formats.coo then do
    let (p, h) ← g.getCOO h false
    createFromCOO h g.numVTypes (← h.coo p) formats
  else if formats.csr then do
    let (p, h) ← g.getOutCSR T h false
    createFromCSR h g.numVTypes (← h.csr p) formats
  else do
    let (p, h) ← g.getInCSR T h false
    createFromCSC h g.numVTypes (← h.csr p) formats

/-- `Reverse`: the two CSR objects change places, whether they are created or not, and every format
is allowed. -/
def reverse : Option (UnitGraph × Heap) :=
  match h.coo g.coo with
  | some coo =>
      let (p, h) := h.newCOO (some coo.transpose)
      new h g.numVTypes (some g.outCsr) (some g.inCsr) (some p) .all
  | none => new h g.numVTypes (some g.outCsr) (some g.inCsr) none .all

end UnitGraph

/-! ## Runs -/

/-- The graphs that a program has made. -/
structure World where
  heap : Heap
  graphs : List UnitGraph
  deriving DecidableEq, Repr

/-- A call; graphs are named by the order in which they were made. -/
inductive Op
  | createFromCOO (numVTypes : ℕ) (mat : COOMatrix) (formats : Formats)
  | createFromCSR (numVTypes : ℕ) (mat : CSRMatrix) (formats : Formats)
  | createFromCSC (numVTypes : ℕ) (mat : CSRMatrix) (formats : Formats)
  | getInCSR (g : ℕ) (inplace : Bool)
  | getOutCSR (g : ℕ) (inplace : Bool)
  | getCOO (g : ℕ) (inplace : Bool)
  | getFormat (g : ℕ) (format : SparseFormat)
  | getGraphInFormat (g : ℕ) (formats : Formats)
  | reverse (g : ℕ)

/-- The matrices that a caller gives are well formed. -/
def Op.Valid : Op → Prop
  | .createFromCOO _ mat _ => mat.Valid
  | .createFromCSR _ mat _ => mat.Valid
  | .createFromCSC _ mat _ => mat.Valid
  | _ => True

namespace World

variable (T : ℕ+) (w : World)

/-- Nothing is made yet. -/
def empty : World := ⟨⟨[], []⟩, []⟩

/-- The call made a graph. -/
def push (r : UnitGraph × Heap) : World := ⟨r.2, w.graphs ++ [r.1]⟩

/-- A call that returns. -/
def exec : Op → Option World
  | .createFromCOO n mat formats => (UnitGraph.createFromCOO w.heap n mat formats).map w.push
  | .createFromCSR n mat formats => (UnitGraph.createFromCSR w.heap n mat formats).map w.push
  | .createFromCSC n mat formats => (UnitGraph.createFromCSC w.heap n mat formats).map w.push
  | .getInCSR i inplace => do
      let g ← w.graphs[i]?
      (g.getInCSR T w.heap inplace).map fun r => { w with heap := r.2 }
  | .getOutCSR i inplace => do
      let g ← w.graphs[i]?
      (g.getOutCSR T w.heap inplace).map fun r => { w with heap := r.2 }
  | .getCOO i inplace => do
      let g ← w.graphs[i]?
      (g.getCOO w.heap inplace).map fun r => { w with heap := r.2 }
  | .getFormat i format => do
      let g ← w.graphs[i]?
      (g.getFormat T w.heap format).map fun heap => { w with heap := heap }
  | .getGraphInFormat i formats => do
      let g ← w.graphs[i]?
      (g.getGraphInFormat T w.heap formats).map w.push
  | .reverse i => do
      let g ← w.graphs[i]?
      (g.reverse w.heap).map w.push

/-- A call; one that fails leaves everything as it was. -/
def step (op : Op) : World := (w.exec T op).getD w

end World

end DglAscend.Hetero
