import DglAscend.Lib.Consecutive

/-!
# The range partition book

`RangePartitionBook` of `distributed/graph_partition_book.py`, with the `IdMap` of
`distributed/id_map.py` and `MapIds` of `graph/graph_op.cc`.  Nodes and edges have the same tables;
`κ` are the names of the types.  A dictionary is a list of its items, in their order.  A failed
assertion, a missing key or an index out of range is `none`.
-/

namespace DglAscend.Partition

variable {κ : Type} [DecidableEq κ]

/-! ## Arrays -/

/-- `np.cumsum`. -/
def cumsum (l : List ℤ) : List ℤ := (l.scanl (· + ·) 0).tail

/-- `np.searchsorted` with `side="right"`, in a sorted array. -/
def searchsortedRight (a : List ℤ) (v : ℤ) : ℕ := a.findIdx fun x => v < x

/-- `std::lower_bound`, in a sorted array. -/
def lowerBound (a : List ℤ) (v : ℤ) : ℕ := a.findIdx fun x => v ≤ x

/-- The ranges of one type, by partition. -/
abbrev Ranges := List (ℤ × ℤ)

/-- The range in a partition. -/
def Ranges.get (r : Ranges) (p : ℕ) : ℤ × ℤ := r.getD p (0, 0)

/-- The numbers of ids in the partitions. -/
def Ranges.counts (r : Ranges) : List ℤ := r.map fun x => x.2 - x.1

/-! ## `IdMap` -/

/-- `IdMap`.  The ends are those of the ranges less one. -/
structure IdMap where
  numParts : ℕ
  numTypes : ℕ
  rangeStart : List ℤ
  rangeEnd : List ℤ
  typedMap : List ℤ

namespace IdMap

/-- `ranges[i :: num_types] = id_range`, for all types. -/
def interleave (numParts : ℕ) (rs : List Ranges) : Ranges :=
  (List.range numParts).flatMap fun p => rs.map fun r => r.get p

/-- `id_ranges.sort`, by the start in the first partition. -/
def byStart (r r' : Ranges) : Prop := (r.get 0).1 ≤ (r'.get 0).1

instance : DecidableRel byStart := fun _ _ => inferInstanceAs (Decidable (_ ≤ _))

/-- `__init__`. -/
def new (idRanges : List Ranges) : Option IdMap :=
  match idRanges with
  | [] => none
  | first :: _ =>
    let sorted := idRanges.insertionSort byStart
    let ranges := interleave first.length sorted
    if (ranges.map Prod.fst).IsChain (· ≤ ·) ∧ (ranges.map Prod.snd).IsChain (· ≤ ·) then
      some {
        numParts := first.length
        numTypes := idRanges.length
        rangeStart := ranges.map Prod.fst
        rangeEnd := ranges.map fun x => x.2 - 1
        typedMap := sorted.flatMap fun r => cumsum r.counts }
    else none

/-- `__call__`, for one id. -/
def call (m : IdMap) (id : ℤ) : Option (ℕ × ℤ) :=
  let rangeId := lowerBound m.rangeEnd id
  if rangeId = m.rangeEnd.length then none
  else
    let typeId := rangeId % m.numTypes
    let partId := rangeId / m.numTypes
    if ¬partId < m.numParts then none
    else if partId = 0 then some (typeId, id - m.rangeStart.getD rangeId 0)
    else some (typeId, id - m.rangeStart.getD rangeId 0 +
      m.typedMap.getD (m.numParts * typeId + partId - 1) 0)

end IdMap

/-! ## The tables of the nodes, and of the edges -/

/-- `_ntypes`, or `_canonical_etypes`: the names by their ids. -/
def typeNames (types : List (κ × ℕ)) : Option (List κ) :=
  (types.foldlM (fun names (x : κ × ℕ) =>
    if x.2 < names.length then some (names.set x.2 (some x.1)) else none)
    (List.replicate types.length (none : Option κ))).bind fun names => names.mapM id

/-- The tables of the nodes, or of the edges. -/
structure Tables (κ : Type) where
  names : List κ
  typedRange : List (κ × Ranges)
  typedMaxIds : List (κ × List ℤ)
  maxIds : List ℤ
  idMap : IdMap

namespace Tables

/-- `np.maximum`. -/
def maximum (ends : List ℤ) (maxMap : List ℤ) : List ℤ := List.zipWith max ends maxMap

/-- The loop of `__init__` over `node_map`, or over `edge_map`. -/
def new (numParts : ℕ) (idMap : List (κ × Ranges)) (types : List (κ × ℕ)) : Option (Tables κ) := do
  let names ← typeNames types
  guard (∀ x ∈ idMap, x.1 ∈ types.map Prod.fst ∧ x.2.length = numParts)
  let map ← IdMap.new (idMap.map Prod.snd)
  some {
    names := names
    typedRange := idMap
    typedMaxIds := idMap.map fun x => (x.1, cumsum x.2.counts)
    maxIds := idMap.foldl (fun maxMap x => maximum (x.2.map Prod.snd) maxMap)
      (List.replicate numParts 0)
    idMap := map }

variable (t : Tables κ) (dflt : κ)

/-- The table of last ids that `nid2partid` and `partid2nids` look into: under the default name it is
the one of the homogeneous ids. -/
def lastIds (name : κ) : Option (List ℤ) :=
  if name = dflt then some t.maxIds else t.typedMaxIds.lookup name

/-- `map_to_per_ntype`. -/
def mapToPerType (id : ℤ) : Option (ℕ × ℤ) := t.idMap.call id

/-- `nid2partid`. -/
def id2partid (id : ℤ) (name : κ) : Option ℕ :=
  (t.lastIds dflt name).map fun last => searchsortedRight last id

/-- `map_to_homo_nid`. -/
def mapToHomo (id : ℤ) (name : κ) : Option ℤ := do
  let partid ← t.id2partid dflt id name
  let typedMax ← t.typedMaxIds.lookup name
  let endDiff ← (typedMax[partid]?).map (· - id)
  let typedRange ← t.typedRange.lookup name
  (typedRange[partid]?).map fun x => x.2 - endDiff

/-- The first id of a partition. -/
def startOf (last : List ℤ) (partid : ℕ) : ℤ := if 0 < partid then last.getD (partid - 1) 0 else 0

/-- `partid2nids`. -/
def partid2ids (partid : ℕ) (name : κ) : Option (List ℤ) := do
  let last ← t.lastIds dflt name
  let stop ← last[partid]?
  some (arange (startOf last partid) stop)

/-- `nid2localnid`, in the book of partition `self`. -/
def id2localid (self : ℕ) (id : ℤ) (partid : ℕ) (name : κ) : Option ℤ := do
  guard (partid = self)
  let last ← t.lastIds dflt name
  some (id - startOf last partid)

/-- `_num_nodes`. -/
def total (name : κ) : Option ℤ := (t.lastIds dflt name).bind List.getLast?

/-- `metadata`: how many ids a partition has. -/
def numIds (partid : ℕ) : ℤ := t.maxIds.getD partid 0 - startOf t.maxIds partid

end Tables

/-! ## The book -/

/-- `(source type, edge type, destination type)`. -/
abbrev CanonicalEtype := String × String × String

/-- `DEFAULT_NTYPE`. -/
def defaultNtype : String := "_N"

/-- `DEFAULT_ETYPE`. -/
def defaultEtype : CanonicalEtype := ("_N", "_E", "_N")

/-- `RangePartitionBook`. -/
structure RangePartitionBook where
  partid : ℕ
  numPartitions : ℕ
  nodes : Tables String
  edges : Tables CanonicalEtype

namespace RangePartitionBook

/-- `__init__`. -/
def new (partId numParts : ℕ) (nodeMap : List (String × Ranges)) (edgeMap : List (CanonicalEtype × Ranges))
    (ntypes : List (String × ℕ)) (etypes : List (CanonicalEtype × ℕ)) : Option RangePartitionBook := do
  guard (0 < numParts)
  let nodes ← Tables.new numParts nodeMap ntypes
  let edges ← Tables.new numParts edgeMap etypes
  -- The offsets of the types are taken in the own partition.
  guard (partId < numParts)
  some ⟨partId, numParts, nodes, edges⟩

variable (book : RangePartitionBook)

/-- `map_to_per_ntype`. -/
def mapToPerNtype (id : ℤ) : Option (ℕ × ℤ) := book.nodes.mapToPerType id

/-- `map_to_per_etype`. -/
def mapToPerEtype (id : ℤ) : Option (ℕ × ℤ) := book.edges.mapToPerType id

/-- `map_to_homo_nid`. -/
def mapToHomoNid (id : ℤ) (ntype : String) : Option ℤ := book.nodes.mapToHomo defaultNtype id ntype

/-- `map_to_homo_eid`. -/
def mapToHomoEid (id : ℤ) (etype : CanonicalEtype) : Option ℤ :=
  book.edges.mapToHomo defaultEtype id etype

/-- `nid2partid`. -/
def nid2partid (id : ℤ) (ntype : String) : Option ℕ := book.nodes.id2partid defaultNtype id ntype

/-- `eid2partid`. -/
def eid2partid (id : ℤ) (etype : CanonicalEtype) : Option ℕ :=
  book.edges.id2partid defaultEtype id etype

/-- `partid2nids`. -/
def partid2nids (partid : ℕ) (ntype : String) : Option (List ℤ) :=
  book.nodes.partid2ids defaultNtype partid ntype

/-- `partid2eids`. -/
def partid2eids (partid : ℕ) (etype : CanonicalEtype) : Option (List ℤ) :=
  book.edges.partid2ids defaultEtype partid etype

/-- `nid2localnid`. -/
def nid2localnid (id : ℤ) (partid : ℕ) (ntype : String) : Option ℤ :=
  book.nodes.id2localid defaultNtype book.partid id partid ntype

/-- `eid2localeid`. -/
def eid2localeid (id : ℤ) (partid : ℕ) (etype : CanonicalEtype) : Option ℤ :=
  book.edges.id2localid defaultEtype book.partid id partid etype

end RangePartitionBook

end DglAscend.Partition
