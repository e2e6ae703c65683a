import DglAscend.Partition.BookIds
import DglAscend.Partition.NDArrayPartition

/-!
# Books and the partitions made from them

The ids of a book are consistent for nodes and for edges.  The partition that
`get_node_partition_from_book` makes of it reads the ends of the ranges as last ids, while the book
itself reads them as one past the last id.
-/

namespace DglAscend.Partition

namespace RangePartitionBook

variable {partId numParts : ℕ} {nodeMap : List (String × Ranges)}
  {edgeMap : List (CanonicalEtype × Ranges)} {ntypes : List (String × ℕ)}
  {etypes : List (CanonicalEtype × ℕ)} {book : RangePartitionBook}

lemma new_eq_some (h : new partId numParts nodeMap edgeMap ntypes etypes = some book) :
    0 < numParts ∧ partId < numParts ∧ book.partid = partId ∧ book.numPartitions = numParts ∧
      Built numParts nodeMap ntypes book.nodes ∧ Built numParts edgeMap etypes book.edges := by
  simp only [new, Option.bind_eq_bind, Option.bind_eq_some_iff, Option.guard_eq_some'] at h
  obtain ⟨-, hpos, nodes, hnodes, edges, hedges, -, hpart, hbook⟩ := h
  obtain rfl := Option.some.inj hbook
  exact ⟨hpos, hpart, rfl, rfl, Tables.built hnodes, Tables.built hedges⟩

/-- **The id spaces of a book are consistent**, if its ranges tile the ids partition by partition,
`IdMap` numbers the types as the book does, and the default name is not one of several. -/
theorem consistent (partId numParts : ℕ) (nodeMap : List (String × Ranges))
    (edgeMap : List (CanonicalEtype × Ranges)) (ntypes : List (String × ℕ))
    (etypes : List (CanonicalEtype × ℕ)) (book : RangePartitionBook)
    (h : new partId numParts nodeMap edgeMap ntypes etypes = some book)
    (hnodeKeys : (nodeMap.map Prod.fst).Nodup) (hedgeKeys : (edgeMap.map Prod.fst).Nodup)
    (hnodeTiles : Tiles numParts nodeMap) (hedgeTiles : Tiles numParts edgeMap)
    (hnodeNumbered : Numbered nodeMap book.nodes.names)
    (hedgeNumbered : Numbered edgeMap book.edges.names)
    (hntype : defaultNtype ∈ nodeMap.map Prod.fst → nodeMap.length = 1)
    (hetype : defaultEtype ∈ edgeMap.map Prod.fst → edgeMap.length = 1) :
    book.nodes.Consistent defaultNtype numParts partId ∧
      book.edges.Consistent defaultEtype numParts partId := by
  obtain ⟨-, hpart, -, -, hnodes, hedges⟩ := new_eq_some h
  exact ⟨hnodes.book_consistent hnodeTiles hnodeKeys hntype hnodeNumbered hpart,
    hedges.book_consistent hedgeTiles hedgeKeys hetype hedgeNumbered hpart⟩

/-- Two types of nodes in two partitions, the first of which has no nodes of the second type. -/
def twoTypes : List (String × Ranges) := [("a", [(0, 2), (2, 3)]), ("b", [(2, 2), (3, 5)])]

/-- One type of edges. -/
def oneRelation : List (CanonicalEtype × Ranges) := [(("a", "r", "b"), [(0, 1), (1, 1)])]

theorem consistent_twoTypes : ∃ book,
    new 0 2 twoTypes oneRelation [("a", 0), ("b", 1)] [(("a", "r", "b"), 0)] = some book ∧
      book.nodes.Consistent defaultNtype 2 0 ∧ book.edges.Consistent defaultEtype 2 0 := by
  obtain ⟨book, hbook⟩ := Option.isSome_iff_exists.1
    (rfl : (new 0 2 twoTypes oneRelation [("a", 0), ("b", 1)] [(("a", "r", "b"), 0)]).isSome = true)
  have hnames : book.nodes.names = ["a", "b"] ∧ book.edges.names = [("a", "r", "b")] := by
    obtain rfl := Option.some.inj hbook
    exact ⟨rfl, rfl⟩
  refine ⟨book, hbook, consistent 0 2 _ _ _ _ book hbook (by decide) (by decide) ?_ ?_ ?_ ?_
    (by decide) (by decide)⟩
  · exact ⟨fun p => twoTypes.map fun x => x.2.get p, fun _ _ => List.Perm.refl _, by decide⟩
  · exact ⟨fun p => oneRelation.map fun x => x.2.get p, fun _ _ => List.Perm.refl _, by decide⟩
  · rw [hnames.1]
    decide
  · rw [hnames.2]
    decide

/-- The nodes of the second type come first. -/
def reversedTypes : List (String × Ranges) := [("b", [(0, 1)]), ("a", [(1, 2)])]

/-- **Types that are numbered differently** are mixed up. -/
theorem reversedTypes_not_consistent :
    ¬∀ (partId numParts : ℕ) (nodeMap : List (String × Ranges))
      (edgeMap : List (CanonicalEtype × Ranges)) (ntypes : List (String × ℕ))
      (etypes : List (CanonicalEtype × ℕ)) (book : RangePartitionBook),
      new partId numParts nodeMap edgeMap ntypes etypes = some book →
      (nodeMap.map Prod.fst).Nodup → (edgeMap.map Prod.fst).Nodup → Tiles numParts nodeMap →
      Tiles numParts edgeMap →
        book.nodes.Consistent defaultNtype numParts partId ∧
          book.edges.Consistent defaultEtype numParts partId := by
  intro h
  obtain ⟨book, hbook⟩ := Option.isSome_iff_exists.1
    (rfl : (new 0 1 reversedTypes [(("a", "r", "b"), [(0, 0)])] [("a", 0), ("b", 1)]
      [(("a", "r", "b"), 0)]).isSome = true)
  obtain ⟨⟨-, -, htoTyped, -⟩, -⟩ := h 0 1 _ _ _ _ book hbook (by decide) (by decide)
    ⟨fun p => reversedTypes.map fun x => x.2.get p, fun _ _ => List.Perm.refl _, by decide⟩
    ⟨fun p => [(("a", "r", "b"), [(0, 0)])].map fun (x : CanonicalEtype × Ranges) => x.2.get p,
      fun _ _ => List.Perm.refl _, by decide⟩
  obtain rfl := Option.some.inj hbook
  obtain ⟨x, -, typed, ⟨⟨i, htyped, hname⟩, hhomo, -⟩⟩ := htoTyped 2 rfl 0 (le_refl _) (by decide)
  -- Node 0 gets type 0, which is the name "a" to the book.
  obtain ⟨rfl, rfl⟩ := Prod.mk.inj (Option.some.inj htyped)
  obtain hx : "a" = x.1 := Option.some.inj hname
  rw [← hx] at hhomo
  exact absurd hhomo (by decide)

/-! ## The partition of the nodes -/

/-- `get_node_partition_from_book`. -/
def getNodePartitionFromBook (book : RangePartitionBook) (device : Context) :
    Except Failure NDArrayPartition :=
  let cpuRange := 0 :: book.nodes.maxIds.map (· + 1)
  let arraySize := cpuRange.getLastD 0
  createPartitionRangeBased arraySize.toNat book.numPartitions ⟨device, cpuRange⟩

/-- The partition on the device `ctx` assigns nodes as the book does. -/
structure AgreesWithBook (part : NDArrayPartition) (ctx : Context) (book : RangePartitionBook) :
    Prop where
  owner : ∀ n, book.nodes.total defaultNtype defaultNtype = some n → ∀ id, 0 ≤ id → id < n →
    ∃ p : ℕ, book.nid2partid id defaultNtype = some p ∧ part.owner id = p
  partSize : ∀ p < book.numPartitions, part.partSize p = .ok (book.nodes.numIds p)
  toLocal : ∀ n, book.nodes.total defaultNtype defaultNtype = some n → ∀ id, 0 ≤ id → id < n →
    book.nid2partid id defaultNtype = some book.partid →
      ∃ l, book.nid2localnid id book.partid defaultNtype = some l ∧
        part.mapToLocal ⟨ctx, [id]⟩ = .ok ⟨ctx, [l]⟩

/-- **The partition never agrees with the book**: its first part has one node too many. -/
theorem not_agreesWithBook (partId numParts : ℕ) (nodeMap : List (String × Ranges))
    (edgeMap : List (CanonicalEtype × Ranges)) (ntypes : List (String × ℕ))
    (etypes : List (CanonicalEtype × ℕ)) (book : RangePartitionBook)
    (h : new partId numParts nodeMap edgeMap ntypes etypes = some book) (d : ℕ) :
    ∃ part, getNodePartitionFromBook book (.ascend d) = .ok part ∧
      ¬AgreesWithBook part (.ascend d) book := by
  obtain ⟨hpos, -, -, hparts, hnodes, -⟩ := new_eq_some h
  have hdevice : ¬Context.ascend d = Context.cpu := nofun
  refine ⟨_, by rw [getNodePartitionFromBook, createPartitionRangeBased, if_neg hdevice],
    fun hagrees => ?_⟩
  have hsize := hagrees.partSize 0 (by omega)
  have hlen : book.nodes.maxIds.length = numParts := by
    rw [hnodes.maxIds]
    exact length_foldl_maximum nodeMap List.length_replicate hnodes.length_eq
  obtain ⟨m, ms, hmax⟩ := List.exists_cons_of_length_pos (by omega : 0 < book.nodes.maxIds.length)
  have hcount : book.nodes.numIds 0 = m := by
    simp [Tables.numIds, Tables.startOf, hmax]
  rw [NDArrayPartition.partSize, if_neg (by simp only [hparts]; omega), hcount] at hsize
  simp only [IdArray.at, hmax, List.map_cons] at hsize
  have heq : m + 1 - 0 = m := Except.ok.inj hsize
  omega

theorem not_agreesWithBook_twoTypes : ∃ book,
    new 0 2 twoTypes oneRelation [("a", 0), ("b", 1)] [(("a", "r", "b"), 0)] = some book ∧
      ∃ part, getNodePartitionFromBook book (.ascend 0) = .ok part ∧
        ¬AgreesWithBook part (.ascend 0) book := by
  obtain ⟨book, hbook⟩ := Option.isSome_iff_exists.1
    (rfl : (new 0 2 twoTypes oneRelation [("a", 0), ("b", 1)] [(("a", "r", "b"), 0)]).isSome = true)
  exact ⟨book, hbook, not_agreesWithBook 0 2 _ _ _ _ book hbook 0⟩

/-- **One node too many** in the first part. -/
theorem twoTypes_partSize :
    ¬∀ (partId numParts : ℕ) (nodeMap : List (String × Ranges))
      (edgeMap : List (CanonicalEtype × Ranges)) (ntypes : List (String × ℕ))
      (etypes : List (CanonicalEtype × ℕ)) (book : RangePartitionBook),
      new partId numParts nodeMap edgeMap ntypes etypes = some book → ∀ (d : ℕ) (part : NDArrayPartition),
        getNodePartitionFromBook book (.ascend d) = .ok part → AgreesWithBook part (.ascend d) book := by
  intro h
  obtain ⟨book, hbook⟩ := Option.isSome_iff_exists.1
    (rfl : (new 0 2 twoTypes oneRelation [("a", 0), ("b", 1)] [(("a", "r", "b"), 0)]).isSome = true)
  obtain ⟨-, hsize, -⟩ := h 0 2 _ _ _ _ book hbook 0 _ rfl
  obtain rfl := Option.some.inj hbook
  -- The first partition has the nodes 0 and 1.
  have heq : (3 : ℤ) = 2 := Except.ok.inj (hsize 0 (by decide))
  omega

end RangePartitionBook

end DglAscend.Partition
