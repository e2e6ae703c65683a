import DglAscend.Aten.SortedFlags
import DglAscend.Lib.DisjointWrites
import DglAscend.Lib.KWayMerge

/-!
# The union of CSR matrices

`UnionCsr` of `array.cc` and `csr_union.cc`: the ids of a matrix are moved up by the number of edges
of the matrices before it, and a row of the result is the merge of the rows when every matrix says
that it is sorted, and their concatenation otherwise.
-/

namespace DglAscend.Aten

namespace CSRMatrix

/-! ## The preprocessing -/

/-- A matrix of the union with the number of edges before it. -/
structure Part where
  csr : CSRMatrix
  numEdges : ℕ
  deriving DecidableEq, Repr

/-- The loop over `csrs` that accumulates `num_edges`. -/
def partsFrom : ℕ → List CSRMatrix → List Part
  | _, [] => []
  | numEdges, csr :: csrs => ⟨csr, numEdges⟩ :: partsFrom (numEdges + csr.nnz) csrs

def parts (csrs : List CSRMatrix) : List Part := partsFrom 0 csrs

/-- The number of edges of all matrices. -/
def totalEdges (csrs : List CSRMatrix) : ℕ := (csrs.map nnz).sum

/-- `indices_data[j][p]` and `data_data[j][p]` -/
def Part.item (part : Part) (p : ℕ) : ℕ × ℕ :=
  (part.csr.indices.getD p 0, part.numEdges + idAt part.csr.data p)

/-! ## The sorted path -/

/-- A cursor of the scan: `min` and `min_idx`, which starts as `-1`. -/
def scanStep (r : ℕ) (best : ℤ × Option ℕ) (cursor : (Part × ℕ) × ℕ) : ℤ × Option ℕ :=
  if cursor.1.2 < cursor.1.1.csr.ptr (r + 1) then
    if best.1 ≤ (cursor.1.1.item cursor.1.2).1 then best
    else ((cursor.1.1.item cursor.1.2).1, some cursor.2)
  else best

/-- The scan over the cursors of row `r` for the least column. -/
def scanHeads (r : ℕ) (start : ℤ) (cursors : List (Part × ℕ)) : ℤ × Option ℕ :=
  cursors.zipIdx.foldl (scanStep r) (start, none)

/-- `while (off < res_indptr[i])`: `data_data[-1]` is outside the vector. -/
def mergeRow (r : ℕ) (start : ℤ) : ℕ → List (Part × ℕ) → Except Fault (List (ℕ × ℕ))
  | 0, _ => .ok []
  | n + 1, cursors =>
    match scanHeads r start cursors with
    | (_, none) => .error .outOfBounds
    | (least, some j) =>
      match cursors[j]? with
      | none => .error .outOfBounds
      | some (part, p) => do
        let row ← mergeRow r start n (cursors.set j (part, p + 1))
        return (least.toNat, (part.item p).2) :: row

/-- `res_indptr` of the sorted path. -/
def mergedPtr (csrs : List CSRMatrix) (i : ℕ) : ℕ :=
  if i = 0 then 0 else (csrs.map fun csr => csr.ptr i).sum

/-- A row of the sorted path. -/
def mergedRow (bits numCols : ℕ) (csrs : List CSRMatrix) (r : ℕ) : Except Fault (List (ℕ × ℕ)) :=
  mergeRow r (castId bits (numCols + 1 : ℕ)) (mergedPtr csrs (r + 1) - mergedPtr csrs r)
    ((parts csrs).map fun part => (part, part.csr.ptr r))

/-! ## The union -/

/-- A row of the unsorted path. -/
def concatRow (csrs : List CSRMatrix) (r : ℕ) : List (ℕ × ℕ) :=
  (parts csrs).flatMap fun part => (part.csr.places r).map part.item

/-- `impl::UnionCsr`.  Ids of a type that does not hold the number of edges leave the arrays. -/
def unionCsrImpl (csrs : List CSRMatrix) : Except Fault CSRMatrix :=
  match csrs with
  | [] => .error .outOfBounds
  | first :: _ =>
    if noOverflow first.bits (totalEdges csrs) = false then .error .outOfBounds
    else if csrs.all CSRMatrix.sorted then do
      let rows ← (List.range first.numRows).mapM (mergedRow first.bits first.numCols csrs)
      return {
        bits := first.bits
        numRows := first.numRows
        numCols := first.numCols
        indptr := (List.range (first.numRows + 1)).map (mergedPtr csrs)
        indices := rows.flatten.map Prod.fst
        data := rows.flatten.map Prod.snd
        sorted := true }
    else .ok (ofRows first.bits first.numCols ((List.range first.numRows).map (concatRow csrs)) false)

/-- The checks of `aten::UnionCsr`. -/
def unionCsr (csrs : List CSRMatrix) : Except Fault CSRMatrix :=
  match csrs with
  | first :: second :: rest =>
    if (second :: rest).all fun csr => first.numRows = csr.numRows ∧ first.numCols = csr.numCols ∧
        first.bits = csr.bits then
      unionCsrImpl (first :: second :: rest)
    else .error .raised
  | _ => .error .raised

/-! ## What the union is -/

/-- The number of edges of the matrices before the `i`-th. -/
def edgesBefore (csrs : List CSRMatrix) (i : ℕ) : ℕ := ((csrs.take i).map nnz).sum

/-- The rows of all matrices, the ids of a matrix behind those of the matrices before it. -/
def unionRow (csrs : List CSRMatrix) (r : ℕ) : List Entry :=
  csrs.zipIdx.flatMap fun x => (x.1.rowEntries r).map fun e =>
    (e.1, e.2.1, edgesBefore csrs x.2 + e.2.2)

/-- `u` holds every entry of the matrices, its ids are fresh, and its flag can be trusted. -/
structure IsUnion (csrs : List CSRMatrix) (u : CSRMatrix) : Prop where
  shape : ∀ csr ∈ csrs, u.numRows = csr.numRows ∧ u.numCols = csr.numCols ∧ u.bits = csr.bits
  valid : u.Valid
  rows : ∀ r < u.numRows, (u.rowEntries r).Perm (unionRow csrs r)
  flag : u.sorted = csrs.all CSRMatrix.sorted
  colsSorted : u.ColsSorted

/-- The lists of matrices that the union is made for: one shape, flags that can be trusted, and ids
of a type that holds the columns with the two places behind them, and the number of edges. -/
structure Unites (csrs : List CSRMatrix) : Prop where
  nonempty : csrs ≠ []
  valid : ∀ csr ∈ csrs, csr.Valid
  colsSorted : ∀ csr ∈ csrs, csr.ColsSorted
  shape : ∀ csr ∈ csrs, ∀ csr' ∈ csrs,
    csr.numRows = csr'.numRows ∧ csr.numCols = csr'.numCols ∧ csr.bits = csr'.bits
  cols : ∀ csr ∈ csrs, noOverflow csr.bits (csr.numCols + 1) = true
  edges : ∀ csr ∈ csrs, noOverflow csr.bits (totalEdges csrs) = true

/-! ## The scan -/

section Scan

variable {r : ℕ} {start : ℤ} {cursors : List (Part × ℕ)}

/-- What is left of row `r` behind a cursor. -/
def cursorItems (r : ℕ) (cursor : Part × ℕ) : List (ℕ × ℕ) :=
  (List.range' cursor.2 (cursor.1.csr.ptr (r + 1) - cursor.2)).map cursor.1.item

lemma cursorItems_of_lt {cursor : Part × ℕ} (h : cursor.2 < cursor.1.csr.ptr (r + 1)) :
    cursorItems r cursor = cursor.1.item cursor.2 :: cursorItems r (cursor.1, cursor.2 + 1) := by
  have hsub : cursor.1.csr.ptr (r + 1) - cursor.2 = cursor.1.csr.ptr (r + 1) - (cursor.2 + 1) + 1 := by
    omega
  rw [cursorItems, hsub, List.range'_succ, List.map_cons]
  rfl

lemma cursorItems_eq_nil {cursor : Part × ℕ} (h : ¬cursor.2 < cursor.1.csr.ptr (r + 1)) :
    cursorItems r cursor = [] := by
  rw [cursorItems, Nat.sub_eq_zero_of_le (Nat.not_lt.1 h)]
  rfl

lemma scanStep_spec (r : ℕ) (best : ℤ × Option ℕ) (cursor : Part × ℕ) (k : ℕ) :
    (scanStep r best (cursor, k)).1 ≤ best.1 ∧
      (∀ a ∈ (cursorItems r cursor).head?, (scanStep r best (cursor, k)).1 ≤ a.1) ∧
      (scanStep r best (cursor, k) = best ∨ cursor.2 < cursor.1.csr.ptr (r + 1) ∧
        scanStep r best (cursor, k) = (((cursor.1.item cursor.2).1 : ℤ), some k)) := by
  unfold scanStep
  by_cases hlt : cursor.2 < cursor.1.csr.ptr (r + 1)
  · rw [if_pos hlt, cursorItems_of_lt hlt]
    by_cases hle : best.1 ≤ ((cursor.1.item cursor.2).1 : ℤ)
    · rw [if_pos hle]
      refine ⟨le_rfl, ?_, .inl rfl⟩
      rintro a ⟨rfl⟩
      exact hle
    · rw [if_neg hle]
      refine ⟨(not_le.1 hle).le, ?_, .inr ⟨hlt, rfl⟩⟩
      rintro a ⟨rfl⟩
      exact le_rfl
  · rw [if_neg hlt, cursorItems_eq_nil hlt]
    exact ⟨le_rfl, nofun, .inl rfl⟩

/-- The scan finds a least column if one is less than the start. -/
lemma foldl_scanStep_spec (r : ℕ) (cursors : List (Part × ℕ)) (k : ℕ) (best : ℤ × Option ℕ) :
    ((cursors.zipIdx k).foldl (scanStep r) best).1 ≤ best.1 ∧
      (∀ cursor ∈ cursors, ∀ a ∈ (cursorItems r cursor).head?,
        ((cursors.zipIdx k).foldl (scanStep r) best).1 ≤ a.1) ∧
      ((cursors.zipIdx k).foldl (scanStep r) best = best ∨
        ∃ j part p, cursors[j]? = some (part, p) ∧ p < part.csr.ptr (r + 1) ∧
          (cursors.zipIdx k).foldl (scanStep r) best = (((part.item p).1 : ℤ), some (k + j))) := by
  induction cursors generalizing k best with
  | nil => exact ⟨le_rfl, nofun, .inl rfl⟩
  | cons cursor cursors ih =>
      rw [List.zipIdx_cons, List.foldl_cons]
      obtain ⟨hle, hall, hfrom⟩ := ih (k + 1) (scanStep r best (cursor, k))
      obtain ⟨hle', hhead, hfrom'⟩ := scanStep_spec r best cursor k
      refine ⟨hle.trans hle', ?_, ?_⟩
      · intro c hc a ha
        rcases List.mem_cons.1 hc with rfl | hc
        · exact hle.trans (hhead a ha)
        · exact hall c hc a ha
      · rcases hfrom with heq | ⟨j, part, p, hget, hlt, heq⟩
        · rw [heq]
          rcases hfrom' with heq' | ⟨hlt, heq'⟩
          · exact .inl heq'
          · exact .inr ⟨0, cursor.1, cursor.2, rfl, hlt, heq'⟩
        · refine .inr ⟨j + 1, part, p, hget, hlt, ?_⟩
          rw [heq, Nat.add_assoc, Nat.add_comm 1]

/-- The loop over a row merges what the cursors leave. -/
theorem mergeRow_merges {n : ℕ} (hlen : (cursors.map (cursorItems r)).flatten.length = n)
    (hcols : ∀ cursor ∈ cursors, ∀ a ∈ cursorItems r cursor, (a.1 : ℤ) < start) :
    ∃ row, mergeRow r start n cursors = .ok row ∧
      Merges Prod.fst (cursors.map (cursorItems r)) row := by
  induction n generalizing cursors with
  | zero => exact ⟨[], rfl, .done (List.flatten_eq_nil_iff.1 (List.length_eq_zero_iff.1 hlen))⟩
  | succ n ih =>
      obtain ⟨-, hleast, hfrom⟩ := foldl_scanStep_spec r cursors 0 (start, none)
      have hsome : (cursors.zipIdx.foldl (scanStep r) (start, none)) ≠ (start, none) := by
        intro heq
        obtain ⟨a, ha⟩ : ∃ a, a ∈ (cursors.map (cursorItems r)).flatten :=
          List.exists_mem_of_length_pos (by rw [hlen]; exact n.succ_pos)
        obtain ⟨l, hl, ha⟩ := List.mem_flatten.1 ha
        obtain ⟨cursor, hcursor, rfl⟩ := List.mem_map.1 hl
        obtain ⟨b, hb⟩ := List.isSome_head?.2 (List.ne_nil_of_mem ha) |> Option.isSome_iff_exists.1
        have hge := hleast cursor hcursor b hb
        rw [heq] at hge
        exact absurd (hcols cursor hcursor b (List.mem_of_mem_head? hb)) (not_lt.2 hge)
      obtain ⟨j, part, p, hget, hlt, heq⟩ := hfrom.resolve_left hsome
      rw [Nat.zero_add] at heq
      rw [heq] at hleast
      have hitems : cursorItems r (part, p) = part.item p :: cursorItems r (part, p + 1) :=
        cursorItems_of_lt hlt
      have hrest : (cursors.map (cursorItems r))[j]? =
          some (part.item p :: cursorItems r (part, p + 1)) := by
        rw [List.getElem?_map, hget, Option.map_some, hitems]
      have hset : (cursors.set j (part, p + 1)).map (cursorItems r) =
          (cursors.map (cursorItems r)).set j (cursorItems r (part, p + 1)) := List.map_set ..
      have hlen' : ((cursors.set j (part, p + 1)).map (cursorItems r)).flatten.length = n := by
        have hperm := (perm_flatten_set hrest).length_eq
        rw [hlen, List.length_cons, ← hset] at hperm
        omega
      have hcols' : ∀ cursor ∈ cursors.set j (part, p + 1), ∀ a ∈ cursorItems r cursor,
          (a.1 : ℤ) < start := by
        intro cursor hcursor a ha
        rcases List.mem_or_eq_of_mem_set hcursor with hcursor | rfl
        · exact hcols cursor hcursor a ha
        · refine hcols _ (List.mem_of_getElem? hget) a ?_
          rw [hitems]
          exact List.mem_cons_of_mem _ ha
      obtain ⟨row, hrow, hmerges⟩ := ih hlen' hcols'
      refine ⟨part.item p :: row, ?_, .step hrest ?_ (hset ▸ hmerges)⟩
      · have hscan : scanHeads r start cursors = (((part.item p).1 : ℤ), some j) := heq
        simp only [mergeRow, hscan, hget, hrow]
        rfl
      · intro l hl b hb
        obtain ⟨cursor, hcursor, rfl⟩ := List.mem_map.1 hl
        exact Int.ofNat_le.1 (hleast cursor hcursor b hb)

end Scan

/-! ## Rows of the union -/

section Rows

variable {csrs : List CSRMatrix} {bits numRows numCols : ℕ}

lemma partsFrom_eq (k : ℕ) (csrs : List CSRMatrix) :
    partsFrom k csrs = csrs.zipIdx.map fun x => ⟨x.1, k + edgesBefore csrs x.2⟩ := by
  induction csrs generalizing k with
  | nil => rfl
  | cons csr csrs ih =>
      rw [partsFrom, ih, List.zipIdx_cons', List.map_cons, List.map_map]
      congr 1
      apply List.map_congr_left
      intro x _
      show Part.mk x.1 (k + csr.nnz + edgesBefore csrs x.2) =
        ⟨x.1, k + edgesBefore (csr :: csrs) (x.2 + 1)⟩
      rw [edgesBefore, edgesBefore, List.take_succ_cons, List.map_cons, List.sum_cons, Nat.add_assoc]

lemma map_csr_partsFrom (k : ℕ) (csrs : List CSRMatrix) :
    (partsFrom k csrs).map Part.csr = csrs := by
  rw [partsFrom_eq, List.map_map]
  exact List.zipIdx_map_fst 0 csrs

lemma csr_mem {part : Part} (h : part ∈ parts csrs) : part.csr ∈ csrs := by
  have hmem := List.mem_map_of_mem (f := Part.csr) h
  rwa [parts, map_csr_partsFrom] at hmem

/-- The concatenated row is the row of the union. -/
lemma map_concatRow (csrs : List CSRMatrix) (r : ℕ) :
    ((concatRow csrs r).map fun x => (r, x)) = unionRow csrs r := by
  rw [concatRow, parts, partsFrom_eq, List.flatMap_map, List.map_flatMap, unionRow]
  apply List.flatMap_congr
  intro x _
  rw [rowEntries, List.map_map, List.map_map]
  apply List.map_congr_left
  intro p _
  show (r, x.1.indices.getD p 0, 0 + edgesBefore csrs x.2 + idAt x.1.data p) =
    (r, x.1.indices.getD p 0, edgesBefore csrs x.2 + idAt x.1.data p)
  rw [Nat.zero_add]

/-- The pointers of the sorted path are one concatenated row apart. -/
lemma mergedPtr_succ (hvalid : ∀ csr ∈ csrs, csr.Valid) {r : ℕ}
    (hrows : ∀ csr ∈ csrs, r < csr.numRows) :
    mergedPtr csrs (r + 1) = mergedPtr csrs r + (concatRow csrs r).length := by
  have hptr : mergedPtr csrs r = (csrs.map fun csr => csr.ptr r).sum := by
    by_cases hr : r = 0
    · have hzero : csrs.map (fun csr => csr.ptr r) = csrs.map fun _ => 0 :=
        List.map_congr_left fun csr hcsr => by rw [hr, (hvalid csr hcsr).ptr_zero]
      rw [mergedPtr, if_pos hr, hzero, List.map_const', List.sum_replicate, smul_zero]
    · rw [mergedPtr, if_neg hr]
  have hsum : ∀ (k : ℕ) (l : List CSRMatrix), (∀ csr ∈ l, csr ∈ csrs) →
      (l.map fun csr => csr.ptr (r + 1)).sum = (l.map fun csr => csr.ptr r).sum +
        ((partsFrom k l).flatMap fun part => (part.csr.places r).map part.item).length := by
    intro k l hl
    induction l generalizing k with
    | nil => rfl
    | cons csr l ih =>
        have hcsr := hl csr List.mem_cons_self
        have hmono := (hvalid csr hcsr).ptr_mono r (hrows csr hcsr)
        have hlen : ((csr.places r).map (Part.item ⟨csr, k⟩)).length =
            csr.ptr (r + 1) - csr.ptr r := by
          rw [List.length_map, places, List.length_range']
        rw [partsFrom, List.flatMap_cons, List.length_append, hlen, List.map_cons, List.sum_cons,
          List.map_cons, List.sum_cons, ih (k + csr.nnz) fun c hc => hl c (List.mem_cons_of_mem _ hc)]
        omega
  rw [hptr, mergedPtr, if_neg r.succ_ne_zero]
  exact hsum 0 csrs fun csr hcsr => hcsr

/-- All items of the matrices, matrix by matrix. -/
lemma flatMap_concatRow (hvalid : ∀ csr ∈ csrs, csr.Valid)
    (hrows : ∀ csr ∈ csrs, csr.numRows = numRows) :
    ((List.range numRows).flatMap (concatRow csrs)).Perm
      ((parts csrs).flatMap fun part => (List.range part.csr.nnz).map part.item) := by
  refine (flatMap_swap _ _ _).trans (List.Perm.of_eq (List.flatMap_congr fun part hpart => ?_))
  have hcsr := csr_mem hpart
  rw [← List.map_flatMap, ← hrows part.csr hcsr, (hvalid part.csr hcsr).flatMap_places]

lemma ids_perm_range (k : ℕ) (hvalid : ∀ csr ∈ csrs, csr.Valid) :
    (((partsFrom k csrs).flatMap fun part => (List.range part.csr.nnz).map part.item).map
      Prod.snd).Perm (List.range' k (totalEdges csrs)) := by
  induction csrs generalizing k with
  | nil => exact List.Perm.refl _
  | cons csr csrs ih =>
      have hids : ((List.range csr.nnz).map (Part.item ⟨csr, k⟩)).map Prod.snd =
          ((List.range csr.nnz).map (idAt csr.data)).map (k + ·) := by
        rw [List.map_map, List.map_map]
        rfl
      have hrange : (List.range csr.nnz).map (k + ·) = List.range' k csr.nnz := by
        rw [List.range_eq_range', List.map_add_range', Nat.add_zero]
      have hfirst := ((hvalid csr List.mem_cons_self).numbers.map_idAt).map (k + ·)
      rw [← hids, hrange] at hfirst
      rw [partsFrom, List.flatMap_cons, List.map_append, totalEdges, List.map_cons, List.sum_cons,
        ← List.range'_append_1]
      exact hfirst.append (ih (k + csr.nnz) fun c hc => hvalid c (List.mem_cons_of_mem _ hc))

/-- The columns of a concatenated row are columns of the matrices. -/
lemma col_lt_of_mem_concatRow (hvalid : ∀ csr ∈ csrs, csr.Valid)
    (hcols : ∀ csr ∈ csrs, csr.numCols = numCols) {r : ℕ} (hrows : ∀ csr ∈ csrs, r < csr.numRows)
    {x : ℕ × ℕ} (hx : x ∈ concatRow csrs r) : x.1 < numCols := by
  obtain ⟨part, hpart, hx⟩ := List.mem_flatMap.1 hx
  obtain ⟨p, hp, rfl⟩ := List.mem_map.1 hx
  have hcsr := csr_mem hpart
  have hlt := (hvalid part.csr hcsr).place_lt (hrows part.csr hcsr) hp
  show part.csr.indices.getD p 0 < numCols
  rw [List.getD_eq_getElem _ _ hlt, ← hcols part.csr hcsr]
  exact (hvalid part.csr hcsr).col_lt _ (List.getElem_mem hlt)

variable {rows : List (List (ℕ × ℕ))}

/-- Rearranged rows hold the items of the matrices. -/
lemma flatten_perm (hlen : rows.length = numRows)
    (hperm : ∀ r < numRows, (rows.getD r []).Perm (concatRow csrs r)) :
    rows.flatten.Perm ((List.range numRows).flatMap (concatRow csrs)) := by
  have hflat := flatMap_range_getD rows (d := []) id
  rw [List.flatMap_id] at hflat
  rw [← hflat, hlen]
  exact List.Perm.flatMap_left _ fun r hr => hperm r (List.mem_range.1 hr)

/-- Rows that are rearrangements of the concatenated rows make a union. -/
theorem isUnion_ofRows (h : Unites csrs) {first : CSRMatrix} (hfirst : first ∈ csrs)
    (hlen : rows.length = first.numRows)
    (hperm : ∀ r < first.numRows, (rows.getD r []).Perm (concatRow csrs r))
    (hsorted : csrs.all CSRMatrix.sorted = true → ∀ r < first.numRows,
      (rows.getD r []).Pairwise fun x y => x.1 ≤ y.1) :
    IsUnion csrs (ofRows first.bits first.numCols rows (csrs.all CSRMatrix.sorted)) := by
  have hrows : ∀ csr ∈ csrs, csr.numRows = first.numRows := fun csr hcsr =>
    (h.shape csr hcsr first hfirst).1
  have hcols : ∀ csr ∈ csrs, csr.numCols = first.numCols := fun csr hcsr =>
    (h.shape csr hcsr first hfirst).2.1
  have hall := (flatten_perm hlen hperm).trans (flatMap_concatRow h.valid hrows)
  have hids : (rows.flatten.map Prod.snd).Perm (List.range (totalEdges csrs)) := by
    rw [List.range_eq_range']
    exact (hall.map _).trans (ids_perm_range 0 h.valid)
  have hnnz : (rows.flatten.map Prod.fst).length = totalEdges csrs := by
    have hlen := hids.length_eq
    rwa [List.length_map, List.length_range, ← List.length_map (f := Prod.fst)] at hlen
  have hframed : (ofRows first.bits first.numCols rows (csrs.all CSRMatrix.sorted)).Framed :=
    framed_ofRows
  have hrow : ∀ r < first.numRows,
      (ofRows first.bits first.numCols rows (csrs.all CSRMatrix.sorted)).rowEntries r =
        (rows.getD r []).map fun x => (r, x) := by
    intro r hr
    have hr' : r < rows.length := hlen ▸ hr
    rw [rowEntries_ofRows hr', List.getD_eq_getElem _ _ hr']
  refine ⟨fun csr hcsr => ?_, ⟨?_, hframed.ptr_zero, hframed.ptr_mono, hframed.ptr_last, ?_, ?_⟩,
    ?_, rfl, ?_⟩
  · obtain ⟨hr, hc, hb⟩ := h.shape first hfirst csr hcsr
    exact ⟨hlen.trans hr, hc, hb⟩
  · show ((List.range (rows.length + 1)).map _).length = _
    rw [List.length_map, List.length_range]
    rfl
  · intro c hc
    obtain ⟨x, hx, rfl⟩ := List.mem_map.1 hc
    have hx := (flatten_perm hlen hperm).mem_iff.1 hx
    obtain ⟨r, hr, hx⟩ := List.mem_flatMap.1 hx
    have hr : ∀ csr ∈ csrs, r < csr.numRows := fun csr hcsr => by
      rw [hrows csr hcsr]
      exact List.mem_range.1 hr
    exact col_lt_of_mem_concatRow h.valid hcols hr hx
  · show Numbers (rows.flatten.map Prod.snd) (rows.flatten.map Prod.fst).length
    rw [hnnz]
    exact .inr hids
  · intro r hr
    have hr : r < first.numRows := hlen ▸ hr
    rw [hrow r hr, ← map_concatRow]
    exact (hperm r hr).map _
  · intro hflag r hr
    have hr : r < first.numRows := hlen ▸ hr
    rw [hrow r hr, List.map_map]
    exact List.pairwise_map.2 (hsorted hflag r hr)

/-- The loop over a row of sorted matrices of one shape. -/
theorem mergedRow_spec (h : Unites csrs) {first : CSRMatrix} (hfirst : first ∈ csrs)
    (hsorted : csrs.all CSRMatrix.sorted = true) {r : ℕ} (hr : r < first.numRows) :
    ∃ row, mergedRow first.bits first.numCols csrs r = .ok row ∧ row.Perm (concatRow csrs r) ∧
      row.Pairwise fun x y => x.1 ≤ y.1 := by
  have hrows : ∀ csr ∈ csrs, r < csr.numRows := fun csr hcsr => by
    rwa [(h.shape csr hcsr first hfirst).1]
  have hcols : ∀ csr ∈ csrs, csr.numCols = first.numCols := fun csr hcsr =>
    (h.shape csr hcsr first hfirst).2.1
  have hstart : castId first.bits ((first.numCols + 1 : ℕ) : ℤ) = (first.numCols + 1 : ℕ) :=
    castId_eq (h.cols first hfirst)
  have hitems : ((parts csrs).map fun part => (part, part.csr.ptr r)).map (cursorItems r) =
      (parts csrs).map fun part => (part.csr.places r).map part.item := by
    rw [List.map_map]
    rfl
  have hflat : (((parts csrs).map fun part => (part, part.csr.ptr r)).map (cursorItems r)).flatten =
      concatRow csrs r := by
    rw [hitems, ← List.flatMap_def]
    rfl
  have hlen : (((parts csrs).map fun part => (part, part.csr.ptr r)).map
      (cursorItems r)).flatten.length = mergedPtr csrs (r + 1) - mergedPtr csrs r := by
    rw [hflat, mergedPtr_succ h.valid hrows, Nat.add_sub_cancel_left]
  have hlt : ∀ cursor ∈ (parts csrs).map fun part => (part, part.csr.ptr r),
      ∀ a ∈ cursorItems r cursor, (a.1 : ℤ) < castId first.bits (first.numCols + 1 : ℕ) := by
    intro cursor hcursor a ha
    have hmem : a ∈ concatRow csrs r := by
      rw [← hflat]
      exact List.mem_flatten.2 ⟨_, List.mem_map_of_mem hcursor, ha⟩
    have hlt := col_lt_of_mem_concatRow h.valid hcols hrows hmem
    rw [hstart]
    omega
  obtain ⟨row, hrow, hmerges⟩ := mergeRow_merges hlen hlt
  have hperm := hmerges.perm
  rw [hflat] at hperm
  refine ⟨row, hrow, hperm, hmerges.pairwise ?_⟩
  intro l hl
  rw [hitems] at hl
  obtain ⟨part, hpart, rfl⟩ := List.mem_map.1 hl
  have hcsr := csr_mem hpart
  have hflag : part.csr.sorted = true := List.all_eq_true.1 hsorted _ hcsr
  have hrow := h.colsSorted part.csr hcsr hflag r (hrows part.csr hcsr)
  rw [rowEntries, List.map_map] at hrow
  exact List.pairwise_map.2 (List.pairwise_map.1 hrow)

end Rows

/-! ## The union of every list -/

variable {csrs : List CSRMatrix}

/-- Both paths make a union. -/
theorem unionCsrImpl_isUnion (h : Unites csrs) : ∃ u, unionCsrImpl csrs = .ok u ∧ IsUnion csrs u := by
  cases csrs with
  | nil => exact absurd rfl h.nonempty
  | cons first rest =>
      have hfirst : first ∈ first :: rest := List.mem_cons_self
      have hedges := h.edges first hfirst
      by_cases hsorted : (first :: rest).all CSRMatrix.sorted = true
      · obtain ⟨rows, hrows, hlen, hspec⟩ := exists_mapM_range
          (P := fun r row => row.Perm (concatRow (first :: rest) r) ∧
            row.Pairwise fun x y => x.1 ≤ y.1) [] fun r hr => mergedRow_spec h hfirst hsorted hr
        -- the pointers were added up before the rows were merged
        have hptr : (List.range (first.numRows + 1)).map (mergedPtr (first :: rest)) =
            (List.range (rows.length + 1)).map fun i => ((rows.take i).map List.length).sum := by
          rw [hlen]
          apply List.map_congr_left
          intro i hi
          have hi : i ≤ rows.length := by
            rw [hlen]
            exact Nat.le_of_lt_succ (List.mem_range.1 hi)
          induction i with
          | zero => rfl
          | succ i ih =>
              have hlt : ∀ csr ∈ first :: rest, i < csr.numRows := fun csr hcsr => by
                rw [(h.shape csr hcsr first hfirst).1]
                omega
              have hrow := (hspec i (by omega)).1.length_eq
              rw [List.getD_eq_getElem _ _ hi] at hrow
              rw [mergedPtr_succ h.valid hlt, ih (by rw [List.mem_range]; omega) (by omega),
                List.take_add_one, List.getElem?_eq_getElem hi, Option.toList_some, List.map_append,
                List.sum_append, List.map_singleton, List.sum_singleton, hrow]
        refine ⟨ofRows first.bits first.numCols rows ((first :: rest).all CSRMatrix.sorted), ?_,
          isUnion_ofRows h hfirst hlen (fun r hr => (hspec r hr).1) fun _ r hr => (hspec r hr).2⟩
        simp only [unionCsrImpl, hedges, hsorted, hrows, Bool.true_eq_false, if_false, if_true]
        rw [hptr, ← hlen]
        rfl
      · have hrow : ∀ r < first.numRows,
            ((List.range first.numRows).map (concatRow (first :: rest))).getD r [] =
              concatRow (first :: rest) r := by
          intro r hr
          rw [List.getD_eq_getElem _ _ (by simpa using hr), List.getElem_map, List.getElem_range]
        refine ⟨ofRows first.bits first.numCols _ ((first :: rest).all CSRMatrix.sorted), ?_,
          isUnion_ofRows h hfirst (by rw [List.length_map, List.length_range])
            (fun r hr => List.Perm.of_eq (hrow r hr)) fun hall => absurd hall hsorted⟩
        simp only [unionCsrImpl, hedges, hsorted, Bool.true_eq_false, if_false]
        rfl

lemma Unites.unflagged (h : Unites csrs) : Unites (csrs.map CSRMatrix.unflagged) where
  nonempty := fun hnil => h.nonempty (List.map_eq_nil_iff.1 hnil)
  valid := by
    intro csr hcsr
    obtain ⟨c, hc, rfl⟩ := List.mem_map.1 hcsr
    obtain ⟨hlen, hzero, hmono, hlast, hcol, hnumbers⟩ := h.valid c hc
    exact ⟨hlen, hzero, hmono, hlast, hcol, hnumbers⟩
  colsSorted := by
    intro csr hcsr hflag
    obtain ⟨c, hc, rfl⟩ := List.mem_map.1 hcsr
    cases hflag
  shape := by
    intro csr hcsr csr' hcsr'
    obtain ⟨c, hc, rfl⟩ := List.mem_map.1 hcsr
    obtain ⟨c', hc', rfl⟩ := List.mem_map.1 hcsr'
    exact h.shape c hc c' hc'
  cols := by
    intro csr hcsr
    obtain ⟨c, hc, rfl⟩ := List.mem_map.1 hcsr
    exact h.cols c hc
  edges := by
    intro csr hcsr
    obtain ⟨c, hc, rfl⟩ := List.mem_map.1 hcsr
    rw [totalEdges, List.map_map]
    exact h.edges c hc

lemma unionRow_unflagged (csrs : List CSRMatrix) (r : ℕ) :
    unionRow (csrs.map CSRMatrix.unflagged) r = unionRow csrs r := by
  have hbefore (i : ℕ) : edgesBefore (csrs.map CSRMatrix.unflagged) i = edgesBefore csrs i := by
    rw [edgesBefore, ← List.map_take, List.map_map]
    rfl
  rw [unionRow, List.zipIdx_map, List.flatMap_map]
  apply List.flatMap_congr
  intro x _
  show ((x.1.rowEntries r).map fun e =>
    (e.1, e.2.1, edgesBefore (csrs.map CSRMatrix.unflagged) x.2 + e.2.2)) = _
  rw [hbefore]

/-- The checks of two or more matrices of one shape pass. -/
lemma unionCsr_eq (h : Unites csrs) :
    unionCsr csrs = if csrs.length = 1 then .error .raised else unionCsrImpl csrs := by
  match csrs, h with
  | [], h => exact absurd rfl h.nonempty
  | [csr], _ => rfl
  | first :: second :: rest, h =>
      have hall : ((second :: rest).all fun csr => first.numRows = csr.numRows ∧
          first.numCols = csr.numCols ∧ first.bits = csr.bits) = true :=
        List.all_eq_true.2 fun csr hcsr => decide_eq_true
          (h.shape first List.mem_cons_self csr (List.mem_cons_of_mem _ hcsr))
      simp only [unionCsr, hall, if_true]
      rw [if_neg (by simp)]

/-- The union of every list of matrices of one shape keeps every edge with a fresh id, and the
merging path keeps what the concatenating path keeps; two matrices are the least that the checked
function takes. -/
theorem unionCsr_keeps (h : Unites csrs) :
    ∃ u u' : CSRMatrix, unionCsrImpl csrs = .ok u ∧ IsUnion csrs u ∧
      unionCsrImpl (csrs.map CSRMatrix.unflagged) = .ok u' ∧
      (∀ r < u.numRows, (u.rowEntries r).Perm (u'.rowEntries r)) ∧
      unionCsr csrs = if csrs.length = 1 then .error .raised else .ok u := by
  obtain ⟨u, hu, hunion⟩ := unionCsrImpl_isUnion h
  obtain ⟨u', hu', hunion'⟩ := unionCsrImpl_isUnion h.unflagged
  refine ⟨u, u', hu, hunion, hu', ?_, ?_⟩
  · intro r hr
    obtain ⟨csr, hcsr⟩ := List.exists_mem_of_ne_nil _ h.nonempty
    have hshape := (hunion.shape csr hcsr).1
    have hshape' : u'.numRows = csr.numRows :=
      (hunion'.shape csr.unflagged (List.mem_map_of_mem hcsr)).1
    have hrows := hunion'.rows r (by omega)
    rw [unionRow_unflagged] at hrows
    exact (hunion.rows r hr).trans hrows.symm
  · rw [unionCsr_eq h, hu]

/-- One row with one edge. -/
def oneEdge (col : ℕ) (sorted : Bool) : CSRMatrix where
  bits := 64
  numRows := 1
  numCols := 2
  indptr := [0, 1]
  indices := [col]
  data := []
  sorted := sorted

/-- Two sorted matrices with an edge to the same column. -/
theorem unionCsr_twoEdges :
    ∃ u u' : CSRMatrix, unionCsrImpl [oneEdge 1 true, oneEdge 1 true] = .ok u ∧
      IsUnion [oneEdge 1 true, oneEdge 1 true] u ∧
      unionCsrImpl ([oneEdge 1 true, oneEdge 1 true].map CSRMatrix.unflagged) = .ok u' ∧
      (∀ r < u.numRows, (u.rowEntries r).Perm (u'.rowEntries r)) ∧
      unionCsr [oneEdge 1 true, oneEdge 1 true] =
        if [oneEdge 1 true, oneEdge 1 true].length = 1 then .error .raised else .ok u := by
  have hone : ∀ csr ∈ [oneEdge 1 true, oneEdge 1 true], csr = oneEdge 1 true := by simp
  have hvalid : (oneEdge 1 true).Valid :=
    ⟨rfl, rfl, by decide, rfl, by decide, .inl rfl⟩
  refine unionCsr_keeps ⟨by simp, ?_, ?_, ?_, ?_, ?_⟩
  · intro csr hcsr
    rw [hone csr hcsr]
    exact hvalid
  · intro csr hcsr
    rw [hone csr hcsr]
    intro _
    decide
  · intro csr hcsr csr' hcsr'
    rw [hone csr hcsr, hone csr' hcsr']
    exact ⟨rfl, rfl, rfl⟩
  · intro csr hcsr
    rw [hone csr hcsr]
    decide
  · intro csr hcsr
    rw [hone csr hcsr]
    decide

/-- The checked function refuses a single matrix, and the union of two matrices without the flag is
sorted and does not say so. -/
theorem unionCsr_unflagged :
    unionCsr [oneEdge 0 true] = .error .raised ∧
      ∃ u, unionCsr [oneEdge 0 false, oneEdge 1 false] = .ok u ∧
        (∀ r < u.numRows, ((u.rowEntries r).map fun e => e.2.1).Pairwise (· ≤ ·)) ∧
        u.sorted = false :=
  ⟨by decide, ⟨64, 1, 2, [0, 2], [0, 1], [0, 1], false⟩, by decide, by decide, rfl⟩

end CSRMatrix

end DglAscend.Aten
