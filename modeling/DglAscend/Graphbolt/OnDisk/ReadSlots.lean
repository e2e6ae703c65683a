import DglAscend.Graphbolt.OnDisk.FailedReads

/-!
# Slots and descriptors of the reads

The slots of the read buffer and the cells of `read_queue` are used in turn.  `Core` says that the
reads whose bytes have not been copied have their own slots and cells: the numbers of these reads
lie in a window of `8 * kGroupSize`.  Its lemmas give what each part of a step does to it.
-/

namespace DglAscend.Graphbolt

namespace OnDiskNpyArray

variable {β : Type} {n : ℕ}

/-- How many completions of the queue have been copied in this pass. -/
def Phase.swept : Phase → ℕ
  | .sweep _ _ seen => seen
  | .requeue _ _ seen _ => seen
  | .copy _ _ seen _ => seen
  | _ => 0

/-- A request for the part of a row that follows `k` of its bytes. -/
def ForRow (c : Call β) (req : ReadRequest) : Prop :=
  req.blockSize = c.array.blockSize ∧
    ∃ i featureId k, i < c.index.length ∧
      c.array.featureId? (c.index.getD i 0) = some featureId ∧
      req.destination = c.array.featureSize * i + k ∧
      req.offset = featureId * c.array.featureSize + c.array.prefixLen + k ∧
      k + req.readLen = c.array.featureSize

variable {c : Call β} {req : ReadRequest}

lemma ForRow.blockSize_pow (h : ForRow c req) : ∃ k, req.blockSize = 2 ^ k := by
  rw [h.1]
  exact c.array.blockSize_pow

lemma ForRow.readLen_le (h : ForRow c req) : req.readLen ≤ c.array.featureSize := by
  obtain ⟨-, i, featureId, k, -, -, -, -, hlen⟩ := h
  omega

lemma ForRow.rest (h : ForRow c req) (actual buffer : ℕ) :
    ForRow c ⟨req.destination + req.usefulReadLen actual, req.remainingUsefulReadLen actual,
      req.offset + req.usefulReadLen actual, c.array.blockSize, buffer⟩ := by
  have hrest := req.remainingUsefulReadLen_eq actual
  have hle : req.usefulReadLen actual ≤ req.readLen := Nat.sub_le _ _
  obtain ⟨-, i, featureId, k, hi, hid, hdst, hoff, hlen⟩ := h
  refine ⟨rfl, i, featureId, k + req.usefulReadLen actual, hi, hid, ?_, ?_, ?_⟩
  · show req.destination + _ = _
    rw [hdst, Nat.add_assoc]
  · show req.offset + _ = _
    rw [hoff, Nat.add_assoc]
  · show _ + req.remainingUsefulReadLen actual = _
    omega

/-- Numbers less than `m` apart have different remainders. -/
lemma mod_ne_of_lt {i j m : ℕ} (hij : i < j) (hj : j < i + m) : j % m ≠ i % m := by
  intro heq
  have hdiv : m ∣ j - i := (Nat.modEq_iff_dvd' hij.le).1 heq.symm
  have hle := Nat.le_of_dvd (by omega) hdiv
  omega

namespace Worker

/-- The reads whose bytes have not been copied, if `swept` completions have been. -/
def live (swept : ℕ) (x : Worker β) : List ReadOp :=
  x.sq ++ (x.inFlight ++ (x.cq.drop swept).map Prod.fst)

/-- The number of reads that a worker counts as open. -/
def outstanding (x : Worker β) : ℕ := x.sq.length + (x.inFlight.length + x.cq.length)

/-- The descriptor and the slot of a read are its own. -/
structure Intact (c : Call β) (x : Worker β) (op : ReadOp) : Prop where
  userData_eq : op.userData = op.ticket % (8 * kGroupSize + 1)
  buffer_eq : op.request.alignedReadBuffer = c.array.slotStart op.ticket
  cell_eq : x.readQueue.data[op.userData]? = some op.request
  ticket_lt : op.ticket < x.readBufferSlot
  window : x.readBufferSlot ≤ op.ticket + 8 * kGroupSize
  forRow : ForRow c op.request

/-- A completion brings a read on: it covers more than the padding, or all of it. -/
def Advances (op : ReadOp) (res : ℤ) : Prop :=
  0 ≤ res ∧ (op.request.padding < res.toNat ∨ op.request.minimumReadSize ≤ res.toNat)

/-- The slot of a read holds the bytes that the kernel has read. -/
def Loaded (a : OnDiskNpyArray β) (x : Worker β) (y : ReadOp × ℤ) : Prop :=
  y.2 ≤ y.1.request.alignedReadSize ∧
    ∀ j < y.2.toNat, x.buffer (y.1.request.alignedReadBuffer + j) =
      some (a.file (y.1.request.alignedOffset + j))

/-- What a worker maintains in all phases, if `swept` completions have been copied. -/
structure Core (c : Call β) (swept : ℕ) (x : Worker β) : Prop where
  queue : x.readQueue.Represents (x.sq.map ReadOp.request)
  capacity_eq : x.readQueue.capacity = 8 * kGroupSize + 1
  tail_eq : x.readQueue.tail = x.readBufferSlot % (8 * kGroupSize + 1)
  count_eq : x.numSubmitted = x.numCompleted + (x.inFlight.length + x.cq.length)
  intact : ∀ op ∈ x.live swept, x.Intact c op
  nodup : ((x.live swept).map ReadOp.ticket).Nodup
  nonneg : ∀ y ∈ x.cq.drop swept, 0 ≤ y.2
  loaded : ∀ y ∈ x.cq.drop swept, x.Loaded c.array y

lemma mem_drop_of_getElem? {α : Type*} {l : List α} {n : ℕ} {y : α} (h : l[n]? = some y) :
    y ∈ l.drop n :=
  List.mem_iff_getElem?.2 ⟨0, by rwa [List.getElem?_drop]⟩

variable {op op' : ReadOp} {x : Worker β}

lemma mem_live {swept : ℕ} :
    op ∈ x.live swept ↔ op ∈ x.sq ∨ op ∈ x.inFlight ∨ ∃ y ∈ x.cq.drop swept, y.1 = op := by
  rw [live, List.mem_append, List.mem_append, List.mem_map]

/-- The reads that the kernel takes stay live. -/
lemma live_submitted_perm (x : Worker β) (k swept : ℕ) :
    ((x.submitted k).live swept).Perm (x.live swept) := by
  have hsq : x.live swept =
      x.sq.take k ++ (x.sq.drop k ++ (x.inFlight ++ (x.cq.drop swept).map Prod.fst)) := by
    rw [← List.append_assoc (x.sq.take k), List.take_append_drop, live]
  have hnew : (x.submitted k).live swept =
      x.sq.drop k ++ ((x.inFlight ++ x.sq.take k) ++ (x.cq.drop swept).map Prod.fst) := rfl
  rw [hsq, hnew, List.append_assoc]
  refine ((List.perm_append_comm_assoc x.inFlight _ _).append_left _).trans ?_
  exact List.perm_append_comm_assoc _ _ _

/-- Two live reads have different tickets in the window. -/
lemma Intact.mod_ne (h : x.Intact c op) (h' : x.Intact c op') (hne : op.ticket ≠ op'.ticket) :
    op.ticket % (8 * kGroupSize) ≠ op'.ticket % (8 * kGroupSize) := by
  have hlt := h.ticket_lt
  have hlt' := h'.ticket_lt
  have hwindow := h.window
  have hwindow' := h'.window
  rcases Nat.lt_or_gt_of_ne hne with hlt₁ | hlt₁
  · exact (mod_ne_of_lt hlt₁ (by omega)).symm
  · exact mod_ne_of_lt hlt₁ (by omega)

lemma slots_disjoint (h : x.Intact c op) (h' : x.Intact c op') (hne : op.ticket ≠ op'.ticket)
    {j j' : ℕ} (hj : j < op.request.alignedReadSize) (hj' : j' < op'.request.alignedReadSize) :
    op.request.alignedReadBuffer + j ≠ op'.request.alignedReadBuffer + j' := by
  have hmod := h.mod_ne h' hne
  have hsize : op.request.alignedReadSize ≤ c.array.alignedLength + c.array.blockSize := by
    have := ReadRequest.alignedReadSize_le h.forRow.blockSize_pow h.forRow.readLen_le
    rwa [h.forRow.1] at this
  have hsize' : op'.request.alignedReadSize ≤ c.array.alignedLength + c.array.blockSize := by
    have := ReadRequest.alignedReadSize_le h'.forRow.blockSize_pow h'.forRow.readLen_le
    rwa [h'.forRow.1] at this
  rw [h.buffer_eq, h'.buffer_eq, slotStart, slotStart]
  generalize c.array.alignedLength + c.array.blockSize = m at hsize hsize'
  rcases Nat.lt_or_gt_of_ne hmod with hlt₁ | hlt₁
  · have := Nat.mul_le_mul_left m hlt₁
    rw [Nat.mul_succ] at this
    omega
  · have := Nat.mul_le_mul_left m hlt₁
    rw [Nat.mul_succ] at this
    omega

namespace Core

variable {c : Call β} {swept : ℕ} {x : Worker β}

section

variable (h : x.Core c swept)
include h

lemma phase (p : Phase) : ({ x with phase := p } : Worker β).Core c swept :=
  ⟨h.queue, h.capacity_eq, h.tail_eq, h.count_eq,
    fun op hop => ⟨(h.intact op hop).1, (h.intact op hop).2, (h.intact op hop).3,
      (h.intact op hop).4, (h.intact op hop).5, (h.intact op hop).6⟩,
    h.nodup, h.nonneg, h.loaded⟩

lemma size_eq : x.readQueue.size = x.sq.length := by
  rw [h.queue.size_eq, List.length_map]

lemma isEmpty_iff : x.readQueue.isEmpty = true ↔ x.sq = [] := by
  rw [h.queue.isEmpty_iff, List.map_eq_nil_iff]

lemma sub_eq : x.numSubmitted - x.numCompleted = x.inFlight.length + x.cq.length := by
  rw [h.count_eq, Nat.add_sub_cancel_left]

lemma succ : x.Core c (swept + 1) := by
  have hsub : (x.cq.drop (swept + 1)).Sublist (x.cq.drop swept) := by
    rw [← List.drop_drop]
    exact List.drop_sublist _ _
  have hlive : (x.live (swept + 1)).Sublist (x.live swept) :=
    (List.Sublist.refl _).append ((List.Sublist.refl _).append (hsub.map _))
  exact ⟨h.queue, h.capacity_eq, h.tail_eq, h.count_eq, fun op hop => h.intact op (hlive.subset hop),
    (hlive.map _).nodup h.nodup, fun y hy => h.nonneg y (hsub.subset hy),
    fun y hy => h.loaded y (hsub.subset hy)⟩

/-- `io_uring_cq_advance` -/
lemma advance (hle : swept ≤ x.cq.length) : (x.advance swept).Core c 0 := by
  refine ⟨h.queue, h.capacity_eq, h.tail_eq, ?_, fun op hop => ?_, h.nodup, h.nonneg, h.loaded⟩
  · have hcount := h.count_eq
    show x.numSubmitted = x.numCompleted + swept + (x.inFlight.length + (x.cq.drop swept).length)
    rw [List.length_drop]
    omega
  · have hintact := h.intact op hop
    exact ⟨hintact.1, hintact.2, hintact.3, hintact.4, hintact.5, hintact.6⟩

/-- `io_uring_submit` -/
lemma submitted {k : ℕ} (hk : k ≤ x.sq.length) : (x.submitted k).Core c swept := by
  have hperm := x.live_submitted_perm k swept
  refine ⟨?_, h.capacity_eq, h.tail_eq, ?_, fun op hop => ?_, ?_, h.nonneg, h.loaded⟩
  · show (x.readQueue.popN k).Represents ((x.sq.drop k).map ReadOp.request)
    rw [List.map_drop]
    exact h.queue.popN (by rwa [List.length_map])
  · have hcount := h.count_eq
    show x.numSubmitted + k = x.numCompleted + ((x.inFlight ++ x.sq.take k).length + x.cq.length)
    rw [List.length_append, List.length_take, min_eq_left hk]
    omega
  · have hintact := h.intact op (hperm.subset hop)
    exact ⟨hintact.1, hintact.2, hintact.3, hintact.4, hintact.5, hintact.6⟩
  · exact (hperm.map _).nodup_iff.2 h.nodup

lemma queueRead (hroom : x.sq.length + 1 < 8 * kGroupSize + 1)
    (hwindow : ∀ op ∈ x.live swept, x.readBufferSlot < op.ticket + 8 * kGroupSize)
    {destination readLen offset : ℕ}
    (hrow : ForRow c ⟨destination, readLen, offset, c.array.blockSize,
      c.array.slotStart x.readBufferSlot⟩) :
    (x.queueRead c.array destination readLen offset).Core c swept := by
  set req : ReadRequest := ⟨destination, readLen, offset, c.array.blockSize,
    c.array.slotStart x.readBufferSlot⟩ with hreq
  set x' := x.queueRead c.array destination readLen offset with hx'
  have hcells : x.readQueue.data.length = 8 * kGroupSize + 1 :=
    h.queue.length_data.trans h.capacity_eq
  have htail : x.readQueue.tail < x.readQueue.data.length := by
    rw [h.tail_eq, hcells]
    exact Nat.mod_lt _ (Nat.succ_pos _)
  have hlive : x'.live swept = x.sq ++ (⟨x.readQueue.tail, req, x.readBufferSlot⟩ ::
      (x.inFlight ++ (x.cq.drop swept).map Prod.fst)) := by
    show (x.sq ++ [⟨x.readQueue.tail, req, x.readBufferSlot⟩]) ++
      (x.inFlight ++ (x.cq.drop swept).map Prod.fst) = _
    rw [List.append_assoc, List.singleton_append]
  have hperm : (x'.live swept).Perm
      (⟨x.readQueue.tail, req, x.readBufferSlot⟩ :: x.live swept) := by
    rw [hlive]
    exact List.perm_middle
  refine ⟨?_, h.capacity_eq, ?_, h.count_eq, fun op hop => ?_, ?_, h.nonneg, h.loaded⟩
  · show (x.readQueue.push req).Represents ((x.sq ++ [_]).map ReadOp.request)
    rw [List.map_append]
    exact h.queue.push (by rw [List.length_map, h.capacity_eq]; exact hroom) req
  · show x.readQueue.postIncrement x.readQueue.tail =
      (x.readBufferSlot + 1) % (8 * kGroupSize + 1)
    rw [CircularQueue.postIncrement_eq (h.queue.length_data ▸ htail), h.tail_eq, h.capacity_eq,
      Nat.mod_add_mod]
  · rcases List.mem_cons.1 (hperm.subset hop) with rfl | hold
    · refine ⟨h.tail_eq, rfl, ?_, Nat.lt_succ_self _, ?_, hrow⟩
      · show (x.readQueue.data.set x.readQueue.tail req)[x.readQueue.tail]? = some req
        exact List.getElem?_set_self htail
      · show x.readBufferSlot + 1 ≤ x.readBufferSlot + 8 * kGroupSize
        exact Nat.add_le_add_left (by decide) _
    · have hintact := h.intact op hold
      have hwin := hwindow op hold
      refine ⟨hintact.userData_eq, hintact.buffer_eq, ?_,
        hintact.ticket_lt.trans (Nat.lt_succ_self _), hwin, hintact.forRow⟩
      show (x.readQueue.data.set x.readQueue.tail req)[op.userData]? = some op.request
      rw [List.getElem?_set_ne, hintact.cell_eq]
      rw [h.tail_eq, hintact.userData_eq]
      exact mod_ne_of_lt hintact.ticket_lt (by omega)
  · rw [(hperm.map _).nodup_iff, List.map_cons, List.nodup_cons]
    refine ⟨fun hmem => ?_, h.nodup⟩
    obtain ⟨op, hop, hticket⟩ := List.mem_map.1 hmem
    have heq : op.ticket = x.readBufferSlot := hticket
    have hlt := (h.intact op hop).ticket_lt
    omega

end

/-- A completion of the kernel moves a read into the completion queue. -/
lemma live_completed_perm (x : Worker β) {j swept : ℕ} (hop : x.inFlight[j]? = some op)
    (hswept : swept ≤ x.cq.length) (res : ℤ) :
    ((x.completed c.array op j res).live swept).Perm (x.live swept) := by
  obtain ⟨hj, hget⟩ := List.getElem?_eq_some_iff.1 hop
  have hnew : (x.completed c.array op j res).live swept =
      x.sq ++ (x.inFlight.eraseIdx j ++ ((x.cq.drop swept).map Prod.fst ++ [op])) := by
    show x.sq ++ (x.inFlight.eraseIdx j ++ ((x.cq ++ [(op, res)]).drop swept).map Prod.fst) = _
    rw [List.drop_append_of_le_length hswept, List.map_append, List.map_singleton]
  rw [hnew, live]
  refine List.Perm.append_left _ ?_
  rw [← List.append_assoc]
  refine List.perm_append_singleton _ _ |>.trans ?_
  rw [← List.cons_append]
  refine List.Perm.append_right _ ?_
  rw [← hget]
  exact List.getElem_cons_eraseIdx_perm hj

lemma completed (h : x.Core c swept) {j : ℕ} (hop : x.inFlight[j]? = some op)
    (hswept : swept ≤ x.cq.length) {res : ℤ} (hres : res ≤ op.request.alignedReadSize)
    (hnonneg : 0 ≤ res) : (x.completed c.array op j res).Core c swept := by
  obtain ⟨hj, hget⟩ := List.getElem?_eq_some_iff.1 hop
  have hperm := live_completed_perm (c := c) x hop hswept res
  have hdrop : (x.completed c.array op j res).cq.drop swept = x.cq.drop swept ++ [(op, res)] :=
    List.drop_append_of_le_length hswept
  have hmem : op ∈ x.live swept := mem_live.2 (Or.inr (Or.inl (List.mem_of_getElem? hop)))
  refine ⟨h.queue, h.capacity_eq, h.tail_eq, ?_, fun op' hop' => ?_, ?_, fun y hy => ?_,
    fun y hy => ?_⟩
  · have hcount := h.count_eq
    show x.numSubmitted = x.numCompleted + ((x.inFlight.eraseIdx j).length +
      (x.cq ++ [(op, res)]).length)
    rw [List.length_eraseIdx_of_lt hj, List.length_append, List.length_singleton]
    omega
  · have hintact := h.intact op' (hperm.subset hop')
    exact ⟨hintact.1, hintact.2, hintact.3, hintact.4, hintact.5, hintact.6⟩
  · exact (hperm.map _).nodup_iff.2 h.nodup
  · rw [hdrop] at hy
    rcases List.mem_append.1 hy with hold | hnew
    · exact h.nonneg y hold
    · rw [List.mem_singleton.1 hnew]
      exact hnonneg
  · rw [hdrop] at hy
    rcases List.mem_append.1 hy with hold | hnew
    · -- The bytes go to another slot than that of an older completion.
      have hmem' : y.1 ∈ x.live swept := mem_live.2 (Or.inr (Or.inr ⟨y, hold, rfl⟩))
      have hne : y.1.ticket ≠ op.ticket := by
        have hnodup := h.nodup
        rw [live, ← List.append_assoc, List.map_append, List.nodup_append] at hnodup
        refine (hnodup.2.2 _ ?_ _ ?_).symm
        · exact List.mem_map_of_mem (List.mem_append_right _ (List.mem_of_getElem? hop))
        · exact List.mem_map_of_mem (List.mem_map_of_mem hold)
      obtain ⟨hsize, hbytes⟩ := h.loaded y hold
      refine ⟨hsize, fun i hi => ?_⟩
      rw [← hbytes i hi]
      refine if_neg fun hin => ?_
      have hi' : i < y.1.request.alignedReadSize := by omega
      have hin' : y.1.request.alignedReadBuffer + i - op.request.alignedReadBuffer <
          op.request.alignedReadSize := by omega
      have hdisjoint := slots_disjoint (h.intact y.1 hmem') (h.intact op hmem) hne hi' hin'
      omega
    · rw [List.mem_singleton.1 hnew]
      refine ⟨hres, fun i hi => ?_⟩
      show copyCells (fun p => some (c.array.file p)) op.request.alignedOffset res.toNat x.buffer
        op.request.alignedReadBuffer (op.request.alignedReadBuffer + i) =
          some (c.array.file (op.request.alignedOffset + i))
      rw [copyCells, if_pos ⟨Nat.le_add_right _ _, Nat.add_lt_add_left hi _⟩,
        Nat.add_sub_cancel_left]

end Core

end Worker

end OnDiskNpyArray

end DglAscend.Graphbolt
