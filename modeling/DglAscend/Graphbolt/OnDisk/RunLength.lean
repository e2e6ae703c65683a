import DglAscend.Graphbolt.OnDisk.Checks
import Mathlib.Algebra.BigOperators.Group.Finset.Basic

/-!
# How long a call can run

`State.potential` counts the items and the bytes that a call has still to read, and the position
of each worker in its loop.  Every step lowers it, as long as no check fails and each completion
brings its read on.
-/

namespace DglAscend.Graphbolt

namespace OnDiskNpyArray

variable {β : Type} {n : ℕ} {c : Call β} {s : State β n}

/-- The indices that a worker has taken and not read. -/
def Phase.pending : Phase → ℕ
  | .issue _ i e => e - i
  | .submitIssue _ i e => e - i
  | _ => 0

/-- The position in the loop.  A turn without items passes through the lower ranks, and has then
a completion to look at. -/
def Phase.rank : Phase → ℕ
  | .top => 5
  | .issue b _ e => if b < e then 9 else 4
  | .submitIssue _ _ _ => 10
  | .flush b e => if b < e then 8 else 3
  | .wait b e => if b < e then 7 else 2
  | .sweep b e seen => if b < e ∨ 0 < seen then 6 else 1
  | .requeue _ _ _ _ => 8
  | .copy _ _ _ _ => 7
  | .finished => 0
  | .failed => 0

lemma Phase.rank_le (p : Phase) : p.rank ≤ 10 := by
  cases p <;> rw [Phase.rank] <;> first | omega | (split <;> omega)

namespace Worker

/-- The bytes that the open reads ask for, and one for each read. -/
def bytesOpen (x : Worker β) : ℕ :=
  ((x.live x.phase.seen).map fun op => op.request.readLen + 1).sum

/-- The reads that wait for a step of the kernel. -/
def readsOpen (x : Worker β) : ℕ := 2 * x.sq.length + x.inFlight.length

def potential (c : Call β) (x : Worker β) : ℕ :=
  13 * ((c.array.featureSize + 2) * x.phase.pending + x.bytesOpen) + x.readsOpen + x.phase.rank

variable {x x' : Worker β}

lemma potential_withPhase (c : Call β) (x : Worker β) (p : Phase) :
    ({ x with phase := p } : Worker β).potential c =
      13 * ((c.array.featureSize + 2) * p.pending + ({ x with phase := p } : Worker β).bytesOpen) +
        x.readsOpen + p.rank := rfl

lemma potential_phase_lt {p : Phase} (hpending : p.pending = x.phase.pending)
    (hseen : p.seen = x.phase.seen) (hrank : p.rank < x.phase.rank) :
    ({ x with phase := p } : Worker β).potential c < x.potential c := by
  have hbytes : ({ x with phase := p } : Worker β).bytesOpen = x.bytesOpen := by
    show ((x.live p.seen).map _).sum = _
    rw [hseen, bytesOpen]
  rw [potential_withPhase, potential, hbytes, hpending]
  exact Nat.add_lt_add_left hrank _

lemma potential_submitted_lt {k : ℕ} (hpos : 0 < k) (hk : k ≤ x.sq.length) :
    (x.submitted k).potential c < x.potential c := by
  have hbytes : (x.submitted k).bytesOpen = x.bytesOpen :=
    ((x.live_submitted_perm k x.phase.seen).map _).sum_eq
  have hreads : (x.submitted k).readsOpen < x.readsOpen := by
    show 2 * (x.sq.drop k).length + (x.inFlight ++ x.sq.take k).length < _
    rw [readsOpen, List.length_append, List.length_take, List.length_drop, min_eq_left hk]
    omega
  have hphase : (x.submitted k).phase = x.phase := rfl
  rw [potential, potential, hbytes, hphase]
  omega

lemma potential_completed_lt (hcount : x.phase.seen ≤ x.cq.length) {op : ReadOp} {j : ℕ}
    (hop : x.inFlight[j]? = some op) (res : ℤ) :
    (x.completed c.array op j res).potential c < x.potential c := by
  obtain ⟨hj, -⟩ := List.getElem?_eq_some_iff.1 hop
  have hbytes : (x.completed c.array op j res).bytesOpen = x.bytesOpen :=
    ((Core.live_completed_perm x hop hcount res).map _).sum_eq
  have hreads : (x.completed c.array op j res).readsOpen < x.readsOpen := by
    show 2 * x.sq.length + (x.inFlight.eraseIdx j).length < _
    rw [readsOpen, List.length_eraseIdx_of_lt hj]
    omega
  have hphase : (x.completed c.array op j res).phase = x.phase := rfl
  rw [potential, potential, hbytes, hphase]
  omega

lemma potential_advance_lt {b e seen : ℕ} (hphase : x.phase = .sweep b e seen)
    (hprogress : b < e ∨ 0 < seen) : (x.advance seen).potential c < x.potential c := by
  have hbytes : (x.advance seen).bytesOpen = x.bytesOpen := by
    rw [bytesOpen, bytesOpen, hphase]
    rfl
  have hreads : (x.advance seen).readsOpen = x.readsOpen := rfl
  have hpending : (x.advance seen).phase.pending = x.phase.pending := by
    rw [hphase]
    rfl
  have hrank : (x.advance seen).phase.rank < x.phase.rank := by
    rw [hphase]
    show 5 < if b < e ∨ 0 < seen then 6 else 1
    rw [if_pos hprogress]
    exact Nat.lt_succ_self 5
  rw [potential, potential, hbytes, hreads, hpending]
  exact Nat.add_lt_add_left hrank _

/-- The bytes of a read that has been queued. -/
lemma bytesOpen_queueRead (a : OnDiskNpyArray β) (x : Worker β) (dst len off seen : ℕ) :
    (((x.queueRead a dst len off).live seen).map fun op => op.request.readLen + 1).sum =
      ((x.live seen).map fun op => op.request.readLen + 1).sum + (len + 1) := by
  rw [live, live, queueRead]
  simp only [List.map_append, List.sum_append, List.map_cons, List.map_nil, List.sum_cons,
    List.sum_nil]
  omega

lemma bytesOpen_succ {seen : ℕ} {op : ReadOp} {res : ℤ} (hcqe : x.cq[seen]? = some (op, res)) :
    ((x.live seen).map fun op => op.request.readLen + 1).sum =
      ((x.live (seen + 1)).map fun op => op.request.readLen + 1).sum + (op.request.readLen + 1) := by
  obtain ⟨hlt, hget⟩ := List.getElem?_eq_some_iff.1 hcqe
  rw [live, live, List.drop_eq_getElem_cons hlt, hget, List.map_cons]
  simp only [List.map_append, List.map_cons, List.sum_append, List.sum_cons]
  omega

lemma potential_issueRead_lt {b i e featureId : ℕ} (hphase : x.phase = .issue b i e) (hi : i < e)
    (hok : (x.issueRead c.array b i e featureId).phase ≠ .failed) :
    (x.issueRead c.array b i e featureId).potential c < x.potential c := by
  unfold issueRead at hok ⊢
  split at hok
  · set y := x.queueRead c.array (c.array.featureSize * i) c.array.featureSize
      (featureId * c.array.featureSize + c.array.prefixLen) with hy
    have hlt {p : Phase} (hpending : p.pending = e - (i + 1)) (hseen : p.seen = 0) :
        ({ y with phase := p } : Worker β).potential c < x.potential c := by
      have hbytes : ({ y with phase := p } : Worker β).bytesOpen =
          x.bytesOpen + (c.array.featureSize + 1) := by
        show ((y.live p.seen).map _).sum = _
        rw [bytesOpen, hphase, hseen]
        exact bytesOpen_queueRead c.array x _ _ _ 0
      have hreads : y.readsOpen = x.readsOpen + 2 := by
        show 2 * (x.sq ++ [_]).length + x.inFlight.length = _
        rw [List.length_append, List.length_singleton, readsOpen]
        omega
      have hitems : (c.array.featureSize + 2) * x.phase.pending =
          (c.array.featureSize + 2) * p.pending + (c.array.featureSize + 2) := by
        rw [hphase, hpending, ← Nat.mul_succ]
        show _ * (e - i) = _
        rw [show e - i = (e - (i + 1)).succ by omega]
      have hrank := p.rank_le
      rw [potential_withPhase, potential, hbytes, hreads, hitems]
      omega
    rcases y.submitFn_cases kGroupSize (.submitIssue b (i + 1) e) (.issue b (i + 1) e) with
      ⟨-, heq⟩ | ⟨-, -, heq⟩ | ⟨-, -, heq⟩
    · rw [if_pos ‹_›, heq]
      exact hlt rfl rfl
    · rw [if_pos ‹_›, heq]
      exact hlt rfl rfl
    · rw [heq] at hok
      exact absurd rfl hok
  · exact absurd rfl hok

lemma potential_sweepRead_lt {b e seen : ℕ} {op : ReadOp} {res : ℤ} (hphase : x.phase = .sweep b e seen)
    (hcqe : x.cq[seen]? = some (op, res)) (hadv : Advances op res)
    (hblock : ∃ k, op.request.blockSize = 2 ^ k)
    (hok : (x.sweepRead c.array b e seen op.request res.toNat).phase ≠ .failed) :
    (x.sweepRead c.array b e seen op.request res.toNat).potential c < x.potential c := by
  have hopen : x.bytesOpen = ((x.live (seen + 1)).map fun op => op.request.readLen + 1).sum +
      (op.request.readLen + 1) := by
    rw [bytesOpen, hphase]
    exact bytesOpen_succ hcqe
  have hnone : x.phase.pending = 0 := by rw [hphase]; rfl
  by_cases hrest : op.request.remainingReadLen res.toNat ≠ 0
  · have huseful : 0 < op.request.usefulReadLen res.toNat := by
      refine ReadRequest.usefulReadLen_pos hblock ?_ hrest
      refine hadv.2.resolve_right fun hmin => hrest ?_
      exact Nat.sub_eq_zero_of_le hmin
    have hle : op.request.usefulReadLen res.toNat ≤ op.request.readLen := Nat.sub_le _ _
    have hlen := op.request.remainingUsefulReadLen_eq res.toNat
    unfold sweepRead at hok ⊢
    rw [if_pos hrest] at hok ⊢
    split at hok
    · set y := x.queueRead c.array (op.request.destination + op.request.usefulReadLen res.toNat)
        (op.request.remainingUsefulReadLen res.toNat)
        (op.request.offset + op.request.usefulReadLen res.toNat) with hy
      have hlt {p : Phase} (hpending : p.pending = 0) (hseen : p.seen = seen + 1) :
          ({ y with phase := p } : Worker β).potential c < x.potential c := by
        have hbytes : ({ y with phase := p } : Worker β).bytesOpen =
            ((x.live (seen + 1)).map fun op => op.request.readLen + 1).sum +
              (op.request.remainingUsefulReadLen res.toNat + 1) := by
          show ((y.live p.seen).map _).sum = _
          rw [hseen]
          exact bytesOpen_queueRead c.array x _ _ _ (seen + 1)
        have hreads : y.readsOpen = x.readsOpen + 2 := by
          show 2 * (x.sq ++ [_]).length + x.inFlight.length = _
          rw [List.length_append, List.length_singleton, readsOpen]
          omega
        have hrank := p.rank_le
        rw [potential_withPhase, potential, hbytes, hreads, hnone, hopen, hpending]
        omega
      rcases y.submitFn_cases kGroupSize
          (.requeue b e seen (op.request.usefulReadLen res.toNat))
          (.copy b e seen (op.request.usefulReadLen res.toNat)) with
        ⟨-, heq⟩ | ⟨-, -, heq⟩ | ⟨-, -, heq⟩
      · rw [if_pos ‹_›, heq]
        exact hlt rfl rfl
      · rw [if_pos ‹_›, heq]
        exact hlt rfl rfl
      · rw [heq] at hok
        exact absurd rfl hok
    · exact absurd rfl hok
  · have hrun : x.sweepRead c.array b e seen op.request res.toNat =
        { x with phase := .copy b e seen (op.request.usefulReadLen res.toNat) } := by
      rw [Worker.sweepRead, if_neg hrest]
    have hbytes : (x.sweepRead c.array b e seen op.request res.toNat).bytesOpen =
        ((x.live (seen + 1)).map fun op => op.request.readLen + 1).sum := by
      rw [hrun]
      rfl
    have hreads : (x.sweepRead c.array b e seen op.request res.toNat).readsOpen = x.readsOpen := by
      rw [hrun]
      rfl
    rw [potential, potential, hbytes, hreads, hnone, hopen, hrun]
    show 13 * (_ * 0 + _) + _ + 7 < _
    omega

end Worker

open Worker

/-- The items that no worker has taken. -/
def itemsLeft (c : Call β) (workQueue : ℕ) : ℕ := c.index.length - workQueue

/-- **Step lemma**: a turn after which no check has failed lowers the potential. -/
theorem Turn.potential_lt {x x' : Worker β} {workQueue : ℕ} {errorFlag : ℤ} {result : ℕ → Option β}
    (h : Turn c s x workQueue errorFlag result x') (hx : x.Inv c)
    (hadv : ∀ y ∈ x.cq.drop x.phase.swept, Advances y.1 y.2) (hok : x'.phase ≠ .failed) :
    13 * ((c.array.featureSize + 3) * itemsLeft c workQueue) + x'.potential c <
      13 * ((c.array.featureSize + 3) * itemsLeft c s.workQueue) + x.potential c := by
  -- Only the head of the loop takes items.
  have hsame {y : Worker β} (hlt : y.potential c < x.potential c) :
      13 * ((c.array.featureSize + 3) * itemsLeft c s.workQueue) + y.potential c <
        13 * ((c.array.featureSize + 3) * itemsLeft c s.workQueue) + x.potential c :=
    Nat.add_lt_add_left hlt _
  cases h with
  | finish hphase hend =>
      refine Nat.add_lt_add_of_le_of_lt ?_ (potential_phase_lt ?_ ?_ ?_)
      · refine Nat.mul_le_mul_left 13 (Nat.mul_le_mul_left _ ?_)
        exact Nat.sub_le_sub_left (Nat.le_add_right _ _) _
      · rw [hphase]; rfl
      · rw [hphase]; rfl
      · rw [hphase]; exact Nat.zero_lt_succ 4
  | take hphase hend =>
      set e := min (s.workQueue + x.numRequestedItems) c.index.length with he
      have hitems : itemsLeft c s.workQueue =
          itemsLeft c (s.workQueue + x.numRequestedItems) + (e - s.workQueue) := by
        rw [itemsLeft, itemsLeft]
        omega
      have hbytes : ({ x with phase := .issue s.workQueue s.workQueue e } : Worker β).bytesOpen =
          x.bytesOpen := by
        rw [bytesOpen, bytesOpen, hphase]
        rfl
      have hmul : (c.array.featureSize + 3) * itemsLeft c s.workQueue =
          (c.array.featureSize + 3) * itemsLeft c (s.workQueue + x.numRequestedItems) +
            ((c.array.featureSize + 2) * (e - s.workQueue) + (e - s.workQueue)) := by
        rw [hitems, Nat.mul_add, Nat.succ_mul (c.array.featureSize + 2) (e - s.workQueue)]
      rw [hmul, potential, potential, hbytes, hphase]
      show _ + (13 * (_ * (e - s.workQueue) + _) + x.readsOpen +
        (if s.workQueue < e then 9 else 4)) < _ + (13 * (_ * 0 + _) + x.readsOpen + 5)
      split <;> omega
  | @skip b i e hphase hi hid =>
      refine hsame ?_
      have hbytes : ({ x with phase := .issue b (i + 1) e } : Worker β).bytesOpen = x.bytesOpen := by
        rw [bytesOpen, bytesOpen, hphase]
        rfl
      have hrank : Phase.rank (.issue b (i + 1) e) = x.phase.rank := by rw [hphase]; rfl
      have hitems : (c.array.featureSize + 2) * x.phase.pending =
          (c.array.featureSize + 2) * (e - (i + 1)) + (c.array.featureSize + 2) := by
        rw [hphase, ← Nat.mul_succ]
        show _ * (e - i) = _
        rw [show e - i = (e - (i + 1)).succ by omega]
      rw [potential_withPhase, potential, hbytes, hitems, hrank]
      show 13 * (_ * (e - (i + 1)) + _) + _ + _ < _
      omega
  | issue hphase hi hid => exact hsame (potential_issueRead_lt hphase hi hok)
  | @flush b i e hphase hi =>
      refine hsame ?_
      have hnone : e - i = 0 := Nat.sub_eq_zero_of_le (not_lt.1 hi)
      have hlt {p : Phase} (hpending : p.pending = 0) (hseen : p.seen = 0)
          (hrank : p.rank < if b < e then 9 else 4) :
          ({ x with phase := p } : Worker β).potential c < x.potential c := by
        refine potential_phase_lt ?_ ?_ ?_
        · rw [hpending, hphase]
          exact hnone.symm
        · rw [hseen, hphase]
          rfl
        · rwa [hphase]
      rcases x.submitFn_cases 1 (.flush b e) (.wait b e) with
        ⟨-, heq⟩ | ⟨-, -, heq⟩ | ⟨-, -, heq⟩
      · rw [heq]
        refine hlt rfl rfl ?_
        rw [Phase.rank]
        split <;> omega
      · rw [heq]
        refine hlt rfl rfl ?_
        rw [Phase.rank]
        split <;> omega
      · rw [heq] at hok
        exact absurd rfl hok
  | @submitDone after hphase hempty =>
      refine hsame (potential_phase_lt ?_ ?_ ?_)
      all_goals
        cases hp : x.phase <;> rw [hp] at hphase <;> cases hphase
      all_goals first | rfl | skip
      · show (if _ then 9 else 4) < 10
        split <;> omega
      · show (if _ then 7 else 2) < if _ then 8 else 3
        split <;> omega
      · exact Nat.lt_succ_self 7
  | submit hphase hempty hpos hle => exact hsame (potential_submitted_lt hpos hle)
  | waitFailed hphase hcheck => exact absurd rfl hok
  | @waited b e hphase hcheck hready hsome =>
      refine hsame (potential_phase_lt ?_ ?_ ?_)
      · rw [hphase]; rfl
      · rw [hphase]; rfl
      · rw [hphase]
        show (if b < e ∨ 0 < 0 then 6 else 1) < if b < e then 7 else 2
        by_cases hbe : b < e
        · rw [if_pos hbe, if_pos (Or.inl hbe)]
          exact Nat.lt_succ_self 6
        · rw [if_neg hbe, if_neg (not_or.2 ⟨hbe, lt_irrefl 0⟩)]
          exact Nat.lt_succ_self 1
  | @sweepEnd b e seen hphase hcqe =>
      refine hsame (potential_advance_lt hphase ?_)
      have hinv := hx.phase
      rw [PhaseInv, hphase] at hinv
      obtain ⟨-, -, old, hsweep⟩ := hinv
      rcases Nat.eq_zero_or_pos seen with hzero | hpos
      · have hlen := List.getElem?_eq_none_iff.1 hcqe
        have hle := hsweep.old_le_cq
        rcases hsweep.progress hzero with hbe | hold
        · exact Or.inl hbe
        · omega
      · exact Or.inr hpos
  | @sweepError b e seen op res hphase hcqe hres =>
      have hcore : x.Core c seen := hx.of_phase_eq hphase
      have hmem : (op, errorFlag) ∈ x.cq.drop seen := mem_drop_of_getElem? hcqe
      exact absurd hres (not_lt.2 (hcore.nonneg _ hmem))
  | @sweepRead b e seen op res req hphase hcqe hres hreq =>
      have hcore : x.Core c seen := hx.of_phase_eq hphase
      obtain rfl := hcore.request_eq le_rfl hcqe hreq
      have hmem : (op, res) ∈ x.cq.drop seen := mem_drop_of_getElem? hcqe
      have hrow := (hcore.intact op (mem_live.2 (Or.inr (Or.inr ⟨_, hmem, rfl⟩)))).forRow
      rw [hphase] at hadv
      exact hsame (potential_sweepRead_lt hphase hcqe (hadv _ hmem) hrow.blockSize_pow hok)
  | @copy b e seen useful op res req hphase hcqe hreq =>
      refine hsame (potential_phase_lt ?_ ?_ ?_)
      · rw [hphase]; rfl
      · rw [hphase]; rfl
      · rw [hphase]
        show (if b < e ∨ 0 < seen + 1 then 6 else 1) < 7
        split <;> omega

end OnDiskNpyArray

end DglAscend.Graphbolt
