import DglAscend.Graphbolt.OnDisk.Checks

/-!
# What has been read

A cell of the result that is not right yet belongs to an index that no worker has come to, or to
an open read.  The items are handed out in order, and a worker that has found the end of them has
nothing open.
-/

namespace DglAscend.Graphbolt

namespace OnDiskNpyArray

variable {β : Type} {n : ℕ} {c : Call β} {s : State β n}

/-- The byte `k` of a row of the file. -/
def rowByte (a : OnDiskNpyArray β) (featureId k : ℕ) : β :=
  a.file (featureId * a.featureSize + a.prefixLen + k)

/-- A worker has taken the index `i` and not read it. -/
def Phase.HasIndex (i : ℕ) : Phase → Prop
  | .issue _ j e => j ≤ i ∧ i < e
  | .submitIssue _ j e => j ≤ i ∧ i < e
  | _ => False

/-- The cell `p` of the result holds the byte that a request for a row asks for. -/
def RightCell (c : Call β) (result : ℕ → Option β) (p : ℕ) : Prop :=
  ∃ req, ForRow c req ∧ req.destination ≤ p ∧ p < req.destination + req.readLen ∧
    result p = some (c.array.file (req.offset + (p - req.destination)))

variable {result : ℕ → Option β}

lemma RightCell.eq_rowByte {i k featureId : ℕ}
    (h : RightCell c result (c.array.featureSize * i + k)) (hk : k < c.array.featureSize)
    (hid : c.array.featureId? (c.index.getD i 0) = some featureId) :
    result (c.array.featureSize * i + k) = some (c.array.rowByte featureId k) := by
  obtain ⟨req, ⟨-, i', featureId', k', -, hid', hdst, hoff, hlen⟩, hle, hlt, heq⟩ := h
  -- The cell `fs * i + k` is in the row `i'` only if `i' = i`.
  have hcell : c.array.featureSize * i + k =
      c.array.featureSize * i' + (k' + (c.array.featureSize * i + k - req.destination)) := by omega
  have hk' : k' + (c.array.featureSize * i + k - req.destination) < c.array.featureSize := by omega
  have hi : i = i' := by
    have hdiv : (c.array.featureSize * i + k) / c.array.featureSize = i := by
      rw [Nat.mul_add_div (by omega), Nat.div_eq_of_lt hk, Nat.add_zero]
    rw [hcell, Nat.mul_add_div (by omega), Nat.div_eq_of_lt hk', Nat.add_zero] at hdiv
    exact hdiv.symm
  obtain rfl := hi
  obtain rfl : featureId = featureId' := Option.some.inj (hid.symm.trans hid')
  rw [heq, rowByte, hoff]
  refine congrArg (fun q => some (c.array.file q)) ?_
  omega

variable {b i e featureId p : ℕ}

namespace Worker

/-- An open read of the worker asks for the byte of the cell `p`. -/
def Covers (x : Worker β) (p : ℕ) : Prop :=
  ∃ op ∈ x.live x.phase.swept, op.request.destination ≤ p ∧
    p < op.request.destination + op.request.readLen

variable {x x' : Worker β}

lemma Covers.of_subset (h : x.Covers p) (hsub : x.live x.phase.swept ⊆ x'.live x'.phase.swept) :
    x'.Covers p := by
  obtain ⟨op, hop, hcell⟩ := h
  exact ⟨op, hsub hop, hcell⟩

lemma Covers.phase (h : x.Covers p) {q : Phase} (hswept : q.swept = x.phase.swept) :
    ({ x with phase := q } : Worker β).Covers p := by
  refine h.of_subset ?_
  show x.live _ ⊆ x.live q.swept
  rw [hswept]
  exact List.Subset.refl _

lemma Core.buffer_eq {swept seen : ℕ} (h : x.Core c swept) (hle : swept ≤ seen) {op : ReadOp}
    {res : ℤ} (hcqe : x.cq[seen]? = some (op, res)) {j : ℕ}
    (hj : j < op.request.usefulReadLen res.toNat) :
    x.buffer (op.request.readBuffer + j) = some (c.array.file (op.request.offset + j)) := by
  have hmem : (op, res) ∈ x.cq.drop swept := by
    refine List.mem_iff_getElem?.2 ⟨seen - swept, ?_⟩
    rw [List.getElem?_drop, Nat.add_sub_cancel' hle]
    exact hcqe
  have hblock := (h.intact op (mem_live.2 (Or.inr (Or.inr ⟨_, hmem, rfl⟩)))).forRow.blockSize_pow
  have hbytes := (h.loaded _ hmem).2 (op.request.padding + j)
    (ReadRequest.padding_add_lt hblock hj)
  rw [ReadRequest.readBuffer_eq hblock, Nat.add_assoc, hbytes, ReadRequest.offset_eq hblock,
    Nat.add_assoc]

/-- `submit_fn` behind a read that has been queued. -/
lemma Covers.submitFn {swept : ℕ} {op : ReadOp} (hop : op ∈ x.live swept)
    (hcell : op.request.destination ≤ p ∧ p < op.request.destination + op.request.readLen)
    {minimum : ℕ} {loop after : Phase} (hloop : loop.swept = swept) (hafter : after.swept = swept)
    (hok : (x.submitFn minimum loop after).phase ≠ .failed) :
    (x.submitFn minimum loop after).Covers p := by
  rcases x.submitFn_cases minimum loop after with ⟨-, heq⟩ | ⟨-, -, heq⟩ | ⟨-, -, heq⟩
  · rw [heq]
    exact ⟨op, hafter.symm ▸ hop, hcell⟩
  · rw [heq]
    exact ⟨op, hloop.symm ▸ hop, hcell⟩
  · rw [heq] at hok
    exact absurd rfl hok

lemma live_subset_queueRead (a : OnDiskNpyArray β) (x : Worker β) (dst len off swept : ℕ) :
    x.live swept ⊆ (x.queueRead a dst len off).live swept := by
  intro op hop
  rcases mem_live.1 hop with hsq | hrest
  · exact mem_live.2 (Or.inl (List.mem_append_left _ hsq))
  · exact mem_live.2 (Or.inr hrest)

/-- The read of an index keeps the open reads, and covers the row. -/
lemma covers_issueRead (hphase : x.phase = .issue b i e)
    (hok : (x.issueRead c.array b i e featureId).phase ≠ .failed)
    (hcover : x.Covers p ∨
      c.array.featureSize * i ≤ p ∧ p < c.array.featureSize * i + c.array.featureSize) :
    (x.issueRead c.array b i e featureId).Covers p := by
  unfold Worker.issueRead at hok ⊢
  split at hok
  · rw [if_pos ‹_›]
    rcases hcover with ⟨op, hop, hcell⟩ | hcell
    · rw [hphase] at hop
      exact Covers.submitFn (live_subset_queueRead _ _ _ _ _ _ hop) hcell rfl rfl hok
    · let op : ReadOp := ⟨x.readQueue.tail, ⟨c.array.featureSize * i, c.array.featureSize,
        featureId * c.array.featureSize + c.array.prefixLen, c.array.blockSize,
        c.array.slotStart x.readBufferSlot⟩, x.readBufferSlot⟩
      have hop : op ∈ (x.queueRead c.array (c.array.featureSize * i) c.array.featureSize
          (featureId * c.array.featureSize + c.array.prefixLen)).live 0 :=
        mem_live.2 (Or.inl (List.mem_append_right _ (List.mem_singleton.2 rfl)))
      exact Covers.submitFn hop hcell rfl rfl hok
  · exact absurd rfl hok

lemma covers_sweepRead {b e seen actual p : ℕ} {req : ReadRequest}
    (hphase : x.phase = .sweep b e seen)
    (hok : (x.sweepRead c.array b e seen req actual).phase ≠ .failed) (h : x.Covers p) :
    (x.sweepRead c.array b e seen req actual).Covers p := by
  have hswept : x.phase.swept = seen := by rw [hphase]; rfl
  by_cases hrest : req.remainingReadLen actual ≠ 0
  · unfold Worker.sweepRead at hok ⊢
    rw [if_pos hrest] at hok ⊢
    split at hok
    · rw [if_pos ‹_›]
      obtain ⟨op, hop, hcell⟩ := h
      rw [hswept] at hop
      exact Covers.submitFn (live_subset_queueRead _ _ _ _ _ _ hop) hcell rfl rfl hok
    · exact absurd rfl hok
  · rw [Worker.sweepRead, if_neg hrest]
    exact h.phase hswept.symm

end Worker

open Worker

variable {x x' : Worker β} {workQueue : ℕ} {errorFlag : ℤ}

section

variable (h : Turn c s x workQueue errorFlag result x')
include h

/-- What a turn does to the cells of the result. -/
lemma Turn.result_cases (hx : x.Inv c) (p : ℕ) : result p = s.result p ∨ RightCell c result p := by
  cases h with
  | @copy b e seen useful op res req hphase hcqe hreq =>
      have hcore : x.Core c seen := hx.of_phase_eq hphase
      obtain rfl := hcore.request_eq le_rfl hcqe hreq
      have hinv := hx.phase
      rw [PhaseInv, hphase] at hinv
      obtain rfl := hinv.1.useful_eq _ hcqe
      by_cases hp : op.request.destination ≤ p ∧
          p < op.request.destination + op.request.usefulReadLen res.toNat
      · have hmem : (op, res) ∈ x.cq.drop seen := mem_drop_of_getElem? hcqe
        have hrow := (hcore.intact op (mem_live.2 (Or.inr (Or.inr ⟨_, hmem, rfl⟩)))).forRow
        have hle : op.request.usefulReadLen res.toNat ≤ op.request.readLen := Nat.sub_le _ _
        refine Or.inr ⟨op.request, hrow, hp.1, by omega, ?_⟩
        rw [copyCells, if_pos hp]
        exact hcore.buffer_eq le_rfl hcqe (by omega)
      · exact Or.inl (if_neg hp)
  | _ => exact Or.inl rfl

/-- An open read stays open until its bytes have been copied. -/
lemma Turn.covers (hx : x.Inv c) (hok : x'.phase ≠ .failed) (hp : x.Covers p) :
    x'.Covers p ∨ RightCell c result p := by
  cases h with
  | finish hphase hend => exact Or.inl (hp.phase (by rw [hphase]; rfl))
  | take hphase hend => exact Or.inl (hp.phase (by rw [hphase]; rfl))
  | skip hphase hi hid => exact Or.inl (hp.phase (by rw [hphase]; rfl))
  | issue hphase hi hid => exact Or.inl (covers_issueRead hphase hok (Or.inl hp))
  | @flush b i e hphase hi =>
      obtain ⟨op, hop, hcell⟩ := hp
      rw [hphase] at hop
      exact Or.inl (Covers.submitFn hop hcell rfl rfl hok)
  | @submitDone after hphase hempty =>
      refine Or.inl (hp.phase ?_)
      cases hq : x.phase <;> rw [hq] at hphase <;> cases hphase <;> rfl
  | @submit after k hphase hempty hpos hle =>
      exact Or.inl (hp.of_subset (x.live_submitted_perm k x.phase.swept).symm.subset)
  | waitFailed hphase hcheck => exact absurd rfl hok
  | waited hphase hcheck hready hsome => exact Or.inl (hp.phase (by rw [hphase]; rfl))
  | sweepEnd hphase hcqe =>
      refine Or.inl (hp.of_subset ?_)
      rw [hphase]
      exact List.Subset.refl _
  | sweepError hphase hcqe hres =>
      refine Or.inl (hp.of_subset ?_)
      rw [hphase]
      exact List.Subset.refl _
  | sweepRead hphase hcqe hres hreq => exact Or.inl (covers_sweepRead hphase hok hp)
  | @copy b e seen useful op res req hphase hcqe hreq =>
      have hcore : x.Core c seen := hx.of_phase_eq hphase
      obtain rfl := hcore.request_eq le_rfl hcqe hreq
      have hinv := hx.phase
      rw [PhaseInv, hphase] at hinv
      have huseful := hinv.1.useful_eq _ hcqe
      obtain ⟨op', hop', hle, hlt⟩ := hp
      rw [hphase] at hop'
      obtain ⟨hseen, hget⟩ := List.getElem?_eq_some_iff.1 hcqe
      -- The read that leaves the open ones is that of the completion.
      have hcases : op' ∈ x.live (seen + 1) ∨ op' = op := by
        rcases mem_live.1 hop' with hmem | hmem | ⟨y, hy, rfl⟩
        · exact Or.inl (mem_live.2 (Or.inl hmem))
        · exact Or.inl (mem_live.2 (Or.inr (Or.inl hmem)))
        · have hy' : y ∈ x.cq.drop seen := hy
          rw [List.drop_eq_getElem_cons hseen, hget] at hy'
          rcases List.mem_cons.1 hy' with rfl | hy'
          · exact Or.inr rfl
          · exact Or.inl (mem_live.2 (Or.inr (Or.inr ⟨y, hy', rfl⟩)))
      rcases hcases with hlive | rfl
      · exact Or.inl ⟨op', hlive, hle, hlt⟩
      · by_cases hp : p < op'.request.destination + useful
        · have hmem : (op', res) ∈ x.cq.drop seen := by
            refine List.mem_iff_getElem?.2 ⟨0, ?_⟩
            rw [List.getElem?_drop]
            exact hcqe
          have hrow := (hcore.intact op' (mem_live.2 (Or.inr (Or.inr ⟨_, hmem, rfl⟩)))).forRow
          refine Or.inr ⟨op'.request, hrow, hle, hlt, ?_⟩
          rw [copyCells, if_pos ⟨hle, hp⟩]
          refine hcore.buffer_eq le_rfl hcqe ?_
          show p - op'.request.destination < _
          have huseful' : useful = op'.request.usefulReadLen res.toNat := huseful
          omega
        · rcases hinv.1.rest _ hcqe with hall | ⟨op'', hop'', hdst, hlen⟩
          · have hall' : useful = op'.request.readLen := hall
            omega
          · have hdst' : op''.request.destination = op'.request.destination + useful := hdst
            have hlen' : op''.request.readLen = op'.request.readLen - useful := hlen
            exact Or.inl ⟨op'', hop'', by omega, by omega⟩

/-- What becomes of an index that a turn finds to be read. -/
lemma Turn.hasIndex (hok : x'.phase ≠ .failed) (hflag : s.errorFlag ≤ 1) {i : ℕ}
    (hi : i < c.index.length) (hp : s.workQueue ≤ i ∨ x.phase.HasIndex i) :
    (workQueue ≤ i ∨ x'.phase.HasIndex i) ∨
      (c.array.featureId? (c.index.getD i 0) = none ∧ errorFlag = 1) ∨
      ∃ featureId, c.array.featureId? (c.index.getD i 0) = some featureId ∧
        ∀ k < c.array.featureSize, x'.Covers (c.array.featureSize * i + k) := by
  cases h with
  | finish hphase hend =>
      rw [hphase] at hp
      rcases hp with hle | hfalse
      · rcases hend with ⟨hlen, -⟩ | hgt
        · omega
        · omega
      · exact hfalse.elim
  | take hphase hend =>
      rw [hphase] at hp
      rcases hp with hle | hfalse
      · left
        by_cases hlt : i < s.workQueue + x.numRequestedItems
        · exact Or.inr ⟨hle, lt_min hlt hi⟩
        · exact Or.inl (not_lt.1 hlt)
      · exact hfalse.elim
  | @skip b j e hphase hj hid =>
      rw [hphase] at hp
      rcases hp with hle | ⟨hle, hlt⟩
      · exact Or.inl (Or.inl hle)
      · rcases Nat.eq_or_lt_of_le hle with rfl | hgt
        · exact Or.inr (Or.inl ⟨hid, rfl⟩)
        · exact Or.inl (Or.inr ⟨hgt, hlt⟩)
  | @issue b j e featureId hphase hj hid =>
      rw [hphase] at hp
      rcases hp with hle | ⟨hle, hlt⟩
      · exact Or.inl (Or.inl hle)
      · rcases Nat.eq_or_lt_of_le hle with rfl | hgt
        · refine Or.inr (Or.inr ⟨featureId, hid, fun k hk => ?_⟩)
          exact covers_issueRead hphase hok (Or.inr ⟨Nat.le_add_right _ _, Nat.add_lt_add_left hk _⟩)
        · have hnew : (x.issueRead c.array b j e featureId).phase = .submitIssue b (j + 1) e ∨
              (x.issueRead c.array b j e featureId).phase = .issue b (j + 1) e := by
            unfold Worker.issueRead at hok ⊢
            split at hok
            · rw [if_pos ‹_›]
              obtain ⟨-, h | h | h⟩ := Worker.submitFn_frame (x.queueRead c.array
                (c.array.featureSize * j) c.array.featureSize
                (featureId * c.array.featureSize + c.array.prefixLen)) kGroupSize
                (.submitIssue b (j + 1) e) (.issue b (j + 1) e)
              · exact Or.inr h
              · exact Or.inl h
              · exact absurd h hok
            · exact absurd rfl hok
          refine Or.inl (Or.inr ?_)
          rcases hnew with h | h
          · rw [h]
            exact ⟨hgt, hlt⟩
          · rw [h]
            exact ⟨hgt, hlt⟩
  | @flush b j e hphase hj =>
      rw [hphase] at hp
      rcases hp with hle | ⟨hle, hlt⟩
      · exact Or.inl (Or.inl hle)
      · omega
  | @submitDone after hphase hempty =>
      refine Or.inl (hp.imp_right fun hindex => ?_)
      cases hq : x.phase <;> rw [hq] at hphase hindex <;> cases hphase
      · exact hindex
      · exact hindex.elim
      · exact hindex.elim
  | submit hphase hempty hpos hle => exact Or.inl hp
  | waitFailed hphase hcheck => exact absurd rfl hok
  | waited hphase hcheck hready hsome =>
      rw [hphase] at hp
      exact Or.inl (Or.inl (hp.resolve_right fun hfalse => hfalse.elim))
  | sweepEnd hphase hcqe =>
      rw [hphase] at hp
      exact Or.inl (Or.inl (hp.resolve_right fun hfalse => hfalse.elim))
  | sweepError hphase hcqe hres =>
      rw [hphase] at hp
      exact Or.inl (Or.inl (hp.resolve_right fun hfalse => hfalse.elim))
  | sweepRead hphase hcqe hres hreq =>
      rw [hphase] at hp
      exact Or.inl (Or.inl (hp.resolve_right fun hfalse => hfalse.elim))
  | copy hphase hcqe hreq =>
      rw [hphase] at hp
      exact Or.inl (Or.inl (hp.resolve_right fun hfalse => hfalse.elim))

end

end OnDiskNpyArray

end DglAscend.Graphbolt
