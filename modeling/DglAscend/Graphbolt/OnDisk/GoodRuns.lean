import DglAscend.Graphbolt.OnDisk.ReadRows
import DglAscend.Graphbolt.OnDisk.RunLength

/-!
# Runs in which the reads get on

In these runs every completion brings its read on and no check fails.  A run is then no longer
than the potential of its start, and it can be continued until all workers have finished.
-/

namespace DglAscend.Graphbolt

namespace OnDiskNpyArray

variable {β : Type} {n : ℕ} {c : Call β} {s s' : State β n}

open Worker

/-- The step brings a read on, or is that of a worker whose checks hold. -/
def State.GoodStep (c : Call β) (s : State β n) : Label n → Prop
  | .worker w _ => (s.workers w).ChecksHold c
  | .completion w j res => ∀ op, (s.workers w).inFlight[j]? = some op → Advances op res

/-- A run whose steps are all `good`. -/
inductive RunOf (c : Call β) (good : State β n → Label n → Prop) :
    State β n → List (Label n) → State β n → Prop where
  | nil (s : State β n) : RunOf c good s [] s
  | cons {s t s' : State β n} {l : Label n} {labels : List (Label n)} (hgood : good s l)
      (hstep : s.step c l = some t) (hrest : RunOf c good t labels s') :
      RunOf c good s (l :: labels) s'

/-- **Run rule**: an invariant that good steps keep, and a measure that they lower. -/
theorem RunOf.induct_measure {good : State β n → Label n → Prop} {P : State β n → Prop}
    {m : State β n → ℕ} {labels : List (Label n)} (h : RunOf c good s labels s')
    (hstep : ∀ t l t', P t → good t l → t.step c l = some t' → P t' ∧ m t' < m t) (hs : P s) :
    P s' ∧ labels.length + m s' ≤ m s := by
  induction h with
  | nil s => exact ⟨hs, (Nat.zero_add _).le⟩
  | cons hgood hnext hrest ih =>
      obtain ⟨hnew, hlt⟩ := hstep _ _ _ hs hgood hnext
      obtain ⟨hend, hle⟩ := ih hnew
      refine ⟨hend, ?_⟩
      rw [List.length_cons]
      omega

/-- An index that no worker has come to. -/
def State.Pending (s : State β n) (i : ℕ) : Prop :=
  s.workQueue ≤ i ∨ ∃ w, (s.workers w).phase.HasIndex i

/-- What holds in a good run. -/
structure State.Good (c : Call β) (s : State β n) : Prop where
  inv : ∀ w, (s.workers w).Inv c
  advances : ∀ w, ∀ y ∈ (s.workers w).cq.drop (s.workers w).phase.swept, Advances y.1 y.2
  within : ∀ w, (s.workers w).phase.Within c.index.length
  finished : ∀ w, (s.workers w).phase = .finished → c.index.length ≤ s.workQueue
  flag : s.errorFlag = 0 ∨
    s.errorFlag = 1 ∧ ∃ i < c.index.length, c.array.featureId? (c.index.getD i 0) = none
  skipped : ∀ i < c.index.length, c.array.featureId? (c.index.getD i 0) = none →
    s.Pending i ∨ s.errorFlag = 1
  covered : ∀ i < c.index.length, ∀ featureId,
    c.array.featureId? (c.index.getD i 0) = some featureId → ∀ k < c.array.featureSize,
      s.Pending i ∨ RightCell c s.result (c.array.featureSize * i + k) ∨
        ∃ w, (s.workers w).Covers (c.array.featureSize * i + k)

/-- The steps that the call can still take. -/
def State.potential (c : Call β) (s : State β n) : ℕ :=
  13 * ((c.array.featureSize + 3) * itemsLeft c s.workQueue) + ∑ w, (s.workers w).potential c

lemma sum_update_lt {α : Type} (f : α → ℕ) (workers : Fin n → α) (w : Fin n) (x : α) {a a' : ℕ}
    (h : a' + f x < a + f (workers w)) :
    a' + ∑ v, f (Function.update workers w x v) < a + ∑ v, f (workers v) := by
  have hnew := Finset.add_sum_erase Finset.univ (fun v => f (Function.update workers w x v))
    (Finset.mem_univ w)
  have hold := Finset.add_sum_erase Finset.univ (fun v => f (workers v)) (Finset.mem_univ w)
  have hrest : ∑ v ∈ Finset.univ.erase w, f (Function.update workers w x v) =
      ∑ v ∈ Finset.univ.erase w, f (workers v) := by
    refine Finset.sum_congr rfl fun v hv => ?_
    rw [Function.update_of_ne (Finset.ne_of_mem_erase hv)]
  rw [hrest, Function.update_self] at hnew
  omega

variable {x x' : Worker β}

lemma Worker.Inv.seen_le (h : x.Inv c) : x.phase.seen ≤ x.cq.length := by
  have hinv := h.phase
  unfold PhaseInv at hinv
  cases hp : x.phase with
  | sweep b e seen => rw [hp] at hinv; exact hinv.1
  | requeue b e seen useful => rw [hp] at hinv; exact hinv.1.seen_lt
  | copy b e seen useful => rw [hp] at hinv; exact hinv.1.seen_lt
  | _ => exact Nat.zero_le _

lemma Phase.swept_le_seen (p : Phase) : p.swept ≤ p.seen := by
  cases p with
  | requeue b e seen useful => exact Nat.le_succ seen
  | copy b e seen useful => exact Nat.le_succ seen
  | _ => exact le_rfl

/-! ## Steps -/

variable {result : ℕ → Option β} {workQueue : ℕ} {errorFlag : ℤ}

section

variable (h : Turn c s x workQueue errorFlag result x')
include h

lemma Turn.workQueue_le : s.workQueue ≤ workQueue := by
  cases h with
  | finish hphase hend => exact Nat.le_add_right _ _
  | take hphase hend => exact Nat.le_add_right _ _
  | _ => exact le_rfl

lemma Turn.within (hx : x.phase.Within c.index.length) : x'.phase.Within c.index.length := by
  cases h with
  | take hphase hend => exact min_le_right _ _
  | skip hphase hi hid => rw [hphase] at hx; exact hx
  | @issue b i e featureId hphase hi hid =>
      rw [hphase] at hx
      unfold Worker.issueRead
      split
      · obtain ⟨-, h | h | h⟩ := Worker.submitFn_frame (x.queueRead c.array
          (c.array.featureSize * i) c.array.featureSize
          (featureId * c.array.featureSize + c.array.prefixLen)) kGroupSize
          (.submitIssue b (i + 1) e) (.issue b (i + 1) e) <;> rw [h]
        · exact hx
        · exact hx
        · exact trivial
      · exact trivial
  | @flush b i e hphase hi =>
      obtain ⟨-, h | h | h⟩ := x.submitFn_frame 1 (.flush b e) (.wait b e) <;> rw [h] <;> trivial
  | @submitDone after hphase hempty =>
      show after.Within _
      cases hp : x.phase <;> rw [hp] at hphase hx <;> cases hphase
      · exact hx
      · exact trivial
      · exact trivial
  | submit hphase hempty hpos hle => exact hx
  | @sweepRead b e seen op res req hphase hcqe hres hreq =>
      unfold Worker.sweepRead
      dsimp only
      split
      · split
        · obtain ⟨-, h | h | h⟩ := Worker.submitFn_frame (x.queueRead c.array
            (req.destination + req.usefulReadLen res.toNat)
            (req.remainingUsefulReadLen res.toNat) (req.offset + req.usefulReadLen res.toNat))
            kGroupSize (.requeue b e seen (req.usefulReadLen res.toNat))
            (.copy b e seen (req.usefulReadLen res.toNat)) <;> rw [h] <;> trivial
        · trivial
      · trivial
  | _ => trivial

/-- A turn adds nothing to the completions that have not been copied. -/
lemma Turn.drop_subset (hok : x'.phase ≠ .failed) :
    x'.cq.drop x'.phase.swept ⊆ x.cq.drop x.phase.swept := by
  have hsame {y : Worker β} (hcq : x.SameReads y) (hswept : y.phase.swept = x.phase.swept) :
      y.cq.drop y.phase.swept ⊆ x.cq.drop x.phase.swept := by
    rw [hcq.cq_eq, hswept]
    exact List.Subset.refl _
  cases h with
  | finish hphase hend => exact hsame (.phase x _) (by rw [hphase]; rfl)
  | take hphase hend => exact hsame (.phase x _) (by rw [hphase]; rfl)
  | skip hphase hi hid => exact hsame (.phase x _) (by rw [hphase]; rfl)
  | @issue b i e featureId hphase hi hid =>
      refine hsame (x.issueRead_frame c.array b i e featureId).1 ?_
      rw [hphase]
      unfold Worker.issueRead
      split
      · obtain ⟨-, h | h | h⟩ := Worker.submitFn_frame (x.queueRead c.array
          (c.array.featureSize * i) c.array.featureSize
          (featureId * c.array.featureSize + c.array.prefixLen)) kGroupSize
          (.submitIssue b (i + 1) e) (.issue b (i + 1) e) <;> rw [h] <;> rfl
      · rfl
  | @flush b i e hphase hi =>
      obtain ⟨hframe, h⟩ := x.submitFn_frame 1 (.flush b e) (.wait b e)
      refine hsame hframe ?_
      rw [hphase]
      rcases h with h | h | h <;> rw [h] <;> rfl
  | @submitDone after hphase hempty =>
      refine hsame (.phase x _) ?_
      show after.swept = _
      cases hp : x.phase <;> rw [hp] at hphase <;> cases hphase <;> rfl
  | submit hphase hempty hpos hle => exact List.Subset.refl _
  | waitFailed hphase hcheck => exact absurd rfl hok
  | waited hphase hcheck hready hsome => exact hsame (.phase x _) (by rw [hphase]; rfl)
  | sweepEnd hphase hcqe => rw [hphase]; exact List.Subset.refl _
  | sweepError hphase hcqe hres => rw [hphase]; exact List.Subset.refl _
  | @sweepRead b e seen op res req hphase hcqe hres hreq =>
      refine hsame (x.sweepRead_frame c.array b e seen req res.toNat).1 ?_
      rw [hphase]
      unfold Worker.sweepRead at hok ⊢
      dsimp only at hok ⊢
      split at hok
      · rw [if_pos ‹_›]
        split at hok
        · rw [if_pos ‹_›]
          obtain ⟨-, h | h | h⟩ := Worker.submitFn_frame (x.queueRead c.array
            (req.destination + req.usefulReadLen res.toNat)
            (req.remainingUsefulReadLen res.toNat) (req.offset + req.usefulReadLen res.toNat))
            kGroupSize (.requeue b e seen (req.usefulReadLen res.toNat))
            (.copy b e seen (req.usefulReadLen res.toNat))
          · rw [h]
            rfl
          · rw [h]
            rfl
          · exact absurd h hok
        · exact absurd rfl hok
      · rw [if_neg ‹_›]
        rfl
  | @copy b e seen useful op res req hphase hcqe hreq =>
      rw [hphase]
      show x.cq.drop (seen + 1) ⊆ x.cq.drop seen
      rw [← List.drop_drop]
      exact List.drop_subset _ _

/-- Only the end of the loop finishes a worker. -/
lemma Turn.finished (hflag : s.errorFlag ≤ 1) (hfinished : x'.phase = .finished) :
    c.index.length ≤ workQueue := by
  cases h with
  | finish hphase hend =>
      rcases hend with ⟨hle, -⟩ | hgt
      · exact hle.trans (Nat.le_add_right _ _)
      · omega
  | issue hphase hi hid => exact absurd hfinished (x.issueRead_frame _ _ _ _ _).2.2
  | @flush b i e hphase hi =>
      obtain ⟨-, h | h | h⟩ := x.submitFn_frame 1 (.flush b e) (.wait b e) <;>
        rw [h] at hfinished <;> cases hfinished
  | @submitDone after hphase hempty =>
      have hafter : after = .finished := hfinished
      rw [hafter] at hphase
      cases hp : x.phase <;> rw [hp] at hphase <;> cases hphase
  | @submit after k hphase hempty hpos hle =>
      have hsame : x.phase = .finished := hfinished
      rw [hsame] at hphase
      cases hphase
  | sweepRead hphase hcqe hres hreq =>
      exact absurd hfinished (x.sweepRead_frame _ _ _ _ _ _).2.2
  | _ => cases hfinished

/-- In a good run, the flag is set for an index that is out of range. -/
lemma Turn.flag (hx : x.Inv c) (hwithin : x.phase.Within c.index.length) :
    errorFlag = s.errorFlag ∨ errorFlag = 1 ∧
      ∃ i < c.index.length, c.array.featureId? (c.index.getD i 0) = none := by
  cases h with
  | @skip b i e hphase hi hid =>
      rw [hphase] at hwithin
      exact Or.inr ⟨rfl, i, hi.trans_le hwithin, hid⟩
  | @sweepError b e seen op res hphase hcqe hres =>
      have hcore : x.Core c seen := hx.of_phase_eq hphase
      have hmem : (op, errorFlag) ∈ x.cq.drop seen := mem_drop_of_getElem? hcqe
      exact absurd hres (not_lt.2 (hcore.nonneg _ hmem))
  | _ => exact Or.inl rfl

end

namespace State.Good

lemma flag_le (hs : s.Good c) : s.errorFlag ≤ 1 := by
  rcases hs.flag with h | ⟨h, -⟩ <;> omega

/-- **Step lemma** for a worker. -/
lemma turn (hs : s.Good c) {w : Fin n} (h : TakesTurn c s w s' x')
    (hchecks : (s.workers w).ChecksHold c) : s'.Good c ∧ s'.potential c < s.potential c := by
  obtain ⟨hturn, hworkers⟩ := h
  have hx := hs.inv w
  have hok := hturn.phase_ne_failed_of_checks hx hchecks
  have hother {v : Fin n} (hv : v ≠ w) : s'.workers v = s.workers v := by
    rw [hworkers, Function.update_of_ne hv]
  have hself : s'.workers w = x' := by rw [hworkers, Function.update_self]
  have hone (hflag : s.errorFlag = 1) : s'.errorFlag = 1 := by
    rcases hturn.flag hx (hs.within w) with h | ⟨h, -⟩
    · rw [h, hflag]
    · exact h
  -- An index that is to be read stays so, or the worker has come to it.
  have hpending {i : ℕ} (hi : i < c.index.length) (hp : s.Pending i) :
      s'.Pending i ∨ (c.array.featureId? (c.index.getD i 0) = none ∧ s'.errorFlag = 1) ∨
        ∃ featureId, c.array.featureId? (c.index.getD i 0) = some featureId ∧
          ∀ k < c.array.featureSize, x'.Covers (c.array.featureSize * i + k) := by
    by_cases hthis : s.workQueue ≤ i ∨ (s.workers w).phase.HasIndex i
    · rcases hturn.hasIndex hok hs.flag_le hi hthis with (hle | hidx) | hrest
      · exact Or.inl (Or.inl hle)
      · exact Or.inl (Or.inr ⟨w, hself.symm ▸ hidx⟩)
      · exact Or.inr hrest
    · rcases hp with hle | ⟨v, hv⟩
      · exact absurd (Or.inl hle) hthis
      · have hne : v ≠ w := fun heq => hthis (Or.inr (heq ▸ hv))
        exact Or.inl (Or.inr ⟨v, (hother hne).symm ▸ hv⟩)
  refine ⟨⟨fun v => ?_, fun v => ?_, fun v => ?_, fun v hv => ?_, ?_, fun i hi hid => ?_,
    fun i hi featureId hid k hk => ?_⟩, ?_⟩
  · by_cases hvw : v = w
    · rw [hvw, hself]
      exact hturn.inv hx hs.flag_le (hs.within w) hok
    · rw [hother hvw]
      exact hs.inv v
  · by_cases hvw : v = w
    · rw [hvw, hself]
      exact fun y hy => hs.advances w y (hturn.drop_subset hok hy)
    · rw [hother hvw]
      exact hs.advances v
  · by_cases hvw : v = w
    · rw [hvw, hself]
      exact hturn.within (hs.within w)
    · rw [hother hvw]
      exact hs.within v
  · by_cases hvw : v = w
    · rw [hvw, hself] at hv
      exact hturn.finished hs.flag_le hv
    · rw [hother hvw] at hv
      exact (hs.finished v hv).trans hturn.workQueue_le
  · rcases hturn.flag hx (hs.within w) with h | h
    · rw [h]
      exact hs.flag
    · exact Or.inr h
  · rcases hs.skipped i hi hid with hp | hflag
    · rcases hpending hi hp with hp' | ⟨-, hflag⟩ | ⟨featureId, hsome, -⟩
      · exact Or.inl hp'
      · exact Or.inr hflag
      · rw [hid] at hsome
        cases hsome
    · exact Or.inr (hone hflag)
  · rcases hs.covered i hi featureId hid k hk with hp | hright | ⟨v, hv⟩
    · rcases hpending hi hp with hp' | ⟨hnone, -⟩ | ⟨-, -, hcover⟩
      · exact Or.inl hp'
      · rw [hid] at hnone
        cases hnone
      · exact Or.inr (Or.inr ⟨w, hself.symm ▸ hcover k hk⟩)
    · rcases hturn.result_cases hx (c.array.featureSize * i + k) with hsame | hright'
      · obtain ⟨req, hrow, hle, hlt, heq⟩ := hright
        exact Or.inr (Or.inl ⟨req, hrow, hle, hlt, hsame.trans heq⟩)
      · exact Or.inr (Or.inl hright')
    · by_cases hvw : v = w
      · rw [hvw] at hv
        rcases hturn.covers hx hok hv with hcover | hright
        · exact Or.inr (Or.inr ⟨w, hself.symm ▸ hcover⟩)
        · exact Or.inr (Or.inl hright)
      · exact Or.inr (Or.inr ⟨v, (hother hvw).symm ▸ hv⟩)
  · rw [State.potential, State.potential, hworkers]
    exact sum_update_lt _ _ _ _ (hturn.potential_lt hx (hs.advances w) hok)

/-- **Step lemma** for the kernel. -/
lemma completed (hs : s.Good c) {w : Fin n} {op : ReadOp} {j : ℕ} {res : ℤ}
    (hop : (s.workers w).inFlight[j]? = some op) (hres : res ≤ op.request.alignedReadSize)
    (hadv : Advances op res) :
    (s.setWorker w ((s.workers w).completed c.array op j res)).Good c ∧
      (s.setWorker w ((s.workers w).completed c.array op j res)).potential c < s.potential c := by
  set x' := (s.workers w).completed c.array op j res with hx'
  have hx := hs.inv w
  have hphase : x'.phase = (s.workers w).phase := rfl
  have hother {v : Fin n} (hv : v ≠ w) : (s.setWorker w x').workers v = s.workers v :=
    Function.update_of_ne hv _ _
  have hself : (s.setWorker w x').workers w = x' := Function.update_self _ _ _
  have hphases (v : Fin n) : ((s.setWorker w x').workers v).phase = (s.workers v).phase := by
    by_cases hv : v = w
    · rw [hv, hself, hphase]
    · rw [hother hv]
  have hpending {i : ℕ} (hp : s.Pending i) : (s.setWorker w x').Pending i := by
    refine hp.imp_right fun ⟨v, hv⟩ => ⟨v, ?_⟩
    rw [hphases]
    exact hv
  have hle := (Phase.swept_le_seen _).trans hx.seen_le
  refine ⟨⟨fun v => ?_, fun v => ?_, fun v => ?_, fun v hv => ?_, hs.flag, fun i hi hid => ?_,
    fun i hi featureId hid k hk => ?_⟩, ?_⟩
  · by_cases hv : v = w
    · rw [hv, hself]
      exact hx.completed hop hres hadv.1
    · rw [hother hv]
      exact hs.inv v
  · by_cases hv : v = w
    · rw [hv, hself]
      intro y hy
      have hy' : y ∈ ((s.workers w).cq ++ [(op, res)]).drop (s.workers w).phase.swept := hy
      rw [List.drop_append_of_le_length hle] at hy'
      rcases List.mem_append.1 hy' with hold | hnew
      · exact hs.advances w y hold
      · rw [List.mem_singleton.1 hnew]
        exact hadv
    · rw [hother hv]
      exact hs.advances v
  · rw [hphases]
    exact hs.within v
  · rw [hphases] at hv
    exact hs.finished v hv
  · exact (hs.skipped i hi hid).imp_left hpending
  · refine (hs.covered i hi featureId hid k hk).imp hpending (Or.imp_right fun ⟨v, hv⟩ => ⟨v, ?_⟩)
    by_cases hvw : v = w
    · rw [hvw] at hv ⊢
      rw [hself]
      refine hv.of_subset ?_
      exact (Core.live_completed_perm (c := c) _ hop hle res).symm.subset
    · rw [hother hvw]
      exact hv
  · rw [State.potential, State.potential]
    exact sum_update_lt _ _ _ _
      (Nat.add_lt_add_left (potential_completed_lt hx.seen_le hop res) _)

/-- **Step lemma.** -/
theorem step (hs : s.Good c) {l : Label n} (hgood : s.GoodStep c l) (h : s.step c l = some s') :
    s'.Good c ∧ s'.potential c < s.potential c := by
  cases l with
  | worker w k =>
      obtain ⟨x', hturn⟩ := takesTurn_of_workerStep h
      exact hs.turn hturn hgood
  | completion w j res =>
      obtain ⟨op, hop, hres, rfl⟩ := completionStep_eq_some h
      exact hs.completed hop hres (hgood op hop)

end State.Good

lemma State.good_start (c : Call β) : (State.start c.array).Good c := by
  have hcore : (Worker.start β).Core c 0 := by
    refine ⟨CircularQueue.represents_create _ _, rfl, rfl, rfl, ?_, List.nodup_nil, ?_, ?_⟩
    · exact fun op hop => absurd hop List.not_mem_nil
    · exact fun y hy => absurd hy List.not_mem_nil
    · exact fun y hy => absurd hy List.not_mem_nil
  refine ⟨fun w => ⟨hcore, kGroupSize_pos, Nat.zero_le _, Nat.zero_le _, fun op hop => ?_⟩,
    fun w y hy => absurd hy List.not_mem_nil, fun w => trivial, fun w hw => Phase.noConfusion hw, Or.inl rfl, fun i hi hid => ?_,
    fun i hi featureId hid k hk => ?_⟩
  · exact absurd hop List.not_mem_nil
  · exact Or.inl (Or.inl (Nat.zero_le i))
  · exact Or.inl (Or.inl (Nat.zero_le i))

/-! ## The end of a run -/

/-- **Progress**: in a good state that no step leaves, all workers have finished. -/
theorem State.Good.finished_of_stuck (hs : s.Good c) (hstuck : ∀ l, s.step c l = none) (w : Fin n) :
    (s.workers w).phase = .finished := by
  have hx := hs.inv w
  have hcore := hx.core
  have hinv := hx.phase
  have hwait (k : ℕ) : s.workerStep c w k = none := hstuck (.worker w k)
  have hone := hwait 1
  -- The kernel has nothing left to complete.
  have hflight : (s.workers w).inFlight = [] := by
    by_contra hne
    have hpos : 0 < (s.workers w).inFlight.length := List.length_pos_iff.2 hne
    have hnone := hstuck (.completion w 0 0)
    rw [State.step, State.completionStep] at hnone
    rw [List.getElem?_eq_getElem hpos, Option.bind_some, if_pos (Int.natCast_nonneg _)] at hnone
    cases hnone
  have hloop (after : Phase) : ((s.workers w).submitLoop 1 after).isSome := by
    unfold Worker.submitLoop
    by_cases hempty : (s.workers w).readQueue.isEmpty = true
    · rw [if_pos hempty]
      rfl
    · have hsq : 0 < (s.workers w).sq.length := by
        rw [List.length_pos_iff]
        exact fun hnil => hempty (hcore.isEmpty_iff.2 hnil)
      have hk : (0 < 1 && 1 ≤ (s.workers w).sq.length) = true := by
        rw [Bool.and_eq_true, decide_eq_true_eq, decide_eq_true_eq]
        exact ⟨Nat.one_pos, hsq⟩
      rw [if_neg hempty, if_pos hk]
      rfl
  have hcqe {op : ReadOp} {res : ℤ} {seen : ℕ} (hle : (s.workers w).phase.swept ≤ seen)
      (hget : (s.workers w).cq[seen]? = some (op, res)) :
      (s.workers w).readQueue.data[op.userData]? = some op.request := by
    have hmem : (op, res) ∈ (s.workers w).cq.drop (s.workers w).phase.swept := by
      refine List.mem_iff_getElem?.2 ⟨seen - (s.workers w).phase.swept, ?_⟩
      rw [List.getElem?_drop, Nat.add_sub_cancel' hle]
      exact hget
    exact (hcore.intact op (mem_live.2 (Or.inr (Or.inr ⟨_, hmem, rfl⟩)))).cell_eq
  unfold State.workerStep at hone
  dsimp only at hone
  unfold PhaseInv at hinv
  cases hp : (s.workers w).phase with
  | finished => rfl
  | failed =>
      rw [hp] at hinv
      exact hinv.elim
  | top =>
      rw [hp] at hone
      cases hone
  | issue b i e =>
      rw [hp] at hone
      dsimp only at hone
      split at hone
      · split at hone <;> cases hone
      · cases hone
  | submitIssue b i e =>
      rw [hp] at hone
      exact absurd (Option.map_eq_none_iff.1 hone) (Option.ne_none_iff_isSome.2 (hloop _))
  | flush b e =>
      rw [hp] at hone
      exact absurd (Option.map_eq_none_iff.1 hone) (Option.ne_none_iff_isSome.2 (hloop _))
  | requeue b e seen useful =>
      rw [hp] at hone
      exact absurd (Option.map_eq_none_iff.1 hone) (Option.ne_none_iff_isSome.2 (hloop _))
  | wait b e =>
      rw [hp] at hone hinv hcore
      dsimp only at hone
      have hout := hinv.2.2.outstanding_le
      have hsub := hcore.sub_eq
      rw [hflight, List.length_nil, Nat.zero_add] at hsub
      simp only [outstanding] at hout
      rw [if_pos (by omega), if_pos (by omega)] at hone
      split at hone <;> cases hone
  | sweep b e seen =>
      rw [hp] at hone hcqe
      dsimp only at hone
      split at hone
      · cases hone
      · rename_i op res hget
        split at hone
        · cases hone
        · rw [hcqe le_rfl hget] at hone
          cases hone
  | copy b e seen useful =>
      rw [hp] at hone hinv hcqe
      dsimp only at hone
      have hget := List.getElem?_eq_getElem hinv.1.seen_lt
      obtain ⟨op, res, hop⟩ : ∃ op res, (s.workers w).cq[seen]? = some (op, res) := ⟨_, _, hget⟩
      rw [hop, Option.bind_some] at hone
      dsimp only at hone
      rw [hcqe le_rfl hop] at hone
      cases hone

end OnDiskNpyArray

end DglAscend.Graphbolt
