import DglAscend.Graphbolt.OnDisk.WorkerTurns

/-!
# Reads that fail

A failed read stays in the completion queue: the loop over the queue stops in front of it, and
`io_uring_cq_advance` does not go past it.  Its worker has always more reads submitted than
completed, and the test of `error_flag` at the head of its loop asks for a value above 1, while
the errors of the kernel are negative.  The worker does not leave its loop.
-/

namespace DglAscend.Graphbolt

namespace OnDiskNpyArray

variable {β : Type} {n : ℕ}

/-- How many completions of the queue a worker has read in this pass. -/
def Phase.seen : Phase → ℕ
  | .sweep _ _ seen => seen
  | .requeue _ _ seen _ => seen + 1
  | .copy _ _ seen _ => seen + 1
  | _ => 0

variable (a : OnDiskNpyArray β)

namespace Worker

/-- What a worker knows of the reads it has submitted. -/
structure Counted (x : Worker β) : Prop where
  count_eq : x.numSubmitted = x.numCompleted + (x.inFlight.length + x.cq.length)
  seen_le : x.phase.seen ≤ x.cq.length
  seen_nonneg : ∀ y ∈ x.cq.take x.phase.seen, 0 ≤ y.2
  finished : x.phase = .finished → x.inFlight = [] ∧ x.cq = []

/-- A read of the worker has failed. -/
def HasFailed (x : Worker β) : Prop := ∃ y ∈ x.cq, y.2 < 0

/-- The steps that touch neither the reads at the kernel nor the completion queue. -/
structure SameReads (x x' : Worker β) : Prop where
  numSubmitted_eq : x'.numSubmitted = x.numSubmitted
  numCompleted_eq : x'.numCompleted = x.numCompleted
  inFlight_eq : x'.inFlight = x.inFlight
  cq_eq : x'.cq = x.cq
  buffer_eq : x'.buffer = x.buffer

variable (x : Worker β)

lemma SameReads.phase (p : Phase) : x.SameReads { x with phase := p } :=
  ⟨rfl, rfl, rfl, rfl, rfl⟩

lemma SameReads.trans {x y z : Worker β} (hxy : x.SameReads y) (hyz : y.SameReads z) :
    x.SameReads z :=
  ⟨hyz.1.trans hxy.1, hyz.2.trans hxy.2, hyz.3.trans hxy.3, hyz.4.trans hxy.4,
    hyz.5.trans hxy.5⟩

lemma SameReads.queueRead (dst len off : ℕ) : x.SameReads (x.queueRead a dst len off) :=
  ⟨rfl, rfl, rfl, rfl, rfl⟩

/-- `submit_fn` changes the phase up to its loop. -/
lemma submitFn_cases (minimum : ℕ) (loop after : Phase) :
    (x.readQueue.size < minimum ∧ x.submitFn minimum loop after = { x with phase := after }) ∨
      (minimum ≤ x.readQueue.size ∧ x.submitChecks = true ∧
        x.submitFn minimum loop after = { x with phase := loop }) ∨
      (minimum ≤ x.readQueue.size ∧ x.submitChecks = false ∧
        x.submitFn minimum loop after = { x with phase := .failed }) := by
  unfold submitFn
  by_cases hsize : x.readQueue.size < minimum
  · exact Or.inl ⟨hsize, if_pos hsize⟩
  · rw [if_neg hsize]
    by_cases hcheck : x.submitChecks = true
    · exact Or.inr (Or.inl ⟨not_lt.1 hsize, hcheck, if_pos hcheck⟩)
    · exact Or.inr (Or.inr ⟨not_lt.1 hsize, Bool.eq_false_iff.2 hcheck, if_neg hcheck⟩)

lemma submitFn_frame (minimum : ℕ) (loop after : Phase) :
    x.SameReads (x.submitFn minimum loop after) ∧
      ((x.submitFn minimum loop after).phase = after ∨
        (x.submitFn minimum loop after).phase = loop ∨
        (x.submitFn minimum loop after).phase = .failed) := by
  rcases x.submitFn_cases minimum loop after with ⟨-, h⟩ | ⟨-, -, h⟩ | ⟨-, -, h⟩
  · rw [h]; exact ⟨.phase x _, Or.inl rfl⟩
  · rw [h]; exact ⟨.phase x _, Or.inr (Or.inl rfl)⟩
  · rw [h]; exact ⟨.phase x _, Or.inr (Or.inr rfl)⟩

lemma issueRead_frame (b i e featureId : ℕ) : x.SameReads (x.issueRead a b i e featureId) ∧
      (x.issueRead a b i e featureId).phase.seen = 0 ∧
      (x.issueRead a b i e featureId).phase ≠ .finished := by
  unfold issueRead
  split
  · obtain ⟨hsame, hphase⟩ := (x.queueRead a (a.featureSize * i) a.featureSize
      (featureId * a.featureSize + a.prefixLen)).submitFn_frame kGroupSize
      (.submitIssue b (i + 1) e) (.issue b (i + 1) e)
    refine ⟨(SameReads.queueRead a x _ _ _).trans hsame, ?_, ?_⟩
    · rcases hphase with h | h | h <;> rw [h] <;> rfl
    · rcases hphase with h | h | h <;> rw [h] <;> exact Phase.noConfusion
  · exact ⟨.phase x _, rfl, Phase.noConfusion⟩

lemma sweepRead_frame (b e seen : ℕ) (req : ReadRequest) (actual : ℕ) :
    x.SameReads (x.sweepRead a b e seen req actual) ∧
      ((x.sweepRead a b e seen req actual).phase.seen = seen + 1 ∨
        (x.sweepRead a b e seen req actual).phase = .failed) ∧
      (x.sweepRead a b e seen req actual).phase ≠ .finished := by
  unfold sweepRead
  dsimp only
  split
  · split
    · obtain ⟨hsame, hphase⟩ := (x.queueRead a (req.destination + req.usefulReadLen actual)
        (req.remainingUsefulReadLen actual)
        (req.offset + req.usefulReadLen actual)).submitFn_frame kGroupSize
        (.requeue b e seen (req.usefulReadLen actual)) (.copy b e seen (req.usefulReadLen actual))
      refine ⟨(SameReads.queueRead a x _ _ _).trans hsame, ?_, ?_⟩
      · rcases hphase with h | h | h
        · exact Or.inl (by rw [h]; rfl)
        · exact Or.inl (by rw [h]; rfl)
        · exact Or.inr h
      · rcases hphase with h | h | h <;> rw [h] <;> exact Phase.noConfusion
    · exact ⟨.phase x _, Or.inr rfl, Phase.noConfusion⟩
  · exact ⟨.phase x _, Or.inl rfl, Phase.noConfusion⟩

namespace Counted

variable {x x' : Worker β}

/-- A step that leaves the reads alone and reads no further completion. -/
lemma of_sameReads (h : x.Counted) (hsame : x.SameReads x')
    (hseen : x'.phase.seen ≤ x.cq.length)
    (hnonneg : ∀ y ∈ x.cq.take x'.phase.seen, 0 ≤ y.2) (hfinished : x'.phase ≠ .finished) :
    x'.Counted where
  count_eq := by
    rw [hsame.numSubmitted_eq, hsame.numCompleted_eq, hsame.inFlight_eq, hsame.cq_eq]
    exact h.count_eq
  seen_le := by rw [hsame.cq_eq]; exact hseen
  seen_nonneg := by rw [hsame.cq_eq]; exact hnonneg
  finished := fun heq => absurd heq hfinished

/-- A step to a phase outside of the pass over the completion queue. -/
lemma of_seen_eq_zero (h : x.Counted) (hsame : x.SameReads x') (hseen : x'.phase.seen = 0)
    (hfinished : x'.phase ≠ .finished) : x'.Counted := by
  refine h.of_sameReads hsame ?_ ?_ hfinished
  · rw [hseen]
    exact Nat.zero_le _
  · rw [hseen, List.take_zero]
    exact fun y hy => absurd hy List.not_mem_nil

/-- `io_uring_cq_advance` in the pass over the completion queue. -/
lemma advance (h : x.Counted) {b e seen : ℕ} (hphase : x.phase = .sweep b e seen) :
    (x.advance seen).Counted := by
  have hle : seen ≤ x.cq.length := by
    have hseen := h.seen_le
    rwa [hphase] at hseen
  refine ⟨?_, Nat.zero_le _, fun y hy => absurd hy List.not_mem_nil, Phase.noConfusion⟩
  have hcount := h.count_eq
  show x.numSubmitted = x.numCompleted + seen + (x.inFlight.length + (x.cq.drop seen).length)
  rw [List.length_drop]
  omega

/-- A failed read is not among the completions that the worker has gone past. -/
lemma hasFailed_advance (h : x.Counted) {b e seen : ℕ} (hphase : x.phase = .sweep b e seen)
    (hfailed : x.HasFailed) : (x.advance seen).HasFailed := by
  obtain ⟨y, hy, hneg⟩ := hfailed
  rw [← List.take_append_drop seen x.cq] at hy
  rcases List.mem_append.1 hy with htake | hdrop
  · have hnonneg := h.seen_nonneg y (by rwa [hphase])
    omega
  · exact ⟨y, hdrop, hneg⟩

end Counted

end Worker

open Worker

variable {c : Call β} {s s' : State β n} {x x' : Worker β} {result : ℕ → Option β} {workQueue : ℕ}
  {errorFlag : ℤ}

/-- **Step lemma** for a turn: the counts stay right, and a failed read stays. -/
theorem Turn.counted (h : Turn c s x workQueue errorFlag result x') (hx : x.Counted)
    (hflag : s.errorFlag ≤ 1) : x'.Counted ∧ (x.HasFailed → x'.HasFailed) := by
  have hkeep {y : Worker β} (hsame : x.SameReads y) (hfailed : x.HasFailed) : y.HasFailed := by
    obtain ⟨z, hz, hneg⟩ := hfailed
    exact ⟨z, by rw [hsame.cq_eq]; exact hz, hneg⟩
  cases h with
  | finish hphase hend =>
      rcases hend with ⟨-, -, hle⟩ | hgt
      · have hcount := hx.count_eq
        have hflight : x.inFlight = [] := List.length_eq_zero_iff.1 (by omega)
        have hcq : x.cq = [] := List.length_eq_zero_iff.1 (by omega)
        refine ⟨⟨hcount, Nat.zero_le _, fun y hy => absurd hy List.not_mem_nil,
          fun _ => ⟨hflight, hcq⟩⟩, ?_⟩
        exact hkeep (.phase x _)
      · omega
  | take hphase hend => exact ⟨hx.of_seen_eq_zero (.phase x _) rfl Phase.noConfusion, hkeep (.phase x _)⟩
  | skip hphase hi hid =>
      exact ⟨hx.of_seen_eq_zero (.phase x _) rfl Phase.noConfusion, hkeep (.phase x _)⟩
  | @issue b i e featureId hphase hi hid =>
      obtain ⟨hsame, hseen, hne⟩ := x.issueRead_frame c.array b i e featureId
      exact ⟨hx.of_seen_eq_zero hsame hseen hne, hkeep hsame⟩
  | @flush b i e hphase hi =>
      obtain ⟨hsame, hnew⟩ := x.submitFn_frame 1 (.flush b e) (.wait b e)
      refine ⟨hx.of_seen_eq_zero hsame ?_ ?_, hkeep hsame⟩
      · rcases hnew with h | h | h <;> rw [h] <;> rfl
      · rcases hnew with h | h | h <;> rw [h] <;> exact Phase.noConfusion
  | @submitDone after hphase hempty =>
      have hafter : after.seen = x.phase.seen ∧ after ≠ .finished := by
        cases hp : x.phase with
        | submitIssue b i e => rw [hp] at hphase; cases hphase; exact ⟨rfl, Phase.noConfusion⟩
        | flush b e => rw [hp] at hphase; cases hphase; exact ⟨rfl, Phase.noConfusion⟩
        | requeue b e seen useful => rw [hp] at hphase; cases hphase; exact ⟨rfl, Phase.noConfusion⟩
        | _ => rw [hp] at hphase; cases hphase
      refine ⟨hx.of_sameReads (.phase x _) ?_ ?_ hafter.2, hkeep (.phase x _)⟩
      · show after.seen ≤ x.cq.length
        rw [hafter.1]
        exact hx.seen_le
      · show ∀ y ∈ x.cq.take after.seen, 0 ≤ y.2
        rw [hafter.1]
        exact hx.seen_nonneg
  | @submit after k hphase hempty hpos hle =>
      have hne : x.phase ≠ .finished := fun heq => by rw [heq] at hphase; cases hphase
      refine ⟨⟨?_, hx.seen_le, hx.seen_nonneg, fun heq => absurd heq hne⟩, fun hfailed => hfailed⟩
      have hcount := hx.count_eq
      show x.numSubmitted + k = x.numCompleted + ((x.inFlight ++ x.sq.take k).length + x.cq.length)
      rw [List.length_append, List.length_take, min_eq_left hle]
      omega
  | waitFailed hphase hcheck =>
      exact ⟨hx.of_seen_eq_zero (.phase x _) rfl Phase.noConfusion, hkeep (.phase x _)⟩
  | waited hphase hcheck hready hsome =>
      exact ⟨hx.of_seen_eq_zero (.phase x _) rfl Phase.noConfusion, hkeep (.phase x _)⟩
  | sweepEnd hphase hcqe => exact ⟨hx.advance hphase, hx.hasFailed_advance hphase⟩
  | sweepError hphase hcqe hres => exact ⟨hx.advance hphase, hx.hasFailed_advance hphase⟩
  | @sweepRead b e seen op res req hphase hcqe hres hreq =>
      obtain ⟨hsame, hseen, hne⟩ := x.sweepRead_frame c.array b e seen req res.toNat
      refine ⟨?_, hkeep hsame⟩
      rcases hseen with hseen | hfail
      · obtain ⟨hlt, hget⟩ := List.getElem?_eq_some_iff.1 hcqe
        refine hx.of_sameReads hsame (by rw [hseen]; exact hlt) ?_ hne
        rw [hseen, List.take_add_one, hcqe, Option.toList_some]
        intro y hy
        rcases List.mem_append.1 hy with hold | hnew
        · exact hx.seen_nonneg y (by rwa [hphase])
        · rw [List.mem_singleton.1 hnew]
          exact hres
      · exact hx.of_seen_eq_zero hsame (by rw [hfail]; rfl) hne
  | @copy b e seen useful op res req hphase hcqe hreq =>
      have hseen := hx.seen_le
      have hnonneg := hx.seen_nonneg
      rw [hphase] at hseen hnonneg
      exact ⟨hx.of_sameReads (.phase x _) hseen hnonneg Phase.noConfusion, hkeep (.phase x _)⟩

/-- A completion of the kernel keeps the counts right. -/
lemma Worker.Counted.completed (hx : x.Counted) (a : OnDiskNpyArray β) {op : ReadOp} {j : ℕ}
    (hop : x.inFlight[j]? = some op) (res : ℤ) :
    (x.completed a op j res).Counted ∧ (x.HasFailed → (x.completed a op j res).HasFailed) := by
  obtain ⟨hj, -⟩ := List.getElem?_eq_some_iff.1 hop
  have hcount := hx.count_eq
  refine ⟨⟨?_, ?_, ?_, ?_⟩, ?_⟩
  · show x.numSubmitted =
      x.numCompleted + ((x.inFlight.eraseIdx j).length + (x.cq ++ [(op, res)]).length)
    rw [List.length_eraseIdx_of_lt hj, List.length_append, List.length_singleton]
    omega
  · show x.phase.seen ≤ (x.cq ++ [(op, res)]).length
    rw [List.length_append]
    exact hx.seen_le.trans (Nat.le_add_right _ _)
  · show ∀ y ∈ (x.cq ++ [(op, res)]).take x.phase.seen, 0 ≤ y.2
    rw [List.take_append_of_le_length hx.seen_le]
    exact hx.seen_nonneg
  · intro hfinished
    have hnil := (hx.finished hfinished).1
    rw [hnil] at hj
    exact absurd hj (Nat.not_lt_zero j)
  · rintro ⟨y, hy, hneg⟩
    exact ⟨y, List.mem_append_left _ hy, hneg⟩

/-! ## Runs -/

/-- What the workers know, and what the flag says about their reads. -/
structure State.Sound (s : State β n) : Prop where
  counted : ∀ w, (s.workers w).Counted
  flag_le : s.errorFlag ≤ 1
  failed : s.errorFlag < 0 → ∃ w, (s.workers w).HasFailed ∨ (s.workers w).phase = .failed

/-- A worker whose `TORCH_CHECK` has thrown takes no turn. -/
lemma Turn.phase_ne_failed (h : Turn c s x workQueue errorFlag result x') :
    x.phase ≠ .failed ∧ x.phase ≠ .finished := by
  cases h
  case submitDone after hphase hempty =>
    refine ⟨fun heq => ?_, fun heq => ?_⟩ <;> rw [heq] at hphase <;> cases hphase
  case submit after k hphase hempty hpos hle =>
    refine ⟨fun heq => ?_, fun heq => ?_⟩ <;> rw [heq] at hphase <;> cases hphase
  all_goals exact ⟨by simp [*], by simp [*]⟩

/-- What a turn does to the flag: a negative value comes from a failed read. -/
lemma Turn.errorFlag_cases (h : Turn c s x workQueue errorFlag result x') :
    errorFlag = s.errorFlag ∨ errorFlag = 1 ∨ errorFlag < 0 ∧ x'.HasFailed := by
  cases h with
  | skip hphase hi hid => exact Or.inr (Or.inl rfl)
  | @sweepError b e seen op res hphase hcqe hres =>
      refine Or.inr (Or.inr ⟨hres, (op, errorFlag), ?_, hres⟩)
      show (op, errorFlag) ∈ x.cq.drop seen
      rw [List.mem_iff_getElem?]
      exact ⟨0, by rw [List.getElem?_drop]; exact hcqe⟩
  | _ => exact Or.inl rfl

/-- A change of one worker that keeps its failed reads. -/
lemma State.Sound.update (hs : s.Sound) {w : Fin n}
    (hworkers : s'.workers = Function.update s.workers w x') (hcounted : x'.Counted)
    (hkeep : (s.workers w).HasFailed ∨ (s.workers w).phase = .failed →
      x'.HasFailed ∨ x'.phase = .failed)
    (hflag : s'.errorFlag = s.errorFlag ∨ s'.errorFlag = 1 ∨ s'.errorFlag < 0 ∧ x'.HasFailed) :
    s'.Sound := by
  have hother {v : Fin n} (hv : v ≠ w) : s'.workers v = s.workers v := by
    rw [hworkers, Function.update_of_ne hv]
  have hself : s'.workers w = x' := by rw [hworkers, Function.update_self]
  refine ⟨fun v => ?_, ?_, fun hneg => ?_⟩
  · by_cases hvw : v = w
    · rw [hvw, hself]
      exact hcounted
    · rw [hother hvw]
      exact hs.counted v
  · have hle := hs.flag_le
    omega
  · rcases hflag with heq | heq | ⟨-, hfailed⟩
    · obtain ⟨v, hv⟩ := hs.failed (heq ▸ hneg)
      refine ⟨v, ?_⟩
      by_cases hvw : v = w
      · rw [hvw] at hv ⊢
        rw [hself]
        exact hkeep hv
      · rwa [hother hvw]
    · omega
    · exact ⟨w, Or.inl (hself.symm ▸ hfailed)⟩

/-- **Step lemma**: no step makes the flag lie about a failed read. -/
theorem State.Sound.step (hs : s.Sound) {l : Label n} (h : s.step c l = some s') : s'.Sound := by
  cases l with
  | worker w k =>
      obtain ⟨x', ⟨hturn, hworkers⟩⟩ := takesTurn_of_workerStep h
      obtain ⟨hcounted, hkeep⟩ := hturn.counted (hs.counted w) hs.flag_le
      exact hs.update hworkers hcounted
        (Or.imp hkeep fun hfail => absurd hfail hturn.phase_ne_failed.1) hturn.errorFlag_cases
  | completion w j res =>
      obtain ⟨op, hop, -, rfl⟩ := completionStep_eq_some h
      obtain ⟨hcounted, hkeep⟩ := (hs.counted w).completed c.array hop res
      exact hs.update rfl hcounted (Or.imp hkeep fun hfail => hfail) (Or.inl rfl)

lemma State.sound_start : (State.start a).Sound where
  counted := fun _ => ⟨rfl, Nat.le_refl 0, fun _ hy => absurd hy List.not_mem_nil,
    fun heq => Phase.noConfusion heq⟩
  flag_le := zero_le_one
  failed := fun hneg => absurd hneg (lt_irrefl 0)

/-- **Invariant rule** for runs. -/
theorem State.run_invariant {P : State β n → Prop} {labels : List (Label n)}
    (h : s.run c labels = some s')
    (hstep : ∀ t l t', P t → t.step c l = some t' → P t') (hs : P s) : P s' := by
  induction labels generalizing s with
  | nil =>
      obtain rfl : s = s' := Option.some.inj h
      exact hs
  | cons l labels ih =>
      rw [State.run, List.foldlM_cons, Option.bind_eq_bind, Option.bind_eq_some_iff] at h
      obtain ⟨t, ht, hrest⟩ := h
      exact ih hrest (hstep s l t hs ht)

/-- **Run lemma.** -/
theorem State.sound_of_run {c : Call β} {s : State β c.array.numThread}
    {labels : List (Label c.array.numThread)}
    (h : (State.start c.array).run c labels = some s) : s.Sound :=
  State.run_invariant h (fun _ _ _ ht hstep => ht.step hstep) (State.sound_start c.array)

namespace State.Sound

/-- A worker with a failed read is in its loop, unless one of its checks has thrown. -/
lemma phase_ne_finished (hs : s.Sound) {w : Fin n} (hfailed : (s.workers w).HasFailed) :
    (s.workers w).phase ≠ .finished := by
  intro hfinished
  obtain ⟨y, hy, -⟩ := hfailed
  rw [((hs.counted w).finished hfinished).2] at hy
  exact List.not_mem_nil hy

/-- **No call reports an error of the kernel.** -/
theorem callEnd_ne_runtimeError (hs : s.Sound) (errno : ℤ) :
    s.callEnd ≠ some (.runtimeError errno) := by
  intro hend
  unfold State.callEnd at hend
  split at hend
  · rename_i hall
    split at hend
    · cases hend
    · rename_i hfail
      split at hend
      · cases hend
      · split at hend
        · cases hend
        · rename_i hzero hone
          have hle := hs.flag_le
          obtain ⟨w, hfailed | hphase⟩ := hs.failed (by omega)
          · refine hs.phase_ne_finished hfailed ((hall w).resolve_right fun hphase => ?_)
            exact hfail ⟨w, hphase⟩
          · exact hfail ⟨w, hphase⟩
  · cases hend

end State.Sound

end OnDiskNpyArray

end DglAscend.Graphbolt
