import DglAscend.Graphbolt.Cache.PolicyRun

/-!
# Policies over related queues

A `QueuesHom` is a map between the queues of two policies under which their steps agree.  The
calls of the two policies agree as well, so that queues that record what happens to them run
like the queues they record.  `Kept` is the rule for invariants of runs: what the single
accesses to nodes and the insertions preserve is preserved by every call that returns.
-/

namespace DglAscend.Graphbolt

open PolicyQueues

/-- A map between queues that commutes with the steps of a policy. -/
structure QueuesHom (Q Q' : Type) [PolicyQueues Q] [PolicyQueues Q'] where
  toFun : Q → Q'
  entries_toFun (q : Q) : entries (toFun q) = entries q
  modify_toFun (a : ℕ) (f : CacheKey → CacheKey) (q : Q) :
    modify a f (toFun q) = toFun (modify a f q)
  touch_toFun (a : ℕ) (q : Q) : touch a (toFun q) = toFun (touch a q)
  eraseGhost_toFun (key : ℤ) (q : Q) :
    eraseGhost key (toFun q) = ((eraseGhost key q).1, toFun (eraseGhost key q).2)
  pushFront_toFun (g : Bool) (c : CacheKey) (q : Q) :
    pushFront g c (toFun q) = toFun (pushFront g c q)
  victim_toFun (fuel : ℕ) (q : Q) :
    victim fuel (toFun q) = (victim fuel q).map (fun v _ => v) toFun

namespace CachePolicy

section Simulation

variable {Q Q' : Type} [PolicyQueues Q] [PolicyQueues Q'] (F : QueuesHom Q Q')

/-- The policy over the other queues. -/
def mapQueues (s : CachePolicy Q) : CachePolicy Q' where
  capacity := s.capacity
  cacheUsage := s.cacheUsage
  keyToCacheKey := s.keyToCacheKey
  queues := F.toFun s.queues
  nextAddr := s.nextAddr

@[simp] lemma mapQueues_keyToCacheKey (s : CachePolicy Q) :
    (s.mapQueues F).keyToCacheKey = s.keyToCacheKey := rfl

@[simp] lemma mapQueues_nextAddr (s : CachePolicy Q) :
    (s.mapQueues F).nextAddr = s.nextAddr := rfl

@[simp] lemma mapQueues_queues (s : CachePolicy Q) :
    (s.mapQueues F).queues = F.toFun s.queues := rfl

@[simp] lemma node?_mapQueues (s : CachePolicy Q) (a : ℕ) : (s.mapQueues F).node? a = s.node? a := by
  rw [node?, node?, mapQueues_queues, F.entries_toFun]

lemma modify_mapQueues (a : ℕ) (f : CacheKey → CacheKey) (s : CachePolicy Q) :
    ({ s.mapQueues F with queues := modify a f (s.mapQueues F).queues } : CachePolicy Q') =
      mapQueues F { s with queues := modify a f s.queues } := by
  rw [mapQueues_queues, F.modify_toFun]
  rfl

lemma touch_mapQueues (a : ℕ) (s : CachePolicy Q) :
    ({ s.mapQueues F with queues := touch a (s.mapQueues F).queues } : CachePolicy Q') =
      mapQueues F { s with queues := touch a s.queues } := by
  rw [mapQueues_queues, F.touch_toFun]
  rfl

lemma startRead_mapQueues (c : CacheKey) (s : CachePolicy Q) :
    (startRead c s).map (fun v _ => v) (mapQueues F) = startRead c (s.mapQueues F) := by
  simp only [startRead, modify_mapQueues]
  split <;> rfl

lemma readNode_mapQueues (a : ℕ) (s : CachePolicy Q) :
    (readNode a s).map (fun v _ => v) (mapQueues F) = readNode a (s.mapQueues F) := by
  simp only [readNode, touch_mapQueues, node?_mapQueues]
  split
  · rfl
  · split
    · rfl
    · rw [← startRead_mapQueues]
      exact Outcome.map_state_bind fun _ _ => rfl

lemma read_mapQueues (key : ℤ) (s : CachePolicy Q) :
    (read key s).map (fun v _ => v) (mapQueues F) = read key (s.mapQueues F) := by
  simp only [read, mapQueues_keyToCacheKey]
  split
  · rfl
  · rfl
  · exact readNode_mapQueues F _ s

lemma emplace_mapQueues (key : ℤ) (s : CachePolicy Q) :
    (emplace key s).map (fun v _ => v) (mapQueues F) = emplace key (s.mapQueues F) := by
  simp only [emplace, mapQueues_keyToCacheKey]
  split
  · rfl
  · rfl
  · exact readNode_mapQueues F _ s

variable (fuel : ℕ)

lemma evict_mapQueues (s : CachePolicy Q) :
    (evict fuel s).map (fun v _ => v) (mapQueues F) = evict fuel (s.mapQueues F) := by
  by_cases hroom : s.cacheUsage < s.capacity
  · rw [evict, if_pos hroom, evict, if_pos (show (s.mapQueues F).cacheUsage <
      (s.mapQueues F).capacity from hroom)]
    rfl
  · rw [evict, if_neg hroom, evict, if_neg (show ¬(s.mapQueues F).cacheUsage <
      (s.mapQueues F).capacity from hroom), mapQueues_queues, F.victim_toFun, onQueues, onQueues]
    cases victim fuel s.queues <;> rfl

lemma insert_mapQueues (key : ℤ) (s : CachePolicy Q) :
    (insert fuel key s).map (fun v _ => v) (mapQueues F) = insert fuel key (s.mapQueues F) := by
  simp only [insert, mapQueues_queues, mapQueues_nextAddr, F.eraseGhost_toFun, F.pushFront_toFun]
  by_cases hget : (CacheKey.ofKey s.nextAddr key).getKey = key
  · rw [if_pos hget, if_pos hget]
    refine (Outcome.map_state_bind fun pos t => ?_).trans
      (congrArg (fun x => Outcome.bind x _) (evict_mapQueues F fuel _))
    exact congrArg (Outcome.ok _) (modify_mapQueues F _ _ t).symm
  · rw [if_neg hget, if_neg hget]
    rfl

/-! ### Batches -/

lemma queryStep_mapQueues (out : TwoEnded BatchCell) (x : ℤ × ℕ) (s : CachePolicy Q) :
    (queryStep out x s).map (fun v _ => v) (mapQueues F) = queryStep out x (s.mapQueues F) := by
  rw [queryStep, queryStep, ← read_mapQueues]
  refine Outcome.map_state_bind fun cacheKey t => ?_
  cases cacheKey <;> rfl

lemma queryImpl_mapQueues (keys : List ℤ) (s : CachePolicy Q) :
    (queryImpl keys s).map (fun v _ => v) (mapQueues F) = queryImpl keys (s.mapQueues F) := by
  rw [queryImpl, queryImpl, ← Outcome.map_state_loop (queryStep_mapQueues F)]
  exact Outcome.map_state_bind fun _ _ => rfl

lemma insertUnique_mapQueues (key : ℤ) (ps : List ℤ) (s : CachePolicy Q) :
    (insertUnique fuel key ps s).map (fun v _ => v) (mapQueues F) =
      insertUnique fuel key ps (s.mapQueues F) := by
  rw [insertUnique, insertUnique, ← insert_mapQueues]
  refine Outcome.map_state_bind fun c t => ?_
  split <;> rfl

lemma queryAndReplaceStep_mapQueues (acc : InsertAcc (TwoEnded BatchCell)) (x : ℤ × ℕ)
    (s : CachePolicy Q) : (queryAndReplaceStep fuel acc x s).map (fun v _ => v) (mapQueues F) =
      queryAndReplaceStep fuel acc x (s.mapQueues F) := by
  rw [queryAndReplaceStep, queryAndReplaceStep, ← emplace_mapQueues]
  refine Outcome.map_state_bind fun canRead t => ?_
  cases canRead with
  | some c => rfl
  | none =>
      dsimp only
      by_cases hann : t.keyToCacheKey x.1 = some none
      · rw [if_pos hann, if_pos (mapQueues_keyToCacheKey F t ▸ hann), ← insertUnique_mapQueues]
        exact Outcome.map_state_bind fun _ _ => rfl
      · rw [if_neg hann, if_neg (mapQueues_keyToCacheKey F t ▸ hann)]
        rfl

lemma queryAndReplaceImpl_mapQueues (keys : List ℤ) (s : CachePolicy Q) :
    (queryAndReplaceImpl fuel keys s).map (fun v _ => v) (mapQueues F) =
      queryAndReplaceImpl fuel keys (s.mapQueues F) := by
  rw [queryAndReplaceImpl, queryAndReplaceImpl,
    ← Outcome.map_state_loop (queryAndReplaceStep_mapQueues F fuel)]
  exact Outcome.map_state_bind fun _ _ => rfl

lemma replaceStep_mapQueues (acc : InsertAcc ReplaceResult) (x : ℤ × ℕ) (s : CachePolicy Q) :
    (replaceStep fuel acc x s).map (fun v _ => v) (mapQueues F) =
      replaceStep fuel acc x (s.mapQueues F) := by
  rw [replaceStep, replaceStep, ← emplace_mapQueues]
  refine Outcome.map_state_bind fun _ t => ?_
  by_cases hann : t.keyToCacheKey x.1 = some none
  · rw [if_pos hann, if_pos (mapQueues_keyToCacheKey F t ▸ hann), ← insertUnique_mapQueues]
    exact Outcome.map_state_bind fun _ _ => rfl
  · rw [if_neg hann, if_neg (mapQueues_keyToCacheKey F t ▸ hann)]
    rfl

lemma replaceImpl_mapQueues (keys : List ℤ) (s : CachePolicy Q) :
    (replaceImpl fuel keys s).map (fun v _ => v) (mapQueues F) =
      replaceImpl fuel keys (s.mapQueues F) := by
  rw [replaceImpl, replaceImpl, replaceLoop, replaceLoop,
    ← Outcome.map_state_loop (replaceStep_mapQueues F fuel)]
  exact Outcome.map_state_bind fun _ _ => rfl

lemma endUse_mapQueues (write : Bool) (pointer : Option ℕ) (s : CachePolicy Q) :
    (endUse write pointer s).map (fun v _ => v) (mapQueues F) =
      endUse write pointer (s.mapQueues F) := by
  cases pointer with
  | none => cases write <;> rfl
  | some a =>
      simp only [endUse, node?_mapQueues, modify_mapQueues]
      split <;> rfl

lemma readingWritingCompletedImpl_mapQueues (write : Bool) (pointers : List (Option ℕ))
    (s : CachePolicy Q) :
    (readingWritingCompletedImpl write pointers s).map (fun v _ => v) (mapQueues F) =
      readingWritingCompletedImpl write pointers (s.mapQueues F) :=
  Outcome.map_state_loop (fun _ p t => endUse_mapQueues F write p t) pointers () s

/-! ### Calls -/

variable {F}

/-- And every call of that policy is the image of one. -/
theorem Step.of_mapQueues {s : CachePolicy Q} {t : CachePolicy Q'}
    (h : (s.mapQueues F).Step t) : ∃ s', s.Step s' ∧ t = s'.mapQueues F := by
  cases h with
  | query h =>
      rw [← queryImpl_mapQueues] at h
      obtain ⟨r, s', hrun, -, rfl⟩ := Outcome.map_eq_ok.1 h
      exact ⟨s', .query hrun, rfl⟩
  | queryAndReplace h =>
      rw [← queryAndReplaceImpl_mapQueues] at h
      obtain ⟨r, s', hrun, -, rfl⟩ := Outcome.map_eq_ok.1 h
      exact ⟨s', .queryAndReplace hrun, rfl⟩
  | replace h =>
      rw [← replaceImpl_mapQueues] at h
      obtain ⟨r, s', hrun, -, rfl⟩ := Outcome.map_eq_ok.1 h
      exact ⟨s', .replace hrun, rfl⟩
  | readingCompleted h =>
      rw [CachePolicy.readingCompleted, ← readingWritingCompletedImpl_mapQueues] at h
      obtain ⟨r, s', hrun, -, rfl⟩ := Outcome.map_eq_ok.1 h
      exact ⟨s', .readingCompleted hrun, rfl⟩
  | writingCompleted h =>
      rw [CachePolicy.writingCompleted, ← readingWritingCompletedImpl_mapQueues] at h
      obtain ⟨r, s', hrun, -, rfl⟩ := Outcome.map_eq_ok.1 h
      exact ⟨s', .writingCompleted hrun, rfl⟩

end Simulation

/-! ## Invariants of runs -/

section Kept

variable {Q : Type} [PolicyQueues Q] [LawfulQueues Q]

/-- The accesses to single nodes and the insertions of absent keys preserve `P`. -/
structure Kept (P : CachePolicy Q → Prop) : Prop where
  touch : ∀ s a, P s → P { s with queues := PolicyQueues.touch a s.queues }
  addReference : ∀ s a delta, P s →
    P { s with queues := modify a (CacheKey.addReference delta) s.queues }
  insert : ∀ s fuel key c s', s.Inv → P s → s.keyToCacheKey key = none →
    CachePolicy.insert fuel key (announce key s) = .ok c s' → P s'

namespace Kept

variable {P : CachePolicy Q → Prop} {s s' : CachePolicy Q} {r : Option CacheKey}

omit [LawfulQueues Q] in
lemma readNode_ok (h : ∀ s a, P s → P { s with queues := PolicyQueues.touch a s.queues })
    (hadd : ∀ s a delta, P s →
      P { s with queues := modify a (CacheKey.addReference delta) s.queues })
    {a : ℕ} (hrun : readNode a s = .ok r s') (hs : P s) : P s' := by
  have htouch := h s a hs
  simp only [readNode] at hrun
  split at hrun
  · cases hrun
  · split at hrun
    · cases hrun
      exact htouch
    · obtain ⟨c, t, hstart, hend⟩ := Outcome.bind_eq_ok.1 hrun
      cases hend
      simp only [startRead] at hstart
      split at hstart
      · cases hstart
        exact hadd _ _ _ htouch
      · cases hstart

variable (hP : Kept P)

include hP

lemma of_read {key : ℤ} (hrun : CachePolicy.read key s = .ok r s') (hinv : s.Inv) (hs : P s) :
    s'.Inv ∧ P s' := by
  refine ⟨?_, ?_⟩
  · rcases read_refines hinv key with ⟨t, _, hrun', ht, -⟩ | ⟨c, t, hrun', ht, -⟩ | ⟨t, hrun', -⟩
    all_goals cases hrun'.symm.trans hrun
    · exact ht
    · exact ht
  · unfold CachePolicy.read at hrun
    split at hrun
    · cases hrun
      exact hs
    · cases hrun
    · exact readNode_ok hP.touch hP.addReference hrun hs

/-- A key that `Emplace` finds is only accessed. -/
lemma of_emplace {key : ℤ} (hrun : emplace key s = .ok r s') (hinv : s.Inv) (hs : P s) :
    (r = none ∧ s.keyToCacheKey key = none ∧ s' = announce key s) ∨
      (s'.keyToCacheKey key ≠ some none ∧ s'.Inv ∧ P s') := by
  by_cases hk : s.keyToCacheKey key = none
  · have hann : emplace key s = .ok none (announce key s) := by simp [emplace, hk, announce]
    cases hann.symm.trans hrun
    exact Or.inl ⟨rfl, hk, rfl⟩
  · have hinv' : s'.Inv := by
      rcases emplace_refines hinv key with ⟨hk', -⟩ | ⟨t, hrun', ht, -⟩ | ⟨c, t, hrun', ht, -⟩ |
        ⟨t, hrun', -⟩
      · exact absurd hk' hk
      all_goals cases hrun'.symm.trans hrun
      · exact ht
      · exact ht
    refine Or.inr ⟨hinv'.wellFormed.index_ne_sentinel key, hinv', ?_⟩
    unfold emplace at hrun
    split at hrun
    · exact absurd ‹_› hk
    · cases hrun
    · exact readNode_ok hP.touch hP.addReference hrun hs

lemma of_insertUnique {fuel : ℕ} {key : ℤ} {ps : List ℤ} {c : CacheKey}
    (hk : s.keyToCacheKey key = none)
    (hrun : insertUnique fuel key ps (announce key s) = .ok c s') (hinv : s.Inv) (hs : P s) :
    s'.Inv ∧ P s' := by
  obtain ⟨c', t, hins, hend⟩ := Outcome.bind_eq_ok.1 hrun
  split at hend
  · cases hend
  · cases hend
    refine ⟨?_, hP.insert s fuel key _ _ hinv hs hk hins⟩
    rcases insert_refines hinv hk fuel with ⟨-, t', hrun', -⟩ | ⟨-, c', t', hrun', ht, -⟩ |
      ⟨-, -, -, hrun'⟩
    all_goals cases hrun'.symm.trans hins
    exact ht

lemma of_queryAndReplaceStep {fuel : ℕ} {acc acc' : InsertAcc (TwoEnded BatchCell)} {x : ℤ × ℕ}
    (hrun : queryAndReplaceStep fuel acc x s = .ok acc' s') (hinv : s.Inv) (hs : P s) :
    s'.Inv ∧ P s' := by
  obtain ⟨r, t, hemp, hrest⟩ := Outcome.bind_eq_ok.1 hrun
  rcases hP.of_emplace hemp hinv hs with ⟨rfl, hk, rfl⟩ | ⟨hne, ht, hPt⟩
  · have hann : (announce x.1 s).keyToCacheKey x.1 = some none := Function.update_self ..
    simp only [if_pos hann] at hrest
    obtain ⟨c, t', hins, hend⟩ := Outcome.bind_eq_ok.1 hrest
    cases hend
    exact hP.of_insertUnique hk hins hinv hs
  · cases r with
    | some c =>
        cases hrest
        exact ⟨ht, hPt⟩
    | none =>
        simp only [if_neg hne] at hrest
        cases hrest
        exact ⟨ht, hPt⟩

lemma of_replaceStep {fuel : ℕ} {acc acc' : InsertAcc ReplaceResult} {x : ℤ × ℕ}
    (hrun : replaceStep fuel acc x s = .ok acc' s') (hinv : s.Inv) (hs : P s) :
    s'.Inv ∧ P s' := by
  obtain ⟨r, t, hemp, hrest⟩ := Outcome.bind_eq_ok.1 hrun
  rcases hP.of_emplace hemp hinv hs with ⟨rfl, hk, rfl⟩ | ⟨hne, ht, hPt⟩
  · have hann : (announce x.1 s).keyToCacheKey x.1 = some none := Function.update_self ..
    simp only [if_pos hann] at hrest
    obtain ⟨c, t', hins, hend⟩ := Outcome.bind_eq_ok.1 hrest
    cases hend
    exact hP.of_insertUnique hk hins hinv hs
  · simp only [if_neg hne] at hrest
    cases hrest
    exact ⟨ht, hPt⟩

lemma of_endUse {write : Bool} {p : Option ℕ} (hrun : endUse write p s = .ok () s') (hs : P s) :
    P s' := by
  cases p with
  | none => rwa [(endUse_none hrun).1]
  | some a =>
      rw [endUse_some hrun]
      exact hP.addReference _ _ _ hs

/-- **Step rule**: a call that returns keeps what its accesses and insertions keep. -/
theorem of_step (h : s.Step s') (hinv : s.Inv) (hs : P s) : P s' := by
  cases h with
  | query h =>
      obtain ⟨out, t, hloop, hend⟩ := Outcome.bind_eq_ok.1 h
      cases hend
      refine (Outcome.loop_invariant (P := fun _ _ t => t.Inv ∧ P t) hloop ⟨hinv, hs⟩ ?_).2
      rintro _ x _ _ t _ t' _ ⟨ht, hPt⟩ hrun
      obtain ⟨r, t₁, hread, hend⟩ := Outcome.bind_eq_ok.1 hrun
      cases r <;> cases hend <;> exact hP.of_read hread ht hPt
  | queryAndReplace h =>
      obtain ⟨out, t, hloop, hend⟩ := Outcome.bind_eq_ok.1 h
      cases hend
      refine (Outcome.loop_invariant (P := fun _ _ t => t.Inv ∧ P t) hloop ⟨hinv, hs⟩ ?_).2
      rintro _ x _ _ t _ t' _ ⟨ht, hPt⟩ hrun
      exact hP.of_queryAndReplaceStep hrun ht hPt
  | replace h =>
      obtain ⟨out, t, hloop, hend⟩ := Outcome.bind_eq_ok.1 h
      cases hend
      refine (Outcome.loop_invariant (P := fun _ _ t => t.Inv ∧ P t) hloop ⟨hinv, hs⟩ ?_).2
      rintro _ x _ _ t _ t' _ ⟨ht, hPt⟩ hrun
      exact hP.of_replaceStep hrun ht hPt
  | readingCompleted h =>
      exact Outcome.loop_invariant (P := fun _ _ t => P t) h hs
        fun _ _ _ _ _ _ _ _ ht hrun => hP.of_endUse hrun ht
  | writingCompleted h =>
      exact Outcome.loop_invariant (P := fun _ _ t => P t) h hs
        fun _ _ _ _ _ _ _ _ ht hrun => hP.of_endUse hrun ht

end Kept

end Kept

end CachePolicy

end DglAscend.Graphbolt
