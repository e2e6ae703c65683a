import DglAscend.Graph.IdHashMap
import DglAscend.Graph.MappingTable

/-!
# Which occurrence inserts an id

`Init` of `ConcurrentIdHashMap` inserts the ids in two parallel loops, over the seeds and over the ids
behind them.  A step of a thread is one `AttemptInsertAt`; the values of the slots, which none of these
steps reads, are left out.  In every run of the two loops the outcome of the threads is a `Race`: every
id that is no seed is inserted by exactly one of its occurrences (`race_of_runs`).
-/

namespace DglAscend.Graph

open Graphbolt

variable {τ : IdType}

/-- A thread in its part of a loop, with the next probe for the id at `index`. -/
structure Inserter (τ : IdType) where
  index : ℕ
  stop : ℕ
  probe : Probe τ

/-- The table and the threads, with the indices whose `Insert` has returned `true`. -/
structure Inserting (τ : IdType) where
  table : MappingTable τ
  threads : ℕ → Inserter τ
  inserted : List ℕ

section

variable (ids : List (Id τ))

/-- A thread that begins with the id at an index. -/
def Inserter.start (t : MappingTable τ) (index stop : ℕ) : Inserter τ :=
  ⟨index, stop, t.home (ids.getD index 0)⟩

namespace Inserting

/-- A loop over `[b, e)` begins. -/
def loop (t : MappingTable τ) (par : ParallelFor) (b e : ℕ) : Inserting τ where
  table := t
  threads k := .start ids t (par.bound b e k) (par.bound b e (k + 1))
  inserted := []

/-- The next `AttemptInsertAt` of a thread. -/
def attempt (s : Inserting τ) (k : ℕ) : Except IdMapFailure (Inserting τ) := do
  let w := s.threads k
  match ← s.table.attemptInsertAt (ids.getD w.index 0) w.probe with
  | none => .ok { s with threads := Function.update s.threads k { w with probe := s.table.next w.probe } }
  | some (new, t) =>
    .ok ⟨t, Function.update s.threads k (.start ids t (w.index + 1) w.stop),
      if new then w.index :: s.inserted else s.inserted⟩

/-- One of `n` threads takes a step. -/
inductive Step (n : ℕ) (s s' : Inserting τ) : Prop
  | step {k : ℕ} (hk : k < n) (hruns : (s.threads k).index < (s.threads k).stop)
      (h : s.attempt ids k = .ok s') : Step n s s'

/-- A loop has been run to its end. -/
structure Run (t : MappingTable τ) (par : ParallelFor) (b e : ℕ) (s : Inserting τ) : Prop where
  reach : Relation.ReflTransGen (Step ids par.numThreads) (loop ids t par b e) s
  stop_le : ∀ k < par.numThreads, (s.threads k).stop ≤ (s.threads k).index

/-- `valid` -/
def valid (s : Inserting τ) (b e : ℕ) : List Bool :=
  (List.range' b (e - b)).map fun i => decide (i ∈ s.inserted)

end Inserting

end

/-! ## One loop -/

namespace Inserting

variable {ids : List (Id τ)} {t t' t₀ : MappingTable τ} {par par' : ParallelFor}
  {b e i j k m numSeeds : ℕ} {ins : List ℕ} {s s' : Inserting τ} {w : Inserter τ}

lemma sized_of_positions (hpos : t.positions = t₀.positions) (ht : t₀.Sized m) : t.Sized m := by
  have hsize : 2 * t.capacity = 2 * t₀.capacity := congrArg IdTable.size hpos
  have hcap := ht.capacity
  exact ⟨(congrArg IdTable.mask hpos).trans ht.mask, by omega⟩

/-- The result of an `AttemptInsertAt`, by the key of the slot. -/
lemma attemptInsertAt_eq (ids : List (Id τ)) (hpos : t.positions = t₀.positions) (ht : t₀.Sized m)
    (hm : m ≤ τ.bits - 1)
    (id : Id τ) (j : ℕ) : ∃ q, q = (t₀.positions.quadraticPaths ids).path id j ∧
      t.attemptInsertAt id (t₀.positions.probeAt id j) =
        .ok (if (t.slots q).key = emptyKey then some (true, t.setKey q id)
          else if (t.slots q).key = id then some (false, t) else none) := by
  obtain ⟨hint, -, hslot⟩ := MappingTable.slot_eq (sized_of_positions hpos ht) hm id j
  have hprobe : t₀.positions.probeAt id j = t.next^[j] (t.home id) := by
    rw [← hpos]
    rfl
  refine ⟨t.place id j, ?_, ?_⟩
  · rw [← hpos]
    rfl
  · rw [hprobe, MappingTable.attemptInsertAt, hslot]
    show (if _ then _ else _) = _
    rw [hint, Int.toNat_natCast]
    split_ifs
    · rfl
    · rfl
    · rfl

/-- What is known of the table and of the inserted indices, in a loop that began with the table `t₀`. -/
structure TableOk (ids : List (Id τ)) (t₀ : MappingTable τ) (b e : ℕ) (t : MappingTable τ)
    (ins : List ℕ) : Prop where
  positions : t.positions = t₀.positions
  holds : (t₀.positions.quadraticPaths ids).Holds t.keyAt
  grown : Paths.Extends t₀.keyAt t.keyAt
  origin : ∀ p x, t.keyAt p = some x → t₀.keyAt p = some x ∨ ∃ i ∈ ins, ids.getD i 0 = x
  bounds : ∀ i ∈ ins, b ≤ i ∧ i < e
  fresh : ∀ i ∈ ins, ∀ p, t₀.keyAt p ≠ some (ids.getD i 0)
  present : ∀ i ∈ ins, ∃ p, t.keyAt p = some (ids.getD i 0)
  once : ∀ i ∈ ins, ∀ i' ∈ ins, ids.getD i 0 = ids.getD i' 0 → i = i'

/-- What thread `k` knows. -/
structure ThreadOk (ids : List (Id τ)) (t₀ : MappingTable τ) (par : ParallelFor) (b e : ℕ)
    (t : MappingTable τ) (k : ℕ) (w : Inserter τ) : Prop where
  stop_eq : w.stop = par.bound b e (k + 1)
  bound_le : par.bound b e k ≤ w.index
  done : ∀ i, par.bound b e k ≤ i → i < w.index → ∃ p, t.keyAt p = some (ids.getD i 0)
  passed : ∃ j, w.probe = t₀.positions.probeAt (ids.getD w.index 0) j ∧
    (t₀.positions.quadraticPaths ids).Passed t.keyAt (ids.getD w.index 0) j

/-- What holds in a loop. -/
structure Ok (ids : List (Id τ)) (t₀ : MappingTable τ) (par : ParallelFor) (b e : ℕ)
    (s : Inserting τ) : Prop where
  table : TableOk ids t₀ b e s.table s.inserted
  thread : ∀ k < par.numThreads, ThreadOk ids t₀ par b e s.table k (s.threads k)

lemma ThreadOk.later (h : ThreadOk ids t₀ par b e t k w) (hext : Paths.Extends t.keyAt t'.keyAt) :
    ThreadOk ids t₀ par b e t' k w := by
  obtain ⟨j, hprobe, hpassed⟩ := h.passed
  refine ⟨h.stop_eq, h.bound_le, fun i hle hlt => ?_, j, hprobe, hpassed.extend hext⟩
  obtain ⟨p, hp⟩ := h.done i hle hlt
  exact ⟨p, hext _ _ hp⟩

/-- A thread whose id is in the table goes on to the next one. -/
lemma ThreadOk.start (h : ThreadOk ids t₀ par b e t k w) (hpos : t.positions = t₀.positions)
    (hin : ∃ p, t.keyAt p = some (ids.getD w.index 0)) :
    ThreadOk ids t₀ par b e t k (.start ids t (w.index + 1) w.stop) := by
  refine ⟨h.stop_eq, h.bound_le.trans (Nat.le_succ _), fun i hle hlt => ?_, 0, ?_,
    Paths.passed_zero _ _ _⟩
  · rcases Nat.lt_succ_iff_lt_or_eq.1 hlt with hlt | rfl
    · exact h.done i hle hlt
    · exact hin
  · show t.positions.home _ = t₀.positions.home _
    rw [hpos]
    rfl

/-- The table after an id is put into a free slot. -/
lemma TableOk.put (h : TableOk ids t₀ b e t ins) (hid : ids.getD i 0 ≠ emptyKey)
    (hmem : ids.getD i 0 ∈ ids) (hb : b ≤ i) (he : i < e)
    (hpassed : (t₀.positions.quadraticPaths ids).Passed t.keyAt (ids.getD i 0) j)
    (hempty : t.keyAt ((t₀.positions.quadraticPaths ids).path (ids.getD i 0) j) = none) :
    TableOk ids t₀ b e (t.setKey ((t₀.positions.quadraticPaths ids).path (ids.getD i 0) j)
      (ids.getD i 0)) (i :: ins) := by
  have hputs : (t₀.positions.quadraticPaths ids).Puts t.keyAt (ids.getD i 0) (t.setKey
      ((t₀.positions.quadraticPaths ids).path (ids.getD i 0) j) (ids.getD i 0)).keyAt := by
    rw [MappingTable.setKey_keyAt t _ hid]
    exact .put trivial hpassed hempty
  have hext := hputs.extends
  have habsent := h.holds.chained.absent hpassed hempty
  refine ⟨h.positions, hputs.holds h.holds hmem, fun p x hx => hext p x (h.grown p x hx),
    fun p x hx => ?_, ?_, ?_, ?_, fun i₁ h₁ i₂ h₂ heq => ?_⟩
  · rw [MappingTable.setKey_keyAt t _ hid] at hx
    by_cases hp : p = (t₀.positions.quadraticPaths ids).path (ids.getD i 0) j
    · rw [hp, Function.update_self] at hx
      exact .inr ⟨i, List.mem_cons_self, Option.some.inj hx⟩
    · rw [Function.update_of_ne hp] at hx
      exact (h.origin p x hx).imp_right fun ⟨i', hi', heq⟩ => ⟨i', List.mem_cons_of_mem _ hi', heq⟩
  · exact List.forall_mem_cons.2 ⟨⟨hb, he⟩, h.bounds⟩
  · exact List.forall_mem_cons.2 ⟨fun p hp => habsent p (h.grown p _ hp), h.fresh⟩
  · refine List.forall_mem_cons.2 ⟨hputs.exists, fun i' hi' => ?_⟩
    obtain ⟨p, hp⟩ := h.present i' hi'
    exact ⟨p, hext p _ hp⟩
  · rcases List.mem_cons.1 h₁ with rfl | hold₁
    · rcases List.mem_cons.1 h₂ with rfl | hold₂
      · rfl
      · obtain ⟨p, hp⟩ := h.present i₂ hold₂
        exact absurd (heq ▸ hp) (habsent p)
    · rcases List.mem_cons.1 h₂ with rfl | hold₂
      · obtain ⟨p, hp⟩ := h.present i₁ hold₁
        exact absurd (heq ▸ hp) (habsent p)
      · exact h.once i₁ hold₁ i₂ hold₂ heq

/-- **A step of any thread** keeps what is known. -/
theorem Ok.step (h : s.Ok ids t₀ par b e) (ht : t₀.Sized m) (hm : m ≤ τ.bits - 1)
    (hids : ∀ id ∈ ids, id ≠ emptyKey) (hbe : b ≤ e) (he : e ≤ ids.length)
    (hstep : Step ids par.numThreads s s') : s'.Ok ids t₀ par b e := by
  obtain ⟨hk, hruns, hstep⟩ := hstep
  rename_i k
  have hw := h.thread k hk
  obtain ⟨j, hprobe, hpassed⟩ := hw.passed
  -- The index is in the part of the thread, so it is in the loop.
  have hfirst := boundary_mono (par.mono b e hbe) (Nat.zero_le k) hk.le
  have hlast := boundary_mono (par.mono b e hbe) (Nat.succ_le_of_lt hk) le_rfl
  rw [par.first b e hbe] at hfirst
  rw [par.last b e hbe, ← hw.stop_eq] at hlast
  have hb := hfirst.trans hw.bound_le
  have hi := hruns.trans_le hlast
  have hmem : ids.getD (s.threads k).index 0 ∈ ids := by
    rw [List.getD_eq_getElem _ _ (hi.trans_le he)]
    exact List.getElem_mem _
  have hid := hids _ hmem
  -- What is left is the table and the thread after the step.
  have hafter {t : MappingTable τ} {ins : List ℕ} {w : Inserter τ} (htable : TableOk ids t₀ b e t ins)
      (hext : Paths.Extends s.table.keyAt t.keyAt) (hthread : ThreadOk ids t₀ par b e t k w) :
      Ok ids t₀ par b e ⟨t, Function.update s.threads k w, ins⟩ := by
    refine ⟨htable, fun k' hk' => ?_⟩
    show ThreadOk ids t₀ par b e t k' (Function.update s.threads k w k')
    by_cases hkk : k' = k
    · rw [hkk, Function.update_self]
      exact hthread
    · rw [Function.update_of_ne hkk]
      exact (h.thread k' hk').later hext
  obtain ⟨q, hq, hattempt⟩ := attemptInsertAt_eq ids h.table.positions ht hm
    (ids.getD (s.threads k).index 0) j
  rw [attempt, hprobe, hattempt] at hstep
  by_cases hempty : (s.table.slots q).key = emptyKey
  · rw [if_pos hempty] at hstep
    obtain rfl := Except.ok.inj hstep
    subst hq
    have hput := h.table.put hid hmem hb hi hpassed (MappingTable.keyAt_eq_none.2 hempty)
    have hext := Paths.extends_insert (MappingTable.keyAt_eq_none.2 hempty)
      (ids.getD (s.threads k).index 0)
    rw [← MappingTable.setKey_keyAt s.table _ hid] at hext
    exact hafter hput hext
      ((hw.later hext).start hput.positions (hput.present _ List.mem_cons_self))
  · rw [if_neg hempty] at hstep
    by_cases hkey : (s.table.slots q).key = ids.getD (s.threads k).index 0
    · rw [if_pos hkey] at hstep
      obtain rfl := Except.ok.inj hstep
      exact hafter h.table (Paths.extends_refl _)
        (hw.start h.table.positions ⟨q, MappingTable.keyAt_eq_some.2 ⟨hkey, hid⟩⟩)
    · rw [if_neg hkey] at hstep
      obtain rfl := Except.ok.inj hstep
      refine hafter h.table (Paths.extends_refl _)
        ⟨hw.stop_eq, hw.bound_le, hw.done, j + 1, ?_, hpassed.succ ?_ hkey⟩
      · show s.table.positions.next _ = _
        rw [h.table.positions, IdTable.probeAt_succ]
      · rw [← hq]
        exact MappingTable.keyAt_eq_some.2 ⟨rfl, hempty⟩

lemma Ok.attempt_ok (h : s.Ok ids t₀ par b e) (ht : t₀.Sized m) (hm : m ≤ τ.bits - 1)
    (hk : k < par.numThreads) : ∃ s', s.attempt ids k = .ok s' := by
  obtain ⟨j, hprobe, -⟩ := (h.thread k hk).passed
  obtain ⟨q, -, hattempt⟩ := attemptInsertAt_eq ids h.table.positions ht hm
    (ids.getD (s.threads k).index 0) j
  rw [attempt, hprobe, hattempt]
  split_ifs
  · exact ⟨_, rfl⟩
  · exact ⟨_, rfl⟩
  · exact ⟨_, rfl⟩

/-- **Every run of a loop** keeps what is known, and puts all its ids into the table. -/
theorem Run.ok (h : Run ids t₀ par b e s) (ht : t₀.Sized m) (hm : m ≤ τ.bits - 1)
    (hids : ∀ id ∈ ids, id ≠ emptyKey) (hbe : b ≤ e) (he : e ≤ ids.length)
    (hholds : (t₀.positions.quadraticPaths ids).Holds t₀.keyAt) :
    TableOk ids t₀ b e s.table s.inserted ∧
      ∀ i, b ≤ i → i < e → ∃ p, s.table.keyAt p = some (ids.getD i 0) := by
  obtain ⟨hreach, hstop⟩ := h
  have hok : s.Ok ids t₀ par b e := by
    clear hstop
    induction hreach with
    | refl =>
        exact ⟨⟨rfl, hholds, Paths.extends_refl _, fun _ _ hx => .inl hx, nofun, nofun, nofun, nofun⟩,
          fun k hk => ⟨rfl, le_rfl, fun i hle hlt => absurd hlt (not_lt.2 hle), 0, rfl,
            Paths.passed_zero _ _ _⟩⟩
    | tail _ hstep ih => exact ih.step ht hm hids hbe he hstep
  refine ⟨hok.table, fun i hb hi => ?_⟩
  obtain ⟨k, -, hk, hle, hlt⟩ := exists_inSlot (b := par.bound b e) (Nat.zero_le par.numThreads)
    ((par.first b e hbe).trans_le hb) (hi.trans_eq (par.last b e hbe).symm)
  have hw := hok.thread k hk
  exact hw.done i hle (hlt.trans_le (hw.stop_eq.symm.trans_le (hstop k hk)))

/-! ## Both loops -/

/-- The ids that are inserted behind the seeds. -/
lemma inserted_eq (numSeeds : ℕ) (s : Inserting τ) :
    IdHashMap.inserted (ids.map BitVec.toNat) numSeeds (s.valid numSeeds ids.length) =
      (List.range' numSeeds (ids.length - numSeeds)).filterMap fun i =>
        if i ∈ s.inserted then some (ids.getD i 0).toNat else none := by
  have hdrop : (ids.map BitVec.toNat).drop numSeeds =
      (List.range' numSeeds (ids.length - numSeeds)).map fun i => (ids.getD i 0).toNat := by
    refine List.ext_getElem (by simp) fun i hi hi' => ?_
    rw [List.length_drop, List.length_map] at hi
    rw [List.getElem_drop, List.getElem_map, List.getElem_map, List.getElem_range', Nat.one_mul,
      List.getD_eq_getElem _ _ (by omega)]
  rw [IdHashMap.inserted, hdrop, valid, List.zip_map', List.filterMap_map]
  congr 1
  funext i
  simp only [Function.comp_apply, decide_eq_true_eq]

/-- **The outcome of the threads**: every id that is no seed is inserted by exactly one of its
occurrences. -/
theorem race_of_runs (ht : t₀.Sized m) (hm : m ≤ τ.bits - 1) (hempty : ∀ p, t₀.keyAt p = none)
    (hids : ∀ id ∈ ids, id ≠ emptyKey) (hn : numSeeds ≤ ids.length)
    (hseeds : Run ids t₀ par 0 numSeeds s) (hrest : Run ids s.table par' numSeeds ids.length s') :
    IdHashMap.Race (ids.map BitVec.toNat) numSeeds (s'.valid numSeeds ids.length) := by
  obtain ⟨hok, hfirst⟩ := hseeds.ok ht hm hids (Nat.zero_le _) hn (Paths.holds_empty _ hempty)
  obtain ⟨hok', hall⟩ := hrest.ok (sized_of_positions hok.positions ht) hm hids hn le_rfl
    (hok.positions ▸ hok.holds)
  have hmem {x : ℕ} : x ∈ IdHashMap.inserted (ids.map BitVec.toNat) numSeeds
      (s'.valid numSeeds ids.length) ↔ ∃ i ∈ s'.inserted, (ids.getD i 0).toNat = x := by
    rw [inserted_eq, List.mem_filterMap]
    constructor
    · rintro ⟨i, -, heq⟩
      split_ifs at heq with hi
      exact ⟨i, hi, Option.some.inj heq⟩
    · rintro ⟨i, hi, rfl⟩
      obtain ⟨hb, he⟩ := hok'.bounds i hi
      exact ⟨i, List.mem_range'_1.2 ⟨hb, by omega⟩, if_pos hi⟩
  have hseed {i : ℕ} (hi : i < numSeeds) :
      (ids.getD i 0).toNat ∈ (ids.map BitVec.toNat).take numSeeds := by
    rw [← List.map_take, List.mem_map]
    refine ⟨_, List.mem_take_iff_getElem.2 ⟨i, by omega, rfl⟩, ?_⟩
    rw [List.getD_eq_getElem _ _ (by omega)]
  refine ⟨by rw [valid, List.length_map, List.length_range', List.length_map], ?_, fun x hx hx' => ?_,
    fun x hx => ?_⟩
  · rw [inserted_eq]
    refine List.Nodup.filterMap (fun i i' x hx hx' => ?_) List.nodup_range'
    rw [Option.mem_def] at hx hx'
    split_ifs at hx hx' with hi hi'
    exact hok'.once i hi i' hi' (BitVec.eq_of_toNat_eq (Option.some.inj (hx.trans hx'.symm)))
  · -- A seed has been found in the table that the second loop began with.
    obtain ⟨i, hi, rfl⟩ := hmem.1 hx
    obtain ⟨i', hi', heq⟩ := List.mem_take_iff_getElem.1 hx'
    rw [List.getElem_map] at heq
    obtain ⟨p, hp⟩ := hfirst i' (Nat.zero_le _) (by omega)
    rw [List.getD_eq_getElem _ _ (by simp at hi'; omega), BitVec.eq_of_toNat_eq heq] at hp
    exact hok'.fresh i hi p hp
  · obtain ⟨id, hid, rfl⟩ := List.mem_map.1 hx
    obtain ⟨i, hi, rfl⟩ := List.mem_iff_getElem.1 hid
    rw [IdHashMap.uniqueIds, List.mem_append, hmem, ← List.getD_eq_getElem _ 0 hi]
    rcases Nat.lt_or_ge i numSeeds with hlt | hge
    · exact .inl (hseed hlt)
    · obtain ⟨p, hp⟩ := hall i hge hi
      rcases hok'.origin p _ hp with hp | ⟨i', hi', heq⟩
      · rcases hok.origin p _ hp with hp | ⟨i', hi', heq⟩
        · rw [hempty] at hp
          cases hp
        · exact .inl (heq ▸ hseed (hok.bounds i' hi').2)
      · exact .inr ⟨i', hi', congrArg BitVec.toNat heq⟩

end Inserting

end DglAscend.Graph
