import DglAscend.Graphbolt.UniqueIds

/-!
# The limits of the table

What is not found in a table, whatever has been inserted: the empty key, and an id whose key has no index
in the type of the ids.  With more ids than there are values an index becomes the least number of the
type, and that value stays at its id for good (`Direct.mapId_least`).
-/

namespace DglAscend.Graphbolt

variable {τ : IdType} {ids : List (Id τ)} {t t' t₀ : IdTable τ} {id : Id τ} {fuel m n : ℕ}
  {par : ParallelFor} {s s' : InsertState τ}

lemma mapId_emptyKey (t : IdTable τ) (fuel : ℕ) (x : Id τ) : t.mapId fuel emptyKey ≠ .ok x := by
  intro h
  have hfound (fuel : ℕ) (p : Probe τ) (r : Id τ × Id τ)
      (hr : t.find (fun key => key = emptyKey || key = emptyKey) fuel p = .ok r) : r.2 = emptyKey := by
    induction fuel generalizing p with
    | zero => cases hr
    | succ fuel ih =>
        rw [IdTable.find] at hr
        cases hload : t.load (getKeyIndex p.pos) with
        | none =>
            rw [hload] at hr
            cases hr
        | some key =>
            rw [hload] at hr
            change (if (key = emptyKey || key = emptyKey) = true then _ else _) = _ at hr
            by_cases hkey : key = emptyKey
            · rw [if_pos (by simp [hkey])] at hr
              obtain rfl := Except.ok.inj hr
              exact hkey
            · rw [if_neg (by simp [hkey])] at hr
              exact ih (t.next p) hr
  rw [IdTable.mapId] at h
  cases hfind : t.find (fun key => key = emptyKey || key = emptyKey) fuel (t.home emptyKey) with
  | error e =>
      rw [hfind] at h
      cases h
  | ok r =>
      rw [hfind] at h
      change (if r.2 = emptyKey then _ else _) = _ at h
      rw [if_pos (hfound _ _ r hfind)] at h
      cases h

/-- The first position for an id that the mask keeps. -/
lemma home_pos_eq (ht : t.Sized m) (hm : τ.bits - 1 ≤ m) (hid : id.toNat < 2 ^ (τ.bits - 1)) :
    (t.home id).pos = id := by
  apply BitVec.eq_of_toNat_eq
  have hbits := τ.bits_pos
  have hle : 2 ^ (τ.bits - 1) ≤ 2 ^ min m τ.bits := Nat.pow_le_pow_right (by omega) (by omega)
  show (id &&& t.mask).toNat = _
  rw [toNat_and_mask ht, Nat.mod_eq_of_lt (by omega)]

/-- **A high id in a large table** is not found: the index of its key is negative. -/
theorem mapId_high (ht : t.Sized m) (hm : τ.bits - 1 ≤ m) (hlow : 2 ^ (τ.bits - 2) ≤ id.toNat)
    (hhigh : id.toNat < 2 ^ (τ.bits - 1)) (x : Id τ) : t.mapId fuel id ≠ .ok x := by
  intro h
  have hneg := getKeyIndex_neg hlow hhigh
  have hload : t.load (getKeyIndex (t.home id).pos) = none := by
    rw [home_pos_eq ht hm hhigh, IdTable.load, if_neg (by omega)]
  rw [IdTable.mapId] at h
  cases fuel with
  | zero => cases h
  | succ fuel =>
      rw [IdTable.find, hload] at h
      cases h

/-! ## What never changes -/

lemma IdTable.Like.refl (t : IdTable τ) : t.Like t := ⟨rfl, rfl⟩

lemma IdTable.Like.trans {t'' : IdTable τ} (h : t''.Like t') (h' : t'.Like t) : t''.Like t :=
  ⟨h.mask.trans h'.mask, h.size.trans h'.size⟩

variable {x : Id τ}

lemma set_like (h : t.set fuel id x = .ok t') : t'.Like t := by
  rw [IdTable.set] at h
  obtain ⟨r, -, hstore⟩ := bind_eq_ok_iff.1 h
  split at hstore
  · cases hstore
  · obtain rfl := Except.ok.inj hstore
    exact ⟨rfl, rfl⟩

lemma setAll_like {sets : List (ℕ × ℕ)}
    (h : sets.foldlM (fun t w => t.set fuel (ids.getD w.1 0) (valueOf τ w.2)) t = .ok t') :
    t'.Like t := by
  induction sets generalizing t with
  | nil =>
      obtain rfl := Except.ok.inj h
      exact .refl t
  | cons w sets ih =>
      rw [List.foldlM_cons] at h
      cases hset : t.set fuel (ids.getD w.1 0) (valueOf τ w.2) with
      | error e =>
          rw [hset] at h
          cases h
      | ok t'' =>
          rw [hset] at h
          exact (ih h).trans (set_like hset)

lemma insertStep_like {w w' : InsertWorker τ} (h : insertStep ids t w = some (t', w')) :
    t'.Like t := by
  cases hphase : w.phase with
  | attempt probe =>
      cases hload : t.load (attemptIndex probe.pos) with
      | none =>
          simp only [insertStep, hphase, hload] at h
          cases h
      | some key =>
          rw [Placement.insertStep_attempt hphase hload] at h
          split_ifs at h
          all_goals
            obtain ⟨rfl, -⟩ := Prod.mk.inj (Option.some.inj h)
            exact ⟨rfl, rfl⟩
  | setMin pos old =>
      cases hload : t.load (getValueIndex pos) with
      | none =>
          simp only [insertStep, hphase, hload] at h
          cases h
      | some current =>
          rw [Placement.insertStep_setMin hphase hload] at h
          split_ifs at h
          all_goals
            obtain ⟨rfl, -⟩ := Prod.mk.inj (Option.some.inj h)
            exact ⟨rfl, rfl⟩

variable {infinite : ℕ}

lemma insertReach_like (h : InsertReach ids infinite par s) :
    s.table.Like (emptyTable ids infinite) := by
  induction h with
  | refl => exact .refl _
  | tail _ hstep ih =>
      obtain ⟨-, -, hstep⟩ := hstep
      exact (insertStep_like hstep).trans ih

/-- Runs that end and do not fault come to a state where all ids are inserted. -/
lemma exists_inserted (hacc : Acc (fun s' s => InsertStep ids par.numThreads s s') s)
    (hreach : InsertReach ids infinite par s)
    (hfault : ∀ s, InsertReach ids infinite par s → ¬ Faults ids par.numThreads s) :
    ∃ s', InsertReach ids infinite par s' ∧ Inserted par.numThreads s' := by
  induction hacc with
  | intro s _ ih =>
      by_cases hend : Inserted par.numThreads s
      · exact ⟨s, hreach, hend⟩
      · simp only [Inserted, not_forall, not_not] at hend
        obtain ⟨k, hk, hruns⟩ := hend
        cases hstep : insertStep ids s.table (s.workers k) with
        | none => exact absurd ⟨k, hk, hruns, hstep⟩ (hfault s hreach)
        | some r =>
            have hs := InsertStep.step (t := r.1) (w := r.2) hk hruns hstep
            exact ih _ hs (hreach.tail hs)

/-! ## Too many ids -/

/-- The value of the first index that is not a number of the type: the least one. -/
abbrev leastValue (τ : IdType) : Id τ := valueOf τ (2 ^ (τ.bits - 1))

lemma toInt_leastValue (τ : IdType) : (leastValue τ).toInt = -2 ^ (τ.bits - 1) := by
  cases τ
  · decide
  · decide

lemma leastValue_ne_empty : leastValue τ ≠ emptyKey := by
  cases τ
  · decide
  · decide

lemma not_slt_leastValue (x : Id τ) : ¬ x.slt (leastValue τ) = true := by
  rw [BitVec.slt_iff_toInt_lt, toInt_leastValue, not_lt]
  exact BitVec.le_toInt x

lemma eq_leastValue (h : ¬ (leastValue τ).slt x = true) : x = leastValue τ := by
  rw [BitVec.slt_iff_toInt_lt, not_lt] at h
  have hge := not_slt_leastValue x
  rw [BitVec.slt_iff_toInt_lt, not_lt] at hge
  exact BitVec.eq_of_toInt_eq (le_antisymm h hge)

/-- Every id has its first position for itself. -/
structure Direct (t₀ : IdTable τ) (ids : List (Id τ)) : Prop where
  home : ∀ id ∈ ids, (t₀.home id).pos = id
  low : ∀ id ∈ ids, id.toNat < 2 ^ (τ.bits - 2)
  inside : ∀ id ∈ ids, 2 * id.toNat + 1 < t₀.size

/-- Keys are at their own places. -/
structure DirectTable (t₀ t : IdTable τ) : Prop where
  like : t.Like t₀
  keys : ∀ p k, t.keyAt p = some k → k.toNat = p

/-- At the first position of an id is its key or nothing. -/
lemma DirectTable.key_or_empty (ht : DirectTable t₀ t) (id : Id τ) :
    t.cells (2 * id.toNat) = emptyKey ∨ t.keyAt id.toNat = some id := by
  by_cases hempty : t.cells (2 * id.toNat) = emptyKey
  · exact Or.inl hempty
  · right
    have hkey : t.keyAt id.toNat = some (t.cells (2 * id.toNat)) :=
      IdTable.keyAt_eq_some.2 ⟨rfl, hempty⟩
    rw [hkey, BitVec.eq_of_toNat_eq (ht.keys _ _ hkey)]

namespace Direct

section

variable (h : Direct t₀ ids) (ht : DirectTable t₀ t) (hid : id ∈ ids)
include h ht hid

lemma load_key : t.load (getKeyIndex id) = some (t.cells (2 * id.toNat)) ∧
    t.load (attemptIndex id) = some (t.cells (2 * id.toNat)) := by
  have hlow := h.low id hid
  have hinside := h.inside id hid
  have hload : t.load ((2 * id.toNat : ℕ) : ℤ) = some (t.cells (2 * id.toNat)) := by
    apply IdTable.load_eq
    rw [ht.like.size]
    omega
  rw [getKeyIndex_eq hlow, attemptIndex_eq hlow]
  push_cast at hload
  exact ⟨hload, hload⟩

lemma load_value : t.load (getValueIndex id) = some (t.valueAt id.toNat) := by
  have hload : t.load ((2 * id.toNat + 1 : ℕ) : ℤ) = some (t.cells (2 * id.toNat + 1)) := by
    apply IdTable.load_eq
    rw [ht.like.size]
    exact h.inside id hid
  rw [getValueIndex_eq (h.low id hid)]
  push_cast at hload
  exact hload

/-- An id that is found is at its first position. -/
lemma key_of_mapId (hmap : t.mapId fuel id = .ok x) :
    t.keyAt id.toNat = some id ∧ x = t.valueAt id.toNat := by
  have hhome : (t.home id).pos = id := by rw [ht.like.home, h.home id hid]
  rw [IdTable.mapId] at hmap
  cases fuel with
  | zero => cases hmap
  | succ fuel =>
      rw [IdTable.find, hhome, (h.load_key ht hid).1] at hmap
      rcases ht.key_or_empty id with hempty | hkey
      · simp only [hempty, decide_true, Bool.true_or, if_true] at hmap
        change (if emptyKey = emptyKey then _ else _) = _ at hmap
        rw [if_pos rfl] at hmap
        cases hmap
      · obtain ⟨hcell, hne⟩ := IdTable.keyAt_eq_some.1 hkey
        simp only [hcell, decide_true, Bool.or_true, if_true] at hmap
        change (if id = emptyKey then _ else _) = _ at hmap
        rw [if_neg hne, h.load_value ht hid] at hmap
        exact ⟨hkey, (Except.ok.inj hmap).symm⟩

/-- `Set` of an id writes at its first position. -/
lemma set_eq (hkey : t.keyAt id.toNat = some id) (hset : t.set fuel id x = .ok t') :
    t' = t.setValue id.toNat x := by
  have hhome : (t.home id).pos = id := by rw [ht.like.home, h.home id hid]
  cases fuel with
  | zero => cases hset
  | succ fuel =>
      have hfind : t.find (fun k => k = id) (fuel + 1) (t.home id) = .ok (id, id) := by
        rw [IdTable.find, hhome, (h.load_key ht hid).1, (IdTable.keyAt_eq_some.1 hkey).1]
        exact if_pos (decide_eq_true rfl)
      rw [t.set_of_find hfind (h.load_value ht hid), getValueIndex_eq (h.low id hid)] at hset
      exact (Except.ok.inj hset).symm

end

/-! ### The least value stays -/

/-- What a thread of a direct table knows. -/
def PhaseOk (ids : List (Id τ)) (t₀ : IdTable τ) (i : ℕ) : InsertPhase τ → Prop
  | .attempt probe => probe = t₀.home (ids.getD i 0)
  | .setMin pos old => pos = ids.getD i 0 ∧ old ≠ leastValue τ

/-- What holds of a direct table while ids are inserted. -/
structure StateOk (ids : List (Id τ)) (t₀ : IdTable τ) (par : ParallelFor) (s : InsertState τ) :
    Prop where
  table : DirectTable t₀ s.table
  stop_eq : ∀ k < par.numThreads, (s.workers k).stop = par.bound 0 ids.length (k + 1)
  phase : ∀ k < par.numThreads, (s.workers k).Runs → PhaseOk ids t₀ (s.workers k).index
    (s.workers k).phase
  least : ∀ k < par.numThreads, par.bound 0 ids.length k ≤ 2 ^ (τ.bits - 1) →
    2 ^ (τ.bits - 1) < (s.workers k).index →
    s.table.valueAt (ids.getD (2 ^ (τ.bits - 1)) 0).toNat = leastValue τ

/-- **A step in a direct table**: a least value stays, and the index that becomes one has it. -/
lemma step_ok (h : Direct t₀ ids) (ht : DirectTable t₀ t) {w w' : InsertWorker τ}
    (hi : w.index < ids.length) (hphase : PhaseOk ids t₀ w.index w.phase)
    (hstep : insertStep ids t w = some (t', w')) :
    DirectTable t₀ t' ∧ w'.stop = w.stop ∧ PhaseOk ids t₀ w'.index w'.phase ∧
      (∀ p, t.valueAt p = leastValue τ → t'.valueAt p = leastValue τ) ∧
      (w'.index = w.index ∨ w'.index = w.index + 1 ∧ (w.index = 2 ^ (τ.bits - 1) →
        t'.valueAt (ids.getD w.index 0).toNat = leastValue τ)) := by
  have hid : ids.getD w.index 0 ∈ ids := Placement.getD_mem hi
  have hnext (i stop : ℕ) : PhaseOk ids t₀ i (startAt ids t i stop).phase := ht.like.home _
  cases hw : w.phase with
  | attempt probe =>
      rw [hw] at hphase
      obtain rfl : probe = t₀.home (ids.getD w.index 0) := hphase
      have hload : t.load (attemptIndex (t₀.home (ids.getD w.index 0)).pos) =
          some (t.cells (2 * (ids.getD w.index 0).toNat)) := by
        rw [h.home _ hid]
        exact (h.load_key ht hid).2
      have hok : PhaseOk ids t₀ w.index
          (.setMin (t₀.home (ids.getD w.index 0)).pos emptyKey) :=
        ⟨h.home _ hid, leastValue_ne_empty.symm⟩
      rw [Placement.insertStep_attempt hw hload] at hstep
      rcases ht.key_or_empty (ids.getD w.index 0) with hempty | hkey
      · rw [if_pos hempty] at hstep
        obtain ⟨rfl, rfl⟩ := Prod.mk.inj (Option.some.inj hstep)
        have hstore : t.store (attemptIndex (t₀.home (ids.getD w.index 0)).pos) (ids.getD w.index 0) =
            t.setKey (ids.getD w.index 0).toNat (ids.getD w.index 0) := by
          rw [h.home _ hid, attemptIndex_eq (h.low _ hid)]
          rfl
        rw [hstore]
        refine ⟨⟨⟨ht.like.mask, ht.like.size⟩, fun p k hk => ?_⟩, rfl, hok, fun p hp => ?_, Or.inl rfl⟩
        · obtain ⟨hcell, hne⟩ := IdTable.keyAt_eq_some.1 hk
          rw [IdTable.setKey_cells] at hcell
          by_cases hp : p = (ids.getD w.index 0).toNat
          · rw [hp, Function.update_self] at hcell
            rw [← hcell, hp]
          · rw [Function.update_of_ne (by omega)] at hcell
            exact ht.keys p k (IdTable.keyAt_eq_some.2 ⟨hcell, hne⟩)
        · rw [IdTable.setKey_valueAt]
          exact hp
      · obtain ⟨hcell, hne⟩ := IdTable.keyAt_eq_some.1 hkey
        rw [hcell, if_neg hne, if_pos rfl] at hstep
        obtain ⟨rfl, rfl⟩ := Prod.mk.inj (Option.some.inj hstep)
        exact ⟨ht, rfl, hok, fun p hp => hp, Or.inl rfl⟩
  | setMin pos old =>
      rw [hw] at hphase
      obtain ⟨rfl, hold⟩ := hphase
      have hvalue : w.index = 2 ^ (τ.bits - 1) → valueOf τ w.index = leastValue τ := by
        intro heq
        rw [heq]
      rw [Placement.insertStep_setMin hw (h.load_value ht hid)] at hstep
      by_cases hcur : t.valueAt (ids.getD w.index 0).toNat = old
      · rw [if_pos hcur] at hstep
        obtain ⟨rfl, rfl⟩ := Prod.mk.inj (Option.some.inj hstep)
        have hstore : t.store (getValueIndex (ids.getD w.index 0)) (valueOf τ w.index) =
            t.setValue (ids.getD w.index 0).toNat (valueOf τ w.index) := by
          rw [getValueIndex_eq (h.low _ hid)]
          rfl
        rw [hstore, IdTable.setValue_valueAt]
        refine ⟨⟨⟨ht.like.mask, ht.like.size⟩, ?_⟩, rfl, hnext _ _, fun p hp => ?_,
          Or.inr ⟨rfl, fun heq => ?_⟩⟩
        · rw [IdTable.setValue_keyAt]
          exact ht.keys
        · by_cases hpos : p = (ids.getD w.index 0).toNat
          · rw [hpos, hcur] at hp
            exact absurd hp hold
          · rw [Function.update_of_ne hpos, hp]
        · rw [Function.update_self, hvalue heq]
      · rw [if_neg hcur] at hstep
        by_cases hgo : t.valueAt (ids.getD w.index 0).toNat = emptyKey ∨
            (valueOf τ w.index).slt (t.valueAt (ids.getD w.index 0).toNat)
        · rw [if_pos hgo] at hstep
          obtain ⟨rfl, rfl⟩ := Prod.mk.inj (Option.some.inj hstep)
          refine ⟨ht, rfl, ⟨rfl, fun heq => ?_⟩, fun p hp => hp, Or.inl rfl⟩
          rcases hgo with hempty | hslt
          · exact leastValue_ne_empty (heq.symm.trans hempty)
          · rw [heq] at hslt
            exact not_slt_leastValue _ hslt
        · rw [if_neg hgo] at hstep
          obtain ⟨rfl, rfl⟩ := Prod.mk.inj (Option.some.inj hstep)
          refine ⟨ht, rfl, hnext _ _, fun p hp => hp, Or.inr ⟨rfl, fun heq => ?_⟩⟩
          rw [not_or, hvalue heq] at hgo
          exact eq_leastValue hgo.2

lemma StateOk.step (h : Direct t₀ ids) (hs : StateOk ids t₀ par s)
    (hstep : InsertStep ids par.numThreads s s') : StateOk ids t₀ par s' := by
  obtain ⟨hk, hruns, hstep⟩ := hstep
  rename_i k t' w'
  have hi : (s.workers k).index < ids.length := by
    have hstop := hs.stop_eq k hk
    have hle : par.bound 0 ids.length (k + 1) ≤ ids.length := Placement.bound_le par ids hk
    have hlt : (s.workers k).index < (s.workers k).stop := hruns
    omega
  obtain ⟨htable, hstop, hphase, hleast, hindex⟩ := step_ok h hs.table hi (hs.phase k hk hruns) hstep
  refine ⟨htable, fun j hj => ?_, fun j hj hr => ?_, fun j hj hle hlt => ?_⟩
  · show (Function.update s.workers k w' j).stop = _
    by_cases hjk : j = k
    · subst hjk
      rw [Function.update_self, hstop, hs.stop_eq j hj]
    · rw [Function.update_of_ne hjk, hs.stop_eq j hj]
  · show PhaseOk ids t₀ (Function.update s.workers k w' j).index (Function.update s.workers k w' j).phase
    replace hr : (Function.update s.workers k w' j).Runs := hr
    by_cases hjk : j = k
    · subst hjk
      rw [Function.update_self]
      exact hphase
    · rw [Function.update_of_ne hjk] at hr ⊢
      exact hs.phase j hj hr
  · replace hlt : 2 ^ (τ.bits - 1) < (Function.update s.workers k w' j).index := hlt
    show t'.valueAt _ = _
    by_cases hjk : j = k
    · subst hjk
      rw [Function.update_self] at hlt
      by_cases hbefore : 2 ^ (τ.bits - 1) < (s.workers j).index
      · exact hleast _ (hs.least j hj hle hbefore)
      · rcases hindex with hindex | ⟨hindex, hnew⟩
        · omega
        · have heq : (s.workers j).index = 2 ^ (τ.bits - 1) := by omega
          rw [← heq]
          exact hnew heq
    · rw [Function.update_of_ne hjk] at hlt
      exact hleast _ (hs.least j hj hle hlt)

lemma stateOk_init (ids : List (Id τ)) (par : ParallelFor) :
    StateOk ids (emptyTable ids infinite) par (insertInit ids infinite par) where
  table := ⟨.refl _, fun p k hk => by
    have hnone : (emptyTable ids infinite).keyAt p = none := IdTable.keyAt_eq_none.2 rfl
    cases hnone.symm.trans hk⟩
  stop_eq _ _ := rfl
  phase _ _ _ := rfl
  least _ _ hle hlt := absurd hlt (Nat.not_lt.2 hle)

lemma stateOk_of_reach (h : Direct (emptyTable ids infinite) ids)
    (hreach : InsertReach ids infinite par s) : StateOk ids (emptyTable ids infinite) par s := by
  induction hreach with
  | refl => exact stateOk_init ids par
  | tail _ hstep ih => exact ih.step h hstep

/-- **Too many ids**: the first id whose index is not a number of the type has the least value. -/
theorem value_least (h : Direct (emptyTable ids infinite) ids)
    (hreach : InsertReach ids infinite par s) (hend : Inserted par.numThreads s)
    (hmany : 2 ^ (τ.bits - 1) < ids.length) :
    s.table.valueAt (ids.getD (2 ^ (τ.bits - 1)) 0).toNat = leastValue τ := by
  have hs := stateOk_of_reach h hreach
  have hfirst := par.first 0 ids.length (Nat.zero_le _)
  have hlast := par.last 0 ids.length (Nat.zero_le _)
  obtain ⟨k, -, hk, hle, hlt⟩ := exists_inSlot (b := par.bound 0 ids.length)
    (Nat.zero_le par.numThreads) (hfirst ▸ Nat.zero_le (2 ^ (τ.bits - 1))) (hlast ▸ hmany)
  refine hs.least k hk hle ?_
  have hstop := hs.stop_eq k hk
  have hdone := hend k hk
  rw [InsertWorker.Runs] at hdone
  omega

/-- The calls of `Set` for other ids leave a value alone. -/
lemma setAll_value (h : Direct t₀ ids) (ht : DirectTable t₀ t) {sets : List (ℕ × ℕ)}
    (hsets : ∀ w ∈ sets, ids.getD w.1 0 ∈ ids ∧ ids.getD w.1 0 ≠ x ∧
      t.keyAt (ids.getD w.1 0).toNat = some (ids.getD w.1 0))
    (hset : sets.foldlM (fun t w => t.set fuel (ids.getD w.1 0) (valueOf τ w.2)) t = .ok t') :
    DirectTable t₀ t' ∧ t'.valueAt x.toNat = t.valueAt x.toNat := by
  induction sets generalizing t with
  | nil =>
      obtain rfl := Except.ok.inj hset
      exact ⟨ht, rfl⟩
  | cons w sets ih =>
      obtain ⟨hid, hne, hkey⟩ := hsets w List.mem_cons_self
      rw [List.foldlM_cons] at hset
      cases hone : t.set fuel (ids.getD w.1 0) (valueOf τ w.2) with
      | error e =>
          rw [hone] at hset
          cases hset
      | ok t'' =>
          rw [hone] at hset
          obtain rfl := h.set_eq ht hid hkey hone
          have hkeys := t.setValue_keyAt (ids.getD w.1 0).toNat (valueOf τ w.2)
          have hok : DirectTable t₀ (t.setValue (ids.getD w.1 0).toNat (valueOf τ w.2)) := by
            refine ⟨⟨ht.like.mask, ht.like.size⟩, ?_⟩
            rw [hkeys]
            exact ht.keys
          have hrest : ∀ v ∈ sets, ids.getD v.1 0 ∈ ids ∧ ids.getD v.1 0 ≠ x ∧
              (t.setValue (ids.getD w.1 0).toNat (valueOf τ w.2)).keyAt (ids.getD v.1 0).toNat =
                some (ids.getD v.1 0) := by
            intro v hv
            rw [hkeys]
            exact hsets v (List.mem_cons_of_mem _ hv)
          obtain ⟨ht', hvalue⟩ := ih hok hrest hset
          refine ⟨ht', ?_⟩
          rw [hvalue, IdTable.setValue_valueAt, Function.update_of_ne]
          intro heq
          exact hne (BitVec.eq_of_toNat_eq heq.symm)

end Direct

/-- A valid id has been found with its index. -/
lemma mem_validIds {numSeeds : ℕ} {valid : List (List ℕ)} (hle : numSeeds ≤ ids.length)
    (h : validIds ids numSeeds fuel t par = .ok valid) {i : ℕ} (hi : i ∈ valid.flatten) :
    i < ids.length ∧ ∃ v, t.mapId fuel (ids.getD i 0) = .ok v ∧ v.toInt = i := by
  obtain ⟨l, hl, hi⟩ := List.mem_flatten.1 hi
  obtain ⟨k, hk, hin⟩ := mem_of_mapM_ok h hl
  obtain ⟨hrange, hvalid⟩ := mem_of_filterM_ok hin hi
  refine ⟨?_, ?_⟩
  · have hbound := boundary_mono (i := k + 1) (par.mono numSeeds ids.length hle)
      (List.mem_range.1 hk) (le_refl _)
    have hi' := List.mem_range'_1.1 hrange
    rw [par.last numSeeds ids.length hle] at hbound
    omega
  · cases hmap : t.mapId fuel (ids.getD i 0) with
    | error e =>
        rw [hmap] at hvalid
        cases hvalid
    | ok v =>
        rw [hmap] at hvalid
        exact ⟨v, rfl, of_decide_eq_true (Except.ok.inj hvalid)⟩

end DglAscend.Graphbolt
