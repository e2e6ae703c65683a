import DglAscend.Graphbolt.IdHashMapProbes

/-!
# Inserting ids concurrently

Whatever the order of the steps of the threads, the insertion of the ids ends, no thread leaves the
table, and at the end the value of an id is its first index (`Placement.filled`).
-/

namespace DglAscend.Graphbolt

variable {τ : IdType} {ids : List (Id τ)} {t t₀ : IdTable τ} {p i n : ℕ} {id x : Id τ}

/-! ## Keys and values -/

namespace IdTable

/-- The key at a place. -/
def keyAt (t : IdTable τ) (p : ℕ) : Option (Id τ) :=
  if t.cells (2 * p) = emptyKey then none else some (t.cells (2 * p))

/-- The value at a place. -/
def valueAt (t : IdTable τ) (p : ℕ) : Id τ := t.cells (2 * p + 1)

lemma keyAt_eq_some : t.keyAt p = some x ↔ t.cells (2 * p) = x ∧ x ≠ emptyKey := by
  rw [keyAt, Option.ite_none_left_eq_some, Option.some.injEq]
  exact ⟨fun h => ⟨h.2, h.2 ▸ h.1⟩, fun h => ⟨h.1 ▸ h.2, h.1⟩⟩

lemma keyAt_eq_none : t.keyAt p = none ↔ t.cells (2 * p) = emptyKey := by
  simp [keyAt]

lemma load_eq {k : ℕ} (hk : k < t.size) : t.load k = some (t.cells k) := by
  rw [load, if_pos ⟨Int.natCast_nonneg k, by exact_mod_cast hk⟩, Int.toNat_natCast]

/-- A key is written. -/
def setKey (t : IdTable τ) (p : ℕ) (x : Id τ) : IdTable τ := t.store (2 * p) x

/-- A value is written. -/
def setValue (t : IdTable τ) (p : ℕ) (x : Id τ) : IdTable τ := t.store (2 * p + 1) x

lemma setKey_cells (t : IdTable τ) (p : ℕ) (x : Id τ) :
    (t.setKey p x).cells = Function.update t.cells (2 * p) x := by
  have hnat : ((2 * p : ℤ)).toNat = 2 * p := by omega
  show Function.update t.cells _ x = _
  rw [hnat]

lemma setValue_cells (t : IdTable τ) (p : ℕ) (x : Id τ) :
    (t.setValue p x).cells = Function.update t.cells (2 * p + 1) x := by
  have hnat : ((2 * p + 1 : ℤ)).toNat = 2 * p + 1 := by omega
  show Function.update t.cells _ x = _
  rw [hnat]

lemma setKey_keyAt (t : IdTable τ) (p : ℕ) (hx : x ≠ emptyKey) :
    (t.setKey p x).keyAt = Function.update t.keyAt p (some x) := by
  funext q
  by_cases hqp : q = p
  · subst hqp
    rw [Function.update_self, keyAt_eq_some, setKey_cells, Function.update_self]
    exact ⟨rfl, hx⟩
  · rw [Function.update_of_ne hqp, keyAt, keyAt, setKey_cells, Function.update_of_ne (by omega)]

lemma setKey_valueAt (t : IdTable τ) (p : ℕ) (x : Id τ) : (t.setKey p x).valueAt = t.valueAt := by
  funext q
  rw [valueAt, valueAt, setKey_cells, Function.update_of_ne (by omega)]

lemma setValue_keyAt (t : IdTable τ) (p : ℕ) (x : Id τ) : (t.setValue p x).keyAt = t.keyAt := by
  funext q
  rw [keyAt, keyAt, setValue_cells, Function.update_of_ne (by omega)]

lemma setValue_valueAt (t : IdTable τ) (p : ℕ) (x : Id τ) :
    (t.setValue p x).valueAt = Function.update t.valueAt p x := by
  funext q
  rw [valueAt, setValue_cells]
  by_cases hqp : q = p
  · subst hqp
    rw [Function.update_self, Function.update_self]
  · rw [Function.update_of_ne (by omega), Function.update_of_ne hqp]
    rfl

end IdTable

/-! ## Where the ids go -/

/-- A table has room for the ids: every position that is tried for an id has an index, and no path goes
on for ever. -/
structure Placement (t₀ : IdTable τ) (ids : List (Id τ)) where
  paths : Paths ids
  steps : ℕ
  path_eq : ∀ id j, paths.path id j = (t₀.probeAt id j).pos.toNat
  low : ∀ id ∈ ids, ∀ j, paths.Allowed id j → paths.path id j < 2 ^ (τ.bits - 2)
  inside : ∀ id ∈ ids, ∀ j, paths.Allowed id j → 2 * paths.path id j + 1 < t₀.size
  steps_lt : steps < 2 ^ τ.bits
  short : ∀ t : ℕ → Option (Id τ), paths.Chained t → (∀ p k, t p = some k → k ∈ ids) → ∀ id ∈ ids,
    ∀ j, paths.Allowed id j → paths.Passed t id j → j < steps
  length_le : ids.length ≤ 2 ^ (τ.bits - 1)
  noEmpty : ∀ id ∈ ids, id ≠ emptyKey

/-- Paths that may go on, in a table whose places all have indices. -/
def smallPlacement {m : ℕ} (ht : t₀.Sized m) (hlen : ids.length < 2 ^ m)
    (hempty : ∀ id ∈ ids, id ≠ emptyKey) (hsmall : 2 ^ m ≤ 2 ^ (τ.bits - 2)) :
    Placement t₀ ids where
  paths := t₀.quadraticPaths ids
  steps := 2 ^ (m + 1)
  path_eq _ _ := rfl
  low id _ j _ := (IdTable.toNat_probeAt_lt ht id j).trans_le hsmall
  inside id _ j _ := by
    have hlt : (t₀.quadraticPaths ids).path id j < 2 ^ m :=
      IdTable.toNat_probeAt_lt ht id j
    rw [ht.size]
    omega
  steps_lt := by
    have hfour := τ.four_mul
    have htwo : 2 ^ (m + 1) = 2 * 2 ^ m := Nat.pow_succ'
    have hpos : 0 < 2 ^ (τ.bits - 2) := Nat.two_pow_pos _
    omega
  short t hchained hkeys id _ j _ hpassed := by
    have hle : m ≤ τ.bits := by
      have hlt := (Nat.pow_le_pow_iff_right Nat.one_lt_two).1 hsmall
      omega
    have hcover := IdTable.quadraticPaths_cover ht hle ids id
    exact hchained.passed_lt hkeys hlen hcover hpassed
  length_le := by
    have hpow : 2 ^ (τ.bits - 2) ≤ 2 ^ (τ.bits - 1) := Nat.pow_le_pow_right (by omega) (by omega)
    omega
  noEmpty := hempty

/-- A table with this mask and size. -/
structure IdTable.Like (t t₀ : IdTable τ) : Prop where
  mask : t.mask = t₀.mask
  size : t.size = t₀.size

lemma IdTable.Like.next (h : t.Like t₀) : t.next = t₀.next := by
  funext p
  show Probe.mk _ _ = Probe.mk _ _
  rw [h.mask]

lemma IdTable.Like.home (h : t.Like t₀) (id : Id τ) : t.home id = t₀.home id := by
  show Probe.mk _ _ = Probe.mk _ _
  rw [h.mask]

namespace Placement

variable (P : Placement t₀ ids)

lemma lt_of_lt (P : Placement t₀ ids) {j : ℕ} (hj : j < ids.length) : j < 2 ^ (τ.bits - 1) :=
  hj.trans_le P.length_le

/-- What holds of the table while ids are inserted: the values are indices of their keys. -/
structure TableOk (t : IdTable τ) : Prop where
  like : t.Like t₀
  chained : P.paths.Chained t.keyAt
  keys : ∀ p k, t.keyAt p = some k → k ∈ ids
  value : ∀ p, t.valueAt p = emptyKey ∨
    ∃ i < ids.length, t.valueAt p = valueOf τ i ∧ t.keyAt p = some (ids.getD i 0)

/-- Index `i` is in the table: the value of its id is not larger. -/
def Done (ids : List (Id τ)) (t : IdTable τ) (i : ℕ) : Prop :=
  ∃ p v, t.keyAt p = some (ids.getD i 0) ∧ t.valueAt p = valueOf τ v ∧ v ≤ i

/-- What a thread knows before an `AttemptInsertAt`. -/
structure AttemptOk (t : IdTable τ) (id : Id τ) (probe : Probe τ) (d : ℕ) : Prop where
  allowed : P.paths.Allowed id d
  probe : probe = t₀.probeAt id d
  passed : P.paths.Passed t.keyAt id d

/-- What a thread knows before a `compare_exchange_weak`. -/
structure SetMinOk (_P : Placement t₀ ids) (t : IdTable τ) (i : ℕ) (pos old : Id τ) : Prop where
  key : t.keyAt pos.toNat = some (ids.getD i 0)
  low : pos.toNat < 2 ^ (τ.bits - 2)
  inside : 2 * pos.toNat + 1 < t₀.size
  old : old = emptyKey ∨ ∃ v w, t.valueAt pos.toNat = valueOf τ v ∧ old = valueOf τ w ∧
    i < w ∧ v ≤ w ∧ w < ids.length

/-- What a thread knows about where it is. -/
def PhaseOk (t : IdTable τ) (i : ℕ) : InsertPhase τ → Prop
  | .attempt probe => ∃ d, P.AttemptOk t (ids.getD i 0) probe d
  | .setMin pos old => P.SetMinOk t i pos old

/-- What a thread knows. -/
structure WorkerOk (t : IdTable τ) (w : InsertWorker τ) : Prop where
  stop_le : w.stop ≤ ids.length
  phase : w.Runs → P.PhaseOk t w.index w.phase

/-- A table that has more keys, and smaller values. -/
structure Later (ids : List (Id τ)) (t t' : IdTable τ) : Prop where
  keys : Paths.Extends t.keyAt t'.keyAt
  values : ∀ p v, t.valueAt p = valueOf τ v → v < ids.length →
    ∃ v' ≤ v, t'.valueAt p = valueOf τ v'

variable {P} {t' : IdTable τ} {w : InsertWorker τ}

lemma Later.refl (t : IdTable τ) : Later ids t t :=
  ⟨Paths.extends_refl _, fun _ v h _ => ⟨v, le_refl v, h⟩⟩

lemma Done.later (h : Done ids t i) (hi : i < ids.length) (hlater : Later ids t t') :
    Done ids t' i := by
  obtain ⟨p, v, hkey, hvalue, hle⟩ := h
  obtain ⟨v', hle', hvalue'⟩ := hlater.values p v hvalue (hle.trans_lt hi)
  exact ⟨p, v', hlater.keys _ _ hkey, hvalue', hle'.trans hle⟩

lemma PhaseOk.later {phase : InsertPhase τ} (h : P.PhaseOk t i phase) (hlater : Later ids t t') :
    P.PhaseOk t' i phase := by
  cases phase with
  | attempt probe =>
      obtain ⟨d, hallowed, hprobe, hpassed⟩ := h
      exact ⟨d, hallowed, hprobe, hpassed.extend hlater.keys⟩
  | setMin pos old =>
      refine ⟨hlater.keys _ _ h.key, h.low, h.inside, ?_⟩
      rcases h.old with hold | ⟨v, w, hvalue, hold, hiw, hvw, hw⟩
      · exact Or.inl hold
      · obtain ⟨v', hle, hvalue'⟩ := hlater.values _ v hvalue (hvw.trans_lt hw)
        exact Or.inr ⟨v', w, hvalue', hold, hiw, hle.trans hvw, hw⟩

/-! ## Steps -/

/-- What is left to a thread before its next id: the probes, and the values that it may find. -/
def phaseMeasure (P : Placement t₀ ids) : InsertPhase τ → ℕ
  | .attempt probe => P.steps + 1 - probe.delta.toNat + (ids.length + 2)
  | .setMin _ old => if old = emptyKey then ids.length + 1 else old.toNat

/-- What is left to a thread. -/
def workerMeasure (P : Placement t₀ ids) (w : InsertWorker τ) : ℕ :=
  (w.stop - w.index) * (P.steps + ids.length + 4) + P.phaseMeasure w.phase

/-- What a step does. -/
structure StepOk (P : Placement t₀ ids) (t t' : IdTable τ) (w w' : InsertWorker τ) : Prop where
  table : P.TableOk t'
  later : Later ids t t'
  worker : P.WorkerOk t' w'
  stop_eq : w'.stop = w.stop
  index : w'.index = w.index ∨ w'.index = w.index + 1 ∧ Done ids t' w.index
  less : P.workerMeasure w' < P.workerMeasure w

lemma getD_mem (hi : i < ids.length) : ids.getD i 0 ∈ ids := by
  rw [List.getD_eq_getElem _ _ hi]
  exact List.getElem_mem hi

lemma startAt_ok (ht : t.Like t₀) {stop : ℕ} (hstop : stop ≤ ids.length) (i : ℕ) (t' : IdTable τ) :
    P.WorkerOk t' (startAt ids t i stop) := by
  refine ⟨hstop, fun hruns => ?_⟩
  have hi : i < ids.length := lt_of_lt_of_le hruns hstop
  exact ⟨0, P.paths.zero _ (getD_mem hi), ht.home _, Paths.passed_zero _ _ _⟩

/-- The next id is begun with more than enough left. -/
lemma startAt_less (hruns : w.Runs) :
    P.workerMeasure (startAt ids t (w.index + 1) w.stop) < P.workerMeasure w := by
  have hleft : w.stop - w.index = w.stop - (w.index + 1) + 1 := by
    have hlt : w.index < w.stop := hruns
    omega
  have hone : (1 : Id τ).toNat = 1 := by
    cases τ
    · rfl
    · rfl
  rw [workerMeasure, workerMeasure, hleft, Nat.add_mul]
  show _ + (P.steps + 1 - (1 : Id τ).toNat + (ids.length + 2)) < _
  rw [hone]
  show (w.stop - (w.index + 1)) * _ + _ < _
  omega

lemma insertStep_attempt {probe : Probe τ} {key : Id τ} (hphase : w.phase = .attempt probe)
    (hload : t.load (attemptIndex probe.pos) = some key) :
    insertStep ids t w =
      if key = emptyKey then
        some (t.store (attemptIndex probe.pos) (ids.getD w.index 0),
          { w with phase := .setMin probe.pos emptyKey })
      else if key = ids.getD w.index 0 then some (t, { w with phase := .setMin probe.pos emptyKey })
      else some (t, { w with phase := .attempt (t.next probe) }) := by
  simp only [insertStep, hphase, hload]
  rfl

lemma insertStep_setMin {pos old current : Id τ} (hphase : w.phase = .setMin pos old)
    (hload : t.load (getValueIndex pos) = some current) :
    insertStep ids t w =
      if current = old then
        some (t.store (getValueIndex pos) (valueOf τ w.index), startAt ids t (w.index + 1) w.stop)
      else if current = emptyKey ∨ (valueOf τ w.index).slt current then
        some (t, { w with phase := .setMin pos current })
      else some (t, startAt ids t (w.index + 1) w.stop) := by
  simp only [insertStep, hphase, hload]
  rfl

section

variable (ht : P.TableOk t) (hw : P.WorkerOk t w) (hruns : w.Runs)
include ht hw hruns

/-- An `AttemptInsertAt`. -/
lemma attempt_ok {probe : Probe τ} (hphase : w.phase = .attempt probe) :
    ∃ t' w', insertStep ids t w = some (t', w') ∧ P.StepOk t t' w w' := by
  have hid : ids.getD w.index 0 ∈ ids := getD_mem (lt_of_lt_of_le hruns hw.stop_le)
  have hok := hw.phase hruns
  rw [hphase] at hok
  obtain ⟨d, hallowed, hprobe, hpassed⟩ := hok
  have hpos : probe.pos.toNat = P.paths.path (ids.getD w.index 0) d := by rw [hprobe, P.path_eq]
  have hlow := P.low _ hid d hallowed
  have hinside := P.inside _ hid d hallowed
  rw [← hpos] at hlow hinside
  have hidx := attemptIndex_eq hlow
  have hload : t.load (attemptIndex probe.pos) = some (t.cells (2 * probe.pos.toNat)) := by
    rw [hidx]
    exact_mod_cast IdTable.load_eq (t := t) (k := 2 * probe.pos.toNat) (by rw [ht.like.size]; omega)
  have hd := P.short t.keyAt ht.chained ht.keys _ hid d hallowed hpassed
  have hdelta : probe.delta.toNat = d + 1 := by
    have hlt := P.steps_lt
    rw [hprobe, IdTable.probeAt_delta, BitVec.toNat_ofNat, Nat.mod_eq_of_lt (by omega)]
  -- With the id in the table the thread goes on to the value.
  have hless : P.phaseMeasure (.setMin probe.pos emptyKey) < P.phaseMeasure w.phase := by
    rw [hphase]
    show (if emptyKey = emptyKey then ids.length + 1 else _) < _ + (ids.length + 2)
    rw [if_pos rfl]
    omega
  rw [insertStep_attempt hphase hload]
  by_cases hempty : t.cells (2 * probe.pos.toNat) = emptyKey
  · rw [if_pos hempty]
    have hnone : t.keyAt (P.paths.path (ids.getD w.index 0) d) = none := by
      rw [← hpos]
      exact IdTable.keyAt_eq_none.2 hempty
    have hstore : t.store (attemptIndex probe.pos) (ids.getD w.index 0) =
        t.setKey (P.paths.path (ids.getD w.index 0) d) (ids.getD w.index 0) := by
      rw [hidx, hpos]
      rfl
    have hkeys := t.setKey_keyAt (P.paths.path (ids.getD w.index 0) d) (P.noEmpty _ hid)
    have hvalues := t.setKey_valueAt (P.paths.path (ids.getD w.index 0) d) (ids.getD w.index 0)
    have hext := Paths.extends_insert hnone (ids.getD w.index 0)
    have hlater : Later ids t (t.setKey (P.paths.path (ids.getD w.index 0) d)
        (ids.getD w.index 0)) := by
      refine ⟨hkeys ▸ hext, fun p v hv _ => ⟨v, le_refl v, ?_⟩⟩
      rw [hvalues]
      exact hv
    rw [hstore]
    refine ⟨_, _, rfl, ⟨⟨ht.like.mask, ht.like.size⟩, ?_, ?_, ?_⟩, hlater, ⟨hw.stop_le, fun _ => ?_⟩,
      rfl, Or.inl rfl, Nat.add_lt_add_left hless _⟩
    · rw [hkeys]
      exact ht.chained.insert hallowed hpassed hnone
    · intro p k hk
      rw [hkeys] at hk
      by_cases hp : p = P.paths.path (ids.getD w.index 0) d
      · rw [hp, Function.update_self] at hk
        exact Option.some.inj hk ▸ hid
      · rw [Function.update_of_ne hp] at hk
        exact ht.keys p k hk
    · intro p
      rw [hvalues]
      rcases ht.value p with hvalue | ⟨v, hv, hvalue, hkey⟩
      · exact Or.inl hvalue
      · exact Or.inr ⟨v, hv, hvalue, hlater.keys _ _ hkey⟩
    · refine ⟨?_, hlow, hinside, Or.inl rfl⟩
      rw [hkeys, hpos, Function.update_self]
  · rw [if_neg hempty]
    by_cases hkey : t.cells (2 * probe.pos.toNat) = ids.getD w.index 0
    · rw [if_pos hkey]
      refine ⟨_, _, rfl, ht, Later.refl t, ⟨hw.stop_le, fun _ => ?_⟩, rfl, Or.inl rfl,
        Nat.add_lt_add_left hless _⟩
      exact ⟨IdTable.keyAt_eq_some.2 ⟨hkey, P.noEmpty _ hid⟩, hlow, hinside, Or.inl rfl⟩
    · rw [if_neg hkey]
      have hother : t.keyAt (P.paths.path (ids.getD w.index 0) d) =
          some (t.cells (2 * probe.pos.toNat)) := by
        rw [← hpos]
        exact IdTable.keyAt_eq_some.2 ⟨rfl, hempty⟩
      have hnext : t.next probe = t₀.probeAt (ids.getD w.index 0) (d + 1) := by
        rw [IdTable.probeAt_succ, ht.like.next, hprobe]
      have hpassed' := hpassed.succ hother hkey
      have hallowed' := ht.chained.allowed hallowed hother hkey
      have hd' := P.short t.keyAt ht.chained ht.keys _ hid _ hallowed' hpassed'
      refine ⟨_, _, rfl, ht, Later.refl t, ⟨hw.stop_le, fun _ => ⟨d + 1, hallowed', hnext, hpassed'⟩⟩,
        rfl, Or.inl rfl, Nat.add_lt_add_left ?_ _⟩
      have hdelta' : (t.next probe).delta.toNat = d + 2 := by
        have hlt := P.steps_lt
        rw [hnext, IdTable.probeAt_delta, BitVec.toNat_ofNat, Nat.mod_eq_of_lt (by omega)]
      rw [hphase]
      show P.steps + 1 - (t.next probe).delta.toNat + _ < P.steps + 1 - probe.delta.toNat + _
      rw [hdelta, hdelta']
      omega

/-- A `compare_exchange_weak` of a value. -/
lemma setMin_ok {pos old : Id τ} (hphase : w.phase = .setMin pos old) :
    ∃ t' w', insertStep ids t w = some (t', w') ∧ P.StepOk t t' w w' := by
  have hi : w.index < ids.length := lt_of_lt_of_le hruns hw.stop_le
  have hok := hw.phase hruns
  rw [hphase] at hok
  obtain ⟨hkey, hlow, hinside, hold⟩ := hok
  have hidx := getValueIndex_eq hlow
  have hload : t.load (getValueIndex pos) = some (t.valueAt pos.toNat) := by
    rw [hidx]
    exact_mod_cast IdTable.load_eq (t := t) (k := 2 * pos.toNat + 1) (by rw [ht.like.size]; omega)
  have hlt := P.lt_of_lt hi
  rw [insertStep_setMin hphase hload]
  by_cases hcur : t.valueAt pos.toNat = old
  · rw [if_pos hcur]
    have hstore : t.store (getValueIndex pos) (valueOf τ w.index) =
        t.setValue pos.toNat (valueOf τ w.index) := by
      rw [hidx]
      rfl
    have hkeys := t.setValue_keyAt pos.toNat (valueOf τ w.index)
    have hvalues := t.setValue_valueAt pos.toNat (valueOf τ w.index)
    rw [hstore]
    have hlater : Later ids t (t.setValue pos.toNat (valueOf τ w.index)) := by
      refine ⟨hkeys ▸ Paths.extends_refl _, fun p v hv hvlt => ?_⟩
      by_cases hp : p = pos.toNat
      · refine ⟨w.index, ?_, by rw [hvalues, hp, Function.update_self]⟩
        rw [hp, hcur] at hv
        rcases hold with hold | ⟨v', w', -, hold, hiw, -, hw'⟩
        · rw [hold] at hv
          exact absurd hv.symm (valueOf_ne_empty (P.lt_of_lt hvlt))
        · rw [hold] at hv
          have hvw := valueOf_inj (P.lt_of_lt hw') (P.lt_of_lt hvlt) hv
          omega
      · exact ⟨v, le_refl v, by rw [hvalues, Function.update_of_ne hp, hv]⟩
    refine ⟨_, _, rfl, ⟨⟨ht.like.mask, ht.like.size⟩, ?_, ?_, ?_⟩, hlater,
      startAt_ok ht.like hw.stop_le _ _, rfl, Or.inr ⟨rfl, ?_⟩, startAt_less hruns⟩
    · rw [hkeys]
      exact ht.chained
    · rw [hkeys]
      exact ht.keys
    · intro p
      rw [hkeys, hvalues]
      by_cases hp : p = pos.toNat
      · right
        exact ⟨w.index, hi, by rw [hp, Function.update_self], by rw [hp, hkey]⟩
      · rw [Function.update_of_ne hp]
        exact ht.value p
    · refine ⟨pos.toNat, w.index, ?_, ?_, le_refl _⟩
      · rw [hkeys, hkey]
      · rw [hvalues, Function.update_self]
  · rw [if_neg hcur]
    -- What is there is the value of an index, unless nothing has been there yet.
    by_cases hgo : t.valueAt pos.toNat = emptyKey ∨ (valueOf τ w.index).slt (t.valueAt pos.toNat)
    · rw [if_pos hgo]
      have hnew : t.valueAt pos.toNat ≠ emptyKey := by
        intro hnone
        rcases hold with hold | ⟨v, w', hvalue, -, -, hvw, hw'⟩
        · exact hcur (hnone.trans hold.symm)
        · rw [hvalue] at hnone
          exact valueOf_ne_empty (P.lt_of_lt (hvw.trans_lt hw')) hnone
      have hslt := hgo.resolve_left hnew
      obtain ⟨v, hv, hvalue, -⟩ := (ht.value pos.toNat).resolve_left hnew
      rw [hvalue, slt_valueOf hlt (P.lt_of_lt hv)] at hslt
      refine ⟨_, _, rfl, ht, Later.refl t, ⟨hw.stop_le, fun _ => ?_⟩, rfl, Or.inl rfl,
        Nat.add_lt_add_left ?_ _⟩
      · exact ⟨hkey, hlow, hinside, Or.inr ⟨v, v, hvalue, hvalue, hslt, le_refl v, hv⟩⟩
      · rw [hphase, hvalue]
        show (if valueOf τ v = emptyKey then _ else _) < if old = emptyKey then _ else _
        rw [if_neg (valueOf_ne_empty (P.lt_of_lt hv)), toNat_valueOf (P.lt_of_lt hv)]
        rcases hold with hold | ⟨v', w', hvalue', hold, -, hvw, hw'⟩
        · rw [if_pos hold]
          omega
        · rw [hvalue] at hvalue' hcur
          have hvv := valueOf_inj (P.lt_of_lt hv) (P.lt_of_lt (hvw.trans_lt hw')) hvalue'
          rw [hold, if_neg (valueOf_ne_empty (P.lt_of_lt hw')), toNat_valueOf (P.lt_of_lt hw')]
          have hne : v ≠ w' := by
            rintro rfl
            exact hcur hold.symm
          omega
    · rw [if_neg hgo]
      rw [not_or] at hgo
      obtain ⟨v, hv, hvalue, -⟩ := (ht.value pos.toNat).resolve_left hgo.1
      have hge := hgo.2
      rw [hvalue, slt_valueOf hlt (P.lt_of_lt hv)] at hge
      refine ⟨_, _, rfl, ht, Later.refl t, startAt_ok ht.like hw.stop_le _ _, rfl, Or.inr ⟨rfl, ?_⟩,
        startAt_less hruns⟩
      exact ⟨pos.toNat, v, hkey, hvalue, Nat.not_lt.1 hge⟩

/-- **Every step of a thread** stays in the table, keeps what the threads know, and leaves less to do. -/
theorem insertStep_ok : ∃ t' w', insertStep ids t w = some (t', w') ∧ P.StepOk t t' w w' := by
  cases hphase : w.phase with
  | attempt probe => exact attempt_ok ht hw hruns hphase
  | setMin pos old => exact setMin_ok ht hw hruns hphase

end

/-! ## Runs -/

/-- What holds while the threads run. -/
structure StateOk (P : Placement t₀ ids) (par : ParallelFor) (s : InsertState τ) : Prop where
  table : P.TableOk s.table
  worker : ∀ k < par.numThreads, P.WorkerOk s.table (s.workers k)
  stop_eq : ∀ k < par.numThreads, (s.workers k).stop = par.bound 0 ids.length (k + 1)
  index_le : ∀ k < par.numThreads, (s.workers k).index ≤ (s.workers k).stop
  done : ∀ k < par.numThreads, ∀ i, par.bound 0 ids.length k ≤ i → i < (s.workers k).index →
    Done ids s.table i

/-- What is left to all threads. -/
def stateMeasure (P : Placement t₀ ids) (par : ParallelFor) (s : InsertState τ) : ℕ :=
  ∑ k ∈ Finset.range par.numThreads, P.workerMeasure (s.workers k)

variable {par : ParallelFor} {s s' : InsertState τ}

lemma bound_le (par : ParallelFor) (ids : List (Id τ)) {k : ℕ} (hk : k ≤ par.numThreads) :
    par.bound 0 ids.length k ≤ ids.length := by
  have hmono := boundary_mono (par.mono 0 ids.length (Nat.zero_le _)) hk (le_refl _)
  rwa [par.last 0 ids.length (Nat.zero_le _)] at hmono

/-- **A step of any thread** keeps what the threads know and leaves less to do. -/
theorem StateOk.step (h : P.StateOk par s) (hstep : InsertStep ids par.numThreads s s') :
    P.StateOk par s' ∧ P.stateMeasure par s' < P.stateMeasure par s := by
  obtain ⟨hk, hruns, hstep⟩ := hstep
  rename_i k t' w'
  obtain ⟨t'', w'', heq, hok⟩ := insertStep_ok h.table (h.worker k hk) hruns
  rw [hstep] at heq
  obtain ⟨rfl, rfl⟩ := Prod.mk.inj (Option.some.inj heq)
  have hindex_le : ∀ j < par.numThreads, (Function.update s.workers k w' j).index ≤
      (Function.update s.workers k w' j).stop := by
    intro j hj
    by_cases hjk : j = k
    · subst hjk
      rw [Function.update_self, hok.stop_eq]
      rcases hok.index with hindex | ⟨hindex, -⟩
      · exact hindex ▸ h.index_le j hj
      · exact hindex ▸ hruns
    · rw [Function.update_of_ne hjk]
      exact h.index_le j hj
  have hworker_ok : ∀ j < par.numThreads, P.WorkerOk t' (Function.update s.workers k w' j) := by
    intro j hj
    by_cases hjk : j = k
    · subst hjk
      rw [Function.update_self]
      exact hok.worker
    · rw [Function.update_of_ne hjk]
      have hworker := h.worker j hj
      exact ⟨hworker.stop_le, fun hr => (hworker.phase hr).later hok.later⟩
  refine ⟨⟨hok.table, hworker_ok, fun j hj => ?_, hindex_le, fun j hj i hle hlt => ?_⟩, ?_⟩
  · show (Function.update s.workers k w' j).stop = _
    by_cases hjk : j = k
    · subst hjk
      rw [Function.update_self, hok.stop_eq, h.stop_eq j hj]
    · rw [Function.update_of_ne hjk, h.stop_eq j hj]
  · replace hlt : i < (Function.update s.workers k w' j).index := hlt
    have hi : i < ids.length :=
      (hlt.trans_le (hindex_le j hj)).trans_le (hworker_ok j hj).stop_le
    by_cases hjk : j = k
    · subst hjk
      rw [Function.update_self] at hlt
      rcases hok.index with hindex | ⟨hindex, hdone⟩
      · exact (h.done j hj i hle (by omega)).later hi hok.later
      · by_cases hlast : i = (s.workers j).index
        · rwa [hlast]
        · exact (h.done j hj i hle (by omega)).later hi hok.later
    · rw [Function.update_of_ne hjk] at hlt
      exact (h.done j hj i hle hlt).later hi hok.later
  · apply Finset.sum_lt_sum
    · intro j hj
      show P.workerMeasure (Function.update s.workers k w' j) ≤ _
      by_cases hjk : j = k
      · subst hjk
        rw [Function.update_self]
        exact hok.less.le
      · rw [Function.update_of_ne hjk]
    · refine ⟨k, Finset.mem_range.2 hk, ?_⟩
      show P.workerMeasure (Function.update s.workers k w' k) < _
      rw [Function.update_self]
      exact hok.less

lemma StateOk.not_faults (h : P.StateOk par s) : ¬ Faults ids par.numThreads s := by
  rintro ⟨k, hk, hruns, hnone⟩
  obtain ⟨t', w', heq, -⟩ := insertStep_ok h.table (h.worker k hk) hruns
  rw [hnone] at heq
  cases heq

/-- **No run goes on for ever.** -/
theorem StateOk.acc (h : P.StateOk par s) :
    Acc (fun s' s => InsertStep ids par.numThreads s s') s := by
  generalize hm : P.stateMeasure par s = m
  induction m using Nat.strong_induction_on generalizing s with
  | _ m ih =>
      refine ⟨s, fun s' hstep => ?_⟩
      obtain ⟨hok, hless⟩ := h.step hstep
      exact ih _ (hm ▸ hless) hok rfl

lemma stateOk_init {infinite : ℕ} (P : Placement (emptyTable ids infinite) ids) (par : ParallelFor) :
    P.StateOk par (insertInit ids infinite par) := by
  have hnone (p : ℕ) : (emptyTable ids infinite).keyAt p = none := IdTable.keyAt_eq_none.2 rfl
  refine ⟨⟨⟨rfl, rfl⟩, fun p k hk => ?_, fun p k hk => ?_, fun p => Or.inl rfl⟩, fun k hk => ?_,
    fun k _ => rfl, fun k hk => ?_, fun k _ i hle hlt => absurd hlt (Nat.not_lt.2 hle)⟩
  · have hnot := (hnone p).symm.trans hk
    cases hnot
  · have hnot := (hnone p).symm.trans hk
    cases hnot
  · exact startAt_ok ⟨rfl, rfl⟩ (bound_le par ids hk) _ _
  · exact par.mono 0 ids.length (Nat.zero_le _) k hk

/-- **Every run.** -/
theorem stateOk_of_reach {infinite : ℕ} (P : Placement (emptyTable ids infinite) ids)
    (h : InsertReach ids infinite par s) : P.StateOk par s := by
  induction h with
  | refl => exact stateOk_init P par
  | tail _ hstep ih => exact (ih.step hstep).1

end Placement

/-! ## The filled table -/

/-- A table that holds every id with its value. -/
structure Filled (P : Placement t₀ ids) (val : Id τ → Id τ) (t : IdTable τ) : Prop where
  like : t.Like t₀
  chained : P.paths.Chained t.keyAt
  keys : ∀ p k, t.keyAt p = some k → k ∈ ids
  value : ∀ id ∈ ids, ∃ p, t.keyAt p = some id ∧ t.valueAt p = val id

/-- **When all ids are inserted**, the value of an id is its first index. -/
theorem Placement.filled {P : Placement t₀ ids} {par : ParallelFor} {s : InsertState τ}
    (h : P.StateOk par s) (hend : Inserted par.numThreads s) :
    Filled P (fun id => valueOf τ (ids.idxOf id)) s.table := by
  refine ⟨h.table.like, h.table.chained, h.table.keys, fun id hid => ?_⟩
  have hlt := List.idxOf_lt_length_of_mem hid
  have hget : ids.getD (ids.idxOf id) 0 = id := by
    rw [List.getD_eq_getElem _ _ hlt, List.getElem_idxOf]
  -- The thread that has taken the first index is past it.
  have hfirst := par.first 0 ids.length (Nat.zero_le _)
  have hlast := par.last 0 ids.length (Nat.zero_le _)
  obtain ⟨k, -, hk, hle, hkt⟩ := exists_inSlot (b := par.bound 0 ids.length)
    (Nat.zero_le par.numThreads) (by omega) (by omega : ids.idxOf id < _)
  have hindex : ids.idxOf id < (s.workers k).index := by
    have hstop := h.stop_eq k hk
    have hdone := hend k hk
    rw [InsertWorker.Runs] at hdone
    omega
  obtain ⟨p, v, hkey, hvalue, hv⟩ := h.done k hk _ hle hindex
  rw [hget] at hkey
  have hvlt := P.lt_of_lt (hv.trans_lt hlt)
  refine ⟨p, hkey, ?_⟩
  rcases h.table.value p with hempty | ⟨i, hi, hvalue', hkey'⟩
  · rw [hvalue] at hempty
    exact absurd hempty (valueOf_ne_empty hvlt)
  · have hiv := valueOf_inj (P.lt_of_lt hi) hvlt (hvalue'.symm.trans hvalue)
    have hid' : ids.getD i 0 = id := Option.some.inj (hkey'.symm.trans hkey)
    rw [List.getD_eq_getElem _ _ hi] at hid'
    have hmin : ids.idxOf id ≤ i := by
      by_contra hlt'
      have hne : ¬ (ids[i] == id) = true := by
        have hnot := List.not_of_lt_findIdx (Nat.not_le.1 hlt' : i < List.findIdx (· == id) ids)
        simpa using hnot
      simp [hid'] at hne
    rw [hvalue, show v = ids.idxOf id by omega]

end DglAscend.Graphbolt
