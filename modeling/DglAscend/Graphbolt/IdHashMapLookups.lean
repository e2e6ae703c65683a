import DglAscend.Graphbolt.IdHashMapInserts
import DglAscend.Lib.Loops

/-!
# Lookups in a filled table

In a table that holds all ids, `MapId` returns the value of an id (`Filled.mapId_eq`) and `Set` replaces
it (`Filled.set_eq`).  From that the last part of the constructor is followed: what is valid, where it is
put, and what the table holds in the end (`Filled.finish_eq`).
-/

namespace DglAscend.Graphbolt

variable {τ : IdType} {ids : List (Id τ)} {t t₀ : IdTable τ} {P : Placement t₀ ids}
  {val : Id τ → Id τ} {id : Id τ} {fuel j d : ℕ} {ends : Id τ → Bool}

/-! ## Paths -/

/-- The steps of a path up to where the path has come are allowed. -/
lemma Placement.allowed_of_passed (P : Placement t₀ ids) (hchained : P.paths.Chained t.keyAt)
    (hid : id ∈ ids) (hpassed : P.paths.Passed t.keyAt id j) (hd : d ≤ j) : P.paths.Allowed id d := by
  induction d with
  | zero => exact P.paths.zero id hid
  | succ d ih =>
      obtain ⟨k, hk, hne⟩ := hpassed d (by omega)
      exact hchained.allowed (ih (by omega)) hk hne

/-- The loop over the positions comes to the place of the id. -/
lemma Placement.find_eq (P : Placement t₀ ids) (hlike : t.Like t₀)
    (hchained : P.paths.Chained t.keyAt) (hid : id ∈ ids) (hpassed : P.paths.Passed t.keyAt id j)
    (hkey : t.keyAt (P.paths.path id j) = some id) (hends : ends id = true)
    (hother : ∀ k, k ≠ emptyKey → k ≠ id → ends k = false) (hfuel : j < fuel) :
    t.find ends fuel (t.home id) = .ok ((t₀.probeAt id j).pos, id) := by
  have hload (d : ℕ) (hd : d ≤ j) :
      t.load (getKeyIndex (t₀.probeAt id d).pos) = some (t.cells (2 * P.paths.path id d)) := by
    have hallowed := P.allowed_of_passed hchained hid hpassed hd
    have hlow := P.low id hid d hallowed
    have hinside := P.inside id hid d hallowed
    rw [P.path_eq] at hlow
    rw [getKeyIndex_eq hlow, ← P.path_eq]
    exact_mod_cast IdTable.load_eq (t := t) (k := 2 * P.paths.path id d) (by rw [hlike.size]; omega)
  -- From any step of the path on.
  have hrest (n d fuel : ℕ) (hd : d + n = j) (hfuel : n < fuel) :
      t.find ends fuel (t₀.probeAt id d) = .ok ((t₀.probeAt id j).pos, id) := by
    induction n generalizing d fuel with
    | zero =>
        obtain ⟨fuel, rfl⟩ := Nat.exists_eq_add_of_lt hfuel
        rw [Nat.add_zero] at hd
        subst hd
        have hcell := (IdTable.keyAt_eq_some.1 hkey).1
        rw [Nat.zero_add, IdTable.find, hload d (le_refl d), hcell]
        simp only [hends, if_true]
    | succ n ih =>
        obtain ⟨fuel, rfl⟩ := Nat.exists_eq_add_of_lt (Nat.zero_lt_of_lt hfuel)
        obtain ⟨k, hk, hne⟩ := hpassed d (by omega)
        obtain ⟨hcell, hnonempty⟩ := IdTable.keyAt_eq_some.1 hk
        rw [Nat.zero_add, IdTable.find, hload d (by omega), hcell]
        simp only [hother k hnonempty hne, Bool.false_eq_true, if_false]
        rw [hlike.next, ← IdTable.probeAt_succ]
        exact ih (d + 1) fuel (by omega) (by omega)
  rw [hlike.home, ← IdTable.probeAt_zero]
  exact hrest j 0 fuel (Nat.zero_add j) hfuel

namespace Filled

lemma find_eq (h : Filled P val t) (hid : id ∈ ids) : ∃ pos : Id τ, pos.toNat < 2 ^ (τ.bits - 2) ∧
    2 * pos.toNat + 1 < t.size ∧ t.keyAt pos.toNat = some id ∧ t.valueAt pos.toNat = val id ∧
    ∀ ends fuel, ends id = true → (∀ k, k ≠ emptyKey → k ≠ id → ends k = false) → P.steps ≤ fuel →
      t.find ends fuel (t.home id) = .ok (pos, id) := by
  obtain ⟨p, hkey, hvalue⟩ := h.value id hid
  obtain ⟨j, hallowed, rfl, hpassed⟩ := h.chained p id hkey
  have hlow := P.low id hid j hallowed
  have hinside := P.inside id hid j hallowed
  have hsteps := P.short t.keyAt h.chained h.keys id hid j hallowed hpassed
  refine ⟨(t₀.probeAt id j).pos, ?_, ?_, ?_, ?_, fun ends fuel hends hother hfuel => ?_⟩
  · rwa [← P.path_eq]
  · rwa [← P.path_eq, h.like.size]
  · rwa [← P.path_eq]
  · rwa [← P.path_eq]
  · exact P.find_eq h.like h.chained hid hpassed hkey hends hother (by omega)

/-- **`MapId` of an id in the table.** -/
theorem mapId_eq (h : Filled P val t) (hid : id ∈ ids) (hfuel : P.steps ≤ fuel) :
    t.mapId fuel id = .ok (val id) := by
  obtain ⟨pos, hlow, hinside, -, hvalue, hfind⟩ := h.find_eq hid
  have hload : t.load (getValueIndex pos) = some (val id) := by
    rw [getValueIndex_eq hlow, ← hvalue]
    exact_mod_cast IdTable.load_eq hinside
  have hne := P.noEmpty id hid
  rw [IdTable.mapId, hfind _ fuel (by simp) (by simp_all) hfuel]
  show (if id = emptyKey then _ else _) = _
  rw [if_neg hne, hload]

/-- **`Set` of an id in the table.** -/
theorem set_eq (h : Filled P val t) (hid : id ∈ ids) (hfuel : P.steps ≤ fuel) (x : Id τ) :
    ∃ t', t.set fuel id x = .ok t' ∧ Filled P (Function.update val id x) t' := by
  obtain ⟨pos, hlow, hinside, hkey, hvalue, hfind⟩ := h.find_eq hid
  have hload : t.load (getValueIndex pos) = some (val id) := by
    rw [getValueIndex_eq hlow, ← hvalue]
    exact_mod_cast IdTable.load_eq hinside
  have hkeys := t.setValue_keyAt pos.toNat x
  have hvalues := t.setValue_valueAt pos.toNat x
  refine ⟨t.setValue pos.toNat x, ?_, ⟨h.like.mask, h.like.size⟩, ?_, ?_, fun k hk => ?_⟩
  · have hfound := hfind (fun k => k = id) fuel (by simp) (by simp) hfuel
    rw [t.set_of_find hfound hload, getValueIndex_eq hlow]
    rfl
  · rw [hkeys]
    exact h.chained
  · rw [hkeys]
    exact h.keys
  · obtain ⟨q, hqkey, hqvalue⟩ := h.value k hk
    refine ⟨q, by rw [hkeys, hqkey], ?_⟩
    rw [hvalues]
    by_cases hkid : k = id
    · have hq : q = pos.toNat := h.chained.unique hqkey (hkid ▸ hkey)
      rw [hq, hkid, Function.update_self, Function.update_self]
    · have hq : q ≠ pos.toNat := by
        rintro rfl
        exact hkid (Option.some.inj (hqkey.symm.trans hkey))
      rw [Function.update_of_ne hq, Function.update_of_ne hkid, hqvalue]

end Filled

/-! ## Setting the values -/

/-- The values after all calls of `Set`. -/
def setAll (ids : List (Id τ)) (val : Id τ → Id τ) (sets : List (ℕ × ℕ)) : Id τ → Id τ :=
  sets.foldl (fun val w => Function.update val (ids.getD w.1 0) (valueOf τ w.2)) val

lemma setAll_of_notMem {sets : List (ℕ × ℕ)} (h : ∀ w ∈ sets, ids.getD w.1 0 ≠ id) :
    setAll ids val sets id = val id := by
  induction sets generalizing val with
  | nil => rfl
  | cons w sets ih =>
      show setAll ids (Function.update val _ _) sets id = _
      rw [ih fun w' hw' => h w' (List.mem_cons_of_mem _ hw'),
        Function.update_of_ne (h w List.mem_cons_self).symm]

lemma setAll_of_mem {sets : List (ℕ × ℕ)} (hnodup : (sets.map fun w => ids.getD w.1 0).Nodup)
    {w : ℕ × ℕ} (hw : w ∈ sets) : setAll ids val sets (ids.getD w.1 0) = valueOf τ w.2 := by
  induction sets generalizing val with
  | nil => cases hw
  | cons w' sets ih =>
      rw [List.map_cons, List.nodup_cons] at hnodup
      show setAll ids (Function.update val _ _) sets _ = _
      rcases List.mem_cons.1 hw with rfl | hw
      · rw [setAll_of_notMem, Function.update_self]
        intro w' hw' heq
        exact hnodup.1 (List.mem_map.2 ⟨w', hw', heq⟩)
      · exact ih hnodup.2 hw

lemma Filled.setAll_eq (h : Filled P val t) (hfuel : P.steps ≤ fuel) {sets : List (ℕ × ℕ)}
    (hsets : ∀ w ∈ sets, ids.getD w.1 0 ∈ ids) :
    ∃ t', sets.foldlM (fun t w => t.set fuel (ids.getD w.1 0) (valueOf τ w.2)) t = .ok t' ∧
      Filled P (setAll ids val sets) t' := by
  induction sets generalizing t val with
  | nil => exact ⟨t, rfl, h⟩
  | cons w sets ih =>
      obtain ⟨t', hset, h'⟩ := h.set_eq (hsets w List.mem_cons_self) hfuel (valueOf τ w.2)
      obtain ⟨t'', hsets', h''⟩ := ih h' fun w' hw' => hsets w' (List.mem_cons_of_mem _ hw')
      refine ⟨t'', ?_, h''⟩
      rw [List.foldlM_cons, hset]
      exact hsets'

end DglAscend.Graphbolt
