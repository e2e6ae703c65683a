import DglAscend.Graphbolt.ConcurrentIdHashMap
import DglAscend.Lib.OpenAddressing

/-!
# The probes of the id hash map

Where an id is looked for: after `j` steps of `Next` the position is the sum of the first `j` squares
behind the first one.  Positions below a quarter of the numbers of the type have the indices that are
meant; the index of a key at a higher position is not a number of the type.
-/

namespace DglAscend.Graphbolt

variable {τ : IdType} {t : IdTable τ} {m j : ℕ}

lemma IdType.bits_pos (τ : IdType) : 2 < τ.bits := by
  cases τ
  · decide
  · decide

lemma IdType.bits_le (τ : IdType) : τ.bits ≤ 64 := by
  cases τ
  · decide
  · decide

lemma IdType.four_mul (τ : IdType) : 4 * 2 ^ (τ.bits - 2) = 2 ^ τ.bits := by
  have hbits := τ.bits_pos
  rw [show 4 = 2 ^ 2 from rfl, ← Nat.pow_add]
  congr 1
  omega

lemma IdType.two_mul (τ : IdType) : 2 * 2 ^ (τ.bits - 1) = 2 ^ τ.bits := by
  have hbits := τ.bits_pos
  rw [← Nat.pow_succ']
  congr 1
  omega

/-! ## Masks -/

/-- The table has `2 ^ m` places. -/
structure IdTable.Sized (t : IdTable τ) (m : ℕ) : Prop where
  mask : t.mask = BitVec.ofNat τ.bits (2 ^ m - 1)
  size : t.size = 2 * 2 ^ m

/-- A mask takes the remainder, within the type of the ids. -/
lemma toNat_and_mask (ht : t.Sized m) (x : Id τ) :
    (x &&& t.mask).toNat = x.toNat % 2 ^ min m τ.bits := by
  rw [ht.mask, BitVec.toNat_and, BitVec.toNat_ofNat]
  rcases le_total m τ.bits with hle | hle
  · have hlt : 2 ^ m - 1 < 2 ^ τ.bits :=
      (Nat.sub_lt (Nat.two_pow_pos m) Nat.one_pos).trans_le (Nat.pow_le_pow_right (by omega) hle)
    rw [Nat.mod_eq_of_lt hlt, min_eq_left hle, Nat.and_two_pow_sub_one_eq_mod]
  · have hmask : (2 ^ m - 1) % 2 ^ τ.bits = 2 ^ τ.bits - 1 := by
      obtain ⟨k, rfl⟩ := Nat.exists_eq_add_of_le hle
      have hpos : 0 < 2 ^ τ.bits := Nat.two_pow_pos _
      have hk : 0 < 2 ^ k := Nat.two_pow_pos _
      have heq : 2 ^ (τ.bits + k) - 1 = (2 ^ τ.bits - 1) + 2 ^ τ.bits * (2 ^ k - 1) := by
        rw [Nat.pow_add, Nat.mul_sub, Nat.mul_one]
        have hle' : 2 ^ τ.bits ≤ 2 ^ τ.bits * 2 ^ k := Nat.le_mul_of_pos_right _ hk
        omega
      rw [heq, Nat.add_mul_mod_self_left, Nat.mod_eq_of_lt (by omega)]
    rw [hmask, min_eq_right hle, Nat.and_two_pow_sub_one_eq_mod]

/-! ## Paths -/

/-- The probe for an id after `j` steps. -/
def IdTable.probeAt (t : IdTable τ) (id : Id τ) (j : ℕ) : Probe τ := t.next^[j] (t.home id)

lemma IdTable.probeAt_zero (t : IdTable τ) (id : Id τ) : t.probeAt id 0 = t.home id := rfl

lemma IdTable.probeAt_succ (t : IdTable τ) (id : Id τ) (j : ℕ) :
    t.probeAt id (j + 1) = t.next (t.probeAt id j) := Function.iterate_succ_apply' _ _ _

lemma IdTable.probeAt_delta (t : IdTable τ) (id : Id τ) (j : ℕ) :
    (t.probeAt id j).delta = BitVec.ofNat τ.bits (j + 1) := by
  induction j with
  | zero => rfl
  | succ j ih =>
      rw [probeAt_succ]
      show (t.probeAt id j).delta + 1 = _
      rw [ih, BitVec.ofNat_add (j + 1) 1]
      rfl

/-- **The position after `j` steps.** -/
theorem IdTable.toNat_probeAt (ht : t.Sized m) (id : Id τ) (j : ℕ) :
    (t.probeAt id j).pos.toNat = (id.toNat + squareSum j) % 2 ^ min m τ.bits := by
  have hdvd : 2 ^ min m τ.bits ∣ 2 ^ τ.bits := Nat.pow_dvd_pow 2 (min_le_right _ _)
  induction j with
  | zero => exact toNat_and_mask ht id
  | succ j ih =>
      rw [probeAt_succ]
      show (((t.probeAt id j).pos + (t.probeAt id j).delta * (t.probeAt id j).delta) &&&
        t.mask).toNat = _
      rw [toNat_and_mask ht, t.probeAt_delta, BitVec.toNat_add, BitVec.toNat_mul, BitVec.toNat_ofNat,
        ih, squareSum, Nat.mod_mod_of_dvd _ hdvd, ← Nat.mul_mod, Nat.add_mod, Nat.mod_mod,
        Nat.mod_mod_of_dvd _ hdvd, ← Nat.add_mod, Nat.add_assoc]

/-- The paths of quadratic probing. -/
def IdTable.quadraticPaths (t : IdTable τ) (ids : List (Id τ)) : Paths ids where
  path id j := (t.probeAt id j).pos.toNat
  Allowed _ _ := True
  zero _ _ := trivial
  next _ _ _ _ _ _ _ _ := trivial

lemma IdTable.toNat_probeAt_lt (ht : t.Sized m) (id : Id τ) (j : ℕ) :
    (t.probeAt id j).pos.toNat < 2 ^ m := by
  rw [toNat_probeAt ht]
  have hle : 2 ^ min m τ.bits ≤ 2 ^ m := Nat.pow_le_pow_right (by omega) (min_le_left _ _)
  exact (Nat.mod_lt _ (Nat.two_pow_pos _)).trans_le hle

/-- **Every path covers the table**, as far as the type of the ids goes. -/
theorem IdTable.quadraticPaths_cover (ht : t.Sized m) (hm : m ≤ τ.bits) (ids : List (Id τ))
    (id : Id τ) : ∀ r < 2 ^ m, ∃ k < 2 ^ (m + 1), (t.quadraticPaths ids).path id k = r := by
  intro r hr
  obtain ⟨k, hk, hsum⟩ := exists_start_add_squareSum m id.toNat hr
  refine ⟨k, hk, ?_⟩
  show (t.probeAt id k).pos.toNat = r
  rw [toNat_probeAt ht, min_eq_left hm, hsum]

/-! ## Indices -/

lemma toInt_eq_toNat {x : Id τ} (hx : x.toNat < 2 ^ (τ.bits - 1)) : x.toInt = x.toNat := by
  have htwo := τ.two_mul
  exact BitVec.toInt_eq_toNat_of_lt (by omega)

variable {pos : Id τ}

section

variable (hpos : pos.toNat < 2 ^ (τ.bits - 2))
include hpos

lemma toNat_two_mul : (2 * pos).toNat = 2 * pos.toNat := by
  have hfour := τ.four_mul
  have htwo : (2 : Id τ).toNat = 2 := by
    cases τ
    · rfl
    · rfl
  rw [BitVec.toNat_mul, htwo, Nat.mod_eq_of_lt (by omega)]

lemma getKeyIndex_eq : getKeyIndex pos = 2 * pos.toNat := by
  have hfour := τ.four_mul
  have htwo := τ.two_mul
  rw [getKeyIndex, toInt_eq_toNat (by rw [toNat_two_mul hpos]; omega), toNat_two_mul hpos]
  push_cast
  rfl

lemma getValueIndex_eq : getValueIndex pos = 2 * pos.toNat + 1 := by
  have hfour := τ.four_mul
  have htwo := τ.two_mul
  have hone : (1 : Id τ).toNat = 1 := by
    cases τ
    · rfl
    · rfl
  have hnat : (2 * pos + 1).toNat = 2 * pos.toNat + 1 := by
    rw [BitVec.toNat_add, toNat_two_mul hpos, hone, Nat.mod_eq_of_lt (by omega)]
  rw [getValueIndex, toInt_eq_toNat (by rw [hnat]; omega), hnat]
  push_cast
  rfl

/-- The index of a key in `AttemptInsertAt`. -/
lemma attemptIndex_eq : attemptIndex pos = 2 * pos.toNat := by
  have hfour := τ.four_mul
  have htwo := τ.two_mul
  have hbits : 2 ^ τ.bits ≤ 2 ^ 64 := Nat.pow_le_pow_right (by omega) τ.bits_le
  have hint : (pos.signExtend 64).toInt = pos.toNat := by
    rw [BitVec.toInt_signExtend_of_le τ.bits_le, toInt_eq_toNat (by omega)]
  have hnat : (pos.signExtend 64).toNat = pos.toNat := by
    rw [BitVec.toInt_eq_toNat_cond] at hint
    split_ifs at hint <;> omega
  have hmul : (2 * pos.signExtend 64).toNat = 2 * pos.toNat := by
    rw [BitVec.toNat_mul, hnat]
    show 2 * pos.toNat % 2 ^ 64 = _
    rw [Nat.mod_eq_of_lt (by omega)]
  rw [attemptIndex, BitVec.toInt_eq_toNat_of_lt (by rw [hmul]; omega), hmul]
  push_cast
  rfl

end

/-- **The index of a key at a high position** is negative. -/
theorem getKeyIndex_neg {pos : Id τ} (hlow : 2 ^ (τ.bits - 2) ≤ pos.toNat)
    (hhigh : pos.toNat < 2 ^ (τ.bits - 1)) : getKeyIndex pos < 0 := by
  have hfour := τ.four_mul
  have htwo := τ.two_mul
  have hlit : (2 : Id τ).toNat = 2 := by
    cases τ
    · rfl
    · rfl
  have hnat : (2 * pos).toNat = 2 * pos.toNat := by
    rw [BitVec.toNat_mul, hlit, Nat.mod_eq_of_lt (by omega)]
  rw [getKeyIndex, BitVec.toInt_eq_toNat_cond, hnat, if_neg (by omega)]
  omega

/-! ## Indices as values -/

/-- The value of an index. -/
abbrev valueOf (τ : IdType) (i : ℕ) : Id τ := BitVec.ofNat τ.bits i

variable {i j : ℕ}

section

variable (hi : i < 2 ^ (τ.bits - 1))
include hi

lemma toNat_valueOf : (valueOf τ i).toNat = i := by
  have htwo := τ.two_mul
  rw [BitVec.toNat_ofNat, Nat.mod_eq_of_lt (by omega)]

lemma toInt_valueOf : (valueOf τ i).toInt = i := by
  rw [toInt_eq_toNat (by rwa [toNat_valueOf hi]), toNat_valueOf hi]

lemma valueOf_ne_empty : valueOf τ i ≠ emptyKey := by
  intro heq
  have hint := congrArg BitVec.toInt heq
  rw [toInt_valueOf hi] at hint
  have hneg : (emptyKey : Id τ).toInt = -1 := by
    cases τ
    · rfl
    · rfl
  omega

lemma valueOf_inj (hj : j < 2 ^ (τ.bits - 1)) (heq : valueOf τ i = valueOf τ j) : i = j := by
  have hnat := congrArg BitVec.toNat heq
  rwa [toNat_valueOf hi, toNat_valueOf hj] at hnat

lemma slt_valueOf (hj : j < 2 ^ (τ.bits - 1)) : (valueOf τ i).slt (valueOf τ j) = true ↔ i < j := by
  rw [BitVec.slt_iff_toInt_lt, toInt_valueOf hi, toInt_valueOf hj, Nat.cast_lt]

end

end DglAscend.Graphbolt
