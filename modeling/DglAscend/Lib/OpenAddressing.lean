import Mathlib.Data.Fintype.Card
import Mathlib.Data.Nat.ModEq
import Mathlib.Tactic

/-!
# Open addressing

A table of keys in which a key is put at the first empty place of its path, and is never moved or
removed.  A key then is at one place only, and what has been passed on its path stays passed
(`Passed.insert`), also when other keys are inserted meanwhile.  The steps of a path may be restricted,
for tables in which some steps are never taken.

At the end is a path that covers a table of `2 ^ m` places: every step advances by the next square
(`exists_squareSum`).
-/

namespace DglAscend

/-- The paths of the keys: place `path k j` is tried for key `k` at step `j`. -/
structure Paths {κ : Type*} (keys : List κ) where
  path : κ → ℕ → ℕ
  Allowed : κ → ℕ → Prop
  zero : ∀ k ∈ keys, Allowed k 0
  next : ∀ k k' j j', Allowed k j → Allowed k' j' → path k j = path k' j' → k ≠ k' →
    Allowed k (j + 1)

namespace Paths

variable {κ : Type*} {keys : List κ} {P : Paths keys} {t t' : ℕ → Option κ} {k k' : κ} {j d p q : ℕ}

/-- Key `k` has been passed by: at the first `d` steps of its path are other keys. -/
def Passed (P : Paths keys) (t : ℕ → Option κ) (k : κ) (d : ℕ) : Prop :=
  ∀ i < d, ∃ k', t (P.path k i) = some k' ∧ k' ≠ k

/-- Every key is at the end of an allowed path that passes other keys. -/
def Chained (P : Paths keys) (t : ℕ → Option κ) : Prop :=
  ∀ p k, t p = some k → ∃ j, P.Allowed k j ∧ P.path k j = p ∧ P.Passed t k j

lemma passed_zero (P : Paths keys) (t : ℕ → Option κ) (k : κ) : P.Passed t k 0 :=
  fun i hi => absurd hi (Nat.not_lt_zero i)

lemma Passed.succ (h : P.Passed t k d) (hk : t (P.path k d) = some k') (hne : k' ≠ k) :
    P.Passed t k (d + 1) := by
  intro i hi
  by_cases hid : i = d
  · subst hid
    exact ⟨k', hk, hne⟩
  · exact h i (by omega)

/-- An occupied place on an allowed path allows the next step. -/
lemma Chained.allowed (h : P.Chained t) (hd : P.Allowed k d) (hk : t (P.path k d) = some k')
    (hne : k' ≠ k) : P.Allowed k (d + 1) := by
  obtain ⟨j, hj, heq, -⟩ := h _ _ hk
  exact P.next k k' d j hd hj heq.symm hne.symm

/-- **A key is at one place only.** -/
theorem Chained.unique (h : P.Chained t) (hp : t p = some k) (hq : t q = some k) : p = q := by
  obtain ⟨i, -, rfl, hi⟩ := h p k hp
  obtain ⟨j, -, rfl, hj⟩ := h q k hq
  rcases lt_trichotomy i j with hij | hij | hij
  · obtain ⟨k', hk', hne⟩ := hj i hij
    rw [hp] at hk'
    exact absurd (Option.some.inj hk').symm hne
  · rw [hij]
  · obtain ⟨k', hk', hne⟩ := hi j hij
    rw [hq] at hk'
    exact absurd (Option.some.inj hk').symm hne

/-- A key whose path comes to an empty place is not in the table. -/
lemma Chained.absent (h : P.Chained t) (hpassed : P.Passed t k d) (hempty : t (P.path k d) = none)
    (p : ℕ) : t p ≠ some k := by
  intro hp
  obtain ⟨j, -, rfl, hj⟩ := h p k hp
  rcases lt_trichotomy j d with hjd | rfl | hjd
  · obtain ⟨k', hk', hne⟩ := hpassed j hjd
    rw [hp] at hk'
    exact hne (Option.some.inj hk').symm
  · rw [hempty] at hp
    cases hp
  · obtain ⟨k', hk', -⟩ := hj d hjd
    rw [hempty] at hk'
    cases hk'

/-- What is in the table stays there. -/
def Extends (t t' : ℕ → Option κ) : Prop := ∀ p k, t p = some k → t' p = some k

lemma extends_refl (t : ℕ → Option κ) : Extends t t := fun _ _ h => h

lemma extends_insert (hp : t p = none) (k : κ) : Extends t (Function.update t p (some k)) := by
  intro q k' hq
  have hne : q ≠ p := by
    rintro rfl
    rw [hp] at hq
    cases hq
  rwa [Function.update_of_ne hne]

lemma Passed.extend (h : P.Passed t k d) (hext : Extends t t') : P.Passed t' k d := by
  intro i hi
  obtain ⟨k', hk', hne⟩ := h i hi
  exact ⟨k', hext _ _ hk', hne⟩

/-- **Inserting a key** at the end of its path. -/
theorem Chained.insert (h : P.Chained t) (hd : P.Allowed k d) (hpassed : P.Passed t k d)
    (hempty : t (P.path k d) = none) :
    P.Chained (Function.update t (P.path k d) (some k)) := by
  have hext := extends_insert hempty k
  intro p k' hp
  by_cases hpd : p = P.path k d
  · subst hpd
    rw [Function.update_self] at hp
    obtain rfl := Option.some.inj hp
    exact ⟨d, hd, rfl, hpassed.extend hext⟩
  · rw [Function.update_of_ne hpd] at hp
    obtain ⟨j, hj, heq, hpass⟩ := h p k' hp
    exact ⟨j, hj, heq, hpass.extend hext⟩

/-- **A path ends** before it has covered the table, if there are fewer keys than places. -/
theorem Chained.passed_lt {n size steps : ℕ} (h : P.Chained t)
    (hkeys : ∀ p k, t p = some k → k ∈ keys) (hlen : keys.length < size)
    (hcover : ∀ r < size, ∃ i < steps, P.path k i = r) (hpassed : P.Passed t k n) : n < steps := by
  by_contra hlong
  -- All places are occupied, by different keys.
  have hfull : ∀ r < size, ∃ k', t r = some k' := by
    intro r hr
    obtain ⟨i, hi, rfl⟩ := hcover r hr
    obtain ⟨k', hk', -⟩ := hpassed i (by omega)
    exact ⟨k', hk'⟩
  choose f hf using fun r : Fin size => hfull r r.isLt
  have hinj : Function.Injective f := by
    intro r s hrs
    apply Fin.ext
    apply h.unique (hf r)
    rw [hrs]
    exact hf s
  have hsub : List.ofFn f ⊆ keys := by
    intro x hx
    obtain ⟨r, rfl⟩ := List.mem_ofFn.1 hx
    exact hkeys r (f r) (hf r)
  have hcard := (List.nodup_ofFn.2 hinj).length_le_of_subset hsub
  rw [List.length_ofFn] at hcard
  omega

/-- **A path comes to its key or to an empty place** before it has covered the table. -/
theorem Chained.exists_stop {size steps : ℕ} (h : P.Chained t)
    (hkeys : ∀ p k, t p = some k → k ∈ keys) (hlen : keys.length < size)
    (hcover : ∀ r < size, ∃ i < steps, P.path k i = r) :
    ∃ j < steps, P.Passed t k j ∧ (t (P.path k j) = none ∨ t (P.path k j) = some k) := by
  classical
  have hend : ∃ j, ¬ P.Passed t k j :=
    ⟨steps, fun hpassed => lt_irrefl _ (h.passed_lt hkeys hlen hcover hpassed)⟩
  -- The last step before the path has not passed other keys only.
  have hspec := Nat.find_spec hend
  cases hfind : Nat.find hend with
  | zero =>
      rw [hfind] at hspec
      exact absurd (P.passed_zero t k) hspec
  | succ j =>
      rw [hfind] at hspec
      have hpassed : P.Passed t k j := by
        by_contra hnot
        exact Nat.find_min hend (by omega : j < Nat.find hend) hnot
      refine ⟨j, h.passed_lt hkeys hlen hcover hpassed, hpassed, ?_⟩
      cases hj : t (P.path k j) with
      | none => exact Or.inl rfl
      | some k' =>
          right
          by_contra hne
          exact hspec (hpassed.succ hj fun heq => hne (congrArg some heq))

/-! ### Putting keys in -/

/-- The keys are at the ends of their paths, and they are among `keys`. -/
structure Holds (P : Paths keys) (t : ℕ → Option κ) : Prop where
  chained : P.Chained t
  keys : ∀ p k, t p = some k → k ∈ keys

/-- Key `k` is found, or is put at the end of its path. -/
inductive Puts (P : Paths keys) (t : ℕ → Option κ) (k : κ) : (ℕ → Option κ) → Prop
  | found {p : ℕ} (hp : t p = some k) : Puts P t k t
  | put {j : ℕ} (hj : P.Allowed k j) (hpassed : P.Passed t k j) (hempty : t (P.path k j) = none) :
      Puts P t k (Function.update t (P.path k j) (some k))

lemma holds_empty (P : Paths keys) (hempty : ∀ p, t p = none) : P.Holds t := by
  constructor
  · intro p k hk
    rw [hempty] at hk
    cases hk
  · intro p k hk
    rw [hempty] at hk
    cases hk

lemma Puts.extends (h : P.Puts t k t') : Extends t t' := by
  cases h with
  | found hp => exact extends_refl t
  | put hj hpassed hempty => exact extends_insert hempty k

lemma Puts.exists (h : P.Puts t k t') : ∃ p, t' p = some k := by
  cases h with
  | found hp => exact ⟨_, hp⟩
  | put hj hpassed hempty => exact ⟨_, Function.update_self _ _ _⟩

lemma Puts.holds (h : P.Puts t k t') (ht : P.Holds t) (hk : k ∈ keys) : P.Holds t' := by
  cases h with
  | found hp => exact ht
  | @put j hj hpassed hempty =>
      refine ⟨ht.chained.insert hj hpassed hempty, fun p k' hp => ?_⟩
      by_cases hpj : p = P.path k j
      · rw [hpj, Function.update_self] at hp
        exact Option.some.inj hp ▸ hk
      · rw [Function.update_of_ne hpj] at hp
        exact ht.keys p k' hp

/-- **Keys that are put in one after the other** are all in the table.  `view` is the table of keys in a
state of some program, and `I` what else its steps keep. -/
theorem foldlM_puts {σ ε : Type*} {view : σ → ℕ → Option κ} {step : σ → κ → Except ε σ} {I : σ → Prop}
    (hstep : ∀ s k, I s → P.Holds (view s) → k ∈ keys →
      ∃ s', step s k = .ok s' ∧ I s' ∧ P.Puts (view s) k (view s'))
    {s : σ} (hs : I s) (hholds : P.Holds (view s)) {l : List κ} (hl : ∀ k ∈ l, k ∈ keys) :
    ∃ s', l.foldlM step s = .ok s' ∧ I s' ∧ P.Holds (view s') ∧ Extends (view s) (view s') ∧
      ∀ k ∈ l, ∃ p, view s' p = some k := by
  induction l generalizing s with
  | nil => exact ⟨s, rfl, hs, hholds, extends_refl _, nofun⟩
  | cons k l ih =>
      have hk := hl k List.mem_cons_self
      obtain ⟨s', hput, hs', hputs⟩ := hstep s k hs hholds hk
      obtain ⟨s'', hrest, hs'', hholds'', hext, hin⟩ := ih hs' (hputs.holds hholds hk)
        fun k' hk' => hl k' (List.mem_cons_of_mem _ hk')
      refine ⟨s'', ?_, hs'', hholds'', fun p k' hp => hext p k' (hputs.extends p k' hp), ?_⟩
      · rw [List.foldlM_cons, hput]
        exact hrest
      · intro k' hk'
        rcases List.mem_cons.1 hk' with rfl | hk'
        · obtain ⟨p, hp⟩ := hputs.exists
          exact ⟨p, hext p k' hp⟩
        · exact hin k' hk'

end Paths

/-! ## Walks -/

section Walks

variable {π ε β : Type*} {next : π → π} {visit : π → Except ε (Option β)} {late : ε}

/-- The positions are visited one after the other until one has a result. -/
def walk (next : π → π) (visit : π → Except ε (Option β)) (late : ε) : ℕ → π → Except ε β
  | 0, _ => .error late
  | fuel + 1, p =>
    match visit p with
    | .error e => .error e
    | .ok (some b) => .ok b
    | .ok none => walk next visit late fuel (next p)

lemma walk_eq {p : π} {b : β} {j fuel : ℕ} (hpass : ∀ i < j, visit (next^[i] p) = .ok none)
    (hstop : visit (next^[j] p) = .ok (some b)) (hj : j < fuel) :
    walk next visit late fuel p = .ok b := by
  induction fuel generalizing p j with
  | zero => omega
  | succ fuel ih =>
      rw [walk]
      cases j with
      | zero =>
          rw [Function.iterate_zero_apply] at hstop
          rw [hstop]
      | succ j =>
          have hfirst := hpass 0 (Nat.succ_pos j)
          rw [Function.iterate_zero_apply] at hfirst
          rw [hfirst]
          apply ih (j := j)
          · intro i hi
            rw [← Function.iterate_succ_apply]
            exact hpass (i + 1) (by omega)
          · rwa [← Function.iterate_succ_apply]
          · omega

lemma exists_of_walk_eq {p : π} {b : β} {fuel : ℕ} (h : walk next visit late fuel p = .ok b) :
    ∃ q, visit q = .ok (some b) := by
  induction fuel generalizing p with
  | zero => cases h
  | succ fuel ih =>
      rw [walk] at h
      cases hvisit : visit p with
      | error e =>
          rw [hvisit] at h
          cases h
      | ok r =>
          rw [hvisit] at h
          cases r with
          | none => exact ih h
          | some b' =>
              obtain rfl := Except.ok.inj h
              exact ⟨p, hvisit⟩

end Walks

/-! ## Quadratic probing -/

/-- The sum of the first squares. -/
def squareSum : ℕ → ℕ
  | 0 => 0
  | j + 1 => squareSum j + (j + 1) * (j + 1)

lemma six_mul_squareSum (j : ℕ) : 6 * squareSum j = j * (j + 1) * (2 * j + 1) := by
  induction j with
  | zero => rfl
  | succ j ih =>
      rw [squareSum, Nat.mul_add, ih]
      ring

/-- Every other sum of squares is another residue. -/
lemma squareSum_inj {m i j : ℕ} (hi : i < 2 ^ m) (hj : j < 2 ^ m)
    (heq : squareSum (2 * i) % 2 ^ m = squareSum (2 * j) % 2 ^ m) : i = j := by
  have hthree (n : ℕ) : (3 : ℤ) * squareSum (2 * n) = 8 * n ^ 3 + 6 * n ^ 2 + n := by
    have hsix := six_mul_squareSum (2 * n)
    have hcast : (6 : ℤ) * squareSum (2 * n) = 2 * n * (2 * n + 1) * (2 * (2 * n) + 1) := by
      exact_mod_cast hsix
    linarith
  have hdvd : ((2 ^ m : ℕ) : ℤ) ∣ squareSum (2 * i) - squareSum (2 * j) :=
    (Nat.modEq_iff_dvd.1 (show squareSum (2 * j) ≡ squareSum (2 * i) [MOD 2 ^ m] from heq.symm))
  -- The difference has an odd factor besides the difference of the numbers.
  set c : ℤ := 8 * (i ^ 2 + i * j + j ^ 2) + 6 * (i + j) + 1 with hc
  have hfactor : (3 : ℤ) * (squareSum (2 * i) - squareSum (2 * j)) = (i - j) * c := by
    rw [mul_sub, hthree, hthree, hc]
    ring
  have hodd : IsCoprime ((2 ^ m : ℕ) : ℤ) c := by
    push_cast
    apply IsCoprime.pow_left
    have hcodd : ¬ (2 : ℤ) ∣ c := by omega
    exact Int.prime_two.coprime_iff_not_dvd.2 hcodd
  have hdiff : ((2 ^ m : ℕ) : ℤ) ∣ i - j := by
    apply hodd.dvd_of_dvd_mul_right
    rw [← hfactor]
    exact hdvd.mul_left 3
  have hmod := (Nat.modEq_iff_dvd.2 hdiff).symm
  rwa [Nat.ModEq, Nat.mod_eq_of_lt hi, Nat.mod_eq_of_lt hj] at hmod

/-- **The sums of squares cover all residues** of a power of two. -/
theorem exists_squareSum (m : ℕ) {r : ℕ} (hr : r < 2 ^ m) :
    ∃ k < 2 ^ (m + 1), squareSum k % 2 ^ m = r := by
  have hpos : 0 < 2 ^ m := Nat.two_pow_pos m
  let f : Fin (2 ^ m) → Fin (2 ^ m) := fun i => ⟨squareSum (2 * i) % 2 ^ m, Nat.mod_lt _ hpos⟩
  have hinj : Function.Injective f := by
    intro i j hij
    exact Fin.ext (squareSum_inj i.isLt j.isLt (congrArg Fin.val hij))
  obtain ⟨i, hi⟩ := Finite.surjective_of_injective hinj ⟨r, hr⟩
  refine ⟨2 * i, ?_, congrArg Fin.val hi⟩
  rw [Nat.pow_succ]
  omega

lemma exists_start_add_squareSum (m start : ℕ) {r : ℕ} (hr : r < 2 ^ m) :
    ∃ k < 2 ^ (m + 1), (start + squareSum k) % 2 ^ m = r := by
  have hpos : 0 < 2 ^ m := Nat.two_pow_pos m
  have hstart : start % 2 ^ m < 2 ^ m := Nat.mod_lt _ hpos
  obtain ⟨k, hk, hsum⟩ := exists_squareSum m (r := (r + (2 ^ m - start % 2 ^ m)) % 2 ^ m)
    (Nat.mod_lt _ hpos)
  refine ⟨k, hk, ?_⟩
  calc (start + squareSum k) % 2 ^ m
      = (start % 2 ^ m + (r + (2 ^ m - start % 2 ^ m)) % 2 ^ m) % 2 ^ m := by rw [Nat.add_mod, hsum]
    _ = (start % 2 ^ m + (r + (2 ^ m - start % 2 ^ m))) % 2 ^ m := Nat.add_mod_mod _ _ _
    _ = (r + 2 ^ m) % 2 ^ m := by
        congr 1
        omega
    _ = r := by rw [Nat.add_mod_right, Nat.mod_eq_of_lt hr]

/-- The paths that advance by the squares from the starts of the keys. -/
def squarePaths {κ : Type*} (start : κ → ℕ) (m : ℕ) (keys : List κ) : Paths keys where
  path k j := (start k + squareSum j) % 2 ^ m
  Allowed _ _ := True
  zero _ _ := trivial
  next _ _ _ _ _ _ _ _ := trivial

end DglAscend
