import Mathlib.Data.List.GetD
import DglAscend.Ascend.UniformRow

/-!
# Rows in windows

A row that does not fit the window of a core is sampled window by window.  The windows offer the
elements of the row to the reservoir one after the other, as the whole row does, and every pick is
emitted in its own window.
-/

namespace DglAscend.Ascend

open Aten

/-! ## Buffers -/

namespace Ub

variable {u v : Ub} {n j k : ℕ}

/-- The same random numbers and the same picks. -/
structure Same (n : ℕ) (u v : Ub) : Prop where
  rng : u.rng = v.rng
  picks : ∀ j < n, u.picks j = v.picks j

lemma Same.picked (h : Same n u v) : u.picked n = v.picked n :=
  List.map_congr_left fun j hj => h.picks j (List.mem_range.1 hj)

lemma setPick_picks (u : Ub) (j x : ℕ) : (u.setPick j x).picks = Function.update u.picks j x := rfl

lemma Same.setPick (h : Same n u v) (j x : ℕ) : Same n (u.setPick j x) (v.setPick j x) := by
  refine ⟨h.rng, fun i hi => ?_⟩
  rw [setPick_picks, setPick_picks]
  by_cases hij : i = j
  · subst hij
    rw [Function.update_self, Function.update_self]
  · rw [Function.update_of_ne hij, Function.update_of_ne hij]
    exact h.picks i hi

lemma Same.rand (h : Same n u v) (m : ℕ) :
    (u.rand m).1 = (v.rand m).1 ∧ Same n (u.rand m).2 (v.rand m).2 := by
  rw [Ub.rand, Ub.rand, h.rng]
  exact ⟨rfl, rfl, h.picks⟩

lemma foldl_stage (f : ℕ → ℕ → Pick) (n : ℕ) (u : Ub) :
    let u' := (List.range n).foldl (fun u j => u.stage j (f (u.picks j) j)) u
    u'.picks = u.picks ∧ u'.rng = u.rng ∧ u'.out = u.out ∧
      ∀ j < n, u'.staged j = f (u.picks j) j := by
  induction n with
  | zero => exact ⟨rfl, rfl, rfl, fun j hj => absurd hj (Nat.not_lt_zero j)⟩
  | succ n ih =>
      obtain ⟨hpicks, hrng, hout, hstaged⟩ := ih
      simp only [List.range_succ, List.foldl_append, List.foldl_cons, List.foldl_nil]
      refine ⟨hpicks, hrng, hout, fun j hj => ?_⟩
      show Function.update _ _ _ _ = _
      by_cases hjn : j = n
      · subst hjn
        rw [Function.update_self, hpicks]
      · rw [Function.update_of_ne hjn]
        exact hstaged j (by omega)

lemma copyOut_out (u : Ub) (outPos count : ℕ) : (u.copyOut outPos count).out =
    u.out ++ (List.range count).map fun j => (outPos + j, u.staged j) := rfl

end Ub

lemma window_getD (xs : List ℕ) (off : ℕ) {count j : ℕ} (hj : j < count) :
    (window xs off count).getD j 0 = xs.getD (off + j) 0 := by
  rw [window, List.getD_eq_getElem _ _ (by simpa using hj), List.getElem_map, List.getElem_range]

namespace Sampler

variable {s : Sampler} {a : RowTask} {u v : Ub}

/-! ## What is picked -/

/-- The picks of a row in UB. -/
def choose (s : Sampler) (a : RowTask) (u : Ub) : Ub :=
  if s.takesAll a then seedPicks a u
  else if s.replace then drawPicks a u
  else (List.range' a.numPicks (a.deg - a.numPicks)).foldl (offer a) (seedPicks a u)

/-- The edge at a position of the row. -/
def edge (s : Sampler) (a : RowTask) (p : ℕ) : Pick :=
  (a.row, s.csr.indices.getD (a.off + p) 0,
    if s.csr.hasData then s.csr.data.getD (a.off + p) 0 else a.off + p)

lemma seedPicks_spec (a : RowTask) (u : Ub) :
    (seedPicks a u).rng = u.rng ∧ (seedPicks a u).out = u.out ∧
      ∀ j < a.numPicks, (seedPicks a u).picks j = j := by
  have hfold (n : ℕ) : ((List.range n).foldl (fun u j => u.setPick j j) u).rng = u.rng ∧
      ((List.range n).foldl (fun u j => u.setPick j j) u).out = u.out ∧
        ∀ j < n, ((List.range n).foldl (fun u j => u.setPick j j) u).picks j = j := by
    induction n with
    | zero => exact ⟨rfl, rfl, fun j hj => absurd hj (Nat.not_lt_zero j)⟩
    | succ n ih =>
        obtain ⟨hrng, hout, hpicks⟩ := ih
        rw [List.range_succ, List.foldl_append, List.foldl_cons, List.foldl_nil]
        refine ⟨hrng, hout, fun j hj => ?_⟩
        rw [Ub.setPick_picks]
        by_cases hjn : j = n
        · subst hjn
          rw [Function.update_self]
        · rw [Function.update_of_ne hjn]
          exact hpicks j (by omega)
  exact hfold a.numPicks

lemma seedPicks_same (h : u.rng = v.rng) (a : RowTask) :
    Ub.Same a.numPicks (seedPicks a u) (seedPicks a v) := by
  obtain ⟨hrng, -, hpicks⟩ := seedPicks_spec a u
  obtain ⟨hrng', -, hpicks'⟩ := seedPicks_spec a v
  refine ⟨by rw [hrng, hrng', h], fun j hj => ?_⟩
  rw [hpicks j hj, hpicks' j hj]

lemma drawPicks_spec (hdeg : 0 < a.deg) (u : Ub) :
    (drawPicks a u).out = u.out ∧ ∀ j < a.numPicks, (drawPicks a u).picks j < a.deg := by
  have hfold (n : ℕ) : ((List.range n).foldl (fun u j => (u.rand a.deg).2.setPick j (u.rand a.deg).1) u).out = u.out ∧
      ∀ j < n, ((List.range n).foldl
        (fun u j => (u.rand a.deg).2.setPick j (u.rand a.deg).1) u).picks j < a.deg := by
    induction n with
    | zero => exact ⟨rfl, fun j hj => absurd hj (Nat.not_lt_zero j)⟩
    | succ n ih =>
        obtain ⟨hout, hpicks⟩ := ih
        rw [List.range_succ, List.foldl_append, List.foldl_cons, List.foldl_nil]
        refine ⟨hout, fun j hj => ?_⟩
        rw [Ub.setPick_picks]
        by_cases hjn : j = n
        · subst hjn
          rw [Function.update_self]
          exact randBelow_lt hdeg
        · rw [Function.update_of_ne hjn]
          exact hpicks j (by omega)
  exact hfold a.numPicks

lemma drawPicks_same (h : u.rng = v.rng) (a : RowTask) :
    Ub.Same a.numPicks (drawPicks a u) (drawPicks a v) := by
  have hfold (n : ℕ) : Ub.Same n
      ((List.range n).foldl (fun u j => (u.rand a.deg).2.setPick j (u.rand a.deg).1) u)
      ((List.range n).foldl (fun u j => (u.rand a.deg).2.setPick j (u.rand a.deg).1) v) := by
    induction n with
    | zero => exact ⟨h, fun j hj => absurd hj (Nat.not_lt_zero j)⟩
    | succ n ih =>
        simp only [List.range_succ, List.foldl_append, List.foldl_cons, List.foldl_nil]
        obtain ⟨hnum, hsame⟩ := ih.rand a.deg
        rw [hnum]
        refine ⟨hsame.rng, fun j hj => ?_⟩
        rw [Ub.setPick_picks, Ub.setPick_picks]
        by_cases hjn : j = n
        · subst hjn
          rw [Function.update_self, Function.update_self]
        · rw [Function.update_of_ne hjn, Function.update_of_ne hjn]
          exact hsame.picks j (by omega)
  exact hfold a.numPicks

lemma offer_same (h : Ub.Same a.numPicks u v) (k : ℕ) :
    Ub.Same a.numPicks (offer a u k) (offer a v k) := by
  obtain ⟨hnum, hsame⟩ := h.rand (k + 1)
  simp only [offer, hnum]
  split_ifs
  · exact hsame.setPick _ _
  · exact hsame

lemma offers_same (h : Ub.Same a.numPicks u v) (ks : List ℕ) :
    Ub.Same a.numPicks (ks.foldl (offer a) u) (ks.foldl (offer a) v) := by
  induction ks generalizing u v with
  | nil => exact h
  | cons k ks ih => exact ih (offer_same h k)

lemma offer_out (a : RowTask) (u : Ub) (k : ℕ) : (offer a u k).out = u.out := by
  rw [offer]
  split_ifs
  · rfl
  · rfl

lemma offers_out (a : RowTask) (u : Ub) (ks : List ℕ) : (ks.foldl (offer a) u).out = u.out := by
  induction ks generalizing u with
  | nil => rfl
  | cons k ks ih => rw [List.foldl_cons, ih, offer_out]

/-- The picks are different elements of the first `k`. -/
structure Reservoir (n k : ℕ) (u : Ub) : Prop where
  lt : ∀ j < n, u.picks j < k
  inj : ∀ i < n, ∀ j < n, u.picks i = u.picks j → i = j

lemma seedPicks_reservoir (a : RowTask) (u : Ub) : Reservoir a.numPicks a.numPicks (seedPicks a u) := by
  obtain ⟨-, -, hpicks⟩ := seedPicks_spec a u
  refine ⟨fun j hj => ?_, fun i hi j hj hij => ?_⟩
  · rw [hpicks j hj]
    exact hj
  · rwa [hpicks i hi, hpicks j hj] at hij

lemma Reservoir.offer {k : ℕ} (h : Reservoir a.numPicks k u) :
    Reservoir a.numPicks (k + 1) (offer a u k) := by
  have hlater : Reservoir a.numPicks (k + 1) u :=
    ⟨fun j hj => (h.lt j hj).trans (Nat.lt_succ_self k), h.inj⟩
  rw [Sampler.offer]
  split_ifs with hr
  · -- The new element is behind all others.
    refine ⟨fun j hj => ?_, fun i hi j hj hij => ?_⟩
    · rw [Ub.setPick_picks]
      by_cases hjr : j = (u.rand (k + 1)).1
      · rw [hjr, Function.update_self]
        exact Nat.lt_succ_self k
      · rw [Function.update_of_ne hjr]
        exact hlater.lt j hj
    · replace hij : Function.update u.picks (u.rand (k + 1)).1 k i =
        Function.update u.picks (u.rand (k + 1)).1 k j := hij
      by_cases hir : i = (u.rand (k + 1)).1
      · by_cases hjr : j = (u.rand (k + 1)).1
        · exact hir.trans hjr.symm
        · rw [hir, Function.update_self, Function.update_of_ne hjr] at hij
          exact absurd hij.symm (h.lt j hj).ne
      · by_cases hjr : j = (u.rand (k + 1)).1
        · rw [hjr, Function.update_self, Function.update_of_ne hir] at hij
          exact absurd hij (h.lt i hi).ne
        · rw [Function.update_of_ne hir, Function.update_of_ne hjr] at hij
          exact h.inj i hi j hj hij
  · exact ⟨hlater.lt, hlater.inj⟩

lemma Reservoir.offers {k : ℕ} (h : Reservoir a.numPicks k u) (m : ℕ) :
    Reservoir a.numPicks (k + m) ((List.range' k m).foldl (Sampler.offer a) u) := by
  induction m generalizing k u with
  | zero => exact h
  | succ m ih =>
      have hstep := ih h.offer
      rw [List.range'_succ, List.foldl_cons]
      rwa [Nat.add_right_comm] at hstep

lemma Reservoir.nodup {n k : ℕ} (h : Reservoir n k u) : (u.picked n).Nodup := by
  rw [Ub.picked]
  apply List.Nodup.map_on _ List.nodup_range
  intro i hi j hj hij
  exact h.inj i (List.mem_range.1 hi) j (List.mem_range.1 hj) hij

/-! ## The row in UB -/

/-- What is picked lies in the row, and different picks are different elements without replacement. -/
structure Chosen (s : Sampler) (a : RowTask) (u : Ub) : Prop where
  lt : ∀ p ∈ u.picked a.numPicks, p < a.deg
  nodup : s.replace = false → (u.picked a.numPicks).Nodup

lemma Reservoir.chosen (h : Reservoir a.numPicks a.deg u) : Chosen s a u := by
  refine ⟨fun p hp => ?_, fun _ => h.nodup⟩
  obtain ⟨j, hj, rfl⟩ := List.mem_map.1 hp
  exact h.lt j (List.mem_range.1 hj)

/-- The number of picks fits the row. -/
structure Counts (s : Sampler) (a : RowTask) : Prop where
  deg_pos : 0 < a.deg
  all : s.selectAll = true → a.numPicks = a.deg
  le : s.selectAll = false → s.replace = false → a.numPicks ≤ a.deg

lemma Counts.takesAll (h : Counts s a) (hall : s.takesAll a = true) : a.numPicks = a.deg := by
  rw [Sampler.takesAll, Bool.or_eq_true, Bool.and_eq_true, decide_eq_true_eq] at hall
  rcases hall with hall | hall
  · exact h.all hall
  · exact hall.2

lemma Counts.reservoir (h : Counts s a) (hall : ¬ s.takesAll a = true) (hrep : ¬ s.replace = true) :
    a.numPicks < a.deg := by
  rw [Sampler.takesAll, Bool.or_eq_true, not_or, Bool.and_eq_true, decide_eq_true_eq] at hall
  simp only [Bool.not_eq_true] at hall hrep
  have hle := h.le hall.1 hrep
  have hne : a.numPicks ≠ a.deg := fun heq => hall.2 ⟨by rw [hrep]; rfl, heq⟩
  omega

lemma choose_out (h : Counts s a) (u : Ub) : (s.choose a u).out = u.out := by
  rw [choose]
  split_ifs
  · exact (seedPicks_spec a u).2.1
  · exact (drawPicks_spec h.deg_pos u).1
  · rw [offers_out]
    exact (seedPicks_spec a u).2.1

lemma choose_same (h : u.rng = v.rng) (s : Sampler) (a : RowTask) :
    Ub.Same a.numPicks (s.choose a u) (s.choose a v) := by
  rw [choose, choose]
  split_ifs
  · exact seedPicks_same h a
  · exact drawPicks_same h a
  · exact offers_same (seedPicks_same h a) _

lemma choose_chosen (h : Counts s a) (u : Ub) : Chosen s a (s.choose a u) := by
  rw [choose]
  split_ifs with hall hrep
  · have hres := seedPicks_reservoir a u
    refine ⟨fun p hp => ?_, fun _ => hres.nodup⟩
    obtain ⟨j, hj, rfl⟩ := List.mem_map.1 hp
    rw [← h.takesAll hall]
    exact hres.lt j (List.mem_range.1 hj)
  · refine ⟨fun p hp => ?_, fun hno => ?_⟩
    · obtain ⟨j, hj, rfl⟩ := List.mem_map.1 hp
      exact (drawPicks_spec h.deg_pos u).2 j (List.mem_range.1 hj)
    · rw [hrep] at hno
      cases hno
  · have hres := (seedPicks_reservoir a u).offers (a.deg - a.numPicks)
    rw [Nat.add_sub_cancel' (h.reservoir hall hrep).le] at hres
    exact hres.chosen

/-- The edges that `SampleRowThroughUb` emits. -/
lemma sampleRowThroughUb_out (h : Counts s a) (u : Ub) : (s.sampleRowThroughUb a u).out =
    u.out ++ (List.range a.numPicks).map fun j =>
      (a.outPos + j, s.edge a ((s.choose a u).picks j)) := by
  have hlt := (choose_chosen h u).lt
  obtain ⟨-, -, hout, hstaged⟩ := Ub.foldl_stage (fun l _ => (a.row,
    (window s.csr.indices a.off a.deg).getD l 0,
    if s.csr.hasData then (window s.csr.data a.off a.deg).getD l 0 else a.off + l)) a.numPicks
    (s.choose a u)
  show (Ub.copyOut _ _ _).out = _
  rw [Ub.copyOut_out, ← choose, hout, choose_out h]
  congr 1
  apply List.map_congr_left
  intro j hj
  have hj := List.mem_range.1 hj
  have hp : (s.choose a u).picks j < a.deg :=
    hlt _ (List.mem_map_of_mem (List.mem_range.2 hj))
  rw [hstaged j hj, window_getD _ _ hp, window_getD _ _ hp]
  rfl

/-! ## A window -/

/-- The picks in a window. -/
def inWindow (base chunk : ℕ) (ps : List ℕ) : List ℕ :=
  ps.filter fun p => base ≤ p ∧ p < base + chunk

lemma emitWindow_all (outPos base chunk : ℕ) (u : Ub) :
    (s.emitWindow a outPos base chunk true u).1 = chunk ∧
      (s.emitWindow a outPos base chunk true u).2.out =
        u.out ++ (List.range chunk).map fun j => (outPos + j, s.edge a (base + j)) := by
  refine ⟨rfl, ?_⟩
  obtain ⟨-, -, hout, hstaged⟩ := Ub.foldl_stage (fun _ j => (a.row,
    (window s.csr.indices (a.off + base) chunk).getD j 0,
    if s.csr.hasData then (window s.csr.data (a.off + base) chunk).getD j 0 else a.off + base + j))
    chunk u
  set u' := (List.range chunk).foldl (fun u j => u.stage j (a.row,
    (window s.csr.indices (a.off + base) chunk).getD j 0,
    if s.csr.hasData then (window s.csr.data (a.off + base) chunk).getD j 0 else a.off + base + j))
    u with hu'
  have heq : (s.emitWindow a outPos base chunk true u).2 =
      if 0 < chunk then u'.copyOut outPos chunk else u' := rfl
  rw [heq]
  by_cases hpos : 0 < chunk
  · rw [if_pos hpos, Ub.copyOut_out, hout]
    congr 1
    apply List.map_congr_left
    intro j hj
    have hj := List.mem_range.1 hj
    rw [hstaged j hj, window_getD _ _ hj, window_getD _ _ hj, edge, Nat.add_assoc]
  · obtain rfl : chunk = 0 := by omega
    rw [if_neg hpos, hout, List.range_zero, List.map_nil, List.append_nil]

lemma scan_spec (base chunk n : ℕ) (u : Ub) :
    let r := (List.range n).foldl (fun (eu : ℕ × Ub) p =>
      if base ≤ eu.2.picks p ∧ eu.2.picks p < base + chunk then
        (eu.1 + 1, eu.2.stage eu.1
          (a.row, (window s.csr.indices (a.off + base) chunk).getD (eu.2.picks p - base) 0,
            if s.csr.hasData then
              (window s.csr.data (a.off + base) chunk).getD (eu.2.picks p - base) 0
            else a.off + eu.2.picks p))
      else eu) (0, u)
    r.1 = (inWindow base chunk (u.picked n)).length ∧ r.2.picks = u.picks ∧ r.2.out = u.out ∧
      ∀ j (hj : j < (inWindow base chunk (u.picked n)).length),
        r.2.staged j = s.edge a ((inWindow base chunk (u.picked n))[j]) := by
  induction n with
  | zero => exact ⟨rfl, rfl, rfl, fun j hj => absurd hj (Nat.not_lt_zero j)⟩
  | succ n ih =>
      simp only [List.range_succ, List.foldl_append, List.foldl_cons, List.foldl_nil]
      obtain ⟨hcount, hpicks, hout, hstaged⟩ := ih
      have hpicked : u.picked (n + 1) = u.picked n ++ [u.picks n] := by
        rw [Ub.picked, List.range_succ, List.map_append]
        rfl
      rw [hpicks]
      by_cases hin : base ≤ u.picks n ∧ u.picks n < base + chunk
      · have hwin : inWindow base chunk (u.picked (n + 1)) =
            inWindow base chunk (u.picked n) ++ [u.picks n] := by
          rw [inWindow, hpicked, List.filter_append, List.filter_singleton]
          simp only [hin, and_self, decide_true, cond_true]
          rfl
        simp only [hwin, List.length_append, List.length_singleton, if_pos hin]
        refine ⟨by rw [hcount], hpicks, hout, fun j hj => ?_⟩
        show Function.update _ _ _ _ = _
        rw [hcount]
        by_cases hlast : j = (inWindow base chunk (u.picked n)).length
        · have hchunk : u.picks n - base < chunk := by omega
          have hsum : a.off + base + (u.picks n - base) = a.off + u.picks n := by omega
          subst hlast
          rw [Function.update_self, List.getElem_append_right le_rfl, window_getD _ _ hchunk,
            window_getD _ _ hchunk, hsum]
          simp only [Nat.sub_self, List.getElem_cons_zero]
          rfl
        · rw [Function.update_of_ne hlast, List.getElem_append_left (by omega)]
          exact hstaged j (by omega)
      · have hwin : inWindow base chunk (u.picked (n + 1)) = inWindow base chunk (u.picked n) := by
          rw [inWindow, hpicked, List.filter_append, List.filter_singleton]
          simp only [hin, decide_false, cond_false, List.append_nil]
          rfl
        simp only [hwin, if_neg hin]
        exact ⟨hcount, hpicks, hout, hstaged⟩

lemma emitWindow_picks (outPos base chunk : ℕ) (u : Ub) :
    (s.emitWindow a outPos base chunk false u).1 =
        (inWindow base chunk (u.picked a.numPicks)).length ∧
      (s.emitWindow a outPos base chunk false u).2.picks = u.picks ∧
      (s.emitWindow a outPos base chunk false u).2.out.map Prod.snd =
        u.out.map Prod.snd ++ (inWindow base chunk (u.picked a.numPicks)).map (s.edge a) := by
  obtain ⟨hcount, hpicks, hout, hstaged⟩ := scan_spec (s := s) (a := a) base chunk a.numPicks u
  set r := (List.range a.numPicks).foldl (fun (eu : ℕ × Ub) p =>
      if base ≤ eu.2.picks p ∧ eu.2.picks p < base + chunk then
        (eu.1 + 1, eu.2.stage eu.1
          (a.row, (window s.csr.indices (a.off + base) chunk).getD (eu.2.picks p - base) 0,
            if s.csr.hasData then
              (window s.csr.data (a.off + base) chunk).getD (eu.2.picks p - base) 0
            else a.off + eu.2.picks p))
      else eu) (0, u) with hr
  have heq : s.emitWindow a outPos base chunk false u =
      (r.1, if 0 < r.1 then r.2.copyOut outPos r.1 else r.2) := rfl
  rw [heq]
  refine ⟨hcount, ?_, ?_⟩
  · simp only
    split_ifs
    · exact hpicks
    · exact hpicks
  · by_cases hpos : 0 < r.1
    · simp only [if_pos hpos]
      rw [Ub.copyOut_out, hout, List.map_append, List.map_map, hcount]
      congr 1
      apply List.ext_getElem
      · rw [List.length_map, List.length_map, List.length_range]
      · intro j hj hj'
        rw [List.length_map] at hj'
        rw [List.getElem_map, List.getElem_map, List.getElem_range]
        exact hstaged j hj'
    · have hnil : inWindow base chunk (u.picked a.numPicks) = [] := by
        rw [← List.length_eq_zero_iff, ← hcount]
        omega
      simp only [if_neg hpos]
      rw [hout, hnil, List.map_nil, List.append_nil]

/-! ## All edges -/

lemma chunkAt_eq (base : ℕ) : s.chunkAt a base = min (a.deg - base) s.windowElems := by
  rw [chunkAt]
  split_ifs with h
  · exact (min_eq_left h.le).symm
  · exact (min_eq_right (Nat.not_lt.1 h)).symm

/-- After `k` windows their edges have been emitted. -/
lemma emitAll_iterate (u : Ub) (k : ℕ) :
    ((s.emitAllStep a)^[k] (0, a.outPos, u)).1 = min (k * s.windowElems) a.deg ∧
      ((s.emitAllStep a)^[k] (0, a.outPos, u)).2.2.out.map Prod.snd =
        u.out.map Prod.snd ++ (List.range (min (k * s.windowElems) a.deg)).map (s.edge a) := by
  induction k with
  | zero => simp
  | succ k ih =>
      rw [Function.iterate_succ_apply']
      obtain ⟨hcount, hout⟩ := ih
      set x := (s.emitAllStep a)^[k] (0, a.outPos, u) with hx
      obtain ⟨hchunk, hwin⟩ := emitWindow_all (s := s) (a := a) x.2.1 x.1 (s.chunkAt a x.1) x.2.2
      have hnext : x.1 + s.chunkAt a x.1 = min ((k + 1) * s.windowElems) a.deg := by
        rw [chunkAt_eq, hcount, Nat.add_mul, Nat.one_mul]
        omega
      refine ⟨?_, ?_⟩
      · show x.1 + (s.emitWindow a x.2.1 x.1 (s.chunkAt a x.1) true x.2.2).1 = _
        rw [hchunk, hnext]
      · show (s.emitWindow a x.2.1 x.1 (s.chunkAt a x.1) true x.2.2).2.out.map Prod.snd = _
        have hrange : List.range (x.1 + s.chunkAt a x.1) =
            List.range x.1 ++ (List.range (s.chunkAt a x.1)).map (x.1 + ·) := List.range_add
        rw [hwin, List.map_append, hout, ← hcount, ← hnext, hrange, List.map_append,
          List.map_map, List.map_map, List.append_assoc]
        rfl

/-- With a window of at least one element all edges are emitted. -/
lemma emitAll_ends (hwin : 0 < s.windowElems) (u : Ub) :
    ∃ fuel u', project (fun x : ℕ × ℕ × Ub => x.2.2)
        (whileLoop (fun x => decide (x.1 < a.deg)) (s.emitAllStep a) fuel (0, a.outPos, u)) = .ok u' ∧
      u'.out.map Prod.snd = u.out.map Prod.snd ++ (List.range a.deg).map (s.edge a) := by
  have hlast : min (a.deg * s.windowElems) a.deg = a.deg :=
    min_eq_right (Nat.le_mul_of_pos_right _ hwin)
  have hend : decide (((s.emitAllStep a)^[a.deg] (0, a.outPos, u)).1 < a.deg) = false := by
    rw [(emitAll_iterate u a.deg).1, hlast]
    exact decide_eq_false (lt_irrefl _)
  obtain ⟨fuel, t, ht⟩ := exists_whileLoop_ok
    (fun x : ℕ × ℕ × Ub => decide (x.1 < a.deg)) (s.emitAllStep a) (0, a.outPos, u) hend
  obtain ⟨n, -, rfl, hstop, -⟩ := whileLoop_ok ht
  obtain ⟨hcount, hout⟩ := emitAll_iterate (s := s) (a := a) u n
  have hdeg : min (n * s.windowElems) a.deg = a.deg := by
    have hstop := of_decide_eq_false hstop
    rw [hcount] at hstop
    omega
  rw [hdeg] at hout
  exact ⟨fuel, _, project_eq_ok.2 ⟨_, ht, rfl⟩, hout⟩

/-- An empty window emits nothing, and the loop goes on. -/
lemma emitAll_runs (hwin : s.windowElems = 0) (hdeg : 0 < a.deg) (u : Ub) (fuel : ℕ) (u' : Ub) :
    project (fun x : ℕ × ℕ × Ub => x.2.2)
      (whileLoop (fun x => decide (x.1 < a.deg)) (s.emitAllStep a) fuel (0, a.outPos, u)) ≠ .ok u' := by
  intro hok
  obtain ⟨t, ht, -⟩ := project_eq_ok.1 hok
  apply whileLoop_ne_ok _ fuel t ht
  intro n
  rw [(emitAll_iterate u n).1, hwin]
  simpa using hdeg

/-! ## The picks, window by window -/

/-- The picks before a window and those in it are the picks before the next one. -/
lemma perm_inWindow {ps : List ℕ} (hps : ∀ p ∈ ps, p < a.deg) (base : ℕ) :
    (ps.filter (fun p => p < base) ++ inWindow base (s.chunkAt a base) ps).Perm
      (ps.filter fun p => p < base + s.windowElems) := by
  have hwin : inWindow base (s.chunkAt a base) ps =
      (ps.filter fun p => p < base + s.windowElems).filter fun p => ¬ (p < base) := by
    rw [inWindow, List.filter_filter]
    apply List.filter_congr
    intro p hp
    have hp := hps p hp
    rw [chunkAt_eq, ← Bool.decide_and]
    apply decide_eq_decide.2
    omega
  have hbefore : ps.filter (fun p => p < base) =
      (ps.filter fun p => p < base + s.windowElems).filter fun p => p < base := by
    rw [List.filter_filter]
    apply List.filter_congr
    intro p _
    rw [← Bool.decide_and]
    apply decide_eq_decide.2
    omega
  rw [hwin, hbefore]
  have hsplit := List.filter_append_perm (fun p => decide (p < base))
    (ps.filter fun p => p < base + s.windowElems)
  simpa only [decide_not] using hsplit

/-- After `k` windows that begin within the row their picks have been emitted. -/
lemma emit_iterate (hdeg : a.deg < 2 ^ 32) (hps : ∀ p ∈ u.picked a.numPicks, p < a.deg) (k : ℕ)
    (hk : ∀ j < k, j * s.windowElems < a.deg) :
    let x := (s.emitStep a)^[k] (0, 0, a.outPos, u)
    x.1 = k * s.windowElems % 2 ^ 32 ∧ x.2.2.2.picks = u.picks ∧
      x.2.1 = ((u.picked a.numPicks).filter fun p => p < k * s.windowElems).length ∧
      ∃ es, x.2.2.2.out.map Prod.snd = u.out.map Prod.snd ++ es ∧
        es.Perm (((u.picked a.numPicks).filter fun p => p < k * s.windowElems).map (s.edge a)) := by
  induction k with
  | zero =>
      have hnone : ((u.picked a.numPicks).filter fun p => p < 0 * s.windowElems) = [] := by
        rw [List.filter_eq_nil_iff]
        intro p _
        simp
      simp only [hnone]
      exact ⟨by simp, rfl, rfl, [], (List.append_nil _).symm, List.Perm.nil⟩
  | succ k ih =>
      have hk' := hk k (Nat.lt_succ_self k)
      obtain ⟨hbase, hpicks, hcount, es, hout, hperm⟩ := ih fun j hj => hk j (by omega)
      simp only [Function.iterate_succ_apply']
      set x := (s.emitStep a)^[k] (0, 0, a.outPos, u) with hx
      rw [Nat.mod_eq_of_lt (hk'.trans hdeg)] at hbase
      obtain ⟨hgot, hkeep, hwin⟩ := emitWindow_picks (s := s) (a := a) x.2.2.1 x.1
        (s.chunkAt a x.1) x.2.2.2
      have hpicked : x.2.2.2.picked a.numPicks = u.picked a.numPicks := by
        rw [Ub.picked, Ub.picked, hpicks]
      rw [hpicked, hbase] at hgot hwin
      have hnext : (k + 1) * s.windowElems = k * s.windowElems + s.windowElems := by
        rw [Nat.add_mul, Nat.one_mul]
      have hmerge := perm_inWindow (s := s) hps (k * s.windowElems)
      refine ⟨?_, ?_, ?_, es ++ (inWindow (k * s.windowElems) (s.chunkAt a (k * s.windowElems))
        (u.picked a.numPicks)).map (s.edge a), ?_, ?_⟩
      · show (x.1 + s.windowElems) % 2 ^ 32 = _
        rw [hbase, hnext]
      · show (s.emitWindow a x.2.2.1 x.1 (s.chunkAt a x.1) false x.2.2.2).2.picks = _
        rw [hkeep, hpicks]
      · show x.2.1 + (s.emitWindow a x.2.2.1 x.1 (s.chunkAt a x.1) false x.2.2.2).1 = _
        rw [hbase, hgot, hcount, hnext, ← hmerge.length_eq, List.length_append]
      · show (s.emitWindow a x.2.2.1 x.1 (s.chunkAt a x.1) false x.2.2.2).2.out.map Prod.snd = _
        rw [hbase, hwin, hout, List.append_assoc]
      · rw [hnext]
        apply List.Perm.trans _ (hmerge.map (s.edge a))
        rw [List.map_append]
        exact hperm.append_right _

/-- **Every pick is emitted once**, in its window. -/
lemma emitPicks_ends (hwin : 0 < s.windowElems) (hdeg : a.deg < 2 ^ 32)
    (hps : ∀ p ∈ u.picked a.numPicks, p < a.deg) :
    ∃ fuel u' es, s.emitPicks a fuel u = .ok u' ∧ u'.out.map Prod.snd = u.out.map Prod.snd ++ es ∧
      es.Perm ((u.picked a.numPicks).map (s.edge a)) := by
  set goOn := fun x : ℕ × ℕ × ℕ × Ub => decide (x.1 < a.deg) && decide (x.2.1 < a.numPicks) with hgoOn
  -- The number of windows of the row.
  set m := (a.deg + s.windowElems - 1) / s.windowElems with hm
  have hbefore : ∀ j < m, j * s.windowElems < a.deg := by
    intro j hj
    rw [hm, Nat.lt_iff_add_one_le, Nat.le_div_iff_mul_le hwin, Nat.add_mul, Nat.one_mul] at hj
    omega
  have hafter : a.deg ≤ m * s.windowElems := by
    have hlt : a.deg + s.windowElems - 1 < (m + 1) * s.windowElems := by
      rw [hm, Nat.mul_comm]
      exact Nat.lt_mul_div_succ _ hwin
    rw [Nat.add_mul, Nat.one_mul] at hlt
    omega
  have hlen : (u.picked a.numPicks).length = a.numPicks := by
    rw [Ub.picked, List.length_map, List.length_range]
  have hall : (u.picked a.numPicks).filter (fun p => p < m * s.windowElems) = u.picked a.numPicks := by
    rw [List.filter_eq_self]
    intro p hp
    exact decide_eq_true ((hps p hp).trans_le hafter)
  have hend : goOn ((s.emitStep a)^[m] (0, 0, a.outPos, u)) = false := by
    obtain ⟨-, -, hcount, -⟩ := emit_iterate hdeg hps m hbefore
    simp only [hgoOn]
    rw [hcount, hall, hlen, decide_eq_false (lt_irrefl a.numPicks), Bool.and_false]
  obtain ⟨fuel, t, ht⟩ := exists_whileLoop_ok goOn (s.emitStep a) (0, 0, a.outPos, u) hend
  obtain ⟨n, -, rfl, hstop, hgo⟩ := whileLoop_ok ht
  have hnm : n ≤ m := by
    by_contra hlt
    rw [hgo m (Nat.not_le.1 hlt)] at hend
    cases hend
  obtain ⟨hbase, -, hcount, es, hout, hperm⟩ :=
    emit_iterate hdeg hps n fun j hj => hbefore j (by omega)
  have hfull : (u.picked a.numPicks).filter (fun p => p < n * s.windowElems) =
      u.picked a.numPicks := by
    rcases hnm.eq_or_lt with rfl | hlt
    · exact hall
    · -- The loop has stopped within the row, so all picks have been emitted.
      have hin := hbefore n hlt
      simp only [hgoOn, hbase, Nat.mod_eq_of_lt (hin.trans hdeg), decide_eq_true hin, Bool.true_and,
        hcount, decide_eq_false_iff_not, Nat.not_lt] at hstop
      apply List.Sublist.eq_of_length List.filter_sublist
      have hle := List.length_filter_le (fun p => decide (p < n * s.windowElems)) (u.picked a.numPicks)
      omega
  rw [hfull] at hperm
  exact ⟨fuel, _, es, project_eq_ok.2 ⟨_, ht, rfl⟩, hout, hperm⟩

/-! ## The reservoir, window by window -/

/-- The elements that have been offered after `k` windows. -/
def offered (s : Sampler) (a : RowTask) (k : ℕ) : ℕ := max a.numPicks (min (k * s.windowElems) a.deg)

/-- While the loop runs the elements are offered in order. -/
lemma offer_iterate (hdeg : a.deg < 2 ^ 32) (hn : a.numPicks ≤ a.deg) (u : Ub) (k : ℕ)
    (hgo : ∀ j < k, ((s.offerStep a)^[j] (0, a.numPicks, u)).1 < a.deg) :
    (s.offerStep a)^[k] (0, a.numPicks, u) = (k * s.windowElems % 2 ^ 32, s.offered a k,
      (List.range' a.numPicks (s.offered a k - a.numPicks)).foldl (offer a) u) := by
  induction k with
  | zero => simp [offered]
  | succ k ih =>
      have ih := ih fun j hj => hgo j (by omega)
      have hbase := hgo k (Nat.lt_succ_self k)
      rw [ih] at hbase
      simp only at hbase
      rw [Function.iterate_succ_apply', ih]
      have hnext : (k + 1) * s.windowElems = k * s.windowElems + s.windowElems := by
        rw [Nat.add_mul, Nat.one_mul]
      have hwrap : (k * s.windowElems % 2 ^ 32 + s.windowElems) % 2 ^ 32 =
          (k + 1) * s.windowElems % 2 ^ 32 := by
        rw [hnext, Nat.mod_add_mod]
      rw [offerStep]
      simp only [hwrap, chunkAt_eq]
      by_cases hlap : k * s.windowElems < a.deg
      · rw [Nat.mod_eq_of_lt (hlap.trans hdeg)]
        split_ifs with hmore
        · have hstop : k * s.windowElems + min (a.deg - k * s.windowElems) s.windowElems =
              s.offered a (k + 1) := by
            rw [offered] at hmore ⊢
            omega
          have hle : a.numPicks ≤ s.offered a k := le_max_left _ _
          have hjoin : List.range' a.numPicks (s.offered a (k + 1) - a.numPicks) =
              List.range' a.numPicks (s.offered a k - a.numPicks) ++
                List.range' (s.offered a k) (s.offered a (k + 1) - s.offered a k) := by
            have happ := List.range'_append_1 (s := a.numPicks) (m := s.offered a k - a.numPicks)
              (n := s.offered a (k + 1) - s.offered a k)
            rw [Nat.add_sub_cancel' hle] at happ
            rw [happ]
            congr 1
            omega
          rw [hstop, hjoin, List.foldl_append]
        · have hsame : s.offered a (k + 1) = s.offered a k := by
            rw [offered] at hmore ⊢
            rw [offered]
            omega
          rw [hsame]
      · -- A window of another lap: everything has been offered.
        have hk : s.offered a k = a.deg := by
          rw [offered]
          omega
        have hk' : s.offered a (k + 1) = a.deg := by
          rw [offered]
          omega
        rw [if_neg (by omega), hk, hk']

/-- The window that comes round to the end of the row. -/
lemma exists_base_iff {W d : ℕ} (hd : 0 < d) :
    (∃ k, d ≤ k * W % 2 ^ 32) ↔ d + Nat.gcd W (2 ^ 32) ≤ 2 ^ 32 := by
  set N := 2 ^ 32 with hN
  set g := Nat.gcd W N with hg
  have hNpos : 0 < N := Nat.two_pow_pos 32
  have hgN : g ∣ N := Nat.gcd_dvd_right W N
  have hgpos : 0 < g := Nat.gcd_pos_of_pos_right W hNpos
  constructor
  · rintro ⟨k, hk⟩
    have hdvd : g ∣ k * W % N :=
      (Nat.dvd_mod_iff hgN).2 ((Nat.gcd_dvd_left W N).trans (Nat.dvd_mul_left W k))
    have hlt : k * W % N < N := Nat.mod_lt _ hNpos
    have hle : g ≤ N - k * W % N := Nat.le_of_dvd (by omega) (Nat.dvd_sub hgN hdvd)
    omega
  · intro hle
    have hgN' : g < N := by omega
    obtain ⟨m, -, hm⟩ := Nat.exists_mul_mod_eq_gcd (k := N) (n := W) hgN'
    obtain ⟨q, hq⟩ := hgN
    have hq1 : 1 ≤ q := by
      rcases Nat.eq_zero_or_pos q with rfl | hpos
      · omega
      · exact hpos
    refine ⟨m * (q - 1), ?_⟩
    have hmod : m * (q - 1) * W % N = N - g := by
      calc m * (q - 1) * W % N = (W * m) * (q - 1) % N := by
            congr 1
            ring
        _ = (W * m % N) * (q - 1) % N := (Nat.mod_mul_mod _ _ _).symm
        _ = g * (q - 1) % N := by rw [hm]
        _ = (N - g) % N := by rw [Nat.mul_sub, Nat.mul_one, ← hq]
        _ = N - g := Nat.mod_eq_of_lt (by omega)
    rw [hmod]
    omega

/-- **The reservoir of the windows** is that of the whole row, if the loop over the windows ends. -/
lemma offers_ends_iff (hdeg : a.deg < 2 ^ 32) (hpos : 0 < a.deg) (hn : a.numPicks ≤ a.deg)
    (u u' : Ub) :
    (∃ fuel, project (fun x : ℕ × ℕ × Ub => x.2.2)
        (whileLoop (fun x => decide (x.1 < a.deg)) (s.offerStep a) fuel (0, a.numPicks, u)) = .ok u') ↔
      a.deg + Nat.gcd s.windowElems (2 ^ 32) ≤ 2 ^ 32 ∧
        u' = (List.range' a.numPicks (a.deg - a.numPicks)).foldl (offer a) u := by
  -- Where the loop ends.
  have hresult (fuel : ℕ) (t : ℕ × ℕ × Ub)
      (ht : whileLoop (fun x : ℕ × ℕ × Ub => decide (x.1 < a.deg)) (s.offerStep a) fuel
        (0, a.numPicks, u) = .ok t) :
      (∃ k, a.deg ≤ k * s.windowElems % 2 ^ 32) ∧
        t.2.2 = (List.range' a.numPicks (a.deg - a.numPicks)).foldl (offer a) u := by
    obtain ⟨k, -, rfl, hstop, hgo⟩ := whileLoop_ok ht
    have hiter := offer_iterate hdeg hn u k fun j hj => of_decide_eq_true (hgo j hj)
    rw [hiter] at hstop ⊢
    have hend : a.deg ≤ k * s.windowElems % 2 ^ 32 := Nat.not_lt.1 (of_decide_eq_false hstop)
    have hmod : k * s.windowElems % 2 ^ 32 ≤ k * s.windowElems := Nat.mod_le _ _
    have hall : s.offered a k = a.deg := by
      rw [offered]
      omega
    rw [hall]
    exact ⟨⟨k, hend⟩, rfl⟩
  rw [← exists_base_iff hpos]
  constructor
  · rintro ⟨fuel, hok⟩
    obtain ⟨t, ht, rfl⟩ := project_eq_ok.1 hok
    exact hresult fuel t ht
  · rintro ⟨⟨k, hk⟩, rfl⟩
    cases hloop : whileLoop (fun x : ℕ × ℕ × Ub => decide (x.1 < a.deg)) (s.offerStep a) (k + 1)
        (0, a.numPicks, u) with
    | ok t => exact ⟨k + 1, by rw [hloop, ← (hresult _ t hloop).2]; rfl⟩
    | error t =>
        have hgo := (whileLoop_error hloop).2
        have hiter := offer_iterate hdeg hn u k fun j hj => of_decide_eq_true (hgo j (by omega))
        have hlast := of_decide_eq_true (hgo k (Nat.lt_succ_self k))
        rw [hiter] at hlast
        exact absurd hlast (Nat.not_lt.2 hk)

/-! ## Rows -/

/-- `SampleRow` ends and emits the edges. -/
def Emits (s : Sampler) (a : RowTask) (u : Ub) (es : List Pick) : Prop :=
  ∃ fuel u', s.sampleRow a fuel u = .ok u' ∧ u'.out.map Prod.snd = u.out.map Prod.snd ++ es

/-- The picks fit the scratch, or there is no need for it. -/
def Fits (s : Sampler) (a : RowTask) : Prop := s.takesAll a = true ∨ a.numPicks ≤ s.windowElems

/-- The loops over the windows end.  `base` comes round after the last window unless a window begins
between the end of the row and `2 ^ 32`. -/
def Ends (s : Sampler) (a : RowTask) : Prop :=
  a.deg ≤ s.windowElems ∨ (s.takesAll a = true ∧ 0 < s.windowElems) ∨
    (s.takesAll a = false ∧ (s.replace = true ∨
      a.deg + Nat.gcd s.windowElems (2 ^ 32) ≤ 2 ^ 32))

/-- What the whole row emits from UB. -/
def wholeRow (s : Sampler) (a : RowTask) (u : Ub) : List Pick :=
  ((s.sampleRowThroughUb a u).out.drop u.out.length).map Prod.snd

lemma wholeRow_eq (h : Counts s a) (u : Ub) :
    s.wholeRow a u = ((s.choose a u).picked a.numPicks).map (s.edge a) := by
  rw [wholeRow, sampleRowThroughUb_out h, List.drop_left, List.map_map, Ub.picked, List.map_map]
  rfl

lemma counts_of_numPicks {numSamples : ℕ} (hn : a.numPicks = s.numPicks numSamples a.deg)
    (hpos : 0 < a.numPicks) : Counts s a := by
  have hdeg : 0 < a.deg := by
    by_contra hzero
    rw [hn, Sampler.numPicks, if_neg hzero] at hpos
    exact lt_irrefl _ hpos
  rw [Sampler.numPicks, if_pos hdeg] at hn
  refine ⟨hdeg, fun hall => ?_, fun hsome hrep => ?_⟩
  · rwa [if_pos hall] at hn
  · rw [if_neg (by simp [hsome]), if_neg (by simp [hrep])] at hn
    rw [hn]
    exact min_le_left _ _

lemma emitPicks_mono {fuel fuel' : ℕ} (h : s.emitPicks a fuel u = .ok v) (hle : fuel ≤ fuel') :
    s.emitPicks a fuel' u = .ok v := by
  obtain ⟨t, ht, htv⟩ := project_eq_ok.1 h
  exact project_eq_ok.2 ⟨t, whileLoop_mono ht hle, htv⟩

/-- A row that ends emits the edges of its picks. -/
lemma emits_of_ends (h : Counts s a) (hpos : 0 < a.numPicks) (hdeg : a.deg < 2 ^ 32)
    (hfits : s.Fits a) (hends : s.Ends a) (u : Ub) :
    ∃ es, s.Emits a u es ∧ es.Perm (s.wholeRow a u) := by
  rw [wholeRow_eq h]
  by_cases hsmall : a.deg ≤ s.windowElems
  · refine ⟨_, ⟨0, _, if_pos hsmall, ?_⟩, List.Perm.refl _⟩
    rw [sampleRowThroughUb_out h, List.map_append, List.map_map, Ub.picked, List.map_map]
    rfl
  · have hsample (fuel : ℕ) : s.sampleRow a fuel u = s.sampleRowSegmented a fuel u := if_neg hsmall
    by_cases hall : s.takesAll a = true
    · have hwin : 0 < s.windowElems := by
        rcases hends with hle | ⟨-, hwin⟩ | ⟨hnot, -⟩
        · exact absurd hle hsmall
        · exact hwin
        · rw [hall] at hnot
          cases hnot
      obtain ⟨fuel, u', hloop, hout⟩ := emitAll_ends hwin u
      have hpicked : (s.choose a u).picked a.numPicks = List.range a.deg := by
        rw [choose, if_pos hall, Ub.picked, ← h.takesAll hall]
        calc (List.range a.numPicks).map (seedPicks a u).picks
            = (List.range a.numPicks).map id :=
              List.map_congr_left fun j hj => (seedPicks_spec a u).2.2 j (List.mem_range.1 hj)
          _ = List.range a.numPicks := List.map_id _
      refine ⟨_, ⟨fuel, u', ?_, hout⟩, ?_⟩
      · rw [hsample, sampleRowSegmented, if_pos hall]
        exact hloop
      · rw [hpicked]
    · have hwin : 0 < s.windowElems := by
        rcases hfits with hnot | hle
        · exact absurd hnot hall
        · exact hpos.trans_le hle
      have hlt := (choose_chosen h u).lt
      by_cases hrep : s.replace = true
      · have hchoose : s.choose a u = drawPicks a u := by
          rw [choose, if_neg hall, if_pos hrep]
        rw [hchoose] at hlt ⊢
        obtain ⟨fuel, u', es, hloop, hout, hperm⟩ := emitPicks_ends hwin hdeg hlt
        refine ⟨es, ⟨fuel, u', ?_, ?_⟩, hperm⟩
        · rw [hsample, sampleRowSegmented, if_neg hall, if_pos hrep]
          exact hloop
        · rw [hout, (drawPicks_spec h.deg_pos u).1]
      · have hgcd : a.deg + Nat.gcd s.windowElems (2 ^ 32) ≤ 2 ^ 32 := by
          rcases hends with hle | ⟨hyes, -⟩ | ⟨-, hyes | hgcd⟩
          · exact absurd hle hsmall
          · exact absurd hyes hall
          · exact absurd hyes hrep
          · exact hgcd
        have hchoose : s.choose a u =
            (List.range' a.numPicks (a.deg - a.numPicks)).foldl (offer a) (seedPicks a u) := by
          rw [choose, if_neg hall, if_neg hrep]
        have hout' := choose_out h u
        rw [hchoose] at hlt hout' ⊢
        obtain ⟨fuel₁, hoffers⟩ := (offers_ends_iff (s := s) hdeg h.deg_pos
          (h.reservoir hall hrep).le (seedPicks a u) _).2 ⟨hgcd, rfl⟩
        obtain ⟨fuel₂, u', es, hloop, hout, hperm⟩ := emitPicks_ends hwin hdeg hlt
        refine ⟨es, ⟨max fuel₁ fuel₂, u', ?_, ?_⟩, hperm⟩
        · obtain ⟨t, ht, htu⟩ := project_eq_ok.1 hoffers
          have hmono := whileLoop_mono ht (le_max_left fuel₁ fuel₂)
          rw [hsample, sampleRowSegmented, if_neg hall, if_neg hrep, hmono]
          show s.emitPicks a (max fuel₁ fuel₂) t.2.2 = _
          rw [htu]
          exact emitPicks_mono hloop (le_max_right _ _)
        · rw [hout, hout']

lemma sampleRow_mono {fuel fuel' : ℕ} (h : s.sampleRow a fuel u = .ok v) (hle : fuel ≤ fuel') :
    s.sampleRow a fuel' u = .ok v := by
  rw [sampleRow] at h ⊢
  by_cases hsmall : a.deg ≤ s.windowElems
  · rwa [if_pos hsmall] at h ⊢
  · rw [if_neg hsmall, sampleRowSegmented] at h ⊢
    by_cases hall : s.takesAll a = true
    · rw [if_pos hall] at h ⊢
      obtain ⟨t, ht, htv⟩ := project_eq_ok.1 h
      exact project_eq_ok.2 ⟨t, whileLoop_mono ht hle, htv⟩
    · rw [if_neg hall] at h ⊢
      by_cases hrep : s.replace = true
      · rw [if_pos hrep] at h ⊢
        exact emitPicks_mono h hle
      · rw [if_neg hrep] at h ⊢
        cases hoffers : project (fun x : ℕ × ℕ × Ub => x.2.2)
            (whileLoop (fun x => decide (x.1 < a.deg)) (s.offerStep a) fuel
              (0, a.numPicks, seedPicks a u)) with
        | error w =>
            rw [hoffers] at h
            cases h
        | ok w =>
            rw [hoffers] at h
            obtain ⟨t, ht, htw⟩ := project_eq_ok.1 hoffers
            rw [project_eq_ok.2 ⟨t, whileLoop_mono ht hle, htw⟩]
            exact emitPicks_mono h hle

lemma ends_of_ok (h : Counts s a) (hdeg : a.deg < 2 ^ 32) {fuel : ℕ}
    (hok : s.sampleRow a fuel u = .ok v) : s.Ends a := by
  by_cases hsmall : a.deg ≤ s.windowElems
  · exact Or.inl hsmall
  · rw [sampleRow, if_neg hsmall, sampleRowSegmented] at hok
    by_cases hall : s.takesAll a = true
    · refine Or.inr (Or.inl ⟨hall, ?_⟩)
      by_contra hwin
      rw [if_pos hall] at hok
      exact emitAll_runs (by omega) h.deg_pos u fuel v hok
    · refine Or.inr (Or.inr ⟨Bool.eq_false_of_not_eq_true hall, ?_⟩)
      by_cases hrep : s.replace = true
      · exact Or.inl hrep
      · right
        rw [if_neg hall, if_neg hrep] at hok
        cases hoffers : project (fun x : ℕ × ℕ × Ub => x.2.2)
            (whileLoop (fun x => decide (x.1 < a.deg)) (s.offerStep a) fuel
              (0, a.numPicks, seedPicks a u)) with
        | error t =>
            rw [hoffers] at hok
            cases hok
        | ok t =>
            exact ((offers_ends_iff hdeg h.deg_pos (h.reservoir hall hrep).le _ t).1
              ⟨fuel, hoffers⟩).1

lemma ends_of_emits (h : Counts s a) (hdeg : a.deg < 2 ^ 32) {es : List Pick}
    (hemits : s.Emits a u es) : s.Ends a := by
  obtain ⟨fuel, u', hok, -⟩ := hemits
  exact ends_of_ok h hdeg hok

/-- The sampler with another window. -/
def withWindow (s : Sampler) (windowElems : ℕ) : Sampler := { s with windowElems := windowElems }

/-- The property of a row: whichever of two windows is used, the same edges are emitted, which are
those of the whole row; without replacement they are at different positions. -/
def SameEdges (s : Sampler) (a : RowTask) (numSamples W₁ W₂ : ℕ) (u₁ u₂ : Ub) : Prop :=
  ∃ es₁ es₂, (s.withWindow W₁).Emits a u₁ es₁ ∧ (s.withWindow W₂).Emits a u₂ es₂ ∧
    es₁.Perm es₂ ∧ es₁.Perm (s.wholeRow a u₁) ∧
    (s.replace = false → ∃ ps : List ℕ, ps.Nodup ∧ (∀ p ∈ ps, p < a.deg) ∧
      ps.length = (if s.selectAll then a.deg else min numSamples a.deg) ∧
      es₁.Perm (ps.map (s.edge a)))

/-- **Windows make no difference**: a row is sampled the same way with every window that its picks fit
in, exactly when the loops over the windows end. -/
theorem sameEdges_iff {s : Sampler} {a : RowTask} {numSamples W₁ W₂ : ℕ} {u₁ u₂ : Ub}
    (hn : a.numPicks = s.numPicks numSamples a.deg) (hpos : 0 < a.numPicks)
    (hdeg : a.deg < 2 ^ 32) (h₁ : (s.withWindow W₁).Fits a) (h₂ : (s.withWindow W₂).Fits a)
    (hrng : u₁.rng = u₂.rng) :
    s.SameEdges a numSamples W₁ W₂ u₁ u₂ ↔ (s.withWindow W₁).Ends a ∧ (s.withWindow W₂).Ends a := by
  have hcounts : Counts s a := counts_of_numPicks hn hpos
  have hcounts₁ : Counts (s.withWindow W₁) a := ⟨hcounts.deg_pos, hcounts.all, hcounts.le⟩
  have hcounts₂ : Counts (s.withWindow W₂) a := ⟨hcounts.deg_pos, hcounts.all, hcounts.le⟩
  constructor
  · rintro ⟨es₁, es₂, hemits₁, hemits₂, -⟩
    exact ⟨ends_of_emits hcounts₁ hdeg hemits₁, ends_of_emits hcounts₂ hdeg hemits₂⟩
  · rintro ⟨hends₁, hends₂⟩
    obtain ⟨es₁, hemits₁, hperm₁⟩ := emits_of_ends hcounts₁ hpos hdeg h₁ hends₁ u₁
    obtain ⟨es₂, hemits₂, hperm₂⟩ := emits_of_ends hcounts₂ hpos hdeg h₂ hends₂ u₂
    replace hperm₁ : es₁.Perm (s.wholeRow a u₁) := hperm₁
    replace hperm₂ : es₂.Perm (s.wholeRow a u₂) := hperm₂
    have hwhole : s.wholeRow a u₁ = s.wholeRow a u₂ := by
      rw [wholeRow_eq hcounts, wholeRow_eq hcounts, (choose_same hrng s a).picked]
    refine ⟨es₁, es₂, hemits₁, hemits₂, ?_, hperm₁, fun hrep => ?_⟩
    · rw [hwhole] at hperm₁
      exact hperm₁.trans hperm₂.symm
    · have hchosen := choose_chosen hcounts u₁
      refine ⟨_, hchosen.nodup hrep, hchosen.lt, ?_, ?_⟩
      · rw [Ub.picked, List.length_map, List.length_range, hn, Sampler.numPicks,
          if_pos hcounts.deg_pos, hrep, if_neg Bool.false_ne_true, min_comm]
      · rw [← wholeRow_eq hcounts]
        exact hperm₁

/-- A sampler without replacement of a CSR matrix that is one row of `deg` edges. -/
def ofOneRow (deg : ℕ) : Sampler where
  replace := false
  selectAll := false
  windowElems := 0
  csr :=
    { bits := 64, numRows := 1, numCols := 1, indptr := [0, deg], indices := List.replicate deg 0,
      data := [], sorted := true }

/-- One pick from this row. -/
def onePick (deg : ℕ) : RowTask := ⟨0, 0, 0, deg, 1⟩

/-- The buffers before the first row. -/
def startUb : Ub := ⟨0x12345678, fun _ => 0, [], fun _ => (0, 0, 0), [], []⟩

/-- A row of three edges in one window and in two. -/
theorem sameEdges_threeEdges : (ofOneRow 3).SameEdges (onePick 3) 1 4 2 startUb startUb := by
  apply (sameEdges_iff (s := ofOneRow 3) (a := onePick 3) (by decide) (by decide) (by decide)
    (Or.inr (by decide)) (Or.inr (by decide)) rfl).2
  exact ⟨Or.inl (by decide), Or.inr (Or.inr ⟨by decide, Or.inr (by decide)⟩)⟩

/-- A row of `2 ^ 32 - 1` edges with a window of two: `base` comes round from `2 ^ 32 - 2` to `0`. -/
theorem not_sameEdges_longRow : ¬ (ofOneRow (2 ^ 32 - 1)).SameEdges (onePick (2 ^ 32 - 1)) 1
    (2 ^ 32 - 1) 2 startUb startUb := by
  rintro ⟨es₁, es₂, -, hemits, -⟩
  have hcounts : Counts ((ofOneRow (2 ^ 32 - 1)).withWindow 2) (onePick (2 ^ 32 - 1)) :=
    ⟨by decide, nofun, fun _ _ => by decide⟩
  rcases ends_of_emits hcounts (by decide) hemits with hle | ⟨hall, -⟩ | ⟨-, hrep | hgcd⟩
  · exact absurd hle (by decide)
  · exact absurd hall (by decide)
  · cases hrep
  · exact absurd hgcd (by decide)

end Sampler

end DglAscend.Ascend
