import Mathlib.Data.List.GetD
import Mathlib.Logic.Function.Iterate
import Mathlib.Tactic

/-!
# Loops

A `while` loop with a bound on its steps.  A loop that is still running at the bound is an error that
holds the state, so that something can be said about what a loop does which never ends.  At the end are
loops over a list, of steps that may fail.
-/

namespace DglAscend

variable {σ : Type*} {cond : σ → Bool} {body : σ → σ} {fuel : ℕ} {s t : σ}

/-- `while (cond(s)) s = body(s);` for at most `fuel` steps. -/
def whileLoop (cond : σ → Bool) (body : σ → σ) : ℕ → σ → Except σ σ
  | 0, s => .error s
  | fuel + 1, s => if cond s then whileLoop cond body fuel (body s) else .ok s

/-- What is left of the state of a loop. -/
def project {τ : Type*} (f : σ → τ) : Except σ σ → Except τ τ
  | .error s => .error (f s)
  | .ok s => .ok (f s)

lemma project_eq_ok {τ : Type*} {f : σ → τ} {r : Except σ σ} {y : τ} :
    project f r = .ok y ↔ ∃ s, r = .ok s ∧ f s = y := by
  cases r with
  | error s => simp [project]
  | ok s => simp [project]

/-- The state that a computation has come to, whether it has ended or not. -/
def reached : Except σ σ → σ
  | .error s => s
  | .ok s => s

lemma reached_project {τ : Type*} (f : σ → τ) (r : Except σ σ) :
    reached (project f r) = f (reached r) := by
  cases r with
  | error s => rfl
  | ok s => rfl

lemma whileLoop_succ : whileLoop cond body (fuel + 1) s =
    if cond s then whileLoop cond body fuel (body s) else .ok s := rfl

/-- A loop that is still running has taken all its steps. -/
lemma whileLoop_error (h : whileLoop cond body fuel s = .error t) :
    t = body^[fuel] s ∧ ∀ k < fuel, cond (body^[k] s) = true := by
  induction fuel generalizing s with
  | zero =>
      injection h with h
      exact ⟨h.symm, fun k hk => absurd hk (Nat.not_lt_zero k)⟩
  | succ fuel ih =>
      rw [whileLoop_succ] at h
      by_cases hc : cond s = true
      · rw [if_pos hc] at h
        obtain ⟨ht, hall⟩ := ih h
        refine ⟨ht, fun k hk => ?_⟩
        cases k with
        | zero => exact hc
        | succ k => exact hall k (by omega)
      · rw [if_neg hc] at h
        cases h

/-- A loop ends at the first state that does not go on. -/
lemma whileLoop_ok (h : whileLoop cond body fuel s = .ok t) :
    ∃ n < fuel, t = body^[n] s ∧ cond t = false ∧ ∀ k < n, cond (body^[k] s) = true := by
  induction fuel generalizing s with
  | zero => cases h
  | succ fuel ih =>
      rw [whileLoop_succ] at h
      by_cases hc : cond s = true
      · rw [if_pos hc] at h
        obtain ⟨n, hn, ht, hend, hall⟩ := ih h
        refine ⟨n + 1, by omega, ht, hend, fun k hk => ?_⟩
        cases k with
        | zero => exact hc
        | succ k => exact hall k (by omega)
      · rw [if_neg hc] at h
        injection h with h
        subst h
        exact ⟨0, Nat.succ_pos fuel, rfl, Bool.eq_false_of_not_eq_true hc,
          fun k hk => absurd hk (Nat.not_lt_zero k)⟩

/-- **A loop that comes to a state where it does not go on** returns. -/
theorem exists_whileLoop_ok (cond : σ → Bool) (body : σ → σ) (s : σ) {n : ℕ}
    (h : cond (body^[n] s) = false) : ∃ fuel t, whileLoop cond body fuel s = .ok t := by
  cases hloop : whileLoop cond body (n + 1) s with
  | ok t => exact ⟨n + 1, t, hloop⟩
  | error t =>
      have hgo := (whileLoop_error hloop).2 n (Nat.lt_succ_self n)
      rw [h] at hgo
      cases hgo

/-- **A loop that always goes on** never returns. -/
theorem whileLoop_ne_ok (h : ∀ n, cond (body^[n] s) = true) (fuel : ℕ) (t : σ) :
    whileLoop cond body fuel s ≠ .ok t := by
  intro hloop
  obtain ⟨n, -, rfl, hend, -⟩ := whileLoop_ok hloop
  rw [h n] at hend
  cases hend

lemma whileLoop_mono {fuel' : ℕ} (h : whileLoop cond body fuel s = .ok t) (hle : fuel ≤ fuel') :
    whileLoop cond body fuel' s = .ok t := by
  induction fuel generalizing s fuel' with
  | zero => cases h
  | succ fuel ih =>
      obtain ⟨fuel', rfl⟩ := Nat.exists_eq_add_of_lt (Nat.lt_of_succ_le hle)
      rw [whileLoop_succ] at h ⊢
      by_cases hc : cond s = true
      · rw [if_pos hc] at h ⊢
        exact ih h (by omega)
      · rw [if_neg hc] at h ⊢
        exact h

/-- **Invariants**: what every step keeps holds while the loop runs and at its end. -/
theorem whileLoop_inv {I : σ → Prop} (hs : I s) (hstep : ∀ s, I s → cond s = true → I (body s))
    (fuel : ℕ) : I (reached (whileLoop cond body fuel s)) := by
  induction fuel generalizing s with
  | zero => exact hs
  | succ fuel ih =>
      rw [whileLoop_succ]
      by_cases hc : cond s = true
      · rw [if_pos hc]
        exact ih (hstep s hs hc)
      · rw [if_neg hc]
        exact hs

/-- **Termination**: a loop whose steps lower a measure ends, where its invariant holds. -/
theorem whileLoop_measure {I : σ → Prop} (m : σ → ℕ) (hs : I s)
    (hstep : ∀ s, I s → cond s = true → I (body s) ∧ m (body s) < m s) {fuel : ℕ} (hfuel : m s < fuel) :
    ∃ t, whileLoop cond body fuel s = .ok t ∧ I t ∧ cond t = false := by
  induction fuel generalizing s with
  | zero => exact absurd hfuel (Nat.not_lt_zero _)
  | succ fuel ih =>
      rw [whileLoop_succ]
      by_cases hc : cond s = true
      · obtain ⟨hnext, hlt⟩ := hstep s hs hc
        rw [if_pos hc]
        exact ih hnext (by omega)
      · rw [if_neg hc]
        exact ⟨s, rfl, hs, Bool.eq_false_of_not_eq_true hc⟩

/-! ## Loops over a list -/

section Lists

variable {ε α β : Type*}

lemma bind_eq_ok_iff {α β : Type*} {x : Except ε α} {f : α → Except ε β} {y : β} :
    x.bind f = .ok y ↔ ∃ a, x = .ok a ∧ f a = .ok y := by
  cases x with
  | error e =>
      constructor
      · intro h
        cases h
      · rintro ⟨a, ha, -⟩
        cases ha
  | ok a =>
      constructor
      · intro h
        exact ⟨a, rfl, h⟩
      · rintro ⟨b, hb, h⟩
        rw [← Except.ok.inj hb] at h
        exact h

lemma mapM_ok {f : α → Except ε β} {g : α → β} {l : List α} (h : ∀ a ∈ l, f a = .ok (g a)) :
    l.mapM f = .ok (l.map g) := by
  induction l with
  | nil => rfl
  | cons a l ih =>
      rw [List.mapM_cons, h a List.mem_cons_self, ih fun b hb => h b (List.mem_cons_of_mem _ hb)]
      rfl

/-- A loop returns the results of its steps, if all of them return. -/
theorem mapM_eq_ok_iff {f : α → Except ε β} {l : List α} {ys : List β} :
    l.mapM f = .ok ys ↔ List.Forall₂ (fun a y => f a = .ok y) l ys := by
  induction l generalizing ys with
  | nil =>
      rw [List.mapM_nil, List.forall₂_nil_left_iff]
      exact ⟨fun h => (Except.ok.inj h).symm, fun h => h ▸ rfl⟩
  | cons a l ih =>
      rw [List.mapM_cons, List.forall₂_cons_left_iff]
      constructor
      · intro h
        cases ha : f a with
        | error e =>
            rw [ha] at h
            cases h
        | ok y =>
            cases hl : l.mapM f with
            | error e =>
                rw [ha, hl] at h
                cases h
            | ok ys' =>
                rw [ha, hl] at h
                obtain rfl := Except.ok.inj h
                exact ⟨y, ys', rfl, ih.1 hl, rfl⟩
      · rintro ⟨y, ys', ha, hl, rfl⟩
        rw [ha, ih.2 hl]
        rfl

/-- Where a loop returns, each of its steps has returned. -/
lemma exists_of_mapM_ok {f : α → Except ε β} {l : List α} {ys : List β} (h : l.mapM f = .ok ys)
    {a : α} (ha : a ∈ l) : ∃ y, f a = .ok y := by
  have hall := mapM_eq_ok_iff.1 h
  clear h
  induction hall with
  | nil => cases ha
  | cons hfirst hrest ih =>
      rcases List.mem_cons.1 ha with rfl | ha
      · exact ⟨_, hfirst⟩
      · exact ih ha

/-- The results of calls for `0, …, n - 1`. -/
lemma mapM_range_eq_ok_iff {f : ℕ → Except ε β} {n : ℕ} {ys : List β} (y : β) :
    (List.range n).mapM f = .ok ys ↔ ys.length = n ∧ ∀ t < n, f t = .ok (ys.getD t y) := by
  rw [mapM_eq_ok_iff, List.forall₂_iff_get]
  constructor
  · rintro ⟨hlen, hall⟩
    rw [List.length_range] at hlen
    refine ⟨hlen.symm, fun t ht => ?_⟩
    have hget := hall t (by rwa [List.length_range]) (hlen ▸ ht)
    rw [List.get_eq_getElem, List.getElem_range, List.get_eq_getElem] at hget
    rw [hget, List.getD_eq_getElem _ _ (hlen ▸ ht)]
  · rintro ⟨hlen, hall⟩
    refine ⟨List.length_range.trans hlen.symm, fun t ht ht' => ?_⟩
    rw [List.get_eq_getElem, List.getElem_range, List.get_eq_getElem, hall t (hlen ▸ ht'),
      List.getD_eq_getElem _ _ ht']

lemma exists_mapM_range {f : ℕ → Except ε β} {n : ℕ} {P : ℕ → β → Prop} (y : β)
    (h : ∀ t < n, ∃ x, f t = .ok x ∧ P t x) :
    ∃ ys, (List.range n).mapM f = .ok ys ∧ ys.length = n ∧ ∀ t < n, P t (ys.getD t y) := by
  have hchoice (t : ℕ) : ∃ x, t < n → f t = .ok x ∧ P t x := by
    by_cases ht : t < n
    · obtain ⟨x, hx⟩ := h t ht
      exact ⟨x, fun _ => hx⟩
    · exact ⟨y, fun hlt => absurd hlt ht⟩
  choose g hg using hchoice
  refine ⟨(List.range n).map g, mapM_ok fun t ht => (hg t (List.mem_range.1 ht)).1,
    by rw [List.length_map, List.length_range], fun t ht => ?_⟩
  rw [List.getD_eq_getElem _ _ (by rwa [List.length_map, List.length_range]), List.getElem_map,
    List.getElem_range]
  exact (hg t ht).2

lemma filterM_ok {α : Type} {f : α → Except ε Bool} {p : α → Bool} {l : List α}
    (h : ∀ a ∈ l, f a = .ok (p a)) : l.filterM f = .ok (l.filter p) := by
  have haux (l acc : List α) (h : ∀ a ∈ l, f a = .ok (p a)) :
      l.filterAuxM f acc = .ok ((l.filter p).reverse ++ acc) := by
    induction l generalizing acc with
    | nil => rfl
    | cons a l ih =>
        rw [List.filterAuxM, h a List.mem_cons_self]
        show l.filterAuxM f (bif p a then a :: acc else acc) = _
        rw [ih _ fun b hb => h b (List.mem_cons_of_mem _ hb)]
        cases hp : p a
        · rw [List.filter_cons_of_neg (by simp [hp]), cond_false]
        · rw [List.filter_cons_of_pos hp, cond_true, List.reverse_cons, List.append_assoc]
          rfl
  rw [List.filterM, haux l [] h]
  show Except.ok _ = _
  rw [List.append_nil, List.reverse_reverse]

lemma mem_of_mapM_ok {f : α → Except ε β} {l : List α} {ys : List β} (h : l.mapM f = .ok ys) {y : β}
    (hy : y ∈ ys) : ∃ a ∈ l, f a = .ok y := by
  induction l generalizing ys with
  | nil =>
      obtain rfl := Except.ok.inj h
      cases hy
  | cons a l ih =>
      rw [List.mapM_cons] at h
      cases ha : f a with
      | error e =>
          rw [ha] at h
          cases h
      | ok b =>
          cases hl : l.mapM f with
          | error e =>
              rw [ha, hl] at h
              cases h
          | ok bs =>
              rw [ha, hl] at h
              obtain rfl := Except.ok.inj h
              rcases List.mem_cons.1 hy with rfl | hy
              · exact ⟨a, List.mem_cons_self, ha⟩
              · obtain ⟨a', ha', heq⟩ := ih hl hy
                exact ⟨a', List.mem_cons_of_mem _ ha', heq⟩

/-- What a loop has kept has passed its test. -/
lemma mem_of_filterM_ok {α : Type} {f : α → Except ε Bool} {l xs : List α}
    (h : l.filterM f = .ok xs) {x : α} (hx : x ∈ xs) : x ∈ l ∧ f x = .ok true := by
  have haux (l acc : List α) (ys : List α) (hys : l.filterAuxM f acc = .ok ys) :
      ∀ y ∈ ys, y ∈ acc ∨ y ∈ l ∧ f y = .ok true := by
    induction l generalizing acc with
    | nil =>
        obtain rfl := Except.ok.inj hys
        exact fun y hy => Or.inl hy
    | cons a l ih =>
        rw [List.filterAuxM] at hys
        cases ha : f a with
        | error e =>
            rw [ha] at hys
            cases hys
        | ok b =>
            rw [ha] at hys
            intro y hy
            rcases ih (bif b then a :: acc else acc) hys y hy with hy | ⟨hy, hfy⟩
            · cases b
              · exact Or.inl hy
              · rcases List.mem_cons.1 hy with rfl | hy
                · exact Or.inr ⟨List.mem_cons_self, ha⟩
                · exact Or.inl hy
            · exact Or.inr ⟨List.mem_cons_of_mem _ hy, hfy⟩
  rw [List.filterM] at h
  cases hl : l.filterAuxM f [] with
  | error e =>
      rw [hl] at h
      cases h
  | ok ys =>
      rw [hl] at h
      obtain rfl := Except.ok.inj h
      rcases haux l [] ys hl x (List.mem_reverse.1 hx) with hnil | hmem
      · cases hnil
      · exact hmem

end Lists

end DglAscend
