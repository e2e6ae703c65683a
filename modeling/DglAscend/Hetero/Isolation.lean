import DglAscend.Hetero.FormatRuns

/-!
# A call changes one graph

A call fills at most the placeholders of the graph that it is called on.  As long as graphs share
only filled objects (`World.Apart`), no other graph notices.
-/

namespace DglAscend.Hetero

open Aten

variable {T : ℕ+} {h h' h'' : Heap} {g : UnitGraph} {C D : ℕ → Prop}

/-- The CSR objects of a graph. -/
def UnitGraph.csrPtrs (g : UnitGraph) : List ℕ := [g.inCsr, g.outCsr]

/-- Only placeholders in `C` and `D` may have changed. -/
structure Frame (C D : ℕ → Prop) (h h' : Heap) : Prop where
  csrs_le : h.csrs.length ≤ h'.csrs.length
  coos_le : h.coos.length ≤ h'.coos.length
  csr : ∀ p < h.csrs.length, (C p → (h.csr p).isSome = true) → h'.csr p = h.csr p
  coo : ∀ p < h.coos.length, (D p → (h.coo p).isSome = true) → h'.coo p = h.coo p

/-- Nothing has changed. -/
abbrev Kept : Heap → Heap → Prop := Frame (fun _ => False) fun _ => False

lemma Frame.refl (C D : ℕ → Prop) (h : Heap) : Frame C D h h :=
  ⟨le_rfl, le_rfl, fun _ _ _ => rfl, fun _ _ _ => rfl⟩

lemma Frame.trans (h₁ : Frame C D h h') (h₂ : Frame C D h' h'') : Frame C D h h'' where
  csrs_le := h₁.csrs_le.trans h₂.csrs_le
  coos_le := h₁.coos_le.trans h₂.coos_le
  csr p hp hC := by
    have heq := h₁.csr p hp hC
    exact (h₂.csr p (hp.trans_le h₁.csrs_le) (heq ▸ hC)).trans heq
  coo p hp hD := by
    have heq := h₁.coo p hp hD
    exact (h₂.coo p (hp.trans_le h₁.coos_le) (heq ▸ hD)).trans heq

lemma Frame.mono {C' D' : ℕ → Prop} (hf : Frame C D h h') (hC : ∀ p, C p → C' p)
    (hD : ∀ p, D p → D' p) : Frame C' D' h h' where
  csrs_le := hf.csrs_le
  coos_le := hf.coos_le
  csr p hp hp' := hf.csr p hp fun h => hp' (hC p h)
  coo p hp hp' := hf.coo p hp fun h => hp' (hD p h)

lemma Frame.csr_eq (hk : Kept h h') {p : ℕ} (hp : p < h.csrs.length) : h'.csr p = h.csr p :=
  hk.csr p hp False.elim

lemma Frame.coo_eq (hk : Kept h h') {p : ℕ} (hp : p < h.coos.length) : h'.coo p = h.coo p :=
  hk.coo p hp False.elim

lemma Frame.of_kept (hk : Kept h h') : Frame C D h h' := hk.mono (fun _ => False.elim) fun _ => False.elim

lemma kept_newCSR (h : Heap) (m : Option CSRMatrix) : Kept h (h.newCSR m).2 where
  csrs_le := (Grown.append (κ := ℕ) ⟨fun _ => 0, fun _ => true⟩ h.csrs m 0 true).le
  coos_le := le_rfl
  csr _ hp _ := cell_append_left m hp
  coo _ _ _ := rfl

lemma kept_newCOO (h : Heap) (m : Option COOMatrix) : Kept h (h.newCOO m).2 where
  csrs_le := le_rfl
  coos_le := (Grown.append (κ := ℕ) ⟨fun _ => 0, fun _ => true⟩ h.coos m 0 true).le
  csr _ _ _ := rfl
  coo _ hp _ := cell_append_left m hp

lemma kept_orPlaceholderCSR (h : Heap) (ptr : Option ℕ) :
    Kept h (h.orPlaceholderCSR ptr).2 ∧ (ptr = some (h.orPlaceholderCSR ptr).1 ∨
      h.csrs.length ≤ (h.orPlaceholderCSR ptr).1) := by
  cases ptr with
  | some p => exact ⟨Frame.refl _ _ h, Or.inl rfl⟩
  | none => exact ⟨kept_newCSR h none, Or.inr le_rfl⟩

lemma kept_orPlaceholderCOO (h : Heap) (ptr : Option ℕ) :
    Kept h (h.orPlaceholderCOO ptr).2 ∧ (ptr = some (h.orPlaceholderCOO ptr).1 ∨
      h.coos.length ≤ (h.orPlaceholderCOO ptr).1) := by
  cases ptr with
  | some p => exact ⟨Frame.refl _ _ h, Or.inl rfl⟩
  | none => exact ⟨kept_newCOO h none, Or.inr le_rfl⟩

variable {formats : Formats} {n : ℕ} {pin pout pcoo : Option ℕ}

/-- The objects of a new graph are new or were given to the constructor. -/
lemma new_kept {r : UnitGraph × Heap} (hr : UnitGraph.new h n pin pout pcoo formats = some r) :
    Kept h r.2 ∧
      (∀ p ∈ r.1.csrPtrs, pin = some p ∨ pout = some p ∨ h.csrs.length ≤ p) ∧
      (pcoo = some r.1.coo ∨ h.coos.length ≤ r.1.coo) := by
  obtain ⟨hk₁, hin⟩ := kept_orPlaceholderCSR h pin
  obtain ⟨hk₂, hout⟩ := kept_orPlaceholderCSR (h.orPlaceholderCSR pin).2 pout
  obtain ⟨hk₃, hcoo⟩ := kept_orPlaceholderCOO
    ((h.orPlaceholderCSR pin).2.orPlaceholderCSR pout).2 pcoo
  rw [UnitGraph.new] at hr
  simp only at hr
  split at hr
  · obtain rfl := Option.some.inj hr
    refine ⟨(hk₁.trans hk₂).trans hk₃, ?_, ?_⟩
    · intro p hp
      simp only [UnitGraph.csrPtrs, List.mem_cons, List.not_mem_nil, or_false] at hp
      rcases hp with rfl | rfl
      · exact hin.elim Or.inl fun hle => Or.inr (Or.inr hle)
      · exact hout.elim (fun h => Or.inr (Or.inl h)) fun hle => Or.inr (Or.inr (hk₁.csrs_le.trans hle))
    · exact hcoo.elim Or.inl fun hle => Or.inr ((hk₁.trans hk₂).coos_le.trans hle)
  · cases hr

/-- A new graph that shares only filled objects. -/
structure Separate (h : Heap) (r : UnitGraph × Heap) : Prop where
  kept : Kept h r.2
  csr : ∀ p ∈ r.1.csrPtrs, p < h.csrs.length → (h.csr p).isSome = true
  coo : r.1.coo < h.coos.length → (h.coo r.1.coo).isSome = true

lemma Separate.of_new (hk : Kept h h') {r : UnitGraph × Heap}
    (hr : UnitGraph.new h' n pin pout pcoo formats = some r)
    (hin : ∀ p, pin = some p → p < h.csrs.length → (h.csr p).isSome = true)
    (hout : ∀ p, pout = some p → p < h.csrs.length → (h.csr p).isSome = true)
    (hcoo : ∀ p, pcoo = some p → p < h.coos.length → (h.coo p).isSome = true) : Separate h r := by
  obtain ⟨hk', hcsrs, hcoos⟩ := new_kept hr
  refine ⟨hk.trans hk', fun p hp hlt => ?_, fun hlt => ?_⟩
  · rcases hcsrs p hp with hp | hp | hp
    · exact hin p hp hlt
    · exact hout p hp hlt
    · exact absurd hlt (Nat.not_lt.2 (hk.csrs_le.trans hp))
  · rcases hcoos with hp | hp
    · exact hcoo _ hp hlt
    · exact absurd hlt (Nat.not_lt.2 (hk.coos_le.trans hp))

lemma createFromCOO_separate {mat : COOMatrix} {r : UnitGraph × Heap}
    (hr : UnitGraph.createFromCOO h n mat formats = some r) : Separate h r := by
  rw [UnitGraph.createFromCOO] at hr
  split at hr
  · apply Separate.of_new (kept_newCOO h (some mat)) hr
    · exact of_null
    · exact of_null
    · intro p hp hlt
      obtain rfl := Option.some.inj hp
      exact absurd hlt (lt_irrefl _)
  · cases hr

lemma createFromCSR_separate {mat : CSRMatrix} {r : UnitGraph × Heap}
    (hr : UnitGraph.createFromCSR h n mat formats = some r) : Separate h r := by
  rw [UnitGraph.createFromCSR] at hr
  split at hr
  · apply Separate.of_new (kept_newCSR h (some mat)) hr
    · exact of_null
    · intro p hp hlt
      obtain rfl := Option.some.inj hp
      exact absurd hlt (lt_irrefl _)
    · exact of_null
  · cases hr

lemma createFromCSC_separate {mat : CSRMatrix} {r : UnitGraph × Heap}
    (hr : UnitGraph.createFromCSC h n mat formats = some r) : Separate h r := by
  rw [UnitGraph.createFromCSC] at hr
  split at hr
  · apply Separate.of_new (kept_newCSR h (some mat)) hr
    · intro p hp hlt
      obtain rfl := Option.some.inj hp
      exact absurd hlt (lt_irrefl _)
    · exact of_null
    · exact of_null
  · cases hr

lemma Separate.of_kept {r : UnitGraph × Heap} (hk : Kept h h') (hs : Separate h' r) :
    Separate h r where
  kept := hk.trans hs.kept
  csr p hp hlt := by
    have hsome := hs.csr p hp (hlt.trans_le hk.csrs_le)
    rwa [hk.csr_eq hlt] at hsome
  coo hlt := by
    have hsome := hs.coo (hlt.trans_le hk.coos_le)
    rwa [hk.coo_eq hlt] at hsome

/-! ## Calls on a graph -/

variable {r : ℕ × Heap} {a inplace : Bool} {p : ℕ}

/-- `get(false)` changes nothing, `get(true)` at most the placeholder of the graph. -/
lemma Got.csr_frame {newadj : Option CSRMatrix} (hr : GotCSR h a inplace p newadj r) :
    Frame (fun q => inplace = true ∧ q = p) (fun _ => False) h r.2 := by
  rcases hr with ⟨-, rfl⟩ | ⟨hnone, m, -, ⟨hin, -, rfl⟩ | ⟨-, rfl⟩⟩
  · exact Frame.refl _ _ h
  · refine ⟨by simp [Heap.setCSR], le_rfl, fun q _ hC => ?_, fun _ _ _ => rfl⟩
    have hne : p ≠ q := by
      rintro rfl
      simp [hC ⟨hin, rfl⟩] at hnone
    exact cell_set_ne hne _
  · exact Frame.of_kept (kept_newCSR h _)

lemma getInCSR_frame (hr : g.getInCSR T h inplace = some r) :
    Frame (fun p => inplace = true ∧ p = g.inCsr) (fun _ => False) h r.2 :=
  (getInCSR_got hr).csr_frame

lemma getOutCSR_frame (hr : g.getOutCSR T h inplace = some r) :
    Frame (fun p => inplace = true ∧ p = g.outCsr) (fun _ => False) h r.2 :=
  (getOutCSR_got hr).csr_frame

lemma getCOO_frame (hr : g.getCOO h inplace = some r) :
    Frame (fun _ => False) (fun p => inplace = true ∧ p = g.coo) h r.2 := by
  rcases getCOO_got hr with ⟨-, rfl⟩ | ⟨hnone, m, -, ⟨hin, -, rfl⟩ | ⟨-, rfl⟩⟩
  · exact Frame.refl _ _ h
  · refine ⟨le_rfl, by simp [Heap.setCOO], fun _ _ _ => rfl, fun q _ hD => ?_⟩
    have hne : g.coo ≠ q := by
      rintro rfl
      simp [hD ⟨hin, rfl⟩] at hnone
    exact cell_set_ne hne _
  · exact Frame.of_kept (kept_newCOO h _)

/-- `get(false)` returns the object of the graph if it is filled, else a new one. -/
lemma Got.csr_copy {newadj : Option CSRMatrix} (hr : GotCSR h a false p newadj r) :
    Kept h r.2 ∧ (r.1 < h.csrs.length → (h.csr r.1).isSome = true) := by
  refine ⟨hr.csr_frame.mono (fun _ hC => absurd hC.1 Bool.false_ne_true) fun _ => id, ?_⟩
  rcases hr with ⟨hsome, rfl⟩ | ⟨-, m, -, ⟨hin, -⟩ | ⟨-, rfl⟩⟩
  · exact fun _ => hsome
  · cases hin
  · exact fun hlt => absurd hlt (lt_irrefl _)

lemma getCOO_copy (hr : g.getCOO h false = some r) :
    Kept h r.2 ∧ (r.1 < h.coos.length → (h.coo r.1).isSome = true) := by
  refine ⟨(getCOO_frame hr).mono (fun _ => id) fun _ hD => absurd hD.1 Bool.false_ne_true, ?_⟩
  rcases getCOO_got hr with ⟨hsome, rfl⟩ | ⟨-, m, -, ⟨hin, -⟩ | ⟨-, rfl⟩⟩
  · exact fun _ => hsome
  · cases hin
  · exact fun hlt => absurd hlt (lt_irrefl _)

/-- `wanted ? get : nullptr` -/
lemma orNull_copy {wanted : Bool} {get : Option (ℕ × Heap)} {P : ℕ → Prop} {r : Option ℕ × Heap}
    (hget : ∀ x, get = some x → Kept h x.2 ∧ P x.1)
    (hr : UnitGraph.orNull h wanted get = some r) : Kept h r.2 ∧ ∀ p, r.1 = some p → P p := by
  cases wanted with
  | true =>
      obtain ⟨x, hx, rfl⟩ := Option.map_eq_some_iff.1 hr
      obtain ⟨hk, hp⟩ := hget x hx
      exact ⟨hk, fun p hp' => Option.some.inj hp' ▸ hp⟩
  | false =>
      obtain rfl := Option.some.inj hr
      exact ⟨Frame.refl _ _ h, of_null⟩

lemma getGraphInFormat_separate {r : UnitGraph × Heap}
    (hr : g.getGraphInFormat T h formats = some r) : Separate h r := by
  rw [UnitGraph.getGraphInFormat] at hr
  simp only at hr
  split at hr
  · obtain ⟨r₁, hr₁, hr⟩ := Option.bind_eq_some_iff.1 hr
    obtain ⟨r₂, hr₂, hr⟩ := Option.bind_eq_some_iff.1 hr
    obtain ⟨r₃, hr₃, hr⟩ := Option.bind_eq_some_iff.1 hr
    obtain ⟨hk₁, hp₁⟩ := orNull_copy
      (P := fun q => q < h.coos.length → (h.coo q).isSome = true) (fun _ hx => getCOO_copy hx) hr₁
    obtain ⟨hk₂, hp₂⟩ := orNull_copy
      (P := fun q => q < r₁.2.csrs.length → (r₁.2.csr q).isSome = true)
      (fun _ hx => (getInCSR_got hx).csr_copy) hr₂
    obtain ⟨hk₃, hp₃⟩ := orNull_copy
      (P := fun q => q < r₂.2.csrs.length → (r₂.2.csr q).isSome = true)
      (fun _ hx => (getOutCSR_got hx).csr_copy) hr₃
    have hk := hk₁.trans hk₂
    apply Separate.of_new (hk.trans hk₃) hr
    · intro p hp hlt
      have hsome := hp₂ p hp (hlt.trans_le hk₁.csrs_le)
      rwa [hk₁.csr_eq hlt] at hsome
    · intro p hp hlt
      have hsome := hp₃ p hp (hlt.trans_le hk.csrs_le)
      rwa [hk.csr_eq hlt] at hsome
    · intro p hp hlt
      exact hp₁ p hp hlt
  · split at hr
    · obtain ⟨r₁, hr₁, hr⟩ := Option.bind_eq_some_iff.1 hr
      obtain ⟨m, -, hr⟩ := Option.bind_eq_some_iff.1 hr
      exact (createFromCOO_separate hr).of_kept (getCOO_copy hr₁).1
    · split at hr
      · obtain ⟨r₁, hr₁, hr⟩ := Option.bind_eq_some_iff.1 hr
        obtain ⟨m, -, hr⟩ := Option.bind_eq_some_iff.1 hr
        exact (createFromCSR_separate hr).of_kept ((getOutCSR_got hr₁).csr_copy).1
      · obtain ⟨r₁, hr₁, hr⟩ := Option.bind_eq_some_iff.1 hr
        obtain ⟨m, -, hr⟩ := Option.bind_eq_some_iff.1 hr
        exact (createFromCSC_separate hr).of_kept ((getInCSR_got hr₁).csr_copy).1

/-- `Reverse` of a graph with both CSR formats shares filled objects only. -/
lemma reverse_separate (hin : (h.csr g.inCsr).isSome = true) (hout : (h.csr g.outCsr).isSome = true)
    {r : UnitGraph × Heap} (hr : g.reverse h = some r) : Separate h r := by
  have hin' : ∀ p, some g.inCsr = some p → p < h.csrs.length → (h.csr p).isSome = true :=
    fun p hp _ => Option.some.inj hp ▸ hin
  have hout' : ∀ p, some g.outCsr = some p → p < h.csrs.length → (h.csr p).isSome = true :=
    fun p hp _ => Option.some.inj hp ▸ hout
  rw [UnitGraph.reverse] at hr
  split at hr
  · apply Separate.of_new (kept_newCOO h _) hr hout' hin'
    intro p hp hlt
    obtain rfl := Option.some.inj hp
    exact absurd hlt (lt_irrefl _)
  · exact Separate.of_new (Frame.refl _ _ h) hr hout' hin' of_null

/-! ## Runs -/

namespace World

/-- The graph that a call is made on. -/
def target : Op → Option ℕ
  | .getInCSR i _ => some i
  | .getOutCSR i _ => some i
  | .getCOO i _ => some i
  | .getFormat i _ => some i
  | .getGraphInFormat i _ => some i
  | .reverse i => some i
  | _ => none

/-- What a call does to the objects and the graphs. -/
structure Effect (w : World) (op : Op) (w' : World) : Prop where
  frame : Frame (fun p => ∃ i g, target op = some i ∧ w.graphs[i]? = some g ∧ p ∈ g.csrPtrs)
    (fun p => ∃ i g, target op = some i ∧ w.graphs[i]? = some g ∧ p = g.coo) w.heap w'.heap
  graphs : w'.graphs = w.graphs ∨ ∃ g, Separate w.heap (g, w'.heap) ∧ w'.graphs = w.graphs ++ [g]

variable {w w' : World} {op : Op}

lemma Effect.of_push {r : UnitGraph × Heap} (hs : Separate w.heap r) :
    Effect w op (w.push r) := ⟨Frame.of_kept hs.kept, Or.inr ⟨r.1, hs, rfl⟩⟩

variable {g : UnitGraph} {i : ℕ}

lemma Effect.of_get {heap : Heap} {C D : ℕ → Prop} (htarget : target op = some i)
    (hi : w.graphs[i]? = some g) (hf : Frame C D w.heap heap) (hC : ∀ p, C p → p ∈ g.csrPtrs)
    (hD : ∀ p, D p → p = g.coo) : Effect w op { w with heap := heap } :=
  ⟨hf.mono (fun p hp => ⟨i, g, htarget, hi, hC p hp⟩) fun p hp => ⟨i, g, htarget, hi, hD p hp⟩,
    Or.inl rfl⟩

lemma effect_inCSR (htarget : target op = some i) (hi : w.graphs[i]? = some g)
    (hr : g.getInCSR T w.heap inplace = some r) : Effect w op { w with heap := r.2 } :=
  Effect.of_get htarget hi (getInCSR_frame hr)
    (fun _ hp => hp.2 ▸ List.mem_cons_self) fun _ => False.elim

lemma effect_outCSR (htarget : target op = some i) (hi : w.graphs[i]? = some g)
    (hr : g.getOutCSR T w.heap inplace = some r) : Effect w op { w with heap := r.2 } :=
  Effect.of_get htarget hi (getOutCSR_frame hr)
    (fun _ hp => hp.2 ▸ List.mem_cons_of_mem _ List.mem_cons_self) fun _ => False.elim

lemma effect_COO (htarget : target op = some i) (hi : w.graphs[i]? = some g)
    (hr : g.getCOO w.heap inplace = some r) : Effect w op { w with heap := r.2 } :=
  Effect.of_get htarget hi (getCOO_frame hr) (fun _ => False.elim) fun _ hp => hp.2

/-- **One call** touches the graph that it is made on and adds at most one graph. -/
theorem step_effect (w : World) (hshare : w.SharesCreated op) : Effect w op (w.step T op) := by
  rw [World.step]
  cases hex : w.exec T op with
  | none => exact ⟨Frame.refl _ _ _, Or.inl rfl⟩
  | some w' =>
    show Effect w op w'
    cases op with
    | createFromCOO n mat formats =>
        obtain ⟨r, hr, rfl⟩ := Option.map_eq_some_iff.1 hex
        exact Effect.of_push (createFromCOO_separate hr)
    | createFromCSR n mat formats =>
        obtain ⟨r, hr, rfl⟩ := Option.map_eq_some_iff.1 hex
        exact Effect.of_push (createFromCSR_separate hr)
    | createFromCSC n mat formats =>
        obtain ⟨r, hr, rfl⟩ := Option.map_eq_some_iff.1 hex
        exact Effect.of_push (createFromCSC_separate hr)
    | getInCSR i inplace =>
        obtain ⟨g, hi, hex⟩ := Option.bind_eq_some_iff.1 hex
        obtain ⟨r, hr, rfl⟩ := Option.map_eq_some_iff.1 hex
        exact effect_inCSR rfl hi hr
    | getOutCSR i inplace =>
        obtain ⟨g, hi, hex⟩ := Option.bind_eq_some_iff.1 hex
        obtain ⟨r, hr, rfl⟩ := Option.map_eq_some_iff.1 hex
        exact effect_outCSR rfl hi hr
    | getCOO i inplace =>
        obtain ⟨g, hi, hex⟩ := Option.bind_eq_some_iff.1 hex
        obtain ⟨r, hr, rfl⟩ := Option.map_eq_some_iff.1 hex
        exact effect_COO rfl hi hr
    | getFormat i format =>
        obtain ⟨g, hi, hex⟩ := Option.bind_eq_some_iff.1 hex
        obtain ⟨heap, hheap, rfl⟩ := Option.map_eq_some_iff.1 hex
        cases format with
        | csr =>
            obtain ⟨r, hr, rfl⟩ := Option.map_eq_some_iff.1 hheap
            exact effect_outCSR rfl hi hr
        | csc =>
            obtain ⟨r, hr, rfl⟩ := Option.map_eq_some_iff.1 hheap
            exact effect_inCSR rfl hi hr
        | coo =>
            obtain ⟨r, hr, rfl⟩ := Option.map_eq_some_iff.1 hheap
            exact effect_COO rfl hi hr
    | getGraphInFormat i formats =>
        obtain ⟨g, hi, hex⟩ := Option.bind_eq_some_iff.1 hex
        obtain ⟨r, hr, rfl⟩ := Option.map_eq_some_iff.1 hex
        exact Effect.of_push (getGraphInFormat_separate hr)
    | reverse i =>
        obtain ⟨g, hi, hex⟩ := Option.bind_eq_some_iff.1 hex
        obtain ⟨r, hr, rfl⟩ := Option.map_eq_some_iff.1 hex
        obtain ⟨hin, hout⟩ := hshare g hi
        exact Effect.of_push (reverse_separate hin hout hr)

/-- Different graphs share filled objects only. -/
def Apart (w : World) : Prop :=
  ∀ (i j : ℕ) (g g' : UnitGraph), w.graphs[i]? = some g → w.graphs[j]? = some g' → i ≠ j →
    (∀ p ∈ g.csrPtrs, p ∈ g'.csrPtrs → (w.heap.csr p).isSome = true) ∧
      (g.coo = g'.coo → (w.heap.coo g.coo).isSome = true)

lemma Inv.csr_lt (hw : w.Inv) (hg : g ∈ w.graphs) {p : ℕ} (hp : p ∈ g.csrPtrs) :
    p < w.heap.csrs.length := by
  obtain ⟨γ, -, hgs⟩ := hw
  obtain ⟨E, hd⟩ := hgs g hg
  simp only [UnitGraph.csrPtrs, List.mem_cons, List.not_mem_nil, or_false] at hp
  rcases hp with rfl | rfl
  · exact hd.inCsr.lt
  · exact hd.outCsr.lt

lemma Inv.coo_lt (hw : w.Inv) (hg : g ∈ w.graphs) : g.coo < w.heap.coos.length := by
  obtain ⟨γ, -, hgs⟩ := hw
  obtain ⟨E, hd⟩ := hgs g hg
  exact hd.coo.lt

/-- The objects of the other graphs stay as they are. -/
lemma Effect.kept (he : Effect w op w') (hw : w.Inv) (ha : w.Apart) {j : ℕ}
    (hj : w.graphs[j]? = some g) (hne : target op ≠ some j) :
    (∀ p ∈ g.csrPtrs, w'.heap.csr p = w.heap.csr p) ∧ w'.heap.coo g.coo = w.heap.coo g.coo := by
  have hg := List.mem_of_getElem? hj
  constructor
  · intro p hp
    apply he.frame.csr p (hw.csr_lt hg hp)
    rintro ⟨i, g', htarget, hi, hp'⟩
    have hij : i ≠ j := fun heq => hne (heq ▸ htarget)
    exact (ha i j g' g hi hj hij).1 p hp' hp
  · apply he.frame.coo _ (hw.coo_lt hg)
    rintro ⟨i, g', htarget, hi, hp'⟩
    have hij : i ≠ j := fun heq => hne (heq ▸ htarget)
    rw [hp']
    exact (ha i j g' g hi hj hij).2 hp'.symm

/-- **One call** leaves the graphs apart. -/
theorem Effect.apart (he : Effect w op w') (hw : w.Inv) (ha : w.Apart) : w'.Apart := by
  -- A filled object stays filled, whoever holds it.
  have hcsr {p : ℕ} (hp : p < w.heap.csrs.length) (hsome : (w.heap.csr p).isSome = true) :
      (w'.heap.csr p).isSome = true := by
    rwa [he.frame.csr p hp fun _ => hsome]
  have hcoo {p : ℕ} (hp : p < w.heap.coos.length) (hsome : (w.heap.coo p).isSome = true) :
      (w'.heap.coo p).isSome = true := by
    rwa [he.frame.coo p hp fun _ => hsome]
  have hold {i j : ℕ} {g g' : UnitGraph} (hi : w.graphs[i]? = some g) (hj : w.graphs[j]? = some g')
      (hij : i ≠ j) : (∀ p ∈ g.csrPtrs, p ∈ g'.csrPtrs → (w'.heap.csr p).isSome = true) ∧
        (g.coo = g'.coo → (w'.heap.coo g.coo).isSome = true) := by
    obtain ⟨h1, h2⟩ := ha i j g g' hi hj hij
    have hg := List.mem_of_getElem? hi
    exact ⟨fun p hp hp' => hcsr (hw.csr_lt hg hp) (h1 p hp hp'),
      fun heq => hcoo (hw.coo_lt hg) (h2 heq)⟩
  rcases he.graphs with hgraphs | ⟨r, hsep, hgraphs⟩
  · intro i j g g' hi hj hij
    rw [hgraphs] at hi hj
    exact hold hi hj hij
  · have hnew {i : ℕ} {g : UnitGraph} (hi : w.graphs[i]? = some g) :
        (∀ p ∈ g.csrPtrs, p ∈ r.csrPtrs → (w'.heap.csr p).isSome = true) ∧
          (g.coo = r.coo → (w'.heap.coo g.coo).isSome = true) := by
      have hg := List.mem_of_getElem? hi
      refine ⟨fun p hp hp' => ?_, fun heq => ?_⟩
      · exact hcsr (hw.csr_lt hg hp) (hsep.csr p hp' (hw.csr_lt hg hp))
      · have hlt := hw.coo_lt hg
        refine hcoo hlt ?_
        rw [heq] at hlt ⊢
        exact hsep.coo hlt
    intro i j g g' hi hj hij
    rw [hgraphs, List.getElem?_append] at hi hj
    split at hi
    · split at hj
      · exact hold hi hj hij
      · obtain rfl : r = g' := by
          obtain ⟨_, heq⟩ := List.getElem?_eq_some_iff.1 hj
          simpa using heq
        exact hnew hi
    · obtain rfl : r = g := by
        obtain ⟨_, heq⟩ := List.getElem?_eq_some_iff.1 hi
        simpa using heq
      split at hj
      · obtain ⟨h1, h2⟩ := hnew hj
        refine ⟨fun p hp hp' => h1 p hp' hp, fun heq => ?_⟩
        rw [heq]
        exact h2 heq.symm
      · -- Both would be the new graph.
        obtain ⟨hi, -⟩ := List.getElem?_eq_some_iff.1 hi
        obtain ⟨hj, -⟩ := List.getElem?_eq_some_iff.1 hj
        rw [List.length_singleton] at hi hj
        omega

end World

end DglAscend.Hetero
