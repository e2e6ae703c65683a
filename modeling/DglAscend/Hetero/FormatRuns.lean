import DglAscend.Hetero.Sharing

/-!
# Runs keep the formats coherent

In every run the matrices of a graph have the same edges and ids.  `Reverse` hands the placeholders
of the missing CSR formats to a graph that may fill them, so the formats of a graph stay within the
allowed ones if every placeholder that is handed on belongs to an allowed format, and no call on
another graph adds one if none is handed on at all.
-/

namespace DglAscend.Hetero

open Aten

variable {γ γ' : Ghost} {h h' : Heap} {E : Multiset Entry} {T : ℕ+} {g : UnitGraph}

/-! ## Derived graphs -/

section Derived

variable (hc : Cells γ h) (hg : Describes γ h g E)
include hc hg

variable {r : Option ℕ × Heap}

omit hg in
lemma share_spec {b : Bool} {get : Option (ℕ × Heap)} {P : Ghost → Heap → ℕ → Prop}
    (hget : ∀ x, get = some x → Grows γ h x.2 fun γ' => P γ' x.2 x.1)
    (hr : UnitGraph.orNull h b get = some r) :
    Grows γ h r.2 fun γ' => (∀ p, r.1 = some p → P γ' r.2 p) ∧ (b = true → ∃ p, r.1 = some p) := by
  cases b with
  | true =>
      obtain ⟨x, hx, rfl⟩ := Option.map_eq_some_iff.1 hr
      obtain ⟨γ', hc', hext, hP⟩ := hget x hx
      exact ⟨γ', hc', hext, fun p hp => Option.some.inj hp ▸ hP, fun _ => ⟨_, rfl⟩⟩
  | false =>
      obtain rfl := Option.some.inj hr
      exact ⟨γ, hc, Extends.refl γ h, of_null, nofun⟩

lemma getGraphInFormat_spec {formats : Formats} {r : UnitGraph × Heap}
    (hr : g.getGraphInFormat T h formats = some r) :
    Grows γ h r.2 fun γ' => ∃ E, Describes γ' r.2 r.1 E := by
  rw [UnitGraph.getGraphInFormat] at hr
  simp only at hr
  split at hr
  · rename_i hint
    obtain ⟨r₁, hr₁, hr⟩ := Option.bind_eq_some_iff.1 hr
    obtain ⟨r₂, hr₂, hr⟩ := Option.bind_eq_some_iff.1 hr
    obtain ⟨r₃, hr₃, hr⟩ := Option.bind_eq_some_iff.1 hr
    obtain ⟨γ₁, hc₁, hext₁, hat₁, hsome₁⟩ := share_spec hc (P := fun γ' h' p =>
      At γ'.coo h'.coos p E _ ∧ (h'.coo p).isSome = true) (fun _ hx => getCOO_spec hc hg hx) hr₁
    have hg₁ := hg.extend hext₁
    obtain ⟨γ₂, hc₂, hext₂, hat₂, hsome₂⟩ := share_spec hc₁ (P := fun γ' h' p =>
      At γ'.csr h'.csrs p (reversed E) _ ∧ (h'.csr p).isSome = true)
      (fun _ hx => getInCSR_spec hc₁ hg₁ hx) hr₂
    have hg₂ := hg₁.extend hext₂
    obtain ⟨γ₃, hc₃, hext₃, hat₃, hsome₃⟩ := share_spec hc₂ (P := fun γ' h' p =>
      At γ'.csr h'.csrs p E _ ∧ (h'.csr p).isSome = true)
      (fun _ hx => getOutCSR_spec hc₂ hg₂ hx) hr₃
    have hparts : Parts γ₃ r₃.2 r₂.1 r₃.1 r₁.1 formats E := by
      refine ⟨fun p hp => ((hat₂ p hp).1.extend hext₃.csr).of_value
          (hext₃.csr.isSome (hat₂ p hp).1.lt (hat₂ p hp).2) _,
        fun p hp => (hat₃ p hp).1.of_value (hat₃ p hp).2 _,
        fun p hp => ((hat₁ p hp).1.of_value (hat₁ p hp).2 _).extend (hext₂.trans hext₃).coo,
        hg.numbered, ?_⟩
      simp only [Formats.nonzero, Bool.or_eq_true] at hint
      rcases hint with (hint | hint) | hint
      · obtain ⟨p, hp⟩ := hsome₁ hint
        exact Or.inr (Or.inr ⟨p, hp, (hext₂.trans hext₃).coo.isSome (hat₁ p hp).1.lt (hat₁ p hp).2⟩)
      · obtain ⟨p, hp⟩ := hsome₃ hint
        exact Or.inr (Or.inl ⟨p, hp, (hat₃ p hp).2⟩)
      · obtain ⟨p, hp⟩ := hsome₂ hint
        exact Or.inl ⟨p, hp, hext₃.csr.isSome (hat₂ p hp).1.lt (hat₂ p hp).2⟩
    obtain ⟨γ₄, hc₄, hext₄, hd⟩ := new_spec hc₃ hparts hr
    exact ⟨γ₄, hc₄, ((hext₁.trans hext₂).trans hext₃).trans hext₄, E, hd⟩
  · split at hr
    · obtain ⟨r₁, hr₁, hr⟩ := Option.bind_eq_some_iff.1 hr
      obtain ⟨m, hm, hr⟩ := Option.bind_eq_some_iff.1 hr
      obtain ⟨γ₁, hc₁, hext₁, -, -⟩ := getCOO_spec hc hg hr₁
      obtain ⟨γ₂, hc₂, hext₂, hd⟩ := createFromCOO_spec hc₁ (hc₁.coo _ _ hm).valid hr
      exact ⟨γ₂, hc₂, hext₁.trans hext₂, hd⟩
    · split at hr
      · obtain ⟨r₁, hr₁, hr⟩ := Option.bind_eq_some_iff.1 hr
        obtain ⟨m, hm, hr⟩ := Option.bind_eq_some_iff.1 hr
        obtain ⟨γ₁, hc₁, hext₁, -, -⟩ := getOutCSR_spec hc hg hr₁
        obtain ⟨γ₂, hc₂, hext₂, hd⟩ := createFromCSR_spec hc₁ (hc₁.csr _ _ hm).valid hr
        exact ⟨γ₂, hc₂, hext₁.trans hext₂, hd⟩
      · obtain ⟨r₁, hr₁, hr⟩ := Option.bind_eq_some_iff.1 hr
        obtain ⟨m, hm, hr⟩ := Option.bind_eq_some_iff.1 hr
        obtain ⟨γ₁, hc₁, hext₁, -, -⟩ := getInCSR_spec hc hg hr₁
        obtain ⟨γ₂, hc₂, hext₂, hd⟩ := createFromCSC_spec hc₁ (hc₁.csr _ _ hm).valid hr
        exact ⟨γ₂, hc₂, hext₁.trans hext₂, hd⟩

/-- A CSR object of an allowed or created format may go to a graph that allows everything. -/
lemma reverse_spec (hin : (h.csr g.inCsr).isSome = true ∨ g.formats.csc = true)
    (hout : (h.csr g.outCsr).isSome = true ∨ g.formats.csr = true) {r : UnitGraph × Heap}
    (hr : g.reverse h = some r) :
    Grows γ h r.2 fun γ' => ∃ E, Describes γ' r.2 r.1 E := by
  have hatIn : At γ.csr h.csrs g.inCsr (reversed E) true := by
    rcases hin with hin | hin
    · exact hg.inCsr.of_value hin true
    · rw [← hin]
      exact hg.inCsr
  have hatOut : At γ.csr h.csrs g.outCsr (reversed (reversed E)) true := by
    rw [reversed_reversed]
    rcases hout with hout | hout
    · exact hg.outCsr.of_value hout true
    · rw [← hout]
      exact hg.outCsr
  have hcreated := hg.created
  simp only [UnitGraph.stored, Stored.createdFormats, Formats.nonzero, Bool.or_eq_true] at hcreated
  rw [UnitGraph.reverse] at hr
  split at hr
  · rename_i coo hcoo
    have hof := ((hg.has hc).coo _ hcoo).transpose
    obtain ⟨γ₁, hc₁, hext₁, hat, hsome⟩ := newCOO_some hc hof true
    have hparts : Parts γ₁ (h.newCOO (some coo.transpose)).2 (some g.outCsr) (some g.inCsr)
        (some (h.newCOO (some coo.transpose)).1) .all (reversed E) := by
      refine ⟨fun p hp => ?_, fun p hp => ?_, fun p hp => ?_, hg.numbered.reversed,
        Or.inr (Or.inr ⟨_, rfl, hsome⟩)⟩
      · obtain rfl := Option.some.inj hp
        exact hatOut.extend hext₁.csr
      · obtain rfl := Option.some.inj hp
        exact hatIn.extend hext₁.csr
      · obtain rfl := Option.some.inj hp
        exact hat
    obtain ⟨γ₂, hc₂, hext₂, hd⟩ := new_spec hc₁ hparts hr
    exact ⟨γ₂, hc₂, hext₁.trans hext₂, _, hd⟩
  · rename_i hcoo
    have hparts : Parts γ h (some g.outCsr) (some g.inCsr) none .all (reversed E) := by
      refine ⟨fun p hp => ?_, fun p hp => ?_, of_null, hg.numbered.reversed, ?_⟩
      · obtain rfl := Option.some.inj hp
        exact hatOut
      · obtain rfl := Option.some.inj hp
        exact hatIn
      · rw [hcoo] at hcreated
        rcases hcreated with (hcreated | hcreated) | hcreated
        · cases hcreated
        · exact Or.inl ⟨_, rfl, hcreated⟩
        · exact Or.inr (Or.inl ⟨_, rfl, hcreated⟩)
    obtain ⟨γ₂, hc₂, hext₂, hd⟩ := new_spec hc hparts hr
    exact ⟨γ₂, hc₂, hext₂, _, hd⟩

end Derived

/-! ## Runs -/

namespace World

/-- A call hands on only objects that are filled or that their format allows to fill. -/
def SharesAllowed (w : World) : Op → Prop
  | .reverse i => ∀ g, w.graphs[i]? = some g →
      ((w.heap.csr g.inCsr).isSome = true ∨ g.formats.csc = true) ∧
        ((w.heap.csr g.outCsr).isSome = true ∨ g.formats.csr = true)
  | _ => True

/-- A call hands on only objects that are filled. -/
def SharesCreated (w : World) : Op → Prop
  | .reverse i => ∀ g, w.graphs[i]? = some g →
      (w.heap.csr g.inCsr).isSome = true ∧ (w.heap.csr g.outCsr).isSome = true
  | _ => True

/-- The states of the runs all of whose calls meet a condition. -/
inductive Reachable (T : ℕ+) (P : World → Op → Prop) : World → Prop
  | empty : Reachable T P empty
  | step {w : World} {op : Op} : Reachable T P w → op.Valid → P w op → Reachable T P (w.step T op)

/-- The objects and what is recorded of them. -/
def Inv (w : World) : Prop :=
  ∃ γ, Cells γ w.heap ∧ ∀ g ∈ w.graphs, ∃ E, Describes γ w.heap g E

lemma inv_empty : empty.Inv :=
  ⟨⟨⟨fun _ => 0, fun _ => true⟩, ⟨fun _ => 0, fun _ => true⟩⟩,
    ⟨fun p _ hm => absurd (lt_of_cell hm) (Nat.not_lt_zero p),
      fun p _ hm => absurd (lt_of_cell hm) (Nat.not_lt_zero p)⟩, nofun⟩

lemma Inv.of_grows {w : World} {P : Ghost → Prop} {heap : Heap}
    (hw : ∀ g ∈ w.graphs, ∃ E, Describes γ w.heap g E) (hgrow : Grows γ w.heap heap P) :
    Inv { w with heap := heap } := by
  obtain ⟨γ', hc', hext, -⟩ := hgrow
  refine ⟨γ', hc', fun g hg => ?_⟩
  obtain ⟨E, hd⟩ := hw g hg
  exact ⟨E, hd.extend hext⟩

lemma Inv.push {w : World} {r : UnitGraph × Heap}
    (hw : ∀ g ∈ w.graphs, ∃ E, Describes γ w.heap g E)
    (hgrow : Grows γ w.heap r.2 fun γ' => ∃ E, Describes γ' r.2 r.1 E) : (w.push r).Inv := by
  obtain ⟨γ', hc', hext, hnew⟩ := hgrow
  refine ⟨γ', hc', fun g hg => ?_⟩
  rcases List.mem_append.1 hg with hg | hg
  · obtain ⟨E, hd⟩ := hw g hg
    exact ⟨E, hd.extend hext⟩
  · obtain rfl := List.mem_singleton.1 hg
    exact hnew

/-- **One call** keeps what is recorded. -/
theorem Inv.step {w : World} (hw : w.Inv) {op : Op} (hop : op.Valid) (hshare : w.SharesAllowed op) :
    (w.step T op).Inv := by
  rw [World.step]
  cases hex : w.exec T op with
  | none => exact hw
  | some w' =>
    obtain ⟨γ, hc, hgs⟩ := hw
    show w'.Inv
    cases op with
    | createFromCOO n mat formats =>
        obtain ⟨r, hr, rfl⟩ := Option.map_eq_some_iff.1 hex
        exact Inv.push hgs (createFromCOO_spec hc hop hr)
    | createFromCSR n mat formats =>
        obtain ⟨r, hr, rfl⟩ := Option.map_eq_some_iff.1 hex
        exact Inv.push hgs (createFromCSR_spec hc hop hr)
    | createFromCSC n mat formats =>
        obtain ⟨r, hr, rfl⟩ := Option.map_eq_some_iff.1 hex
        exact Inv.push hgs (createFromCSC_spec hc hop hr)
    | getInCSR i inplace =>
        obtain ⟨g, hi, hex⟩ := Option.bind_eq_some_iff.1 hex
        obtain ⟨r, hr, rfl⟩ := Option.map_eq_some_iff.1 hex
        obtain ⟨E, hg⟩ := hgs g (List.mem_of_getElem? hi)
        exact Inv.of_grows hgs (getInCSR_spec hc hg hr)
    | getOutCSR i inplace =>
        obtain ⟨g, hi, hex⟩ := Option.bind_eq_some_iff.1 hex
        obtain ⟨r, hr, rfl⟩ := Option.map_eq_some_iff.1 hex
        obtain ⟨E, hg⟩ := hgs g (List.mem_of_getElem? hi)
        exact Inv.of_grows hgs (getOutCSR_spec hc hg hr)
    | getCOO i inplace =>
        obtain ⟨g, hi, hex⟩ := Option.bind_eq_some_iff.1 hex
        obtain ⟨r, hr, rfl⟩ := Option.map_eq_some_iff.1 hex
        obtain ⟨E, hg⟩ := hgs g (List.mem_of_getElem? hi)
        exact Inv.of_grows hgs (getCOO_spec hc hg hr)
    | getFormat i format =>
        obtain ⟨g, hi, hex⟩ := Option.bind_eq_some_iff.1 hex
        obtain ⟨heap, hheap, rfl⟩ := Option.map_eq_some_iff.1 hex
        obtain ⟨E, hg⟩ := hgs g (List.mem_of_getElem? hi)
        cases format with
        | csr =>
            obtain ⟨r, hr, rfl⟩ := Option.map_eq_some_iff.1 hheap
            exact Inv.of_grows hgs (getOutCSR_spec hc hg hr)
        | csc =>
            obtain ⟨r, hr, rfl⟩ := Option.map_eq_some_iff.1 hheap
            exact Inv.of_grows hgs (getInCSR_spec hc hg hr)
        | coo =>
            obtain ⟨r, hr, rfl⟩ := Option.map_eq_some_iff.1 hheap
            exact Inv.of_grows hgs (getCOO_spec hc hg hr)
    | getGraphInFormat i formats =>
        obtain ⟨g, hi, hex⟩ := Option.bind_eq_some_iff.1 hex
        obtain ⟨r, hr, rfl⟩ := Option.map_eq_some_iff.1 hex
        obtain ⟨E, hg⟩ := hgs g (List.mem_of_getElem? hi)
        exact Inv.push hgs (getGraphInFormat_spec hc hg hr)
    | reverse i =>
        obtain ⟨g, hi, hex⟩ := Option.bind_eq_some_iff.1 hex
        obtain ⟨r, hr, rfl⟩ := Option.map_eq_some_iff.1 hex
        obtain ⟨E, hg⟩ := hgs g (List.mem_of_getElem? hi)
        obtain ⟨hin, hout⟩ := hshare g hi
        exact Inv.push hgs (reverse_spec hc hg hin hout hr)

/-- **Every run** whose calls hand on allowed objects only. -/
theorem Reachable.inv {w : World} (hw : Reachable T SharesAllowed w) : w.Inv := by
  induction hw with
  | empty => exact inv_empty
  | step _ hop hshare ih => exact ih.step hop hshare

end World

end DglAscend.Hetero
