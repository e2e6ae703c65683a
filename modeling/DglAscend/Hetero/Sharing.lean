import DglAscend.Hetero.UnitGraph

/-!
# What shared objects hold

Every matrix object, placeholders included, is meant for the edges of one relation, and a
placeholder is either one that its holders may fill or one that they may not.  Every call keeps
what is recorded of the graphs (`Describes.extend`), and a graph that it makes is described by
objects that were there or are new (`new_spec`).
-/

namespace DglAscend.Hetero

open Aten

/-- What the objects are for: the edges as an object lists them. -/
structure Ghost where
  csr : Record (Multiset Entry)
  coo : Record (Multiset Entry)

variable {γ γ' γ'' : Ghost} {h h' h'' : Heap} {E : Multiset Entry} {a : Bool} {p : ℕ}

/-- The matrices have the edges that their objects are for. -/
structure Cells (γ : Ghost) (h : Heap) : Prop where
  csr : Sound OfCSR γ.csr h.csrs
  coo : Sound OfCOO γ.coo h.coos

/-- The objects of a graph with the edges `E`. -/
structure Describes (γ : Ghost) (h : Heap) (g : UnitGraph) (E : Multiset Entry) : Prop where
  inCsr : At γ.csr h.csrs g.inCsr (reversed E) g.formats.csc
  outCsr : At γ.csr h.csrs g.outCsr E g.formats.csr
  coo : At γ.coo h.coos g.coo E g.formats.coo
  numbered : Numbered E
  created : (g.stored h).createdFormats.nonzero = true
  within : (g.stored h).createdFormats.within g.formats = true

/-- Objects were added, and placeholders that may be filled were filled. -/
structure Extends (γ : Ghost) (h : Heap) (γ' : Ghost) (h' : Heap) : Prop where
  csr : Grown γ.csr h.csrs γ'.csr h'.csrs
  coo : Grown γ.coo h.coos γ'.coo h'.coos

lemma Extends.refl (γ : Ghost) (h : Heap) : Extends γ h γ h := ⟨Grown.refl _ _, Grown.refl _ _⟩

lemma Extends.trans (h₁ : Extends γ h γ' h') (h₂ : Extends γ' h' γ'' h'') : Extends γ h γ'' h'' :=
  ⟨h₁.csr.trans h₂.csr, h₁.coo.trans h₂.coo⟩

namespace Describes

variable {g : UnitGraph} (hg : Describes γ h g E)
include hg

/-- **What is recorded of a graph stays true.** -/
theorem extend (hext : Extends γ h γ' h') : Describes γ' h' g E where
  inCsr := hg.inCsr.extend hext.csr
  outCsr := hg.outCsr.extend hext.csr
  coo := hg.coo.extend hext.coo
  numbered := hg.numbered
  created := by
    have hcreated := hg.created
    simp only [UnitGraph.stored, Stored.createdFormats, Formats.nonzero, Bool.or_eq_true] at hcreated ⊢
    rcases hcreated with (hc | hc) | hc
    · exact Or.inl (Or.inl (hext.coo.isSome hg.coo.lt hc))
    · exact Or.inl (Or.inr (hext.csr.isSome hg.outCsr.lt hc))
    · exact Or.inr (hext.csr.isSome hg.inCsr.lt hc)
  within := by
    have hwithin := Formats.within_iff.1 hg.within
    apply Formats.within_iff.2
    intro f hf
    cases f with
    | coo => exact (hg.coo.value_before hext.coo hf).elim (hwithin .coo) id
    | csr => exact (hg.outCsr.value_before hext.csr hf).elim (hwithin .csr) id
    | csc => exact (hg.inCsr.value_before hext.csr hf).elim (hwithin .csc) id

/-- The matrices of the graph have its edges. -/
lemma has (hc : Cells γ h) : (g.stored h).Has E where
  inCsr _ hm := by
    have hof := hc.csr _ _ hm
    rwa [hg.inCsr.meant] at hof
  outCsr _ hm := by
    have hof := hc.csr _ _ hm
    rwa [hg.outCsr.meant] at hof
  coo _ hm := by
    have hof := hc.coo _ _ hm
    rwa [hg.coo.meant] at hof

end Describes

/-! ## Objects -/

/-- The heap after a change, with what is recorded of it and a property of the two. -/
def Grows (γ : Ghost) (h h' : Heap) (P : Ghost → Prop) : Prop :=
  ∃ γ', Cells γ' h' ∧ Extends γ h γ' h' ∧ P γ'

lemma newCSR_grows (hc : Cells γ h) {m : Option CSRMatrix} (hm : ∀ x, m = some x → OfCSR E x)
    (a : Bool) : Grows γ h (h.newCSR m).2 fun γ' =>
      At γ'.csr (h.newCSR m).2.csrs (h.newCSR m).1 E a :=
  ⟨⟨γ.csr.add h.csrs.length E a, γ.coo⟩, ⟨hc.csr.append hm a, hc.coo⟩,
    ⟨Grown.append _ _ _ _ _, Grown.refl _ _⟩, At.append _ _ _ _ _⟩

lemma newCOO_grows (hc : Cells γ h) {m : Option COOMatrix} (hm : ∀ x, m = some x → OfCOO E x)
    (a : Bool) : Grows γ h (h.newCOO m).2 fun γ' =>
      At γ'.coo (h.newCOO m).2.coos (h.newCOO m).1 E a :=
  ⟨⟨γ.csr, γ.coo.add h.coos.length E a⟩, ⟨hc.csr, hc.coo.append hm a⟩,
    ⟨Grown.refl _ _, Grown.append _ _ _ _ _⟩, At.append _ _ _ _ _⟩

lemma setCSR_grows (hc : Cells γ h) (hat : At γ.csr h.csrs p E true) (hnone : h.csr p = none)
    {m : CSRMatrix} (hm : OfCSR E m) : Grows γ h (h.setCSR p m) fun _ => True :=
  ⟨γ, ⟨hc.csr.set hat hm, hc.coo⟩, ⟨Grown.set hat hnone m, Grown.refl _ _⟩, trivial⟩

lemma setCOO_grows (hc : Cells γ h) (hat : At γ.coo h.coos p E true) (hnone : h.coo p = none)
    {m : COOMatrix} (hm : OfCOO E m) : Grows γ h (h.setCOO p m) fun _ => True :=
  ⟨γ, ⟨hc.csr, hc.coo.set hat hm⟩, ⟨Grown.refl _ _, Grown.set hat hnone m⟩, trivial⟩

/-- A reference, or a placeholder for a null one. -/
lemma orPlaceholderCSR_grows (hc : Cells γ h) {ptr : Option ℕ} {E : Multiset Entry} {a : Bool}
    (hptr : ∀ p, ptr = some p → At γ.csr h.csrs p E a) :
    Grows γ h (h.orPlaceholderCSR ptr).2 fun γ' =>
      At γ'.csr (h.orPlaceholderCSR ptr).2.csrs (h.orPlaceholderCSR ptr).1 E a := by
  cases ptr with
  | some p => exact ⟨γ, hc, Extends.refl γ h, hptr p rfl⟩
  | none => exact newCSR_grows (m := none) hc (fun _ hx => nomatch hx) a

/-- A reference, or a placeholder for a null one. -/
lemma orPlaceholderCOO_grows (hc : Cells γ h) {ptr : Option ℕ} {E : Multiset Entry} {a : Bool}
    (hptr : ∀ p, ptr = some p → At γ.coo h.coos p E a) :
    Grows γ h (h.orPlaceholderCOO ptr).2 fun γ' =>
      At γ'.coo (h.orPlaceholderCOO ptr).2.coos (h.orPlaceholderCOO ptr).1 E a := by
  cases ptr with
  | some p => exact ⟨γ, hc, Extends.refl γ h, hptr p rfl⟩
  | none => exact newCOO_grows (m := none) hc (fun _ hx => nomatch hx) a

/-! ## New graphs -/

lemma of_null {P : ℕ → Prop} (p : ℕ) (hp : none = some p) : P p :=
  absurd hp (Option.not_mem_none p)

/-- What a constructor may be given: references to objects of a relation, one of them to a
matrix. -/
structure Parts (γ : Ghost) (h : Heap) (pin pout pcoo : Option ℕ) (formats : Formats)
    (E : Multiset Entry) : Prop where
  inCsr : ∀ p, pin = some p → At γ.csr h.csrs p (reversed E) formats.csc
  outCsr : ∀ p, pout = some p → At γ.csr h.csrs p E formats.csr
  coo : ∀ p, pcoo = some p → At γ.coo h.coos p E formats.coo
  numbered : Numbered E
  some_matrix : (∃ p, pin = some p ∧ (h.csr p).isSome = true) ∨
    (∃ p, pout = some p ∧ (h.csr p).isSome = true) ∨ ∃ p, pcoo = some p ∧ (h.coo p).isSome = true

variable {r : UnitGraph × Heap} {formats : Formats} {n : ℕ}

/-- **The constructor** makes a graph of the relation. -/
theorem new_spec (hc : Cells γ h) {inCsr outCsr coo : Option ℕ}
    (hparts : Parts γ h inCsr outCsr coo formats E)
    (hnew : UnitGraph.new h n inCsr outCsr coo formats = some r) :
    Grows γ h r.2 fun γ' => Describes γ' r.2 r.1 E := by
  obtain ⟨γ₁, hc₁, hext₁, hin⟩ := orPlaceholderCSR_grows hc hparts.inCsr
  obtain ⟨γ₂, hc₂, hext₂, hout⟩ := orPlaceholderCSR_grows hc₁
    fun p hp => (hparts.outCsr p hp).extend hext₁.csr
  obtain ⟨γ₃, hc₃, hext₃, hcoo⟩ := orPlaceholderCOO_grows hc₂
    fun p hp => ((hparts.coo p hp).extend hext₁.coo).extend hext₂.coo
  rw [UnitGraph.new] at hnew
  simp only at hnew
  split at hnew
  · rename_i hwithin
    obtain rfl := Option.some.inj hnew
    have hext := (hext₁.trans hext₂).trans hext₃
    refine ⟨γ₃, hc₃, hext, ?_⟩
    refine ⟨(hin.extend hext₂.csr).extend hext₃.csr, hout.extend hext₃.csr, hcoo,
      hparts.numbered, ?_, hwithin⟩
    simp only [UnitGraph.stored, Stored.createdFormats, Formats.nonzero, Bool.or_eq_true]
    rcases hparts.some_matrix with ⟨p, rfl, hp⟩ | ⟨p, rfl, hp⟩ | ⟨p, rfl, hp⟩
    · exact Or.inr (hext.csr.isSome (hparts.inCsr p rfl).lt hp)
    · have hat := (hparts.outCsr p rfl).extend hext₁.csr
      have hp := hext₁.csr.isSome (hparts.outCsr p rfl).lt hp
      exact Or.inl (Or.inr ((hext₂.trans hext₃).csr.isSome hat.lt hp))
    · have hat := ((hparts.coo p rfl).extend hext₁.coo).extend hext₂.coo
      have hp := (hext₁.trans hext₂).coo.isSome (hparts.coo p rfl).lt hp
      exact Or.inl (Or.inl (hext₃.coo.isSome hat.lt hp))
  · cases hnew

lemma newCSR_some (hc : Cells γ h) {mat : CSRMatrix} (hmat : OfCSR E mat) (a : Bool) :
    Grows γ h (h.newCSR (some mat)).2 fun γ' =>
      At γ'.csr (h.newCSR (some mat)).2.csrs (h.newCSR (some mat)).1 E a ∧
        ((h.newCSR (some mat)).2.csr (h.newCSR (some mat)).1).isSome = true := by
  obtain ⟨γ₁, hc₁, hext₁, hat⟩ := newCSR_grows hc
    (fun x hx => Option.some.inj hx ▸ hmat : ∀ x, some mat = some x → OfCSR E x) a
  refine ⟨γ₁, hc₁, hext₁, hat, ?_⟩
  show (cell (h.csrs ++ [some mat]) h.csrs.length).isSome = true
  rw [cell_append_self]
  rfl

lemma newCOO_some (hc : Cells γ h) {mat : COOMatrix} (hmat : OfCOO E mat) (a : Bool) :
    Grows γ h (h.newCOO (some mat)).2 fun γ' =>
      At γ'.coo (h.newCOO (some mat)).2.coos (h.newCOO (some mat)).1 E a ∧
        ((h.newCOO (some mat)).2.coo (h.newCOO (some mat)).1).isSome = true := by
  obtain ⟨γ₁, hc₁, hext₁, hat⟩ := newCOO_grows hc
    (fun x hx => Option.some.inj hx ▸ hmat : ∀ x, some mat = some x → OfCOO E x) a
  refine ⟨γ₁, hc₁, hext₁, hat, ?_⟩
  show (cell (h.coos ++ [some mat]) h.coos.length).isSome = true
  rw [cell_append_self]
  rfl

lemma createFromCOO_spec (hc : Cells γ h) {mat : COOMatrix} (hmat : mat.Valid)
    (hr : UnitGraph.createFromCOO h n mat formats = some r) :
    Grows γ h r.2 fun γ' => ∃ E, Describes γ' r.2 r.1 E := by
  rw [UnitGraph.createFromCOO] at hr
  split at hr
  · rename_i hok
    have hdata : mat.data = [] := by
      simp only [COOMatrix.hasData, Bool.and_eq_true] at hok
      simpa using hok.2
    have hof : OfCOO (mat.entries : Multiset Entry) mat := ⟨hmat, hdata, rfl⟩
    obtain ⟨γ₁, hc₁, hext₁, hat, hsome⟩ := newCOO_some hc hof formats.coo
    have hparts : Parts γ₁ (h.newCOO (some mat)).2 none none (some (h.newCOO (some mat)).1) formats
        (mat.entries : Multiset Entry) := by
      refine ⟨of_null, of_null, fun p hp => ?_, hof.numbered,
        Or.inr (Or.inr ⟨_, rfl, hsome⟩)⟩
      obtain rfl := Option.some.inj hp
      exact hat
    obtain ⟨γ₂, hc₂, hext₂, hd⟩ := new_spec hc₁ hparts hr
    exact ⟨γ₂, hc₂, hext₁.trans hext₂, _, hd⟩
  · cases hr

lemma createFromCSR_spec (hc : Cells γ h) {mat : CSRMatrix} (hmat : mat.Valid)
    (hr : UnitGraph.createFromCSR h n mat formats = some r) :
    Grows γ h r.2 fun γ' => ∃ E, Describes γ' r.2 r.1 E := by
  rw [UnitGraph.createFromCSR] at hr
  split at hr
  · have hof : OfCSR (mat.entries : Multiset Entry) mat := ⟨hmat, rfl⟩
    obtain ⟨γ₁, hc₁, hext₁, hat, hsome⟩ := newCSR_some hc hof formats.csr
    have hparts : Parts γ₁ (h.newCSR (some mat)).2 none (some (h.newCSR (some mat)).1) none formats
        (mat.entries : Multiset Entry) := by
      refine ⟨of_null, fun p hp => ?_, of_null, hof.numbered,
        Or.inr (Or.inl ⟨_, rfl, hsome⟩)⟩
      obtain rfl := Option.some.inj hp
      exact hat
    obtain ⟨γ₂, hc₂, hext₂, hd⟩ := new_spec hc₁ hparts hr
    exact ⟨γ₂, hc₂, hext₁.trans hext₂, _, hd⟩
  · cases hr

lemma createFromCSC_spec (hc : Cells γ h) {mat : CSRMatrix} (hmat : mat.Valid)
    (hr : UnitGraph.createFromCSC h n mat formats = some r) :
    Grows γ h r.2 fun γ' => ∃ E, Describes γ' r.2 r.1 E := by
  rw [UnitGraph.createFromCSC] at hr
  split at hr
  · have hof : OfCSR (reversed (reversed (mat.entries : Multiset Entry))) mat :=
      ⟨hmat, (reversed_reversed _).symm⟩
    obtain ⟨γ₁, hc₁, hext₁, hat, hsome⟩ := newCSR_some hc hof formats.csc
    have hparts : Parts γ₁ (h.newCSR (some mat)).2 (some (h.newCSR (some mat)).1) none none formats
        (reversed (mat.entries : Multiset Entry)) := by
      refine ⟨fun p hp => ?_, of_null, of_null, ?_,
        Or.inl ⟨_, rfl, hsome⟩⟩
      · obtain rfl := Option.some.inj hp
        exact hat
      · have hnum := hof.numbered.reversed
        rwa [reversed_reversed] at hnum
    obtain ⟨γ₂, hc₂, hext₂, hd⟩ := new_spec hc₁ hparts hr
    exact ⟨γ₂, hc₂, hext₁.trans hext₂, _, hd⟩
  · cases hr

/-! ## The formats of a graph -/

/-- What `GetInCSR`, `GetOutCSR` and `GetCOO` return: the object `p` if it is filled, else a new
matrix in this object, if that is allowed, or in a new one. -/
def Got {α : Type} (h : Heap) (filled allowed inplace : Bool) (p : ℕ) (newadj : Option α)
    (fill : α → Heap) (fresh : α → ℕ × Heap) (r : ℕ × Heap) : Prop :=
  filled = true ∧ r = (p, h) ∨ filled = false ∧ ∃ m, newadj = some m ∧
    (inplace = true ∧ allowed = true ∧ r = (p, fill m) ∨ inplace = false ∧ r = fresh m)

/-- `Got` for a CSR object. -/
abbrev GotCSR (h : Heap) (allowed inplace : Bool) (p : ℕ) (newadj : Option CSRMatrix) :
    ℕ × Heap → Prop :=
  Got h (h.csr p).isSome allowed inplace p newadj (h.setCSR p) fun m => h.newCSR (some m)

/-- `Got` for a COO object. -/
abbrev GotCOO (h : Heap) (allowed inplace : Bool) (p : ℕ) (newadj : Option COOMatrix) :
    ℕ × Heap → Prop :=
  Got h (h.coo p).isSome allowed inplace p newadj (h.setCOO p) fun m => h.newCOO (some m)

variable {r : ℕ × Heap} {inplace : Bool}

lemma got_of_eq_some {α : Type} {filled allowed : Bool} {newadj : Option α} {fill : α → Heap}
    {fresh : α → ℕ × Heap}
    (hr : (if inplace && !allowed then none else if filled then some (p, h) else
      newadj.bind fun m => if inplace then some (p, fill m) else some (fresh m)) = some r) :
    Got h filled allowed inplace p newadj fill fresh r := by
  split at hr
  · cases hr
  · rename_i hallow
    split at hr
    · rename_i hfilled
      exact Or.inl ⟨hfilled, (Option.some.inj hr).symm⟩
    · rename_i hnone
      obtain ⟨m, hm, hr⟩ := Option.bind_eq_some_iff.1 hr
      refine Or.inr ⟨by simpa using hnone, m, hm, ?_⟩
      cases inplace with
      | true => exact Or.inl ⟨rfl, by simpa using hallow, (Option.some.inj hr).symm⟩
      | false => exact Or.inr ⟨rfl, (Option.some.inj hr).symm⟩

section Get

variable {T : ℕ+} {g : UnitGraph}

lemma getInCSR_got (hr : g.getInCSR T h inplace = some r) :
    GotCSR h g.formats.csc inplace g.inCsr ((g.stored h).cscMatrix T) r :=
  got_of_eq_some hr

lemma getOutCSR_got (hr : g.getOutCSR T h inplace = some r) :
    GotCSR h g.formats.csr inplace g.outCsr ((g.stored h).csrMatrix T) r :=
  got_of_eq_some hr

lemma getCOO_got (hr : g.getCOO h inplace = some r) :
    GotCOO h g.formats.coo inplace g.coo (g.stored h).cooMatrix r :=
  got_of_eq_some hr

lemma Got.csr_spec {newadj : Option CSRMatrix} (hr : GotCSR h a inplace p newadj r)
    (hc : Cells γ h) (hat : At γ.csr h.csrs p E a) (hof : ∀ m, newadj = some m → OfCSR E m) :
    Grows γ h r.2 fun γ' => At γ'.csr r.2.csrs r.1 E a ∧ (r.2.csr r.1).isSome = true := by
  rcases hr with ⟨hsome, rfl⟩ | ⟨hnone, m, hm, ⟨-, rfl, rfl⟩ | ⟨-, rfl⟩⟩
  · exact ⟨γ, hc, Extends.refl γ h, hat, hsome⟩
  · obtain ⟨γ', hc', hext, -⟩ := setCSR_grows hc hat (by simpa using hnone) (hof m hm)
    refine ⟨γ', hc', hext, hat.extend hext.csr, ?_⟩
    show (cell (h.csrs.set _ _) _).isSome = true
    rw [cell_set m hat.lt, if_pos rfl]
    rfl
  · exact newCSR_some hc (hof m hm) a

variable (hc : Cells γ h) (hg : Describes γ h g E)
include hc hg

lemma getInCSR_spec (hr : g.getInCSR T h inplace = some r) :
    Grows γ h r.2 fun γ' => At γ'.csr r.2.csrs r.1 (reversed E) g.formats.csc ∧
      (r.2.csr r.1).isSome = true :=
  (getInCSR_got hr).csr_spec hc hg.inCsr fun _ hm => (hg.has hc).cscMatrix hm

lemma getOutCSR_spec (hr : g.getOutCSR T h inplace = some r) :
    Grows γ h r.2 fun γ' => At γ'.csr r.2.csrs r.1 E g.formats.csr ∧
      (r.2.csr r.1).isSome = true :=
  (getOutCSR_got hr).csr_spec hc hg.outCsr fun _ hm => (hg.has hc).csrMatrix hm

lemma getCOO_spec (hr : g.getCOO h inplace = some r) :
    Grows γ h r.2 fun γ' => At γ'.coo r.2.coos r.1 E g.formats.coo ∧
      (r.2.coo r.1).isSome = true := by
  rcases getCOO_got hr with ⟨hsome, rfl⟩ | ⟨hnone, m, hm, ⟨-, hallow, rfl⟩ | ⟨-, rfl⟩⟩
  · exact ⟨γ, hc, Extends.refl γ h, hg.coo, hsome⟩
  · have hat := hg.coo
    rw [hallow] at hat
    obtain ⟨γ', hc', hext, -⟩ := setCOO_grows hc hat (by simpa using hnone)
      ((hg.has hc).cooMatrix hm)
    refine ⟨γ', hc', hext, hg.coo.extend hext.coo, ?_⟩
    show (cell (h.coos.set _ _) _).isSome = true
    rw [cell_set m hg.coo.lt, if_pos rfl]
    rfl
  · exact newCOO_some hc ((hg.has hc).cooMatrix hm) g.formats.coo

end Get

end DglAscend.Hetero
