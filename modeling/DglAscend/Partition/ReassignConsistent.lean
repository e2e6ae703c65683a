import DglAscend.Partition.ReassignEdges

/-!
# When the new ids are consistent

With `is_incsr` the rewritten matrix is the one that stays, and every format is made from it.
Without, the rewritten matrix is the one that `InvalidateCSR` drops, and what is left of the graph
shows the old ids.
-/

namespace DglAscend.Hetero

open Aten

variable {T : ℕ+} {E E' : Multiset Entry} {s s' : Stored} {csr : CSRMatrix} {etype partId : List ℕ}
  {ret data : List ℕ} {order : List EdgeProperty} {sort : StdSort EdgeProperty}

/-- The vertex of an edge whose partition counts. -/
def rowVertex (isIncsr : Bool) (e : Entry) : ℕ := if isIncsr then e.2.1 else e.1

/-- The partition and the type of an edge with a new id. -/
def newKey (etype partId ret : List ℕ) (isIncsr : Bool) (e : Entry) : ℕ × ℕ :=
  (partId.getD (rowVertex isIncsr e) 0, etype.getD (ret.getD e.2.2 0) 0)

/-- The ids of every partition and type are contiguous, and with edge types they ascend. -/
def InOrder (E : Multiset Entry) (key : Entry → ℕ × ℕ) (typed : Prop) : Prop :=
  (∀ e₁ ∈ E, ∀ e₂ ∈ E, ∀ e₃ ∈ E, e₁.2.2 ≤ e₂.2.2 → e₂.2.2 ≤ e₃.2.2 → key e₁ = key e₃ →
    key e₂ = key e₁) ∧
  (typed → ∀ e₁ ∈ E, ∀ e₂ ∈ E, e₁.2.2 ≤ e₂.2.2 → keyLe (key e₁) (key e₂))

/-- Every format can be made and has the edges `E`. -/
def Stored.Shows (T : ℕ+) (s : Stored) (E : Multiset Entry) : Prop :=
  (∃ m, s.cscMatrix T = some m ∧ OfCSR (reversed E) m) ∧
    (∃ m, s.csrMatrix T = some m ∧ OfCSR E m) ∧ ∃ m, s.cooMatrix = some m ∧ OfCOO E m

/-- The graph shows its edges under new ids, and `ret` has the old ones. -/
structure Renumbers (T : ℕ+) (E : Multiset Entry) (etype partId : List ℕ) (isIncsr : Bool)
    (ret : List ℕ) (s' : Stored) : Prop where
  perm : ret.Perm (List.range (Multiset.card E))
  shown : ∃ E', s'.Shows T E' ∧ E'.map (original ret) = E ∧
    InOrder E' (newKey etype partId ret isIncsr) (0 < etype.length)

/-- Rows of one partition have no row of another one between them, empty rows aside. -/
def RowsGrouped (csr : CSRMatrix) (partId : List ℕ) : Prop :=
  ∀ r₁ r₂ r₃, r₁ ≤ r₂ → r₂ ≤ r₃ → r₃ < csr.numRows → csr.places r₁ ≠ [] → csr.places r₂ ≠ [] →
    csr.places r₃ ≠ [] → partId.getD r₁ 0 = partId.getD r₃ 0 → partId.getD r₂ 0 = partId.getD r₁ 0

/-! ## The order of the ids -/

/-- The edges stand in the order of the ids. -/
structure Aligned (E : Multiset Entry) (key : Entry → ℕ × ℕ) (etype : List ℕ)
    (order : List EdgeProperty) : Prop where
  key_eq : ∀ e ∈ E, ∃ x, order[e.2.2]? = some x ∧ key e = x.key etype
  edge : ∀ k x, order[k]? = some x → ∃ e ∈ E, e.2.2 = k

lemma keyLe_refl (a : ℕ × ℕ) : keyLe a a := Or.inr ⟨rfl, le_rfl⟩

/-- Without edge types, the key of the edge at a place is the partition of its row. -/
lemma key_indexed (h : csr.Valid) (hetype : ¬ 0 < etype.length) {k : ℕ} {x : EdgeProperty}
    (hx : (indexedEids csr partId)[k]? = some x) :
    ∃ r < csr.numRows, k ∈ csr.places r ∧ x.key etype = (partId.getD r 0, 0) := by
  have hk := (List.getElem?_eq_some_iff.1 hx).1
  rw [length_indexedEids h _] at hk
  obtain ⟨r, hr, hkr⟩ := h.exists_row hk
  refine ⟨r, hr, hkr, ?_⟩
  rw [indexedEids_getElem? h hr hkr] at hx
  obtain rfl := Option.some.inj hx
  have hnil : etype = [] := List.eq_nil_of_length_eq_zero (by omega)
  rw [hnil]
  rfl

/-- **The order**: with edge types the ids are always in order, without them if the rows are. -/
lemma inOrder_iff (h : csr.Valid) {key : Entry → ℕ × ℕ}
    (hal : Aligned E key etype (reassignOrder sort csr etype partId)) :
    InOrder E key (0 < etype.length) ↔ 0 < etype.length ∨ RowsGrouped csr partId := by
  by_cases hetype : 0 < etype.length
  · refine ⟨fun _ => Or.inl hetype, fun _ => ?_⟩
    have hle : ∀ e₁ ∈ E, ∀ e₂ ∈ E, e₁.2.2 ≤ e₂.2.2 → keyLe (key e₁) (key e₂) := by
      intro e₁ h₁ e₂ h₂ hid
      obtain ⟨x₁, hx₁, hk₁⟩ := hal.key_eq e₁ h₁
      obtain ⟨x₂, hx₂, hk₂⟩ := hal.key_eq e₂ h₂
      rw [hk₁, hk₂]
      rcases hid.eq_or_lt with heq | hlt
      · rw [heq, hx₂] at hx₁
        rw [Option.some.inj hx₁]
        exact keyLe_refl _
      · obtain ⟨hlt₁, rfl⟩ := List.getElem?_eq_some_iff.1 hx₁
        obtain ⟨hlt₂, rfl⟩ := List.getElem?_eq_some_iff.1 hx₂
        exact List.pairwise_iff_getElem.1 (reassignOrder_sorted hetype) _ _ hlt₁ hlt₂ hlt
    refine ⟨fun e₁ h₁ e₂ h₂ e₃ h₃ h12 h23 heq => ?_, fun _ => hle⟩
    have hup := hle e₁ h₁ e₂ h₂ h12
    have hdown := hle e₂ h₂ e₃ h₃ h23
    rw [← heq] at hdown
    exact keyLe_antisymm hdown hup
  · have horder : reassignOrder sort csr etype partId = indexedEids csr partId := if_neg hetype
    rw [horder] at hal
    constructor
    · intro hin
      right
      intro r₁ r₂ r₃ h12 h23 h3 hne₁ hne₂ hne₃ heq
      -- The first edges of the three rows.
      have hfirst (r : ℕ) (hr : r < csr.numRows) (hne : csr.places r ≠ []) :
          ∃ e ∈ E, e.2.2 = csr.ptr r ∧ key e = (partId.getD r 0, 0) := by
        have hmem : csr.ptr r ∈ csr.places r := by
          rw [CSRMatrix.places, List.mem_range'_1]
          have hpos : csr.ptr (r + 1) - csr.ptr r ≠ 0 := fun hzero => hne (by
            rw [CSRMatrix.places, hzero]
            rfl)
          omega
        obtain ⟨e, he, hid⟩ := hal.edge _ _ (indexedEids_getElem? h hr hmem)
        obtain ⟨x, hx, hkey⟩ := hal.key_eq e he
        rw [hid] at hx
        obtain ⟨r', hr', hmem', hxkey⟩ := key_indexed h hetype hx
        rw [h.row_unique hr' hr hmem' hmem] at hxkey
        exact ⟨e, he, hid, hkey.trans hxkey⟩
      obtain ⟨e₁, he₁, hid₁, hk₁⟩ := hfirst r₁ (by omega) hne₁
      obtain ⟨e₂, he₂, hid₂, hk₂⟩ := hfirst r₂ (by omega) hne₂
      obtain ⟨e₃, he₃, hid₃, hk₃⟩ := hfirst r₃ h3 hne₃
      have hbetween := hin.1 e₁ he₁ e₂ he₂ e₃ he₃
        (by rw [hid₁, hid₂]; exact h.ptr_le h12 (by omega))
        (by rw [hid₂, hid₃]; exact h.ptr_le h23 (by omega)) (by rw [hk₁, hk₃, heq])
      rw [hk₁, hk₂] at hbetween
      exact congrArg Prod.fst hbetween
    · intro hgrouped
      have hgrouped := hgrouped.resolve_left hetype
      refine ⟨fun e₁ h₁ e₂ h₂ e₃ h₃ h12 h23 heq => ?_, fun htyped => absurd htyped hetype⟩
      obtain ⟨x₁, hx₁, hk₁⟩ := hal.key_eq e₁ h₁
      obtain ⟨x₂, hx₂, hk₂⟩ := hal.key_eq e₂ h₂
      obtain ⟨x₃, hx₃, hk₃⟩ := hal.key_eq e₃ h₃
      obtain ⟨r₁, hr₁, hm₁, hxk₁⟩ := key_indexed h hetype hx₁
      obtain ⟨r₂, hr₂, hm₂, hxk₂⟩ := key_indexed h hetype hx₂
      obtain ⟨r₃, hr₃, hm₃, hxk₃⟩ := key_indexed h hetype hx₃
      rw [hk₁, hxk₁, hk₃, hxk₃] at heq
      rw [hk₁, hxk₁, hk₂, hxk₂]
      have hpart := hgrouped r₁ r₂ r₃ (h.row_mono hr₁ hr₂ hm₁ hm₂ h12)
        (h.row_mono hr₂ hr₃ hm₂ hm₃ h23) hr₃ (List.ne_nil_of_mem hm₁) (List.ne_nil_of_mem hm₂)
        (List.ne_nil_of_mem hm₃) (congrArg Prod.fst heq)
      rw [hpart]

/-! ## The call -/

/-- The checks of the call pass: the format is allowed and the matrix can be made, the arrays have
the width of its ids, and they have an entry for every edge, if there are types, and every row. -/
structure Accepted (T : ℕ+) (nullBits : ℕ) (E : Multiset Entry) (s : Stored) (csr : CSRMatrix)
    (etype partId : Ids) (isIncsr : Bool) : Prop where
  has : s.Has E
  allowed : (if isIncsr then s.formats.csc else s.formats.csr) = true
  matrix : (if isIncsr then s.cscMatrix T else s.csrMatrix T) = some csr
  etype_bits : etype.bits = if csr.hasData then csr.bits else nullBits
  part_bits : partId.bits = if csr.hasData then csr.bits else nullBits
  etype_length : etype.vals = [] ∨ etype.vals.length = Multiset.card E
  part_length : partId.vals.length = csr.numRows

/-- The matrix has a data array unless it is empty, the rows are grouped if there are no types, and
without `is_incsr` there is a CSC format and the ids are in the new order already, up to edges
with the same end points. -/
structure Renumberable (sort : StdSort EdgeProperty) (E : Multiset Entry) (s : Stored)
    (csr : CSRMatrix) (etype partId : List ℕ) (isIncsr : Bool) : Prop where
  data : csr.hasData = true ∨ csr.nnz = 0
  grouped : 0 < etype.length ∨ RowsGrouped csr partId
  kept : isIncsr = false → s.inCsr.isSome = true ∧
    ∀ k x, (reassignOrder sort csr etype partId)[k]? = some x →
      ∀ e ∈ E, e.2.2 = k → ∀ e' ∈ E, e'.2.2 = x.eid → e.1 = e'.1 ∧ e.2.1 = e'.2.1

/-- The edges as the rewritten matrix lists them. -/
def asListed (isIncsr : Bool) (E : Multiset Entry) : Multiset Entry :=
  if isIncsr then reversed E else E

section Call

variable {nullBits : ℕ} {etypes partIds : Ids} {isIncsr : Bool}

lemma Accepted.ofCSR (ha : Accepted T nullBits E s csr etypes partIds isIncsr) :
    OfCSR (asListed isIncsr E) csr := by
  have hm := ha.matrix
  cases isIncsr with
  | true => exact ha.has.cscMatrix hm
  | false => exact ha.has.csrMatrix hm

lemma card_asListed (E : Multiset Entry) (isIncsr : Bool) :
    Multiset.card (asListed isIncsr E) = Multiset.card E := by
  cases isIncsr with
  | true => exact Multiset.card_map _ _
  | false => rfl

/-- The ids and the matrix after the loop. -/
def filledBy (sort : StdSort EdgeProperty) (csr : CSRMatrix) (etype partId : List ℕ) :
    List ℕ × List ℕ :=
  (reassignOrder sort csr etype partId).zipIdx.foldl assignStep ([], csr.data)

variable (sort) in
lemma Accepted.call (ha : Accepted T nullBits E s csr etypes partIds isIncsr)
    (hdata : csr.hasData = true ∨ csr.nnz = 0) :
    reassignEdges sort T nullBits s etypes partIds isIncsr =
      .ok ((filledBy sort csr etypes.vals partIds.vals).1,
        { s with
          inCsr := if isIncsr then
            some { csr with data := (filledBy sort csr etypes.vals partIds.vals).2 } else s.inCsr
          outCsr := none
          coo := none }) := by
  have hlen := length_indexedEids ha.ofCSR.valid partIds.vals
  rw [reassignEdges, if_neg (by rw [ha.allowed]; decide), ha.matrix]
  simp only
  rw [if_neg (by simp [ha.etype_bits, ha.part_bits]), if_neg]
  · rfl
  · rw [hlen]
    rcases hdata with hdata | hdata
    · simp [hdata]
    · simp [hdata]

lemma Accepted.call_outOfBounds (ha : Accepted T nullBits E s csr etypes partIds isIncsr)
    (hdata : ¬ (csr.hasData = true ∨ csr.nnz = 0)) :
    reassignEdges sort T nullBits s etypes partIds isIncsr = .error .outOfBounds := by
  have hlen := length_indexedEids ha.ofCSR.valid partIds.vals
  rw [reassignEdges, if_neg (by rw [ha.allowed]; decide), ha.matrix]
  simp only
  rw [if_neg (by simp [ha.etype_bits, ha.part_bits]), if_pos]
  rw [hlen]
  simp only [not_or] at hdata
  simp [hdata.1, Nat.pos_of_ne_zero hdata.2]

lemma length_data (h : csr.Valid) (hdata : csr.hasData = true ∨ csr.nnz = 0) :
    csr.data.length = csr.nnz := by
  rcases h.numbers with hnil | hperm
  · rcases hdata with hdata | hdata
    · simp [CSRMatrix.hasData, hnil] at hdata
    · rw [hnil, hdata]
      rfl
  · rw [hperm.length_eq, List.length_range]

variable (sort) in
lemma Accepted.filled (ha : Accepted T nullBits E s csr etypes partIds isIncsr)
    (hdata : csr.hasData = true ∨ csr.nnz = 0) :
    Reassigned csr (reassignOrder sort csr etypes.vals partIds.vals)
      (filledBy sort csr etypes.vals partIds.vals).1
      (filledBy sort csr etypes.vals partIds.vals).2 :=
  reassigned ha.ofCSR.valid (length_data ha.ofCSR.valid hdata) reassignOrder_perm

/-- The entries of the new matrix stand in the order that was sorted. -/
lemma Reassigned.aligned (h : csr.Valid)
    (hr : Reassigned csr (reassignOrder sort csr etype partId) ret data) :
    Aligned ((CSRMatrix.entries { csr with data := data } : List Entry) : Multiset Entry)
      (fun e => (partId.getD e.1 0, etype.getD (ret.getD e.2.2 0) 0)) etype
      (reassignOrder sort csr etype partId) := by
  constructor
  · intro e he
    obtain ⟨r, hr', he⟩ := List.mem_flatMap.1 (Multiset.mem_coe.1 he)
    obtain ⟨j, hj, rfl⟩ := List.mem_map.1 he
    have hrow := List.mem_range.1 hr'
    obtain ⟨x, hx, hxj, heid⟩ := hr.at_place r hrow j hj
    refine ⟨x, hx, ?_⟩
    obtain ⟨r', hr', j', hj', rfl⟩ := mem_indexedEids.1
      (reassignOrder_perm.mem_iff.1 (List.mem_of_getElem? hx))
    obtain rfl : j' = j := hxj
    obtain rfl := h.row_unique hrow hr' hj hj'
    rw [EdgeProperty.key, heid]
    rfl
  · intro k x hx
    have hlt := (List.getElem?_eq_some_iff.1 hx).1
    rw [reassignOrder_perm.length_eq, length_indexedEids h _] at hlt
    have hmem : k ∈ (CSRMatrix.entries { csr with data := data }).map fun e => e.2.2 :=
      hr.valid.ids_perm.mem_iff.2 (List.mem_range.2 hlt)
    obtain ⟨e, he, rfl⟩ := List.mem_map.1 hmem
    exact ⟨e, Multiset.mem_coe.2 he, rfl⟩

lemma Numbered.exists_edge (hE : Numbered E) {k : ℕ} (hk : k < Multiset.card E) :
    ∃ e ∈ E, e.2.2 = k := by
  have hmem : k ∈ E.map fun e : Entry => e.2.2 := by
    rw [hE]
    exact Multiset.mem_range.2 hk
  obtain ⟨e, he, hid⟩ := Multiset.mem_map.1 hmem
  exact ⟨e, he, hid⟩

lemma OfCSR.card (h : OfCSR E csr) : Multiset.card E = csr.nnz := by
  rw [← h.entries, Multiset.coe_card, h.valid.length_entries]

lemma OfCSR.numbered_eq (h : OfCSR E csr) (h' : OfCSR E' csr) : E = E' :=
  h.entries.symm.trans h'.entries

lemma map_original_reversed (ret : List ℕ) (E : Multiset Entry) :
    (reversed E).map (original ret) = reversed (E.map (original ret)) := by
  rw [reversed, reversed, Multiset.map_map, Multiset.map_map]
  rfl

/-- What is left of the graph makes every format. -/
lemma shows_of_inCsr {s' : Stored} {m : CSRMatrix} (hin : s'.inCsr = some m) (hout : s'.outCsr = none)
    (hcoo : s'.coo = none) (hm : OfCSR (reversed E) m) : s'.Shows T E := by
  have hhas : s'.Has E := by
    refine ⟨fun x hx => ?_, fun x hx => ?_, fun x hx => ?_⟩
    · rw [hin] at hx
      rwa [← Option.some.inj hx]
    · rw [hout] at hx
      cases hx
    · rw [hcoo] at hx
      cases hx
  refine ⟨⟨m, ?_, hm⟩, ⟨m.transpose, ?_, ?_⟩, ⟨m.toCOODataAsOrder.transpose, ?_, ?_⟩⟩
  · rw [Stored.cscMatrix, hin]
  · rw [Stored.csrMatrix, hout, hcoo, hin]
    rfl
  · have ht := hm.transpose
    rwa [reversed_reversed] at ht
  · rw [Stored.cooMatrix, hcoo, hin]
  · have ht := hm.toCOO.transpose
    rwa [reversed_reversed] at ht

variable (sort) in
/-- With `is_incsr` the rewritten matrix is what the graph shows. -/
lemma Accepted.renumbers_inCsr (ha : Accepted T nullBits E s csr etypes partIds true)
    (hdata : csr.hasData = true ∨ csr.nnz = 0) (s' : Stored)
    (hin : s'.inCsr = some { csr with data := (filledBy sort csr etypes.vals partIds.vals).2 })
    (hout : s'.outCsr = none) (hcoo : s'.coo = none) :
    Renumbers T E etypes.vals partIds.vals true (filledBy sort csr etypes.vals partIds.vals).1 s' ↔
      0 < etypes.vals.length ∨ RowsGrouped csr partIds.vals := by
  have hof : OfCSR (reversed E) csr := ha.ofCSR
  have hr := ha.filled sort hdata
  have hal := hr.aligned hof.valid
  set ret := (filledBy sort csr etypes.vals partIds.vals).1
  set csr' : CSRMatrix := { csr with data := (filledBy sort csr etypes.vals partIds.vals).2 }
  set new : Multiset Entry := reversed (csr'.entries : Multiset Entry) with hnew
  have hof' : OfCSR (reversed new) csr' := ⟨hr.valid, by rw [hnew, reversed_reversed]⟩
  have hshows : s'.Shows T new := shows_of_inCsr hin hout hcoo hof'
  have hmem {e : Entry} : e ∈ new ↔ e.swap ∈ (csr'.entries : Multiset Entry) := by
    rw [hnew, reversed, Multiset.mem_map]
    constructor
    · rintro ⟨e', he', rfl⟩
      exact he'
    · intro he
      exact ⟨e.swap, he, rfl⟩
  have hal' : Aligned new (newKey etypes.vals partIds.vals ret true) etypes.vals
      (reassignOrder sort csr etypes.vals partIds.vals) := by
    refine ⟨fun e he => hal.key_eq e.swap (hmem.1 he), fun k x hx => ?_⟩
    obtain ⟨e, he, hid⟩ := hal.edge k x hx
    exact ⟨e.swap, hmem.2 he, hid⟩
  rw [← inOrder_iff hof.valid hal']
  constructor
  · intro h
    obtain ⟨E', ⟨⟨m, hm, hofm⟩, -⟩, -, hin'⟩ := h.shown
    rw [Stored.cscMatrix, hin] at hm
    obtain rfl := Option.some.inj hm
    have heq := congrArg reversed (hofm.numbered_eq hof')
    rw [reversed_reversed, reversed_reversed] at heq
    rwa [heq] at hin'
  · intro h
    refine ⟨?_, new, hshows, ?_, h⟩
    · rw [← card_asListed E true, ha.ofCSR.card]
      exact hr.perm
    · rw [hnew, map_original_reversed, Multiset.map_coe, hr.entries, hof.entries, reversed_reversed]

/-- The old ids show the new numbering if edges with the same end points are renumbered. -/
lemma map_original_eq_iff (hE : Numbered E) (hret : ret.Perm (List.range (Multiset.card E))) :
    E.map (original ret) = E ↔ ∀ e ∈ E, ∀ e' ∈ E, e'.2.2 = ret.getD e.2.2 0 →
      e.1 = e'.1 ∧ e.2.1 = e'.2.1 := by
  have hlen : ret.length = Multiset.card E := by rw [hret.length_eq, List.length_range]
  constructor
  · intro heq e he e' he' hid
    have hmem : original ret e ∈ E := by
      rw [← heq]
      exact Multiset.mem_map_of_mem _ he
    have h := hE.eq_of_id he' hmem hid
    rw [h]
    exact ⟨rfl, rfl⟩
  · intro h
    have hmem : ∀ e ∈ E, original ret e ∈ E := by
      intro e he
      have hid : e.2.2 < ret.length := by
        rw [hlen, ← Multiset.mem_range, ← hE]
        exact Multiset.mem_map_of_mem _ he
      have hlt : ret.getD e.2.2 0 < Multiset.card E := by
        rw [List.getD_eq_getElem _ _ hid]
        exact List.mem_range.1 (hret.mem_iff.1 (List.getElem_mem hid))
      obtain ⟨e', he', hid'⟩ := hE.exists_edge hlt
      obtain ⟨h1, h2⟩ := h e he e' he' hid'
      have heq : original ret e = e' := Prod.ext h1 (Prod.ext h2 hid'.symm)
      rwa [heq]
    have hids : (E.map (original ret)).map (fun e : Entry => e.2.2) = E.map fun e => e.2.2 := by
      have hmap : (E.map (original ret)).map (fun e : Entry => e.2.2) =
          (E.map fun e => e.2.2).map fun k => ret.getD k 0 := by
        rw [Multiset.map_map, Multiset.map_map]
        rfl
      have hget : (List.range (Multiset.card E)).map (fun k => ret.getD k 0) = ret := by
        apply List.ext_getElem
        · rw [List.length_map, List.length_range, hlen]
        · intro k hk hk'
          rw [List.getElem_map, List.getElem_range, List.getD_eq_getElem _ _ hk']
      rw [hmap, hE, Multiset.range, Multiset.map_coe, hget]
      exact Multiset.coe_eq_coe.2 hret
    have hnodup : (E.map fun e : Entry => e.2.2).Nodup := by
      rw [hE]
      exact Multiset.nodup_range _
    have hnodup' := Multiset.Nodup.of_map _ (hids ▸ hnodup : (Multiset.map _ _).Nodup)
    apply Multiset.eq_of_le_of_card_le
    · rw [Multiset.le_iff_subset hnodup']
      intro e he
      obtain ⟨e', he', rfl⟩ := Multiset.mem_map.1 he
      exact hmem e' he'
    · rw [Multiset.card_map]

variable (sort) in
/-- Without `is_incsr` the graph shows the edges that it had, if it has a CSC format. -/
lemma Accepted.renumbers_outCsr (ha : Accepted T nullBits E s csr etypes partIds false)
    (hdata : csr.hasData = true ∨ csr.nnz = 0) (s' : Stored) (hin : s'.inCsr = s.inCsr)
    (hout : s'.outCsr = none) (hcoo : s'.coo = none) :
    Renumbers T E etypes.vals partIds.vals false (filledBy sort csr etypes.vals partIds.vals).1 s' ↔
      (0 < etypes.vals.length ∨ RowsGrouped csr partIds.vals) ∧ s.inCsr.isSome = true ∧
        ∀ k x, (reassignOrder sort csr etypes.vals partIds.vals)[k]? = some x →
          ∀ e ∈ E, e.2.2 = k → ∀ e' ∈ E, e'.2.2 = x.eid → e.1 = e'.1 ∧ e.2.1 = e'.2.1 := by
  have hof : OfCSR E csr := ha.ofCSR
  have hr := ha.filled sort hdata
  have hal := hr.aligned hof.valid
  have hcard := hof.card
  have hE := hof.numbered
  set ret := (filledBy sort csr etypes.vals partIds.vals).1
  set data := (filledBy sort csr etypes.vals partIds.vals).2
  set order := reassignOrder sort csr etypes.vals partIds.vals with horder
  have hlen : order.length = Multiset.card E := by
    rw [horder, reassignOrder_perm.length_eq, length_indexedEids hof.valid, hcard]
  have hperm : ret.Perm (List.range (Multiset.card E)) := by
    rw [hcard]
    exact hr.perm
  have hlt {e : Entry} (he : e ∈ E) : e.2.2 < order.length := by
    rw [hlen, ← Multiset.mem_range, ← hE]
    exact Multiset.mem_map_of_mem _ he
  have hret {k : ℕ} {x : EdgeProperty} (hx : order[k]? = some x) : ret.getD k 0 = x.eid := by
    rw [hr.ret_eq, List.getD_eq_getElem?_getD, List.getElem?_map, hx]
    rfl
  have hsame : (∀ e ∈ E, ∀ e' ∈ E, e'.2.2 = ret.getD e.2.2 0 → e.1 = e'.1 ∧ e.2.1 = e'.2.1) ↔
      ∀ k x, order[k]? = some x → ∀ e ∈ E, e.2.2 = k → ∀ e' ∈ E, e'.2.2 = x.eid →
        e.1 = e'.1 ∧ e.2.1 = e'.2.1 := by
    constructor
    · rintro h k x hx e he rfl e' he' hid
      exact h e he e' he' (hid.trans (hret hx).symm)
    · intro h e he e' he' hid
      have hx := List.getElem?_eq_getElem (hlt he)
      exact h _ _ hx e he rfl e' he' (hid.trans (hret hx))
  -- The keys of the old edges are those of the order, if the end points are the same.
  have hal' (h : E.map (original ret) = E) :
      Aligned E (newKey etypes.vals partIds.vals ret false) etypes.vals order := by
    refine ⟨fun e he => ?_, fun k x hx => ?_⟩
    · -- The edge of the same id in the rewritten matrix has the same end points.
      have hnum : Numbered (CSRMatrix.entries { csr with data := data } : Multiset Entry) :=
        OfCSR.numbered ⟨hr.valid, rfl⟩
      have hmem : original ret e ∈ (csr.entries : Multiset Entry) := by
        rw [hof.entries, ← h]
        exact Multiset.mem_map_of_mem _ he
      rw [← hr.entries, Multiset.mem_coe] at hmem
      obtain ⟨e', he', heq⟩ := List.mem_map.1 hmem
      have hrow : (original ret e').1 = (original ret e).1 := congrArg Prod.fst heq
      have hret' : (original ret e').2.2 = (original ret e).2.2 := congrArg (fun x => x.2.2) heq
      change e'.1 = e.1 at hrow
      change ret.getD e'.2.2 0 = ret.getD e.2.2 0 at hret'
      have hid : e'.2.2 = e.2.2 := by
        have hlt' : e'.2.2 < ret.length := by
          rw [hperm.length_eq, List.length_range, hcard]
          exact List.mem_range.1 (hr.valid.ids_perm.mem_iff.1 (List.mem_map_of_mem he'))
        have hlt'' : e.2.2 < ret.length := by
          rw [hperm.length_eq, List.length_range, ← hlen]
          exact hlt he
        rw [List.getD_eq_getElem _ _ hlt', List.getD_eq_getElem _ _ hlt''] at hret'
        exact (List.Nodup.getElem_inj_iff (hperm.nodup_iff.2 List.nodup_range)).1 hret'
      obtain ⟨x, hx, hkey⟩ := hal.key_eq e' (Multiset.mem_coe.2 he')
      rw [hid] at hx
      refine ⟨x, hx, ?_⟩
      rw [← hkey, newKey, rowVertex, hrow, hid]
      rfl
    · have hk := (List.getElem?_eq_some_iff.1 hx).1
      rw [hlen] at hk
      exact hE.exists_edge hk
  constructor
  · intro h
    obtain ⟨E', ⟨⟨m, hm, hofm⟩, -⟩, hmap, hin'⟩ := h.shown
    rw [Stored.cscMatrix, hin, hout, hcoo] at hm
    cases hsin : s.inCsr with
    | none =>
        rw [hsin] at hm
        cases hm
    | some m' =>
        rw [hsin] at hm
        obtain rfl := Option.some.inj hm
        have heq := congrArg reversed (hofm.numbered_eq (ha.has.inCsr _ hsin))
        rw [reversed_reversed, reversed_reversed] at heq
        rw [heq] at hmap hin'
        exact ⟨(inOrder_iff hof.valid (hal' hmap)).1 hin', rfl,
          hsame.1 ((map_original_eq_iff hE hperm).1 hmap)⟩
  · rintro ⟨hgrouped, hsome, hkept⟩
    obtain ⟨m, hm⟩ := Option.isSome_iff_exists.1 hsome
    have hmap := (map_original_eq_iff hE hperm).2 (hsame.2 hkept)
    exact ⟨hperm, E, shows_of_inCsr (hin.trans hm) hout hcoo (ha.has.inCsr m hm), hmap,
      (inOrder_iff hof.valid (hal' hmap)).2 hgrouped⟩

end Call

/-! ## An edge in each direction -/

/-- The edges 0 from vertex 1 to vertex 0 and 1 from vertex 0 to vertex 1. -/
def bothWays : COOMatrix where
  bits := 64
  numRows := 2
  numCols := 2
  row := [1, 0]
  col := [0, 1]
  data := []
  rowSorted := false
  colSorted := false

/-- The matrix with the rows of the targets. -/
def bothWaysIn : CSRMatrix := ⟨64, 2, 2, [0, 1, 2], [1, 0], [0, 1], false⟩

/-- The matrix with the rows of the sources. -/
def bothWaysOut : CSRMatrix := ⟨64, 2, 2, [0, 1, 2], [1, 0], [1, 0], false⟩

/-- The graph has COO and CSC. -/
def bothWaysStored : Stored := ⟨1, some bothWaysIn, none, some bothWays, .all⟩

lemma bothWays_valid : bothWays.Valid where
  col_length := rfl
  row_lt := by decide
  col_lt := by decide
  numbers := Or.inl rfl
  sorted := nofun

lemma bothWays_has : bothWaysStored.Has (bothWays.entries : Multiset Entry) := by
  have hcoo : OfCOO (bothWays.entries : Multiset Entry) bothWays := ⟨bothWays_valid, rfl, rfl⟩
  refine ⟨fun m hm => ?_, (fun m hm => nomatch hm), fun m hm => ?_⟩
  · obtain rfl := Option.some.inj hm
    exact hcoo.transpose.toCSR (T := 1) (by decide)
  · obtain rfl := Option.some.inj hm
    exact hcoo

end DglAscend.Hetero
