import DglAscend.Hetero.HeteroGraph
import DglAscend.Serialize.MetaGraph

/-!
# Relations in a stream

`UnitGraph::Save` and `UnitGraph::Load`.  The formats that are written are made before, and a relation
that is read has these formats and the same edges (`saved_presents`).
-/

namespace DglAscend.Serialize

open Aten Hetero

/-! ## Codes of formats -/

/-- `dgl_format_code_t` -/
def formatsCode (f : Formats) : ℕ := f.coo.toNat + 2 * f.csr.toNat + 4 * f.csc.toNat

/-- The formats of a code. -/
def ofFormatsCode (c : ℕ) : Formats := ⟨c % 2 = 1, c / 2 % 2 = 1, c / 4 % 2 = 1⟩

/-- `SparseFormatsToCode({format})` -/
def single : SparseFormat → Formats
  | .coo => ⟨true, false, false⟩
  | .csr => ⟨false, true, false⟩
  | .csc => ⟨false, false, true⟩

/-- The flag of the codes that are combinations of formats. -/
def codeFlag : ℕ := 0x100000000

/-- The formats in the file; an old code is a `SparseFormat`. -/
def decodeSaved (c : ℕ) : Option Formats :=
  if c / codeFlag ≠ 0 then some (ofFormatsCode (c % codeFlag))
  else match c with
    | 1 => some (single .coo)
    | 2 => some (single .csr)
    | 3 => some (single .csc)
    | _ => none

/-- The formats that are allowed, with the old codes. -/
def decodeAllowed (c : ℕ) : Option Formats :=
  if c / codeFlag ≠ 0 then some (ofFormatsCode (c % codeFlag))
  else match c with
    | 0 => some .all
    | 1 => some (single .coo)
    | 2 => some (single .csr)
    | 3 => some (single .csc)
    | _ => none

lemma decode_flagged (f : Formats) : decodeSaved (formatsCode f + codeFlag) = some f ∧
    decodeAllowed (formatsCode f + codeFlag) = some f := by
  obtain ⟨coo, csr, csc⟩ := f
  cases coo <;> cases csr <;> cases csc <;> decide

lemma formatsCode_lt (f : Formats) : formatsCode f + codeFlag < 2 ^ 63 := by
  obtain ⟨coo, csr, csc⟩ := f
  cases coo <;> cases csr <;> cases csc <;> decide

/-! ## Saving and loading -/

section Unit

variable {σ : Type} (w : Stream σ) (T : ℕ+)

/-- `CreateUnitGraphMetaGraph`: a loop, or an edge between two types. -/
def unitMeta (numVTypes : ℕ) : MetaGraph := ⟨numVTypes, [(0, numVTypes - 1)]⟩

/-- `kDGLSerialize_UnitGraphMagic` -/
def unitMagic : ℕ := 0xDD2E60F0F6B4A127

/-- `COO::Save` and `CSR::Save`: the meta graph and the matrix. -/
def putAdj {α : Type} (c : Codec σ α) (numVTypes : ℕ) : Option α → List σ
  | some m => (w.metaGraph T).put (unitMeta numVTypes) ++ c.put m
  | none => []

/-- `COO::Load` and `CSR::Load`. -/
def getAdj {α : Type} (c : Codec σ α) (wanted : Bool) : Scan σ (Option (MetaGraph × α)) :=
  if wanted then do
    let metaGraph ← (w.metaGraph T).get
    let m ← c.get
    pure (some (metaGraph, m))
  else pure none

/-- What `UnitGraph::Save` writes of a relation with the formats that it saves. -/
def putUnit (s : Hetero.Stored) : List σ :=
  w.u64.put unitMagic ++ w.i64.put (formatsCode s.createdFormats + codeFlag) ++
    w.i64.put (formatsCode s.formats + codeFlag) ++
    putAdj w T w.coo s.numVTypes s.coo ++ putAdj w T w.csr s.numVTypes s.outCsr ++
    putAdj w T w.csr s.numVTypes s.inCsr

/-- `UnitGraph::Load`; the meta graph is the one of `GetAny`. -/
def loadUnit : Scan σ Hetero.Stored := do
  let magic ← w.u64.get
  Scan.check (magic = unitMagic)
  let saveFormatCode ← w.i64.get
  let formatsCode ← w.i64.get
  let save ← Scan.ofOption (decodeSaved saveFormatCode)
  let formats ← Scan.ofOption (decodeAllowed formatsCode)
  let coo ← getAdj w T w.coo save.coo
  let outCsr ← getAdj w T w.csr save.csr
  let inCsr ← getAdj w T w.csr save.csc
  Scan.check ((coo.isSome || outCsr.isSome || inCsr.isSome) = true)
  let any ← Scan.ofOption (((inCsr.map Prod.fst).or (outCsr.map Prod.fst)).or (coo.map Prod.fst))
  pure ⟨any.numVertices, inCsr.map Prod.snd, outCsr.map Prod.snd, coo.map Prod.snd, formats⟩

/-- The relation has a format, and its matrices can be written. -/
structure UnitStorable (s : Hetero.Stored) : Prop where
  numVTypes : s.numVTypes = 1 ∨ s.numVTypes = 2
  created : s.createdFormats.nonzero = true
  coo : ∀ m, s.coo = some m → COOStorable m
  outCsr : ∀ m, s.outCsr = some m → CSRStorable m
  inCsr : ∀ m, s.inCsr = some m → CSRStorable m

variable {w T}

lemma unitMeta_storable {n : ℕ} (hn : n = 1 ∨ n = 2) : (unitMeta n).Storable := by
  rcases hn with rfl | rfl
  · exact ⟨by decide, by decide, by decide⟩
  · exact ⟨by decide, by decide, by decide⟩

lemma run_getAdj {α β : Type} (c : Codec σ α) {n : ℕ} (hn : n = 1 ∨ n = 2) (o : Option α)
    (ho : ∀ m, o = some m → c.Ok m) (f : Option (MetaGraph × α) → Scan σ β) (rest : List σ) :
    (getAdj w T c o.isSome >>= f).run (putAdj w T c n o ++ rest) =
      (f (o.map fun m => (unitMeta n, m))).run rest := by
  cases o with
  | none => rfl
  | some m =>
      have hmeta : ((w.metaGraph T).Ok (unitMeta n)) := unitMeta_storable hn
      simp only [getAdj, putAdj, Option.isSome_some, if_true, List.append_assoc, bind_assoc]
      rw [(w.metaGraph T).run_bind hmeta, c.run_bind (ho m rfl)]
      rfl

/-- **A relation is read back** with the formats that were written. -/
theorem UnitStorable.load_put {s : Hetero.Stored} (h : UnitStorable s) (rest : List σ) :
    (loadUnit w T).run (putUnit w T s ++ rest) = some (s, rest) := by
  obtain ⟨hsaved, -⟩ := decode_flagged s.createdFormats
  obtain ⟨-, hallowed⟩ := decode_flagged s.formats
  have hsome : ((s.coo.map fun m => (unitMeta s.numVTypes, m)).isSome ||
      (s.outCsr.map fun m => (unitMeta s.numVTypes, m)).isSome ||
      (s.inCsr.map fun m => (unitMeta s.numVTypes, m)).isSome) = true := by
    simp only [Option.isSome_map]
    exact h.created
  have hany : ((((s.inCsr.map fun m => (unitMeta s.numVTypes, m)).map Prod.fst).or
      ((s.outCsr.map fun m => (unitMeta s.numVTypes, m)).map Prod.fst)).or
      ((s.coo.map fun m => (unitMeta s.numVTypes, m)).map Prod.fst)) = some (unitMeta s.numVTypes) := by
    cases hin : s.inCsr with
    | some m => rfl
    | none =>
        cases hout : s.outCsr with
        | some m => rfl
        | none =>
            cases hcoo : s.coo with
            | some m => rfl
            | none =>
                rw [hin, hout, hcoo] at hsome
                cases hsome
  simp only [putUnit, loadUnit, List.append_assoc]
  rw [w.u64.run_bind (w.u64_ok (by decide)), Scan.run_check rfl,
    w.i64.run_bind (w.i64_ok (formatsCode_lt _)), w.i64.run_bind (w.i64_ok (formatsCode_lt _)),
    Scan.run_ofOption hsaved, Scan.run_ofOption hallowed]
  simp only [Hetero.Stored.createdFormats]
  rw [run_getAdj w.coo h.numVTypes s.coo h.coo, run_getAdj w.csr h.numVTypes s.outCsr h.outCsr,
    run_getAdj w.csr h.numVTypes s.inCsr h.inCsr, Scan.run_check hsome, Scan.run_ofOption hany]
  simp only [Option.map_map, Function.comp_def, Option.map_id']
  rfl

/-- Relations in a stream. -/
def Stream.unit (w : Stream σ) (T : ℕ+) : Codec σ Hetero.Stored where
  put := putUnit w T
  get := loadUnit w T
  Ok := UnitStorable
  get_put h := h.load_put

end Unit

/-! ## The formats that are written -/

section Prepare

variable (T : ℕ+)

/-- `GetCOO()`, which makes the format if it is allowed. -/
def withCOO (s : Hetero.Stored) : Option Hetero.Stored :=
  if s.formats.coo then s.cooMatrix.map fun m => { s with coo := some m } else none

/-- `GetOutCSR()` -/
def withOutCSR (s : Hetero.Stored) : Option Hetero.Stored :=
  if s.formats.csr then (s.csrMatrix T).map fun m => { s with outCsr := some m } else none

/-- `GetInCSR()` -/
def withInCSR (s : Hetero.Stored) : Option Hetero.Stored :=
  if s.formats.csc then (s.cscMatrix T).map fun m => { s with inCsr := some m } else none

/-- The step that makes a format. -/
def withFormat : SparseFormat → Hetero.Stored → Option Hetero.Stored
  | .coo => withCOO
  | .csr => withOutCSR T
  | .csc => withInCSR T

/-- A step that is done if it is wanted. -/
def onlyIf (wanted : Bool) (step : Hetero.Stored → Option Hetero.Stored) (s : Hetero.Stored) :
    Option Hetero.Stored :=
  if wanted then step s else some s

/-- The formats are made one after the other. -/
def prepare (save : Formats) (s : Hetero.Stored) : Option Hetero.Stored := do
  let s ← onlyIf save.coo withCOO s
  let s ← onlyIf save.csr (withOutCSR T) s
  onlyIf save.csc (withInCSR T) s

/-- The matrices of some formats. -/
def restrict (save : Formats) (s : Hetero.Stored) : Hetero.Stored where
  numVTypes := s.numVTypes
  inCsr := if save.csc then s.inCsr else none
  outCsr := if save.csr then s.outCsr else none
  coo := if save.coo then s.coo else none
  formats := s.formats

/-- What `UnitGraph::Save` writes, with the formats of the stream; without any, one is chosen. -/
def savedUnit (toSave : Formats) (s : Hetero.Stored) : Option Hetero.Stored :=
  let save := if toSave.nonzero then toSave else single (s.selectFormat .all)
  (prepare T save s).map (restrict save)

/-- All matrices have ids of a width. -/
structure HasBits (bits : ℕ) (s : Hetero.Stored) : Prop where
  inCsr : ∀ m, s.inCsr = some m → m.bits = bits
  outCsr : ∀ m, s.outCsr = some m → m.bits = bits
  coo : ∀ m, s.coo = some m → m.bits = bits

variable {T} {E : Multiset Entry} {n a b bits : ℕ} {s s' : Hetero.Stored}

lemma cooToCSR_bits {coo : COOMatrix} {m : CSRMatrix} (hcoo : coo.Valid) (hm : coo.cooToCSR T = some m) :
    m.bits = coo.bits := by
  rw [hcoo.cooToCSR_eq T.pos] at hm
  split_ifs at hm
  obtain rfl := Option.some.inj hm
  rfl

/-- The edges and the width, which every format has. -/
structure Keeps (E : Multiset Entry) (n a b bits : ℕ) (s : Hetero.Stored) : Prop where
  lists : s.Lists E n a b
  bits : HasBits bits s

lemma Keeps.cooMatrix_bits {m : COOMatrix} (h : Keeps E n a b bits s) (hm : s.cooMatrix = some m) :
    m.bits = bits := by
  rw [Hetero.Stored.cooMatrix] at hm
  split at hm
  · rename_i c hc
    obtain rfl := Option.some.inj hm
    exact h.bits.coo _ hc
  · split at hm
    · rename_i c hc
      obtain rfl := Option.some.inj hm
      exact h.bits.inCsr c hc
    · obtain ⟨c, hc, rfl⟩ := Option.map_eq_some_iff.1 hm
      exact h.bits.outCsr c hc

lemma Keeps.csrMatrix_bits {m : CSRMatrix} (h : Keeps E n a b bits s)
    (hm : s.csrMatrix T = some m) : m.bits = bits := by
  rw [Hetero.Stored.csrMatrix] at hm
  split at hm
  · rename_i c hc
    obtain rfl := Option.some.inj hm
    exact h.bits.outCsr _ hc
  · split at hm
    · rename_i c hc
      rw [cooToCSR_bits (h.lists.coo c hc).of.valid hm]
      exact h.bits.coo c hc
    · obtain ⟨c, hc, rfl⟩ := Option.map_eq_some_iff.1 hm
      exact h.bits.inCsr c hc

lemma Keeps.cscMatrix_bits {m : CSRMatrix} (h : Keeps E n a b bits s)
    (hm : s.cscMatrix T = some m) : m.bits = bits := by
  rw [Hetero.Stored.cscMatrix] at hm
  split at hm
  · rename_i c hc
    obtain rfl := Option.some.inj hm
    exact h.bits.inCsr _ hc
  · split at hm
    · rename_i c hc
      rw [cooToCSR_bits (h.lists.coo c hc).of.valid.transpose hm]
      exact h.bits.coo c hc
    · obtain ⟨c, hc, rfl⟩ := Option.map_eq_some_iff.1 hm
      exact h.bits.outCsr c hc

variable {f : SparseFormat} {wanted : Bool}

/-- **A format that is made** lists the same edges; the others stay. -/
lemma Keeps.after (h : Keeps E n a b bits s) (hs : withFormat T f s = some s') :
    Keeps E n a b bits s' ∧ s'.formats = s.formats ∧ s.formats.has f = true ∧
      s'.createdFormats.has f = true ∧ s.createdFormats.within s'.createdFormats = true := by
  cases f with
  | coo =>
      simp only [withFormat, withCOO] at hs
      split_ifs at hs with hallowed
      obtain ⟨m, hm, rfl⟩ := Option.map_eq_some_iff.1 hs
      refine ⟨⟨{ h.lists with coo := fun c hc => ?_ }, { h.bits with coo := fun c hc => ?_ }⟩, rfl,
        hallowed, rfl, Formats.within_iff.2 fun f hf => by cases f <;> first | rfl | exact hf⟩
      · exact Option.some.inj hc ▸ h.lists.cooMatrix hm
      · exact Option.some.inj hc ▸ h.cooMatrix_bits hm
  | csr =>
      simp only [withFormat, withOutCSR] at hs
      split_ifs at hs with hallowed
      obtain ⟨m, hm, rfl⟩ := Option.map_eq_some_iff.1 hs
      refine ⟨⟨{ h.lists with outCsr := fun c hc => ?_ }, { h.bits with outCsr := fun c hc => ?_ }⟩,
        rfl, hallowed, rfl, Formats.within_iff.2 fun f hf => by cases f <;> first | rfl | exact hf⟩
      · exact Option.some.inj hc ▸ h.lists.csrMatrix hm
      · exact Option.some.inj hc ▸ h.csrMatrix_bits hm
  | csc =>
      simp only [withFormat, withInCSR] at hs
      split_ifs at hs with hallowed
      obtain ⟨m, hm, rfl⟩ := Option.map_eq_some_iff.1 hs
      refine ⟨⟨{ h.lists with inCsr := fun c hc => ?_ }, { h.bits with inCsr := fun c hc => ?_ }⟩,
        rfl, hallowed, rfl, Formats.within_iff.2 fun f hf => by cases f <;> first | rfl | exact hf⟩
      · exact Option.some.inj hc ▸ h.lists.cscMatrix hm
      · exact Option.some.inj hc ▸ h.cscMatrix_bits hm

lemma Keeps.afterOnlyIf (h : Keeps E n a b bits s)
    (hs : onlyIf wanted (withFormat T f) s = some s') :
    Keeps E n a b bits s' ∧ s'.formats = s.formats ∧
      s.createdFormats.within s'.createdFormats = true ∧
      (wanted = true → s.formats.has f = true ∧ s'.createdFormats.has f = true) := by
  rw [onlyIf] at hs
  split_ifs at hs with hwanted
  · obtain ⟨k, hf, hallowed, hhas, hkept⟩ := h.after hs
    exact ⟨k, hf, hkept, fun _ => ⟨hallowed, hhas⟩⟩
  · obtain rfl := Option.some.inj hs
    exact ⟨h, rfl, Formats.within_iff.2 fun _ => id, fun hw => absurd hw hwanted⟩

/-- **What is made before writing** has the same edges. -/
lemma Keeps.afterPrepare {save : Formats} (h : Keeps E n a b bits s) (hs : prepare T save s = some s') :
    Keeps E n a b bits s' ∧ s'.formats = s.formats ∧ save.within s.formats = true ∧
      save.within s'.createdFormats = true := by
  rw [prepare] at hs
  obtain ⟨s₁, h₁, hs⟩ := Option.bind_eq_some_iff.1 hs
  obtain ⟨s₂, h₂, h₃⟩ := Option.bind_eq_some_iff.1 hs
  obtain ⟨k₁, f₁, -, c₁⟩ := h.afterOnlyIf (T := T) (f := .coo) h₁
  obtain ⟨k₂, f₂, kept₂, c₂⟩ := k₁.afterOnlyIf (f := .csr) h₂
  obtain ⟨k₃, f₃, kept₃, c₃⟩ := k₂.afterOnlyIf (f := .csc) h₃
  rw [Formats.within_iff] at kept₂ kept₃
  rw [f₁] at c₂
  rw [f₂, f₁] at c₃
  refine ⟨k₃, by rw [f₃, f₂, f₁], Formats.within_iff.2 fun f hf => ?_,
    Formats.within_iff.2 fun f hf => ?_⟩
  · cases f with
    | coo => exact (c₁ hf).1
    | csr => exact (c₂ hf).1
    | csc => exact (c₃ hf).1
  · cases f with
    | coo => exact kept₃ _ (kept₂ _ (c₁ hf).2)
    | csr => exact kept₃ _ (c₂ hf).2
    | csc => exact (c₃ hf).2

lemma nonzero_of_has {save : Formats} (h : save.has f = true) : save.nonzero = true := by
  cases f <;> simp_all [Formats.has, Formats.nonzero]

lemma nonzero_single (f : SparseFormat) : (single f).nonzero = true := by cases f <;> rfl

/-- The formats of a relation that is restricted to formats that it has. -/
lemma createdFormats_restrict {save : Formats} (h : save.within s.createdFormats = true) :
    (restrict save s).createdFormats = save := by
  obtain ⟨coo, csr, csc⟩ := save
  have hall := Formats.within_iff.1 h
  have hcoo := hall .coo
  have hcsr := hall .csr
  have hcsc := hall .csc
  simp only [Formats.has, Hetero.Stored.createdFormats] at hcoo hcsr hcsc
  simp only [restrict, Hetero.Stored.createdFormats]
  congr 1
  · cases coo <;> simp_all
  · cases csr <;> simp_all
  · cases csc <;> simp_all

lemma Keeps.restricted (h : Keeps E n a b bits s) (save : Formats) :
    Keeps E n a b bits (restrict save s) := by
  have hsub {α : Type} {wanted : Bool} {o : Option α} {m : α}
      (hm : (if wanted then o else none) = some m) : o = some m := by
    split_ifs at hm
    exact hm
  exact ⟨⟨h.lists.numVTypes, fun m hm => h.lists.inCsr m (hsub hm), fun m hm => h.lists.outCsr m (hsub hm),
    fun m hm => h.lists.coo m (hsub hm)⟩, fun m hm => h.bits.inCsr m (hsub hm),
    fun m hm => h.bits.outCsr m (hsub hm), fun m hm => h.bits.coo m (hsub hm)⟩

lemma card_reversed (E : Multiset Entry) : Multiset.card (reversed E) = Multiset.card E :=
  Multiset.card_map _ _

lemma OfCSR.nnz_eq {m : CSRMatrix} (h : OfCSR E m) : m.nnz = Multiset.card E := by
  rw [← h.entries, Multiset.coe_card, h.valid.length_entries]

lemma OfCOO.nnz_eq {m : COOMatrix} (h : OfCOO E m) : m.nnz = Multiset.card E := by
  rw [← h.entries, Multiset.coe_card, COOMatrix.entries, List.length_map, List.length_range]

lemma Sizes.flip {k : ℕ} (h : Sizes bits a b k) : Sizes bits b a k :=
  ⟨h.width, h.cols, h.rows, h.entries, h.cols_lt, h.rows_lt, h.entries_lt⟩

/-- A relation with sizes that fit can be written. -/
lemma Keeps.storable (h : Keeps E n a b bits s) (hn : n = 1 ∨ n = 2)
    (hcreated : s.createdFormats.nonzero = true) (hsizes : Sizes bits a b (Multiset.card E)) :
    UnitStorable s where
  numVTypes := by rwa [h.lists.numVTypes]
  created := hcreated
  coo m hm := by
    have hlist := h.lists.coo m hm
    refine cooStorable hlist.of.valid ?_
    rwa [h.bits.coo m hm, hlist.rows, hlist.cols, OfCOO.nnz_eq hlist.of]
  outCsr m hm := by
    have hlist := h.lists.outCsr m hm
    refine csrStorable hlist.of.valid ?_
    rwa [h.bits.outCsr m hm, hlist.rows, hlist.cols, OfCSR.nnz_eq hlist.of]
  inCsr m hm := by
    have hlist := h.lists.inCsr m hm
    refine csrStorable hlist.of.valid ?_
    rw [h.bits.inCsr m hm, hlist.rows, hlist.cols, OfCSR.nnz_eq hlist.of, card_reversed]
    exact hsizes.flip

/-- **A relation that is saved** has the edges in the formats of the stream, and can be read back. -/
theorem saved_presents {toSave : Formats} {k : Hetero.Stored} (h : s.Presents E n a b)
    (hbits : HasBits bits s)
    (hn : n = 1 ∨ n = 2) (hsizes : Sizes bits a b (Multiset.card E))
    (hk : savedUnit T toSave s = some k) :
    k.Presents E n a b ∧ HasBits bits k ∧ UnitStorable k ∧ k.formats = s.formats ∧
      (toSave.nonzero = true → k.createdFormats = toSave) := by
  rw [savedUnit] at hk
  obtain ⟨s', hs', rfl⟩ := Option.map_eq_some_iff.1 hk
  have hkeeps : Keeps E n a b bits s := ⟨h.toLists, hbits⟩
  obtain ⟨hkeeps', hformats, hwithin, hcreated⟩ := hkeeps.afterPrepare hs'
  have hrestrict := createdFormats_restrict hcreated
  have hall := hkeeps'.restricted (if toSave.nonzero then toSave else single (s.selectFormat .all))
  have hnonzero : (if toSave.nonzero then toSave else single (s.selectFormat .all)).nonzero = true := by
    split_ifs with hto
    · exact hto
    · exact nonzero_single _
  rw [← hrestrict] at hnonzero hwithin
  refine ⟨⟨hall.lists, hnonzero, ?_, h.square⟩, hall.bits, hall.storable hn hnonzero hsizes, hformats,
    fun hto => ?_⟩
  · show (restrict _ s').createdFormats.within s'.formats = true
    rwa [hformats]
  · rw [hrestrict, if_pos hto]

/-! ## When a relation can be saved -/

lemma Keeps.exists_cooToCSR (h : Keeps E n a b bits s) (hsizes : Sizes bits a b (Multiset.card E))
    {m : COOMatrix} (hm : s.coo = some m) :
    (∃ c, m.cooToCSR T = some c) ∧ ∃ c, m.transpose.cooToCSR T = some c := by
  have hvalid := (h.lists.coo m hm).of.valid
  have hfit : noOverflow m.bits m.nnz = true := by
    rw [h.bits.coo m hm, OfCOO.nnz_eq (h.lists.coo m hm).of]
    exact noOverflow_of_lt hsizes.entries
  have hfit' : noOverflow m.transpose.bits m.transpose.nnz = true := by
    rw [COOMatrix.nnz, COOMatrix.transpose, hvalid.col_length]
    exact hfit
  constructor
  · rw [hvalid.cooToCSR_eq T.pos, if_pos hfit]
    exact ⟨_, rfl⟩
  · rw [hvalid.transpose.cooToCSR_eq T.pos, if_pos hfit']
    exact ⟨_, rfl⟩

lemma Keeps.exists_after (h : Keeps E n a b bits s) (hsizes : Sizes bits a b (Multiset.card E))
    (hcreated : s.createdFormats.nonzero = true) (hallowed : s.formats.has f = true) :
    ∃ s', withFormat T f s = some s' := by
  have hsome : ¬(s.coo = none ∧ s.outCsr = none ∧ s.inCsr = none) := by
    rintro ⟨hcoo, hout, hin⟩
    simp [Hetero.Stored.createdFormats, Formats.nonzero, hcoo, hin, hout] at hcreated
  cases f with
  | coo =>
      simp only [withFormat, withCOO, if_pos (show s.formats.coo = true from hallowed),
        Hetero.Stored.cooMatrix]
      cases hcoo : s.coo <;> cases hin : s.inCsr <;> cases hout : s.outCsr <;> simp_all
  | csr =>
      simp only [withFormat, withOutCSR, if_pos (show s.formats.csr = true from hallowed),
        Hetero.Stored.csrMatrix]
      cases hout : s.outCsr with
      | some m => exact ⟨_, rfl⟩
      | none =>
          cases hcoo : s.coo with
          | some m =>
              obtain ⟨c, hc⟩ := (h.exists_cooToCSR hsizes hcoo).1
              exact ⟨_, congrArg (Option.map _) hc⟩
          | none => cases hin : s.inCsr <;> simp_all
  | csc =>
      simp only [withFormat, withInCSR, if_pos (show s.formats.csc = true from hallowed),
        Hetero.Stored.cscMatrix]
      cases hin : s.inCsr with
      | some m => exact ⟨_, rfl⟩
      | none =>
          cases hcoo : s.coo with
          | some m =>
              obtain ⟨c, hc⟩ := (h.exists_cooToCSR hsizes hcoo).2
              exact ⟨_, congrArg (Option.map _) hc⟩
          | none => cases hout : s.outCsr <;> simp_all

lemma Keeps.exists_onlyIf (h : Keeps E n a b bits s) (hsizes : Sizes bits a b (Multiset.card E))
    (hcreated : s.createdFormats.nonzero = true) (hallowed : wanted = true → s.formats.has f = true) :
    ∃ s', onlyIf wanted (withFormat T f) s = some s' ∧ Keeps E n a b bits s' ∧
      s'.createdFormats.nonzero = true ∧ s'.formats = s.formats := by
  rw [onlyIf]
  split_ifs with hwanted
  · obtain ⟨s', hs'⟩ := h.exists_after (T := T) hsizes hcreated (hallowed hwanted)
    obtain ⟨k, hf, -, hhas, -⟩ := h.after hs'
    exact ⟨s', hs', k, nonzero_of_has hhas, hf⟩
  · exact ⟨s, rfl, h, hcreated, rfl⟩

/-- The formats that are allowed can be made. -/
lemma Keeps.exists_prepare {save : Formats} (h : Keeps E n a b bits s)
    (hsizes : Sizes bits a b (Multiset.card E)) (hcreated : s.createdFormats.nonzero = true)
    (hsave : save.within s.formats = true) : ∃ s', prepare T save s = some s' := by
  have hallowed := Formats.within_iff.1 hsave
  obtain ⟨s₁, h₁, k₁, hc₁, f₁⟩ := h.exists_onlyIf (T := T) hsizes hcreated (hallowed .coo)
  obtain ⟨s₂, h₂, k₂, hc₂, f₂⟩ := k₁.exists_onlyIf (T := T) hsizes hc₁ (f₁ ▸ hallowed .csr)
  obtain ⟨s₃, h₃, -⟩ := k₂.exists_onlyIf (T := T) hsizes hc₂ (f₂ ▸ f₁ ▸ hallowed .csc)
  exact ⟨s₃, Option.bind_eq_some_iff.2 ⟨s₁, h₁, Option.bind_eq_some_iff.2 ⟨s₂, h₂, h₃⟩⟩⟩

lemma single_selectFormat_within (hcreated : s.createdFormats.nonzero = true)
    (hwithin : s.createdFormats.within s.formats = true) :
    (single (s.selectFormat .all)).within s.formats = true := by
  have hall := Formats.within_iff.1 hwithin
  have hcommon : Formats.inter .all s.formats = s.formats := by
    simp [Formats.inter, Formats.all]
  have hboth : s.formats.inter s.createdFormats = s.createdFormats := by
    have hcoo := hall .coo
    have hcsr := hall .csr
    have hcsc := hall .csc
    simp only [Formats.has] at hcoo hcsr hcsc
    simp only [Formats.inter, Hetero.Stored.createdFormats] at hcoo hcsr hcsc ⊢
    congr 1 <;> grind
  have hselect : s.formats.has (s.selectFormat .all) = true := by
    rw [Hetero.Stored.selectFormat]
    simp only [hcommon, hboth, hcreated, if_true]
    exact hall _ (Formats.has_decode hcreated)
  refine Formats.within_iff.2 fun f hf => ?_
  have heq : f = s.selectFormat .all := by
    revert hf
    cases s.selectFormat .all <;> cases f <;> simp [single, Formats.has]
  rwa [heq]

/-- **A relation can be saved** exactly in the formats that it may have. -/
theorem savedUnit_isSome_iff {toSave : Formats} (h : s.Presents E n a b) (hbits : HasBits bits s)
    (hsizes : Sizes bits a b (Multiset.card E)) :
    (savedUnit T toSave s).isSome = true ↔ toSave.within s.formats = true := by
  have hkeeps : Keeps E n a b bits s := ⟨h.toLists, hbits⟩
  rw [savedUnit]
  simp only [Option.isSome_map]
  by_cases hto : toSave.nonzero = true
  · rw [if_pos hto]
    constructor
    · intro hsome
      obtain ⟨s', hs'⟩ := Option.isSome_iff_exists.1 hsome
      exact (hkeeps.afterPrepare hs').2.2.1
    · intro hwithin
      obtain ⟨s', hs'⟩ := hkeeps.exists_prepare (T := T) hsizes h.created hwithin
      rw [hs']
      rfl
  · rw [if_neg hto]
    have hnone : toSave.within s.formats = true := by
      obtain ⟨coo, csr, csc⟩ := toSave
      cases coo <;> cases csr <;> cases csc <;> simp_all [Formats.nonzero, Formats.within]
    obtain ⟨s', hs'⟩ := hkeeps.exists_prepare (T := T) hsizes h.created
      (single_selectFormat_within h.created h.within)
    rw [hs']
    exact iff_of_true rfl hnone

end Prepare

end DglAscend.Serialize
