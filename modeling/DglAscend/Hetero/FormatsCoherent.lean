import DglAscend.Hetero.Isolation

/-!
# Coherent formats

The formats of a graph show the same edges under the same ids in every run.  What the code does not
keep apart are the missing formats: the graph that `Reverse` makes may create every format, and the
CSR format that it creates is the CSC object of the original graph.
-/

namespace DglAscend.Hetero

open Aten

variable {T : ℕ+}

/-- The edges that a format shows, from sources to destinations. -/
def UnitGraph.edgesIn (h : Heap) (g : UnitGraph) : SparseFormat → Option (List Entry)
  | .coo => (h.coo g.coo).map COOMatrix.entries
  | .csr => (h.csr g.outCsr).map CSRMatrix.entries
  | .csc => (h.csr g.inCsr).map fun m => m.entries.map .swap

/-- All formats at hand show the same edges, and the ids are those of the edges. -/
def UnitGraph.Coherent (h : Heap) (g : UnitGraph) : Prop :=
  ∃ E, Numbered E ∧ ∀ f es, g.edgesIn h f = some es → (es : Multiset Entry) = E

lemma Describes.coherent {γ : Ghost} {h : Heap} {g : UnitGraph} {E : Multiset Entry}
    (hc : Cells γ h) (hg : Describes γ h g E) : g.Coherent h := by
  have hhas := hg.has hc
  refine ⟨E, hg.numbered, fun f es hes => ?_⟩
  cases f with
  | coo =>
      obtain ⟨m, hm, rfl⟩ := Option.map_eq_some_iff.1 hes
      exact (hhas.coo m hm).entries
  | csr =>
      obtain ⟨m, hm, rfl⟩ := Option.map_eq_some_iff.1 hes
      exact (hhas.outCsr m hm).entries
  | csc =>
      obtain ⟨m, hm, rfl⟩ := Option.map_eq_some_iff.1 hes
      have hrev := congrArg reversed (hhas.inCsr m hm).entries
      rwa [reversed_reversed, reversed, Multiset.map_coe] at hrev

namespace World

/-- All graphs are coherent and have allowed formats only. -/
def Ok (w : World) : Prop :=
  ∀ g ∈ w.graphs, g.Coherent w.heap ∧ (g.stored w.heap).createdFormats.within g.formats = true

/-- No call adds a format to a graph that it is not made on. -/
def Isolated (T : ℕ+) (w : World) (op : Op) : Prop :=
  ∀ (j : ℕ) (g : UnitGraph), w.graphs[j]? = some g → target op ≠ some j →
    (g.stored (w.step T op).heap).createdFormats = (g.stored w.heap).createdFormats

lemma Inv.ok {w : World} (hw : w.Inv) : w.Ok := by
  obtain ⟨γ, hc, hgs⟩ := hw
  intro g hg
  obtain ⟨E, hd⟩ := hgs g hg
  exact ⟨hd.coherent hc, hd.within⟩

lemma SharesCreated.allowed {w : World} {op : Op} (h : w.SharesCreated op) : w.SharesAllowed op := by
  cases op with
  | reverse i => exact fun g hg => ⟨Or.inl (h g hg).1, Or.inl (h g hg).2⟩
  | _ => trivial

lemma Reachable.apart {w : World} (hw : Reachable T SharesCreated w) : w.Inv ∧ w.Apart := by
  induction hw with
  | empty => exact ⟨inv_empty, fun _ _ _ _ hi => nomatch hi⟩
  | step _ hop hshare ih =>
      exact ⟨ih.1.step hop hshare.allowed, (step_effect _ hshare).apart ih.1 ih.2⟩

lemma Inv.isolated {w : World} (hw : w.Inv) (ha : w.Apart) {op : Op} (hshare : w.SharesCreated op) :
    w.Isolated T op := by
  intro j g hj hne
  obtain ⟨hcsr, hcoo⟩ := (step_effect (T := T) w hshare).kept hw ha hj hne
  have hin := hcsr g.inCsr List.mem_cons_self
  have hout := hcsr g.outCsr (List.mem_cons_of_mem _ List.mem_cons_self)
  simp only [UnitGraph.stored, Stored.createdFormats, hin, hout, hcoo]

/-- **Coherent formats**: in every run that hands on allowed objects only, every graph shows the
same edges in every format and has allowed formats only; if the run hands on filled objects only, no
call adds a format to another graph. -/
theorem formats_coherent (w : World) (hw : Reachable T SharesAllowed w) :
    w.Ok ∧ (Reachable T SharesCreated w →
      ∀ op : Op, op.Valid → w.SharesCreated op → w.Isolated T op) :=
  ⟨hw.inv.ok, fun hw' _ _ hshare => hw'.apart.1.isolated hw'.apart.2 hshare⟩

/-! ## Handing on a placeholder -/

/-! ## An edge from 0 to 1 -/

/-- The graph is made from COO, its CSR and CSC are created, and it is reversed. -/
def reversedOnce : World :=
  (((empty.step 1 (.createFromCOO 1 oneEdge .all)).step 1 (.getFormat 0 .csr)).step 1
    (.getFormat 0 .csc)).step 1 (.reverse 0)

theorem formats_coherent_oneEdge : reversedOnce.Ok ∧
    ∀ op : Op, op.Valid → reversedOnce.SharesCreated op → reversedOnce.Isolated 1 op := by
  have hmade (P : World → Op → Prop) (hP : ∀ w op, (∀ i, op ≠ .reverse i) → P w op)
      (hrev : P (((empty.step 1 (.createFromCOO 1 oneEdge .all)).step 1 (.getFormat 0 .csr)).step 1
        (.getFormat 0 .csc)) (.reverse 0)) : Reachable 1 P reversedOnce := by
    have hcoo : Reachable 1 P (empty.step 1 (.createFromCOO 1 oneEdge .all)) :=
      Reachable.empty.step oneEdge_valid (hP _ _ nofun)
    have hcsr : Reachable 1 P (World.step 1 _ (.getFormat 0 .csr)) := hcoo.step trivial (hP _ _ nofun)
    have hcsc : Reachable 1 P (World.step 1 _ (.getFormat 0 .csc)) := hcsr.step trivial (hP _ _ nofun)
    exact hcsc.step trivial hrev
  have hallowed : Reachable 1 SharesAllowed reversedOnce := by
    apply hmade
    · intro w op hop
      cases op with
      | reverse i => exact absurd rfl (hop i)
      | _ => trivial
    · intro g hg
      obtain rfl := Option.some.inj hg
      exact ⟨Or.inr rfl, Or.inr rfl⟩
  have hcreated : Reachable 1 SharesCreated reversedOnce := by
    apply hmade
    · intro w op hop
      cases op with
      | reverse i => exact absurd rfl (hop i)
      | _ => trivial
    · intro g hg
      obtain rfl := Option.some.inj hg
      exact ⟨rfl, rfl⟩
  obtain ⟨hok, hisolated⟩ := formats_coherent reversedOnce hallowed
  exact ⟨hok, hisolated hcreated⟩

/-- The graph may not have CSC; its reverse creates CSR. -/
def reversedCooCsr : World :=
  ((empty.step 1 (.createFromCOO 1 oneEdge ⟨true, true, false⟩)).step 1 (.reverse 0)).step 1
    (.getFormat 1 .csr)

theorem reversedCooCsr_not_within :
    Reachable 1 (fun _ _ => True) reversedCooCsr ∧ ¬ reversedCooCsr.Ok := by
  constructor
  · have hmade : Reachable 1 (fun _ _ => True)
        (empty.step 1 (.createFromCOO 1 oneEdge ⟨true, true, false⟩)) :=
      Reachable.empty.step oneEdge_valid trivial
    have hrev : Reachable 1 (fun _ _ => True) (World.step 1 _ (.reverse 0)) :=
      hmade.step trivial trivial
    exact hrev.step trivial trivial
  · intro hok
    have hmem : (⟨1, 0, 1, 0, ⟨true, true, false⟩⟩ : UnitGraph) ∈ reversedCooCsr.graphs := by decide
    have hwithin := (hok _ hmem).2
    revert hwithin
    decide

end World

end DglAscend.Hetero
