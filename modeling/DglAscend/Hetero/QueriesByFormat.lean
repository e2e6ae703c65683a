import DglAscend.Hetero.CooAnswers

/-!
# Queries in any format

When a query on a restricted graph returns what the edge list says.  A format that cannot serve a
query has to raise an error; some of them return an answer with sources and destinations exchanged.
-/

namespace DglAscend.Hetero

open Aten

variable {E : Multiset Entry} {a b : ℕ} {s : Stored} {host : Host} {fmt : SparseFormat} {adj : Adj}

/-- The call returns the right answer, or a check stops it. -/
def Answered (E : Multiset Entry) (n a b : ℕ) (q : Query) : Except Fault (Answer Stored) → Prop
  | .ok ans => Correct E n a b q ans
  | .error .raised => True
  | .error .outOfBounds => False

/-- The place that an edge has in the subgraph of some sources and destinations. -/
def subPlace (srcs dsts : List ℕ) (e : Entry) : Option (ℕ × ℕ) :=
  if e.1 ∈ srcs ∧ e.2.1 ∈ dsts then some (srcs.idxOf e.1, dsts.idxOf e.2.1) else none

/-- When a format serves a query on the edges `E` with `n` vertex types and `b` destinations. -/
def ServedBy (E : Multiset Entry) (n b : ℕ) (fmt : SparseFormat) : Query → Prop
  | .predecessors _ => fmt ≠ .csr
  | .successors u =>
      fmt = .csc → b ≤ u ∨ (into E u).map Prod.fst = (outOf E u).map fun e => e.2.1
  | .outEdges u => fmt = .csc → b ≤ u ∨ ∀ e ∈ E, e.1 = u ∨ e.2.1 = u → e.1 = e.2.1
  | .inEdgesOf vs => fmt = .coo → ∀ e ∈ E, e.2.1 ∈ vs → UniqueIn vs e.2.1
  | .outEdgesOf us =>
      (fmt = .coo → ∀ e ∈ E, e.1 ∈ us → UniqueIn us e.1) ∧
        (fmt = .csc → (∃ u ∈ us, b ≤ u) ∨ ∀ e ∈ E, e.1 ∈ us ∨ e.2.1 ∈ us → e.1 = e.2.1)
  | .edges order =>
      order = "srcdst" → fmt = .csc →
        ∀ e ∈ E, ∀ e' ∈ E, SrcDstLE e.swap e'.swap → SrcDstLE e e'
  | .vertexSubgraph vids =>
      let srcs := vids.getD 0 []
      let dsts := dstVids n vids
      fmt = .csc → (∃ u ∈ srcs, b ≤ u) ∨
        (srcs.length = dsts.length ∧
          ∀ e ∈ E, subPlace srcs dsts e.swap = (subPlace srcs dsts e).map Prod.swap)
  | _ => True

/-- The object of a format shows the edges of the list. -/
def ShownBy (E : Multiset Entry) (a b : ℕ) (fmt : SparseFormat) (adj : Adj) : Prop :=
  (fmt = .coo ∧ ∃ m, adj = .coo m ∧ ListsCOO E a b m) ∨
    (fmt = .csr ∧ ∃ m, adj = .csr m ∧ ListsCSR E a b m) ∨
    (fmt = .csc ∧ ∃ m, adj = .csr m ∧ ListsCSR (reversed E) b a m)

/-- The arrays of an answer are those of one list of edges. -/
lemma exists_ofEntries_iff {es : List Entry} {P : List Entry → Prop} :
    (∃ es', EdgeArray.ofEntries es = .ofEntries es' ∧ P es') ↔ P es := by
  constructor
  · rintro ⟨es', harr, hes'⟩
    obtain ⟨h1, h2, h3⟩ := EdgeArray.mk.inj harr
    have hlen : es.length = es'.length := by simpa using congrArg List.length h1
    have heq : es = es' := by
      apply List.ext_getElem hlen
      intro i hi hi'
      have h1 := congrArg (fun l => l[i]?) h1
      have h2 := congrArg (fun l => l[i]?) h2
      have h3 := congrArg (fun l => l[i]?) h3
      simp only [List.getElem?_map, List.getElem?_eq_getElem hi, List.getElem?_eq_getElem hi',
        Option.map_some, Option.some.injEq] at h1 h2 h3
      exact Prod.ext h1 (Prod.ext h2 h3)
    rwa [heq]
  · exact fun h => ⟨es, rfl, h⟩

/-! ## Exchanged answers -/

variable {us vs : List ℕ} {e : Entry}

lemma mem_sum_outOf : e ∈ (us.map (outOf E)).sum ↔ e ∈ E ∧ e.1 ∈ us := by
  rw [← Multiset.count_pos, count_sum_outOf, CanonicallyOrderedAdd.mul_pos, List.count_pos_iff,
    Multiset.count_pos]
  exact and_comm

lemma sum_into (vs : List ℕ) :
    (vs.map (into E)).sum = reversed ((vs.map (outOf (reversed E))).sum) := by
  have hout : outOf (reversed E) = fun v => reversed (into E v) := funext outOf_reversed
  rw [hout, sum_reversed, reversed_reversed]

lemma mem_reversed : e ∈ reversed E ↔ e.swap ∈ E := by
  rw [reversed, Multiset.mem_map]
  constructor
  · rintro ⟨e', he', rfl⟩
    exact he'
  · exact fun he => ⟨e.swap, he, rfl⟩

lemma mem_sum_into : e ∈ (vs.map (into E)).sum ↔ e ∈ E ∧ e.2.1 ∈ vs := by
  rw [sum_into, mem_reversed, mem_sum_outOf, mem_reversed]
  rfl

lemma eq_of_swap_eq (h : e.swap = e) : e.1 = e.2.1 := congrArg (fun e => e.2.1) h

/-- The exchanged edges into some vertices are those out of them only if all are loops. -/
lemma reversed_sum_into_eq_iff (hE : Numbered E) (us : List ℕ) :
    reversed (us.map (into E)).sum = (us.map (outOf E)).sum ↔
      ∀ e ∈ E, e.1 ∈ us ∨ e.2.1 ∈ us → e.1 = e.2.1 := by
  constructor
  · rintro heq e he (hu | hu)
    · have hmem : e ∈ reversed (us.map (into E)).sum := by
        rw [heq]
        exact mem_sum_outOf.2 ⟨he, hu⟩
      have hswap := (mem_sum_into.1 (mem_reversed.1 hmem)).1
      exact eq_of_swap_eq (hE.eq_of_id hswap he rfl)
    · have hmem : e.swap ∈ (us.map (outOf E)).sum := by
        rw [← heq]
        exact mem_reversed.2 (mem_sum_into.2 ⟨he, hu⟩)
      have hswap := (mem_sum_outOf.1 hmem).1
      exact eq_of_swap_eq (hE.eq_of_id hswap he rfl)
  · intro hloop
    rw [← sum_reversed]
    congr 1
    apply List.map_congr_left
    intro u hu
    have hinto : into E u = outOf E u := by
      apply Multiset.filter_congr
      intro e he
      constructor
      · intro heu
        exact (hloop e he (Or.inr (heu ▸ hu))).trans heu
      · intro heu
        exact (hloop e he (Or.inl (heu ▸ hu))).symm.trans heu
    rw [hinto, reversed]
    conv_rhs => rw [← Multiset.map_id (outOf E u)]
    apply Multiset.map_congr rfl
    intro e he
    obtain ⟨he, heu⟩ := Multiset.mem_filter.1 he
    have hends := hloop e he (Or.inl (heu ▸ hu))
    show (e.2.1, e.1, e.2.2) = e
    rw [← hends]
    exact Prod.ext rfl (Prod.ext hends rfl)

/-- The edges sorted by destinations are sorted by sources. -/
lemma pairwise_swap_iff {es : List Entry} (hes : (es : Multiset Entry) = reversed E)
    (hsorted : es.Pairwise SrcDstLE) :
    (es.map .swap).Pairwise SrcDstLE ↔
      ∀ e ∈ E, ∀ e' ∈ E, SrcDstLE e.swap e'.swap → SrcDstLE e e' := by
  have hmem {e : Entry} : e ∈ es ↔ e.swap ∈ E := by
    rw [← Multiset.mem_coe, hes, mem_reversed]
  rw [List.pairwise_map]
  constructor
  · intro h e he e' he' hle
    obtain ⟨i, hi, hxi⟩ := List.mem_iff_getElem.1 (hmem.2 (show e.swap.swap ∈ E from he))
    obtain ⟨j, hj, hxj⟩ := List.mem_iff_getElem.1 (hmem.2 (show e'.swap.swap ∈ E from he'))
    rcases Nat.lt_trichotomy i j with hij | rfl | hij
    · have hle' := List.pairwise_iff_getElem.1 h i j hi hj hij
      rwa [hxi, hxj] at hle'
    · have hee : e.swap = e'.swap := hxi.symm.trans hxj
      have hee : e = e' := congrArg Entry.swap hee
      rw [hee]
      exact Or.inr ⟨rfl, le_rfl⟩
    · -- The two are in the other order, so they have the same end points.
      have hge := List.pairwise_iff_getElem.1 hsorted j i hj hi hij
      rw [hxi, hxj] at hge
      simp only [SrcDstLE, Entry.swap] at hle hge ⊢
      omega
  · intro h
    apply List.Pairwise.imp_of_mem _ hsorted
    intro e e' he he' hle
    exact h e.swap (hmem.1 he) e'.swap (hmem.1 he') hle

/-! ## Subgraphs -/

lemma packCOO_shaped {n : ℕ} {sub : COOMatrix} (hrows : sub.numRows = a) (hcols : sub.numCols = b) :
    (Stored.pack n .coo (.coo sub)).Shaped a b := by
  refine ⟨nofun, nofun, fun m hm => ?_⟩
  obtain rfl := Option.some.inj hm
  exact ⟨hrows, hcols⟩

lemma packCOO_picks {n : ℕ} {sub : COOMatrix} {src dst : ℕ → ℕ} {ids : List ℕ}
    {picked : Multiset Entry} (hof : OfCOO (sub.entries : Multiset Entry) sub)
    (hpicked : (sub.entries : Multiset Entry).map (named src dst ids) = picked) :
    PicksOut (Stored.pack n .coo (.coo sub)) src dst ids picked := by
  refine ⟨rfl, _, ⟨nofun, nofun, fun m hm => ?_⟩, hpicked⟩
  obtain rfl := Option.some.inj hm
  exact hof

section Exchanged

variable {srcs dsts ids : List ℕ} {E' : Multiset Entry}

lemma subPlace_some_iff {p : ℕ × ℕ} : subPlace srcs dsts e = some p ↔
      (e.1 ∈ srcs ∧ e.2.1 ∈ dsts) ∧ (srcs.idxOf e.1, dsts.idxOf e.2.1) = p := by
  rw [subPlace]
  split
  · rename_i h
    simp [h]
  · rename_i h
    simp [h]

lemma subPlace_isSome (e : Entry) :
    (subPlace srcs dsts e).isSome = true ↔ e.1 ∈ srcs ∧ e.2.1 ∈ dsts := by
  rw [subPlace]
  split
  · rename_i h
    simp [h]
  · rename_i h
    simp [h]

/-- A place of the subgraph and the edge of the graph there. -/
lemma subPlace_named (hsrcs : srcs.Nodup) (hdsts : dsts.Nodup) (hr : e.1 < srcs.length)
    (hc : e.2.1 < dsts.length) :
    subPlace srcs dsts (named (srcs.getD · 0) (dsts.getD · 0) ids e) = some (e.1, e.2.1) := by
  rw [subPlace_some_iff]
  have hget {l : List ℕ} (hl : l.Nodup) {i : ℕ} (hi : i < l.length) :
      l.getD i 0 ∈ l ∧ l.idxOf (l.getD i 0) = i := by
    rw [List.getD_eq_getElem _ _ hi]
    exact ⟨List.getElem_mem hi, hl.idxOf_getElem i hi⟩
  obtain ⟨hmem, hidx⟩ := hget hsrcs hr
  obtain ⟨hmem', hidx'⟩ := hget hdsts hc
  exact ⟨⟨hmem, hmem'⟩, Prod.ext hidx hidx'⟩

lemma named_of_subPlace {p : ℕ × ℕ} (h : subPlace srcs dsts e = some p) (k : ℕ) :
    named (srcs.getD · 0) (dsts.getD · 0) ids (p.1, p.2, k) = (e.1, e.2.1, ids.getD k 0) := by
  obtain ⟨⟨hr, hc⟩, rfl⟩ := subPlace_some_iff.1 h
  have hget {l : List ℕ} {x : ℕ} (hx : x ∈ l) : l.getD (l.idxOf x) 0 = x := by
    rw [List.getD_eq_getElem _ _ (List.idxOf_lt_length_iff.2 hx)]
    exact List.getElem_idxOf _
  exact Prod.ext (hget hr) (Prod.ext (hget hc) rfl)

/-- What a CSC object picks out for the sources and destinations of a subgraph: rows and columns are
exchanged. -/
lemma exchanged_iff (hE : Numbered E) (hsrcs : srcs.Nodup) (hdsts : dsts.Nodup)
    (hlt : ∀ e ∈ E', e.1 < srcs.length ∧ e.2.1 < dsts.length)
    (hpicked : E'.map (named (srcs.getD · 0) (dsts.getD · 0) ids) =
      (reversed E).filter fun e => e.1 ∈ srcs ∧ e.2.1 ∈ dsts) (hlen : srcs.length = dsts.length) :
    (reversed E').map (named (srcs.getD · 0) (dsts.getD · 0) ids) =
        (E.filter fun e => e.1 ∈ srcs ∧ e.2.1 ∈ dsts) ↔
      ∀ e ∈ E, subPlace srcs dsts e.swap = (subPlace srcs dsts e).map Prod.swap := by
  let name : Entry → Entry := named (srcs.getD · 0) (dsts.getD · 0) ids
  -- An edge of the result comes from the edge that has its id.
  have horigin {e' : Entry} (he' : e' ∈ E') : (name e').swap ∈ E := by
    have hin : name e' ∈ (reversed E).filter fun e => e.1 ∈ srcs ∧ e.2.1 ∈ dsts := by
      rw [← hpicked]
      exact Multiset.mem_map_of_mem _ he'
    exact mem_reversed.1 (Multiset.mem_filter.1 hin).1
  have hplace {e' : Entry} (he' : e' ∈ E') : subPlace srcs dsts (name e') = some (e'.1, e'.2.1) :=
    subPlace_named hsrcs hdsts (hlt e' he').1 (hlt e' he').2
  constructor
  · intro heq
    have hexchanged {e' : Entry} (he' : e' ∈ E') : name e'.swap ∈ E := by
      have hin : name e'.swap ∈ E.filter fun e => e.1 ∈ srcs ∧ e.2.1 ∈ dsts := by
        rw [← heq]
        exact Multiset.mem_map_of_mem _ (mem_reversed.2 he')
      exact (Multiset.mem_filter.1 hin).1
    -- Both names of an edge of the result have the same id.
    have hsame {e' : Entry} (he' : e' ∈ E') : name e'.swap = (name e').swap :=
      hE.eq_of_id (hexchanged he') (horigin he') rfl
    have hswapped {e' : Entry} (he' : e' ∈ E') :
        subPlace srcs dsts (name e') = (subPlace srcs dsts (name e').swap).map Prod.swap := by
      obtain ⟨hr, hc⟩ := hlt e' he'
      rw [hplace he', ← hsame he',
        subPlace_named hsrcs hdsts (show e'.swap.1 < srcs.length from hlen ▸ hc)
          (show e'.swap.2.1 < dsts.length from hlen ▸ hr)]
      rfl
    intro e he
    by_cases hin : e.2.1 ∈ srcs ∧ e.1 ∈ dsts
    · have hmem : e.swap ∈ E'.map name := by
        rw [hpicked]
        exact Multiset.mem_filter.2 ⟨mem_reversed.2 he, hin⟩
      obtain ⟨e', he', hname⟩ := Multiset.mem_map.1 hmem
      have hplaced := hswapped he'
      rwa [hname] at hplaced
    · by_cases hout : e.1 ∈ srcs ∧ e.2.1 ∈ dsts
      · have hmem : e ∈ (reversed E').map name := by
          rw [heq]
          exact Multiset.mem_filter.2 ⟨he, hout⟩
        obtain ⟨e', he', hname⟩ := Multiset.mem_map.1 hmem
        have hplaced := hswapped (mem_reversed.1 he')
        have hback := hsame (mem_reversed.1 he')
        rw [swap_swap, hname] at hback
        rw [← hback] at hplaced
        have hname' : name e'.swap = e.swap := by
          rw [hback]
          rfl
        rwa [hname'] at hplaced
      · have hnone : subPlace srcs dsts e.swap = none := if_neg hin
        have hnone' : subPlace srcs dsts e = none := if_neg hout
        rw [hnone, hnone']
        rfl
  · intro hall
    have hsame {e' : Entry} (he' : e' ∈ E') : name e'.swap = (name e').swap := by
      have hplaced := hall _ (horigin he')
      rw [swap_swap, hplace he'] at hplaced
      obtain ⟨p, hp, hswap⟩ := Option.map_eq_some_iff.1 hplaced.symm
      obtain rfl : p = (e'.2.1, e'.1) := by
        rw [← Prod.swap_swap p, hswap]
        rfl
      exact named_of_subPlace hp e'.2.2
    have hreversed : (reversed E').map name = reversed (E'.map name) := by
      rw [reversed, reversed, Multiset.map_map, Multiset.map_map]
      exact Multiset.map_congr rfl fun e' he' => hsame he'
    show (reversed E').map name = _
    rw [hreversed]
    show reversed (E'.map (named (srcs.getD · 0) (dsts.getD · 0) ids)) = _
    rw [hpicked, reversed, reversed, Multiset.filter_map, Multiset.map_map]
    rw [show Entry.swap ∘ Entry.swap = id from rfl, Multiset.map_id]
    apply Multiset.filter_congr
    intro e he
    have hiff := congrArg Option.isSome (hall e he)
    rw [Option.isSome_map, Bool.eq_iff_iff, subPlace_isSome, subPlace_isSome] at hiff
    exact hiff

end Exchanged

/-! ## Each query -/

lemma CSR.ask_vertexSubgraph (host : Host) {n : ℕ} {m sub : CSRMatrix} {vids : List (List ℕ)}
    (hlen : vids.length = n)
    (hsub : m.sliceMatrix (vids.getD 0 []) (dstVids n vids) = .ok sub) :
    CSR.ask host n m (.vertexSubgraph vids) =
      .ok (.subgraph (.csr { sub with data := List.range sub.data.length }) vids sub.data) := by
  show CSR.vertexSubgraph n m vids = _
  rw [CSR.vertexSubgraph, if_neg (not_not.2 hlen), hsub]
  rfl

/-- A query that goes to the stored matrix as it is. -/
lemma dispatch_coo {m : COOMatrix} {q : Query} {answer : Answer Adj}
    (hq : s.dispatch host .coo (.coo m) q =
      (COO.ask host s.numVTypes m q).map (.mapGraph (Stored.pack s.numVTypes .coo)))
    (hask : COO.ask host s.numVTypes m q = .ok answer) :
    s.dispatch host .coo (.coo m) q = .ok (answer.mapGraph (Stored.pack s.numVTypes .coo)) := by
  rw [hq, hask]
  rfl

lemma dispatch_csr {m : CSRMatrix} {q q' : Query} {answer : Answer Adj}
    (hq : s.dispatch host fmt (.csr m) q =
      (CSR.ask host s.numVTypes m q').map (.mapGraph (Stored.pack s.numVTypes fmt)))
    (hask : CSR.ask host s.numVTypes m q' = .ok answer) :
    s.dispatch host fmt (.csr m) q = .ok (answer.mapGraph (Stored.pack s.numVTypes fmt)) := by
  rw [hq, hask]
  rfl

section Queries

variable (hadj : ShownBy E a b fmt adj)
include hadj

lemma hasEdgesBetween_answered (hq : (Query.hasEdgesBetween us vs).Valid E s.numVTypes a b) :
    Answered E s.numVTypes a b (.hasEdgesBetween us vs)
      (s.dispatch host fmt adj (.hasEdgesBetween us vs)) := by
  obtain ⟨hfits, hus, hvs⟩ := hq
  rcases hadj with ⟨rfl, m, rfl, h⟩ | ⟨rfl, m, rfl, h⟩ | ⟨rfl, m, rfl, h⟩
  · obtain ⟨xs, hask, hxs⟩ := h.hasEdges s.numVTypes host hfits hus hvs
    rw [dispatch_coo rfl hask]
    exact hxs
  · obtain ⟨xs, hask, hxs⟩ := h.hasEdges s.numVTypes host hfits hus
    rw [dispatch_csr rfl hask]
    exact hxs
  · rw [← readsWithin_swap] at hfits
    obtain ⟨xs, hask, hxs⟩ := h.hasEdges s.numVTypes host hfits hvs
    show Answered _ _ _ _ _ ((CSR.ask host s.numVTypes m (.hasEdgesBetween vs us)).map _)
    rw [hask]
    rw [broadcast_swap, List.forall₂_map_left_iff] at hxs
    refine hxs.imp fun p x hx => ?_
    rw [hx, reversed]
    simp only [Multiset.mem_map, Prod.fst_swap, Prod.snd_swap]
    constructor
    · rintro ⟨_, ⟨e, he, rfl⟩, h1, h2⟩
      exact ⟨e, he, h2, h1⟩
    · rintro ⟨e, he, h1, h2⟩
      exact ⟨e.swap, ⟨e, he, rfl⟩, h2, h1⟩

variable {u v : ℕ}

lemma predecessors_answered (hsquare : s.numVTypes = 1 → a = b) (hv : v < b) :
    Answered E s.numVTypes a b (.predecessors v) (s.dispatch host fmt adj (.predecessors v)) ↔
      fmt ≠ .csr := by
  rcases hadj with ⟨rfl, m, rfl, h⟩ | ⟨rfl, m, rfl, h⟩ | ⟨rfl, m, rfl, h⟩
  · obtain ⟨xs, hask, hxs⟩ := h.predecessors s.numVTypes host hsquare hv
    rw [dispatch_coo rfl hask]
    exact iff_of_true hxs (by decide)
  · exact iff_of_false (fun h => h) (fun h => h rfl)
  · obtain ⟨xs, hask, hxs⟩ := h.successors s.numVTypes host hv
    rw [dispatch_csr rfl hask]
    rw [outOf_reversed, reversed, Multiset.map_map] at hxs
    exact iff_of_true hxs (by decide)

lemma successors_answered (hu : u < a) :
    Answered E s.numVTypes a b (.successors u) (s.dispatch host fmt adj (.successors u)) ↔
      (fmt = .csc → b ≤ u ∨ (into E u).map Prod.fst = (outOf E u).map fun e => e.2.1) := by
  rcases hadj with ⟨rfl, m, rfl, h⟩ | ⟨rfl, m, rfl, h⟩ | ⟨rfl, m, rfl, h⟩
  · obtain ⟨xs, hask, hxs⟩ := h.successors s.numVTypes host hu
    rw [dispatch_coo rfl hask]
    exact iff_of_true hxs nofun
  · obtain ⟨xs, hask, hxs⟩ := h.successors s.numVTypes host hu
    rw [dispatch_csr rfl hask]
    exact iff_of_true hxs nofun
  · show Answered _ _ _ _ _ ((CSR.ask host s.numVTypes m (.successors u)).map _) ↔ _
    by_cases hub : u < b
    · obtain ⟨xs, hask, hxs⟩ := h.successors s.numVTypes host hub
      rw [hask]
      rw [outOf_reversed, reversed, Multiset.map_map] at hxs
      show (xs : Multiset ℕ) = _ ↔ _
      rw [hxs]
      constructor
      · exact fun heq _ => Or.inr heq
      · exact fun hserved => (hserved rfl).resolve_left (by omega)
    · have hask : CSR.ask host s.numVTypes m (.successors u) = .error .raised :=
        if_pos (by rw [h.rows]; omega)
      rw [hask]
      exact iff_of_true trivial fun _ => Or.inl (Nat.le_of_not_lt hub)

lemma edgeId_answered (hsquare : s.numVTypes = 1 → a = b) (hu : u < a) (hv : v < b) :
    Answered E s.numVTypes a b (.edgeId u v) (s.dispatch host fmt adj (.edgeId u v)) := by
  rcases hadj with ⟨rfl, m, rfl, h⟩ | ⟨rfl, m, rfl, h⟩ | ⟨rfl, m, rfl, h⟩
  · obtain ⟨xs, hask, hxs⟩ := h.edgeId s.numVTypes host hsquare hu hv
    rw [dispatch_coo rfl hask]
    exact hxs
  · obtain ⟨xs, hask, hxs⟩ := h.edgeId s.numVTypes host hsquare hu hv
    rw [dispatch_csr rfl hask]
    exact hxs
  · obtain ⟨xs, hask, hxs⟩ := h.edgeId s.numVTypes host (fun hn => (hsquare hn).symm) hv hu
    show Answered _ _ _ _ _ ((CSR.ask host s.numVTypes m (.edgeId v u)).map _)
    rw [hask]
    rw [show (v, u) = (u, v).swap from rfl, between_reversed, reversed, Multiset.map_map] at hxs
    exact hxs

lemma edgeIdsAll_answered (hq : (Query.edgeIdsAll us vs).Valid E s.numVTypes a b) :
    Answered E s.numVTypes a b (.edgeIdsAll us vs) (s.dispatch host fmt adj (.edgeIdsAll us vs)) := by
  obtain ⟨hfits, hus, hvs⟩ := hq
  rcases hadj with ⟨rfl, m, rfl, h⟩ | ⟨rfl, m, rfl, h⟩ | ⟨rfl, m, rfl, h⟩
  · obtain ⟨found, hask, hfound⟩ := h.edgeIdsAll host.multimap hfits hus hvs
    show Answered _ _ _ _ _ (((m.getDataAndIndices host.multimap us vs).map _).map _)
    rw [hask]
    exact ⟨found, rfl, hfound⟩
  · obtain ⟨found, hask, hfound⟩ := h.edgeIdsAll hfits hus hvs
    show Answered _ _ _ _ _ (((m.getDataAndIndices us vs).map _).map _)
    rw [hask]
    exact ⟨found, rfl, hfound⟩
  · rw [← fits_swap] at hfits
    obtain ⟨found, hask, hfound⟩ := h.edgeIdsAll hfits hvs hus
    show Answered _ _ _ _ _ ((((m.getDataAndIndices vs us).map _).map _).map _)
    rw [hask]
    refine ⟨found.map fun es => es.map .swap, ?_, ?_⟩
    · rw [← List.map_flatten, ← swap_ofEntries]
    · rw [broadcast_swap, List.forall₂_map_left_iff] at hfound
      rw [List.forall₂_map_right_iff]
      refine hfound.imp fun p es hes => ?_
      rw [← reversed_coe, hes, between_reversed, reversed_reversed]

lemma inEdges_answered (hv : v < b) :
    Answered E s.numVTypes a b (.inEdges v) (s.dispatch host fmt adj (.inEdges v)) := by
  rcases hadj with ⟨rfl, m, rfl, h⟩ | ⟨rfl, m, rfl, h⟩ | ⟨rfl, m, rfl, h⟩
  · obtain ⟨es, hask, hes⟩ := h.inEdges s.numVTypes host hv
    rw [dispatch_coo rfl hask]
    exact ⟨es, rfl, hes⟩
  · trivial
  · obtain ⟨es, hask, hes⟩ := h.outEdges s.numVTypes host hv
    show Answered _ _ _ _ _ (((CSR.ask host s.numVTypes m (.outEdges v)).map _).map _)
    rw [hask]
    refine ⟨es.map .swap, (swap_ofEntries es), ?_⟩
    rw [← reversed_coe, hes, outOf_reversed, reversed_reversed]

lemma inEdgesOf_answered (hE : Numbered E) (hvs : ∀ v ∈ vs, v < b) :
    Answered E s.numVTypes a b (.inEdgesOf vs) (s.dispatch host fmt adj (.inEdgesOf vs)) ↔
      (fmt = .coo → ∀ e ∈ E, e.2.1 ∈ vs → UniqueIn vs e.2.1) := by
  have hsum := sum_into (E := E) vs
  rcases hadj with ⟨rfl, m, rfl, h⟩ | ⟨rfl, m, rfl, h⟩ | ⟨rfl, m, rfl, h⟩
  · obtain ⟨es, hask, hes⟩ := h.inEdgesOf s.numVTypes host vs
    have hanswered : Answered E s.numVTypes a b (.inEdgesOf vs)
        (s.dispatch host .coo (.coo m) (.inEdgesOf vs)) ↔
          sliced (reversed E) vs = (vs.map (outOf (reversed E))).sum := by
      rw [dispatch_coo rfl hask]
      refine exists_ofEntries_iff.trans ?_
      rw [hes, hsum]
      constructor
      · intro heq
        have heq := congrArg reversed heq
        rwa [reversed_reversed, reversed_reversed] at heq
      · exact congrArg reversed
    rw [hanswered, sliced_eq_iff hE.reversed vs]
    constructor
    · intro hall _ e he hv
      exact hall e.swap (Multiset.mem_map_of_mem _ he) hv
    · intro hall e he hv
      obtain ⟨e', he', rfl⟩ := Multiset.mem_map.1 he
      exact hall rfl e' he' hv
  · exact iff_of_true trivial nofun
  · obtain ⟨es, hask, hes⟩ := h.outEdgesOf s.numVTypes host hvs
    show Answered _ _ _ _ _ (((CSR.ask host s.numVTypes m (.outEdgesOf vs)).map _).map _) ↔ _
    rw [hask]
    refine iff_of_true ⟨es.map .swap, swap_ofEntries es, ?_⟩ nofun
    rw [← reversed_coe, hes, hsum]

lemma findEdges_answered {ids : List ℕ} (hids : ∀ k ∈ ids, k < Multiset.card E) :
    Answered E s.numVTypes a b (.findEdges ids) (s.dispatch host fmt adj (.findEdges ids)) := by
  rcases hadj with ⟨rfl, m, rfl, h⟩ | ⟨rfl, m, rfl, h⟩ | ⟨rfl, m, rfl, h⟩
  · obtain ⟨es, hask, hes⟩ := h.findEdges s.numVTypes host hids
    rw [dispatch_coo rfl hask]
    exact ⟨es, rfl, hes⟩
  · trivial
  · trivial

lemma inDegrees_answered (hvs : ∀ v ∈ vs, v < b) :
    Answered E s.numVTypes a b (.inDegrees vs) (s.dispatch host fmt adj (.inDegrees vs)) := by
  rcases hadj with ⟨rfl, m, rfl, h⟩ | ⟨rfl, m, rfl, h⟩ | ⟨rfl, m, rfl, h⟩
  · show Answered _ _ _ _ _ (((m.transpose.getRowsNNZ vs).map _).map _)
    rw [h.inDegrees hvs]
    rfl
  · trivial
  · show Answered _ _ _ _ _ ((CSR.ask host s.numVTypes m (.outDegrees vs)).map _)
    rw [h.outDegrees s.numVTypes host hvs]
    show vs.map _ = vs.map _
    simp only [outOf_reversed, card_reversed]

lemma outDegrees_answered (hus : ∀ u ∈ us, u < a) :
    Answered E s.numVTypes a b (.outDegrees us) (s.dispatch host fmt adj (.outDegrees us)) := by
  rcases hadj with ⟨rfl, m, rfl, h⟩ | ⟨rfl, m, rfl, h⟩ | ⟨rfl, m, rfl, h⟩
  · show Answered _ _ _ _ _ (((m.getRowsNNZ us).map _).map _)
    rw [h.outDegrees hus]
    rfl
  · show Answered _ _ _ _ _ ((CSR.ask host s.numVTypes m (.outDegrees us)).map _)
    rw [h.outDegrees s.numVTypes host hus]
    rfl
  · trivial

lemma outEdgesOf_answered (hE : Numbered E) (hus : ∀ u ∈ us, u < a) :
    Answered E s.numVTypes a b (.outEdgesOf us) (s.dispatch host fmt adj (.outEdgesOf us)) ↔
      (fmt = .coo → ∀ e ∈ E, e.1 ∈ us → UniqueIn us e.1) ∧
        (fmt = .csc → (∃ u ∈ us, b ≤ u) ∨ ∀ e ∈ E, e.1 ∈ us ∨ e.2.1 ∈ us → e.1 = e.2.1) := by
  rcases hadj with ⟨rfl, m, rfl, h⟩ | ⟨rfl, m, rfl, h⟩ | ⟨rfl, m, rfl, h⟩
  · obtain ⟨es, hask, hes⟩ := h.outEdgesOf s.numVTypes host us
    have hanswered : Answered E s.numVTypes a b (.outEdgesOf us)
        (s.dispatch host .coo (.coo m) (.outEdgesOf us)) ↔ sliced E us = (us.map (outOf E)).sum := by
      rw [dispatch_coo rfl hask]
      refine exists_ofEntries_iff.trans ?_
      rw [hes]
    rw [hanswered, sliced_eq_iff hE us]
    constructor
    · exact fun hall => ⟨fun _ => hall, nofun⟩
    · exact fun hall => hall.1 rfl
  · obtain ⟨es, hask, hes⟩ := h.outEdgesOf s.numVTypes host hus
    rw [dispatch_csr rfl hask]
    exact iff_of_true ⟨es, rfl, hes⟩ ⟨nofun, nofun⟩
  · by_cases hub : ∀ u ∈ us, u < b
    · obtain ⟨es, hask, hes⟩ := h.outEdgesOf s.numVTypes host hub
      have hanswered : Answered E s.numVTypes a b (.outEdgesOf us)
          (s.dispatch host .csc (.csr m) (.outEdgesOf us)) ↔
            reversed (us.map (into E)).sum = (us.map (outOf E)).sum := by
        rw [dispatch_csr rfl hask]
        refine exists_ofEntries_iff.trans ?_
        rw [hes, sum_into, reversed_reversed]
      rw [hanswered, reversed_sum_into_eq_iff hE us]
      constructor
      · exact fun hall => ⟨nofun, fun _ => Or.inr hall⟩
      · refine fun hserved => (hserved.2 rfl).resolve_left ?_
        rintro ⟨u, hu, hle⟩
        exact absurd (hub u hu) (Nat.not_lt.2 hle)
    · obtain ⟨u, hu, hle⟩ : ∃ u ∈ us, b ≤ u := by simpa using hub
      have hask : CSR.ask host s.numVTypes m (.outEdgesOf us) = .error .raised := by
        have hany : (us.any fun r => m.numRows ≤ r) = true :=
          List.any_eq_true.2 ⟨u, hu, by simpa [h.rows] using hle⟩
        show CSR.outEdgesOf m us = _
        rw [CSR.outEdgesOf, CSRMatrix.sliceRows, hany]
        rfl
      show Answered _ _ _ _ _ ((CSR.ask host s.numVTypes m (.outEdgesOf us)).map _) ↔ _
      rw [hask]
      exact iff_of_true trivial ⟨nofun, fun _ => Or.inl ⟨u, hu, hle⟩⟩

lemma outEdges_answered (hE : Numbered E) (hu : u < a) :
    Answered E s.numVTypes a b (.outEdges u) (s.dispatch host fmt adj (.outEdges u)) ↔
      (fmt = .csc → b ≤ u ∨ ∀ e ∈ E, e.1 = u ∨ e.2.1 = u → e.1 = e.2.1) := by
  rcases hadj with ⟨rfl, m, rfl, h⟩ | ⟨rfl, m, rfl, h⟩ | ⟨rfl, m, rfl, h⟩
  · obtain ⟨es, hask, hes⟩ := h.outEdges s.numVTypes host hu
    rw [dispatch_coo rfl hask]
    exact iff_of_true ⟨es, rfl, hes⟩ nofun
  · obtain ⟨es, hask, hes⟩ := h.outEdges s.numVTypes host hu
    rw [dispatch_csr rfl hask]
    exact iff_of_true ⟨es, rfl, hes⟩ nofun
  · by_cases hub : u < b
    · obtain ⟨es, hask, hes⟩ := h.outEdges s.numVTypes host hub
      have hanswered : Answered E s.numVTypes a b (.outEdges u)
          (s.dispatch host .csc (.csr m) (.outEdges u)) ↔ reversed (into E u) = outOf E u := by
        rw [dispatch_csr rfl hask]
        refine exists_ofEntries_iff.trans ?_
        rw [hes, outOf_reversed]
      have hloops := reversed_sum_into_eq_iff hE [u]
      simp only [List.map_singleton, List.sum_singleton, List.mem_singleton] at hloops
      rw [hanswered, hloops]
      constructor
      · exact fun hall _ => Or.inr hall
      · exact fun hserved => (hserved rfl).resolve_left (Nat.not_le.2 hub)
    · have hask : CSR.ask host s.numVTypes m (.outEdges u) = .error .raised :=
        if_pos (by rw [h.rows]; exact Nat.le_of_not_lt hub)
      show Answered _ _ _ _ _ ((CSR.ask host s.numVTypes m (.outEdges u)).map _) ↔ _
      rw [hask]
      exact iff_of_true trivial fun _ => Or.inl (Nat.le_of_not_lt hub)

lemma edges_answered (order : String) :
    Answered E s.numVTypes a b (.edges order) (s.dispatch host fmt adj (.edges order)) ↔
      (order = "srcdst" → fmt = .csc →
        ∀ e ∈ E, ∀ e' ∈ E, SrcDstLE e.swap e'.swap → SrcDstLE e e') := by
  by_cases ho : order = "eid" ∨ order = "" ∨ order = "srcdst"
  swap
  · have hraised : s.dispatch host fmt adj (.edges order) = .error .raised := if_neg ho
    rw [hraised]
    exact iff_of_true trivial fun h => absurd (Or.inr (Or.inr h)) ho
  rcases hadj with ⟨rfl, m, rfl, h⟩ | ⟨rfl, m, rfl, h⟩ | ⟨rfl, m, rfl, h⟩
  · have hask : s.dispatch host .coo (.coo m) (.edges order) =
        (COO.ask host s.numVTypes m (.edges order)).map (Answer.mapGraph (Stored.pack s.numVTypes .coo)) :=
      if_pos ho
    rw [hask]
    rcases ho with rfl | rfl | rfl
    · refine iff_of_true ⟨m.entries, h.coo_ofEntries, h.of.entries, Or.inr (Or.inl ⟨rfl, h.ids_sorted⟩)⟩ ?_
      exact nofun
    · exact iff_of_true ⟨m.entries, h.coo_ofEntries, h.of.entries, Or.inl rfl⟩ nofun
    · exact iff_of_true trivial nofun
  · have hask : s.dispatch host .csr (.csr m) (.edges order) =
        (CSR.ask host s.numVTypes m (.edges order)).map (Answer.mapGraph (Stored.pack s.numVTypes .csr)) :=
      if_pos ho
    rw [hask]
    rcases ho with rfl | rfl | rfl
    · exact iff_of_true trivial nofun
    · obtain ⟨es, hask, hes, -⟩ := h.edges s.numVTypes host (Or.inl (rfl : "" = ""))
      rw [hask]
      exact iff_of_true ⟨es, rfl, hes, Or.inl rfl⟩ nofun
    · obtain ⟨es, hask, hes, hsorted⟩ := h.edges s.numVTypes host (Or.inr rfl)
      rw [hask]
      exact iff_of_true ⟨es, rfl, hes, Or.inr (Or.inr ⟨rfl, hsorted rfl⟩)⟩ nofun
  · have hask : s.dispatch host .csc (.csr m) (.edges order) =
        ((CSR.ask host s.numVTypes m (.edges order)).map
          (Answer.mapGraph (Stored.pack s.numVTypes .csc))).map .swapEdges := if_pos ho
    rw [hask]
    rcases ho with rfl | rfl | rfl
    · exact iff_of_true trivial nofun
    · obtain ⟨es, hask, hes, -⟩ := h.edges s.numVTypes host (Or.inl (rfl : "" = ""))
      rw [hask]
      refine iff_of_true ⟨es.map .swap, swap_ofEntries es, ?_, Or.inl rfl⟩ nofun
      rw [← reversed_coe, hes, reversed_reversed]
    · obtain ⟨es, hask, hes, hsorted⟩ := h.edges s.numVTypes host (Or.inr rfl)
      rw [hask]
      have hanswered : Answered E s.numVTypes a b (.edges "srcdst")
          (((Except.ok (Answer.edges (.ofEntries es)) : Except Fault (Answer Adj)).map
            (Answer.mapGraph (Stored.pack s.numVTypes .csc))).map .swapEdges) ↔
            (es.map .swap).Pairwise SrcDstLE := by
        show (∃ es', (EdgeArray.ofEntries es).swap = _ ∧ _) ↔ _
        rw [swap_ofEntries]
        refine exists_ofEntries_iff.trans ?_
        rw [← reversed_coe, hes, reversed_reversed]
        simp [InEdgeOrder]
      rw [hanswered, pairwise_swap_iff hes (hsorted rfl)]
      exact ⟨fun hall _ _ => hall, fun hall => hall rfl rfl⟩

lemma edgeSubgraph_answered {eids : List (List ℕ)} {preserveNodes : Bool}
    (hq : (Query.edgeSubgraph eids preserveNodes).Valid E s.numVTypes a b) :
    Answered E s.numVTypes a b (.edgeSubgraph eids preserveNodes)
      (s.dispatch host fmt adj (.edgeSubgraph eids preserveNodes)) := by
  obtain ⟨hlen, hids⟩ := hq
  rcases hadj with ⟨rfl, m, rfl, h⟩ | ⟨rfl, m, rfl, h⟩ | ⟨rfl, m, rfl, h⟩
  · show Answered _ _ _ _ _ ((COO.ask host s.numVTypes m (.edgeSubgraph eids preserveNodes)).map _)
    cases preserveNodes with
    | true =>
        obtain ⟨sub, es, hask, hes, hrows, hcols, hof, hpicked⟩ :=
          h.edgeSubgraph_preserve s.numVTypes host hlen hids
        rw [hask]
        exact ⟨rfl, es, hes, rfl, packCOO_shaped hrows hcols, packCOO_picks hof hpicked⟩
    | false =>
        obtain ⟨sub, es, srcs, dsts, hask, hes, hsrcs, hdsts, hsrc, hdst, hrows, hcols, hof,
          hpicked⟩ := h.edgeSubgraph_relabel s.numVTypes host hlen hids
        rw [hask]
        exact ⟨rfl, es, hes, srcs, dsts, rfl, hsrcs, hdsts, hsrc, hdst, packCOO_shaped hrows hcols,
          packCOO_picks hof hpicked⟩
  · trivial
  · trivial

lemma vertexSubgraph_answered (hE : Numbered E) {vids : List (List ℕ)}
    (hq : (Query.vertexSubgraph vids).Valid E s.numVTypes a b) :
    Answered E s.numVTypes a b (.vertexSubgraph vids) (s.dispatch host fmt adj (.vertexSubgraph vids)) ↔
      (fmt = .csc → (∃ u ∈ vids.getD 0 [], b ≤ u) ∨
        ((vids.getD 0 []).length = (dstVids s.numVTypes vids).length ∧
          ∀ e ∈ E, subPlace (vids.getD 0 []) (dstVids s.numVTypes vids) e.swap =
            (subPlace (vids.getD 0 []) (dstVids s.numVTypes vids) e).map Prod.swap)) := by
  obtain ⟨hlen, ⟨hsrcs, hus⟩, hdsts, hvs⟩ := hq
  rcases hadj with ⟨rfl, m, rfl, h⟩ | ⟨rfl, m, rfl, h⟩ | ⟨rfl, m, rfl, h⟩
  · obtain ⟨sub, ids, hask, hrows, hcols, hof, hpicked⟩ :=
      h.vertexSubgraph s.numVTypes host hlen hsrcs hdsts
    show Answered _ _ _ _ _ ((COO.ask host s.numVTypes m (.vertexSubgraph vids)).map _) ↔ _
    rw [hask]
    exact iff_of_true ⟨rfl, packCOO_shaped hrows hcols, packCOO_picks hof hpicked⟩ nofun
  · obtain ⟨sub, hsub, hrows, hcols, E', hof, hpicked⟩ := h.sliceMatrix hus hsrcs hdsts
    show Answered _ _ _ _ _ ((CSR.ask host s.numVTypes m (.vertexSubgraph vids)).map _) ↔ _
    rw [CSR.ask_vertexSubgraph host hlen hsub]
    refine iff_of_true ⟨rfl, ⟨nofun, fun m' hm' => ?_, nofun⟩, rfl, E', ⟨nofun, fun m' hm' => ?_, nofun⟩,
      hpicked⟩ nofun
    · obtain rfl := Option.some.inj hm'
      exact ⟨hrows, hcols⟩
    · obtain rfl := Option.some.inj hm'
      exact hof
  · by_cases hub : ∀ u ∈ vids.getD 0 [], u < b
    · obtain ⟨sub, hsub, hrows, hcols, E', hof, hpicked⟩ := h.sliceMatrix hub hsrcs hdsts
      show Answered _ _ _ _ _ ((CSR.ask host s.numVTypes m (.vertexSubgraph vids)).map _) ↔ _
      rw [CSR.ask_vertexSubgraph host hlen hsub]
      have hlt : ∀ e ∈ E', e.1 < (vids.getD 0 []).length ∧
          e.2.1 < (dstVids s.numVTypes vids).length := by
        intro e he
        rw [← hof.entries] at he
        have hlt := hof.valid.entry_lt he
        rw [← hrows, ← hcols]
        exact hlt
      constructor
      · rintro ⟨-, hshape, -, E'', hhas, hpicked'⟩ -
        have hlen' := hrows.symm.trans (hshape.inCsr _ rfl).1
        have hE'' : reversed E'' = E' := (hhas.inCsr _ rfl).entries.symm.trans hof.entries
        rw [← reversed_reversed E'', hE''] at hpicked'
        exact Or.inr ⟨hlen', (exchanged_iff hE hsrcs hdsts hlt hpicked hlen').1 hpicked'⟩
      · intro hserved
        obtain ⟨hlen', hall⟩ := (hserved rfl).resolve_left fun ⟨u, hu, hle⟩ =>
          absurd (hub u hu) (Nat.not_lt.2 hle)
        refine ⟨rfl, ⟨fun m' hm' => ?_, nofun, nofun⟩, rfl, reversed E',
          ⟨fun m' hm' => ?_, nofun, nofun⟩,
          (exchanged_iff hE hsrcs hdsts hlt hpicked hlen').2 hall⟩
        · obtain rfl := Option.some.inj hm'
          exact ⟨hrows.trans hlen', hcols.trans hlen'.symm⟩
        · obtain rfl := Option.some.inj hm'
          rw [reversed_reversed]
          exact hof
    · obtain ⟨u, hu, hle⟩ : ∃ u ∈ vids.getD 0 [], b ≤ u := by simpa using hub
      have hask : CSR.ask host s.numVTypes m (.vertexSubgraph vids) = .error .raised := by
        have hany : ((vids.getD 0 []).any fun r => m.numRows ≤ r) = true :=
          List.any_eq_true.2 ⟨u, hu, by simpa [h.rows] using hle⟩
        show CSR.vertexSubgraph s.numVTypes m vids = _
        rw [CSR.vertexSubgraph, if_neg (by simp [hlen]), CSRMatrix.sliceMatrix, hany]
        rfl
      show Answered _ _ _ _ _ ((CSR.ask host s.numVTypes m (.vertexSubgraph vids)).map _) ↔ _
      rw [hask]
      exact iff_of_true trivial fun _ => Or.inl ⟨u, hu, hle⟩

/-- **A query in a format** is answered rightly exactly when the format serves it. -/
lemma dispatch_answered (hE : Numbered E) (hsquare : s.numVTypes = 1 → a = b) {q : Query}
    (hq : q.Valid E s.numVTypes a b) :
    Answered E s.numVTypes a b q (s.dispatch host fmt adj q) ↔ ServedBy E s.numVTypes b fmt q := by
  cases q with
  | hasEdgesBetween us vs => exact iff_of_true (hasEdgesBetween_answered hadj hq) trivial
  | predecessors v => exact predecessors_answered hadj hsquare hq
  | successors u => exact successors_answered hadj hq
  | edgeId u v => exact iff_of_true (edgeId_answered hadj hsquare hq.1 hq.2) trivial
  | edgeIdsAll us vs => exact iff_of_true (edgeIdsAll_answered hadj hq) trivial
  | findEdges ids => exact iff_of_true (findEdges_answered hadj hq) trivial
  | inEdges v => exact iff_of_true (inEdges_answered hadj hq) trivial
  | inEdgesOf vs => exact inEdgesOf_answered hadj hE hq
  | outEdges u => exact outEdges_answered hadj hE hq
  | outEdgesOf us => exact outEdgesOf_answered hadj hE hq
  | edges order => exact edges_answered hadj order
  | inDegrees vs => exact iff_of_true (inDegrees_answered hadj hq) trivial
  | outDegrees us => exact iff_of_true (outDegrees_answered hadj hq) trivial
  | vertexSubgraph vids => exact vertexSubgraph_answered hadj hE hq
  | edgeSubgraph eids preserveNodes => exact iff_of_true (edgeSubgraph_answered hadj hq) trivial

end Queries

/-! ## Restricted graphs -/

/-- **Queries on restricted graphs**: the graph of an edge list that is restricted to some formats, and
has answered any queries before, answers a query rightly exactly when the format that it takes serves
the query, or the format is refused. -/
theorem restricted_query_iff (host : Host) {n : ℕ} {coo : COOMatrix} {formats : Formats} {g : UnitGraph} {h : Heap}
    (hcoo : coo.Valid) (hsorted : coo.ColsSorted) (hr : Restricted host.threads n coo formats g h)
    {q : Query} (hq : q.Valid coo.entries n coo.numRows coo.numCols) :
    Answered coo.entries n coo.numRows coo.numCols q ((g.stored h).query host q) ↔
      ((g.stored h).formatFor host q ≠ .coo ∧ noOverflow coo.bits coo.nnz = false) ∨
        ServedBy coo.entries n coo.numCols ((g.stored h).formatFor host q) q := by
  obtain ⟨hdata, hsquare⟩ := hr.checked
  have hlist : ListsCOO coo.entries coo.numRows coo.numCols coo :=
    ⟨⟨hcoo, hdata, rfl⟩, rfl, rfl, hsorted⟩
  obtain ⟨-, hl⟩ := hr.lists hlist
  have hs := hr.allowed hlist
  obtain rfl := hl.numVTypes
  have hrefused := hs.getFormat_eq_none_iff hlist hl host (hs.formatFor host q)
  unfold Stored.query
  cases hadj : (g.stored h).getFormat host ((g.stored h).formatFor host q) with
  | none => exact iff_of_true trivial (Or.inl (hrefused.1 hadj))
  | some adj =>
      have hkept : ¬ ((g.stored h).formatFor host q ≠ .coo ∧ noOverflow coo.bits coo.nnz = false) := by
        rw [← hrefused, hadj]
        exact nofun
      rw [or_iff_right hkept]
      exact dispatch_answered (hl.getFormat hadj) hlist.of.numbered hsquare hq

/-- One thread without Ascend. -/
def oneThread : Host := ⟨false, ⟨1, Nat.one_pos⟩, stableSort Entry, ⟨id, fun _ => .rfl⟩⟩

/-- The edge from 0 to 1 as CSR only. -/
def csrOnly : Heap := ⟨[none, none, some oneEdge.bucketed, some oneEdge.bucketed, none], [some oneEdge, none]⟩

/-- The edge from 0 to 1 as CSC only. -/
def cscOnly : Heap :=
  let csc := oneEdge.transpose.bucketed
  ⟨[none, none, some csc, some csc, none], [some oneEdge, none]⟩

lemma csrOnly_restricted : Restricted 1 1 oneEdge ⟨false, true, false⟩ ⟨1, 4, 3, 1, ⟨false, true, false⟩⟩
    csrOnly :=
  .made (g := ⟨1, 0, 1, 0, .all⟩) (h := ⟨[none, none], [some oneEdge]⟩) rfl (by decide)

lemma cscOnly_restricted : Restricted 1 1 oneEdge ⟨false, false, true⟩ ⟨1, 3, 4, 1, ⟨false, false, true⟩⟩
    cscOnly :=
  .made (g := ⟨1, 0, 1, 0, .all⟩) (h := ⟨[none, none], [some oneEdge]⟩) rfl (by decide)

theorem restricted_query_csrOnly :
    Answered oneEdge.entries 1 2 2 (.successors 0)
      ((UnitGraph.stored csrOnly ⟨1, 4, 3, 1, ⟨false, true, false⟩⟩).query oneThread (.successors 0)) :=
  (restricted_query_iff oneThread oneEdge_valid nofun csrOnly_restricted (q := .successors 0)
    (by decide : 0 < 2)).2 (Or.inr nofun)

/-- CSR gives the successor of vertex 0, and CSC gives its predecessors. -/
theorem successors_exchanged :
    Restricted 1 1 oneEdge ⟨false, true, false⟩ ⟨1, 4, 3, 1, ⟨false, true, false⟩⟩ csrOnly ∧
      Restricted 1 1 oneEdge ⟨false, false, true⟩ ⟨1, 3, 4, 1, ⟨false, false, true⟩⟩ cscOnly ∧
      (UnitGraph.stored csrOnly ⟨1, 4, 3, 1, ⟨false, true, false⟩⟩).query oneThread (.successors 0) =
        .ok (.nodes [1]) ∧
      (UnitGraph.stored cscOnly ⟨1, 3, 4, 1, ⟨false, false, true⟩⟩).query oneThread (.successors 0) =
        .ok (.nodes []) :=
  ⟨csrOnly_restricted, cscOnly_restricted, rfl, rfl⟩

end DglAscend.Hetero
