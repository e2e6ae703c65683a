import DglAscend.Distributed.KVStore

/-!
# Pulls of a partitioned tensor

Both paths of `KVClient.pull` split the ids between the machines, send one request to some server of each
machine that has ids, and put the rows that come back, in any order, where their ids are.  `fast_pull`
remembers the positions of the ids; the path for handlers that a user registered sorts the ids by machines,
the responses by servers, and the rows back.  `push` sorts in the same way.
-/

namespace DglAscend.Distributed

variable {κ : Type} [DecidableEq κ] {α β : Type}

/-! ## The fast path -/

variable {ids : List ℤ} {places : List (ℕ × ℕ)}

namespace FastPull

/-- What the first loop finds. -/
def found (p : PartitionPolicy κ) (home : ℕ) (ids : List ℤ) : FastPull where
  locals := (ids.zipIdx.filter fun x => p.owner x.1 = home).map fun x => (p.offset x.1, x.2)
  remote m := if m = home then [] else ids.zipIdx.filter fun x => p.owner x.1 = m

lemma split_eq (p : PartitionPolicy κ) {home rowCount machineCount : ℕ} (i : ℕ) (pull : FastPull)
    (hrow : ∀ id ∈ ids, p.owner id = home → p.offset id < rowCount)
    (howner : ∀ id ∈ ids, p.owner id < machineCount) :
    split home rowCount machineCount (ids.map fun id => (id, p.owner id)) i
        ((ids.filter fun id => p.owner id = home).map fun id => (p.offset id : ℤ)) pull =
      .ok ⟨pull.locals ++ ((ids.zipIdx i).filter fun x => p.owner x.1 = home).map
          fun x => (p.offset x.1, x.2),
        fun m => pull.remote m ++
          if m = home then [] else (ids.zipIdx i).filter fun x => p.owner x.1 = m⟩ := by
  induction ids generalizing i pull with
  | nil => simp [split]
  | cons id ids ih =>
      have hrow' := fun id' hid' => hrow id' (List.mem_cons_of_mem id hid')
      have howner' := fun id' hid' => howner id' (List.mem_cons_of_mem id hid')
      simp only [List.map_cons]
      rw [split.eq_def, List.zipIdx_cons]
      by_cases hhome : p.owner id = home
      · simp only
        rw [if_pos hhome, List.filter_cons_of_pos (by simpa using hhome), List.map_cons]
        simp only
        rw [if_pos ⟨Int.natCast_nonneg _, Int.ofNat_lt.2 (hrow id List.mem_cons_self hhome)⟩,
          ih _ _ hrow' howner', Int.toNat_natCast, List.filter_cons_of_pos (by simpa using hhome)]
        simp only [List.map_cons, List.append_assoc, List.cons_append, List.nil_append,
          Except.ok.injEq,
          mk.injEq, true_and]
        funext m
        by_cases hm : m = home
        · rw [if_pos hm, if_pos hm]
        · rw [if_neg hm, if_neg hm, List.filter_cons_of_neg (by simpa [hhome] using Ne.symm hm)]
      · simp only
        rw [if_neg hhome, if_pos (howner id List.mem_cons_self),
          List.filter_cons_of_neg (by simpa using hhome), ih _ _ hrow' howner',
          List.filter_cons_of_neg (by simpa using hhome)]
        simp only [Except.ok.injEq, mk.injEq, true_and]
        funext m
        by_cases hm : m = p.owner id
        · subst hm
          rw [Function.update_self, if_neg hhome, if_neg hhome, List.filter_cons_of_pos (by simp),
            List.append_assoc, List.singleton_append]
        · rw [Function.update_of_ne hm]
          by_cases hm' : m = home
          · rw [if_pos hm', if_pos hm']
          · rw [if_neg hm', if_neg hm', List.filter_cons_of_neg (by simpa using Ne.symm hm)]

lemma exists_copy {rows : List α} (h : ∀ x ∈ places, x.1 < rows.length) (result : List (Option α)) :
    ∃ result', copy rows places result = .ok result' ∧ result'.length = result.length ∧
      (∀ i ∉ places.map Prod.snd, result'[i]? = result[i]?) ∧
      ∀ i ∈ places.map Prod.snd, i < result.length →
        ∃ n x, (n, i) ∈ places ∧ rows[n]? = some x ∧ result'[i]? = some (some x) := by
  induction places generalizing result with
  | nil => exact ⟨result, rfl, rfl, fun _ _ => rfl, by simp⟩
  | cons y places ih =>
      obtain ⟨n, j⟩ := y
      have hlt : n < rows.length := h (n, j) List.mem_cons_self
      have hget : rows[n]? = some rows[n] := List.getElem?_eq_getElem hlt
      obtain ⟨result', hrun, hlen, hframe, hwritten⟩ :=
        ih (fun x hx => h x (List.mem_cons_of_mem _ hx)) (result.set j (some rows[n]))
      rw [List.length_set] at hlen hwritten
      refine ⟨result', by rw [copy, hget]; exact hrun, hlen, fun i hi => ?_, fun i hi hlt' => ?_⟩
      · rw [List.map_cons, List.mem_cons, not_or] at hi
        rw [hframe i hi.2, List.getElem?_set_ne (Ne.symm hi.1)]
      · by_cases hlater : i ∈ places.map Prod.snd
        · obtain ⟨n', x, hmem, hx, hres⟩ := hwritten i hlater hlt'
          exact ⟨n', x, List.mem_cons_of_mem _ hmem, hx, hres⟩
        · rw [List.map_cons, List.mem_cons, or_iff_left hlater] at hi
          subst hi
          refine ⟨n, rows[n], List.mem_cons_self, hget, ?_⟩
          rw [hframe i hlater, List.getElem?_set_self hlt']

end FastPull

lemma exists_map_some {l : List (Option α)} (h : ∀ a ∈ l, a.isSome = true) :
    ∃ xs : List α, l = xs.map some := by
  induction l with
  | nil => exact ⟨[], rfl⟩
  | cons a l ih =>
      obtain ⟨x, rfl⟩ := Option.isSome_iff_exists.1 (h a List.mem_cons_self)
      obtain ⟨xs, rfl⟩ := ih fun b hb => h b (List.mem_cons_of_mem _ hb)
      exact ⟨x :: xs, rfl⟩

/-- The rows that have come are right for their ids, and those of the machines in `done` have come. -/
structure Buffer (p : PartitionPolicy κ) (ids : List ℤ) (Right : ℤ → α → Prop) (done : Set ℕ)
    (result : List (Option α)) : Prop where
  length_eq : result.length = ids.length
  sound : ∀ (i : ℕ) x id, result[i]? = some (some x) → ids[i]? = some id → Right id x
  filled : ∀ (i : ℕ) id, ids[i]? = some id → p.owner id ∈ done → ∃ x, result[i]? = some (some x)

variable {home m : ℕ}

namespace Buffer

variable {p : PartitionPolicy κ} {ids : List ℤ} {Right : ℤ → α → Prop} {done : Set ℕ}
  {result : List (Option α)}

lemma empty : Buffer p ids Right ∅ (List.replicate ids.length none) where
  length_eq := List.length_replicate
  sound i x id hx _ := by simp [List.getElem?_replicate] at hx
  filled _ _ _ hmem := hmem.elim

/-- The rows of a machine are copied to the positions of its ids. -/
lemma exists_copy (h : Buffer p ids Right done result) {rows : List α}
    (hplaces : ∀ i id, ids[i]? = some id → (i ∈ places.map Prod.snd ↔ p.owner id = m))
    (hrows : ∀ x ∈ places, ∃ y, rows[x.1]? = some y ∧ ∀ id, ids[x.2]? = some id → Right id y) :
    ∃ result', FastPull.copy rows places result = .ok result' ∧
      Buffer p ids Right (insert m done) result' := by
  have hlt (x : ℕ × ℕ) (hx : x ∈ places) : x.1 < rows.length := by
    obtain ⟨y, hy, -⟩ := hrows x hx
    exact (List.getElem?_eq_some_iff.1 hy).1
  obtain ⟨result', hrun, hlen, hframe, hwritten⟩ := FastPull.exists_copy hlt result
  refine ⟨result', hrun, hlen.trans h.length_eq, fun i x id hx hid => ?_, fun i id hid hmem => ?_⟩
  · by_cases hi : i ∈ places.map Prod.snd
    · have hlt : i < result.length := h.length_eq ▸ (List.getElem?_eq_some_iff.1 hid).1
      obtain ⟨n, y, hmem, hy, hres⟩ := hwritten i hi hlt
      obtain ⟨y', hy', hright⟩ := hrows (n, i) hmem
      obtain rfl : y' = y := Option.some.inj (hy'.symm.trans hy)
      obtain rfl : x = y' := Option.some.inj (Option.some.inj (hx.symm.trans hres))
      exact hright id hid
    · rw [hframe i hi] at hx
      exact h.sound i x id hx hid
  · by_cases hm : p.owner id = m
    · have hlt : i < result.length := h.length_eq ▸ (List.getElem?_eq_some_iff.1 hid).1
      obtain ⟨n, y, -, -, hres⟩ := hwritten i ((hplaces i id hid).2 hm) hlt
      exact ⟨y, hres⟩
    · rw [hframe i fun hi => hm ((hplaces i id hid).1 hi)]
      exact h.filled i id hid (hmem.resolve_left hm)

/-- **All rows have come.** -/
lemma exists_rows (h : Buffer p ids Right done result) (hall : ∀ id ∈ ids, p.owner id ∈ done) :
    ∃ rows, result.mapM (orRaise .memory) = .ok rows ∧ List.Forall₂ Right ids rows := by
  have hsome : ∀ a ∈ result, a.isSome = true := by
    intro a ha
    obtain ⟨i, hi, rfl⟩ := List.mem_iff_getElem.1 ha
    have hlt : i < ids.length := h.length_eq ▸ hi
    obtain ⟨x, hx⟩ := h.filled i ids[i] (List.getElem?_eq_getElem hlt)
      (hall _ (List.getElem_mem hlt))
    rw [List.getElem?_eq_getElem hi, Option.some.injEq] at hx
    rw [hx, Option.isSome_some]
  obtain ⟨rows, rfl⟩ := exists_map_some hsome
  refine ⟨rows, ?_, List.forall₂_iff_get.2 ⟨?_, fun i hi hi' => ?_⟩⟩
  · rw [List.mapM_map]
    exact (mapM_ok fun x _ => rfl).trans (by rw [List.map_id'])
  · rw [← h.length_eq, List.length_map]
  · rw [List.get_eq_getElem, List.get_eq_getElem]
    apply h.sound i
    · rw [List.getElem?_map, List.getElem?_eq_getElem hi', Option.map_some]
    · exact List.getElem?_eq_getElem hi

end Buffer

lemma mem_remote_positions (p : PartitionPolicy κ) (hm : m ≠ home) {i : ℕ} {id : ℤ}
    (hid : ids[i]? = some id) :
    i ∈ (((FastPull.found p home ids).remote m).zipIdx.map fun x => (x.2, x.1.2)).map Prod.snd ↔
      p.owner id = m := by
  rw [List.map_map]
  have hcomp : (Prod.snd ∘ fun x : (ℤ × ℕ) × ℕ => (x.2, x.1.2)) = Prod.snd ∘ Prod.fst := rfl
  rw [hcomp, ← List.map_map, List.zipIdx_map_fst]
  simp only [FastPull.found, if_neg hm, List.mem_map, List.mem_filter, decide_eq_true_eq,
    Prod.exists,
    List.mem_zipIdx_iff_getElem?]
  constructor
  · rintro ⟨id', i', ⟨hget, howner⟩, rfl⟩
    obtain rfl : id' = id := Option.some.inj (hget.symm.trans hid)
    exact howner
  · exact fun howner => ⟨id, i, ⟨hid, howner⟩, rfl⟩

namespace Buffer

variable {p : PartitionPolicy κ} {ids : List ℤ} {Right : ℤ → α → Prop} {done : Set ℕ}
  {result : List (Option α)}

/-- **A message comes** with right rows. -/
lemma exists_receive (h : Buffer p ids Right done result) {home groupCount : ℕ}
    {response : PullResponse α} (hne : response.serverId / groupCount ≠ home)
    (hrows : List.Forall₂ Right
      (((FastPull.found p home ids).remote (response.serverId / groupCount)).map Prod.fst)
      response.dataTensor) :
    ∃ result', (FastPull.found p home ids).receive groupCount result response = .ok result' ∧
      Buffer p ids Right (insert (response.serverId / groupCount) done) result' := by
  apply h.exists_copy fun i id hid => mem_remote_positions p hne hid
  rintro x hx
  obtain ⟨⟨⟨id, i⟩, k⟩, hk, rfl⟩ := List.mem_map.1 hx
  rw [List.mem_zipIdx_iff_getElem?] at hk
  have hget : (((FastPull.found p home ids).remote (response.serverId / groupCount)).map Prod.fst)[k]? =
      some id := by
    rw [List.getElem?_map, hk]
    rfl
  obtain ⟨hlt, hkey⟩ := List.getElem?_eq_some_iff.1 hget
  have hlt' : k < response.dataTensor.length := hrows.length_eq ▸ hlt
  refine ⟨response.dataTensor[k], List.getElem?_eq_getElem hlt', fun id' hid' => ?_⟩
  have hright := (List.forall₂_iff_get.1 hrows).2 k hlt hlt'
  rw [List.get_eq_getElem, List.get_eq_getElem, hkey] at hright
  -- The position of the message is that of its id.
  have hmem : (id, i) ∈ (FastPull.found p home ids).remote (response.serverId / groupCount) :=
    List.mem_of_getElem? hk
  simp only [FastPull.found, if_neg hne, List.mem_filter, List.mem_zipIdx_iff_getElem?] at hmem
  obtain rfl : id' = id := Option.some.inj (hid'.symm.trans hmem.1)
  exact hright

end Buffer

namespace Hosts

variable {kv : Cluster κ α} {name : String} {p : PartitionPolicy κ} {n : ℤ} {table : ℤ → α}

/-- The messages ask each machine for its ids. -/
lemma startPull_eq (h : Hosts kv name p n table) (hhome : home < kv.machineCount)
    (hids : Valid n ids) : kv.startPull home name ids = .ok (FastPull.found p home ids) := by
  have hzip : ids.zip (ids.map p.owner) = ids.map fun id => (id, p.owner id) := by
    have hmap := List.zip_map' (f := id) (g := p.owner) (l := ids)
    rwa [List.map_id] at hmap
  have hlocal : globalIdFromLocalPartition ids (ids.map p.owner) home =
      ids.filter fun id => p.owner id = home := by
    rw [globalIdFromLocalPartition, hzip, List.filter_map, List.map_map]
    exact List.map_id' _
  have hvalid : Valid n (ids.filter fun id => p.owner id = home) :=
    fun id hid => hids id (List.mem_filter.1 hid).1
  obtain ⟨piece, hpiece, hdata, -, -⟩ := h.pieces hhome
  have hrow : ∀ id ∈ ids, p.owner id = home → p.offset id < (piece.map table).length := by
    intro id hid howner
    obtain ⟨-, -, -, piece', hpiece', -, hget⟩ := h.place_of (hids id hid).1 (hids id hid).2
    rw [howner] at hpiece'
    rw [List.length_map, Option.some.inj (hpiece.symm.trans hpiece')]
    exact (List.getElem?_eq_some_iff.1 hget).1
  have hsplit := FastPull.split_eq p 0 FastPull.empty hrow
    fun id hid => (h.place_of (hids id hid).1 (hids id hid).2).1
  simp only [Cluster.startPull, h.policy home hhome, h.toPartid home hids, hdata, hlocal,
    h.toLocal hvalid fun id hid => of_decide_eq_true (List.mem_filter.1 hid).2, hzip, orRaise, bind,
    Except.bind, hsplit]
  simp [FastPull.found, FastPull.empty]

/-- **The local rows** are copied. -/
lemma exists_copyLocal (h : Hosts kv name p n table) (hhome : home < kv.machineCount)
    (hids : Valid n ids) {Right : ℤ → α → Prop} {done : Set ℕ} {result : List (Option α)}
    (hbuffer : Buffer p ids Right done result)
    (hright : ∀ id ∈ ids, p.owner id = home → Right id (table id)) :
    ∃ result', kv.copyLocal home name (FastPull.found p home ids) result = .ok result' ∧
      Buffer p ids Right (insert home done) result' := by
  obtain ⟨piece, hpiece, hdata, -, -⟩ := h.pieces hhome
  rw [Cluster.copyLocal, hdata]
  apply hbuffer.exists_copy
  · intro i id hid
    rw [FastPull.found, List.map_map]
    simp only [List.mem_map, List.mem_filter, decide_eq_true_eq, Prod.exists,
      List.mem_zipIdx_iff_getElem?]
    constructor
    · rintro ⟨id', i', ⟨hget, howner⟩, rfl⟩
      obtain rfl : id' = id := Option.some.inj (hget.symm.trans hid)
      exact howner
    · exact fun howner => ⟨id, i, ⟨hid, howner⟩, rfl⟩
  · intro x hx
    obtain ⟨⟨id, i⟩, hmem, rfl⟩ := List.mem_map.1 hx
    rw [List.mem_filter, List.mem_zipIdx_iff_getElem?, decide_eq_true_eq] at hmem
    obtain ⟨hget, howner⟩ := hmem
    have hid := List.mem_of_getElem? hget
    obtain ⟨-, -, -, piece', hpiece', -, hget'⟩ := h.place_of (hids id hid).1 (hids id hid).2
    rw [howner] at hpiece'
    obtain rfl : piece' = piece := Option.some.inj (hpiece'.symm.trans hpiece)
    refine ⟨table id, by rw [List.getElem?_map, hget', Option.map_some], fun id' hid' => ?_⟩
    obtain rfl : id' = id := Option.some.inj (hid'.symm.trans hget)
    exact hright id' hid howner

lemma mem_messages (p : PartitionPolicy κ) {home machineCount : ℕ} {x : ℕ × List ℤ} :
    x ∈ (FastPull.found p home ids).messages machineCount ↔
      x.1 < machineCount ∧ (FastPull.found p home ids).remote x.1 ≠ [] ∧
        x.2 = ((FastPull.found p home ids).remote x.1).map Prod.fst := by
  obtain ⟨m, l⟩ := x
  simp only [FastPull.messages, List.mem_map, List.mem_filter, List.mem_range, decide_eq_true_eq,
    Prod.mk.injEq]
  constructor
  · rintro ⟨m', ⟨hm, hne⟩, rfl, rfl⟩
    exact ⟨hm, hne, rfl⟩
  · rintro ⟨hm, hne, rfl⟩
    exact ⟨m, ⟨hm, hne⟩, rfl, rfl⟩

lemma mem_remote (p : PartitionPolicy κ) {id : ℤ} :
    id ∈ ((FastPull.found p home ids).remote m).map Prod.fst ↔ m ≠ home ∧ id ∈ ids ∧
      p.owner id = m := by
  by_cases hm : m = home
  · simp [FastPull.found, hm]
  · have hremote : (FastPull.found p home ids).remote m = ids.zipIdx.filter fun x =>
      p.owner x.1 = m :=
      if_neg hm
    rw [hremote, List.mem_map, List.mem_iff_getElem?]
    constructor
    · rintro ⟨⟨id', i⟩, hmem, rfl⟩
      rw [List.mem_filter, List.mem_zipIdx_iff_getElem?, decide_eq_true_eq] at hmem
      exact ⟨hm, ⟨i, hmem.1⟩, hmem.2⟩
    · rintro ⟨-, ⟨i, hi⟩, howner⟩
      refine ⟨(id, i), ?_, rfl⟩
      rw [List.mem_filter, List.mem_zipIdx_iff_getElem?, decide_eq_true_eq]
      exact ⟨hi, howner⟩

/-- **The messages** come one after the other. -/
lemma exists_receiveAll {p : PartitionPolicy κ} {Right : ℤ → α → Prop} {home groupCount : ℕ}
    {responses : List (PullResponse α)}
    (hresponses : ∀ r ∈ responses,
      r.serverId / groupCount ≠ home ∧ List.Forall₂ Right
        (((FastPull.found p home ids).remote (r.serverId / groupCount)).map Prod.fst) r.dataTensor)
    {done : Set ℕ} {result : List (Option α)} (h : Buffer p ids Right done result) :
    ∃ result', responses.foldlM ((FastPull.found p home ids).receive groupCount) result =
      .ok result' ∧
      Buffer p ids Right (done ∪ {m | ∃ r ∈ responses, r.serverId / groupCount = m}) result' := by
  induction responses generalizing done result with
  | nil => exact ⟨result, rfl, by simpa using h⟩
  | cons r responses ih =>
      obtain ⟨hne, hrows⟩ := hresponses r List.mem_cons_self
      obtain ⟨result₁, hrun₁, h₁⟩ := h.exists_receive hne hrows
      obtain ⟨result₂, hrun₂, h₂⟩ :=
        ih (fun r' hr' => hresponses r' (List.mem_cons_of_mem _ hr')) h₁
      refine ⟨result₂, ?_, ?_⟩
      · rw [List.foldlM_cons, hrun₁]
        exact hrun₂
      · convert h₂ using 1
        ext m
        simp only [Set.mem_union, Set.mem_ofPred_eq, List.mem_cons, exists_eq_or_imp,
          Set.mem_insert_iff]
        tauto

/-- **The fast path** gives the rows of the ids. -/
theorem fastPull_eq (h : Hosts kv name p n table) (hhandler : kv.pullHandlers name = some .default)
    (hhome : home < kv.machineCount) {pick : ℕ → ℕ}
    (hpick : ∀ m < kv.machineCount, pick m / kv.groupCount = m) (arrive : AnyOrder (PullResponse α))
    (hids : Valid n ids) : kv.fastPull home pick arrive name ids = .ok (ids.map table) := by
  set pull := FastPull.found p home ids with hpull
  set responses : List (PullResponse α) :=
    (pull.messages kv.machineCount).map fun x => ⟨pick x.1, x.2.map table⟩ with hresponses
  have hanswers : (pull.messages kv.machineCount).mapM
    (fun x => kv.processPull (pick x.1) name x.2) =
      .ok responses := by
    apply mapM_ok
    intro x hx
    obtain ⟨hm, -, hx2⟩ := (mem_messages p).1 hx
    refine h.processPull_eq hhandler h.answers_default (by rwa [hpick x.1 hm])
      (fun id hid => ?_) fun id hid => ?_
    · rw [hx2] at hid
      exact hids id ((mem_remote p).1 hid).2.1
    · rw [hx2] at hid
      rw [hpick x.1 hm]
      exact ((mem_remote p).1 hid).2.2
  have hempty : Buffer p ids (fun id x => x = table id) ∅ (List.replicate ids.length none) :=
    Buffer.empty
  obtain ⟨result₁, hrun₁, hbuffer₁⟩ := h.exists_copyLocal hhome hids hempty fun id _ _ => rfl
  have hgood (r : PullResponse α)
      (hr : r ∈ arrive.run responses) : r.serverId / kv.groupCount ≠ home ∧
      List.Forall₂ (fun id x => x = table id)
        ((pull.remote (r.serverId / kv.groupCount)).map Prod.fst) r.dataTensor := by
    obtain ⟨x, hx, rfl⟩ := List.mem_map.1 ((arrive.perm responses).mem_iff.1 hr)
    obtain ⟨hm, hne, hx2⟩ := (mem_messages p).1 hx
    simp only
    rw [hpick x.1 hm, ← hx2]
    refine ⟨?_, List.forall₂_map_right_iff.2 (List.forall₂_same.2 fun _ _ => rfl)⟩
    rintro rfl
    exact hne (if_pos rfl)
  obtain ⟨result₂, hrun₂, hbuffer₂⟩ := exists_receiveAll hgood hbuffer₁
  obtain ⟨rows, hrun₃, hrows⟩ := hbuffer₂.exists_rows fun id hid => by
    by_cases howner : p.owner id = home
    · exact Or.inl (Or.inl howner)
    · have hm := (h.place_of (hids id hid).1 (hids id hid).2).1
      have hmem : id ∈ (pull.remote (p.owner id)).map Prod.fst :=
        (mem_remote p).2 ⟨howner, hid, rfl⟩
      have hx : (p.owner id, (pull.remote (p.owner id)).map Prod.fst) ∈ pull.messages kv.machineCount :=
        (mem_messages p).2 ⟨hm, fun hnil => List.not_mem_nil (hnil ▸ hmem), rfl⟩
      exact Or.inr ⟨_, (arrive.perm responses).mem_iff.2 (List.mem_map_of_mem hx), hpick _ hm⟩
  have hrows' : rows = ids.map table := by
    rw [← List.forall₂_eq_eq_eq, List.forall₂_map_right_iff]
    exact hrows.flip
  have hresult : kv.fastPull home pick arrive name ids =
      (kv.copyLocal home name pull (List.replicate ids.length none)).bind fun result =>
        ((arrive.run responses).foldlM (pull.receive kv.groupCount) result).bind fun result =>
          result.mapM (orRaise .memory) := by
    simp only [Cluster.fastPull, h.startPull_eq hhome hids, bind, Except.bind, ← hpull, hanswers]
  rw [hresult, hrun₁, Except.bind, hrun₂, Except.bind, hrun₃, hrows']

end Hosts

/-! ## Slices of a sorted list -/

variable {l : List β}

/-- The elements with the least key come first. -/
lemma eq_filter_append {key : β → ℕ} (hsorted : (l.map key).Pairwise (· ≤ ·))
    (hle : ∀ x ∈ l, m ≤ key x) :
    l = (l.filter fun x => key x = m) ++ l.filter fun x => key x ≠ m := by
  induction l with
  | nil => rfl
  | cons x l ih =>
      rw [List.map_cons, List.pairwise_cons] at hsorted
      by_cases hx : key x = m
      · rw [List.filter_cons_of_pos (by simpa using hx),
          List.filter_cons_of_neg (by simpa using hx),
          List.cons_append, ← ih hsorted.2 fun y hy => hle y (List.mem_cons_of_mem _ hy)]
      · have hlt : m < key x := lt_of_le_of_ne (hle x List.mem_cons_self) (Ne.symm hx)
        have hnone : ((x :: l).filter fun y => key y = m) = [] := by
          rw [List.filter_eq_nil_iff]
          intro y hy
          have hxy : key x ≤ key y := by
            rcases List.mem_cons.1 hy with rfl | hy
            · exact le_rfl
            · exact hsorted.1 _ (List.mem_map_of_mem hy)
          simpa using (hlt.trans_le hxy).ne'
        rw [hnone, List.nil_append, List.filter_eq_self.2]
        intro y hy
        simpa using List.filter_eq_nil_iff.1 hnone y hy

lemma count_map (key : β → ℕ) (m : ℕ) (l : List β) :
    (l.map key).count m = (l.filter fun x => key x = m).length := by
  induction l with
  | nil => rfl
  | cons x l ih =>
      by_cases hx : key x = m
      · rw [List.map_cons, List.filter_cons_of_pos (by simpa using hx), hx, List.count_cons_self,
          ih,
          List.length_cons]
      · rw [List.map_cons, List.filter_cons_of_neg (by simpa using hx), List.count_cons_of_ne hx,
          ih]

/-- **The slices** of a sorted list by the counts of its keys. -/
lemma slices_eq {key : β → ℕ} {ms : List ℕ} (hms : ms.Pairwise (· < ·))
    (hsorted : (l.map key).Pairwise (· ≤ ·)) (hmem : ∀ x ∈ l, key x ∈ ms) :
    slices (ms.map fun m => (m, (l.map key).count m)) l =
        (ms.map fun m => (m, l.filter fun x => key x = m)) ∧
      (ms.flatMap fun m => l.filter fun x => key x = m) = l := by
  induction ms generalizing l with
  | nil =>
      obtain rfl : l = [] := List.eq_nil_iff_forall_not_mem.2 fun x hx =>
        List.not_mem_nil (hmem x hx)
      exact ⟨rfl, rfl⟩
  | cons m ms ih =>
      rw [List.pairwise_cons] at hms
      have hle (x : β) (hx : x ∈ l) : m ≤ key x := by
        rcases List.mem_cons.1 (hmem x hx) with heq | hin
        · exact heq.ge
        · exact (hms.1 _ hin).le
      set rest := l.filter fun x => key x ≠ m with hrest
      have hsplit : l = (l.filter fun x => key x = m) ++ rest := eq_filter_append hsorted hle
      have hother (m' : ℕ) (hm' : m' ∈ ms) :
          (l.filter fun x => key x = m') = rest.filter fun x => key x = m' := by
        rw [hrest, List.filter_filter]
        apply List.filter_congr
        intro x _
        have hne : m' ≠ m := (hms.1 m' hm').ne'
        by_cases hx : key x = m'
        · simp [hx, hne]
        · simp [hx]
      have hcounts : (ms.map fun m' => (m', (l.map key).count m')) =
          ms.map fun m' => (m', (rest.map key).count m') := by
        apply List.map_congr_left
        intro m' hm'
        rw [count_map, count_map, hother m' hm']
      have hmem' (x : β) (hx : x ∈ rest) : key x ∈ ms := by
        have hx := List.mem_filter.1 hx
        exact (List.mem_cons.1 (hmem x hx.1)).resolve_left (of_decide_eq_true hx.2)
      have htake := (congrArg (List.take (l.filter fun x => key x = m).length) hsplit).trans List.take_left
      have hdrop := (congrArg (List.drop (l.filter fun x => key x = m).length) hsplit).trans List.drop_left
      obtain ⟨hslices, hflat⟩ := ih hms.2 (hsorted.sublist (List.filter_sublist.map key)) hmem'
      constructor
      · rw [List.map_cons, slices, hcounts, count_map, htake, hdrop, hslices, List.map_cons]
        exact congrArg _ (List.map_congr_left fun m' hm' => by rw [hother m' hm'])
      · have hothers : (ms.flatMap fun m => l.filter fun x => key x = m) =
            ms.flatMap fun m => rest.filter fun x => key x = m :=
          List.flatMap_congr fun m' hm' => hother m' hm'
        rw [List.flatMap_cons, hothers, hflat, ← hsplit]

/-- The machines in `np.unique`. -/
def uniqueMachines (l : List ℕ) : List ℕ := l.dedup.insertionSort (· ≤ ·)

lemma mem_uniqueMachines {l : List ℕ} : m ∈ uniqueMachines l ↔ m ∈ l := by
  rw [uniqueMachines, List.mem_insertionSort, List.mem_dedup]

lemma uniqueMachines_sorted (l : List ℕ) : (uniqueMachines l).Pairwise (· < ·) := by
  have hnodup : (uniqueMachines l).Nodup :=
    (List.perm_insertionSort _ _).nodup_iff.2 (List.nodup_dedup l)
  exact ((List.pairwise_insertionSort _ _).and hnodup).imp fun h => lt_of_le_of_ne h.1 h.2

lemma gather_map (f : β → ℕ) (l : List β) (positions : List ℕ) :
    (gather l positions).map f = gather (l.map f) positions := by
  rw [gather, gather, List.map_filterMap]
  exact List.filterMap_congr fun i _ => by rw [List.getElem?_map]

lemma gather_eq_map (d : β) {positions : List ℕ} (h : ∀ i ∈ positions, i < l.length) :
    gather l positions = positions.map (l.getD · d) := by
  induction positions with
  | nil => rfl
  | cons i positions ih =>
      have hi := h i List.mem_cons_self
      rw [gather, List.filterMap_cons_some (List.getElem?_eq_getElem hi), List.map_cons,
        List.getD_eq_getElem _ _ hi]
      exact congrArg _ (ih fun j hj => h j (List.mem_cons_of_mem _ hj))

lemma gather_perm {positions : List ℕ} (h : positions.Perm (List.range l.length)) :
    (gather l positions).Perm l := by
  refine (h.filterMap _).trans (List.Perm.of_eq ?_)
  have hmap : (List.range l.length).map (l[·]?) = l.map some := by
    apply List.ext_getElem
    · simp
    · intro i hi hi'
      rw [List.length_map] at hi'
      simp [hi']
  have hid : (List.range l.length).filterMap (l[·]?) = ((List.range l.length).map (l[·]?)).filterMap id := by
    rw [List.filterMap_map]
    rfl
  rw [hid, hmap, List.filterMap_map]
  exact List.filterMap_some

/-- **The slices by machines**, in any argsort. -/
lemma slices_gather (argsort : Argsort) (key : β → ℕ) (l : List β) :
    slices (uniqueCounts (l.map key)) (gather l (argsort.run (l.map key))) =
        ((uniqueMachines (l.map key)).map fun m =>
          (m, (gather l (argsort.run (l.map key))).filter fun x => key x = m)) ∧
      ((uniqueMachines (l.map key)).flatMap fun m =>
        (gather l (argsort.run (l.map key))).filter fun x => key x = m) =
          gather l (argsort.run (l.map key)) := by
  set g := gather l (argsort.run (l.map key)) with hg
  have hperm : (argsort.run (l.map key)).Perm (List.range l.length) := by
    have hperm := argsort.perm (l.map key)
    rwa [List.length_map] at hperm
  have hgather : g.Perm l := gather_perm hperm
  have hcounts : uniqueCounts (l.map key) =
      (uniqueMachines (l.map key)).map fun m => (m, (g.map key).count m) :=
    List.map_congr_left fun m _ => by rw [(hgather.map key).count_eq m]
  have hsorted : (g.map key).Pairwise (· ≤ ·) := by
    rw [hg, gather_map, gather_eq_map 0 fun i hi => ?_]
    · exact argsort.sorted _
    · rw [List.length_map]
      exact List.mem_range.1 (hperm.mem_iff.1 hi)
  rw [hcounts]
  apply slices_eq (uniqueMachines_sorted _) hsorted
  intro x hx
  exact mem_uniqueMachines.2 (List.mem_map_of_mem (hgather.mem_iff.1 hx))

/-- **Sorting the positions back**: `np.argsort` of a permutation is its inverse. -/
lemma getD_argsort (argsort : Argsort) {l : List ℕ} (h : l.Perm (List.range l.length)) :
    (argsort.run l).map (l.getD · 0) = List.range l.length := by
  have hperm : ((argsort.run l).map (l.getD · 0)).Perm (List.range l.length) := by
    rw [← gather_eq_map 0 fun i hi => List.mem_range.1 ((argsort.perm l).mem_iff.1 hi)]
    exact (gather_perm (argsort.perm l)).trans h
  exact hperm.eq_of_pairwise' (argsort.sorted l) List.pairwise_le_range

namespace Hosts

variable {kv : Cluster κ α} {name : String} {p : PartitionPolicy κ} {n : ℤ} {table : ℤ → α}

lemma localPull_eq (h : Hosts kv name p n table) {handler : PullHandler α} {row : ℤ → α}
    (hrow : Answers kv name p n handler row) (hhome : home < kv.machineCount) (hids : Valid n ids)
    (howner : ∀ id ∈ ids, p.owner id = home) :
    kv.localPull home name handler ids = .ok ⟨home * kv.groupCount, ids.map row⟩ := by
  have hrun := hrow home hhome ids hids howner
  simp only [Cluster.localPull, h.policy home hhome, h.toLocal hids howner, orRaise, bind,
    Except.bind, hrun]
  rfl

/-- **The slow path** gives the rows of the ids. -/
theorem slowPull_eq (h : Hosts kv name p n table) {handler : PullHandler α} {row : ℤ → α}
    (hhandler : kv.pullHandlers name = some handler) (hrow : Answers kv name p n handler row)
    (hgroup : 0 < kv.groupCount) (hhome : home < kv.machineCount) {pick : ℕ → ℕ}
    (hpick : ∀ m < kv.machineCount, pick m / kv.groupCount = m) (arrive : AnyOrder (PullResponse α))
    (argsort : Argsort) (hids : Valid n ids) (hne : ids ≠ []) :
    kv.slowPull home pick arrive argsort handler name ids = .ok (ids.map row) := by
  obtain ⟨hslices, hflat⟩ := slices_gather argsort p.owner ids
  set sortedId := argsort.run (ids.map p.owner) with hsortedId
  set g := gather ids sortedId with hg
  set ms := uniqueMachines (ids.map p.owner) with hms
  have hperm : sortedId.Perm (List.range ids.length) := by
    have hperm := argsort.perm (ids.map p.owner)
    rwa [List.length_map] at hperm
  have hgperm : g.Perm ids := gather_perm hperm
  have hpart (m : ℕ) : Valid n (g.filter fun x => p.owner x = m) ∧
      ∀ id ∈ g.filter fun x => p.owner x = m, p.owner id = m :=
    ⟨fun id hid => hids id (hgperm.mem_iff.1 (List.mem_filter.1 hid).1),
      fun id hid => of_decide_eq_true (List.mem_filter.1 hid).2⟩
  have hmachine (m : ℕ) (hm : m ∈ ms) : m < kv.machineCount := by
    obtain ⟨id, hid, rfl⟩ := List.mem_map.1 (mem_uniqueMachines.1 hm)
    exact (h.place_of (hids id hid).1 (hids id hid).2).1
  -- The response of each machine.
  let server : ℕ → ℕ := fun m => if m = home then home * kv.groupCount else pick m
  let response : ℕ → PullResponse α :=
    fun m => ⟨server m, (g.filter fun x => p.owner x = m).map row⟩
  have hserver (m : ℕ) (hm : m ∈ ms) : server m / kv.groupCount = m := by
    by_cases hmh : m = home
    · rw [show server m = home * kv.groupCount from if_pos hmh, Nat.mul_div_cancel _ hgroup, hmh]
    · rw [show server m = pick m from if_neg hmh, hpick m (hmachine m hm)]
  have hothers : ((ms.map fun m => (m, g.filter fun x => p.owner x = m)).filter fun x => x.1 ≠ home).mapM
      (fun x => kv.processPull (pick x.1) name x.2) =
        .ok ((ms.filter fun m => m ≠ home).map response) := by
    rw [List.filter_map, List.mapM_map]
    apply mapM_ok
    intro m hm
    obtain ⟨hm, hmh⟩ := List.mem_filter.1 hm
    have hmh' : m ≠ home := of_decide_eq_true hmh
    have hp := hpick m (hmachine m hm)
    have hrun := h.processPull_eq hhandler hrow (s := pick m) (by rw [hp]; exact hmachine m hm) (hpart m).1
      (by rw [hp]; exact (hpart m).2)
    rw [Function.comp_apply, hrun]
    show Except.ok _ = Except.ok (PullResponse.mk (if m = home then _ else _) _)
    rw [if_neg hmh']
  have hown : ((ms.map fun m => (m, g.filter fun x => p.owner x = m)).filter fun x => x.1 = home).mapM
      (fun x => kv.localPull home name handler x.2) =
        .ok ((ms.filter fun m => m = home).map response) := by
    rw [List.filter_map, List.mapM_map]
    apply mapM_ok
    intro m hm
    obtain rfl : m = home := of_decide_eq_true (List.mem_filter.1 hm).2
    rw [Function.comp_apply, h.localPull_eq hrow hhome (hpart m).1 (hpart m).2]
    show Except.ok _ = Except.ok (PullResponse.mk (if m = m then _ else _) _)
    rw [if_pos rfl]
  -- Sorted by servers they are in the order of the machines.
  have hsort : (((ms.filter fun m => m = home).map response ++
      arrive.run ((ms.filter fun m => m ≠ home).map response)).insertionSort
        fun r r' => r.serverId ≤ r'.serverId) = ms.map response := by
    have hlt (m m' : ℕ) (hm : m ∈ ms) (hm' : m' ∈ ms) (h : server m ≤ server m') : m ≤ m' := by
      rw [← hserver m hm, ← hserver m' hm']
      exact Nat.div_le_div_right h
    have hfilter : ((ms.filter fun m => m = home) ++ ms.filter fun m => m ≠ home).Perm ms := by
      convert List.filter_append_perm (fun m => decide (m = home)) ms using 3
      simp
    have hpermutation := (List.perm_insertionSort (fun r r' : PullResponse α => r.serverId ≤ r'.serverId)
      ((ms.filter fun m => m = home).map response ++
        arrive.run ((ms.filter fun m => m ≠ home).map response))).trans
      ((arrive.perm _).append_left _)
    rw [← List.map_append] at hpermutation
    apply (hpermutation.trans (hfilter.map response)).eq_of_pairwise _
      (List.pairwise_insertionSort _ _)
    · rw [List.pairwise_map]
      refine (uniqueMachines_sorted _).imp_of_mem fun {m m'} hm hm' hmm => ?_
      exact le_of_not_gt fun hgt => absurd (hlt m' m hm' hm hgt.le) (not_le_of_gt hmm)
    · intro r r' hr hr' h1 h2
      obtain ⟨m, hm, rfl⟩ :=
        List.mem_map.1 ((hpermutation.trans (hfilter.map response)).mem_iff.1 hr)
      obtain ⟨m', hm', rfl⟩ := List.mem_map.1 hr'
      exact congrArg response (le_antisymm (hlt m m' hm hm' h1) (hlt m' m hm' hm h2))
  have hdata : (ms.map response).flatMap PullResponse.dataTensor = g.map row := by
    rw [List.flatMap_map, ← hflat, List.map_flatMap]
  have hnil : ms.map response ≠ [] := by
    intro hnil
    rw [hnil] at hdata
    have hlen := congrArg List.length hdata
    rw [List.length_map, hgperm.length_eq] at hlen
    exact hne (List.eq_nil_of_length_eq_zero hlen.symm)
  have hback : (argsort.run sortedId).mapM (fun i => orRaise Failure.indexError (g.map row)[i]?) =
      .ok (ids.map row) := by
    have hlen : sortedId.length = ids.length := hperm.length_eq.trans List.length_range
    have hlt (i : ℕ) (hi : i ∈ argsort.run sortedId) : i < sortedId.length :=
      List.mem_range.1 ((argsort.perm sortedId).mem_iff.1 hi)
    have hrange := getD_argsort argsort (hlen ▸ hperm)
    have hget (i : ℕ) (hi : i < sortedId.length) :
        (g.map row)[i]? = some (row (ids.getD (sortedId.getD i 0) 0)) := by
      rw [hg, gather_eq_map 0 fun j hj => List.mem_range.1 (hperm.mem_iff.1 hj), List.map_map,
        List.getElem?_map, List.getElem?_eq_getElem hi, List.getD_eq_getElem _ _ hi]
      rfl
    have hrows : (argsort.run sortedId).map (fun i => row (ids.getD (sortedId.getD i 0) 0)) = ids.map row := by
      have hmap := congrArg (List.map fun j => row (ids.getD j 0)) hrange
      rw [List.map_map] at hmap
      refine hmap.trans (List.ext_getElem (by simp [hlen]) fun i hi hi' => ?_)
      rw [List.length_map] at hi'
      simp [hi']
    rw [← hrows]
    apply mapM_ok
    intro i hi
    rw [hget i (hlt i hi)]
    rfl
  simp only [Cluster.slowPull, h.policy home hhome, h.toPartid home hids, ← hsortedId, ← hg,
    hslices, orRaise,
    bind, Except.bind] at hothers hown ⊢
  rw [hothers]
  simp only [hown, hsort, if_neg hnil, hdata]
  exact hback

/-- **The slices of a push**: to each machine go the rows of its ids, in some order. -/
lemma exists_startPush (h : Hosts kv name p n table) (hname : name ≠ "")
    (hhome : home < kv.machineCount) (argsort : Argsort) {data : List α}
    (hlen : ids.length = data.length) (hids : Valid n ids) : ∃ parts : List (ℕ × List (ℤ × α)),
      kv.startPush home argsort name ids data =
          .ok (parts.filter fun x => x.1 ≠ home, parts.filter fun x => x.1 = home) ∧
        (parts.map Prod.fst).Nodup ∧ (∀ m ∈ parts.map Prod.fst, m < kv.machineCount) ∧
        (∀ id ∈ ids, p.owner id ∈ parts.map Prod.fst) ∧
        ∀ x ∈ parts, x.2.Perm ((ids.zip data).filter fun w => p.owner w.1 = x.1) := by
  have hmachines : (ids.zip data).map (fun w => p.owner w.1) = ids.map p.owner := by
    rw [← List.map_fst_zip hlen.le, List.map_map, List.map_fst_zip hlen.le]
    rfl
  obtain ⟨hslices, -⟩ := slices_gather argsort (fun w : ℤ × α => p.owner w.1) (ids.zip data)
  rw [hmachines] at hslices
  have hperm : (argsort.run (ids.map p.owner)).Perm (List.range (ids.zip data).length) := by
    have hperm := argsort.perm (ids.map p.owner)
    rwa [← hmachines, List.length_map, hmachines] at hperm
  have hgperm : (gather (ids.zip data) (argsort.run (ids.map p.owner))).Perm (ids.zip data) :=
    gather_perm hperm
  refine ⟨(uniqueMachines (ids.map p.owner)).map fun m => (m,
    (gather (ids.zip data) (argsort.run (ids.map p.owner))).filter fun w => p.owner w.1 = m), ?_,
      ?_, ?_, ?_, ?_⟩
  · simp only [Cluster.startPush, if_neg hname, hlen, h.policy home hhome, h.toPartid home hids,
      orRaise, bind,
      Except.bind, hslices, ne_eq, not_true_eq_false, if_false]
    rfl
  · rw [List.map_map]
    exact ((List.map_id _).symm ▸ (uniqueMachines_sorted _).imp Nat.ne_of_lt)
  · intro m hm
    rw [List.map_map] at hm
    obtain ⟨m', hm', rfl⟩ := List.mem_map.1 hm
    obtain ⟨id, hid, rfl⟩ := List.mem_map.1 (mem_uniqueMachines.1 hm')
    exact (h.place_of (hids id hid).1 (hids id hid).2).1
  · intro id hid
    rw [List.map_map]
    exact List.mem_map.2 ⟨_, mem_uniqueMachines.2 (List.mem_map_of_mem hid), rfl⟩
  · intro x hx
    obtain ⟨m, -, rfl⟩ := List.mem_map.1 hx
    exact hgperm.filter _

end Hosts

/-- **`pull` gives the rows of the ids in their order**, whichever servers are asked, in whichever order the
responses come, and however the ids of one machine are sorted. -/
theorem Cluster.pull_eq (kv : Cluster κ α) (name : String) (p : PartitionPolicy κ) (n : ℤ)
    (table row : ℤ → α)
    (handler : PullHandler α) (home : ℕ) (pick : ℕ → ℕ) (arrive : AnyOrder (PullResponse α))
    (argsort : Argsort) (ids : List ℤ) (h : Hosts kv name p n table) (hname : name ≠ "")
    (hhandler : kv.pullHandlers name = some handler) (hrow : Answers kv name p n handler row)
    (hgroup : 0 < kv.groupCount) (hhome : home < kv.machineCount)
    (hpick : ∀ m < kv.machineCount, pick m / kv.groupCount = m) (hids : Valid n ids)
    (hne : ids ≠ []) :
    kv.pull home pick arrive argsort name ids = .ok (ids.map row) := by
  rw [Cluster.pull, if_neg hname, hhandler]
  cases handler with
  | default =>
      have hsame (id : ℤ) (hid : id ∈ ids) : table id = row id := by
        have hm := (h.place_of (hids id hid).1 (hids id hid).2).1
        have hvalid : Valid n [id] := fun id' hid' => List.mem_singleton.1 hid' ▸ hids id hid
        have howner : ∀ id' ∈ [id], p.owner id' = p.owner id := by simp
        have heq := (h.answers_default _ hm [id] hvalid howner).symm.trans
            (hrow _ hm [id] hvalid howner)
        simpa using Except.ok.inj heq
      exact (h.fastPull_eq hhandler hhome hpick arrive hids).trans
        (congrArg Except.ok (List.map_congr_left hsame))
  | udf f => exact h.slowPull_eq hhandler hrow hgroup hhome hpick arrive argsort hids hne

/-! ## Two machines -/

/-- `np.argsort` with `kind="stable"`. -/
def stableArgsort : Argsort where
  run l := (List.range l.length).insertionSort fun i j => l.getD i 0 ≤ l.getD j 0
  perm l := List.perm_insertionSort _ _
  sorted l := by
    rw [List.pairwise_map]
    exact List.pairwise_insertionSort _ _

/-- Three nodes, two of them on the first machine. -/
def threeNodes : PartitionPolicy String where
  partitionBook := ⟨["_N"], [("_N", [(0, 2), (2, 3)])], [("_N", [2, 3])], [2, 3], ⟨2, 1, [0, 2], [1, 2], [2, 3]⟩⟩
  dflt := "_N"
  typeName := "_N"
  partId := 0

/-- A tensor of them. -/
def twoMachines (groupCount : ℕ) : Cluster String ℕ where
  machineCount := 2
  groupCount := groupCount
  partPolicy m _ := some (threeNodes.onMachine m)
  dataStore m _ := [some [10, 11], some [12]].getD m none
  pullHandlers _ := some .default
  pushHandlers _ := some (.default ⟨id, fun _ => List.Perm.refl _⟩)

lemma twoMachines_hosts (groupCount : ℕ) (name : String) :
    Hosts (twoMachines groupCount) name threeNodes 3 fun id => 10 + id.toNat where
  pos := Nat.zero_lt_two
  total := rfl
  policy m _ := rfl
  partitioned m hm := by
    have hlast : threeNodes.partitionBook.lastIds "_N" "_N" = some (endsOf ([0, 2, 3].getD · 0) 2) := rfl
    exact (Partition.partitioned hlast rfl (by decide) hm).2
  data m hm := by
    have hm : m < 2 := hm
    interval_cases m
    · exact ⟨[0, 1], rfl, rfl⟩
    · exact ⟨[2], rfl, rfl⟩

theorem Cluster.pull_eq_twoMachines :
    (twoMachines 2).pull 0 (2 * · + 1) ⟨List.reverse, List.reverse_perm⟩ stableArgsort "feat" [2, 0, 2] =
      .ok [12, 10, 12] :=
  Cluster.pull_eq (twoMachines 2) "feat" threeNodes 3 _ _ .default 0 _ _ _ _ (twoMachines_hosts 2 "feat")
    (by decide) rfl (twoMachines_hosts 2 "feat").answers_default (by decide) (by decide) (by decide) (by decide)
    (by decide)

end DglAscend.Distributed
