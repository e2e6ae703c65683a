import DglAscend.Graphbolt.Cache.PolicyDirectory

/-!
# Batches

A batch that returns has looked up its keys one after the other.  Its trace, the list of its
keys with their indices and with what the directory did for each of them, determines the
tensors that it returns.
-/

namespace DglAscend.Graphbolt

/-- The keys of a batch with their indices, and the access that each of them made. -/
abbrev Trace := List ((ℤ × ℕ) × Access)

/-- What a batch writes for a lookup. -/
def cellOf (x : (ℤ × ℕ) × Access) : BatchCell :=
  ⟨x.1.2, x.1.1, x.2.slot?.getD int64Min, x.2.addr?⟩

variable {out : TwoEnded BatchCell} {l : Trace}

namespace Trace

/-- The run of a directory that a trace describes. -/
def accesses (l : Trace) : List (ℤ × Access) := l.map fun x => (x.1.1, x.2)

/-- The lookups that found a readable entry. -/
def found (l : Trace) : List BatchCell := (l.filter fun x => x.2.isHit).map cellOf

/-- The other lookups. -/
def missed (l : Trace) : List BatchCell := (l.filter fun x => !x.2.isHit).map cellOf

/-- The tensors of `QueryImpl`. -/
def queryResult (l : Trace) : QueryResult where
  positions := l.found.map BatchCell.position
  indices := (l.found ++ l.missed.reverse).map BatchCell.index
  missingKeys := l.missed.reverse.map BatchCell.key
  foundPtrs := l.found.map BatchCell.pointer

/-- The tensors of `QueryAndReplaceImpl`. -/
def queryAndReplaceResult (l : Trace) : QueryAndReplaceResult where
  positions := (l.found ++ l.missed.reverse).map BatchCell.position
  indices := (l.found ++ l.missed.reverse).map BatchCell.index
  pointers := (l.found ++ l.missed.reverse).map BatchCell.pointer
  missingKeys := l.missed.reverse.map BatchCell.key

/-- What `ReplaceImpl` writes for a lookup: nothing for a key that was present. -/
def replaceCell : Access → ℤ × Option ℕ
  | .admitted a p => (p, some a)
  | _ => (int64Min, none)

/-- The tensors of `ReplaceImpl`. -/
def replaceResult (l : Trace) : ReplaceResult where
  positions := l.map fun x => (replaceCell x.2).1
  pointers := l.map fun x => (replaceCell x.2).2

lemma accesses_concat (l : Trace) (x : (ℤ × ℕ) × Access) :
    accesses (l ++ [x]) = l.accesses ++ [(x.1.1, x.2)] := by
  simp [accesses]

lemma found_concat (l : Trace) (x : (ℤ × ℕ) × Access) :
    found (l ++ [x]) = l.found ++ if x.2.isHit then [cellOf x] else [] := by
  unfold found
  split <;> simp_all

lemma missed_concat (l : Trace) (x : (ℤ × ℕ) × Access) :
    missed (l ++ [x]) = l.missed ++ if x.2.isHit then [] else [cellOf x] := by
  unfold missed
  split <;> simp_all

lemma length_found_add_length_missed (l : Trace) :
    l.found.length + l.missed.length = l.length := by
  simpa [found, missed] using (List.length_eq_length_filter_add (l := l) fun x => x.2.isHit).symm

lemma ne_absent_accesses (h : ∀ x ∈ l, x.2 ≠ .absent) : ∀ y ∈ l.accesses, y.2 ≠ .absent := by
  intro y hy
  obtain ⟨x, hx, rfl⟩ := List.mem_map.1 hy
  exact h x hx

/-- A hit is written to the front of the buffer. -/
lemma holds_found {room : ℕ} (h : out.Holds l.found l.missed (room + 1)) {x : (ℤ × ℕ) × Access}
    (hx : x.2.isHit = true) :
    (out.pushFront (cellOf x)).Holds (found (l ++ [x])) (missed (l ++ [x])) room := by
  rw [found_concat, missed_concat, if_pos hx, if_pos hx, List.append_nil]
  exact h.pushFront _

lemma holds_missed {room : ℕ} (h : out.Holds l.found l.missed (room + 1)) {x : (ℤ × ℕ) × Access}
    (hx : x.2.isHit = false) :
    (out.pushBack (cellOf x)).Holds (found (l ++ [x])) (missed (l ++ [x])) room := by
  rw [found_concat, missed_concat, hx, if_neg Bool.false_ne_true, if_neg Bool.false_ne_true,
    List.append_nil]
  exact h.pushBack _

end Trace

namespace CachePolicy

variable {Q : Type} [PolicyQueues Q] [LawfulQueues Q]

/-- `l` is the trace of lookups of `keys` that lead from `s` to `s'`. -/
structure Looked (s : CachePolicy Q) (keys : List (ℤ × ℕ)) (l : Trace) (s' : CachePolicy Q) :
    Prop where
  keys_eq : l.map Prod.fst = keys
  run : Directory.Run s.directory l.accesses s'.directory
  inv : s'.Inv

variable {s t s' : CachePolicy Q}

lemma Looked.nil (hs : s.Inv) : s.Looked [] [] s := ⟨rfl, .nil _, hs⟩

lemma Looked.snoc {keys : List (ℤ × ℕ)} (h : s.Looked keys l t) {x : ℤ × ℕ} {r : Access}
    (hacc : Directory.Accesses t.directory x.1 r s'.directory) (hs' : s'.Inv) :
    s.Looked (keys ++ [x]) (l ++ [(x, r)]) s' where
  keys_eq := by simp [h.keys_eq]
  run := by
    rw [Trace.accesses_concat]
    exact h.run.snoc hacc
  inv := hs'

lemma Looked.capacity_eq {keys : List (ℤ × ℕ)} (h : s.Looked keys l s') :
    s'.capacity = s.capacity := h.run.constants.1

/-! ## `QueryImpl` -/

/-- What the loop of `QueryImpl` maintains: the buffer holds what the trace found and missed. -/
def QueryInv (n : ℕ) (s : CachePolicy Q) (done : List (ℤ × ℕ)) (out : TwoEnded BatchCell)
    (t : CachePolicy Q) : Prop :=
  ∃ l : Trace, s.Looked done l t ∧ (∀ x ∈ l, x.2.reserved = 0) ∧
    out.Holds l.found l.missed (n - done.length)

variable {n fuel : ℕ}

lemma room_succ {α : Type*} {done : List α} (h : done.length < n) (x : α) :
    n - done.length = n - (done ++ [x]).length + 1 := by
  rw [List.length_append, List.length_singleton]
  omega

/-- The ends of one iteration of `QueryImpl`. -/
theorem queryStep_cases {done : List (ℤ × ℕ)} (h : QueryInv n s done out t) (hn : done.length < n)
    (x : ℤ × ℕ) :
    (∃ out' t', queryStep out x t = .ok out' t' ∧ QueryInv n s (done ++ [x]) out' t') ∨
      (∃ t', queryStep out x t = .error .tooManyReads t' ∧
        Overrun t.directory x.1 t'.directory) := by
  obtain ⟨l, hl, hadm, hout⟩ := h
  rw [room_succ hn x] at hout
  have hadm' (r : Access) (hr : r.reserved = 0) : ∀ y ∈ l ++ [(x, r)], y.2.reserved = 0 :=
    List.forall_mem_append.2 ⟨hadm, by simpa using hr⟩
  rcases read_refines hl.inv x.1 with ⟨t', r, hrun, hinv, hr, hacc⟩ | ⟨c, t', hrun, hinv, hacc⟩ |
    ⟨t', hrun, hover⟩
  · refine Or.inl ⟨out.pushBack (cellOf (x, r)), t', ?_, l ++ [(x, r)], hl.snoc hacc hinv, ?_, ?_⟩
    · rcases hr with rfl | rfl <;> simp only [queryStep, hrun, Outcome.bind_ok] <;> rfl
    · exact hadm' r (by rcases hr with rfl | rfl <;> rfl)
    · exact Trace.holds_missed hout (by rcases hr with rfl | rfl <;> rfl)
  · refine Or.inl ⟨out.pushFront (cellOf (x, .hit c.addr c.getPos)), t', ?_,
      l ++ [(x, .hit c.addr c.getPos)], hl.snoc hacc hinv, hadm' _ rfl,
      Trace.holds_found hout rfl⟩
    simp only [queryStep, hrun, Outcome.bind_ok]
    rfl
  · exact Or.inr ⟨t', by simp only [queryStep, hrun, Outcome.bind_error], hover⟩

lemma queryInv_nil (hs : s.Inv) (n : ℕ) : QueryInv n s [] (.empty n .unwritten) s :=
  ⟨[], .nil hs, by simp, TwoEnded.holds_empty n _⟩

variable {xs : List (ℤ × ℕ)}

/-- A returning loop of `QueryImpl` over a part of the batch. -/
lemma queryLoop_ok (hs : s.Inv) (hn : xs.length ≤ n)
    (h : Outcome.loop queryStep xs (.empty n .unwritten) s = .ok out s') :
    QueryInv n s xs out s' := by
  refine Outcome.loop_invariant h (queryInv_nil hs n) ?_
  rintro done x rest b t b' t' rfl hP hrun
  rcases queryStep_cases hP (by simp at hn; omega) x with ⟨out', t'', hrun', hinv⟩ |
    ⟨t'', hrun', -⟩
  · obtain ⟨rfl, rfl⟩ := by simpa using hrun'.symm.trans hrun
    exact hinv
  · simp [hrun'] at hrun

variable {keys : List ℤ}

/-- **What `QueryImpl` returns**: its trace admits nothing and determines the tensors. -/
theorem queryImpl_ok (hs : s.Inv) {r : QueryResult} (h : queryImpl keys s = .ok r s') :
    ∃ l : Trace, s.Looked keys.zipIdx l s' ∧ (∀ x ∈ l, x.2.reserved = 0) ∧
      r = l.queryResult := by
  obtain ⟨out, t, hloop, hr⟩ := Outcome.bind_eq_ok.1 h
  obtain ⟨rfl, rfl⟩ := by simpa using hr
  obtain ⟨l, hl, hadm, hout⟩ := queryLoop_ok hs (by simp) hloop
  obtain ⟨hcells, hfront, -⟩ := TwoEnded.Holds.full (by simpa using hout)
  refine ⟨l, hl, hadm, ?_⟩
  simp [Trace.queryResult, hcells, hfront]

/-- A batch of `Query` throws only when a key has too many readers. -/
theorem queryImpl_error (hs : s.Inv) {e : CacheError} (h : queryImpl keys s = .error e s') :
    e = .tooManyReads ∧ ∃ done x rest l t, keys.zipIdx = done ++ x :: rest ∧
      s.Looked done l t ∧ Overrun t.directory x.1 s'.directory := by
  rcases Outcome.bind_eq_error.1 h with h | ⟨out, t, -, hr⟩
  · obtain ⟨done, x, rest, out, t, hsplit, hloop, hstep⟩ := Outcome.loop_eq_error h
    have hlen := congrArg List.length hsplit
    simp only [List.length_zipIdx, List.length_append, List.length_cons] at hlen
    have hinv := queryLoop_ok (n := keys.length) hs (by omega) hloop
    rcases queryStep_cases hinv (by omega) x with ⟨out', t'', hrun', -⟩ | ⟨t'', hrun', hover⟩
    · simp [hrun'] at hstep
    · obtain ⟨rfl, rfl⟩ := by simpa using hrun'.symm.trans hstep
      obtain ⟨l, hl, -⟩ := hinv
      exact ⟨rfl, done, x, rest, l, t, hsplit, hl, hover⟩
  · simp at hr

omit [LawfulQueues Q] in
/-- A batch of `Query` on absent keys changes nothing. -/
lemma queryImpl_of_absent (h : ∀ k ∈ keys, s.keyToCacheKey k = none) :
    ∃ r, queryImpl keys s = .ok r s := by
  suffices hloop : ∀ (xs : List (ℤ × ℕ)) (out : TwoEnded BatchCell),
      (∀ x ∈ xs, s.keyToCacheKey x.1 = none) → ∃ out', Outcome.loop queryStep xs out s = .ok out' s by
    obtain ⟨out, hout⟩ := hloop keys.zipIdx (.empty keys.length .unwritten) fun x hx => by
      refine h x.1 ?_
      rw [← List.zipIdx_map_fst 0 keys]
      exact List.mem_map_of_mem hx
    exact ⟨_, by rw [queryImpl, hout, Outcome.bind_ok]⟩
  intro xs
  induction xs with
  | nil => exact fun out _ => ⟨out, rfl⟩
  | cons x xs ih =>
      intro out hx
      have hread : queryStep out x s = .ok (out.pushBack ⟨x.2, x.1, int64Min, none⟩) s := by
        simp only [queryStep, read, hx x List.mem_cons_self, Outcome.bind_ok]
      rw [Outcome.loop_cons, hread, Outcome.bind_ok]
      exact ih _ fun y hy => hx y (List.mem_cons_of_mem _ hy)

/-! ## Placing a key

`QueryAndReplaceImpl` and `ReplaceImpl` emplace a key and, if it was absent, insert it. -/

/-- The positions that a batch has inserted so far are still occupied. -/
def AllOccupied (s : CachePolicy Q) (ps : List ℤ) : Prop :=
  ∀ p ∈ ps, s.directory.Occupied p

lemma AllOccupied.accesses {ps : List ℤ} (h : s.AllOccupied ps) (hs : s.Inv) {k : ℤ} {r : Access}
    (hacc : Directory.Accesses s.directory k r t.directory) :
    t.AllOccupied ps := fun p hp => hacc.occupied hs.wellFormed (h p hp)

/-- The ends of inserting an absent key of a batch.  The check of its position never fails. -/
theorem insertUnique_cases (hs : s.Inv) {key : ℤ} (hk : s.keyToCacheKey key = none) {ps : List ℤ}
    (hps : s.AllOccupied ps) (fuel : ℕ) :
    (∃ c s', insertUnique fuel key ps (announce key s) = .ok c s' ∧ s'.Inv ∧
        Directory.Accesses s.directory key (.admitted c.addr c.getPos) s'.directory ∧
        s'.AllOccupied (c.getPos :: ps)) ∨
      (∃ s', insertUnique fuel key ps (announce key s) = .error .keyOutOfRange s' ∧
        s'.directory = (announce key s).directory) ∨
      insertUnique fuel key ps (announce key s) = .timeout := by
  rcases insert_refines hs hk fuel with ⟨-, s', hrun, hd⟩ | ⟨-, c, s', hrun, hinv, hacc⟩ |
    ⟨-, -, -, hrun⟩
  · exact Or.inr (Or.inl ⟨s', by rw [insertUnique, hrun, Outcome.bind_error], hd⟩)
  · obtain ⟨hfree, hocc⟩ := hacc.not_occupied hs.wellFormed
    refine Or.inl ⟨c, s', ?_, hinv, hacc, ?_⟩
    · rw [insertUnique, hrun, Outcome.bind_ok, if_neg fun hmem => hfree (hps _ hmem)]
    · intro p hp
      rcases List.mem_cons.1 hp with rfl | hp
      · exact hocc
      · exact hps.accesses hs hacc p hp
  · exact Or.inr (Or.inr (by rw [insertUnique, hrun, Outcome.bind_timeout]))

/-- How the lookup of one key of a batch can fail. -/
inductive Fails (s : CachePolicy Q) (key : ℤ) : CacheError → CachePolicy Q → Prop where
  | tooManyReads {s' : CachePolicy Q} (h : Overrun s.directory key s'.directory) :
      Fails s key .tooManyReads s'
  | keyOutOfRange {s' : CachePolicy Q} (hk : s.keyToCacheKey key = none)
      (h : s'.directory = (announce key s).directory) : Fails s key .keyOutOfRange s'

/-! ## `QueryAndReplaceImpl` -/

/-- What `QueryAndReplaceImpl` writes for a lookup. -/
def writeLookup (acc : InsertAcc (TwoEnded BatchCell)) (x : ℤ × ℕ) (r : Access) :
    InsertAcc (TwoEnded BatchCell) :=
  match r with
  | .hit _ _ => { acc with out := acc.out.pushFront (cellOf (x, r)) }
  | .admitted _ p => ⟨acc.out.pushBack (cellOf (x, r)), p :: acc.positionSet⟩
  | _ => { acc with out := acc.out.pushBack (cellOf (x, r)) }

variable {acc : InsertAcc (TwoEnded BatchCell)}

/-- The ends of one iteration of `QueryAndReplaceImpl`. -/
theorem queryAndReplaceStep_cases (hs : s.Inv) (hps : s.AllOccupied acc.positionSet) (fuel : ℕ)
    (x : ℤ × ℕ) :
    (∃ r s', queryAndReplaceStep fuel acc x s = .ok (writeLookup acc x r) s' ∧ s'.Inv ∧
        r ≠ .absent ∧ Directory.Accesses s.directory x.1 r s'.directory ∧
        s'.AllOccupied (writeLookup acc x r).positionSet) ∨
      (∃ e s', queryAndReplaceStep fuel acc x s = .error e s' ∧ Fails s x.1 e s') ∨
      queryAndReplaceStep fuel acc x s = .timeout := by
  rcases emplace_refines hs x.1 with ⟨hk, hrun⟩ | ⟨s', hrun, hinv, hacc⟩ |
    ⟨c, s', hrun, hinv, hacc⟩ | ⟨s', hrun, hover⟩
  · have hann : (announce x.1 s).keyToCacheKey x.1 = some none := Function.update_self ..
    have hstep : queryAndReplaceStep fuel acc x s =
        (insertUnique fuel x.1 acc.positionSet (announce x.1 s)).bind fun c s =>
          .ok ⟨acc.out.pushBack ⟨x.2, x.1, c.getPos, some c.addr⟩,
            c.getPos :: acc.positionSet⟩ s := by
      simp only [queryAndReplaceStep, hrun, Outcome.bind_ok, if_pos hann]
    rw [hstep]
    rcases insertUnique_cases hs hk hps fuel with ⟨c, s', hins, hinv, hacc, hocc⟩ |
      ⟨s', hins, hd⟩ | hins
    · exact Or.inl ⟨.admitted c.addr c.getPos, s', by rw [hins]; rfl, hinv, by simp, hacc, hocc⟩
    · exact Or.inr (Or.inl ⟨_, s', by rw [hins]; rfl, .keyOutOfRange hk hd⟩)
    · exact Or.inr (Or.inr (by rw [hins]; rfl))
  · have hne : ¬s'.keyToCacheKey x.1 = some none := hinv.wellFormed.index_ne_sentinel x.1
    refine Or.inl ⟨.busy, s', ?_, hinv, by simp, hacc, hps.accesses hs hacc⟩
    simp only [queryAndReplaceStep, hrun, Outcome.bind_ok, if_neg hne]
    rfl
  · refine Or.inl ⟨.hit c.addr c.getPos, s', ?_, hinv, by simp, hacc, hps.accesses hs hacc⟩
    simp only [queryAndReplaceStep, hrun, Outcome.bind_ok]
    rfl
  · refine Or.inr (Or.inl ⟨_, s', ?_, .tooManyReads hover⟩)
    simp only [queryAndReplaceStep, hrun, Outcome.bind_error]

/-- What the loop of `QueryAndReplaceImpl` maintains. -/
def QueryAndReplaceInv (n : ℕ) (s : CachePolicy Q) (done : List (ℤ × ℕ))
    (acc : InsertAcc (TwoEnded BatchCell)) (t : CachePolicy Q) : Prop :=
  ∃ l : Trace, s.Looked done l t ∧ (∀ x ∈ l, x.2 ≠ .absent) ∧
    acc.out.Holds l.found l.missed (n - done.length) ∧ t.AllOccupied acc.positionSet

lemma QueryAndReplaceInv.snoc {s t t' : CachePolicy Q} {done : List (ℤ × ℕ)}
    (h : QueryAndReplaceInv n s done acc t) (hn : done.length < n) {x : ℤ × ℕ} {r : Access}
    (ht' : t'.Inv) (hr : r ≠ .absent) (hacc : Directory.Accesses t.directory x.1 r t'.directory)
    (hocc : t'.AllOccupied (writeLookup acc x r).positionSet) :
    QueryAndReplaceInv n s (done ++ [x]) (writeLookup acc x r) t' := by
  obtain ⟨l, hl, habs, hout, -⟩ := h
  rw [room_succ hn x] at hout
  refine ⟨l ++ [(x, r)], hl.snoc hacc ht',
    List.forall_mem_append.2 ⟨habs, by simpa using hr⟩, ?_, hocc⟩
  cases r with
  | hit a p => exact Trace.holds_found hout rfl
  | busy => exact Trace.holds_missed hout rfl
  | absent => exact absurd rfl hr
  | admitted a p => exact Trace.holds_missed hout rfl

lemma queryAndReplaceInv_nil (hs : s.Inv) (n : ℕ) :
    QueryAndReplaceInv n s [] ⟨.empty n .unwritten, []⟩ s :=
  ⟨[], .nil hs, by simp, TwoEnded.holds_empty n _, by simp [AllOccupied]⟩

lemma queryAndReplaceLoop_ok (hs : s.Inv) (hn : xs.length ≤ n)
    (h : Outcome.loop (queryAndReplaceStep fuel) xs ⟨.empty n .unwritten, []⟩ s = .ok acc s') :
    QueryAndReplaceInv n s xs acc s' := by
  refine Outcome.loop_invariant h (queryAndReplaceInv_nil hs n) ?_
  rintro done x rest b t b' t' rfl hP hrun
  obtain ⟨l, hl, -, -, hps⟩ := id hP
  rcases queryAndReplaceStep_cases hl.inv hps fuel x with ⟨r, t'', hrun', hinv, hr, hacc, hocc⟩ |
    ⟨e, t'', hrun', -⟩ | hrun'
  · obtain ⟨rfl, rfl⟩ := by simpa using hrun'.symm.trans hrun
    exact hP.snoc (by simp at hn; omega) hinv hr hacc hocc
  · simp [hrun'] at hrun
  · simp [hrun'] at hrun

/-- **What `QueryAndReplaceImpl` returns**: its trace finds every key or admits it, and
determines the tensors. -/
theorem queryAndReplaceImpl_ok (hs : s.Inv) {r : QueryAndReplaceResult}
    (h : queryAndReplaceImpl fuel keys s = .ok r s') :
    ∃ l : Trace, s.Looked keys.zipIdx l s' ∧ (∀ x ∈ l, x.2 ≠ .absent) ∧
      r = l.queryAndReplaceResult := by
  obtain ⟨acc, t, hloop, hr⟩ := Outcome.bind_eq_ok.1 h
  obtain ⟨rfl, rfl⟩ := by simpa using hr
  obtain ⟨l, hl, habs, hout, -⟩ := queryAndReplaceLoop_ok hs (by simp) hloop
  obtain ⟨hcells, hfront, -⟩ := TwoEnded.Holds.full (by simpa using hout)
  refine ⟨l, hl, habs, ?_⟩
  simp [Trace.queryAndReplaceResult, hcells, hfront]

theorem queryAndReplaceImpl_error (hs : s.Inv) {e : CacheError}
    (h : queryAndReplaceImpl fuel keys s = .error e s') :
    ∃ done x rest l t, keys.zipIdx = done ++ x :: rest ∧ s.Looked done l t ∧
      Fails t x.1 e s' := by
  rcases Outcome.bind_eq_error.1 h with h | ⟨out, t, -, hr⟩
  · obtain ⟨done, x, rest, acc, t, hsplit, hloop, hstep⟩ := Outcome.loop_eq_error h
    have hlen := congrArg List.length hsplit
    simp only [List.length_zipIdx, List.length_append, List.length_cons] at hlen
    obtain ⟨l, hl, -, -, hps⟩ := queryAndReplaceLoop_ok (n := keys.length) hs (by omega) hloop
    rcases queryAndReplaceStep_cases hl.inv hps fuel x with ⟨r, t'', hrun', -⟩ |
      ⟨e', t'', hrun', hfail⟩ | hrun'
    · simp [hrun'] at hstep
    · obtain ⟨rfl, rfl⟩ := by simpa using hrun'.symm.trans hstep
      exact ⟨done, x, rest, l, t, hsplit, hl, hfail⟩
    · simp [hrun'] at hstep
  · simp at hr

/-! ## `ReplaceImpl` -/

/-- What `ReplaceImpl` writes for a lookup. -/
def writeReplaced (acc : InsertAcc ReplaceResult) (r : Access) : InsertAcc ReplaceResult :=
  ⟨⟨acc.out.positions ++ [(Trace.replaceCell r).1], acc.out.pointers ++ [(Trace.replaceCell r).2]⟩,
    match r with
    | .admitted _ p => p :: acc.positionSet
    | _ => acc.positionSet⟩

variable {acc : InsertAcc ReplaceResult}

/-- The ends of one iteration of `ReplaceImpl`. -/
theorem replaceStep_cases (hs : s.Inv) (hps : s.AllOccupied acc.positionSet) (fuel : ℕ)
    (x : ℤ × ℕ) :
    (∃ r s', replaceStep fuel acc x s = .ok (writeReplaced acc r) s' ∧ s'.Inv ∧
        r ≠ .absent ∧ Directory.Accesses s.directory x.1 r s'.directory ∧
        s'.AllOccupied (writeReplaced acc r).positionSet) ∨
      (∃ e s', replaceStep fuel acc x s = .error e s' ∧ Fails s x.1 e s') ∨
      replaceStep fuel acc x s = .timeout := by
  rcases emplace_refines hs x.1 with ⟨hk, hrun⟩ | ⟨s', hrun, hinv, hacc⟩ |
    ⟨c, s', hrun, hinv, hacc⟩ | ⟨s', hrun, hover⟩
  · have hann : (announce x.1 s).keyToCacheKey x.1 = some none := Function.update_self ..
    have hstep : replaceStep fuel acc x s =
        (insertUnique fuel x.1 acc.positionSet (announce x.1 s)).bind fun c s =>
          .ok ⟨⟨acc.out.positions ++ [c.getPos], acc.out.pointers ++ [some c.addr]⟩,
            c.getPos :: acc.positionSet⟩ s := by
      simp only [replaceStep, hrun, Outcome.bind_ok, if_pos hann]
    rw [hstep]
    rcases insertUnique_cases hs hk hps fuel with ⟨c, s', hins, hinv, hacc, hocc⟩ |
      ⟨s', hins, hd⟩ | hins
    · exact Or.inl ⟨.admitted c.addr c.getPos, s', by rw [hins]; rfl, hinv, by simp, hacc, hocc⟩
    · exact Or.inr (Or.inl ⟨_, s', by rw [hins]; rfl, .keyOutOfRange hk hd⟩)
    · exact Or.inr (Or.inr (by rw [hins]; rfl))
  · have hne : ¬s'.keyToCacheKey x.1 = some none := hinv.wellFormed.index_ne_sentinel x.1
    refine Or.inl ⟨.busy, s', ?_, hinv, by simp, hacc, hps.accesses hs hacc⟩
    simp only [replaceStep, hrun, Outcome.bind_ok, if_neg hne]
    rfl
  · have hne : ¬s'.keyToCacheKey x.1 = some none := hinv.wellFormed.index_ne_sentinel x.1
    refine Or.inl ⟨.hit c.addr c.getPos, s', ?_, hinv, by simp, hacc, hps.accesses hs hacc⟩
    simp only [replaceStep, hrun, Outcome.bind_ok, if_neg hne]
    rfl
  · refine Or.inr (Or.inl ⟨_, s', ?_, .tooManyReads hover⟩)
    simp only [replaceStep, hrun, Outcome.bind_error]

/-- The loop of `ReplaceImpl` over `xs` comes to a key that is readable at its turn. -/
def MeetsReadable (fuel : ℕ) (xs : List (ℤ × ℕ)) (s : CachePolicy Q) : Prop :=
  ∃ done x rest acc t, xs = done ++ x :: rest ∧ replaceLoop fuel done s = .ok acc t ∧
    t.readable x.1 = true

omit [LawfulQueues Q] in
lemma meetsReadable_nil (fuel : ℕ) (s : CachePolicy Q) : ¬MeetsReadable fuel [] s := by
  rintro ⟨done, x, rest, acc, t, h, -⟩
  simp at h

omit [LawfulQueues Q] in
lemma meetsReadable_concat (h : replaceLoop fuel xs s = .ok acc t) (x : ℤ × ℕ) :
    MeetsReadable fuel (xs ++ [x]) s ↔ MeetsReadable fuel xs s ∨ t.readable x.1 = true := by
  constructor
  · rintro ⟨done, y, rest, acc', t', hsplit, hdone, hread⟩
    rcases List.eq_nil_or_concat' rest with rfl | ⟨rest, z, rfl⟩
    · obtain ⟨rfl, hxy⟩ := List.append_inj' hsplit rfl
      obtain rfl : x = y := by simpa using hxy
      obtain ⟨-, rfl⟩ := by simpa using hdone.symm.trans h
      exact Or.inr hread
    · obtain ⟨rfl, -⟩ : xs = done ++ y :: rest ∧ x = z := by
        rw [← List.cons_append, ← List.append_assoc] at hsplit
        simpa using List.append_inj' hsplit rfl
      exact Or.inl ⟨done, y, rest, acc', t', rfl, hdone, hread⟩
  · rintro (⟨done, y, rest, acc', t', rfl, hdone, hread⟩ | hread)
    · exact ⟨done, y, rest ++ [x], acc', t', by simp, hdone, hread⟩
    · exact ⟨xs, x, [], acc, t, rfl, h, hread⟩

/-- What the loop of `ReplaceImpl` maintains. -/
structure ReplaceInv (fuel : ℕ) (s : CachePolicy Q) (done : List (ℤ × ℕ)) (l : Trace)
    (acc : InsertAcc ReplaceResult) (t : CachePolicy Q) : Prop where
  looked : s.Looked done l t
  ne_absent : ∀ x ∈ l, x.2 ≠ .absent
  out_eq : acc.out = l.replaceResult
  occupied : t.AllOccupied acc.positionSet
  isHit_iff : (∃ x ∈ l, x.2.isHit = true) ↔ MeetsReadable fuel done s

lemma replaceLoop_ok (hs : s.Inv) (h : replaceLoop fuel xs s = .ok acc s') :
    ∃ l, ReplaceInv fuel s xs l acc s' := by
  -- The loop over the keys already processed is part of the invariant: `MeetsReadable` runs it.
  refine (Outcome.loop_invariant (P := fun done b t =>
    replaceLoop fuel done s = .ok b t ∧ ∃ l, ReplaceInv fuel s done l b t) h
    ⟨rfl, [], .nil hs, by simp, rfl, by simp [AllOccupied], by simp [meetsReadable_nil]⟩ ?_).2
  rintro done x rest b t b' t' rfl ⟨hloop, l, hl⟩ hrun
  refine ⟨by rw [replaceLoop, Outcome.loop_append, ← replaceLoop, hloop]; simp [hrun], ?_⟩
  rcases replaceStep_cases hl.looked.inv hl.occupied fuel x with
    ⟨r, t'', hrun', hinv, hr, hacc, hocc⟩ | ⟨e, t'', hrun', -⟩ | hrun'
  · obtain ⟨rfl, rfl⟩ := by simpa using hrun'.symm.trans hrun
    refine ⟨l ++ [(x, r)], hl.looked.snoc hacc hinv,
      List.forall_mem_append.2 ⟨hl.ne_absent, by simpa using hr⟩, ?_, hocc, ?_⟩
    · simp [writeReplaced, hl.out_eq, Trace.replaceResult]
    · rw [meetsReadable_concat hloop, ← hl.isHit_iff, ← isHit_iff_readable hl.looked.inv hacc]
      simp [or_and_right, exists_or]
  · simp [hrun'] at hrun
  · simp [hrun'] at hrun

/-- **What `ReplaceImpl` returns**: its trace finds every key or admits it, and determines the
tensors, in which a key that was found leaves no pointer. -/
theorem replaceImpl_ok (hs : s.Inv) {r : ReplaceResult} (h : replaceImpl fuel keys s = .ok r s') :
    ∃ l : Trace, s.Looked keys.zipIdx l s' ∧ (∀ x ∈ l, x.2 ≠ .absent) ∧ r = l.replaceResult ∧
      ((∃ x ∈ l, x.2.isHit = true) ↔ MeetsReadable fuel keys.zipIdx s) := by
  obtain ⟨acc, t, hloop, hr⟩ := Outcome.bind_eq_ok.1 h
  obtain ⟨rfl, rfl⟩ := by simpa using hr
  obtain ⟨l, hl⟩ := replaceLoop_ok hs hloop
  exact ⟨l, hl.looked, hl.ne_absent, hl.out_eq, hl.isHit_iff⟩

theorem replaceImpl_error (hs : s.Inv) {e : CacheError}
    (h : replaceImpl fuel keys s = .error e s') :
    ∃ done x rest l t, keys.zipIdx = done ++ x :: rest ∧ s.Looked done l t ∧
      Fails t x.1 e s' := by
  rcases Outcome.bind_eq_error.1 h with h | ⟨out, t, -, hr⟩
  · obtain ⟨done, x, rest, acc, t, hsplit, hloop, hstep⟩ := Outcome.loop_eq_error h
    obtain ⟨l, hl⟩ := replaceLoop_ok hs hloop
    rcases replaceStep_cases hl.looked.inv hl.occupied fuel x with ⟨r, t'', hrun', -⟩ |
      ⟨e', t'', hrun', hfail⟩ | hrun'
    · simp [hrun'] at hstep
    · obtain ⟨rfl, rfl⟩ := by simpa using hrun'.symm.trans hstep
      exact ⟨done, x, rest, l, t, hsplit, hl.looked, hfail⟩
    · simp [hrun'] at hstep
  · simp at hr

end CachePolicy

end DglAscend.Graphbolt
