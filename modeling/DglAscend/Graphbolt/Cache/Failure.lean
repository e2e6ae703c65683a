import DglAscend.Graphbolt.Cache.PolicyRun

/-!
# Calls that throw

A batch is processed key by key, and nothing is undone when a key throws: a key that is out of
range stays in the map with the sentinel value, and a read that is one too many wraps the count
of its entry around.
-/

namespace DglAscend.Graphbolt

open PolicyQueues

namespace CachePolicy

/-- A batch that throws. -/
inductive Throws {Q : Type} [PolicyQueues Q] (s : CachePolicy Q) (e : CacheError)
    (s' : CachePolicy Q) : Prop where
  | query {keys : List ℤ} (h : queryImpl keys s = .error e s')
  | queryAndReplace {fuel : ℕ} {keys : List ℤ} (h : queryAndReplaceImpl fuel keys s = .error e s')
  | replace {fuel : ℕ} {keys : List ℤ} (h : replaceImpl fuel keys s = .error e s')

/-- What a failed call should leave behind: no sentinel in the map, the invariant of the
representation, and the counts as they were. -/
structure Unharmed {kind : PolicyKind} (s s' : CachePolicy kind.Queues) : Prop where
  no_sentinel : ∀ key, s'.keyToCacheKey key ≠ some none
  repInv : RepInv s'
  counts : ∀ c ∈ entries s.queues, ∀ c' ∈ entries s'.queues, c'.addr = c.addr →
    c'.referenceCount = c.referenceCount

variable {Q : Type} [PolicyQueues Q] [LawfulQueues Q] {s s' : CachePolicy Q} {e : CacheError}

/-- A batch throws at one of its keys, after the accesses of the earlier ones. -/
lemma Throws.fails (h : s.Throws e s') (hs : s.Inv) :
    ∃ keys l t key, s.Looked keys l t ∧ Fails t key e s' := by
  cases h with
  | query h =>
      obtain ⟨rfl, done, x, rest, l, t, -, hl, hover⟩ := queryImpl_error hs h
      exact ⟨done, l, t, x.1, hl, .tooManyReads hover⟩
  | queryAndReplace h =>
      obtain ⟨done, x, rest, l, t, -, hl, hfail⟩ := queryAndReplaceImpl_error hs h
      exact ⟨done, l, t, x.1, hl, hfail⟩
  | replace h =>
      obtain ⟨done, x, rest, l, t, -, hl, hfail⟩ := replaceImpl_error hs h
      exact ⟨done, l, t, x.1, hl, hfail⟩

omit [LawfulQueues Q] in
/-- A key out of range leaves its sentinel behind. -/
lemma Fails.sentinel {t : CachePolicy Q} {key : ℤ} (h : Fails t key .keyOutOfRange s') :
    s'.keyToCacheKey key = some none := by
  cases h with
  | keyOutOfRange _ hd =>
      have hindex : s'.keyToCacheKey = (announce key t).keyToCacheKey :=
        congrArg Directory.index hd
      rw [hindex]
      exact Function.update_self ..

/-- A read that is one too many leaves a count of `-128`, which was not negative before. -/
lemma Fails.wrapped (hs : s.Inv) {keys : List (ℤ × ℕ)} {l : Trace} {t : CachePolicy Q}
    (hl : s.Looked keys l t) {key : ℤ} (h : Fails t key .tooManyReads s') :
    ∃ c ∈ entries s.queues, ∃ c' ∈ entries s'.queues, c'.addr = c.addr ∧
      0 ≤ c.referenceCount ∧ c'.referenceCount = -128 := by
  cases h with
  | tooManyReads hover =>
      obtain ⟨e, he, -, hp, hd⟩ := hover
      obtain ⟨e₀, he₀, ha₀, hp₀⟩ := hl.run.readable_of_readable hs.wellFormed (by simp [int8Max]) he
        (by rw [hp]; decide)
      obtain ⟨c, hc, rfl⟩ := mem_resident.1 he₀
      have hmem : e.repin e.addr (fun _ => -128) ∈ s'.directory.resident := by
        rw [hd]
        exact Directory.mem_repin.2 ⟨e, he, rfl⟩
      obtain ⟨c', hc', hentry⟩ := mem_resident.1 hmem
      refine ⟨c, hc, c', hc', ?_, hp₀, ?_⟩
      · have := congrArg SlotEntry.addr hentry
        rw [SlotEntry.repin_addr] at this
        exact this.trans ha₀.symm
      · have := congrArg SlotEntry.pins hentry
        rwa [SlotEntry.repin_pins, if_pos rfl] at this

end CachePolicy

namespace PolicyKind

open CachePolicy

/-- **No failed call leaves a policy unharmed.** -/
theorem not_unharmed_of_throws {kind : PolicyKind} {capacity : ℕ} {s s' : CachePolicy kind.Queues}
    {e : CacheError} (h : kind.Reachable capacity s) (hthrow : s.Throws e s') :
    ¬s.Unharmed s' := by
  intro hun
  obtain ⟨keys, l, t, key, hl, hfail⟩ := hthrow.fails h.inv
  have hcases : e = .keyOutOfRange ∨ e = .tooManyReads := by
    cases hfail
    · exact Or.inr rfl
    · exact Or.inl rfl
  rcases hcases with rfl | rfl
  · exact hun.no_sentinel key hfail.sentinel
  · obtain ⟨c, hc, c', hc', haddr, hp, hp'⟩ := hfail.wrapped h.inv hl
    have := hun.counts c hc c' hc' haddr
    omega

/-- The key -1 is out of range. -/
theorem not_unharmed_of_throws_lru :
    ∃ s s' : CachePolicy lru.Queues, s.Throws .keyOutOfRange s' ∧ ¬s.Unharmed s' :=
  ⟨_, _, @Throws.queryAndReplace _ _ _ _ _ 1 [-1] rfl,
    not_unharmed_of_throws (@Reachable.create lru 1 _ rfl)
      (@Throws.queryAndReplace _ _ _ _ _ 1 [-1] rfl)⟩

/-- After a batch with the key -1 has thrown, a `Query` of this key dereferences the null
pointer. -/
theorem nullDereference_after_throw :
    ∃ s s' s'' : CachePolicy sieve.Queues, sieve.Reachable 1 s ∧
      queryAndReplaceImpl 1 [-1] s = .error .keyOutOfRange s' ∧
      queryImpl [-1] s' = .error .nullDereference s'' :=
  ⟨_, _, _, @Reachable.create sieve 1 _ rfl, rfl, rfl⟩

end PolicyKind

end DglAscend.Graphbolt
