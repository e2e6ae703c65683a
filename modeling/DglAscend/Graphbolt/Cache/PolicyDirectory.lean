import DglAscend.Graphbolt.Cache.PolicyLaws

/-!
# Policies as directories

`CachePolicy.directory` forgets the order and the frequencies of the nodes of a policy.  What is
left is a `Directory`, and the members `Read`, `Emplace` and `Insert` refine its accesses: this
file gives, for each of them, all the ways in which a call can end.
-/

namespace DglAscend.Graphbolt

open PolicyQueues

namespace CachePolicy

variable {Q : Type} [PolicyQueues Q]

/-- The directory that a policy keeps. -/
def directory (s : CachePolicy Q) : Directory ℤ where
  capacity := s.capacity
  used := s.cacheUsage
  pinLimit := int8Max
  index := s.keyToCacheKey
  resident := ((entries s.queues).map CacheKey.entry : List (SlotEntry ℤ))
  nextAddr := s.nextAddr

variable (s : CachePolicy Q)

@[simp] lemma directory_capacity : s.directory.capacity = s.capacity := rfl
@[simp] lemma directory_used : s.directory.used = s.cacheUsage := rfl
@[simp] lemma directory_pinLimit : s.directory.pinLimit = int8Max := rfl
@[simp] lemma directory_index : s.directory.index = s.keyToCacheKey := rfl
@[simp] lemma directory_nextAddr : s.directory.nextAddr = s.nextAddr := rfl

variable {s : CachePolicy Q} {e : SlotEntry ℤ}

lemma mem_resident : e ∈ s.directory.resident ↔ ∃ c ∈ entries s.queues, c.entry = e := by
  simp [directory]

lemma node?_eq_some {a : ℕ} {c : CacheKey} (h : s.node? a = some c) :
    c ∈ entries s.queues ∧ c.addr = a :=
  ⟨List.mem_of_find?_eq_some h, by simpa using List.find?_some h⟩

lemma exists_node? (hs : s.directory.WellFormed) (he : e ∈ s.directory.resident) :
    ∃ c, s.node? e.addr = some c ∧ c.entry = e := by
  obtain ⟨c, hc, rfl⟩ := mem_resident.1 he
  obtain ⟨c', hc'⟩ : ∃ c', s.node? c.addr = some c' :=
    Option.isSome_iff_exists.1 (List.find?_isSome.2 ⟨c, hc, by simp⟩)
  obtain ⟨hmem, haddr⟩ := node?_eq_some hc'
  exact ⟨c', hc', hs.eq_of_addr (mem_resident.2 ⟨c', hmem, rfl⟩) he haddr⟩

variable [LawfulQueues Q]

/-- **The invariant of a policy**: its directory is well-formed and its own bookkeeping right. -/
structure Inv (s : CachePolicy Q) : Prop where
  wellFormed : s.directory.WellFormed
  valid : LawfulQueues.Valid s.capacity s.queues

/-- A touch changes order and frequencies only. -/
lemma directory_touch (a : ℕ) (s : CachePolicy Q) :
    ({ s with queues := touch a s.queues } : CachePolicy Q).directory = s.directory := by
  simp only [directory, Directory.mk.injEq, true_and, and_true]
  exact Multiset.coe_eq_coe.2 (LawfulQueues.entries_touch a s.queues)

/-- `fetch_add` through a pointer, in the directory. -/
lemma directory_addReference (a : ℕ) (delta : ℤ) (s : CachePolicy Q) :
    ({ s with queues := modify a (CacheKey.addReference delta) s.queues } :
        CachePolicy Q).directory =
      s.directory.repin a fun p => wrapInt8 (p + delta) := by
  simp only [directory, Directory.repin, Directory.mk.injEq, true_and, and_true,
    LawfulQueues.entries_modify, modifyAt, List.map_map, Multiset.map_coe]
  congr 1
  refine List.map_congr_left fun c _ => ?_
  by_cases ha : c.addr = a
  · rw [Function.comp_apply, if_pos ha, Function.comp_apply, SlotEntry.repin,
      if_pos (show c.entry.addr = a from ha)]
    rfl
  · rw [Function.comp_apply, if_neg ha, Function.comp_apply, SlotEntry.repin,
      if_neg (show ¬c.entry.addr = a from ha)]

lemma Inv.touch (hs : s.Inv) (a : ℕ) :
    ({ s with queues := touch a s.queues } : CachePolicy Q).Inv :=
  ⟨by rw [directory_touch]; exact hs.wellFormed, LawfulQueues.valid_touch hs.valid a⟩

lemma Inv.addReference (hs : s.Inv) (a : ℕ) (delta : ℤ) :
    ({ s with queues := modify a (CacheKey.addReference delta) s.queues } : CachePolicy Q).Inv where
  wellFormed := by
    rw [directory_addReference]
    exact hs.wellFormed.repin a fun _ _ _ => wrapInt8_le _
  valid := LawfulQueues.valid_modify hs.valid a _

/-! ## Reading a node -/

/-- `CacheKey::StartRead` on a node whose count is at the limit throws, and leaves the count
wrapped around. -/
theorem startRead_cases (hs : s.Inv) {c : CacheKey} (hc : c.entry ∈ s.directory.resident)
    (hp : 0 ≤ c.referenceCount) :
    (c.referenceCount < int8Max ∧ ∃ s', startRead c s = .ok c s' ∧ s'.Inv ∧
        s'.directory = s.directory.repin c.addr (· + 1)) ∨
      (c.referenceCount = int8Max ∧ ∃ s', startRead c s = .error .tooManyReads s' ∧
        s'.directory = s.directory.repin c.addr fun _ => -128) := by
  have hle : c.referenceCount ≤ int8Max := hs.wellFormed.pins_le _ hc
  have huniq (e : SlotEntry ℤ) (he : e ∈ s.directory.resident) (ha : e.addr = c.addr) :
      e.pins = c.referenceCount := by rw [hs.wellFormed.eq_of_addr he hc ha]; rfl
  by_cases hlt : c.referenceCount < int8Max
  · refine Or.inl ⟨hlt, _, by rw [startRead, if_pos hlt], hs.addReference _ _, ?_⟩
    rw [directory_addReference]
    refine Directory.repin_congr fun e he ha => ?_
    rw [huniq e he ha]
    simp only [int8Max] at hlt
    exact wrapInt8_of_range (by omega) (by omega)
  · have heq : c.referenceCount = int8Max := by omega
    refine Or.inr ⟨heq, _, by rw [startRead, if_neg hlt], ?_⟩
    rw [directory_addReference]
    refine Directory.repin_congr fun e he ha => ?_
    rw [huniq e he ha, heq]
    rfl

/-- The three ends of `Read` and `Emplace` for a key that is present. -/
theorem readNode_cases (hs : s.Inv) (he : e ∈ s.directory.resident) :
    (e.pins < 0 ∧ ∃ s', readNode e.addr s = .ok none s' ∧ s'.Inv ∧ s'.directory = s.directory) ∨
      (0 ≤ e.pins ∧ e.pins < int8Max ∧ ∃ c s', readNode e.addr s = .ok (some c) s' ∧ s'.Inv ∧
        c.entry = e ∧ s'.directory = s.directory.repin e.addr (· + 1)) ∨
      (e.pins = int8Max ∧ ∃ s', readNode e.addr s = .error .tooManyReads s' ∧
        s'.directory = s.directory.repin e.addr fun _ => -128) := by
  have ht := hs.touch e.addr
  have hdir := directory_touch e.addr s
  obtain ⟨c, hnode, hentry⟩ := exists_node? ht.wellFormed (hdir ▸ he)
  have hpins : c.referenceCount = e.pins := by rw [← hentry]; rfl
  simp only [readNode, hnode]
  by_cases hw : c.beingWritten = true
  · have hneg := CacheKey.beingWritten_eq_true.1 hw
    rw [if_pos hw]
    exact Or.inl ⟨by omega, _, rfl, ht, hdir⟩
  · have hpos := CacheKey.beingWritten_eq_false.1 (Bool.eq_false_iff.2 hw)
    rw [if_neg hw]
    have hmem : c.entry ∈
        ({ s with queues := PolicyQueues.touch e.addr s.queues } :
          CachePolicy Q).directory.resident := by rw [hentry, hdir]; exact he
    have haddr : c.addr = e.addr := by rw [← hentry]; rfl
    rcases startRead_cases ht hmem hpos with ⟨hlt, s', hrun, hinv, hd⟩ | ⟨heq, s', hrun, hd⟩
    · refine Or.inr (Or.inl ⟨by omega, by omega, c, s', by rw [hrun]; rfl, hinv, hentry, ?_⟩)
      rw [hd, hdir, haddr]
    · refine Or.inr (Or.inr ⟨by omega, s', by rw [hrun]; rfl, ?_⟩)
      rw [hd, hdir, haddr]

/-- What `StartRead` does to a directory when it throws: the entry of `key` had the largest
count, and has the smallest afterwards. -/
def Overrun (d : Directory ℤ) (key : ℤ) (d' : Directory ℤ) : Prop :=
  ∃ e ∈ d.resident, e.key = key ∧ e.pins = int8Max ∧ d' = d.repin e.addr fun _ => -128

variable {key : ℤ}

/-- How `readNode` ends, in terms of the directory. -/
theorem readNode_refines (hs : s.Inv) {a : ℕ} (hk : s.keyToCacheKey key = some (some a)) :
    (∃ s', readNode a s = .ok none s' ∧ s'.Inv ∧
        Directory.Accesses s.directory key .busy s'.directory) ∨
      (∃ c s', readNode a s = .ok (some c) s' ∧ s'.Inv ∧
        Directory.Accesses s.directory key (.hit c.addr c.getPos) s'.directory) ∨
      (∃ s', readNode a s = .error .tooManyReads s' ∧
        Overrun s.directory key s'.directory) := by
  obtain ⟨e, he, rfl, rfl⟩ := (hs.wellFormed.index_iff key a).1 hk
  rcases readNode_cases hs he with ⟨hp, s', hrun, hinv, hd⟩ |
    ⟨hp, hlt, c, s', hrun, hinv, rfl, hd⟩ | ⟨hp, s', hrun, hd⟩
  · exact Or.inl ⟨s', hrun, hinv, by rw [hd]; exact .busy he hp⟩
  · exact Or.inr (Or.inl ⟨c, s', hrun, hinv, by rw [hd]; exact .hit he hp hlt⟩)
  · exact Or.inr (Or.inr ⟨s', hrun, e, he, rfl, hp, hd⟩)

/-- **`Read` refines the accesses of the directory.** -/
theorem read_refines (hs : s.Inv) (key : ℤ) :
    (∃ s' r, read key s = .ok none s' ∧ s'.Inv ∧ (r = .busy ∨ r = .absent) ∧
        Directory.Accesses s.directory key r s'.directory) ∨
      (∃ c s', read key s = .ok (some c) s' ∧ s'.Inv ∧
        Directory.Accesses s.directory key (.hit c.addr c.getPos) s'.directory) ∨
      (∃ s', read key s = .error .tooManyReads s' ∧ Overrun s.directory key s'.directory) := by
  rcases hk : s.keyToCacheKey key with - | - | a
  · exact Or.inl ⟨s, .absent, by simp [read, hk], hs, Or.inr rfl, .absent hk⟩
  · exact absurd hk (hs.wellFormed.index_ne_sentinel key)
  · simp only [read, hk]
    rcases readNode_refines hs hk with ⟨s', hrun, hinv, hacc⟩ | hhit | hover
    · exact Or.inl ⟨s', .busy, hrun, hinv, Or.inl rfl, hacc⟩
    · exact Or.inr (Or.inl hhit)
    · exact Or.inr (Or.inr hover)

/-- A key is readable when it has an entry that is not being written. -/
lemma readable_iff (hs : s.Inv) :
    s.readable key = true ↔ ∃ e ∈ s.directory.resident, e.key = key ∧ 0 ≤ e.pins := by
  have hnode {a : ℕ} (hk : s.keyToCacheKey key = some (some a)) :
      ∃ e ∈ s.directory.resident, e.key = key ∧
        ((s.node? a).any fun c => !c.beingWritten) = decide (0 ≤ e.pins) := by
    obtain ⟨e, he, rfl, hkey⟩ := (hs.wellFormed.index_iff key a).1 hk
    obtain ⟨c, hc, rfl⟩ := exists_node? hs.wellFormed he
    refine ⟨_, he, hkey, ?_⟩
    rw [hc, Option.any_some, CacheKey.beingWritten, CacheKey.entry_pins, ← decide_not]
    exact decide_eq_decide.2 (by omega)
  constructor
  · intro h
    unfold readable at h
    split at h
    · rename_i a hk
      obtain ⟨e, he, hkey, heq⟩ := hnode hk
      exact ⟨e, he, hkey, by simpa [h] using heq.symm⟩
    · simp at h
  · rintro ⟨e, he, rfl, hp⟩
    have hk : s.keyToCacheKey e.key = some (some e.addr) :=
      (hs.wellFormed.index_iff e.key e.addr).2 ⟨e, he, rfl, rfl⟩
    obtain ⟨e', he', hkey, heq⟩ := hnode hk
    obtain rfl := hs.wellFormed.eq_of_key he' he hkey
    rw [readable, hk]
    simpa [hp] using heq

/-- An access is a hit exactly when its key was readable. -/
lemma isHit_iff_readable (hs : s.Inv) {r : Access} {d : Directory ℤ}
    (h : Directory.Accesses s.directory key r d) : r.isHit = true ↔ s.readable key = true := by
  rw [readable_iff hs]
  have habsent {k : ℤ} (hk : s.directory.index k = none) :
      ¬∃ e ∈ s.directory.resident, e.key = k ∧ 0 ≤ e.pins := fun ⟨e, he, hkey, _⟩ =>
    hs.wellFormed.key_ne_of_absent hk he hkey
  cases h with
  | hit he hp _ => exact iff_of_true rfl ⟨_, he, rfl, hp⟩
  | busy he hp =>
      refine iff_of_false (by simp [Access.isHit]) fun ⟨e', he', hkey, hp'⟩ => ?_
      rw [hs.wellFormed.eq_of_key he' he hkey] at hp'
      omega
  | absent hk => exact iff_of_false (by simp [Access.isHit]) (habsent hk)
  | fill hk _ => exact iff_of_false (by simp [Access.isHit]) (habsent hk)
  | replace hk _ _ _ => exact iff_of_false (by simp [Access.isHit]) (habsent hk)

/-! ## Inserting a key -/

/-- The state in which `Emplace` leaves a policy when `key` is absent. -/
def announce (key : ℤ) (s : CachePolicy Q) : CachePolicy Q :=
  { s with keyToCacheKey := Function.update s.keyToCacheKey key (some none) }

/-- The ends of `Emplace`: it announces an absent key, and is `Read` for the others. -/
theorem emplace_refines (hs : s.Inv) (key : ℤ) :
    (s.keyToCacheKey key = none ∧ emplace key s = .ok none (announce key s)) ∨
      (∃ s', emplace key s = .ok none s' ∧ s'.Inv ∧
        Directory.Accesses s.directory key .busy s'.directory) ∨
      (∃ c s', emplace key s = .ok (some c) s' ∧ s'.Inv ∧
        Directory.Accesses s.directory key (.hit c.addr c.getPos) s'.directory) ∨
      (∃ s', emplace key s = .error .tooManyReads s' ∧
        Overrun s.directory key s'.directory) := by
  rcases hk : s.keyToCacheKey key with - | - | a
  · exact Or.inl ⟨rfl, by simp [emplace, hk, announce]⟩
  · exact absurd hk (hs.wellFormed.index_ne_sentinel key)
  · simp only [emplace, hk]
    exact Or.inr (readNode_refines hs hk)

/-- The state of `Insert` after it has pushed the new node, before it calls `Evict`. -/
def pushed (key : ℤ) (s : CachePolicy Q) : CachePolicy Q :=
  { s with
    queues := pushFront (eraseGhost key s.queues).1 (CacheKey.ofKey s.nextAddr key)
      (eraseGhost key s.queues).2
    nextAddr := s.nextAddr + 1
    keyToCacheKey := Function.update s.keyToCacheKey key (some (some s.nextAddr)) }

omit [LawfulQueues Q] in
/-- `Insert` of a 48-bit key is `Evict` in the state with the new node, which then gets the
position that `Evict` found. -/
lemma insert_eq_bind_evict (hkey : 0 ≤ key ∧ key < 2 ^ 48) (fuel : ℕ) (s : CachePolicy Q) :
    insert fuel key (announce key s) = (evict fuel (pushed key s)).bind fun pos t =>
      .ok ((CacheKey.ofKey s.nextAddr key).setPos pos)
        { t with queues := modify s.nextAddr (CacheKey.setPos pos) t.queues } := by
  have hget := (CacheKey.getKey_ofKey_eq_iff s.nextAddr key).2 hkey
  simp only [insert, announce, hget, if_pos, Function.update_idem]
  rfl

/-- Setting the position of the newest node does not touch the other ones. -/
lemma map_entry_setPos (pos : ℤ) {a : ℕ} {l : List CacheKey} {rest : Multiset (SlotEntry ℤ)}
    (he : e.addr = a) (hrest : ∀ x ∈ rest, x.addr ≠ a)
    (hl : (l.map CacheKey.entry : Multiset (SlotEntry ℤ)) = e ::ₘ rest) :
    ((modifyAt a (CacheKey.setPos pos) l).map CacheKey.entry : Multiset (SlotEntry ℤ)) =
      { e with slot := pos } ::ₘ rest := by
  have hmap (c : CacheKey) : (if c.addr = a then c.setPos pos else c).entry =
      if c.entry.addr = a then { c.entry with slot := pos } else c.entry := by
    rw [CacheKey.entry_addr]
    split <;> rfl
  have h := congrArg (Multiset.map fun x : SlotEntry ℤ =>
    if x.addr = a then { x with slot := pos } else x) hl
  rw [Multiset.map_cons, if_pos he, Multiset.map_coe, List.map_map] at h
  rw [modifyAt, List.map_map]
  refine Eq.trans ?_ (h.trans ?_)
  · exact congrArg _ (List.map_congr_left fun c _ => hmap c)
  · congr 1
    refine (Multiset.map_congr rfl fun x hx => ?_).trans (Multiset.map_id rest)
    rw [if_neg (hrest x hx), id]

/-- The entry that `Insert` pushes. -/
lemma resident_pushed (hkey : 0 ≤ key ∧ key < 2 ^ 48) :
    (pushed key s).directory.resident = ⟨s.nextAddr, key, int64Min, -1⟩ ::ₘ s.directory.resident := by
  have hget := (CacheKey.getKey_ofKey_eq_iff s.nextAddr key).2 hkey
  have hperm := LawfulQueues.entries_pushFront (eraseGhost key s.queues).1
    (CacheKey.ofKey s.nextAddr key) (eraseGhost key s.queues).2
  rw [LawfulQueues.entries_eraseGhost] at hperm
  have hentry : (CacheKey.ofKey s.nextAddr key).entry = ⟨s.nextAddr, key, int64Min, -1⟩ := by
    rw [CacheKey.entry, hget]
    rfl
  rw [hentry] at hperm
  exact Multiset.coe_eq_coe.2 hperm

lemma inv_and_of_directory_eq {d : Directory ℤ} (hv : LawfulQueues.Valid s.capacity s.queues)
    (hd : d.WellFormed) (h : s.directory = d) : s.Inv ∧ s.directory = d :=
  ⟨⟨h ▸ hd, hv⟩, h⟩

/-- `Evict` in a state with unused slots. -/
lemma insert_of_lt (hs : s.Inv) (hkey : 0 ≤ key ∧ key < 2 ^ 48) (hk : s.keyToCacheKey key = none)
    (hu : s.cacheUsage < s.capacity) (fuel : ℕ) : ∃ s', insert fuel key (announce key s) =
        .ok ((CacheKey.ofKey s.nextAddr key).setPos s.cacheUsage) s' ∧ s'.Inv ∧
      s'.directory = s.directory.fill key := by
  have hu' : (pushed key s).cacheUsage < (pushed key s).capacity := hu
  refine ⟨_, by rw [insert_eq_bind_evict hkey, evict, if_pos hu', Outcome.bind_ok]; rfl, ?_⟩
  have hres := map_entry_setPos s.cacheUsage rfl (fun x hx => (hs.wellFormed.addr_lt x hx).ne)
    (resident_pushed (s := s) hkey)
  refine inv_and_of_directory_eq ?_ (hs.wellFormed.fill hk hu (by simp [int8Max])) ?_
  · exact LawfulQueues.valid_modify (LawfulQueues.valid_pushFront
      (LawfulQueues.valid_eraseGhost hs.valid key) _ _) _ _
  · rw [directory, Directory.fill, Directory.mk.injEq]
    exact ⟨rfl, rfl, rfl, rfl, by rw [LawfulQueues.entries_modify]; exact hres, rfl⟩

/-- `Evict` in a full state: the slot of an idle node passes to the new one. -/
lemma insert_of_victim (hs : s.Inv) (hkey : 0 ≤ key ∧ key < 2 ^ 48)
    (hk : s.keyToCacheKey key = none) (hu : s.capacity ≤ s.cacheUsage) {fuel : ℕ} {v : CacheKey}
    {q : Q} (hv : victim fuel (pushed key s).queues = .ok v q) :
    v.entry ∈ s.directory.resident ∧ v.referenceCount = 0 ∧
      ∃ s', insert fuel key (announce key s) =
          .ok ((CacheKey.ofKey s.nextAddr key).setPos v.getPos) s' ∧ s'.Inv ∧
        s'.directory = s.directory.replace key v.entry := by
  obtain ⟨hidle, hperm⟩ := LawfulQueues.victim_ok hv
  have hsplit : (⟨s.nextAddr, key, int64Min, -1⟩ : SlotEntry ℤ) ::ₘ s.directory.resident =
      v.entry ::ₘ ((entries q).map CacheKey.entry : List (SlotEntry ℤ)) := by
    rw [← resident_pushed hkey]
    exact Multiset.coe_eq_coe.2 hperm
  -- The new node is being written, so that it is not the one that leaves.
  have hne : v.entry ≠ ⟨s.nextAddr, key, int64Min, -1⟩ := fun heq => by
    have := congrArg SlotEntry.pins heq
    simp [hidle] at this
  have hmem : v.entry ∈ s.directory.resident := by
    have : v.entry ∈ (⟨s.nextAddr, key, int64Min, -1⟩ : SlotEntry ℤ) ::ₘ s.directory.resident := by
      rw [hsplit]; exact Multiset.mem_cons_self _ _
    exact (Multiset.mem_cons.1 this).resolve_left hne
  have hrest : ((entries q).map CacheKey.entry : Multiset (SlotEntry ℤ)) =
      ⟨s.nextAddr, key, int64Min, -1⟩ ::ₘ s.directory.resident.erase v.entry := by
    have h := congrArg (fun m => m.erase v.entry) hsplit
    rw [Multiset.erase_cons_head, Multiset.erase_cons_tail _ hne.symm] at h
    exact h.symm
  have hres := map_entry_setPos v.getPos rfl
    (fun x hx => (hs.wellFormed.addr_lt x (Multiset.mem_of_mem_erase hx)).ne) hrest
  have hu' : ¬(pushed key s).cacheUsage < (pushed key s).capacity := not_lt.2 hu
  refine ⟨hmem, hidle, _, by
    rw [insert_eq_bind_evict hkey, evict, if_neg hu', onQueues, hv, Outcome.map_ok,
      Outcome.bind_ok, Outcome.bind_ok], ?_⟩
  refine inv_and_of_directory_eq ?_ (hs.wellFormed.replace hk hmem (by simp [int8Max])) ?_
  · exact LawfulQueues.valid_modify (LawfulQueues.valid_victim (LawfulQueues.valid_pushFront
      (LawfulQueues.valid_eraseGhost hs.valid key) _ _) hv) _ _
  · rw [directory, Directory.replace, Directory.mk.injEq]
    exact ⟨rfl, rfl, rfl, rfl, by rw [LawfulQueues.entries_modify]; exact hres, rfl⟩

/-- The loop of `Evict` that `Insert` runs in a full state raises no error. -/
lemma victim_pushed_ne_error (hs : s.Inv) (hu : s.capacity ≤ s.cacheUsage) (key : ℤ) (fuel : ℕ)
    (e : CacheError) (q : Q) : victim fuel (pushed key s).queues ≠ .error e q := by
  refine LawfulQueues.victim_ne_error (LawfulQueues.valid_eraseGhost hs.valid key) ?_ fuel _ _ e q
  rw [LawfulQueues.entries_eraseGhost]
  have hcard := hs.wellFormed.card_resident
  simp only [directory, Multiset.coe_card, List.length_map] at hcard
  omega

/-- **`Insert` refines the admission of a key.**  It throws for keys that have not 48 bits, may
not end when the cache is full, and otherwise takes an unused slot or that of an idle node. -/
theorem insert_refines (hs : s.Inv) (hk : s.keyToCacheKey key = none) (fuel : ℕ) :
    (¬(0 ≤ key ∧ key < 2 ^ 48) ∧ ∃ s', insert fuel key (announce key s) =
        .error .keyOutOfRange s' ∧ s'.directory = (announce key s).directory) ∨
      ((0 ≤ key ∧ key < 2 ^ 48) ∧ ∃ c s', insert fuel key (announce key s) = .ok c s' ∧ s'.Inv ∧
        Directory.Accesses s.directory key (.admitted c.addr c.getPos) s'.directory) ∨
      ((0 ≤ key ∧ key < 2 ^ 48) ∧ s.capacity ≤ s.cacheUsage ∧
        victim fuel (pushed key s).queues = .timeout ∧
        insert fuel key (announce key s) = .timeout) := by
  by_cases hkey : 0 ≤ key ∧ key < 2 ^ 48
  · by_cases hu : s.cacheUsage < s.capacity
    · obtain ⟨s', hrun, hinv, hd⟩ := insert_of_lt hs hkey hk hu fuel
      exact Or.inr (Or.inl ⟨hkey, _, s', hrun, hinv, by rw [hd]; exact .fill hk hu⟩)
    · have hu := not_lt.1 hu
      cases hv : victim fuel (pushed key s).queues with
      | ok v q =>
          obtain ⟨hmem, hidle, s', hrun, hinv, hd⟩ := insert_of_victim hs hkey hk hu hv
          exact Or.inr (Or.inl ⟨hkey, _, s', hrun, hinv, by
            rw [hd]; exact .replace hk hu hmem hidle⟩)
      | error e q => exact absurd hv (victim_pushed_ne_error hs hu key fuel e q)
      | timeout =>
          have hu' : ¬(pushed key s).cacheUsage < (pushed key s).capacity := not_lt.2 hu
          refine Or.inr (Or.inr ⟨hkey, hu, rfl, ?_⟩)
          rw [insert_eq_bind_evict hkey, evict, if_neg hu', onQueues, hv, Outcome.map_timeout,
            Outcome.bind_timeout, Outcome.bind_timeout]
  · have hget : ¬(CacheKey.ofKey s.nextAddr key).getKey = key := fun h =>
      hkey ((CacheKey.getKey_ofKey_eq_iff s.nextAddr key).1 h)
    refine Or.inl ⟨hkey, _, if_neg hget, ?_⟩
    have hentries := LawfulQueues.entries_eraseGhost key s.queues
    simp only [directory, announce]
    exact congrArg (fun l : List CacheKey => Directory.mk s.capacity s.cacheUsage int8Max
      (Function.update s.keyToCacheKey key (some none)) (l.map CacheKey.entry) s.nextAddr) hentries

end CachePolicy

end DglAscend.Graphbolt
