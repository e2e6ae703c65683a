import DglAscend.Graphbolt.Cache.ReadAsync
import DglAscend.Graphbolt.Cache.ResultFormat

/-!
# Cached features (`impl/cpu_feature_cache.py`, `impl/cpu_cached_feature.py`)

A call of `query_and_replace` runs all stages of a read, with nothing in between, and returns
what its reader would.  A `CPUCachedFeature` also has updates, which write to the fallback feature
and then `replace` the rows in the cache.  `Replace` skips a key that is resident, so such a row
keeps its old value; a run in which that never happens reads its own writes.
-/

namespace DglAscend.Graphbolt

open PartitionedCachePolicy

variable {kind : PolicyKind} {V : Type} {size n fuel : ℕ}

namespace CpuFeatureCache

variable {assign : PartAssignment} {c c' : CpuFeatureCache kind V} {keys : KeyTensor} {offset : ℤ}
  {f : ℤ → V} {fuel : ℕ} {values : List (Option V)} {P W : ℕ → Multiset ℕ}

/-- The calls of a `query_and_replace`. -/
lemma queryAndReplace_calls (h : c.queryAndReplace assign fuel keys f offset = .ok values c') :
    ∃ r s₁ s₂ found cache s₃,
      c.policy.queryAndReplace assign fuel keys offset = .ok r s₁ ∧
      c.cache.query (r.positions.take (foundCnt keys r)) r.indices keys.keys.length = .ok found ∧
      s₁.readingCompleted (r.pointers.take (foundCnt keys r)) r.foundOffsets = .ok () s₂ ∧
      indexPut found (r.indices.drop (foundCnt keys r)) (r.missingKeys.map f) = .ok values ∧
      c.cache.replace (r.positions.drop (foundCnt keys r)) (r.missingKeys.map f) = .ok cache ∧
      s₂.writingCompleted (r.pointers.drop (foundCnt keys r)) r.missingOffsets = .ok () s₃ ∧
      c'.policy = s₃ ∧ c'.cache = cache := by
  obtain ⟨r, c₁, hcall₁, h⟩ := Outcome.bind_eq_ok.1 h
  obtain ⟨s₁, h₁, rfl⟩ := onPolicy_eq_ok.1 hcall₁
  obtain ⟨found, hquery, h⟩ := Outcome.ofExcept_bind_eq_ok.1 h
  obtain ⟨_, c₂, hcall₂, h⟩ := Outcome.bind_eq_ok.1 h
  obtain ⟨s₂, h₂, rfl⟩ := onPolicy_eq_ok.1 hcall₂
  obtain ⟨values', hput, h⟩ := Outcome.ofExcept_bind_eq_ok.1 h
  obtain ⟨cache, hreplace, h⟩ := Outcome.ofExcept_bind_eq_ok.1 h
  obtain ⟨_, c₃, hcall₃, h⟩ := Outcome.bind_eq_ok.1 h
  obtain ⟨s₃, h₃, rfl⟩ := onPolicy_eq_ok.1 hcall₃
  obtain ⟨rfl, rfl⟩ := by simpa using h
  exact ⟨r, s₁, s₂, found, cache, s₃, h₁, hquery, h₂, hput, hreplace, h₃, rfl, rfl⟩

/-- **Step lemma**: a call that returns has read what its reader would, and hands back all that it
has pinned and reserved. -/
theorem rows_queryAndReplace
    (h : c.policy.Rows c.cache.tensor P W fun key => f (idOf offset key))
    (hrun : c.queryAndReplace assign fuel keys f offset = .ok values c') :
    (c'.policy.Rows c'.cache.tensor P W fun key => f (idOf offset key)) ∧
      values = keys.keys.map fun k => some (f k) := by
  obtain ⟨r, s₁, s₂, found, cache, s₃, h₁, hquery, h₂, hput, hreplace, h₃, rfl, rfl⟩ :=
    queryAndReplace_calls hrun
  have hissued : Pipeline.Own c.policy c.cache.tensor f offset P W (.issued keys) :=
    ⟨h.congr (fun p _ => (zero_add (P p)).symm) fun p _ => (zero_add (W p)).symm, .issued⟩
  have hlooked := (Pipeline.own_looked hissued h₁).1
  have hcopied := Pipeline.own_copied hlooked hquery
  have hdone := (Pipeline.own_readingDone hcopied h₂).1
  have hfetched : Pipeline.Own s₂ c.cache.tensor f offset P W
      (.fetched keys r found (r.missingKeys.map f)) := by
    obtain ⟨hrows, hok⟩ := hdone
    cases hok with
    | readingDone hb hmissed hlen hvalues => exact ⟨hrows, .fetched hb hmissed hlen hvalues⟩
  have hwritten := (Pipeline.own_written hfetched hput hreplace).1
  obtain ⟨hrows, hok⟩ := (Pipeline.own_returned hwritten h₃).1
  refine ⟨hrows.congr (fun p _ => zero_add (P p)) fun p _ => zero_add (W p), ?_⟩
  cases hok with
  | returned => rfl

/-- What calls of `query_and_replace` that return make of a new cache. -/
inductive Reads (assign : PartAssignment) (kind : PolicyKind) (size n : ℕ) (readerFn : ℤ → V)
    (offset : ℤ) : CpuFeatureCache kind V → Prop where
  | create {hsize : cacheSize kind size n < 2 ^ 63} {c : CpuFeatureCache kind V}
      (h : create kind size n hsize = .ok c) : Reads assign kind size n readerFn offset c
  | queryAndReplace {fuel : ℕ} {keys : KeyTensor} {values : List (Option V)}
      {c c' : CpuFeatureCache kind V} (hrun : Reads assign kind size n readerFn offset c)
      (h : c.queryAndReplace assign fuel keys readerFn offset = .ok values c') :
      Reads assign kind size n readerFn offset c'

/-- **Run lemma**: between calls nothing is outstanding, and every row is that of its key. -/
theorem Reads.rows (h : Reads assign kind size n f offset c) :
    c.policy.Rows c.cache.tensor 0 0 fun key => f (idOf offset key) := by
  induction h with
  | create h => exact rows_create h _
  | queryAndReplace _ h ih => exact (rows_queryAndReplace ih h).1

end CpuFeatureCache

/-! ## Routing -/

variable {hsize : CpuFeatureCache.cacheSize kind size n < 2 ^ 63}

namespace PartitionedCachePolicy

variable {assign : PartAssignment} {s s' : PartitionedCachePolicy kind}

/-- Every key is with the policy that it is assigned to. -/
def Routed (assign : PartAssignment) (s : PartitionedCachePolicy kind) : Prop :=
  ∀ (p : ℕ) (t : CachePolicy kind.Queues), s.policies[p]? = some t →
    ∀ e ∈ t.directory.resident, assign.draw s.numParts e.key = p ∧ IndexType.int64.InRange e.key

lemma routed_create {c : CpuFeatureCache kind V}
    (h : CpuFeatureCache.create kind size n hsize = .ok c) : Routed assign c.policy := by
  intro p t ht e he
  rw [(resident_create h).2.2 p t ht] at he
  simp at he

lemma mem_partIndices {n p j : ℕ} {ks : List ℤ} :
    j ∈ partIndices assign n ks p ↔ j < ks.length ∧ assign.draw n (ks.getD j 0) = p := by
  rw [partIndices, mem_bucket, partOf]

/-- A policy is only given keys that are assigned to it. -/
lemma Routed.looked {ks : List ℤ} {ls : List Trace} (hr : Routed assign s)
    (hks : ∀ k ∈ ks, IndexType.int64.InRange k)
    (h : s.LookedAll ks (partGroups assign s.numParts ks) ls s') : Routed assign s' := by
  intro p t' ht' e he
  obtain ⟨t, g, l, ht, hg, -, hlook⟩ := h.exists_before ht'
  have hp : p < s.numParts := (List.getElem?_eq_some_iff.1 ht).1
  rw [partGroups_getElem? assign hp, Option.some.injEq] at hg
  rw [h.numParts_eq]
  rcases hlook.run.key_origin he with ⟨e₀, he₀, hkey⟩ | ⟨x, hx, hkey⟩
  · rw [← hkey]
    exact hr p t ht e₀ he₀
  · obtain ⟨y, hy, rfl⟩ := List.mem_map.1 hx
    have hmem : y.1 ∈ l.map Prod.fst := List.mem_map_of_mem hy
    rw [hlook.keys_eq, ← hg] at hmem
    obtain ⟨j, hj, hyj⟩ := List.mem_map.1 hmem
    obtain ⟨hlt, hdraw⟩ := mem_partIndices.1 hj
    have hkj : e.key = ks.getD j 0 := by
      rw [← hkey, ← hyj]
    rw [hkj]
    refine ⟨hdraw, hks _ ?_⟩
    rw [List.getD_eq_getElem _ _ hlt]
    exact List.getElem_mem hlt

lemma Routed.completed {write : Bool} {pointers : List (Option ℕ)} {offsets : List ℤ}
    (hr : Routed assign s)
    (h : s.readingWritingCompletedImpl write pointers offsets = .ok () s') : Routed assign s' := by
  obtain ⟨hst, hcall⟩ := completed_policy h
  intro p t' ht' e' he'
  obtain ⟨t, ht⟩ := hst.exists_before ht'
  obtain ⟨e, he, -, hkey, -⟩ := CachePolicy.completed_comes (hcall p t t' ht ht') he'
  rw [hst.numParts_eq, ← hkey]
  exact hr p t ht e he

end PartitionedCachePolicy

/-! ## Replacing rows -/

/-- A `Replace` that comes to no readable key makes no hit. -/
lemma CachePolicy.Looked.isHit_eq_false {Q : Type} [PolicyQueues Q] [LawfulQueues Q]
    {t t' : CachePolicy Q} (ht : t.Inv) {W : Multiset ℕ} (hb : t.directory.Balanced 0 W)
    {keys' : List (ℤ × ℕ)} {l : Trace} (hl : t.Looked keys' l t') {keys : List ℤ}
    {r : ReplaceResult} (hrun : t.replaceImpl fuel keys = .ok r t')
    (hno : ¬t.MeetsReadable fuel keys.zipIdx) : ∀ x ∈ l, x.2.isHit = false := by
  obtain ⟨l₀, hl₀, -, -, hmeets⟩ := CachePolicy.replaceImpl_ok ht hrun
  have hnone : pinnedBy l₀.accesses = 0 := by
    by_contra hne
    exact hno (hmeets.1 ((Trace.pinnedBy_ne_zero_iff l₀).1 hne))
  have hb₀ := hl₀.balanced ht hb
  have hb₁ := hl.balanced ht hb
  rw [hnone, add_zero] at hb₀
  rw [zero_add] at hb₁
  by_contra hex
  push Not at hex
  obtain ⟨x, hx, hhit⟩ := hex
  rw [ne_eq, Bool.not_eq_false] at hhit
  -- A pin of one trace is a pin of the other: both end in the same counts.
  obtain ⟨a, ha⟩ := Multiset.exists_mem_of_ne_zero
    ((Trace.pinnedBy_ne_zero_iff l).2 ⟨x, hx, hhit⟩)
  obtain ⟨e, he, rfl⟩ := hb₁.live a (Multiset.mem_add.2 (Or.inl ha))
  have hpos := hb₁.pins_of_pin he ha
  have hle := hb₀.pins_eq e he
  rw [Multiset.count_zero] at hle
  omega

namespace PartitionedCachePolicy

variable {assign : PartAssignment} {s s' : PartitionedCachePolicy kind}

/-- `Replace` of `ids` comes to a key that is resident and not being written. -/
def MeetsResident (assign : PartAssignment) (fuel : ℕ) (s : PartitionedCachePolicy kind)
    (ids : KeyTensor) (offset : ℤ) : Prop :=
  ∃ ks, addOffset ids.ty ids.keys offset = .ok ks ∧
    ∃ (p : ℕ) (t : CachePolicy kind.Queues), s.policies[p]? = some t ∧
      t.MeetsReadable fuel (partKeys assign s.numParts ks p).zipIdx

/-- A new cache has no resident keys to come to. -/
lemma not_meetsResident_create {V : Type} {c : CpuFeatureCache kind V}
    (h : CpuFeatureCache.create kind size n hsize = .ok c) {ids : KeyTensor} {offset : ℤ} :
    ¬MeetsResident assign fuel c.policy ids offset := by
  obtain ⟨hp, -, hres⟩ := resident_create h
  rintro ⟨ks, -, p, t, ht, done, x, rest, acc, u, -, hloop, hread⟩
  have hinv := (Reachable.create hp : Reachable assign _ _ _ _).inv.policy p t ht
  obtain ⟨l, hl⟩ := CachePolicy.replaceLoop_ok hinv.1 hloop
  obtain ⟨e, he, -, hpins⟩ := (CachePolicy.readable_iff hl.looked.inv).1 hread
  obtain ⟨e₀, he₀, -⟩ := hl.looked.run.readable_of_readable hinv.1.wellFormed
    (by simp [int8Max]) he hpins
  rw [hres p t ht] at he₀
  simp at he₀

/-- What a `Replace` that meets no resident key does: it admits its keys. -/
structure Admitted (assign : PartAssignment) (s : PartitionedCachePolicy kind) (ks : List ℤ)
    (ls : List Trace) (s' : PartitionedCachePolicy kind) : Prop where
  looked : s.LookedAll ks (partGroups assign s.numParts ks) ls s'
  ne_absent : ∀ l ∈ ls, ∀ x ∈ l, x.2 ≠ .absent
  ne_hit : ∀ l ∈ ls, ∀ x ∈ l, x.2.isHit = false

theorem admitted_of_replace {V : Type} {tensor : List (Option V)} {W : ℕ → Multiset ℕ} {val : ℤ → V}
    {ids : KeyTensor} {offset : ℤ} {r : PartitionedReplaceResult} (h : s.Rows tensor 0 W val)
    (hno : ¬MeetsResident assign fuel s ids offset)
    (hrun : s.replace assign fuel ids none offset = .ok r s') :
    ∃ ks ls, addOffset ids.ty ids.keys offset = .ok ks ∧ Admitted assign s ks ls s' ∧
      r.positions.length = ks.length ∧
      (∀ c ∈ (s.replacedCells ls).flatten, r.positions[c.index]? = some c.position) ∧
      r.pointers = (s.replacedCells ls).flatten.map BatchCell.pointer ∧
      r.offsets = offsetsFrom 0 ((s.replacedCells ls).map List.length) := by
  obtain ⟨ks, hadd, -⟩ := check_bind_eq_ok.1 hrun
  have hgroups : ReplaceGroups assign s.numParts ks (partGroups assign s.numParts ks) none := rfl
  obtain ⟨ls, hlook, habs, hlen, hpos, hptr, hoff⟩ := replace_ok h.inv hadd hgroups hrun
  obtain ⟨results, hcalls⟩ := policies_of_replace h.inv hadd hgroups hrun
  obtain ⟨-, hres, hparts, hpoint⟩ := onPolicies_eq_ok.1 hcalls
  refine ⟨ks, ls, hadd, ⟨hlook, habs, fun l hl => ?_⟩, hlen, hpos, hptr, ?_⟩
  · obtain ⟨p, hp, rfl⟩ := List.mem_iff_getElem.1 hl
    have hps : p < s.numParts := hlook.length_traces ▸ hp
    have hps' : p < s'.numParts := hps.trans_eq hparts.symm
    have hcall := hpoint p _ _ _ (List.getElem?_eq_getElem hps)
      (List.getElem?_eq_getElem (hps.trans_eq hres.symm)) (List.getElem?_eq_getElem hps')
    have hlp := hlook.looked p _ _ _ _ (List.getElem?_eq_getElem hps)
      (partGroups_getElem? assign hps ks) (List.getElem?_eq_getElem hp)
      (List.getElem?_eq_getElem hps')
    rw [permutedSlice_partGroups assign hps] at hcall
    exact hlp.isHit_eq_false (h.inv.policy p _ (List.getElem?_eq_getElem hps)).1
      (h.balanced p _ (List.getElem?_eq_getElem hps)) hcall
      fun hmeets => hno ⟨ks, hadd, p, _, List.getElem?_eq_getElem hps, hmeets⟩
  · rw [hoff, replaced_length, hlook.map_length]

namespace Admitted

variable {ks : List ℤ} {ls : List Trace}

lemma pins_eq (h : Admitted assign s ks ls s') {p : ℕ} (hp : p < s.numParts) :
    pinsOf (s.cells ls) p = 0 := by
  have hpl : p < ls.length := h.looked.length_traces.symm ▸ hp
  rw [pinsOf_cells (List.getElem?_eq_getElem hpl)]
  by_contra hne
  obtain ⟨x, hx, hhit⟩ := (Trace.pinnedBy_ne_zero_iff _).1 hne
  rw [h.ne_hit _ (List.getElem_mem hpl) x hx] at hhit
  simp at hhit

/-- The entry of each of its keys is being written. -/
lemma mem_writes (h : Admitted assign s ks ls s') (hs : s.Inv) (hr : Routed assign s') {p : ℕ}
    {t : CachePolicy kind.Queues} (ht : s'.policies[p]? = some t) {e : SlotEntry ℤ}
    (he : e ∈ t.directory.resident) {P W : Multiset ℕ} (hb : t.directory.Balanced P W) {j : ℕ}
    (hj : j < ks.length) (hkey : e.key = ks.getD j 0) : e.addr ∈ W := by
  have hps : p < s.numParts := (List.getElem?_eq_some_iff.1 ht).1.trans_eq h.looked.numParts_eq
  have hpl : p < ls.length := h.looked.length_traces.symm ▸ hps
  have hdraw := (hr p t ht e he).1
  rw [hkey, h.looked.numParts_eq] at hdraw
  have hmem : (ks.getD j 0, j) ∈ ls[p].map Prod.fst := by
    rw [h.looked.keys_eq (partGroups_getElem? assign hps ks) (List.getElem?_eq_getElem hpl)]
    exact List.mem_map.2 ⟨j, mem_partIndices.2 ⟨hj, hdraw⟩, rfl⟩
  obtain ⟨x, hx, hxj⟩ := List.mem_map.1 hmem
  obtain ⟨g, t', -, ht', hall⟩ := h.looked.leaves hs (List.getElem?_eq_getElem hpl)
  obtain rfl := Option.some.inj (ht.symm.trans ht')
  have hwf := ((h.looked.inv hs).policy p t ht).1.wellFormed
  have hneg : ∃ e' ∈ t.directory.resident, e'.key = e.key ∧ e'.pins < 0 := by
    have hleaves := (hall x hx).2.2
    have hk : x.1.1 = e.key := by rw [hkey, hxj]
    rw [hk] at hleaves
    cases hacc : x.2 with
    | hit a q =>
        have := h.ne_hit _ (List.getElem_mem hpl) x hx
        rw [hacc] at this
        simp [Access.isHit] at this
    | busy =>
        rw [hacc] at hleaves
        exact hleaves
    | absent => exact absurd hacc (h.ne_absent _ (List.getElem_mem hpl) x hx)
    | admitted a q =>
        rw [hacc] at hleaves
        obtain ⟨e', he', -, hk', -, hpins⟩ := hleaves
        exact ⟨e', he', hk', by omega⟩
  obtain ⟨e', he', hk', hpins⟩ := hneg
  obtain rfl := hwf.eq_of_key he' he hk'
  exact (hb.pins_neg_iff he').1 hpins

end Admitted

end PartitionedCachePolicy

/-! ## Updates -/

/-- The rows of `f` after `f[ids] = value`. -/
def updateRows (f : ℤ → V) (ids : List ℤ) (value : List V) : ℤ → V :=
  (ids.zip value).foldl (fun f x => Function.update f x.1 x.2) f

lemma updateRows_of_notMem {f : ℤ → V} {ids : List ℤ} {value : List V} {k : ℤ} (hk : k ∉ ids) :
    updateRows f ids value k = f k := by
  induction ids generalizing f value with
  | nil => rfl
  | cons i ids ih =>
      cases value with
      | nil => rfl
      | cons v value =>
          rw [List.mem_cons, not_or] at hk
          have hstep : updateRows f (i :: ids) (v :: value) =
              updateRows (Function.update f i v) ids value := rfl
          rw [hstep, ih hk.2, Function.update_of_ne hk.1]

lemma updateRows_getElem {f : ℤ → V} {ids : List ℤ} {value : List V} (hnodup : ids.Nodup)
    {j : ℕ} (hj : j < ids.length) (hjv : j < value.length) :
    updateRows f ids value ids[j] = value[j] := by
  induction ids generalizing f value j with
  | nil => simp at hj
  | cons i ids ih =>
      cases value with
      | nil => simp at hjv
      | cons v value =>
          have hstep : updateRows f (i :: ids) (v :: value) =
              updateRows (Function.update f i v) ids value := rfl
          obtain ⟨hi, hnodup⟩ := List.nodup_cons.1 hnodup
          rw [hstep]
          cases j with
          | zero =>
              rw [List.getElem_cons_zero, List.getElem_cons_zero, updateRows_of_notMem hi,
                Function.update_self]
          | succ j => exact ih hnodup (by simpa using hj) (by simpa using hjv)

namespace CpuFeatureCache

variable {assign : PartAssignment} {c c' : CpuFeatureCache kind V} {ids : KeyTensor} {offset : ℤ}
  {f : ℤ → V} {fuel : ℕ} {value : List V}

/-- The calls of a `replace`. -/
lemma replace_calls (h : c.replace assign fuel ids value none offset = .ok () c') :
    ∃ r s₁ cache s₂,
      c.policy.replace assign fuel ids none offset = .ok r s₁ ∧
      c.cache.replace r.positions value = .ok cache ∧
      s₁.writingCompleted r.pointers r.offsets = .ok () s₂ ∧
      c'.policy = s₂ ∧ c'.cache = cache := by
  obtain ⟨r, c₁, hcall₁, h⟩ := Outcome.bind_eq_ok.1 h
  obtain ⟨s₁, h₁, rfl⟩ := onPolicy_eq_ok.1 hcall₁
  obtain ⟨cache, hreplace, h⟩ := Outcome.ofExcept_bind_eq_ok.1 h
  obtain ⟨s₂, h₂, rfl⟩ := onPolicy_eq_ok.1 h
  exact ⟨r, s₁, cache, s₂, h₁, hreplace, h₂, rfl, rfl⟩

/-- **An update that meets no resident key** leaves the rows of the updated table. -/
theorem rows_replace (h : c.policy.Rows c.cache.tensor 0 0 fun key => f (idOf offset key))
    (hr : Routed assign c.policy) (hnodup : ids.keys.Nodup)
    (hlen : ids.keys.length = value.length)
    (hno : ¬MeetsResident assign fuel c.policy ids offset)
    (hrun : c.replace assign fuel ids value none offset = .ok () c') :
    (c'.policy.Rows c'.cache.tensor 0 0
      fun key => updateRows f ids.keys value (idOf offset key)) ∧ Routed assign c'.policy := by
  obtain ⟨r, s₁, cache, s₂, h₁, hreplace, h₂, rfl, rfl⟩ := replace_calls hrun
  obtain ⟨ks, ls, hadd, hadm, hposlen, hpos, hptr, hoff⟩ := admitted_of_replace h hno h₁
  have hs := h.inv
  have hparts := hadm.looked.numParts_eq
  have hkslen : ks.length = ids.keys.length := length_addOffset hadd
  have hr₁ : Routed assign s₁ := hr.looked (addOffset_range hadd) hadm.looked
  have hlooked : s₁.Rows c.cache.tensor 0 (reservationsOf (c.policy.cells ls))
      fun key => f (idOf offset key) :=
    (h.looked hadm.looked).congr (fun p hp => by
      rw [hadm.pins_eq (hparts ▸ hp)]
      rfl) fun p _ => add_zero _
  -- The values of the keys of the update are those of the new table, and no other changes.
  have hval (j : ℕ) (hj : j < ids.keys.length) :
      updateRows f ids.keys value (idOf offset (ks.getD j 0)) = value[j] := by
    rw [idOf_addOffset hadd hj, List.getD_eq_getElem _ _ hj]
    exact updateRows_getElem hnodup hj (hlen ▸ hj)
  have hnew : s₁.Rows c.cache.tensor 0 (reservationsOf (c.policy.cells ls))
      fun key => updateRows f ids.keys value (idOf offset key) := by
    refine ⟨hlooked.inv, hlooked.length_eq, hlooked.balanced, fun p t ht e he hW => ?_⟩
    have hnot : idOf offset e.key ∉ ids.keys := by
      intro hmem
      obtain ⟨j, hj, hid⟩ := List.mem_iff_getElem.1 hmem
      refine hW (hadm.mem_writes hs hr₁ ht he (hlooked.balanced p t ht) (hkslen ▸ hj) ?_)
      refine eq_of_idOf_eq offset (hr₁ p t ht e he).2 (addOffset_range hadd _ ?_) ?_
      · rw [List.getD_eq_getElem _ _ (hkslen ▸ hj)]
        exact List.getElem_mem _
      · rw [idOf_addOffset hadd hj, List.getD_eq_getElem _ _ hj, hid]
    have hcoh := hlooked.coherent p t ht e he hW
    simp only at hcoh ⊢
    rw [hcoh, updateRows_of_notMem hnot]
  have hperm : ((c.policy.replacedCells ls).flatten.map BatchCell.index).Perm
      (List.range ks.length) := by
    rw [flatten_replacedCells_index hadm.looked]
    exact flatten_partGroups_perm assign hs.numParts_pos ks
  have hcell (c₀ : BatchCell) (hc₀ : c₀ ∈ (c.policy.replacedCells ls).flatten) :
      ∃ p l, ls[p]? = some l ∧ c₀ ∈ (c.policy.replacedCells ls).getD p [] := by
    obtain ⟨row, hrow, hc₀⟩ := List.mem_flatten.1 hc₀
    obtain ⟨p, hp, rfl⟩ := List.mem_iff_getElem.1 hrow
    have hpl : p < ls.length := by simpa [replacedCells] using hp
    exact ⟨p, _, List.getElem?_eq_getElem hpl, by rwa [List.getD_eq_getElem _ _ hp]⟩
  -- The writes, one for each cell of `Replace`.
  have hwrite (c₀ : BatchCell) (hc₀ : c₀ ∈ (c.policy.replacedCells ls).flatten) :
      (c₀.position, updateRows f ids.keys value (idOf offset c₀.key)) ∈
        r.positions.zip value := by
    obtain ⟨p, l, hl, hcp⟩ := hcell c₀ hc₀
    have hj : c₀.index < ks.length := index_lt hperm hc₀
    have hposj := List.getElem?_eq_some_iff.1 (hpos c₀ hc₀)
    refine List.mem_iff_getElem.2 ⟨c₀.index, by rw [List.length_zip]; omega, ?_⟩
    rw [List.getElem_zip, hposj.2, hadm.looked.replacedCell_key hs hl hcp,
      hval c₀.index (hkslen ▸ hj)]
  have hwrites : ∀ w ∈ r.positions.zip value, w.1 < 0 ∨
      ∃ p c₀, ∃ a ∈ reservationsOf (c.policy.cells ls) p, s₁.Points p c₀ a ∧
        w = (c₀.position, updateRows f ids.keys value (idOf offset c₀.key)) := by
    intro w hw
    obtain ⟨j, hj, rfl⟩ := List.mem_iff_getElem.1 hw
    rw [List.length_zip] at hj
    obtain ⟨c₀, hc₀, rfl⟩ := List.mem_map.1 (hperm.symm.subset
      (List.mem_range.2 (show j < ks.length by omega)))
    obtain ⟨p, l, hl, hcp⟩ := hcell c₀ hc₀
    have hposj := List.getElem?_eq_some_iff.1 (hpos c₀ hc₀)
    rw [List.getElem_zip, hposj.2]
    rcases hadm.looked.points_replaced hs hl hcp with hskip | ⟨a, ha, hpt⟩
    · exact Or.inl hskip.2
    · refine Or.inr ⟨p, c₀, a, ha, hpt, ?_⟩
      rw [hadm.looked.replacedCell_key hs hl hcp, hval c₀.index (by omega)]
  obtain ⟨cache', hrun', hrows, hfilled, -⟩ := hnew.replace_writes _ hwrites
  rw [List.map_fst_zip (by omega), List.map_snd_zip (by omega)] at hrun'
  obtain rfl := Except.ok.inj (hrun'.symm.trans hreplace)
  refine ⟨(hrows.congr (fun _ _ => rfl) fun p _ => (add_zero _).symm).writingCompleted
    (fun p hp => ?_) (fun p t e ht he hmem => ?_) h₂, hr₁.completed h₂⟩
  · have hpl : p < ls.length := by
      rw [hadm.looked.length_traces, ← hparts]
      exact hp
    rw [← pointersOf_replacedCells (List.getElem?_eq_getElem hpl), completedBy, hptr, hoff]
    have hpr : p < (c.policy.replacedCells ls).length := by simpa [replacedCells] using hpl
    rw [List.getD_eq_getElem _ _ hpr]
    split
    · rename_i hn
      obtain ⟨row, hrow⟩ := List.length_eq_one_iff.1
        (show (c.policy.replacedCells ls).length = 1 by
          rw [replacedCells, List.length_mapIdx, hadm.looked.length_traces, ← hparts, hn])
      obtain rfl : p = 0 := by omega
      simp [hrow]
    · rw [nthSlice_map, nthSlice_flatten (List.getElem?_eq_getElem hpr)]
  · have hpl : p < ls.length := by
      rw [hadm.looked.length_traces, ← hparts]
      exact (List.getElem?_eq_some_iff.1 ht).1
    have hl := List.getElem?_eq_getElem hpl
    rw [← pointersOf_replacedCells hl] at hmem
    obtain ⟨c₀, hc₀, hptr₀⟩ := List.mem_map.1 (mem_pointersOf.1 hmem)
    rcases hadm.looked.points_replaced hs hl hc₀ with hskip | ⟨a, -, hpt⟩
    · rw [hskip.1] at hptr₀
      simp at hptr₀
    · have hrange := (hpt.position_range hnew.inv).1
      obtain ⟨hptr', t', e', ht', he', hea, hkey, hposition⟩ := hpt
      obtain rfl := Option.some.inj (ht'.symm.trans ht)
      obtain rfl := (hnew.inv.policy p t' ht).1.wellFormed.eq_of_addr he' he
        (hea.trans (Option.some.inj (hptr'.symm.trans hptr₀)))
      rw [← hposition, hkey]
      refine hfilled _ (hwrite c₀ (List.mem_flatten.2 ⟨_, ?_, hc₀⟩)) hrange
      have hpr : p < (c.policy.replacedCells ls).length := by simpa [replacedCells] using hpl
      rw [List.getD_eq_getElem _ _ hpr]
      exact List.getElem_mem hpr

end CpuFeatureCache

/-- `CPUCachedFeature`.  The table of the fallback feature is given as the function of its ids. -/
structure CpuCachedFeature (kind : PolicyKind) (V : Type) where
  fallbackFeature : ℤ → V
  feature : CpuFeatureCache kind V
  offset : ℤ

namespace CpuCachedFeature

/-- Run a call on the cache. -/
def onFeature {α : Type} (s : CpuCachedFeature kind V)
    (x : Outcome CacheError (CpuFeatureCache kind V) α) :
    Outcome CacheError (CpuCachedFeature kind V) α :=
  x.map (fun a _ => a) fun c => { s with feature := c }

/-- `read(ids)` -/
def read (assign : PartAssignment) (fuel : ℕ) (ids : KeyTensor) (s : CpuCachedFeature kind V) :
    Outcome CacheError (CpuCachedFeature kind V) (List (Option V)) :=
  s.onFeature (s.feature.queryAndReplace assign fuel ids s.fallbackFeature s.offset)

/-- `update(value, ids)`: the fallback feature first, which checks the lengths, then the cache. -/
def update (assign : PartAssignment) (fuel : ℕ) (value : List V) (ids : KeyTensor)
    (s : CpuCachedFeature kind V) : Outcome CacheError (CpuCachedFeature kind V) Unit :=
  if ids.keys.length = value.length then
    let s := { s with fallbackFeature := updateRows s.fallbackFeature ids.keys value }
    s.onFeature (s.feature.replace assign fuel ids value none s.offset)
  else .error .sizeMismatch s

variable {assign : PartAssignment} {s s' : CpuCachedFeature kind V}

lemma onFeature_eq_ok {α : Type} {x : Outcome CacheError (CpuFeatureCache kind V) α} {a : α} :
    s.onFeature x = .ok a s' ↔ ∃ c, x = .ok a c ∧ s' = { s with feature := c } := by
  rw [onFeature, Outcome.map_eq_ok]
  constructor
  · rintro ⟨a', c, hx, rfl, rfl⟩
    exact ⟨c, hx, rfl⟩
  · rintro ⟨c, hx, rfl⟩
    exact ⟨a, c, hx, rfl, rfl⟩

/-- What reads, and updates of distinct ids, make of a feature with a new cache.  The last argument
says that some update of the run came to an id that was resident. -/
inductive Run (assign : PartAssignment) (kind : PolicyKind) (size n : ℕ) (table : ℤ → V)
    (offset : ℤ) : CpuCachedFeature kind V → Prop → Prop where
  | create {hsize : CpuFeatureCache.cacheSize kind size n < 2 ^ 63} {c : CpuFeatureCache kind V}
      (h : CpuFeatureCache.create kind size n hsize = .ok c) :
      Run assign kind size n table offset ⟨table, c, offset⟩ False
  | read {s s' : CpuCachedFeature kind V} {met : Prop} {fuel : ℕ} {ids : KeyTensor}
      {values : List (Option V)} (hrun : Run assign kind size n table offset s met)
      (h : s.read assign fuel ids = .ok values s') : Run assign kind size n table offset s' met
  | update {s s' : CpuCachedFeature kind V} {met : Prop} {fuel : ℕ} {value : List V}
      {ids : KeyTensor} (hrun : Run assign kind size n table offset s met)
      (hnodup : ids.keys.Nodup) (h : s.update assign fuel value ids = .ok () s') :
      Run assign kind size n table offset s'
        (met ∨ MeetsResident assign fuel s.feature.policy ids s.offset)

/-- **Run lemma**: as long as no update comes to a resident id, every row is that of the table as
the last updates left it. -/
theorem Run.rows {table : ℤ → V} {offset : ℤ} {met : Prop}
    (h : Run assign kind size n table offset s met) (hmet : ¬met) :
    (s.feature.policy.Rows s.feature.cache.tensor 0 0
      fun key => s.fallbackFeature (idOf s.offset key)) ∧ Routed assign s.feature.policy := by
  induction h with
  | create h => exact ⟨rows_create h _, routed_create h⟩
  | read _ h ih =>
      obtain ⟨hrows, hr⟩ := ih hmet
      obtain ⟨c, hcall, rfl⟩ := onFeature_eq_ok.1 h
      refine ⟨(CpuFeatureCache.rows_queryAndReplace hrows hcall).1, ?_⟩
      obtain ⟨r, s₁, s₂, found, cache, s₃, h₁, -, h₂, -, -, h₃, hs₃, -⟩ :=
        CpuFeatureCache.queryAndReplace_calls hcall
      obtain ⟨ks, ls, hadd, hlook, -, -⟩ := queryAndReplace_ok hrows.inv h₁
      have hr₃ := ((hr.looked (addOffset_range hadd) hlook).completed h₂).completed h₃
      simp only
      rwa [hs₃]
  | update _ hnodup h ih =>
      rw [not_or] at hmet
      obtain ⟨hrows, hr⟩ := ih hmet.1
      rw [CpuCachedFeature.update] at h
      split at h
      · rename_i hlen
        obtain ⟨c, hcall, rfl⟩ := onFeature_eq_ok.1 h
        exact CpuFeatureCache.rows_replace hrows hr hnodup hlen hmet.2 hcall
      · simp at h

end CpuCachedFeature

end DglAscend.Graphbolt
