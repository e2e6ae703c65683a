import DglAscend.Lib.Loops
import DglAscend.Graphbolt.Cache.PartitionedCalls

/-!
# Runs of a partitioned policy

In every state that returning calls reach from the constructor, each policy satisfies its
invariant and has the capacity of its share, so that the shares of the storage are disjoint.
-/

namespace DglAscend.Graphbolt

open PolicyQueues

namespace CachePolicy

variable {Q : Type} [PolicyQueues Q] [LawfulQueues Q] {s s' : CachePolicy Q}

omit [LawfulQueues Q] in
lemma capacity_eq_of_completed {write : Bool} {ps : List (Option ℕ)}
    (h : readingWritingCompletedImpl write ps s = .ok () s') : s'.capacity = s.capacity := by
  refine Outcome.loop_invariant (P := fun _ _ t => t.capacity = s.capacity) h rfl ?_
  rintro _ p _ _ t _ t' _ ht hrun
  cases p with
  | none => rw [(endUse_none hrun).1, ht]
  | some a => rw [endUse_some hrun, ht]

lemma Step.capacity_eq (h : s.Step s') (hs : s.Inv) : s'.capacity = s.capacity := by
  cases h with
  | query h => obtain ⟨l, hl, -⟩ := queryImpl_ok hs h; exact hl.capacity_eq
  | queryAndReplace h =>
      obtain ⟨l, hl, -⟩ := queryAndReplaceImpl_ok hs h
      exact hl.capacity_eq
  | replace h => obtain ⟨l, hl, -⟩ := replaceImpl_ok hs h; exact hl.capacity_eq
  | readingCompleted h => exact capacity_eq_of_completed h
  | writingCompleted h => exact capacity_eq_of_completed h

end CachePolicy

namespace PartitionedCachePolicy

variable {kind : PolicyKind} {s s' : PartitionedCachePolicy kind}

/-- Draws for two partitions: key 4 is in the second one, key 0 in the first. -/
def twoPartDraws : PartAssignment where
  draw := fun n key => if n = 2 ∧ key = 4 then 1 else 0
  draw_lt := fun n key hn => by split <;> omega

/-! ## Reachable states -/

/-- A call on a partitioned policy that returns. -/
inductive Step (assign : PartAssignment) (s : PartitionedCachePolicy kind) :
    PartitionedCachePolicy kind → Prop where
  | query {keys : KeyTensor} {offset : ℤ} {r : PartitionedQueryResult}
      {s' : PartitionedCachePolicy kind} (h : s.query assign keys offset = .ok r s') :
      Step assign s s'
  | queryAndReplace {fuel : ℕ} {keys : KeyTensor} {offset : ℤ}
      {r : PartitionedQueryAndReplaceResult} {s' : PartitionedCachePolicy kind}
      (h : s.queryAndReplace assign fuel keys offset = .ok r s') : Step assign s s'
  | replace {fuel : ℕ} {keys : KeyTensor} {offsets : Option (List ℤ)} {offset : ℤ}
      {r : PartitionedReplaceResult} {s' : PartitionedCachePolicy kind}
      (h : s.replace assign fuel keys offsets offset = .ok r s') : Step assign s s'
  | readingCompleted {pointers : List (Option ℕ)} {offsets : List ℤ}
      {s' : PartitionedCachePolicy kind} (h : s.readingCompleted pointers offsets = .ok () s') :
      Step assign s s'
  | writingCompleted {pointers : List (Option ℕ)} {offsets : List ℤ}
      {s' : PartitionedCachePolicy kind} (h : s.writingCompleted pointers offsets = .ok () s') :
      Step assign s s'

/-- A call in which each policy takes a step keeps the invariant. -/
lemma Inv.onPolicies (hs : s.Inv) {β : Type} {call : ℕ → CachePolicy kind.Queues →
    Outcome CacheError (CachePolicy kind.Queues) β} {bs : List β}
    (hcall : ∀ p t b t', call p t = .ok b t' → t.Step t')
    (h : s.onPolicies call = .ok bs s') : s'.Inv := by
  obtain ⟨hcap, hbs, hparts, hpoint⟩ := onPolicies_eq_ok.1 h
  refine ⟨by rw [hparts]; exact hs.numParts_pos, fun p t' ht' => ?_⟩
  have hp : p < s.numParts := hparts ▸ (List.getElem?_eq_some_iff.1 ht').1
  have hpb : p < bs.length := hbs.symm ▸ hp
  have hstep := hcall p _ _ _
    (hpoint p _ _ _ (List.getElem?_eq_getElem hp) (List.getElem?_eq_getElem hpb) ht')
  obtain ⟨hinv, hcapacity⟩ := hs.policy p _ (List.getElem?_eq_getElem hp)
  exact ⟨hstep.inv hinv, by rw [hstep.capacity_eq hinv, hcapacity, hcap, hparts]⟩

lemma onPolicies_of_completed {write : Bool} {pointers : List (Option ℕ)} {offsets : List ℤ}
    (h : s.readingWritingCompletedImpl write pointers offsets = .ok () s') :
    ∃ bs, s.onPolicies (fun i => CachePolicy.readingWritingCompletedImpl write
      (if s.numParts = 1 then pointers else nthSlice pointers offsets i)) = .ok bs s' := by
  obtain ⟨bs, t, hrun, -, rfl⟩ := Outcome.map_eq_ok.1 h
  exact ⟨bs, hrun⟩

/-- **Step lemma**: a returning call keeps the invariant. -/
theorem Step.inv {assign : PartAssignment} (h : s.Step assign s') (hs : s.Inv) : s'.Inv := by
  cases h with
  | query h =>
      obtain ⟨ks, results, -, hrun, -⟩ := policies_of_query hs h
      exact hs.onPolicies (fun _ _ _ _ hcall => .query hcall) hrun
  | queryAndReplace h =>
      obtain ⟨ks, results, -, hrun, -⟩ := policies_of_queryAndReplace hs h
      exact hs.onPolicies (fun _ _ _ _ hcall => .queryAndReplace hcall) hrun
  | replace h =>
      obtain ⟨ks, -, h⟩ := check_bind_eq_ok.1 h
      split at h
      · obtain ⟨results, t, hrun, h⟩ := Outcome.bind_eq_ok.1 h
        obtain ⟨r₀, -, h⟩ := defined_bind_eq_ok.1 h
        obtain ⟨-, rfl⟩ := by simpa using h
        exact hs.onPolicies (fun _ _ _ _ hcall => .replace hcall) hrun
      · obtain ⟨p, -, h⟩ := defined_bind_eq_ok.1 h
        obtain ⟨results, t, hrun, h⟩ := Outcome.bind_eq_ok.1 h
        obtain ⟨positions, -, h⟩ := defined_bind_eq_ok.1 h
        obtain ⟨pointers, -, h⟩ := defined_bind_eq_ok.1 h
        obtain ⟨-, rfl⟩ := by simpa using h
        exact hs.onPolicies (fun _ _ _ _ hcall => .replace hcall) hrun
  | readingCompleted h =>
      obtain ⟨bs, hrun⟩ := onPolicies_of_completed h
      exact hs.onPolicies (fun _ _ _ _ hcall => .readingCompleted hcall) hrun
  | writingCompleted h =>
      obtain ⟨bs, hrun⟩ := onPolicies_of_completed h
      exact hs.onPolicies (fun _ _ _ _ hcall => .writingCompleted hcall) hrun

/-- The states that returning calls reach from the constructor. -/
inductive Reachable (assign : PartAssignment) (kind : PolicyKind) (capacity n : ℕ) :
    PartitionedCachePolicy kind → Prop where
  | create {hcap : capacity < 2 ^ 63} {s : PartitionedCachePolicy kind}
      (h : create kind capacity hcap n = .ok s) : Reachable assign kind capacity n s
  | step {s s' : PartitionedCachePolicy kind} (h : Reachable assign kind capacity n s)
      (hstep : s.Step assign s') : Reachable assign kind capacity n s'

lemma create_eq_ok {capacity n : ℕ} {hcap : capacity < 2 ^ 63}
    (h : create kind capacity hcap n = .ok s) : 0 < n ∧ s.numParts = n ∧ s.capacity = capacity ∧
      ∀ p t, s.policies[p]? = some t → kind.create (partCapacity capacity n p) = .ok t := by
  unfold create at h
  split at h
  · rename_i hn
    cases hm : (List.range n).mapM fun i => kind.create (partCapacity capacity n i) with
    | error e => rw [hm] at h; cases h
    | ok policies =>
        rw [hm] at h
        obtain rfl := Except.ok.inj h
        have hlen : n = policies.length := by
          simpa using (mapM_eq_ok_iff.1 hm).length_eq
        refine ⟨hn, hlen.symm, rfl, fun p t ht => ?_⟩
        obtain ⟨hp, rfl⟩ := List.getElem?_eq_some_iff.1 ht
        have hpoint := ((mapM_range_eq_ok_iff policies[p]).1 hm).2 p (hlen ▸ hp)
        rwa [List.getD_eq_getElem _ _ hp] at hpoint
  · cases h

/-- **Run lemma**: every reachable state satisfies the invariant. -/
theorem Reachable.inv {assign : PartAssignment} {capacity n : ℕ}
    (h : Reachable assign kind capacity n s) : s.Inv := by
  induction h with
  | create h =>
      obtain ⟨hn, hparts, hcap, hpoint⟩ := create_eq_ok h
      refine ⟨hparts.symm ▸ hn, fun p t ht => ⟨PolicyKind.inv_create (hpoint p t ht), ?_⟩⟩
      obtain ⟨-, rfl⟩ := PolicyKind.create_eq_ok (hpoint p t ht)
      rw [hparts, hcap]
      rfl
  | step _ hstep ih => exact hstep.inv ih

/-! ## The storage -/

/-- The shares of the policies follow one another. -/
lemma positionOffset_succ (s : PartitionedCachePolicy kind) (p : ℕ) :
    s.positionOffset (p + 1) = s.positionOffset p + partCapacity s.capacity s.numParts p := by
  have := Nat.div_le_div_right (c := s.numParts) (Nat.mul_le_mul_right s.capacity (Nat.le_add_right p 1))
  unfold positionOffset partCapacity
  omega

variable {p q : ℕ}

lemma positionOffset_mono (s : PartitionedCachePolicy kind) (h : p ≤ q) :
    s.positionOffset p ≤ s.positionOffset q := by
  have := Nat.div_le_div_right (c := s.numParts) (Nat.mul_le_mul_right s.capacity h)
  unfold positionOffset
  omega

lemma positionOffset_last (hn : 0 < s.numParts) : s.positionOffset s.numParts = s.capacity := by
  unfold positionOffset
  rw [Nat.mul_div_cancel_left _ hn]

lemma positionOffset_lt (hs : s.Inv) (hp : p < s.numParts) : s.positionOffset p < 2 ^ 63 := by
  have hmono := s.positionOffset_mono hp.le
  rw [positionOffset_last hs.numParts_pos] at hmono
  have := s.capacity_lt
  omega

variable {t u : CachePolicy kind.Queues} {e f : SlotEntry ℤ}

/-- The positions of a policy, with its offset, lie in its share. -/
theorem Inv.position_range (hs : s.Inv) (ht : s.policies[p]? = some t)
    (he : e ∈ t.directory.resident) : s.positionOffset p ≤ e.slot + s.positionOffset p ∧
      e.slot + s.positionOffset p < s.positionOffset (p + 1) := by
  obtain ⟨hinv, hcap⟩ := hs.policy p t ht
  have h1 := (hinv.wellFormed.slot_range he).1
  have h2 := hinv.wellFormed.slot_lt_capacity he
  rw [CachePolicy.directory_capacity, hcap] at h2
  rw [positionOffset_succ]
  omega

/-- The positions of all policies lie in the storage. -/
theorem Inv.position_lt_capacity (hs : s.Inv) (ht : s.policies[p]? = some t)
    (he : e ∈ t.directory.resident) :
    0 ≤ e.slot + s.positionOffset p ∧ e.slot + s.positionOffset p < s.capacity := by
  obtain ⟨h1, h2⟩ := hs.position_range ht he
  have hp : p < s.numParts := (List.getElem?_eq_some_iff.1 ht).1
  have hmono := s.positionOffset_mono (Nat.succ_le_of_lt hp)
  rw [positionOffset_last hs.numParts_pos] at hmono
  have hnonneg : 0 ≤ s.positionOffset p := Int.natCast_nonneg _
  rw [Nat.succ_eq_add_one] at hmono
  omega

/-- **Disjoint shares**: a position belongs to one entry of one policy. -/
theorem Inv.position_inj (hs : s.Inv) (ht : s.policies[p]? = some t) (hu : s.policies[q]? = some u)
    (he : e ∈ t.directory.resident) (hf : f ∈ u.directory.resident)
    (heq : e.slot + s.positionOffset p = f.slot + s.positionOffset q) : p = q ∧ e = f := by
  obtain ⟨h1, h2⟩ := hs.position_range ht he
  obtain ⟨h3, h4⟩ := hs.position_range hu hf
  have hpq : p = q := by
    rcases lt_trichotomy p q with hlt | heq' | hgt
    · have := s.positionOffset_mono (Nat.succ_le_of_lt hlt)
      rw [Nat.succ_eq_add_one] at this
      omega
    · exact heq'
    · have := s.positionOffset_mono (Nat.succ_le_of_lt hgt)
      rw [Nat.succ_eq_add_one] at this
      omega
  subst hpq
  obtain rfl := Option.some.inj (ht.symm.trans hu)
  exact ⟨rfl, (hs.policy p t ht).1.wellFormed.eq_of_slot he hf (by omega)⟩

/-! ## Lookups -/

section Looked

variable {ks : List ℤ} {groups : List (List ℕ)} {ls : List Trace}

/-- What every lookup left behind is there at the end. -/
lemma LookedAll.leaves (hs : s.Inv) (h : s.LookedAll ks groups ls s') {l : Trace}
    (hl : ls[p]? = some l) : ∃ g t', groups[p]? = some g ∧ s'.policies[p]? = some t' ∧
      ∀ x ∈ l, x.1.2 ∈ g ∧ x.1.1 = ks.getD x.1.2 0 ∧
        Directory.Leaves t'.directory x.1.1 x.2 := by
  have hp : p < s.numParts := h.length_traces ▸ (List.getElem?_eq_some_iff.1 hl).1
  have hp' : p < s'.numParts := h.numParts_eq.symm ▸ hp
  have hpg : p < groups.length := h.length_groups.symm ▸ hp
  have hlook := h.looked p _ _ _ _ (List.getElem?_eq_getElem hp) (List.getElem?_eq_getElem hpg) hl
    (List.getElem?_eq_getElem hp')
  have hinv := (hs.policy p _ (List.getElem?_eq_getElem hp)).1
  refine ⟨_, _, List.getElem?_eq_getElem hpg, List.getElem?_eq_getElem hp', fun x hx => ?_⟩
  have hmem : x.1 ∈ l.map Prod.fst := List.mem_map_of_mem hx
  rw [hlook.keys_eq] at hmem
  obtain ⟨i, hi, hxi⟩ := List.mem_map.1 hmem
  have hleaves := hlook.run.leaves hinv.wellFormed (by simp [int8Max]) (x.1.1, x.2)
    (List.mem_map.2 ⟨x, hx, rfl⟩)
  exact ⟨by rw [← hxi]; exact hi, by rw [← hxi], hleaves⟩

/-- The cells of a policy have the indices of its group. -/
lemma LookedAll.indices_perm (h : s.LookedAll ks groups ls s') :
    ((allCells (s.cells ls)).map BatchCell.index).Perm groups.flatten := by
  have hparts : List.Forall₂ List.Perm
      ((s.cells ls).map fun c => (c.found ++ c.missed).map BatchCell.index) groups := by
    refine List.forall₂_iff_get.2 ⟨by simp [cells, h.length_traces, h.length_groups],
      fun p h1 h2 => ?_⟩
    have hp : p < ls.length := by simpa [cells] using h1
    have hkeys := congrArg (List.map Prod.snd)
      (h.keys_eq (List.getElem?_eq_getElem h2) (List.getElem?_eq_getElem hp))
    have hperm := List.filter_append_perm (fun x : (ℤ × ℕ) × Access => x.2.isHit) ls[p]
    have hmap := (hperm.map fun x => x.1.2).trans (List.Perm.of_eq
      (show (ls[p].map fun x => x.1.2) = groups[p] by
        simpa [keysAt, Function.comp_def] using hkeys))
    simp only [List.map_append] at hmap
    simp only [List.get_eq_getElem, List.getElem_map, cells, List.getElem_mapIdx, Trace.found,
      Trace.missed, BatchCell.shift, cellOf, List.map_append, List.map_reverse, List.map_map,
      Function.comp_def]
    exact (List.Perm.append_left _ (List.reverse_perm _)).trans hmap
  have happ := (List.flatMap_append_perm (s.cells ls) PartCells.found PartCells.missed).map
    BatchCell.index
  rw [List.map_flatMap, List.flatMap_def] at happ
  exact happ.trans (List.Perm.flatten_congr hparts)

end Looked

end PartitionedCachePolicy

end DglAscend.Graphbolt
