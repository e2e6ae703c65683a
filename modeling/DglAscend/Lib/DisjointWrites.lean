import DglAscend.Lib.CountingSort
import Mathlib.Data.Multiset.Bind

/-!
# Arrays that several writers fill

Writers that between them write every place of an array once leave the same array, whatever it held
before and in whatever order their writes arrive (`Fills.applyWrites_eq`).  The writes of a counting
sort are of this kind (`fills_cursorWrites`).
-/

namespace DglAscend

variable {α : Type*}

/-- The array after the writes, one after the other. -/
def applyWrites (out : List α) (ws : List (ℕ × α)) : List α :=
  ws.foldl (fun out w => out.set w.1 w.2) out

/-- Every place of the array is written once, with what it holds in the end. -/
structure Fills (ws : List (ℕ × α)) (target : List α) : Prop where
  places : (ws.map Prod.fst).Perm (List.range target.length)
  values : ∀ w ∈ ws, target[w.1]? = some w.2

section Fills

variable {ws ws' : List (ℕ × α)} {out target target' : List α}

lemma length_applyWrites (out : List α) (ws : List (ℕ × α)) :
    (applyWrites out ws).length = out.length := by
  induction ws generalizing out with
  | nil => rfl
  | cons w ws ih =>
      show (applyWrites (out.set w.1 w.2) ws).length = _
      rw [ih, List.length_set]

lemma applyWrites_getElem? (hlen : out.length = target.length)
    (hvalues : ∀ w ∈ ws, target[w.1]? = some w.2) (k : ℕ) :
    (applyWrites out ws)[k]? = if k ∈ ws.map Prod.fst then target[k]? else out[k]? := by
  induction ws generalizing out with
  | nil => simp [applyWrites]
  | cons w ws ih =>
      have hvalue := hvalues w List.mem_cons_self
      have hlt : w.1 < out.length := by
        rw [hlen]
        exact (List.getElem?_eq_some_iff.1 hvalue).1
      show (applyWrites (out.set w.1 w.2) ws)[k]? = _
      rw [ih (by rwa [List.length_set]) fun w' hw' => hvalues w' (List.mem_cons_of_mem _ hw'),
        List.map_cons]
      by_cases hk : k ∈ ws.map Prod.fst
      · rw [if_pos hk, if_pos (List.mem_cons_of_mem _ hk)]
      · rw [if_neg hk]
        by_cases hkw : w.1 = k
        · rw [if_pos (by simp [hkw]), ← hkw, List.getElem?_set_self hlt, hvalue]
        · rw [List.getElem?_set_ne hkw, if_neg (by simpa [Ne.symm hkw] using hk)]

lemma applyWrites_getElem?_of_notMem {k : ℕ} (hk : k ∉ ws.map Prod.fst) :
    (applyWrites out ws)[k]? = out[k]? := by
  induction ws generalizing out with
  | nil => rfl
  | cons w ws ih =>
      rw [List.map_cons, List.mem_cons, not_or] at hk
      show (applyWrites (out.set w.1 w.2) ws)[k]? = _
      rw [ih hk.2, List.getElem?_set_ne (Ne.symm hk.1)]

lemma Fills.perm (h : Fills ws target) (hp : ws'.Perm ws) : Fills ws' target where
  places := (hp.map Prod.fst).trans h.places
  values w hw := h.values w (hp.subset hw)

/-- **The array after the writes.** -/
theorem Fills.applyWrites_eq (h : Fills ws target) (hlen : out.length = target.length) :
    applyWrites out ws = target := by
  apply List.ext_getElem?
  intro k
  rw [applyWrites_getElem? hlen h.values]
  split
  · rfl
  · rename_i hk
    have hge : target.length ≤ k := by
      by_contra hlt
      exact hk (h.places.symm.subset (List.mem_range.2 (Nat.lt_of_not_le hlt)))
    rw [List.getElem?_eq_none hge, List.getElem?_eq_none (by omega)]

/-- Writes that leave the end of an array alone. -/
lemma applyWrites_append {rest : List α} (h : ∀ w ∈ ws, w.1 < out.length) :
    applyWrites (out ++ rest) ws = applyWrites out ws ++ rest := by
  induction ws generalizing out with
  | nil => rfl
  | cons w ws ih =>
      show applyWrites ((out ++ rest).set w.1 w.2) ws = applyWrites (out.set w.1 w.2) ws ++ rest
      rw [List.set_append_left _ _ (h w List.mem_cons_self)]
      apply ih
      intro w' hw'
      rw [List.length_set]
      exact h w' (List.mem_cons_of_mem _ hw')

lemma Fills.map {β : Type*} (h : Fills ws target) (f : α → β) :
    Fills (ws.map fun w => (w.1, f w.2)) (target.map f) where
  places := by
    rw [List.map_map, List.length_map]
    exact h.places
  values w hw := by
    obtain ⟨w', hw', rfl⟩ := List.mem_map.1 hw
    rw [List.getElem?_map, h.values w' hw', Option.map_some]

/-- The elements of an array, each written to its place. -/
lemma fills_range {β : Type*} (f : ℕ → β) (n : ℕ) :
    Fills ((List.range n).map fun k => (k, f k)) ((List.range n).map f) where
  places := by
    rw [List.map_map, List.length_map, List.length_range]
    show ((List.range n).map id).Perm _
    rw [List.map_id]
  values w hw := by
    obtain ⟨k, hk, rfl⟩ := List.mem_map.1 hw
    rw [List.getElem?_map, List.getElem?_range (List.mem_range.1 hk), Option.map_some]

/-- The items of an array, each written to its place. -/
lemma fills_zipIdx (items : List α) : Fills (items.zipIdx.map fun x => (x.2, x.1)) items where
  places := by
    rw [List.map_map]
    show (items.zipIdx.map Prod.snd).Perm _
    rw [List.zipIdx_map_snd, List.range_eq_range']
  values w hw := by
    obtain ⟨x, hx, rfl⟩ := List.mem_map.1 hw
    exact List.mem_zipIdx_iff_getElem?.1 hx

lemma fills_nil : Fills [] ([] : List α) := ⟨.refl _, nofun⟩

/-- Two writers that fill an array one behind the other. -/
lemma Fills.append (h : Fills ws target) (h' : Fills ws' target') :
    Fills (ws ++ ws'.map fun w => (target.length + w.1, w.2)) (target ++ target') := by
  constructor
  · have hrange : List.range (target ++ target').length =
        List.range target.length ++ (List.range target'.length).map (target.length + ·) := by
      rw [List.length_append, List.range_add]
    rw [hrange, List.map_append, List.map_map]
    refine h.places.append ?_
    have hplaces := h'.places.map (target.length + ·)
    rwa [List.map_map] at hplaces
  · intro w hw
    rcases List.mem_append.1 hw with hw | hw
    · have hvalue := h.values w hw
      rw [List.getElem?_append_left (List.getElem?_eq_some_iff.1 hvalue).1]
      exact hvalue
    · obtain ⟨w', hw', rfl⟩ := List.mem_map.1 hw
      rw [List.getElem?_append_right (Nat.le_add_right _ _), Nat.add_sub_cancel_left]
      exact h'.values w' hw'

lemma fills_flatMap {n : ℕ} {start : ℕ → ℕ} {writes : ℕ → List (ℕ × α)} {part : ℕ → List α}
    (h : ∀ t < n, Fills (writes t) (part t)) (hzero : start 0 = 0)
    (hstart : ∀ t < n, start (t + 1) = start t + (part t).length) :
    Fills ((List.range n).flatMap fun t => (writes t).map fun w => (start t + w.1, w.2))
      ((List.range n).flatMap part) := by
  have hlen (m : ℕ) (hm : m ≤ n) : ((List.range m).flatMap part).length = start m := by
    induction m with
    | zero => rw [hzero]; rfl
    | succ m ih =>
        rw [List.range_succ, List.flatMap_append, List.length_append, ih (by omega),
          List.flatMap_singleton, hstart m hm]
  have hfills (m : ℕ) (hm : m ≤ n) :
      Fills ((List.range m).flatMap fun t => (writes t).map fun w => (start t + w.1, w.2))
        ((List.range m).flatMap part) := by
    induction m with
    | zero => exact fills_nil
    | succ m ih =>
        have happend := (ih (by omega)).append (h m hm)
        rw [hlen m (by omega)] at happend
        rw [List.range_succ, List.flatMap_append, List.flatMap_append, List.flatMap_singleton,
          List.flatMap_singleton]
        exact happend
  exact hfills n le_rfl

lemma flatMap_swap {β γ : Type*} (l : List β) (m : List γ) (f : β → γ → List α) :
    (l.flatMap fun b => m.flatMap (f b)).Perm (m.flatMap fun c => l.flatMap fun b => f b c) := by
  have hbind := Multiset.bind_bind (l : Multiset β) (m : Multiset γ) (f := fun b c => (f b c : Multiset α))
  simp only [Multiset.coe_bind] at hbind
  exact Multiset.coe_eq_coe.1 hbind

/-- A place of a task is written as often as the task is done. -/
lemma count_flatMap_places {n q : ℕ} {places : ℕ → List ℕ} {p : ℕ}
    (hnodup : ((List.range n).flatMap places).Nodup) (hq : q < n) (hp : p ∈ places q) {done : List ℕ}
    (hdone : ∀ r ∈ done, r < n) : (done.flatMap places).count p = done.count q := by
  obtain ⟨hparts, hdisjoint⟩ := List.nodup_flatMap.1 hnodup
  have hself : (places q).count p = 1 :=
    List.count_eq_one_of_mem (hparts q (List.mem_range.2 hq)) hp
  have hother : ∀ r < n, r ≠ q → (places r).count p = 0 := by
    intro r hr hne
    refine List.count_eq_zero.2 fun hpr => ?_
    have hsymm : Std.Symm (Function.onFun List.Disjoint places) := ⟨fun _ _ h => h.symm⟩
    exact List.disjoint_left.1 (hdisjoint.forall (List.mem_range.2 hr) (List.mem_range.2 hq) hne)
      hpr hp
  induction done with
  | nil => rfl
  | cons r done ih =>
      rw [List.flatMap_cons, List.count_append, ih fun r' hr' => hdone r' (List.mem_cons_of_mem _ hr'),
        List.count_cons]
      by_cases hrq : r = q
      · rw [hrq, hself, if_pos (beq_self_eq_true q), Nat.add_comm]
      · rw [hother r (hdone r List.mem_cons_self) hrq, if_neg (by simpa using hrq), Nat.zero_add,
          Nat.add_zero]

/-- **Tasks that fill an array together** are each done once whenever they fill an array of its size. -/
theorem Fills.tasks_perm {n : ℕ} {task : ℕ → List (ℕ × α)}
    (h : Fills ((List.range n).flatMap task) target) (hne : ∀ q < n, task q ≠ []) {done : List ℕ}
    (hdone : ∀ q ∈ done, q < n) (hfills : Fills (done.flatMap task) target')
    (hlen : target'.length = target.length) : done.Perm (List.range n) := by
  have hplaces := h.places
  have hplaces' := hfills.places
  rw [List.map_flatMap] at hplaces hplaces'
  rw [hlen] at hplaces'
  have hnodup := hplaces.nodup_iff.2 List.nodup_range
  rw [List.perm_iff_count]
  intro q
  by_cases hq : q < n
  · obtain ⟨w, hw⟩ := List.exists_mem_of_ne_nil _ (hne q hq)
    have hp : w.1 ∈ (task q).map Prod.fst := List.mem_map_of_mem hw
    have hmem : w.1 ∈ List.range target.length :=
      hplaces.subset (List.mem_flatMap.2 ⟨q, List.mem_range.2 hq, hp⟩)
    have hcount := hplaces'.count_eq w.1
    rw [count_flatMap_places hnodup hq hp hdone,
      List.count_eq_one_of_mem List.nodup_range hmem] at hcount
    rw [hcount, List.count_eq_one_of_mem List.nodup_range (List.mem_range.2 hq)]
  · rw [List.count_eq_zero.2 fun hmem => hq (hdone q hmem),
      List.count_eq_zero.2 fun hmem => hq (List.mem_range.1 hmem)]

end Fills

/-! ## Counting sort -/

section CountingSort

variable {n N : ℕ} {part : ℕ → ℕ} {value : ℕ → α}

/-- Every item goes to its place in the bucket order. -/
lemma fills_placeOf (h : ∀ i < N, part i < n) :
    Fills ((List.range N).map fun i => (placeOf part N i, value i))
      ((bucketOrder part n N).map value) := by
  have hlen : ((bucketOrder part n N).map value).length = N := by
    rw [List.length_map, length_bucketOrder h]
  constructor
  · rw [hlen, List.map_map]
    apply List.perm_of_nodup_nodup_toFinset_eq
    · apply List.Nodup.map_on _ List.nodup_range
      intro i hi j hj heq
      exact placeOf_inj h (List.mem_range.1 hi) (List.mem_range.1 hj) heq
    · exact List.nodup_range
    · apply Finset.eq_of_subset_of_card_le
      · intro p hp
        obtain ⟨i, hi, rfl⟩ := List.mem_map.1 (List.mem_toFinset.1 hp)
        exact List.mem_toFinset.2 (List.mem_range.2 (placeOf_lt h (List.mem_range.1 hi)))
      · rw [List.toFinset_card_of_nodup List.nodup_range, List.toFinset_card_of_nodup]
        · simp
        · apply List.Nodup.map_on _ List.nodup_range
          intro i hi j hj heq
          exact placeOf_inj h (List.mem_range.1 hi) (List.mem_range.1 hj) heq
  · intro w hw
    obtain ⟨i, hi, rfl⟩ := List.mem_map.1 hw
    have hi := List.mem_range.1 hi
    rw [List.getElem?_map, placeOf, bucketOrder_place hi (h i hi), Option.map_some]

/-- The writes of the placing loop: every item goes to the cursor of its bucket. -/
def cursorWrites : List ℕ → List (ℕ × α) → List (ℕ × α)
  | _, [] => []
  | cursors, item :: items =>
      (cursors.getD item.1 0, item.2) ::
        cursorWrites (cursors.set item.1 (cursors.getD item.1 0 + 1)) items

variable (cursors : List ℕ)

lemma length_cursorWrites (items : List (ℕ × α)) :
    (cursorWrites cursors items).length = items.length := by
  induction items generalizing cursors with
  | nil => rfl
  | cons item items ih => rw [cursorWrites, List.length_cons, ih, List.length_cons]

lemma foldl_placeItem_snd (out : List α) (items : List (ℕ × α)) :
    (items.foldl placeItem (cursors, out)).2 = applyWrites out (cursorWrites cursors items) := by
  induction items generalizing cursors out with
  | nil => rfl
  | cons item items ih =>
      rw [List.foldl_cons, placeItem, ih]
      rfl

/-- The write of an item, from the cursors that the earlier items leave. -/
lemma cursorWrites_getElem (out : List α) (items : List (ℕ × α)) {m : ℕ} (hm : m < items.length)
    (hm' : m < (cursorWrites cursors items).length) : (cursorWrites cursors items)[m] =
      (((items.take m).foldl placeItem (cursors, out)).1.getD items[m].1 0, items[m].2) := by
  induction items generalizing cursors out m with
  | nil => cases hm
  | cons item items ih =>
      cases m with
      | zero => rfl
      | succ m => exact ih _ _ (Nat.lt_of_succ_lt_succ hm) (Nat.lt_of_succ_lt_succ hm')

lemma cursorWrites_add (c : ℕ) {cursors : List ℕ} {items : List (ℕ × α)}
    (hkeys : ∀ x ∈ items, x.1 < cursors.length) :
    cursorWrites (cursors.map (c + ·)) items =
      (cursorWrites cursors items).map fun w => (c + w.1, w.2) := by
  induction items generalizing cursors with
  | nil => rfl
  | cons item items ih =>
      have hlt := hkeys item List.mem_cons_self
      have hget : (cursors.map (c + ·)).getD item.1 0 = c + cursors.getD item.1 0 := by
        rw [List.getD_eq_getElem _ _ (by rwa [List.length_map]), List.getElem_map,
          List.getD_eq_getElem _ _ hlt]
      have hset : (cursors.map (c + ·)).set item.1 (c + cursors.getD item.1 0 + 1) =
          (cursors.set item.1 (cursors.getD item.1 0 + 1)).map (c + ·) := by
        rw [List.map_set, Nat.add_assoc]
      rw [cursorWrites, cursorWrites, hget, hset, ih, List.map_cons]
      intro x hx
      rw [List.length_set]
      exact hkeys x (List.mem_cons_of_mem _ hx)

lemma exclusiveSum_add (c d : ℕ) (counts : List ℕ) :
    exclusiveSum (c + d) counts = (exclusiveSum d counts).map (c + ·) := by
  induction counts generalizing d with
  | nil => rfl
  | cons k counts ih => rw [exclusiveSum, exclusiveSum, Nat.add_assoc, ih, List.map_cons]

/-- **A counting sort** writes every place once. -/
theorem fills_cursorWrites {items : List (ℕ × α)} (out : List α) (hkeys : ∀ x ∈ items, x.1 < n)
    (hlen : out.length = items.length) :
    Fills (cursorWrites (exclusiveSum 0 (countKeys n (items.map Prod.fst))) items)
      (items.foldl placeItem (exclusiveSum 0 (countKeys n (items.map Prod.fst)), out)).2 := by
  cases items with
  | nil =>
      obtain rfl := List.length_eq_zero_iff.1 hlen
      exact fills_nil
  | cons first rest =>
      set items := first :: rest with hitems
      have hcursors : exclusiveSum 0 (countKeys n (items.map Prod.fst)) =
          (List.range n).map (bucketStart (keyAt (items.map Prod.fst)) items.length) := by
        rw [exclusiveSum_countKeys, List.length_map]
      rw [hcursors, placeItems_eq items first.2 out hkeys hlen]
      have hwrites : cursorWrites
          ((List.range n).map (bucketStart (keyAt (items.map Prod.fst)) items.length)) items =
            (List.range items.length).map fun i =>
              (placeOf (keyAt (items.map Prod.fst)) items.length i, (items.getD i (0, first.2)).2) := by
        apply List.ext_getElem
        · rw [length_cursorWrites, List.length_map, List.length_range]
        · intro m hm hm'
          rw [length_cursorWrites] at hm
          have hplaced := placed_take items first.2 out hkeys hlen hm.le
          have hkey : keyAt (items.map Prod.fst) m = items[m].1 := by
            rw [keyAt, List.getD_eq_getElem _ _ (by rwa [List.length_map]), List.getElem_map]
          have hlt : items[m].1 < n := hkeys _ (List.getElem_mem hm)
          rw [cursorWrites_getElem _ out _ hm, hplaced.cursors,
            List.getD_eq_getElem _ _ (by simpa using hlt), List.getElem_map, List.getElem_range,
            List.getElem_map, List.getElem_range, placeOf, hkey, List.getD_eq_getElem _ _ hm]
      rw [hwrites]
      exact fills_placeOf (keyAt_lt hkeys)

end CountingSort

end DglAscend
