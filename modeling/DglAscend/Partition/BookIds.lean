import DglAscend.Partition.BookTables

/-!
# The id spaces of a book

Homogeneous ids and typed ids lead to each other, and to the same partitions, in every book whose
ranges tile the ids partition by partition, as long as `IdMap` and the book number the types in the
same way and the default name is not that of one type among several.
-/

namespace DglAscend.Partition

variable {κ : Type} {numParts p : ℕ} {idMap : List (κ × Ranges)}
  {types : List (κ × ℕ)} {t : Tables κ} {dflt name : κ} {r : Ranges}

/-- In each partition the ranges of the types, in some order, follow each other. -/
def Tiles (numParts : ℕ) (idMap : List (κ × Ranges)) : Prop :=
  ∃ rows : ℕ → List (ℤ × ℤ),
    (∀ p < numParts, (rows p).Perm (idMap.map fun x => x.2.get p)) ∧
      Consecutive 0 ((List.range numParts).flatMap rows)

/-- The types in the order of `IdMap`. -/
def sortedTypes (idMap : List (κ × Ranges)) : List (κ × Ranges) :=
  idMap.insertionSort fun x y => IdMap.byStart x.2 y.2

/-- `IdMap` and the book number the types with ids in the same way. -/
def Numbered (idMap : List (κ × Ranges)) (names : List κ) : Prop :=
  ∀ i (hi : i < (sortedTypes idMap).length),
    (∃ x ∈ (sortedTypes idMap)[i].2, x.1 < x.2) → names[i]? = some (sortedTypes idMap)[i].1

instance [DecidableEq κ] (names : List κ) : Decidable (Numbered idMap names) :=
  inferInstanceAs (Decidable (∀ i (_hi : i < (sortedTypes idMap).length), _ → _))

lemma map_sortedTypes (idMap : List (κ × Ranges)) :
    (sortedTypes idMap).map Prod.snd = (idMap.map Prod.snd).insertionSort IdMap.byStart :=
  List.map_insertionSort _ _ _ _ fun _ _ _ _ => Iff.rfl

lemma mem_of_sortedTypes {i : ℕ} (hi : i < (sortedTypes idMap).length) :
    (sortedTypes idMap)[i] ∈ idMap :=
  (List.mem_insertionSort _).1 (List.getElem_mem hi)

/-! ## What `__init__` computes -/

/-- What is known of tables that were built. -/
structure Built (numParts : ℕ) (idMap : List (κ × Ranges)) (types : List (κ × ℕ)) (t : Tables κ) :
    Prop where
  names : typeNames types = some t.names
  typedRange : t.typedRange = idMap
  typedMaxIds : t.typedMaxIds = idMap.map fun x => (x.1, cumsum x.2.counts)
  maxIds : t.maxIds = idMap.foldl (fun maxMap x => Tables.maximum (x.2.map Prod.snd) maxMap)
    (List.replicate numParts 0)
  length_eq : ∀ x ∈ idMap, x.2.length = numParts
  idMap : IdMap.new (idMap.map Prod.snd) = some t.idMap

lemma IdMap.new_eq_some {rs : List Ranges} {m : IdMap} (hlen : ∀ r ∈ rs, r.length = numParts)
    (h : IdMap.new rs = some m) :
    rs ≠ [] ∧
      ((IdMap.interleave numParts (rs.insertionSort IdMap.byStart)).map Prod.fst).IsChain (· ≤ ·) ∧
      ((IdMap.interleave numParts (rs.insertionSort IdMap.byStart)).map Prod.snd).IsChain (· ≤ ·) ∧
      m = {
        numParts := numParts
        numTypes := rs.length
        rangeStart := (IdMap.interleave numParts (rs.insertionSort IdMap.byStart)).map Prod.fst
        rangeEnd := (IdMap.interleave numParts (rs.insertionSort IdMap.byStart)).map fun x => x.2 - 1
        typedMap := (rs.insertionSort IdMap.byStart).flatMap fun r => cumsum r.counts } := by
  cases rs with
  | nil => exact absurd h nofun
  | cons first rs =>
      have hfirst := hlen first List.mem_cons_self
      rw [IdMap.new, hfirst] at h
      by_cases hchain :
          ((IdMap.interleave numParts ((first :: rs).insertionSort IdMap.byStart)).map Prod.fst).IsChain (· ≤ ·) ∧
          ((IdMap.interleave numParts ((first :: rs).insertionSort IdMap.byStart)).map Prod.snd).IsChain (· ≤ ·)
      · rw [if_pos hchain] at h
        exact ⟨List.cons_ne_nil _ _, hchain.1, hchain.2, (Option.some.inj h).symm⟩
      · rw [if_neg hchain] at h
        exact absurd h nofun

lemma sublist_flatMap {α β : Type*} {l : List α} {x : α} (hx : x ∈ l) (f : α → List β) :
    (f x).Sublist (l.flatMap f) := by
  rw [List.flatMap_def]
  exact List.sublist_flatten_of_mem (List.mem_map_of_mem hx)

/-- **The order of `IdMap`** is one in which the ranges follow each other. -/
lemma Built.layout (hbuilt : Built numParts idMap types t) (htiles : Tiles numParts idMap) :
    Layout numParts ((sortedTypes idMap).map Prod.snd) := by
  obtain ⟨rows, hrows, hall⟩ := htiles
  have hlen : ∀ r ∈ idMap.map Prod.snd, r.length = numParts := by
    intro r hr
    obtain ⟨x, hx, rfl⟩ := List.mem_map.1 hr
    exact hbuilt.length_eq x hx
  obtain ⟨hne, hstarts, hends, -⟩ := IdMap.new_eq_some hlen hbuilt.idMap
  rw [← map_sortedTypes] at hstarts hends
  set rs := (sortedTypes idMap).map Prod.snd with hrs
  have hperm : rs.Perm (idMap.map Prod.snd) := (List.perm_insertionSort _ _).map _
  -- In each partition both orders are sorted, so they are the same list of ranges.
  have hrow : ∀ p < numParts, rows p = row rs p := by
    intro p hp
    refine @List.Perm.eq_of_pairwise _ (fun x y : ℤ × ℤ => x.1 ≤ y.1 ∧ x.2 ≤ y.2) _ _ ?_ ?_ ?_ ?_
    · intro x y _ _ hxy hyx
      exact Prod.ext (le_antisymm hxy.1 hyx.1) (le_antisymm hxy.2 hyx.2)
    · have hsub : (rows p).Sublist ((List.range numParts).flatMap rows) :=
        sublist_flatMap (List.mem_range.2 hp) _
      exact hall.pairwise.sublist hsub
    · have hsub : (row rs p).Sublist (IdMap.interleave numParts rs) :=
        sublist_flatMap (List.mem_range.2 hp) _
      have h1 := (List.pairwise_map.1 (List.isChain_iff_pairwise.1 hstarts)).sublist hsub
      have h2 := (List.pairwise_map.1 (List.isChain_iff_pairwise.1 hends)).sublist hsub
      exact h1.and h2
    · have hrowPerm := hperm.map fun r => r.get p
      rw [List.map_map (l := idMap)] at hrowPerm
      exact (hrows p hp).trans hrowPerm.symm
  refine ⟨fun hnil => hne (List.perm_nil.1 (hnil ▸ hperm.symm)), fun r hr => hlen r (hperm.mem_iff.1 hr), ?_⟩
  rw [IdMap.interleave]
  rwa [List.flatMap_congr fun p hp => hrow p (List.mem_range.1 hp)] at hall

/-! ## The tables -/

lemma foldl_maximum (idMap : List (κ × Ranges)) {init : List ℤ} (hinit : init.length = numParts)
    (hlen : ∀ x ∈ idMap, x.2.length = numParts) (hp : p < numParts) :
    ∃ m, (idMap.foldl (fun maxMap x => Tables.maximum (x.2.map Prod.snd) maxMap) init)[p]? = some m ∧
      init.getD p 0 ≤ m ∧ (∀ x ∈ idMap, (x.2.get p).2 ≤ m) ∧
      (m = init.getD p 0 ∨ ∃ x ∈ idMap, m = (x.2.get p).2) := by
  induction idMap generalizing init with
  | nil =>
      refine ⟨init.getD p 0, ?_, le_refl _, fun x hx => absurd hx List.not_mem_nil, Or.inl rfl⟩
      rw [List.getD_eq_getElem?_getD]
      simp [hinit, hp]
  | cons y idMap ih =>
      have hy := hlen y List.mem_cons_self
      have hstep : (Tables.maximum (y.2.map Prod.snd) init).getD p 0 =
          max (y.2.get p).2 (init.getD p 0) := by
        simp only [Tables.maximum, List.getD_eq_getElem?_getD, List.getElem?_zipWith, Ranges.get,
          List.getElem?_map]
        simp [hinit, hy, hp]
      have hlength : (Tables.maximum (y.2.map Prod.snd) init).length = numParts := by
        simp [Tables.maximum, hinit, hy]
      obtain ⟨m, hm, hle, hall, hattained⟩ := ih hlength fun x hx => hlen x (List.mem_cons_of_mem _ hx)
      rw [hstep] at hle hattained
      refine ⟨m, hm, (le_max_right _ _).trans hle, fun x hx => ?_, ?_⟩
      · rcases List.mem_cons.1 hx with rfl | hx
        · exact (le_max_left _ _).trans hle
        · exact hall x hx
      · rcases hattained with hmax | ⟨x, hx, heq⟩
        · rcases max_choice (y.2.get p).2 (init.getD p 0) with hleft | hright
          · exact Or.inr ⟨y, List.mem_cons_self, hmax.trans hleft⟩
          · exact Or.inl (hmax.trans hright)
        · exact Or.inr ⟨x, List.mem_cons_of_mem _ hx, heq⟩

lemma length_foldl_maximum (idMap : List (κ × Ranges)) {init : List ℤ} (hinit : init.length = numParts)
    (hlen : ∀ x ∈ idMap, x.2.length = numParts) :
    (idMap.foldl (fun maxMap x => Tables.maximum (x.2.map Prod.snd) maxMap) init).length = numParts := by
  induction idMap generalizing init with
  | nil => exact hinit
  | cons y idMap ih =>
      apply ih
      · simp [Tables.maximum, hinit, hlen y List.mem_cons_self]
      · exact fun x hx => hlen x (List.mem_cons_of_mem _ hx)

/-- **The last ids of the partitions.** -/
lemma Built.maxIds_eq (hbuilt : Built numParts idMap types t)
    (hlayout : Layout numParts ((sortedTypes idMap).map Prod.snd)) :
    t.maxIds = endsOf (homoEnd ((sortedTypes idMap).map Prod.snd)) numParts := by
  set rs := (sortedTypes idMap).map Prod.snd with hrs
  have hmem (r : Ranges) : r ∈ rs ↔ ∃ x ∈ idMap, x.2 = r := by
    rw [hrs, List.mem_map]
    simp only [sortedTypes, List.mem_insertionSort]
  have hzero : (List.replicate numParts (0 : ℤ)).length = numParts := List.length_replicate
  rw [hbuilt.maxIds]
  apply List.ext_getElem?
  intro p
  by_cases hp : p < numParts
  · obtain ⟨m, hm, hle, hall, hattained⟩ := foldl_maximum idMap hzero hbuilt.length_eq hp
    rw [hm, getElem?_endsOf hp]
    congr 1
    apply le_antisymm
    · rcases hattained with hinit | ⟨x, hx, heq⟩
      · rw [hinit]
        have hpos : homoEnd rs 0 ≤ homoEnd rs (p + 1) :=
          boundaries_mono hlayout.homoEnd_mono (Nat.zero_le _) hp
        have hget : (List.replicate numParts (0 : ℤ)).getD p 0 = 0 := by
          simp [List.getD_eq_getElem?_getD, hp]
        rwa [hget]
      · rw [heq]
        exact (hlayout.range_bounds ((hmem _).2 ⟨x, hx, rfl⟩) hp).2.2
    · obtain ⟨r, hr, hend⟩ := hlayout.exists_end p
      obtain ⟨x, hx, rfl⟩ := (hmem r).1 hr
      rw [← hend]
      exact hall x hx
  · rw [List.getElem?_eq_none (by rw [length_foldl_maximum idMap hzero hbuilt.length_eq]; omega),
      List.getElem?_eq_none (by rw [endsOf, List.length_map, List.length_range]; omega)]

variable [DecidableEq κ]

lemma Tables.built (h : Tables.new numParts idMap types = some t) :
    Built numParts idMap types t := by
  simp only [Tables.new, Option.bind_eq_bind, Option.bind_eq_some_iff, Option.guard_eq_some'] at h
  obtain ⟨names, hnames, -, hcheck, map, hmap, ht⟩ := h
  obtain rfl := Option.some.inj ht
  exact ⟨hnames, rfl, rfl, rfl, fun x hx => (hcheck x hx).2, hmap⟩

lemma lookup_of_mem {α : Type*} {l : List (κ × α)} (hkeys : (l.map Prod.fst).Nodup) {x : κ × α}
    (hx : x ∈ l) : l.lookup x.1 = some x.2 := by
  induction l with
  | nil => exact absurd hx List.not_mem_nil
  | cons y l ih =>
      obtain ⟨hnot, hkeys⟩ := List.nodup_cons.1 hkeys
      rcases List.mem_cons.1 hx with rfl | hx
      · exact List.lookup_cons_self
      · have hne : x.1 ≠ y.1 := fun heq => hnot (heq ▸ List.mem_map_of_mem hx)
        rw [List.lookup_cons, beq_eq_false_iff_ne.2 hne]
        exact ih hkeys hx

lemma Layout.homoEnd_singleton (hlayout : Layout numParts [r]) (hp : p ≤ numParts) :
    homoEnd [r] p = r.before p := by
  induction p with
  | zero => rfl
  | succ p ih =>
      have hrow := hlayout.row_consecutive (Nat.lt_of_succ_le hp)
      obtain ⟨hstart, -, -⟩ := hrow
      have hlen := hlayout.length_eq r (List.mem_singleton_self r)
      rw [Ranges.before_succ (by omega), ← ih (by omega), homoEnd_succ]
      show (r.get p).2 = _
      rw [← hstart]
      ring

/-- **The table of a type** lists the last ids of the partitions. -/
lemma Built.lastIds_eq (hbuilt : Built numParts idMap types t)
    (hlayout : Layout numParts ((sortedTypes idMap).map Prod.snd))
    (hkeys : (idMap.map Prod.fst).Nodup) (hdflt : dflt ∈ idMap.map Prod.fst → idMap.length = 1)
    {x : κ × Ranges} (hx : x ∈ idMap) :
    t.lastIds dflt x.1 = some (endsOf x.2.before numParts) := by
  have htable : t.typedMaxIds.lookup x.1 = some (endsOf x.2.before numParts) := by
    have hmem : (x.1, cumsum x.2.counts) ∈ t.typedMaxIds := by
      rw [hbuilt.typedMaxIds]
      exact List.mem_map.2 ⟨x, hx, rfl⟩
    have hkeys' : (t.typedMaxIds.map Prod.fst).Nodup := by
      rw [hbuilt.typedMaxIds, List.map_map]
      exact hkeys
    have hlookup := lookup_of_mem hkeys' hmem
    rwa [cumsum_counts, hbuilt.length_eq x hx] at hlookup
  by_cases hname : x.1 = dflt
  · have hone := hdflt (hname ▸ List.mem_map_of_mem hx)
    have hsingle : idMap = [x] := by
      obtain ⟨y, rfl⟩ := List.length_eq_one_iff.1 hone
      rw [List.mem_singleton.1 hx]
    have hsorted : (sortedTypes idMap).map Prod.snd = [x.2] := by
      rw [hsingle]
      rfl
    rw [hsorted] at hlayout
    rw [Tables.lastIds, if_pos hname, hbuilt.maxIds_eq (by rwa [hsorted]), hsorted, endsOf, endsOf]
    congr 1
    apply List.map_congr_left
    intro p hp
    exact hlayout.homoEnd_singleton (List.mem_range.1 hp)
  · rw [Tables.lastIds, if_neg hname, htable]

/-! ## Consistent ids -/

/-- The partitions split the ids of a name, in the book of partition `self`. -/
structure Partitioned (t : Tables κ) (dflt : κ) (numParts self : ℕ) (name : κ) : Prop where
  split : ∃ (n : ℤ) (pieces : ℕ → List ℤ), t.total dflt name = some n ∧
    (∀ p < numParts, t.partid2ids dflt p name = some (pieces p)) ∧
    (List.range numParts).flatMap pieces = arange 0 n ∧
    (∀ p < numParts, ∀ id ∈ pieces p, t.id2partid dflt id name = some p) ∧
    (pieces self).map (fun id => t.id2localid dflt self id self name) =
      (arange 0 (pieces self).length).map some

/-- A homogeneous id and the id of a type that lead to each other, in the same partition. -/
structure SameId (t : Tables κ) (dflt : κ) (numParts : ℕ) (id : ℤ) (name : κ) (typed : ℤ) : Prop where
  toTyped : ∃ i, t.mapToPerType id = some (i, typed) ∧ t.names[i]? = some name
  toHomo : t.mapToHomo dflt typed name = some id
  samePart : ∃ p < numParts, t.id2partid dflt id dflt = some p ∧ t.id2partid dflt typed name = some p

/-- All ids and the ids of the types are consistent. -/
structure Tables.Consistent (t : Tables κ) (dflt : κ) (numParts self : ℕ) : Prop where
  homo : Partitioned t dflt numParts self dflt
  typed : ∀ x ∈ t.typedRange, Partitioned t dflt numParts self x.1
  toTyped : ∀ n, t.total dflt dflt = some n → ∀ id, 0 ≤ id → id < n →
    ∃ x ∈ t.typedRange, ∃ typed, SameId t dflt numParts id x.1 typed
  toHomo : ∀ x ∈ t.typedRange, ∀ n, t.total dflt x.1 = some n → ∀ typed, 0 ≤ typed → typed < n →
    ∃ id, SameId t dflt numParts id x.1 typed

/-- **A table of last ids** splits the ids of its name. -/
lemma partitioned {f : ℕ → ℤ} {self : ℕ} (hlast : t.lastIds dflt name = some (endsOf f numParts))
    (hzero : f 0 = 0) (hmono : ∀ p < numParts, f p ≤ f (p + 1)) (hself : self < numParts) :
    t.total dflt name = some (f numParts) ∧ Partitioned t dflt numParts self name := by
  have htotal : t.total dflt name = some (f numParts) := by
    rw [Tables.total, hlast, Option.bind_some, List.getLast?_eq_getElem?]
    have hlen : (endsOf f numParts).length = numParts := by
      rw [endsOf, List.length_map, List.length_range]
    rw [hlen, getElem?_endsOf (by omega), Nat.sub_add_cancel (by omega)]
  have hstart : ∀ p < numParts, Tables.startOf (endsOf f numParts) p = f p := by
    intro p hp
    rw [Tables.startOf]
    by_cases hpos : 0 < p
    · rw [if_pos hpos, List.getD_eq_getElem?_getD, getElem?_endsOf (by omega),
        Nat.sub_add_cancel hpos]
      rfl
    · rw [if_neg hpos, Nat.eq_zero_of_not_pos hpos, hzero]
  refine ⟨htotal, ⟨f numParts, fun p => arange (f p) (f (p + 1)), htotal, ?_, ?_, ?_, ?_⟩⟩
  · intro p hp
    simp only [Tables.partid2ids, hlast, Option.bind_eq_bind, Option.bind_some, getElem?_endsOf hp,
      hstart p hp]
  · rw [flatMap_arange hmono, hzero]
  · intro p hp id hid
    obtain ⟨h1, h2⟩ := mem_arange.1 hid
    rw [Tables.id2partid, hlast, Option.map_some, searchsortedRight, findIdx_endsOf hmono hp h1 h2]
  · have hle := hmono self hself
    have hlocal (id : ℤ) : t.id2localid dflt self id self name = some (id - f self) := by
      simp only [Tables.id2localid, hlast, Option.bind_eq_bind, Option.bind_some, hstart self hself]
      simp
    have hlen : ((arange (f self) (f (self + 1))).length : ℤ) = f (self + 1) - f self := by
      rw [arange, List.length_map, List.length_range]
      omega
    rw [hlen, ← map_sub_arange, List.map_map]
    exact List.map_congr_left fun id _ => hlocal id

/-- **An id in the range of a type** and its number among the ids of the type. -/
lemma Built.sameId (hbuilt : Built numParts idMap types t) (htiles : Tiles numParts idMap)
    (hkeys : (idMap.map Prod.fst).Nodup) (hdflt : dflt ∈ idMap.map Prod.fst → idMap.length = 1)
    (hnumbered : Numbered idMap t.names) {i : ℕ} {id : ℤ} (hp : p < numParts)
    (hi : i < (sortedTypes idMap).length) (h1 : ((sortedTypes idMap)[i].2.get p).1 ≤ id)
    (h2 : id < ((sortedTypes idMap)[i].2.get p).2) :
    SameId t dflt numParts id (sortedTypes idMap)[i].1
      (id - ((sortedTypes idMap)[i].2.get p).1 + (sortedTypes idMap)[i].2.before p) := by
  have hlayout := hbuilt.layout htiles
  have hmem := mem_of_sortedTypes hi
  set x := (sortedTypes idMap)[i] with hx
  have hlen := hbuilt.length_eq x hmem
  have hr : x.2 ∈ (sortedTypes idMap).map Prod.snd := List.mem_map_of_mem (List.getElem_mem hi)
  have hmono := hlayout.before_mono hr
  have hsucc := Ranges.before_succ (r := x.2) (p := p) (by omega)
  have hlast : t.lastIds dflt x.1 = _ := hbuilt.lastIds_eq hlayout hkeys hdflt hmem
  refine ⟨⟨i, ?_, ?_⟩, ?_, ⟨p, hp, ?_, ?_⟩⟩
  · have hlengths : ∀ r ∈ idMap.map Prod.snd, r.length = numParts := by
      intro r hr
      obtain ⟨y, hy, rfl⟩ := List.mem_map.1 hr
      exact hbuilt.length_eq y hy
    obtain ⟨-, -, -, hmap⟩ := IdMap.new_eq_some hlengths hbuilt.idMap
    rw [← map_sortedTypes] at hmap
    have hi' : i < ((sortedTypes idMap).map Prod.snd).length := by rwa [List.length_map]
    have hget : ((sortedTypes idMap).map Prod.snd)[i] = x.2 :=
      List.getElem_map _
    have htypes : t.idMap.numTypes = ((sortedTypes idMap).map Prod.snd).length := by
      rw [hmap]
      simp [sortedTypes]
    have hcall : t.idMap.call id = _ := hlayout.call_eq (by rw [hmap]) htypes (by rw [hmap])
      (by rw [hmap]) (by rw [hmap]) hp (by rwa [List.length_map]) (by rwa [hget]) (by rwa [hget])
    rwa [hget] at hcall
  · apply hnumbered i hi
    refine ⟨x.2.get p, ?_, h1.trans_lt h2⟩
    rw [Ranges.get, List.getD_eq_getElem?_getD, List.getElem?_eq_getElem (by omega)]
    exact List.getElem_mem _
  · have hpart : t.id2partid dflt (id - (x.2.get p).1 + x.2.before p) x.1 = some p := by
      rw [Tables.id2partid, hlast, Option.map_some, searchsortedRight,
        findIdx_endsOf hmono hp (by omega) (by omega)]
    have htyped : t.typedMaxIds.lookup x.1 = some (endsOf x.2.before numParts) := by
      have hmem' : (x.1, cumsum x.2.counts) ∈ t.typedMaxIds := by
        rw [hbuilt.typedMaxIds]
        exact List.mem_map.2 ⟨x, hmem, rfl⟩
      have hkeys' : (t.typedMaxIds.map Prod.fst).Nodup := by
        rw [hbuilt.typedMaxIds, List.map_map]
        exact hkeys
      have hlookup := lookup_of_mem hkeys' hmem'
      rwa [cumsum_counts, hlen] at hlookup
    have hrange : t.typedRange.lookup x.1 = some x.2 := by
      rw [hbuilt.typedRange]
      exact lookup_of_mem hkeys hmem
    have hget : x.2[p]? = some (x.2.get p) := by
      rw [Ranges.get, List.getD_eq_getElem?_getD, List.getElem?_eq_getElem (by omega)]
      rfl
    simp only [Tables.mapToHomo, hpart, htyped, hrange, hget, getElem?_endsOf hp, Option.bind_eq_bind,
      Option.bind_some, Option.map_some, Option.some.injEq]
    omega
  · have hbounds := hlayout.range_bounds hr hp
    rw [Tables.id2partid, Tables.lastIds, if_pos rfl, hbuilt.maxIds_eq hlayout, Option.map_some,
      searchsortedRight, findIdx_endsOf hlayout.homoEnd_mono hp (by omega) (by omega)]
  · rw [Tables.id2partid, hlast, Option.map_some, searchsortedRight,
      findIdx_endsOf hmono hp (by omega) (by omega)]

/-- **All ids are consistent** in tables whose ranges tile the ids. -/
theorem Built.book_consistent (hbuilt : Built numParts idMap types t) (htiles : Tiles numParts idMap)
    (hkeys : (idMap.map Prod.fst).Nodup) (hdflt : dflt ∈ idMap.map Prod.fst → idMap.length = 1)
    (hnumbered : Numbered idMap t.names) {self : ℕ} (hself : self < numParts) :
    t.Consistent dflt numParts self := by
  have hlayout := hbuilt.layout htiles
  have hhomo : t.lastIds dflt dflt =
      some (endsOf (homoEnd ((sortedTypes idMap).map Prod.snd)) numParts) := by
    rw [Tables.lastIds, if_pos rfl, hbuilt.maxIds_eq hlayout]
  obtain ⟨htotal, hparts⟩ := partitioned hhomo rfl hlayout.homoEnd_mono hself
  have htyped : ∀ x ∈ idMap, t.total dflt x.1 = some (x.2.before numParts) ∧
      Partitioned t dflt numParts self x.1 := by
    intro x hx
    have hr : x.2 ∈ (sortedTypes idMap).map Prod.snd :=
      List.mem_map_of_mem ((List.mem_insertionSort _).2 hx)
    exact partitioned (hbuilt.lastIds_eq hlayout hkeys hdflt hx) rfl (hlayout.before_mono hr) hself
  refine ⟨hparts, ?_, ?_, ?_⟩
  · rw [hbuilt.typedRange]
    exact fun x hx => (htyped x hx).2
  · intro n hn id h0 hlt
    rw [htotal] at hn
    obtain rfl := Option.some.inj hn
    obtain ⟨p, hp, i, hi, h1, h2⟩ := hlayout.exists_range h0 hlt
    rw [List.length_map] at hi
    rw [List.getElem_map] at h1 h2
    rw [hbuilt.typedRange]
    exact ⟨_, mem_of_sortedTypes hi, _,
      hbuilt.sameId htiles hkeys hdflt hnumbered hp hi h1 h2⟩
  · intro x hx n hn typed h0 hlt
    rw [hbuilt.typedRange] at hx
    rw [(htyped x hx).1] at hn
    obtain rfl := Option.some.inj hn
    obtain ⟨p, hp, h1, h2⟩ := exists_between (f := x.2.before) h0 hlt
    have hmem : x ∈ sortedTypes idMap := (List.mem_insertionSort _).2 hx
    obtain ⟨i, hi, heq⟩ := List.mem_iff_getElem.1 hmem
    have hsucc := Ranges.before_succ (r := x.2) (p := p) (by rw [hbuilt.length_eq x hx]; exact hp)
    have hsame : SameId t dflt numParts (typed - x.2.before p + (x.2.get p).1) _ _ :=
      hbuilt.sameId htiles hkeys hdflt hnumbered hp hi (by rw [heq]; omega) (by rw [heq]; omega)
    rw [heq] at hsame
    refine ⟨typed - x.2.before p + (x.2.get p).1, ?_⟩
    have hback : typed - x.2.before p + (x.2.get p).1 - (x.2.get p).1 + x.2.before p = typed := by ring
    rwa [hback] at hsame

end DglAscend.Partition
