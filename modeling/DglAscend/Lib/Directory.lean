import Mathlib.Tactic
import Mathlib.Data.Multiset.Range
import Mathlib.Data.Multiset.MapFold
import Mathlib.Data.Multiset.AddSub
import Mathlib.Data.Multiset.Filter
import Mathlib.Logic.Function.Basic

/-!
# Directories of reference-counted slots

A directory maps keys to entries.  Every entry owns one of `capacity` storage slots and carries
a pin count: a positive count says how many readers are using the slot, the count `-1` that a
writer is filling it.  A key is admitted either into an unused slot or into the slot of an entry
whose count is zero.

`Directory.Accesses` is what looking up one key can do, `Directory.Run` a sequence of lookups.
Three invariants are developed over them:

* `Directory.WellFormed`: the index, the entries and the slots are in bijection;
* `Directory.Balanced`: the counts are those of the pins and the writes that are outstanding;
* `Directory.Coherent`: a slot that nobody is filling holds the value of its entry's key.
-/

namespace DglAscend

variable {K V : Type*}

/-- An entry of a directory. -/
structure SlotEntry (K : Type*) where
  addr : ℕ
  key : K
  slot : ℤ
  pins : ℤ
deriving DecidableEq

/-- Change the pin count of the entry at address `a`. -/
def SlotEntry.repin (a : ℕ) (f : ℤ → ℤ) (e : SlotEntry K) : SlotEntry K :=
  if e.addr = a then { e with pins := f e.pins } else e

namespace SlotEntry

@[simp] lemma repin_addr (a : ℕ) (f : ℤ → ℤ) (e : SlotEntry K) : (e.repin a f).addr = e.addr := by
  unfold repin; split <;> rfl

@[simp] lemma repin_key (a : ℕ) (f : ℤ → ℤ) (e : SlotEntry K) : (e.repin a f).key = e.key := by
  unfold repin; split <;> rfl

@[simp] lemma repin_slot (a : ℕ) (f : ℤ → ℤ) (e : SlotEntry K) : (e.repin a f).slot = e.slot := by
  unfold repin; split <;> rfl

lemma repin_pins (a : ℕ) (f : ℤ → ℤ) (e : SlotEntry K) :
    (e.repin a f).pins = if e.addr = a then f e.pins else e.pins := by
  unfold repin; split <;> rfl

end SlotEntry

/-- A directory.  `index k` is `none` for an absent key and `some none` for a key that has been
announced but not admitted yet; `nextAddr` is the next unused address. -/
structure Directory (K : Type*) where
  capacity : ℕ
  used : ℕ
  pinLimit : ℤ
  index : K → Option (Option ℕ)
  resident : Multiset (SlotEntry K)
  nextAddr : ℕ

/-- What a lookup of one key found or did. -/
inductive Access where
  /-- the entry was readable and has been pinned -/
  | hit (addr : ℕ) (slot : ℤ)
  /-- the entry is being written -/
  | busy
  /-- there is no entry, and none was made -/
  | absent
  /-- an entry was made, for a writer to fill -/
  | admitted (addr : ℕ) (slot : ℤ)
deriving DecidableEq

namespace Access

def isHit : Access → Bool
  | .hit .. => true
  | _ => false

/-- The entry that the caller is given. -/
def addr? : Access → Option ℕ
  | .hit a _ => some a
  | .admitted a _ => some a
  | _ => none

/-- The slot that the caller is given. -/
def slot? : Access → Option ℤ
  | .hit _ p => some p
  | .admitted _ p => some p
  | _ => none

end Access

/-- What an access pinned. -/
def Access.pinned : Access → Multiset ℕ
  | .hit a _ => {a}
  | _ => 0

/-- What an access reserved for a writer. -/
def Access.reserved : Access → Multiset ℕ
  | .admitted a _ => {a}
  | _ => 0

/-- The addresses pinned by a sequence of accesses. -/
def pinnedBy (l : List (K × Access)) : Multiset ℕ := (l.map fun x => x.2.pinned).sum

/-- The addresses reserved by a sequence of accesses. -/
def reservedBy (l : List (K × Access)) : Multiset ℕ := (l.map fun x => x.2.reserved).sum

@[simp] lemma pinnedBy_nil : pinnedBy ([] : List (K × Access)) = 0 := rfl

@[simp] lemma reservedBy_nil : reservedBy ([] : List (K × Access)) = 0 := rfl

lemma pinnedBy_concat (l : List (K × Access)) (k : K) (r : Access) :
    pinnedBy (l ++ [(k, r)]) = pinnedBy l + r.pinned := by
  simp [pinnedBy]

lemma reservedBy_concat (l : List (K × Access)) (k : K) (r : Access) :
    reservedBy (l ++ [(k, r)]) = reservedBy l + r.reserved := by
  simp [reservedBy]

namespace Directory

/-- Change the pin count of the entry at address `a`. -/
def repin (d : Directory K) (a : ℕ) (f : ℤ → ℤ) : Directory K :=
  { d with resident := d.resident.map (SlotEntry.repin a f) }

variable {a : ℕ} {f g : ℤ → ℤ}

lemma repin_congr {d : Directory K} (h : ∀ e ∈ d.resident, e.addr = a → f e.pins = g e.pins) :
    d.repin a f = d.repin a g := by
  simp only [repin, Directory.mk.injEq, true_and, and_true]
  refine Multiset.map_congr rfl fun e he => ?_
  unfold SlotEntry.repin
  split
  · rename_i ha
    rw [h e he ha]
  · rfl

variable {e e' : SlotEntry K}

lemma mem_repin {d : Directory K} :
    e ∈ (d.repin a f).resident ↔ ∃ e₀ ∈ d.resident, e₀.repin a f = e := by
  simp [repin]

/-- **Well-formedness.**  Addresses are distinct and below `nextAddr`; the index sends exactly
the resident keys to their entries; the slots of the entries are `0, …, used - 1`, each once. -/
structure WellFormed (d : Directory K) : Prop where
  addr_nodup : (d.resident.map SlotEntry.addr).Nodup
  addr_lt : ∀ e ∈ d.resident, e.addr < d.nextAddr
  index_iff : ∀ k a, d.index k = some (some a) ↔ ∃ e ∈ d.resident, e.addr = a ∧ e.key = k
  index_ne_sentinel : ∀ k, d.index k ≠ some none
  slots_eq : d.resident.map SlotEntry.slot = (Multiset.range d.used).map Nat.cast
  used_le : d.used ≤ d.capacity
  pins_le : ∀ e ∈ d.resident, e.pins ≤ d.pinLimit

section WellFormed

variable {d : Directory K}

section

variable (h : d.WellFormed)
include h

lemma WellFormed.eq_of_addr (he : e ∈ d.resident) (he' : e' ∈ d.resident) (ha : e.addr = e'.addr) :
    e = e' :=
  Multiset.inj_on_of_nodup_map h.addr_nodup e he e' he' ha

lemma WellFormed.eq_of_key (he : e ∈ d.resident) (he' : e' ∈ d.resident) (hk : e.key = e'.key) :
    e = e' := by
  have h1 := (h.index_iff e.key e.addr).2 ⟨e, he, rfl, rfl⟩
  have h2 := (h.index_iff e'.key e'.addr).2 ⟨e', he', rfl, rfl⟩
  rw [hk, h2] at h1
  exact h.eq_of_addr he he' (by simpa using h1.symm)

lemma WellFormed.slots_nodup : (d.resident.map SlotEntry.slot).Nodup := by
  rw [h.slots_eq]
  exact (Multiset.nodup_range d.used).map Nat.cast_injective

lemma WellFormed.eq_of_slot (he : e ∈ d.resident) (he' : e' ∈ d.resident) (hs : e.slot = e'.slot) :
    e = e' :=
  Multiset.inj_on_of_nodup_map h.slots_nodup e he e' he' hs

lemma WellFormed.card_resident : Multiset.card d.resident = d.used := by
  have := congrArg Multiset.card h.slots_eq
  simpa using this

lemma WellFormed.slot_range (he : e ∈ d.resident) : 0 ≤ e.slot ∧ e.slot < d.used := by
  have hmem : e.slot ∈ (Multiset.range d.used).map (Nat.cast : ℕ → ℤ) := by
    rw [← h.slots_eq]
    exact Multiset.mem_map_of_mem _ he
  obtain ⟨i, hi, heq⟩ := Multiset.mem_map.1 hmem
  rw [Multiset.mem_range] at hi
  omega

lemma WellFormed.slot_lt_capacity (he : e ∈ d.resident) : e.slot < d.capacity := by
  have := (h.slot_range he).2
  have := h.used_le
  omega

/-- A key that the index does not know has no entry. -/
lemma WellFormed.key_ne_of_absent {k : K} (hk : d.index k = none) (he : e ∈ d.resident) :
    e.key ≠ k := by
  intro heq
  have := (h.index_iff e.key e.addr).2 ⟨e, he, rfl, rfl⟩
  rw [heq, hk] at this
  simp at this

/-- Pin counts play no part in well-formedness but for their bound. -/
lemma WellFormed.repin (a : ℕ) (hf : ∀ e ∈ d.resident, e.addr = a → f e.pins ≤ d.pinLimit) :
    (d.repin a f).WellFormed where
  addr_nodup := by
    simpa [Directory.repin, Multiset.map_map, Function.comp_def] using h.addr_nodup
  addr_lt := by
    intro e he
    obtain ⟨e₀, he₀, rfl⟩ := mem_repin.1 he
    rw [SlotEntry.repin_addr]
    exact h.addr_lt e₀ he₀
  index_iff := by
    intro k b
    rw [show (d.repin a f).index k = d.index k from rfl, h.index_iff k b]
    constructor
    · rintro ⟨e, he, rfl, rfl⟩
      exact ⟨e.repin a f, mem_repin.2 ⟨e, he, rfl⟩, by simp, by simp⟩
    · rintro ⟨e, he, rfl, rfl⟩
      obtain ⟨e₀, he₀, rfl⟩ := mem_repin.1 he
      exact ⟨e₀, he₀, by simp, by simp⟩
  index_ne_sentinel := h.index_ne_sentinel
  slots_eq := by
    simpa [Directory.repin, Multiset.map_map, Function.comp_def] using h.slots_eq
  used_le := h.used_le
  pins_le := by
    intro e he
    obtain ⟨e₀, he₀, rfl⟩ := mem_repin.1 he
    rw [SlotEntry.repin_pins]
    split
    · exact hf e₀ he₀ ‹_›
    · exact h.pins_le e₀ he₀

end

end WellFormed

/-! ## Balance -/

/-- **Balance.**  With the pins `P` and the writes `W` outstanding, the count of every entry is
the number of its pins minus one if it is being written.  What is outstanding is resident, and
an entry that is being written has one writer and no pin. -/
structure Balanced (d : Directory K) (P W : Multiset ℕ) : Prop where
  pins_eq : ∀ e ∈ d.resident, e.pins = P.count e.addr - W.count e.addr
  live : ∀ a ∈ P + W, ∃ e ∈ d.resident, e.addr = a
  writes_nodup : W.Nodup
  disjoint : ∀ a ∈ W, a ∉ P

section Balanced

variable {d d' : Directory K} {P W : Multiset ℕ}

section

variable (h : d.Balanced P W)
include h

lemma Balanced.live_repin {b : ℕ} (hb : b ∈ P + W) :
    ∃ e ∈ (d.repin a f).resident, e.addr = b := by
  obtain ⟨e, he, rfl⟩ := h.live b hb
  exact ⟨e.repin a f, mem_repin.2 ⟨e, he, rfl⟩, by simp⟩

section

variable (he : e ∈ d.resident)
include he

/-- An entry is idle exactly when nothing about it is outstanding. -/
lemma Balanced.pins_eq_zero_iff : e.pins = 0 ↔ e.addr ∉ P ∧ e.addr ∉ W := by
  rw [h.pins_eq e he]
  by_cases hW : e.addr ∈ W
  · have := Multiset.count_eq_one_of_mem h.writes_nodup hW
    have := Multiset.count_eq_zero_of_notMem (h.disjoint _ hW)
    constructor
    · intro; omega
    · exact fun hc => absurd hW hc.2
  · have := Multiset.count_eq_zero_of_notMem hW
    by_cases hP : e.addr ∈ P
    · have := Multiset.count_pos.2 hP
      constructor
      · intro; omega
      · exact fun hc => absurd hP hc.1
    · have := Multiset.count_eq_zero_of_notMem hP
      constructor
      · exact fun _ => ⟨hP, hW⟩
      · intro; omega

/-- An entry is being written exactly when its write is outstanding. -/
lemma Balanced.pins_neg_iff : e.pins < 0 ↔ e.addr ∈ W := by
  rw [h.pins_eq e he]
  by_cases hW : e.addr ∈ W
  · have := Multiset.count_eq_one_of_mem h.writes_nodup hW
    have := Multiset.count_eq_zero_of_notMem (h.disjoint _ hW)
    simp only [hW, iff_true]
    omega
  · have := Multiset.count_eq_zero_of_notMem hW
    simp only [hW, iff_false]
    omega

lemma Balanced.pins_of_write (hW : e.addr ∈ W) : e.pins = -1 := by
  rw [h.pins_eq e he, Multiset.count_eq_one_of_mem h.writes_nodup hW,
    Multiset.count_eq_zero_of_notMem (h.disjoint _ hW)]
  rfl

lemma Balanced.pins_of_pin (hP : e.addr ∈ P) : 0 < e.pins := by
  have hW : e.addr ∉ W := fun hW => h.disjoint _ hW hP
  rw [h.pins_eq e he, Multiset.count_eq_zero_of_notMem hW]
  have := Multiset.count_pos.2 hP
  omega

/-- Adding a pin to an entry that is not being written. -/
lemma Balanced.pin (hp : 0 ≤ e.pins) : (d.repin e.addr (· + 1)).Balanced (e.addr ::ₘ P) W where
  pins_eq := by
    intro e' he'
    obtain ⟨e₀, he₀, rfl⟩ := mem_repin.1 he'
    rw [SlotEntry.repin_pins, SlotEntry.repin_addr, Multiset.count_cons, h.pins_eq e₀ he₀]
    split
    · push_cast; omega
    · simp
  live := by
    intro b hb
    rw [Multiset.cons_add] at hb
    rcases Multiset.mem_cons.1 hb with rfl | hb
    · exact ⟨e.repin e.addr (· + 1), mem_repin.2 ⟨e, he, rfl⟩, by simp⟩
    · exact h.live_repin hb
  writes_nodup := h.writes_nodup
  disjoint := by
    intro a ha hmem
    rcases Multiset.mem_cons.1 hmem with rfl | hmem
    · have := (h.pins_neg_iff he).2 ha
      omega
    · exact h.disjoint a ha hmem

end

lemma Balanced.unpin (ha : a ∈ P) : (d.repin a (· - 1)).Balanced (P.erase a) W where
  pins_eq := by
    intro e' he'
    obtain ⟨e₀, he₀, rfl⟩ := mem_repin.1 he'
    rw [SlotEntry.repin_pins, SlotEntry.repin_addr, h.pins_eq e₀ he₀]
    split
    · rename_i heq
      have := Multiset.count_pos.2 ha
      rw [heq, Multiset.count_erase_self]
      omega
    · rename_i hne
      rw [Multiset.count_erase_of_ne hne]
  live := fun b hb => h.live_repin
    (Multiset.mem_add.2 ((Multiset.mem_add.1 hb).imp_left Multiset.mem_of_mem_erase))
  writes_nodup := h.writes_nodup
  disjoint := fun b hb hmem => h.disjoint b hb (Multiset.mem_of_mem_erase hmem)

lemma Balanced.publish (ha : a ∈ W) : (d.repin a (· + 1)).Balanced P (W.erase a) where
  pins_eq := by
    intro e' he'
    obtain ⟨e₀, he₀, rfl⟩ := mem_repin.1 he'
    rw [SlotEntry.repin_pins, SlotEntry.repin_addr, h.pins_eq e₀ he₀]
    split
    · rename_i heq
      have := Multiset.count_pos.2 ha
      rw [heq, Multiset.count_erase_self]
      omega
    · rename_i hne
      rw [Multiset.count_erase_of_ne hne]
  live := fun b hb => h.live_repin
    (Multiset.mem_add.2 ((Multiset.mem_add.1 hb).imp_right Multiset.mem_of_mem_erase))
  writes_nodup := h.writes_nodup.erase a
  disjoint := fun b hb => h.disjoint b (Multiset.mem_of_mem_erase hb)

/-- Admitting a key at a fresh address, whatever idle entries leave meanwhile. -/
lemma Balanced.admit (hlt : ∀ e ∈ d.resident, e.addr < d.nextAddr) (ha : e.addr = d.nextAddr)
    (hp : e.pins = -1) {rest : Multiset (SlotEntry K)} (hsub : ∀ x ∈ rest, x ∈ d.resident)
    (hrest : ∀ x ∈ d.resident, x.pins ≠ 0 → x ∈ rest) (hd' : d'.resident = e ::ₘ rest) :
    d'.Balanced P (d.nextAddr ::ₘ W) where
  pins_eq := by
    have hfresh : d.nextAddr ∉ P + W := fun hmem => by
      obtain ⟨x, hx, hxa⟩ := h.live _ hmem
      have := hlt x hx
      omega
    rw [Multiset.mem_add, not_or] at hfresh
    intro x hx
    rw [hd'] at hx
    rcases Multiset.mem_cons.1 hx with rfl | hx
    · rw [hp, ha, Multiset.count_cons_self, Multiset.count_eq_zero_of_notMem hfresh.1,
        Multiset.count_eq_zero_of_notMem hfresh.2]
      rfl
    · have := hlt x (hsub x hx)
      rw [Multiset.count_cons_of_ne (by omega), h.pins_eq x (hsub x hx)]
  live := by
    intro a hmem
    rw [Multiset.add_cons, Multiset.mem_cons] at hmem
    rw [hd']
    rcases hmem with rfl | hmem
    · exact ⟨e, Multiset.mem_cons_self _ _, ha⟩
    · obtain ⟨x, hx, rfl⟩ := h.live a hmem
      refine ⟨x, Multiset.mem_cons_of_mem (hrest x hx fun h0 => ?_), rfl⟩
      have := (h.pins_eq_zero_iff hx).1 h0
      rcases Multiset.mem_add.1 hmem with hm | hm
      · exact this.1 hm
      · exact this.2 hm
  writes_nodup := by
    refine Multiset.nodup_cons.2 ⟨fun hmem => ?_, h.writes_nodup⟩
    obtain ⟨x, hx, hxa⟩ := h.live _ (Multiset.mem_add.2 (Or.inr hmem))
    have := hlt x hx
    omega
  disjoint := by
    intro a hmem hP
    rcases Multiset.mem_cons.1 hmem with rfl | hmem
    · obtain ⟨x, hx, hxa⟩ := h.live _ (Multiset.mem_add.2 (Or.inl hP))
      have := hlt x hx
      omega
    · exact h.disjoint a hmem hP

end

end Balanced

/-! ## Coherence of the stored values -/

/-- **Coherence.**  The slot of every entry outside `W`, the writes that are outstanding, holds
the value of its key. -/
def Coherent (d : Directory K) (W : Multiset ℕ) (mem : ℤ → Option V) (val : K → V) : Prop :=
  ∀ e ∈ d.resident, e.addr ∉ W → mem e.slot = some (val e.key)

section Coherent

variable {d : Directory K} {W : Multiset ℕ} {mem : ℤ → Option V} {val : K → V}

lemma Coherent.repin (h : d.Coherent W mem val) (a : ℕ) (f : ℤ → ℤ) :
    (d.repin a f).Coherent W mem val := by
  intro e he hW
  obtain ⟨e₀, he₀, rfl⟩ := mem_repin.1 he
  simpa using h e₀ he₀ (by simpa using hW)

end Coherent

/-! ## Accesses -/

variable [DecidableEq K]

/-- Admit `k` into the next unused slot. -/
def fill (d : Directory K) (k : K) : Directory K :=
  { d with
    used := d.used + 1
    index := Function.update d.index k (some (some d.nextAddr))
    resident := ⟨d.nextAddr, k, d.used, -1⟩ ::ₘ d.resident
    nextAddr := d.nextAddr + 1 }

/-- Admit `k` into the slot of the entry `v`, which leaves the directory. -/
def replace (d : Directory K) (k : K) (v : SlotEntry K) : Directory K :=
  { d with
    index := Function.update (Function.update d.index k (some (some d.nextAddr))) v.key none
    resident := ⟨d.nextAddr, k, v.slot, -1⟩ ::ₘ d.resident.erase v
    nextAddr := d.nextAddr + 1 }

/-- What looking up `k` can do to a directory. -/
inductive Accesses : Directory K → K → Access → Directory K → Prop where
  | hit {d : Directory K} {e : SlotEntry K} (he : e ∈ d.resident) (hp : 0 ≤ e.pins)
      (hlt : e.pins < d.pinLimit) :
      Accesses d e.key (.hit e.addr e.slot) (d.repin e.addr (· + 1))
  | busy {d : Directory K} {e : SlotEntry K} (he : e ∈ d.resident) (hp : e.pins < 0) :
      Accesses d e.key .busy d
  | absent {d : Directory K} {k : K} (hk : d.index k = none) : Accesses d k .absent d
  | fill {d : Directory K} {k : K} (hk : d.index k = none) (hu : d.used < d.capacity) :
      Accesses d k (.admitted d.nextAddr d.used) (d.fill k)
  | replace {d : Directory K} {k : K} {v : SlotEntry K} (hk : d.index k = none)
      (hu : d.capacity ≤ d.used) (hv : v ∈ d.resident) (hp : v.pins = 0) :
      Accesses d k (.admitted d.nextAddr v.slot) (d.replace k v)

/-- A sequence of lookups, with what each of them found or did. -/
inductive Run : Directory K → List (K × Access) → Directory K → Prop where
  | nil (d : Directory K) : Run d [] d
  | snoc {d d₁ d₂ : Directory K} {l : List (K × Access)} {k : K} {r : Access} :
      Run d l d₁ → Accesses d₁ k r d₂ → Run d (l ++ [(k, r)]) d₂

section Preservation

variable {d d' : Directory K} {k : K} {r : Access} {l : List (K × Access)}

lemma WellFormed.fill (h : d.WellFormed) (hk : d.index k = none) (hu : d.used < d.capacity)
    (hlim : -1 ≤ d.pinLimit) : (d.fill k).WellFormed where
  addr_nodup := by
    simp only [Directory.fill, Multiset.map_cons, Multiset.nodup_cons]
    refine ⟨fun hmem => ?_, h.addr_nodup⟩
    obtain ⟨e, he, ha⟩ := Multiset.mem_map.1 hmem
    have := h.addr_lt e he
    omega
  addr_lt := by
    intro e he
    rcases Multiset.mem_cons.1 he with rfl | he
    · exact Nat.lt_succ_self _
    · exact (h.addr_lt e he).trans (Nat.lt_succ_self _)
  index_iff := by
    intro k' a
    simp only [Directory.fill, Function.update_apply, Multiset.mem_cons]
    split
    · rename_i heq
      subst heq
      constructor
      · rintro hsome
        exact ⟨_, Or.inl rfl, by simpa using hsome, rfl⟩
      · rintro ⟨e, rfl | he, rfl, hkey⟩
        · rfl
        · exact absurd hkey (h.key_ne_of_absent hk he)
    · rename_i hne
      rw [h.index_iff k' a]
      constructor
      · rintro ⟨e, he, hae, hkey⟩
        exact ⟨e, Or.inr he, hae, hkey⟩
      · rintro ⟨e, rfl | he, hae, hkey⟩
        · exact absurd hkey.symm hne
        · exact ⟨e, he, hae, hkey⟩
  index_ne_sentinel := by
    intro k'
    simp only [Directory.fill, Function.update_apply]
    split
    · simp
    · exact h.index_ne_sentinel k'
  slots_eq := by
    simp [Directory.fill, Multiset.range_succ, h.slots_eq]
  used_le := hu
  pins_le := by
    intro e he
    rcases Multiset.mem_cons.1 he with rfl | he
    · exact hlim
    · exact h.pins_le e he

/-- The entry that is evicted has another key than the one that is admitted. -/
lemma WellFormed.replace (h : d.WellFormed) {v : SlotEntry K} (hk : d.index k = none)
    (hv : v ∈ d.resident) (hlim : -1 ≤ d.pinLimit) : (d.replace k v).WellFormed where
  addr_nodup := by
    simp only [Directory.replace, Multiset.map_cons, Multiset.nodup_cons]
    refine ⟨fun hmem => ?_, ?_⟩
    · obtain ⟨e, he, ha⟩ := Multiset.mem_map.1 hmem
      have := h.addr_lt e (Multiset.mem_of_mem_erase he)
      omega
    · exact Multiset.nodup_of_le (Multiset.map_le_map (Multiset.erase_le v d.resident))
        h.addr_nodup
  addr_lt := by
    intro e he
    rcases Multiset.mem_cons.1 he with rfl | he
    · exact Nat.lt_succ_self _
    · exact (h.addr_lt e (Multiset.mem_of_mem_erase he)).trans (Nat.lt_succ_self _)
  index_iff := by
    have hnodup : d.resident.Nodup := Multiset.Nodup.of_map _ h.addr_nodup
    have hvk : v.key ≠ k := h.key_ne_of_absent hk hv
    intro k' a
    simp only [Directory.replace, Function.update_apply, Multiset.mem_cons,
      hnodup.mem_erase_iff]
    by_cases hkv : k' = v.key
    · subst hkv
      simp only [↓reduceIte, false_iff, reduceCtorEq]
      rintro ⟨e, rfl | ⟨hne, he⟩, -, hkey⟩
      · exact hvk hkey.symm
      · exact hne (h.eq_of_key he hv hkey)
    · rw [if_neg hkv]
      split
      · rename_i heq
        subst heq
        constructor
        · intro hsome
          exact ⟨_, Or.inl rfl, by simpa using hsome, rfl⟩
        · rintro ⟨e, rfl | ⟨-, he⟩, rfl, hkey⟩
          · rfl
          · exact absurd hkey (h.key_ne_of_absent hk he)
      · rename_i hne
        rw [h.index_iff k' a]
        constructor
        · rintro ⟨e, he, hae, hkey⟩
          exact ⟨e, Or.inr ⟨fun hev => hkv (by rw [← hkey, hev]), he⟩, hae, hkey⟩
        · rintro ⟨e, rfl | ⟨-, he⟩, hae, hkey⟩
          · exact absurd hkey.symm hne
          · exact ⟨e, he, hae, hkey⟩
  index_ne_sentinel := by
    intro k'
    simp only [Directory.replace, Function.update_apply]
    split
    · simp
    · split
      · simp
      · exact h.index_ne_sentinel k'
  slots_eq := by
    rw [show (d.replace k v).used = d.used from rfl, ← h.slots_eq]
    conv_rhs => rw [← Multiset.cons_erase hv]
    simp [Directory.replace]
  used_le := h.used_le
  pins_le := by
    intro e he
    rcases Multiset.mem_cons.1 he with rfl | he
    · exact hlim
    · exact h.pins_le e (Multiset.mem_of_mem_erase he)

/-- No access changes the capacity or the bound of the counts. -/
lemma Accesses.constants (h : Accesses d k r d') :
    d'.capacity = d.capacity ∧ d'.pinLimit = d.pinLimit := by
  cases h <;> exact ⟨rfl, rfl⟩

theorem Accesses.wellFormed (h : Accesses d k r d') (hd : d.WellFormed)
    (hlim : -1 ≤ d.pinLimit) : d'.WellFormed := by
  cases h with
  | hit he hp hlt =>
      refine hd.repin _ fun e' he' ha => ?_
      rw [hd.eq_of_addr he' he ha]
      exact hlt
  | busy => exact hd
  | absent => exact hd
  | fill hk hu => exact hd.fill hk hu hlim
  | replace hk _ hv _ => exact hd.replace hk hv hlim

/-- **A pinned entry stays.**  An access removes no entry whose count is not zero; it keeps the
key and the slot of every entry that stays, and lowers no count. -/
theorem Accesses.stays (h : Accesses d k r d') (hd : d.WellFormed) (he : e ∈ d.resident)
    (hp : e.pins ≠ 0) : ∃ e' ∈ d'.resident, e'.addr = e.addr ∧ e'.key = e.key ∧ e'.slot = e.slot ∧
      e.pins ≤ e'.pins ∧ (e.pins < 0 → e'.pins = e.pins) := by
  cases h with
  | @hit e₀ he₀ hp₀ _ =>
      refine ⟨e.repin e₀.addr (· + 1), mem_repin.2 ⟨e, he, rfl⟩, by simp, by simp, by simp,
        ?_, ?_⟩
      · rw [SlotEntry.repin_pins]
        split <;> omega
      · intro hneg
        rw [SlotEntry.repin_pins, if_neg]
        intro ha
        rw [hd.eq_of_addr he he₀ ha] at hneg
        omega
  | busy => exact ⟨e, he, rfl, rfl, rfl, le_rfl, fun _ => rfl⟩
  | absent => exact ⟨e, he, rfl, rfl, rfl, le_rfl, fun _ => rfl⟩
  | fill => exact ⟨e, Multiset.mem_cons_of_mem he, rfl, rfl, rfl, le_rfl, fun _ => rfl⟩
  | replace _ _ _ hpv =>
      have hne : e ≠ _ := fun heq => hp (heq ▸ hpv)
      exact ⟨e, Multiset.mem_cons_of_mem ((Multiset.mem_erase_of_ne hne).2 he),
        rfl, rfl, rfl, le_rfl, fun _ => rfl⟩

/-- What an access left behind for the caller. -/
def Leaves (d : Directory K) (k : K) : Access → Prop
  | .hit a s => ∃ e ∈ d.resident, e.addr = a ∧ e.key = k ∧ e.slot = s ∧ 0 < e.pins
  | .busy => ∃ e ∈ d.resident, e.key = k ∧ e.pins < 0
  | .absent => True
  | .admitted a s => ∃ e ∈ d.resident, e.addr = a ∧ e.key = k ∧ e.slot = s ∧ e.pins = -1

omit [DecidableEq K] in
/-- The slot that the caller was given is the slot of an entry of its key. -/
lemma Leaves.exists_entry (h : Leaves d k r) {p : ℤ} (hp : r.slot? = some p) :
    ∃ e ∈ d.resident, e.key = k ∧ e.slot = p := by
  cases r with
  | hit a q =>
      obtain ⟨e, he, -, hk, hs, -⟩ := h
      exact ⟨e, he, hk, hs.trans (Option.some.inj hp)⟩
  | busy => simp [Access.slot?] at hp
  | absent => simp [Access.slot?] at hp
  | admitted a q =>
      obtain ⟨e, he, -, hk, hs, -⟩ := h
      exact ⟨e, he, hk, hs.trans (Option.some.inj hp)⟩

theorem Accesses.leaves (h : Accesses d k r d') : Leaves d' k r := by
  cases h with
  | @hit e he hp _ =>
      refine ⟨e.repin e.addr (· + 1), mem_repin.2 ⟨e, he, rfl⟩, by simp, by simp, by simp, ?_⟩
      rw [SlotEntry.repin_pins, if_pos rfl]
      omega
  | @busy e he hp => exact ⟨e, he, rfl, hp⟩
  | absent => trivial
  | fill => exact ⟨_, Multiset.mem_cons_self _ _, rfl, rfl, rfl, rfl⟩
  | replace => exact ⟨_, Multiset.mem_cons_self _ _, rfl, rfl, rfl, rfl⟩

/-- What an access left behind is still there after another access. -/
theorem Accesses.leaves_stays (h : Accesses d k r d') (hd : d.WellFormed) {k₀ : K} {r₀ : Access}
    (h₀ : Leaves d k₀ r₀) : Leaves d' k₀ r₀ := by
  cases r₀ with
  | hit a s =>
      obtain ⟨e, he, ha, hk, hs, hp⟩ := h₀
      obtain ⟨e', he', ha', hk', hs', hle, -⟩ := h.stays hd he (by omega)
      exact ⟨e', he', by omega, by rw [hk', hk], by omega, by omega⟩
  | busy =>
      obtain ⟨e, he, hk, hp⟩ := h₀
      obtain ⟨e', he', -, hk', -, -, heq⟩ := h.stays hd he (by omega)
      exact ⟨e', he', by rw [hk', hk], by rw [heq hp]; exact hp⟩
  | absent => trivial
  | admitted a s =>
      obtain ⟨e, he, ha, hk, hs, hp⟩ := h₀
      obtain ⟨e', he', ha', hk', hs', -, heq⟩ := h.stays hd he (by omega)
      exact ⟨e', he', by omega, by rw [hk', hk], by omega, by rw [heq (by omega)]; exact hp⟩

/-- A slot whose entry is not idle. -/
def Occupied (d : Directory K) (p : ℤ) : Prop := ∃ e ∈ d.resident, e.slot = p ∧ e.pins ≠ 0

lemma Accesses.occupied (h : Accesses d k r d') (hd : d.WellFormed) {p : ℤ}
    (hp : d.Occupied p) : d'.Occupied p := by
  obtain ⟨e, he, rfl, hne⟩ := hp
  obtain ⟨e', he', -, -, hs, hle, heq⟩ := h.stays hd he hne
  refine ⟨e', he', hs, fun h0 => hne ?_⟩
  rcases lt_or_gt_of_ne hne with hneg | hpos
  · have := heq hneg
    omega
  · omega

/-- An admission never takes an occupied slot, and leaves the one it takes occupied. -/
lemma Accesses.not_occupied {p : ℤ} (h : Accesses d k (.admitted a p) d') (hd : d.WellFormed) :
    ¬d.Occupied p ∧ d'.Occupied p := by
  cases h with
  | fill hk hu =>
      refine ⟨fun ⟨e, he, hs, _⟩ => ?_, _, Multiset.mem_cons_self _ _, rfl, by simp⟩
      have := (hd.slot_range he).2
      omega
  | replace hk hu hv hp =>
      refine ⟨fun ⟨e, he, hs, hne⟩ => hne ?_, _, Multiset.mem_cons_self _ _, rfl, by simp⟩
      rw [hd.eq_of_slot he hv hs]
      exact hp

/-! ## Runs -/

lemma Run.constants (h : Run d l d') : d'.capacity = d.capacity ∧ d'.pinLimit = d.pinLimit := by
  induction h with
  | nil => exact ⟨rfl, rfl⟩
  | snoc _ hacc ih => exact ⟨hacc.constants.1.trans ih.1, hacc.constants.2.trans ih.2⟩

theorem Run.wellFormed (h : Run d l d') (hd : d.WellFormed) (hlim : -1 ≤ d.pinLimit) :
    d'.WellFormed := by
  induction h with
  | nil => exact hd
  | snoc hrun hacc ih => exact hacc.wellFormed ih (by rw [hrun.constants.2]; exact hlim)

theorem Run.stays (h : Run d l d') (hd : d.WellFormed) (hlim : -1 ≤ d.pinLimit)
    (he : e ∈ d.resident) (hp : e.pins ≠ 0) :
    ∃ e' ∈ d'.resident, e'.addr = e.addr ∧ e'.key = e.key ∧ e'.slot = e.slot ∧
      e.pins ≤ e'.pins ∧ (e.pins < 0 → e'.pins = e.pins) := by
  induction h with
  | nil => exact ⟨e, he, rfl, rfl, rfl, le_rfl, fun _ => rfl⟩
  | snoc hrun hacc ih =>
      obtain ⟨e₁, he₁, ha₁, hk₁, hs₁, hle₁, heq₁⟩ := ih
      have hp₁ : e₁.pins ≠ 0 := by
        rcases lt_or_gt_of_ne hp with hneg | hpos
        · rw [heq₁ hneg]; omega
        · omega
      obtain ⟨e₂, he₂, ha₂, hk₂, hs₂, hle₂, heq₂⟩ :=
        hacc.stays (hrun.wellFormed hd hlim) he₁ hp₁
      refine ⟨e₂, he₂, by omega, by rw [hk₂, hk₁], by omega, by omega, fun hneg => ?_⟩
      rw [heq₂ (by rw [heq₁ hneg]; exact hneg), heq₁ hneg]

/-- At the end of a run the caller still holds what every access of it left behind. -/
theorem Run.leaves (h : Run d l d') (hd : d.WellFormed) (hlim : -1 ≤ d.pinLimit) :
    ∀ x ∈ l, Leaves d' x.1 x.2 := by
  induction h with
  | nil => simp
  | snoc hrun hacc ih =>
      intro x hx
      rcases List.mem_append.1 hx with hx | hx
      · exact hacc.leaves_stays (hrun.wellFormed hd hlim) (ih x hx)
      · obtain rfl : x = _ := List.mem_singleton.1 hx
        exact hacc.leaves

/-- The key of an entry was there before the access, or has been looked up. -/
lemma Accesses.key_origin (h : Accesses d k r d') (he : e ∈ d'.resident) :
    (∃ e₀ ∈ d.resident, e₀.key = e.key) ∨ e.key = k := by
  cases h with
  | hit =>
      obtain ⟨e₀, he₀, rfl⟩ := mem_repin.1 he
      exact Or.inl ⟨e₀, he₀, by simp⟩
  | busy => exact Or.inl ⟨e, he, rfl⟩
  | absent => exact Or.inl ⟨e, he, rfl⟩
  | fill =>
      rcases Multiset.mem_cons.1 he with rfl | he
      · exact Or.inr rfl
      · exact Or.inl ⟨e, he, rfl⟩
  | replace =>
      rcases Multiset.mem_cons.1 he with rfl | he
      · exact Or.inr rfl
      · exact Or.inl ⟨e, Multiset.mem_of_mem_erase he, rfl⟩

theorem Run.key_origin (h : Run d l d') (he : e ∈ d'.resident) :
    (∃ e₀ ∈ d.resident, e₀.key = e.key) ∨ ∃ x ∈ l, x.1 = e.key := by
  induction h generalizing e with
  | nil => exact Or.inl ⟨e, he, rfl⟩
  | snoc _ hacc ih =>
      rcases hacc.key_origin he with ⟨e₁, he₁, hk₁⟩ | hk
      · rcases ih he₁ with ⟨e₀, he₀, hk₀⟩ | ⟨x, hx, hxk⟩
        · exact Or.inl ⟨e₀, he₀, hk₀.trans hk₁⟩
        · exact Or.inr ⟨x, List.mem_append_left _ hx, hxk.trans hk₁⟩
      · exact Or.inr ⟨_, List.mem_append_right _ List.mem_cons_self, hk.symm⟩

/-- An entry that can be read after an access could be read before it. -/
lemma Accesses.readable_of_readable (h : Accesses d k r d') (hd : d.WellFormed)
    (he : e ∈ d'.resident) (hp : 0 ≤ e.pins) :
    ∃ e₀ ∈ d.resident, e₀.addr = e.addr ∧ 0 ≤ e₀.pins := by
  cases h with
  | @hit e₁ he₁ hp₁ _ =>
      obtain ⟨e₀, he₀, rfl⟩ := mem_repin.1 he
      refine ⟨e₀, he₀, by simp, ?_⟩
      rw [SlotEntry.repin_pins] at hp
      split at hp
      · rename_i ha
        rwa [hd.eq_of_addr he₀ he₁ ha]
      · exact hp
  | busy => exact ⟨e, he, rfl, hp⟩
  | absent => exact ⟨e, he, rfl, hp⟩
  | fill =>
      rcases Multiset.mem_cons.1 he with rfl | he
      · simp at hp
      · exact ⟨e, he, rfl, hp⟩
  | replace =>
      rcases Multiset.mem_cons.1 he with rfl | he
      · simp at hp
      · exact ⟨e, Multiset.mem_of_mem_erase he, rfl, hp⟩

/-- An entry that can be read after a run could be read before it. -/
theorem Run.readable_of_readable (h : Run d l d') (hd : d.WellFormed) (hlim : -1 ≤ d.pinLimit)
    (he : e ∈ d'.resident) (hp : 0 ≤ e.pins) :
    ∃ e₀ ∈ d.resident, e₀.addr = e.addr ∧ 0 ≤ e₀.pins := by
  induction h generalizing e with
  | nil => exact ⟨e, he, rfl, hp⟩
  | snoc hrun hacc ih =>
      obtain ⟨e₁, he₁, ha₁, hp₁⟩ := hacc.readable_of_readable (hrun.wellFormed hd hlim) he hp
      obtain ⟨e₀, he₀, ha₀, hp₀⟩ := ih he₁ hp₁
      exact ⟨e₀, he₀, ha₀.trans ha₁, hp₀⟩

end Preservation

/-! ## Balance and coherence along a run -/

section Invariants

variable {d d' : Directory K} {k : K} {r : Access} {l : List (K × Access)} {P W : Multiset ℕ}
  {mem : ℤ → Option V} {val : K → V}

/-- **An access keeps the balance**: a hit adds a pin, an admission a write. -/
theorem Accesses.balanced (h : Accesses d k r d') (hd : d.WellFormed) (hb : d.Balanced P W) :
    d'.Balanced (P + r.pinned) (W + r.reserved) := by
  cases h with
  | hit he hp _ =>
      simp only [Access.pinned, Access.reserved, add_comm P, Multiset.singleton_add, add_zero]
      exact hb.pin he hp
  | busy => simpa [Access.pinned, Access.reserved] using hb
  | absent => simpa [Access.pinned, Access.reserved] using hb
  | fill hk hu =>
      simp only [Access.pinned, Access.reserved, add_comm W, Multiset.singleton_add, add_zero]
      exact hb.admit hd.addr_lt rfl rfl (fun x hx => hx) (fun x hx _ => hx) rfl
  | replace hk hu hv hp =>
      simp only [Access.pinned, Access.reserved, add_comm W, Multiset.singleton_add, add_zero]
      refine hb.admit hd.addr_lt rfl rfl (fun x hx => Multiset.mem_of_mem_erase hx)
        (fun x hx hx0 => (Multiset.mem_erase_of_ne ?_).2 hx) rfl
      rintro rfl
      exact hx0 hp

theorem Run.balanced (h : Run d l d') (hd : d.WellFormed) (hlim : -1 ≤ d.pinLimit)
    (hb : d.Balanced P W) : d'.Balanced (P + pinnedBy l) (W + reservedBy l) := by
  induction h with
  | nil => simpa using hb
  | snoc hrun hacc ih =>
      have := hacc.balanced (hrun.wellFormed hd hlim) ih
      rw [pinnedBy_concat, reservedBy_concat, ← add_assoc, ← add_assoc]
      exact this

/-- An access writes nothing: the entry it may admit is left to its writer. -/
theorem Accesses.coherent (h : Accesses d k r d') (hc : d.Coherent W mem val) :
    d'.Coherent (W + r.reserved) mem val := by
  cases h with
  | hit =>
      simpa [Access.reserved] using hc.repin _ _
  | busy => simpa [Access.reserved] using hc
  | absent => simpa [Access.reserved] using hc
  | fill =>
      intro e he hW
      simp only [Access.reserved, Multiset.mem_add, Multiset.mem_singleton, not_or] at hW
      rcases Multiset.mem_cons.1 he with rfl | he
      · exact absurd rfl hW.2
      · exact hc e he hW.1
  | replace =>
      intro e he hW
      simp only [Access.reserved, Multiset.mem_add, Multiset.mem_singleton, not_or] at hW
      rcases Multiset.mem_cons.1 he with rfl | he
      · exact absurd rfl hW.2
      · exact hc e (Multiset.mem_of_mem_erase he) hW.1

theorem Run.coherent (h : Run d l d') (hc : d.Coherent W mem val) :
    d'.Coherent (W + reservedBy l) mem val := by
  induction h with
  | nil => simpa using hc
  | snoc _ hacc ih =>
      rw [reservedBy_concat, ← add_assoc]
      exact hacc.coherent ih

end Invariants

/-! ## Room for admissions -/

section Room

variable {d d' : Directory K} {k : K} {r : Access} {l : List (K × Access)}

/-- How many entries are not idle. -/
def busyCount (d : Directory K) : ℕ := d.resident.countP fun e => e.pins ≠ 0

/-- An access frees no entry, and an admission takes one that was free. -/
lemma Accesses.busyCount_le (h : Accesses d k r d') (hd : d.WellFormed) :
    d.busyCount + Multiset.card r.reserved ≤ d'.busyCount := by
  cases h with
  | @hit e he hp _ =>
      simp only [busyCount, Directory.repin, Access.reserved, Multiset.card_zero, add_zero,
        Multiset.countP_map]
      rw [Multiset.countP_eq_card_filter]
      refine Multiset.card_le_card (Multiset.le_filter.2 ⟨Multiset.filter_le _ _, fun x hx => ?_⟩)
      obtain ⟨hx, hne⟩ := Multiset.mem_filter.1 hx
      rw [SlotEntry.repin_pins]
      split
      · rename_i ha
        rw [hd.eq_of_addr hx he ha]
        omega
      · exact hne
  | busy => simp [Access.reserved]
  | absent => simp [Access.reserved]
  | fill => simp [Access.reserved, busyCount, Directory.fill]
  | @replace _ v _ _ hv hp =>
      have hsplit := congrArg (Multiset.countP fun e : SlotEntry K => e.pins ≠ 0)
        (Multiset.cons_erase hv)
      rw [Multiset.countP_cons_of_neg _ (by simpa using hp)] at hsplit
      simp only [busyCount, Access.reserved, Directory.replace, Multiset.card_singleton]
      rw [Multiset.countP_cons_of_pos _ (by simp), hsplit]

/-- What a run admits fits beside the entries that were not idle. -/
theorem Run.card_reserved_le (h : Run d l d') (hd : d.WellFormed) (hlim : -1 ≤ d.pinLimit) :
    d.busyCount + Multiset.card (reservedBy l) ≤ d.capacity := by
  have hbusy : d.busyCount + Multiset.card (reservedBy l) ≤ d'.busyCount := by
    induction h with
    | nil => simp
    | snoc hrun hacc ih =>
        have := hacc.busyCount_le (hrun.wellFormed hd hlim)
        rw [reservedBy_concat, Multiset.card_add]
        omega
  have hd' := h.wellFormed hd hlim
  have hle : d'.busyCount ≤ d'.used := by
    rw [← hd'.card_resident]
    exact Multiset.countP_le_card _ _
  have := hd'.used_le
  rw [h.constants.1] at this
  omega

/-- A key that was absent and is known after an access has been admitted by it. -/
lemma Accesses.admitted_of_absent {k₀ : K} (h : Accesses d k r d') (hk₀ : d.index k₀ = none)
    (hk₀' : d'.index k₀ ≠ none) : k = k₀ ∧ ∃ a p, r = .admitted a p := by
  cases h with
  | hit => exact absurd hk₀ hk₀'
  | busy => exact absurd hk₀ hk₀'
  | absent => exact absurd hk₀ hk₀'
  | fill =>
      refine ⟨?_, _, _, rfl⟩
      by_contra hne
      exact hk₀' (by simpa [Directory.fill, Function.update_of_ne (Ne.symm hne)] using hk₀)
  | replace =>
      refine ⟨?_, _, _, rfl⟩
      by_contra hne
      refine hk₀' ?_
      simp only [Directory.replace, Function.update_apply]
      split
      · rfl
      · simpa [Ne.symm hne] using hk₀

/-- A lookup of an absent key that does not miss it admits it. -/
lemma Accesses.admitted_of_ne_absent (h : Accesses d k r d') (hd : d.WellFormed)
    (hk : d.index k = none) (hr : r ≠ .absent) : ∃ a p, r = .admitted a p := by
  cases h with
  | hit he => exact absurd rfl (hd.key_ne_of_absent hk he)
  | busy he => exact absurd rfl (hd.key_ne_of_absent hk he)
  | absent => exact absurd rfl hr
  | fill => exact ⟨_, _, rfl⟩
  | replace => exact ⟨_, _, rfl⟩

/-- A run that looks up an absent key without missing it admits it. -/
theorem Run.admitted_of_absent (h : Run d l d') (hd : d.WellFormed) (hlim : -1 ≤ d.pinLimit)
    {k₀ : K} (hk₀ : d.index k₀ = none) (habs : ∀ x ∈ l, x.2 ≠ .absent)
    (hl : ∃ r, (k₀, r) ∈ l) : ∃ a p, (k₀, Access.admitted a p) ∈ l := by
  suffices hinv : d'.index k₀ ≠ none ∨ (∃ r, (k₀, r) ∈ l) →
      ∃ a p, (k₀, Access.admitted a p) ∈ l from hinv (Or.inr hl)
  clear hl
  induction h with
  | nil => simp [hk₀]
  | @snoc d₁ d₂ l k r hrun hacc ih =>
      have ih := ih fun x hx => habs x (List.mem_append_left _ hx)
      have hleft (hcase : d₁.index k₀ ≠ none ∨ ∃ r, (k₀, r) ∈ l) :
          ∃ a p, (k₀, Access.admitted a p) ∈ l ++ [(k, r)] := by
        obtain ⟨a, p, hmem⟩ := ih hcase
        exact ⟨a, p, List.mem_append_left _ hmem⟩
      by_cases hk₁ : d₁.index k₀ = none
      · rintro (hk₂ | ⟨r', hr'⟩)
        · obtain ⟨rfl, a, p, rfl⟩ := hacc.admitted_of_absent hk₁ hk₂
          exact ⟨a, p, by simp⟩
        · rcases List.mem_append.1 hr' with hr' | hr'
          · exact hleft (Or.inr ⟨r', hr'⟩)
          · obtain ⟨rfl, rfl⟩ : k₀ = k ∧ r' = r := by simpa using hr'
            obtain ⟨a, p, rfl⟩ := hacc.admitted_of_ne_absent (hrun.wellFormed hd hlim) hk₁
              (habs (k₀, r') (by simp))
            exact ⟨a, p, by simp⟩
      · exact fun _ => hleft (Or.inl hk₁)

/-- **Room.**  The distinct absent keys that a run looks up, without missing one, fit beside the
entries that were not idle. -/
theorem Run.length_absent_le (h : Run d l d') (hd : d.WellFormed) (hlim : -1 ≤ d.pinLimit)
    (habs : ∀ x ∈ l, x.2 ≠ .absent) {ks : List K} (hnodup : ks.Nodup)
    (hks : ∀ k ∈ ks, d.index k = none ∧ ∃ r, (k, r) ∈ l) :
    d.busyCount + ks.length ≤ d.capacity := by
  have hsub : ks ⊆ (l.filter fun x => x.2.reserved ≠ 0).map Prod.fst := by
    intro k hk
    obtain ⟨a, p, hmem⟩ := h.admitted_of_absent hd hlim (hks k hk).1 habs (hks k hk).2
    exact List.mem_map.2 ⟨(k, .admitted a p), List.mem_filter.2 ⟨hmem, by simp [Access.reserved]⟩,
      rfl⟩
  have hlen : ks.length ≤ (l.filter fun x => x.2.reserved ≠ 0).length := by
    simpa using (hnodup.subperm hsub).length_le
  have hcard : Multiset.card (reservedBy l) = (l.filter fun x => x.2.reserved ≠ 0).length := by
    clear h habs hks hsub hlen
    induction l with
    | nil => rfl
    | cons x l ih =>
        obtain ⟨k, r⟩ := x
        simp only [reservedBy, List.map_cons, List.sum_cons, Multiset.card_add] at ih ⊢
        rw [ih]
        cases r <;> simp [Access.reserved, add_comm]
  have := h.card_reserved_le hd hlim
  omega

end Room

end Directory

end DglAscend
