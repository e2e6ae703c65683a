import DglAscend.Lib.Directory

/-!
# Cache keys (`graphbolt/src/cache_policy.h`)

A `CacheKey` is the record a policy keeps for a resident key.  It lives in a node of a
`std::list`, and the policies hand out the address of that node (`CacheKey*`), which survives
splices; `addr` stands for it.
-/

namespace DglAscend.Graphbolt

/-- The ways a cache call can fail: the `TORCH_CHECK`s of the cache sources, and the uses of a
pointer or an iterator that C++ leaves undefined. -/
inductive CacheError where
  /-- `TORCH_CHECK(key == getKey())` -/
  | keyOutOfRange
  | tooManyReads
  | cantInsertAll
  | capacityNotLargeEnough
  | capacityNotPositive
  | partitionsNotPositive
  /-- the range check of `AddOffset` on 32-bit keys -/
  | offsetOutOfRange
  /-- `TORCH_CHECK(positions.size(0) == values.size(0))` -/
  | sizeMismatch
  /-- dereference of the map's sentinel value -/
  | nullDereference
  /-- use of the address of a node that is gone, `back()` or `--begin()` of an empty list -/
  | danglingPointer
  /-- a tensor of negative size, a write outside of a tensor, or a cell that is read without
  having been written -/
  | badMemory
deriving DecidableEq, Repr

/-- The texts of the checks that have one. -/
def CacheError.message : CacheError → Option String
  | .tooManyReads => some "There are too many in-flight read requests to the same cache entry!"
  | .cantInsertAll => some "Can't insert all, larger cache capacity is needed."
  | .capacityNotLargeEnough => some "Capacity is not large enough."
  | .capacityNotPositive => some "Capacity needs to be positive."
  | .partitionsNotPositive => some "# partitions need to be positive."
  | _ => none

/-- Storing `x` in an `int8_t`. -/
def wrapInt8 (x : ℤ) : ℤ := x.bmod 256

lemma wrapInt8_of_range {x : ℤ} (h1 : -128 ≤ x) (h2 : x ≤ 127) : wrapInt8 x = x :=
  Int.bmod_eq_of_le (by omega) (by omega)

lemma wrapInt8_le (x : ℤ) : wrapInt8 x ≤ 127 := by
  have := Int.bmod_lt (x := x) (m := 256) (by norm_num)
  unfold wrapInt8
  omega

/-- `std::numeric_limits<int8_t>::max()` -/
def int8Max : ℤ := 127

/-- `std::numeric_limits<int64_t>::min()`, the position of an entry that has no slot yet.  It
stays negative when the offset of a partition is added. -/
def int64Min : ℤ := -2 ^ 63

structure CacheKey where
  addr : ℕ
  freq : ℕ
  referenceCount : ℤ
  keyHigher16Bits : ℕ
  keyLower32Bits : ℕ
  positionInCache : ℤ
deriving DecidableEq, Repr

namespace CacheKey

def getKey (c : CacheKey) : ℤ := (c.keyHigher16Bits : ℤ) * 2 ^ 32 + c.keyLower32Bits

/-- The fields that `CacheKey(key)` initialises, before it checks the key.  The reference count
starts at `-1`, to be reset by `EndUse<true>`. -/
def ofKey (addr : ℕ) (key : ℤ) : CacheKey where
  addr := addr
  freq := 0
  referenceCount := -1
  keyHigher16Bits := (key / 2 ^ 32 % 2 ^ 16).toNat
  keyLower32Bits := (key % 2 ^ 32).toNat
  positionInCache := int64Min

/-- The check of the constructor passes exactly for 48-bit unsigned keys. -/
lemma getKey_ofKey_eq_iff (addr : ℕ) (key : ℤ) :
    (ofKey addr key).getKey = key ↔ 0 ≤ key ∧ key < 2 ^ 48 := by
  simp only [getKey, ofKey]
  omega

def getFreq (c : CacheKey) : ℕ := c.freq

def getPos (c : CacheKey) : ℤ := c.positionInCache

def setPos (pos : ℤ) (c : CacheKey) : CacheKey := { c with positionInCache := pos }

def increment (c : CacheKey) : CacheKey := { c with freq := min 3 (c.freq + 1) }

/-- `max(0, freq - 1)` is the truncated subtraction. -/
def decrement (c : CacheKey) : CacheKey := { c with freq := c.freq - 1 }

def setFreq (c : CacheKey) : CacheKey := { c with freq := 1 }

def resetFreq (c : CacheKey) : CacheKey := { c with freq := 0 }

def inUse (c : CacheKey) : Bool := c.referenceCount ≠ 0

def beingWritten (c : CacheKey) : Bool := c.referenceCount < 0

/-- `fetch_add` on the reference count. -/
def addReference (delta : ℤ) (c : CacheKey) : CacheKey :=
  { c with referenceCount := wrapInt8 (c.referenceCount + delta) }

/-- The entry of the directory that a cache key stands for: everything but its frequency. -/
def entry (c : CacheKey) : SlotEntry ℤ :=
  ⟨c.addr, c.getKey, c.positionInCache, c.referenceCount⟩

variable (c : CacheKey)

@[simp] lemma entry_addr : c.entry.addr = c.addr := rfl
@[simp] lemma entry_key : c.entry.key = c.getKey := rfl
@[simp] lemma entry_slot : c.entry.slot = c.positionInCache := rfl
@[simp] lemma entry_pins : c.entry.pins = c.referenceCount := rfl
@[simp] lemma entry_increment : c.increment.entry = c.entry := rfl
@[simp] lemma entry_decrement : c.decrement.entry = c.entry := rfl
@[simp] lemma entry_setFreq : c.setFreq.entry = c.entry := rfl
@[simp] lemma entry_resetFreq : c.resetFreq.entry = c.entry := rfl

variable {c : CacheKey}

lemma inUse_eq_false : c.inUse = false ↔ c.referenceCount = 0 := by
  simp [inUse]

lemma inUse_eq_true : c.inUse = true ↔ c.referenceCount ≠ 0 := by
  simp [inUse]

lemma beingWritten_eq_true : c.beingWritten = true ↔ c.referenceCount < 0 := by
  simp [beingWritten]

lemma beingWritten_eq_false : c.beingWritten = false ↔ 0 ≤ c.referenceCount := by
  simp [beingWritten]

end CacheKey

/-- Write through the pointer `a` into the list that holds its node. -/
def modifyAt (a : ℕ) (f : CacheKey → CacheKey) (l : List CacheKey) : List CacheKey :=
  l.map fun c => if c.addr = a then f c else c

/-- `MoveToFront(queue, queue, it)`, with `it` pointing to the node at `a`. -/
def moveToFront (a : ℕ) (l : List CacheKey) : List CacheKey :=
  l.filter (fun c => c.addr = a) ++ l.filter (fun c => ¬c.addr = a)

lemma moveToFront_perm (a : ℕ) (l : List CacheKey) : (moveToFront a l).Perm l := by
  simpa [moveToFront] using List.filter_append_perm (fun c : CacheKey => decide (c.addr = a)) l

/-- A function that the update leaves alone does not see it. -/
lemma map_modifyAt {β : Type*} (g : CacheKey → β) (a : ℕ) {f : CacheKey → CacheKey}
    (hf : ∀ c, g (f c) = g c) (l : List CacheKey) : (modifyAt a f l).map g = l.map g := by
  simp only [modifyAt, List.map_map]
  refine List.map_congr_left fun c _ => ?_
  simp only [Function.comp_apply]
  split
  · exact hf c
  · rfl

end DglAscend.Graphbolt
