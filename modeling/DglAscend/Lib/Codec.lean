import Mathlib.Data.List.Basic
import Mathlib.Data.Nat.Digits.Defs
import Mathlib.Tactic.Ring

/-!
# Writing and reading back

A reader takes a value from the front of its input.  A codec is a way to write values together with
the reader that gets them back whatever follows (`Codec.get_put`).
-/

namespace DglAscend

/-- What is read from the front of the input, with the rest; `none` is a failed check. -/
abbrev Scan (σ : Type) := StateT (List σ) Option

namespace Scan

variable {σ α β : Type}

/-- A check. -/
def check (p : Prop) [Decidable p] : Scan σ Unit := fun s => if p then some ((), s) else none

/-- The next `n` symbols. -/
def raw (n : ℕ) : Scan σ (List σ) := fun s => if n ≤ s.length then some (s.take n, s.drop n) else none

/-- A value that may be missing. -/
def ofOption (o : Option α) : Scan σ α := fun s => o.map fun a => (a, s)

/-- Some values, one after the other. -/
def times (read : Scan σ α) : ℕ → Scan σ (List α)
  | 0 => pure []
  | n + 1 => do
    let a ← read
    let l ← times read n
    pure (a :: l)

lemma run_check {p : Prop} [Decidable p] (hp : p) (f : Unit → Scan σ β) (s : List σ) :
    (check p >>= f).run s = (f ()).run s := by
  simp [check, StateT.run, bind, StateT.bind, hp]

lemma run_ofOption {o : Option α} {a : α} (ho : o = some a) (f : α → Scan σ β) (s : List σ) :
    (ofOption o >>= f).run s = (f a).run s := by
  simp [ofOption, StateT.run, bind, StateT.bind, ho]

lemma run_raw {l : List σ} {n : ℕ} (hl : l.length = n) (rest : List σ) :
    (raw n : Scan σ (List σ)).run (l ++ rest) = some (l, rest) := by
  subst hl
  simp [raw, StateT.run]

lemma run_raw_bind {l : List σ} {n : ℕ} (hl : l.length = n) (f : List σ → Scan σ β) (rest : List σ) :
    (raw n >>= f).run (l ++ rest) = (f l).run rest := by
  rw [StateT.run_bind, run_raw hl]
  rfl

end Scan

/-- A way to write values, and to read them back. -/
structure Codec (σ α : Type) where
  put : α → List σ
  get : Scan σ α
  Ok : α → Prop
  get_put : ∀ {a : α}, Ok a → ∀ rest, get.run (put a ++ rest) = some (a, rest)

namespace Codec

variable {σ α β γ : Type} (c : Codec σ α)

/-- What is written is read first, and the reader goes on behind it. -/
lemma run_bind {a : α} (ha : c.Ok a) (f : α → Scan σ β) (rest : List σ) :
    (c.get >>= f).run (c.put a ++ rest) = (f a).run rest := by
  rw [StateT.run_bind, c.get_put ha]
  rfl

/-- Some values, without their number. -/
def putAll (c : Codec σ α) (l : List α) : List σ := l.flatMap c.put

lemma run_times {l : List α} (hl : ∀ a ∈ l, c.Ok a) (rest : List σ) :
    (Scan.times c.get l.length).run (c.putAll l ++ rest) = some (l, rest) := by
  induction l with
  | nil => rfl
  | cons a l ih =>
      rw [putAll, List.flatMap_cons, List.append_assoc, List.length_cons, Scan.times,
        c.run_bind (hl a List.mem_cons_self), StateT.run_bind]
      have hrest := ih fun b hb => hl b (List.mem_cons_of_mem a hb)
      rw [putAll] at hrest
      rw [hrest]
      rfl

lemma run_times_bind {l : List α} {n : ℕ} (hn : l.length = n) (hl : ∀ a ∈ l, c.Ok a)
    (f : List α → Scan σ β) (rest : List σ) :
    (Scan.times c.get n >>= f).run (c.putAll l ++ rest) = (f l).run rest := by
  subst hn
  rw [StateT.run_bind, c.run_times hl]
  rfl

lemma length_putAll {k : ℕ} (hk : ∀ a, (c.put a).length = k) (l : List α) :
    (c.putAll l).length = k * l.length := by
  induction l with
  | nil => rfl
  | cons a l ih =>
      rw [putAll, List.flatMap_cons, List.length_append, hk, ← putAll, ih, List.length_cons]
      ring

/-- One value and then another. -/
def pair (c : Codec σ α) (d : Codec σ β) : Codec σ (α × β) where
  put x := c.put x.1 ++ d.put x.2
  get := do
    let a ← c.get
    let b ← d.get
    pure (a, b)
  Ok x := c.Ok x.1 ∧ d.Ok x.2
  get_put {x} hx rest := by
    rw [List.append_assoc, c.run_bind hx.1, d.run_bind hx.2]
    rfl

/-- Some values behind their number. -/
def counted (n : Codec σ ℕ) (c : Codec σ α) : Codec σ (List α) where
  put l := n.put l.length ++ c.putAll l
  get := do
    let k ← n.get
    Scan.times c.get k
  Ok l := n.Ok l.length ∧ ∀ a ∈ l, c.Ok a
  get_put {l} hl rest := by
    rw [List.append_assoc, n.run_bind hl.1, c.run_times hl.2]

/-- Values that are written as other values. -/
def through (c : Codec σ α) (toPut : β → α) (ofGet : α → β) (h : ∀ b, ofGet (toPut b) = b) :
    Codec σ β where
  put b := c.put (toPut b)
  get := do
    let a ← c.get
    pure (ofGet a)
  Ok b := c.Ok (toPut b)
  get_put {b} hb rest := by
    rw [c.run_bind hb, h]
    rfl

/-! ## Machine words -/

/-- The lowest bytes of a number, the lowest first. -/
def bytes : ℕ → ℕ → List UInt8
  | 0, _ => []
  | k + 1, x => UInt8.ofNat (x % 256) :: bytes k (x / 256)

/-- The number that has some bytes. -/
def ofBytes : List UInt8 → ℕ
  | [] => 0
  | b :: bs => b.toNat + 256 * ofBytes bs

@[simp] lemma length_bytes (k x : ℕ) : (bytes k x).length = k := by
  induction k generalizing x with
  | zero => rfl
  | succ k ih => rw [bytes, List.length_cons, ih]

lemma ofBytes_bytes {k x : ℕ} (hx : x < 2 ^ (8 * k)) : ofBytes (bytes k x) = x := by
  induction k generalizing x with
  | zero =>
      obtain rfl : x = 0 := by simpa using hx
      rfl
  | succ k ih =>
      have hpow : 2 ^ (8 * (k + 1)) = 256 * 2 ^ (8 * k) := by ring
      have hdiv : x / 256 < 2 ^ (8 * k) := Nat.div_lt_of_lt_mul (hpow ▸ hx)
      have hlow : (UInt8.ofNat (x % 256)).toNat = x % 256 := by simp
      rw [bytes, ofBytes, ih hdiv, hlow]
      exact Nat.mod_add_div x 256

/-- A word of `k` bytes in the memory of a little-endian machine. -/
def word (k : ℕ) : Codec UInt8 ℕ where
  put := bytes k
  get := do
    let bs ← Scan.raw k
    pure (ofBytes bs)
  Ok x := x < 2 ^ (8 * k)
  get_put {x} hx rest := by
    rw [Scan.run_raw_bind (length_bytes k x), ofBytes_bytes hx]
    rfl

end Codec

end DglAscend
