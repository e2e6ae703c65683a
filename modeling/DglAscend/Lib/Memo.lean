import Mathlib.Data.List.AList

/-!
# Memo tables with coarse keys

A memo table keeps the value of the first call with each key and returns it to all later ones.  If
the key does not determine the input, a later call gets the value of an earlier input.
-/

namespace DglAscend

variable {κ ι υ : Type*} [DecidableEq κ]

/-- A table of values. -/
abbrev Memo (κ υ : Type*) := AList fun _ : κ => υ

namespace Memo

variable {t : Memo κ υ} {f : κ → ι → υ} {calls : List (κ × ι)} {k : κ} {x : ι}

/-- Look `k` up; on a miss, insert `v`. -/
def getOrInsert (t : Memo κ υ) (k : κ) (v : υ) : υ × Memo κ υ :=
  match t.lookup k with
  | some found => (found, t)
  | none => (v, t.insert k v)

/-- The input of the first call with a key. -/
def firstInput (calls : List (κ × ι)) (k : κ) : Option ι :=
  (calls.find? fun call => call.1 = k).map Prod.snd

lemma firstInput_append (calls : List (κ × ι)) (k k' : κ) (x : ι) :
    firstInput (calls ++ [(k, x)]) k' =
      (firstInput calls k').or (if k = k' then some x else none) := by
  rw [firstInput, firstInput, List.find?_append, Option.map_or, List.find?_singleton]
  by_cases hk : k = k'
  · simp [hk]
  · simp [hk]

/-- The table holds the values of the first inputs. -/
def Holds (f : κ → ι → υ) (calls : List (κ × ι)) (t : Memo κ υ) : Prop :=
  ∀ k, t.lookup k = (firstInput calls k).map (f k)

lemma holds_empty (f : κ → ι → υ) : Holds f [] (∅ : Memo κ υ) :=
  fun _ => AList.lookup_empty _

/-- **A call** gets the value of the first input with its key. -/
theorem Holds.getOrInsert_fst (h : Holds f calls t) (k : κ) (x : ι) :
    (t.getOrInsert k (f k x)).1 = f k ((firstInput calls k).getD x) := by
  unfold getOrInsert
  rw [h k]
  cases firstInput calls k with
  | none => rfl
  | some y => rfl

/-- **The table holds the first values** after the call, too. -/
theorem Holds.getOrInsert_snd (h : Holds f calls t) (k : κ) (x : ι) :
    Holds f (calls ++ [(k, x)]) (t.getOrInsert k (f k x)).2 := by
  intro k'
  rw [firstInput_append]
  cases hfirst : firstInput calls k with
  | some y =>
      have hfound : t.lookup k = some (f k y) := by rw [h k, hfirst, Option.map_some]
      simp only [getOrInsert, hfound]
      by_cases hk : k = k'
      · subst hk
        rw [hfirst, Option.some_or, hfound, Option.map_some]
      · rw [if_neg hk, Option.or_none, h k']
  | none =>
      have hmiss : t.lookup k = none := by rw [h k, hfirst, Option.map_none]
      simp only [getOrInsert, hmiss]
      by_cases hk : k = k'
      · subst hk
        rw [AList.lookup_insert, hfirst, if_pos rfl, Option.none_or, Option.map_some]
      · rw [AList.lookup_insert_ne fun h => hk h.symm, if_neg hk, Option.or_none, h k']

end Memo

end DglAscend
