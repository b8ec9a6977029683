import Mathlib.Order.Lattice
import Mathlib.Data.List.Basic
import Mathlib.Tactic.Push

/-!
# Binary search

`bisect p fuel lo hi` looks for the boundary of a predicate that is first false and then true on
the indices from `lo` to `hi`. `bisect_boundary` says that it finds it, if the loop bound is at
least the number of indices.

The second part is what such a search is used for: among intervals that lie one behind the other,
the one that contains a point is the last one that does not start behind the point.
-/

namespace BinarySearch

/-- The boundary of `p` between `lo` and `hi`, by halving the interval. -/
def bisect (p : ℕ → Bool) : ℕ → ℕ → ℕ → ℕ
  | 0, _, hi => hi
  | fuel + 1, lo, hi =>
    if lo < hi then
      if p ((lo + hi) / 2) then bisect p fuel lo ((lo + hi) / 2)
      else bisect p fuel ((lo + hi) / 2 + 1) hi
    else hi

/-- Between `lo` and `hi`, the predicate is false before `r` and true from `r` on. -/
structure Boundary (p : ℕ → Bool) (lo hi r : ℕ) : Prop where
  lower : lo ≤ r
  upper : r ≤ hi
  below : ∀ i, lo ≤ i → i < r → p i = false
  above : ∀ i, r ≤ i → i < hi → p i = true

/-- The boundary is where the predicate turns true. -/
theorem Boundary.eq_true_iff {p : ℕ → Bool} {lo hi r i : ℕ} (h : Boundary p lo hi r) (hlo : lo ≤ i)
    (hhi : i < hi) : p i = true ↔ r ≤ i := by
  constructor
  · intro hp
    by_contra hlt
    rw [h.below i hlo (Nat.lt_of_not_le hlt)] at hp
    cases hp
  · intro hle
    exact h.above i hle hhi

/-- Predicates that agree on the interval have the same boundaries. -/
theorem Boundary.congr {p q : ℕ → Bool} {lo hi r : ℕ} (h : Boundary p lo hi r)
    (hpq : ∀ i, lo ≤ i → i < hi → p i = q i) : Boundary q lo hi r := by
  refine ⟨h.lower, h.upper, fun i hlo hir => ?_, fun i hri hhi => ?_⟩
  · rw [← hpq i hlo (Nat.lt_of_lt_of_le hir h.upper)]
    exact h.below i hlo hir
  · rw [← hpq i (Nat.le_trans h.lower hri) hhi]
    exact h.above i hri hhi

/-- The predicate stays true between `lo` and `hi`. -/
def Ascends (p : ℕ → Bool) (lo hi : ℕ) : Prop :=
  ∀ i j, lo ≤ i → i ≤ j → j < hi → p i = true → p j = true

theorem Ascends.mono {p : ℕ → Bool} {lo hi lo' hi' : ℕ} (h : Ascends p lo hi) (hlo : lo ≤ lo')
    (hhi : hi' ≤ hi) : Ascends p lo' hi' := by
  intro i j hi₁ hij hj
  exact h i j (by omega) hij (by omega)

theorem Boundary.self (p : ℕ → Bool) (lo : ℕ) : Boundary p lo lo lo :=
  ⟨Nat.le_refl lo, Nat.le_refl lo, fun i _ _ => by omega, fun i _ _ => by omega⟩

/-- **The search finds the boundary.** The induction is on the loop bound, and each turn leaves at
most half of the indices. -/
theorem bisect_boundary {p : ℕ → Bool} {fuel : ℕ} : ∀ {lo hi : ℕ}, lo ≤ hi → hi - lo ≤ fuel →
    Ascends p lo hi → Boundary p lo hi (bisect p fuel lo hi) := by
  induction fuel with
  | zero =>
    intro lo hi hle hfuel _
    obtain rfl : lo = hi := by omega
    exact Boundary.self p lo
  | succ fuel ih =>
    intro lo hi hle hfuel hasc
    unfold bisect
    by_cases hlt : lo < hi
    · rw [if_pos hlt]
      generalize hmid : (lo + hi) / 2 = mid
      cases hp : p mid with
      | true =>
        -- the boundary is at the middle or before it
        have hrest : Boundary p lo mid (bisect p fuel lo mid) :=
          ih (by omega) (by omega) (hasc.mono (Nat.le_refl lo) (by omega))
        refine ⟨hrest.lower, Nat.le_trans hrest.upper (by omega), hrest.below, fun i hri hi₁ => ?_⟩
        by_cases him : i < mid
        · exact hrest.above i hri him
        · exact hasc mid i (by omega) (by omega) hi₁ hp
      | false =>
        have hrest : Boundary p (mid + 1) hi (bisect p fuel (mid + 1) hi) :=
          ih (by omega) (by omega) (hasc.mono (by omega) (Nat.le_refl hi))
        refine ⟨Nat.le_trans (by omega) hrest.lower, hrest.upper, fun i hlo hir => ?_, hrest.above⟩
        by_cases him : mid < i
        · exact hrest.below i him hir
        · -- a true index before the middle would make the middle true
          by_contra hpi
          have htrue := hasc i mid hlo (by omega) (by omega) (by simpa using hpi)
          rw [hp] at htrue
          cases htrue
    · rw [if_neg hlt]
      obtain rfl : lo = hi := by omega
      exact Boundary.self p lo

/-! ### Intervals -/

section Intervals

variable {ι α : Type*} [LinearOrder α] {start stop : ι → α} {l : List ι} {x : α} {r : ℕ}

/-- Intervals that are sorted by their starts, and of which no two have a point in common, lie one
behind the other. -/
theorem stop_le_start (hsorted : l.Pairwise fun i j => start i ≤ start j)
    (hapart : l.Pairwise fun i j => ∀ x, ¬((start i ≤ x ∧ x < stop i) ∧ start j ≤ x ∧ x < stop j))
    (hne : ∀ i ∈ l, start i < stop i) : l.Pairwise fun i j => stop i ≤ start j := by
  refine (hsorted.and hapart).imp_of_mem fun {i j} _ hj h => ?_
  obtain ⟨hle, hno⟩ := h
  by_contra hlt
  exact hno (start j) ⟨⟨hle, not_le.1 hlt⟩, le_refl _, hne j hj⟩

/-- Whether the interval with this index starts behind the point. -/
def startsBehind (start : ι → α) (l : List ι) (x : α) (k : ℕ) : Bool :=
  l[k]?.any fun i => decide (x < start i)

theorem startsBehind_of_lt {k : ℕ} (hk : k < l.length) :
    startsBehind start l x k = true ↔ x < start l[k] := by
  unfold startsBehind
  rw [List.getElem?_eq_getElem hk]
  simp

/-- **The interval that contains a point** is the last one that does not start behind it. -/
theorem getElem_of_contains (hbehind : l.Pairwise fun i j => stop i ≤ start j)
    (hr : Boundary (startsBehind start l x) 0 l.length r) {i : ι} (hi : i ∈ l)
    (hstart : start i ≤ x) (hstop : x < stop i) : r ≠ 0 ∧ l[r - 1]? = some i := by
  obtain ⟨k, hk, rfl⟩ := List.getElem_of_mem hi
  -- the interval does not start behind the point, so it is before the boundary
  have hkr : k < r := by
    by_contra hge
    have habove := (startsBehind_of_lt hk).1 (hr.above k (by omega) hk)
    exact absurd hstart (not_le.2 habove)
  refine ⟨by omega, ?_⟩
  have hlast : r - 1 < l.length := by have := hr.upper; omega
  obtain heq | hlt : k = r - 1 ∨ k < r - 1 := by omega
  · subst heq
    exact List.getElem?_eq_getElem hk
  · -- the last one would start behind the end of the interval, and so behind the point
    have hle := List.pairwise_iff_getElem.1 hbehind k (r - 1) hk hlast hlt
    have hbehind' := (startsBehind_of_lt hlast).2 (lt_of_lt_of_le hstop hle)
    rw [hr.below (r - 1) (Nat.zero_le _) (by omega)] at hbehind'
    cases hbehind'

end Intervals

end BinarySearch
