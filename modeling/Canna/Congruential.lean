import Mathlib.Dynamics.PeriodicPts.Lemmas
import Mathlib.Data.Int.ModEq
import Mathlib.SetTheory.Cardinal.Finite
import Mathlib.Tactic.LinearCombination
import Mathlib.Tactic.Ring

/-!
# Congruential sequences

A map `f` whose values, read as integers, follow `x ↦ a * x + c` modulo `2 ^ w`. Over
the integers `2 ^ k` steps of the line move a number by an odd multiple of `2 ^ k`
when `a` is 1 modulo 4 and `c` is odd (`line_iterate_two_pow`). So every point has the
period `2 ^ w` (`Follows.minimalPeriod_eq`) and a type of `2 ^ w` elements is a
single cycle (`existsUnique_iterate`).
-/
namespace Canna.Congruential
open Function

def line (a c x : ℤ) : ℤ := a * x + c

/-- The values of `f` under `val` follow the line modulo `2 ^ w`, and a value modulo
    `2 ^ w` determines the element. -/
structure Follows {α : Type*} (w : Nat) (a c : ℤ) (val : α → ℤ) (f : α → α) : Prop where
  injective : ∀ x y, val x ≡ val y [ZMOD 2 ^ w] → x = y
  step : ∀ x, val (f x) ≡ line a c (val x) [ZMOD 2 ^ w]

/-! ### The line over the integers -/

/-- The distance that `2 ^ k` steps cover, as a function of the start. -/
theorem line_iterate_two_pow {a c : ℤ} (unit : a ≡ 1 [ZMOD 4]) (odd : Odd c) (k : Nat) :
    ∃ t s : ℤ, ∀ x, (line a c)^[2 ^ k] x = x + 2 ^ k * (2 * (2 * t * x + s) + 1) := by
  induction k with
  | zero =>
    obtain ⟨s, isOdd⟩ := odd
    obtain ⟨t, isUnit⟩ := unit.symm.dvd
    refine ⟨t, s, fun x => ?_⟩
    simp only [pow_zero, iterate_one, line]
    linear_combination x * isUnit + isOdd
  | succ k ih =>
    obtain ⟨t, s, moved⟩ := ih
    refine ⟨t + 2 ^ (k + 1) * t ^ 2, s + 2 ^ k * t * (2 * s + 1), fun x => ?_⟩
    rw [pow_succ, mul_two, iterate_add_apply, moved, moved]
    ring

theorem dvd_line_iterate {a c : ℤ} (unit : a ≡ 1 [ZMOD 4]) (odd : Odd c) (k : Nat) (x : ℤ) :
    2 ^ k ∣ (line a c)^[2 ^ k] x - x := by
  obtain ⟨t, s, moved⟩ := line_iterate_two_pow unit odd k
  rw [moved, add_sub_cancel_left]
  exact dvd_mul_right _ _

theorem not_dvd_line_iterate {a c : ℤ} (unit : a ≡ 1 [ZMOD 4]) (odd : Odd c) (k : Nat) (x : ℤ) :
    ¬ 2 ^ (k + 1) ∣ (line a c)^[2 ^ k] x - x := by
  obtain ⟨t, s, moved⟩ := line_iterate_two_pow unit odd k
  rw [moved, add_sub_cancel_left, pow_succ, mul_dvd_mul_iff_left (pow_ne_zero k two_ne_zero)]
  omega

/-! ### Congruential maps -/

section Cycle
variable {α : Type*} {w : Nat} {a c : ℤ} {val : α → ℤ} {f : α → α}

theorem Follows.iterate (follows : Follows w a c val f) (n : Nat) (x : α) :
    val (f^[n] x) ≡ (line a c)^[n] (val x) [ZMOD 2 ^ w] := by
  induction n with
  | zero => rfl
  | succ n ih =>
    rw [iterate_succ_apply', iterate_succ_apply']
    exact (follows.step _).trans ((ih.mul_left a).add_right c)

theorem Follows.isPeriodicPt_iff (follows : Follows w a c val f) (n : Nat) (x : α) :
    IsPeriodicPt f n x ↔ 2 ^ w ∣ (line a c)^[n] (val x) - val x := by
  have reached := follows.iterate n x
  constructor
  · intro periodic
    rw [periodic.eq] at reached
    exact reached.dvd
  · intro divides
    exact follows.injective _ _ (reached.trans (Int.modEq_iff_dvd.mpr divides).symm)

/-- Every point comes back after `2 ^ w` steps and not earlier. -/
theorem Follows.minimalPeriod_eq (follows : Follows w a c val f) (unit : a ≡ 1 [ZMOD 4])
    (odd : Odd c) (x : α) : minimalPeriod f x = 2 ^ w := by
  have returns : IsPeriodicPt f (2 ^ w) x :=
    (follows.isPeriodicPt_iff _ x).mpr (dvd_line_iterate unit odd w (val x))
  cases w with
  | zero => exact minimalPeriod_eq_one_iff_isFixedPt.mpr returns
  | succ k =>
    have prime : Fact (Nat.Prime 2) := ⟨Nat.prime_two⟩
    refine minimalPeriod_eq_prime_pow (fun earlier => ?_) returns
    exact not_dvd_line_iterate unit odd k (val x) ((follows.isPeriodicPt_iff _ x).mp earlier)

/-- A number of steps prime to two, done as one, has the same period. -/
theorem minimalPeriod_iterate_odd {x : α} (period : minimalPeriod f x = 2 ^ w) {m : Nat} (odd : Odd m) :
    minimalPeriod f^[m] x = 2 ^ w := by
  have coprime : Nat.gcd (2 ^ w) m = 1 := (Nat.coprime_two_left.mpr odd).pow_left w
  rw [minimalPeriod_iterate_eq_div_gcd odd.pos.ne', period, coprime, Nat.div_one]

/-- A point whose period is the number of elements reaches each of them, at exactly one
    count of steps within the period. -/
theorem existsUnique_iterate [Finite α] {x : α} (full : minimalPeriod f x = Nat.card α) (y : α) :
    ∃! n, n < Nat.card α ∧ f^[n] x = y := by
  have only : ∀ n < Nat.card α, ∀ m < Nat.card α, f^[n] x = f^[m] x → n = m := by
    rw [← full]
    intro n inside m insideToo
    exact (iterate_eq_iterate_iff_of_lt_minimalPeriod inside insideToo).mp
  have injective : Injective fun n : Fin (Nat.card α) => f^[n] x := by
    intro n m same
    exact Fin.ext (only n n.isLt m m.isLt same)
  have bijective := injective.bijective_of_nat_card_le (by simp)
  obtain ⟨n, reached⟩ := bijective.surjective y
  refine ⟨n, ⟨n.isLt, reached⟩, ?_⟩
  rintro m ⟨inside, again⟩
  exact only m inside n n.isLt (again.trans reached.symm)

/-- A common period of all points makes the map injective. -/
theorem injective_of_periodic {period : Nat} (positive : 0 < period) (periodic : ∀ x, IsPeriodicPt f period x) :
    Injective f := by
  intro x y same
  obtain ⟨steps, rfl⟩ := Nat.exists_eq_add_of_lt positive
  rw [Nat.zero_add] at periodic
  rw [← (periodic x).eq, ← (periodic y).eq, iterate_succ_apply, iterate_succ_apply, same]

end Cycle

end Canna.Congruential
