import Mathlib.Algebra.Group.Nat.Defs
import Mathlib.Order.Nat

/-!
# Rounding to a number of significant bits

A natural number rounded to the nearest one of `p` significant bits, to the even one
where two are as near (`round`). A number of at most `p` significant bits stays as it is
(`round_mul_pow`), and rounding is monotone (`round_mono`).
-/
namespace Canna.Rounding

/-- The distance of the numbers of `p` significant bits that are as long as the number. -/
def grain (p n : Nat) : Nat := 2 ^ (n.log2 + 1 - p)

/-- Whether the upper of the two neighbours is nearer, or as near and even. -/
def upward (p n : Nat) : Prop :=
  grain p n < 2 * (n % grain p n) ∨ grain p n = 2 * (n % grain p n) ∧ n / grain p n % 2 = 1

instance (p n : Nat) : Decidable (upward p n) := inferInstanceAs (Decidable (_ ∨ _))

def round (p n : Nat) : Nat := grain p n * (n / grain p n + if upward p n then 1 else 0)

section
variable {p m n k : Nat}

theorem grain_pos (p n : Nat) : 0 < grain p n := Nat.two_pow_pos _

theorem lower_le (p n : Nat) : grain p n * (n / grain p n) ≤ round p n :=
  Nat.mul_le_mul_left _ (Nat.le_add_right _ _)

theorem le_upper (p n : Nat) : round p n ≤ grain p n * (n / grain p n + 1) := by
  refine Nat.mul_le_mul_left _ ?_
  split <;> omega

theorem round_of_dvd (whole : grain p n ∣ n) : round p n = n := by
  have none : n % grain p n = 0 := Nat.mod_eq_zero_of_dvd whole
  have stays : ¬ upward p n := by
    have positive := grain_pos p n
    unfold upward
    omega
  rw [round, if_neg stays, Nat.add_zero, Nat.mul_div_cancel' whole]

/-- A number that is more than half of the grain below a multiple of it is rounded down. -/
theorem round_le_self {g q y : Nat} (grains : grain p n = g) (whole : n + y = (q + 1) * g) (small : y ≤ g)
    (far : g < 2 * y) : round p n ≤ n := by
  have parts : n = g - y + q * g := by
    rw [Nat.succ_mul] at whole
    omega
  have rest : n % g = g - y := by
    rw [parts, Nat.add_mul_mod_self_right]
    exact Nat.mod_eq_of_lt (by omega)
  have stays : ¬ upward p n := by
    rw [upward, grains, rest]
    omega
  rw [round, if_neg stays, Nat.add_zero]
  exact Nat.mul_div_le n _

theorem grain_dvd (bits : 0 < p) (small : m < 2 ^ p) : grain p (m * 2 ^ k) ∣ 2 ^ k := by
  refine Nat.pow_dvd_pow 2 ?_
  by_cases zero : m = 0
  · subst zero
    simp only [Nat.zero_mul, Nat.log2_zero]
    omega
  · have short : (m * 2 ^ k).log2 < p + k := by
      refine (Nat.log2_lt (Nat.mul_ne_zero zero (Nat.two_pow_pos k).ne')).mpr ?_
      rw [Nat.pow_add]
      exact Nat.mul_lt_mul_of_pos_right small (Nat.two_pow_pos k)
    omega

/-- A number of at most `p` significant bits. -/
theorem round_mul_pow (bits : 0 < p) (small : m < 2 ^ p) : round p (m * 2 ^ k) = m * 2 ^ k :=
  round_of_dvd (Nat.dvd_mul_left_of_dvd (grain_dvd bits small) m)

theorem round_of_lt (bits : 0 < p) (small : n < 2 ^ p) : round p n = n := by
  simpa using round_mul_pow (k := 0) bits small

/-- The number rounded is no longer than the next power of two. -/
theorem round_le_pow (bits : 0 < p) (n : Nat) : round p n ≤ 2 ^ (n.log2 + 1) := by
  by_cases zero : n = 0
  · subst zero
    rw [round_of_lt bits (Nat.two_pow_pos p)]
    exact Nat.zero_le _
  by_cases short : n.log2 + 1 ≤ p
  · rw [round_of_lt bits (lt_of_lt_of_le Nat.lt_log2_self (Nat.pow_le_pow_right (by decide) short))]
    exact Nat.le_of_lt Nat.lt_log2_self
  · have split : 2 ^ (n.log2 + 1) = grain p n * 2 ^ p := by
      rw [grain, ← Nat.pow_add]
      congr 1
      omega
    have below : n / grain p n < 2 ^ p := by
      refine (Nat.div_lt_iff_lt_mul (grain_pos p n)).mpr ?_
      rw [Nat.mul_comm, ← split]
      exact Nat.lt_log2_self
    rw [split]
    exact (le_upper p n).trans (Nat.mul_le_mul_left _ below)

/-- The number rounded is no shorter than the number. -/
theorem pow_le_round (bits : 0 < p) (positive : n ≠ 0) : 2 ^ n.log2 ≤ round p n := by
  by_cases short : n.log2 + 1 ≤ p
  · rw [round_of_lt bits (lt_of_lt_of_le Nat.lt_log2_self (Nat.pow_le_pow_right (by decide) short))]
    exact Nat.log2_self_le positive
  · have split : 2 ^ n.log2 = grain p n * 2 ^ (p - 1) := by
      rw [grain, ← Nat.pow_add]
      congr 1
      omega
    have above : 2 ^ (p - 1) ≤ n / grain p n := by
      refine (Nat.le_div_iff_mul_le (grain_pos p n)).mpr ?_
      rw [Nat.mul_comm, ← split]
      exact Nat.log2_self_le positive
    rw [split]
    exact (Nat.mul_le_mul_left _ above).trans (lower_le p n)

/-- Numbers of the same length are rounded in their order. -/
theorem round_mono_of_log2 (same : m.log2 = n.log2) (le : m ≤ n) : round p m ≤ round p n := by
  have grains : grain p m = grain p n := by rw [grain, same, ← grain]
  have quotients : m / grain p n ≤ n / grain p n := Nat.div_le_div_right le
  rcases Nat.lt_or_eq_of_le quotients with less | equal
  · calc round p m
        ≤ grain p m * (m / grain p m + 1) := le_upper p m
      _ ≤ grain p n * (n / grain p n) := by rw [grains]; exact Nat.mul_le_mul_left _ less
      _ ≤ round p n := lower_le p n
  · have rests : m % grain p n ≤ n % grain p n := by
      have left := Nat.div_add_mod m (grain p n)
      have right := Nat.div_add_mod n (grain p n)
      rw [equal] at left
      omega
    have follows : upward p m → upward p n := by
      unfold upward
      rw [grains, equal]
      omega
    rw [round, round, grains, equal]
    refine Nat.mul_le_mul_left _ (Nat.add_le_add_left ?_ _)
    by_cases up : upward p m
    · rw [if_pos up, if_pos (follows up)]
    · rw [if_neg up]
      exact Nat.zero_le _

theorem round_mono (bits : 0 < p) (le : m ≤ n) : round p m ≤ round p n := by
  by_cases zero : m = 0
  · subst zero
    rw [round_of_lt bits (Nat.two_pow_pos p)]
    exact Nat.zero_le _
  have positive : n ≠ 0 := by omega
  have logs : m.log2 ≤ n.log2 := by
    rw [Nat.le_log2 positive]
    exact (Nat.log2_self_le zero).trans le
  rcases Nat.lt_or_eq_of_le logs with less | equal
  · calc round p m
        ≤ 2 ^ (m.log2 + 1) := round_le_pow bits m
      _ ≤ 2 ^ n.log2 := Nat.pow_le_pow_right (by decide) less
      _ ≤ round p n := pow_le_round bits positive
  · exact round_mono_of_log2 equal le

end

end Canna.Rounding
