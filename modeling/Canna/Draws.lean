import Canna.Multipart
import Canna.Rounding

/-!
# Random numbers in a range

`CANNA_RAND` of `canna_core.h` multiplies its range by a value of `random()` as a `float`
and divides by `RAND_MAX + 1.0`. A `float` has 24 significant bits, so that the last
values of `random()` count as `RAND_MAX + 1`: the range itself is drawn
(`canna_rand_range`), and the identity that a client makes of two draws is longer than
its buffer (`identity_fits`).
-/
namespace Canna.Draws
open Canna.Rounding Canna.Multipart
open Canna.Names (Text)

/-- The significant bits of a `float`. -/
def FLT_MANT_DIG : Nat := 24

/-- `RAND_MAX + 1.0`; the values of `random()` are below it. -/
def RAND_LIMIT : Nat := 2 ^ 31

/-- `(int) ((float)(seed)*random()/(RAND_MAX + 1.0))`; the quotient is a `double`, exact, and
    is cut off. -/
def CANNA_RAND (seed random : Nat) : Nat :=
  round FLT_MANT_DIG (round FLT_MANT_DIG seed * round FLT_MANT_DIG random) / RAND_LIMIT

section
variable {seed random : Nat}

theorem round_seed (small : seed ≤ 2 ^ 24) : round 24 seed = seed := by
  rcases Nat.lt_or_eq_of_le small with less | rfl
  · exact round_of_lt (by decide) less
  · exact round_mul_pow (m := 1) (k := 24) (by decide) (by decide)

/-- The last 64 values of `random()` are rounded to the limit. -/
theorem round_random_last (bound : random < 2 ^ 31) (last : 2 ^ 31 - 64 ≤ random) : round 24 random = 2 ^ 31 := by
  have above : round 24 (2 ^ 31 - 64) ≤ round 24 random := round_mono (by decide) last
  have below : round 24 random ≤ round 24 (2 ^ 31) := round_mono (by decide) (by omega)
  have first : round 24 (2 ^ 31 - 64) = 2 ^ 31 := by decide +kernel
  have limit : round 24 (2 ^ 31) = 2 ^ 31 := by decide +kernel
  omega

theorem round_random_earlier (earlier : random < 2 ^ 31 - 64) : round 24 random ≤ 2147483520 := by
  have below : round 24 random ≤ round 24 (2 ^ 31 - 65) := round_mono (by decide) (by omega)
  have last : round 24 (2 ^ 31 - 65) = 2147483520 := by decide +kernel
  omega

theorem round_range (small : seed ≤ 2 ^ 24) : round 24 (seed * 2 ^ 31) = seed * 2 ^ 31 := by
  rcases Nat.lt_or_eq_of_le small with less | rfl
  · exact round_mul_pow (by decide) less
  · decide +kernel

/-- The largest product below the range is not rounded up to it: where the range is a power
    of two it is not rounded, and elsewhere its lower neighbour is the nearer one. -/
theorem round_product_le (positive : seed ≠ 0) (small : seed ≤ 2 ^ 24) :
    round 24 (seed * 2147483520) ≤ seed * 2147483520 := by
  have low := Nat.log2_self_le positive
  have high := Nat.lt_log2_self (n := seed)
  rcases Nat.lt_or_eq_of_le low with between | power
  · have length : seed.log2 ≤ 23 := by
      by_contra long
      have far : 2 ^ 24 ≤ 2 ^ seed.log2 := Nat.pow_le_pow_right (by decide) (by omega)
      omega
    generalize seed.log2 = b at between high length
    have next : 2 ^ (b + 1) = 2 ^ b * 2 := Nat.pow_succ ..
    have ahead : 2 ^ (b + 31) = 2 ^ b * 2147483648 := Nat.pow_add 2 b 31
    have behind : 2 ^ (b + 31 + 1) = 2 ^ b * 4294967296 := Nat.pow_add 2 b 32
    have log : (seed * 2147483520).log2 = b + 31 := (Nat.log2_eq_iff (by omega)).mpr ⟨by omega, by omega⟩
    have grains : grain 24 (seed * 2147483520) = 2 ^ b * 256 := by
      rw [grain, log, show b + 31 + 1 - 24 = b + 8 by omega]
      exact Nat.pow_add 2 b 8
    have whole : seed * 2 ^ (23 - b) * (2 ^ b * 256) = seed * 2147483648 := by
      have exponents : 2 ^ (23 - b) * 2 ^ b = 8388608 := by
        rw [← Nat.pow_add, Nat.sub_add_cancel length]
      calc seed * 2 ^ (23 - b) * (2 ^ b * 256)
          = seed * (2 ^ (23 - b) * 2 ^ b) * 256 := by simp only [Nat.mul_assoc]
        _ = seed * 2147483648 := by rw [exponents]; omega
    have some : seed * 2 ^ (23 - b) ≠ 0 := Nat.mul_ne_zero positive (Nat.two_pow_pos _).ne'
    refine round_le_self (q := seed * 2 ^ (23 - b) - 1) (y := seed * 128) grains ?_ (by omega) (by omega)
    rw [Nat.sub_add_cancel (Nat.pos_of_ne_zero some), whole]
    omega
  · have product : seed * 2147483520 = 16777215 * 2 ^ (seed.log2 + 7) := by
      rw [Nat.pow_add, power]
      omega
    rw [product, round_mul_pow (by decide) (by decide)]

/-- Larger values of `random()` give larger draws. -/
theorem rand_mono {later : Nat} (le : random ≤ later) : CANNA_RAND seed random ≤ CANNA_RAND seed later :=
  Nat.div_le_div_right (round_mono (by decide) (Nat.mul_le_mul_left _ (round_mono (by decide) le)))

theorem rand_last (small : seed ≤ 2 ^ 24) (bound : random < RAND_LIMIT) (last : RAND_LIMIT - 64 ≤ random) :
    CANNA_RAND seed random = seed := by
  rw [CANNA_RAND, FLT_MANT_DIG, round_seed small, round_random_last bound last, round_range small, RAND_LIMIT]
  exact Nat.mul_div_cancel seed (by decide)

theorem rand_earlier (positive : seed ≠ 0) (small : seed ≤ 2 ^ 24) (earlier : random < RAND_LIMIT - 64) :
    CANNA_RAND seed random < seed := by
  refine (Nat.div_lt_iff_lt_mul (by decide)).mpr ?_
  calc round 24 (round 24 seed * round 24 random)
      ≤ round 24 (seed * 2147483520) := by
        rw [round_seed small]
        exact round_mono (by decide) (Nat.mul_le_mul_left _ (round_random_earlier earlier))
    _ ≤ seed * 2147483520 := round_product_le positive small
    _ < seed * 2147483648 := by omega

theorem rand_eq_iff (positive : seed ≠ 0) (small : seed ≤ 2 ^ 24) (bound : random < RAND_LIMIT) :
    CANNA_RAND seed random = seed ↔ RAND_LIMIT - 64 ≤ random := by
  constructor
  · intro same
    by_contra earlier
    exact absurd same (rand_earlier positive small (by omega)).ne
  · exact rand_last small bound

theorem rand_le (small : seed ≤ 2 ^ 24) (bound : random < RAND_LIMIT) : CANNA_RAND seed random ≤ seed :=
  calc CANNA_RAND seed random
      ≤ CANNA_RAND seed (RAND_LIMIT - 1) := rand_mono (Nat.le_sub_one_of_lt bound)
    _ = seed := rand_last small (by decide) (by decide)

/-- A draw is at most its range, larger for larger values of `random()`, and it is the
    range itself exactly for the last 64 values of `random()`. -/
theorem canna_rand_range (small : seed ≤ 2 ^ 24) (bound : random < RAND_LIMIT) :
    CANNA_RAND seed random ≤ seed ∧ (∀ later, random ≤ later → CANNA_RAND seed random ≤ CANNA_RAND seed later) ∧
      (seed ≠ 0 → (CANNA_RAND seed random = seed ↔ RAND_LIMIT - 64 ≤ random)) :=
  ⟨rand_le small bound, fun _ le => rand_mono le, fun positive => rand_eq_iff positive small bound⟩

/-- The last draw below `0x10000` and the first that is not. -/
theorem canna_rand_range_last : CANNA_RAND 65536 2147483583 = 65535 ∧ CANNA_RAND 65536 2147483584 ≤ 65536 ∧
    (∀ later, 2147483584 ≤ later → CANNA_RAND 65536 2147483584 ≤ CANNA_RAND 65536 later) ∧
      (65536 ≠ 0 → (CANNA_RAND 65536 2147483584 = 65536 ↔ RAND_LIMIT - 64 ≤ 2147483584)) :=
  ⟨by decide +kernel, canna_rand_range (by decide) (by decide)⟩

/-! ### The identity of a client -/

/-- What `sprintf(identity, "%04X-%04X", ...)` of `asyncclient::start` writes, with the values
    of `random()` in it. -/
def sprintf_identity (first second : Nat) : List Byte :=
  canna_setid (CANNA_RAND 0x10000 first) (CANNA_RAND 0x10000 second) ++ [0]

/-- `char identity[10]`. -/
def identity_size : Nat := 10

/-- Whether a value of `random()` is one of the last 64. -/
def topmost (random : Nat) : Nat := if RAND_LIMIT - 64 ≤ random then 1 else 0

theorem hex4_length (n : Nat) : (hex4 n).length = max 4 (Nat.digits 16 n).length := by
  simp only [hex4, List.length_map, List.leftpad, List.length_append, List.length_replicate, List.length_reverse]
  omega

theorem hex4_draw_length (bound : random < RAND_LIMIT) : (hex4 (CANNA_RAND 0x10000 random)).length = 4 + topmost random := by
  rw [hex4_length, topmost]
  split
  · rename_i last
    rw [rand_last (by decide) bound last]
    decide +kernel
  · rename_i earlier
    have below : CANNA_RAND 0x10000 random < 16 ^ 4 := rand_earlier (by decide) (by decide) (by omega)
    have short := (Nat.digits_length_le_iff (by decide) _).mpr below
    omega

/-- The identity fits its buffer exactly where neither draw is the range itself; each that
    is writes one byte beyond it. -/
theorem identity_fits {first second : Nat} (left : first < RAND_LIMIT) (right : second < RAND_LIMIT) :
    (sprintf_identity first second).length = identity_size + topmost first + topmost second ∧
      ((sprintf_identity first second).length ≤ identity_size ↔
        CANNA_RAND 0x10000 first < 0x10000 ∧ CANNA_RAND 0x10000 second < 0x10000) := by
  have length : (sprintf_identity first second).length = identity_size + topmost first + topmost second := by
    simp only [sprintf_identity, canna_setid, List.length_append, List.length_cons, List.length_nil,
      hex4_draw_length left, hex4_draw_length right, identity_size]
    omega
  have below : ∀ {random}, random < RAND_LIMIT → (CANNA_RAND 0x10000 random < 0x10000 ↔ topmost random = 0) := by
    intro random bound
    have most : CANNA_RAND 0x10000 random ≤ 0x10000 := rand_le (by decide) bound
    have last : CANNA_RAND 0x10000 random = 0x10000 ↔ RAND_LIMIT - 64 ≤ random := rand_eq_iff (by decide) (by decide) bound
    unfold topmost
    split <;> omega
  refine ⟨length, ?_⟩
  rw [length, below left, below right]
  omega

/-- One draw is the range itself. -/
theorem identity_fits_topmost : sprintf_identity 2147483647 0 = [49,48,48,48,48,45,48,48,48,48,0] ∧
    (sprintf_identity 2147483647 0).length = identity_size + topmost 2147483647 + topmost 0 ∧
      ((sprintf_identity 2147483647 0).length ≤ identity_size ↔
        CANNA_RAND 0x10000 2147483647 < 0x10000 ∧ CANNA_RAND 0x10000 0 < 0x10000) :=
  ⟨by decide +kernel, identity_fits (by decide) (by decide)⟩

end

end Canna.Draws
