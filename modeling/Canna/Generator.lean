import Canna.Congruential
import Mathlib.Data.UInt

/-!
# The random number generator

`CaRandom` keeps 32 bits and steps them three times for each number, taking upper bits
on the way. The states of successive calls form a single cycle of `2 ^ 32` states
(`Random_full_period`).
-/
namespace Canna.Generator
open Function Congruential

structure CaRandom where
  m_seed : UInt32
  deriving DecidableEq, Repr

/-- The constructor. -/
def CaRandom.init : CaRandom := ⟨0⟩

def SetSeed (r : CaRandom) (seed : UInt32) : CaRandom := { r with m_seed := seed }

/-- The two assignments that `Random` repeats. -/
def advance (next : UInt32) : UInt32 := next * 1103515245 + 12345

def Random (r : CaRandom) : UInt32 × CaRandom :=
  let next := advance r.m_seed
  let result := (next >>> 16) % 2048
  let next := advance next
  let result := (result <<< 10) ^^^ ((next >>> 16) % 1024)
  let next := advance next
  let result := (result <<< 10) ^^^ ((next >>> 16) % 1024)
  (result,⟨next⟩)

/-- The overload with a range. -/
def Random_range (r : CaRandom) (range : UInt32) : UInt32 × CaRandom :=
  if range = 0 then (0,r)
  else
    let (result,next) := Random r
    (result % range,next)

/-- The overload with both bounds. -/
def Random_min_max (r : CaRandom) (min max : UInt32) : UInt32 × CaRandom :=
  if min = max then (max,r)
  else
    let (result,next) := Random_range r (max - min)
    (result + min,next)

/-- The generator after a number of calls. -/
def calls (n : Nat) (r : CaRandom) : CaRandom := (fun r => (Random r).2)^[n] r

/-- `m_seed` after a number of calls, from a seed that was set. -/
def seed_after (seed : UInt32) (n : Nat) : UInt32 := (calls n (SetSeed .init seed)).m_seed

/-! ### The numbers -/

/-- `[0, range - 1]`. -/
theorem Random_range_lt (r : CaRandom) {range : UInt32} (positive : range ≠ 0) :
    (Random_range r range).1 < range := by
  have large : 0 < range := UInt32.pos_iff_ne_zero.mpr positive
  simp only [Random_range, positive, if_false]
  exact UInt32.mod_lt _ large

/-- `[min, max - 1]`, which for crossed bounds wraps behind the largest number. -/
theorem Random_min_max_offset (r : CaRandom) {min max : UInt32} (apart : min ≠ max) :
    (Random_min_max r min max).1 - min < max - min := by
  have positive : max - min ≠ 0 := by
    intro zero
    rw [UInt32.sub_eq_iff_eq_add, UInt32.zero_add] at zero
    exact apart zero.symm
  simp only [Random_min_max, apart, if_false, UInt32.add_sub_cancel]
  exact Random_range_lt r positive

/-! ### The period -/

/-- The state as an integer. -/
def value (next : UInt32) : ℤ := next.toNat

theorem value_advance (next : UInt32) :
    value (advance next) = line 1103515245 12345 (value next) % 2 ^ 32 := by
  simp only [value, advance, line, UInt32.toNat_add, UInt32.toNat_mul]
  push_cast
  simp only [Int.emod_add_emod, mul_comm]

theorem advance_follows : Follows 32 1103515245 12345 value advance where
  injective x y same := by
    have first := x.toNat_lt
    have second := y.toNat_lt
    simp only [Int.ModEq, value] at same
    exact UInt32.toNat_inj.mp (by omega)
  step x := by
    rw [value_advance]
    exact Int.mod_modEq _ _

theorem card_UInt32 : Nat.card UInt32 = 2 ^ 32 := by
  have bijective : Bijective UInt32.toFin :=
    bijective_iff_has_inverse.mpr ⟨UInt32.ofFin, fun _ => rfl, fun _ => rfl⟩
  rw [Nat.card_eq_of_bijective _ bijective, Nat.card_fin]
  decide

instance finite_UInt32 : Finite UInt32 := by
  apply Nat.finite_of_card_ne_zero
  rw [card_UInt32]
  decide

/-- A call takes three steps of the congruential sequence. -/
theorem Random_m_seed (r : CaRandom) : (Random r).2.m_seed = advance^[3] r.m_seed := rfl

theorem calls_m_seed (n : Nat) (r : CaRandom) : (calls n r).m_seed = (advance^[3])^[n] r.m_seed := by
  have step : Semiconj CaRandom.m_seed (fun r => (Random r).2) advance^[3] := Random_m_seed
  exact step.iterate_right n r

theorem seed_after_eq (seed : UInt32) : seed_after seed = fun n => (advance^[3])^[n] seed := by
  funext n
  exact calls_m_seed n (SetSeed .init seed)

theorem minimalPeriod_advance (seed : UInt32) : minimalPeriod advance^[3] seed = 2 ^ 32 := by
  apply minimalPeriod_iterate_odd _ (by decide)
  exact advance_follows.minimalPeriod_eq (by decide) (by decide) seed

/-- The states from a seed return to it after `2 ^ 32` calls and not earlier, each state
    comes up exactly once until then, and two seeds never lead to one state after the
    same number of calls. -/
theorem Random_full_period (seed : UInt32) :
    seed_after seed (2 ^ 32) = seed ∧
      (∀ n, 0 < n → n < 2 ^ 32 → seed_after seed n ≠ seed) ∧
      (∀ state, ∃! n, n < 2 ^ 32 ∧ seed_after seed n = state) ∧
      ∀ other n, seed_after seed n = seed_after other n → seed = other := by
  have period := minimalPeriod_advance seed
  have periodic : ∀ x, IsPeriodicPt advance^[3] (2 ^ 32) x := by
    intro x
    rw [← minimalPeriod_advance x]
    exact isPeriodicPt_minimalPeriod _ x
  simp only [seed_after_eq]
  refine ⟨periodic seed, ?_, ?_, ?_⟩
  · intro n positive early
    rw [← period] at early
    exact not_isPeriodicPt_of_pos_of_lt_minimalPeriod positive.ne' early
  · intro state
    rw [← card_UInt32] at period
    have once := existsUnique_iterate period state
    rwa [card_UInt32] at once
  · intro other n same
    have injective := injective_of_periodic (by decide) periodic
    exact injective.iterate n same

end Canna.Generator
