import Mathlib.Algebra.Group.Int.Defs
import Mathlib.Algebra.Group.Nat.Defs
import Mathlib.Data.List.Basic
import Mathlib.Data.List.TakeWhile

/-!
# Bytes in memory and machine integers

Byte memory as a function of the address (`Memory`), with reads (`peek`) and
writes (`poke`) of ranges, the little-endian bytes of a number (`toBytes`,
`ofBytes`) and strings ended by a zero byte (`cstring`). Reading a range just
written returns what was written (`peek_poke`), and a range apart from it is as it
was (`peek_poke_apart`). Integers converted to `int` and `unsigned long` wrap
around (`cint`, `ulong`).
-/
namespace Canna

abbrev Byte := UInt8
abbrev Memory := Nat → Byte

namespace Memory

/-- The bytes of a range. -/
def peek (m : Memory) (pos len : Nat) : List Byte := (List.range len).map fun i => m (pos + i)

/-- Memory with bytes written from a position on. -/
def poke (m : Memory) (pos : Nat) (bytes : List Byte) : Memory := fun i =>
  if pos ≤ i then bytes[i - pos]?.getD (m i) else m i

/-- The string that starts at a position, without its zero byte, where one stands
    in the range. -/
def cstring (m : Memory) (pos len : Nat) : List Byte := (m.peek pos len).takeWhile (· ≠ 0)

@[simp] theorem peek_length (m : Memory) (pos len : Nat) : (m.peek pos len).length = len := by simp [peek]

theorem peek_congr {m n : Memory} {pos len : Nat} (same : ∀ i < len, m (pos + i) = n (pos + i)) :
    m.peek pos len = n.peek pos len := by
  apply List.map_congr_left
  intro i inside
  exact same i (List.mem_range.mp inside)

theorem peek_add (m : Memory) (pos left right : Nat) :
    m.peek pos (left + right) = m.peek pos left ++ m.peek (pos + left) right := by
  simp only [peek, List.range_add, List.map_append, List.map_map]
  congr 1
  apply List.map_congr_left
  intro i _
  simp [Nat.add_assoc]

theorem poke_inside (m : Memory) {pos : Nat} {bytes : List Byte} {i : Nat} (inside : i < bytes.length) :
    m.poke pos bytes (pos + i) = bytes[i] := by
  simp [poke, inside]

theorem poke_outside (m : Memory) {pos : Nat} {bytes : List Byte} {i : Nat}
    (outside : i < pos ∨ pos + bytes.length ≤ i) : m.poke pos bytes i = m i := by
  unfold poke
  split
  · rw [List.getElem?_eq_none (by omega), Option.getD_none]
  · rfl

theorem peek_poke (m : Memory) (pos : Nat) (bytes : List Byte) :
    (m.poke pos bytes).peek pos bytes.length = bytes := by
  apply List.ext_getElem (by simp)
  intro i left right
  have inside : i < bytes.length := right
  simp only [peek, List.getElem_map, List.getElem_range, poke_inside m inside]

theorem peek_poke_apart (m : Memory) {pos start len : Nat} {bytes : List Byte}
    (apart : start + len ≤ pos ∨ pos + bytes.length ≤ start) :
    (m.poke pos bytes).peek start len = m.peek start len :=
  peek_congr fun i inside => poke_outside m (by omega)

/-- A part of a range just written. -/
theorem peek_poke_inside (m : Memory) (pos : Nat) (bytes : List Byte) {start len : Nat}
    (fits : start + len ≤ bytes.length) :
    (m.poke pos bytes).peek (pos + start) len = (bytes.drop start).take len := by
  apply List.ext_getElem (by simp; omega)
  intro i left right
  have inside : i < len := by simpa using left
  simp only [peek, List.getElem_map, List.getElem_range, List.getElem_take, List.getElem_drop, Nat.add_assoc]
  exact poke_inside m (by omega)

/-- A part of a range read and written elsewhere is that part of the original. -/
theorem peek_copy (m n : Memory) {start len size : Nat} (fits : start + len ≤ size) :
    (m.poke 0 (n.peek 0 size)).peek start len = n.peek start len := by
  have copied := peek_poke_inside m 0 (n.peek 0 size) (by simpa using fits)
  rw [Nat.zero_add] at copied
  rw [copied]
  obtain ⟨rest, rfl⟩ := Nat.exists_eq_add_of_le fits
  rw [Nat.add_assoc, peek_add, List.drop_left' (peek_length ..), Nat.zero_add, peek_add,
    List.take_left' (peek_length ..)]

/-- Reading back a string written with its zero byte. -/
theorem cstring_of_peek {m : Memory} {pos len : Nat} {bytes : List Byte} (noNul : 0 ∉ bytes)
    (fits : bytes.length < len) (stored : m.peek pos (bytes.length + 1) = bytes ++ [0]) :
    m.cstring pos len = bytes := by
  obtain ⟨rest, rfl⟩ := Nat.exists_eq_add_of_le (show bytes.length + 1 ≤ len by omega)
  have nonzero : ∀ b ∈ bytes, decide (b ≠ 0) = true := by
    intro b member
    have : b ≠ 0 := fun zero => noNul (zero ▸ member)
    simpa using this
  rw [cstring, peek_add, stored, List.append_assoc, List.takeWhile_append_of_pos nonzero]
  simp

/-- Bytes followed by zero bytes, read as a string. -/
theorem cstring_of_padded {m : Memory} {pos len count : Nat} {bytes : List Byte}
    (stored : m.peek pos len = bytes ++ List.replicate count 0) : m.cstring pos len = bytes.takeWhile (· ≠ 0) := by
  rw [cstring, stored, List.takeWhile_append, List.takeWhile_replicate]
  simp only [ne_eq, not_true_eq_false, decide_false, Bool.false_eq_true, if_false, List.append_nil]
  split
  · next all => exact ((List.takeWhile_prefix _).eq_of_length all).symm
  · rfl

theorem exists_zero_iff (m : Memory) (pos len : Nat) : (∃ i < len, m (pos + i) = 0) ↔ 0 ∈ m.peek pos len := by
  simp [peek]

end Memory

/-! ### Numbers -/

/-- The `width` low bytes of a number, the lowest first. -/
def toBytes : (width : Nat) → Nat → List Byte
  | 0, _ => []
  | width + 1, n => UInt8.ofNat n :: toBytes width (n / 256)

def ofBytes : List Byte → Nat
  | [] => 0
  | b :: bytes => b.toNat + 256 * ofBytes bytes

@[simp] theorem toBytes_length (width n : Nat) : (toBytes width n).length = width := by
  induction width generalizing n with
  | zero => rfl
  | succ width ih => simp [toBytes, ih]

theorem ofBytes_toBytes {width n : Nat} (small : n < 256 ^ width) : ofBytes (toBytes width n) = n := by
  induction width generalizing n with
  | zero => simp at small; simp [toBytes, ofBytes, small]
  | succ width ih =>
    have rest : n / 256 < 256 ^ width := by
      rw [Nat.div_lt_iff_lt_mul (by decide), ← Nat.pow_succ]; exact small
    rw [toBytes, ofBytes, ih rest, UInt8.toNat_ofNat']
    omega

/-! ### Conversions -/

/-- The greatest 32-bit `int`. -/
def INT_MAX : Int := 2 ^ 31 - 1

/-- Conversion to the 32-bit `int`. -/
@[irreducible] def cint (i : Int) : Int := Int.bmod i (2 ^ 32)

/-- Conversion to the 64-bit `unsigned long` or `size_t`. -/
@[irreducible] def ulong (i : Int) : Nat := (i % 2 ^ 64).toNat

theorem ulong_of_nat {n : Nat} (small : n < 2 ^ 64) : ulong n = n := by
  rw [ulong]; omega

theorem cint_lt (i : Int) : cint i < 2 ^ 31 := by rw [cint]; exact Int.bmod_lt (by decide)

theorem cint_le {n : Nat} : cint n ≤ n := by
  rw [cint, Int.bmod_def]; split <;> omega

theorem cint_of_small {i : Int} (low : -2 ^ 31 ≤ i) (high : i < 2 ^ 31) : cint i = i := by
  rw [cint, Int.bmod_def]; split <;> omega

end Canna
