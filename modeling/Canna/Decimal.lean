import Canna.Bytes
import Mathlib.Data.Nat.Digits.Lemmas

/-!
# Numbers in decimal digits

The digits that `%d` prints of a number that is not negative (`decimal`), and the number
that the digits at the beginning of a text stand for (`number`). The second takes the
first back whatever follows that is no digit (`number_decimal`).
-/
namespace Canna.Decimal

/-- The characters of the digits, the last of them first. -/
def characters (digits : List Nat) : List Byte := digits.map fun d => UInt8.ofNat (48 + d)

def decimal (n : Nat) : List Byte := if n = 0 then [48] else (characters (Nat.digits 10 n)).reverse

def isdigit (b : Byte) : Bool := decide (48 ≤ b.toNat) && decide (b.toNat ≤ 57)

def number (text : List Byte) : Nat := Nat.ofDigits 10 ((text.takeWhile isdigit).reverse.map fun b => b.toNat - 48)

section
variable {n k : Nat} {b : Byte}

theorem toNat_character {d : Nat} (small : d < 10) : (UInt8.ofNat (48 + d)).toNat = 48 + d := by
  rw [UInt8.toNat_ofNat']
  omega

theorem isdigit_of_mem (member : b ∈ decimal n) : isdigit b = true := by
  unfold decimal at member
  split at member
  · rw [List.mem_singleton.mp member]
    decide
  · obtain ⟨d, digit, rfl⟩ := List.mem_map.mp (List.mem_reverse.mp member)
    have small : d < 10 := Nat.digits_lt_base (by decide) digit
    simp only [isdigit, toNat_character small, Bool.and_eq_true, decide_eq_true_eq]
    omega

theorem decimal_ne_nil (n : Nat) : decimal n ≠ [] := by
  unfold decimal
  split
  · simp
  · rename_i positive
    simpa [characters] using Nat.digits_ne_nil_iff_ne_zero.mpr positive

theorem ofDigits_decimal (n : Nat) : Nat.ofDigits 10 ((decimal n).reverse.map fun b => b.toNat - 48) = n := by
  unfold decimal
  split
  · rename_i zero
    subst zero
    decide
  · have digit : ∀ d ∈ Nat.digits 10 n, ((fun b : Byte => b.toNat - 48) ∘ fun d => UInt8.ofNat (48 + d)) d = id d := by
      intro d member
      rw [Function.comp_apply, toNat_character (Nat.digits_lt_base (by decide) member), id]
      omega
    rw [List.reverse_reverse, characters, List.map_map, List.map_congr_left digit, List.map_id, Nat.ofDigits_digits]

/-- What is printed is read back, up to what is no digit. -/
theorem number_decimal (n : Nat) {rest : List Byte} (other : ∀ b ∈ rest.head?, isdigit b = false) :
    number (decimal n ++ rest) = n := by
  have stops : rest.takeWhile isdigit = [] := by
    cases rest with
    | nil => rfl
    | cons b rest => simp [other b rfl]
  rw [number, List.takeWhile_append_of_pos fun b => isdigit_of_mem, stops, List.append_nil, ofDigits_decimal]

end

end Canna.Decimal
