import Mathlib.Algebra.GroupWithZero.Nat
import Mathlib.Data.List.Basic
import Mathlib.Data.Fin.Basic
import Mathlib.Data.Nat.Find
import Mathlib.Tactic.SplitIfs

/-!
# Circular arrays

A cyclic array of `n` cells read as a list: `window buf head len` lists the `len`
cells from position `head` on, wrapping at the physical end, and `store buf pos
src len` writes `len` elements from position `pos` on. A circular store made by
one or two copies of contiguous ranges (`copyInto`) is `store` (`copyInto_store`),
a circular read made the same way (`copyOut`) is `window` (`copyOut_window`), and
storing behind a window appends to it (`window_store`). Some cell with a property is
the first one behind a position (`exists_first_cell`).
-/
namespace Canna.Circular
variable {α : Type*} {n : Nat}

/-- The physical cell at a logical position. -/
def cell [NeZero n] (i : Nat) : Fin n := Fin.ofNat n i

@[simp] theorem cell_val [NeZero n] (i : Nat) : (cell i : Fin n).val = i % n := rfl
@[simp] theorem cell_mod [NeZero n] (i : Nat) : (cell (i % n) : Fin n) = cell i := by
  apply Fin.ext; simp
@[simp] theorem cell_mod_add [NeZero n] (i j : Nat) : (cell (i % n + j) : Fin n) = cell (i + j) := by
  apply Fin.ext; simp

/-- The cells from a position on, wrapping at the physical end. -/
def window [NeZero n] (buf : Fin n → α) (head len : Nat) : List α :=
  (List.range len).map fun i => buf (cell (head + i))

/-- How many cells behind a position a cell is, counted circularly. -/
def offset (pos : Nat) (i : Fin n) : Nat := (i.val + (n - pos % n)) % n

/-- Writes `len` elements from a position on, wrapping at the physical end. -/
def store (buf : Fin n → α) (pos : Nat) (src : Nat → α) (len : Nat) : Fin n → α :=
  fun i => if offset pos i < len then src (offset pos i) else buf i

/-- The contiguous copy `memcpy(buf + dst, src, len)`; `none` when the range
    leaves the array. -/
def copyInto (buf : Fin n → α) (dst : Nat) (src : Nat → α) (len : Nat) : Option (Fin n → α) :=
  if dst + len ≤ n then some fun i => if dst ≤ i.val ∧ i.val < dst + len then src (i.val - dst) else buf i
  else none

/-- The contiguous copy `memcpy(out, buf + src, len)`; `none` when the range
    leaves the array. -/
def copyOut (buf : Fin n → α) (src len : Nat) : Option (List α) :=
  if inside : src + len ≤ n then some ((List.finRange len).map fun i => buf ⟨src + i.val, by omega⟩)
  else none

/-! ### Windows -/

@[simp] theorem window_length [NeZero n] (buf : Fin n → α) (head len : Nat) :
    (window buf head len).length = len := by
  simp [window]

theorem window_getElem? [NeZero n] (buf : Fin n → α) (head len i : Nat) (inside : i < len) :
    (window buf head len)[i]? = some (buf (cell (head + i))) := by
  simp [window, inside]

theorem window_add [NeZero n] (buf : Fin n → α) (head left right : Nat) :
    window buf head (left + right) = window buf head left ++ window buf (head + left) right := by
  simp only [window, List.range_add, List.map_append, List.map_map]
  congr 1
  apply List.map_congr_left
  intro i _
  simp [Nat.add_assoc]

theorem window_head_mod [NeZero n] (buf : Fin n → α) (head len : Nat) :
    window buf (head % n) len = window buf head len := by
  simp [window]

theorem window_congr [NeZero n] {buf other : Fin n → α} {head len : Nat}
    (same : ∀ i < len, buf (cell (head + i)) = other (cell (head + i))) :
    window buf head len = window other head len := by
  apply List.map_congr_left
  intro i inside
  exact same i (List.mem_range.mp inside)

theorem window_take [NeZero n] (buf : Fin n → α) (head : Nat) {len count : Nat} (fits : count ≤ len) :
    (window buf head len).take count = window buf head count := by
  obtain ⟨rest, rfl⟩ := Nat.exists_eq_add_of_le fits
  rw [window_add, List.take_left' (window_length ..)]

theorem window_drop [NeZero n] (buf : Fin n → α) (head : Nat) {len count : Nat} (fits : count ≤ len) :
    (window buf head len).drop count = window buf (head + count) (len - count) := by
  obtain ⟨rest, rfl⟩ := Nat.exists_eq_add_of_le fits
  rw [window_add, List.drop_left' (window_length ..), Nat.add_sub_cancel_left]

/-! ### Stores -/

theorem offset_cell [NeZero n] (pos i : Nat) (inside : i < n) : offset pos (cell (pos + i) : Fin n) = i := by
  have positive : 0 < n := Nat.pos_of_ne_zero (NeZero.ne n)
  have small : pos % n < n := Nat.mod_lt pos positive
  unfold offset
  rw [cell_val, Nat.add_mod pos i n, Nat.mod_eq_of_lt inside, Nat.mod_add_mod]
  have split : pos % n + i + (n - pos % n) = i + n := by omega
  rw [split, Nat.add_mod_right, Nat.mod_eq_of_lt inside]

theorem cell_offset [NeZero n] (pos : Nat) (i : Fin n) : cell (pos + offset pos i) = i := by
  have small : pos % n < n := Nat.mod_lt pos (Nat.pos_of_ne_zero (NeZero.ne n))
  have bound := i.isLt
  apply Fin.ext
  have split : pos % n + (i.val + (n - pos % n)) = i.val + n := by omega
  rw [cell_val, offset, Nat.add_mod_mod, ← Nat.mod_add_mod, split, Nat.add_mod_right, Nat.mod_eq_of_lt bound]

/-- Of the cells behind a position, all of them from the next one round to its own, one is
    the first with a property that some cell has. -/
theorem exists_first_cell [NeZero n] (pos : Nat) {p : Fin n → Prop} [DecidablePred p] (found : ∃ i, p i) :
    ∃ d, 1 ≤ d ∧ d ≤ n ∧ p (cell (pos + d)) ∧ ∀ e, 1 ≤ e → e < d → ¬ p (cell (pos + e)) := by
  have reached : ∃ d, 1 ≤ d ∧ d ≤ n ∧ p (cell (pos + d)) := by
    obtain ⟨i, holds⟩ := found
    have bound : offset (pos + 1) i < n := Nat.mod_lt _ (Nat.pos_of_neZero n)
    refine ⟨1 + offset (pos + 1) i, by omega, by omega, ?_⟩
    rw [← Nat.add_assoc, cell_offset]
    exact holds
  obtain ⟨positive, bound, holds⟩ := Nat.find_spec reached
  refine ⟨Nat.find reached, positive, bound, holds, ?_⟩
  intro e least early earlier
  exact Nat.find_min reached early ⟨least, by omega, earlier⟩

theorem store_inside [NeZero n] (buf : Fin n → α) (pos : Nat) (src : Nat → α) {len i : Nat}
    (fits : len ≤ n) (inside : i < len) : store buf pos src len (cell (pos + i)) = src i := by
  unfold store
  rw [offset_cell pos i (by omega), if_pos inside]

theorem store_outside [NeZero n] (buf : Fin n → α) (pos : Nat) (src : Nat → α) {len i : Nat}
    (beyond : len ≤ i) (inside : i < n) :
    store buf pos src len (cell (pos + i)) = buf (cell (pos + i)) := by
  unfold store
  rw [offset_cell pos i inside, if_neg (by omega)]

/-- What is stored right behind a window is appended to it. -/
theorem window_store [NeZero n] (buf : Fin n → α) (head len : Nat) (src : Nat → α) (count : Nat)
    (fits : len + count ≤ n) :
    window (store buf (head + len) src count) head (len + count) =
      window buf head len ++ (List.range count).map src := by
  have positive : 0 < n := Nat.pos_of_ne_zero (NeZero.ne n)
  rw [window_add]
  congr 1
  · apply window_congr
    intro i inside
    -- logical cell `i` of the window is `n - len + i` cells past its end
    have around : (cell (head + i) : Fin n) = cell (head + len + (n - len + i)) := by
      apply Fin.ext
      have unwrapped : head + len + (n - len + i) = head + i + n := by omega
      simp [unwrapped]
    rw [around, store_outside buf (head + len) src (by omega) (by omega)]
  · apply List.map_congr_left
    intro i inside
    exact store_inside buf (head + len) src (by omega) (List.mem_range.mp inside)

/-! ### Stores and reads made of contiguous copies -/

theorem offset_of_le {pos : Nat} {i : Fin n} (small : pos < n) (le : pos ≤ i.val) :
    offset pos i = i.val - pos := by
  have bound := i.isLt
  unfold offset
  rw [Nat.mod_eq_of_lt small]
  have split : i.val + (n - pos) = i.val - pos + n := by omega
  rw [split, Nat.add_mod_right, Nat.mod_eq_of_lt (by omega)]

theorem offset_of_lt {pos : Nat} {i : Fin n} (small : pos < n) (lt : i.val < pos) :
    offset pos i = n - pos + i.val := by
  unfold offset
  rw [Nat.mod_eq_of_lt small, Nat.mod_eq_of_lt (by omega), Nat.add_comm]

/-- A store that does not reach the physical end is one copy. -/
theorem copyInto_once (buf : Fin n → α) {pos : Nat} (src : Nat → α) {len : Nat}
    (small : pos < n) (fits : len ≤ n - pos) : copyInto buf pos src len = some (store buf pos src len) := by
  have inside : pos + len ≤ n := by omega
  unfold copyInto
  rw [if_pos inside]
  congr 1
  funext i
  by_cases le : pos ≤ i.val
  · unfold store
    rw [offset_of_le small le]
    by_cases lt : i.val < pos + len
    · rw [if_pos ⟨le, lt⟩, if_pos (by omega)]
    · rw [if_neg (by omega), if_neg (by omega)]
  · unfold store
    rw [offset_of_lt small (by omega), if_neg (by omega), if_neg (by omega)]

/-- A store across the physical end is two copies: up to the end, then from
    the start. -/
theorem copyInto_twice (buf : Fin n → α) {pos : Nat} (src : Nat → α) {len : Nat}
    (small : pos < n) (wraps : n - pos < len) (fits : len ≤ n) :
    ((copyInto buf pos src (n - pos)).bind fun first =>
      copyInto first 0 (fun i => src (n - pos + i)) (len - (n - pos))) = some (store buf pos src len) := by
  have first : pos + (n - pos) ≤ n := by omega
  have second : 0 + (len - (n - pos)) ≤ n := by omega
  simp only [copyInto, if_pos first, if_pos second, Option.bind_some]
  congr 1
  funext i
  have bound := i.isLt
  by_cases le : pos ≤ i.val
  · unfold store
    rw [offset_of_le small le, if_neg (by omega), if_pos (by omega), if_pos (by omega)]
  · unfold store
    rw [offset_of_lt small (by omega)]
    by_cases lt : i.val < len - (n - pos)
    · rw [if_pos (by omega), if_pos (by omega), Nat.sub_zero]
    · rw [if_neg (by omega), if_neg (by omega), if_neg (by omega)]

/-- One copy or two, as the room up to the physical end demands. -/
theorem copyInto_store (buf : Fin n → α) {pos rest : Nat} (src : Nat → α) (len : Nat)
    (small : pos < n) (room : rest = n - pos) (fits : len ≤ n) :
    (if rest ≥ len then copyInto buf pos src len
      else (copyInto buf pos src rest).bind fun first =>
        copyInto first 0 (fun i => src (rest + i)) (len - rest)) = some (store buf pos src len) := by
  subst room
  by_cases once : len ≤ n - pos
  · rw [if_pos once, copyInto_once buf src small once]
  · rw [if_neg once, copyInto_twice buf src small (by omega) fits]

theorem copyOut_inside [NeZero n] (buf : Fin n → α) {src len : Nat} (inside : src + len ≤ n) :
    copyOut buf src len = some (window buf src len) := by
  unfold copyOut
  rw [dif_pos inside]
  congr 1
  apply List.ext_getElem (by simp)
  intro i left right
  have small : i < len := by simpa using left
  simp only [window, List.getElem_map, List.getElem_finRange, List.getElem_range]
  congr 1
  apply Fin.ext
  simp [Nat.mod_eq_of_lt (show src + i < n by omega)]

/-- A read across the physical end is two copies, delivered one behind the other. -/
theorem copyOut_twice [NeZero n] (buf : Fin n → α) {pos len : Nat}
    (small : pos < n) (wraps : n - pos < len) (fits : len ≤ n) :
    ((copyOut buf pos (n - pos)).bind fun first =>
      (copyOut buf 0 (len - (n - pos))).map fun second => first ++ second) = some (window buf pos len) := by
  have first : pos + (n - pos) ≤ n := by omega
  have second : 0 + (len - (n - pos)) ≤ n := by omega
  rw [copyOut_inside buf first, copyOut_inside buf second]
  have whole : len = (n - pos) + (len - (n - pos)) := by omega
  have restart : pos + (n - pos) = n := by omega
  have wrapped := window_head_mod buf (pos + (n - pos)) (len - (n - pos))
  rw [restart, Nat.mod_self] at wrapped
  conv_rhs => rw [whole, window_add, restart, ← wrapped]
  rfl

theorem copyOut_window [NeZero n] (buf : Fin n → α) {pos rest : Nat} (len : Nat)
    (small : pos < n) (room : rest = n - pos) (fits : len ≤ n) :
    (if rest ≥ len then copyOut buf pos len
      else (copyOut buf pos rest).bind fun first =>
        (copyOut buf 0 (len - rest)).map fun second => first ++ second) = some (window buf pos len) := by
  subst room
  by_cases once : len ≤ n - pos
  · rw [if_pos once, copyOut_inside buf (by omega)]
  · rw [if_neg once, copyOut_twice buf small (by omega) fits]

theorem store_pos_mod (buf : Fin n → α) (pos : Nat) (src : Nat → α) (len : Nat) :
    store buf (pos % n) src len = store buf pos src len := by
  funext i
  have same : offset (pos % n) i = offset pos i := by simp [offset]
  unfold store
  rw [same]

end Canna.Circular
