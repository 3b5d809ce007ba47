import Canna.Circular
import Canna.Names

/-!
# The serial search

The loop of `allotnamepair` on an arbitrary entry of the map, not only on those that its
own calls leave behind: as long as a serial is free the loop stops within 256 rounds, at
the first free one behind the stored serial (`search_first`).
-/
namespace Canna.Names
open Circular

instance : NeZero SERIAL_SIZE := ⟨by decide⟩

theorem next_eq_cell (serial : Nat) : next serial = cell (serial + 1) := by
  apply Fin.ext
  exact Nat.and_two_pow_sub_one_eq_mod (serial + 1) 8

/-- A round starts from the serial only as far as it is cyclic. -/
theorem search_cell (bitset : Bitset) (fuel serial : Nat) :
    search bitset fuel (cell serial : Fin SERIAL_SIZE) = search bitset fuel serial := by
  cases fuel with
  | zero => rfl
  | succ fuel => simp only [search, next_eq_cell, cell_val, cell_mod_add]

/-- A round finds the next serial free or goes on behind it. -/
theorem search_succ (bitset : Bitset) (fuel serial : Nat) :
    search bitset (fuel + 1) serial = if bitset (cell (serial + 1)) then search bitset fuel (serial + 1)
      else some (cell (serial + 1)) := by
  rw [search, next_eq_cell, search_cell]
  cases bitset (cell (serial + 1)) <;> rfl

/-- The search stops in the round that comes to the first free serial, not earlier. -/
theorem search_first {bitset : Bitset} {serial d : Nat} (positive : 1 ≤ d)
    (free : bitset (cell (serial + d)) = false)
    (used : ∀ e, 1 ≤ e → e < d → bitset (cell (serial + e)) = true) (fuel : Nat) :
    search bitset fuel serial = if d ≤ fuel then some (cell (serial + d)) else none := by
  induction fuel generalizing serial d with
  | zero => exact (if_neg (by omega)).symm
  | succ fuel ih =>
    rw [search_succ]
    rcases Nat.eq_or_lt_of_le positive with rfl | more
    · simp [free]
    · obtain ⟨rest, rfl⟩ := Nat.exists_eq_add_of_le' positive
      have shift (e : Nat) : serial + (e + 1) = serial + 1 + e := by omega
      have probed := used 1 (by omega) more
      rw [shift] at free
      have later := ih (by omega) free fun e least early => by
        rw [← shift]
        exact used (e + 1) (by omega) (by omega)
      rw [probed, if_pos rfl, later, shift rest]
      simp only [Nat.add_le_add_iff_right]

theorem exists_free {bitset : Bitset} (notFull : bitset.all = false) : ∃ i, bitset i = false := by
  simpa [Bitset.all] using notFull

@[simp] theorem set_apply (bitset : Bitset) (i j : Fin SERIAL_SIZE) :
    bitset.set i j = true ↔ j = i ∨ bitset j = true := by
  by_cases same : j = i <;> simp [Bitset.set, same]

/-- On an entry that is not full the search ends, within 256 rounds, at the first free
    serial behind the stored one. Its name is issued, its bit is set and it is stored;
    no other group's entry changes. -/
theorem allotnamepair_first_free {c : NameCtrl} {name : Text} {pair : NamePair}
    (found : c.m_serialmap name = some pair) (notFull : pair.bitset.all = false) :
    ∃ (d : Nat) (serial : Fin SERIAL_SIZE) (bitset : Bitset) (after : NameCtrl),
      (1 ≤ d ∧ d ≤ 256 ∧ ∀ fuel, search pair.bitset fuel pair.serial = if d ≤ fuel then some serial else none) ∧
      (serial.val = (pair.serial + d) % 256 ∧ pair.bitset serial = false ∧
        ∀ e (i : Fin SERIAL_SIZE), 1 ≤ e → e < d → i.val = (pair.serial + e) % 256 → pair.bitset i = true) ∧
      allotnamepair c name = some (name ++ suffix serial, after) ∧
      after.m_serialmap name = some ⟨serial, bitset⟩ ∧
      (∀ i, bitset i = true ↔ i = serial ∨ pair.bitset i = true) ∧
      ∀ other, other ≠ name → after.m_serialmap other = c.m_serialmap other := by
  obtain ⟨d, positive, bound, free, first⟩ := exists_first_cell pair.serial (exists_free notFull)
  have used : ∀ e, 1 ≤ e → e < d → pair.bitset (cell (pair.serial + e)) = true := by
    intro e least early
    simpa using first e least early
  have searched := search_first positive free used
  generalize picked : (cell (pair.serial + d) : Fin SERIAL_SIZE) = serial at free searched
  have allotted : allotnamepair c name =
      some (name ++ suffix serial, c.insert name ⟨serial, pair.bitset.set serial⟩) := by
    simp only [allotnamepair, found, notFull, Bool.false_eq_true, if_false, searched, if_pos bound, Option.map_some]
  refine ⟨d, serial, _, _, ⟨positive, bound, searched⟩, ⟨?_, free, ?_⟩, allotted, ?_, set_apply pair.bitset _, ?_⟩
  · rw [← picked]
    rfl
  · intro e i least early value
    have same : i = cell (pair.serial + e) := Fin.ext value
    rw [same]
    exact used e least early
  · simp [NameCtrl.insert]
  · intro other different
    simp [NameCtrl.insert, Function.update_of_ne different]

/-- With 3 the only free serial, a group that stands at 254 is searched round to it. -/
theorem allotnamepair_round : ∃ after,
    allotnamepair (NameCtrl.fresh.insert [97] ⟨254,fun i => decide (i.val ≠ 3)⟩) [97] =
      some ([97] ++ suffix 3, after) := by
  have found : (NameCtrl.fresh.insert [97] ⟨254,fun i => decide (i.val ≠ 3)⟩).m_serialmap [97] =
      some ⟨254,fun i => decide (i.val ≠ 3)⟩ := by simp [NameCtrl.insert]
  have notFull : Bitset.all (fun i => decide (i.val ≠ 3)) = false := by
    rw [Bitset.all, decide_eq_false_iff_not]
    exact fun full => absurd (full ⟨3, by decide⟩) (by decide)
  obtain ⟨_, serial, _, after, _, ⟨_, free, _⟩, allotted, _⟩ := allotnamepair_first_free found notFull
  have picked : serial.val = 3 := by simpa using free
  rw [picked] at allotted
  exact ⟨after, allotted⟩

end Canna.Names
