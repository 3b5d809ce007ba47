import Canna.RingBuffer
import Mathlib.Data.Nat.Bitwise

/-!
# The queries of the ring buffer

What `IsComplete` and `Full` report of the unread bytes. `GetSize` is 0 while a
header byte is missing, and every fill level is at least 0, so that `IsComplete`
takes an incomplete header for a package (`isComplete_exact`). `Full` masks with
`BUFFER_SIZE`, which is one bit and none of those of an index, so that it compares
`m_head` with 0 instead of `m_tail + 1` (`full_iff`, `full_exact`).
-/
namespace Canna.RingBuffer
variable {r : RingBuffer} {q : Fifo}

/-- The queue begins with a package: the two bytes of its header, and as many bytes
    as they say. -/
def Fifo.Complete (q : Fifo) : Prop := 2 ≤ q.length ∧ q.size ≤ q.length

instance (q : Fifo) : Decidable q.Complete := inferInstanceAs (Decidable (_ ∧ _))

theorem isComplete_iff (rep : Represents r q) : r.IsComplete = true ↔ q.size ≤ q.length := by
  unfold IsComplete
  rw [available_eq rep, getSize_eq rep, decide_eq_true_eq]

/-- A missing header counts as the size 0. -/
theorem Fifo.size_short (short : q.length < 2) : q.size = 0 := by
  rcases q with _ | ⟨high, _ | ⟨low, rest⟩⟩
  · rfl
  · rfl
  · simp only [List.length_cons] at short
    omega

/-- `IsComplete` is right once both bytes of a header have arrived, and never before. -/
theorem isComplete_exact (ops : List Op) : ∃ r replies q, Initialize.run ops = some (replies, r) ∧
    Fifo.run [] ops = (replies, q) ∧ Represents r q ∧ ((r.IsComplete = true ↔ q.Complete) ↔ 2 ≤ q.length) := by
  obtain ⟨r, executed, rep⟩ := run_represents represents_initialize ops
  refine ⟨r, _, _, executed, rfl, rep, ?_⟩
  rw [isComplete_iff rep]
  constructor
  · intro right
    by_cases header : 2 ≤ (Fifo.run [] ops).2.length
    · exact header
    · have size := Fifo.size_short (Nat.lt_of_not_le header)
      exact (right.mp (by omega)).1
  · intro header
    exact ⟨fun enough => ⟨header, enough⟩, fun complete => complete.2⟩

/-- One byte is no header. -/
theorem isComplete_one_byte : ∃ r replies, Initialize.run [.write (fun _ => 7) 1] = some (replies, r) ∧
    Fifo.run [] [.write (fun _ => 7) 1] = (replies, [7]) ∧ r.IsComplete = true ∧ ¬ Fifo.Complete [7] := by
  obtain ⟨r, executed, rep⟩ := run_represents represents_initialize [.write (fun _ => 7) 1]
  have ran : Fifo.run [] [.write (fun _ => 7) 1] = ([(1, [])], [7]) := by decide
  rw [ran] at executed rep
  exact ⟨r, _, executed, ran, (isComplete_iff rep).mpr (by decide), by decide⟩

/-! ### Fullness -/

/-- Of an index below `BUFFER_SIZE` and its successor, the mask of `Full` leaves the
    bit of `BUFFER_SIZE` itself. -/
theorem full_mask {x : UInt32} (low : x.toNat < BUFFER_SIZE) :
    ((x + 1) &&& UInt32.ofNat BUFFER_SIZE).toNat = if x.toNat = BUFFER_MASK then BUFFER_SIZE else 0 := by
  have size : (UInt32.ofNat BUFFER_SIZE).toNat = 2 ^ 16 := by decide
  simp only [BUFFER_SIZE] at low
  rw [UInt32.toNat_and, size, UInt32.toNat_add, UInt32.toNat_one]
  by_cases last : x.toNat = BUFFER_MASK
  · rw [if_pos last, last]
    decide
  · rw [if_neg last]
    simp only [BUFFER_MASK, BUFFER_SIZE] at last
    rw [Nat.and_two_pow, Nat.testBit_lt_two_pow (by omega)]
    rfl

/-- `Full` is true when `m_head` is 0 and `m_tail` is not at the last cell. -/
theorem full_iff (rep : Represents r q) : r.Full = true ↔ r.m_head.toNat = 0 ∧ q.length < Fifo.capacity := by
  have head := rep.head
  have room := rep.room
  have behind := rep.behind
  have mask := full_mask rep.tail
  unfold Full
  rw [beq_iff_eq, ← UInt32.toNat_inj, mask]
  by_cases last : r.m_tail.toNat = BUFFER_MASK
  · rw [if_pos last]
    simp only [BUFFER_SIZE, BUFFER_MASK, Fifo.capacity] at head room behind last ⊢
    omega
  · rw [if_neg last]
    simp only [BUFFER_SIZE, BUFFER_MASK, Fifo.capacity] at head room behind last ⊢
    omega

theorem space_zero_iff (rep : Represents r q) : r.Space = 0 ↔ q.length = Fifo.capacity := by
  have room := rep.room
  rw [space_eq rep]
  omega

/-- Every `Write` of at least one byte is refused. -/
def Refuses (r : RingBuffer) : Prop := ∀ buff (len : UInt64), 0 < len.toNat → r.Write buff len = some (0, r)

/-- The buffer refuses every byte when it holds as many as it can. -/
theorem refuses_iff (rep : Represents r q) : r.Refuses ↔ q.length = Fifo.capacity := by
  have room := rep.room
  constructor
  · intro refuses
    by_cases filled : q.length = Fifo.capacity
    · exact filled
    · obtain ⟨after, written, -, -⟩ := write_represents rep (fun _ => 0) 1
      have one : (1 : UInt64).toNat = 1 := by decide
      rw [refuses _ 1 (by decide), one, Fifo.write, if_pos (by simp only [List.length_map, List.length_range]; omega)]
        at written
      simp at written
  · intro filled buff len positive
    obtain ⟨after, written, -, refused⟩ := write_represents rep buff len
    rw [refused (by omega), Fifo.write, if_neg (by simp only [List.length_map, List.length_range]; omega)] at written
    exact written

/-- What `Full` is for. -/
structure FullAgrees (r : RingBuffer) : Prop where
  space : r.Full = true ↔ r.Space = 0
  refuses : r.Full = true ↔ r.Refuses
  apart : ¬ (r.Full = true ∧ r.Empty = true)

/-- `Full` agrees with `Space` in the states whose `m_head` has left the first cell
    and that are not full: it never reports a full buffer. -/
theorem full_exact (ops : List Op) : ∃ r replies q, Initialize.run ops = some (replies, r) ∧
    Fifo.run [] ops = (replies, q) ∧ Represents r q ∧
    (r.FullAgrees ↔ r.m_head.toNat ≠ 0 ∧ q.length < Fifo.capacity) := by
  obtain ⟨r, executed, rep⟩ := run_represents represents_initialize ops
  refine ⟨r, _, _, executed, rfl, rep, ?_⟩
  have room := rep.room
  constructor
  · intro agrees
    have space := agrees.space
    rw [full_iff rep, space_zero_iff rep] at space
    omega
  · intro ⟨moved, free⟩
    have unfilled : ¬ r.Full = true := fun full => moved ((full_iff rep).mp full).1
    refine ⟨iff_of_false unfilled ?_, iff_of_false unfilled ?_, fun both => unfilled both.1⟩
    · rw [space_zero_iff rep]
      omega
    · rw [refuses_iff rep]
      omega

/-- A new buffer is both empty and full. -/
theorem full_initialize : Initialize.run [] = some ([], Initialize) ∧ Initialize.Full = true ∧
    Initialize.Empty = true ∧ Initialize.Space = 65535 := by
  refine ⟨rfl, ?_, ?_, ?_⟩
  · exact (full_iff represents_initialize).mpr ⟨rfl, by decide⟩
  · exact (empty_iff represents_initialize).mpr rfl
  · exact space_eq represents_initialize

end Canna.RingBuffer
