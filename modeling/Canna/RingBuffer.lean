import Canna.Bytes
import Canna.Circular
import Mathlib.Data.UInt

/-!
# The ring buffer

`RingBuffer` of `core/ringbuffer.cpp`: a byte queue in an array of `BUFFER_SIZE`
cells with 32-bit indices, of which `m_tail = m_head` means empty. The unread
bytes are the circular window from `m_head` on (`Represents`). Against the
bounded queue `Fifo`, every call of `Write` and `Read` behaves as the queue does
(`write_represents`, `read_represents`), and so does every run (`run_refines`).
-/
namespace Canna
open Canna.Circular

/-- `BUFFER_SIZE`, the macro `8192*8`. -/
def BUFFER_SIZE : Nat := 8192 * 8
/-- `BUFFER_MASK`, the macro `(BUFFER_SIZE - 1)`. -/
def BUFFER_MASK : Nat := BUFFER_SIZE - 1

instance : NeZero BUFFER_SIZE := ⟨by decide⟩

/-- The class `RingBuffer`. -/
structure RingBuffer where
  m_buffer : Fin BUFFER_SIZE → Byte
  m_head : UInt32
  m_tail : UInt32

namespace RingBuffer

def Initialize : RingBuffer where
  m_buffer := fun _ => 0
  m_head := 0
  m_tail := 0

def Empty (r : RingBuffer) : Bool := r.m_head == r.m_tail

/-- `Full()`: the mask of the source is `BUFFER_SIZE`, not `BUFFER_MASK`. -/
def Full (r : RingBuffer) : Bool := ((r.m_tail + 1) &&& UInt32.ofNat BUFFER_SIZE) == r.m_head

/-- `Available()`: unsigned differences, returned as `int`. -/
def Available (r : RingBuffer) : Int :=
  (if r.m_tail ≥ r.m_head then r.m_tail - r.m_head
    else r.m_tail - r.m_head + UInt32.ofNat BUFFER_SIZE).toBitVec.toInt

def Space (r : RingBuffer) : Int := BUFFER_SIZE - r.Available - 1

/-- `Write(buff, len)`: the value returned and the buffer afterwards, `none` when
    a `memcpy` leaves `m_buffer`. -/
def Write (r : RingBuffer) (buff : Nat → Byte) (len : UInt64) : Option (Int × RingBuffer) :=
  if ulong r.Space < len.toNat then some (0, r)
  else
    let rest := (UInt32.ofNat BUFFER_SIZE - r.m_tail).toNat
    let copied :=
      if rest ≥ len.toNat then copyInto r.m_buffer r.m_tail.toNat buff len.toNat
      else (copyInto r.m_buffer r.m_tail.toNat buff rest).bind fun m_buffer =>
        copyInto m_buffer 0 (fun i => buff (rest + i)) (len.toNat - rest)
    copied.map fun m_buffer =>
      (len.toBitVec.toInt,
        { r with
          m_buffer := m_buffer
          m_tail := ((r.m_tail.toUInt64 + len) &&& UInt64.ofNat BUFFER_MASK).toUInt32 })

/-- `Read(buff, len)`: the value returned, the bytes put into `buff` and the
    buffer afterwards, `none` when a `memcpy` leaves `m_buffer`. -/
def Read (r : RingBuffer) (len : UInt64) : Option (Int × List Byte × RingBuffer) :=
  if ulong r.Available < len.toNat then some (0, [], r)
  else
    let rest := (UInt32.ofNat BUFFER_SIZE - r.m_head).toNat
    let copied :=
      if rest ≥ len.toNat then copyOut r.m_buffer r.m_head.toNat len.toNat
      else (copyOut r.m_buffer r.m_head.toNat rest).bind fun first =>
        (copyOut r.m_buffer 0 (len.toNat - rest)).map fun second => first ++ second
    copied.map fun bytes =>
      (len.toBitVec.toInt, bytes,
        { r with m_head := ((r.m_head.toUInt64 + len) &&& UInt64.ofNat BUFFER_MASK).toUInt32 })

/-- `GetSize()`: the big-endian package size in the first two unread bytes. The
    second index is masked; the first one is `m_head` itself. -/
def GetSize (r : RingBuffer) : Int :=
  if r.Available < 2 then 0
  else
    let high := r.m_buffer (cell r.m_head.toNat)
    let low := r.m_buffer (cell ((r.m_head + 1) &&& UInt32.ofNat BUFFER_MASK).toNat)
    ((high.toNat <<< 8) ||| low.toNat : Nat)

def IsComplete (r : RingBuffer) : Bool := decide (r.Available ≥ r.GetSize)

/-! ### The bounded queue -/

/-- What the buffer is for: a first-in first-out queue of at most `capacity` bytes. -/
abbrev Fifo := List Byte

namespace Fifo

def capacity : Nat := 65535

/-- Appends all the bytes, or refuses them all. -/
def write (q : Fifo) (bytes : List Byte) : Int × Fifo :=
  if bytes.length ≤ capacity - q.length then (bytes.length, q ++ bytes) else (0, q)

/-- Delivers the first `len` bytes, or refuses. -/
def read (q : Fifo) (len : Nat) : Int × List Byte × Fifo :=
  if len ≤ q.length then (len, q.take len, q.drop len) else (0, [], q)

/-- The big-endian number in the first two bytes. -/
def size : Fifo → Int
  | high :: low :: _ => 256 * high.toNat + low.toNat
  | _ => 0

end Fifo

/-- The buffer holds the queue: its indices are in range and its unread cells,
    read circularly from `m_head`, are the bytes of the queue. -/
structure Represents (r : RingBuffer) (q : Fifo) : Prop where
  head : r.m_head.toNat < BUFFER_SIZE
  tail : r.m_tail.toNat < BUFFER_SIZE
  room : q.length ≤ Fifo.capacity
  behind : r.m_tail.toNat = (r.m_head.toNat + q.length) % BUFFER_SIZE
  bytes : window r.m_buffer r.m_head.toNat q.length = q

/-! ### Runs -/

/-- A call of `Write` or `Read`. -/
inductive Op
  | write (buff : Nat → Byte) (len : UInt64)
  | read (len : UInt64)

/-- The value a call returns and the bytes it delivers. -/
abbrev Reply := Int × List Byte

def call (r : RingBuffer) : Op → Option (Reply × RingBuffer)
  | .write buff len => (r.Write buff len).map fun (value, after) => ((value, []), after)
  | .read len => (r.Read len).map fun (value, bytes, after) => ((value, bytes), after)

/-- The replies of a sequence of calls and the buffer afterwards. -/
def run (r : RingBuffer) : List Op → Option (List Reply × RingBuffer)
  | [] => some ([], r)
  | op :: ops => (r.call op).bind fun (reply, next) =>
      (next.run ops).map fun (replies, after) => (reply :: replies, after)

def Fifo.call (q : Fifo) : Op → Reply × Fifo
  | .write buff len =>
    let (value, after) := q.write ((List.range len.toNat).map buff)
    ((value, []), after)
  | .read len =>
    let (value, bytes, after) := q.read len.toNat
    ((value, bytes), after)

/-- The replies of the queue to a sequence of calls and the bytes then unread. -/
def Fifo.run (q : Fifo) : List Op → List Reply × Fifo
  | [] => ([], q)
  | op :: ops =>
    let (reply, next) := q.call op
    let (replies, after) := next.run ops
    (reply :: replies, after)

/-! ### Machine arithmetic -/

theorem toInt_of_small {x : UInt32} {n : Nat} (value : x.toNat = n) (small : n < 2 ^ 31) :
    x.toBitVec.toInt = n := by
  have natural : x.toBitVec.toNat = n := value
  rw [BitVec.toInt_eq_toNat_of_lt (by omega), natural]

theorem toInt_of_small64 {x : UInt64} (small : x.toNat < 2 ^ 63) : x.toBitVec.toInt = x.toNat := by
  have natural : x.toBitVec.toNat = x.toNat := rfl
  rw [BitVec.toInt_eq_toNat_of_lt (by omega), natural]

/-- The masked index of the source is the sum modulo `BUFFER_SIZE`. -/
theorem masked {x : UInt32} {y : UInt64} :
    ((x.toUInt64 + y) &&& UInt64.ofNat BUFFER_MASK).toUInt32.toNat = (x.toNat + y.toNat) % BUFFER_SIZE := by
  have size : BUFFER_SIZE = 2 ^ 16 := by decide
  have mask : (UInt64.ofNat BUFFER_MASK).toNat = 2 ^ 16 - 1 := by decide
  rw [UInt64.toNat_toUInt32, UInt64.toNat_and, mask, Nat.and_two_pow_sub_one_eq_mod, UInt64.toNat_add,
    UInt32.toNat_toUInt64, size]
  omega

theorem rest_val {x : UInt32} (low : x.toNat < BUFFER_SIZE) :
    (UInt32.ofNat BUFFER_SIZE - x).toNat = BUFFER_SIZE - x.toNat := by
  have size : (UInt32.ofNat BUFFER_SIZE).toNat = BUFFER_SIZE := by decide
  rw [UInt32.toNat_sub_of_le _ _ (UInt32.le_iff_toNat_le.mpr (by omega)), size]

/-! ### One call -/

variable {r : RingBuffer} {q : Fifo}

theorem represents_initialize : Represents Initialize [] where
  head := by decide
  tail := by decide
  room := by decide
  behind := by decide
  bytes := rfl

theorem available_eq (rep : Represents r q) : r.Available = q.length := by
  have head := rep.head
  have tail := rep.tail
  have room := rep.room
  have behind := rep.behind
  simp only [BUFFER_SIZE, Fifo.capacity] at head tail room behind
  unfold Available
  apply toInt_of_small ?_ (by omega)
  by_cases ordered : r.m_tail ≥ r.m_head
  · have inOrder : r.m_head.toNat ≤ r.m_tail.toNat := UInt32.le_iff_toNat_le.mp ordered
    rw [if_pos ordered, UInt32.toNat_sub_of_le _ _ ordered]
    omega
  · have wrapped : r.m_tail.toNat < r.m_head.toNat := Nat.lt_of_not_le (mt UInt32.le_iff_toNat_le.mpr ordered)
    have size : (UInt32.ofNat BUFFER_SIZE).toNat = 65536 := by decide
    rw [if_neg ordered, UInt32.toNat_add, UInt32.toNat_sub, size]
    omega

theorem space_eq (rep : Represents r q) : r.Space = (Fifo.capacity - q.length : Nat) := by
  have room := rep.room
  unfold Space
  rw [available_eq rep]
  simp only [BUFFER_SIZE, Fifo.capacity] at room ⊢
  omega

theorem empty_iff (rep : Represents r q) : r.Empty = true ↔ q = [] := by
  have head := rep.head
  have room := rep.room
  have behind := rep.behind
  simp only [BUFFER_SIZE, Fifo.capacity] at head room behind
  rw [Empty, beq_iff_eq, ← UInt32.toNat_inj, ← List.length_eq_zero_iff]
  constructor
  · intro same; omega
  · intro none; omega

theorem getSize_eq (rep : Represents r q) : r.GetSize = q.size := by
  unfold GetSize
  rw [available_eq rep]
  rcases q with _ | ⟨high, _ | ⟨low, rest⟩⟩
  · rfl
  · rfl
  · have inside : ¬ ((high :: low :: rest).length : Int) < 2 := by simp only [List.length_cons]; omega
    rw [if_neg inside]
    have first := window_getElem? r.m_buffer r.m_head.toNat (high :: low :: rest).length 0 (by simp)
    have second := window_getElem? r.m_buffer r.m_head.toNat (high :: low :: rest).length 1 (by simp)
    rw [rep.bytes] at first second
    have head : r.m_buffer (cell r.m_head.toNat) = high := by simpa using first.symm
    have next : ((r.m_head + 1) &&& UInt32.ofNat BUFFER_MASK).toNat = (r.m_head.toNat + 1) % BUFFER_SIZE := by
      have bound := rep.head
      have size : BUFFER_SIZE = 2 ^ 16 := by decide
      have mask : (UInt32.ofNat BUFFER_MASK).toNat = 2 ^ 16 - 1 := by decide
      rw [UInt32.toNat_and, mask, Nat.and_two_pow_sub_one_eq_mod, UInt32.toNat_add, UInt32.toNat_one, size]
      omega
    have behind : r.m_buffer (cell ((r.m_head + 1) &&& UInt32.ofNat BUFFER_MASK).toNat) = low := by
      rw [next, cell_mod]
      simpa using second.symm
    have split : (high.toNat <<< 8) ||| low.toNat = 256 * high.toNat + low.toNat := by
      rw [← Nat.shiftLeft_add_eq_or_of_lt (show low.toNat < 2 ^ 8 from low.toNat_lt), Nat.shiftLeft_eq]
      omega
    simp only [head, behind, split, Fifo.size]
    push_cast
    rfl

/-- `Write` is the write of the queue; a refused one changes nothing. -/
theorem write_represents (rep : Represents r q) (buff : Nat → Byte) (len : UInt64) :
    ∃ after, r.Write buff len = some ((q.write ((List.range len.toNat).map buff)).1, after) ∧
      Represents after (q.write ((List.range len.toNat).map buff)).2 ∧
      (Fifo.capacity - q.length < len.toNat → after = r) := by
  have room := rep.room
  have small : Fifo.capacity - q.length < 2 ^ 64 := by simp only [Fifo.capacity]; omega
  by_cases fits : len.toNat ≤ Fifo.capacity - q.length
  · have accepted : ¬ ulong r.Space < len.toNat := by
      rw [space_eq rep, ulong_of_nat small]; omega
    have within : q.length + len.toNat ≤ BUFFER_SIZE := by
      simp only [BUFFER_SIZE, Fifo.capacity] at room fits ⊢; omega
    have short : len.toNat < 2 ^ 63 := by simp only [Fifo.capacity] at fits; omega
    have copied := copyInto_store r.m_buffer buff len.toNat rep.tail (rest_val rep.tail) (by omega)
    have written : q.write ((List.range len.toNat).map buff) =
        ((len.toNat : Int), q ++ (List.range len.toNat).map buff) := by
      simp [Fifo.write, fits]
    rw [written]
    refine ⟨{ r with
      m_buffer := store r.m_buffer r.m_tail.toNat buff len.toNat
      m_tail := ((r.m_tail.toUInt64 + len) &&& UInt64.ofNat BUFFER_MASK).toUInt32 }, ?_, ?_,
      fun refused => absurd fits (by omega)⟩
    · simp only [Write, if_neg accepted, copied, Option.map_some, toInt_of_small64 short]
    · have tail := masked (x := r.m_tail) (y := len)
      refine ⟨rep.head, ?_, ?_, ?_, ?_⟩
      · simp only [tail]; exact Nat.mod_lt _ (by decide)
      · simp only [List.length_append, List.length_map, List.length_range]; omega
      · simp only [tail, rep.behind, Nat.mod_add_mod, List.length_append, List.length_map, List.length_range,
          Nat.add_assoc]
      · simp only [rep.behind, store_pos_mod, List.length_append, List.length_map, List.length_range]
        rw [window_store r.m_buffer r.m_head.toNat q.length buff len.toNat within, rep.bytes]
  · have refused : ulong r.Space < len.toNat := by
      rw [space_eq rep, ulong_of_nat small]; omega
    have unchanged : q.write ((List.range len.toNat).map buff) = (0, q) := by
      simp [Fifo.write, fits]
    rw [unchanged]
    exact ⟨r, by simp only [Write, if_pos refused], rep, fun _ => rfl⟩

/-- `Read` is the read of the queue; a refused one changes nothing. -/
theorem read_represents (rep : Represents r q) (len : UInt64) :
    ∃ after, r.Read len = some ((q.read len.toNat).1, (q.read len.toNat).2.1, after) ∧
      Represents after (q.read len.toNat).2.2 ∧ (q.length < len.toNat → after = r) := by
  have room := rep.room
  have small : q.length < 2 ^ 64 := by simp only [Fifo.capacity] at room; omega
  by_cases fits : len.toNat ≤ q.length
  · have accepted : ¬ ulong r.Available < len.toNat := by
      rw [available_eq rep, ulong_of_nat small]; omega
    have within : len.toNat ≤ BUFFER_SIZE := by
      simp only [BUFFER_SIZE, Fifo.capacity] at room ⊢; omega
    have short : len.toNat < 2 ^ 63 := by simp only [Fifo.capacity] at room; omega
    have copied := copyOut_window r.m_buffer len.toNat rep.head (rest_val rep.head) within
    have front : window r.m_buffer r.m_head.toNat len.toNat = q.take len.toNat := by
      conv_rhs => rw [← rep.bytes]
      rw [window_take r.m_buffer r.m_head.toNat fits]
    have delivered : q.read len.toNat = ((len.toNat : Int), q.take len.toNat, q.drop len.toNat) := by
      simp [Fifo.read, fits]
    rw [delivered]
    refine ⟨{ r with m_head := ((r.m_head.toUInt64 + len) &&& UInt64.ofNat BUFFER_MASK).toUInt32 }, ?_, ?_,
      fun refused => absurd fits (by omega)⟩
    · simp only [Read, if_neg accepted, copied, Option.map_some, toInt_of_small64 short, front]
    · have head := masked (x := r.m_head) (y := len)
      refine ⟨?_, rep.tail, ?_, ?_, ?_⟩
      · simp only [head]; exact Nat.mod_lt _ (by decide)
      · simp only [List.length_drop]; omega
      · have whole : len.toNat + (q.length - len.toNat) = q.length := by omega
        simp only [head, rep.behind, Nat.mod_add_mod, List.length_drop, Nat.add_assoc, whole]
      · simp only [head, List.length_drop, window_head_mod]
        conv_rhs => rw [← rep.bytes]
        rw [window_drop r.m_buffer r.m_head.toNat fits]
  · have refused : ulong r.Available < len.toNat := by
      rw [available_eq rep, ulong_of_nat small]; omega
    have unchanged : q.read len.toNat = (0, [], q) := by
      simp [Fifo.read, fits]
    rw [unchanged]
    exact ⟨r, by simp only [Read, if_pos refused], rep, fun _ => rfl⟩

theorem call_represents (rep : Represents r q) (op : Op) :
    ∃ after, r.call op = some ((q.call op).1, after) ∧ Represents after (q.call op).2 := by
  cases op with
  | write buff len =>
    obtain ⟨after, executed, represented, _⟩ := write_represents rep buff len
    exact ⟨after, by simp [call, Fifo.call, executed], represented⟩
  | read len =>
    obtain ⟨after, executed, represented, _⟩ := read_represents rep len
    exact ⟨after, by simp [call, Fifo.call, executed], represented⟩

theorem run_represents (rep : Represents r q) (ops : List Op) :
    ∃ after, r.run ops = some ((q.run ops).1, after) ∧ Represents after (q.run ops).2 := by
  induction ops generalizing r q with
  | nil => exact ⟨r, rfl, rep⟩
  | cons op ops ih =>
    obtain ⟨next, executed, represented⟩ := call_represents rep op
    obtain ⟨after, rest, last⟩ := ih represented
    exact ⟨after, by simp [run, Fifo.run, executed, rest], last⟩

/-- The buffer refines the bounded queue. Along every run from `Initialize()` no
    `memcpy` leaves the array and the replies are those of the queue; in the state
    reached, with the bytes `q` unread, the indices are in range, `Write` and
    `Read` accept exactly what fits and change nothing otherwise, and the queries
    report the queue. -/
theorem run_refines (ops : List Op) :
    ∃ r replies q, Initialize.run ops = some (replies, r) ∧ Fifo.run [] ops = (replies, q) ∧
      r.m_head.toNat < BUFFER_SIZE ∧ r.m_tail.toNat < BUFFER_SIZE ∧ Represents r q ∧
      (∀ buff len, if len.toNat ≤ 65535 - q.length
        then ∃ after, r.Write buff len = some ((len.toNat : Int), after) ∧
          Represents after (q ++ (List.range len.toNat).map buff)
        else r.Write buff len = some (0, r)) ∧
      (∀ len, if len.toNat ≤ q.length
        then ∃ after, r.Read len = some ((len.toNat : Int), q.take len.toNat, after) ∧
          Represents after (q.drop len.toNat)
        else r.Read len = some (0, [], r)) ∧
      r.Available = q.length ∧ r.Space = 65535 - (q.length : Int) ∧ (r.Empty = true ↔ q = []) ∧
      r.GetSize = q.size := by
  obtain ⟨r, executed, rep⟩ := run_represents represents_initialize ops
  generalize Fifo.run [] ops = ran at executed rep ⊢
  obtain ⟨replies, q⟩ := ran
  change Represents r q at rep
  refine ⟨r, replies, q, executed, rfl, rep.head, rep.tail, rep, ?_, ?_, available_eq rep, ?_, empty_iff rep,
    getSize_eq rep⟩
  · intro buff len
    obtain ⟨after, written, represented, refused⟩ := write_represents rep buff len
    by_cases fits : len.toNat ≤ 65535 - q.length
    · rw [if_pos fits]
      exact ⟨after, by simp [written, Fifo.write, Fifo.capacity, fits],
        by simpa [Fifo.write, Fifo.capacity, fits] using represented⟩
    · rw [if_neg fits, written, refused (by simp only [Fifo.capacity]; omega)]
      simp [Fifo.write, Fifo.capacity, fits]
  · intro len
    obtain ⟨after, delivered, represented, refused⟩ := read_represents rep len
    by_cases fits : len.toNat ≤ q.length
    · rw [if_pos fits]
      exact ⟨after, by simp [delivered, Fifo.read, fits], by simpa [Fifo.read, fits] using represented⟩
    · rw [if_neg fits, delivered, refused (by omega)]
      simp [Fifo.read, fits]
  · have room := rep.room
    rw [space_eq rep]
    simp only [Fifo.capacity] at room ⊢
    omega

end RingBuffer

end Canna
