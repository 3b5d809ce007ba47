import Canna.Events
import Canna.Retention

/-!
# The sizes of reads

`forward_message_tcp` reads as many bytes as the `size` of the slot says, which it
doubles and halves. Only reads change it (`Retains`): neither `initialize` nor
`new_socket` sets it, so that the first read of a slot uses what was in memory. From
there on it stays 64 times a power of two, if it was so and no read fills a block of
`2 ^ 30` bytes, of which the double is no `int` (`sizes_iff`).
-/
namespace Canna.Poll
open Canna.Sockets Canna.SocketServer Canna.ControlPipe Canna.Lts
open Canna.ControlPipe.Request

/-- `MIN_READ_BUFFER` times a power of two, as an `int`. -/
def Sized (size : Int) : Prop := ∃ i ≤ 24, size = MIN_READ_BUFFER * 2 ^ i

theorem Sized.bounds {size : Int} (sized : Sized size) : MIN_READ_BUFFER ≤ size ∧ 0 < size := by
  obtain ⟨i, -, rfl⟩ := sized
  have positive : (0 : Int) < 2 ^ i := Int.pow_pos (by decide)
  simp only [MIN_READ_BUFFER]
  omega

/-- The size of the next read after one of `n` bytes. -/
theorem Sized.resize {size : Int} {n : Nat} (sized : Sized size) (fine : ¬ (size = 2 ^ 30 ∧ n = 2 ^ 30)) :
    Sized (resize size n) := by
  obtain ⟨i, small, rfl⟩ := sized
  have positive : (0 : Int) < 2 ^ i := Int.pow_pos (by decide)
  unfold SocketServer.resize
  by_cases filled : (n : Int) = MIN_READ_BUFFER * 2 ^ i
  · rw [if_pos filled]
    by_cases last : i = 24
    · have large : MIN_READ_BUFFER * 2 ^ i = 2 ^ 30 := by rw [last]; decide
      exact absurd ⟨large, by omega⟩ fine
    · -- the double of a smaller block is an `int`
      have bound : (2 : Int) ^ i ≤ 2 ^ 23 := by exact_mod_cast Nat.pow_le_pow_right (by decide) (show i ≤ 23 by omega)
      have fits : cint (MIN_READ_BUFFER * 2 ^ i * 2) = MIN_READ_BUFFER * 2 ^ i * 2 := by
        rw [MIN_READ_BUFFER]
        exact cint_of_small (by omega) (by omega)
      exact ⟨i + 1, by omega, by rw [fits, pow_succ, mul_assoc]⟩
  rw [if_neg filled]
  by_cases sparse : MIN_READ_BUFFER * 2 ^ i > MIN_READ_BUFFER ∧ (n : Int) * 2 < MIN_READ_BUFFER * 2 ^ i
  · rw [if_pos sparse]
    cases i with
    | zero => exact absurd sparse.1 (by decide)
    | succ i => exact ⟨i, by omega, by rw [pow_succ, ← mul_assoc, Int.mul_tdiv_cancel _ (by decide)]⟩
  · rw [if_neg sparse]
    exact ⟨i, small, rfl⟩

/-- A full block of the largest size is doubled to a negative number. -/
example : resize (2 ^ 30) (2 ^ 30) = -2 ^ 31 := by decide +kernel

/-! ### Runs -/

/-- `forward_message_tcp` is about to read from a connected or bound slot. -/
def ReadsFrom (s : Sys) (k : Index) (a : Action) : Prop :=
  s.pc = .picking ∧ (∃ o, a = .dispatch o) ∧
    ∃ e, s.server.ev[s.server.event_index]? = some e ∧ e.s = some k ∧ Forwards s.server k e ∧
      ((s.server.slot k).type = .CONNECTED ∨ (s.server.slot k).type = .BIND)

/-- A read from the slot fills a block whose double is no `int`. -/
def Overfills (s : Sys) (k : Index) (a : Action) : Prop :=
  (s.server.slot k).size = 2 ^ 30 ∧ s.reads k a = some (2 ^ 30)

section
variable {s t : Sys} {k : Index} {a : Action}

theorem sized_step (fine : ¬ Overfills s k a) (before : Sized (s.server.slot k).size) (stepped : step s a = .ok t) :
    Sized (t.server.slot k).size := by
  have size := (step_retains stepped k).size
  cases read : s.reads k a with
  | none =>
    rw [read] at size
    change (t.server.slot k).size = (s.server.slot k).size at size
    rwa [size]
  | some n =>
    rw [read] at size
    change (t.server.slot k).size = resize (s.server.slot k).size n at size
    rw [size]
    refine before.resize ?_
    rintro ⟨large, filled⟩
    exact fine ⟨large, by rw [read, filled]⟩

end

/-! ### A first read -/

section
variable {alloc_id : Int} {k : Index} {id : Int}

/-- The steps of `reading` lead to an event of the slot of the next number drawn. -/
theorem reading_executes (memory : Index → Socket) (result : Message) (rest : List Client)
    (drawn : cint (alloc_id + 1) = id) (valid : ¬ id < 0) (home : HASH_ID id = k) :
    ∃ t, exec step (parked (initial memory 0 result) alloc_id rest) reading = .ok t ∧ t.pc = .picking ∧
      t.server.ev = [⟨some k, true, false⟩] ∧ t.server.event_index = 0 ∧ (t.server.slot k).type = .BIND ∧
      (t.server.slot k).protocol = PROTOCOL_TCP ∧ (t.server.slot k).size = (memory k).size := by
  simp [exec, step, reading, opening, binding, parked, initial, initialize_server, Sys.client, ApiCall.start,
    Client.advance, drawn, valid, home, reserve, Reserving.request, ctrl_cmd, bind_socket, new_socket, Kernel.add,
    Sys.handled, proceed, SOCKET_OPEN, SOCKET_CLOSE, SOCKET_ERROR, clear_closed_event, Poll.wait, Kernel.event,
    Server.event_n, MAX_EVENT, bind, Except.bind, pure, Except.pure]

/-- An event of a bound slot, when nothing can be read. -/
theorem dispatch_executes {s : Sys} (picking : s.pc = .picking) (ev : s.server.ev = [⟨some k, true, false⟩])
    (index : s.server.event_index = 0) (type : (s.server.slot k).type = .BIND)
    (protocol : (s.server.slot k).protocol = PROTOCOL_TCP) : ∃ t, step s (.dispatch {}) = .ok t := by
  simp [step, picking, Poll.dispatch, ev, index, serve, type, ready, read_half, protocol, forward_message_tcp, bind,
    Except.bind, pure, Except.pure]

theorem reads_undispatched {s : Sys} {a : Action} (other : ∀ o, a ≠ .dispatch o) : s.reads k a = none := by
  cases a with
  | dispatch o => exact absurd rfl (other o)
  | _ => rfl

theorem reading_undispatched : ∀ a ∈ reading, ∀ o, a ≠ .dispatch o := by
  simp [reading, opening, binding]

/-- Every slot can be read from, first as it was in memory. -/
theorem first_read (memory : Index → Socket) (k : Index) (result : Message) :
    ∃ ms t, SysRun (initial memory 0 result) ms t ∧ (∀ m ∈ ms, ¬ Overfills m.pre k m.act) ∧
      ∃ m ∈ ms, ReadsFrom m.pre k m.act ∧ (m.pre.server.slot k).size = (memory k).size := by
  have low : k.val < 65536 := k.isLt
  -- calls that get no further than their numbers leave slot `k` to the next one
  obtain ⟨front, rest, counted, silent⟩ := draws (k.val + 65534) (initial memory 0 result)
    (by simp only [initial]; omega)
  have start : (initial memory 0 result).server.alloc_id + ((k.val + 65534 : Nat) + 1) = k.val + 65535 := by
    simp only [initial]
    omega
  have drawn : cint ((k.val : Int) + 65535 + 1) = k.val + 65536 := by
    rw [cint_of_small (by omega) (by omega)]
    omega
  have home : HASH_ID (k.val + 65536) = k := by
    apply Fin.ext
    simp only [HASH_ID]
    omega
  rw [start] at counted
  obtain ⟨s, executed, picking, ev, index, type, protocol, size⟩ :=
    reading_executes memory result rest drawn (by omega) home
  obtain ⟨t, dispatched⟩ := dispatch_executes picking ev index type protocol
  have run := (counted.append (run_of_exec step executed)).append (.single dispatched)
  refine ⟨_, t, run, ?_, ⟨s, .dispatch {}, t⟩, by simp, ?_, size⟩
  · intro m member overfills
    have quiet : m.pre.reads k m.act = none := by
      rcases List.mem_append.mp member with early | last
      · rcases List.mem_append.mp early with first | second
        · exact reads_undispatched (silent m first)
        · exact reads_undispatched (reading_undispatched _ (act_of_moves step second))
      · rw [List.mem_singleton.mp last]
        simp [Sys.reads, ev, index, readBy, readOf]
    rw [overfills.2] at quiet
    cases quiet
  · refine ⟨picking, ⟨_, rfl⟩, ⟨some k, true, false⟩, by simp [ev, index], rfl, ?_, .inr type⟩
    exact ⟨by simp [type], by simp [type], by simp [type], rfl, protocol⟩

end

/-- What was in memory decides: the size of a slot is 64 times a power of two at every
    read from a connection in it, in all runs from `initialize` in which no read fills a
    block of `2 ^ 30` bytes, if and only if it was so before. -/
theorem sizes_iff (memory : Index → Socket) (k : Index) :
    (∀ result ms t, SysRun (initial memory 0 result) ms t → (∀ m ∈ ms, ¬ Overfills m.pre k m.act) →
      ∀ m ∈ ms, ReadsFrom m.pre k m.act → Sized (m.pre.server.slot k).size) ↔ Sized (memory k).size := by
  constructor
  · intro always
    obtain ⟨ms, t, run, fine, m, member, reads, size⟩ := first_read memory k ⟨0, 0, 0, .nullptr⟩
    rw [← size]
    exact always _ ms t run fine m member reads
  · intro start result ms t run fine m member _
    exact ((run.invariant (I := fun s => Sized (s.server.slot k).size) (C := fun s a => ¬ Overfills s k a)
      (fun _ _ _ => sized_step) start fine).1 m member).1

/-- A server whose memory was zeroed reads 0 bytes. -/
theorem zeroed_read : ∃ ms t, SysRun zeroed ms t ∧ (∀ m ∈ ms, ¬ Overfills m.pre 1 m.act) ∧
    ∃ m ∈ ms, ReadsFrom m.pre 1 m.act ∧ (m.pre.server.slot 1).size = 0 ∧ ¬ Sized 0 := by
  obtain ⟨ms, t, run, fine, m, member, reads, size⟩ :=
    first_read (fun _ => ⟨0, .wb_clear, .wb_clear, 0, 0, 0, 0, .INVALID, 0⟩) 1 ⟨0, 0, 0, .nullptr⟩
  exact ⟨ms, t, run, fine, m, member, reads, size, fun sized => absurd sized.bounds.2 (by decide)⟩

end Canna.Poll
