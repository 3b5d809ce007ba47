import Canna.Effects
import Canna.Lts

/-!
# The bytes of a connection

The send requests of one connected slot, in any order with its write events. Of the
bytes of a request, `send_socket` keeps none that the kernel does not take at once:
it only asks for a write event, and the queues that such an event would send are
never filled. So the bytes taken and those queued are the bytes of the requests, in
order, exactly as long as the kernel takes each request whole (`conserved_iff`).
-/
namespace Canna.SendQueue
open Canna.Sockets Canna.SocketServer Canna.ControlPipe Canna.Lts

/-- A server with the message `poll` was called with, and the bytes of the requests
    handled so far for the slot, after those it had to send before. -/
structure State where
  server : Server
  result : Message
  requested : List Byte

/-- A send request with its bytes, or a write event of the slot. -/
inductive Action
  | send (buffer : List Byte) (o : Outcome)
  | writable (o : Outcome)

/-- Handles one of them, for the slot of the id; it is disabled where that closes the
    socket. -/
def step (id : Int) (s : State) : Action → Except Halt State
  | .send buffer o => do
    let r ← send_socket s.server id buffer.length buffer s.result o
    if r.type = -1 then return { s with server := r.server, requested := s.requested ++ buffer }
    else .error .disabled
  | .writable o => do
    let r ← send_buffer s.server (HASH_ID id) s.result o.writes
    if r.type = -1 then return { s with server := r.server }
    else .error .disabled

/-- The slot of the id holds its connection. -/
structure Connected (id : Int) (s : State) : Prop where
  type : (s.server.slot (HASH_ID id)).type = .CONNECTED
  protocol : (s.server.slot (HASH_ID id)).protocol = PROTOCOL_TCP
  own : (s.server.slot (HASH_ID id)).id = id

/-- What the kernel has taken, followed by what is queued, is what was requested. -/
def Conserved (id : Int) (s : State) : Prop :=
  let x := s.server.slot (HASH_ID id)
  s.server.kernel.written x.fd ++ (x.high.pending ++ x.low.pending) = s.requested

/-- The kernel takes the bytes of a request whole, if there are any. -/
def Whole (id : Int) (s : State) : Action → Prop
  | .send buffer o => buffer = [] ∨ send_buffer_empty (s.server.slot (HASH_ID id)) = true ∧
      ∃ n, o.writes.head? = some (.accepted n) ∧ buffer.length ≤ n
  | .writable _ => True

section
variable {id : Int} {s t : State}

/-- What a step leaves to the slot: all of it, and of a request's bytes those that
    the kernel took. -/
structure Sent (id : Int) (s : State) (bytes requested : List Byte) (t : State) : Prop where
  slot : t.server.slot = s.server.slot
  written : t.server.kernel.written (s.server.slot (HASH_ID id)).fd =
    s.server.kernel.written (s.server.slot (HASH_ID id)).fd ++ bytes
  requested : t.requested = s.requested ++ requested

theorem Sent.connected {bytes requested : List Byte} (sent : Sent id s bytes requested t) (connected : Connected id s) :
    Connected id t := by
  obtain ⟨type, protocol, own⟩ := connected
  constructor <;> rw [sent.slot] <;> assumption

/-- With nothing queued, the bytes are conserved exactly when the kernel took them all. -/
theorem Sent.conserved {bytes requested : List Byte} (sent : Sent id s bytes requested t)
    (empty : send_buffer_empty (s.server.slot (HASH_ID id)) = true) (before : Conserved id s) :
    Conserved id t ↔ bytes = requested := by
  simp only [send_buffer_empty, Bool.and_eq_true, List.isEmpty_iff] at empty
  simp only [Conserved, WbList.pending, empty.1, empty.2, List.flatMap_nil, List.append_nil] at before
  simp only [Conserved, sent.slot, sent.written, sent.requested, WbList.pending, empty.1, empty.2, List.flatMap_nil,
    List.append_nil, before]
  exact List.append_right_inj _

/-- Where the kernel took nothing, they are conserved exactly when none were requested. -/
theorem Sent.idle {requested : List Byte} (sent : Sent id s [] requested t) (before : Conserved id s) :
    Conserved id t ↔ requested = [] := by
  simp only [Conserved, sent.slot, sent.written, sent.requested, List.append_nil]
  rw [before]
  exact List.self_eq_append_right

/-- What the kernel takes of a request at once. -/
def taken (buffer : List Byte) (o : Outcome) : List Byte :=
  match o.writes.head? with
  | some (.accepted n) => buffer.take n
  | _ => []

theorem taken_accepted {buffer : List Byte} {o : Outcome} {n : Nat} (first : o.writes.head? = some (.accepted n)) :
    taken buffer o = buffer.take n := by
  simp [taken, first]

theorem taken_other {buffer : List Byte} {o : Outcome} (other : ∀ n, o.writes.head? ≠ some (.accepted n)) :
    taken buffer o = [] := by
  rw [taken]
  split
  · exact absurd ‹_› (other _)
  · rfl

theorem taken_eq_iff (buffer : List Byte) (o : Outcome) :
    taken buffer o = buffer ↔ buffer = [] ∨ ∃ n, o.writes.head? = some (.accepted n) ∧ buffer.length ≤ n := by
  by_cases accepts : ∃ n, o.writes.head? = some (.accepted n)
  · obtain ⟨n, first⟩ := accepts
    rw [taken_accepted first, List.take_eq_self_iff]
    constructor
    · intro fits
      exact .inr ⟨n, first, fits⟩
    · rintro (rfl | ⟨m, same, fits⟩)
      · exact Nat.zero_le n
      · rw [first, Option.some.injEq, WriteResult.accepted.injEq] at same
        omega
  · rw [taken_other (not_exists.mp accepts)]
    constructor
    · intro none
      exact .inl none.symm
    · rintro (rfl | ⟨n, first, -⟩)
      · rfl
      · exact absurd ⟨n, first⟩ accepts

/-- A send request with nothing queued sends what the kernel takes at once; otherwise
    it sends nothing. -/
theorem send_sent {buffer : List Byte} {o : Outcome} (connected : Connected id s)
    (stepped : step id s (.send buffer o) = .ok t) :
    Sent id s (if send_buffer_empty (s.server.slot (HASH_ID id)) then taken buffer o else []) buffer t := by
  obtain ⟨type, protocol, own⟩ := connected
  obtain ⟨r, handled, ended⟩ := bind_ok stepped
  by_cases going : r.type = -1
  swap
  · simp only [if_neg going] at ended
    cases ended
  simp only [if_pos going] at ended
  cases ended
  simp only [send_socket, type, own, protocol] at handled
  simp only [reduceCtorEq, ne_eq, not_true_eq_false, or_self, if_false, and_true] at handled
  by_cases empty : send_buffer_empty (s.server.slot (HASH_ID id)) = true
  · rw [if_pos empty] at handled ⊢
    -- without a first outcome `write` would block, which leaves the request as EAGAIN does
    rcases first : o.writes.head? with _ | ⟨n⟩ | _ | _ | _
    case some.accepted =>
      have all : buffer.take (min n (buffer.length : Int).toNat) = buffer.take n := by
        rw [Int.toNat_natCast, ← List.take_eq_take_min]
      rw [taken_accepted first]
      simp only [first, all] at handled
      split at handled <;> cases handled <;> exact ⟨rfl, by simp [Kernel.take, Kernel.write], rfl⟩
    case some.failed =>
      simp only [first] at handled
      obtain ⟨p, -, late⟩ := bind_ok handled
      cases late
      cases going
    all_goals
      rw [taken_other (by simp [first])]
      simp only [first] at handled
      split at handled <;> cases handled <;> exact ⟨rfl, by simp [Kernel.write], rfl⟩
  · rw [if_neg empty] at handled ⊢
    cases handled
    exact ⟨rfl, by simp, rfl⟩

/-- A write event sends nothing. -/
theorem writable_sent {o : Outcome} (connected : Connected id s) (stepped : step id s (.writable o) = .ok t) :
    Sent id s [] [] t := by
  obtain ⟨r, handled, ended⟩ := bind_ok stepped
  split at ended
  swap
  · cases ended
  cases ended
  rw [send_buffer_valid (by rw [connected.type]; decide)] at handled
  split at handled
  · cases handled
  · split at handled
    · simp only [Server.setKernel_slot, connected.type, reduceCtorEq, if_false] at handled
      cases handled
      exact ⟨rfl, by simp [Kernel.write], by simp⟩
    · cases handled
      exact ⟨rfl, by simp, by simp⟩

theorem connected_step {a : Action} (connected : Connected id s) (stepped : step id s a = .ok t) : Connected id t := by
  cases a with
  | send buffer o => exact (send_sent connected stepped).connected connected
  | writable o => exact (writable_sent connected stepped).connected connected

/-- A step conserves the bytes exactly when the kernel takes its request whole. -/
theorem conserved_step {a : Action} (connected : Connected id s) (before : Conserved id s)
    (stepped : step id s a = .ok t) : Conserved id t ↔ Whole id s a := by
  cases a with
  | send buffer o =>
    have sent := send_sent connected stepped
    by_cases empty : send_buffer_empty (s.server.slot (HASH_ID id)) = true
    · rw [if_pos empty] at sent
      rw [sent.conserved empty before, taken_eq_iff]
      simp [Whole, empty]
    · rw [if_neg empty] at sent
      rw [sent.idle before]
      simp [Whole, empty]
  | writable o => exact iff_of_true ((writable_sent connected stepped).idle before |>.mpr rfl) trivial

/-- Along every run of send requests and write events of a connected slot that does not
    close it, the bytes that the kernel has taken and those still queued are those of
    the requests, in order, after every step, if and only if the kernel takes every
    request with bytes whole, while nothing is queued. -/
theorem conserved_iff {ms : List (Move State Action)} (run : Run (Succeeds (step id)) s ms t)
    (connected : Connected id s) (before : Conserved id s) :
    (∀ m ∈ ms, Conserved id m.post) ↔ ∀ m ∈ ms, Whole id m.pre m.act :=
  run.invariant_iff (J := Connected id) (I := Conserved id) (C := Whole id) (fun _ _ _ => connected_step)
    (fun _ _ _ => conserved_step) connected before

end

/-- A connection on descriptor 5 in the slot of id 1, with nothing to send. -/
def idle : State where
  server :=
    { checkctrl := true
      alloc_id := 1
      ev := []
      event_index := 0
      slot := Function.update (fun _ => ⟨0, .wb_clear, .wb_clear, 0, 0, 0, 0, .INVALID, 0⟩) 1
        ⟨0, .wb_clear, .wb_clear, 0, 5, 1, PROTOCOL_TCP, .CONNECTED, MIN_READ_BUFFER⟩
      pipe := []
      kernel :=
        { epoll := Function.update (fun _ => none) 5 (some ⟨1, false⟩)
          opened := Function.update (fun _ => 0) 5 1
          closed := fun _ => 0
          written := fun _ => []
          options := fun _ => [] } }
  result := ⟨0, 0, 0, .nullptr⟩
  requested := []

theorem connected_idle : Connected 1 idle := ⟨by decide +kernel, by decide +kernel, by decide +kernel⟩

theorem conserved_idle : Conserved 1 idle := by rw [Conserved]; decide +kernel

/-- Two requests that the kernel takes whole, with a write event between them. -/
def unbroken : List Action :=
  [.send [1, 2] { writes := [.accepted 2] }, .writable {}, .send [3] { writes := [.accepted 9] }]

theorem conserved_iff_unbroken : (final (step 1) idle unbroken).server.kernel.written 5 = [1, 2, 3] ∧
    ∀ m ∈ moves (step 1) idle unbroken, Conserved 1 m.post := by
  have run := run_final (step 1) (by decide +kernel : (exec (step 1) idle unbroken).isOk = true)
  have empty : ∀ m ∈ moves (step 1) idle unbroken, send_buffer_empty (m.pre.server.slot (HASH_ID 1)) = true := by
    decide +kernel
  have all : ∀ m ∈ moves (step 1) idle unbroken,
      (match m.act with | .send buffer o => taken buffer o == buffer | .writable _ => true) = true := by
    decide +kernel
  refine ⟨by decide +kernel, (conserved_iff run connected_idle conserved_idle).mpr ?_⟩
  intro m member
  have here := all m member
  cases act : m.act with
  | send buffer o =>
    rw [act] at here
    rcases (taken_eq_iff buffer o).mp (beq_iff_eq.mp here) with none | whole
    · exact .inl none
    · exact .inr ⟨empty m member, whole⟩
  | writable o => exact trivial

/-- A request of two bytes, of which the kernel takes one: the other is lost. -/
theorem partial_write_loses : ¬ ∀ id s ms t, Run (Succeeds (step id)) s ms t → Connected id s → Conserved id s →
    ∀ m ∈ ms, Conserved id m.post := by
  intro conserved
  obtain ⟨t, stepped⟩ := final_step (step 1)
    (by decide +kernel : (step 1 idle (.send [1, 2] { writes := [.accepted 1] })).isOk = true)
  have kept := conserved 1 idle _ t (.single stepped) connected_idle conserved_idle _ List.mem_cons_self
  rcases (conserved_step connected_idle conserved_idle stepped).mp kept with none | ⟨-, n, first, fits⟩
  · cases none
  · cases first
    exact absurd fits (by decide)

end Canna.SendQueue
