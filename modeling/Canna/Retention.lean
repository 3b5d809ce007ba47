import Canna.Steps

/-!
# What a slot retains

The fields of a slot besides its control and its `opaque` value. No handler fills a
queue: it leaves both as they are, or clears them. None chooses a protocol but TCP, and
none but a read of data changes the size of the next read (`Retains`). One lemma for
each handler says so of all slots, and `step_retains` of a step of the system.
-/
namespace Canna.SocketServer
open Canna.Sockets Canna.ControlPipe
open Canna.ControlPipe.Request

/-- A slot before and after a step, in which this many bytes were read from it, if any
    were. -/
structure Retains (read : Option Nat) (x y : Socket) : Prop where
  high : y.high = x.high ∨ y.high = .wb_clear
  low : y.low = x.low ∨ y.low = .wb_clear
  protocol : y.protocol = x.protocol ∨ y.protocol = PROTOCOL_TCP
  size : y.size = read.elim x.size fun n => resize x.size n

namespace Retains
variable {read : Option Nat} {x y z : Socket}

theorem refl (x : Socket) : Retains none x x := ⟨.inl rfl, .inl rfl, .inl rfl, rfl⟩

theorem trans (first : Retains none x y) (second : Retains read y z) : Retains read x z where
  high := by
    rcases second.high with same | cleared
    · rw [same]; exact first.high
    · exact .inr cleared
  low := by
    rcases second.low with same | cleared
    · rw [same]; exact first.low
    · exact .inr cleared
  protocol := by
    rcases second.protocol with same | tcp
    · rw [same]; exact first.protocol
    · exact .inr tcp
  size := by
    have kept : y.size = x.size := first.size
    rw [second.size, kept]

/-- Empty queues stay empty. -/
theorem empty (retains : Retains read x y) (drained : send_buffer_empty x = true) : send_buffer_empty y = true := by
  simp only [send_buffer_empty, Bool.and_eq_true, List.isEmpty_iff] at drained ⊢
  constructor
  · rcases retains.high with same | cleared
    · rw [same]; exact drained.1
    · rw [cleared]; rfl
  · rcases retains.low with same | cleared
    · rw [same]; exact drained.2
    · rw [cleared]; rfl

theorem tcp (retains : Retains read x y) (protocol : x.protocol = PROTOCOL_TCP) : y.protocol = PROTOCOL_TCP := by
  rcases retains.protocol with same | tcp
  · exact same.trans protocol
  · exact tcp

end Retains

/-- Every slot retains its fields, and none is read from. -/
def Retained (s t : Server) : Prop := ∀ j, Retains none (s.slot j) (t.slot j)

namespace Retained
variable {s t u : Server} {k : Index} {id : Int} {opaqueVal : UInt64} {result : Message} {o : Outcome} {r : Reply}

theorem of_slot (same : t.slot = s.slot) : Retained s t := by
  intro j
  rw [same]
  exact Retains.refl _

theorem refl (s : Server) : Retained s s := of_slot rfl

theorem trans (first : Retained s t) (second : Retained t u) : Retained s u := fun j => (first j).trans (second j)

theorem setSlot {x : Socket} (before : Retained s t) (retains : Retains none (t.slot k) x) :
    Retained s (t.setSlot k x) := by
  intro j
  by_cases own : j = k
  · subst own
    rw [Server.setSlot_self]
    exact (before j).trans retains
  · rw [Server.setSlot_other _ _ own]
    exact before j

theorem setType (before : Retained s t) (k : Index) (type : SocketType) : Retained s (t.setType k type) :=
  before.setSlot ⟨.inl rfl, .inl rfl, .inl rfl, rfl⟩

theorem setKernel (before : Retained s t) (ker : Kernel) : Retained s (t.setKernel ker) := before

theorem force_close (closed : force_close s k = .ok (t, result)) : Retained s t := by
  simp only [SocketServer.force_close] at closed
  split at closed
  · cases closed
    exact refl s
  · split at closed <;> cases closed
    exact ((refl s).setKernel _).setSlot ⟨.inr rfl, .inr rfl, .inl rfl, rfl⟩

theorem send_buffer {writes : List WriteResult} (valid : (s.slot k).type ≠ .INVALID)
    (handled : send_buffer s k result writes = .ok r) : Retained s r.server := by
  rw [send_buffer_valid valid] at handled
  split at handled
  · cases handled
  split at handled
  · simp only at handled
    split at handled
    · obtain ⟨⟨t, message⟩, closed, ended⟩ := map_ok handled
      cases ended
      have after := force_close closed
      exact after
    · cases handled
      exact refl s
  · cases handled
    exact refl s

theorem start_socket (s : Server) (id : Int) (opaqueVal : UInt64) (o : Outcome) :
    Retained s (start_socket s id opaqueVal o).server := by
  simp only [SocketServer.start_socket]
  split
  · exact refl s
  · split
    · split
      · exact (refl s).setType _ _
      · exact ((refl s).setKernel _).setSlot ⟨.inl rfl, .inl rfl, .inl rfl, rfl⟩
    · split
      · exact (refl s).setSlot ⟨.inl rfl, .inl rfl, .inl rfl, rfl⟩
      · exact refl s

theorem close_sent (handled : close_sent s id opaqueVal result = .ok r) : Retained s r.server := by
  simp only [SocketServer.close_sent] at handled
  split at handled
  · obtain ⟨⟨t, message⟩, closed, ended⟩ := bind_ok handled
    cases ended
    exact force_close closed
  · cases handled
    exact (refl s).setType _ _

theorem close_socket (handled : close_socket s id opaqueVal result o = .ok r) : Retained s r.server := by
  simp only [SocketServer.close_socket] at handled
  by_cases stale : (s.slot (HASH_ID id)).type = .INVALID ∨ (s.slot (HASH_ID id)).id ≠ id
  · rw [if_pos stale] at handled
    cases handled
    exact refl s
  rw [if_neg stale] at handled
  split at handled
  · exact close_sent handled
  · obtain ⟨middle, sent, ended⟩ := bind_ok handled
    have before := send_buffer (not_or.mp stale).1 sent
    split at ended
    · cases ended
      exact before
    · exact before.trans (close_sent ended)

theorem send_socket {sz : Int} {buffer : List Byte} (handled : send_socket s id sz buffer result o = .ok r) :
    Retained s r.server := by
  simp only [SocketServer.send_socket] at handled
  split at handled
  · cases handled
    exact refl s
  split at handled
  · cases handled
  split at handled
  · split at handled
    · obtain ⟨⟨t, message⟩, closed, ended⟩ := bind_ok handled
      cases ended
      exact force_close closed
    · split at handled <;> cases handled <;> exact refl s
    · split at handled <;> cases handled <;> exact refl s
  · cases handled
    exact refl s

theorem setopt_socket (s : Server) (id what value : Int) : Retained s (setopt_socket s id what value) := by
  rw [SocketServer.setopt_socket]
  split <;> exact refl s

theorem new_socket {fd : Int} {add admitted : Bool} {ns : Option Index}
    (made : new_socket s id fd PROTOCOL_TCP opaqueVal add admitted = .ok (t, ns)) : Retained s t := by
  simp only [SocketServer.new_socket] at made
  split at made
  · cases made
  · split at made <;> cases made
    · exact (refl s).setType _ _
    · exact ((refl s).setKernel _).setSlot ⟨.inl rfl, .inl rfl, .inr rfl, rfl⟩

theorem listen_socket {fd : Int} (handled : listen_socket s id fd opaqueVal result = .ok r) : Retained s r.server := by
  obtain ⟨⟨t, ns⟩, made, ended⟩ := bind_ok handled
  have after := new_socket made
  cases ns with
  | none =>
    cases ended
    exact (after.setKernel _).setType _ _
  | some k =>
    cases ended
    exact after.setType _ _

theorem bind_socket {fd : Int} (handled : bind_socket s id fd opaqueVal o = .ok r) : Retained s r.server := by
  obtain ⟨⟨t, ns⟩, made, ended⟩ := bind_ok handled
  have after := new_socket made
  cases ns with
  | none =>
    cases ended
    exact after
  | some k =>
    cases ended
    exact after.setType _ _

theorem open_socket (handled : open_socket s id opaqueVal o = .ok r) : Retained s r.server := by
  simp only [SocketServer.open_socket] at handled
  split at handled
  · cases handled
    exact (refl s).setType _ _
  · cases handled
    exact (refl s).setType _ _
  · obtain ⟨⟨ker, a⟩, -, handled⟩ := bind_ok handled
    obtain ⟨⟨t, ns⟩, made, ended⟩ := bind_ok handled
    have after : Retained s t := ((refl s).setKernel ker).trans (new_socket made)
    cases ns with
    | none => cases ended
    | some k =>
      simp only at ended
      split at ended <;> cases ended <;> exact after.setType _ _

theorem reserve (s : Server) (id : Int) : Retained s (reserve s id) :=
  (refl s).setSlot ⟨.inl rfl, .inl rfl, .inl rfl, rfl⟩

theorem report_accept (handled : report_accept s k result o = .ok r) : Retained s r.server := by
  simp only [SocketServer.report_accept] at handled
  cases acquired : s.kernel.acquire o.accepted with
  | none =>
    rw [acquired] at handled
    cases handled
    exact refl s
  | some ker =>
    simp only [acquired] at handled
    obtain ⟨alloc_id, (none | ⟨id, -, taken⟩)⟩ := reserve_id_spec (s.setKernel ker)
    · rw [none] at handled
      cases handled
      exact of_slot rfl
    · rw [taken] at handled
      obtain ⟨⟨t, ns⟩, made, ended⟩ := bind_ok handled
      have drew : Retained s { s.setKernel ker with alloc_id := alloc_id } := of_slot rfl
      have after := (drew.trans (reserve _ id)).trans (new_socket made)
      cases ns with
      | none =>
        cases ended
        exact after
      | some j =>
        cases ended
        exact after.setType _ _

theorem report_connect (handled : report_connect s k o = .ok r) : Retained s r.server := by
  simp only [SocketServer.report_connect] at handled
  split at handled
  · obtain ⟨⟨t, message⟩, closed, ended⟩ := bind_ok handled
    cases ended
    exact force_close closed
  · cases handled
    split <;> exact (refl s).setType _ _

theorem ctrl_cmd {request : Request Int (List Byte)} (handled : ctrl_cmd s request result o = .ok r) :
    Retained s r.server := by
  cases request with
  | request_start id opaqueVal =>
    cases handled
    exact start_socket s id opaqueVal o
  | request_bind id fd opaqueVal => exact bind_socket handled
  | request_listen id fd opaqueVal => exact listen_socket handled
  | request_close id opaqueVal => exact close_socket handled
  | request_open id port opaqueVal host => exact open_socket handled
  | request_exit =>
    cases handled
    exact refl s
  | request_send id sz buffer => exact send_socket handled
  | request_setopt id what value =>
    cases handled
    exact setopt_socket s id what value

end Retained

/-! ### Reads -/

/-- How many bytes `forward_message_tcp` takes from a slot and passes on. -/
def readOf (s : Server) (k : Index) (o : Outcome) : Option Nat :=
  match o.read with
  | .received bytes =>
    if (delivered (s.slot k) bytes).length = 0 ∨ (s.slot k).type = .HALFCLOSE then none
    else some (delivered (s.slot k) bytes).length
  | .EINTR | .EAGAIN | .failed => none

section
variable {s : Server} {k : Index} {result : Message} {o : Outcome} {r : Reply}

/-- A slot is read from, and all others retain their fields. -/
structure Reading (s : Server) (k : Index) (read : Option Nat) (t : Server) : Prop where
  own : Retains read (s.slot k) (t.slot k)
  others : ∀ j, j ≠ k → t.slot j = s.slot j

theorem Retained.reading {t : Server} (retained : Retained s t) (others : ∀ j, j ≠ k → t.slot j = s.slot j) :
    Reading s k none t := ⟨retained k, others⟩

theorem forward_message_tcp_reading (valid : (s.slot k).type ≠ .INVALID)
    (handled : forward_message_tcp s k result o = .ok r) : Reading s k (readOf s k o) r.server := by
  have others := (forward_message_tcp_effect valid handled).1.others
  simp only [forward_message_tcp] at handled
  unfold readOf
  cases outcome : o.read with
  | EINTR =>
    simp only [outcome] at handled
    cases handled
    exact (Retained.refl s).reading others
  | EAGAIN =>
    simp only [outcome] at handled
    cases handled
    exact (Retained.refl s).reading others
  | failed =>
    simp only [outcome] at handled
    obtain ⟨⟨t, message⟩, closed, ended⟩ := bind_ok handled
    cases ended
    exact (Retained.force_close closed).reading others
  | received bytes =>
    simp only [outcome] at handled
    simp only
    by_cases nothing : (delivered (s.slot k) bytes).length = 0
    · rw [if_pos nothing] at handled
      cases handled
      rw [if_pos (.inl nothing)]
      exact (Retained.refl s).reading others
    rw [if_neg nothing] at handled
    by_cases half : (s.slot k).type = .HALFCLOSE
    · rw [if_pos half] at handled
      cases handled
      rw [if_pos (.inr half)]
      exact (Retained.refl s).reading others
    · rw [if_neg half] at handled
      cases handled
      rw [if_neg (not_or.mpr ⟨nothing, half⟩)]
      refine ⟨?_, others⟩
      rw [Server.setSlot_self]
      exact ⟨.inl rfl, .inl rfl, .inl rfl, rfl⟩

end

end Canna.SocketServer

namespace Canna.Poll
open Canna.Sockets Canna.SocketServer Canna.ControlPipe Canna.Lts
open Canna.ControlPipe.Request

/-- How many bytes an event takes from a slot and passes on. -/
def readBy (s : Server) (o : Outcome) (j : Index) (e : Event) : Option Nat :=
  if e.s = some j ∧ Forwards s j e then readOf s j o else none

/-- How many bytes a step takes from a slot and passes on. -/
def Sys.reads (s : Sys) (j : Index) : Action → Option Nat
  | .dispatch o => s.server.ev[s.server.event_index]?.bind (readBy s.server o j)
  | _ => none

section
variable {s : Server} {k : Index} {e : Event} {result : Message} {o : Outcome} {r : Reply} {sweep : Bool}

theorem readBy_quiet (slot : e.s = some k) (silent : ¬ Forwards s k e) (j : Index) : readBy s o j e = none := by
  rw [readBy, slot, if_neg]
  rintro ⟨same, forwards⟩
  cases same
  exact silent forwards

theorem readBy_elsewhere {j : Index} (slot : e.s = some k) (other : j ≠ k) : readBy s o j e = none := by
  rw [readBy, slot, if_neg]
  rintro ⟨same, -⟩
  cases same
  exact other rfl

theorem ready_retains (other : (s.slot k).type ≠ .CONNECTING ∧ (s.slot k).type ≠ .LISTEN)
    (valid : (s.slot k).type ≠ .INVALID) (slot : e.s = some k) (handled : ready s k e result o = .ok r) (j : Index) :
    Retains (readBy s o j e) (s.slot j) (r.server.slot j) := by
  rcases ready_cases handled with ⟨readable, m, read, rfl⟩ | ⟨quiet, sent⟩ | ⟨quiet, rfl⟩
  · have after : Retains (readBy s o j e) (s.slot j) (m.server.slot j) := by
      unfold read_half at read
      by_cases tcp : (s.slot k).protocol = PROTOCOL_TCP
      · rw [if_pos tcp] at read
        obtain ⟨own, others⟩ := forward_message_tcp_reading valid read
        by_cases same : j = k
        · subst same
          rw [readBy, slot, if_pos ⟨rfl, other.1, other.2, valid, readable, tcp⟩]
          exact own
        · rw [readBy_elsewhere slot same, others j same]
          exact Retains.refl _
      · rw [if_neg tcp] at read
        cases read
        rw [readBy_quiet slot fun forwards => tcp forwards.2.2.2.2]
        exact Retains.refl _
    split
    · exact after
    · exact after
  · rw [readBy_quiet slot fun forwards => quiet forwards.2.2.2.1]
    exact Retained.send_buffer valid sent j
  · rw [readBy_quiet slot fun forwards => quiet forwards.2.2.2.1]
    exact Retains.refl _

theorem serve_retains (slot : e.s = some k) (handled : serve s k e result o = .ok (r, sweep)) (j : Index) :
    Retains (readBy s o j e) (s.slot j) (r.server.slot j) := by
  rcases serve_cases handled with ⟨type, reported, -⟩ | ⟨type, reported, -⟩ | ⟨type, rfl, -⟩ | ⟨other, valid, served, -⟩
  · rw [readBy_quiet slot fun forwards => forwards.1 type]
    exact Retained.report_connect reported j
  · rw [readBy_quiet slot fun forwards => forwards.2.1 type]
    exact Retained.report_accept reported j
  · rw [readBy_quiet slot fun forwards => forwards.2.2.1 type]
    exact Retains.refl _
  · exact ready_retains other valid slot served j

theorem dispatch_retains (handled : dispatch s result o = .ok (r, sweep)) (j : Index) :
    Retains (s.ev[s.event_index]?.bind (readBy s o j)) (s.slot j) (r.server.slot j) := by
  obtain ⟨e, current, ⟨slot, rfl, -⟩ | ⟨k, slot, handled⟩⟩ := dispatch_cases handled
  · rw [current, Option.bind_some, readBy, slot, if_neg (by simp)]
    exact Retains.refl _
  · rw [current, Option.bind_some]
    exact serve_retains (s := { s with event_index := s.event_index + 1 }) slot handled j

end

section
variable {s t : Sys} {a : Action}

/-- What a step of the system leaves in every slot. -/
theorem step_retains (stepped : step s a = .ok t) (j : Index) :
    Retains (s.reads j a) (s.server.slot j) (t.server.slot j) := by
  have same : t.server.slot = s.server.slot → Retains none (s.server.slot j) (t.server.slot j) :=
    fun slot => Retained.of_slot slot j
  cases a with
  | call c =>
    cases stepped
    exact same (c.started s.server).slot
  | advance i =>
    obtain ⟨c, -, rfl⟩ := step_advance stepped
    have advanced := c.advanced s.server
    generalize c.advance s.server = d at advanced
    obtain ⟨r, next⟩ := d
    cases advanced with
    | reserved call i id is vacant => exact Retained.reserve s.server id j
    | _ => exact Retains.refl _
  | command o =>
    obtain ⟨request, pipe, r, -, -, handled, rfl⟩ := step_command stepped
    have after := Retained.ctrl_cmd handled
    exact after j
  | dispatch o =>
    obtain ⟨r, sweep, -, handled, rfl⟩ := step_dispatch stepped
    exact dispatch_retains handled j
  | enter => exact same (step_other stepped .enter).1
  | noCommand => exact same (step_other stepped .noCommand).1
  | wait ready => exact same (step_other stepped (.wait ready)).1
  | sweep => exact same (step_other stepped .sweep).1

end

end Canna.Poll
