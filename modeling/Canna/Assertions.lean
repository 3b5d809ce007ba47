import Canna.Batch
import Canna.Retention

/-!
# The assertions of the handlers

Nothing is ever put into the queues of a slot (`Drained`). So `raise_uncomplete` is
not called, the assertion of `send_buffer` holds, and each of the other two fails in
exactly the cases of `Misused`: a send request comes to a listening slot, or a close
request or a read that fails comes to a reserved one (`assertions_iff`). The last of
these does not happen where the public calls run between calls of `poll`.
-/
namespace Canna.SocketServer
open Canna.Sockets Canna.ControlPipe
open Canna.ControlPipe.Request

/-! ### Empty queues -/

/-- No slot has anything to send. -/
def Drained (s : Server) : Prop := ∀ k, send_buffer_empty (s.slot k) = true

/-! ### Failures -/

section
variable {s : Server} {k : Index} {id : Int} {opaqueVal : UInt64} {result : Message} {o : Outcome} {h : Halt}

theorem force_close_fails : force_close s k = .error h ↔ h = .assertion .force_close ∧ (s.slot k).type = .RESERVE := by
  constructor
  · exact force_close_error
  · rintro ⟨rfl, reserved⟩
    have valid : (s.slot k).type ≠ .INVALID := by
      rw [reserved]
      decide
    simp only [force_close, if_neg valid, if_pos reserved]

theorem send_buffer_total (drained : Drained s) (valid : (s.slot k).type ≠ .INVALID) (writes : List WriteResult) :
    send_buffer s k result writes ≠ .error h := by
  rw [send_buffer_drained valid (drained k)]
  intro failed
  by_cases half : (s.slot k).type = .HALFCLOSE
  · simp only [Server.setKernel_slot, half, if_true] at failed
    have reserved := (force_close_error (map_error failed)).2
    rw [Server.setKernel_slot, half] at reserved
    cases reserved
  · simp only [Server.setKernel_slot, half, if_false] at failed
    cases failed

/-- A close fails on the reserved slot of its id. -/
theorem close_socket_fails (drained : Drained s) : close_socket s id opaqueVal result o = .error h ↔
    h = .assertion .force_close ∧ (s.slot (HASH_ID id)).id = id ∧ (s.slot (HASH_ID id)).type = .RESERVE := by
  simp only [close_socket, close_sent, drained (HASH_ID id), if_true]
  by_cases stale : (s.slot (HASH_ID id)).type = .INVALID ∨ (s.slot (HASH_ID id)).id ≠ id
  · rw [if_pos stale]
    refine iff_of_false (by simp [pure, Except.pure]) ?_
    rintro ⟨-, own, reserved⟩
    rcases stale with free | other
    · exact SocketType.noConfusion (free.symm.trans reserved)
    · exact other own
  rw [if_neg stale]
  have own : (s.slot (HASH_ID id)).id = id := not_not.mp (not_or.mp stale).2
  constructor
  · intro failed
    rcases bind_error failed with early | ⟨p, -, late⟩
    · exact ⟨(force_close_error early).1, own, (force_close_error early).2⟩
    · cases late
  · rintro ⟨same, -, reserved⟩
    rw [force_close_fails.mpr ⟨same, reserved⟩]
    rfl

/-- A send fails on the listening slot of its id. -/
theorem send_socket_fails {sz : Int} {buffer : List Byte} : send_socket s id sz buffer result o = .error h ↔
    h = .assertion .send_socket ∧ (s.slot (HASH_ID id)).id = id ∧
      ((s.slot (HASH_ID id)).type = .PLISTEN ∨ (s.slot (HASH_ID id)).type = .LISTEN) := by
  simp only [send_socket]
  by_cases deaf : (s.slot (HASH_ID id)).type = .INVALID ∨ (s.slot (HASH_ID id)).id ≠ id ∨
      (s.slot (HASH_ID id)).type = .HALFCLOSE ∨ (s.slot (HASH_ID id)).type = .PACCEPT
  · rw [if_pos deaf]
    refine iff_of_false (by simp) ?_
    rintro ⟨-, own, listening⟩
    rcases listening with type | type <;> rw [type] at deaf <;> simp [own] at deaf
  rw [if_neg deaf]
  have own : (s.slot (HASH_ID id)).id = id := not_not.mp (not_or.mp (not_or.mp deaf).2).1
  by_cases listening : (s.slot (HASH_ID id)).type = .PLISTEN ∨ (s.slot (HASH_ID id)).type = .LISTEN
  · rw [if_pos listening]
    constructor
    · intro failed
      cases failed
      exact ⟨rfl, own, listening⟩
    · rintro ⟨rfl, -⟩
      rfl
  rw [if_neg listening]
  refine iff_of_false ?_ fun fails => listening fails.2.2
  intro failed
  split at failed
  · rename_i ready
    split at failed
    · rcases bind_error failed with early | ⟨p, -, late⟩
      · cases ready.2.1.symm.trans (force_close_error early).2
      · cases late
    · split at failed <;> cases failed
    · split at failed <;> cases failed
  · cases failed

theorem report_connect_total (connecting : (s.slot k).type = .CONNECTING) : report_connect s k o ≠ .error h := by
  simp only [report_connect]
  intro failed
  split at failed
  · rcases bind_error failed with early | ⟨p, -, late⟩
    · cases connecting.symm.trans (force_close_error early).2
    · cases late
  · cases failed

/-- A read that fails does so on a reserved slot. -/
theorem forward_message_tcp_fails : forward_message_tcp s k result o = .error h ↔
    h = .assertion .force_close ∧ (s.slot k).type = .RESERVE ∧ o.read = .failed := by
  simp only [forward_message_tcp]
  cases read : o.read with
  | EINTR => simp
  | EAGAIN => simp
  | failed =>
    simp only [and_true]
    constructor
    · intro failed
      rcases bind_error failed with early | ⟨p, -, late⟩
      · exact force_close_error early
      · cases late
    · rintro fails
      rw [force_close_fails.mpr fails]
      rfl
  | received bytes =>
    simp only [reduceCtorEq, and_false, iff_false]
    split
    · simp
    · split <;> simp

/-- The request comes to an assertion other than that of `new_socket`. -/
def Misaddressed (s : Server) : Request Int (List Byte) → Prop
  | request_send id _ _ => (s.slot (HASH_ID id)).id = id ∧
      ((s.slot (HASH_ID id)).type = .PLISTEN ∨ (s.slot (HASH_ID id)).type = .LISTEN)
  | request_close id _ => (s.slot (HASH_ID id)).id = id ∧ (s.slot (HASH_ID id)).type = .RESERVE
  | _ => False

/-- The assertions of `send_socket`, `force_close`, `send_buffer` and `raise_uncomplete`. -/
def sites : List Site := [.send_socket, .force_close, .send_buffer, .raise_uncomplete]

theorem ctrl_cmd_fails (drained : Drained s) {request : Request Int (List Byte)} :
    (∃ site ∈ sites, ctrl_cmd s request result o = .error (.assertion site)) ↔ Misaddressed s request := by
  have unfailing : ∀ site ∈ sites, Halt.assertion site ≠ .nullDereference ∧ Halt.assertion site ≠ .assertion .new_socket := by
    decide
  cases request with
  | request_start id opaqueVal => simp [ctrl_cmd, Misaddressed]
  | request_exit => simp [ctrl_cmd, Misaddressed]
  | request_setopt id what value => simp [ctrl_cmd, Misaddressed]
  | request_bind id fd opaqueVal =>
    refine iff_of_false ?_ not_false
    rintro ⟨site, member, failed⟩
    exact (unfailing site member).2 (bind_socket_error failed).1
  | request_listen id fd opaqueVal =>
    refine iff_of_false ?_ not_false
    rintro ⟨site, member, failed⟩
    exact (unfailing site member).2 (listen_socket_error failed).1
  | request_open id port opaqueVal host =>
    refine iff_of_false ?_ not_false
    rintro ⟨site, member, failed⟩
    rcases open_socket_error failed with null | ⟨other, -⟩
    · exact (unfailing site member).1 null
    · exact (unfailing site member).2 other
  | request_close id opaqueVal =>
    simp only [ctrl_cmd, close_socket_fails drained, Misaddressed, Halt.assertion.injEq]
    constructor
    · rintro ⟨site, -, -, addressed⟩
      exact addressed
    · intro addressed
      exact ⟨.force_close, by decide, rfl, addressed⟩
  | request_send id sz buffer =>
    simp only [ctrl_cmd, send_socket_fails, Misaddressed, Halt.assertion.injEq]
    constructor
    · rintro ⟨site, -, -, addressed⟩
      exact addressed
    · intro addressed
      exact ⟨.send_socket, by decide, rfl, addressed⟩

end

end Canna.SocketServer

namespace Canna.Poll
open Canna.Sockets Canna.SocketServer Canna.ControlPipe Canna.Lts

/-! ### Steps -/

section
variable {s : Server} {k : Index} {e : Event} {result : Message} {o : Outcome} {h : Halt} {r : Reply} {sweep : Bool}

/-- Reading from the slot comes to an assertion. -/
def Misread (s : Server) (k : Index) (e : Event) (o : Outcome) : Prop :=
  (s.slot k).type = .RESERVE ∧ (s.slot k).protocol = PROTOCOL_TCP ∧ e.read = true ∧ o.read = .failed

theorem ready_fails (drained : Drained s) (valid : (s.slot k).type ≠ .INVALID) :
    ready s k e result o = .error h ↔ h = .assertion .force_close ∧ Misread s k e o := by
  unfold ready
  by_cases readable : e.read = true
  · rw [if_pos readable, read_half]
    by_cases tcp : (s.slot k).protocol = PROTOCOL_TCP
    · rw [if_pos tcp]
      simp only [Misread, tcp, readable, true_and]
      constructor
      · intro failed
        rcases bind_error failed with early | ⟨p, -, late⟩
        · exact forward_message_tcp_fails.mp early
        · cases late
      · intro fails
        rw [forward_message_tcp_fails.mpr fails]
        rfl
    · rw [if_neg tcp]
      exact iff_of_false (by simp [bind, Except.bind, pure, Except.pure]) fun fails => tcp fails.2.2.1
  · rw [if_neg readable]
    refine iff_of_false ?_ fun fails => readable fails.2.2.2.1
    by_cases writable : e.write = true
    · rw [if_pos writable]
      exact send_buffer_total drained valid o.writes
    · rw [if_neg writable]
      simp

theorem serve_fails (drained : Drained s) :
    serve s k e result o = .error h ↔ h = .assertion .force_close ∧ Misread s k e o := by
  simp only [serve]
  cases type : (s.slot k).type with
  | INVALID => simp [type, Misread]
  | CONNECTING =>
    simp only [Misread, type, reduceCtorEq, false_and, and_false, iff_false]
    intro failed
    rcases bind_error failed with early | ⟨p, -, late⟩
    · exact report_connect_total type early
    · cases late
  | LISTEN =>
    simp only [Misread, type, reduceCtorEq, false_and, and_false, iff_false]
    intro failed
    obtain ⟨reply, total⟩ := report_accept_total s k result o
    rw [total] at failed
    cases failed
  | _ =>
    rw [← ready_fails drained (by simp [type])]
    constructor
    · intro failed
      rcases bind_error failed with early | ⟨p, -, late⟩
      · exact early
      · cases late
    · intro fails
      rw [fails]
      rfl

/-- The slot of the dispatched event, where it is that of a slot. -/
theorem dispatch_fails (drained : Drained s) : dispatch s result o = .error h ↔
    match s.ev[s.event_index]? with
    | none => h = .disabled
    | some e => h = .assertion .force_close ∧ ∃ k, e.s = some k ∧ Misread s k e o := by
  simp only [dispatch]
  cases current : s.ev[s.event_index]? with
  | none =>
    simp only [Except.error.injEq]
    exact eq_comm
  | some e =>
    simp only
    cases slot : e.s with
    | none => simp
    | some k =>
      have fails : serve { s with event_index := s.event_index + 1 } k e result o = .error h ↔ _ := serve_fails drained
      simp only [Option.some.injEq, exists_eq_left']
      exact fails

end

/-- An assertion other than that of `new_socket` fails. -/
def Fails (s : Sys) (a : Action) : Prop := ∃ site ∈ sites, step s a = .error (.assertion site)

/-- The poll thread is about to handle a misaddressed request, or to read from a
    reserved slot, which fails. -/
def Misused (s : Sys) : Action → Prop
  | .command _ => s.pc = .looping ∧ s.server.checkctrl = true ∧
      ∃ request pipe, s.server.pipe = request :: pipe ∧ Misaddressed s.server request
  | .dispatch o => s.pc = .picking ∧
      ∃ e k, s.server.ev[s.server.event_index]? = some e ∧ e.s = some k ∧ Misread s.server k e o
  | _ => False

section
variable {s t : Sys}

theorem drained_step {a : Action} (drained : Drained s.server) (stepped : step s a = .ok t) : Drained t.server :=
  fun k => (step_retains stepped k).empty (drained k)

/-- A step that does not succeed has failed before its state is put together. -/
theorem bind_return_error {α β : Type} {x : Except Halt α} {f : α → β} {h : Halt} :
    (x >>= fun a => pure (f a)) = .error h ↔ x = .error h := by
  cases x <;> simp [bind, Except.bind, pure, Except.pure]

theorem command_fails (drained : Drained s.server) (o : Outcome) : Fails s (.command o) ↔ Misused s (.command o) := by
  have handler : ∀ request pipe, (∃ site ∈ sites,
      ctrl_cmd { s.server with pipe := pipe } request s.result o = .error (.assertion site)) ↔
      Misaddressed s.server request := by
    intro request pipe
    rw [ctrl_cmd_fails (s := { s.server with pipe := pipe }) drained]
    cases request <;> exact Iff.rfl
  constructor
  · rintro ⟨site, member, failed⟩
    simp only [step] at failed
    split at failed
    · rename_i request pipe looping checks waiting
      exact ⟨looping, checks, request, pipe, waiting,
        (handler request pipe).mp ⟨site, member, bind_return_error.mp failed⟩⟩
    · cases failed
  · rintro ⟨looping, checks, request, pipe, waiting, misaddressed⟩
    obtain ⟨site, member, failed⟩ := (handler request pipe).mpr misaddressed
    refine ⟨site, member, ?_⟩
    have handles : step s (.command o) = do
        let r ← ctrl_cmd { s.server with pipe := pipe } request s.result o
        return s.handled r true := by
      simp only [step]
      split
      · rename_i request' pipe' _ _ same
        cases same.symm.trans waiting
        rfl
      · rename_i other
        exact absurd waiting (other request pipe looping checks)
    rw [handles]
    exact bind_return_error.mpr failed

theorem event_fails (drained : Drained s.server) (o : Outcome) : Fails s (.dispatch o) ↔ Misused s (.dispatch o) := by
  constructor
  · rintro ⟨site, member, failed⟩
    simp only [step] at failed
    split at failed
    · rename_i picking
      have fails := (dispatch_fails drained).mp (bind_return_error.mp failed)
      cases current : s.server.ev[s.server.event_index]? with
      | none =>
        rw [current] at fails
        cases fails
      | some e =>
        rw [current] at fails
        obtain ⟨-, k, slot, misread⟩ := fails
        exact ⟨picking, e, k, current, slot, misread⟩
    · cases failed
  · rintro ⟨picking, e, k, current, slot, misread⟩
    refine ⟨.force_close, by decide, ?_⟩
    simp only [step, picking]
    refine bind_return_error.mpr ((dispatch_fails drained).mpr ?_)
    rw [current]
    exact ⟨rfl, k, slot, misread⟩

theorem step_fails (drained : Drained s.server) (a : Action) : Fails s a ↔ Misused s a := by
  cases a with
  | command o => exact command_fails drained o
  | dispatch o => exact event_fails drained o
  | call c => simp [Fails, step, Misused]
  | _ =>
    refine iff_of_false ?_ not_false
    rintro ⟨site, -, failed⟩
    simp only [step] at failed
    split at failed <;> cases failed

end

/-! ### Runs -/

section
variable {memory : Index → Socket} {alloc_id : Int} {result : Message} {ms : List (Move Sys Action)} {t : Sys}

theorem drained_run (run : SysRun (initial memory alloc_id result) ms t) : Drained t.server :=
  (run.inductive_invariant (I := fun s => Drained s.server) (fun _ _ _ => drained_step) fun _ => rfl).2

end

/-- A client listens on descriptor 5, under id 1, and then sends to the id. -/
def sending : List Action :=
  [.call (.server_listen 0 5 true), .advance 0, .advance 0, .advance 0, .advance 0,
    .call (.server_send 1 [65]), .advance 0, .enter, .command {}]

theorem sending_run : SysRun zeroed (moves step zeroed sending) (final step zeroed sending) :=
  run_final step (by decide +kernel : (exec step zeroed sending).isOk = true)

theorem sending_calm : ∀ m ∈ moves step zeroed sending, Calm m.pre m.act := by decide +kernel

theorem sending_misused : Misused (final step zeroed sending) (.command {}) := by
  refine ⟨by decide +kernel, by decide +kernel, .request_send 1 1 [65], [], by decide +kernel, ?_⟩
  simp only [Misaddressed]
  decide +kernel

/-- A public call returns this id, or `poll` does with `SOCKET_ACCEPT`. -/
def Gives (id : Int) (m : Move Sys Action) : Prop :=
  match m.act with
  | .advance j => (m.pre.clients[j]?).bind Client.reserved = some id
  | .dispatch _ => m.post.pc = .outside SOCKET_ACCEPT ∧ m.post.result.ud = id
  | _ => False

instance (id : Int) : DecidablePred (Gives id)
  | ⟨_, .advance _, _⟩ => inferInstanceAs (Decidable (_ = _))
  | ⟨_, .dispatch _, _⟩ => inferInstanceAs (Decidable (_ ∧ _))
  | ⟨_, .call _, _⟩ | ⟨_, .enter, _⟩ | ⟨_, .command _, _⟩ | ⟨_, .noCommand, _⟩ | ⟨_, .wait _, _⟩ | ⟨_, .sweep, _⟩ =>
    isFalse not_false

/-- The id that a public call is made with. -/
def ApiCall.passed : ApiCall → Option Int
  | .server_start _ id => some id
  | .server_close _ id => some id
  | .server_send id _ => some id
  | _ => none

/-- A public call after these moves passes an id that was given before, if any. -/
def Passes (h : List (Move Sys Action)) : Action → Prop
  | .call c => ∀ id ∈ c.passed, ∃ m ∈ h, Gives id m
  | .advance _ | .enter | .command _ | .noCommand | .wait _ | .dispatch _ | .sweep => True

instance (h : List (Move Sys Action)) : DecidablePred (Passes h)
  | .call c => inferInstanceAs (Decidable (∀ id ∈ c.passed, ∃ m ∈ h, Gives id m))
  | .advance _ | .enter | .command _ | .noCommand | .wait _ | .dispatch _ | .sweep => isTrue trivial

end Canna.Poll
