import Canna.Poll

/-!
# What a step of the system does

Inversion of `step`: a client draws numbers, reserves a free slot or writes its
request; a dispatched event keeps, promotes or closes the connection in its slot
(`served`), or accepts a new one; a handled request does what `Effects` says. The
reservations not yet handled are those of the clients about to write their request
and those in the pipe (`pending`).
-/
namespace Canna.Poll
open Canna.Sockets Canna.SocketServer Canna.ControlPipe Canna.Lts
open Canna.ControlPipe.Request

/-! ### Dispatch -/

/-- The batch after an event was dispatched: the event is done, or it is left for its
    write half. -/
inductive Picked (s t : Server) : Prop
  | done (ev : t.ev = s.ev) (event_index : t.event_index = s.event_index + 1) : Picked s t
  | again (e : Event) (current : s.ev[s.event_index]? = some e) (ev : t.ev = s.ev.set s.event_index { e with read := false })
      (event_index : t.event_index = s.event_index) : Picked s t

/-- What dispatching an event of a slot can do, besides a step through the batch. -/
inductive Served (s : Server) (k : Index) (o : Outcome) (r : Reply) : Fault → Prop
  | worked (fault : Fault) (others : ∀ j, j ≠ k → r.server.slot j = s.slot j) (effect : Effect k s r fault)
      (refused : (s.slot k).type = .LISTEN → s.kernel.acquire o.accepted = none ∨ (reserve_id s).1 = none) :
      Served s k o r fault
  | accepted (id : Int) (listening : (s.slot k).type = .LISTEN) (vacant : (s.slot (HASH_ID id)).type = .INVALID)
      (others : ∀ j, j ≠ HASH_ID id → r.server.slot j = s.slot j)
      (control : (r.server.slot (HASH_ID id)).control = ⟨.PACCEPT, id, o.accepted⟩)
      (free : s.kernel.balance o.accepted ≤ 0)
      (balance : r.server.kernel.balance =
        Function.update s.kernel.balance o.accepted (s.kernel.balance o.accepted + 1))
      (acquired : s.kernel.acquire o.accepted ≠ none) (reserved : (reserve_id s).1 = some id) : Served s k o r .sound

theorem Served.of_index {s : Server} {k : Index} {o : Outcome} {r : Reply} {fault : Fault} {i : Nat}
    (served : Served { s with event_index := i } k o r fault) : Served s k o r fault := by
  cases served with
  | worked fault others effect refused =>
    have same : (reserve_id { s with event_index := i }).1 = (reserve_id s).1 := reserve_id_congr rfl rfl
    exact .worked _ others effect fun listening => (refused listening).imp_right same.symm.trans
  | accepted id listening vacant others control free balance acquired reserved =>
    have same : (reserve_id { s with event_index := i }).1 = (reserve_id s).1 := reserve_id_congr rfl rfl
    exact .accepted id listening vacant others control free balance acquired (same.symm.trans reserved)

/-- The event is handled by `forward_message_tcp`. -/
def Forwards (s : Server) (k : Index) (e : Event) : Prop :=
  (s.slot k).type ≠ .CONNECTING ∧ (s.slot k).type ≠ .LISTEN ∧ (s.slot k).type ≠ .INVALID ∧
    e.read = true ∧ (s.slot k).protocol = PROTOCOL_TCP

instance (s : Server) (k : Index) (e : Event) : Decidable (Forwards s k e) :=
  inferInstanceAs (Decidable (_ ∧ _ ∧ _ ∧ _ ∧ _))

/-- The fault that serving an event comes to: a read that fails. -/
def serveFault (s : Server) (k : Index) (e : Event) (o : Outcome) : Fault :=
  if Forwards s k e ∧ o.read = .failed then .silent else .sound

section
variable {s : Server} {k : Index} {e : Event} {result : Message} {o : Outcome} {r : Reply} {sweep : Bool}

/-- `ready` runs the read half and may put the event back for the other one, or it runs
    the write half, or neither. -/
theorem ready_cases (handled : ready s k e result o = .ok r) :
    (e.read = true ∧ ∃ m, read_half s k result o = .ok m ∧
      r = if e.write then { m with server := put_back m.server e } else m) ∨
    (¬ e.read = true ∧ send_buffer s k result o.writes = .ok r) ∨ (¬ e.read = true ∧ r = ⟨s, result, -1⟩) := by
  unfold ready at handled
  by_cases readable : e.read = true
  · rw [if_pos readable] at handled
    obtain ⟨m, read, ended⟩ := bind_ok handled
    cases ended
    exact .inl ⟨readable, m, read, rfl⟩
  · rw [if_neg readable] at handled
    by_cases writable : e.write = true
    · rw [if_pos writable] at handled
      exact .inr (.inl ⟨readable, handled⟩)
    · rw [if_neg writable] at handled
      cases handled
      exact .inr (.inr ⟨readable, rfl⟩)

/-- What `serve` runs, by the type of the slot. -/
theorem serve_cases (handled : serve s k e result o = .ok (r, sweep)) :
    ((s.slot k).type = .CONNECTING ∧ report_connect s k o = .ok r ∧ sweep = false) ∨
    ((s.slot k).type = .LISTEN ∧ report_accept s k result o = .ok r ∧ sweep = false) ∨
    ((s.slot k).type = .INVALID ∧ r = ⟨s, result, -1⟩ ∧ sweep = false) ∨
    (((s.slot k).type ≠ .CONNECTING ∧ (s.slot k).type ≠ .LISTEN) ∧ (s.slot k).type ≠ .INVALID ∧
      ready s k e result o = .ok r ∧ sweep = true) := by
  simp only [serve] at handled
  cases type : (s.slot k).type with
  | CONNECTING =>
    simp only [type] at handled
    obtain ⟨reply, reported, ended⟩ := bind_ok handled
    cases ended
    exact .inl ⟨rfl, reported, rfl⟩
  | LISTEN =>
    simp only [type] at handled
    obtain ⟨reply, reported, ended⟩ := bind_ok handled
    cases ended
    exact .inr (.inl ⟨rfl, reported, rfl⟩)
  | INVALID =>
    simp only [type] at handled
    cases handled
    exact .inr (.inr (.inl ⟨rfl, rfl, rfl⟩))
  | _ =>
    simp only [type] at handled
    obtain ⟨reply, served, ended⟩ := bind_ok handled
    cases ended
    exact .inr (.inr (.inr ⟨⟨by decide, by decide⟩, by decide, served, rfl⟩))

/-- A dispatched event is that of the control pipe, or it is served for its slot, behind
    its place in the batch. -/
theorem dispatch_cases (handled : dispatch s result o = .ok (r, sweep)) : ∃ e, s.ev[s.event_index]? = some e ∧
    ((e.s = none ∧ r = ⟨{ s with event_index := s.event_index + 1 }, result, -1⟩ ∧ sweep = false) ∨
      ∃ k, e.s = some k ∧ serve { s with event_index := s.event_index + 1 } k e result o = .ok (r, sweep)) := by
  simp only [dispatch] at handled
  cases current : s.ev[s.event_index]? with
  | none =>
    simp only [current] at handled
    cases handled
  | some e =>
    simp only [current] at handled
    refine ⟨e, rfl, ?_⟩
    cases slot : e.s with
    | none =>
      simp only [slot] at handled
      cases handled
      exact .inl ⟨rfl, rfl, rfl⟩
    | some k =>
      simp only [slot] at handled
      exact .inr ⟨k, rfl, handled⟩

/-- The parts of the server that serving an event leaves alone, but for the event
    itself, which may be put back. -/
structure Turned (s : Server) (e : Event) (t : Server) : Prop where
  pipe : t.pipe = s.pipe
  checkctrl : t.checkctrl = s.checkctrl
  batch : (t.ev = s.ev ∧ t.event_index = s.event_index) ∨
    (t.ev = s.ev.set (s.event_index - 1) { e with read := false } ∧ t.event_index = s.event_index - 1)

theorem Turned.of_frame {t : Server} (frame : Frame k s t) : Turned s e t :=
  ⟨frame.pipe, frame.checkctrl, .inl ⟨frame.ev, frame.event_index⟩⟩

theorem read_half_ok (other : (s.slot k).type ≠ .CONNECTING ∧ (s.slot k).type ≠ .LISTEN)
    (valid : (s.slot k).type ≠ .INVALID) (readable : e.read = true) (handled : read_half s k result o = .ok r) :
    Frame k s r.server ∧ Effect k s r (serveFault s k e o) := by
  unfold read_half at handled
  by_cases tcp : (s.slot k).protocol = PROTOCOL_TCP
  · have forwards : Forwards s k e := ⟨other.1, other.2, valid, readable, tcp⟩
    have fault : serveFault s k e o = if o.read = .failed then .silent else .sound := by
      simp [serveFault, forwards]
    rw [if_pos tcp] at handled
    rw [fault]
    exact forward_message_tcp_effect valid handled
  · have fault : serveFault s k e o = .sound := if_neg fun both => tcp both.1.2.2.2.2
    rw [if_neg tcp] at handled
    cases handled
    rw [fault]
    exact ⟨Frame.refl k s, Effect.unchanged _ _⟩

theorem read_half_error : read_half s k result o ≠ .error (.assertion .new_socket) := by
  intro failed
  unfold read_half at failed
  by_cases tcp : (s.slot k).protocol = PROTOCOL_TCP
  · rw [if_pos tcp] at failed
    cases forward_message_tcp_error failed
  · rw [if_neg tcp] at failed
    cases failed

theorem ready_ok (other : (s.slot k).type ≠ .CONNECTING ∧ (s.slot k).type ≠ .LISTEN)
    (valid : (s.slot k).type ≠ .INVALID) (handled : ready s k e result o = .ok r) :
    Turned s e r.server ∧ Served s k o r (serveFault s k e o) := by
  have still : ¬ e.read = true → serveFault s k e o = .sound := fun quiet => if_neg fun both => quiet both.1.2.2.2.1
  rcases ready_cases handled with ⟨readable, m, read, rfl⟩ | ⟨quiet, sent⟩ | ⟨quiet, rfl⟩
  · obtain ⟨frame, effect⟩ := read_half_ok other valid readable read
    by_cases writable : e.write = true
    · rw [if_pos writable]
      refine ⟨⟨frame.pipe, frame.checkctrl, .inr ⟨?_, ?_⟩⟩, .worked _ frame.others effect (absurd · other.2)⟩
      · simp only [put_back, frame.ev, frame.event_index]
      · simp only [put_back, frame.event_index]
    · rw [if_neg writable]
      exact ⟨Turned.of_frame frame, .worked _ frame.others effect (absurd · other.2)⟩
  · obtain ⟨frame, effect, -⟩ := send_buffer_effect valid sent
    rw [still quiet]
    exact ⟨Turned.of_frame frame, .worked _ frame.others effect (absurd · other.2)⟩
  · rw [still quiet]
    exact ⟨Turned.of_frame (Frame.refl k s), .worked _ (fun _ _ => rfl) (Effect.unchanged _ _) (absurd · other.2)⟩

theorem serve_ok (handled : serve s k e result o = .ok (r, sweep)) :
    Turned s e r.server ∧ Served s k o r (serveFault s k e o) := by
  have quiet : ¬ Forwards s k e → serveFault s k e o = .sound := fun other => if_neg fun both => other both.1
  rcases serve_cases handled with ⟨type, reported, -⟩ | ⟨type, reported, -⟩ | ⟨type, rfl, -⟩ | ⟨other, valid, served, -⟩
  · obtain ⟨frame, effect⟩ := report_connect_effect type reported
    rw [quiet fun forwards => forwards.1 type]
    exact ⟨Turned.of_frame frame, .worked _ frame.others effect (by simp [type])⟩
  · rw [quiet fun forwards => forwards.2.1 type]
    obtain ⟨⟨pipe, ev, event_index, checkctrl⟩, outcome⟩ := report_accept_ok reported
    refine ⟨⟨pipe, checkctrl, .inl ⟨ev, event_index⟩⟩, ?_⟩
    rcases outcome with ⟨slots, balance, -, refused⟩ | ⟨id, vacant, others, control, free, balance, acquired, reserved, -⟩
    · exact .worked _ (fun j _ => by rw [slots]) (.kept (by rw [slots]) balance) fun _ => refused
    · exact .accepted id type vacant others control free balance acquired reserved
  · rw [quiet fun forwards => forwards.2.2.1 type]
    exact ⟨Turned.of_frame (Frame.refl k s), .worked _ (fun _ _ => rfl) (Effect.unchanged _ _) (by simp [type])⟩
  · exact ready_ok other valid served

/-- A dispatched event is that of the control pipe, or it is served for its slot. -/
theorem dispatch_ok (handled : dispatch s result o = .ok (r, sweep)) : ∃ e, s.ev[s.event_index]? = some e ∧
    r.server.pipe = s.pipe ∧ r.server.checkctrl = s.checkctrl ∧ Picked s r.server ∧
    ((e.s = none ∧ r.server.slot = s.slot ∧ r.server.kernel = s.kernel ∧ r.type = -1) ∨
      ∃ k, e.s = some k ∧ Served s k o r (serveFault s k e o)) := by
  obtain ⟨e, current, ⟨slot, rfl, -⟩ | ⟨k, slot, handled⟩⟩ := dispatch_cases handled
  · exact ⟨e, current, rfl, rfl, .done rfl rfl, .inl ⟨slot, rfl, rfl, rfl⟩⟩
  · obtain ⟨⟨pipe, checkctrl, batch⟩, served⟩ := serve_ok handled
    refine ⟨e, current, pipe, checkctrl, ?_, .inr ⟨k, slot, served.of_index⟩⟩
    rcases batch with ⟨ev, index⟩ | ⟨ev, index⟩
    · exact .done ev index
    · exact .again e current ev index

theorem ready_new_socket (valid : (s.slot k).type ≠ .INVALID) :
    ready s k e result o ≠ .error (.assertion .new_socket) := by
  intro failed
  unfold ready at failed
  by_cases readable : e.read = true
  · rw [if_pos readable] at failed
    rcases bind_error failed with early | ⟨r, -, late⟩
    · exact read_half_error early
    · cases late
  rw [if_neg readable] at failed
  by_cases writable : e.write = true
  · rw [if_pos writable] at failed
    rcases send_buffer_error valid failed with wrong | wrong <;> cases wrong
  · rw [if_neg writable] at failed
    cases failed

theorem serve_new_socket : serve s k e result o ≠ .error (.assertion .new_socket) := by
  intro failed
  simp only [serve] at failed
  cases type : (s.slot k).type with
  | CONNECTING =>
    simp only [type] at failed
    rcases bind_error failed with early | ⟨r, -, late⟩
    · cases report_connect_error early
    · cases late
  | LISTEN =>
    simp only [type] at failed
    rcases bind_error failed with early | ⟨r, -, late⟩
    · obtain ⟨r, total⟩ := report_accept_total s k result o
      rw [total] at early
      cases early
    · cases late
  | INVALID =>
    simp only [type] at failed
    cases failed
  | _ =>
    simp only [type] at failed
    rcases bind_error failed with early | ⟨r, -, late⟩
    · exact ready_new_socket (by simp [type]) early
    · cases late

/-- A dispatched event does not come to the assertion of `new_socket`: an accepted
    connection is put into the slot just reserved for it. -/
theorem dispatch_new_socket : dispatch s result o ≠ .error (.assertion .new_socket) := by
  intro failed
  simp only [dispatch] at failed
  cases current : s.ev[s.event_index]? with
  | none =>
    simp only [current] at failed
    cases failed
  | some e =>
    simp only [current] at failed
    cases slot : e.s with
    | none =>
      simp only [slot] at failed
      cases failed
    | some k =>
      simp only [slot] at failed
      exact serve_new_socket failed

end

/-! ### Clients -/

/-- The reservation a client is about to write to the pipe. -/
def Client.reserved : Client → Option Int
  | .requesting request => reservation request
  | _ => none

/-- The descriptor that a listen request carries. -/
def carried : Request Int (List Byte) → Option Int
  | request_listen _ fd _ => some fd
  | _ => none

def Reserving.inHand : Reserving → Option Int
  | .server_listen _ fd => some fd
  | _ => none

/-- The descriptor that a call of `server_listen` has obtained. -/
def Client.inHand : Client → Option Int
  | .drawing call _ | .masking call _ | .probing call _ _ | .swapping call _ _ => call.inHand
  | .requesting request => carried request

/-- The client is about to do a compare-and-swap that succeeds. -/
def Client.Swaps (s : Server) (id : Int) (c : Client) : Prop :=
  (∃ call i, c = .swapping call i id) ∧ (s.slot (HASH_ID id)).type = .INVALID

instance (s : Server) (id : Int) : (c : Client) → Decidable (c.Swaps s id)
  | .swapping call i own =>
    decidable_of_iff (own = id ∧ (s.slot (HASH_ID id)).type = .INVALID)
      ⟨fun ⟨same, free⟩ => ⟨⟨call, i, by rw [same]⟩, free⟩, fun ⟨⟨_, _, same⟩, free⟩ => by cases same; exact ⟨rfl, free⟩⟩
  | .drawing _ _ | .masking _ _ | .probing _ _ _ | .requesting _ => isFalse (by simp [Client.Swaps])

/-- What the next step of a client does. -/
inductive Advanced (s : Server) (c : Client) : Server → Option Client → Prop
  | moved (d : Client) (alloc_id : Int) (idle : c.reserved = none) (still : d.reserved = none)
      (inHand : d.inHand = c.inHand) (unswapped : ∀ id, ¬ c.Swaps s id) :
      Advanced s c { s with alloc_id := alloc_id } (some d)
  | gave_up (idle : c.reserved = none) (ker : Kernel)
      (closed : ker = c.inHand.elim s.kernel s.kernel.close) (unswapped : ∀ id, ¬ c.Swaps s id) :
      Advanced s c (s.setKernel ker) none
  | reserved (call : Reserving) (i : Nat) (id : Int) (is : c = .swapping call i id)
      (vacant : (s.slot (HASH_ID id)).type = .INVALID) :
      Advanced s c (reserve s id) (some (.requesting (call.request id)))
  | requested (request : Request Int (List Byte)) (is : c = .requesting request) :
      Advanced s c { s with pipe := s.pipe ++ [request] } none

theorem Client.advanced (s : Server) (c : Client) : Advanced s c (c.advance s).1 (c.advance s).2 := by
  cases c with
  | drawing call i =>
    simp only [Client.advance]
    split <;> exact .moved _ _ rfl rfl rfl (by simp [Swaps])
  | masking call i => exact .moved _ _ rfl rfl rfl (by simp [Swaps])
  | probing call i id =>
    simp only [Client.advance]
    by_cases vacant : (s.slot (HASH_ID id)).type = .INVALID
    · rw [if_pos vacant]
      exact .moved (.swapping call i id) s.alloc_id rfl rfl rfl (by simp [Swaps])
    rw [if_neg vacant]
    by_cases more : i + 1 < MAX_SOCKET
    · rw [if_pos more]
      exact .moved (.drawing call (i + 1)) s.alloc_id rfl rfl rfl (by simp [Swaps])
    · have closed : call.give_up s = s.setKernel (call.inHand.elim s.kernel s.kernel.close) := by
        cases call <;> rfl
      rw [if_neg more, closed]
      exact .gave_up rfl _ rfl (by simp [Swaps])
  | swapping call i id =>
    simp only [Client.advance]
    by_cases vacant : (s.slot (HASH_ID id)).type = .INVALID
    · rw [if_pos vacant]
      exact .reserved call i id rfl vacant
    · rw [if_neg vacant]
      refine .moved (.drawing call i) s.alloc_id rfl rfl rfl ?_
      rintro other ⟨⟨_, _, same⟩, free⟩
      cases same
      exact vacant free
  | requesting request => exact .requested request rfl

/-- What the beginning of a public call does: it may obtain a descriptor, for the
    client that then holds it. -/
structure Started (s r : Server) (next : Option Client) : Prop where
  only : r = s.setKernel r.kernel
  idle : next.bind Client.reserved = none
  inHand : (next.bind Client.inHand = none ∧ r.kernel.balance = s.kernel.balance) ∨
    ∃ sock, next.bind Client.inHand = some sock ∧ s.kernel.balance sock ≤ 0 ∧
      r.kernel.balance = Function.update s.kernel.balance sock (s.kernel.balance sock + 1)

theorem Started.slot {s r : Server} {next : Option Client} (started : Started s r next) : r.slot = s.slot := by
  rw [started.only, Server.setKernel_slot]

theorem Started.pipe {s r : Server} {next : Option Client} (started : Started s r next) : r.pipe = s.pipe := by
  rw [started.only, Server.setKernel_pipe]

theorem Started.ev {s r : Server} {next : Option Client} (started : Started s r next) : r.ev = s.ev := by
  rw [started.only, Server.setKernel_ev]

theorem Started.event_index {s r : Server} {next : Option Client} (started : Started s r next) :
    r.event_index = s.event_index := by
  rw [started.only, Server.setKernel_event_index]

theorem ApiCall.started (s : Server) (c : ApiCall) : Started s (c.start s).1 (c.start s).2 := by
  cases c with
  | server_listen opaqueVal sock listens =>
    simp only [ApiCall.start, do_listen]
    cases acquired : s.kernel.acquire sock with
    | none => exact ⟨rfl, rfl, .inl ⟨rfl, rfl⟩⟩
    | some ker =>
      obtain ⟨-, free, balance⟩ := Kernel.acquire_balance acquired
      cases listens with
      | true => exact ⟨rfl, rfl, .inr ⟨sock, rfl, free, balance⟩⟩
      | false => exact ⟨rfl, rfl, .inl ⟨rfl, Kernel.acquire_close_balance acquired⟩⟩
  | server_connect opaqueVal addr port =>
    rw [ApiCall.start]
    generalize admission addr = taken
    cases taken <;> exact ⟨rfl, rfl, .inl ⟨rfl, rfl⟩⟩
  | server_send id buffer =>
    simp only [ApiCall.start]
    split <;> exact ⟨rfl, rfl, .inl ⟨rfl, rfl⟩⟩
  | _ => exact ⟨rfl, rfl, .inl ⟨rfl, rfl⟩⟩

/-! ### The steps of the system -/

/-- The fault that a step of the system comes to. -/
def Sys.fault (s : Sys) : Action → Fault
  | .command o =>
    match s.server.pipe with
    | request :: _ => commandFault s.server o request
    | [] => .sound
  | .dispatch o =>
    match s.server.ev[s.server.event_index]? with
    | some e => e.s.elim .sound fun k => serveFault s.server k e o
    | none => .sound
  | _ => .sound

theorem fault_command {s : Sys} {o : Outcome} {request : Request Int (List Byte)} {pipe : List (Request Int (List Byte))}
    (waiting : s.server.pipe = request :: pipe) : s.fault (.command o) = commandFault s.server o request := by
  simp only [Sys.fault, waiting]

theorem fault_dispatch {s : Sys} {o : Outcome} {e : Event} {k : Index}
    (current : s.server.ev[s.server.event_index]? = some e) (slot : e.s = some k) :
    s.fault (.dispatch o) = serveFault s.server k e o := by
  simp only [Sys.fault, current, slot, Option.elim_some]

theorem commandFault_congr (s : Server) (pipe : List (Request Int (List Byte))) (o : Outcome)
    (request : Request Int (List Byte)) : commandFault { s with pipe := pipe } o request = commandFault s o request := by
  cases request <;> rfl

section
variable {s t : Sys}

theorem step_advance {j : Nat} (stepped : step s (.advance j) = .ok t) : ∃ c, s.clients[j]? = some c ∧
    t = s.client (s.clients.eraseIdx j) (c.advance s.server) := by
  cases member : s.clients[j]? with
  | none =>
    simp only [step, member] at stepped
    cases stepped
  | some c =>
    simp only [step, member] at stepped
    cases stepped
    exact ⟨c, rfl, rfl⟩

theorem step_command {o : Outcome} (stepped : step s (.command o) = .ok t) : ∃ request pipe r, s.pc = .looping ∧
    s.server.pipe = request :: pipe ∧ ctrl_cmd { s.server with pipe := pipe } request s.result o = .ok r ∧
    t = s.handled r true := by
  simp only [step] at stepped
  split at stepped
  · rename_i request pipe looping _ waiting
    obtain ⟨r, handled, ended⟩ := bind_ok stepped
    cases ended
    exact ⟨request, pipe, r, looping, waiting, handled, rfl⟩
  · cases stepped

theorem step_dispatch {o : Outcome} (stepped : step s (.dispatch o) = .ok t) : ∃ r sweep, s.pc = .picking ∧
    dispatch s.server s.result o = .ok (r, sweep) ∧ t = s.handled r sweep := by
  cases pc : s.pc with
  | picking =>
    simp only [step, pc] at stepped
    obtain ⟨⟨r, sweep⟩, handled, ended⟩ := bind_ok stepped
    cases ended
    exact ⟨r, sweep, rfl, handled, rfl⟩
  | _ =>
    simp only [step, pc] at stepped
    cases stepped

/-- The steps of the poll thread that end no handler. -/
inductive Idle : Action → Prop
  | enter : Idle .enter
  | noCommand : Idle .noCommand
  | wait (ready : List Readiness) : Idle (.wait ready)
  | sweep : Idle .sweep

/-- The other steps of the poll thread leave the slots, the pipe and the kernel alone. -/
theorem step_other {a : Action} (stepped : step s a = .ok t) (idle : Idle a) :
    t.server.slot = s.server.slot ∧ t.server.pipe = s.server.pipe ∧ t.server.kernel = s.server.kernel ∧
      t.clients = s.clients ∧ t.result = s.result := by
  cases idle
  all_goals simp only [step] at stepped
  · split at stepped <;> cases stepped
    exact ⟨rfl, rfl, rfl, rfl, rfl⟩
  · split at stepped <;> cases stepped
    exact ⟨rfl, rfl, rfl, rfl, rfl⟩
  · split at stepped <;> cases stepped
    exact ⟨rfl, rfl, rfl, rfl, rfl⟩
  · split at stepped <;> cases stepped
    unfold clear_closed_event
    split <;> exact ⟨rfl, rfl, rfl, rfl, rfl⟩

end

end Canna.Poll
