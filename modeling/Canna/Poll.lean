import Canna.Effects
import Canna.Lts

/-!
# The poll thread and its clients

The whole system as one step function: the threads of the public calls, any number
of them, interleaved with the poll thread. Of `reserve_id`, the increment of
`alloc_id`, its masking, the test of the slot and the compare-and-swap, with the
writes that follow it, are separate steps. Of `poll`, the test for a command, a
handled command, `wait`, each dispatched event and the sweep of `clear_closed_event`
are. The control pipe is a queue of whole requests. `stored` is no part of the
program: it keeps the ids the slots held when `wait` last stored its events.
-/
namespace Canna.Poll
open Canna.Sockets Canna.SocketServer Canna.ControlPipe Canna.Lts
open Canna.ControlPipe.Request

/-! ### Clients -/

/-- A public call that reserves an id, after what it does before that. -/
inductive Reserving
  | server_listen (opaqueVal : UInt64) (fd : Int)
  | server_bind (opaqueVal : UInt64) (fd : Int)
  | server_connect (opaqueVal : UInt64) (host : List Byte) (port : Int)
  deriving DecidableEq

/-- The request it makes with its id. -/
def Reserving.request (id : Int) : Reserving → Request Int (List Byte)
  | .server_listen opaqueVal fd => request_listen id fd opaqueVal
  | .server_bind opaqueVal fd => request_bind id fd opaqueVal
  | .server_connect opaqueVal host port => request_open id port opaqueVal host

/-- Where the thread of a public call stands: in turn `i` of the loop of `reserve_id`,
    before the increment, the mask, the test or the compare-and-swap, or before it
    writes its request. -/
inductive Client
  | drawing (call : Reserving) (i : Nat)
  | masking (call : Reserving) (i : Nat)
  | probing (call : Reserving) (i : Nat) (id : Int)
  | swapping (call : Reserving) (i : Nat) (id : Int)
  | requesting (request : Request Int (List Byte))
  deriving DecidableEq

/-- What a call does when `reserve_id` returns -1. -/
def Reserving.give_up (s : Server) : Reserving → Server
  | .server_listen _ fd => s.setKernel (s.kernel.close fd)
  | _ => s

/-- The next step of a client; it is `none` once the call has returned. -/
def Client.advance (s : Server) : Client → Server × Option Client
  | .drawing call i =>
    let id := cint (s.alloc_id + 1)
    ({ s with alloc_id := id }, some (if id < 0 then .masking call i else .probing call i id))
  | .masking call i =>
    let id := s.alloc_id % 2 ^ 31
    ({ s with alloc_id := id }, some (.probing call i id))
  | .probing call i id =>
    if (s.slot (HASH_ID id)).type = .INVALID then (s, some (.swapping call i id))
    else if i + 1 < MAX_SOCKET then (s, some (.drawing call (i + 1)))
    else (call.give_up s, none)
  | .swapping call i id =>
    if (s.slot (HASH_ID id)).type = .INVALID then (reserve s id, some (.requesting (call.request id)))
    else (s, some (.drawing call i))
  | .requesting request => ({ s with pipe := s.pipe ++ [request] }, none)

/-- A public call with its arguments. That of `server_listen` is what becomes of
    its address: the descriptor of `socket`, and whether it is bound and listens. -/
inductive ApiCall
  | server_listen (opaqueVal : UInt64) (sock : Int) (listens : Bool)
  | server_start (opaqueVal : UInt64) (id : Int)
  | server_bind (opaqueVal : UInt64) (fd : Int)
  | server_connect (opaqueVal : UInt64) (addr : CString) (port : Int)
  | server_close (opaqueVal : UInt64) (id : Int)
  | server_send (id : Int) (buffer : List Byte)
  | server_exit

/-- `do_listen`; the descriptor, or `none` for -1. -/
def do_listen (ker : Kernel) (sock : Int) (listens : Bool) : Kernel × Option Int :=
  match ker.acquire sock with
  | none => (ker, none)
  | some ker => if listens then (ker, some sock) else (ker.close sock, none)

/-- `server_connect`, with what becomes of its address. -/
def connect_call (s : Server) (opaqueVal : UInt64) (addr : CString) (port : Int) : Admission → Server × Option Client
  | .accepted len => (s, some (.drawing (.server_connect opaqueVal (addr.val.take len) port) 0))
  | _ => (s, none)

/-- A call up to its first shared step; it is `none` when the call returns -1. -/
def ApiCall.start (s : Server) : ApiCall → Server × Option Client
  | .server_listen opaqueVal sock listens =>
    match do_listen s.kernel sock listens with
    | (ker, none) => (s.setKernel ker, none)
    | (ker, some fd) => (s.setKernel ker, some (.drawing (.server_listen opaqueVal fd) 0))
  | .server_start opaqueVal id => (s, some (.requesting (request_start id opaqueVal)))
  | .server_bind opaqueVal fd => (s, some (.drawing (.server_bind opaqueVal fd) 0))
  | .server_connect opaqueVal addr port => connect_call s opaqueVal addr port (admission addr)
  | .server_close opaqueVal id => (s, some (.requesting (request_close id opaqueVal)))
  | .server_send id buffer =>
    let x := s.slot (HASH_ID id)
    if id ≠ x.id ∨ x.type = .INVALID then (s, none)
    else (s, some (.requesting (request_send id buffer.length buffer)))
  | .server_exit => (s, some (.requesting request_exit))

/-! ### The poll thread -/

/-- Where the poll thread stands: outside `poll`, with the value it last returned, at
    the head of the loop, past the test for commands, or before the sweep that
    precedes the return of a value. -/
inductive Pc
  | outside (type : Int)
  | looping
  | picking
  | sweeping (type : Int)
  deriving DecidableEq

def MAX_EVENT : Nat := 64

structure Sys where
  server : Server
  clients : List Client
  pc : Pc
  result : Message
  stored : Index → Int

/-- The events that `wait` stores. -/
def wait (ker : Kernel) (ready : List Readiness) : List Event := (ready.filterMap ker.event).take MAX_EVENT

/-- The read half of an event. -/
def read_half (s : Server) (k : Index) (result : Message) (o : Outcome) : Except Halt Reply :=
  if (s.slot k).protocol = PROTOCOL_TCP then forward_message_tcp s k result o else .ok ⟨s, result, -1⟩

/-- The event before `event_index` put back for its write half. -/
def put_back (s : Server) (e : Event) : Server :=
  { s with ev := s.ev.set (s.event_index - 1) { e with read := false }, event_index := s.event_index - 1 }

/-- The `default` case of the switch of `poll`. -/
def ready (s : Server) (k : Index) (e : Event) (result : Message) (o : Outcome) : Except Halt Reply :=
  if e.read then do
    let r ← read_half s k result o
    return if e.write then { r with server := put_back r.server e } else r
  else if e.write then send_buffer s k result o.writes
  else .ok ⟨s, result, -1⟩

/-- The switch of `poll` on the slot of an event, the one before `event_index`, with
    whether a value it yields is returned after a sweep. -/
def serve (s : Server) (k : Index) (e : Event) (result : Message) (o : Outcome) : Except Halt (Reply × Bool) :=
  match (s.slot k).type with
  | .CONNECTING => return (← report_connect s k o, false)
  | .LISTEN => return (← report_accept s k result o, false)
  | .INVALID => .ok (⟨s, result, -1⟩, false)
  | _ => return (← ready s k e result o, true)

/-- One event of the batch, from its place to what its handler returns. -/
def dispatch (s : Server) (result : Message) (o : Outcome) : Except Halt (Reply × Bool) :=
  match s.ev[s.event_index]? with
  | none => .error .disabled
  | some e =>
    let s := { s with event_index := s.event_index + 1 }
    match e.s with
    | none => .ok (⟨s, result, -1⟩, false)
    | some k => serve s k e result o

/-- Where `poll` goes on after a handler. -/
def proceed (type : Int) (sweep : Bool) : Pc :=
  if type = -1 then .looping else if sweep then .sweeping type else .outside type

inductive Action
  | call (c : ApiCall)
  | advance (j : Nat)
  | enter
  | command (o : Outcome)
  | noCommand
  | wait (ready : List Readiness)
  | dispatch (o : Outcome)
  | sweep

namespace Sys

/-- A step of a client, with what becomes of the client and the others. -/
def client (s : Sys) (others : List Client) (r : Server × Option Client) : Sys :=
  { s with server := r.1, clients := r.2.toList ++ others }

/-- A step of the poll thread that ends a handler. -/
def handled (s : Sys) (r : Reply) (sweep : Bool) : Sys :=
  { s with server := r.server, result := r.result, pc := proceed r.type sweep }

end Sys

def step (s : Sys) : Action → Except Halt Sys
  | .call c => .ok (s.client s.clients (c.start s.server))
  | .advance j =>
    match s.clients[j]? with
    | none => .error .disabled
    | some c => .ok (s.client (s.clients.eraseIdx j) (c.advance s.server))
  | .enter =>
    match s.pc with
    | .outside _ => .ok { s with pc := .looping }
    | _ => .error .disabled
  | .command o =>
    match s.pc, s.server.checkctrl, s.server.pipe with
    | .looping, true, request :: pipe => do
      let r ← ctrl_cmd { s.server with pipe := pipe } request s.result o
      return s.handled r true
    | _, _, _ => .error .disabled
  | .noCommand =>
    match s.pc with
    | .looping => .ok { s with server := { s.server with checkctrl := false }, pc := .picking }
    | _ => .error .disabled
  | .wait ready =>
    if s.pc = .picking ∧ s.server.event_index = s.server.event_n then
      let ev := Poll.wait s.server.kernel ready
      .ok { s with
        server := { s.server with checkctrl := true, ev := ev, event_index := 0 }
        pc := if ev = [] then .outside (-1) else .picking
        stored := fun k => (s.server.slot k).id }
    else .error .disabled
  | .dispatch o =>
    match s.pc with
    | .picking => do
      let (r, sweep) ← Poll.dispatch s.server s.result o
      return s.handled r sweep
    | _ => .error .disabled
  | .sweep =>
    match s.pc with
    | .sweeping type =>
      .ok { s with server := clear_closed_event s.server s.result type, pc := .outside type }
    | _ => .error .disabled

/-- The server after `initialize`, which leaves the other fields of the slots as they
    were in memory. -/
def initialize_server (memory : Index → Socket) : Server where
  checkctrl := true
  alloc_id := 0
  ev := []
  event_index := 0
  slot k := { memory k with type := .INVALID, high := .wb_clear, low := .wb_clear }
  pipe := []
  kernel := ⟨fun _ => none, fun _ => 0, fun _ => 0, fun _ => [], fun _ => []⟩

/-- An initialised server before its first call, with any value of `alloc_id`. -/
def initial (memory : Index → Socket) (alloc_id : Int) (result : Message) : Sys where
  server := { initialize_server memory with alloc_id := alloc_id }
  clients := []
  pc := .outside (-1)
  result := result
  stored _ := 0

/-- A server whose memory was zeroed. -/
def zeroed : Sys := initial (fun _ => ⟨0, .wb_clear, .wb_clear, 0, 0, 0, 0, .INVALID, 0⟩) 0 ⟨0, 0, 0, .nullptr⟩

/-- A client that binds descriptor 5, up to its request. -/
def binding : List Action := [.call (.server_bind 0 5), .advance 0, .advance 0, .advance 0, .advance 0]

/-- Descriptor 5 is bound, under id 1. -/
def opening : List Action := binding ++ [.enter, .command {}, .sweep]

/-- It is then found ready. -/
def reading : List Action := opening ++ [.enter, .noCommand, .wait [.descriptor 5 true false]]

/-- The runs of the system. -/
abbrev SysRun (s : Sys) (ms : List (Move Sys Action)) (t : Sys) : Prop := Run (Succeeds step) s ms t

end Canna.Poll
