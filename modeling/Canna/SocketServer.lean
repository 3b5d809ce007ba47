import Canna.Sockets

/-!
# The handlers of the socket server

The functions of `socket_server` that the poll thread runs, each in one piece: those
of the control requests, of the events, and what they share. `Outcome` holds what
the kernel answers to the system calls of one of them. A handler takes the result
message it may fill in and returns it with its return code (`Reply`).
-/
namespace Canna.SocketServer
open Canna.Sockets Canna.ControlPipe
open Canna.ControlPipe.Request

/-! ### Outcomes of system calls -/

inductive WriteResult
  | accepted (n : Nat)
  | EINTR
  | EAGAIN
  | failed
  deriving DecidableEq

/-- The bytes that have arrived, none at the end of the connection, or an error. -/
inductive ReadResult
  | received (bytes : List Byte)
  | EINTR
  | EAGAIN
  | failed
  deriving DecidableEq

inductive ConnectResult
  | succeeded
  | inProgress
  | failed
  deriving DecidableEq

/-- One address of `getaddrinfo`: the descriptor that `socket` returns for it, what
    `connect` answers, and the text `inet_ntop` makes of it. -/
structure Attempt where
  sock : Int
  connect : ConnectResult
  ntop : Option String
  deriving DecidableEq

structure Outcome where
  /-- `epoll_ctl` adds the descriptor. -/
  admitted : Bool := true
  /-- The descriptor of `accept`, and the text of its peer. -/
  accepted : Int := -1
  peer : Option String := none
  /-- The addresses of `getaddrinfo`. -/
  addresses : Option (List Attempt) := none
  /-- `getsockopt` fails or finds an error. -/
  error : Bool := false
  /-- `getpeername` fails, and the text `inet_ntop` then makes. -/
  getpeername : Bool := false
  ntop : Option String := none
  read : ReadResult := .EAGAIN
  writes : List WriteResult := []

structure Reply where
  server : Server
  result : Message
  type : Int

/-! ### Slots -/

/-- The id that `reserve_id` draws: the next number, without its sign bit. -/
def draw_id (alloc_id : Int) : Int :=
  let id := cint (alloc_id + 1)
  if id < 0 then id % 2 ^ 31 else id

/-- The slot of an id reserved for it, after a compare-and-swap that succeeds. -/
def reserve (s : Server) (id : Int) : Server :=
  s.setSlot (HASH_ID id) { s.slot (HASH_ID id) with type := .RESERVE, id := id, fd := -1 }

/-- At most this many turns of the loop of `reserve_id`; `none` stands for -1. -/
def probe : Nat → Server → Option Int × Server
  | 0, s => (none, s)
  | i + 1, s =>
    let id := draw_id s.alloc_id
    let s := { s with alloc_id := id }
    if (s.slot (HASH_ID id)).type = .INVALID then (some id, reserve s id) else probe i s

/-- `reserve_id` without a concurrent call, so that the compare-and-swap succeeds. -/
@[irreducible] def reserve_id (s : Server) : Option Int × Server := probe MAX_SOCKET s

/-- `new_socket`; the slot it returns, or `none` for a null pointer. -/
def new_socket (s : Server) (id fd : Int) (protocol : Nat) (opaqueVal : UInt64) (add admitted : Bool) :
    Except Halt (Server × Option Index) :=
  let k := HASH_ID id
  if (s.slot k).type ≠ .RESERVE then .error (.assertion .new_socket)
  else
    match (if add then s.kernel.add fd k admitted else some s.kernel) with
    | none => .ok (s.setType k .INVALID, none)
    | some ker =>
      .ok ((s.setKernel ker).setSlot k
        { s.slot k with id := id, fd := fd, protocol := protocol, opaqueVal := opaqueVal }, some k)

def force_close (s : Server) (k : Index) : Except Halt (Server × Message) :=
  let x := s.slot k
  let result : Message := ⟨x.id, x.opaqueVal, 0, .nullptr⟩
  if x.type = .INVALID then .ok (s, result)
  else if x.type = .RESERVE then .error (.assertion .force_close)
  else
    let ker := if x.type ≠ .PACCEPT ∧ x.type ≠ .PLISTEN then s.kernel.del x.fd else s.kernel
    let ker := if x.type ≠ .BIND then ker.close x.fd else ker
    .ok ((s.setKernel ker).setSlot k
      { x with high := .wb_clear, low := .wb_clear, type := .INVALID }, result)

/-! ### Write queues -/

/-- One of the two queues of a slot. -/
inductive Queue
  | high
  | low
  deriving DecidableEq

def Queue.of (x : Socket) : Queue → WbList
  | .high => x.high
  | .low => x.low

def Queue.set (x : Socket) (list : WbList) : Queue → Socket
  | .high => { x with high := list }
  | .low => { x with low := list }

def send_buffer_empty (x : Socket) : Bool := x.high.head.isEmpty && x.low.head.isEmpty

def list_uncomplete (list : WbList) : Bool :=
  match list.head with
  | [] => false
  | wb :: _ => wb.offset ≠ 0

/-- After a `write` on the head of a list that took `sz` bytes; `list` is what remains. -/
def wrote (s : Server) (k : Index) (q : Queue) (tmp : WriteBuffer) (list : WbList) (sz : Nat) : Server :=
  let x := s.slot k
  (s.setKernel (s.kernel.take x.fd (tmp.bytes.take sz))).setSlot k
    (q.set { x with wb_size := x.wb_size - sz } list)

/-- `send_list_tcp`, with the outcomes of its writes; once they are used up, `write`
    would block. -/
def send_list_tcp (s : Server) (k : Index) (q : Queue) (result : Message) :
    List WriteResult → Except Halt (Reply × List WriteResult)
  | [] =>
    match (q.of (s.slot k)).head with
    | [] => .ok (⟨s.setSlot k (q.set (s.slot k) ⟨[], none⟩), result, -1⟩, [])
    | _ :: _ => .ok (⟨s, result, -1⟩, [])
  | outcome :: writes =>
    match (q.of (s.slot k)).head with
    | [] => .ok (⟨s.setSlot k (q.set (s.slot k) ⟨[], none⟩), result, -1⟩, outcome :: writes)
    | tmp :: next =>
      match outcome with
      | .EINTR => send_list_tcp s k q result writes
      | .EAGAIN => .ok (⟨s, result, -1⟩, writes)
      | .failed => do
        let (s, result) ← force_close s k
        return (⟨s, result, SOCKET_CLOSE⟩, writes)
      | .accepted n =>
        let sz := min n tmp.bytes.length
        let tail := (q.of (s.slot k)).tail
        if sz ≠ tmp.bytes.length then
          let rest := { tmp with offset := tmp.offset + sz, bytes := tmp.bytes.drop sz }
          .ok (⟨wrote s k q tmp ⟨rest :: next, tail⟩ sz, result, -1⟩, writes)
        else send_list_tcp (wrote s k q tmp ⟨next, tail⟩ sz) k q result writes

/-- `send_list`, which compares the type of the slot with the number of a protocol. -/
def send_list (s : Server) (k : Index) (q : Queue) (result : Message) (writes : List WriteResult) :
    Except Halt (Reply × List WriteResult) :=
  if (s.slot k).type.code = PROTOCOL_TCP then send_list_tcp s k q result writes
  else .ok (⟨s, result, 0⟩, writes)

def raise_uncomplete (s : Server) (k : Index) : Except Halt Server :=
  let x := s.slot k
  match x.low.head with
  | [] => .error .nullDereference
  | tmp :: next =>
    if x.high.head ≠ [] then .error (.assertion .raise_uncomplete)
    else .ok (s.setSlot k
      { x with
        low := ⟨next, if next = [] then none else x.low.tail⟩
        high := ⟨[tmp], some tmp.addr⟩ })

def send_buffer (s : Server) (k : Index) (result : Message) (writes : List WriteResult) : Except Halt Reply :=
  if list_uncomplete (s.slot k).low then .error (.assertion .send_buffer)
  else do
    let (⟨s, result, type⟩, writes) ← send_list s k .high result writes
    if type = SOCKET_CLOSE then return ⟨s, result, SOCKET_CLOSE⟩
    else if (s.slot k).high.head ≠ [] then return ⟨s, result, -1⟩
    else if (s.slot k).low.head ≠ [] then
      let (⟨s, result, type⟩, _) ← send_list s k .low result writes
      if type = SOCKET_CLOSE then return ⟨s, result, SOCKET_CLOSE⟩
      else if list_uncomplete (s.slot k).low then
        let s ← raise_uncomplete s k
        return ⟨s, result, -1⟩
      else return ⟨s, result, -1⟩
    else
      let s := s.setKernel (s.kernel.write (s.slot k).fd k false)
      if (s.slot k).type = .HALFCLOSE then
        let (s, result) ← force_close s k
        return ⟨s, result, SOCKET_CLOSE⟩
      else return ⟨s, result, -1⟩

/-! ### Control requests -/

def listen_socket (s : Server) (id listen_fd : Int) (opaqueVal : UInt64) (result : Message) : Except Halt Reply := do
  let (s, ns) ← new_socket s id listen_fd PROTOCOL_TCP opaqueVal false true
  match ns with
  | some k => return ⟨s.setType k .PLISTEN, result, -1⟩
  | none =>
    return ⟨(s.setKernel (s.kernel.close listen_fd)).setType (HASH_ID id) .INVALID,
      ⟨id, opaqueVal, 0, .nullptr⟩, SOCKET_ERROR⟩

def start_socket (s : Server) (id : Int) (opaqueVal : UInt64) (o : Outcome) : Reply :=
  let k := HASH_ID id
  let x := s.slot k
  let result : Message := ⟨id, opaqueVal, 0, .nullptr⟩
  if x.type = .INVALID ∨ x.id ≠ id then ⟨s, result, SOCKET_ERROR⟩
  else if x.type = .PACCEPT ∨ x.type = .PLISTEN then
    match s.kernel.add x.fd k o.admitted with
    | none => ⟨s.setType k .INVALID, result, SOCKET_ERROR⟩
    | some ker =>
      let type := if x.type = .PACCEPT then .CONNECTED else .LISTEN
      ⟨(s.setKernel ker).setSlot k { x with type := type, opaqueVal := opaqueVal },
        { result with data := .text "start" }, SOCKET_OPEN⟩
  else if x.type = .CONNECTED then
    ⟨s.setSlot k { x with opaqueVal := opaqueVal }, { result with data := .text "transfer" }, SOCKET_OPEN⟩
  else ⟨s, result, -1⟩

def bind_socket (s : Server) (id fd : Int) (opaqueVal : UInt64) (o : Outcome) : Except Halt Reply := do
  let result : Message := ⟨id, opaqueVal, 0, .nullptr⟩
  let (s, ns) ← new_socket s id fd PROTOCOL_TCP opaqueVal true o.admitted
  match ns with
  | none => return ⟨s, result, SOCKET_ERROR⟩
  | some k => return ⟨s.setType k .BIND, { result with data := .text "binding" }, SOCKET_OPEN⟩

/-- The loop of `open_socket` over the addresses from `ai_ptr` on: the descriptor and
    the address it stops at. Its condition tests `ai_list`, so that past the last
    address `ai_ptr` is null and is read. -/
def try_addresses (ker : Kernel) : List Attempt → Except Halt (Kernel × Attempt)
  | [] => .error .nullDereference
  | a :: ai_next =>
    match ker.acquire a.sock with
    | none => try_addresses ker ai_next
    | some ker =>
      if a.connect = .failed then try_addresses (ker.close a.sock) ai_next
      else .ok (ker, a)

/-- `open_socket`; the host and the port only determine the addresses. -/
def open_socket (s : Server) (id : Int) (opaqueVal : UInt64) (o : Outcome) : Except Halt Reply :=
  let result : Message := ⟨id, opaqueVal, 0, .nullptr⟩
  match o.addresses with
  | none | some [] => .ok ⟨s.setType (HASH_ID id) .INVALID, result, SOCKET_ERROR⟩
  | some ai_list => do
    let (ker, a) ← try_addresses s.kernel ai_list
    let (s, ns) ← new_socket (s.setKernel ker) id a.sock PROTOCOL_TCP opaqueVal true o.admitted
    match ns with
    | none => .error .nullDereference
    | some k =>
      if a.connect = .succeeded then
        let data := match a.ntop with
          | some text => .text text
          | none => .nullptr
        return ⟨s.setType k .CONNECTED, { result with data := data }, SOCKET_OPEN⟩
      else
        let s := s.setType k .CONNECTING
        return ⟨s.setKernel (s.kernel.write (s.slot k).fd k true), result, -1⟩

/-- The end of `close_socket`, after it has tried to send what was queued. -/
def close_sent (s : Server) (id : Int) (opaqueVal : UInt64) (result : Message) : Except Halt Reply := do
  let k := HASH_ID id
  if send_buffer_empty (s.slot k) then
    let (s, result) ← force_close s k
    return ⟨s, { result with id := id, opaqueVal := opaqueVal }, SOCKET_CLOSE⟩
  else return ⟨s.setType k .HALFCLOSE, result, -1⟩

def close_socket (s : Server) (id : Int) (opaqueVal : UInt64) (result : Message) (o : Outcome) :
    Except Halt Reply := do
  let x := s.slot (HASH_ID id)
  if x.type = .INVALID ∨ x.id ≠ id then return ⟨s, ⟨id, opaqueVal, 0, .nullptr⟩, SOCKET_CLOSE⟩
  else if send_buffer_empty x then close_sent s id opaqueVal result
  else
    let ⟨s, result, type⟩ ← send_buffer s (HASH_ID id) result o.writes
    if type = -1 then return ⟨s, result, type⟩
    else close_sent s id opaqueVal result

/-- `send_socket`. What the kernel does not take at once of the bytes is not kept. -/
def send_socket (s : Server) (id : Int) (sz : Int) (buffer : List Byte) (result : Message) (o : Outcome) :
    Except Halt Reply :=
  let k := HASH_ID id
  let x := s.slot k
  if x.type = .INVALID ∨ x.id ≠ id ∨ x.type = .HALFCLOSE ∨ x.type = .PACCEPT then .ok ⟨s, result, -1⟩
  else if x.type = .PLISTEN ∨ x.type = .LISTEN then .error (.assertion .send_socket)
  else if send_buffer_empty x ∧ x.type = .CONNECTED ∧ x.protocol = PROTOCOL_TCP then
    match o.writes.head? with
    | some .failed => do
      let (s, result) ← force_close s k
      return ⟨s, result, SOCKET_CLOSE⟩
    | some (.accepted n) =>
      let n := min n sz.toNat
      let s := s.setKernel (s.kernel.take x.fd (buffer.take n))
      if n = sz then .ok ⟨s, result, -1⟩
      else .ok ⟨s.setKernel (s.kernel.write x.fd k true), result, -1⟩
    | _ =>
      if 0 = sz then .ok ⟨s, result, -1⟩
      else .ok ⟨s.setKernel (s.kernel.write x.fd k true), result, -1⟩
  else .ok ⟨s, result, -1⟩

def setopt_socket (s : Server) (id what value : Int) : Server :=
  let x := s.slot (HASH_ID id)
  if x.type = .INVALID ∨ x.id ≠ id then s
  else s.setKernel (s.kernel.setsockopt x.fd what value)

/-- The dispatch of `ctrl_cmd` on the request it has read. -/
def ctrl_cmd (s : Server) (request : Request Int (List Byte)) (result : Message) (o : Outcome) :
    Except Halt Reply :=
  match request with
  | request_start id opaqueVal => .ok (start_socket s id opaqueVal o)
  | request_bind id fd opaqueVal => bind_socket s id fd opaqueVal o
  | request_listen id fd opaqueVal => listen_socket s id fd opaqueVal result
  | request_close id opaqueVal => close_socket s id opaqueVal result o
  | request_open id _ opaqueVal _ => open_socket s id opaqueVal o
  | request_exit => .ok ⟨s, ⟨0, 0, 0, .nullptr⟩, SOCKET_EXIT⟩
  | request_send id sz buffer => send_socket s id sz buffer result o
  | request_setopt id what value => .ok ⟨setopt_socket s id what value, result, -1⟩

/-! ### Events -/

/-- `report_accept`; its return value 1 stands for `SOCKET_ACCEPT`, 0 for -1. -/
def report_accept (s : Server) (k : Index) (result : Message) (o : Outcome) : Except Halt Reply :=
  match s.kernel.acquire o.accepted with
  | none => .ok ⟨s, result, -1⟩
  | some ker =>
    let client_fd := o.accepted
    match reserve_id (s.setKernel ker) with
    | (none, s) => .ok ⟨s.setKernel (s.kernel.close client_fd), result, -1⟩
    | (some id, s) => do
      let (s, ns) ← new_socket s id client_fd PROTOCOL_TCP (s.slot k).opaqueVal false true
      match ns with
      | none => return ⟨s.setKernel (s.kernel.close client_fd), result, -1⟩
      | some j =>
        let s := s.setType j .PACCEPT
        let data := match o.peer with
          | some text => .text text
          | none => .nullptr
        return ⟨s, ⟨(s.slot k).id, (s.slot k).opaqueVal, id, data⟩, SOCKET_ACCEPT⟩

def report_connect (s : Server) (k : Index) (o : Outcome) : Except Halt Reply :=
  if o.error then do
    let (s, result) ← force_close s k
    return ⟨s, result, SOCKET_ERROR⟩
  else
    let s := s.setType k .CONNECTED
    let x := s.slot k
    let s := if send_buffer_empty x then s.setKernel (s.kernel.write x.fd k false) else s
    let data := match o.getpeername, o.ntop with
      | true, some text => .text text
      | _, _ => .nullptr
    .ok ⟨s, ⟨x.id, x.opaqueVal, 0, data⟩, SOCKET_OPEN⟩

/-- The size of the next read. -/
def resize (sz n : Int) : Int :=
  if n = sz then cint (sz * 2)
  else if sz > MIN_READ_BUFFER ∧ n * 2 < sz then sz.tdiv 2
  else sz

/-- What `read` delivers of the bytes that have arrived. -/
def delivered (x : Socket) (bytes : List Byte) : List Byte := bytes.take x.size.toNat

def forward_message_tcp (s : Server) (k : Index) (result : Message) (o : Outcome) : Except Halt Reply :=
  let x := s.slot k
  match o.read with
  | .EINTR | .EAGAIN => .ok ⟨s, result, -1⟩
  | .failed => do
    let (s, result) ← force_close s k
    return ⟨s, result, -1⟩
  | .received bytes =>
    let buffer := delivered x bytes
    let n := buffer.length
    if n = 0 then .ok ⟨s, result, -1⟩
    else if x.type = .HALFCLOSE then .ok ⟨s, result, -1⟩
    else .ok ⟨s.setSlot k { x with size := resize x.size n }, ⟨x.id, x.opaqueVal, n, .block buffer⟩, SOCKET_DATA⟩

/-- Whether `clear_closed_event` clears an event. -/
def closed_event (s : Server) (id : Int) (e : Event) : Bool :=
  match e.s with
  | none => false
  | some k => (s.slot k).type = .INVALID ∧ (s.slot k).id = id

def clear_closed_event (s : Server) (result : Message) (type : Int) : Server :=
  if type = SOCKET_CLOSE ∨ type = SOCKET_ERROR then
    { s with
      ev := s.ev.take s.event_index ++
        (s.ev.drop s.event_index).map fun e => if closed_event s result.id e then { e with s := none } else e }
  else s

end Canna.SocketServer
