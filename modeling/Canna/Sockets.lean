import Canna.ControlPipe
import Mathlib.Logic.Function.Basic

/-!
# The data of the socket server

The slots, messages and events of `socket_server`, with the kernel it runs on. The
outcomes of system calls are inputs of the model. The kernel keeps the epoll set and
counts, for every descriptor number, how often the server obtained it and how often
it closed it; their difference is the `balance`. It hands out only numbers that the
server does not hold.
-/
namespace Canna.Sockets
open Canna.ControlPipe (Request)

/-- `SOCKET_TYPE_…`. -/
inductive SocketType
  | INVALID | RESERVE | PLISTEN | LISTEN | CONNECTING | CONNECTED | HALFCLOSE | PACCEPT | BIND
  deriving DecidableEq

/-- The number that stands for a type. -/
def SocketType.code : SocketType → Nat
  | .INVALID => 0 | .RESERVE => 1 | .PLISTEN => 2 | .LISTEN => 3 | .CONNECTING => 4
  | .CONNECTED => 5 | .HALFCLOSE => 6 | .PACCEPT => 7 | .BIND => 8

def PROTOCOL_TCP : Nat := 0
def MIN_READ_BUFFER : Int := 64
def SOCKET_DATA : Int := 0
def SOCKET_CLOSE : Int := 1
def SOCKET_OPEN : Int := 2
def SOCKET_ACCEPT : Int := 3
def SOCKET_ERROR : Int := 4
def SOCKET_EXIT : Int := 5

abbrev MAX_SOCKET : Nat := 65536
abbrev Index := Fin MAX_SOCKET

/-- `HASH_ID`: the id as an unsigned integer, reduced to a slot. -/
def HASH_ID (id : Int) : Index := ⟨(id % 65536).toNat, by rw [MAX_SOCKET]; omega⟩

/-! ### Slots -/

/-- A `write_buffer`: its address, how far `ptr` is into `buffer`, and the `sz` bytes
    from `ptr` on. -/
structure WriteBuffer where
  addr : Nat
  offset : Nat
  bytes : List Byte
  deriving DecidableEq

/-- A `wb_list`: the nodes that `head` leads to, and the node `tail` points to. -/
structure WbList where
  head : List WriteBuffer
  tail : Option Nat
  deriving DecidableEq

def WbList.wb_clear : WbList := ⟨[], none⟩

/-- The bytes a list still describes. -/
def WbList.pending (list : WbList) : List Byte := list.head.flatMap WriteBuffer.bytes

structure Socket where
  opaqueVal : UInt64
  high : WbList
  low : WbList
  wb_size : Int
  fd : Int
  id : Int
  protocol : Nat
  type : SocketType
  size : Int
  deriving DecidableEq

/-- What identifies the connection in a slot: its type, its id and its descriptor. -/
structure Control where
  type : SocketType
  id : Int
  fd : Int
  deriving DecidableEq

def Socket.control (s : Socket) : Control := ⟨s.type, s.id, s.fd⟩

/-! ### Messages and events -/

/-- What the `data` pointer of a message leads to. -/
inductive Data
  | nullptr
  | text (s : String)
  | block (bytes : List Byte)
  deriving DecidableEq

structure Message where
  id : Int
  opaqueVal : UInt64
  ud : Int
  data : Data
  deriving DecidableEq

structure Event where
  s : Option Index
  read : Bool
  write : Bool
  deriving DecidableEq

/-- A descriptor that `epoll_wait` finds ready, or the read end of the control pipe. -/
inductive Readiness
  | control
  | descriptor (fd : Int) (readable writable : Bool)

/-! ### The kernel -/

/-- An entry of the epoll set: the slot in its user data, and `EPOLLOUT`. -/
structure Registration where
  ud : Index
  out : Bool
  deriving DecidableEq

structure Kernel where
  epoll : Int → Option Registration
  opened : Int → Nat
  closed : Int → Nat
  written : Int → List Byte
  /-- The options of `IPPROTO_TCP` that were set, with their values. -/
  options : Int → List (Int × Int)

namespace Kernel

/-- How often a descriptor number was obtained and not closed since. -/
def balance (k : Kernel) (fd : Int) : Int := k.opened fd - k.closed fd

/-- A system call that returns this descriptor, as new; `none` when it fails. -/
def acquire (k : Kernel) (fd : Int) : Option Kernel :=
  if 0 ≤ fd ∧ k.opened fd ≤ k.closed fd then
    some { k with
      opened := Function.update k.opened fd (k.opened fd + 1)
      epoll := Function.update k.epoll fd none
      written := Function.update k.written fd []
      options := Function.update k.options fd [] }
  else none

/-- `close`, which also takes the descriptor out of the epoll set. -/
def close (k : Kernel) (fd : Int) : Kernel :=
  { k with
    closed := Function.update k.closed fd (k.closed fd + 1)
    epoll := Function.update k.epoll fd none }

/-- `write` of which the kernel takes these bytes. -/
def take (k : Kernel) (fd : Int) (bytes : List Byte) : Kernel :=
  { k with written := Function.update k.written fd (k.written fd ++ bytes) }

/-- `setsockopt` at the level of `IPPROTO_TCP`. -/
def setsockopt (k : Kernel) (fd what value : Int) : Kernel :=
  { k with options := Function.update k.options fd ((what, value) :: k.options fd) }

/-- `socket_poll::add`; `none` when it returns 1. -/
def add (k : Kernel) (sock : Int) (ud : Index) (admitted : Bool) : Option Kernel :=
  if admitted ∧ k.epoll sock = none then
    some { k with epoll := Function.update k.epoll sock (some ⟨ud, false⟩) }
  else none

/-- `socket_poll::del`. -/
def del (k : Kernel) (sock : Int) : Kernel := { k with epoll := Function.update k.epoll sock none }

/-- `socket_poll::write`, without effect on a descriptor that is not registered. -/
def write (k : Kernel) (sock : Int) (ud : Index) (enable : Bool) : Kernel :=
  { k with epoll := Function.update k.epoll sock ((k.epoll sock).map fun _ => ⟨ud, enable⟩) }

/-- The event `epoll_wait` stores for a ready descriptor. -/
def event (k : Kernel) : Readiness → Option Event
  | .control => some ⟨none, true, false⟩
  | .descriptor fd readable writable =>
    (k.epoll fd).map fun r => ⟨some r.ud, readable, writable && r.out⟩

section
variable (k : Kernel) (fd : Int)

theorem balance_close : (k.close fd).balance = Function.update k.balance fd (k.balance fd - 1) := by
  funext other
  by_cases same : other = fd
  · subst same; simp only [balance, close, Function.update_self]; omega
  · simp [balance, close, same]

@[simp] theorem balance_del : (k.del fd).balance = k.balance := rfl

variable {k fd}

theorem acquire_isSome : (k.acquire fd).isSome = true ↔ 0 ≤ fd ∧ k.balance fd ≤ 0 := by
  unfold acquire
  rw [balance]
  by_cases free : 0 ≤ fd ∧ k.opened fd ≤ k.closed fd
  · rw [if_pos free]
    exact iff_of_true rfl ⟨free.1, by omega⟩
  · rw [if_neg free]
    refine iff_of_false Bool.false_ne_true ?_
    rintro ⟨valid, single⟩
    exact free ⟨valid, by omega⟩

theorem acquire_eq {n : Kernel} (acquired : k.acquire fd = some n) : 0 ≤ fd ∧ k.balance fd ≤ 0 ∧ n = { k with
    opened := Function.update k.opened fd (k.opened fd + 1)
    epoll := Function.update k.epoll fd none
    written := Function.update k.written fd []
    options := Function.update k.options fd [] } := by
  obtain ⟨valid, single⟩ := acquire_isSome.mp (Option.isSome_of_eq_some acquired)
  refine ⟨valid, single, ?_⟩
  rw [balance] at single
  rw [acquire, if_pos ⟨valid, by omega⟩, Option.some.injEq] at acquired
  exact acquired.symm

theorem acquire_balance {n : Kernel} (acquired : k.acquire fd = some n) :
    0 ≤ fd ∧ k.balance fd ≤ 0 ∧ n.balance = Function.update k.balance fd (k.balance fd + 1) := by
  obtain ⟨valid, single, rfl⟩ := acquire_eq acquired
  refine ⟨valid, single, ?_⟩
  funext other
  by_cases same : other = fd
  · subst same; simp only [balance, Function.update_self]; omega
  · simp [balance, same]

/-- A descriptor obtained and closed again leaves all balances as they were. -/
theorem acquire_close_balance {n : Kernel} (acquired : k.acquire fd = some n) : (n.close fd).balance = k.balance := by
  obtain ⟨-, -, balance⟩ := acquire_balance acquired
  rw [balance_close, balance]
  simp

theorem add_balance {ud : Index} {admitted : Bool} {n : Kernel} (added : k.add fd ud admitted = some n) :
    n.balance = k.balance := by
  unfold add at added
  split at added
  · cases added; rfl
  · cases added

end
end Kernel

/-! ### The server -/

structure Server where
  checkctrl : Bool
  alloc_id : Int
  /-- The entries of `ev` below `event_n`. -/
  ev : List Event
  event_index : Nat
  slot : Index → Socket
  /-- The requests in the control pipe. -/
  pipe : List (Request Int (List Byte))
  kernel : Kernel

namespace Server

def event_n (s : Server) : Nat := s.ev.length

def setSlot (s : Server) (k : Index) (x : Socket) : Server := { s with slot := Function.update s.slot k x }
def setType (s : Server) (k : Index) (type : SocketType) : Server := s.setSlot k { s.slot k with type := type }
def setKernel (s : Server) (ker : Kernel) : Server := { s with kernel := ker }

section
variable (s : Server) (k j : Index) (x : Socket) (type : SocketType) (ker : Kernel)

@[simp] theorem setSlot_self : (s.setSlot k x).slot k = x := by simp [setSlot]
@[simp] theorem setSlot_other {j k : Index} (other : j ≠ k) : (s.setSlot k x).slot j = s.slot j := by
  simp [setSlot, other]
theorem setSlot_control : ((s.setSlot k x).slot k).control = x.control := by rw [setSlot_self]
@[simp] theorem setSlot_kernel : (s.setSlot k x).kernel = s.kernel := rfl
@[simp] theorem setSlot_pipe : (s.setSlot k x).pipe = s.pipe := rfl
@[simp] theorem setSlot_ev : (s.setSlot k x).ev = s.ev := rfl
@[simp] theorem setSlot_event_index : (s.setSlot k x).event_index = s.event_index := rfl
@[simp] theorem setSlot_checkctrl : (s.setSlot k x).checkctrl = s.checkctrl := rfl
@[simp] theorem setSlot_alloc_id : (s.setSlot k x).alloc_id = s.alloc_id := rfl

@[simp] theorem setType_self : (s.setType k type).slot k = { s.slot k with type := type } := by simp [setType]
@[simp] theorem setType_other {j k : Index} (other : j ≠ k) : (s.setType k type).slot j = s.slot j := by
  simp [setType, other]
theorem setType_control : ((s.setType k type).slot k).control = { (s.slot k).control with type := type } := by
  rw [setType_self]
  rfl
@[simp] theorem setType_kernel : (s.setType k type).kernel = s.kernel := rfl
@[simp] theorem setType_pipe : (s.setType k type).pipe = s.pipe := rfl
@[simp] theorem setType_ev : (s.setType k type).ev = s.ev := rfl
@[simp] theorem setType_event_index : (s.setType k type).event_index = s.event_index := rfl
@[simp] theorem setType_checkctrl : (s.setType k type).checkctrl = s.checkctrl := rfl
@[simp] theorem setType_alloc_id : (s.setType k type).alloc_id = s.alloc_id := rfl

@[simp] theorem setKernel_slot : (s.setKernel ker).slot = s.slot := rfl
@[simp] theorem setKernel_kernel : (s.setKernel ker).kernel = ker := rfl
@[simp] theorem setKernel_pipe : (s.setKernel ker).pipe = s.pipe := rfl
@[simp] theorem setKernel_ev : (s.setKernel ker).ev = s.ev := rfl
@[simp] theorem setKernel_event_index : (s.setKernel ker).event_index = s.event_index := rfl
@[simp] theorem setKernel_checkctrl : (s.setKernel ker).checkctrl = s.checkctrl := rfl
@[simp] theorem setKernel_alloc_id : (s.setKernel ker).alloc_id = s.alloc_id := rfl

end
end Server

/-! ### Runs that end -/

/-- The assertions of the poll thread. -/
inductive Site
  | new_socket | force_close | raise_uncomplete | send_buffer | send_socket
  deriving DecidableEq

/-- Why a step yields no state: it is not possible in the state, an assertion
    fails, or a null pointer is dereferenced. -/
inductive Halt
  | disabled
  | assertion (site : Site)
  | nullDereference
  deriving DecidableEq

theorem bind_ok {α β : Type} {x : Except Halt α} {f : α → Except Halt β} {b : β} (result : (x >>= f) = .ok b) :
    ∃ a, x = .ok a ∧ f a = .ok b := by
  cases x with
  | error e => cases result
  | ok a => exact ⟨a, rfl, result⟩

theorem bind_error {α β : Type} {x : Except Halt α} {f : α → Except Halt β} {h : Halt}
    (result : (x >>= f) = .error h) : x = .error h ∨ ∃ a, x = .ok a ∧ f a = .error h := by
  cases x with
  | error e => cases result; exact .inl rfl
  | ok a => exact .inr ⟨a, rfl, result⟩

theorem map_ok {α β : Type} {x : Except Halt α} {f : α → β} {b : β} (result : x.map f = .ok b) :
    ∃ a, x = .ok a ∧ f a = b := by
  cases x with
  | error e => cases result
  | ok a => exact ⟨a, rfl, Except.ok.inj result⟩

theorem map_error {α β : Type} {x : Except Halt α} {f : α → β} {h : Halt} (result : x.map f = .error h) :
    x = .error h := by
  cases x with
  | error e => cases result; rfl
  | ok a => cases result

end Canna.Sockets
