import Canna.Registrations
import Canna.Steps

/-!
# What a handler registers and reports

What `Effects` says of the handlers is said once more, with the epoll set, the opaque
value of the slot and the message reported. A handler on a slot in use takes a `Turn`;
a start is `Answered`; a request that fills a slot installs it (`Installed`); and an
event is `Handled`, for its own slot or for a connection that is accepted.
-/
namespace Canna.SocketServer
open Canna.Sockets Canna.ControlPipe
open Canna.ControlPipe.Request

/-! ### Slots in use -/

/-- A slot of this type is in the epoll set. -/
def Watched : SocketType → Prop
  | .LISTEN | .CONNECTING | .CONNECTED | .HALFCLOSE | .BIND => True
  | .INVALID | .RESERVE | .PLISTEN | .PACCEPT => False

instance (type : SocketType) : Decidable (Watched type) := by
  cases type <;> simp only [Watched] <;> infer_instance

/-- The slots hold the same connection, for the same owner. -/
def Same (x y : Socket) : Prop := y.control = x.control ∧ y.opaqueVal = x.opaqueVal

/-- A return code under which `poll` delivers nothing. -/
def Quiet (type : Int) : Prop := type ≠ SOCKET_ACCEPT ∧ type ≠ SOCKET_DATA

/-- What a handler that neither starts nor fills a slot does, short of delivering what
    it read: nothing, or it keeps the slot, closes it, or finds its connection
    established. The slot and the kernel before and after, the return code and the
    message. -/
inductive Turn (k : Index) (x : Socket) (ker : Kernel) (y : Socket) (n : Kernel) (type : Int) (result : Message) : Prop
  | idle (same : y = x) (kernel : n = ker) (quiet : Quiet type) : Turn k x ker y n type result
  | kept (valid : x.type ≠ .INVALID) (same : Same x y) (tuned : Tuned ker n x.fd k) (quiet : Quiet type) :
      Turn k x ker y n type result
  | closed (live : Live x.type) (control : y.control = { x.control with type := .INVALID })
      (opened : n.opened = ker.opened) (closes : ∀ d, ker.closed d ≤ n.closed d)
      (epoll : n.epoll = Function.update ker.epoll x.fd none)
      (told : type = -1 ∨ Reports type result.id x.id) : Turn k x ker y n type result
  | connected (connecting : x.type = .CONNECTING) (same : Same { x with type := .CONNECTED } y)
      (tuned : Tuned ker n x.fd k) (opens : type = SOCKET_OPEN) : Turn k x ker y n type result

/-- The turn that a handler with this reply takes on a slot. -/
abbrev Turns (k : Index) (s : Server) (r : Reply) : Prop :=
  Turn k (s.slot k) s.kernel (r.server.slot k) r.server.kernel r.type r.result

/-- What was read from the connection in a slot is delivered to its owner. -/
structure Delivered (k : Index) (s : Server) (r : Reply) : Prop where
  valid : (s.slot k).type ≠ .INVALID
  unhalved : (s.slot k).type ≠ .HALFCLOSE
  same : Same (s.slot k) (r.server.slot k)
  kernel : r.server.kernel = s.kernel
  data : r.type = SOCKET_DATA
  id : r.result.id = (s.slot k).id
  opaqueVal : r.result.opaqueVal = (s.slot k).opaqueVal

theorem Turns.unchanged {k : Index} {s : Server} (result : Message) {type : Int} (quiet : Quiet type) :
    Turns k s ⟨s, result, type⟩ := .idle rfl rfl quiet

theorem quiet_pass : Quiet (-1) := ⟨by decide, by decide⟩
theorem quiet_close : Quiet SOCKET_CLOSE := ⟨by decide, by decide⟩
theorem quiet_error : Quiet SOCKET_ERROR := ⟨by decide, by decide⟩
theorem quiet_open : Quiet SOCKET_OPEN := ⟨by decide, by decide⟩

theorem Turn.quiet {k : Index} {x y : Socket} {ker n : Kernel} {type : Int} {result : Message}
    (turn : Turn k x ker y n type result) : Quiet type := by
  cases turn with
  | idle same kernel quiet => exact quiet
  | kept valid same tuned quiet => exact quiet
  | closed live control opened closes epoll told =>
    rcases told with rfl | ⟨(rfl | rfl), -⟩
    · exact quiet_pass
    · exact quiet_close
    · exact quiet_error
  | connected connecting same tuned opens => exact opens ▸ quiet_open

/-- A slot from which something was delivered is kept. -/
theorem Delivered.kept {k : Index} {s : Server} {r : Reply} (delivered : Delivered k s r) :
    Turn k (s.slot k) s.kernel (r.server.slot k) r.server.kernel (-1) r.result := by
  rw [delivered.kernel]
  exact .kept delivered.valid delivered.same (Tuned.refl _ _ _) quiet_pass

section
variable {s t : Server} {k : Index} {result : Message} {o : Outcome} {r : Reply}

theorem force_close_kernel (valid : (s.slot k).type ≠ .INVALID) (closed : force_close s k = .ok (t, result)) :
    t.kernel.opened = s.kernel.opened ∧ (∀ d, s.kernel.closed d ≤ t.kernel.closed d) ∧
      t.kernel.epoll = Function.update s.kernel.epoll (s.slot k).fd none := by
  have more := closed_le_close s.kernel (s.slot k).fd
  have unreserved := (force_close_ok closed).1
  simp only [force_close, if_neg valid, if_neg unreserved] at closed
  cases closed
  by_cases bound : (s.slot k).type = .BIND
  · simp [bound, Kernel.del]
  · by_cases waiting : (s.slot k).type ≠ .PACCEPT ∧ (s.slot k).type ≠ .PLISTEN
    · simp only [Server.setSlot_kernel, Server.setKernel_kernel, if_pos waiting, if_pos bound, Kernel.del,
        Kernel.close, Function.update_idem]
      exact ⟨trivial, more, trivial⟩
    · simp only [Server.setSlot_kernel, Server.setKernel_kernel, if_neg waiting, if_pos bound]
      exact ⟨rfl, more, rfl⟩

/-- A handler that ends in `force_close`, after calls that may have rewritten the entry. -/
theorem Turns.of_force_close {ker : Kernel} (valid : (s.slot k).type ≠ .INVALID)
    (tuned : Tuned s.kernel ker (s.slot k).fd k) (closed : force_close (s.setKernel ker) k = .ok (t, result))
    (server : r.server = t) (told : r.type = -1 ∨ Reports r.type r.result.id (s.slot k).id) : Turns k s r := by
  obtain ⟨live, -, control, -, -⟩ := force_close_live (s := s.setKernel ker) valid closed
  obtain ⟨opened, closes, epoll⟩ := force_close_kernel (s := s.setKernel ker) valid closed
  subst server
  refine .closed live control (opened.trans tuned.opened) ?_ ?_ told
  · rw [← tuned.closed]
    exact closes
  rw [epoll, Server.setKernel_kernel, Server.setKernel_slot]
  funext d
  by_cases own : d = (s.slot k).fd
  · subst own
    simp
  · rw [Function.update_of_ne own, Function.update_of_ne own]
    exact tuned.others d own

theorem send_buffer_turn {writes : List WriteResult} (valid : (s.slot k).type ≠ .INVALID)
    (handled : send_buffer s k result writes = .ok r) : Turns k s r := by
  rw [send_buffer_valid valid] at handled
  by_cases uncomplete : list_uncomplete (s.slot k).low
  · rw [if_pos uncomplete] at handled
    cases handled
  rw [if_neg uncomplete] at handled
  have tuned := Tuned.write s.kernel (s.slot k).fd k false
  by_cases empty : send_buffer_empty (s.slot k)
  · by_cases half : (s.slot k).type = .HALFCLOSE
    · simp only [empty, Server.setKernel_slot, half, if_true] at handled
      obtain ⟨⟨t, message⟩, closed, ended⟩ := map_ok handled
      cases ended
      exact Turns.of_force_close valid tuned closed rfl
        (.inr ⟨.inl rfl, congrArg Message.id (force_close_ok closed).2.1⟩)
    · simp only [empty, Server.setKernel_slot, half, if_true, if_false] at handled
      cases handled
      exact .kept valid ⟨rfl, rfl⟩ tuned quiet_pass
  · rw [if_neg empty] at handled
    cases handled
    exact Turns.unchanged _ quiet_pass

theorem close_socket_turn {id : Int} {opaqueVal : UInt64} (handled : close_socket s id opaqueVal result o = .ok r) :
    Turns (HASH_ID id) s r := by
  simp only [close_socket] at handled
  by_cases stale : (s.slot (HASH_ID id)).type = .INVALID ∨ (s.slot (HASH_ID id)).id ≠ id
  · rw [if_pos stale] at handled
    cases handled
    exact Turns.unchanged _ quiet_close
  rw [if_neg stale] at handled
  obtain ⟨valid, same⟩ := not_or.mp stale
  by_cases empty : send_buffer_empty (s.slot (HASH_ID id)) = true
  · simp only [close_sent, empty, if_true] at handled
    obtain ⟨⟨t, message⟩, closed, ended⟩ := bind_ok handled
    cases ended
    exact Turns.of_force_close valid (Tuned.refl _ _ _) closed rfl (.inr ⟨.inl rfl, (not_not.mp same).symm⟩)
  · -- a queue that is not empty stays as it is, and `send_buffer` yields -1
    rw [if_neg empty] at handled
    obtain ⟨middle, sent, ended⟩ := bind_ok handled
    obtain ⟨-, -, quiet⟩ := send_buffer_effect valid sent
    rw [if_pos (quiet (Bool.not_eq_true _ ▸ empty))] at ended
    cases ended
    exact send_buffer_turn valid sent

theorem send_socket_turn {id sz : Int} {buffer : List Byte} (handled : send_socket s id sz buffer result o = .ok r) :
    Turns (HASH_ID id) s r := by
  simp only [send_socket] at handled
  by_cases deaf : (s.slot (HASH_ID id)).type = .INVALID ∨ (s.slot (HASH_ID id)).id ≠ id ∨
      (s.slot (HASH_ID id)).type = .HALFCLOSE ∨ (s.slot (HASH_ID id)).type = .PACCEPT
  · rw [if_pos deaf] at handled
    cases handled
    exact Turns.unchanged _ quiet_pass
  rw [if_neg deaf] at handled
  have valid := (not_or.mp deaf).1
  have wrote := Tuned.write s.kernel (s.slot (HASH_ID id)).fd (HASH_ID id) true
  by_cases listening : (s.slot (HASH_ID id)).type = .PLISTEN ∨ (s.slot (HASH_ID id)).type = .LISTEN
  · rw [if_pos listening] at handled
    cases handled
  rw [if_neg listening] at handled
  split at handled
  · split at handled
    · obtain ⟨⟨t, message⟩, closed, ended⟩ := bind_ok handled
      cases ended
      exact Turns.of_force_close valid (Tuned.refl _ _ _) closed rfl
        (.inr ⟨.inl rfl, congrArg Message.id (force_close_ok closed).2.1⟩)
    · rename_i n _
      have taken := Tuned.take s.kernel (s.slot (HASH_ID id)).fd (HASH_ID id) (buffer.take (min n sz.toNat))
      split at handled <;> cases handled
      · exact .kept valid ⟨rfl, rfl⟩ taken quiet_pass
      · exact .kept valid ⟨rfl, rfl⟩ ((Tuned.write _ _ _ _).of_same taken.opened taken.closed rfl) quiet_pass
    · split at handled <;> cases handled
      · exact Turns.unchanged _ quiet_pass
      · exact .kept valid ⟨rfl, rfl⟩ wrote quiet_pass
  · cases handled
    exact Turns.unchanged _ quiet_pass

theorem setopt_socket_turn (id what value : Int) :
    Turns (HASH_ID id) s ⟨setopt_socket s id what value, result, -1⟩ := by
  rw [setopt_socket]
  by_cases stale : (s.slot (HASH_ID id)).type = .INVALID ∨ (s.slot (HASH_ID id)).id ≠ id
  · rw [if_pos stale]
    exact Turns.unchanged _ quiet_pass
  · rw [if_neg stale]
    exact .kept (not_or.mp stale).1 ⟨rfl, rfl⟩ ⟨rfl, rfl, fun _ _ => rfl, .inl rfl⟩ quiet_pass

theorem report_connect_turn (connecting : (s.slot k).type = .CONNECTING) (handled : report_connect s k o = .ok r) :
    Turns k s r := by
  simp only [report_connect] at handled
  by_cases failed : o.error = true
  · rw [if_pos failed] at handled
    obtain ⟨⟨t, message⟩, closed, ended⟩ := bind_ok handled
    cases ended
    have valid : (s.slot k).type ≠ .INVALID := by
      rw [connecting]
      decide
    exact Turns.of_force_close valid (Tuned.refl _ _ _) closed rfl
      (.inr ⟨.inr rfl, congrArg Message.id (force_close_ok closed).2.1⟩)
  · rw [if_neg failed] at handled
    cases handled
    by_cases empty : send_buffer_empty ((s.setType k .CONNECTED).slot k) = true
    · rw [if_pos empty]
      refine .connected connecting ?_ ?_ rfl
      · rw [Server.setKernel_slot, Server.setType_self]
        exact ⟨rfl, rfl⟩
      · simp only [Server.setKernel_kernel, Server.setType_self]
        exact Tuned.write _ _ _ _
    · rw [if_neg empty]
      refine .connected connecting ?_ (Tuned.refl _ _ _) rfl
      rw [Server.setType_self]
      exact ⟨rfl, rfl⟩

theorem forward_message_tcp_turn (valid : (s.slot k).type ≠ .INVALID)
    (handled : forward_message_tcp s k result o = .ok r) : Turns k s r ∨ Delivered k s r := by
  simp only [forward_message_tcp] at handled
  cases outcome : o.read with
  | EINTR =>
    simp only [outcome] at handled
    cases handled
    exact .inl (Turns.unchanged _ quiet_pass)
  | EAGAIN =>
    simp only [outcome] at handled
    cases handled
    exact .inl (Turns.unchanged _ quiet_pass)
  | failed =>
    simp only [outcome] at handled
    obtain ⟨⟨t, message⟩, closed, ended⟩ := bind_ok handled
    cases ended
    exact .inl (Turns.of_force_close valid (Tuned.refl _ _ _) closed rfl (.inl rfl))
  | received bytes =>
    simp only [outcome] at handled
    by_cases ended : (delivered (s.slot k) bytes).length = 0
    · rw [if_pos ended] at handled
      cases handled
      exact .inl (Turns.unchanged _ quiet_pass)
    rw [if_neg ended] at handled
    by_cases half : (s.slot k).type = .HALFCLOSE
    · rw [if_pos half] at handled
      cases handled
      exact .inl (Turns.unchanged _ quiet_pass)
    · rw [if_neg half] at handled
      cases handled
      refine .inr ⟨valid, half, ?_, rfl, rfl, rfl, rfl⟩
      rw [Server.setSlot_self]
      exact ⟨rfl, rfl⟩

end

/-! ### Starts -/

/-- What a start with this opaque value does to the slot its id leads to; the slot and
    the kernel before and after, and the return code. It is answered `SOCKET_OPEN`
    exactly when the slot takes the value. -/
inductive Answered (id : Int) (opaqueVal : UInt64) (x : Socket) (ker : Kernel) (y : Socket) (n : Kernel) (type : Int) : Prop
  | ignored (slot : y = x) (kernel : n = ker) (unopened : type ≠ SOCKET_OPEN) : Answered id opaqueVal x ker y n type
  | refused (waiting : x.type = .PACCEPT ∨ x.type = .PLISTEN) (control : y.control = { x.control with type := .INVALID })
      (kernel : n = ker) (unopened : type ≠ SOCKET_OPEN) : Answered id opaqueVal x ker y n type
  | started (own : x.id = id) (waiting : x.type = .PACCEPT ∨ x.type = .PLISTEN)
      (slot : y = { x with type := if x.type = .PACCEPT then .CONNECTED else .LISTEN, opaqueVal := opaqueVal })
      (registered : Registered ker n x.fd (HASH_ID id)) (opens : type = SOCKET_OPEN) : Answered id opaqueVal x ker y n type
  | transferred (own : x.id = id) (connected : x.type = .CONNECTED) (slot : y = { x with opaqueVal := opaqueVal })
      (kernel : n = ker) (opens : type = SOCKET_OPEN) : Answered id opaqueVal x ker y n type

/-- How a start with this reply is answered. -/
abbrev Answers (id : Int) (opaqueVal : UInt64) (s : Server) (r : Reply) : Prop :=
  Answered id opaqueVal (s.slot (HASH_ID id)) s.kernel (r.server.slot (HASH_ID id)) r.server.kernel r.type

theorem start_socket_answered (s : Server) (id : Int) (opaqueVal : UInt64) (o : Outcome) :
    Answers id opaqueVal s (start_socket s id opaqueVal o) ∧ Quiet (start_socket s id opaqueVal o).type := by
  have error : SOCKET_ERROR ≠ SOCKET_OPEN := by decide
  have pass : (-1 : Int) ≠ SOCKET_OPEN := by decide
  simp only [start_socket]
  by_cases stale : (s.slot (HASH_ID id)).type = .INVALID ∨ (s.slot (HASH_ID id)).id ≠ id
  · rw [if_pos stale]
    exact ⟨.ignored rfl rfl error, quiet_error⟩
  rw [if_neg stale]
  have own : (s.slot (HASH_ID id)).id = id := not_not.mp (not_or.mp stale).2
  by_cases waiting : (s.slot (HASH_ID id)).type = .PACCEPT ∨ (s.slot (HASH_ID id)).type = .PLISTEN
  · rw [if_pos waiting]
    cases added : s.kernel.add (s.slot (HASH_ID id)).fd (HASH_ID id) o.admitted with
    | none => exact ⟨.refused waiting (Server.setType_control s _ _) rfl error, quiet_error⟩
    | some ker => exact ⟨.started own waiting (Server.setSlot_self _ _ _) (.add added) rfl, quiet_open⟩
  rw [if_neg waiting]
  by_cases connected : (s.slot (HASH_ID id)).type = .CONNECTED
  · rw [if_pos connected]
    exact ⟨.transferred own connected (Server.setSlot_self _ _ _) rfl rfl, quiet_open⟩
  · rw [if_neg connected]
    exact ⟨.ignored rfl rfl pass, quiet_pass⟩

/-! ### Slots that are filled -/

/-- What the request of a reserved id does to its slot. -/
inductive Installed (request : Request Int (List Byte)) (id : Int) (s : Server) (r : Reply) : Prop
  | listening (fd : Int) (opaqueVal : UInt64) (is : request = request_listen id fd opaqueVal)
      (control : (r.server.slot (HASH_ID id)).control = ⟨.PLISTEN, id, fd⟩) (kernel : r.server.kernel = s.kernel) :
      Installed request id s r
  | bound (fd : Int) (opaqueVal : UInt64) (is : request = request_bind id fd opaqueVal)
      (control : (r.server.slot (HASH_ID id)).control = ⟨.BIND, id, fd⟩)
      (registered : Registered s.kernel r.server.kernel fd (HASH_ID id)) : Installed request id s r
  | connected (type : SocketType) (sock : Int) (connects : type = .CONNECTED ∨ type = .CONNECTING)
      (control : (r.server.slot (HASH_ID id)).control = ⟨type, id, sock⟩) (ker : Kernel)
      (obtained : Obtained s.kernel ker) (own : s.kernel.opened sock < ker.opened sock)
      (registered : Registered ker r.server.kernel sock (HASH_ID id)) : Installed request id s r
  | abandoned (control : (r.server.slot (HASH_ID id)).control = { (s.slot (HASH_ID id)).control with type := .INVALID })
      (kernel : r.server.kernel = s.kernel) : Installed request id s r

section
variable {s t : Server} {id fd : Int} {opaqueVal : UInt64} {result : Message} {o : Outcome} {r : Reply}

/-- The kernel after `new_socket`. -/
theorem new_socket_kernel {protocol : Nat} {add admitted : Bool} {ns : Option Index}
    (made : new_socket s id fd protocol opaqueVal add admitted = .ok (t, ns)) :
    match (ns, add) with
    | (none, _) => t.kernel = s.kernel
    | (some _, false) => t.kernel = s.kernel
    | (some _, true) => Registered s.kernel t.kernel fd (HASH_ID id) := by
  simp only [new_socket] at made
  split at made
  · cases made
  · cases add with
    | false =>
      cases made
      rfl
    | true =>
      simp only [if_true] at made
      cases added : s.kernel.add fd (HASH_ID id) admitted with
      | none =>
        rw [added] at made
        cases made
        rfl
      | some ker =>
        rw [added] at made
        cases made
        exact .add added

theorem listen_socket_installed (handled : listen_socket s id fd opaqueVal result = .ok r) :
    Installed (request_listen id fd opaqueVal) id s r ∧ r.type = -1 := by
  obtain ⟨-, -, -, control⟩ := listen_socket_ok handled
  obtain ⟨⟨t, ns⟩, made, ended⟩ := bind_ok handled
  have kernel := new_socket_kernel made
  obtain ⟨-, -, -, (⟨-, added, -⟩ | ⟨rfl, -⟩)⟩ := new_socket_ok made
  · cases added
  · cases ended
    exact ⟨.listening fd opaqueVal rfl control kernel, rfl⟩

theorem bind_socket_installed (handled : bind_socket s id fd opaqueVal o = .ok r) :
    Installed (request_bind id fd opaqueVal) id s r ∧ Quiet r.type := by
  obtain ⟨⟨t, ns⟩, made, ended⟩ := bind_ok handled
  have kernel := new_socket_kernel made
  obtain ⟨-, -, -, (⟨rfl, -, control⟩ | ⟨rfl, control⟩)⟩ := new_socket_ok made
  · cases ended
    exact ⟨.abandoned control kernel, quiet_error⟩
  · cases ended
    exact ⟨.bound fd opaqueVal rfl (control_setType control _) kernel, quiet_open⟩

/-- The addresses tried in vain leave no entry, and the last one is obtained. -/
theorem try_addresses_obtained {ker n : Kernel} {a : Attempt} {ai_list : List Attempt}
    (found : try_addresses ker ai_list = .ok (n, a)) : Obtained ker n ∧ ker.opened a.sock < n.opened a.sock := by
  apply try_addresses_from found
  · intro ker acquired
    exact Obtained.acquire acquired
  · rintro ker sock opened acquired ⟨later, last⟩
    obtain ⟨obtained, own⟩ := Obtained.acquire acquired
    have tried := obtained.close own
    exact ⟨tried.trans later, Nat.lt_of_le_of_lt (tried.opened_le _) last⟩

theorem open_socket_installed {port : Int} {host : List Byte} (handled : open_socket s id opaqueVal o = .ok r) :
    Installed (request_open id port opaqueVal host) id s r ∧ Quiet r.type := by
  simp only [open_socket] at handled
  split at handled
  · cases handled
    exact ⟨.abandoned (Server.setType_control s _ _) rfl, quiet_error⟩
  · cases handled
    exact ⟨.abandoned (Server.setType_control s _ _) rfl, quiet_error⟩
  · obtain ⟨⟨ker, a⟩, found, handled⟩ := bind_ok handled
    obtain ⟨⟨t, ns⟩, made, ended⟩ := bind_ok handled
    obtain ⟨obtained, own⟩ := try_addresses_obtained found
    have registered := new_socket_kernel made
    obtain ⟨-, -, -, (⟨rfl, -, -⟩ | ⟨rfl, control⟩)⟩ := new_socket_ok made
    · cases ended
    · simp only at ended
      by_cases succeeded : a.connect = .succeeded
      · rw [if_pos succeeded] at ended
        cases ended
        exact ⟨.connected .CONNECTED a.sock (.inl rfl) (control_setType control _) ker obtained own registered,
          quiet_open⟩
      · rw [if_neg succeeded] at ended
        cases ended
        have fd : ((t.setType (HASH_ID id) .CONNECTING).slot (HASH_ID id)).fd = a.sock :=
          congrArg Control.fd (control_setType control .CONNECTING)
        refine ⟨.connected .CONNECTING a.sock (.inr rfl) (control_setType control _) ker obtained own
          (registered.tuned ?_), quiet_pass⟩
        simp only [Server.setKernel_kernel, fd]
        exact Tuned.write _ _ _ _

/-! ### Requests -/

/-- A request with a reserved id. -/
theorem ctrl_cmd_installed {request : Request Int (List Byte)} (reserved : reservation request = some id)
    (handled : ctrl_cmd s request result o = .ok r) : Installed request id s r ∧ Quiet r.type := by
  cases request with
  | request_open own port opaqueVal host =>
    cases reserved
    exact open_socket_installed handled
  | request_listen own fd opaqueVal =>
    cases reserved
    obtain ⟨installed, type⟩ := listen_socket_installed handled
    exact ⟨installed, type ▸ quiet_pass⟩
  | request_bind own fd opaqueVal =>
    cases reserved
    exact bind_socket_installed handled
  | _ => cases reserved

/-- Any other request, but a start. -/
theorem ctrl_cmd_turn {request : Request Int (List Byte)} (unreserved : reservation request = none)
    (other : ∀ id opaqueVal, request ≠ request_start id opaqueVal) (handled : ctrl_cmd s request result o = .ok r) :
    ∃ k, Frame k s r.server ∧ Effect k s r .sound ∧ Turns k s r := by
  cases request with
  | request_start id opaqueVal => exact absurd rfl (other id opaqueVal)
  | request_close id opaqueVal =>
    obtain ⟨frame, effect⟩ := close_socket_effect handled
    exact ⟨HASH_ID id, frame, effect, close_socket_turn handled⟩
  | request_send id sz buffer =>
    obtain ⟨frame, effect⟩ := send_socket_effect handled
    exact ⟨HASH_ID id, frame, effect, send_socket_turn handled⟩
  | request_setopt id what value =>
    cases handled
    obtain ⟨frame, effect⟩ := setopt_socket_effect s id what value result (-1)
    exact ⟨HASH_ID id, frame, effect, setopt_socket_turn id what value⟩
  | request_exit =>
    cases handled
    exact ⟨0, Frame.refl 0 s, Effect.unchanged _ _, Turns.unchanged _ ⟨by decide, by decide⟩⟩
  | _ => cases unreserved

end

end Canna.SocketServer

namespace Canna.Poll
open Canna.Sockets Canna.SocketServer

/-! ### Events -/

/-- What serving an event of a slot does. -/
inductive Handled (s : Server) (k : Index) (e : Event) (o : Outcome) (r : Reply) (sweep : Bool) : Prop
  | passed (free : (s.slot k).type = .INVALID) (slot : r.server.slot = s.slot) (kernel : r.server.kernel = s.kernel)
      (pass : r.type = -1) : Handled s k e o r sweep
  | turned (others : ∀ j, j ≠ k → r.server.slot j = s.slot j) (turn : Turns k s r) : Handled s k e o r sweep
  | delivered (others : ∀ j, j ≠ k → r.server.slot j = s.slot j) (readable : e.read = true)
      (delivers : Delivered k s r) (sweeps : sweep = true) : Handled s k e o r sweep
  | refused (slot : r.server.slot = s.slot) (obtained : Obtained s.kernel r.server.kernel) (pass : r.type = -1) :
      Handled s k e o r sweep
  | accepted (id : Int) (listening : (s.slot k).type = .LISTEN) (vacant : (s.slot (HASH_ID id)).type = .INVALID)
      (others : ∀ j, j ≠ HASH_ID id → r.server.slot j = s.slot j)
      (control : (r.server.slot (HASH_ID id)).control = ⟨.PACCEPT, id, o.accepted⟩)
      (obtained : Obtained s.kernel r.server.kernel)
      (own : s.kernel.opened o.accepted < r.server.kernel.opened o.accepted) (accepts : r.type = SOCKET_ACCEPT)
      (told : r.result.id = (s.slot k).id ∧ r.result.opaqueVal = (s.slot k).opaqueVal) (ud : r.result.ud = id)
      (direct : sweep = false) : Handled s k e o r sweep

section
variable {s : Server} {k : Index} {e : Event} {result : Message} {o : Outcome} {r : Reply} {sweep : Bool}

theorem report_accept_handled (listening : (s.slot k).type = .LISTEN) (handled : report_accept s k result o = .ok r) :
    Handled s k e o r false := by
  simp only [report_accept] at handled
  cases acquired : s.kernel.acquire o.accepted with
  | none =>
    rw [acquired] at handled
    cases handled
    exact .refused rfl (Obtained.refl _) rfl
  | some ker =>
    simp only [acquired] at handled
    obtain ⟨obtained, own⟩ := Obtained.acquire acquired
    obtain ⟨alloc_id, (none | ⟨id, vacant, taken⟩)⟩ := reserve_id_spec (s.setKernel ker)
    · rw [none] at handled
      cases handled
      exact .refused rfl (obtained.close own) rfl
    · rw [taken] at handled
      obtain ⟨⟨t, ns⟩, made, ended⟩ := bind_ok handled
      have kernel := new_socket_kernel made
      obtain ⟨-, frame, -, (⟨-, added, -⟩ | ⟨rfl, control⟩)⟩ := new_socket_ok made
      · cases added
      · cases ended
        have others : ∀ j, j ≠ HASH_ID id → (t.setType (HASH_ID id) .PACCEPT).slot j = s.slot j := by
          intro j other
          rw [Server.setType_other _ _ other, frame.others j other]
          exact Server.setSlot_other _ _ other
        have apart : k ≠ HASH_ID id := by
          rintro rfl
          exact SocketType.noConfusion (listening.symm.trans vacant)
        have kernel : t.kernel = ker := kernel
        refine .accepted id listening vacant others (control_setType control _) ?_ ?_ rfl ?_ rfl rfl
        · rw [Server.setType_kernel, kernel]
          exact obtained
        · rw [Server.setType_kernel, kernel]
          exact own
        · simp only [others k apart, and_self]

theorem ready_turn (valid : (s.slot k).type ≠ .INVALID) (handled : ready s k e result o = .ok r) :
    (∀ j, j ≠ k → r.server.slot j = s.slot j) ∧ (Turns k s r ∨ (e.read = true ∧ Delivered k s r)) := by
  rcases ready_cases handled with ⟨readable, m, read, rfl⟩ | ⟨quiet, sent⟩ | ⟨quiet, rfl⟩
  · have turned : (∀ j, j ≠ k → m.server.slot j = s.slot j) ∧ (Turns k s m ∨ Delivered k s m) := by
      unfold read_half at read
      by_cases tcp : (s.slot k).protocol = PROTOCOL_TCP
      · rw [if_pos tcp] at read
        exact ⟨(forward_message_tcp_effect valid read).1.others, forward_message_tcp_turn valid read⟩
      · rw [if_neg tcp] at read
        cases read
        exact ⟨fun _ _ => rfl, .inl (Turns.unchanged _ quiet_pass)⟩
    obtain ⟨others, (turn | ⟨valid, unhalved, same, kernel, data, id, opaqueVal⟩)⟩ := turned
    · by_cases writable : e.write = true
      · rw [if_pos writable]
        exact ⟨others, .inl turn⟩
      · rw [if_neg writable]
        exact ⟨others, .inl turn⟩
    · by_cases writable : e.write = true
      · rw [if_pos writable]
        exact ⟨others, .inr ⟨readable, valid, unhalved, same, kernel, data, id, opaqueVal⟩⟩
      · rw [if_neg writable]
        exact ⟨others, .inr ⟨readable, valid, unhalved, same, kernel, data, id, opaqueVal⟩⟩
  · exact ⟨(send_buffer_effect valid sent).1.others, .inl (send_buffer_turn valid sent)⟩
  · exact ⟨fun _ _ => rfl, .inl (Turns.unchanged _ quiet_pass)⟩

theorem serve_handled (handled : serve s k e result o = .ok (r, sweep)) : Handled s k e o r sweep := by
  rcases serve_cases handled with ⟨type, reported, rfl⟩ | ⟨type, reported, rfl⟩ | ⟨type, rfl, rfl⟩ |
    ⟨other, valid, served, rfl⟩
  · exact .turned (report_connect_effect type reported).1.others (report_connect_turn type reported)
  · exact report_accept_handled type reported
  · exact .passed type rfl rfl rfl
  · obtain ⟨others, (turn | ⟨readable, delivers⟩)⟩ := ready_turn valid served
    · exact .turned others turn
    · exact .delivered others readable delivers rfl

/-- A dispatched event is that of the control pipe, or it is handled for its slot. -/
theorem dispatch_handled (handled : dispatch s result o = .ok (r, sweep)) : ∃ e, s.ev[s.event_index]? = some e ∧
    ((e.s = none ∧ r.server.slot = s.slot ∧ r.server.kernel = s.kernel ∧ r.type = -1) ∨
      ∃ k, e.s = some k ∧ Handled s k e o r sweep) := by
  obtain ⟨e, current, ⟨slot, rfl, -⟩ | ⟨k, slot, handled⟩⟩ := dispatch_cases handled
  · exact ⟨e, current, .inl ⟨slot, rfl, rfl, rfl⟩⟩
  · refine ⟨e, current, .inr ⟨k, slot, ?_⟩⟩
    cases serve_handled handled with
    | passed free slot kernel pass => exact .passed free slot kernel pass
    | turned others turn => exact .turned others turn
    | delivered others readable delivers sweeps =>
      obtain ⟨valid, unhalved, same, kernel, data, id, opaqueVal⟩ := delivers
      exact .delivered others readable ⟨valid, unhalved, same, kernel, data, id, opaqueVal⟩ sweeps
    | refused slot obtained pass => exact .refused slot obtained pass
    | accepted id listening vacant others control obtained own accepts told ud direct =>
      exact .accepted id listening vacant others control obtained own accepts told ud direct

end

end Canna.Poll
