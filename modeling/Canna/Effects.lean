import Canna.SocketServer

/-!
# What a handler does to its slot

Every handler works on one slot (`Frame`). The requests that fill a reserved slot
have a lemma of their own each (`listen_socket_ok`, `bind_socket_ok`,
`open_socket_ok`), and so has `report_accept`. What any other handler can do is one
relation (`Change`): it keeps the connection in its slot, promotes it, or closes it
and reports that; it closes it without a report (`Fault.silent`) exactly when a read
fails, and empties the slot without closing its descriptor (`Fault.leak`) exactly
when the registration of a slot waiting to be started fails.
-/
namespace Canna.SocketServer
open Canna.Sockets Canna.ControlPipe
open Canna.ControlPipe.Request

/-- A slot is the only one that differs, and of the server nothing else but the
    kernel does. -/
structure Frame (k : Index) (s t : Server) : Prop where
  others : ∀ j, j ≠ k → t.slot j = s.slot j
  pipe : t.pipe = s.pipe
  ev : t.ev = s.ev
  event_index : t.event_index = s.event_index
  checkctrl : t.checkctrl = s.checkctrl
  alloc_id : t.alloc_id = s.alloc_id

namespace Frame
variable {k : Index} {s t u : Server}

theorem refl (k : Index) (s : Server) : Frame k s s := ⟨fun _ _ => rfl, rfl, rfl, rfl, rfl, rfl⟩

theorem trans (left : Frame k s t) (right : Frame k t u) : Frame k s u :=
  ⟨fun j other => (right.others j other).trans (left.others j other), right.pipe.trans left.pipe,
    right.ev.trans left.ev, right.event_index.trans left.event_index, right.checkctrl.trans left.checkctrl,
    right.alloc_id.trans left.alloc_id⟩

theorem setSlot (s : Server) (k : Index) (x : Socket) : Frame k s (s.setSlot k x) :=
  ⟨fun _ other => Server.setSlot_other s x other, rfl, rfl, rfl, rfl, rfl⟩

theorem setType (s : Server) (k : Index) (type : SocketType) : Frame k s (s.setType k type) := setSlot s k _

theorem setKernel (s : Server) (k : Index) (ker : Kernel) : Frame k s (s.setKernel ker) :=
  ⟨fun _ _ => rfl, rfl, rfl, rfl, rfl, rfl⟩

end Frame

/-- The slot holds a connection, or a descriptor about to be one. -/
def Live (type : SocketType) : Prop := type ≠ .INVALID ∧ type ≠ .RESERVE

/-- The changes of type that keep the connection in the slot. -/
def Promotes (type next : SocketType) : Prop :=
  (type = .PLISTEN ∧ next = .LISTEN) ∨ (type = .PACCEPT ∧ next = .CONNECTED) ∨
    (type = .CONNECTING ∧ next = .CONNECTED)

/-- The balances once a slot with this content is closed: a bound descriptor is left
    to its owner. -/
def released (x : Control) (balance : Int → Int) : Int → Int :=
  if x.type = .BIND then balance else Function.update balance x.fd (balance x.fd - 1)

/-- A return code and the id in the result announce the end of an id. -/
def Reports (type result id : Int) : Prop := (type = SOCKET_CLOSE ∨ type = SOCKET_ERROR) ∧ result = id

inductive Fault
  | sound
  | silent
  | leak
  deriving DecidableEq

/-- What a handler that does not fill a slot can do to the slot it works on: the
    content of the slot and the balances before and after, its return code and the id
    in its result. -/
inductive Change (x : Control) (b : Int → Int) (y : Control) (c : Int → Int) (type result : Int) : Fault → Prop
  | kept (control : y = x) (balance : c = b) : Change x b y c type result .sound
  | promoted (next : SocketType) (promotes : Promotes x.type next) (control : y = { x with type := next })
      (balance : c = b) : Change x b y c type result .sound
  | closed (live : Live x.type) (control : y = { x with type := .INVALID }) (balance : c = released x b)
      (reported : Reports type result x.id) : Change x b y c type result .sound
  | dropped (live : Live x.type) (control : y = { x with type := .INVALID }) (balance : c = released x b)
      (unreported : type = -1) : Change x b y c type result .silent
  | leaked (waiting : x.type = .PACCEPT ∨ x.type = .PLISTEN) (control : y = { x with type := .INVALID })
      (balance : c = b) (reported : Reports type result x.id) : Change x b y c type result .leak

/-- The change that a handler with this reply makes to a slot. -/
abbrev Effect (k : Index) (s : Server) (r : Reply) : Fault → Prop :=
  Change (s.slot k).control s.kernel.balance (r.server.slot k).control r.server.kernel.balance r.type r.result.id

theorem Effect.unchanged {k : Index} {s : Server} (result : Message) (type : Int) : Effect k s ⟨s, result, type⟩ .sound :=
  .kept rfl rfl

/-! ### Closing -/

section
variable {s t : Server} {k : Index} {result : Message}

theorem force_close_ok (closed : force_close s k = .ok (t, result)) :
    (s.slot k).type ≠ .RESERVE ∧ result = ⟨(s.slot k).id, (s.slot k).opaqueVal, 0, .nullptr⟩ ∧
      ((s.slot k).type = .INVALID → t = s) := by
  simp only [force_close] at closed
  by_cases invalid : (s.slot k).type = .INVALID
  · rw [if_pos invalid] at closed
    cases closed
    refine ⟨?_, rfl, fun _ => rfl⟩
    rw [invalid]
    decide
  · rw [if_neg invalid] at closed
    by_cases reserved : (s.slot k).type = .RESERVE
    · rw [if_pos reserved] at closed
      cases closed
    · rw [if_neg reserved] at closed
      cases closed
      exact ⟨reserved, rfl, fun equal => absurd equal invalid⟩

theorem force_close_live (valid : (s.slot k).type ≠ .INVALID) (closed : force_close s k = .ok (t, result)) :
    Live (s.slot k).type ∧ Frame k s t ∧ (t.slot k).control = ⟨.INVALID, (s.slot k).id, (s.slot k).fd⟩ ∧
      t.kernel.balance = released (s.slot k).control s.kernel.balance ∧ send_buffer_empty (t.slot k) = true := by
  have unreserved := (force_close_ok closed).1
  simp only [force_close, if_neg valid, if_neg unreserved] at closed
  cases closed
  refine ⟨⟨valid, unreserved⟩, (Frame.setKernel s k _).trans (Frame.setSlot _ k _), Server.setSlot_control _ k _, ?_, ?_⟩
  · rw [Server.setSlot_kernel, Server.setKernel_kernel, released, Socket.control]
    by_cases bound : (s.slot k).type = .BIND
    · simp [bound]
    · rw [if_pos bound, if_neg bound, Kernel.balance_close]
      split <;> rfl
  · rw [Server.setSlot_self]; rfl

/-- A handler that ends in `force_close` and reports the end. -/
theorem force_close_effect {r : Reply} (valid : (s.slot k).type ≠ .INVALID)
    (closed : force_close s k = .ok (r.server, r.result)) (type : r.type = SOCKET_CLOSE ∨ r.type = SOCKET_ERROR) :
    Frame k s r.server ∧ Effect k s r .sound := by
  obtain ⟨live, frame, control, balance, -⟩ := force_close_live valid closed
  exact ⟨frame, .closed live control balance ⟨type, congrArg Message.id (force_close_ok closed).2.1⟩⟩

end

/-! ### Write queues -/

/-- No type but `INVALID` has the number of a protocol, so that `send_list` sends
    nothing for a slot in use. -/
theorem code_eq_tcp {type : SocketType} : type.code = PROTOCOL_TCP ↔ type = .INVALID := by
  cases type <;> simp [SocketType.code, PROTOCOL_TCP]

theorem send_list_valid {s : Server} {k : Index} (valid : (s.slot k).type ≠ .INVALID) (q : Queue) (result : Message)
    (writes : List WriteResult) : send_list s k q result writes = .ok (⟨s, result, 0⟩, writes) := by
  unfold send_list
  rw [if_neg fun code => valid (code_eq_tcp.mp code)]

/-- `send_buffer` on a slot in use, without the calls of `send_list` that do nothing. -/
theorem send_buffer_valid {s : Server} {k : Index} (valid : (s.slot k).type ≠ .INVALID) (result : Message)
    (writes : List WriteResult) : send_buffer s k result writes =
      if list_uncomplete (s.slot k).low then .error (.assertion .send_buffer)
      else if send_buffer_empty (s.slot k) then
        let s := s.setKernel (s.kernel.write (s.slot k).fd k false)
        if (s.slot k).type = .HALFCLOSE then
          (force_close s k).map fun (s, result) => ⟨s, result, SOCKET_CLOSE⟩
        else .ok ⟨s, result, -1⟩
      else .ok ⟨s, result, -1⟩ := by
  unfold send_buffer
  by_cases uncomplete : list_uncomplete (s.slot k).low
  · rw [if_pos uncomplete, if_pos uncomplete]
  · rw [if_neg uncomplete, if_neg uncomplete, send_list_valid valid]
    simp only [send_buffer_empty, bind, Except.bind, pure, Except.pure, send_list_valid valid, uncomplete]
    cases high : (s.slot k).high.head with
    | cons wb high => simp [SOCKET_CLOSE]
    | nil =>
      cases low : (s.slot k).low.head with
      | cons wb low => simp [SOCKET_CLOSE]
      | nil =>
        simp only [SOCKET_CLOSE, List.isEmpty_nil, Bool.and_self, if_true, ne_eq, not_true_eq_false, if_false,
          show ¬ (0 : Int) = 1 by decide]
        cases force_close (s.setKernel (s.kernel.write (s.slot k).fd k false)) k <;> rfl

/-- A `low` that is empty has no head sent in part. -/
theorem whole_of_empty {x : Socket} (empty : send_buffer_empty x = true) : list_uncomplete x.low = false := by
  simp only [send_buffer_empty, Bool.and_eq_true, List.isEmpty_iff] at empty
  rw [list_uncomplete, empty.2]

/-- With empty queues, `send_buffer` only ends a half-closed connection. -/
theorem send_buffer_drained {s : Server} {k : Index} (valid : (s.slot k).type ≠ .INVALID)
    (empty : send_buffer_empty (s.slot k) = true) (result : Message) (writes : List WriteResult) :
    send_buffer s k result writes =
      let s := s.setKernel (s.kernel.write (s.slot k).fd k false)
      if (s.slot k).type = .HALFCLOSE then (force_close s k).map fun (s, result) => ⟨s, result, SOCKET_CLOSE⟩
      else .ok ⟨s, result, -1⟩ := by
  rw [send_buffer_valid valid, whole_of_empty empty, empty]
  simp only [Bool.false_eq_true, if_false, if_true]

theorem send_buffer_effect {s : Server} {k : Index} {result : Message} {writes : List WriteResult} {r : Reply}
    (valid : (s.slot k).type ≠ .INVALID) (handled : send_buffer s k result writes = .ok r) :
    Frame k s r.server ∧ Effect k s r .sound ∧ (send_buffer_empty (s.slot k) = false → r.type = -1) := by
  rw [send_buffer_valid valid] at handled
  by_cases uncomplete : list_uncomplete (s.slot k).low
  · rw [if_pos uncomplete] at handled
    cases handled
  rw [if_neg uncomplete] at handled
  by_cases empty : send_buffer_empty (s.slot k)
  · have busy : send_buffer_empty (s.slot k) = false → r.type = -1 := by simp [empty]
    by_cases half : (s.slot k).type = .HALFCLOSE
    · simp only [empty, Server.setKernel_slot, half, if_true] at handled
      obtain ⟨⟨t, message⟩, closed, ended⟩ := map_ok handled
      cases ended
      obtain ⟨live, frame, control, balance, -⟩ := force_close_live (by simpa using valid) closed
      exact ⟨(Frame.setKernel s k _).trans frame,
        .closed live control balance ⟨.inl rfl, congrArg Message.id (force_close_ok closed).2.1⟩, busy⟩
    · simp only [empty, Server.setKernel_slot, half, if_true, if_false] at handled
      cases handled
      exact ⟨Frame.setKernel s k _, .kept rfl rfl, busy⟩
  · rw [if_neg empty] at handled
    cases handled
    exact ⟨Frame.refl k s, Effect.unchanged _ _, fun _ => rfl⟩

/-! ### Requests for slots in use -/

/-- The registration of a slot that waits to be started fails. -/
def StartFails (s : Server) (id : Int) (o : Outcome) : Prop :=
  (s.slot (HASH_ID id)).id = id ∧
    ((s.slot (HASH_ID id)).type = .PACCEPT ∨ (s.slot (HASH_ID id)).type = .PLISTEN) ∧
    s.kernel.add (s.slot (HASH_ID id)).fd (HASH_ID id) o.admitted = none

instance (s : Server) (id : Int) (o : Outcome) : Decidable (StartFails s id o) :=
  inferInstanceAs (Decidable (_ ∧ _ ∧ _ = none))

theorem start_socket_effect (s : Server) (id : Int) (opaqueVal : UInt64) (o : Outcome) :
    Frame (HASH_ID id) s (start_socket s id opaqueVal o).server ∧
      Effect (HASH_ID id) s (start_socket s id opaqueVal o) (if StartFails s id o then .leak else .sound) := by
  simp only [start_socket]
  by_cases stale : (s.slot (HASH_ID id)).type = .INVALID ∨ (s.slot (HASH_ID id)).id ≠ id
  · have fine : ¬ StartFails s id o := by
      rintro ⟨same, waiting, -⟩
      rcases stale with invalid | other
      · rw [invalid] at waiting
        rcases waiting with equal | equal <;> cases equal
      · exact other same
    rw [if_pos stale, if_neg fine]
    exact ⟨Frame.refl _ s, Effect.unchanged _ _⟩
  rw [if_neg stale]
  have same : (s.slot (HASH_ID id)).id = id := not_not.mp (not_or.mp stale).2
  by_cases waiting : (s.slot (HASH_ID id)).type = .PACCEPT ∨ (s.slot (HASH_ID id)).type = .PLISTEN
  · rw [if_pos waiting]
    cases added : s.kernel.add (s.slot (HASH_ID id)).fd (HASH_ID id) o.admitted with
    | none =>
      have fails : StartFails s id o := ⟨same, waiting, added⟩
      rw [if_pos fails]
      exact ⟨Frame.setType s _ _, .leaked waiting (Server.setType_control s _ _) rfl ⟨.inr rfl, same.symm⟩⟩
    | some ker =>
      have fine : ¬ StartFails s id o := by
        rintro ⟨-, -, refused⟩
        rw [refused] at added
        cases added
      rw [if_neg fine]
      refine ⟨(Frame.setKernel s _ ker).trans (Frame.setSlot _ _ _), ?_⟩
      refine .promoted (if (s.slot (HASH_ID id)).type = .PACCEPT then .CONNECTED else .LISTEN) ?_
        (Server.setSlot_control _ _ _) (Kernel.add_balance added)
      rcases waiting with accepted | listening
      · exact .inr (.inl ⟨accepted, if_pos accepted⟩)
      · exact .inl ⟨listening, if_neg (by rw [listening]; decide)⟩
  · have fine : ¬ StartFails s id o := fun fails => waiting fails.2.1
    rw [if_neg waiting, if_neg fine]
    by_cases connected : (s.slot (HASH_ID id)).type = .CONNECTED
    · rw [if_pos connected]
      exact ⟨Frame.setSlot s _ _, .kept (Server.setSlot_control s _ _) rfl⟩
    · rw [if_neg connected]
      exact ⟨Frame.refl _ s, Effect.unchanged _ _⟩

theorem close_socket_effect {s : Server} {id : Int} {opaqueVal : UInt64} {result : Message} {o : Outcome} {r : Reply}
    (handled : close_socket s id opaqueVal result o = .ok r) :
    Frame (HASH_ID id) s r.server ∧ Effect (HASH_ID id) s r .sound := by
  simp only [close_socket] at handled
  by_cases stale : (s.slot (HASH_ID id)).type = .INVALID ∨ (s.slot (HASH_ID id)).id ≠ id
  · rw [if_pos stale] at handled
    cases handled
    exact ⟨Frame.refl _ s, Effect.unchanged _ _⟩
  rw [if_neg stale] at handled
  obtain ⟨valid, same⟩ := not_or.mp stale
  by_cases empty : send_buffer_empty (s.slot (HASH_ID id)) = true
  · simp only [close_sent, empty, if_true] at handled
    obtain ⟨⟨t, message⟩, closed, ended⟩ := bind_ok handled
    cases ended
    obtain ⟨live, frame, control, balance, -⟩ := force_close_live valid closed
    exact ⟨frame, .closed live control balance ⟨.inl rfl, (not_not.mp same).symm⟩⟩
  · -- a queue that is not empty stays as it is, and `send_buffer` yields -1
    rw [if_neg empty] at handled
    obtain ⟨middle, sent, ended⟩ := bind_ok handled
    obtain ⟨frame, effect, quiet⟩ := send_buffer_effect valid sent
    rw [if_pos (quiet (Bool.not_eq_true _ ▸ empty))] at ended
    cases ended
    exact ⟨frame, effect⟩

theorem send_socket_effect {s : Server} {id sz : Int} {buffer : List Byte} {result : Message} {o : Outcome} {r : Reply}
    (handled : send_socket s id sz buffer result o = .ok r) :
    Frame (HASH_ID id) s r.server ∧ Effect (HASH_ID id) s r .sound := by
  simp only [send_socket] at handled
  by_cases deaf : (s.slot (HASH_ID id)).type = .INVALID ∨ (s.slot (HASH_ID id)).id ≠ id ∨
      (s.slot (HASH_ID id)).type = .HALFCLOSE ∨ (s.slot (HASH_ID id)).type = .PACCEPT
  · rw [if_pos deaf] at handled
    cases handled
    exact ⟨Frame.refl _ s, Effect.unchanged _ _⟩
  · rw [if_neg deaf] at handled
    split at handled
    · cases handled
    · split at handled
      · split at handled
        · obtain ⟨⟨t, message⟩, closed, ended⟩ := bind_ok handled
          cases ended
          exact force_close_effect (not_or.mp deaf).1 closed (.inl rfl)
        · split at handled <;> cases handled
          · exact ⟨Frame.setKernel s _ _, .kept rfl rfl⟩
          · exact ⟨(Frame.setKernel s _ _).trans (Frame.setKernel _ _ _), .kept rfl rfl⟩
        · split at handled <;> cases handled
          · exact ⟨Frame.refl _ s, Effect.unchanged _ _⟩
          · exact ⟨Frame.setKernel s _ _, .kept rfl rfl⟩
      · cases handled
        exact ⟨Frame.refl _ s, Effect.unchanged _ _⟩

theorem setopt_socket_effect (s : Server) (id what value : Int) (result : Message) (type : Int) :
    Frame (HASH_ID id) s (setopt_socket s id what value) ∧
      Effect (HASH_ID id) s ⟨setopt_socket s id what value, result, type⟩ .sound := by
  rw [setopt_socket]
  split
  · exact ⟨Frame.refl _ s, Effect.unchanged _ _⟩
  · exact ⟨Frame.setKernel s _ _, .kept rfl rfl⟩

/-! ### Events of slots in use -/

theorem report_connect_effect {s : Server} {k : Index} {o : Outcome} {r : Reply}
    (connecting : (s.slot k).type = .CONNECTING) (handled : report_connect s k o = .ok r) :
    Frame k s r.server ∧ Effect k s r .sound := by
  have promotes : Promotes (s.slot k).control.type .CONNECTED := .inr (.inr ⟨connecting, rfl⟩)
  simp only [report_connect] at handled
  by_cases failed : o.error = true
  · rw [if_pos failed] at handled
    obtain ⟨⟨t, message⟩, closed, ended⟩ := bind_ok handled
    cases ended
    exact force_close_effect (by rw [connecting]; decide) closed (.inr rfl)
  · rw [if_neg failed] at handled
    cases handled
    by_cases empty : send_buffer_empty ((s.setType k .CONNECTED).slot k) = true
    · rw [if_pos empty]
      exact ⟨(Frame.setType s k _).trans (Frame.setKernel _ k _),
        .promoted .CONNECTED promotes (Server.setType_control s k _) rfl⟩
    · rw [if_neg empty]
      exact ⟨Frame.setType s k _, .promoted .CONNECTED promotes (Server.setType_control s k _) rfl⟩

theorem forward_message_tcp_effect {s : Server} {k : Index} {result : Message} {o : Outcome} {r : Reply}
    (valid : (s.slot k).type ≠ .INVALID) (handled : forward_message_tcp s k result o = .ok r) :
    Frame k s r.server ∧ Effect k s r (if o.read = .failed then .silent else .sound) := by
  simp only [forward_message_tcp] at handled
  cases outcome : o.read with
  | EINTR =>
    simp only [outcome] at handled
    cases handled
    exact ⟨Frame.refl k s, Effect.unchanged _ _⟩
  | EAGAIN =>
    simp only [outcome] at handled
    cases handled
    exact ⟨Frame.refl k s, Effect.unchanged _ _⟩
  | failed =>
    simp only [outcome] at handled
    obtain ⟨⟨t, message⟩, closed, ended⟩ := bind_ok handled
    cases ended
    obtain ⟨live, frame, control, balance, -⟩ := force_close_live valid closed
    exact ⟨frame, .dropped live control balance rfl⟩
  | received bytes =>
    simp only [outcome] at handled
    by_cases ended : (delivered (s.slot k) bytes).length = 0
    · rw [if_pos ended] at handled
      cases handled
      exact ⟨Frame.refl k s, Effect.unchanged _ _⟩
    rw [if_neg ended] at handled
    by_cases half : (s.slot k).type = .HALFCLOSE
    · rw [if_pos half] at handled
      cases handled
      exact ⟨Frame.refl k s, Effect.unchanged _ _⟩
    · rw [if_neg half] at handled
      cases handled
      exact ⟨Frame.setSlot s k _, .kept (Server.setSlot_control s k _) rfl⟩

/-! ### Requests that fill a slot -/

section
variable {s t : Server} {id fd : Int} {protocol : Nat} {opaqueVal : UInt64} {add admitted : Bool} {ns : Option Index}

/-- A slot with this content under another type. -/
theorem control_setType {t : Server} {k : Index} {type : SocketType} (control : (t.slot k).control = ⟨type, id, fd⟩)
    (next : SocketType) : ((t.setType k next).slot k).control = ⟨next, id, fd⟩ := by
  rw [Server.setType_control, control]

theorem new_socket_ok (made : new_socket s id fd protocol opaqueVal add admitted = .ok (t, ns)) :
    (s.slot (HASH_ID id)).type = .RESERVE ∧ Frame (HASH_ID id) s t ∧ t.kernel.balance = s.kernel.balance ∧
      ((ns = none ∧ add = true ∧
          (t.slot (HASH_ID id)).control = ⟨.INVALID, (s.slot (HASH_ID id)).id, (s.slot (HASH_ID id)).fd⟩) ∨
        (ns = some (HASH_ID id) ∧ (t.slot (HASH_ID id)).control = ⟨.RESERVE, id, fd⟩)) := by
  simp only [new_socket] at made
  by_cases reserved : (s.slot (HASH_ID id)).type = .RESERVE
  · rw [if_neg (not_not.mpr reserved)] at made
    cases added : (if add then s.kernel.add fd (HASH_ID id) admitted else some s.kernel) with
    | none =>
      rw [added] at made
      cases made
      refine ⟨reserved, Frame.setType s _ _, rfl, .inl ⟨rfl, ?_, Server.setType_control s _ _⟩⟩
      by_contra quiet
      simp [quiet] at added
    | some ker =>
      rw [added] at made
      cases made
      refine ⟨reserved, (Frame.setKernel s _ ker).trans (Frame.setSlot _ _ _), ?_, .inr ⟨rfl, ?_⟩⟩
      · rw [Server.setSlot_kernel, Server.setKernel_kernel]
        cases add with
        | true => exact Kernel.add_balance added
        | false => cases added; rfl
      · rw [Server.setSlot_control, Socket.control, reserved]
  · rw [if_pos reserved] at made
    cases made

end

section
variable {s : Server} {id fd : Int} {opaqueVal : UInt64} {result : Message} {o : Outcome} {r : Reply}

theorem listen_socket_ok (handled : listen_socket s id fd opaqueVal result = .ok r) :
    (s.slot (HASH_ID id)).type = .RESERVE ∧ Frame (HASH_ID id) s r.server ∧
      r.server.kernel.balance = s.kernel.balance ∧ (r.server.slot (HASH_ID id)).control = ⟨.PLISTEN, id, fd⟩ := by
  obtain ⟨⟨t, ns⟩, made, ended⟩ := bind_ok handled
  obtain ⟨reserved, frame, balance, (⟨-, added, -⟩ | ⟨rfl, control⟩)⟩ := new_socket_ok made
  · cases added
  · cases ended
    exact ⟨reserved, frame.trans (Frame.setType t _ _), balance, control_setType control _⟩

/-- A bound slot, or none when the registration fails. -/
theorem bind_socket_ok (handled : bind_socket s id fd opaqueVal o = .ok r) :
    (s.slot (HASH_ID id)).type = .RESERVE ∧ Frame (HASH_ID id) s r.server ∧
      r.server.kernel.balance = s.kernel.balance ∧
      ((r.server.slot (HASH_ID id)).control = ⟨.BIND, id, fd⟩ ∨
        (r.server.slot (HASH_ID id)).control =
          ⟨.INVALID, (s.slot (HASH_ID id)).id, (s.slot (HASH_ID id)).fd⟩) := by
  obtain ⟨⟨t, ns⟩, made, ended⟩ := bind_ok handled
  obtain ⟨reserved, frame, balance, (⟨rfl, -, control⟩ | ⟨rfl, control⟩)⟩ := new_socket_ok made
  · cases ended
    exact ⟨reserved, frame, balance, .inr control⟩
  · cases ended
    exact ⟨reserved, frame.trans (Frame.setType t _ _), balance, .inl (control_setType control _)⟩

/-- Where an address was found, what holds once its descriptor is obtained and before each
    descriptor that was obtained and closed again holds at the start. -/
theorem try_addresses_from {ker n : Kernel} {a : Attempt} {ai_list : List Attempt} {P : Kernel → Prop}
    (found : try_addresses ker ai_list = .ok (n, a)) (last : ∀ ker, ker.acquire a.sock = some n → P ker)
    (before : ∀ ker sock opened, ker.acquire sock = some opened → P (opened.close sock) → P ker) : P ker := by
  induction ai_list generalizing ker with
  | nil => cases found
  | cons b ai_next ih =>
    simp only [try_addresses] at found
    cases acquired : ker.acquire b.sock with
    | none =>
      rw [acquired] at found
      exact ih found
    | some opened =>
      simp only [acquired] at found
      by_cases failed : b.connect = .failed
      · rw [if_pos failed] at found
        exact before ker b.sock opened acquired (ih found)
      · rw [if_neg failed] at found
        cases found
        exact last ker acquired

/-- The descriptors of the attempts that failed are closed. -/
theorem try_addresses_ok {ker n : Kernel} {a : Attempt} {ai_list : List Attempt}
    (found : try_addresses ker ai_list = .ok (n, a)) :
    ker.balance a.sock ≤ 0 ∧ n.balance = Function.update ker.balance a.sock (ker.balance a.sock + 1) := by
  apply try_addresses_from found
  · intro ker acquired
    exact (Kernel.acquire_balance acquired).2
  · intro ker sock opened acquired later
    rwa [Kernel.acquire_close_balance acquired] at later

/-- A connection with a new descriptor, or none. -/
theorem open_socket_ok (handled : open_socket s id opaqueVal o = .ok r) :
    Frame (HASH_ID id) s r.server ∧
      ((r.server.kernel.balance = s.kernel.balance ∧
          (r.server.slot (HASH_ID id)).control =
            ⟨.INVALID, (s.slot (HASH_ID id)).id, (s.slot (HASH_ID id)).fd⟩) ∨
        ∃ type sock, (type = .CONNECTED ∨ type = .CONNECTING) ∧ (s.slot (HASH_ID id)).type = .RESERVE ∧
          s.kernel.balance sock ≤ 0 ∧
          r.server.kernel.balance = Function.update s.kernel.balance sock (s.kernel.balance sock + 1) ∧
          (r.server.slot (HASH_ID id)).control = ⟨type, id, sock⟩) := by
  simp only [open_socket] at handled
  split at handled
  · cases handled
    exact ⟨Frame.setType s _ _, .inl ⟨rfl, Server.setType_control s _ _⟩⟩
  · cases handled
    exact ⟨Frame.setType s _ _, .inl ⟨rfl, Server.setType_control s _ _⟩⟩
  · obtain ⟨⟨ker, a⟩, found, handled⟩ := bind_ok handled
    obtain ⟨⟨t, ns⟩, made, ended⟩ := bind_ok handled
    obtain ⟨free, acquired⟩ := try_addresses_ok found
    obtain ⟨reserved, frame, balance, (⟨rfl, -, -⟩ | ⟨rfl, control⟩)⟩ := new_socket_ok made
    · cases ended
    · rw [Server.setKernel_slot] at reserved
      rw [Server.setKernel_kernel, acquired] at balance
      have frame := (Frame.setKernel s _ ker).trans frame
      simp only at ended
      by_cases succeeded : a.connect = .succeeded
      · rw [if_pos succeeded] at ended
        cases ended
        exact ⟨frame.trans (Frame.setType t _ _),
          .inr ⟨.CONNECTED, a.sock, .inl rfl, reserved, free, balance, control_setType control _⟩⟩
      · rw [if_neg succeeded] at ended
        cases ended
        exact ⟨(frame.trans (Frame.setType t _ _)).trans (Frame.setKernel _ _ _),
          .inr ⟨.CONNECTING, a.sock, .inr rfl, reserved, free, balance, control_setType control _⟩⟩

end

/-! ### Reservation and accept -/

/-- A reservation takes a slot that was free; without one, only numbers are drawn. -/
theorem probe_spec (i : Nat) (s : Server) : ∃ alloc_id,
    probe i s = (none, { s with alloc_id := alloc_id }) ∨
      ∃ id, (s.slot (HASH_ID id)).type = .INVALID ∧ probe i s = (some id, reserve { s with alloc_id := alloc_id } id) := by
  induction i generalizing s with
  | zero => exact ⟨s.alloc_id, .inl rfl⟩
  | succ i ih =>
    simp only [probe]
    by_cases free : (s.slot (HASH_ID (draw_id s.alloc_id))).type = .INVALID
    · rw [if_pos free]
      exact ⟨draw_id s.alloc_id, .inr ⟨draw_id s.alloc_id, free, rfl⟩⟩
    · rw [if_neg free]
      exact ih { s with alloc_id := draw_id s.alloc_id }

theorem reserve_id_spec (s : Server) : ∃ alloc_id,
    reserve_id s = (none, { s with alloc_id := alloc_id }) ∨
      ∃ id, (s.slot (HASH_ID id)).type = .INVALID ∧
        reserve_id s = (some id, reserve { s with alloc_id := alloc_id } id) := by
  unfold reserve_id
  exact probe_spec MAX_SOCKET s

/-- The id drawn depends on the slots and on `alloc_id` only. -/
theorem probe_congr (i : Nat) {s t : Server} (slot : t.slot = s.slot) (alloc_id : t.alloc_id = s.alloc_id) :
    (probe i t).1 = (probe i s).1 := by
  induction i generalizing s t with
  | zero => rfl
  | succ i ih =>
    simp only [probe, slot, alloc_id]
    split
    · rfl
    · exact ih rfl rfl

theorem reserve_id_congr {s t : Server} (slot : t.slot = s.slot) (alloc_id : t.alloc_id = s.alloc_id) :
    (reserve_id t).1 = (reserve_id s).1 := by
  unfold reserve_id
  exact probe_congr _ slot alloc_id

/-- The slots, the pipe and the batch after an `accept` that is refused, or that
    yields a connection with a new descriptor in a free slot. -/
theorem report_accept_ok {s : Server} {k : Index} {result : Message} {o : Outcome} {r : Reply}
    (handled : report_accept s k result o = .ok r) :
    (r.server.pipe = s.pipe ∧ r.server.ev = s.ev ∧ r.server.event_index = s.event_index ∧
      r.server.checkctrl = s.checkctrl) ∧
    ((r.server.slot = s.slot ∧ r.server.kernel.balance = s.kernel.balance ∧ r.type = -1 ∧
        (s.kernel.acquire o.accepted = none ∨ (reserve_id s).1 = none)) ∨
      ∃ id, (s.slot (HASH_ID id)).type = .INVALID ∧ (∀ j, j ≠ HASH_ID id → r.server.slot j = s.slot j) ∧
        (r.server.slot (HASH_ID id)).control = ⟨.PACCEPT, id, o.accepted⟩ ∧
        s.kernel.balance o.accepted ≤ 0 ∧
        r.server.kernel.balance =
          Function.update s.kernel.balance o.accepted (s.kernel.balance o.accepted + 1) ∧
        s.kernel.acquire o.accepted ≠ none ∧ (reserve_id s).1 = some id ∧ r.type = SOCKET_ACCEPT) := by
  simp only [report_accept] at handled
  cases acquired : s.kernel.acquire o.accepted with
  | none =>
    rw [acquired] at handled
    cases handled
    exact ⟨⟨rfl, rfl, rfl, rfl⟩, .inl ⟨rfl, rfl, rfl, .inl rfl⟩⟩
  | some ker =>
    simp only [acquired] at handled
    obtain ⟨-, free, balance⟩ := Kernel.acquire_balance acquired
    have same : (reserve_id (s.setKernel ker)).1 = (reserve_id s).1 := reserve_id_congr rfl rfl
    obtain ⟨alloc_id, (none | ⟨id, vacant, taken⟩)⟩ := reserve_id_spec (s.setKernel ker)
    · rw [none] at handled
      cases handled
      refine ⟨⟨rfl, rfl, rfl, rfl⟩, .inl ⟨rfl, ?_, rfl, .inr (by rw [← same, none])⟩⟩
      exact Kernel.acquire_close_balance acquired
    · rw [taken] at handled
      obtain ⟨⟨t, ns⟩, made, ended⟩ := bind_ok handled
      obtain ⟨-, frame, kept, (⟨-, added, -⟩ | ⟨rfl, control⟩)⟩ := new_socket_ok made
      · cases added
      · cases ended
        have frame : Frame (HASH_ID id) { s.setKernel ker with alloc_id := alloc_id } (t.setType (HASH_ID id) .PACCEPT) :=
          ((Frame.setSlot _ _ _).trans frame).trans (Frame.setType t _ _)
        refine ⟨⟨frame.pipe, frame.ev, frame.event_index, frame.checkctrl⟩, .inr ⟨id, vacant, frame.others, ?_, free,
          kept.trans balance, by simp, ?_, rfl⟩⟩
        · exact control_setType control _
        · rw [← same, taken]

/-! ### Failures -/

section
variable {s : Server} {k : Index} {id : Int} {opaqueVal : UInt64} {result : Message} {o : Outcome} {h : Halt}

theorem force_close_error (failed : force_close s k = .error h) :
    h = .assertion .force_close ∧ (s.slot k).type = .RESERVE := by
  simp only [force_close] at failed
  by_cases invalid : (s.slot k).type = .INVALID
  · rw [if_pos invalid] at failed
    cases failed
  rw [if_neg invalid] at failed
  by_cases reserved : (s.slot k).type = .RESERVE
  · rw [if_pos reserved] at failed
    cases failed
    exact ⟨rfl, reserved⟩
  · rw [if_neg reserved] at failed
    cases failed

theorem new_socket_error {fd : Int} {protocol : Nat} {add admitted : Bool}
    (failed : new_socket s id fd protocol opaqueVal add admitted = .error h) :
    h = .assertion .new_socket ∧ (s.slot (HASH_ID id)).type ≠ .RESERVE := by
  simp only [new_socket] at failed
  by_cases other : (s.slot (HASH_ID id)).type ≠ .RESERVE
  · rw [if_pos other] at failed
    cases failed
    exact ⟨rfl, other⟩
  · rw [if_neg other] at failed
    split at failed <;> cases failed

theorem try_addresses_error {ker : Kernel} {ai_list : List Attempt} (failed : try_addresses ker ai_list = .error h) :
    h = .nullDereference := by
  induction ai_list generalizing ker with
  | nil => cases failed; rfl
  | cons a ai_next ih =>
    simp only [try_addresses] at failed
    split at failed
    · exact ih failed
    · split at failed
      · exact ih failed
      · cases failed

theorem send_buffer_error {writes : List WriteResult} (valid : (s.slot k).type ≠ .INVALID)
    (failed : send_buffer s k result writes = .error h) : h = .assertion .send_buffer ∨ h = .assertion .force_close := by
  rw [send_buffer_valid valid] at failed
  split at failed
  · cases failed
    exact .inl rfl
  · split at failed
    · simp only at failed
      split at failed
      · exact .inr (force_close_error (map_error failed)).1
      · cases failed
    · cases failed

theorem close_sent_error (failed : close_sent s id opaqueVal result = .error h) : h = .assertion .force_close := by
  simp only [close_sent] at failed
  split at failed
  · rcases bind_error failed with early | ⟨p, -, late⟩
    · exact (force_close_error early).1
    · cases late
  · cases failed

theorem close_socket_error (failed : close_socket s id opaqueVal result o = .error h) :
    h = .assertion .send_buffer ∨ h = .assertion .force_close := by
  simp only [close_socket] at failed
  by_cases stale : (s.slot (HASH_ID id)).type = .INVALID ∨ (s.slot (HASH_ID id)).id ≠ id
  · rw [if_pos stale] at failed
    cases failed
  rw [if_neg stale] at failed
  split at failed
  · exact .inr (close_sent_error failed)
  · rcases bind_error failed with early | ⟨r, -, late⟩
    · exact send_buffer_error (not_or.mp stale).1 early
    · split at late
      · cases late
      · exact .inr (close_sent_error late)

theorem send_socket_error {sz : Int} {buffer : List Byte} (failed : send_socket s id sz buffer result o = .error h) :
    h = .assertion .send_socket ∨ h = .assertion .force_close := by
  simp only [send_socket] at failed
  split at failed
  · cases failed
  · split at failed
    · cases failed
      exact .inl rfl
    · split at failed
      · split at failed
        · rcases bind_error failed with early | ⟨p, -, late⟩
          · exact .inr (force_close_error early).1
          · cases late
        · split at failed <;> cases failed
        · split at failed <;> cases failed
      · cases failed

theorem listen_socket_error {fd : Int} (failed : listen_socket s id fd opaqueVal result = .error h) :
    h = .assertion .new_socket ∧ (s.slot (HASH_ID id)).type ≠ .RESERVE := by
  rcases bind_error failed with early | ⟨⟨t, ns⟩, -, late⟩
  · exact new_socket_error early
  · cases ns <;> cases late

theorem bind_socket_error {fd : Int} (failed : bind_socket s id fd opaqueVal o = .error h) :
    h = .assertion .new_socket ∧ (s.slot (HASH_ID id)).type ≠ .RESERVE := by
  rcases bind_error failed with early | ⟨⟨t, ns⟩, -, late⟩
  · exact new_socket_error early
  · cases ns <;> cases late

theorem open_socket_error (failed : open_socket s id opaqueVal o = .error h) :
    h = .nullDereference ∨ h = .assertion .new_socket ∧ (s.slot (HASH_ID id)).type ≠ .RESERVE := by
  simp only [open_socket] at failed
  split at failed
  · cases failed
  · cases failed
  · rcases bind_error failed with early | ⟨⟨ker, a⟩, -, later⟩
    · exact .inl (try_addresses_error early)
    · rcases bind_error later with early | ⟨⟨t, ns⟩, -, late⟩
      · obtain ⟨fault, other⟩ := new_socket_error early
        exact .inr ⟨fault, other⟩
      · cases ns with
        | none => cases late; exact .inl rfl
        | some k =>
          simp only at late
          split at late <;> cases late

theorem report_connect_error (failed : report_connect s k o = .error h) : h = .assertion .force_close := by
  simp only [report_connect] at failed
  split at failed
  · rcases bind_error failed with early | ⟨p, -, late⟩
    · exact (force_close_error early).1
    · cases late
  · cases failed

theorem forward_message_tcp_error (failed : forward_message_tcp s k result o = .error h) :
    h = .assertion .force_close := by
  simp only [forward_message_tcp] at failed
  split at failed
  · cases failed
  · cases failed
  · rcases bind_error failed with early | ⟨p, -, late⟩
    · exact (force_close_error early).1
    · cases late
  · split at failed
    · cases failed
    · split at failed <;> cases failed

/-- An accepted connection is put into the slot just reserved for it. -/
theorem report_accept_total (s : Server) (k : Index) (result : Message) (o : Outcome) :
    ∃ r, report_accept s k result o = .ok r := by
  unfold report_accept
  cases s.kernel.acquire o.accepted with
  | none => exact ⟨_, rfl⟩
  | some ker =>
    simp only
    obtain ⟨alloc_id, (none | ⟨id, -, taken⟩)⟩ := reserve_id_spec (s.setKernel ker)
    · rw [none]
      exact ⟨_, rfl⟩
    · rw [taken]
      cases made : new_socket (reserve { s.setKernel ker with alloc_id := alloc_id } id) id o.accepted PROTOCOL_TCP
          ((reserve { s.setKernel ker with alloc_id := alloc_id } id).slot k).opaqueVal false true with
      | error h => exact absurd (by rw [reserve, Server.setSlot_self]) (new_socket_error made).2
      | ok p =>
        simp only [made, bind, Except.bind]
        cases p.2 <;> exact ⟨_, rfl⟩

end

/-! ### Control requests -/

/-- The id a request was reserved with; `none` when it was made for an id in use. -/
def reservation : Request Int (List Byte) → Option Int
  | request_open id _ _ _ => some id
  | request_listen id _ _ => some id
  | request_bind id _ _ => some id
  | _ => none

/-- The fault that handling a request comes to. -/
def commandFault (s : Server) (o : Outcome) : Request Int (List Byte) → Fault
  | request_start id _ => if StartFails s id o then .leak else .sound
  | _ => .sound

/-- What the request of a reserved id does to its slot. -/
inductive Filled (request : Request Int (List Byte)) (id : Int) (x : Control) (b : Int → Int) (y : Control)
    (c : Int → Int) : Prop
  | listening (fd : Int) (opaqueVal : UInt64) (is : request = request_listen id fd opaqueVal)
      (reserved : x.type = .RESERVE) (control : y = ⟨.PLISTEN, id, fd⟩) (balance : c = b) : Filled request id x b y c
  | bound (fd : Int) (opaqueVal : UInt64) (is : request = request_bind id fd opaqueVal)
      (reserved : x.type = .RESERVE) (control : y = ⟨.BIND, id, fd⟩) (balance : c = b) : Filled request id x b y c
  | connected (port : Int) (opaqueVal : UInt64) (host : List Byte) (is : request = request_open id port opaqueVal host)
      (type : SocketType) (sock : Int) (connects : type = .CONNECTED ∨ type = .CONNECTING)
      (reserved : x.type = .RESERVE) (free : b sock ≤ 0) (control : y = ⟨type, id, sock⟩)
      (balance : c = Function.update b sock (b sock + 1)) : Filled request id x b y c
  | abandoned (other : ∀ own fd opaqueVal, request ≠ request_listen own fd opaqueVal)
      (control : y = { x with type := .INVALID }) (balance : c = b) : Filled request id x b y c

section
variable {s : Server} {request : Request Int (List Byte)} {result : Message} {o : Outcome} {r : Reply}

/-- A request with a reserved id works on the slot of that id and fills or frees it. -/
theorem ctrl_cmd_reserved {id : Int} (reserved : reservation request = some id)
    (handled : ctrl_cmd s request result o = .ok r) :
    Frame (HASH_ID id) s r.server ∧ Filled request id (s.slot (HASH_ID id)).control s.kernel.balance
      (r.server.slot (HASH_ID id)).control r.server.kernel.balance := by
  cases request with
  | request_open own port opaqueVal host =>
    cases reserved
    obtain ⟨frame, (⟨balance, control⟩ | ⟨type, sock, connects, empty, free, balance, control⟩)⟩ := open_socket_ok handled
    · exact ⟨frame, .abandoned (by simp) control balance⟩
    · exact ⟨frame, .connected port opaqueVal host rfl type sock connects empty free control balance⟩
  | request_listen own fd opaqueVal =>
    cases reserved
    obtain ⟨empty, frame, balance, control⟩ := listen_socket_ok handled
    exact ⟨frame, .listening fd opaqueVal rfl empty control balance⟩
  | request_bind own fd opaqueVal =>
    cases reserved
    obtain ⟨empty, frame, balance, (control | control)⟩ := bind_socket_ok handled
    · exact ⟨frame, .bound fd opaqueVal rfl empty control balance⟩
    · exact ⟨frame, .abandoned (by simp) control balance⟩
  | _ => cases reserved

/-- Any other request keeps, promotes or closes one slot. -/
theorem ctrl_cmd_unreserved (unreserved : reservation request = none)
    (handled : ctrl_cmd s request result o = .ok r) :
    ∃ k, Frame k s r.server ∧ Effect k s r (commandFault s o request) := by
  cases request with
  | request_start id opaqueVal =>
    cases handled
    exact ⟨HASH_ID id, start_socket_effect s id opaqueVal o⟩
  | request_close id opaqueVal => exact ⟨HASH_ID id, close_socket_effect handled⟩
  | request_send id sz buffer => exact ⟨HASH_ID id, send_socket_effect handled⟩
  | request_setopt id what value =>
    cases handled
    exact ⟨HASH_ID id, setopt_socket_effect s id what value result (-1)⟩
  | request_exit =>
    cases handled
    exact ⟨0, Frame.refl 0 s, Effect.unchanged _ _⟩
  | _ => cases unreserved

/-- Only a request with a reserved id calls `new_socket`, whose assertion fails
    unless the slot of the id is reserved. -/
theorem ctrl_cmd_new_socket (failed : ctrl_cmd s request result o = .error (.assertion .new_socket)) :
    ∃ id, reservation request = some id ∧ (s.slot (HASH_ID id)).type ≠ .RESERVE := by
  cases request with
  | request_start id opaqueVal => cases failed
  | request_bind id fd opaqueVal => exact ⟨id, rfl, (bind_socket_error failed).2⟩
  | request_listen id fd opaqueVal => exact ⟨id, rfl, (listen_socket_error failed).2⟩
  | request_close id opaqueVal => rcases close_socket_error failed with wrong | wrong <;> cases wrong
  | request_open id port opaqueVal host =>
    rcases open_socket_error failed with wrong | ⟨-, other⟩
    · cases wrong
    · exact ⟨id, rfl, other⟩
  | request_exit => cases failed
  | request_send id sz buffer => rcases send_socket_error failed with wrong | wrong <;> cases wrong
  | request_setopt id what value => cases failed

end

end Canna.SocketServer
