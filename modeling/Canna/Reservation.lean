import Canna.Steps
import Mathlib.Data.List.Perm.Basic

/-!
# The hand-off of reserved ids

A client that has reserved an id hands its slot to the poll thread with a request.
Until that request is handled, whatever else happens, the slot stays reserved under
that id, and the ids of such requests stay apart (`Reserved`): a reservation takes a
free slot, every handler keeps a reserved slot that is not its own, and a request
handled leaves the others alone. So the request finds its slot as the client left it
(`reservations_found`), and the assertion in `new_socket` does not fail.
-/
namespace Canna.Poll
open Canna.Sockets Canna.SocketServer Canna.ControlPipe Canna.Lts

/-! ### What clients and the pipe hold -/

section
variable {α : Type} (f : Client → Option α) (g : Request Int (List Byte) → Option α)

/-- What the clients hold, and what the requests in the pipe do. -/
def tokens (s : Sys) : List α := s.clients.filterMap f ++ s.server.pipe.filterMap g

variable {f g} {s : Sys}

theorem tokens_of_member {j : Nat} {c : Client} (member : s.clients[j]? = some c) :
    (tokens f g s).Perm ((f c).toList ++ ((s.clients.eraseIdx j).filterMap f ++ s.server.pipe.filterMap g)) := by
  obtain ⟨inside, rfl⟩ := List.getElem?_eq_some_iff.mp member
  unfold tokens
  rw [← List.append_assoc]
  apply List.Perm.append_right
  have perm := ((List.getElem_cons_eraseIdx_perm inside).symm.filterMap f)
  rw [List.filterMap_cons] at perm
  cases held : f s.clients[j] with
  | none => rw [held] at perm; exact perm
  | some a => rw [held] at perm; exact perm

theorem tokens_client (others : List Client) (r : Server) (next : Option Client) :
    tokens f g (s.client others (r, next)) =
      (next.bind f).toList ++ (others.filterMap f ++ r.pipe.filterMap g) := by
  cases next with
  | none => rfl
  | some d =>
    cases held : f d with
    | none => simp [tokens, Sys.client, held]
    | some a => simp [tokens, Sys.client, held]

/-- A client that keeps what it holds. -/
theorem tokens_kept {j : Nat} {c : Client} {r : Server} {next : Option Client} (member : s.clients[j]? = some c)
    (same : next.bind f = f c) (pipe : r.pipe = s.server.pipe) :
    (tokens f g (s.client (s.clients.eraseIdx j) (r, next))).Perm (tokens f g s) := by
  rw [tokens_client, same, pipe]
  exact (tokens_of_member member).symm

/-- A client that hands what it holds to the pipe. -/
theorem tokens_handed {j : Nat} {request : Request Int (List Byte)} (member : s.clients[j]? = some (.requesting request))
    (same : f (.requesting request) = g request) :
    (tokens f g (s.client (s.clients.eraseIdx j) ({ s.server with pipe := s.server.pipe ++ [request] }, none))).Perm
      (tokens f g s) := by
  rw [tokens_client]
  refine List.Perm.trans ?_ (tokens_of_member member).symm
  have last : [request].filterMap g = (g request).toList := by
    cases held : g request <;> simp [held]
  rw [same, List.filterMap_append, last, Option.bind_none, Option.toList_none, List.nil_append, ← List.append_assoc]
  exact List.perm_append_comm

theorem tokens_command {t : Sys} {request : Request Int (List Byte)} {pipe : List (Request Int (List Byte))}
    (waiting : s.server.pipe = request :: pipe) (clients : t.clients = s.clients) (left : t.server.pipe = pipe) :
    (tokens f g s).Perm ((g request).toList ++ tokens f g t) := by
  have first : (request :: pipe).filterMap g = (g request).toList ++ pipe.filterMap g := by
    cases held : g request <;> simp [held]
  unfold tokens
  rw [clients, left, waiting, first, ← List.append_assoc, ← List.append_assoc]
  exact List.perm_append_comm.append_right _

end

/-! ### The invariant -/

/-- The ids of the reservations that the poll thread has not yet handled. -/
def pending (s : Sys) : List Int := tokens Client.reserved reservation s

/-- The slots of the pending reservations are distinct and reserved for them. -/
structure Reserved (s : Sys) : Prop where
  distinct : ((pending s).map HASH_ID).Nodup
  held : ∀ id ∈ pending s, (s.server.slot (HASH_ID id)).type = .RESERVE ∧ (s.server.slot (HASH_ID id)).id = id

namespace Reserved
variable {s t : Sys}

/-- The same reservations, with their slots as they were. -/
theorem of_perm (before : Reserved s) (perm : (pending t).Perm (pending s))
    (kept : ∀ id ∈ pending s, (t.server.slot (HASH_ID id)).control = (s.server.slot (HASH_ID id)).control) :
    Reserved t where
  distinct := (perm.map HASH_ID).nodup_iff.mpr before.distinct
  held id member := by
    have member := perm.mem_iff.mp member
    obtain ⟨type, same⟩ := before.held id member
    have control := kept id member
    simp only [Socket.control, Control.mk.injEq] at control
    exact ⟨control.1.trans type, control.2.1.trans same⟩

/-- One more reservation, in a slot that was free. -/
theorem of_reserve (before : Reserved s) (id : Int) (perm : (pending t).Perm (id :: pending s))
    (vacant : (s.server.slot (HASH_ID id)).type = .INVALID)
    (slot : (t.server.slot (HASH_ID id)).type = .RESERVE ∧ (t.server.slot (HASH_ID id)).id = id)
    (others : ∀ k, k ≠ HASH_ID id → t.server.slot k = s.server.slot k) : Reserved t := by
  have apart : ∀ other ∈ pending s, HASH_ID other ≠ HASH_ID id := by
    intro other member same
    have type := (before.held other member).1
    rw [same, vacant] at type
    cases type
  constructor
  · rw [(perm.map HASH_ID).nodup_iff, List.map_cons, List.nodup_cons]
    refine ⟨?_, before.distinct⟩
    intro member
    obtain ⟨other, pending, same⟩ := List.mem_map.mp member
    exact apart other pending same
  · intro other member
    rcases List.mem_cons.mp (perm.mem_iff.mp member) with rfl | earlier
    · exact slot
    · rw [others _ (apart other earlier)]
      exact before.held other earlier

/-- One reservation less. -/
theorem of_handled (before : Reserved s) {id : Int} (perm : (pending s).Perm (id :: pending t))
    (others : ∀ k, k ≠ HASH_ID id → t.server.slot k = s.server.slot k) : Reserved t := by
  have distinct := before.distinct
  rw [(perm.map HASH_ID).nodup_iff, List.map_cons, List.nodup_cons] at distinct
  refine ⟨distinct.2, ?_⟩
  intro other member
  have apart : HASH_ID other ≠ HASH_ID id := fun same => distinct.1 (same ▸ List.mem_map_of_mem member)
  rw [others _ apart]
  exact before.held other (perm.mem_iff.mpr (List.mem_cons_of_mem id member))

end Reserved

/-- A handler that works on a reserved slot keeps it. -/
theorem change_reserved {x y : Control} {b c : Int → Int} {type result : Int} {fault : Fault}
    (change : Change x b y c type result fault) (reserved : x.type = .RESERVE) : y = x := by
  cases change with
  | kept control => exact control
  | promoted next promotes => rcases promotes with ⟨type, -⟩ | ⟨type, -⟩ | ⟨type, -⟩ <;> rw [reserved] at type <;> cases type
  | closed live => exact absurd reserved live.2
  | dropped live => exact absurd reserved live.2
  | leaked waiting => rcases waiting with type | type <;> rw [reserved] at type <;> cases type

/-- A handler that works on one slot keeps every reserved one. -/
theorem effect_reserved {s : Server} {k : Index} {r : Reply} {fault : Fault}
    (others : ∀ j, j ≠ k → r.server.slot j = s.slot j) (effect : Effect k s r fault) {j : Index}
    (reserved : (s.slot j).type = .RESERVE) : (r.server.slot j).control = (s.slot j).control := by
  by_cases own : j = k
  · subst own
    exact change_reserved effect reserved
  · rw [others j own]

theorem reserved_request (call : Reserving) (id : Int) : reservation (call.request id) = some id := by
  cases call <;> rfl

section
variable {s t : Sys}

theorem reserved_call (before : Reserved s) (c : ApiCall) : Reserved (s.client s.clients (c.start s.server)) := by
  have started := c.started s.server
  refine before.of_perm ?_ ?_
  · unfold pending
    rw [tokens_client, started.idle, started.pipe]
    exact List.Perm.refl _
  · intro id _
    simp only [Sys.client, started.slot]

theorem reserved_advance {j : Nat} (before : Reserved s) (stepped : step s (.advance j) = .ok t) : Reserved t := by
  obtain ⟨c, member, rfl⟩ := step_advance stepped
  have advanced := c.advanced s.server
  generalize c.advance s.server = d at advanced
  obtain ⟨r, next⟩ := d
  cases advanced with
  | moved d alloc_id idle still =>
    exact before.of_perm (tokens_kept member (by rw [Option.bind_some, still, idle]) rfl) fun _ _ => rfl
  | gave_up idle =>
    exact before.of_perm (tokens_kept member (by rw [Option.bind_none, idle]) rfl) fun _ _ => rfl
  | reserved call i id is vacant =>
    subst is
    refine before.of_reserve id ?_ vacant (by simp [Sys.client]) ?_
    · unfold pending
      rw [tokens_client]
      have held : (some (Client.requesting (call.request id))).bind Client.reserved = some id := reserved_request call id
      rw [held]
      have earlier : (tokens Client.reserved reservation s).Perm _ := tokens_of_member member
      exact earlier.symm.cons id
    · intro k other
      simp [Sys.client, other]
  | requested request is =>
    subst is
    exact before.of_perm (tokens_handed member rfl) fun _ _ => rfl

theorem reserved_command {o : Outcome} (before : Reserved s) (stepped : step s (.command o) = .ok t) : Reserved t := by
  obtain ⟨request, pipe, r, -, waiting, handled, rfl⟩ := step_command stepped
  cases reserved : reservation request with
  | some id =>
    obtain ⟨frame, -⟩ := ctrl_cmd_reserved reserved handled
    have perm := tokens_command (f := Client.reserved) (g := reservation) (t := s.handled r true) waiting rfl frame.pipe
    rw [reserved] at perm
    exact before.of_handled perm frame.others
  | none =>
    obtain ⟨k, frame, effect⟩ := ctrl_cmd_unreserved reserved handled
    have perm := tokens_command (f := Client.reserved) (g := reservation) (t := s.handled r true) waiting rfl frame.pipe
    rw [reserved] at perm
    exact before.of_perm perm.symm fun id member => effect_reserved frame.others effect (before.held id member).1

/-- An accepted connection takes a free slot, which is none of the reserved ones. -/
theorem reserved_dispatch {o : Outcome} (before : Reserved s) (stepped : step s (.dispatch o) = .ok t) : Reserved t := by
  obtain ⟨r, sweep, -, handled, rfl⟩ := step_dispatch stepped
  obtain ⟨e, -, pipe, -, -, outcome⟩ := dispatch_ok handled
  have same : pending (s.handled r sweep) = pending s := by
    simp only [pending, tokens, Sys.handled, pipe]
  refine before.of_perm (List.Perm.of_eq same) ?_
  intro id member
  have held := (before.held id member).1
  rcases outcome with ⟨-, slots, -, -⟩ | ⟨k, -, served⟩
  · simp only [Sys.handled, slots]
  · generalize serveFault s.server k e o = fault at served
    cases served with
    | worked fault others effect => exact effect_reserved others effect held
    | accepted own listening vacant others =>
      have apart : HASH_ID id ≠ HASH_ID own := by
        intro equal
        rw [equal, vacant] at held
        cases held
      simp only [Sys.handled, others _ apart]

theorem reserved_other {a : Action} (before : Reserved s) (stepped : step s a = .ok t) (idle : Idle a) : Reserved t := by
  obtain ⟨slot, pipe, -, clients, -⟩ := step_other stepped idle
  refine before.of_perm (List.Perm.of_eq ?_) ?_
  · simp only [pending, tokens, pipe, clients]
  · intro id _
    rw [slot]

theorem reserved_step {a : Action} (before : Reserved s) (stepped : step s a = .ok t) : Reserved t := by
  cases a with
  | call c =>
    cases stepped
    exact reserved_call before c
  | advance j => exact reserved_advance before stepped
  | command o => exact reserved_command before stepped
  | dispatch o => exact reserved_dispatch before stepped
  | enter => exact reserved_other before stepped .enter
  | noCommand => exact reserved_other before stepped .noCommand
  | wait ready => exact reserved_other before stepped (.wait ready)
  | sweep => exact reserved_other before stepped .sweep

end

theorem reserved_initial (memory : Index → Socket) (alloc_id : Int) (result : Message) :
    Reserved (initial memory alloc_id result) := ⟨List.nodup_nil, by simp [pending, tokens, initial, initialize_server]⟩

/-- `reserved_step` along a run from an initialised server. -/
theorem reserved_run {memory : Index → Socket} {alloc_id : Int} {result : Message} {ms : List (Move Sys Action)} {t : Sys}
    (run : SysRun (initial memory alloc_id result) ms t) : (∀ m ∈ ms, Reserved m.pre ∧ Reserved m.post) ∧ Reserved t :=
  run.inductive_invariant (fun _ _ _ before stepped => reserved_step before stepped) (reserved_initial memory alloc_id result)

/-- The slot of the next request with a reserved id is reserved under it. -/
theorem Reserved.next {s : Sys} (reserved : Reserved s) {request : Request Int (List Byte)}
    {pipe : List (Request Int (List Byte))} {id : Int} (waiting : s.server.pipe = request :: pipe)
    (own : reservation request = some id) :
    (s.server.slot (HASH_ID id)).type = .RESERVE ∧ (s.server.slot (HASH_ID id)).id = id := by
  refine reserved.held id ?_
  unfold pending tokens
  rw [waiting]
  simp [own]

/-- A slot in use stays as it is, or the step is that of a handler that works on it. -/
theorem step_live {s t : Sys} {a : Action} (reserved : Reserved s) (stepped : step s a = .ok t) {k : Index}
    (live : Live (s.server.slot k).type) : (t.server.slot k).control = (s.server.slot k).control ∨
      ∃ r sweep, t = s.handled r sweep ∧ Effect k s.server r (s.fault a) := by
  cases a with
  | call c =>
    cases stepped
    exact .inl (by simp only [Sys.client, (c.started s.server).slot])
  | advance j =>
    obtain ⟨c, member, rfl⟩ := step_advance stepped
    have advanced := c.advanced s.server
    generalize c.advance s.server = d at advanced
    obtain ⟨r, next⟩ := d
    cases advanced with
    | reserved call i id is vacant =>
      have other : k ≠ HASH_ID id := fun own => live.1 (own ▸ vacant)
      exact .inl (by simp [Sys.client, other])
    | _ => exact .inl rfl
  | command o =>
    obtain ⟨request, pipe, r, -, waiting, handled, rfl⟩ := step_command stepped
    cases own : reservation request with
    | some id =>
      obtain ⟨frame, -⟩ := ctrl_cmd_reserved own handled
      have other : k ≠ HASH_ID id := fun same => live.2 (same ▸ (reserved.next waiting own).1)
      exact .inl (congrArg Socket.control (frame.others k other))
    | none =>
      obtain ⟨j, frame, effect⟩ := ctrl_cmd_unreserved own handled
      by_cases same : k = j
      · subst same
        refine .inr ⟨r, true, rfl, ?_⟩
        rw [fault_command waiting]
        rwa [commandFault_congr] at effect
      · exact .inl (congrArg Socket.control (frame.others k same))
  | dispatch o =>
    obtain ⟨r, sweep, -, handled, rfl⟩ := step_dispatch stepped
    obtain ⟨e, current, -, -, -, (⟨-, slots, -, -⟩ | ⟨j, slot, served⟩)⟩ := dispatch_ok handled
    · exact .inl (by simp only [Sys.handled, slots])
    · rw [fault_dispatch current slot]
      generalize serveFault s.server j e o = fault at served
      cases served with
      | worked fault others effect =>
        by_cases same : k = j
        · subst same
          exact .inr ⟨r, sweep, rfl, effect⟩
        · exact .inl (congrArg Socket.control (others k same))
      | accepted id listening vacant others =>
        have other : k ≠ HASH_ID id := fun own => live.1 (own ▸ vacant)
        exact .inl (congrArg Socket.control (others k other))
  | enter => exact .inl (by rw [(step_other stepped .enter).1])
  | noCommand => exact .inl (by rw [(step_other stepped .noCommand).1])
  | wait ready => exact .inl (by rw [(step_other stepped (.wait ready)).1])
  | sweep => exact .inl (by rw [(step_other stepped .sweep).1])

/-! ### The hand-off -/

/-- Under the invariant no step comes to the assertion of `new_socket`. -/
theorem step_new_socket {s : Sys} (reserved : Reserved s) (a : Action) :
    step s a ≠ .error (.assertion .new_socket) := by
  intro failed
  cases a with
  | call c => cases failed
  | command o =>
    simp only [step] at failed
    split at failed
    · rename_i request pipe _ _ waiting
      rcases bind_error failed with early | ⟨r, -, late⟩
      · obtain ⟨id, own, other⟩ := ctrl_cmd_new_socket early
        exact other (reserved.next waiting own).1
      · cases late
    · cases failed
  | dispatch o =>
    simp only [step] at failed
    split at failed
    · rcases bind_error failed with early | ⟨r, -, late⟩
      · exact dispatch_new_socket early
      · cases late
    · cases failed
  | _ =>
    simp only [step] at failed
    split at failed <;> cases failed

/-- In every run from an initialised server, with any number of clients, the ids
    reserved but not yet handled are distinct, a request that fills a slot, once it is
    the next in the pipe, finds the slot of its id reserved under that id, and the
    assertion in `new_socket` fails in no step. -/
theorem reservations_found {memory : Index → Socket} {alloc_id : Int} {result : Message} {ms : List (Move Sys Action)}
    {t : Sys} (run : SysRun (initial memory alloc_id result) ms t) :
    (pending t).Nodup ∧
      (∀ request pipe id, t.server.pipe = request :: pipe → reservation request = some id →
        (t.server.slot (HASH_ID id)).type = .RESERVE ∧ (t.server.slot (HASH_ID id)).id = id) ∧
      ∀ a, step t a ≠ .error (.assertion .new_socket) := by
  have reserved := (reserved_run run).2
  exact ⟨reserved.distinct.of_map HASH_ID, fun _ _ _ waiting own => reserved.next waiting own, step_new_socket reserved⟩

theorem reservations_found_binding : (final step zeroed binding).server.pipe = [.request_bind 1 5 0] ∧
    ((final step zeroed binding).server.slot (HASH_ID 1)).type = .RESERVE ∧
    ((final step zeroed binding).server.slot (HASH_ID 1)).id = 1 := by
  have run : SysRun zeroed _ _ := run_final step (by decide +kernel : (exec step zeroed binding).isOk = true)
  have pipe : (final step zeroed binding).server.pipe = [.request_bind 1 5 0] := by decide +kernel
  exact ⟨pipe, (reservations_found run).2.1 _ _ 1 pipe rfl⟩

end Canna.Poll
