import Canna.Lending

/-!
# The poll set

A slot is in the epoll set, under its own descriptor, exactly while its type is one
of those that wait for events (`registered_iff`): every step restores the table of the
slots and the epoll set, and tells what it lends (`Restored`).
-/
namespace Canna.Poll
open Canna.Sockets Canna.SocketServer Canna.ControlPipe Canna.Lts
open Canna.ControlPipe.Request

section
variable {s t : Sys} {a : Action}

/-- What a step does to the poll set. -/
structure Restored (s : Sys) (a : Action) (t : Sys) : Prop where
  grows : Grows s.server.kernel t.server.kernel
  loaned : ∀ fd, Lent t fd → Lent s fd ∨ binds a = some fd
  polled : Polled t.server.slot t.server.kernel.epoll

/-- The descriptors that were lent are those of tokens and slots that were there. -/
theorem loaned_of_slots (tokens_sub : ∀ fd ∈ tokens Client.lent lent t, fd ∈ tokens Client.lent lent s)
    (slots : ∀ k, (t.server.slot k).type = .BIND →
      (s.server.slot k).type = .BIND ∧ (t.server.slot k).fd = (s.server.slot k).fd) (fd : Int) (loaned : Lent t fd) :
    Lent s fd ∨ binds a = some fd := by
  rcases loaned with member | ⟨k, bound, rfl⟩
  · exact .inl (.inl (tokens_sub fd member))
  · obtain ⟨earlier, same⟩ := slots k bound
    exact .inl (.inr ⟨k, earlier, same.symm⟩)

theorem restored_other (before : Polled s.server.slot s.server.kernel.epoll)
    (stepped : step s a = .ok t) (idle : Idle a) : Restored s a t := by
  obtain ⟨slot, pipe, kernel, clients, -⟩ := step_other stepped idle
  constructor
  · exact (Obtained.of_same kernel).grows
  · refine loaned_of_slots ?_ ?_
    · intro fd member
      simpa only [tokens, pipe, clients] using member
    · intro k bound
      rw [slot] at bound ⊢
      exact ⟨bound, rfl⟩
  · rw [slot, kernel]
    exact before

/-- Only a call of `server_bind` begins with a descriptor that is lent. -/
theorem ApiCall.start_lent {s : Server} {c : ApiCall} {fd : Int} (lends : (c.start s).2.bind Client.lent = some fd) :
    ∃ opaqueVal, c = .server_bind opaqueVal fd := by
  cases c with
  | server_bind opaqueVal own =>
    cases lends
    exact ⟨opaqueVal, rfl⟩
  | server_listen opaqueVal sock listens =>
    simp only [ApiCall.start] at lends
    generalize do_listen s.kernel sock listens = listened at lends
    obtain ⟨ker, (_ | own)⟩ := listened <;> cases lends
  | server_connect opaqueVal addr port =>
    simp only [ApiCall.start] at lends
    generalize admission addr = taken at lends
    cases taken <;> cases lends
  | server_send id buffer =>
    simp only [ApiCall.start] at lends
    split at lends <;> cases lends
  | _ => cases lends

/-- The beginning of a call obtains the descriptor of a listening socket, if any. -/
theorem ApiCall.start_obtained (s : Server) (c : ApiCall) : Obtained s.kernel (c.start s).1.kernel := by
  cases c with
  | server_listen opaqueVal sock listens =>
    simp only [ApiCall.start, do_listen]
    cases acquired : s.kernel.acquire sock with
    | none => exact Obtained.refl _
    | some ker =>
      obtain ⟨obtained, own⟩ := Obtained.acquire acquired
      cases listens with
      | true => exact obtained
      | false => exact obtained.close own
  | server_connect opaqueVal addr port =>
    rw [ApiCall.start]
    generalize admission addr = taken
    cases taken <;> exact Obtained.refl _
  | server_send id buffer =>
    simp only [ApiCall.start]
    split <;> exact Obtained.refl _
  | _ => exact Obtained.refl _

theorem restored_call {c : ApiCall} (held : Held s) (foreign : Foreign s (.call c))
    (before : Polled s.server.slot s.server.kernel.epoll) : Restored s (.call c) (s.client s.clients (c.start s.server)) := by
  have started := c.started s.server
  have obtained := c.start_obtained s.server
  have slot : (s.client s.clients (c.start s.server)).server.slot = s.server.slot := started.slot
  constructor
  · exact obtained.grows
  · rintro fd (member | bound)
    · rw [show c.start s.server = ((c.start s.server).1, (c.start s.server).2) from rfl, tokens_client,
        started.pipe] at member
      rcases List.mem_append.mp member with new | old
      · have lends : (c.start s.server).2.bind Client.lent = some fd := by simpa using new
        obtain ⟨opaqueVal, rfl⟩ := ApiCall.start_lent lends
        exact .inr rfl
      · exact .inl (.inl old)
    · rw [slot] at bound
      exact .inl (.inr bound)
  · rw [slot]
    exact before.of_obtained obtained fun k live =>
      held.spared obtained (foreign.spared _ rfl) live

/-- A client keeps the descriptor it was given, hands it to the pipe, or gives up. -/
theorem Client.advance_lent (s : Server) (c d : Client) (next : (c.advance s).2 = some d) :
    d.lent = c.lent := by
  cases c with
  | drawing call i =>
    simp only [Client.advance] at next
    cases next
    split <;> rfl
  | masking call i =>
    cases next
    rfl
  | probing call i id =>
    simp only [Client.advance] at next
    split at next
    · cases next
      rfl
    · split at next <;> cases next
      rfl
  | swapping call i id =>
    simp only [Client.advance] at next
    split at next <;> cases next
    · cases call <;> rfl
    · rfl
  | requesting request => cases next

theorem advance_tokens {j : Nat} {c : Client} (member : s.clients[j]? = some c) (fd : Int)
    (lends : fd ∈ tokens Client.lent lent (s.client (s.clients.eraseIdx j) (c.advance s.server))) :
    fd ∈ tokens Client.lent lent s := by
  have before : (tokens Client.lent lent s).Perm _ := tokens_of_member member
  have next := c.advance_lent s.server
  have advanced := c.advanced s.server
  generalize c.advance s.server = d at advanced next lends
  obtain ⟨r, after⟩ := d
  cases advanced with
  | moved d alloc_id idle =>
    have same : (some d).bind Client.lent = c.lent := next d rfl
    exact (tokens_kept member same rfl).mem_iff.mp lends
  | gave_up idle ker closed =>
    rw [tokens_client] at lends
    exact before.mem_iff.mpr (List.mem_append_right _ lends)
  | reserved call i id is vacant =>
    have same : (some (Client.requesting (call.request id))).bind Client.lent = c.lent := next _ rfl
    exact (tokens_kept member same rfl).mem_iff.mp lends
  | requested request is =>
    subst is
    exact (tokens_handed member rfl).mem_iff.mp lends

theorem restored_advance {j : Nat} (held : Held s) (before : Polled s.server.slot s.server.kernel.epoll)
    (stepped : step s (.advance j) = .ok t) : Restored s (.advance j) t := by
  obtain ⟨c, member, rfl⟩ := step_advance stepped
  have lends := advance_tokens member
  have advanced := c.advanced s.server
  generalize c.advance s.server = d at advanced lends
  obtain ⟨r, next⟩ := d
  cases advanced with
  | moved d alloc_id =>
    exact ⟨(Obtained.refl _).grows, loaned_of_slots lends fun _ bound => ⟨bound, rfl⟩, before⟩
  | gave_up idle ker closed =>
    cases inHand : c.inHand with
    | none =>
      rw [inHand] at closed
      subst closed
      exact ⟨(Obtained.refl _).grows, loaned_of_slots lends fun _ bound => ⟨bound, rfl⟩, before⟩
    | some fd =>
      rw [inHand] at closed
      subst closed
      have out : 0 < (loose s).count fd := by
        have perm : (loose s).Perm _ := tokens_of_member member
        rw [inHand] at perm
        rw [perm.count_eq]
        simp
      have absent : s.server.kernel.epoll fd = none := before.absent fun k => held.unwatched_of_loose out
      refine ⟨.of_counts rfl (closed_le_close _ _), loaned_of_slots lends fun _ bound => ⟨bound, rfl⟩, ?_⟩
      show Polled s.server.slot (Function.update s.server.kernel.epoll fd none)
      rw [Function.update_eq_self_iff.mpr absent.symm]
      exact before
  | reserved call i id is vacant =>
    refine ⟨(Obtained.refl _).grows, loaned_of_slots lends ?_, ?_⟩
    · intro k bound
      by_cases same : k = HASH_ID id
      · subst same
        have bound : ((reserve s.server id).slot (HASH_ID id)).type = .BIND := bound
        unfold reserve at bound
        rw [Server.setSlot_self] at bound
        cases bound
      · exact ⟨by simpa [Sys.client, reserve, same] using bound, by simp [Sys.client, same]⟩
    · refine before.of_unwatched (k := HASH_ID id) ?_ ?_ ?_ ?_
      · intro k other
        simp [Sys.client, other]
      · rw [vacant]
        exact not_false
      · simp [Sys.client, Watched]
      · simp [Sys.client]
  | requested request is =>
    exact ⟨(Obtained.refl _).grows, loaned_of_slots lends fun _ bound => ⟨bound, rfl⟩, before⟩

/-- Handlers take requests from the pipe, and a slot that they leave bound holds a
    descriptor that was lent. -/
theorem loaned_handled {k : Index} {r : Reply} {sweep : Bool} (pipe : ∃ head, s.server.pipe = head ++ r.server.pipe)
    (others : ∀ j, j ≠ k → r.server.slot j = s.server.slot j)
    (slot : (r.server.slot k).type = .BIND → Lent s (r.server.slot k).fd) (fd : Int)
    (loaned : Lent (s.handled r sweep) fd) : Lent s fd ∨ binds a = some fd := by
  left
  rcases loaned with member | ⟨j, bound, rfl⟩
  · obtain ⟨head, split⟩ := pipe
    left
    rw [tokens, split, List.filterMap_append]
    rcases List.mem_append.mp member with client | carried
    · exact List.mem_append_left _ client
    · exact List.mem_append_right _ (List.mem_append_right _ carried)
  · have bound : (r.server.slot j).type = .BIND := bound
    show Lent s (r.server.slot j).fd
    by_cases same : j = k
    · subst same
      exact slot bound
    · rw [others j same] at bound ⊢
      exact .inr ⟨j, bound, rfl⟩

/-- A slot that waits for no events before and after, with the kernel as it was. -/
theorem restored_unwatched {k : Index} {r : Reply} {sweep : Bool} (before : Polled s.server.slot s.server.kernel.epoll)
    (others : ∀ j, j ≠ k → r.server.slot j = s.server.slot j) (unwatched : ¬ Watched (s.server.slot k).type)
    (idle : (r.server.slot k).type = .PLISTEN ∨ (r.server.slot k).type = .INVALID)
    (kernel : r.server.kernel = s.server.kernel) (loaned : ∀ fd, Lent (s.handled r sweep) fd →
      Lent s fd ∨ binds a = some fd) : Restored s a (s.handled r sweep) := by
  refine ⟨(Obtained.of_same kernel).grows, loaned, ?_⟩
  show Polled r.server.slot r.server.kernel.epoll
  rw [kernel]
  refine before.of_unwatched others unwatched ?_ ?_
  · rcases idle with type | type <;> rw [type] <;> exact not_false
  · rcases idle with type | type <;> rw [type] <;> exact nofun

/-- A request fills the slot reserved for it, or frees it. -/
theorem restored_installed {o : Outcome} {request : Request Int (List Byte)} {pipe : List (Request Int (List Byte))}
    {id : Int} {r : Reply} (reserved : Reserved s) (held : Held s) (before : Polled s.server.slot s.server.kernel.epoll)
    (waiting : s.server.pipe = request :: pipe) (own : reservation request = some id)
    (handled : ctrl_cmd { s.server with pipe := pipe } request s.result o = .ok r)
    (spared : ∀ fd, Lent s fd → r.server.kernel.opened fd = s.server.kernel.opened fd) :
    Restored s a (s.handled r true) := by
  obtain ⟨frame, -⟩ := ctrl_cmd_reserved own handled
  have others : ∀ j, j ≠ HASH_ID id → r.server.slot j = s.server.slot j := frame.others
  have taken : ∃ head, s.server.pipe = head ++ r.server.pipe := ⟨[request], by rw [frame.pipe]; exact waiting⟩
  have unwatched : ¬ Watched (s.server.slot (HASH_ID id)).type := by
    rw [(reserved.next waiting own).1]
    exact not_false
  have unbound : (r.server.slot (HASH_ID id)).type ≠ .BIND → ∀ fd, Lent (s.handled r true) fd →
      Lent s fd ∨ binds a = some fd :=
    fun other => loaned_handled taken others fun bound => absurd bound other
  cases (ctrl_cmd_installed own handled).1 with
  | listening fd opaqueVal is control kernel =>
    have type : (r.server.slot (HASH_ID id)).type = .PLISTEN := congrArg Control.type control
    exact restored_unwatched before others unwatched (.inl type) kernel (unbound (by rw [type]; decide))
  | bound fd opaqueVal is control registered =>
    have type : (r.server.slot (HASH_ID id)).type = .BIND := congrArg Control.type control
    have place : (r.server.slot (HASH_ID id)).fd = fd := congrArg Control.fd control
    have lends : Lent s fd := by
      left
      rw [tokens, waiting]
      simp [is, lent]
    refine ⟨(Obtained.refl _).grows_registered registered, loaned_handled taken others ?_, ?_⟩
    · intro bound
      rw [place]
      exact lends
    · have live : Watched (r.server.slot (HASH_ID id)).type := by
        rw [type]
        exact trivial
      exact before.of_registered others unwatched registered (held.lent fd lends).1 place live
  | connected type sock connects control ker obtained opened registered =>
    have typed : (r.server.slot (HASH_ID id)).type = type := congrArg Control.type control
    have place : (r.server.slot (HASH_ID id)).fd = sock := congrArg Control.fd control
    refine ⟨obtained.grows_registered registered, ?_, ?_⟩
    · apply unbound
      rw [typed]
      rcases connects with rfl | rfl <;> decide
    · have valid : 0 ≤ sock := by
        rcases obtained sock with ⟨same, -, -⟩ | ⟨-, valid, -, -⟩
        · rw [same] at opened
          exact absurd opened (Nat.lt_irrefl _)
        · exact valid
      have kept : ∀ fd, Lent s fd → ker.opened fd = s.server.kernel.opened fd := by
        intro fd lends
        rw [← spared fd lends, registered.opened]
      have handed := Polled.of_obtained before obtained fun k => held.spared obtained kept
      have live : Watched (r.server.slot (HASH_ID id)).type := by
        rw [typed]
        rcases connects with rfl | rfl <;> exact trivial
      exact handed.of_registered others unwatched registered valid place live
  | abandoned control kernel =>
    have type : (r.server.slot (HASH_ID id)).type = .INVALID := congrArg Control.type control
    exact restored_unwatched before others unwatched (.inr type) kernel (unbound (by rw [type]; decide))

/-- A handler on one slot in use. -/
theorem restored_turn {k : Index} {r : Reply} {sweep : Bool} {type : Int} {result : Message} (held : Held s)
    (before : Polled s.server.slot s.server.kernel.epoll) (pipe : ∃ head, s.server.pipe = head ++ r.server.pipe)
    (others : ∀ j, j ≠ k → r.server.slot j = s.server.slot j)
    (turn : Turn k (s.server.slot k) s.server.kernel (r.server.slot k) r.server.kernel type result) :
    Restored s a (s.handled r sweep) := by
  refine ⟨turn_grows turn, loaned_handled pipe others ?_, before.of_turn (held.own before) others turn⟩
  intro bound
  obtain ⟨earlier, same⟩ := turn_bind turn bound
  exact .inr ⟨k, earlier, same.symm⟩

/-- A start registers the slot that waited for it, under the descriptor the slot holds. -/
theorem restored_answered {id : Int} {opaqueVal : UInt64} {r : Reply} {sweep : Bool} (held : Held s)
    (before : Polled s.server.slot s.server.kernel.epoll) (pipe : ∃ head, s.server.pipe = head ++ r.server.pipe)
    (others : ∀ j, j ≠ HASH_ID id → r.server.slot j = s.server.slot j)
    (answered : Answers id opaqueVal s.server r) : Restored s a (s.handled r sweep) := by
  have loaned : _ → ∀ fd, Lent (s.handled r sweep) fd → Lent s fd ∨ binds a = some fd :=
    loaned_handled pipe others
  cases answered with
  | ignored slot kernel unopened =>
    have all : r.server.slot = s.server.slot := by
      funext j
      by_cases here : j = HASH_ID id
      · rw [here, slot]
      · exact others j here
    refine ⟨(Obtained.of_same kernel).grows, loaned ?_, ?_⟩
    · intro bound
      rw [slot] at bound ⊢
      exact .inr ⟨_, bound, rfl⟩
    · show Polled r.server.slot r.server.kernel.epoll
      rw [all, kernel]
      exact before
  | refused waiting control kernel unopened =>
    have free : (r.server.slot (HASH_ID id)).type = .INVALID := congrArg Control.type control
    refine restored_unwatched before others (unwatched_of_waiting waiting) (.inr free) kernel (loaned ?_)
    intro bound
    rw [free] at bound
    cases bound
  | started own waiting slot registered opens =>
    have live : Watched (r.server.slot (HASH_ID id)).type := by
      rw [slot]
      simp only
      split <;> exact trivial
    have owns : Owns (s.server.slot (HASH_ID id)).control (s.server.slot (HASH_ID id)).fd := by
      have waiting : (s.server.slot (HASH_ID id)).control.type = .PACCEPT ∨
          (s.server.slot (HASH_ID id)).control.type = .PLISTEN := waiting
      refine ⟨?_, ?_, ?_, rfl⟩ <;> rcases waiting with type | type <;> rw [type] <;> decide
    refine ⟨(Obtained.refl _).grows_registered registered, loaned ?_, ?_⟩
    · intro bound
      rw [slot] at bound
      simp only at bound
      split at bound <;> cases bound
    · have place : (r.server.slot (HASH_ID id)).fd = (s.server.slot (HASH_ID id)).fd := by rw [slot]
      exact before.of_registered others (unwatched_of_waiting waiting) registered
        (held.nonneg (Held.holders_of_owns owns)) place live
  | transferred own connected slot kernel opens =>
    have type : (r.server.slot (HASH_ID id)).type = (s.server.slot (HASH_ID id)).type := by rw [slot]
    have valid : (s.server.slot (HASH_ID id)).type ≠ .INVALID := by
      rw [connected]
      decide
    have place : (r.server.slot (HASH_ID id)).fd = (s.server.slot (HASH_ID id)).fd := by rw [slot]
    refine ⟨(Obtained.of_same kernel).grows, loaned ?_, ?_⟩
    · intro bound
      exact .inr ⟨_, type.symm.trans bound, place.symm⟩
    · show Polled r.server.slot r.server.kernel.epoll
      rw [kernel]
      refine before.of_tuned others (held.own before valid) (Tuned.refl _ _ _) place ?_ ?_
      · show Watched (r.server.slot (HASH_ID id)).type ↔ _
        rw [type]
      · intro reserved
        exact type.symm.trans reserved

theorem restored_command {o : Outcome} (reserved : Reserved s) (held : Held s) (foreign : Foreign s (.command o))
    (before : Polled s.server.slot s.server.kernel.epoll) (stepped : step s (.command o) = .ok t) : Restored s (.command o) t := by
  have spared := foreign.spared t stepped
  obtain ⟨request, pipe, r, -, waiting, handled, rfl⟩ := step_command stepped
  cases own : reservation request with
  | some id => exact restored_installed reserved held before waiting own handled spared
  | none =>
    by_cases start : ∃ id opaqueVal, request = request_start id opaqueVal
    · obtain ⟨id, opaqueVal, rfl⟩ := start
      cases handled
      obtain ⟨frame, -⟩ := start_socket_effect { s.server with pipe := pipe } id opaqueVal o
      have answered := (start_socket_answered { s.server with pipe := pipe } id opaqueVal o).1
      refine restored_answered held before ⟨[request_start id opaqueVal], ?_⟩ frame.others answered
      rw [frame.pipe]
      exact waiting
    · have other : ∀ id opaqueVal, request ≠ request_start id opaqueVal :=
        fun id opaqueVal same => start ⟨id, opaqueVal, same⟩
      obtain ⟨k, frame, -, turn⟩ := ctrl_cmd_turn own other handled
      refine restored_turn held before ⟨[request], ?_⟩ frame.others turn
      rw [frame.pipe]
      exact waiting

theorem restored_dispatch {o : Outcome} (held : Held s) (foreign : Foreign s (.dispatch o))
    (before : Polled s.server.slot s.server.kernel.epoll) (stepped : step s (.dispatch o) = .ok t) : Restored s (.dispatch o) t := by
  have spared := foreign.spared t stepped
  obtain ⟨r, sweep, -, handled, rfl⟩ := step_dispatch stepped
  obtain ⟨-, -, pipe, -, -, -⟩ := dispatch_ok handled
  have same : ∃ head, s.server.pipe = head ++ r.server.pipe := ⟨[], pipe.symm⟩
  -- no slot differs, and the kernel may have handed out descriptors
  have still : r.server.slot = s.server.slot → Obtained s.server.kernel r.server.kernel → Restored s (.dispatch o) (s.handled r sweep) := by
    intro slot obtained
    refine ⟨obtained.grows, loaned_handled (k := 0) same (fun j _ => congrFun slot j) ?_, ?_⟩
    · intro bound
      rw [slot] at bound ⊢
      exact .inr ⟨_, bound, rfl⟩
    · show Polled r.server.slot r.server.kernel.epoll
      rw [slot]
      exact before.of_obtained obtained fun k => held.spared obtained spared
  obtain ⟨e, -, (⟨-, slot, kernel, -⟩ | ⟨k, -, served⟩)⟩ := dispatch_handled handled
  · exact still slot (.of_same kernel)
  · cases served with
    | passed free slot kernel pass => exact still slot (.of_same kernel)
    | turned others turn => exact restored_turn held before same others turn
    | delivered others readable delivers => exact restored_turn held before same others delivers.kept
    | refused slot obtained pass => exact still slot obtained
    | accepted id listening vacant others control obtained =>
      have type : (r.server.slot (HASH_ID id)).type = .PACCEPT := congrArg Control.type control
      refine ⟨obtained.grows, loaned_handled same others ?_, ?_⟩
      · intro bound
        rw [type] at bound
        cases bound
      · have handed := before.of_obtained obtained fun k => held.spared obtained spared
        refine handed.of_unwatched others ?_ ?_ ?_
        · rw [vacant]
          exact not_false
        · show ¬ Watched (r.server.slot (HASH_ID id)).type
          rw [type]
          exact not_false
        · show (r.server.slot (HASH_ID id)).type = .RESERVE → _
          rw [type]
          exact nofun

theorem restored_step (reserved : Reserved s) (held : Held s) (foreign : Foreign s a)
    (before : Polled s.server.slot s.server.kernel.epoll) (stepped : step s a = .ok t) : Restored s a t := by
  cases a with
  | call c =>
    cases stepped
    exact restored_call held foreign before
  | advance j => exact restored_advance held before stepped
  | command o => exact restored_command reserved held foreign before stepped
  | dispatch o => exact restored_dispatch held foreign before stepped
  | enter => exact restored_other before stepped .enter
  | noCommand => exact restored_other before stepped .noCommand
  | wait ready => exact restored_other before stepped (.wait ready)
  | sweep => exact restored_other before stepped .sweep

/-- A step keeps what the epoll set rests on, and lends only what it binds. -/
theorem polled_step (kept : Reserved s ∧ Held s ∧ Polled s.server.slot s.server.kernel.epoll) (foreign : Foreign s a)
    (stepped : step s a = .ok t) :
    (Reserved t ∧ Held t ∧ Polled t.server.slot t.server.kernel.epoll) ∧
      ∀ fd, Lent t fd → Lent s fd ∨ binds a = some fd := by
  obtain ⟨reserved, held, polled⟩ := kept
  obtain ⟨grows, loaned, after⟩ := restored_step reserved held foreign polled stepped
  exact ⟨⟨reserved_step reserved stepped, held.of_step reserved foreign stepped grows loaned, after⟩, loaned⟩

end

/-! ### Runs -/

theorem holders_initial (memory : Index → Socket) (alloc_id : Int) (result : Message) (fd : Int) :
    holders (initial memory alloc_id result) fd = 0 := by
  have here := (accounted_iff_balance.mp (accounted_initial memory alloc_id result) fd).1
  change (0 : Int) = _ at here
  unfold holders
  omega

theorem held_initial (memory : Index → Socket) (alloc_id : Int) (result : Message) :
    Held (initial memory alloc_id result) := by
  constructor
  · intro fd
    rw [holders_initial]
    exact Int.le_refl _
  · intro fd
    exact (accounted_iff_balance.mp (accounted_initial memory alloc_id result) fd).2
  · intro fd negative
    rfl
  · rintro fd (member | ⟨k, bound, -⟩)
    · cases member
    · cases bound

theorem polled_initial (memory : Index → Socket) (alloc_id : Int) (result : Message) :
    Reserved (initial memory alloc_id result) ∧ Held (initial memory alloc_id result) ∧
      Polled (initial memory alloc_id result).server.slot (initial memory alloc_id result).server.kernel.epoll := by
  refine ⟨reserved_initial _ _ _, held_initial _ _ _, ?_⟩
  constructor
  · intro k reserved
    cases reserved
  · intro k live
    exact live.elim
  · intro fd e entry
    cases entry

section
variable {memory : Index → Socket} {alloc_id : Int} {result : Message} {ms : List (Move Sys Action)} {t : Sys}

/-- A run without calls of `server_bind` has no bound descriptors. -/
theorem foreign_run (run : SysRun (initial memory alloc_id result) ms t) (unbound : ∀ m ∈ ms, binds m.act = none) :
    ∀ m ∈ ms, Foreign m.pre m.act := by
  have foreign : ∀ {s a}, binds a = none → (∀ fd, ¬ Lent s fd) → Foreign s a := by
    intro s a unbound unlent
    refine ⟨?_, fun t _ fd lent => absurd lent (unlent fd)⟩
    rintro opaqueVal fd rfl
    cases unbound
  have unlent := (run.invariant (C := fun _ a => binds a = none)
    (I := fun s => (Reserved s ∧ Held s ∧ Polled s.server.slot s.server.kernel.epoll) ∧ ∀ fd, ¬ Lent s fd) ?_ ?_ unbound).1
  · intro m member
    exact foreign (unbound m member) (unlent m member).1.2
  · rintro s a t unbound ⟨kept, unlent⟩ stepped
    obtain ⟨after, loaned⟩ := polled_step kept (foreign unbound unlent) stepped
    refine ⟨after, fun fd lent => ?_⟩
    rcases loaned fd lent with earlier | now
    · exact unlent fd earlier
    · cases unbound.symm.trans now
  · refine ⟨polled_initial _ _ _, ?_⟩
    rintro fd (member | ⟨k, bound, -⟩)
    · cases member
    · cases bound

theorem polled_run (run : SysRun (initial memory alloc_id result) ms t) (foreign : ∀ m ∈ ms, Foreign m.pre m.act) :
    Polled t.server.slot t.server.kernel.epoll := by
  refine (run.invariant (I := fun s => Reserved s ∧ Held s ∧ Polled s.server.slot s.server.kernel.epoll) (C := Foreign)
    ?_ (polled_initial _ _ _) foreign).2.2.2
  exact fun s a t foreign kept stepped => (polled_step kept foreign stepped).1

end

end Canna.Poll
