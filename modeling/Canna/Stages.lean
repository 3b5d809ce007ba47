import Canna.Delivery

/-!
# The stages of an id

An id is not in use, given, or open, by the type of the slot that holds it. What a
handler returns says exactly what it does to these stages (`Tells`): a lemma for each
request and event. The exceptions are a connection that is accepted, which is told of by
its `ud`, and a read that fails, which nothing tells of (`Shown`).
-/
namespace Canna.Poll
open Canna.Sockets Canna.SocketServer Canna.ControlPipe Canna.Lts
open Canna.ControlPipe.Request

/-! ### Stages -/

/-- An id is not in use, or given but not open, or open. -/
inductive Stage
  | over
  | given
  | opened
  deriving DecidableEq

/-- What is seen of an id: it is reserved, or reported as that of an accepted connection;
    `poll` returns that it is open, or something of its connection, or its end; a read on
    its connection fails. -/
inductive Signal
  | given
  | opened
  | passed
  | ended
  | broken
  deriving DecidableEq

def Stage.next : Stage → Signal → Option Stage
  | .over, .given => some .given
  | .over, .ended => some .over
  | .given, .opened => some .opened
  | .given, .ended => some .over
  | .opened, .opened => some .opened
  | .opened, .passed => some .opened
  | .opened, .ended => some .over
  | .opened, .broken => some .over
  | _, _ => none

/-- What the value returned by `poll` says of the id in its result. -/
def reported (type : Int) : Option Signal :=
  if type = SOCKET_OPEN then some .opened
  else if type = SOCKET_DATA ∨ type = SOCKET_ACCEPT then some .passed
  else if type = SOCKET_CLOSE ∨ type = SOCKET_ERROR then some .ended
  else none

/-- The stage of the id that a slot of this type holds. -/
def type_stage : SocketType → Stage
  | .INVALID => .over
  | .RESERVE | .PLISTEN | .PACCEPT | .CONNECTING => .given
  | .LISTEN | .CONNECTED | .HALFCLOSE | .BIND => .opened

/-- The stage of an id, as the slots have it. -/
def id_stage (s : Server) (id : Int) : Stage :=
  if (s.slot (HASH_ID id)).id = id then type_stage (s.slot (HASH_ID id)).type else .over

/-- The stage of an id once a value of `poll` is returned. -/
def Stage.after (stage : Stage) (id type : Int) (result : Message) : Option Stage :=
  if result.id = id then (reported type).elim (some stage) stage.next else some stage

/-- A handler reports exactly what it does to the ids. -/
def Tells (s : Server) (r : Reply) : Prop :=
  ∀ id, (id_stage s id).after id r.type r.result = some (id_stage r.server id)

/-! ### Handlers -/

section
variable {s t : Server} {k : Index} {id : Int} {r : Reply} {result : Message} {o : Outcome} {opaqueVal : UInt64}

theorem stage_congr (slot : t.slot (HASH_ID id) = s.slot (HASH_ID id)) : id_stage t id = id_stage s id := by
  simp only [id_stage, slot]

/-- The stage of an id in a slot whose own id stays. -/
theorem stage_of (same : (t.slot (HASH_ID id)).id = (s.slot (HASH_ID id)).id)
    (stage : id = (s.slot (HASH_ID id)).id →
      type_stage (t.slot (HASH_ID id)).type = type_stage (s.slot (HASH_ID id)).type) :
    id_stage t id = id_stage s id := by
  simp only [id_stage, same]
  by_cases own : (s.slot (HASH_ID id)).id = id
  · rw [if_pos own, if_pos own, stage own.symm]
  · rw [if_neg own, if_neg own]

theorem stage_own (place : HASH_ID (s.slot k).id = k) :
    id_stage s (s.slot k).id = type_stage (s.slot k).type := by
  rw [id_stage, place, if_pos rfl]

theorem after_quiet {stage : Stage} {type : Int} (quiet : reported type = none) :
    stage.after id type result = some stage := by
  rw [Stage.after, quiet]
  split <;> rfl

theorem next_ended (stage : Stage) : stage.next .ended = some .over := by cases stage <;> rfl

/-- A handler that reports nothing and leaves the stages alone. -/
theorem Tells.quiet (others : ∀ j, j ≠ k → r.server.slot j = s.slot j) (same : (r.server.slot k).id = (s.slot k).id)
    (stage : type_stage (r.server.slot k).type = type_stage (s.slot k).type) (quiet : reported r.type = none) :
    Tells s r := by
  intro id
  rw [after_quiet quiet]
  by_cases here : HASH_ID id = k
  · subst here
    rw [stage_of same fun _ => stage]
  · rw [stage_congr (others _ here)]

theorem Tells.unchanged (slot : r.server.slot = s.slot) (quiet : reported r.type = none) : Tells s r :=
  .quiet (k := 0) (fun j _ => by rw [slot]) (by rw [slot]) (by rw [slot]) quiet

/-- A handler that reports what it does to the id of a slot. -/
theorem Tells.told (signal : Signal) (others : ∀ j, j ≠ k → r.server.slot j = s.slot j)
    (same : (r.server.slot k).id = (s.slot k).id) (place : HASH_ID (s.slot k).id = k) (id : r.result.id = (s.slot k).id)
    (told : reported r.type = some signal)
    (next : (type_stage (s.slot k).type).next signal = some (type_stage (r.server.slot k).type)) :
    Tells s r := by
  intro other
  rw [Stage.after, id]
  by_cases own : (s.slot k).id = other
  · subst own
    have after : id_stage r.server (s.slot k).id = type_stage (r.server.slot k).type := by
      rw [← same, stage_own (by rw [same]; exact place)]
    rw [if_pos rfl, told, after, stage_own place]
    exact next
  · rw [if_neg own]
    by_cases here : HASH_ID other = k
    · subst here
      rw [stage_of same fun equal => absurd equal.symm own]
    · rw [stage_congr (others _ here)]

/-- The end of an id that is over is reported. -/
theorem Tells.stale (slot : r.server.slot = s.slot) (told : reported r.type = some .ended)
    (gone : id_stage s r.result.id = .over) : Tells s r := by
  intro id
  rw [Stage.after, told, stage_congr (s := s) (congrFun slot _)]
  by_cases own : r.result.id = id
  · subst own
    rw [if_pos rfl, gone]
    rfl
  · rw [if_neg own]

/-- A handler that ends in `force_close` and reports that. -/
theorem Tells.closed (ker : Kernel) (valid : (s.slot k).type ≠ .INVALID) (place : HASH_ID (s.slot k).id = k)
    (closed : force_close (s.setKernel ker) k = .ok (t, result)) (server : r.server = t)
    (id : r.result.id = (s.slot k).id) (told : reported r.type = some .ended) : Tells s r := by
  obtain ⟨-, frame, control, -, -⟩ := force_close_live (s := s.setKernel ker) valid closed
  subst server
  have free : (r.server.slot k).type = .INVALID := congrArg Control.type control
  refine .told _ frame.others (congrArg Control.id control) place id told ?_
  rw [next_ended, free]
  rfl

theorem stage_stale (stale : (s.slot (HASH_ID id)).type = .INVALID ∨ (s.slot (HASH_ID id)).id ≠ id) :
    id_stage s id = .over := by
  rw [id_stage]
  rcases stale with free | other
  · rw [free]
    split <;> rfl
  · rw [if_neg other]

theorem start_socket_tells (s : Server) (id : Int) (opaqueVal : UInt64) (o : Outcome) :
    Tells s (start_socket s id opaqueVal o) := by
  simp only [start_socket]
  by_cases stale : (s.slot (HASH_ID id)).type = .INVALID ∨ (s.slot (HASH_ID id)).id ≠ id
  · rw [if_pos stale]
    exact .stale rfl rfl (stage_stale stale)
  rw [if_neg stale]
  have own : (s.slot (HASH_ID id)).id = id := not_not.mp (not_or.mp stale).2
  have place : HASH_ID (s.slot (HASH_ID id)).id = HASH_ID id := by rw [own]
  by_cases waiting : (s.slot (HASH_ID id)).type = .PACCEPT ∨ (s.slot (HASH_ID id)).type = .PLISTEN
  · have given : type_stage (s.slot (HASH_ID id)).type = .given := by
      rcases waiting with type | type <;> rw [type] <;> rfl
    rw [if_pos waiting]
    cases s.kernel.add (s.slot (HASH_ID id)).fd (HASH_ID id) o.admitted with
    | none =>
      refine .told .ended (k := HASH_ID id) (fun j => Server.setType_other s _) ?_ place own.symm rfl ?_
      · simp
      · rw [next_ended, Server.setType_self]
        rfl
    | some ker =>
      refine .told .opened (k := HASH_ID id) (fun j => Server.setSlot_other _ _) ?_ place own.symm rfl ?_
      · simp
      · rw [given]
        simp only [Server.setSlot_self]
        split <;> rfl
  rw [if_neg waiting]
  by_cases connected : (s.slot (HASH_ID id)).type = .CONNECTED
  · rw [if_pos connected]
    refine .told .opened (k := HASH_ID id) (fun j => Server.setSlot_other s _) ?_ place own.symm rfl ?_
    · simp
    · rw [Server.setSlot_self, connected]
      rfl
  · rw [if_neg connected]
    exact .unchanged rfl rfl

theorem send_buffer_tells {writes : List WriteResult} (valid : (s.slot k).type ≠ .INVALID)
    (place : HASH_ID (s.slot k).id = k) (handled : send_buffer s k result writes = .ok r) : Tells s r := by
  rw [send_buffer_valid valid] at handled
  by_cases uncomplete : list_uncomplete (s.slot k).low
  · rw [if_pos uncomplete] at handled
    cases handled
  rw [if_neg uncomplete] at handled
  by_cases empty : send_buffer_empty (s.slot k)
  · by_cases half : (s.slot k).type = .HALFCLOSE
    · simp only [empty, Server.setKernel_slot, half, if_true] at handled
      obtain ⟨⟨t, message⟩, closed, ended⟩ := map_ok handled
      cases ended
      exact .closed _ valid place closed rfl (congrArg Message.id (force_close_ok closed).2.1) rfl
    · simp only [empty, Server.setKernel_slot, half, if_true, if_false] at handled
      cases handled
      exact .unchanged rfl rfl
  · rw [if_neg empty] at handled
    cases handled
    exact .unchanged rfl rfl

theorem close_socket_tells (handled : close_socket s id opaqueVal result o = .ok r) : Tells s r := by
  simp only [close_socket] at handled
  by_cases stale : (s.slot (HASH_ID id)).type = .INVALID ∨ (s.slot (HASH_ID id)).id ≠ id
  · rw [if_pos stale] at handled
    cases handled
    exact .stale rfl rfl (stage_stale stale)
  rw [if_neg stale] at handled
  obtain ⟨valid, same⟩ := not_or.mp stale
  have own : (s.slot (HASH_ID id)).id = id := not_not.mp same
  have place : HASH_ID (s.slot (HASH_ID id)).id = HASH_ID id := by rw [own]
  by_cases empty : send_buffer_empty (s.slot (HASH_ID id)) = true
  · simp only [close_sent, empty, if_true] at handled
    obtain ⟨⟨t, message⟩, closed, ended⟩ := bind_ok handled
    cases ended
    exact .closed s.kernel valid place closed rfl own.symm rfl
  · rw [if_neg empty] at handled
    obtain ⟨middle, sent, ended⟩ := bind_ok handled
    obtain ⟨-, -, quiet⟩ := send_buffer_effect valid sent
    rw [if_pos (quiet (Bool.not_eq_true _ ▸ empty))] at ended
    cases ended
    exact send_buffer_tells valid place sent

theorem send_socket_tells {sz : Int} {buffer : List Byte} (handled : send_socket s id sz buffer result o = .ok r) :
    Tells s r := by
  simp only [send_socket] at handled
  by_cases deaf : (s.slot (HASH_ID id)).type = .INVALID ∨ (s.slot (HASH_ID id)).id ≠ id ∨
      (s.slot (HASH_ID id)).type = .HALFCLOSE ∨ (s.slot (HASH_ID id)).type = .PACCEPT
  · rw [if_pos deaf] at handled
    cases handled
    exact .unchanged rfl rfl
  rw [if_neg deaf] at handled
  obtain ⟨valid, same, -⟩ := not_or.mp deaf |>.imp_right not_or.mp
  have place : HASH_ID (s.slot (HASH_ID id)).id = HASH_ID id := by rw [not_not.mp same]
  split at handled
  · cases handled
  split at handled
  · split at handled
    · obtain ⟨⟨t, message⟩, closed, ended⟩ := bind_ok handled
      cases ended
      exact .closed s.kernel valid place closed rfl (congrArg Message.id (force_close_ok closed).2.1) rfl
    · split at handled <;> cases handled <;> exact .unchanged rfl rfl
    · split at handled <;> cases handled <;> exact .unchanged rfl rfl
  · cases handled
    exact .unchanged rfl rfl

theorem setopt_socket_tells (id what value : Int) : Tells s ⟨setopt_socket s id what value, result, -1⟩ := by
  rw [setopt_socket]
  split <;> exact .unchanged rfl rfl

/-- A slot reserved for an id is filled or given up. -/
theorem Tells.filled {type : SocketType} {fd : Int} (reserved : (s.slot (HASH_ID id)).type = .RESERVE)
    (own : (s.slot (HASH_ID id)).id = id) (frame : Frame (HASH_ID id) s r.server)
    (control : (r.server.slot (HASH_ID id)).control = ⟨type, id, fd⟩) (told : r.result.id = id)
    (next : (reported r.type).elim (some .given) Stage.given.next = some (type_stage type)) : Tells s r := by
  have same : (r.server.slot (HASH_ID id)).id = (s.slot (HASH_ID id)).id := (congrArg Control.id control).trans own.symm
  have place : HASH_ID (s.slot (HASH_ID id)).id = HASH_ID id := by rw [own]
  have filled : (r.server.slot (HASH_ID id)).type = type := congrArg Control.type control
  have given : type_stage (s.slot (HASH_ID id)).type = .given := by rw [reserved]; rfl
  cases spoken : reported r.type with
  | none =>
    refine .quiet frame.others same ?_ spoken
    rw [spoken] at next
    rw [filled, given]
    exact (Option.some.inj next).symm
  | some signal =>
    rw [spoken] at next
    refine .told _ frame.others same place (told.trans own.symm) spoken ?_
    rw [filled, given]
    exact next

theorem listen_socket_tells {fd : Int} (own : (s.slot (HASH_ID id)).id = id)
    (handled : listen_socket s id fd opaqueVal result = .ok r) : Tells s r := by
  obtain ⟨reserved, frame, -, control⟩ := listen_socket_ok handled
  have pass := (listen_socket_installed handled).2
  have type : (r.server.slot (HASH_ID id)).type = .PLISTEN := congrArg Control.type control
  refine .quiet frame.others ((congrArg Control.id control).trans own.symm) ?_ (by rw [pass]; rfl)
  rw [type, reserved]
  rfl

theorem bind_socket_tells {fd : Int} (own : (s.slot (HASH_ID id)).id = id)
    (handled : bind_socket s id fd opaqueVal o = .ok r) : Tells s r := by
  obtain ⟨reserved, frame, -, -⟩ := bind_socket_ok handled
  obtain ⟨⟨t, ns⟩, made, ended⟩ := bind_ok handled
  obtain ⟨-, -, -, (⟨rfl, -, control⟩ | ⟨rfl, control⟩)⟩ := new_socket_ok made
  · cases ended
    rw [own] at control
    exact .filled reserved own frame control rfl rfl
  · cases ended
    exact .filled reserved own frame (control_setType control _) rfl rfl

theorem open_socket_tells (reserved : (s.slot (HASH_ID id)).type = .RESERVE) (own : (s.slot (HASH_ID id)).id = id)
    (handled : open_socket s id opaqueVal o = .ok r) : Tells s r := by
  have frame := (open_socket_ok handled).1
  have abandoned : r = ⟨s.setType (HASH_ID id) .INVALID,⟨id,opaqueVal,0,.nullptr⟩,SOCKET_ERROR⟩ → Tells s r := by
    rintro rfl
    have control : ((s.setType (HASH_ID id) .INVALID).slot (HASH_ID id)).control =
        ⟨.INVALID,id,(s.slot (HASH_ID id)).fd⟩ := by
      rw [Server.setType_self, Socket.control, own]
    exact .filled reserved own frame control rfl rfl
  simp only [open_socket] at handled
  split at handled
  · cases handled
    exact abandoned rfl
  · cases handled
    exact abandoned rfl
  · obtain ⟨⟨ker, a⟩, -, handled⟩ := bind_ok handled
    obtain ⟨⟨t, ns⟩, made, ended⟩ := bind_ok handled
    obtain ⟨-, -, -, (⟨rfl, -, -⟩ | ⟨rfl, control⟩)⟩ := new_socket_ok made
    · cases ended
    · simp only at ended
      by_cases succeeded : a.connect = .succeeded
      · rw [if_pos succeeded] at ended
        cases ended
        exact .filled reserved own frame (control_setType control _) rfl rfl
      · rw [if_neg succeeded] at ended
        cases ended
        exact .filled reserved own frame (control_setType control _) rfl rfl

/-- A request with a reserved id finds the slot reserved under it. -/
theorem ctrl_cmd_tells {request : Request Int (List Byte)} (held : ∀ id, reservation request = some id →
      (s.slot (HASH_ID id)).type = .RESERVE ∧ (s.slot (HASH_ID id)).id = id)
    (handled : ctrl_cmd s request result o = .ok r) : Tells s r := by
  cases request with
  | request_start id opaqueVal =>
    cases handled
    exact start_socket_tells s id opaqueVal o
  | request_bind id fd opaqueVal => exact bind_socket_tells (held id rfl).2 handled
  | request_listen id fd opaqueVal => exact listen_socket_tells (held id rfl).2 handled
  | request_close id opaqueVal => exact close_socket_tells handled
  | request_open id port opaqueVal host => exact open_socket_tells (held id rfl).1 (held id rfl).2 handled
  | request_exit =>
    cases handled
    exact .unchanged rfl rfl
  | request_send id sz buffer => exact send_socket_tells handled
  | request_setopt id what value =>
    cases handled
    exact setopt_socket_tells id what value

theorem report_connect_tells (connecting : (s.slot k).type = .CONNECTING) (place : HASH_ID (s.slot k).id = k)
    (handled : report_connect s k o = .ok r) : Tells s r := by
  have valid : (s.slot k).type ≠ .INVALID := by
    rw [connecting]
    decide
  simp only [report_connect] at handled
  by_cases failed : o.error = true
  · rw [if_pos failed] at handled
    obtain ⟨⟨t, message⟩, closed, ended⟩ := bind_ok handled
    cases ended
    exact .closed s.kernel valid place closed rfl (congrArg Message.id (force_close_ok closed).2.1) rfl
  · rw [if_neg failed] at handled
    cases handled
    have told : ∀ n result, n.slot = (s.setType k .CONNECTED).slot → result.id = (s.slot k).id →
        Tells s ⟨n,result,SOCKET_OPEN⟩ := by
      intro n result slot id
      refine .told (k := k) .opened ?_ ?_ place id rfl ?_
      · intro j other
        simp only [slot, Server.setType_other _ _ other]
      · simp only [slot, Server.setType_self]
      · simp only [slot, Server.setType_self, connecting]
        rfl
    exact told _ _ (by split <;> rfl) (by simp)

/-- What serving an event shows: its report, or an accepted connection, or, unreported,
    the end of a connection whose read fails. -/
inductive Shown (s : Server) (k : Index) (e : Event) (o : Outcome) (r : Reply) (sweep : Bool) : Prop
  | told (tells : Tells s r) (sound : serveFault s k e o ≠ .silent) (direct : r.type = SOCKET_ACCEPT → sweep = true) :
      Shown s k e o r sweep
  | accepted (id : Int) (vacant : (s.slot (HASH_ID id)).type = .INVALID)
      (others : ∀ j, j ≠ HASH_ID id → r.server.slot j = s.slot j)
      (control : (r.server.slot (HASH_ID id)).control = ⟨.PACCEPT, id, o.accepted⟩) (accepts : r.type = SOCKET_ACCEPT)
      (listening : id_stage s r.result.id = .opened) (ud : r.result.ud = id) (direct : sweep = false)
      (sound : serveFault s k e o ≠ .silent) : Shown s k e o r sweep
  | ended (silent : serveFault s k e o = .silent) (others : ∀ j, j ≠ k → r.server.slot j = s.slot j)
      (control : (r.server.slot k).control = { (s.slot k).control with type := .INVALID })
      (opened : type_stage (s.slot k).type = .opened) (pass : r.type = -1) : Shown s k e o r sweep

end

/-! ### Events -/

section
variable {s : Server} {k : Index} {e : Event} {result : Message} {o : Outcome} {r : Reply} {sweep : Bool}

theorem sound_of (unlike : ¬ Forwards s k e) : serveFault s k e o ≠ .silent := by
  rw [serveFault, if_neg fun both => unlike both.1]
  decide

theorem opened_of_watched (other : (s.slot k).type ≠ .CONNECTING) (watched : Watched (s.slot k).type) :
    type_stage (s.slot k).type = .opened := by
  cases type : (s.slot k).type <;> rw [type] at other watched <;> first | rfl | exact watched.elim | exact absurd rfl other

/-- A read takes something from an open connection, or ends it, or does nothing. -/
theorem forward_message_tcp_shown (valid : (s.slot k).type ≠ .INVALID) (place : HASH_ID (s.slot k).id = k)
    (opened : type_stage (s.slot k).type = .opened) (handled : forward_message_tcp s k result o = .ok r) :
    (Tells s r ∧ o.read ≠ .failed) ∨ (o.read = .failed ∧ (∀ j, j ≠ k → r.server.slot j = s.slot j) ∧
      (r.server.slot k).control = { (s.slot k).control with type := .INVALID } ∧ r.type = -1) := by
  simp only [forward_message_tcp] at handled
  cases outcome : o.read with
  | EINTR =>
    simp only [outcome] at handled
    cases handled
    exact .inl ⟨.unchanged rfl rfl, by simp⟩
  | EAGAIN =>
    simp only [outcome] at handled
    cases handled
    exact .inl ⟨.unchanged rfl rfl, by simp⟩
  | failed =>
    simp only [outcome] at handled
    obtain ⟨⟨t, message⟩, closed, ended⟩ := bind_ok handled
    cases ended
    obtain ⟨-, frame, control, -, -⟩ := force_close_live valid closed
    exact .inr ⟨rfl, frame.others, control, rfl⟩
  | received bytes =>
    refine .inl ⟨?_, by simp⟩
    simp only [outcome] at handled
    by_cases nothing : (delivered (s.slot k) bytes).length = 0
    · rw [if_pos nothing] at handled
      cases handled
      exact .unchanged rfl rfl
    rw [if_neg nothing] at handled
    by_cases half : (s.slot k).type = .HALFCLOSE
    · rw [if_pos half] at handled
      cases handled
      exact .unchanged rfl rfl
    · rw [if_neg half] at handled
      cases handled
      refine .told (k := k) .passed (fun j => Server.setSlot_other s _) ?_ place rfl rfl ?_
      · simp
      · simp only [Server.setSlot_self, opened]
        rfl

theorem Tells.of_slot {n : Server} (tells : Tells s r) (slot : n.slot = r.server.slot) : Tells s { r with server := n } := by
  intro id
  rw [tells id, stage_congr (congrFun slot _)]

theorem ready_shown (other : (s.slot k).type ≠ .CONNECTING ∧ (s.slot k).type ≠ .LISTEN)
    (valid : (s.slot k).type ≠ .INVALID) (place : HASH_ID (s.slot k).id = k)
    (watched : e.read = true → Watched (s.slot k).type) (handled : ready s k e result o = .ok r) :
    Shown s k e o r true := by
  rcases ready_cases handled with ⟨readable, m, read, rfl⟩ | ⟨quiet, sent⟩ | ⟨quiet, rfl⟩
  · unfold read_half at read
    by_cases tcp : (s.slot k).protocol = PROTOCOL_TCP
    · have forwards : Forwards s k e := ⟨other.1, other.2, valid, readable, tcp⟩
      have opened := opened_of_watched other.1 (watched readable)
      rw [if_pos tcp] at read
      rcases forward_message_tcp_shown valid place opened read with ⟨tells, fine⟩ | ⟨failed, others, control, pass⟩
      · have sound : serveFault s k e o ≠ .silent := by
          rw [serveFault, if_neg fun both => fine both.2]
          decide
        split
        · exact .told (tells.of_slot rfl) sound fun _ => rfl
        · exact .told tells sound fun _ => rfl
      · have silent : serveFault s k e o = .silent := if_pos ⟨forwards, failed⟩
        split
        · exact .ended silent others control opened pass
        · exact .ended silent others control opened pass
    · rw [if_neg tcp] at read
      cases read
      have sound : serveFault s k e o ≠ .silent := sound_of fun forwards => tcp forwards.2.2.2.2
      split
      · exact .told (.unchanged rfl rfl) sound fun _ => rfl
      · exact .told (.unchanged rfl rfl) sound fun _ => rfl
  · exact .told (send_buffer_tells valid place sent) (sound_of fun forwards => quiet forwards.2.2.2.1) fun _ => rfl
  · exact .told (.unchanged rfl rfl) (sound_of fun forwards => quiet forwards.2.2.2.1) fun _ => rfl

theorem report_accept_shown (listening : (s.slot k).type = .LISTEN) (place : HASH_ID (s.slot k).id = k)
    (handled : report_accept s k result o = .ok r) : Shown s k e o r false := by
  have sound : serveFault s k e o ≠ .silent := sound_of fun forwards => forwards.2.1 listening
  cases report_accept_handled (e := e) listening handled with
  | passed free => rw [listening] at free; cases free
  | refused slot obtained pass =>
    have other : r.type ≠ SOCKET_ACCEPT := by rw [pass]; decide
    exact .told (.unchanged slot (by rw [pass]; rfl)) sound fun accepts => absurd accepts other
  | turned others turn =>
    obtain ⟨-, (⟨slot, -, pass, -⟩ | ⟨id, -, -, -, -, -, -, -, accepts⟩)⟩ := report_accept_ok handled
    · have other : r.type ≠ SOCKET_ACCEPT := by rw [pass]; decide
      exact .told (.unchanged slot (by rw [pass]; rfl)) sound fun accepts => absurd accepts other
    · exact absurd accepts turn.quiet.1
  | delivered others readable delivers sweeps => cases sweeps
  | accepted id listening vacant others control obtained own accepts told ud direct =>
    refine .accepted id vacant others control accepts ?_ ud rfl sound
    rw [told.1, stage_own place, listening]
    rfl

theorem serve_shown (place : (s.slot k).type ≠ .INVALID → HASH_ID (s.slot k).id = k)
    (watched : e.read = true → Watched (s.slot k).type) (handled : serve s k e result o = .ok (r, sweep)) :
    Shown s k e o r sweep := by
  rcases serve_cases handled with ⟨type, reported, rfl⟩ | ⟨type, reported, rfl⟩ | ⟨type, rfl, rfl⟩ |
    ⟨other, valid, served, rfl⟩
  · have there := place (by rw [type]; decide)
    refine .told (report_connect_tells type there reported) (sound_of fun forwards => forwards.1 type) ?_
    intro accepts
    exact absurd accepts (report_connect_turn type reported).quiet.1
  · exact report_accept_shown type (place (by rw [type]; decide)) reported
  · have other : (-1 : Int) ≠ SOCKET_ACCEPT := by decide
    exact .told (.unchanged rfl rfl) (sound_of fun forwards => forwards.2.2.1 type) fun accepts => absurd accepts other
  · exact ready_shown other valid (place valid) watched served

end

end Canna.Poll
