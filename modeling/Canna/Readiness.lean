import Canna.Retention
import Canna.Reservation

/-!
# Serving the events of a batch

The loop of `poll` steps through a batch, from one `wait` to the next. An event is
dispatched once, or twice when both its halves are to be served: then it is put back
and its read half is done (`PutsBack`). What becomes of an event is followed through
the moves that dispatch it (`Progress`): before them the event waits as it was
stored, but for a sweep that clears it, between them it has only its write half, and
after them it is passed. So the halves of an event of a connection that stays open
are served exactly once (`served_once`).
-/
namespace Canna.Poll
open Canna.Sockets Canna.SocketServer Canna.ControlPipe Canna.Lts
open Canna.ControlPipe.Request

/-- A slot whose events `poll` reads and writes for. -/
def Halves (type : SocketType) : Prop := type ≠ .CONNECTING ∧ type ≠ .LISTEN ∧ type ≠ .INVALID

instance (type : SocketType) : Decidable (Halves type) := inferInstanceAs (Decidable (_ ∧ _ ∧ _))

/-- The event is put back for its write half. -/
def PutsBack (s : Server) (e : Event) : Prop :=
  e.read = true ∧ e.write = true ∧ ∃ k, e.s = some k ∧ Halves (s.slot k).type

/-! ### The batch -/

/-- The batch after an event was dispatched. -/
structure Stepped (s : Server) (e : Event) (t : Server) : Prop where
  again : PutsBack s e → t.ev = s.ev.set s.event_index { e with read := false } ∧ t.event_index = s.event_index
  done : ¬ PutsBack s e → t.ev = s.ev ∧ t.event_index = s.event_index + 1

section
variable {s : Server} {k : Index} {e : Event} {result : Message} {o : Outcome} {r : Reply} {sweep : Bool}

theorem Stepped.past {t : Server} (single : ¬ PutsBack s e) (ev : t.ev = s.ev)
    (event_index : t.event_index = s.event_index + 1) : Stepped s e t :=
  ⟨fun both => absurd both single, fun _ => ⟨ev, event_index⟩⟩

theorem ready_stepped (halves : Halves (s.slot k).type) (slot : e.s = some k)
    (handled : ready { s with event_index := s.event_index + 1 } k e result o = .ok r) : Stepped s e r.server := by
  have single : ¬ e.read = true → ¬ PutsBack s e := fun quiet both => quiet both.1
  rcases ready_cases handled with ⟨readable, m, read, rfl⟩ | ⟨quiet, sent⟩ | ⟨quiet, rfl⟩
  · obtain ⟨frame, -⟩ := read_half_ok (s := { s with event_index := s.event_index + 1 }) ⟨halves.1, halves.2.1⟩
      halves.2.2 readable read
    by_cases writable : e.write = true
    · rw [if_pos writable]
      refine ⟨fun _ => ?_, fun one => absurd ⟨readable, writable, k, slot, halves⟩ one⟩
      simp only [put_back, frame.ev, frame.event_index, Nat.add_sub_cancel, and_self]
    · rw [if_neg writable]
      exact .past (fun both => writable both.2.1) frame.ev frame.event_index
  · obtain ⟨frame, -⟩ := send_buffer_effect (s := { s with event_index := s.event_index + 1 }) halves.2.2 sent
    exact .past (single quiet) frame.ev frame.event_index
  · exact .past (single quiet) rfl rfl

theorem serve_stepped (slot : e.s = some k)
    (handled : serve { s with event_index := s.event_index + 1 } k e result o = .ok (r, sweep)) :
    Stepped s e r.server := by
  have single : ¬ Halves (s.slot k).type → ¬ PutsBack s e := by
    rintro other ⟨-, -, j, same, halves⟩
    rw [slot] at same
    cases same
    exact other halves
  rcases serve_cases handled with ⟨type, reported, -⟩ | ⟨type, reported, -⟩ | ⟨type, rfl, -⟩ | ⟨other, valid, served, -⟩
  · obtain ⟨frame, -⟩ := report_connect_effect (s := { s with event_index := s.event_index + 1 }) type reported
    exact .past (single fun halves => halves.1 type) frame.ev frame.event_index
  · obtain ⟨⟨-, ev, event_index, -⟩, -⟩ := report_accept_ok reported
    exact .past (single fun halves => halves.2.1 type) ev event_index
  · exact .past (single fun halves => halves.2.2 type) rfl rfl
  · exact ready_stepped ⟨other.1, other.2, valid⟩ slot served

theorem dispatch_stepped (handled : dispatch s result o = .ok (r, sweep)) :
    ∃ e, s.ev[s.event_index]? = some e ∧ Stepped s e r.server := by
  obtain ⟨e, current, ⟨slot, rfl, -⟩ | ⟨k, slot, handled⟩⟩ := dispatch_cases handled
  · refine ⟨e, current, .past ?_ rfl rfl⟩
    rintro ⟨-, -, k, some, -⟩
    rw [slot] at some
    cases some
  · exact ⟨e, current, serve_stepped slot handled⟩

end

/-- An event as it is after a sweep that may have cleared it. -/
inductive Shade (cleared : Prop) (e : Event) : Event → Prop
  | same : Shade cleared e e
  | swept (may : cleared) : Shade cleared e { e with s := none }

/-- The sweep clears events of free slots. -/
theorem swept_event {s : Server} {message : Message} {type : Int} {i : Nat} {e x : Event} {cleared : Prop}
    (shade : Shade cleared e x) (member : s.ev[i]? = some x)
    (free : ∀ k, e.s = some k → (s.slot k).type = .INVALID → cleared) :
    ∃ y, (clear_closed_event s message type).ev[i]? = some y ∧ Shade cleared e y := by
  unfold clear_closed_event
  by_cases closing : type = SOCKET_CLOSE ∨ type = SOCKET_ERROR
  · rw [if_pos closing]
    simp only
    by_cases passed : i < s.event_index
    · refine ⟨x, ?_, shade⟩
      have inside := (List.getElem?_eq_some_iff.mp member).1
      rw [List.getElem?_append_left (by simp only [List.length_take]; omega), List.getElem?_take_of_lt passed, member]
    · refine ⟨if closed_event s message.id x then { x with s := none } else x, ?_, ?_⟩
      · have inside := (List.getElem?_eq_some_iff.mp member).1
        rw [List.getElem?_append_right (by simp only [List.length_take]; omega), List.getElem?_map, List.getElem?_drop]
        have place : s.event_index + (i - (s.ev.take s.event_index).length) = i := by
          simp only [List.length_take]
          omega
        rw [place, member]
        rfl
      · cases shade with
        | same =>
          by_cases closed : closed_event s message.id e = true
          · rw [if_pos closed]
            refine .swept ?_
            cases slot : e.s with
            | none => simp [closed_event, slot] at closed
            | some k =>
              simp [closed_event, slot] at closed
              exact free k slot closed.1
          · rw [if_neg closed]
            exact .same
        | swept may =>
          split
          · exact .swept may
          · exact .swept may
  · rw [if_neg closing]
    exact ⟨x, member, shade⟩

/-- Any other step leaves the batch alone. -/
theorem step_ev {s t : Sys} {a : Action} (stepped : step s a = .ok t) (unwaited : ∀ ready, a ≠ .wait ready)
    (undispatched : ∀ o, a ≠ .dispatch o) (unswept : a ≠ .sweep) :
    t.server.ev = s.server.ev ∧ t.server.event_index = s.server.event_index := by
  cases a with
  | call c =>
    cases stepped
    exact ⟨(c.started s.server).ev, (c.started s.server).event_index⟩
  | advance j =>
    obtain ⟨c, -, rfl⟩ := step_advance stepped
    have advanced := c.advanced s.server
    generalize c.advance s.server = d at advanced
    obtain ⟨r, next⟩ := d
    cases advanced <;> exact ⟨rfl, rfl⟩
  | command o =>
    obtain ⟨request, pipe, r, -, -, handled, rfl⟩ := step_command stepped
    cases own : reservation request with
    | some id =>
      obtain ⟨frame, -⟩ := ctrl_cmd_reserved own handled
      exact ⟨frame.ev, frame.event_index⟩
    | none =>
      obtain ⟨k, frame, -⟩ := ctrl_cmd_unreserved own handled
      exact ⟨frame.ev, frame.event_index⟩
  | enter =>
    simp only [step] at stepped
    split at stepped <;> cases stepped
    exact ⟨rfl, rfl⟩
  | noCommand =>
    simp only [step] at stepped
    split at stepped <;> cases stepped
    exact ⟨rfl, rfl⟩
  | wait ready => exact absurd rfl (unwaited ready)
  | dispatch o => exact absurd rfl (undispatched o)
  | sweep => exact absurd rfl unswept

theorem step_sweep {s t : Sys} (stepped : step s .sweep = .ok t) : ∃ type,
    t.server = clear_closed_event s.server s.result type := by
  simp only [step] at stepped
  split at stepped <;> cases stepped
  exact ⟨_, rfl⟩

theorem swept_event_index (s : Server) (message : Message) (type : Int) :
    (clear_closed_event s message type).event_index = s.event_index := by
  unfold clear_closed_event
  split <;> rfl

/-! ### The moves that dispatch an event -/

/-- The move dispatches the event at this place of the batch. -/
def DispatchesAt (i : Nat) (m : Move Sys Action) : Prop := (∃ o, m.act = .dispatch o) ∧ m.pre.server.event_index = i

instance (i : Nat) (m : Move Sys Action) : Decidable (DispatchesAt i m) :=
  have dispatches : Decidable (∃ o, m.act = .dispatch o) :=
    match m.act with
    | .dispatch o => isTrue ⟨o, rfl⟩
    | .call _ | .advance _ | .enter | .command _ | .noCommand | .wait _ | .sweep => isFalse (by simp)
  inferInstanceAs (Decidable (_ ∧ _))

def dispatched (i : Nat) (ms : List (Move Sys Action)) : List (Move Sys Action) := ms.filter (DispatchesAt i)

/-- The move finds this event at its place, but for a sweep that cleared it, and does
    so much with it. -/
def Finds (cleared : Prop) (e : Event) (i : Nat) (does : Server → Event → Prop) (m : Move Sys Action) : Prop :=
  ∃ x, m.pre.server.ev[i]? = some x ∧ Shade cleared e x ∧ does m.pre.server x

/-- What has become of the event at a place of the batch in these moves. -/
inductive Progress (cleared : Prop) (e : Event) (i : Nat) (ms : List (Move Sys Action)) (s : Server) : Prop
  | waiting (ahead : s.event_index ≤ i) (x : Event) (member : s.ev[i]? = some x) (shade : Shade cleared e x)
      (never : dispatched i ms = [])
  | halved (here : s.event_index = i) (m : Move Sys Action) (only : dispatched i ms = [m])
      (first : Finds cleared e i PutsBack m) (x : Event) (member : s.ev[i]? = some x)
      (shade : Shade cleared { e with read := false } x)
  | once (past : i < s.event_index) (m : Move Sys Action) (only : dispatched i ms = [m])
      (whole : Finds cleared e i (fun s x => ¬ PutsBack s x) m)
  | twice (past : i < s.event_index) (m n : Move Sys Action) (both : dispatched i ms = [m, n])
      (first : Finds cleared e i PutsBack m)
      (second : Finds cleared { e with read := false } i (fun _ _ => True) n)

section
variable {s t : Sys} {a : Action} {i : Nat} {e : Event} {cleared : Prop} {ms : List (Move Sys Action)}

theorem dispatched_other (ms : List (Move Sys Action)) {m : Move Sys Action} (other : ¬ DispatchesAt i m) :
    dispatched i (ms ++ [m]) = dispatched i ms := by
  simp [dispatched, other]

theorem dispatched_here (ms : List (Move Sys Action)) {m : Move Sys Action} (here : DispatchesAt i m) :
    dispatched i (ms ++ [m]) = dispatched i ms ++ [m] := by
  simp [dispatched, here]

/-- A step that dispatches no event at this place, and leaves it where it is. -/
theorem Progress.later (before : Progress cleared e i ms s.server) (other : ¬ DispatchesAt i ⟨s, a, t⟩)
    (ahead : s.server.event_index ≤ i → t.server.event_index ≤ i)
    (same : s.server.event_index = i → t.server.event_index = i) (past : i < s.server.event_index → i < t.server.event_index)
    (kept : s.server.event_index ≤ i → ∀ d x, d.s = e.s → s.server.ev[i]? = some x → Shade cleared d x →
      ∃ y, t.server.ev[i]? = some y ∧ Shade cleared d y) : Progress cleared e i (ms ++ [⟨s, a, t⟩]) t.server := by
  have log := dispatched_other ms other
  cases before with
  | waiting early x member shade never =>
    obtain ⟨y, found, still⟩ := kept early e x rfl member shade
    exact .waiting (ahead early) y found still (log.trans never)
  | halved here m only first x member shade =>
    obtain ⟨y, found, still⟩ := kept (Nat.le_of_eq here) { e with read := false } x rfl member shade
    exact .halved (same here) m (log.trans only) first y found still
  | once gone m only whole => exact .once (past gone) m (log.trans only) whole
  | twice gone m n both first second => exact .twice (past gone) m n (log.trans both) first second

/-- A dispatch of the event at this place. -/
theorem Progress.dispatch {o : Outcome} {x : Event} (before : Progress cleared e i ms s.server)
    (here : s.server.event_index = i) (current : s.server.ev[s.server.event_index]? = some x)
    (stepped : Stepped s.server x t.server) : Progress cleared e i (ms ++ [⟨s, .dispatch o, t⟩]) t.server := by
  have log := dispatched_here ms (m := ⟨s, .dispatch o, t⟩) ⟨⟨o, rfl⟩, here⟩
  rw [here] at current
  cases before with
  | waiting early y member shade never =>
    rw [current, Option.some.injEq] at member
    subst member
    rw [never, List.nil_append] at log
    by_cases both : PutsBack s.server x
    · obtain ⟨ev, event_index⟩ := stepped.again both
      refine .halved (event_index.trans here) _ log ⟨x, current, shade, both⟩ { x with read := false } ?_ ?_
      · rw [ev, here, List.getElem?_set_self (List.getElem?_eq_some_iff.mp current).1]
      · cases shade with
        | same => exact .same
        | swept may => exact .swept may
    · obtain ⟨-, event_index⟩ := stepped.done both
      exact .once (by omega) _ log ⟨x, current, shade, both⟩
  | halved _ m only first y member shade =>
    rw [current, Option.some.injEq] at member
    subst member
    rw [only, List.singleton_append] at log
    have unread : x.read = false := by cases shade <;> rfl
    have single : ¬ PutsBack s.server x := by
      rintro ⟨read, -⟩
      rw [unread] at read
      cases read
    obtain ⟨-, event_index⟩ := stepped.done single
    exact .twice (by omega) m _ log first ⟨x, current, shade, trivial⟩
  | once gone => omega
  | twice gone => omega

/-- A step of the batch carries every event on. -/
theorem progress_step (before : Progress cleared e i ms s.server) (stepped : step s a = .ok t)
    (unwaited : ∀ ready, a ≠ .wait ready)
    (free : ∀ k, e.s = some k → (s.server.slot k).type = .INVALID → cleared) :
    Progress cleared e i (ms ++ [⟨s, a, t⟩]) t.server := by
  by_cases dispatches : ∃ o, a = .dispatch o
  · obtain ⟨o, rfl⟩ := dispatches
    obtain ⟨r, sweep, -, handled, rfl⟩ := step_dispatch stepped
    obtain ⟨x, current, moved⟩ := dispatch_stepped handled
    by_cases here : s.server.event_index = i
    · exact before.dispatch here current moved
    · have moves : r.server.event_index = s.server.event_index ∨ r.server.event_index = s.server.event_index + 1 := by
        by_cases both : PutsBack s.server x
        · exact .inl (moved.again both).2
        · exact .inr (moved.done both).2
      have ev : r.server.ev[i]? = s.server.ev[i]? := by
        by_cases both : PutsBack s.server x
        · rw [(moved.again both).1, List.getElem?_set_ne here]
        · rw [(moved.done both).1]
      refine before.later (fun both => here both.2) ?_ (fun same => absurd same here) ?_ ?_
      · intro ahead
        change r.server.event_index ≤ i
        omega
      · intro past
        change i < r.server.event_index
        omega
      · intro _ d y _ member shade
        exact ⟨y, ev.trans member, shade⟩
  have other : ¬ DispatchesAt i ⟨s, a, t⟩ := fun both => dispatches both.1
  by_cases sweeps : a = .sweep
  · subst sweeps
    obtain ⟨type, swept⟩ := step_sweep stepped
    have event_index : t.server.event_index = s.server.event_index := by rw [swept, swept_event_index]
    refine before.later other (by omega) (by omega) (by omega) ?_
    intro _ d y slot member shade
    rw [swept]
    exact swept_event shade member (by rw [slot]; exact free)
  · obtain ⟨ev, event_index⟩ := step_ev stepped unwaited (fun o same => dispatches ⟨o, same⟩) sweeps
    refine before.later other (by omega) (by omega) (by omega) ?_
    intro _ d y _ member shade
    exact ⟨y, by rw [ev]; exact member, shade⟩

end

/-! ### The halves served -/

inductive Half
  | read
  | write
  deriving DecidableEq

/-- The event is handled by `send_buffer`. -/
def Sends (s : Server) (k : Index) (e : Event) : Prop := Halves (s.slot k).type ∧ e.read = false ∧ e.write = true

instance (s : Server) (k : Index) (e : Event) : Decidable (Sends s k e) := inferInstanceAs (Decidable (_ ∧ _ ∧ _))

/-- The half that a move serves of the event at a place, if it is one of the slot. -/
def served (i : Nat) (k : Index) (m : Move Sys Action) : Option Half :=
  if DispatchesAt i m then
    m.pre.server.ev[i]?.bind fun e =>
      if e.s = some k then
        if Forwards m.pre.server k e then some .read
        else if Sends m.pre.server k e then some .write
        else none
      else none
  else none

/-- The halves that an event reports ready. -/
def ready_halves (e : Event) : List Half := (if e.read then [.read] else []) ++ if e.write then [.write] else []

/-- The slot holds a connection that is read from and written to. -/
def Conversing (s : Server) (k : Index) : Prop :=
  ((s.slot k).type = .CONNECTED ∨ (s.slot k).type = .HALFCLOSE ∨ (s.slot k).type = .BIND) ∧
    (s.slot k).protocol = PROTOCOL_TCP

section
variable {s t : Sys} {a : Action} {i : Nat} {k : Index} {e : Event} {m : Move Sys Action} {ms : List (Move Sys Action)}

theorem Conversing.halves {s : Server} (conversing : Conversing s k) : Halves (s.slot k).type := by
  rcases conversing.1 with type | type | type <;> rw [type] <;> decide

/-- The connection stays as it is until it is closed. -/
theorem conversing_step (reserved : Reserved s) (before : Conversing s.server k) (stepped : step s a = .ok t)
    (unclosed : (t.server.slot k).type ≠ .INVALID) : Conversing t.server k := by
  have live : Live (s.server.slot k).type := by rcases before.1 with type | type | type <;> simp [Live, type]
  refine ⟨?_, (step_retains stepped k).tcp before.2⟩
  have same : (t.server.slot k).type = (s.server.slot k).type := by
    rcases step_live reserved stepped live with control | ⟨r, sweep, rfl, effect⟩
    · exact congrArg Control.type control
    · generalize s.fault a = fault at effect
      cases effect with
      | kept control => exact congrArg Control.type control
      | promoted next promotes =>
        have waiting : (s.server.slot k).type = .PLISTEN ∨ (s.server.slot k).type = .PACCEPT ∨
            (s.server.slot k).type = .CONNECTING := by
          rcases promotes with ⟨type, -⟩ | ⟨type, -⟩ | ⟨type, -⟩
          · exact .inl type
          · exact .inr (.inl type)
          · exact .inr (.inr type)
        rcases before.1 with type | type | type <;> rw [type] at waiting <;> simp at waiting
      | closed _ control => exact absurd (congrArg Control.type control) unclosed
      | dropped _ control => exact absurd (congrArg Control.type control) unclosed
      | leaked _ control => exact absurd (congrArg Control.type control) unclosed
  rw [same]
  exact before.1

/-- Only the moves that dispatch an event serve it. -/
theorem served_dispatched : ms.filterMap (served i k) = (dispatched i ms).filterMap (served i k) := by
  rw [dispatched, List.filterMap_filter]
  congr 1
  funext m
  by_cases here : DispatchesAt i m
  · simp [here]
  · simp [here, served]

/-- The dispatch of an event of such a slot ends with what `ready` returns. -/
theorem dispatched_ready (stepped : step m.pre m.act = .ok m.post) (here : DispatchesAt i m)
    (member : m.pre.server.ev[i]? = some e) (slot : e.s = some k) (halves : Halves (m.pre.server.slot k).type) :
    ∃ o r, m.act = .dispatch o ∧
      ready { m.pre.server with event_index := m.pre.server.event_index + 1 } k e m.pre.result o = .ok r ∧
        m.post = m.pre.handled r true := by
  obtain ⟨⟨o, act⟩, place⟩ := here
  rw [act] at stepped
  obtain ⟨r, sweep, -, handled, after⟩ := step_dispatch stepped
  obtain ⟨x, current, rest⟩ := dispatch_cases handled
  rw [place, member, Option.some.injEq] at current
  subst current
  rcases rest with ⟨absent, -⟩ | ⟨j, same, handled⟩
  · cases slot.symm.trans absent
  rw [slot, Option.some.injEq] at same
  subst same
  rcases serve_cases handled with ⟨type, -⟩ | ⟨type, -⟩ | ⟨type, -⟩ | ⟨-, -, served, rfl⟩
  · exact absurd type halves.1
  · exact absurd type halves.2.1
  · exact absurd type halves.2.2
  · exact ⟨o, r, act, served, after⟩

/-- A move that serves the read half is one of `forward_message_tcp`, and one that serves
    the write half one of `send_buffer`: it ends with what this handler returns. -/
theorem served_handler (stepped : step m.pre m.act = .ok m.post) :
    (served i k m = some .read → ∃ e o r, m.pre.server.ev[i]? = some e ∧ m.act = .dispatch o ∧
      forward_message_tcp { m.pre.server with event_index := m.pre.server.event_index + 1 } k m.pre.result o = .ok r ∧
        m.post = m.pre.handled (if e.write then { r with server := put_back r.server e } else r) true) ∧
    (served i k m = some .write → ∃ o r, m.act = .dispatch o ∧
      send_buffer { m.pre.server with event_index := m.pre.server.event_index + 1 } k m.pre.result o.writes = .ok r ∧
        m.post = m.pre.handled r true) := by
  by_cases here : DispatchesAt i m
  · cases member : m.pre.server.ev[i]? with
    | none => simp [served, member]
    | some e =>
      by_cases slot : e.s = some k
      · rw [served, if_pos here, member, Option.bind_some, if_pos slot]
        constructor
        · intro serves
          have forwards : Forwards m.pre.server k e := by
            by_contra other
            rw [if_neg other] at serves
            split at serves <;> cases serves
          obtain ⟨connecting, listening, valid, readable, protocol⟩ := forwards
          obtain ⟨o, r, act, handled, after⟩ := dispatched_ready stepped here member slot ⟨connecting, listening, valid⟩
          rcases ready_cases handled with ⟨-, n, read, rfl⟩ | ⟨quiet, -⟩ | ⟨quiet, -⟩
          · rw [read_half, if_pos protocol] at read
            exact ⟨e, o, n, rfl, act, read, after⟩
          · exact absurd readable quiet
          · exact absurd readable quiet
        · intro serves
          have sends : Sends m.pre.server k e := by
            by_contra other
            rw [if_neg other] at serves
            split at serves <;> cases serves
          obtain ⟨halves, unread, writable⟩ := sends
          obtain ⟨o, r, act, handled, after⟩ := dispatched_ready stepped here member slot halves
          rw [ready, if_neg (by simp [unread]), if_pos writable] at handled
          exact ⟨o, r, act, handled, after⟩
      · simp [served, member, slot]
  · simp [served, here]

theorem served_conversing (conversing : Conversing m.pre.server k) (here : DispatchesAt i m)
    (member : m.pre.server.ev[i]? = some e) (slot : e.s = some k) :
    served i k m = if e.read then some .read else if e.write then some .write else none := by
  have halves := conversing.halves
  have forwards : Forwards m.pre.server k e ↔ e.read = true :=
    ⟨fun all => all.2.2.2.1, fun read => ⟨halves.1, halves.2.1, halves.2.2, read, conversing.2⟩⟩
  rw [served, if_pos here, member, Option.bind_some, if_pos slot]
  by_cases read : e.read = true
  · rw [if_pos (forwards.mpr read), if_pos read]
  · have sends : Sends m.pre.server k e ↔ e.write = true :=
      ⟨fun all => all.2.2, fun write => ⟨halves, Bool.eq_false_iff.mpr read, write⟩⟩
    rw [if_neg (mt forwards.mp read), if_neg read]
    by_cases write : e.write = true
    · rw [if_pos (sends.mpr write), if_pos write]
    · rw [if_neg (mt sends.mp write), if_neg write]

theorem Finds.kept {does : Server → Event → Prop} (finds : Finds False e i does m) :
    m.pre.server.ev[i]? = some e ∧ does m.pre.server e := by
  obtain ⟨x, member, shade, done⟩ := finds
  cases shade with
  | same => exact ⟨member, done⟩
  | swept may => exact may.elim

/-- Once the batch is done, the halves that an event of a connection reported have been
    served. -/
theorem Progress.all_served {s : Server} (progress : Progress False e i ms s) (finished : s.event_index = s.event_n)
    (slot : e.s = some k) (conversing : ∀ m ∈ ms, Conversing m.pre.server k) :
    ms.filterMap (served i k) = ready_halves e := by
  have at_place : ∀ m ∈ dispatched i ms, DispatchesAt i m ∧ Conversing m.pre.server k := by
    intro m member
    obtain ⟨inside, here⟩ := List.mem_filter.mp member
    exact ⟨of_decide_eq_true here, conversing m inside⟩
  rw [served_dispatched, ready_halves]
  cases progress with
  | waiting ahead x member =>
    have inside := (List.getElem?_eq_some_iff.mp member).1
    simp only [Server.event_n] at finished
    omega
  | halved here m only first x member =>
    have inside := (List.getElem?_eq_some_iff.mp member).1
    simp only [Server.event_n] at finished
    omega
  | once past m only whole =>
    rw [only] at at_place ⊢
    obtain ⟨here, open_slot⟩ := at_place m List.mem_cons_self
    obtain ⟨member, single⟩ := whole.kept
    have halves : ¬ (e.read = true ∧ e.write = true) := fun both => single ⟨both.1, both.2, k, slot, open_slot.halves⟩
    rw [List.filterMap_cons, served_conversing open_slot here member slot]
    cases read : e.read with
    | true =>
      have unwritten : e.write = false := Bool.eq_false_iff.mpr fun write => halves ⟨read, write⟩
      rw [unwritten]
      rfl
    | false => cases e.write <;> rfl
  | twice past m n both first second =>
    rw [both] at at_place ⊢
    obtain ⟨here, open_slot⟩ := at_place m List.mem_cons_self
    obtain ⟨there, still⟩ := at_place n (List.mem_cons_of_mem _ List.mem_cons_self)
    obtain ⟨member, read, write, -⟩ := first.kept
    obtain ⟨rest, -⟩ := second.kept
    rw [List.filterMap_cons, served_conversing open_slot here member slot, read, List.filterMap_cons,
      served_conversing still there rest slot, write]
    rfl

end

/-! ### Runs -/

/-- The place of the next event lies in the batch, or at its end. -/
def Indexed (s : Sys) : Prop := s.server.event_index ≤ s.server.event_n

theorem swept_event_n (s : Server) (message : Message) (type : Int) :
    (clear_closed_event s message type).event_n = s.event_n := by
  unfold clear_closed_event
  split
  · simp only [Server.event_n, List.length_append, List.length_take, List.length_map, List.length_drop]
    omega
  · rfl

theorem indexed_step {s t : Sys} {a : Action} (before : Indexed s) (stepped : step s a = .ok t) : Indexed t := by
  unfold Indexed at before ⊢
  cases a with
  | wait ready =>
    simp only [step] at stepped
    split at stepped <;> cases stepped
    exact Nat.zero_le _
  | dispatch o =>
    obtain ⟨r, sweep, -, handled, rfl⟩ := step_dispatch stepped
    obtain ⟨x, current, moved⟩ := dispatch_stepped handled
    have inside := (List.getElem?_eq_some_iff.mp current).1
    change r.server.event_index ≤ r.server.ev.length
    by_cases both : PutsBack s.server x
    · obtain ⟨ev, event_index⟩ := moved.again both
      rw [ev, event_index, List.length_set]
      omega
    · obtain ⟨ev, event_index⟩ := moved.done both
      rw [ev, event_index]
      omega
  | sweep =>
    obtain ⟨type, swept⟩ := step_sweep stepped
    rw [swept, swept_event_index, swept_event_n]
    exact before
  | _ =>
    obtain ⟨ev, event_index⟩ := step_ev stepped (by simp) (by simp) (by simp)
    rw [Server.event_n, ev, event_index]
    exact before

/-- A wait starts at the first event. -/
theorem step_wait {s t : Sys} {ready : List Readiness} (stepped : step s (.wait ready) = .ok t) :
    s.server.event_index = s.server.event_n ∧ t.server.event_index = 0 := by
  simp only [step] at stepped
  split at stepped
  · rename_i finished
    cases stepped
    exact ⟨finished.2, rfl⟩
  · cases stepped

/-- The event at a place is dispatched at most twice, and the second time for its write
    half, when its read half is done. -/
def AtMostTwice (i : Nat) (ms : List (Move Sys Action)) : Prop :=
  (dispatched i ms).length ≤ 2 ∧ ∀ m n, dispatched i ms = [m, n] →
    (∃ x, m.pre.server.ev[i]? = some x ∧ PutsBack m.pre.server x) ∧
      ∃ y, n.pre.server.ev[i]? = some y ∧ y.read = false ∧ y.write = true

theorem Progress.atMostTwice {cleared : Prop} {e : Event} {i : Nat} {ms : List (Move Sys Action)} {s : Server}
    (progress : Progress cleared e i ms s) : AtMostTwice i ms := by
  unfold AtMostTwice
  cases progress with
  | waiting ahead x member shade never =>
    rw [never]
    exact ⟨by simp, fun m n both => by cases both⟩
  | halved here m only =>
    rw [only]
    exact ⟨by simp, fun m n both => by cases both⟩
  | once past m only =>
    rw [only]
    exact ⟨by simp, fun m n both => by cases both⟩
  | twice past m n both first second =>
    rw [both]
    refine ⟨by simp, ?_⟩
    intro m' n' same
    cases same
    obtain ⟨x, member, shade, back⟩ := first
    obtain ⟨y, rest, again, -⟩ := second
    have writes : e.write = true := by
      have back := back.2.1
      cases shade <;> exact back
    refine ⟨⟨x, member, back⟩, y, rest, ?_, ?_⟩
    · cases again <;> rfl
    · cases again <;> exact writes

section
variable {memory : Index → Socket} {alloc_id : Int} {result : Message} {front batch : List (Move Sys Action)}
variable {w : Move Sys Action} {s t : Sys} {ready : List Readiness}

/-- Before any move, every event waits. -/
theorem progress_start (cleared : Prop) {i : Nat} {e : Event} (start : s.server.event_index = 0)
    (member : s.server.ev[i]? = some e) : Progress cleared e i [] s.server :=
  .waiting (by omega) e member .same rfl

/-- The halves of an event of a connection that stays open have been served once the
    batch is done. -/
theorem served_batch (run : SysRun s batch t) (start : s.server.event_index = 0) (reserved : Reserved s)
    (unwaited : ∀ m ∈ batch, ∀ ready, m.act ≠ .wait ready) (finished : t.server.event_index = t.server.event_n)
    {i : Nat} {e : Event} {k : Index} (member : s.server.ev[i]? = some e) (slot : e.s = some k)
    (conversing : Conversing s.server k) (unclosed : ∀ m ∈ batch, (m.post.server.slot k).type ≠ .INVALID) :
    batch.filterMap (served i k) = ready_halves e := by
  -- what the moves of the batch are known not to do
  have conditions : ∀ m ∈ batch, (∀ ready, m.act ≠ .wait ready) ∧
      ∀ v, step m.pre m.act = .ok v → (v.server.slot k).type ≠ .INVALID := by
    intro m inside
    refine ⟨unwaited m inside, ?_⟩
    intro v stepped
    have same : step m.pre m.act = .ok m.post := run.step_of_mem inside
    rw [same] at stepped
    cases stepped
    exact unclosed m inside
  have around := run.invariant (I := fun s => Reserved s ∧ Conversing s.server k)
    (C := fun s a => (∀ ready, a ≠ .wait ready) ∧ ∀ v, step s a = .ok v → (v.server.slot k).type ≠ .INVALID)
    (fun s a u condition before stepped =>
      ⟨reserved_step before.1 stepped, conversing_step before.1 before.2 stepped (condition.2 u stepped)⟩)
    ⟨reserved, conversing⟩ conditions
  have progress : (Reserved t ∧ Conversing t.server k) ∧ Progress False e i batch t.server :=
    run.history (I := fun ms s => (Reserved s ∧ Conversing s.server k) ∧ Progress False e i ms s.server)
      (C := fun s a => (∀ ready, a ≠ .wait ready) ∧ ∀ v, step s a = .ok v → (v.server.slot k).type ≠ .INVALID)
      (by
        rintro ms s a u condition ⟨⟨reserved, open_slot⟩, progress⟩ stepped
        have kept := conversing_step reserved open_slot stepped (condition.2 u stepped)
        refine ⟨⟨reserved_step reserved stepped, kept⟩, progress_step progress stepped condition.1 ?_⟩
        intro j same free
        rw [slot] at same
        cases same
        exact open_slot.halves.2.2 free)
      ⟨⟨reserved, conversing⟩, progress_start False start member⟩ conditions
  exact progress.2.all_served finished slot fun m inside => (around.1 m inside).1.2

/-- Between two waits, the place of the next event stays in the batch; every event is
    dispatched at most twice, the second time for its write half only; and of an event
    of a connection that is not closed in between, both halves, as far as they are
    ready, have been served once each when the second wait is made. -/
theorem served_once (run : SysRun (initial memory alloc_id result) (front ++ w :: batch) t)
    (waited : w.act = .wait ready) (unwaited : ∀ m ∈ batch, ∀ ready, m.act ≠ .wait ready) :
    (∀ m ∈ batch, m.pre.server.event_index ≤ m.pre.server.event_n ∧
      m.post.server.event_index ≤ m.post.server.event_n) ∧
    (∀ i e, w.post.server.ev[i]? = some e → AtMostTwice i batch) ∧
    ((∃ ready u, step t (.wait ready) = .ok u) → ∀ i e k, w.post.server.ev[i]? = some e → e.s = some k →
      Conversing w.post.server k → (∀ m ∈ batch, (m.post.server.slot k).type ≠ .INVALID) →
      batch.filterMap (served i k) = ready_halves e) := by
  obtain ⟨before, waits, later⟩ := run.split
  have start : w.post.server.event_index = 0 := by
    have waits : step w.pre w.act = .ok w.post := waits
    rw [waited] at waits
    exact (step_wait waits).2
  refine ⟨?_, ?_, ?_⟩
  · exact (later.inductive_invariant (I := Indexed) (fun _ _ _ => indexed_step) (by rw [Indexed, start]; omega)).1
  · intro i e member
    have progress : Progress True e i batch t.server :=
      later.history (I := fun ms s => Progress True e i ms s.server) (C := fun _ a => ∀ ready, a ≠ .wait ready)
        (fun ms s a u unwaited before stepped => progress_step before stepped unwaited fun _ _ _ => trivial)
        (progress_start True start member) unwaited
    exact progress.atMostTwice
  · rintro ⟨next, u, finished⟩ i e k member slot conversing unclosed
    have reached := (run.inductive_invariant (I := Reserved) (fun _ _ _ => reserved_step)
      (reserved_initial memory alloc_id result)).1
    have reserved : Reserved w.post := (reached w (by simp)).2
    exact served_batch later start reserved unwaited (step_wait finished).1 member slot conversing unclosed

end

/-- A connection is accepted on descriptor 6, under id 2, and a byte sent to it has to
    wait. -/
def unsent : List Action :=
  [.call (.server_listen 0 5 true), .advance 0, .advance 0, .advance 0, .advance 0, .call (.server_start 0 1),
    .advance 0, .enter, .command {}, .command {}, .sweep, .enter, .noCommand, .wait [.descriptor 5 true false],
    .dispatch { accepted := 6 }, .call (.server_start 0 2), .advance 0, .call (.server_send 2 [65]), .advance 0,
    .enter, .noCommand, .wait [], .enter, .command {}, .sweep, .enter, .command {}, .noCommand]

/-- It is found ready in both directions. -/
private def found : Sys := final step (final step zeroed unsent) [.wait [.descriptor 6 true true]]

/-- A batch of one event, served in two steps. -/
def serving : List Action := [.dispatch {}, .noCommand, .dispatch {}, .noCommand]

theorem served_once_unsent : (moves step found serving).filterMap (served 0 2) = [.read, .write] := by
  have accepted : SysRun zeroed _ _ := run_final step (by decide +kernel : (exec step zeroed unsent).isOk = true)
  have waits : Succeeds step (final step zeroed unsent) (.wait [.descriptor 6 true true]) found :=
    step_final step (by decide +kernel)
  have batch : SysRun found _ _ := run_final step (by decide +kernel : (exec step found serving).isOk = true)
  have unwaited : ∀ m ∈ moves step found serving, ∀ ready, m.act ≠ .wait ready := by
    intro m member ready same
    have acts := act_of_moves step member
    rw [same] at acts
    simp [serving] at acts
  have event : found.server.ev[0]? = some ⟨some 2, true, true⟩ := by decide +kernel
  have conversing : Conversing found.server 2 := ⟨.inl (by decide +kernel), by decide +kernel⟩
  have unclosed : ∀ m ∈ moves step found serving, (m.post.server.slot 2).type ≠ .INVALID := by decide +kernel
  obtain ⟨u, next⟩ := final_step step
    (by decide +kernel : (step (final step found serving) (.wait [])).isOk = true)
  exact (served_once (accepted.append (.cons waits batch)) rfl unwaited).2.2 ⟨[], u, next⟩ 0 _ 2 event rfl conversing
    unclosed

end Canna.Poll
