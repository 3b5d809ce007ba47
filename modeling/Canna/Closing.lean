import Canna.Reservation

/-!
# Closings and their reports

A slot in use becomes free in a step after which `poll` returns `SOCKET_CLOSE` or
`SOCKET_ERROR` with the id of the slot, and a read that finds the end of a connection
does that to its slot (`Reported`). This fails in exactly two cases, both in
`forward_message_tcp` (`Missed`): a read that fails closes the slot without a report,
and a read that returns 0 is ignored (`reported_iff`).
-/
namespace Canna.Poll
open Canna.Sockets Canna.SocketServer Canna.ControlPipe Canna.Lts

/-- `poll` has come to the end of an id: it has returned that, or it does so after the
    sweep. -/
def Announced (s : Sys) (id : Int) : Prop :=
  ∃ type, (s.pc = .sweeping type ∨ s.pc = .outside type) ∧ Reports type s.result.id id

/-- The next event makes `poll` read from the slot of a connection. -/
def Reads (s : Sys) (k : Index) : Prop :=
  ∃ e, s.server.ev[s.server.event_index]? = some e ∧ e.s = some k ∧ e.read = true ∧
    (s.server.slot k).type = .CONNECTED ∧ (s.server.slot k).protocol = PROTOCOL_TCP

/-- `read` returns 0. -/
def AtEnd (x : Socket) (o : Outcome) : Prop := ∃ bytes, o.read = .received bytes ∧ delivered x bytes = []

/-- What becomes of the ends that a step finds. -/
structure Reported (m : Move Sys Action) : Prop where
  /-- A slot is not closed without a report. -/
  closings : ∀ k, Live (m.pre.server.slot k).type → (m.post.server.slot k).type = .INVALID →
    Announced m.post (m.pre.server.slot k).id
  /-- The end of a connection closes its slot. -/
  ends : ∀ o k, m.act = .dispatch o → Reads m.pre k → (o.read = .failed ∨ AtEnd (m.pre.server.slot k) o) →
    (m.post.server.slot k).type = .INVALID ∧ Announced m.post (m.pre.server.slot k).id
  /-- What is about to be returned is returned. -/
  returns : ∀ type, m.pre.pc = .sweeping type →
    m.post.result = m.pre.result ∧ (m.post.pc = .sweeping type ∨ m.post.pc = .outside type)

/-- A read by `forward_message_tcp` fails, or one on a connection returns 0. -/
def Missed (s : Sys) (a : Action) : Prop :=
  s.fault a = .silent ∨ ∃ o k, a = .dispatch o ∧ Reads s k ∧ AtEnd (s.server.slot k) o

section
variable {s t : Sys}

theorem proceed_announces {type result id : Int} (sweep : Bool) (reports : Reports type result id) :
    proceed type sweep = .sweeping type ∨ proceed type sweep = .outside type := by
  have returned : type ≠ -1 := by
    rcases reports.1 with rfl | rfl <;> decide
  unfold proceed
  rw [if_neg returned]
  cases sweep
  · exact .inr rfl
  · exact .inl rfl

/-- Short of a silent fault, what a handler closes it reports. -/
theorem change_reports {x y : Control} {b c : Int → Int} {type result : Int} {fault : Fault}
    (change : Change x b y c type result fault) (live : Live x.type) (sound : fault ≠ .silent)
    (freed : y.type = .INVALID) : Reports type result x.id := by
  cases change with
  | kept control =>
    rw [control] at freed
    exact absurd freed live.1
  | promoted next promotes control =>
    rw [control] at freed
    rcases promotes with ⟨-, equal⟩ | ⟨-, equal⟩ | ⟨-, equal⟩ <;> rw [equal] at freed <;> cases freed
  | closed _ _ _ reported => exact reported
  | dropped => exact absurd rfl sound
  | leaked _ _ _ reported => exact reported

theorem effect_announced {k : Index} {r : Reply} {sweep : Bool} {fault : Fault}
    (effect : Effect k s.server r fault) (live : Live (s.server.slot k).type) (sound : fault ≠ .silent)
    (freed : (r.server.slot k).type = .INVALID) : Announced (s.handled r sweep) (s.server.slot k).id := by
  have reported := change_reports effect live sound freed
  exact ⟨r.type, proceed_announces sweep reported, reported⟩

/-- A read that fails is a silent fault. -/
theorem fault_reads {o : Outcome} {k : Index} (reads : Reads s k) (failed : o.read = .failed) :
    s.fault (.dispatch o) = .silent := by
  obtain ⟨e, current, slot, readable, connected, tcp⟩ := reads
  have forwards : Forwards s.server k e := by
    refine ⟨?_, ?_, ?_, readable, tcp⟩ <;> rw [connected] <;> decide
  rw [fault_dispatch current slot, serveFault, if_pos ⟨forwards, failed⟩]

/-- A silent fault closes a slot in use, and `poll` goes on. -/
theorem silent_dispatch {a : Action} (stepped : step s a = .ok t) (silent : s.fault a = .silent) :
    ∃ k, Live (s.server.slot k).type ∧ (t.server.slot k).type = .INVALID ∧ t.pc = .looping := by
  cases a with
  | command o =>
    obtain ⟨request, pipe, r, -, waiting, -, -⟩ := step_command stepped
    rw [fault_command waiting] at silent
    cases request with
    | request_start id opaqueVal =>
      simp only [commandFault] at silent
      split at silent <;> cases silent
    | _ => cases silent
  | dispatch o =>
    obtain ⟨r, sweep, -, handled, rfl⟩ := step_dispatch stepped
    obtain ⟨e, current, -, -, -, (⟨control, -, -, -⟩ | ⟨k, slot, served⟩)⟩ := dispatch_ok handled
    · simp only [Sys.fault, current, control] at silent
      cases silent
    · rw [fault_dispatch current slot] at silent
      rw [silent] at served
      cases served with
      | worked _ _ effect =>
        cases effect with
        | dropped live control _ unreported =>
          refine ⟨k, live, congrArg Control.type control, ?_⟩
          simp only [Sys.handled, proceed, unreported, if_true]
  | _ => cases silent

/-- A read that returns 0 leaves every slot as it is. -/
theorem forward_message_tcp_end {s : Server} {k : Index} {result : Message} {o : Outcome} (ended : AtEnd (s.slot k) o) :
    forward_message_tcp s k result o = .ok ⟨s, result, -1⟩ := by
  obtain ⟨bytes, received, none⟩ := ended
  simp [forward_message_tcp, received, none]

theorem end_dispatch {o : Outcome} {k : Index} (stepped : step s (.dispatch o) = .ok t) (reads : Reads s k)
    (ended : AtEnd (s.server.slot k) o) : t.server.slot = s.server.slot := by
  obtain ⟨r, sweep, -, handled, rfl⟩ := step_dispatch stepped
  obtain ⟨e, current, slot, readable, connected, tcp⟩ := reads
  have ended : AtEnd (({ s.server with event_index := s.server.event_index + 1 } : Server).slot k) o := ended
  simp only [dispatch, current, slot, serve, connected, ready, readable, if_true, read_half, tcp,
    forward_message_tcp_end ended] at handled
  cases handled
  simp only [Sys.handled]
  split <;> rfl

/-- What is about to be returned stays until the sweep, and is returned then. -/
theorem sweeping_returns {a : Action} {type : Int} (stepped : step s a = .ok t) (sweeping : s.pc = .sweeping type) :
    t.result = s.result ∧ (t.pc = .sweeping type ∨ t.pc = .outside type) := by
  cases a with
  | call c =>
    cases stepped
    exact ⟨rfl, .inl sweeping⟩
  | advance j =>
    obtain ⟨c, -, rfl⟩ := step_advance stepped
    exact ⟨rfl, .inl sweeping⟩
  | command o =>
    obtain ⟨request, pipe, r, looping, -⟩ := step_command stepped
    rw [sweeping] at looping
    cases looping
  | dispatch o =>
    obtain ⟨r, sweep, picking, -⟩ := step_dispatch stepped
    rw [sweeping] at picking
    cases picking
  | sweep =>
    simp only [step, sweeping] at stepped
    cases stepped
    exact ⟨rfl, .inr rfl⟩
  | _ => simp [step, sweeping] at stepped

/-- A step reports the ends it finds exactly when it misses none. -/
theorem reported_step {a : Action} (reserved : Reserved s) (stepped : step s a = .ok t) :
    Reported ⟨s, a, t⟩ ↔ ¬ Missed s a := by
  constructor
  · rintro reported (silent | ⟨o, k, rfl, reads, ended⟩)
    · obtain ⟨k, live, freed, looping⟩ := silent_dispatch stepped silent
      obtain ⟨type, (pc | pc), -⟩ := reported.closings k live freed
      · exact Pc.noConfusion (looping.symm.trans pc)
      · exact Pc.noConfusion (looping.symm.trans pc)
    · have freed := (reported.ends o k rfl reads (.inr ended)).1
      have connected := reads.choose_spec.2.2.2.1
      have same : t.server.slot = s.server.slot := end_dispatch stepped reads ended
      rw [show (t.server.slot k).type = .CONNECTED by rw [same, connected]] at freed
      cases freed
  · intro sound
    refine ⟨?_, ?_, fun type => sweeping_returns stepped⟩
    · intro k live freed
      rcases step_live reserved stepped live with same | ⟨r, sweep, rfl, effect⟩
      · exact absurd ((congrArg Control.type same).symm.trans freed) live.1
      · exact effect_announced effect live (fun silent => sound (.inl silent)) freed
    · rintro o k rfl reads (failed | ended)
      · exact absurd (.inl (fault_reads reads failed)) sound
      · exact absurd (.inr ⟨o, k, rfl, reads, ended⟩) sound

end

/-- A bound slot is closed by a command. -/
def closing : List Action := opening ++ [.call (.server_close 0 1), .advance 0, .enter, .command {}, .sweep]

end Canna.Poll
