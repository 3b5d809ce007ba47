import Canna.Assertions
import Canna.Stages

/-!
# What becomes of an id

To the callers of the socket server an id is one small automaton (`Stage.next`): it is
given, then open, and then over; what passes on its connection is returned between
`SOCKET_OPEN` and `SOCKET_CLOSE` or `SOCKET_ERROR`, and nothing but its end is returned
outside. The server follows this automaton for every id at once, through the types of
its slots, if the public calls run between calls of `poll`, the bound descriptors are
their callers' and `epoll_wait` finds each descriptor once (`ids_follow`). The one step
that no value of `poll` shows is a read that fails. No connection is ever half closed:
each close request that is handled ends its id at once, also where bytes were sent that
the kernel did not take (`closes_at_once`).
-/
namespace Canna.Poll
open Canna.Sockets Canna.SocketServer Canna.ControlPipe Canna.Lts
open Canna.ControlPipe.Request

/-! ### Signals -/

/-- The value that `poll` returns in a move. -/
def returned (m : Move Sys Action) : Option Int :=
  match m.pre.pc, m.post.pc with
  | .outside _, _ => none
  | _, .outside type => some type
  | _, _ => none

/-- The id on whose connection a read fails. -/
def broken (s : Sys) : Action → Option Int
  | .dispatch o => s.server.ev[s.server.event_index]?.bind fun e => e.s.bind fun k =>
    if serveFault s.server k e o = .silent then some (s.server.slot k).id else none
  | _ => none

/-- What a move shows of an id. -/
def signal (id : Int) (m : Move Sys Action) : Option Signal :=
  if Creates id m then some .given
  else if broken m.pre m.act = some id then some .broken
  else if m.post.result.id = id then (returned m).bind reported
  else none

/-! ### Steps -/

/-- An observer of an id is where the server is with it, but for the value that `poll` is
    about to return. -/
def Showing (id : Int) (stage : Stage) (s : Sys) : Prop :=
  match s.pc with
  | .sweeping type => stage.after id type s.result = some (id_stage s.server id)
  | _ => stage = id_stage s.server id

/-- The observer after a step. -/
def Follows (id : Int) (stage : Stage) (m : Move Sys Action) : Prop :=
  ∃ next, (signal id m).elim (some stage) stage.next = some next ∧ Showing id next m.post

section
variable {s t : Sys} {a : Action} {id : Int} {stage : Stage}

theorem showing_unswept (unswept : ∀ type, s.pc ≠ .sweeping type) : Showing id stage s ↔ stage = id_stage s.server id := by
  unfold Showing
  split
  · rename_i type sweeping
    exact absurd sweeping (unswept type)
  · exact Iff.rfl

/-- A step that shows nothing and changes no slot. -/
theorem follows_still (silent : signal id ⟨s,a,t⟩ = none) (showing : Showing id stage s)
    (before : ∀ type, s.pc ≠ .sweeping type) (after : ∀ type, t.pc ≠ .sweeping type)
    (slot : t.server.slot = s.server.slot) : Follows id stage ⟨s,a,t⟩ := by
  refine ⟨stage, by rw [silent]; rfl, ?_⟩
  rw [showing_unswept after, stage_congr (s := s.server) (congrFun slot _)]
  exact (showing_unswept before).mp showing

/-- A move that gives no id and breaks no connection shows what `poll` returns in it. -/
theorem signal_returned (ungiven : ¬ Creates id ⟨s,a,t⟩) (unbroken : broken s a ≠ some id) :
    signal id ⟨s,a,t⟩ = if t.result.id = id then (returned ⟨s,a,t⟩).bind reported else none := by
  rw [signal, if_neg ungiven, if_neg unbroken]

theorem signal_unreturned (ungiven : ¬ Creates id ⟨s,a,t⟩) (unbroken : broken s a ≠ some id)
    (none : returned ⟨s,a,t⟩ = none) : signal id ⟨s,a,t⟩ = Option.none := by
  rw [signal_returned ungiven unbroken, none]
  split <;> rfl

/-- A value that is returned is shown to the observer. -/
theorem elim_signal {type : Int} (ungiven : ¬ Creates id ⟨s,a,t⟩) (unbroken : broken s a ≠ some id)
    (value : returned ⟨s,a,t⟩ = some type) :
    (signal id ⟨s,a,t⟩).elim (some stage) stage.next = stage.after id type t.result := by
  rw [signal_returned ungiven unbroken, value, Stage.after]
  by_cases own : t.result.id = id
  · rw [if_pos own, if_pos own, Option.bind_some]
  · rw [if_neg own, if_neg own]
    rfl

/-- A handled request or event that is returned now or after the sweep. -/
theorem follows_tells {r : Reply} {sweep : Bool} (ungiven : ¬ Creates id ⟨s,a,s.handled r sweep⟩)
    (unbroken : broken s a ≠ some id) (inside : s.pc = .looping ∨ s.pc = .picking) (showing : Showing id stage s)
    (tells : Tells s.server r) : Follows id stage ⟨s,a,s.handled r sweep⟩ := by
  have unswept : ∀ type, s.pc ≠ .sweeping type := by
    rcases inside with pc | pc <;> rw [pc] <;> simp
  obtain rfl := (showing_unswept unswept).mp showing
  have told := tells id
  by_cases pass : r.type = -1
  · have pc : (s.handled r sweep).pc = .looping := if_pos pass
    have none : returned ⟨s,a,s.handled r sweep⟩ = none := by
      rcases inside with here | here <;> simp only [returned, here, pc]
    rw [after_quiet (by rw [pass]; rfl)] at told
    refine ⟨_, by rw [signal_unreturned ungiven unbroken none]; rfl, ?_⟩
    rw [showing_unswept (by simp [pc])]
    exact Option.some.inj told
  cases sweep with
  | true =>
    have pc : (s.handled r true).pc = .sweeping r.type := if_neg pass
    have none : returned ⟨s,a,s.handled r true⟩ = none := by
      rcases inside with here | here <;> simp only [returned, here, pc]
    refine ⟨_, by rw [signal_unreturned ungiven unbroken none]; rfl, ?_⟩
    simp only [Showing, pc]
    exact told
  | false =>
    have pc : (s.handled r false).pc = .outside r.type := if_neg pass
    have value : returned ⟨s,a,s.handled r false⟩ = some r.type := by
      rcases inside with here | here <;> simp only [returned, here, pc]
    exact ⟨id_stage r.server id, (elim_signal ungiven unbroken value).trans told, (showing_unswept (by simp [pc])).mpr rfl⟩

theorem follows_call {c : ApiCall} (between : Between s (.call c)) (showing : Showing id stage s) :
    Follows id stage ⟨s,.call c,s.client s.clients (c.start s.server)⟩ := by
  obtain ⟨type, outside⟩ := between
  have none : returned ⟨s,.call c,s.client s.clients (c.start s.server)⟩ = none := by simp only [returned, outside]
  refine follows_still (signal_unreturned not_false (by simp [broken]) none) showing ?_ ?_ (c.started s.server).slot
  · simp [outside]
  · simp [Sys.client, outside]

/-- A client takes a free slot for an id that is over. -/
theorem follows_advance {j : Nat} (between : Between s (.advance j)) (showing : Showing id stage s)
    (stepped : step s (.advance j) = .ok t) : Follows id stage ⟨s,.advance j,t⟩ := by
  obtain ⟨type, outside⟩ := between
  obtain ⟨c, member, rfl⟩ := step_advance stepped
  have gives : ∀ t, Creates id ⟨s,.advance j,t⟩ ↔ c.Swaps s.server id := by
    intro t
    constructor
    · rintro ⟨d, same, swaps⟩
      rw [member, Option.some.injEq] at same
      exact same ▸ swaps
    · exact fun swaps => ⟨c, member, swaps⟩
  have unbroken : broken s (.advance j) ≠ some id := by simp [broken]
  have before : ∀ type, s.pc ≠ .sweeping type := by simp [outside]
  have after : ∀ r type, (s.client (s.clients.eraseIdx j) r).pc ≠ .sweeping type := by simp [Sys.client, outside]
  have none : ∀ r, returned ⟨s,.advance j,s.client (s.clients.eraseIdx j) r⟩ = none := by
    intro r
    simp only [returned, outside]
  have advanced := c.advanced s.server
  generalize c.advance s.server = d at advanced
  obtain ⟨r, next⟩ := d
  cases advanced with
  | moved d alloc_id idle still inHand unswapped =>
    exact follows_still (signal_unreturned (fun made => unswapped id ((gives _).mp made)) unbroken (none _)) showing
      before (after _) rfl
  | gave_up idle ker closed unswapped =>
    exact follows_still (signal_unreturned (fun made => unswapped id ((gives _).mp made)) unbroken (none _)) showing
      before (after _) rfl
  | requested request is =>
    have ungiven : ¬ c.Swaps s.server id := by
      rintro ⟨⟨call, i, same⟩, -⟩
      cases is.symm.trans same
    exact follows_still (signal_unreturned (fun made => ungiven ((gives _).mp made)) unbroken (none _)) showing
      before (after _) rfl
  | reserved call i own is vacant =>
    obtain rfl := (showing_unswept before).mp showing
    by_cases same : own = id
    · subst same
      refine ⟨.given, ?_, ?_⟩
      · rw [signal, if_pos ((gives _).mpr ⟨⟨call, i, is⟩, vacant⟩), stage_stale (.inl vacant)]
        rfl
      · rw [showing_unswept (after _)]
        simp [Sys.client, id_stage, type_stage]
    · have ungiven : ¬ c.Swaps s.server id := by
        rintro ⟨⟨call', i', swaps⟩, -⟩
        cases is.symm.trans swaps
        exact same rfl
      refine ⟨id_stage s.server id, ?_, ?_⟩
      · rw [signal_unreturned (fun made => ungiven ((gives _).mp made)) unbroken (none _)]
        rfl
      rw [showing_unswept (after _)]
      by_cases here : HASH_ID id = HASH_ID own
      · have gone : id_stage s.server id = .over := stage_stale (.inl (by rw [here]; exact vacant))
        rw [gone]
        simp [Sys.client, id_stage, here, same]
      · exact (stage_congr (Server.setSlot_other _ _ here)).symm

/-- A handled request, whose reserved id has its slot. -/
theorem follows_command {o : Outcome} (reserved : Reserved s) (showing : Showing id stage s)
    (stepped : step s (.command o) = .ok t) : Follows id stage ⟨s,.command o,t⟩ := by
  obtain ⟨request, pipe, r, looping, waiting, handled, rfl⟩ := step_command stepped
  have tells : Tells { s.server with pipe := pipe } r := ctrl_cmd_tells (fun own is => reserved.next waiting is) handled
  exact follows_tells not_false (by simp [broken]) (.inl looping) showing tells

/-- A dispatched event. -/
theorem follows_dispatch {o : Outcome} (identified : Identified s) (tidy : Tidy s) (showing : Showing id stage s)
    (stepped : step s (.dispatch o) = .ok t) : Follows id stage ⟨s,.dispatch o,t⟩ := by
  obtain ⟨r, sweep, picking, handled, rfl⟩ := step_dispatch stepped
  have unswept : ∀ type, s.pc ≠ .sweeping type := by simp [picking]
  have inside : s.pc = .looping ∨ s.pc = .picking := .inr picking
  obtain ⟨e, current, ⟨slot, rfl, rfl⟩ | ⟨k, slot, handled⟩⟩ := dispatch_cases handled
  · have unbroken : broken s (.dispatch o) ≠ some id := by simp [broken, current, slot]
    exact follows_tells (by simp [Creates, Sys.handled, proceed]) unbroken inside showing (.unchanged rfl rfl)
  have breaks : broken s (.dispatch o) = if serveFault s.server k e o = .silent then some (s.server.slot k).id else none := by
    simp only [broken, current, slot, Option.bind_some]
  have shown := serve_shown (s := { s.server with event_index := s.server.event_index + 1 })
    (fun valid => (identified.slots k valid).2)
    (fun readable => tidy.reads unswept ⟨Nat.le_refl _, current, slot⟩ readable) handled
  cases shown with
  | told tells sound direct =>
    have sound : serveFault s.server k e o ≠ .silent := sound
    refine follows_tells ?_ (by simp [breaks, sound]) inside showing tells
    rintro ⟨accepting, -⟩
    obtain ⟨type, unswept⟩ := proceed_outside accepting
    cases (direct type).symm.trans unswept
  | ended silent others control opened pass =>
    obtain rfl := (showing_unswept unswept).mp showing
    have silent : serveFault s.server k e o = .silent := silent
    have pc : (s.handled r sweep).pc = .looping := if_pos pass
    have ungiven : ∀ id, ¬ Creates id ⟨s,.dispatch o,s.handled r sweep⟩ := by simp [Creates, pc]
    have valid : (s.server.slot k).type ≠ .INVALID := by
      intro free
      rw [free] at opened
      cases opened
    have place := (identified.slots k valid).2
    rw [if_pos silent] at breaks
    by_cases own : (s.server.slot k).id = id
    · subst own
      refine ⟨.over, ?_, ?_⟩
      · rw [signal, if_neg (ungiven _), if_pos breaks, stage_own place, opened]
        rfl
      · rw [showing_unswept (by simp [pc])]
        have same : (r.server.slot k).id = (s.server.slot k).id := congrArg Control.id control
        have free : (r.server.slot k).type = .INVALID := congrArg Control.type control
        refine (stage_stale (.inl ?_)).symm
        rw [place]
        exact free
    · have none : returned ⟨s,.dispatch o,s.handled r sweep⟩ = none := by simp only [returned, picking, pc]
      refine ⟨id_stage s.server id, ?_, ?_⟩
      · rw [signal_unreturned (ungiven _) (by simp [breaks, own]) none]
        rfl
      rw [showing_unswept (by simp [pc])]
      by_cases here : HASH_ID id = k
      · have same : (r.server.slot (HASH_ID id)).id = (s.server.slot (HASH_ID id)).id := by
          rw [here]
          exact congrArg Control.id control
        refine (stage_of same fun equal => ?_).symm
        rw [here] at equal
        exact absurd equal.symm own
      · exact (stage_congr (others _ here)).symm
  | accepted new vacant others control accepts listening ud direct sound =>
    obtain rfl := (showing_unswept unswept).mp showing
    have sound : serveFault s.server k e o ≠ .silent := sound
    have vacant : (s.server.slot (HASH_ID new)).type = .INVALID := vacant
    have listening : id_stage s.server r.result.id = .opened := listening
    have pc : (s.handled r sweep).pc = .outside SOCKET_ACCEPT := by
      subst direct
      simp only [Sys.handled, proceed, accepts]
      decide
    have after : ∀ type, (s.handled r sweep).pc ≠ .sweeping type := by simp [pc]
    have gives : Creates id ⟨s,.dispatch o,s.handled r sweep⟩ ↔ new = id := by
      simp only [Creates, pc, true_and]
      show r.result.ud = id ↔ new = id
      rw [ud]
    by_cases same : new = id
    · subst same
      refine ⟨.given, ?_, ?_⟩
      · rw [signal, if_pos (gives.mpr rfl), stage_stale (.inl vacant)]
        rfl
      · rw [showing_unswept after]
        show Stage.given = id_stage r.server new
        have id : (r.server.slot (HASH_ID new)).id = new := congrArg Control.id control
        have type : (r.server.slot (HASH_ID new)).type = .PACCEPT := congrArg Control.type control
        rw [id_stage, if_pos id, type]
        rfl
    · have value : returned ⟨s,.dispatch o,s.handled r sweep⟩ = some SOCKET_ACCEPT := by simp only [returned, picking, pc]
      have stays : id_stage r.server id = id_stage s.server id := by
        by_cases here : HASH_ID id = HASH_ID new
        · have gone : id_stage s.server id = .over := stage_stale (.inl (by rw [here]; exact vacant))
          have other : (r.server.slot (HASH_ID id)).id = new := by
            rw [here]
            exact congrArg Control.id control
          rw [gone, id_stage, if_neg (by rw [other]; exact same)]
        · exact stage_congr (others _ here)
      refine ⟨id_stage s.server id, ?_, (showing_unswept after).mpr stays.symm⟩
      rw [elim_signal (fun made => same (gives.mp made)) (by simp [breaks, sound]) value, Stage.after]
      by_cases own : (s.handled r sweep).result.id = id
      · have opened : id_stage s.server id = .opened := own ▸ listening
        rw [if_pos own, opened]
        rfl
      · rw [if_neg own]

/-- The sweep returns what was reported. -/
theorem follows_sweep (showing : Showing id stage s) (stepped : step s .sweep = .ok t) : Follows id stage ⟨s,.sweep,t⟩ := by
  have slot := (step_other stepped .sweep).1
  have result := (step_other stepped .sweep).2.2.2.2
  cases pc : s.pc with
  | sweeping type =>
    simp only [Showing, pc] at showing
    simp only [step, pc] at stepped
    cases stepped
    refine ⟨id_stage s.server id, ?_, ?_⟩
    · exact (elim_signal (by simp [Creates]) (by simp [broken]) (by simp only [returned, pc])).trans showing
    · rw [showing_unswept (by simp)]
      exact (stage_congr (congrFun slot _)).symm
  | _ =>
    simp only [step, pc] at stepped
    cases stepped

/-- An observer follows every step. -/
theorem follows_step (reserved : Reserved s) (identified : Identified s) (tidy : Tidy s) (between : Between s a)
    (showing : Showing id stage s) (stepped : step s a = .ok t) : Follows id stage ⟨s,a,t⟩ := by
  cases a with
  | call c =>
    cases stepped
    exact follows_call between showing
  | advance j => exact follows_advance between showing stepped
  | command o => exact follows_command reserved showing stepped
  | dispatch o => exact follows_dispatch identified tidy showing stepped
  | sweep => exact follows_sweep showing stepped
  | enter =>
    have slot := (step_other stepped .enter).1
    simp only [step] at stepped
    split at stepped <;> cases stepped
    rename_i type outside
    exact follows_still (signal_unreturned not_false (by simp [broken]) (by simp only [returned, outside])) showing
      (by simp [outside]) (by simp) slot
  | noCommand =>
    have slot := (step_other stepped .noCommand).1
    simp only [step] at stepped
    split at stepped <;> cases stepped
    rename_i looping
    exact follows_still (signal_unreturned not_false (by simp [broken]) (by simp only [returned, looping])) showing
      (by simp [looping]) (by simp) slot
  | wait ready =>
    have slot := (step_other stepped (.wait ready)).1
    have unswept := unswept_other stepped (.wait ready)
    simp only [step] at stepped
    split at stepped <;> cases stepped
    rename_i picking
    refine follows_still ?_ showing (by simp [picking.1]) unswept slot
    rw [signal_returned (by simp [Creates]) (by simp [broken])]
    -- `wait` returns -1, or nothing
    by_cases idle : Poll.wait s.server.kernel ready = []
    · simp only [returned, picking.1, idle, if_true]
      split <;> rfl
    · simp only [returned, picking.1, idle, if_false]
      split <;> rfl

end

/-! ### Runs -/

section
variable {memory : Index → Socket} {alloc_id : Int} {result : Message} {t : Sys} {ms : List (Move Sys Action)}

theorem showing_initial (id : Int) : Showing id .over (initial memory alloc_id result) := by
  rw [showing_unswept (by simp [initial])]
  exact (stage_stale (.inl rfl)).symm

/-- The connection of id 2 is closed once its data was returned. -/
def parting : List Action :=
  conversing ++ [.sweep, .call (.server_close 8 2), .advance 0, .enter, .command {}, .sweep]

end

/-! ### Close requests -/

/-- No slot is half closed. -/
def Unhalved (s : Server) : Prop := ∀ k, (s.slot k).type ≠ .HALFCLOSE

section
variable {s t : Sys} {a : Action}

theorem Unhalved.of_slot {s t : Server} {k : Index} (before : Unhalved s) (others : ∀ j, j ≠ k → t.slot j = s.slot j)
    (here : (t.slot k).type ≠ .HALFCLOSE) : Unhalved t := by
  intro j
  by_cases same : j = k
  · exact same ▸ here
  · rw [others j same]
    exact before j

/-- No handler of a slot in use makes it half closed. -/
theorem change_unhalved {x y : Control} {b c : Int → Int} {type result : Int} {fault : Fault}
    (change : Change x b y c type result fault) (before : x.type ≠ .HALFCLOSE) : y.type ≠ .HALFCLOSE := by
  cases change with
  | kept control => rw [control]; exact before
  | promoted next promotes control =>
    rw [control]
    rcases promotes with ⟨-, rfl⟩ | ⟨-, rfl⟩ | ⟨-, rfl⟩ <;> simp
  | closed live control => rw [control]; simp
  | dropped live control => rw [control]; simp
  | leaked waiting control => rw [control]; simp

theorem filled_unhalved {request : Request Int (List Byte)} {id : Int} {x y : Control} {b c : Int → Int}
    (filled : Filled request id x b y c) : y.type ≠ .HALFCLOSE := by
  cases filled with
  | listening fd opaqueVal is reserved control => rw [control]; simp
  | bound fd opaqueVal is reserved control => rw [control]; simp
  | connected port opaqueVal host is type sock connects reserved free control =>
    rw [control]
    rcases connects with rfl | rfl <;> simp
  | abandoned other control => rw [control]; simp

theorem unhalved_step (before : Unhalved s.server) (stepped : step s a = .ok t) : Unhalved t.server := by
  have same : t.server.slot = s.server.slot → Unhalved t.server := fun slot k => slot ▸ before k
  cases a with
  | call c =>
    cases stepped
    exact same (c.started s.server).slot
  | advance j =>
    obtain ⟨c, -, rfl⟩ := step_advance stepped
    have advanced := c.advanced s.server
    generalize c.advance s.server = d at advanced
    obtain ⟨r, next⟩ := d
    cases advanced with
    | reserved call i id is vacant =>
      exact before.of_slot (k := HASH_ID id) (fun j => Server.setSlot_other s.server _) (by simp [Sys.client])
    | _ => exact before
  | command o =>
    obtain ⟨request, pipe, r, -, -, handled, rfl⟩ := step_command stepped
    cases own : reservation request with
    | some id =>
      obtain ⟨frame, filled⟩ := ctrl_cmd_reserved own handled
      exact before.of_slot frame.others (filled_unhalved filled)
    | none =>
      obtain ⟨k, frame, effect⟩ := ctrl_cmd_unreserved own handled
      exact before.of_slot frame.others (change_unhalved effect (before k))
  | dispatch o =>
    obtain ⟨r, sweep, -, handled, rfl⟩ := step_dispatch stepped
    obtain ⟨e, -, -, -, -, ⟨-, slots, -⟩ | ⟨k, -, served⟩⟩ := dispatch_ok handled
    · exact same slots
    · generalize serveFault s.server k e o = fault at served
      cases served with
      | worked fault others effect => exact before.of_slot others (change_unhalved effect (before k))
      | accepted id listening vacant others control =>
        have type : (r.server.slot (HASH_ID id)).type = .PACCEPT := congrArg Control.type control
        exact before.of_slot others (by rw [Sys.handled, type]; decide)
  | enter => exact same (step_other stepped .enter).1
  | noCommand => exact same (step_other stepped .noCommand).1
  | wait ready => exact same (step_other stepped (.wait ready)).1
  | sweep => exact same (step_other stepped .sweep).1

/-- With empty queues, a close request is answered by the end of its id. -/
theorem close_socket_ends {s : Server} {id : Int} {opaqueVal : UInt64} {result : Message} {o : Outcome} {r : Reply}
    (drained : Drained s) (handled : close_socket s id opaqueVal result o = .ok r) :
    r.type = SOCKET_CLOSE ∧ r.result.id = id ∧ r.result.opaqueVal = opaqueVal ∧ id_stage r.server id = .over := by
  simp only [close_socket, close_sent, drained (HASH_ID id), if_true] at handled
  by_cases stale : (s.slot (HASH_ID id)).type = .INVALID ∨ (s.slot (HASH_ID id)).id ≠ id
  · rw [if_pos stale] at handled
    cases handled
    exact ⟨rfl, rfl, rfl, stage_stale stale⟩
  · rw [if_neg stale] at handled
    obtain ⟨⟨t, message⟩, closed, ended⟩ := bind_ok handled
    cases ended
    obtain ⟨-, -, control, -, -⟩ := force_close_live (not_or.mp stale).1 closed
    exact ⟨rfl, rfl, rfl, stage_stale (.inl (congrArg Control.type control))⟩

end

section
variable {memory : Index → Socket} {alloc_id : Int} {result : Message} {t : Sys} {front back : List (Move Sys Action)}
  {m : Move Sys Action}

/-- In every run from an initialised server no slot has anything queued or is half
    closed, and a move that handles a close request is about to return `SOCKET_CLOSE`,
    for the id and the opaque value of the request, and has ended the id. -/
theorem closes_at_once (run : SysRun (initial memory alloc_id result) (front ++ m :: back) t) :
    Drained m.pre.server ∧ Unhalved m.pre.server ∧
      ∀ o id opaqueVal pipe, m.act = .command o → m.pre.server.pipe = request_close id opaqueVal :: pipe →
        m.post.pc = .sweeping SOCKET_CLOSE ∧ m.post.result.id = id ∧ m.post.result.opaqueVal = opaqueVal ∧
          id_stage m.post.server id = .over := by
  obtain ⟨before, stepped, -⟩ := run.split
  have drained := drained_run before
  have unhalved := (before.inductive_invariant (I := fun s => Unhalved s.server) (fun _ _ _ => unhalved_step)
    fun k => by simp [initial, initialize_server]).2
  refine ⟨drained, unhalved, ?_⟩
  intro o id opaqueVal pipe act waiting
  rw [act] at stepped
  obtain ⟨request, rest, r, -, next, handled, after⟩ := step_command stepped
  rw [waiting] at next
  cases next
  obtain ⟨type, same, owner, gone⟩ := close_socket_ends (s := { m.pre.server with pipe := pipe }) drained handled
  rw [after]
  refine ⟨?_, same, owner, gone⟩
  simp only [Sys.handled, proceed, type]
  decide

/-- A connection of which the kernel took two of three bytes is closed without the third. -/
def cutting : List Action :=
  conversing ++ [.sweep, .call (.server_send 2 [65,66,67]), .advance 0, .call (.server_close 8 2), .advance 0, .enter,
    .command { writes := [.accepted 2] }]

theorem closes_at_once_cutting : ∃ t, step (final step sized cutting) (.command {}) = .ok t ∧
    t.server.kernel.written 6 = [65,66] ∧ t.pc = .sweeping SOCKET_CLOSE ∧ t.result.id = 2 ∧ t.result.opaqueVal = 8 ∧
      id_stage t.server 2 = .over := by
  have run : SysRun sized _ _ := run_final step (by decide +kernel : (exec step sized cutting).isOk = true)
  have waiting : (final step sized cutting).server.pipe = [request_close 2 8] := by decide +kernel
  obtain ⟨t, closed⟩ := final_step step (by decide +kernel : (step (final step sized cutting) (.command {})).isOk = true)
  have written : ((step (final step sized cutting) (.command {})).map fun t => t.server.kernel.written 6) = .ok [65,66] := by
    decide +kernel
  rw [show step _ _ = .ok t from closed] at written
  have whole : SysRun sized (_ ++ _ :: []) t := run.append (.single closed)
  have ended := (closes_at_once whole).2.2 {} 2 8 [] rfl waiting
  exact ⟨t, closed, Except.ok.inj written, ended⟩

end

end Canna.Poll
