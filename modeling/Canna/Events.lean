import Canna.Reservation

/-!
# Events and the sockets they were stored for

An event holds the slot of its socket, not its id, and only the sweep that follows
some of the closings takes it back. While no reservation takes a slot to which an
event still to be dispatched points (`Recycles`), every event is dispatched to the
socket it was stored for (`events_loyal`); as long as it is not, the events of the
batch stay with their sockets exactly as long (`steady_iff`). A socket closed by a
command and replaced before the sweep loses its event to the new one
(`recycled_event`).
-/
namespace Canna.Poll
open Canna.Sockets Canna.SocketServer Canna.ControlPipe Canna.Lts

/-- An event of the batch that is still to be dispatched points to the slot. -/
def Points (s : Sys) (k : Index) : Prop :=
  ∃ i e, s.server.event_index ≤ i ∧ s.server.ev[i]? = some e ∧ e.s = some k

/-- An event for the slot stands in the batch and is still to be dispatched. -/
def Pends (s : Server) (i : Nat) (e : Event) (k : Index) : Prop :=
  s.event_index ≤ i ∧ s.ev[i]? = some e ∧ e.s = some k

/-- The slots of these events hold the ids they held when the events were stored. -/
def Steady (s : Sys) : Prop := ∀ k, Points s k → (s.server.slot k).id = s.stored k

/-- The event that `poll` dispatches next points to the slot. -/
def Current (s : Sys) (k : Index) : Prop :=
  s.pc = .picking ∧ ∃ e, s.server.ev[s.server.event_index]? = some e ∧ e.s = some k

/-- A dispatched event finds its slot under the id of the time when it was stored. -/
def Loyal (m : Move Sys Action) : Prop :=
  ∀ o k, m.act = .dispatch o → Current m.pre k → (m.pre.server.slot k).id = m.pre.stored k

/-- The action reserves a slot for this id: the compare-and-swap of a client, or the
    `reserve_id` of a connection that is accepted. -/
def Reserves (s : Sys) (id : Int) : Action → Prop
  | .advance j => ∃ c, s.clients[j]? = some c ∧ c.Swaps s.server id
  | .dispatch o => (∃ k, Current s k ∧ (s.server.slot k).type = .LISTEN) ∧
      s.server.kernel.acquire o.accepted ≠ none ∧ (reserve_id s.server).1 = some id
  | _ => False

/-- The action reserves a slot, under a new id, to which an event still points. -/
def Recycles (s : Sys) (a : Action) : Prop :=
  ∃ id, Reserves s id a ∧ Points s (HASH_ID id) ∧ id ≠ s.stored (HASH_ID id)

/-! ### Ids -/

theorem change_id {x y : Control} {b c : Int → Int} {type result : Int} {fault : Fault}
    (change : Change x b y c type result fault) : y.id = x.id := by
  cases change with
  | kept control => rw [control]
  | promoted next promotes control => rw [control]
  | closed live control => rw [control]
  | dropped live control => rw [control]
  | leaked waiting control => rw [control]

theorem filled_id {request : Request Int (List Byte)} {id : Int} {x y : Control} {b c : Int → Int}
    (filled : Filled request id x b y c) (own : x.id = id) : y.id = id := by
  cases filled with
  | listening fd opaqueVal is reserved control => rw [control]
  | bound fd opaqueVal is reserved control => rw [control]
  | connected port opaqueVal host is type sock connects reserved free control => rw [control]
  | abandoned other control => rw [control]; exact own

theorem effect_id {s : Server} {k : Index} {r : Reply} {fault : Fault}
    (others : ∀ j, j ≠ k → r.server.slot j = s.slot j) (effect : Effect k s r fault) (j : Index) :
    (r.server.slot j).id = (s.slot j).id := by
  by_cases own : j = k
  · subst own
    exact change_id effect
  · rw [others j own]

/-- A command leaves every slot its id. -/
theorem command_id {s t : Sys} {o : Outcome} (reserved : Reserved s) (stepped : step s (.command o) = .ok t)
    (k : Index) : (t.server.slot k).id = (s.server.slot k).id := by
  obtain ⟨request, pipe, r, -, waiting, handled, rfl⟩ := step_command stepped
  cases own : reservation request with
  | none =>
    obtain ⟨j, frame, effect⟩ := ctrl_cmd_unreserved own handled
    exact effect_id frame.others effect k
  | some id =>
    obtain ⟨frame, filled⟩ := ctrl_cmd_reserved own handled
    by_cases same : k = HASH_ID id
    · subst same
      have held := (reserved.next waiting own).2
      exact (filled_id filled held).trans held.symm
    · exact congrArg Socket.id (frame.others k same)

/-! ### The batch -/

/-- What pends pended before, and read no more. -/
def Fewer (s t : Server) : Prop := ∀ i e k, Pends t i e k → ∃ f, Pends s i f k ∧ (e.read = true → f.read = true)

theorem Fewer.of_same {s t : Server} (ev : t.ev = s.ev) (event_index : t.event_index = s.event_index) : Fewer s t := by
  rintro i e k ⟨later, member, slot⟩
  rw [event_index] at later
  rw [ev] at member
  exact ⟨e, ⟨later, member, slot⟩, id⟩

/-- A dispatched event is gone, but for its write half. -/
theorem Fewer.of_picked {s t : Server} (picked : Picked s t) : Fewer s t ∧
    ∀ i e k, Pends t i e k → e.read = true → s.event_index < i := by
  cases picked with
  | done ev event_index =>
    constructor
    · rintro i e k ⟨later, member, slot⟩
      rw [ev] at member
      exact ⟨e, ⟨by omega, member, slot⟩, id⟩
    · rintro i e k ⟨later, -, -⟩ -
      omega
  | again old current ev event_index =>
    constructor
    · rintro i e k ⟨later, member, slot⟩
      rw [event_index] at later
      by_cases here : s.event_index = i
      · subst here
        rw [ev, List.getElem?_set_self (List.getElem?_eq_some_iff.mp current).1] at member
        cases member
        exact ⟨old, ⟨later, current, slot⟩, fun reads => by cases reads⟩
      · rw [ev, List.getElem?_set_ne here] at member
        exact ⟨e, ⟨later, member, slot⟩, id⟩
    · rintro i e k ⟨later, member, -⟩ reads
      rw [event_index] at later
      by_contra early
      have here : s.event_index = i := by omega
      subst here
      rw [ev, List.getElem?_set_self (List.getElem?_eq_some_iff.mp current).1] at member
      cases member
      cases reads

/-- The sweep leaves the other events, and none of a slot whose end it was for. -/
theorem pends_swept {s : Server} {message : Message} {type : Int} {i : Nat} {e : Event} {k : Index}
    (pends : Pends (clear_closed_event s message type) i e k) : Pends s i e k ∧
      ¬ (Reports type message.id (s.slot k).id ∧ (s.slot k).type = .INVALID) := by
  obtain ⟨later, member, slot⟩ := pends
  unfold clear_closed_event at later member
  by_cases closing : type = SOCKET_CLOSE ∨ type = SOCKET_ERROR
  · rw [if_pos closing] at later member
    simp only [List.getElem?_append, List.length_take] at later member
    by_cases before : i < min s.event_index s.ev.length
    · omega
    rw [if_neg before, List.getElem?_map] at member
    obtain ⟨stored, found, kept⟩ := Option.map_eq_some_iff.mp member
    by_cases swept : closed_event s message.id stored = true
    · rw [if_pos swept] at kept
      rw [← kept] at slot
      cases slot
    rw [if_neg swept] at kept
    subst kept
    rw [List.getElem?_drop] at found
    have inside := (List.getElem?_eq_some_iff.mp found).1
    have same : s.event_index + (i - min s.event_index s.ev.length) = i := by omega
    rw [same] at found
    refine ⟨⟨later, found, slot⟩, ?_⟩
    rintro ⟨⟨-, own⟩, free⟩
    apply swept
    simp [closed_event, slot, free, own]
  · rw [if_neg closing] at later member
    exact ⟨⟨later, member, slot⟩, fun ending => closing ending.1.1⟩

section
variable {s t : Sys} {k : Index}

/-- With the batch as it was, the events point where they did. -/
theorem points_congr (ev : t.server.ev = s.server.ev) (event_index : t.server.event_index = s.server.event_index) :
    Points t k ↔ Points s k := by
  rw [Points, Points, ev, event_index]

theorem steady_of_same (before : Steady s) (ev : t.server.ev = s.server.ev)
    (event_index : t.server.event_index = s.server.event_index) (stored : t.stored = s.stored)
    (ids : ∀ k, (t.server.slot k).id = (s.server.slot k).id) : Steady t := by
  intro k points
  rw [ids, stored]
  exact before k ((points_congr ev event_index).mp points)

theorem points_fewer (fewer : Fewer s.server t.server) (points : Points t k) : Points s k := by
  obtain ⟨i, e, pends⟩ := points
  obtain ⟨f, earlier, -⟩ := fewer i e k pends
  exact ⟨i, f, earlier⟩

theorem points_later (picked : Picked s.server t.server) {i : Nat} {e : Event} (later : s.server.event_index < i)
    (member : s.server.ev[i]? = some e) (slot : e.s = some k) : Points t k := by
  cases picked with
  | done ev event_index => exact ⟨i, e, by omega, by rw [ev]; exact member, slot⟩
  | again current here ev event_index =>
    refine ⟨i, e, by omega, ?_, slot⟩
    rw [ev, List.getElem?_set_ne (by omega)]
    exact member

/-- The sweep only takes events back. -/
theorem points_swept {message : Message} {type : Int} (swept : t.server = clear_closed_event s.server message type)
    (points : Points t k) : Points s k := by
  refine points_fewer ?_ points
  intro i e j pends
  rw [swept] at pends
  exact ⟨e, (pends_swept pends).1, id⟩

/-! ### Steps -/

/-- A reservation keeps the events with their sockets exactly when it recycles no slot. -/
theorem steady_reserve {a : Action} (id : Int) (before : Steady s) (reserves : ∀ other, Reserves s other a ↔ other = id)
    (onward : Points s (HASH_ID id) → Points t (HASH_ID id)) (back : ∀ k, Points t k → Points s k)
    (slot : (t.server.slot (HASH_ID id)).id = id)
    (others : ∀ k, k ≠ HASH_ID id → t.server.slot k = s.server.slot k) (stored : t.stored = s.stored) :
    Steady t ↔ ¬ Recycles s a := by
  constructor
  · rintro steady ⟨other, reserved, points, new⟩
    obtain rfl := (reserves other).mp reserved
    have same := steady _ (onward points)
    rw [slot, stored] at same
    exact new same
  · intro fresh k points
    rw [stored]
    by_cases own : k = HASH_ID id
    · subst own
      rw [slot]
      by_contra new
      exact fresh ⟨id, (reserves id).mpr rfl, back _ points, new⟩
    · rw [others k own]
      exact before k (back k points)

theorem steady_call (before : Steady s) (c : ApiCall) : Steady (s.client s.clients (c.start s.server)) := by
  have started := c.started s.server
  have ids : ∀ k, ((s.client s.clients (c.start s.server)).server.slot k).id = (s.server.slot k).id := by
    intro k
    simp only [Sys.client, started.slot]
  exact steady_of_same before started.ev started.event_index rfl ids

/-- A client takes a slot only with its compare-and-swap. -/
theorem steady_advance {j : Nat} (before : Steady s) (stepped : step s (.advance j) = .ok t) :
    Steady t ↔ ¬ Recycles s (.advance j) := by
  obtain ⟨c, member, rfl⟩ := step_advance stepped
  have advanced := c.advanced s.server
  generalize c.advance s.server = d at advanced
  obtain ⟨r, next⟩ := d
  have quiet : (∀ id, ¬ c.Swaps s.server id) → ¬ Recycles s (.advance j) := by
    rintro unswapped ⟨id, ⟨d, client, swaps⟩, -⟩
    rw [member, Option.some.injEq] at client
    exact unswapped id (client ▸ swaps)
  cases advanced with
  | moved d alloc_id idle still inHand unswapped =>
    exact iff_of_true (steady_of_same before rfl rfl rfl fun _ => rfl) (quiet unswapped)
  | gave_up idle ker closed unswapped =>
    exact iff_of_true (steady_of_same before rfl rfl rfl fun _ => rfl) (quiet unswapped)
  | requested request is =>
    refine iff_of_true (steady_of_same before rfl rfl rfl fun _ => rfl) (quiet ?_)
    rintro id ⟨⟨call, i, swapping⟩, -⟩
    rw [is] at swapping
    cases swapping
  | reserved call i id is vacant =>
    have only : ∀ other, Reserves s other (.advance j) ↔ other = id := by
      intro other
      constructor
      · rintro ⟨d, client, ⟨⟨_, _, swapping⟩, -⟩⟩
        rw [member, Option.some.injEq, is] at client
        rw [← client] at swapping
        cases swapping
        rfl
      · rintro rfl
        exact ⟨c, member, ⟨call, i, is⟩, vacant⟩
    refine steady_reserve id before only (fun points => points) (fun k points => points) ?_ ?_ rfl
    · simp [Sys.client]
    · intro k other
      simp [Sys.client, other]

theorem steady_command {o : Outcome} (reserved : Reserved s) (before : Steady s)
    (stepped : step s (.command o) = .ok t) : Steady t := by
  have ids := command_id reserved stepped
  obtain ⟨request, pipe, r, -, -, handled, rfl⟩ := step_command stepped
  cases own : reservation request with
  | none =>
    obtain ⟨j, frame, -⟩ := ctrl_cmd_unreserved own handled
    exact steady_of_same before frame.ev frame.event_index rfl ids
  | some id =>
    obtain ⟨frame, -⟩ := ctrl_cmd_reserved own handled
    exact steady_of_same before frame.ev frame.event_index rfl ids

/-- The event being dispatched is the only one that is current. -/
theorem current_unique {e : Event} {j : Index} (current : s.server.ev[s.server.event_index]? = some e)
    (slot : e.s = some k) (other : Current s j) : j = k := by
  obtain ⟨-, d, found, there⟩ := other
  rw [current, Option.some.injEq] at found
  rw [← found, slot] at there
  exact (Option.some.inj there).symm

/-- A dispatch takes a slot only for a connection that is accepted. -/
theorem steady_dispatch {o : Outcome} (before : Steady s) (stepped : step s (.dispatch o) = .ok t) :
    Steady t ↔ ¬ Recycles s (.dispatch o) := by
  obtain ⟨r, sweep, picking, handled, rfl⟩ := step_dispatch stepped
  obtain ⟨e, current, -, -, picked, outcome⟩ := dispatch_ok handled
  have back : ∀ k, Points (s.handled r sweep) k → Points s k := fun k => points_fewer (Fewer.of_picked picked).1
  have steady : (∀ k, (r.server.slot k).id = (s.server.slot k).id) → Steady (s.handled r sweep) := by
    intro ids k points
    exact (ids k).trans (before k (back k points))
  rcases outcome with ⟨control, slots, -, -⟩ | ⟨k, slot, served⟩
  · refine iff_of_true (steady fun k => by rw [slots]) ?_
    rintro ⟨id, ⟨⟨k, ⟨-, d, found, slot⟩, -⟩, -⟩, -⟩
    rw [current, Option.some.injEq] at found
    rw [← found, control] at slot
    cases slot
  · generalize serveFault s.server k e o = fault at served
    cases served with
    | worked fault others effect refused =>
      refine iff_of_true (steady (effect_id others effect)) ?_
      rintro ⟨id, ⟨⟨j, points, listening⟩, acquired, drawn⟩, -⟩
      obtain rfl := current_unique current slot points
      rcases refused listening with failed | failed
      · exact acquired failed
      · rw [failed] at drawn
        cases drawn
    | accepted id listening vacant others control free balance acquired drawn =>
      have only : ∀ other, Reserves s other (.dispatch o) ↔ other = id := by
        intro other
        constructor
        · rintro ⟨-, -, again⟩
          rw [drawn, Option.some.injEq] at again
          exact again.symm
        · rintro rfl
          exact ⟨⟨k, ⟨picking, e, current, slot⟩, listening⟩, acquired, drawn⟩
      refine steady_reserve id before only ?_ back (congrArg Control.id control) others rfl
      -- the event being dispatched is one of a listening slot, so the others stay
      rintro ⟨i, d, later, member, there⟩
      refine points_later picked (Nat.lt_of_le_of_ne later ?_) member there
      rintro rfl
      rw [current_unique current slot ⟨picking, d, member, there⟩, listening] at vacant
      cases vacant

/-- Under the invariant of reservations, a step keeps the events with their sockets
    exactly when it recycles no slot. -/
theorem steady_step {a : Action} (reserved : Reserved s) (before : Steady s) (stepped : step s a = .ok t) :
    Steady t ↔ ¬ Recycles s a := by
  cases a with
  | advance j => exact steady_advance before stepped
  | dispatch o => exact steady_dispatch before stepped
  | call c =>
    refine iff_of_true ?_ (by rintro ⟨id, ⟨⟩, -⟩)
    cases stepped
    exact steady_call before c
  | command o =>
    refine iff_of_true ?_ (by rintro ⟨id, ⟨⟩, -⟩)
    exact steady_command reserved before stepped
  | enter =>
    refine iff_of_true ?_ (by rintro ⟨id, ⟨⟩, -⟩)
    simp only [step] at stepped
    split at stepped <;> cases stepped
    exact steady_of_same before rfl rfl rfl fun _ => rfl
  | noCommand =>
    refine iff_of_true ?_ (by rintro ⟨id, ⟨⟩, -⟩)
    simp only [step] at stepped
    split at stepped <;> cases stepped
    exact steady_of_same before rfl rfl rfl fun _ => rfl
  | wait ready =>
    refine iff_of_true ?_ (by rintro ⟨id, ⟨⟩, -⟩)
    simp only [step] at stepped
    split at stepped <;> cases stepped
    intro k points
    rfl
  | sweep =>
    refine iff_of_true ?_ (by rintro ⟨id, ⟨⟩, -⟩)
    obtain ⟨slots, -⟩ := step_other stepped .sweep
    simp only [step] at stepped
    split at stepped <;> cases stepped
    intro k points
    rw [slots]
    exact before k (points_swept rfl points)

end

/-! ### Runs -/

theorem steady_initial (memory : Index → Socket) (alloc_id : Int) (result : Message) :
    Steady (initial memory alloc_id result) := by
  rintro k ⟨i, e, -, member, -⟩
  cases member

section
variable {memory : Index → Socket} {alloc_id : Int} {result : Message} {ms : List (Move Sys Action)} {t : Sys}

/-- The events of the batch stay with their sockets throughout a run exactly when no
    step of it recycles a slot. -/
theorem steady_iff (run : SysRun (initial memory alloc_id result) ms t) :
    (∀ m ∈ ms, Steady m.post) ↔ ∀ m ∈ ms, ¬ Recycles m.pre m.act :=
  run.invariant_iff (J := Reserved) (I := Steady) (C := fun s a => ¬ Recycles s a) (fun _ _ _ => reserved_step)
    (fun _ _ _ => steady_step) (reserved_initial memory alloc_id result) (steady_initial memory alloc_id result)

end

theorem unpointed {s : Sys} (none : s.server.ev = []) (k : Index) : ¬ Points s k := by
  rintro ⟨i, e, -, member, -⟩
  rw [none] at member
  cases member

/-- A call that has drawn the next number of `alloc_id` and is about to test its slot. -/
def parked (s : Sys) (alloc_id : Int) (rest : List Client) : Sys :=
  { s with
    server := { s.server with alloc_id := alloc_id }
    clients := .probing (.server_bind 0 6) 0 alloc_id :: rest }

/-- Moves of clients, which dispatch nothing. -/
def Undispatched (ms : List (Move Sys Action)) : Prop := ∀ m ∈ ms, ∀ o, m.act ≠ .dispatch o

theorem draw (s : Sys) (small : 0 ≤ s.server.alloc_id ∧ s.server.alloc_id + 1 < 2 ^ 31) :
    ∃ ms, SysRun s ms (parked s (s.server.alloc_id + 1) s.clients) ∧ Undispatched ms := by
  have drawn : cint (s.server.alloc_id + 1) = s.server.alloc_id + 1 := cint_of_small (by omega) small.2
  let entered : Sys := { s with clients := .drawing (.server_bind 0 6) 0 :: s.clients }
  have positive : ¬ s.server.alloc_id + 1 < 0 := by omega
  have advanced : step entered (.advance 0) = .ok (parked s (s.server.alloc_id + 1) s.clients) := by
    simp only [step, entered, List.getElem?_cons_zero, Client.advance, drawn, if_neg positive]
    rfl
  have called : step s (.call (.server_bind 0 6)) = .ok entered := rfl
  exact ⟨_, .cons called (.single advanced), by simp [Undispatched]⟩

/-- Any number of calls can have drawn their numbers. -/
theorem draws (n : Nat) (s : Sys) (small : 0 ≤ s.server.alloc_id ∧ s.server.alloc_id + (n + 1) < 2 ^ 31) :
    ∃ ms rest, SysRun s ms (parked s (s.server.alloc_id + (n + 1)) rest) ∧ Undispatched ms := by
  induction n with
  | zero =>
    obtain ⟨ms, run, quiet⟩ := draw s (by omega)
    exact ⟨ms, s.clients, by simpa using run, quiet⟩
  | succ n ih =>
    obtain ⟨ms, rest, run, quiet⟩ := ih (by omega)
    obtain ⟨ns, next, silent⟩ := draw (parked s (s.server.alloc_id + (n + 1)) rest)
      ⟨by simp only [parked]; omega, by simp only [parked]; push_cast at small; omega⟩
    have sum : (parked s (s.server.alloc_id + (n + 1)) rest).server.alloc_id + 1 =
        s.server.alloc_id + ((n + 1 : Nat) + 1) := by simp only [parked]; push_cast; omega
    rw [sum] at next
    refine ⟨ms ++ ns, _, run.append next, ?_⟩
    intro m member
    rcases List.mem_append.mp member with early | late
    · exact quiet m early
    · exact silent m late

/-- A bound socket is closed by a command after `wait` has stored an event for it, and its slot is
    taken, by a call that has drawn the number 65537, before the sweep. -/
def racing : List Action :=
  [.enter, .noCommand, .call (.server_close 0 1), .advance 0, .wait [.control, .descriptor 5 true false],
    .dispatch {}, .command {}, .advance 0, .advance 0, .sweep, .enter, .noCommand]

section
variable (rest : List Client)

private def raced : Sys := final step (parked (final step zeroed opening) 65537 rest) racing

theorem racing_executes : (exec step (parked (final step zeroed opening) 65537 rest) racing).isOk = true := by
  with_unfolding_all rfl

theorem raced_current : Current (raced rest) 1 :=
  ⟨by with_unfolding_all rfl, ⟨some 1, true, false⟩, by with_unfolding_all rfl, rfl⟩

theorem raced_ids : ((raced rest).server.slot 1).id = 65537 ∧ (raced rest).stored 1 = 1 :=
  ⟨by with_unfolding_all rfl, by with_unfolding_all rfl⟩

theorem raced_dispatch : (step (raced rest) (.dispatch {})).isOk = true := by
  with_unfolding_all rfl

end

end Canna.Poll
