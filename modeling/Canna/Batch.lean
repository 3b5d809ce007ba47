import Canna.PollTable
import Canna.Identity
import Canna.Closing

/-!
# Batches between calls of `poll`

Here the public calls run only between calls of `poll` (`Between`), and `epoll_wait`
reports every registered slot at most once (`Honest`). Then an event still to be
dispatched that reports something to read points to a watched slot, but for the
slot whose end is about to be swept, and to no slot that another event points to
(`Tidy`). So a slot that is recycled inherits no event that reads.
-/
namespace Canna.Poll
open Canna.Sockets Canna.SocketServer Canna.ControlPipe Canna.Lts
open Canna.ControlPipe.Request

/-- The public calls run between calls of `poll`. -/
def Between (s : Sys) : Action → Prop
  | .call _ => ∃ type, s.pc = .outside type
  | .advance _ => ∃ type, s.pc = .outside type
  | _ => True

instance (s : Sys) (a : Action) : Decidable (Between s a) :=
  have outside : Decidable (∃ type, s.pc = .outside type) :=
    match s.pc with
    | .outside type => isTrue ⟨type, rfl⟩
    | .looping | .picking | .sweeping _ => isFalse (by simp)
  match a with
  | .call _ => outside
  | .advance _ => outside
  | .enter | .command _ | .noCommand | .wait _ | .dispatch _ | .sweep => isTrue trivial

/-- The descriptor that is found ready. -/
def ready_fd : Readiness → Option Int
  | .control => none
  | .descriptor fd _ _ => some fd

/-- `epoll_wait` finds each descriptor at most once. -/
def Once : Action → Prop
  | .wait ready => (ready.filterMap ready_fd).Nodup
  | _ => True

instance : DecidablePred Once
  | .wait ready => inferInstanceAs (Decidable (ready.filterMap ready_fd).Nodup)
  | .call _ | .advance _ | .enter | .command _ | .noCommand | .dispatch _ | .sweep => isTrue trivial

/-- `epoll_wait` finds descriptors of registered slots, each at most once. -/
def Honest (s : Sys) : Action → Prop
  | .wait ready => (ready.filterMap ready_fd).Nodup ∧
      ∀ fd ∈ ready.filterMap ready_fd, ∀ e, s.server.kernel.epoll fd = some e →
        Watched (s.server.slot e.ud).type ∧ (s.server.slot e.ud).fd = fd
  | _ => True

instance (s : Sys) (a : Action) : Decidable (Honest s a) :=
  match a with
  | .wait ready => inferInstanceAs (Decidable ((ready.filterMap ready_fd).Nodup ∧
      ∀ fd ∈ ready.filterMap ready_fd, ∀ e ∈ s.server.kernel.epoll fd,
        Watched (s.server.slot e.ud).type ∧ (s.server.slot e.ud).fd = fd))
  | .call _ | .advance _ | .enter | .command _ | .noCommand | .dispatch _ | .sweep => isTrue trivial

/-- The public calls run between calls of `poll`, on a kernel that reports registered
    slots. -/
def Calm (s : Sys) (a : Action) : Prop := Between s a ∧ Honest s a

instance (s : Sys) (a : Action) : Decidable (Calm s a) := inferInstanceAs (Decidable (_ ∧ _))

/-- The end of the connection in the slot is about to be swept. -/
def Ending (s : Sys) (k : Index) : Prop :=
  ∃ type, s.pc = .sweeping type ∧ Reports type s.result.id (s.server.slot k).id ∧ (s.server.slot k).type = .INVALID

structure Tidy (s : Sys) : Prop where
  distinct : ∀ i j e f k, Pends s.server i e k → Pends s.server j f k → i = j
  watched : ∀ i e k, Pends s.server i e k → e.read = true → Watched (s.server.slot k).type ∨ Ending s k

/-! ### Steps -/

section
variable {s t : Sys}

/-- Outside the sweep every event that reads points to a watched slot. -/
theorem Tidy.reads (before : Tidy s) (unswept : ∀ type, s.pc ≠ .sweeping type) {i : Nat} {e : Event} {k : Index}
    (pends : Pends s.server i e k) (reads : e.read = true) : Watched (s.server.slot k).type := by
  rcases before.watched i e k pends reads with watched | ⟨type, sweeping, -⟩
  · exact watched
  · exact absurd sweeping (unswept type)

theorem Tidy.of_fewer (before : Tidy s) (fewer : Fewer s.server t.server) (watched : ∀ i e k, Pends t.server i e k →
    e.read = true → Watched (t.server.slot k).type ∨ Ending t k) : Tidy t where
  distinct i j e f k one two := by
    obtain ⟨e', one', -⟩ := fewer i e k one
    obtain ⟨f', two', -⟩ := fewer j f k two
    exact before.distinct i j e' f' k one' two'
  watched := watched

/-- The events pend as they did, and the watched slots are still watched or about to be
    swept. -/
theorem Tidy.of_slots (before : Tidy s) (unswept : ∀ type, s.pc ≠ .sweeping type) (ev : t.server.ev = s.server.ev)
    (event_index : t.server.event_index = s.server.event_index)
    (slots : ∀ k, Watched (s.server.slot k).type → Watched (t.server.slot k).type ∨ Ending t k) : Tidy t := by
  have fewer := Fewer.of_same ev event_index
  refine before.of_fewer fewer ?_
  intro i e k pends reads
  obtain ⟨f, earlier, still⟩ := fewer i e k pends
  exact slots k (before.reads unswept earlier (still reads))

theorem tidy_call (before : Tidy s) {c : ApiCall} (between : Between s (.call c)) :
    Tidy (s.client s.clients (c.start s.server)) := by
  have started := c.started s.server
  obtain ⟨type, outside⟩ := between
  refine before.of_slots (by simp [outside]) started.ev started.event_index ?_
  intro k watched
  left
  simp only [Sys.client, started.slot]
  exact watched

/-- A client takes a free slot, which no event reads. -/
theorem tidy_advance {j : Nat} (before : Tidy s) (between : Between s (.advance j))
    (stepped : step s (.advance j) = .ok t) : Tidy t := by
  obtain ⟨type, outside⟩ := between
  obtain ⟨c, member, rfl⟩ := step_advance stepped
  have advanced := c.advanced s.server
  generalize c.advance s.server = d at advanced
  obtain ⟨r, next⟩ := d
  cases advanced with
  | moved d alloc_id => exact before.of_slots (by simp [outside]) rfl rfl fun k => .inl
  | gave_up idle ker closed => exact before.of_slots (by simp [outside]) rfl rfl fun k => .inl
  | requested request is => exact before.of_slots (by simp [outside]) rfl rfl fun k => .inl
  | reserved call i id is vacant =>
    refine before.of_slots (by simp [outside]) rfl rfl ?_
    intro k watched
    have other : k ≠ HASH_ID id := by
      rintro rfl
      rw [vacant] at watched
      exact watched
    left
    simpa [Sys.client, reserve, other] using watched

/-- A handler that closes a watched slot leaves it to the sweep, unless a read fails. -/
theorem turn_watched {k : Index} {r : Reply} {fault : Fault} (turn : Turns k s.server r) (effect : Effect k s.server r fault)
    (sound : fault ≠ .silent) (watched : Watched (s.server.slot k).type) :
    Watched (r.server.slot k).type ∨ Ending (s.handled r true) k := by
  cases turn with
  | idle same => exact .inl (same ▸ watched)
  | kept valid same =>
    have type : (r.server.slot k).type = (s.server.slot k).type := congrArg Control.type same.1
    exact .inl (type ▸ watched)
  | closed live control =>
    have free : (r.server.slot k).type = .INVALID := congrArg Control.type control
    have id : (r.server.slot k).id = (s.server.slot k).id := congrArg Control.id control
    have reports := change_reports effect live sound free
    refine .inr ⟨r.type, ?_, ?_, free⟩
    · have returned : r.type ≠ -1 := by
        rcases reports.1 with type | type <;> rw [type] <;> decide
      simp only [Sys.handled, proceed, if_neg returned, if_true]
    · show Reports r.type r.result.id (r.server.slot k).id
      rw [id]
      exact reports
  | connected connecting same =>
    have type : (r.server.slot k).type = .CONNECTED := congrArg Control.type same.1
    rw [type]
    exact .inl trivial

theorem tidy_command {o : Outcome} (reserved : Reserved s) (before : Tidy s) (stepped : step s (.command o) = .ok t) :
    Tidy t := by
  obtain ⟨request, pipe, r, looping, waiting, handled, rfl⟩ := step_command stepped
  have tidy : ∀ k, Frame k { s.server with pipe := pipe } r.server →
      (Watched (s.server.slot k).type → Watched (r.server.slot k).type ∨ Ending (s.handled r true) k) →
      Tidy (s.handled r true) := by
    intro k frame own
    refine before.of_slots (by simp [looping]) frame.ev frame.event_index ?_
    intro j watched
    by_cases same : j = k
    · subst same
      exact own watched
    · have slot : (s.handled r true).server.slot j = s.server.slot j := frame.others j same
      rw [slot]
      exact .inl watched
  cases own : reservation request with
  | some id =>
    obtain ⟨frame, -⟩ := ctrl_cmd_reserved own handled
    refine tidy _ frame ?_
    intro watched
    rw [(reserved.next waiting own).1] at watched
    exact watched.elim
  | none =>
    by_cases start : ∃ id opaqueVal, request = request_start id opaqueVal
    · obtain ⟨id, opaqueVal, rfl⟩ := start
      cases handled
      obtain ⟨frame, -⟩ := start_socket_effect { s.server with pipe := pipe } id opaqueVal o
      refine tidy _ frame ?_
      intro watched
      left
      cases (start_socket_answered { s.server with pipe := pipe } id opaqueVal o).1 with
      | ignored slot => exact slot ▸ watched
      | refused idle => exact absurd watched (unwatched_of_waiting idle)
      | started same idle => exact absurd watched (unwatched_of_waiting idle)
      | transferred same connected slot =>
        rw [slot]
        exact watched
    · have other : ∀ id opaqueVal, request ≠ request_start id opaqueVal :=
        fun id opaqueVal same => start ⟨id, opaqueVal, same⟩
      obtain ⟨k, frame, effect, turn⟩ := ctrl_cmd_turn own other handled
      exact tidy k frame (turn_watched turn effect (by decide))

/-- The other events that read are those of other slots, which stay as they are. -/
theorem tidy_dispatch {o : Outcome} (before : Tidy s) (stepped : step s (.dispatch o) = .ok t) : Tidy t := by
  obtain ⟨r, sweep, picking, handled, rfl⟩ := step_dispatch stepped
  obtain ⟨e, current, -, -, picked, -⟩ := dispatch_ok handled
  obtain ⟨d, same, outcome⟩ := dispatch_handled handled
  rw [current, Option.some.injEq] at same
  subst same
  obtain ⟨fewer, later⟩ := Fewer.of_picked picked
  refine before.of_fewer fewer ?_
  intro i f j pends reads
  obtain ⟨g, earlier, still⟩ := fewer i f j pends
  have watched := before.reads (by simp [picking]) earlier (still reads)
  left
  show Watched (r.server.slot j).type
  rcases outcome with ⟨-, slot, -, -⟩ | ⟨k, slot, served⟩
  · rwa [slot]
  have other : j ≠ k := by
    rintro rfl
    have now : Pends s.server s.server.event_index e j := ⟨Nat.le_refl _, current, slot⟩
    have position := before.distinct i _ g e j earlier now
    have after := later i f j pends reads
    omega
  cases served with
  | passed free slot => rwa [slot]
  | turned others => rwa [others j other]
  | delivered others => rwa [others j other]
  | refused slot => rwa [slot]
  | accepted id listening vacant others =>
    have apart : j ≠ HASH_ID id := by
      rintro rfl
      rw [vacant] at watched
      exact watched
    rwa [others j apart]

/-- The event of a slot is that of the descriptor it is registered under. -/
theorem event_slot {ker : Kernel} {x : Readiness} {e : Event} {k : Index} (stored : ker.event x = some e)
    (slot : e.s = some k) : ∃ fd out, ready_fd x = some fd ∧ ker.epoll fd = some ⟨k, out⟩ := by
  cases x with
  | control =>
    cases stored
    cases slot
  | descriptor fd readable writable =>
    obtain ⟨registration, entry, rfl⟩ := Option.map_eq_some_iff.mp stored
    cases slot
    exact ⟨fd, registration.out, rfl, entry⟩

/-- No two events that `wait` stores are for the same slot. -/
theorem wait_distinct {ready : List Readiness} (honest : Honest s (.wait ready)) :
    (Poll.wait s.server.kernel ready).Pairwise fun e f => ∀ k, e.s = some k → f.s ≠ some k := by
  obtain ⟨once, registered⟩ := honest
  refine List.Pairwise.sublist (List.take_sublist _ _) ?_
  rw [List.pairwise_filterMap]
  rw [List.Nodup, List.pairwise_filterMap] at once
  refine once.imp_of_mem ?_
  intro x y first second apart e stored f also k slot same
  obtain ⟨fd, out, found, entry⟩ := event_slot stored slot
  obtain ⟨fd', out', found', entry'⟩ := event_slot also same
  have here := (registered fd (List.mem_filterMap.mpr ⟨x, first, found⟩) _ entry).2
  have there := (registered fd' (List.mem_filterMap.mpr ⟨y, second, found'⟩) _ entry').2
  exact apart fd found fd' found' (here.symm.trans there)

/-- What `epoll_wait` reports. -/
theorem tidy_wait {ready : List Readiness} (honest : Honest s (.wait ready)) (stepped : step s (.wait ready) = .ok t) :
    Tidy t := by
  simp only [step] at stepped
  split at stepped <;> cases stepped
  have distinct := wait_distinct honest
  constructor
  · rintro i j e f k ⟨-, one, slot⟩ ⟨-, two, same⟩
    obtain ⟨inside, rfl⟩ := List.getElem?_eq_some_iff.mp one
    obtain ⟨within, rfl⟩ := List.getElem?_eq_some_iff.mp two
    rw [List.pairwise_iff_getElem] at distinct
    rcases Nat.lt_trichotomy i j with before | equal | after
    · exact absurd same (distinct i j inside within before k slot)
    · exact equal
    · exact absurd slot (distinct j i within inside after k same)
  · rintro i e k ⟨-, member, slot⟩ -
    obtain ⟨x, first, stored⟩ := List.mem_filterMap.mp (List.mem_of_mem_take (List.mem_of_getElem? member))
    obtain ⟨fd, out, found, entry⟩ := event_slot stored slot
    exact .inl (honest.2 fd (List.mem_filterMap.mpr ⟨x, first, found⟩) _ entry).1

theorem tidy_step {a : Action} (reserved : Reserved s) (before : Tidy s) (between : Between s a) (honest : Honest s a)
    (stepped : step s a = .ok t) : Tidy t := by
  cases a with
  | call c =>
    cases stepped
    exact tidy_call before between
  | advance j => exact tidy_advance before between stepped
  | command o => exact tidy_command reserved before stepped
  | dispatch o => exact tidy_dispatch before stepped
  | wait ready => exact tidy_wait honest stepped
  | enter =>
    simp only [step] at stepped
    split at stepped <;> cases stepped
    rename_i outside
    exact before.of_slots (by simp [outside]) rfl rfl fun k => .inl
  | noCommand =>
    simp only [step] at stepped
    split at stepped <;> cases stepped
    rename_i looping
    exact before.of_slots (by simp [looping]) rfl rfl fun k => .inl
  | sweep =>
    simp only [step] at stepped
    split at stepped <;> cases stepped
    rename_i type sweeping
    have slot : (clear_closed_event s.server s.result type).slot = s.server.slot := by
      unfold clear_closed_event
      split <;> rfl
    refine before.of_fewer (fun i e k pends => ⟨e, (pends_swept pends).1, id⟩) ?_
    intro i e k pends reads
    obtain ⟨earlier, other⟩ := pends_swept pends
    rcases before.watched i e k earlier reads with watched | ⟨type', same, reports, free⟩
    · left
      rwa [slot]
    · rw [sweeping, Pc.sweeping.injEq] at same
      subst same
      exact absurd ⟨reports, free⟩ other

end

theorem tidy_initial (memory : Index → Socket) (alloc_id : Int) (result : Message) :
    Tidy (initial memory alloc_id result) := by
  constructor
  · rintro i j e f k ⟨-, member, -⟩
    cases member
  · rintro i e k ⟨-, member, -⟩
    cases member

theorem tidy_run {memory : Index → Socket} {alloc_id : Int} {result : Message} {ms : List (Move Sys Action)} {t : Sys}
    (run : SysRun (initial memory alloc_id result) ms t) (calm : ∀ m ∈ ms, Calm m.pre m.act) : Tidy t := by
  have both := run.invariant (I := fun s => Reserved s ∧ Tidy s) (C := Calm)
    (fun _ _ _ calm before stepped => ⟨reserved_step before.1 stepped, tidy_step before.1 before.2 calm.1 calm.2 stepped⟩)
    ⟨reserved_initial memory alloc_id result, tidy_initial memory alloc_id result⟩ calm
  exact both.2.2

end Canna.Poll
