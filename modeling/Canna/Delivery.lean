import Canna.Batch
import Canna.PollSet

/-!
# Deliveries and starts

What `poll` delivers for a listening id, or for an id of an accepted connection, it
delivers after a start of this id was answered, and to the opaque value of the most
recent one (`delivered_after_start`). The moves of a run are its history; the slots
are books kept of it (`Book`): the opaque value of a listening slot, and that of an
accepted connection that is open, is that of the last start of its id.
-/
namespace Canna.Poll
open Canna.Sockets Canna.SocketServer Canna.ControlPipe Canna.Lts
open Canna.ControlPipe.Request

/-! ### Histories -/

/-- `poll` returns this value. -/
def Returns (m : Move Sys Action) (type : Int) : Prop :=
  (∀ old, m.pre.pc ≠ .outside old) ∧ m.post.pc = .outside type

/-- A start of the id with this opaque value is answered `SOCKET_OPEN`. -/
def Opens (id : Int) (opaqueVal : UInt64) (m : Move Sys Action) : Prop :=
  ∃ o pipe, m.act = .command o ∧ m.pre.server.pipe = request_start id opaqueVal :: pipe ∧
    m.post.pc = .sweeping SOCKET_OPEN

/-- The id is reserved by a public call, or reported as that of an accepted connection. -/
def Creates (id : Int) (m : Move Sys Action) : Prop :=
  match m.act with
  | .advance j => ∃ c, m.pre.clients[j]? = some c ∧ c.Swaps m.pre.server id
  | .dispatch _ => m.post.pc = .outside SOCKET_ACCEPT ∧ m.post.result.ud = id
  | _ => False

instance (id : Int) : DecidablePred (Creates id)
  | ⟨s, .advance j, _⟩ =>
    match member : s.clients[j]? with
    | none => isFalse (by simp [Creates, member])
    | some c => decidable_of_iff (c.Swaps s.server id) (by simp [Creates, member])
  | ⟨_, .dispatch _, _⟩ => inferInstanceAs (Decidable (_ ∧ _))
  | ⟨_, .call _, _⟩ | ⟨_, .enter, _⟩ | ⟨_, .command _, _⟩ | ⟨_, .noCommand, _⟩ | ⟨_, .wait _, _⟩ | ⟨_, .sweep, _⟩ =>
    isFalse not_false

/-- The id is reported as that of an accepted connection. -/
def Accepts (id : Int) (m : Move Sys Action) : Prop := (∃ o, m.act = .dispatch o) ∧ Creates id m

instance (id : Int) : DecidablePred (Accepts id)
  | ⟨s, .dispatch o, t⟩ => decidable_of_iff (Creates id ⟨s, .dispatch o, t⟩) (by simp [Accepts])
  | ⟨_, .call _, _⟩ | ⟨_, .advance _, _⟩ | ⟨_, .enter, _⟩ | ⟨_, .command _, _⟩ | ⟨_, .noCommand, _⟩ | ⟨_, .wait _, _⟩
  | ⟨_, .sweep, _⟩ => isFalse (by simp [Accepts])

/-- Since the id was given last, it was started, the last time with this opaque value. -/
def LastStarted (h : List (Move Sys Action)) (id : Int) (opaqueVal : UInt64) : Prop :=
  Since (Opens id opaqueVal) (fun m => Creates id m ∨ ∃ other, Opens id other m) h

/-- The id was given last to an accepted connection. -/
def FromAccept (h : List (Move Sys Action)) (id : Int) : Prop := Since (Accepts id) (Creates id) h

/-! ### Books -/

/-- The slot of such a type does not hold the id of an accepted connection. -/
def Unaccepted : SocketType → Prop
  | .RESERVE | .PLISTEN | .LISTEN | .CONNECTING | .BIND => True
  | _ => False

/-- What a slot says of the history of its id. -/
structure Book (h : List (Move Sys Action)) (x : Socket) : Prop where
  listening : x.type = .LISTEN → LastStarted h x.id x.opaqueVal
  connected : x.type = .CONNECTED → FromAccept h x.id → LastStarted h x.id x.opaqueVal
  unaccepted : Unaccepted x.type → ¬ FromAccept h x.id

/-- The slots and the message about to be returned are right about the history. -/
structure Books (h : List (Move Sys Action)) (s : Sys) : Prop where
  slots : ∀ k, Book h (s.server.slot k)
  delivering : s.pc = .sweeping SOCKET_DATA → FromAccept h s.result.id →
    LastStarted h s.result.id s.result.opaqueVal
  unswept : s.pc ≠ .sweeping SOCKET_ACCEPT

section
variable {h : List (Move Sys Action)} {m : Move Sys Action} {x y : Socket} {id : Int} {opaqueVal : UInt64}

theorem LastStarted.later (started : LastStarted h id opaqueVal) (uncreated : ¬ Creates id m)
    (unopened : ∀ other, ¬ Opens id other m) : LastStarted (h ++ [m]) id opaqueVal := by
  refine Since.later started ?_
  rintro (creates | ⟨other, opens⟩)
  · exact uncreated creates
  · exact unopened other opens

theorem FromAccept.earlier (accepted : FromAccept (h ++ [m]) id) (unaccepted : ¬ Accepts id m) :
    FromAccept h id ∧ ¬ Creates id m := Since.earlier accepted unaccepted

theorem FromAccept.before (accepted : FromAccept (h ++ [m]) id) (uncreated : ¬ Creates id m) : FromAccept h id :=
  (accepted.earlier fun accepts => uncreated accepts.2).1

theorem Book.of_idle (idle : x.type = .INVALID ∨ x.type = .PACCEPT) : Book h x := by
  constructor
  · intro listening
    rw [listening] at idle
    rcases idle with wrong | wrong <;> cases wrong
  · intro connected
    rw [connected] at idle
    rcases idle with wrong | wrong <;> cases wrong
  · intro unaccepted
    rcases idle with type | type <;> rw [type] at unaccepted <;> exact unaccepted.elim

/-- A slot that a public call has filled. -/
theorem Book.of_unaccepted (unaccepted : ¬ FromAccept h x.id) (other : x.type ≠ .LISTEN) : Book h x :=
  ⟨fun listening => absurd listening other, fun _ accepted => absurd accepted unaccepted, fun _ => unaccepted⟩

/-- A slot whose id was just started. -/
theorem Book.of_started (started : LastStarted h x.id x.opaqueVal) (unaccepted : Unaccepted x.type → ¬ FromAccept h x.id) :
    Book h x := ⟨fun _ => started, fun _ _ => started, unaccepted⟩

theorem Book.of_same (book : Book h x) (same : Same x y) : Book h y := by
  obtain ⟨control, opaqueVal⟩ := same
  have type : y.type = x.type := congrArg Control.type control
  have id : y.id = x.id := congrArg Control.id control
  constructor
  · rw [type, id, opaqueVal]
    exact book.listening
  · rw [type, id, opaqueVal]
    exact book.connected
  · rw [type, id]
    exact book.unaccepted

/-- A move that neither gives nor starts the id of the slot. -/
theorem Book.later (book : Book h x) (uncreated : ¬ Creates x.id m) (unopened : ∀ other, ¬ Opens x.id other m) :
    Book (h ++ [m]) x where
  listening type := (book.listening type).later uncreated unopened
  connected type accepted := (book.connected type (accepted.before uncreated)).later uncreated unopened
  unaccepted type accepted := book.unaccepted type (accepted.before uncreated)

theorem Book.of_turn {k : Index} {ker n : Kernel} {type : Int} {result : Message} (book : Book h x)
    (turn : Turn k x ker y n type result) : Book h y := by
  cases turn with
  | idle same => exact same ▸ book
  | kept valid same => exact book.of_same same
  | closed live control => exact .of_idle (.inl (congrArg Control.type control))
  | connected connecting same =>
    refine Book.of_same (x := { x with type := .CONNECTED }) (.of_unaccepted ?_ (by simp)) same
    exact book.unaccepted (by rw [connecting]; exact trivial)

/-- A start that is answered `SOCKET_OPEN` is the last one of its id. -/
theorem Book.of_answered {ker n : Kernel} {type : Int} (book : Book h x) (answered : Answered id opaqueVal x ker y n type)
    (uncreated : ∀ own, ¬ Creates own m) (opened : type = SOCKET_OPEN → LastStarted (h ++ [m]) id opaqueVal)
    (unopened : type ≠ SOCKET_OPEN → ∀ other, ¬ Opens x.id other m) : Book (h ++ [m]) y := by
  cases answered with
  | ignored slot kernel refuses =>
    rw [slot]
    exact book.later (uncreated _) (unopened refuses)
  | refused waiting control => exact .of_idle (.inl (congrArg Control.type control))
  | started own waiting slot registered opens =>
    subst own slot
    refine .of_started (opened opens) ?_
    intro unaccepted accepted
    rcases waiting with accept | listen
    · simp only [if_pos accept] at unaccepted
      exact unaccepted
    · exact book.unaccepted (by rw [listen]; exact trivial) (accepted.before (uncreated _))
  | transferred own connected slot kernel opens =>
    subst own slot
    refine .of_started (opened opens) ?_
    show Unaccepted x.type → _
    rw [connected]
    exact False.elim

/-- What a slot delivers goes to its owner. -/
theorem Book.delivers (book : Book h x) (watched : Watched x.type) (unhalved : x.type ≠ .HALFCLOSE)
    (accepted : FromAccept h x.id) : LastStarted h x.id x.opaqueVal := by
  by_cases connected : x.type = .CONNECTED
  · exact book.connected connected accepted
  · have other : Unaccepted x.type := by
      cases type : x.type <;> rw [type] at watched unhalved connected <;> simp_all [Watched, Unaccepted]
    exact absurd accepted (book.unaccepted other)

end

/-! ### Steps -/

section
variable {h : List (Move Sys Action)} {s t : Sys} {a : Action}

theorem unopened_of (other : ∀ o, a ≠ .command o) (id : Int) (opaqueVal : UInt64) : ¬ Opens id opaqueVal ⟨s,a,t⟩ := by
  rintro ⟨o, -, act, -⟩
  exact other o act

/-- A step that neither gives nor starts an id. -/
theorem books_same (before : Books h s) (uncreated : ∀ id, ¬ Creates id ⟨s,a,t⟩) (other : ∀ o, a ≠ .command o)
    (slot : t.server.slot = s.server.slot) (unswept : ∀ type, t.pc ≠ .sweeping type) : Books (h ++ [⟨s,a,t⟩]) t where
  slots k := by
    rw [slot]
    exact (before.slots k).later (uncreated _) (unopened_of other _)
  delivering sweeping := absurd sweeping (unswept _)
  unswept := unswept _

/-- A slot in use whose id is not the one that a step gives. -/
theorem book_apart (identified : Identified s) (before : Books h s) {id : Int} {k : Index} (apart : k ≠ HASH_ID id)
    (gives : ∀ own, Creates own ⟨s,a,t⟩ → own = id) (other : ∀ o, a ≠ .command o) :
    Book (h ++ [⟨s,a,t⟩]) (s.server.slot k) := by
  by_cases free : (s.server.slot k).type = .INVALID
  · exact .of_idle (.inl free)
  · refine (before.slots k).later ?_ (unopened_of other _)
    intro creates
    have place := (identified.slots k free).2
    rw [gives _ creates] at place
    exact apart place.symm

/-- A public call reserves an id, which so is that of no accepted connection. -/
theorem books_advance {j : Nat} (identified : Identified s) (before : Books h s) (between : Between s (.advance j))
    (stepped : step s (.advance j) = .ok t) : Books (h ++ [⟨s,.advance j,t⟩]) t := by
  obtain ⟨type, outside⟩ := between
  obtain ⟨c, member, rfl⟩ := step_advance stepped
  have creates : ∀ own t, Creates own ⟨s,.advance j,t⟩ → c.Swaps s.server own := by
    rintro own t ⟨d, same, swaps⟩
    rw [member, Option.some.injEq] at same
    exact same ▸ swaps
  have unswept : ∀ r type, (s.client (s.clients.eraseIdx j) r).pc ≠ .sweeping type := by simp [Sys.client, outside]
  have advanced := c.advanced s.server
  generalize c.advance s.server = d at advanced
  obtain ⟨r, next⟩ := d
  cases advanced with
  | moved d alloc_id idle still inHand unswapped =>
    exact books_same before (fun own made => unswapped own (creates own _ made)) (by simp) rfl (unswept _)
  | gave_up idle ker closed unswapped =>
    exact books_same before (fun own made => unswapped own (creates own _ made)) (by simp) rfl (unswept _)
  | requested request is =>
    refine books_same before ?_ (by simp) rfl (unswept _)
    intro own made
    obtain ⟨⟨call, i, same⟩, -⟩ := creates own _ made
    cases is.symm.trans same
  | reserved call i id is vacant =>
    subst is
    refine ⟨?_, fun sweeping => absurd sweeping (unswept _ _), unswept _ _⟩
    intro k
    show Book _ ((reserve s.server id).slot k)
    by_cases own : k = HASH_ID id
    · subst own
      have slot : ((reserve s.server id).slot (HASH_ID id)).id = id ∧
          ((reserve s.server id).slot (HASH_ID id)).type = .RESERVE := by simp [reserve]
      refine .of_unaccepted ?_ (by simp [slot.2])
      rw [slot.1]
      intro accepted
      refine (accepted.earlier ?_).2 ⟨_, member, ⟨call, i, rfl⟩, vacant⟩
      rintro ⟨⟨o, act⟩, -⟩
      cases act
    · have same : (reserve s.server id).slot k = s.server.slot k := Server.setSlot_other _ _ own
      rw [same]
      refine book_apart identified before own ?_ (by simp)
      intro other made
      obtain ⟨⟨call', i', swaps⟩, -⟩ := creates other _ made
      cases swaps
      rfl

/-- What a handler of the poll thread leaves to be returned. -/
theorem proceed_sweeping {r : Reply} {sweep : Bool} {type : Int} (sweeping : (s.handled r sweep).pc = .sweeping type) :
    r.type = type ∧ sweep = true := by
  simp only [Sys.handled, proceed] at sweeping
  split at sweeping
  · cases sweeping
  · cases sweep with
    | true => exact ⟨Pc.sweeping.inj sweeping, rfl⟩
    | false => cases sweeping

theorem proceed_outside {r : Reply} {sweep : Bool} {type : Int} (outside : (s.handled r sweep).pc = .outside type) :
    r.type = type ∧ sweep = false := by
  simp only [Sys.handled, proceed] at outside
  split at outside
  · cases outside
  · cases sweep with
    | false => exact ⟨Pc.outside.inj outside, rfl⟩
    | true => cases outside

/-- A handler that delivers nothing leaves nothing to be delivered. -/
theorem Books.of_quiet {r : Reply} {sweep : Bool} (quiet : Quiet r.type)
    (slots : ∀ k, Book h (r.server.slot k)) : Books h (s.handled r sweep) where
  slots := slots
  delivering sweeping := absurd (proceed_sweeping sweeping).1 quiet.2
  unswept sweeping := quiet.1 (proceed_sweeping sweeping).1

/-- The books of all slots after a turn on one of them. -/
theorem book_turned {k : Index} {r : Reply} {ker n : Kernel} {type : Int} {result : Message}
    (before : ∀ j, Book h (s.server.slot j)) (others : ∀ j, j ≠ k → r.server.slot j = s.server.slot j)
    (turn : Turn k (s.server.slot k) ker (r.server.slot k) n type result) (j : Index) : Book h (r.server.slot j) := by
  by_cases own : j = k
  · subst own
    exact (before j).of_turn turn
  · rw [others j own]
    exact before j

/-- A start that is answered `SOCKET_OPEN` is the last one, with its opaque value. -/
theorem books_start {o : Outcome} {id : Int} {opaqueVal : UInt64} {pipe : List (Request Int (List Byte))} {r : Reply}
    (identified : Identified s) (before : Books h s) (waiting : s.server.pipe = request_start id opaqueVal :: pipe)
    (handled : r = start_socket { s.server with pipe := pipe } id opaqueVal o) :
    Books (h ++ [⟨s,.command o,s.handled r true⟩]) (s.handled r true) := by
  obtain ⟨answered, quiet⟩ := start_socket_answered { s.server with pipe := pipe } id opaqueVal o
  have frame := (start_socket_effect { s.server with pipe := pipe } id opaqueVal o).1
  rw [← handled] at answered quiet frame
  have uncreated : ∀ own, ¬ Creates own ⟨s,.command o,s.handled r true⟩ := fun own made => made
  have unopened : ∀ own, (own = id → r.type ≠ SOCKET_OPEN) → ∀ other, ¬ Opens own other ⟨s,.command o,s.handled r true⟩ := by
    rintro own unlike other ⟨o', pipe', -, same, opens⟩
    have opens : r.type = SOCKET_OPEN := (proceed_sweeping opens).1
    have same : s.server.pipe = request_start own other :: pipe' := same
    rw [waiting] at same
    cases same
    exact unlike rfl opens
  have opened : r.type = SOCKET_OPEN → LastStarted (h ++ [⟨s,.command o,s.handled r true⟩]) id opaqueVal := by
    intro opens
    refine .now ⟨o, pipe, rfl, waiting, ?_⟩
    simp only [Sys.handled, proceed, opens]
    decide
  refine .of_quiet quiet ?_
  intro k
  by_cases own : k = HASH_ID id
  · subst own
    exact (before.slots (HASH_ID id)).of_answered answered uncreated opened fun refuses => unopened _ fun _ => refuses
  · rw [frame.others k own]
    show Book _ (s.server.slot k)
    by_cases free : (s.server.slot k).type = .INVALID
    · exact .of_idle (.inl free)
    · refine (before.slots k).later (uncreated _) (unopened _ ?_)
      intro same
      have place := (identified.slots k free).2
      rw [same] at place
      exact absurd place.symm own

/-- A handled request. -/
theorem books_command {o : Outcome} (reserved : Reserved s) (identified : Identified s) (before : Books h s)
    (stepped : step s (.command o) = .ok t) : Books (h ++ [⟨s,.command o,t⟩]) t := by
  obtain ⟨request, pipe, r, looping, waiting, handled, rfl⟩ := step_command stepped
  by_cases start : ∃ id opaqueVal, request = request_start id opaqueVal
  · obtain ⟨id, opaqueVal, rfl⟩ := start
    cases handled
    exact books_start identified before waiting rfl
  have uncreated : ∀ own, ¬ Creates own ⟨s,.command o,s.handled r true⟩ := fun own => id
  have later : ∀ k, Book (h ++ [⟨s,.command o,s.handled r true⟩]) (s.server.slot k) := by
    intro k
    refine (before.slots k).later (uncreated _) ?_
    rintro other ⟨o', pipe', -, same, -⟩
    have same : s.server.pipe = request_start (s.server.slot k).id other :: pipe' := same
    rw [waiting] at same
    cases same
    exact start ⟨_, _, rfl⟩
  cases own : reservation request with
  | some id =>
    obtain ⟨frame, -⟩ := ctrl_cmd_reserved own handled
    obtain ⟨installed, quiet⟩ := ctrl_cmd_installed own handled
    obtain ⟨type, same⟩ := reserved.next waiting own
    have unaccepted := (later (HASH_ID id)).unaccepted (by rw [type]; exact trivial)
    rw [same] at unaccepted
    refine .of_quiet quiet ?_
    intro k
    by_cases here : k = HASH_ID id
    · subst here
      have filled : ∀ type fd, (r.server.slot (HASH_ID id)).control = ⟨type, id, fd⟩ → type ≠ .LISTEN →
          Book (h ++ [⟨s,.command o,s.handled r true⟩]) (r.server.slot (HASH_ID id)) := by
        intro type fd control other
        refine .of_unaccepted ?_ ?_
        · have id : (r.server.slot (HASH_ID id)).id = id := congrArg Control.id control
          rw [id]
          exact unaccepted
        · have type : (r.server.slot (HASH_ID id)).type = type := congrArg Control.type control
          rw [type]
          exact other
      cases installed with
      | listening fd opaqueVal is control => exact filled _ _ control (by decide)
      | bound fd opaqueVal is control => exact filled _ _ control (by decide)
      | connected type sock connects control =>
        refine filled _ _ control ?_
        rcases connects with rfl | rfl <;> decide
      | abandoned control => exact .of_idle (.inl (congrArg Control.type control))
    · rw [frame.others k here]
      exact later k
  | none =>
    have other : ∀ id opaqueVal, request ≠ request_start id opaqueVal :=
      fun id opaqueVal same => start ⟨id, opaqueVal, same⟩
    obtain ⟨k, frame, -, turn⟩ := ctrl_cmd_turn own other handled
    exact .of_quiet turn.quiet (book_turned later frame.others turn)

/-- A dispatched event: what it delivers goes to the owner of its slot, and a
    connection it accepts takes a free slot. -/
theorem books_dispatch {o : Outcome} (identified : Identified s) (tidy : Tidy s) (before : Books h s)
    (stepped : step s (.dispatch o) = .ok t) : Books (h ++ [⟨s,.dispatch o,t⟩]) t := by
  obtain ⟨r, sweep, picking, handled, rfl⟩ := step_dispatch stepped
  obtain ⟨e, current, outcome⟩ := dispatch_handled handled
  have unopened : ∀ own other, ¬ Opens own other ⟨s,.dispatch o,s.handled r sweep⟩ := unopened_of (by simp)
  have later : r.type ≠ SOCKET_ACCEPT ∨ sweep = true → ∀ k,
      Book (h ++ [⟨s,.dispatch o,s.handled r sweep⟩]) (s.server.slot k) := by
    intro unaccepting k
    refine (before.slots k).later ?_ (unopened _)
    rintro ⟨accepting, -⟩
    obtain ⟨type, direct⟩ := proceed_outside accepting
    rcases unaccepting with other | swept
    · exact other type
    · cases swept.symm.trans direct
  have passed : r.server.slot = s.server.slot → r.type = -1 →
      Books (h ++ [⟨s,.dispatch o,s.handled r sweep⟩]) (s.handled r sweep) := by
    intro slot pass
    have quiet : Quiet r.type := pass ▸ quiet_pass
    refine .of_quiet quiet ?_
    intro k
    rw [slot]
    exact later (.inl quiet.1) k
  rcases outcome with ⟨-, slot, -, pass⟩ | ⟨k, slot, served⟩
  · exact passed slot pass
  cases served with
  | passed free slot kernel pass => exact passed slot pass
  | refused slot obtained pass => exact passed slot pass
  | turned others turn => exact .of_quiet turn.quiet (book_turned (later (.inl turn.quiet.1)) others turn)
  | delivered others readable delivers sweeps =>
    have watched := tidy.reads (by simp [picking]) ⟨Nat.le_refl _, current, slot⟩ readable
    have book := later (.inr sweeps) k
    refine ⟨book_turned (later (.inr sweeps)) others delivers.kept, ?_, ?_⟩
    · intro sweeping accepted
      have accepted : FromAccept _ r.result.id := accepted
      show LastStarted _ r.result.id r.result.opaqueVal
      rw [delivers.id] at accepted ⊢
      rw [delivers.opaqueVal]
      exact book.delivers watched delivers.unhalved accepted
    · intro sweeping
      have type := (proceed_sweeping sweeping).1
      rw [delivers.data] at type
      cases type
  | accepted id listening vacant others control obtained own accepts told ud direct =>
    refine ⟨?_, ?_, ?_⟩
    · intro j
      by_cases here : j = HASH_ID id
      · subst here
        exact .of_idle (.inr (congrArg Control.type control))
      · show Book _ (r.server.slot j)
        rw [others j here]
        refine book_apart identified before here ?_ (by simp)
        rintro other ⟨-, made⟩
        exact made.symm.trans ud
    · intro sweeping
      cases (proceed_sweeping sweeping).2.symm.trans direct
    · intro sweeping
      cases (proceed_sweeping sweeping).2.symm.trans direct

/-- The other steps of the poll thread come to no sweep. -/
theorem unswept_other (stepped : step s a = .ok t) (idle : Idle a) (type : Int) : t.pc ≠ .sweeping type := by
  cases idle
  all_goals simp only [step] at stepped
  · split at stepped <;> cases stepped
    simp
  · split at stepped <;> cases stepped
    simp
  · split at stepped <;> cases stepped
    simp only
    split <;> simp
  · split at stepped <;> cases stepped
    simp

theorem books_other (before : Books h s) (stepped : step s a = .ok t) (idle : Idle a) : Books (h ++ [⟨s,a,t⟩]) t := by
  refine books_same before ?_ ?_ (step_other stepped idle).1 (unswept_other stepped idle)
  · intro id
    cases idle <;> exact not_false
  · intro o
    cases idle <;> simp

theorem books_step (reserved : Reserved s) (identified : Identified s) (tidy : Tidy s) (before : Books h s)
    (between : Between s a) (stepped : step s a = .ok t) : Books (h ++ [⟨s,a,t⟩]) t := by
  cases a with
  | call c =>
    cases stepped
    obtain ⟨type, outside⟩ := between
    exact books_same before (fun _ => not_false) (by simp) (c.started s.server).slot (by simp [Sys.client, outside])
  | advance j => exact books_advance identified before between stepped
  | command o => exact books_command reserved identified before stepped
  | dispatch o => exact books_dispatch identified tidy before stepped
  | enter => exact books_other before stepped .enter
  | noCommand => exact books_other before stepped .noCommand
  | wait ready => exact books_other before stepped (.wait ready)
  | sweep => exact books_other before stepped .sweep

end

/-! ### Runs -/

section
variable {memory : Index → Socket} {alloc_id : Int} {result : Message} {s t : Sys}
  {front back : List (Move Sys Action)} {m : Move Sys Action} {type : Int}

theorem books_initial : Books [] (initial memory alloc_id result) where
  slots _ := .of_idle (.inl rfl)
  delivering sweeping := by cases sweeping
  unswept := by simp [initial]

theorem books_run {ms : List (Move Sys Action)} (run : SysRun (initial memory alloc_id result) ms t)
    (calm : ∀ m ∈ ms, Calm m.pre m.act) : Identified t ∧ Tidy t ∧ Books ms t := by
  have books : Reserved t ∧ Identified t ∧ Tidy t ∧ Books ms t := by
    refine run.history (I := fun h s => Reserved s ∧ Identified s ∧ Tidy s ∧ Books h s) (C := Calm) ?_ ?_ calm
    · rintro h s a t ⟨between, honest⟩ ⟨reserved, identified, tidy, books⟩ stepped
      exact ⟨reserved_step reserved stepped, identified_step reserved identified stepped,
        tidy_step reserved tidy between honest stepped, books_step reserved identified tidy books between stepped⟩
    · exact ⟨reserved_initial _ _ _, identified_initial _ _ _, tidy_initial _ _ _, books_initial⟩
  exact books.2

/-- Where the bound descriptors are their callers', only registered slots are reported. -/
theorem honest_run {ms : List (Move Sys Action)} (run : SysRun (initial memory alloc_id result) ms t)
    (foreign : ∀ m ∈ ms, Foreign m.pre m.act) {a : Action} (once : Once a) : Honest t a := by
  cases a with
  | wait ready => exact ⟨once, fun fd _ e entry => (polled_run run foreign).entries fd e entry⟩
  | _ => exact trivial

/-- Where moreover each descriptor is found once, `epoll_wait` reports registered slots
    all along the run. -/
theorem calm_run {ms : List (Move Sys Action)} (run : SysRun (initial memory alloc_id result) ms t)
    (between : ∀ m ∈ ms, Between m.pre m.act) (foreign : ∀ m ∈ ms, Foreign m.pre m.act) (once : ∀ m ∈ ms, Once m.act) :
    ∀ m ∈ ms, Calm m.pre m.act := by
  intro m member
  refine ⟨between m member, ?_⟩
  obtain ⟨front, back, rfl⟩ := List.append_of_mem member
  obtain ⟨before, -, -⟩ := run.split
  exact honest_run before (fun n earlier => foreign n (List.mem_append_left _ earlier)) (once m member)

/-- A value is returned by the sweep, or for the event just dispatched. -/
theorem returns_cases (stepped : step m.pre m.act = .ok m.post) (returns : Returns m type) (value : type ≠ -1) :
    (m.pre.pc = .sweeping type ∧ m.post.result = m.pre.result) ∨
      ∃ o r, m.act = .dispatch o ∧ m.pre.pc = .picking ∧ dispatch m.pre.server m.pre.result o = .ok (r, false) ∧
        r.type = type ∧ m.post.result = r.result := by
  obtain ⟨s, a, t⟩ := m
  obtain ⟨inside, outside⟩ := returns
  simp only at stepped inside outside ⊢
  cases a with
  | call c =>
    cases stepped
    exact absurd outside (inside type)
  | advance j =>
    obtain ⟨c, -, rfl⟩ := step_advance stepped
    exact absurd outside (inside type)
  | command o =>
    obtain ⟨request, pipe, r, -, -, -, rfl⟩ := step_command stepped
    cases (proceed_outside outside).2
  | dispatch o =>
    obtain ⟨r, sweep, picking, handled, rfl⟩ := step_dispatch stepped
    obtain ⟨same, rfl⟩ := proceed_outside outside
    exact .inr ⟨o, r, rfl, picking, handled, same, rfl⟩
  | sweep =>
    simp only [step] at stepped
    split at stepped <;> cases stepped
    rename_i swept sweeping
    cases outside
    exact .inl ⟨sweeping, rfl⟩
  | wait ready =>
    simp only [step] at stepped
    split at stepped <;> cases stepped
    simp only at outside
    split at outside <;> cases outside
    exact absurd rfl value
  | enter =>
    simp only [step] at stepped
    cases stepped
  | noCommand =>
    simp only [step] at stepped
    split at stepped <;> cases stepped
    cases outside

/-- An accepted connection is reported to the owner of the listening slot. -/
theorem accept_started {h : List (Move Sys Action)} (books : Books h m.pre) (stepped : step m.pre m.act = .ok m.post)
    (returns : Returns m SOCKET_ACCEPT) : LastStarted h m.post.result.id m.post.result.opaqueVal := by
  rcases returns_cases stepped returns (by decide) with ⟨sweeping, -⟩ | ⟨o, r, act, -, handled, accepting, same⟩
  · exact absurd sweeping books.unswept
  rw [same]
  obtain ⟨e, -, (⟨-, -, -, pass⟩ | ⟨k, -, served⟩)⟩ := dispatch_handled handled
  · cases pass.symm.trans accepting
  cases served with
  | passed free slot kernel pass => cases pass.symm.trans accepting
  | refused slot obtained pass => cases pass.symm.trans accepting
  | turned others turn => exact absurd accepting turn.quiet.1
  | delivered others readable delivers sweeps => cases sweeps
  | accepted id listening vacant others control obtained own accepts told =>
    rw [told.1, told.2]
    exact (books.slots k).listening listening

/-- Data of an accepted connection is returned to the owner of its slot. -/
theorem data_started {h : List (Move Sys Action)} (books : Books h m.pre) (stepped : step m.pre m.act = .ok m.post)
    (returns : Returns m SOCKET_DATA) (accepted : FromAccept h m.post.result.id) :
    LastStarted h m.post.result.id m.post.result.opaqueVal := by
  rcases returns_cases stepped returns (by decide) with ⟨sweeping, same⟩ | ⟨o, r, act, -, handled, data, -⟩
  · rw [same] at accepted ⊢
    exact books.delivering sweeping accepted
  obtain ⟨e, -, (⟨-, -, -, pass⟩ | ⟨k, -, served⟩)⟩ := dispatch_handled handled
  · cases pass.symm.trans data
  cases served with
  | passed free slot kernel pass => cases pass.symm.trans data
  | refused slot obtained pass => cases pass.symm.trans data
  | turned others turn => exact absurd data turn.quiet.2
  | delivered others readable delivers sweeps => cases sweeps
  | accepted id listening vacant others control obtained own accepts => cases accepts.symm.trans data

/-- The same where the bound descriptors are their callers' and `epoll_wait` finds each
    descriptor once: that it reports registered slots is then the server's own doing. -/
theorem delivered_foreign (run : SysRun (initial memory alloc_id result) (front ++ m :: back) t)
    (between : ∀ n ∈ front, Between n.pre n.act) (foreign : ∀ n ∈ front, Foreign n.pre n.act)
    (once : ∀ n ∈ front, Once n.act) :
    (Returns m SOCKET_ACCEPT → LastStarted front m.post.result.id m.post.result.opaqueVal) ∧
      (Returns m SOCKET_DATA → FromAccept front m.post.result.id →
        LastStarted front m.post.result.id m.post.result.opaqueVal) := by
  obtain ⟨before, stepped, -⟩ := run.split
  obtain ⟨-, -, books⟩ := books_run before (calm_run before between foreign once)
  exact ⟨accept_started books stepped, data_started books stepped⟩

end

/-- A server in whose memory every slot reads blocks of 64 bytes. -/
def sized : Sys := initial (fun _ => ⟨0, .wb_clear, .wb_clear, 0, 0, 0, 0, .INVALID, MIN_READ_BUFFER⟩) 0 ⟨0, 0, 0, .nullptr⟩

/-- Descriptor 5 listens under id 1 for the owner 7, and a connection is accepted there,
    started under id 2 for the owner 8, and sends a byte. -/
def conversing : List Action :=
  [.call (.server_listen 0 5 true), .advance 0, .advance 0, .advance 0, .advance 0,
    .call (.server_start 7 1), .advance 0, .enter, .command {}, .command {}, .sweep,
    .enter, .noCommand, .wait [.descriptor 5 true false], .dispatch { accepted := 6 },
    .call (.server_start 8 2), .advance 0, .enter, .noCommand, .wait [], .enter, .command {}, .sweep,
    .enter, .noCommand, .wait [.descriptor 6 true false], .dispatch { read := .received [65] }]

end Canna.Poll
