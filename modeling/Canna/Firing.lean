import Canna.Lts
import Canna.Passages

/-!
# Workers that are fired

`routerreq.cpp` and `routerdealer.cpp`: workers with a REQ or a dealer socket each ask a
router socket for work again and again. The broker answers each that it work harder,
until its time has passed; from then on it fires each worker that asks, and it leaves its
loop with the last. The two examples differ in the sockets of the workers (`Kind`).
Every worker is at one place (`firing_exactly_one`), and the tasks that it counts are the
answers to it before the end (`firing_totals`).
-/
namespace Canna.Firing
open Canna.Brokerage (forall_set map_set_same deliver map_ok)
open Canna.Census Canna.Multipart Canna.Lts
open Canna.Names (Text)

def WORK_HARDER : Text := [87,79,82,75,32,72,65,82,68,69,82]
def FIRED : Text := [70,73,82,69,68,33]

/-! ### The sockets of the workers -/

/-- The last frame of a message, in which the answer of the broker is. -/
def verdict (message : Message) : Text := (message.first :: message.more).getLast (List.cons_ne_nil _ _)

/-- How the worker of an example announces itself and receives its workload, and what arrives
    of the messages between its socket and the router socket. -/
structure Kind where
  ready : Zsocket → Zsocket
  workload : Zsocket → Except Halt (Text × Zsocket)
  leave : Text → Message → List Message
  arrive : List Text → List Message
  announcement : Message
  packed : Text → Message
  readies : ∀ inbox outbox, ready ⟨inbox,[],outbox⟩ = ⟨inbox,[],outbox ++ [announcement]⟩
  leaves : ∀ identity, leave identity announcement = [⟨identity,[[],READY]⟩]
  arrives : ∀ text, arrive [[],text] = [packed text]
  receives : ∀ text rest pending outbox,
    workload ⟨packed text :: rest,pending,outbox⟩ = .ok (text,⟨rest,pending,outbox⟩)
  packs : ∀ text, verdict (packed text) = text

/-- The worker of `routerreq.cpp`. -/
def Kind.routerreq (Z : Transport) : Kind where
  ready := fun worker => canna_send worker READY
  workload := canna_recv
  leave := Z.req_router
  arrive := Z.router_req
  announcement := ⟨READY,[]⟩
  packed := fun text => ⟨text,[]⟩
  readies := fun _ _ => rfl
  leaves := fun _ => Z.req_arrives _ _
  arrives := fun _ => Z.reply_arrives _
  receives := fun _ _ _ _ => rfl
  packs := fun _ => rfl

/-- The worker of `routerdealer.cpp`, which sends and receives the empty frame itself. -/
def Kind.routerdealer (Z : Transport) : Kind where
  ready := fun worker => canna_send (canna_sendmore worker []) READY
  workload := fun worker => do
    let (_,worker) ← canna_recv worker
    canna_recv worker
  leave := Z.dealer_router
  arrive := Z.router_dealer
  announcement := ⟨[],[READY]⟩
  packed := fun text => ⟨[],[text]⟩
  readies := fun _ _ => rfl
  leaves := fun _ => Z.dealer_arrives _ _
  arrives := fun _ => Z.answer_arrives _
  receives := fun _ _ _ _ => rfl
  packs := fun _ => rfl

/-! ### The threads -/

inductive Stage
  | sending
  | waiting
  | finished
  deriving DecidableEq, Repr

structure Worker where
  identity : Text
  stage : Stage
  total : Nat
  socket : Zsocket
  deriving DecidableEq, Repr

/-- The workers of an example with their identities, and the time until which the broker
    keeps them. -/
structure Deployment where
  kind : Kind
  workers : List Text
  end_time : Nat
  some_worker : workers ≠ []
  distinct : workers.Nodup

def Deployment.work_count (D : Deployment) : Nat := D.workers.length

/-- The workers, the socket of the broker, and whether it is in its loop. -/
structure Sys where
  workers : List Worker
  broker : Zsocket
  worker_fired : Nat
  running : Bool
  deriving DecidableEq, Repr

def initial (D : Deployment) : Sys where
  workers := D.workers.map fun identity => ⟨identity,.sending,0,.fresh⟩
  broker := .fresh
  worker_fired := 0
  running := true

/-- A step of a worker, a message that travels, or a round of the broker with the time
    that it reads in it. -/
inductive Action
  | worker (j : Nat)
  | from_worker (j : Nat)
  | to_worker (i : Nat)
  | broker (now : Nat)
  deriving DecidableEq, Repr

/-- The loop of `work_thread`. -/
def Worker.turn (kind : Kind) (w : Worker) : Except Halt Worker :=
  match w.stage with
  | .sending => .ok { w with stage := .waiting, socket := kind.ready w.socket }
  | .waiting =>
    if w.socket.inbox = [] then .error .disabled
    else do
      let (workload,socket) ← kind.workload w.socket
      if FIRED = workload then return { w with stage := .finished, socket := socket }
      else return { w with stage := .sending, total := w.total + 1, socket := socket }
  | .finished => .error .disabled

/-- A round of the loop of the broker, for the first message. -/
def Sys.turn (D : Deployment) (s : Sys) (now : Nat) : Except Halt Sys :=
  if !s.running ∨ s.broker.inbox = [] then .error .disabled
  else do
    let (identity,broker) ← canna_recv s.broker
    let (_,broker) ← canna_recv broker
    let (_,broker) ← canna_recv broker
    let broker := canna_sendmore (canna_sendmore broker identity) []
    if now < D.end_time then return { s with broker := canna_send broker WORK_HARDER }
    else
      let worker_fired := s.worker_fired + 1
      return { s with
        broker := canna_send broker FIRED
        worker_fired := worker_fired
        running := worker_fired ≠ D.work_count }

def Sys.worker (D : Deployment) (s : Sys) (j : Nat) : Except Halt Sys :=
  match s.workers[j]? with
  | none => .error .disabled
  | some w => (w.turn D.kind).map fun w => { s with workers := s.workers.set j w }

def Sys.from_worker (D : Deployment) (s : Sys) (j : Nat) : Except Halt Sys :=
  match s.workers[j]? with
  | none => .error .disabled
  | some w =>
    match w.socket.outbox with
    | [] => .error .disabled
    | message :: rest => .ok { s with
        workers := s.workers.set j { w with socket := { w.socket with outbox := rest } }
        broker := { s.broker with inbox := s.broker.inbox ++ D.kind.leave w.identity message } }

def Worker.arrive (kind : Kind) (frames : List Text) (w : Worker) : Worker :=
  { w with socket := { w.socket with inbox := w.socket.inbox ++ kind.arrive frames } }

/-- A message leaves the broker for the worker of its identity; without one it is
    dropped. -/
def Sys.to_worker (D : Deployment) (s : Sys) (i : Nat) : Except Halt Sys :=
  match s.broker.outbox[i]? with
  | none => .error .disabled
  | some message => .ok { s with
      workers := s.workers.modify (s.workers.findIdx fun w => w.identity = message.first)
        (Worker.arrive D.kind message.more)
      broker := { s.broker with outbox := s.broker.outbox.eraseIdx i } }

def step (D : Deployment) (s : Sys) : Action → Except Halt Sys
  | .worker j => s.worker D j
  | .from_worker j => s.from_worker D j
  | .to_worker i => s.to_worker D i
  | .broker now => s.turn D now

/-! ### Where the workers are -/

/-- A worker is to announce itself; the announcement is on its way, or waiting at the
    broker; the answer to work harder is on its way, or with the worker; so is the notice;
    the worker has ended. -/
inductive Place
  | starting | asking | asked | hardening | hardened | firing | fired | ended
  deriving DecidableEq, Repr

def Stage.census (identity : Text) : Stage → Multiset (Place × Text)
  | .sending => {(.starting,identity)}
  | .waiting => 0
  | .finished => {(.ended,identity)}

/-- A worker and the answer that has arrived at it. -/
def answered (identity : Text) (message : Message) : Multiset (Place × Text) :=
  {(if verdict message = FIRED then .fired else .hardened,identity)}

/-- A worker and the answer that is on its way to it. -/
def answering (message : Message) : Multiset (Place × Text) :=
  {(if verdict message = FIRED then .firing else .hardening,message.first)}

def Worker.census (w : Worker) : Multiset (Place × Text) :=
  w.stage.census w.identity + roll (answered w.identity) w.socket.inbox +
    roll (fun _ => {(.asking,w.identity)}) w.socket.outbox

/-- The worker as often as it has counted a task. -/
def Worker.tasks (w : Worker) : Multiset Text := Multiset.replicate w.total w.identity

namespace Sys

def census (s : Sys) : Multiset (Place × Text) :=
  roll Worker.census s.workers + roll (fun message => {(.asked,message.first)}) s.broker.inbox +
    roll answering s.broker.outbox

def tasks (s : Sys) : Multiset Text := roll Worker.tasks s.workers

end Sys

/-- The places of the workers that the broker has not fired. -/
def employed : Place → Nat
  | .starting | .asking | .asked | .hardening | .hardened => 1
  | .firing | .fired | .ended => 0

/-- The workers with an answer to work harder that they have not counted. -/
def Place.working : Place → Bool
  | .hardening | .hardened => true
  | _ => false

def working (c : Multiset (Place × Text)) : Multiset Text := (c.filter fun entry => entry.1.working).map Prod.snd

/-- The worker that a round of the broker answers to work harder. -/
def hardens (D : Deployment) (m : Move Sys Action) : Option Text :=
  match m.act with
  | .broker now => if now < D.end_time then m.pre.broker.inbox.head?.map Message.first else none
  | _ => none

/-- Two workers, and five seconds. -/
def dealers : Deployment where
  kind := .routerdealer .plain
  workers := [[65],[66]]
  end_time := 5000
  some_worker := by decide
  distinct := by decide

/-- The first worker is answered once before the end; then both are fired. -/
def shift : List Action :=
  [.worker 0, .from_worker 0, .broker 4999, .worker 1, .to_worker 0, .worker 0, .worker 0, .from_worker 1, .from_worker 0]

def dismissal : List Action := [.broker 5000, .broker 5001, .to_worker 1, .to_worker 0, .worker 0, .worker 1]

section
variable (c d : Multiset (Place × Text)) (entry : Place × Text) (identity : Text)

@[simp] theorem census_sending : Stage.sending.census identity = {(.starting,identity)} := rfl
@[simp] theorem census_waiting : Stage.waiting.census identity = 0 := rfl
@[simp] theorem census_finished : Stage.finished.census identity = {(.ended,identity)} := rfl

theorem working_cons : working (entry ::ₘ c) = (if entry.1.working then {entry.2} else 0) + working c := by
  cases shown : entry.1.working <;> simp [working, shown]

end

/-! ### What a step does -/

/-- Where a step takes its worker. -/
inductive Passage (D : Deployment) : Action → Place → Place → Prop
  | ready (j : Nat) : Passage D (.worker j) .starting .asking
  | count (j : Nat) : Passage D (.worker j) .hardened .starting
  | finish (j : Nat) : Passage D (.worker j) .fired .ended
  | asked (j : Nat) : Passage D (.from_worker j) .asking .asked
  | hardened (i : Nat) : Passage D (.to_worker i) .hardening .hardened
  | fired (i : Nat) : Passage D (.to_worker i) .firing .fired
  | harden (now : Nat) (early : now < D.end_time) : Passage D (.broker now) .asked .hardening
  | fire (now : Nat) (late : ¬ now < D.end_time) : Passage D (.broker now) .asked .firing

def Worker.Tidy (kind : Kind) (w : Worker) : Prop :=
  w.socket.pending = [] ∧ (∀ m ∈ w.socket.inbox, ∃ text, m = kind.packed text) ∧
    ∀ m ∈ w.socket.outbox, m = kind.announcement

/-- Every message has the form that belongs to the place where it is. -/
structure Tidy (D : Deployment) (s : Sys) : Prop where
  workers : ∀ w ∈ s.workers, w.Tidy D.kind
  asking : ∀ m ∈ s.broker.inbox, m.more = [[],READY]
  answering : ∀ m ∈ s.broker.outbox, ∃ text, m.more = [[],text]
  pending : s.broker.pending = []

/-- A step moves one worker, which counts a task where it has an answer to work harder. -/
structure Effect (D : Deployment) (s t : Sys) (i j : Place) (x : Text) : Prop where
  tidy : Tidy D t
  same : t.workers.map Worker.identity = s.workers.map Worker.identity
  moved : Moved i j x s.census t.census
  tasks : t.tasks = s.tasks + if i = .hardened then {x} else 0
  worker_fired : t.worker_fired = s.worker_fired + if j = .firing then 1 else 0
  running : t.running = if j = .firing then decide (t.worker_fired ≠ D.work_count) else s.running

section
variable {D : Deployment} {s t : Sys} {w v : Worker} {i j : Nat}

theorem turn_cases (tidy : w.Tidy D.kind) (turned : w.turn D.kind = .ok v) :
    v.identity = w.identity ∧ v.Tidy D.kind ∧
      (Moved .starting .asking w.identity w.census v.census ∧ v.total = w.total ∨
        Moved .hardened .starting w.identity w.census v.census ∧ v.total = w.total + 1 ∨
          Moved .fired .ended w.identity w.census v.census ∧ v.total = w.total) := by
  obtain ⟨identity, stage, total, ⟨inbox, pending, outbox⟩⟩ := w
  obtain ⟨rfl, answers, announced⟩ := tidy
  cases stage with
  | sending =>
    obtain rfl : _ = v := Except.ok.inj turned
    refine ⟨rfl, ⟨?_, ?_, ?_⟩, .inl ⟨?_, rfl⟩⟩
    · simp only [D.kind.readies]
    · simpa only [D.kind.readies] using answers
    · intro m member
      simp only [D.kind.readies] at member
      rcases List.mem_append.mp member with old | new
      · exact announced m old
      · exact List.mem_singleton.mp new
    · simp only [Moved, Worker.census, D.kind.readies, census_sending, census_waiting, roll_append, roll_cons, roll_nil,
        ← Multiset.singleton_add]
      abel
  | waiting =>
    cases inbox with
    | nil => simp [Worker.turn] at turned
    | cons m rest =>
      obtain ⟨text, rfl⟩ := answers m List.mem_cons_self
      have tidy : ∀ m ∈ rest, ∃ text, m = D.kind.packed text := fun m member => answers m (List.mem_cons_of_mem _ member)
      by_cases fired : FIRED = text
      · subst fired
        obtain rfl : _ = v := by
          simpa [Worker.turn, D.kind.receives, bind, Except.bind, pure, Except.pure] using turned
        refine ⟨rfl, ⟨rfl, tidy, announced⟩, .inr (.inr ⟨?_, rfl⟩)⟩
        simp only [Moved, Worker.census, answered, D.kind.packs, if_true, census_waiting, census_finished, roll_cons,
          ← Multiset.singleton_add]
        abel
      · obtain rfl : _ = v := by
          simpa [Worker.turn, D.kind.receives, fired, bind, Except.bind, pure, Except.pure] using turned
        refine ⟨rfl, ⟨rfl, tidy, announced⟩, .inr (.inl ⟨?_, rfl⟩)⟩
        simp only [Moved, Worker.census, answered, D.kind.packs, if_neg (Ne.symm fired), census_waiting, census_sending,
          roll_cons, ← Multiset.singleton_add]
        abel
  | finished => simp [Worker.turn] at turned

theorem worker_effect (tidy : Tidy D s) (done : s.worker D j = .ok t) :
    ∃ i k x, Passage D (.worker j) i k ∧ Effect D s t i k x := by
  unfold Sys.worker at done
  cases here : s.workers[j]? with
  | none => simp [here] at done
  | some w =>
    simp only [here] at done
    obtain ⟨v, turned, rfl⟩ := map_ok done
    obtain ⟨same, kept, moved⟩ := turn_cases (tidy.workers w (List.mem_of_getElem? here)) turned
    have effect : ∀ {i k}, Moved i k w.identity w.census v.census →
        v.total = w.total + (if i = .hardened then 1 else 0) → k ≠ .firing →
          Effect D s { s with workers := s.workers.set j v } i k w.identity := by
      intro i k moved counted other
      refine ⟨{ tidy with workers := forall_set tidy.workers kept }, map_set_same here same, ?_, ?_, ?_, ?_⟩
      · exact ((roll_moved here moved).add_right _).add_right _
      · refine roll_gains here ?_
        rw [Worker.tasks, Worker.tasks, same, counted, Multiset.replicate_add]
        split <;> simp
      · simp [other]
      · simp [other]
    rcases moved with ⟨readies, total⟩ | ⟨counts, total⟩ | ⟨finishes, total⟩
    · exact ⟨_, _, _, .ready j, effect readies (by simpa using total) (by decide)⟩
    · exact ⟨_, _, _, .count j, effect counts (by simpa using total) (by decide)⟩
    · exact ⟨_, _, _, .finish j, effect finishes (by simpa using total) (by decide)⟩

theorem from_worker_effect (tidy : Tidy D s) (done : s.from_worker D j = .ok t) :
    ∃ x, Effect D s t .asking .asked x := by
  unfold Sys.from_worker at done
  cases here : s.workers[j]? with
  | none => simp [here] at done
  | some w =>
    obtain ⟨identity, stage, total, ⟨inbox, pending, outbox⟩⟩ := w
    cases outbox with
    | nil => simp [here] at done
    | cons m rest =>
      obtain rfl : _ = t := by simpa [here] using done
      obtain ⟨empty, answers, announced⟩ := tidy.workers _ (List.mem_of_getElem? here)
      obtain rfl : m = D.kind.announcement := announced m List.mem_cons_self
      have kept : Worker.Tidy D.kind ⟨identity,stage,total,⟨inbox,pending,rest⟩⟩ :=
        ⟨empty, answers, fun n member => announced n (List.mem_cons_of_mem _ member)⟩
      refine ⟨identity, { tidy with workers := forall_set tidy.workers kept, asking := ?_ }, map_set_same here rfl, ?_, ?_,
        rfl, rfl⟩
      · intro n member
        rcases List.mem_append.mp member with old | new
        · exact tidy.asking n old
        · rw [D.kind.leaves, List.mem_singleton] at new
          rw [new]
      · have loses := roll_loses (f := Worker.census) (e := {(.asking,identity)})
          (b := ⟨identity,stage,total,⟨inbox,pending,rest⟩⟩) here (by simp only [Worker.census, roll_cons]; abel)
        simp only [Moved, Sys.census, loses, roll_append, roll_cons, roll_nil, D.kind.leaves, ← Multiset.singleton_add]
        abel
      · simpa [Sys.tasks] using roll_same (f := Worker.tasks) (b := ⟨identity,stage,total,⟨inbox,pending,rest⟩⟩) here rfl

theorem to_worker_effect (tidy : Tidy D s) (known : ∀ m ∈ s.broker.outbox, m.first ∈ s.workers.map Worker.identity)
    (done : s.to_worker D i = .ok t) :
    ∃ x, Effect D s t .hardening .hardened x ∨ Effect D s t .firing .fired x := by
  unfold Sys.to_worker at done
  cases leaving : s.broker.outbox[i]? with
  | none => simp [leaving] at done
  | some m =>
    have member := List.mem_of_getElem? leaving
    obtain ⟨j, w, here, same, delivered⟩ := deliver (f := Worker.arrive D.kind m.more) (known m member)
    obtain rfl : _ = t := by simpa [leaving] using done
    obtain ⟨text, answer⟩ := tidy.answering m member
    obtain ⟨empty, answers, announced⟩ := tidy.workers w (List.mem_of_getElem? here)
    have arrived : (Worker.arrive D.kind m.more w).socket.inbox = w.socket.inbox ++ [D.kind.packed text] := by
      simp [Worker.arrive, answer, D.kind.arrives]
    have said : verdict m = text := by simp [verdict, answer]
    have gains := roll_gains (f := Worker.census) (b := Worker.arrive D.kind m.more w) (e := answered m.first (D.kind.packed text))
      here
      (by
        simp only [Worker.census, arrived, roll_append, roll_cons, roll_nil, ← same]
        simp only [Worker.arrive]
        abel)
    have taken := roll_eraseIdx (f := answering) leaving
    have effect : ∀ {a b : Place}, answering m = {(a,m.first)} → answered m.first (D.kind.packed text) = {(b,m.first)} →
        b ≠ .firing → a ≠ .hardened → Effect D s { s with
          workers := s.workers.modify (s.workers.findIdx fun w => w.identity = m.first) (Worker.arrive D.kind m.more)
          broker := { s.broker with outbox := s.broker.outbox.eraseIdx i } } a b m.first := by
      intro a b left reached other unlike
      refine ⟨{ tidy with workers := ?_, answering := ?_ }, ?_, ?_, ?_, ?_, ?_⟩
      · simp only [delivered]
        refine forall_set tidy.workers ⟨empty, ?_, announced⟩
        intro n arrives
        rw [arrived] at arrives
        rcases List.mem_append.mp arrives with old | new
        · exact answers n old
        · exact ⟨text, List.mem_singleton.mp new⟩
      · exact fun n rest => tidy.answering n (List.mem_of_mem_eraseIdx rest)
      · simp only [delivered]
        exact map_set_same here rfl
      · simp only [Moved, Sys.census, delivered, gains, ← taken, left, reached, ← Multiset.singleton_add]
        abel
      · simp only [Sys.tasks, delivered, if_neg unlike, add_zero]
        exact roll_same here rfl
      · simp [other]
      · simp [other]
    by_cases fired : text = FIRED
    · exact ⟨m.first, .inr (effect (by simp [answering, said, fired]) (by simp [answered, D.kind.packs, fired]) (by decide) (by decide))⟩
    · exact ⟨m.first, .inl (effect (by simp [answering, said, fired]) (by simp [answered, D.kind.packs, fired]) (by decide) (by decide))⟩

section
variable {workers : List Worker} {identity : Text} {rest outbox : List Message} {worker_fired now : Nat}

theorem turn_early (early : now < D.end_time) :
    Sys.turn D ⟨workers,⟨⟨identity,[[],READY]⟩ :: rest,[],outbox⟩,worker_fired,true⟩ now =
      .ok ⟨workers,⟨rest,[],outbox ++ [⟨identity,[[],WORK_HARDER]⟩]⟩,worker_fired,true⟩ := by
  simp [Sys.turn, early, bind, Except.bind, pure, Except.pure]

theorem turn_late (late : ¬ now < D.end_time) :
    Sys.turn D ⟨workers,⟨⟨identity,[[],READY]⟩ :: rest,[],outbox⟩,worker_fired,true⟩ now =
      .ok ⟨workers,⟨rest,[],outbox ++ [⟨identity,[[],FIRED]⟩]⟩,worker_fired + 1,worker_fired + 1 ≠ D.work_count⟩ := by
  simp [Sys.turn, late, bind, Except.bind, pure, Except.pure]

end

/-- A round of the broker is for the worker whose announcement is the first. -/
theorem turn_effect {now : Nat} (tidy : Tidy D s) (done : s.turn D now = .ok t) :
    ∃ m rest k, s.broker.inbox = m :: rest ∧ Passage D (.broker now) .asked k ∧ Effect D s t .asked k m.first := by
  obtain ⟨workers, ⟨inbox, pending, outbox⟩, worker_fired, running⟩ := s
  obtain rfl : pending = [] := tidy.pending
  cases running with
  | false => simp [Sys.turn] at done
  | true =>
    cases inbox with
    | nil => simp [Sys.turn] at done
    | cons m rest =>
      obtain ⟨identity, more⟩ := m
      obtain rfl : more = [[],READY] := tidy.asking _ List.mem_cons_self
      have asking : ∀ m ∈ rest, m.more = [[],READY] := fun m member => tidy.asking m (List.mem_cons_of_mem _ member)
      have answers : ∀ text, ∀ m ∈ outbox ++ [⟨identity,[[],text]⟩], ∃ text, m.more = [[],text] := by
        intro text m member
        rcases List.mem_append.mp member with old | new
        · exact tidy.answering m old
        · exact ⟨text, by rw [List.mem_singleton.mp new]⟩
      by_cases early : now < D.end_time
      · obtain rfl : _ = t := Except.ok.inj ((turn_early early).symm.trans done)
        refine ⟨_, _, _, rfl, .harden now early, ⟨tidy.workers, asking, answers WORK_HARDER, rfl⟩, rfl, ?_,
          by simp [Sys.tasks], rfl, rfl⟩
        have hard : answering ⟨identity,[[],WORK_HARDER]⟩ = {(.hardening,identity)} := rfl
        simp only [Moved, Sys.census, roll_append, roll_cons, roll_nil, hard, ← Multiset.singleton_add]
        abel
      · obtain rfl : _ = t := Except.ok.inj ((turn_late early).symm.trans done)
        refine ⟨_, _, _, rfl, .fire now early, ⟨tidy.workers, asking, answers FIRED, rfl⟩, rfl, ?_,
          by simp [Sys.tasks], rfl, by simp⟩
        have fires : answering ⟨identity,[[],FIRED]⟩ = {(.firing,identity)} := rfl
        simp only [Moved, Sys.census, roll_append, roll_cons, roll_nil, fires, ← Multiset.singleton_add]
        abel

end

/-! ### What holds of every state -/

structure Valid (D : Deployment) (s : Sys) : Prop where
  tidy : Tidy D s
  workers : s.workers.map Worker.identity = D.workers
  tokens : tokens s.census = D.workers
  counted : s.worker_fired + load employed s.census = D.work_count
  loop : s.running = true ↔ s.worker_fired ≠ D.work_count

section
variable {D : Deployment} {s t : Sys} {a : Action} {place : Place} {x : Text}

theorem census_initial (D : Deployment) :
    (initial D).census = (↑(D.workers.map fun w => (Place.starting,w)) : Multiset (Place × Text)) := by
  have workers : ∀ ids : List Text, roll Worker.census (ids.map fun identity => ⟨identity,.sending,0,.fresh⟩) =
      (↑(ids.map fun w => (Place.starting,w)) : Multiset (Place × Text)) := by
    intro ids
    induction ids with
    | nil => rfl
    | cons identity ids ih => simp [Worker.census, ih]
  simp [Sys.census, initial, workers]

theorem valid_initial (D : Deployment) : Valid D (initial D) where
  tidy := by
    refine ⟨?_, by simp [initial], by simp [initial], rfl⟩
    intro w member
    obtain ⟨identity, -, rfl⟩ := List.mem_map.mp member
    exact ⟨rfl, by simp, by simp⟩
  workers := by simp [initial, Function.comp_def]
  tokens := by rw [census_initial, tokens_at]
  counted := by rw [census_initial, load_at]; simp [initial, employed, Deployment.work_count]
  loop := by
    have some : D.work_count ≠ 0 := by simpa [Deployment.work_count] using D.some_worker
    simpa [initial] using Ne.symm some

theorem Valid.mem (valid : Valid D s) (here : (place,x) ∈ s.census) : x ∈ D.workers := by
  have member : x ∈ Census.tokens s.census := mem_tokens.mpr ⟨place, here⟩
  rwa [valid.tokens] at member

theorem Valid.distinct (valid : Valid D s) : (Census.tokens s.census).Nodup := by
  rw [valid.tokens]
  exact Multiset.coe_nodup.mpr D.distinct

theorem Valid.place_unique (valid : Valid D s) {other : Place} (here : (place,x) ∈ s.census)
    (there : (other,x) ∈ s.census) : place = other := by
  obtain ⟨_, _, alone⟩ := unique_place valid.distinct (mem_tokens.mpr ⟨place, here⟩)
  exact (alone place here).trans (alone other there).symm

theorem mem_census_worker {w : Worker} (there : w ∈ s.workers) {entry : Place × Text} (here : entry ∈ w.census) :
    entry ∈ s.census :=
  Multiset.mem_add.mpr (.inl (Multiset.mem_add.mpr (.inl (mem_roll.mpr ⟨w, there, here⟩))))

/-- What the broker answers reaches a worker. -/
theorem Valid.known (valid : Valid D s) (m : Message) (sent : m ∈ s.broker.outbox) :
    m.first ∈ s.workers.map Worker.identity := by
  rw [valid.workers]
  have here : (if verdict m = FIRED then Place.firing else .hardening,m.first) ∈ s.census :=
    Multiset.mem_add.mpr (.inr (mem_roll.mpr ⟨m, sent, Multiset.mem_singleton_self _⟩))
  exact valid.mem here

theorem step_effect (valid : Valid D s) (stepped : step D s a = .ok t) :
    ∃ i j x, Passage D a i j ∧ Effect D s t i j x ∧ hardens D ⟨s,a,t⟩ = if j = .hardening then some x else none := by
  cases a with
  | worker n =>
    obtain ⟨i, j, x, passage, effect⟩ := worker_effect valid.tidy stepped
    exact ⟨i, j, x, passage, effect, by cases passage <;> rfl⟩
  | from_worker n =>
    obtain ⟨x, effect⟩ := from_worker_effect valid.tidy stepped
    exact ⟨_, _, x, .asked n, effect, rfl⟩
  | to_worker n =>
    obtain ⟨x, hardens | fires⟩ := to_worker_effect valid.tidy valid.known stepped
    · exact ⟨_, _, x, .hardened n, hardens, rfl⟩
    · exact ⟨_, _, x, .fired n, fires, rfl⟩
  | broker now =>
    obtain ⟨m, rest, k, first, passage, effect⟩ := turn_effect valid.tidy stepped
    refine ⟨_, k, _, passage, effect, ?_⟩
    cases passage with
    | harden _ early => simp [hardens, first, early]
    | fire _ late => simp [hardens, late]

theorem valid_step (valid : Valid D s) (stepped : step D s a = .ok t) : Valid D t := by
  obtain ⟨i, j, x, passage, effect, -⟩ := step_effect valid stepped
  have balance := effect.moved.load employed
  have counted := valid.counted
  refine ⟨effect.tidy, effect.same.trans valid.workers, effect.moved.tokens.trans valid.tokens, ?_, ?_⟩
  · rw [effect.worker_fired]
    cases passage <;> simp [employed] at balance ⊢ <;> omega
  · rw [effect.running]
    by_cases fires : j = .firing
    · simp [fires]
    · rw [if_neg fires, effect.worker_fired, if_neg fires]
      exact valid.loop

theorem valid_run {ms : List (Move Sys Action)} (run : Run (Succeeds (step D)) (initial D) ms t) : Valid D t :=
  (run.inductive_invariant (fun _ _ _ valid stepped => valid_step valid stepped) (valid_initial D)).2

/-- The broker is in its loop as long as there is a worker that it has not fired. -/
theorem loop_iff (valid : Valid D s) : s.running = false ↔ ∀ place w, (place,w) ∈ s.census → employed place = 0 := by
  have counted := valid.counted
  have last : s.running = false ↔ s.worker_fired = D.work_count := by
    rw [← Bool.not_eq_true, valid.loop, not_not]
  rw [last]
  constructor
  · intro all place w here
    have light := weight_le_load employed here
    omega
  · intro all
    by_contra some
    obtain ⟨place, w, here, heavy⟩ := exists_of_load employed (c := s.census) (by omega)
    have light := all place w here
    omega

/-! ### One place each -/

/-- In every state of every run, each worker is at one place and there once. `worker_fired`
    is the number of workers that are fired, and the broker is in its loop until there is
    no other. -/
theorem firing_exactly_one {ms : List (Move Sys Action)} (run : Run (Succeeds (step D)) (initial D) ms t) :
    (t.census.Nodup ∧ ∀ w ∈ D.workers, ∃! place, (place,w) ∈ t.census) ∧
      t.worker_fired + load employed t.census = D.work_count ∧
        (t.running = false ↔ ∀ place w, (place,w) ∈ t.census → employed place = 0) := by
  have valid := valid_run run
  refine ⟨⟨nodup_of_tokens valid.distinct, fun w member => unique_place valid.distinct ?_⟩, valid.counted, loop_iff valid⟩
  rw [valid.tokens]
  exact Multiset.mem_coe.mpr member

theorem firing_exactly_one_dealers : (exec (step dealers) (initial dealers) shift).isOk = true ∧
    ((final (step dealers) (initial dealers) shift).census.Nodup ∧
      ∀ w ∈ dealers.workers, ∃! place, (place,w) ∈ (final (step dealers) (initial dealers) shift).census) ∧
    (final (step dealers) (initial dealers) shift).worker_fired +
        load employed (final (step dealers) (initial dealers) shift).census = dealers.work_count ∧
      ((final (step dealers) (initial dealers) shift).running = false ↔
        ∀ place w, (place,w) ∈ (final (step dealers) (initial dealers) shift).census → employed place = 0) :=
  ⟨by decide, firing_exactly_one (run_final (step dealers) (by decide))⟩

/-! ### No step halts -/

theorem turn_runs {w : Worker} (tidy : w.Tidy D.kind)
    (due : w.stage = .sending ∨ w.stage = .waiting ∧ w.socket.inbox ≠ []) : ∃ v, w.turn D.kind = .ok v := by
  obtain ⟨identity, stage, total, ⟨inbox, pending, outbox⟩⟩ := w
  rcases due with rfl | ⟨rfl, arrived⟩
  · exact ⟨_, rfl⟩
  · cases inbox with
    | nil => simp at arrived
    | cons m rest =>
      obtain ⟨text, rfl⟩ := tidy.2.1 m List.mem_cons_self
      by_cases fired : FIRED = text
      · exact ⟨_, by simp [Worker.turn, D.kind.receives, fired, bind, Except.bind]; rfl⟩
      · exact ⟨_, by simp [Worker.turn, D.kind.receives, fired, bind, Except.bind]; rfl⟩

theorem turn_disabled {w : Worker} (tidy : w.Tidy D.kind) {halt : Halt} (stopped : w.turn D.kind = .error halt) :
    halt = .disabled := by
  by_cases due : w.stage = .sending ∨ w.stage = .waiting ∧ w.socket.inbox ≠ []
  · obtain ⟨v, turned⟩ := turn_runs tidy due
    rw [turned] at stopped
    cases stopped
  · obtain ⟨identity, stage, total, ⟨inbox, pending, outbox⟩⟩ := w
    cases stage with
    | sending => simp at due
    | waiting =>
      obtain rfl : inbox = [] := by simpa using due
      cases stopped
      rfl
    | finished =>
      cases stopped
      rfl

/-- A round of the broker is answered, at any time. -/
theorem broker_runs (tidy : Tidy D s) (running : s.running = true) (arrived : s.broker.inbox ≠ []) (now : Nat) :
    ∃ t, s.turn D now = .ok t := by
  obtain ⟨workers, ⟨inbox, pending, outbox⟩, worker_fired, _⟩ := s
  obtain rfl : pending = [] := tidy.pending
  obtain rfl : _ = true := running
  cases inbox with
  | nil => simp at arrived
  | cons m rest =>
    obtain ⟨identity, more⟩ := m
    obtain rfl : more = [[],READY] := tidy.asking _ List.mem_cons_self
    by_cases early : now < D.end_time
    · exact ⟨_, turn_early early⟩
    · exact ⟨_, turn_late early⟩

/-- Whatever a thread does next, in every state of every run, it does it or waits; what
    the broker sends is for a worker that there is. -/
theorem firing_never_halts {ms : List (Move Sys Action)} (run : Run (Succeeds (step D)) (initial D) ms t) :
    (∀ a halt, step D t a = .error halt → halt = .disabled) ∧ ∀ m ∈ t.broker.outbox, m.first ∈ D.workers := by
  have valid := valid_run run
  constructor
  · intro a halt stopped
    cases a with
    | worker j =>
      simp only [step, Sys.worker] at stopped
      cases here : t.workers[j]? with
      | none =>
        simp only [here] at stopped
        cases stopped
        rfl
      | some w =>
        simp only [here] at stopped
        cases turned : w.turn D.kind with
        | ok v =>
          rw [turned] at stopped
          cases stopped
        | error e =>
          rw [turned] at stopped
          cases stopped
          exact turn_disabled (valid.tidy.workers w (List.mem_of_getElem? here)) turned
    | from_worker j =>
      simp only [step, Sys.from_worker] at stopped
      split at stopped
      · cases stopped; rfl
      · split at stopped
        · cases stopped; rfl
        · cases stopped
    | to_worker i =>
      simp only [step, Sys.to_worker] at stopped
      split at stopped
      · cases stopped; rfl
      · cases stopped
    | broker now =>
      by_cases waits : !t.running ∨ t.broker.inbox = []
      · rw [step, Sys.turn, if_pos waits] at stopped
        cases stopped
        rfl
      · obtain ⟨running, arrived⟩ := not_or.mp waits
        obtain ⟨u, turned⟩ := broker_runs valid.tidy (by simpa using running) arrived now
        rw [step, turned] at stopped
        cases stopped
  · intro m sent
    have known := valid.known m sent
    rwa [valid.workers] at known

theorem firing_never_halts_dealers : (exec (step dealers) (initial dealers) shift).isOk = true ∧
    (∀ a halt, step dealers (final (step dealers) (initial dealers) shift) a = .error halt → halt = .disabled) ∧
      ∀ m ∈ (final (step dealers) (initial dealers) shift).broker.outbox, m.first ∈ dealers.workers :=
  ⟨by decide, firing_never_halts (run_final (step dealers) (by decide))⟩

/-! ### The tasks -/

theorem working_moved {c d : Multiset (Place × Text)} {i j : Place} (moved : Moved i j x c d) :
    (if j.working then {x} else 0) + working c = (if i.working then {x} else 0) + working d := by
  have same := congrArg working moved
  rwa [working_cons, working_cons] at same

/-- What the workers have counted and have yet to count is what they were answered. -/
theorem tasks_step {h : List (Move Sys Action)} (valid : Valid D s)
    (counted : s.tasks + working s.census = h.filterMap (hardens D)) (stepped : step D s a = .ok t) :
    t.tasks + working t.census = (h ++ [(⟨s,a,t⟩ : Move Sys Action)]).filterMap (hardens D) := by
  obtain ⟨i, j, x, passage, effect, sent⟩ := step_effect valid stepped
  have moved := working_moved effect.moved
  rw [effect.tasks, List.filterMap_append, ← Multiset.coe_add, ← counted, add_assoc, add_assoc]
  congr 1
  cases passage with
  | count n =>
    have none : [(⟨s,.worker n,t⟩ : Move Sys Action)].filterMap (hardens D) = [] := by simp [sent]
    simpa [Place.working, none] using moved.symm
  | harden now early =>
    have one : [(⟨s,.broker now,t⟩ : Move Sys Action)].filterMap (hardens D) = [x] := by simp [sent]
    rw [one, add_comm (working s.census)]
    simpa [Place.working] using moved.symm
  | hardened n =>
    have none : [(⟨s,.to_worker n,t⟩ : Move Sys Action)].filterMap (hardens D) = [] := by simp [sent]
    simpa [Place.working, none] using moved.symm
  | _ => simpa [Place.working, sent] using moved.symm

theorem count_tasks {l : List Worker} {w : Worker} (distinct : (l.map Worker.identity).Nodup) (member : w ∈ l) :
    (roll Worker.tasks l).count w.identity = w.total := by
  induction l with
  | nil => cases member
  | cons v l ih =>
    obtain ⟨new, rest⟩ := List.nodup_cons.mp distinct
    rw [roll_cons, Multiset.count_add, Worker.tasks, Multiset.count_replicate]
    rcases List.mem_cons.mp member with rfl | later
    · have none : (roll Worker.tasks l).count w.identity = 0 := by
        refine Multiset.count_eq_zero.mpr fun here => ?_
        obtain ⟨u, there, same⟩ := mem_roll.mp here
        exact new (List.mem_map.mpr ⟨u, there, (Multiset.eq_of_mem_replicate same).symm⟩)
      rw [if_pos rfl, none, Nat.add_zero]
    · have other : v.identity ≠ w.identity := fun same => new (same ▸ List.mem_map.mpr ⟨w, later, rfl⟩)
      rw [if_neg other, Nat.zero_add, ih rest later]

theorem mem_working {c : Multiset (Place × Text)} (here : x ∈ working c) : ∃ place, (place,x) ∈ c ∧ place.working = true := by
  obtain ⟨⟨place, y⟩, member, rfl⟩ := Multiset.mem_map.mp here
  obtain ⟨there, works⟩ := Multiset.mem_filter.mp member
  exact ⟨place, there, works⟩

/-- The total of a worker, with the answer that it has not counted yet if there is one, is
    the number of times that the broker told it to work harder; when it has ended, its
    total is that number. -/
theorem firing_totals {ms : List (Move Sys Action)} (run : Run (Succeeds (step D)) (initial D) ms t) :
    ∀ w ∈ t.workers,
      w.total + (working t.census).count w.identity = (ms.filterMap (hardens D)).count w.identity ∧
        (w.stage = .finished → w.total = (ms.filterMap (hardens D)).count w.identity) := by
  have valid := valid_run run
  have counted : Valid D t ∧ t.tasks + working t.census = ↑(ms.filterMap (hardens D)) := by
    refine run.history (I := fun h s => Valid D s ∧ s.tasks + working s.census = ↑(h.filterMap (hardens D)))
      (C := fun _ _ => True) ?_ ⟨valid_initial D, ?_⟩ fun _ _ => trivial
    · intro h s a t _ ⟨valid, counted⟩ stepped
      exact ⟨valid_step valid stepped, tasks_step valid counted stepped⟩
    · have tasks : ∀ ids : List Text, roll Worker.tasks (ids.map fun identity => ⟨identity,.sending,0,.fresh⟩) = 0 := by
        intro ids
        induction ids with
        | nil => rfl
        | cons identity ids ih => simp [Worker.tasks, ih]
      have idle : working (initial D).census = 0 := by
        refine Multiset.eq_zero_of_forall_notMem fun x here => ?_
        obtain ⟨place, member, works⟩ := mem_working here
        rw [census_initial] at member
        obtain ⟨w, -, same⟩ := List.mem_map.mp (Multiset.mem_coe.mp member)
        cases same
        cases works
      rw [idle, Sys.tasks, initial, tasks]
      rfl
  intro w member
  have total : t.tasks.count w.identity = w.total := by
    refine count_tasks ?_ member
    rw [valid.workers]
    exact D.distinct
  have all : w.total + (working t.census).count w.identity = (ms.filterMap (hardens D)).count w.identity := by
    have every : (ms.filterMap (hardens D)).count w.identity = (t.tasks + working t.census).count w.identity := by
      rw [counted.2, Multiset.coe_count]
      congr 1
      exact lawful_beq_subsingleton _ _
    rw [every, Multiset.count_add, total]
  refine ⟨all, fun finished => ?_⟩
  have idle : (working t.census).count w.identity = 0 := by
    refine Multiset.count_eq_zero.mpr fun here => ?_
    obtain ⟨place, there, works⟩ := mem_working here
    have ended : (Place.ended,w.identity) ∈ t.census :=
      mem_census_worker member (by simp [Worker.census, finished])
    rw [valid.place_unique there ended] at works
    cases works
  omega

theorem firing_totals_dealers :
    ((final (step dealers) (initial dealers) (shift ++ dismissal)).workers.map fun w => (w.total,w.stage)) =
      [(1,.finished),(0,.finished)] ∧
    ∀ w ∈ (final (step dealers) (initial dealers) (shift ++ dismissal)).workers,
      w.total + (working (final (step dealers) (initial dealers) (shift ++ dismissal)).census).count w.identity =
          ((moves (step dealers) (initial dealers) (shift ++ dismissal)).filterMap (hardens dealers)).count w.identity ∧
        (w.stage = .finished → w.total =
          ((moves (step dealers) (initial dealers) (shift ++ dismissal)).filterMap (hardens dealers)).count w.identity) :=
  ⟨by decide, firing_totals (run_final (step dealers) (by decide))⟩

/-! ### The end -/

/-- A late step takes its worker to a place that weighs one less. -/
def weight : Place → Nat
  | .hardening => 7
  | .hardened => 6
  | .starting => 5
  | .asking => 4
  | .asked => 3
  | .firing => 2
  | .fired => 1
  | .ended => 0

/-- The time that the broker reads, if it does, is not before the end. -/
def Late (D : Deployment) (_ : Sys) (a : Action) : Prop := ∀ now, a = .broker now → D.end_time ≤ now

theorem weight_step (late : Late D s a) (valid : Valid D s) (stepped : step D s a = .ok t) :
    load weight t.census < load weight s.census := by
  obtain ⟨i, j, x, passage, effect, -⟩ := step_effect valid stepped
  have balance := effect.moved.load weight
  cases passage with
  | harden now early => exact absurd (late now rfl) (by omega)
  | _ => simp only [weight] at balance; omega

theorem ended_worker (here : (Place.ended,x) ∈ s.census) :
    ∃ w ∈ s.workers, w.identity = x ∧ w.stage = .finished := by
  simp only [Sys.census, Multiset.mem_add, mem_roll] at here
  rcases here with (⟨w, member, entry⟩ | ⟨m, -, stands⟩) | ⟨m, -, stands⟩
  · simp only [Worker.census, Multiset.mem_add, mem_roll] at entry
    rcases entry with (stands | ⟨m, -, answer⟩) | ⟨m, -, asks⟩
    · refine ⟨w, member, ?_⟩
      cases stage : w.stage with
      | sending => simp [stage] at stands
      | waiting => simp [stage] at stands
      | finished => exact ⟨by simpa [stage, eq_comm] using stands, rfl⟩
    · by_cases fired : verdict m = FIRED <;> simp [answered, fired] at answer
    · simp at asks
  · simp at stands
  · by_cases fired : verdict m = FIRED <;> simp [answering, fired] at stands

/-- A worker that has not ended can go on, or its message can, or the broker can. -/
theorem can_step (valid : Valid D s) (here : (place,x) ∈ s.census) (going : place ≠ .ended) :
    ∃ a t, step D s a = .ok t := by
  have there := here
  simp only [Sys.census, Multiset.mem_add, mem_roll] at here
  rcases here with (⟨w, member, entry⟩ | ⟨m, arrived, stands⟩) | ⟨m, sent, -⟩
  · obtain ⟨n, place_w⟩ := List.mem_iff_getElem?.mp member
    have turns : w.stage = .sending ∨ w.stage = .waiting ∧ w.socket.inbox ≠ [] → ∃ a t, step D s a = .ok t := by
      intro due
      obtain ⟨v, turned⟩ := turn_runs (valid.tidy.workers w member) due
      exact ⟨.worker n, _, by simp only [step, Sys.worker, place_w, turned, Except.map]; rfl⟩
    simp only [Worker.census, Multiset.mem_add, mem_roll] at entry
    rcases entry with (stands | ⟨m, arrived, answer⟩) | ⟨m, sent, -⟩
    · cases stage : w.stage with
      | sending => exact turns (.inl stage)
      | waiting => simp [stage] at stands
      | finished =>
        rw [stage, census_finished, Multiset.mem_singleton, Prod.mk.injEq] at stands
        exact absurd stands.1 going
    · cases stage : w.stage with
      | sending => exact turns (.inl stage)
      | waiting => exact turns (.inr ⟨stage, List.ne_nil_of_mem arrived⟩)
      | finished =>
        -- a worker that has ended is at its end, so that no answer can have arrived as well
        have ended : (Place.ended,w.identity) ∈ s.census := mem_census_worker member (by simp [Worker.census, stage])
        obtain ⟨-, rfl⟩ : place = _ ∧ x = w.identity := by simpa [answered] using answer
        exact absurd (valid.place_unique there ended) going
    · cases left : w.socket.outbox with
      | nil => simp [left] at sent
      | cons first rest => exact ⟨.from_worker n, _, by simp only [step, Sys.from_worker, place_w, left]; rfl⟩
  · obtain ⟨rfl, rfl⟩ : place = .asked ∧ x = m.first := by simpa using stands
    have light := weight_le_load employed there
    have counted := valid.counted
    simp only [employed] at light
    have running : s.running = true := valid.loop.mpr (by omega)
    obtain ⟨t, turned⟩ := broker_runs valid.tidy running (List.ne_nil_of_mem arrived) D.end_time
    exact ⟨.broker D.end_time, t, turned⟩
  · obtain ⟨n, leaving⟩ := List.mem_iff_getElem?.mp sent
    exact ⟨.to_worker n, _, by simp only [step, Sys.to_worker, leaving]; rfl⟩

/-- Once the time of the broker has passed there are at most seven more steps for each
    worker; and a run that cannot go on has ended the loop of the broker and every
    worker. -/
theorem firing_ends {front back : List (Move Sys Action)}
    (run : Run (Succeeds (step D)) (initial D) (front ++ back) t) :
    ((∀ m ∈ back, Late D m.pre m.act) → back.length ≤ 7 * D.work_count) ∧
      ((∀ a u, step D t a ≠ .ok u) → t.running = false ∧ ∀ w ∈ t.workers, w.stage = .finished) := by
  have valid := valid_run run
  constructor
  · intro late
    obtain ⟨s, before, after⟩ := run.parts
    have start := valid_run before
    have short := after.length_le (C := Late D) (fun s : Sys => load weight s.census) (fun _ _ _ _ valid stepped => valid_step valid stepped)
      (fun _ _ _ late valid stepped => weight_step late valid stepped) start late
    have all := load_le weight (k := 7) (fun i => by cases i <;> decide) s.census
    rw [start.tokens, Multiset.coe_card] at all
    have counted : D.workers.length = D.work_count := rfl
    omega
  · intro stuck
    have ended : ∀ place x, (place,x) ∈ t.census → place = .ended := by
      intro place x here
      by_contra going
      obtain ⟨a, u, stepped⟩ := can_step valid here going
      exact stuck a u stepped
    refine ⟨(loop_iff valid).mpr fun place w here => by rw [ended place w here]; rfl, fun w member => ?_⟩
    have known : w.identity ∈ Census.tokens t.census := by
      rw [valid.tokens, ← valid.workers]
      exact Multiset.mem_coe.mpr (List.mem_map.mpr ⟨w, member, rfl⟩)
    obtain ⟨place, here⟩ := mem_tokens.mp known
    rw [ended place _ here] at here
    obtain ⟨v, there, same, finished⟩ := ended_worker here
    have distinct : (t.workers.map Worker.identity).Nodup := by
      rw [valid.workers]
      exact D.distinct
    rwa [← List.inj_on_of_nodup_map distinct there member same]

theorem firing_ends_dealers :
    let between := final (step dealers) (initial dealers) shift
    let last := final (step dealers) between dismissal
    (moves (step dealers) between dismissal).length ≤ 7 * dealers.work_count ∧
      last.running = false ∧ ∀ w ∈ last.workers, w.stage = .finished := by
  intro between last
  have run : Run (Succeeds (step dealers)) (initial dealers) _ last :=
    (run_final (step dealers) (by decide)).append (run_final (step dealers) (by decide))
  have late : ∀ a ∈ dismissal, ∀ s, Late dealers s a := by
    intro a member s now reads
    rw [reads] at member
    revert member
    simp [dismissal, dealers]
    omega
  have ended : last = ⟨[⟨[65],.finished,1,.fresh⟩,⟨[66],.finished,0,.fresh⟩],.fresh,2,false⟩ := by decide
  have stuck : ∀ a u, step dealers last a ≠ .ok u := by
    rw [ended]
    intro a u stepped
    cases a with
    | worker j => rcases j with _ | _ | j <;> cases stepped
    | from_worker j => rcases j with _ | _ | j <;> cases stepped
    | to_worker i => cases stepped
    | broker now => cases stepped
  exact ⟨(firing_ends run).1 fun m member => late m.act (act_of_moves _ member) m.pre, (firing_ends run).2 stuck⟩

end

end Canna.Firing
