import Canna.Lts
import Canna.Passages

/-!
# Brokers that peer

`peering1.cpp`: each broker serves its own clients with its own workers, for ever, and
tells a peer of every request it dispatches. `capacity` counts the workers that are
ready. In every run of any number of brokers, in any order of their steps and messages,
`capacity` is the length of the queue, and each worker and client of each broker is at
one place (`peering_exactly_one`). A broker started with a peer never halts; one started
alone makes a string of a null pointer at its first request, and nowhere else
(`peering_halts_iff`).
-/
namespace Canna.Peering
open Canna.Census Canna.Multipart Canna.Brokerage Canna.Lts
open Canna.Names (Text)

def HELLO : Text := [72,69,76,76,79]
def SUCCESS : Text := [83,85,67,67,69,83,83]
def WORLD : Text := [87,79,82,76,68]
def CLOUD : Text := [67,76,79,85,68]
def ACK_ECHO : Text := [65,67,75,32,69,67,72,79]

/-! ### Threads -/

/-- The loop of `worker_task`, which sends back what it receives. -/
def worker_loop (worker : Zsocket) : Except Halt Zsocket := do
  let (address,worker) ← canna_recv worker
  let (_,worker) ← canna_recv worker
  let (reply,worker) ← canna_recv worker
  return canna_send (canna_sendmore (canna_sendmore worker address) []) reply

/-- `client_task` sends its next request once it has the reply. -/
def program : Program where
  request := HELLO
  next := fun _ => .sending
  after := .starting
  loop := worker_loop
  lands := fun _ _ => rfl
  answers := fun _ text _ _ => ⟨text, rfl⟩

/-! ### A broker -/

/-- Where a broker stands: before the first poll, at the tests of what it has found, at
    the head of the inner loop, or at the tests of what the second poll has found. -/
inductive Pc
  | polling
  | serving (localbe cloudbe : Bool)
  | listening (cloudbe : Bool)
  | looping
  | echoing (localfe cloudfe : Bool)
  | dispatching (localfe : Bool)
  deriving DecidableEq

/-- The arguments of a broker, of which `cloud` is the last peer, null without one, and the
    identities of its threads. -/
structure Setup where
  self : Text
  cloud : Option Text
  threads : Deployment

/-- A broker; `localfe` and `localbe` are the sockets of its hall. -/
structure Broker extends Setup where
  hall : Hall
  cloudfe : Zsocket
  cloudbe : Zsocket
  capacity : Int
  pc : Pc

/-- The identity of `cloudbe`. -/
def cloud_id (self : Text) : Text := self ++ [98,101]

/-- The message of a worker. -/
def serve_localbe (h : Hall) (capacity : Int) : Except Halt (Hall × Int) := do
  let (work_identity,localbe) ← canna_recv h.backend
  let (_,localbe) ← canna_recv localbe
  let worker_queue := h.worker_queue ++ [work_identity]
  let capacity := capacity + 1
  let (client_addr,localbe) ← canna_recv localbe
  if client_addr = READY then return ({ h with backend := localbe, worker_queue := worker_queue },capacity)
  else
    let (_,localbe) ← canna_recv localbe
    let (_,localbe) ← canna_recv localbe
    let localfe := canna_send (canna_sendmore (canna_sendmore h.frontend client_addr) []) SUCCESS
    return ({ h with backend := localbe, frontend := localfe, worker_queue := worker_queue },capacity)

/-- The answer of a peer, which is only printed. -/
def hear (cloudbe : Zsocket) : Except Halt Zsocket := do
  let (_,cloudbe) ← canna_recv cloudbe
  let (_,cloudbe) ← canna_recv cloudbe
  return cloudbe

/-- What a peer tells, with the answer to it. -/
def echo (cloudfe : Zsocket) : Except Halt Zsocket := do
  let (cloud_identity,cloudfe) ← canna_recv cloudfe
  let (_,cloudfe) ← canna_recv cloudfe
  return canna_send (canna_sendmore cloudfe cloud_identity) ACK_ECHO

/-- The request of a client. -/
def dispatch (b : Broker) : Except Halt Broker := do
  let (identity,localfe) ← canna_recv b.hall.frontend
  let (_,localfe) ← canna_recv localfe
  let (_,localfe) ← canna_recv localfe
  match b.cloud with
  | none => throw .nullString
  | some cloud =>
    let cloudbe := canna_send (canna_sendmore b.cloudbe cloud) CLOUD
    match b.hall.worker_queue with
    | [] => throw .emptyQueue
    | worker_addr :: worker_queue =>
      let localbe := canna_sendmore (canna_sendmore b.hall.backend worker_addr) []
      let localbe := canna_send (canna_sendmore (canna_sendmore localbe identity) []) WORLD
      return { b with
        hall := { b.hall with frontend := localfe, backend := localbe, worker_queue := worker_queue }
        cloudbe := cloudbe
        capacity := b.capacity - 1
        pc := .looping }

/-- The next step of a broker; its polls do not wait. -/
def Broker.next (b : Broker) : Except Halt Broker :=
  match b.pc with
  | .polling => .ok { b with pc := .serving (!b.hall.backend.inbox.isEmpty) (!b.cloudbe.inbox.isEmpty) }
  | .serving localbe cloudbe =>
    if localbe then do
      let (hall,capacity) ← serve_localbe b.hall b.capacity
      return { b with hall := hall, capacity := capacity, pc := .listening cloudbe }
    else .ok { b with pc := .listening cloudbe }
  | .listening cloudbe =>
    if cloudbe then do
      let cloudbe ← hear b.cloudbe
      return { b with cloudbe := cloudbe, pc := .looping }
    else .ok { b with pc := .looping }
  | .looping =>
    if b.capacity ≠ 0 then
      .ok { b with pc := .echoing (!b.hall.frontend.inbox.isEmpty) (!b.cloudfe.inbox.isEmpty) }
    else .ok { b with pc := .polling }
  | .echoing localfe cloudfe =>
    if cloudfe then do
      let cloudfe ← echo b.cloudfe
      return { b with cloudfe := cloudfe, pc := .dispatching localfe }
    else .ok { b with pc := .dispatching localfe }
  | .dispatching localfe => if localfe then dispatch b else .ok { b with pc := .polling }

/-- A step of a broker, of its threads, or of a message between them. -/
inductive Action
  | next
  | act (a : Act)
  deriving DecidableEq

def Broker.step (Z : Transport) (b : Broker) : Action → Except Halt Broker
  | .next => b.next
  | .act a => (b.hall.act Z program a).map fun hall => { b with hall := hall }

/-! ### The brokers together -/

/-- A step at a broker, or a message that leaves its `cloudbe` or its `cloudfe` for a peer. -/
inductive Step
  | broker (i : Nat) (a : Action)
  | cloudbe (i : Nat) (connected : Bool)
  | cloudfe (i : Nat) (connected : Bool)
  deriving DecidableEq

/-- Messages arrive at `cloudfe`. -/
def Broker.told (messages : List Message) (b : Broker) : Broker :=
  { b with cloudfe := { b.cloudfe with inbox := b.cloudfe.inbox ++ messages } }

/-- Messages arrive at `cloudbe`. -/
def Broker.answered (messages : List Message) (b : Broker) : Broker :=
  { b with cloudbe := { b.cloudbe with inbox := b.cloudbe.inbox ++ messages } }

/-- The first broker with a property gets a message. -/
def pass (brokers : List Broker) (connected : Bool) (peer : Broker → Bool) (arrive : Broker → Broker) : List Broker :=
  if connected then brokers.modify (brokers.findIdx peer) arrive else brokers

/-- One broker steps, or a router socket passes a message on to the peer that has its first
    frame as identity; it drops a message for a peer that is not connected, or that takes
    no more for now. -/
def step (Z : Transport) (brokers : List Broker) : Step → Except Halt (List Broker)
  | .broker i a =>
    match brokers[i]? with
    | none => .error .disabled
    | some b => (b.step Z a).map fun b => brokers.set i b
  | .cloudbe i connected =>
    match brokers[i]? with
    | none => .error .disabled
    | some b =>
      match b.cloudbe.outbox with
      | ⟨peer,frame :: frames⟩ :: rest =>
        .ok (pass (brokers.set i { b with cloudbe := { b.cloudbe with outbox := rest } }) connected
          (fun other => other.self = peer) (Broker.told (Z.router_router (cloud_id b.self) ⟨frame,frames⟩)))
      | _ => .error .disabled
  | .cloudfe i connected =>
    match brokers[i]? with
    | none => .error .disabled
    | some b =>
      match b.cloudfe.outbox with
      | ⟨identity,frame :: frames⟩ :: rest =>
        .ok (pass (brokers.set i { b with cloudfe := { b.cloudfe with outbox := rest } }) connected
          (fun other => cloud_id other.self = identity) (Broker.answered (Z.router_router b.self ⟨frame,frames⟩)))
      | _ => .error .disabled

/-- A broker before its loop. -/
def Setup.start (setup : Setup) : Broker := ⟨setup,Hall.initial setup.threads,.fresh,.fresh,0,.polling⟩

def initial (setups : List Setup) : List Broker := setups.map Setup.start

/-- One client and one worker. -/
def couple : Deployment :=
  .of_draws [(10,11)] [(12,13)] (by decide) (by decide) (by decide) (by decide)

/-- A broker without a peer and one that has it as its peer. -/
def neighbours : List Setup := [⟨[65],none,couple⟩,⟨[66],some [65],couple⟩]

/-- The broker takes the announcement of its worker and finds the request of its client. -/
def opening (i : Nat) : List Step :=
  [.broker i (.act (.worker 0)), .broker i (.act (.from_worker 0)), .broker i (.act (.client 0)),
    .broker i (.act (.from_client 0)), .broker i .next, .broker i .next, .broker i .next, .broker i .next, .broker i .next]

/-- The second broker dispatches the request and tells the first of it; the first finds
    what it is told, and the request of its own client. -/
def telling : List Step := opening 1 ++ [.broker 1 .next, .cloudbe 1 true] ++ opening 0

/-! ### Steps of one broker -/

/-- A message of two frames, as the sockets between the brokers pass it on. -/
def Single (m : Message) : Prop := ∃ text, m.more = [text]

/-- What a poll has found is still there. -/
def Polled (b : Broker) : Prop :=
  match b.pc with
  | .serving localbe cloudbe => (localbe = true → b.hall.backend.inbox ≠ []) ∧ (cloudbe = true → b.cloudbe.inbox ≠ [])
  | .listening cloudbe => cloudbe = true → b.cloudbe.inbox ≠ []
  | .echoing localfe cloudfe => (localfe = true → b.hall.frontend.inbox ≠ []) ∧ (cloudfe = true → b.cloudfe.inbox ≠ []) ∧
      b.hall.worker_queue ≠ []
  | .dispatching localfe => (localfe = true → b.hall.frontend.inbox ≠ []) ∧ b.hall.worker_queue ≠ []
  | _ => True

/-- A client whose request has not been dispatched. -/
def Undispatched (place : ClientPlace) : Prop := place = .starting ∨ place = .asking ∨ place = .asked

/-- What holds of every broker at any time. -/
structure Valid (b : Broker) : Prop where
  attended : Attended b.threads b.hall
  counted : b.capacity = b.hall.worker_queue.length
  polled : Polled b
  told : ∀ m ∈ b.cloudfe.inbox ++ b.cloudfe.outbox, Single m
  answered : ∀ m ∈ b.cloudbe.inbox ++ b.cloudbe.outbox, Single m
  pending : b.cloudfe.pending = [] ∧ b.cloudbe.pending = []
  alone : b.cloud = none → ∀ place c, (place,c) ∈ b.hall.client_census → Undispatched place

section
variable {Z : Transport} {b c : Broker} {h t : Hall} {D : Deployment} {capacity : Int}

theorem serve_localbe_ok (attended : Attended D h) (arrived : h.backend.inbox ≠ [])
    (counted : capacity = h.worker_queue.length) :
    ∃ t, serve_localbe h capacity = .ok (t,capacity + 1) ∧ Kept h t ∧ capacity + 1 = t.worker_queue.length ∧
      (Shift h t .announced .queued .served .served ∨ Shift h t .replied .queued .replied .returning) := by
  obtain ⟨clients, workers, ⟨asking, frames, returning⟩, ⟨inbox, pending, leaving⟩, queue⟩ := h
  obtain ⟨rfl, rfl⟩ := attended.orderly.pending
  have longer (w : Text) : capacity + 1 = ((queue ++ [w]).length : Int) := by
    rw [counted, List.length_append]
    rfl
  cases inbox with
  | nil => exact absurd rfl arrived
  | cons m rest =>
    obtain ⟨worker, more⟩ := m
    rcases attended.orderly.arriving _ List.mem_cons_self with ready | ⟨client, text, addressed⟩
    · obtain rfl : more = _ := ready
      obtain ⟨kept, shift⟩ := enqueue_kept attended.orderly rfl rfl rfl
      exact ⟨_, rfl, kept, longer worker, .inl shift⟩
    · have named := attended.reply_named List.mem_cons_self addressed
      obtain rfl : more = _ := addressed
      obtain ⟨kept, shift⟩ := forward_kept SUCCESS attended.orderly rfl rfl rfl
      refine ⟨_, ?_, kept, longer worker, .inr shift⟩
      simp [serve_localbe, named, bind, Except.bind, pure, Except.pure]

/-- A message from a peer is taken whole. -/
theorem hear_ok {cloudbe : Zsocket} (single : ∀ m ∈ cloudbe.inbox, Single m) (arrived : cloudbe.inbox ≠ []) :
    ∃ m rest, cloudbe.inbox = m :: rest ∧ hear cloudbe = .ok { cloudbe with inbox := rest } := by
  obtain ⟨inbox, pending, outbox⟩ := cloudbe
  cases inbox with
  | nil => exact absurd rfl arrived
  | cons m rest =>
    obtain ⟨first, more⟩ := m
    obtain ⟨text, rfl⟩ : Single ⟨first,more⟩ := single _ List.mem_cons_self
    exact ⟨_, rest, rfl, rfl⟩

theorem echo_ok {cloudfe : Zsocket} (single : ∀ m ∈ cloudfe.inbox, Single m) (arrived : cloudfe.inbox ≠ [])
    (pending : cloudfe.pending = []) : ∃ m rest, cloudfe.inbox = m :: rest ∧
      echo cloudfe = .ok ⟨rest,[],cloudfe.outbox ++ [⟨m.first,[ACK_ECHO]⟩]⟩ := by
  obtain ⟨inbox, frames, outbox⟩ := cloudfe
  obtain rfl := pending
  cases inbox with
  | nil => exact absurd rfl arrived
  | cons m rest =>
    obtain ⟨first, more⟩ := m
    obtain ⟨text, rfl⟩ : Single ⟨first,more⟩ := single _ List.mem_cons_self
    exact ⟨_, rest, rfl, rfl⟩

/-- The request of a client is taken whole; the peer is told of it, and it goes to the
    worker at the front. -/
theorem dispatch_ok {cloud : Text} (valid : Valid b) (peer : b.cloud = some cloud) (arrived : b.hall.frontend.inbox ≠ [])
    (queued : b.hall.worker_queue ≠ []) :
    ∃ h, dispatch b = .ok { b with
        hall := h
        cloudbe := { b.cloudbe with outbox := b.cloudbe.outbox ++ [⟨cloud,[CLOUD]⟩] }
        capacity := b.capacity - 1
        pc := .looping } ∧
      Kept b.hall h ∧ Shift b.hall h .queued .assigned .asked .assigned ∧ b.capacity - 1 = h.worker_queue.length := by
  obtain ⟨⟨self, cloud, threads⟩, ⟨clients, workers, ⟨inbox, frames, returning⟩, ⟨arriving, pending, leaving⟩, queue⟩,
    cloudfe, ⟨heard, opened, telling⟩, capacity, pc⟩ := b
  obtain ⟨rfl, rfl⟩ := valid.attended.orderly.pending
  obtain ⟨-, rfl⟩ := valid.pending
  obtain rfl : cloud = some _ := peer
  cases inbox with
  | nil => exact absurd rfl arrived
  | cons m rest =>
    cases queue with
    | nil => exact absurd rfl queued
    | cons worker queue =>
      obtain ⟨client, more⟩ := m
      obtain ⟨text, rfl⟩ : Enclosed ⟨client,more⟩ := valid.attended.orderly.asking _ List.mem_cons_self
      obtain ⟨kept, shift⟩ := dispatch_kept WORLD valid.attended.orderly rfl rfl rfl
      refine ⟨_, rfl, kept, shift, ?_⟩
      have counted : capacity = ((worker :: queue).length : Int) := valid.counted
      rw [List.length_cons] at counted
      show capacity - 1 = (queue.length : Int)
      omega

/-- Without a peer, the address of the peer is a null pointer. -/
theorem dispatch_alone (valid : Valid b) (alone : b.cloud = none) (arrived : b.hall.frontend.inbox ≠ []) :
    dispatch b = .error .nullString := by
  obtain ⟨⟨self, cloud, threads⟩, ⟨clients, workers, ⟨inbox, frames, returning⟩, localbe, queue⟩, cloudfe, cloudbe,
    capacity, pc⟩ := b
  obtain rfl : cloud = none := alone
  cases inbox with
  | nil => exact absurd rfl arrived
  | cons m rest =>
    obtain ⟨client, more⟩ := m
    obtain ⟨text, rfl⟩ : Enclosed ⟨client,more⟩ := valid.attended.orderly.asking _ List.mem_cons_self
    rfl

/-- A client moves to where its request is still undispatched, or was elsewhere before. -/
theorem undispatched_shift {i j : WorkerPlace} {k l : ClientPlace} (shift : Shift h t i j k l)
    (stays : k = l ∨ ¬ Undispatched k ∨ Undispatched l) (before : ∀ place c, (place,c) ∈ h.client_census → Undispatched place) :
    ∀ place c, (place,c) ∈ t.client_census → Undispatched place := by
  obtain ⟨-, x, moved⟩ := shift
  intro place c here
  have member : (place,c) ∈ (l,x) ::ₘ h.client_census := moved ▸ Multiset.mem_cons_of_mem here
  by_cases same : k = l
  · subst same
    have equal : h.client_census = t.client_census := (Multiset.cons_inj_right _).mp moved
    exact before place c (equal ▸ here)
  · have source := before k x (moved.mem same)
    have target : Undispatched l := by
      rcases stays with equal | other | target
      · exact absurd equal same
      · exact absurd source other
      · exact target
    rcases Multiset.mem_cons.mp member with entry | old
    · cases entry
      exact target
    · exact before place c old

theorem undispatched_passage {i j : WorkerPlace} {k l : ClientPlace} (passage : Passage .starting i j k l) :
    k = l ∨ ¬ Undispatched k ∨ Undispatched l := by
  cases passage <;> simp [Undispatched]

theorem single_erase {m : Message} {inbox outbox rest : List Message} (all : ∀ n ∈ inbox ++ outbox, Single n)
    (first : inbox = m :: rest) : ∀ n ∈ rest ++ outbox, Single n := by
  subst first
  intro n member
  exact all n (List.mem_cons_of_mem _ member)

theorem single_append {text : Text} {peer : Text} {messages outbox : List Message}
    (all : ∀ n ∈ messages ++ outbox, Single n) : ∀ n ∈ messages ++ (outbox ++ [⟨peer,[text]⟩]), Single n := by
  intro n member
  rw [← List.append_assoc] at member
  rcases List.mem_append.mp member with old | new
  · exact all n old
  · rw [List.mem_singleton.mp new]
    exact ⟨text, rfl⟩

/-- A broker goes on, unless it has no peer to tell of the request it has found. -/
theorem next_cases (valid : Valid b) : (∃ c, b.next = .ok c ∧ Valid c ∧ c.toSetup = b.toSetup) ∨
    b.next = .error .nullString ∧ b.cloud = none ∧ b.pc = .dispatching true := by
  have polled := valid.polled
  cases here : b.pc with
  | polling =>
    refine .inl ⟨{ b with pc := .serving (!b.hall.backend.inbox.isEmpty) (!b.cloudbe.inbox.isEmpty) },
      by simp only [Broker.next, here], { valid with polled := ?_ }, rfl⟩
    simp [Polled]
  | serving localbe cloudbe =>
    simp only [Polled, here] at polled
    cases localbe with
    | false =>
      exact .inl ⟨{ b with pc := .listening cloudbe }, by simp [Broker.next, here], { valid with polled := polled.2 }, rfl⟩
    | true =>
      obtain ⟨t, served, kept, counted, shifts⟩ := serve_localbe_ok valid.attended (polled.1 rfl) valid.counted
      refine .inl ⟨{ b with hall := t, capacity := b.capacity + 1, pc := .listening cloudbe },
        by simp [Broker.next, here, served, bind, Except.bind, pure, Except.pure], ?_, rfl⟩
      rcases shifts with shift | shift
      · exact { valid with
          attended := valid.attended.shift kept shift
          counted := counted
          polled := polled.2
          alone := fun none => undispatched_shift shift (.inl rfl) (valid.alone none) }
      · exact { valid with
          attended := valid.attended.shift kept shift
          counted := counted
          polled := polled.2
          alone := fun none => undispatched_shift shift (.inr (.inl (by simp [Undispatched]))) (valid.alone none) }
  | listening cloudbe =>
    simp only [Polled, here] at polled
    cases cloudbe with
    | false => exact .inl ⟨{ b with pc := .looping }, by simp [Broker.next, here], { valid with polled := trivial }, rfl⟩
    | true =>
      obtain ⟨m, rest, first, heard⟩ := hear_ok (fun m member => valid.answered m (List.mem_append_left _ member)) (polled rfl)
      exact .inl ⟨{ b with cloudbe := { b.cloudbe with inbox := rest }, pc := .looping },
        by simp [Broker.next, here, heard, bind, Except.bind, pure, Except.pure],
        { valid with polled := trivial, answered := single_erase valid.answered first }, rfl⟩
  | looping =>
    by_cases none : b.capacity = 0
    · refine .inl ⟨{ b with pc := .polling }, ?_, { valid with polled := trivial }, rfl⟩
      simp only [Broker.next, here]
      rw [if_neg (not_not.mpr none)]
    · refine .inl ⟨{ b with pc := .echoing (!b.hall.frontend.inbox.isEmpty) (!b.cloudfe.inbox.isEmpty) }, ?_,
        { valid with polled := ?_ }, rfl⟩
      · simp only [Broker.next, here]
        rw [if_pos none]
      · have counted := valid.counted
        have queued : b.hall.worker_queue ≠ [] := by
          intro empty
          rw [empty] at counted
          exact none counted
        simp [Polled, queued]
  | echoing localfe cloudfe =>
    simp only [Polled, here] at polled
    cases cloudfe with
    | false =>
      exact .inl ⟨{ b with pc := .dispatching localfe }, by simp [Broker.next, here],
        { valid with polled := ⟨polled.1, polled.2.2⟩ }, rfl⟩
    | true =>
      obtain ⟨m, rest, first, echoed⟩ := echo_ok (fun m member => valid.told m (List.mem_append_left _ member))
        (polled.2.1 rfl) valid.pending.1
      exact .inl ⟨{ b with cloudfe := ⟨rest,[],b.cloudfe.outbox ++ [⟨m.first,[ACK_ECHO]⟩]⟩, pc := .dispatching localfe },
        by simp [Broker.next, here, echoed, bind, Except.bind, pure, Except.pure],
        { valid with
          polled := ⟨polled.1, polled.2.2⟩
          told := single_append (single_erase valid.told first)
          pending := ⟨rfl, valid.pending.2⟩ }, rfl⟩
  | dispatching localfe =>
    simp only [Polled, here] at polled
    cases localfe with
    | false => exact .inl ⟨{ b with pc := .polling }, by simp [Broker.next, here], { valid with polled := trivial }, rfl⟩
    | true =>
      cases peer : b.cloud with
      | none =>
        refine .inr ⟨?_, rfl, rfl⟩
        simp only [Broker.next, here, if_true]
        exact dispatch_alone valid peer (polled.1 rfl)
      | some cloud =>
        obtain ⟨t, dispatched, kept, shift, counted⟩ := dispatch_ok valid peer (polled.1 rfl) polled.2
        refine .inl ⟨{ b with
            hall := t
            cloudbe := { b.cloudbe with outbox := b.cloudbe.outbox ++ [⟨cloud,[CLOUD]⟩] }
            capacity := b.capacity - 1
            pc := .looping }, by simp only [Broker.next, here, if_true, dispatched], ?_, rfl⟩
        exact { valid with
          attended := valid.attended.shift kept shift
          counted := counted
          polled := trivial
          answered := single_append valid.answered
          alone := fun none => by simp [peer] at none }

theorem act_valid {a : Act} (valid : Valid b) (done : b.hall.act Z program a = .ok t) : Valid { b with hall := t } := by
  obtain ⟨kept, i, j, k, l, passage, shift⟩ := act_kept valid.attended done
  obtain ⟨⟨more, backend⟩, ⟨further, frontend⟩, queue⟩ := act_arrives done
  have polled := valid.polled
  refine { valid with
    attended := valid.attended.shift kept shift
    counted := by rw [valid.counted]; exact congrArg _ (congrArg _ queue.symm)
    polled := ?_
    alone := fun none => undispatched_shift shift (undispatched_passage passage) (valid.alone none) }
  cases here : b.pc with
  | polling => simp only [Polled]
  | looping => simp only [Polled]
  | serving localbe cloudbe =>
    simp only [Polled, here, backend] at polled ⊢
    exact ⟨fun found => List.append_ne_nil_of_left_ne_nil (polled.1 found) more, polled.2⟩
  | listening cloudbe => simpa only [Polled, here] using polled
  | echoing localfe cloudfe =>
    simp only [Polled, here, frontend, queue] at polled ⊢
    exact ⟨fun found => List.append_ne_nil_of_left_ne_nil (polled.1 found) further, polled.2⟩
  | dispatching localfe =>
    simp only [Polled, here, frontend, queue] at polled ⊢
    exact ⟨fun found => List.append_ne_nil_of_left_ne_nil (polled.1 found) further, polled.2⟩

end

/-! ### Runs of all brokers -/

section
variable {Z : Transport} {bs ts : List Broker} {setups : List Setup} {a : Step} {ms : List (Move (List Broker) Step)}

/-- What arrives of a message of two frames has two frames. -/
theorem single_passed {identity peer frame : Text} {frames : List Text} (single : Single ⟨peer,frame :: frames⟩) :
    ∀ m ∈ Z.router_router identity ⟨frame,frames⟩, Single m := by
  intro m member
  rw [Z.router_arrives, List.mem_singleton] at member
  rw [member]
  exact single

theorem valid_told {b : Broker} {new : List Message} (valid : Valid b) (single : ∀ m ∈ new, Single m) :
    Valid (b.told new) := by
  refine { valid with polled := ?_, told := ?_ }
  · have polled := valid.polled
    cases here : b.pc <;> simp_all [Polled, Broker.told]
  · intro n member
    simp only [Broker.told, List.append_assoc, List.mem_append] at member
    rcases member with old | arrived | old
    · exact valid.told n (List.mem_append_left _ old)
    · exact single n arrived
    · exact valid.told n (List.mem_append_right _ old)

theorem valid_answered {b : Broker} {new : List Message} (valid : Valid b) (single : ∀ m ∈ new, Single m) :
    Valid (b.answered new) := by
  refine { valid with polled := ?_, answered := ?_ }
  · have polled := valid.polled
    cases here : b.pc <;> simp_all [Polled, Broker.answered]
  · intro n member
    simp only [Broker.answered, List.append_assoc, List.mem_append] at member
    rcases member with old | arrived | old
    · exact valid.answered n (List.mem_append_left _ old)
    · exact single n arrived
    · exact valid.answered n (List.mem_append_right _ old)

theorem pass_valid {connected : Bool} {peer : Broker → Bool} {arrive : Broker → Broker} (valid : ∀ b ∈ bs, Valid b)
    (arrives : ∀ b, Valid b → Valid (arrive b)) : ∀ b ∈ pass bs connected peer arrive, Valid b := by
  unfold pass
  split
  · exact forall_modify valid arrives
  · exact valid

theorem pass_setup {connected : Bool} {peer : Broker → Bool} {arrive : Broker → Broker}
    (same : ∀ b, (arrive b).toSetup = b.toSetup) : (pass bs connected peer arrive).map Broker.toSetup = bs.map Broker.toSetup := by
  unfold pass
  split
  · exact map_modify_same same
  · rfl

theorem valid_step (valid : ∀ b ∈ bs, Valid b) (stepped : step Z bs a = .ok ts) :
    (∀ b ∈ ts, Valid b) ∧ ts.map Broker.toSetup = bs.map Broker.toSetup := by
  cases a with
  | broker i a =>
    cases here : bs[i]? with
    | none => simp [step, here] at stepped
    | some b =>
      simp only [step, here] at stepped
      obtain ⟨c, moved, rfl⟩ := map_ok stepped
      have before := valid b (List.mem_of_getElem? here)
      have after : Valid c ∧ c.toSetup = b.toSetup := by
        cases a with
        | next =>
          rcases next_cases before with ⟨d, next, held, same⟩ | ⟨halts, -⟩
          · obtain rfl : d = c := Except.ok.inj (next.symm.trans moved)
            exact ⟨held, same⟩
          · rw [Broker.step, halts] at moved
            cases moved
        | act a =>
          obtain ⟨hall, done, rfl⟩ := map_ok moved
          exact ⟨act_valid before done, rfl⟩
      exact ⟨forall_set valid after.1, map_set_same here after.2⟩
  | cloudbe i connected =>
    cases here : bs[i]? with
    | none => simp [step, here] at stepped
    | some b =>
      have before := valid b (List.mem_of_getElem? here)
      simp only [step, here] at stepped
      split at stepped
      · rename_i peer frame frames rest sent
        cases stepped
        have single : Single ⟨peer,frame :: frames⟩ := before.answered _ (by simp [sent])
        have rested : Valid { b with cloudbe := { b.cloudbe with outbox := rest } } :=
          { before with answered := fun m member => before.answered m (by
              rcases List.mem_append.mp member with old | left
              · exact List.mem_append_left _ old
              · exact List.mem_append_right _ (sent ▸ List.mem_cons_of_mem _ left)) }
        refine ⟨pass_valid (forall_set valid rested) (fun _ held => valid_told held (single_passed single)),
          (pass_setup ?_).trans (map_set_same here ?_)⟩
        · exact fun _ => rfl
        · rfl
      · cases stepped
  | cloudfe i connected =>
    cases here : bs[i]? with
    | none => simp [step, here] at stepped
    | some b =>
      have before := valid b (List.mem_of_getElem? here)
      simp only [step, here] at stepped
      split at stepped
      · rename_i identity frame frames rest sent
        cases stepped
        have single : Single ⟨identity,frame :: frames⟩ := before.told _ (by simp [sent])
        have rested : Valid { b with cloudfe := { b.cloudfe with outbox := rest } } :=
          { before with told := fun m member => before.told m (by
              rcases List.mem_append.mp member with old | left
              · exact List.mem_append_left _ old
              · exact List.mem_append_right _ (sent ▸ List.mem_cons_of_mem _ left)) }
        refine ⟨pass_valid (forall_set valid rested) (fun _ held => valid_answered held (single_passed single)),
          (pass_setup ?_).trans (map_set_same here ?_)⟩
        · exact fun _ => rfl
        · rfl
      · cases stepped

theorem valid_start (setup : Setup) : Valid setup.start where
  attended := attended_initial setup.threads
  counted := rfl
  polled := trivial
  told := by simp [Setup.start]
  answered := by simp [Setup.start]
  pending := ⟨rfl, rfl⟩
  alone := by
    intro _ place c here
    rw [Setup.start, client_census_initial, Multiset.mem_coe] at here
    obtain ⟨x, -, same⟩ := List.mem_map.mp here
    cases same
    exact .inl rfl

theorem valid_run (run : Run (Succeeds (step Z)) (initial setups) ms ts) :
    (∀ b ∈ ts, Valid b) ∧ ts.map Broker.toSetup = setups := by
  refine (run.inductive_invariant (I := fun bs => (∀ b ∈ bs, Valid b) ∧ bs.map Broker.toSetup = setups) ?_ ⟨?_, ?_⟩).2
  · intro s a t before stepped
    obtain ⟨valid, same⟩ := valid_step before.1 stepped
    exact ⟨valid, same.trans before.2⟩
  · intro b member
    obtain ⟨setup, -, rfl⟩ := List.mem_map.mp member
    exact valid_start setup
  · simp [initial, Setup.start, Function.comp_def]

end
end Canna.Peering
