import Canna.Lts
import Canna.Passages

/-!
# The load-balancing broker

`lbbroker.cpp`: the broker takes a message from a worker, an announcement or a reply
that it forwards, puts the worker at the end of its queue, and hands a request to the
worker at the front. It looks at the frontend only while a worker is ready, and
leaves its loop with the last reply. In every run, whatever the order in which threads
step and messages arrive, each worker and each client is at one place
(`lbbroker_exactly_one`), no assertion fails and no front of an empty queue is read
(`lbbroker_never_halts`), and `client_count` is the number of clients whose reply has
not been forwarded (`lbbroker_client_count`); runs are bounded, and none stops before
the loop is left (`lbbroker_ends`).
-/
namespace Canna.LbBroker
open Canna.Census Canna.Multipart Canna.Brokerage Canna.Lts
open Canna.Names (Text)

def HELLO : Text := [72,69,76,76,79]
def OK : Text := [79,75]

/-! ### Threads -/

/-- What `client_thread` does with its reply. -/
def client_next (reply : Text) : ClientStage := .finished reply

/-- The loop of `worker_thread`. -/
def worker_loop (worker : Zsocket) : Except Halt Zsocket := do
  let (address,worker) ← canna_recv worker
  let (empty,worker) ← canna_recv worker
  assert_empty empty
  let (_,worker) ← canna_recv worker
  return canna_send (canna_sendmore (canna_sendmore worker address) []) OK

def program : Program where
  request := HELLO
  next := client_next
  after := .served
  loop := worker_loop
  lands := fun _ _ => rfl
  answers := fun _ _ _ _ => ⟨OK, rfl⟩

/-! ### The broker -/

/-- Where the broker stands in its loop: before the poll, at the two tests with what the
    poll has found, or past the loop. -/
inductive Pc
  | polling
  | serving (backend frontend : Bool)
  | dispatching (frontend : Bool)
  | finished
  deriving DecidableEq, Repr

structure Sys where
  hall : Hall
  client_count : Int
  pc : Pc
  deriving DecidableEq, Repr

/-- The message of a worker; with whether a reply was forwarded. -/
def serve_backend (h : Hall) : Except Halt (Hall × Bool) := do
  let (worker_addr,backend) ← canna_recv h.backend
  let worker_queue := h.worker_queue ++ [worker_addr]
  let (empty,backend) ← canna_recv backend
  assert_empty empty
  let (client_addr,backend) ← canna_recv backend
  if client_addr ≠ READY then
    let (empty,backend) ← canna_recv backend
    assert_empty empty
    let (reply,backend) ← canna_recv backend
    let frontend := canna_send (canna_sendmore (canna_sendmore h.frontend client_addr) []) reply
    return ({ h with backend := backend, frontend := frontend, worker_queue := worker_queue },true)
  else return ({ h with backend := backend, worker_queue := worker_queue },false)

/-- The request of a client. -/
def serve_frontend (h : Hall) : Except Halt Hall := do
  let (client_addr,frontend) ← canna_recv h.frontend
  let (empty,frontend) ← canna_recv frontend
  assert_empty empty
  let (request,frontend) ← canna_recv frontend
  match h.worker_queue with
  | [] => throw .emptyQueue
  | worker_addr :: worker_queue =>
    let backend := canna_sendmore (canna_sendmore h.backend worker_addr) []
    let backend := canna_send (canna_sendmore (canna_sendmore backend client_addr) []) request
    return { h with frontend := frontend, backend := backend, worker_queue := worker_queue }

/-- The next step of the broker. The poll looks at the frontend only where the queue is not
    empty, and waits until it finds a message. -/
def Sys.broker (s : Sys) : Except Halt Sys :=
  match s.pc with
  | .polling =>
    let backend := !s.hall.backend.inbox.isEmpty
    let frontend := s.hall.worker_queue.length != 0 && !s.hall.frontend.inbox.isEmpty
    if backend || frontend then .ok { s with pc := .serving backend frontend } else .error .disabled
  | .serving backend frontend =>
    if backend then do
      let (hall,forwarded) ← serve_backend s.hall
      if forwarded then
        let client_count := s.client_count - 1
        return ⟨hall,client_count,if client_count = 0 then .finished else .dispatching frontend⟩
      else return ⟨hall,s.client_count,.dispatching frontend⟩
    else .ok { s with pc := .dispatching frontend }
  | .dispatching frontend =>
    if frontend then do
      let hall ← serve_frontend s.hall
      return { s with hall := hall, pc := .polling }
    else .ok { s with pc := .polling }
  | .finished => .error .disabled

inductive Action
  | broker
  | act (a : Act)
  deriving DecidableEq, Repr

def step (Z : Transport) (s : Sys) : Action → Except Halt Sys
  | .broker => s.broker
  | .act a => (s.hall.act Z program a).map fun hall => { s with hall := hall }

/-- All threads created, with nothing sent. -/
def initial (D : Deployment) : Sys := ⟨Hall.initial D,D.clients.length,.polling⟩

/-- One client and one worker. -/
def pair : Deployment := .of_draws [(1,2)] [(3,4)] (by decide) (by decide) (by decide) (by decide)

/-- The request of the client is assigned to the worker, and its reply forwarded. -/
def service : List Action :=
  [.act (.client 0), .act (.worker 0), .act (.from_client 0), .act (.from_worker 0), .broker, .broker, .broker, .broker,
    .broker, .broker, .act (.to_worker 0), .act (.worker 0), .act (.from_worker 0), .broker, .broker]

/-! ### Steps -/

section
variable {Z : Transport} {D : Deployment} {h : Hall} {s t : Sys} {a : Action}

/-- The message of a worker is taken whole; its worker is queued, and its client gets the
    reply unless it was an announcement. -/
theorem serve_backend_ok (attended : Attended D h) (arrived : h.backend.inbox ≠ []) :
    (∃ t, serve_backend h = .ok (t,false) ∧ Kept h t ∧ Shift h t .announced .queued .served .served ∧
      t.frontend.inbox = h.frontend.inbox ∧ t.worker_queue ≠ []) ∨
    ∃ t, serve_backend h = .ok (t,true) ∧ Kept h t ∧ Shift h t .replied .queued .replied .returning ∧
      t.frontend.inbox = h.frontend.inbox ∧ t.worker_queue ≠ [] := by
  obtain ⟨clients, workers, ⟨asking, frames, returning⟩, ⟨inbox, pending, leaving⟩, queue⟩ := h
  obtain ⟨rfl, rfl⟩ := attended.orderly.pending
  cases inbox with
  | nil => exact absurd rfl arrived
  | cons m rest =>
    obtain ⟨worker, more⟩ := m
    rcases attended.orderly.arriving _ List.mem_cons_self with ready | ⟨client, text, addressed⟩
    · obtain rfl : more = _ := ready
      obtain ⟨kept, shift⟩ := enqueue_kept attended.orderly rfl rfl rfl
      exact .inl ⟨_, rfl, kept, shift, rfl, by simp⟩
    · have named := attended.reply_named List.mem_cons_self addressed
      obtain rfl : more = _ := addressed
      obtain ⟨kept, shift⟩ := forward_kept text attended.orderly rfl rfl rfl
      refine .inr ⟨_, ?_, kept, shift, rfl, by simp⟩
      simp [serve_backend, named, bind, Except.bind, pure, Except.pure]

/-- The request of a client is taken whole and goes to the worker at the front. -/
theorem serve_frontend_ok (orderly : Orderly h) (arrived : h.frontend.inbox ≠ []) (queued : h.worker_queue ≠ []) :
    ∃ t, serve_frontend h = .ok t ∧ Kept h t ∧ Shift h t .queued .assigned .asked .assigned := by
  obtain ⟨clients, workers, ⟨inbox, frames, returning⟩, ⟨arriving, pending, leaving⟩, queue⟩ := h
  obtain ⟨rfl, rfl⟩ := orderly.pending
  cases inbox with
  | nil => exact absurd rfl arrived
  | cons m rest =>
    cases queue with
    | nil => exact absurd rfl queued
    | cons worker queue =>
      obtain ⟨client, more⟩ := m
      obtain ⟨text, rfl⟩ : Enclosed ⟨client,more⟩ := orderly.asking _ List.mem_cons_self
      obtain ⟨kept, shift⟩ := dispatch_kept text orderly rfl rfl rfl
      exact ⟨_, rfl, kept, shift⟩

/-- What the poll found is still there. -/
def Polled (s : Sys) : Prop :=
  match s.pc with
  | .serving backend frontend => (backend = true ∨ frontend = true) ∧ (backend = true → s.hall.backend.inbox ≠ []) ∧
      (frontend = true → s.hall.frontend.inbox ≠ [] ∧ s.hall.worker_queue ≠ [])
  | .dispatching frontend => frontend = true → s.hall.frontend.inbox ≠ [] ∧ s.hall.worker_queue ≠ []
  | _ => True

/-- What a step of the system does. -/
inductive Stepped (s t : Sys) : Prop
  | act {i j : WorkerPlace} {k l : ClientPlace} (passage : Passage .served i j k l) (kept : Kept s.hall t.hall)
      (shift : Shift s.hall t.hall i j k l) (arrives : Arrives s.hall t.hall) (count : t.client_count = s.client_count)
      (same : t.pc = s.pc)
  | poll {backend frontend : Bool} (hall : t.hall = s.hall) (count : t.client_count = s.client_count)
      (here : s.pc = .polling) (next : t.pc = .serving backend frontend)
  | skip_backend {frontend : Bool} (hall : t.hall = s.hall) (count : t.client_count = s.client_count)
      (here : s.pc = .serving false frontend) (next : t.pc = .dispatching frontend)
  | enqueue {frontend : Bool} (kept : Kept s.hall t.hall) (shift : Shift s.hall t.hall .announced .queued .served .served)
      (count : t.client_count = s.client_count) (here : s.pc = .serving true frontend) (next : t.pc = .dispatching frontend)
  | forward {frontend : Bool} (kept : Kept s.hall t.hall) (shift : Shift s.hall t.hall .replied .queued .replied .returning)
      (count : t.client_count = s.client_count - 1) (here : s.pc = .serving true frontend)
      (next : t.pc = if t.client_count = 0 then .finished else .dispatching frontend)
  | skip_frontend (hall : t.hall = s.hall) (count : t.client_count = s.client_count) (here : s.pc = .dispatching false)
      (next : t.pc = .polling)
  | dispatch (kept : Kept s.hall t.hall) (shift : Shift s.hall t.hall .queued .assigned .asked .assigned)
      (count : t.client_count = s.client_count) (here : s.pc = .dispatching true) (next : t.pc = .polling)

/-- The broker steps as `Stepped` says, or waits. -/
theorem broker_cases (attended : Attended D s.hall) (polled : Polled s) :
    (∃ t, s.broker = .ok t ∧ Stepped s t ∧ Polled t) ∨
      s.broker = .error .disabled ∧ (s.pc = .finished ∨ s.pc = .polling ∧ s.hall.backend.inbox = [] ∧
        (s.hall.frontend.inbox = [] ∨ s.hall.worker_queue = [])) := by
  obtain ⟨hall, count, pc⟩ := s
  cases pc with
  | polling =>
    cases found : !hall.backend.inbox.isEmpty || (hall.worker_queue.length != 0 && !hall.frontend.inbox.isEmpty) with
    | false =>
      refine .inr ⟨by simp only [Sys.broker, found, Bool.false_eq_true, if_false], .inr ⟨rfl, ?_⟩⟩
      simp only [Bool.or_eq_false_iff, Bool.not_eq_false', List.isEmpty_iff, Bool.and_eq_false_iff, bne_eq_false_iff_eq,
        List.length_eq_zero_iff] at found
      exact ⟨found.1, found.2.symm⟩
    | true =>
      refine .inl ⟨⟨hall,count,.serving (!hall.backend.inbox.isEmpty)
        (hall.worker_queue.length != 0 && !hall.frontend.inbox.isEmpty)⟩, by simp only [Sys.broker, found, if_true],
        .poll rfl rfl rfl rfl, ?_⟩
      simp only [Polled, Bool.or_eq_true, Bool.and_eq_true, Bool.not_eq_true', bne_iff_ne, ne_eq, List.length_eq_zero_iff] at found ⊢
      refine ⟨found, ?_, ?_⟩
      · intro arrived
        simpa using arrived
      · rintro ⟨queued, arrived⟩
        exact ⟨by simpa using arrived, queued⟩
  | serving backend frontend =>
    cases backend with
    | false => exact .inl ⟨_, rfl, .skip_backend rfl rfl rfl rfl, fun found => polled.2.2 found⟩
    | true =>
      obtain ⟨-, arrived, asked⟩ := polled
      rcases serve_backend_ok attended (arrived rfl) with
        ⟨t, served, kept, shift, same, queued⟩ | ⟨t, served, kept, shift, same, queued⟩
      · refine .inl ⟨⟨t,count,.dispatching frontend⟩, by simp [Sys.broker, served, bind, Except.bind, pure, Except.pure],
          .enqueue kept shift rfl rfl rfl, fun found => ⟨same ▸ (asked found).1, queued⟩⟩
      · refine .inl ⟨⟨t,count - 1,if count - 1 = 0 then .finished else .dispatching frontend⟩,
          by simp [Sys.broker, served, bind, Except.bind, pure, Except.pure], .forward kept shift rfl rfl rfl, ?_⟩
        by_cases last : count - 1 = 0
        · simp only [Polled, last, if_true]
        · simp only [Polled, last, if_false]
          exact fun found => ⟨same ▸ (asked found).1, queued⟩
  | dispatching frontend =>
    cases frontend with
    | false => exact .inl ⟨_, rfl, .skip_frontend rfl rfl rfl rfl, trivial⟩
    | true =>
      obtain ⟨arrived, queued⟩ := polled rfl
      obtain ⟨t, served, kept, shift⟩ := serve_frontend_ok attended.orderly arrived queued
      exact .inl ⟨⟨t,count,.polling⟩, by simp [Sys.broker, served, bind, Except.bind, pure, Except.pure],
        .dispatch kept shift rfl rfl rfl, trivial⟩
  | finished => exact .inr ⟨rfl, .inl rfl⟩

theorem polled_act (polled : Polled s) (arrives : Arrives s.hall t.hall) (same : t.pc = s.pc) : Polled t := by
  obtain ⟨⟨more, backend⟩, ⟨further, frontend⟩, queue⟩ := arrives
  have backend : s.hall.backend.inbox ≠ [] → t.hall.backend.inbox ≠ [] := by
    intro arrived
    rw [backend]
    exact List.append_ne_nil_of_left_ne_nil arrived more
  have frontend : s.hall.frontend.inbox ≠ [] → t.hall.frontend.inbox ≠ [] := by
    intro arrived
    rw [frontend]
    exact List.append_ne_nil_of_left_ne_nil arrived further
  cases pc : s.pc with
  | polling => simp only [Polled, same, pc]
  | finished => simp only [Polled, same, pc]
  | serving found asked =>
    simp only [Polled, same, pc, queue] at polled ⊢
    exact ⟨polled.1, fun yes => backend (polled.2.1 yes), fun yes => ⟨frontend (polled.2.2 yes).1, (polled.2.2 yes).2⟩⟩
  | dispatching asked =>
    simp only [Polled, same, pc, queue] at polled ⊢
    exact fun yes => ⟨frontend (polled yes).1, (polled yes).2⟩

theorem step_cases (attended : Attended D s.hall) (polled : Polled s) (stepped : step Z s a = .ok t) :
    Stepped s t ∧ Polled t := by
  cases a with
  | broker =>
    rcases broker_cases attended polled with ⟨u, moved, cases, found⟩ | ⟨waits, -⟩
    · obtain rfl : u = t := Except.ok.inj (moved.symm.trans stepped)
      exact ⟨cases, found⟩
    · rw [step, waits] at stepped
      cases stepped
  | act a =>
    obtain ⟨hall, done, rfl⟩ := map_ok stepped
    obtain ⟨kept, i, j, k, l, passage, shift⟩ := act_kept attended done
    have arrives := act_arrives done
    exact ⟨.act passage kept shift arrives rfl rfl, polled_act polled arrives rfl⟩

/-! ### Runs -/

/-- Whether the reply for a client has still to be handed to the frontend. -/
def unforwarded : ClientPlace → Nat
  | .returning | .answering | .served => 0
  | _ => 1

/-- What holds in every state that is reached. -/
structure Valid (D : Deployment) (s : Sys) : Prop where
  attended : Attended D s.hall
  polled : Polled s
  counted : s.client_count = load unforwarded s.hall.client_census
  gone : s.pc = .finished ↔ s.client_count = 0

theorem unforwarded_same {i j : WorkerPlace} {k l : ClientPlace} (passage : Passage .served i j k l) :
    unforwarded k = unforwarded l := by
  cases passage <;> rfl

/-- A client that moves keeps the number of those to be answered, unless it is answered. -/
theorem shift_counts {h t : Hall} {i j : WorkerPlace} {k l : ClientPlace} (shift : Shift h t i j k l) :
    load unforwarded h.client_census + unforwarded l = load unforwarded t.client_census + unforwarded k := by
  obtain ⟨-, c, moved⟩ := shift
  exact moved.load unforwarded

theorem valid_step (valid : Valid D s) (stepped : step Z s a = .ok t) : Valid D t := by
  obtain ⟨cases, polled⟩ := step_cases valid.attended valid.polled stepped
  have counted := valid.counted
  have gone := valid.gone
  cases cases with
  | act passage kept shift arrives count same =>
    have counts := shift_counts shift
    rw [unforwarded_same passage] at counts
    exact ⟨valid.attended.shift kept shift, polled, by omega, by rw [same, count]; exact gone⟩
  | poll hall count here next =>
    refine ⟨hall ▸ valid.attended, polled, by rw [count, hall]; exact counted, ?_⟩
    rw [here] at gone
    rw [next, count]
    simpa using gone
  | skip_backend hall count here next =>
    refine ⟨hall ▸ valid.attended, polled, by rw [count, hall]; exact counted, ?_⟩
    rw [here] at gone
    rw [next, count]
    simpa using gone
  | enqueue kept shift count here next =>
    have counts := shift_counts shift
    refine ⟨valid.attended.shift kept shift, polled, by omega, ?_⟩
    rw [here] at gone
    rw [next, count]
    simpa using gone
  | forward kept shift count here next =>
    have counts := shift_counts shift
    simp only [unforwarded] at counts
    refine ⟨valid.attended.shift kept shift, polled, by omega, ?_⟩
    rw [next]
    by_cases last : t.client_count = 0 <;> simp [last]
  | skip_frontend hall count here next =>
    refine ⟨hall ▸ valid.attended, polled, by rw [count, hall]; exact counted, ?_⟩
    rw [here] at gone
    rw [next, count]
    simpa using gone
  | dispatch kept shift count here next =>
    have counts := shift_counts shift
    simp only [unforwarded] at counts
    refine ⟨valid.attended.shift kept shift, polled, by omega, ?_⟩
    rw [here] at gone
    rw [next, count]
    simpa using gone

theorem valid_initial (D : Deployment) : Valid D (initial D) where
  attended := attended_initial D
  polled := trivial
  counted := by simp [initial, client_census_initial, load_at, unforwarded]
  gone := by simp [initial, D.some_client]

theorem valid_run {ms : List (Move Sys Action)} (run : Run (Succeeds (step Z)) (initial D) ms t) : Valid D t :=
  (run.inductive_invariant (fun _ _ _ valid stepped => valid_step valid stepped) (valid_initial D)).2

/-! ### One place each -/

/-- In every state of every run, each worker is at one place and there once: it is in the
    queue, or has one request, or is on its way with an announcement or a reply. So is each
    client, so that no request or reply is lost or doubled. -/
theorem lbbroker_exactly_one {ms : List (Move Sys Action)} (run : Run (Succeeds (step Z)) (initial D) ms t) :
    (t.hall.worker_census.Nodup ∧ ∀ w ∈ D.workers, ∃! place, (place,w) ∈ t.hall.worker_census) ∧
      t.hall.client_census.Nodup ∧ ∀ c ∈ D.clients, ∃! place, (place,c) ∈ t.hall.client_census :=
  ⟨(valid_run run).attended.worker_place, (valid_run run).attended.client_place⟩

theorem lbbroker_exactly_one_pair : (exec (step .plain) (initial pair) service).isOk = true ∧
    ((final (step .plain) (initial pair) service).hall.worker_census.Nodup ∧
      ∀ w ∈ pair.workers, ∃! place, (place,w) ∈ (final (step .plain) (initial pair) service).hall.worker_census) ∧
    (final (step .plain) (initial pair) service).hall.client_census.Nodup ∧
      ∀ c ∈ pair.clients, ∃! place, (place,c) ∈ (final (step .plain) (initial pair) service).hall.client_census :=
  ⟨by decide, lbbroker_exactly_one (run_final (step .plain) (by decide))⟩

/-! ### No step halts -/

/-- Whatever a thread does next, in every state of every run, it does it or waits: no
    assertion on an empty frame fails, no front of an empty queue is read and no message
    ends early. What the broker sends is for a thread that there is. -/
theorem lbbroker_never_halts {ms : List (Move Sys Action)} (run : Run (Succeeds (step Z)) (initial D) ms t) :
    (∀ a halt, step Z t a = .error halt → halt = .disabled) ∧
      (∀ m ∈ t.hall.backend.outbox, m.first ∈ D.workers) ∧ ∀ m ∈ t.hall.frontend.outbox, m.first ∈ D.clients := by
  have valid := valid_run run
  refine ⟨?_, ?_, ?_⟩
  · intro a halt stopped
    cases a with
    | broker =>
      rcases broker_cases valid.attended valid.polled with ⟨u, moved, -⟩ | ⟨waits, -⟩
      · rw [step, moved] at stopped
        cases stopped
      · rw [step, waits] at stopped
        cases stopped
        rfl
    | act a =>
      cases done : t.hall.act Z program a with
      | ok hall => simp [step, done, Except.map] at stopped
      | error other =>
        have waits := act_disabled valid.attended.orderly done
        simp only [step, done, Except.map] at stopped
        cases stopped
        exact waits
  · intro m member
    have known := valid.attended.leaving_known m member
    rwa [valid.attended.workers] at known
  · intro m member
    have known := valid.attended.returning_known m member
    rwa [valid.attended.clients] at known

theorem lbbroker_never_halts_pair : (final (step .plain) (initial pair) service).pc = .finished ∧
    (∀ a halt, step .plain (final (step .plain) (initial pair) service) a = .error halt → halt = .disabled) ∧
    (∀ m ∈ (final (step .plain) (initial pair) service).hall.backend.outbox, m.first ∈ pair.workers) ∧
      ∀ m ∈ (final (step .plain) (initial pair) service).hall.frontend.outbox, m.first ∈ pair.clients :=
  ⟨by decide, lbbroker_never_halts (run_final (step .plain) (by decide))⟩

/-! ### The count -/

/-- `client_count` is the number of clients whose reply has not been handed to the
    frontend, and the broker has left its loop exactly when there is none. -/
theorem lbbroker_client_count {ms : List (Move Sys Action)} (run : Run (Succeeds (step Z)) (initial D) ms t) :
    t.client_count = load unforwarded t.hall.client_census ∧
      (t.pc = .finished ↔ ∀ place, ∀ c ∈ D.clients, (place,c) ∈ t.hall.client_census → unforwarded place = 0) := by
  have valid := valid_run run
  refine ⟨valid.counted, valid.gone.trans ?_⟩
  rw [valid.counted]
  constructor
  · intro none place c _ here
    have light := weight_le_load unforwarded here
    omega
  · intro all
    by_contra some
    obtain ⟨place, c, here, heavy⟩ := exists_of_load unforwarded (c := t.hall.client_census) (by omega)
    have light := all place c (valid.attended.client_mem place here) here
    omega

theorem lbbroker_client_count_pair : (final (step .plain) (initial pair) service).pc = .finished ∧
    (final (step .plain) (initial pair) service).client_count =
      load unforwarded (final (step .plain) (initial pair) service).hall.client_census ∧
    ((final (step .plain) (initial pair) service).pc = .finished ↔ ∀ place, ∀ c ∈ pair.clients,
      (place,c) ∈ (final (step .plain) (initial pair) service).hall.client_census → unforwarded place = 0) :=
  ⟨by decide, lbbroker_client_count (run_final (step .plain) (by decide))⟩

/-! ### Runs end -/

def worker_weight : WorkerPlace → Nat
  | .starting => 3
  | .announcing => 2
  | .announced => 1
  | _ => 0

def client_weight : ClientPlace → Nat
  | .starting => 9
  | .asking => 8
  | .asked => 7
  | .assigned => 6
  | .working => 5
  | .replying => 4
  | .replied => 3
  | .returning => 2
  | .answering => 1
  | .served => 0

/-- How far the workers and the clients of a hall have still to go. -/
def Hall.ahead (h : Hall) : Nat := load worker_weight h.worker_census + load client_weight h.client_census

/-- A test that finds nothing has to be made up for by the next poll. -/
def Pc.rank : Pc → Nat
  | .polling => 2
  | .serving _ _ => 1
  | .dispatching frontend => if frontend then 0 else 3
  | .finished => 0

def Sys.measure (s : Sys) : Nat := 4 * Hall.ahead s.hall + s.pc.rank

theorem shift_ahead {h t : Hall} {i j : WorkerPlace} {k l : ClientPlace} (shift : Shift h t i j k l)
    (lower : worker_weight j + client_weight l < worker_weight i + client_weight k) : Hall.ahead t < Hall.ahead h := by
  obtain ⟨⟨w, worker⟩, c, client⟩ := shift
  have workers := worker.load worker_weight
  have clients := client.load client_weight
  unfold Hall.ahead
  omega

theorem passage_lower {i j : WorkerPlace} {k l : ClientPlace} (passage : Passage .served i j k l) :
    worker_weight j + client_weight l < worker_weight i + client_weight k := by
  cases passage <;> decide

theorem measure_step (valid : Valid D s) (stepped : step Z s a = .ok t) : t.measure < s.measure := by
  obtain ⟨cases, -⟩ := step_cases valid.attended valid.polled stepped
  have polled := valid.polled
  unfold Sys.measure
  cases cases with
  | act passage kept shift arrives count same =>
    have lower := shift_ahead shift (passage_lower passage)
    rw [same]
    omega
  | poll hall count here next =>
    simp only [hall, here, next, Pc.rank]
    omega
  | @skip_backend frontend hall count here next =>
    simp only [Polled, here] at polled
    have found : frontend = true := by simpa using polled.1
    simp only [hall, here, next, Pc.rank, found, if_true]
    omega
  | @enqueue frontend kept shift count here next =>
    have lower := shift_ahead shift (by decide)
    have small : (Pc.dispatching frontend).rank ≤ 3 := by cases frontend <;> decide
    rw [here, next]
    simp only [Pc.rank] at small ⊢
    omega
  | @forward frontend kept shift count here next =>
    have lower := shift_ahead shift (by decide)
    have small : (if t.client_count = 0 then Pc.finished else Pc.dispatching frontend).rank ≤ 3 := by
      by_cases last : t.client_count = 0
      · rw [if_pos last]; decide
      · rw [if_neg last]; cases frontend <;> decide
    rw [here, next]
    have one : (Pc.serving true frontend).rank = 1 := rfl
    omega
  | skip_frontend hall count here next =>
    rw [hall, here, next]
    have three : (Pc.dispatching false).rank = 3 := rfl
    have two : Pc.polling.rank = 2 := rfl
    omega
  | dispatch kept shift count here next =>
    have lower := shift_ahead shift (by decide)
    rw [here, next]
    have zero : (Pc.dispatching true).rank = 0 := rfl
    have two : Pc.polling.rank = 2 := rfl
    omega

/-- While the broker is in its loop, something can go on. -/
theorem can_step (valid : Valid D s) (inside : s.pc ≠ .finished) : ∃ a t, step Z s a = .ok t := by
  have broker : (∃ t, s.broker = .ok t) → ∃ a t, step Z s a = .ok t := fun ⟨t, moved⟩ => ⟨.broker, t, moved⟩
  have acts : CanAct Z program s.hall → ∃ a t, step Z s a = .ok t := by
    rintro ⟨a, hall, done⟩
    exact ⟨.act a, { s with hall := hall }, by simp only [step, done, Except.map]⟩
  rcases broker_cases valid.attended valid.polled with ⟨t, moved, -⟩ | ⟨-, gone | ⟨-, unarrived, idle⟩⟩
  · exact broker ⟨t, moved⟩
  · exact absurd gone inside
  · -- some client is to be answered, and either it or a worker for it can move
    have some : s.client_count ≠ 0 := fun none => inside (valid.gone.mpr none)
    have counted := valid.counted
    obtain ⟨place, c, here, heavy⟩ :=
      exists_of_load unforwarded (c := s.hall.client_census) (by omega)
    have unserved : place ≠ .served := by rintro rfl; exact absurd heavy (by decide)
    rcases client_moves Z program valid.attended here unserved with arrived | asked | can
    · exact absurd unarrived arrived
    · obtain ⟨w, member⟩ := List.exists_mem_of_ne_nil D.workers D.some_worker
      obtain ⟨place, there, -⟩ := valid.attended.worker_place.2 w member
      rcases worker_moves Z program valid.attended there with arrived | queued | can
      · exact absurd unarrived arrived
      · exact absurd idle (by simp [asked, queued])
      · exact acts can
    · exact acts can

theorem measure_initial (D : Deployment) : (initial D).measure = 12 * D.workers.length + 36 * D.clients.length + 2 := by
  simp only [Sys.measure, Hall.ahead, initial, client_census_initial, worker_census_initial, load_at, worker_weight,
    client_weight, Pc.rank]
  omega

/-- Every run ends within a bound, and one that cannot go on has left the loop of the
    broker, with the reply of every client handed to the frontend. -/
theorem lbbroker_ends {ms : List (Move Sys Action)} (run : Run (Succeeds (step Z)) (initial D) ms t) :
    ms.length ≤ 12 * D.workers.length + 36 * D.clients.length + 2 ∧
      ((∀ a u, step Z t a ≠ .ok u) → t.pc = .finished ∧
        ∀ c ∈ D.clients, ∃ place, (place,c) ∈ t.hall.client_census ∧ unforwarded place = 0) := by
  have valid := valid_run run
  constructor
  · have short := run.length_le (C := fun _ _ => True) Sys.measure
      (fun _ _ _ _ valid stepped => valid_step valid stepped) (fun _ _ _ _ valid stepped => measure_step valid stepped)
      (valid_initial D) fun _ _ => trivial
    rw [measure_initial] at short
    omega
  · intro stuck
    have gone : t.pc = .finished := by
      by_contra inside
      obtain ⟨a, u, moved⟩ := can_step valid inside
      exact stuck a u moved
    refine ⟨gone, fun c member => ?_⟩
    obtain ⟨place, here, -⟩ := valid.attended.client_place.2 c member
    have none := valid.gone.mp gone
    have counted := valid.counted
    have light := weight_le_load unforwarded here
    exact ⟨place, here, by omega⟩

/-- The reply reaches the client. -/
def parting : List Action := service ++ [.act (.to_client 0), .act (.client 0)]

theorem lbbroker_ends_pair :
    let t := final (step .plain) (initial pair) parting
    (moves (step .plain) (initial pair) parting).length ≤ 12 * pair.workers.length + 36 * pair.clients.length + 2 ∧
      t.pc = .finished ∧ ∀ c ∈ pair.clients, ∃ place, (place,c) ∈ t.hall.client_census ∧ unforwarded place = 0 := by
  intro t
  have run : Run (Succeeds (step .plain)) (initial pair) _ t := run_final (step .plain) (by decide)
  have ended : t = ⟨⟨[⟨drawn (1,2),.finished OK,.fresh⟩],[⟨drawn (3,4),true,.fresh⟩],.fresh,.fresh,[drawn (3,4)]⟩,0,.finished⟩ := by
    decide
  have stuck : ∀ a u, step .plain t a ≠ .ok u := by
    rw [ended]
    intro a u stepped
    cases a with
    | broker => cases stepped
    | act a =>
      cases a with
      | client j => rcases j with _ | j <;> cases stepped
      | worker j => rcases j with _ | j <;> cases stepped
      | from_client j => rcases j with _ | j <;> cases stepped
      | from_worker j => rcases j with _ | j <;> cases stepped
      | to_client i => cases stepped
      | to_worker i => cases stepped
  exact ⟨(lbbroker_ends run).1, (lbbroker_ends run).2 stuck⟩

end
end Canna.LbBroker
