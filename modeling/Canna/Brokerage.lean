import Canna.Census
import Canna.Multipart

/-!
# Clients, workers and the broker between them

What the brokers of the examples share. Clients and workers are threads with a REQ
socket each; the broker has a router socket for either and the queue of the workers
that are ready. A message leaves a socket and arrives at the other side in a step of
its own, in any order. The census of the workers and that of the clients tell where
each of them is (`WorkerPlace`, `ClientPlace`). The examples differ in what their
threads run (`Program`) and in what the broker does.
-/
namespace Canna.Brokerage
open Canna.Census Canna.Multipart
open Canna.Names (Text)

/-! ### Threads -/

/-- Where a client stands: before it sends its request, waiting for the reply, or ended
    with the reply. -/
inductive ClientStage
  | sending
  | waiting
  | finished (reply : Text)
  deriving DecidableEq, Repr

structure Client where
  identity : Text
  stage : ClientStage
  socket : Zsocket
  deriving DecidableEq, Repr

structure Worker where
  identity : Text
  ready : Bool
  socket : Zsocket
  deriving DecidableEq, Repr

/-- Sends a request and receives its reply; where the client goes on then is different
    in the examples. Nothing happens while there is nothing to receive. -/
def Client.turn (request : Text) (next : Text → ClientStage) (c : Client) : Except Halt Client :=
  match c.stage with
  | .sending => .ok { c with stage := .waiting, socket := canna_send c.socket request }
  | .waiting =>
    if c.socket.inbox = [] then .error .disabled
    else do
      let (reply,socket) ← canna_recv c.socket
      return { c with stage := next reply, socket := socket }
  | .finished _ => .error .disabled

/-- Announces the worker first, and then runs the loop of the worker once for each
    request that has arrived. -/
def Worker.turn (loop : Zsocket → Except Halt Zsocket) (w : Worker) : Except Halt Worker :=
  if w.ready then
    if w.socket.inbox = [] then .error .disabled
    else do
      let socket ← loop w.socket
      return { w with socket := socket }
  else .ok { w with ready := true, socket := canna_send w.socket READY }

/-! ### The broker's side -/

/-- The threads, the sockets of the broker and its queue of workers. -/
structure Hall where
  clients : List Client
  workers : List Worker
  frontend : Zsocket
  backend : Zsocket
  worker_queue : List Text
  deriving DecidableEq, Repr

/-- The identities that the threads give themselves, all different; none of a client is
    the word by which a worker is announced. There are clients and workers. -/
structure Deployment where
  clients : List Text
  workers : List Text
  some_client : clients ≠ []
  some_worker : workers ≠ []
  distinct_clients : clients.Nodup
  distinct_workers : workers.Nodup
  unlike_ready : READY ∉ clients

/-- The identities of `canna_setid`, where all pairs of random numbers differ. -/
def Deployment.of_draws (clients workers : List (Nat × Nat)) (some_client : clients ≠ []) (some_worker : workers ≠ [])
    (distinct_clients : clients.Nodup) (distinct_workers : workers.Nodup) : Deployment where
  clients := clients.map drawn
  workers := workers.map drawn
  some_client := by simpa using some_client
  some_worker := by simpa using some_worker
  distinct_clients := distinct_clients.map drawn_injective
  distinct_workers := distinct_workers.map drawn_injective
  unlike_ready := by
    intro member
    obtain ⟨draw, -, same⟩ := List.mem_map.mp member
    exact canna_setid_ne_ready draw.1 draw.2 same

def Hall.initial (D : Deployment) : Hall where
  clients := D.clients.map fun identity => ⟨identity,.sending,.fresh⟩
  workers := D.workers.map fun identity => ⟨identity,false,.fresh⟩
  frontend := .fresh
  backend := .fresh
  worker_queue := []

def Hall.client (h : Hall) (request : Text) (next : Text → ClientStage) (j : Nat) : Except Halt Hall :=
  match h.clients[j]? with
  | none => .error .disabled
  | some c => (c.turn request next).map fun c => { h with clients := h.clients.set j c }

def Hall.worker (h : Hall) (loop : Zsocket → Except Halt Zsocket) (j : Nat) : Except Halt Hall :=
  match h.workers[j]? with
  | none => .error .disabled
  | some w => (w.turn loop).map fun w => { h with workers := h.workers.set j w }

/-! ### The network -/

/-- A message leaves the socket of a client and arrives at the frontend. -/
def Hall.from_client (Z : Transport) (h : Hall) (j : Nat) : Except Halt Hall :=
  match h.clients[j]? with
  | none => .error .disabled
  | some c =>
    match c.socket.outbox with
    | [] => .error .disabled
    | message :: rest => .ok { h with
        clients := h.clients.set j { c with socket := { c.socket with outbox := rest } }
        frontend := { h.frontend with inbox := h.frontend.inbox ++ Z.req_router c.identity message } }

/-- A message leaves the socket of a worker and arrives at the backend. -/
def Hall.from_worker (Z : Transport) (h : Hall) (j : Nat) : Except Halt Hall :=
  match h.workers[j]? with
  | none => .error .disabled
  | some w =>
    match w.socket.outbox with
    | [] => .error .disabled
    | message :: rest => .ok { h with
        workers := h.workers.set j { w with socket := { w.socket with outbox := rest } }
        backend := { h.backend with inbox := h.backend.inbox ++ Z.req_router w.identity message } }

def Client.arrive (Z : Transport) (frames : List Text) (c : Client) : Client :=
  { c with socket := { c.socket with inbox := c.socket.inbox ++ Z.router_req frames } }

def Worker.arrive (Z : Transport) (frames : List Text) (w : Worker) : Worker :=
  { w with socket := { w.socket with inbox := w.socket.inbox ++ Z.router_req frames } }

/-- A message leaves the frontend for the client of its identity; without one it is
    dropped. -/
def Hall.to_client (Z : Transport) (h : Hall) (i : Nat) : Except Halt Hall :=
  match h.frontend.outbox[i]? with
  | none => .error .disabled
  | some message => .ok { h with
      clients := h.clients.modify (h.clients.findIdx fun c => c.identity = message.first) (Client.arrive Z message.more)
      frontend := { h.frontend with outbox := h.frontend.outbox.eraseIdx i } }

/-- A message leaves the backend for the worker of its identity; without one it is
    dropped. -/
def Hall.to_worker (Z : Transport) (h : Hall) (i : Nat) : Except Halt Hall :=
  match h.backend.outbox[i]? with
  | none => .error .disabled
  | some message => .ok { h with
      workers := h.workers.modify (h.workers.findIdx fun w => w.identity = message.first) (Worker.arrive Z message.more)
      backend := { h.backend with outbox := h.backend.outbox.eraseIdx i } }

/-! ### Where the clients and workers are -/

/-- A worker is still to be announced, on its way with `READY`, waiting at the backend
    with it, in the queue; its request is on its way, or with it; its reply is on its
    way, or waiting at the backend. -/
inductive WorkerPlace
  | starting | announcing | announced | queued | assigned | working | replying | replied
  deriving DecidableEq, Repr

/-- A client has no request; its request is on its way, waiting at the frontend, on its
    way to a worker, with a worker; the reply is on its way to the backend, waiting
    there, on its way to the client, with the client, taken. -/
inductive ClientPlace
  | starting | asking | asked | assigned | working | replying | replied | returning | answering | served
  deriving DecidableEq, Repr

def Worker.place (w : Worker) (message : Message) : WorkerPlace × Text :=
  (if message.more = [] then .announcing else .replying,w.identity)

/-- The worker of a thread that is not announced yet. -/
def starting (identity : Text) : (ready : Bool) → Multiset (WorkerPlace × Text)
  | false => {(.starting,identity)}
  | true => 0

/-- The worker, as far as its thread and its socket know of it. -/
def Worker.census (w : Worker) : Multiset (WorkerPlace × Text) :=
  starting w.identity w.ready + roll (fun _ => {(.working,w.identity)}) w.socket.inbox +
    roll (fun message => {w.place message}) w.socket.outbox

/-- The client for which a reply of a worker is meant. -/
def reply_to (message : Message) : Multiset (ClientPlace × Text) :=
  if message.more = [] then 0 else {(.replying,message.first)}

/-- The clients of the messages at a worker. -/
def Worker.requests (w : Worker) : Multiset (ClientPlace × Text) :=
  roll (fun message => {(.working,message.first)}) w.socket.inbox + roll reply_to w.socket.outbox

def ClientStage.census (identity : Text) : ClientStage → Multiset (ClientPlace × Text)
  | .sending => {(.starting,identity)}
  | .waiting => 0
  | .finished _ => {(.served,identity)}

@[simp] theorem census_sending (identity : Text) : ClientStage.sending.census identity = {(.starting,identity)} := rfl
@[simp] theorem census_waiting (identity : Text) : ClientStage.waiting.census identity = 0 := rfl
@[simp] theorem census_finished (identity reply : Text) :
    (ClientStage.finished reply).census identity = {(.served,identity)} := rfl

/-- The client, as far as its thread and its socket know of it. -/
def Client.census (c : Client) : Multiset (ClientPlace × Text) :=
  c.stage.census c.identity + roll (fun _ => {(.answering,c.identity)}) c.socket.inbox +
    roll (fun _ => {(.asking,c.identity)}) c.socket.outbox

/-- The worker of a message at the backend. -/
def sender (message : Message) : Multiset (WorkerPlace × Text) :=
  {(if message.more.length = 2 then .announced else .replied,message.first)}

/-- The client in a message between the backend and the workers. -/
def client_of (place : ClientPlace) (message : Message) : Multiset (ClientPlace × Text) :=
  match message.more with
  | _ :: client :: _ :: _ => {(place,client)}
  | _ => 0

namespace Hall

def worker_census (h : Hall) : Multiset (WorkerPlace × Text) :=
  roll Worker.census h.workers + roll sender h.backend.inbox +
    roll (fun message => {(.assigned,message.first)}) h.backend.outbox + roll (fun w => {(.queued,w)}) h.worker_queue

def client_census (h : Hall) : Multiset (ClientPlace × Text) :=
  roll Client.census h.clients + roll Worker.requests h.workers + roll (client_of .replied) h.backend.inbox +
    roll (client_of .assigned) h.backend.outbox + roll (fun message => {(.asked,message.first)}) h.frontend.inbox +
      roll (fun message => {(.returning,message.first)}) h.frontend.outbox

end Hall

/-- One worker and one client move, each from the first place to the second; where the
    two are the same, none moves. -/
def Shift (h t : Hall) (i j : WorkerPlace) (k l : ClientPlace) : Prop :=
  (∃ w, Moved i j w h.worker_census t.worker_census) ∧ ∃ c, Moved k l c h.client_census t.client_census

/-! ### Programs -/

/-- A loop of a worker that takes a request and sends a reply for the same client. -/
def Answers (loop : Zsocket → Except Halt Zsocket) : Prop :=
  ∀ client text rest outbox, ∃ reply,
    loop ⟨⟨client,[[],text]⟩ :: rest,[],outbox⟩ = .ok ⟨rest,[],outbox ++ [⟨client,[[],reply]⟩]⟩

/-- What the threads of an example run: the request of a client and where it goes on
    after the reply, and the loop of a worker. -/
structure Program where
  request : Text
  next : Text → ClientStage
  after : ClientPlace
  loop : Zsocket → Except Halt Zsocket
  lands : ∀ reply identity, (next reply).census identity = {(after,identity)}
  answers : Answers loop

/-- A step of a thread, or a message that travels. -/
inductive Act
  | client (j : Nat)
  | worker (j : Nat)
  | from_client (j : Nat)
  | from_worker (j : Nat)
  | to_client (i : Nat)
  | to_worker (i : Nat)
  deriving DecidableEq, Repr

def Hall.act (Z : Transport) (p : Program) (h : Hall) : Act → Except Halt Hall
  | .client j => h.client p.request p.next j
  | .worker j => h.worker p.loop j
  | .from_client j => h.from_client Z j
  | .from_worker j => h.from_worker Z j
  | .to_client i => h.to_client Z i
  | .to_worker i => h.to_worker Z i

end Canna.Brokerage
