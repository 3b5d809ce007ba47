import Canna.Brokerage

/-!
# What the operations of the brokers move

The operations of `Brokerage`, one by one: each keeps the forms of the messages
(`Orderly`) and moves one worker and one client (`Shift`). A step of a thread or of the
network makes one of a few passages (`act_kept`); with the broker's own moves, the
clients and workers of the deployment are all there, each once (`Attended`), and a
client or a worker that is not where the broker looks for it can move on
(`worker_moves`, `client_moves`).
-/
namespace Canna.Brokerage
open Canna.Census Canna.Multipart
open Canna.Names (Text)

/-! ### The forms of the messages -/

/-- A text behind an empty frame. -/
def Enclosed (m : Message) : Prop := ∃ text, m.more = [[],text]

/-- A text for or from a client, in the message of a worker. -/
def Addressed (m : Message) : Prop := ∃ client text, m.more = [[],client,[],text]

def Client.Tidy (c : Client) : Prop :=
  c.socket.pending = [] ∧ (∀ m ∈ c.socket.inbox, m.more = []) ∧ ∀ m ∈ c.socket.outbox, m.more = []

def Worker.Tidy (w : Worker) : Prop :=
  w.socket.pending = [] ∧ (∀ m ∈ w.socket.inbox, Enclosed m) ∧ ∀ m ∈ w.socket.outbox, m = ⟨READY,[]⟩ ∨ Enclosed m

/-- Every message has the form that belongs to the place where it is, and no socket
    holds the beginning of one. -/
structure Orderly (h : Hall) : Prop where
  clients : ∀ c ∈ h.clients, c.Tidy
  workers : ∀ w ∈ h.workers, w.Tidy
  arriving : ∀ m ∈ h.backend.inbox, m.more = [[],READY] ∨ Addressed m
  leaving : ∀ m ∈ h.backend.outbox, Addressed m
  asking : ∀ m ∈ h.frontend.inbox, Enclosed m
  returning : ∀ m ∈ h.frontend.outbox, Enclosed m
  pending : h.frontend.pending = [] ∧ h.backend.pending = []

/-- What an operation keeps. -/
structure Kept (h t : Hall) : Prop where
  orderly : Orderly t
  clients : t.clients.map Client.identity = h.clients.map Client.identity
  workers : t.workers.map Worker.identity = h.workers.map Worker.identity

section
variable {α β : Type*} {l : List α} {a b : α} {j : Nat}

theorem forall_set {P : α → Prop} (all : ∀ x ∈ l, P x) (new : P b) : ∀ x ∈ l.set j b, P x := by
  intro x member
  rcases List.mem_or_eq_of_mem_set member with old | rfl
  · exact all x old
  · exact new

theorem map_set_same {f : α → β} (here : l[j]? = some a) (same : f b = f a) : (l.set j b).map f = l.map f := by
  induction l generalizing j with
  | nil => simp at here
  | cons c l ih =>
    cases j with
    | zero =>
      obtain rfl : c = a := by simpa using here
      simp [same]
    | succ j => simp [ih (j := j) (by simpa using here)]

theorem forall_modify {P : α → Prop} {f : α → α} (all : ∀ x ∈ l, P x) (keeps : ∀ x, P x → P (f x)) :
    ∀ x ∈ l.modify j f, P x := by
  induction l generalizing j with
  | nil => simp
  | cons c l ih =>
    obtain ⟨first, rest⟩ := List.forall_mem_cons.mp all
    cases j with
    | zero =>
      rw [List.modify_zero_cons]
      exact List.forall_mem_cons.mpr ⟨keeps c first, rest⟩
    | succ j =>
      rw [List.modify_succ_cons]
      exact List.forall_mem_cons.mpr ⟨first, ih rest⟩

theorem map_modify_same {f : α → α} {g : α → β} (same : ∀ x, g (f x) = g x) : (l.modify j f).map g = l.map g := by
  induction l generalizing j with
  | nil => simp
  | cons c l ih =>
    cases j with
    | zero => simp [same]
    | succ j => simp [ih]

theorem map_ok {x : Except Halt α} {f : α → β} {y : β} (result : x.map f = .ok y) : ∃ a, x = .ok a ∧ f a = y := by
  cases x with
  | error e => cases result
  | ok a => exact ⟨a, rfl, Except.ok.inj result⟩

/-- A message for a known identity reaches the first thread that has it. -/
theorem deliver {f : α → α} {key : α → Text} {identity : Text} (known : identity ∈ l.map key) :
    ∃ j a, l[j]? = some a ∧ key a = identity ∧ l.modify (l.findIdx fun a => key a = identity) f = l.set j (f a) := by
  obtain ⟨b, member, same⟩ := List.mem_map.mp known
  have found : ∃ x ∈ l, decide (key x = identity) = true := ⟨b, member, decide_eq_true same⟩
  let j := l.findIdx fun a => decide (key a = identity)
  have short : j < l.length := List.findIdx_lt_length_of_exists found
  have has : decide (key l[j] = identity) = true := List.findIdx_getElem (w := short)
  refine ⟨j, l[j], List.getElem?_eq_getElem short, of_decide_eq_true has, ?_⟩
  have : Inhabited α := ⟨b⟩
  rw [List.modify_eq_set, List.getElem?_eq_getElem short, Option.getD_some]

end

/-! ### Threads -/

section
variable {c d : Client} {w v : Worker} {request : Text} {next : Text → ClientStage} {place : ClientPlace}
  {loop : Zsocket → Except Halt Zsocket}

theorem Client.turn_cases (tidy : c.Tidy) (lands : ∀ reply identity, (next reply).census identity = {(place,identity)})
    (turned : c.turn request next = .ok d) : d.identity = c.identity ∧ d.Tidy ∧
      (Moved .starting .asking c.identity c.census d.census ∨ Moved .answering place c.identity c.census d.census) := by
  obtain ⟨identity, stage, ⟨inbox, pending, outbox⟩⟩ := c
  obtain ⟨rfl, single, sent⟩ := tidy
  cases stage with
  | sending =>
    obtain rfl : _ = d := Except.ok.inj turned
    refine ⟨rfl, ⟨rfl, single, ?_⟩, .inl ?_⟩
    · intro m member
      rcases List.mem_append.mp member with old | new
      · exact sent m old
      · rw [List.mem_singleton.mp new]
    · simp only [Moved, Client.census, census_sending, census_waiting, canna_send_single, roll_append, roll_cons,
        roll_nil, ← Multiset.singleton_add]
      abel
  | waiting =>
    cases inbox with
    | nil => simp [Client.turn] at turned
    | cons m rest =>
      obtain ⟨first, more⟩ := m
      obtain rfl : more = [] := single _ List.mem_cons_self
      obtain rfl : _ = d := Except.ok.inj turned
      refine ⟨rfl, ⟨rfl, fun m member => single m (List.mem_cons_of_mem _ member), sent⟩, .inr ?_⟩
      simp only [Moved, Client.census, census_waiting, lands, roll_cons, ← Multiset.singleton_add]
      abel
  | finished reply => simp [Client.turn] at turned

theorem Worker.turn_cases (tidy : w.Tidy) (answers : Answers loop) (turned : w.turn loop = .ok v) :
    v.identity = w.identity ∧ v.Tidy ∧
      (Moved .starting .announcing w.identity w.census v.census ∧ v.requests = w.requests ∨
        Moved .working .replying w.identity w.census v.census ∧ ∃ c, Moved .working .replying c w.requests v.requests) := by
  obtain ⟨identity, ready, ⟨inbox, pending, outbox⟩⟩ := w
  obtain ⟨rfl, requests, replies⟩ := tidy
  cases ready with
  | false =>
    obtain rfl : _ = v := Except.ok.inj turned
    refine ⟨rfl, ⟨rfl, requests, ?_⟩, .inl ⟨?_, ?_⟩⟩
    · intro m member
      rcases List.mem_append.mp member with old | new
      · exact replies m old
      · exact .inl (List.mem_singleton.mp new)
    · simp [Moved, Worker.census, Worker.place, starting]
      simp only [← Multiset.singleton_add]
      abel
    · simp [Worker.requests, reply_to]
  | true =>
    cases inbox with
    | nil => simp [Worker.turn] at turned
    | cons m rest =>
      obtain ⟨client, more⟩ := m
      obtain ⟨text, rfl⟩ : Enclosed ⟨client,more⟩ := requests _ List.mem_cons_self
      obtain ⟨reply, looped⟩ := answers client text rest outbox
      obtain rfl : _ = v := by simpa [Worker.turn, looped] using turned
      refine ⟨rfl, ⟨rfl, fun m member => requests m (List.mem_cons_of_mem _ member), ?_⟩, .inr ⟨?_, client, ?_⟩⟩
      · intro m member
        rcases List.mem_append.mp member with old | new
        · exact replies m old
        · rw [List.mem_singleton.mp new]
          exact .inr ⟨reply, rfl⟩
      · simp [Moved, Worker.census, Worker.place]
        simp only [← Multiset.singleton_add]
        abel
      · simp [Moved, Worker.requests, reply_to]
        simp only [← Multiset.singleton_add]
        abel

end

/-! ### Threads of the hall -/

section
variable {Z : Transport} {h t : Hall} {request : Text} {next : Text → ClientStage} {place : ClientPlace}
  {loop : Zsocket → Except Halt Zsocket} {i j : Nat}

theorem client_kept (orderly : Orderly h) (lands : ∀ reply identity, (next reply).census identity = {(place,identity)})
    (done : h.client request next j = .ok t) :
    Kept h t ∧ (Shift h t .queued .queued .starting .asking ∨ Shift h t .queued .queued .answering place) := by
  unfold Hall.client at done
  cases here : h.clients[j]? with
  | none => simp [here] at done
  | some c =>
    cases turned : c.turn request next with
    | error e => simp [here, turned, Except.map] at done
    | ok d =>
      obtain rfl : _ = t := by simpa [here, turned, Except.map] using done
      obtain ⟨same, tidy, moved⟩ := c.turn_cases (orderly.clients c (List.mem_of_getElem? here)) lands turned
      have kept : Kept h { h with clients := h.clients.set j d } :=
        ⟨{ orderly with clients := forall_set orderly.clients tidy }, map_set_same here same, rfl⟩
      have still : ∃ w, Moved .queued .queued w h.worker_census h.worker_census := ⟨[], .rfl⟩
      rcases moved with sends | receives
      · have moved := roll_moved here sends
        exact ⟨kept, .inl ⟨still, c.identity, ((((moved.add_right _).add_right _).add_right _).add_right _).add_right _⟩⟩
      · have moved := roll_moved here receives
        exact ⟨kept, .inr ⟨still, c.identity, ((((moved.add_right _).add_right _).add_right _).add_right _).add_right _⟩⟩

theorem worker_kept (orderly : Orderly h) (answers : Answers loop) (done : h.worker loop j = .ok t) :
    Kept h t ∧ (Shift h t .starting .announcing .served .served ∨ Shift h t .working .replying .working .replying) := by
  unfold Hall.worker at done
  cases here : h.workers[j]? with
  | none => simp [here] at done
  | some w =>
    cases turned : w.turn loop with
    | error e => simp [here, turned, Except.map] at done
    | ok v =>
      obtain rfl : _ = t := by simpa [here, turned, Except.map] using done
      obtain ⟨same, tidy, moved⟩ := w.turn_cases (orderly.workers w (List.mem_of_getElem? here)) answers turned
      have kept : Kept h { h with workers := h.workers.set j v } :=
        ⟨{ orderly with workers := forall_set orderly.workers tidy }, rfl, map_set_same here same⟩
      rcases moved with ⟨announces, unasked⟩ | ⟨replies, c, answered⟩
      · have moved := roll_moved here announces
        have still : ∃ c, Moved .served .served c h.client_census { h with workers := h.workers.set j v }.client_census := by
          refine ⟨[], ?_⟩
          rw [Hall.client_census, Hall.client_census, roll_same here unasked]
          exact .rfl
        exact ⟨kept, .inl ⟨⟨w.identity, ((moved.add_right _).add_right _).add_right _⟩, still⟩⟩
      · have moved := roll_moved here replies
        have client := roll_moved here answered
        exact ⟨kept, .inr ⟨⟨w.identity, ((moved.add_right _).add_right _).add_right _⟩, c,
          ((((client.add_left _).add_right _).add_right _).add_right _).add_right _⟩⟩

/-! ### The network -/

theorem from_client_kept (orderly : Orderly h) (done : h.from_client Z j = .ok t) :
    Kept h t ∧ Shift h t .queued .queued .asking .asked := by
  unfold Hall.from_client at done
  cases here : h.clients[j]? with
  | none => simp [here] at done
  | some c =>
    obtain ⟨identity, stage, ⟨inbox, pending, outbox⟩⟩ := c
    cases outbox with
    | nil => simp [here] at done
    | cons m rest =>
      obtain rfl : _ = t := by simpa [here] using done
      obtain ⟨empty, received, sent⟩ := orderly.clients _ (List.mem_of_getElem? here)
      have single : m.more = [] := sent m List.mem_cons_self
      refine ⟨⟨{ orderly with clients := forall_set orderly.clients ?_, asking := ?_ }, map_set_same here rfl, rfl⟩,
        ⟨[], .rfl⟩, identity, ?_⟩
      · exact ⟨empty, received, fun m member => sent m (List.mem_cons_of_mem _ member)⟩
      · intro n member
        rcases List.mem_append.mp member with old | new
        · exact orderly.asking n old
        · rw [List.mem_singleton.mp new]
          exact ⟨m.first, by simp [from_req, single]⟩
      · have loses := roll_loses (f := Client.census) (e := {(.asking,identity)})
          (b := ⟨identity,stage,⟨inbox,pending,rest⟩⟩) here (by simp only [Client.census, roll_cons]; abel)
        simp only [Moved, Hall.client_census, loses, roll_append, roll_cons, roll_nil, from_req, ← Multiset.singleton_add]
        abel

theorem from_worker_kept (orderly : Orderly h) (done : h.from_worker Z j = .ok t) :
    Kept h t ∧ (Shift h t .announcing .announced .served .served ∨ Shift h t .replying .replied .replying .replied) := by
  unfold Hall.from_worker at done
  cases here : h.workers[j]? with
  | none => simp [here] at done
  | some w =>
    obtain ⟨identity, ready, ⟨inbox, pending, outbox⟩⟩ := w
    cases outbox with
    | nil => simp [here] at done
    | cons m rest =>
      obtain rfl : _ = t := by simpa [here] using done
      obtain ⟨empty, requests, replies⟩ := orderly.workers _ (List.mem_of_getElem? here)
      have tidy : Worker.Tidy ⟨identity,ready,⟨inbox,pending,rest⟩⟩ :=
        ⟨empty, requests, fun n member => replies n (List.mem_cons_of_mem _ member)⟩
      have loses := roll_loses (f := Worker.census) (b := ⟨identity,ready,⟨inbox,pending,rest⟩⟩)
        (e := {Worker.place ⟨identity,ready,⟨inbox,pending,rest⟩⟩ m}) here
        (by simp only [Worker.census, Worker.place, roll_cons]; abel)
      have client := roll_loses (f := Worker.requests) (b := ⟨identity,ready,⟨inbox,pending,rest⟩⟩) (e := reply_to m) here
        (by simp only [Worker.requests, roll_cons]; abel)
      rcases replies m List.mem_cons_self with rfl | ⟨text, enclosed⟩
      · refine ⟨⟨{ orderly with workers := forall_set orderly.workers tidy, arriving := ?_ }, rfl, map_set_same here rfl⟩,
          .inl ⟨⟨identity, ?_⟩, [], ?_⟩⟩
        · intro n member
          rcases List.mem_append.mp member with old | new
          · exact orderly.arriving n old
          · rw [List.mem_singleton.mp new]
            exact .inl rfl
        · simp only [Moved, Hall.worker_census, loses, roll_append, roll_cons, roll_nil, from_req, sender, Worker.place,
            List.length_cons, List.length_nil, if_true, ← Multiset.singleton_add]
          abel
        · simp [Moved, Hall.client_census, client, reply_to, client_of, from_req]
      · refine ⟨⟨{ orderly with workers := forall_set orderly.workers tidy, arriving := ?_ }, rfl, map_set_same here rfl⟩,
          .inr ⟨⟨identity, ?_⟩, m.first, ?_⟩⟩
        · intro n member
          rcases List.mem_append.mp member with old | new
          · exact orderly.arriving n old
          · rw [List.mem_singleton.mp new]
            exact .inr ⟨m.first, text, by simp [from_req, enclosed]⟩
        · have left : Worker.place ⟨identity,ready,⟨inbox,pending,rest⟩⟩ m = (.replying,identity) := by
            simp [Worker.place, enclosed]
          have arrived : sender (from_req identity m) = {(.replied,identity)} := by simp [sender, from_req, enclosed]
          simp only [Moved, Hall.worker_census, loses, left, arrived, roll_append, roll_cons, roll_nil,
            ← Multiset.singleton_add]
          abel
        · have left : reply_to m = {(.replying,m.first)} := by simp [reply_to, enclosed]
          have arrived : client_of .replied (from_req identity m) = {(.replied,m.first)} := by
            simp [client_of, from_req, enclosed]
          simp only [Moved, Hall.client_census, client, left, arrived, roll_append, roll_cons, roll_nil,
            ← Multiset.singleton_add]
          abel

theorem to_client_kept (orderly : Orderly h) (known : ∀ m ∈ h.frontend.outbox, m.first ∈ h.clients.map Client.identity)
    (done : h.to_client Z i = .ok t) : Kept h t ∧ Shift h t .queued .queued .returning .answering := by
  unfold Hall.to_client at done
  cases leaving : h.frontend.outbox[i]? with
  | none => simp [leaving] at done
  | some m =>
    have member := List.mem_of_getElem? leaving
    obtain ⟨j, c, here, same, delivered⟩ := deliver (f := Client.arrive Z m.more) (known m member)
    obtain rfl : _ = t := by simpa [leaving] using done
    obtain ⟨text, enclosed⟩ := orderly.returning m member
    obtain ⟨empty, received, sent⟩ := orderly.clients c (List.mem_of_getElem? here)
    have arrived : (Client.arrive Z m.more c).socket.inbox = c.socket.inbox ++ [⟨text,[]⟩] := by
      simp [Client.arrive, enclosed, to_req]
    refine ⟨⟨{ orderly with clients := ?_, returning := ?_ }, ?_, rfl⟩, ⟨[], .rfl⟩, m.first, ?_⟩
    · simp only [delivered]
      refine forall_set orderly.clients ⟨empty, ?_, sent⟩
      intro n arrives
      rw [arrived] at arrives
      rcases List.mem_append.mp arrives with old | new
      · exact received n old
      · rw [List.mem_singleton.mp new]
    · exact fun n rest => orderly.returning n (List.mem_of_mem_eraseIdx rest)
    · simp only [delivered]
      exact map_set_same here rfl
    · have gains := roll_gains (f := Client.census) (b := Client.arrive Z m.more c) (e := {(.answering,m.first)}) here
        (by
          simp only [Client.census, arrived, roll_append, roll_cons, roll_nil, ← same]
          simp only [Client.arrive]
          abel)
      have taken := roll_eraseIdx (f := fun m : Message => ({(.returning,m.first)} : Multiset (ClientPlace × Text))) leaving
      simp only [Moved, Hall.client_census, delivered, gains, ← taken, ← Multiset.singleton_add]
      abel

theorem to_worker_kept (orderly : Orderly h) (known : ∀ m ∈ h.backend.outbox, m.first ∈ h.workers.map Worker.identity)
    (done : h.to_worker Z i = .ok t) : Kept h t ∧ Shift h t .assigned .working .assigned .working := by
  unfold Hall.to_worker at done
  cases leaving : h.backend.outbox[i]? with
  | none => simp [leaving] at done
  | some m =>
    have member := List.mem_of_getElem? leaving
    obtain ⟨j, w, here, same, delivered⟩ := deliver (f := Worker.arrive Z m.more) (known m member)
    obtain rfl : _ = t := by simpa [leaving] using done
    obtain ⟨client, text, addressed⟩ := orderly.leaving m member
    obtain ⟨empty, requests, replies⟩ := orderly.workers w (List.mem_of_getElem? here)
    have arrived : (Worker.arrive Z m.more w).socket.inbox = w.socket.inbox ++ [⟨client,[[],text]⟩] := by
      simp [Worker.arrive, addressed, to_req]
    refine ⟨⟨{ orderly with workers := ?_, leaving := ?_ }, rfl, ?_⟩, ⟨m.first, ?_⟩, client, ?_⟩
    · simp only [delivered]
      refine forall_set orderly.workers ⟨empty, ?_, replies⟩
      intro n arrives
      rw [arrived] at arrives
      rcases List.mem_append.mp arrives with old | new
      · exact requests n old
      · rw [List.mem_singleton.mp new]
        exact ⟨text, rfl⟩
    · exact fun n rest => orderly.leaving n (List.mem_of_mem_eraseIdx rest)
    · simp only [delivered]
      exact map_set_same here rfl
    · have gains := roll_gains (f := Worker.census) (b := Worker.arrive Z m.more w) (e := {(.working,m.first)}) here
        (by
          simp only [Worker.census, arrived, roll_append, roll_cons, roll_nil, ← same]
          simp only [Worker.arrive, Worker.place]
          abel)
      have taken := roll_eraseIdx (f := fun m : Message => ({(.assigned,m.first)} : Multiset (WorkerPlace × Text))) leaving
      simp only [Moved, Hall.worker_census, delivered, gains, ← taken, ← Multiset.singleton_add]
      abel
    · have gains := roll_gains (f := Worker.requests) (b := Worker.arrive Z m.more w) (e := {(.working,client)}) here
        (by
          simp only [Worker.requests, arrived, roll_append, roll_cons, roll_nil]
          simp only [Worker.arrive]
          abel)
      have taken := roll_eraseIdx (f := client_of .assigned) leaving
      have left : client_of .assigned m = {(.assigned,client)} := by simp [client_of, addressed]
      simp only [Moved, Hall.client_census, delivered, gains, ← taken, left, ← Multiset.singleton_add]
      abel

/-! ### The broker -/

theorem enqueue_kept {m : Message} {rest : List Message} (orderly : Orderly h) (first : h.backend.inbox = m :: rest)
    (ready : m.more = [[],READY])
    (done : t = { h with
      backend := { h.backend with inbox := rest }
      worker_queue := h.worker_queue ++ [m.first] }) : Kept h t ∧ Shift h t .announced .queued .served .served := by
  subst done
  refine ⟨⟨{ orderly with arriving := ?_ }, rfl, rfl⟩, ⟨m.first, ?_⟩, [], ?_⟩
  · exact fun n member => orderly.arriving n (first ▸ List.mem_cons_of_mem _ member)
  · have arrived : sender m = {(.announced,m.first)} := by simp [sender, ready]
    simp only [Moved, Hall.worker_census, first, arrived, roll_append, roll_cons, roll_nil, ← Multiset.singleton_add]
    abel
  · have none : client_of .replied m = 0 := by simp [client_of, ready]
    simp only [Moved, Hall.client_census, first, none, roll_cons, zero_add]

theorem forward_kept {m : Message} {rest : List Message} {client text : Text} (reply : Text) (orderly : Orderly h)
    (first : h.backend.inbox = m :: rest) (addressed : m.more = [[],client,[],text])
    (done : t = { h with
      frontend := { h.frontend with outbox := h.frontend.outbox ++ [⟨client,[[],reply]⟩] }
      backend := { h.backend with inbox := rest }
      worker_queue := h.worker_queue ++ [m.first] }) : Kept h t ∧ Shift h t .replied .queued .replied .returning := by
  subst done
  refine ⟨⟨{ orderly with arriving := ?_, returning := ?_ }, rfl, rfl⟩, ⟨m.first, ?_⟩, client, ?_⟩
  · exact fun n member => orderly.arriving n (first ▸ List.mem_cons_of_mem _ member)
  · intro n member
    rcases List.mem_append.mp member with old | new
    · exact orderly.returning n old
    · rw [List.mem_singleton.mp new]
      exact ⟨reply, rfl⟩
  · have arrived : sender m = {(.replied,m.first)} := by simp [sender, addressed]
    simp only [Moved, Hall.worker_census, first, arrived, roll_append, roll_cons, roll_nil, ← Multiset.singleton_add]
    abel
  · have replied : client_of .replied m = {(.replied,client)} := by simp [client_of, addressed]
    simp only [Moved, Hall.client_census, first, replied, roll_append, roll_cons, roll_nil, ← Multiset.singleton_add]
    abel

theorem dispatch_kept {m : Message} {rest : List Message} {worker : Text} {workers : List Text}
    (request : Text) (orderly : Orderly h) (first : h.frontend.inbox = m :: rest) (front : h.worker_queue = worker :: workers)
    (done : t = { h with
      frontend := { h.frontend with inbox := rest }
      backend := { h.backend with outbox := h.backend.outbox ++ [⟨worker,[[],m.first,[],request]⟩] }
      worker_queue := workers }) : Kept h t ∧ Shift h t .queued .assigned .asked .assigned := by
  subst done
  refine ⟨⟨{ orderly with leaving := ?_, asking := ?_ }, rfl, rfl⟩, ⟨worker, ?_⟩, m.first, ?_⟩
  · intro n member
    rcases List.mem_append.mp member with old | new
    · exact orderly.leaving n old
    · rw [List.mem_singleton.mp new]
      exact ⟨m.first, request, rfl⟩
  · exact fun n member => orderly.asking n (first ▸ List.mem_cons_of_mem _ member)
  · simp only [Moved, Hall.worker_census, front, roll_append, roll_cons, roll_nil, ← Multiset.singleton_add]
    abel
  · have assigned : client_of .assigned ⟨worker,[[],m.first,[],request]⟩ = {(.assigned,m.first)} := rfl
    simp only [Moved, Hall.client_census, first, assigned, roll_append, roll_cons, roll_nil, ← Multiset.singleton_add]
    abel

end

/-! ### What holds of every hall -/

/-- The messages have their forms, and the clients and workers of the deployment are
    all there, each once. -/
structure Attended (D : Deployment) (h : Hall) : Prop where
  orderly : Orderly h
  client_tokens : tokens h.client_census = D.clients
  worker_tokens : tokens h.worker_census = D.workers
  clients : h.clients.map Client.identity = D.clients
  workers : h.workers.map Worker.identity = D.workers

section
variable {D : Deployment} {h t : Hall} {i j : WorkerPlace} {k l : ClientPlace}

theorem Attended.shift (attended : Attended D h) (kept : Kept h t) (shift : Shift h t i j k l) : Attended D t := by
  obtain ⟨⟨w, worker⟩, c, client⟩ := shift
  exact ⟨kept.orderly, client.tokens.trans attended.client_tokens, worker.tokens.trans attended.worker_tokens,
    kept.clients.trans attended.clients, kept.workers.trans attended.workers⟩

theorem client_census_initial (D : Deployment) :
    (Hall.initial D).client_census = (↑(D.clients.map fun c => (ClientPlace.starting,c)) : Multiset (ClientPlace × Text)) := by
  have clients : ∀ ids : List Text, roll Client.census (ids.map fun identity => ⟨identity,.sending,.fresh⟩) =
      (↑(ids.map fun c => (ClientPlace.starting,c)) : Multiset (ClientPlace × Text)) := by
    intro ids
    induction ids with
    | nil => rfl
    | cons identity ids ih => simp [Client.census, ih]
  have workers : ∀ ids : List Text, roll Worker.requests (ids.map fun identity => ⟨identity,false,.fresh⟩) = 0 := by
    intro ids
    induction ids with
    | nil => rfl
    | cons identity ids ih => simp [Worker.requests, ih]
  simp [Hall.client_census, Hall.initial, clients, workers]

theorem worker_census_initial (D : Deployment) :
    (Hall.initial D).worker_census = (↑(D.workers.map fun w => (WorkerPlace.starting,w)) : Multiset (WorkerPlace × Text)) := by
  have workers : ∀ ids : List Text, roll Worker.census (ids.map fun identity => ⟨identity,false,.fresh⟩) =
      (↑(ids.map fun w => (WorkerPlace.starting,w)) : Multiset (WorkerPlace × Text)) := by
    intro ids
    induction ids with
    | nil => rfl
    | cons identity ids ih => simp [Worker.census, starting, ih]
  simp [Hall.worker_census, Hall.initial, workers]

theorem attended_initial (D : Deployment) : Attended D (Hall.initial D) where
  orderly := by
    refine ⟨?_, ?_, by simp [Hall.initial], by simp [Hall.initial], by simp [Hall.initial], by simp [Hall.initial],
      ⟨rfl, rfl⟩⟩
    · intro c member
      obtain ⟨identity, -, rfl⟩ := List.mem_map.mp member
      exact ⟨rfl, by simp, by simp⟩
    · intro w member
      obtain ⟨identity, -, rfl⟩ := List.mem_map.mp member
      exact ⟨rfl, by simp, by simp⟩
  client_tokens := by rw [client_census_initial, tokens_at]
  worker_tokens := by rw [worker_census_initial, tokens_at]
  clients := by simp [Hall.initial, Function.comp_def]
  workers := by simp [Hall.initial, Function.comp_def]

theorem Attended.worker_mem (attended : Attended D h) (place : WorkerPlace) {w : Text} (here : (place,w) ∈ h.worker_census) :
    w ∈ D.workers := by
  have member : w ∈ tokens h.worker_census := mem_tokens.mpr ⟨place, here⟩
  rwa [attended.worker_tokens] at member

theorem Attended.client_mem (attended : Attended D h) (place : ClientPlace) {c : Text} (here : (place,c) ∈ h.client_census) :
    c ∈ D.clients := by
  have member : c ∈ tokens h.client_census := mem_tokens.mpr ⟨place, here⟩
  rwa [attended.client_tokens] at member

theorem Attended.queue_le (attended : Attended D h) : h.worker_queue.length ≤ D.workers.length := by
  have all : (tokens h.worker_census).card = D.workers.length := by rw [attended.worker_tokens, Multiset.coe_card]
  have queued : (roll (fun w => ({(.queued,w)} : Multiset (WorkerPlace × Text))) h.worker_queue).card = h.worker_queue.length :=
    card_roll_single ..
  rw [← all, tokens, Multiset.card_map, Hall.worker_census, Multiset.card_add, queued]
  omega

/-- What the broker sends back reaches a client. -/
theorem Attended.returning_known (attended : Attended D h) (m : Message) (member : m ∈ h.frontend.outbox) :
    m.first ∈ h.clients.map Client.identity := by
  rw [attended.clients]
  refine attended.client_mem .returning (Multiset.mem_add.mpr (.inr ?_))
  exact mem_roll.mpr ⟨m, member, Multiset.mem_singleton_self _⟩

/-- What the broker sends out reaches a worker. -/
theorem Attended.leaving_known (attended : Attended D h) (m : Message) (member : m ∈ h.backend.outbox) :
    m.first ∈ h.workers.map Worker.identity := by
  rw [attended.workers]
  refine attended.worker_mem .assigned (Multiset.mem_add.mpr (.inl (Multiset.mem_add.mpr (.inr ?_))))
  exact mem_roll.mpr ⟨m, member, Multiset.mem_singleton_self _⟩

/-- The client that a reply at the backend names does not carry the announcement. -/
theorem Attended.reply_named (attended : Attended D h) {m : Message} (member : m ∈ h.backend.inbox) {client text : Text}
    (addressed : m.more = [[],client,[],text]) : client ≠ READY := by
  have replied : (ClientPlace.replied,client) ∈ client_of .replied m := by simp [client_of, addressed]
  have here : (ClientPlace.replied,client) ∈ h.client_census := by
    refine Multiset.mem_add.mpr (.inl (Multiset.mem_add.mpr (.inl (Multiset.mem_add.mpr (.inl (Multiset.mem_add.mpr (.inr ?_)))))))
    exact mem_roll.mpr ⟨m, member, replied⟩
  rintro rfl
  exact D.unlike_ready (attended.client_mem _ here)

theorem Attended.distinct_workers (attended : Attended D h) : (tokens h.worker_census).Nodup := by
  rw [attended.worker_tokens]
  exact Multiset.coe_nodup.mpr D.distinct_workers

theorem Attended.distinct_clients (attended : Attended D h) : (tokens h.client_census).Nodup := by
  rw [attended.client_tokens]
  exact Multiset.coe_nodup.mpr D.distinct_clients

/-- Every worker is at one place, and there once. -/
theorem Attended.worker_place (attended : Attended D h) :
    h.worker_census.Nodup ∧ ∀ w ∈ D.workers, ∃! place, (place,w) ∈ h.worker_census := by
  refine ⟨nodup_of_tokens attended.distinct_workers, fun w member => unique_place attended.distinct_workers ?_⟩
  rw [attended.worker_tokens]
  exact Multiset.mem_coe.mpr member

/-- Every client is at one place, and there once. -/
theorem Attended.client_place (attended : Attended D h) :
    h.client_census.Nodup ∧ ∀ c ∈ D.clients, ∃! place, (place,c) ∈ h.client_census := by
  refine ⟨nodup_of_tokens attended.distinct_clients, fun c member => unique_place attended.distinct_clients ?_⟩
  rw [attended.client_tokens]
  exact Multiset.mem_coe.mpr member

/-! ### Steps of the threads and the network -/

/-- Where a step of a thread or of the network takes a worker and a client. A client that
    takes its reply goes to `after`. -/
inductive Passage (after : ClientPlace) : WorkerPlace → WorkerPlace → ClientPlace → ClientPlace → Prop
  | announce : Passage after .starting .announcing .served .served
  | announced : Passage after .announcing .announced .served .served
  | ask : Passage after .queued .queued .starting .asking
  | asked : Passage after .queued .queued .asking .asked
  | assign : Passage after .assigned .working .assigned .working
  | work : Passage after .working .replying .working .replying
  | reply : Passage after .replying .replied .replying .replied
  | answer : Passage after .queued .queued .returning .answering
  | take : Passage after .queued .queued .answering after

/-- Messages arrive at the broker, which does nothing itself. -/
structure Arrives (h t : Hall) : Prop where
  backend : ∃ new, t.backend.inbox = h.backend.inbox ++ new
  frontend : ∃ new, t.frontend.inbox = h.frontend.inbox ++ new
  queue : t.worker_queue = h.worker_queue

variable {Z : Transport} {p : Program} {a : Act}

theorem act_kept (attended : Attended D h) (done : h.act Z p a = .ok t) :
    Kept h t ∧ ∃ i j k l, Passage p.after i j k l ∧ Shift h t i j k l := by
  cases a with
  | client n =>
    obtain ⟨kept, asks | takes⟩ := client_kept attended.orderly p.lands done
    · exact ⟨kept, _, _, _, _, .ask, asks⟩
    · exact ⟨kept, _, _, _, _, .take, takes⟩
  | worker n =>
    obtain ⟨kept, announces | works⟩ := worker_kept attended.orderly p.answers done
    · exact ⟨kept, _, _, _, _, .announce, announces⟩
    · exact ⟨kept, _, _, _, _, .work, works⟩
  | from_client n =>
    obtain ⟨kept, asked⟩ := from_client_kept attended.orderly done
    exact ⟨kept, _, _, _, _, .asked, asked⟩
  | from_worker n =>
    obtain ⟨kept, announced | replied⟩ := from_worker_kept attended.orderly done
    · exact ⟨kept, _, _, _, _, .announced, announced⟩
    · exact ⟨kept, _, _, _, _, .reply, replied⟩
  | to_client n =>
    obtain ⟨kept, answers⟩ := to_client_kept attended.orderly attended.returning_known done
    exact ⟨kept, _, _, _, _, .answer, answers⟩
  | to_worker n =>
    obtain ⟨kept, assigns⟩ := to_worker_kept attended.orderly attended.leaving_known done
    exact ⟨kept, _, _, _, _, .assign, assigns⟩

theorem act_arrives (done : h.act Z p a = .ok t) : Arrives h t := by
  have same : Arrives h h := ⟨⟨[], by simp⟩, ⟨[], by simp⟩, rfl⟩
  cases a with
  | client n =>
    simp only [Hall.act, Hall.client] at done
    split at done
    · cases done
    · obtain ⟨c, -, rfl⟩ := map_ok done
      exact ⟨same.backend, same.frontend, rfl⟩
  | worker n =>
    simp only [Hall.act, Hall.worker] at done
    split at done
    · cases done
    · obtain ⟨w, -, rfl⟩ := map_ok done
      exact ⟨same.backend, same.frontend, rfl⟩
  | from_client n =>
    simp only [Hall.act, Hall.from_client] at done
    split at done
    · cases done
    · split at done
      · cases done
      · cases done
        exact ⟨same.backend, ⟨_, rfl⟩, rfl⟩
  | from_worker n =>
    simp only [Hall.act, Hall.from_worker] at done
    split at done
    · cases done
    · split at done
      · cases done
      · cases done
        exact ⟨⟨_, rfl⟩, same.frontend, rfl⟩
  | to_client n =>
    simp only [Hall.act, Hall.to_client] at done
    split at done
    · cases done
    · cases done
      exact ⟨same.backend, same.frontend, rfl⟩
  | to_worker n =>
    simp only [Hall.act, Hall.to_worker] at done
    split at done
    · cases done
    · cases done
      exact ⟨same.backend, same.frontend, rfl⟩

/-- A step of a thread or of the network that does not happen only waits. -/
theorem act_disabled (orderly : Orderly h) {halt : Halt} (stopped : h.act Z p a = .error halt) : halt = .disabled := by
  cases a with
  | client n =>
    simp only [Hall.act, Hall.client] at stopped
    split at stopped
    · cases stopped; rfl
    · rename_i c here
      obtain ⟨identity, stage, ⟨inbox, pending, outbox⟩⟩ := c
      cases stage with
      | sending => cases stopped
      | waiting =>
        cases inbox with
        | nil => cases stopped; rfl
        | cons m rest =>
          obtain ⟨first, more⟩ := m
          cases more <;> cases stopped
      | finished reply => cases stopped; rfl
  | worker n =>
    simp only [Hall.act, Hall.worker] at stopped
    split at stopped
    · cases stopped; rfl
    · rename_i w here
      obtain ⟨identity, ready, ⟨inbox, pending, outbox⟩⟩ := w
      obtain ⟨rfl, requests, -⟩ := orderly.workers _ (List.mem_of_getElem? here)
      cases ready with
      | false => cases stopped
      | true =>
        cases inbox with
        | nil => cases stopped; rfl
        | cons m rest =>
          obtain ⟨client, more⟩ := m
          obtain ⟨text, rfl⟩ : Enclosed ⟨client,more⟩ := requests _ List.mem_cons_self
          obtain ⟨reply, looped⟩ := p.answers client text rest outbox
          simp [Worker.turn, looped, Except.map, bind, Except.bind, pure, Except.pure] at stopped
  | from_client n =>
    simp only [Hall.act, Hall.from_client] at stopped
    split at stopped
    · cases stopped; rfl
    · split at stopped
      · cases stopped; rfl
      · cases stopped
  | from_worker n =>
    simp only [Hall.act, Hall.from_worker] at stopped
    split at stopped
    · cases stopped; rfl
    · split at stopped
      · cases stopped; rfl
      · cases stopped
  | to_client n =>
    simp only [Hall.act, Hall.to_client] at stopped
    split at stopped
    · cases stopped; rfl
    · cases stopped
  | to_worker n =>
    simp only [Hall.act, Hall.to_worker] at stopped
    split at stopped
    · cases stopped; rfl
    · cases stopped

/-! ### What can go on -/

/-- A thread can go on, or a message arrive. -/
def CanAct (Z : Transport) (p : Program) (h : Hall) : Prop := ∃ a t, h.act Z p a = .ok t

theorem can_from_worker {w : Worker} {m : Message} (there : w ∈ h.workers) (sent : m ∈ w.socket.outbox) : CanAct Z p h := by
  obtain ⟨n, here⟩ := List.mem_iff_getElem?.mp there
  cases left : w.socket.outbox with
  | nil => simp [left] at sent
  | cons first rest => exact ⟨.from_worker n, _, by simp only [Hall.act, Hall.from_worker, here, left]; rfl⟩

theorem can_from_client {c : Client} {m : Message} (there : c ∈ h.clients) (sent : m ∈ c.socket.outbox) : CanAct Z p h := by
  obtain ⟨n, here⟩ := List.mem_iff_getElem?.mp there
  cases left : c.socket.outbox with
  | nil => simp [left] at sent
  | cons first rest => exact ⟨.from_client n, _, by simp only [Hall.act, Hall.from_client, here, left]; rfl⟩

/-- A worker announces itself, and answers what has arrived. -/
theorem can_work {w : Worker} (orderly : Orderly h) (there : w ∈ h.workers)
    (due : w.ready = false ∨ w.socket.inbox ≠ []) : CanAct Z p h := by
  obtain ⟨n, here⟩ := List.mem_iff_getElem?.mp there
  have turns : ∃ v, w.turn p.loop = .ok v := by
    obtain ⟨identity, ready, ⟨inbox, pending, outbox⟩⟩ := w
    obtain ⟨rfl, requests, -⟩ := orderly.workers _ there
    cases ready with
    | false => exact ⟨_, rfl⟩
    | true =>
      cases inbox with
      | nil => simp at due
      | cons m rest =>
        obtain ⟨client, more⟩ := m
        obtain ⟨text, rfl⟩ : Enclosed ⟨client,more⟩ := requests _ List.mem_cons_self
        obtain ⟨reply, looped⟩ := p.answers client text rest outbox
        exact ⟨_, by simp [Worker.turn, looped]; rfl⟩
  obtain ⟨v, turned⟩ := turns
  exact ⟨.worker n, _, by simp only [Hall.act, Hall.worker, here, turned, Except.map]; rfl⟩

/-- A client sends its request, and takes the reply that has arrived. -/
theorem can_turn {c : Client} (there : c ∈ h.clients)
    (due : c.stage = .sending ∨ c.stage = .waiting ∧ c.socket.inbox ≠ []) : CanAct Z p h := by
  obtain ⟨n, here⟩ := List.mem_iff_getElem?.mp there
  have turns : ∃ d, c.turn p.request p.next = .ok d := by
    obtain ⟨identity, stage, ⟨inbox, pending, outbox⟩⟩ := c
    rcases due with rfl | ⟨rfl, arrived⟩
    · exact ⟨_, rfl⟩
    · cases inbox with
      | nil => simp at arrived
      | cons m rest =>
        obtain ⟨first, more⟩ := m
        cases more <;> exact ⟨_, rfl⟩
  obtain ⟨d, turned⟩ := turns
  exact ⟨.client n, _, by simp only [Hall.act, Hall.client, here, turned, Except.map]; rfl⟩

theorem can_arrive {w : Worker} {m : Message} (orderly : Orderly h) (there : w ∈ h.workers)
    (requested : m ∈ w.socket.inbox) : CanAct Z p h :=
  can_work orderly there (.inr (List.ne_nil_of_mem requested))

theorem can_to_worker {m : Message} (sent : m ∈ h.backend.outbox) : CanAct Z p h := by
  obtain ⟨n, here⟩ := List.mem_iff_getElem?.mp sent
  exact ⟨.to_worker n, _, by simp only [Hall.act, Hall.to_worker, here]; rfl⟩

theorem can_to_client {m : Message} (sent : m ∈ h.frontend.outbox) : CanAct Z p h := by
  obtain ⟨n, here⟩ := List.mem_iff_getElem?.mp sent
  exact ⟨.to_client n, _, by simp only [Hall.act, Hall.to_client, here]; rfl⟩

/-- Wherever a worker is, it has arrived at the broker, or something can go on. -/
theorem worker_moves (Z : Transport) (p : Program) (attended : Attended D h) {place : WorkerPlace} {w : Text}
    (here : (place,w) ∈ h.worker_census) : h.backend.inbox ≠ [] ∨ h.worker_queue ≠ [] ∨ CanAct Z p h := by
  simp only [Hall.worker_census, Multiset.mem_add, mem_roll] at here
  rcases here with ((⟨v, there, entry⟩ | ⟨m, arrived, -⟩) | ⟨m, sent, -⟩) | ⟨x, queued, -⟩
  · simp only [Worker.census, Multiset.mem_add, mem_roll] at entry
    rcases entry with (unready | ⟨m, requested, -⟩) | ⟨m, sent, -⟩
    · have due : v.ready = false := by
        cases ready : v.ready with
        | false => rfl
        | true => simp [ready, starting] at unready
      exact .inr (.inr (can_work attended.orderly there (.inl due)))
    · exact .inr (.inr (can_arrive attended.orderly there requested))
    · exact .inr (.inr (can_from_worker there sent))
  · exact .inl (List.ne_nil_of_mem arrived)
  · exact .inr (.inr (can_to_worker sent))
  · exact .inr (.inl (List.ne_nil_of_mem queued))

/-- Wherever a client that is not served is, its message has arrived at the broker, or
    something can go on. -/
theorem client_moves (Z : Transport) (p : Program) (attended : Attended D h) {place : ClientPlace} {x : Text}
    (here : (place,x) ∈ h.client_census) (unserved : place ≠ .served) :
    h.backend.inbox ≠ [] ∨ h.frontend.inbox ≠ [] ∨ CanAct Z p h := by
  have counted := here
  simp only [Hall.client_census, Multiset.mem_add, mem_roll] at here
  rcases here with ((((⟨c, there, entry⟩ | ⟨w, there, entry⟩) | ⟨m, arrived, -⟩) | ⟨m, sent, -⟩) | ⟨m, arrived, -⟩) |
    ⟨m, sent, -⟩
  · refine .inr (.inr ?_)
    simp only [Client.census, Multiset.mem_add, mem_roll, Multiset.mem_singleton] at entry
    rcases entry with (stands | ⟨m, arrived, rfl, rfl⟩) | ⟨m, sent, -⟩
    · cases stage : c.stage with
      | sending => exact can_turn there (.inl stage)
      | waiting => simp [stage] at stands
      | finished reply =>
        rw [stage, census_finished, Multiset.mem_singleton, Prod.mk.injEq] at stands
        exact absurd stands.1 unserved
    · cases stage : c.stage with
      | sending => exact can_turn there (.inl stage)
      | waiting => exact can_turn there (.inr ⟨stage, List.ne_nil_of_mem arrived⟩)
      | finished reply =>
        -- a client that has ended is served, so that no reply can have arrived as well
        have served : (ClientPlace.served,c.identity) ∈ h.client_census := by
          simp only [Hall.client_census, Multiset.mem_add, mem_roll]
          exact .inl (.inl (.inl (.inl (.inl ⟨c, there, by simp [Client.census, stage]⟩))))
        have member : c.identity ∈ D.clients := attended.client_mem _ served
        obtain ⟨only, -, unique⟩ := attended.client_place.2 c.identity member
        exact absurd ((unique _ counted).trans (unique _ served).symm) unserved
    · exact can_from_client there sent
  · refine .inr (.inr ?_)
    simp only [Worker.requests, Multiset.mem_add, mem_roll] at entry
    rcases entry with ⟨m, requested, -⟩ | ⟨m, sent, -⟩
    · exact can_arrive attended.orderly there requested
    · exact can_from_worker there sent
  · exact .inl (List.ne_nil_of_mem arrived)
  · exact .inr (.inr (can_to_worker sent))
  · exact .inr (.inl (List.ne_nil_of_mem arrived))
  · exact .inr (.inr (can_to_client sent))

end
end Canna.Brokerage
