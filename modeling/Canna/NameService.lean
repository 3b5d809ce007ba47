import Canna.Census
import Canna.Lts
import Canna.Multipart
import Canna.NameServer

/-!
# Routers and the name server

The loop of the name server with its clients, the routers of `router_server.cpp` and the
test client of the name server: each requests a name for the group `cluster` once, and the
test client also receives the names that the server publishes. In whichever order requests,
replies, subscriptions and publications arrive, of two lists replied one begins with the
other and no two end with the same name (`names_differ`), and a client that had subscribed
when it made its request misses no name (`names_followed`). A run that cannot go on has
answered every client, and the test clients have heard all that was published since they
were subscribed, where the publisher drops nothing (`names_end`).
-/
namespace Canna.NameService
open Canna.Census Canna.Lts Canna.Names Canna.NameServer
open Canna.Multipart (Transport)

/-! ### Clients and server -/

/-- The generated class `NameInfo`, from names to a message and back. -/
structure NameInfo where
  SerializeToString : List Text → Text
  ParseFromString : Text → List Text
  round_trip : ∀ names, (∀ name ∈ names, name.length < 128) → ParseFromString (SerializeToString names) = names

inductive Stage
  | connecting
  | waiting
  | answered
  deriving DecidableEq, Repr

/-- A router or the test client: the names of the reply, whether the server knows of the
    subscription, and the names published since, on their way and received. -/
structure Client where
  test : Bool
  stage : Stage
  namelist : List Text
  subscribed : Bool
  inbox : List Text
  heard : List Text
  deriving DecidableEq, Repr

/-- The name that is replied but not published yet, the requests and the replies on their
    way, each with its client, and the clients. -/
structure Sys where
  namectrl : NameCtrl
  publishing : Option Text
  requests : List (Nat × Text)
  replies : List (Nat × Text)
  clients : List Client

/-- For each client whether it is the test client. -/
def initial (clients : List Bool) : Sys :=
  ⟨.fresh,none,[],[],clients.map fun test => ⟨test,.connecting,[],false,[],[]⟩⟩

/-- A client makes its request, or its subscription reaches the server; the server replies
    to a request, or publishes the name, mute for some clients; a reply reaches its client;
    the test client receives a name. -/
inductive Action
  | request (j : Nat)
  | subscribe (j : Nat)
  | serve (i : Nat)
  | publish (mute : List Nat)
  | reply (i : Nat)
  | hear (j : Nat)
  deriving DecidableEq, Repr

namespace Sys

def request (Z : Transport) (s : Sys) (j : Nat) : Option Sys :=
  s.clients[j]?.bind fun c =>
    if c.stage = .connecting then
      some { s with
        requests := s.requests ++ (Z.frame cluster).map fun msg => (j,msg)
        clients := s.clients.set j { c with stage := .waiting } }
    else none

def subscribe (s : Sys) (j : Nat) : Option Sys :=
  s.clients[j]?.bind fun c =>
    if c.subscribed then none else some { s with clients := s.clients.set j { c with subscribed := true } }

/-- The loop of the server, up to the reply. -/
def serve (Z : Transport) (I : NameInfo) (s : Sys) (i : Nat) : Option Sys :=
  match s.publishing, s.requests[i]? with
  | none, some (j,group) => (NameServer.serve s.namectrl group).map fun (exchange,namectrl) =>
      { s with
        namectrl := namectrl
        publishing := some exchange.name
        requests := s.requests.eraseIdx i
        replies := s.replies ++ (Z.frame (I.SerializeToString exchange.namelist)).map fun msg => (j,msg) }
  | _, _ => none

end Sys

/-- A name is published to a client, for which the publisher may be mute once the names on
    their way to it have come to its high-water mark. -/
def Client.published (Z : Transport) (name : Text) (mute : Bool) (c : Client) : Client :=
  if c.subscribed ∧ ¬ (mute ∧ Z.high_water_mark ≤ c.inbox.length) then { c with inbox := c.inbox ++ Z.frame name } else c

namespace Sys

def publish (Z : Transport) (s : Sys) (mute : List Nat) : Option Sys :=
  s.publishing.map fun name =>
    { s with publishing := none, clients := s.clients.mapIdx fun j => Client.published Z name (mute.contains j) }

def reply (I : NameInfo) (s : Sys) (i : Nat) : Option Sys :=
  s.replies[i]?.bind fun (j,msg) => s.clients[j]?.bind fun c =>
    if c.stage = .waiting then
      some { s with
        replies := s.replies.eraseIdx i
        clients := s.clients.set j { c with stage := .answered, namelist := I.ParseFromString msg } }
    else none

def hear (s : Sys) (j : Nat) : Option Sys :=
  s.clients[j]?.bind fun c =>
    match c.inbox with
    | name :: rest =>
      if c.test ∧ c.stage ≠ .connecting then
        some { s with clients := s.clients.set j { c with inbox := rest, heard := c.heard ++ [name] } }
      else none
    | [] => none

def next (Z : Transport) (I : NameInfo) (s : Sys) : Action → Option Sys
  | .request j => s.request Z j
  | .subscribe j => s.subscribe j
  | .serve i => s.serve Z I i
  | .publish mute => s.publish Z mute
  | .reply i => s.reply I i
  | .hear j => s.hear j

end Sys

def step (Z : Transport) (I : NameInfo) (s : Sys) (a : Action) : Except Unit Sys :=
  match s.next Z I a with
  | some t => .ok t
  | none => .error ()

/-! ### The order of the requests served -/

/-- The list of names after so many requests. -/
def listing (count : Nat) : List Text := issued cluster (min count SERIAL_SIZE)

/-- The names published from one request served to another. -/
def between (since count : Nat) : List Text := (List.range' since (count - since)).map (answer cluster)

/-- What a client has received, where the clients of `order` are served one after the other
    and the names of `count` of them are published. It hears of all names from its subscription
    on, unless there are more than the high-water mark; so of its own, where clients are to be
    subscribed when they make their request. -/
structure Client.Sound (Z : Transport) (punctual : Prop) (order : List Nat) (count j : Nat) (c : Client) : Prop where
  answered : c.stage = .answered → ∃ k, order[k]? = some j ∧ c.namelist = listing (k + 1)
  unsubscribed : c.subscribed = false → c.inbox = [] ∧ c.heard = []
  subscribed : c.subscribed = true → order.length ≤ Z.high_water_mark →
    ∃ since ≤ count, c.heard ++ c.inbox = between since count ∧ (punctual → ∀ k, order[k]? = some j → since ≤ k)
  early : punctual → c.stage ≠ .connecting → c.subscribed = true

/-- The clients of `order` have been served one after the other, and the names of `count`
    of them are published. -/
structure Valid (Z : Transport) (I : NameInfo) (punctual : Prop) (order : List Nat) (count : Nat) (s : Sys) : Prop where
  holds : Holds s.namectrl (Function.update (fun _ => 0) cluster (min order.length SERIAL_SIZE))
  published : s.publishing = none ∧ count = order.length ∨
    s.publishing = some (answer cluster count) ∧ count + 1 = order.length
  groups : ∀ r ∈ s.requests, r.2 = cluster
  distinct : (order ++ s.requests.map Prod.fst).Nodup
  asked : ∀ j ∈ order ++ s.requests.map Prod.fst, ∃ c, s.clients[j]? = some c ∧ c.stage ≠ .connecting
  replies : ∀ r ∈ s.replies, ∃ k, order[k]? = some r.1 ∧ r.2 = I.SerializeToString (listing (k + 1))
  waiting : ∀ j c, s.clients[j]? = some c → c.stage = .waiting → j ∈ s.requests.map Prod.fst ∨ j ∈ s.replies.map Prod.fst
  clients : ∀ j (c : Client), s.clients[j]? = some c → c.Sound Z punctual order count j

section
variable {Z : Transport} {I : NameInfo} {punctual : Prop} {order : List Nat} {count i j : Nat} {s t : Sys} {c d : Client} {a : Action}

theorem getElem?_put {l : List Client} (here : l[j]? = some c) (d : Client) (k : Nat) :
    (l.set j d)[k]? = if j = k then some d else l[k]? := by
  have inside : j < l.length := (List.getElem?_eq_some_iff.mp here).1
  rw [List.getElem?_set, if_pos inside]

/-- A client that is replaced by a sound one. -/
theorem clients_put {l : List Client} (here : l[j]? = some c) (sound : d.Sound Z punctual order count j)
    (all : ∀ k (e : Client), l[k]? = some e → e.Sound Z punctual order count k) :
    ∀ k (e : Client), (l.set j d)[k]? = some e → e.Sound Z punctual order count k := by
  intro k e there
  rw [getElem?_put here] at there
  split at there
  · rename_i same
    obtain rfl := Option.some.inj there
    exact same ▸ sound
  · exact all k e there

theorem asked_put {l : List Client} (here : l[j]? = some c) (stage : c.stage ≠ .connecting → d.stage ≠ .connecting) {k : Nat}
    (asked : ∃ e, l[k]? = some e ∧ e.stage ≠ .connecting) : ∃ e, (l.set j d)[k]? = some e ∧ e.stage ≠ .connecting := by
  obtain ⟨e, there, left⟩ := asked
  rw [getElem?_put here]
  split
  · rename_i same
    rw [← same, here] at there
    exact ⟨d, rfl, stage (Option.some.inj there ▸ left)⟩
  · exact ⟨e, there, left⟩

/-- A client changes but for its stage. -/
theorem Valid.put (valid : Valid Z I punctual order count s) (here : s.clients[j]? = some c) (stage : d.stage = c.stage)
    (sound : d.Sound Z punctual order count j) : Valid Z I punctual order count { s with clients := s.clients.set j d } where
  holds := valid.holds
  published := valid.published
  groups := valid.groups
  distinct := valid.distinct
  asked := fun k member => asked_put here (fun left => stage ▸ left) (valid.asked k member)
  replies := valid.replies
  waiting := by
    intro k e there waits
    rw [getElem?_put here] at there
    split at there
    · rename_i same
      obtain rfl := Option.some.inj there
      exact same ▸ valid.waiting j c here (stage ▸ waits)
    · exact valid.waiting k e there waits
  clients := clients_put here sound valid.clients

/-! ### What a step does -/

/-- The request of a client that has made none before. -/
theorem request_valid (valid : Valid Z I punctual order count s)
    (ready : punctual → ∃ c, s.clients[j]? = some c ∧ c.subscribed = true) (done : s.request Z j = some t) :
    Valid Z I punctual order count t := by
  simp only [Sys.request, Z.frame_arrives, List.map_cons, List.map_nil] at done
  obtain ⟨c, here, done⟩ := Option.bind_eq_some_iff.mp done
  split at done
  · rename_i connecting
    obtain rfl := Option.some.inj done
    have sound := valid.clients j c here
    have fresh : j ∉ order ++ s.requests.map Prod.fst := by
      intro member
      obtain ⟨e, there, left⟩ := valid.asked j member
      rw [here] at there
      exact left (Option.some.inj there ▸ connecting)
    have more : order ++ (s.requests ++ [(j,cluster)]).map Prod.fst = (order ++ s.requests.map Prod.fst) ++ [j] := by simp
    refine ⟨valid.holds, valid.published, ?_, ?_, ?_, valid.replies, ?_, ?_⟩
    · intro r member
      rcases List.mem_append.mp member with old | new
      · exact valid.groups r old
      · rw [List.mem_singleton.mp new]
    · rw [more]
      exact List.concat_eq_append ▸ valid.distinct.concat fresh
    · rw [more]
      intro k member
      rcases List.mem_append.mp member with old | new
      · exact asked_put here (fun left => absurd connecting left) (valid.asked k old)
      · rw [List.mem_singleton.mp new]
        exact ⟨_, by rw [getElem?_put here, if_pos rfl], by simp⟩
    · intro k e there stage
      rw [getElem?_put here] at there
      split at there
      · rename_i same
        exact .inl (by simp [same])
      · rcases valid.waiting k e there stage with asked | replied
        · exact .inl (by simp [asked])
        · exact .inr replied
    · refine clients_put here ⟨by simp, sound.unsubscribed, sound.subscribed, ?_⟩ valid.clients
      intro strict _
      obtain ⟨e, there, subscribed⟩ := ready strict
      rw [here] at there
      exact Option.some.inj there ▸ subscribed
  · cases done

theorem subscribe_valid (valid : Valid Z I punctual order count s) (done : s.subscribe j = some t) :
    Valid Z I punctual order count t := by
  obtain ⟨c, here, done⟩ := Option.bind_eq_some_iff.mp done
  split at done
  · cases done
  · rename_i unsubscribed
    obtain rfl := Option.some.inj done
    have sound := valid.clients j c here
    obtain ⟨inbox, heard⟩ := sound.unsubscribed (by simpa using unsubscribed)
    refine valid.put here rfl ⟨sound.answered, by simp, ?_, fun _ _ => rfl⟩
    intro _ _
    refine ⟨count, le_rfl, by simp [inbox, heard, between], ?_⟩
    -- a client that is to be subscribed first is not served yet
    intro strict k served
    obtain ⟨e, there, left⟩ := valid.asked j (List.mem_append_left _ (List.mem_of_getElem? served))
    obtain rfl : c = e := by simpa [here] using there
    exact absurd (sound.early strict left) unsubscribed

/-- Names are short enough for a length of one byte. -/
theorem listing_short (count : Nat) : ∀ name ∈ listing count, name.length < 128 := by
  intro name member
  obtain ⟨serial, small, rfl⟩ := List.mem_map.mp member
  rw [List.length_append, suffix_length (by have := List.mem_range.mp small; omega)]
  decide

theorem taken {α β : Type*} (f : α → β) {l : List α} {a : α} (here : l[i]? = some a) :
    (f a :: (l.eraseIdx i).map f).Perm (l.map f) := by
  obtain ⟨inside, rfl⟩ := List.getElem?_eq_some_iff.mp here
  exact (List.getElem_cons_eraseIdx_perm inside).map f

theorem Client.Sound.extend (sound : c.Sound Z punctual order count j) (within : count ≤ order.length) (k : Nat) :
    c.Sound Z punctual (order ++ [k]) count j where
  answered := by
    intro stage
    obtain ⟨l, served, listed⟩ := sound.answered stage
    exact ⟨l, by rw [List.getElem?_append_left (List.getElem?_eq_some_iff.mp served).1, served], listed⟩
  unsubscribed := sound.unsubscribed
  subscribed := by
    intro subscribed room
    rw [List.length_append] at room
    obtain ⟨since, early, names, own⟩ := sound.subscribed subscribed (by omega)
    refine ⟨since, early, names, ?_⟩
    intro strict l served
    by_cases old : l < order.length
    · exact own strict l (by rw [← served, List.getElem?_append_left old])
    · omega
  early := sound.early

theorem answer_min (count : Nat) : answer cluster (min count SERIAL_SIZE) = answer cluster count := by
  by_cases small : count < SERIAL_SIZE
  · rw [min_eq_left small.le]
  · simp [answer, small]

/-- The server at the next request. -/
theorem serve_next (valid : Valid Z I punctual order count s) : ∃ namectrl,
    NameServer.serve s.namectrl cluster =
      some (⟨cluster,listing (order.length + 1),answer cluster order.length⟩,namectrl) ∧
    Holds namectrl (Function.update (fun _ => 0) cluster (min (order.length + 1) SERIAL_SIZE)) := by
  obtain ⟨namectrl, allotted, granted⟩ := allotnamepair_holds valid.holds cluster
  have counted : grant (Function.update (fun _ => 0) cluster (min order.length SERIAL_SIZE)) cluster =
      Function.update (fun _ => 0) cluster (min (order.length + 1) SERIAL_SIZE) := by
    rw [grant, Function.update_self, Function.update_idem]
    congr 1
    omega
  rw [counted] at granted
  rw [Function.update_self, answer_min] at allotted
  refine ⟨namectrl, ?_, granted⟩
  have listed := getnamelist_holds granted cluster
  rw [Function.update_self] at listed
  simp [NameServer.serve, allotted, listed, listing]

theorem serve_valid (valid : Valid Z I punctual order count s) (done : s.serve Z I i = some t) :
    ∃ j, Valid Z I punctual (order ++ [j]) count t := by
  simp only [Sys.serve, Z.frame_arrives, List.map_cons, List.map_nil] at done
  split at done
  · rename_i j group idle waiting
    obtain rfl : group = cluster := valid.groups _ (List.mem_of_getElem? waiting)
    obtain ⟨namectrl, served, holds⟩ := serve_next valid
    rw [served] at done
    obtain rfl := Option.some.inj done
    have all : count = order.length := by
      rcases valid.published with ⟨-, all⟩ | ⟨busy, -⟩
      · exact all
      · rw [idle] at busy
        cases busy
    have taken : (j :: (s.requests.eraseIdx i).map Prod.fst).Perm (s.requests.map Prod.fst) := taken Prod.fst waiting
    have same : (order ++ [j] ++ (s.requests.eraseIdx i).map Prod.fst).Perm (order ++ s.requests.map Prod.fst) := by
      rw [List.append_assoc]
      exact taken.append_left order
    refine ⟨j, by rw [List.length_append]; exact holds, .inr ⟨by rw [all], by simp [all]⟩, ?_, ?_, ?_, ?_, ?_, ?_⟩
    · exact fun r member => valid.groups r (List.mem_of_mem_eraseIdx member)
    · exact same.nodup_iff.mpr valid.distinct
    · exact fun k member => valid.asked k (same.mem_iff.mp member)
    · intro r member
      rcases List.mem_append.mp member with old | new
      · obtain ⟨k, served, replied⟩ := valid.replies r old
        exact ⟨k, by rw [List.getElem?_append_left (List.getElem?_eq_some_iff.mp served).1, served], replied⟩
      · rw [List.mem_singleton.mp new]
        exact ⟨order.length, by simp, rfl⟩
    · intro k e there stage
      rcases valid.waiting k e there stage with asked | replied
      · rcases List.mem_cons.mp (taken.mem_iff.mpr asked) with here | later
        · exact .inr (by simp [here])
        · exact .inl later
      · exact .inr (by simp [replied])
    · exact fun k e there => (valid.clients k e there).extend all.le j
  · cases done

theorem between_succ {since : Nat} (within : since ≤ count) :
    between since (count + 1) = between since count ++ [answer cluster count] := by
  have longer : count + 1 - since = count - since + 1 := by omega
  have last : since + (count - since) = count := by omega
  rw [between, longer, List.range'_concat, Nat.one_mul, last, List.map_append]
  rfl

/-- The names on their way to a client are among those published. -/
theorem Client.Sound.few (sound : c.Sound Z punctual order count j) (room : order.length ≤ Z.high_water_mark) :
    c.inbox.length ≤ count := by
  cases on : c.subscribed with
  | false => simp [(sound.unsubscribed on).1]
  | true =>
    obtain ⟨since, -, names, -⟩ := sound.subscribed on room
    have lengths := congrArg List.length names
    simp only [List.length_append, between, List.length_map, List.length_range'] at lengths
    omega

/-- Below its high-water mark the publisher is mute for none of its subscribers. -/
theorem Client.Sound.published (sound : c.Sound Z punctual order count j) (next : count + 1 = order.length)
    (room : order.length ≤ Z.high_water_mark) (on : c.subscribed = true) (name : Text) (mute : Bool) :
    c.published Z name mute = { c with inbox := c.inbox ++ [name] } := by
  have few := sound.few room
  have below : ¬ (mute = true ∧ Z.high_water_mark ≤ c.inbox.length) := by
    rintro ⟨-, above⟩
    omega
  rw [Client.published, if_pos ⟨on, below⟩, Z.frame_arrives]

theorem published_kept (name : Text) (mute : Bool) (c : Client) : (c.published Z name mute).stage = c.stage ∧
    (c.published Z name mute).namelist = c.namelist ∧ (c.published Z name mute).subscribed = c.subscribed := by
  unfold Client.published
  split <;> exact ⟨rfl, rfl, rfl⟩

theorem Client.Sound.publish (sound : c.Sound Z punctual order count j) (next : count + 1 = order.length) (mute : Bool) :
    (c.published Z (answer cluster count) mute).Sound Z punctual order (count + 1) j := by
  obtain ⟨stage, namelist, subscribed⟩ := published_kept (Z := Z) (answer cluster count) mute c
  refine ⟨?_, ?_, ?_, ?_⟩
  · rw [stage, namelist]
    exact sound.answered
  · intro off
    rw [subscribed] at off
    rw [Client.published, if_neg (by simp [off])]
    exact sound.unsubscribed off
  · intro on room
    rw [subscribed] at on
    obtain ⟨since, early, names, own⟩ := sound.subscribed on room
    rw [sound.published next room on]
    exact ⟨since, by omega, by rw [between_succ early, ← names, List.append_assoc], own⟩
  · rw [stage, subscribed]
    exact sound.early

theorem publish_valid {mute : List Nat} (valid : Valid Z I punctual order count s) (done : s.publish Z mute = some t) :
    Valid Z I punctual order (count + 1) t := by
  obtain ⟨name, busy, rfl⟩ := Option.map_eq_some_iff.mp done
  rcases valid.published with ⟨idle, -⟩ | ⟨again, next⟩
  · rw [idle] at busy
    cases busy
  · obtain rfl : answer cluster count = name := by simpa [busy] using again.symm
    have back : ∀ {k : Nat} {e : Client},
        (s.clients.mapIdx fun j => Client.published Z (answer cluster count) (mute.contains j))[k]? = some e →
          ∃ c : Client, s.clients[k]? = some c ∧ c.published Z (answer cluster count) (mute.contains k) = e := by
      intro k e there
      rwa [List.getElem?_mapIdx, Option.map_eq_some_iff] at there
    refine ⟨valid.holds, .inl ⟨rfl, next⟩, valid.groups, valid.distinct, ?_, valid.replies, ?_, ?_⟩
    · intro k member
      obtain ⟨c, here, left⟩ := valid.asked k member
      exact ⟨_, by rw [List.getElem?_mapIdx, here, Option.map_some], by rwa [(published_kept _ _ _).1]⟩
    · intro k e there stage
      obtain ⟨c, here, rfl⟩ := back there
      exact valid.waiting k c here (by rwa [(published_kept _ _ _).1] at stage)
    · intro k e there
      obtain ⟨c, here, rfl⟩ := back there
      exact (valid.clients k c here).publish next _

theorem reply_valid (valid : Valid Z I punctual order count s) (done : s.reply I i = some t) :
    Valid Z I punctual order count t := by
  obtain ⟨⟨j,msg⟩, arrived, done⟩ := Option.bind_eq_some_iff.mp done
  obtain ⟨c, here, done⟩ := Option.bind_eq_some_iff.mp done
  split at done
  · rename_i waiting
    obtain rfl := Option.some.inj done
    have sound := valid.clients j c here
    obtain ⟨k, served, replied⟩ : ∃ k, order[k]? = some j ∧ msg = I.SerializeToString (listing (k + 1)) :=
      valid.replies _ (List.mem_of_getElem? arrived)
    refine ⟨valid.holds, valid.published, valid.groups, valid.distinct, ?_, ?_, ?_, ?_⟩
    · exact fun l member => asked_put here (fun _ => by simp) (valid.asked l member)
    · exact fun r member => valid.replies r (List.mem_of_mem_eraseIdx member)
    · intro l e there waits
      rw [getElem?_put here] at there
      split at there
      · obtain rfl := Option.some.inj there
        cases waits
      · rename_i other
        rcases valid.waiting l e there waits with asked | replied
        · exact .inl asked
        · rcases List.mem_cons.mp ((taken Prod.fst arrived).mem_iff.mpr replied) with same | later
          · exact absurd same.symm other
          · exact .inr later
    · refine clients_put here ⟨?_, sound.unsubscribed, sound.subscribed, ?_⟩ valid.clients
      · intro _
        exact ⟨k, served, by rw [replied]; exact I.round_trip _ (listing_short _)⟩
      · exact fun strict _ => sound.early strict (by simp [waiting])
  · cases done

theorem hear_valid (valid : Valid Z I punctual order count s) (done : s.hear j = some t) :
    Valid Z I punctual order count t := by
  obtain ⟨c, here, done⟩ := Option.bind_eq_some_iff.mp done
  split at done
  · rename_i name rest first
    split at done
    · obtain rfl := Option.some.inj done
      have sound := valid.clients j c here
      refine valid.put here rfl ⟨sound.answered, ?_, ?_, sound.early⟩
      · intro off
        have empty := (sound.unsubscribed off).1
        rw [first] at empty
        cases empty
      · intro on room
        obtain ⟨since, early, names, own⟩ := sound.subscribed on room
        exact ⟨since, early, by rw [← names, first]; simp, own⟩
    · cases done
  · cases done

/-- Where clients are to be subscribed first, the client of a request is. -/
def Ready (punctual : Prop) (s : Sys) (a : Action) : Prop :=
  punctual → ∀ j, a = .request j → ∃ c, s.clients[j]? = some c ∧ c.subscribed = true

theorem step_next (stepped : step Z I s a = .ok t) : s.next Z I a = some t := by
  unfold step at stepped
  split at stepped
  · rename_i next
    exact next.trans (congrArg some (Except.ok.inj stepped))
  · cases stepped

theorem valid_step (ready : Ready punctual s a) (valid : ∃ order count, Valid Z I punctual order count s)
    (stepped : step Z I s a = .ok t) : ∃ order count, Valid Z I punctual order count t := by
  obtain ⟨order, count, valid⟩ := valid
  have done := step_next stepped
  cases a with
  | request j => exact ⟨order, count, request_valid valid (fun strict => ready strict j rfl) done⟩
  | subscribe j => exact ⟨order, count, subscribe_valid valid done⟩
  | serve i =>
    obtain ⟨j, served⟩ := serve_valid valid done
    exact ⟨order ++ [j], count, served⟩
  | publish mute => exact ⟨order, count + 1, publish_valid valid done⟩
  | reply i => exact ⟨order, count, reply_valid valid done⟩
  | hear j => exact ⟨order, count, hear_valid valid done⟩

theorem valid_initial (Z : Transport) (I : NameInfo) (punctual : Prop) (clients : List Bool) :
    Valid Z I punctual [] 0 (initial clients) := by
  have fresh : ∀ {k : Nat} {c : Client}, (initial clients).clients[k]? = some c →
      c = ⟨c.test,.connecting,[],false,[],[]⟩ := by
    intro k c there
    obtain ⟨test, -, rfl⟩ := Option.map_eq_some_iff.mp ((List.getElem?_map ..).symm.trans there)
    rfl
  refine ⟨?_, .inl ⟨rfl, rfl⟩, by simp [initial], by simp [initial], by simp [initial], by simp [initial], ?_, ?_⟩
  · rw [List.length_nil, Nat.zero_min, Function.update_eq_self]
    exact holds_fresh
  · intro k c there waits
    rw [fresh there] at waits
    cases waits
  · intro k c there
    rw [fresh there]
    exact ⟨by simp, by simp, by simp, fun _ left => absurd rfl left⟩

variable {clients : List Bool} {ms : List (Move Sys Action)}

theorem valid_run (punctual : Prop) (run : Run (Succeeds (step Z I)) (initial clients) ms t) (ready : ∀ m ∈ ms, Ready punctual m.pre m.act) :
    ∃ order count, Valid Z I punctual order count t :=
  (run.invariant (I := fun s => ∃ order count, Valid Z I punctual order count s) (C := Ready punctual)
    (fun _ _ _ ready valid stepped => valid_step ready valid stepped) ⟨[], 0, valid_initial Z I punctual clients⟩ ready).2

/-! ### What clients know -/

theorem Valid.within (valid : Valid Z I punctual order count s) : order.length ≤ s.clients.length := by
  have inside : order ⊆ List.range s.clients.length := by
    intro j served
    obtain ⟨c, here, -⟩ := valid.asked j (List.mem_append_left _ served)
    exact List.mem_range.mpr (List.getElem?_eq_some_iff.mp here).1
  have distinct : order.Nodup := (List.nodup_append.mp valid.distinct).1
  simpa using (distinct.subperm inside).length_le

theorem listing_begins {k l : Nat} (le : k ≤ l) : listing k <+: listing l := by
  obtain ⟨more, longer⟩ := Nat.exists_eq_add_of_le (min_le_min_right SERIAL_SIZE le)
  rw [listing, listing, longer, issued, issued, List.range_add, List.map_append]
  exact List.prefix_append _ _

theorem listing_last {k : Nat} (small : k < SERIAL_SIZE) : (listing (k + 1)).getLast? = some (cluster ++ suffix k) := by
  rw [listing, min_eq_left (show k + 1 ≤ SERIAL_SIZE by omega), issued_succ, List.getLast?_concat]

/-- Of the lists that two clients are replied one begins with the other, and they do not
    end with the same name where there are serials for all clients. -/
theorem names_differ (run : Run (Succeeds (step Z I)) (initial clients) ms t) (apart : i ≠ j)
    (here : t.clients[i]? = some c) (there : t.clients[j]? = some d) (left : c.stage = .answered) (right : d.stage = .answered) :
    (c.namelist <+: d.namelist ∨ d.namelist <+: c.namelist) ∧
      (t.clients.length ≤ SERIAL_SIZE → c.namelist.getLast? ≠ d.namelist.getLast?) := by
  obtain ⟨order, count, valid⟩ := valid_run False run fun _ _ never => never.elim
  obtain ⟨k, first, mine⟩ := (valid.clients i c here).answered left
  obtain ⟨l, second, theirs⟩ := (valid.clients j d there).answered right
  rw [mine, theirs]
  constructor
  · rcases Nat.le_total k l with le | le
    · exact .inl (listing_begins (by omega))
    · exact .inr (listing_begins (by omega))
  · intro enough same
    have within := valid.within
    have low : k < order.length := (List.getElem?_eq_some_iff.mp first).1
    have high : l < order.length := (List.getElem?_eq_some_iff.mp second).1
    rw [listing_last (by omega), listing_last (by omega)] at same
    obtain ⟨-, rfl⟩ := name_injective (by omega) (by omega) (Option.some.inj same)
    exact apart (Option.some.inj (first.symm.trans second))

theorem between_append {since middle : Nat} (first : since ≤ middle) (second : middle ≤ count) :
    between since middle ++ between middle count = between since count := by
  induction count, second using Nat.le_induction with
  | base => simp [between]
  | succ n le ih => rw [between_succ le, between_succ (first.trans le), ← List.append_assoc, ih]

theorem listing_between (small : count ≤ SERIAL_SIZE) : listing count = between 0 count := by
  rw [listing, min_eq_left small, issued, between, Nat.sub_zero, ← List.range_eq_range']
  refine List.map_congr_left fun serial member => ?_
  have least := List.mem_range.mp member
  rw [answer, if_pos (by omega)]

/-- The wire format of names of fewer than 128 bytes: each behind its tag and its length. -/
def wire_parse : (fuel : Nat) → Text → List Text
  | fuel + 1, 10 :: length :: rest => rest.take length.toNat :: wire_parse fuel (rest.drop length.toNat)
  | _, _ => []

def wire_serialize (names : List Text) : Text := names.flatMap fun name => 10 :: UInt8.ofNat name.length :: name

theorem wire_parse_serialize (names : List Text) (short : ∀ name ∈ names, name.length < 128) (fuel : Nat)
    (enough : names.length ≤ fuel) : wire_parse fuel (wire_serialize names) = names := by
  induction names generalizing fuel with
  | nil => cases fuel <;> rfl
  | cons name names ih =>
    obtain ⟨one, others⟩ := List.forall_mem_cons.mp short
    cases fuel with
    | zero => simp at enough
    | succ fuel =>
      have length : (UInt8.ofNat name.length).toNat = name.length := by
        rw [UInt8.toNat_ofNat']
        omega
      have rest := ih others fuel (by simpa using enough)
      simp only [wire_serialize, List.flatMap_cons, List.cons_append, wire_parse, length, List.take_left, List.drop_left] at rest ⊢
      rw [rest]

theorem le_length_wire (names : List Text) : names.length ≤ (wire_serialize names).length := by
  induction names with
  | nil => simp
  | cons name names ih =>
    simp only [wire_serialize, List.flatMap_cons, List.length_append, List.length_cons] at ih ⊢
    omega

def NameInfo.wire : NameInfo where
  SerializeToString := wire_serialize
  ParseFromString := fun msg => wire_parse msg.length msg
  round_trip := fun names short => wire_parse_serialize names short _ (le_length_wire names)

/-- A router and the test client, both subscribed before their requests; that of the test
    client is served first. -/
def meeting : List Action :=
  [.subscribe 0,.subscribe 1,.request 0,.request 1,.serve 1,.reply 0,.publish [],.serve 0,.publish [],.reply 0,.hear 1,.hear 1]

/-- The names that are published in it. -/
def pair : List Text := [cluster ++ suffix 0,cluster ++ suffix 1]

theorem names_differ_meeting : ∃ c d, (final (step .plain .wire) (initial [false,true]) meeting).clients[0]? = some c ∧
    (final (step .plain .wire) (initial [false,true]) meeting).clients[1]? = some d ∧
    ((c.namelist <+: d.namelist ∨ d.namelist <+: c.namelist) ∧
      ((final (step .plain .wire) (initial [false,true]) meeting).clients.length ≤ SERIAL_SIZE →
        c.namelist.getLast? ≠ d.namelist.getLast?)) :=
  have here : (final (step .plain .wire) (initial [false,true]) meeting).clients[0]? =
      some ⟨false,.answered,pair,true,pair,[]⟩ := by decide +kernel
  have there : (final (step .plain .wire) (initial [false,true]) meeting).clients[1]? =
      some ⟨true,.answered,pair.take 1,true,[],pair⟩ := by decide +kernel
  ⟨_, _, here, there, names_differ (run_final (step .plain .wire) (by decide +kernel)) (by decide) here there rfl rfl⟩

/-- What a client was replied up to some name before its own, and what it has heard and is
    to hear, are together the names of the server, where every client was subscribed when it
    made its request and there are serials for all. -/
theorem names_followed (run : Run (Succeeds (step Z I)) (initial clients) ms t)
    (subscribed : ∀ m ∈ ms, ∀ j, m.act = .request j → ∃ c, m.pre.clients[j]? = some c ∧ c.subscribed = true)
    (enough : t.clients.length ≤ SERIAL_SIZE) (here : t.clients[j]? = some c) (stage : c.stage = .answered) :
    c.namelist <+: getnamelist t.namectrl cluster ∧
      ∃ early, early <+: c.namelist ∧ early ≠ c.namelist ∧
        early ++ (c.heard ++ c.inbox ++ t.publishing.toList) = getnamelist t.namectrl cluster := by
  obtain ⟨order, count, valid⟩ := valid_run True run fun m member _ => subscribed m member
  have sound := valid.clients j c here
  obtain ⟨k, served, listed⟩ := sound.answered stage
  have room := Z.room
  have within := valid.within
  have serials : SERIAL_SIZE = 256 := rfl
  obtain ⟨since, early, names, own⟩ := sound.subscribed (sound.early trivial (by simp [stage])) (by omega)
  have before := own trivial k served
  have inside : k < order.length := (List.getElem?_eq_some_iff.mp served).1
  have whole : getnamelist t.namectrl cluster = listing order.length := by
    rw [getnamelist_holds valid.holds, Function.update_self, listing]
  have sent : between since count ++ t.publishing.toList = between since order.length := by
    rcases valid.published with ⟨idle, all⟩ | ⟨busy, next⟩
    · rw [idle, all, Option.toList_none, List.append_nil]
    · rw [busy, ← next, between_succ early, Option.toList_some]
  refine ⟨by rw [listed, whole]; exact listing_begins inside, listing since, ?_, ?_, ?_⟩
  · rw [listed]
    exact listing_begins (by omega)
  · intro same
    have lengths := congrArg List.length same
    rw [listed, listing, listing, issued_length, issued_length] at lengths
    omega
  · rw [names, sent, whole, listing_between (by omega), listing_between (by omega), between_append (by omega) (by omega)]

theorem names_followed_meeting : ∃ c, (final (step .plain .wire) (initial [false,true]) meeting).clients[1]? = some c ∧
    c.namelist <+: getnamelist (final (step .plain .wire) (initial [false,true]) meeting).namectrl cluster ∧
      ∃ early, early <+: c.namelist ∧ early ≠ c.namelist ∧
        early ++ (c.heard ++ c.inbox ++ (final (step .plain .wire) (initial [false,true]) meeting).publishing.toList) =
          getnamelist (final (step .plain .wire) (initial [false,true]) meeting).namectrl cluster :=
  have here : (final (step .plain .wire) (initial [false,true]) meeting).clients[1]? =
      some ⟨true,.answered,pair.take 1,true,[],pair⟩ := by decide +kernel
  have all : ∀ m ∈ moves (step .plain .wire) (initial [false,true]) meeting,
      (match m.act with
        | .request j => m.pre.clients[j]?.any Client.subscribed
        | _ => true) = true := by decide +kernel
  have subscribed : ∀ m ∈ moves (step .plain .wire) (initial [false,true]) meeting, ∀ j, m.act = .request j →
      ∃ c, m.pre.clients[j]? = some c ∧ c.subscribed = true := by
    intro m member j requests
    have one := all m member
    rw [requests] at one
    exact Option.any_eq_true _ _ |>.mp one
  ⟨_, here, names_followed (run_final (step .plain .wire) (by decide +kernel)) subscribed (by decide +kernel) here rfl⟩

/-! ### The end of a run -/

/-- The steps ahead of a client among `size` clients: each publication may reach all. -/
def Client.ahead (size : Nat) (c : Client) : Nat :=
  (if c.stage = .connecting then size + 4 else 0) + (if c.subscribed then 0 else 1) + c.inbox.length

def Sys.ahead (size : Nat) (s : Sys) : Nat :=
  roll (Client.ahead size) s.clients + (size + 3) * s.requests.length + (size + 1) * s.publishing.toList.length +
    s.replies.length

theorem ahead_set (size e : Nat) (d : Client) (here : s.clients[j]? = some c) (lower : d.ahead size + e = c.ahead size) :
    roll (Client.ahead size) (s.clients.set j d) + e = roll (Client.ahead size) s.clients :=
  (roll_loses here lower.symm).symm

theorem ahead_published (size : Nat) (name : Text) (mute : Nat → Bool) (l : List Client) :
    roll (Client.ahead size) (l.mapIdx fun j => Client.published Z name (mute j)) ≤ roll (Client.ahead size) l + l.length := by
  induction l generalizing mute with
  | nil => simp
  | cons c l ih =>
    have one : (c.published Z name (mute 0)).ahead size ≤ c.ahead size + 1 := by
      unfold Client.published
      split
      · simp only [Client.ahead, Z.frame_arrives, List.length_append, List.length_singleton]
        omega
      · omega
    have others := ih fun j => mute (j + 1)
    simp only [List.mapIdx_cons, roll_cons, List.length_cons]
    omega

theorem length_eraseIdx_some {α : Type*} {l : List α} {a : α} (here : l[i]? = some a) : (l.eraseIdx i).length + 1 = l.length := by
  have inside := (List.getElem?_eq_some_iff.mp here).1
  rw [List.length_eraseIdx_of_lt inside]
  omega

theorem step_ahead (stepped : step Z I s a = .ok t) :
    t.clients.length = s.clients.length ∧ t.ahead s.clients.length < s.ahead s.clients.length := by
  have done := step_next stepped
  cases a with
  | request j =>
    simp only [Sys.next, Sys.request, Z.frame_arrives, List.map_cons, List.map_nil] at done
    obtain ⟨c, here, done⟩ := Option.bind_eq_some_iff.mp done
    split at done
    · rename_i connecting
      obtain rfl := Option.some.inj done
      have lower := ahead_set s.clients.length (s.clients.length + 4) { c with stage := .waiting } here
        (by simp [Client.ahead, connecting]; omega)
      simp only [Sys.ahead, List.length_set, List.length_append, List.length_singleton, Nat.mul_add, true_and]
      omega
    · cases done
  | subscribe j =>
    obtain ⟨c, here, done⟩ := Option.bind_eq_some_iff.mp done
    split at done
    · cases done
    · rename_i off
      obtain rfl := Option.some.inj done
      have lower := ahead_set s.clients.length 1 { c with subscribed := true } here
        (by simp [Client.ahead, off]; omega)
      simp only [Sys.ahead, List.length_set, true_and]
      omega
  | serve i =>
    simp only [Sys.next, Sys.serve, Z.frame_arrives, List.map_cons, List.map_nil] at done
    split at done
    · rename_i j group idle waiting
      obtain ⟨⟨exchange,namectrl⟩, -, rfl⟩ := Option.map_eq_some_iff.mp done
      have shorter := length_eraseIdx_some waiting
      simp only [Sys.ahead, ← shorter, idle, Option.toList_some, Option.toList_none, List.length_append, List.length_singleton,
        List.length_nil, Nat.mul_add, true_and]
      omega
    · cases done
  | publish mute =>
    obtain ⟨name, busy, rfl⟩ := Option.map_eq_some_iff.mp done
    have most := ahead_published (Z := Z) s.clients.length name mute.contains s.clients
    simp only [Sys.ahead, busy, Option.toList_some, Option.toList_none, List.length_mapIdx, List.length_singleton,
      List.length_nil, true_and]
    omega
  | reply i =>
    obtain ⟨⟨j,msg⟩, arrived, done⟩ := Option.bind_eq_some_iff.mp done
    obtain ⟨c, here, done⟩ := Option.bind_eq_some_iff.mp done
    split at done
    · rename_i waiting
      obtain rfl := Option.some.inj done
      have same := ahead_set s.clients.length 0 { c with stage := .answered, namelist := I.ParseFromString msg } here
        (by simp [Client.ahead, waiting])
      have shorter := length_eraseIdx_some arrived
      simp only [Sys.ahead, List.length_set, ← shorter, true_and]
      omega
    · cases done
  | hear j =>
    obtain ⟨c, here, done⟩ := Option.bind_eq_some_iff.mp done
    split at done
    · rename_i name rest first
      split at done
      · obtain rfl := Option.some.inj done
        have lower := ahead_set s.clients.length 1 { c with inbox := rest, heard := c.heard ++ [name] } here
          (by simp [Client.ahead, first]; omega)
        simp only [Sys.ahead, List.length_set, true_and]
        omega
      · cases done
    · cases done

theorem ahead_initial (clients : List Bool) : (initial clients).ahead clients.length = clients.length * (clients.length + 5) := by
  have each : ∀ (size : Nat) (l : List Bool), roll (Client.ahead size) (l.map fun test => ⟨test,.connecting,[],false,[],[]⟩) =
      l.length * (size + 5) := by
    intro size l
    induction l with
    | nil => simp
    | cons test l ih =>
      rw [List.map_cons, roll_cons, ih, List.length_cons, Nat.succ_mul]
      simp [Client.ahead]
      omega
  simp [Sys.ahead, initial, each]

/-- A client in a state in which nothing can be done. -/
theorem stuck_client (valid : Valid Z I punctual order count s) (stuck : ∀ a, s.next Z I a = none) (here : s.clients[j]? = some c) :
    c.stage = .answered ∧ c.subscribed = true ∧ (c.test = true → c.inbox = []) := by
  have idle : s.publishing = none := by
    have publish := stuck (.publish [])
    simpa [Sys.next, Sys.publish] using publish
  have served : s.requests = [] := by
    cases waiting : s.requests with
    | nil => rfl
    | cons r rest =>
      obtain ⟨namectrl, answers, -⟩ := serve_next valid
      have group := valid.groups r (by simp [waiting])
      have serve := stuck (.serve 0)
      simp [Sys.next, Sys.serve, idle, waiting, group, answers] at serve
  have answered : c.stage = .answered := by
    cases stage : c.stage with
    | answered => rfl
    | connecting =>
      have request := stuck (.request j)
      simp [Sys.next, Sys.request, here, stage] at request
    | waiting =>
      rcases valid.waiting j c here stage with asked | replied
      · simp [served] at asked
      · obtain ⟨⟨k,msg⟩, there, rfl⟩ := List.mem_map.mp replied
        obtain ⟨i, arrived⟩ := List.mem_iff_getElem?.mp there
        have reply := stuck (.reply i)
        simp [Sys.next, Sys.reply, arrived, here, stage] at reply
  refine ⟨answered, ?_, ?_⟩
  · have subscribe := stuck (.subscribe j)
    simpa [Sys.next, Sys.subscribe, here] using subscribe
  · intro test
    have hear := stuck (.hear j)
    cases inbox : c.inbox with
    | nil => rfl
    | cons name rest => simp [Sys.next, Sys.hear, here, inbox, test, answered] at hear

/-! ### What the subscribers hear -/

/-- The name that is published in a move. -/
def publication (m : Move Sys Action) : Option Text :=
  match m.act with
  | .publish _ => m.pre.publishing
  | _ => none

/-- A client has heard, or is to hear, what was published since its subscription. -/
def Client.Followed (h : List (Move Sys Action)) (j : Nat) (c : Client) : Prop :=
  ∃ front m back, h = front ++ m :: back ∧ m.act = .subscribe j ∧ c.heard ++ c.inbox = back.filterMap publication

theorem Client.Followed.later {h : List (Move Sys Action)} {m : Move Sys Action} (followed : c.Followed h j)
    (more : d.heard ++ d.inbox = c.heard ++ c.inbox ++ (publication m).toList) : d.Followed (h ++ [m]) j := by
  obtain ⟨front, n, back, rfl, subscribes, heard⟩ := followed
  refine ⟨front, n, back ++ [m], by simp, subscribes, ?_⟩
  rw [more, heard, List.filterMap_append]
  cases published : publication m <;> simp [published]

/-- Where a client is replaced by one that knows the same names, no client knows others. -/
theorem heard_put {l : List Client} (here : l[i]? = some c) (on : d.subscribed = c.subscribed)
    (names : d.heard ++ d.inbox = c.heard ++ c.inbox) {e : Client} (there : (l.set i d)[j]? = some e) :
    ∃ c : Client, l[j]? = some c ∧ e.subscribed = c.subscribed ∧ e.heard ++ e.inbox = c.heard ++ c.inbox := by
  rw [getElem?_put here] at there
  split at there
  · rename_i same
    cases there
    exact ⟨c, same ▸ here, on, names⟩
  · exact ⟨e, there, rfl, rfl⟩

/-- Only a publication or a subscription changes what a client is to hear. -/
theorem heard_other (stepped : step Z I s a = .ok t) (unpublished : ∀ mute, a ≠ .publish mute)
    (unsubscribed : ∀ i, a ≠ .subscribe i) (there : t.clients[j]? = some d) :
    ∃ c : Client, s.clients[j]? = some c ∧ d.subscribed = c.subscribed ∧ d.heard ++ d.inbox = c.heard ++ c.inbox := by
  have done := step_next stepped
  cases a with
  | request i =>
    obtain ⟨c, here, done⟩ := Option.bind_eq_some_iff.mp done
    split at done
    · cases done
      exact heard_put here (by rfl) (by rfl) there
    · cases done
  | subscribe i => exact absurd rfl (unsubscribed i)
  | serve i =>
    simp only [Sys.next, Sys.serve] at done
    split at done
    · obtain ⟨served, -, rfl⟩ := Option.map_eq_some_iff.mp done
      exact ⟨d, there, rfl, rfl⟩
    · cases done
  | publish mute => exact absurd rfl (unpublished mute)
  | reply i =>
    obtain ⟨⟨k,msg⟩, -, done⟩ := Option.bind_eq_some_iff.mp done
    obtain ⟨c, here, done⟩ := Option.bind_eq_some_iff.mp done
    split at done
    · cases done
      exact heard_put here (by rfl) (by rfl) there
    · cases done
  | hear i =>
    obtain ⟨c, here, done⟩ := Option.bind_eq_some_iff.mp done
    split at done
    · rename_i name rest first
      split at done
      · cases done
        exact heard_put here (by rfl) (by simp [first]) there
      · cases done
    · cases done

/-- Below the high-water mark a step tells every subscriber what it publishes. -/
theorem followed_step {h : List (Move Sys Action)} (valid : Valid Z I punctual order count s)
    (room : order.length ≤ Z.high_water_mark)
    (followed : ∀ j (c : Client), s.clients[j]? = some c → c.subscribed = true → c.Followed h j)
    (stepped : step Z I s a = .ok t) (j : Nat) (d : Client) (there : t.clients[j]? = some d) (on : d.subscribed = true) :
    d.Followed (h ++ [⟨s,a,t⟩]) j := by
  have others : (∀ mute, a ≠ .publish mute) → (∀ i, a ≠ .subscribe i) → d.Followed (h ++ [⟨s,a,t⟩]) j := by
    intro unpublished unsubscribed
    obtain ⟨c, here, same, names⟩ := heard_other stepped unpublished unsubscribed there
    have none : publication ⟨s,a,t⟩ = none := by
      unfold publication
      split
      · rename_i mute act
        exact absurd act (unpublished mute)
      · rfl
    exact (followed j c here (same ▸ on)).later (by rw [names, none]; simp)
  have done := step_next stepped
  cases a with
  | subscribe i =>
    obtain ⟨c, here, done⟩ := Option.bind_eq_some_iff.mp done
    split at done
    · cases done
    · rename_i off
      obtain rfl := Option.some.inj done
      rw [getElem?_put here] at there
      split at there
      · rename_i same
        subst same
        cases there
        obtain ⟨inbox, heard⟩ := (valid.clients i c here).unsubscribed (by simpa using off)
        exact ⟨h, _, [], rfl, rfl, by simp [inbox, heard]⟩
      · exact (followed j d there on).later (by simp [publication])
  | publish mute =>
    obtain ⟨name, busy, rfl⟩ := Option.map_eq_some_iff.mp done
    rcases valid.published with ⟨idle, -⟩ | ⟨-, next⟩
    · rw [idle] at busy
      cases busy
    · rw [List.getElem?_mapIdx, Option.map_eq_some_iff] at there
      obtain ⟨c, here, rfl⟩ := there
      rw [(published_kept _ _ _).2.2] at on
      refine (followed j c here on).later ?_
      rw [(valid.clients j c here).published next room on]
      simp [publication, busy]
  | _ => exact others (by simp) (by simp)

theorem followed_run (run : Run (Succeeds (step Z I)) (initial clients) ms t) (room : clients.length ≤ Z.high_water_mark)
    (here : t.clients[j]? = some c) (on : c.subscribed = true) : c.Followed ms j := by
  have followed := run.history (C := fun _ _ => True) (I := fun h s =>
    (∃ order count, Valid Z I False order count s) ∧ s.clients.length = clients.length ∧
      ∀ j (c : Client), s.clients[j]? = some c → c.subscribed = true → c.Followed h j) ?_ ?_ fun _ _ => trivial
  · exact followed.2.2 j c here on
  · rintro h s a t - ⟨⟨order, count, valid⟩, size, followed⟩ stepped
    have within := valid.within
    refine ⟨valid_step (fun never => never.elim) ⟨order, count, valid⟩ stepped, (step_ahead stepped).1.trans size, ?_⟩
    exact followed_step valid (by omega) followed stepped
  · refine ⟨⟨[], 0, valid_initial Z I False clients⟩, by simp [initial], ?_⟩
    intro j c here on
    obtain ⟨test, -, rfl⟩ := Option.map_eq_some_iff.mp ((List.getElem?_map ..).symm.trans here)
    cases on

/-- Every run ends, and one that cannot go on has answered every client, with names as long
    as there are serials; and the test clients have heard all names published since they were
    subscribed, where the publisher cannot come to its high-water mark. -/
theorem names_end (run : Run (Succeeds (step Z I)) (initial clients) ms t) :
    ms.length ≤ clients.length * (clients.length + 5) ∧
      ((∀ a u, step Z I t a ≠ .ok u) → (getnamelist t.namectrl cluster).length = min clients.length SERIAL_SIZE ∧
        ∀ j (c : Client), t.clients[j]? = some c → c.stage = .answered ∧ (c.test = true → c.inbox = [] ∧
          (clients.length ≤ Z.high_water_mark → ∃ front m back, ms = front ++ m :: back ∧ m.act = .subscribe j ∧
            c.heard = back.filterMap publication))) := by
  have kept : t.clients.length = clients.length := by
    refine (run.inductive_invariant (I := fun s => s.clients.length = clients.length)
      (fun s a t same stepped => (step_ahead stepped).1.trans same) ?_).2
    simp [initial]
  constructor
  · have short := run.length_le (I := fun s => s.clients.length = clients.length) (C := fun _ _ => True)
      (Sys.ahead clients.length) (fun s a t _ same stepped => (step_ahead stepped).1.trans same)
      (fun s a t _ same stepped => same ▸ (step_ahead stepped).2) (by simp [initial]) fun _ _ => trivial
    rw [ahead_initial] at short
    omega
  · intro stuck
    obtain ⟨order, count, valid⟩ := valid_run False run fun _ _ never => never.elim
    have none : ∀ a, t.next Z I a = none := by
      intro a
      cases next : t.next Z I a with
      | none => rfl
      | some u => exact absurd (by simp [step, next]) (stuck a u)
    have clients_end := fun j c here => stuck_client (j := j) (c := c) valid none here
    have all : t.clients.length ≤ order.length := by
      have served : List.range t.clients.length ⊆ order := by
        intro j member
        have here : t.clients[j]? = some _ := List.getElem?_eq_getElem (List.mem_range.mp member)
        obtain ⟨k, there, -⟩ := (valid.clients j _ here).answered (clients_end j _ here).1
        exact List.mem_of_getElem? there
      simpa using (List.nodup_range.subperm served).length_le
    have within := valid.within
    refine ⟨?_, fun j c here => ?_⟩
    · rw [getnamelist_holds valid.holds, Function.update_self, issued_length, ← kept]
      congr 1
      omega
    · obtain ⟨answered, on, idle⟩ := clients_end j c here
      refine ⟨answered, fun test => ⟨idle test, fun room => ?_⟩⟩
      obtain ⟨front, m, back, whole, subscribes, names⟩ := followed_run run room here on
      rw [idle test, List.append_nil] at names
      exact ⟨front, m, back, whole, subscribes, names⟩

theorem names_end_meeting :
    let t := final (step .plain .wire) (initial [false,true]) meeting
    (moves (step .plain .wire) (initial [false,true]) meeting).length ≤ [false,true].length * ([false,true].length + 5) ∧
      (getnamelist t.namectrl cluster).length = min [false,true].length SERIAL_SIZE ∧
      ∃ c, t.clients[1]? = some c ∧ c.heard = pair ∧ c.stage = .answered ∧ c.inbox = [] ∧
        ∃ front m back, moves (step .plain .wire) (initial [false,true]) meeting = front ++ m :: back ∧
          m.act = .subscribe 1 ∧ c.heard = back.filterMap publication := by
  intro t
  have run : Run (Succeeds (step .plain .wire)) (initial [false,true]) _ t := run_final (step .plain .wire) (by decide +kernel)
  have idle : t.publishing = none ∧ t.requests = [] ∧ t.replies = [] := by decide +kernel
  have all : t.clients = [⟨false,.answered,pair,true,pair,[]⟩,⟨true,.answered,pair.take 1,true,[],pair⟩] := by decide +kernel
  have stuck : ∀ a u, step .plain .wire t a ≠ .ok u := by
    intro a u stepped
    have done := step_next stepped
    cases a with
    | request j => rcases j with _ | _ | j <;> simp [Sys.next, Sys.request, all] at done
    | subscribe j => rcases j with _ | _ | j <;> simp [Sys.next, Sys.subscribe, all] at done
    | serve i => simp [Sys.next, Sys.serve, idle] at done
    | publish mute => simp [Sys.next, Sys.publish, idle] at done
    | reply i => simp [Sys.next, Sys.reply, idle] at done
    | hear j => rcases j with _ | _ | j <;> simp [Sys.next, Sys.hear, all, pair] at done
  obtain ⟨short, ended⟩ := names_end run
  obtain ⟨names, clients⟩ := ended stuck
  have here : t.clients[1]? = some ⟨true,.answered,pair.take 1,true,[],pair⟩ := by rw [all]; rfl
  obtain ⟨answered, heard⟩ := clients 1 _ here
  exact ⟨short, names, _, here, rfl, answered, (heard rfl).1, (heard rfl).2 (by decide)⟩

end

end Canna.NameService
