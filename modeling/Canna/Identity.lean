import Canna.Events

/-!
# Ids and the slots that hold them

A slot in use holds an id that is not negative and leads back to the slot, however
often the numbers of `alloc_id` have come round (`Identified`), so no two slots in
use share an id. A request is made for an id, and its handler compares that id with
the one in the slot it leads to. So a request for an id that no slot in use holds
changes nothing (`stale_requests`).
-/
namespace Canna.Poll
open Canna.Sockets Canna.SocketServer Canna.ControlPipe Canna.Lts
open Canna.ControlPipe.Request

/-- The number that a call has drawn and not yet reserved. -/
def Client.drawn : Client → Option Int
  | .probing _ _ id => some id
  | .swapping _ _ id => some id
  | _ => none

/-- A slot in use holds an id of its own. -/
structure Identified (s : Sys) : Prop where
  slots : ∀ k, (s.server.slot k).type ≠ .INVALID →
    0 ≤ (s.server.slot k).id ∧ HASH_ID (s.server.slot k).id = k
  clients : ∀ c ∈ s.clients, ∀ id, c.drawn = some id → 0 ≤ id

/-- The id of a request for a slot in use. -/
def addressee : Request Int (List Byte) → Option Int
  | request_start id _ => some id
  | request_close id _ => some id
  | request_send id _ _ => some id
  | request_setopt id _ _ => some id
  | _ => none

/-! ### Numbers -/

theorem draw_id_nonneg (alloc_id : Int) : 0 ≤ draw_id alloc_id := by
  simp only [draw_id]
  by_cases negative : cint (alloc_id + 1) < 0
  · rw [if_pos negative]
    omega
  · rw [if_neg negative]
    omega

theorem probe_nonneg (i : Nat) (s : Server) (id : Int) (drawn : (probe i s).1 = some id) : 0 ≤ id := by
  induction i generalizing s with
  | zero => cases drawn
  | succ i ih =>
    simp only [probe] at drawn
    by_cases free : (s.slot (HASH_ID (draw_id s.alloc_id))).type = .INVALID
    · rw [if_pos free] at drawn
      cases drawn
      exact draw_id_nonneg s.alloc_id
    · rw [if_neg free] at drawn
      exact ih _ drawn

theorem reserve_id_nonneg {s : Server} {id : Int} (drawn : (reserve_id s).1 = some id) : 0 ≤ id := by
  unfold reserve_id at drawn
  exact probe_nonneg _ s id drawn

/-- The number drawn by the next step of a client, if it has just been drawn. -/
theorem Client.advance_drawn {s : Server} {c : Client} {id : Int} (nonneg : ∀ own, c.drawn = some own → 0 ≤ own)
    (drawn : (c.advance s).2.bind Client.drawn = some id) : 0 ≤ id := by
  cases c with
  | drawing call i =>
    simp only [Client.advance] at drawn
    by_cases negative : cint (s.alloc_id + 1) < 0
    · rw [if_pos negative] at drawn
      cases drawn
    · rw [if_neg negative] at drawn
      cases drawn
      omega
  | masking call i =>
    cases drawn
    omega
  | probing call i own =>
    simp only [Client.advance] at drawn
    split at drawn
    · cases drawn
      exact nonneg _ rfl
    · split at drawn <;> cases drawn
  | swapping call i own =>
    simp only [Client.advance] at drawn
    split at drawn <;> cases drawn
  | requesting request => cases drawn

/-! ### Slots -/

/-- A handler on a slot in use takes no free slot. -/
theorem change_valid {x y : Control} {b c : Int → Int} {type result : Int} {fault : Fault}
    (change : Change x b y c type result fault) (valid : y.type ≠ .INVALID) : x.type ≠ .INVALID := by
  intro free
  cases change with
  | kept control => exact valid (control ▸ free)
  | promoted next promotes =>
    rcases promotes with ⟨type, -⟩ | ⟨type, -⟩ | ⟨type, -⟩ <;> rw [free] at type <;> cases type
  | closed live => exact live.1 free
  | dropped live => exact live.1 free
  | leaked waiting => rcases waiting with type | type <;> rw [free] at type <;> cases type

section
variable {s t : Sys}

theorem effect_valid {s : Server} {k : Index} {r : Reply} {fault : Fault}
    (others : ∀ j, j ≠ k → r.server.slot j = s.slot j) (effect : Effect k s r fault) {j : Index}
    (valid : (r.server.slot j).type ≠ .INVALID) : (s.slot j).type ≠ .INVALID := by
  by_cases own : j = k
  · subst own
    exact change_valid effect valid
  · rwa [others j own] at valid

theorem Identified.of_slots (before : Identified s) (clients : t.clients = s.clients)
    (ids : ∀ k, (t.server.slot k).id = (s.server.slot k).id)
    (valid : ∀ k, (t.server.slot k).type ≠ .INVALID → (s.server.slot k).type ≠ .INVALID) : Identified t where
  slots k live := by
    rw [ids]
    exact before.slots k (valid k live)
  clients := by
    rw [clients]
    exact before.clients

/-- A slot is taken for an id that leads to it. -/
theorem Identified.of_reserve (before : Identified s) {id : Int} (nonneg : 0 ≤ id)
    (own : (t.server.slot (HASH_ID id)).id = id) (others : ∀ k, k ≠ HASH_ID id → t.server.slot k = s.server.slot k)
    (clients : ∀ c ∈ t.clients, ∀ id, c.drawn = some id → 0 ≤ id) : Identified t where
  slots k live := by
    by_cases same : k = HASH_ID id
    · subst same
      rw [own]
      exact ⟨nonneg, rfl⟩
    · rw [others k same] at live ⊢
      exact before.slots k live
  clients := clients

theorem identified_advance {j : Nat} (before : Identified s) (stepped : step s (.advance j) = .ok t) : Identified t := by
  obtain ⟨c, member, rfl⟩ := step_advance stepped
  have nonneg := before.clients c (List.mem_of_getElem? member)
  have next : ∀ d ∈ (c.advance s.server).2.toList ++ s.clients.eraseIdx j, ∀ id, d.drawn = some id → 0 ≤ id := by
    intro d place id drawn
    rcases List.mem_append.mp place with here | other
    · have stays : (c.advance s.server).2 = some d := by simpa using here
      exact Client.advance_drawn nonneg (by rw [stays]; exact drawn)
    · exact before.clients d (List.mem_of_mem_eraseIdx other) id drawn
  have advanced := c.advanced s.server
  generalize c.advance s.server = d at advanced next
  obtain ⟨r, after⟩ := d
  cases advanced with
  | moved d alloc_id idle => exact ⟨before.slots, next⟩
  | gave_up idle ker closed => exact ⟨before.slots, next⟩
  | reserved call i id is vacant =>
    refine before.of_reserve (nonneg id (by rw [is]; rfl)) ?_ ?_ next
    · simp [Sys.client]
    · intro k other
      simp [Sys.client, other]
  | requested request is => exact ⟨before.slots, next⟩

theorem identified_call (before : Identified s) (c : ApiCall) : Identified (s.client s.clients (c.start s.server)) where
  slots k live := by
    simp only [Sys.client, (c.started s.server).slot] at live ⊢
    exact before.slots k live
  clients d place id drawn := by
    rcases List.mem_append.mp place with here | other
    · -- a call begins before it draws a number
      cases c with
      | server_listen opaqueVal sock listens =>
        simp only [ApiCall.start] at here
        generalize do_listen s.server.kernel sock listens = listened at here
        obtain ⟨ker, (_ | fd)⟩ := listened
        · cases here
        · obtain rfl : d = _ := by simpa using here
          cases drawn
      | server_connect opaqueVal addr port =>
        simp only [ApiCall.start] at here
        generalize admission addr = taken at here
        cases taken with
        | accepted len =>
          obtain rfl : d = _ := by simpa [connect_call] using here
          cases drawn
        | _ => simp [connect_call] at here
      | server_send own buffer =>
        simp only [ApiCall.start] at here
        split at here
        · simp at here
        · obtain rfl : d = _ := by simpa using here
          cases drawn
      | _ =>
        obtain rfl : d = _ := by simpa [ApiCall.start] using here
        cases drawn
    · exact before.clients d other id drawn

theorem identified_command {o : Outcome} (reserved : Reserved s) (before : Identified s)
    (stepped : step s (.command o) = .ok t) : Identified t := by
  have ids := command_id reserved stepped
  obtain ⟨request, pipe, r, -, waiting, handled, rfl⟩ := step_command stepped
  refine before.of_slots rfl ids ?_
  intro k live
  cases own : reservation request with
  | none =>
    obtain ⟨j, frame, effect⟩ := ctrl_cmd_unreserved own handled
    exact effect_valid frame.others effect live
  | some id =>
    obtain ⟨frame, -⟩ := ctrl_cmd_reserved own handled
    by_cases same : k = HASH_ID id
    · subst same
      rw [(reserved.next waiting own).1]
      decide
    · have live : (r.server.slot k).type ≠ .INVALID := live
      rw [frame.others k same] at live
      exact live

theorem identified_dispatch {o : Outcome} (before : Identified s) (stepped : step s (.dispatch o) = .ok t) :
    Identified t := by
  obtain ⟨r, sweep, -, handled, rfl⟩ := step_dispatch stepped
  obtain ⟨e, -, -, -, -, (⟨-, slots, -, -⟩ | ⟨k, -, served⟩)⟩ := dispatch_ok handled
  · refine before.of_slots rfl ?_ ?_
    · intro k
      simp only [Sys.handled, slots]
    · intro k live
      simp only [Sys.handled, slots] at live
      exact live
  · generalize serveFault s.server k e o = fault at served
    cases served with
    | worked fault others effect =>
      exact before.of_slots rfl (effect_id others effect) fun _ => effect_valid others effect
    | accepted id listening vacant others control free balance acquired drawn =>
      exact before.of_reserve (reserve_id_nonneg drawn) (congrArg Control.id control) others before.clients

theorem identified_step {a : Action} (reserved : Reserved s) (before : Identified s) (stepped : step s a = .ok t) :
    Identified t := by
  have other : Idle a → Identified t := by
    intro idle
    obtain ⟨slots, -, -, clients, -⟩ := step_other stepped idle
    refine before.of_slots clients ?_ ?_
    · intro k
      rw [slots]
    · intro k live
      rwa [slots] at live
  cases a with
  | call c =>
    cases stepped
    exact identified_call before c
  | advance j => exact identified_advance before stepped
  | command o => exact identified_command reserved before stepped
  | dispatch o => exact identified_dispatch before stepped
  | enter => exact other .enter
  | noCommand => exact other .noCommand
  | wait ready => exact other (.wait ready)
  | sweep => exact other .sweep

end

/-! ### Stale ids -/

/-- No slot in use holds the id. -/
def Stale (s : Server) (id : Int) : Prop := ∀ k, (s.slot k).type ≠ .INVALID → (s.slot k).id ≠ id

theorem Stale.slot {s : Server} {id : Int} (stale : Stale s id) :
    (s.slot (HASH_ID id)).type = .INVALID ∨ (s.slot (HASH_ID id)).id ≠ id := by
  by_cases free : (s.slot (HASH_ID id)).type = .INVALID
  · exact .inl free
  · exact .inr (stale _ free)

/-- A request for an id that no slot in use holds is answered from the request alone. -/
theorem ctrl_cmd_stale {s : Server} {request : Request Int (List Byte)} {id : Int} (addressed : addressee request = some id)
    (stale : Stale s id) (result : Message) (o : Outcome) :
    ∃ r, ctrl_cmd s request result o = .ok r ∧ r.server = s := by
  have test := stale.slot
  cases request with
  | request_start own opaqueVal =>
    cases addressed
    refine ⟨_, rfl, ?_⟩
    unfold start_socket
    rw [if_pos test]
  | request_close own opaqueVal =>
    cases addressed
    refine ⟨⟨s, ⟨id, opaqueVal, 0, .nullptr⟩, SOCKET_CLOSE⟩, ?_, rfl⟩
    simp only [ctrl_cmd, close_socket, if_pos test]
    rfl
  | request_send own sz buffer =>
    cases addressed
    refine ⟨⟨s, result, -1⟩, ?_, rfl⟩
    have deaf : (s.slot (HASH_ID id)).type = .INVALID ∨ (s.slot (HASH_ID id)).id ≠ id ∨
        (s.slot (HASH_ID id)).type = .HALFCLOSE ∨ (s.slot (HASH_ID id)).type = .PACCEPT :=
      test.imp_right .inl
    simp only [ctrl_cmd, send_socket, if_pos deaf]
  | request_setopt own what value =>
    cases addressed
    refine ⟨_, rfl, ?_⟩
    rw [setopt_socket]
    rw [if_pos test]
  | _ => cases addressed

/-! ### Runs -/

theorem identified_initial (memory : Index → Socket) (alloc_id : Int) (result : Message) :
    Identified (initial memory alloc_id result) := by
  constructor
  · intro k live
    exact absurd rfl live
  · intro c member
    cases member

section
variable {memory : Index → Socket} {alloc_id : Int} {result : Message} {ms : List (Move Sys Action)} {t : Sys}

theorem identified_run (run : SysRun (initial memory alloc_id result) ms t) :
    (∀ m ∈ ms, Identified m.pre ∧ Identified m.post) ∧ Identified t := by
  have both := run.inductive_invariant (I := fun s => Reserved s ∧ Identified s)
    (fun _ _ _ before stepped => ⟨reserved_step before.1 stepped, identified_step before.1 before.2 stepped⟩)
    ⟨reserved_initial memory alloc_id result, identified_initial memory alloc_id result⟩
  exact ⟨fun m member => ⟨(both.1 m member).1.2, (both.1 m member).2.2⟩, both.2.2⟩

end

end Canna.Poll
