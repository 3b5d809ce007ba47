import Canna.Reservation
import Mathlib.Algebra.BigOperators.Fin
import Mathlib.Algebra.Order.BigOperators.Group.Finset

/-!
# Who holds a descriptor

Every descriptor that the server has obtained and not closed is held in one place: by
a call of `server_listen` that has not yet sent it, by a listen request in the pipe,
or by a slot in use that was not bound (`Accounted`). Each step hands a descriptor
on, closes the one whose holder it ends, or obtains one that nothing holds, unless
the registration of a slot to be started fails, which empties the slot and leaves its
descriptor open. So the descriptors are accounted for throughout a run exactly when
no start fails in this way (`accounted_iff`).
-/
namespace Canna.Poll
open Canna.Sockets Canna.SocketServer Canna.ControlPipe Canna.Lts
open Canna.ControlPipe.Request

/-- A slot with this content owns the descriptor. -/
def Owns (x : Control) (fd : Int) : Prop := x.type ≠ .INVALID ∧ x.type ≠ .RESERVE ∧ x.type ≠ .BIND ∧ x.fd = fd

instance (x : Control) (fd : Int) : Decidable (Owns x fd) := inferInstanceAs (Decidable (_ ∧ _ ∧ _ ∧ _))

/-- The number of descriptors with this number that a slot owns. -/
def share (x : Control) (fd : Int) : Nat := if Owns x fd then 1 else 0

/-- The slots that own the descriptor. -/
def owners (s : Server) (fd : Int) : Nat := ∑ k, share (s.slot k).control fd

/-- The calls that have obtained the descriptor and not yet sent it. -/
def callers (s : Sys) (fd : Int) : Nat := (s.clients.filterMap Client.inHand).count fd

/-- The listen requests in the pipe that carry it. -/
def carriers (s : Sys) (fd : Int) : Nat := (s.server.pipe.filterMap carried).count fd

/-- Each descriptor obtained was closed or has one holder. -/
structure Accounted (s : Sys) : Prop where
  held : ∀ fd, s.server.kernel.opened fd =
    s.server.kernel.closed fd + (callers s fd + carriers s fd + owners s.server fd)
  once : ∀ fd, callers s fd + carriers s fd + owners s.server fd ≤ 1

/-- The start of a slot that waits for it, whose registration fails. -/
def Leaks (s : Sys) : Action → Prop
  | .command o => ∃ id opaqueVal pipe, s.server.pipe = request_start id opaqueVal :: pipe ∧ StartFails s.server id o
  | _ => False

/-! ### Counting -/

/-- The descriptors outside the slots. -/
def loose (s : Sys) : List Int := tokens Client.inHand carried s

theorem loose_count (s : Sys) (fd : Int) : (loose s).count fd = callers s fd + carriers s fd := by
  unfold loose
  rw [tokens, List.count_append]
  rfl

theorem accounted_iff_balance {s : Sys} : Accounted s ↔
    ∀ fd, s.server.kernel.balance fd = (loose s).count fd + owners s.server fd ∧ s.server.kernel.balance fd ≤ 1 := by
  constructor
  · rintro ⟨held, once⟩ fd
    have here := held fd
    have most := once fd
    rw [loose_count, Kernel.balance]
    omega
  · intro balanced
    constructor
    · intro fd
      have here := balanced fd
      rw [loose_count, Kernel.balance] at here
      omega
    · intro fd
      have here := balanced fd
      rw [loose_count, Kernel.balance] at here
      omega

/-- Where one slot differs, the owners change by what it owned and owns. -/
theorem owners_frame {s t : Server} {k : Index} (others : ∀ j, j ≠ k → t.slot j = s.slot j) (fd : Int) :
    owners t fd + share (s.slot k).control fd = owners s fd + share (t.slot k).control fd := by
  have rest : ∑ j ∈ Finset.univ.erase k, share (t.slot j).control fd =
      ∑ j ∈ Finset.univ.erase k, share (s.slot j).control fd :=
    Finset.sum_congr rfl fun j member => by rw [others j (Finset.ne_of_mem_erase member)]
  have before := Finset.add_sum_erase Finset.univ (fun j => share (s.slot j).control fd) (Finset.mem_univ k)
  have after := Finset.add_sum_erase Finset.univ (fun j => share (t.slot j).control fd) (Finset.mem_univ k)
  unfold owners
  omega

theorem share_le_owners (s : Server) (k : Index) (fd : Int) : share (s.slot k).control fd ≤ owners s fd :=
  Finset.single_le_sum (f := fun k => share (s.slot k).control fd) (fun _ _ => Nat.zero_le _) (Finset.mem_univ k)

theorem share_of_type {x : Control} (type : x.type = .INVALID ∨ x.type = .RESERVE ∨ x.type = .BIND) (fd : Int) :
    share x fd = 0 := by
  apply if_neg
  rintro ⟨valid, unreserved, unbound, -⟩
  rcases type with invalid | reserved | bound
  · exact valid invalid
  · exact unreserved reserved
  · exact unbound bound

theorem share_of_own {type : SocketType} (own : type ≠ .INVALID ∧ type ≠ .RESERVE ∧ type ≠ .BIND) (id sock fd : Int) :
    share ⟨type, id, sock⟩ fd = if sock = fd then 1 else 0 := by
  simp [share, Owns, own]

theorem update_apply (b : Int → Int) (sock v fd : Int) :
    Function.update b sock (b sock + v) fd = b fd + (if sock = fd then v else 0) := by
  by_cases same : sock = fd
  · subst same
    simp
  · rw [Function.update_of_ne (Ne.symm same), if_neg same, Int.add_zero]

theorem acquired_le {b : Int → Int} {sock : Int} (single : ∀ fd, b fd ≤ 1) (free : b sock ≤ 0) (fd : Int) :
    Function.update b sock (b sock + 1) fd ≤ 1 := by
  have most := single fd
  rw [update_apply]
  by_cases same : sock = fd
  · rw [if_pos same, ← same]
    omega
  · rw [if_neg same]
    omega

/-! ### Slots -/

section
variable {x y : Control} {b c : Int → Int} {type result : Int}

theorem released_share (live : Live x.type) (fd : Int) : released x b fd = b fd - share x fd := by
  unfold released
  by_cases bound : x.type = .BIND
  · rw [if_pos bound, share_of_type (.inr (.inr bound))]
    simp
  · rw [if_neg bound, share_of_own ⟨live.1, live.2, bound⟩, Int.sub_eq_add_neg, update_apply]
    split <;> simp [Int.sub_eq_add_neg]

/-- Short of a leak, the balance of a descriptor falls exactly when the slot gives it up. -/
theorem change_share {fault : Fault} (change : Change x b y c type result fault) (sound : fault ≠ .leak) (fd : Int) :
    c fd + share x fd = b fd + share y fd := by
  cases change with
  | kept control balance => rw [control, balance]
  | promoted next promotes control balance =>
    have same : share x fd = share y fd := by
      rw [control]
      rcases promotes with ⟨from_, to_⟩ | ⟨from_, to_⟩ | ⟨from_, to_⟩ <;> simp [share, Owns, from_, to_]
    rw [balance, same]
  | closed live control balance =>
    rw [balance, released_share live, control, share_of_type (x := { x with type := .INVALID }) (.inl rfl)]
    omega
  | dropped live control balance =>
    rw [balance, released_share live, control, share_of_type (x := { x with type := .INVALID }) (.inl rfl)]
    omega
  | leaked => exact absurd rfl sound

theorem change_le {fault : Fault} (change : Change x b y c type result fault) (fd : Int) : c fd ≤ b fd := by
  cases change with
  | kept control balance => rw [balance]
  | promoted next promotes control balance => rw [balance]
  | closed live control balance => rw [balance, released_share live]; omega
  | dropped live control balance => rw [balance, released_share live]; omega
  | leaked waiting control balance => rw [balance]

/-- A leak takes an owner away and leaves the balance. -/
theorem leak_share (change : Change x b y c type result .leak) :
    c = b ∧ share x x.fd = 1 ∧ ∀ fd, share y fd = 0 := by
  cases change with
  | leaked waiting control balance =>
    refine ⟨balance, ?_, fun fd => by rw [control]; exact share_of_type (.inl rfl) fd⟩
    rcases waiting with type | type <;> simp [share, Owns, type]

/-- A request that fills a slot moves its descriptor there, or obtains one for it. -/
theorem filled_share {request : Request Int (List Byte)} {id : Int} (filled : Filled request id x b y c)
    (single : ∀ fd, b fd ≤ 1) (fd : Int) :
    c fd + (carried request).toList.count fd = b fd + share y fd ∧ c fd ≤ 1 := by
  have most := single fd
  cases filled with
  | listening sock opaqueVal is _ control balance =>
    rw [is, balance, control, share_of_own (by simp)]
    refine ⟨?_, most⟩
    simp [carried, List.count_singleton]
  | bound sock opaqueVal is _ control balance =>
    rw [is, balance, control, share_of_type (.inr (.inr rfl))]
    exact ⟨by simp [carried], most⟩
  | connected port opaqueVal host is type sock connects _ free control balance =>
    rw [is, balance, control, share_of_own (by rcases connects with rfl | rfl <;> simp)]
    refine ⟨?_, acquired_le single free fd⟩
    rw [update_apply]
    simp [carried]
  | abandoned other control balance =>
    have none : carried request = none := by
      cases request with
      | request_listen own sock opaqueVal => exact absurd rfl (other own sock opaqueVal)
      | _ => rfl
    rw [none, balance, control, share_of_type (.inl rfl)]
    exact ⟨by simp, most⟩

end

/-! ### Steps -/

section
variable {s t : Sys}

/-- Between two states the balance of each descriptor moves as its holders do, and
    ends within one. -/
structure Shifted (s t : Sys) : Prop where
  balance : ∀ fd, t.server.kernel.balance fd + (loose s).count fd + owners s.server fd =
    s.server.kernel.balance fd + (loose t).count fd + owners t.server fd
  single : ∀ fd, t.server.kernel.balance fd ≤ 1

theorem Shifted.accounted (shifted : Shifted s t) (before : Accounted s) : Accounted t := by
  refine accounted_iff_balance.mpr fun fd => ⟨?_, shifted.single fd⟩
  have here := (accounted_iff_balance.mp before fd).1
  have there := shifted.balance fd
  omega

theorem balance_le (before : Accounted s) (fd : Int) : s.server.kernel.balance fd ≤ 1 :=
  (accounted_iff_balance.mp before fd).2

theorem loose_client (others : List Client) (r : Server) (next : Option Client) (fd : Int) :
    (loose (s.client others (r, next))).count fd = (next.bind Client.inHand).toList.count fd +
      (others.filterMap Client.inHand ++ r.pipe.filterMap carried).count fd := by
  unfold loose
  rw [tokens_client, List.count_append]

section
variable (single : ∀ fd, s.server.kernel.balance fd ≤ 1)
include single

theorem shifted_call (c : ApiCall) : Shifted s (s.client s.clients (c.start s.server)) := by
  have started := c.started s.server
  have same : ∀ fd, owners (c.start s.server).1 fd = owners s.server fd := by
    intro fd
    unfold owners
    rw [started.slot]
  have outside : ∀ fd, (loose (s.client s.clients (c.start s.server))).count fd =
      ((c.start s.server).2.bind Client.inHand).toList.count fd + (loose s).count fd := by
    intro fd
    rw [loose_client, started.pipe]
    rfl
  rcases started.inHand with ⟨inHand, balance⟩ | ⟨sock, inHand, free, balance⟩
  · constructor
    · intro fd
      rw [outside, inHand]
      simp only [Sys.client, balance, same, Option.toList_none, List.count_nil, Nat.zero_add]
    · intro fd
      simp only [Sys.client, balance]
      exact single fd
  · constructor
    · intro fd
      rw [outside, inHand]
      simp only [Sys.client, balance, same, update_apply, Option.toList_some, List.count_singleton, beq_iff_eq]
      split <;> omega
    · intro fd
      simp only [Sys.client, balance]
      exact acquired_le single free fd

theorem shifted_advance {j : Nat} (stepped : step s (.advance j) = .ok t) : Shifted s t := by
  obtain ⟨c, member, rfl⟩ := step_advance stepped
  have advanced := c.advanced s.server
  generalize c.advance s.server = d at advanced
  obtain ⟨r, next⟩ := d
  have kept : next.bind Client.inHand = c.inHand → r.pipe = s.server.pipe → ∀ fd,
      (loose (s.client (s.clients.eraseIdx j) (r, next))).count fd = (loose s).count fd :=
    fun same pipe fd => (tokens_kept member same pipe).count_eq fd
  cases advanced with
  | moved d alloc_id idle still inHand =>
    refine ⟨?_, single⟩
    intro fd
    rw [kept (by rw [Option.bind_some, inHand]) rfl]
    rfl
  | gave_up idle ker closed =>
    have left : ∀ fd, (loose s).count fd = c.inHand.toList.count fd +
        (loose (s.client (s.clients.eraseIdx j) (s.server.setKernel ker, none))).count fd := by
      intro fd
      have perm : (loose s).Perm _ := tokens_of_member member
      rw [loose_client, perm.count_eq, List.count_append]
      simp
    have balance : ∀ fd, ker.balance fd = s.server.kernel.balance fd - c.inHand.toList.count fd := by
      intro fd
      rw [closed]
      cases c.inHand with
      | none => simp
      | some sock =>
        rw [Option.elim_some, Kernel.balance_close, Int.sub_eq_add_neg, update_apply, Option.toList_some,
          List.count_singleton]
        simp only [beq_iff_eq]
        split <;> rfl
    constructor
    · intro fd
      have here := balance fd
      have there := left fd
      change ker.balance fd + _ + owners s.server fd = _ +
        ((loose (s.client (s.clients.eraseIdx j) (s.server.setKernel ker, none))).count fd : Int) + owners s.server fd
      omega
    · intro fd
      have most := single fd
      have here := balance fd
      change ker.balance fd ≤ 1
      omega
  | reserved call i id is vacant =>
    refine ⟨?_, single⟩
    intro fd
    subst is
    have same : (some (Client.requesting (call.request id))).bind Client.inHand =
        Client.inHand (.swapping call i id) := by
      cases call <;> rfl
    have owned := owners_frame (s := s.server) (t := reserve s.server id) (k := HASH_ID id)
      (fun k other => Server.setSlot_other _ _ other) fd
    rw [share_of_type (.inl vacant), share_of_type (.inr (.inl (by simp [reserve, Socket.control])))] at owned
    rw [kept same rfl]
    change s.server.kernel.balance fd + _ + owners s.server fd = _ + _ + owners (reserve s.server id) fd
    omega
  | requested request is =>
    subst is
    refine ⟨?_, single⟩
    intro fd
    have handed : (loose _).count fd = (loose s).count fd := (tokens_handed member rfl).count_eq fd
    rw [handed]
    rfl

omit single in
/-- A step that changes one slot, as `changed` says, and nothing outside the slots. -/
theorem shifted_of_slot {k : Index} (loose_eq : ∀ fd, (loose t).count fd = (loose s).count fd)
    (others : ∀ j, j ≠ k → t.server.slot j = s.server.slot j)
    (changed : ∀ fd, t.server.kernel.balance fd + share (s.server.slot k).control fd =
      s.server.kernel.balance fd + share (t.server.slot k).control fd)
    (single : ∀ fd, t.server.kernel.balance fd ≤ 1) : Shifted s t := by
  refine ⟨?_, single⟩
  intro fd
  have owned := owners_frame others fd
  have here := changed fd
  rw [loose_eq]
  omega

/-- What a handler on a slot in use does to the account, short of a leak. -/
theorem shifted_effect {k : Index} {r : Reply} {sweep : Bool} {fault : Fault}
    (loose_eq : ∀ fd, (loose (s.handled r sweep)).count fd = (loose s).count fd)
    (others : ∀ j, j ≠ k → r.server.slot j = s.server.slot j) (effect : Effect k s.server r fault)
    (sound : fault ≠ .leak) : Shifted s (s.handled r sweep) :=
  shifted_of_slot loose_eq others (change_share effect sound) fun fd => (change_le effect fd).trans (single fd)

theorem shifted_command {o : Outcome} (reserved : Reserved s) (sound : s.fault (.command o) ≠ .leak)
    (stepped : step s (.command o) = .ok t) : Shifted s t := by
  obtain ⟨request, pipe, r, -, waiting, handled, rfl⟩ := step_command stepped
  rw [fault_command waiting] at sound
  have perm : ∀ frame : r.server.pipe = pipe, (loose s).Perm ((carried request).toList ++ loose (s.handled r true)) :=
    fun frame => tokens_command (t := s.handled r true) waiting rfl frame
  cases own : reservation request with
  | none =>
    obtain ⟨k, frame, effect⟩ := ctrl_cmd_unreserved own handled
    rw [commandFault_congr] at effect
    have uncarried : carried request = none := by cases request <;> first | rfl | cases own
    have same := perm frame.pipe
    rw [uncarried] at same
    exact shifted_effect single (fun fd => (same.count_eq fd).symm) frame.others effect sound
  | some id =>
    obtain ⟨frame, filled⟩ := ctrl_cmd_reserved own handled
    have shared := filled_share filled single
    refine ⟨?_, fun fd => (shared fd).2⟩
    intro fd
    have owned := owners_frame frame.others fd
    have count := (perm frame.pipe).count_eq fd
    rw [List.count_append] at count
    have unowned : share (s.server.slot (HASH_ID id)).control fd = 0 :=
      share_of_type (.inr (.inl (reserved.next waiting own).1)) fd
    have here := (shared fd).1
    change owners r.server fd + share (s.server.slot (HASH_ID id)).control fd =
      owners s.server fd + share (r.server.slot (HASH_ID id)).control fd at owned
    change r.server.kernel.balance fd + ((loose s).count fd : Int) + owners s.server fd =
      s.server.kernel.balance fd + ((loose (s.handled r true)).count fd : Int) + owners r.server fd
    change r.server.kernel.balance fd + _ = s.server.kernel.balance fd + _ at here
    omega

theorem shifted_dispatch {o : Outcome} (stepped : step s (.dispatch o) = .ok t) : Shifted s t := by
  obtain ⟨r, sweep, -, handled, rfl⟩ := step_dispatch stepped
  obtain ⟨e, -, pipe, -, -, outcome⟩ := dispatch_ok handled
  have same : ∀ fd, (loose (s.handled r sweep)).count fd = (loose s).count fd := by
    intro fd
    simp only [loose, tokens, Sys.handled, pipe]
  rcases outcome with ⟨-, slots, kernel, -⟩ | ⟨k, -, served⟩
  · refine shifted_of_slot (k := 0) same (fun j _ => congrFun slots j) ?_ ?_
    · intro fd
      simp only [Sys.handled, slots, kernel]
    · intro fd
      simp only [Sys.handled, kernel]
      exact single fd
  · have sound : serveFault s.server k e o ≠ .leak := by
      unfold serveFault
      split <;> exact Fault.noConfusion
    generalize serveFault s.server k e o = fault at served sound
    cases served with
    | worked fault others effect => exact shifted_effect single same others effect sound
    | accepted id listening vacant others control free balance =>
      refine shifted_of_slot same others ?_ ?_
      · intro fd
        rw [share_of_type (x := (s.server.slot (HASH_ID id)).control) (.inl vacant)]
        change r.server.kernel.balance fd + _ = _ + (share (r.server.slot (HASH_ID id)).control fd : Int)
        rw [balance, control, share_of_own (by simp), update_apply]
        split <;> simp
      · intro fd
        change r.server.kernel.balance fd ≤ 1
        rw [balance]
        exact acquired_le single free fd

theorem shifted_other {a : Action} (stepped : step s a = .ok t) (idle : Idle a) : Shifted s t := by
  obtain ⟨slots, pipe, kernel, clients, -⟩ := step_other stepped idle
  refine shifted_of_slot (k := 0) ?_ (fun j _ => congrFun slots j) ?_ ?_
  · intro fd
    simp only [loose, tokens, pipe, clients]
  · intro fd
    rw [slots, kernel]
  · intro fd
    rw [kernel]
    exact single fd

end

theorem leaks_iff (a : Action) : s.fault a = .leak ↔ Leaks s a := by
  cases a with
  | command o =>
    simp only [Sys.fault, Leaks]
    cases s.server.pipe with
    | nil => simp
    | cons request pipe =>
      cases request with
      | request_start id opaqueVal => simp [commandFault]
      | _ => simp [commandFault]
  | dispatch o =>
    refine iff_of_false ?_ id
    intro leak
    cases current : s.server.ev[s.server.event_index]? with
    | none =>
      simp only [Sys.fault, current] at leak
      cases leak
    | some e =>
      simp only [Sys.fault, current] at leak
      cases slot : e.s with
      | none => rw [slot] at leak; cases leak
      | some k =>
        rw [slot, Option.elim_some, serveFault] at leak
        split at leak <;> cases leak
  | _ => exact iff_of_false Fault.noConfusion id

instance (a : Action) : Decidable (Leaks s a) := decidable_of_iff _ (leaks_iff a)

/-- Every step but a start that leaks moves the balances with the holders. -/
theorem shifted_step {a : Action} (reserved : Reserved s) (single : ∀ fd, s.server.kernel.balance fd ≤ 1)
    (sound : ¬ Leaks s a) (stepped : step s a = .ok t) : Shifted s t := by
  cases a with
  | call c =>
    cases stepped
    exact shifted_call single c
  | advance j => exact shifted_advance single stepped
  | command o => exact shifted_command single reserved (fun leak => sound ((leaks_iff _).mp leak)) stepped
  | dispatch o => exact shifted_dispatch single stepped
  | enter => exact shifted_other single stepped .enter
  | noCommand => exact shifted_other single stepped .noCommand
  | wait ready => exact shifted_other single stepped (.wait ready)
  | sweep => exact shifted_other single stepped .sweep

/-- A start that leaks takes its slot from the owners of a descriptor and leaves the
    balances. -/
theorem leaks_step {a : Action} (leaks : Leaks s a) (stepped : step s a = .ok t) :
    t.server.kernel.balance = s.server.kernel.balance ∧ (∀ fd, (loose t).count fd = (loose s).count fd) ∧
      ∃ x : Control, share x x.fd = 1 ∧ ∀ fd, owners t.server fd + share x fd = owners s.server fd := by
  cases a with
  | command o =>
    obtain ⟨id, opaqueVal, pipe, starts, fails⟩ := leaks
    obtain ⟨request, rest, r, -, waiting, handled, rfl⟩ := step_command stepped
    rw [waiting] at starts
    cases starts
    obtain ⟨frame, effect⟩ := start_socket_effect { s.server with pipe := pipe } id opaqueVal o
    have fails : StartFails { s.server with pipe := pipe } id o := fails
    cases handled
    rw [if_pos fails] at effect
    obtain ⟨balance, owned, given_up⟩ := leak_share effect
    have same : (loose s).Perm _ := tokens_command (t := s.handled _ true) waiting rfl frame.pipe
    refine ⟨balance, fun fd => (same.count_eq fd).symm, _, owned, ?_⟩
    intro fd
    have shares := owners_frame frame.others fd
    rw [given_up fd, Nat.add_zero] at shares
    exact shares
  | _ => exact leaks.elim

/-- A step keeps the account exactly when it is no start that leaks. -/
theorem accounted_step {a : Action} (reserved : Reserved s) (before : Accounted s) (stepped : step s a = .ok t) :
    Accounted t ↔ ¬ Leaks s a := by
  constructor
  · intro after leaks
    obtain ⟨balance, loose_eq, x, owned, owners⟩ := leaks_step leaks stepped
    have there := (accounted_iff_balance.mp after x.fd).1
    have here := (accounted_iff_balance.mp before x.fd).1
    have shares := owners x.fd
    rw [loose_eq, balance] at there
    omega
  · intro sound
    exact (shifted_step reserved (balance_le before) sound stepped).accounted before

end

/-! ### Runs -/

/-- A slot that owned a descriptor and has become free has closed it. -/
def ClosesLost (m : Move Sys Action) : Prop :=
  ∀ k fd, Owns (m.pre.server.slot k).control fd → (m.post.server.slot k).type = .INVALID →
    m.post.server.kernel.opened fd = m.post.server.kernel.closed fd

theorem closes_lost {s t : Sys} {a : Action} (reserved : Reserved s) (before : Accounted s) (sound : ¬ Leaks s a)
    (stepped : step s a = .ok t) : ClosesLost ⟨s, a, t⟩ := by
  intro k fd owned freed
  have owned_one : share (s.server.slot k).control fd = 1 := if_pos owned
  rcases step_live reserved stepped (k := k) ⟨owned.1, owned.2.1⟩ with same | ⟨r, sweep, rfl, effect⟩
  · exact absurd ((congrArg Control.type same).symm.trans freed) owned.1
  · have changed := change_share effect (fun leak => sound ((leaks_iff a).mp leak)) fd
    rw [share_of_type (x := (r.server.slot k).control) (.inl freed)] at changed
    have here := accounted_iff_balance.mp before fd
    have least := share_le_owners s.server k fd
    change r.server.kernel.opened fd = r.server.kernel.closed fd
    rw [Kernel.balance] at changed
    omega

theorem accounted_initial (memory : Index → Socket) (alloc_id : Int) (result : Message) :
    Accounted (initial memory alloc_id result) := by
  have free : ∀ fd, owners (initial memory alloc_id result).server fd = 0 := fun fd =>
    Finset.sum_eq_zero fun k _ => share_of_type (.inl rfl) fd
  constructor
  · intro fd
    rw [free]
    rfl
  · intro fd
    rw [free]
    exact Nat.zero_le 1

/-- A listen on descriptor 5, up to the listening slot. -/
def listening : List Action :=
  [.call (.server_listen 0 5 true), .advance 0, .advance 0, .advance 0, .advance 0, .enter, .command {}]

/-- The start of that slot is next in the pipe. -/
def starting : List Action := listening ++ [.call (.server_start 0 1), .advance 0]

end Canna.Poll
