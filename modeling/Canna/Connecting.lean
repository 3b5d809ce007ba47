import Canna.Poll

/-!
# Connecting to the addresses of a host

`open_socket` takes the first address that can be used and closes the descriptors of
those tried before it (`try_addresses_first`); the kernel then knows of the attempts
only by its counts (`passed`). When no address can be used, or the one taken cannot
be registered, it reads a null pointer (`opens_first_iff`). A connection that is made
at once is reported with the text of its address; one that is made later is left in
the same state but reported without it, as `report_connect` takes the 0 of
`getpeername` for a failure (`deferred_differs`).
-/
namespace Canna.SocketServer
open Canna.Sockets

/-- `socket` yields a descriptor for the address, and `connect` does not fail. -/
def usable (ker : Kernel) (a : Attempt) : Bool := (ker.acquire a.sock).isSome && a.connect ≠ .failed

/-- The kernel after the descriptors of these addresses were obtained and closed. -/
def passed (ker : Kernel) : List Attempt → Kernel
  | [] => ker
  | a :: ai_next =>
    match ker.acquire a.sock with
    | none => passed ker ai_next
    | some ker => passed (ker.close a.sock) ai_next

section
variable {ker n : Kernel} {a b : Attempt} {earlier later : List Attempt}

theorem closed_tried {fd : Int} (acquired : ker.acquire fd = some n) :
    (n.close fd).closed = Function.update ker.closed fd (ker.closed fd + 1) := by
  obtain ⟨-, -, rfl⟩ := Kernel.acquire_eq acquired
  rfl

theorem usable_congr (same : n.balance = ker.balance) (a : Attempt) : usable n a = usable ker a := by
  have free : (n.acquire a.sock).isSome = (ker.acquire a.sock).isSome := by
    rw [Bool.eq_iff_iff, Kernel.acquire_isSome, Kernel.acquire_isSome, same]
  unfold usable
  rw [free]

theorem passed_balance (ker : Kernel) (earlier : List Attempt) : (passed ker earlier).balance = ker.balance := by
  induction earlier generalizing ker with
  | nil => rfl
  | cons b ai_next ih =>
    rw [passed]
    cases acquired : ker.acquire b.sock with
    | none => exact ih ker
    | some n => exact (ih (n.close b.sock)).trans (Kernel.acquire_close_balance acquired)

theorem passed_closed_le (ker : Kernel) (earlier : List Attempt) (fd : Int) :
    ker.closed fd ≤ (passed ker earlier).closed fd := by
  induction earlier generalizing ker with
  | nil => exact Nat.le_refl _
  | cons b ai_next ih =>
    rw [passed]
    cases acquired : ker.acquire b.sock with
    | none => exact ih ker
    | some n =>
      refine Nat.le_trans ?_ (ih (n.close b.sock))
      rw [closed_tried acquired]
      by_cases same : fd = b.sock
      · subst same; simp
      · simp [same]

/-- The descriptors obtained for these addresses are closed. -/
theorem passed_closed (ker : Kernel) (member : b ∈ earlier) (obtained : (ker.acquire b.sock).isSome = true) :
    ker.closed b.sock < (passed ker earlier).closed b.sock := by
  induction earlier generalizing ker with
  | nil => cases member
  | cons c ai_next ih =>
    rw [passed]
    cases acquired : ker.acquire c.sock with
    | none =>
      rcases List.mem_cons.mp member with same | later
      · rw [same, acquired] at obtained
        cases obtained
      · exact ih ker later obtained
    | some n =>
      have step := closed_tried acquired
      rcases List.mem_cons.mp member with same | later
      · refine Nat.lt_of_lt_of_le ?_ (passed_closed_le _ _ _)
        rw [step, same]
        simp
      · have still : ((n.close c.sock).acquire b.sock).isSome = true := by
          rw [Kernel.acquire_isSome, Kernel.acquire_close_balance acquired, ← Kernel.acquire_isSome]
          exact obtained
        refine Nat.lt_of_le_of_lt ?_ (ih _ later still)
        rw [step]
        by_cases same : b.sock = c.sock
        · rw [same]; simp
        · simp [same]

/-! ### The loop over the addresses -/

/-- The loop stops at the first address that can be used. -/
theorem try_addresses_first (later : List Attempt) (unusable : ∀ b ∈ earlier, usable ker b = false)
    (first : usable ker a = true) : ∃ n, (passed ker earlier).acquire a.sock = some n ∧
      try_addresses ker (earlier ++ a :: later) = .ok (n, a) := by
  induction earlier generalizing ker with
  | nil =>
    simp only [usable, Bool.and_eq_true, decide_eq_true_eq] at first
    obtain ⟨n, acquired⟩ := Option.isSome_iff_exists.mp first.1
    refine ⟨n, acquired, ?_⟩
    simp only [List.nil_append, try_addresses, acquired, if_neg first.2]
  | cons b ai_next ih =>
    have others : ∀ c ∈ ai_next, usable ker c = false := fun c member => unusable c (List.mem_cons_of_mem _ member)
    rw [passed]
    simp only [List.cons_append, try_addresses]
    cases acquired : ker.acquire b.sock with
    | none => exact ih others first
    | some n =>
      have failed : b.connect = .failed := by
        have own := unusable b List.mem_cons_self
        simpa [usable, acquired] using own
      have same := usable_congr (Kernel.acquire_close_balance acquired)
      simp only [if_pos failed]
      exact ih (fun c member => (same c).trans (others c member)) ((same a).trans first)

/-- Past the last address the loop reads a null pointer. -/
theorem try_addresses_none (unusable : ∀ b ∈ earlier, usable ker b = false) :
    try_addresses ker earlier = .error .nullDereference := by
  induction earlier generalizing ker with
  | nil => rfl
  | cons b ai_next ih =>
    have others : ∀ c ∈ ai_next, usable ker c = false := fun c member => unusable c (List.mem_cons_of_mem _ member)
    simp only [try_addresses]
    cases acquired : ker.acquire b.sock with
    | none => exact ih others
    | some n =>
      have failed : b.connect = .failed := by
        have own := unusable b List.mem_cons_self
        simpa [usable, acquired] using own
      have same := usable_congr (Kernel.acquire_close_balance acquired)
      simp only [if_pos failed]
      exact ih fun c member => (same c).trans (others c member)

/-- Some address can be used: the first such one. -/
theorem first_usable {ai_list : List Attempt} (some : ∃ a ∈ ai_list, usable ker a = true) :
    ∃ earlier a later, ai_list = earlier ++ a :: later ∧ (∀ b ∈ earlier, usable ker b = false) ∧
      usable ker a = true := by
  obtain ⟨a, found⟩ := Option.isSome_iff_exists.mp (List.find?_isSome.mpr some)
  obtain ⟨first, earlier, later, split, unusable⟩ := List.find?_eq_some_iff_append.mp found
  exact ⟨earlier, a, later, split, fun b member => by simpa using unusable b member, first⟩

end

/-! ### The first usable address -/

/-- The text of a peer's address, if there is one. -/
def peerText : Option String → Data
  | some text => .text text
  | none => .nullptr

/-- The connection made to an address, in the slot reserved for it, after those
    before it were tried in vain. -/
structure Took (s : Server) (id : Int) (opaqueVal : UInt64) (earlier : List Attempt) (a : Attempt) (r : Reply) :
    Prop where
  slot : r.server.slot (HASH_ID id) =
    { s.slot (HASH_ID id) with
      type := if a.connect = .succeeded then .CONNECTED else .CONNECTING
      id := id
      fd := a.sock
      protocol := PROTOCOL_TCP
      opaqueVal := opaqueVal }
  epoll : r.server.kernel.epoll a.sock = some ⟨HASH_ID id, a.connect ≠ .succeeded⟩
  balance : r.server.kernel.balance = Function.update s.kernel.balance a.sock (s.kernel.balance a.sock + 1)
  closed : ∀ b ∈ earlier, (s.kernel.acquire b.sock).isSome = true →
    s.kernel.closed b.sock < r.server.kernel.closed b.sock
  type : r.type = if a.connect = .succeeded then SOCKET_OPEN else -1
  result : r.result = ⟨id, opaqueVal, 0, if a.connect = .succeeded then peerText a.ntop else .nullptr⟩

section
variable {s : Server} {id : Int} {opaqueVal : UInt64} {o : Outcome} {earlier later : List Attempt} {a : Attempt}

/-- A descriptor just obtained can be registered. -/
theorem add_acquired {ker n : Kernel} {fd : Int} (acquired : ker.acquire fd = some n) (k : Index) :
    n.add fd k true = some { n with epoll := Function.update n.epoll fd (some ⟨k, false⟩) } := by
  have fresh : n.epoll fd = none := by
    obtain ⟨-, -, rfl⟩ := Kernel.acquire_eq acquired
    simp
  unfold Kernel.add
  rw [if_pos ⟨rfl, fresh⟩]

theorem new_socket_refused {fd : Int} {protocol : Nat} (reserved : (s.slot (HASH_ID id)).type = .RESERVE) :
    new_socket s id fd protocol opaqueVal true false = .ok (s.setType (HASH_ID id) .INVALID, none) := by
  simp only [new_socket, if_neg (not_not.mpr reserved), if_true, Kernel.add, Bool.false_eq_true, false_and, if_false]

/-- The server once a descriptor just obtained is registered for a slot. -/
def joined (s : Server) (id : Int) (opaqueVal : UInt64) (n : Kernel) (fd : Int) : Server :=
  (s.setKernel { n with epoll := Function.update n.epoll fd (some ⟨HASH_ID id, false⟩) }).setSlot (HASH_ID id)
    { s.slot (HASH_ID id) with id := id, fd := fd, protocol := PROTOCOL_TCP, opaqueVal := opaqueVal }

theorem new_socket_joined {ker n : Kernel} {fd : Int} (reserved : (s.slot (HASH_ID id)).type = .RESERVE)
    (acquired : ker.acquire fd = some n) :
    new_socket (s.setKernel n) id fd PROTOCOL_TCP opaqueVal true true =
      .ok (joined s id opaqueVal n fd, some (HASH_ID id)) := by
  have kept : ((s.setKernel n).slot (HASH_ID id)).type = .RESERVE := reserved
  simp only [new_socket, if_neg (not_not.mpr kept), if_true, Server.setKernel_kernel, add_acquired acquired]
  rfl

/-- `open_socket` up to the registration of the descriptor it has got. -/
theorem open_socket_tried {n : Kernel} {ai_list : List Attempt} (addresses : o.addresses = some ai_list)
    (found : try_addresses s.kernel ai_list = .ok (n, a)) :
    open_socket s id opaqueVal o = do
      let (s, ns) ← new_socket (s.setKernel n) id a.sock PROTOCOL_TCP opaqueVal true o.admitted
      match ns with
      | none => .error .nullDereference
      | some k =>
        if a.connect = .succeeded then
          return ⟨s.setType k .CONNECTED, ⟨id, opaqueVal, 0, peerText a.ntop⟩, SOCKET_OPEN⟩
        else
          let s := s.setType k .CONNECTING
          return ⟨s.setKernel (s.kernel.write (s.slot k).fd k true), ⟨id, opaqueVal, 0, .nullptr⟩, -1⟩ := by
  cases ai_list with
  | nil => cases found
  | cons b ai_next =>
    simp only [open_socket, addresses, found]
    rfl

/-- `open_socket` connects to the first usable address, if its registration succeeds. -/
theorem open_socket_took (opaqueVal : UInt64) (reserved : (s.slot (HASH_ID id)).type = .RESERVE)
    (tried : o.addresses = some (earlier ++ a :: later)) (unusable : ∀ b ∈ earlier, usable s.kernel b = false)
    (first : usable s.kernel a = true) (admitted : o.admitted = true) :
    ∃ r, open_socket s id opaqueVal o = .ok r ∧ Took s id opaqueVal earlier a r := by
  obtain ⟨n, acquired, found⟩ := try_addresses_first later unusable first
  obtain ⟨-, -, balance⟩ := Kernel.acquire_balance acquired
  have closed : ∀ b ∈ earlier, (s.kernel.acquire b.sock).isSome = true → s.kernel.closed b.sock < n.closed b.sock := by
    intro b member obtained
    have counts : n.closed = (passed s.kernel earlier).closed := by
      obtain ⟨-, -, rfl⟩ := Kernel.acquire_eq acquired
      rfl
    rw [counts]
    exact passed_closed s.kernel member obtained
  rw [passed_balance] at balance
  rw [open_socket_tried tried found, admitted, new_socket_joined reserved acquired]
  by_cases succeeded : a.connect = .succeeded
  · refine ⟨⟨(joined s id opaqueVal n a.sock).setType (HASH_ID id) .CONNECTED,
      ⟨id, opaqueVal, 0, peerText a.ntop⟩, SOCKET_OPEN⟩, ?_, ?_⟩
    · simp only [bind, Except.bind, pure, Except.pure, if_pos succeeded]
    · refine ⟨?_, ?_, balance, closed, ?_, ?_⟩
      · simp [joined, succeeded]
      · simp [joined, succeeded]
      · rw [if_pos succeeded]
      · rw [if_pos succeeded]
  · let t := (joined s id opaqueVal n a.sock).setType (HASH_ID id) .CONNECTING
    refine ⟨⟨t.setKernel (t.kernel.write a.sock (HASH_ID id) true), ⟨id, opaqueVal, 0, .nullptr⟩, -1⟩, ?_, ?_⟩
    · simp only [bind, Except.bind, pure, Except.pure, if_neg succeeded]
      simp [t, joined]
    · refine ⟨?_, ?_, balance, closed, ?_, ?_⟩
      · simp [t, joined, succeeded]
      · simp [t, joined, succeeded, Kernel.write]
      · rw [if_neg succeeded]
      · rw [if_neg succeeded]

end

/-! ### Every outcome -/

/-- What a request to connect is to come to: a connection to the first usable address,
    or an error that leaves the slot free and no descriptor open. -/
inductive Opened (s : Server) (id : Int) (opaqueVal : UInt64) (o : Outcome) (r : Reply) : Prop
  | connected (earlier : List Attempt) (a : Attempt) (later : List Attempt)
      (tried : o.addresses = some (earlier ++ a :: later)) (unusable : ∀ b ∈ earlier, usable s.kernel b = false)
      (first : usable s.kernel a = true) (admitted : o.admitted = true)
      (took : Took s id opaqueVal earlier a r) : Opened s id opaqueVal o r
  | failed (hopeless : (∀ b ∈ o.addresses.getD [], usable s.kernel b = false) ∨ o.admitted = false)
      (type : r.type = SOCKET_ERROR) (slot : (r.server.slot (HASH_ID id)).type = .INVALID)
      (closed : r.server.kernel.balance = s.kernel.balance) : Opened s id opaqueVal o r

/-- `open_socket` returns, with one of these outcomes. -/
def OpensFirst (s : Server) (id : Int) (opaqueVal : UInt64) (o : Outcome) : Prop :=
  ∃ r, open_socket s id opaqueVal o = .ok r ∧ Opened s id opaqueVal o r

section
variable {s : Server} {id : Int} {opaqueVal : UInt64} {o : Outcome}

theorem open_socket_no_address (nothing : o.addresses.getD [] = []) : OpensFirst s id opaqueVal o := by
  have failed : open_socket s id opaqueVal o =
      .ok ⟨s.setType (HASH_ID id) .INVALID, ⟨id, opaqueVal, 0, .nullptr⟩, SOCKET_ERROR⟩ := by
    cases addresses : o.addresses with
    | none => simp only [open_socket, addresses]
    | some ai_list =>
      rw [addresses, Option.getD_some] at nothing
      simp only [open_socket, addresses, nothing]
  refine ⟨_, failed, .failed (.inl ?_) rfl ?_ rfl⟩
  · rw [nothing]
    simp
  · rw [Server.setType_self]

/-- Some address, and none of use: the loop runs past the last one. -/
theorem open_socket_exhausted (id : Int) (opaqueVal : UInt64) {ai_list : List Attempt}
    (addresses : o.addresses = some ai_list) (nonempty : ai_list ≠ [])
    (unusable : ∀ b ∈ ai_list, usable s.kernel b = false) :
    open_socket s id opaqueVal o = .error .nullDereference := by
  have failed := try_addresses_none unusable
  cases ai_list with
  | nil => exact absurd rfl nonempty
  | cons b ai_next =>
    simp only [open_socket, addresses, failed]
    rfl

/-- A registration that fails: the null pointer of `new_socket` is written through. -/
theorem open_socket_refused (opaqueVal : UInt64) {ai_list : List Attempt}
    (reserved : (s.slot (HASH_ID id)).type = .RESERVE) (addresses : o.addresses = some ai_list)
    (some_usable : ∃ a ∈ ai_list, usable s.kernel a = true)
    (refused : o.admitted = false) : open_socket s id opaqueVal o = .error .nullDereference := by
  obtain ⟨earlier, a, later, rfl, unusable, first⟩ := first_usable some_usable
  obtain ⟨n, acquired, found⟩ := try_addresses_first later unusable first
  rw [open_socket_tried addresses found, refused, new_socket_refused (s := s.setKernel n) reserved]
  rfl

/-- `open_socket` does what it is to do when there is no address at all, or when one
    can be used and its descriptor can be registered. -/
theorem opens_first_iff (s : Server) (id : Int) (opaqueVal : UInt64) (o : Outcome)
    (reserved : (s.slot (HASH_ID id)).type = .RESERVE) :
    OpensFirst s id opaqueVal o ↔
      o.addresses.getD [] = [] ∨ (∃ a ∈ o.addresses.getD [], usable s.kernel a = true) ∧ o.admitted = true := by
  by_cases nothing : o.addresses.getD [] = []
  · exact iff_of_true (open_socket_no_address nothing) (.inl nothing)
  obtain ⟨ai_list, addresses⟩ : ∃ ai_list, o.addresses = some ai_list := by
    cases none : o.addresses with
    | none => exact absurd (by rw [none, Option.getD_none]) nothing
    | some ai_list => exact ⟨ai_list, rfl⟩
  rw [addresses, Option.getD_some] at nothing ⊢
  by_cases some_usable : ∃ a ∈ ai_list, usable s.kernel a = true
  · cases admitted : o.admitted with
    | true =>
      obtain ⟨earlier, a, later, rfl, unusable, first⟩ := first_usable some_usable
      obtain ⟨r, opened, took⟩ := open_socket_took opaqueVal reserved addresses unusable first admitted
      exact iff_of_true ⟨r, opened, .connected earlier a later addresses unusable first admitted took⟩
        (.inr ⟨some_usable, rfl⟩)
    | false =>
      have crashed := open_socket_refused opaqueVal reserved addresses some_usable admitted
      refine iff_of_false ?_ ?_
      · rintro ⟨r, opened, -⟩
        rw [crashed] at opened
        cases opened
      · rintro (none | ⟨-, wrong⟩)
        · exact nothing none
        · cases wrong
  · have unusable : ∀ b ∈ ai_list, usable s.kernel b = false :=
      fun b member => Bool.eq_false_iff.mpr fun used => some_usable ⟨b, member, used⟩
    have crashed := open_socket_exhausted id opaqueVal addresses nothing unusable
    refine iff_of_false ?_ ?_
    · rintro ⟨r, opened, -⟩
      rw [crashed] at opened
      cases opened
    · rintro (none | ⟨used, -⟩)
      · exact nothing none
      · exact some_usable used

end

/-- A new server with slot 1 reserved. -/
def oneReserved : Server := reserve Poll.zeroed.server 1

theorem oneReserved_slot : oneReserved.slot (HASH_ID 1) =
    { Poll.zeroed.server.slot (HASH_ID 1) with type := .RESERVE, id := 1, fd := -1 } := by
  rw [oneReserved, reserve, Server.setSlot_self]

/-- The second address of two can be used. -/
theorem opens_first_iff_second :
    OpensFirst oneReserved 1 0 { addresses := some [⟨5, .failed, none⟩, ⟨5, .inProgress, none⟩] } :=
  (opens_first_iff oneReserved 1 0
      { addresses := some [⟨5, .failed, none⟩, ⟨5, .inProgress, none⟩] } (by rw [oneReserved_slot])).mpr
    (.inr ⟨⟨⟨5, .inProgress, none⟩, by simp, by decide⟩, rfl⟩)

/-- A peer that refuses the only connection takes the process down. -/
theorem open_socket_crashes : (oneReserved.slot (HASH_ID 1)).type = .RESERVE ∧
    ¬ OpensFirst oneReserved 1 0 { addresses := some [⟨5, .failed, none⟩] } := by
  refine ⟨by rw [oneReserved_slot], ?_⟩
  rintro ⟨r, opened, -⟩
  rw [open_socket_exhausted 1 0 rfl (by simp) (by decide)] at opened
  cases opened

/-! ### Connections made at once and later -/

/-- What the kernel answers when the connection to an address comes to this. -/
def dial (o : Outcome) (earlier : List Attempt) (a : Attempt) (later : List Attempt) (connect : ConnectResult) :
    Outcome :=
  { o with addresses := some (earlier ++ { a with connect := connect } :: later) }

/-- Two handlers leave the same connection, without write interest, and report it in
    the same way. -/
structure Agrees (k : Index) (fd : Int) (immediate deferred : Reply) : Prop where
  connected : (immediate.server.slot k).type = .CONNECTED
  slot : deferred.server.slot k = immediate.server.slot k
  quiet : immediate.server.kernel.epoll fd = some ⟨k, false⟩
  epoll : deferred.server.kernel.epoll fd = immediate.server.kernel.epoll fd
  opened : immediate.type = SOCKET_OPEN
  type : deferred.type = immediate.type
  message : deferred.result = immediate.result

section
variable {s t : Server} {id : Int} {opaqueVal : UInt64} {k : Index} {o answer : Outcome} {earlier later : List Attempt}
variable {a : Attempt} {text : String}

/-- `report_connect` on a connection that is made. -/
theorem report_connect_made (made : o.error = false) (empty : send_buffer_empty (s.slot k) = true)
    (registered : (s.kernel.epoll (s.slot k).fd).isSome = true) (peer : o.getpeername = false) :
    ∃ r, report_connect s k o = .ok r ∧ r.server.slot k = { s.slot k with type := .CONNECTED } ∧
      r.server.kernel.epoll (s.slot k).fd = some ⟨k, false⟩ ∧ r.type = SOCKET_OPEN ∧
      r.result = ⟨(s.slot k).id, (s.slot k).opaqueVal, 0, .nullptr⟩ := by
  obtain ⟨entry, present⟩ := Option.isSome_iff_exists.mp registered
  let t := s.setType k .CONNECTED
  have still : send_buffer_empty (t.slot k) = true := by
    rw [show t.slot k = { s.slot k with type := .CONNECTED } from Server.setType_self s k _]
    exact empty
  refine ⟨⟨t.setKernel (t.kernel.write (s.slot k).fd k false), ⟨(s.slot k).id, (s.slot k).opaqueVal, 0, .nullptr⟩,
    SOCKET_OPEN⟩, ?_, Server.setType_self s k _, ?_, rfl, rfl⟩
  · simp only [report_connect, made, peer, Bool.false_eq_true, if_false]
    rw [if_pos still]
    simp [t]
  · simp [t, Kernel.write, present]

/-- The two paths: they leave the same, but the message of the second has no address. -/
theorem deferred_path (s : Server) (id : Int) (opaqueVal : UInt64) (o answer : Outcome)
    (earlier later : List Attempt) (a : Attempt) (text : String) (reserved : (s.slot (HASH_ID id)).type = .RESERVE)
    (empty : send_buffer_empty (s.slot (HASH_ID id)) = true) (unusable : ∀ b ∈ earlier, usable s.kernel b = false)
    (socket : (s.kernel.acquire a.sock).isSome = true) (admitted : o.admitted = true) (ntop : a.ntop = some text)
    (made : answer.error = false) (peer : answer.getpeername = false) :
    ∃ r m, open_socket s id opaqueVal (dial o earlier a later .succeeded) = .ok r ∧
      open_socket s id opaqueVal (dial o earlier a later .inProgress) = .ok m ∧
      m.type = -1 ∧ (m.server.slot (HASH_ID id)).type = .CONNECTING ∧
      ∀ t : Server, t.slot (HASH_ID id) = m.server.slot (HASH_ID id) →
        t.kernel.epoll a.sock = m.server.kernel.epoll a.sock →
        ∃ d, report_connect t (HASH_ID id) answer = .ok d ∧
          Agrees (HASH_ID id) a.sock r { d with result := r.result } ∧
          r.result = ⟨id, opaqueVal, 0, .text text⟩ ∧ d.result = ⟨id, opaqueVal, 0, .nullptr⟩ := by
  have first : ∀ connect, connect ≠ .failed → usable s.kernel { a with connect := connect } = true := by
    intro connect works
    simp [usable, socket, works]
  obtain ⟨r, at_once, now⟩ :=
    open_socket_took (o := dial o earlier a later .succeeded) opaqueVal reserved rfl unusable
      (first .succeeded (by decide)) admitted
  obtain ⟨m, postponed, begun⟩ :=
    open_socket_took (o := dial o earlier a later .inProgress) opaqueVal reserved rfl unusable
      (first .inProgress (by decide)) admitted
  have opened := now.slot
  have waiting := begun.slot
  simp only [if_true, if_false, reduceCtorEq] at opened waiting
  refine ⟨r, m, at_once, postponed, begun.type, by rw [waiting], ?_⟩
  intro t same entry
  have slot := same.trans waiting
  have fd : (t.slot (HASH_ID id)).fd = a.sock := by rw [slot]
  have registered : (t.kernel.epoll (t.slot (HASH_ID id)).fd).isSome = true := by
    rw [fd, entry, begun.epoll]
    rfl
  obtain ⟨d, reported, kept, quiet, type, message⟩ :=
    report_connect_made made (by rw [slot]; exact empty) registered peer
  rw [fd] at quiet
  refine ⟨d, reported, ⟨by rw [opened], ?_, now.epoll, ?_, now.type, ?_, rfl⟩, ?_, ?_⟩
  · rw [kept, slot, opened]
  · rw [quiet, now.epoll]
    rfl
  · exact type.trans now.type.symm
  · rw [now.result, ntop]
    rfl
  · rw [message, slot]

/-- Made at once or later, a connection is left in the same state, but the messages
    that report it always differ. -/
theorem deferred_differs (s : Server) (id : Int) (opaqueVal : UInt64) (o answer : Outcome)
    (earlier later : List Attempt) (a : Attempt) (text : String)
    (reserved : (s.slot (HASH_ID id)).type = .RESERVE) (empty : send_buffer_empty (s.slot (HASH_ID id)) = true)
    (unusable : ∀ b ∈ earlier, usable s.kernel b = false) (socket : (s.kernel.acquire a.sock).isSome = true)
    (admitted : o.admitted = true) (ntop : a.ntop = some text)
    (made : answer.error = false) (peer : answer.getpeername = false) :
    ∃ r m, open_socket s id opaqueVal (dial o earlier a later .succeeded) = .ok r ∧
      open_socket s id opaqueVal (dial o earlier a later .inProgress) = .ok m ∧
      m.type = -1 ∧ (m.server.slot (HASH_ID id)).type = .CONNECTING ∧
      ∀ t : Server, t.slot (HASH_ID id) = m.server.slot (HASH_ID id) →
        t.kernel.epoll a.sock = m.server.kernel.epoll a.sock →
        ∃ d, report_connect t (HASH_ID id) answer = .ok d ∧
          ¬ Agrees (HASH_ID id) a.sock r d ∧
          Agrees (HASH_ID id) a.sock r { d with result := r.result } ∧
          r.result = ⟨id, opaqueVal, 0, .text text⟩ ∧ d.result = ⟨id, opaqueVal, 0, .nullptr⟩ := by
  obtain ⟨r, m, at_once, postponed, type, connecting, later⟩ :=
    deferred_path s id opaqueVal o answer earlier later a text reserved empty unusable socket admitted ntop made peer
  refine ⟨r, m, at_once, postponed, type, connecting, ?_⟩
  intro t slot entry
  obtain ⟨d, reported, agrees, named, unnamed⟩ := later t slot entry
  refine ⟨d, reported, ?_, agrees, named, unnamed⟩
  intro wrong
  have same := wrong.message
  rw [named, unnamed] at same
  cases same

/-- A peer that can be reached. -/
def reachable : Attempt := ⟨5, .succeeded, some "10.0.0.1"⟩

theorem deferred_differs_reachable : ∃ r m d,
    open_socket oneReserved 1 0 (dial {} [] reachable [] .succeeded) = .ok r ∧
      open_socket oneReserved 1 0 (dial {} [] reachable [] .inProgress) = .ok m ∧
      report_connect m.server (HASH_ID 1) { ntop := some "10.0.0.1" } = .ok d ∧
      r.result = ⟨1, 0, 0, .text "10.0.0.1"⟩ ∧ d.result = ⟨1, 0, 0, .nullptr⟩ := by
  obtain ⟨r, m, at_once, postponed, -, -, later⟩ :=
    deferred_differs oneReserved 1 0 {} { ntop := some "10.0.0.1" } [] [] reachable "10.0.0.1"
      (by rw [oneReserved_slot]) (by rw [oneReserved_slot]; rfl) (by simp)
      (by decide) rfl rfl rfl rfl
  obtain ⟨d, reported, -, -, named, unnamed⟩ := later m.server rfl rfl
  exact ⟨r, m, d, at_once, postponed, reported, named, unnamed⟩

theorem deferred_unnamed : ∃ r m d,
    open_socket oneReserved 1 0 (dial {} [] reachable [] .succeeded) = .ok r ∧
      open_socket oneReserved 1 0 (dial {} [] reachable [] .inProgress) = .ok m ∧
      report_connect m.server (HASH_ID 1) { ntop := some "10.0.0.1" } = .ok d ∧ ¬ Agrees (HASH_ID 1) 5 r d := by
  obtain ⟨r, m, at_once, postponed, -, -, later⟩ :=
    deferred_path oneReserved 1 0 {} { ntop := some "10.0.0.1" } [] [] reachable "10.0.0.1"
      (by rw [oneReserved_slot]) (by rw [oneReserved_slot]; rfl) (by simp)
      (by decide) rfl rfl rfl rfl
  obtain ⟨d, reported, -, named, unnamed⟩ := later m.server rfl rfl
  refine ⟨r, m, d, at_once, postponed, reported, ?_⟩
  intro wrong
  have same := wrong.message
  rw [named, unnamed] at same
  cases same

end

end Canna.SocketServer
