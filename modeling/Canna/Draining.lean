import Canna.Poll
import Mathlib.Logic.Relation

/-!
# Draining the queues of a slot

What a request to close and the write events of its slot do with data still queued.
`send_list` compares the type of the slot with the number of a protocol, so that
`send_buffer` sends nothing for a slot in use: it keeps every promise about the
bytes it sends but that of sending them (`conveys_iff`). `close_socket` takes the
-1 that `send_buffer` returns for data still pending as its own, before it marks the
slot `HALFCLOSE`: a request to close is forgotten while data is queued, unless it is
the second one (`close_kept_iff`).
-/
namespace Canna.SocketServer
open Canna.Sockets Canna.ControlPipe
open Canna.ControlPipe.Request

section
variable {s t : Server} {k : Index} {id : Int} {opaqueVal : UInt64} {result : Message} {o : Outcome}
variable {writes : List WriteResult}

/-! ### The calls of `send_buffer` -/

theorem force_close_total (live : Live (s.slot k).type) : ∃ t message, force_close s k = .ok (t, message) := by
  simp only [force_close, if_neg live.1, if_neg live.2]
  exact ⟨_, _, rfl⟩

/-- On a slot with data queued, `send_buffer` does nothing. -/
theorem send_buffer_pending (result : Message) (writes : List WriteResult) (valid : (s.slot k).type ≠ .INVALID)
    (whole : list_uncomplete (s.slot k).low = false)
    (pending : send_buffer_empty (s.slot k) = false) : send_buffer s k result writes = .ok ⟨s, result, -1⟩ := by
  rw [send_buffer_valid valid, whole, pending]
  rfl

/-- On a half-closed slot with nothing queued, it closes the connection. -/
theorem send_buffer_closes (result : Message) (writes : List WriteResult) (half : (s.slot k).type = .HALFCLOSE)
    (empty : send_buffer_empty (s.slot k) = true) :
    ∃ r, send_buffer s k result writes = .ok r ∧ r.type = SOCKET_CLOSE ∧ (r.server.slot k).type = .INVALID ∧
      r.result.id = (s.slot k).id := by
  have valid : (s.slot k).type ≠ .INVALID := by rw [half]; decide
  have still : ((s.setKernel (s.kernel.write (s.slot k).fd k false)).slot k).type = .HALFCLOSE := half
  obtain ⟨t, message, closed⟩ := force_close_total (s := s.setKernel (s.kernel.write (s.slot k).fd k false)) (k := k)
    ⟨by rw [still]; decide, by rw [still]; decide⟩
  refine ⟨⟨t, message, SOCKET_CLOSE⟩, ?_, rfl, ?_, ?_⟩
  · rw [send_buffer_drained valid empty]
    simp only [if_pos still, closed]
    rfl
  · exact congrArg Control.type (force_close_live (by rw [still]; decide) closed).2.2.1
  · exact congrArg Message.id (force_close_ok closed).2.1

/-- On any other slot in use with nothing queued, it ends the interest in writing. -/
theorem send_buffer_idle (result : Message) (writes : List WriteResult) (valid : (s.slot k).type ≠ .INVALID)
    (open_slot : (s.slot k).type ≠ .HALFCLOSE)
    (empty : send_buffer_empty (s.slot k) = true) : send_buffer s k result writes =
      .ok ⟨s.setKernel (s.kernel.write (s.slot k).fd k false), result, -1⟩ := by
  have still : ((s.setKernel (s.kernel.write (s.slot k).fd k false)).slot k).type ≠ .HALFCLOSE := open_slot
  rw [send_buffer_drained valid empty]
  simp only [if_neg still]

/-! ### Closing with data pending -/

/-- A call of `send_buffer` on a half-closed slot. -/
def Resends (k : Index) (s t : Server) : Prop :=
  (s.slot k).type = .HALFCLOSE ∧ ∃ result writes r, send_buffer s k result writes = .ok r ∧ r.server = t

/-- The next call of `send_buffer` closes the connection and reports that. -/
def ClosesNext (k : Index) (s : Server) : Prop :=
  ∀ result writes, ∃ r, send_buffer s k result writes = .ok r ∧ r.type = SOCKET_CLOSE ∧
    (r.server.slot k).type = .INVALID ∧ r.result.id = (s.slot k).id

/-- A request to close is kept: the slot is closed at once, or half closed with data
    still pending, to be closed once there is none. -/
def CloseKept (s : Server) (id : Int) (opaqueVal : UInt64) (result : Message) (o : Outcome) : Prop :=
  ∃ r, close_socket s id opaqueVal result o = .ok r ∧
    (((r.server.slot (HASH_ID id)).type = .INVALID ∧ r.type = SOCKET_CLOSE ∧ r.result.id = id) ∨
      ((r.server.slot (HASH_ID id)).type = .HALFCLOSE ∧ send_buffer_empty (r.server.slot (HASH_ID id)) = false)) ∧
    ∀ t, Relation.ReflTransGen (Resends (HASH_ID id)) r.server t → (t.slot (HASH_ID id)).type = .HALFCLOSE →
      send_buffer_empty (t.slot (HASH_ID id)) = true → ClosesNext (HASH_ID id) t

/-- A request to close a slot with nothing queued. -/
theorem close_socket_empty (opaqueVal : UInt64) (result : Message) (o : Outcome)
    (live : Live (s.slot (HASH_ID id)).type) (own : (s.slot (HASH_ID id)).id = id)
    (empty : send_buffer_empty (s.slot (HASH_ID id)) = true) :
    ∃ r, close_socket s id opaqueVal result o = .ok r ∧ (r.server.slot (HASH_ID id)).type = .INVALID ∧
      r.type = SOCKET_CLOSE ∧ r.result.id = id := by
  obtain ⟨t, message, closed⟩ := force_close_total live
  have current : ¬ ((s.slot (HASH_ID id)).type = .INVALID ∨ (s.slot (HASH_ID id)).id ≠ id) :=
    not_or.mpr ⟨live.1, not_not.mpr own⟩
  refine ⟨⟨t, { message with id := id, opaqueVal := opaqueVal }, SOCKET_CLOSE⟩, ?_, ?_, rfl, rfl⟩
  · simp only [close_socket, if_neg current, empty, if_true, close_sent, closed]
    rfl
  · exact congrArg Control.type (force_close_live live.1 closed).2.2.1

/-- A request to close a slot with data queued comes to nothing. -/
theorem close_socket_pending (opaqueVal : UInt64) (result : Message) (o : Outcome)
    (live : Live (s.slot (HASH_ID id)).type) (own : (s.slot (HASH_ID id)).id = id)
    (whole : list_uncomplete (s.slot (HASH_ID id)).low = false)
    (pending : send_buffer_empty (s.slot (HASH_ID id)) = false) :
    close_socket s id opaqueVal result o = .ok ⟨s, result, -1⟩ := by
  have current : ¬ ((s.slot (HASH_ID id)).type = .INVALID ∨ (s.slot (HASH_ID id)).id ≠ id) :=
    not_or.mpr ⟨live.1, not_not.mpr own⟩
  simp only [close_socket, if_neg current, pending, Bool.false_eq_true, if_false,
    send_buffer_pending result o.writes live.1 whole pending]
  rfl

/-- A request to close is kept when nothing is queued, and when the slot is half
    closed already. -/
theorem close_kept_iff (s : Server) (id : Int) (opaqueVal : UInt64) (result : Message) (o : Outcome)
    (live : Live (s.slot (HASH_ID id)).type) (own : (s.slot (HASH_ID id)).id = id)
    (whole : list_uncomplete (s.slot (HASH_ID id)).low = false) :
    CloseKept s id opaqueVal result o ↔
      send_buffer_empty (s.slot (HASH_ID id)) = true ∨ (s.slot (HASH_ID id)).type = .HALFCLOSE := by
  have later : ∀ t, (t.slot (HASH_ID id)).type = .HALFCLOSE → send_buffer_empty (t.slot (HASH_ID id)) = true →
      ClosesNext (HASH_ID id) t := fun t half empty result writes => send_buffer_closes result writes half empty
  cases pending : send_buffer_empty (s.slot (HASH_ID id)) with
  | true =>
    obtain ⟨r, handled, closed⟩ := close_socket_empty opaqueVal result o live own pending
    exact iff_of_true ⟨r, handled, .inl closed, fun t _ => later t⟩ (.inl rfl)
  | false =>
    have handled := close_socket_pending opaqueVal result o live own whole pending
    constructor
    · rintro ⟨r, same, outcome, -⟩
      rw [handled] at same
      cases same
      rcases outcome with ⟨invalid, -, -⟩ | ⟨half, -⟩
      · exact absurd invalid live.1
      · exact .inr half
    · rintro (wrong | half)
      · cases wrong
      · exact ⟨_, handled, .inr ⟨half, pending⟩, fun t _ => later t⟩

/-! ### Sending what is queued -/

/-- Every write of these buffers, in order, is accepted in full. -/
def Ample (buffers : List WriteBuffer) (writes : List WriteResult) : Prop :=
  ∀ i (inside : i < buffers.length), ∃ n, writes[i]? = some (.accepted n) ∧ buffers[i].bytes.length ≤ n

/-- What a call of `send_buffer` that leaves the connection open is to do with the
    bytes queued: those sent are the first ones of `high` followed by `low`, and the
    others stay in order; a buffer of `low` sent in part is alone in `high`. -/
structure Conveys (s : Server) (k : Index) (writes : List WriteResult) (r : Reply) : Prop where
  bytes : ∃ sent, r.server.kernel.written (s.slot k).fd = s.kernel.written (s.slot k).fd ++ sent ∧
    sent ++ ((r.server.slot k).high.pending ++ (r.server.slot k).low.pending) =
      (s.slot k).high.pending ++ (s.slot k).low.pending ∧
    ((r.server.slot k).low ≠ (s.slot k).low → (s.slot k).high.pending <+: sent ∧ (r.server.slot k).high.head.length ≤ 1)
  whole : list_uncomplete (r.server.slot k).low = false
  emptied : Ample ((s.slot k).high.head ++ (s.slot k).low.head) writes →
    send_buffer_empty (r.server.slot k) = true

/-- `send_buffer` does so, or it closes the connection. -/
def Drains (s : Server) (k : Index) (result : Message) (writes : List WriteResult) : Prop :=
  ∃ r, send_buffer s k result writes = .ok r ∧ (r.type ≠ SOCKET_CLOSE → Conveys s k writes r)

/-- A call that changes no queue and writes nothing. -/
theorem Conveys.idle {r : Reply} (slot : r.server.slot k = s.slot k)
    (written : r.server.kernel.written = s.kernel.written) (whole : list_uncomplete (s.slot k).low = false)
    (emptied : Ample ((s.slot k).high.head ++ (s.slot k).low.head) writes → send_buffer_empty (s.slot k) = true) :
    Conveys s k writes r where
  bytes := by
    refine ⟨[], ?_, ?_, ?_⟩
    · rw [written, List.append_nil]
    · rw [slot, List.nil_append]
    · intro changed
      exact absurd (by rw [slot]) changed
  whole := by rw [slot]; exact whole
  emptied := by rw [slot]; exact emptied

/-- `send_buffer` meets all this when nothing is queued, and when the kernel would not
    have accepted everything: it never sends. -/
theorem conveys_iff (s : Server) (k : Index) (result : Message) (writes : List WriteResult)
    (type : (s.slot k).type = .CONNECTED ∨ (s.slot k).type = .HALFCLOSE)
    (whole : list_uncomplete (s.slot k).low = false) :
    Drains s k result writes ↔
      send_buffer_empty (s.slot k) = true ∨ ¬ Ample ((s.slot k).high.head ++ (s.slot k).low.head) writes := by
  have valid : (s.slot k).type ≠ .INVALID := by rcases type with type | type <;> rw [type] <;> decide
  cases pending : send_buffer_empty (s.slot k) with
  | true =>
    refine iff_of_true ?_ (.inl rfl)
    by_cases half : (s.slot k).type = .HALFCLOSE
    · obtain ⟨r, handled, closed, -⟩ := send_buffer_closes result writes half pending
      exact ⟨r, handled, fun kept => absurd closed kept⟩
    · exact ⟨_, send_buffer_idle result writes valid half pending, fun _ => Conveys.idle rfl rfl whole fun _ => pending⟩
  | false =>
    have handled := send_buffer_pending result writes valid whole pending
    constructor
    · rintro ⟨r, same, conveys⟩
      rw [handled] at same
      cases same
      refine .inr fun ample => ?_
      have passed : (-1 : Int) ≠ SOCKET_CLOSE := by decide
      have emptied := (conveys passed).emptied ample
      simp only [pending] at emptied
      cases emptied
    · rintro (wrong | scarce)
      · cases wrong
      · exact ⟨_, handled, fun _ => Conveys.idle rfl rfl whole fun ample => absurd ample scarce⟩

end

/-! ### One byte queued -/

/-- A connection that has one byte to send. -/
def queued : Socket where
  opaqueVal := 0
  high := ⟨[⟨0, 0, [65]⟩], some 0⟩
  low := .wb_clear
  wb_size := 1
  fd := 5
  id := 1
  protocol := PROTOCOL_TCP
  type := .CONNECTED
  size := 64

/-- A server with that connection. -/
def sending : Server := Poll.zeroed.server.setSlot (HASH_ID 1) queued

theorem sending_slot : sending.slot (HASH_ID 1) = queued := by rw [sending, Server.setSlot_self]

theorem close_kept_iff_sending : CloseKept sending 1 0 ⟨0, 0, 0, .nullptr⟩ {} ↔
    send_buffer_empty queued = true ∨ queued.type = .HALFCLOSE := by
  have iff := close_kept_iff sending 1 0 ⟨0, 0, 0, .nullptr⟩ {} (by rw [sending_slot]; exact ⟨by decide, by decide⟩)
    (by rw [sending_slot]; rfl) (by rw [sending_slot]; rfl)
  rwa [sending_slot] at iff

/-- A request to close the connection is forgotten. -/
theorem close_forgotten : Live queued.type ∧ queued.id = 1 ∧ list_uncomplete queued.low = false ∧
    sending.slot (HASH_ID 1) = queued ∧ close_socket sending 1 0 ⟨0, 0, 0, .nullptr⟩ {} =
      .ok ⟨sending, ⟨0, 0, 0, .nullptr⟩, -1⟩ ∧ ¬ CloseKept sending 1 0 ⟨0, 0, 0, .nullptr⟩ {} := by
  have live : Live queued.type := ⟨by decide, by decide⟩
  have handled : close_socket sending 1 0 ⟨0, 0, 0, .nullptr⟩ {} = .ok ⟨sending, ⟨0, 0, 0, .nullptr⟩, -1⟩ := by
    apply close_socket_pending
    · rwa [sending_slot]
    · rw [sending_slot]; rfl
    · rw [sending_slot]; rfl
    · rw [sending_slot]; rfl
  refine ⟨live, rfl, rfl, sending_slot, handled, ?_⟩
  rintro ⟨r, same, outcome, -⟩
  rw [handled] at same
  cases same
  rw [sending_slot] at outcome
  rcases outcome with ⟨invalid, -, -⟩ | ⟨half, -⟩
  · cases invalid
  · cases half

theorem conveys_iff_sending : Drains sending (HASH_ID 1) ⟨0, 0, 0, .nullptr⟩ [] := by
  refine (conveys_iff sending (HASH_ID 1) ⟨0, 0, 0, .nullptr⟩ [] ?_ ?_).mpr (.inr ?_)
  · rw [sending_slot]
    exact .inl rfl
  · rw [sending_slot]
    rfl
  · intro ample
    rw [sending_slot] at ample
    obtain ⟨n, missing, -⟩ := ample 0 (by decide)
    cases missing

/-- A kernel that would take the byte is not given it. -/
theorem send_buffer_sends_nothing : queued.type = .CONNECTED ∧ queued.protocol = PROTOCOL_TCP ∧
    list_uncomplete queued.low = false ∧ sending.slot (HASH_ID 1) = queued ∧
    Ample (queued.high.head ++ queued.low.head) [.accepted 1] ∧
    ¬ Drains sending (HASH_ID 1) ⟨0, 0, 0, .nullptr⟩ [.accepted 1] := by
  have ample : Ample (queued.high.head ++ queued.low.head) [.accepted 1] := by
    intro i inside
    match i, inside with
    | 0, _ => exact ⟨1, rfl, Nat.le_refl 1⟩
  refine ⟨rfl, rfl, rfl, sending_slot, ample, ?_⟩
  rintro ⟨r, handled, conveys⟩
  rw [send_buffer_pending _ _ (by rw [sending_slot]; decide) (by rw [sending_slot]; rfl)
    (by rw [sending_slot]; rfl)] at handled
  cases handled
  have emptied := (conveys (by decide)).emptied (by rw [sending_slot]; exact ample)
  rw [sending_slot] at emptied
  cases emptied

end Canna.SocketServer
