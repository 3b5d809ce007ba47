import Canna.Draining

/-!
# Sending a list of buffers

`send_list_tcp` on a well-formed list of buffers, for every answer of the kernel to its
writes. Whichever exit it takes, the bytes it has sent are the first ones of the list;
left open, the slot has the others still in its list (`send_list_tcp_conserves`).
-/
namespace Canna.SocketServer
open Canna.Sockets

/-- Nodes at different addresses with `tail` at the last one, null when there is none. -/
structure WellFormed (list : WbList) : Prop where
  nodup : (list.head.map WriteBuffer.addr).Nodup
  tail : list.tail = list.head.getLast?.map WriteBuffer.addr

/-- A well-formed list, but for a `tail` left behind by the last node. -/
structure Linked (list : WbList) : Prop where
  nodup : (list.head.map WriteBuffer.addr).Nodup
  tail : list.head ≠ [] → list.tail = list.head.getLast?.map WriteBuffer.addr

/-- What a call that leaves the connection open does, for these outcomes of its writes:
    nothing changes in the slot but `wb_size`, by the number of bytes sent, and the list.
    Retries after `EINTR` apart, nothing is left if and only if every write was complete. -/
structure Progressed (s : Server) (k : Index) (q : Queue) (writes : List WriteResult) (sent : List Byte)
    (t : Server) : Prop where
  written : t.kernel.written (s.slot k).fd = s.kernel.written (s.slot k).fd ++ sent
  bytes : sent ++ (q.of (t.slot k)).pending = (q.of (s.slot k)).pending
  slot : t.slot k = q.set { s.slot k with wb_size := (s.slot k).wb_size - sent.length } (q.of (t.slot k))
  formed : WellFormed (q.of (t.slot k))
  emptied : (q.of (t.slot k)).head = [] ↔ Ample (q.of (s.slot k)).head (writes.filter (· ≠ .EINTR))

/-- What a call that closes the connection does. -/
structure Aborted (s : Server) (k : Index) (q : Queue) (sent : List Byte) (t : Server) : Prop where
  written : t.kernel.written (s.slot k).fd = s.kernel.written (s.slot k).fd ++ sent
  bytes : sent <+: (q.of (s.slot k)).pending
  type : (t.slot k).type = .INVALID
  high : (t.slot k).high = .wb_clear
  low : (t.slot k).low = .wb_clear

/-- One or the other, and what it returns. -/
def Sends (s : Server) (k : Index) (q : Queue) (writes : List WriteResult) (r : Reply) : Prop :=
  ∃ sent, (r.type = -1 ∧ Progressed s k q writes sent r.server) ∨
    (r.type = SOCKET_CLOSE ∧ Aborted s k q sent r.server)

/-! ### Lists -/

theorem WellFormed.linked {list : WbList} (formed : WellFormed list) : Linked list :=
  ⟨formed.nodup, fun _ => formed.tail⟩

theorem Linked.wellFormed {list : WbList} (linked : Linked list) (busy : list.head ≠ []) : WellFormed list :=
  ⟨linked.nodup, linked.tail busy⟩

theorem WellFormed.clear : WellFormed .wb_clear := ⟨List.nodup_nil, rfl⟩

/-- The list behind its first node. -/
theorem Linked.next {list : WbList} {tmp : WriteBuffer} {next : List WriteBuffer} (linked : Linked list)
    (first : list.head = tmp :: next) : Linked ⟨next, list.tail⟩ := by
  obtain ⟨nodup, tail⟩ := linked
  rw [first] at nodup tail
  refine ⟨(List.nodup_cons.mp nodup).2, fun busy => ?_⟩
  rw [tail (List.cons_ne_nil _ _), List.getLast?_cons_of_ne_nil busy]

/-- The list with its first node sent in part. -/
theorem Linked.part {list : WbList} {tmp rest : WriteBuffer} {next : List WriteBuffer} (linked : Linked list)
    (first : list.head = tmp :: next) (same : rest.addr = tmp.addr) : WellFormed ⟨rest :: next, list.tail⟩ := by
  obtain ⟨nodup, tail⟩ := linked
  rw [first] at nodup tail
  constructor
  · simpa [same] using nodup
  · rw [tail (List.cons_ne_nil _ _)]
    cases next with
    | nil => simp [same]
    | cons second next => simp

/-! ### Writes -/

section
variable {s t : Server} {k : Index} {q : Queue} {result : Message} {writes : List WriteResult}
variable {tmp : WriteBuffer} {next : List WriteBuffer} {sent : List Byte}

@[simp] theorem Queue.of_set (q : Queue) (x : Socket) (list : WbList) : q.of (q.set x list) = list := by cases q <;> rfl
@[simp] theorem Queue.set_of (q : Queue) (x : Socket) : q.set x (q.of x) = x := by cases q <;> rfl
@[simp] theorem Queue.set_fd (q : Queue) (x : Socket) (list : WbList) : (q.set x list).fd = x.fd := by cases q <;> rfl
@[simp] theorem Queue.set_type (q : Queue) (x : Socket) (list : WbList) : (q.set x list).type = x.type := by
  cases q <;> rfl
@[simp] theorem Queue.set_wb_size (q : Queue) (x : Socket) (list : WbList) : (q.set x list).wb_size = x.wb_size := by
  cases q <;> rfl

theorem ample_nil (writes : List WriteResult) : Ample [] writes := by
  intro i inside
  exact absurd inside (Nat.not_lt_zero i)

theorem ample_cons {n : Nat} : Ample (tmp :: next) (.accepted n :: writes) ↔ tmp.bytes.length ≤ n ∧ Ample next writes := by
  constructor
  · intro ample
    constructor
    · obtain ⟨m, first, fits⟩ := ample 0 (Nat.zero_lt_succ _)
      cases first
      exact fits
    · intro i inside
      exact ample (i + 1) (Nat.succ_lt_succ inside)
  · rintro ⟨fits, ample⟩ i inside
    cases i with
    | zero => exact ⟨n, rfl, fits⟩
    | succ i => exact ample i (Nat.lt_of_succ_lt_succ inside)

/-- A list of buffers needs a write that the kernel accepts. -/
theorem not_ample (refused : ∀ n, writes.head? ≠ some (.accepted n)) : ¬ Ample (tmp :: next) writes := by
  intro ample
  obtain ⟨n, first, -⟩ := ample 0 (Nat.zero_lt_succ _)
  rw [← List.head?_eq_getElem?] at first
  exact refused n first

/-! ### The exits -/

/-- The list is at its end. -/
theorem send_list_tcp_done (result : Message) (writes : List WriteResult) (done : (q.of (s.slot k)).head = []) :
    send_list_tcp s k q result writes = .ok (⟨s.setSlot k (q.set (s.slot k) .wb_clear), result, -1⟩, writes) := by
  cases writes <;> simp only [send_list_tcp, done] <;> rfl

theorem Progressed.done (writes : List WriteResult) (done : (q.of (s.slot k)).head = []) :
    Progressed s k q writes [] (s.setSlot k (q.set (s.slot k) .wb_clear)) where
  written := by simp
  bytes := by simp [WbList.pending, done, WbList.wb_clear]
  slot := by simp
  formed := by simpa using WellFormed.clear
  emptied := by
    rw [done]
    exact iff_of_true (by simp [WbList.wb_clear]) (ample_nil _)

/-- The kernel takes nothing of the first buffer. -/
theorem Progressed.refused (linked : Linked (q.of (s.slot k))) (first : (q.of (s.slot k)).head = tmp :: next)
    (refused : ∀ n, (writes.filter (· ≠ .EINTR)).head? ≠ some (.accepted n)) : Progressed s k q writes [] s where
  written := by simp
  bytes := by simp
  slot := by simp
  formed := linked.wellFormed (by rw [first]; exact List.cons_ne_nil _ _)
  emptied := by
    rw [first]
    exact iff_of_false (List.cons_ne_nil _ _) (not_ample refused)

theorem force_close_written {message : Message} (closed : force_close s k = .ok (t, message)) :
    t.kernel.written = s.kernel.written := by
  simp only [force_close] at closed
  by_cases invalid : (s.slot k).type = .INVALID
  · rw [if_pos invalid] at closed
    cases closed
    rfl
  by_cases reserved : (s.slot k).type = .RESERVE
  · rw [if_neg invalid, if_pos reserved] at closed
    cases closed
  rw [if_neg invalid, if_neg reserved] at closed
  cases closed
  simp only [Server.setSlot_kernel, Server.setKernel_kernel]
  split <;> split <;> rfl

theorem force_close_slot {message : Message} (live : Live (s.slot k).type) (closed : force_close s k = .ok (t, message)) :
    t.slot k = { s.slot k with high := .wb_clear, low := .wb_clear, type := .INVALID } := by
  simp only [force_close, if_neg live.1, if_neg live.2] at closed
  cases closed
  exact Server.setSlot_self ..

theorem Aborted.failed {message : Message} (live : Live (s.slot k).type) (closed : force_close s k = .ok (t, message)) :
    Aborted s k q [] t where
  written := by rw [force_close_written closed, List.append_nil]
  bytes := List.nil_prefix
  type := by rw [force_close_slot live closed]
  high := by rw [force_close_slot live closed]
  low := by rw [force_close_slot live closed]

/-! ### Writes in full and in part -/

theorem wrote_slot (s : Server) (k : Index) (q : Queue) (tmp : WriteBuffer) (list : WbList) (sz : Nat) :
    (wrote s k q tmp list sz).slot k = q.set { s.slot k with wb_size := (s.slot k).wb_size - sz } list :=
  Server.setSlot_self ..

theorem wrote_written (s : Server) (k : Index) (q : Queue) (tmp : WriteBuffer) (list : WbList) (sz : Nat) :
    (wrote s k q tmp list sz).kernel.written (s.slot k).fd =
      s.kernel.written (s.slot k).fd ++ tmp.bytes.take sz := by
  simp [wrote, Kernel.take]

@[simp] theorem Queue.set_set (q : Queue) (x : Socket) (list other : WbList) (size : Int) :
    q.set { q.set x list with wb_size := size } other = q.set { x with wb_size := size } other := by
  cases q <;> rfl

section
variable {list : WbList} (first : (q.of (s.slot k)).head = tmp :: next)
include first

theorem Progressed.part {n : Nat} (linked : Linked (q.of (s.slot k))) (short : n < tmp.bytes.length) :
    Progressed s k q (.accepted n :: writes) (tmp.bytes.take n) (wrote s k q tmp
      ⟨{ tmp with offset := tmp.offset + n, bytes := tmp.bytes.drop n } :: next, (q.of (s.slot k)).tail⟩ n) where
  written := wrote_written ..
  bytes := by
    rw [wrote_slot, Queue.of_set]
    simp only [WbList.pending, first, List.flatMap_cons]
    rw [← List.append_assoc, List.take_append_drop]
  slot := by
    rw [wrote_slot, Queue.of_set, List.length_take, Nat.min_eq_left (by omega)]
  formed := by
    rw [wrote_slot, Queue.of_set]
    exact linked.part first rfl
  emptied := by
    rw [wrote_slot, Queue.of_set, first, List.filter_cons_of_pos (by rfl), ample_cons]
    exact iff_of_false (List.cons_ne_nil _ _) (by omega)

theorem Progressed.whole {n : Nat} (fits : tmp.bytes.length ≤ n) {tail : Option Nat}
    (later : Progressed (wrote s k q tmp ⟨next, tail⟩ tmp.bytes.length) k q writes sent t) :
    Progressed s k q (.accepted n :: writes) (tmp.bytes ++ sent) t := by
  obtain ⟨written, bytes, slot, formed, emptied⟩ := later
  rw [wrote_slot] at written bytes slot emptied
  rw [Queue.set_fd, wrote_written, List.take_length, List.append_assoc] at written
  rw [Queue.of_set] at bytes emptied
  rw [Queue.set_set, Queue.set_wb_size] at slot
  refine ⟨written, ?_, ?_, formed, ?_⟩
  · rw [List.append_assoc, bytes]
    simp [WbList.pending, first]
  · rw [List.length_append, Nat.cast_add, ← Int.sub_sub]
    exact slot
  · rw [first, List.filter_cons_of_pos (by rfl), ample_cons, emptied]
    exact (and_iff_right fits).symm

theorem Aborted.whole {tail : Option Nat}
    (later : Aborted (wrote s k q tmp ⟨next, tail⟩ tmp.bytes.length) k q sent t) :
    Aborted s k q (tmp.bytes ++ sent) t := by
  obtain ⟨written, bytes, type, high, low⟩ := later
  rw [wrote_slot] at written bytes
  rw [Queue.set_fd, wrote_written, List.take_length, List.append_assoc] at written
  rw [Queue.of_set] at bytes
  refine ⟨written, ?_, type, high, low⟩
  simpa [WbList.pending, first] using bytes

end

theorem Progressed.retry (later : Progressed s k q writes sent t) : Progressed s k q (.EINTR :: writes) sent t := by
  obtain ⟨written, bytes, slot, formed, emptied⟩ := later
  refine ⟨written, bytes, slot, formed, ?_⟩
  rwa [List.filter_cons_of_neg (by decide)]

theorem Sends.retry {r : Reply} (later : Sends s k q writes r) : Sends s k q (.EINTR :: writes) r := by
  obtain ⟨sent, ⟨type, progressed⟩ | aborted⟩ := later
  · exact ⟨sent, .inl ⟨type, progressed.retry⟩⟩
  · exact ⟨sent, .inr aborted⟩

theorem Sends.whole {r : Reply} {n : Nat} {tail : Option Nat} (first : (q.of (s.slot k)).head = tmp :: next)
    (fits : tmp.bytes.length ≤ n) (later : Sends (wrote s k q tmp ⟨next, tail⟩ tmp.bytes.length) k q writes r) :
    Sends s k q (.accepted n :: writes) r := by
  obtain ⟨sent, ⟨type, progressed⟩ | ⟨type, aborted⟩⟩ := later
  · exact ⟨tmp.bytes ++ sent, .inl ⟨type, progressed.whole first fits⟩⟩
  · exact ⟨tmp.bytes ++ sent, .inr ⟨type, aborted.whole first⟩⟩

section
variable (result : Message) (writes : List WriteResult) (first : (q.of (s.slot k)).head = tmp :: next)
include first

theorem send_list_tcp_part {n : Nat} (short : n < tmp.bytes.length) :
    send_list_tcp s k q result (.accepted n :: writes) = .ok (⟨wrote s k q tmp
      ⟨{ tmp with offset := tmp.offset + n, bytes := tmp.bytes.drop n } :: next, (q.of (s.slot k)).tail⟩ n,
      result, -1⟩, writes) := by
  simp only [send_list_tcp, first, Nat.min_eq_left (Nat.le_of_lt short), if_pos (Nat.ne_of_lt short)]

theorem send_list_tcp_whole {n : Nat} (fits : tmp.bytes.length ≤ n) :
    send_list_tcp s k q result (.accepted n :: writes) =
      send_list_tcp (wrote s k q tmp ⟨next, (q.of (s.slot k)).tail⟩ tmp.bytes.length) k q result writes := by
  simp only [send_list_tcp, first, Nat.min_eq_right fits, ne_eq, not_true_eq_false, if_false]

end

/-- By induction on the outcomes: behind a buffer sent whole the list is still linked,
    but its `tail` is left behind by the last one. -/
theorem send_list_tcp_sends (q : Queue) (result : Message) (writes : List WriteResult) (live : Live (s.slot k).type)
    (linked : Linked (q.of (s.slot k))) :
    ∃ r rest, send_list_tcp s k q result writes = .ok (r, rest) ∧ Sends s k q writes r := by
  induction writes generalizing s with
  | nil =>
    cases first : (q.of (s.slot k)).head with
    | nil => exact ⟨_, _, send_list_tcp_done result [] first, [], .inl ⟨rfl, Progressed.done [] first⟩⟩
    | cons tmp next =>
      refine ⟨⟨s, result, -1⟩, [], by simp only [send_list_tcp, first], [], .inl ⟨rfl, ?_⟩⟩
      exact Progressed.refused linked first (by simp)
  | cons outcome writes ih =>
    cases first : (q.of (s.slot k)).head with
    | nil => exact ⟨_, _, send_list_tcp_done result _ first, [], .inl ⟨rfl, Progressed.done _ first⟩⟩
    | cons tmp next =>
      cases outcome with
      | EINTR =>
        obtain ⟨r, rest, handled, sends⟩ := ih live linked
        exact ⟨r, rest, by simp only [send_list_tcp, first, handled], sends.retry⟩
      | EAGAIN =>
        refine ⟨⟨s, result, -1⟩, writes, by simp only [send_list_tcp, first], [], .inl ⟨rfl, ?_⟩⟩
        exact Progressed.refused linked first (by simp)
      | failed =>
        obtain ⟨t, message, closed⟩ := force_close_total live
        refine ⟨⟨t, message, SOCKET_CLOSE⟩, writes, ?_, [], .inr ⟨rfl, Aborted.failed live closed⟩⟩
        simp only [send_list_tcp, first, closed]
        rfl
      | accepted n =>
        by_cases short : n < tmp.bytes.length
        · exact ⟨_, _, send_list_tcp_part result writes first short, _,
            .inl ⟨rfl, Progressed.part first linked short⟩⟩
        · have fits : tmp.bytes.length ≤ n := Nat.le_of_not_lt short
          have still : Live ((wrote s k q tmp ⟨next, (q.of (s.slot k)).tail⟩ tmp.bytes.length).slot k).type := by
            rwa [wrote_slot, Queue.set_type]
          have behind : Linked (q.of ((wrote s k q tmp ⟨next, (q.of (s.slot k)).tail⟩ tmp.bytes.length).slot k)) := by
            rw [wrote_slot, Queue.of_set]
            exact linked.next first
          obtain ⟨r, rest, handled, sends⟩ := ih still behind
          exact ⟨r, rest, (send_list_tcp_whole result writes first fits).trans handled, sends.whole first fits⟩

/-- `send_list_tcp` loses and repeats no byte. It returns -1 or `SOCKET_CLOSE`; after -1,
    the bytes sent followed by those still in the list are those of the list before,
    `wb_size` has gone down by the number sent and the list is well-formed, empty if and
    only if every write was complete; after `SOCKET_CLOSE` the slot and its queues are
    cleared, and the bytes sent are the first ones of the list. -/
theorem send_list_tcp_conserves (s : Server) (k : Index) (q : Queue) (result : Message) (writes : List WriteResult)
    (live : Live (s.slot k).type) (formed : WellFormed (q.of (s.slot k))) :
    ∃ r rest, send_list_tcp s k q result writes = .ok (r, rest) ∧ Sends s k q writes r :=
  send_list_tcp_sends q result writes live formed.linked

end

theorem send_list_tcp_conserves_queued : ∃ r rest,
    send_list_tcp sending (HASH_ID 1) .high ⟨0, 0, 0, .nullptr⟩ [.EINTR, .accepted 1] = .ok (r, rest) ∧
      Sends sending (HASH_ID 1) .high [.EINTR, .accepted 1] r := by
  apply send_list_tcp_conserves
  · rw [sending_slot]
    exact ⟨by decide, by decide⟩
  · rw [sending_slot]
    exact ⟨by decide, rfl⟩

end Canna.SocketServer
