import Canna.Circular
import Canna.Poll

/-!
# The search for a free slot

The turns of `reserve_id`, uninterrupted, draw the numbers behind `alloc_id`, modulo
`2 ^ 31` (`draws_eq`), and so visit the slots in circular order, each of them once
in `MAX_SOCKET` turns. A free slot is therefore found if there is one
(`reserve_id_exact`). A client that nobody interrupts takes the same turns step by
step (`Client.alone`).
-/
namespace Canna.SocketServer
open Canna.Sockets Canna.Circular

/-- A number that `alloc_id` can have outside `reserve_id`. -/
def InRange (alloc_id : Int) : Prop := 0 ≤ alloc_id ∧ alloc_id ≤ INT_MAX

instance (alloc_id : Int) : Decidable (InRange alloc_id) := inferInstanceAs (Decidable (_ ∧ _))

theorem draw_id_eq {a : Int} (range : InRange a) : draw_id a = (a + 1) % 2 ^ 31 := by
  obtain ⟨low, high⟩ := range
  simp only [INT_MAX] at high
  simp only [draw_id]
  by_cases last : a = 2 ^ 31 - 1
  · -- the increment wraps to the least `int`
    rw [last]
    decide +kernel
  · rw [cint_of_small (by omega) (by omega), if_neg (by omega), Int.emod_eq_of_lt (by omega) (by omega)]

theorem inRange_emod (a : Int) : InRange (a % 2 ^ 31) := by
  simp only [InRange, INT_MAX]
  omega

/-- The number drawn in a turn. -/
theorem draws_eq {a : Int} (range : InRange a) (n : Nat) : draw_id^[n] a = (a + n) % 2 ^ 31 := by
  induction n with
  | zero =>
    obtain ⟨low, high⟩ := range
    simp only [INT_MAX] at high
    rw [Function.iterate_zero_apply, Int.emod_eq_of_lt (by omega) (by omega)]
    omega
  | succ n ih =>
    rw [Function.iterate_succ_apply', ih, draw_id_eq (inRange_emod _)]
    omega

theorem inRange_draws {a : Int} (range : InRange a) (n : Nat) : InRange (draw_id^[n] a) := by
  rw [draws_eq range]
  exact inRange_emod _

/-- The slots are visited in circular order. -/
theorem HASH_ID_draws {a : Int} (range : InRange a) (n : Nat) :
    HASH_ID (draw_id^[n] a) = cell (a.toNat + n) := by
  have low := range.1
  rw [draws_eq range]
  apply Fin.ext
  simp only [HASH_ID, cell_val, MAX_SOCKET]
  omega

/-- Every slot is visited in one of `MAX_SOCKET` turns. -/
theorem visited {a : Int} (range : InRange a) (k : Index) :
    ∃ n < MAX_SOCKET, HASH_ID (draw_id^[n + 1] a) = k := by
  refine ⟨offset (a.toNat + 1) k, Nat.mod_lt _ (by decide), ?_⟩
  rw [HASH_ID_draws range, Nat.add_comm _ 1, ← Nat.add_assoc, cell_offset]

/-- No slot is visited in two of them. -/
theorem visited_once {a : Int} (range : InRange a) {n m : Nat} (left : n < MAX_SOCKET) (right : m < MAX_SOCKET)
    (same : HASH_ID (draw_id^[n + 1] a) = HASH_ID (draw_id^[m + 1] a)) : n = m := by
  rw [HASH_ID_draws range, HASH_ID_draws range, Nat.add_comm n, Nat.add_comm m, ← Nat.add_assoc,
    ← Nat.add_assoc] at same
  rw [← offset_cell (a.toNat + 1) n left, same, offset_cell _ m right]

/-! ### The loop -/

/-- The slot of the number drawn in a turn is free. -/
def FreeAt (s : Server) (n : Nat) : Prop := (s.slot (HASH_ID (draw_id^[n + 1] s.alloc_id))).type = .INVALID

instance (s : Server) (n : Nat) : Decidable (FreeAt s n) := inferInstanceAs (Decidable (_ = _))

/-- The server once this many numbers were drawn. -/
def drawn (s : Server) (n : Nat) : Server := { s with alloc_id := draw_id^[n] s.alloc_id }

theorem drawn_slot (s : Server) (n : Nat) : (drawn s n).slot = s.slot := rfl
theorem drawn_alloc_id (s : Server) (n : Nat) : (drawn s n).alloc_id = draw_id^[n] s.alloc_id := rfl

/-- The turns up to the first one that finds a free slot, or all of them. -/
theorem probe_turns (i : Nat) (s : Server) :
    (∃ n < i, (∀ m < n, ¬ FreeAt s m) ∧ FreeAt s n ∧
      probe i s = (some (draw_id^[n + 1] s.alloc_id), reserve (drawn s (n + 1)) (draw_id^[n + 1] s.alloc_id))) ∨
    ((∀ m < i, ¬ FreeAt s m) ∧ probe i s = (none, drawn s i)) := by
  induction i generalizing s with
  | zero => exact .inr ⟨fun m inside => absurd inside (Nat.not_lt_zero m), rfl⟩
  | succ i ih =>
    simp only [probe]
    by_cases free : (s.slot (HASH_ID (draw_id s.alloc_id))).type = .INVALID
    · rw [if_pos free]
      exact .inl ⟨0, Nat.succ_pos i, fun m inside => absurd inside (Nat.not_lt_zero m), free, rfl⟩
    · rw [if_neg free]
      have shift : ∀ m, FreeAt { s with alloc_id := draw_id s.alloc_id } m ↔ FreeAt s (m + 1) := fun m => Iff.rfl
      have earlier : ∀ n, (∀ m < n, ¬ FreeAt { s with alloc_id := draw_id s.alloc_id } m) →
          ∀ m < n + 1, ¬ FreeAt s m := by
        intro n none m inside
        cases m with
        | zero => exact free
        | succ m => exact fun taken => none m (Nat.lt_of_succ_lt_succ inside) ((shift m).mpr taken)
      rcases ih { s with alloc_id := draw_id s.alloc_id } with ⟨n, inside, none, found, result⟩ | ⟨none, result⟩
      · exact .inl ⟨n + 1, Nat.succ_lt_succ inside, earlier n none, (shift n).mp found, result⟩
      · exact .inr ⟨earlier i none, result⟩

/-- `reserve_id` finds a free slot if there is one, reserves it and changes no other;
    else it has drawn `MAX_SOCKET` numbers, which lead to every slot. -/
theorem reserve_id_exact (s : Server) (range : InRange s.alloc_id) :
    ((∃ id, (reserve_id s).1 = some id) ↔ ∃ k, (s.slot k).type = .INVALID) ∧
    (∀ id, (reserve_id s).1 = some id → 0 ≤ id ∧ (s.slot (HASH_ID id)).type = .INVALID ∧
      (reserve_id s).2.slot (HASH_ID id) = { s.slot (HASH_ID id) with type := .RESERVE, id := id, fd := -1 } ∧
      ∀ j, j ≠ HASH_ID id → (reserve_id s).2.slot j = s.slot j) ∧
    ((reserve_id s).1 = none → (reserve_id s).2.slot = s.slot ∧
      (reserve_id s).2.alloc_id = draw_id^[MAX_SOCKET] s.alloc_id ∧
      ∀ k, ∃ n < MAX_SOCKET, HASH_ID (draw_id^[n + 1] s.alloc_id) = k) ∧
    InRange (reserve_id s).2.alloc_id := by
  unfold reserve_id
  rcases probe_turns MAX_SOCKET s with ⟨n, inside, -, free, result⟩ | ⟨none, result⟩
  · simp only [result]
    refine ⟨⟨fun _ => ⟨_, free⟩, fun _ => ⟨_, rfl⟩⟩, ?_, nofun, inRange_draws range (n + 1)⟩
    intro id drew
    cases drew
    exact ⟨(inRange_draws range (n + 1)).1, free, Server.setSlot_self _ _ _,
      fun j other => Server.setSlot_other _ _ other⟩
  · simp only [result]
    refine ⟨iff_of_false nofun ?_, nofun, fun _ => ⟨drawn_slot s _, drawn_alloc_id s _, visited range⟩, ?_⟩
    · rintro ⟨k, free⟩
      obtain ⟨n, inside, visits⟩ := visited range k
      exact none n inside (by rw [FreeAt, visits, free])
    · rw [drawn_alloc_id]
      exact inRange_draws range MAX_SOCKET

end Canna.SocketServer

namespace Canna.Poll
open Canna.Sockets Canna.SocketServer

/-- The greatest number was drawn last, and the first two slots are taken. -/
def crowded : Server :=
  { zeroed.server with
    alloc_id := INT_MAX
    slot := fun k => if k.val < 2 then { zeroed.server.slot k with type := .LISTEN, id := k.val } else zeroed.server.slot k }

theorem reserve_id_exact_crowded : (reserve_id crowded).1 = some 2 ∧ ((reserve_id crowded).2.slot 2).type = .RESERVE ∧
    (reserve_id crowded).2.slot 0 = crowded.slot 0 ∧ InRange (reserve_id crowded).2.alloc_id := by
  obtain ⟨-, found, -, range⟩ := reserve_id_exact crowded (by decide)
  have second : (reserve_id crowded).1 = some 2 := by decide +kernel
  obtain ⟨-, -, reserved, others⟩ := found 2 second
  refine ⟨second, ?_, others 0 (by decide), range⟩
  exact congrArg Socket.type reserved

/-! ### Step by step -/

/-- The next steps of a client that no other thread interrupts. -/
def Client.alone : Nat → Server × Option Client → Server × Option Client
  | 0, r => r
  | n + 1, (s, some c) => Client.alone n (c.advance s)
  | _ + 1, (s, none) => (s, none)

/-- What a call does with the id it has got, or without one. -/
def Reserving.resume (call : Reserving) : Option Int × Server → Server × Option Client
  | (some id, s) => (s, some (.requesting (call.request id)))
  | (none, s) => (call.give_up s, none)

/-- A number is drawn in one step, or in two when it has to be masked. -/
theorem Client.alone_drawing (s : Server) (call : Reserving) (i n : Nat) : ∃ m,
    Client.alone m (s, some (.drawing call i)) =
      Client.alone n ({ s with alloc_id := draw_id s.alloc_id }, some (.probing call i (draw_id s.alloc_id))) := by
  by_cases negative : cint (s.alloc_id + 1) < 0
  · refine ⟨n + 2, ?_⟩
    have id : draw_id s.alloc_id = cint (s.alloc_id + 1) % 2 ^ 31 := by simp only [draw_id, if_pos negative]
    simp only [Client.alone, Client.advance, if_pos negative, id]
  · refine ⟨n + 1, ?_⟩
    have id : draw_id s.alloc_id = cint (s.alloc_id + 1) := by simp only [draw_id, if_neg negative]
    simp only [Client.alone, Client.advance, if_neg negative, id]

/-- A turn that finds a free slot is the last one. -/
theorem Client.alone_found (s : Server) (call : Reserving) (i j : Nat)
    (free : (s.slot (HASH_ID (draw_id s.alloc_id))).type = .INVALID) :
    ∃ n, Client.alone n (s, some (.drawing call i)) = call.resume (probe (j + 1) s) := by
  obtain ⟨n, drew⟩ := Client.alone_drawing s call i 2
  refine ⟨n, drew.trans ?_⟩
  simp only [Client.alone, Client.advance, if_pos free, probe, Reserving.resume]

/-- The turns of a client that is alone are those of `probe`. -/
theorem Client.alone_probe (call : Reserving) (j i : Nat) (s : Server) (turns : i + j + 1 = MAX_SOCKET) :
    ∃ n, Client.alone n (s, some (.drawing call i)) = call.resume (probe (j + 1) s) := by
  induction j generalizing i s with
  | zero =>
    by_cases free : (s.slot (HASH_ID (draw_id s.alloc_id))).type = .INVALID
    · exact Client.alone_found s call i 0 free
    · have last : ¬ i + 1 < MAX_SOCKET := by omega
      obtain ⟨n, drew⟩ := Client.alone_drawing s call i 1
      refine ⟨n, drew.trans ?_⟩
      simp only [Client.alone, Client.advance, if_neg free, if_neg last, probe, Reserving.resume]
  | succ j ih =>
    by_cases free : (s.slot (HASH_ID (draw_id s.alloc_id))).type = .INVALID
    · exact Client.alone_found s call i (j + 1) free
    · have more : i + 1 < MAX_SOCKET := by omega
      obtain ⟨rest, turned⟩ := ih (i + 1) { s with alloc_id := draw_id s.alloc_id } (by omega)
      obtain ⟨n, drew⟩ := Client.alone_drawing s call i (rest + 1)
      refine ⟨n, drew.trans ?_⟩
      rw [probe]
      simp only [Client.alone, Client.advance, if_neg free, if_pos more]
      exact turned

/-- A call that nobody interrupts reserves its id as `reserve_id` does in one piece. -/
theorem Client.alone_reserve_id (s : Server) (call : Reserving) :
    ∃ n, Client.alone n (s, some (.drawing call 0)) = call.resume (reserve_id s) := by
  unfold reserve_id
  exact Client.alone_probe call (MAX_SOCKET - 1) 0 s (by decide)

end Canna.Poll
