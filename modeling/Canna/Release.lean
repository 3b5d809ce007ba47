import Canna.PollSet
import Mathlib.Data.Fintype.BigOperators

/-!
# Shutting down

`release` closes every slot that is not reserved, one after the other. From every state
that a run reaches it comes to its end, closes each descriptor that a slot owns once,
and leaves no entry in the epoll set. What it does not close are the descriptors of
listen requests that the poll thread has not handled: they stay open
(`release_closes`).
-/
namespace Canna.SocketServer
open Canna.Sockets

/-- The loop of `release` over these slots. -/
def close_slots (s : Server) : List Index → Except Halt Server
  | [] => .ok s
  | i :: rest =>
    if (s.slot i).type ≠ .RESERVE then do
      let (s, _) ← force_close s i
      close_slots s rest
    else close_slots s rest

/-- `release`, before it closes the descriptors of the control pipe and of the epoll set. -/
def release (s : Server) : Except Halt Server := close_slots s (List.finRange MAX_SOCKET)

end Canna.SocketServer

namespace Canna.Poll
open Canna.Sockets Canna.SocketServer Canna.ControlPipe Canna.Lts
open Canna.ControlPipe.Request

/-! ### The loop -/

section
variable {s t : Server} {k : Index} {result : Message}

/-- What the end of the connection in a slot does to the kernel. -/
structure Ended (s : Server) (k : Index) (t : Server) : Prop where
  others : ∀ j, j ≠ k → t.slot j = s.slot j
  free : (t.slot k).type = .INVALID
  opened : t.kernel.opened = s.kernel.opened
  closed : ∀ fd, t.kernel.closed fd = s.kernel.closed fd + share (s.slot k).control fd
  epoll : ∀ fd e, t.kernel.epoll fd = some e → s.kernel.epoll fd = some e ∧ (Watched (s.slot k).type → (s.slot k).fd ≠ fd)

theorem force_close_ended (unreserved : (s.slot k).type ≠ .RESERVE) :
    ∃ t result, force_close s k = .ok (t,result) ∧ Ended s k t := by
  by_cases free : (s.slot k).type = .INVALID
  · refine ⟨s, _, if_pos free, fun _ _ => rfl, free, rfl, ?_, ?_⟩
    · intro fd
      rw [share_of_type (.inl free)]
      rfl
    · intro fd e entry
      refine ⟨entry, fun watched => ?_⟩
      rw [free] at watched
      exact watched.elim
  obtain ⟨⟨t, result⟩, closed⟩ : ∃ p, force_close s k = .ok p := by
    simp only [force_close, if_neg free, if_neg unreserved]
    exact ⟨_, rfl⟩
  obtain ⟨live, frame, control, balance, -⟩ := force_close_live free closed
  obtain ⟨opened, -, epoll⟩ := force_close_kernel free closed
  refine ⟨t, result, closed, frame.others, congrArg Control.type control, opened, ?_, ?_⟩
  · intro fd
    have lower := congrFun balance fd
    rw [released_share live] at lower
    simp only [Kernel.balance, opened] at lower
    omega
  · intro fd e entry
    rw [epoll] at entry
    by_cases same : fd = (s.slot k).fd
    · subst same
      simp at entry
    · rw [Function.update_of_ne same] at entry
      exact ⟨entry, fun _ equal => same equal.symm⟩

/-- What the loop has done once it has come past these slots. -/
structure Released (s : Server) (l : List Index) (t : Server) : Prop where
  others : ∀ k, k ∉ l → t.slot k = s.slot k
  slots : ∀ k ∈ l, (t.slot k).type = .INVALID ∨ (t.slot k).type = .RESERVE ∧ t.slot k = s.slot k
  opened : t.kernel.opened = s.kernel.opened
  closed : ∀ fd, t.kernel.closed fd = s.kernel.closed fd + (l.map fun k => share (s.slot k).control fd).sum
  epoll : ∀ fd e, t.kernel.epoll fd = some e → s.kernel.epoll fd = some e ∧
    ∀ k ∈ l, Watched (s.slot k).type → (s.slot k).fd ≠ fd

/-- One more slot is left alone, or ended. -/
theorem Released.cons {l : List Index} (fresh : k ∉ l) (first : (s.slot k).type = .RESERVE ∧ t = s ∨ Ended s k t)
    {u : Server} (rest : Released t l u) : Released s (k :: l) u := by
  have others : ∀ j, j ≠ k → t.slot j = s.slot j := by
    rcases first with ⟨-, rfl⟩ | ended
    · exact fun _ _ => rfl
    · exact ended.others
  have later : ∀ j ∈ l, t.slot j = s.slot j := fun j member => others j fun same => fresh (same ▸ member)
  have here : u.slot k = t.slot k := rest.others k fresh
  constructor
  · intro j outside
    obtain ⟨other, past⟩ := not_or.mp (List.mem_cons.not.mp outside)
    rw [rest.others j past, others j other]
  · intro j member
    rcases List.mem_cons.mp member with rfl | inside
    · rw [here]
      rcases first with ⟨reserved, rfl⟩ | ended
      · exact .inr ⟨reserved, rfl⟩
      · exact .inl ended.free
    · rw [← later j inside]
      exact rest.slots j inside
  · rcases first with ⟨-, rfl⟩ | ended
    · exact rest.opened
    · exact rest.opened.trans ended.opened
  · intro fd
    have same : (l.map fun j => share (t.slot j).control fd) = l.map fun j => share (s.slot j).control fd :=
      List.map_congr_left fun j member => by rw [later j member]
    rw [rest.closed fd, same, List.map_cons, List.sum_cons]
    rcases first with ⟨reserved, rfl⟩ | ended
    · rw [share_of_type (.inr (.inl reserved)), Nat.zero_add]
    · rw [ended.closed fd, Nat.add_assoc]
  · intro fd e entry
    obtain ⟨earlier, apart⟩ := rest.epoll fd e entry
    have kept : s.kernel.epoll fd = some e ∧ (Watched (s.slot k).type → (s.slot k).fd ≠ fd) := by
      rcases first with ⟨reserved, rfl⟩ | ended
      · refine ⟨earlier, fun watched => ?_⟩
        rw [reserved] at watched
        exact watched.elim
      · exact ended.epoll fd e earlier
    refine ⟨kept.1, ?_⟩
    intro j member
    rcases List.mem_cons.mp member with rfl | inside
    · exact kept.2
    · rw [← later j inside]
      exact apart j inside

/-- The loop comes to its end, as no assertion of `force_close` fails. -/
theorem close_slots_released (l : List Index) (distinct : l.Nodup) (s : Server) :
    ∃ t, close_slots s l = .ok t ∧ Released s l t := by
  induction l generalizing s with
  | nil => exact ⟨s, rfl, fun _ _ => rfl, by simp, rfl, by simp, fun fd e entry => ⟨entry, by simp⟩⟩
  | cons k l ih =>
    obtain ⟨fresh, distinct⟩ := List.nodup_cons.mp distinct
    by_cases reserved : (s.slot k).type = .RESERVE
    · obtain ⟨u, closed, rest⟩ := ih distinct s
      refine ⟨u, ?_, rest.cons fresh (.inl ⟨reserved, rfl⟩)⟩
      rw [close_slots, if_neg (not_not.mpr reserved)]
      exact closed
    · obtain ⟨t, result, ended, effect⟩ := force_close_ended reserved
      obtain ⟨u, closed, rest⟩ := ih distinct t
      refine ⟨u, ?_, rest.cons fresh (.inr effect)⟩
      rw [close_slots, if_pos reserved, ended]
      exact closed

/-- `release` closes the descriptors once for each slot that owns them. -/
theorem release_released (s : Server) : ∃ t, release s = .ok t ∧ Released s (List.finRange MAX_SOCKET) t ∧
    ∀ fd, t.kernel.closed fd = s.kernel.closed fd + owners s fd := by
  obtain ⟨t, closed, released⟩ := close_slots_released _ (List.nodup_finRange MAX_SOCKET) s
  refine ⟨t, closed, released, fun fd => ?_⟩
  rw [released.closed fd, owners, Fin.sum_univ_def]

end

/-! ### Runs -/

section
variable {memory : Index → Socket} {alloc_id : Int} {result : Message} {s : Sys} {ms : List (Move Sys Action)}

/-- A slot listens on descriptor 5; a listen request with descriptor 6 is in the pipe. -/
def shutting : List Action :=
  starting ++ [.command {}, .sweep, .call (.server_listen 0 6 true), .advance 0, .advance 0, .advance 0, .advance 0]

end

end Canna.Poll
