import Canna.Turns

/-!
# The table of the epoll set

The slots and the epoll set form a table with two directions: a slot whose type is one
of those that wait for events (`Watched`) has an entry under its descriptor, and every
entry is that of such a slot (`Polled`). A change to one slot keeps the table when it
touches only the entry that is the slot's own.
-/
namespace Canna.Poll
open Canna.Sockets Canna.SocketServer

/-- The watched slots are registered under their own descriptors, and nothing else is.
    A reserved slot has no descriptor. -/
structure Polled (slot : Index → Socket) (epoll : Int → Option Registration) : Prop where
  idle : ∀ k, (slot k).type = .RESERVE → (slot k).fd = -1
  watched : ∀ k, Watched (slot k).type → 0 ≤ (slot k).fd ∧ ∃ out, epoll (slot k).fd = some ⟨k, out⟩
  entries : ∀ fd e, epoll fd = some e → Watched (slot e.ud).type ∧ (slot e.ud).fd = fd

/-- The descriptor has no entry of another slot. -/
def Own (epoll : Int → Option Registration) (k : Index) (fd : Int) : Prop := ∀ e, epoll fd = some e → e.ud = k

namespace Polled
variable {slot next : Index → Socket} {epoll after : Int → Option Registration} {k : Index} {fd : Int}

theorem own (before : Polled slot epoll) (watched : Watched (slot k).type) : Own epoll k (slot k).fd := by
  intro e entry
  obtain ⟨-, out, here⟩ := before.watched k watched
  rw [here] at entry
  cases entry
  rfl

/-- Another watched slot stands elsewhere. -/
theorem apart (before : Polled slot epoll) (own : Own epoll k fd) {j : Index} (other : j ≠ k)
    (watched : Watched (slot j).type) : (slot j).fd ≠ fd := by
  intro same
  obtain ⟨-, out, here⟩ := before.watched j watched
  rw [same] at here
  exact other (own _ here)

theorem absent (before : Polled slot epoll) (elsewhere : ∀ k, Watched (slot k).type → (slot k).fd ≠ fd) :
    epoll fd = none := by
  cases entry : epoll fd with
  | none => rfl
  | some e =>
    obtain ⟨watched, here⟩ := before.entries fd e entry
    exact absurd here (elsewhere e.ud watched)

/-- One slot changes, and the entry of one descriptor that is its own. -/
theorem of_slot (before : Polled slot epoll) (others : ∀ j, j ≠ k → next j = slot j) (own : Own epoll k fd)
    (elsewhere : ∀ d, d ≠ fd → after d = epoll d) (place : Watched (slot k).type → (slot k).fd = fd)
    (idle : (next k).type = .RESERVE → (next k).fd = -1)
    (entry : ∀ e, after fd = some e → e.ud = k ∧ Watched (next k).type ∧ (next k).fd = fd)
    (watched : Watched (next k).type → 0 ≤ (next k).fd ∧ ∃ out, after (next k).fd = some ⟨k, out⟩) :
    Polled next after where
  idle j reserved := by
    by_cases same : j = k
    · subst same
      exact idle reserved
    · rw [others j same] at reserved ⊢
      exact before.idle j reserved
  watched j live := by
    by_cases same : j = k
    · subst same
      exact watched live
    · rw [others j same] at live ⊢
      rw [elsewhere _ (before.apart own same live)]
      exact before.watched j live
  entries d e here := by
    by_cases same : d = fd
    · subst same
      obtain ⟨rfl, live, stands⟩ := entry e here
      exact ⟨live, stands⟩
    · rw [elsewhere d same] at here
      obtain ⟨live, stands⟩ := before.entries d e here
      have other : e.ud ≠ k := by
        rintro rfl
        exact same (stands.symm.trans (place live))
      rw [others _ other]
      exact ⟨live, stands⟩

/-- A slot that is not watched becomes another that is not. -/
theorem of_unwatched (before : Polled slot epoll) (others : ∀ j, j ≠ k → next j = slot j)
    (unwatched : ¬ Watched (slot k).type) (still : ¬ Watched (next k).type)
    (idle : (next k).type = .RESERVE → (next k).fd = -1) : Polled next epoll where
  idle j reserved := by
    by_cases same : j = k
    · subst same
      exact idle reserved
    · rw [others j same] at reserved ⊢
      exact before.idle j reserved
  watched j live := by
    have other : j ≠ k := by
      rintro rfl
      exact still live
    rw [others j other] at live ⊢
    exact before.watched j live
  entries d e here := by
    obtain ⟨live, stands⟩ := before.entries d e here
    have other : e.ud ≠ k := by
      rintro rfl
      exact unwatched live
    rw [others _ other]
    exact ⟨live, stands⟩

/-- A slot that was not watched is registered. -/
theorem of_registered {ker n : Kernel} (before : Polled slot ker.epoll) (others : ∀ j, j ≠ k → next j = slot j)
    (unwatched : ¬ Watched (slot k).type) (registered : Registered ker n fd k) (valid : 0 ≤ fd)
    (place : (next k).fd = fd) (watched : Watched (next k).type) : Polled next n.epoll := by
  obtain ⟨out, entry⟩ := registered.entry
  refine before.of_slot others ?_ registered.others (fun live => absurd live unwatched) ?_ ?_ ?_
  · intro e here
    rw [registered.absent] at here
    cases here
  · intro reserved
    rw [reserved] at watched
    exact watched.elim
  · intro e here
    rw [entry] at here
    cases here
    exact ⟨rfl, watched, place⟩
  · intro _
    rw [place]
    exact ⟨valid, out, entry⟩

/-- The entry of a slot in use is touched, and its type changes among those watched
    or not at all. -/
theorem of_tuned {ker n : Kernel} (before : Polled slot ker.epoll) (others : ∀ j, j ≠ k → next j = slot j)
    (own : Own ker.epoll k (slot k).fd) (tuned : Tuned ker n (slot k).fd k) (place : (next k).fd = (slot k).fd)
    (same : Watched (next k).type ↔ Watched (slot k).type)
    (idle : (next k).type = .RESERVE → (slot k).type = .RESERVE) : Polled next n.epoll := by
  refine before.of_slot others own tuned.others (fun _ => rfl) ?_ ?_ ?_
  · intro reserved
    rw [place]
    exact before.idle k (idle reserved)
  · intro e here
    rcases tuned.own with kept | ⟨out, rewritten⟩
    · rw [kept] at here
      have mine := own e here
      exact ⟨mine, same.mpr (mine ▸ (before.entries _ e here).1), place⟩
    · rw [rewritten] at here
      obtain ⟨old, entry, rfl⟩ := Option.map_eq_some_iff.mp here
      exact ⟨rfl, same.mpr (own old entry ▸ (before.entries _ old entry).1), place⟩
  · intro live
    obtain ⟨valid, out, entry⟩ := before.watched k (same.mp live)
    rw [place]
    refine ⟨valid, ?_⟩
    rcases tuned.own with kept | ⟨next, rewritten⟩
    · exact ⟨out, kept.trans entry⟩
    · exact ⟨next, by rw [rewritten, entry]; rfl⟩

/-- A slot in use is closed, and leaves the set. -/
theorem of_closed (before : Polled slot epoll) (others : ∀ j, j ≠ k → next j = slot j) (own : Own epoll k (slot k).fd)
    (closed : after = Function.update epoll (slot k).fd none) (free : (next k).type = .INVALID) :
    Polled next after := by
  refine before.of_slot others own ?_ (fun _ => rfl) ?_ ?_ ?_
  · intro d other
    rw [closed, Function.update_of_ne other]
  · intro reserved
    rw [free] at reserved
    cases reserved
  · intro e here
    rw [closed, Function.update_self] at here
    cases here
  · intro live
    rw [free] at live
    exact live.elim

/-- The kernel hands out descriptors under which no slot is watched. -/
theorem of_obtained {ker n : Kernel} (before : Polled slot ker.epoll) (obtained : Obtained ker n)
    (spared : ∀ k, Watched (slot k).type → n.opened (slot k).fd = ker.opened (slot k).fd) : Polled slot n.epoll where
  idle := before.idle
  watched k live := by
    obtain ⟨valid, here⟩ := before.watched k live
    refine ⟨valid, ?_⟩
    rcases obtained (slot k).fd with ⟨-, -, entry⟩ | ⟨opened, -, -, -⟩
    · rwa [entry]
    · rw [spared k live] at opened
      exact absurd opened (Nat.lt_irrefl _)
  entries d e here := by
    rcases obtained d with ⟨-, -, entry⟩ | ⟨-, -, -, entry⟩
    · rw [entry] at here
      exact before.entries d e here
    · rw [entry] at here
      cases here

end Polled

/-! ### Turns -/

section
variable {k : Index} {x y : Socket} {ker n : Kernel} {type : Int} {result : Message}

theorem turn_grows (turn : Turn k x ker y n type result) : Grows ker n := by
  cases turn with
  | idle same kernel => exact .of_counts (by rw [kernel]) (by simp [kernel])
  | kept valid same tuned => exact .of_counts tuned.opened (by simp [tuned.closed])
  | closed live control opened closes => exact .of_counts opened closes
  | connected connecting same tuned => exact .of_counts tuned.opened (by simp [tuned.closed])

/-- A bound slot was bound under the same descriptor. -/
theorem turn_bind (turn : Turn k x ker y n type result) (bound : y.type = .BIND) : x.type = .BIND ∧ y.fd = x.fd := by
  have held : y.control.type = .BIND := bound
  cases turn with
  | idle same => exact ⟨same ▸ bound, by rw [same]⟩
  | kept valid same =>
    rw [same.1] at held
    exact ⟨held, congrArg Control.fd same.1⟩
  | closed live control =>
    rw [control] at held
    cases held
  | connected connecting same =>
    rw [same.1] at held
    cases held

end

section
variable {slot next : Index → Socket} {ker n : Kernel} {k : Index}

theorem Polled.of_turn {type : Int} {result : Message} (before : Polled slot ker.epoll)
    (own : (slot k).type ≠ .INVALID → Own ker.epoll k (slot k).fd) (others : ∀ j, j ≠ k → next j = slot j)
    (turn : Turn k (slot k) ker (next k) n type result) : Polled next n.epoll := by
  cases turn with
  | idle same kernel =>
    have all : next = slot := by
      funext j
      by_cases here : j = k
      · rw [here, same]
      · exact others j here
    rw [all, kernel]
    exact before
  | kept valid same tuned =>
    have type : (next k).type = (slot k).type := congrArg Control.type same.1
    refine before.of_tuned others (own valid) tuned (congrArg Control.fd same.1) (by rw [type]) ?_
    intro reserved
    exact type.symm.trans reserved
  | closed live control opened closes epoll =>
    exact before.of_closed others (own live.1) epoll (congrArg Control.type control)
  | connected connecting same tuned =>
    have type : (next k).type = .CONNECTED := congrArg Control.type same.1
    have valid : (slot k).type ≠ .INVALID := by
      rw [connecting]
      decide
    refine before.of_tuned others (own valid) tuned (congrArg Control.fd same.1) ?_ ?_
    · rw [type, connecting]
      exact Iff.rfl
    · intro reserved
      rw [type] at reserved
      cases reserved

end

theorem unwatched_of_waiting {type : SocketType} (waiting : type = .PACCEPT ∨ type = .PLISTEN) : ¬ Watched type := by
  rcases waiting with rfl | rfl <;> exact id

end Canna.Poll
