import Canna.Sockets

/-!
# Entries of the epoll set

What the system calls of a handler do to the epoll set is one of three things: they
touch the entry of a descriptor without taking it out (`Tuned`), enter a descriptor
that had no entry (`Registered`), or obtain descriptors, which come without entries
(`Obtained`).
-/
namespace Canna.SocketServer
open Canna.Sockets

/-- The entry of this descriptor is kept, or rewritten for this slot. -/
structure Tuned (ker n : Kernel) (fd : Int) (k : Index) : Prop where
  opened : n.opened = ker.opened
  closed : n.closed = ker.closed
  others : ∀ d, d ≠ fd → n.epoll d = ker.epoll d
  own : n.epoll fd = ker.epoll fd ∨ ∃ out, n.epoll fd = (ker.epoll fd).map fun _ => ⟨k, out⟩

/-- The descriptor, without an entry before, has one for this slot. -/
structure Registered (ker n : Kernel) (fd : Int) (k : Index) : Prop where
  opened : n.opened = ker.opened
  closed : n.closed = ker.closed
  others : ∀ d, d ≠ fd → n.epoll d = ker.epoll d
  absent : ker.epoll fd = none
  entry : ∃ out, n.epoll fd = some ⟨k, out⟩

/-- A descriptor is as it was, or it was obtained, being free, and has no entry. -/
def Obtained (ker n : Kernel) : Prop := ∀ fd,
  (n.opened fd = ker.opened fd ∧ n.closed fd = ker.closed fd ∧ n.epoll fd = ker.epoll fd) ∨
    (ker.opened fd < n.opened fd ∧ 0 ≤ fd ∧ ker.balance fd ≤ 0 ∧ n.epoll fd = none)

/-- A descriptor was obtained, or else it is not held more often than before. -/
def Grows (ker n : Kernel) : Prop := ∀ fd,
  (n.opened fd = ker.opened fd ∧ n.balance fd ≤ ker.balance fd) ∨ (ker.opened fd < n.opened fd ∧ 0 ≤ fd)

theorem closed_le_close (ker : Kernel) (fd d : Int) : ker.closed d ≤ (ker.close fd).closed d := by
  simp only [Kernel.close]
  by_cases same : d = fd
  · subst same
    rw [Function.update_self]
    omega
  · rw [Function.update_of_ne same]

section
variable {ker m n : Kernel} {fd : Int} {k : Index}

theorem Tuned.refl (ker : Kernel) (fd : Int) (k : Index) : Tuned ker ker fd k :=
  ⟨rfl, rfl, fun _ _ => rfl, .inl rfl⟩

theorem Tuned.write (ker : Kernel) (fd : Int) (k : Index) (enable : Bool) : Tuned ker (ker.write fd k enable) fd k where
  opened := rfl
  closed := rfl
  others d other := by simp [Kernel.write, other]
  own := .inr ⟨enable, by simp [Kernel.write]⟩

theorem Tuned.take (ker : Kernel) (fd : Int) (k : Index) (bytes : List Byte) : Tuned ker (ker.take fd bytes) fd k :=
  ⟨rfl, rfl, fun _ _ => rfl, .inl rfl⟩

/-- Only the entries and the counts matter. -/
theorem Tuned.of_same (tuned : Tuned m n fd k) (opened : m.opened = ker.opened) (closed : m.closed = ker.closed)
    (epoll : m.epoll = ker.epoll) : Tuned ker n fd k where
  opened := tuned.opened.trans opened
  closed := tuned.closed.trans closed
  others := by
    rw [← epoll]
    exact tuned.others
  own := by
    rw [← epoll]
    exact tuned.own

theorem Registered.add {admitted : Bool} (added : ker.add fd k admitted = some n) : Registered ker n fd k := by
  rw [Kernel.add] at added
  by_cases fresh : admitted ∧ ker.epoll fd = none
  · rw [if_pos (by simpa using fresh)] at added
    cases added
    refine ⟨rfl, rfl, ?_, fresh.2, ⟨false, Function.update_self ..⟩⟩
    intro d other
    exact Function.update_of_ne other ..
  · rw [if_neg (by simpa using fresh)] at added
    cases added

/-- An entry just made is rewritten. -/
theorem Registered.tuned (registered : Registered ker m fd k) (tuned : Tuned m n fd k) : Registered ker n fd k where
  opened := tuned.opened.trans registered.opened
  closed := tuned.closed.trans registered.closed
  others d other := (tuned.others d other).trans (registered.others d other)
  absent := registered.absent
  entry := by
    obtain ⟨out, entry⟩ := registered.entry
    rcases tuned.own with same | ⟨next, same⟩
    · exact ⟨out, same.trans entry⟩
    · exact ⟨next, by rw [same, entry]; rfl⟩

theorem Obtained.refl (ker : Kernel) : Obtained ker ker := fun _ => .inl ⟨rfl, rfl, rfl⟩

theorem Obtained.of_same {ker n : Kernel} (same : n = ker) : Obtained ker n := by
  rw [same]
  exact .refl ker

theorem Obtained.acquire (acquired : ker.acquire fd = some n) : Obtained ker n ∧ ker.opened fd < n.opened fd := by
  obtain ⟨valid, single, rfl⟩ := Kernel.acquire_eq acquired
  refine ⟨?_, by simp⟩
  intro d
  by_cases same : d = fd
  · subst same
    exact .inr ⟨by simp, valid, single, by simp⟩
  · exact .inl (by simp [same])

/-- A descriptor that was just obtained may be closed again. -/
theorem Obtained.close (obtained : Obtained ker n) (own : ker.opened fd < n.opened fd) : Obtained ker (n.close fd) := by
  intro d
  by_cases same : d = fd
  · subst same
    rcases obtained d with ⟨opened, -, -⟩ | ⟨opened, valid, free, -⟩
    · omega
    · exact .inr ⟨opened, valid, free, by simp [Kernel.close]⟩
  · rcases obtained d with here | here
    · exact .inl (by simpa [Kernel.close, same] using here)
    · exact .inr (by simpa [Kernel.close, same] using here)

theorem Obtained.trans (first : Obtained ker m) (second : Obtained m n) : Obtained ker n := by
  intro d
  rcases first d with ⟨opened, closed, entry⟩ | ⟨opened, valid, free, entry⟩
  · rcases second d with ⟨opened', closed', entry'⟩ | ⟨opened', valid, free, entry'⟩
    · exact .inl ⟨opened'.trans opened, closed'.trans closed, entry'.trans entry⟩
    · rw [Kernel.balance, opened, closed] at free
      exact .inr ⟨by omega, valid, free, entry'⟩
  · rcases second d with ⟨opened', -, entry'⟩ | ⟨opened', -, -, entry'⟩
    · exact .inr ⟨by omega, valid, free, entry'.trans entry⟩
    · exact .inr ⟨by omega, valid, free, entry'⟩

theorem Grows.of_counts (opened : n.opened = ker.opened) (closed : ∀ d, ker.closed d ≤ n.closed d) : Grows ker n := by
  intro d
  have more := closed d
  refine .inl ⟨congrFun opened d, ?_⟩
  rw [Kernel.balance, Kernel.balance, opened]
  omega

theorem Obtained.grows (obtained : Obtained ker n) : Grows ker n := by
  intro d
  rcases obtained d with ⟨opened, closed, -⟩ | ⟨opened, valid, -, -⟩
  · refine .inl ⟨opened, ?_⟩
    rw [Kernel.balance, Kernel.balance, opened, closed]
  · exact .inr ⟨opened, valid⟩

/-- A descriptor, perhaps just obtained, is registered. -/
theorem Obtained.grows_registered (obtained : Obtained ker m) (registered : Registered m n fd k) : Grows ker n := by
  intro d
  have grows := obtained.grows d
  rwa [← registered.opened, show m.balance d = n.balance d by
    rw [Kernel.balance, Kernel.balance, registered.opened, registered.closed]] at grows

/-- What was obtained once stays obtained. -/
theorem Obtained.opened_le (obtained : Obtained ker n) (fd : Int) : ker.opened fd ≤ n.opened fd := by
  rcases obtained fd with ⟨opened, -, -⟩ | ⟨opened, -, -, -⟩ <;> omega

end

end Canna.SocketServer
