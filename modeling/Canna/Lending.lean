import Canna.PollTable
import Canna.Descriptors

/-!
# Descriptors with one holder

A descriptor passed to `server_bind` is the caller's: it must be open, not the server's,
and not be handed out while it is bound or about to be (`Foreign`). Then a descriptor
has at most one holder, and none while it is lent (`Held`), also where a start has
lost one. So no two slots share an entry of the epoll set.
-/
namespace Canna.Poll
open Canna.Sockets Canna.SocketServer Canna.ControlPipe Canna.Lts
open Canna.ControlPipe.Request

def Reserving.lent : Reserving → Option Int
  | .server_bind _ fd => some fd
  | _ => none

/-- The descriptor that a bind request carries. -/
def lent : Request Int (List Byte) → Option Int
  | request_bind _ fd _ => some fd
  | _ => none

/-- The descriptor that a call of `server_bind` was given. -/
def Client.lent : Client → Option Int
  | .drawing call _ | .masking call _ | .probing call _ _ | .swapping call _ _ => call.lent
  | .requesting request => Poll.lent request

/-- The descriptor is bound, or about to be. -/
def Lent (s : Sys) (fd : Int) : Prop :=
  fd ∈ tokens Client.lent lent s ∨ ∃ k, (s.server.slot k).type = .BIND ∧ (s.server.slot k).fd = fd

/-- The holders of a descriptor that the server has obtained. -/
def holders (s : Sys) (fd : Int) : Nat := (loose s).count fd + owners s.server fd

/-- The descriptor that is passed to `server_bind`. -/
def binds : Action → Option Int
  | .call (.server_bind _ fd) => some fd
  | _ => none

/-- A descriptor passed to `server_bind` is open and not the server's, and the kernel
    does not hand it out while it is lent. -/
structure Foreign (s : Sys) (a : Action) : Prop where
  passed : ∀ opaqueVal fd, a = .call (.server_bind opaqueVal fd) →
    0 ≤ fd ∧ callers s fd + carriers s fd + owners s.server fd = 0
  spared : ∀ t, step s a = .ok t → ∀ fd, Lent s fd → t.server.kernel.opened fd = s.server.kernel.opened fd

/-- A descriptor has at most one holder, and none while it is lent. -/
structure Held (s : Sys) : Prop where
  held : ∀ fd, (holders s fd : Int) ≤ s.server.kernel.balance fd
  single : ∀ fd, s.server.kernel.balance fd ≤ 1
  valid : ∀ fd, fd < 0 → s.server.kernel.opened fd = 0
  lent : ∀ fd, Lent s fd → 0 ≤ fd ∧ holders s fd = 0

theorem binds_eq {a : Action} {fd : Int} (passed : binds a = some fd) : ∃ opaqueVal, a = .call (.server_bind opaqueVal fd) := by
  cases a with
  | call c =>
    cases c with
    | server_bind opaqueVal own =>
      cases passed
      exact ⟨opaqueVal, rfl⟩
    | _ => cases passed
  | _ => cases passed

theorem owners_two {s : Server} {j k : Index} {fd : Int} (apart : j ≠ k) (here : Owns (s.slot j).control fd)
    (there : Owns (s.slot k).control fd) : 2 ≤ owners s fd := by
  have both := Finset.add_le_sum (f := fun k => share (s.slot k).control fd) (fun _ _ => Nat.zero_le _)
    (Finset.mem_univ j) (Finset.mem_univ k) apart
  simp only [share, if_pos here, if_pos there] at both
  exact both

namespace Held
variable {s t : Sys} {k : Index} {fd : Int}

theorem holders_le (before : Held s) (fd : Int) : holders s fd ≤ 1 := by
  have most := before.held fd
  have single := before.single fd
  omega

/-- A descriptor that something holds is a valid one. -/
theorem nonneg (before : Held s) (some : 0 < holders s fd) : 0 ≤ fd := by
  by_contra negative
  have none := before.valid fd (Int.not_le.mp negative)
  have most := before.held fd
  rw [Kernel.balance] at most
  omega

theorem holders_of_owns (owns : Owns (s.server.slot k).control fd) : 0 < holders s fd := by
  have least := share_le_owners s.server k fd
  unfold share at least
  rw [if_pos owns] at least
  unfold holders
  omega

/-- The descriptor of a watched slot is the server's or lent. -/
theorem watched_holds (watched : Watched (s.server.slot k).type) :
    Owns (s.server.slot k).control (s.server.slot k).fd ∨ Lent s (s.server.slot k).fd := by
  by_cases bound : (s.server.slot k).type = .BIND
  · exact .inr (.inr ⟨k, bound, rfl⟩)
  · refine .inl ⟨?_, ?_, bound, rfl⟩
    · intro free
      have free : (s.server.slot k).type = .INVALID := free
      rw [free] at watched
      exact watched
    · intro reserved
      have reserved : (s.server.slot k).type = .RESERVE := reserved
      rw [reserved] at watched
      exact watched

/-- No slot is watched under a descriptor that has another holder. -/
theorem unwatched_of_loose (before : Held s) (out : 0 < (loose s).count fd) (watched : Watched (s.server.slot k).type) :
    (s.server.slot k).fd ≠ fd := by
  rintro rfl
  rcases watched_holds watched with owns | lent
  · have least := share_le_owners s.server k (s.server.slot k).fd
    unfold share at least
    rw [if_pos owns] at least
    have most := before.holders_le (s.server.slot k).fd
    unfold holders at most
    omega
  · have none := (before.lent _ lent).2
    unfold holders at none
    omega

theorem unwatched_of_owns (before : Held s) {j : Index} (owns : Owns (s.server.slot j).control fd) (other : k ≠ j)
    (watched : Watched (s.server.slot k).type) : (s.server.slot k).fd ≠ fd := by
  rintro rfl
  rcases watched_holds watched with also | lent
  · have two := owners_two other also owns
    have most := before.holders_le (s.server.slot k).fd
    unfold holders at most
    omega
  · have none := (before.lent _ lent).2
    have some := holders_of_owns owns
    omega

/-- A slot in use shares its entry with no other slot. -/
theorem own (before : Held s) (polled : Polled s.server.slot s.server.kernel.epoll)
    (valid : (s.server.slot k).type ≠ .INVALID) : Own s.server.kernel.epoll k (s.server.slot k).fd := by
  by_cases watched : Watched (s.server.slot k).type
  · exact polled.own watched
  intro e entry
  obtain ⟨live, stands⟩ := polled.entries _ e entry
  by_contra other
  by_cases reserved : (s.server.slot k).type = .RESERVE
  · -- a reserved slot has no descriptor
    have nonneg := (polled.watched e.ud live).1
    rw [stands, polled.idle k reserved] at nonneg
    omega
  · have owns : Owns (s.server.slot k).control (s.server.slot k).fd := by
      refine ⟨valid, reserved, ?_, rfl⟩
      intro bound
      have bound : (s.server.slot k).type = .BIND := bound
      rw [bound] at watched
      exact watched trivial
    exact before.unwatched_of_owns owns other live stands

/-- The kernel hands out no descriptor of a watched slot. -/
theorem spared (before : Held s) {n : Kernel} (obtained : Obtained s.server.kernel n)
    (lent : ∀ fd, Lent s fd → n.opened fd = s.server.kernel.opened fd) (watched : Watched (s.server.slot k).type) :
    n.opened (s.server.slot k).fd = s.server.kernel.opened (s.server.slot k).fd := by
  rcases watched_holds watched with owns | loaned
  · rcases obtained (s.server.slot k).fd with ⟨opened, -, -⟩ | ⟨-, -, free, -⟩
    · exact opened
    · have some := holders_of_owns owns
      have most := before.held (s.server.slot k).fd
      omega
  · exact lent _ loaned

/-- What a step owes the descriptors: the balances move with the holders, unless some
    are lost, and nothing lent is obtained. -/
theorem of_step (before : Held s) {a : Action} (reserved : Reserved s) (foreign : Foreign s a)
    (stepped : step s a = .ok t) (grows : Grows s.server.kernel t.server.kernel)
    (loaned : ∀ fd, Lent t fd → Lent s fd ∨ binds a = some fd) : Held t := by
  have moved : ∀ fd, s.server.kernel.balance fd + holders t fd ≤ t.server.kernel.balance fd + holders s fd ∧
      t.server.kernel.balance fd ≤ 1 := by
    intro fd
    by_cases leaks : Leaks s a
    · obtain ⟨balance, loose_eq, x, -, owners⟩ := leaks_step leaks stepped
      have fewer := owners fd
      have single := before.single fd
      rw [balance, holders, holders, loose_eq]
      omega
    · obtain ⟨balance, single⟩ := shifted_step reserved before.single leaks stepped
      have here := balance fd
      have most := single fd
      unfold holders
      omega
  constructor
  · intro fd
    have here := moved fd
    have held := before.held fd
    omega
  · exact fun fd => (moved fd).2
  · intro fd negative
    rcases grows fd with ⟨opened, -⟩ | ⟨-, valid⟩
    · exact opened.trans (before.valid fd negative)
    · omega
  · intro fd lent
    rcases loaned fd lent with earlier | now
    · obtain ⟨valid, none⟩ := before.lent fd earlier
      have spared := foreign.spared t stepped fd earlier
      refine ⟨valid, ?_⟩
      have here := moved fd
      rcases grows fd with ⟨-, balance⟩ | ⟨opened, -⟩
      · omega
      · omega
    · obtain ⟨opaqueVal, rfl⟩ := binds_eq now
      obtain ⟨valid, none⟩ := foreign.passed opaqueVal fd rfl
      rw [← loose_count] at none
      cases stepped
      exact ⟨valid, none⟩

end Held

end Canna.Poll
