import Canna.Decimal
import Canna.Lts
import Canna.Names

/-!
# Daemons and their pid file

`daemon_init` of `canna_daemon.cpp`, called by any number of processes at once, one system
call at a time: the two forks, the pid file, its lock and the line written to it. A call
leaves at most one process behind its forks, and that is the leader of its session
(`daemon_forks`): the test at the second fork, `(pid == fork()) != 0`, ends the child and
not the parent. As long as the pid file is not removed, at most one daemon runs, and the
first line of the file is its pid (`daemon_exclusive`), whatever an earlier daemon has left
behind it.
-/
namespace Canna.Daemon
open Canna.Decimal Canna.Lts
open Canna.Names (Text)

abbrev Pid := Nat

/-- Where a process stands: before the first fork and at its test, before the second and at
    its test with what `fork` returned there; before `open`, `fdopen`, `flock`, `fprintf` and
    `fflush`; `daemon_init` has returned 0, with the line written or not, or a failure, or 0 at
    once in the foreground. -/
inductive Pc
  | forking
  | forked
  | leading
  | reforked (returned : Int)
  | opening
  | wrapping
  | locking
  | printing
  | flushing
  | daemon (written : Bool)
  | failed (result : Int)
  | foreground
  deriving DecidableEq, Repr

/-- A process that some call of `daemon_init` led to, with its variable `pid`, whether it
    leads a session, the file open at `pid_fd`, and what is printed to `pfile`. -/
structure Proc where
  call : Nat
  pc : Pc
  pid : Int
  leader : Bool
  pid_fd : Option Nat
  pfile : Text
  deriving DecidableEq, Repr

/-- The processes, the file that the name of the pid file stands for, and for each file its
    content and the process that has locked it. -/
structure World where
  proc : Pid → Option Proc
  calls : Nat
  pidfile : Option Nat
  files : Nat
  content : Nat → Text
  lock : Nat → Option Pid

def World.initial : World := ⟨fun _ => none,0,none,0,fun _ => [],fun _ => none⟩

/-- The system calls, with what they may return, in the order of the source; a process is
    started, or ends at any time. -/
inductive Action
  | start (p : Pid) (mode : Int)
  | fork (p : Pid) (child : Option Pid)
  | test (p : Pid)
  | open_pidfile (p : Pid) (opened : Bool)
  | fdopen (p : Pid) (opened : Bool)
  | flock (p : Pid) (granted : Bool)
  | fprintf (p : Pid)
  | fflush (p : Pid) (written : Bool)
  | exit (p : Pid)
  | daemon_exit
  deriving DecidableEq, Repr

/-! ### The system calls -/

namespace World

def put (w : World) (p : Pid) (P : Proc) : World := { w with proc := Function.update w.proc p (some P) }

/-- A process ends, and its locks with it. -/
def drop (w : World) (p : Pid) : World :=
  { w with
    proc := Function.update w.proc p none
    lock := fun i => if w.lock i = some p then none else w.lock i }

end World

/-- `fprintf(pfile, "%d\n", pid)`. -/
def line (p : Pid) : Text := decimal p ++ [10]

/-- What a write at the beginning of a file leaves; `fdopen` with `w+` does not cut it off. -/
def overwrite (old new : Text) : Text := new ++ old.drop new.length

/-- A process behind `fork`, with what it returned. -/
def Proc.returns (P : Proc) (returned : Int) : Option Proc :=
  match P.pc with
  | .forking => some { P with pc := .forked, pid := returned }
  | .leading => some { P with pc := .reforked returned }
  | _ => none

def fork (w : World) (p : Pid) (P : Proc) : Option Pid → Option World
  | none => (P.returns (-1)).map fun parent => w.put p parent
  | some c =>
    if c = 0 ∨ w.proc c ≠ none then none
    else (P.returns c).bind fun parent => (P.returns 0).map fun child =>
      (w.put p parent).put c { child with leader := false }

/-- `if ((pid = fork()) != 0) exit(0)`, and `if ((pid == fork()) != 0) exit(0)`. -/
def test (w : World) (p : Pid) (P : Proc) : Option World :=
  match P.pc with
  | .forked => if P.pid ≠ 0 then some (w.drop p) else some (w.put p { P with pc := .leading, leader := true })
  | .reforked returned => if P.pid = returned then some (w.drop p) else some (w.put p { P with pc := .opening })
  | _ => none

def open_pidfile (w : World) (p : Pid) (P : Proc) (opened : Bool) : Option World :=
  match P.pc with
  | .opening =>
    if opened then
      match w.pidfile with
      | some i => some (w.put p { P with pc := .wrapping, pid_fd := some i })
      | none => some { w.put p { P with pc := .wrapping, pid_fd := some w.files } with
          pidfile := some w.files
          files := w.files + 1
          content := Function.update w.content w.files [] }
    else some (w.put p { P with pc := .failed (-1) })
  | _ => none

def fdopen (w : World) (p : Pid) (P : Proc) (opened : Bool) : Option World :=
  match P.pc with
  | .wrapping => some (w.put p { P with pc := if opened then .locking else .failed (-2) })
  | _ => none

/-- `flock(pid_fd, LOCK_EX|LOCK_NB)`. -/
def flock (w : World) (p : Pid) (P : Proc) (granted : Bool) : Option World :=
  match P.pc, P.pid_fd with
  | .locking, some i =>
    if granted ∧ w.lock i = none then
      some { w.put p { P with pc := .printing } with lock := Function.update w.lock i (some p) }
    else some (w.put p { P with pc := .failed (-3) })
  | _, _ => none

def fprintf (w : World) (p : Pid) (P : Proc) : Option World :=
  match P.pc with
  | .printing => some (w.put p { P with pc := .flushing, pid := p, pfile := line p })
  | _ => none

/-- The result of `fflush` is not looked at. -/
def fflush (w : World) (p : Pid) (P : Proc) (written : Bool) : Option World :=
  match P.pc, P.pid_fd with
  | .flushing, some i =>
    if written then
      some { w.put p { P with pc := .daemon true, pfile := [] } with
        content := Function.update w.content i (overwrite (w.content i) P.pfile) }
    else some (w.put p { P with pc := .daemon false })
  | _, _ => none

def start (w : World) (p : Pid) (mode : Int) : Option World :=
  if p = 0 ∨ w.proc p ≠ none then none
  else some { w.put p ⟨w.calls,if mode = 0 then .foreground else .forking,0,false,none,[]⟩ with calls := w.calls + 1 }

def next (w : World) : Action → Option World
  | .start p mode => start w p mode
  | .fork p child => (w.proc p).bind fun P => fork w p P child
  | .test p => (w.proc p).bind fun P => test w p P
  | .open_pidfile p opened => (w.proc p).bind fun P => open_pidfile w p P opened
  | .fdopen p opened => (w.proc p).bind fun P => fdopen w p P opened
  | .flock p granted => (w.proc p).bind fun P => flock w p P granted
  | .fprintf p => (w.proc p).bind fun P => fprintf w p P
  | .fflush p written => (w.proc p).bind fun P => fflush w p P written
  | .exit p => (w.proc p).map fun _ => w.drop p
  | .daemon_exit => w.pidfile.map fun _ => { w with pidfile := none }

def step (w : World) (a : Action) : Except Unit World :=
  match next w a with
  | some t => .ok t
  | none => .error ()

/-! ### Places -/

/-- The process has the forks behind it. -/
def Pc.past : Pc → Bool
  | .opening | .wrapping | .locking | .printing | .flushing | .daemon _ | .failed _ => true
  | .forking | .forked | .leading | .reforked _ | .foreground => false

/-- The process has locked its file. -/
def Pc.holds : Pc → Bool
  | .printing | .flushing | .daemon _ => true
  | _ => false

/-- The process ends at the test where it stands. -/
def Proc.doomed (P : Proc) : Bool :=
  match P.pc with
  | .forked => P.pid ≠ 0
  | .reforked returned => P.pid = returned
  | _ => false

/-! ### What holds of every process -/

/-- What the place of a process says of its variables, its lock and its file. -/
structure Proper (w : World) (p : Pid) (P : Proc) : Prop where
  counted : P.call < w.calls
  zero : (P.pc = .leading ∨ ∃ r, P.pc = .reforked r) → P.pid = 0
  leads : (P.pc = .leading ∨ P.pc.past = true ∨ ∃ r, P.pc = .reforked r ∧ r ≠ 0) → P.leader = true
  file : ∀ i, P.pid_fd = some i → i < w.files
  held : P.pc.holds = true → ∃ i, P.pid_fd = some i ∧ w.lock i = some p
  printed : P.pc = .flushing → P.pfile = line p
  written : P.pc = .daemon true → ∃ i rest, P.pid_fd = some i ∧ w.content i = line p ++ rest

/-- Every process is proper, and of those of one call all but one end at their test. Where
    some process of a call has come behind the forks before, that is the only one. -/
structure Sound (crossed : Nat → Pid → Prop) (w : World) : Prop where
  proper : ∀ p P, w.proc p = some P → Proper w p P
  single : ∀ p q P Q, w.proc p = some P → w.proc q = some Q → P.call = Q.call → P.doomed = false → Q.doomed = false → p = q
  named : ∀ i, w.pidfile = some i → i < w.files
  ended : ∀ k p, crossed k p → k < w.calls ∧
    ∀ q Q, w.proc q = some Q → Q.call = k → Q.doomed = false → q = p ∧ Q.pc.past = true

section
variable {crossed : Nat → Pid → Prop} {w t : World} {p q : Pid} {P P' Q : Proc} {a : Action}

/-- A process stays as it is through steps of others. -/
theorem Proper.frame (proper : Proper w q Q) (calls : w.calls ≤ t.calls) (files : w.files ≤ t.files)
    (lock : ∀ i, w.lock i = some q → t.lock i = some q)
    (content : ∀ i, i < w.files → w.lock i = some q → t.content i = w.content i) : Proper t q Q where
  counted := lt_of_lt_of_le proper.counted calls
  zero := proper.zero
  leads := proper.leads
  file := fun i opened => lt_of_lt_of_le (proper.file i opened) files
  held := by
    intro holds
    obtain ⟨i, opened, locked⟩ := proper.held holds
    exact ⟨i, opened, lock i locked⟩
  printed := proper.printed
  written := by
    intro daemon
    obtain ⟨i, opened, locked⟩ := proper.held (by rw [daemon]; rfl)
    obtain ⟨j, rest, same, line⟩ := proper.written daemon
    obtain rfl : i = j := Option.some.inj (opened.symm.trans same)
    exact ⟨i, rest, opened, by rw [content i (proper.file i opened) locked, line]⟩

/-- One process goes on; what the others have locked is not touched. -/
theorem sound_put (sound : Sound crossed w) (here : w.proc p = some P) (procs : t.proc = Function.update w.proc p (some P'))
    (calls : t.calls = w.calls) (files : w.files ≤ t.files) (named : ∀ i, t.pidfile = some i → i < t.files)
    (lock : ∀ q i, q ≠ p → w.lock i = some q → t.lock i = some q)
    (content : ∀ q i, q ≠ p → i < w.files → w.lock i = some q → t.content i = w.content i) (proper : Proper t p P')
    (same : P'.call = P.call) (ends : P.doomed = true → P'.doomed = true) (past : P.pc.past = true → P'.pc.past = true) :
    Sound crossed t := by
  have back : ∀ q Q, t.proc q = some Q → Q.doomed = false →
      ∃ R, w.proc q = some R ∧ R.call = Q.call ∧ R.doomed = false ∧ (R.pc.past = true → Q.pc.past = true) := by
    intro q Q there going
    rw [procs] at there
    by_cases own : q = p
    · subst own
      rw [Function.update_self] at there
      obtain rfl : P' = Q := Option.some.inj there
      refine ⟨P, here, same.symm, ?_, past⟩
      by_contra doomed
      rw [ends (by simpa using doomed)] at going
      cases going
    · rw [Function.update_of_ne own] at there
      exact ⟨Q, there, rfl, going, id⟩
  constructor
  · intro q Q there
    rw [procs] at there
    by_cases own : q = p
    · subst own
      rw [Function.update_self] at there
      exact Option.some.inj there ▸ proper
    · rw [Function.update_of_ne own] at there
      exact (sound.proper q Q there).frame calls.ge files (fun i => lock q i own) (fun i => content q i own)
  · intro q r Q R left right calls going stays
    obtain ⟨Q', left', callQ, goingQ, -⟩ := back q Q left going
    obtain ⟨R', right', callR, goingR, -⟩ := back r R right stays
    exact sound.single q r Q' R' left' right' (by rw [callQ, callR, calls]) goingQ goingR
  · exact named
  · intro k r came
    obtain ⟨known, only⟩ := sound.ended k r came
    refine ⟨known.trans_eq calls.symm, fun q Q there own going => ?_⟩
    obtain ⟨R, here, call, stays, past⟩ := back q Q there going
    obtain ⟨same, behind⟩ := only q R here (call.trans own) stays
    exact ⟨same, past behind⟩

theorem sound_drop (sound : Sound crossed w) (p : Pid) : Sound crossed (w.drop p) := by
  have back : ∀ q Q, (w.drop p).proc q = some Q → q ≠ p ∧ w.proc q = some Q := by
    intro q Q there
    by_cases own : q = p
    · subst own
      simp [World.drop] at there
    · exact ⟨own, by simpa [World.drop, Function.update_of_ne own] using there⟩
  constructor
  · intro q Q there
    obtain ⟨other, before⟩ := back q Q there
    refine (sound.proper q Q before).frame le_rfl le_rfl ?_ fun _ _ _ => rfl
    intro i locked
    have unlike : ¬ some q = some p := fun same => other (Option.some.inj same)
    simp [World.drop, locked, unlike]
  · intro q r Q R left right
    exact sound.single q r Q R (back q Q left).2 (back r R right).2
  · exact sound.named
  · intro k r came
    obtain ⟨known, only⟩ := sound.ended k r came
    exact ⟨known, fun q Q there => only q Q (back q Q there).2⟩

theorem sound_start {mode : Int} (sound : Sound crossed w) (started : start w p mode = some t) : Sound crossed t := by
  unfold start at started
  split at started
  · cases started
  rename_i free
  have free : w.proc p = none := by
    by_contra some
    exact free (.inr some)
  obtain rfl := Option.some.inj started
  -- no other process comes from the new call
  have old : ∀ q Q, Function.update w.proc p (some ⟨w.calls,if mode = 0 then .foreground else .forking,0,false,none,[]⟩) q = some Q →
      q = p ∧ Q.call = w.calls ∨ q ≠ p ∧ w.proc q = some Q ∧ Q.call < w.calls := by
    intro q Q there
    by_cases own : q = p
    · subst own
      rw [Function.update_self] at there
      exact .inl ⟨rfl, by rw [← Option.some.inj there]⟩
    · rw [Function.update_of_ne own] at there
      exact .inr ⟨own, there, (sound.proper q Q there).counted⟩
  constructor
  · intro q Q there
    by_cases own : q = p
    · subst own
      simp only [World.put, Function.update_self] at there
      obtain rfl := Option.some.inj there
      by_cases foreground : mode = 0 <;>
        exact ⟨Nat.lt_succ_self _, by simp [foreground], by simp [foreground, Pc.past], by simp, by simp [foreground, Pc.holds],
          by simp [foreground], by simp [foreground]⟩
    · simp only [World.put, Function.update_of_ne own] at there
      exact (sound.proper q Q there).frame (Nat.le_succ _) le_rfl (fun _ locked => locked) fun _ _ _ => rfl
  · intro q r Q R left right calls going stays
    rcases old q Q left with ⟨rfl, newQ⟩ | ⟨-, before, oldQ⟩ <;> rcases old r R right with ⟨rfl, newR⟩ | ⟨-, after, oldR⟩
    · rfl
    · omega
    · omega
    · exact sound.single q r Q R before after calls going stays
  · exact sound.named
  · intro k r came
    obtain ⟨known, only⟩ := sound.ended k r came
    refine ⟨Nat.lt_succ_of_lt known, fun q Q there own going => ?_⟩
    rcases old q Q there with ⟨-, new⟩ | ⟨-, earlier, -⟩
    · omega
    · exact only q Q earlier own going

/-- A process that is at none of the tests. -/
theorem going_of (stands : P.pc ≠ .forked) (waits : ∀ r, P.pc ≠ .reforked r) : P.doomed = false := by
  unfold Proc.doomed
  split
  · rename_i here; exact absurd here stands
  · rename_i r here; exact absurd here (waits r)
  · rfl

theorem returns_cases {returned : Int} (returns : P.returns returned = some P') :
    P.pc = .forking ∧ P' = { P with pc := .forked, pid := returned } ∨
      P.pc = .leading ∧ P' = { P with pc := .reforked returned } := by
  unfold Proc.returns at returns
  split at returns
  · rename_i here; exact .inl ⟨here, (Option.some.inj returns).symm⟩
  · rename_i here; exact .inr ⟨here, (Option.some.inj returns).symm⟩
  · cases returns

/-- The parent behind a fork. -/
theorem proper_parent {returned : Int} (proper : Proper w p P) (returns : P.returns returned = some P') :
    Proper w p P' ∧ P'.call = P.call ∧ P.doomed = false ∧ P.pc.past = false := by
  rcases returns_cases returns with ⟨here, rfl⟩ | ⟨here, rfl⟩
  · exact ⟨⟨proper.counted, by simp, by simp [Pc.past], proper.file, by simp [Pc.holds], by simp, by simp⟩, rfl,
      going_of (by simp [here]) (by simp [here]), by rw [here]; rfl⟩
  · refine ⟨⟨proper.counted, fun _ => proper.zero (.inl here), fun _ => proper.leads (.inl here), proper.file,
      by simp [Pc.holds], by simp, by simp⟩, rfl, going_of (by simp [here]) (by simp [here]), by rw [here]; rfl⟩

theorem sound_fork {child : Option Pid} (sound : Sound crossed w) (here : w.proc p = some P) (forked : fork w p P child = some t) :
    Sound crossed t := by
  cases child with
  | none =>
    obtain ⟨parent, returns, rfl⟩ := Option.map_eq_some_iff.mp forked
    obtain ⟨proper, same, going, ahead⟩ := proper_parent (sound.proper p P here) returns
    refine sound_put sound here rfl rfl le_rfl sound.named (fun _ _ _ locked => locked) (fun _ _ _ _ _ => rfl) ?_ same (by simp [going])
      (by simp [ahead])
    exact proper.frame le_rfl le_rfl (fun _ locked => locked) fun _ _ _ => rfl
  | some c =>
    simp only [fork] at forked
    split at forked
    · cases forked
    rename_i free
    obtain ⟨nonzero, free⟩ := not_or.mp free
    have free : w.proc c = none := by simpa using free
    obtain ⟨parent, returns, forked⟩ := Option.bind_eq_some_iff.mp forked
    obtain ⟨child, zero, rfl⟩ := Option.map_eq_some_iff.mp forked
    obtain ⟨proper, same, going, ahead⟩ := proper_parent (sound.proper p P here) returns
    have other : c ≠ p := by
      rintro rfl
      rw [here] at free
      cases free
    have after : Sound crossed (w.put p parent) :=
      sound_put sound here rfl rfl le_rfl sound.named (fun _ _ _ locked => locked) (fun _ _ _ _ _ => rfl)
        (proper.frame le_rfl le_rfl (fun _ locked => locked) fun _ _ _ => rfl) same (by simp [going]) (by simp [ahead])
    have own : (w.put p parent).proc p = some parent := Function.update_self ..
    -- of the two processes behind a fork, one ends at its test
    have one : parent.doomed = true ∨ ({ child with leader := false } : Proc).doomed = true := by
      rcases returns_cases returns with ⟨stands, rfl⟩ | ⟨stands, rfl⟩
      · left
        simpa [Proc.doomed] using nonzero
      · right
        rcases returns_cases zero with ⟨elsewhere, -⟩ | ⟨-, rfl⟩
        · rw [stands] at elsewhere
          cases elsewhere
        · simpa [Proc.doomed] using (sound.proper p P here).zero (.inl stands)
    have call : child.call = parent.call := by
      rcases returns_cases zero with ⟨-, rfl⟩ | ⟨-, rfl⟩ <;> exact same.symm
    have back : ∀ q Q, ((w.put p parent).put c { child with leader := false }).proc q = some Q → Q.doomed = false →
        q = c ∧ Q.call = parent.call ∧ parent.doomed = true ∨ q ≠ c ∧ (w.put p parent).proc q = some Q := by
      intro q Q there stays
      by_cases new : q = c
      · subst new
        simp only [World.put, Function.update_self] at there
        obtain rfl := Option.some.inj there
        refine .inl ⟨rfl, call, one.resolve_right fun doomed => ?_⟩
        rw [doomed] at stays
        cases stays
      · exact .inr ⟨new, by simpa [World.put, Function.update_of_ne new] using there⟩
    constructor
    · intro q Q there
      by_cases new : q = c
      · subst new
        simp only [World.put, Function.update_self] at there
        obtain rfl := Option.some.inj there
        have before := sound.proper p P here
        rcases returns_cases zero with ⟨-, rfl⟩ | ⟨stands, rfl⟩
        · exact ⟨before.counted, by simp, by simp [Pc.past], before.file, by simp [Pc.holds], by simp, by simp⟩
        · exact ⟨before.counted, fun _ => before.zero (.inl stands), by simp [Pc.past], before.file, by simp [Pc.holds],
            by simp, by simp⟩
      · refine (after.proper q Q ?_).frame le_rfl le_rfl (fun _ locked => locked) fun _ _ _ => rfl
        simpa [World.put, Function.update_of_ne new] using there
    · -- where the child goes on, the process of the call that went on before it was its parent
      have unlike : ∀ r R, (w.put p parent).proc r = some R → R.doomed = false → R.call = parent.call →
          parent.doomed = true → False := by
        intro r R there stays calls doomed
        by_cases parental : r = p
        · subst parental
          obtain rfl := Option.some.inj (own.symm.trans there)
          rw [doomed] at stays
          cases stays
        · have before : w.proc r = some R := by simpa [World.put, Function.update_of_ne parental] using there
          exact parental (sound.single r p R P before here (calls.trans same) stays going)
      intro q r Q R left right calls goingQ goingR
      rcases back q Q left goingQ with ⟨rfl, callQ, doomed⟩ | ⟨-, leftQ⟩ <;>
        rcases back r R right goingR with ⟨rfl, callR, doomed'⟩ | ⟨-, rightR⟩
      · rfl
      · exact (unlike r R rightR goingR (calls.symm.trans callQ) doomed).elim
      · exact (unlike q Q leftQ goingQ (calls.trans callR) doomed').elim
      · exact after.single q r Q R leftQ rightR calls goingQ goingR
    · exact after.named
    · -- a process that forks is not behind the forks
      intro k r came
      obtain ⟨known, only⟩ := after.ended k r came
      refine ⟨known, fun q Q there own stays => ?_⟩
      rcases back q Q there stays with ⟨-, called, -⟩ | ⟨-, earlier⟩
      · have behind := ((sound.ended k r came).2 p P here (by rw [← same, ← called, own]) going).2
        rw [ahead] at behind
        cases behind
      · exact only q Q earlier own stays

theorem sound_test (sound : Sound crossed w) (here : w.proc p = some P) (tested : test w p P = some t) : Sound crossed t := by
  have proper := sound.proper p P here
  unfold test at tested
  split at tested
  · rename_i stands
    split at tested
    · exact Option.some.inj tested ▸ sound_drop sound p
    · rename_i zero
      obtain rfl := Option.some.inj tested
      have zero : P.pid = 0 := by simpa using zero
      refine sound_put sound here rfl rfl le_rfl sound.named (fun _ _ _ locked => locked) (fun _ _ _ _ _ => rfl) ?_ rfl ?_
        (by simp [stands, Pc.past])
      · exact ⟨proper.counted, fun _ => zero, fun _ => rfl, proper.file, by simp [Pc.holds], by simp, by simp⟩
      · simp [Proc.doomed, stands, zero]
  · rename_i returned stands
    split at tested
    · exact Option.some.inj tested ▸ sound_drop sound p
    · rename_i other
      obtain rfl := Option.some.inj tested
      have zero := proper.zero (.inr ⟨returned, stands⟩)
      refine sound_put sound here rfl rfl le_rfl sound.named (fun _ _ _ locked => locked) (fun _ _ _ _ _ => rfl) ?_ rfl ?_
        fun _ => rfl
      · refine ⟨proper.counted, by simp, fun _ => ?_, proper.file, by simp [Pc.holds], by simp, by simp⟩
        exact proper.leads (.inr (.inr ⟨returned, stands, fun none => other (zero.trans none.symm)⟩))
      · simp [Proc.doomed, stands, other]
  · cases tested

theorem sound_open {opened : Bool} (sound : Sound crossed w) (here : w.proc p = some P) (done : open_pidfile w p P opened = some t) :
    Sound crossed t := by
  have proper := sound.proper p P here
  unfold open_pidfile at done
  split at done
  · rename_i stands
    have leads : P.leader = true := proper.leads (.inr (.inl (by rw [stands]; rfl)))
    have going : P.doomed = false := going_of (by simp [stands]) (by simp [stands])
    split at done
    · split at done
      · rename_i i there
        obtain rfl := Option.some.inj done
        refine sound_put sound here rfl rfl le_rfl sound.named (fun _ _ _ locked => locked) (fun _ _ _ _ _ => rfl) ?_ rfl
          (by simp [going]) fun _ => rfl
        refine ⟨proper.counted, by simp, fun _ => leads, ?_, by simp [Pc.holds], by simp, by simp⟩
        intro j same
        exact Option.some.inj same ▸ sound.named i there
      · obtain rfl := Option.some.inj done
        refine sound_put sound here rfl rfl (Nat.le_succ _) (by simp) (fun _ _ _ locked => locked) ?_ ?_ rfl (by simp [going])
          fun _ => rfl
        · exact fun q i _ small _ => Function.update_of_ne (Nat.ne_of_lt small) _ _
        · exact ⟨proper.counted, by simp, fun _ => leads, by simp, by simp [Pc.holds], by simp, by simp⟩
    · obtain rfl := Option.some.inj done
      refine sound_put sound here rfl rfl le_rfl sound.named (fun _ _ _ locked => locked) (fun _ _ _ _ _ => rfl) ?_ rfl
        (by simp [going]) fun _ => rfl
      exact ⟨proper.counted, by simp, fun _ => leads, proper.file, by simp [Pc.holds], by simp, by simp⟩
  · cases done

theorem sound_fdopen {opened : Bool} (sound : Sound crossed w) (here : w.proc p = some P) (done : fdopen w p P opened = some t) :
    Sound crossed t := by
  have proper := sound.proper p P here
  unfold fdopen at done
  split at done
  · rename_i stands
    have leads : P.leader = true := proper.leads (.inr (.inl (by rw [stands]; rfl)))
    obtain rfl := Option.some.inj done
    refine sound_put sound here rfl rfl le_rfl sound.named (fun _ _ _ locked => locked) (fun _ _ _ _ _ => rfl) ?_ rfl ?_
      (by cases opened <;> exact fun _ => rfl)
    · cases opened <;>
        exact ⟨proper.counted, by simp, fun _ => leads, proper.file, by simp [Pc.holds], by simp, by simp⟩
    · rw [going_of (by simp [stands]) (by simp [stands])]
      simp
  · cases done

theorem sound_flock {granted : Bool} (sound : Sound crossed w) (here : w.proc p = some P) (done : flock w p P granted = some t) :
    Sound crossed t := by
  have proper := sound.proper p P here
  unfold flock at done
  split at done
  · rename_i i stands opened
    have leads : P.leader = true := proper.leads (.inr (.inl (by rw [stands]; rfl)))
    have going : P.doomed = false := going_of (by simp [stands]) (by simp [stands])
    split at done
    · rename_i free
      obtain rfl := Option.some.inj done
      refine sound_put sound here rfl rfl le_rfl sound.named ?_ (fun _ _ _ _ _ => rfl) ?_ rfl (by simp [going])
        fun _ => rfl
      · intro q j _ locked
        have other : j ≠ i := by
          rintro rfl
          rw [free.2] at locked
          cases locked
        exact (Function.update_of_ne other _ _).trans locked
      · exact ⟨proper.counted, by simp, fun _ => leads, proper.file, fun _ => ⟨i, opened, Function.update_self ..⟩, by simp,
          by simp⟩
    · obtain rfl := Option.some.inj done
      refine sound_put sound here rfl rfl le_rfl sound.named (fun _ _ _ locked => locked) (fun _ _ _ _ _ => rfl) ?_ rfl
        (by simp [going]) fun _ => rfl
      exact ⟨proper.counted, by simp, fun _ => leads, proper.file, by simp [Pc.holds], by simp, by simp⟩
  · cases done

theorem sound_fprintf (sound : Sound crossed w) (here : w.proc p = some P) (done : fprintf w p P = some t) : Sound crossed t := by
  have proper := sound.proper p P here
  unfold fprintf at done
  split at done
  · rename_i stands
    have leads : P.leader = true := proper.leads (.inr (.inl (by rw [stands]; rfl)))
    have held := proper.held (by rw [stands]; rfl)
    obtain rfl := Option.some.inj done
    refine sound_put sound here rfl rfl le_rfl sound.named (fun _ _ _ locked => locked) (fun _ _ _ _ _ => rfl) ?_ rfl ?_
      fun _ => rfl
    · exact ⟨proper.counted, by simp, fun _ => leads, proper.file, fun _ => held, fun _ => rfl, by simp⟩
    · rw [going_of (by simp [stands]) (by simp [stands])]
      simp
  · cases done

theorem sound_fflush {written : Bool} (sound : Sound crossed w) (here : w.proc p = some P) (done : fflush w p P written = some t) :
    Sound crossed t := by
  have proper := sound.proper p P here
  unfold fflush at done
  split at done
  · rename_i i stands opened
    have leads : P.leader = true := proper.leads (.inr (.inl (by rw [stands]; rfl)))
    have held := proper.held (by rw [stands]; rfl)
    have going : P.doomed = false := going_of (by simp [stands]) (by simp [stands])
    split at done
    · obtain rfl := Option.some.inj done
      refine sound_put sound here rfl rfl le_rfl sound.named (fun _ _ _ locked => locked) ?_ ?_ rfl (by simp [going])
        fun _ => rfl
      · intro q j other _ locked
        obtain ⟨k, same, own⟩ := held
        obtain rfl : i = k := Option.some.inj (opened.symm.trans same)
        refine Function.update_of_ne ?_ _ _
        rintro rfl
        exact other (Option.some.inj (locked.symm.trans own))
      · refine ⟨proper.counted, by simp, fun _ => leads, proper.file, fun _ => held, by simp, fun _ => ?_⟩
        refine ⟨i, (w.content i).drop (line p).length, opened, ?_⟩
        rw [← proper.printed stands]
        exact Function.update_self ..
    · obtain rfl := Option.some.inj done
      refine sound_put sound here rfl rfl le_rfl sound.named (fun _ _ _ locked => locked) (fun _ _ _ _ _ => rfl) ?_ rfl
        (by simp [going]) fun _ => rfl
      exact ⟨proper.counted, by simp, fun _ => leads, proper.file, fun _ => held, by simp, by simp⟩
  · cases done

theorem step_next (stepped : step w a = .ok t) : next w a = some t := by
  unfold step at stepped
  split at stepped
  · rename_i u moved
    rw [moved, Except.ok.inj stepped]
  · cases stepped

theorem sound_step (sound : Sound crossed w) (stepped : step w a = .ok t) : Sound crossed t := by
  have moved := step_next stepped
  cases a with
  | start p mode => exact sound_start sound moved
  | fork p child =>
    obtain ⟨P, here, done⟩ := Option.bind_eq_some_iff.mp moved
    exact sound_fork sound here done
  | test p =>
    obtain ⟨P, here, done⟩ := Option.bind_eq_some_iff.mp moved
    exact sound_test sound here done
  | open_pidfile p opened =>
    obtain ⟨P, here, done⟩ := Option.bind_eq_some_iff.mp moved
    exact sound_open sound here done
  | fdopen p opened =>
    obtain ⟨P, here, done⟩ := Option.bind_eq_some_iff.mp moved
    exact sound_fdopen sound here done
  | flock p granted =>
    obtain ⟨P, here, done⟩ := Option.bind_eq_some_iff.mp moved
    exact sound_flock sound here done
  | fprintf p =>
    obtain ⟨P, here, done⟩ := Option.bind_eq_some_iff.mp moved
    exact sound_fprintf sound here done
  | fflush p written =>
    obtain ⟨P, here, done⟩ := Option.bind_eq_some_iff.mp moved
    exact sound_fflush sound here done
  | exit p =>
    obtain ⟨P, here, rfl⟩ := Option.map_eq_some_iff.mp moved
    exact sound_drop sound p
  | daemon_exit =>
    obtain ⟨i, there, rfl⟩ := Option.map_eq_some_iff.mp moved
    exact ⟨fun q Q at_q => (sound.proper q Q at_q).frame le_rfl le_rfl (fun _ locked => locked) fun _ _ _ => rfl,
      sound.single, by simp, sound.ended⟩

theorem sound_later {ms : List (Move World Action)} (run : Run (Succeeds step) w ms t) (sound : Sound crossed w) :
    Sound crossed t :=
  (run.inductive_invariant (fun _ _ _ sound stepped => sound_step sound stepped) sound).2

theorem sound_run {ms : List (Move World Action)} (run : Run (Succeeds step) .initial ms t) :
    Sound (fun _ _ => False) t :=
  sound_later run ⟨by simp [World.initial], by simp [World.initial], by simp [World.initial], by simp⟩

/-! ### The forks -/

/-- A process that has the forks behind it does not end at a test. -/
theorem going_of_past (past : P.pc.past = true) : P.doomed = false := by
  refine going_of ?_ ?_
  · intro stands
    rw [stands] at past
    cases past
  · intro returned stands
    rw [stands] at past
    cases past

/-- The processes that had the forks of their calls behind them at `s` are the only ones of
    these calls, then and later. -/
theorem Sound.crossing {s : World} (sound : Sound (fun _ _ => False) s) :
    Sound (fun k p => ∃ P, s.proc p = some P ∧ P.call = k ∧ P.pc.past = true) s where
  proper := sound.proper
  single := sound.single
  named := sound.named
  ended := by
    rintro k p ⟨P, here, rfl, past⟩
    refine ⟨(sound.proper p P here).counted, fun q Q there own going => ?_⟩
    obtain rfl := sound.single q p Q P there here own going (going_of_past past)
    obtain rfl := Option.some.inj (here.symm.trans there)
    exact ⟨rfl, past⟩

/-- In a whole run at most one process of a call ever has the forks behind it: where one is
    there at `s` and one at any later `t`, they are the same. It leads its session. At the
    test behind the second fork it is the child that ends, and not its parent. -/
theorem daemon_forks {front back : List (Move World Action)} {s : World} (earlier : Run (Succeeds step) .initial front s)
    (later : Run (Succeeds step) s back t) :
    (∀ p q P Q, s.proc p = some P → t.proc q = some Q → P.call = Q.call → P.pc.past = true → Q.pc.past = true → p = q) ∧
      (∀ p P, t.proc p = some P → P.pc.past = true → P.leader = true) ∧
        ∀ p P returned, t.proc p = some P → P.pc = .reforked returned →
          ∃ u, step t (.test p) = .ok u ∧ (returned = 0 → u.proc p = none) ∧
            (returned ≠ 0 → u.proc p = some { P with pc := .opening } ∧ P.leader = true) := by
  have sound := sound_later later (sound_run earlier).crossing
  refine ⟨?_, ?_, ?_⟩
  · intro p q P Q left right calls past now
    obtain ⟨-, only⟩ := sound.ended Q.call p ⟨P, left, calls, past⟩
    exact (only q Q right rfl (going_of_past now)).1.symm
  · exact fun p P here past => (sound.proper p P here).leads (.inr (.inl past))
  · intro p P returned here stands
    have proper := sound.proper p P here
    have zero : P.pid = 0 := proper.zero (.inr ⟨returned, stands⟩)
    by_cases child : returned = 0
    · have tested : step t (.test p) = .ok (t.drop p) := by simp [step, next, test, here, stands, zero, child]
      exact ⟨_, tested, fun _ => Function.update_self .., fun parent => absurd child parent⟩
    · have tested : step t (.test p) = .ok (t.put p { P with pc := .opening }) := by
        simp [step, next, test, here, stands, zero, Ne.symm child]
      exact ⟨_, tested, fun none => absurd none child,
        fun _ => ⟨Function.update_self .., proper.leads (.inr (.inr ⟨returned, stands, child⟩))⟩⟩

/-- A call of `daemon_init` that leads to a daemon. -/
def daemonizing (p first second : Pid) : List Action :=
  [.start p 1, .fork p (some first), .test p, .test first, .fork first (some second), .test first, .test second,
    .open_pidfile first true, .fdopen first true, .flock first true, .fprintf first, .fflush first true]

/-- A daemon is killed; of two that are started after it the second is refused the lock, and
    the processes of a third stand behind its second fork. -/
def succession : List Action :=
  [.exit 4096] ++ daemonizing 5 67 7 ++ (daemonizing 8 9 10).take 10 ++ (daemonizing 11 12 13).take 5

/-- The first daemon, 4096, is the only process that its call leaves behind, though it is
    gone in the end. Of 12 and its child 13 it is the child that ends. -/
theorem daemon_forks_succession :
    let s := final step .initial (daemonizing 1 4096 3)
    let t := final step s succession
    (∀ q Q, t.proc q = some Q → Q.call = 0 → Q.pc.past = true → 4096 = q) ∧ (t.proc 67).map Proc.leader = some true ∧
      (∃ u, step t (.test 13) = .ok u ∧ u.proc 13 = none) ∧
        ∃ u, step t (.test 12) = .ok u ∧ (u.proc 12).map Proc.pc = some .opening := by
  intro s t
  have earlier : Run (Succeeds step) .initial _ s := run_final step (by decide +kernel)
  have later : Run (Succeeds step) s _ t := run_final step (by decide +kernel)
  obtain ⟨only, leads, tests⟩ := daemon_forks earlier later
  have daemon : (s.proc 4096).map (fun P => (P.call, P.pc)) = some (0, .daemon true) := by decide +kernel
  obtain ⟨P, here, place⟩ := Option.map_eq_some_iff.mp daemon
  obtain ⟨call, pc⟩ := Prod.mk.inj place
  have runs : (t.proc 67).map Proc.pc = some (.daemon true) := by decide +kernel
  obtain ⟨D, there, behind⟩ := Option.map_eq_some_iff.mp runs
  have child : (t.proc 13).map Proc.pc = some (.reforked 0) := by decide +kernel
  obtain ⟨C, at_child, zero⟩ := Option.map_eq_some_iff.mp child
  have parent : (t.proc 12).map Proc.pc = some (.reforked 13) := by decide +kernel
  obtain ⟨R, at_parent, returned⟩ := Option.map_eq_some_iff.mp parent
  refine ⟨?_, ?_, ?_, ?_⟩
  · exact fun q Q now own past => only 4096 q P Q here now (call.trans own.symm) (by rw [pc]; rfl) past
  · rw [there, Option.map_some, leads 67 D there (by rw [behind]; rfl)]
  · obtain ⟨u, tested, ends, -⟩ := tests 13 C 0 at_child zero
    exact ⟨u, tested, ends rfl⟩
  · obtain ⟨u, tested, -, goes⟩ := tests 12 R 13 at_parent returned
    exact ⟨u, tested, by rw [(goes (by decide)).1]; rfl⟩

/-! ### The pid file -/

/-- Every file that is open is the one that the name stands for. -/
def Anchored (w : World) : Prop := ∀ p P i, w.proc p = some P → P.pid_fd = some i → w.pidfile = some i

theorem anchored_put (anchored : Anchored w) (procs : t.proc = Function.update w.proc p (some P))
    (name : ∀ i, w.pidfile = some i → t.pidfile = some i) (own : ∀ i, P.pid_fd = some i → t.pidfile = some i) :
    Anchored t := by
  intro q Q i there opened
  rw [procs] at there
  by_cases same : q = p
  · subst same
    rw [Function.update_self] at there
    obtain rfl := Option.some.inj there
    exact own i opened
  · rw [Function.update_of_ne same] at there
    exact name i (anchored q Q i there opened)

theorem anchored_drop (anchored : Anchored w) (p : Pid) : Anchored (w.drop p) := by
  intro q Q i there opened
  by_cases own : q = p
  · subst own
    simp [World.drop] at there
  · exact anchored q Q i (by simpa [World.drop, Function.update_of_ne own] using there) opened

/-- Only `daemon_exit` takes the name from a file that is open. -/
theorem anchored_step (anchored : Anchored w) (keeps : a ≠ .daemon_exit) (stepped : step w a = .ok t) : Anchored t := by
  have moved := step_next stepped
  cases a with
  | start p mode =>
    simp only [next, start] at moved
    split at moved
    · cases moved
    · exact Option.some.inj moved ▸ anchored_put anchored rfl (fun _ named => named) (by simp)
  | fork p child =>
    obtain ⟨P, here, done⟩ := Option.bind_eq_some_iff.mp moved
    have copies : ∀ {returned Q}, P.returns returned = some Q → ∀ i, Q.pid_fd = some i → w.pidfile = some i := by
      intro returned Q returns i opened
      refine anchored p P i here ?_
      rcases returns_cases returns with ⟨-, rfl⟩ | ⟨-, rfl⟩ <;> exact opened
    cases child with
    | none =>
      obtain ⟨parent, returns, rfl⟩ := Option.map_eq_some_iff.mp done
      exact anchored_put anchored rfl (fun _ named => named) (copies returns)
    | some c =>
      simp only [fork] at done
      split at done
      · cases done
      · obtain ⟨parent, returns, done⟩ := Option.bind_eq_some_iff.mp done
        obtain ⟨child, zero, rfl⟩ := Option.map_eq_some_iff.mp done
        have after : Anchored (w.put p parent) := anchored_put anchored rfl (fun _ named => named) (copies returns)
        exact anchored_put after rfl (fun _ named => named) fun i opened => copies zero i opened
  | test p =>
    obtain ⟨P, here, done⟩ := Option.bind_eq_some_iff.mp moved
    have own := anchored p P
    unfold test at done
    split at done
    · split at done
      · exact Option.some.inj done ▸ anchored_drop anchored p
      · exact Option.some.inj done ▸ anchored_put anchored rfl (fun _ named => named) fun i => own i here
    · split at done
      · exact Option.some.inj done ▸ anchored_drop anchored p
      · exact Option.some.inj done ▸ anchored_put anchored rfl (fun _ named => named) fun i => own i here
    · cases done
  | open_pidfile p opened =>
    obtain ⟨P, here, done⟩ := Option.bind_eq_some_iff.mp moved
    have own := anchored p P
    unfold open_pidfile at done
    split at done
    · split at done
      · split at done
        · rename_i i named
          refine Option.some.inj done ▸ anchored_put anchored rfl (fun _ named => named) ?_
          exact fun j same => named.trans same
        · -- a name without a file, so that no file is open
          rename_i none
          refine Option.some.inj done ▸ anchored_put anchored rfl ?_ fun _ same => same
          intro i named
          rw [none] at named
          cases named
      · exact Option.some.inj done ▸ anchored_put anchored rfl (fun _ named => named) fun i => own i here
    · cases done
  | fdopen p opened =>
    obtain ⟨P, here, done⟩ := Option.bind_eq_some_iff.mp moved
    unfold fdopen at done
    split at done
    · exact Option.some.inj done ▸ anchored_put anchored rfl (fun _ named => named) fun i => anchored p P i here
    · cases done
  | flock p granted =>
    obtain ⟨P, here, done⟩ := Option.bind_eq_some_iff.mp moved
    unfold flock at done
    split at done
    · split at done <;>
        exact Option.some.inj done ▸ anchored_put anchored rfl (fun _ named => named) fun i => anchored p P i here
    · cases done
  | fprintf p =>
    obtain ⟨P, here, done⟩ := Option.bind_eq_some_iff.mp moved
    unfold fprintf at done
    split at done
    · exact Option.some.inj done ▸ anchored_put anchored rfl (fun _ named => named) fun i => anchored p P i here
    · cases done
  | fflush p written =>
    obtain ⟨P, here, done⟩ := Option.bind_eq_some_iff.mp moved
    unfold fflush at done
    split at done
    · split at done <;>
        exact Option.some.inj done ▸ anchored_put anchored rfl (fun _ named => named) fun i => anchored p P i here
    · cases done
  | exit p =>
    obtain ⟨P, here, rfl⟩ := Option.map_eq_some_iff.mp moved
    exact anchored_drop anchored p
  | daemon_exit => exact absurd rfl keeps

/-- The first line of a file. -/
def first_line (content : Text) : Text := content.takeWhile (· ≠ 10)

theorem first_line_line (p : Pid) (rest : Text) : first_line (line p ++ rest) = decimal p := by
  have digit : ∀ b ∈ decimal p, b ≠ 10 := by
    intro b member
    have shown := isdigit_of_mem member
    rintro rfl
    exact absurd shown (by decide)
  rw [first_line, line, List.append_assoc, List.takeWhile_append_of_pos (by simpa using digit)]
  simp

/-- In every run a daemon has locked the file that it wrote its pid to, and daemons that run
    at the same time have locked different files. As long as none removes the pid file, there
    is at most one; the name is that of the file that it has locked, and the first line of
    the file is its pid if the line could be written. -/
theorem daemon_exclusive {ms : List (Move World Action)} (run : Run (Succeeds step) .initial ms t) :
    (∀ p P written, t.proc p = some P → P.pc = .daemon written → ∃ i, P.pid_fd = some i ∧ t.lock i = some p) ∧
      (∀ p q P Q left right, t.proc p = some P → t.proc q = some Q → P.pc = .daemon left → Q.pc = .daemon right →
        P.pid_fd = Q.pid_fd → p = q) ∧
        ((∀ m ∈ ms, m.act ≠ .daemon_exit) → ∀ p P written, t.proc p = some P → P.pc = .daemon written →
          (∀ q Q right, t.proc q = some Q → Q.pc = .daemon right → q = p) ∧
            ∃ i, t.pidfile = some i ∧ t.lock i = some p ∧ (written = true → first_line (t.content i) = decimal p)) := by
  have sound := sound_run run
  have locks : ∀ p P written, t.proc p = some P → P.pc = .daemon written → ∃ i, P.pid_fd = some i ∧ t.lock i = some p :=
    fun p P written here runs => (sound.proper p P here).held (by rw [runs]; rfl)
  have alone : ∀ p q P Q left right, t.proc p = some P → t.proc q = some Q → P.pc = .daemon left → Q.pc = .daemon right →
      P.pid_fd = Q.pid_fd → p = q := by
    intro p q P Q left right here there runs goes same
    obtain ⟨i, opened, locked⟩ := locks p P left here runs
    obtain ⟨j, again, relocked⟩ := locks q Q right there goes
    obtain rfl : i = j := by simpa [opened, again] using same
    exact Option.some.inj (locked.symm.trans relocked)
  refine ⟨locks, alone, ?_⟩
  intro kept p P written here runs
  have anchored : Anchored t :=
    (run.invariant (I := Anchored) (C := fun _ a => a ≠ .daemon_exit)
      (fun _ _ _ keeps anchored stepped => anchored_step anchored keeps stepped) (by simp [Anchored, World.initial]) kept).2
  obtain ⟨i, opened, locked⟩ := locks p P written here runs
  have named := anchored p P i here opened
  refine ⟨?_, i, named, locked, ?_⟩
  · intro q Q right there goes
    obtain ⟨j, again, -⟩ := locks q Q right there goes
    have same := anchored q Q j there again
    exact alone q p Q P right written there here goes runs (by rw [opened, again, ← named, ← same])
  · rintro rfl
    obtain ⟨j, rest, again, written⟩ := (sound.proper p P here).written runs
    obtain rfl : i = j := Option.some.inj (opened.symm.trans again)
    rw [written, first_line_line]

-- where a daemon is running and the pid file is removed, a second daemon runs beside it
example : let t := final step .initial (daemonizing 1 2 3 ++ [.daemon_exit] ++ daemonizing 5 6 7)
    (t.proc 2).map Proc.pc = some (.daemon true) ∧ (t.proc 6).map Proc.pc = some (.daemon true) := by
  decide +kernel

/-- The line of the first daemon is longer than that of its successor. -/
theorem daemon_exclusive_succession :
    let t := final step .initial (daemonizing 1 4096 3 ++ succession)
    t.content 0 = [54,55,10,54,10] ∧ (t.proc 9).map Proc.pc = some (.failed (-3)) ∧
      (∀ q Q right, t.proc q = some Q → Q.pc = .daemon right → q = 67) ∧
        ∃ i, t.pidfile = some i ∧ t.lock i = some 67 ∧ first_line (t.content i) = [54,55] := by
  intro t
  have run : Run (Succeeds step) .initial _ t := run_final step (by decide +kernel)
  have kept : ∀ m ∈ moves step .initial (daemonizing 1 4096 3 ++ succession), m.act ≠ .daemon_exit := by
    intro m member removes
    have listed := act_of_moves step member
    rw [removes] at listed
    exact absurd listed (by decide)
  have runs : (t.proc 67).map Proc.pc = some (.daemon true) := by decide +kernel
  obtain ⟨P, here, pc⟩ := Option.map_eq_some_iff.mp runs
  obtain ⟨alone, i, named, locked, line⟩ := (daemon_exclusive run).2.2 kept 67 P true here pc
  exact ⟨by decide +kernel, by decide +kernel, alone, i, named, locked, (line rfl).trans (by decide +kernel)⟩

end

end Canna.Daemon
