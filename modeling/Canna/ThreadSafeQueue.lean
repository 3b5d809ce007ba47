import Canna.Lts

/-!
# Blocking queue

The queue of the thread pool. A thread runs each critical section as one step.
`wait_and_pop` sleeps on the condition variable while the queue is empty; a sleeper
is woken by the `notify_one` of a push or spuriously, and then has to acquire the
mutex again before it looks at the queue (`acquire`), where others may come first.
While anyone sleeps, the queue holds no more elements than there are woken threads
on their way to the mutex (`no_lost_wakeup`). Allocation does not fail.
-/
namespace Canna.ThreadSafeQueue
open Lts
variable {T : Type*}

/-! ### The queue -/

def push (m_queue : List T) (value : T) : List T := m_queue ++ [value]

/-- The overload that pops into a reference: whether it popped, and what the
    reference holds then. -/
def try_pop (m_queue : List T) (value : T) : Bool × T × List T :=
  match m_queue with
  | [] => (false,value,[])
  | front :: rest => (true,front,rest)

/-- The overload that returns a shared pointer, null where nothing is queued. -/
def try_pop_shared (m_queue : List T) : Option T × List T :=
  match m_queue with
  | [] => (none,[])
  | front :: rest => (some front,rest)

/-! ### Threads -/

/-- The overloads of `wait_and_pop`. -/
inductive Overload
  | reference
  | shared
  deriving DecidableEq, Repr

/-- What a pop gave its caller. -/
inductive Popped (T : Type*)
  | reference (returned : Bool) (value : T)
  | shared (res : Option T)
  deriving DecidableEq, Repr

def Overload.popped : Overload → T → Popped T
  | .reference, value => .reference true value
  | .shared, value => .shared (some value)

/-- Where a thread is: outside the queue, with the result of its last pop; asleep on
    `m_cond`; or woken, before it has acquired the mutex again. -/
inductive Thread (T : Type*)
  | outside (last : Option (Popped T))
  | asleep (call : Overload)
  | woken (call : Overload)
  deriving DecidableEq, Repr

namespace Thread

def isAsleep : Thread T → Bool
  | .asleep _ => true
  | _ => false

def isWoken : Thread T → Bool
  | .woken _ => true
  | _ => false

@[simp] theorem isWoken_outside (last : Option (Popped T)) : (outside last).isWoken = false := rfl
@[simp] theorem isWoken_asleep (call : Overload) : (asleep call : Thread T).isWoken = false := rfl
@[simp] theorem isWoken_woken (call : Overload) : (woken call : Thread T).isWoken = true := rfl

end Thread

structure State (T : Type*) where
  m_queue : List T
  threads : List (Thread T)
  deriving DecidableEq, Repr

/-- An empty queue and the threads that will use it. -/
def initial (T : Type*) (threads : Nat) : State T := ⟨[],List.replicate threads (.outside none)⟩

/-- What a thread can do next, with the thread that a push wakes. -/
inductive Action (T : Type*)
  | push (value : T) (wakes : Option Nat)
  | wait_and_pop (call : Overload)
  | try_pop (value : T)
  | try_pop_shared
  | spurious
  | acquire

/-- Wakes one of the threads asleep, any of them; with none asleep it does nothing. -/
def notify_one (threads : List (Thread T)) : Option Nat → Except Unit (List (Thread T))
  | none => if threads.any Thread.isAsleep then .error () else .ok threads
  | some sleeper =>
    match threads[sleeper]? with
    | some (.asleep call) => .ok (threads.set sleeper (.woken call))
    | _ => .error ()

/-- What a thread does in `wait_and_pop` each time it has the mutex: it sleeps where
    the predicate fails, and pops where it holds. -/
def wait_and_pop (s : State T) (thread : Nat) (call : Overload) : State T :=
  match s.m_queue with
  | [] => { s with threads := s.threads.set thread (.asleep call) }
  | front :: rest => ⟨rest,s.threads.set thread (.outside (some (call.popped front)))⟩

/-- One critical section of a thread, or its spurious wake-up. -/
def step (s : State T) : Nat × Action T → Except Unit (State T)
  | (thread,a) =>
    match a, s.threads[thread]? with
    | .push value wakes, some (.outside _) =>
      match notify_one s.threads wakes with
      | .ok threads => .ok ⟨push s.m_queue value,threads⟩
      | .error () => .error ()
    | .wait_and_pop call, some (.outside _) => .ok (wait_and_pop s thread call)
    | .try_pop value, some (.outside _) =>
      let (returned,value,m_queue) := try_pop s.m_queue value
      .ok ⟨m_queue,s.threads.set thread (.outside (some (.reference returned value)))⟩
    | .try_pop_shared, some (.outside _) =>
      let (res,m_queue) := try_pop_shared s.m_queue
      .ok ⟨m_queue,s.threads.set thread (.outside (some (.shared res)))⟩
    | .spurious, some (.asleep call) => .ok { s with threads := s.threads.set thread (.woken call) }
    | .acquire, some (.woken call) => .ok (wait_and_pop s thread call)
    | _, _ => .error ()

/-! ### Wake-ups -/

/-- Some consumer is blocked on `m_cond` and has not been woken. -/
def State.Sleeping (s : State T) : Prop := ∃ thread ∈ s.threads, thread.isAsleep = true

instance (s : State T) : Decidable s.Sleeping := inferInstanceAs (Decidable (∃ thread ∈ s.threads, thread.isAsleep = true))

/-- The number of consumers woken that have not acquired the mutex again. -/
def State.waking (s : State T) : Nat := s.threads.countP Thread.isWoken

/-- While a consumer sleeps, every queued element has a consumer coming for it. -/
def Covered (s : State T) : Prop := s.Sleeping → s.m_queue.length ≤ s.waking

/-- A thread that did not sleep and does not fall asleep leaves the sleepers as they were. -/
theorem sleeping_set {threads : List (Thread T)} {i : Nat} {new : Thread T} (awake : new.isAsleep = false)
    (sleeping : ∃ thread ∈ threads.set i new, thread.isAsleep = true) : ∃ thread ∈ threads, thread.isAsleep = true := by
  obtain ⟨thread, member, asleep⟩ := sleeping
  rcases List.mem_or_eq_of_mem_set member with old | rfl
  · exact ⟨thread, old, asleep⟩
  · simp [awake] at asleep

/-- Woken threads after one thread changed. -/
theorem woken_set {threads : List (Thread T)} {i : Nat} {old : Thread T} (here : threads[i]? = some old) (new : Thread T) :
    (threads.set i new).countP Thread.isWoken + old.isWoken.toNat = threads.countP Thread.isWoken + new.isWoken.toNat := by
  obtain ⟨inside, rfl⟩ := List.getElem?_eq_some_iff.mp here
  have counted : threads[i].isWoken = true → 0 < threads.countP Thread.isWoken := by
    intro woken
    exact List.countP_pos_iff.mpr ⟨threads[i], List.getElem_mem inside, woken⟩
  rw [List.countP_set inside]
  cases before : threads[i].isWoken with
  | false => cases new.isWoken <;> simp
  | true =>
    have := counted before
    cases new.isWoken <;> simp <;> omega

/-- Each time a consumer has the mutex in `wait_and_pop`, coming from outside or woken. -/
theorem covered_wait {s : State T} {i : Nat} {old : Thread T} (here : s.threads[i]? = some old)
    (call : Overload) (covered : Covered s) : Covered (wait_and_pop s i call) := by
  intro sleeping
  unfold wait_and_pop at sleeping ⊢
  cases queued : s.m_queue with
  | nil => simp
  | cons front rest =>
    simp only [queued] at sleeping ⊢
    have enough := covered (sleeping_set rfl sleeping)
    have count := woken_set here (.outside (some (call.popped front)))
    have one := Bool.toNat_le old.isWoken
    simp only [queued, List.length_cons, State.waking, Thread.isWoken_outside, Bool.toNat_false] at enough count ⊢
    omega

/-- A thread outside that takes what it finds, if anything. -/
theorem covered_take {s : State T} {i : Nat} {last : Option (Popped T)} (here : s.threads[i]? = some (.outside last))
    {m_queue : List T} (shorter : m_queue.length ≤ s.m_queue.length) (result : Option (Popped T))
    (covered : Covered s) : Covered ⟨m_queue,s.threads.set i (.outside result)⟩ := by
  intro sleeping
  have enough := covered (sleeping_set rfl sleeping)
  have count := woken_set here (.outside result)
  simp only [State.waking, Thread.isWoken_outside, Bool.toNat_false] at enough count ⊢
  omega

/-- An element more, and a woken thread more if any was asleep. -/
theorem covered_push {s : State T} {wakes : Option Nat} {threads : List (Thread T)}
    (notified : notify_one s.threads wakes = .ok threads) (value : T) (covered : Covered s) :
    Covered ⟨push s.m_queue value,threads⟩ := by
  intro sleeping
  cases wakes with
  | none =>
    by_cases some : s.threads.any Thread.isAsleep = true
    · simp [notify_one, some] at notified
    · simp only [notify_one, some] at notified
      cases notified
      obtain ⟨thread, member, asleep⟩ := sleeping
      exact absurd (List.any_eq_true.mpr ⟨thread, member, asleep⟩) some
  | some sleeper =>
    simp only [notify_one] at notified
    cases here : s.threads[sleeper]? with
    | none => simp [here] at notified
    | some thread =>
      cases thread with
      | outside last => simp [here] at notified
      | woken call => simp [here] at notified
      | asleep call =>
        simp only [here] at notified
        cases notified
        have before : s.Sleeping := ⟨.asleep call, List.mem_of_getElem? here, rfl⟩
        have enough := covered before
        have count := woken_set here (.woken call)
        simp only [State.waking, Thread.isWoken_asleep, Thread.isWoken_woken, push, List.length_append, List.length_singleton,
          Bool.toNat_false, Bool.toNat_true] at enough count ⊢
        omega

theorem covered_spurious {s : State T} {i : Nat} {call : Overload} (here : s.threads[i]? = some (.asleep call))
    (covered : Covered s) : Covered { s with threads := s.threads.set i (.woken call) } := by
  intro sleeping
  have enough := covered (sleeping_set rfl sleeping)
  have count := woken_set here (.woken call)
  simp only [State.waking, Thread.isWoken_asleep, Thread.isWoken_woken, Bool.toNat_false, Bool.toNat_true] at enough count ⊢
  omega

theorem covered_step (s : State T) (a : Nat × Action T) (t : State T) (covered : Covered s)
    (stepped : Succeeds step s a t) : Covered t := by
  obtain ⟨thread, a⟩ := a
  unfold Succeeds at stepped
  cases here : s.threads[thread]? with
  | none => simp [step, here] at stepped
  | some now =>
    cases now with
    | outside last =>
      cases a with
      | push value wakes =>
        cases notified : notify_one s.threads wakes with
        | error e => simp [step, here, notified] at stepped
        | ok threads =>
          simp only [step, here, notified] at stepped
          cases stepped
          exact covered_push notified value covered
      | wait_and_pop call =>
        simp only [step, here] at stepped
        cases stepped
        exact covered_wait here call covered
      | try_pop value =>
        simp only [step, here] at stepped
        cases stepped
        have shorter : (try_pop s.m_queue value).2.2.length ≤ s.m_queue.length := by
          cases s.m_queue <;> simp [try_pop]
        exact covered_take here shorter _ covered
      | try_pop_shared =>
        simp only [step, here] at stepped
        cases stepped
        have shorter : (try_pop_shared s.m_queue).2.length ≤ s.m_queue.length := by
          cases s.m_queue <;> simp [try_pop_shared]
        exact covered_take here shorter _ covered
      | spurious => simp [step, here] at stepped
      | acquire => simp [step, here] at stepped
    | asleep call =>
      cases a with
      | spurious =>
        simp only [step, here] at stepped
        cases stepped
        exact covered_spurious here covered
      | _ => simp [step, here] at stepped
    | woken call =>
      cases a with
      | acquire =>
        simp only [step, here] at stepped
        cases stepped
        exact covered_wait here call covered
      | _ => simp [step, here] at stepped

/-- While a consumer sleeps, no more elements are queued than consumers have been
    woken and have not acquired the mutex again; so one of these is there whenever
    the queue is not empty. -/
theorem no_lost_wakeup {threads : Nat} {ms : List (Move (State T) (Nat × Action T))} {s : State T}
    (run : Run (Succeeds step) (initial T threads) ms s) (sleeping : s.Sleeping) :
    s.m_queue.length ≤ s.waking ∧ (s.m_queue ≠ [] → 0 < s.waking) := by
  have start : Covered (initial T threads) := by
    intro _
    exact Nat.zero_le _
  have enough := (run.inductive_invariant covered_step start).2 sleeping
  refine ⟨enough, ?_⟩
  intro queued
  have := List.length_pos_iff.mpr queued
  omega

/-- A push wakes one of three sleepers, another consumer pops the element first, and
    the woken one sleeps again before the next push wakes another. -/
def overtaken : List (Nat × Action Nat) :=
  [(0,.wait_and_pop .reference),(1,.wait_and_pop .shared),(3,.wait_and_pop .shared),(2,.push 5 (some 0)),
    (2,.try_pop_shared),(0,.acquire),(2,.push 6 (some 1))]

theorem no_lost_wakeup_overtaken : (final step (initial Nat 4) overtaken).Sleeping ∧
    (final step (initial Nat 4) overtaken).m_queue.length ≤ (final step (initial Nat 4) overtaken).waking := by
  have run := run_final step (by decide +kernel : (exec step (initial Nat 4) overtaken).isOk = true)
  have sleeping : (final step (initial Nat 4) overtaken).Sleeping := by decide +kernel
  exact ⟨sleeping, (no_lost_wakeup run sleeping).1⟩

end Canna.ThreadSafeQueue
