import Mathlib.Data.List.Nodup
import Canna.ThreadSafeQueue

/-!
# Thread pool

Workers that test `m_done`, pop a task, run it or yield; threads that submit tasks;
and the owner, who creates the workers, sets `m_done` and joins them one after the
other. Each of these is a step of its own, in any order. Every task popped is held by
one worker until it has run (`accounted`), so that after the destructor the tasks run
are a prefix of those submitted, each run once (`tasks_run_once`). Tasks return, and
allocation does not fail.
-/
namespace Canna.ThreadPool
open Lts
open scoped List
variable {F : Type*}

/-- Where a worker is in `work`. It holds a popped task with its place in the order
    of the pops, until the task has returned. -/
inductive Worker (F : Type*)
  | testing
  | popping
  | running (task : F) (number : Nat)
  | yielding
  | exited
  deriving DecidableEq, Repr

/-- Where the owner is: creating workers, using the pool, joining a worker, or
    returned from the destructor. -/
inductive Owner
  | constructing
  | constructed
  | joining (i : Nat)
  | destroyed
  deriving DecidableEq, Repr

/-- The pool, and what happened to tasks so far: those submitted and those popped, in
    order, and those that returned, with their places in the order of the pops. -/
structure Pool (F : Type*) where
  m_done : Bool
  m_queue : List F
  m_threads : List (Worker F)
  owner : Owner
  submitted : List F
  popped : List F
  ran : List (F × Nat)
  deriving DecidableEq, Repr

def initial (F : Type*) : Pool F := ⟨false,[],[],.constructing,[],[],[]⟩

/-- The number of workers on a machine. -/
def thread_count (hardware_concurrency : Nat) : Nat := if hardware_concurrency < 2 then 2 else hardware_concurrency

/-- The next step of a worker. -/
def work [Inhabited F] (s : Pool F) (i : Nat) : Except Unit (Pool F) :=
  match s.m_threads[i]? with
  | some .testing => .ok { s with m_threads := s.m_threads.set i (if s.m_done then .exited else .popping) }
  | some .popping =>
    match ThreadSafeQueue.try_pop s.m_queue default with
    | (true,task,m_queue) =>
      .ok { s with
        m_queue := m_queue
        m_threads := s.m_threads.set i (.running task s.popped.length)
        popped := s.popped ++ [task] }
    | (false,_,m_queue) => .ok { s with m_queue := m_queue, m_threads := s.m_threads.set i .yielding }
  | some (.running task number) =>
    .ok { s with m_threads := s.m_threads.set i .testing, ran := s.ran ++ [(task,number)] }
  | some .yielding => .ok { s with m_threads := s.m_threads.set i .testing }
  | some .exited => .error ()
  | none => .error ()

/-- The next step of the owner, in the loops of the constructor and of the joiner. -/
def own (hardware_concurrency : Nat) (s : Pool F) : Except Unit (Pool F) :=
  match s.owner with
  | .constructing =>
    if s.m_threads.length < thread_count hardware_concurrency then .ok { s with m_threads := s.m_threads ++ [.testing] }
    else .ok { s with owner := .constructed }
  | .constructed => .error ()
  | .joining i =>
    match s.m_threads[i]? with
    | some .exited => .ok { s with owner := .joining (i + 1) }
    | some _ => .error ()
    | none => .ok { s with owner := .destroyed }
  | .destroyed => .error ()

inductive Action (F : Type*)
  | submit (task : F)
  | work (i : Nat)
  | own
  | createFails
  | destroy

/-- One step of a submitter, a worker or the owner. Where a thread cannot be created
    the constructor sets `m_done` too, and the joiner is destroyed. -/
def step [Inhabited F] (hardware_concurrency : Nat) (s : Pool F) : Action F → Except Unit (Pool F)
  | .submit task =>
    if s.owner = .destroyed then .error ()
    else .ok { s with m_queue := ThreadSafeQueue.push s.m_queue task, submitted := s.submitted ++ [task] }
  | .work i => work s i
  | .own => own hardware_concurrency s
  | .createFails =>
    if s.owner = .constructing ∧ s.m_threads.length < thread_count hardware_concurrency then
      .ok { s with m_done := true, owner := .joining 0 }
    else .error ()
  | .destroy => if s.owner = .constructed then .ok { s with m_done := true, owner := .joining 0 } else .error ()

/-! ### Tasks -/

/-- The task a worker holds, if any. -/
def Worker.tasks : Worker F → List (F × Nat)
  | .running task number => [(task,number)]
  | _ => []

/-- The tasks workers are running. -/
def Pool.running (s : Pool F) : List (F × Nat) := s.m_threads.flatMap Worker.tasks

/-- The number of workers that run a task. -/
def Pool.workersOn (s : Pool F) (number : Nat) : Nat := s.running.countP (·.2 = number)

/-- How often a task returned. -/
def Pool.timesRan (s : Pool F) (number : Nat) : Nat := s.ran.countP (·.2 = number)

/-- A worker has popped the task, no other worker has it, and it has not returned. -/
def Pool.RunsOnce (s : Pool F) (task : F) (number : Nat) : Prop :=
  .running task number ∈ s.m_threads ∧ s.workersOn number = 1 ∧ s.timesRan number = 0

/-- The task has returned, once, and no worker has it. -/
def Pool.RanOnce (s : Pool F) (task : F) (number : Nat) : Prop :=
  (task,number) ∈ s.ran ∧ s.timesRan number = 1 ∧ s.workersOn number = 0

/-- The tasks popped and those queued are those submitted, and every task popped is
    held by one worker or has run; the workers joined have left their loop. -/
structure Accounted (s : Pool F) : Prop where
  order : s.popped ++ s.m_queue = s.submitted
  once : (s.running ++ s.ran).Perm s.popped.zipIdx
  joined : ∀ i, s.owner = .joining i → ∀ worker ∈ s.m_threads.take i, worker = .exited
  destroyed : s.owner = .destroyed → ∀ worker ∈ s.m_threads, worker = .exited

theorem accounted_initial : Accounted (initial F) where
  order := rfl
  once := .nil
  joined i joining := by simp [initial] at joining
  destroyed gone := by simp [initial] at gone

/-- What the workers run, with what one of them held before it changed. -/
theorem running_set {threads : List (Worker F)} {i : Nat} {old : Worker F} (here : threads[i]? = some old)
    (new : Worker F) :
    old.tasks ++ (threads.set i new).flatMap Worker.tasks ~ new.tasks ++ threads.flatMap Worker.tasks := by
  obtain ⟨inside, rfl⟩ := List.getElem?_eq_some_iff.mp here
  have before : threads = threads.take i ++ threads[i] :: threads.drop (i + 1) := by simp
  have after : threads.set i new = threads.take i ++ new :: threads.drop (i + 1) :=
    List.set_eq_take_append_cons_drop.trans (if_pos inside)
  rw [after]
  conv_rhs => rw [before]
  simp only [List.flatMap_append, List.flatMap_cons]
  generalize (threads.take i).flatMap Worker.tasks = left
  generalize (threads.drop (i + 1)).flatMap Worker.tasks = right
  calc threads[i].tasks ++ (left ++ (new.tasks ++ right))
    _ ~ left ++ (threads[i].tasks ++ (new.tasks ++ right)) := List.perm_append_comm_assoc ..
    _ ~ left ++ (new.tasks ++ (threads[i].tasks ++ right)) := (List.perm_append_comm_assoc ..).append_left left
    _ ~ new.tasks ++ (left ++ (threads[i].tasks ++ right)) := List.perm_append_comm_assoc ..

/-- A worker that has not left its loop moves on, with what it takes from the queue or
    gives back as run. -/
theorem accounted_work {s : Pool F} {i : Nat} {old : Worker F} (here : s.m_threads[i]? = some old)
    (busy : old ≠ .exited) (new : Worker F) {m_queue popped : List F} {ran : List (F × Nat)}
    (order : popped ++ m_queue = s.popped ++ s.m_queue)
    (moved : new.tasks ++ (ran ++ s.popped.zipIdx) ~ old.tasks ++ (s.ran ++ popped.zipIdx)) (accounted : Accounted s) :
    Accounted { s with m_queue := m_queue, m_threads := s.m_threads.set i new, popped := popped, ran := ran } where
  order := order.trans accounted.order
  once := by
    classical
    apply List.perm_iff_count.mpr
    intro entry
    have changed := (running_set here new).count_eq entry
    have given := moved.count_eq entry
    have kept := accounted.once.count_eq entry
    simp only [List.count_append, Pool.running] at changed given kept ⊢
    omega
  joined j joining worker member := by
    -- the worker is none of those joined
    have apart : j ≤ i := by
      by_contra behind
      have inside : old ∈ s.m_threads.take j :=
        List.mem_of_getElem? ((List.getElem?_take_of_lt (by omega)).trans here)
      exact busy (accounted.joined j joining old inside)
    rw [List.take_set_of_le apart] at member
    exact accounted.joined j joining worker member
  destroyed gone := absurd (accounted.destroyed gone old (List.mem_of_getElem? here)) busy

theorem accounted_worker [Inhabited F] {s t : Pool F} {i : Nat} (worked : work s i = .ok t)
    (accounted : Accounted s) : Accounted t := by
  cases here : s.m_threads[i]? with
  | none => simp [work, here] at worked
  | some worker =>
    cases worker with
    | testing =>
      simp only [work, here] at worked
      cases worked
      refine accounted_work here (by simp) _ rfl ?_ accounted
      cases s.m_done <;> exact .refl _
    | popping =>
      cases queued : s.m_queue with
      | nil =>
        simp only [work, here, queued, ThreadSafeQueue.try_pop] at worked
        cases worked
        exact accounted_work here (by simp) .yielding (by rw [queued]) (.refl _) accounted
      | cons task rest =>
        simp only [work, here, queued, ThreadSafeQueue.try_pop] at worked
        cases worked
        refine accounted_work here (by simp) (.running task s.popped.length) (by simp [queued]) ?_ accounted
        simp only [Worker.tasks, List.zipIdx_append, List.zipIdx_singleton, List.nil_append, Nat.zero_add,
          ← List.append_assoc]
        rw [List.append_assoc]
        exact List.perm_append_comm
    | running task number =>
      simp only [work, here] at worked
      cases worked
      refine accounted_work here (by simp) .testing rfl ?_ accounted
      simp only [Worker.tasks, List.nil_append, List.append_assoc]
      exact List.perm_append_comm_assoc ..
    | yielding =>
      simp only [work, here] at worked
      cases worked
      exact accounted_work here (by simp) .testing rfl (.refl _) accounted
    | exited => simp [work, here] at worked

theorem accounted_own {cores : Nat} {s t : Pool F} (owned : own cores s = .ok t) (accounted : Accounted s) : Accounted t := by
  cases place : s.owner with
  | constructing =>
    by_cases fewer : s.m_threads.length < thread_count cores
    · simp only [own, place, fewer, if_true] at owned
      cases owned
      refine ⟨accounted.order, ?_, ?_, ?_⟩
      · simpa [Pool.running, Worker.tasks] using accounted.once
      · intro i joining
        cases joining
      · intro gone
        cases gone
    · simp only [own, place, fewer, if_false] at owned
      cases owned
      refine ⟨accounted.order, accounted.once, ?_, ?_⟩
      · intro i joining
        cases joining
      · intro gone
        cases gone
  | constructed => simp [own, place] at owned
  | joining i =>
    have joined := accounted.joined i place
    cases here : s.m_threads[i]? with
    | none =>
      simp only [own, place, here] at owned
      cases owned
      refine ⟨accounted.order, accounted.once, ?_, ?_⟩
      · intro j joining
        cases joining
      · intro _
        rw [List.take_of_length_le (List.getElem?_eq_none_iff.mp here)] at joined
        exact joined
    | some worker =>
      cases worker with
      | exited =>
        simp only [own, place, here] at owned
        cases owned
        refine ⟨accounted.order, accounted.once, ?_, ?_⟩
        · intro j joining worker member
          cases joining
          rw [List.take_add_one, here] at member
          rcases List.mem_append.mp member with before | last
          · exact joined worker before
          · exact List.mem_singleton.mp last
        · intro gone
          cases gone
      | _ => simp [own, place, here] at owned
  | destroyed => simp [own, place] at owned

/-- The joiner begins before the first worker. -/
theorem accounted_joining {s : Pool F} (accounted : Accounted s) :
    Accounted { s with m_done := true, owner := .joining 0 } where
  order := accounted.order
  once := accounted.once
  joined i joining := by
    cases joining
    simp
  destroyed gone := by cases gone

theorem accounted_step [Inhabited F] {cores : Nat} (s : Pool F) (a : Action F) (t : Pool F) (accounted : Accounted s)
    (stepped : Succeeds (step cores) s a t) : Accounted t := by
  unfold Succeeds at stepped
  cases a with
  | submit task =>
    by_cases gone : s.owner = .destroyed
    · simp [step, gone] at stepped
    · simp only [step, gone, if_false] at stepped
      cases stepped
      refine ⟨?_, accounted.once, accounted.joined, accounted.destroyed⟩
      simp only [ThreadSafeQueue.push, ← List.append_assoc, accounted.order]
  | work i => exact accounted_worker stepped accounted
  | own => exact accounted_own stepped accounted
  | createFails =>
    by_cases creating : s.owner = .constructing ∧ s.m_threads.length < thread_count cores
    · simp only [step, creating, and_self, if_true] at stepped
      cases stepped
      exact accounted_joining accounted
    · simp [step, creating] at stepped
  | destroy =>
    by_cases built : s.owner = .constructed
    · simp only [step, built, if_true] at stepped
      cases stepped
      exact accounted_joining accounted
    · simp [step, built] at stepped

/-- The numbers of the tasks popped, each held by a worker or run. -/
theorem Accounted.count_one {s : Pool F} (accounted : Accounted s) {number : Nat} (popped : number < s.popped.length) :
    s.workersOn number + s.timesRan number = 1 := by
  have numbers := accounted.once.countP_eq (·.2 = number)
  have each : s.popped.zipIdx.countP (·.2 = number) = 1 := by
    have counted : (s.popped.zipIdx.map Prod.snd).count number = 1 := by
      rw [List.zipIdx_map_snd]
      exact List.count_eq_one_of_mem List.nodup_range' (List.mem_range'_1.mpr (by omega))
    rw [List.count, List.countP_map] at counted
    exact counted
  rw [List.countP_append, each] at numbers
  exact numbers

/-- What is held or run under a number is the task popped with it. -/
theorem Accounted.popped_of_mem {s : Pool F} (accounted : Accounted s) {entry : F × Nat}
    (member : entry ∈ s.running ++ s.ran) : s.popped[entry.2]? = some entry.1 :=
  List.mem_zipIdx_iff_getElem?.mp (accounted.once.mem_iff.mp member)

theorem mem_running {s : Pool F} {task : F} {number : Nat} :
    (task,number) ∈ s.running ↔ .running task number ∈ s.m_threads := by
  constructor
  · intro member
    obtain ⟨worker, inside, held⟩ := List.mem_flatMap.mp member
    cases worker with
    | running other place =>
      simp only [Worker.tasks, List.mem_singleton, Prod.mk.injEq] at held
      obtain ⟨rfl, rfl⟩ := held
      exact inside
    | _ => simp [Worker.tasks] at held
  · intro inside
    exact List.mem_flatMap.mpr ⟨_, inside, List.mem_singleton_self _⟩

theorem Accounted.runs_or_ran {s : Pool F} (accounted : Accounted s) {number : Nat} {task : F}
    (popped : s.popped[number]? = some task) : s.RunsOnce task number ∨ s.RanOnce task number := by
  have one := accounted.count_one (List.getElem?_eq_some_iff.mp popped).1
  have same : ∀ entry ∈ s.running ++ s.ran, entry.2 = number → entry = (task,number) := by
    rintro ⟨other, place⟩ member rfl
    have found := accounted.popped_of_mem member
    rw [popped] at found
    cases found
    rfl
  by_cases held : 0 < s.workersOn number
  · obtain ⟨entry, member, place⟩ := List.countP_pos_iff.mp held
    have equal := same entry (List.mem_append_left _ member) (by simpa using place)
    subst equal
    exact .inl ⟨mem_running.mp member, by omega, by omega⟩
  · have returned : 0 < s.timesRan number := by omega
    obtain ⟨entry, member, place⟩ := List.countP_pos_iff.mp returned
    have equal := same entry (List.mem_append_right _ member) (by simpa using place)
    subst equal
    exact .inr ⟨member, by omega, by omega⟩

theorem running_nil {s : Pool F} (left : ∀ worker ∈ s.m_threads, worker = .exited) : s.running = [] := by
  apply List.flatMap_eq_nil_iff.mpr
  intro worker member
  rw [left worker member]
  rfl

/-- With every worker out of its loop, the tasks run are those popped, which come
    first among those submitted. -/
theorem Accounted.ran_prefix {s : Pool F} (accounted : Accounted s) (left : ∀ worker ∈ s.m_threads, worker = .exited) :
    s.ran ~ s.submitted.zipIdx.take s.popped.length := by
  have ran := accounted.once
  rw [running_nil left, List.nil_append] at ran
  rw [← accounted.order, List.zipIdx_append, List.take_left' (by simp)]
  exact ran

/-- The tasks popped and those still queued are those submitted, in order; each task
    popped is running in one worker or has run once; and after the destructor the
    tasks that ran are a prefix of those submitted, with no worker running any. -/
theorem tasks_run_once [Inhabited F] {cores : Nat} {ms : List (Move (Pool F) (Action F))} {s : Pool F}
    (run : Run (Succeeds (step cores)) (initial F) ms s) :
    s.popped ++ s.m_queue = s.submitted ∧
    (∀ number task, s.popped[number]? = some task → s.RunsOnce task number ∨ s.RanOnce task number) ∧
    (s.owner = .destroyed → s.running = [] ∧ ∃ count, s.ran ~ s.submitted.zipIdx.take count) := by
  have accounted := (run.inductive_invariant accounted_step accounted_initial).2
  refine ⟨accounted.order, fun number task => accounted.runs_or_ran, ?_⟩
  intro gone
  have left := accounted.destroyed gone
  exact ⟨running_nil left, s.popped.length, accounted.ran_prefix left⟩

/-- Two workers take the first two of three tasks, and the destructor finds one of them
    still running and the last task queued. -/
def stopped : List (Action Nat) :=
  [.own,.own,.own,.submit 5,.submit 6,.submit 7,.work 1,.work 1,.work 0,.work 0,.work 1,.destroy,.work 1,.work 0,
    .work 0,.own,.own,.own]

theorem tasks_run_once_stopped : (final (step 0) (initial Nat) stopped).owner = .destroyed ∧
    ∃ count, (final (step 0) (initial Nat) stopped).ran ~ (final (step 0) (initial Nat) stopped).submitted.zipIdx.take count := by
  have run := run_final (step 0) (by decide +kernel : (exec (step 0) (initial Nat) stopped).isOk = true)
  have gone : (final (step 0) (initial Nat) stopped).owner = .destroyed := by decide +kernel
  exact ⟨gone, ((tasks_run_once run).2.2 gone).2⟩

end Canna.ThreadPool
