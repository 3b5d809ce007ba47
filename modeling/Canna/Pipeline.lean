import Canna.Census
import Canna.Decimal
import Canna.Generator
import Canna.Lts
import Canna.Multipart

/-!
# Ventilator, workers and sink

`ventilator.cpp`, `taskwork.cpp` and `tasksink.cpp`: the ventilator sends a message to the
sink and a hundred tasks to the workers, each worker sleeps as long as its task says and
sends the sink an empty message for it, and the sink ends with the hundred and first
message that it receives, whatever they are. By then every task has been worked on once
(`pipeline_complete`), whichever workers took them and in whichever order the messages
arrived, and the sink does come to its end (`pipeline_ends`).
-/
namespace Canna.Pipeline
open Canna.Census Canna.Decimal Canna.Generator Canna.Lts
open Canna.Multipart (Transport)
open Canna.Names (Text)

/-! ### Tasks -/

/-- `random.Random(100) + 1`. -/
def draw (random : CaRandom) : Nat × CaRandom :=
  let (result,next) := Random_range random 100
  (result.toNat + 1,next)

/-- The next workloads that the ventilator draws. -/
def workloads : (count : Nat) → CaRandom → List Nat
  | 0, _ => []
  | count + 1, random => (draw random).1 :: workloads count (draw random).2

/-- The message of a task: ten zeros with `sprintf("%d", workload)` at their beginning. -/
def task (workload : Nat) : Text := decimal workload ++ List.replicate (10 - (decimal workload).length) 0

def isspace (b : Byte) : Bool := b == 32 || (decide (9 ≤ b.toNat) && decide (b.toNat ≤ 13))

/-- A number that is no `int` is read as the nearest one. -/
def clamp (n : Int) : Int := max (-2147483648) (min 2147483647 n)

/-- `iss >> workload`. -/
def extract (smessage : Text) : Int :=
  match smessage.dropWhile isspace with
  | 45 :: rest => clamp (-(number rest : Int))
  | 43 :: rest => clamp (number rest)
  | rest => clamp (number rest)

/-! ### The programs -/

/-- A worker: the tasks that have arrived, the workload that it sleeps for, those that it
    has slept for, and its messages to the sink. -/
structure Worker where
  inbox : List Text
  busy : Option Int
  slept : List Int
  outbox : List Text
  deriving DecidableEq, Repr

def Worker.fresh : Worker := ⟨[],none,[],[]⟩

/-- The ventilator has its message to the sink before it, or `count` tasks behind it;
    `outbox` are its messages to the sink, which has received `received`. -/
structure Sys where
  starting : Bool
  random : CaRandom
  count : Nat
  outbox : List Text
  workers : List Worker
  received : Nat
  deriving DecidableEq, Repr

def initial (seed : UInt32) (workers : Nat) : Sys where
  starting := true
  random := SetSeed .init seed
  count := 0
  outbox := []
  workers := List.replicate workers .fresh
  received := 0

/-- The ventilator sends its message to the sink, of which one byte is not set, or a task to
    a worker; a worker takes a task, or has slept for it; the sink receives a message of the
    ventilator or of a worker. -/
inductive Action
  | start (unset : Byte)
  | send (j : Nat)
  | recv (j : Nat)
  | finish (j : Nat)
  | sink_ventilator
  | sink_worker (j : Nat)
  deriving DecidableEq, Repr

def Worker.recv (w : Worker) : Option Worker :=
  match w.busy, w.inbox with
  | none, message :: rest => some { w with inbox := rest, busy := some (extract message) }
  | _, _ => none

/-- `usleep(workload * 1000)`, and the message for it. -/
def Worker.finish (Z : Transport) (w : Worker) : Option Worker :=
  match w.busy with
  | some workload => some { w with busy := none, slept := w.slept ++ [workload], outbox := w.outbox ++ Z.frame [] }
  | none => none

namespace Sys

def set (s : Sys) (j : Nat) (w : Worker) : Sys := { s with workers := s.workers.set j w }

def start (Z : Transport) (s : Sys) (unset : Byte) : Option Sys :=
  if s.starting then some { s with starting := false, outbox := s.outbox ++ Z.frame [48,unset] } else none

def send (Z : Transport) (s : Sys) (j : Nat) : Option Sys :=
  if s.starting ∨ 100 ≤ s.count then none
  else s.workers[j]?.map fun w =>
    { s.set j { w with inbox := w.inbox ++ Z.frame (task (draw s.random).1) } with
      random := (draw s.random).2
      count := s.count + 1 }

def sink_ventilator (s : Sys) : Option Sys :=
  match s.outbox with
  | _ :: rest => if s.received < 101 then some { s with outbox := rest, received := s.received + 1 } else none
  | [] => none

def sink_worker (s : Sys) (j : Nat) : Option Sys :=
  s.workers[j]?.bind fun w =>
    match w.outbox with
    | _ :: rest =>
      if s.received < 101 then some { s.set j { w with outbox := rest } with received := s.received + 1 } else none
    | [] => none

def next (Z : Transport) (s : Sys) : Action → Option Sys
  | .start unset => s.start Z unset
  | .send j => s.send Z j
  | .recv j => s.workers[j]?.bind fun w => w.recv.map fun w => s.set j w
  | .finish j => s.workers[j]?.bind fun w => (w.finish Z).map fun w => s.set j w
  | .sink_ventilator => s.sink_ventilator
  | .sink_worker j => s.sink_worker j

end Sys

def step (Z : Transport) (s : Sys) (a : Action) : Except Unit Sys :=
  match s.next Z a with
  | some t => .ok t
  | none => .error ()

/-! ### Round trip of a task -/

section
variable {workload : Nat}

theorem isspace_of_isdigit {b : Byte} (digit : isdigit b = true) : isspace b = false ∧ b ≠ 45 ∧ b ≠ 43 := by
  simp only [isdigit, Bool.and_eq_true, decide_eq_true_eq] at digit
  refine ⟨?_, ?_, ?_⟩
  · have other : b ≠ 32 := by
      rintro rfl
      exact absurd digit.1 (by decide)
    simp only [isspace, beq_eq_false_iff_ne.mpr other, Bool.false_or, Bool.and_eq_false_iff, decide_eq_false_iff_not]
    omega
  · rintro rfl
    exact absurd digit.1 (by decide)
  · rintro rfl
    exact absurd digit.1 (by decide)

/-- A worker reads the workload that the ventilator has written. -/
theorem extract_task (small : workload < 10 ^ 9) : extract (task workload) = workload := by
  have read : number (task workload) = workload := by
    refine number_decimal workload ?_
    intro b first
    have zero := List.eq_of_mem_replicate (List.mem_of_mem_head? first)
    subst zero
    decide
  have clamped : clamp workload = workload := by
    unfold clamp
    omega
  have value : clamp (number (task workload)) = workload := by rw [read, clamped]
  cases digits : decimal workload with
  | nil => exact absurd digits (decimal_ne_nil workload)
  | cons b rest =>
    obtain ⟨space, minus, plus⟩ := isspace_of_isdigit (isdigit_of_mem (b := b) (n := workload) (by simp [digits]))
    have form : task workload = b :: (rest ++ List.replicate (10 - (decimal workload).length) 0) := by
      rw [task, digits, List.cons_append]
    have kept : (task workload).dropWhile isspace = task workload := by
      rw [form, List.dropWhile_cons_of_neg (by simp [space])]
    unfold extract
    rw [kept, form]
    split
    · rename_i same
      exact absurd (List.cons.inj same).1 minus
    · rename_i same
      exact absurd (List.cons.inj same).1 plus
    · rw [← form]
      exact value

theorem draw_range (random : CaRandom) : 1 ≤ (draw random).1 ∧ (draw random).1 ≤ 100 := by
  have drawn : (Random_range random 100).1 < 100 := Random_range_lt random (by decide)
  have below := UInt32.lt_iff_toNat_lt.mp drawn
  have hundred : (100 : UInt32).toNat = 100 := rfl
  simp only [draw]
  omega

end

/-! ### What is ahead of the workers and what is behind them -/

/-- The workloads of the tasks that have arrived at a worker, and the one it sleeps for. -/
def Worker.ahead (w : Worker) : Multiset Int := ↑(w.inbox.map extract ++ w.busy.toList)

def Worker.behind (w : Worker) : Multiset Int := ↑w.slept

/-- The tasks that the ventilator has yet to send. -/
def Sys.pending (s : Sys) : Multiset Int := ↑((workloads (100 - s.count) s.random).map Int.ofNat)

/-- All tasks of a seed. -/
def tasks (seed : UInt32) : Multiset Int := ↑((workloads 100 (SetSeed .init seed)).map Int.ofNat)

/-- The steps that a worker and the sink are yet to make for the messages at the worker. -/
def Worker.rank (w : Worker) : Nat := 3 * w.inbox.length + 2 * w.busy.toList.length + w.outbox.length

def Sys.rank (s : Sys) : Nat :=
  2 * s.starting.toNat + s.outbox.length + 4 * (100 - s.count) + roll Worker.rank s.workers

/-- Every task is ahead of a worker or behind it, and the messages that the sink receives are
    that of the ventilator and one for each task that is behind a worker. -/
structure Valid (seed : UInt32) (workers : Nat) (s : Sys) : Prop where
  count : s.count ≤ 100
  tasks : s.pending + roll Worker.ahead s.workers + roll Worker.behind s.workers = tasks seed
  counted : s.received + s.outbox.length + s.starting.toNat + roll (fun w => w.outbox.length) s.workers =
    1 + (roll Worker.behind s.workers).card
  workers : s.workers.length = workers
  received : s.received ≤ 101

section
variable {Z : Transport} {seed : UInt32} {workers : Nat} {s t : Sys} {w v : Worker} {a : Action} {j : Nat}

theorem workloads_length (count : Nat) (random : CaRandom) : (workloads count random).length = count := by
  induction count generalizing random with
  | zero => rfl
  | succ count ih => simp [workloads, ih]

theorem card_tasks (seed : UInt32) : (tasks seed).card = 100 := by simp [tasks, workloads_length]

theorem card_pending (s : Sys) : s.pending.card = 100 - s.count := by simp [Sys.pending, workloads_length]

theorem valid_initial (seed : UInt32) (workers : Nat) : Valid seed workers (initial seed workers) where
  count := by simp [initial]
  tasks := by
    have ahead : roll Worker.ahead (List.replicate workers .fresh) = 0 := roll_replicate workers rfl
    have behind : roll Worker.behind (List.replicate workers .fresh) = 0 := roll_replicate workers rfl
    simp [initial, ahead, behind, Sys.pending, Pipeline.tasks]
  counted := by
    have behind : roll Worker.behind (List.replicate workers .fresh) = 0 := roll_replicate workers rfl
    have silent : roll (fun w : Worker => w.outbox.length) (List.replicate workers .fresh) = 0 := roll_replicate workers rfl
    simp [initial, behind, silent]
  workers := by simp [initial]
  received := by simp [initial]

/-! ### One step -/

/-- What a step of a worker changes of it: the workloads, and how many messages to the sink
    it adds or the sink takes. -/
theorem recv_moves (received : w.recv = some v) :
    v.ahead = w.ahead ∧ v.slept = w.slept ∧ v.outbox = w.outbox ∧ v.rank + 1 = w.rank := by
  obtain ⟨inbox, busy, slept, outbox⟩ := w
  cases busy with
  | some workload => simp [Worker.recv] at received
  | none =>
    cases inbox with
    | nil => simp [Worker.recv] at received
    | cons message rest =>
      obtain rfl : _ = v := Option.some.inj received
      refine ⟨?_, rfl, rfl, by simp [Worker.rank]; omega⟩
      simp [Worker.ahead]

theorem finish_moves (finished : w.finish Z = some v) :
    ∃ workload, w.ahead = v.ahead + {workload} ∧ v.slept = w.slept ++ [workload] ∧ v.outbox.length = w.outbox.length + 1 ∧
      v.rank + 1 = w.rank := by
  obtain ⟨inbox, busy, slept, outbox⟩ := w
  cases busy with
  | none => simp [Worker.finish] at finished
  | some workload =>
    obtain rfl : _ = v := Option.some.inj finished
    refine ⟨workload, ?_, rfl, by simp, by simp [Worker.rank]; omega⟩
    simp [Worker.ahead, ← Multiset.coe_add]

theorem step_next (stepped : step Z s a = .ok t) : s.next Z a = some t := by
  unfold step at stepped
  split at stepped
  · rename_i u moved
    rw [moved, Except.ok.inj stepped]
  · cases stepped

/-- A step keeps what holds of every state, and is one of the steps that are ahead. -/
theorem valid_step (valid : Valid seed workers s) (stepped : step Z s a = .ok t) :
    Valid seed workers t ∧ t.rank + 1 = s.rank := by
  obtain ⟨count, whole, counted, size, most⟩ := valid
  have moved := step_next stepped
  cases a with
  | start unset =>
    simp only [Sys.next, Sys.start, Z.frame_arrives] at moved
    split at moved
    · rename_i starting
      obtain rfl := Option.some.inj moved
      refine ⟨⟨count, whole, ?_, size, most⟩, ?_⟩
      · simp [starting] at counted ⊢
        omega
      · simp [Sys.rank, starting]
        omega
    · cases moved
  | send j =>
    simp only [Sys.next, Sys.send, Z.frame_arrives] at moved
    split at moved
    · cases moved
    rename_i free
    obtain ⟨running, few⟩ := not_or.mp free
    obtain ⟨w, here, rfl⟩ := Option.map_eq_some_iff.mp moved
    obtain ⟨left, remaining⟩ : ∃ left, 100 - s.count = left + 1 := ⟨100 - s.count - 1, by omega⟩
    have remains : 100 - (s.count + 1) = left := by omega
    have reads : extract (task (draw s.random).1) = (draw s.random).1 :=
      extract_task (lt_of_le_of_lt (draw_range s.random).2 (by decide))
    let v : Worker := { w with inbox := w.inbox ++ [task (draw s.random).1] }
    have ahead : v.ahead = w.ahead + {((draw s.random).1 : Int)} := by
      simp only [v, Worker.ahead, List.map_append, List.map_cons, List.map_nil, reads, ← Multiset.coe_add,
        Multiset.coe_singleton]
      abel
    have gains := roll_gains (f := Worker.ahead) here ahead
    have behind : roll Worker.behind (s.workers.set j v) = roll Worker.behind s.workers := roll_same here rfl
    have outboxes : roll (fun w : Worker => w.outbox.length) (s.workers.set j v) =
        roll (fun w => w.outbox.length) s.workers := roll_same here rfl
    have ranks : roll Worker.rank (s.workers.set j v) = roll Worker.rank s.workers + 3 :=
      roll_gains here (by simp [v, Worker.rank]; omega)
    refine ⟨⟨(by omega : s.count + 1 ≤ 100), ?_, ?_, by simpa [Sys.set] using size, most⟩, ?_⟩
    · have pending : s.pending = {((draw s.random).1 : Int)} + ↑((workloads left (draw s.random).2).map Int.ofNat) := by
        rw [Sys.pending, remaining, workloads, List.map_cons, ← Multiset.cons_coe, Multiset.singleton_add]
        rfl
      rw [← whole, pending]
      simp only [Sys.pending, Sys.set, remains]
      rw [gains, behind]
      abel
    · simp only [Sys.set]
      rw [outboxes, behind]
      exact counted
    · simp only [Sys.rank, Sys.set]
      rw [ranks]
      omega
  | recv j =>
    obtain ⟨w, here, moved⟩ := Option.bind_eq_some_iff.mp moved
    obtain ⟨v, received, rfl⟩ := Option.map_eq_some_iff.mp moved
    obtain ⟨ahead, slept, outbox, rank⟩ := recv_moves received
    have behind : roll Worker.behind (s.workers.set j v) = roll Worker.behind s.workers :=
      roll_same here (by rw [Worker.behind, slept, ← Worker.behind])
    have outboxes : roll (fun w : Worker => w.outbox.length) (s.workers.set j v) =
        roll (fun w => w.outbox.length) s.workers := roll_same here (by rw [outbox])
    have ranks : roll Worker.rank s.workers = roll Worker.rank (s.workers.set j v) + 1 := roll_loses here rank.symm
    refine ⟨⟨count, ?_, ?_, by simpa [Sys.set] using size, most⟩, ?_⟩
    · simp only [Sys.pending, Sys.set]
      rw [roll_same here ahead, behind]
      exact whole
    · simp only [Sys.set]
      rw [outboxes, behind]
      exact counted
    · simp only [Sys.rank, Sys.set]
      omega
  | finish j =>
    obtain ⟨w, here, moved⟩ := Option.bind_eq_some_iff.mp moved
    obtain ⟨v, finished, rfl⟩ := Option.map_eq_some_iff.mp moved
    obtain ⟨workload, ahead, slept, outbox, rank⟩ := finish_moves finished
    have loses := roll_loses (f := Worker.ahead) here ahead
    have behind : roll Worker.behind (s.workers.set j v) = roll Worker.behind s.workers + {workload} :=
      roll_gains here (by rw [Worker.behind, slept, ← Multiset.coe_add, Multiset.coe_singleton, ← Worker.behind])
    have outboxes : roll (fun w : Worker => w.outbox.length) (s.workers.set j v) =
        roll (fun w => w.outbox.length) s.workers + 1 := roll_gains here outbox
    have ranks : roll Worker.rank s.workers = roll Worker.rank (s.workers.set j v) + 1 := roll_loses here rank.symm
    refine ⟨⟨count, ?_, ?_, by simpa [Sys.set] using size, most⟩, ?_⟩
    · rw [← whole, loses]
      simp only [Sys.pending, Sys.set]
      rw [behind]
      abel
    · simp only [Sys.set]
      rw [outboxes, behind, Multiset.card_add, Multiset.card_singleton]
      omega
    · simp only [Sys.rank, Sys.set]
      omega
  | sink_ventilator =>
    simp only [Sys.next, Sys.sink_ventilator] at moved
    split at moved
    · rename_i message rest sent
      split at moved
      · rename_i open_loop
        obtain rfl := Option.some.inj moved
        rw [sent] at counted
        refine ⟨⟨count, whole, ?_, size, open_loop⟩, ?_⟩
        · simp only [List.length_cons] at counted ⊢
          omega
        · simp only [Sys.rank, sent, List.length_cons]
          omega
      · cases moved
    · cases moved
  | sink_worker j =>
    obtain ⟨w, here, moved⟩ := Option.bind_eq_some_iff.mp moved
    split at moved
    · rename_i message rest sent
      split at moved
      · rename_i open_loop
        obtain rfl := Option.some.inj moved
        have outboxes : roll (fun w : Worker => w.outbox.length) s.workers =
            roll (fun w => w.outbox.length) (s.workers.set j { w with outbox := rest }) + 1 := roll_loses here (by simp [sent])
        have ranks : roll Worker.rank s.workers = roll Worker.rank (s.workers.set j { w with outbox := rest }) + 1 :=
          roll_loses here (by simp only [Worker.rank, sent, List.length_cons]; omega)
        have ahead : roll Worker.ahead (s.workers.set j { w with outbox := rest }) = roll Worker.ahead s.workers :=
          roll_same here rfl
        have behind : roll Worker.behind (s.workers.set j { w with outbox := rest }) = roll Worker.behind s.workers :=
          roll_same here rfl
        refine ⟨⟨count, ?_, ?_, by simpa [Sys.set] using size, open_loop⟩, ?_⟩
        · simp only [Sys.pending, Sys.set]
          rw [ahead, behind]
          exact whole
        · simp only [Sys.set]
          rw [behind]
          omega
        · simp only [Sys.rank, Sys.set]
          omega
      · cases moved
    · cases moved

theorem valid_run {ms : List (Move Sys Action)} (run : Run (Succeeds (step Z)) (initial seed workers) ms t) :
    Valid seed workers t :=
  (run.inductive_invariant (I := Valid seed workers) (fun _ _ _ valid stepped => (valid_step valid stepped).1)
    (valid_initial seed workers)).2

/-! ### The end of the sink -/

/-- A worker has slept for every task behind it, and has no task and no message left. -/
def Worker.Idle (w : Worker) : Prop := w.inbox = [] ∧ w.busy = none ∧ w.outbox = []

/-- Until its end the sink has never received more than one message without a task that a
    worker has slept for. Where it has ended, in whatever order the messages came, the tasks
    that the workers have slept for are those that the ventilator has drawn, each once, and
    nothing is left to do. -/
theorem pipeline_complete {ms : List (Move Sys Action)} (run : Run (Succeeds (step Z)) (initial seed workers) ms t) :
    t.received ≤ 1 + (roll Worker.behind t.workers).card ∧
      (t.received = 101 → roll Worker.behind t.workers = tasks seed ∧ t.starting = false ∧ t.count = 100 ∧
        t.outbox = [] ∧ ∀ w ∈ t.workers, w.Idle) := by
  obtain ⟨count, whole, counted, size, most⟩ := valid_run run
  refine ⟨by omega, fun ended => ?_⟩
  have cards := congrArg Multiset.card whole
  rw [Multiset.card_add, Multiset.card_add, card_pending, card_tasks] at cards
  have none : (roll Worker.ahead t.workers).card = 0 := by omega
  have nothing := Multiset.card_eq_zero.mp none
  have drawn : t.pending = 0 := Multiset.card_eq_zero.mp (by rw [card_pending]; omega)
  have silent : roll (fun w : Worker => w.outbox.length) t.workers = 0 := by omega
  refine ⟨?_, ?_, by omega, List.length_eq_zero_iff.mp (by omega), fun w member => ?_⟩
  · rw [← whole, drawn, nothing, zero_add, zero_add]
  · cases starting : t.starting with
    | false => rfl
    | true =>
      rw [starting, Bool.toNat_true] at counted
      omega
  · have empty : w.ahead = 0 := by
      refine Multiset.eq_zero_of_forall_notMem fun x here => ?_
      have somewhere : x ∈ roll Worker.ahead t.workers := mem_roll.mpr ⟨w, member, here⟩
      rw [nothing] at somewhere
      exact absurd somewhere (Multiset.notMem_zero x)
    have answered : w.outbox.length = 0 := by
      obtain ⟨n, here⟩ := List.mem_iff_getElem?.mp member
      have part := roll_loses (f := fun w : Worker => w.outbox.length) (b := .fresh) (e := w.outbox.length) here
        (by simp [Worker.fresh])
      omega
    simp only [Worker.ahead, Multiset.coe_eq_zero, List.append_eq_nil_iff, List.map_eq_nil_iff] at empty
    exact ⟨empty.1, by simpa using empty.2, List.length_eq_zero_iff.mp answered⟩

/-- Two workers take the tasks in turn; the message of the ventilator is the last to arrive. -/
def shift : List Action :=
  .start 7 :: (List.range 100).flatMap (fun i => [.send (i % 2), .recv (i % 2), .finish (i % 2), .sink_worker (i % 2)]) ++
    [.sink_ventilator]

theorem pipeline_complete_shift :
    let t := final (step .plain) (initial 1 2) shift
    (roll Worker.behind t.workers).card = 100 ∧ roll Worker.behind t.workers = tasks 1 ∧ t.starting = false ∧
      t.count = 100 ∧ t.outbox = [] ∧ ∀ w ∈ t.workers, w.Idle := by
  intro t
  have run : Run (Succeeds (step .plain)) (initial 1 2) _ t := run_final (step .plain) (by decide +kernel)
  have complete := (pipeline_complete run).2 (by decide +kernel)
  exact ⟨by rw [complete.1, card_tasks], complete⟩

/-- Every run has at most 402 steps, and where there is a worker, one that cannot go on has
    come to the end of the sink. -/
theorem pipeline_ends {ms : List (Move Sys Action)} (run : Run (Succeeds (step Z)) (initial seed workers) ms t) :
    ms.length ≤ 402 ∧ (workers ≠ 0 → (∀ a u, step Z t a ≠ .ok u) → t.received = 101) := by
  have valid := valid_run run
  constructor
  · have lowers : ∀ s a t, True → Valid seed workers s → step Z s a = .ok t → t.rank < s.rank := by
      intro s a t _ valid stepped
      have one := (valid_step valid stepped).2
      omega
    have short := run.length_le (I := Valid seed workers) (C := fun _ _ => True) Sys.rank
      (fun _ _ _ _ valid stepped => (valid_step valid stepped).1) lowers (valid_initial seed workers) fun _ _ => trivial
    have all : (initial seed workers).rank = 402 := by
      have none : roll Worker.rank (List.replicate workers .fresh) = 0 := roll_replicate workers rfl
      simp [Sys.rank, initial, none]
    omega
  · intro staffed stuck
    obtain ⟨count, whole, counted, size, most⟩ := valid
    have stuck : ∀ a, t.next Z a = none := by
      intro a
      cases next : t.next Z a with
      | none => rfl
      | some u => exact absurd (by rw [step, next]) (stuck a u)
    by_contra early
    have few : t.received < 101 := by omega
    have started : t.starting = false := by
      have start := stuck (.start 0)
      cases starting : t.starting with
      | false => rfl
      | true => simp [Sys.next, Sys.start, starting] at start
    have drawn : t.count = 100 := by
      have send := stuck (.send 0)
      by_contra more
      have here : t.workers[0]? = some (t.workers.get ⟨0, by omega⟩) := List.getElem?_eq_getElem _
      have few : ¬ (t.starting = true ∨ 100 ≤ t.count) := by simp [started]; omega
      simp [Sys.next, Sys.send, few, here] at send
    have sent : t.outbox = [] := by
      have sink := stuck .sink_ventilator
      cases outbox : t.outbox with
      | nil => rfl
      | cons message rest => simp [Sys.next, Sys.sink_ventilator, outbox, few] at sink
    have idle : ∀ w ∈ t.workers, w.Idle := by
      intro w member
      obtain ⟨j, here⟩ := List.mem_iff_getElem?.mp member
      obtain ⟨inbox, busy, slept, outbox⟩ := w
      have finish := stuck (.finish j)
      cases busy with
      | some workload => simp [Sys.next, here, Worker.finish] at finish
      | none =>
        have recv := stuck (.recv j)
        cases inbox with
        | cons message rest => simp [Sys.next, here, Worker.recv] at recv
        | nil =>
          have sink := stuck (.sink_worker j)
          cases outbox with
          | cons message rest => simp [Sys.next, Sys.sink_worker, here, few] at sink
          | nil => exact ⟨rfl, rfl, rfl⟩
    have nothing : roll Worker.ahead t.workers = 0 := by
      refine roll_eq_zero fun w member => ?_
      obtain ⟨inbox, busy, -⟩ := idle w member
      simp [Worker.ahead, inbox, busy]
    have silent : roll (fun w : Worker => w.outbox.length) t.workers = 0 :=
      roll_eq_zero fun w member => by rw [(idle w member).2.2, List.length_nil]
    have cards := congrArg Multiset.card whole
    rw [Multiset.card_add, Multiset.card_add, card_pending, card_tasks, nothing, Multiset.card_zero] at cards
    rw [sent, started, silent] at counted
    simp at counted
    omega

theorem pipeline_ends_shift :
    (moves (step .plain) (initial 1 2) shift).length ≤ 402 ∧ (final (step .plain) (initial 1 2) shift).received = 101 := by
  have run : Run (Succeeds (step .plain)) (initial 1 2) _ (final (step .plain) (initial 1 2) shift) := run_final (step .plain) (by decide +kernel)
  have finished : (final (step .plain) (initial 1 2) shift).rank = 0 := by decide +kernel
  have stuck : ∀ a u, step .plain (final (step .plain) (initial 1 2) shift) a ≠ .ok u := by
    intro a u stepped
    have one := (valid_step (valid_run run) stepped).2
    omega
  exact ⟨(pipeline_ends run).1, (pipeline_ends run).2 (by decide) stuck⟩

end

end Canna.Pipeline
