import Canna.Bytes

/-!
# The database server

The request loop of `main`: a request received on the reply socket is copied to
`command` and executed, and its result is sent back. A reply socket gives out the
next request only after a reply to the last one; a `recv` before throws, which ends
the program. Requests and replies alternate as long as no request is longer than the
buffer (`main_loop_answers_iff`): the loop goes on without a reply to one that is. A
request that fills the buffer leaves no zero byte behind it, so what is executed is
the request exactly where it is shorter or holds one (`handed_faithful_iff`).
-/
namespace Canna.DbServer

def COMMAND_LEN : Nat := 256

structure redisReply where
  len : Nat
  str : Memory

/-- The context of the database connection, `command` with what lies behind it, and
    whether the socket gave out a request that has no reply yet. -/
structure Server (Context : Type*) where
  context : Context
  command : Memory
  engaged : Bool

inductive Operation
  | recv
  | send (reply : List Byte)
  deriving DecidableEq, Repr

section Loop
variable {Context : Type*} (redisCommand : Context → Memory → redisReply × Context)

/-- `command` cleared and the request copied into it. -/
def copied (command : Memory) (request : List Byte) : Memory :=
  (command.poke 0 (List.replicate COMMAND_LEN 0)).poke 0 request

/-- The body of the loop after a request was received: the reply, none where it
    continues without one. -/
def serve (s : Server Context) (request : List Byte) : Option (List Byte) × Server Context :=
  if request.length > COMMAND_LEN then (none,{ s with engaged := true })
  else
    let command := copied s.command request
    let (result,context) := redisCommand s.context command
    (some (result.str.peek 0 result.len),⟨context,command,false⟩)

/-- The operations on the socket while the requests come in, up to the `recv` that
    waits for a further request or is rejected. -/
def main_loop (s : Server Context) : List (List Byte) → List Operation
  | [] => [.recv]
  | request :: requests =>
    if s.engaged then [.recv]
    else
      match serve redisCommand s request with
      | (some reply,next) => .recv :: .send reply :: main_loop next requests
      | (none,next) => .recv :: main_loop next requests

/-- The requests that the loop lets through, each with the `command` that `redisCommand`
    gets. -/
def handed (s : Server Context) : List (List Byte) → List (List Byte × Memory)
  | [] => []
  | request :: requests =>
    if s.engaged then []
    else
      match serve redisCommand s request with
      | (some _,next) => (request,next.command) :: handed next requests
      | (none,next) => handed next requests

end Loop

/-- A `recv` first, and then one after each reply. -/
def Alternates : List Operation → Prop
  | .recv :: .send _ :: rest => Alternates rest
  | .recv :: .recv :: _ => False
  | [.recv] => True
  | .send _ :: _ => False
  | [] => False

def Operation.isSend : Operation → Bool
  | .send _ => true
  | .recv => false

@[simp] theorem isSend_send (reply : List Byte) : (Operation.send reply).isSend = true := rfl
@[simp] theorem isSend_recv : Operation.recv.isSend = false := rfl

/-- Operations alternate, and there is a reply to each request. -/
def Answers (requests : List (List Byte)) (operations : List Operation) : Prop :=
  Alternates operations ∧ operations.countP Operation.isSend = requests.length

variable {Context : Type*} (redisCommand : Context → Memory → redisReply × Context)

/-- A loop that owes a reply issues one more `recv`. -/
theorem main_loop_engaged {s : Server Context} (engaged : s.engaged = true) (requests : List (List Byte)) :
    main_loop redisCommand s requests = [.recv] := by
  cases requests with
  | nil => rfl
  | cons request requests => simp [main_loop, engaged]

theorem main_loop_rejects {s : Server Context} (ready : s.engaged = false) {request : List Byte}
    (long : COMMAND_LEN < request.length) (requests : List (List Byte)) :
    main_loop redisCommand s (request :: requests) = [.recv,.recv] := by
  simp only [main_loop, ready, serve, gt_iff_lt, long, if_true]
  rw [main_loop_engaged redisCommand rfl]
  rfl

theorem main_loop_replies {s : Server Context} (ready : s.engaged = false) {request : List Byte}
    (fits : request.length ≤ COMMAND_LEN) (requests : List (List Byte)) :
    ∃ reply next, next.engaged = false ∧
      main_loop redisCommand s (request :: requests) = .recv :: .send reply :: main_loop redisCommand next requests := by
  have short : ¬ request.length > COMMAND_LEN := Nat.not_lt.mpr fits
  let result := redisCommand s.context (copied s.command request)
  have served : serve redisCommand s request =
      (some (result.1.str.peek 0 result.1.len),⟨result.2,copied s.command request,false⟩) := if_neg short
  refine ⟨result.1.str.peek 0 result.1.len, ⟨result.2,copied s.command request,false⟩, rfl, ?_⟩
  simp only [main_loop, ready, served]
  rfl

/-- Requests and replies alternate, with a reply to each request, if and only if no
    request is longer than the buffer. -/
theorem main_loop_answers_iff (context : Context) (command : Memory) (requests : List (List Byte)) :
    Answers requests (main_loop redisCommand ⟨context,command,false⟩ requests) ↔
      ∀ request ∈ requests, request.length ≤ COMMAND_LEN := by
  generalize started : (⟨context,command,false⟩ : Server Context) = s
  have ready : s.engaged = false := by rw [← started]
  clear started
  induction requests generalizing s with
  | nil => simp [main_loop, Answers, Alternates]
  | cons request requests ih =>
    by_cases fits : request.length ≤ COMMAND_LEN
    · obtain ⟨reply, next, readyNext, replied⟩ := main_loop_replies redisCommand ready fits requests
      have later := ih next readyNext
      rw [replied]
      simpa [Answers, Alternates, List.countP_cons, fits] using later
    · rw [main_loop_rejects redisCommand ready (by omega)]
      simp [Answers, Alternates, fits]

/-- A database that returns an empty string. -/
def silent : Unit → Memory → redisReply × Unit := fun _ _ => (⟨0,fun _ => 0⟩,())

/-- After a request of 257 bytes the loop issues a second `recv`, with no reply sent. -/
theorem main_loop_unanswered : ¬ Answers [List.replicate 257 0]
    (main_loop silent ⟨(),fun _ => 0,false⟩ [List.replicate 257 0]) := by
  have long : COMMAND_LEN < (List.replicate 257 (0 : Byte)).length := by
    rw [List.length_replicate]
    decide
  rw [main_loop_rejects silent rfl long]
  exact fun answers => answers.1

/-! ### The commands -/

/-- The requests whose commands are executed are those that are answered. -/
theorem handed_length (s : Server Context) (requests : List (List Byte)) :
    (handed redisCommand s requests).length = (main_loop redisCommand s requests).countP Operation.isSend := by
  induction requests generalizing s with
  | nil => rfl
  | cons request requests ih =>
    by_cases engaged : s.engaged
    · simp [handed, main_loop, engaged]
    · simp only [handed, main_loop, engaged]
      cases serve redisCommand s request with
      | mk reply next => cases reply <;> simp [ih, List.countP_cons]

/-- A zero byte ends the string in the buffer, and the string is the request up to its
    first one. -/
def Faithful (request : List Byte) (command : Memory) : Prop :=
  (∃ i < COMMAND_LEN, command i = 0) ∧ command.cstring 0 COMMAND_LEN = request.takeWhile (· ≠ 0)

/-- The buffer holds the request and zero bytes, nothing of what it held before. -/
theorem copied_peek (command : Memory) {request : List Byte} (fits : request.length ≤ COMMAND_LEN) :
    (copied command request).peek 0 COMMAND_LEN =
      request ++ List.replicate (COMMAND_LEN - request.length) 0 := by
  obtain ⟨free, size⟩ := Nat.exists_eq_add_of_le fits
  have written (m : Memory) : (m.poke 0 request).peek 0 COMMAND_LEN = request ++ m.peek request.length free := by
    have behind : 0 + request.length ≤ request.length := by omega
    rw [size, Memory.peek_add, Memory.peek_poke, Nat.zero_add, Memory.peek_poke_apart _ (.inr behind)]
  have cleared : (command.poke 0 (List.replicate COMMAND_LEN 0)).peek request.length free =
      List.replicate free 0 := by
    have inside : request.length + free ≤ (List.replicate COMMAND_LEN (0 : Byte)).length := by simp [size]
    have part := command.peek_poke_inside 0 _ inside
    rw [Nat.zero_add, List.drop_replicate, List.take_replicate] at part
    rw [part, size, Nat.add_sub_cancel_left, Nat.min_self]
  rw [copied, written, cleared, size, Nat.add_sub_cancel_left]

theorem copied_faithful_iff (command : Memory) {request : List Byte} (fits : request.length ≤ COMMAND_LEN) :
    Faithful request (copied command request) ↔ request.length < COMMAND_LEN ∨ 0 ∈ request := by
  have stored := copied_peek command fits
  have string := Memory.cstring_of_padded stored
  have zero : (∃ i < COMMAND_LEN, copied command request i = 0) ↔ request.length < COMMAND_LEN ∨ 0 ∈ request := by
    have ended := Memory.exists_zero_iff (copied command request) 0 COMMAND_LEN
    have room : COMMAND_LEN - request.length ≠ 0 ↔ request.length < COMMAND_LEN := by omega
    simp only [Nat.zero_add] at ended
    rw [ended, stored, List.mem_append, List.mem_replicate, room, and_iff_left rfl, or_comm]
  exact (and_iff_left string).trans zero

theorem handed_cons_long {s : Server Context} (ready : s.engaged = false) {request : List Byte}
    (long : COMMAND_LEN < request.length) (requests : List (List Byte)) :
    handed redisCommand s (request :: requests) = [] := by
  have served : serve redisCommand s request = (none,{ s with engaged := true }) := if_pos long
  simp only [handed, ready, served]
  cases requests <;> rfl

theorem handed_cons_short {s : Server Context} (ready : s.engaged = false) {request : List Byte}
    (fits : request.length ≤ COMMAND_LEN) (requests : List (List Byte)) :
    ∃ next, next.engaged = false ∧ handed redisCommand s (request :: requests) =
      (request,copied s.command request) :: handed redisCommand next requests := by
  have short : ¬ request.length > COMMAND_LEN := Nat.not_lt.mpr fits
  let result := redisCommand s.context (copied s.command request)
  have served : serve redisCommand s request =
      (some (result.1.str.peek 0 result.1.len),⟨result.2,copied s.command request,false⟩) := if_neg short
  refine ⟨⟨result.2,copied s.command request,false⟩, rfl, ?_⟩
  simp only [handed, ready, served]
  rfl

/-- What is executed is the request, for each request that is let through, if and only if
    each of them is shorter than the buffer or holds a zero byte. Requests are let through
    up to the first that is too long. -/
theorem handed_faithful_iff (context : Context) (command : Memory) (requests : List (List Byte)) :
    (∀ pair ∈ handed redisCommand ⟨context,command,false⟩ requests, Faithful pair.1 pair.2) ↔
      ∀ request ∈ requests.takeWhile (·.length ≤ COMMAND_LEN), request.length < COMMAND_LEN ∨ 0 ∈ request := by
  generalize started : (⟨context,command,false⟩ : Server Context) = s
  have ready : s.engaged = false := by rw [← started]
  clear started
  induction requests generalizing s with
  | nil => simp [handed]
  | cons request requests ih =>
    by_cases fits : request.length ≤ COMMAND_LEN
    · obtain ⟨next, readyNext, passed⟩ := handed_cons_short redisCommand ready fits requests
      have first := copied_faithful_iff s.command fits
      have later := ih next readyNext
      rw [passed, List.takeWhile_cons_of_pos (by simpa using fits), List.forall_mem_cons, List.forall_mem_cons]
      exact and_congr first later
    · rw [handed_cons_long redisCommand ready (by omega), List.takeWhile_cons_of_neg (by simpa using fits)]
      simp

/-- A request of 256 bytes without a zero byte leaves none in the buffer. -/
theorem handed_unended : ¬ ∀ pair ∈ handed silent ⟨(),fun _ => 0,false⟩ [List.replicate 256 65],
    Faithful pair.1 pair.2 := by
  have fits : (List.replicate 256 (65 : Byte)).length ≤ COMMAND_LEN := by
    rw [List.length_replicate]
    decide
  obtain ⟨next, _, passed⟩ := handed_cons_short silent (s := ⟨(),fun _ => 0,false⟩) rfl fits []
  rw [passed, List.forall_mem_cons, copied_faithful_iff _ fits, List.length_replicate, List.mem_replicate]
  intro faithful
  exact absurd faithful.1 (by decide)

end Canna.DbServer
