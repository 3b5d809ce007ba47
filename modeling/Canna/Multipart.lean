import Canna.Names

/-!
# Multipart messages

The sockets of the brokers, as `canna_core.cpp` uses them: `canna_recv` gives out one
frame of the first message that has arrived, `canna_sendmore` and `canna_send` build a
message frame by frame, and a message travels in one piece. What arrives for it is up to
libzmq (`Transport`): a router socket puts the identity of the sender before a message,
and takes the first frame of what it sends as the identity of the receiver; a REQ socket
puts an empty frame first and takes it off again. The identities of `canna_setid` differ
where its random numbers do (`canna_setid_injective`), and none is the word `READY`.
-/
namespace Canna.Multipart
open Canna.Names (Text)

/-- A message of one or more frames. -/
structure Message where
  first : Text
  more : List Text
  deriving DecidableEq, Repr

/-- A `zmq::socket_t`: the messages that have arrived, of which the first may be read in
    part, the frames sent of a message without its last one, and the messages sent that
    have not left yet. -/
structure Zsocket where
  inbox : List Message
  pending : List Text
  outbox : List Message
  deriving DecidableEq, Repr

def Zsocket.fresh : Zsocket := ⟨[],[],[]⟩

@[simp] theorem fresh_inbox : Zsocket.fresh.inbox = [] := rfl
@[simp] theorem fresh_pending : Zsocket.fresh.pending = [] := rfl
@[simp] theorem fresh_outbox : Zsocket.fresh.outbox = [] := rfl

/-- Why a step yields no state: it is not possible in the state, the thread waits for
    a frame within its step, an assertion fails, the front of an empty queue is read, or
    a string is made of a null pointer. -/
inductive Halt
  | disabled
  | blocked
  | assertion
  | emptyQueue
  | nullString
  deriving DecidableEq, Repr

/-! ### Receiving and sending -/

def canna_recv (socket : Zsocket) : Except Halt (Text × Zsocket) :=
  match socket.inbox with
  | [] => .error .blocked
  | message :: rest =>
    match message.more with
    | [] => .ok (message.first,{ socket with inbox := rest })
    | frame :: frames => .ok (message.first,{ socket with inbox := ⟨frame,frames⟩ :: rest })

def canna_sendmore (socket : Zsocket) (string : Text) : Zsocket :=
  { socket with pending := socket.pending ++ [string] }

def canna_send (socket : Zsocket) (string : Text) : Zsocket :=
  match socket.pending with
  | [] => { socket with outbox := socket.outbox ++ [⟨string,[]⟩] }
  | first :: more => { socket with pending := [], outbox := socket.outbox ++ [⟨first,more ++ [string]⟩] }

/-- `assert(empty.size() == 0)`. -/
def assert_empty (string : Text) : Except Halt Unit := if string.length = 0 then .ok () else .error .assertion

section
variable (socket : Zsocket) (rest : List Message) (first frame string : Text) (frames pending : List Text)
  (outbox : List Message)

@[simp] theorem canna_recv_last :
    canna_recv ⟨⟨first,[]⟩ :: rest,pending,outbox⟩ = .ok (first,⟨rest,pending,outbox⟩) := rfl

@[simp] theorem canna_recv_more : canna_recv ⟨⟨first,frame :: frames⟩ :: rest,pending,outbox⟩ =
    .ok (first,⟨⟨frame,frames⟩ :: rest,pending,outbox⟩) := rfl

@[simp] theorem canna_sendmore_pending : canna_sendmore ⟨rest,pending,outbox⟩ string =
    ⟨rest,pending ++ [string],outbox⟩ := rfl

@[simp] theorem canna_send_single : canna_send ⟨rest,[],outbox⟩ string = ⟨rest,[],outbox ++ [⟨string,[]⟩]⟩ := rfl

@[simp] theorem canna_send_last : canna_send ⟨rest,first :: frames,outbox⟩ string =
    ⟨rest,[],outbox ++ [⟨first,frames ++ [string]⟩]⟩ := rfl

@[simp] theorem assert_empty_nil : assert_empty [] = .ok () := rfl

end

/-! ### Between the sockets -/

/-- A message of a REQ socket as a router socket gives it out. -/
def from_req (identity : Text) (message : Message) : Message := ⟨identity,[] :: message.first :: message.more⟩

/-- What a REQ socket gives out of the frames that a router socket sends it; a message
    that does not begin with an empty frame is discarded. -/
def to_req : List Text → List Message
  | [] :: first :: more => [⟨first,more⟩]
  | _ => []

/-- A message of a dealer or a router socket as a router socket gives it out. -/
def from_dealer (identity : Text) (message : Message) : Message := ⟨identity,message.first :: message.more⟩

/-- What a dealer socket gives out of the frames that a router socket sends it. -/
def to_dealer : List Text → List Message
  | [] => []
  | first :: more => [⟨first,more⟩]

/-- What libzmq makes of a message between two sockets: the messages that arrive for the one
    that has left. None is lost or doubled, and each has its envelope. Where a publisher has
    `high_water_mark` messages on their way to a subscriber, it may drop more of them. -/
structure Transport where
  req_router : Text → Message → List Message
  router_req : List Text → List Message
  dealer_router : Text → Message → List Message
  router_dealer : List Text → List Message
  router_router : Text → Message → List Message
  frame : Text → List Text
  high_water_mark : Nat
  req_arrives : ∀ identity message, req_router identity message = [from_req identity message]
  reply_arrives : ∀ frames, router_req frames = to_req frames
  dealer_arrives : ∀ identity message, dealer_router identity message = [from_dealer identity message]
  answer_arrives : ∀ frames, router_dealer frames = to_dealer frames
  router_arrives : ∀ identity message, router_router identity message = [from_dealer identity message]
  frame_arrives : ∀ text, frame text = [text]
  room : 256 ≤ high_water_mark

attribute [simp] Transport.req_arrives Transport.reply_arrives Transport.dealer_arrives Transport.answer_arrives
  Transport.router_arrives Transport.frame_arrives

/-- The default of libzmq for the high-water mark is 1000. -/
def Transport.plain : Transport where
  req_router := fun identity message => [from_req identity message]
  router_req := to_req
  dealer_router := fun identity message => [from_dealer identity message]
  router_dealer := to_dealer
  router_router := fun identity message => [from_dealer identity message]
  frame := fun text => [text]
  high_water_mark := 1000
  req_arrives := fun _ _ => rfl
  reply_arrives := fun _ => rfl
  dealer_arrives := fun _ _ => rfl
  answer_arrives := fun _ => rfl
  router_arrives := fun _ _ => rfl
  frame_arrives := fun _ => rfl
  room := by decide

/-! ### Identities -/

def READY : Text := [82,69,65,68,89]

/-- A digit of `std::hex << std::uppercase`. -/
def hex_digit (d : Nat) : Byte := if d < 10 then UInt8.ofNat (48 + d) else UInt8.ofNat (55 + d)

/-- A number with `std::setw(4) << std::setfill('0')`. -/
def hex4 (n : Nat) : Text := (List.leftpad 4 0 (Nat.digits 16 n).reverse).map hex_digit

/-- `canna_setid`, with the values of `CANNA_RAND(0x10000)` in it. -/
def canna_setid (first second : Nat) : Text := hex4 first ++ 45 :: hex4 second

/-- The digit that a character stands for. -/
def unhex (b : Byte) : Nat := if b.toNat < 58 then b.toNat - 48 else b.toNat - 55

theorem digits_leftpad (n d : Nat) (member : d ∈ List.leftpad 4 0 (Nat.digits 16 n).reverse) : d < 16 := by
  simp only [List.leftpad, List.mem_append, List.mem_reverse] at member
  rcases member with zero | digit
  · rw [List.eq_of_mem_replicate zero]; decide
  · exact Nat.digits_lt_base (by decide) digit

theorem unhex_hex_digit {d : Nat} (small : d < 16) : unhex (hex_digit d) = d := by
  unfold unhex hex_digit
  by_cases decimal : d < 10
  · rw [if_pos decimal, UInt8.toNat_ofNat']
    rw [if_pos (by omega)]
    omega
  · rw [if_neg decimal, UInt8.toNat_ofNat']
    rw [if_neg (by omega)]
    omega

theorem hex_digit_ne_hyphen {d : Nat} (small : d < 16) : hex_digit d ≠ 45 := by
  intro same
  have value := unhex_hex_digit small
  rw [same] at value
  have zero : d = 0 := by simpa [unhex] using value.symm
  subst zero
  exact absurd same (by decide)

theorem hyphen_not_mem_hex4 (n : Nat) : (45 : Byte) ∉ hex4 n := by
  intro member
  obtain ⟨d, digit, same⟩ := List.mem_map.mp member
  exact hex_digit_ne_hyphen (digits_leftpad n d digit) same

theorem hex4_injective {m n : Nat} (same : hex4 m = hex4 n) : m = n := by
  have value : ∀ n, Nat.ofDigits 16 ((hex4 n).reverse.map unhex) = n := by
    intro n
    have digit : ∀ d ∈ (List.leftpad 4 0 (Nat.digits 16 n).reverse).reverse, (unhex ∘ hex_digit) d = id d :=
      fun d member => unhex_hex_digit (digits_leftpad n d (List.mem_reverse.mp member))
    rw [hex4, ← List.map_reverse, List.map_map, List.map_congr_left digit, List.map_id, List.leftpad,
      List.reverse_append, List.reverse_reverse, List.reverse_replicate, Nat.ofDigits_append_replicate_zero,
      Nat.ofDigits_digits]
  rw [← value m, same, value n]

/-- Different random numbers give different identities. -/
theorem canna_setid_injective {a b c d : Nat} (same : canna_setid a b = canna_setid c d) : a = c ∧ b = d := by
  have before : ∀ n (text : Text), (hex4 n ++ 45 :: text).takeWhile (· ≠ 45) = hex4 n := by
    intro n text
    rw [List.takeWhile_append_of_pos]
    · simp
    · intro b member
      simp only [decide_eq_true_eq]
      rintro rfl
      exact hyphen_not_mem_hex4 n member
  have first : hex4 a = hex4 c := by rw [← before a (hex4 b), ← before c (hex4 d)]; exact congrArg _ same
  have second : hex4 b = hex4 d := by
    have rest : hex4 a ++ 45 :: hex4 b = hex4 a ++ 45 :: hex4 d := by
      rw [canna_setid, canna_setid, ← first] at same
      exact same
    exact (List.cons.inj (List.append_cancel_left rest)).2
  exact ⟨hex4_injective first, hex4_injective second⟩

/-- The identity of a pair of random numbers. -/
def drawn (draw : Nat × Nat) : Text := canna_setid draw.1 draw.2

theorem drawn_injective : Function.Injective drawn := by
  intro draw other same
  obtain ⟨first, second⟩ := canna_setid_injective same
  exact Prod.ext first second

theorem canna_setid_ne_ready (a b : Nat) : canna_setid a b ≠ READY := by
  intro same
  have hyphen : (45 : Byte) ∈ canna_setid a b := by simp [canna_setid]
  rw [same] at hyphen
  exact absurd hyphen (by decide)

end Canna.Multipart
