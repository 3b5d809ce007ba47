import Canna.Bytes
import Mathlib.Data.UInt

/-!
# The control pipe

How the public calls of `socket_server` reach the poll thread: `send_request`
writes two header bytes, the type and the length of the body, and then the body;
`ctrl_cmd` reads the header, and then as many bytes as its second byte says. The
body is the front of a `request_package` union, laid out for 8-byte pointers
(`Call.package`, `decode_package`). A length of 256, that of a connect request with
a host of 232 bytes, is sent as 0; without it every sequence of requests is decoded
at its message boundaries, and with it none is (`decodes_iff`).
-/
namespace Canna.ControlPipe
open Canna.Memory

/-- A request, named as its member of the union; `int` stands for the integers and
    `ptr` for the pointer to the data to send. `request_exit` is the type `X`, which
    has no body. -/
inductive Request (int ptr : Type)
  | request_open (id port : int) (opaqueVal : UInt64) (host : List Byte)
  | request_send (id sz : int) (buffer : ptr)
  | request_close (id : int) (opaqueVal : UInt64)
  | request_listen (id fd : int) (opaqueVal : UInt64)
  | request_bind (id fd : int) (opaqueVal : UInt64)
  | request_start (id : int) (opaqueVal : UInt64)
  | request_setopt (id what value : int)
  | request_exit
  deriving DecidableEq

/-! ### Members of the union -/

def putInt (m : Memory) (pos : Nat) (i : Int32) : Memory := m.poke pos (toBytes 4 i.toUInt32.toNat)
def putLong (m : Memory) (pos : Nat) (w : UInt64) : Memory := m.poke pos (toBytes 8 w.toNat)
def getInt (m : Memory) (pos : Nat) : Int32 := (UInt32.ofNat (ofBytes (m.peek pos 4))).toInt32
def getLong (m : Memory) (pos : Nat) : UInt64 := UInt64.ofNat (ofBytes (m.peek pos 8))

/-- `sizeof(request_open)`: two integers, a pointer and one character, padded. -/
def sizeof_open : Nat := 24
/-- The offset of `host` in `request_open`. -/
def offsetof_host : Nat := 16

/-- The arguments of `send_request`: the type, the length and the union, which holds
    whatever the stack held where no member was written. -/
structure Package where
  type : Byte
  len : Nat
  u : Memory

/-- The bytes that `send_request` writes: `header[6]`, `header[7]` and `len` bytes
    of the union. -/
def send_request (request : Package) : List Byte :=
  request.type :: UInt8.ofNat request.len :: request.u.peek 0 request.len

/-! ### The public calls -/

/-- A C string. -/
def CString := {bytes : List Byte // 0 ∉ bytes}

/-- What becomes of the address in `open_request`. -/
inductive Admission
  | rejected
  | faulted
  | accepted (len : Nat)
  deriving DecidableEq

/-- `strlen(addr)` assigned to an `int`. -/
def strlen (addr : CString) : Int := cint addr.val.length

/-- The test of `open_request`; the sum with `sizeof` is a `size_t`. A negative
    length that passes the test ends in the `memcpy`. -/
def admission (addr : CString) : Admission :=
  if ulong (strlen addr + sizeof_open) > 256 then .rejected
  else if strlen addr < 0 then .faulted
  else .accepted (strlen addr).toNat

/-- A call of the public interface, with the id that `reserve_id` gave it and the
    descriptor that `do_listen` gave it. -/
inductive Call
  | server_listen (opaqueVal : UInt64) (id fd : Int32)
  | server_start (opaqueVal : UInt64) (id : Int32)
  | server_bind (opaqueVal : UInt64) (id fd : Int32)
  | server_connect (opaqueVal : UInt64) (id : Int32) (addr : CString) (port : Int32)
  | server_close (opaqueVal : UInt64) (id : Int32)
  | server_send (id : Int32) (buffer : UInt64) (sz : Int32)
  | server_exit

/-- `open_request` and the length `server_connect` sends, for an address taken in
    this way. -/
def open_request (stack : Memory) (opaqueVal : UInt64) (id : Int32) (addr : CString) (port : Int32) :
    Admission → Option Package
  | .accepted len =>
    let u := putInt (putInt (putLong stack 8 opaqueVal) 0 id) 4 port
    some ⟨79, sizeof_open + len, (u.poke offsetof_host (addr.val.take len)).poke (offsetof_host + len) [0]⟩
  | _ => none

/-- What a call hands to `send_request`; `none` when it sends nothing. -/
def Call.package (stack : Memory) : Call → Option Package
  | .server_listen opaqueVal id fd => some ⟨76, 24, putInt (putInt (putLong stack 8 opaqueVal) 0 id) 4 fd⟩
  | .server_start opaqueVal id => some ⟨83, 16, putLong (putInt stack 0 id) 8 opaqueVal⟩
  | .server_bind opaqueVal id fd => some ⟨66, 16, putInt (putInt (putLong stack 8 opaqueVal) 0 id) 4 fd⟩
  | .server_connect opaqueVal id addr port => open_request stack opaqueVal id addr port (admission addr)
  | .server_close opaqueVal id => some ⟨75, 16, putLong (putInt stack 0 id) 8 opaqueVal⟩
  | .server_send id buffer sz => some ⟨68, 16, putLong (putInt (putInt stack 0 id) 4 sz) 8 buffer⟩
  | .server_exit => some ⟨88, 0, stack⟩

/-- The bytes of the address that `open_request` copies. -/
def Admission.host (addr : CString) : Admission → List Byte
  | .accepted len => addr.val.take len
  | _ => []

/-- The request a call makes. -/
def Call.request : Call → Request Int32 UInt64
  | .server_listen opaqueVal id fd => .request_listen id fd opaqueVal
  | .server_start opaqueVal id => .request_start id opaqueVal
  | .server_bind opaqueVal id fd => .request_bind id fd opaqueVal
  | .server_connect opaqueVal id addr port => .request_open id port opaqueVal ((admission addr).host addr)
  | .server_close opaqueVal id => .request_close id opaqueVal
  | .server_send id buffer sz => .request_send id sz buffer
  | .server_exit => .request_exit

/-- The packages that a sequence of calls, each with its own stack, sends. -/
def sent (calls : List (Call × Memory)) : List Package := calls.filterMap fun c => c.1.package c.2

/-- What the calls write to the pipe. -/
def stream (packages : List Package) : List Byte := packages.flatMap send_request

/-! ### The reader -/

/-- `block_readpipe` on the bytes in the pipe; `none` when they are fewer than asked
    for, which its assertion excludes. -/
def block_readpipe (pipe : List Byte) (sz : Nat) : Option (List Byte × List Byte) :=
  if sz ≤ pipe.length then some (pipe.take sz, pipe.drop sz) else none

/-- What `ctrl_cmd` reads: the type, the body and the bytes left in the pipe. -/
def readMessage (pipe : List Byte) : Option ((Byte × List Byte) × List Byte) :=
  (block_readpipe pipe 2).bind fun
    | ([type, len], pipe) => (block_readpipe pipe len.toNat).map fun (body, rest) => ((type, body), rest)
    | _ => none

/-- The dispatch of `ctrl_cmd`: its casts of the buffer. -/
def decode (type : Byte) (buffer : Memory) : Option (Request Int32 UInt64) :=
  if type = 83 then some (.request_start (getInt buffer 0) (getLong buffer 8))
  else if type = 66 then some (.request_bind (getInt buffer 0) (getInt buffer 4) (getLong buffer 8))
  else if type = 76 then some (.request_listen (getInt buffer 0) (getInt buffer 4) (getLong buffer 8))
  else if type = 75 then some (.request_close (getInt buffer 0) (getLong buffer 8))
  else if type = 79 then
    some (.request_open (getInt buffer 0) (getInt buffer 4) (getLong buffer 8)
      (buffer.cstring offsetof_host (256 - offsetof_host)))
  else if type = 88 then some .request_exit
  else if type = 68 then some (.request_send (getInt buffer 0) (getInt buffer 4) (getLong buffer 8))
  else if type = 84 then some (.request_setopt (getInt buffer 0) (getInt buffer 4) (getInt buffer 8))
  else none

/-- Reading the pipe call after call yields the packages: each read consumes exactly
    what one `send_request` wrote, yields its type and its body, and leaves the pipe
    at the next message. -/
def Decodes : List Package → List Byte → Prop
  | [], pipe => pipe = []
  | p :: ps, pipe => ∃ rest, pipe = send_request p ++ rest ∧ rest = stream ps ∧
      readMessage pipe = some ((p.type, p.u.peek 0 p.len), rest) ∧ Decodes ps rest

/-! ### Members read back -/

section
variable (m n : Memory) {pos start size : Nat}

theorem getInt_putInt (i : Int32) : getInt (putInt m pos i) pos = i := by
  have stored := peek_poke m pos (toBytes 4 i.toUInt32.toNat)
  rw [toBytes_length] at stored
  rw [getInt, putInt, stored, ofBytes_toBytes i.toUInt32.toNat_lt, UInt32.ofNat_toNat]
  rfl

theorem getLong_putLong (w : UInt64) : getLong (putLong m pos w) pos = w := by
  have stored := peek_poke m pos (toBytes 8 w.toNat)
  rw [toBytes_length] at stored
  rw [getLong, putLong, stored, ofBytes_toBytes w.toNat_lt, UInt64.ofNat_toNat]

theorem getInt_poke {bytes : List Byte} (apart : pos + 4 ≤ start ∨ start + bytes.length ≤ pos) :
    getInt (m.poke start bytes) pos = getInt m pos := by
  rw [getInt, getInt, peek_poke_apart m apart]

theorem getLong_poke {bytes : List Byte} (apart : pos + 8 ≤ start ∨ start + bytes.length ≤ pos) :
    getLong (m.poke start bytes) pos = getLong m pos := by
  rw [getLong, getLong, peek_poke_apart m apart]

theorem getInt_putInt_apart (i : Int32) (apart : pos + 4 ≤ start ∨ start + 4 ≤ pos) :
    getInt (putInt m start i) pos = getInt m pos := getInt_poke m (by simpa using apart)

theorem getInt_putLong_apart (w : UInt64) (apart : pos + 4 ≤ start ∨ start + 8 ≤ pos) :
    getInt (putLong m start w) pos = getInt m pos := getInt_poke m (by simpa using apart)

theorem getLong_putInt_apart (i : Int32) (apart : pos + 8 ≤ start ∨ start + 4 ≤ pos) :
    getLong (putInt m start i) pos = getLong m pos := getLong_poke m (by simpa using apart)

theorem getInt_copy (fits : pos + 4 ≤ size) : getInt (m.poke 0 (n.peek 0 size)) pos = getInt n pos := by
  rw [getInt, getInt, peek_copy m n fits]

theorem getLong_copy (fits : pos + 8 ≤ size) : getLong (m.poke 0 (n.peek 0 size)) pos = getLong n pos := by
  rw [getLong, getLong, peek_copy m n fits]

end

/-! ### The admitted addresses -/

/-- The package of a connect request with an admitted length. -/
def accepted_package (stack : Memory) (opaqueVal : UInt64) (id : Int32) (addr : CString) (port : Int32)
    (len : Nat) : Package :=
  ⟨79, sizeof_open + len, ((putInt (putInt (putLong stack 8 opaqueVal) 0 id) 4 port).poke offsetof_host
    (addr.val.take len)).poke (offsetof_host + len) [0]⟩

theorem open_request_iff {stack : Memory} {opaqueVal : UInt64} {id port : Int32} {addr : CString} {p : Package}
    (taken : Admission) : open_request stack opaqueVal id addr port taken = some p ↔
      ∃ len, taken = .accepted len ∧ p = accepted_package stack opaqueVal id addr port len := by
  cases taken with
  | accepted len =>
    simp only [open_request, Option.some.injEq, Admission.accepted.injEq, exists_eq_left', accepted_package]
    exact eq_comm
  | _ => simp [open_request]

theorem admission_bound {addr : CString} {len : Nat} (accepted : admission addr = .accepted len) :
    len ≤ 232 ∧ len ≤ addr.val.length := by
  have within : strlen addr ≤ addr.val.length := cint_le
  have high : strlen addr < 2 ^ 31 := cint_lt _
  unfold admission at accepted
  by_cases fits : ulong (strlen addr + sizeof_open) > 256
  · rw [if_pos fits] at accepted
    simp at accepted
  · rw [if_neg fits] at accepted
    by_cases negative : strlen addr < 0
    · rw [if_pos negative] at accepted
      simp at accepted
    · rw [if_neg negative, Admission.accepted.injEq] at accepted
      have sum : ulong (strlen addr + sizeof_open) = (strlen addr).toNat + sizeof_open := by
        have natural : strlen addr + sizeof_open = ((strlen addr).toNat + sizeof_open : Nat) := by omega
        rw [natural]
        exact ulong_of_nat (by simp only [sizeof_open]; omega)
      rw [sum, sizeof_open] at fits
      omega

theorem admission_of_short {addr : CString} (short : addr.val.length ≤ 232) :
    admission addr = .accepted addr.val.length := by
  have length : strlen addr = addr.val.length := cint_of_small (by omega) (by omega)
  have sum : ulong (strlen addr + sizeof_open) = addr.val.length + sizeof_open := by
    rw [length, ← Int.natCast_add]
    exact ulong_of_nat (by simp only [sizeof_open]; omega)
  have fits : ¬ addr.val.length + sizeof_open > 256 := by simp only [sizeof_open]; omega
  have natural : ¬ (addr.val.length : Int) < 0 := by omega
  rw [admission, sum, length, if_neg fits, if_neg natural, Int.toNat_natCast]

section
variable (buffer stack : Memory) (opaqueVal : UInt64) (id port : Int32) {host : List Byte}

/-- The body of a connect request, copied into a buffer. -/
private def opened (host : List Byte) : Memory :=
  buffer.poke 0 (((((putInt (putInt (putLong stack 8 opaqueVal) 0 id) 4 port).poke offsetof_host host).poke
    (offsetof_host + host.length) [0]).peek 0 (sizeof_open + host.length)))

theorem opened_host (noNul : 0 ∉ host) (bound : host.length ≤ 232) :
    (opened buffer stack opaqueVal id port host).cstring offsetof_host (256 - offsetof_host) = host := by
  apply cstring_of_peek noNul (by simp only [offsetof_host]; omega)
  rw [opened, peek_copy _ _ (by simp only [offsetof_host, sizeof_open]; omega), peek_add,
    peek_poke_apart _ (Or.inl (Nat.le_refl _)), peek_poke]
  congr 1
  exact peek_poke _ (offsetof_host + host.length) [0]

theorem opened_fields (host : List Byte) : getInt (opened buffer stack opaqueVal id port host) 0 = id ∧
    getInt (opened buffer stack opaqueVal id port host) 4 = port ∧
    getLong (opened buffer stack opaqueVal id port host) 8 = opaqueVal := by
  have header : 16 ≤ offsetof_host := Nat.le_refl _
  have size : 16 ≤ sizeof_open := by decide
  refine ⟨?_, ?_, ?_⟩
  · rw [opened, getInt_copy _ _ (by omega), getInt_poke _ (by omega), getInt_poke _ (by omega),
      getInt_putInt_apart _ _ (by omega), getInt_putInt]
  · rw [opened, getInt_copy _ _ (by omega), getInt_poke _ (by omega), getInt_poke _ (by omega), getInt_putInt]
  · rw [opened, getLong_copy _ _ (by omega), getLong_poke _ (by omega), getLong_poke _ (by omega),
      getLong_putInt_apart _ _ (by omega), getLong_putInt_apart _ _ (by omega), getLong_putLong]

end

/-- The casts of `ctrl_cmd` read the request that was made, whatever the buffer held. -/
theorem decode_package {call : Call} {stack : Memory} {p : Package} (packed : call.package stack = some p)
    (buffer : Memory) : decode p.type (buffer.poke 0 (p.u.peek 0 p.len)) = some call.request := by
  cases call with
  | server_connect opaqueVal id addr port =>
    rw [Call.package] at packed
    obtain ⟨len, admitted, rfl⟩ := (open_request_iff _).mp packed
    obtain ⟨bound, within⟩ := admission_bound admitted
    have width : (addr.val.take len).length = len := by simp; omega
    have noNul : 0 ∉ addr.val.take len := fun member => addr.property (List.mem_of_mem_take member)
    have host := opened_host buffer stack opaqueVal id port noNul (by omega)
    obtain ⟨readId, readPort, readOpaque⟩ := opened_fields buffer stack opaqueVal id port (addr.val.take len)
    simp only [opened, width] at host readId readPort readOpaque
    rw [Call.request, admitted]
    simp [decode, accepted_package, Admission.host, host, readId, readPort, readOpaque]
  | _ =>
    simp only [Call.package, Option.some.injEq] at packed
    subst packed
    simp [decode, Call.request, getInt_copy, getLong_copy, getInt_putInt, getLong_putLong, getInt_putInt_apart,
      getLong_putInt_apart, getInt_putLong_apart]

/-! ### Message boundaries -/

theorem readMessage_send {p : Package} (short : p.len < 256) (rest : List Byte) :
    readMessage (send_request p ++ rest) = some ((p.type, p.u.peek 0 p.len), rest) := by
  have len : (UInt8.ofNat p.len).toNat = p.len := by rw [UInt8.toNat_ofNat']; omega
  have width := peek_length p.u 0 p.len
  simp [readMessage, block_readpipe, send_request, len, width, List.take_append, List.drop_append]

theorem readMessage_length {type len : Byte} {pipe body rest : List Byte}
    (read : readMessage (type :: len :: pipe) = some ((type, body), rest)) : body.length = len.toNat := by
  simp only [readMessage, block_readpipe, List.length_cons, Nat.le_add_left, if_true, List.take_succ_cons,
    List.take_zero, List.drop_succ_cons, List.drop_zero, Option.bind_some] at read
  by_cases enough : len.toNat ≤ pipe.length
  · rw [if_pos enough] at read
    simp only [Option.map_some, Option.some.injEq, Prod.mk.injEq, true_and] at read
    rw [← read.1, List.length_take]
    omega
  · rw [if_neg enough] at read
    simp at read

theorem decodes_iff_short (ps : List Package) : Decodes ps (stream ps) ↔ ∀ p ∈ ps, p.len < 256 := by
  induction ps with
  | nil => simp [Decodes, stream]
  | cons p ps ih =>
    rw [List.forall_mem_cons, ← ih]
    constructor
    · rintro ⟨rest, _, rfl, read, later⟩
      refine ⟨?_, later⟩
      have width := readMessage_length read
      rw [peek_length, UInt8.toNat_ofNat'] at width
      omega
    · rintro ⟨short, later⟩
      exact ⟨stream ps, rfl, rfl, readMessage_send short _, later⟩

/-- A connect request whose host fills the body up to 256 bytes. -/
def Call.Overflows : Call → Prop
  | .server_connect _ _ addr _ => admission addr = .accepted 232
  | _ => False

theorem package_len {call : Call} {stack : Memory} {p : Package} (packed : call.package stack = some p) :
    p.len < 256 ↔ ¬ call.Overflows := by
  cases call with
  | server_connect opaqueVal id addr port =>
    rw [Call.package] at packed
    obtain ⟨len, admitted, rfl⟩ := (open_request_iff _).mp packed
    have bound := (admission_bound admitted).1
    rw [Call.Overflows, admitted, Admission.accepted.injEq]
    simp only [accepted_package, sizeof_open]
    omega
  | _ =>
    simp only [Call.package, Option.some.injEq] at packed
    subst packed
    simp [Call.Overflows]

theorem sent_of_overflows {call : Call} (overflows : call.Overflows) (stack : Memory) :
    ∃ p, call.package stack = some p := by
  cases call with
  | server_connect opaqueVal id addr port =>
    rw [Call.Overflows] at overflows
    exact ⟨_, (open_request_iff _).mpr ⟨232, overflows, rfl⟩⟩
  | _ => exact overflows.elim

theorem decodes_sent (calls : List (Call × Memory)) :
    Decodes (sent calls) (stream (sent calls)) ↔ ∀ c ∈ calls, ¬ c.1.Overflows := by
  rw [decodes_iff_short]
  constructor
  · intro short c member overflows
    obtain ⟨p, packed⟩ := sent_of_overflows overflows c.2
    exact (package_len packed).mp (short p (List.mem_filterMap.mpr ⟨c, member, packed⟩)) overflows
  · intro fits p member
    obtain ⟨c, called, packed⟩ := List.mem_filterMap.mp member
    exact (package_len packed).mpr (fits c called)

/-- The reader decodes exactly the sequence of messages sent, and the casts their
    requests, if and only if no connect request has an admitted host of 232 bytes. -/
theorem decodes_iff (calls : List (Call × Memory)) :
    (Decodes (sent calls) (stream (sent calls)) ∧
      ∀ c ∈ calls, ∀ p, c.1.package c.2 = some p →
        ∀ buffer : Memory, decode p.type (buffer.poke 0 (p.u.peek 0 p.len)) = some c.1.request) ↔
      ∀ c ∈ calls, ¬ c.1.Overflows := by
  rw [decodes_sent]
  constructor
  · exact fun both => both.1
  · exact fun fits => ⟨fits, fun c _ p packed buffer => decode_package packed buffer⟩

/-- A host of 232 letters. -/
def longHost : CString :=
  ⟨List.replicate 232 97, fun member => absurd (List.eq_of_mem_replicate member) (by decide)⟩

/-- One connect to that host: its message is sent with length byte 0. -/
theorem longHost_desynchronises :
    ¬ ∀ calls : List (Call × Memory), Decodes (sent calls) (stream (sent calls)) := by
  intro decodes
  have fits := (decodes_sent _).mp (decodes [(.server_connect 0 1 longHost 80, fun _ => 0)])
  have length : longHost.val.length = 232 := List.length_replicate
  have admitted : admission longHost = .accepted 232 := length ▸ admission_of_short (by omega)
  exact fits _ List.mem_cons_self admitted

end Canna.ControlPipe
