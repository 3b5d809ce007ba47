import Canna.Bytes
import Mathlib.Data.Fin.Basic
import Mathlib.Data.Fintype.Basic
import Mathlib.Data.Nat.Digits.Lemmas
import Mathlib.Logic.Function.Basic

/-!
# Name allotment

`name_ctrl` of the name server: for each group a serial and a set of 256 bits,
from which `allotnamepair` issues the names `group-oooo` and `getnamelist` lists
them. A group that has received `k` names holds the serial `k - 1` and the first
`k` bits (`Holds`); so the cyclic search always stops at its first probe, names
are issued in ascending order (`allotnamepair_holds`) and listed in that order
(`getnamelist_holds`).
-/
namespace Canna.Names

/-- A `std::string`. -/
abbrev Text := List Byte

def SERIAL_SIZE : Nat := 256

/-- `std::bitset<SERIAL_SIZE>`. -/
abbrev Bitset := Fin SERIAL_SIZE → Bool

namespace Bitset

def all (b : Bitset) : Bool := decide (∀ i, b i = true)
def count (b : Bitset) : Nat := (List.finRange SERIAL_SIZE).countP b
def set (b : Bitset) (i : Fin SERIAL_SIZE) : Bitset := Function.update b i true
def empty : Bitset := fun _ => false

end Bitset

/-- `name_pair`. -/
structure NamePair where
  serial : Nat
  bitset : Bitset

/-- `name_ctrl`, with `m_serialmap` as a partial function. -/
structure NameCtrl where
  m_serialmap : Text → Option NamePair

def NameCtrl.fresh : NameCtrl := ⟨fun _ => none⟩
def NameCtrl.insert (c : NameCtrl) (name : Text) (pair : NamePair) : NameCtrl :=
  ⟨Function.update c.m_serialmap name (some pair)⟩

/-- `sprintf(buff, "-%.4o", serial)`: a hyphen and at least four octal digits. -/
def suffix (serial : Nat) : Text :=
  45 :: (List.leftpad 4 0 (Nat.digits 8 serial).reverse).map fun d => UInt8.ofNat (48 + d)

/-- `(serial+1) & 0xff`. -/
def next (serial : Nat) : Fin SERIAL_SIZE :=
  ⟨(serial + 1) &&& 0xff, Nat.lt_of_le_of_lt Nat.and_le_right (by decide)⟩

/-- The `for ( ; ; )` of `allotnamepair`, for at most `fuel` rounds. -/
def search (bitset : Bitset) : (fuel : Nat) → (serial : Nat) → Option (Fin SERIAL_SIZE)
  | 0, _ => none
  | fuel + 1, serial => if !bitset (next serial) then some (next serial) else search bitset fuel (next serial)

/-- `allotnamepair(name)`; `none` when the search is still going after as many
    rounds as there are serials. -/
def allotnamepair (c : NameCtrl) (name : Text) : Option (Text × NameCtrl) :=
  match c.m_serialmap name with
  | some pair =>
    if pair.bitset.all then some ([], c)
    else (search pair.bitset SERIAL_SIZE pair.serial).map fun (serial : Fin SERIAL_SIZE) =>
      (name ++ suffix serial, c.insert name ⟨serial, pair.bitset.set serial⟩)
  | none => some (name ++ [45,48,48,48,48], c.insert name ⟨0, Bitset.empty.set ⟨0, by decide⟩⟩)

/-- The loop of `getnamelist`, which stops when `count` reaches `total`. -/
def scan (name : Text) (bitset : Bitset) (total : Nat) : List (Fin SERIAL_SIZE) → (count : Nat) → List Text
  | [], _ => []
  | i :: rest, count =>
    if bitset i then (name ++ suffix i) :: (if count + 1 ≥ total then [] else scan name bitset total rest (count + 1))
    else scan name bitset total rest count

def getnamelist (c : NameCtrl) (name : Text) : List Text :=
  match c.m_serialmap name with
  | some pair => scan name pair.bitset pair.bitset.count (List.finRange SERIAL_SIZE) 0
  | none => []

/-! ### The suffix -/

theorem suffix_length {serial : Nat} (small : serial < SERIAL_SIZE) : (suffix serial).length = 5 := by
  have digits : (Nat.digits 8 serial).length ≤ 4 :=
    (Nat.digits_length_le_iff (by decide) serial).mpr (by simp only [SERIAL_SIZE] at small; omega)
  simp [suffix, digits]

theorem suffix_ne_nil (serial : Nat) : suffix serial ≠ [] := by simp [suffix]

/-- The number a suffix spells. -/
def serialOf (text : Text) : Nat := Nat.ofDigits 8 (text.tail.reverse.map fun b => b.toNat - 48)

theorem serialOf_suffix (serial : Nat) : serialOf (suffix serial) = serial := by
  have digit : ∀ d ∈ (List.leftpad 4 0 (Nat.digits 8 serial).reverse).reverse,
      ((fun b : Byte => b.toNat - 48) ∘ fun d => UInt8.ofNat (48 + d)) d = id d := by
    intro d member
    have small : d < 8 := by
      simp only [List.leftpad, List.reverse_append, List.mem_append, List.mem_reverse] at member
      rcases member with digit | zero
      · exact Nat.digits_lt_base (by decide) digit
      · rw [List.eq_of_mem_replicate zero]; decide
    simp only [Function.comp_apply, UInt8.toNat_ofNat', id]
    omega
  rw [serialOf, suffix, List.tail_cons, ← List.map_reverse, List.map_map, List.map_congr_left digit,
    List.map_id, List.leftpad, List.reverse_append, List.reverse_reverse, List.reverse_replicate,
    Nat.ofDigits_append_replicate_zero, Nat.ofDigits_digits]

/-- Names of different groups or with different serials differ: the suffix has
    a fixed width. -/
theorem name_injective {g h : Text} {i j : Nat} (left : i < SERIAL_SIZE) (right : j < SERIAL_SIZE)
    (same : g ++ suffix i = h ++ suffix j) : g = h ∧ i = j := by
  have width : (suffix i).length = (suffix j).length := by rw [suffix_length left, suffix_length right]
  obtain ⟨groups, suffixes⟩ := List.append_inj' same width
  exact ⟨groups, by rw [← serialOf_suffix i, suffixes, serialOf_suffix]⟩

/-! ### Groups that have received names -/

/-- The first `k` bits. -/
def firstBits (k : Nat) : Bitset := fun i => decide (i.val < k)

/-- The entry of a group that has received `k` names. -/
def entry : Nat → Option NamePair
  | 0 => none
  | k + 1 => some ⟨k, firstBits (k + 1)⟩

/-- The first `k` names of a group. -/
def issued (g : Text) (k : Nat) : List Text := (List.range k).map fun i => g ++ suffix i

/-- Every group holds the entry of the number of names it has received. -/
structure Holds (c : NameCtrl) (received : Text → Nat) : Prop where
  bound : ∀ g, received g ≤ SERIAL_SIZE
  entries : ∀ g, c.m_serialmap g = entry (received g)

/-- One more name for a group, as long as there is one. -/
def grant (received : Text → Nat) (g : Text) : Text → Nat :=
  Function.update received g (min (received g + 1) SERIAL_SIZE)

/-- The answer to a group that has received `k` names. -/
def answer (g : Text) (k : Nat) : Text := if k < SERIAL_SIZE then g ++ suffix k else []

theorem holds_fresh : Holds NameCtrl.fresh fun _ => 0 := ⟨fun _ => Nat.zero_le _, fun _ => rfl⟩

theorem all_firstBits (k : Nat) : (firstBits k).all = decide (SERIAL_SIZE ≤ k) := by
  rw [Bitset.all, decide_eq_decide]
  constructor
  · intro full
    have last := full ⟨SERIAL_SIZE - 1, by decide⟩
    simp only [firstBits, decide_eq_true_eq] at last
    omega
  · intro full i
    have bound := i.isLt
    simp only [firstBits, decide_eq_true_eq]
    omega

theorem set_firstBits {k : Nat} (small : k < SERIAL_SIZE) : (firstBits k).set ⟨k, small⟩ = firstBits (k + 1) := by
  funext i
  by_cases same : i = ⟨k, small⟩
  · subst same; simp [Bitset.set, firstBits]
  · have different : i.val ≠ k := fun equal => same (Fin.ext equal)
    rw [Bitset.set, Function.update_of_ne same, firstBits, firstBits, decide_eq_decide]
    omega

theorem next_val {serial : Nat} (small : serial + 1 < SERIAL_SIZE) : (next serial).val = serial + 1 := by
  have masked : (serial + 1) &&& 255 = (serial + 1) % 2 ^ 8 := Nat.and_two_pow_sub_one_eq_mod (serial + 1) 8
  simp only [SERIAL_SIZE] at small
  show (serial + 1) &&& 255 = serial + 1
  omega

/-- Behind the last serial of the first bits the search stops at its first probe. -/
theorem search_firstBits (fuel : Nat) {k : Nat} (small : k + 1 < SERIAL_SIZE) :
    search (firstBits (k + 1)) (fuel + 1) k = some ⟨k + 1, small⟩ := by
  have probed : next k = ⟨k + 1, small⟩ := Fin.ext (next_val small)
  simp [search, probed, firstBits]

theorem grant_holds {c : NameCtrl} {received : Text → Nat} (holds : Holds c received) {g : Text}
    (small : received g < SERIAL_SIZE) :
    Holds (c.insert g ⟨received g, firstBits (received g + 1)⟩) (grant received g) := by
  have more : min (received g + 1) SERIAL_SIZE = received g + 1 := by omega
  constructor
  · intro h
    by_cases same : h = g
    · subst same; simp [grant]
    · simpa [grant, Function.update_of_ne same] using holds.bound h
  · intro h
    by_cases same : h = g
    · subst same; simp [grant, NameCtrl.insert, more, entry]
    · simp [grant, NameCtrl.insert, Function.update_of_ne same, holds.entries]

theorem grant_full {c : NameCtrl} {received : Text → Nat} (holds : Holds c received) {g : Text}
    (full : SERIAL_SIZE ≤ received g) : grant received g = received := by
  funext h
  by_cases same : h = g
  · subst same
    have bound := holds.bound h
    simp only [grant, Function.update_self]
    omega
  · simp [grant, Function.update_of_ne same]

/-- `allotnamepair` issues the next name of its group, or answers the empty
    string when the group has received them all. -/
theorem allotnamepair_holds {c : NameCtrl} {received : Text → Nat} (holds : Holds c received) (g : Text) :
    ∃ after, allotnamepair c g = some (answer g (received g), after) ∧ Holds after (grant received g) := by
  have found := holds.entries g
  cases count : received g with
  | zero =>
    rw [count] at found
    have first : Bitset.empty.set ⟨0, by decide⟩ = firstBits (0 + 1) := by
      rw [← set_firstBits (by decide)]; rfl
    have zeros : suffix 0 = [45,48,48,48,48] := by simp [suffix, List.leftpad]
    have granted := grant_holds holds (g := g) (by rw [count]; decide)
    rw [count] at granted
    refine ⟨_, ?_, granted⟩
    simp only [allotnamepair, found, entry, first, answer, zeros, if_pos (show 0 < SERIAL_SIZE by decide)]
  | succ k =>
    rw [count] at found
    by_cases small : k + 1 < SERIAL_SIZE
    · have granted := grant_holds holds (g := g) (by rw [count]; exact small)
      rw [count] at granted
      have searched : search (firstBits (k + 1)) SERIAL_SIZE k = some ⟨k + 1, small⟩ :=
        search_firstBits 255 small
      refine ⟨_, ?_, granted⟩
      simp only [allotnamepair, found, entry, all_firstBits, decide_eq_true_eq, if_neg (Nat.not_le.mpr small),
        searched, Option.map_some, answer, if_pos small, set_firstBits small]
    · have full : SERIAL_SIZE ≤ k + 1 := by omega
      refine ⟨c, ?_, by rw [grant_full holds (by omega)]; exact holds⟩
      simp only [allotnamepair, found, entry, all_firstBits, full, decide_true, if_true, answer, if_neg small]

/-- The early exit of the listing loop leaves out no name. -/
theorem scan_eq (name : Text) (bitset : Bitset) (rest : List (Fin SERIAL_SIZE)) (count : Nat) :
    scan name bitset (count + rest.countP bitset) rest count =
      (rest.filter bitset).map fun (i : Fin SERIAL_SIZE) => name ++ suffix i := by
  induction rest generalizing count with
  | nil => rfl
  | cons i rest ih =>
    by_cases set : bitset i
    · have total : count + (i :: rest).countP bitset = count + 1 + rest.countP bitset := by
        simp [set]; omega
      simp only [scan, set, if_true, total, List.filter_cons, List.map_cons, List.cons.injEq, true_and]
      by_cases last : count + 1 ≥ count + 1 + rest.countP bitset
      · have none : rest.countP bitset = 0 := by omega
        have clear : rest.filter bitset = [] := List.filter_eq_nil_iff.mpr (List.countP_eq_zero.mp none)
        rw [if_pos last, clear, List.map_nil]
      · rw [if_neg last, ih]
    · have total : count + (i :: rest).countP bitset = count + rest.countP bitset := by
        simp [set]
      simp only [scan, set, Bool.false_eq_true, if_false, total, List.filter_cons, ih]

theorem filter_firstBits {k : Nat} (bound : k ≤ SERIAL_SIZE) :
    ((List.finRange SERIAL_SIZE).filter (firstBits k)).map Fin.val = List.range k := by
  have split : List.range SERIAL_SIZE = List.range k ++ (List.range (SERIAL_SIZE - k)).map (k + ·) := by
    rw [← List.range_add]; congr 1; omega
  have values : (List.finRange SERIAL_SIZE).map Fin.val = List.range SERIAL_SIZE := by
    apply List.ext_getElem <;> simp
  have filtered : ((List.finRange SERIAL_SIZE).filter (firstBits k)).map Fin.val =
      (List.range SERIAL_SIZE).filter fun i => decide (i < k) := by
    rw [← values, List.filter_map]; rfl
  have kept : (List.range k).filter (fun i => decide (i < k)) = List.range k :=
    List.filter_eq_self.mpr fun i member => by simpa using member
  have dropped : ((List.range (SERIAL_SIZE - k)).map (k + ·)).filter (fun i => decide (i < k)) = [] :=
    List.filter_eq_nil_iff.mpr fun i member => by
      obtain ⟨j, _, rfl⟩ := List.mem_map.mp member
      simp
  rw [filtered, split, List.filter_append, kept, dropped, List.append_nil]

/-- `getnamelist` lists the names its group has received, in the order of issue. -/
theorem getnamelist_holds {c : NameCtrl} {received : Text → Nat} (holds : Holds c received) (g : Text) :
    getnamelist c g = issued g (received g) := by
  have found := holds.entries g
  have bound := holds.bound g
  cases count : received g with
  | zero => rw [count] at found; simp [getnamelist, found, entry, issued]
  | succ k =>
    rw [count] at found bound
    have listed := scan_eq g (firstBits (k + 1)) (List.finRange SERIAL_SIZE) 0
    rw [Nat.zero_add] at listed
    simp only [getnamelist, found, entry, Bitset.count, listed, issued, ← filter_firstBits bound, List.map_map]
    rfl

/-! ### Runs -/

/-- A call of `allotnamepair` or `getnamelist`. -/
inductive Op
  | allot (name : Text)
  | list (name : Text)

inductive Reply
  | name (issued : Text)
  | names (listed : List Text)

def call (c : NameCtrl) : Op → Option (Reply × NameCtrl)
  | .allot name => (allotnamepair c name).map fun (issued, after) => (.name issued, after)
  | .list name => some (.names (getnamelist c name), c)

/-- The replies of a sequence of calls and the controller afterwards. -/
def run (c : NameCtrl) : List Op → Option (List Reply × NameCtrl)
  | [] => some ([], c)
  | op :: ops => (call c op).bind fun (reply, next) =>
      (run next ops).map fun (replies, after) => (reply :: replies, after)

/-- The non-empty name that a call issued to the group, if it did. -/
def issuedTo (g : Text) : Op × Reply → Option Text
  | (.allot h, .name issued) => if h = g ∧ issued ≠ [] then some issued else none
  | _ => none

/-- The non-empty names that the calls issued to the group, in order. -/
def history (g : Text) (ops : List Op) (replies : List Reply) : List Text :=
  (ops.zip replies).filterMap (issuedTo g)

theorem history_cons (g : Text) (op : Op) (reply : Reply) (ops : List Op) (replies : List Reply) :
    history g (op :: ops) (reply :: replies) = (issuedTo g (op, reply)).toList ++ history g ops replies := by
  cases one : issuedTo g (op, reply) <;> simp [history, one]

theorem answer_ne_nil {g : Text} {k : Nat} : answer g k ≠ [] ↔ k < SERIAL_SIZE := by
  by_cases small : k < SERIAL_SIZE <;> simp [answer, small, suffix_ne_nil]

theorem issued_succ (g : Text) (k : Nat) : issued g (k + 1) = issued g k ++ [g ++ suffix k] := by
  simp [issued, List.range_succ]

/-- The names issued up to a call and the one it issues are the names issued
    after it. -/
theorem issued_grant {c : NameCtrl} {received : Text → Nat} (holds : Holds c received) (g h : Text) :
    issued g (grant received h g) =
      issued g (received g) ++ (issuedTo g (.allot h, .name (answer h (received h)))).toList := by
  by_cases same : h = g
  · subst same
    by_cases small : received h < SERIAL_SIZE
    · have more : min (received h + 1) SERIAL_SIZE = received h + 1 := by omega
      have given : issuedTo h (.allot h, .name (answer h (received h))) = some (h ++ suffix (received h)) := by
        rw [issuedTo, if_pos ⟨rfl, answer_ne_nil.mpr small⟩, answer, if_pos small]
      rw [given, grant, Function.update_self, more, issued_succ, Option.toList_some]
    · simp [grant_full holds (Nat.le_of_not_lt small), issuedTo, answer_ne_nil, small]
  · simp [grant, issuedTo, same, Function.update_of_ne (Ne.symm same)]

theorem run_holds {c : NameCtrl} {received : Text → Nat} (holds : Holds c received) (ops : List Op) :
    ∃ replies after later, run c ops = some (replies, after) ∧ replies.length = ops.length ∧
      Holds after later ∧ ∀ g, issued g (later g) = issued g (received g) ++ history g ops replies := by
  induction ops generalizing c received with
  | nil => exact ⟨[], c, received, rfl, rfl, holds, fun g => by simp [history]⟩
  | cons op ops ih =>
    cases op with
    | list h =>
      obtain ⟨replies, after, later, executed, len, held, names⟩ := ih holds
      refine ⟨.names (getnamelist c h) :: replies, after, later, by simp [run, call, executed], by simp [len],
        held, ?_⟩
      intro g
      rw [names g, history_cons]
      rfl
    | allot h =>
      obtain ⟨next, allotted, granted⟩ := allotnamepair_holds holds h
      obtain ⟨replies, after, later, executed, len, held, names⟩ := ih granted
      refine ⟨.name (answer h (received h)) :: replies, after, later, by simp [run, call, allotted, executed],
        by simp [len], held, ?_⟩
      intro g
      rw [names g, issued_grant holds g h, List.append_assoc, history_cons]

theorem issued_length (g : Text) (k : Nat) : (issued g k).length = k := by simp [issued]

/-- Every allotment in a run is answered by the number of names its group has
    received before. -/
theorem run_reply {c : NameCtrl} {received : Text → Nat} (holds : Holds c received) {ops : List Op}
    {replies : List Reply} {after : NameCtrl} (executed : run c ops = some (replies, after)) {i : Nat} {g : Text}
    (allots : ops[i]? = some (.allot g)) :
    replies[i]? = some (.name (answer g (received g + (history g (ops.take i) (replies.take i)).length))) := by
  induction ops generalizing c received replies i with
  | nil => simp at allots
  | cons op ops ih =>
    obtain ⟨reply, next, rest, called, continued, rfl⟩ : ∃ reply next rest, call c op = some (reply, next) ∧
        run next ops = some (rest, after) ∧ replies = reply :: rest := by
      simp only [run, Option.bind_eq_some_iff, Option.map_eq_some_iff, Prod.exists, Prod.mk.injEq] at executed
      obtain ⟨reply, next, called, rest, last, continued, rfl, rfl⟩ := executed
      exact ⟨reply, next, rest, called, continued, rfl⟩
    cases op with
    | list h =>
      cases i with
      | zero => simp at allots
      | succ i =>
        simp only [call, Option.some.injEq, Prod.mk.injEq] at called
        obtain ⟨rfl, rfl⟩ := called
        simpa [history_cons, issuedTo] using ih holds continued (by simpa using allots)
    | allot h =>
      obtain ⟨granted, allotted, held⟩ := allotnamepair_holds holds h
      simp only [call, allotted, Option.map_some, Option.some.injEq, Prod.mk.injEq] at called
      obtain ⟨rfl, rfl⟩ := called
      cases i with
      | zero =>
        simp only [List.getElem?_cons_zero, Option.some.injEq, Op.allot.injEq] at allots
        subst allots
        simp [history]
      | succ i =>
        have later := ih held continued (by simpa using allots)
        have one := congrArg List.length (issued_grant holds g h)
        rw [List.length_append, issued_length, issued_length] at one
        rw [List.getElem?_cons_succ, later, List.take_succ_cons, List.take_succ_cons, history_cons,
          List.length_append, ← Nat.add_assoc, one]

theorem history_take (g : Text) (ops : List Op) (replies : List Reply) (i : Nat) :
    history g (ops.take i) (replies.take i) = ((ops.zip replies).take i).filterMap (issuedTo g) := by
  simp only [history, List.zip, List.take_zipWith]

theorem history_take_le (g : Text) (ops : List Op) (replies : List Reply) (i : Nat) :
    (history g (ops.take i) (replies.take i)).length ≤ (history g ops replies).length := by
  rw [history_take]
  exact ((List.take_sublist i (ops.zip replies)).filterMap (issuedTo g)).length_le

theorem history_grows {g : Text} {ops : List Op} {replies : List Reply} {i j : Nat} {op : Op} {reply : Reply}
    (before : i < j) (called : ops[i]? = some op) (replied : replies[i]? = some reply) :
    (history g (ops.take i) (replies.take i)).length + (issuedTo g (op, reply)).toList.length ≤
      (history g (ops.take j) (replies.take j)).length := by
  have last : (ops.zip replies)[i]? = some (op, reply) := by simp [List.getElem?_zip_eq_some, called, replied]
  have front : ((ops.zip replies).take (i + 1)).Sublist ((ops.zip replies).take j) :=
    List.take_sublist_take_left (by omega)
  have longer := (front.filterMap (issuedTo g)).length_le
  rw [List.take_add_one, last, List.filterMap_append, List.length_append] at longer
  rw [history_take, history_take]
  cases one : issuedTo g (op, reply) <;> simpa [one] using longer

/-- No name is issued twice, to one group or to two, and a group is refused
    exactly when it has received 256 names. -/
theorem names_unique (ops : List Op) :
    ∃ replies after, run .fresh ops = some (replies, after) ∧ replies.length = ops.length ∧
      (∀ (i : Nat) (g : Text), ops[i]? = some (.allot g) → ∃ m, replies[i]? = some (.name m) ∧
        (m = [] ↔ (history g (ops.take i) (replies.take i)).length = 256)) ∧
      ∀ (i j : Nat) (g h m n : Text), i < j → ops[i]? = some (.allot g) → ops[j]? = some (.allot h) →
        replies[i]? = some (.name m) → replies[j]? = some (.name n) → m = n → m = [] := by
  obtain ⟨replies, after, later, executed, len, held, names⟩ := run_holds holds_fresh ops
  have replied : ∀ {i : Nat} {g m : Text}, ops[i]? = some (.allot g) → replies[i]? = some (.name m) →
      m = answer g (history g (ops.take i) (replies.take i)).length := by
    intro i g m allots reply
    have exact_reply := run_reply holds_fresh executed allots
    simpa [reply] using exact_reply
  refine ⟨replies, after, executed, len, ?_, ?_⟩
  · intro i g allots
    refine ⟨_, run_reply holds_fresh executed allots, ?_⟩
    have total := congrArg List.length (names g)
    rw [List.length_append, issued_length, issued_length] at total
    have bound := held.bound g
    have part := history_take_le g ops replies i
    rw [← not_iff_not, ← ne_eq, answer_ne_nil]
    simp only [SERIAL_SIZE] at bound ⊢
    omega
  · intro i j g h m n before first second left right same
    by_contra nonempty
    have small : (history g (ops.take i) (replies.take i)).length < SERIAL_SIZE := by
      rw [replied first left] at nonempty
      exact answer_ne_nil.mp nonempty
    have large : (history h (ops.take j) (replies.take j)).length < SERIAL_SIZE := by
      rw [same, replied second right] at nonempty
      exact answer_ne_nil.mp nonempty
    have names_equal := same
    rw [replied first left, replied second right, answer, answer, if_pos small, if_pos large] at names_equal
    obtain ⟨rfl, counts⟩ := name_injective small large names_equal
    have given : issuedTo g (.allot g, .name m) = some m := by simp [issuedTo, nonempty]
    have grown := history_grows (g := g) before first left
    rw [given, Option.toList_some, List.length_singleton] at grown
    omega

theorem issued_nodup {g : Text} {k : Nat} (bound : k ≤ SERIAL_SIZE) : (issued g k).Nodup := by
  refine List.Nodup.map_on ?_ List.nodup_range
  intro i left j right same
  exact (name_injective (by have := List.mem_range.mp left; omega)
    (by have := List.mem_range.mp right; omega) same).2

/-- The listing of a group is faithful: after any calls it is the non-empty
    names issued to the group, each once and in order; and no later call but an
    allotment to the group changes it. -/
theorem getnamelist_faithful (ops : List Op) :
    ∃ replies after, run .fresh ops = some (replies, after) ∧ replies.length = ops.length ∧
      ∀ g, getnamelist after g = history g ops replies ∧ (getnamelist after g).Nodup ∧
        (∀ h, call after (.list h) = some (.names (getnamelist after h), after)) ∧
        ∀ h, h ≠ g → ∃ name next, allotnamepair after h = some (name, next) ∧
          getnamelist next g = getnamelist after g := by
  obtain ⟨replies, after, later, executed, len, held, names⟩ := run_holds holds_fresh ops
  refine ⟨replies, after, executed, len, ?_⟩
  intro g
  refine ⟨?_, ?_, fun h => rfl, ?_⟩
  · rw [getnamelist_holds held, names g]; simp [issued]
  · rw [getnamelist_holds held]
    exact issued_nodup (held.bound g)
  · intro h other
    obtain ⟨next, allotted, granted⟩ := allotnamepair_holds held h
    refine ⟨_, next, allotted, ?_⟩
    rw [getnamelist_holds granted, getnamelist_holds held, grant, Function.update_of_ne (Ne.symm other)]

end Canna.Names
