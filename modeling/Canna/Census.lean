import Mathlib.Algebra.BigOperators.Group.Multiset.Basic
import Mathlib.Algebra.Order.Group.Multiset
import Mathlib.Tactic.Abel

/-!
# Tokens and their places

A census is the multiset of the tokens of a system, each with the place it is at. A
step that moves tokens from place to place keeps the tokens (`Moved.tokens`), so
that tokens that differ at the start are at one place each forever (`unique_place`),
and changes the load, a sum of weights of the places, by the difference of two
weights (`Moved.load`). `tally` takes the census of a list of messages and `roll`
that of a list of threads, which a step replaces one by one.
-/
namespace Canna.Census
variable {P T α β : Type*}

/-- The tokens of a census, wherever they are. -/
def tokens (c : Multiset (P × T)) : Multiset T := c.map Prod.snd

/-- The sum of the weights of the places, taken over the tokens at them. -/
def load (weight : P → Nat) (c : Multiset (P × T)) : Nat := (c.map fun entry => weight entry.1).sum

section
variable (weight : P → Nat) (c d : Multiset (P × T)) (entry : P × T)

@[simp] theorem tokens_zero : tokens (0 : Multiset (P × T)) = 0 := rfl
@[simp] theorem tokens_cons : tokens (entry ::ₘ c) = entry.2 ::ₘ tokens c := by simp [tokens]
@[simp] theorem tokens_add : tokens (c + d) = tokens c + tokens d := by simp [tokens]
@[simp] theorem load_zero : load weight (0 : Multiset (P × T)) = 0 := rfl
@[simp] theorem load_cons : load weight (entry ::ₘ c) = weight entry.1 + load weight c := by simp [load]
@[simp] theorem load_add : load weight (c + d) = load weight c + load weight d := by simp [load]

end

section
variable {weight : P → Nat} {c d : Multiset (P × T)} {i j : P} {x y : T}

theorem mem_tokens : x ∈ tokens c ↔ ∃ i, (i,x) ∈ c := by simp [tokens]

/-- Tokens that differ are counted once each. -/
theorem nodup_of_tokens (distinct : (tokens c).Nodup) : c.Nodup := Multiset.Nodup.of_map Prod.snd distinct

/-- Tokens that differ are at one place each. -/
theorem unique_place (distinct : (tokens c).Nodup) (member : x ∈ tokens c) : ∃! i, (i,x) ∈ c := by
  obtain ⟨i, here⟩ := mem_tokens.mp member
  refine ⟨i, here, ?_⟩
  intro j there
  obtain ⟨rest, rfl⟩ := Multiset.exists_cons_of_mem here
  rcases Multiset.mem_cons.mp there with same | other
  · exact congrArg Prod.fst same
  · rw [tokens_cons, Multiset.nodup_cons] at distinct
    exact absurd (mem_tokens.mpr ⟨j, other⟩) distinct.1

/-- A place that weighs something has a token where the load is positive. -/
theorem exists_of_load (weight : P → Nat) (positive : 0 < load weight c) : ∃ i x, (i,x) ∈ c ∧ 0 < weight i := by
  induction c using Multiset.induction_on with
  | empty => simp at positive
  | cons entry c ih =>
    by_cases light : weight entry.1 = 0
    · rw [load_cons, light, Nat.zero_add] at positive
      obtain ⟨i, x, member, heavy⟩ := ih positive
      exact ⟨i, x, Multiset.mem_cons_of_mem member, heavy⟩
    · exact ⟨entry.1, entry.2, Multiset.mem_cons_self _ _, Nat.pos_of_ne_zero light⟩

theorem weight_le_load (weight : P → Nat) (member : (i,x) ∈ c) : weight i ≤ load weight c := by
  obtain ⟨rest, rfl⟩ := Multiset.exists_cons_of_mem member
  simp

theorem load_le {k : Nat} (weight : P → Nat) (light : ∀ i, weight i ≤ k) (c : Multiset (P × T)) :
    load weight c ≤ k * (tokens c).card := by
  induction c using Multiset.induction_on with
  | empty => simp
  | cons entry c ih =>
    have here := light entry.1
    rw [load_cons, tokens_cons, Multiset.card_cons, Nat.mul_succ]
    omega

/-- All tokens at one place. -/
theorem tokens_at (i : P) (l : List T) : tokens (↑(l.map fun x => (i,x)) : Multiset (P × T)) = l := by
  simp [tokens, Function.comp_def]

theorem load_at (weight : P → Nat) (i : P) (l : List T) :
    load weight (↑(l.map fun x => (i,x)) : Multiset (P × T)) = weight i * l.length := by
  simp [load, Function.comp_def, mul_comm]

/-- One token went from the first place to the second. -/
def Moved (i j : P) (x : T) (c d : Multiset (P × T)) : Prop := (j,x) ::ₘ c = (i,x) ::ₘ d

theorem Moved.tokens (moved : Moved i j x c d) : tokens d = tokens c := by
  have same := congrArg Census.tokens moved
  rw [tokens_cons, tokens_cons] at same
  exact ((Multiset.cons_inj_right x).mp same).symm

theorem Moved.load (moved : Moved i j x c d) (weight : P → Nat) :
    load weight c + weight j = load weight d + weight i := by
  have same : weight j + Census.load weight c = weight i + Census.load weight d := by
    simpa using congrArg (Census.load weight) moved
  omega

theorem Moved.rfl {c : Multiset (P × T)} : Moved i i x c c := Eq.refl _

theorem Moved.add_right (moved : Moved i j x c d) (e : Multiset (P × T)) : Moved i j x (c + e) (d + e) := by
  rw [Moved, ← Multiset.cons_add, moved, Multiset.cons_add]

theorem Moved.add_left (moved : Moved i j x c d) (e : Multiset (P × T)) : Moved i j x (e + c) (e + d) := by
  rw [add_comm e c, add_comm e d]
  exact moved.add_right e

theorem Moved.mem (moved : Moved i j x c d) (other : i ≠ j) : (i,x) ∈ c := by
  have member : (i,x) ∈ (j,x) ::ₘ c := moved ▸ Multiset.mem_cons_self _ _
  rcases Multiset.mem_cons.mp member with same | here
  · exact absurd (congrArg Prod.fst same) other
  · exact here

end

/-! ### Lists -/

/-- The census of a list of messages or threads, each with a census of its own; or their
    number, each with a number of its own. -/
def roll {M : Type*} [AddCommMonoid M] (f : α → M) (l : List α) : M := (l.map f).sum

section
variable {M : Type*} [AddCancelCommMonoid M] (f : α → M) (a : α) (l m : List α)

@[simp] theorem roll_nil : roll f [] = 0 := rfl
@[simp] theorem roll_cons : roll f (a :: l) = f a + roll f l := by simp [roll]
@[simp] theorem roll_append : roll f (l ++ m) = roll f l + roll f m := by simp [roll]

variable {f a l}

theorem mem_roll {f : α → Multiset β} {entry : β} : entry ∈ roll f l ↔ ∃ a ∈ l, entry ∈ f a := by
  induction l with
  | nil => simp
  | cons a l ih => simp [ih]

theorem card_roll_single (f : α → β) (l : List α) : (roll (fun a => ({f a} : Multiset β)) l).card = l.length := by
  induction l with
  | nil => rfl
  | cons a l ih => simp [ih]

theorem roll_eq_zero (none : ∀ a ∈ l, f a = 0) : roll f l = 0 := by
  induction l with
  | nil => rfl
  | cons a l ih =>
    obtain ⟨first, rest⟩ := List.forall_mem_cons.mp none
    rw [roll_cons, first, ih rest, zero_add]

theorem roll_replicate (n : Nat) (none : f a = 0) : roll f (List.replicate n a) = 0 :=
  roll_eq_zero fun b member => by rw [List.eq_of_mem_replicate member, none]

/-- Taking a message out takes its census out. -/
theorem roll_eraseIdx {i : Nat} (here : l[i]? = some a) : roll f (l.eraseIdx i) + f a = roll f l := by
  induction l generalizing i with
  | nil => simp at here
  | cons b l ih =>
    cases i with
    | zero =>
      obtain rfl : b = a := by simpa using here
      rw [List.eraseIdx_cons_zero, roll_cons, add_comm]
    | succ i => rw [List.eraseIdx_cons_succ, roll_cons, roll_cons, add_assoc, ih (by simpa using here)]

/-- Replacing a thread replaces its census. -/
theorem roll_set {j : Nat} (here : l[j]? = some a) (b : α) : roll f (l.set j b) + f a = roll f l + f b := by
  induction l generalizing j with
  | nil => simp at here
  | cons c l ih =>
    cases j with
    | zero =>
      obtain rfl : c = a := by simpa using here
      rw [List.set_cons_zero, roll_cons, roll_cons]
      abel
    | succ j =>
      have later := ih (j := j) (by simpa using here)
      rw [List.set_cons_succ, roll_cons, roll_cons, add_assoc, later]
      abel

section
variable {b : α} {e : M} {j : Nat}

theorem roll_gains (here : l[j]? = some a) (gains : f b = f a + e) : roll f (l.set j b) = roll f l + e := by
  have replaced := roll_set (f := f) here b
  rw [gains, add_comm (f a) e, ← add_assoc] at replaced
  exact add_right_cancel replaced

theorem roll_loses (here : l[j]? = some a) (loses : f a = f b + e) : roll f l = roll f (l.set j b) + e := by
  have replaced := roll_set (f := f) here b
  rw [loses, add_comm (f b) e, ← add_assoc] at replaced
  exact (add_right_cancel replaced).symm

theorem roll_same (here : l[j]? = some a) (same : f b = f a) : roll f (l.set j b) = roll f l := by
  simpa using roll_gains (f := f) (e := 0) here (by simpa using same)

/-- A thread that moves a token moves it in the census of all threads. -/
theorem roll_moved {f : α → Multiset (P × T)} {i k : P} {x : T} (here : l[j]? = some a) (moved : Moved i k x (f a) (f b)) :
    Moved i k x (roll f l) (roll f (l.set j b)) := by
  have replaced := roll_set (f := f) here b
  have step : (k,x) ::ₘ roll f l + f b = (i,x) ::ₘ roll f (l.set j b) + f b := by
    calc (k,x) ::ₘ roll f l + f b
        = (k,x) ::ₘ (roll f (l.set j b) + f a) := by rw [replaced, Multiset.cons_add]
      _ = roll f (l.set j b) + (k,x) ::ₘ f a := by rw [Multiset.add_cons]
      _ = roll f (l.set j b) + (i,x) ::ₘ f b := by rw [moved]
      _ = (i,x) ::ₘ roll f (l.set j b) + f b := by rw [Multiset.add_cons, Multiset.cons_add]
  exact add_right_cancel step

end
end

end Canna.Census
