import Mathlib.Data.List.Basic

/-!
# Runs of labelled transition systems

A run is the list of its moves, each with the states on its two sides (`Run`).
An invariant that every step keeps under a condition on the state before it
holds along every run whose moves all meet the condition (`Run.invariant`). When
the condition is exactly what a step needs to keep the invariant, the runs that
keep it throughout are exactly the runs whose moves all meet it
(`Run.invariant_iff`). An invariant may also speak of the moves made so far
(`Run.history`), as when something has been so since the last move of a kind
(`Since`). An automaton may follow the signals that the moves send it
(`Run.observed`). A deterministic executable step (`exec`) yields runs.
-/
namespace Canna.Lts
variable {σ α ε : Type*}

/-- One transition of a run. -/
structure Move (σ α : Type*) where
  pre : σ
  act : α
  post : σ

/-- The moves lead from the first state to the last. -/
inductive Run (step : σ → α → σ → Prop) : σ → List (Move σ α) → σ → Prop
  | nil (s : σ) : Run step s [] s
  | cons {s t u : σ} {a : α} {ms : List (Move σ α)} (first : step s a t) (rest : Run step t ms u) :
      Run step s (⟨s,a,t⟩ :: ms) u

namespace Run
variable {step : σ → α → σ → Prop} {s t u : σ} {ms ns : List (Move σ α)}

theorem append (left : Run step s ms t) (right : Run step t ns u) : Run step s (ms ++ ns) u := by
  induction left with
  | nil s => exact right
  | cons first _ ih => exact .cons first (ih right)

theorem single {a : α} (only : step s a t) : Run step s [⟨s,a,t⟩] t := .cons only (.nil t)

theorem step_of_mem (run : Run step s ms t) {m : Move σ α} (member : m ∈ ms) : step m.pre m.act m.post := by
  induction run with
  | nil s => simp at member
  | cons first _ ih =>
    rcases List.mem_cons.mp member with rfl | later
    · exact first
    · exact ih later

/-- The parts of a run before and after one of its moves. -/
theorem split {m : Move σ α} (run : Run step s (ms ++ m :: ns) u) :
    Run step s ms m.pre ∧ step m.pre m.act m.post ∧ Run step m.post ns u := by
  induction ms generalizing s with
  | nil =>
    cases run with
    | cons first rest => exact ⟨.nil s, first, rest⟩
  | cons m' ms ih =>
    cases run with
    | cons first rest =>
      obtain ⟨before, here, after⟩ := ih rest
      exact ⟨.cons first before, here, after⟩

/-- The two parts of a run. -/
theorem parts (run : Run step s (ms ++ ns) u) : ∃ t, Run step s ms t ∧ Run step t ns u := by
  induction ms generalizing s with
  | nil => exact ⟨s, .nil s, run⟩
  | cons m ms ih =>
    cases run with
    | cons first rest =>
      obtain ⟨t, before, after⟩ := ih rest
      exact ⟨t, .cons first before, after⟩

/-- What holds at the start and after every move holds at the end. -/
theorem last {I : σ → Prop} (run : Run step s ms t) (start : I s) (posts : ∀ m ∈ ms, I m.post) : I t := by
  induction run with
  | nil s => exact start
  | cons first _ ih =>
    obtain ⟨next, later⟩ := List.forall_mem_cons.mp posts
    exact ih next later

/-- A property of states that every step keeps, whenever the condition on the
    state before it and its action holds, holds around every move of a run whose
    moves all meet the condition, and at its end. -/
theorem invariant {I : σ → Prop} {C : σ → α → Prop}
    (keeps : ∀ s a t, C s a → I s → step s a t → I t) (run : Run step s ms t) (start : I s)
    (conditions : ∀ m ∈ ms, C m.pre m.act) : (∀ m ∈ ms, I m.pre ∧ I m.post) ∧ I t := by
  induction run with
  | nil s => exact ⟨by simp, start⟩
  | @cons s t u a ms first _ ih =>
    have next : I t := keeps s a t (conditions _ List.mem_cons_self) start first
    obtain ⟨around, last⟩ := ih next fun m member => conditions m (List.mem_cons_of_mem _ member)
    refine ⟨?_, last⟩
    intro m member
    rcases List.mem_cons.mp member with rfl | later
    · exact ⟨start, next⟩
    · exact around m later

/-- `invariant` for an inductive invariant, one that every step keeps. -/
theorem inductive_invariant {I : σ → Prop} (keeps : ∀ s a t, I s → step s a t → I t)
    (run : Run step s ms t) (start : I s) : (∀ m ∈ ms, I m.pre ∧ I m.post) ∧ I t :=
  run.invariant (C := fun _ _ => True) (fun s a t _ => keeps s a t) start fun _ _ => trivial

/-- Where, under an inductive invariant, the condition is exactly what a step needs to
    keep a property of states, a run keeps it throughout if and only if all its moves
    meet the condition. -/
theorem invariant_iff {J I : σ → Prop} {C : σ → α → Prop} (keeps : ∀ s a t, J s → step s a t → J t)
    (precise : ∀ s a t, J s → I s → step s a t → (I t ↔ C s a)) (run : Run step s ms t) (valid : J s) (start : I s) :
    (∀ m ∈ ms, I m.post) ↔ ∀ m ∈ ms, C m.pre m.act := by
  induction run with
  | nil s => simp
  | @cons s t u a ms first _ ih =>
    simp only [List.forall_mem_cons]
    have here := precise s a t valid start first
    have later := ih (keeps s a t valid first)
    constructor
    · rintro ⟨now, rest⟩
      exact ⟨here.mp now, (later now).mp rest⟩
    · rintro ⟨now, rest⟩
      have next := here.mpr now
      exact ⟨next, (later next).mpr rest⟩

/-- Where, under an inductive invariant, a property of moves is equivalent to a
    condition on the state before and the action, all moves of a run have the
    property if and only if they all meet the condition. -/
theorem moves_iff {J : σ → Prop} {P : Move σ α → Prop} {C : σ → α → Prop}
    (keeps : ∀ s a t, J s → step s a t → J t)
    (precise : ∀ s a t, J s → step s a t → (P ⟨s,a,t⟩ ↔ C s a)) (run : Run step s ms t) (start : J s) :
    (∀ m ∈ ms, P m) ↔ ∀ m ∈ ms, C m.pre m.act := by
  have around := (run.inductive_invariant keeps start).1
  exact forall₂_congr fun m member => precise m.pre m.act m.post (around m member).1 (run.step_of_mem member)

/-- A property of states and of the moves before them that every step keeps, whenever
    the condition on the state before it and its action holds, holds at the end of a
    run whose moves all meet the condition. -/
theorem history {I : List (Move σ α) → σ → Prop} {C : σ → α → Prop}
    (keeps : ∀ h s a t, C s a → I h s → step s a t → I (h ++ [⟨s,a,t⟩]) t) (run : Run step s ms t) (start : I [] s)
    (conditions : ∀ m ∈ ms, C m.pre m.act) : I ms t := by
  have after : ∀ h, I h s → I (h ++ ms) t := by
    clear start
    induction run with
    | nil s =>
      intro h here
      rwa [List.append_nil]
    | @cons s t u a ms first _ ih =>
      intro h here
      have next := keeps h s a t (conditions _ List.mem_cons_self) here first
      have later := ih (fun m member => conditions m (List.mem_cons_of_mem _ member)) _ next
      rwa [List.append_assoc, List.singleton_append] at later
  exact after [] start

/-- A run whose steps, under their condition, all lower a measure is no longer than the
    measure at its start. -/
theorem length_le {I : σ → Prop} {C : σ → α → Prop} (measure : σ → Nat)
    (keeps : ∀ s a t, C s a → I s → step s a t → I t)
    (lowers : ∀ s a t, C s a → I s → step s a t → measure t < measure s) (run : Run step s ms t) (start : I s)
    (conditions : ∀ m ∈ ms, C m.pre m.act) : ms.length + measure t ≤ measure s := by
  induction run with
  | nil s => simp
  | @cons s t u a ms first _ ih =>
    have here : C s a := conditions _ List.mem_cons_self
    have later := ih (keeps s a t here start first) fun m member => conditions m (List.mem_cons_of_mem _ member)
    have lower := lowers s a t here start first
    rw [List.length_cons]
    omega

/-- An automaton that follows every step under its condition, where the step sends it a
    signal, and stays where it sends none, follows every run whose moves all meet the
    condition. -/
theorem observed {τ β : Type*} {R : τ → σ → Prop} {C : σ → α → Prop} {u : τ} (run : Run step s ms t)
    (signal : Move σ α → Option β) (next : τ → β → Option τ) (keeps : ∀ u s a t, C s a → R u s → step s a t →
      ∃ v, (signal ⟨s,a,t⟩).elim (some u) (next u) = some v ∧ R v t) (start : R u s)
    (conditions : ∀ m ∈ ms, C m.pre m.act) : ∃ v, (ms.filterMap signal).foldlM next u = some v ∧ R v t := by
  induction run generalizing u with
  | nil s => exact ⟨u, rfl, start⟩
  | @cons s t _ a ms first _ ih =>
    obtain ⟨v, followed, here⟩ := keeps u s a t (conditions _ List.mem_cons_self) start first
    obtain ⟨w, later, there⟩ := ih here fun m member => conditions m (List.mem_cons_of_mem _ member)
    refine ⟨w, ?_, there⟩
    cases sent : signal ⟨s,a,t⟩ with
    | none =>
      obtain rfl : u = v := by simpa [sent] using followed
      rwa [List.filterMap_cons_none sent]
    | some b =>
      have followed : next u b = some v := by simpa [sent] using followed
      rw [List.filterMap_cons_some sent, List.foldlM_cons, followed]
      exact later

end Run

/-! ### Pasts -/

/-- Some move has the first property, and none after it the second. -/
def Since (P Q : Move σ α → Prop) (ms : List (Move σ α)) : Prop :=
  ∃ front m back, ms = front ++ m :: back ∧ P m ∧ ∀ n ∈ back, ¬ Q n

section
variable {P Q : Move σ α → Prop} {ms : List (Move σ α)} {m : Move σ α}

theorem Since.now (has : P m) : Since P Q (ms ++ [m]) := ⟨ms, m, [], rfl, has, by simp⟩

theorem Since.later (since : Since P Q ms) (unlike : ¬ Q m) : Since P Q (ms ++ [m]) := by
  obtain ⟨front, first, back, rfl, has, none⟩ := since
  refine ⟨front, first, back ++ [m], by simp, has, ?_⟩
  intro n member
  rcases List.mem_append.mp member with earlier | last
  · exact none n earlier
  · rw [List.mem_singleton.mp last]
    exact unlike

/-- What has been so since some move has been so since before the last one, or since that. -/
theorem Since.earlier (since : Since P Q (ms ++ [m])) (unlike : ¬ P m) : Since P Q ms ∧ ¬ Q m := by
  obtain ⟨front, first, back, split, has, none⟩ := since
  rcases List.eq_nil_or_concat back with rfl | ⟨before, last, rfl⟩
  · obtain ⟨-, same⟩ := List.append_inj' split rfl
    rw [List.cons.injEq] at same
    exact absurd (same.1 ▸ has) unlike
  · rw [List.concat_eq_append] at split none
    rw [← List.cons_append, ← List.append_assoc] at split
    obtain ⟨same, only⟩ := List.append_inj' split rfl
    rw [List.cons.injEq] at only
    refine ⟨⟨front, first, before, same, has, ?_⟩, ?_⟩
    · intro n member
      exact none n (List.mem_append_left _ member)
    · rw [only.1]
      exact none last (List.mem_append_right _ List.mem_cons_self)

theorem since_cons : Since P Q (m :: ms) ↔ (P m ∧ ∀ n ∈ ms, ¬ Q n) ∨ Since P Q ms := by
  constructor
  · rintro ⟨front, first, back, split, has, none⟩
    cases front with
    | nil =>
      cases split
      exact .inl ⟨has, none⟩
    | cons _ front =>
      cases split
      exact .inr ⟨front, first, back, rfl, has, none⟩
  · rintro (⟨has, none⟩ | ⟨front, first, back, rfl, has, none⟩)
    · exact ⟨[], m, ms, rfl, has, none⟩
    · exact ⟨m :: front, first, back, rfl, has, none⟩

theorem not_since_nil : ¬ Since P Q ([] : List (Move σ α)) := by
  rintro ⟨front, m, back, split, -⟩
  cases front <;> cases split

instance decidableSince [DecidablePred P] [DecidablePred Q] : ∀ ms : List (Move σ α), Decidable (Since P Q ms)
  | [] => isFalse not_since_nil
  | _ :: ms =>
    have := decidableSince ms
    decidable_of_iff _ since_cons.symm

end

/-! ### Executable steps -/

/-- The transition relation of an executable step. -/
def Succeeds (f : σ → α → Except ε σ) (s : σ) (a : α) (t : σ) : Prop := f s a = .ok t

/-- Executes actions one after the other. -/
def exec (f : σ → α → Except ε σ) : σ → List α → Except ε σ
  | s, [] => .ok s
  | s, a :: as =>
    match f s a with
    | .ok t => exec f t as
    | .error e => .error e

/-- The moves of an execution. -/
def moves (f : σ → α → Except ε σ) : σ → List α → List (Move σ α)
  | _, [] => []
  | s, a :: as =>
    match f s a with
    | .ok t => ⟨s,a,t⟩ :: moves f t as
    | .error _ => []

theorem act_of_moves (f : σ → α → Except ε σ) {s : σ} {as : List α} {m : Move σ α} (member : m ∈ moves f s as) :
    m.act ∈ as := by
  induction as generalizing s with
  | nil => cases member
  | cons a as ih =>
    simp only [moves] at member
    cases result : f s a with
    | error e =>
      rw [result] at member
      cases member
    | ok next =>
      simp only [result] at member
      rcases List.mem_cons.mp member with rfl | later
      · exact List.mem_cons_self
      · exact List.mem_cons_of_mem _ (ih later)

theorem run_of_exec (f : σ → α → Except ε σ) {s t : σ} {as : List α} (executed : exec f s as = .ok t) :
    Run (Succeeds f) s (moves f s as) t := by
  induction as generalizing s with
  | nil => cases executed; exact .nil _
  | cons a as ih =>
    simp only [exec] at executed
    cases result : f s a with
    | error e => simp [result] at executed
    | ok next =>
      simp only [result] at executed
      simp only [moves, result]
      exact .cons result (ih executed)

/-- The state after an execution, or the first state where it fails. -/
def final (f : σ → α → Except ε σ) (s : σ) (as : List α) : σ :=
  match exec f s as with
  | .ok t => t
  | .error _ => s

theorem run_final (f : σ → α → Except ε σ) {s : σ} {as : List α} (executes : (exec f s as).isOk = true) :
    Run (Succeeds f) s (moves f s as) (final f s as) := by
  cases executed : exec f s as with
  | error e => simp [executed, Except.isOk, Except.toBool] at executes
  | ok t =>
    rw [final, executed]
    exact run_of_exec f executed

/-- An execution of one step. -/
theorem step_final (f : σ → α → Except ε σ) {s : σ} {a : α} (steps : (f s a).isOk = true) :
    Succeeds f s a (final f s [a]) := by
  cases stepped : f s a with
  | error e => simp [stepped, Except.isOk, Except.toBool] at steps
  | ok t => simp [Succeeds, final, exec, stepped]

/-- The step after an execution. -/
theorem final_step (f : σ → α → Except ε σ) {s : σ} {a : α} (steps : (f s a).isOk = true) :
    ∃ t, Succeeds f s a t := by
  cases stepped : f s a with
  | error e => simp [stepped, Except.isOk, Except.toBool] at steps
  | ok t => exact ⟨t, stepped⟩

end Canna.Lts
