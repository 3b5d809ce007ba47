import Canna.Labels

/-!
# Shortest distances

The search ends, since each edge of a vertex is looked at again only for pairs that
push nothing (`search_ends`). Its final labels are the least weights of walks
(`ShortPath_correct`). Along the way it sets labels one after the other, in the
order of the labels (`label_setting`).
-/
namespace Canna.Dijkstra
open Lts
variable {n : Nat} {σ : Type*} {add : Int → Int → Int} {note : σ → Fin n → Fin n → σ} {calls : List (Edge n)}
  {reads : Reads note} {src : Fin n} {S : List (Fin n)} {s t : Search n σ}

/-! ### Termination -/

/-- A scan queues the pairs it pushes. -/
theorem scan_length (add : Int → Int → Int) (note : σ → Fin n → Fin n → σ) (s : Search n σ)
    (u : Fin n) (edges : List (Fin n × Int)) (place : Nat) :
    (scan add note u s edges).prio_queue.length = s.prio_queue.length + (pushes add note u s edges place).length := by
  induction edges generalizing s place with
  | nil => rfl
  | cons e edges ih =>
    have rest := ih (relax add note u s e) (place + 1)
    show (scan add note u (relax add note u s e) edges).prio_queue.length = _
    by_cases better : s.dist e.1 > add (s.dist u) e.2
    · have one : (relax add note u s e).prio_queue.length = s.prio_queue.length + 1 := by
        unfold relax
        rw [if_pos better]
        exact List.orderedInsert_length ..
      rw [rest, one, pushes, if_pos better, List.length_cons]
      omega
    · rw [rest, pushes, if_neg better, relax, if_neg better]

theorem pushes_length_le (add : Int → Int → Int) (note : σ → Fin n → Fin n → σ) (s : Search n σ)
    (u : Fin n) (edges : List (Fin n × Int)) (place : Nat) :
    (pushes add note u s edges place).length ≤ edges.length := by
  induction edges generalizing s place with
  | nil => exact le_refl _
  | cons e edges ih =>
    have rest := ih (relax add note u s e) (place + 1)
    by_cases better : s.dist e.1 > add (s.dist u) e.2
    · unfold pushes
      rw [if_pos better, List.length_cons, List.length_cons]
      omega
    · unfold pushes
      rw [if_neg better, List.length_cons]
      omega

section Sums
variable (nonneg : ∀ e ∈ calls, 0 ≤ e.w) (sums : SumsExact add calls src)
include nonneg sums

/-- A pop leaves less to do: a pair of a settled vertex goes, or the entries of the
    new one are done for the pairs they push. -/
theorem Settled.pop {top : Int × Fin n} (settled : Settled calls reads src S s)
    (popped : Pops add note (Graph.build calls) s top t) :
    ∃ T, Settled calls reads src T t ∧ (∀ v, v ∈ T ↔ v = top.2 ∨ v ∈ S) ∧
      t.prio_queue.length + (Graph.build calls).remaining T < s.prio_queue.length + (Graph.build calls).remaining S := by
  obtain ⟨⟨rest, queue⟩, scanned⟩ := iterate_eq popped
  have shorter : s.unqueue.prio_queue.length < s.prio_queue.length := by simp [Search.unqueue, queue]
  by_cases again : top.2 ∈ S
  · obtain ⟨rfl, -, after⟩ := settled.pop_again nonneg sums popped again
    refine ⟨S, after, ?_, by omega⟩
    intro v
    constructor
    · exact .inr
    · rintro (rfl | member)
      · exact again
      · exact member
  · obtain ⟨-, after, -⟩ := settled.pop_new nonneg sums popped again
    refine ⟨top.2 :: S, after, fun v => List.mem_cons, ?_⟩
    have pushed := pushes_length_le add note s.unqueue top.2 ((Graph.build calls).m_edges top.2) 0
    have length := scan_length add note s.unqueue top.2 ((Graph.build calls).m_edges top.2) 0
    have fewer := (Graph.build calls).remaining_cons again
    rw [← scanned] at length
    omega

/-- The loop ends with an empty queue. -/
theorem Settled.loop_ends (settled : Settled calls reads src S s) {fuel : Nat}
    (enough : s.prio_queue.length + (Graph.build calls).remaining S < fuel) :
    ∃ T t, loop add note (Graph.build calls) fuel s = some t ∧ Settled calls reads src T t ∧ t.prio_queue = [] := by
  induction fuel generalizing S s with
  | zero => omega
  | succ fuel ih =>
    cases popped : iterate add note (Graph.build calls) s with
    | none => exact ⟨S, s, by simp only [loop, popped], settled, iterate_none popped⟩
    | some entry =>
      obtain ⟨top, next⟩ := entry
      obtain ⟨T, after, -, less⟩ := settled.pop nonneg sums popped
      obtain ⟨U, last, ended, final, empty⟩ := ih after (by omega)
      exact ⟨U, last, by simp only [loop, popped, ended], final, empty⟩

/-- The search ends on every graph of calls. -/
theorem search_ends (reads : Reads note) {notes : σ} (blank : ∀ v, reads.blank notes v) {fuel : Nat}
    (enough : 2 * calls.length + 1 < fuel) :
    ∃ S t, loop add note (Graph.build calls) fuel (start src notes) = some t ∧ Settled calls reads src S t ∧
      t.prio_queue = [] := by
  apply (settled_start blank).loop_ends nonneg sums
  rw [Graph.remaining_build]
  show 1 + _ < fuel
  omega

end Sums

/-! ### Final labels -/

section Near
variable (nonneg : ∀ e ∈ calls, 0 ≤ e.w) (near : Near calls src)
include nonneg near

/-- With an empty queue, the vertices with a label are the settled ones. -/
theorem Settled.mem_iff (settled : Settled calls reads src S s) (empty : s.prio_queue = []) (v : Fin n) :
    v ∈ S ↔ s.dist v ≠ INF := by
  constructor
  · intro member
    have below := near v _ (settled.least nonneg member)
    omega
  · intro reached
    by_contra unsettled
    have queued := settled.queued v unsettled reached
    simp [empty] at queued

/-- With an empty queue, all vertices that can be reached are settled. -/
theorem Settled.mem_of_reaches (settled : Settled calls reads src S s) (empty : s.prio_queue = []) {v : Fin n}
    (reaches : Reaches (Arc calls) src v) : v ∈ S := by
  obtain ⟨W, least⟩ := exists_least nonneg reaches
  obtain ⟨vs, walk⟩ := least.1
  have below := near v W least
  have relaxed := settled.relaxed_upto nonneg INF (by simp [empty]) (le_refl _)
  have bound := walk.bounded (d := fun x => min (s.dist x) INF) relaxed
  rw [settled.mem_iff nonneg near empty]
  simp only [settled.source] at bound
  omega

/-- Final labels are least weights, and `INF` where no walk leads. -/
theorem Settled.distances (settled : Settled calls reads src S s) (empty : s.prio_queue = []) (v : Fin n) :
    (Reaches (Arc calls) src v → IsLeast (weights (Arc calls) src v) (s.dist v)) ∧
    (s.dist v = INF ↔ ¬ Reaches (Arc calls) src v) := by
  have reached := settled.mem_of_reaches nonneg near empty (v := v)
  refine ⟨fun reaches => settled.least nonneg (reached reaches), ?_⟩
  constructor
  · intro infinite reaches
    exact (settled.mem_iff nonneg near empty v).mp (reached reaches) infinite
  · intro unreachable
    by_contra finite
    obtain ⟨vs, walk⟩ := (settled.least nonneg ((settled.mem_iff nonneg near empty v).mpr finite)).1
    exact unreachable ⟨vs, s.dist v, walk⟩

end Near

section Light
variable (nonneg : ∀ e ∈ calls, 0 ≤ e.w) (light : totalWeight calls < 2 ^ 30)
include nonneg light

theorem near_light (src : Fin n) : Near calls src := by
  intro v W least
  have most := least_le_total nonneg least
  simp only [INF]
  omega

/-- No sum overflows. -/
theorem sums_light (src : Fin n) : SumsExact int_add calls src := by
  intro u v w W arc least
  have most := least_le_total nonneg least
  have weight := arc.le_total nonneg
  obtain ⟨vs, walk⟩ := least.1
  have low := walk.nonneg fun _ _ _ => Arc.nonneg nonneg
  have positive := arc.nonneg nonneg
  exact cint_of_small (by omega) (by omega)

end Light

/-- Notes of which nothing is read. -/
def unread (note : σ → Fin n → Fin n → σ) : Reads note where
  names _ _ _ := True
  blank _ _ := True
  names_self _ _ _ := trivial
  names_other _ _ _ _ _ _ _ := trivial
  blank_other _ _ _ _ _ _ := trivial

/-- The loop of `ShortPath` ends, and the final labels are the least weights of walks
    from the source, with `INF` for the vertices that no walk reaches. -/
theorem ShortPath_correct (calls : List (Edge n)) (nonneg : ∀ e ∈ calls, 0 ≤ e.w) (light : totalWeight calls < 2 ^ 30)
    (src : Fin n) (fuel : Nat) (enough : 2 * calls.length + 1 < fuel) :
    ∃ dist, ShortPath fuel (Graph.build calls) src = some dist ∧
      ∀ v, (Reaches (Arc calls) src v → IsLeast (weights (Arc calls) src v) (dist v)) ∧
        (dist v = INF ↔ ¬ Reaches (Arc calls) src v) := by
  obtain ⟨S, t, ended, settled, empty⟩ := search_ends nonneg (sums_light nonneg light src) (unread fun _ _ _ => ())
    (fun _ => trivial) enough
  refine ⟨t.dist, ?_, settled.distances nonneg (near_light nonneg light src) empty⟩
  unfold ShortPath
  rw [ended]
  rfl

/-- The graph of the example run. -/
def exampleCalls : List (Edge 9) :=
  [⟨0,1,4⟩,⟨0,7,8⟩,⟨1,2,8⟩,⟨1,7,11⟩,⟨2,3,7⟩,⟨2,8,2⟩,⟨2,5,4⟩,⟨3,4,9⟩,⟨3,5,14⟩,⟨4,5,10⟩,⟨5,6,2⟩,⟨6,7,1⟩,⟨6,8,6⟩,⟨7,8,7⟩]

theorem ShortPath_correct_example : (∀ e ∈ exampleCalls, 0 ≤ e.w) ∧ totalWeight exampleCalls < 2 ^ 30 ∧
    ∃ dist, ShortPath 30 (Graph.build exampleCalls) 0 = some dist ∧
      ∀ v, (Reaches (Arc exampleCalls) 0 v → IsLeast (weights (Arc exampleCalls) 0 v) (dist v)) ∧
        (dist v = INF ↔ ¬ Reaches (Arc exampleCalls) 0 v) := by
  have nonneg : ∀ e ∈ exampleCalls, 0 ≤ e.w := by decide
  have light : totalWeight exampleCalls < 2 ^ 30 := by decide
  exact ⟨nonneg, light, ShortPath_correct exampleCalls nonneg light 0 30 (by decide)⟩

end Canna.Dijkstra
