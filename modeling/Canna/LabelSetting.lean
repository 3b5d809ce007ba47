import Mathlib.Data.List.Nodup
import Canna.ShortPath

/-!
# The search sets labels

The keys popped do not decrease. A vertex is popped first with its label as key, and
the label stays from then on; later pops of it push nothing. So an entry of a vertex's list pushes at
most once in a whole run (`label_setting`).
-/
namespace Canna.Dijkstra
open Lts
variable {n : Nat} {σ : Type*} {add : Int → Int → Int} {note : σ → Fin n → Fin n → σ} {calls : List (Edge n)}
  {reads : Reads note} {src : Fin n} {S : List (Fin n)} {s t : Search n σ}

section Moves
variable (add note) (g : Graph n) (m : Move (Search n σ) (Int × Fin n))

/-- The state in an iteration after a number of edges. -/
def during (k : Nat) : Search n σ := scan add note m.act.2 m.pre.unqueue ((g.m_edges m.act.2).take k)

/-- The entries at which an iteration pushes. -/
def pushed : List (Fin n × Nat) := pushes add note m.act.2 m.pre.unqueue (g.m_edges m.act.2) 0

end Moves

/-- The iterations of a loop that ends, with nothing queued. -/
theorem run_of_loop {g : Graph n} {fuel : Nat} (ended : loop add note g fuel s = some t) :
    ∃ ms, Run (Pops add note g) s ms t ∧ t.prio_queue = [] := by
  induction fuel generalizing s with
  | zero => simp [loop] at ended
  | succ fuel ih =>
    cases popped : iterate add note g s with
    | none =>
      simp only [loop, popped, Option.some.injEq] at ended
      subst ended
      exact ⟨[], .nil s, iterate_none popped⟩
    | some entry =>
      obtain ⟨top, next⟩ := entry
      simp only [loop, popped] at ended
      obtain ⟨ms, run, empty⟩ := ih ended
      exact ⟨⟨s,top,next⟩ :: ms, .cons popped run, empty⟩

theorem mem_pushes {u : Fin n} {edges : List (Fin n × Int)} {place : Nat} {entry : Fin n × Nat}
    (member : entry ∈ pushes add note u s edges place) : entry.1 = u ∧ place ≤ entry.2 := by
  induction edges generalizing s place with
  | nil => simp [pushes] at member
  | cons e edges ih =>
    have rest : entry ∈ pushes add note u (relax add note u s e) edges (place + 1) → entry.1 = u ∧ place ≤ entry.2 := by
      intro later
      obtain ⟨same, beyond⟩ := ih later
      exact ⟨same, by omega⟩
    by_cases better : s.dist e.1 > add (s.dist u) e.2
    · unfold pushes at member
      rw [if_pos better] at member
      rcases List.mem_cons.mp member with rfl | later
      · exact ⟨rfl, le_refl _⟩
      · exact rest later
    · unfold pushes at member
      rw [if_neg better] at member
      exact rest member

theorem pushes_nodup (u : Fin n) (edges : List (Fin n × Int)) (place : Nat) : (pushes add note u s edges place).Nodup := by
  induction edges generalizing s place with
  | nil => exact .nil
  | cons e edges ih =>
    have rest := ih (s := relax add note u s e) (place + 1)
    by_cases better : s.dist e.1 > add (s.dist u) e.2
    · unfold pushes
      rw [if_pos better]
      refine rest.cons ?_
      intro again
      have beyond := (mem_pushes again).2
      simp at beyond
    · unfold pushes
      rw [if_neg better]
      exact rest

section Sums
variable (nonneg : ∀ e ∈ calls, 0 ≤ e.w) (sums : SumsExact add calls src)
include nonneg sums

/-- An iteration leaves the labels of the vertex popped and of those settled as they
    were, edge by edge. -/
theorem Settled.during_dist {top : Int × Fin n} (settled : Settled calls reads src S s)
    (popped : Pops add note (Graph.build calls) s top t) {v : Fin n} (member : v = top.2 ∨ v ∈ S) (k : Nat) :
    (during add note (Graph.build calls) ⟨s,top,t⟩ k).dist v = s.dist v := by
  obtain ⟨⟨rest, queue⟩, -⟩ := iterate_eq popped
  have arcs : ∀ e ∈ ((Graph.build calls).m_edges top.2).take k, Arc calls top.2 e.1 e.2 := by
    intro e entry
    exact Graph.mem_build.mp (List.mem_of_mem_take entry)
  by_cases again : top.2 ∈ S
  · have after := settled.drop_top queue again
    have relaxed : ∀ e ∈ ((Graph.build calls).m_edges top.2).take k, s.unqueue.dist e.1 ≤ add (s.unqueue.dist top.2) e.2 := by
      intro e entry
      rw [sums _ _ _ _ (arcs e entry) (after.least nonneg again)]
      exact after.relaxed top.2 again e.1 e.2 (arcs e entry)
    show (scan add note top.2 s.unqueue _).dist v = s.dist v
    rw [(scan_relaxed note 0 relaxed).1]
    rfl
  · have least := settled.top_least nonneg queue again
    have exact_sums : ∀ e ∈ ((Graph.build calls).m_edges top.2).take k, add (s.dist top.2) e.2 = s.dist top.2 + e.2 :=
      fun e entry => sums _ _ _ _ (arcs e entry) least
    exact ((settled.settle queue again).scan nonneg arcs exact_sums).2.1 v (List.mem_cons.mpr member)

theorem Settled.pop_dist {top : Int × Fin n} (settled : Settled calls reads src S s)
    (popped : Pops add note (Graph.build calls) s top t) {v : Fin n} (member : v = top.2 ∨ v ∈ S) : t.dist v = s.dist v := by
  have last := settled.during_dist nonneg sums popped member ((Graph.build calls).m_edges top.2).length
  rw [during, List.take_length] at last
  rwa [(iterate_eq popped).2]

/-- Keys at or above a bound stay so. -/
theorem Settled.pop_keys {top : Int × Fin n} {key : Int} (settled : Settled calls reads src S s)
    (popped : Pops add note (Graph.build calls) s top t) (keys : ∀ p ∈ s.prio_queue, key ≤ p.1) :
    ∀ p ∈ t.prio_queue, key ≤ p.1 := by
  obtain ⟨⟨rest, queue⟩, -⟩ := iterate_eq popped
  intro p member
  by_cases again : top.2 ∈ S
  · obtain ⟨rfl, -, -⟩ := settled.pop_again nonneg sums popped again
    exact keys p (mem_unqueue member)
  · obtain ⟨first, after, kept⟩ := settled.pop_new nonneg sums popped again
    calc key ≤ top.1 := keys top (by simp [queue])
      _ = t.dist top.2 := first.trans (kept top.2 List.mem_cons_self).symm
      _ ≤ p.1 := after.later top.2 List.mem_cons_self p member

variable {ms : List (Move (Search n σ) (Int × Fin n))}

/-- A vertex settled stays so, with its label. -/
theorem Settled.run_dist {v : Fin n} (settled : Settled calls reads src S s) (member : v ∈ S)
    (run : Run (Pops add note (Graph.build calls)) s ms t) :
    (∀ m ∈ ms, ∃ T, Settled calls reads src T m.pre ∧ v ∈ T ∧ m.pre.dist v = s.dist v) := by
  have keeps : ∀ (a : Search n σ) top b,
      (∃ T, Settled calls reads src T a ∧ v ∈ T ∧ a.dist v = s.dist v) → Pops add note (Graph.build calls) a top b →
      ∃ T, Settled calls reads src T b ∧ v ∈ T ∧ b.dist v = s.dist v := by
    rintro a top b ⟨T, holds, inside, same⟩ popped
    obtain ⟨U, after, vertices, -⟩ := holds.pop nonneg sums popped
    refine ⟨U, after, (vertices v).mpr (.inr inside), ?_⟩
    rw [holds.pop_dist nonneg sums popped (.inr inside), same]
  intro m entry
  exact ((run.inductive_invariant keeps ⟨S, settled, member, rfl⟩).1 m entry).1

/-- A vertex that is not popped is not settled. -/
theorem Settled.run_new {v : Fin n} (settled : Settled calls reads src S s) (new : v ∉ S)
    (run : Run (Pops add note (Graph.build calls)) s ms t) (others : ∀ m ∈ ms, m.act.2 ≠ v) :
    ∃ T, Settled calls reads src T t ∧ v ∉ T := by
  have keeps : ∀ (a : Search n σ) (top : Int × Fin n) b, top.2 ≠ v → (∃ T, Settled calls reads src T a ∧ v ∉ T) →
      Pops add note (Graph.build calls) a top b → ∃ T, Settled calls reads src T b ∧ v ∉ T := by
    rintro a top b other ⟨T, holds, outside⟩ popped
    obtain ⟨U, after, vertices, -⟩ := holds.pop nonneg sums popped
    refine ⟨U, after, ?_⟩
    rw [vertices v]
    rintro (same | inside)
    · exact other same.symm
    · exact outside inside
  exact (run.invariant keeps ⟨S, settled, new⟩ others).2

/-- Later keys are no smaller, and later pops of the same vertex push nothing. -/
theorem Settled.run_pairwise (settled : Settled calls reads src S s) (run : Run (Pops add note (Graph.build calls)) s ms t) :
    ms.Pairwise fun m m' => m.act.1 ≤ m'.act.1 ∧
      (m'.act.2 = m.act.2 → m'.post = m'.pre.unqueue ∧ pushed add note (Graph.build calls) m' = []) := by
  induction run generalizing S with
  | nil s => exact .nil
  | @cons s t u top ms first rest ih =>
    obtain ⟨T, after, vertices, -⟩ := settled.pop nonneg sums first
    refine List.Pairwise.cons ?_ (ih after)
    intro m' later
    have popped := rest.step_of_mem later
    constructor
    · obtain ⟨⟨tail, queue⟩, -⟩ := iterate_eq first
      have least : ∀ p ∈ s.prio_queue, top.1 ≤ p.1 := by
        intro p member
        have sorted := settled.sorted
        rw [queue] at sorted member
        exact top_le sorted member
      have keeps : ∀ (a : Search n σ) pair b, (∃ U, Settled calls reads src U a) ∧ (∀ p ∈ a.prio_queue, top.1 ≤ p.1) →
          Pops add note (Graph.build calls) a pair b →
          (∃ U, Settled calls reads src U b) ∧ ∀ p ∈ b.prio_queue, top.1 ≤ p.1 := by
        rintro a pair b ⟨⟨U, holds⟩, keys⟩ pops
        obtain ⟨U', next, -⟩ := holds.pop nonneg sums pops
        exact ⟨⟨U', next⟩, holds.pop_keys nonneg sums pops keys⟩
      have keys := settled.pop_keys nonneg sums first least
      have bound := ((rest.inductive_invariant keeps ⟨⟨T, after⟩, keys⟩).1 m' later).1.2
      obtain ⟨⟨tail', queue'⟩, -⟩ := iterate_eq popped
      exact bound m'.act (by simp [queue'])
    · intro same
      have member : top.2 ∈ T := (vertices top.2).mpr (.inl rfl)
      obtain ⟨U, holds, inside, -⟩ := after.run_dist nonneg sums member rest m' later
      obtain ⟨post, nothing, -⟩ := holds.pop_again nonneg sums popped (by rw [same]; exact inside)
      exact ⟨post, nothing⟩

end Sums

/-- Along the loop, keys do not decrease; a vertex is first popped with its label as
    key, and keeps it; when it is popped again the iteration takes the pair from the
    queue and does nothing else; and no entry of a vertex's list pushes twice. -/
theorem label_setting (calls : List (Edge n)) (nonneg : ∀ e ∈ calls, 0 ≤ e.w) (light : totalWeight calls < 2 ^ 30)
    (note : σ → Fin n → Fin n → σ) (notes : σ) (src : Fin n) {ms : List (Move (Search n σ) (Int × Fin n))}
    (run : Run (Pops int_add note (Graph.build calls)) (start src notes) ms t) :
    (ms.Pairwise fun m m' => m.act.1 ≤ m'.act.1) ∧
    (∀ front m back, ms = front ++ m :: back → (∀ m' ∈ front, m'.act.2 ≠ m.act.2) →
      m.act.1 = m.pre.dist m.act.2 ∧
      ∀ m' ∈ m :: back, ∀ k, (during int_add note (Graph.build calls) m' k).dist m.act.2 = m.act.1) ∧
    (∀ front m back, ms = front ++ m :: back → (∃ m' ∈ front, m'.act.2 = m.act.2) →
      m.post = m.pre.unqueue ∧ pushed int_add note (Graph.build calls) m = []) ∧
    (ms.flatMap (pushed int_add note (Graph.build calls))).Nodup := by
  have initial : Settled calls (unread note) src [] (start src notes) := settled_start fun _ => trivial
  have sums := sums_light nonneg light src
  have ordered := initial.run_pairwise nonneg sums run
  refine ⟨ordered.imp fun pair => pair.1, ?_, ?_, ?_⟩
  · rintro front m back rfl others
    obtain ⟨before, popped, after⟩ := run.split
    obtain ⟨S, settled, new⟩ := initial.run_new nonneg sums (by simp) before others
    obtain ⟨key, next, kept⟩ := settled.pop_new nonneg sums popped new
    refine ⟨key, ?_⟩
    intro m' member k
    rcases List.mem_cons.mp member with rfl | later
    · rw [key]
      exact settled.during_dist nonneg sums popped (.inl rfl) k
    · obtain ⟨T, holds, inside, same⟩ := next.run_dist nonneg sums List.mem_cons_self after m' later
      rw [holds.during_dist nonneg sums (after.step_of_mem later) (.inr inside) k, same,
        kept m.act.2 List.mem_cons_self, key]
  · rintro front m back rfl ⟨m', member, same⟩
    have pair := (List.pairwise_append.mp ordered).2.2 m' member m List.mem_cons_self
    exact pair.2 same.symm
  · apply List.nodup_flatMap.mpr
    refine ⟨fun m _ => pushes_nodup .., ?_⟩
    refine ordered.imp ?_
    rintro m m' ⟨-, again⟩ entry first second
    by_cases same : m'.act.2 = m.act.2
    · rw [(again same).2] at second
      exact absurd second List.not_mem_nil
    · have left := (mem_pushes first).1
      have right := (mem_pushes second).1
      exact same (right.symm.trans left)

theorem label_setting_example : ∃ ms t, Run (Pops int_add (fun _ _ _ => ()) (Graph.build exampleCalls)) (start 0 ()) ms t ∧
    t.prio_queue = [] ∧ (ms.Pairwise fun m m' => m.act.1 ≤ m'.act.1) ∧
    (ms.flatMap (pushed int_add (fun _ _ _ => ()) (Graph.build exampleCalls))).Nodup := by
  have nonneg : ∀ e ∈ exampleCalls, 0 ≤ e.w := by decide
  have light : totalWeight exampleCalls < 2 ^ 30 := by decide
  obtain ⟨S, t, ended, -⟩ := search_ends nonneg (sums_light nonneg light 0) (unread fun _ _ _ => ())
    (fun _ => trivial) (by decide : 2 * exampleCalls.length + 1 < 30)
  obtain ⟨ms, run, empty⟩ := run_of_loop ended
  obtain ⟨keys, -, -, once⟩ := label_setting exampleCalls nonneg light (fun _ _ _ => ()) () 0 run
  exact ⟨ms, t, run, empty, keys, once⟩

end Canna.Dijkstra
