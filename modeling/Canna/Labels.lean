import Mathlib.Data.List.Nodup
import Canna.Dijkstra

/-!
# Labels and settled vertices

What holds between two iterations of the search on a graph whose weights are not
negative, as long as the sums it needs are computed exactly (`SumsExact`). The vertices
popped so far are settled, newest first: their labels are those they were first popped
with, none above the pairs queued (`later`); their edges are relaxed; and every other
vertex with a label is queued with the label it has now (`queued`). Labels come from
edges (`Rooted`), so that they are the weights of walks, and those of settled vertices
are the least (`Settled.least`). A pop either settles a new vertex (`Settled.pop_new`)
or changes nothing but the queue (`Settled.pop_again`).
-/
namespace Canna.Dijkstra
variable {n : Nat} {σ : Type*}

/-- What can be read off the notes: the predecessor noted for a vertex, and that
    nothing was noted for it. -/
structure Reads (note : σ → Fin n → Fin n → σ) where
  names : σ → Fin n → Fin n → Prop
  blank : σ → Fin n → Prop
  names_self : ∀ notes v u, names (note notes v u) v u
  names_other : ∀ notes v u x y, x ≠ v → names notes x y → names (note notes v u) x y
  blank_other : ∀ notes v u x, x ≠ v → blank notes x → blank (note notes v u) x

/-- The sums of least weights and the weights of arcs are computed exactly. -/
def SumsExact (add : Int → Int → Int) (calls : List (Edge n)) (src : Fin n) : Prop :=
  ∀ u v w W, Arc calls u v w → IsLeast (weights (Arc calls) src u) W → add W w = W + w

/-- The vertices that can be reached are nearer than `INF`. -/
def Near (calls : List (Edge n)) (src : Fin n) : Prop := ∀ v W, IsLeast (weights (Arc calls) src v) W → W < INF

section Queue

theorem pair_le_fst {p q : Int × Fin n} (le : pair_le p q) : p.1 ≤ q.1 := by
  unfold pair_le at le
  omega

theorem top_le {top p : Int × Fin n} {rest : List (Int × Fin n)} (sorted : (top :: rest).Pairwise pair_le)
    (member : p ∈ top :: rest) : top.1 ≤ p.1 := by
  rcases List.mem_cons.mp member with rfl | later
  · exact le_refl _
  · exact pair_le_fst (List.rel_of_pairwise_cons sorted later)

end Queue

section Traces
variable {note : σ → Fin n → Fin n → σ} (calls : List (Edge n)) (reads : Reads note) (src : Fin n)

/-- The label of a vertex comes from a settled neighbour, the predecessor noted. -/
def Found (S : List (Fin n)) (s : Search n σ) (v : Fin n) : Prop :=
  ∃ u ∈ S, ∃ w, Arc calls u v w ∧ s.dist v = s.dist u + w ∧ reads.names s.notes v u

/-- A vertex with a label is the source, or was found from a settled neighbour. -/
def Traced (S : List (Fin n)) (s : Search n σ) (v : Fin n) : Prop :=
  (v = src ∧ reads.blank s.notes v) ∨ Found calls reads S s v

/-- Each settled vertex is traced to those settled before it. -/
def Rooted (s : Search n σ) : List (Fin n) → Prop
  | [] => True
  | v :: S => Rooted s S ∧ Traced calls reads src S s v

/-- What holds of labels and queue, whether or not all edges of the newest settled
    vertex are relaxed. -/
structure Labels (S : List (Fin n)) (s : Search n σ) : Prop where
  nodup : S.Nodup
  sorted : s.prio_queue.Pairwise pair_le
  source : s.dist src = 0
  nonneg : ∀ v, 0 ≤ s.dist v
  le_INF : ∀ v, s.dist v ≤ INF
  queued : ∀ v ∉ S, s.dist v ≠ INF → (s.dist v,v) ∈ s.prio_queue
  entries : ∀ p ∈ s.prio_queue, s.dist p.2 ≤ p.1 ∧ s.dist p.2 ≠ INF
  later : ∀ u ∈ S, ∀ p ∈ s.prio_queue, s.dist u ≤ p.1
  ordered : S.Pairwise fun v u => s.dist u ≤ s.dist v
  rooted : Rooted calls reads src s S
  traced : ∀ v ∉ S, s.dist v ≠ INF → Traced calls reads src S s v
  blank : ∀ v, s.dist v = INF → reads.blank s.notes v
  origin : reads.blank s.notes src

/-- What holds between two iterations. -/
structure Settled (S : List (Fin n)) (s : Search n σ) : Prop extends Labels calls reads src S s where
  relaxed : ∀ u ∈ S, ∀ v w, Arc calls u v w → s.dist v ≤ s.dist u + w

end Traces

variable {add : Int → Int → Int} {note : σ → Fin n → Fin n → σ} {calls : List (Edge n)} {reads : Reads note} {src : Fin n}
  {S : List (Fin n)} {s t : Search n σ}

theorem start_dist_self (src : Fin n) (notes : σ) : (start src notes).dist src = 0 :=
  Function.update_self src 0 fun _ => INF

theorem start_dist_ne {v : Fin n} (other : v ≠ src) (notes : σ) : (start src notes).dist v = INF :=
  Function.update_of_ne other 0 fun _ => INF

/-- Before the loop. -/
theorem settled_start {notes : σ} (blank : ∀ v, reads.blank notes v) : Settled calls reads src [] (start src notes) where
  nodup := .nil
  sorted := List.pairwise_singleton _ _
  source := start_dist_self src notes
  nonneg v := by
    by_cases same : v = src
    · rw [same, start_dist_self]
    · rw [start_dist_ne same]
      decide
  le_INF v := by
    by_cases same : v = src
    · rw [same, start_dist_self]
      decide
    · rw [start_dist_ne same]
  queued v _ finite := by
    by_cases same : v = src
    · rw [same, start_dist_self]
      exact List.mem_singleton_self _
    · exact absurd (start_dist_ne same notes) finite
  entries p member := by
    cases List.mem_singleton.mp member
    rw [start_dist_self]
    exact ⟨le_refl _, by decide⟩
  later u member := by simp at member
  ordered := .nil
  rooted := trivial
  traced v _ finite := by
    by_cases same : v = src
    · exact .inl ⟨same, blank v⟩
    · exact absurd (start_dist_ne same notes) finite
  blank v _ := blank v
  origin := blank src
  relaxed u member := by simp at member

/-! ### Improvements -/

/-- Labels and notes of some vertices are kept. -/
structure Keeps (reads : Reads note) (P : Fin n → Prop) (s t : Search n σ) : Prop where
  dist : ∀ x, P x → t.dist x = s.dist x
  names : ∀ x y, P x → reads.names s.notes x y → reads.names t.notes x y
  blank : ∀ x, P x → reads.blank s.notes x → reads.blank t.notes x

theorem traced_keeps {P : Fin n → Prop} (keeps : Keeps reads P s t) {v : Fin n} (here : P v) (settled : ∀ u ∈ S, P u)
    (traced : Traced calls reads src S s v) : Traced calls reads src S t v := by
  rcases traced with ⟨source, blank⟩ | ⟨u, member, w, arc, sum, names⟩
  · exact .inl ⟨source, keeps.blank v here blank⟩
  · refine .inr ⟨u, member, w, arc, ?_, keeps.names v u here names⟩
    rw [keeps.dist v here, keeps.dist u (settled u member), sum]

theorem rooted_keeps {P : Fin n → Prop} (keeps : Keeps reads P s t) (settled : ∀ u ∈ S, P u)
    (rooted : Rooted calls reads src s S) : Rooted calls reads src t S := by
  induction S with
  | nil => trivial
  | cons v S ih =>
    obtain ⟨here, rest⟩ := List.forall_mem_cons.mp settled
    exact ⟨ih rest rooted.1, traced_keeps keeps here rest rooted.2⟩

theorem improve_dist_self (v u : Fin n) (sum : Int) : (improve note s v u sum).dist v = sum := Function.update_self ..

theorem improve_dist_ne {v x : Fin n} (other : x ≠ v) (u : Fin n) (sum : Int) :
    (improve note s v u sum).dist x = s.dist x := Function.update_of_ne other ..

/-- What holds of the new label and of those of the other vertices holds of all. -/
theorem improve_forall {v u : Fin n} {sum : Int} (P : Fin n → Int → Prop) (new : P v sum)
    (old : ∀ x, x ≠ v → P x (s.dist x)) (x : Fin n) : P x ((improve note s v u sum).dist x) := by
  by_cases same : x = v
  · rw [same, improve_dist_self]
    exact new
  · rw [improve_dist_ne same]
    exact old x same

theorem improve_dist_le {v u : Fin n} {sum : Int} (better : sum < s.dist v) (x : Fin n) :
    (improve note s v u sum).dist x ≤ s.dist x :=
  improve_forall (fun x label => label ≤ s.dist x) better.le (fun _ _ => le_refl _) x

theorem mem_improve_queue {v u : Fin n} {sum : Int} {p : Int × Fin n} :
    p ∈ (improve note s v u sum).prio_queue ↔ p = (sum,v) ∨ p ∈ s.prio_queue := List.mem_orderedInsert pair_le

theorem improve_keeps (reads : Reads note) (v u : Fin n) (sum : Int) :
    Keeps reads (· ≠ v) s (improve note s v u sum) where
  dist _ other := improve_dist_ne other u sum
  names x y other named := reads.names_other s.notes v u x y other named
  blank x other empty := reads.blank_other s.notes v u x other empty

/-- The newest settled vertex has the greatest label. -/
theorem Labels.le_newest {u : Fin n} (labels : Labels calls reads src (u :: S) s) :
    ∀ x ∈ u :: S, s.dist x ≤ s.dist u := by
  intro x member
  rcases List.mem_cons.mp member with rfl | settled
  · exact le_refl _
  · exact List.rel_of_pairwise_cons labels.ordered settled

/-- A better label for a vertex not settled, from the newest settled one. -/
theorem Labels.improve {u v : Fin n} {w : Int} (labels : Labels calls reads src (u :: S) s) (arc : Arc calls u v w)
    (weight : 0 ≤ w) (better : s.dist u + w < s.dist v) :
    v ∉ u :: S ∧ Labels calls reads src (u :: S) (improve note s v u (s.dist u + w)) := by
  have outside : v ∉ u :: S := by
    intro settled
    have most := labels.le_newest v settled
    omega
  have apart : ∀ x ∈ u :: S, x ≠ v := by
    rintro x member rfl
    exact outside member
  have newest : u ≠ v := apart u List.mem_cons_self
  have low := labels.nonneg u
  have most := labels.le_INF v
  have away : src ≠ v := by
    rintro rfl
    rw [labels.source] at better
    omega
  have keeps := improve_keeps (s := s) reads v u (s.dist u + w)
  refine ⟨outside, ?_⟩
  constructor
  case nodup => exact labels.nodup
  case sorted => exact labels.sorted.orderedInsert ..
  case source => rw [improve_dist_ne away, labels.source]
  case nonneg => exact improve_forall (fun _ label => 0 ≤ label) (by omega) fun x _ => labels.nonneg x
  case le_INF => exact improve_forall (fun _ label => label ≤ INF) (by omega) fun x _ => labels.le_INF x
  case queued =>
    intro x unsettled reached
    by_cases same : x = v
    · rw [same, improve_dist_self]
      exact mem_improve_queue.mpr (.inl rfl)
    · rw [improve_dist_ne same] at reached ⊢
      exact mem_improve_queue.mpr (.inr (labels.queued x unsettled reached))
  case entries =>
    intro p member
    rcases mem_improve_queue.mp member with rfl | old
    · rw [improve_dist_self]
      exact ⟨le_refl _, by omega⟩
    · have before := labels.entries p old
      by_cases same : p.2 = v
      · rw [same] at before ⊢
        rw [improve_dist_self]
        exact ⟨by omega, by omega⟩
      · rw [improve_dist_ne same]
        exact before
  case later =>
    intro x settled p member
    rw [improve_dist_ne (apart x settled)]
    rcases mem_improve_queue.mp member with rfl | old
    · have below := labels.le_newest x settled
      show s.dist x ≤ s.dist u + w
      omega
    · exact labels.later x settled p old
  case ordered =>
    refine labels.ordered.imp_of_mem ?_
    intro x y first second le
    rwa [improve_dist_ne (apart x first), improve_dist_ne (apart y second)]
  case rooted => exact rooted_keeps keeps apart labels.rooted
  case traced =>
    intro x unsettled reached
    by_cases same : x = v
    · subst same
      refine .inr ⟨u, List.mem_cons_self, w, arc, ?_, reads.names_self s.notes x u⟩
      rw [improve_dist_self, improve_dist_ne newest]
    · rw [improve_dist_ne same] at reached
      exact traced_keeps keeps same apart (labels.traced x unsettled reached)
  case blank =>
    intro x unreached
    by_cases same : x = v
    · rw [same, improve_dist_self] at unreached
      omega
    · rw [improve_dist_ne same] at unreached
      exact keeps.blank x same (labels.blank x unreached)
  case origin => exact keeps.blank src away labels.origin

section Scan
variable (nonneg : ∀ e ∈ calls, 0 ≤ e.w)
include nonneg

/-- One edge of the newest settled vertex. -/
theorem Labels.relax {u v : Fin n} {w : Int} (labels : Labels calls reads src (u :: S) s) (arc : Arc calls u v w)
    (sum : add (s.dist u) w = s.dist u + w) : Labels calls reads src (u :: S) (relax add note u s (v,w)) ∧
    (∀ x ∈ u :: S, (relax add note u s (v,w)).dist x = s.dist x) ∧
    (∀ x, (relax add note u s (v,w)).dist x ≤ s.dist x) ∧
    (relax add note u s (v,w)).dist v ≤ (relax add note u s (v,w)).dist u + w := by
  have weight := arc.nonneg nonneg
  by_cases improves : s.dist v > s.dist u + w
  · have relaxed : Dijkstra.relax add note u s (v,w) = Dijkstra.improve note s v u (s.dist u + w) := by
      simp only [Dijkstra.relax, sum, improves, if_true]
    obtain ⟨outside, improved⟩ := labels.improve arc weight improves
    have apart : ∀ x ∈ u :: S, x ≠ v := by
      rintro x member rfl
      exact outside member
    rw [relaxed]
    refine ⟨improved, ?_, ?_, ?_⟩
    · intro x settled
      exact improve_dist_ne (apart x settled) ..
    · exact improve_dist_le improves
    · rw [improve_dist_self, improve_dist_ne (apart u List.mem_cons_self)]
  · have same : Dijkstra.relax add note u s (v,w) = s := by
      simp only [Dijkstra.relax, sum, improves, if_false]
    rw [same]
    exact ⟨labels, fun _ _ => rfl, fun _ => le_refl _, by omega⟩

/-- The edges of the newest settled vertex, one after the other. -/
theorem Labels.scan {u : Fin n} {edges : List (Fin n × Int)} (labels : Labels calls reads src (u :: S) s)
    (arcs : ∀ e ∈ edges, Arc calls u e.1 e.2) (sums : ∀ e ∈ edges, add (s.dist u) e.2 = s.dist u + e.2) :
    Labels calls reads src (u :: S) (scan add note u s edges) ∧
    (∀ x ∈ u :: S, (scan add note u s edges).dist x = s.dist x) ∧
    (∀ x, (scan add note u s edges).dist x ≤ s.dist x) ∧
    ∀ e ∈ edges, (scan add note u s edges).dist e.1 ≤ (scan add note u s edges).dist u + e.2 := by
  induction edges generalizing s with
  | nil => exact ⟨labels, fun _ _ => rfl, fun _ => le_refl _, by simp⟩
  | cons e edges ih =>
    obtain ⟨here, rest⟩ := List.forall_mem_cons.mp arcs
    obtain ⟨sum, others⟩ := List.forall_mem_cons.mp sums
    have newest : u ∈ u :: S := List.mem_cons_self
    obtain ⟨next, kept, lower, relaxed⟩ := labels.relax nonneg here sum
    obtain ⟨last, keptAll, lowerAll, relaxedAll⟩ := ih next rest (by rw [kept u newest]; exact others)
    refine ⟨last, ?_, ?_, ?_⟩
    · intro x settled
      exact (keptAll x settled).trans (kept x settled)
    · intro x
      exact (lowerAll x).trans (lower x)
    · intro f member
      rcases List.mem_cons.mp member with rfl | later
      · have same := keptAll u newest
        have below := lowerAll f.1
        show (Dijkstra.scan add note u (Dijkstra.relax add note u s (f.1,f.2)) edges).dist f.1 ≤
          (Dijkstra.scan add note u (Dijkstra.relax add note u s (f.1,f.2)) edges).dist u + f.2
        omega
      · exact relaxedAll f later

end Scan

/-! ### Walks to settled vertices -/

/-- The predecessors noted lead from a vertex without one to the last vertex. -/
inductive Trail (reads : Reads note) (notes : σ) : List (Fin n) → Fin n → Prop
  | source {v : Fin n} (empty : reads.blank notes v) : Trail reads notes [] v
  | step {vs : List (Fin n)} {u v : Fin n} (trail : Trail reads notes vs u) (named : reads.names notes v u) :
      Trail reads notes (vs ++ [u]) v

/-- The predecessors of a settled vertex are a walk of its label's weight that visits
    settled vertices once. -/
theorem rooted_walk (source : s.dist src = 0) (nodup : S.Nodup) (rooted : Rooted calls reads src s S) :
    ∀ v ∈ S, ∃ vs, Walk (Arc calls) src vs v (s.dist v) ∧ Trail reads s.notes vs v ∧ (vs ++ [v]).Nodup ∧ vs ++ [v] ⊆ S := by
  induction S with
  | nil => simp
  | cons x S ih =>
    obtain ⟨outside, rest⟩ := List.nodup_cons.mp nodup
    have before := ih rest rooted.1
    intro v member
    rcases List.mem_cons.mp member with rfl | settled
    · rcases rooted.2 with ⟨rfl, blank⟩ | ⟨u, inside, w, arc, sum, named⟩
      · refine ⟨[], ?_, .source blank, List.nodup_singleton _, by simp⟩
        rw [source]
        exact .nil
      · obtain ⟨vs, walk, trail, once, within⟩ := before u inside
        refine ⟨vs ++ [u], ?_, .step trail named, ?_, ?_⟩
        · rw [sum]
          exact walk.snoc arc
        · exact once.append (List.nodup_singleton v) (List.disjoint_singleton.mpr fun again => outside (within again))
        · intro y visited
          rcases List.mem_append.mp visited with old | last
          · exact List.mem_cons_of_mem v (within old)
          · rw [List.mem_singleton.mp last]
            exact List.mem_cons_self
    · obtain ⟨vs, walk, trail, once, within⟩ := before v settled
      exact ⟨vs, walk, trail, once, List.subset_cons_of_subset x within⟩

/-- Up to a bound on the keys queued, no arc can improve a label. -/
theorem Settled.relaxed_upto (settled : Settled calls reads src S s) (nonneg : ∀ e ∈ calls, 0 ≤ e.w) (key : Int)
    (keys : ∀ p ∈ s.prio_queue, key ≤ p.1) (below : key ≤ INF) (x y : Fin n) (w : Int) (arc : Arc calls x y w) :
    min (s.dist y) key ≤ min (s.dist x) key + w := by
  have weight := arc.nonneg nonneg
  by_cases inside : x ∈ S
  · have relaxed := settled.relaxed x inside y w arc
    omega
  · -- the label of a vertex not settled is queued, or `INF`
    have beyond : key ≤ s.dist x := by
      by_cases reached : s.dist x = INF
      · rw [reached]
        exact below
      · exact keys _ (settled.queued x inside reached)
    omega

/-- A label not above the keys queued is the least weight, if it is a weight. -/
theorem Settled.isLeast (settled : Settled calls reads src S s) (nonneg : ∀ e ∈ calls, 0 ≤ e.w) {v : Fin n}
    {vs : List (Fin n)} (keys : ∀ p ∈ s.prio_queue, s.dist v ≤ p.1) (walk : Walk (Arc calls) src vs v (s.dist v)) :
    IsLeast (weights (Arc calls) src v) (s.dist v) := by
  apply isLeast_weights (d := fun x => min (s.dist x) (s.dist v)) ?_ ?_ walk (by simp)
  · rw [settled.source]
    exact min_le_left ..
  · exact settled.relaxed_upto nonneg (s.dist v) keys (settled.le_INF v)

theorem Settled.least (settled : Settled calls reads src S s) (nonneg : ∀ e ∈ calls, 0 ≤ e.w) {v : Fin n}
    (member : v ∈ S) : IsLeast (weights (Arc calls) src v) (s.dist v) := by
  obtain ⟨vs, walk, -⟩ := rooted_walk settled.source settled.nodup settled.rooted v member
  exact settled.isLeast nonneg (settled.later v member) walk

/-! ### Pops -/

/-- The variables without the pair on top of the queue. -/
def Search.unqueue (s : Search n σ) : Search n σ := { s with prio_queue := s.prio_queue.tail }

theorem iterate_eq {g : Graph n} {top : Int × Fin n} (popped : Pops add note g s top t) :
    (∃ rest, s.prio_queue = top :: rest) ∧ t = scan add note top.2 s.unqueue (g.m_edges top.2) := by
  unfold Pops iterate at popped
  cases queue : s.prio_queue with
  | nil => simp [queue] at popped
  | cons first rest =>
    simp only [queue, Option.some.injEq, Prod.mk.injEq] at popped
    obtain ⟨rfl, rfl⟩ := popped
    refine ⟨⟨rest, rfl⟩, ?_⟩
    simp only [Search.unqueue, queue, List.tail_cons]

/-- The loop stops when the queue is empty. -/
theorem iterate_none {g : Graph n} (stopped : iterate add note g s = none) : s.prio_queue = [] := by
  unfold iterate at stopped
  cases queue : s.prio_queue with
  | nil => rfl
  | cons top rest => simp [queue] at stopped

theorem unqueue_keeps (reads : Reads note) (s : Search n σ) : Keeps reads (fun _ => True) s s.unqueue where
  dist _ _ := rfl
  names _ _ _ named := named
  blank _ _ empty := empty

theorem mem_unqueue {p : Int × Fin n} (member : p ∈ s.unqueue.prio_queue) : p ∈ s.prio_queue := List.mem_of_mem_tail member

/-- The pair of another vertex stays queued. -/
theorem mem_unqueue_of_ne {top p : Int × Fin n} {rest : List (Int × Fin n)} (queue : s.prio_queue = top :: rest)
    (other : p.2 ≠ top.2) (member : p ∈ s.prio_queue) : p ∈ s.unqueue.prio_queue := by
  rw [queue] at member
  rcases List.mem_cons.mp member with rfl | later
  · exact absurd rfl other
  · simpa only [Search.unqueue, queue, List.tail_cons] using later

theorem traced_wider {u v : Fin n} (traced : Traced calls reads src S s v) : Traced calls reads src (u :: S) s v := by
  rcases traced with source | ⟨x, member, found⟩
  · exact .inl source
  · exact .inr ⟨x, List.mem_cons_of_mem u member, found⟩

/-- A pair of a settled vertex leaves the queue. -/
theorem Settled.drop_top {top : Int × Fin n} {rest : List (Int × Fin n)} (settled : Settled calls reads src S s)
    (queue : s.prio_queue = top :: rest) (again : top.2 ∈ S) : Settled calls reads src S s.unqueue where
  nodup := settled.nodup
  sorted := settled.sorted.tail
  source := settled.source
  nonneg := settled.nonneg
  le_INF := settled.le_INF
  queued v unsettled reached := by
    apply mem_unqueue_of_ne queue
    · rintro rfl
      exact unsettled again
    · exact settled.queued v unsettled reached
  entries p member := settled.entries p (mem_unqueue member)
  later u inside p member := settled.later u inside p (mem_unqueue member)
  ordered := settled.ordered
  rooted := rooted_keeps (unqueue_keeps reads s) (fun _ _ => trivial) settled.rooted
  traced v unsettled reached :=
    traced_keeps (unqueue_keeps reads s) trivial (fun _ _ => trivial) (settled.traced v unsettled reached)
  blank := settled.blank
  origin := settled.origin
  relaxed := settled.relaxed

/-- The first pair of a vertex to be popped has its label. -/
theorem Settled.top_eq {top : Int × Fin n} {rest : List (Int × Fin n)} (settled : Settled calls reads src S s)
    (queue : s.prio_queue = top :: rest) (new : top.2 ∉ S) : top.1 = s.dist top.2 := by
  have member : top ∈ s.prio_queue := by simp [queue]
  obtain ⟨low, reached⟩ := settled.entries top member
  have current := settled.queued top.2 new reached
  have sorted := settled.sorted
  rw [queue] at current sorted
  have least := top_le sorted current
  exact le_antisymm least low

/-- The pair of a vertex not settled leaves the queue, and the vertex is settled. -/
theorem Settled.settle {top : Int × Fin n} {rest : List (Int × Fin n)} (settled : Settled calls reads src S s)
    (queue : s.prio_queue = top :: rest) (new : top.2 ∉ S) : Labels calls reads src (top.2 :: S) s.unqueue where
  nodup := settled.nodup.cons new
  sorted := settled.sorted.tail
  source := settled.source
  nonneg := settled.nonneg
  le_INF := settled.le_INF
  queued v unsettled reached := by
    rw [List.mem_cons, not_or] at unsettled
    exact mem_unqueue_of_ne queue unsettled.1 (settled.queued v unsettled.2 reached)
  entries p member := settled.entries p (mem_unqueue member)
  later u inside p member := by
    rcases List.mem_cons.mp inside with rfl | before
    · have sorted := settled.sorted
      have queued := mem_unqueue member
      rw [queue] at sorted queued
      show s.dist top.2 ≤ p.1
      rw [← settled.top_eq queue new]
      exact top_le sorted queued
    · exact settled.later u before p (mem_unqueue member)
  ordered := by
    refine List.Pairwise.cons ?_ settled.ordered
    intro x before
    show s.dist x ≤ s.dist top.2
    rw [← settled.top_eq queue new]
    exact settled.later x before top (by simp [queue])
  rooted := by
    have reached := (settled.entries top (by simp [queue])).2
    have rooted : Rooted calls reads src s (top.2 :: S) := ⟨settled.rooted, settled.traced top.2 new reached⟩
    exact rooted_keeps (unqueue_keeps reads s) (fun _ _ => trivial) rooted
  traced v unsettled reached := by
    rw [List.mem_cons, not_or] at unsettled
    exact traced_keeps (unqueue_keeps reads s) trivial (fun _ _ => trivial) (traced_wider (settled.traced v unsettled.2 reached))
  blank := settled.blank
  origin := settled.origin

/-- The label a vertex is first popped with is its least weight. -/
theorem Settled.top_least {top : Int × Fin n} {rest : List (Int × Fin n)} (settled : Settled calls reads src S s)
    (nonneg : ∀ e ∈ calls, 0 ≤ e.w) (queue : s.prio_queue = top :: rest) (new : top.2 ∉ S) :
    IsLeast (weights (Arc calls) src top.2) (s.dist top.2) := by
  have labels := settled.settle queue new
  obtain ⟨vs, walk, -⟩ := rooted_walk labels.source labels.nodup labels.rooted top.2 List.mem_cons_self
  refine settled.isLeast nonneg ?_ walk
  intro p member
  have sorted := settled.sorted
  rw [queue] at sorted member
  rw [← settled.top_eq queue new]
  exact top_le sorted member

/-- Edges that improve nothing. -/
theorem scan_relaxed (note : σ → Fin n → Fin n → σ) {u : Fin n} {edges : List (Fin n × Int)} (place : Nat)
    (relaxed : ∀ e ∈ edges, s.dist e.1 ≤ add (s.dist u) e.2) :
    scan add note u s edges = s ∧ pushes add note u s edges place = [] := by
  induction edges generalizing place with
  | nil => exact ⟨rfl, rfl⟩
  | cons e edges ih =>
    obtain ⟨here, rest⟩ := List.forall_mem_cons.mp relaxed
    have still : ¬ s.dist e.1 > add (s.dist u) e.2 := by omega
    have same : relax add note u s e = s := if_neg still
    obtain ⟨scanned, pushed⟩ := ih (place + 1) rest
    constructor
    · show scan add note u (relax add note u s e) edges = s
      rw [same, scanned]
    · unfold pushes
      rw [if_neg still, same, pushed]

section Sums
variable (nonneg : ∀ e ∈ calls, 0 ≤ e.w) (sums : SumsExact add calls src)
include nonneg sums

/-- A pop of a settled vertex changes nothing but the queue, and pushes nothing. -/
theorem Settled.pop_again {top : Int × Fin n} (settled : Settled calls reads src S s)
    (popped : Pops add note (Graph.build calls) s top t) (again : top.2 ∈ S) :
    t = s.unqueue ∧ pushes add note top.2 s.unqueue ((Graph.build calls).m_edges top.2) 0 = [] ∧
      Settled calls reads src S t := by
  obtain ⟨⟨rest, queue⟩, rfl⟩ := iterate_eq popped
  have after := settled.drop_top queue again
  have relaxed : ∀ e ∈ (Graph.build calls).m_edges top.2,
      s.unqueue.dist e.1 ≤ add (s.unqueue.dist top.2) e.2 := by
    intro e member
    have arc := Graph.mem_build.mp member
    rw [sums _ _ _ _ arc (after.least nonneg again)]
    exact after.relaxed top.2 again e.1 e.2 arc
  obtain ⟨scanned, pushed⟩ := scan_relaxed note 0 relaxed
  rw [scanned]
  exact ⟨rfl, pushed, after⟩

/-- A pop of another vertex settles it. -/
theorem Settled.pop_new {top : Int × Fin n} (settled : Settled calls reads src S s)
    (popped : Pops add note (Graph.build calls) s top t) (new : top.2 ∉ S) :
    top.1 = s.dist top.2 ∧ Settled calls reads src (top.2 :: S) t ∧ ∀ x ∈ top.2 :: S, t.dist x = s.dist x := by
  obtain ⟨⟨rest, queue⟩, rfl⟩ := iterate_eq popped
  have arcs : ∀ e ∈ (Graph.build calls).m_edges top.2, Arc calls top.2 e.1 e.2 := fun e => Graph.mem_build.mp
  have least := settled.top_least nonneg queue new
  obtain ⟨labels, kept, lower, relaxed⟩ := (settled.settle queue new).scan nonneg arcs
    fun e entry => sums _ _ _ _ (arcs e entry) least
  refine ⟨settled.top_eq queue new, ⟨labels, ?_⟩, kept⟩
  intro u inside v w arc
  rcases List.mem_cons.mp inside with rfl | before
  · exact relaxed (v,w) (Graph.mem_build.mpr arc)
  · rw [kept u inside]
    exact (lower v).trans (settled.relaxed u before v w arc)

end Sums

end Canna.Dijkstra
