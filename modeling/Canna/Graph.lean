import Mathlib.Algebra.BigOperators.Fin
import Mathlib.Algebra.Order.BigOperators.Group.Finset
import Mathlib.Algebra.Order.Group.Int
import Mathlib.Data.Int.LeastGreatest
import Mathlib.Tactic.Tauto
import Canna.Walks

/-!
# The path server's graph

`AddEdge` enters an edge in the lists of both its ends, twice in one list for an edge
from a vertex to itself. The arcs of a graph built by a list of calls are the edges
of the calls, in both directions (`mem_build`). With weights that are not negative,
the least weights are at most the total weight of the calls (`least_le_total`).
-/
namespace Canna
open scoped BigOperators

/-- A graph of `n` vertices with their lists of edges. -/
structure Graph (n : Nat) where
  m_edges : Fin n → List (Fin n × Int)

/-- The ends and the weight of an `AddEdge` call. -/
structure Edge (n : Nat) where
  u : Fin n
  v : Fin n
  w : Int
  deriving DecidableEq, Repr

namespace Graph
variable {n : Nat}

def empty (n : Nat) : Graph n := ⟨fun _ => []⟩

/-- Appends to the list of one vertex. -/
def push_back (g : Graph n) (u : Fin n) (entry : Fin n × Int) : Graph n :=
  ⟨Function.update g.m_edges u (g.m_edges u ++ [entry])⟩

def AddEdge (g : Graph n) (e : Edge n) : Graph n := (g.push_back e.u (e.v,e.w)).push_back e.v (e.u,e.w)

/-- The graph after a list of calls. -/
def build (calls : List (Edge n)) : Graph n := calls.foldl AddEdge (empty n)

theorem mem_push_back {g : Graph n} {u x : Fin n} {entry other : Fin n × Int} :
    other ∈ (g.push_back u entry).m_edges x ↔ other ∈ g.m_edges x ∨ (x = u ∧ other = entry) := by
  by_cases same : x = u
  · subst same
    simp [push_back]
  · simp [push_back, same]

theorem length_push_back {g : Graph n} {u : Fin n} {entry : Fin n × Int} :
    ∑ x, ((g.push_back u entry).m_edges x).length = ∑ x, (g.m_edges x).length + 1 := by
  have each : ∀ x, ((g.push_back u entry).m_edges x).length = (g.m_edges x).length + if x = u then 1 else 0 := by
    intro x
    by_cases same : x = u
    · subst same
      simp [push_back]
    · simp [push_back, same]
  simp only [each, Finset.sum_add_distrib, Finset.sum_ite_eq', Finset.mem_univ, if_true]

end Graph

/-- The edge joins the vertices, in this or the other order. -/
def Edge.Joins {n : Nat} (e : Edge n) (x y : Fin n) (w : Int) : Prop :=
  e = ⟨x,y,w⟩ ∨ e = ⟨y,x,w⟩

/-- The undirected multigraph of a list of calls. -/
def Arc {n : Nat} (calls : List (Edge n)) (x y : Fin n) (w : Int) : Prop := ∃ e ∈ calls, e.Joins x y w

namespace Graph
variable {n : Nat}

theorem mem_AddEdge {g : Graph n} {e : Edge n} {x y : Fin n} {w : Int} :
    (y,w) ∈ (g.AddEdge e).m_edges x ↔ (y,w) ∈ g.m_edges x ∨ e.Joins x y w := by
  obtain ⟨u, v, c⟩ := e
  simp only [AddEdge, mem_push_back, Edge.Joins, Edge.mk.injEq, Prod.mk.injEq]
  constructor
  · rintro ((old | ⟨rfl, rfl, rfl⟩) | ⟨rfl, rfl, rfl⟩)
    · exact .inl old
    · exact .inr (.inl ⟨rfl, rfl, rfl⟩)
    · exact .inr (.inr ⟨rfl, rfl, rfl⟩)
  · rintro (old | ⟨rfl, rfl, rfl⟩ | ⟨rfl, rfl, rfl⟩)
    · exact .inl (.inl old)
    · exact .inl (.inr ⟨rfl, rfl, rfl⟩)
    · exact .inr ⟨rfl, rfl, rfl⟩

theorem mem_build {calls : List (Edge n)} {x y : Fin n} {w : Int} :
    (y,w) ∈ (build calls).m_edges x ↔ Arc calls x y w := by
  induction calls using List.reverseRecOn with
  | nil => simp [build, empty, Arc]
  | append_singleton calls e ih =>
    have last : build (calls ++ [e]) = (build calls).AddEdge e := by simp [build]
    rw [last, mem_AddEdge, ih]
    simp only [Arc, List.mem_append, List.mem_singleton, or_and_right, exists_or, exists_eq_left]

/-- Each call makes two entries. -/
theorem length_build (calls : List (Edge n)) : ∑ x, ((build calls).m_edges x).length = 2 * calls.length := by
  induction calls using List.reverseRecOn with
  | nil => simp [build, empty]
  | append_singleton calls e ih =>
    have last : build (calls ++ [e]) = (build calls).AddEdge e := by simp [build]
    rw [last, AddEdge, length_push_back, length_push_back, ih, List.length_append, List.length_singleton]
    omega

end Graph

/-! ### Weights -/

section Weights
variable {n : Nat}

/-- The total weight of the calls whose edges have both ends among the vertices. -/
def weightWithin (calls : List (Edge n)) (S : List (Fin n)) : Int :=
  ((calls.filter fun e => e.u ∈ S ∧ e.v ∈ S).map Edge.w).sum

/-- The total weight of the calls. -/
def totalWeight (calls : List (Edge n)) : Int := (calls.map Edge.w).sum

variable {calls : List (Edge n)} {S T : List (Fin n)}

theorem weightWithin_cons (e : Edge n) (calls : List (Edge n)) (S : List (Fin n)) :
    weightWithin (e :: calls) S = (if e.u ∈ S ∧ e.v ∈ S then e.w else 0) + weightWithin calls S := by
  by_cases inside : e.u ∈ S ∧ e.v ∈ S
  · simp [weightWithin, inside]
  · simp [weightWithin, inside]

theorem weightWithin_nonneg (nonneg : ∀ e ∈ calls, 0 ≤ e.w) (S : List (Fin n)) : 0 ≤ weightWithin calls S := by
  apply List.sum_nonneg
  intro w member
  obtain ⟨e, inside, rfl⟩ := List.mem_map.mp member
  exact nonneg e (List.mem_of_mem_filter inside)

theorem within_mono {e : Edge n} (nonneg : 0 ≤ e.w) (wider : S ⊆ T) :
    (if e.u ∈ S ∧ e.v ∈ S then e.w else 0) ≤ if e.u ∈ T ∧ e.v ∈ T then e.w else 0 := by
  by_cases inside : e.u ∈ S ∧ e.v ∈ S
  · rw [if_pos inside, if_pos ⟨wider inside.1, wider inside.2⟩]
  · rw [if_neg inside]
    by_cases now : e.u ∈ T ∧ e.v ∈ T
    · rwa [if_pos now]
    · rw [if_neg now]

theorem weightWithin_mono (nonneg : ∀ e ∈ calls, 0 ≤ e.w) (wider : S ⊆ T) : weightWithin calls S ≤ weightWithin calls T := by
  induction calls with
  | nil => exact le_refl _
  | cons e calls ih =>
    obtain ⟨here, later⟩ := List.forall_mem_cons.mp nonneg
    rw [weightWithin_cons, weightWithin_cons]
    exact Int.add_le_add (within_mono here wider) (ih later)

/-- An edge of which not both ends were among the vertices. -/
theorem weightWithin_add (nonneg : ∀ e ∈ calls, 0 ≤ e.w) (wider : S ⊆ T) {e : Edge n} (member : e ∈ calls)
    (outside : ¬ (e.u ∈ S ∧ e.v ∈ S)) (inside : e.u ∈ T ∧ e.v ∈ T) :
    weightWithin calls S + e.w ≤ weightWithin calls T := by
  induction calls with
  | nil => simp at member
  | cons first calls ih =>
    obtain ⟨here, later⟩ := List.forall_mem_cons.mp nonneg
    rw [weightWithin_cons, weightWithin_cons]
    rcases List.mem_cons.mp member with rfl | further
    · rw [if_neg outside, if_pos inside]
      have rest := weightWithin_mono later wider
      omega
    · have rest := ih later further
      have head := within_mono here wider
      omega

theorem weightWithin_le_total (nonneg : ∀ e ∈ calls, 0 ≤ e.w) (S : List (Fin n)) :
    weightWithin calls S ≤ totalWeight calls := by
  apply (List.filter_sublist.map Edge.w).sum_le_sum
  intro w member
  obtain ⟨e, inside, rfl⟩ := List.mem_map.mp member
  exact nonneg e inside

theorem Arc.symm {x y : Fin n} {w : Int} (arc : Arc calls x y w) : Arc calls y x w := by
  obtain ⟨e, member, joins⟩ := arc
  exact ⟨e, member, Or.symm joins⟩

theorem Arc.nonneg (nonneg : ∀ e ∈ calls, 0 ≤ e.w) {x y : Fin n} {w : Int} (arc : Arc calls x y w) : 0 ≤ w := by
  obtain ⟨e, member, rfl | rfl⟩ := arc
  · exact nonneg _ member
  · exact nonneg _ member

/-- An arc that leaves the vertices. -/
theorem Arc.weightWithin_add (nonneg : ∀ e ∈ calls, 0 ≤ e.w) {x y : Fin n} {w : Int} (arc : Arc calls x y w)
    (inside : x ∈ S) (outside : y ∉ S) : weightWithin calls S + w ≤ weightWithin calls (y :: S) := by
  have wider : S ⊆ y :: S := List.subset_cons_self y S
  obtain ⟨e, member, rfl | rfl⟩ := arc
  · exact Canna.weightWithin_add nonneg wider member (fun both => outside both.2) ⟨wider inside, List.mem_cons_self⟩
  · exact Canna.weightWithin_add nonneg wider member (fun both => outside both.1) ⟨List.mem_cons_self, wider inside⟩

theorem Arc.le_total (nonneg : ∀ e ∈ calls, 0 ≤ e.w) {x y : Fin n} {w : Int} (arc : Arc calls x y w) :
    w ≤ totalWeight calls := by
  have single : ∀ e ∈ calls, e.w ≤ totalWeight calls := by
    intro e member
    apply List.single_le_sum
    · intro w inside
      obtain ⟨f, found, rfl⟩ := List.mem_map.mp inside
      exact nonneg f found
    · exact List.mem_map_of_mem member
  obtain ⟨e, member, rfl | rfl⟩ := arc
  · exact single _ member
  · exact single _ member

variable {u v : Fin n} {vs : List (Fin n)} {W : Int}

/-- A walk that repeats no vertex takes no edge twice. -/
theorem Walk.le_weightWithin (nonneg : ∀ e ∈ calls, 0 ≤ e.w) (walk : Walk (Arc calls) u vs v W)
    (once : (vs ++ [v]).Nodup) : W ≤ weightWithin calls (vs ++ [v]) := by
  induction walk with
  | nil => exact weightWithin_nonneg nonneg _
  | @snoc vs v x W w walk arc ih =>
    obtain ⟨before, -, apart⟩ := List.nodup_append.mp once
    have outside : x ∉ vs ++ [v] := fun visited => apart x visited x (List.mem_singleton_self x) rfl
    have leaves := arc.weightWithin_add nonneg (List.mem_append_right vs (List.mem_singleton_self v)) outside
    have same : x :: (vs ++ [v]) ⊆ vs ++ [v] ++ [x] := by
      intro y member
      simp only [List.mem_cons, List.mem_append] at member ⊢
      tauto
    calc W + w ≤ weightWithin calls (vs ++ [v]) + w := Int.add_le_add_right (ih before) w
      _ ≤ weightWithin calls (x :: (vs ++ [v])) := leaves
      _ ≤ weightWithin calls (vs ++ [v] ++ [x]) := weightWithin_mono nonneg same

/-- Least weights are at most the total. -/
theorem least_le_total (nonneg : ∀ e ∈ calls, 0 ≤ e.w) (least : IsLeast (weights (Arc calls) u v) W) :
    W ≤ totalWeight calls := by
  obtain ⟨vs, walk⟩ := least.1
  obtain ⟨ws, W', direct, -, once⟩ := walk.simple fun _ _ _ => Arc.nonneg nonneg
  calc W ≤ W' := least.2 ⟨ws, direct⟩
    _ ≤ weightWithin calls (ws ++ [v]) := direct.le_weightWithin nonneg once
    _ ≤ totalWeight calls := weightWithin_le_total nonneg _

/-- Of the walks to a vertex that can be reached, some weigh least. -/
theorem exists_least (nonneg : ∀ e ∈ calls, 0 ≤ e.w) (reaches : Reaches (Arc calls) u v) :
    ∃ W, IsLeast (weights (Arc calls) u v) W := by
  obtain ⟨vs, W, walk⟩ := reaches
  have bounded : ∀ W ∈ weights (Arc calls) u v, 0 ≤ W := by
    rintro W ⟨vs, walk⟩
    exact walk.nonneg fun _ _ _ => Arc.nonneg nonneg
  obtain ⟨least, member, below⟩ := Int.exists_least_of_bdd ⟨0, bounded⟩ ⟨W, vs, walk⟩
  exact ⟨least, member, below⟩

end Weights

namespace Graph
variable {n : Nat}

/-- The number of entries in the lists of the other vertices. -/
def remaining (g : Graph n) (S : List (Fin n)) : Nat := ∑ x, if x ∈ S then 0 else (g.m_edges x).length

theorem remaining_cons (g : Graph n) {S : List (Fin n)} {u : Fin n} (new : u ∉ S) :
    g.remaining (u :: S) + (g.m_edges u).length = g.remaining S := by
  have each : ∀ x, (if x ∈ S then 0 else (g.m_edges x).length) =
      (if x ∈ u :: S then 0 else (g.m_edges x).length) + if x = u then (g.m_edges u).length else 0 := by
    intro x
    by_cases same : x = u
    · subst same
      simp [new]
    · simp [same]
  simp only [remaining, each, Finset.sum_add_distrib, Finset.sum_ite_eq', Finset.mem_univ, if_true]

theorem remaining_build (calls : List (Edge n)) : (build calls).remaining [] = 2 * calls.length := by
  simp only [remaining, List.not_mem_nil, if_false, length_build]

end Graph

end Canna
