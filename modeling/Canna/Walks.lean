import Mathlib.Algebra.Order.Monoid.Defs
import Mathlib.Data.List.Nodup
import Mathlib.Order.Bounds.Basic

/-!
# Walks in weighted multigraphs

A graph is the relation `Arc` of its arcs with their weights; between two vertices
there may be arcs of several weights. A walk carries the vertices before its last
one and its weight. Labels that no arc can improve bound the weight of every walk
(`Walk.bounded`), so that a walk that weighs no more than the label of its end has the
least weight (`isLeast_weights`). Where no arc is negative, vertices need not be
repeated (`Walk.simple`). Walks may be confined to parts below a bound (`Within`).
-/
namespace Canna
variable {V R : Type*} [AddCommMonoid R]

/-- The vertices listed, followed by the last one, are a walk between the two vertices. -/
inductive Walk (Arc : V → V → R → Prop) (u : V) : List V → V → R → Prop
  | nil : Walk Arc u [] u 0
  | snoc {vs : List V} {v x : V} {W w : R} (walk : Walk Arc u vs v W) (arc : Arc v x w) :
      Walk Arc u (vs ++ [v]) x (W + w)

/-- The weights of the walks between two vertices. -/
def weights (Arc : V → V → R → Prop) (u v : V) : Set R := {W | ∃ vs, Walk Arc u vs v W}

/-- Some walk leads from one vertex to the other. -/
def Reaches (Arc : V → V → R → Prop) (u v : V) : Prop := ∃ vs W, Walk Arc u vs v W

/-- A walk of this weight leads from one vertex to the other of which every part from the
    start weighs less than a bound. -/
inductive Within [LT R] (Arc : V → V → R → Prop) (bound : R) (u : V) : V → R → Prop
  | start (positive : 0 < bound) : Within Arc bound u u 0
  | step {v x : V} {W w : R} (within : Within Arc bound u v W) (arc : Arc v x w) (below : W + w < bound) :
      Within Arc bound u x (W + w)

variable {Arc : V → V → R → Prop} {u v : V} {vs : List V} {W : R}

theorem Within.lt_bound [LT R] {bound : R} (within : Within Arc bound u v W) : W < bound := by
  cases within with
  | start positive => exact positive
  | step _ _ below => exact below

section Ordered
variable [PartialOrder R] [IsOrderedAddMonoid R]

/-- With labels that no arc improves, the weight of a walk is at least the difference of
    the labels of its ends. -/
theorem Walk.bounded {d : V → R} (relaxed : ∀ x y w, Arc x y w → d y ≤ d x + w) (walk : Walk Arc u vs v W) :
    d v ≤ d u + W := by
  induction walk with
  | nil => rw [add_zero]
  | @snoc vs v x W w walk arc ih =>
    calc d x ≤ d v + w := relaxed v x w arc
      _ ≤ d u + W + w := by gcongr
      _ = d u + (W + w) := add_assoc ..

/-- The weight of a walk that is at most such a label is the least weight. -/
theorem isLeast_weights {d : V → R} (start : d u ≤ 0) (relaxed : ∀ x y w, Arc x y w → d y ≤ d x + w)
    (walk : Walk Arc u vs v W) (tight : W ≤ d v) : IsLeast (weights Arc u v) W := by
  refine ⟨⟨vs, walk⟩, ?_⟩
  rintro W' ⟨other, leads⟩
  calc W ≤ d v := tight
    _ ≤ d u + W' := leads.bounded relaxed
    _ ≤ 0 + W' := by gcongr
    _ = W' := zero_add W'

section Within
variable {bound : R}

/-- Labels that no arc from a label below the bound improves bound such a walk too. -/
theorem Within.bounded {d : V → R} (start : d u ≤ 0) (relaxed : ∀ x y w, d x < bound → Arc x y w → d y ≤ d x + w)
    (within : Within Arc bound u v W) : d v ≤ W := by
  induction within with
  | start => exact start
  | @step v x W w within arc below ih =>
    calc d x ≤ d v + w := relaxed v x w (ih.trans_lt within.lt_bound) arc
      _ ≤ W + w := by gcongr

/-- Where no arc from a vertex within the bound is negative, neither is the walk. -/
theorem Within.nonneg (positive : ∀ x W y w, Within Arc bound u x W → Arc x y w → 0 ≤ w)
    (within : Within Arc bound u v W) : 0 ≤ W := by
  induction within with
  | start => exact le_refl 0
  | step within arc _ ih => exact add_nonneg ih (positive _ _ _ _ within arc)

end Within

section Nonneg
variable (positive : ∀ x y w, Arc x y w → 0 ≤ w)
include positive

theorem Walk.nonneg (walk : Walk Arc u vs v W) : 0 ≤ W := by
  have bound := walk.bounded (d := fun _ => 0) fun x y w arc => by rw [zero_add]; exact positive x y w arc
  rwa [zero_add] at bound

/-- A walk up to one of its vertices weighs no more. -/
theorem Walk.upto (walk : Walk Arc u vs v W) {x : V} (visited : x ∈ vs ++ [v]) :
    ∃ ws W', Walk Arc u ws x W' ∧ W' ≤ W ∧ ws ++ [x] <+: vs ++ [v] := by
  induction walk with
  | nil =>
    cases List.mem_singleton.mp visited
    exact ⟨[], 0, .nil, le_refl _, List.prefix_refl _⟩
  | @snoc vs v y W w walk arc ih =>
    rcases List.mem_append.mp visited with early | last
    · obtain ⟨ws, W', part, lighter, shorter⟩ := ih early
      exact ⟨ws, W', part, lighter.trans (le_add_of_nonneg_right (positive v y w arc)),
        shorter.trans (List.prefix_append ..)⟩
    · cases List.mem_singleton.mp last
      exact ⟨vs ++ [v], W + w, walk.snoc arc, le_refl _, List.prefix_refl _⟩

/-- For every walk there is one that repeats no vertex and weighs no more. -/
theorem Walk.simple (walk : Walk Arc u vs v W) : ∃ ws W', Walk Arc u ws v W' ∧ W' ≤ W ∧ (ws ++ [v]).Nodup := by
  induction walk with
  | nil => exact ⟨[], 0, .nil, le_refl _, List.nodup_singleton u⟩
  | @snoc vs v x W w walk arc ih =>
    obtain ⟨ws, W', part, lighter, once⟩ := ih
    have longer : W' ≤ W + w := lighter.trans (le_add_of_nonneg_right (positive v x w arc))
    by_cases visited : x ∈ ws ++ [v]
    · obtain ⟨xs, W'', back, least, shorter⟩ := part.upto positive visited
      exact ⟨xs, W'', back, least.trans longer, once.sublist shorter.sublist⟩
    · refine ⟨ws ++ [v], W' + w, part.snoc arc, by gcongr, ?_⟩
      exact once.append (List.nodup_singleton x) (List.disjoint_singleton.mpr visited)

end Nonneg

end Ordered

end Canna
