import Canna.GetPath
import Canna.LabelSetting

/-!
# Sums of labels and weights

For each edge of the vertex popped, the search adds the weight to the vertex's label
(`Evaluates`). The label is the least weight of a walk to the vertex, and every vertex
that can be reached is popped. So the sums stay `int`s exactly if the least weights and
the weights of the arcs do, back towards the source too (`search_fits_iff`). One
direction looks at the search that adds exactly: as long as its sums are `int`s, the
search of the source takes the same iterations (`run_exact`).
-/
namespace Canna.Dijkstra
open Lts
variable {n : Nat} {σ : Type*} {add add' : Int → Int → Int} {note : σ → Fin n → Fin n → σ} {calls : List (Edge n)}
  {reads : Reads note} {src : Fin n} {S : List (Fin n)} {s t : Search n σ} {g : Graph n}

/-- The iteration evaluates the sum of the label, as it then is, and the weight of an
    edge of the vertex it pops. -/
def Evaluates (add : Int → Int → Int) (note : σ → Fin n → Fin n → σ) (g : Graph n)
    (m : Move (Search n σ) (Int × Fin n)) (label w : Int) : Prop :=
  ∃ k v, (g.m_edges m.act.2)[k]? = some (v,w) ∧ label = (during add note g m k).dist m.act.2

/-- Every sum that the search evaluates is an `int`, so that it is exact. -/
def SumsFit (note : σ → Fin n → Fin n → σ) (g : Graph n) (s : Search n σ) : Prop :=
  ∀ ms t, Run (Pops int_add note g) s ms t → ∀ m ∈ ms, ∀ label w, Evaluates int_add note g m label w →
    label + w ≤ INT_MAX ∧ int_add label w = label + w

/-- The least weight of a vertex and the weight of an arc from it make an `int`. -/
def Fits (calls : List (Edge n)) (src : Fin n) : Prop :=
  ∀ u v w W, Arc calls u v w → IsLeast (weights (Arc calls) src u) W → W + w ≤ INT_MAX

/-! ### The search that adds exactly -/

/-- Two additions that agree on the sums evaluated. -/
theorem scan_congr {u : Fin n} {edges : List (Fin n × Int)} (same : ∀ k e, edges[k]? = some e →
    add ((scan add note u s (edges.take k)).dist u) e.2 = add' ((scan add note u s (edges.take k)).dist u) e.2)
    (k : Nat) : scan add note u s (edges.take k) = scan add' note u s (edges.take k) := by
  induction edges generalizing s k with
  | nil => rw [List.take_nil]; rfl
  | cons e edges ih =>
    cases k with
    | zero => rfl
    | succ k =>
      have first : add (s.dist u) e.2 = add' (s.dist u) e.2 := same 0 e rfl
      have relaxed : relax add note u s e = relax add' note u s e := by simp only [relax, first]
      show scan add note u (relax add note u s e) _ = scan add' note u (relax add' note u s e) _
      rw [← relaxed]
      exact ih (fun j f found => same (j + 1) f found) k

theorem during_congr {m : Move (Search n σ) (Int × Fin n)}
    (same : ∀ label w, Evaluates add note g m label w → add label w = add' label w) (k : Nat) :
    during add note g m k = during add' note g m k :=
  scan_congr (fun j e found => same _ _ ⟨j, e.1, found, rfl⟩) k

theorem evaluates_congr {m : Move (Search n σ) (Int × Fin n)}
    (same : ∀ label w, Evaluates add note g m label w → add label w = add' label w) {label w : Int} :
    Evaluates add' note g m label w ↔ Evaluates add note g m label w := by
  simp only [Evaluates, during_congr same]

theorem pops_congr {top : Int × Fin n} (popped : Pops add note g s top t)
    (same : ∀ label w, Evaluates add note g ⟨s,top,t⟩ label w → add label w = add' label w) :
    Pops add' note g s top t := by
  obtain ⟨⟨rest, queue⟩, rfl⟩ := iterate_eq popped
  have scanned := during_congr same (g.m_edges top.2).length
  simp only [during, List.take_length] at scanned
  rw [scanned]
  simp only [Pops, iterate, queue, Search.unqueue, List.tail_cons]

/-! ### The sums evaluated -/

section Sums
variable (nonneg : ∀ e ∈ calls, 0 ≤ e.w) (sums : SumsExact add calls src)
include nonneg sums

/-- A vertex is popped with its least weight as label. -/
theorem Settled.pop_least {top : Int × Fin n} (settled : Settled calls reads src S s)
    (popped : Pops add note (Graph.build calls) s top t) : IsLeast (weights (Arc calls) src top.2) (s.dist top.2) := by
  obtain ⟨T, after, vertices, -⟩ := settled.pop nonneg sums popped
  rw [← settled.pop_dist nonneg sums popped (.inl rfl)]
  exact after.least nonneg ((vertices top.2).mpr (.inl rfl))

/-- The sums evaluated are those of the vertex's label and the weights of its arcs. -/
theorem Settled.evaluates {top : Int × Fin n} (settled : Settled calls reads src S s)
    (popped : Pops add note (Graph.build calls) s top t) {label w : Int} :
    Evaluates add note (Graph.build calls) ⟨s,top,t⟩ label w ↔ label = s.dist top.2 ∧ ∃ v, Arc calls top.2 v w := by
  have kept := settled.during_dist nonneg sums popped (.inl rfl)
  constructor
  · rintro ⟨k, v, found, rfl⟩
    exact ⟨kept k, v, Graph.mem_build.mp (List.mem_of_getElem? found)⟩
  · rintro ⟨rfl, v, arc⟩
    obtain ⟨k, found⟩ := List.mem_iff_getElem?.mp (Graph.mem_build.mpr arc)
    exact ⟨k, v, found, (kept k).symm⟩

variable {ms : List (Move (Search n σ) (Int × Fin n))}

/-- Between the iterations of a run some vertices are settled. -/
theorem Settled.run (settled : Settled calls reads src S s) (run : Run (Pops add note (Graph.build calls)) s ms t) :
    ∀ m ∈ ms, ∃ T, Settled calls reads src T m.pre := by
  have keeps : ∀ (a : Search n σ) top b, (∃ T, Settled calls reads src T a) → Pops add note (Graph.build calls) a top b →
      ∃ T, Settled calls reads src T b := by
    rintro a top b ⟨T, holds⟩ popped
    obtain ⟨U, after, -⟩ := holds.pop nonneg sums popped
    exact ⟨U, after⟩
  intro m member
  exact ((run.inductive_invariant keeps ⟨S, settled⟩).1 m member).1

end Sums

/-- The sum of a least weight and the weight of an arc that is an `int` is exact. -/
theorem Fits.sums (fits : Fits calls src) (nonneg : ∀ e ∈ calls, 0 ≤ e.w) : SumsExact int_add calls src := by
  intro u v w W arc least
  have small := fits u v w W arc least
  have weight := arc.nonneg nonneg
  obtain ⟨vs, walk⟩ := least.1
  have low := walk.nonneg fun _ _ _ => Arc.nonneg nonneg
  simp only [INT_MAX] at small
  exact cint_of_small (by omega) (by omega)

/-- As long as the sums are `int`s, the search takes the iterations of the search that
    adds exactly. -/
theorem run_exact {ms : List (Move (Search n σ) (Int × Fin n))} (run : Run (Pops (· + ·) note g) s ms t)
    (fit : SumsFit note g s) : Run (Pops int_add note g) s ms t := by
  induction run with
  | nil s => exact .nil s
  | @cons s t u top ms first rest ih =>
    obtain ⟨⟨tail, queue⟩, -⟩ := iterate_eq first
    obtain ⟨t', popped⟩ : ∃ t', Pops int_add note g s top t' := ⟨_, by rw [Pops, iterate, queue]⟩
    have sums := fit _ _ (.single popped) _ List.mem_cons_self
    have exact_pop : Pops (· + ·) note g s top t' := pops_congr popped fun label w sum => (sums label w sum).2
    have same : t = t' := by
      unfold Pops at first exact_pop
      rw [first] at exact_pop
      cases exact_pop
      rfl
    subst same
    refine .cons popped (ih ?_)
    intro ns u' later m member
    exact fit _ _ (.cons popped later) m (List.mem_cons_of_mem _ member)

/-- The search evaluates only `int`s if and only if least weights and weights of arcs
    make only `int`s. -/
theorem search_fits_iff (reads : Reads note) (nonneg : ∀ e ∈ calls, 0 ≤ e.w) (near : Near calls src) (notes : σ)
    (blank : ∀ v, reads.blank notes v) : SumsFit note (Graph.build calls) (start src notes) ↔ Fits calls src := by
  have initial : Settled calls reads src [] (start src notes) := settled_start blank
  constructor
  · intro fit u v w W arc least
    have plain : SumsExact (· + ·) calls src := fun _ _ _ _ _ _ => rfl
    obtain ⟨-, t, ended, -, empty⟩ := search_ends nonneg plain reads blank (Nat.lt_succ_self _)
    obtain ⟨ms, run, -⟩ := run_of_loop ended
    -- the vertex is popped at some time
    obtain ⟨m, member, rfl⟩ : ∃ m ∈ ms, m.act.2 = u := by
      by_contra never
      obtain ⟨T, settled, new⟩ := initial.run_new nonneg plain (by simp) run fun m member same => never ⟨m, member, same⟩
      obtain ⟨vs, walk⟩ := least.1
      exact new (settled.mem_of_reaches nonneg near empty ⟨vs, W, walk⟩)
    have sums := fit ms t (run_exact run fit) m member
    obtain ⟨T, settled⟩ := initial.run nonneg plain run m member
    have popped := run.step_of_mem member
    have label := (settled.pop_least nonneg plain popped).unique least
    have evaluated := (settled.evaluates nonneg plain popped).mpr ⟨label.symm, v, arc⟩
    exact (sums W w ((evaluates_congr fun label w sum => (sums label w sum).2).mp evaluated)).1
  · intro fits ms t run m member label w evaluated
    have sums := fits.sums nonneg
    obtain ⟨T, settled⟩ := initial.run nonneg sums run m member
    have popped := run.step_of_mem member
    obtain ⟨rfl, v, arc⟩ := (settled.evaluates nonneg sums popped).mp evaluated
    have least := settled.pop_least nonneg sums popped
    exact ⟨fits _ v w _ arc least, sums _ v w _ arc least⟩

/-- On a graph whose weights are not negative and whose distances are below `INF`, all
    sums that `ShortPath` and `GetPath` evaluate are `int`s, and so exact, if and only if
    no least weight of a vertex and weight of an arc from it exceed `INT_MAX` together. -/
theorem sums_fit_iff (calls : List (Edge n)) (src : Fin n) (nonneg : ∀ e ∈ calls, 0 ≤ e.w) (near : Near calls src) :
    SumsFit (fun _ _ _ => ()) (Graph.build calls) (start src ()) ∧
      SumsFit set_path (Graph.build calls) (start src fun _ => INF) ↔ Fits calls src := by
  have short := search_fits_iff (unread fun _ _ _ => ()) nonneg near () fun _ => trivial
  have path := search_fits_iff path_reads nonneg near (fun _ => INF) fun _ => rfl
  rw [short, path, and_self]

theorem sums_fit_iff_example : SumsFit (fun _ _ _ => ()) (Graph.build exampleCalls) (start 0 ()) ∧
    SumsFit set_path (Graph.build exampleCalls) (start 0 fun _ => INF) := by
  have nonneg : ∀ e ∈ exampleCalls, 0 ≤ e.w := by decide
  have light : totalWeight exampleCalls < 2 ^ 30 := by decide
  refine (sums_fit_iff exampleCalls 0 nonneg (near_light nonneg light 0)).mpr ?_
  intro u v w W arc least
  have most := least_le_total nonneg least
  have weight := arc.le_total nonneg
  simp only [INT_MAX]
  omega

/-- Two vertices at a distance of more than half of `INT_MAX`. -/
def longEdge : List (Edge 2) := [⟨0,1,1100000000⟩]

theorem longEdge_arc {x y : Fin 2} {w : Int} (arc : Arc longEdge x y w) :
    w = 1100000000 ∧ (x = 0 ∧ y = 1 ∨ x = 1 ∧ y = 0) := by
  obtain ⟨e, member, joins⟩ := arc
  cases List.mem_singleton.mp member
  rcases joins with joins | joins <;> cases joins <;> simp

theorem longEdge_least : IsLeast (weights (Arc longEdge) 0 1) 1100000000 := by
  have walk : Walk (Arc longEdge) 0 ([] ++ [0]) 1 (0 + 1100000000) :=
    .snoc .nil ⟨⟨0, 1, 1100000000⟩, List.mem_singleton_self _, .inl rfl⟩
  rw [zero_add] at walk
  apply isLeast_weights (d := fun x => if x = 0 then 0 else 1100000000) (le_refl _) ?_ walk (le_refl _)
  intro x y w arc
  obtain ⟨rfl, ⟨rfl, rfl⟩ | ⟨rfl, rfl⟩⟩ := longEdge_arc arc <;> decide

theorem longEdge_near : Near longEdge 0 := by
  intro v W least
  have cases : v = 0 ∨ v = 1 := by omega
  rcases cases with rfl | rfl
  · have bound := least.2 ⟨[], .nil⟩
    simp only [INF]
    omega
  · rw [least.unique longEdge_least]
    decide

/-- The arc back to the source makes a sum of more than `INT_MAX`. -/
theorem back_arc_overflows : (∀ e ∈ longEdge, 0 ≤ e.w ∧ e.w < INF) ∧ Near longEdge 0 ∧
    ¬ SumsFit (fun _ _ _ => ()) (Graph.build longEdge) (start 0 ()) ∧
    ¬ SumsFit set_path (Graph.build longEdge) (start 0 fun _ => INF) := by
  have nonneg : ∀ e ∈ longEdge, 0 ≤ e.w := by decide
  have wide : ¬ Fits longEdge 0 := by
    intro fits
    have back : Arc longEdge 1 0 1100000000 := ⟨_, List.mem_singleton_self _, .inr rfl⟩
    exact absurd (fits 1 0 _ _ back longEdge_least) (by decide)
  refine ⟨by decide, longEdge_near, ?_, ?_⟩
  · exact fun fit => wide ((search_fits_iff (unread _) nonneg longEdge_near () fun _ => trivial).mp fit)
  · exact fun fit => wide ((search_fits_iff path_reads nonneg longEdge_near (fun _ => INF) fun _ => rfl).mp fit)

end Canna.Dijkstra
