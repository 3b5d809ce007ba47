import Mathlib.Data.List.Sort
import Canna.Bytes
import Canna.Graph
import Canna.Lts

/-!
# The path search

`Dijkstra::ShortPath` and `GetPath`. Both run the same loop: it pops the least pair of
a label and a vertex, relaxes the edges of the vertex with the vertex's label now, and
pushes a pair for each label improved, leaving older pairs in the queue. `GetPath`
also notes the predecessor at each improvement, and then follows the predecessors
from the destination. The loop is given the addition it computes with, and what it
notes. Enough fuel ends it.
-/
namespace Canna.Dijkstra

/-- The label of a vertex not reached. -/
def INF : Int := 2016062613

/-- The order of pairs. -/
def pair_le {n : Nat} (p q : Int × Fin n) : Prop := p.1 < q.1 ∨ p.1 = q.1 ∧ p.2 ≤ q.2

instance {n : Nat} : DecidableRel (pair_le : Int × Fin n → Int × Fin n → Prop) := fun p q =>
  inferInstanceAs (Decidable (p.1 < q.1 ∨ p.1 = q.1 ∧ p.2 ≤ q.2))

instance {n : Nat} : Std.Total (pair_le : Int × Fin n → Int × Fin n → Prop) where
  total p q := by
    unfold pair_le
    omega

instance {n : Nat} : IsTrans (Int × Fin n) pair_le where
  trans p q r first second := by
    unfold pair_le at *
    omega

/-- The variables of the loop: the queue of pairs, least first, the labels, and what
    is noted at improvements. -/
structure Search (n : Nat) (σ : Type*) where
  prio_queue : List (Int × Fin n)
  dist : Fin n → Int
  notes : σ

section Loop
variable {n : Nat} {σ : Type*}

/-- The variables before the loop. -/
def start (src : Fin n) (notes : σ) : Search n σ := ⟨[(0,src)],Function.update (fun _ => INF) src 0,notes⟩

variable (add : Int → Int → Int) (note : σ → Fin n → Fin n → σ)

/-- A better label for a vertex, found from a neighbour. -/
def improve (s : Search n σ) (v u : Fin n) (sum : Int) : Search n σ where
  dist := Function.update s.dist v sum
  notes := note s.notes v u
  prio_queue := s.prio_queue.orderedInsert pair_le (sum,v)

/-- The body of the inner loop, for an edge of the vertex popped. -/
def relax (u : Fin n) (s : Search n σ) (edge : Fin n × Int) : Search n σ :=
  if s.dist edge.1 > add (s.dist u) edge.2 then improve note s edge.1 u (add (s.dist u) edge.2) else s

/-- The inner loop. -/
def scan (u : Fin n) (s : Search n σ) (edges : List (Fin n × Int)) : Search n σ := edges.foldl (relax add note u) s

/-- One iteration of the loop and the pair it pops, none where the queue is empty. -/
def iterate (g : Graph n) (s : Search n σ) : Option ((Int × Fin n) × Search n σ) :=
  match s.prio_queue with
  | [] => none
  | top :: rest => some (top,scan add note top.2 { s with prio_queue := rest } (g.m_edges top.2))

def loop (g : Graph n) : Nat → Search n σ → Option (Search n σ)
  | 0, _ => none
  | fuel + 1, s =>
    match iterate add note g s with
    | none => some s
    | some (_,t) => loop g fuel t

/-- The iteration pops the pair and leads from the first state to the second. -/
def Pops (g : Graph n) (s : Search n σ) (top : Int × Fin n) (t : Search n σ) : Prop :=
  iterate add note g s = some (top,t)

/-- The places, in the list of the vertex, of the edges at which the inner loop pushes
    a pair, from a place on. -/
def pushes (u : Fin n) : Search n σ → List (Fin n × Int) → Nat → List (Fin n × Nat)
  | _, [], _ => []
  | s, edge :: edges, place =>
    if s.dist edge.1 > add (s.dist u) edge.2 then
      (u,place) :: pushes u (relax add note u s edge) edges (place + 1)
    else pushes u (relax add note u s edge) edges (place + 1)

end Loop

variable {n : Nat}

/-- The sum of two `int`s. -/
def int_add (a b : Int) : Int := cint (a + b)

/-- The distances that `ShortPath` prints. -/
def ShortPath (fuel : Nat) (g : Graph n) (src : Fin n) : Option (Fin n → Int) :=
  (loop int_add (fun _ _ _ => ()) g fuel (start src ())).map Search.dist

/-- The vertex an `int` is the number of. -/
def vertex? (i : Int) : Option (Fin n) := if h : 0 ≤ i ∧ i.toNat < n then some ⟨i.toNat,h.2⟩ else none

/-- Pushes the predecessors from a vertex on; the stack has its top first. A
    predecessor that is no vertex would be read outside the array. -/
def push_path (path : Fin n → Int) : Nat → Fin n → List Int → Option (List Int)
  | 0, _, _ => none
  | fuel + 1, index, result =>
    if path index = INF then some result
    else
      match vertex? (path index) with
      | none => none
      | some next => push_path path fuel next (path index :: result)

/-- The assignment `path[v] = u`. -/
def set_path (path : Fin n → Int) (v u : Fin n) : Fin n → Int := Function.update path v u

/-- The distances that `GetPath` prints, and the path, popped from the stack. -/
def GetPath (fuel : Nat) (g : Graph n) (src des : Fin n) : Option ((Fin n → Int) × List Int) :=
  match loop int_add set_path g fuel (start src fun _ => INF) with
  | none => none
  | some s => (push_path s.notes fuel des []).map fun result => (s.dist,result)

end Canna.Dijkstra
