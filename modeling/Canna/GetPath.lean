import Canna.ShortPath

/-!
# The path printed

`GetPath` notes predecessors in `path`, with `INF` where there is none. In a graph with
no more vertices than `INF` the two cannot be confused, and the predecessors from the
destination lead back to the source over settled vertices, each settled before the
one it precedes (`GetPath_correct`).
-/
namespace Canna.Dijkstra
variable {n : Nat} {calls : List (Edge n)} {src : Fin n} {s : Search n (Fin n → Int)}

/-- The predecessors in `path`. -/
def path_reads : Reads (set_path (n := n)) where
  names path v u := path v = u
  blank path v := path v = INF
  names_self _ _ _ := Function.update_self ..
  names_other _ _ _ _ _ other named := (Function.update_of_ne other ..).trans named
  blank_other _ _ _ _ other empty := (Function.update_of_ne other ..).trans empty

/-- The numbers of vertices. -/
def numbers (vs : List (Fin n)) : List Int := vs.map fun u => (u.val : Int)

theorem vertex_number (u : Fin n) : vertex? (u.val : Int) = some u := by
  simp [vertex?]

theorem push_path_blank {path : Fin n → Int} {v : Fin n} (empty : path v = INF) {fuel : Nat} (enough : 0 < fuel)
    (result : List Int) : push_path path fuel v result = some result := by
  obtain ⟨fuel, rfl⟩ := Nat.exists_eq_add_one_of_ne_zero (Nat.ne_of_gt enough)
  unfold push_path
  rw [if_pos empty]

/-- The predecessors of a vertex are pushed, the last of them on top. -/
theorem push_path_trail (few : (n : Int) ≤ INF) {path : Fin n → Int} {vs : List (Fin n)} {v : Fin n}
    (trail : Trail path_reads path vs v) {fuel : Nat} (enough : vs.length < fuel) (result : List Int) :
    push_path path fuel v result = some (numbers vs ++ result) := by
  induction trail generalizing fuel result with
  | source empty => exact push_path_blank empty enough result
  | @step vs u v trail named ih =>
    rw [List.length_append, List.length_singleton] at enough
    obtain ⟨fuel, rfl⟩ := Nat.exists_eq_add_one_of_ne_zero (by omega : fuel ≠ 0)
    have number : path v = u.val := named
    -- a vertex is not taken for the sentinel
    have noted : path v ≠ INF := by
      have inside := u.isLt
      rw [number]
      omega
    unfold push_path
    rw [if_neg noted, number, vertex_number]
    simp only [ih (by omega : vs.length < fuel), numbers, List.map_append, List.map_cons, List.map_nil,
      List.append_assoc, List.singleton_append]

/-- The predecessor walk from the destination ends. Nothing is printed where the
    destination is the source or not reachable; otherwise the vertices printed, followed
    by the destination, are a walk from the source that repeats no vertex, of the weight
    `dist[des]`. -/
theorem GetPath_correct (few : (n : Int) ≤ INF) (calls : List (Edge n)) (nonneg : ∀ e ∈ calls, 0 ≤ e.w)
    (light : totalWeight calls < 2 ^ 30) (src des : Fin n) (fuel : Nat) (enough : 2 * calls.length + 1 < fuel)
    (longer : n ≤ fuel) :
    ∃ dist printed, GetPath fuel (Graph.build calls) src des = some (dist,printed) ∧
      (Reaches (Arc calls) src des → des ≠ src → ∃ vs, printed = numbers vs ∧
        Walk (Arc calls) src vs des (dist des) ∧ (vs ++ [des]).Nodup) ∧
      (des = src ∨ ¬ Reaches (Arc calls) src des → printed = []) := by
  have blank : ∀ v : Fin n, path_reads.blank (fun _ => INF) v := fun _ => rfl
  have near := near_light nonneg light src
  obtain ⟨S, t, ended, settled, empty⟩ := search_ends nonneg (sums_light nonneg light src) path_reads blank enough
  have unreached := (settled.distances nonneg near empty des).2
  by_cases nothing : des = src ∨ ¬ Reaches (Arc calls) src des
  · have last : t.notes des = INF := by
      rcases nothing with rfl | unreachable
      · exact settled.origin
      · exact settled.blank des (unreached.mpr unreachable)
    refine ⟨t.dist, [], ?_, ?_, fun _ => rfl⟩
    · simp only [GetPath, ended, push_path_blank last (by omega : 0 < fuel), Option.map_some]
    · intro reaches other
      rcases nothing with same | unreachable
      · exact absurd same other
      · exact absurd reaches unreachable
  · rw [not_or, not_not] at nothing
    have finite : t.dist des ≠ INF := by
      intro infinite
      exact unreached.mp infinite nothing.2
    obtain ⟨vs, walk, trail, once, -⟩ := rooted_walk settled.source settled.nodup settled.rooted des
      ((settled.mem_iff nonneg near empty des).mpr finite)
    have short : vs.length < n := by
      have most := once.length_le_card
      rw [List.length_append, List.length_singleton, Fintype.card_fin] at most
      omega
    have pushed := push_path_trail few trail (by omega : vs.length < fuel) []
    rw [List.append_nil] at pushed
    refine ⟨t.dist, numbers vs, ?_, fun _ _ => ⟨vs, rfl, walk, once⟩, ?_⟩
    · simp only [GetPath, ended, pushed, Option.map_some]
    · rintro (same | unreachable)
      · exact absurd same nothing.1
      · exact absurd nothing.2 unreachable

theorem GetPath_correct_example : (∀ e ∈ exampleCalls, 0 ≤ e.w) ∧ totalWeight exampleCalls < 2 ^ 30 ∧
    ∃ dist printed, GetPath 30 (Graph.build exampleCalls) 7 2 = some (dist,printed) ∧
      (Reaches (Arc exampleCalls) 7 2 → (2 : Fin 9) ≠ 7 → ∃ vs, printed = numbers vs ∧
        Walk (Arc exampleCalls) 7 vs 2 (dist 2) ∧ (vs ++ [2]).Nodup) ∧
      ((2 : Fin 9) = 7 ∨ ¬ Reaches (Arc exampleCalls) 7 2 → printed = []) := by
  have nonneg : ∀ e ∈ exampleCalls, 0 ≤ e.w := by decide
  have light : totalWeight exampleCalls < 2 ^ 30 := by decide
  exact ⟨nonneg, light, GetPath_correct (by decide) exampleCalls nonneg light 7 2 30 (by decide) (by decide)⟩

end Canna.Dijkstra
