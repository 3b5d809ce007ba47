import Canna.LabelSetting

/-!
# Negative weights

The search in exact arithmetic, on any graph of calls. An edge is an arc both ways, so
that one of negative weight is a cycle of negative weight: once an end of it has a label,
the two ends improve each other's labels for ever. Without such an edge at the vertices
that get labels, each push is paid for by a label that goes down. So the loop ends if
and only if there is none (`loops_end_iff`).
-/
namespace Canna.Dijkstra
variable {n : Nat} {σ : Type*} {note : σ → Fin n → Fin n → σ} {calls : List (Edge n)} {src : Fin n} {s t : Search n σ}

/-- The loop ends, in exact arithmetic. -/
def Ends (note : σ → Fin n → Fin n → σ) (g : Graph n) (s : Search n σ) : Prop :=
  ∃ fuel t, loop (· + ·) note g fuel s = some t

/-- No arc of negative weight leaves a vertex to which a walk leads from the source that
    weighs less than `INF` all the way. -/
def Benign (calls : List (Edge n)) (src : Fin n) : Prop :=
  ∀ u W v w, Within (Arc calls) INF src u W → Arc calls u v w → 0 ≤ w

/-! ### Without negative weights -/

/-- Labels are the weights of walks within `INF`, and only labelled vertices are queued. -/
structure Labelled (calls : List (Edge n)) (src : Fin n) (s : Search n σ) : Prop where
  le_INF : ∀ v, s.dist v ≤ INF
  within : ∀ v, s.dist v ≠ INF → Within (Arc calls) INF src v (s.dist v)
  entries : ∀ p ∈ s.prio_queue, s.dist p.2 ≠ INF

/-- The pairs queued and the labels, which may still go down. -/
def potential (s : Search n σ) : Nat := s.prio_queue.length + ∑ v, (s.dist v).toNat

theorem labelled_start (calls : List (Edge n)) (src : Fin n) (notes : σ) : Labelled calls src (start src notes) where
  le_INF v := by
    by_cases same : v = src
    · rw [same, start_dist_self]
      decide
    · rw [start_dist_ne same]
  within v reached := by
    by_cases same : v = src
    · rw [same, start_dist_self]
      exact .start (by decide)
    · exact absurd (start_dist_ne same notes) reached
  entries p member := by
    cases List.mem_singleton.mp member
    rw [start_dist_self]
    decide

theorem Labelled.unqueue (labelled : Labelled calls src s) : Labelled calls src s.unqueue :=
  ⟨labelled.le_INF, labelled.within, fun p member => labelled.entries p (mem_unqueue member)⟩

theorem Labelled.nonneg (benign : Benign calls src) (labelled : Labelled calls src s) (v : Fin n) : 0 ≤ s.dist v := by
  by_cases reached : s.dist v = INF
  · rw [reached]
    decide
  · exact (labelled.within v reached).nonneg benign

theorem Labelled.improve {u v : Fin n} {w : Int} (labelled : Labelled calls src s) (fromLabel : s.dist u ≠ INF)
    (arc : Arc calls u v w) (better : s.dist u + w < s.dist v) :
    Labelled calls src (improve note s v u (s.dist u + w)) := by
  have below : s.dist u + w < INF := better.trans_le (labelled.le_INF v)
  constructor
  · exact improve_forall (fun _ label => label ≤ INF) below.le fun x _ => labelled.le_INF x
  · apply improve_forall fun x label => label ≠ INF → Within (Arc calls) INF src x label
    · intro _
      exact (labelled.within u fromLabel).step arc below
    · intro x _
      exact labelled.within x
  · intro p member
    by_cases same : p.2 = v
    · rw [same, improve_dist_self]
      exact below.ne
    · rw [improve_dist_ne same]
      rcases mem_improve_queue.mp member with rfl | old
      · exact absurd rfl same
      · exact labelled.entries p old

/-- A label that goes down makes up for the pair pushed. -/
theorem potential_improve {u v : Fin n} {sum : Int} (nonneg : 0 ≤ sum) (better : sum < s.dist v) :
    potential (improve note s v u sum) ≤ potential s := by
  have longer : (improve note s v u sum).prio_queue.length = s.prio_queue.length + 1 := List.orderedInsert_length ..
  have less : ∑ x, ((improve note s v u sum).dist x).toNat < ∑ x, (s.dist x).toNat := by
    apply Finset.sum_lt_sum
    · intro x _
      exact Int.toNat_le_toNat (improve_dist_le better x)
    · refine ⟨v, Finset.mem_univ v, ?_⟩
      rw [improve_dist_self]
      omega
  unfold potential
  omega

theorem Labelled.relax (note : σ → Fin n → Fin n → σ) {u : Fin n} {e : Fin n × Int} (benign : Benign calls src)
    (labelled : Labelled calls src s) (fromLabel : s.dist u ≠ INF) (arc : Arc calls u e.1 e.2) :
    Labelled calls src (relax (· + ·) note u s e) ∧ (relax (· + ·) note u s e).dist u ≠ INF ∧
      potential (relax (· + ·) note u s e) ≤ potential s := by
  unfold Dijkstra.relax
  by_cases better : s.dist e.1 > s.dist u + e.2
  · have low := labelled.nonneg benign u
    have weight := benign u (s.dist u) e.1 e.2 (labelled.within u fromLabel) arc
    have below : s.dist u + e.2 < INF := better.trans_le (labelled.le_INF e.1)
    rw [if_pos better]
    refine ⟨labelled.improve fromLabel arc better, ?_, potential_improve (add_nonneg low weight) better⟩
    by_cases same : u = e.1
    · rw [← same, improve_dist_self]
      exact below.ne
    · rwa [improve_dist_ne same]
  · rw [if_neg better]
    exact ⟨labelled, fromLabel, le_refl _⟩

theorem Labelled.scan (note : σ → Fin n → Fin n → σ) {u : Fin n} {edges : List (Fin n × Int)}
    (benign : Benign calls src) (labelled : Labelled calls src s) (fromLabel : s.dist u ≠ INF)
    (arcs : ∀ e ∈ edges, Arc calls u e.1 e.2) :
    Labelled calls src (scan (· + ·) note u s edges) ∧ potential (scan (· + ·) note u s edges) ≤ potential s := by
  induction edges generalizing s with
  | nil => exact ⟨labelled, le_refl _⟩
  | cons e edges ih =>
    obtain ⟨here, rest⟩ := List.forall_mem_cons.mp arcs
    obtain ⟨next, still, paid⟩ := labelled.relax note benign fromLabel here
    obtain ⟨last, more⟩ := ih next still rest
    exact ⟨last, more.trans paid⟩

/-- An iteration takes a pair from the queue and pushes none that is not paid for. -/
theorem Labelled.pop {top : Int × Fin n} (benign : Benign calls src) (labelled : Labelled calls src s)
    (popped : Pops (· + ·) note (Graph.build calls) s top t) : Labelled calls src t ∧ potential t < potential s := by
  obtain ⟨⟨rest, queue⟩, rfl⟩ := iterate_eq popped
  have fromLabel := labelled.entries top (by simp [queue])
  obtain ⟨after, paid⟩ := labelled.unqueue.scan note benign fromLabel fun e => Graph.mem_build.mp
  have fewer : potential s.unqueue < potential s := by
    simp [potential, Search.unqueue, queue]
  exact ⟨after, paid.trans_lt fewer⟩

theorem Labelled.ends (benign : Benign calls src) (labelled : Labelled calls src s) :
    Ends note (Graph.build calls) s := by
  induction measured : potential s using Nat.strong_induction_on generalizing s with
  | _ m ih =>
    cases popped : iterate (· + ·) note (Graph.build calls) s with
    | none => exact ⟨1, s, by simp only [loop, popped]⟩
    | some entry =>
      obtain ⟨top, next⟩ := entry
      obtain ⟨after, less⟩ := labelled.pop benign popped
      obtain ⟨fuel, last, ended⟩ := ih (potential next) (measured ▸ less) after rfl
      exact ⟨fuel + 1, last, by simp only [loop, popped, ended]⟩

/-! ### Once the loop has ended -/

/-- A pair of the vertex is in the queue. -/
def Queued (s : Search n σ) (v : Fin n) : Prop := ∃ p ∈ s.prio_queue, p.2 = v

/-- The second label follows from the first, or its vertex is still queued. -/
def Attended (s : Search n σ) (v y : Fin n) (w : Int) : Prop := Queued s v ∨ s.dist y ≤ s.dist v + w

/-- Labels only go down, and the vertices of those that do are queued. -/
structure Lowers (s t : Search n σ) : Prop where
  lower : ∀ x, t.dist x ≤ s.dist x
  queued : ∀ x, Queued s x → Queued t x
  changed : ∀ x, t.dist x ≠ s.dist x → Queued t x

theorem Lowers.refl (s : Search n σ) : Lowers s s := ⟨fun _ => le_refl _, fun _ queued => queued, fun _ => absurd rfl⟩

theorem Lowers.trans {u : Search n σ} (left : Lowers s t) (right : Lowers t u) : Lowers s u where
  lower x := (right.lower x).trans (left.lower x)
  queued x queued := right.queued x (left.queued x queued)
  changed x differs := by
    by_cases same : u.dist x = t.dist x
    · rw [same] at differs
      exact right.queued x (left.changed x differs)
    · exact right.changed x same

theorem Lowers.attended {v y : Fin n} {w : Int} (lowers : Lowers s t) (attended : Attended s v y w) : Attended t v y w := by
  rcases attended with queued | slack
  · exact .inl (lowers.queued v queued)
  · by_cases same : t.dist v = s.dist v
    · have lower := lowers.lower y
      exact .inr (by omega)
    · exact .inl (lowers.changed v same)

/-- An edge relaxed is attended to. -/
theorem relax_lowers (note : σ → Fin n → Fin n → σ) (s : Search n σ) (u : Fin n) (e : Fin n × Int) :
    Lowers s (relax (· + ·) note u s e) ∧ Attended (relax (· + ·) note u s e) u e.1 e.2 := by
  unfold relax
  by_cases better : s.dist e.1 > s.dist u + e.2
  · have pushed : Queued (improve note s e.1 u (s.dist u + e.2)) e.1 := ⟨_, mem_improve_queue.mpr (.inl rfl), rfl⟩
    rw [if_pos better]
    refine ⟨⟨improve_dist_le better, ?_, ?_⟩, ?_⟩
    · rintro x ⟨p, member, vertex⟩
      exact ⟨p, mem_improve_queue.mpr (.inr member), vertex⟩
    · intro x differs
      by_cases same : x = e.1
      · rw [same]
        exact pushed
      · exact absurd (improve_dist_ne same ..) differs
    · by_cases same : u = e.1
      · rw [same] at pushed ⊢
        exact .inl pushed
      · right
        rw [improve_dist_self, improve_dist_ne same]
  · rw [if_neg better]
    exact ⟨Lowers.refl s, .inr (by omega)⟩

theorem scan_lowers (note : σ → Fin n → Fin n → σ) (s : Search n σ) (u : Fin n) (edges : List (Fin n × Int)) :
    Lowers s (scan (· + ·) note u s edges) ∧ ∀ e ∈ edges, Attended (scan (· + ·) note u s edges) u e.1 e.2 := by
  induction edges generalizing s with
  | nil => exact ⟨Lowers.refl s, by simp⟩
  | cons e edges ih =>
    obtain ⟨first, here⟩ := relax_lowers note s u e
    obtain ⟨rest, later⟩ := ih (relax (· + ·) note u s e)
    exact ⟨first.trans rest, List.forall_mem_cons.mpr ⟨rest.attended here, later⟩⟩

/-- The arcs of labelled vertices are attended to. -/
structure Tended (calls : List (Edge n)) (src : Fin n) (s : Search n σ) : Prop where
  source : s.dist src ≤ 0
  arcs : ∀ v y w, Arc calls v y w → s.dist v ≠ INF → Attended s v y w

theorem tended_start (calls : List (Edge n)) (src : Fin n) (notes : σ) : Tended calls src (start src notes) where
  source := (start_dist_self src notes).le
  arcs v y w arc reached := by
    by_cases same : v = src
    · exact .inl ⟨(0,src), List.mem_singleton_self _, same.symm⟩
    · exact absurd (start_dist_ne same notes) reached

theorem Tended.pop {top : Int × Fin n} (tended : Tended calls src s)
    (popped : Pops (· + ·) note (Graph.build calls) s top t) : Tended calls src t := by
  obtain ⟨⟨rest, queue⟩, rfl⟩ := iterate_eq popped
  obtain ⟨lowers, scanned⟩ := scan_lowers note s.unqueue top.2 ((Graph.build calls).m_edges top.2)
  refine ⟨(lowers.lower src).trans tended.source, ?_⟩
  intro v y w arc reached
  by_cases isTop : v = top.2
  · subst isTop
    exact scanned (y,w) (Graph.mem_build.mpr arc)
  by_cases same : (scan (· + ·) note top.2 s.unqueue ((Graph.build calls).m_edges top.2)).dist v = s.unqueue.dist v
  · rw [same] at reached
    refine lowers.attended ?_
    rcases tended.arcs v y w arc reached with ⟨p, member, rfl⟩ | slack
    · exact .inl ⟨p, mem_unqueue_of_ne queue isTop member, rfl⟩
    · exact .inr slack
  · exact .inl (lowers.changed v same)

theorem Tended.loop {fuel : Nat} (tended : Tended calls src s)
    (ended : loop (· + ·) note (Graph.build calls) fuel s = some t) : Tended calls src t ∧ t.prio_queue = [] := by
  obtain ⟨ms, run, empty⟩ := run_of_loop ended
  exact ⟨(run.inductive_invariant (fun _ _ _ holds popped => holds.pop popped) tended).2, empty⟩

/-- With nothing queued, no arc improves a label. -/
theorem Tended.benign (tended : Tended calls src s) (empty : s.prio_queue = []) : Benign calls src := by
  have relaxed : ∀ x y w, s.dist x < INF → Arc calls x y w → s.dist y ≤ s.dist x + w := by
    intro x y w reached arc
    rcases tended.arcs x y w arc reached.ne with ⟨p, member, -⟩ | slack
    · simp [empty] at member
    · exact slack
  intro u W v w within arc
  by_contra negative
  have first := (within.bounded tended.source relaxed).trans_lt within.lt_bound
  have there := relaxed u v w first arc
  have back := relaxed v u w (by omega) arc.symm
  omega

theorem ends_iff (calls : List (Edge n)) (src : Fin n) (note : σ → Fin n → Fin n → σ) (notes : σ) :
    Ends note (Graph.build calls) (start src notes) ↔ Benign calls src := by
  constructor
  · rintro ⟨fuel, t, ended⟩
    obtain ⟨tended, empty⟩ := (tended_start calls src notes).loop ended
    exact tended.benign empty
  · intro benign
    exact (labelled_start calls src notes).ends benign

/-- Each of the loops of `ShortPath` and `GetPath` ends if and only if no edge of negative
    weight is at a vertex that a walk from the source leads to below `INF`. -/
theorem loops_end_iff (calls : List (Edge n)) (src : Fin n) :
    (Ends (fun _ _ _ => ()) (Graph.build calls) (start src ()) ↔ Benign calls src) ∧
      (Ends set_path (Graph.build calls) (start src fun _ => INF) ↔ Benign calls src) :=
  ⟨ends_iff calls src _ (), ends_iff calls src _ _⟩

/-- Two vertices joined by an edge of weight -1 improve each other for ever. -/
theorem loops_diverge : ¬ ∀ (n : Nat) (calls : List (Edge n)) (src : Fin n),
    Ends (fun _ _ _ => ()) (Graph.build calls) (start src ()) ∧
      Ends set_path (Graph.build calls) (start src fun _ => INF) := by
  intro ends
  have benign := (ends_iff [⟨0,1,-1⟩] 0 (fun _ _ _ => ()) ()).mp (ends 2 [⟨0,1,-1⟩] 0).1
  have weight := benign 0 0 1 (-1) (.start (by decide)) ⟨_, List.mem_singleton_self _, .inl rfl⟩
  omega

end Canna.Dijkstra
