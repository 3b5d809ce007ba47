import Canna.Names

/-!
# The name server

`name_server::server_loop`: each request names a group; the loop allots a name to
the group, replies the group's list and publishes the allotted name. A client that
requests a group and subscribes to the names published relies on the two agreeing
(`Agrees`, `Followed`). They do as long as no group is requested more often than it
has serials (`server_loop_agrees_iff`): the loop does not look at what
`allotnamepair` returns, and publishes the empty name of an exhausted group.
-/
namespace Canna.NameServer
open Canna.Names

/-- One round of the loop: the request received, the list replied and the name
    published. -/
structure Exchange where
  group : Text
  namelist : List Text
  name : Text

/-- The body of the loop for one request. -/
def serve (namectrl : NameCtrl) (group : Text) : Option (Exchange × NameCtrl) :=
  (allotnamepair namectrl group).map fun (name, after) =>
    ({ group := group, namelist := getnamelist after group, name := name }, after)

/-- The loop over the requests received. -/
def server_loop (namectrl : NameCtrl) : List Text → Option (List Exchange × NameCtrl)
  | [] => some ([], namectrl)
  | group :: groups => (serve namectrl group).bind fun (exchange, next) =>
      (server_loop next groups).map fun (exchanges, after) => (exchange :: exchanges, after)

/-- Every list replied is the list replied before for its group, with exactly the
    published name appended. `last` gives the lists replied before. -/
def Agrees (last : Text → List Text) : List Exchange → Prop
  | [] => True
  | x :: xs => x.namelist = last x.group ++ [x.name] ∧ Agrees (Function.update last x.group x.namelist) xs

/-- A subscriber that holds a list of the group, and adds every name published for
    a request of the group, holds the list that each such request is replied. -/
def Followed (g : Text) (list : List Text) : List Exchange → Prop
  | [] => True
  | x :: xs =>
    if x.group = g then x.namelist = list ++ [x.name] ∧ Followed g (list ++ [x.name]) xs
    else Followed g list xs

/-- What clients rely on: replies and publications agree from the start, and a
    subscriber can follow its group from any reply on. -/
def Consistent (xs : List Exchange) : Prop :=
  Agrees (fun _ => []) xs ∧ ∀ front x back, xs = front ++ x :: back → Followed x.group x.namelist back

theorem followed_of_agrees {last : Text → List Text} {xs : List Exchange} (agrees : Agrees last xs) (g : Text) :
    Followed g (last g) xs := by
  induction xs generalizing last with
  | nil => trivial
  | cons x xs ih =>
    obtain ⟨reply, rest⟩ := agrees
    have later := ih rest
    by_cases same : x.group = g
    · subst same
      rw [Function.update_self, reply] at later
      simp only [Followed, if_true]
      exact ⟨reply, later⟩
    · rw [Function.update_of_ne (Ne.symm same)] at later
      simpa only [Followed, if_neg same] using later

theorem agrees_back {last : Text → List Text} {front back : List Exchange} {x : Exchange}
    (agrees : Agrees last (front ++ x :: back)) :
    ∃ last', last' x.group = x.namelist ∧ Agrees last' back := by
  induction front generalizing last with
  | nil => exact ⟨_, Function.update_self .., agrees.2⟩
  | cons y front ih => exact ih agrees.2

/-- Agreement is all a subscriber needs. -/
theorem consistent_iff (xs : List Exchange) : Consistent xs ↔ Agrees (fun _ => []) xs := by
  constructor
  · exact fun consistent => consistent.1
  · intro agrees
    refine ⟨agrees, ?_⟩
    rintro front x back rfl
    obtain ⟨last, held, later⟩ := agrees_back agrees
    rw [← held]
    exact followed_of_agrees later x.group

/-- The loop always answers; from the state where the groups have received their
    names, its exchanges agree exactly when no group is asked beyond its serials. -/
theorem server_loop_holds {c : NameCtrl} {received : Text → Nat} (holds : Holds c received) (groups : List Text) :
    ∃ xs after, server_loop c groups = some (xs, after) ∧ xs.map Exchange.group = groups ∧
      (Agrees (fun g => issued g (received g)) xs ↔ ∀ g, received g + groups.count g ≤ SERIAL_SIZE) := by
  induction groups generalizing c received with
  | nil => exact ⟨[], c, rfl, rfl, by simpa [Agrees] using holds.bound⟩
  | cons g groups ih =>
    obtain ⟨next, allotted, granted⟩ := allotnamepair_holds holds g
    obtain ⟨xs, after, looped, requests, agrees⟩ := ih granted
    have listed := getnamelist_holds granted g
    refine ⟨⟨g, issued g (grant received g g), answer g (received g)⟩ :: xs, after,
      by simp [server_loop, serve, allotted, looped, listed], by simp [requests], ?_⟩
    have updated : Function.update (fun h => issued h (received h)) g (issued g (grant received g g)) =
        fun h => issued h (grant received g h) := by
      funext h
      by_cases same : h = g
      · subst same; simp
      · simp [Function.update_of_ne same, grant]
    simp only [Agrees, updated, agrees]
    by_cases small : received g < SERIAL_SIZE
    · have more : grant received g g = received g + 1 := by
        simp only [grant, Function.update_self]; omega
      have appended : issued g (grant received g g) = issued g (received g) ++ [answer g (received g)] := by
        rw [more, issued_succ, answer, if_pos small]
      simp only [appended, true_and]
      apply forall_congr'
      intro h
      by_cases same : h = g
      · subst same
        rw [more, List.count_cons_self]
        omega
      · have other : grant received g h = received h := Function.update_of_ne same _ _
        rw [other, List.count_cons_of_ne (Ne.symm same)]
    · -- an exhausted group: the list stays as it is and the empty name is published
      have full := grant_full holds (g := g) (by omega)
      constructor
      · rintro ⟨reply, _⟩
        have lengths := congrArg List.length reply
        rw [full, List.length_append, issued_length, List.length_singleton] at lengths
        omega
      · intro enough
        have most := enough g
        rw [List.count_cons_self] at most
        omega

/-- Replies and publications agree if and only if no group is requested more than
    256 times. -/
theorem server_loop_agrees_iff (groups : List Text) :
    ∃ xs after, server_loop .fresh groups = some (xs, after) ∧ xs.map Exchange.group = groups ∧
      (Consistent xs ↔ ∀ g, groups.count g ≤ 256) := by
  obtain ⟨xs, after, looped, requests, agrees⟩ := server_loop_holds holds_fresh groups
  refine ⟨xs, after, looped, requests, ?_⟩
  rw [consistent_iff]
  simpa [issued, SERIAL_SIZE] using agrees

/-- The group of the test client, `cluster`. -/
def cluster : Text := [99,108,117,115,116,101,114]

/-- The 257th request for one group is replied the old list and publishes the
    empty name. -/
theorem server_loop_exhausted :
    ¬ ∃ xs after, server_loop .fresh (List.replicate 257 cluster) = some (xs, after) ∧ Consistent xs := by
  rintro ⟨xs, after, looped, consistent⟩
  obtain ⟨xs', after', looped', _, agrees⟩ := server_loop_holds holds_fresh (List.replicate 257 cluster)
  obtain ⟨rfl, rfl⟩ : xs = xs' ∧ after = after' := by simpa using looped.symm.trans looped'
  have enough := agrees.mp (by simpa [issued] using consistent.1) cluster
  rw [List.count_replicate_self] at enough
  exact absurd enough (by decide)

end Canna.NameServer
