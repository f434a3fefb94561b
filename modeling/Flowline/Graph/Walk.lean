import Flowline.Graph.Basic

/-! The path of a run through a graph: from the first start node along the first edge that leaves
each node, until a node has none, the edge points nowhere, or a node would come twice. Each step
takes a node that has not been visited, of which there is one less afterwards. -/

namespace Flowline.Graph

/-- The node behind the first edge that leaves `v`. -/
def next? (g : Graph) (v : Vertex) : Option Vertex :=
  (g.outgoing v.id).head?.bind fun e => g.vertex? e.target

theorem mem_of_next? {g : Graph} {v w : Vertex} (h : g.next? v = some w) : w ∈ g.vertices := by
  obtain ⟨e, _, he⟩ := Option.bind_eq_some_iff.1 h
  exact mem_of_vertex? he

def unvisited (g : Graph) (visited : List String) : List Vertex :=
  g.vertices.filter fun v => v.id ∉ visited

theorem length_unvisited_cons {g : Graph} {visited : List String} {v : Vertex}
    (hv : v ∈ g.vertices) (h : v.id ∉ visited) :
    (g.unvisited (v.id :: visited)).length < (g.unvisited visited).length := by
  have hs : g.unvisited (v.id :: visited)
      = (g.unvisited visited).filter fun w => w.id ≠ v.id := by
    simp only [unvisited, List.filter_filter]
    refine List.filter_congr fun w _ => ?_
    by_cases hw : w.id = v.id <;> simp [hw]
  rw [hs]
  refine List.length_filter_lt_length_iff_exists.2 ⟨v, ?_, by simp⟩
  simp [unvisited, hv, h]

/-- The path from `v` on, past the nodes visited already. -/
def pathFrom (g : Graph) (visited : List String) (v : Vertex) (_hv : v ∈ g.vertices) :
    List Vertex :=
  if _h : v.id ∈ visited then []
  else
    match hn : g.next? v with
    | none => [v]
    | some w => v :: pathFrom g (v.id :: visited) w (mem_of_next? hn)
termination_by (g.unvisited visited).length
decreasing_by exact length_unvisited_cons _hv _h

def path (g : Graph) : Except Failure (List Vertex) :=
  match h : g.start? with
  | none => .error .noStart
  | some v => .ok (pathFrom g [] v (mem_of_start? h))

theorem path_eq_error_iff {g : Graph} {f : Failure} :
    g.path = .error f ↔ f = .noStart ∧ ∀ v ∈ g.vertices, v.kind? ≠ some .start := by
  unfold path
  split
  · rename_i h
    have hn : ∀ v ∈ g.vertices, v.kind? ≠ some .start := by
      simpa [start?, List.find?_eq_none] using h
    simp only [Except.error.injEq]
    exact ⟨fun e => ⟨e.symm, hn⟩, fun e => e.1.symm⟩
  · rename_i v h
    have hv := List.find?_some h
    simp only [reduceCtorEq, false_iff, not_and]
    exact fun _ hn => hn v (mem_of_start? h) (by simpa using hv)

end Flowline.Graph
