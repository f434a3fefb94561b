import Flowline.Graph.Walk

/-! # The index of an accepted document

A document is checked node by node: each one is appended to a list and entered
into an index under its id, unless the index knows the id already. List and index
grow in step, so in an accepted graph a lookup through the index finds exactly the
node of the document that has the id. -/

namespace Flowline

/-- What succeeds in two steps succeeds in each. -/
theorem ok_of_bind_ok {ε α β : Type} {x : Except ε α} {f : α → Except ε β} {b : β}
    (h : x >>= f = .ok b) : ∃ a, x = .ok a ∧ f a = .ok b := by
  cases x with
  | error e => cases h
  | ok a => exact ⟨a, rfl, h⟩

namespace Graph

/-- The index leads from the id of each vertex to its place in the list, and from
no other text anywhere. -/
def Located (vs : List Vertex) (index : Table Nat) : Prop :=
  ∀ id i, index.get? id = some i ↔ (vs[i]?).map Vertex.id = some id

theorem Located.nil : Located [] ∅ := by
  intro id i
  simp

theorem Located.snoc {vs : List Vertex} {index : Table Nat} {v : Vertex}
    (h : Located vs index) (hv : index.get? v.id = none) :
    Located (vs ++ [v]) (index.insert v.id vs.length) := by
  intro id i
  rw [Table.get?_insert]
  by_cases hid : id = v.id
  · subst hid
    rw [if_pos rfl]
    constructor
    · intro hi
      obtain rfl := Option.some.inj hi
      simp
    · intro hi
      -- an earlier place with this id would have been in the index
      have hge : vs.length ≤ i := by
        by_cases hlt : i < vs.length
        · rw [List.getElem?_append_left hlt] at hi
          rw [(h _ _).2 hi] at hv
          contradiction
        · omega
      rw [List.getElem?_append_right hge] at hi
      by_cases heq : i - vs.length = 0
      · rw [show i = vs.length by omega]
      · simp [heq] at hi
  · rw [if_neg hid, h id i]
    by_cases hlt : i < vs.length
    · rw [List.getElem?_append_left hlt]
    · have hge : vs.length ≤ i := by omega
      rw [List.getElem?_append_right hge, List.getElem?_eq_none hge, List.getElem?_singleton]
      split <;> simp [Ne.symm hid]

/-- A node is accepted if it has a kind as far as one can be told and an id that is
new; it takes the next place. -/
theorem addNode_eq_ok {acc acc' : List Vertex × Table Nat} {n : Node}
    (h : addNode acc n = .ok acc') :
    ∃ kind?, n.kind = .ok kind? ∧ acc.2.get? n.id = none ∧
      acc' = (acc.1 ++ [⟨n, kind?⟩], acc.2.insert n.id acc.1.length) := by
  unfold addNode at h
  obtain ⟨kind?, hk, h⟩ := ok_of_bind_ok h
  cases hi : acc.2.get? n.id with
  | some i =>
    rw [hi] at h
    cases h
  | none =>
    rw [hi] at h
    exact ⟨kind?, hk, rfl, (Except.ok.inj h).symm⟩

/-- Where the check stands after some nodes of a document. -/
structure Checked (nodes : List Node) (acc : List Vertex × Table Nat) : Prop where
  located : Located acc.1 acc.2
  nodes_eq : acc.1.map Vertex.node = nodes
  kinds : ∀ v ∈ acc.1, v.node.kind = .ok v.kind?

theorem Checked.step {nodes : List Node} {acc acc' : List Vertex × Table Nat} {n : Node}
    (hc : Checked nodes acc) (h : addNode acc n = .ok acc') : Checked (nodes ++ [n]) acc' := by
  obtain ⟨kind?, hk, hnew, rfl⟩ := addNode_eq_ok h
  refine ⟨hc.located.snoc (v := ⟨n, kind?⟩) hnew, by simp [hc.nodes_eq], ?_⟩
  intro v hv
  rcases List.mem_append.mp hv with hv | hv
  · exact hc.kinds v hv
  · rw [List.mem_singleton.mp hv]
    exact hk

theorem Checked.run {rest nodes : List Node} {acc acc' : List Vertex × Table Nat}
    (hc : Checked nodes acc) (h : rest.foldlM addNode acc = .ok acc') :
    Checked (nodes ++ rest) acc' := by
  induction rest generalizing nodes acc with
  | nil =>
    obtain rfl := Except.ok.inj h
    rwa [List.append_nil]
  | cons n rest ih =>
    rw [List.foldlM_cons] at h
    obtain ⟨mid, hn, h⟩ := ok_of_bind_ok h
    have := ih (hc.step hn) h
    rwa [List.append_assoc] at this

/-- An accepted graph has the nodes and the edges of its document, in order. -/
theorem checked_of_ofDocument {d : Document} {g : Graph} (h : ofDocument d = .ok g) :
    Checked d.nodes (g.vertices, g.index) ∧ g.edges = d.edges := by
  unfold ofDocument at h
  obtain ⟨acc, hf, h⟩ := ok_of_bind_ok h
  obtain rfl := Except.ok.inj h
  have h₀ : Checked [] ([], ∅) := ⟨.nil, rfl, by simp⟩
  exact ⟨h₀.run hf, rfl⟩

/-! ## Looking nodes up -/

theorem vertex?_eq_some_iff {g : Graph} (hl : Located g.vertices g.index) {id : String}
    {v : Vertex} : g.vertex? id = some v ↔ v ∈ g.vertices ∧ v.id = id := by
  unfold vertex?
  rw [Option.bind_eq_some_iff]
  constructor
  · rintro ⟨i, hi, hv⟩
    have hid := (hl id i).1 hi
    rw [hv, Option.map_some, Option.some.injEq] at hid
    exact ⟨List.mem_of_getElem? hv, hid⟩
  · rintro ⟨hm, rfl⟩
    obtain ⟨i, hv⟩ := List.mem_iff_getElem?.mp hm
    exact ⟨i, (hl _ i).2 (by rw [hv, Option.map_some]), hv⟩

end Graph

end Flowline
