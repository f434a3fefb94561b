import Flowline.Proofs.Index
import Mathlib.Data.List.Nodup

/-! # Which documents are accepted

A document is accepted exactly if its nodes have distinct ids and none of them is of two
kinds. Otherwise the fault is that of the first node that has one, and a node that is of
two kinds is refused for that, whether its id is new or not. What is accepted can be looked
up in the graph as in the document. -/

namespace Flowline

namespace Node

/-! ## The kind of a node -/

/-- The id and the label of a node name types of two different kinds. -/
def Clashes (n : Node) : Prop :=
  ∃ a b, n.idKind? = some a ∧ n.labelKind? = some b ∧ a ≠ b

theorem kind_of_clashes {n : Node} (h : n.Clashes) :
    n.kind = .error (.kindMismatch n.id n.typeName (n.labelType?.getD "")) := by
  obtain ⟨a, b, ha, hb, hne⟩ := h
  rw [kind, ha, hb]
  exact if_neg hne

theorem kind_of_not_clashes {n : Node} (h : ¬ n.Clashes) :
    n.kind = .ok (n.idKind?.or n.labelKind?) := by
  unfold kind
  cases ha : n.idKind? with
  | none => rfl
  | some a =>
    cases hb : n.labelKind? with
    | none => rfl
    | some b =>
      have hab : a = b := by
        by_cases hab : a = b
        · exact hab
        · exact absurd ⟨a, b, ha, hb, hab⟩ h
      exact if_pos hab

/-! ## The type that an id names -/

/-- The text `t` stands in front of the first double colon of `id`, or is all of it if there is no
double colon. -/
def IsTypePart (t id : String) : Prop :=
  (∃ rest, id = t ++ "::" ++ rest ∧ ∀ p r, id = p ++ "::" ++ r → t.length ≤ p.length) ∨
  (t = id ∧ ∀ p r, id ≠ p ++ "::" ++ r)

theorem beforeSeparator_first (cs : List Char) :
    (∃ rest, cs = beforeSeparator cs ++ ':' :: ':' :: rest ∧
      ∀ p r, cs = p ++ ':' :: ':' :: r → (beforeSeparator cs).length ≤ p.length) ∨
    (beforeSeparator cs = cs ∧ ∀ p r, cs ≠ p ++ ':' :: ':' :: r) := by
  fun_induction beforeSeparator cs with
  | case1 rest => exact .inl ⟨rest, rfl, fun p r _ => Nat.zero_le _⟩
  | case2 c r hno ih =>
    -- the first two characters are no double colon, so any other one lies within `r`
    have hlater : ∀ p s, c :: r = p ++ ':' :: ':' :: s →
        ∃ q, p = c :: q ∧ r = q ++ ':' :: ':' :: s := by
      intro p s hp
      cases p with
      | nil =>
        obtain ⟨rfl, hr⟩ := List.cons.inj hp
        exact (hno s rfl hr).elim
      | cons d q =>
        obtain ⟨rfl, hr⟩ := List.cons.inj hp
        exact ⟨q, rfl, hr⟩
    rcases ih with ⟨rest, hr, hmin⟩ | ⟨hr, hnone⟩
    · refine .inl ⟨rest, congrArg (c :: ·) hr, ?_⟩
      intro p s hp
      obtain ⟨q, rfl, hq⟩ := hlater p s hp
      exact Nat.succ_le_succ (hmin q s hq)
    · refine .inr ⟨congrArg (c :: ·) hr, ?_⟩
      intro p s hp
      obtain ⟨q, rfl, hq⟩ := hlater p s hp
      exact hnone q s hq
  | case3 => exact .inr ⟨rfl, by simp⟩

theorem isTypePart_typeName (n : Node) : IsTypePart n.typeName n.id := by
  have hsplit : ∀ p r : String, n.id = p ++ "::" ++ r →
      n.id.toList = p.toList ++ ':' :: ':' :: r.toList := by
    intro p r h
    rw [h]
    simp
  rcases beforeSeparator_first n.id.toList with ⟨rest, hrest, hmin⟩ | ⟨hall, hnone⟩
  · refine .inl ⟨String.ofList rest, ?_, ?_⟩
    · apply String.toList_inj.1
      simpa [typeName] using hrest
    · intro p r h
      have hle := hmin _ _ (hsplit p r h)
      rw [String.length_toList] at hle
      simpa [typeName] using hle
  · refine .inr ⟨?_, ?_⟩
    · rw [typeName, hall, String.ofList_toList]
    · intro p r h
      exact hnone _ _ (hsplit p r h)

end Node

namespace Graph

/-! ## Faults -/

/-- Nodes that can be those of a graph. -/
structure WellFormed (nodes : List Node) : Prop where
  distinct : (nodes.map Node.id).Nodup
  kinds : ∀ n ∈ nodes, ¬ n.Clashes

/-- What is wrong with a node behind the nodes `before`. -/
inductive Fault (before : List Node) (n : Node) : Failure → Prop
  | mismatch (h : n.Clashes) :
      Fault before n (.kindMismatch n.id n.typeName (n.labelType?.getD ""))
  | duplicate (h : ¬ n.Clashes) (hmem : n.id ∈ before.map Node.id) :
      Fault before n (.duplicateNode n.id)

theorem Fault.not_wellFormed {before : List Node} {n : Node} {f : Failure}
    (h : Fault before n f) (after : List Node) : ¬ WellFormed (before ++ n :: after) := by
  intro hw
  cases h with
  | mismatch h => exact hw.kinds n (by simp) h
  | duplicate h hmem =>
    have hd := hw.distinct
    rw [List.map_append, List.map_cons, List.nodup_append] at hd
    exact hd.2.2 _ hmem _ List.mem_cons_self rfl

/-! ## One node -/

theorem Located.isSome_iff {vs : List Vertex} {index : Table Nat} (h : Located vs index)
    {id : String} : (index.get? id).isSome ↔ id ∈ vs.map Vertex.id := by
  rw [Option.isSome_iff_exists, List.mem_iff_getElem?]
  refine exists_congr fun i => ?_
  rw [List.getElem?_map]
  exact h id i

theorem Located.nodup {vs : List Vertex} {index : Table Nat} (h : Located vs index) :
    (vs.map Vertex.id).Nodup := by
  rw [List.nodup_iff_getElem?_ne_getElem?]
  intro i j hlt hj heq
  rw [List.getElem?_map, List.getElem?_map] at heq
  have hlen : j < vs.length := by simpa using hj
  have hsome : (vs[j]?).map Vertex.id = some vs[j].id := by
    rw [List.getElem?_eq_getElem hlen, Option.map_some]
  have hi := (h _ i).2 (heq.trans hsome)
  rw [(h _ j).2 hsome] at hi
  have := Option.some.inj hi
  omega

section Checking

variable {nodes : List Node} {acc : List Vertex × Table Nat}

theorem Checked.map_id (hc : Checked nodes acc) : nodes.map Node.id = acc.1.map Vertex.id := by
  rw [← hc.nodes_eq, List.map_map]
  rfl

theorem Checked.wellFormed (hc : Checked nodes acc) : WellFormed nodes where
  distinct := by
    rw [hc.map_id]
    exact hc.located.nodup
  kinds := by
    intro n hn hclash
    rw [← hc.nodes_eq] at hn
    obtain ⟨v, hv, rfl⟩ := List.mem_map.mp hn
    have hk := hc.kinds v hv
    rw [Node.kind_of_clashes hclash] at hk
    cases hk

theorem Checked.kind?_eq (hc : Checked nodes acc) {v : Vertex} (hv : v ∈ acc.1) :
    v.kind? = v.node.idKind?.or v.node.labelKind? := by
  have hmem : v.node ∈ nodes := by
    rw [← hc.nodes_eq]
    exact List.mem_map_of_mem hv
  have hk := hc.kinds v hv
  rw [Node.kind_of_not_clashes (hc.wellFormed.kinds _ hmem)] at hk
  exact (Except.ok.inj hk).symm

theorem Checked.addNode_of_fault (hc : Checked nodes acc) {n : Node} {f : Failure}
    (h : Fault nodes n f) : addNode acc n = .error f := by
  unfold addNode
  cases h with
  | mismatch h =>
    rw [Node.kind_of_clashes h]
    rfl
  | duplicate h hmem =>
    rw [hc.map_id, ← hc.located.isSome_iff] at hmem
    rw [Node.kind_of_not_clashes h]
    exact if_pos hmem

/-- A node is taken or has a fault. -/
theorem Checked.addNode_cases (hc : Checked nodes acc) (n : Node) :
    (∃ acc', addNode acc n = .ok acc') ∨ ∃ f, Fault nodes n f := by
  by_cases hclash : n.Clashes
  · exact .inr ⟨_, .mismatch hclash⟩
  · by_cases hmem : n.id ∈ nodes.map Node.id
    · exact .inr ⟨_, .duplicate hclash hmem⟩
    · left
      rw [hc.map_id, ← hc.located.isSome_iff] at hmem
      unfold addNode
      rw [Node.kind_of_not_clashes hclash]
      exact ⟨_, if_neg hmem⟩

/-! ## All nodes -/

/-- The check comes to the end of the nodes or stops at the first one with a fault. -/
theorem Checked.run_cases (hc : Checked nodes acc) (rest : List Node) :
    (∃ acc', rest.foldlM addNode acc = .ok acc' ∧ Checked (nodes ++ rest) acc') ∨
    ∃ before n after f, rest = before ++ n :: after ∧ WellFormed (nodes ++ before) ∧
      Fault (nodes ++ before) n f := by
  induction rest generalizing nodes acc with
  | nil => exact .inl ⟨acc, rfl, by rwa [List.append_nil]⟩
  | cons m rest ih =>
    rcases hc.addNode_cases m with ⟨mid, hmid⟩ | ⟨f, hf⟩
    · rcases ih (hc.step hmid) with ⟨acc', hrun, hc'⟩ | ⟨before, n, after, f, hrest, hw, hf⟩
      · refine .inl ⟨acc', ?_, by rwa [List.append_assoc] at hc'⟩
        rw [List.foldlM_cons, hmid]
        exact hrun
      · rw [List.append_assoc] at hw hf
        exact .inr ⟨m :: before, n, after, f, by rw [hrest, List.cons_append], hw, hf⟩
    · refine .inr ⟨[], m, rest, f, rfl, ?_, ?_⟩
      · rw [List.append_nil]
        exact hc.wellFormed
      · rwa [List.append_nil]

end Checking

theorem checked_nil : Checked [] ([], ∅) := ⟨.nil, rfl, by simp⟩

theorem exists_checked {nodes : List Node} (h : WellFormed nodes) :
    ∃ acc, nodes.foldlM addNode ([], ∅) = .ok acc ∧ Checked nodes acc := by
  rcases checked_nil.run_cases nodes with hrun | ⟨before, n, after, f, rfl, -, hf⟩
  · exact hrun
  · exact absurd h (hf.not_wellFormed after)

theorem ofDocument_eq_ok_iff (d : Document) :
    (∃ g, ofDocument d = .ok g) ↔ WellFormed d.nodes := by
  constructor
  · rintro ⟨g, h⟩
    exact (checked_of_ofDocument h).1.wellFormed
  · intro h
    obtain ⟨acc, hrun, -⟩ := exists_checked h
    refine ⟨⟨acc.1, acc.2, d.edges⟩, ?_⟩
    rw [ofDocument, hrun]
    rfl

theorem ofDocument_of_fault {d : Document} {before after : List Node} {n : Node} {f : Failure}
    (hd : d.nodes = before ++ n :: after) (hw : WellFormed before) (hf : Fault before n f) :
    ofDocument d = .error f := by
  obtain ⟨acc, hrun, hc⟩ := exists_checked hw
  rw [ofDocument, hd, List.foldlM_append, hrun]
  change ((n :: after).foldlM addNode acc >>= _) = _
  rw [List.foldlM_cons, hc.addNode_of_fault hf]
  rfl

theorem ofDocument_eq_error_iff (d : Document) (f : Failure) :
    ofDocument d = .error f ↔ ∃ before n after, d.nodes = before ++ n :: after ∧
      WellFormed before ∧ Fault before n f := by
  constructor
  · intro h
    rcases checked_nil.run_cases d.nodes with ⟨acc, hrun, -⟩ | ⟨before, n, after, f', hd, hw, hf⟩
    · rw [ofDocument, hrun] at h
      cases h
    · rw [List.nil_append] at hw hf
      rw [ofDocument_of_fault hd hw hf] at h
      cases h
      exact ⟨before, n, after, hd, hw, hf⟩
  · rintro ⟨before, n, after, hd, hw, hf⟩
    exact ofDocument_of_fault hd hw hf

/-! ## Looking up -/

theorem Checked.node?_eq {d : Document} {g : Graph} (hc : Checked d.nodes (g.vertices, g.index))
    (id : String) : (g.vertex? id).map Vertex.node = d.node? id := by
  unfold Document.node?
  cases hn : d.nodes.find? (·.id = id) with
  | none =>
    rw [Option.map_eq_none_iff, Option.eq_none_iff_forall_ne_some]
    intro v hv
    obtain ⟨hmem, hid⟩ := (vertex?_eq_some_iff hc.located).1 hv
    have hnode : v.node ∈ d.nodes := by
      rw [← hc.nodes_eq]
      exact List.mem_map_of_mem hmem
    have hne := List.find?_eq_none.1 hn v.node hnode
    exact absurd (decide_eq_true hid) hne
  | some n =>
    have hmem := List.mem_of_find?_eq_some hn
    rw [← hc.nodes_eq] at hmem
    obtain ⟨v, hv, rfl⟩ := List.mem_map.mp hmem
    have hid : v.node.id = id := by simpa using List.find?_some hn
    rw [(vertex?_eq_some_iff hc.located).2 ⟨hv, hid⟩, Option.map_some]

theorem Located.lt_length {vs : List Vertex} {index : Table Nat} (h : Located vs index)
    {id : String} {i : Nat} (hi : index.get? id = some i) : i < vs.length := by
  have hv := (h id i).1 hi
  obtain ⟨v, hv, -⟩ := Option.map_eq_some_iff.1 hv
  exact (List.getElem?_eq_some_iff.1 hv).1

/-- **Validation.** A document is accepted exactly if its nodes have distinct ids and no clash of
kinds; otherwise the fault is that of the first node that has one. A graph has the nodes and the
edges of its document in order, each node with the kind that its id or else its label names, and
it is looked up in as the document is, no place in the index being beyond the nodes. -/
theorem ofDocument_decides (d : Document) :
    ((∃ g, ofDocument d = .ok g) ↔ WellFormed d.nodes) ∧
    (∀ f, ofDocument d = .error f ↔ ∃ before n after, d.nodes = before ++ n :: after ∧
      WellFormed before ∧ Fault before n f) ∧
    ∀ g, ofDocument d = .ok g →
      g.vertices.map Vertex.node = d.nodes ∧ g.edges = d.edges ∧
      (∀ v ∈ g.vertices, ∃ type, Node.IsTypePart type v.id ∧
        v.kind? = (Kind.ofTypeName? type).or (v.node.labelType?.bind Kind.ofTypeName?)) ∧
      ∀ id, (g.vertex? id).map Vertex.node = d.node? id ∧ g.outgoing id = d.outgoing id ∧
        ∀ i, g.index.get? id = some i → i < g.vertices.length := by
  refine ⟨ofDocument_eq_ok_iff d, ofDocument_eq_error_iff d, ?_⟩
  intro g h
  obtain ⟨hc, hedges⟩ := checked_of_ofDocument h
  refine ⟨hc.nodes_eq, hedges, ?_, ?_⟩
  · intro v hv
    exact ⟨v.node.typeName, v.node.isTypePart_typeName, hc.kind?_eq hv⟩
  · intro id
    refine ⟨hc.node?_eq id, ?_, fun i hi => hc.located.lt_length hi⟩
    rw [outgoing, hedges]
    rfl

def unlabelled : Node := ⟨"start::1", .empty⟩

/-- A node with the same id, which its label takes for an end node. -/
def mislabelled : Node :=
  ⟨"start::1", { Settings.empty with label? := some ⟨some "end", none⟩ }⟩

theorem ofDocument_mislabelled :
    ofDocument ⟨[unlabelled, mislabelled], []⟩ =
      .error (.kindMismatch "start::1" "start" "end") ∧
    ∃ g, ofDocument ⟨[unlabelled], []⟩ = .ok g ∧
      (g.vertex? "start::1").map Vertex.node = some unlabelled ∧ g.outgoing "start::1" = [] := by
  have hno : ¬ unlabelled.Clashes := by
    rintro ⟨a, b, -, hb, -⟩
    cases hb
  have hw : WellFormed [unlabelled] := ⟨by decide, by simpa using hno⟩
  have hclash : mislabelled.Clashes := ⟨.start, .final, rfl, rfl, by decide⟩
  obtain ⟨-, hrefuses, -⟩ := ofDocument_decides ⟨[unlabelled, mislabelled], []⟩
  refine ⟨(hrefuses _).2 ⟨[unlabelled], mislabelled, [], rfl, hw, .mismatch hclash⟩, ?_⟩
  obtain ⟨haccepts, -, hgraph⟩ := ofDocument_decides ⟨[unlabelled], []⟩
  obtain ⟨g, hg⟩ := haccepts.2 hw
  obtain ⟨hfind, hout, -⟩ := (hgraph g hg).2.2.2 "start::1"
  exact ⟨g, hg, hfind.trans rfl, hout⟩

end Graph

end Flowline
