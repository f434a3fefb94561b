import Flowline.Proofs.Replay

/-! # What a reference reads

A reference reads the latest output that was kept under its key. Node and name are
joined to a key by a point, and both may hold points themselves, so two references can
share a key; they do exactly if the node of one is the node of the other with a point
and more behind it. A reference to a node whose id is not so related to another one on
the path reads what that node has put out itself. -/

namespace Flowline
open Moment

/-! ## Joined keys -/

/-- One id is the other with a point and more behind it. -/
def Nested (a b : String) : Prop := ∃ m, b = a ++ "." ++ m ∨ a = b ++ "." ++ m

namespace Reference

/-- The node of `q` goes on behind a point where that of `r` ends, and the name of `r` begins
with what the node of `q` has more. -/
def Overlaps (r q : Reference) : Prop :=
  ∃ m, q.node = r.node ++ "." ++ m ∧ r.name = m ++ "." ++ q.name

theorem toList_key (r : Reference) : r.key.toList = r.node.toList ++ '.' :: r.name.toList := by
  simp [key, Store.key]

theorem eq_or_overlaps_of_split {r q : Reference} {more : List Char}
    (hnode : q.node.toList = r.node.toList ++ more)
    (hname : '.' :: r.name.toList = more ++ '.' :: q.name.toList) : r = q ∨ r.Overlaps q := by
  cases more with
  | nil =>
    left
    have hn : r.node = q.node := String.toList_inj.1 (by simpa using hnode.symm)
    have hm : r.name = q.name := String.toList_inj.1 (by simpa using hname)
    cases r
    cases q
    exact congrArg₂ Reference.mk hn hm
  | cons c m =>
    right
    obtain ⟨rfl, hname⟩ := List.cons.inj hname
    refine ⟨String.ofList m, ?_, ?_⟩
    · apply String.toList_inj.1
      simpa using hnode
    · apply String.toList_inj.1
      simpa using hname

theorem Overlaps.key_eq {r q : Reference} (h : r.Overlaps q) : r.key = q.key := by
  obtain ⟨m, hnode, hname⟩ := h
  apply String.toList_inj.1
  rw [toList_key, toList_key, hnode, hname]
  simp

/-- The references that share a key. -/
theorem key_eq_key_iff {r q : Reference} :
    r.key = q.key ↔ r = q ∨ r.Overlaps q ∨ q.Overlaps r := by
  constructor
  · intro h
    have hl := congrArg String.toList h
    rw [toList_key, toList_key] at hl
    rcases List.append_eq_append_iff.1 hl with ⟨more, hnode, hname⟩ | ⟨more, hnode, hname⟩
    · exact (eq_or_overlaps_of_split hnode hname).imp_right .inl
    · exact (eq_or_overlaps_of_split hnode hname).imp Eq.symm .inr
  · rintro (rfl | h | h)
    · rfl
    · exact h.key_eq
    · exact h.key_eq.symm

theorem key_eq_key_iff_of_not_nested {r q : Reference} (h : ¬ Nested r.node q.node) :
    r.key = q.key ↔ r = q := by
  rw [key_eq_key_iff]
  refine ⟨?_, .inl⟩
  rintro (rfl | ⟨m, hm, -⟩ | ⟨m, hm, -⟩)
  · rfl
  · exact absurd ⟨m, .inl hm⟩ h
  · exact absurd ⟨m, .inr hm⟩ h

end Reference

/-! ## Outputs so far -/

theorem Store.latest?_congr {p q : Reference → Bool} {os : List (Reference × Json)}
    (h : ∀ o ∈ os, p o.1 = q o.1) : latest? p os = latest? q os := by
  rw [latest?, latest?, ← List.head?_filter, ← List.head?_filter,
    List.filter_congr fun o ho => h o (List.mem_reverse.mp ho)]

namespace Engine

/-- The initial inputs as outputs of the first node on a path. -/
def given (initial : Table Json) : List Vertex → List (Reference × Json)
  | [] => []
  | v :: _ => initial.outputsOf v.id

theorem seed_eq_replay (initial : Table Json) (path : List Vertex) :
    seed initial path = Store.empty.replay (given initial path) := by
  cases path with
  | nil => rfl
  | cons v r => exact Store.setAll_eq_replay ..

section Points

variable {σ : Type} {e : Engine} {initial : Table Json} {peers : Peers σ} {s : σ}

/-- A reference reads the latest output so far with its key. -/
theorem Reaches.value_reference {path done : List Vertex} {p : Progress} {s' : σ}
    {es : List Event} (h : Reaches e initial peers s path done p s' es) (r : Reference) :
    p.store.value (.reference r) =
      (Store.latest? (·.key = r.key) (given initial path ++ Event.outputs es)).getD .null := by
  obtain ⟨rfl, -, rfl⟩ := h.eq_history
  rw [store_of_walk, seed_eq_replay, ← Store.replay_append]
  rw [Store.value, Store.get?, ← Reference.key, Store.get?_replay]
  exact congrArg (Option.getD · Json.null) Option.or_none

/-- A node puts out what it reports under its own id. -/
theorem node_eq_of_visit (store : Store) (v : Vertex) :
    ∀ o ∈ Event.outputs (Moment.events ((e.visit initial store v).history peers s).moments),
      o.1.node = v.id := by
  obtain ⟨hok, herror⟩ := outputs_of_visit e initial peers store v s
  intro o ho
  cases hr : ((e.visit initial store v).history peers s).result with
  | ok outputs =>
    rw [hok _ hr] at ho
    obtain ⟨_, -, rfl⟩ := List.mem_map.mp ho
    rfl
  | error f =>
    rw [herror _ hr] at ho
    cases ho

theorem Reaches.mem_of_outputs {path done : List Vertex} {p : Progress} {s' : σ} {es : List Event}
    (h : Reaches e initial peers s path done p s' es) :
    ∀ o ∈ Event.outputs es, ∃ v ∈ done, v.id = o.1.node := by
  obtain ⟨-, -, rfl⟩ := h.eq_history
  obtain ⟨now, later, hsplit, hinv, -⟩ := walk_invariant e initial peers
    (fun done ms _ _ => ∀ o ∈ Event.outputs (Moment.events ms), ∃ v ∈ done, v.id = o.1.node)
    (fun done ms p s v _ hinv o ho => by
      rw [events_append, Event.outputs_append, List.mem_append] at ho
      rcases ho with ho | ho
      · obtain ⟨w, hw, hid⟩ := hinv o ho
        exact ⟨w, List.mem_append_left _ hw, hid⟩
      · exact ⟨v, by simp, (node_eq_of_visit _ v o ho).symm⟩)
    done [] [] ⟨seed initial path, none, none⟩ s rfl (by simp)
  intro o ho
  obtain ⟨v, hv, hid⟩ := hinv o ho
  exact ⟨v, hsplit ▸ List.mem_append_left _ hv, hid⟩

theorem mem_of_given {path : List Vertex} :
    ∀ o ∈ given initial path, ∃ v ∈ path, v.id = o.1.node := by
  intro o ho
  cases path with
  | nil => cases ho
  | cons v r =>
    obtain ⟨_, -, rfl⟩ := List.mem_map.mp ho
    exact ⟨v, List.mem_cons_self, rfl⟩

/-- Where no id on the path is nested with that of its node, a reference reads what the node has
put out itself. -/
theorem Reaches.value_reference_own {path done later : List Vertex} {p : Progress} {s' : σ}
    {es : List Event} (hsplit : path = done ++ later)
    (h : Reaches e initial peers s path done p s' es) {r : Reference}
    (hr : ∀ v ∈ path, ¬ Nested v.id r.node) :
    p.store.value (.reference r) =
      (Store.latest? (· = r) (given initial path ++ Event.outputs es)).getD .null := by
  have hkey : ∀ o ∈ given initial path ++ Event.outputs es,
      decide (o.1.key = r.key) = decide (o.1 = r) := by
    intro o ho
    obtain ⟨v, hv, hid⟩ : ∃ v ∈ path, v.id = o.1.node := by
      rcases List.mem_append.mp ho with ho | ho
      · exact mem_of_given o ho
      · obtain ⟨v, hv, hid⟩ := h.mem_of_outputs o ho
        exact ⟨v, hsplit ▸ List.mem_append_left _ hv, hid⟩
    rw [decide_eq_decide, Reference.key_eq_key_iff_of_not_nested (hid ▸ hr v hv)]
  rw [h.value_reference, Store.latest?_congr (q := fun x => x = r) hkey]

end Points

/-- **References.** At every point of a run a reference reads the latest output so far with its
key, the initial inputs counting as first outputs of the start node, and null if there is
none. Two references share a key exactly if they are equal or overlap. Where no id on the
path is nested with that of its node, a reference so reads the latest output that this very
node has put out under the name. -/
theorem value_of_reference {σ : Type} (e : Engine) (g : Graph) (initial : Table Json)
    (peers : Peers σ) (s : σ) :
    (∀ path done later, g.path = .ok path → path = done ++ later → ∃ p s' es,
      Reaches e initial peers s path done p s' es ∧
      (e.execute g initial).run peers Sink.record none 0 (s, []) =
        (e.remaining initial path later p).run peers Sink.record none 0 (s', es) ∧
      ∀ r : Reference,
        p.store.value (.reference r) =
          (Store.latest? (·.key = r.key) (given initial path ++ Event.outputs es)).getD .null ∧
        ((∀ v ∈ path, ¬ Nested v.id r.node) → p.store.value (.reference r) =
          (Store.latest? (· = r) (given initial path ++ Event.outputs es)).getD .null)) ∧
    (∀ r q : Reference, r.key = q.key ↔ r = q ∨ r.Overlaps q ∨ q.Overlaps r) := by
  refine ⟨?_, fun r q => Reference.key_eq_key_iff⟩
  intro path done later hpath hsplit
  obtain ⟨p, s', es, h⟩ := exists_reaches e initial peers s path done
  refine ⟨p, s', es, h, h.run_execute hpath hsplit, ?_⟩
  intro r
  exact ⟨h.value_reference r, h.value_reference_own hsplit⟩

/-! ## A point in an initial input's name -/

/-- The end node refers to a node that there is not; the start node's id begins like it. -/
def pointed : Document where
  nodes := [⟨"start", .empty⟩, ⟨"end", { Settings.empty with
    inputs := [⟨none, "y", some ⟨none, some (.reference ⟨"start.a", "b"⟩)⟩⟩] }⟩]
  edges := [⟨"start", "end", none⟩]

/-- A reference may read what another node has put out. -/
theorem not_value_reference_own : ¬ ∀ (d : Document) (g : Graph) (initial : Table Json)
    (peers : Peers Unit) (path done rest : List Vertex) (v : Vertex) (p : Progress) (s' : Unit)
    (es : List Event), Graph.ofDocument d = .ok g → g.path = .ok path →
    path = done ++ v :: rest →
    Reaches (standard ⟨"generalv3.5", 50⟩) initial peers () path done p s' es →
    ∀ i ∈ v.node.settings.inputs, ∀ r, i.binding? = some (.reference r) →
      p.store.value (.reference r) =
        (Store.latest? (· = r) (given initial path ++ Event.outputs es)).getD .null := by
  intro h
  let first : Vertex := ⟨⟨"start", .empty⟩, some .start⟩
  let last : Vertex := ⟨pointed.nodes[1], some .final⟩
  let g : Graph := ⟨[first, last], .ofList [("start", 0), ("end", 1)], pointed.edges⟩
  have hg : Graph.ofDocument pointed = .ok g := rfl
  have hpath : g.path = .ok [first, last] := by
    refine (Graph.path_eq_ok_iff (Graph.checked_of_ofDocument hg).1.located).2 {
      first := ⟨_, rfl, rfl⟩
      steps := .cons_cons ⟨_, rfl, by simp [g], rfl⟩ (.singleton _)
      distinct := by decide
      maximal := ?_ }
    rintro v ⟨⟩ edge hedge
    cases hedge
  have hread :=
    h pointed g (.ofList [("a.b", .string "x")]) (fun _ s => (⟨.error .incompleteStream, 0⟩, s)) _
      [first] [] last _ _ _ hg hpath rfl rfl _ List.mem_cons_self _ rfl
  exact absurd (congrArg Json.isNull hread) (by decide +kernel)

end Engine

end Flowline
