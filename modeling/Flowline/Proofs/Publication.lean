import Flowline.Document.Samples
import Flowline.Proofs.Inputs
import Flowline.Proofs.Replay

/-! # What the start node publishes

A run begins with what it was given, kept as outputs of its first node. That node then puts out all
of it once more with its own inputs over it, and they are read off the same variables. So an input
that is bound to the variable in its own place, or to nothing, leaves there what the run was given,
and nothing that the run was given is lost. -/

namespace Flowline

namespace Store

theorem key_inj {node a b : String} : key node a = key node b ↔ a = b := by
  simp [key]

/-- The outputs of a node are found under its own keys. -/
theorem get?_setAll (s : Store) (node : String) (t : Table Json) (name : String) :
    (s.setAll node t).values.get? (key node name) =
      (t.get? name).or (s.values.get? (key node name)) := by
  have hlatest : latest? (·.key = key node name) (t.outputsOf node) = t.get? name := by
    rw [latest?, Table.outputsOf, ← List.map_reverse, List.find?_map, Option.map_map,
      t.get?_eq_find?_reverse]
    simp only [Function.comp_def, Reference.key, key_inj]
  rw [setAll_eq_replay, get?_replay, hlatest]

/-- No other key is touched. -/
theorem get?_setAll_of_ne {k node : String} (hk : ∀ name, k ≠ key node name) (s : Store)
    (t : Table Json) : (s.setAll node t).values.get? k = s.values.get? k := by
  have hnone : latest? (·.key = k) (t.outputsOf node) = none := by
    rw [latest?_eq_none_iff]
    intro o ho
    obtain ⟨e, -, rfl⟩ := List.mem_map.1 ho
    exact decide_eq_false (Ne.symm (hk e.1))
  rw [setAll_eq_replay, get?_replay, hnone, Option.none_or]

end Store

/-! ## Before the first turn -/

/-- What a binding amounts to when there is nothing but the initial inputs, kept as outputs of the
node `first`. -/
inductive Binding.AtStart (first : String) (initial : Table Json) : Binding → Json → Prop
  | literal (v : Json) : AtStart first initial (.literal v) v
  | input {r : Reference} {name : String} {v : Json} (hkey : r.key = Store.key first name)
      (hv : initial.get? name = some v) : AtStart first initial (.reference r) v
  | unset {r : Reference} (hr : ∀ name, r.key = Store.key first name → initial.get? name = none) :
      AtStart first initial (.reference r) .null

/-- What a start node has for a name in the end: its own input, else what the run was given. -/
def Node.Publishes (n : Node) (initial : Table Json) (name : String) (v : Json) : Prop :=
  (∃ b, n.settings.bound? name = some b ∧ b.AtStart n.id initial v) ∨
    n.settings.bound? name = none ∧ initial.get? name = some v

namespace Engine

variable {initial : Table Json} {first : Vertex}

theorem get?_seed (rest : List Vertex) (name : String) :
    (seed initial (first :: rest)).values.get? (Store.key first.id name) = initial.get? name := by
  rw [seed, Store.get?_setAll]
  exact Option.or_none

theorem get?_seed_of_ne {k : String} (hk : ∀ name, k ≠ Store.key first.id name)
    (rest : List Vertex) : (seed initial (first :: rest)).values.get? k = none := by
  rw [seed, Store.get?_setAll_of_ne hk]
  rfl

/-- A binding has the value that it amounts to before the first turn. -/
theorem value_seed (rest : List Vertex) (b : Binding) :
    b.AtStart first.id initial ((seed initial (first :: rest)).value b) := by
  cases b with
  | literal v => exact .literal v
  | reference r =>
    show Binding.AtStart _ _ _ (((seed initial (first :: rest)).values.get? r.key).getD .null)
    by_cases hown : ∃ name, r.key = Store.key first.id name
    · obtain ⟨name, hkey⟩ := hown
      rw [hkey, get?_seed]
      cases hv : initial.get? name with
      | some v => exact .input hkey hv
      | none =>
        refine .unset fun name' hkey' => ?_
        rwa [← Store.key_inj.1 (hkey.symm.trans hkey')]
    · have hne : ∀ name, r.key ≠ Store.key first.id name := not_exists.1 hown
      rw [get?_seed_of_ne hne]
      exact .unset fun name hkey => absurd hkey (hne name)

end Engine

theorem Binding.AtStart.det {node : String} {initial : Table Json} {b : Binding} {v w : Json}
    (hv : b.AtStart node initial v) (hw : b.AtStart node initial w) : v = w := by
  cases hv with
  | literal =>
    cases hw
    rfl
  | input hkey hget =>
    cases hw with
    | input hkey' hget' =>
      rw [Store.key_inj.1 (hkey.symm.trans hkey')] at hget
      exact Option.some.inj (hget.symm.trans hget')
    | unset hnone => cases hget.symm.trans (hnone _ hkey)
  | unset hnone =>
    cases hw with
    | input hkey hget => cases hget.symm.trans (hnone _ hkey)
    | unset => rfl

namespace Engine

/-! ## After the first turn -/

section Points

variable {σ : Type} {e : Engine} {initial : Table Json} {peers : Peers σ} {s : σ}

/-- The variables when a start node has had its turn. -/
theorem Reaches.store_first {first : Vertex} {rest : List Vertex} {p : Progress} {s' : σ}
    {es : List Event} (hk : first.kind? = some .start) (hm : .start ∈ e.kinds)
    (h : Reaches e initial peers s (first :: rest) [first] p s' es) :
    let store := seed initial (first :: rest)
    p.failure? = none ∧
      p.store = store.setAll first.id (initial.insertAll (store.inputs first.node).entries) := by
  obtain ⟨rfl, -, -⟩ := h.eq_history
  rw [history_walk_cons]
  dsimp only
  rw [result_visit_start hk hm]
  exact ⟨rfl, rfl⟩

/-- Under its own keys a start node then has what it publishes, and there is nothing else. -/
theorem Reaches.get?_first {first : Vertex} {rest : List Vertex} {p : Progress} {s' : σ}
    {es : List Event} (hk : first.kind? = some .start) (hm : .start ∈ e.kinds)
    (h : Reaches e initial peers s (first :: rest) [first] p s' es) (k : String) (v : Json) :
    p.store.values.get? k = some v ↔
      ∃ name, k = Store.key first.id name ∧ first.node.Publishes initial name v := by
  obtain ⟨-, hstore⟩ := h.store_first hk hm
  rw [hstore]
  -- a key of the first node belongs to one name only; under any other key nothing is written
  by_cases hown : ∃ name, k = Store.key first.id name
  · obtain ⟨name, rfl⟩ := hown
    rw [Store.get?_setAll, Table.get?_insertAll_entries, Store.get?_inputs, get?_seed]
    have hname : (∃ name', Store.key first.id name = Store.key first.id name' ∧
        first.node.Publishes initial name' v) ↔ first.node.Publishes initial name v := by
      simp [Store.key_inj]
    rw [hname, Node.Publishes]
    cases hb : first.node.settings.bound? name with
    | none => simp
    | some b =>
      have hvalue : b.AtStart first.id initial _ := value_seed rest b
      simp only [Option.map_some, Option.some_or, Option.some.injEq, reduceCtorEq, false_and,
        or_false, exists_eq_left']
      exact ⟨fun hv => hv ▸ hvalue, hvalue.det⟩
  · have hne : ∀ name, k ≠ Store.key first.id name := not_exists.1 hown
    rw [Store.get?_setAll_of_ne hne, get?_seed_of_ne hne]
    refine ⟨nofun, ?_⟩
    rintro ⟨name, hkey, -⟩
    exact absurd hkey (hne name)

end Points

/-- **What the start node publishes.** When the first node of a run has had its turn, the variables
are its own: each name that it binds, with what its last binding amounted to before, and each other
name that the run was given. A name that it binds to itself or not at all is left as it was given,
and no name that was given is missing. -/
theorem start_publishes {σ : Type} {e : Engine} (hm : .start ∈ e.kinds) {g : Graph}
    {first : Vertex} (hstart : g.start? = some first) (initial : Table Json) (peers : Peers σ)
    (s : σ) :
    ∃ rest p s' es, g.path = .ok (first :: rest) ∧
      Reaches e initial peers s (first :: rest) [first] p s' es ∧ p.failure? = none ∧
      (e.execute g initial).run peers Sink.record none 0 (s, []) =
        (e.remaining initial (first :: rest) rest p).run peers Sink.record none 0 (s', es) ∧
      (∀ k v, p.store.values.get? k = some v ↔
        ∃ name, k = Store.key first.id name ∧ first.node.Publishes initial name v) ∧
      (∀ name v, initial.get? name = some v →
        (∀ b, first.node.settings.bound? name = some b →
          ∃ r, b = .reference r ∧ r.key = Store.key first.id name) →
        p.store.get? first.id name = some v) ∧
      ∀ name, (initial.get? name).isSome → (p.store.get? first.id name).isSome := by
  obtain ⟨rest, hpath⟩ := Graph.path_of_start? hstart
  have hk : first.kind? = some .start := by simpa using List.find?_some hstart
  obtain ⟨p, s', es, hreach⟩ := exists_reaches e initial peers s (first :: rest) [first]
  have hfound := hreach.get?_first hk hm
  refine ⟨rest, p, s', es, hpath, hreach, (hreach.store_first hk hm).1,
    hreach.run_execute hpath rfl, hfound, ?_, ?_⟩
  · intro name v hv hself
    refine (hfound _ v).2 ⟨name, rfl, ?_⟩
    cases hb : first.node.settings.bound? name with
    | none => exact .inr ⟨hb, hv⟩
    | some b =>
      obtain ⟨r, rfl, hkey⟩ := hself b hb
      exact .inl ⟨_, hb, .input hkey hv⟩
  · intro name hname
    obtain ⟨v, hv⟩ := Option.isSome_iff_exists.1 hname
    obtain ⟨w, hw⟩ : ∃ w, first.node.Publishes initial name w := by
      cases hb : first.node.settings.bound? name with
      | none => exact ⟨v, .inr ⟨hb, hv⟩⟩
      | some b => exact ⟨_, .inl ⟨b, hb, value_seed rest b⟩⟩
    exact Option.isSome_iff_exists.2 ⟨w, (hfound _ w).2 ⟨name, rfl, hw⟩⟩

/-- A start node alone. It binds `a` to itself, `b` twice, to what is given as `a` and then to
nothing that there is, `c` to a constant and then not at all, and `d` to what is given as `a`. -/
def overlaid : Document where
  nodes := [⟨"start", { Settings.empty with inputs := [Samples.bound "a" "start" "a",
    Samples.bound "b" "start" "a", Samples.bound "b" "end" "a", Samples.constant "c" (.int 0),
    ⟨none, "c", none⟩, Samples.bound "d" "start" "a"] }⟩]
  edges := []

theorem start_publishes_overlaid : ∃ g first rest p s' es, Graph.ofDocument overlaid = .ok g ∧
    .start ∈ (standard default).kinds ∧ g.start? = some first ∧
    Reaches (standard default) (.ofList [("a", .int 1), ("e", .int 2)])
      (fun _ s => (⟨.error .incompleteStream, 0⟩, s)) () (first :: rest) [first] p s' es ∧
    p.store.get? "start" "a" = some (.int 1) ∧ p.store.get? "start" "b" = some .null ∧
    p.store.get? "start" "c" = some (.int 0) ∧ p.store.get? "start" "d" = some (.int 1) ∧
    p.store.get? "start" "e" = some (.int 2) := by
  let first : Vertex := ⟨overlaid.nodes[0], some .start⟩
  let g : Graph := ⟨[first], .ofList [("start", 0)], []⟩
  have hg : Graph.ofDocument overlaid = .ok g := rfl
  have hm : .start ∈ (standard default).kinds := by decide
  have hstart : g.start? = some first := rfl
  obtain ⟨rest, p, s', es, -, hreach, -, -, hfound, hkept, -⟩ := start_publishes hm hstart
    (.ofList [("a", .int 1), ("e", .int 2)]) (fun _ s => (⟨.error .incompleteStream, 0⟩, s)) ()
  refine ⟨g, first, rest, p, s', es, hg, hm, hstart, hreach, ?_, ?_, ?_, ?_, ?_⟩
  · refine hkept "a" _ rfl ?_
    rintro _ ⟨⟩
    exact ⟨_, rfl, rfl⟩
  · refine (hfound _ _).2 ⟨"b", rfl, .inl ⟨_, rfl, .unset fun name hkey => ?_⟩⟩
    have hkey : "end" ++ "." ++ "a" = "start" ++ "." ++ name := hkey
    have hchars := congrArg String.toList hkey
    simp at hchars
  · exact (hfound _ _).2 ⟨"c", rfl, .inl ⟨_, rfl, .literal _⟩⟩
  · exact (hfound _ _).2 ⟨"d", rfl, .inl ⟨_, rfl, .input rfl (rfl : Table.get? _ "a" = _)⟩⟩
  · exact hkept "e" _ rfl nofun

end Engine

end Flowline
