import Flowline.Proofs.Visit

/-! # The reports of a run

Each node that comes to its end leaves a block of reports: its start, what it
announces by its kind, its outputs by name, its end. The node that fails leaves its
error, alone or behind its start. The reports of a run are the blocks of its nodes in
the order of the path, up to the first failure. -/

namespace Flowline
open Moment

/-- A node that came to its end, with what it announced and what it put out. -/
structure Block where
  vertex : Vertex
  notices : List Event
  outputs : Table Json

namespace Block

/-- The reports of the node; the outputs of a table stand in ascending order. -/
def events (b : Block) : List Event :=
  .nodeStart b.vertex.id b.vertex.node.typeName :: b.notices
    ++ b.outputs.entries.map (fun o => .nodeOutput b.vertex.id o.1 o.2)
    ++ [.nodeEnd b.vertex.id b.vertex.node.typeName]

/-- The store with the outputs of the node. -/
def write (b : Block) (store : Store) : Store := store.setAll b.vertex.id b.outputs

end Block

/-- A chat node announces its prompt and a voice node its recording, once; the others
announce nothing. -/
def Announces (node : String) : Kind → List Event → Prop
  | .start, es => es = []
  | .llm, es => ∃ prompt, es = [.thinking node prompt]
  | .plugin, es => ∃ voice length, es = [.voiceStart node voice length]
  | .final, es => es = []

section Turns

variable {σ : Type} (e : Engine) (initial : Table Json) (peers : Peers σ)

/-- The turn of a node, taken alone with the peers in some state, leaves these reports
and comes to this. -/
def TurnsOut (store : Store) (v : Vertex) (es : List Event)
    (r : Except Failure (Table Json)) : Prop :=
  ∃ s s', (e.visit initial store v).run peers Sink.record none 0 (s, []) = (some r, s', es)

/-- The kind of the node can be run and has announced what it should, and the reports and
the outputs are those of the node's turn. -/
def Block.Complete (store : Store) (b : Block) : Prop :=
  TurnsOut e initial peers store b.vertex b.events (.ok b.outputs) ∧
  ∃ k, b.vertex.kind? = some k ∧ k ∈ e.kinds ∧ Announces b.vertex.id k b.notices

/-- The reports of a node whose turn failed: its error alone if its kind is unknown or cannot
be run, otherwise its start, one announcement at most, and its error. -/
def Aborted (store : Store) (v : Vertex) (f : Failure) (es : List Event) : Prop :=
  TurnsOut e initial peers store v es (.error f) ∧
  (((∀ k, v.kind? = some k → k ∉ e.kinds) ∧ es = [.nodeError v.id f.message]) ∨
    ∃ k notices, v.kind? = some k ∧ k ∈ e.kinds ∧
      (notices = [] ∨ Announces v.id k notices) ∧
      es = .nodeStart v.id v.node.typeName :: notices ++ [.nodeError v.id f.message])

/-- Blocks one after another, each at the store that the ones before it left. -/
inductive Blocks (start : Store) : List Block → Store → Prop
  | nil : Blocks start [] start
  | snoc {bs : List Block} {store : Store} {b : Block} (before : Blocks start bs store)
      (complete : b.Complete e initial peers store) : Blocks start (bs ++ [b]) (b.write store)

/-- How a run ends: without a path there are no reports, and with one there are the blocks of
all its nodes, or those of the nodes before the first one that failed and what that one left. -/
inductive Reported (g : Graph) : List Event → Except Failure Report → Prop
  | nowhere {f : Failure} (path : g.path = .error f) : Reported g [] (.error f)
  | finished {bs : List Block} {store : Store} {report : Report}
      (path : g.path = .ok (bs.map Block.vertex))
      (blocks : Blocks e initial peers (Engine.seed initial (bs.map Block.vertex)) bs store)
      (values : report.values = store.values) :
      Reported g (bs.flatMap Block.events) (.ok report)
  | stopped {bs : List Block} {store : Store} {v : Vertex} {rest : List Vertex} {f : Failure}
      {es : List Event} (path : g.path = .ok (bs.map Block.vertex ++ v :: rest))
      (blocks : Blocks e initial peers
        (Engine.seed initial (bs.map Block.vertex ++ v :: rest)) bs store)
      (aborted : Aborted e initial peers store v f es) :
      Reported g (bs.flatMap Block.events ++ es) (.error f)

/-! ## One node -/

/-- The action of a node announces what its kind does. -/
theorem announces_of_ofNode {d : Defaults} {initial : Table Json} {store : Store} {k : Kind}
    {n : Node} {a : Action} (h : Action.ofNode d initial store k n = .ok a) :
    Announces n.id k (a.notices n.id) := by
  cases k with
  | start =>
    obtain rfl := Except.ok.inj h
    rfl
  | final =>
    obtain rfl := Except.ok.inj h
    rfl
  | llm =>
    cases hp : Prompt.ofNode d store n with
    | error f =>
      rw [Action.ofNode, hp] at h
      cases h
    | ok p =>
      rw [Action.ofNode, hp] at h
      obtain rfl := Except.ok.inj h
      exact ⟨p.text, rfl⟩
  | plugin =>
    cases hs : Speech.ofNode d (store.inputs n) n with
    | error f =>
      rw [Action.ofNode, hs] at h
      cases h
    | ok s =>
      rw [Action.ofNode, hs] at h
      obtain rfl := Except.ok.inj h
      exact ⟨s.voice, s.text.length, rfl⟩

/-- Before a turn is closed a node announces what its kind does; or nothing, if it lacks
something, and then it fails. -/
theorem events_attempt (d : Defaults) (store : Store) (k : Kind) (n : Node) (s : σ) :
    let h := (n.attempt d initial store k).history peers s
    Announces n.id k (Moment.events h.moments) ∨
      Moment.events h.moments = [] ∧ ∃ f, h.result = .error f := by
  unfold Node.attempt
  cases ha : Action.ofNode d initial store k n with
  | error f => exact .inr ⟨rfl, f, rfl⟩
  | ok a =>
    left
    rw [Action.events_perform]
    exact announces_of_ofNode ha

theorem turnsOut_of_history (store : Store) (v : Vertex) (s : σ) :
    let h := (e.visit initial store v).history peers s
    TurnsOut e initial peers store v (Moment.events h.moments) h.result :=
  ⟨s, _, by rw [Job.run_unlimited, Sink.foldl_record, List.nil_append]⟩

/-- The turn of a node leaves a block or an error. -/
theorem reports_of_visit (store : Store) (v : Vertex) (s : σ) :
    let h := (e.visit initial store v).history peers s
    (∃ b : Block, b.vertex = v ∧ b.Complete e initial peers store ∧ h.result = .ok b.outputs ∧
      Moment.events h.moments = b.events) ∨
    ∃ f, h.result = .error f ∧ Aborted e initial peers store v f (Moment.events h.moments) := by
  have hturn := turnsOut_of_history e initial peers store v s
  dsimp only at hturn ⊢
  generalize hh : (e.visit initial store v).history peers s = h at hturn ⊢
  unfold Engine.visit at hh
  cases hk : e.kind v with
  | error f =>
    rw [hk] at hh
    subst hh
    obtain ⟨hnone, -⟩ := Engine.kind_eq_error_iff.1 hk
    exact .inr ⟨f, rfl, hturn, .inl ⟨hnone, rfl⟩⟩
  | ok k =>
    obtain ⟨hv, hmem⟩ := Engine.kind_eq_ok_iff.1 hk
    have hat := events_attempt initial peers e.defaults store k v.node s
    rw [hk] at hh
    dsimp only at hat hh
    rw [Node.history_run] at hh
    generalize (v.node.attempt e.defaults initial store k).history peers s = a at hat hh
    subst hh
    dsimp only at hturn ⊢
    rw [events_event, events_append, events_map_event] at hturn ⊢
    cases hr : a.result with
    | ok outputs =>
      rw [hr] at hturn
      rcases hat with han | ⟨-, f, hf⟩
      · let b : Block := ⟨v, Moment.events a.moments, outputs⟩
        have hb : .nodeStart v.node.id v.node.typeName ::
            (Moment.events a.moments ++ v.node.closing (.ok outputs)) = b.events := by
          simp [b, Node.closing, Node.outputEvents, Block.events, Vertex.id]
        rw [hb] at hturn ⊢
        exact .inl ⟨b, rfl, ⟨hturn, k, hv, hmem, han⟩, rfl, rfl⟩
      · rw [hr] at hf
        cases hf
    | error f =>
      rw [hr] at hturn
      refine .inr ⟨f, rfl, hturn, .inr ⟨k, Moment.events a.moments, hv, hmem, ?_, rfl⟩⟩
      exact hat.symm.imp_left And.left

/-! ## A path -/

/-- Where a run stands that has done some nodes: at the end of their blocks with their
outputs in the store, or behind the error of the last one. -/
inductive Standing (start : Store) : List Vertex → List Event → Store → Option Failure → Prop
  | going {bs : List Block} {store : Store} (blocks : Blocks e initial peers start bs store) :
      Standing start (bs.map Block.vertex) (bs.flatMap Block.events) store none
  | stopped {bs : List Block} {store : Store} {v : Vertex} {f : Failure} {es : List Event}
      (blocks : Blocks e initial peers start bs store)
      (aborted : Aborted e initial peers store v f es) :
      Standing start (bs.map Block.vertex ++ [v]) (bs.flatMap Block.events ++ es) store (some f)

theorem Standing.step {start : Store} {done : List Vertex} {es : List Event} {p : Progress}
    (h : Standing e initial peers start done es p.store p.failure?) (hp : p.failure? = none)
    (v : Vertex) (s : σ) :
    let t := (e.visit initial p.store v).history peers s
    let p' := Engine.advance p v t.result
    Standing e initial peers start (done ++ [v]) (es ++ Moment.events t.moments) p'.store
      p'.failure? := by
  obtain ⟨store, final?, failure?⟩ := p
  dsimp only at hp h ⊢
  subst hp
  cases h with
  | going blocks =>
    rcases reports_of_visit e initial peers store v s with ⟨b, hv, hb, hr, hes⟩ | ⟨f, hr, ha⟩
    · rw [hr, hes]
      have := Standing.going (blocks.snoc hb)
      simpa [Engine.advance, Block.write, hv] using this
    · rw [hr]
      exact .stopped blocks ha

theorem standing_of_walk (path : List Vertex) (start : Store) (final? : Option String) (s : σ) :
    let h := (e.walk initial ⟨start, final?, none⟩ path).history peers s
    ∃ done later, path = done ++ later ∧
      Standing e initial peers start done (Moment.events h.moments) h.result.store
        h.result.failure? ∧
      (h.result.failure? = none → later = []) := by
  have h := Engine.walk_invariant e initial peers
    (fun done ms p _ =>
      Standing e initial peers start done (Moment.events ms) p.store p.failure?)
    (fun done ms p s v hp hinv => by
      have := hinv.step e initial peers hp v s
      dsimp only at this ⊢
      rwa [events_append])
    path [] [] ⟨start, final?, none⟩ s rfl (.going .nil)
  simpa only [List.nil_append] using h

/-! ## A graph -/

theorem reported_of_execute (g : Graph) (s : σ) :
    let h := (e.execute g initial).history peers s
    Reported e initial peers g (Moment.events h.moments) h.result := by
  cases hp : g.path with
  | error f =>
    rw [Engine.history_execute_of_error hp]
    exact .nowhere hp
  | ok path =>
    rw [Engine.history_execute_of_ok hp]
    obtain ⟨done, later, hpath, hs, hl⟩ :=
      standing_of_walk e initial peers path (Engine.seed initial path) none s
    generalize (e.walk initial ⟨Engine.seed initial path, none, none⟩ path).history peers s = w
      at hs hl
    obtain ⟨ms, ⟨store, final?, failure?⟩, s'⟩ := w
    dsimp only at hs hl ⊢
    generalize Moment.events ms = es at hs ⊢
    cases hs with
    | going blocks =>
      rw [hl rfl, List.append_nil] at hpath
      subst hpath
      exact .finished hp blocks rfl
    | stopped blocks aborted =>
      rw [List.append_assoc, List.singleton_append] at hpath
      subst hpath
      exact .stopped hp blocks aborted

end Turns

/-! ## The errors among the reports -/

/-- Neither an error nor a report that closes a run. -/
def Event.IsQuiet (x : Event) : Prop := x.name ≠ "error" ∧ x.isTerminal = false

theorem Announces.quiet {node : String} {k : Kind} {es : List Event} (h : Announces node k es) :
    ∀ x ∈ es, x.IsQuiet := by
  intro x hx
  cases k with
  | start | final =>
    obtain rfl : es = [] := h
    cases hx
  | llm =>
    obtain ⟨prompt, rfl⟩ := h
    rw [List.mem_singleton.mp hx]
    exact ⟨by simp [Event.name], rfl⟩
  | plugin =>
    obtain ⟨voice, length, rfl⟩ := h
    rw [List.mem_singleton.mp hx]
    exact ⟨by simp [Event.name], rfl⟩

section Quiet

variable {σ : Type} {e : Engine} {initial : Table Json} {peers : Peers σ}

theorem Block.Complete.quiet {store : Store} {b : Block}
    (h : b.Complete e initial peers store) : ∀ x ∈ b.events, x.IsQuiet := by
  obtain ⟨-, k, _, _, han⟩ := h
  intro x hx
  simp only [Block.events, List.cons_append, List.mem_cons, List.mem_append, List.mem_map,
    List.not_mem_nil, or_false] at hx
  rcases hx with rfl | (hx | ⟨o, _, rfl⟩) | rfl
  · exact ⟨by simp [Event.name], rfl⟩
  · exact han.quiet x hx
  · exact ⟨by simp [Event.name], rfl⟩
  · exact ⟨by simp [Event.name], rfl⟩

theorem Blocks.quiet {start store : Store} {bs : List Block}
    (h : Blocks e initial peers start bs store) : ∀ x ∈ bs.flatMap Block.events, x.IsQuiet := by
  induction h with
  | nil => simp
  | snoc before complete ih =>
    intro x hx
    rw [List.flatMap_append, List.mem_append, List.flatMap_singleton] at hx
    rcases hx with hx | hx
    · exact ih x hx
    · exact complete.quiet x hx

/-- The error is the last report of a node that failed. -/
theorem Aborted.last {store : Store} {v : Vertex} {f : Failure} {es : List Event}
    (h : Aborted e initial peers store v f es) :
    ∃ front, (∀ x ∈ front, x.IsQuiet) ∧ es = front ++ [.nodeError v.id f.message] := by
  rcases h with ⟨-, ⟨_, rfl⟩ | ⟨k, notices, _, _, han, rfl⟩⟩
  · exact ⟨[], by simp, rfl⟩
  · refine ⟨_ :: notices, ?_, rfl⟩
    intro x hx
    rcases List.mem_cons.mp hx with rfl | hx
    · exact ⟨by simp [Event.name], rfl⟩
    · rcases han with rfl | han
      · cases hx
      · exact han.quiet x hx

/-- A failed node's error is the last of its run's reports and the only error among them. -/
theorem Blocks.error_last {start store : Store} {bs : List Block} {v : Vertex} {f : Failure}
    {es : List Event} (h : Blocks e initial peers start bs store)
    (aborted : Aborted e initial peers store v f es) :
    (bs.flatMap Block.events ++ es).getLast? = some (.nodeError v.id f.message) ∧
    (bs.flatMap Block.events ++ es).filter (·.name = "error") =
      [.nodeError v.id f.message] := by
  obtain ⟨front, hfront, rfl⟩ := aborted.last
  have hnone : (bs.flatMap Block.events ++ front).filter (·.name = "error") = [] := by
    rw [List.filter_eq_nil_iff]
    intro x hx
    rcases List.mem_append.mp hx with hx | hx
    · simpa using (h.quiet x hx).1
    · simpa using (hfront x hx).1
  rw [← List.append_assoc]
  refine ⟨List.getLast?_concat, ?_⟩
  rw [List.filter_append, hnone]
  rfl

end Quiet

/-- **The reports of a run.** Whatever the peers answer, a run of a graph gives a result, and
its reports are the blocks of the nodes on the path up to the first failure. A success
has no error among them. After a failure on the path the error of one of its nodes, with
the message of the failure that is returned, comes last and is the only one. -/
theorem execute_reports {σ : Type} (e : Engine) (g : Graph) (initial : Table Json)
    (peers : Peers σ) (s : σ) :
    ∃ result s' es,
      (e.execute g initial).run peers Sink.record none 0 (s, []) = (some result, s', es) ∧
      Reported e initial peers g es result ∧
      (∀ report, result = .ok report → ∀ x ∈ es, x.name ≠ "error") ∧
      (∀ path f, g.path = .ok path → result = .error f → ∃ v ∈ path,
        es.getLast? = some (.nodeError v.id f.message) ∧
        es.filter (·.name = "error") = [.nodeError v.id f.message]) := by
  have hrun := Job.run_unlimited peers Sink.record 0 (e.execute g initial) s []
  rw [Sink.foldl_record, List.nil_append] at hrun
  have hrep := reported_of_execute e initial peers g s
  dsimp only at hrep
  generalize Moment.events ((e.execute g initial).history peers s).moments = es at hrun hrep
  generalize ((e.execute g initial).history peers s).result = result at hrun hrep
  refine ⟨result, _, es, hrun, hrep, ?_, ?_⟩
  · rintro report rfl
    cases hrep with
    | finished path blocks values => exact fun x hx => (blocks.quiet x hx).1
  · rintro path f hp rfl
    cases hrep with
    | nowhere hnone =>
      rw [hnone] at hp
      cases hp
    | stopped hpath blocks aborted =>
      obtain rfl := Except.ok.inj (hpath.symm.trans hp)
      exact ⟨_, by simp, blocks.error_last aborted⟩

end Flowline
