import Flowline.Document.Samples
import Flowline.Proofs.Blocks
import Flowline.Proofs.Route
import Flowline.Run.Script

/-! # Reports and variables

The variables of a run can be told from its reports. At every point between two nodes,
and when a node has failed, the store is what the initial inputs and the outputs that
were reported make when they are written one after another. A start node reports all
initial inputs anew, so once it has ended the reports alone are enough. -/

namespace Flowline
open Moment

/-! ## Reported outputs -/

/-- The output that an event reports, with its value. -/
def Event.output? : Event → Option (Reference × Json)
  | nodeOutput node name v => some (⟨node, name⟩, v)
  | _ => none

/-- The outputs that some events report, in order. -/
def Event.outputs (es : List Event) : List (Reference × Json) := es.filterMap Event.output?

@[simp] theorem Event.outputs_nil : Event.outputs [] = [] := rfl

@[simp] theorem Event.outputs_append (es fs : List Event) :
    Event.outputs (es ++ fs) = Event.outputs es ++ Event.outputs fs := List.filterMap_append

/-- The values of a table as outputs of a node. -/
def Table.outputsOf (node : String) (t : Table Json) : List (Reference × Json) :=
  t.entries.map fun e => (⟨node, e.1⟩, e.2)

theorem Announces.outputs_eq_nil {node : String} {k : Kind} {es : List Event}
    (h : Announces node k es) : Event.outputs es = [] := by
  cases k with
  | start | final =>
    obtain rfl : es = [] := h
    rfl
  | llm =>
    obtain ⟨prompt, rfl⟩ := h
    rfl
  | plugin =>
    obtain ⟨voice, length, rfl⟩ := h
    rfl

section Turns

variable {σ : Type} {e : Engine} {initial : Table Json} {peers : Peers σ}

theorem Block.Complete.outputs_events {store : Store} {b : Block}
    (h : b.Complete e initial peers store) :
    Event.outputs b.events = b.outputs.outputsOf b.vertex.id := by
  obtain ⟨-, k, -, -, han⟩ := h
  have hmap : Event.outputs (b.outputs.entries.map fun o => .nodeOutput b.vertex.id o.1 o.2) =
      b.outputs.outputsOf b.vertex.id := by
    rw [Event.outputs, List.filterMap_map]
    exact congrFun (List.filterMap_eq_map (f := fun o : String × Json =>
      ((⟨b.vertex.id, o.1⟩, o.2) : Reference × Json))) _
  rw [Block.events, Event.outputs_append, Event.outputs_append, hmap, Event.outputs,
    List.filterMap_cons_none rfl, ← Event.outputs, han.outputs_eq_nil]
  simp [Event.outputs, Event.output?]

/-- A node that fails reports no output. -/
theorem Aborted.outputs_eq_nil {store : Store} {v : Vertex} {f : Failure} {es : List Event}
    (h : Aborted e initial peers store v f es) : Event.outputs es = [] := by
  rcases h with ⟨-, ⟨-, rfl⟩ | ⟨k, notices, -, -, han, rfl⟩⟩
  · rfl
  · have hn : Event.outputs notices = [] := by
      rcases han with rfl | han
      · rfl
      · exact han.outputs_eq_nil
    rw [Event.outputs_append, Event.outputs, List.filterMap_cons_none rfl, ← Event.outputs, hn]
    rfl

end Turns

/-! ## Writing outputs -/

/-- The key under which the output that a reference points at is kept. -/
def Reference.key (r : Reference) : String := Store.key r.node r.name

namespace Store

/-- The store with some outputs bound to their keys, one after another. -/
def replay (s : Store) (os : List (Reference × Json)) : Store :=
  ⟨s.values.insertAll (os.map fun o => (o.1.key, o.2))⟩

theorem replay_append (s : Store) (os qs : List (Reference × Json)) :
    s.replay (os ++ qs) = (s.replay os).replay qs := by
  rw [replay, replay, replay, List.map_append, Table.insertAll_append]

/-- An output that is set is bound to its key. -/
theorem replay_cons (s : Store) (o : Reference × Json) (os : List (Reference × Json)) :
    s.replay (o :: os) = (s.set o.1.node o.1.name o.2).replay os := rfl

theorem setAll_eq_replay (s : Store) (node : String) (t : Table Json) :
    s.setAll node t = s.replay (t.outputsOf node) := by
  rw [setAll, Table.outputsOf]
  induction t.entries generalizing s with
  | nil => rfl
  | cons e l ih => rw [List.foldl_cons, ih, List.map_cons, replay_cons]

/-- The latest of some outputs that a test admits. -/
def latest? (p : Reference → Bool) (os : List (Reference × Json)) : Option Json :=
  (os.reverse.find? fun o => p o.1).map Prod.snd

theorem latest?_eq_none_iff {p : Reference → Bool} {os : List (Reference × Json)} :
    latest? p os = none ↔ ∀ o ∈ os, p o.1 = false := by
  simp [latest?]

/-- What is kept under a key is the latest output with that key. -/
theorem get?_replay (s : Store) (os : List (Reference × Json)) (key : String) :
    (s.replay os).values.get? key = (latest? (·.key = key) os).or (s.values.get? key) := by
  rw [replay, Table.get?_insertAll, ← List.map_reverse, List.find?_map, Option.map_map]
  rfl

/-- Outputs whose keys are all written again leave nothing behind. -/
theorem replay_replay_of_covered {s : Store} {os qs : List (Reference × Json)}
    (h : ∀ o ∈ os, ∃ q ∈ qs, q.1.key = o.1.key) : (s.replay os).replay qs = s.replay qs := by
  suffices hv : ((s.replay os).replay qs).values = (s.replay qs).values from congrArg Store.mk hv
  refine Table.ext_get? fun key => ?_
  rw [get?_replay, get?_replay, get?_replay]
  cases hq : latest? (·.key = key) qs with
  | some v => rfl
  | none =>
    have hnone : latest? (·.key = key) os = none := by
      rw [latest?_eq_none_iff] at hq ⊢
      intro o ho
      obtain ⟨q, hmem, hkey⟩ := h o ho
      rw [← hkey]
      exact hq q hmem
    rw [hnone]
    rfl

end Store

/-! ## Along a walk -/

section Walk

variable {σ : Type} (e : Engine) (initial : Table Json) (peers : Peers σ)

/-- A node reports what it puts out, and if it fails it reports no output. -/
theorem outputs_of_visit (store : Store) (v : Vertex) (s : σ) :
    let h := (e.visit initial store v).history peers s
    (∀ outputs, h.result = .ok outputs →
      Event.outputs (Moment.events h.moments) = outputs.outputsOf v.id) ∧
    (∀ f, h.result = .error f → Event.outputs (Moment.events h.moments) = []) := by
  dsimp only
  rcases reports_of_visit e initial peers store v s with ⟨b, rfl, hb, hr, hes⟩ | ⟨f, hr, ha⟩
  · rw [hr, hes]
    refine ⟨?_, by simp⟩
    rintro _ ⟨⟩
    exact hb.outputs_events
  · rw [hr]
    exact ⟨by simp, fun _ _ => ha.outputs_eq_nil⟩

/-- The turn of a node writes the outputs that it reports, in that order, and nothing else. -/
theorem store_of_visit (p : Progress) (v : Vertex) (s : σ) :
    let h := (e.visit initial p.store v).history peers s
    (Engine.advance p v h.result).store =
      p.store.replay (Event.outputs (Moment.events h.moments)) := by
  obtain ⟨hok, herror⟩ := outputs_of_visit e initial peers p.store v s
  dsimp only at hok herror ⊢
  cases hr : ((e.visit initial p.store v).history peers s).result with
  | ok outputs =>
    rw [hok _ hr, ← Store.setAll_eq_replay]
    rfl
  | error f =>
    rw [herror _ hr]
    rfl

theorem store_of_walk (path : List Vertex) (start : Store) (s : σ) :
    let h := (e.walk initial ⟨start, none, none⟩ path).history peers s
    h.result.store = start.replay (Event.outputs (Moment.events h.moments)) := by
  obtain ⟨_, _, -, hinv, -⟩ := Engine.walk_invariant e initial peers
    (fun _ ms p _ => p.store = start.replay (Event.outputs (Moment.events ms)))
    (fun _ ms p s v _ hinv => by
      dsimp only
      rw [store_of_visit, events_append, Event.outputs_append, Store.replay_append, hinv])
    path [] [] ⟨start, none, none⟩ s rfl rfl
  exact hinv

end Walk

/-! ## Points of a run -/

namespace Engine

section Points

variable {σ : Type} (e : Engine) (initial : Table Json) (peers : Peers σ) (s : σ)

/-- When the nodes `done` at the head of its path have had their turns, a run has made the
progress `p`, left the peers in `s'` and reported `es`. -/
def Reaches (path done : List Vertex) (p : Progress) (s' : σ) (es : List Event) : Prop :=
  (e.walk initial ⟨seed initial path, none, none⟩ done).run peers Sink.record none 0 (s, []) =
    (some p, s', es)

/-- Goes on with the next nodes unless a node has failed. -/
def proceed (later : List Vertex) (p : Progress) : Job Progress :=
  if p.failure?.isSome then pure p else e.walk initial p later

/-- What a run still has to do when the nodes before `later` have had their turns. -/
def remaining (path later : List Vertex) (p : Progress) : Job (Except Failure Report) := do
  return conclude path (← e.proceed initial later p)

theorem walk_append {p : Progress} (hp : p.failure? = none) (done later : List Vertex) :
    e.walk initial p (done ++ later) = e.walk initial p done >>= e.proceed initial later := by
  induction done generalizing p with
  | nil => simp [walk, proceed, hp]
  | cons v done ih =>
    rw [List.cons_append, walk, walk, bind_assoc]
    refine bind_congr fun outcome => ?_
    dsimp only
    split
    · rename_i hf
      simp [proceed, hf]
    · rename_i hf
      exact ih (Option.not_isSome_iff_eq_none.1 hf)

theorem exists_reaches (path done : List Vertex) :
    ∃ p s' es, Reaches e initial peers s path done p s' es :=
  ⟨_, _, _, Job.run_record ..⟩

variable {e initial peers s}

theorem Reaches.eq_history {path done : List Vertex} {p : Progress} {s' : σ} {es : List Event}
    (h : Reaches e initial peers s path done p s' es) :
    let w := (e.walk initial ⟨seed initial path, none, none⟩ done).history peers s
    p = w.result ∧ s' = w.state ∧ es = Moment.events w.moments := by
  rw [Reaches, Job.run_record, List.nil_append] at h
  cases h
  exact ⟨rfl, rfl, rfl⟩

/-- A run goes on from each of its points. -/
theorem Reaches.run_execute {g : Graph} {path done later : List Vertex} {p : Progress} {s' : σ}
    {es : List Event} (hpath : g.path = .ok path) (hsplit : path = done ++ later)
    (h : Reaches e initial peers s path done p s' es) :
    (e.execute g initial).run peers Sink.record none 0 (s, []) =
      (e.remaining initial path later p).run peers Sink.record none 0 (s', es) := by
  obtain ⟨rfl, rfl, rfl⟩ := h.eq_history
  have hrun : e.execute g initial =
      e.walk initial ⟨seed initial path, none, none⟩ done >>= e.remaining initial path later := by
    rw [execute, hpath]
    dsimp only
    conv_lhs => rw [hsplit, walk_append e initial rfl, bind_assoc]
    rw [← hsplit]
    rfl
  rw [hrun, Job.run_record, Job.run_record, Job.history_bind]
  simp only [History.moments_after, History.result_after, History.state_after, events_append,
    List.nil_append]

/-! ### The turn that ends a walk -/

theorem history_walk_snoc {p : Progress} {done : List Vertex} (hp : p.failure? = none)
    (hd : ((e.walk initial p done).history peers s).result.failure? = none) (v : Vertex) :
    let h := (e.walk initial p done).history peers s
    let t := (e.visit initial h.result.store v).history peers h.state
    (e.walk initial p (done ++ [v])).history peers s =
      ⟨h.moments ++ t.moments, advance h.result v t.result, t.state⟩ := by
  dsimp only
  rw [walk_append e initial hp, Job.history_bind, proceed, hd, if_neg (by simp), history_walk_cons]
  dsimp only
  split
  · rfl
  · simp [walk, History.after]

/-- A walk that fails does so at one of its nodes, and all before it have come to their ends. -/
theorem exists_failed {p : Progress} (hp : p.failure? = none) {path : List Vertex} {f : Failure}
    (hf : ((e.walk initial p path).history peers s).result.failure? = some f) :
    ∃ done v later, path = done ++ v :: later ∧
      ((e.walk initial p done).history peers s).result.failure? = none ∧
      (e.walk initial p (done ++ [v])).history peers s =
        (e.walk initial p path).history peers s := by
  induction path generalizing p s with
  | nil =>
    rw [walk, Job.pure_eq, Job.history_done, hp] at hf
    cases hf
  | cons v r ih =>
    by_cases hv : (advance p v ((e.visit initial p.store v).history peers s).result).failure?.isSome
    · refine ⟨[], v, r, rfl, hp, ?_⟩
      rw [List.nil_append, history_walk_cons, history_walk_cons]
      dsimp only
      rw [if_pos hv, if_pos hv]
    · rw [history_walk_cons] at hf ⊢
      dsimp only at hf ⊢
      rw [if_neg hv] at hf ⊢
      obtain ⟨done, w, later, rfl, hnone, heq⟩ := ih (Option.not_isSome_iff_eq_none.1 hv) hf
      refine ⟨v :: done, w, later, rfl, ?_, ?_⟩
      · rw [history_walk_cons]
        dsimp only
        rw [if_neg hv]
        exact hnone
      · rw [List.cons_append, history_walk_cons]
        dsimp only
        rw [if_neg hv, heq]

theorem eq_error_of_advance {p : Progress} {v : Vertex} {r : Except Failure (Table Json)}
    {f : Failure} (h : (advance p v r).failure? = some f) : r = .error f := by
  cases r with
  | ok outputs => cases h
  | error f' =>
    obtain rfl := Option.some.inj h
    rfl

/-! ### The first node -/

theorem head_of_path {g : Graph} {path : List Vertex} (h : g.path = .ok path) :
    ∃ first rest, path = first :: rest ∧ first.kind? = some .start := by
  cases hs : g.start? with
  | none =>
    have hnone : ∀ v ∈ g.vertices, v.kind? ≠ some .start := by
      simpa [Graph.start?, List.find?_eq_none] using hs
    cases h.symm.trans (Graph.path_eq_error_iff.2 ⟨rfl, hnone⟩)
  | some first =>
    obtain ⟨rest, hpath⟩ := Graph.path_of_start? hs
    obtain rfl := Except.ok.inj (h.symm.trans hpath)
    exact ⟨first, rest, rfl, by simpa using List.find?_some hs⟩

/-- A start node puts out the initial inputs with its own over them. -/
theorem result_visit_start {first : Vertex} (hk : first.kind? = some .start)
    (hm : .start ∈ e.kinds) (store : Store) :
    ((e.visit initial store first).history peers s).result =
      .ok (initial.insertAll (store.inputs first.node).entries) := by
  rw [visit, kind_eq_ok_iff.2 ⟨hk, hm⟩]
  dsimp only
  rw [Node.history_run]
  rfl

/-- Where all initial inputs are put out again the seeds leave nothing behind. -/
theorem replay_seed_of_covered {first : Vertex} (rest : List Vertex) {l : List (String × Json)}
    {os : List (Reference × Json)} (h : (initial.insertAll l).outputsOf first.id ⊆ os) :
    (seed initial (first :: rest)).replay os = Store.empty.replay os := by
  rw [seed, Store.setAll_eq_replay]
  refine Store.replay_replay_of_covered fun o ho => ?_
  obtain ⟨⟨k, v⟩, hkv, rfl⟩ := List.mem_map.mp ho
  have hget : ((initial.insertAll l).get? k).isSome := by
    rw [Table.get?_insertAll, Table.get?_eq_some_iff.2 hkv]
    cases (l.reverse.find? (·.1 = k)).map Prod.snd <;> rfl
  obtain ⟨w, hw⟩ := Option.isSome_iff_exists.mp hget
  exact ⟨_, h (List.mem_map.mpr ⟨_, Table.get?_eq_some_iff.1 hw, rfl⟩), rfl⟩

variable (e initial peers s) in
/-- The outputs of a walk begin with those of its first node. -/
theorem outputs_of_walk_cons (p : Progress) (v : Vertex) (r : List Vertex) :
    Event.outputs (Moment.events ((e.visit initial p.store v).history peers s).moments) <+:
      Event.outputs (Moment.events ((e.walk initial p (v :: r)).history peers s).moments) := by
  rw [history_walk_cons]
  dsimp only
  split
  · exact List.prefix_rfl
  · rw [History.moments_after, events_append, Event.outputs_append]
    exact List.prefix_append _ _

/-- Once a start node has ended the reports alone make the store. -/
theorem Reaches.store_of_started {first : Vertex} {rest done : List Vertex} {p : Progress} {s' : σ}
    {es : List Event} (hk : first.kind? = some .start) (hm : .start ∈ e.kinds)
    (h : Reaches e initial peers s (first :: rest) (first :: done) p s' es) :
    p.store = Store.empty.replay (Event.outputs es) := by
  obtain ⟨rfl, -, rfl⟩ := h.eq_history
  let start : Progress := ⟨seed initial (first :: rest), none, none⟩
  have hfirst := (outputs_of_visit e initial peers start.store first s).1 _
    (result_visit_start hk hm _)
  have hsub := (outputs_of_walk_cons e initial peers s start first done).subset
  rw [hfirst] at hsub
  rw [← replay_seed_of_covered rest hsub]
  exact store_of_walk e initial peers (first :: done) start.store s

theorem Reaches.store_eq {first : Vertex} {rest done : List Vertex} {p : Progress} {s' : σ}
    {es : List Event} (h : Reaches e initial peers s (first :: rest) done p s' es) :
    p.store = Store.empty.replay (initial.outputsOf first.id ++ Event.outputs es) := by
  obtain ⟨rfl, -, rfl⟩ := h.eq_history
  rw [Store.replay_append, ← Store.setAll_eq_replay]
  exact store_of_walk e initial peers done _ s

/-! ### The end of a run -/

theorem mem_kinds_of_walk {p : Progress} {v : Vertex} {r : List Vertex} {k : Kind}
    (hk : v.kind? = some k)
    (h : ((e.walk initial p (v :: r)).history peers s).result.failure? = none) : k ∈ e.kinds := by
  by_contra hm
  have herror : e.kind v = .error (.noExecutor v.typeLabel) := by
    refine kind_eq_error_iff.2 ⟨?_, rfl⟩
    intro k' hk'
    obtain rfl := Option.some.inj (hk.symm.trans hk')
    exact hm
  rw [history_walk_cons, visit, herror] at h
  cases h

theorem run_execute_eq {g : Graph} {path : List Vertex} (hpath : g.path = .ok path) :
    (e.execute g initial).run peers Sink.record none 0 (s, []) =
      let w := (e.walk initial ⟨seed initial path, none, none⟩ path).history peers s
      (some (conclude path w.result), w.state, Moment.events w.moments) := by
  rw [Job.run_record, history_execute_of_ok hpath, List.nil_append]

theorem conclude_eq_error_iff {path : List Vertex} {p : Progress} {f : Failure} :
    conclude path p = .error f ↔ p.failure? = some f := by
  unfold conclude
  split <;> simp_all

theorem conclude_eq_ok {path : List Vertex} {p : Progress} {report : Report}
    (h : conclude path p = .ok report) : p.failure? = none ∧ report.values = p.store.values := by
  unfold conclude at h
  split at h
  · cases h
  · rename_i hn
    cases h
    exact ⟨hn, rfl⟩

/-- A run that fails on its path stops at a node that reports no output and writes none. -/
theorem exists_reaches_failed {g : Graph} {path : List Vertex} (hpath : g.path = .ok path)
    {f : Failure} {s' : σ} {es : List Event}
    (h : (e.execute g initial).run peers Sink.record none 0 (s, []) = (some (.error f), s', es)) :
    ∃ done v later p s₀ es₀ q, path = done ++ v :: later ∧
      Reaches e initial peers s path done p s₀ es₀ ∧ p.failure? = none ∧
      Reaches e initial peers s path (done ++ [v]) q s' es ∧ q.failure? = some f ∧
      Event.outputs es = Event.outputs es₀ ∧ q.store = p.store := by
  rw [run_execute_eq hpath] at h
  obtain ⟨hr, rfl, rfl⟩ : _ ∧ _ ∧ _ := by simpa only [Prod.mk.injEq, Option.some.injEq] using h
  have hf := conclude_eq_error_iff.1 hr
  obtain ⟨done, v, later, hsplit, hnone, heq⟩ := exists_failed rfl hf
  have hsnoc := history_walk_snoc rfl hnone v
  dsimp only at hsnoc
  rw [← heq] at hf ⊢
  refine ⟨done, v, later, _, _, _, _, hsplit, Job.run_record .., hnone, Job.run_record .., hf, ?_⟩
  rw [hsnoc] at hf ⊢
  have herror := eq_error_of_advance hf
  dsimp only
  rw [events_append, Event.outputs_append, herror,
    (outputs_of_visit e initial peers _ v _).2 _ herror, List.append_nil]
  exact ⟨rfl, rfl⟩

end Points

end Engine

/-- **Reports and variables.** At every point of a run on its path, the variables are the
initial inputs of the start node and then the outputs reported so far, each written in its
turn; once a start node has had its turn they are the outputs alone. A node that fails
reports no output and leaves them as they were, and the variables of a run that succeeds
are told by its reports. -/
theorem Engine.store_follows_reports {σ : Type} (e : Engine) (g : Graph) (initial : Table Json)
    (peers : Peers σ) (s : σ) :
    (∀ path, g.path = .ok path → ∃ first rest, path = first :: rest ∧ first.kind? = some .start ∧
      (∀ done later, path = done ++ later → ∃ p s' es,
        Reaches e initial peers s path done p s' es ∧
        (e.execute g initial).run peers Sink.record none 0 (s, []) =
          (e.remaining initial path later p).run peers Sink.record none 0 (s', es) ∧
        p.store = Store.empty.replay (initial.outputsOf first.id ++ Event.outputs es) ∧
        (.start ∈ e.kinds → done ≠ [] → p.store = Store.empty.replay (Event.outputs es))) ∧
      (∀ f s' es, (e.execute g initial).run peers Sink.record none 0 (s, []) =
          (some (.error f), s', es) →
        ∃ done v later p s₀ es₀ q, path = done ++ v :: later ∧
          Reaches e initial peers s path done p s₀ es₀ ∧ p.failure? = none ∧
          Reaches e initial peers s path (done ++ [v]) q s' es ∧ q.failure? = some f ∧
          q.store = Store.empty.replay (initial.outputsOf first.id ++ Event.outputs es) ∧
          Event.outputs es = Event.outputs es₀ ∧ q.store = p.store)) ∧
    (∀ report s' es, (e.execute g initial).run peers Sink.record none 0 (s, []) =
        (some (.ok report), s', es) →
      report.values = (Store.empty.replay (Event.outputs es)).values) := by
  constructor
  · intro path hpath
    obtain ⟨first, rest, rfl, hk⟩ := head_of_path hpath
    refine ⟨first, rest, rfl, hk, ?_, ?_⟩
    · intro done later hsplit
      obtain ⟨p, s', es, hr⟩ := exists_reaches e initial peers s (first :: rest) done
      refine ⟨p, s', es, hr, hr.run_execute hpath hsplit, hr.store_eq, ?_⟩
      intro hm hne
      obtain ⟨v, done, rfl⟩ := List.exists_cons_of_ne_nil hne
      obtain rfl : first = v := (List.cons.inj hsplit).1
      exact hr.store_of_started hk hm
    · intro f s' es h
      obtain ⟨done, v, later, p, s₀, es₀, q, hsplit, hp, hnone, hq, hf, hsame⟩ :=
        exists_reaches_failed hpath h
      exact ⟨done, v, later, p, s₀, es₀, q, hsplit, hp, hnone, hq, hf, hq.store_eq, hsame⟩
  · intro report s' es h
    cases hpath : g.path with
    | error f =>
      rw [Job.run_record, history_execute_of_error hpath] at h
      cases h
    | ok path =>
      obtain ⟨first, rest, rfl, hk⟩ := head_of_path hpath
      rw [run_execute_eq hpath] at h
      obtain ⟨hr, rfl, rfl⟩ : _ ∧ _ ∧ _ := by
        simpa only [Prod.mk.injEq, Option.some.injEq] using h
      obtain ⟨hnone, hvalues⟩ := conclude_eq_ok hr
      have hpoint : Reaches e initial peers s (first :: rest) (first :: rest) _ _ _ :=
        Job.run_record ..
      rw [hvalues, hpoint.store_of_started hk (mem_kinds_of_walk hk hnone)]
      rfl

/-! ## A podcast without a voice -/

/-- What the podcast is to be about. -/
def Samples.topic : Table Json := .ofList [("user_input", .string "rain")]

/-- The outputs of a podcast whose script is written. -/
def Samples.scripted : List (Reference × Json) :=
  [(⟨startId, "user_input"⟩, .string "rain"), (⟨llmId, "output"⟩, .string "hello")]

/-- Whether outputs are those, decided by their texts. -/
def Samples.isScripted : List (Reference × Json) → Bool
  | [(q, .string topic), (r, .string script)] =>
    q = ⟨startId, "user_input"⟩ ∧ topic = "rain" ∧ r = ⟨llmId, "output"⟩ ∧ script = "hello"
  | _ => false

theorem Samples.eq_scripted {os : List (Reference × Json)} (h : isScripted os = true) :
    os = scripted := by
  unfold isScripted at h
  split at h
  · obtain ⟨rfl, rfl, rfl, rfl⟩ : _ ∧ _ ∧ _ ∧ _ := of_decide_eq_true h
    rfl
  · cases h

theorem Engine.run_voiceless : ∃ g f s' es, Graph.ofDocument Samples.podcast = .ok g ∧
    ((standard default).execute g Samples.topic).run Script.peers Sink.record none 0
        (.replying "hello", []) = (some (.error f), s', es) ∧
      Event.outputs es = Samples.scripted := by
  have hall : (Graph.ofDocument Samples.podcast).toOption.any fun g =>
      let r := ((standard default).execute g Samples.topic).run Script.peers Sink.record none 0
        (.replying "hello", [])
      (r.1.any fun result => result.toOption.isNone) && Samples.isScripted (Event.outputs r.2.2) :=
    by decide +kernel
  cases hg : Graph.ofDocument Samples.podcast with
  | error f =>
    rw [hg] at hall
    cases hall
  | ok g =>
    rw [hg] at hall
    obtain ⟨hfails, houtputs⟩ := Bool.and_eq_true_iff.1 hall
    obtain ⟨result, hresult, hnone⟩ := (Option.any_eq_true _ _).1 hfails
    cases result with
    | ok report => cases hnone
    | error f => exact ⟨g, f, _, _, rfl, Prod.ext hresult rfl, Samples.eq_scripted houtputs⟩

/-- The topic and the script are kept when the voice fails, and nothing else is. -/
theorem Engine.store_follows_reports_voiceless :
    ∃ g path done v later f s' es q, Graph.ofDocument Samples.podcast = .ok g ∧
      g.path = .ok path ∧ path = done ++ v :: later ∧
      ((standard default).execute g Samples.topic).run Script.peers Sink.record none 0
        (.replying "hello", []) = (some (.error f), s', es) ∧
      Reaches (standard default) Samples.topic Script.peers (.replying "hello") path (done ++ [v])
        q s' es ∧ q.failure? = some f ∧ ∀ k, q.store.values.get? k =
        if k = "node-llm::002.output" then some (.string "hello")
        else if k = "node-start::001.user_input" then some (.string "rain") else none := by
  obtain ⟨g, f, s', es, hg, hrun, houtputs⟩ := run_voiceless
  have hreports := store_follows_reports (standard default) g Samples.topic Script.peers
    (.replying "hello")
  cases hpath : g.path with
  | error f' =>
    rw [Job.run_record, history_execute_of_error hpath] at hrun
    cases hrun
    cases houtputs
  | ok path =>
    obtain ⟨first, rest, -, -, hpoints, hfailed⟩ := hreports.1 path hpath
    obtain ⟨done, v, later, -, -, -, q, hsplit, -, -, hreach, hf, -⟩ := hfailed f s' es hrun
    refine ⟨g, path, done, v, later, f, s', es, q, hg, hpath, hsplit, hrun, hreach, hf, fun k => ?_⟩
    -- the point behind the node that failed is one of those whose variables are the reports alone
    obtain ⟨p, s₁, es₁, hagain, -, -, hstore⟩ := hpoints (done ++ [v]) later (by simp [hsplit])
    obtain ⟨rfl, rfl, rfl⟩ : q = p ∧ s' = s₁ ∧ es = es₁ := by simpa using hreach.symm.trans hagain
    rw [hstore (by decide) (by simp), houtputs]
    simp [Store.replay, Table.insertAll, Store.empty, Samples.scripted, Reference.key, Store.key,
      Samples.startId, Samples.llmId]

end Flowline
