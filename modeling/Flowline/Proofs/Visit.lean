import Flowline.Proofs.History
import Flowline.Run.Engine

/-! # The history of a run, node by node

The history of a node's turn is its first report, what its action does, and the
reports that close the turn, which depend on the outcome alone. A run is one turn
after another up to the first that fails, so whatever every turn preserves holds
when the run ends. -/

namespace Flowline
open Moment

variable {σ : Type}

/-! ## One node -/

/-- What an action announces before it asks. -/
def Action.notices (node : String) : Action → List Event
  | publish _ => []
  | prompt p => [.thinking node p.text]
  | speak s => [.voiceStart node s.voice s.text.length]

theorem Action.events_perform (node : String) (a : Action) (peers : Peers σ) (s : σ) :
    events ((a.perform node).history peers s).moments = a.notices node := by
  cases a <;> rfl

namespace Node

/-- What a node does between its first report and the reports that close its turn. -/
def attempt (d : Defaults) (initial : Table Json) (store : Store) (k : Kind) (n : Node) :
    Job (Except Failure (Table Json)) :=
  match Action.ofNode d initial store k n with
  | .ok a => a.perform n.id
  | .error f => pure (.error f)

/-- The reports that close the turn of a node. -/
def closing (n : Node) : Except Failure (Table Json) → List Event
  | .ok outputs => n.outputEvents outputs ++ [.nodeEnd n.id n.typeName]
  | .error f => [.nodeError n.id f.message]

theorem run_eq (d : Defaults) (initial : Table Json) (store : Store) (k : Kind) (n : Node) :
    n.run d initial store k = (do
      Job.report (.nodeStart n.id n.typeName)
      let outcome ← n.attempt d initial store k
      Job.reportAll (n.closing outcome)
      return outcome) := by
  have hok (outputs : Table Json) : Job.reportAll (n.closing (.ok outputs)) = (do
      Job.reportAll (n.outputEvents outputs)
      Job.report (.nodeEnd n.id n.typeName)) := List.forM_append
  unfold run attempt
  refine congrArg (Job.emit _) ?_
  cases Action.ofNode d initial store k n with
  | ok a =>
    refine bind_congr fun outcome => ?_
    cases outcome with
    | ok outputs => rw [hok, bind_assoc]
    | error f => rfl
  | error f => rfl

theorem history_run (d : Defaults) (initial : Table Json) (store : Store) (k : Kind) (n : Node)
    (peers : Peers σ) (s : σ) :
    (n.run d initial store k).history peers s =
      let h := (n.attempt d initial store k).history peers s
      ⟨.event (.nodeStart n.id n.typeName) :: (h.moments ++ (n.closing h.result).map .event),
        h.result, h.state⟩ := by
  simp only [run_eq, Job.history_bind, Job.history_reportAll, Job.report, Job.pure_eq,
    Job.history_emit, Job.history_done, History.after, List.append_nil, List.singleton_append]

end Node

namespace Engine

theorem kind_eq_ok_iff {e : Engine} {v : Vertex} {k : Kind} :
    e.kind v = .ok k ↔ v.kind? = some k ∧ k ∈ e.kinds := by
  unfold kind require
  cases hv : v.kind? with
  | none => simp
  | some k' =>
    by_cases hk : k' ∈ e.kinds
    · simp only [if_pos hk, Except.ok.injEq, Option.some.injEq]
      exact ⟨fun h => ⟨h, h ▸ hk⟩, fun h => h.1⟩
    · simp only [if_neg hk, reduceCtorEq, Option.some.injEq, false_iff, not_and]
      exact fun h => h ▸ hk

/-- A node whose kind is unknown or cannot be run has no executor for its type. -/
theorem kind_eq_error_iff {e : Engine} {v : Vertex} {f : Failure} :
    e.kind v = .error f ↔ (∀ k, v.kind? = some k → k ∉ e.kinds) ∧ f = .noExecutor v.typeLabel := by
  unfold kind require Vertex.typeLabel
  cases hv : v.kind? with
  | none => simp [eq_comm]
  | some k =>
    by_cases hk : k ∈ e.kinds
    · simp [hk]
    · simp [hk, eq_comm]

/-! ## A path -/

section Walk

variable (e : Engine) (initial : Table Json) (peers : Peers σ)

theorem history_walk_cons (p : Progress) (v : Vertex) (r : List Vertex) (s : σ) :
    (e.walk initial p (v :: r)).history peers s =
      let h := (e.visit initial p.store v).history peers s
      if (advance p v h.result).failure?.isSome then ⟨h.moments, advance p v h.result, h.state⟩
      else ((e.walk initial (advance p v h.result) r).history peers h.state).after h.moments := by
  rw [walk, Job.history_bind]
  dsimp only
  split
  · simp only [History.after, Job.pure_eq, Job.history_done, List.append_nil]
  · rfl

/-- What holds of the nodes done, the moments passed, the progress and the peers at the
start of a walk, and is preserved by the turn of any node while nothing has failed, holds
when the walk ends: at the end of the path, or at a node that failed. -/
theorem walk_invariant (Inv : List Vertex → List Moment → Progress → σ → Prop)
    (step : ∀ done ms p s v, p.failure? = none → Inv done ms p s →
      let h := (e.visit initial p.store v).history peers s
      Inv (done ++ [v]) (ms ++ h.moments) (advance p v h.result) h.state)
    (path done : List Vertex) (ms : List Moment) (p : Progress) (s : σ)
    (hp : p.failure? = none) (hinv : Inv done ms p s) :
    let h := (e.walk initial p path).history peers s
    ∃ now later, path = now ++ later ∧ Inv (done ++ now) (ms ++ h.moments) h.result h.state ∧
      (h.result.failure? = none → later = []) := by
  induction path generalizing done ms p s with
  | nil => exact ⟨[], [], rfl, by simpa [walk] using hinv, fun _ => rfl⟩
  | cons v r ih =>
    have hstep := step done ms p s v hp hinv
    rw [history_walk_cons]
    dsimp only at hstep ⊢
    split
    · rename_i hf
      refine ⟨[v], r, rfl, hstep, ?_⟩
      intro hn
      rw [hn] at hf
      cases hf
    · rename_i hf
      obtain ⟨now, later, hr, hi, hl⟩ :=
        ih _ _ _ _ (Option.not_isSome_iff_eq_none.1 hf) hstep
      refine ⟨v :: now, later, by rw [hr, List.cons_append], ?_, hl⟩
      simpa only [List.append_assoc, List.singleton_append, History.moments_after,
        History.result_after, History.state_after] using hi

end Walk

theorem history_execute_of_error {e : Engine} {g : Graph} {f : Failure} (h : g.path = .error f)
    (initial : Table Json) (peers : Peers σ) (s : σ) :
    (e.execute g initial).history peers s = ⟨[], .error f, s⟩ := by
  rw [execute, h]
  rfl

theorem history_execute_of_ok {e : Engine} {g : Graph} {path : List Vertex}
    (h : g.path = .ok path) (initial : Table Json) (peers : Peers σ) (s : σ) :
    (e.execute g initial).history peers s =
      let w := (e.walk initial ⟨seed initial path, none, none⟩ path).history peers s
      ⟨w.moments, conclude path w.result, w.state⟩ := by
  rw [execute, h]
  dsimp only
  rw [Job.history_bind]
  simp only [History.after, Job.pure_eq, Job.history_done, List.append_nil]

end Engine

end Flowline
