import Flowline.Proofs.Questions

/-! # The turn of a single node

A node that lacks something asks nothing, and its turn is closed by the failure. A node that asks
one question announces it, asks, and closes its turn by what it makes of the answer. What it then
leaves in the store is the outputs that it reported, and nothing if it failed. -/

namespace Flowline

/-! ## Reports and questions -/

namespace Node

variable {σ : Type} {d : Defaults} {initial : Table Json} {store : Store} {k : Kind} {n : Node}

theorem run_of_refused {f : Failure} (h : Action.ofNode d initial store k n = .error f)
    (peers : Peers σ) (s : σ) :
    (n.run d initial store k).run peers.noting Sink.record none 0 ((s, []), []) =
      (some (.error f), (s, []), [.nodeStart n.id n.typeName, .nodeError n.id f.message]) := by
  have hattempt : n.attempt d initial store k = .done (.error f) := by
    rw [attempt, h]
    rfl
  rw [Job.run_record, history_run, hattempt]
  rfl

theorem run_of_asks {a : Action} {e : Event} {q : Query}
    {outcome : q.Answer → Except Failure (Table Json)}
    (h : Action.ofNode d initial store k n = .ok a)
    (ha : a.perform n.id = .emit e (.ask q fun r => .done (outcome r))) (peers : Peers σ) (s : σ) :
    (n.run d initial store k).run peers.noting Sink.record none 0 ((s, []), []) =
      (some (outcome (peers q s).1.answer), ((peers q s).2, [q]),
        [.nodeStart n.id n.typeName, e] ++ n.closing (outcome (peers q s).1.answer)) := by
  have hattempt : n.attempt d initial store k = .emit e (.ask q fun r => .done (outcome r)) := by
    rw [attempt, h]
    exact ha
  rw [Job.run_record, history_run, hattempt]
  simp [Peers.noting]

end Node

/-! ## The store -/

namespace Store

/-- One output alone is written like any output. -/
theorem setAll_single (s : Store) (node name : String) (v : Json) :
    s.setAll node (Table.ofList [(name, v)]) = s.set node name v := rfl

/-- An output is found under its key, and no other key is touched. -/
theorem values_set (s : Store) (node name : String) (v : Json) (k : String) :
    (s.set node name v).values.get? k =
      if k = key node name then some v else s.values.get? k := Table.get?_insert ..

end Store

end Flowline
