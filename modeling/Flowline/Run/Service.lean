import Flowline.Run.Engine

/-! Running jobs: peers answer the questions, a sink takes the reports, and a limit bounds the time
that is spent waiting for answers. A run of the service is closed by one report of its own, which
says how it ended. -/

namespace Flowline

/-- An answer and how long it took, in milliseconds. -/
structure Reply (q : Query) where
  answer : q.Answer
  delay : Nat

/-- Whoever answers. What they answer may depend on all that they were asked before. -/
abbrev Peers (σ : Type) : Type := (q : Query) → σ → Reply q × σ

abbrev Sink (τ : Type) : Type := τ → Event → τ

/-- How far a job has come: to its end, to the end of its time, or to a question that has been
asked, with the time spent so far. -/
inductive Stage (α : Type) where
  | done (a : α)
  | expired
  | waiting (elapsed : Nat) (rest : Job α)

def withinLimit (limit : Option Nat) (time : Nat) : Bool := limit.all fun l => time ≤ l

namespace Job

variable {α σ τ : Type}

/-- Runs a job to its end, or until an answer would come too late. -/
def run (peers : Peers σ) (sink : Sink τ) (limit : Option Nat) :
    Nat → Job α → σ × τ → Option α × σ × τ
  | _, done a, s => (some a, s)
  | elapsed, emit e r, (s, t) => run peers sink limit elapsed r (s, sink t e)
  | elapsed, ask q r, (s, t) =>
    let (reply, s) := peers q s
    let elapsed := elapsed + reply.delay
    if withinLimit limit elapsed then run peers sink limit elapsed (r reply.answer) (s, t)
    else (none, s, t)

/-- Runs a job up to the first question whose answer takes time. -/
def turn (peers : Peers σ) (sink : Sink τ) (limit : Option Nat) :
    Nat → Job α → σ × τ → Stage α × σ × τ
  | _, done a, s => (.done a, s)
  | elapsed, emit e r, (s, t) => turn peers sink limit elapsed r (s, sink t e)
  | elapsed, ask q r, (s, t) =>
    let (reply, s) := peers q s
    if reply.delay = 0 then turn peers sink limit elapsed (r reply.answer) (s, t)
    else
      let elapsed := elapsed + reply.delay
      (if withinLimit limit elapsed then .waiting elapsed (r reply.answer) else .expired, s, t)

end Job

namespace Service

/-- The result of a run, which is a failure if its time is up. -/
def outcome (limit : Option Nat) (r : Option (Except Failure Report)) : Except Failure Report :=
  r.getD (.error (.timeout "run" (limit.getD 0 / 1000)))

def closing : Except Failure Report → Event
  | .ok _ => .complete "success"
  | .error f => .ofFailure f

def run {σ τ : Type} (peers : Peers σ) (sink : Sink τ) (limit : Option Nat)
    (job : Job (Except Failure Report)) (s : σ × τ) : Except Failure Report × σ × τ :=
  let (r, s, t) := job.run peers sink limit 0 s
  let result := outcome limit r
  (result, s, sink t (closing result))

end Service

/-! ## Runs side by side -/

/-- A run among others, with its own sink. -/
structure Thread (τ : Type) where
  stage : Stage (Except Failure Report)
  sink : τ

namespace Thread

variable {σ τ : Type}

def start (job : Job (Except Failure Report)) (t : τ) : Thread τ := ⟨.waiting 0 job, t⟩

def result? (limit : Option Nat) (r : Thread τ) : Option (Except Failure Report) :=
  match r.stage with
  | .done a => some (Service.outcome limit (some a))
  | .expired => some (Service.outcome limit none)
  | .waiting .. => none

/-- Gives a run its turn and reports its end when it comes. -/
def turn (peers : Peers σ) (sink : Sink τ) (limit : Option Nat) (r : Thread τ) (s : σ) :
    Thread τ × σ :=
  match r.stage with
  | .waiting elapsed job =>
    let (stage, s, t) := job.turn peers sink limit elapsed (s, r.sink)
    let r : Thread τ := ⟨stage, t⟩
    (match r.result? limit with
      | some a => { r with sink := sink t (Service.closing a) }
      | none => r, s)
  | _ => (r, s)

def round (peers : Peers σ) (sink : Sink τ) (limit : Option Nat) :
    List (Thread τ) → σ → List (Thread τ) × σ
  | [], s => ([], s)
  | r :: rs, s =>
    let (r, s) := r.turn peers sink limit s
    let (rs, s) := round peers sink limit rs s
    (r :: rs, s)

end Thread

end Flowline
