import Flowline.Event.Channel
import Flowline.Proofs.Questions
import Flowline.Proofs.Stream

/-! # Tearing a channel down

A channel is torn down when it is closed or when its receiver goes away. Up to then what is
sent into it arrives, once and in order; from then on it takes nothing in. The run that
sends does not learn of it: its result, its questions and its reports are the same
whatever happens at the other end, and whenever. -/

namespace Flowline
namespace Channel

/-- What happens to a channel from without. -/
inductive Touch where
  | close
  | drop
  | receive

namespace Touch

def closes : Touch → Bool
  | close => true
  | _ => false

def tearsDown : Touch → Bool
  | receive => false
  | _ => true

end Touch

inductive Step where
  | emit (e : Event)
  | touch (o : Touch)

namespace Step

def closes : Step → Bool
  | emit _ => false
  | touch o => o.closes

def tearsDown : Step → Bool
  | emit _ => false
  | touch o => o.tearsDown

/-- The events that are sent in some steps. -/
def emitted (steps : List Step) : List Event := steps.filterMap fun
  | emit e => some e
  | touch _ => none

theorem tearsDown_touch (o : Touch) : (touch o).tearsDown = o.tearsDown := rfl

/-- While the receiver is there, only closing tears a channel down. -/
theorem takeWhile_tearsDown {steps : List Step} (h : touch .drop ∉ steps) :
    (steps.takeWhile fun x => !x.tearsDown) = steps.takeWhile fun x => !x.closes := by
  induction steps with
  | nil => rfl
  | cons x steps ih =>
    obtain ⟨hx, hsteps⟩ : touch .drop ≠ x ∧ touch .drop ∉ steps := by simpa using h
    have hagree : x.tearsDown = x.closes := by
      cases x with
      | emit e => rfl
      | touch o => cases o <;> first | rfl | exact absurd rfl hx
    rw [List.takeWhile_cons, List.takeWhile_cons, ih hsteps, hagree]

theorem not_tearsDown_iff (steps : List Step) : (steps.all fun x => !x.tearsDown) = true ↔
    touch .close ∉ steps ∧ touch .drop ∉ steps := by
  rw [List.all_eq_true]
  constructor
  · intro h
    exact ⟨fun hc => Bool.noConfusion (h _ hc), fun hd => Bool.noConfusion (h _ hd)⟩
  · rintro ⟨hc, hd⟩ x hx
    cases x with
    | emit e => rfl
    | touch o => cases o <;> first | rfl | contradiction

@[simp] theorem emitted_nil : emitted [] = [] := rfl
@[simp] theorem emitted_emit (e : Event) (steps : List Step) :
    emitted (emit e :: steps) = e :: emitted steps := rfl
@[simp] theorem emitted_touch (o : Touch) (steps : List Step) :
    emitted (touch o :: steps) = emitted steps := rfl

end Step

/-- A channel with all that has entered it and all that has come out of it. -/
structure Line where
  channel : Channel
  entered : List Event
  received : List Event

namespace Line

def fresh : Line := ⟨.empty, [], []⟩

/-- What enters is what the queue has gained. -/
def emit (l : Line) (e : Event) : Line :=
  { l with
    channel := l.channel.emit e
    entered := l.entered ++ (l.channel.emit e).queue.drop l.channel.queue.length }

def touch (l : Line) : Touch → Line
  | .close => { l with channel := l.channel.close }
  | .drop => { l with channel := l.channel.drop }
  | .receive =>
    { l with channel := l.channel.receive.2
             received := l.received ++ l.channel.receive.1.toList }

def step (l : Line) : Step → Line
  | .emit e => l.emit e
  | .touch o => l.touch o

def run (l : Line) (steps : List Step) : Line := steps.foldl step l

@[simp] theorem run_nil (l : Line) : l.run [] = l := rfl
@[simp] theorem run_cons (l : Line) (x : Step) (steps : List Step) :
    l.run (x :: steps) = (l.step x).run steps := rfl

theorem run_append (l : Line) (steps more : List Step) :
    l.run (steps ++ more) = (l.run steps).run more := List.foldl_append

/-! ## Activity -/

theorem isActive_step (l : Line) (x : Step) :
    (l.step x).channel.isActive = (l.channel.isActive && !x.tearsDown) := by
  cases x with
  | emit e => simp [step, emit, Step.tearsDown]
  | touch o => cases o <;> simp [step, touch, Step.tearsDown, Touch.tearsDown]

theorem isActive_run (l : Line) (steps : List Step) :
    (l.run steps).channel.isActive = (l.channel.isActive && steps.all fun x => !x.tearsDown) := by
  induction steps generalizing l with
  | nil => simp
  | cons x steps ih => rw [run_cons, ih, isActive_step, List.all_cons, Bool.and_assoc]

/-! ## What enters -/

theorem entered_emit (l : Line) (e : Event) :
    (l.emit e).entered = if l.channel.isActive then l.entered ++ [e] else l.entered := by
  rw [emit, queue_emit]
  split <;> simp

@[simp] theorem entered_touch (l : Line) (o : Touch) : (l.touch o).entered = l.entered := by
  cases o <;> rfl

theorem entered_run_of_inactive {l : Line} (h : l.channel.isActive = false)
    (steps : List Step) : (l.run steps).entered = l.entered := by
  induction steps generalizing l with
  | nil => rfl
  | cons x steps ih =>
    have hnext : (l.step x).channel.isActive = false := by simp [isActive_step, h]
    rw [run_cons, ih hnext]
    cases x with
    | emit e => simp [step, entered_emit, h]
    | touch o => exact l.entered_touch o

/-- What enters is what is sent before the channel is torn down. -/
theorem entered_run {l : Line} (h : l.channel.isActive = true) (steps : List Step) :
    (l.run steps).entered =
      l.entered ++ Step.emitted (steps.takeWhile fun x => !x.tearsDown) := by
  induction steps generalizing l with
  | nil => simp
  | cons x steps ih =>
    cases hx : x.tearsDown with
    | true =>
      have hnext : (l.step x).channel.isActive = false := by simp [isActive_step, hx]
      rw [run_cons, entered_run_of_inactive hnext]
      cases x with
      | emit e => cases hx
      | touch o => simp [step, hx]
    | false =>
      have hnext : (l.step x).channel.isActive = true := by simp [isActive_step, h, hx]
      rw [run_cons, ih hnext]
      cases x with
      | emit e => simp [step, entered_emit, h, hx]
      | touch o => simp [step, hx]

/-! ## What arrives -/

/-- All that has entered has come out or is still on its way. -/
def Balanced (l : Line) : Prop := l.received ++ l.channel.queue = l.entered

theorem Balanced.step {l : Line} (h : l.Balanced) {x : Step} (hx : x ≠ .touch .drop) :
    (l.step x).Balanced := by
  unfold Balanced at h ⊢
  cases x with
  | emit e =>
    rw [Line.step, entered_emit, emit, queue_emit]
    split <;> simp [← h]
  | touch o =>
    cases o with
    | close => exact h
    | drop => exact absurd rfl hx
    | receive =>
      rw [Line.step, entered_touch, ← h]
      cases hq : l.channel.queue <;> simp [touch, Channel.receive, hq]

theorem Balanced.run {l : Line} (h : l.Balanced) {steps : List Step}
    (hs : .touch .drop ∉ steps) : (l.run steps).Balanced := by
  induction steps generalizing l with
  | nil => exact h
  | cons x steps ih =>
    rw [List.mem_cons, not_or] at hs
    exact ih (h.step (Ne.symm hs.1)) hs.2

/-- The receiver is gone and there is nothing for it. -/
def Deserted (l : Line) : Prop := l.channel.queue = [] ∧ l.channel.dropped = true

theorem Deserted.step {l : Line} (h : l.Deserted) (x : Step) :
    (l.step x).Deserted ∧ (l.step x).received = l.received := by
  obtain ⟨⟨queue, closed, dropped⟩, entered, received⟩ := l
  obtain ⟨rfl, rfl⟩ := h
  cases x with
  | emit e => cases closed <;> exact ⟨⟨rfl, rfl⟩, rfl⟩
  | touch o => cases o <;> exact ⟨⟨rfl, rfl⟩, by simp [Line.step, touch, Channel.receive]⟩

theorem Deserted.received_run {l : Line} (h : l.Deserted) (steps : List Step) :
    (l.run steps).received = l.received := by
  induction steps generalizing l with
  | nil => rfl
  | cons x steps ih =>
    obtain ⟨hnext, hreceived⟩ := h.step x
    rw [run_cons, ih hnext, hreceived]

theorem received_run_drop (l : Line) (steps : List Step) :
    (l.run (.touch .drop :: steps)).received = l.received := by
  have hdeserted : (l.touch .drop).Deserted := ⟨rfl, rfl⟩
  exact hdeserted.received_run steps

/-! ## A run at the other end -/

/-- A sink whose channel is touched, before it takes event number `n`, by what the plan has
for `n`. -/
def under (plan : Nat → List Touch) : Sink (Line × Nat) := fun (l, n) e =>
  (((plan n).foldl touch l).emit e, n + 1)

/-- The steps of a channel that takes some events, the first of them number `n`. -/
def planned (plan : Nat → List Touch) : Nat → List Event → List Step
  | _, [] => []
  | n, e :: es => (plan n).map .touch ++ .emit e :: planned plan (n + 1) es

theorem foldl_under (plan : Nat → List Touch) (es : List Event) (l : Line) (n : Nat) :
    es.foldl (under plan) (l, n) = (l.run (planned plan n es), n + es.length) := by
  induction es generalizing l n with
  | nil => rfl
  | cons e es ih =>
    have htouch : (plan n).foldl touch l = l.run ((plan n).map .touch) := by
      rw [run, List.foldl_map]
      rfl
    rw [List.foldl_cons, under, ih, planned, run_append, run_cons, htouch]
    simp only [step, List.length_cons]
    congr 1
    omega

theorem emitted_touches (os : List Touch) (steps : List Step) :
    Step.emitted ((os.map Step.touch ++ steps).takeWhile fun x => !x.tearsDown) =
      if os.any Touch.tearsDown then []
      else Step.emitted (steps.takeWhile fun x => !x.tearsDown) := by
  induction os with
  | nil => rfl
  | cons o os ih => cases ho : o.tearsDown <;> simp_all [Step.tearsDown_touch]

/-- Before the channel is torn down it is sent the events whose numbers come before the first
one for which the plan has it torn down. -/
theorem emitted_planned {plan : Nat → List Touch} (es : List Event) {n k : Nat}
    (hbefore : ∀ i < k, (plan (n + i)).any Touch.tearsDown = false)
    (hat : (plan (n + k)).any Touch.tearsDown = true ∨ es.length ≤ k) :
    Step.emitted ((planned plan n es).takeWhile fun x => !x.tearsDown) = es.take k := by
  induction es generalizing n k with
  | nil => simp [planned]
  | cons e es ih =>
    rw [planned, emitted_touches]
    cases k with
    | zero =>
      have hnow : (plan n).any Touch.tearsDown = true := by simpa using hat
      rw [if_pos hnow, List.take_zero]
    | succ k =>
      have hnow : (plan n).any Touch.tearsDown = false := hbefore 0 (Nat.zero_lt_succ k)
      have hlater : Step.emitted ((planned plan (n + 1) es).takeWhile fun x => !x.tearsDown) =
          es.take k := by
        refine ih (fun i hi => ?_) ?_
        · rw [Nat.add_right_comm]
          exact hbefore (i + 1) (Nat.succ_lt_succ hi)
        · rw [Nat.add_right_comm]
          exact hat.imp_right Nat.le_of_succ_le_succ
      have hsent : (Step.emit e).tearsDown = false := rfl
      simp [hnow, hsent, hlater]

end Line

theorem emitAll_empty (es : List Event) : empty.emitAll es = ⟨es, false, false⟩ := by
  have hopen (queue : List Event) : es.foldl emit ⟨queue, false, false⟩ =
      ⟨queue ++ es, false, false⟩ := by
    induction es generalizing queue with
    | nil => simp
    | cons e es ih =>
      have hemit : emit ⟨queue, false, false⟩ e = ⟨queue ++ [e], false, false⟩ := rfl
      rw [List.foldl_cons, hemit, ih, List.append_assoc, List.singleton_append]
  exact hopen []

/-! ## Main statement -/

/-- **Teardown.** Whatever is done to a fresh channel: what has been received and what is queued
are the events sent before it was first closed, as long as the receiver lives, and nothing
is received once it is gone; the channel is active as long as it has neither been closed
nor lost its receiver, and never again. A run of the service comes to the same result, asks
the same questions and leaves the same peers whatever is done to its channel before each of
its events; and if that tears the channel down first before event number `k`, the first
`k` events of the run have entered it. -/
theorem teardown_harmless :
    (∀ steps, let l := Line.fresh.run steps
      (.touch .drop ∉ steps → l.received ++ l.channel.queue =
        Step.emitted (steps.takeWhile fun x => !x.closes)) ∧
      (∀ before after, steps = before ++ .touch .drop :: after →
        l.received = (Line.fresh.run before).received) ∧
      (l.channel.isActive = true ↔ .touch .close ∉ steps ∧ .touch .drop ∉ steps) ∧
      ∀ more, (l.run more).channel.isActive = true → l.channel.isActive = true) ∧
    ∀ {σ : Type} (peers : Peers σ) (limit : Option Nat) (job : Job (Except Failure Report)) (s : σ),
      ∃ result s' asked es,
        Service.run peers.noting emit limit job ((s, []), empty) =
          (result, (s', asked), ⟨es, false, false⟩) ∧
        ∀ plan, ∃ l : Line,
          Service.run peers.noting (Line.under plan) limit job ((s, []), (.fresh, 0)) =
            (result, (s', asked), (l, es.length)) ∧
          ∀ k, (∀ i < k, (plan i).any Touch.tearsDown = false) →
            (plan k).any Touch.tearsDown = true ∨ es.length ≤ k → l.entered = es.take k := by
  constructor
  · intro steps
    dsimp only
    refine ⟨?_, ?_, ?_, ?_⟩
    · intro hdrop
      have hfresh : Line.fresh.Balanced := rfl
      have hbalanced : (Line.fresh.run steps).Balanced := hfresh.run hdrop
      rw [hbalanced, Line.entered_run rfl, Step.takeWhile_tearsDown hdrop]
      rfl
    · rintro before after rfl
      rw [Line.run_append, Line.received_run_drop]
    · have hfresh : Line.fresh.channel.isActive = true := rfl
      rw [Line.isActive_run, hfresh, Bool.true_and, Step.not_tearsDown_iff]
    · intro more hmore
      rw [Line.isActive_run, Bool.and_eq_true] at hmore
      exact hmore.1
  · intro σ peers limit job s
    have hrun (τ : Type) (sink : Sink τ) (t : τ) :=
      Service.run_foldl peers.noting sink limit job (s, []) t
    generalize Service.run peers.noting Sink.record limit job ((s, []), []) = r at hrun
    obtain ⟨result, ⟨s', asked⟩, es⟩ := r
    refine ⟨result, s', asked, es, ?_, ?_⟩
    · rw [hrun, ← emitAll_empty]
      rfl
    · intro plan
      refine ⟨Line.fresh.run (Line.planned plan 0 es), ?_, ?_⟩
      · rw [hrun]
        simp [Line.foldl_under]
      · intro k hbefore hat
        rw [Line.entered_run rfl, Line.emitted_planned es (by simpa using hbefore)
          (by simpa using hat)]
        rfl

end Channel
end Flowline
