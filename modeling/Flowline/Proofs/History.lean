import Flowline.Run.Service

/-! # The history of a job

With given peers a job that is not cut short has one history: the events that it
reports and the questions that it asks, in order, each question with the time until
its answer, and the result in the end. Running the job shows its history to the sink;
within a limit, the part of it that comes before the first answer that is too late. -/

namespace Flowline

/-- A sink that keeps what it takes. -/
def Sink.record : Sink (List Event) := fun es e => es ++ [e]

theorem Sink.foldl_record (es t : List Event) : es.foldl Sink.record t = t ++ es := by
  induction es generalizing t with
  | nil => rw [List.foldl_nil, List.append_nil]
  | cons e es ih => rw [List.foldl_cons, ih, Sink.record, List.append_assoc, List.singleton_append]

/-- What the surroundings see of a job at a time. -/
inductive Moment where
  | event (e : Event)
  /-- A question, and the time until it was answered. -/
  | answer (q : Query) (time : Nat)

namespace Moment

/-- The events among some moments. -/
def events (ms : List Moment) : List Event := ms.filterMap fun
  | event e => some e
  | answer .. => none

/-- The time that some moments take together. -/
def waited : List Moment → Nat
  | [] => 0
  | event _ :: ms => waited ms
  | answer _ time :: ms => time + waited ms

@[simp] theorem events_nil : events [] = [] := rfl
@[simp] theorem events_event (e : Event) (ms : List Moment) :
    events (event e :: ms) = e :: events ms := rfl
@[simp] theorem events_answer (q : Query) (time : Nat) (ms : List Moment) :
    events (answer q time :: ms) = events ms := rfl
@[simp] theorem events_append (ms ns : List Moment) :
    events (ms ++ ns) = events ms ++ events ns := List.filterMap_append

@[simp] theorem events_map_event (es : List Event) : events (es.map event) = es := by
  induction es with
  | nil => rfl
  | cons e es ih => rw [List.map_cons, events_event, ih]

end Moment

open Moment

/-- All that happens, the result, and the peers as they are left. -/
structure History (σ α : Type) where
  moments : List Moment
  result : α
  state : σ

namespace History

variable {σ α : Type}

/-- The history with some moments before it. -/
def after (ms : List Moment) (h : History σ α) : History σ α :=
  { h with moments := ms ++ h.moments }

@[simp] theorem moments_after (ms : List Moment) (h : History σ α) :
    (h.after ms).moments = ms ++ h.moments := rfl
@[simp] theorem result_after (ms : List Moment) (h : History σ α) :
    (h.after ms).result = h.result := rfl
@[simp] theorem state_after (ms : List Moment) (h : History σ α) :
    (h.after ms).state = h.state := rfl

theorem after_after (ms ns : List Moment) (h : History σ α) :
    (h.after ns).after ms = h.after (ms ++ ns) := by
  simp only [after, List.append_assoc]

end History

namespace Job

variable {α β σ τ : Type}

/-- The history of a job among some peers. -/
def history (peers : Peers σ) : Job α → σ → History σ α
  | done a, s => ⟨[], a, s⟩
  | emit e r, s => (history peers r s).after [.event e]
  | ask q r, s =>
    let (reply, s) := peers q s
    (history peers (r reply.answer) s).after [.answer q reply.delay]

@[simp] theorem history_done (peers : Peers σ) (a : α) (s : σ) :
    (done a : Job α).history peers s = ⟨[], a, s⟩ := rfl
@[simp] theorem history_emit (peers : Peers σ) (e : Event) (r : Job α) (s : σ) :
    (emit e r).history peers s = (r.history peers s).after [.event e] := rfl
@[simp] theorem history_ask (peers : Peers σ) (q : Query) (r : q.Answer → Job α) (s : σ) :
    (ask q r).history peers s =
      ((r (peers q s).1.answer).history peers (peers q s).2).after
        [.answer q (peers q s).1.delay] := rfl

theorem history_bind (peers : Peers σ) (t : Job α) (f : α → Job β) (s : σ) :
    (t >>= f).history peers s =
      ((f (t.history peers s).result).history peers (t.history peers s).state).after
        (t.history peers s).moments := by
  induction t generalizing s with
  | done a => rfl
  | emit e r ih =>
    rw [emit_bind, history_emit, ih, history_emit, History.after_after]
    rfl
  | ask q r ih =>
    rw [ask_bind, history_ask, ih, history_ask, History.after_after]
    rfl

theorem history_reportAll (peers : Peers σ) (es : List Event) (s : σ) :
    (reportAll es).history peers s = ⟨es.map .event, (), s⟩ := by
  induction es with
  | nil => rfl
  | cons e es ih =>
    have hcons : reportAll (e :: es) = emit e (reportAll es) := List.forM_cons
    rw [hcons, history_emit, ih]
    rfl

/-! ## Running a job shows its history -/

theorem withinLimit_some {budget time : Nat} :
    withinLimit (some budget) time = true ↔ time ≤ budget := by
  simp [withinLimit]

theorem run_emit (peers : Peers σ) (sink : Sink τ) (limit : Option Nat) (elapsed : Nat)
    (e : Event) (r : Job α) (s : σ) (t : τ) :
    (emit e r).run peers sink limit elapsed (s, t) =
      r.run peers sink limit elapsed (s, sink t e) := rfl

theorem run_ask (peers : Peers σ) (sink : Sink τ) (limit : Option Nat) (elapsed : Nat)
    (q : Query) (r : q.Answer → Job α) (s : σ) (t : τ) :
    (ask q r).run peers sink limit elapsed (s, t) =
      if withinLimit limit (elapsed + (peers q s).1.delay) then
        (r (peers q s).1.answer).run peers sink limit (elapsed + (peers q s).1.delay)
          ((peers q s).2, t)
      else (none, (peers q s).2, t) := rfl

/-- Without a limit everything is shown. -/
theorem run_unlimited (peers : Peers σ) (sink : Sink τ) (elapsed : Nat) (job : Job α) (s : σ)
    (t : τ) : job.run peers sink none elapsed (s, t) =
      (some (job.history peers s).result, (job.history peers s).state,
        (events (job.history peers s).moments).foldl sink t) := by
  induction job generalizing elapsed s t with
  | done a => rfl
  | emit e r ih =>
    rw [run_emit, ih]
    rfl
  | ask q r ih =>
    rw [run_ask, withinLimit, Option.all_none, if_pos rfl, ih]
    rfl

theorem run_record (peers : Peers σ) (elapsed : Nat) (job : Job α) (s : σ) (es : List Event) :
    job.run peers Sink.record none elapsed (s, es) =
      (some (job.history peers s).result, (job.history peers s).state,
        es ++ events (job.history peers s).moments) := by
  rw [run_unlimited, Sink.foldl_record]

/-- The answer right after the moments `before` is the first one to come too late. -/
def TooLate (budget elapsed : Nat) (ms before : List Moment) : Prop :=
  ∃ q time later, ms = before ++ .answer q time :: later ∧
    elapsed + waited before ≤ budget ∧ budget < elapsed + waited before + time

theorem TooLate.event {budget elapsed : Nat} {ms before : List Moment} (e : Event)
    (h : TooLate budget elapsed ms before) :
    TooLate budget elapsed (.event e :: ms) (.event e :: before) := by
  obtain ⟨q, time, later, rfl, hb, hl⟩ := h
  exact ⟨q, time, later, rfl, hb, hl⟩

theorem TooLate.answer {budget elapsed : Nat} {ms before : List Moment} (q : Query)
    (time : Nat) (h : TooLate budget (elapsed + time) ms before) :
    TooLate budget elapsed (.answer q time :: ms) (.answer q time :: before) := by
  obtain ⟨q', time', later, rfl, hb, hl⟩ := h
  refine ⟨q', time', later, rfl, ?_, ?_⟩
  · rw [waited]
    omega
  · rw [waited]
    omega

/-- Within a budget either everything is shown, or what comes before the first answer
that is too late. -/
theorem run_within (peers : Peers σ) (sink : Sink τ) {budget elapsed : Nat} (job : Job α)
    (s : σ) (t : τ) (he : elapsed ≤ budget) :
    (elapsed + waited (job.history peers s).moments ≤ budget ∧
      job.run peers sink (some budget) elapsed (s, t) =
        (some (job.history peers s).result, (job.history peers s).state,
          (events (job.history peers s).moments).foldl sink t)) ∨
    ∃ before s', TooLate budget elapsed (job.history peers s).moments before ∧
      job.run peers sink (some budget) elapsed (s, t) =
        (none, s', (events before).foldl sink t) := by
  induction job generalizing elapsed s t with
  | done a => exact .inl ⟨he, rfl⟩
  | emit e r ih =>
    rcases ih s (sink t e) he with ⟨hw, hr⟩ | ⟨before, s', hb, hr⟩
    · exact .inl ⟨hw, by rw [run_emit, hr]; rfl⟩
    · exact .inr ⟨_, s', hb.event e, by rw [run_emit, hr]; rfl⟩
  | ask q r ih =>
    by_cases hd : elapsed + (peers q s).1.delay ≤ budget
    · rw [run_ask, if_pos (withinLimit_some.2 hd)]
      rcases ih (peers q s).1.answer (peers q s).2 t hd with ⟨hw, hr⟩ | ⟨before, s', hb, hr⟩
      · refine .inl ⟨?_, by rw [hr]; rfl⟩
        rw [history_ask, History.moments_after, List.singleton_append, waited]
        omega
      · exact .inr ⟨_, s', hb.answer q _, hr⟩
    · rw [run_ask, if_neg (mt withinLimit_some.1 hd)]
      refine .inr ⟨[], (peers q s).2, ⟨q, _, _, rfl, he, ?_⟩, rfl⟩
      rw [waited]
      omega

end Job

end Flowline
