import Flowline.Proofs.Blocks

/-! # The closing report

A run of the service shows what its engine reports and then one report of its own.
The engine never closes a run itself, so that report is the only one of its kind, and
it is made from the very result that the run returns. When time runs out the engine's
reports are cut where it waits for the answer that would come too late. -/

namespace Flowline
open Moment

section Ends

variable {σ : Type} (peers : Peers σ) (budget : Nat)

/-- What a job shows and comes to within a budget of which some time is spent: everything
if that takes no more than the rest, and otherwise what it shows before the question
whose answer would come too late. -/
inductive Ends (spent : Nat) (job : Job (Except Failure Report)) (s : σ) :
    List Event → Except Failure Report → Prop
  | finished {result : Except Failure Report} {s' : σ} {es : List Event}
      (whole : job.run peers Sink.record none 0 (s, []) = (some result, s', es))
      (inTime : spent + waited (job.history peers s).moments ≤ budget) :
      Ends spent job s es result
  | expired {before : List Moment} {result : Except Failure Report} {s' : σ} {later : List Event}
      (late : Job.TooLate budget spent (job.history peers s).moments before)
      (whole : job.run peers Sink.record none 0 (s, []) =
        (some result, s', events before ++ later)) :
      Ends spent job s (events before) (.error (.timeout "run" (budget / 1000)))

/-- The same for a flow, which is fetched first: nothing is shown if it comes too late, not at
all, or makes no graph. -/
inductive FlowEnds (e : Engine) (initial : Table Json) (id : String) (s : σ) :
    List Event → Except Failure Report → Prop
  | late (late : budget < (peers (.flow id) s).1.delay) :
      FlowEnds e initial id s [] (.error (.timeout "run" (budget / 1000)))
  | missing {f : Failure} (inTime : (peers (.flow id) s).1.delay ≤ budget)
      (load : (peers (.flow id) s).1.answer = .error f) :
      FlowEnds e initial id s [] (.error f)
  | refused {d : Document} {f : Failure} (inTime : (peers (.flow id) s).1.delay ≤ budget)
      (load : (peers (.flow id) s).1.answer = .ok d) (graph : Graph.ofDocument d = .error f) :
      FlowEnds e initial id s [] (.error f)
  | begun {d : Document} {g : Graph} {es : List Event} {result : Except Failure Report}
      (inTime : (peers (.flow id) s).1.delay ≤ budget)
      (load : (peers (.flow id) s).1.answer = .ok d) (graph : Graph.ofDocument d = .ok g)
      (ends : Ends peers budget (peers (.flow id) s).1.delay (e.execute g initial)
        (peers (.flow id) s).2 es result) :
      FlowEnds e initial id s es result

end Ends

/-- The last of a run's reports closes it, none of those before it does, and it says how the
run ended. -/
structure Closed (es : List Event) (last : Event) (result : Except Failure Report) : Prop where
  open_before : ∀ x ∈ es, x.isTerminal = false
  closes : last.isTerminal = true
  success : last = .complete "success" ↔ ∃ report, result = .ok report
  failure : ∀ f, result = .error f → last = .runFailed f.kind f.message

/-! ## The engine closes no run -/

theorem Reported.isTerminal_eq_false {σ : Type} {e : Engine} {initial : Table Json}
    {peers : Peers σ} {g : Graph} {es : List Event} {result : Except Failure Report}
    (h : Reported e initial peers g es result) : ∀ x ∈ es, x.isTerminal = false := by
  intro x hx
  cases h with
  | nowhere => cases hx
  | finished path blocks values => exact (blocks.quiet x hx).2
  | stopped path blocks aborted =>
    obtain ⟨front, hfront, rfl⟩ := aborted.last
    rcases List.mem_append.mp hx with hx | hx
    · exact (blocks.quiet x hx).2
    · rcases List.mem_append.mp hx with hx | hx
      · exact (hfront x hx).2
      · rw [List.mem_singleton.mp hx]
        rfl

/-! ## Within a budget -/

section Within

variable {σ τ : Type} (peers : Peers σ) (sink : Sink τ)

/-- What a job shows within a budget is as said, and is open if everything that it shows is. -/
theorem ends_of_run {budget spent : Nat} (job : Job (Except Failure Report)) (s : σ) (t : τ)
    (hs : spent ≤ budget)
    (hopen : ∀ x ∈ events (job.history peers s).moments, x.isTerminal = false) :
    ∃ es r s', job.run peers sink (some budget) spent (s, t) = (r, s', es.foldl sink t) ∧
      Ends peers budget spent job s es (Service.outcome (some budget) r) ∧
      ∀ x ∈ es, x.isTerminal = false := by
  have hwhole := Job.run_unlimited peers Sink.record 0 job s []
  rw [Sink.foldl_record, List.nil_append] at hwhole
  rcases Job.run_within peers sink job s t hs with ⟨hw, hr⟩ | ⟨before, s', hl, hr⟩
  · exact ⟨_, _, _, hr, .finished hwhole hw, hopen⟩
  · have ⟨q, time, later, hms, _⟩ := hl
    rw [hms, events_append] at hwhole hopen
    refine ⟨_, _, _, hr, .expired hl hwhole, ?_⟩
    intro x hx
    exact hopen x (List.mem_append_left _ hx)

namespace Service

/-- The report that closes a run is made from its result. -/
theorem closed_closing {es : List Event} (result : Except Failure Report)
    (h : ∀ x ∈ es, x.isTerminal = false) : Closed es (closing result) result := by
  cases result with
  | ok report => exact ⟨h, rfl, ⟨fun _ => ⟨report, rfl⟩, fun _ => rfl⟩, by simp⟩
  | error f =>
    refine ⟨h, rfl, ?_, ?_⟩
    · simp [closing, Event.ofFailure]
    · intro f' hf
      cases hf
      rfl

theorem run_of_shown {limit : Option Nat} {job : Job (Except Failure Report)} {s s' : σ} {t : τ}
    {es : List Event} {r : Option (Except Failure Report)}
    (h : job.run peers sink limit 0 (s, t) = (r, s', es.foldl sink t)) :
    run peers sink limit job (s, t) =
      (outcome limit r, s', (es ++ [closing (outcome limit r)]).foldl sink t) := by
  unfold run
  rw [h, List.foldl_append]
  rfl

end Service

theorem flowEnds_of_run (e : Engine) (initial : Table Json) (budget : Nat) (id : String) (s : σ)
    (t : τ) :
    ∃ es r s', (e.executeFlow id initial).run peers sink (some budget) 0 (s, t) =
        (r, s', es.foldl sink t) ∧
      FlowEnds peers budget e initial id s es (Service.outcome (some budget) r) ∧
      ∀ x ∈ es, x.isTerminal = false := by
  rw [Engine.executeFlow, Job.query, Job.ask_bind, Job.run_ask, Nat.zero_add, Job.done_bind]
  by_cases hd : (peers (.flow id) s).1.delay ≤ budget
  · rw [if_pos (Job.withinLimit_some.2 hd)]
    cases hload : (peers (.flow id) s).1.answer with
    | error f => exact ⟨[], _, _, rfl, .missing hd hload, by simp⟩
    | ok d =>
      dsimp only
      cases hg : Graph.ofDocument d with
      | error f => exact ⟨[], _, _, rfl, .refused hd hload hg, by simp⟩
      | ok g =>
        obtain ⟨es, r, s', hr, hends, hopen⟩ := ends_of_run peers sink (e.execute g initial)
          (peers (.flow id) s).2 t hd (reported_of_execute e initial peers g _).isTerminal_eq_false
        exact ⟨es, r, s', hr, .begun hd hload hg hends, hopen⟩
  · rw [if_neg (mt Job.withinLimit_some.1 hd)]
    exact ⟨[], _, _, rfl, .late (Nat.lt_of_not_le hd), by simp⟩

end Within

/-- **The closing report.** Whatever the peers answer and however long they take, a run of the
service shows the reports of its engine, all of them or those before the answer that would
come too late, and then one report that closes it and agrees with the result. The same
holds of a graph that is at hand. -/
theorem Service.run_closed {σ τ : Type} (e : Engine) (initial : Table Json) (peers : Peers σ)
    (sink : Sink τ) (budget : Nat) (s : σ) (t : τ) :
    (∀ id, ∃ es last result s',
      Service.run peers sink (some budget) (e.executeFlow id initial) (s, t) =
        (result, s', (es ++ [last]).foldl sink t) ∧
      FlowEnds peers budget e initial id s es result ∧ Closed es last result) ∧
    (∀ g, ∃ es last result s',
      Service.run peers sink (some budget) (e.execute g initial) (s, t) =
        (result, s', (es ++ [last]).foldl sink t) ∧
      Ends peers budget 0 (e.execute g initial) s es result ∧ Closed es last result) := by
  constructor
  · intro id
    obtain ⟨es, r, s', hr, hends, hopen⟩ := flowEnds_of_run peers sink e initial budget id s t
    exact ⟨es, _, _, s', Service.run_of_shown peers sink hr, hends,
      Service.closed_closing _ hopen⟩
  · intro g
    obtain ⟨es, r, s', hr, hends, hopen⟩ := ends_of_run peers sink (e.execute g initial) s t
      (Nat.zero_le budget) (reported_of_execute e initial peers g s).isTerminal_eq_false
    exact ⟨es, _, _, s', Service.run_of_shown peers sink hr, hends,
      Service.closed_closing _ hopen⟩

end Flowline
