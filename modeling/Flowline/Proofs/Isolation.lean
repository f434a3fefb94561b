import Flowline.Document.Samples
import Flowline.Proofs.Questions
import Flowline.Proofs.Replay
import Flowline.Run.Script

/-! # Runs side by side

Any number of runs share the peers and take turns in any order; a turn lasts until the
first question whose answer takes time. If the chat model and the tool service answer by
the request alone, none of the runs can tell that there are others: each one reports and
comes to what it does alone, and at every time its variables are told by its own inputs
and reports. -/

namespace Flowline
open Moment

/-! ## Services without memory -/

/-- A chat model and a tool service that answer by the request alone. -/
structure Services where
  chat : ChatRequest → Except Failure String
  call : ToolCall → Except Failure Json

namespace Services

/-- The run of a graph fetches no flow. -/
def answer (v : Services) : (q : Query) → q.Answer
  | .flow id => .error (.flowNotFound id)
  | .chat r => v.chat r
  | .call c => v.call c

/-- Peers that answer at once and do nothing else. -/
def peers (v : Services) : Peers Unit := fun q s => (⟨v.answer q, 0⟩, s)

end Services

/-- The peers answer for the services; what they remember and how long they take is free. -/
structure Peers.Steady {σ : Type} (peers : Peers σ) (v : Services) : Prop where
  chat (r : ChatRequest) (s : σ) : (peers (.chat r) s).1.answer = v.chat r
  call (c : ToolCall) (s : σ) : (peers (.call c) s).1.answer = v.call c

namespace Job

variable {α β σ τ : Type}

/-- The job fetches no flow. -/
inductive Fetchless : Job α → Prop
  | done (a : α) : Fetchless (.done a)
  | emit {e : Event} {r : Job α} (rest : Fetchless r) : Fetchless (.emit e r)
  | ask {q : Query} {r : q.Answer → Job α} (query : ∀ id, q ≠ .flow id)
      (rest : ∀ a, Fetchless (r a)) : Fetchless (.ask q r)

theorem Announced.fetchless {job : Job α} (h : job.Announced) : job.Fetchless := by
  induction h with
  | done a => exact .done a
  | emit quiet rest ih => exact .emit ih
  | ask announced rest ih =>
    refine .emit (.ask ?_ ih)
    rintro id rfl
    exact announced

/-- When the services have answered what the job asked and it has reported the events, this is
left of it. -/
inductive Resumes (v : Services) : Job α → List Event → Job α → Prop
  | refl (job : Job α) : Resumes v job [] job
  | emit {e : Event} {r rest : Job α} {es : List Event} (h : Resumes v r es rest) :
      Resumes v (.emit e r) (e :: es) rest
  | ask {q : Query} {r : q.Answer → Job α} {rest : Job α} {es : List Event}
      (h : Resumes v (r (v.answer q)) es rest) : Resumes v (.ask q r) es rest

theorem turn_ask (peers : Peers σ) (sink : Sink τ) (limit : Option Nat) (elapsed : Nat)
    (q : Query) (r : q.Answer → Job α) (s : σ) (t : τ) :
    (ask q r).turn peers sink limit elapsed (s, t) =
      if (peers q s).1.delay = 0 then
        (r (peers q s).1.answer).turn peers sink limit elapsed ((peers q s).2, t)
      else
        (if withinLimit limit (elapsed + (peers q s).1.delay) then
          .waiting (elapsed + (peers q s).1.delay) (r (peers q s).1.answer)
        else .expired, (peers q s).2, t) := rfl

variable {v : Services}

theorem Resumes.trans {a b c : Job α} {es fs : List Event} (h : Resumes v a es b)
    (h' : Resumes v b fs c) : Resumes v a (es ++ fs) c := by
  induction h with
  | refl job => exact h'
  | emit h ih => exact .emit (ih h')
  | ask h ih => exact .ask (ih h')

theorem Resumes.fetchless {job rest : Job α} {es : List Event} (h : Resumes v job es rest)
    (hj : job.Fetchless) : rest.Fetchless := by
  induction h with
  | refl job => exact hj
  | emit h ih =>
    cases hj with
    | emit hr => exact ih hr
  | ask h ih =>
    cases hj with
    | ask hq hr => exact ih (hr _)

/-- What is left of a job has its history after what has been reported. -/
theorem Resumes.history {job rest : Job α} {es : List Event} (h : Resumes v job es rest) :
    events (job.history v.peers ()).moments = es ++ events (rest.history v.peers ()).moments ∧
      (job.history v.peers ()).result = (rest.history v.peers ()).result := by
  induction h with
  | refl job => exact ⟨rfl, rfl⟩
  | emit h ih => simpa using ih
  | ask h ih => simpa [Services.peers] using ih

theorem Resumes.bind {t c : Job α} {es : List Event} (h : Resumes v t es c) (f : α → Job β) :
    Resumes v (t >>= f) es (c >>= f) := by
  induction h with
  | refl job => exact .refl _
  | emit h ih => exact .emit ih
  | ask h ih => exact .ask ih

theorem Resumes.bind_cases {t : Job α} {f : α → Job β} {es : List Event} {rest : Job β}
    (h : Resumes v (t >>= f) es rest) :
    (∃ c, Resumes v t es c ∧ rest = c >>= f) ∨
      ∃ a fs gs, es = fs ++ gs ∧ Resumes v t fs (.done a) ∧ Resumes v (f a) gs rest := by
  induction t generalizing es with
  | done a => exact .inr ⟨a, [], es, rfl, .refl _, h⟩
  | emit e r ih =>
    cases h with
    | refl => exact .inl ⟨_, .refl _, rfl⟩
    | emit h =>
      rcases ih h with ⟨c, hc, hrest⟩ | ⟨a, fs, gs, rfl, ha, hg⟩
      · exact .inl ⟨c, .emit hc, hrest⟩
      · exact .inr ⟨a, e :: fs, gs, rfl, .emit ha, hg⟩
  | ask q r ih =>
    cases h with
    | refl => exact .inl ⟨_, .refl _, rfl⟩
    | ask h =>
      rcases ih _ h with ⟨c, hc, hrest⟩ | ⟨a, fs, gs, rfl, ha, hg⟩
      · exact .inl ⟨c, .ask hc, hrest⟩
      · exact .inr ⟨a, fs, gs, rfl, .ask ha, hg⟩

end Job

namespace Peers.Steady

variable {α σ τ : Type} {peers : Peers σ} {v : Services}

theorem answer (h : peers.Steady v) {q : Query} (hq : ∀ id, q ≠ .flow id) (s : σ) :
    (peers q s).1.answer = v.answer q := by
  cases q with
  | flow id => exact absurd rfl (hq id)
  | chat r => exact h.chat r s
  | call c => exact h.call c s

/-- Alone, a job does among the peers what it does among the services. -/
theorem history (h : peers.Steady v) {job : Job α} (hj : job.Fetchless) (s : σ) :
    events (job.history peers s).moments = events (job.history v.peers ()).moments ∧
      (job.history peers s).result = (job.history v.peers ()).result := by
  induction hj generalizing s with
  | done a => exact ⟨rfl, rfl⟩
  | emit rest ih => simpa using ih s
  | ask hq rest ih =>
    rw [Job.history_ask, Job.history_ask, h.answer hq]
    simpa [Services.peers] using ih _ _

/-- A turn takes a job to its end or over a question. -/
theorem turn (h : peers.Steady v) (sink : Sink τ) {job : Job α} (hj : job.Fetchless)
    (elapsed : Nat) (s : σ) (t : τ) :
    ∃ stage s' es, job.turn peers sink none elapsed (s, t) = (stage, s', es.foldl sink t) ∧
      ((∃ a, stage = .done a ∧ job.Resumes v es (.done a)) ∨
        ∃ later rest, stage = .waiting later rest ∧ job.Resumes v es rest ∧
          (questions (rest.history v.peers ()).moments).length <
            (questions (job.history v.peers ()).moments).length) := by
  induction hj generalizing elapsed s t with
  | done a => exact ⟨.done a, s, [], rfl, .inl ⟨a, rfl, .refl _⟩⟩
  | @emit e r rest ih =>
    obtain ⟨stage, s', es, hturn, hcase⟩ := ih elapsed s (sink t e)
    refine ⟨stage, s', e :: es, hturn, ?_⟩
    rcases hcase with ⟨a, hstage, hes⟩ | ⟨later, rest, hstage, hes, hless⟩
    · exact .inl ⟨a, hstage, .emit hes⟩
    · exact .inr ⟨later, rest, hstage, .emit hes, by simpa using hless⟩
  | @ask q r hq rest ih =>
    have hhistory : questions ((Job.ask q r).history v.peers ()).moments =
        q :: questions ((r (v.answer q)).history v.peers ()).moments := by
      simp [Services.peers]
    rw [Job.turn_ask, h.answer hq, hhistory, List.length_cons]
    by_cases hd : (peers q s).1.delay = 0
    · obtain ⟨stage, s', es, hturn, hcase⟩ := ih (v.answer q) elapsed (peers q s).2 t
      refine ⟨stage, s', es, by simpa [hd] using hturn, ?_⟩
      rcases hcase with ⟨a, hstage, hes⟩ | ⟨later, rest, hstage, hes, hless⟩
      · exact .inl ⟨a, hstage, .ask hes⟩
      · exact .inr ⟨later, rest, hstage, .ask hes, hless.trans (Nat.lt_succ_self _)⟩
    · refine ⟨.waiting (elapsed + (peers q s).1.delay) (r (v.answer q)), (peers q s).2, [], ?_, ?_⟩
      · simp [hd, withinLimit]
      · exact .inr ⟨_, _, rfl, .ask (.refl _), Nat.lt_succ_self _⟩

end Peers.Steady

/-! ## Interleavings -/

namespace Thread

variable {σ τ : Type}

/-- Gives turns to the runs whose numbers are on a schedule. -/
def interleave (peers : Peers σ) (sink : Sink τ) (limit : Option Nat) :
    List Nat → List (Thread τ) → σ → List (Thread τ) × σ
  | [], rs, s => (rs, s)
  | i :: schedule, rs, s =>
    match rs[i]? with
    | none => interleave peers sink limit schedule rs s
    | some r =>
      let (r, s) := r.turn peers sink limit s
      interleave peers sink limit schedule (rs.set i r) s

theorem interleave_range' (peers : Peers σ) (sink : Sink τ) (limit : Option Nat)
    (before rs : List (Thread τ)) (s : σ) :
    interleave peers sink limit (List.range' before.length rs.length) (before ++ rs) s =
      (before ++ (round peers sink limit rs s).1, (round peers sink limit rs s).2) := by
  induction rs generalizing before s with
  | nil => simp [interleave, round]
  | cons r rs ih =>
    have hnext := ih (before ++ [(r.turn peers sink limit s).1]) (r.turn peers sink limit s).2
    simp only [List.length_append, List.length_singleton, List.append_assoc,
      List.singleton_append] at hnext
    rw [List.length_cons, List.range'_succ, interleave]
    simp [round, hnext]

/-- A round gives one turn to each run. -/
theorem round_eq_interleave (peers : Peers σ) (sink : Sink τ) (limit : Option Nat)
    (rs : List (Thread τ)) (s : σ) :
    round peers sink limit rs s = interleave peers sink limit (List.range rs.length) rs s := by
  rw [List.range_eq_range']
  exact (interleave_range' peers sink limit [] rs s).symm

/-- A run is what its job, begun with its sink in some state, is in the middle of. -/
inductive OnCourse (v : Services) (sink : Sink τ) (job : Job (Except Failure Report)) (t : τ) :
    Thread τ → Prop
  | waiting {elapsed : Nat} {rest : Job (Except Failure Report)} {es : List Event}
      (resumes : job.Resumes v es rest) :
      OnCourse v sink job t ⟨.waiting elapsed rest, es.foldl sink t⟩
  | done {result : Except Failure Report} {es : List Event}
      (resumes : job.Resumes v es (.done result)) :
      OnCourse v sink job t ⟨.done result, (es ++ [Service.closing result]).foldl sink t⟩

/-- No more turns than this are left of a run. -/
def turnsLeft (v : Services) (r : Thread τ) : Nat :=
  match r.stage with
  | .waiting _ job => (questions (job.history v.peers ()).moments).length + 1
  | _ => 0

variable {peers : Peers σ} {v : Services} {sink : Sink τ} {job : Job (Except Failure Report)}
  {t : τ}

theorem OnCourse.turn {r : Thread τ} (h : OnCourse v sink job t r) (steady : peers.Steady v)
    (hj : job.Fetchless) (s : σ) :
    OnCourse v sink job t (r.turn peers sink none s).1 ∧
      (r.turn peers sink none s).1.turnsLeft v ≤ r.turnsLeft v - 1 := by
  cases h with
  | done resumes => exact ⟨.done resumes, Nat.le_refl _⟩
  | @waiting elapsed rest es resumes =>
    obtain ⟨stage, s', fs, hturn, hcase⟩ :=
      steady.turn sink (resumes.fetchless hj) elapsed s (es.foldl sink t)
    simp only [Thread.turn, hturn, turnsLeft]
    rw [← List.foldl_append]
    rcases hcase with ⟨a, rfl, hfs⟩ | ⟨later, rest', rfl, hfs, hless⟩
    · have hdone : OnCourse v sink job t
          ⟨.done a, (es ++ fs ++ [Service.closing a]).foldl sink t⟩ := .done (resumes.trans hfs)
      rw [List.foldl_append] at hdone
      exact ⟨hdone, Nat.zero_le _⟩
    · exact ⟨.waiting (resumes.trans hfs), by simpa [result?] using Nat.succ_le_of_lt hless⟩

/-- Turns of other runs do not touch a run. -/
theorem OnCourse.interleave {rs : List (Thread τ)} {i : Nat} {r : Thread τ} (hr : rs[i]? = some r)
    (h : OnCourse v sink job t r) (steady : peers.Steady v) (hj : job.Fetchless)
    (schedule : List Nat) (s : σ) :
    ∃ r', (Thread.interleave peers sink none schedule rs s).1[i]? = some r' ∧
      OnCourse v sink job t r' ∧ r'.turnsLeft v ≤ r.turnsLeft v - schedule.count i := by
  induction schedule generalizing rs r s with
  | nil => exact ⟨r, hr, h, Nat.le_refl _⟩
  | cons k schedule ih =>
    by_cases hk : k = i
    · subst hk
      obtain ⟨hturn, hless⟩ := h.turn steady hj s
      have hlt : k < rs.length := (List.getElem?_eq_some_iff.1 hr).1
      have hset : (rs.set k (r.turn peers sink none s).1)[k]? =
          some (r.turn peers sink none s).1 := List.getElem?_set_self hlt
      obtain ⟨r', hr', hon, hleft⟩ := ih hset hturn (r.turn peers sink none s).2
      refine ⟨r', ?_, hon, ?_⟩
      · simpa [Thread.interleave, hr] using hr'
      · rw [List.count_cons_self]
        omega
    · rw [List.count_cons_of_ne hk]
      cases hrk : rs[k]? with
      | none =>
        obtain ⟨r', hr', hrest⟩ := ih hr h s
        exact ⟨r', by simpa [Thread.interleave, hrk] using hr', hrest⟩
      | some other =>
        have hset : (rs.set k (other.turn peers sink none s).1)[i]? = some r := by
          rw [List.getElem?_set_ne hk, hr]
        obtain ⟨r', hr', hrest⟩ := ih hset h (other.turn peers sink none s).2
        exact ⟨r', by simpa [Thread.interleave, hrk] using hr', hrest⟩

end Thread

/-! ## In the middle of a run -/

namespace Engine

/-- What is left of a run that has reported some events: all of it, or the rest of the turn of a
node and what comes after it. Then the nodes before it have reported `es`, and the variables
for this one are the run's own inputs and the outputs among `es`. -/
inductive UnderWay (e : Engine) (g : Graph) (initial : Table Json) (v : Services) :
    List Event → Job (Except Failure Report) → Prop
  | fresh : UnderWay e g initial v [] (e.execute g initial)
  | inTurn {path done later : List Vertex} {n : Vertex} {p : Progress} {es fs : List Event}
      {c : Job (Except Failure (Table Json))} (onPath : g.path = .ok path)
      (split : path = done ++ n :: later)
      (before : (e.walk initial ⟨seed initial path, none, none⟩ done).Resumes v es (.done p))
      (store : p.store = (seed initial path).replay (Event.outputs es))
      (turn : (e.visit initial p.store n).Resumes v fs c) :
      UnderWay e g initial v (es ++ fs)
        (c >>= fun outcome => e.remaining initial path later (advance p n outcome))

variable {e : Engine} {initial : Table Json} {v : Services}

/-- A walk of some nodes is always in the turn of one of them. -/
theorem resumes_walk {p : Progress} {path : List Vertex} {es : List Event} {rest : Job Progress}
    (hne : path ≠ []) (h : (e.walk initial p path).Resumes v es rest) :
    ∃ done n later q fs gs c, path = done ++ n :: later ∧ es = fs ++ gs ∧
      (e.walk initial p done).Resumes v fs (.done q) ∧
      (e.visit initial q.store n).Resumes v gs c ∧
      rest = c >>= fun outcome => e.proceed initial later (advance q n outcome) := by
  induction path generalizing p es with
  | nil => exact absurd rfl hne
  | cons n r ih =>
    have hwalk : e.walk initial p (n :: r) =
        e.visit initial p.store n >>= fun outcome =>
          e.proceed initial r (advance p n outcome) := rfl
    rw [hwalk] at h
    rcases h.bind_cases with ⟨c, hc, hrest⟩ | ⟨outcome, fs, gs, rfl, hvisit, hafter⟩
    · exact ⟨[], n, r, p, [], es, c, rfl, rfl, .refl _, hc, hrest⟩
    · by_cases hend : (advance p n outcome).failure?.isSome ∨ r = []
      · have hproceed : e.proceed initial r (advance p n outcome) =
            .done (advance p n outcome) := by
          rcases hend with hf | rfl
          · simp [proceed, hf]
          · simp [proceed, walk]
        rw [hproceed] at hafter
        cases hafter
        refine ⟨[], n, r, p, [], fs, .done outcome, rfl, List.append_nil _, .refl _, hvisit, ?_⟩
        exact hproceed.symm
      · obtain ⟨hf, hr⟩ := not_or.1 hend
        have hproceed : e.proceed initial r (advance p n outcome) =
            e.walk initial (advance p n outcome) r := if_neg hf
        rw [hproceed] at hafter
        obtain ⟨done, m, later, q, fs', gs', c, rfl, rfl, hdone, hturn, hrest⟩ := ih hr hafter
        refine ⟨n :: done, m, later, q, fs ++ fs', gs', c, rfl, (List.append_assoc ..).symm, ?_,
          hturn, hrest⟩
        refine (hvisit.bind _).trans ?_
        rw [Job.done_bind, if_neg hf]
        exact hdone

/-- Wherever a run is stopped it is under way. -/
theorem underWay_of_resumes {g : Graph} {es : List Event} {rest : Job (Except Failure Report)}
    (h : (e.execute g initial).Resumes v es rest) : UnderWay e g initial v es rest := by
  cases hpath : g.path with
  | error f =>
    have hdone : e.execute g initial = .done (.error f) := by simp [execute, hpath]
    have hfresh : UnderWay e g initial v [] (e.execute g initial) := .fresh
    rw [hdone] at h hfresh
    cases h
    exact hfresh
  | ok path =>
    let start : Progress := ⟨seed initial path, none, none⟩
    have hexecute : e.execute g initial =
        e.walk initial start path >>= fun p => .done (conclude path p) := by
      simp [execute, hpath, start]
    have hne : path ≠ [] := by
      obtain ⟨first, others, rfl, -⟩ := head_of_path hpath
      exact List.cons_ne_nil _ _
    obtain ⟨c, hc, rfl⟩ : ∃ c, (e.walk initial start path).Resumes v es c ∧
        rest = c >>= fun p => .done (conclude path p) := by
      rw [hexecute] at h
      rcases h.bind_cases with hc | ⟨q, fs, gs, rfl, hq, hrest⟩
      · exact hc
      · cases hrest
        exact ⟨.done q, by rwa [List.append_nil], rfl⟩
    obtain ⟨done, n, later, q, fs, gs, c, hsplit, rfl, hdone, hturn, rfl⟩ := resumes_walk hne hc
    have hstore := store_of_walk e initial v.peers done (seed initial path) ()
    obtain ⟨hes, hq⟩ := hdone.history
    dsimp only at hstore
    rw [hes, hq] at hstore
    rw [bind_assoc]
    exact .inTurn hpath hsplit hdone (by simpa using hstore) hturn

/-- The variables of a run that succeeds are told by its inputs and reports. -/
theorem values_of_history {g : Graph} {path : List Vertex} {report : Report}
    (hpath : g.path = .ok path)
    (h : ((e.execute g initial).history v.peers ()).result = .ok report) :
    report.values = ((seed initial path).replay (Event.outputs
      (events ((e.execute g initial).history v.peers ()).moments))).values := by
  rw [history_execute_of_ok hpath] at h ⊢
  rw [(conclude_eq_ok h).2, store_of_walk]

end Engine

/-- A run with a graph and inputs of its own and with a sink in a state of its own. -/
structure Errand (τ : Type) where
  graph : Graph
  initial : Table Json
  sink : τ

def Errand.thread {τ : Type} (e : Engine) (r : Errand τ) : Thread τ :=
  .start (e.execute r.graph r.initial) r.sink

/-- **Isolation.** Any number of runs share an engine, and peers who answer by the request alone.
A run that is alone comes to one result with one sequence of reports, in whatever state
earlier runs have left the peers, and its variables are told by its inputs and reports.
Among others, on every schedule, it ends with this result and these reports once it has
had enough turns. Until then it has reported the first of them and goes on with the
others if it is left alone, and it is in the turn of a node whose variables are the run's
own. -/
theorem Thread.isolated {σ τ : Type} (e : Engine) {peers : Peers σ} {v : Services}
    (steady : peers.Steady v) (sink : Sink τ) {errands : List (Errand τ)} {i : Nat} {r : Errand τ}
    (hr : errands[i]? = some r) :
    ∃ result all turns,
      (∀ s, ∃ s', (e.execute r.graph r.initial).run peers Sink.record none 0 (s, []) =
        (some result, s', all)) ∧
      (∀ report path, result = .ok report → r.graph.path = .ok path → report.values =
        ((Engine.seed r.initial path).replay (Event.outputs all)).values) ∧
      ∀ schedule s, ∃ th,
        (interleave peers sink none schedule (errands.map (Errand.thread e)) s).1[i]? = some th ∧
        (turns ≤ schedule.count i → th.result? none = some result) ∧
        ((th.result? none = some result ∧
            th.sink = (all ++ [Service.closing result]).foldl sink r.sink) ∨
          ∃ elapsed rest before after, th.stage = .waiting elapsed rest ∧ all = before ++ after ∧
            th.sink = before.foldl sink r.sink ∧ e.UnderWay r.graph r.initial v before rest ∧
            ∀ s, ∃ s', rest.run peers Sink.record none 0 (s, []) = (some result, s', after)) := by
  have hj : (e.execute r.graph r.initial).Fetchless :=
    (e.announced_execute r.graph r.initial).fetchless
  have halone {job : Job (Except Failure Report)} (hjob : job.Fetchless) (s : σ) :
      ∃ s', job.run peers Sink.record none 0 (s, []) =
        (some (job.history v.peers ()).result, s', events (job.history v.peers ()).moments) := by
    obtain ⟨hevents, hresult⟩ := steady.history hjob s
    exact ⟨_, by rw [Job.run_record, hevents, hresult, List.nil_append]⟩
  have hstart : (errands.map (Errand.thread e))[i]? = some (r.thread e) := by
    rw [List.getElem?_map, hr]
    rfl
  have hcourse : OnCourse v sink (e.execute r.graph r.initial) r.sink (r.thread e) :=
    .waiting (.refl _)
  refine ⟨_, _, (r.thread e).turnsLeft v, halone hj, ?_, ?_⟩
  · intro report path hreport hpath
    exact Engine.values_of_history hpath hreport
  · intro schedule s
    obtain ⟨th, hth, hon, hleft⟩ := hcourse.interleave hstart steady hj schedule s
    refine ⟨th, hth, ?_, ?_⟩
    · intro hturns
      cases hon with
      | waiting resumes =>
        rw [turnsLeft] at hleft
        dsimp only at hleft
        omega
      | done resumes =>
        rw [resumes.history.2]
        rfl
    · cases hon with
      | @waiting elapsed rest es resumes =>
        obtain ⟨hevents, hresult⟩ := resumes.history
        rw [hresult]
        exact .inr ⟨elapsed, rest, es, _, rfl, hevents, rfl, Engine.underWay_of_resumes resumes,
          halone (resumes.fetchless hj)⟩
      | done resumes =>
        obtain ⟨hevents, hresult⟩ := resumes.history
        rw [hevents, hresult]
        exact .inl ⟨rfl, by simp⟩

/-- A chat model that repeats what it is asked, and no tool. -/
def Services.echo : Services where
  chat r := .ok (Script.echo r)
  call c := .error (.unsupportedPlugin c.tool)

/-- The services behind a clock, each answer later than the one before. -/
def Services.clocked (v : Services) : Peers Nat := fun q time => (⟨v.answer q, time + 1⟩, time + 1)

/-- Two guests to be greeted. -/
def guests (g : Graph) : List (Errand (List Event)) :=
  [⟨g, .ofList [("name", .string "Ada")], []⟩, ⟨g, .ofList [("name", .string "Eve")], []⟩]

theorem Thread.isolated_guests : ∃ (g : Graph) (eve : Errand (List Event)),
    Graph.ofDocument Samples.literalChain = .ok g ∧ Services.echo.clocked.Steady .echo ∧
      (guests g)[1]? = some eve ∧ ∃ result all,
        (∀ s, ∃ s', ((Engine.standard ⟨"general", 50⟩).execute g eve.initial).run
          Services.echo.clocked Sink.record none 0 (s, []) = (some result, s', all)) ∧
        ∀ schedule s, ∃ th, (interleave Services.echo.clocked Sink.record none schedule
            ((guests g).map (Errand.thread (.standard ⟨"general", 50⟩))) s).1[1]? = some th ∧
          th.sink <+: all ++ [Service.closing result] := by
  have steady : Services.echo.clocked.Steady .echo := ⟨fun _ _ => rfl, fun _ _ => rfl⟩
  obtain ⟨g, hg⟩ : ∃ g, Graph.ofDocument Samples.literalChain = .ok g := ⟨_, rfl⟩
  have heve : (guests g)[1]? = some ⟨g, .ofList [("name", .string "Eve")], []⟩ := rfl
  obtain ⟨result, all, turns, halone, -, hamong⟩ :=
    Thread.isolated (.standard ⟨"general", 50⟩) steady Sink.record heve
  refine ⟨g, _, hg, steady, heve, result, all, halone, ?_⟩
  intro schedule s
  obtain ⟨th, hth, -, ⟨-, hsink⟩ | ⟨_, _, before, after, -, rfl, hsink, -⟩⟩ := hamong schedule s
  · refine ⟨th, hth, ?_⟩
    rw [hsink, Sink.foldl_record]
    exact List.prefix_rfl
  · refine ⟨th, hth, ?_⟩
    rw [hsink, Sink.foldl_record, List.append_assoc]
    exact List.prefix_append _ _

end Flowline
