import Flowline.Proofs.Blocks
import Flowline.Proofs.Route
import Mathlib.Data.List.Forall2

/-! # What a run asks

A run asks the chat model and the tool service for nothing that it has not announced
right before, and announces nothing that it does not then ask for. So the questions of
a run can be told from its reports one by one, wherever the run ends. A node announces
one question at most, and once a node has failed nothing happens any more. -/

namespace Flowline
open Moment

/-! ## Notes -/

section Notes

variable {α σ τ : Type}

/-- The same peers, with a list of all that they have been asked. -/
def Peers.noting (peers : Peers σ) : Peers (σ × List Query) := fun q s =>
  ((peers q s.1).1, (peers q s.1).2, s.2 ++ [q])

/-- The questions among some moments. -/
def Moment.questions (ms : List Moment) : List Query := ms.filterMap fun
  | event _ => none
  | answer q _ => some q

@[simp] theorem Moment.questions_nil : questions [] = [] := rfl
@[simp] theorem Moment.questions_event (e : Event) (ms : List Moment) :
    questions (event e :: ms) = questions ms := rfl
@[simp] theorem Moment.questions_answer (q : Query) (time : Nat) (ms : List Moment) :
    questions (answer q time :: ms) = q :: questions ms := rfl

/-- Taking notes changes nothing, and the notes are the questions of what a run shows; a
question whose answer is too late is the last of them. -/
theorem Job.run_noting (peers : Peers σ) (sink : Sink τ) (limit : Option Nat) (elapsed : Nat)
    (job : Job α) (s : σ) (asked : List Query) (t : τ) :
    ∃ r s' shown, shown <+: (job.history peers s).moments ∧
      (limit = none → shown = (job.history peers s).moments ∧ r.isSome) ∧
      job.run peers sink limit elapsed (s, t) = (r, s', (events shown).foldl sink t) ∧
      job.run peers.noting sink limit elapsed ((s, asked), t) =
        (r, (s', asked ++ questions shown), (events shown).foldl sink t) := by
  induction job generalizing elapsed s asked t with
  | done a => exact ⟨some a, s, [], by simp [Job.run]⟩
  | emit e r ih =>
    obtain ⟨x, s', shown, hpre, hall, hrun, hnotes⟩ := ih elapsed s asked (sink t e)
    refine ⟨x, s', .event e :: shown, ?_, ?_, ?_, ?_⟩
    · simpa using hpre
    · intro h
      simpa using hall h
    · simpa [run_emit] using hrun
    · simpa [run_emit] using hnotes
  | ask q r ih =>
    rw [run_ask, run_ask]
    by_cases h : withinLimit limit (elapsed + (peers q s).1.delay)
    · obtain ⟨x, s', shown, hpre, hall, hrun, hnotes⟩ := ih (peers q s).1.answer
        (elapsed + (peers q s).1.delay) (peers q s).2 (asked ++ [q]) t
      refine ⟨x, s', .answer q (peers q s).1.delay :: shown, ?_, ?_, ?_, ?_⟩
      · simpa using hpre
      · intro hn
        simpa using hall hn
      · simpa [h] using hrun
      · simpa [Peers.noting, h] using hnotes
    · refine ⟨none, (peers q s).2, [.answer q (peers q s).1.delay], ?_, ?_, ?_, ?_⟩
      · simp
      · rintro rfl
        simp [withinLimit] at h
      · simp [h]
      · simp [Peers.noting, h]

end Notes

/-! ## Questions and announcements -/

namespace Query

def chat? : Query → Option ChatRequest
  | chat r => some r
  | _ => none

def call? : Query → Option ToolCall
  | call c => some c
  | _ => none

end Query

namespace Event

def prompt? : Event → Option String
  | thinking _ prompt => some prompt
  | _ => none

/-- The voice and the length of the text that are announced. -/
def voice? : Event → Option (String × Nat)
  | voiceStart _ voice length => some (voice, length)
  | _ => none

/-- The node that announces a question with the event. -/
def announcer? : Event → Option String
  | thinking node _ => some node
  | voiceStart node _ _ => some node
  | _ => none

end Event

/-- One message of the user, and nothing else. -/
def ChatRequest.Says (r : ChatRequest) (prompt : String) : Prop :=
  r.messages = [⟨.user, prompt⟩]

/-- A call of the voice tool for a text of this many characters. -/
structure ToolCall.Speaks (c : ToolCall) (voice : String) (length : Nat) : Prop where
  tool : c.tool = Speech.tool
  voice : c.parameters.member? "vcn" = some (.string voice)
  text : ∃ text, c.parameters.member? "text" = some (.string text) ∧ text.length = length

/-- The event announces this very question. -/
def Query.AnnouncedBy : Query → Event → Prop
  | chat r, .thinking _ prompt => r.Says prompt
  | call c, .voiceStart _ voice length => c.Speaks voice length
  | _, _ => False

theorem Query.AnnouncedBy.isSome {q : Query} {e : Event} (h : q.AnnouncedBy e) :
    e.announcer?.isSome := by
  cases q <;> cases e <;> simp_all [AnnouncedBy, Event.announcer?]

theorem Speech.speaks_call (s : Speech) : s.call.Speaks s.voice s.text.length := by
  refine ⟨rfl, ?_, s.text, ?_, rfl⟩
  · simp [call, Json.ofMembers, Json.member?, Entries.ofList, Entries.find?_insert]
  · simp [call, Json.ofMembers, Json.member?, Entries.ofList, Entries.find?_insert]

/-! ## Announced jobs -/

/-- Every question follows its announcement, and nothing else is announced. -/
inductive Job.Announced {α : Type} : Job α → Prop
  | done (a : α) : Announced (.done a)
  | emit {e : Event} {r : Job α} (quiet : e.announcer? = none) (rest : Announced r) :
      Announced (.emit e r)
  | ask {e : Event} {q : Query} {r : q.Answer → Job α} (announced : q.AnnouncedBy e)
      (rest : ∀ a, Announced (r a)) : Announced (.emit e (.ask q r))

namespace Job

variable {α β σ : Type}

theorem Announced.bind {t : Job α} {f : α → Job β} (h : t.Announced) (hf : ∀ a, (f a).Announced) :
    (t >>= f).Announced := by
  induction h with
  | done a => exact hf a
  | emit quiet rest ih => exact .emit quiet ih
  | ask announced rest ih => exact .ask announced ih

theorem announced_reportAll {es : List Event} (h : ∀ e ∈ es, e.announcer? = none) :
    (reportAll es).Announced := by
  induction es with
  | nil => exact .done ()
  | cons e es ih =>
    have hcons : reportAll (e :: es) = emit e (reportAll es) := List.forM_cons
    rw [hcons]
    exact .emit (h e List.mem_cons_self) (ih fun x hx => h x (List.mem_cons_of_mem _ hx))

/-- Wherever a run of an announced job ends, each announcement stands for one question. -/
theorem Announced.run {job : Job α} (h : job.Announced) (peers : Peers σ) (limit : Option Nat)
    (elapsed : Nat) (s : σ) (asked : List Query) (es : List Event) :
    ∃ r s' qs fs, job.run peers.noting Sink.record limit elapsed ((s, asked), es) =
        (r, (s', asked ++ qs), es ++ fs) ∧
      List.Forall₂ Query.AnnouncedBy qs (fs.filter fun e => e.announcer?.isSome) := by
  induction h generalizing elapsed s asked es with
  | done a => exact ⟨some a, s, [], [], by simp [Job.run], .nil⟩
  | @emit e r quiet rest ih =>
    obtain ⟨x, s', qs, fs, hrun, hmatch⟩ := ih elapsed s asked (es ++ [e])
    refine ⟨x, s', qs, e :: fs, ?_, ?_⟩
    · rw [run_emit, Sink.record, hrun, List.append_assoc, List.singleton_append]
    · simpa [quiet] using hmatch
  | @ask e q r announced rest ih =>
    rw [run_emit, run_ask]
    by_cases hl : withinLimit limit (elapsed + (peers q s).1.delay)
    · obtain ⟨x, s', qs, fs, hrun, hmatch⟩ := ih (peers q s).1.answer
        (elapsed + (peers q s).1.delay) (peers q s).2 (asked ++ [q]) (es ++ [e])
      refine ⟨x, s', q :: qs, e :: fs, ?_, ?_⟩
      · simpa [Peers.noting, Sink.record, hl] using hrun
      · simpa [announced.isSome] using ⟨announced, hmatch⟩
    · refine ⟨none, (peers q s).2, [q], [e], ?_, ?_⟩
      · simp [Peers.noting, Sink.record, hl]
      · simpa [announced.isSome] using announced

end Job

/-! ## Runs are announced -/

theorem Action.announced_perform (node : String) (a : Action) : (a.perform node).Announced := by
  cases a with
  | publish outputs => exact .done _
  | prompt p => exact .ask (q := .chat p.request) (rfl : p.request.Says p.text) fun _ => .done _
  | speak s => exact .ask (q := .call s.call) s.speaks_call fun _ => .done _

theorem Node.announced_run (d : Defaults) (initial : Table Json) (store : Store) (k : Kind)
    (n : Node) : (n.run d initial store k).Announced := by
  have hattempt : (n.attempt d initial store k).Announced := by
    unfold Node.attempt
    split
    · exact Action.announced_perform n.id _
    · exact .done _
  have hclosing (outcome : Except Failure (Table Json)) :
      (Job.reportAll (n.closing outcome)).Announced := by
    refine Job.announced_reportAll ?_
    intro e he
    cases outcome with
    | ok outputs =>
      simp only [Node.closing, Node.outputEvents, List.mem_append, List.mem_map,
        List.mem_singleton] at he
      rcases he with ⟨o, _, rfl⟩ | rfl <;> rfl
    | error f =>
      obtain rfl := List.mem_singleton.mp he
      rfl
  rw [Node.run_eq]
  exact .emit rfl (hattempt.bind fun outcome => (hclosing outcome).bind fun _ => .done _)

namespace Engine

theorem announced_visit (e : Engine) (initial : Table Json) (store : Store) (v : Vertex) :
    (e.visit initial store v).Announced := by
  unfold visit
  split
  · exact Node.announced_run ..
  · exact .emit rfl (.done _)

theorem announced_walk (e : Engine) (initial : Table Json) (p : Progress) (path : List Vertex) :
    (e.walk initial p path).Announced := by
  induction path generalizing p with
  | nil => exact .done p
  | cons v r ih =>
    refine (announced_visit e initial p.store v).bind fun outcome => ?_
    dsimp only
    split
    · exact .done _
    · exact ih _

theorem announced_execute (e : Engine) (g : Graph) (initial : Table Json) :
    (e.execute g initial).Announced := by
  unfold execute
  split
  · exact .done _
  · exact (announced_walk e initial _ _).bind fun _ => .done _

end Engine

/-! ## One question a node -/

/-- The nodes that announce a question, each as often as it does. -/
def Event.announcers (es : List Event) : List String := es.filterMap Event.announcer?

@[simp] theorem Event.announcers_append (es fs : List Event) :
    announcers (es ++ fs) = announcers es ++ announcers fs := List.filterMap_append

theorem Announces.announcers_sublist {node : String} {k : Kind} {es : List Event}
    (h : Announces node k es) : (Event.announcers es).Sublist [node] := by
  cases k with
  | start | final =>
    obtain rfl : es = [] := h
    simp [Event.announcers]
  | llm =>
    obtain ⟨prompt, rfl⟩ := h
    simp [Event.announcers, Event.announcer?]
  | plugin =>
    obtain ⟨voice, length, rfl⟩ := h
    simp [Event.announcers, Event.announcer?]

section Turns

variable {σ : Type} {e : Engine} {initial : Table Json} {peers : Peers σ}

theorem Block.Complete.announcers_sublist {store : Store} {b : Block}
    (h : b.Complete e initial peers store) :
    (Event.announcers b.events).Sublist [b.vertex.id] := by
  obtain ⟨-, k, -, -, han⟩ := h
  have hmap : Event.announcers (b.outputs.entries.map fun o =>
      .nodeOutput b.vertex.id o.1 o.2) = [] := by
    simp [Event.announcers, Event.announcer?]
  have hevents : Event.announcers b.events = Event.announcers b.notices := by
    rw [Block.events, Event.announcers_append, Event.announcers_append, hmap]
    simp [Event.announcers, Event.announcer?, List.filterMap_cons]
  rw [hevents]
  exact han.announcers_sublist

theorem Aborted.announcers_sublist {store : Store} {v : Vertex} {f : Failure} {es : List Event}
    (h : Aborted e initial peers store v f es) : (Event.announcers es).Sublist [v.id] := by
  rcases h with ⟨-, ⟨-, rfl⟩ | ⟨k, notices, -, -, han, rfl⟩⟩
  · simp [Event.announcers, Event.announcer?]
  · have hevents : Event.announcers (.nodeStart v.id v.node.typeName :: notices ++
        [.nodeError v.id f.message]) = Event.announcers notices := by
      simp [Event.announcers, Event.announcer?, List.filterMap_cons]
    rw [hevents]
    rcases han with rfl | han
    · simp [Event.announcers]
    · exact han.announcers_sublist

theorem Blocks.announcers_sublist {start store : Store} {bs : List Block}
    (h : Blocks e initial peers start bs store) :
    (Event.announcers (bs.flatMap Block.events)).Sublist ((bs.map Block.vertex).map Vertex.id) := by
  induction h with
  | nil => simp [Event.announcers]
  | snoc before complete ih =>
    simpa using ih.append complete.announcers_sublist

/-- The announcements of a run come from nodes of its path, in its order and one from each. -/
theorem Reported.announcers_sublist {g : Graph} {es : List Event} {result : Except Failure Report}
    (h : Reported e initial peers g es result) {path : List Vertex} (hpath : g.path = .ok path) :
    (Event.announcers es).Sublist (path.map Vertex.id) := by
  cases h with
  | nowhere => exact List.nil_sublist _
  | finished hp blocks values =>
    obtain rfl := Except.ok.inj (hp.symm.trans hpath)
    exact blocks.announcers_sublist
  | stopped hp blocks aborted =>
    obtain rfl := Except.ok.inj (hp.symm.trans hpath)
    rw [Event.announcers_append, List.map_append, List.map_cons]
    exact blocks.announcers_sublist.append
      (aborted.announcers_sublist.trans (List.singleton_sublist.2 List.mem_cons_self))

end Turns

/-- No node comes twice on a path. -/
theorem Graph.distinct_of_path {g : Graph} {route : List Vertex} (h : g.path = .ok route) :
    (route.map Vertex.id).Nodup := by
  unfold path at h
  split at h
  · cases h
  · obtain rfl := Except.ok.inj h
    exact pathFrom_distinct ..

/-! ## After a failure -/

/-- The report of a node that failed. -/
def Moment.isFailure : Moment → Bool
  | event (.nodeError ..) => true
  | _ => false

namespace Engine

variable {σ : Type} (e : Engine) (initial : Table Json) (peers : Peers σ)

theorem isFailure_of_attempt (d : Defaults) (store : Store) (k : Kind) (n : Node) (s : σ) :
    ∀ m ∈ ((n.attempt d initial store k).history peers s).moments, m.isFailure = false := by
  unfold Node.attempt
  cases Action.ofNode d initial store k n with
  | error f => simp
  | ok a =>
    cases a <;>
      simp [Action.perform, Job.report, Job.query, Moment.isFailure]

/-- A node that fails says so at the end of its turn, and no other node does. -/
theorem isFailure_of_visit (store : Store) (v : Vertex) (s : σ) :
    let h := (e.visit initial store v).history peers s
    (∀ m ∈ h.moments.dropLast, m.isFailure = false) ∧
    (∀ outputs, h.result = .ok outputs → ∀ m ∈ h.moments, m.isFailure = false) := by
  unfold visit
  cases e.kind v with
  | error f => simp [Job.report]
  | ok k =>
    have hat := isFailure_of_attempt initial peers e.defaults store k v.node s
    dsimp only
    rw [Node.history_run]
    generalize (v.node.attempt e.defaults initial store k).history peers s = a at hat
    obtain ⟨ms, result, s'⟩ := a
    dsimp only at hat ⊢
    cases result with
    | error f =>
      refine ⟨?_, by simp⟩
      rw [Node.closing, List.map_singleton, ← List.cons_append, List.dropLast_concat]
      simpa [Moment.isFailure] using hat
    | ok outputs =>
      have hall : ∀ m ∈ Moment.event (.nodeStart v.node.id v.node.typeName) ::
          (ms ++ (v.node.closing (.ok outputs)).map .event), m.isFailure = false := by
        intro m hm
        simp only [Node.closing, Node.outputEvents, List.mem_cons, List.mem_append,
          List.map_append, List.map_map, List.mem_map, List.map_singleton, List.not_mem_nil,
          or_false] at hm
        rcases hm with rfl | hm | ⟨o, _, rfl⟩ | rfl
        · rfl
        · exact hat m hm
        · rfl
        · rfl
      exact ⟨fun m hm => hall m (List.dropLast_subset _ hm), fun _ _ => hall⟩

theorem isFailure_of_walk (path : List Vertex) (start : Store) (s : σ) :
    ∀ m ∈ ((e.walk initial ⟨start, none, none⟩ path).history peers s).moments.dropLast,
      m.isFailure = false := by
  obtain ⟨_, _, -, ⟨hlast, -⟩, -⟩ := walk_invariant e initial peers
    (fun _ ms p _ => (∀ m ∈ ms.dropLast, m.isFailure = false) ∧
      (p.failure? = none → ∀ m ∈ ms, m.isFailure = false))
    (fun _ ms p s v hp hinv => by
      obtain ⟨hlast, hok⟩ := isFailure_of_visit e initial peers p.store v s
      dsimp only at hlast hok ⊢
      generalize (e.visit initial p.store v).history peers s = h at hlast hok
      constructor
      · intro m hm
        rw [List.dropLast_append] at hm
        split at hm
        · exact hinv.1 m hm
        · rcases List.mem_append.mp hm with hm | hm
          · exact hinv.2 hp m hm
          · exact hlast m hm
      · intro hnone m hm
        cases hr : h.result with
        | error f =>
          rw [hr] at hnone
          cases hnone
        | ok outputs =>
          rcases List.mem_append.mp hm with hm | hm
          · exact hinv.2 hp m hm
          · exact hok outputs hr m hm)
    path [] [] ⟨start, none, none⟩ s rfl ⟨by simp, by simp⟩
  exact hlast

/-- Nothing happens after a node has failed. -/
theorem eq_nil_of_isFailure (g : Graph) (s : σ) {before later : List Moment} {m : Moment}
    (h : ((e.execute g initial).history peers s).moments = before ++ m :: later)
    (hm : m.isFailure = true) : later = [] := by
  cases hp : g.path with
  | error f =>
    rw [history_execute_of_error hp] at h
    simp at h
  | ok path =>
    rw [history_execute_of_ok hp] at h
    by_contra hne
    have hmem : m ∈ (before ++ m :: later).dropLast := by
      simp [List.dropLast_cons_of_ne_nil hne]
    have hfalse := isFailure_of_walk e initial peers path (seed initial path) s m (h ▸ hmem)
    rw [hm] at hfalse
    cases hfalse

end Engine

/-! ## Main statement -/

theorem forall₂_filterMap {α β γ δ : Type} {R : α → β → Prop} {S : γ → δ → Prop}
    {f : α → Option γ} {g : β → Option δ} {as : List α} {bs : List β} (h : List.Forall₂ R as bs)
    (hfg : ∀ a b, R a b → Option.Rel S (f a) (g b)) :
    List.Forall₂ S (as.filterMap f) (bs.filterMap g) := by
  induction h with
  | nil => exact .nil
  | @cons a b as bs hab _ ih =>
    have hrel := hfg a b hab
    rw [List.filterMap_cons, List.filterMap_cons]
    generalize f a = x at hrel ⊢
    generalize g b = y at hrel ⊢
    cases hrel with
    | some hs => exact .cons hs ih
    | none => exact ih

theorem filterMap_announcements {α : Type} {f : Event → Option α}
    (hf : ∀ e, e.announcer? = none → f e = none) (es : List Event) :
    (es.filter fun e => e.announcer?.isSome).filterMap f = es.filterMap f := by
  rw [List.filterMap_filter]
  congr 1
  funext e
  cases he : e.announcer? with
  | none => simp [hf e he]
  | some node => simp

/-- The questions are those that the events announce: all in all, from prompt to prompt, and
from voice to voice. -/
structure Announcing (asked : List Query) (es : List Event) : Prop where
  all : List.Forall₂ Query.AnnouncedBy asked (es.filter fun e => e.announcer?.isSome)
  prompts : List.Forall₂ ChatRequest.Says (asked.filterMap Query.chat?)
    (es.filterMap Event.prompt?)
  voices : List.Forall₂ (fun c v => c.Speaks v.1 v.2) (asked.filterMap Query.call?)
    (es.filterMap Event.voice?)

theorem Announcing.of_forall₂ {asked : List Query} {es : List Event}
    (h : List.Forall₂ Query.AnnouncedBy asked (es.filter fun e => e.announcer?.isSome)) :
    Announcing asked es := by
  refine ⟨h, ?_, ?_⟩
  · rw [← filterMap_announcements (fun e he => by cases e <;> simp_all [Event.announcer?,
      Event.prompt?])]
    refine forall₂_filterMap h fun q e hqe => ?_
    cases q <;> cases e <;> first | exact hqe.elim | exact .some hqe | exact .none
  · rw [← filterMap_announcements (fun e he => by cases e <;> simp_all [Event.announcer?,
      Event.voice?])]
    refine forall₂_filterMap h fun q e hqe => ?_
    cases q <;> cases e <;> first | exact hqe.elim | exact .some hqe | exact .none

/-- A node that lacks a parameter says so and asks nothing. -/
theorem Engine.visit_of_lacking {e : Engine} {initial : Table Json} {store : Store} {v : Vertex}
    {k : Kind} {f : Failure} (hk : e.kind v = .ok k)
    (hf : Action.ofNode e.defaults initial store k v.node = .error f) :
    e.visit initial store v =
      .emit (.nodeStart v.id v.node.typeName) (.emit (.nodeError v.id f.message)
        (.done (.error f))) := by
  simp [visit, hk, Node.run, hf, Job.report, Vertex.id]

/-- **The questions of a run are announced.** The history of a run ends with the report of the
first failure. However soon a run is cut short, it shows a first part of its history, and
all of it if there is no limit; its questions are those that its events announce, one by
one; and the announcements come from different nodes of the path in its order. A node that
lacks a parameter asks nothing. -/
theorem Engine.questions_announced {σ : Type} (e : Engine) (g : Graph) (initial : Table Json)
    (peers : Peers σ) (s : σ) :
    let ms := ((e.execute g initial).history peers s).moments
    (∀ before m later, ms = before ++ m :: later → m.isFailure = true → later = []) ∧
    (∀ limit, ∃ r s' shown,
      (e.execute g initial).run peers Sink.record limit 0 (s, []) = (r, s', events shown) ∧
      (e.execute g initial).run peers.noting Sink.record limit 0 ((s, []), []) =
        (r, (s', questions shown), events shown) ∧
      shown <+: ms ∧ (limit = none → shown = ms ∧ r.isSome) ∧
      Announcing (questions shown) (events shown) ∧
      ∀ route, g.path = .ok route → (route.map Vertex.id).Nodup ∧
        (Event.announcers (events shown)).Sublist (route.map Vertex.id)) ∧
    ∀ v k store f, e.kind v = .ok k →
      Action.ofNode e.defaults initial store k v.node = .error f → ∀ t,
      (e.visit initial store v).run peers.noting Sink.record none 0 (t, []) =
        (some (.error f), t, [.nodeStart v.id v.node.typeName, .nodeError v.id f.message]) := by
  refine ⟨fun before m later => e.eq_nil_of_isFailure initial peers g s, ?_, ?_⟩
  · intro limit
    obtain ⟨r, s', shown, hpre, hall, hrun, hnotes⟩ :=
      (e.execute g initial).run_noting peers Sink.record limit 0 s [] []
    obtain ⟨r₂, s₂, asked, es, hrun₂, hmatch⟩ :=
      (e.announced_execute g initial).run peers limit 0 s [] []
    simp only [Sink.foldl_record, List.nil_append] at hrun hnotes hrun₂
    rw [hnotes] at hrun₂
    obtain ⟨rfl, ⟨rfl, rfl⟩, rfl⟩ : r = r₂ ∧ (s' = s₂ ∧ questions shown = asked) ∧
        events shown = es := by simpa using hrun₂
    refine ⟨r, s', shown, hrun, hnotes, hpre, hall, .of_forall₂ hmatch, ?_⟩
    intro route hroute
    refine ⟨Graph.distinct_of_path hroute, ?_⟩
    have hsub := (reported_of_execute e initial peers g s).announcers_sublist hroute
    exact ((hpre.sublist.filterMap _).filterMap _).trans hsub
  · intro v k store f hk hf t
    rw [visit_of_lacking hk hf]
    rfl

end Flowline
