import Flowline.Proofs.Speaking
import Flowline.Proofs.Turn

/-! # Where a recording is found

A response of the voice tool may put the address of the recording among its data or beside them.
What stands among the data counts: a text there is the address, and the place beside the data is
looked at only if there is nothing among them. So an address beside the data is found unless
something that is no text stands where the data should have one; it is then passed over, and the
node fails as if there were none. -/

namespace Flowline

namespace Speech

/-! ## Places in a response -/

/-- What a response has for the address among its data. -/
def Inside (response v : Json) : Prop :=
  ∃ data, response.member? "data" = some data ∧ data.member? urlName = some v

/-- What a response has for the address beside its data. -/
def Beside (response v : Json) : Prop := response.member? urlName = some v

theorem inside_iff {response : Json} (v : Json) :
    (response.member? "data").bind (·.member? urlName) = some v ↔ Inside response v := by
  simp [Inside, Option.bind_eq_some_iff]

/-- The address is the first thing that is found, if that is a text. -/
theorem url?_eq_some_iff {response : Json} {u : String} :
    url? response = some u ↔ FirstOf (Inside response) (Beside response) (.string u) := by
  have hfirst (v : Json) : _ = some v ↔ FirstOf (Inside response) (Beside response) v :=
    or_found_iff inside_iff (fun w => Iff.rfl (a := Beside response w)) v
  rw [url?, ← hfirst, Option.bind_eq_some_iff]
  constructor
  · rintro ⟨v, hv, hu⟩
    cases v with
    | string u' =>
      obtain rfl : u' = u := Option.some.inj hu
      exact hv
    | _ => cases hu
  · intro h
    exact ⟨.string u, h, rfl⟩

/-- The failure of a node whose response has no address. -/
def unaddressed (response : Json) : Failure :=
  .plugin tool ("response has no voice_url: " ++ response.text)

theorem outputs_of_found {response : Json} {u : String}
    (h : FirstOf (Inside response) (Beside response) (.string u)) :
    outputs response = .ok (Table.ofList [(urlName, .string u)]) := by
  rw [outputs, url?_eq_some_iff.2 h]

theorem outputs_of_not_found {response : Json}
    (h : ∀ u, ¬FirstOf (Inside response) (Beside response) (.string u)) :
    outputs response = .error (unaddressed response) := by
  have hnone : url? response = none :=
    Option.eq_none_iff_forall_ne_some.2 fun u hu => h u (url?_eq_some_iff.1 hu)
  rw [outputs, hnone]
  rfl

end Speech

/-! ## The turn -/

namespace Engine

/-- A node has put the address of its recording out, and it is all that is new in the store. -/
def Records (p : Progress) (v : Vertex) (outcome : Except Failure (Table Json)) (u : String) :
    Prop :=
  outcome = .ok (Table.ofList [(Speech.urlName, .string u)]) ∧
    (advance p v outcome).store = p.store.set v.id Speech.urlName (.string u)

/-- A node has failed for want of an address and has left the store as it was. -/
def Misses (p : Progress) (v : Vertex) (outcome : Except Failure (Table Json)) (response : Json) :
    Prop :=
  outcome = .error (Speech.unaddressed response) ∧ (advance p v outcome).store = p.store

variable {p : Progress} {v : Vertex} {response : Json}

theorem records_of_found {u : String}
    (h : FirstOf (Speech.Inside response) (Speech.Beside response) (.string u)) :
    Records p v (Speech.outputs response) u := by
  rw [Speech.outputs_of_found h]
  exact ⟨rfl, Store.setAll_single ..⟩

theorem misses_of_not_found
    (h : ∀ u, ¬FirstOf (Speech.Inside response) (Speech.Beside response) (.string u)) :
    Misses p v (Speech.outputs response) response := by
  rw [Speech.outputs_of_not_found h]
  exact ⟨rfl, rfl⟩

end Engine

/-- A plugin node that has all that it needs asks the voice tool once and makes its outputs of the
response. -/
theorem Node.run_of_judged {σ : Type} {d : Defaults} {store : Store} {n : Node} {speech : Speech}
    (h : Speech.Judged d store n (.ok speech)) (initial : Table Json) (peers : Peers σ) (s : σ)
    {response : Json} (hreply : (peers (.call speech.call) s).1.answer = .ok response) :
    (n.run d initial store .plugin).run peers.noting Sink.record none 0 ((s, []), []) =
      (some (Speech.outputs response), ((peers (.call speech.call) s).2, [.call speech.call]),
        [.nodeStart n.id n.typeName, .voiceStart n.id speech.voice speech.text.length] ++
          n.closing (Speech.outputs response)) := by
  have haction : Action.ofNode d initial store .plugin n = .ok (.speak speech) := by
    show (Speech.ofNode d (store.inputs n) n).map Action.speak = _
    rw [← h.eq_ofNode]
    rfl
  have hrun := run_of_asks haction rfl peers s
  rw [hreply] at hrun
  exact hrun

/-- **A recording is found where the response puts it.** A text among the data of a response is the
address. Otherwise a text beside the data is, if nothing stands among the data in its place; if
anything does, the node misses the address. It also misses it if neither place has a text. -/
theorem Node.recording_turn {σ : Type} {d : Defaults} {p : Progress} {v : Vertex} {speech : Speech}
    (hjudged : Speech.Judged d p.store v.node (.ok speech)) (initial : Table Json)
    (peers : Peers σ) (s : σ) {response : Json}
    (hreply : (peers (.call speech.call) s).1.answer = .ok response) :
    ∃ outcome,
      (v.node.run d initial p.store .plugin).run peers.noting Sink.record none 0 ((s, []), []) =
        (some outcome, ((peers (.call speech.call) s).2, [.call speech.call]),
          [.nodeStart v.id v.node.typeName, .voiceStart v.id speech.voice speech.text.length] ++
            v.node.closing outcome) ∧
      (∀ u, Speech.Inside response (.string u) → Engine.Records p v outcome u) ∧
      (∀ u, (∀ u', ¬Speech.Inside response (.string u')) → Speech.Beside response (.string u) →
        ((∀ w, ¬Speech.Inside response w) → Engine.Records p v outcome u) ∧
        ((∃ w, Speech.Inside response w) → Engine.Misses p v outcome response)) ∧
      ((∀ u, ¬Speech.Inside response (.string u)) → (∀ u, ¬Speech.Beside response (.string u)) →
        Engine.Misses p v outcome response) := by
  refine ⟨_, Node.run_of_judged hjudged initial peers s hreply, ?_, ?_, ?_⟩
  · intro u hinside
    exact Engine.records_of_found (.inl hinside)
  · intro u htextless hbeside
    refine ⟨fun hnothing => Engine.records_of_found (.inr ⟨hnothing, hbeside⟩), ?_⟩
    rintro ⟨w, hw⟩
    refine Engine.misses_of_not_found fun u' hfound => ?_
    rcases hfound with hinside | ⟨hnothing, -⟩
    · exact htextless u' hinside
    · exact hnothing w hw
  · intro hinside hbeside
    refine Engine.misses_of_not_found fun u hfound => ?_
    rcases hfound with h | ⟨-, h⟩
    · exact hinside u h
    · exact hbeside u h

/-! ## Two responses -/

/-- A response with the address beside data that have none. -/
def Speech.besideData : Json :=
  .ofMembers [("data", .ofMembers [("code", .int 0)]), ("voice_url", .string "http://b")]

/-- The same response with null in the place for the address among the data. -/
def Speech.besideNull : Json :=
  .ofMembers [("data", .ofMembers [("voice_url", .null)]), ("voice_url", .string "http://b")]

theorem Node.recording_turn_besideData :
    Speech.Judged default Samples.written.store Samples.speaker.node (.ok Speech.hello) ∧
      (Script.peers (.call Speech.hello.call) (.responding Speech.besideData)).1.answer =
        .ok Speech.besideData ∧
      ∃ outcome, ((Samples.speaker.node.run default ∅ Samples.written.store .plugin).run
          Script.peers.noting Sink.record none 0 ((.responding Speech.besideData, []), [])).1 =
            some outcome ∧
        Engine.Records Samples.written Samples.speaker outcome "http://b" := by
  have hjudged := Speech.judged_hello default
  have hreply : (Script.peers (.call Speech.hello.call) (.responding Speech.besideData)).1.answer =
      .ok Speech.besideData := rfl
  obtain ⟨outcome, hrun, -, hbeside, -⟩ := Node.recording_turn hjudged ∅ Script.peers _ hreply
  have hnothing : ∀ w, ¬Speech.Inside Speech.besideData w := by
    rintro w ⟨data, hdata, hw⟩
    cases hdata
    cases hw
  refine ⟨hjudged, hreply, outcome, by rw [hrun], ?_⟩
  exact (hbeside "http://b" (fun u => hnothing _) rfl).1 hnothing

/-- The address beside the data is there and no other text is, but the node fails: null in its place
among the data is taken for what was to be found. -/
theorem Engine.recording_not_found_beside :
    Speech.Judged default Samples.written.store Samples.speaker.node (.ok Speech.hello) ∧
      (Script.peers (.call Speech.hello.call) (.responding Speech.besideNull)).1.answer =
        .ok Speech.besideNull ∧
      (∀ u, ¬Speech.Inside Speech.besideNull (.string u)) ∧
      Speech.Beside Speech.besideNull (.string "http://b") ∧
      ∃ outcome, ((Samples.speaker.node.run default ∅ Samples.written.store .plugin).run
          Script.peers.noting Sink.record none 0 ((.responding Speech.besideNull, []), [])).1 =
            some outcome ∧
        Misses Samples.written Samples.speaker outcome Speech.besideNull := by
  have hjudged := Speech.judged_hello default
  have hreply : (Script.peers (.call Speech.hello.call) (.responding Speech.besideNull)).1.answer =
      .ok Speech.besideNull := rfl
  have htextless : ∀ u, ¬Speech.Inside Speech.besideNull (.string u) := by
    rintro u ⟨data, hdata, hu⟩
    cases hdata
    cases hu
  have hrun := Node.run_of_judged hjudged ∅ Script.peers _ hreply
  refine ⟨hjudged, hreply, htextless, rfl, _, by rw [hrun], ?_⟩
  refine misses_of_not_found fun u hfound => ?_
  rcases hfound with hinside | ⟨hnothing, -⟩
  · exact htextless u hinside
  · exact hnothing .null ⟨_, rfl, rfl⟩

end Flowline
