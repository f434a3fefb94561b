import Flowline.Document.Samples
import Flowline.Proofs.Inputs
import Flowline.Proofs.Questions
import Flowline.Run.Script

/-! # What a plugin node checks

A plugin node asks for nothing before it has all that it needs. It checks in order that it names a
tool, that it is the voice tool, and that there are a text and a voice, each of which may come from
either of two places. A value that is null is as good as none, be it a constant or a reference to
nothing, and the second place counts then. -/

namespace Flowline
open Moment

/-! ## Places to look -/

def Settings.Has (s : Settings) (key : String) (v : Json) : Prop :=
  s.params.get? key = some v ∧ v ≠ .null

/-- An input with a value that is not null. -/
def Node.Hears (n : Node) (store : Store) (name : String) (v : Json) : Prop :=
  (∃ b, n.settings.bound? name = some b ∧ store.value b = v) ∧ v ≠ .null

/-- What is found in the first place, or in the second if there is nothing in the first. -/
def FirstOf (first second : Json → Prop) (v : Json) : Prop :=
  first v ∨ (∀ w, ¬first w) ∧ second v

theorem Json.isNull_eq_false_iff {v : Json} : v.isNull = false ↔ v ≠ .null := by
  cases v <;> simp [isNull]

theorem Settings.param?_eq_some_iff {s : Settings} {key : String} {v : Json} :
    s.param? key = some v ↔ s.Has key v := by
  simp [param?, Has, Option.filter_eq_some_iff, Json.isNull_eq_false_iff]

def Node.heard? (n : Node) (store : Store) (name : String) : Option Json :=
  ((store.inputs n).get? name).filter fun v => !v.isNull

theorem Node.heard?_eq_some_iff {n : Node} {store : Store} {name : String} {v : Json} :
    n.heard? store name = some v ↔ n.Hears store name v := by
  simp [heard?, Hears, Option.filter_eq_some_iff, Json.isNull_eq_false_iff, Store.get?_inputs]

theorem or_found_iff {a b : Option Json} {first second : Json → Prop}
    (ha : ∀ v, a = some v ↔ first v) (hb : ∀ v, b = some v ↔ second v) (v : Json) :
    a.or b = some v ↔ FirstOf first second v := by
  simp [FirstOf, ← ha, ← hb, Option.or_eq_some_iff, Option.eq_none_iff_forall_ne_some]

theorem none_found_iff {a : Option Json} {found : Json → Prop} (ha : ∀ v, a = some v ↔ found v) :
    a = none ↔ ∀ v, ¬found v := by
  simp [← ha, Option.eq_none_iff_forall_ne_some]

/-! ## The checks -/

namespace Speech

variable {d : Defaults} {store : Store} {n : Node}

def Text (store : Store) (n : Node) : Json → Prop :=
  FirstOf (n.Hears store "text") (n.Hears store "input")

def Voice (store : Store) (n : Node) : Json → Prop :=
  FirstOf (n.Hears store "vcn") (n.settings.Has "vcn")

/-- How fast it is spoken: as an input says, if it says so by an integer. -/
def Speed (d : Defaults) (store : Store) (n : Node) (speed : Int) : Prop :=
  (∃ b, n.settings.bound? "speed" = some b ∧ (store.value b).int? = some speed) ∨
    (∀ b, n.settings.bound? "speed" = some b → (store.value b).int? = none) ∧ speed = d.speed

/-- The operation of the tool, which may be left open. -/
def Operation (n : Node) (operation : String) : Prop :=
  (∃ v, n.settings.Has "operationId" v ∧ v.shown = operation) ∨
    (∀ v, ¬n.settings.Has "operationId" v) ∧ operation = ""

/-- The node names the voice tool. -/
def Named (n : Node) : Prop := ∃ v, n.settings.Has "pluginId" v ∧ v.shown = tool

/-- What is to become of a plugin node: the first thing that it lacks, or what it has spoken. -/
inductive Judged (d : Defaults) (store : Store) (n : Node) : Except Failure Speech → Prop
  | nameless (h : ∀ v, ¬n.settings.Has "pluginId" v) :
      Judged d store n (.error (.missingParameter n.id "pluginId"))
  | unknown {v : Json} (h : n.settings.Has "pluginId" v) (hv : v.shown ≠ tool) :
      Judged d store n (.error (.unsupportedPlugin v.shown))
  | textless (hnamed : Named n) (h : ∀ v, ¬Text store n v) :
      Judged d store n (.error (.missingParameter n.id "text"))
  | voiceless {text : Json} (hnamed : Named n) (htext : Text store n text)
      (h : ∀ v, ¬Voice store n v) : Judged d store n (.error (.missingParameter n.id "vcn"))
  | accepted {text voice : Json} {speed : Int} {operation : String} (hnamed : Named n)
      (htext : Text store n text) (hvoice : Voice store n voice) (hspeed : Speed d store n speed)
      (hoperation : Operation n operation) :
      Judged d store n (.ok ⟨text.shown, voice.shown, speed, operation⟩)

theorem text_iff (v : Json) :
    (n.heard? store "text").or (n.heard? store "input") = some v ↔ Text store n v :=
  or_found_iff (fun _ => Node.heard?_eq_some_iff) (fun _ => Node.heard?_eq_some_iff) v

theorem voice_iff (v : Json) :
    (n.heard? store "vcn").or (n.settings.param? "vcn") = some v ↔ Voice store n v :=
  or_found_iff (fun _ => Node.heard?_eq_some_iff) (fun _ => Settings.param?_eq_some_iff) v

theorem speed_iff (speed : Int) :
    (((store.inputs n).get? "speed").bind Json.int?).getD d.speed = speed ↔
      Speed d store n speed := by
  rw [Store.get?_inputs, Speed]
  cases n.settings.bound? "speed" with
  | none => simp [eq_comm]
  | some b =>
    cases hint : (store.value b).int? with
    | none => simp [hint, eq_comm]
    | some m => simp [hint]

theorem operation_iff (operation : String) :
    (n.settings.text? "operationId").getD "" = operation ↔ Operation n operation := by
  simp only [Operation, ← Settings.param?_eq_some_iff, Settings.text?]
  cases n.settings.param? "operationId" <;> simp [eq_comm]

/-- The checks as they are made, on what is found. -/
theorem ofNode_eq : ofNode d (store.inputs n) n =
    match n.settings.param? "pluginId" with
    | none => .error (.missingParameter n.id "pluginId")
    | some plugin =>
      if plugin.shown ≠ tool then .error (.unsupportedPlugin plugin.shown)
      else
        match (n.heard? store "text").or (n.heard? store "input") with
        | none => .error (.missingParameter n.id "text")
        | some text =>
          match (n.heard? store "vcn").or (n.settings.param? "vcn") with
          | none => .error (.missingParameter n.id "vcn")
          | some voice => .ok ⟨text.shown, voice.shown,
              (((store.inputs n).get? "speed").bind Json.int?).getD d.speed,
              (n.settings.text? "operationId").getD ""⟩ := by
  have htext : (input? (store.inputs n) "text").or (input? (store.inputs n) "input") =
      ((n.heard? store "text").or (n.heard? store "input")).map Json.shown := Option.map_or.symm
  have hvoice : (input? (store.inputs n) "vcn").or (n.settings.text? "vcn") =
      ((n.heard? store "vcn").or (n.settings.param? "vcn")).map Json.shown := Option.map_or.symm
  rw [ofNode, htext, hvoice, Settings.text?]
  cases n.settings.param? "pluginId" with
  | none => rfl
  | some plugin =>
    dsimp only [Option.map_some]
    split
    · rfl
    · cases (n.heard? store "text").or (n.heard? store "input") with
      | none => rfl
      | some text => cases (n.heard? store "vcn").or (n.settings.param? "vcn") <;> rfl

theorem judged_ofNode : Judged d store n (ofNode d (store.inputs n) n) := by
  rw [ofNode_eq]
  cases hplugin : n.settings.param? "pluginId" with
  | none => exact .nameless ((none_found_iff fun _ => Settings.param?_eq_some_iff).1 hplugin)
  | some plugin =>
    have hplugin := Settings.param?_eq_some_iff.1 hplugin
    dsimp only
    split
    · rename_i htool
      exact .unknown hplugin htool
    · rename_i htool
      have hnamed : Named n := ⟨plugin, hplugin, not_not.1 htool⟩
      cases htext : (n.heard? store "text").or (n.heard? store "input") with
      | none => exact .textless hnamed ((none_found_iff text_iff).1 htext)
      | some text =>
        have htext := (text_iff text).1 htext
        cases hvoice : (n.heard? store "vcn").or (n.settings.param? "vcn") with
        | none => exact .voiceless hnamed htext ((none_found_iff voice_iff).1 hvoice)
        | some voice =>
          exact .accepted hnamed htext ((voice_iff voice).1 hvoice) ((speed_iff _).1 rfl)
            ((operation_iff _).1 rfl)

theorem Judged.eq_ofNode {verdict : Except Failure Speech} (h : Judged d store n verdict) :
    verdict = ofNode d (store.inputs n) n := by
  have hnamed : Named n → ∃ v, n.settings.param? "pluginId" = some v ∧ v.shown = tool := by
    simp only [Settings.param?_eq_some_iff]
    exact id
  rw [ofNode_eq]
  cases h with
  | nameless h => rw [(none_found_iff fun _ => Settings.param?_eq_some_iff).2 h]
  | unknown h hv =>
    rw [Settings.param?_eq_some_iff.2 h]
    exact (if_pos hv).symm
  | textless hn h =>
    obtain ⟨plugin, hplugin, htool⟩ := hnamed hn
    rw [hplugin, (none_found_iff text_iff).2 h]
    exact (if_neg (not_not.2 htool)).symm
  | voiceless hn htext h =>
    obtain ⟨plugin, hplugin, htool⟩ := hnamed hn
    rw [hplugin, (text_iff _).2 htext, (none_found_iff voice_iff).2 h]
    exact (if_neg (not_not.2 htool)).symm
  | accepted hn htext hvoice hspeed hoperation =>
    obtain ⟨plugin, hplugin, htool⟩ := hnamed hn
    rw [hplugin, (text_iff _).2 htext, (voice_iff _).2 hvoice, (speed_iff _).2 hspeed,
      (operation_iff _).2 hoperation]
    exact (if_neg (not_not.2 htool)).symm

end Speech

/-! ## The turn -/

/-- **A plugin node checks before it acts.** There is one verdict about a plugin node. If it is a
failure, the turn says so, asks nothing, announces no voice and writes nothing. Otherwise the turn
asks the voice tool once, for just what was found, and a failure to answer is the failure of the
node, which then writes nothing either. -/
theorem Node.plugin_turn {σ : Type} (d : Defaults) (initial : Table Json) (p : Progress)
    (v : Vertex) (peers : Peers σ) (s : σ) :
    ∃ verdict, (∀ r, Speech.Judged d p.store v.node r ↔ r = verdict) ∧
      (∀ f, verdict = .error f →
        (v.node.run d initial p.store .plugin).run peers.noting Sink.record none 0 ((s, []), []) =
          (some (.error f), (s, []),
            [.nodeStart v.id v.node.typeName, .nodeError v.id f.message]) ∧
        (Engine.advance p v (.error f)).store = p.store) ∧
      ∀ speech, verdict = .ok speech → ∃ call reply s' outcome,
        call = ⟨Speech.tool, speech.operation, Json.ofMembers [("text", .string speech.text),
          ("vcn", .string speech.voice), ("speed", .int speech.speed)]⟩ ∧
        peers (.call call) s = (reply, s') ∧ outcome = reply.answer.bind Speech.outputs ∧
        (v.node.run d initial p.store .plugin).run peers.noting Sink.record none 0 ((s, []), []) =
          (some outcome, (s', [.call call]),
            [.nodeStart v.id v.node.typeName, .voiceStart v.id speech.voice speech.text.length] ++
              v.node.closing outcome) ∧
        ∀ f, reply.answer = .error f →
          outcome = .error f ∧ (Engine.advance p v outcome).store = p.store := by
  refine ⟨Speech.ofNode d (p.store.inputs v.node) v.node, fun r => ⟨Speech.Judged.eq_ofNode, ?_⟩,
    ?_, ?_⟩
  · rintro rfl
    exact Speech.judged_ofNode
  · intro f hf
    have hattempt : v.node.attempt d initial p.store .plugin = pure (.error f) := by
      rw [attempt, Action.ofNode, hf]
      rfl
    refine ⟨?_, rfl⟩
    rw [Job.run_record, history_run, hattempt]
    rfl
  · intro speech hspeech
    have hattempt : v.node.attempt d initial p.store .plugin =
        (Action.speak speech).perform v.id := by
      rw [attempt, Action.ofNode, hspeech]
      rfl
    refine ⟨speech.call, (peers (.call speech.call) s).1, (peers (.call speech.call) s).2, _, rfl,
      rfl, rfl, ?_, ?_⟩
    · rw [Job.run_record, history_run, hattempt]
      dsimp only
      rw [events_event, events_append, events_map_event, Action.events_perform]
      rfl
    · intro f hf
      rw [hf]
      exact ⟨rfl, rfl⟩

/-! ## The podcast -/

/-- The node of the podcast that has the script spoken. -/
def Samples.speaker : Vertex := ⟨podcast.nodes[2], some .plugin⟩

/-- The podcast when its script is written. -/
def Samples.written : Progress := ⟨Store.empty.set llmId "output" (.string "hello"), none, none⟩

def Speech.hello : Speech := ⟨"hello", "x5_lingfeiyi_flow", 50, "synth-46EXFdLW"⟩

theorem Speech.judged_hello (d : Defaults) :
    Judged d Samples.written.store Samples.speaker.node (.ok hello) := by
  have hnode : ofNode d (Samples.written.store.inputs Samples.speaker.node)
      Samples.speaker.node = .ok hello := rfl
  exact hnode ▸ judged_ofNode

/-- The one call is for the text of the script, in the voice and by the operation that the document
names. -/
theorem Node.plugin_turn_podcast :
    let call : ToolCall := ⟨"tool@8b2262bef821000", "synth-46EXFdLW", .ofMembers
      [("text", .string "hello"), ("vcn", .string "x5_lingfeiyi_flow"), ("speed", .int 50)]⟩
    ∃ outcome s', (Samples.speaker.node.run default ∅ Samples.written.store .plugin).run
        Script.peers.noting Sink.record none 0
        ((.responding (.ofMembers [("voice_url", .string "http://b")]), []), []) =
      (some outcome, (s', [.call call]),
        [.nodeStart Samples.pluginId "node-plugin",
          .voiceStart Samples.pluginId "x5_lingfeiyi_flow" 5] ++
          Samples.speaker.node.closing outcome) ∧
      outcome = .ok (Table.ofList [("voice_url", .string "http://b")]) := by
  intro call
  obtain ⟨verdict, hverdict, -, hok⟩ := plugin_turn default ∅ Samples.written Samples.speaker
    Script.peers (.responding (.ofMembers [("voice_url", .string "http://b")]))
  obtain rfl := (hverdict _).1 (Speech.judged_hello default)
  obtain ⟨_, reply, s', outcome, rfl, hreply, rfl, hrun, -⟩ := hok _ rfl
  obtain ⟨rfl, rfl⟩ := Prod.mk.inj hreply
  exact ⟨_, _, hrun, rfl⟩

end Flowline
