import Flowline.Proofs.Speaking
import Flowline.Proofs.Turn

/-! # What a chat node asks

A chat node asks the model once, by one message: its template, filled in from the variables as they
were before its turn. It asks nothing if it has no template under either name. The domain and the
token limit may also stand under either of two names. A parameter that is null is as good as none,
and one that is no integer is no token limit; but a limit that is an integer and too large is a
limit still, so the second name is not looked at and the usual one holds. The reply is the one
output of the node. -/

namespace Flowline

/-! ## Texts of values -/

/-- What a value is as a text: a string itself, nothing for null, and otherwise its compact text. -/
inductive Json.Shows : Json → String → Prop
  | string (s : String) : Shows (.string s) s
  | null : Shows .null ""
  | other {v : Json} (hstring : ∀ s, v ≠ .string s) (hnull : v ≠ .null) : Shows v v.text

theorem Json.shows_iff {v : Json} {s : String} : v.Shows s ↔ v.shown = s := by
  constructor
  · rintro (_ | _ | ⟨hstring, hnull⟩)
    · rfl
    · rfl
    · cases v with
      | string s => exact (hstring s rfl).elim
      | null => exact (hnull rfl).elim
      | _ => rfl
  · rintro rfl
    cases v with
    | string s => exact .string s
    | null => exact .null
    | _ => exact .other nofun nofun

/-! ## What is found, or what holds otherwise -/

theorem getD_bind_iff {β : Type} {a : Option Json} {found : Json → Prop}
    (ha : ∀ v, a = some v ↔ found v) (view : Json → Option β) (usual x : β) :
    (a.bind view).getD usual = x ↔
      (∃ v, found v ∧ view v = some x) ∨ (∀ v, found v → view v = none) ∧ x = usual := by
  simp only [← ha]
  cases a with
  | none => simp [eq_comm]
  | some v =>
    cases hv : view v with
    | none => simp [hv, eq_comm]
    | some y => simp [hv]

theorem getD_map_iff {β : Type} {a : Option Json} {found : Json → Prop}
    (ha : ∀ v, a = some v ↔ found v) (f : Json → β) (usual x : β) :
    (a.map f).getD usual = x ↔ (∃ v, found v ∧ f v = x) ∨ (∀ v, ¬found v) ∧ x = usual := by
  simp only [← ha]
  cases a with
  | none => simp [eq_comm]
  | some v => simp

/-! ## Token limits -/

/-- A parameter with an integer view. -/
def Settings.Counts (s : Settings) (key : String) (n : Int) : Prop :=
  ∃ v, s.Has key v ∧ v.int? = some n

theorem Settings.int?_eq_some_iff {s : Settings} {key : String} {n : Int} :
    s.int? key = some n ↔ s.Counts key n := by
  simp [int?, Counts, Option.bind_eq_some_iff, param?_eq_some_iff]

namespace Prompt

variable {d : Defaults} {store : Store} {n : Node}

/-- The first integer under either name for the token limit. -/
def Limit (s : Settings) (limit : Int) : Prop :=
  s.Counts "maxTokens" limit ∨
    (∀ other, ¬s.Counts "maxTokens" other) ∧ s.Counts "max_tokens" limit

theorem limit_iff {s : Settings} {limit : Int} :
    (s.int? "maxTokens").or (s.int? "max_tokens") = some limit ↔ Limit s limit := by
  simp only [Limit, Option.or_eq_some_iff, Option.eq_none_iff_forall_ne_some, ne_eq,
    Settings.int?_eq_some_iff]

/-! ## The question -/

def Template (s : Settings) : Json → Prop := FirstOf (s.Has "prompt") (s.Has "template")

def Domain (d : Defaults) (s : Settings) (domain : String) : Prop :=
  (∃ v, FirstOf (s.Has "domain") (s.Has "model") v ∧ v.Shows domain) ∨
    (∀ v, ¬FirstOf (s.Has "domain") (s.Has "model") v) ∧ domain = d.domain

def Temperature (s : Settings) (temperature : Double) : Prop :=
  (∃ v, s.Has "temperature" v ∧ v.double? = some temperature) ∨
    (∀ v, s.Has "temperature" v → v.double? = none) ∧ temperature = defaultTemperature

/-- The number of tokens that the reply may have: the limit, if it fits 32 bits. -/
def MaxTokens (s : Settings) (maxTokens : Nat) : Prop :=
  Limit s maxTokens ∧ maxTokens < 0x100000000 ∨
    (∀ limit : Nat, Limit s limit → 0x100000000 ≤ limit) ∧ maxTokens = 2048

/-- The name of the reply: that of the first output that is declared. -/
def Named (s : Settings) (output : String) : Prop :=
  (∃ o rest, s.outputs = o :: rest ∧ o.name = output) ∨ s.outputs = [] ∧ output = "llm_output"

/-- What is to become of a chat node: it has no template, or it has a question. -/
inductive Judged (d : Defaults) (store : Store) (n : Node) : Except Failure Prompt → Prop
  | wordless (h : ∀ v, ¬Template n.settings v) :
      Judged d store n (.error (.missingParameter n.id "prompt"))
  | asked {template : Json} {text domain output : String} {temperature : Double} {maxTokens : Nat}
      (htemplate : Template n.settings template) (htext : template.Shows text)
      (hdomain : Domain d n.settings domain) (htemperature : Temperature n.settings temperature)
      (htokens : MaxTokens n.settings maxTokens) (hnamed : Named n.settings output) :
      Judged d store n (.ok ⟨store.resolve text, domain, temperature, maxTokens, output⟩)

theorem template_iff {s : Settings} (v : Json) :
    (s.param? "prompt").or (s.param? "template") = some v ↔ Template s v :=
  or_found_iff (fun _ => Settings.param?_eq_some_iff) (fun _ => Settings.param?_eq_some_iff) v

theorem template?_eq (s : Settings) :
    template? s = ((s.param? "prompt").or (s.param? "template")).map Json.shown :=
  Option.map_or.symm

theorem domain_iff {s : Settings} (domain : String) :
    ((s.text? "domain").or (s.text? "model")).getD d.domain = domain ↔ Domain d s domain := by
  have hfound (v : Json) : (s.param? "domain").or (s.param? "model") = some v ↔
      FirstOf (s.Has "domain") (s.Has "model") v :=
    or_found_iff (fun _ => Settings.param?_eq_some_iff) (fun _ => Settings.param?_eq_some_iff) v
  have htext : (s.text? "domain").or (s.text? "model") =
      ((s.param? "domain").or (s.param? "model")).map Json.shown := Option.map_or.symm
  simp only [htext, getD_map_iff hfound, Domain, Json.shows_iff]

theorem temperature_iff {s : Settings} (temperature : Double) :
    (s.double? "temperature").getD defaultTemperature = temperature ↔
      Temperature s temperature :=
  getD_bind_iff (fun _ => Settings.param?_eq_some_iff) Json.double? _ _

theorem maxTokens_iff {s : Settings} (maxTokens : Nat) :
    (maxTokens? s).getD defaultMaxTokens = maxTokens ↔ MaxTokens s maxTokens := by
  simp only [MaxTokens, ← limit_iff, maxTokens?, defaultMaxTokens]
  cases (s.int? "maxTokens").or (s.int? "max_tokens") with
  | none => simp [eq_comm]
  | some limit =>
    by_cases hfits : 0 ≤ limit ∧ limit < 0x100000000
    · obtain ⟨m, rfl⟩ := Int.eq_ofNat_of_zero_le hfits.1
      have hkept : Option.filter (fun n : Int => 0 ≤ n && n < 0x100000000) (some (m : Int)) =
          some (m : Int) := by simpa using hfits.2
      rw [hkept]
      constructor
      · rintro rfl
        have hm : m < 0x100000000 := by omega
        exact .inl ⟨rfl, hm⟩
      · rintro (⟨hm, -⟩ | ⟨hlarge, -⟩)
        · exact Int.ofNat.inj (Option.some.inj hm)
        · have := hlarge m rfl
          omega
    · have hdropped : Option.filter (fun n : Int => 0 ≤ n && n < 0x100000000) (some limit) =
          none := by simpa using hfits
      rw [hdropped]
      constructor
      · rintro rfl
        refine .inr ⟨fun m hm => ?_, rfl⟩
        have := Option.some.inj hm
        omega
      · rintro (⟨hm, hlt⟩ | ⟨-, rfl⟩)
        · have := Option.some.inj hm
          omega
        · rfl

theorem named_iff {s : Settings} (output : String) :
    (s.outputs.head?.map Output.name).getD defaultOutput = output ↔ Named s output := by
  rw [Named]
  cases s.outputs with
  | nil => simp [defaultOutput, eq_comm]
  | cons o rest => simp

theorem judged_ofNode : Judged d store n (ofNode d store n) := by
  rw [ofNode, template?_eq]
  cases htemplate : (n.settings.param? "prompt").or (n.settings.param? "template") with
  | none => exact .wordless ((none_found_iff template_iff).1 htemplate)
  | some template =>
    exact .asked ((template_iff template).1 htemplate) (Json.shows_iff.2 rfl) ((domain_iff _).1 rfl)
      ((temperature_iff _).1 rfl) ((maxTokens_iff _).1 rfl) ((named_iff _).1 rfl)

theorem Judged.eq_ofNode {verdict : Except Failure Prompt} (h : Judged d store n verdict) :
    verdict = ofNode d store n := by
  rw [ofNode, template?_eq]
  cases h with
  | wordless h => rw [(none_found_iff template_iff).2 h, Option.map_none]
  | asked htemplate htext hdomain htemperature htokens hnamed =>
    obtain rfl := Json.shows_iff.1 htext
    rw [(template_iff _).2 htemplate, (domain_iff _).2 hdomain, (temperature_iff _).2 htemperature,
      (maxTokens_iff _).2 htokens, (named_iff _).2 hnamed, Option.map_some]

end Prompt

/-! ## The turn -/

/-- **What a chat node asks.** There is one verdict about a chat node. If it has no template, the
turn says so, asks nothing and writes nothing. Otherwise the turn asks the model once, for just what
was found. If the model fails, so does the node, and it writes nothing; if it replies, the reply is
written under the name of the output, and nothing else in the store changes. -/
theorem Node.chat_turn {σ : Type} (d : Defaults) (initial : Table Json) (p : Progress)
    (v : Vertex) (peers : Peers σ) (s : σ) :
    ∃ verdict, (∀ r, Prompt.Judged d p.store v.node r ↔ r = verdict) ∧
      (∀ f, verdict = .error f →
        (v.node.run d initial p.store .llm).run peers.noting Sink.record none 0 ((s, []), []) =
          (some (.error f), (s, []),
            [.nodeStart v.id v.node.typeName, .nodeError v.id f.message]) ∧
        (Engine.advance p v (.error f)).store = p.store) ∧
      ∀ prompt, verdict = .ok prompt → ∃ request reply s' outcome,
        request = ⟨prompt.domain, prompt.temperature, prompt.maxTokens, [⟨.user, prompt.text⟩]⟩ ∧
        peers (.chat request) s = (reply, s') ∧
        (v.node.run d initial p.store .llm).run peers.noting Sink.record none 0 ((s, []), []) =
          (some outcome, (s', [.chat request]),
            [.nodeStart v.id v.node.typeName, .thinking v.id prompt.text] ++
              v.node.closing outcome) ∧
        (∀ f, reply.answer = .error f →
          outcome = .error f ∧ (Engine.advance p v outcome).store = p.store) ∧
        ∀ text, reply.answer = .ok text →
          outcome = .ok (Table.ofList [(prompt.output, .string text)]) ∧
          ∀ k, (Engine.advance p v outcome).store.values.get? k =
            if k = Store.key v.id prompt.output then some (.string text)
            else p.store.values.get? k := by
  refine ⟨Prompt.ofNode d p.store v.node, fun r => ⟨Prompt.Judged.eq_ofNode, ?_⟩, ?_, ?_⟩
  · rintro rfl
    exact Prompt.judged_ofNode
  · intro f hf
    have haction : Action.ofNode d initial p.store .llm v.node = .error f := by
      show (Prompt.ofNode d p.store v.node).map Action.prompt = _
      rw [hf]
      rfl
    exact ⟨Node.run_of_refused haction peers s, rfl⟩
  · intro prompt hprompt
    have haction : Action.ofNode d initial p.store .llm v.node = .ok (.prompt prompt) := by
      show (Prompt.ofNode d p.store v.node).map Action.prompt = _
      rw [hprompt]
      rfl
    refine ⟨prompt.request, (peers (.chat prompt.request) s).1, (peers (.chat prompt.request) s).2,
      _, rfl, rfl, Node.run_of_asks haction rfl peers s, ?_, ?_⟩
    · intro f hf
      rw [hf]
      exact ⟨rfl, rfl⟩
    · intro text htext
      rw [htext]
      exact ⟨rfl, fun k => Store.values_set p.store v.id prompt.output (.string text) k⟩

/-! ## The podcast -/

/-- The node of the podcast that has the script written. -/
def Samples.writer : Vertex := ⟨podcast.nodes[1], some .llm⟩

/-- The podcast when it has been told what it is about. -/
def Samples.told : Progress := ⟨Store.empty.set startId "user_input" (.string "rain"), none, none⟩

theorem Prompt.judged_rain (d : Defaults) :
    Judged d Samples.told.store Samples.writer.node (.ok ⟨"Write a podcast intro about rain",
      "generalv3.5", .ofDecimal false 7 (-1), 1024, "output"⟩) := by
  have htext : Samples.told.store.resolve ("Write a podcast intro about " ++
      Reference.placeholder ⟨Samples.startId, "user_input"⟩) =
        "Write a podcast intro about rain" := by decide +kernel
  rw [← htext]
  exact .asked (.inl ⟨rfl, nofun⟩) (.string _) (.inl ⟨_, .inl ⟨rfl, nofun⟩, .string _⟩)
    (.inl ⟨_, ⟨rfl, nofun⟩, rfl⟩) (.inl ⟨.inl ⟨_, ⟨rfl, nofun⟩, rfl⟩, by decide⟩)
    (.inl ⟨_, _, rfl, rfl⟩)

/-- The one question is the prompt about what the run was given, and the reply is written. -/
theorem Node.chat_turn_podcast :
    let request : ChatRequest := ⟨"generalv3.5", .ofDecimal false 7 (-1), 1024,
      [⟨.user, "Write a podcast intro about rain"⟩]⟩
    ∃ outcome s', (Samples.writer.node.run default ∅ Samples.told.store .llm).run
        Script.peers.noting Sink.record none 0 ((.replying "hello", []), []) =
      (some outcome, (s', [.chat request]),
        [.nodeStart Samples.llmId "node-llm",
          .thinking Samples.llmId "Write a podcast intro about rain"] ++
          Samples.writer.node.closing outcome) ∧
      outcome = .ok (Table.ofList [("output", .string "hello")]) ∧
      (Engine.advance Samples.told Samples.writer outcome).store.values.get?
        "node-llm::002.output" = some (.string "hello") := by
  intro request
  obtain ⟨verdict, hverdict, -, hok⟩ := chat_turn default ∅ Samples.told Samples.writer
    Script.peers (.replying "hello")
  obtain rfl := (hverdict _).1 (Prompt.judged_rain default)
  obtain ⟨_, reply, s', outcome, rfl, hreply, hrun, -, hwritten⟩ := hok _ rfl
  obtain ⟨rfl, rfl⟩ := Prod.mk.inj hreply
  obtain ⟨houtcome, hstore⟩ := hwritten "hello" rfl
  exact ⟨_, _, hrun, houtcome, (hstore _).trans (if_pos (by decide +kernel))⟩

end Flowline
