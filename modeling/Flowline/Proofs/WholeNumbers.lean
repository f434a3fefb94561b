import Flowline.Document.Samples
import Flowline.Proofs.Asking
import Flowline.Proofs.IntegerView

/-! # The integers that nodes go by

The speed of a recording, the token limit of a chat and the mode of a final node are integers that a
document may give, each with a usual value in reserve. Each is the integer that is written, or the
usual value, with one exception: a speed that is written as a number too large for the range becomes
the greatest integer of the range. The token limit does not show it, since that integer is out of
its own bounds, and neither does the mode, of which only the first is told from all others. -/

namespace Flowline
open Json

/-! ## What the nodes read -/

namespace Settings

variable {s : Settings} {key : String}

theorem int?_of_has {v : Json} (h : s.Has key v) : s.int? key = v.int? := by
  rw [int?, param?_eq_some_iff.2 h, Option.bind_some]

theorem int?_eq_none (h : ∀ v, ¬(s.Has key v ∧ v.int? ≠ none)) : s.int? key = none := by
  refine Option.eq_none_iff_forall_ne_some.2 fun m hm => ?_
  obtain ⟨v, hv, hview⟩ := int?_eq_some_iff.1 hm
  exact h v ⟨hv, by simp [hview]⟩

end Settings

theorem Speech.speed_of_ofNode {d : Defaults} {store : Store} {node : Node} {speech : Speech}
    (h : ofNode d (store.inputs node) node = .ok speech) {v : Json}
    (hv : (store.inputs node).get? "speed" = some v) : speech.speed = v.int?.getD d.speed := by
  have hjudged : Judged d store node (.ok speech) := h ▸ judged_ofNode
  cases hjudged with
  | accepted _ _ _ hspeed _ =>
    have hread := (speed_iff _).2 hspeed
    rw [hv] at hread
    exact hread.symm

namespace Prompt

/-- The parameter that is read as the token limit: the first with an integer view under either of
the names for it. -/
def Limiting (s : Settings) : Json → Prop :=
  FirstOf (fun v => s.Has "maxTokens" v ∧ v.int? ≠ none) fun v =>
    s.Has "max_tokens" v ∧ v.int? ≠ none

theorem int?_of_limiting {s : Settings} {v : Json} (h : Limiting s v) :
    (s.int? "maxTokens").or (s.int? "max_tokens") = v.int? := by
  rcases h with ⟨hhas, hview⟩ | ⟨hnone, hhas, -⟩
  · obtain ⟨m, hm⟩ := Option.ne_none_iff_exists'.1 hview
    rw [Settings.int?_of_has hhas, hm, Option.some_or]
  · rw [Settings.int?_eq_none hnone, Option.none_or, Settings.int?_of_has hhas]

theorem int?_of_not_limiting {s : Settings} (h : ∀ v, ¬Limiting s v) :
    (s.int? "maxTokens").or (s.int? "max_tokens") = none := by
  have hfirst : ∀ v, ¬(s.Has "maxTokens" v ∧ v.int? ≠ none) := fun v hv => h v (.inl hv)
  have hsecond : ∀ v, ¬(s.Has "max_tokens" v ∧ v.int? ≠ none) := fun v hv =>
    h v (.inr ⟨hfirst, hv⟩)
  rw [Settings.int?_eq_none hfirst, Settings.int?_eq_none hsecond, Option.none_or]

theorem maxTokens_of_ofNode {d : Defaults} {store : Store} {node : Node} {prompt : Prompt}
    (h : ofNode d store node = .ok prompt) :
    prompt.maxTokens = (maxTokens? node.settings).getD defaultMaxTokens := by
  have hjudged : Judged d store node (.ok prompt) := h ▸ judged_ofNode
  cases hjudged with
  | asked _ _ _ _ htokens _ => exact ((maxTokens_iff _).2 htokens).symm

/-- A token limit is what is written if that fits 32 bits; nothing that is put in the place of an
integer does. -/
theorem maxTokens_of_writes {d : Defaults} {store : Store} {node : Node} {prompt : Prompt}
    (h : ofNode d store node = .ok prompt) {n : Int} (hn : (Number.integer n).Fits) {v : Json}
    (hlimit : Limiting node.settings v) (hv : Writes n v) :
    (prompt.maxTokens : Int) = if 0 ≤ n ∧ n < 0x100000000 then n else 2048 := by
  have hseen := seen_int? hn hv
  rw [maxTokens_of_ofNode h, maxTokens?, int?_of_limiting hlimit]
  generalize v.int? = x at hseen
  -- what is written beyond the range is out of bounds, and so is what is seen instead
  have houtside : greatestInt < n → ¬(0 ≤ n ∧ n < 0x100000000) := by
    simp only [greatestInt]
    omega
  cases hseen with
  | itself =>
    rw [Option.filter_some]
    by_cases hbounds : 0 ≤ n ∧ n < 0x100000000
    · have hkeep : (0 ≤ n && n < 0x100000000) = true := by simpa using hbounds
      rw [if_pos hkeep, if_pos hbounds]
      exact Int.toNat_of_nonneg hbounds.1
    · have hdrop : ¬(0 ≤ n && n < 0x100000000) = true := by simpa using hbounds
      rw [if_neg hdrop, if_neg hbounds]
      rfl
  | greatest hlarge =>
    rw [if_neg (houtside hlarge)]
    rfl
  | nothing hlarge _ =>
    rw [if_neg (houtside hlarge)]
    rfl

end Prompt

/-! ## What the nodes do -/

/-- The speed goes out with the call for a recording. -/
theorem Speech.speed_call (speech : Speech) :
    speech.call.parameters.member? "speed" = some (int speech.speed) := by
  simp [call, ofMembers, member?, Entries.ofList, Entries.find?_insert]

theorem ok_of_map_ok {ε α β : Type} {f : α → β} (hf : ∀ a b, f a = f b → a = b) {x : Except ε α}
    {a : α} (h : x.map f = .ok (f a)) : x = .ok a := by
  cases x with
  | error e => cases h
  | ok b => exact congrArg Except.ok (hf b a (Except.ok.inj h))

/-- What a final node says in a mode. -/
def Node.textInMode (node : Node) (store : Store) (mode : Int) : String :=
  let template := (node.settings.text? "template").getD ""
  if mode = 1 ∧ template ≠ "" then store.resolve template else Node.listing (store.inputs node)

/-- **What an integer is taken for.** The digits of an integer that fits 64 bits are read as that
integer. If it fits with a sign, it is seen as itself, as a number and as a string with blanks
around it. Otherwise the string is seen as nothing, but the number as the greatest integer that
fits, so the two do not agree. A recording is made at the speed that is seen, or at the usual speed
if nothing is. A chat has the token limit that is written if it fits 32 bits, and the usual one
otherwise. A final node goes by the mode that is seen, or by mode one if nothing is. -/
theorem Json.integer_taken {n : Int} (hn : (Number.integer n).Fits) :
    Json.parse? (int n).text = some (int n) ∧
    (∀ v x, Writes n v → (v.int? = x ↔ Seen n v x)) ∧
    (∀ v, Quotes n v → ((int n).int? = v.int? ↔ n ≤ greatestInt)) ∧
    (∀ d initial store node speech v,
      Action.ofNode d initial store .plugin node = .ok (.speak speech) →
      (store.inputs node).get? "speed" = some v → Writes n v →
        ∃ x, Seen n v x ∧
          speech.call.parameters.member? "speed" = some (int (x.getD d.speed))) ∧
    (∀ d initial store node prompt,
      Action.ofNode d initial store .llm node = .ok (.prompt prompt) →
        (∀ v, Prompt.Limiting node.settings v → Writes n v →
          (prompt.request.maxTokens : Int) = if 0 ≤ n ∧ n < 0x100000000 then n else 2048) ∧
        ((∀ v, ¬Prompt.Limiting node.settings v) → prompt.request.maxTokens = 2048)) ∧
    ∀ d initial store node v, node.settings.Has "outputMode" v → Writes n v →
      ∃ x, Seen n v x ∧ Action.ofNode d initial store .final node =
        .ok (.publish (Table.ofList
          [(Node.finalOutput, .string (node.textInMode store (x.getD 1)))])) := by
  refine ⟨parse?_int_iff.2 hn, ?_, fun v => int?_eq_iff_of_quotes hn, ?_, ?_, ?_⟩
  · intro v x hv
    exact ⟨fun hx => hx ▸ seen_int? hn hv, Seen.int?_eq hn⟩
  · intro d initial store node speech v haction hspeed hv
    have hspeech : Speech.ofNode d (store.inputs node) node = .ok speech :=
      ok_of_map_ok (fun _ _ => Action.speak.inj) haction
    refine ⟨v.int?, seen_int? hn hv, ?_⟩
    rw [speech.speed_call, Speech.speed_of_ofNode hspeech hspeed]
  · intro d initial store node prompt haction
    have hprompt : Prompt.ofNode d store node = .ok prompt :=
      ok_of_map_ok (fun _ _ => Action.prompt.inj) haction
    refine ⟨fun v => Prompt.maxTokens_of_writes hprompt hn, fun hnone => ?_⟩
    rw [Prompt.request, Prompt.maxTokens_of_ofNode hprompt, Prompt.maxTokens?,
      Prompt.int?_of_not_limiting hnone]
    rfl
  · intro d initial store node v hmode hv
    refine ⟨v.int?, seen_int? hn hv, ?_⟩
    rw [Node.textInMode, ← Settings.int?_of_has hmode]
    rfl

/-! ## Beyond the range -/

namespace Samples

/-- The least integer that fits 64 bits only without a sign. -/
def beyond : Int := 0x8000000000000000

/-- The same in a string, a tab before its digits and an ideographic space behind them. -/
def beyondQuoted : Json := .string "\t9223372036854775808\u3000"

def usual : Defaults := ⟨"generalv3.5", 50⟩

/-- A node that has a greeting spoken at some speed. -/
def greeter (speed : Json) : Node :=
  ⟨pluginId, ⟨[constant "text" (.string "hello"), constant "vcn" (.string "x5"),
    constant "speed" speed], none, .ofList [("pluginId", .string Speech.tool)], []⟩⟩

/-- A node that asks for a greeting of limited length. -/
def asker (limit : Json) : Node := node llmId [("prompt", .string "hi"), ("maxTokens", limit)] []

/-- A node that says something in some mode. -/
def sayer (mode : Json) : Node :=
  node endId [("outputMode", mode), ("template", .string "bye")] []

end Samples

theorem Json.integer_taken_beyond :
    (Number.integer Samples.beyond).Fits ∧ Quotes Samples.beyond Samples.beyondQuoted ∧
    Samples.beyondQuoted.int? = none ∧
    (∃ speech, Action.ofNode Samples.usual ∅ .empty .plugin
        (Samples.greeter Samples.beyondQuoted) = .ok (.speak speech) ∧
      speech.call.parameters.member? "speed" = some (int 50)) ∧
    (∃ prompt, Action.ofNode Samples.usual ∅ .empty .llm
        (Samples.asker (int Samples.beyond)) = .ok (.prompt prompt) ∧
      prompt.request.maxTokens = 2048) ∧
    Action.ofNode Samples.usual ∅ .empty .final (Samples.sayer Samples.beyondQuoted) =
      .ok (.publish (Table.ofList [(Node.finalOutput, .string "bye")])) := by
  have hfits : (Number.integer Samples.beyond).Fits := ⟨by decide, by decide⟩
  have hlarge : greatestInt < Samples.beyond := by decide
  have hquotes : Quotes Samples.beyond Samples.beyondQuoted :=
    ⟨['\t'], ['\u3000'], List.all_eq_true.1 (by decide), List.all_eq_true.1 (by decide),
      congrArg string (by decide +kernel)⟩
  obtain ⟨-, hseen, -, hspeed, hlimit, hmode⟩ := integer_taken hfits
  have hnothing : Samples.beyondQuoted.int? = none :=
    (hseen _ _ (.inr hquotes)).2 (.nothing hlarge hquotes)
  refine ⟨hfits, hquotes, hnothing, ⟨_, rfl, ?_⟩, ⟨_, rfl, ?_⟩, ?_⟩
  · have hgiven : (Store.empty.inputs (Samples.greeter Samples.beyondQuoted)).get? "speed" =
        some Samples.beyondQuoted := rfl
    obtain ⟨x, hx, hcall⟩ := hspeed Samples.usual ∅ .empty _ _ _ rfl hgiven (.inr hquotes)
    rwa [← hx.int?_eq hfits, hnothing] at hcall
  · have hview : (int Samples.beyond).int? = some greatestInt :=
      (hseen _ _ (.inl rfl)).2 (.greatest hlarge)
    have hlimiting : Prompt.Limiting (Samples.asker (int Samples.beyond)).settings
        (int Samples.beyond) := .inl ⟨⟨rfl, nofun⟩, by rw [hview]; nofun⟩
    have hlimited := (hlimit Samples.usual ∅ .empty _ _ rfl).1 _ hlimiting (.inl rfl)
    exact Int.ofNat.inj hlimited
  · have hgiven : (Samples.sayer Samples.beyondQuoted).settings.Has "outputMode"
        Samples.beyondQuoted := ⟨rfl, nofun⟩
    obtain ⟨x, hx, hsays⟩ := hmode Samples.usual ∅ .empty _ _ hgiven (.inr hquotes)
    have hbye : (Samples.sayer Samples.beyondQuoted).textInMode .empty 1 = "bye" := by
      decide +kernel
    rw [← hx.int?_eq hfits, hnothing] at hsays
    exact hbye ▸ hsays

/-- A recording is asked for at a speed that is neither the one in the document nor the usual one:
the two ways to write an integer do not agree on one beyond the range. -/
theorem Speech.speed_not_as_written :
    Json.parse? "9223372036854775808" = some (int Samples.beyond) ∧
    (int Samples.beyond).int? = some 0x7fffffffffffffff ∧
    (string "9223372036854775808").int? = none ∧
    ∃ speech, Action.ofNode Samples.usual ∅ .empty .plugin
        (Samples.greeter (int Samples.beyond)) = .ok (.speak speech) ∧
      speech.speed ≠ Samples.beyond ∧ speech.speed ≠ Samples.usual.speed := by
  have htext : "9223372036854775808" = (int Samples.beyond).text := by decide +kernel
  refine ⟨?_, by decide +kernel, by decide +kernel, _, rfl, by decide +kernel, by decide +kernel⟩
  rw [htext]
  exact parse?_int_iff.2 ⟨by decide, by decide⟩

end Flowline
