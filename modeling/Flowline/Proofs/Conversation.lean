import Flowline.Proofs.Accumulation
import Flowline.Proofs.Encoding
import Flowline.Run.Remote

/-! # The outcome of a conversation

A message of the peer leaves the reply to those behind it, as a ping, a pong and a good frame before
the final one do, or it decides the outcome; the first one that decides is the last one that is
looked at. Pings and pongs make no difference, and neither does whether a frame comes as text or as
the bytes of that text. -/

namespace Flowline

/-! ## One message -/

namespace Accumulator

/-- What a text comes to: the outcome, or the reply as far as it has come. -/
def hear (a : Accumulator) (text : String) : Except Failure String ⊕ Accumulator :=
  match a.feed text with
  | (.error f, _) => .inl (.error f)
  | (.ok (some reply), _) => .inl (.ok reply)
  | (.ok none, a) => .inr a

theorem hear_of_accepts {fs : List ReplyFrame} {text : String} {f : ReplyFrame}
    (h : Accepts fs text f) : (ofFrames fs).hear text =
      if f.status = 2 then .inl (.ok (ReplyFrame.joined (fs ++ [f])))
      else .inr (ofFrames (fs ++ [f])) := by
  rw [hear, feed_of_accepts h]
  by_cases hs : f.status = 2
  · rw [if_pos hs, if_pos hs]
  · rw [if_neg hs, if_neg hs]

theorem hear_of_code_ne_zero {fs : List ReplyFrame} {text : String} {f : ReplyFrame}
    (hopen : ∀ g ∈ fs, g.status ≠ 2) (hparse : ReplyFrame.parse? text = some f)
    (hcode : f.code ≠ 0) :
    (ofFrames fs).hear text = .inl (.error (.remoteService f.code f.message)) := by
  have hfeed : (ofFrames fs).feed text =
      (.error (.remoteService f.code f.message), ofFrames fs) := by
    rw [feed, hparse, ofFrames_open hopen]
    exact if_pos hcode
  rw [hear, hfeed]

theorem hear_of_parse_eq_none {text : String} (h : ReplyFrame.parse? text = none)
    (a : Accumulator) : a.hear text =
      .inl (.error (.stream ("malformed frame: " ++ Failure.unreadableJson))) := by
  rw [hear, feed, h]

/-- A text with which the reply goes on is a frame that has no error code and is not the final one.
-/
theorem exists_parse_of_hear_eq_inr {a a' : Accumulator} {text : String}
    (h : a.hear text = .inr a') :
    ∃ f, ReplyFrame.parse? text = some f ∧ f.code = 0 ∧ f.status ≠ 2 := by
  cases hparse : ReplyFrame.parse? text with
  | none =>
    rw [hear_of_parse_eq_none hparse] at h
    cases h
  | some f =>
    rw [hear, feed, hparse] at h
    dsimp only at h
    rw [feedFrame] at h
    by_cases hdone : a.done = true
    · rw [if_pos hdone] at h
      cases h
    · rw [if_neg hdone] at h
      by_cases hcode : f.code ≠ 0
      · rw [if_pos hcode] at h
        cases h
      · rw [if_neg hcode] at h
        dsimp only at h
        by_cases hs : f.isFinal = true
        · rw [if_pos hs] at h
          cases h
        · exact ⟨f, rfl, Decidable.not_not.1 hcode, mt ReplyFrame.isFinal_iff.2 hs⟩

end Accumulator

namespace Incoming
open ReplyFrame Accumulator

/-- The text that a message carries. -/
def text? : Incoming → Option String
  | .text s => some s
  | .binary bytes => some (String.ofList (Text.ofUtf8Lossy bytes))
  | _ => none

/-- The frame that a message carries. -/
def frame? (m : Incoming) : Option ReplyFrame := m.text?.bind parse?

/-- Pings and pongs only keep the connection open. -/
def isIdle (m : Incoming) : Bool := m = .ping ∨ m = .pong

/-- A message behind which the reply goes on: a ping, a pong, or a frame that has no error code and
is not the final one. -/
def Continues (m : Incoming) : Prop :=
  m.isIdle ∨ ∃ f, m.frame? = some f ∧ f.code = 0 ∧ f.status ≠ 2

/-- The outcome that a message decides behind some frames. -/
inductive Decides (before : List ReplyFrame) : Incoming → Except Failure String → Prop
  | final {m f} (hm : m.frame? = some f) (hcode : f.code = 0) (hs : f.status = 2) :
      Decides before m (.ok (joined (before ++ [f])))
  | refused {m f} (hm : m.frame? = some f) (hcode : f.code ≠ 0) :
      Decides before m (.error (.remoteService f.code f.message))
  | malformed {m text} (hm : m.text? = some text) (hparse : parse? text = none) :
      Decides before m (.error (.stream ("malformed frame: " ++ Failure.unreadableJson)))
  | broken : Decides before .broken (.error (.stream Failure.brokenTransport))
  | close : Decides before .close (.error .incompleteStream)

theorem text?_binary (s : String) : (binary (Text.utf8 s.toList)).text? = some s := by
  rw [text?, Text.ofUtf8Lossy_utf8, String.ofList_toList]

theorem frame?_eq_some_iff {m : Incoming} {f : ReplyFrame} :
    m.frame? = some f ↔ ∃ text, m.text? = some text ∧ parse? text = some f :=
  Option.bind_eq_some_iff

/-- A message behind which the reply does not go on decides. -/
theorem exists_decides {m : Incoming} (h : ¬ m.Continues) (before : List ReplyFrame) :
    ∃ result, Decides before m result := by
  have hdata : ∀ text, m.text? = some text → ∃ result, Decides before m result := by
    intro text hm
    cases hparse : parse? text with
    | none => exact ⟨_, .malformed hm hparse⟩
    | some f =>
      have hf : m.frame? = some f := frame?_eq_some_iff.2 ⟨text, hm, hparse⟩
      by_cases hcode : f.code = 0
      · have hs : f.status = 2 := Decidable.not_not.1 fun hs => h (.inr ⟨f, hf, hcode, hs⟩)
        exact ⟨_, .final hf hcode hs⟩
      · exact ⟨_, .refused hf hcode⟩
  cases m with
  | text s => exact hdata s rfl
  | binary bytes => exact hdata _ rfl
  | ping => exact absurd (.inl rfl) h
  | pong => exact absurd (.inl rfl) h
  | close => exact ⟨_, .close⟩
  | broken => exact ⟨_, .broken⟩

/-- What a message comes to: the outcome, or the reply as far as it has come. -/
def effect (a : Accumulator) : Incoming → Except Failure String ⊕ Accumulator
  | .text s => a.hear s
  | .binary bytes => a.hear (String.ofList (Text.ofUtf8Lossy bytes))
  | .ping | .pong => .inr a
  | .close => .inl (.error .incompleteStream)
  | .broken => .inl (.error (.stream Failure.brokenTransport))

theorem effect_of_text? {m : Incoming} {text : String} (h : m.text? = some text)
    (a : Accumulator) : m.effect a = a.hear text := by
  cases m with
  | text s => exact congrArg a.hear (Option.some.inj h)
  | binary bytes => exact congrArg a.hear (Option.some.inj h)
  | _ => cases h

theorem effect_of_isIdle {m : Incoming} (h : m.isIdle) (a : Accumulator) : m.effect a = .inr a := by
  rcases of_decide_eq_true h with rfl | rfl <;> rfl

theorem effect_of_frame {m : Incoming} {f : ReplyFrame} {fs : List ReplyFrame}
    (hm : m.frame? = some f) (hcode : f.code = 0) (hs : f.status ≠ 2)
    (hopen : ∀ g ∈ fs, g.status ≠ 2) : m.effect (ofFrames fs) = .inr (ofFrames (fs ++ [f])) := by
  obtain ⟨text, htext, hparse⟩ := frame?_eq_some_iff.1 hm
  rw [effect_of_text? htext, hear_of_accepts ⟨hparse, hcode, hopen⟩, if_neg hs]

theorem effect_of_decides {m : Incoming} {fs : List ReplyFrame} {result : Except Failure String}
    (h : Decides fs m result) (hopen : ∀ g ∈ fs, g.status ≠ 2) :
    m.effect (ofFrames fs) = .inl result := by
  cases h with
  | final hm hcode hs =>
    obtain ⟨text, htext, hparse⟩ := frame?_eq_some_iff.1 hm
    rw [effect_of_text? htext, hear_of_accepts ⟨hparse, hcode, hopen⟩, if_pos hs]
  | refused hm hcode =>
    obtain ⟨text, htext, hparse⟩ := frame?_eq_some_iff.1 hm
    rw [effect_of_text? htext, hear_of_code_ne_zero hopen hparse hcode]
  | malformed hm hparse => rw [effect_of_text? hm, hear_of_parse_eq_none hparse]
  | broken => rfl
  | close => rfl

theorem continues_of_effect_eq_inr {m : Incoming} {a a' : Accumulator} (h : m.effect a = .inr a') :
    m.Continues := by
  have hdata : ∀ text, m.text? = some text → m.Continues := by
    intro text hm
    rw [effect_of_text? hm] at h
    obtain ⟨f, hparse, hf⟩ := exists_parse_of_hear_eq_inr h
    exact .inr ⟨f, frame?_eq_some_iff.2 ⟨text, hm, hparse⟩, hf⟩
  cases m with
  | text s => exact hdata s rfl
  | binary bytes => exact hdata _ rfl
  | ping => exact .inl rfl
  | pong => exact .inl rfl
  | close => cases h
  | broken => cases h

/-! ## The messages up to the outcome -/

/-- Messages that have decided nothing, and the frames among them. -/
inductive Pending : List Incoming → List ReplyFrame → Prop
  | nil : Pending [] []
  | idle {m ms fs} (hm : m.isIdle) (h : Pending ms fs) : Pending (m :: ms) fs
  | frame {m ms f fs} (hm : m.frame? = some f) (hcode : f.code = 0) (hs : f.status ≠ 2)
      (h : Pending ms fs) : Pending (m :: ms) (f :: fs)

/-- The outcome of a conversation in which the peer sends some messages and then no more, which is
`ending` if none of them decides. -/
inductive ComesTo (ending : Failure) : List Incoming → Except Failure String → Prop
  | decided {before fs m result later} (h : Pending before fs) (hm : Decides fs m result) :
      ComesTo ending (before ++ m :: later) result
  | ended {ms fs} (h : Pending ms fs) : ComesTo ending ms (.error ending)

/-- The messages behind which the reply goes on, as far as there are no others between them. -/
theorem exists_pending (items : List Incoming) : ∃ before fs rest,
    items = before ++ rest ∧ Pending before fs ∧ ∀ m ∈ rest.head?, ¬ m.Continues := by
  induction items with
  | nil => exact ⟨[], [], [], rfl, .nil, by simp⟩
  | cons m items ih =>
    by_cases hm : m.Continues
    · obtain ⟨before, fs, rest, rfl, hpending, hrest⟩ := ih
      rcases hm with hidle | ⟨f, hf, hcode, hs⟩
      · exact ⟨m :: before, fs, rest, rfl, .idle hidle hpending, hrest⟩
      · exact ⟨m :: before, f :: fs, rest, rfl, .frame hf hcode hs hpending, hrest⟩
    · exact ⟨[], [], m :: items, rfl, .nil, by simpa using hm⟩

theorem exists_comesTo (ending : Failure) (items : List Incoming) :
    ∃ result, ComesTo ending items result := by
  obtain ⟨before, fs, rest, rfl, hpending, hrest⟩ := exists_pending items
  cases rest with
  | nil => exact ⟨_, .ended (by rwa [List.append_nil])⟩
  | cons m later =>
    obtain ⟨result, hm⟩ := exists_decides (hrest m rfl) fs
    exact ⟨result, .decided hpending hm⟩

end Incoming

namespace ChatService
open Incoming Accumulator

/-- A message is read once: it gives the outcome, or those behind it are read with what it has
left. -/
theorem readReply_cons (ending : Failure) (a : Accumulator) (m : Incoming) (r : List Incoming) :
    readReply ending a (m :: r) = match m.effect a with
      | .inl result => result
      | .inr a => readReply ending a r := by
  have hdata : ∀ text, readReply.decide ending a text r = match a.hear text with
      | .inl result => result
      | .inr a => readReply ending a r := by
    intro text
    rw [readReply.decide, hear]
    rcases a.feed text with ⟨_ | _ | _, _⟩ <;> rfl
  cases m with
  | text s =>
    rw [readReply]
    exact hdata s
  | binary bytes =>
    rw [readReply]
    exact hdata _
  | _ => rw [readReply, effect]

/-- Messages that decide nothing leave the frames among them, and none of these is final. -/
theorem readReply_pending (ending : Failure) {ms : List Incoming} {fs gs : List ReplyFrame}
    (h : Pending ms fs) (hopen : ∀ g ∈ gs, g.status ≠ 2) (rest : List Incoming) :
    (∀ g ∈ gs ++ fs, g.status ≠ 2) ∧
    readReply ending (ofFrames gs) (ms ++ rest) = readReply ending (ofFrames (gs ++ fs)) rest := by
  induction h generalizing gs with
  | nil => exact ⟨by rwa [List.append_nil], by rw [List.append_nil, List.nil_append]⟩
  | idle hm _ ih =>
    rw [List.cons_append, readReply_cons, effect_of_isIdle hm]
    exact ih hopen
  | @frame m ms f fs hm hcode hs _ ih =>
    rw [List.cons_append, readReply_cons, effect_of_frame hm hcode hs hopen, List.append_cons]
    exact ih (ReplyFrame.open_snoc hopen hs)

theorem readReply_of_comesTo {ending : Failure} {items : List Incoming}
    {result : Except Failure String} (h : ComesTo ending items result) :
    readReply ending empty items = result := by
  have hnone : ∀ g ∈ ([] : List ReplyFrame), g.status ≠ 2 := by simp
  -- an accumulator that nothing has come to is the one that has accepted no frame
  show readReply ending (ofFrames []) items = result
  cases h with
  | @decided before fs m _ later h hm =>
    obtain ⟨hopen, hrun⟩ := readReply_pending ending h hnone (m :: later)
    rw [List.nil_append] at hopen hrun
    rw [hrun, readReply_cons, effect_of_decides hm hopen]
  | ended h =>
    have hrun := (readReply_pending ending h hnone []).2
    rwa [List.append_nil, readReply] at hrun

/-- Every sequence of messages has one outcome, and that is what reading comes to. -/
theorem readReply_eq_iff {ending : Failure} {items : List Incoming}
    {result : Except Failure String} :
    readReply ending empty items = result ↔ ComesTo ending items result := by
  refine ⟨?_, readReply_of_comesTo⟩
  -- there is some outcome, and what is read is that one
  rintro rfl
  obtain ⟨result, h⟩ := exists_comesTo ending items
  rwa [readReply_of_comesTo h]

/-! ## What makes no difference -/

theorem readReply_filter (ending : Failure) (a : Accumulator) (items : List Incoming) :
    readReply ending a (items.filter (!·.isIdle)) = readReply ending a items := by
  induction items generalizing a with
  | nil => rfl
  | cons m items ih =>
    by_cases hm : m.isIdle
    · rw [List.filter_cons_of_neg (by simpa using hm), ih, readReply_cons, effect_of_isIdle hm]
    · rw [List.filter_cons_of_pos (by simpa using hm), readReply_cons, readReply_cons]
      cases m.effect a with
      | inl result => rfl
      | inr a => exact ih a

/-- Messages in front make no difference between those behind them. -/
theorem readReply_append_congr {ending ending' : Failure} {rest rest' : List Incoming}
    (h : ∀ a, readReply ending a rest = readReply ending' a rest') (before : List Incoming)
    (a : Accumulator) :
    readReply ending a (before ++ rest) = readReply ending' a (before ++ rest') := by
  induction before generalizing a with
  | nil => exact h a
  | cons m before ih =>
    rw [List.cons_append, List.cons_append, readReply_cons, readReply_cons]
    cases m.effect a with
    | inl result => rfl
    | inr a => exact ih a

theorem readReply_cons_of_not_continues {m : Incoming} (h : ¬ m.Continues)
    (ending ending' : Failure) (r r' : List Incoming) (a : Accumulator) :
    readReply ending a (m :: r) = readReply ending' a (m :: r') := by
  rw [readReply_cons, readReply_cons]
  cases heff : m.effect a with
  | inl result => rfl
  | inr a' => exact absurd (continues_of_effect_eq_inr heff) h

theorem readReply_text (ending : Failure) (text : String) (r : List Incoming) (a : Accumulator) :
    readReply ending a (.text text :: r) =
      readReply ending a (.binary (Text.utf8 text.toList) :: r) := by
  rw [readReply_cons, readReply_cons, effect_of_text? (text?_binary text)]
  rfl

/-- There is no reply from a peer that does not accept. -/
theorem exists_accepted {s : ChatService} {contact : Contact} {reply : String}
    (h : s.converse contact = .ok reply) : ∃ items ends, contact = .accepted items ends := by
  cases contact with
  | accepted items ends => exact ⟨items, ends, rfl⟩
  | refused => cases h
  | silent => cases h
  | rejected =>
    rw [converse] at h
    split at h <;> cases h
  | cut =>
    rw [converse] at h
    split at h <;> cases h

theorem converse_accepted {s : ChatService} (hconnect : 0 < s.connectLimit)
    (hreply : 0 < s.replyLimit) (items : List Incoming) (ends : Bool) :
    s.converse (.accepted items ends) =
      readReply (if ends then .incompleteStream else timeout replyPhase s.replyLimit) empty
        items := by
  rw [converse, if_neg (Nat.ne_of_gt hconnect), if_neg (Nat.ne_of_gt hreply)]

end ChatService

/-! ## Conversations -/

namespace Remote
open Incoming

variable {σ : Type}

/-- **The outcome of a conversation.** Where there is time for both phases and the connection is
accepted, the answer to a request is what the messages of the peer come to. The first message that
does not go on with the reply decides: a final frame gives all fragments up to its own, a frame with
an error code its code and message, and anything else is a failure of the stream; a close and the
end of the messages leave the reply incomplete. So a reply is never given before its final frame,
pings and pongs make no difference, nor does anything behind the message that decides, and a text
may as well come as its bytes. -/
theorem converse_decided (r : Remote) (hconnect : 0 < r.chat.connectLimit)
    (hreply : 0 < r.chat.replyLimit) :
    (∀ (net : Network σ) (date : String) (q : ChatRequest) (s : σ) (url : String)
        (items : List Incoming) (ends : Bool), r.chat.signed net.read date = .ok url →
      (net.connect url (r.chat.request q) s).1 = .accepted items ends →
      (r.converse net date q s).1.answer = r.chat.converse (.accepted items ends)) ∧
    (∀ items result, r.chat.converse (.accepted items true) = result ↔
      ComesTo .incompleteStream items result) ∧
    (∀ contact reply, r.chat.converse contact = .ok reply →
      ∃ before fs m f later ends, contact = .accepted (before ++ m :: later) ends ∧
        Pending before fs ∧ m.frame? = some f ∧ f.code = 0 ∧ f.status = 2 ∧
        reply = ReplyFrame.joined (fs ++ [f])) ∧
    (∀ items items' ends, items.filter (!·.isIdle) = items'.filter (!·.isIdle) →
      r.chat.converse (.accepted items ends) = r.chat.converse (.accepted items' ends)) ∧
    (∀ before m later later' ends ends', ¬ m.Continues →
      r.chat.converse (.accepted (before ++ m :: later) ends) =
        r.chat.converse (.accepted (before ++ m :: later') ends')) ∧
    (∀ before text later ends,
      r.chat.converse (.accepted (before ++ .text text :: later) ends) =
        r.chat.converse (.accepted (before ++ .binary (Text.utf8 text.toList) :: later) ends)) := by
  have hread := ChatService.converse_accepted hconnect hreply
  refine ⟨?_, ?_, ?_, ?_, ?_, ?_⟩
  · intro net date q s url items ends hsigned hcontact
    rw [converse, hsigned]
    exact congrArg r.chat.converse hcontact
  · intro items result
    rw [hread]
    exact ChatService.readReply_eq_iff
  · intro contact reply h
    obtain ⟨items, ends, rfl⟩ := ChatService.exists_accepted h
    rw [hread] at h
    cases ChatService.readReply_eq_iff.1 h with
    | decided hpending hm =>
      cases hm with
      | final hf hcode hs => exact ⟨_, _, _, _, _, ends, rfl, hpending, hf, hcode, hs, rfl⟩
  · intro items items' ends h
    rw [hread, hread, ← ChatService.readReply_filter _ _ items, h, ChatService.readReply_filter]
  · intro before m later later' ends ends' hm
    rw [hread, hread]
    exact ChatService.readReply_append_congr
      (ChatService.readReply_cons_of_not_continues hm _ _ later later') before _
  · intro before text later ends
    rw [hread, hread]
    exact ChatService.readReply_append_congr (ChatService.readReply_text _ text later) before _

/-- A chat service that is waited for, and no tools or flows. -/
def patient : Remote where
  chat := { (default : ChatService) with connectLimit := 10000, replyLimit := 60000 }
  tools := default
  flow id := .error (.flowNotFound id)

/-- The text of a frame with one fragment. -/
def frameText (status fragment : String) : String :=
  "\x7b\"header\":\x7b\"status\":" ++ status ++ "\x7d,\"payload\":\x7b\"choices\":\x7b\"text\":" ++
    "[\x7b\"content\":\"" ++ fragment ++ "\"\x7d]\x7d\x7d\x7d"

/-- The fragments around a ping are joined, and the close behind the final frame is not looked
at. -/
theorem converse_patient : 0 < patient.chat.connectLimit ∧ 0 < patient.chat.replyLimit ∧
    patient.chat.converse (.accepted
      [.text (frameText "1" "to"), .ping, .text (frameText "2" "day"), .close] true) =
        .ok "today" := by
  have hfirst : ReplyFrame.parse? (frameText "1" "to") = some ⟨0, "", 1, none, some ["to"]⟩ := by
    decide +kernel
  have hfinal : ReplyFrame.parse? (frameText "2" "day") = some ⟨0, "", 2, none, some ["day"]⟩ := by
    decide +kernel
  refine ⟨by decide, by decide, ?_⟩
  refine ((converse_decided (σ := Unit) patient (by decide) (by decide)).2.1 _ _).2 ?_
  have hpending := Pending.frame (m := .text _) hfirst rfl (by decide) (.idle (m := .ping) rfl .nil)
  exact .decided hpending (.final (m := .text _) hfinal rfl rfl)

end Remote

end Flowline
