import Flowline.Chat.Frame
import Flowline.Proofs.Nesting

/-! # What an accumulator has taken

An accumulator is told texts one after another, some of them no frames, some of them
frames with an error code or behind the final one. Its state is a function of the
frames that it has accepted; a text that is refused changes nothing, and the final
frame gives the reply, once. -/

namespace Flowline

namespace ReplyFrame

/-! ## Frames as the service writes them -/

section Written
open Json

/-- A payload with these contents in the text of its choices. -/
def payloadOf (contents : List String) : Json :=
  .object [("choices", .object [("text",
    .array (contents.map fun c => .object [("content", .string c)]))])]

def written (code : Int) (message : String) (status : Int) (contents : List String) : Json :=
  .object [
    ("header", .object [("code", .int code), ("message", .string message),
      ("status", .int status)]),
    ("payload", payloadOf contents)]

/-- An integer of 64 bits with a sign. -/
def Wide (n : Int) : Prop := -0x8000000000000000 ≤ n ∧ n ≤ 0x7fffffffffffffff

instance (n : Int) : Decidable (Wide n) := inferInstanceAs (Decidable (_ ∧ _))

theorem readFragment?_tree (d : Nat) (c : String) :
    readFragment? (d + 1) (Json.object [("content", .string c)]).tree = some c := by
  simp [readFragment?, Record.read?, Record.keys?, Record.defaulted, tree, membersTrees,
    Reader.text]

theorem readFragments?_tree (d : Nat) (contents : List String) :
    Reader.list readFragment? (d + 2)
      (Json.array (contents.map fun c => .object [("content", .string c)])).tree =
        some contents := by
  simp only [Reader.list, tree, itemsTrees_eq_map, List.map_map]
  induction contents with
  | nil => rfl
  | cons c contents ih =>
    rw [List.map_cons, List.mapM_cons, ih]
    simp only [Function.comp_apply, readFragment?_tree]
    rfl

theorem readPayload?_tree (d : Nat) (contents : List String) :
    readPayload? (d + 4) (payloadOf contents).tree = some contents := by
  let choices : Json := .object [("text",
    .array (contents.map fun c => .object [("content", .string c)]))]
  have hchoices : readChoices? (d + 3) choices.tree = some contents := by
    simp only [choices]
    rw [tree, membersTrees, membersTrees]
    simp [readChoices?, Record.read?, Record.keys?, Record.defaulted, readFragments?_tree]
  have hne : choices.tree ≠ .null := by simp [choices, tree]
  show readPayload? (d + 4) (Json.object [("choices", choices)]).tree = some contents
  rw [tree, membersTrees, membersTrees]
  simp [readPayload?, Record.read?, Record.keys?, Record.optional, Record.defaulted,
    Reader.nullable_of_ne hne, hchoices]

theorem readHeader?_tree (d : Nat) {code status : Int} (hcode : Wide code) (hstatus : Wide status)
    (message : String) : readHeader? (d + 1) (Json.object [("code", .int code),
      ("message", .string message), ("status", .int status)]).tree =
        some ⟨code, message, status, none, none⟩ := by
  simp [readHeader?, Record.read?, Record.keys?, Record.optional, Record.defaulted,
    List.lookup_cons, tree, membersTrees, Json.int, Reader.int, Reader.intWithin, Reader.text,
    hcode.1, hcode.2, hstatus.1, hstatus.2]

theorem exact_written {code status : Int} (hcode : Wide code) (hstatus : Wide status)
    (message : String) (contents : List String) :
    Exact (written code message status contents).numbers := by
  have hfits : ∀ n : Int, Wide n → (Number.integer n).IsInteger ∧ (Number.integer n).Fits :=
    fun n hn => ⟨trivial, hn.1, Int.lt_of_le_of_lt hn.2 (by decide)⟩
  have hnumbers : (written code message status contents).numbers =
      [.integer code, .integer status] := by
    simp only [written, payloadOf, numbers_object, numbers_array, List.flatMap_map,
      List.flatMap_cons, List.flatMap_nil]
    simp [Json.int, numbers]
  rw [hnumbers]
  exact List.forall_mem_cons.2
    ⟨hfits code hcode, List.forall_mem_singleton.2 (hfits status hstatus)⟩

/-- **The fragments of a frame are the contents in its payload.** -/
theorem parse?_written {code status : Int} (hcode : Wide code) (hstatus : Wide status)
    (message : String) (contents : List String) :
    parse? (written code message status contents).text =
      some ⟨code, message, status, none, some contents⟩ := by
  have hne : (payloadOf contents).tree ≠ .null := by simp [payloadOf, tree]
  have hheader := readHeader?_tree 125 hcode hstatus message
  have hpayload := readPayload?_tree 122 contents
  rw [parse?, decode?, Tree.parse?_compact (exact_written hcode hstatus message contents),
    Option.bind_some, written, tree, membersTrees, membersTrees, membersTrees]
  simp [read?, depthLimit, Record.read?, Record.keys?, Record.required, Record.optional,
    Record.defaulted, List.lookup_cons, Reader.nullable_of_ne hne, hheader, hpayload]

end Written

/-! ## Frames in a row -/

/-- The contents of the payloads of some frames, joined in order. -/
def joined (fs : List ReplyFrame) : String := String.join (fs.flatMap fun f => f.payload?.getD [])

theorem joined_snoc (fs : List ReplyFrame) (f : ReplyFrame) :
    joined (fs ++ [f]) = joined fs ++ f.text := by
  simp [joined, text, fragments]

theorem isFinal_iff {f : ReplyFrame} : f.isFinal = true ↔ f.status = 2 := decide_eq_true_iff

/-- Frames that are not final stay so with one more that is not. -/
theorem open_snoc {fs : List ReplyFrame} {f : ReplyFrame} (h : ∀ g ∈ fs, g.status ≠ 2)
    (hs : f.status ≠ 2) : ∀ g ∈ fs ++ [f], g.status ≠ 2 :=
  List.forall_mem_append.2 ⟨h, List.forall_mem_singleton.2 hs⟩

end ReplyFrame

namespace Accumulator
open ReplyFrame

/-! ## Accepted frames -/

/-- A text is accepted as a frame behind the frames `before`: it is one, it has no error code, and
none of those was final. -/
def Accepts (before : List ReplyFrame) (text : String) (f : ReplyFrame) : Prop :=
  parse? text = some f ∧ f.code = 0 ∧ ∀ g ∈ before, g.status ≠ 2

/-- The frames accepted when one more text has come. -/
def accept (before : List ReplyFrame) (text : String) : List ReplyFrame :=
  match parse? text with
  | some f => if f.code = 0 ∧ ∀ g ∈ before, g.status ≠ 2 then before ++ [f] else before
  | none => before

/-- The frames accepted among some texts. -/
def accepted (texts : List String) : List ReplyFrame := texts.foldl accept []

theorem accepted_snoc (texts : List String) (text : String) :
    accepted (texts ++ [text]) = accept (accepted texts) text := List.foldl_append

theorem Accepts.accept_eq {before : List ReplyFrame} {text : String} {f : ReplyFrame}
    (h : Accepts before text f) : accept before text = before ++ [f] := by
  rw [accept, h.1]
  exact if_pos h.2

theorem accept_eq_of_refused {before : List ReplyFrame} {text : String}
    (h : ∀ f, ¬ Accepts before text f) : accept before text = before := by
  rw [accept]
  split
  · rename_i f hf
    exact if_neg fun hn => h f ⟨hf, hn⟩
  · rfl

/-! ## The state by the accepted frames -/

/-- The accumulator that has accepted some frames. -/
def ofFrames (fs : List ReplyFrame) : Accumulator :=
  if ∃ f ∈ fs, f.status = 2 then ⟨"", true⟩ else ⟨joined fs, false⟩

theorem ofFrames_open {fs : List ReplyFrame} (h : ∀ g ∈ fs, g.status ≠ 2) :
    ofFrames fs = ⟨joined fs, false⟩ := by
  rw [ofFrames, if_neg (by simpa using h)]

theorem ofFrames_done {fs : List ReplyFrame} (h : ∃ f ∈ fs, f.status = 2) :
    ofFrames fs = ⟨"", true⟩ := if_pos h

theorem done_ofFrames {fs : List ReplyFrame} :
    (ofFrames fs).done = true ↔ ∃ f ∈ fs, f.status = 2 := by
  unfold ofFrames
  split <;> simp_all

/-- A frame that is accepted is added, and the final one gives the reply. -/
theorem feed_of_accepts {fs : List ReplyFrame} {text : String} {f : ReplyFrame}
    (h : Accepts fs text f) : (ofFrames fs).feed text =
      (.ok (if f.status = 2 then some (joined (fs ++ [f])) else none), ofFrames (fs ++ [f])) := by
  obtain ⟨hparse, hcode, hopen⟩ := h
  rw [feed, hparse, ofFrames_open hopen]
  by_cases hs : f.status = 2
  · have hdone : ofFrames (fs ++ [f]) = ⟨"", true⟩ := ofFrames_done ⟨f, by simp, hs⟩
    simp [feedFrame, hcode, isFinal_iff.2 hs, hs, hdone, joined_snoc]
  · have hfinal : f.isFinal = false := Bool.eq_false_iff.mpr (mt isFinal_iff.1 hs)
    simp [feedFrame, hcode, hfinal, hs, ofFrames_open (open_snoc hopen hs), joined_snoc]

/-- A text that is refused is an error and changes nothing. -/
theorem feed_of_refused {fs : List ReplyFrame} {text : String}
    (h : ∀ f, ¬ Accepts fs text f) : ∃ e, (ofFrames fs).feed text = (.error e, ofFrames fs) := by
  unfold feed
  cases hparse : parse? text with
  | none => exact ⟨_, rfl⟩
  | some f =>
    dsimp only
    unfold feedFrame
    split
    · exact ⟨_, rfl⟩
    · rename_i hd
      have hcode : f.code ≠ 0 := by
        intro hcode
        refine h f ⟨hparse, hcode, ?_⟩
        intro g hg hs
        exact hd (done_ofFrames.2 ⟨g, hg, hs⟩)
      rw [if_pos hcode]
      exact ⟨_, rfl⟩

/-! ## Histories -/

/-- The accumulator after some texts. -/
def after (texts : List String) : Accumulator := texts.foldl (fun a text => (a.feed text).2) empty

/-- What each of some texts comes to. -/
def results : Accumulator → List String → List (Except Failure (Option String))
  | _, [] => []
  | a, text :: r => (a.feed text).1 :: results (a.feed text).2 r

/-- The replies among some results. -/
def replies (rs : List (Except Failure (Option String))) : List String := rs.filterMap fun
  | .ok reply? => reply?
  | .error _ => none

theorem feed_eq_ofFrames_accept (fs : List ReplyFrame) (text : String) :
    ((ofFrames fs).feed text).2 = ofFrames (accept fs text) := by
  by_cases h : ∃ f, Accepts fs text f
  · obtain ⟨f, hf⟩ := h
    rw [feed_of_accepts hf, hf.accept_eq]
  · have hn : ∀ f, ¬ Accepts fs text f := fun f hf => h ⟨f, hf⟩
    obtain ⟨e, he⟩ := feed_of_refused hn
    rw [he, accept_eq_of_refused hn]

theorem after_eq_ofFrames (texts : List String) : after texts = ofFrames (accepted texts) := by
  have hfold : ∀ fs, texts.foldl (fun a text => (a.feed text).2) (ofFrames fs) =
      ofFrames (texts.foldl accept fs) := by
    induction texts with
    | nil => exact fun fs => rfl
    | cons text r ih =>
      intro fs
      rw [List.foldl_cons, feed_eq_ofFrames_accept, ih, List.foldl_cons]
  exact hfold []

theorem accept_of_done {fs : List ReplyFrame} (h : ∃ f ∈ fs, f.status = 2) (text : String) :
    ∀ f, ¬ Accepts fs text f := by
  obtain ⟨g, hg, hs⟩ := h
  exact fun f hf => hf.2.2 g hg hs

/-- Nothing more is replied once the final frame has come. -/
theorem replies_of_done {fs : List ReplyFrame} (h : ∃ f ∈ fs, f.status = 2) (texts : List String) :
    replies (results (ofFrames fs) texts) = [] := by
  induction texts with
  | nil => rfl
  | cons text r ih =>
    obtain ⟨e, he⟩ := feed_of_refused (accept_of_done h text)
    rw [results, he]
    exact ih

theorem foldl_accept_of_done {fs : List ReplyFrame} (h : ∃ f ∈ fs, f.status = 2)
    (texts : List String) : texts.foldl accept fs = fs := by
  induction texts with
  | nil => rfl
  | cons text r ih => rw [List.foldl_cons, accept_eq_of_refused (accept_of_done h text), ih]

/-- While the final frame has not come there is at most one reply to come: everything accepted up
to that frame. -/
theorem replies_of_open {fs : List ReplyFrame} (h : ∀ g ∈ fs, g.status ≠ 2)
    (texts : List String) : replies (results (ofFrames fs) texts) =
      if ∃ f ∈ texts.foldl accept fs, f.status = 2 then [joined (texts.foldl accept fs)]
      else [] := by
  induction texts generalizing fs with
  | nil =>
    rw [List.foldl_nil, if_neg (by simpa using h)]
    rfl
  | cons text r ih =>
    rw [List.foldl_cons, results]
    by_cases hacc : ∃ f, Accepts fs text f
    · obtain ⟨f, hf⟩ := hacc
      rw [feed_of_accepts hf, hf.accept_eq]
      by_cases hs : f.status = 2
      · -- the reply comes here, and nothing is accepted or replied any more
        have hdone : ∃ g ∈ fs ++ [f], g.status = 2 := ⟨f, by simp, hs⟩
        have hrest := replies_of_done hdone r
        rw [foldl_accept_of_done hdone, if_pos hdone, if_pos hs]
        exact congrArg (joined (fs ++ [f]) :: ·) hrest
      · rw [if_neg hs, ← ih (open_snoc h hs)]
        rfl
    · have hn : ∀ f, ¬ Accepts fs text f := fun f hf => hacc ⟨f, hf⟩
      obtain ⟨e, he⟩ := feed_of_refused hn
      rw [he, accept_eq_of_refused hn, ← ih h]
      rfl

/-- **Histories of an accumulator.** Whatever texts have come, it is done if an accepted frame
was final, and the text so far is that of the accepted frames, or empty when it is done. A
text that is accepted next is answered by the reply if it is final and by nothing yet if not;
any other is an error and changes nothing, and once it is done every text is. Over the whole
history there is one reply if an accepted frame was final, and none otherwise. What a frame adds are
the contents that the service has written into the choices of its payload. -/
theorem feed_history (texts : List String) :
    ((after texts).done = true ↔ ∃ f ∈ accepted texts, f.status = 2) ∧
    (after texts).partialText = (if (after texts).done then "" else joined (accepted texts)) ∧
    (∀ text f, Accepts (accepted texts) text f →
      accepted (texts ++ [text]) = accepted texts ++ [f] ∧
      (after texts).feed text =
        (.ok (if f.status = 2 then some (joined (accepted texts ++ [f])) else none),
          after (texts ++ [text]))) ∧
    (∀ text, (∀ f, ¬ Accepts (accepted texts) text f) →
      accepted (texts ++ [text]) = accepted texts ∧
      ∃ e, (after texts).feed text = (.error e, after texts)) ∧
    ((after texts).done = true → ∀ text, ∃ e, (after texts).feed text = (.error e, after texts)) ∧
    replies (results empty texts) =
      (if ∃ f ∈ accepted texts, f.status = 2 then [joined (accepted texts)] else []) ∧
    (∀ code message status contents, Wide code → Wide status →
      parse? (written code message status contents).text =
        some ⟨code, message, status, none, some contents⟩) := by
  have hnone : ∀ g ∈ ([] : List ReplyFrame), g.status ≠ 2 := by simp
  have hreplies := replies_of_open hnone texts
  rw [after_eq_ofFrames]
  refine ⟨done_ofFrames, ?_, ?_, ?_, ?_, hreplies, ?_⟩
  · unfold ofFrames
    split <;> rfl
  · intro text f h
    have hsnoc : accepted (texts ++ [text]) = accepted texts ++ [f] := by
      rw [accepted_snoc, h.accept_eq]
    exact ⟨hsnoc, by rw [feed_of_accepts h, after_eq_ofFrames, hsnoc]⟩
  · intro text h
    exact ⟨by rw [accepted_snoc, accept_eq_of_refused h], feed_of_refused h⟩
  · intro hd text
    exact feed_of_refused (accept_of_done (done_ofFrames.1 hd) text)
  · exact fun code message status contents hcode hstatus =>
      parse?_written hcode hstatus message contents

theorem accepted_interrupted {frame : Int → Int → List String → String} {noise : String}
    (hframe : ∀ code ∈ [0, 10013], ∀ status ∈ [0, 1, 2], ∀ contents,
      parse? (frame code status contents) = some ⟨code, "", status, none, some contents⟩)
    (hnoise : parse? noise = none) :
    let texts := [frame 0 0 ["A"], noise, frame 10013 1 ["X"], frame 0 1 ["B", "C"]]
    let fs : List ReplyFrame := [⟨0, "", 0, none, some ["A"]⟩, ⟨0, "", 1, none, some ["B", "C"]⟩]
    accepted texts = fs ∧ accepted (texts ++ [frame 0 2 ["D"], frame 0 2 ["Y"]]) =
      fs ++ [⟨0, "", 2, none, some ["D"]⟩] := by
  intro texts fs
  have hopen : accepted texts = fs := by
    simp [accepted, accept, texts, fs, hframe, hnoise]
  refine ⟨hopen, ?_⟩
  rw [accepted, List.foldl_append, ← accepted, hopen]
  simp [accept, fs, hframe]

/-- Two frames with a text that is none and a fault between them, then the final one. -/
theorem feed_history_interrupted :
    let frame (code status : Int) (contents : List String) : String :=
      (written code "" status contents).text
    let texts := [frame 0 0 ["A"], "not json", frame 10013 1 ["X"], frame 0 1 ["B", "C"]]
    (after texts).partialText = "ABC" ∧
      replies (results empty (texts ++ [frame 0 2 ["D"], frame 0 2 ["Y"]])) = ["ABCD"] := by
  intro frame texts
  have hframe : ∀ code ∈ [0, 10013], ∀ status ∈ [0, 1, 2], ∀ contents,
      parse? (frame code status contents) = some ⟨code, "", status, none, some contents⟩ := by
    intro code hcode status hstatus contents
    have hwide : ∀ n ∈ [0, 10013] ++ [0, 1, 2], Wide n := by decide
    exact (feed_history texts).2.2.2.2.2.2 code "" status contents
      (hwide code (List.mem_append_left _ hcode)) (hwide status (List.mem_append_right _ hstatus))
  have hnoise : parse? "not json" = none := by decide +kernel
  obtain ⟨hopen, hall⟩ := accepted_interrupted hframe hnoise
  obtain ⟨hdone, hpartial, -⟩ := feed_history texts
  have hreplies := (feed_history (texts ++ [frame 0 2 ["D"], frame 0 2 ["Y"]])).2.2.2.2.2.1
  rw [hopen] at hdone hpartial
  rw [hall] at hreplies
  refine ⟨?_, ?_⟩
  · rw [hpartial, if_neg (by rw [hdone]; decide)]
    decide
  · rw [hreplies, if_pos (by decide)]
    decide

end Accumulator

end Flowline
