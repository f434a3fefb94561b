import Flowline.Command.Outcome
import Flowline.Event.Declared
import Flowline.Proofs.Compact
import Flowline.Proofs.History
import Mathlib.Data.List.Basic

/-! # Event streams can be read back

A reader of event streams knows nothing of events: it cuts a text into lines, at line
feeds, carriage returns or both together, and the lines into frames, at blank lines.
Reading the frames of some events gives one frame for each event, with the name and the
data of this event, because no event can bring a line end of its own into its frame. What
the command line prints in a run is such a stream. -/

namespace Flowline

/-! ## The reader -/

/-- How far a stream has been read: the lines of each frame that a blank line has ended, the lines
since then, and the line that has not ended. -/
structure StreamReader where
  frames : List (List String)
  lines : List String
  line : List Char
  /-- A line feed now would belong to the carriage return before it. -/
  returned : Bool
deriving DecidableEq, Repr

namespace StreamReader

/-- Right after a frame, with nothing left over. -/
def between (frames : List (List String)) : StreamReader := ⟨frames, [], [], false⟩

def endLine (r : StreamReader) (returned : Bool) : StreamReader :=
  -- a blank line ends a frame even if there is nothing in it
  if r.line.isEmpty then ⟨r.frames ++ [r.lines], [], [], returned⟩
  else ⟨r.frames, r.lines ++ [.ofList r.line], [], returned⟩

def step (r : StreamReader) (c : Char) : StreamReader :=
  if c = '\n' then
    if r.returned then { r with returned := false } else r.endLine false
  else if c = '\r' then r.endLine true
  else { r with line := r.line ++ [c], returned := false }

def feed (r : StreamReader) (text : String) : StreamReader := text.toList.foldl step r

def read (text : String) : StreamReader := (between []).feed text

def field? (key line : String) : Option String :=
  (line.toList.dropPrefix? (key ++ ": ").toList).map String.ofList

/-- The name and the data of a frame, which has to have one line for each and no other. -/
def decode? : List String → Option (String × String)
  | [first, second] => do return (← field? "event" first, ← field? "data" second)
  | _ => none

/-- Every kind of line end counts, and a blank line after a blank line ends a frame too. -/
example : (read "event: a\rdata: b\r\n\n\r\n").frames = [["event: a", "data: b"], []] := by
  decide +kernel

/-! ## Lines and frames -/

variable {frames : List (List String)} {lines : List String}

theorem feed_append (r : StreamReader) (s t : String) : r.feed (s ++ t) = (r.feed s).feed t := by
  rw [feed, String.toList_append, List.foldl_append]
  rfl

theorem foldl_unbroken {cs : List Char} (h : Unbroken cs) (line : List Char) :
    cs.foldl step ⟨frames, lines, line, false⟩ = ⟨frames, lines, line ++ cs, false⟩ := by
  induction cs generalizing line with
  | nil => rw [List.foldl_nil, List.append_nil]
  | cons c cs ih =>
    -- neither kind of line end is in the text, so `c` goes to the line
    obtain ⟨hn, hr⟩ := h.lineEnds_notMem
    have hstep : step ⟨frames, lines, line, false⟩ c = ⟨frames, lines, line ++ [c], false⟩ := by
      rw [step, if_neg (List.ne_of_not_mem_cons hn).symm, if_neg (List.ne_of_not_mem_cons hr).symm]
    rw [List.foldl_cons, hstep, ih (Unbroken.cons_iff.1 h).2, List.append_assoc,
      List.singleton_append]

theorem feed_line {text : String} (h : Unbroken text.toList) (hne : text ≠ "") :
    feed ⟨frames, lines, [], false⟩ (text ++ "\n") = ⟨frames, lines ++ [text], [], false⟩ := by
  have hline : text.toList.isEmpty = false := by simpa using hne
  have htext : feed ⟨frames, lines, [], false⟩ text = ⟨frames, lines, text.toList, false⟩ :=
    foldl_unbroken h []
  have hend : endLine ⟨frames, lines, text.toList, false⟩ false =
      ⟨frames, lines ++ [text], [], false⟩ := by
    simp [endLine, hline]
  rw [feed_append, htext]
  exact hend

theorem feed_blank : feed ⟨frames, lines, [], false⟩ "\n" = between (frames ++ [lines]) := rfl

theorem field?_append (key said : String) : field? key (key ++ ": " ++ said) = some said := by
  rw [field?, String.toList_append, List.dropPrefix?_append_of_beq _ (beq_self_eq_true _),
    Option.map_some, String.ofList_toList]

end StreamReader

/-! ## Events -/

namespace Event

open StreamReader

theorem unbroken_name (e : Event) : Unbroken e.name.toList := by
  cases e <;> simp only [name] <;> decide

def lines (e : Event) : List String := ["event: " ++ e.name, "data: " ++ e.data.text]

theorem frame_eq_lines (e : Event) :
    e.frame = ("event: " ++ e.name ++ "\n") ++ ("data: " ++ e.data.text ++ "\n") ++ "\n" := by
  have hsplit : "\ndata: " = "\n" ++ "data: " := rfl
  have hblank : "\n\n" = "\n" ++ "\n" := rfl
  simp only [frame, hsplit, hblank, String.append_assoc]

theorem feed_frame (e : Event) (frames : List (List String)) :
    (between frames).feed e.frame = between (frames ++ [e.lines]) := by
  have hname : Unbroken ("event: " ++ e.name).toList := by
    rw [String.toList_append, Unbroken.append_iff]
    exact ⟨by decide, e.unbroken_name⟩
  have hdata : Unbroken ("data: " ++ e.data.text).toList := by
    rw [String.toList_append, Unbroken.append_iff]
    exact ⟨by decide, e.data.unbroken_text⟩
  rw [frame_eq_lines, feed_append, feed_append, between, feed_line hname (by simp),
    feed_line hdata (by simp), feed_blank]
  rfl

theorem decode?_lines (e : Event) : decode? e.lines = some (e.name, e.data.text) := by
  have hname : field? "event" ("event: " ++ e.name) = some e.name := field?_append "event" e.name
  have hdata : field? "data" ("data: " ++ e.data.text) = some e.data.text :=
    field?_append "data" e.data.text
  rw [lines, decode?, hname, hdata]
  rfl

/-! ## Streams -/

/-- The frames of some events, one after another. -/
def stream (es : List Event) : String := String.join (es.map frame)

theorem stream_cons (e : Event) (es : List Event) :
    stream (e :: es) = e.frame ++ stream es := String.join_cons

theorem feed_stream (es : List Event) (frames : List (List String)) :
    (between frames).feed (stream es) = between (frames ++ es.map lines) := by
  induction es generalizing frames with
  | nil => rw [List.map_nil, List.append_nil]; rfl
  | cons e es ih =>
    rw [stream_cons, feed_append, feed_frame, ih, List.map_cons, List.append_assoc,
      List.singleton_append]

theorem read_stream (es : List Event) : read (stream es) = between (es.map lines) :=
  feed_stream es []

theorem decode_stream (es : List Event) :
    (es.map lines).mapM decode? = some (es.map fun e => (e.name, e.data.text)) := by
  induction es with
  | nil => rfl
  | cons e es ih => rw [List.map_cons, List.mapM_cons, decode?_lines, ih]; rfl

theorem foldl_frame (es : List Event) (text : String) :
    es.foldl (fun t e => t ++ e.frame) text = text ++ stream es := by
  induction es generalizing text with
  | nil => exact String.append_empty.symm
  | cons e es ih =>
    rw [List.foldl_cons, ih, stream_cons, String.append_assoc]

end Event

/-! ## The command line -/

section

variable {α σ τ : Type}

theorem Job.run_foldl (peers : Peers σ) (sink : Sink τ) (limit : Option Nat) (elapsed : Nat)
    (job : Job α) (s : σ) (es : List Event) (t : τ) :
    job.run peers sink limit elapsed (s, es.foldl sink t) =
      (job.run peers Sink.record limit elapsed (s, es)).map id (.map id (·.foldl sink t)) := by
  -- the sink is at every time what it makes of the events recorded so far
  induction job generalizing elapsed s es with
  | done a => rfl
  | emit e r ih =>
    have hsnoc : sink (es.foldl sink t) e = (Sink.record es e).foldl sink t := by
      rw [Sink.record, List.foldl_append]
      rfl
    rw [run_emit, run_emit, hsnoc, ih]
  | ask q r ih =>
    rw [run_ask, run_ask]
    by_cases h : withinLimit limit (elapsed + (peers q s).1.delay)
    · rw [if_pos h, if_pos h, ih]
    · rw [if_neg h, if_neg h]
      rfl

theorem Service.run_foldl (peers : Peers σ) (sink : Sink τ) (limit : Option Nat)
    (job : Job (Except Failure Report)) (s : σ) (t : τ) :
    run peers sink limit job (s, t) =
      (run peers Sink.record limit job (s, [])).map id (.map id (·.foldl sink t)) := by
  have hrun := Job.run_foldl peers sink limit 0 job s [] t
  rw [List.foldl_nil] at hrun
  simp only [run, hrun, Prod.map_fst, Prod.map_snd, id_eq, Prod.map_apply, Sink.record,
    List.foldl_append, List.foldl_cons, List.foldl_nil]

namespace Command

/-- The reports of a run, none if it could not be started. -/
def reports (m : Machine) (net : Network σ) (date : String) (c : Config) (source : Source)
    (inputs : Table Json) (s : σ) : List Event :=
  match job m c source inputs with
  | .error _ => []
  | .ok job =>
    let remote : Remote := ⟨c.chatService, c.toolService, Loader.load m.disk (c.flowsDir m.env)⟩
    (Service.run (remote.peers net date) Sink.record (some (1000 * c.flows.runTimeout)) job
      (s, [])).2.2

theorem output_concluded (frames : String) (r : Except Failure Report) :
    (concluded frames r).output = frames := by
  cases r <;> rfl

theorem output_carriedOut (m : Machine) (net : Network σ) (date : String) (c : Config)
    (source : Source) (inputs : Table Json) (s : σ) :
    (carriedOut m net date c source inputs s).1.output =
      Event.stream (reports m net date c source inputs s) := by
  unfold carriedOut reports
  cases job m c source inputs with
  | error f => rfl
  | ok job =>
    simp only [output_concluded]
    rw [Service.run_foldl]
    exact (Event.foldl_frame _ "").trans String.empty_append

end Command

end

/-! ## Main statement -/

/-- The frames of a stream are those of its events, each with the name and the data of its
event and with nothing else; name and data are those of the written form that the
declaration of the event gives; and a run of the command line prints a stream. -/
theorem Event.stream_decodes {σ : Type} (es : List Event) :
    StreamReader.read (stream es) =
        .between (es.map fun e => ["event: " ++ e.name, "data: " ++ e.data.text]) ∧
      (StreamReader.read (stream es)).frames.mapM StreamReader.decode? =
        some (es.map fun e => (e.name, e.data.text)) ∧
      (∀ e : Event, '\n' ∉ e.data.text.toList ∧ '\r' ∉ e.data.text.toList) ∧
      (∀ e : Event, ∃ content : Json,
        e.declared.toJson = .object [("event", .string e.name), ("data", content)] ∧
          content.sorted = e.data) ∧
      ∀ (m : Machine) (net : Network σ) (date : String) (c : Config) (source : Command.Source)
        (inputs : Table Json) (s : σ),
        (Command.carriedOut m net date c source inputs s).1.output =
          stream (Command.reports m net date c source inputs s) := by
  refine ⟨read_stream es, ?_, ?_, ?_, Command.output_carriedOut⟩
  · rw [read_stream]
    exact decode_stream es
  · intro e
    exact e.data.unbroken_text.lineEnds_notMem
  · intro e
    exact ⟨.object e.fields, e.toJson_declared, rfl⟩

end Flowline
