import Flowline.Failure
import Flowline.Json.Record

/-! The frames of an answer of the chat service, and their accumulation to a reply. -/

namespace Flowline

open Json

/-- A frame of the service. The code is zero unless something went wrong; the status tells how far
the reply has come. -/
structure ReplyFrame where
  code : Int
  message : String
  status : Int
  session? : Option String
  /-- The fragments of the reply; nothing if the frame has no payload. -/
  payload? : Option (List String)
deriving DecidableEq, Repr, Inhabited

namespace ReplyFrame

def fragments (f : ReplyFrame) : List String := f.payload?.getD []

def text (f : ReplyFrame) : String := String.join f.fragments

def finalStatus : Int := 2

def isFinal (f : ReplyFrame) : Bool := f.status = finalStatus

/-- A fragment without a text adds nothing. -/
def readFragment? : Reader String := fun d t => do
  (← Record.read? ["content"] d t).defaulted "content" .text ""

def readChoices? : Reader (List String) := fun d t => do
  (← Record.read? ["text"] d t).defaulted "text" (.list readFragment?) []

def readPayload? : Reader (List String) := fun d t => do
  return (← (← Record.read? ["choices"] d t).optional "choices" readChoices?).getD []

def readHeader? : Reader ReplyFrame := fun d t => do
  let r ← Record.read? ["code", "message", "status", "sid"] d t
  return ⟨← r.defaulted "code" .int 0, ← r.defaulted "message" .text "",
    ← r.defaulted "status" .int 0, ← r.optional "sid" .text, none⟩

/-- A frame has to have a header; each field of the header may be missing. -/
def read? : Reader ReplyFrame := fun d t => do
  let r ← Record.read? ["header", "payload"] d t
  let header ← r.required "header" readHeader?
  return { header with payload? := ← r.optional "payload" readPayload? }

def parse? (text : String) : Option ReplyFrame := decode? read? text

end ReplyFrame

structure Accumulator where
  partialText : String
  done : Bool
deriving DecidableEq, Repr, Inhabited

namespace Accumulator

def empty : Accumulator := ⟨"", false⟩

/-- Takes a frame; the final one gives the reply. A frame that is refused changes nothing. -/
def feedFrame (a : Accumulator) (f : ReplyFrame) : Except Failure (Option String) × Accumulator :=
  if a.done then (.error (.stream "frame received after final"), a)
  else if f.code ≠ 0 then (.error (.remoteService f.code f.message), a)
  else
    let text := a.partialText ++ f.text
    if f.isFinal then (.ok (some text), ⟨"", true⟩) else (.ok none, ⟨text, false⟩)

def feed (a : Accumulator) (text : String) : Except Failure (Option String) × Accumulator :=
  match ReplyFrame.parse? text with
  | some f => a.feedFrame f
  | none => (.error (.stream ("malformed frame: " ++ Failure.unreadableJson)), a)

end Accumulator

end Flowline
