import Flowline.Chat.Frame
import Flowline.Chat.Payload
import Flowline.Chat.Signature
import Flowline.Text.Utf8

/-! Conversations with the chat service: a connection to a signed address, one request, and the
frames that come back until the reply is complete. The first message that decides anything fixes the
outcome, and a reply that breaks off is never passed on. -/

namespace Flowline

/-! ## Peers -/

inductive Incoming where
  | text (s : String)
  | binary (bytes : List UInt8)
  | ping
  | pong
  | close
  | broken
deriving DecidableEq, Repr, Inhabited

inductive Contact where
  /-- Nobody is there, or there is no connecting to such an address. -/
  | refused
  /-- The peer answers and declines. -/
  | rejected
  /-- The peer never answers. -/
  | silent
  /-- The connection is accepted and ends. -/
  | cut
  /-- The peer answers the request with these messages; after them it ends the connection or keeps
  silent. -/
  | accepted (messages : List Incoming) (ends : Bool)
deriving Inhabited

/-! ## The conversation -/

/-- The chat service, and how long to wait for it in milliseconds. -/
structure ChatService where
  client : Client
  key : String
  secret : String
  url : String
  /-- The domain that stands for the model where a request names none. -/
  domain : String
  connectLimit : Nat
  replyLimit : Nat
deriving Inhabited

namespace ChatService

/-- Reads messages until one decides; `ending` is what happens if none does. -/
def readReply (ending : Failure) : Accumulator → List Incoming → Except Failure String
  | _, [] => .error ending
  | a, .text s :: r => decide a s r
  | a, .binary bytes :: r => decide a (String.ofList (Text.ofUtf8Lossy bytes)) r
  | a, .ping :: r | a, .pong :: r => readReply ending a r
  | _, .close :: _ => .error .incompleteStream
  | _, .broken :: _ => .error (.stream Failure.brokenTransport)
where
  decide (a : Accumulator) (s : String) (r : List Incoming) : Except Failure String :=
    match a.feed s with
    | (.error f, _) => .error f
    | (.ok (some reply), _) => .ok reply
    | (.ok none, a) => readReply ending a r

def connectPhase : String := "connect"
def replyPhase : String := "response"

/-- A limit that was reached is named in whole seconds. -/
def timeout (phase : String) (limit : Nat) : Failure := .timeout phase (limit / 1000)

/-- How the conversation goes after an attempt to connect. No time at all is too little for any
answer. -/
def converse (s : ChatService) : Contact → Except Failure String
  | .refused => .error (.connection Failure.brokenTransport)
  | .silent => .error (timeout connectPhase s.connectLimit)
  | .rejected =>
    if s.connectLimit = 0 then .error (timeout connectPhase 0)
    else .error (.connection Failure.brokenTransport)
  | .cut =>
    if s.connectLimit = 0 then .error (timeout connectPhase 0)
    else .error (.stream Failure.brokenTransport)
  | .accepted messages ends =>
    if s.connectLimit = 0 then .error (timeout connectPhase 0)
    else if s.replyLimit = 0 then .error (timeout replyPhase 0)
    else readReply (if ends then .incompleteStream else timeout replyPhase s.replyLimit) .empty
      messages

def signed (s : ChatService) (read : AddressReader) (date : String) : Except Failure String :=
  Signature.sign read s.url s.key s.secret date

def request (s : ChatService) (r : ChatRequest) : String := (r.payload s.client).text

/-- How long a conversation waits in vain, in milliseconds. -/
def waited (s : ChatService) (contact : Contact) : Nat :=
  match contact, s.converse contact with
  | .silent, _ => s.connectLimit
  | .accepted .., .error (.timeout ..) => s.replyLimit
  | _, _ => 0

end ChatService

end Flowline
