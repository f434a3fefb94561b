import Flowline.Chat.Session
import Flowline.Run.Service
import Flowline.Tools.Service

/-! Peers across a network: chat requests go to the chat service over a connection of their own, and
tool calls are posted to the tool service. The network says what becomes of each attempt. -/

namespace Flowline

/-- Whoever is reached over a network, and what they have been sent. -/
structure Network (σ : Type) where
  /-- How an address is taken apart that is to be signed. -/
  read : AddressReader
  /-- What becomes of a connection that is opened to an address for a request. -/
  connect : String → String → σ → Contact × σ
  /-- The answer to a body that is posted to an address. -/
  post : String → String → σ → HttpAnswer × σ

def Network.none (read : AddressReader) : Network Unit :=
  ⟨read, fun _ _ s => (.refused, s), fun _ _ s => (.refused, s)⟩

/-- The services of a configuration, and the flows that can be loaded. -/
structure Remote where
  chat : ChatService
  tools : ToolService
  flow : String → Except Failure Document

namespace Remote

variable {σ : Type}

/-- The reply to a chat request. It takes as long as is waited in vain. -/
def converse (r : Remote) (net : Network σ) (date : String) (q : ChatRequest) (s : σ) :
    Reply (.chat q) × σ :=
  match r.chat.signed net.read date with
  | .error f => (⟨.error f, 0⟩, s)
  | .ok url =>
    let (contact, s) := net.connect url (r.chat.request q) s
    (⟨r.chat.converse contact, r.chat.waited contact⟩, s)

/-- The answer to a call. No time at all is too little for any. -/
def call (r : Remote) (net : Network σ) (c : ToolCall) (s : σ) : Reply (.call c) × σ :=
  let (answer, s) :=
    if r.tools.limit = 0 then (.refused, s)
    else net.post r.tools.endpoint (ToolService.requestBody c) s
  (⟨ToolService.understand c answer, 0⟩, s)

/-- Flows are loaded at hand; everything else is asked for over the network. -/
def peers (r : Remote) (net : Network σ) (date : String) : Peers σ
  | .flow id, s => (⟨r.flow id, 0⟩, s)
  | .chat q, s => r.converse net date q s
  | .call c, s => r.call net c s

end Remote

end Flowline
