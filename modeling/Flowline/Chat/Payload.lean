import Flowline.Chat.Reader

/-! The frame that opens a conversation with the chat service. -/

namespace Flowline

structure Client where
  app : String
  user : String
deriving Inhabited

namespace ChatRequest

/-- What the service is told in the same words every time. -/
def topK : Nat := 4
def auditing : String := "default"
def questionType : String := "not_knowledge"

/-- The request as the service expects it, under the name of the client. The temperature keeps its
fraction, even where that is zero. -/
def payload (r : ChatRequest) (c : Client) : Json :=
  .object [
    ("header", .object [("app_id", .string c.app), ("uid", .string c.user)]),
    ("parameter", .object [("chat", .object [
      ("domain", .string r.domain), ("temperature", .float r.temperature),
      ("max_tokens", .int r.maxTokens), ("top_k", .int topK), ("auditing", .string auditing),
      ("question_type", .string questionType)])]),
    ("payload", .object [("message", .object [
      ("text", .array (r.messages.map Message.toJson))])])]

end ChatRequest

end Flowline
