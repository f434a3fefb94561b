import Flowline.Chat.Reader
import Flowline.Failure
import Flowline.Text.Utf8

/-! The tool service: a call is posted to it, and a value comes back. Every answer but a success
with a value for its body is a failure of the tool that was called. -/

namespace Flowline

inductive HttpAnswer where
  | refused
  | dropped
  /-- A status and a body; no body if it breaks off. -/
  | answered (status : Nat) (body? : Option (List UInt8))
deriving Inhabited

namespace HttpAnswer

/-- The usual words for a status. -/
def reasons : List (Nat × String) :=
  [(100, "Continue"), (101, "Switching Protocols"), (102, "Processing"), (200, "OK"),
   (201, "Created"), (202, "Accepted"), (203, "Non Authoritative Information"),
   (204, "No Content"), (205, "Reset Content"), (206, "Partial Content"), (207, "Multi-Status"),
   (208, "Already Reported"), (226, "IM Used"), (300, "Multiple Choices"),
   (301, "Moved Permanently"), (302, "Found"), (303, "See Other"), (304, "Not Modified"),
   (305, "Use Proxy"), (307, "Temporary Redirect"), (308, "Permanent Redirect"),
   (400, "Bad Request"), (401, "Unauthorized"), (402, "Payment Required"), (403, "Forbidden"),
   (404, "Not Found"), (405, "Method Not Allowed"), (406, "Not Acceptable"),
   (407, "Proxy Authentication Required"), (408, "Request Timeout"), (409, "Conflict"),
   (410, "Gone"), (411, "Length Required"), (412, "Precondition Failed"),
   (413, "Payload Too Large"), (414, "URI Too Long"), (415, "Unsupported Media Type"),
   (416, "Range Not Satisfiable"), (417, "Expectation Failed"), (418, "I'm a teapot"),
   (421, "Misdirected Request"), (422, "Unprocessable Entity"), (423, "Locked"),
   (424, "Failed Dependency"), (425, "Too Early"), (426, "Upgrade Required"),
   (428, "Precondition Required"), (429, "Too Many Requests"),
   (431, "Request Header Fields Too Large"), (451, "Unavailable For Legal Reasons"),
   (500, "Internal Server Error"), (501, "Not Implemented"), (502, "Bad Gateway"),
   (503, "Service Unavailable"), (504, "Gateway Timeout"), (505, "HTTP Version Not Supported"),
   (506, "Variant Also Negotiates"), (507, "Insufficient Storage"), (508, "Loop Detected"),
   (510, "Not Extended"), (511, "Network Authentication Required")]

def statusText (status : Nat) : String :=
  toString status ++ " " ++ (reasons.lookup status).getD "<unknown status code>"

/-- Statuses that only announce an answer to come. -/
def isInformational (status : Nat) : Bool := 100 ≤ status && status < 200 && status != 101

/-- Statuses whose answers have no body. -/
def isBodyless (status : Nat) : Bool := status == 101 || status == 204 || status == 304

def isSuccess (status : Nat) : Bool := 200 ≤ status && status < 300

/-- An answer as it is understood: an announcement that nothing follows is none. -/
def settled : HttpAnswer → HttpAnswer
  | answered status body? =>
    if isInformational status ∨ status < 100 ∨ 999 < status then dropped
    else answered status (if isBodyless status then some [] else body?)
  | a => a

end HttpAnswer

structure ToolService where
  url : String
  /-- How long a request may take, in seconds. -/
  limit : Nat
deriving Inhabited

namespace ToolService

def executePath : String := "/api/tools/execute"

def withoutSlashes (s : String) : String :=
  String.ofList (s.toList.reverse.dropWhile (· = '/')).reverse

/-- The address of the service, its last slashes dropped, and the path that takes calls. -/
def endpoint (s : ToolService) : String := withoutSlashes s.url ++ executePath

def requestBody (c : ToolCall) : String := c.toJson.text

/-! ## Marks of unexplained faults -/

def unreadableBody : String := "<body error>"
def unknownBody : String := "unknown error"

def understand (c : ToolCall) (a : HttpAnswer) : Except Failure Json :=
  match a.settled with
  | .refused | .dropped => .error (.plugin c.tool Failure.brokenTransport)
  | .answered status body? =>
    if HttpAnswer.isSuccess status then
      match (body?.bind Text.ofUtf8?).bind fun cs => Json.parse? (String.ofList cs) with
      | some v => .ok v
      | none => .error (.plugin c.tool ("invalid response body: " ++ unreadableBody))
    else
      let body := (body?.map fun bs => String.ofList (Text.ofUtf8Lossy bs)).getD unknownBody
      .error (.plugin c.tool ("HTTP " ++ HttpAnswer.statusText status ++ ": " ++ body))

end ToolService

end Flowline
