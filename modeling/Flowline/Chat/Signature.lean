import Flowline.Address
import Flowline.Digest.Sha256
import Flowline.Failure
import Flowline.Text.Base64
import Flowline.Text.Percent

/-! Signed addresses. The chat service lets in a connection whose address carries the date, the host
and a keyed digest of both and of the path. -/

namespace Flowline.Signature

def canonical (host date path : List Char) : List Char :=
  "host: ".toList ++ host ++ "\ndate: ".toList ++ date ++ "\nGET ".toList ++ path
    ++ " HTTP/1.1".toList

def digest (secret text : List Char) : List Char :=
  Text.base64 (Digest.hmac (Text.utf8 secret) (Text.utf8 text))

/-- Who signs, how and what, with the signature. -/
def origin (key signature : List Char) : List Char :=
  "api_key=\"".toList ++ key
    ++ "\", algorithm=\"hmac-sha256\", headers=\"host date request-line\", signature=\"".toList
    ++ signature ++ "\"".toList

/-- Parameters of a query, their values percent-encoded. -/
def query (l : List (List Char × List Char)) : List Char :=
  ['&'].intercalate (l.map fun p => p.1 ++ '=' :: Text.percentEncode Text.isUnreserved p.2)

def parameters (host path key secret date : List Char) : List (List Char × List Char) :=
  let authorization := origin key (digest secret (canonical host date path))
  [("authorization".toList, Text.base64 (Text.utf8 authorization)), ("date".toList, date),
    ("host".toList, host)]

def append (url query : List Char) : List Char :=
  url ++ (if '?' ∈ url then '&' else '?') :: query

def sign (read : AddressReader) (url key secret date : String) : Except Failure String :=
  match read url.toList with
  | .error reason => .error (.signing (url ++ ": " ++ reason))
  | .ok a =>
    match a.host? with
    | none => .error (.signing (url ++ ": no host"))
    | some host => .ok (String.ofList (append url.toList
        (query (parameters host a.path key.toList secret.toList date.toList))))

end Flowline.Signature
