import Flowline.Text.Utf8

/-! What a WebSocket client makes of an address. It reads it as strictly as a request line has to be
written: nothing in it is repaired. -/

namespace Flowline

/-- Where a connection goes, and what is asked for there. -/
structure Dial where
  secure : Bool
  host : List Char
  port : Nat
  target : List Char
deriving DecidableEq, Repr, Inhabited

namespace Dial

/-- Characters of a path or a query: any that is no control, no blank and no bracket, in any script.
-/
def isTargetChar (c : Char) : Bool :=
  0x20 < c.toNat && c.toNat != 0x7F && !(['<', '>', '#'].contains c)

def isPathChar (c : Char) : Bool := isTargetChar c && c != '\x60'

def isQueryChar (c : Char) : Bool := isTargetChar c && c != '"'

def isUserChar (c : Char) : Bool :=
  c.isAlphanum || ['-', '.', '_', '~', '!', '$', '&', '\'', '(', ')', '*', '+', ',', ';', '=', ':',
    '%'].contains c

/-- Characters of a host, where a colon would start the port. -/
def isHostChar (c : Char) : Bool := isUserChar c && c != '%' && c != ':'

def lengthLimit : Nat := 65534

/-- What is asked for: the path and the query, a slash where there is neither. A query cannot stand
without a path. -/
def readTarget (cs : List Char) : Option (List Char) :=
  let path := cs.takeWhile (· ≠ '?')
  let query := cs.drop path.length
  if cs.isEmpty then some ['/']
  else if path.isEmpty ∨ !path.all isPathChar ∨ !(query.drop 1).all isQueryChar then none
  else some cs

def splitHost (cs : List Char) : Option (List Char × List Char) :=
  match cs with
  | '[' :: r =>
    match r.dropWhile (· ≠ ']') with
    | _ :: rest => some (r.takeWhile (· ≠ ']'), rest)
    | [] => none
  | cs =>
    let host := cs.takeWhile (· ≠ ':')
    if host.isEmpty ∨ !host.all isHostChar then none else some (host, cs.drop host.length)

def readPort (secure : Bool) : List Char → Option Nat
  | [] | [':'] => some (if secure then 443 else 80)
  | ':' :: ds =>
    if ds.all Char.isDigit then
      (some (ds.foldl (fun n c => 10 * n + (c.toNat - '0'.toNat)) 0)).filter (· ≤ 65535)
    else none
  | _ => none

def ofUrl? (url : List Char) : Option Dial := do
  let (secure, rest) ← match url with
    | 'w' :: 's' :: ':' :: '/' :: '/' :: r => some (false, r)
    | 'w' :: 's' :: 's' :: ':' :: '/' :: '/' :: r => some (true, r)
    | _ => none
  if lengthLimit < (Text.utf8 url).length then none
  let front := rest.takeWhile fun c => c ≠ '/' && c ≠ '?' && c ≠ '#'
  let user := (front.reverse.dropWhile (· ≠ '@')).reverse
  if !user.dropLast.all isUserChar then none
  let (host, port) ← splitHost (front.drop user.length)
  let port ← readPort secure port
  let target ← readTarget ((rest.drop front.length).takeWhile (· ≠ '#'))
  return ⟨secure, host, port, target⟩

end Dial

end Flowline
