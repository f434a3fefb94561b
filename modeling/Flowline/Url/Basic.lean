import Flowline.Address
import Flowline.Url.Host

/-! Absolute addresses, read as forgivingly as a browser does: blanks around them and line breaks
inside count for nothing, a backslash is a slash where the scheme is a known one, dot segments are
resolved, and characters that may not stand in a part are percent-encoded. -/

namespace Flowline

/-- An address. Names and passwords in front of the host are passed over. -/
structure Url where
  scheme : List Char
  host? : Option Url.Host
  /-- The port, unless it is the usual one of the scheme. -/
  port? : Option Nat
  path : List Char
  query? : Option (List Char)
  fragment? : Option (List Char)
deriving DecidableEq, Repr, Inhabited

namespace Url

/-! ## Schemes -/

inductive SchemeKind where
  | network
  | file
  | other
deriving DecidableEq, Repr

def schemeKind (scheme : List Char) : SchemeKind :=
  if String.ofList scheme ∈ ["http", "https", "ws", "wss", "ftp"] then .network
  else if String.ofList scheme = "file" then .file
  else .other

def usualPort? (scheme : List Char) : Option Nat :=
  match String.ofList scheme with
  | "http" | "ws" => some 80
  | "https" | "wss" => some 443
  | "ftp" => some 21
  | _ => none

def SchemeKind.isSpecial : SchemeKind → Bool
  | other => false
  | _ => true

def SchemeKind.isSlash (k : SchemeKind) (c : Char) : Bool := c = '/' || (c = '\\' && k.isSpecial)

def isSchemeChar (c : Char) : Bool := c.isAlphanum || c = '+' || c = '-' || c = '.'

/-- A scheme in lower case and what follows its colon. -/
def splitScheme : List Char → Option (List Char × List Char)
  | [] => none
  | c :: r =>
    if !c.isAlpha then none
    else
      match r.dropWhile isSchemeChar with
      | ':' :: rest => some ((c :: r.takeWhile isSchemeChar).map Char.toLower, rest)
      | _ => none

/-! ## Parts -/

/-- The text without blanks and controls around it, and without tabs and line breaks. -/
def cleaned (cs : List Char) : List Char :=
  let outer (c : Char) : Bool := c.toNat ≤ 0x20
  let inner (c : Char) : Bool := c = '\t' || c = '\n' || c = '\r'
  ((cs.dropWhile outer).reverse.dropWhile outer).reverse.filter (!inner ·)

def keptInFragment (c : Char) : Bool :=
  Host.isPrinted c && !([' ', '"', '<', '>', '\x60'].contains c)

def keptInPath (c : Char) : Bool := keptInFragment c && !(['#', '?', '\x7b', '\x7d'].contains c)

/-- Characters of a query that are kept as they are; where the scheme is known, no apostrophe is. -/
def keptInQuery (k : SchemeKind) (c : Char) : Bool :=
  Host.isPrinted c && !([' ', '"', '#', '<', '>'].contains c) && !(c = '\'' && k.isSpecial)

structure Tail where
  path : List Char
  query? : Option (List Char)
  fragment? : Option (List Char)

/-- The first number sign starts the fragment, the first question mark in front of it the query. -/
def Tail.split (cs : List Char) : Tail :=
  let fragment? := match cs.dropWhile (· ≠ '#') with
    | _ :: f => some f
    | [] => none
  let front := cs.takeWhile (· ≠ '#')
  let query? := match front.dropWhile (· ≠ '?') with
    | _ :: q => some q
    | [] => none
  ⟨front.takeWhile (· ≠ '?'), query?, fragment?⟩

/-! ## Paths -/

def isPoint (l : List Char) : Bool :=
  l = ['.'] || l.map Char.toLower = ['%', '2', 'e']

def isDoublePoint (l : List Char) : Bool :=
  isPoint (l.take 1) && isPoint (l.drop 1) || isPoint (l.take 3) && isPoint (l.drop 3)

/-- Takes a segment onto a path. The last segment of an address counts as empty if it only points
somewhere. -/
def addSegment (path : List (List Char)) (segment : List Char) (isLast : Bool) :
    List (List Char) :=
  let folder := if isLast then [[]] else []
  if isDoublePoint segment then path.dropLast ++ folder
  else if isPoint segment then path ++ folder
  else path ++ [Text.percentEncode keptInPath segment]

def addSegments (path : List (List Char)) : List (List Char) → List (List Char)
  | [] => path
  | [s] => addSegment path s true
  | s :: r => addSegments (addSegment path s false) r

def segments (k : SchemeKind) (cs : List Char) : List (List Char) :=
  (cs.map fun c => if k.isSlash c then '/' else c).splitOn '/'

def pathChars (path : List (List Char)) : List Char := path.flatMap ('/' :: ·)

/-- The path behind a host. Only a scheme of which nothing is known can do without. -/
def resolvePath (k : SchemeKind) (cs : List Char) : List Char :=
  match cs with
  | [] => if k.isSpecial then ['/'] else []
  | c :: r => pathChars (addSegments [] (segments k (if k.isSlash c then r else c :: r)))

/-! ## Hosts -/

def authority (k : SchemeKind) (cs : List Char) : List Char :=
  cs.takeWhile fun c => !k.isSlash c && c ≠ '?' && c ≠ '#'

/-- The names in front of the last at sign of an authority, if there is one, and what follows it. -/
def splitUser (cs : List Char) : Option (List Char) × List Char :=
  let host := (cs.reverse.takeWhile (· ≠ '@')).reverse
  (if host.length < cs.length then some (cs.take (cs.length - host.length - 1)) else none, host)

/-- The host and the port of an authority; a colon in brackets separates nothing. -/
def splitPort : Bool → List Char → List Char × Option (List Char)
  | _, [] => ([], none)
  | inside, c :: r =>
    if c = ':' ∧ !inside then ([], some r)
    else
      let (h, p) := splitPort (c = '[' || (inside && c ≠ ']')) r
      (c :: h, p)

/-- A port up to 65535; none if it is left out or the usual one. -/
def readPort (scheme cs : List Char) : Except UrlFault (Option Nat) :=
  if !cs.all Char.isDigit then .error .invalidPort
  else
    let n := cs.foldl (fun n c => 10 * n + (c.toNat - '0'.toNat)) 0
    if 65535 < n then .error .invalidPort
    else .ok (if cs.isEmpty ∨ usualPort? scheme = some n then none else some n)

def readAuthority (domain? : DomainReader) (scheme cs : List Char) : Except UrlFault Url := do
  let k := schemeKind scheme
  let front := authority k cs
  let (user?, rest) := splitUser front
  let (hostText, portText) := splitPort false rest
  -- A name without a host is a fault; an at sign alone is one if anything follows it.
  let needsHost : Bool := match user? with
    | none => false
    | some [] => front.length < cs.length
    | some u => u ≠ [':']
  if hostText.isEmpty ∧ (k = .network ∨ portText.isSome ∨ needsHost) then throw .emptyHost
  let host ← if k = .network then Host.parse domain? hostText else Host.parseOpaque hostText
  let port ← readPort scheme (portText.getD [])
  let tail := Tail.split (cs.drop front.length)
  return {
    scheme := scheme
    host? := if hostText.isEmpty then none else some host
    port? := port
    path := resolvePath k tail.path
    query? := tail.query?.map (Text.percentEncode (keptInQuery k))
    fragment? := tail.fragment?.map (Text.percentEncode keptInFragment) }

/-- A letter and a colon or a bar, as some systems name their drives. -/
def isDrive : List Char → Bool
  | [c, d] => c.isAlpha && (d = ':' || d = '|')
  | _ => false

/-- The address of a file. The own host and a drive count as no host. -/
def readFile (domain? : DomainReader) (cs : List Char) : Except UrlFault Url := do
  let k := SchemeKind.file
  let scheme := "file".toList
  let (hostText, rest) := match cs with
    | c :: d :: r =>
      if k.isSlash c ∧ k.isSlash d then
        let front := authority k r
        if isDrive front then ([], r) else (front, r.drop front.length)
      else ([], cs)
    | _ => ([], cs)
  let host? ← if hostText.isEmpty then pure none else (Host.parse domain? hostText).map some
  let host? := host?.filter (· ≠ .domain "localhost".toList)
  let tail := Tail.split rest
  let path := resolvePath k tail.path
  let hasDrive := match segments k (tail.path.dropWhile k.isSlash) with
    | s :: _ => isDrive s
    | [] => false
  return {
    scheme := scheme
    host? := if hasDrive then none else host?
    port? := none
    path := '/' :: path.dropWhile (· = '/')
    query? := tail.query?.map (Text.percentEncode (keptInQuery k))
    fragment? := tail.fragment?.map (Text.percentEncode keptInFragment) }

/-- The address of a scheme without hosts: its path is a text of its own. -/
def readOpaque (scheme cs : List Char) : Url :=
  let tail := Tail.split cs
  { scheme := scheme
    host? := none
    port? := none
    path := match tail.path with
      | '/' :: _ => resolvePath .other tail.path
      | p => Text.percentEncode Host.isPrinted p
    query? := tail.query?.map (Text.percentEncode (keptInQuery .other))
    fragment? := tail.fragment?.map (Text.percentEncode keptInFragment) }

def parse (domain? : DomainReader) (text : List Char) : Except UrlFault Url :=
  match splitScheme (cleaned text) with
  | none => .error .noScheme
  | some (scheme, rest) =>
    match schemeKind scheme with
    | .network => readAuthority domain? scheme (rest.dropWhile (SchemeKind.network.isSlash ·))
    | .file => readFile domain? rest
    | .other =>
      match rest with
      | '/' :: '/' :: r => readAuthority domain? scheme r
      | _ => .ok (readOpaque scheme rest)

def address (u : Url) : Address := ⟨u.host?.map Host.chars, u.path, u.query?, u.fragment?⟩

/-- Reads addresses as the standard of a browser has it. -/
def reader (domain? : DomainReader) : AddressReader := fun text =>
  match parse domain? text with
  | .ok u => .ok u.address
  | .error f => .error f.message

end Url

end Flowline
