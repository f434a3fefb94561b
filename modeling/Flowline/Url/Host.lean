import Flowline.Text.Percent
import Flowline.Url.Numeric
import Flowline.Url.Domain

/-! Hosts of addresses: a name, or one of the two kinds of numeric address. -/

namespace Flowline

inductive UrlFault where
  | noScheme
  | emptyHost
  | invalidPort
  | invalidIpv4
  | invalidIpv6
  | invalidDomain
  | invalidHostCharacter
deriving DecidableEq, Repr, Inhabited

def UrlFault.message : UrlFault → String
  | noScheme => "relative URL without a base"
  | emptyHost => "empty host"
  | invalidPort => "invalid port number"
  | invalidIpv4 => "invalid IPv4 address"
  | invalidIpv6 => "invalid IPv6 address"
  | invalidDomain => "invalid international domain name"
  | invalidHostCharacter => "invalid domain character"

namespace Url

/-- A host. Numeric addresses keep no trace of how they were written. -/
inductive Host where
  | domain (name : List Char)
  | ipv4 (bytes : List Nat)
  | ipv6 (pieces : List Nat)
deriving DecidableEq, Repr, Inhabited

namespace Host

/-- The one way in which a host is written. -/
def chars : Host → List Char
  | domain name => name
  | ipv4 bytes => ipv4Chars bytes
  | ipv6 pieces => '[' :: ipv6Chars pieces ++ [']']

def bracketed (cs : List Char) : Except UrlFault Host :=
  if cs.getLast? = some ']' then
    match ipv6? cs.dropLast with
    | some pieces => .ok (.ipv6 pieces)
    | none => .error .invalidIpv6
  else .error .invalidIpv6

def parse (domain? : DomainReader) : List Char → Except UrlFault Host
  | '[' :: r => bracketed r
  | cs =>
    match domain? (Text.ofUtf8Lossy (Text.percentDecode cs)) with
    | none => .error .invalidDomain
    | some [] => .error .emptyHost
    | some name =>
      if endsInNumber name then
        match ipv4? name with
        | some bytes => .ok (.ipv4 bytes)
        | none => .error .invalidIpv4
      else .ok (.domain name)

/-- Characters that no host holds, even where the scheme does not say what hosts are. -/
def isReserved (c : Char) : Bool :=
  ['\x00', '\t', '\n', '\r', ' ', '#', '/', ':', '<', '>', '?', '@', '[', '\\', ']', '^',
    '|'].contains c

def isControl (c : Char) : Bool := c.toNat < 0x20 || c.toNat == 0x7F

def isPrinted (c : Char) : Bool := isPlain c && !isControl c

def parseOpaque : List Char → Except UrlFault Host
  | '[' :: r => bracketed r
  | cs =>
    if cs.any isReserved then .error .invalidHostCharacter
    else .ok (.domain (Text.percentEncode isPrinted cs))

end Host

end Url

end Flowline
