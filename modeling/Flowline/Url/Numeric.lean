import Flowline.Text.Hex

/-! Numeric hosts. An IPv4 address is read in any of its spellings, with one to four parts in base
ten, eight or sixteen. An IPv6 address is eight pieces of 16 bits, where a double colon stands for
as many zeros as are missing; it is written with the longest row of zeros left out. -/

namespace Flowline.Url

/-! ## IPv4 -/

/-- The number that digits of some base stand for; no digits stand for zero. -/
def numberIn (base : Nat) (cs : List Char) : Option Nat :=
  cs.foldlM (fun n c => ((Text.hexDigit? c).filter (· < base)).map (n * base + ·)) 0

/-- A part of an IPv4 address, its base told by how it starts. -/
def ipv4Part? : List Char → Option Nat
  | [] => none
  | '0' :: x :: r => if x = 'x' ∨ x = 'X' then numberIn 16 r else numberIn 8 (x :: r)
  | cs => numberIn 10 cs

/-- The labels of a domain, without the empty one behind a last point. -/
def labels (domain : List Char) : List (List Char) :=
  let l := domain.splitOn '.'
  if 1 < l.length ∧ l.getLast? = some [] then l.dropLast else l

/-- Whether a domain has to be an IPv4 address, because its last label is a number. -/
def endsInNumber (domain : List Char) : Bool :=
  match (labels domain).getLast? with
  | none => false
  | some l => (!l.isEmpty && l.all Char.isDigit) || (ipv4Part? l).isSome

/-- The four bytes of an address: the last part fills all that the others leave. -/
def ipv4? (domain : List Char) : Option (List Nat) := do
  let parts ← (labels domain).mapM ipv4Part?
  let last ← parts.getLast?
  let first := parts.dropLast
  if 4 < parts.length ∨ first.any (255 < ·) ∨ Nat.pow 256 (4 - first.length) ≤ last then none
  else
    let rest := (List.range (4 - first.length)).map fun i => last / Nat.pow 256 i % 256
    some (first ++ rest.reverse)

def ipv4Chars (bytes : List Nat) : List Char := ['.'].intercalate (bytes.map (Nat.toDigits 10))

example : ipv4? "0x7f.1".toList = some [127, 0, 0, 1] := by decide +kernel
example : ipv4? "1.256".toList = some [1, 0, 1, 0] := by decide +kernel

/-! ## IPv6 -/

def ipv6Piece? (cs : List Char) : Option Nat :=
  if cs.isEmpty ∨ 4 < cs.length then none else numberIn 16 cs

def plainByte? (cs : List Char) : Option Nat :=
  if cs.isEmpty ∨ (1 < cs.length ∧ cs.head? = some '0') then none
  else (numberIn 10 cs).filter (· ≤ 255)

def ipv4Tail? (cs : List Char) : Option (List Nat) :=
  match (cs.splitOn '.').mapM plainByte? with
  | some [a, b, c, d] => some [256 * a + b, 256 * c + d]
  | _ => none

/-- Pieces between colons; only the end of an address may be written as an IPv4 address. -/
def ipv6Pieces? (atEnd : Bool) (cs : List Char) : Option (List Nat) :=
  if cs.isEmpty then some []
  else
    let parts := cs.splitOn ':'
    match parts.getLast? with
    | some l =>
      if atEnd ∧ '.' ∈ l then do
        return (← parts.dropLast.mapM ipv6Piece?) ++ (← ipv4Tail? l)
      else parts.mapM ipv6Piece?
    | none => none

def cutDoubleColon : List Char → Option (List Char × List Char)
  | ':' :: ':' :: r => some ([], r)
  | c :: r => (cutDoubleColon r).map fun (a, b) => (c :: a, b)
  | [] => none

def ipv6? (cs : List Char) : Option (List Nat) :=
  match cutDoubleColon cs with
  | none => (ipv6Pieces? true cs).filter (·.length = 8)
  | some (left, right) => do
    let left ← ipv6Pieces? false left
    let right ← ipv6Pieces? true right
    let missing := 8 - (left.length + right.length)
    if missing = 0 then none else some (left ++ List.replicate missing 0 ++ right)

def zeros (l : List Nat) : Nat := (l.takeWhile (· = 0)).length

/-- Where the longest row of zeros starts and how long it is; the first one of several. -/
def longestZeros (l : List Nat) : Nat × Nat :=
  (List.range l.length).foldl (fun best i =>
    let n := zeros (l.drop i)
    if best.2 < n then (i, n) else best) (0, 0)

/-- The pieces without leading zeros; the first longest row of zeros is two colons, unless it is a
single zero. -/
def ipv6Chars (pieces : List Nat) : List Char :=
  let joined (l : List Nat) := [':'].intercalate (l.map (Nat.toDigits 16))
  let (start, n) := longestZeros pieces
  if n < 2 then joined pieces
  else joined (pieces.take start) ++ ':' :: ':' :: joined (pieces.drop (start + n))

example : (ipv6? "2001:DB8::1".toList).map ipv6Chars = some "2001:db8::1".toList := by
  decide +kernel
example : (ipv6? "::ffff:1.2.3.4".toList).map ipv6Chars = some "::ffff:102:304".toList := by
  decide +kernel
example : ipv6? "1:::2".toList = none := by decide +kernel

end Flowline.Url
