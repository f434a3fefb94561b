/-! Domain names as they are sent. Names in any script are mapped to plain ones by a table of all
scripts, which is a parameter of whatever reads a host. Plain names need no table. -/

namespace Flowline.Url

/-- Maps a domain name to the one that is sent, if it is one. -/
abbrev DomainReader := List Char → Option (List Char)

/-- Characters that no domain name holds: controls, the blank, and those that end a host or mean
something in it. -/
def isForbidden (c : Char) : Bool :=
  c.toNat ≤ 0x20 || c.toNat == 0x7F ||
    ['%', '#', '/', ':', '<', '>', '?', '@', '[', '\\', ']', '^', '|'].contains c

def isPlain (c : Char) : Bool := c.toNat < 0x80

/-- What a label in another script starts with where it is written in plain characters. -/
def mark : List Char := ['x', 'n', '-', '-']

/-- Plain names, which are put into lower case; any others count as none. -/
def plainDomain? : DomainReader := fun cs =>
  let name := cs.map Char.toLower
  if !cs.all isPlain ∨ name.any isForbidden ∨ (name.splitOn '.').any mark.isPrefixOf then none
  else some name

example : plainDomain? "Spark-API.Example".toList = some "spark-api.example".toList := by
  decide +kernel
example : plainDomain? "h h".toList = none := by decide +kernel

end Flowline.Url
