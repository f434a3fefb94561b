import Flowline.Address
import Flowline.Proofs.Parts

/-! # What is relied on of readers of addresses

Taking an address apart is not the program's own doing: one library reads the host and the path that
are signed, and another one reads what a connection asks for. What depends on them is proved of any
readers that keep to their standards, as far as the standards are written down here. -/

namespace Flowline

open Url (Bare Blanks Tail cleaned keptInFragment keptInQuery)

/-! ## Reading an address -/

/-- What the front of an address tells, if it has a host. -/
structure Origin where
  kind : Url.SchemeKind
  host : List Char
  path : List Char

/-- An address with the query and the fragment as its scheme has them written. -/
def Origin.address (o : Origin) (t : Tail) : Address where
  host? := some o.host
  path := o.path
  query? := t.query?.map (Text.percentEncode (keptInQuery o.kind))
  fragment? := t.fragment?.map (Text.percentEncode keptInFragment)

/-- **The URL Standard, for addresses with a host.** Controls and blanks around a text count for
nothing, nor do tabs and line breaks in it. The first number sign starts the fragment, and the first
question mark in front of that the query; both are percent-encoded character by character. The front
alone decides on the host and the path. A blank at its end is not passed over once something stands
behind it: no host and no port holds one, and a path has it encoded. -/
structure AddressReader.Standard (read : AddressReader) (origin : List Char → Option Origin) :
    Prop where
  parts : ∀ {cs o}, origin (Tail.split (cleaned cs)).path = some o →
    read cs = .ok (o.address (Tail.split (cleaned cs)))
  hosted : ∀ {cs a host}, read cs = .ok a → a.host? = some host →
    ∃ o, origin (Tail.split (cleaned cs)).path = some o
  blanks : ∀ {front s o o'}, Bare front → Blanks s → origin front = some o →
    origin (front ++ s) = some o' → o'.host = o.host → o'.path ≠ o.path

/-- **Hosts and paths stand on one line.** A host holds no control, and a path has them encoded. -/
structure AddressReader.OnLines (read : AddressReader) : Prop where
  host : ∀ {cs a host}, read cs = .ok a → a.host? = some host → '\n' ∉ host
  path : ∀ {cs a host}, read cs = .ok a → a.host? = some host → '\n' ∉ a.path

/-- A text is the address of an origin with parts beside it. -/
structure ReadAs (origin : List Char → Option Origin) (cs : List Char) (t : Tail) (o : Origin) :
    Prop where
  apart : t.Apart
  text : cleaned cs = t.text
  origin : origin t.path = some o

namespace AddressReader.Standard

variable {read : AddressReader} {origin : List Char → Option Origin} {cs : List Char}

theorem read_eq (h : read.Standard origin) {t : Tail} {o : Origin} (hcs : ReadAs origin cs t o) :
    read cs = .ok (o.address t) := by
  have hsplit : Tail.split (cleaned cs) = t := by rw [hcs.text, Tail.split_text hcs.apart]
  have hread := @h.parts cs o
  rw [hsplit] at hread
  exact hread hcs.origin

theorem exists_readAs (h : read.Standard origin) {a : Address} {host : List Char}
    (hread : read cs = .ok a) (hhost : a.host? = some host) :
    ∃ t o, ReadAs origin cs t o ∧ a = o.address t := by
  obtain ⟨o, ho⟩ := h.hosted hread hhost
  have hparts := (h.parts ho).symm.trans hread
  exact ⟨_, o, ⟨Tail.apart_split _, (Tail.text_split _).symm, ho⟩, (Except.ok.inj hparts).symm⟩

end AddressReader.Standard

/-! ## Asking for an address -/

/-- What a client asks for at an address, if it is one that can be connected to. -/
abbrev RequestReader := List Char → Option (List Char)

/-- **The standard of request lines.** A fragment is not asked for, and a query is asked for as it
is written. -/
structure RequestReader.Standard (target? : RequestReader) : Prop where
  fragment : ∀ {cs f target}, '#' ∉ cs → target? (cs ++ '#' :: f) = some target →
    target? cs = some target
  query : ∀ {front q target}, Bare front → '#' ∉ q → target? (front ++ '?' :: q) = some target →
    ∃ path, '?' ∉ path ∧ target = path ++ '?' :: q

end Flowline
