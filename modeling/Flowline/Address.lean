/-! Addresses of services. Taking one apart is left to a reader of addresses, which is a parameter
of whatever needs the parts. -/

namespace Flowline

structure Address where
  host? : Option (List Char)
  path : List Char
  query? : Option (List Char)
  fragment? : Option (List Char)
deriving DecidableEq, Repr, Inhabited

/-- Takes an address apart, or says why a text is none. -/
abbrev AddressReader := List Char → Except String Address

end Flowline
