/-! Hexadecimal digits: read in either case, written by `Nat.digitChar` in the lower one. -/

namespace Flowline.Text

def hexDigit? (c : Char) : Option Nat :=
  if c.isDigit then some (c.toNat - '0'.toNat)
  else if 'a' ≤ c ∧ c ≤ 'f' then some (c.toNat - 'a'.toNat + 10)
  else if 'A' ≤ c ∧ c ≤ 'F' then some (c.toNat - 'A'.toNat + 10)
  else none

theorem hexDigit?_digitChar {n : Nat} (h : n < 16) : hexDigit? (Nat.digitChar n) = some n := by
  have all : ∀ m ∈ List.range 16, hexDigit? (Nat.digitChar m) = some m := by decide
  exact all n (List.mem_range.2 h)

end Flowline.Text
