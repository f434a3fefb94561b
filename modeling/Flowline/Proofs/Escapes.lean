import Flowline.Text.Percent

/-! # Percent encoding undone

A text that is written so that no percent sign stands for itself is read back as its own bytes.
What is written of a text are the characters that are kept, percent signs and digits, so nothing
that separates the parts of a query gets into it. -/

namespace Flowline.Text

/-! ## Reading -/

theorem percentDecode_cons {c : Char} (h : c ≠ '%') (r : List Char) :
    percentDecode (c :: r) = String.utf8EncodeChar c ++ percentDecode r := by
  rw [percentDecode]
  intro a b r' hc
  exact absurd hc h

/-- A hexadecimal digit is read in upper case as well. -/
theorem hexDigit?_toUpper {n : Nat} (h : n < 16) :
    hexDigit? (Nat.digitChar n).toUpper = some n := by
  have all : ∀ m ∈ List.range 16, hexDigit? (Nat.digitChar m).toUpper = some m := by decide
  exact all n (List.mem_range.2 h)

theorem percentDecode_escaped (b : UInt8) (r : List Char) :
    percentDecode (escaped b ++ r) = b :: percentDecode r := by
  have hb := b.toNat_lt
  have hbits : 16 * (b.toNat / 16) + b.toNat % 16 = b.toNat := Nat.div_add_mod ..
  show percentDecode ('%' :: _ :: _ :: r) = _
  rw [percentDecode, hexDigit?_toUpper (by omega), hexDigit?_toUpper (by omega)]
  show (16 * (b.toNat / 16) + b.toNat % 16).toUInt8 :: _ = _
  rw [hbits]
  exact congrArg (· :: _) UInt8.ofNat_toNat

theorem percentDecode_flatMap_escaped (bs : List UInt8) (r : List Char) :
    percentDecode (bs.flatMap escaped ++ r) = bs ++ percentDecode r := by
  induction bs with
  | nil => rfl
  | cons b bs ih =>
    rw [List.flatMap_cons, List.append_assoc, percentDecode_escaped, ih]
    rfl

theorem percentDecode_percentEncode {keep : Char → Bool} (h : keep '%' = false)
    (cs r : List Char) :
    percentDecode (percentEncode keep cs ++ r) = utf8 cs ++ percentDecode r := by
  induction cs with
  | nil => rfl
  | cons c cs ih =>
    have hone : percentDecode ((if keep c then [c] else (String.utf8EncodeChar c).flatMap escaped)
        ++ (percentEncode keep cs ++ r)) =
        String.utf8EncodeChar c ++ percentDecode (percentEncode keep cs ++ r) := by
      split
      · rename_i hc
        refine percentDecode_cons ?_ _
        rintro rfl
        rw [h] at hc
        cases hc
      · exact percentDecode_flatMap_escaped ..
    rw [percentEncode, List.flatMap_cons, ← percentEncode, List.append_assoc, hone, ih]
    exact (List.append_assoc ..).symm

/-! ## Written characters -/

theorem percentEncode_append (keep : Char → Bool) (cs r : List Char) :
    percentEncode keep (cs ++ r) = percentEncode keep cs ++ percentEncode keep r :=
  List.flatMap_append

theorem percentEncode_eq_self {keep : Char → Bool} {cs : List Char} (h : ∀ c ∈ cs, keep c = true) :
    percentEncode keep cs = cs := by
  induction cs with
  | nil => rfl
  | cons c cs ih =>
    obtain ⟨hc, hcs⟩ := List.forall_mem_cons.1 h
    rw [percentEncode, List.flatMap_cons, ← percentEncode, ih hcs, if_pos hc]
    rfl

/-- No character is written as nothing. -/
theorem percentEncode_ne_nil (keep : Char → Bool) {cs : List Char} (h : cs ≠ []) :
    percentEncode keep cs ≠ [] := by
  cases cs with
  | nil => exact absurd rfl h
  | cons c cs =>
    intro hnil
    rw [percentEncode, List.flatMap_cons, List.append_eq_nil_iff] at hnil
    obtain ⟨hc, -⟩ := hnil
    split at hc
    · cases hc
    · obtain ⟨b, hb⟩ := List.exists_mem_of_ne_nil _ String.utf8EncodeChar_ne_nil
      cases List.flatMap_eq_nil_iff.1 hc b hb

theorem isUnreserved_digit {n : Nat} (h : n < 16) :
    isUnreserved (Nat.digitChar n).toUpper = true := by
  have all : ∀ m ∈ List.range 16, isUnreserved (Nat.digitChar m).toUpper = true := by decide
  exact all n (List.mem_range.2 h)

theorem mem_escaped {b : UInt8} {c : Char} (h : c ∈ escaped b) :
    isUnreserved c = true ∨ c = '%' := by
  have hb := b.toNat_lt
  simp only [escaped, List.mem_cons, List.not_mem_nil, or_false] at h
  rcases h with rfl | rfl | rfl
  · exact .inr rfl
  · exact .inl (isUnreserved_digit (by omega))
  · exact .inl (isUnreserved_digit (by omega))

theorem mem_percentEncode {cs : List Char} {c : Char}
    (h : c ∈ percentEncode isUnreserved cs) : isUnreserved c = true ∨ c = '%' := by
  obtain ⟨x, -, hx⟩ := List.mem_flatMap.1 h
  split at hx
  · rename_i hkept
    obtain rfl := List.mem_singleton.1 hx
    exact .inl hkept
  · obtain ⟨b, -, hb⟩ := List.mem_flatMap.1 hx
    exact mem_escaped hb

end Flowline.Text
