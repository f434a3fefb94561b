import Flowline.Text.Utf8

/-! # UTF-8 read back

Reading the bytes of a text gives the text: the first byte of a character announces
how many follow and within which bounds the next one lies, and the bytes that follow
carry six bits each. -/

namespace Flowline.Text

/-! ## First bytes -/

theorem announced?_one : ∀ x < 128, announced? (UInt8.ofNat x) = some (x, 0, 0x80, 0xBF) := by
  decide

theorem announced?_two : ∀ x < 32, announced? (UInt8.ofNat (x + 192)) =
    if x < 2 then none else some (x, 1, 0x80, 0xBF) := by
  decide

theorem announced?_three : ∀ x < 16, announced? (UInt8.ofNat (x + 224)) =
    some (x, 2, if x = 0 then 0xA0 else 0x80, if x = 13 then 0x9F else 0xBF) := by
  decide

theorem announced?_four : ∀ x < 5, announced? (UInt8.ofNat (x + 240)) =
    some (x, 3, if x = 0 then 0x90 else 0x80, if x = 4 then 0x8F else 0xBF) := by
  decide

/-! ## Bytes that follow -/

/-- A byte that follows adds its six bits if it lies within the bounds. -/
theorem following_bits {least greatest : UInt8} {x : Nat} (n bits : Nat) (r : List UInt8)
    (hl : least.toNat ≤ x % 64 + 128) (hg : x % 64 + 128 ≤ greatest.toNat) :
    following (n + 1) bits least greatest (UInt8.ofNat (x % 64 + 128) :: r) =
      following n (bits * 64 + x % 64) 0x80 0xBF r := by
  have hb : (UInt8.ofNat (x % 64 + 128)).toNat = x % 64 + 128 := by
    rw [UInt8.toNat_ofNat']
    omega
  have hin : least ≤ UInt8.ofNat (x % 64 + 128) ∧ UInt8.ofNat (x % 64 + 128) ≤ greatest := by
    rw [UInt8.le_iff_toNat_le, UInt8.le_iff_toNat_le, hb]
    exact ⟨hl, hg⟩
  have hbits : (x % 64 + 128) % 64 = x % 64 := by omega
  rw [following, if_pos hin, hb, hbits]

theorem following_last (x n bits : Nat) (r : List UInt8) :
    following (n + 1) bits 0x80 0xBF (UInt8.ofNat (x % 64 + 128) :: r) =
      following n (bits * 64 + x % 64) 0x80 0xBF r := by
  have hlt := Nat.mod_lt x (show 0 < 64 by decide)
  exact following_bits n bits r (Nat.le_add_left _ _) (Nat.add_le_add_right (Nat.le_of_lt_succ hlt) _)

/-! ## Characters -/

theorem characters?_cons {b : UInt8} {bits n : Nat} {least greatest : UInt8}
    (h : announced? b = some (bits, n, least, greatest)) {v : Nat} {r rest : List UInt8}
    (hf : following n bits least greatest r = (some v, rest)) :
    characters? (b :: r) = some (Char.ofNat v) :: characters? rest := by
  rw [characters?, h]
  dsimp only
  rw [hf]
  rfl

/-- A character is read back from its bytes, whatever follows them. -/
theorem characters?_encode (c : Char) (r : List UInt8) :
    characters? (String.utf8EncodeChar c ++ r) = some c :: characters? r := by
  have hc : Char.ofNat c.val.toNat = c := Char.ofNat_toNat c
  have hv : c.val.toNat < 55296 ∨ 57343 < c.val.toNat ∧ c.val.toNat < 1114112 := c.valid
  generalize hgen : c.val.toNat = v at hc hv
  rw [String.utf8EncodeChar, hgen, ← hc]
  split
  · exact characters?_cons (announced?_one v (by omega)) rfl
  · split
    · have h := announced?_two (v / 64 % 32) (by omega)
      rw [if_neg (by omega)] at h
      have hbits : v / 64 % 32 * 64 + v % 64 = v := by omega
      exact characters?_cons h ((following_last v 0 _ r).trans (by rw [hbits]; rfl))
    · split
      · -- the least and the greatest first bytes rule out overlong forms and surrogates
        have hbits : (v / 4096 % 16 * 64 + v / 64 % 64) * 64 + v % 64 = v := by omega
        refine characters?_cons (announced?_three (v / 4096 % 16) (by omega)) ?_
        refine (following_bits 1 _ _ ?_ ?_).trans ?_
        · split
          · show 160 ≤ _
            omega
          · show 128 ≤ _
            omega
        · split
          · show _ ≤ 159
            omega
          · show _ ≤ 191
            omega
        · exact (following_last v 0 _ r).trans (by rw [hbits]; rfl)
      · have hbits : ((v / 262144 % 8 * 64 + v / 4096 % 64) * 64 + v / 64 % 64) * 64 + v % 64 = v := by
          omega
        refine characters?_cons (announced?_four (v / 262144 % 8) (by omega)) ?_
        refine (following_bits 2 _ _ ?_ ?_).trans ?_
        · split
          · show 144 ≤ _
            omega
          · show 128 ≤ _
            omega
        · split
          · show _ ≤ 143
            omega
          · show _ ≤ 191
            omega
        · refine (following_last (v / 64) 1 _ _).trans ?_
          exact (following_last v 0 _ r).trans (by rw [hbits]; rfl)

theorem characters?_utf8 (cs : List Char) : characters? (utf8 cs) = cs.map some := by
  induction cs with
  | nil => rw [utf8, List.flatMap_nil, characters?, List.map_nil]
  | cons c cs ih => rw [utf8, List.flatMap_cons, characters?_encode, ← utf8, ih, List.map_cons]

/-- A lossy reader loses nothing of a text. -/
theorem ofUtf8Lossy_utf8 (cs : List Char) : ofUtf8Lossy (utf8 cs) = cs := by
  rw [ofUtf8Lossy, characters?_utf8, List.map_map]
  exact List.map_id cs

end Flowline.Text
