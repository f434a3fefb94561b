import Flowline.Text.Base64

/-! # Base 64 read back

A reader of base 64 that takes four characters at a time. Only the last group may be filled up, and
the bits that it then has to spare have to be zero. It reads what is written and nothing else, so a
byte sequence has one written form. -/

namespace Flowline.Text

/-! ## Six bits -/

/-- The six bits of a character. -/
def sixBits? (c : Char) : Option Nat :=
  if 'A' ≤ c ∧ c ≤ 'Z' then some (c.toNat - 'A'.toNat)
  else if 'a' ≤ c ∧ c ≤ 'z' then some (c.toNat - 'a'.toNat + 26)
  else if c.isDigit then some (c.toNat - '0'.toNat + 52)
  else if c = '+' then some 62
  else if c = '/' then some 63
  else none

theorem sixBits?_base64Char {n : Nat} (h : n < 64) : sixBits? (base64Char n) = some n := by
  have all : ∀ m ∈ List.range 64, sixBits? (base64Char m) = some m := by decide
  exact all n (List.mem_range.2 h)

theorem base64Char_ne_filler {n : Nat} (h : n < 64) : base64Char n ≠ '=' := by
  intro he
  have hread := sixBits?_base64Char h
  rw [he] at hread
  cases hread

/-- A character that has six bits is the one that is written for them. -/
theorem eq_base64Char_of_sixBits? {c : Char} {n : Nat} (h : sixBits? c = some n) :
    n < 64 ∧ c = base64Char n := by
  unfold sixBits? at h
  split at h
  · rename_i hc
    have hlo : 65 ≤ c.toNat := UInt32.le_iff_toNat_le.1 hc.1
    have hhi : c.toNat ≤ 90 := UInt32.le_iff_toNat_le.1 hc.2
    obtain rfl : c.toNat - 65 = n := Option.some.inj h
    refine ⟨by omega, ?_⟩
    rw [base64Char, if_pos (by omega)]
    show c = Char.ofNat (65 + (c.toNat - 65))
    rw [Nat.add_sub_cancel' hlo, Char.ofNat_toNat]
  split at h
  · rename_i hc
    have hlo : 97 ≤ c.toNat := UInt32.le_iff_toNat_le.1 hc.1
    have hhi : c.toNat ≤ 122 := UInt32.le_iff_toNat_le.1 hc.2
    obtain rfl : c.toNat - 97 + 26 = n := Option.some.inj h
    refine ⟨by omega, ?_⟩
    rw [base64Char, if_neg (by omega), if_pos (by omega)]
    show c = Char.ofNat (97 + (c.toNat - 97 + 26 - 26))
    rw [Nat.add_sub_cancel, Nat.add_sub_cancel' hlo, Char.ofNat_toNat]
  split at h
  · rename_i hc
    obtain ⟨hlo, hhi⟩ : 48 ≤ c.toNat ∧ c.toNat ≤ 57 := Char.isDigit_iff_toNat.1 hc
    obtain rfl : c.toNat - 48 + 52 = n := Option.some.inj h
    refine ⟨by omega, ?_⟩
    rw [base64Char, if_neg (by omega), if_neg (by omega), if_pos (by omega)]
    show c = Char.ofNat (48 + (c.toNat - 48 + 52 - 52))
    rw [Nat.add_sub_cancel, Nat.add_sub_cancel' hlo, Char.ofNat_toNat]
  split at h
  · rename_i hc
    obtain rfl : 62 = n := Option.some.inj h
    exact ⟨by omega, hc⟩
  split at h
  · rename_i hc
    obtain rfl : 63 = n := Option.some.inj h
    exact ⟨by omega, hc⟩
  · cases h

/-! ## Groups -/

/-- The three bytes of a full group. -/
def fullGroup? (a b c d : Char) : Option (List UInt8) := do
  let w ← sixBits? a
  let x ← sixBits? b
  let y ← sixBits? c
  let z ← sixBits? d
  return [(w * 4 + x / 16).toUInt8, (x % 16 * 16 + y / 4).toUInt8, (y % 4 * 64 + z).toUInt8]

/-- The one or two bytes of a group whose last character only fills it up. -/
def filledGroup? (a b c : Char) : Option (List UInt8) := do
  let w ← sixBits? a
  let x ← sixBits? b
  if c = '=' then
    if x % 16 = 0 then some [(w * 4 + x / 16).toUInt8] else none
  else
    let y ← sixBits? c
    if y % 4 = 0 then some [(w * 4 + x / 16).toUInt8, (x % 16 * 16 + y / 4).toUInt8] else none

/-- The bytes that a text stands for. -/
def unbase64? : List Char → Option (List UInt8)
  | [] => some []
  | a :: b :: c :: d :: r =>
    if d = '=' then if r = [] then filledGroup? a b c else none
    else do return (← fullGroup? a b c d) ++ (← unbase64? r)
  | _ => none

/-- A byte put together from its own bits. -/
theorem toUInt8_of_eq {n : Nat} {b : UInt8} (h : n = b.toNat) : n.toUInt8 = b := by
  rw [h]
  exact UInt8.ofNat_toNat

/-! ## What is written is read -/

theorem unbase64?_base64 (bs : List UInt8) : unbase64? (base64 bs) = some bs := by
  induction bs using base64.induct with
  | case1 a b c r ih =>
    have ha := a.toNat_lt
    have hb := b.toNat_lt
    have hc := c.toNat_lt
    obtain ⟨n, hn⟩ : ∃ n, n = a.toNat * 65536 + b.toNat * 256 + c.toNat := ⟨_, rfl⟩
    have hwritten : base64 (a :: b :: c :: r) = base64Char (n / 262144) ::
        base64Char (n / 4096 % 64) :: base64Char (n / 64 % 64) :: base64Char (n % 64) ::
        base64 r := by
      rw [hn]
      rfl
    have hgroup : fullGroup? (base64Char (n / 262144)) (base64Char (n / 4096 % 64))
        (base64Char (n / 64 % 64)) (base64Char (n % 64)) = some [a, b, c] := by
      rw [fullGroup?, sixBits?_base64Char (by omega), sixBits?_base64Char (by omega),
        sixBits?_base64Char (by omega), sixBits?_base64Char (by omega)]
      have hfirst : n / 262144 * 4 + n / 4096 % 64 / 16 = a.toNat := by omega
      have hsecond : n / 4096 % 64 % 16 * 16 + n / 64 % 64 / 4 = b.toNat := by omega
      have hthird : n / 64 % 64 % 4 * 64 + n % 64 = c.toNat := by omega
      show some [_, _, _] = _
      rw [toUInt8_of_eq hfirst, toUInt8_of_eq hsecond, toUInt8_of_eq hthird]
    rw [hwritten, unbase64?, if_neg (base64Char_ne_filler (by omega)), hgroup, ih]
    rfl
  | case2 a b =>
    have ha := a.toNat_lt
    have hb := b.toNat_lt
    obtain ⟨n, hn⟩ : ∃ n, n = a.toNat * 256 + b.toNat := ⟨_, rfl⟩
    have hwritten : base64 [a, b] = [base64Char (n / 1024), base64Char (n / 16 % 64),
        base64Char (n % 16 * 4), '='] := by
      rw [hn]
      rfl
    rw [hwritten, unbase64?, if_pos rfl, if_pos rfl, filledGroup?,
      sixBits?_base64Char (by omega), sixBits?_base64Char (by omega)]
    have hfirst : n / 1024 * 4 + n / 16 % 64 / 16 = a.toNat := by omega
    have hsecond : n / 16 % 64 % 16 * 16 + n % 16 * 4 / 4 = b.toNat := by omega
    show (if base64Char (n % 16 * 4) = '=' then _ else _) = _
    rw [if_neg (base64Char_ne_filler (by omega)), sixBits?_base64Char (by omega)]
    show (if n % 16 * 4 % 4 = 0 then some [_, _] else none) = _
    rw [if_pos (by omega), toUInt8_of_eq hfirst, toUInt8_of_eq hsecond]
  | case3 a =>
    have ha := a.toNat_lt
    rw [base64, unbase64?, if_pos rfl, if_pos rfl, filledGroup?,
      sixBits?_base64Char (by omega), sixBits?_base64Char (by omega)]
    have hfirst : a.toNat / 4 * 4 + a.toNat % 4 * 16 / 16 = a.toNat := by omega
    show (if a.toNat % 4 * 16 % 16 = 0 then some [_] else none) = _
    rw [if_pos (by omega), toUInt8_of_eq hfirst]
  | case4 => rfl

/-! ## Nothing else is read -/

theorem toNat_toUInt8 {n : Nat} (h : n < 256) : n.toUInt8.toNat = n := by
  show (UInt8.ofNat n).toNat = n
  rw [UInt8.toNat_ofNat']
  exact Nat.mod_eq_of_lt h

theorem base64_of_fullGroup? {a b c d : Char} {g : List UInt8} (h : fullGroup? a b c d = some g)
    (r : List UInt8) : base64 (g ++ r) = a :: b :: c :: d :: base64 r := by
  simp only [fullGroup?, Option.bind_eq_bind, Option.bind_eq_some_iff, Option.pure_def,
    Option.some.injEq] at h
  obtain ⟨w, hw, x, hx, y, hy, z, hz, rfl⟩ := h
  obtain ⟨hw, rfl⟩ := eq_base64Char_of_sixBits? hw
  obtain ⟨hx, rfl⟩ := eq_base64Char_of_sixBits? hx
  obtain ⟨hy, rfl⟩ := eq_base64Char_of_sixBits? hy
  obtain ⟨hz, rfl⟩ := eq_base64Char_of_sixBits? hz
  obtain ⟨n, hn⟩ : ∃ n, n = (w * 4 + x / 16) * 65536 + (x % 16 * 16 + y / 4) * 256 +
    (y % 4 * 64 + z) := ⟨_, rfl⟩
  have hwritten : base64 ([(w * 4 + x / 16).toUInt8, (x % 16 * 16 + y / 4).toUInt8,
      (y % 4 * 64 + z).toUInt8] ++ r) = base64Char (n / 262144) :: base64Char (n / 4096 % 64) ::
      base64Char (n / 64 % 64) :: base64Char (n % 64) :: base64 r := by
    rw [hn, ← toNat_toUInt8 (show w * 4 + x / 16 < 256 by omega),
      ← toNat_toUInt8 (show x % 16 * 16 + y / 4 < 256 by omega),
      ← toNat_toUInt8 (show y % 4 * 64 + z < 256 by omega)]
    simp [base64]
  have hfirst : n / 262144 = w := by omega
  have hsecond : n / 4096 % 64 = x := by omega
  have hthird : n / 64 % 64 = y := by omega
  have hfourth : n % 64 = z := by omega
  rw [hwritten, hfirst, hsecond, hthird, hfourth]

theorem base64_of_filledGroup? {a b c : Char} {g : List UInt8} (h : filledGroup? a b c = some g) :
    base64 g = [a, b, c, '='] := by
  simp only [filledGroup?, Option.bind_eq_bind, Option.bind_eq_some_iff] at h
  obtain ⟨w, hw, x, hx, h⟩ := h
  obtain ⟨hw, rfl⟩ := eq_base64Char_of_sixBits? hw
  obtain ⟨hx, rfl⟩ := eq_base64Char_of_sixBits? hx
  split at h
  · rename_i hc
    obtain ⟨hspare, hg⟩ := Option.ite_none_right_eq_some.1 h
    obtain rfl := Option.some.inj hg
    have hfirst : (w * 4 + x / 16) / 4 = w := by omega
    have hsecond : (w * 4 + x / 16) % 4 * 16 = x := by omega
    rw [base64, toNat_toUInt8 (by omega), hfirst, hsecond, hc]
  · obtain ⟨y, hy, hrest⟩ := Option.bind_eq_some_iff.1 h
    obtain ⟨hy, rfl⟩ := eq_base64Char_of_sixBits? hy
    obtain ⟨hspare, hg⟩ := Option.ite_none_right_eq_some.1 hrest
    obtain rfl := Option.some.inj hg
    obtain ⟨n, hn⟩ : ∃ n, n = (w * 4 + x / 16) * 256 + (x % 16 * 16 + y / 4) := ⟨_, rfl⟩
    have hwritten : base64 [(w * 4 + x / 16).toUInt8, (x % 16 * 16 + y / 4).toUInt8] =
        [base64Char (n / 1024), base64Char (n / 16 % 64), base64Char (n % 16 * 4), '='] := by
      rw [hn, base64, toNat_toUInt8 (by omega), toNat_toUInt8 (by omega)]
    have hfirst : n / 1024 = w := by omega
    have hsecond : n / 16 % 64 = x := by omega
    have hthird : n % 16 * 4 = y := by omega
    rw [hwritten, hfirst, hsecond, hthird]

theorem eq_base64_of_unbase64? {cs : List Char} {bs : List UInt8} (h : unbase64? cs = some bs) :
    cs = base64 bs := by
  induction cs using unbase64?.induct generalizing bs with
  | case1 =>
    obtain rfl : [] = bs := Option.some.inj h
    rfl
  | case2 a b c =>
    rw [unbase64?, if_pos rfl, if_pos rfl] at h
    exact (base64_of_filledGroup? h).symm
  | case3 a b c r hr =>
    rw [unbase64?, if_pos rfl, if_neg hr] at h
    cases h
  | case4 a b c d r hd ih =>
    rw [unbase64?, if_neg hd] at h
    simp only [Option.bind_eq_bind, Option.bind_eq_some_iff, Option.pure_def,
      Option.some.injEq] at h
    obtain ⟨g, hg, bs', hr, rfl⟩ := h
    rw [base64_of_fullGroup? hg, ← ih hr]
  | case5 cs hnil hlong =>
    rw [unbase64?] at h
    · cases h
    · exact hnil
    · exact hlong

/-- **Exactly what is written is read.** -/
theorem unbase64?_eq_some_iff {cs : List Char} {bs : List UInt8} :
    unbase64? cs = some bs ↔ cs = base64 bs := by
  constructor
  · exact eq_base64_of_unbase64?
  · rintro rfl
    exact unbase64?_base64 bs

end Flowline.Text
