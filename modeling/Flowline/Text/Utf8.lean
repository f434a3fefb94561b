/-! UTF-8. A byte sequence is read from left to right in pieces: a character, or the longest start
of one that breaks off. A strict reader refuses the second kind, a lossy one puts the replacement
character in its place. -/

namespace Flowline.Text

def utf8 (cs : List Char) : List UInt8 := cs.flatMap String.utf8EncodeChar

def utf8OfString (s : String) : List UInt8 := utf8 s.toList

/-- What a first byte announces: the bits that it carries itself, how many bytes follow, and the
bounds of the first of those. The bounds rule out overlong forms, surrogates and what is beyond the
last code point. -/
def announced? (b : UInt8) : Option (Nat × Nat × UInt8 × UInt8) :=
  if b < 0x80 then some (b.toNat, 0, 0x80, 0xBF)
  else if b < 0xC2 then none
  else if b < 0xE0 then some (b.toNat % 32, 1, 0x80, 0xBF)
  else if b = 0xE0 then some (0, 2, 0xA0, 0xBF)
  else if b = 0xED then some (13, 2, 0x80, 0x9F)
  else if b < 0xF0 then some (b.toNat % 16, 2, 0x80, 0xBF)
  else if b = 0xF0 then some (0, 3, 0x90, 0xBF)
  else if b < 0xF4 then some (b.toNat % 8, 3, 0x80, 0xBF)
  else if b = 0xF4 then some (4, 3, 0x80, 0x8F)
  else none

def following : Nat → Nat → UInt8 → UInt8 → List UInt8 → Option Nat × List UInt8
  | 0, bits, _, _, r => (some bits, r)
  | _ + 1, _, _, _, [] => (none, [])
  | n + 1, bits, least, greatest, b :: r =>
    if least ≤ b ∧ b ≤ greatest then following n (bits * 64 + b.toNat % 64) 0x80 0xBF r
    else (none, b :: r)

theorem length_following (n bits : Nat) (least greatest : UInt8) (r : List UInt8) :
    (following n bits least greatest r).2.length ≤ r.length := by
  fun_induction following n bits least greatest r with
  | case1 => simp
  | case2 => simp
  | case3 _ _ _ _ _ _ _ ih => simp only [List.length_cons]; omega
  | case4 => simp

/-- The pieces of a byte sequence. -/
def characters? : List UInt8 → List (Option Char)
  | [] => []
  | b :: r =>
    match announced? b with
    | none => none :: characters? r
    | some (bits, n, least, greatest) =>
      (following n bits least greatest r).1.map Char.ofNat
        :: characters? (following n bits least greatest r).2
termination_by bs => bs.length
decreasing_by
  · simp
  · have := length_following n bits least greatest r
    simp only [List.length_cons]
    omega

def ofUtf8? (bs : List UInt8) : Option (List Char) := (characters? bs).mapM id

def replacement : Char := '\ufffd'

/-- The text that bytes encode as far as they do. -/
def ofUtf8Lossy (bs : List UInt8) : List Char := (characters? bs).map (·.getD replacement)

example : ofUtf8? [0x61, 0xC3, 0xA9, 0xF0, 0x9F, 0x98, 0x80] = some ['a', 'é', '😀'] := by
  decide +kernel
example :
    ofUtf8Lossy [0xE2, 0x82, 0x41, 0xE0, 0x80] = [replacement, 'A', replacement, replacement] :=
  by decide +kernel

end Flowline.Text
