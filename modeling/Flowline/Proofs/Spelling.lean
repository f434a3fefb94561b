import Flowline.Json.Printer
import Flowline.Json.Token

/-! # Compact text is scanned back

The compact text of a value without floating-point numbers is scanned into the tokens of the
value: an integer of at most 64 bits is spelt in digits that are not taken for a
floating-point number, and every escape of a string stands for the character it escapes. The
only token whose end is not told by its own text is a number, so what follows a value must
not go on as a number would; in a larger text it never does. -/

namespace Flowline

/-- A number without a fraction and an exponent. -/
def Number.IsInteger : Number → Prop
  | .integer _ => True
  | .float _ => False

instance : DecidablePred Number.IsInteger
  | .integer _ => .isTrue trivial
  | .float _ => .isFalse id

/-- An integer fits 64 bits, with a sign if it is negative. -/
def Number.Fits : Number → Prop
  | .integer n => -0x8000000000000000 ≤ n ∧ n < 0x10000000000000000
  | .float _ => True

namespace Json

mutual
/-- The numbers of a value. -/
def numbers : Json → List Number
  | .number n => [n]
  | .array items => itemsNumbers items
  | .object ms => membersNumbers ms
  | _ => []

def itemsNumbers : List Json → List Number
  | [] => []
  | v :: r => numbers v ++ itemsNumbers r

def membersNumbers : List (String × Json) → List Number
  | [] => []
  | (_, v) :: r => numbers v ++ membersNumbers r
end

mutual
/-- The tokens of a value, as it is written. -/
def tokens : Json → List Token
  | .null => [.null]
  | .bool b => [.bool b]
  | .number n => [.number (some n)]
  | .string s => [.string (some s)]
  | .array [] => [.openArray, .closeArray]
  | .array (v :: r) => .openArray :: tokens v ++ itemsTokens r
  | .object [] => [.openObject, .closeObject]
  | .object ((k, v) :: r) =>
    .openObject :: .string (some k) :: .colon :: tokens v ++ membersTokens r

def itemsTokens : List Json → List Token
  | [] => [.closeArray]
  | v :: r => .comma :: tokens v ++ itemsTokens r

def membersTokens : List (String × Json) → List Token
  | [] => [.closeObject]
  | (k, v) :: r => .comma :: .string (some k) :: .colon :: tokens v ++ membersTokens r
end

/-- All numbers are integers that fit. -/
def Exact (ns : List Number) : Prop := ∀ n ∈ ns, n.IsInteger ∧ n.Fits

theorem exact_append {ms ns : List Number} : Exact (ms ++ ns) ↔ Exact ms ∧ Exact ns :=
  List.forall_mem_append

/-! ## Digits -/

theorem decimalValue_toDigits (n : Nat) : decimalValue 0 (Nat.toDigits 10 n) = n :=
  Nat.ofDigitChars_toDigits (by decide) (by decide)

theorem decimalValue_cons (n : Nat) (c : Char) (ds : List Char) :
    decimalValue n (c :: ds) = decimalValue (10 * n + (c.toNat - '0'.toNat)) ds := by
  simp only [decimalValue, List.foldl_cons]

theorem le_decimalValue (n : Nat) (ds : List Char) : n ≤ decimalValue n ds := by
  induction ds generalizing n with
  | nil => exact Nat.le_refl n
  | cons c ds ih =>
    have hle := ih (10 * n + (c.toNat - '0'.toNat))
    rw [decimalValue_cons]
    omega

/-- Nothing is left over of digits whose value fits. -/
theorem absorb_eq {n : Nat} {ds : List Char} (h : decimalValue n ds < 0x10000000000000000) :
    absorb n ds = (decimalValue n ds, []) := by
  induction ds generalizing n with
  | nil => rfl
  | cons c ds ih =>
    rw [decimalValue_cons] at h ⊢
    rw [absorb, if_pos (Nat.lt_of_le_of_lt (le_decimalValue _ _) h), ih h]

theorem absorb_lt {n : Nat} (h : n < 0x10000000000000000) (ds : List Char) :
    (absorb n ds).1 < 0x10000000000000000 := by
  induction ds generalizing n with
  | nil => exact h
  | cons c ds ih =>
    rw [absorb]
    split
    · rename_i hm
      exact ih hm
    · exact h

/-- What follows a number does not go on with it. -/
def Apart (rest : List Char) : Prop :=
  ∀ c ∈ rest.head?, c.isDigit = false ∧ c ≠ '.' ∧ c ≠ 'e' ∧ c ≠ 'E'

theorem isDigit_toDigits (n : Nat) : ∀ c ∈ Nat.toDigits 10 n, c.isDigit = true := fun _ hc =>
  Nat.isDigit_of_mem_toDigits (by decide) (by decide) hc

theorem digits?_append {ds rest : List Char} (hne : ds ≠ []) (hds : ∀ c ∈ ds, c.isDigit = true)
    (hrest : Apart rest) : digits? (ds ++ rest) = some (ds, rest) := by
  have hstop : rest.takeWhile Char.isDigit = [] ∧ rest.dropWhile Char.isDigit = rest := by
    cases rest with
    | nil => exact ⟨rfl, rfl⟩
    | cons c r =>
      have hc : c.isDigit = false := (hrest c rfl).1
      simp [hc]
  simp [digits?, List.takeWhile_append_of_pos hds, List.dropWhile_append_of_pos hds, hstop, hne]

/-- Only the digits of zero start with one. -/
theorem head?_toDigits {n : Nat} (h : 0 < n) : (Nat.toDigits 10 n).head? ≠ some '0' := by
  induction n using Nat.strongRecOn with
  | ind n ih =>
    by_cases hn : n < 10
    · have hall : ∀ m ∈ List.range' 1 9, Nat.digitChar m ≠ '0' := by decide
      rw [Nat.toDigits_of_lt_base hn]
      simpa using hall n (by simp; omega)
    · have hne : Nat.toDigits 10 (n / 10) ≠ [] := Nat.toDigits_ne_nil
      obtain ⟨c, ds, hds⟩ := List.exists_cons_of_ne_nil hne
      have hfirst := ih (n / 10) (by omega) (by omega)
      rw [Nat.toDigits_of_base_le (by decide) (Nat.le_of_not_lt hn)]
      rw [hds] at hfirst ⊢
      exact hfirst

theorem whole?_toDigits (n : Nat) {rest : List Char} (hrest : Apart rest) :
    whole? (Nat.toDigits 10 n ++ rest) = some (Nat.toDigits 10 n, rest) := by
  rcases Nat.eq_zero_or_pos n with rfl | hn
  · rfl
  · have hdigits := digits?_append Nat.toDigits_ne_nil (isDigit_toDigits n) hrest
    have hhead := head?_toDigits hn
    have hne : Nat.toDigits 10 n ≠ [] := Nat.toDigits_ne_nil
    cases hds : Nat.toDigits 10 n with
    | nil => exact absurd hds hne
    | cons c ds =>
      rw [hds] at hdigits hhead
      unfold whole?
      split
      · rename_i heq
        cases heq
        exact absurd rfl hhead
      · exact hdigits

theorem fraction?_of_apart {rest : List Char} (h : Apart rest) :
    fraction? rest = some (none, rest) := by
  unfold fraction?
  split
  · exact absurd rfl (h '.' rfl).2.1
  · rfl

theorem exponentPart?_of_apart {rest : List Char} (h : Apart rest) :
    exponentPart? rest = some (none, rest) := by
  cases rest with
  | nil => rfl
  | cons c r =>
    obtain ⟨-, -, he, hE⟩ := h c rfl
    simp [exponentPart?, he, hE]

/-! ## Numbers -/

namespace Numeral

/-- An integer as it is written. -/
def ofInt (n : Int) : Numeral := ⟨n < 0, Nat.toDigits 10 n.natAbs, none, none⟩

theorem value?_ofInt {n : Int} (h : (Number.integer n).Fits) :
    (ofInt n).value? = some (.integer n) := by
  have hlt : n.natAbs < 0x10000000000000000 := by
    obtain ⟨hlow, hhigh⟩ := h
    omega
  have habsorb : absorb 0 (Nat.toDigits 10 n.natAbs) = (n.natAbs, []) := by
    rw [absorb_eq (by rwa [decimalValue_toDigits]), decimalValue_toDigits]
  have hsign : ¬(n < 0 ∧ (n.natAbs = 0 ∨ 0x8000000000000000 < n.natAbs)) := by
    obtain ⟨hlow, -⟩ := h
    omega
  have hvalue : (if n < 0 then -(n.natAbs : Int) else n.natAbs) = n := by
    split <;> omega
  have hplain : (ofInt n).fraction = none ∧ (ofInt n).exponent = none ∧ ([] : List Char) = [] ∧
      ¬((ofInt n).negative ∧ (n.natAbs = 0 ∨ 0x8000000000000000 < n.natAbs)) := by
    simpa [ofInt] using hsign
  have hwhole : (ofInt n).whole = Nat.toDigits 10 n.natAbs := rfl
  rw [value?, hwhole, habsorb]
  dsimp only
  rw [if_pos hplain]
  simpa [ofInt] using hvalue

/-- A numeral that stands for an integer stands for one of 64 bits. -/
theorem fits_of_value? {t : Numeral} {x : Number} (h : t.value? = some x) : x.Fits := by
  have hlt := absorb_lt (by decide : 0 < 0x10000000000000000) t.whole
  unfold value? at h
  generalize absorb 0 t.whole = a at hlt h
  obtain ⟨n, left⟩ := a
  dsimp only at hlt h
  split at h
  · rename_i hplain
    obtain ⟨-, -, -, hsign⟩ := hplain
    obtain rfl := Option.some.inj h
    cases hn : t.negative with
    | false =>
      simp only [Number.Fits, Bool.false_eq_true, if_false]
      omega
    | true =>
      have hbound : ¬(n = 0 ∨ 0x8000000000000000 < n) := fun hor => hsign ⟨hn, hor⟩
      simp only [Number.Fits, if_true]
      omega
  · obtain ⟨y, -, rfl⟩ := Option.map_eq_some_iff.1 h
    trivial

theorem scan?_ofInt (n : Int) {rest : List Char} (hrest : Apart rest) :
    scan? (numberChars (.integer n) ++ rest) = some (ofInt n, rest) := by
  have hwhole := whole?_toDigits n.natAbs hrest
  by_cases hn : n < 0
  · simp [scan?, numberChars, hn, hwhole, fraction?_of_apart hrest, exponentPart?_of_apart hrest,
      ofInt]
  · have hne : Nat.toDigits 10 n.natAbs ≠ [] := Nat.toDigits_ne_nil
    obtain ⟨c, ds, hds⟩ := List.exists_cons_of_ne_nil hne
    have hc : c ≠ '-' := by
      rintro rfl
      exact Bool.noConfusion (isDigit_toDigits n.natAbs '-' (by simp [hds]))
    rw [hds, List.cons_append] at hwhole
    simp [scan?, numberChars, hn, hds, hc, hwhole, fraction?_of_apart hrest,
      exponentPart?_of_apart hrest, ofInt]

end Numeral

/-! ## Strings -/

/-- What a character becomes inside quotes. -/
def pieceOf (c : Char) : Piece :=
  if escapeLetter? c = none ∧ c.toNat < 0x20 then .unit c.toNat else .char c

theorem pieces?_escaped (c : Char) (r : List Char) :
    pieces? (escaped c ++ r) = (pieces? r).bind fun (ps, s) => some (pieceOf c :: ps, s) := by
  unfold escaped pieceOf
  cases hl : escapeLetter? c with
  | some l =>
    unfold escapeLetter? at hl
    split at hl <;> cases hl <;> simp [pieces?, unescape?]
  | none =>
    by_cases hc : c.toNat < 0x20
    · have hhigh := Text.hexDigit?_digitChar (by omega : c.toNat / 16 < 16)
      have hlow := Text.hexDigit?_digitChar (Nat.mod_lt c.toNat (by decide : 0 < 16))
      have hzero : Text.hexDigit? '0' = some 0 := rfl
      have hvalue : c.toNat / 16 * 16 + c.toNat % 16 = c.toNat := by omega
      simp [hc, pieces?, hexDigit, hhigh, hlow, hzero, hvalue]
    · have hquote : c ≠ '"' := by rintro rfl; cases hl
      have hslash : c ≠ '\\' := by rintro rfl; cases hl
      simp [hc, pieces?, hslash]

theorem pieces?_flatMap (cs rest : List Char) :
    pieces? (cs.flatMap escaped ++ '"' :: rest) = some (cs.map pieceOf, rest) := by
  induction cs with
  | nil => rfl
  | cons c cs ih => simp [List.flatMap_cons, List.append_assoc, pieces?_escaped, ih]

theorem join?_unit {n : Nat} (h : n < 0xD800) (ps : List Piece) :
    join? (.unit n :: ps) = (join? ps).map (Char.ofNat n :: ·) := by
  have hhigh : isHigh n = false := by simp [isHigh]; omega
  have hlow : isLow n = false := by simp [isLow]; omega
  cases ps with
  | nil => simp [join?, hhigh, hlow]
  | cons p ps => cases p <;> simp [join?, hhigh, hlow]

theorem join?_map (cs : List Char) : join? (cs.map pieceOf) = some cs := by
  induction cs with
  | nil => rfl
  | cons c cs ih =>
    rw [List.map_cons, pieceOf]
    split
    · rename_i hc
      rw [join?_unit (Nat.lt_trans hc.2 (by decide)), ih, Char.ofNat_toNat]
      rfl
    · rw [join?, ih]
      rfl

/-! ## Tokens -/

namespace Token

theorem scan_cons {c : Char} {r s : List Char} {t : Token} (hc : isSpace c = false)
    (h : next? c r = some (t, s)) : scan (c :: r) = (scan s).map (t :: ·) := by
  rw [scan, hc]
  simp only [Bool.false_eq_true, if_false]
  split
  · rename_i hnone
    rw [h] at hnone
    cases hnone
  · rename_i hsome
    rw [h] at hsome
    cases hsome
    rfl

@[simp] theorem scan_openArray (r : List Char) :
    scan ('[' :: r) = (scan r).map (.openArray :: ·) := scan_cons rfl rfl
@[simp] theorem scan_closeArray (r : List Char) :
    scan (']' :: r) = (scan r).map (.closeArray :: ·) := scan_cons rfl rfl
@[simp] theorem scan_openObject (r : List Char) :
    scan ('\x7b' :: r) = (scan r).map (.openObject :: ·) := scan_cons rfl rfl
@[simp] theorem scan_closeObject (r : List Char) :
    scan ('\x7d' :: r) = (scan r).map (.closeObject :: ·) := scan_cons rfl rfl
@[simp] theorem scan_comma (r : List Char) :
    scan (',' :: r) = (scan r).map (.comma :: ·) := scan_cons rfl rfl
@[simp] theorem scan_colon (r : List Char) :
    scan (':' :: r) = (scan r).map (.colon :: ·) := scan_cons rfl rfl

theorem scan_quoted (s : String) (rest : List Char) :
    scan (quoted s ++ rest) = (scan rest).map (.string (some s) :: ·) := by
  have hpieces : pieces? (s.toList.flatMap escaped ++ '"' :: rest) =
      some (s.toList.map pieceOf, rest) := pieces?_flatMap s.toList rest
  have hnext : next? '"' (s.toList.flatMap escaped ++ '"' :: rest) =
      some (.string (some s), rest) := by
    simp [next?, hpieces, join?_map]
  rw [quoted, List.cons_append, List.cons_append, List.append_assoc]
  exact scan_cons rfl hnext

theorem next?_of_numeral {c : Char} {r : List Char} (h : c = '-' ∨ c.isDigit) :
    next? c r = (Numeral.scan? (c :: r)).map fun (t, r) => (.number t.value?, r) := by
  unfold next?
  split <;> first | (rw [if_pos h]) | (exact absurd h (by decide))

theorem scan_integer {n : Int} (hn : (Number.integer n).Fits) {rest : List Char}
    (hrest : Apart rest) : scan (numberChars (.integer n) ++ rest) =
      (scan rest).map (.number (some (.integer n)) :: ·) := by
  obtain ⟨c, cs, hcs, hc⟩ : ∃ c cs, numberChars (.integer n) = c :: cs ∧ (c = '-' ∨ c.isDigit) := by
    by_cases hneg : n < 0
    · exact ⟨'-', _, if_pos hneg, .inl rfl⟩
    · obtain ⟨c, cs, hcs⟩ := List.exists_cons_of_ne_nil (l := Nat.toDigits 10 n.natAbs)
        Nat.toDigits_ne_nil
      have hc : c.isDigit := isDigit_toDigits n.natAbs c (by simp [hcs])
      exact ⟨c, cs, (if_neg hneg).trans hcs, .inr hc⟩
  have hscan := Numeral.scan?_ofInt n hrest
  rw [hcs, List.cons_append] at hscan ⊢
  refine scan_cons ?_ ?_
  · rcases hc with rfl | hc
    · rfl
    · simp only [isSpace, Bool.or_eq_false_iff, decide_eq_false_iff_not]
      refine ⟨⟨⟨?_, ?_⟩, ?_⟩, ?_⟩ <;> rintro rfl <;> cases hc
  · rw [next?_of_numeral hc, hscan]
    simp [Numeral.value?_ofInt hn]

end Token

theorem apart_items (r : List Json) (rest : List Char) : Apart (itemsChars r ++ rest) := by
  cases r <;> simp [Apart, itemsChars]

theorem apart_members (r : List (String × Json)) (rest : List Char) :
    Apart (membersChars r ++ rest) := by
  rcases r with _ | ⟨⟨k, v⟩, r⟩ <;> simp [Apart, membersChars]

mutual

theorem scan_chars : (v : Json) → Exact v.numbers → (rest : List Char) → Apart rest →
    Token.scan (v.chars ++ rest) = (Token.scan rest).map (v.tokens ++ ·)
  | .null, _, _, _ => Token.scan_cons rfl rfl
  | .bool b, _, _, _ => by cases b <;> exact Token.scan_cons rfl rfl
  | .number n, h, rest, hrest => by
    obtain ⟨hinteger, hfits⟩ := h n (by simp [numbers])
    cases n with
    | integer n => exact Token.scan_integer hfits hrest
    | float x => exact hinteger.elim
  | .string s, _, rest, _ => Token.scan_quoted s rest
  | .array [], _, rest, _ => by simp [chars, tokens, Function.comp_def]
  | .array (v :: r), h, rest, _ => by
    obtain ⟨hv, hr⟩ : Exact v.numbers ∧ Exact (itemsNumbers r) := exact_append.1 h
    simp [chars, tokens, scan_chars v hv _ (apart_items r rest), scan_itemsChars r hr,
      Function.comp_def]
  | .object [], _, rest, _ => by simp [chars, tokens, Function.comp_def]
  | .object ((k, v) :: r), h, rest, _ => by
    obtain ⟨hv, hr⟩ : Exact v.numbers ∧ Exact (membersNumbers r) := exact_append.1 h
    simp [chars, tokens, Token.scan_quoted, scan_chars v hv _ (apart_members r rest),
      scan_membersChars r hr, Function.comp_def]

theorem scan_itemsChars : (items : List Json) → Exact (itemsNumbers items) → (rest : List Char) →
    Token.scan (itemsChars items ++ rest) = (Token.scan rest).map (itemsTokens items ++ ·)
  | [], _, rest => by simp [itemsChars, itemsTokens]
  | v :: r, h, rest => by
    obtain ⟨hv, hr⟩ : Exact v.numbers ∧ Exact (itemsNumbers r) := exact_append.1 h
    simp [itemsChars, itemsTokens, scan_chars v hv _ (apart_items r rest), scan_itemsChars r hr,
      Function.comp_def]

theorem scan_membersChars : (ms : List (String × Json)) → Exact (membersNumbers ms) →
    (rest : List Char) →
    Token.scan (membersChars ms ++ rest) = (Token.scan rest).map (membersTokens ms ++ ·)
  | [], _, rest => by simp [membersChars, membersTokens]
  | (k, v) :: r, h, rest => by
    obtain ⟨hv, hr⟩ : Exact v.numbers ∧ Exact (membersNumbers r) := exact_append.1 h
    simp [membersChars, membersTokens, Token.scan_quoted,
      scan_chars v hv _ (apart_members r rest), scan_membersChars r hr, Function.comp_def]

end

/-- The tokens of a value are scanned from its compact text. -/
theorem scan_text {v : Json} (h : Exact v.numbers) : Token.scan v.text.toList = some v.tokens := by
  have hscan := scan_chars v h [] (by simp [Apart])
  have hend : Token.scan [] = some [] := by rw [Token.scan]
  simpa [text, hend] using hscan

/-! ## Numbers of a text -/

namespace Token

/-- The number that a token stands for. -/
def numbers : Token → List Number
  | .number (some n) => [n]
  | _ => []

theorem fits_of_next? {c : Char} {r s : List Char} {t : Token} (h : next? c r = some (t, s)) :
    ∀ n ∈ t.numbers, n.Fits := by
  unfold next? at h
  split at h
  iterate 9 (next => cases h; simp [numbers])
  · obtain ⟨⟨ps, u⟩, -, he⟩ := Option.map_eq_some_iff.1 h
    cases he
    simp [numbers]
  · split at h
    · obtain ⟨⟨m, u⟩, -, he⟩ := Option.map_eq_some_iff.1 h
      cases he
      intro n hn
      cases hm : m.value? with
      | none => simp [numbers, hm] at hn
      | some x =>
        obtain rfl : n = x := by simpa [numbers, hm] using hn
        exact Numeral.fits_of_value? hm
    · contradiction

/-- Whatever a text is, the integers in it fit 64 bits. -/
theorem fits_of_scan {cs : List Char} {ts : List Token} (h : scan cs = some ts) :
    ∀ n ∈ ts.flatMap numbers, n.Fits := by
  fun_induction scan cs generalizing ts with
  | case1 =>
    obtain rfl := Option.some.inj h
    simp
  | case2 c r hc ih => exact ih h
  | case3 => cases h
  | case4 c r hc t s hnext ih =>
    obtain ⟨us, hus, rfl⟩ := Option.map_eq_some_iff.1 h
    intro n hn
    rw [List.flatMap_cons, List.mem_append] at hn
    rcases hn with hn | hn
    · exact fits_of_next? hnext n hn
    · exact ih hus n hn

end Token

end Json
end Flowline
