import Flowline.Json.View
import Flowline.Proofs.Nesting
import Flowline.Proofs.Rounding

/-! # What an integer is taken for

A document can hold the integers of 64 bits, with a sign or without one, and a reader who asks for
an integer sees those with a sign. An integer that fits is seen as itself, be it written as a
number or in a string. One that does not fit is seen as nothing in a string, and what usually holds
is put in its place; but as a number it is seen through its floating-point value, and the greatest
integer that fits is put in its place. -/

namespace Flowline

/-! ## Blanks around a text -/

namespace Text

theorem dropWhile_isBlank_eq_self {cs : List Char} (h : ∀ c ∈ cs, isBlank c = false) :
    cs.dropWhile isBlank = cs := by
  cases cs with
  | nil => rfl
  | cons c r => simp [h c List.mem_cons_self]

theorem trim_eq_self {cs : List Char} (h : ∀ c ∈ cs, isBlank c = false) : trim cs = cs := by
  have hback : ∀ c ∈ cs.reverse, isBlank c = false := fun c hc => h c (List.mem_reverse.1 hc)
  rw [trim, dropWhile_isBlank_eq_self h, dropWhile_isBlank_eq_self hback, List.reverse_reverse]

/-- Blanks around a text are trimmed with those at its ends. -/
theorem trim_append {before after : List Char} (hbefore : ∀ c ∈ before, isBlank c = true)
    (hafter : ∀ c ∈ after, isBlank c = true) (cs : List Char) :
    trim (before ++ cs ++ after) = trim cs := by
  have hback : ∀ c ∈ after.reverse, isBlank c = true := fun c hc =>
    hafter c (List.mem_reverse.1 hc)
  rw [trim, trim, List.append_assoc, List.dropWhile_append_of_pos hbefore, List.dropWhile_append]
  split
  · rename_i hempty
    have hnone : cs.dropWhile isBlank = [] := List.isEmpty_iff.1 hempty
    have hall : (after ++ []).dropWhile isBlank = [] := List.dropWhile_append_of_pos hafter
    rw [List.append_nil] at hall
    rw [hnone, hall]
  · rw [List.reverse_append, List.dropWhile_append_of_pos hback]

theorem isBlank_of_isDigit {c : Char} (h : c.isDigit = true) : isBlank c = false := by
  have hcode : 48 ≤ c.toNat ∧ c.toNat ≤ 57 := by
    simpa [Char.isDigit, UInt32.le_iff_toNat_le] using h
  simp [isBlank, blankRanges]
  omega

end Text

/-! ## Digits -/

theorem Json.chars_int (n : Int) :
    (int n).chars = (if n < 0 then ['-'] else []) ++ Nat.toDigits 10 n.natAbs := by
  have hchars : (int n).chars =
      if n < 0 then '-' :: Nat.toDigits 10 n.natAbs else Nat.toDigits 10 n.natAbs := rfl
  rw [hchars]
  split <;> rfl

namespace Decimal

theorem splitSign_of_isDigit {c : Char} (h : c.isDigit = true) (r : List Char) :
    splitSign (c :: r) = (false, c :: r) := by
  unfold splitSign
  split
  · rename_i heq
    cases heq
    cases h
  · rename_i heq
    cases heq
    cases h
  · rfl

theorem splitSign_chars (n : Int) :
    splitSign (Json.int n).chars = (decide (n < 0), Nat.toDigits 10 n.natAbs) := by
  rw [Json.chars_int]
  by_cases hn : n < 0
  · simp [hn, splitSign]
  · obtain ⟨c, r, hcr⟩ := List.exists_cons_of_ne_nil (l := Nat.toDigits 10 n.natAbs)
      Nat.toDigits_ne_nil
    have hc : c.isDigit = true := Json.isDigit_toDigits n.natAbs c (by simp [hcr])
    simp [hn, hcr, splitSign_of_isDigit hc]

theorem ofDigits_toDigits (n : Nat) : ofDigits 0 (Nat.toDigits 10 n) = n :=
  Nat.ofDigitChars_toDigits (by decide) (by decide)

/-- The digits of an integer are read back. -/
theorem integer?_chars (n : Int) : integer? (Json.int n).chars = some n := by
  have hne : Nat.toDigits 10 n.natAbs ≠ [] := Nat.toDigits_ne_nil
  have hdigits : (Nat.toDigits 10 n.natAbs).all Char.isDigit = true :=
    List.all_eq_true.2 (Json.isDigit_toDigits n.natAbs)
  have hvalue : (if n < 0 then -(n.natAbs : Int) else n.natAbs) = n := by
    split <;> omega
  simpa [integer?, splitSign_chars, hne, hdigits, ofDigits_toDigits] using hvalue

end Decimal

/-! ## Views -/

namespace Json

theorem isBlank_of_mem_chars {n : Int} {c : Char} (h : c ∈ (int n).chars) :
    Text.isBlank c = false := by
  rw [chars_int, List.mem_append] at h
  rcases h with hsign | hdigit
  · split at hsign
    · obtain rfl := List.mem_singleton.1 hsign
      decide
    · cases hsign
  · exact Text.isBlank_of_isDigit (isDigit_toDigits n.natAbs c hdigit)

/-- A string of the digits of `n`, with nothing but blanks around them. -/
def Quotes (n : Int) (v : Json) : Prop :=
  ∃ before after : List Char, (∀ c ∈ before, Text.isBlank c = true) ∧
    (∀ c ∈ after, Text.isBlank c = true) ∧
    v = .string (String.ofList (before ++ (int n).chars ++ after))

/-- The two ways to write `n` into a document. -/
def Writes (n : Int) (v : Json) : Prop := v = int n ∨ Quotes n v

/-- What is seen of an integer that is written. -/
inductive Seen (n : Int) : Json → Option Int → Prop
  | itself {v : Json} (hfits : n ≤ greatestInt) (hv : Writes n v) : Seen n v (some n)
  /-- A number that is too large is not passed over, but taken for another one. -/
  | greatest (hlarge : greatestInt < n) : Seen n (int n) (some greatestInt)
  | nothing {v : Json} (hlarge : greatestInt < n) (hv : Quotes n v) : Seen n v none

variable {n : Int} {v : Json}

/-- A document can hold just the integers that fit 64 bits, with a sign or without one. -/
theorem parse?_int_iff : parse? (int n).text = some (int n) ↔ (Number.integer n).Fits := by
  constructor
  · intro h
    obtain ⟨t, ht, hv⟩ := Option.bind_eq_some_iff.1 h
    have hmem : Number.integer n ∈ (int n).numbers := List.mem_singleton_self _
    exact Tree.fits_of_parse? ht _ (Tree.numbers_value? hv hmem)
  · intro h
    have hexact : Exact (int n).numbers := by
      intro m hm
      obtain rfl := List.mem_singleton.1 hm
      exact ⟨trivial, h⟩
    rw [parse?, Tree.parse?_compact hexact]
    rfl

theorem inRange_iff (hn : (Number.integer n).Fits) : inRange n = true ↔ n ≤ greatestInt := by
  have hlow : leastInt ≤ n := hn.1
  simp [inRange, hlow]

/-- An integer beyond the range is rounded, but not back into it. -/
theorem int?_int_of_lt (hn : (Number.integer n).Fits) (hlarge : greatestInt < n) :
    (int n).int? = some greatestInt := by
  obtain ⟨m, rfl⟩ := Int.eq_ofNat_of_zero_le (a := n) (by simp only [greatestInt] at hlarge; omega)
  have hout : ¬inRange m = true := by
    rw [inRange_iff hn]
    omega
  -- all of these lie between two powers of two, and both are beyond the range
  have hlow : 2 ^ 52 * 2 ^ 11 ≤ m := by
    simp only [greatestInt] at hlarge
    omega
  have hhigh : m < 2 ^ 53 * 2 ^ 11 := by
    have := hn.2
    omega
  obtain ⟨r, hr, hleast, -⟩ := Double.toInt?_ofNat (by decide) hlow hhigh
  have hround : Double.ofInt m = Double.ofNat m := by
    have hsign : ¬(m : Int) < 0 := Int.not_lt.2 (Int.natCast_nonneg m)
    simp [Double.ofInt, Double.ofNat, hsign]
  have hview : (int m).int? = (Double.ofInt m).toInt?.map clamped := if_neg hout
  rw [hview, hround, hr, Option.map_some, clamped]
  exact congrArg some (by simp only [leastInt, greatestInt]; omega)

/-- A string is seen as the integer that it spells, if that fits. -/
theorem int?_of_quotes (h : Quotes n v) : v.int? = if inRange n then some n else none := by
  obtain ⟨before, after, hbefore, hafter, rfl⟩ := h
  have htrim : Text.trim (before ++ (int n).chars ++ after) = (int n).chars := by
    rw [Text.trim_append hbefore hafter, Text.trim_eq_self fun _ => isBlank_of_mem_chars]
  simp only [int?, String.toList_ofList, htrim, Decimal.integer?_chars, Option.filter_some]

/-- An integer that fits is seen as itself however it is written. -/
theorem int?_of_writes (hn : (Number.integer n).Fits) (hfits : n ≤ greatestInt)
    (hv : Writes n v) : v.int? = some n := by
  have hin := (inRange_iff hn).2 hfits
  rcases hv with rfl | hquotes
  · exact if_pos hin
  · rw [int?_of_quotes hquotes, if_pos hin]

/-- A string that spells an integer beyond the range is seen as none. -/
theorem int?_of_quotes_of_lt (hn : (Number.integer n).Fits) (hlarge : greatestInt < n)
    (hv : Quotes n v) : v.int? = none := by
  have hout : ¬inRange n = true := fun hin => Int.not_le.2 hlarge ((inRange_iff hn).1 hin)
  rw [int?_of_quotes hv, if_neg hout]

theorem seen_int? (hn : (Number.integer n).Fits) (hv : Writes n v) : Seen n v v.int? := by
  by_cases hfits : n ≤ greatestInt
  · rw [int?_of_writes hn hfits hv]
    exact .itself hfits hv
  · have hlarge : greatestInt < n := Int.lt_of_not_ge hfits
    rcases hv with rfl | hquotes
    · rw [int?_int_of_lt hn hlarge]
      exact .greatest hlarge
    · rw [int?_of_quotes_of_lt hn hlarge hquotes]
      exact .nothing hlarge hquotes

theorem Seen.int?_eq (hn : (Number.integer n).Fits) {x : Option Int} (h : Seen n v x) :
    v.int? = x := by
  cases h with
  | itself hfits hv => exact int?_of_writes hn hfits hv
  | greatest hlarge => exact int?_int_of_lt hn hlarge
  | nothing hlarge hv => exact int?_of_quotes_of_lt hn hlarge hv

/-- The two ways to write an integer agree just on those that fit. -/
theorem int?_eq_iff_of_quotes (hn : (Number.integer n).Fits) (hv : Quotes n v) :
    (int n).int? = v.int? ↔ n ≤ greatestInt := by
  constructor
  · intro hagree
    refine Int.not_lt.1 fun hlarge => ?_
    rw [int?_int_of_lt hn hlarge, int?_of_quotes_of_lt hn hlarge hv] at hagree
    cases hagree
  · intro hfits
    rw [int?_of_writes hn hfits (.inl rfl), int?_of_writes hn hfits (.inr hv)]

end Json

end Flowline
