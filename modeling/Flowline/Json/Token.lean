import Flowline.Json.Basic
import Flowline.Text.Hex

/-! The tokens of a JSON text. Scanning settles how a text is spelt and leaves open what some
spellings mean: a number may be beyond every floating-point value, and a string may hold half of a
surrogate pair. Both are carried as `none`, so that a part of a text that nobody reads may hold
them.

A number whose text has a fraction or an exponent, or that fits no integer of 64 bits, is a
floating-point value. Its digits are taken while they fit 64 bits, the rest only move the exponent;
that integer is rounded, and then scaled by a power of ten with one more rounding. -/

namespace Flowline.Json

/-! ## Numbers -/

structure Numeral where
  negative : Bool
  whole : List Char
  fraction : Option (List Char)
  exponent : Option Int
deriving DecidableEq, Repr

def digits? (cs : List Char) : Option (List Char × List Char) :=
  let ds := cs.takeWhile Char.isDigit
  if ds.isEmpty then none else some (ds, cs.dropWhile Char.isDigit)

def whole? : List Char → Option (List Char × List Char)
  | '0' :: r => some (['0'], r)
  | cs => digits? cs

/-- The digits after a point; without a point nothing is read. -/
def fraction? : List Char → Option (Option (List Char) × List Char)
  | '.' :: r => (digits? r).map fun (ds, r) => (some ds, r)
  | cs => some (none, cs)

def decimalValue (start : Nat) (ds : List Char) : Nat :=
  ds.foldl (fun n c => 10 * n + (c.toNat - '0'.toNat)) start

/-- An exponent with its mark; without a mark nothing is read. -/
def exponentPart? : List Char → Option (Option Int × List Char)
  | c :: r =>
    if c = 'e' ∨ c = 'E' then
      let (negative, r) := match r with
        | '-' :: r => (true, r)
        | '+' :: r => (false, r)
        | r => (false, r)
      (digits? r).map fun (ds, r) =>
        let n : Int := decimalValue 0 ds
        (some (if negative then -n else n), r)
    else some (none, c :: r)
  | [] => some (none, [])

def Numeral.scan? (cs : List Char) : Option (Numeral × List Char) := do
  let (negative, cs) := match cs with
    | '-' :: r => (true, r)
    | r => (false, r)
  let (whole, cs) ← whole? cs
  let (fraction, cs) ← fraction? cs
  let (exponent, cs) ← exponentPart? cs
  return (⟨negative, whole, fraction, exponent⟩, cs)

/-- Appends digits to a number while it stays below `2 ^ 64`; the digits left over come second. -/
def absorb (n : Nat) : List Char → Nat × List Char
  | [] => (n, [])
  | c :: r =>
    let m := 10 * n + (c.toNat - '0'.toNat)
    if m < 0x10000000000000000 then absorb m r else (n, c :: r)

/-- Scales a value by a power of ten, each step rounded. Below the table of powers the value is
first divided by the largest of them; nothing is above the table. -/
def scaled? (x : Double) (e : Int) : Option Double :=
  if x.isZero then some x
  else if 308 < e then none
  else if 0 ≤ e then
    match x.mul (.powTen e.toNat) with
    | .infinite _ => none
    | y => some y
  else if -308 ≤ e then some (x.div (.powTen (-e).toNat))
  else scaled? (x.div (.powTen 308)) (e + 308)
termination_by (-e).toNat
decreasing_by omega

def Numeral.value? (t : Numeral) : Option Number :=
  let (n, left) := absorb 0 t.whole
  if t.fraction = none ∧ t.exponent = none ∧ left = [] ∧
      ¬ (t.negative ∧ (n = 0 ∨ 0x8000000000000000 < n)) then
    some (.integer (if t.negative then -n else n))
  else
    let ds := t.fraction.getD []
    let (n, unread) := absorb n ds
    let e : Int := left.length - (ds.length - unread.length : Nat) + t.exponent.getD 0
    (scaled? (.ofNat n) e).map fun x => .float (if t.negative then x.neg else x)

/-! ## Strings -/

/-- A character that stands for itself or through a letter, or one 16-bit unit in hexadecimal. -/
inductive Piece where
  | char (c : Char)
  | unit (n : Nat)
deriving DecidableEq, Repr

def unescape? : Char → Option Char
  | '"' => some '"'
  | '\\' => some '\\'
  | '/' => some '/'
  | 'n' => some '\n'
  | 'r' => some '\r'
  | 't' => some '\t'
  | 'b' => some '\x08'
  | 'f' => some '\x0c'
  | _ => none

def pieces? : List Char → Option (List Piece × List Char)
  | [] => none
  | '"' :: r => some ([], r)
  | '\\' :: 'u' :: a :: b :: c :: d :: r => do
    let high := (← Text.hexDigit? a) * 16 + (← Text.hexDigit? b)
    let low := (← Text.hexDigit? c) * 16 + (← Text.hexDigit? d)
    let (ps, r) ← pieces? r
    return (.unit (high * 256 + low) :: ps, r)
  | '\\' :: c :: r => do
    let c ← unescape? c
    let (ps, r) ← pieces? r
    return (.char c :: ps, r)
  | c :: r =>
    if c.toNat < 0x20 ∨ c = '\\' then none
    else do
      let (ps, r) ← pieces? r
      return (.char c :: ps, r)

def isHigh (n : Nat) : Bool := 0xD800 ≤ n && n < 0xDC00
def isLow (n : Nat) : Bool := 0xDC00 ≤ n && n < 0xE000

/-- The characters that pieces stand for. A unit of the first half of a pair needs one of the
second half right after it, and a second half needs a first. -/
def join? : List Piece → Option (List Char)
  | [] => some []
  | .char c :: r => (join? r).map (c :: ·)
  | .unit n :: .unit m :: r =>
    if isHigh n then
      if isLow m then
        (join? r).map (Char.ofNat (0x10000 + (n - 0xD800) * 0x400 + (m - 0xDC00)) :: ·)
      else none
    else if isLow n then none
    else (join? (.unit m :: r)).map (Char.ofNat n :: ·)
  | .unit n :: r =>
    if isHigh n || isLow n then none else (join? r).map (Char.ofNat n :: ·)

/-! ## Tokens -/

/-- A token. A number or a string whose characters are in order but that stands for nothing is still
one. -/
inductive Token where
  | openArray | closeArray | openObject | closeObject | comma | colon
  | null
  | bool (b : Bool)
  | number (n : Option Number)
  | string (s : Option String)
deriving DecidableEq, Repr

def isSpace (c : Char) : Bool := c = ' ' || c = '\t' || c = '\n' || c = '\r'

/-- The token that starts with `c` and goes on with `r`. -/
def Token.next? (c : Char) (r : List Char) : Option (Token × List Char) :=
  match c, r with
  | '[', _ => some (.openArray, r)
  | ']', _ => some (.closeArray, r)
  | '\x7b', _ => some (.openObject, r)
  | '\x7d', _ => some (.closeObject, r)
  | ',', _ => some (.comma, r)
  | ':', _ => some (.colon, r)
  | 'n', 'u' :: 'l' :: 'l' :: r => some (.null, r)
  | 't', 'r' :: 'u' :: 'e' :: r => some (.bool true, r)
  | 'f', 'a' :: 'l' :: 's' :: 'e' :: r => some (.bool false, r)
  | '"', _ => (pieces? r).map fun (ps, r) => (.string ((join? ps).map String.ofList), r)
  | _, _ =>
    if c = '-' ∨ c.isDigit then
      (Numeral.scan? (c :: r)).map fun (t, r) => (.number t.value?, r)
    else none

/-! Every token takes at least one character, so scanning ends. -/

theorem length_of_digits? {cs ds r : List Char} (h : digits? cs = some (ds, r)) :
    r.length < cs.length := by
  simp only [digits?] at h
  split at h
  · contradiction
  · rename_i hd
    simp only [Option.some.injEq, Prod.mk.injEq] at h
    obtain ⟨rfl, rfl⟩ := h
    have := congrArg List.length (List.takeWhile_append_dropWhile (p := Char.isDigit) (l := cs))
    have : 0 < (cs.takeWhile Char.isDigit).length := List.length_pos_iff.2 (by simpa using hd)
    simp only [List.length_append] at *
    omega

theorem length_of_whole? {cs ds r : List Char} (h : whole? cs = some (ds, r)) :
    r.length < cs.length := by
  unfold whole? at h
  split at h
  · cases h; simp
  · exact length_of_digits? h

theorem length_of_fraction? {cs r : List Char} {ds : Option (List Char)}
    (h : fraction? cs = some (ds, r)) : r.length ≤ cs.length := by
  unfold fraction? at h
  split at h
  · obtain ⟨⟨a, b⟩, hd, he⟩ := Option.map_eq_some_iff.1 h
    have := length_of_digits? hd
    cases he
    simp only [List.length_cons]
    omega
  · cases h; exact Nat.le_refl _

theorem length_of_exponentPart? {cs r : List Char} {e : Option Int}
    (h : exponentPart? cs = some (e, r)) : r.length ≤ cs.length := by
  unfold exponentPart? at h
  split at h
  · split at h
    · obtain ⟨⟨a, b⟩, hd, he⟩ := Option.map_eq_some_iff.1 h
      have := length_of_digits? hd
      cases he
      revert this
      split <;> simp only [List.length_cons] <;> omega
    · cases h; exact Nat.le_refl _
  · cases h; exact Nat.le_refl _

theorem Numeral.length_of_scan? {cs r : List Char} {t : Numeral} (h : scan? cs = some (t, r)) :
    r.length < cs.length := by
  simp only [scan?, bind, Option.bind_eq_some_iff, pure, Prod.exists] at h
  obtain ⟨ds, a, ha, f, b, hb, e, c, hc, h⟩ := h
  cases h
  have h₁ := length_of_whole? ha
  have h₂ := length_of_fraction? hb
  have h₃ := length_of_exponentPart? hc
  revert h₁
  split <;> simp only [List.length_cons] <;> omega

theorem length_of_pieces? {cs r : List Char} {ps : List Piece} (h : pieces? cs = some (ps, r)) :
    r.length < cs.length := by
  fun_induction pieces? cs generalizing ps r with
  | case1 => contradiction
  | case2 => cases h; simp
  | case3 a b c d r' ih =>
    simp only [bind, Option.bind_eq_some_iff, pure, Prod.exists] at h
    obtain ⟨_, _, _, _, _, _, _, _, qs, t, hq, h⟩ := h
    cases h
    have := ih hq
    simp only [List.length_cons]
    omega
  | case4 c r' _ ih =>
    simp only [bind, Option.bind_eq_some_iff, pure, Prod.exists] at h
    obtain ⟨_, _, qs, t, hq, h⟩ := h
    cases h
    have := ih hq
    simp only [List.length_cons]
    omega
  | case5 => contradiction
  | case6 c r' _ _ _ _ ih =>
    simp only [bind, Option.bind_eq_some_iff, pure, Prod.exists] at h
    obtain ⟨qs, t, hq, h⟩ := h
    cases h
    have := ih hq
    simp only [List.length_cons]
    omega

theorem Token.length_of_next? {c : Char} {r s : List Char} {t : Token}
    (h : next? c r = some (t, s)) : s.length ≤ r.length := by
  unfold next? at h
  split at h
  iterate 6 (next => cases h; exact Nat.le_refl _)
  iterate 3 (next => cases h; simp only [List.length_cons]; omega)
  · obtain ⟨⟨ps, u⟩, hp, he⟩ := Option.map_eq_some_iff.1 h
    cases he
    exact Nat.le_of_lt (length_of_pieces? hp)
  · split at h
    · obtain ⟨⟨n, u⟩, hn, he⟩ := Option.map_eq_some_iff.1 h
      cases he
      exact Nat.le_of_lt_succ (Numeral.length_of_scan? hn)
    · contradiction

def Token.scan (cs : List Char) : Option (List Token) :=
  match cs with
  | [] => some []
  | c :: r =>
    if isSpace c then scan r
    else
      match _h : next? c r with
      | none => none
      | some (t, s) => (scan s).map (t :: ·)
termination_by cs.length
decreasing_by
  · simp
  · have := Token.length_of_next? _h
    simp only [List.length_cons]
    omega

end Flowline.Json
