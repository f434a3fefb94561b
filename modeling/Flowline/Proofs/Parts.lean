import Flowline.Url.Basic
import Mathlib.Data.List.TakeWhile

/-! # The parts of an address

An address is a front, a query behind the first question mark and a fragment behind the first number
sign, once blanks around it are gone. Blanks at its end stay if something is put behind them. -/

namespace Flowline.Url

/-! ## Scans that stop -/

section Scans

variable {α : Type} {p : α → Bool} {s : List α}

/-- A scan that cannot get into what follows stays in front of it. -/
theorem takeWhile_append_of_stop (h : ∀ c, s.head? = some c → p c = false) (l : List α) :
    (l ++ s).takeWhile p = l.takeWhile p := by
  induction l with
  | nil =>
    cases s with
    | nil => rfl
    | cons c s => exact List.takeWhile_cons_of_neg (by simp [h c rfl])
  | cons c l ih =>
    rw [List.cons_append, List.takeWhile_cons, List.takeWhile_cons, ih]

theorem dropWhile_append_of_stop (h : ∀ c, s.head? = some c → p c = false) (l : List α) :
    (l ++ s).dropWhile p = l.dropWhile p ++ s := by
  induction l with
  | nil =>
    cases s with
    | nil => rfl
    | cons c s => exact List.dropWhile_cons_of_neg (by simp [h c rfl])
  | cons c l ih =>
    rw [List.cons_append, List.dropWhile_cons, List.dropWhile_cons, ih]
    split <;> rfl

/-- What a scan has passed over is passed over whatever follows. -/
theorem drop_takeWhile_append (p : α → Bool) (l s : List α) :
    (l ++ s).drop (l.takeWhile p).length = l.drop (l.takeWhile p).length ++ s :=
  List.drop_append_of_le_length (List.takeWhile_prefix p).length_le

end Scans

/-! ## Front, query and fragment -/

/-- The text in front of the first of some sign, and what follows the sign if it is there. -/
def cut (sign : Char) (cs : List Char) : List Char × Option (List Char) :=
  (cs.takeWhile (· ≠ sign), match cs.dropWhile (· ≠ sign) with
    | _ :: r => some r
    | [] => none)

/-- A part behind its sign, if there is one. -/
def signed (sign : Char) (part? : Option (List Char)) : List Char := part?.elim [] (sign :: ·)

theorem stops_signed {p : Char → Bool} {sign : Char} (h : p sign = false)
    (part? : Option (List Char)) : ∀ c, (signed sign part?).head? = some c → p c = false := by
  intro c hc
  cases part? with
  | none => cases hc
  | some part =>
    obtain rfl : sign = c := Option.some.inj hc
    exact h

theorem cut_append_signed {sign : Char} {front : List Char} (h : sign ∉ front)
    (part? : Option (List Char)) : cut sign (front ++ signed sign part?) = (front, part?) := by
  have hother : ∀ c ∈ front, decide (c ≠ sign) = true := by
    intro c hc
    exact decide_eq_true fun he => h (he ▸ hc)
  have hstop : ∀ c, (signed sign part?).head? = some c → decide (c ≠ sign) = false :=
    stops_signed (by simp) part?
  rw [cut, takeWhile_append_of_stop hstop, dropWhile_append_of_stop hstop,
    List.takeWhile_eq_self_iff.2 hother, List.dropWhile_eq_nil_iff.2 hother]
  cases part? <;> rfl

theorem notMem_cut (sign : Char) (cs : List Char) : sign ∉ (cut sign cs).1 := by
  intro hmem
  have hne := List.mem_takeWhile_imp hmem
  simp at hne

theorem append_cut (sign : Char) (cs : List Char) :
    (cut sign cs).1 ++ signed sign (cut sign cs).2 = cs := by
  refine Eq.trans ?_ (List.takeWhile_append_dropWhile (p := (fun c => decide (c ≠ sign))))
  rw [cut]
  refine congrArg _ ?_
  have hhead := List.head?_dropWhile_not (fun c => decide (c ≠ sign)) cs
  cases hrest : cs.dropWhile (fun c => decide (c ≠ sign)) with
  | nil => rfl
  | cons c r =>
    rw [hrest] at hhead
    have hc : c = sign := by simpa using hhead
    rw [hc]
    rfl

/-- A text without the signs that start the query and the fragment. -/
structure Bare (cs : List Char) : Prop where
  mark : '?' ∉ cs
  number : '#' ∉ cs

theorem Bare.mono {cs front : List Char} (h : Bare front) (hsub : cs ⊆ front) : Bare cs :=
  ⟨mt (@hsub _) h.mark, mt (@hsub _) h.number⟩

namespace Tail

/-- The query and the fragment behind their signs. -/
def behind (t : Tail) : List Char := signed '?' t.query? ++ signed '#' t.fragment?

/-- The parts in a row. -/
def text (t : Tail) : List Char := t.path ++ t.behind

/-- No part holds a sign that ends it. -/
structure Apart (t : Tail) : Prop where
  path : Bare t.path
  query : ∀ q, t.query? = some q → '#' ∉ q

theorem split_eq_cut (cs : List Char) : split cs =
    ⟨(cut '?' (cut '#' cs).1).1, (cut '?' (cut '#' cs).1).2, (cut '#' cs).2⟩ := rfl

theorem text_eq (t : Tail) :
    t.text = (t.path ++ signed '?' t.query?) ++ signed '#' t.fragment? :=
  (List.append_assoc ..).symm

theorem number_iff {path : List Char} {query? : Option (List Char)} :
    '#' ∉ path ++ signed '?' query? ↔ '#' ∉ path ∧ ∀ q, query? = some q → '#' ∉ q := by
  cases query? <;> simp [signed]

theorem split_text {t : Tail} (h : t.Apart) : split t.text = t := by
  rw [split_eq_cut, text_eq, cut_append_signed (number_iff.2 ⟨h.path.number, h.query⟩),
    cut_append_signed h.path.mark]

theorem text_split (cs : List Char) : (split cs).text = cs := by
  rw [text_eq, split_eq_cut]
  dsimp only
  rw [append_cut, append_cut]

theorem apart_split (cs : List Char) : (split cs).Apart := by
  have hnumber := notMem_cut '#' cs
  rw [← append_cut '?' (cut '#' cs).1] at hnumber
  obtain ⟨hpath, hquery⟩ := number_iff.1 hnumber
  exact ⟨⟨notMem_cut '?' _, hpath⟩, hquery⟩

theorem Apart.number_mem_text {t : Tail} (h : t.Apart) : '#' ∈ t.text ↔ t.fragment?.isSome := by
  have hfront := number_iff.2 ⟨h.path.number, h.query⟩
  rw [text_eq, List.mem_append, or_iff_right hfront]
  cases t.fragment? <;> simp [signed]

theorem Apart.mark_mem_text {t : Tail} (h : t.Apart) (hfragment : t.fragment? = none) :
    '?' ∈ t.text ↔ t.query?.isSome := by
  rw [text, behind, hfragment, List.mem_append, or_iff_right h.path.mark]
  cases t.query? <;> simp [signed]

/-- The same query and fragment behind another front. -/
theorem Apart.split_append {t : Tail} (h : t.Apart) {path : List Char} (hpath : Bare path) :
    split (path ++ t.behind) = { t with path := path } :=
  split_text (t := { t with path := path }) ⟨hpath, h.query⟩

theorem split_bare {path : List Char} (hpath : Bare path) : split path = ⟨path, none, none⟩ :=
  (congrArg split (List.append_nil path).symm).trans
    (split_text (t := ⟨path, none, none⟩) ⟨hpath, nofun⟩)

theorem stops_behind {p : Char → Bool} (hmark : p '?' = false) (hnumber : p '#' = false)
    (t : Tail) : ∀ c, t.behind.head? = some c → p c = false := by
  intro c hc
  cases hquery : t.query? with
  | some q =>
    rw [behind, hquery] at hc
    obtain rfl : '?' = c := Option.some.inj hc
    exact hmark
  | none =>
    rw [behind, hquery] at hc
    exact stops_signed hnumber t.fragment? c hc

end Tail

/-! ## Cleaning -/

/-- Characters that count for nothing around an address. -/
def isBlank (c : Char) : Bool := c.toNat ≤ 0x20

/-- Characters that count for nothing anywhere in an address. -/
def isBreak (c : Char) : Bool := c = '\t' || c = '\n' || c = '\r'

/-- The blanks at the end of a text that stay if something is put behind them. -/
def leftover (cs : List Char) : List Char :=
  ((cs.dropWhile isBlank).reverse.takeWhile isBlank).reverse.filter (!isBreak ·)

theorem isBlank_of_mem_leftover {cs : List Char} {c : Char} (h : c ∈ leftover cs) :
    isBlank c = true :=
  List.mem_takeWhile_imp (List.mem_reverse.1 (List.mem_filter.1 h).1)

theorem isBreak_eq_false {c : Char} (h : isBlank c = false) : isBreak c = false := by
  cases hbreak : isBreak c with
  | false => rfl
  | true =>
    simp only [isBreak, Bool.or_eq_true, decide_eq_true_eq] at hbreak
    rcases hbreak with (rfl | rfl) | rfl <;> cases h

/-- What is put behind a text keeps the blanks at its end. -/
theorem cleaned_append {s : List Char} (hs : ∀ c ∈ s, isBlank c = false) (hne : s ≠ [])
    (cs : List Char) : cleaned (cs ++ s) = cleaned cs ++ leftover cs ++ s := by
  let core := cs.dropWhile isBlank
  have hcore : core = (core.reverse.dropWhile isBlank).reverse ++
      (core.reverse.takeWhile isBlank).reverse := by
    rw [← List.reverse_append, List.takeWhile_append_dropWhile, List.reverse_reverse]
  have hfront : (cs ++ s).dropWhile isBlank = core ++ s :=
    dropWhile_append_of_stop (fun c hc => hs c (List.mem_of_head? hc)) cs
  -- what was at the end of the text is not at the end of the whole
  have hend : (core ++ s).reverse.dropWhile isBlank = (core ++ s).reverse := by
    rw [List.reverse_append]
    cases hr : s.reverse with
    | nil => exact absurd (List.reverse_eq_nil_iff.1 hr) hne
    | cons c r =>
      have hc : c ∈ s := List.mem_reverse.1 (hr ▸ List.mem_cons_self ..)
      exact List.dropWhile_cons_of_neg (by rw [hs c hc]; exact Bool.false_ne_true)
  have hkept : s.filter (!isBreak ·) = s :=
    List.filter_eq_self.2 fun c hc => by rw [isBreak_eq_false (hs c hc)]; rfl
  calc cleaned (cs ++ s)
      = ((((cs ++ s).dropWhile isBlank).reverse.dropWhile isBlank).reverse).filter (!isBreak ·) :=
        rfl
    _ = core.filter (!isBreak ·) ++ s := by
        rw [hfront, hend, List.reverse_reverse, List.filter_append, hkept]
    _ = cleaned cs ++ leftover cs ++ s := by
        rw [hcore, List.filter_append]
        rfl

example : leftover " wss://h/a b \n".toList = [' '] := by decide +kernel

/-- Only what counts for nothing somewhere is taken away. -/
theorem mem_cleaned {cs : List Char} {c : Char} (hc : isBlank c = false) :
    c ∈ cleaned cs ↔ c ∈ cs := by
  have hdrop : ∀ l : List Char, c ∈ l.dropWhile isBlank ↔ c ∈ l := by
    intro l
    refine ⟨fun h => (List.dropWhile_suffix isBlank).subset h, fun h => ?_⟩
    rw [← List.takeWhile_append_dropWhile (p := isBlank) (l := l)] at h
    refine (List.mem_append.1 h).resolve_left fun hfront => ?_
    cases hc.symm.trans (List.mem_takeWhile_imp hfront)
  show c ∈ (((cs.dropWhile isBlank).reverse.dropWhile isBlank).reverse).filter (!isBreak ·) ↔ _
  rw [List.mem_filter, isBreak_eq_false hc, List.mem_reverse, hdrop, List.mem_reverse, hdrop]
  simp

/-- Blanks, one at least. -/
structure Blanks (s : List Char) : Prop where
  nonempty : s ≠ []
  blank : ∀ c ∈ s, isBlank c = true

theorem Blanks.notMem {s : List Char} (h : Blanks s) {c : Char} (hc : isBlank c = false) :
    c ∉ s := by
  intro hmem
  cases hc.symm.trans (h.blank c hmem)

theorem Blanks.bare {s : List Char} (h : Blanks s) {cs : List Char} (hcs : Bare cs) :
    Bare (cs ++ s) :=
  ⟨fun hmark => (List.mem_append.1 hmark).elim hcs.mark (h.notMem rfl),
    fun hnumber => (List.mem_append.1 hnumber).elim hcs.number (h.notMem rfl)⟩

end Flowline.Url
