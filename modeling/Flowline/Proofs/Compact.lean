import Flowline.Json.Printer

/-! # Compact text stays on one line

Whatever the strings and keys of a value hold, at any depth, its compact text holds no
character below the blank: a string escapes them, and everything else is written in
digits, letters and marks. So no line ends within a compact text. -/

namespace Flowline

/-- No character is below the blank, the ends of lines among them. -/
def Unbroken (cs : List Char) : Prop := ∀ c ∈ cs, 0x20 ≤ c.toNat

instance (cs : List Char) : Decidable (Unbroken cs) :=
  decidable_of_iff (cs.all fun c => 0x20 ≤ c.toNat) (by simp [Unbroken])

namespace Unbroken

@[simp] theorem nil : Unbroken [] := by decide

@[simp] theorem cons_iff {c : Char} {cs : List Char} :
    Unbroken (c :: cs) ↔ 0x20 ≤ c.toNat ∧ Unbroken cs := List.forall_mem_cons

@[simp] theorem append_iff {cs ds : List Char} :
    Unbroken (cs ++ ds) ↔ Unbroken cs ∧ Unbroken ds := List.forall_mem_append

theorem of_subset {cs ds : List Char} (h : Unbroken ds) (hs : cs ⊆ ds) : Unbroken cs :=
  fun c hc => h c (hs hc)

theorem lineEnds_notMem {cs : List Char} (h : Unbroken cs) : '\n' ∉ cs ∧ '\r' ∉ cs := by
  refine ⟨fun hm => ?_, fun hm => ?_⟩
  · exact absurd (h _ hm) (by decide)
  · exact absurd (h _ hm) (by decide)

end Unbroken

/-! ## Numbers -/

namespace Decimal

theorem unbroken_toDigits (n : Nat) : Unbroken (Nat.toDigits 10 n) := by
  intro c hc
  have hd := Nat.isDigit_of_mem_toDigits (by decide) (by decide) hc
  simp only [Char.isDigit, ge_iff_le, Bool.and_eq_true, decide_eq_true_eq,
    UInt32.le_iff_toNat_le] at hd
  have hlow : '0'.toNat ≤ c.toNat := hd.1
  exact Nat.le_trans (by decide) hlow

theorem unbroken_zeros (n : Nat) : Unbroken (zeros n) := by
  intro c hc
  rw [List.eq_of_mem_replicate hc]
  decide

theorem unbroken_signed (n : Int) : Unbroken (signed n) := by
  unfold signed
  rw [Unbroken.cons_iff]
  refine ⟨?_, unbroken_toDigits _⟩
  split <;> decide

theorem unbroken_layout {ds : List Char} (h : Unbroken ds) (e : Int) : Unbroken (layout ds e) := by
  unfold layout
  split
  · split
    · simp [unbroken_zeros, h]
    · dsimp only
      split
      · simp [unbroken_zeros, h]
      · simp [h.of_subset (List.take_subset _ _), h.of_subset (List.drop_subset _ _)]
  · split
    · simpa [unbroken_signed] using h
    · simpa [unbroken_signed] using h
    · exact h

theorem unbroken_written (m : Nat) (q : Int) : Unbroken (written m q) := by
  unfold written
  split
  · decide
  · exact unbroken_layout (unbroken_toDigits _) _

end Decimal

theorem Double.unbroken_chars (x : Double) : Unbroken x.chars := by
  cases x with
  | finite s m q =>
    rw [chars, Unbroken.append_iff]
    refine ⟨?_, Decimal.unbroken_written m q⟩
    split <;> decide
  | infinite s => cases s <;> decide
  | nan => decide

namespace Json

theorem unbroken_numberChars (n : Number) : Unbroken (numberChars n) := by
  unfold numberChars
  split
  · split
    · simp [Decimal.unbroken_toDigits]
    · exact Decimal.unbroken_toDigits _
  · exact Double.unbroken_chars _
  · decide

/-! ## Strings -/

theorem le_hexDigit {n : Nat} (h : n < 16) : 0x20 ≤ (hexDigit n).toNat := by
  have all : ∀ m ∈ List.range 16, 0x20 ≤ (hexDigit m).toNat := by decide
  exact all n (List.mem_range.2 h)

theorem unbroken_escaped (c : Char) : Unbroken (escaped c) := by
  unfold escaped
  split
  · rename_i l hl
    unfold escapeLetter? at hl
    split at hl <;> cases hl <;> decide
  · split
    · rename_i hc
      have hhigh : c.toNat / 16 < 16 := by omega
      have hlow : c.toNat % 16 < 16 := Nat.mod_lt _ (by decide)
      simp [le_hexDigit hhigh, le_hexDigit hlow]
    · rename_i hc
      intro d hd
      rw [List.mem_singleton.mp hd]
      exact Nat.le_of_not_lt hc

theorem unbroken_quoted (s : String) : Unbroken (quoted s) := by
  have hbody : Unbroken (s.toList.flatMap escaped) := by
    intro d hd
    obtain ⟨c, -, hd⟩ := List.mem_flatMap.mp hd
    exact unbroken_escaped c d hd
  rw [quoted, Unbroken.append_iff, Unbroken.cons_iff]
  exact ⟨⟨by decide, hbody⟩, by decide⟩

/-! ## Values -/

mutual

theorem unbroken_chars : (v : Json) → Unbroken v.chars
  | .null => by decide
  | .bool b => by cases b <;> decide
  | .number n => unbroken_numberChars n
  | .string s => unbroken_quoted s
  | .array [] => by decide
  | .array (v :: r) => by simp [chars, unbroken_chars v, unbroken_itemsChars r]
  | .object [] => by decide
  | .object ((k, v) :: r) => by
    simp [chars, unbroken_quoted k, unbroken_chars v, unbroken_membersChars r]

theorem unbroken_itemsChars : (items : List Json) → Unbroken (itemsChars items)
  | [] => by decide
  | v :: r => by simp [itemsChars, unbroken_chars v, unbroken_itemsChars r]

theorem unbroken_membersChars : (ms : List (String × Json)) → Unbroken (membersChars ms)
  | [] => by decide
  | (k, v) :: r => by
    simp [membersChars, unbroken_quoted k, unbroken_chars v, unbroken_membersChars r]

end

theorem unbroken_text (v : Json) : Unbroken v.text.toList := by
  rw [text, String.toList_ofList]
  exact unbroken_chars v

end Json

end Flowline
