import Flowline.Proofs.Substitution

/-! # Placeholders and bindings

A reference can be written into a template, as its placeholder, or be bound to an input.
In every store the two come to the same text exactly if neither part of the reference
holds a brace. The scan reads no key with a brace off any template, so a value that is
kept under such a key does not show there, while the binding still finds it. -/

namespace Flowline

namespace Template

/-- What the scan takes for a key can stand between braces. -/
theorem isKey_of_mem_parse {cs k : List Char} (h : .hole k ∈ parse cs) : IsKey k := by
  fun_induction parse cs with
  | case1 cs k' rest hh ih =>
    rcases List.mem_cons.mp h with hk | h
    · cases hk
      exact (hole?_eq_some_iff.1 hh).1
    · exact ih h
  | case2 => cases h
  | case3 c r hh ih =>
    rcases List.mem_cons.mp h with hk | h
    · cases hk
    · exact ih h

theorem fill_congr {text text' : List Char → List Char} {ps : List Part}
    (h : ∀ k, .hole k ∈ ps → text k = text' k) : fill text ps = fill text' ps := by
  induction ps with
  | nil => rfl
  | cons a ps ih =>
    have htail : fill text ps = fill text' ps := ih fun k hk => h k (List.mem_cons_of_mem a hk)
    rw [fill_cons, fill_cons text', htail]
    cases a with
    | char c => rfl
    | hole k => rw [fill_hole, fill_hole, h k List.mem_cons_self]

end Template

namespace Store
open Template

/-- A value whose key cannot stand between braces shows in no template. -/
theorem resolve_set_of_not_isKey {node name : String} (h : ¬ IsKey (key node name).toList)
    (st : Store) (v : Json) (t : String) : (st.set node name v).resolve t = st.resolve t := by
  apply String.toList_inj.1
  rw [toList_resolve, toList_resolve]
  apply fill_congr
  intro k hk
  have hne : String.ofList k ≠ key node name := by
    intro he
    rw [← he, String.toList_ofList] at h
    exact h (isKey_of_mem_parse hk)
  rw [shown, shown, set, Table.get?_insert, if_neg hne]

theorem value_set_self (st : Store) (r : Reference) (v : Json) :
    (st.set r.node r.name v).value (.reference r) = v := by
  rw [value, get?_set, if_pos rfl, Option.getD_some]

end Store

namespace Reference
open Template Store

/-- The key of a reference always holds the point, so only a brace can keep it from standing
between braces. -/
theorem isKey_key_iff {r : Reference} : IsKey (key r.node r.name).toList ↔
    ∀ c ∈ r.node.toList ++ r.name.toList, c ≠ '\x7b' ∧ c ≠ '\x7d' := by
  have hkey : (key r.node r.name).toList = r.node.toList ++ '.' :: r.name.toList := by
    simp [key]
  rw [hkey]
  constructor
  · rintro ⟨-, hall⟩ c hc
    refine hall c ?_
    rcases List.mem_append.mp hc with hc | hc
    · exact List.mem_append_left _ hc
    · exact List.mem_append_right _ (List.mem_cons_of_mem _ hc)
  · intro hall
    refine ⟨by simp, ?_⟩
    intro c hc
    rcases List.mem_append.mp hc with hc | hc
    · exact hall c (List.mem_append_left _ hc)
    · rcases List.mem_cons.mp hc with rfl | hc
      · decide
      · exact hall c (List.mem_append_right _ hc)

theorem toList_placeholder (r : Reference) :
    r.placeholder.toList = Template.placeholder (key r.node r.name).toList := by
  simp [Reference.placeholder, Template.placeholder, key]

/-- The placeholder of a key that can stand between braces comes to what the binding does. -/
theorem resolve_placeholder {r : Reference} (h : IsKey (key r.node r.name).toList) (st : Store) :
    st.resolve r.placeholder = (st.value (.reference r)).shown := by
  apply String.toList_inj.1
  have hfill := fill_parse_append_placeholder st.shown h [] []
  rw [List.nil_append, List.append_nil] at hfill
  rw [toList_resolve, toList_placeholder, hfill, parse, Store.shown, String.ofList_toList]
  cases hv : st.values.get? (key r.node r.name) with
  | none => simp [value, get?, hv, hole?]
  | some v => simp [value, get?, hv, hole?]

/-- Where the key cannot stand between braces, some value that is written for the reference is
told by the binding alone. -/
theorem exists_resolve_placeholder_ne {r : Reference} (h : ¬ IsKey (key r.node r.name).toList)
    (st : Store) : ∃ v, (st.set r.node r.name v).resolve r.placeholder ≠
      ((st.set r.node r.name v).value (.reference r)).shown := by
  by_cases hempty : st.resolve r.placeholder = ""
  · refine ⟨.string "x", ?_⟩
    rw [resolve_set_of_not_isKey h, value_set_self, hempty]
    decide
  · refine ⟨.null, ?_⟩
    rw [resolve_set_of_not_isKey h, value_set_self]
    exact hempty

/-- **Placeholders.** In every store the placeholder of a reference comes to the text of the value
that is bound by the reference, if neither of its parts holds a brace, and only then: otherwise
they differ in any store once some value has been written for the reference. -/
theorem placeholder_eq_value_iff (r : Reference) :
    ((∀ st : Store, st.resolve r.placeholder = (st.value (.reference r)).shown) ↔
      ∀ c ∈ r.node.toList ++ r.name.toList, c ≠ '\x7b' ∧ c ≠ '\x7d') ∧
    ((¬ ∀ c ∈ r.node.toList ++ r.name.toList, c ≠ '\x7b' ∧ c ≠ '\x7d') → ∀ st : Store, ∃ v,
      (st.set r.node r.name v).resolve r.placeholder ≠
        ((st.set r.node r.name v).value (.reference r)).shown) := by
  rw [← isKey_key_iff]
  refine ⟨⟨?_, resolve_placeholder⟩, exists_resolve_placeholder_ne⟩
  intro hall
  by_cases hk : IsKey (key r.node r.name).toList
  · exact hk
  · obtain ⟨v, hne⟩ := exists_resolve_placeholder_ne hk .empty
    exact absurd (hall _) hne

/-- A brace at the end of a name. -/
theorem placeholder_braced :
    (¬ ∀ c ∈ "a".toList ++ "x\x7d".toList, c ≠ '\x7b' ∧ c ≠ '\x7d') ∧
    (∃ v, (empty.set "a" "x\x7d" v).resolve "\x7b\x7ba.x\x7d\x7d\x7d" ≠
      ((empty.set "a" "x\x7d" v).value (.reference ⟨"a", "x\x7d"⟩)).shown) ∧
    empty.resolve "\x7b\x7ba.x\x7d\x7d" = "" := by
  have hbrace : ¬ ∀ c ∈ "a".toList ++ "x\x7d".toList, c ≠ '\x7b' ∧ c ≠ '\x7d' := by simp
  have hplain : ∀ c ∈ "a".toList ++ "x".toList, c ≠ '\x7b' ∧ c ≠ '\x7d' := by simp
  refine ⟨hbrace, (placeholder_eq_value_iff ⟨"a", "x\x7d"⟩).2 hbrace empty, ?_⟩
  exact (placeholder_eq_value_iff ⟨"a", "x"⟩).1.2 hplain empty

end Reference

end Flowline
