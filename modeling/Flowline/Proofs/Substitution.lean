import Flowline.Store

/-! # Filling in a template

What a template comes to is fixed by two equations: a placeholder anywhere in a text
is replaced by what its key stands for, whatever stands before and behind it, and a
text without placeholders comes to itself. For the first one no placeholder that
the scan finds may begin before a given placeholder and end within it or behind it. -/

namespace Flowline

namespace Template

/-- A text that can stand between the braces of a placeholder. -/
def IsKey (k : List Char) : Prop := k ≠ [] ∧ ∀ c ∈ k, c ≠ '\x7b' ∧ c ≠ '\x7d'

/-- A key between double braces. -/
def placeholder (k : List Char) : List Char := '\x7b' :: '\x7b' :: (k ++ ['\x7d', '\x7d'])

theorem isBrace_eq_false_iff {c : Char} :
    isBrace c = false ↔ c ≠ '\x7b' ∧ c ≠ '\x7d' := by
  simp [isBrace]

theorem IsKey.opening_notMem {k : List Char} (hk : IsKey k) :
    '\x7b' ∉ k ++ ['\x7d', '\x7d'] := by
  intro hm
  rcases List.mem_append.mp hm with hm | hm
  · exact (hk.2 _ hm).1 rfl
  · simp at hm

/-- The scan sees a placeholder exactly where one stands. -/
theorem hole?_eq_some_iff {cs k rest : List Char} :
    hole? cs = some (k, rest) ↔ IsKey k ∧ cs = placeholder k ++ rest := by
  constructor
  · intro h
    unfold hole? at h
    split at h
    · rename_i r
      split at h
      · rename_i c ks tail htake hdrop
        cases h
        refine ⟨⟨List.cons_ne_nil _ _, ?_⟩, ?_⟩
        · intro x hx
          rw [← htake] at hx
          have hb := List.all_eq_true.mp (List.all_takeWhile (p := (!isBrace ·))) x hx
          exact isBrace_eq_false_iff.1 (by simpa using hb)
        · have hr := List.takeWhile_append_dropWhile (p := (!isBrace ·)) (l := r)
          rw [htake, hdrop] at hr
          rw [← hr]
          simp [placeholder]
      · cases h
    · cases h
  · rintro ⟨⟨hne, hk⟩, rfl⟩
    have hall : ∀ c ∈ k, (!isBrace c) = true := fun c hc => by
      rw [isBrace_eq_false_iff.2 (hk c hc)]
      rfl
    have htake : (k ++ '\x7d' :: '\x7d' :: rest).takeWhile (!isBrace ·) = k := by
      rw [List.takeWhile_append_of_pos hall]
      simp [isBrace]
    have hdrop : (k ++ '\x7d' :: '\x7d' :: rest).dropWhile (!isBrace ·)
        = '\x7d' :: '\x7d' :: rest := by
      rw [List.dropWhile_append_of_pos hall]
      simp [isBrace]
    obtain ⟨c, ks, rfl⟩ := List.exists_cons_of_ne_nil hne
    simp only [placeholder, List.cons_append, List.append_assoc, List.nil_append, hole?] at *
    rw [htake, hdrop]
    rfl

/-- A text that does not start with a placeholder does not start with one either when
a placeholder is put behind it: its braces would be among those of the key. -/
theorem hole?_append_eq_none {p : List Char} (hp : p ≠ []) (h : hole? p = none)
    (k s : List Char) : hole? (p ++ (placeholder k ++ s)) = none := by
  cases hh : hole? (p ++ (placeholder k ++ s)) with
  | none => rfl
  | some found =>
    obtain ⟨k', rest⟩ := found
    obtain ⟨hk', heq⟩ := hole?_eq_some_iff.1 hh
    rcases List.append_eq_append_iff.1 heq with ⟨as, hp', hrest⟩ | ⟨bs, hp', -⟩
    · -- the placeholder that was found is `p` with the beginning `as` of what follows
      cases as with
      | nil =>
        rw [List.append_nil] at hp'
        rw [hole?_eq_some_iff.2 ⟨hk', by rw [hp', List.append_nil]⟩] at h
        cases h
      | cons a as =>
        obtain ⟨c, p, rfl⟩ := List.exists_cons_of_ne_nil hp
        simp only [placeholder, List.cons_append, List.cons.injEq] at hp' hrest
        obtain ⟨-, hp'⟩ := hp'
        obtain ⟨rfl, hrest⟩ := hrest
        refine absurd ?_ hk'.opening_notMem
        cases p with
        | nil =>
          -- the second opening brace is the first one of the given placeholder
          obtain ⟨-, rfl⟩ := List.cons.inj hp'
          obtain ⟨x, key, rfl⟩ := List.exists_cons_of_ne_nil hk'.1
          obtain ⟨rfl, -⟩ := List.cons.inj hrest
          exact List.mem_cons_self
        | cons d p =>
          obtain ⟨-, hp'⟩ := List.cons.inj hp'
          rw [hp']
          exact List.mem_append_right _ List.mem_cons_self
    · rw [hole?_eq_some_iff.2 ⟨hk', hp'⟩] at h
      cases h

/-! ## The parts of a text -/

theorem parse_placeholder {k : List Char} (hk : IsKey k) (rest : List Char) :
    parse (placeholder k ++ rest) = .hole k :: parse rest := by
  have h := hole?_eq_some_iff.2 ⟨hk, rfl (a := placeholder k ++ rest)⟩
  rw [parse]
  split
  · rename_i k' rest' h'
    rw [h] at h'
    cases h'
    rfl
  · rename_i h'
    rw [h] at h'
    cases h'

theorem parse_char {c : Char} {r : List Char} (h : hole? (c :: r) = none) :
    parse (c :: r) = .char c :: parse r := by
  rw [parse]
  split
  · rename_i h'
    rw [h] at h'
    cases h'
  · rfl

/-- The scan finds a placeholder wherever it stands and goes on right behind it. -/
theorem parse_append_placeholder {k : List Char} (hk : IsKey k) (p s : List Char) :
    parse (p ++ (placeholder k ++ s)) = parse p ++ .hole k :: parse s := by
  fun_induction parse p with
  | case1 p k' rest h ih =>
    obtain ⟨hk', rfl⟩ := hole?_eq_some_iff.1 h
    rw [List.append_assoc, parse_placeholder hk', ih, List.cons_append]
  | case2 => rw [List.nil_append, parse_placeholder hk, List.nil_append]
  | case3 c r h ih =>
    have hn := hole?_append_eq_none (List.cons_ne_nil c r) h k s
    rw [List.cons_append] at hn ⊢
    rw [parse_char hn, ih, List.cons_append]

theorem fill_cons (text : List Char → List Char) (a : Part) (ps : List Part) :
    fill text (a :: ps) = fill text [a] ++ fill text ps := fill_append text [a] ps

@[simp] theorem fill_hole (text : List Char → List Char) (k : List Char) :
    fill text [.hole k] = text k := by simp [fill]

@[simp] theorem fill_char (text : List Char → List Char) (c : Char) :
    fill text [.char c] = [c] := rfl

theorem fill_parse_append_placeholder (text : List Char → List Char) {k : List Char}
    (hk : IsKey k) (p s : List Char) :
    fill text (parse (p ++ (placeholder k ++ s)))
      = fill text (parse p) ++ (text k ++ fill text (parse s)) := by
  rw [parse_append_placeholder hk, fill_append, fill_cons, fill_hole]

theorem fill_parse_of_no_placeholder (text : List Char → List Char) {t : List Char}
    (h : ∀ p k s, IsKey k → t ≠ p ++ (placeholder k ++ s)) : fill text (parse t) = t := by
  fun_induction parse t with
  | case1 t k rest hh ih =>
    obtain ⟨hk, ht⟩ := hole?_eq_some_iff.1 hh
    exact absurd ht (h [] k rest hk)
  | case2 => rfl
  | case3 c r hh ih =>
    rw [fill_cons, fill_char, ih, List.singleton_append]
    intro p k s hk hr
    exact h (c :: p) k s hk (by rw [hr, List.cons_append])

end Template

namespace Store
open Template

theorem toList_resolve (st : Store) (t : String) :
    (st.resolve t).toList = fill st.shown (parse t.toList) := by
  simp [resolve]

theorem toList_around (p k s : String) :
    (p ++ "\x7b\x7b" ++ k ++ "\x7d\x7d" ++ s).toList
      = p.toList ++ (placeholder k.toList ++ s.toList) := by
  simp [placeholder]

/-- **Substitution.** A placeholder is replaced by the shown value of its key, by nothing
if the key has no value, and the texts before and behind it come to what they come to on
their own; a text without a placeholder is left as it is. -/
theorem resolve_substitutes (st : Store) :
    (∀ p k s : String, IsKey k.toList →
      st.resolve (p ++ "\x7b\x7b" ++ k ++ "\x7d\x7d" ++ s) =
        st.resolve p ++ ((st.values.get? k).elim "" Json.shown ++ st.resolve s)) ∧
    (∀ t : String, (∀ p k s : String, IsKey k.toList →
      t ≠ p ++ "\x7b\x7b" ++ k ++ "\x7d\x7d" ++ s) → st.resolve t = t) := by
  constructor
  · intro p k s hk
    apply String.toList_inj.1
    rw [toList_resolve, toList_around, fill_parse_append_placeholder _ hk,
      String.toList_append, String.toList_append, toList_resolve, toList_resolve, shown,
      String.ofList_toList]
  · intro t h
    apply String.toList_inj.1
    rw [toList_resolve]
    apply fill_parse_of_no_placeholder
    intro p k s hk ht
    refine h (String.ofList p) (String.ofList k) (String.ofList s) (by simpa using hk) ?_
    apply String.toList_inj.1
    rw [toList_around]
    simpa using ht

/-- Braces around a placeholder, and a value that looks like one. -/
theorem resolve_nested :
    IsKey "a.x".toList ∧
    (empty.set "a" "x" (.string "\x7b\x7bb.y\x7d\x7d")).resolve
        ("\x7b\x7b" ++ "\x7b\x7b" ++ "a.x" ++ "\x7d\x7d" ++ "\x7d\x7d")
      = "\x7b\x7b\x7b\x7bb.y\x7d\x7d\x7d\x7d" := by
  have hk : IsKey "a.x".toList := by simp [IsKey]
  obtain ⟨hsub, hid⟩ := resolve_substitutes (empty.set "a" "x" (.string "\x7b\x7bb.y\x7d\x7d"))
  refine ⟨hk, ?_⟩
  have short : ∀ t : String, t.length < 5 → ∀ p k s : String, IsKey k.toList →
      t ≠ p ++ "\x7b\x7b" ++ k ++ "\x7d\x7d" ++ s := by
    rintro t ht p k s ⟨hne, -⟩ rfl
    have hpos := List.length_pos_iff.2 hne
    have hopen : "\x7b\x7b".length = 2 := rfl
    have hclose : "\x7d\x7d".length = 2 := rfl
    simp only [String.length_append, String.length_toList] at ht hpos
    omega
  rw [hsub _ _ _ hk, hid _ (short _ (by decide)), hid _ (short _ (by decide))]
  rfl

end Store

end Flowline
