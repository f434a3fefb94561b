/-! Tables with text keys, kept in ascending order of code points with one entry for each key. Two
tables with the same bindings are equal, and what is listed from one is sorted. The operations work
on plain entry lists, which a recursive type can hold too; `Table` carries the order as a proof. -/

namespace Flowline

/-! ## Entry lists -/

namespace Entries

variable {α : Type}

/-- Binds `k` to `v`, in place of an earlier binding of `k`. -/
def insert (k : String) (v : α) : List (String × α) → List (String × α)
  | [] => [(k, v)]
  | (k', v') :: r =>
    if k < k' then (k, v) :: (k', v') :: r
    else if k = k' then (k, v) :: r
    else (k', v') :: insert k v r

def find? (k : String) : List (String × α) → Option α
  | [] => none
  | (k', v) :: r => if k = k' then some v else find? k r

/-- Entries in any order; of two with one key the later one stays. -/
def ofList (l : List (String × α)) : List (String × α) :=
  l.foldl (fun t e => insert e.1 e.2 t) []

/-- Every key is below all keys after it, so none occurs twice. -/
def Ascending (l : List (String × α)) : Prop := l.Pairwise fun a b => a.1 < b.1

theorem key_mem_insert {k : String} {v : α} {l : List (String × α)} {e : String × α}
    (h : e ∈ insert k v l) : e = (k, v) ∨ e ∈ l := by
  induction l with
  | nil => simpa [insert] using h
  | cons a r ih =>
    obtain ⟨k', v'⟩ := a
    simp only [insert] at h
    split at h
    · simpa using h
    · split at h
      · rcases List.mem_cons.1 h with h | h
        · exact .inl h
        · exact .inr (List.mem_cons_of_mem _ h)
      · rcases List.mem_cons.1 h with h | h
        · exact .inr (h ▸ List.mem_cons_self)
        · exact (ih h).imp id (List.mem_cons_of_mem _)

theorem ascending_insert {k : String} {v : α} {l : List (String × α)} (h : Ascending l) :
    Ascending (insert k v l) := by
  induction l with
  | nil => simp [insert, Ascending]
  | cons a r ih =>
    obtain ⟨k', v'⟩ := a
    obtain ⟨hl, hr⟩ := List.pairwise_cons.1 h
    simp only [insert]
    split
    · rename_i hk
      refine List.pairwise_cons.2 ⟨fun b hb => ?_, h⟩
      rcases List.mem_cons.1 hb with rfl | hb
      · exact hk
      · exact String.lt_trans hk (hl b hb)
    · split
      · rename_i hk; subst hk
        exact List.pairwise_cons.2 ⟨hl, hr⟩
      · rename_i h₁ h₂
        refine List.pairwise_cons.2 ⟨fun b hb => ?_, ih hr⟩
        rcases key_mem_insert hb with rfl | hb
        · exact Std.lt_of_le_of_ne (String.not_lt.mp h₁) (Ne.symm h₂)
        · exact hl b hb

theorem ascending_foldl_insert (l t : List (String × α)) (h : Ascending t) :
    Ascending (l.foldl (fun t e => insert e.1 e.2 t) t) := by
  induction l generalizing t with
  | nil => exact h
  | cons e r ih => exact ih _ (ascending_insert h)

theorem ascending_ofList (l : List (String × α)) : Ascending (ofList l) :=
  ascending_foldl_insert l [] List.Pairwise.nil

theorem mem_of_mem_ofList {l : List (String × α)} {e : String × α} (h : e ∈ ofList l) : e ∈ l := by
  have hfold : ∀ (l t : List (String × α)), e ∈ l.foldl (fun t e => insert e.1 e.2 t) t →
      e ∈ l ∨ e ∈ t := by
    intro l
    induction l with
    | nil => exact fun t ht => .inr ht
    | cons a l ih =>
      intro t ht
      rcases ih _ ht with hl | ha
      · exact .inl (List.mem_cons_of_mem _ hl)
      · rcases key_mem_insert ha with rfl | ht
        · exact .inl List.mem_cons_self
        · exact .inr ht
  simpa using hfold l [] h

theorem insert_of_last {k : String} {v : α} {l : List (String × α)} (h : ∀ e ∈ l, e.1 < k) :
    insert k v l = l ++ [(k, v)] := by
  induction l with
  | nil => rfl
  | cons a l ih =>
    have ha : a.1 < k := h a List.mem_cons_self
    have hlt : ¬k < a.1 := fun hk => String.lt_irrefl _ (String.lt_trans ha hk)
    have hne : k ≠ a.1 := fun hk => String.lt_irrefl _ (hk ▸ ha)
    rw [insert, if_neg hlt, if_neg hne, ih fun e he => h e (List.mem_cons_of_mem _ he)]
    rfl

theorem ofList_of_ascending {l : List (String × α)} (h : Ascending l) : ofList l = l := by
  have hfold : ∀ (l t : List (String × α)), Ascending (t ++ l) →
      l.foldl (fun t e => insert e.1 e.2 t) t = t ++ l := by
    intro l
    induction l with
    | nil => simp
    | cons a l ih =>
      intro t ht
      have hlast : ∀ e ∈ t, e.1 < a.1 := fun e he =>
        (List.pairwise_append.1 ht).2.2 e he a List.mem_cons_self
      rw [List.foldl_cons, insert_of_last hlast, ih _ (by simpa using ht), List.append_assoc]
      rfl
  exact hfold l [] h

theorem find?_insert (k j : String) (v : α) (l : List (String × α)) :
    find? j (insert k v l) = if j = k then some v else find? j l := by
  induction l with
  | nil => simp [insert, find?]
  | cons a r ih =>
    obtain ⟨k', v'⟩ := a
    simp only [insert]
    split
    · simp [find?]
    · split
      · rename_i hk; subst hk
        by_cases hj : j = k <;> simp [find?, hj]
      · rename_i _ hk
        simp only [find?, ih]
        by_cases hj : j = k'
        · have : j ≠ k := fun h => hk (h ▸ hj)
          simp [hj, Ne.symm hk]
        · simp [hj]

theorem find?_eq_none_of_lt {j : String} {l : List (String × α)} (h : ∀ e ∈ l, j < e.1) :
    find? j l = none := by
  induction l with
  | nil => rfl
  | cons a r ih =>
    have ha := h a List.mem_cons_self
    have hn : j ≠ a.1 := fun e => String.lt_irrefl _ (e ▸ ha)
    simp [find?, hn, ih fun e he => h e (List.mem_cons_of_mem _ he)]

theorem find?_eq_some_iff {k : String} {v : α} {l : List (String × α)} (h : Ascending l) :
    find? k l = some v ↔ (k, v) ∈ l := by
  induction l with
  | nil => simp [find?]
  | cons a r ih =>
    obtain ⟨k', v'⟩ := a
    obtain ⟨ha, hr⟩ := List.pairwise_cons.1 h
    by_cases hk : k = k'
    · subst hk
      -- no later entry has the key of the first one
      have hn : (k, v) ∉ r := fun hm => String.lt_irrefl k (ha (k, v) hm)
      simp [find?, hn, eq_comm]
    · simp [find?, hk, ih hr]

/-- Ascending entries are determined by what they bind. -/
theorem eq_of_find?_eq {l m : List (String × α)} (hl : Ascending l) (hm : Ascending m)
    (h : ∀ k, find? k l = find? k m) : l = m := by
  induction l generalizing m with
  | nil =>
    cases m with
    | nil => rfl
    | cons b s => simpa [find?] using h b.1
  | cons a r ih =>
    cases m with
    | nil => simpa [find?] using h a.1
    | cons b s =>
      obtain ⟨ha, hr⟩ := List.pairwise_cons.1 hl
      obtain ⟨hb, hs⟩ := List.pairwise_cons.1 hm
      have hab : a.1 = b.1 := by
        rcases Classical.em (a.1 = b.1) with e | hne
        · exact e
        · rcases Classical.em (a.1 < b.1) with hlt | hge
          · have := h a.1
            rw [find?_eq_none_of_lt (l := b :: s) fun e he => ?_] at this
            · simp [find?] at this
            · rcases List.mem_cons.1 he with rfl | he
              · exact hlt
              · exact String.lt_trans hlt (hb e he)
          · have hgt : b.1 < a.1 := Std.lt_of_le_of_ne (String.not_lt.mp hge) (Ne.symm hne)
            have := h b.1
            rw [find?_eq_none_of_lt (l := a :: r) fun e he => ?_] at this
            · simp [find?] at this
            · rcases List.mem_cons.1 he with rfl | he
              · exact hgt
              · exact String.lt_trans hgt (ha e he)
      have hv : a = b := by
        have := h a.1
        simp only [find?, hab, if_true, Option.some.injEq] at this
        exact Prod.ext hab this
      subst hv
      refine congrArg _ (ih hr hs fun k => ?_)
      have := h k
      by_cases hk : k = a.1
      · rw [hk, find?_eq_none_of_lt ha, find?_eq_none_of_lt hb]
      · simpa [find?, hk] using this

end Entries

/-! ## Tables -/

structure Table (α : Type) where
  entries : List (String × α)
  ascending : Entries.Ascending entries

namespace Table

variable {α : Type}

def empty : Table α := ⟨[], List.Pairwise.nil⟩

instance : EmptyCollection (Table α) := ⟨empty⟩
instance : Inhabited (Table α) := ⟨empty⟩

def insert (t : Table α) (k : String) (v : α) : Table α :=
  ⟨Entries.insert k v t.entries, Entries.ascending_insert t.ascending⟩

def get? (t : Table α) (k : String) : Option α := Entries.find? k t.entries

def size (t : Table α) : Nat := t.entries.length

def insertAll (t : Table α) (l : List (String × α)) : Table α :=
  l.foldl (fun t e => t.insert e.1 e.2) t

/-- A table from entries in any order; of two with one key the later one stays. -/
def ofList (l : List (String × α)) : Table α := empty.insertAll l

theorem insertAll_append (t : Table α) (l m : List (String × α)) :
    t.insertAll (l ++ m) = (t.insertAll l).insertAll m := List.foldl_append

theorem ext_entries {s t : Table α} (h : s.entries = t.entries) : s = t := by
  cases s
  cases t
  cases h
  rfl

theorem entries_ofList (l : List (String × α)) : (ofList l).entries = Entries.ofList l := by
  have hfold : ∀ (l : List (String × α)) (t : Table α),
      (t.insertAll l).entries = l.foldl (fun t e => Entries.insert e.1 e.2 t) t.entries := by
    intro l
    induction l with
    | nil => exact fun _ => rfl
    | cons e l ih => exact fun t => ih (t.insert e.1 e.2)
  exact hfold l empty

theorem ofList_entries (t : Table α) : ofList t.entries = t := by
  have h : (ofList t.entries).entries = t.entries := by
    rw [entries_ofList, Entries.ofList_of_ascending t.ascending]
  exact ext_entries h

@[simp] theorem get?_empty (k : String) : (∅ : Table α).get? k = none := rfl

@[simp] theorem get?_insert (t : Table α) (k j : String) (v : α) :
    (t.insert k v).get? j = if j = k then some v else t.get? j :=
  Entries.find?_insert k j v t.entries

theorem get?_eq_some_iff {t : Table α} {k : String} {v : α} :
    t.get? k = some v ↔ (k, v) ∈ t.entries := Entries.find?_eq_some_iff t.ascending

/-- What is bound later counts. -/
theorem get?_insertAll (t : Table α) (l : List (String × α)) (k : String) :
    (t.insertAll l).get? k = ((l.reverse.find? (·.1 = k)).map Prod.snd).or (t.get? k) := by
  induction l generalizing t with
  | nil => rfl
  | cons e l ih =>
    rw [insertAll, List.foldl_cons, ← insertAll, ih, List.reverse_cons, List.find?_append,
      get?_insert]
    by_cases hk : e.1 = k
    · cases l.reverse.find? (·.1 = k) <;> simp [hk]
    · cases l.reverse.find? (·.1 = k) <;> simp [hk, Ne.symm hk]

theorem ext_get? {s t : Table α} (h : ∀ k, s.get? k = t.get? k) : s = t := by
  exact ext_entries (Entries.eq_of_find?_eq s.ascending t.ascending h)

end Table

end Flowline
