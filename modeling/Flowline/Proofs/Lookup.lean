import Flowline.Table

/-! # Looking up entries

What is found under a key. Entries with different keys may stand in any order for that: putting
them in order neither loses nor moves anything. A table that is laid over another one hides the
entries that it has itself. -/

namespace Flowline

namespace Entries

variable {α β : Type}

/-! ## Ascending entries -/

theorem find?_map (f : α → β) (l : List (String × α)) (k : String) :
    find? k (l.map fun e => (e.1, f e.2)) = (find? k l).map f := by
  induction l with
  | nil => rfl
  | cons e l ih =>
    rw [List.map_cons, find?, find?]
    split
    · rfl
    · exact ih

theorem ascending_map (f : α → β) {l : List (String × α)} (h : Ascending l) :
    Ascending (l.map fun e => (e.1, f e.2)) := List.pairwise_map.2 h

/-! ## Entries whose keys differ -/

theorem perm_insert {k : String} (v : α) {l : List (String × α)} (h : k ∉ l.map Prod.fst) :
    (insert k v l).Perm ((k, v) :: l) := by
  induction l with
  | nil => exact .refl _
  | cons e r ih =>
    obtain ⟨hne, hr⟩ := not_or.1 (mt List.mem_cons.2 h)
    rw [insert]
    split
    · exact .refl _
    · exact ((ih hr).cons e).trans (.swap ..)

/-- Entries with different keys are put in order and none is lost. -/
theorem perm_ofList {l : List (String × α)} (h : (l.map Prod.fst).Nodup) :
    (ofList l).Perm l := by
  have hfold : ∀ (l t : List (String × α)), ((t ++ l).map Prod.fst).Nodup →
      (l.foldl (fun t e => insert e.1 e.2 t) t).Perm (t ++ l) := by
    intro l
    induction l with
    | nil => simp
    | cons e l ih =>
      intro t ht
      have hmiddle : ((e :: (t ++ l)).map Prod.fst).Nodup :=
        (List.perm_middle.map Prod.fst).nodup_iff.1 ht
      have hnew : e.1 ∉ t.map Prod.fst := fun he =>
        (List.nodup_cons.1 hmiddle).1 (by simpa using .inl (by simpa using he))
      have hins := (perm_insert e.2 hnew).append_right l
      refine (ih _ ((hins.map Prod.fst).nodup_iff.2 hmiddle)).trans ?_
      exact hins.trans List.perm_middle.symm
  exact hfold l [] h

theorem lookup_eq_some_iff_mem {l : List (String × α)} (h : (l.map Prod.fst).Nodup) {k : String}
    {v : α} : l.lookup k = some v ↔ (k, v) ∈ l := by
  induction l with
  | nil => simp
  | cons e l ih =>
    obtain ⟨j, w⟩ := e
    obtain ⟨he, hl⟩ := List.nodup_cons.1 h
    rw [List.lookup_cons, List.mem_cons]
    by_cases hk : k = j
    · subst hk
      have hnot : (k, v) ∉ l := fun hm => he (List.mem_map.2 ⟨_, hm, rfl⟩)
      simp [hnot, eq_comm]
    · simp [beq_false_of_ne hk, ih hl, hk]

theorem lookup_ofList {l : List (String × α)} (h : (l.map Prod.fst).Nodup) (k : String) :
    (ofList l).lookup k = l.lookup k := by
  have hperm := perm_ofList h
  have hsorted := (hperm.map Prod.fst).nodup_iff.2 h
  refine Option.ext fun v => ?_
  rw [lookup_eq_some_iff_mem hsorted, lookup_eq_some_iff_mem h]
  exact hperm.mem_iff

theorem lookup_map (f : α → β) (l : List (String × α)) (k : String) :
    (l.map fun e => (e.1, f e.2)).lookup k = (l.lookup k).map f := by
  induction l with
  | nil => rfl
  | cons e l ih =>
    rw [List.map_cons, List.lookup_cons, List.lookup_cons]
    cases k == e.1 <;> simp [ih]

theorem lookup_filter_contains (names : List String) (l : List (String × α)) (k : String) :
    (l.filter (names.contains ·.1)).lookup k = if k ∈ names then l.lookup k else none := by
  induction l with
  | nil => simp
  | cons e l ih =>
    obtain ⟨j, v⟩ := e
    rw [List.filter_cons]
    by_cases hk : k = j
    · subst hk
      by_cases hn : k ∈ names
      · simp [hn]
      · simpa [hn] using ih
    · have hskip : ((j, v) :: l).lookup k = l.lookup k := by
        rw [List.lookup_cons, beq_false_of_ne hk]
      rw [hskip]
      split
      · rw [List.lookup_cons, beq_false_of_ne hk]
        exact ih
      · exact ih

end Entries

/-! ## Tables -/

namespace Table

variable {α : Type}

theorem get?_eq_find?_reverse (t : Table α) (k : String) :
    t.get? k = (t.entries.reverse.find? (·.1 = k)).map Prod.snd := by
  have h : (ofList t.entries).get? k = _ := get?_insertAll empty t.entries k
  rw [ofList_entries] at h
  exact h.trans Option.or_none

theorem get?_insertAll_entries (t u : Table α) (k : String) :
    (t.insertAll u.entries).get? k = (u.get? k).or (t.get? k) := by
  rw [get?_insertAll, u.get?_eq_find?_reverse]

end Table

end Flowline
