import Flowline.Json.Tree
import Flowline.Proofs.Spelling

/-! # Compact text is put together again

The tokens of a value make up one tree, the tree of the value, in which every number and every
string has its value. A value that has been read off some tree is read off its own tree
again, as deep as it is allowed to nest. -/

namespace Flowline.Json

/-! ## The tree of a value -/

mutual
def tree : Json → Tree
  | .null => .null
  | .bool b => .bool b
  | .number n => .number (some n)
  | .string s => .string (some s)
  | .array items => .array (itemsTrees items)
  | .object ms => .object (membersTrees ms)

def itemsTrees : List Json → List Tree
  | [] => []
  | v :: r => tree v :: itemsTrees r

def membersTrees : List (String × Json) → List (Option String × Tree)
  | [] => []
  | (k, v) :: r => (some k, tree v) :: membersTrees r
end

theorem itemsTrees_eq_map (items : List Json) : itemsTrees items = items.map tree := by
  induction items with
  | nil => rfl
  | cons v r ih => rw [itemsTrees, ih, List.map_cons]

namespace Tree

theorem foldlM_of_next? {s s' : State} {t : Token} (h : s.next? t = some s') (ts : List Token) :
    (t :: ts).foldlM State.next? s = ts.foldlM State.next? s' := by
  rw [List.foldlM_cons, h]
  rfl

mutual

theorem foldlM_tokens : (v : Json) → (o : List Frame) → (fresh : Bool) → (ts : List Token) →
    (v.tokens ++ ts).foldlM State.next? (.value o fresh) =
      ts.foldlM State.next? (.complete o v.tree)
  | .null, _, _, ts => foldlM_of_next? rfl ts
  | .bool _, _, _, ts => foldlM_of_next? rfl ts
  | .number _, _, _, ts => foldlM_of_next? rfl ts
  | .string _, _, _, ts => foldlM_of_next? rfl ts
  | .array [], o, _, ts => (foldlM_of_next? rfl _).trans (foldlM_of_next? rfl ts)
  | .array (v :: r), o, fresh, ts => by
    have hopen : State.next? (.value o fresh) .openArray =
        some (.value (.items [] :: o) true) := rfl
    rw [tokens, List.cons_append, List.cons_append, foldlM_of_next? hopen, List.append_assoc,
      foldlM_tokens v, foldlM_itemsTokens r]
    rfl
  | .object [], o, _, ts => (foldlM_of_next? rfl _).trans (foldlM_of_next? rfl ts)
  | .object ((k, v) :: r), o, fresh, ts => by
    have hopen : State.next? (.value o fresh) .openObject = some (.key o [] true) := rfl
    have hkey : State.next? (.key o [] true) (.string (some k)) = some (.colon o [] (some k)) := rfl
    have hcolon : State.next? (.colon o [] (some k)) .colon =
        some (.value (.members [] (some k) :: o) false) := rfl
    rw [tokens]
    simp only [List.cons_append, List.append_assoc]
    rw [foldlM_of_next? hopen, foldlM_of_next? hkey, foldlM_of_next? hcolon, foldlM_tokens v,
      foldlM_membersTokens r]
    rfl

theorem foldlM_itemsTokens : (items : List Json) → (o : List Frame) → (done : List Tree) →
    (t : Tree) → (ts : List Token) →
    (itemsTokens items ++ ts).foldlM State.next? (.complete (.items done :: o) t) =
      ts.foldlM State.next? (.complete o (.array ((t :: done).reverse ++ itemsTrees items)))
  | [], o, done, t, ts => by
    rw [itemsTrees, List.append_nil]
    exact foldlM_of_next? rfl ts
  | v :: r, o, done, t, ts => by
    have hcomma : State.next? (.complete (.items done :: o) t) .comma =
        some (.value (.items (t :: done) :: o) false) := rfl
    rw [itemsTokens, List.cons_append, List.cons_append, foldlM_of_next? hcomma, List.append_assoc,
      foldlM_tokens v, foldlM_itemsTokens r]
    simp [itemsTrees]

theorem foldlM_membersTokens : (ms : List (String × Json)) → (o : List Frame) →
    (done : List (Option String × Tree)) → (k : Option String) → (t : Tree) → (ts : List Token) →
    (membersTokens ms ++ ts).foldlM State.next? (.complete (.members done k :: o) t) =
      ts.foldlM State.next? (.complete o (.object (((k, t) :: done).reverse ++ membersTrees ms)))
  | [], o, done, k, t, ts => by
    rw [membersTrees, List.append_nil]
    exact foldlM_of_next? rfl ts
  | (k', v) :: r, o, done, k, t, ts => by
    have hcomma : State.next? (.complete (.members done k :: o) t) .comma =
        some (.key o ((k, t) :: done) false) := rfl
    have hkey : State.next? (.key o ((k, t) :: done) false) (.string (some k')) =
        some (.colon o ((k, t) :: done) (some k')) := rfl
    have hcolon : State.next? (.colon o ((k, t) :: done) (some k')) .colon =
        some (.value (.members ((k, t) :: done) (some k') :: o) false) := rfl
    rw [membersTokens]
    simp only [List.cons_append, List.append_assoc]
    rw [foldlM_of_next? hcomma, foldlM_of_next? hkey, foldlM_of_next? hcolon, foldlM_tokens v,
      foldlM_membersTokens r]
    simp [membersTrees]

end

/-- The tree of a value is parsed from its compact text. -/
theorem parse?_compact {v : Json} (h : Exact v.numbers) : parse? v.text = some v.tree := by
  have hfold := foldlM_tokens v [] false []
  rw [List.append_nil] at hfold
  rw [parse?, scan_text h, Option.bind_some, ofTokens?, hfold]
  rfl

/-! ## Numbers of a text -/

mutual
/-- The numbers of a tree that stand for something. -/
def numbers : Tree → List Number
  | .number (some n) => [n]
  | .array items => itemsNumbers items
  | .object ms => membersNumbers ms
  | _ => []

def itemsNumbers : List Tree → List Number
  | [] => []
  | t :: r => numbers t ++ itemsNumbers r

def membersNumbers : List (Option String × Tree) → List Number
  | [] => []
  | (_, t) :: r => numbers t ++ membersNumbers r
end

@[simp] theorem numbers_array (items : List Tree) :
    (array items).numbers = items.flatMap numbers := by
  rw [numbers]
  induction items with
  | nil => rfl
  | cons t r ih => rw [itemsNumbers, ih, List.flatMap_cons]

@[simp] theorem numbers_object (ms : List (Option String × Tree)) :
    (object ms).numbers = ms.flatMap fun e => e.2.numbers := by
  rw [numbers]
  induction ms with
  | nil => rfl
  | cons e r ih => rw [membersNumbers, ih, List.flatMap_cons]

def Frame.numbers : Frame → List Number
  | items done => done.flatMap Tree.numbers
  | members done _ => done.flatMap fun e => e.2.numbers

@[simp] theorem Frame.numbers_items (done : List Tree) :
    (Frame.items done).numbers = done.flatMap Tree.numbers := rfl
@[simp] theorem Frame.numbers_members (done : List (Option String × Tree)) (key : Option String) :
    (Frame.members done key).numbers = done.flatMap fun e => e.2.numbers := rfl

namespace State

def numbers : State → List Number
  | value o _ => o.flatMap Frame.numbers
  | key o d _ => o.flatMap Frame.numbers ++ d.flatMap fun e => e.2.numbers
  | colon o d _ => o.flatMap Frame.numbers ++ d.flatMap fun e => e.2.numbers
  | complete o t => o.flatMap Frame.numbers ++ t.numbers

theorem numbers_scalar? {t : Token} {u : Tree} (h : scalar? t = some u) :
    u.numbers = t.numbers := by
  cases t with
  | number n =>
    obtain rfl := Option.some.inj h
    cases n <;> rfl
  | _ => cases h <;> rfl

/-- A token brings in no number but its own. -/
theorem numbers_next? {s s' : State} {t : Token} (h : s.next? t = some s') :
    ∀ n ∈ s'.numbers, n ∈ s.numbers ∨ n ∈ t.numbers := by
  intro n hn
  unfold next? at h
  split at h
  case h_4 =>
    obtain ⟨u, hu, rfl⟩ := Option.map_eq_some_iff.1 h
    rw [← numbers_scalar? hu]
    simpa [numbers] using hn
  all_goals cases h
  all_goals
    simp only [numbers, numbers_array, numbers_object, List.flatMap_cons, List.flatMap_nil,
      List.flatMap_reverse, Frame.numbers_items, Frame.numbers_members, List.mem_append,
      List.mem_flatMap, List.mem_reverse, List.not_mem_nil] at hn ⊢
    grind

end State

theorem numbers_foldlM {ts : List Token} {s s' : State} (h : ts.foldlM State.next? s = some s') :
    ∀ n ∈ s'.numbers, n ∈ s.numbers ∨ n ∈ ts.flatMap Token.numbers := by
  induction ts generalizing s with
  | nil =>
    obtain rfl := Option.some.inj h
    exact fun n hn => .inl hn
  | cons t ts ih =>
    obtain ⟨m, hm, h⟩ := Option.bind_eq_some_iff.1 ((List.foldlM_cons ..).symm.trans h)
    intro n hn
    rw [List.flatMap_cons, List.mem_append, ← or_assoc]
    rcases ih h n hn with hn | hn
    · exact .inl (State.numbers_next? hm n hn)
    · exact .inr hn

/-- Whatever a text is, the integers of its tree fit 64 bits. -/
theorem fits_of_parse? {text : String} {t : Tree} (h : parse? text = some t) :
    ∀ n ∈ t.numbers, n.Fits := by
  obtain ⟨ts, hts, h⟩ := Option.bind_eq_some_iff.1 h
  obtain ⟨s, hs, h⟩ := Option.bind_eq_some_iff.1 h
  unfold State.tree? at h
  split at h
  · obtain rfl := Option.some.inj h
    intro n hn
    have hmem := numbers_foldlM hs n (by simpa [State.numbers] using hn)
    exact Token.fits_of_scan hts n (by simpa [State.numbers] using hmem)
  · cases h

/-! ## Values that have been read -/

theorem members?_membersTrees {depth : Nat} {es : List (String × Json)}
    (h : ∀ e ∈ es, value? depth e.2.tree = some e.2) :
    members? depth (membersTrees es) = some es := by
  induction es with
  | nil => rfl
  | cons e es ih =>
    obtain ⟨he, hes⟩ := List.forall_mem_cons.1 h
    simp [membersTrees, members?, he, ih hes]

mutual

/-- A value that has been read is read off its own tree again, no deeper than before. -/
theorem value?_tree : {depth : Nat} → {t : Tree} → {v : Json} → value? depth t = some v →
    value? depth v.tree = some v
  | _, .null, _, h => by cases h; rfl
  | _, .bool b, _, h => by cases h; rfl
  | _, .number n, v, h => by
    obtain ⟨n, rfl, rfl⟩ := Option.map_eq_some_iff.1 h
    rfl
  | _, .string s, v, h => by
    obtain ⟨s, rfl, rfl⟩ := Option.map_eq_some_iff.1 h
    rfl
  | 0, .array items, v, h => by cases h
  | depth + 1, .array items, v, h => by
    obtain ⟨vs, hvs, rfl⟩ := Option.map_eq_some_iff.1 h
    exact Option.map_eq_some_iff.2 ⟨vs, values?_itemsTrees hvs, rfl⟩
  | 0, .object ms, v, h => by cases h
  | depth + 1, .object ms, v, h => by
    obtain ⟨es, hes, rfl⟩ := Option.map_eq_some_iff.1 h
    have hagain : members? depth (membersTrees (Entries.ofList es)) = some (Entries.ofList es) :=
      members?_membersTrees fun e he => value?_tree_of_members? hes e (Entries.mem_of_mem_ofList he)
    have hsorted := Entries.ofList_of_ascending (Entries.ascending_ofList es)
    simp [ofMembers, tree, value?, hagain, hsorted]

theorem values?_itemsTrees : {depth : Nat} → {ts : List Tree} → {vs : List Json} →
    values? depth ts = some vs → values? depth (itemsTrees vs) = some vs
  | _, [], _, h => by cases h; rfl
  | depth, t :: r, vs, h => by
    obtain ⟨v, hv, h⟩ := Option.bind_eq_some_iff.1 h
    obtain ⟨ws, hws, h⟩ := Option.bind_eq_some_iff.1 h
    cases h
    simp [itemsTrees, values?, value?_tree hv, values?_itemsTrees hws]

theorem value?_tree_of_members? : {depth : Nat} → {ms : List (Option String × Tree)} →
    {es : List (String × Json)} → members? depth ms = some es →
    ∀ e ∈ es, value? depth e.2.tree = some e.2
  | _, [], _, h => by cases h; simp
  | depth, (k, t) :: r, es, h => by
    obtain ⟨k, rfl, h⟩ := Option.bind_eq_some_iff.1 h
    obtain ⟨v, hv, h⟩ := Option.bind_eq_some_iff.1 h
    obtain ⟨fs, hfs, h⟩ := Option.bind_eq_some_iff.1 h
    cases h
    intro e he
    rcases List.mem_cons.1 he with rfl | he
    · exact value?_tree hv
    · exact value?_tree_of_members? hfs e he

end

/-! ### Their numbers -/

end Tree

@[simp] theorem numbers_array (items : List Json) :
    (array items).numbers = items.flatMap numbers := by
  rw [numbers]
  induction items with
  | nil => rfl
  | cons v r ih => rw [itemsNumbers, ih, List.flatMap_cons]

@[simp] theorem numbers_object (ms : List (String × Json)) :
    (object ms).numbers = ms.flatMap fun e => e.2.numbers := by
  rw [numbers]
  induction ms with
  | nil => rfl
  | cons e r ih => rw [membersNumbers, ih, List.flatMap_cons]

namespace Tree

mutual

theorem numbers_value? : {depth : Nat} → {t : Tree} → {v : Json} → value? depth t = some v →
    v.numbers ⊆ t.numbers
  | _, .null, _, h => by cases h; simp [Json.numbers]
  | _, .bool b, _, h => by cases h; simp [Json.numbers]
  | _, .number n, v, h => by
    obtain ⟨n, rfl, rfl⟩ := Option.map_eq_some_iff.1 h
    simp [Json.numbers, numbers]
  | _, .string s, v, h => by
    obtain ⟨s, rfl, rfl⟩ := Option.map_eq_some_iff.1 h
    simp [Json.numbers]
  | 0, .array items, v, h => by cases h
  | depth + 1, .array items, v, h => by
    obtain ⟨vs, hvs, rfl⟩ := Option.map_eq_some_iff.1 h
    simpa using numbers_values? hvs
  | 0, .object ms, v, h => by cases h
  | depth + 1, .object ms, v, h => by
    obtain ⟨es, hes, rfl⟩ := Option.map_eq_some_iff.1 h
    intro n hn
    obtain ⟨e, he, hn⟩ : ∃ e ∈ Entries.ofList es, n ∈ e.2.numbers := by
      simpa [ofMembers] using hn
    have hsub := numbers_members? hes
    rw [numbers_object]
    exact hsub (List.mem_flatMap.2 ⟨e, Entries.mem_of_mem_ofList he, hn⟩)

theorem numbers_values? : {depth : Nat} → {ts : List Tree} → {vs : List Json} →
    values? depth ts = some vs → vs.flatMap Json.numbers ⊆ ts.flatMap numbers
  | _, [], _, h => by cases h; simp
  | depth, t :: r, vs, h => by
    obtain ⟨v, hv, h⟩ := Option.bind_eq_some_iff.1 h
    obtain ⟨ws, hws, h⟩ := Option.bind_eq_some_iff.1 h
    cases h
    rw [List.flatMap_cons, List.flatMap_cons, List.append_subset]
    exact ⟨List.Subset.trans (numbers_value? hv) (List.subset_append_left _ _),
      List.Subset.trans (numbers_values? hws) (List.subset_append_right _ _)⟩

theorem numbers_members? : {depth : Nat} → {ms : List (Option String × Tree)} →
    {es : List (String × Json)} → members? depth ms = some es →
    (es.flatMap fun e => e.2.numbers) ⊆ ms.flatMap fun e => e.2.numbers
  | _, [], _, h => by cases h; simp
  | depth, (k, t) :: r, es, h => by
    obtain ⟨k, rfl, h⟩ := Option.bind_eq_some_iff.1 h
    obtain ⟨v, hv, h⟩ := Option.bind_eq_some_iff.1 h
    obtain ⟨fs, hfs, h⟩ := Option.bind_eq_some_iff.1 h
    cases h
    rw [List.flatMap_cons, List.flatMap_cons, List.append_subset]
    exact ⟨List.Subset.trans (numbers_value? hv) (List.subset_append_left _ _),
      List.Subset.trans (numbers_members? hfs) (List.subset_append_right _ _)⟩

end

end Tree

end Flowline.Json
