import Flowline.Graph.Basic
import Flowline.Proofs.RoundTrip
import Mathlib.Data.List.Forall2
import Mathlib.Data.List.Nodup

/-! # A document is read off its value

Where no object has a key twice, what a text reads as is told by its value: white space, escapes,
the order of members and the place of members that nothing reads make no difference. Every reader
finds in a tree what it finds in the tree of the value. A record's fields are looked up by name, so
their order is lost; the one place where it counts is a content in front of its tag, and that has to
be a value in itself, which it is. -/

namespace Flowline

namespace Json

/-! ## Trees and their values -/

namespace Tree

mutual
/-- Whether no object in the tree has a key twice. -/
def keyedOnce : Tree → Bool
  | .array items => itemsKeyedOnce items
  | .object ms => decide (ms.map Prod.fst).Nodup && membersKeyedOnce ms
  | _ => true

def itemsKeyedOnce : List Tree → Bool
  | [] => true
  | t :: r => keyedOnce t && itemsKeyedOnce r

def membersKeyedOnce : List (Option String × Tree) → Bool
  | [] => true
  | (_, t) :: r => keyedOnce t && membersKeyedOnce r
end

/-- The tree has the value, in which containers nest at most `depth` deep, and no key twice. -/
structure Means (depth : Nat) (t : Tree) (v : Json) : Prop where
  value : t.value? depth = some v
  once : t.keyedOnce = true

/-- A member with a key of its own. -/
def MemberMeans (depth : Nat) (m : Option String × Tree) (e : String × Json) : Prop :=
  m.1 = some e.1 ∧ m.2.Means depth e.2

/-- The outermost layer of a tree beside that of its value. -/
inductive Layer : Nat → Tree → Json → Prop
  | null {depth : Nat} : Layer depth .null .null
  | bool {depth : Nat} (b : Bool) : Layer depth (.bool b) (.bool b)
  | number {depth : Nat} (n : Number) : Layer depth (.number (some n)) (.number n)
  | string {depth : Nat} (s : String) : Layer depth (.string (some s)) (.string s)
  | array {depth : Nat} {items : List Tree} {vs : List Json}
      (each : List.Forall₂ (Means depth) items vs) : Layer (depth + 1) (.array items) (.array vs)
  | object {depth : Nat} {ms : List (Option String × Tree)} {es : List (String × Json)}
      (distinct : (es.map Prod.fst).Nodup) (each : List.Forall₂ (MemberMeans depth) ms es) :
      Layer (depth + 1) (.object ms) (ofMembers es)

theorem forall₂_of_values? {depth : Nat} {items : List Tree} {vs : List Json}
    (h : values? depth items = some vs) (ho : itemsKeyedOnce items = true) :
    List.Forall₂ (Means depth) items vs := by
  induction items generalizing vs with
  | nil =>
    obtain rfl := Option.some.inj h
    exact .nil
  | cons t r ih =>
    obtain ⟨v, hv, h⟩ := Option.bind_eq_some_iff.1 h
    obtain ⟨ws, hws, h⟩ := Option.bind_eq_some_iff.1 h
    cases h
    obtain ⟨ht, hr⟩ := Bool.and_eq_true_iff.1 ho
    exact .cons ⟨hv, ht⟩ (ih hws hr)

theorem forall₂_of_members? {depth : Nat} {ms : List (Option String × Tree)}
    {es : List (String × Json)} (h : members? depth ms = some es)
    (ho : membersKeyedOnce ms = true) : List.Forall₂ (MemberMeans depth) ms es := by
  induction ms generalizing es with
  | nil =>
    obtain rfl := Option.some.inj h
    exact .nil
  | cons m r ih =>
    obtain ⟨k, t⟩ := m
    obtain ⟨k, rfl, h⟩ := Option.bind_eq_some_iff.1 h
    obtain ⟨v, hv, h⟩ := Option.bind_eq_some_iff.1 h
    obtain ⟨fs, hfs, h⟩ := Option.bind_eq_some_iff.1 h
    cases h
    obtain ⟨ht, hr⟩ := Bool.and_eq_true_iff.1 ho
    exact .cons ⟨rfl, hv, ht⟩ (ih hfs hr)

theorem map_fst_of_forall₂ {depth : Nat} {ms : List (Option String × Tree)}
    {es : List (String × Json)} (h : List.Forall₂ (MemberMeans depth) ms es) :
    ms.map Prod.fst = (es.map Prod.fst).map some := by
  induction h with
  | nil => rfl
  | cons he _ ih => rw [List.map_cons, List.map_cons, List.map_cons, ih, he.1]

theorem Means.layer {depth : Nat} {t : Tree} {v : Json} (h : t.Means depth v) :
    Layer depth t v := by
  obtain ⟨hv, ho⟩ := h
  cases t with
  | null =>
    cases hv
    exact .null
  | bool b =>
    cases hv
    exact .bool b
  | number n =>
    obtain ⟨n, rfl, rfl⟩ := Option.map_eq_some_iff.1 hv
    exact .number n
  | string s =>
    obtain ⟨s, rfl, rfl⟩ := Option.map_eq_some_iff.1 hv
    exact .string s
  | array items =>
    cases depth with
    | zero => cases hv
    | succ depth =>
      obtain ⟨vs, hvs, rfl⟩ := Option.map_eq_some_iff.1 hv
      exact .array (forall₂_of_values? hvs ho)
  | object ms =>
    cases depth with
    | zero => cases hv
    | succ depth =>
      obtain ⟨es, hes, rfl⟩ := Option.map_eq_some_iff.1 hv
      obtain ⟨hdistinct, heach⟩ := Bool.and_eq_true_iff.1 ho
      have heach := forall₂_of_members? hes heach
      refine .object (List.Nodup.of_map some ?_) heach
      rw [← map_fst_of_forall₂ heach]
      exact of_decide_eq_true hdistinct

end Tree

theorem membersTrees_eq_map (es : List (String × Json)) :
    membersTrees es = es.map fun e => (some e.1, e.2.tree) := by
  induction es with
  | nil => rfl
  | cons e r ih => rw [membersTrees, ih, List.map_cons]

open Json.Tree

/-! ## Readers -/

/-- The reader finds in a tree what it finds in the tree of its value. -/
def Reader.ByValue {α : Type} (read : Reader α) : Prop :=
  ∀ ⦃depth : Nat⦄ ⦃t : Tree⦄ ⦃v : Json⦄, t.Means depth v → read depth t = read depth v.tree

namespace Reader

theorem byValue_text : ByValue text := by
  intro depth t v h
  cases h.layer <;> rfl

theorem byValue_bool : ByValue bool := by
  intro depth t v h
  cases h.layer <;> rfl

theorem byValue_value : ByValue value := by
  intro depth t v h
  exact h.value.trans (Tree.value?_tree h.value).symm

theorem table_of_value? {depth : Nat} {t : Tree} {es : List (String × Json)}
    (h : t.value? depth = some (.object es)) : table depth t = some (Table.ofList es) := by
  cases t with
  | object ms =>
    cases depth with
    | zero => cases h
    | succ depth =>
      obtain ⟨fs, hfs, hes⟩ := Option.map_eq_some_iff.1 h
      obtain rfl : Entries.ofList fs = es := by simpa [ofMembers] using hes
      rw [table, hfs, ← Table.entries_ofList, Table.ofList_entries]
      rfl
  | array items => cases depth <;> simp [Tree.value?] at h
  | _ => simp [Tree.value?] at h

theorem byValue_table : ByValue table := by
  intro depth t v ht
  have hagain := Tree.value?_tree ht.value
  cases ht.layer with
  | object distinct each =>
    rw [table_of_value? ht.value, table_of_value? hagain]
  | _ => rfl

variable {α : Type} {read : Reader α}

theorem ByValue.mapM (h : ByValue read) {depth : Nat} {items : List Tree} {vs : List Json}
    (hv : List.Forall₂ (Means depth) items vs) :
    items.mapM (read depth) = (vs.map tree).mapM (read depth) := by
  induction hv with
  | nil => rfl
  | cons ht _ ih => rw [List.map_cons, List.mapM_cons, List.mapM_cons, h ht, ih]

theorem ByValue.list (h : ByValue read) : ByValue (list read) := by
  intro depth t v ht
  cases ht.layer with
  | array each =>
    rw [tree, itemsTrees_eq_map]
    exact h.mapM each
  | _ => rfl

theorem ByValue.nullable (h : ByValue read) : ByValue (nullable read) := by
  intro depth t v ht
  have hread := congrArg (Option.map some) (h ht)
  cases ht.layer with
  | null => rfl
  | _ => exact hread

theorem word_eq_none {named : String → Option α} {depth : Nat} {ms : List (Option String × Tree)}
    (h : ms.length ≠ 1) : word named depth (.object ms) = none := by
  unfold word
  split
  · rename_i heq
    cases heq
  · rename_i heq
    cases heq
    exact absurd rfl h
  · rfl

/-- An object that stands for a word has one member, so there is no order to lose. -/
theorem byValue_word (named : String → Option α) : ByValue (word named) := by
  intro depth t v ht
  cases ht.layer with
  | @object depth ms es distinct each =>
    by_cases hone : es.length = 1
    · obtain ⟨⟨k, w⟩, rfl⟩ := List.length_eq_one_iff.1 hone
      obtain ⟨⟨j, u⟩, _, ⟨hkey, hmeans⟩, hnil, rfl⟩ := List.forall₂_cons_right_iff.1 each
      obtain rfl := List.forall₂_nil_right_iff.1 hnil
      obtain rfl : j = some k := hkey
      have hvalue : (ofMembers [(k, w)]).tree = .object [(some k, w.tree)] := rfl
      rw [hvalue]
      have hlayer : Layer depth u w := hmeans.layer
      cases hlayer <;> rfl
    · have hlength : (membersTrees (Entries.ofList es)).length = es.length := by
        rw [membersTrees_eq_map, List.length_map, (Entries.perm_ofList distinct).length_eq]
      rw [word_eq_none (each.length_eq ▸ hone)]
      exact (word_eq_none (hlength ▸ hone)).symm
  | _ => rfl

end Reader

/-! ## Records -/

namespace Record

/-- A field's tree in one record and the tree of its value in another. -/
def FieldAlike (depth : Nat) (t u : Tree) : Prop := ∃ v, t.Means depth v ∧ u = v.tree

/-- The records have the same fields; in the second one stand the trees of their values. -/
structure Alike (r r' : Record) : Prop where
  depth : r.depth = r'.depth
  fields (name : String) :
    Option.Rel (FieldAlike r.depth) (r.fields.lookup name) (r'.fields.lookup name)

/-- A field beside its value. -/
def FieldMeans (depth : Nat) (f : String × Tree) (e : String × Json) : Prop :=
  f.1 = e.1 ∧ f.2.Means depth e.2

theorem rel_lookup {depth : Nat} {fs : List (String × Tree)} {es : List (String × Json)}
    (h : List.Forall₂ (FieldMeans depth) fs es) (name : String) :
    Option.Rel (FieldAlike depth) (fs.lookup name)
      ((es.map fun e => (e.1, e.2.tree)).lookup name) := by
  induction h with
  | nil => exact .none
  | @cons f e fs es hf _ ih =>
    obtain ⟨k, t⟩ := f
    obtain ⟨rfl, ht⟩ := hf
    rw [List.map_cons, List.lookup_cons, List.lookup_cons]
    cases name == e.1 with
    | true => exact .some ⟨e.2, ht, rfl⟩
    | false => exact ih

theorem forall₂_zip {depth : Nat} (names : List String) {items : List Tree} {vs : List Json}
    (h : List.Forall₂ (Means depth) items vs) :
    List.Forall₂ (FieldMeans depth) (names.zip items) (names.zip vs) := by
  induction h generalizing names with
  | nil => simp
  | cons ht _ ih =>
    cases names with
    | nil => exact .nil
    | cons name names => exact .cons ⟨rfl, ht⟩ (ih names)

theorem keys?_of_forall₂ {depth : Nat} {ms : List (Option String × Tree)}
    {es : List (String × Json)} (h : List.Forall₂ (MemberMeans depth) ms es) :
    ∃ fs, keys? ms = some fs ∧ List.Forall₂ (FieldMeans depth) fs es := by
  induction h with
  | nil => exact ⟨[], rfl, .nil⟩
  | @cons m e ms es hm _ ih =>
    obtain ⟨k, t⟩ := m
    obtain ⟨rfl, ht⟩ := hm
    obtain ⟨fs, hfs, heach⟩ := ih
    exact ⟨(e.1, t) :: fs, by simp [keys?, hfs], .cons ⟨rfl, ht⟩ heach⟩

theorem map_fst_of_forall₂ {depth : Nat} {fs : List (String × Tree)} {es : List (String × Json)}
    (h : List.Forall₂ (FieldMeans depth) fs es) : fs.map Prod.fst = es.map Prod.fst := by
  induction h with
  | nil => rfl
  | cons hf _ ih => rw [List.map_cons, List.map_cons, ih, hf.1]

/-- An object whose keys differ is read as a record, whatever else it has. -/
theorem read?_of_keys? {names : List String} {depth : Nat} {ms : List (Option String × Tree)}
    {fs : List (String × Tree)} (h : keys? ms = some fs) (hd : (fs.map Prod.fst).Nodup) :
    read? names (depth + 1) (.object ms) = some ⟨depth, fs.filter (names.contains ·.1)⟩ := by
  have hfilter : ((fs.filter (names.contains ·.1)).map Prod.fst).Nodup :=
    (List.filter_sublist.map Prod.fst).nodup hd
  simp only [read?, h, Option.bind_eq_bind, Option.bind_some]
  exact if_pos hfilter

theorem read?_alike (names : List String) {depth : Nat} {t : Tree} {v : Json}
    (h : t.Means depth v) :
    Option.Rel Alike (read? names depth t) (read? names depth v.tree) := by
  cases h.layer with
  | @array depth items vs each =>
    have hlength : (itemsTrees vs).length = items.length := by
      rw [itemsTrees_eq_map, List.length_map, each.length_eq]
    rw [tree, read?, read?, hlength]
    split
    · refine .some ⟨rfl, fun name => ?_⟩
      have hzip : names.zip (itemsTrees vs) = (names.zip vs).map fun e => (e.1, e.2.tree) := by
        rw [itemsTrees_eq_map, List.zip_map_right]
        rfl
      dsimp only
      rw [hzip]
      exact rel_lookup (forall₂_zip names each) name
    · exact .none
  | @object depth ms es distinct each =>
    obtain ⟨fs, hfs, heach⟩ := keys?_of_forall₂ each
    have hperm := Entries.perm_ofList distinct
    have hsorted := (hperm.map Prod.fst).nodup_iff.2 distinct
    rw [read?_of_keys? hfs (map_fst_of_forall₂ heach ▸ distinct), ofMembers, tree,
      read?_of_keys? (keys?_membersTrees _) (by simpa [Function.comp_def] using hsorted)]
    refine .some ⟨rfl, fun name => ?_⟩
    dsimp only
    rw [Entries.lookup_filter_contains, Entries.lookup_filter_contains, Entries.lookup_map,
      Entries.lookup_ofList distinct, ← Entries.lookup_map]
    split
    · exact rel_lookup heach name
    · exact .none
  | _ => cases depth <;> exact .none

variable {α : Type} {read : Reader α} {r r' : Record}

/-- A field is missing from both records, or it is in both, in the second by its value. -/
theorem Alike.field (h : r.Alike r') (name : String) :
    (r.fields.lookup name = none ∧ r'.fields.lookup name = none) ∨
      ∃ t v, r.fields.lookup name = some t ∧ r'.fields.lookup name = some v.tree ∧
        t.Means r.depth v := by
  have hfield := h.fields name
  generalize r.fields.lookup name = t?, r'.fields.lookup name = u? at hfield
  cases hfield with
  | none => exact .inl ⟨rfl, rfl⟩
  | @some t u ht =>
    obtain ⟨v, ht, rfl⟩ := ht
    exact .inr ⟨t, v, rfl, rfl, ht⟩

theorem Alike.required (h : r.Alike r') (name : String) (hread : Reader.ByValue read) :
    r.required name read = r'.required name read := by
  unfold Record.required
  obtain ⟨hr, hr'⟩ | ⟨t, v, hr, hr', ht⟩ := h.field name
  · rw [hr, hr']
    rfl
  · rw [hr, hr', ← h.depth]
    exact hread ht

theorem Alike.defaulted (h : r.Alike r') (name : String) (hread : Reader.ByValue read)
    (missing : α) : r.defaulted name read missing = r'.defaulted name read missing := by
  unfold Record.defaulted
  obtain ⟨hr, hr'⟩ | ⟨t, v, hr, hr', ht⟩ := h.field name
  · rw [hr, hr']
  · rw [hr, hr', ← h.depth]
    exact hread ht

theorem Alike.optional (h : r.Alike r') (name : String) (hread : Reader.ByValue read) :
    r.optional name read = r'.optional name read := h.defaulted name hread.nullable none

/-- What stands in a field of either record is a value in itself. -/
theorem Alike.values (h : r.Alike r') (name : String) :
    (∀ t, r.fields.lookup name = some t → ∃ v, t.value? r.depth = some v) ∧
      ∀ t, r'.fields.lookup name = some t → ∃ v, t.value? r'.depth = some v := by
  obtain ⟨hr, hr'⟩ | ⟨t, v, hr, hr', ht⟩ := h.field name
  · rw [hr, hr']
    exact ⟨nofun, nofun⟩
  · rw [hr, hr', ← h.depth]
    exact ⟨fun _ heq => ⟨v, Option.some.inj heq ▸ ht.value⟩,
      fun _ heq => ⟨v, Option.some.inj heq ▸ Tree.value?_tree ht.value⟩⟩

/-- A record is read off its value if its fields are all that counts. -/
theorem byValue {names : List String} {body : Record → Option α}
    (h : ∀ r r' : Record, r.Alike r' → body r = body r') :
    Reader.ByValue fun depth t => (read? names depth t).bind body := by
  intro depth t v ht
  dsimp only
  have hrel := read?_alike names ht
  generalize read? names depth t = r?, read? names depth v.tree = r'? at hrel
  cases hrel with
  | none => rfl
  | some hr => exact h _ _ hr

end Record

/-! ## Texts -/

/-- The text has the value, and no object in it has a key twice. -/
structure Denotes (text : String) (v : Json) : Prop where
  value : Json.parse? text = some v
  once : ∀ t, Tree.parse? text = some t → t.keyedOnce = true

theorem Denotes.of_tree {text : String} {t : Tree} {v : Json} (ht : Tree.parse? text = some t)
    (hv : t.value? depthLimit = some v) (ho : t.keyedOnce = true) : Denotes text v where
  value := by rw [Json.parse?, ht, Option.bind_some, hv]
  once u hu := by rwa [← Option.some.inj (ht.symm.trans hu)]

end Json

open Json

/-! ## Documents -/

theorem Reference.byValue : Reader.ByValue read? := by
  refine Record.byValue fun r r' h => ?_
  rw [h.required "nodeId" Reader.byValue_text, h.required "name" Reader.byValue_text]

namespace Binding

theorem byValue_content (tag : Tag) : Reader.ByValue (content? tag) := by
  intro depth t v h
  cases tag with
  | literal => exact congrArg (Option.map literal) (Reader.byValue_value h)
  | reference => exact congrArg (Option.map reference) (Reference.byValue h)

/-- What is read of a content that is a value in itself, wherever its tag stands. -/
theorem content_of_value {r : Record} (tag : Tag)
    (h : ∀ t, r.fields.lookup "content" = some t → ∃ v, t.value? r.depth = some v) :
    (do
      if precedes "content" "type" r.fields then
        discard (r.required "content" .value)
      r.required "content" (content? tag)) = r.required "content" (content? tag) := by
  split
  · unfold Record.required
    cases hlookup : r.fields.lookup "content" with
    | none => rfl
    | some t =>
      obtain ⟨v, hv⟩ := h t hlookup
      have hvalue : Reader.value r.depth t = some v := hv
      rw [Option.bind_some, Option.bind_some, hvalue]
      rfl
  · rfl

theorem byValue : Reader.ByValue read? := by
  refine Record.byValue fun r r' h => ?_
  obtain ⟨hvalue, hvalue'⟩ := h.values "content"
  rw [h.required "type" (Reader.byValue_word _)]
  refine congrArg _ (funext fun tag => ?_)
  rw [content_of_value tag hvalue, content_of_value tag hvalue',
    h.required "content" (byValue_content tag)]

end Binding

theorem InputSchema.byValue : Reader.ByValue read? := by
  refine Record.byValue fun r r' h => ?_
  rw [h.optional "type" Reader.byValue_text, h.optional "value" Binding.byValue]

theorem Input.byValue : Reader.ByValue read? := by
  refine Record.byValue fun r r' h => ?_
  rw [h.optional "id" Reader.byValue_text, h.required "name" Reader.byValue_text,
    h.optional "schema" InputSchema.byValue]

theorem Output.byValue : Reader.ByValue read? := by
  refine Record.byValue fun r r' h => ?_
  rw [h.optional "id" Reader.byValue_text, h.required "name" Reader.byValue_text,
    h.optional "schema" Reader.byValue_table, h.defaulted "required" Reader.byValue_bool]

theorem Label.byValue : Reader.ByValue read? := by
  refine Record.byValue fun r r' h => ?_
  rw [h.optional "nodeType" Reader.byValue_text, h.optional "aliasName" Reader.byValue_text]

theorem Settings.byValue : Reader.ByValue read? := by
  refine Record.byValue fun r r' h => ?_
  rw [h.defaulted "inputs" Input.byValue.list, h.optional "nodeMeta" Label.byValue,
    h.defaulted "nodeParam" Reader.byValue_table, h.defaulted "outputs" Output.byValue.list]

theorem Node.byValue : Reader.ByValue read? := by
  refine Record.byValue fun r r' h => ?_
  rw [h.required "id" Reader.byValue_text, h.defaulted "data" Settings.byValue]

theorem Edge.byValue : Reader.ByValue read? := by
  refine Record.byValue fun r r' h => ?_
  rw [h.required "sourceNodeId" Reader.byValue_text,
    h.required "targetNodeId" Reader.byValue_text, h.optional "sourceHandle" Reader.byValue_text]

namespace Document

theorem byValue : Reader.ByValue read? := by
  refine Record.byValue fun r r' h => ?_
  rw [h.defaulted "nodes" Node.byValue.list, h.defaulted "edges" Edge.byValue.list]

/-- What is held by a text with a value and without repeated keys is told by the value. -/
theorem parse?_of_denotes {text : String} {v : Json} (h : Denotes text v) :
    parse? text = read? depthLimit v.tree := by
  obtain ⟨t, ht, hvalue⟩ := Option.bind_eq_some_iff.1 h.value
  rw [parse?, decode?, ht, Option.bind_some]
  exact byValue ⟨hvalue, h.once t ht⟩

/-- **White space, escapes and order count for nothing.** Two texts of one value, neither with a
repeated key, hold the same document, or both hold none and are refused. -/
theorem parse_congr {text text' : String} {v : Json} (h : Denotes text v)
    (h' : Denotes text' v) :
    (∃ d, parse? text = some d ∧ parse? text' = some d) ∨
      (parse? text = none ∧ parse? text' = none ∧
        Graph.parse text = .error (.document Failure.unreadableJson) ∧
        Graph.parse text' = .error (.document Failure.unreadableJson)) := by
  have hsame : parse? text' = parse? text := by
    rw [parse?_of_denotes h, parse?_of_denotes h']
  cases hparse : parse? text with
  | some d => exact .inl ⟨d, rfl, hsame.trans hparse⟩
  | none =>
    have hparse' : parse? text' = none := hsame.trans hparse
    exact .inr ⟨rfl, hparse', by rw [Graph.parse, hparse], by rw [Graph.parse, hparse']⟩

/-- A node whose one input is bound, and a member that is not known. The members are in order, so
the content of the binding comes before its tag. -/
def tidy : Json :=
  ofMembers [("x", .array [.bool true]), ("nodes", .array [.array [.string "a", .array [.array [
    .array [.null, .string "q", .array [.null, ofMembers [("type", .string "ref"), ("content",
      ofMembers [("nodeId", .string "b"), ("name", .string "o")])]]]]]]])]

/-- The same with the members of each object the other way round. -/
def shuffled : Json :=
  .object [("x", .array [.bool true]), ("nodes", .array [.array [.string "a", .array [.array [
    .array [.null, .string "q", .array [.null, .object [("type", .string "ref"), ("content",
      .object [("nodeId", .string "b"), ("name", .string "o")])]]]]]]])]

/-- A text of that, with a blank and an escape. -/
def untidy : String :=
  "\x7b\"x\":[ true],\"nodes\":[[\"a\",[[[null,\"q\",[null,\x7b\"type\":\"ref\"," ++
  "\"content\":\x7b\"nodeId\":\"\\u0062\",\"name\":\"o\"\x7d\x7d]]]]]]\x7d"

theorem parse_congr_untidy :
    Denotes tidy.text tidy ∧ Denotes untidy tidy ∧ ∃ d, parse? tidy.text = some d ∧
      parse? untidy = some d ∧ d.nodes.map Node.id = ["a"] := by
  have htidy : Denotes tidy.text tidy := .of_tree (Tree.parse?_compact nofun) rfl (by decide)
  have huntidy : Denotes untidy tidy := by
    have hscan : Token.scan untidy.toList = some shuffled.tokens := by decide +kernel
    have hexact : Exact shuffled.numbers := nofun
    have htree : Tree.parse? untidy = some shuffled.tree := by
      rw [Tree.parse?, hscan, ← scan_text hexact, ← Tree.parse?]
      exact Tree.parse?_compact hexact
    exact .of_tree htree rfl (by decide)
  have hids : (parse? tidy.text).any fun d => d.nodes.map Node.id = ["a"] := by
    rw [parse?_of_denotes htidy]
    decide
  obtain ⟨d, hd, hid⟩ := (Option.any_eq_true _ _).1 hids
  refine ⟨htidy, huntidy, d, hd, ?_, by simpa using hid⟩
  obtain ⟨d', htidy, huntidy⟩ | ⟨hnone, -⟩ := parse_congr htidy huntidy
  · obtain rfl := Option.some.inj (hd.symm.trans htidy)
    exact huntidy
  · cases hd.symm.trans hnone

end Document

end Flowline
