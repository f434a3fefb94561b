import Flowline.Document.Printer
import Flowline.Document.Reader
import Flowline.Proofs.Lookup
import Flowline.Proofs.Nesting

/-! # Documents can be read back

However a document was written, what is printed of it reads as the same document. A reader
restores what it reads if it reads the same off the printed value; records restore what their
fields do, whether they were written as objects or as arrays, with or without the fields that
may be missing. Printing fills in what was missing, so a reader that does not come near
the depth limit by itself restores free-form values as deep as it could read them. -/

namespace Flowline
namespace Json

/-! ## Readers -/

/-- What is read is read again off what is printed of it, wherever so many containers may nest, and
no number is printed that was not there. -/
structure Reader.Restores {α : Type} (read : Reader α) (print : α → Json) (least : Nat) : Prop where
  again {d : Nat} {t : Tree} {a : α} (hd : least ≤ d) (h : read d t = some a) :
    read d (print a).tree = some a
  numbers {d : Nat} {t : Tree} {a : α} (h : read d t = some a) : (print a).numbers ⊆ t.numbers

namespace Reader

variable {α : Type}

theorem restores_text : Restores text .string 0 where
  again _ _ := rfl
  numbers _ := List.nil_subset _

theorem restores_bool : Restores bool .bool 0 where
  again _ _ := rfl
  numbers _ := List.nil_subset _

theorem restores_value : Restores value id 0 where
  again _ h := Tree.value?_tree h
  numbers h := Tree.numbers_value? h

theorem table_eq_some {d : Nat} {t : Tree} {a : Table Json} (h : table d t = some a) :
    ∃ depth ms es, d = depth + 1 ∧ t = .object ms ∧ Tree.members? depth ms = some es ∧
      a = Table.ofList es := by
  unfold table at h
  split at h
  · obtain ⟨es, hes, rfl⟩ := Option.map_eq_some_iff.1 h
    exact ⟨_, _, es, rfl, rfl, hes, rfl⟩
  · cases h

theorem restores_table : Restores table Table.toJson 1 where
  again {d t a} _ h := by
    obtain ⟨depth, ms, es, rfl, rfl, hes, rfl⟩ := table_eq_some h
    have hentries : ∀ e ∈ (Table.ofList es).entries, Tree.value? depth e.2.tree = some e.2 := by
      intro e he
      rw [Table.entries_ofList] at he
      exact Tree.value?_tree_of_members? hes e (Entries.mem_of_mem_ofList he)
    simp [table, Table.toJson, tree, Tree.members?_membersTrees hentries, Table.ofList_entries]
  numbers {d t a} h := by
    obtain ⟨depth, ms, es, rfl, rfl, hes, rfl⟩ := table_eq_some h
    intro n hn
    obtain ⟨e, he, hn⟩ : ∃ e ∈ (Table.ofList es).entries, n ∈ e.2.numbers := by
      simpa [Table.toJson] using hn
    rw [Table.entries_ofList] at he
    rw [Tree.numbers_object]
    exact Tree.numbers_members? hes (List.mem_flatMap.2 ⟨e, Entries.mem_of_mem_ofList he, hn⟩)

theorem table_empty {d : Nat} (hd : 1 ≤ d) : table d (.object []) = some ∅ := by
  obtain ⟨d, rfl⟩ := Nat.exists_eq_add_of_le' hd
  rfl

variable {read : Reader α} {print : α → Json} {least : Nat}

theorem list_nil {d : Nat} (hd : 1 ≤ d) : list read d (.array []) = some [] := by
  obtain ⟨d, rfl⟩ := Nat.exists_eq_add_of_le' hd
  rfl

theorem Restores.mapM (h : Restores read print least) {d : Nat} {ts : List Tree} {l : List α}
    (hl : ts.mapM (read d) = some l) :
    (least ≤ d → (l.map fun a => (print a).tree).mapM (read d) = some l) ∧
      (l.flatMap fun a => (print a).numbers) ⊆ ts.flatMap Tree.numbers := by
  induction ts generalizing l with
  | nil =>
    obtain rfl : [] = l := by simpa using hl
    exact ⟨fun _ => rfl, List.nil_subset _⟩
  | cons t ts ih =>
    obtain ⟨a, ha, r, hr, rfl⟩ : ∃ a, read d t = some a ∧ ∃ r, ts.mapM (read d) = some r ∧
        a :: r = l := by simpa [List.mapM_cons, Option.bind_eq_some_iff] using hl
    obtain ⟨hagain, hnumbers⟩ := ih hr
    refine ⟨fun hd => ?_, ?_⟩
    · simp [List.mapM_cons, h.again hd ha, hagain hd]
    · rw [List.flatMap_cons, List.flatMap_cons, List.append_subset]
      exact ⟨List.Subset.trans (h.numbers ha) (List.subset_append_left _ _),
        List.Subset.trans hnumbers (List.subset_append_right _ _)⟩

theorem list_eq_some {d : Nat} {t : Tree} {l : List α} (h : list read d t = some l) :
    ∃ depth items, d = depth + 1 ∧ t = .array items ∧ items.mapM (read depth) = some l := by
  unfold list at h
  split at h
  · exact ⟨_, _, rfl, rfl, h⟩
  · cases h

theorem Restores.list (h : Restores read print least) :
    Restores (list read) (fun l => .array (l.map print)) (least + 1) where
  again {d t l} hd hl := by
    obtain ⟨depth, items, rfl, rfl, hitems⟩ := list_eq_some hl
    have hagain := (h.mapM hitems).1 (Nat.le_of_succ_le_succ hd)
    simpa [Reader.list, tree, itemsTrees_eq_map, Function.comp_def] using hagain
  numbers {d t l} hl := by
    obtain ⟨depth, items, rfl, rfl, hitems⟩ := list_eq_some hl
    simpa [List.flatMap_map] using (h.mapM hitems).2

theorem Restores.nullable (h : Restores read print least) (hp : ∀ a, (print a).tree ≠ .null) :
    Restores (nullable read) (ofOption print) least where
  again {d t a} hd ha := by
    by_cases ht : t = .null
    · subst ht
      obtain rfl := Option.some.inj ha
      rfl
    · rw [nullable_of_ne ht] at ha
      obtain ⟨b, hb, rfl⟩ := Option.map_eq_some_iff.1 ha
      rw [ofOption, nullable_of_ne (hp b), h.again hd hb]
      rfl
  numbers {d t a} ha := by
    by_cases ht : t = .null
    · subst ht
      obtain rfl := Option.some.inj ha
      exact List.nil_subset _
    · rw [nullable_of_ne ht] at ha
      obtain ⟨b, hb, rfl⟩ := Option.map_eq_some_iff.1 ha
      exact h.numbers hb

end Reader

/-! ## Records -/

namespace Record

variable {α : Type}

def numbers (r : Record) : List Number := r.fields.flatMap fun f => f.2.numbers

theorem mem_of_keys? {ms : List (Option String × Tree)} {fs : List (String × Tree)}
    (h : keys? ms = some fs) : ∀ f ∈ fs, (some f.1, f.2) ∈ ms := by
  induction ms generalizing fs with
  | nil =>
    obtain rfl := Option.some.inj h
    simp
  | cons e ms ih =>
    obtain ⟨k, t⟩ := e
    obtain ⟨k, rfl, h⟩ := Option.bind_eq_some_iff.1 h
    obtain ⟨gs, hgs, h⟩ := Option.bind_eq_some_iff.1 h
    cases h
    intro f hf
    rcases List.mem_cons.1 hf with rfl | hf
    · exact List.mem_cons_self
    · exact List.mem_cons_of_mem _ (ih hgs f hf)

theorem keys?_membersTrees (fs : List (String × Json)) :
    keys? (membersTrees fs) = some (fs.map fun f => (f.1, f.2.tree)) := by
  induction fs with
  | nil => rfl
  | cons f fs ih => simp [membersTrees, keys?, ih]

theorem depth_of_read? {names : List String} {d : Nat} {t : Tree} {r : Record}
    (h : read? names d t = some r) : d = r.depth + 1 ∧ r.numbers ⊆ t.numbers := by
  unfold read? at h
  split at h
  · split at h
    · obtain rfl := Option.some.inj h
      refine ⟨rfl, ?_⟩
      intro n hn
      obtain ⟨f, hf, hn⟩ := List.mem_flatMap.1 hn
      rw [Tree.numbers_array]
      exact List.mem_flatMap.2 ⟨f.2, (List.of_mem_zip hf).2, hn⟩
    · cases h
  · obtain ⟨fs, hfs, h⟩ := Option.bind_eq_some_iff.1 h
    dsimp only at h
    split at h
    · obtain rfl := Option.some.inj h
      refine ⟨rfl, ?_⟩
      intro n hn
      obtain ⟨f, hf, hn⟩ := List.mem_flatMap.1 hn
      rw [Tree.numbers_object]
      exact List.mem_flatMap.2 ⟨_, mem_of_keys? hfs f (List.mem_filter.1 hf).1, hn⟩
    · cases h
  · cases h

/-- A record that has been printed has all its fields. -/
theorem read?_object (depth : Nat) {fs : List (String × Json)} (h : (fs.map Prod.fst).Nodup) :
    read? (fs.map Prod.fst) (depth + 1) (Json.object fs).tree =
      some ⟨depth, fs.map fun f => (f.1, f.2.tree)⟩ := by
  have hfilter : ((fs.map fun f => (f.1, f.2.tree)).filter
      fun f => (fs.map Prod.fst).contains f.1) = fs.map fun f => (f.1, f.2.tree) := by
    rw [List.filter_eq_self]
    intro f hf
    obtain ⟨g, hg, rfl⟩ := List.mem_map.1 hf
    simpa using ⟨g.2, hg⟩
  have hnodup : ((fs.map fun f => (f.1, f.2.tree)).map Prod.fst).Nodup := by
    simpa [Function.comp_def] using h
  simp only [tree, read?, keys?_membersTrees, Option.bind_eq_bind, Option.bind_some, hfilter]
  exact if_pos hnodup

theorem numbers_of_lookup {r : Record} {name : String} {t : Tree}
    (h : r.fields.lookup name = some t) : t.numbers ⊆ r.numbers := by
  obtain ⟨before, after, hsplit, -⟩ := List.lookup_eq_some_iff.1 h
  rw [numbers, hsplit]
  simp

theorem lookup_of_mem {fs : List (String × Json)} (h : (fs.map Prod.fst).Nodup)
    {f : String × Json} (hf : f ∈ fs) :
    (fs.map fun f => (f.1, f.2.tree)).lookup f.1 = some f.2.tree := by
  rw [Entries.lookup_map, (Entries.lookup_eq_some_iff_mem h).2 hf, Option.map_some]

/-- What a field gives is given again by a record that has there what is printed of it. -/
structure Restores (get : Record → Option α) (name : String) (print : α → Json) (least : Nat) :
    Prop where
  again {r s : Record} {a : α} (hd : least ≤ r.depth) (h : get r = some a)
    (hs : s.depth = r.depth) (hf : s.fields.lookup name = some (print a).tree) : get s = some a
  numbers {r : Record} {a : α} (h : get r = some a) : (print a).numbers ⊆ r.numbers

variable {read : Reader α} {print : α → Json} {least : Nat}

theorem restores_required (name : String) (h : Reader.Restores read print least) :
    Restores (·.required name read) name print least where
  again {r s a} hd ha hs hf := by
    obtain ⟨t, -, ht⟩ := Option.bind_eq_some_iff.1 ha
    rw [required, hf, hs]
    exact h.again hd ht
  numbers {r a} ha := by
    obtain ⟨t, hlookup, ht⟩ := Option.bind_eq_some_iff.1 ha
    exact List.Subset.trans (h.numbers ht) (numbers_of_lookup hlookup)

/-- A field that may be missing, if what stands for it can be read. -/
theorem restores_defaulted (name : String) (missing : α) (h : Reader.Restores read print least)
    (hm : ∀ d, least ≤ d → read d (print missing).tree = some missing)
    (hn : (print missing).numbers = []) :
    Restores (·.defaulted name read missing) name print least where
  again {r s a} hd ha hs hf := by
    unfold defaulted at ha ⊢
    rw [hf, hs]
    split at ha
    · exact h.again hd ha
    · obtain rfl := Option.some.inj ha
      exact hm _ hd
  numbers {r a} ha := by
    unfold defaulted at ha
    split at ha
    · rename_i t hlookup
      exact List.Subset.trans (h.numbers ha) (numbers_of_lookup hlookup)
    · obtain rfl := Option.some.inj ha
      rw [hn]
      exact List.nil_subset _

theorem restores_optional (name : String) (h : Reader.Restores read print least)
    (hp : ∀ a, (print a).tree ≠ .null) :
    Restores (·.optional name read) name (ofOption print) least :=
  restores_defaulted name none (h.nullable hp) (fun _ _ => rfl) rfl

theorem restores_optionalText (name : String) :
    Restores (·.optional name Reader.text) name ofText? 0 := by
  have hofText : ofText? = ofOption string := by
    funext s?
    cases s? <;> rfl
  rw [hofText]
  exact restores_optional name Reader.restores_text (by simp [tree])

/-- What the rest of a record gives is known to be so, and is given again by a record that has all
the fields that are printed of it. -/
structure Gives (body : Record → Option α) (known : α → Prop)
    (fields : α → List (String × Json)) (least : Nat) : Prop where
  known {r : Record} {a : α} (h : body r = some a) : known a
  again {r s : Record} {a : α} (hd : least ≤ r.depth) (h : body r = some a)
    (hs : s.depth = r.depth) (hf : ∀ f ∈ fields a, s.fields.lookup f.1 = some f.2.tree) :
    body s = some a
  numbers {r : Record} {a : α} (h : body r = some a) : ∀ f ∈ fields a, f.2.numbers ⊆ r.numbers

theorem Gives.done {known : α → Prop} {a : α} (h : known a) :
    Gives (fun _ => some a) known (fun _ => []) least where
  known ha := Option.some.inj ha ▸ h
  again _ ha _ _ := ha
  numbers _ := by simp

/-- One more field in front, where `p` takes its value from the whole. -/
theorem Gives.field {β : Type} {get : Record → Option β} {name : String} {print : β → Json}
    {enough : Nat} {rest : β → Record → Option α} {known : α → Prop}
    {fields : α → List (String × Json)} (p : α → β) (hget : Restores get name print enough)
    (he : enough ≤ least)
    (hrest : ∀ b, Gives (rest b) (fun a => known a ∧ p a = b) fields least) :
    Gives (fun r => (get r).bind fun b => rest b r) known
      (fun a => (name, print (p a)) :: fields a) least where
  known ha := by
    obtain ⟨b, -, ha⟩ := Option.bind_eq_some_iff.1 ha
    exact ((hrest b).known ha).1
  again {r s a} hd ha hs hf := by
    obtain ⟨b, hb, ha⟩ := Option.bind_eq_some_iff.1 ha
    obtain ⟨hfirst, hothers⟩ := List.forall_mem_cons.1 hf
    obtain rfl := ((hrest b).known ha).2
    rw [hget.again (Nat.le_trans he hd) hb hs hfirst, Option.bind_some]
    exact (hrest _).again hd ha hs hothers
  numbers {r a} ha := by
    obtain ⟨b, hb, ha⟩ := Option.bind_eq_some_iff.1 ha
    obtain rfl := ((hrest b).known ha).2
    exact List.forall_mem_cons.2 ⟨hget.numbers hb, (hrest _).numbers ha⟩

/-- A record is restored if its fields are, whatever has been read of them. -/
theorem restores {names : List String} {body : Record → Option α} {print : α → Json}
    {fields : α → List (String × Json)} (hnodup : names.Nodup)
    (h : Gives body (fun _ => True) fields least)
    (hprint : ∀ a, print a = .object (fields a)) (hnames : ∀ a, (fields a).map Prod.fst = names) :
    Reader.Restores (fun d t => (read? names d t).bind body) print (least + 1) where
  again {d t a} hd ha := by
    obtain ⟨r, hr, hbody⟩ := Option.bind_eq_some_iff.1 ha
    obtain ⟨rfl, -⟩ := depth_of_read? hr
    have hobject := read?_object r.depth (hnames a ▸ hnodup)
    rw [hnames] at hobject
    rw [hprint, hobject, Option.bind_some]
    exact h.again (Nat.le_of_succ_le_succ hd) hbody rfl fun f hf =>
      lookup_of_mem (hnames a ▸ hnodup) hf
  numbers {d t a} ha := by
    obtain ⟨r, hr, hbody⟩ := Option.bind_eq_some_iff.1 ha
    intro n hn
    rw [hprint, numbers_object] at hn
    obtain ⟨f, hf, hn⟩ := List.mem_flatMap.1 hn
    exact (depth_of_read? hr).2 (h.numbers hbody f hf hn)

end Record
end Json

open Json Json.Record

/-! ## Documents -/

theorem Reference.restores : Reader.Restores read? toJson 1 := by
  refine Record.restores (by decide) ?_ (fun _ => rfl) (fun _ => rfl)
  refine .field node (restores_required "nodeId" Reader.restores_text) (Nat.zero_le _) fun _ => ?_
  refine .field name (restores_required "name" Reader.restores_text) (Nat.zero_le _) fun _ => ?_
  exact .done ⟨⟨trivial, rfl⟩, rfl⟩

namespace Binding

def tag : Binding → Tag
  | literal _ => .literal
  | reference _ => .reference

def Tag.word : Tag → String
  | .literal => "literal"
  | .reference => "ref"

def content : Binding → Json
  | literal v => v
  | reference r => r.toJson

theorem toJson_eq (b : Binding) :
    b.toJson = .object [("type", .string b.tag.word), ("content", b.content)] := by
  cases b <;> rfl

theorem tag_of_content? {tag : Tag} {d : Nat} {t : Tree} {b : Binding}
    (h : content? tag d t = some b) : b.tag = tag := by
  cases tag <;> obtain ⟨_, _, rfl⟩ := Option.map_eq_some_iff.1 h <;> rfl

theorem restores_content (tag : Tag) : Reader.Restores (content? tag) content 1 where
  again {d t b} hd h := by
    cases tag with
    | literal =>
      obtain ⟨v, hv, rfl⟩ := Option.map_eq_some_iff.1 h
      have hagain : Reader.value d v.tree = some v := Reader.restores_value.again (Nat.zero_le d) hv
      simp [content?, content, hagain]
    | reference =>
      obtain ⟨r, hr, rfl⟩ := Option.map_eq_some_iff.1 h
      simp [content?, content, Reference.restores.again hd hr]
  numbers {d t b} h := by
    cases tag with
    | literal =>
      obtain ⟨v, hv, rfl⟩ := Option.map_eq_some_iff.1 h
      exact Reader.restores_value.numbers hv
    | reference =>
      obtain ⟨r, hr, rfl⟩ := Option.map_eq_some_iff.1 h
      exact Reference.restores.numbers hr

theorem read?_eq_some {d : Nat} {t : Tree} {b : Binding} (h : read? d t = some b) :
    ∃ r u, Record.read? ["type", "content"] d t = some r ∧ r.fields.lookup "content" = some u ∧
      content? b.tag r.depth u = some b := by
  obtain ⟨r, hr, h⟩ := Option.bind_eq_some_iff.1 h
  obtain ⟨tag, -, h⟩ := Option.bind_eq_some_iff.1 h
  have hcontent : r.required "content" (content? tag) = some b := by
    dsimp only at h
    split at h
    · obtain ⟨-, -, h⟩ := Option.bind_eq_some_iff.1 h
      exact h
    · exact h
  obtain ⟨u, hlookup, hu⟩ := Option.bind_eq_some_iff.1 hcontent
  exact ⟨r, u, hr, hlookup, tag_of_content? hu ▸ hu⟩

theorem restores : Reader.Restores read? toJson 2 where
  again {d t b} hd h := by
    obtain ⟨r, u, hr, -, hu⟩ := read?_eq_some h
    obtain ⟨rfl, -⟩ := depth_of_read? hr
    have hcontent := (restores_content b.tag).again (Nat.le_of_succ_le_succ hd) hu
    have hprinted : Record.read? ["type", "content"] (r.depth + 1) b.toJson.tree =
        some ⟨r.depth, [("type", (string b.tag.word).tree), ("content", b.content.tree)]⟩ := by
      rw [toJson_eq]
      exact read?_object r.depth (by simp)
    have htag : Tag.ofWord? b.tag.word = some b.tag := by cases b <;> rfl
    -- the tag is in front, so the content is read under it at once
    simp [read?, hprinted, required, List.lookup_cons, tree, Reader.word, htag, precedes, hcontent]
  numbers {d t b} h := by
    obtain ⟨r, u, hr, hlookup, hu⟩ := read?_eq_some h
    have hsub := List.Subset.trans ((restores_content b.tag).numbers hu) (numbers_of_lookup hlookup)
    rw [toJson_eq, numbers_object]
    simpa [Json.numbers] using List.Subset.trans hsub (depth_of_read? hr).2

end Binding

theorem InputSchema.restores : Reader.Restores read? toJson 3 := by
  refine Record.restores (by decide) ?_ (fun _ => rfl) (fun _ => rfl)
  refine .field type? (restores_optionalText "type") (Nat.zero_le _) fun _ => ?_
  refine .field value? (restores_optional "value" Binding.restores ?_) (Nat.le_refl _) fun _ => ?_
  · simp [Binding.toJson_eq, tree]
  · exact .done ⟨⟨trivial, rfl⟩, rfl⟩

theorem Input.restores : Reader.Restores read? toJson 4 := by
  refine Record.restores (by decide) ?_ (fun _ => rfl) (fun _ => rfl)
  refine .field id? (restores_optionalText "id") (Nat.zero_le _) fun _ => ?_
  refine .field name (restores_required "name" Reader.restores_text) (Nat.zero_le _) fun _ => ?_
  refine .field schema? (restores_optional "schema" InputSchema.restores ?_) (Nat.le_refl _)
    fun _ => ?_
  · simp [InputSchema.toJson, tree]
  · exact .done ⟨⟨⟨trivial, rfl⟩, rfl⟩, rfl⟩

theorem Output.restores : Reader.Restores read? toJson 2 := by
  refine Record.restores (by decide) ?_ (fun _ => rfl) (fun _ => rfl)
  refine .field id? (restores_optionalText "id") (Nat.zero_le _) fun _ => ?_
  refine .field name (restores_required "name" Reader.restores_text) (Nat.zero_le _) fun _ => ?_
  refine .field schema? (restores_optional "schema" Reader.restores_table ?_) (Nat.le_refl _)
    fun _ => ?_
  · simp [Table.toJson, tree]
  refine .field Output.required (restores_defaulted "required" false Reader.restores_bool
    (fun _ _ => rfl) rfl) (Nat.zero_le _) fun _ => ?_
  exact .done ⟨⟨⟨⟨trivial, rfl⟩, rfl⟩, rfl⟩, rfl⟩

theorem Label.restores : Reader.Restores read? toJson 1 := by
  refine Record.restores (by decide) ?_ (fun _ => rfl) (fun _ => rfl)
  refine .field type? (restores_optionalText "nodeType") (Nat.zero_le _) fun _ => ?_
  refine .field alias? (restores_optionalText "aliasName") (Nat.zero_le _) fun _ => ?_
  exact .done ⟨⟨trivial, rfl⟩, rfl⟩

theorem Settings.restores : Reader.Restores read? toJson 6 := by
  refine Record.restores (by decide) ?_ (fun _ => rfl) (fun _ => rfl)
  refine .field inputs (restores_defaulted "inputs" [] Input.restores.list ?_ rfl) (Nat.le_refl _)
    fun _ => ?_
  · exact fun d hd => Reader.list_nil (Nat.le_trans (by decide) hd)
  refine .field label? (restores_optional "nodeMeta" Label.restores ?_) (by decide) fun _ => ?_
  · simp [Label.toJson, tree]
  refine .field params (restores_defaulted "nodeParam" ∅ Reader.restores_table ?_ rfl) (by decide)
    fun _ => ?_
  · exact fun d hd => Reader.table_empty hd
  refine .field outputs (restores_defaulted "outputs" [] Output.restores.list ?_ rfl) (by decide)
    fun _ => ?_
  · exact fun d hd => Reader.list_nil (Nat.le_trans (by decide) hd)
  exact .done ⟨⟨⟨⟨trivial, rfl⟩, rfl⟩, rfl⟩, rfl⟩

/-- Settings about which nothing is stored are printed with two levels of containers. -/
theorem Settings.read?_empty {d : Nat} (hd : 2 ≤ d) :
    read? d (Settings.empty.toJson).tree = some .empty := by
  obtain ⟨d, rfl⟩ := Nat.exists_eq_add_of_le' hd
  rfl

theorem Node.restores : Reader.Restores read? toJson 7 := by
  refine Record.restores (by decide) ?_ (fun _ => rfl) (fun _ => rfl)
  refine .field id (restores_required "id" Reader.restores_text) (Nat.zero_le _) fun _ => ?_
  refine .field settings (restores_defaulted "data" .empty Settings.restores ?_ rfl) (Nat.le_refl _)
    fun _ => ?_
  · exact fun d hd => Settings.read?_empty (Nat.le_trans (by decide) hd)
  exact .done ⟨⟨trivial, rfl⟩, rfl⟩

theorem Edge.restores : Reader.Restores read? toJson 1 := by
  refine Record.restores (by decide) ?_ (fun _ => rfl) (fun _ => rfl)
  refine .field source (restores_required "sourceNodeId" Reader.restores_text) (Nat.zero_le _)
    fun _ => ?_
  refine .field target (restores_required "targetNodeId" Reader.restores_text) (Nat.zero_le _)
    fun _ => ?_
  refine .field handle? (restores_optionalText "sourceHandle") (Nat.zero_le _) fun _ => ?_
  exact .done ⟨⟨⟨trivial, rfl⟩, rfl⟩, rfl⟩

theorem Document.restores : Reader.Restores read? toJson 9 := by
  refine Record.restores (by decide) ?_ (fun _ => rfl) (fun _ => rfl)
  refine .field nodes (restores_defaulted "nodes" [] Node.restores.list ?_ rfl) (Nat.le_refl _)
    fun _ => ?_
  · exact fun d hd => Reader.list_nil (Nat.le_trans (by decide) hd)
  refine .field edges (restores_defaulted "edges" [] Edge.restores.list ?_ rfl) (by decide)
    fun _ => ?_
  · exact fun d hd => Reader.list_nil (Nat.le_trans (by decide) hd)
  exact .done ⟨⟨trivial, rfl⟩, rfl⟩

/-! ## Free-form values -/

/-- The values of a document that may be anything: constants, parameters and the schemas of
outputs. -/
def Binding.freeForm : Binding → List Json
  | literal v => [v]
  | reference _ => []

def Input.freeForm (i : Input) : List Json := i.binding?.toList.flatMap Binding.freeForm

def Output.freeForm (o : Output) : List Json :=
  o.schema?.toList.flatMap fun s => s.entries.map Prod.snd

def Settings.freeForm (s : Settings) : List Json :=
  s.inputs.flatMap Input.freeForm ++ s.params.entries.map Prod.snd
    ++ s.outputs.flatMap Output.freeForm

def Document.freeForm (d : Document) : List Json := d.nodes.flatMap fun n => n.settings.freeForm

@[simp] theorem Json.numbers_string (s : String) : (string s).numbers = [] := rfl

@[simp] theorem Json.numbers_bool (b : Bool) : (bool b).numbers = [] := rfl

@[simp] theorem Json.numbers_ofText? (s? : Option String) : (ofText? s?).numbers = [] := by
  cases s? <;> rfl

@[simp] theorem Json.numbers_ofOption {α : Type} (f : α → Json) (a? : Option α) :
    (ofOption f a?).numbers = a?.toList.flatMap fun a => (f a).numbers := by
  cases a? <;> simp [ofOption, numbers]

@[simp] theorem Table.numbers_toJson (t : Table Json) :
    t.toJson.numbers = t.entries.flatMap fun e => e.2.numbers := numbers_object t.entries

theorem Binding.numbers_toJson (b : Binding) :
    b.toJson.numbers = b.freeForm.flatMap Json.numbers := by
  cases b <;> simp [toJson, Reference.toJson, freeForm]

theorem Input.numbers_toJson (i : Input) : i.toJson.numbers = i.freeForm.flatMap Json.numbers := by
  obtain ⟨id?, name, schema?⟩ := i
  cases schema? with
  | none => simp [toJson, freeForm, binding?]
  | some s =>
    obtain ⟨type?, value?⟩ := s
    cases value? <;> simp [toJson, InputSchema.toJson, freeForm, binding?, Binding.numbers_toJson]

theorem Output.numbers_toJson (o : Output) :
    o.toJson.numbers = o.freeForm.flatMap Json.numbers := by
  obtain ⟨id?, name, schema?, required⟩ := o
  cases schema? <;> simp [toJson, freeForm, List.flatMap_map]

theorem Settings.numbers_toJson (s : Settings) :
    s.toJson.numbers = s.freeForm.flatMap Json.numbers := by
  have hlabel : (ofOption Label.toJson s.label?).numbers = [] := by
    cases s.label? <;> simp [Label.toJson]
  simp [toJson, freeForm, hlabel, List.flatMap_map, List.flatMap_assoc, Input.numbers_toJson,
    Output.numbers_toJson]

/-- Every number of a printed document stands in one of its free-form values. -/
theorem Document.numbers_toJson (d : Document) :
    d.toJson.numbers = d.freeForm.flatMap Json.numbers := by
  simp [toJson, freeForm, Node.toJson, Edge.toJson, List.flatMap_map, List.flatMap_assoc,
    Settings.numbers_toJson]

/-! ## Main statement -/

/-- **Documents round-trip.** A document that has been read from a text, however the text was
written, is read again from its own compact text if its free-form values hold no
floating-point number. So printing what has been read is idempotent. -/
theorem Document.parse?_text {t : String} {d : Document} (h : parse? t = some d)
    (hfree : ∀ v ∈ d.freeForm, ∀ n ∈ v.numbers, n.IsInteger) :
    parse? d.text = some d ∧
      ∀ u, (parse? t).map text = some u → (parse? u).map text = some u := by
  obtain ⟨tree, htree, hread⟩ := Option.bind_eq_some_iff.1 h
  have hexact : Exact d.toJson.numbers := by
    intro n hn
    refine ⟨?_, Tree.fits_of_parse? htree n (restores.numbers hread hn)⟩
    rw [numbers_toJson] at hn
    obtain ⟨v, hv, hn⟩ := List.mem_flatMap.1 hn
    exact hfree v hv n hn
  have hagain : parse? d.text = some d := by
    rw [parse?, decode?, text, Tree.parse?_compact hexact, Option.bind_some]
    exact restores.again (by decide) hread
  refine ⟨hagain, fun u hu => ?_⟩
  obtain rfl : d.text = u := by simpa [h] using hu
  rw [hagain, Option.map_some]

/-- An array with nodes and without edges. One node is the array of its id; the other has a field
that is not known, a content before its tag, and a parameter that is given twice. -/
def Document.loose : String :=
  "[[[\"b\"],\x7b\"x\":[],\"id\":\"a\",\"data\":[[[null,\"q\",[null,\x7b\"content\":[-1]," ++
  "\"type\":\"literal\"\x7d]]],null,\x7b\"k\":1,\"k\":\"\\/\"\x7d]\x7d]]"

theorem Document.parse?_text_loose : ∃ d, parse? loose = some d ∧
    d.nodes.map Node.id = ["b", "a"] ∧ (∀ v ∈ d.freeForm, ∀ n ∈ v.numbers, n.IsInteger) ∧
    parse? d.text = some d := by
  have hread : (parse? loose).any fun d => d.nodes.map Node.id = ["b", "a"] ∧
      d.freeForm.all fun v => v.numbers.all fun n => decide n.IsInteger := by decide +kernel
  obtain ⟨d, h, hd⟩ := (Option.any_eq_true _ _).1 hread
  obtain ⟨hids, hfree⟩ : d.nodes.map Node.id = ["b", "a"] ∧
      ∀ v ∈ d.freeForm, ∀ n ∈ v.numbers, n.IsInteger := by simpa using hd
  exact ⟨d, h, hids, hfree, (parse?_text h hfree).1⟩

end Flowline
