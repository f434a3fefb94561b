import Flowline.Proofs.Lookup
import Flowline.Store

/-! # The inputs of a node

An input may be declared several times, and not every declaration is bound. What counts for a name
is the last one that is. It is known before any variable is: the variables only give the value of
its binding, and a reference to nothing has a value too, so a name is among the inputs of a node
exactly if one of its declarations is bound. -/

namespace Flowline

/-! ## Declarations -/

namespace Settings

/-- What the last bound declaration of a name is bound to. -/
def bound? (s : Settings) (name : String) : Option Binding :=
  s.inputs.reverse.findSome? fun i => if i.name = name then i.binding? else none

theorem bound?_eq_some_iff {s : Settings} {name : String} {b : Binding} :
    s.bound? name = some b ↔ ∃ before i after, s.inputs = before ++ i :: after ∧ i.name = name ∧
      i.binding? = some b ∧ ∀ j ∈ after, j.name = name → j.binding? = none := by
  rw [bound?, List.findSome?_eq_some_iff]
  constructor
  · rintro ⟨after, i, before, hsplit, hi, hafter⟩
    obtain ⟨hname, hb⟩ := Option.ite_none_right_eq_some.1 hi
    refine ⟨before.reverse, i, after.reverse, ?_, hname, hb, fun j hj hjname => ?_⟩
    · simpa using congrArg List.reverse hsplit
    · simpa [hjname] using hafter j (List.mem_reverse.1 hj)
  · rintro ⟨before, i, after, hsplit, hname, hb, hafter⟩
    refine ⟨after.reverse, i, before.reverse, by simp [hsplit], by rw [if_pos hname, hb], ?_⟩
    intro j hj
    split
    · exact hafter j (List.mem_reverse.1 hj) ‹_›
    · rfl

theorem bound?_eq_none_iff {s : Settings} {name : String} :
    s.bound? name = none ↔ ∀ i ∈ s.inputs, i.name = name → i.binding? = none := by
  simp [bound?, List.findSome?_eq_none_iff]

/-- The names that are bound, in order, with what counts for each. -/
def bindings (s : Settings) : Table Binding :=
  Table.ofList (s.inputs.filterMap fun i => i.binding?.map fun b => (i.name, b))

/-- A table of something made of each binding has an entry for each name that is bound. -/
theorem get?_ofList_inputs {α : Type} (f : Binding → α) (s : Settings) (name : String) :
    (Table.ofList (s.inputs.filterMap fun i => i.binding?.map fun b => (i.name, f b))).get? name =
      (s.bound? name).map f := by
  rw [Table.ofList, Table.get?_insertAll, ← List.filterMap_reverse, bound?]
  induction s.inputs.reverse with
  | nil => rfl
  | cons i r ih =>
    rw [List.findSome?_cons]
    cases hb : i.binding? with
    | none => simpa [hb] using ih
    | some b =>
      by_cases hi : i.name = name
      · simp [hb, hi]
      · simpa [hb, hi] using ih

theorem get?_bindings (s : Settings) (name : String) : s.bindings.get? name = s.bound? name := by
  have h := get?_ofList_inputs id s name
  rwa [Option.map_id, id] at h

end Settings

/-! ## Values -/

namespace Store

theorem get?_inputs (store : Store) (n : Node) (name : String) :
    (store.inputs n).get? name = (n.settings.bound? name).map store.value :=
  Settings.get?_ofList_inputs store.value n.settings name

/-- The inputs of a node are its bindings, each with its value in its place. -/
theorem entries_inputs (store : Store) (n : Node) :
    (store.inputs n).entries = n.settings.bindings.entries.map fun e => (e.1, store.value e.2) := by
  refine Entries.eq_of_find?_eq (store.inputs n).ascending
    (Entries.ascending_map _ n.settings.bindings.ascending) fun name => ?_
  rw [Entries.find?_map]
  calc Entries.find? name (store.inputs n).entries
    _ = (n.settings.bound? name).map store.value := get?_inputs store n name
    _ = (n.settings.bindings.get? name).map store.value := by rw [Settings.get?_bindings]

end Store

end Flowline
