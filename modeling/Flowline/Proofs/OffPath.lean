import Flowline.Proofs.Route
import Flowline.Run.Engine

/-! # What lies off the path

A run sees no more of a graph than its path. Of two graphs with one first start node that
agree at the nodes of a path of the one, both have that path, and runs of them are the
same job. What agreement asks for is that the node is in both graphs, and that its first
edge leads to the same id, to a node in both graphs or in neither. -/

namespace Flowline

namespace Graph

/-- Where the first edge that leaves `v` points. -/
def target? (g : Graph) (v : Vertex) : Option String :=
  (g.edges.find? (·.source = v.id)).map Edge.target

/-- Some node has the id. -/
def Has (g : Graph) (id : String) : Prop := ∃ v ∈ g.vertices, v.id = id

instance (g : Graph) (id : String) : Decidable (g.Has id) :=
  inferInstanceAs (Decidable (∃ v ∈ g.vertices, v.id = id))

/-- The node `v` of `g` is in `h` too, and the way on from it is the same there. -/
structure AgreesAt (g h : Graph) (v : Vertex) : Prop where
  mem : v ∈ h.vertices
  target : h.target? v = g.target? v
  found : ∀ id, g.target? v = some id → (g.Has id ↔ h.Has id)

variable {g h : Graph}

theorem leads_iff {v w : Vertex} :
    g.Leads v w ↔ g.target? v = some w.id ∧ w ∈ g.vertices := by
  unfold Leads target?
  constructor
  · rintro ⟨e, he, hw, hid⟩
    rw [he, Option.map_some, hid]
    exact ⟨rfl, hw⟩
  · rintro ⟨ht, hw⟩
    obtain ⟨e, he, hid⟩ := Option.map_eq_some_iff.1 ht
    exact ⟨e, he, hw, hid.symm⟩

theorem stuck_iff {ids : List String} {v : Vertex} :
    g.Stuck ids v ↔ ∀ id, g.target? v = some id → ¬ g.Has id ∨ id ∈ ids := by
  unfold Stuck target? Has
  constructor
  · intro hs id ht
    obtain ⟨e, he, rfl⟩ := Option.map_eq_some_iff.1 ht
    refine (hs e he).imp_left ?_
    rintro hno ⟨w, hw, hid⟩
    exact hno w hw hid
  · intro hs e he
    refine (hs e.target (by rw [he, Option.map_some])).imp_left ?_
    intro hno w hw hid
    exact hno ⟨w, hw, hid⟩

theorem path_eq_error_iff_start? {f : Failure} :
    g.path = .error f ↔ f = .noStart ∧ g.start? = none := by
  have hnone : g.start? = none ↔ ∀ v ∈ g.vertices, v.kind? ≠ some .start := by
    simp [start?, List.find?_eq_none]
  rw [path_eq_error_iff, hnone]

/-- A step between two nodes at which the graphs agree is a step in both. -/
theorem Leads.transfer {v w : Vertex} (hl : g.Leads v w) (hv : AgreesAt g h v)
    (hw : AgreesAt g h w) : h.Leads v w := by
  rw [leads_iff] at hl ⊢
  exact ⟨hv.target.trans hl.1, hw.mem⟩

/-- Where a way ends in the one graph it ends in the other. -/
theorem Stuck.transfer {ids : List String} {v : Vertex} (hs : g.Stuck ids v)
    (hv : AgreesAt g h v) : h.Stuck ids v := by
  rw [stuck_iff] at hs ⊢
  intro id ht
  rw [hv.target] at ht
  refine (hs id ht).imp_left ?_
  exact mt (hv.found id ht).2

theorem IsRoute.transfer {route : List Vertex} (hr : g.IsRoute route)
    (hstart : h.start? = g.start?) (hag : ∀ v ∈ route, AgreesAt g h v) : h.IsRoute route where
  first := by
    obtain ⟨v, hv, hhead⟩ := hr.first
    exact ⟨v, hstart.trans hv, hhead⟩
  steps := by
    refine hr.steps.imp_of_mem_imp ?_
    intro v w hv hw hl
    exact hl.transfer (hag v hv) (hag w hw)
  distinct := hr.distinct
  maximal := by
    intro v hv
    exact (hr.maximal v hv).transfer (hag v (List.mem_of_getLast? hv))

end Graph

namespace Engine

/-- The job of a run is told by the path. -/
theorem execute_congr {g h : Graph} (hpath : h.path = g.path) (e : Engine) (initial : Table Json) :
    e.execute h initial = e.execute g initial := by
  unfold execute
  rw [hpath]

end Engine

namespace Graph

/-- **Off the path.** If two accepted graphs have the same first start node and agree at every node
of the path of the one, they have the same path, and any engine makes the same job of a run of
either, whatever it is given: the same reports, the same questions after the same answers, and the
same result in the end. -/
theorem execute_off_path {d d' : Document} {g h : Graph} (hg : ofDocument d = .ok g)
    (hh : ofDocument d' = .ok h) (hstart : h.start? = g.start?)
    (hag : ∀ route, g.path = .ok route → ∀ v ∈ route, AgreesAt g h v) :
    h.path = g.path ∧
    ∀ (e : Engine) (initial : Table Json), e.execute h initial = e.execute g initial := by
  have hlg := (checked_of_ofDocument hg).1.located
  have hlh := (checked_of_ofDocument hh).1.located
  have hpath : h.path = g.path := by
    cases hp : g.path with
    | error f =>
      obtain ⟨hf, hnone⟩ := path_eq_error_iff_start?.1 hp
      exact path_eq_error_iff_start?.2 ⟨hf, hstart.trans hnone⟩
    | ok route =>
      have hroute := (path_eq_ok_iff hlg).1 hp
      exact (path_eq_ok_iff hlh).2 (hroute.transfer hstart (hag route hp))
  exact ⟨hpath, Engine.execute_congr hpath⟩

/-- A start node, an end node, and an edge to nowhere. -/
def bare : Document where
  nodes := [⟨"start", .empty⟩, ⟨"end", .empty⟩]
  edges := [⟨"start", "end", none⟩, ⟨"end", "gone", none⟩]

/-- The same among a node of unknown type, a later start node and edges that are not the first. -/
def crowded : Document where
  nodes := [⟨"unknown", .empty⟩, ⟨"end", .empty⟩, ⟨"start", .empty⟩, ⟨"node-start::2", .empty⟩]
  edges := [⟨"unknown", "start", none⟩, ⟨"end", "gone", none⟩, ⟨"start", "end", none⟩,
    ⟨"start", "unknown", none⟩, ⟨"node-start::2", "end", none⟩, ⟨"end", "start", none⟩]

theorem execute_crowded : ∃ g h first last, ofDocument bare = .ok g ∧ ofDocument crowded = .ok h ∧
    g.path = .ok [first, last] ∧ h.start? = g.start? ∧
    (∀ v ∈ [first, last], AgreesAt g h v) ∧ h.path = g.path ∧
    ∀ (e : Engine) (initial : Table Json), e.execute h initial = e.execute g initial := by
  let first : Vertex := ⟨⟨"start", .empty⟩, some .start⟩
  let last : Vertex := ⟨⟨"end", .empty⟩, some .final⟩
  let g : Graph := ⟨[first, last], .ofList [("start", 0), ("end", 1)], bare.edges⟩
  let h : Graph := ⟨
    [⟨⟨"unknown", .empty⟩, none⟩, last, first, ⟨⟨"node-start::2", .empty⟩, some .start⟩],
    .ofList [("unknown", 0), ("end", 1), ("start", 2), ("node-start::2", 3)], crowded.edges⟩
  have hg : ofDocument bare = .ok g := rfl
  have hh : ofDocument crowded = .ok h := rfl
  have hroute : g.IsRoute [first, last] := {
    first := ⟨first, rfl, rfl⟩
    steps := .cons_cons (leads_iff.2 ⟨rfl, by simp [g]⟩) (.singleton _)
    distinct := by decide
    maximal := by
      rintro v ⟨⟩
      refine stuck_iff.2 ?_
      rintro id ⟨⟩
      exact .inl (by decide) }
  have hpath := (path_eq_ok_iff (checked_of_ofDocument hg).1.located).2 hroute
  have hag : ∀ v ∈ [first, last], AgreesAt g h v := by
    intro v hv
    rcases List.mem_pair.mp hv with rfl | rfl
    · refine ⟨by simp [h], rfl, ?_⟩
      rintro id ⟨⟩
      decide
    · refine ⟨by simp [h], rfl, ?_⟩
      rintro id ⟨⟩
      decide
  refine ⟨g, h, first, last, hg, hh, hpath, rfl, hag, execute_off_path hg hh rfl ?_⟩
  intro route hroute
  rw [Except.ok.inj (hroute.symm.trans hpath)]
  exact hag

end Graph

end Flowline
