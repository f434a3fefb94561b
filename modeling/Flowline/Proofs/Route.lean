import Flowline.Proofs.Index
import Mathlib.Data.List.Chain

/-! # The path of a run, characterized

From the first start node along the first edge that leaves each node, no node
twice, and as far as that goes: an accepted graph has exactly one such list of
nodes if it has a start node at all, and `path` computes it. The visited ids of
`pathFrom` are what its induction carries; they disappear from the statement. -/

namespace Flowline.Graph

/-- The first edge that leaves `v` leads to the node `w`. -/
def Leads (g : Graph) (v w : Vertex) : Prop :=
  ∃ e, g.edges.find? (·.source = v.id) = some e ∧ w ∈ g.vertices ∧ w.id = e.target

/-- No edge leaves `v`, or the first one leads to no node or back to one of `ids`. -/
def Stuck (g : Graph) (ids : List String) (v : Vertex) : Prop :=
  ∀ e, g.edges.find? (·.source = v.id) = some e →
    (∀ w ∈ g.vertices, w.id ≠ e.target) ∨ e.target ∈ ids

/-- A way through a graph that cannot be extended. -/
structure IsRoute (g : Graph) (route : List Vertex) : Prop where
  first : ∃ v, g.vertices.find? (·.kind? = some .start) = some v ∧ route.head? = some v
  steps : route.IsChain g.Leads
  distinct : (route.map Vertex.id).Nodup
  maximal : ∀ v, route.getLast? = some v → g.Stuck (route.map Vertex.id) v

/-! ## One step -/

theorem next?_eq_some_iff {g : Graph} (hl : Located g.vertices g.index) {v w : Vertex} :
    g.next? v = some w ↔ g.Leads v w := by
  unfold next? outgoing Leads
  rw [List.head?_filter, Option.bind_eq_some_iff]
  constructor
  · rintro ⟨e, he, hw⟩
    exact ⟨e, he, (vertex?_eq_some_iff hl).1 hw⟩
  · rintro ⟨e, he, hw⟩
    exact ⟨e, he, (vertex?_eq_some_iff hl).2 hw⟩

theorem Leads.unique {g : Graph} (hl : Located g.vertices g.index) {v w u : Vertex}
    (hw : g.Leads v w) (hu : g.Leads v u) : w = u := by
  have hw' := (next?_eq_some_iff hl).2 hw
  rw [(next?_eq_some_iff hl).2 hu] at hw'
  exact (Option.some.inj hw').symm

/-- Without a next node there is nothing new to come. -/
theorem stuck_of_next?_eq_none {g : Graph} (hl : Located g.vertices g.index) {v : Vertex}
    (h : g.next? v = none) (ids : List String) : g.Stuck ids v := by
  intro e he
  left
  intro w hw heq
  rw [(next?_eq_some_iff hl).2 ⟨e, he, hw, heq⟩] at h
  contradiction

/-! ## The path is a route -/

theorem pathFrom_eq_nil {g : Graph} {visited : List String} {v : Vertex} {hv : v ∈ g.vertices}
    (h : v.id ∈ visited) : g.pathFrom visited v hv = [] := by
  rw [pathFrom, dif_pos h]

theorem head?_pathFrom {g : Graph} {visited : List String} {v : Vertex} {hv : v ∈ g.vertices}
    (h : v.id ∉ visited) : (g.pathFrom visited v hv).head? = some v := by
  rw [pathFrom, dif_neg h]
  split <;> rfl

theorem path_of_start? {g : Graph} {first : Vertex} (h : g.start? = some first) :
    ∃ rest, g.path = .ok (first :: rest) := by
  unfold path
  split
  · rename_i hnone
    cases hnone.symm.trans h
  · rename_i v hv
    obtain rfl := Option.some.inj (hv.symm.trans h)
    obtain ⟨rest, hrest⟩ := List.head?_eq_some_iff.1 (head?_pathFrom List.not_mem_nil)
    exact ⟨rest, congrArg Except.ok hrest⟩

theorem pathFrom_steps {g : Graph} (hl : Located g.vertices g.index) (visited : List String)
    (v : Vertex) (hv : v ∈ g.vertices) : (g.pathFrom visited v hv).IsChain g.Leads := by
  fun_induction pathFrom g visited v hv with
  | case1 => exact .nil
  | case2 => exact .singleton _
  | case3 visited v hv h w hn ih =>
    refine List.isChain_cons.2 ⟨?_, ih⟩
    intro u hu
    by_cases hw : w.id ∈ v.id :: visited
    · rw [pathFrom_eq_nil hw] at hu
      cases hu
    · rw [head?_pathFrom hw] at hu
      obtain rfl := Option.some.inj hu
      exact (next?_eq_some_iff hl).1 hn

/-- The path keeps away from the nodes visited before. -/
theorem id_notMem_of_mem_pathFrom {g : Graph} {visited : List String} {v : Vertex}
    {hv : v ∈ g.vertices} {u : Vertex} (hu : u ∈ g.pathFrom visited v hv) : u.id ∉ visited := by
  fun_induction pathFrom g visited v hv with
  | case1 => cases hu
  | case2 visited v hv h hn =>
    rw [List.mem_singleton.mp hu]
    exact h
  | case3 visited v hv h w hn ih =>
    rcases List.mem_cons.mp hu with rfl | hu
    · exact h
    · exact fun hm => ih hu (List.mem_cons_of_mem _ hm)

theorem pathFrom_distinct (g : Graph) (visited : List String) (v : Vertex)
    (hv : v ∈ g.vertices) : ((g.pathFrom visited v hv).map Vertex.id).Nodup := by
  fun_induction pathFrom g visited v hv with
  | case1 => exact List.nodup_nil
  | case2 => simp
  | case3 visited v hv h w hn ih =>
    refine List.nodup_cons.2 ⟨?_, ih⟩
    intro hm
    obtain ⟨u, hu, heq⟩ := List.mem_map.mp hm
    exact id_notMem_of_mem_pathFrom hu (heq ▸ List.mem_cons_self)

theorem pathFrom_maximal {g : Graph} (hl : Located g.vertices g.index) {visited : List String}
    {v : Vertex} {hv : v ∈ g.vertices} {u : Vertex}
    (hu : (g.pathFrom visited v hv).getLast? = some u) :
    g.Stuck (visited ++ (g.pathFrom visited v hv).map Vertex.id) u := by
  fun_induction pathFrom g visited v hv with
  | case1 => cases hu
  | case2 visited v hv h hn =>
    obtain rfl : v = u := by simpa using hu
    exact stuck_of_next?_eq_none hl hn _
  | case3 visited v hv h w hn ih =>
    by_cases hw : w.id ∈ v.id :: visited
    · -- the next node has been visited, so the path ends here
      rw [pathFrom_eq_nil hw] at hu ⊢
      obtain rfl : v = u := by simpa using hu
      intro e he
      obtain ⟨e', he', _, hid⟩ := (next?_eq_some_iff hl).1 hn
      obtain rfl := Option.some.inj (he.symm.trans he')
      right
      rw [← hid]
      simpa [or_comm] using hw
    · have hne : g.pathFrom (v.id :: visited) w (mem_of_next? hn) ≠ [] := by
        intro hnil
        have hh : (g.pathFrom (v.id :: visited) w (mem_of_next? hn)).head? = some w :=
          head?_pathFrom hw
        rw [hnil] at hh
        cases hh
      rw [List.getLast?_cons, List.getLast?_eq_some_getLast hne, Option.getD_some] at hu
      intro e he
      rcases ih (List.getLast?_eq_some_getLast hne |>.trans hu) e he with hs | hs
      · exact .inl hs
      · right
        simpa [or_comm, or_assoc, or_left_comm] using hs

theorem isRoute_of_path {g : Graph} (hl : Located g.vertices g.index) {route : List Vertex}
    (h : g.path = .ok route) : g.IsRoute route := by
  unfold path at h
  split at h
  · cases h
  · rename_i v hs
    obtain rfl := Except.ok.inj h
    have hv := mem_of_start? hs
    exact {
      first := ⟨v, hs, head?_pathFrom List.not_mem_nil⟩
      steps := pathFrom_steps hl [] v hv
      distinct := pathFrom_distinct g [] v hv
      maximal := fun u hu => pathFrom_maximal hl hu }

/-! ## There is only one route -/

/-- Where a step has one outcome at most, of two chains from one start the shorter is
the beginning of the longer. -/
theorem prefix_or_prefix_of_isChain {α : Type} {R : α → α → Prop}
    (hR : ∀ a b c, R a b → R a c → b = c) {a : α} {l m : List α}
    (hl : (a :: l).IsChain R) (hm : (a :: m).IsChain R) : l <+: m ∨ m <+: l := by
  induction l generalizing a m with
  | nil => exact .inl List.nil_prefix
  | cons b l ih =>
    cases m with
    | nil => exact .inr List.nil_prefix
    | cons c m =>
      obtain ⟨hb, hl⟩ := List.isChain_cons_cons.1 hl
      obtain ⟨hc, hm⟩ := List.isChain_cons_cons.1 hm
      obtain rfl := hR a b c hb hc
      rcases ih hl hm with h | h
      · exact .inl ((List.prefix_cons_inj b).2 h)
      · exact .inr ((List.prefix_cons_inj b).2 h)

/-- Nothing can be added to a route: the next node is none, or would come twice. -/
theorem IsRoute.eq_of_prefix {g : Graph} {r r' : List Vertex} (h : g.IsRoute r)
    (h' : g.IsRoute r') (hp : r <+: r') : r = r' := by
  obtain ⟨rest, rfl⟩ := hp
  cases rest with
  | nil => rw [List.append_nil]
  | cons w rest =>
    obtain ⟨v, _, hv⟩ := h.first
    have hne : r ≠ [] := by
      intro hnil
      rw [hnil] at hv
      cases hv
    have hlast := List.getLast?_eq_some_getLast hne
    obtain ⟨e, he, hw, hid⟩ := (List.isChain_append.1 h'.steps).2.2 _ hlast w rfl
    rcases h.maximal _ hlast e he with hs | hs
    · exact absurd hid (hs w hw)
    · have hd := h'.distinct
      rw [List.map_append, List.map_cons, List.nodup_append] at hd
      exact absurd hid.symm (hd.2.2 _ hs _ List.mem_cons_self)

theorem IsRoute.unique {g : Graph} (hl : Located g.vertices g.index) {r r' : List Vertex}
    (h : g.IsRoute r) (h' : g.IsRoute r') : r = r' := by
  obtain ⟨v, hv, hr⟩ := h.first
  obtain ⟨v', hv', hr'⟩ := h'.first
  obtain rfl := Option.some.inj (hv.symm.trans hv')
  obtain ⟨t, rfl⟩ := List.head?_eq_some_iff.1 hr
  obtain ⟨t', rfl⟩ := List.head?_eq_some_iff.1 hr'
  have hfun : ∀ a b c, g.Leads a b → g.Leads a c → b = c := fun _ _ _ => Leads.unique hl
  rcases prefix_or_prefix_of_isChain hfun h.steps h'.steps with hp | hp
  · exact h.eq_of_prefix h' ((List.prefix_cons_inj v).2 hp)
  · exact (h'.eq_of_prefix h ((List.prefix_cons_inj v).2 hp)).symm

theorem path_eq_ok_iff {g : Graph} (hl : Located g.vertices g.index) {route : List Vertex} :
    g.path = .ok route ↔ g.IsRoute route := by
  constructor
  · exact isRoute_of_path hl
  · intro h
    cases hp : g.path with
    | ok r => rw [(isRoute_of_path hl hp).unique hl h]
    | error f =>
      obtain ⟨v, hv, _⟩ := h.first
      have hstart := List.find?_some hv
      exact absurd (by simpa using hstart)
        ((path_eq_error_iff.1 hp).2 v (List.mem_of_find?_eq_some hv))

/-- **The path of an accepted document.** Its graph has the nodes of the document,
in order and each with its kind, and the edges of the document. There is no path
exactly if no node is a start node; otherwise the path is the only route. -/
theorem path_of_accepted {d : Document} {g : Graph} (h : ofDocument d = .ok g) :
    (g.vertices.map Vertex.node = d.nodes ∧ (∀ v ∈ g.vertices, v.node.kind = .ok v.kind?) ∧
      g.edges = d.edges) ∧
    (∀ f, g.path = .error f ↔ f = .noStart ∧ ∀ v ∈ g.vertices, v.kind? ≠ some .start) ∧
    ((∃ v ∈ g.vertices, v.kind? = some .start) →
      ∃ route, g.path = .ok route ∧ ∀ r, g.IsRoute r ↔ r = route) := by
  obtain ⟨hc, he⟩ := checked_of_ofDocument h
  refine ⟨⟨hc.nodes_eq, hc.kinds, he⟩, fun f => path_eq_error_iff, ?_⟩
  rintro ⟨v, hv, hk⟩
  cases hp : g.path with
  | error f => exact absurd hk ((path_eq_error_iff.1 hp).2 v hv)
  | ok route =>
    refine ⟨route, rfl, fun r => ?_⟩
    rw [← path_eq_ok_iff hc.located, hp, Except.ok.injEq]
    exact eq_comm

/-- A start node behind another node, a second one off the path, two edges from the
first, and one edge back to it. -/
def turning : Document where
  nodes := [⟨"node-llm::a", .empty⟩, ⟨"start::1", .empty⟩, ⟨"node-start::2", .empty⟩]
  edges := [⟨"start::1", "node-llm::a", none⟩, ⟨"start::1", "node-start::2", none⟩,
    ⟨"node-llm::a", "start::1", none⟩]

def turningGraph : Graph where
  vertices := [⟨⟨"node-llm::a", .empty⟩, some .llm⟩, ⟨⟨"start::1", .empty⟩, some .start⟩,
    ⟨⟨"node-start::2", .empty⟩, some .start⟩]
  index := .ofList [("node-llm::a", 0), ("start::1", 1), ("node-start::2", 2)]
  edges := turning.edges

theorem path_turning : ofDocument turning = .ok turningGraph ∧ turningGraph.path =
    .ok [⟨⟨"start::1", .empty⟩, some .start⟩, ⟨⟨"node-llm::a", .empty⟩, some .llm⟩] := by
  have h : ofDocument turning = .ok turningGraph := rfl
  obtain ⟨route, hp, hr⟩ :=
    (path_of_accepted h).2.2 ⟨⟨⟨"start::1", .empty⟩, some .start⟩, by simp [turningGraph], rfl⟩
  have hroute : turningGraph.IsRoute
      [⟨⟨"start::1", .empty⟩, some .start⟩, ⟨⟨"node-llm::a", .empty⟩, some .llm⟩] := {
    first := ⟨_, rfl, rfl⟩
    steps := .cons_cons ⟨_, rfl, by simp [turningGraph], rfl⟩ (.singleton _)
    distinct := by decide
    maximal := by
      rintro v hv e he
      cases hv
      cases he
      exact .inr (by decide) }
  exact ⟨h, by rw [hp, (hr _).1 hroute]⟩

end Flowline.Graph
