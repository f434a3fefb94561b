import Flowline.Document.Samples
import Flowline.Proofs.Inputs
import Flowline.Proofs.Replay
import Flowline.Run.Script

/-! # What a run says in the end

The last final node of the path speaks for the whole run, wherever it stands on it. It knows the
variables of its own turn: what the run was given and what the nodes before it put out. What comes
after it, or what an earlier final node said, changes nothing. -/

namespace Flowline
open Moment

/-! ## One final node -/

namespace Node

/-- The node is to fill in the template `t`: it does not choose another mode, and `t` is not
empty. -/
def FillsIn (n : Node) (t : String) : Prop :=
  (∀ mode, n.settings.int? "outputMode" = some mode → mode = 1) ∧
    n.settings.text? "template" = some t ∧ t ≠ ""

/-- What a final node says when the variables are `store`. -/
inductive Says (store : Store) (n : Node) : String → Prop
  /-- Its template, filled in. -/
  | filled {t : String} (ht : n.FillsIn t) : Says store n (store.resolve t)
  /-- A line for each name that is bound, in the order of the names. -/
  | listed {bound : List (String × Binding)} (ht : ∀ t, ¬n.FillsIn t)
      (hascending : Entries.Ascending bound)
      (hbound : ∀ name b, (name, b) ∈ bound ↔ n.settings.bound? name = some b) :
      Says store n
        (String.join (bound.map fun e => e.1 ++ ": " ++ (store.value e.2).shown ++ "\n"))

theorem FillsIn.unique {n : Node} {t u : String} (h : n.FillsIn t) (h' : n.FillsIn u) : t = u :=
  Option.some.inj (h.2.1.symm.trans h'.2.1)

theorem finalText_of_fillsIn {n : Node} {t : String} (h : n.FillsIn t) (store : Store)
    (inputs : Table Json) : n.finalText store inputs = store.resolve t := by
  obtain ⟨hmode, htemplate, hne⟩ := h
  have hone : (n.settings.int? "outputMode").getD 1 = 1 := by
    cases hm : n.settings.int? "outputMode" with
    | none => rfl
    | some mode => exact hmode mode hm
  rw [finalText, htemplate]
  exact if_pos ⟨hone, hne⟩

theorem finalText_of_not_fillsIn {n : Node} (h : ∀ t, ¬n.FillsIn t) (store : Store)
    (inputs : Table Json) : n.finalText store inputs = listing inputs := by
  rw [finalText]
  refine if_neg ?_
  rintro ⟨hone, hne⟩
  cases htemplate : n.settings.text? "template" with
  | none => exact hne (by rw [htemplate]; rfl)
  | some t =>
    rw [htemplate] at hne
    refine h t ⟨?_, htemplate, hne⟩
    intro mode hmode
    rwa [hmode] at hone

theorem says_finalText (store : Store) (n : Node) :
    n.Says store (n.finalText store (store.inputs n)) := by
  by_cases h : ∃ t, n.FillsIn t
  · obtain ⟨t, ht⟩ := h
    rw [finalText_of_fillsIn ht]
    exact .filled ht
  · have hnot : ∀ t, ¬n.FillsIn t := not_exists.1 h
    have hbound : ∀ name b, (name, b) ∈ n.settings.bindings.entries ↔
        n.settings.bound? name = some b := by
      intro name b
      rw [← Table.get?_eq_some_iff, Settings.get?_bindings]
    have hheard : n.Says store _ := .listed hnot n.settings.bindings.ascending hbound
    rw [finalText_of_not_fillsIn hnot, listing, Store.entries_inputs, List.map_map]
    exact hheard

theorem Says.det {store : Store} {n : Node} {a b : String} (ha : n.Says store a)
    (hb : n.Says store b) : a = b := by
  cases ha with
  | filled ht =>
    cases hb with
    | filled hu => rw [ht.unique hu]
    | listed hnot => exact absurd ht (hnot _)
  | @listed bound hnot hascending hbound =>
    cases hb with
    | filled hu => exact absurd hu (hnot _)
    | @listed bound' _ hascending' hbound' =>
      -- ascending entries with the same members are the same
      have hsame : bound = bound' := by
        refine Entries.eq_of_find?_eq hascending hascending' fun name => Option.ext fun b => ?_
        rw [Entries.find?_eq_some_iff hascending, Entries.find?_eq_some_iff hascending',
          hbound, hbound']
      rw [hsame]

end Node

/-! ## Along a walk -/

namespace Engine

section Walk

variable {σ : Type} {e : Engine} {initial : Table Json} {peers : Peers σ} {s : σ}

/-- Nodes that are not final leave alone what has been said. -/
theorem final?_of_walk (p : Progress) (hp : p.failure? = none) {path : List Vertex}
    (hpath : ∀ v ∈ path, v.kind? ≠ some .final) :
    ((e.walk initial p path).history peers s).result.final? = p.final? := by
  -- carried along the walk: unless a final node was among those done, nothing new has been said
  obtain ⟨now, later, hsplit, hinv, -⟩ := walk_invariant e initial peers
    (fun done _ q _ => (∀ v ∈ done, v.kind? ≠ some .final) → q.final? = p.final?)
    (fun done ms q s v hq hinv hdone => by
      obtain ⟨hdone, hv⟩ := List.forall_mem_append.1 hdone
      have hv : v.kind? ≠ some .final := hv v List.mem_cons_self
      cases ((e.visit initial q.store v).history peers s).result with
      | error f => exact hinv hdone
      | ok outputs => exact (if_neg hv).trans (hinv hdone))
    path [] [] p s hp fun _ => rfl
  exact hinv fun v hv => hpath v (hsplit ▸ List.mem_append_left later hv)

/-- A walk that succeeds has succeeded at each of its nodes, and goes on from there. -/
theorem history_walk_through {p : Progress} (hp : p.failure? = none) {done later : List Vertex}
    {v : Vertex}
    (hok : ((e.walk initial p (done ++ v :: later)).history peers s).result.failure? = none) :
    let h := (e.walk initial p done).history peers s
    let t := (e.visit initial h.result.store v).history peers h.state
    h.result.failure? = none ∧ ∃ outputs, t.result = .ok outputs ∧
      (e.walk initial p (done ++ v :: later)).history peers s =
        ((e.walk initial (advance h.result v (.ok outputs)) later).history peers t.state).after
          (h.moments ++ t.moments) := by
  dsimp only
  rw [walk_append e initial hp, Job.history_bind, proceed] at hok ⊢
  generalize (e.walk initial p done).history peers s = h at hok ⊢
  split at hok
  · rename_i hfail
    rw [Job.pure_eq, Job.history_done, History.result_after] at hok
    rw [hok] at hfail
    cases hfail
  · rename_i hnone
    have hnone := Option.not_isSome_iff_eq_none.1 hnone
    refine ⟨hnone, ?_⟩
    rw [hnone, if_neg (by simp)]
    rw [history_walk_cons] at hok ⊢
    generalize (e.visit initial h.result.store v).history peers h.state = t at hok ⊢
    obtain ⟨ms, outcome, state⟩ := t
    cases outcome with
    | error f => cases hok
    | ok outputs => exact ⟨outputs, rfl, History.after_after ..⟩

/-- A final node that does not fail puts out what it says. -/
theorem history_visit_final {store : Store} {v : Vertex} {outputs : Table Json}
    (hk : v.kind? = some .final)
    (h : ((e.visit initial store v).history peers s).result = .ok outputs) :
    let text := v.node.finalText store (store.inputs v.node)
    outputs = Table.ofList [(Node.finalOutput, .string text)] ∧
      Moment.events ((e.visit initial store v).history peers s).moments =
        [.nodeStart v.id v.node.typeName, .nodeOutput v.id Node.finalOutput (.string text),
          .nodeEnd v.id v.node.typeName] := by
  have hkind : e.kind v = .ok .final := by
    cases hkind : e.kind v with
    | ok k =>
      obtain ⟨hv, -⟩ := kind_eq_ok_iff.1 hkind
      rw [Option.some.inj (hk.symm.trans hv)]
    | error f =>
      rw [visit, hkind] at h
      cases h
  rw [visit, hkind] at h ⊢
  dsimp only at h ⊢
  rw [Node.history_run] at h ⊢
  cases h
  exact ⟨rfl, rfl⟩

/-- If any node of a path is final, one of them is the last. -/
theorem exists_last_final {path : List Vertex} {v : Vertex} (hv : v ∈ path)
    (hk : v.kind? = some .final) : ∃ done last later, path = done ++ last :: later ∧
      last.kind? = some .final ∧ ∀ w ∈ later, w.kind? ≠ some .final := by
  have hsome : (path.reverse.find? fun w => w.kind? = some .final).isSome := by
    rw [List.find?_isSome]
    exact ⟨v, List.mem_reverse.2 hv, decide_eq_true hk⟩
  obtain ⟨last, hlast⟩ := Option.isSome_iff_exists.1 hsome
  obtain ⟨hfinal, later, done, hsplit, hlater⟩ := List.find?_eq_some_iff_append.1 hlast
  refine ⟨done.reverse, last, later.reverse, ?_, of_decide_eq_true hfinal, ?_⟩
  · simpa using congrArg List.reverse hsplit
  · intro w hw
    simpa using hlater w (List.mem_reverse.1 hw)

variable (e initial peers s) in
/-- The last final node of a walk that succeeds says what is said in the end. -/
theorem walk_said {path done later : List Vertex} {v : Vertex}
    (hsplit : path = done ++ v :: later) (hk : v.kind? = some .final)
    (hlater : ∀ w ∈ later, w.kind? ≠ some .final) {start : Store}
    (hok : ((e.walk initial ⟨start, none, none⟩ path).history peers s).result.failure? = none) :
    let w := (e.walk initial ⟨start, none, none⟩ path).history peers s
    let h := (e.walk initial ⟨start, none, none⟩ done).history peers s
    let text := v.node.finalText h.result.store (h.result.store.inputs v.node)
    h.result.failure? = none ∧ w.result.final? = some text ∧ ∃ es,
      Moment.events w.moments = Moment.events h.moments ++
        [.nodeStart v.id v.node.typeName, .nodeOutput v.id Node.finalOutput (.string text),
          .nodeEnd v.id v.node.typeName] ++ es := by
  rw [hsplit] at hok ⊢
  obtain ⟨hdone, outputs, hout, hthrough⟩ := history_walk_through rfl hok
  obtain ⟨rfl, hevents⟩ := history_visit_final hk hout
  dsimp only at hthrough hevents ⊢
  refine ⟨hdone, ?_, ?_⟩
  · rw [hthrough, History.result_after, final?_of_walk _ rfl hlater]
    exact if_pos hk
  · rw [hthrough, History.moments_after, events_append, events_append, hevents]
    exact ⟨_, rfl⟩

end Walk

end Engine

/-- **The last final node speaks.** A run that succeeds says nothing in the end exactly if no node
of its path is final. Otherwise the last final node says it in its turn, by the variables that the
run was given and that the nodes before it have put out. -/
theorem Engine.final_of_execute {σ : Type} {e : Engine} {g : Graph} {initial : Table Json}
    {peers : Peers σ} {s s' : σ} {report : Report} {es : List Event}
    (h : (e.execute g initial).run peers Sink.record none 0 (s, []) =
      (some (.ok report), s', es)) :
    ∃ path, g.path = .ok path ∧ report.order = path.map Vertex.id ∧
      (report.final? = none ↔ ∀ v ∈ path, v.kind? ≠ some .final) ∧
      ∀ done v later, path = done ++ v :: later → v.kind? = some .final →
        (∀ w ∈ later, w.kind? ≠ some .final) →
        ∃ p s₁ es₁ text es₂, Reaches e initial peers s path done p s₁ es₁ ∧ p.failure? = none ∧
          p.store = (seed initial path).replay (Event.outputs es₁) ∧
          es = es₁ ++ [.nodeStart v.id v.node.typeName,
            .nodeOutput v.id Node.finalOutput (.string text),
            .nodeEnd v.id v.node.typeName] ++ es₂ ∧
          report.final? = some text ∧ ∀ t, v.node.Says p.store t ↔ t = text := by
  cases hpath : g.path with
  | error f =>
    rw [Job.run_record, history_execute_of_error hpath] at h
    cases h
  | ok path =>
    rw [run_execute_eq hpath] at h
    obtain ⟨hr, rfl, rfl⟩ : _ ∧ _ ∧ _ := by
      simpa only [Prod.mk.injEq, Option.some.injEq] using h
    obtain ⟨hok, -⟩ := conclude_eq_ok hr
    rw [conclude, hok] at hr
    obtain rfl := Except.ok.inj hr
    refine ⟨path, rfl, rfl, ⟨fun hnone v hv hk => ?_, final?_of_walk _ rfl⟩, ?_⟩
    · -- with a final node there is a last one, and that one has said something
      obtain ⟨done, last, later, hsplit, hlast, hlater⟩ := exists_last_final hv hk
      obtain ⟨-, hfinal, -⟩ := walk_said e initial peers s hsplit hlast hlater hok
      cases hnone.symm.trans hfinal
    · intro done v later hsplit hk hlater
      obtain ⟨hdone, hfinal, es₂, hes⟩ := walk_said e initial peers s hsplit hk hlater hok
      refine ⟨_, _, _, _, es₂, Job.run_record .., hdone, ?_, ?_, hfinal, fun t => ?_⟩
      · exact store_of_walk e initial peers done (seed initial path) s
      · rw [List.nil_append]
        exact hes
      · exact ⟨fun ht => ht.det (v.node.says_finalText _), fun ht => ht ▸ v.node.says_finalText _⟩

/-- Two final nodes, and one more node behind them. The second final node lists a name that is
declared twice, the later time without a binding, and one that is bound to a later node. -/
def Samples.twoVoices : Document where
  nodes := [node startId [] [], node "end::a" [("template", .string "first")] [],
    ⟨"end::b", ⟨[bound "y" llmId "output", constant "x" (.int 1), ⟨none, "x", none⟩], none,
      .ofList [("outputMode", .int 2), ("template", .string "second")], []⟩⟩,
    node llmId [("prompt", .string "hi")] [output "output"]]
  edges := [edge startId "end::a", edge "end::a" "end::b", edge "end::b" llmId]

theorem ok_of_toOption {ε α : Type} {r : Except ε α} {a : α} (h : r.toOption = some a) :
    r = .ok a := by
  cases r with
  | error => cases h
  | ok b => exact congrArg Except.ok (Option.some.inj h)

/-- Among peers that greet, a run of the document succeeds, and the last final node says the text
by the variables of its own turn. -/
def Document.EndsBySaying (d : Document) (initial : Table Json) (text : String) : Prop :=
  ∃ g report s' es, Graph.ofDocument d = .ok g ∧
    ((Engine.standard default).execute g initial).run Script.peers Sink.record none 0
      (.replying "hello", []) = (some (.ok report), s', es) ∧ report.final? = some text ∧
    ∃ path done v later p s₁ es₁, g.path = .ok path ∧ path = done ++ v :: later ∧
      v.kind? = some .final ∧ (∀ w ∈ later, w.kind? ≠ some .final) ∧
      Engine.Reaches (.standard default) initial Script.peers (.replying "hello") path done p s₁
        es₁ ∧ v.node.Says p.store text

/-- One run fills in a template from what an earlier node has put out, one lists names. -/
theorem Engine.final_of_execute_filled_and_listed :
    Samples.literalChain.EndsBySaying (.ofList [("name", .string "Ada")]) "<hello>" ∧
      Samples.twoVoices.EndsBySaying ∅ "x: 1\ny: \n" := by
  have hends : ∀ (d : Document) initial text, ((Graph.ofDocument d).toOption.any fun g =>
      (((standard default).execute g initial).run Script.peers Sink.record none 0
        (.replying "hello", [])).1.any fun r => r.toOption.any fun report =>
          report.final? = some text) → d.EndsBySaying initial text := by
    intro d initial text hall
    obtain ⟨g, hg, hall⟩ := (Option.any_eq_true _ _).1 hall
    obtain ⟨r, hr, hall⟩ := (Option.any_eq_true _ _).1 hall
    obtain ⟨report, hreport, hfinal⟩ := (Option.any_eq_true _ _).1 hall
    obtain rfl : r = .ok report := ok_of_toOption hreport
    have hrun : ((standard default).execute g initial).run Script.peers Sink.record none 0
        (.replying "hello", []) = (some (.ok report), _, _) := Prod.ext hr rfl
    obtain ⟨path, hpath, -, hnone, hlast⟩ := final_of_execute hrun
    have hfinal : report.final? = some text := of_decide_eq_true hfinal
    have hsome : ∃ v ∈ path, v.kind? = some .final := by
      by_contra hno
      rw [hnone.2 fun v hv hk => hno ⟨v, hv, hk⟩] at hfinal
      cases hfinal
    obtain ⟨w, hw, hk⟩ := hsome
    obtain ⟨done, v, later, hsplit, hv, hlater⟩ := exists_last_final hw hk
    obtain ⟨p, s₁, es₁, said, es₂, hreach, -, -, -, htext, hheard⟩ :=
      hlast done v later hsplit hv hlater
    refine ⟨g, report, _, _, ok_of_toOption hg, hrun, hfinal, path, done, v, later, p, s₁, es₁,
      hpath, hsplit, hv, hlater, hreach, ?_⟩
    exact (hheard _).2 (Option.some.inj (hfinal.symm.trans htext))
  exact ⟨hends _ _ _ (by decide +kernel), hends _ _ _ (by decide +kernel)⟩

end Flowline
