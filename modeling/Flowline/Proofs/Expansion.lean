import Flowline.Config.Basic
import Mathlib.Data.List.TakeWhile

/-! # Variables in the text of a configuration

A text is expanded run by run. Literal runs stay as they are, closed references stand for what their
variables hold, and nothing that was put in is looked at again. An opening behind which no brace
closes is taken for a reference that reaches to the end. So a text that refers to no variable that
is set stays as it is if all its openings are closed, and otherwise gets a closing brace at its
end. -/

namespace Flowline

namespace Environment

/-! ## Runs and references -/

/-- A text in which no reference starts. -/
def IsRun (cs : List Char) : Prop := ¬ ['$', '\x7b'] <:+: cs

/-- A reference starts with the first character of a text. -/
def Opens (c : Char) (r : List Char) : Prop := c = '$' ∧ r.head? = some '\x7b'

instance (cs : List Char) : Decidable (IsRun cs) := inferInstanceAs (Decidable (¬ _))

theorem opens_iff {c : Char} {r : List Char} : Opens c r ↔ ['$', '\x7b'] <+: c :: r := by
  cases r with
  | nil => simp [Opens]
  | cons d r => simp [Opens, List.cons_prefix_cons, eq_comm]

theorem isRun_cons {c : Char} {r : List Char} : IsRun (c :: r) ↔ ¬ Opens c r ∧ IsRun r := by
  rw [IsRun, List.infix_cons_iff, not_or, opens_iff]
  rfl

theorem Opens.exists_eq {c : Char} {r : List Char} (h : Opens c r) :
    ∃ r', c :: r = '$' :: '\x7b' :: r' := by
  obtain ⟨rfl, hr⟩ := h
  obtain ⟨r', rfl⟩ := List.head?_eq_some_iff.1 hr
  exact ⟨r', rfl⟩

theorem decide_ne_brace {name : List Char} (h : '\x7d' ∉ name) :
    ∀ c ∈ name, decide (c ≠ '\x7d') = true := by
  intro c hc
  exact decide_eq_true fun heq => h (heq ▸ hc)

/-- Where a name ends, and what follows the brace behind it. -/
theorem scan_name {name : List Char} (h : '\x7d' ∉ name) (s : List Char) :
    (name ++ '\x7d' :: s).takeWhile (· ≠ '\x7d') = name ∧
      ((name ++ '\x7d' :: s).dropWhile (· ≠ '\x7d')).drop 1 = s := by
  rw [List.takeWhile_append_of_pos (decide_ne_brace h),
    List.dropWhile_append_of_pos (decide_ne_brace h)]
  simp

theorem scan_open_name {name : List Char} (h : '\x7d' ∉ name) :
    name.takeWhile (· ≠ '\x7d') = name ∧ (name.dropWhile (· ≠ '\x7d')).drop 1 = [] := by
  rw [List.takeWhile_eq_self_iff.2 (decide_ne_brace h),
    List.dropWhile_eq_nil_iff.2 (decide_ne_brace h)]
  simp

theorem reference_append (name r : List Char) :
    reference name ++ r = '$' :: '\x7b' :: (name ++ '\x7d' :: r) := by
  simp [reference]

/-- A text is read character by character, each closed reference at once, and an opening that is not
closed together with all that follows it. -/
@[elab_as_elim]
theorem scan_induction {P : List Char → Prop} (cs : List Char) (nil : P [])
    (char : ∀ c r, ¬ Opens c r → P r → P (c :: r))
    (closed : ∀ name r, '\x7d' ∉ name → P r → P (reference name ++ r))
    (opening : ∀ name, '\x7d' ∉ name → P ('$' :: '\x7b' :: name)) : P cs := by
  fun_induction names cs with
  | case1 => exact nil
  | case2 r ih =>
    by_cases hr : '\x7d' ∈ r
    · obtain ⟨name, rest, rfl, hname⟩ := List.eq_append_cons_of_mem hr
      rw [(scan_name hname rest).2] at ih
      rw [← reference_append]
      exact closed name rest hname ih
    · exact opening r hr
  | case3 c r hc ih =>
    refine char c r ?_ ih
    intro hopens
    obtain ⟨r', hr'⟩ := hopens.exists_eq
    cases hr'
    exact hc r' rfl rfl

section Scan

variable (env : Environment)

theorem expand_cons {c : Char} {r : List Char} (h : ¬ Opens c r) :
    env.expand (c :: r) = c :: env.expand r := by
  rw [expand]
  rintro r' rfl rfl
  exact h ⟨rfl, rfl⟩

theorem names_cons {c : Char} {r : List Char} (h : ¬ Opens c r) : names (c :: r) = names r := by
  rw [names]
  rintro r' rfl rfl
  exact h ⟨rfl, rfl⟩

/-- A closed reference ends at the first closing brace. -/
theorem expand_reference_append {name : List Char} (h : '\x7d' ∉ name) (s : List Char) :
    env.expand (reference name ++ s) = env.value name ++ env.expand s := by
  rw [reference_append, expand, (scan_name h s).1, (scan_name h s).2]

theorem names_reference_append {name : List Char} (h : '\x7d' ∉ name) (s : List Char) :
    names (reference name ++ s) = String.ofList name :: names s := by
  rw [reference_append, names, (scan_name h s).1, (scan_name h s).2]

theorem expand_opening {name : List Char} (h : '\x7d' ∉ name) :
    env.expand ('$' :: '\x7b' :: name) = env.value name := by
  rw [expand, (scan_open_name h).1, (scan_open_name h).2, expand, List.append_nil]

theorem names_opening {name : List Char} (h : '\x7d' ∉ name) :
    names ('$' :: '\x7b' :: name) = [String.ofList name] := by
  rw [names, (scan_open_name h).1, (scan_open_name h).2, names]

/-- A run stays as it is, whatever follows it; only a brace could make its end into an opening. -/
theorem expand_run_append {run s : List Char} (h : IsRun run) (hs : s.head? ≠ some '\x7b') :
    env.expand (run ++ s) = run ++ env.expand s := by
  induction run with
  | nil => rfl
  | cons c run ih =>
    obtain ⟨hc, hrun⟩ := isRun_cons.1 h
    have hopens : ¬ Opens c (run ++ s) := by
      rintro ⟨rfl, hhead⟩
      cases run with
      | nil => exact hs hhead
      | cons d run => exact hc ⟨rfl, hhead⟩
    rw [List.cons_append, expand_cons env hopens, ih hrun, List.cons_append]

end Scan

/-! ## Texts with references -/

/-- Literal runs with a closed reference behind each, and a last run. Runs may be empty and may end
in a dollar sign, and names may hold anything but a closing brace. -/
structure Marked where
  /-- The runs in front of the references, each with the name that is referred to behind it. -/
  front : List (List Char × List Char)
  last : List Char
  run_front : ∀ p ∈ front, IsRun p.1
  name_front : ∀ p ∈ front, '\x7d' ∉ p.2
  run_last : IsRun last

namespace Marked

/-- The runs with something in the place of each reference. -/
def fill (value : List Char → List Char) (m : Marked) : List Char :=
  m.front.flatMap (fun p => p.1 ++ value p.2) ++ m.last

/-- The text as it is written. -/
def text (m : Marked) : List Char := m.fill reference

theorem expand_text (env : Environment) (m : Marked) : env.expand m.text = m.fill env.value := by
  have hlast : env.expand m.last = m.last := by
    simpa [expand] using expand_run_append env (s := []) m.run_last (by simp)
  obtain ⟨front, last, hruns, hnames, _⟩ := m
  simp only [text, fill] at hlast ⊢
  -- each reference starts with a dollar sign, so no run can take a brace from what follows it
  induction front with
  | nil => simpa using hlast
  | cons p front ih =>
    obtain ⟨hrun, hruns⟩ := List.forall_mem_cons.1 hruns
    obtain ⟨hname, hnames⟩ := List.forall_mem_cons.1 hnames
    rw [List.flatMap_cons, List.flatMap_cons, List.append_assoc, List.append_assoc,
      expand_run_append env hrun (by simp [reference]), expand_reference_append env hname,
      ih hruns hnames]
    simp

end Marked

/-! ## Openings that are closed -/

/-- An opening behind which no brace closes. -/
def Unclosed (cs : List Char) : Prop :=
  ∃ front name, cs = front ++ '$' :: '\x7b' :: name ∧ '\x7d' ∉ name

theorem not_unclosed_nil : ¬ Unclosed [] := by
  rintro ⟨front, name, heq, -⟩
  simp at heq

theorem unclosed_cons {c : Char} {r : List Char} (h : ¬ Opens c r) :
    Unclosed (c :: r) ↔ Unclosed r := by
  constructor
  · rintro ⟨front, name, heq, hname⟩
    cases front with
    | nil =>
      obtain ⟨rfl, rfl⟩ := List.cons.inj heq
      exact absurd ⟨rfl, rfl⟩ h
    | cons d front => exact ⟨front, name, (List.cons.inj heq).2, hname⟩
  · rintro ⟨front, name, rfl, hname⟩
    exact ⟨c :: front, name, rfl, hname⟩

/-- A closing brace closes all that is open in front of it. -/
theorem unclosed_append_brace {front r : List Char} :
    Unclosed (front ++ '\x7d' :: r) ↔ Unclosed r := by
  constructor
  · rintro ⟨front', name, heq, hname⟩
    rcases List.append_eq_append_iff.1 heq with ⟨as, rfl, hr⟩ | ⟨bs, rfl, hr⟩
    · cases as with
      | nil => simp at hr
      | cons d as => exact ⟨as, name, (List.cons.inj hr).2, hname⟩
    · have hmem : '\x7d' ∈ bs ++ '\x7d' :: r := by simp
      rw [← hr] at hmem
      simp [hname] at hmem
  · rintro ⟨front', name, rfl, hname⟩
    exact ⟨front ++ '\x7d' :: front', name, by simp, hname⟩

theorem unclosed_reference_append {name r : List Char} :
    Unclosed (reference name ++ r) ↔ Unclosed r := by
  have h : reference name ++ r = ('$' :: '\x7b' :: name) ++ '\x7d' :: r := by simp [reference]
  rw [h, unclosed_append_brace]

theorem unclosed_opening {name : List Char} (h : '\x7d' ∉ name) :
    Unclosed ('$' :: '\x7b' :: name) :=
  ⟨[], name, rfl, h⟩

theorem IsRun.not_unclosed {cs : List Char} (h : IsRun cs) : ¬ Unclosed cs := by
  rintro ⟨front, name, rfl, -⟩
  exact h ⟨front, name, by simp⟩

theorem Marked.not_unclosed (m : Marked) : ¬ Unclosed m.text := by
  have hfront : ∀ front : List (List Char × List Char),
      Unclosed (front.flatMap (fun p => p.1 ++ reference p.2) ++ m.last) ↔ Unclosed m.last := by
    intro front
    induction front with
    | nil => rfl
    | cons p front ih =>
      have htext : (p :: front).flatMap (fun p => p.1 ++ reference p.2) ++ m.last =
          (p.1 ++ '$' :: '\x7b' :: p.2) ++
            '\x7d' :: (front.flatMap (fun p => p.1 ++ reference p.2) ++ m.last) := by
        simp [reference]
      rw [htext, unclosed_append_brace, ih]
  rw [text, fill, hfront]
  exact m.run_last.not_unclosed

theorem exists_text_eq {cs : List Char} (h : ¬ Unclosed cs) : ∃ m : Marked, m.text = cs := by
  induction cs using scan_induction with
  | nil => exact ⟨⟨[], [], nofun, nofun, by simp [IsRun]⟩, rfl⟩
  | char c r hc ih =>
    obtain ⟨⟨front, last, hruns, hnames, hlast⟩, rfl⟩ := ih (mt (unclosed_cons hc).2 h)
    cases front with
    | nil => exact ⟨⟨[], c :: last, nofun, nofun, isRun_cons.2 ⟨hc, hlast⟩⟩, rfl⟩
    | cons p front =>
      obtain ⟨hrun, hruns⟩ := List.forall_mem_cons.1 hruns
      have hopens : ¬ Opens c p.1 := by
        rintro ⟨rfl, hhead⟩
        exact hc ⟨rfl, by simp [Marked.text, Marked.fill, hhead]⟩
      refine ⟨⟨(c :: p.1, p.2) :: front, last, ?_, ?_, hlast⟩, by simp [Marked.text, Marked.fill]⟩
      · exact List.forall_mem_cons.2 ⟨isRun_cons.2 ⟨hopens, hrun⟩, hruns⟩
      · exact List.forall_mem_cons.2 (List.forall_mem_cons.1 hnames)
  | closed name r hname ih =>
    obtain ⟨m, rfl⟩ := ih (mt unclosed_reference_append.2 h)
    refine ⟨⟨([], name) :: m.front, m.last, ?_, ?_, m.run_last⟩, by simp [Marked.text, Marked.fill]⟩
    · exact List.forall_mem_cons.2 ⟨by simp [IsRun], m.run_front⟩
    · exact List.forall_mem_cons.2 ⟨hname, m.name_front⟩
  | opening name hname => exact absurd (unclosed_opening hname) h

/-- A text can be told as runs and references exactly if all its openings are closed. -/
theorem exists_text_eq_iff {cs : List Char} : (∃ m : Marked, m.text = cs) ↔ ¬ Unclosed cs := by
  constructor
  · rintro ⟨m, rfl⟩
    exact m.not_unclosed
  · exact exists_text_eq

/-! ## Variables that are not set -/

theorem expand_of_unset {env : Environment} {cs : List Char}
    (h : ∀ name ∈ names cs, env name = none) :
    (¬ Unclosed cs → env.expand cs = cs) ∧ (Unclosed cs → env.expand cs = cs ++ ['\x7d']) := by
  have hvalue : ∀ name, env (String.ofList name) = none → env.value name = reference name := by
    intro name hname
    rw [value, hname]
  induction cs using scan_induction with
  | nil => exact ⟨fun _ => by rw [expand], fun hu => absurd hu not_unclosed_nil⟩
  | char c r hc ih =>
    rw [names_cons hc] at h
    obtain ⟨hclosed, hunclosed⟩ := ih h
    rw [expand_cons env hc, unclosed_cons hc]
    exact ⟨fun hu => by rw [hclosed hu], fun hu => by rw [hunclosed hu, List.cons_append]⟩
  | closed name r hname ih =>
    rw [names_reference_append hname] at h
    obtain ⟨hunset, h⟩ := List.forall_mem_cons.1 h
    obtain ⟨hclosed, hunclosed⟩ := ih h
    rw [expand_reference_append env hname, hvalue name hunset, unclosed_reference_append]
    exact ⟨fun hu => by rw [hclosed hu], fun hu => by rw [hunclosed hu, List.append_assoc]⟩
  | opening name hname =>
    rw [names_opening hname] at h
    rw [expand_opening env hname, hvalue name (h _ (List.mem_singleton.2 rfl))]
    exact ⟨fun hu => absurd (unclosed_opening hname) hu, fun _ => rfl⟩

end Environment

/-! ## Reading a configuration -/

/-- What the text of a configuration comes to that holds no references. -/
def Config.decoded (cs : List Char) : Except Failure Config :=
  (parse? (String.ofList cs)).elim (.error (.configuration Failure.unreadableToml)) .ok

theorem Config.load_of_text {disk : Disk} {path text : String} (h : disk path = .ok text)
    (env : Environment) : load disk env path = decoded (env.expand text.toList) := by
  rw [load, h, decoded]
  dsimp only
  cases parse? (String.ofList (env.expand text.toList)) <;> rfl

namespace Environment

/-- **Expansion.** In a text of literal runs and closed references the runs stay as they are, each
reference to a variable that is set is replaced by what it holds, and each other one is kept as it
is written. A configuration is read from what this comes to, where nothing is expanded again. -/
theorem expand_marked (env : Environment) (m : Marked) :
    let filled := m.fill fun name => (env (String.ofList name)).elim (reference name) String.toList
    env.expand m.text = filled ∧
      ∀ disk path, disk path = .ok (String.ofList m.text) →
        Config.load disk env path = Config.decoded filled := by
  intro filled
  have hvalue : env.value =
      fun name => (env (String.ofList name)).elim (reference name) String.toList := by
    funext name
    rw [value]
    cases env (String.ofList name) <;> rfl
  have hexpand : env.expand m.text = filled := by
    rw [m.expand_text, hvalue]
  refine ⟨hexpand, fun disk path hdisk => ?_⟩
  rw [Config.load_of_text hdisk, String.toList_ofList, hexpand]

/-- A value that makes an opening out of the brace behind it. -/
theorem expand_joined :
    let env : Environment := fun name => if name = "A" then some "$" else none
    let text := "$$\x7bA\x7d\x7bB\x7d$\x7b$\x7bC\x7d"
    let disk : Disk := fun _ => .ok text
    disk "" = .ok text ∧ env.expand text.toList = "$$\x7bB\x7d$\x7b$\x7bC\x7d".toList ∧
      Config.load disk env "" = Config.decoded "$$\x7bB\x7d$\x7b$\x7bC\x7d".toList := by
  intro env text disk
  let m : Marked := {
    front := [("$".toList, "A".toList), ("\x7bB\x7d".toList, "$\x7bC".toList)]
    last := []
    run_front := by decide
    name_front := by decide
    run_last := by decide }
  have htext : m.text = text.toList := by decide
  have hfilled : m.fill (fun name => (env (String.ofList name)).elim (reference name)
      String.toList) = "$$\x7bB\x7d$\x7b$\x7bC\x7d".toList := by decide
  have hdisk : disk "" = .ok (String.ofList m.text) := by
    rw [htext, String.ofList_toList]
  obtain ⟨hexpand, hload⟩ := expand_marked env m
  rw [hfilled] at hexpand hload
  rw [htext] at hexpand
  exact ⟨rfl, hexpand, hload disk "" hdisk⟩

/-- **Variables that are not set.** A text that refers to no variable that is set is expanded to
itself if all its openings are closed, and only then: otherwise it gets a closing brace at its end.
A configuration is read from the text with that brace. -/
theorem expand_unset {env : Environment} {text : String}
    (h : ∀ name ∈ names text.toList, env name = none) :
    (env.expand text.toList = text.toList ↔ ¬ Unclosed text.toList) ∧
      (Unclosed text.toList → env.expand text.toList = text.toList ++ ['\x7d']) ∧
      ∀ disk path, disk path = .ok text →
        (¬ Unclosed text.toList → Config.load disk env path = Config.decoded text.toList) ∧
        (Unclosed text.toList →
          Config.load disk env path = Config.decoded (text.toList ++ ['\x7d'])) := by
  obtain ⟨hclosed, hunclosed⟩ := expand_of_unset h
  refine ⟨⟨?_, hclosed⟩, hunclosed, fun disk path hdisk => ?_⟩
  · intro hsame hu
    rw [hunclosed hu] at hsame
    simp at hsame
  · rw [Config.load_of_text hdisk]
    exact ⟨fun hu => by rw [hclosed hu], fun hu => by rw [hunclosed hu]⟩

/-- Two references and an opening that is not closed. -/
theorem expand_unset_opening :
    let env : Environment := fun name => if name = "A" then some "a" else none
    let text := "$\x7bB\x7d $ $\x7bC$\x7b\x7d\x7d $\x7bA $\x7b"
    (∀ name ∈ names text.toList, env name = none) ∧ Unclosed text.toList ∧
      env.expand text.toList ≠ text.toList ∧
      env.expand text.toList = text.toList ++ ['\x7d'] := by
  intro env text
  have hnames : ∀ name ∈ names text.toList, env name = none := by decide +kernel
  have hunclosed : Unclosed text.toList :=
    ⟨"$\x7bB\x7d $ $\x7bC$\x7b\x7d\x7d ".toList, "A $\x7b".toList, by decide, by decide⟩
  obtain ⟨hself, hbrace, -⟩ := expand_unset hnames
  exact ⟨hnames, hunclosed, fun h => hself.1 h hunclosed, hbrace hunclosed⟩

/-- The brace that closes an opening makes the text of a configuration into none. -/
theorem unclosed_not_kept :
    let env : Environment := fun _ => none
    let text := "[spark]\napp_id = \"$\x7bNOPE\"\n"
    let disk : Disk := fun _ => .ok text
    (∀ name ∈ names text.toList, env name = none) ∧ env.expand text.toList ≠ text.toList ∧
      (Config.decoded text.toList).toOption.map (·.chat.app) = some "$\x7bNOPE" ∧
      Config.load disk env "weft.toml" = .error (.configuration Failure.unreadableToml) := by
  intro env text disk
  have hunclosed : Unclosed text.toList :=
    ⟨"[spark]\napp_id = \"".toList, "NOPE\"\n".toList, by decide, by decide⟩
  have hexpand : env.expand text.toList = text.toList ++ ['\x7d'] :=
    (expand_of_unset fun _ _ => rfl).2 hunclosed
  have hrefused : Config.parse? (String.ofList (text.toList ++ ['\x7d'])) = none := by
    decide +kernel
  refine ⟨fun _ _ => rfl, ?_, by decide +kernel, ?_⟩
  · rw [hexpand]
    exact List.append_right_eq_self.not.2 (List.cons_ne_nil _ _)
  · have hdisk : disk "weft.toml" = .ok text := rfl
    rw [Config.load_of_text hdisk, hexpand, Config.decoded, hrefused]
    rfl

end Environment

end Flowline
