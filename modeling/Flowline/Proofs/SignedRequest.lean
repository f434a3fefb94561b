import Flowline.Proofs.Blanks
import Flowline.Proofs.Dialling
import Flowline.Proofs.SignedQuery

/-! # What is signed is what is asked for

The host and the path that are signed are read from an address, and the parameters are put behind
its text. The two agree as long as the text can be added to: a fragment takes the parameters in, so
that they are never sent, and blanks at the end become part of what is asked for. All that is used
of the readers is that they keep to their standards. -/

namespace Flowline.Signature

open Url (Bare Blanks Tail cleaned isBlank leftover)

/-! ## Written parameters -/

/-- The characters of written parameters. -/
def isWritten (c : Char) : Bool := Text.isUnreserved c || c = '%' || c = '=' || c = '&'

theorem mem_query {l : List (List Char × List Char)} {c : Char} (h : c ∈ query l) :
    c = '&' ∨ ∃ p ∈ l, c ∈ parameter p := by
  induction l with
  | nil => cases h
  | cons p l ih =>
    by_cases hl : l = []
    · subst hl
      exact .inr ⟨p, List.mem_cons_self .., by simpa [query, parameter] using h⟩
    have hcons : query (p :: l) = parameter p ++ ['&'] ++ query l := by
      show ['&'].intercalate (parameter p :: l.map parameter) = _
      rw [List.intercalate_cons_of_ne_nil (by simpa using hl)]
      rfl
    rw [hcons, List.append_assoc, List.mem_append, List.mem_append] at h
    rcases h with hp | hsep | hl
    · exact .inr ⟨p, List.mem_cons_self .., hp⟩
    · exact .inl (List.mem_singleton.1 hsep)
    · rcases ih hl with hsep | ⟨p', hp', hmem⟩
      · exact .inl hsep
      · exact .inr ⟨p', List.mem_cons_of_mem _ hp', hmem⟩

theorem isWritten_of_mem_parameter {p : List Char × List Char} {c : Char}
    (hname : ∀ c ∈ p.1, isWritten c = true) (h : c ∈ parameter p) : isWritten c = true := by
  rcases List.mem_append.1 h with hmem | hmem
  · exact hname c hmem
  rcases List.mem_cons.1 hmem with rfl | hmem
  · rfl
  rcases Text.mem_percentEncode hmem with hkept | rfl
  · simp [isWritten, hkept]
  · rfl

theorem isWritten_of_mem_parameters {host path key secret date : List Char} {c : Char}
    (h : c ∈ query (parameters host path key secret date)) : isWritten c = true := by
  have hnames : ∀ name ∈ ["authorization".toList, "date".toList, "host".toList],
      name.all isWritten = true := by decide
  rcases mem_query h with rfl | ⟨p, hp, hmem⟩
  · rfl
  · have hname := hnames p.1 (List.mem_map_of_mem (f := Prod.fst) hp)
    exact isWritten_of_mem_parameter (List.all_eq_true.1 hname) hmem

theorem toNat_lt_of_isWritten {c : Char} (h : isWritten c = true) : c.toNat < 128 := by
  simp only [isWritten, Text.isUnreserved, Bool.or_eq_true, decide_eq_true_eq, or_assoc] at h
  rcases h with h | rfl | rfl | rfl | rfl | rfl | rfl | rfl
  · have hkinds : (c.isUpper || c.isLower || c.isDigit) = true := h
    simp only [Bool.or_eq_true, or_assoc] at hkinds
    rcases hkinds with hupper | hlower | hdigit
    · have hrange : c.val ≥ 'A'.val ∧ c.val ≤ 'Z'.val := of_decide_eq_true hupper
      exact Nat.lt_of_le_of_lt (UInt32.le_iff_toNat_le.1 hrange.2) (by decide)
    · have hrange : c.val ≤ 'z'.val := of_decide_eq_true (Bool.and_eq_true_iff.1 hlower).2
      exact Nat.lt_of_le_of_lt (UInt32.le_iff_toNat_le.1 hrange) (by decide)
    · exact Nat.lt_of_le_of_lt (Char.isDigit_iff_toNat.1 hdigit).2 (by decide)
  all_goals decide

/-- What a written character is to whoever reads an address: no blank, no sign of a fragment, and
one that stands for itself. -/
structure Plain (c : Char) : Prop where
  blank : isBlank c = false
  number : c ≠ '#'
  query : ∀ k, Url.keptInQuery k c = true
  fragment : Url.keptInFragment c = true

theorem Plain.of_isWritten {c : Char} (hc : isWritten c = true) : Plain c := by
  have hall := Url.forall_toNat_lt (fun c => isWritten c = true → isBlank c = false ∧ c ≠ '#' ∧
    Url.keptInQuery .network c = true ∧ Url.keptInQuery .file c = true ∧
    Url.keptInQuery .other c = true ∧ Url.keptInFragment c = true) (by decide +kernel)
    (toNat_lt_of_isWritten hc) hc
  obtain ⟨hblank, hnumber, hnetwork, hfile, hother, hfragment⟩ := hall
  exact ⟨hblank, hnumber, fun k => by cases k <;> assumption, hfragment⟩

/-! ## Parameters behind a text -/

/-- Parameters with the sign that joins them to the text of an address. -/
def joined (url added : List Char) : List Char := (if '?' ∈ url then '&' else '?') :: added

/-- A query with parameters behind it. -/
def extended (query? : Option (List Char)) (added : List Char) : List Char :=
  query?.elim [] (· ++ ['&']) ++ added

theorem plain_of_mem_joined {url added : List Char} (hadded : ∀ c ∈ added, Plain c) {c : Char}
    (h : c ∈ joined url added) : Plain c := by
  rcases List.mem_cons.1 h with rfl | hmem
  · split <;> exact ⟨rfl, by decide, fun k => by cases k <;> rfl, rfl⟩
  · exact hadded c hmem

section Joined

variable {origin : List Char → Option Origin} {url added : List Char} {t : Tail} {o : Origin}
  (hadded : ∀ c ∈ added, Plain c) (h : ReadAs origin url t o)

include h in
theorem fragment?_eq_none_iff : t.fragment? = none ↔ '#' ∉ url := by
  rw [← Url.mem_cleaned (c := '#') rfl, h.text, h.apart.number_mem_text]
  cases t.fragment? <;> simp

include h in
theorem mark_mem_iff (hnumber : '#' ∉ url) : '?' ∈ url ↔ t.query?.isSome := by
  rw [← Url.mem_cleaned (c := '?') rfl, h.text,
    h.apart.mark_mem_text ((fragment?_eq_none_iff h).2 hnumber)]

include hadded in
theorem cleaned_append_joined :
    cleaned (url ++ joined url added) = cleaned url ++ (leftover url ++ joined url added) := by
  rw [Url.cleaned_append (fun c hc => (plain_of_mem_joined hadded hc).blank) (by simp [joined]),
    List.append_assoc]

include hadded h in
/-- A fragment takes in whatever is put behind it. -/
theorem readAs_of_number {f : List Char} (hf : t.fragment? = some f) :
    ReadAs origin (url ++ joined url added)
      { t with fragment? := some (f ++ (leftover url ++ joined url added)) } o := by
  refine ⟨⟨h.apart.path, h.apart.query⟩, ?_, h.origin⟩
  rw [cleaned_append_joined hadded, h.text]
  simp [Tail.text, Tail.behind, Url.signed, hf]

include hadded h in
/-- Without a fragment a query goes on behind the blanks at its end. -/
theorem readAs_of_query (hnumber : '#' ∉ url) {q : List Char} (hq : t.query? = some q) :
    ReadAs origin (url ++ joined url added)
      { t with query? := some (extended (some (q ++ leftover url)) added) } o := by
  have hfragment := (fragment?_eq_none_iff h).2 hnumber
  have hmark : '?' ∈ url := (mark_mem_iff h hnumber).2 (by rw [hq]; rfl)
  have haddedNumber : '#' ∉ added := fun hmem => (hadded _ hmem).number rfl
  have hblanksNumber : '#' ∉ leftover url := fun hmem => by
    cases Url.isBlank_of_mem_leftover hmem
  refine ⟨⟨h.apart.path, ?_⟩, ?_, h.origin⟩
  · rintro _ ⟨⟩
    simp [extended, h.apart.query q hq, hblanksNumber, haddedNumber]
  · rw [cleaned_append_joined hadded, h.text]
    simp [Tail.text, Tail.behind, Url.signed, extended, joined, hq, hfragment, hmark]

include hadded h in
/-- Without a fragment and a query the blanks at the end stay on the front. -/
theorem cleaned_of_front (hnumber : '#' ∉ url) (hq : t.query? = none) :
    cleaned (url ++ joined url added) = Tail.text ⟨t.path ++ leftover url, some added, none⟩ := by
  have hfragment := (fragment?_eq_none_iff h).2 hnumber
  have hmark : '?' ∉ url := by
    rw [mark_mem_iff h hnumber, hq]
    exact Bool.false_ne_true
  rw [cleaned_append_joined hadded, h.text]
  simp [Tail.text, Tail.behind, Url.signed, joined, hq, hfragment, hmark]

include hadded in
theorem apart_of_front {front : List Char} (hfront : Bare front) :
    Tail.Apart ⟨front, some added, none⟩ := by
  refine ⟨hfront, ?_⟩
  rintro _ ⟨⟩ hmem
  exact (hadded _ hmem).number rfl

include hadded in
/-- Parameters are written in a query as they are. -/
theorem percentEncode_extended (k : Url.SchemeKind) (query? : Option (List Char)) :
    Text.percentEncode (Url.keptInQuery k) (extended query? added) =
      extended (query?.map (Text.percentEncode (Url.keptInQuery k))) added := by
  have hadded := Text.percentEncode_eq_self fun c hc => (hadded c hc).query k
  have hmark : Text.percentEncode (Url.keptInQuery k) ['&'] = ['&'] := by cases k <;> rfl
  cases query? with
  | none => exact hadded
  | some q =>
    show Text.percentEncode _ (q ++ ['&'] ++ added) = _
    rw [Text.percentEncode_append, Text.percentEncode_append, hmark, hadded]
    rfl

end Joined

/-! ## What is read -/

/-- A text is an address with the host and the path of another one, and with parameters at the end
of its query. -/
def Requests (read : AddressReader) (a : Address) (added text : List Char) : Prop :=
  ∃ b, read text = .ok b ∧ b.host? = a.host? ∧ b.path = a.path ∧
    b.query? = some (extended a.query? added)

section Requests

variable {read : AddressReader} {origin : List Char → Option Origin}
  (hread : read.Standard origin) {url added : List Char} {t : Tail} {o : Origin}
  (hadded : ∀ c ∈ added, Plain c) (h : ReadAs origin url t o)

include hread hadded h

theorem requests_of_notMem (hnumber : '#' ∉ url) (hblanks : leftover url = []) :
    Requests read (o.address t) added (url ++ joined url added) := by
  have hsome : ReadAs origin (url ++ joined url added)
      { t with query? := some (extended t.query? added) } o := by
    cases hq : t.query? with
    | some q => simpa only [hblanks, List.append_nil] using readAs_of_query hadded h hnumber hq
    | none =>
      have htext := cleaned_of_front hadded h hnumber hq
      rw [hblanks, List.append_nil] at htext
      rw [(fragment?_eq_none_iff h).2 hnumber]
      exact ⟨apart_of_front hadded h.apart.path, htext, h.origin⟩
  exact ⟨_, hread.read_eq hsome, rfl, rfl, congrArg some (percentEncode_extended hadded _ _)⟩

/-- The parameters do not get out of a fragment. -/
theorem not_requests_of_mem (hnumber : '#' ∈ url) :
    ¬ Requests read (o.address t) added (url ++ joined url added) := by
  rintro ⟨b, hb, -, -, hquery⟩
  obtain ⟨f, hf⟩ : ∃ f, t.fragment? = some f :=
    Option.ne_none_iff_exists'.1 fun hnone => (fragment?_eq_none_iff h).1 hnone hnumber
  cases (hread.read_eq (readAs_of_number hadded h hf)).symm.trans hb
  have hsame : (o.address t).query? = some (extended (o.address t).query? added) := hquery
  cases hq : (o.address t).query? with
  | none =>
    rw [hq] at hsame
    cases hsame
  | some q =>
    rw [hq] at hsame
    have hlength := congrArg List.length (Option.some.inj hsame)
    simp [extended] at hlength

/-- Blanks at the end of an address are asked for as well. -/
theorem not_requests_of_blanks (hnumber : '#' ∉ url) (hblanks : Blanks (leftover url)) :
    ¬ Requests read (o.address t) added (url ++ joined url added) := by
  rintro ⟨b, hb, hhost, hpath, hquery⟩
  -- the blanks are in the query if there was one already, else on the host, the port or the path
  cases hq : t.query? with
  | some q =>
    cases (hread.read_eq (readAs_of_query hadded h hnumber hq)).symm.trans hb
    have hwritten : Text.percentEncode (Url.keptInQuery o.kind)
        (extended (some (q ++ leftover url)) added) = extended (o.address t).query? added :=
      Option.some.inj hquery
    rw [percentEncode_extended hadded, Origin.address, hq, Option.map_some, Option.map_some,
      Text.percentEncode_append] at hwritten
    have hcoded := List.append_cancel_right (List.append_cancel_right hwritten)
    exact Text.percentEncode_ne_nil _ hblanks.nonempty (List.append_right_eq_self.1 hcoded)
  | none =>
    have happart := apart_of_front hadded (hblanks.bare h.apart.path)
    have htext := cleaned_of_front hadded h hnumber hq
    obtain ⟨o', ho'⟩ := hread.hosted hb hhost
    rw [htext, Tail.split_text happart] at ho'
    cases (hread.read_eq ⟨happart, htext, ho'⟩).symm.trans hb
    exact hread.blanks h.apart.path hblanks h.origin ho' (Option.some.inj hhost) hpath

end Requests

section Standard

variable {read : AddressReader} {origin : List Char → Option Origin}
  (hread : read.Standard origin) {url added : List Char} (hadded : ∀ c ∈ added, Plain c)
  {a : Address} {host : List Char} (ha : read url = .ok a) (hhost : a.host? = some host)

include hread hadded ha hhost

theorem requests_iff : Requests read a added (url ++ joined url added) ↔
    '#' ∉ url ∧ leftover url = [] := by
  obtain ⟨t, o, h, rfl⟩ := hread.exists_readAs ha hhost
  constructor
  · intro hrequests
    have hnumber : '#' ∉ url := fun hmem => not_requests_of_mem hread hadded h hmem hrequests
    refine ⟨hnumber, ?_⟩
    by_contra hleft
    exact not_requests_of_blanks hread hadded h hnumber
      ⟨hleft, fun c hc => Url.isBlank_of_mem_leftover hc⟩ hrequests
  · rintro ⟨hnumber, hblanks⟩
    exact requests_of_notMem hread hadded h hnumber hblanks

/-- An address with a fragment is the same with parameters behind it, but for the fragment. -/
theorem read_of_mem (hnumber : '#' ∈ url) :
    ∃ f, read (url ++ joined url added) =
      .ok { a with fragment? := some (f ++ joined url added) } := by
  obtain ⟨t, o, h, rfl⟩ := hread.exists_readAs ha hhost
  obtain ⟨f, hf⟩ : ∃ f, t.fragment? = some f :=
    Option.ne_none_iff_exists'.1 fun hnone => (fragment?_eq_none_iff h).1 hnone hnumber
  have hjoined : Text.percentEncode Url.keptInFragment (joined url added) = joined url added :=
    Text.percentEncode_eq_self fun c hc => (plain_of_mem_joined hadded hc).fragment
  refine ⟨Text.percentEncode Url.keptInFragment (f ++ leftover url), ?_⟩
  rw [hread.read_eq (readAs_of_number hadded h hf), Origin.address, Origin.address]
  dsimp only [Option.map_some]
  rw [← List.append_assoc, Text.percentEncode_append, hjoined]

end Standard

/-! ## What is asked for -/

section Target

variable {target? : RequestReader} (hrequest : target?.Standard) {url added target : List Char}

include hrequest

/-- Nothing behind the sign of a fragment is asked for. -/
theorem target?_of_mem (hnumber : '#' ∈ url)
    (h : target? (url ++ joined url added) = some target) :
    target? (url.takeWhile (· ≠ '#')) = some target := by
  have hparts := Url.append_cut '#' url
  cases hcut : (Url.cut '#' url).2 with
  | none =>
    rw [hcut, Url.signed, Option.elim_none, List.append_nil] at hparts
    rw [← hparts] at hnumber
    exact (Url.notMem_cut '#' url hnumber).elim
  | some f =>
    rw [← hparts, hcut, Url.signed, Option.elim_some, List.append_assoc, List.cons_append] at h
    exact hrequest.fragment (Url.notMem_cut '#' url) h

/-- Without a fragment the query is asked for, and the parameters at the end of it. -/
theorem target?_of_notMem (hadded : ∀ c ∈ added, Plain c) (hnumber : '#' ∉ url)
    (h : target? (url ++ joined url added) = some target) :
    ∃ path, '?' ∉ path ∧ target = path ++ '?' :: extended (Tail.split url).query? added := by
  have haddedNumber : '#' ∉ added := fun hmem => (hadded _ hmem).number rfl
  have hapart := Tail.apart_split url
  have hfragment : (Tail.split url).fragment? = none := by
    cases hf : (Tail.split url).fragment? with
    | none => rfl
    | some f =>
      have hmem := hapart.number_mem_text.2 (by rw [hf]; rfl)
      rw [Tail.text_split] at hmem
      exact (hnumber hmem).elim
  have hmark := hapart.mark_mem_text hfragment
  have htext := Tail.text_split url
  rw [htext] at hmark
  rw [Tail.text, Tail.behind, hfragment] at htext
  generalize Tail.split url = t at hapart hmark htext ⊢
  cases hq : t.query? with
  | none =>
    rw [hq] at hmark htext
    simp only [Url.signed, Option.elim_none, List.append_nil] at htext
    rw [joined, if_neg (by simpa using hmark), ← htext] at h
    exact hrequest.query hapart.path haddedNumber h
  | some q =>
    rw [hq] at hmark htext
    simp only [Url.signed, Option.elim_none, Option.elim_some, List.append_nil] at htext
    rw [joined, if_pos (by simpa using hmark), ← htext, List.append_assoc, List.cons_append] at h
    have hnumber' : '#' ∉ q ++ '&' :: added := by simp [hapart.query q hq, haddedNumber]
    simpa [extended] using hrequest.query hapart.path hnumber' h

end Target

/-- **What is signed is what is asked for, exactly if the text of the address can be added to.** For
readers that keep to their standards, a signed address has the host and the path that are signed,
and the parameters at the end of its query, if and only if there is no fragment and no blank that
stays at the end. With a fragment everything else stays as it is and the parameters are in the
fragment: a connection asks for what stands in front of that. Otherwise it asks for the query with
the parameters behind it. -/
theorem sign_requests {read : AddressReader} {origin : List Char → Option Origin}
    (hread : read.Standard origin) {target? : RequestReader} (hrequest : target?.Standard)
    {url key secret date text : String} (h : sign read url key secret date = .ok text) :
    ∃ a host, read url.toList = .ok a ∧ a.host? = some host ∧
      let added := query (parameters host a.path key.toList secret.toList date.toList)
      (Requests read a added text.toList ↔ '#' ∉ url.toList ∧ leftover url.toList = []) ∧
      ('#' ∈ url.toList → ∃ f, read text.toList =
        .ok { a with fragment? := some (f ++ joined url.toList added) }) ∧
      ∀ target, target? text.toList = some target →
        if '#' ∈ url.toList then target? (url.toList.takeWhile (· ≠ '#')) = some target
        else ∃ path, '?' ∉ path ∧
          target = path ++ '?' :: extended (Tail.split url.toList).query? added := by
  obtain ⟨a, host, ha, hhost⟩ := exists_host_of_sign h
  refine ⟨a, host, ha, hhost, ?_⟩
  intro added
  have hadded : ∀ c ∈ added, Plain c := fun c hc => .of_isWritten (isWritten_of_mem_parameters hc)
  have htext : text.toList = url.toList ++ joined url.toList added := by
    rw [sign_of_host ha hhost] at h
    rw [← Except.ok.inj h, String.toList_ofList]
    rfl
  rw [htext]
  refine ⟨requests_iff hread hadded ha hhost, read_of_mem hread hadded ha hhost, ?_⟩
  intro target htarget
  split
  · rename_i hnumber
    exact target?_of_mem hrequest hnumber htarget
  · rename_i hnumber
    exact target?_of_notMem hrequest hadded hnumber htarget

theorem sign_requests_behind_query :
    let read := Url.reader Url.plainDomain?
    let a : Address := ⟨some "h".toList, "/p".toList, some "x=1".toList, none⟩
    let added := query (parameters "h".toList "/p".toList "k".toList "s".toList "d".toList)
    ∃ text, sign read "wss://h/p?x=1" "k" "s" "d" = .ok text ∧ Requests read a added text.toList ∧
      ∀ target, Dial.target? text.toList = some target →
        ∃ path, target = path ++ "?x=1&".toList ++ added := by
  intro read a added
  have hread : read "wss://h/p?x=1".toList = .ok a := by decide +kernel
  have hsign : sign read "wss://h/p?x=1" "k" "s" "d" = .ok _ := sign_of_host hread rfl
  obtain ⟨b, host, hb, hhost, hrequests, -, htarget⟩ := sign_requests
    (Url.standard_reader Url.strict_plainDomain?) Dial.standard_target? hsign
  cases hread.symm.trans hb
  cases hhost
  refine ⟨_, hsign, hrequests.2 (by decide +kernel), fun target hasked => ?_⟩
  have hexact := htarget target hasked
  have hquery : (Tail.split "wss://h/p?x=1".toList).query? = some "x=1".toList := by decide +kernel
  rw [if_neg (by decide), hquery] at hexact
  obtain ⟨path, -, rfl⟩ := hexact
  exact ⟨path, (List.append_assoc path "?x=1&".toList added).symm⟩

/-- With a fragment the parameters are neither in the query nor asked for. -/
theorem parameters_lost_in_fragment :
    let read := Url.reader Url.plainDomain?
    ∃ text, sign read "wss://h/p#f" "k" "s" "d" = .ok text ∧
      (∃ b, read text.toList = .ok b ∧ b.query? = none) ∧
      ∀ target, Dial.target? text.toList = some target → target = "/p".toList := by
  intro read
  have ha : read "wss://h/p#f".toList =
      .ok ⟨some "h".toList, "/p".toList, none, some "f".toList⟩ := by decide +kernel
  have hsign : sign read "wss://h/p#f" "k" "s" "d" = .ok _ := sign_of_host ha rfl
  have hadded : ∀ c ∈ query (parameters "h".toList "/p".toList "k".toList "s".toList "d".toList),
      Plain c := fun c hc => .of_isWritten (isWritten_of_mem_parameters hc)
  refine ⟨_, hsign, ?_, fun target htarget => ?_⟩
  · obtain ⟨f, hf⟩ := read_of_mem (Url.standard_reader Url.strict_plainDomain?) hadded ha rfl
      (by decide)
    rw [String.toList_ofList]
    exact ⟨_, hf, rfl⟩
  · rw [String.toList_ofList] at htarget
    have hplain := target?_of_mem Dial.standard_target? (by decide) htarget
    have hasked : Dial.target? ("wss://h/p#f".toList.takeWhile (· ≠ '#')) = some "/p".toList := by
      decide +kernel
    exact Option.some.inj (hplain.symm.trans hasked)

end Flowline.Signature
