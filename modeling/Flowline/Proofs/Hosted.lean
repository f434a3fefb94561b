import Flowline.Proofs.Parts

/-! # Addresses read part by part

The front of an address alone decides whether there is a host, and which one, and the path; the
query and the fragment are put beside them. So an address that has a host is read part by part. -/

namespace Flowline.Url

/-! ## Addresses that have a host -/

/-- The address, if there is one and it has a host. -/
def hosted : Except UrlFault Url → Option Url
  | .ok u => if u.host?.isSome then some u else none
  | .error _ => none

/-- Reads a text without anything around it. -/
def read (domain? : DomainReader) (cs : List Char) : Except UrlFault Url :=
  match splitScheme cs with
  | none => .error .noScheme
  | some (scheme, rest) =>
    match schemeKind scheme with
    | .network => readAuthority domain? scheme (rest.dropWhile (SchemeKind.network.isSlash ·))
    | .file => readFile domain? rest
    | .other =>
      match rest with
      | '/' :: '/' :: r => readAuthority domain? scheme r
      | _ => .ok (readOpaque scheme rest)

theorem parse_eq_read (domain? : DomainReader) (text : List Char) :
    parse domain? text = read domain? (cleaned text) := rfl

theorem hosted_eq_some {r : Except UrlFault Url} {u : Url} :
    hosted r = some u ↔ r = .ok u ∧ ∃ host, u.host? = some host := by
  cases r with
  | error f => simp [hosted]
  | ok v =>
    rw [hosted, Option.ite_none_right_eq_some, Option.isSome_iff_exists]
    constructor
    · rintro ⟨hhost, heq⟩
      obtain rfl := Option.some.inj heq
      exact ⟨rfl, hhost⟩
    · rintro ⟨heq, hhost⟩
      cases heq
      exact ⟨hhost, rfl⟩

/-- Two readings do not agree on the host and the path, if both come to an address with a host. -/
def Elsewhere (a b : Except UrlFault Url) : Prop :=
  ∀ u v, hosted a = some u → hosted b = some v → v.host?.map Host.chars = u.host?.map Host.chars →
    v.path ≠ u.path

/-- The address with a query and a fragment as its scheme has them written. -/
def Tail.beside (t : Tail) (u : Url) : Url :=
  { u with
    query? := t.query?.map (Text.percentEncode (keptInQuery (schemeKind u.scheme)))
    fragment? := t.fragment?.map (Text.percentEncode keptInFragment) }

/-! ## What cannot be taken for a part of a front -/

theorem isSlash_mark (k : SchemeKind) : k.isSlash '?' = false := by cases k <;> rfl

theorem isSlash_number (k : SchemeKind) : k.isSlash '#' = false := by cases k <;> rfl

/-- A text whose first character belongs to no scheme and separates nothing in front of a path. -/
structure Foreign (s : List Char) : Prop where
  letter : ∀ c, s.head? = some c → isSchemeChar c = false
  colon : ∀ c, s.head? = some c → decide (c = ':') = false
  slash : ∀ k c, s.head? = some c → SchemeKind.isSlash k c = false

theorem Tail.foreign_behind (t : Tail) : Foreign t.behind :=
  ⟨stops_behind rfl rfl t, stops_behind rfl rfl t,
    fun k => stops_behind (isSlash_mark k) (isSlash_number k) t⟩

theorem splitScheme_append {s : List Char} (h : Foreign s) (cs : List Char) :
    splitScheme (cs ++ s) = (splitScheme cs).map fun p => (p.1, p.2 ++ s) := by
  cases cs with
  | nil =>
    cases hs : s with
    | nil => rfl
    | cons c r =>
      have hc := h.letter c (by rw [hs]; rfl)
      simp only [isSchemeChar, Char.isAlphanum, Bool.or_eq_false_iff] at hc
      show splitScheme (c :: r) = none
      rw [splitScheme, hc.1.1.1.1]
      rfl
  | cons c r =>
    rw [List.cons_append, splitScheme, splitScheme, takeWhile_append_of_stop h.letter,
      dropWhile_append_of_stop h.letter]
    split
    · rfl
    cases r.dropWhile isSchemeChar with
    | nil =>
      cases hs : s with
      | nil => rfl
      | cons d rest =>
        have hd : d ≠ ':' := of_decide_eq_false (h.colon d (by rw [hs]; rfl))
        simp [hd]
    | cons d rest =>
      by_cases hd : d = ':'
      · subst hd
        rfl
      · simp [hd]

theorem splitScheme_subset {cs scheme rest : List Char} (h : splitScheme cs = some (scheme, rest)) :
    rest ⊆ cs := by
  match cs, h with
  | c :: r, h =>
    rw [splitScheme] at h
    split at h
    · cases h
    split at h
    · rename_i hr
      cases h
      have htail : rest ⊆ ':' :: rest := List.subset_cons_self ..
      rw [← hr] at htail
      have hsuffix : r.dropWhile isSchemeChar ⊆ r := (List.dropWhile_suffix _).subset
      exact List.Subset.trans htail (List.Subset.trans hsuffix (List.subset_cons_self ..))
    · cases h

/-- What follows the two slashes in front of a host. -/
def behindSlashes (k : SchemeKind) : List Char → Option (List Char)
  | c :: d :: r => if k.isSlash c ∧ k.isSlash d then some r else none
  | _ => none

theorem behindSlashes_subset {k : SchemeKind} {cs r : List Char}
    (h : behindSlashes k cs = some r) : r ⊆ cs := by
  match cs, h with
  | c :: d :: _, h =>
    rw [behindSlashes] at h
    split at h
    · cases h
      exact (List.suffix_append [c, d] r).subset
    · cases h

theorem behindSlashes_append {s : List Char} (h : Foreign s) (k : SchemeKind) (cs : List Char) :
    behindSlashes k (cs ++ s) = (behindSlashes k cs).map (· ++ s) := by
  match cs with
  | [] =>
    cases hs : s with
    | nil => rfl
    | cons c r =>
      have hc := h.slash k c (by rw [hs]; rfl)
      cases r <;> simp [behindSlashes, hc]
  | [c] =>
    cases hs : s with
    | nil => rfl
    | cons d r =>
      have hd := h.slash k d (by rw [hs]; rfl)
      simp [behindSlashes, hd]
  | c :: d :: r =>
    simp only [List.cons_append, behindSlashes]
    split <;> rfl

theorem authority_append (t : Tail) (k : SchemeKind) (cs : List Char) :
    authority k (cs ++ t.behind) = authority k cs :=
  takeWhile_append_of_stop
    (Tail.stops_behind (by simp [isSlash_mark]) (by simp [isSlash_number]) t) cs

theorem drop_authority_append (k : SchemeKind) (cs s : List Char) :
    (cs ++ s).drop (authority k cs).length = cs.drop (authority k cs).length ++ s :=
  drop_takeWhile_append ..

/-! ## Closed forms -/

theorem hosted_bind_eq_none {α : Type} {r : Except UrlFault α} {f : α → Except UrlFault Url}
    (h : ∀ a, hosted (f a) = none) : hosted (r >>= f) = none := by
  cases r with
  | error _ => rfl
  | ok a => exact h a

/-- The host that a front names, and the port. -/
def reached (domain? : DomainReader) (scheme front : List Char) : Option (Host × Option Nat) :=
  let (hostText, portText) := splitPort false (splitUser front).2
  if hostText.isEmpty then none
  else do
    let host ← (if schemeKind scheme = .network then Host.parse domain? hostText
      else Host.parseOpaque hostText).toOption
    let port ← (readPort scheme (portText.getD [])).toOption
    return (host, port)

theorem hosted_readAuthority (domain? : DomainReader) (scheme cs : List Char) :
    hosted (readAuthority domain? scheme cs) =
      (reached domain? scheme (authority (schemeKind scheme) cs)).map fun p =>
        let t := Tail.split (cs.drop (authority (schemeKind scheme) cs).length)
        t.beside { scheme := scheme, host? := some p.1, port? := p.2,
                   path := resolvePath (schemeKind scheme) t.path, query? := none,
                   fragment? := none } := by
  unfold readAuthority reached
  dsimp only
  generalize splitPort false (splitUser (authority (schemeKind scheme) cs)).2 = parts
  cases parts.1.isEmpty with
  | true =>
    -- it depends on the rest whether a missing host is a fault, but there is none either way
    simp only [if_true, true_and]
    split_ifs
    · rfl
    · rfl
    · exact hosted_bind_eq_none fun _ => hosted_bind_eq_none fun _ => rfl
    · exact hosted_bind_eq_none fun _ => hosted_bind_eq_none fun _ => rfl
  | false =>
    simp only [Bool.false_eq_true, if_false, false_and]
    split_ifs
    · cases Host.parse domain? parts.1 <;> cases readPort scheme (parts.2.getD []) <;> rfl
    · cases Host.parseOpaque parts.1 <;> cases readPort scheme (parts.2.getD []) <;> rfl

/-- Whether a path starts with a drive. -/
def startsWithDrive (path : List Char) : Bool :=
  match segments .file (path.dropWhile SchemeKind.file.isSlash) with
  | s :: _ => isDrive s
  | [] => false

/-- The address of a file with these parts, on a host or on none. -/
def filed (t : Tail) (host? : Option Host) : Url :=
  t.beside
    { scheme := "file".toList
      host? := if startsWithDrive t.path then none
        else host?.filter (· ≠ .domain "localhost".toList)
      port? := none, path := '/' :: (resolvePath .file t.path).dropWhile (· = '/'), query? := none
      fragment? := none }

theorem hosted_filed_none (t : Tail) : hosted (.ok (filed t none)) = none := by
  rw [hosted, filed, Tail.beside, Option.filter_none, ite_self]
  rfl

theorem hosted_filed (t : Tail) (path : List Char) (host? : Option Host) :
    hosted (.ok (filed { t with path := path } host?)) =
      (hosted (.ok (filed ⟨path, none, none⟩ host?))).map t.beside := by
  rw [hosted, hosted]
  show (if (filed ⟨path, none, none⟩ host?).host?.isSome then _ else _) = _
  split <;> rfl

/-- The address of a file by what stands behind its two slashes; a drive there is no host. -/
theorem readFile_eq (domain? : DomainReader) (cs : List Char) :
    readFile domain? cs = match behindSlashes .file cs with
      | none => .ok (filed (Tail.split cs) none)
      | some r =>
        if isDrive (authority .file r) then .ok (filed (Tail.split r) none)
        else
          let t := Tail.split (r.drop (authority .file r).length)
          if (authority .file r).isEmpty then .ok (filed t none)
          else (Host.parse domain? (authority .file r)).map fun host => filed t (some host) := by
  unfold readFile
  match cs with
  | [] => rfl
  | [c] => rfl
  | c :: d :: r =>
    by_cases h : SchemeKind.file.isSlash c ∧ SchemeKind.file.isSlash d
    · simp only [behindSlashes, if_pos h]
      by_cases hd : isDrive (authority .file r)
      · simp only [if_pos hd]
        rfl
      · simp only [if_neg hd]
        cases (authority .file r).isEmpty
        · cases Host.parse domain? (authority .file r) <;> rfl
        · rfl
    · simp only [behindSlashes, if_neg h]
      rfl

theorem hosted_readFile_eq_some {domain? : DomainReader} {cs : List Char} {u : Url}
    (h : hosted (readFile domain? cs) = some u) :
    ∃ r host, behindSlashes .file cs = some r ∧ Host.parse domain? (authority .file r) = .ok host ∧
      u = filed (Tail.split (r.drop (authority .file r).length)) (some host) := by
  rw [readFile_eq] at h
  cases hr : behindSlashes .file cs with
  | none =>
    rw [hr] at h
    cases (hosted_filed_none _).symm.trans h
  | some r =>
    rw [hr] at h
    dsimp only at h
    split at h
    · cases (hosted_filed_none _).symm.trans h
    split at h
    · cases (hosted_filed_none _).symm.trans h
    cases hhost : Host.parse domain? (authority .file r) with
    | error f =>
      rw [hhost] at h
      cases h
    | ok host =>
      rw [hhost] at h
      exact ⟨r, host, rfl, hhost, (Except.ok.inj (hosted_eq_some.1 h).1).symm⟩

/-! ## An address part by part -/

section Append

variable {domain? : DomainReader} {t : Tail}

theorem hosted_readAuthority_append (h : t.Apart) (scheme : List Char) {cs : List Char}
    (hcs : Bare cs) :
    hosted (readAuthority domain? scheme (cs ++ t.behind)) =
      (hosted (readAuthority domain? scheme cs)).map t.beside := by
  have hrest := hcs.mono (List.drop_subset (authority (schemeKind scheme) cs).length cs)
  rw [hosted_readAuthority, hosted_readAuthority, authority_append, drop_authority_append,
    h.split_append hrest, Tail.split_bare hrest, Option.map_map]
  rfl

theorem hosted_readFile_append (h : t.Apart) {cs : List Char} (hcs : Bare cs) :
    hosted (readFile domain? (cs ++ t.behind)) = (hosted (readFile domain? cs)).map t.beside := by
  rw [readFile_eq, readFile_eq, behindSlashes_append t.foreign_behind]
  cases hr : behindSlashes .file cs with
  | none =>
    dsimp only [Option.map_none]
    rw [h.split_append hcs, Tail.split_bare hcs, hosted_filed]
  | some r =>
    have hbare := hcs.mono (behindSlashes_subset hr)
    have hrest := hbare.mono (List.drop_subset (authority .file r).length r)
    dsimp only [Option.map_some]
    rw [authority_append, drop_authority_append, h.split_append hbare, Tail.split_bare hbare,
      h.split_append hrest, Tail.split_bare hrest]
    split
    · exact hosted_filed ..
    split
    · exact hosted_filed ..
    cases Host.parse domain? (authority .file r) with
    | error f => rfl
    | ok host => exact hosted_filed ..

theorem read_other (domain? : DomainReader) (scheme rest : List Char) :
    (match rest with
      | '/' :: '/' :: r => readAuthority domain? scheme r
      | _ => .ok (readOpaque scheme rest)) =
    match behindSlashes .other rest with
      | some r => readAuthority domain? scheme r
      | none => .ok (readOpaque scheme rest) := by
  have hslash : ∀ c, SchemeKind.other.isSlash c = decide (c = '/') := by
    intro c
    simp [SchemeKind.isSlash, SchemeKind.isSpecial]
  split
  · rfl
  · rename_i hnone
    cases hr : behindSlashes .other rest with
    | none => rfl
    | some r =>
      match rest, hr with
      | c :: d :: r', hr =>
        rw [behindSlashes, hslash, hslash] at hr
        split at hr
        · rename_i hslashes
          simp only [decide_eq_true_eq] at hslashes
          exact (hnone r' (by rw [hslashes.1, hslashes.2])).elim
        · cases hr

variable (domain?) in
/-- **An address that has a host is read part by part.** With a query and a fragment behind its
front, it is the address of the front with both of them beside it. -/
theorem hosted_read (h : t.Apart) :
    hosted (read domain? t.text) = (hosted (read domain? t.path)).map t.beside := by
  rw [Tail.text, read, read, splitScheme_append t.foreign_behind]
  cases hscheme : splitScheme t.path with
  | none => rfl
  | some p =>
    obtain ⟨scheme, rest⟩ := p
    have hrest := h.path.mono (splitScheme_subset hscheme)
    dsimp only [Option.map_some]
    cases schemeKind scheme with
    | network =>
      dsimp only
      rw [dropWhile_append_of_stop (t.foreign_behind.slash .network)]
      exact hosted_readAuthority_append h scheme
        (hrest.mono (List.dropWhile_suffix _).subset)
    | file => exact hosted_readFile_append h hrest
    | other =>
      dsimp only
      rw [read_other, read_other, behindSlashes_append t.foreign_behind]
      cases hr : behindSlashes .other rest with
      | none => rfl
      | some r => exact hosted_readAuthority_append h scheme (hrest.mono (behindSlashes_subset hr))

end Append

end Flowline.Url
