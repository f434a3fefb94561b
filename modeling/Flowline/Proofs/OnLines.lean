import Flowline.Proofs.Blanks
import Flowline.Proofs.Compact

/-! # Hosts and paths on one line

Whatever an address is read from, its host and its path are put together from percent signs and
digits, and from characters that were let through one by one. So neither of them breaks a line. -/

namespace Flowline

namespace Unbroken

/-- A test that lets none of the characters through that break a line. -/
theorem le_of_passed {p : Char → Bool} (h : ∀ n ∈ List.range 32, p (Char.ofNat n) = false)
    {c : Char} (hc : p c = true) : 0x20 ≤ c.toNat := by
  by_contra hlow
  cases hc.symm.trans (Url.forall_toNat_lt (p · = false) h (Nat.lt_of_not_le hlow))

theorem flatMap_iff {α : Type} {l : List α} {f : α → List Char} :
    Unbroken (l.flatMap f) ↔ ∀ a ∈ l, Unbroken (f a) := List.forall_mem_flatMap

theorem intercalate {sep : List Char} (hsep : Unbroken sep) {l : List (List Char)}
    (h : ∀ cs ∈ l, Unbroken cs) : Unbroken (sep.intercalate l) := by
  induction l with
  | nil => exact nil
  | cons cs l ih =>
    obtain ⟨hcs, hl⟩ := List.forall_mem_cons.1 h
    cases l with
    | nil => simpa [List.intercalate] using hcs
    | cons ds l =>
      rw [List.intercalate_cons_of_ne_nil (List.cons_ne_nil _ _), append_iff, append_iff]
      exact ⟨⟨hcs, hsep⟩, ih hl⟩

end Unbroken

namespace Text

theorem unbroken_escaped (b : UInt8) : Unbroken (escaped b) := by
  intro c hc
  rcases mem_escaped hc with hkept | rfl
  · exact Unbroken.le_of_passed (p := isUnreserved) (by decide) hkept
  · decide

theorem unbroken_percentEncode {keep : Char → Bool} (h : ∀ c, keep c = true → 0x20 ≤ c.toNat)
    (cs : List Char) : Unbroken (percentEncode keep cs) := by
  refine Unbroken.flatMap_iff.2 fun c _ => ?_
  split
  · rename_i hkept
    simpa using h c hkept
  · exact Unbroken.flatMap_iff.2 fun b _ => unbroken_escaped b

end Text

namespace Url

/-! ## Hosts -/

theorem DomainReader.Strict.unbroken {domain? : DomainReader} (h : domain?.Strict)
    {cs name : List Char} (hname : domain? cs = some name) : Unbroken name := by
  intro c hc
  by_contra hlow
  exact h.sent hname (decide_eq_true (Nat.le_of_not_le hlow)) hc

theorem unbroken_ipv4Chars (bytes : List Nat) : Unbroken (ipv4Chars bytes) :=
  Unbroken.intercalate (by decide) (List.forall_mem_map.2 fun n _ => Decimal.unbroken_toDigits n)

/-- Digits in base 16 have no line break among them either. -/
theorem unbroken_toDigits (n : Nat) : Unbroken (Nat.toDigits 16 n) := by
  have all : ∀ m ∈ List.range 16, 0x20 ≤ (Nat.digitChar m).toNat := by decide
  induction n using Nat.strong_induction_on with
  | _ n ih =>
    rw [Nat.toDigits_eq_if (by decide)]
    split
    · rename_i hlast
      simpa using all n (List.mem_range.2 hlast)
    · rename_i hmore
      have hdigit := all (n % 16) (List.mem_range.2 (Nat.mod_lt _ (by decide)))
      exact Unbroken.append_iff.2 ⟨ih (n / 16) (by omega), by simpa using hdigit⟩

theorem unbroken_ipv6Chars (pieces : List Nat) : Unbroken (ipv6Chars pieces) := by
  have hjoined : ∀ l : List Nat, Unbroken ([':'].intercalate (l.map (Nat.toDigits 16))) := fun l =>
    Unbroken.intercalate (by decide) (List.forall_mem_map.2 fun n _ => unbroken_toDigits n)
  unfold ipv6Chars
  dsimp only
  split
  · exact hjoined _
  · refine Unbroken.append_iff.2 ⟨hjoined _, ?_⟩
    rw [Unbroken.cons_iff, Unbroken.cons_iff]
    exact ⟨by decide, by decide, hjoined _⟩

namespace Host

theorem unbroken_of_bracketed {cs : List Char} {host : Host} (h : bracketed cs = .ok host) :
    Unbroken host.chars := by
  unfold bracketed at h
  split at h
  · split at h
    · cases h
      rw [chars, List.cons_append, Unbroken.cons_iff, Unbroken.append_iff]
      exact ⟨by decide, unbroken_ipv6Chars _, by decide⟩
    · cases h
  · cases h

/-- Percent signs bring in any character, and a domain name keeps those out again that break a line.
-/
theorem unbroken_of_parse {domain? : DomainReader} (hdomain : domain?.Strict) {cs : List Char}
    {host : Host} (h : parse domain? cs = .ok host) : Unbroken host.chars := by
  unfold parse at h
  split at h
  · exact unbroken_of_bracketed h
  split at h
  · cases h
  · cases h
  rename_i name _ hname
  split at h
  · split at h
    · cases h
      exact unbroken_ipv4Chars _
    · cases h
  · cases h
    exact hdomain.unbroken hname

theorem le_of_isPrinted (c : Char) (h : isPrinted c = true) : 0x20 ≤ c.toNat :=
  Unbroken.le_of_passed (p := isPrinted) (by decide) h

theorem unbroken_of_parseOpaque {cs : List Char} {host : Host} (h : parseOpaque cs = .ok host) :
    Unbroken host.chars := by
  unfold parseOpaque at h
  split at h
  · exact unbroken_of_bracketed h
  split at h
  · cases h
  · cases h
    exact Text.unbroken_percentEncode le_of_isPrinted _

end Host

theorem unbroken_of_reached {domain? : DomainReader} (hdomain : domain?.Strict)
    {scheme front : List Char} {a : Host × Option Nat}
    (h : reached domain? scheme front = some a) : Unbroken a.1.chars := by
  obtain ⟨-, hhost⟩ := Blanks.reached_eq_some h
  split at hhost
  · exact Host.unbroken_of_parse hdomain hhost
  · exact Host.unbroken_of_parseOpaque hhost

/-! ## Paths -/

theorem le_of_keptInPath (c : Char) (h : keptInPath c = true) : 0x20 ≤ c.toNat := by
  simp only [keptInPath, keptInFragment, Bool.and_eq_true] at h
  exact Host.le_of_isPrinted c h.1.1

theorem unbroken_addSegment {path : List (List Char)} (h : ∀ s ∈ path, Unbroken s)
    (segment : List Char) (isLast : Bool) :
    ∀ s ∈ addSegment path segment isLast, Unbroken s := by
  have hfolder : ∀ s ∈ (if isLast then [[]] else [] : List (List Char)), Unbroken s := by
    cases isLast <;> simp
  unfold addSegment
  dsimp only
  split
  · exact List.forall_mem_append.2 ⟨fun s hs => h s (List.dropLast_subset _ hs), hfolder⟩
  split
  · exact List.forall_mem_append.2 ⟨h, hfolder⟩
  · refine List.forall_mem_append.2 ⟨h, List.forall_mem_singleton.2 ?_⟩
    exact Text.unbroken_percentEncode le_of_keptInPath segment

theorem unbroken_addSegments {path : List (List Char)} (h : ∀ s ∈ path, Unbroken s)
    (l : List (List Char)) : ∀ s ∈ addSegments path l, Unbroken s := by
  fun_induction addSegments path l with
  | case1 => exact h
  | case2 path segment => exact unbroken_addSegment h segment true
  | case3 path segment r _ ih => exact ih (unbroken_addSegment h segment false)

theorem unbroken_resolvePath (k : SchemeKind) (cs : List Char) : Unbroken (resolvePath k cs) := by
  unfold resolvePath
  split
  · split <;> decide
  · refine Unbroken.flatMap_iff.2 fun s hs => Unbroken.cons_iff.2 ⟨by decide, ?_⟩
    exact unbroken_addSegments (List.forall_mem_nil _) _ s hs

/-! ## Addresses -/

/-- No line breaks in what is signed of an address. -/
structure OnLines (u : Url) : Prop where
  host : ∀ host, u.host? = some host → Unbroken host.chars
  path : Unbroken u.path

section Addresses

variable {domain? : DomainReader} (hdomain : domain?.Strict)

include hdomain

theorem onLines_of_readAuthority {scheme cs : List Char} {u : Url}
    (h : hosted (readAuthority domain? scheme cs) = some u) : u.OnLines := by
  rw [hosted_readAuthority] at h
  obtain ⟨a, ha, rfl⟩ := Option.map_eq_some_iff.1 h
  refine ⟨?_, unbroken_resolvePath _ _⟩
  rintro host ⟨⟩
  exact unbroken_of_reached hdomain ha

theorem onLines_of_readFile {cs : List Char} {u : Url}
    (h : hosted (readFile domain? cs) = some u) : u.OnLines := by
  obtain ⟨r, host, -, hhost, rfl⟩ := hosted_readFile_eq_some h
  refine ⟨fun host' hhost' => ?_, ?_⟩
  · simp only [filed, Tail.beside] at hhost'
    split at hhost'
    · cases hhost'
    · obtain rfl := Option.some.inj (Option.filter_eq_some_iff.1 hhost').1
      exact Host.unbroken_of_parse hdomain hhost
  · have hpath := unbroken_resolvePath .file (Tail.split (r.drop (authority .file r).length)).path
    exact Unbroken.cons_iff.2 ⟨by decide, hpath.of_subset (List.dropWhile_suffix _).subset⟩

theorem onLines_of_hosted {cs : List Char} {u : Url} (h : hosted (parse domain? cs) = some u) :
    u.OnLines := by
  rw [parse_eq_read, read] at h
  split at h
  · cases h
  split at h
  · exact onLines_of_readAuthority hdomain h
  · exact onLines_of_readFile hdomain h
  · rw [read_other] at h
    split at h
    · exact onLines_of_readAuthority hdomain h
    · obtain ⟨hplain, host, hhost⟩ := hosted_eq_some.1 h
      cases hplain
      cases hhost

theorem onLines_of_reader {cs : List Char} {a : Address} {host : List Char}
    (h : reader domain? cs = .ok a) (hhost : a.host? = some host) :
    Unbroken host ∧ Unbroken a.path := by
  unfold reader at h
  split at h
  · rename_i u hparse
    obtain rfl := Except.ok.inj h
    obtain ⟨host, hu, rfl⟩ := Option.map_eq_some_iff.1 hhost
    have hlines := onLines_of_hosted hdomain (hosted_eq_some.2 ⟨hparse, host, hu⟩)
    exact ⟨hlines.host host hu, hlines.path⟩
  · cases h

/-- **No host and no path that is read at hand breaks a line.** -/
theorem onLines_reader : (reader domain?).OnLines where
  host h hhost := (onLines_of_reader hdomain h hhost).1.lineEnds_notMem.1
  path h hhost := (onLines_of_reader hdomain h hhost).2.lineEnds_notMem.1

end Addresses

end Url

end Flowline
