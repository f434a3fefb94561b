import Flowline.Proofs.OnLines
import Flowline.Proofs.SignedQuery

/-! # The text that is signed

The host, the date and the path stand in lines of their own, and the date is any text: it may
imitate the other two lines. The host ends at the first line break nevertheless and the path starts
behind the last one, because neither of them holds any. So what is signed tells the host, the date
and the path. -/

namespace Flowline

namespace Url

/-! ## Texts around a sign -/

/-- The first of some sign is where two texts are cut alike. -/
theorem append_cons_inj_of_notMem {sign : Char} {a a' b b' : List Char} (ha : sign ∉ a)
    (ha' : sign ∉ a') : a ++ sign :: b = a' ++ sign :: b' ↔ a = a' ∧ b = b' := by
  constructor
  · intro h
    have hcut := cut_append_signed ha (some b)
    have hcut' := cut_append_signed ha' (some b')
    simp only [signed, Option.elim_some] at hcut hcut'
    rw [h, hcut'] at hcut
    cases hcut
    exact ⟨rfl, rfl⟩
  · rintro ⟨rfl, rfl⟩
    rfl

/-- So is the last one. -/
theorem append_cons_inj_of_notMem_right {sign : Char} {a a' b b' : List Char} (hb : sign ∉ b)
    (hb' : sign ∉ b') : a ++ sign :: b = a' ++ sign :: b' ↔ a = a' ∧ b = b' := by
  have hreverse : ∀ a b : List Char, (a ++ sign :: b).reverse = b.reverse ++ sign :: a.reverse := by
    simp
  rw [← List.reverse_inj, hreverse, hreverse, append_cons_inj_of_notMem (by simpa using hb)
    (by simpa using hb'), List.reverse_inj, List.reverse_inj, and_comm]

end Url

namespace Signature

theorem canonical_eq (host date path : List Char) :
    canonical host date path = "host: ".toList ++ (host ++ ('\n' :: ("date: ".toList ++
      (date ++ ('\n' :: ("GET ".toList ++ path ++ " HTTP/1.1".toList)))))) := by
  have hdate : "\ndate: ".toList = '\n' :: "date: ".toList := by decide
  have hget : "\nGET ".toList = '\n' :: "GET ".toList := by decide
  unfold canonical
  -- `rw` would compare the two sides by opening the texts
  rewrite [hdate, hget]
  simp only [List.append_assoc, List.cons_append]

/-- Whatever the dates hold, the texts tell the hosts, the dates and the paths. -/
theorem canonical_inj {host host' date date' path path' : List Char} (hhost : '\n' ∉ host)
    (hhost' : '\n' ∉ host') (hpath : '\n' ∉ path) (hpath' : '\n' ∉ path') :
    canonical host date path = canonical host' date' path' ↔
      host = host' ∧ date = date' ∧ path = path' := by
  have hlast : ∀ {p : List Char}, '\n' ∉ p → '\n' ∉ "GET ".toList ++ p ++ " HTTP/1.1".toList := by
    intro p hp
    rw [List.mem_append, List.mem_append, not_or, not_or]
    exact ⟨⟨by decide, hp⟩, by decide⟩
  rw [canonical_eq, canonical_eq, List.append_cancel_left_eq,
    Url.append_cons_inj_of_notMem hhost hhost', List.append_cancel_left_eq,
    Url.append_cons_inj_of_notMem_right (hlast hpath) (hlast hpath'),
    List.append_cancel_right_eq, List.append_cancel_left_eq]

/-- A text is an address that is signed with its own host and path. -/
structure SignedFor (read : AddressReader) (url key secret date text : String)
    (host path : List Char) : Prop where
  address : ∃ a, read url.toList = .ok a ∧ a.host? = some host ∧ a.path = path
  text : text.toList = append url.toList
    (query (parameters host path key.toList secret.toList date.toList))

section SignedFor

variable {read : AddressReader} {url key secret date text : String}

theorem SignedFor.onLines {host path : List Char} (hread : read.OnLines)
    (h : SignedFor read url key secret date text host path) : '\n' ∉ host ∧ '\n' ∉ path := by
  obtain ⟨a, ha, hhost, rfl⟩ := h.address
  exact ⟨hread.host ha hhost, hread.path ha hhost⟩

theorem exists_signedFor (h : sign read url key secret date = .ok text) :
    ∃ host path, SignedFor read url key secret date text host path := by
  obtain ⟨a, host, ha, hhost⟩ := exists_host_of_sign h
  refine ⟨host, a.path, ⟨a, ha, hhost, rfl⟩, ?_⟩
  rw [sign_of_host ha hhost] at h
  rw [← Except.ok.inj h, String.toList_ofList]

end SignedFor

/-- **What is signed is unambiguous.** For a reader whose hosts and paths stand on one line, two
addresses that can be signed, at any two dates, have the same text to be signed exactly if they have
the same host, the same path and the same date. -/
theorem canonical_unambiguous {read : AddressReader} (hread : read.OnLines)
    {url₁ key₁ secret₁ date₁ text₁ url₂ key₂ secret₂ date₂ text₂ : String}
    (h₁ : sign read url₁ key₁ secret₁ date₁ = .ok text₁)
    (h₂ : sign read url₂ key₂ secret₂ date₂ = .ok text₂) :
    ∃ host₁ path₁ host₂ path₂, SignedFor read url₁ key₁ secret₁ date₁ text₁ host₁ path₁ ∧
      SignedFor read url₂ key₂ secret₂ date₂ text₂ host₂ path₂ ∧
      (canonical host₁ date₁.toList path₁ = canonical host₂ date₂.toList path₂ ↔
        host₁ = host₂ ∧ date₁ = date₂ ∧ path₁ = path₂) := by
  obtain ⟨host₁, path₁, hsigned₁⟩ := exists_signedFor h₁
  obtain ⟨host₂, path₂, hsigned₂⟩ := exists_signedFor h₂
  obtain ⟨hhost₁, hpath₁⟩ := hsigned₁.onLines hread
  obtain ⟨hhost₂, hpath₂⟩ := hsigned₂.onLines hread
  refine ⟨host₁, path₁, host₂, path₂, hsigned₁, hsigned₂, ?_⟩
  rw [canonical_inj hhost₁ hhost₂ hpath₁ hpath₂, String.toList_inj]

theorem canonical_unambiguous_imitated :
    let read := Url.reader Url.plainDomain?
    ∃ text₁ text₂, sign read "wss://h/q" "k" "s" "d" = .ok text₁ ∧
      sign read "wss://h/p" "k" "s" "d\nGET /q" = .ok text₂ ∧
      canonical "h".toList "d".toList "/q".toList ≠
        canonical "h".toList "d\nGET /q".toList "/p".toList := by
  intro read
  let a (path : List Char) : Address := ⟨some "h".toList, path, none, none⟩
  have hread₁ : read "wss://h/q".toList = .ok (a "/q".toList) := by decide +kernel
  have hread₂ : read "wss://h/p".toList = .ok (a "/p".toList) := by decide +kernel
  have hsign₁ : sign read "wss://h/q" "k" "s" "d" = .ok _ := sign_of_host hread₁ rfl
  have hsign₂ : sign read "wss://h/p" "k" "s" "d\nGET /q" = .ok _ := sign_of_host hread₂ rfl
  obtain ⟨_, _, _, _, ⟨⟨b₁, hb₁, hhost₁, rfl⟩, -⟩, ⟨⟨b₂, hb₂, hhost₂, rfl⟩, -⟩, hiff⟩ :=
    canonical_unambiguous (Url.onLines_reader Url.strict_plainDomain?) hsign₁ hsign₂
  cases hread₁.symm.trans hb₁
  cases hread₂.symm.trans hb₂
  cases hhost₁
  cases hhost₂
  refine ⟨_, _, hsign₁, hsign₂, fun hsame => ?_⟩
  exact absurd (hiff.1 hsame).2.1 (by decide)

end Signature

end Flowline
