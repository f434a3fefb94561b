import Flowline.Chat.Signature
import Flowline.Proofs.Escapes
import Flowline.Proofs.SixBits

/-! # The parameters of a signed address

An address is signed exactly if it is one and has a host. The text of it stays as it is, and the
three parameters behind it are read back by whoever takes the query apart at its separators and
undoes the encodings, whatever the key, the date and the secret hold. -/

namespace Flowline.Signature

/-! ## Queries taken apart -/

/-- The parameters of a query: a name up to the first sign of equality, and the bytes of a value. -/
def pairs (query : List Char) : List (List Char × List UInt8) :=
  (query.splitOn '&').map fun part =>
    (part.takeWhile (· ≠ '='), Text.percentDecode ((part.dropWhile (· ≠ '=')).drop 1))

/-- A parameter as it is written. -/
def parameter (p : List Char × List Char) : List Char :=
  p.1 ++ '=' :: Text.percentEncode Text.isUnreserved p.2

theorem ampersand_notMem_parameter {p : List Char × List Char} (h : '&' ∉ p.1) :
    '&' ∉ parameter p := by
  intro hmem
  rcases List.mem_append.1 hmem with hname | hvalue
  · exact h hname
  rcases List.mem_cons.1 hvalue with heq | hvalue
  · cases heq
  rcases Text.mem_percentEncode hvalue with hkept | hpercent
  · cases hkept
  · cases hpercent

theorem pair_parameter {p : List Char × List Char} (h : '=' ∉ p.1) :
    ((parameter p).takeWhile (· ≠ '='),
      Text.percentDecode (((parameter p).dropWhile (· ≠ '=')).drop 1)) =
      (p.1, Text.utf8 p.2) := by
  have hname : ∀ c ∈ p.1, decide (c ≠ '=') = true := by
    intro c hc
    exact decide_eq_true fun heq => h (heq ▸ hc)
  have hpercent : Text.isUnreserved '%' = false := rfl
  have hvalue : Text.percentDecode (Text.percentEncode Text.isUnreserved p.2) = Text.utf8 p.2 := by
    simpa [Text.percentDecode] using Text.percentDecode_percentEncode hpercent p.2 []
  rw [parameter, List.takeWhile_append_of_pos hname, List.dropWhile_append_of_pos hname]
  simp [hvalue]

/-- Names without separators are read back with their values. -/
theorem pairs_query {l : List (List Char × List Char)} (hne : l ≠ [])
    (h : ∀ p ∈ l, '&' ∉ p.1 ∧ '=' ∉ p.1) :
    pairs (query l) = l.map fun p => (p.1, Text.utf8 p.2) := by
  have hapart : ∀ part ∈ l.map parameter, '&' ∉ part := by
    intro part hpart
    obtain ⟨p, hp, rfl⟩ := List.mem_map.1 hpart
    exact ampersand_notMem_parameter (h p hp).1
  show ((['&'].intercalate (l.map parameter)).splitOn '&').map _ = _
  rw [List.splitOn_intercalate _ hapart (by simpa using hne), List.map_map]
  exact List.map_congr_left fun p hp => pair_parameter (h p hp).2

theorem pairs_parameters (host path key secret date : List Char) :
    pairs (query (parameters host path key secret date)) =
      (parameters host path key secret date).map fun p => (p.1, Text.utf8 p.2) := by
  have hnames : ∀ name ∈ ["authorization".toList, "date".toList, "host".toList],
      '&' ∉ name ∧ '=' ∉ name := by decide
  refine pairs_query (by simp [parameters]) fun p hp => hnames p.1 ?_
  exact List.mem_map_of_mem (f := Prod.fst) hp

/-! ## Signed addresses -/

theorem utf8_origin (key : String) (signature : List Char) :
    Text.utf8 (origin key.toList signature) = Text.utf8OfString ("api_key=\"" ++ key ++
      "\", algorithm=\"hmac-sha256\", headers=\"host date request-line\", signature=\"" ++
      String.ofList signature ++ "\"") := by
  unfold Text.utf8OfString origin
  -- the joined texts are taken apart first, or the next lemma is tried on each of them
  simp only [String.toList_append]
  simp only [String.toList_ofList]

theorem digest_canonical (secret date : String) (host path : List Char) :
    digest secret.toList (canonical host date.toList path) =
      Text.base64 (Digest.hmac (Text.utf8OfString secret) (Text.utf8OfString
        ("host: " ++ String.ofList host ++ "\ndate: " ++ date ++ "\nGET " ++ String.ofList path ++
          " HTTP/1.1"))) := by
  unfold Text.utf8OfString digest canonical
  simp only [String.toList_append]
  simp only [String.toList_ofList]

section Sign

variable {read : AddressReader} {url key secret date : String}

theorem sign_eq_error_iff : (∃ reason, sign read url key secret date = .error (.signing reason)) ↔
    (∃ reason, read url.toList = .error reason) ∨
      ∃ a, read url.toList = .ok a ∧ a.host? = none := by
  unfold sign
  cases hread : read url.toList with
  | error reason => simp
  | ok a => cases hhost : a.host? <;> simp [hhost]

theorem sign_of_host {a : Address} {host : List Char} (hread : read url.toList = .ok a)
    (hhost : a.host? = some host) :
    sign read url key secret date = .ok (String.ofList (append url.toList
      (query (parameters host a.path key.toList secret.toList date.toList)))) := by
  rw [sign, hread]
  dsimp only
  rw [hhost]

theorem exists_host_of_sign {text : String} (h : sign read url key secret date = .ok text) :
    ∃ a host, read url.toList = .ok a ∧ a.host? = some host := by
  cases hread : read url.toList with
  | error reason =>
    rw [sign, hread] at h
    cases h
  | ok a =>
    cases hhost : a.host? with
    | none =>
      rw [sign, hread] at h
      dsimp only at h
      rw [hhost] at h
      cases h
    | some host => exact ⟨a, host, rfl, hhost⟩

end Sign

/-- **The parameters survive their encodings.** However addresses are read, one is refused exactly
if it is none or has no host. Otherwise the three parameters stand behind its text as it was given,
and taken apart and decoded they are the date byte for byte, the host, and the authorization, which
in base 64 holds the key and the signature of host, date and path. -/
theorem sign_decodes (read : AddressReader) (url key secret date : String) :
    ((∃ reason, sign read url key secret date = .error (.signing reason)) ↔
      (∃ reason, read url.toList = .error reason) ∨
        ∃ a, read url.toList = .ok a ∧ a.host? = none) ∧
      ∀ a host, read url.toList = .ok a → a.host? = some host →
        ∃ q authorization signature,
          sign read url key secret date =
            .ok (url ++ (if '?' ∈ url.toList then "&" else "?") ++ q) ∧
          pairs q.toList = [("authorization".toList, Text.utf8 authorization),
            ("date".toList, Text.utf8OfString date), ("host".toList, Text.utf8 host)] ∧
          Text.unbase64? authorization = some (Text.utf8OfString ("api_key=\"" ++ key ++
            "\", algorithm=\"hmac-sha256\", headers=\"host date request-line\", signature=\"" ++
            signature ++ "\"")) ∧
          Text.unbase64? signature.toList = some (Digest.hmac (Text.utf8OfString secret)
            (Text.utf8OfString ("host: " ++ String.ofList host ++ "\ndate: " ++ date ++
              "\nGET " ++ String.ofList a.path ++ " HTTP/1.1"))) := by
  refine ⟨sign_eq_error_iff, fun a host hread hhost => ?_⟩
  let signature := digest secret.toList (canonical host date.toList a.path)
  refine ⟨String.ofList (query (parameters host a.path key.toList secret.toList date.toList)),
    Text.base64 (Text.utf8 (origin key.toList signature)), String.ofList signature, ?_, ?_, ?_, ?_⟩
  · rw [sign_of_host hread hhost, append]
    refine congrArg Except.ok (String.toList_inj.1 ?_)
    split <;> simp
  · rw [String.toList_ofList, pairs_parameters]
    rfl
  · rw [Text.unbase64?_eq_some_iff, utf8_origin]
  · rw [String.toList_ofList, Text.unbase64?_eq_some_iff]
    exact digest_canonical secret date host a.path

end Flowline.Signature
