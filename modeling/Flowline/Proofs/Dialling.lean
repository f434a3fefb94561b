import Flowline.Proofs.Standard
import Flowline.Url.Dial

/-! # What is asked for

A client that is as strict as a request line keeps to the standard: it asks for the path and the
query of the address that it dials as they are written, and passes over a fragment. -/

namespace Flowline.Dial

/-- Which of the two schemes an address has, and what follows the slashes. -/
def behindScheme? : List Char → Option (Bool × List Char)
  | 'w' :: 's' :: ':' :: '/' :: '/' :: r => some (false, r)
  | 'w' :: 's' :: 's' :: ':' :: '/' :: '/' :: r => some (true, r)
  | _ => none

/-- What stands in front of the path. -/
def authority (cs : List Char) : List Char := cs.takeWhile fun c => c ≠ '/' && c ≠ '?' && c ≠ '#'

/-- What is asked for behind an authority, up to a fragment. -/
def asked (cs : List Char) : List Char := (cs.drop (authority cs).length).takeWhile (· ≠ '#')

/-- Where the authority leads. -/
def reached (secure : Bool) (front : List Char) : Option (List Char × Nat) := do
  let user := (front.reverse.dropWhile (· ≠ '@')).reverse
  if !user.dropLast.all isUserChar then none
  let (host, port) ← splitHost (front.drop user.length)
  let port ← readPort secure port
  return (host, port)

theorem behindScheme?_eq_none {cs : List Char}
    (hplain : ∀ r, cs = 'w' :: 's' :: ':' :: '/' :: '/' :: r → False)
    (hsecure : ∀ r, cs = 'w' :: 's' :: 's' :: ':' :: '/' :: '/' :: r → False) :
    behindScheme? cs = none := by
  unfold behindScheme?
  split
  · exact (hplain _ rfl).elim
  · exact (hsecure _ rfl).elim
  · rfl

theorem ofUrl?_eq (url : List Char) :
    ofUrl? url = (behindScheme? url).bind fun p =>
      if lengthLimit < (Text.utf8 url).length then none
      else (reached p.1 (authority p.2)).bind fun q =>
        (readTarget (asked p.2)).map fun target => ⟨p.1, q.1, q.2, target⟩ := by
  have hscheme : ofUrl? url = (behindScheme? url).bind fun p => do
      if lengthLimit < (Text.utf8 url).length then none
      let user := ((authority p.2).reverse.dropWhile (· ≠ '@')).reverse
      if !user.dropLast.all isUserChar then none
      let (host, port) ← splitHost ((authority p.2).drop user.length)
      let port ← readPort p.1 port
      let target ← readTarget (asked p.2)
      return ⟨p.1, host, port, target⟩ := by
    unfold ofUrl?
    by_cases hlong : lengthLimit < (Text.utf8 url).length <;> simp only [hlong, if_true, if_false]
    all_goals
      split
      · rfl
      · rfl
      · rename_i hplain hsecure
        rw [behindScheme?_eq_none hplain hsecure]
        rfl
  rw [hscheme]
  congr 1
  funext p
  unfold reached
  split
  · rfl
  · dsimp only
    split
    · rfl
    · simp only [Option.bind_eq_bind, Option.bind_assoc, Option.map_eq_bind]
      rfl

/-! ## A text behind an address -/

/-- A front without the first character of what follows it stands in the part before that. -/
theorem exists_of_append_eq (front : List Char) {r cs s : List Char} (h : cs ++ s = front ++ r)
    (hs : ∀ c, s.head? = some c → c ∉ front) : ∃ r', cs = front ++ r' ∧ r = r' ++ s := by
  rcases List.append_eq_append_iff.1 h with ⟨a, hfront, htail⟩ | ⟨r', hcs, hr⟩
  · cases a with
    | nil => exact ⟨[], by rw [hfront, List.append_nil, List.append_nil], htail.symm⟩
    | cons c a =>
      refine absurd ?_ (hs c (by rw [htail]; rfl))
      rw [hfront]
      exact List.mem_append_right _ (List.mem_cons_self ..)
  · exact ⟨r', hcs, hr⟩

theorem behindScheme?_append {cs s : List Char} {p : Bool × List Char}
    (hs : ∀ c, s.head? = some c → c ∉ ['w', 's', ':', '/']) (h : behindScheme? (cs ++ s) = some p) :
    ∃ rest, behindScheme? cs = some (p.1, rest) ∧ p.2 = rest ++ s := by
  unfold behindScheme? at h
  split at h
  · rename_i r hr
    obtain ⟨rest, rfl, rfl⟩ := exists_of_append_eq ['w', 's', ':', '/', '/'] hr
      fun c hc hmem => hs c hc (by simpa using hmem)
    cases h
    exact ⟨rest, rfl, rfl⟩
  · rename_i r hr
    obtain ⟨rest, rfl, rfl⟩ := exists_of_append_eq ['w', 's', 's', ':', '/', '/'] hr
      fun c hc hmem => hs c hc (by simpa using hmem)
    cases h
    exact ⟨rest, rfl, rfl⟩
  · cases h

theorem behindScheme?_subset {cs : List Char} {p : Bool × List Char}
    (h : behindScheme? cs = some p) : p.2 ⊆ cs := by
  unfold behindScheme? at h
  split at h
  · cases h
    exact (List.suffix_append ['w', 's', ':', '/', '/'] _).subset
  · cases h
    exact (List.suffix_append ['w', 's', 's', ':', '/', '/'] _).subset
  · cases h

/-- What is asked for at an address. -/
def target? (url : List Char) : Option (List Char) := (ofUrl? url).map target

theorem target?_eq_some {url t : List Char} (h : target? url = some t) :
    ∃ p q, behindScheme? url = some p ∧ ¬ lengthLimit < (Text.utf8 url).length ∧
      reached p.1 (authority p.2) = some q ∧ readTarget (asked p.2) = some t := by
  obtain ⟨d, hd, rfl⟩ := Option.map_eq_some_iff.1 h
  rw [ofUrl?_eq] at hd
  obtain ⟨p, hp, hd⟩ := Option.bind_eq_some_iff.1 hd
  split at hd
  · cases hd
  rename_i hshort
  obtain ⟨q, hq, hd⟩ := Option.bind_eq_some_iff.1 hd
  obtain ⟨target, htarget, rfl⟩ := Option.map_eq_some_iff.1 hd
  exact ⟨p, q, hp, hshort, hq, htarget⟩

section Append

/-- A text that starts with the sign of a query or of a fragment. -/
def Marked (s : List Char) : Prop := ∀ c, s.head? = some c → c = '?' ∨ c = '#'

variable {s : List Char} (hs : Marked s)

include hs

theorem authority_append (cs : List Char) : authority (cs ++ s) = authority cs := by
  refine Url.takeWhile_append_of_stop (fun c hc => ?_) cs
  rcases hs c hc with rfl | rfl <;> rfl

theorem drop_authority_append (cs : List Char) :
    (cs ++ s).drop (authority (cs ++ s)).length = cs.drop (authority cs).length ++ s := by
  rw [authority_append hs]
  exact Url.drop_takeWhile_append ..

/-- An address that is dialled with a text behind it is dialled alike without that text, as far as
the target. -/
theorem target?_append {url t : List Char} (h : target? (url ++ s) = some t) :
    ∃ rest, rest ⊆ url ∧ readTarget ((rest.drop (authority rest).length ++ s).takeWhile (· ≠ '#')) =
        some t ∧ (readTarget (asked rest) = some t → target? url = some t) := by
  obtain ⟨p, q, hp, hshort, hq, ht⟩ := target?_eq_some h
  have hscheme : ∀ c, s.head? = some c → c ∉ ['w', 's', ':', '/'] := by
    intro c hc
    rcases hs c hc with rfl | rfl <;> decide
  obtain ⟨rest, hrest, hp2⟩ := behindScheme?_append hscheme hp
  rw [hp2, authority_append hs] at hq
  rw [asked, hp2, drop_authority_append hs] at ht
  refine ⟨rest, behindScheme?_subset hrest, ht, fun hasked => ?_⟩
  have hlength : ¬ lengthLimit < (Text.utf8 url).length := by
    rw [Text.utf8, List.flatMap_append, List.length_append] at hshort
    exact fun hlong => hshort (Nat.lt_add_right _ hlong)
  rw [target?, ofUrl?_eq, hrest]
  dsimp only [Option.bind_some]
  rw [if_neg hlength, hq]
  dsimp only [Option.bind_some]
  rw [hasked]
  rfl

end Append

theorem eq_of_readTarget {cs t : List Char} (hne : cs ≠ []) (h : readTarget cs = some t) :
    t = cs := by
  unfold readTarget at h
  dsimp only at h
  rw [if_neg (by simpa using hne)] at h
  split at h
  · cases h
  · exact (Option.some.inj h).symm

/-- **A strict client keeps to the standard.** -/
theorem standard_target? : RequestReader.Standard target? where
  fragment := by
    intro cs f t hcs h
    have hmarked : Marked ('#' :: f) := fun c hc => .inr (Option.some.inj hc).symm
    obtain ⟨rest, hrest, ht, hasked⟩ := target?_append hmarked h
    refine hasked ?_
    rwa [Url.takeWhile_append_of_stop] at ht
    intro c hc
    cases hc
    rfl
  query := by
    intro front q t hfront hq h
    have hmarked : Marked ('?' :: q) := fun c hc => .inl (Option.some.inj hc).symm
    obtain ⟨rest, hrest, ht, -⟩ := target?_append hmarked h
    have hbare := (hfront.mono hrest).mono (List.drop_subset (authority rest).length rest)
    refine ⟨rest.drop (authority rest).length, hbare.mark, ?_⟩
    rw [List.takeWhile_eq_self_iff.2] at ht
    · exact eq_of_readTarget (by simp) ht
    · intro c hc
      refine decide_eq_true fun heq => ?_
      subst heq
      rcases List.mem_append.1 hc with hmem | hmem
      · exact hbare.number hmem
      · exact hq ((List.mem_cons.1 hmem).resolve_left (by decide))

end Flowline.Dial
