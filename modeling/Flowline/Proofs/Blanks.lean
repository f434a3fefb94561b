import Flowline.Proofs.Escapes
import Flowline.Proofs.Hosted
import Flowline.Proofs.Standard

/-! # Blanks at the end of an address

Blanks around an address count for nothing. Once something stands behind it, those at its end are
characters of it like any other: of the host, of the port or of the path, whatever comes last. An
address that is read with them is another one, or none. -/

namespace Flowline.Url

/-! ## Hosts -/

/-- What holds of the first code points one by one holds of their characters. -/
theorem forall_toNat_lt {bound : Nat} (P : Char → Prop)
    (h : ∀ n ∈ List.range bound, P (Char.ofNat n)) {c : Char} (hc : c.toNat < bound) : P c := by
  have hn := h c.toNat (List.mem_range.2 hc)
  rwa [Char.ofNat_toNat] at hn

theorem forall_isBlank (P : Char → Prop) (h : ∀ n ∈ List.range 33, P (Char.ofNat n)) {c : Char}
    (hc : isBlank c = true) : P c :=
  forall_toNat_lt P h (Nat.lt_succ_of_le (of_decide_eq_true hc))

theorem isSlash_of_isBlank (k : SchemeKind) {c : Char} (hc : isBlank c = true) :
    k.isSlash c = false := by
  cases k <;> exact forall_isBlank (SchemeKind.isSlash _ · = false) (by decide) hc

/-- A percent sign takes no blank with it. -/
theorem mem_percentDecode {c : Char} (hc : isBlank c = true) {cs : List Char} (h : c ∈ cs) :
    c.toNat.toUInt8 ∈ Text.percentDecode cs := by
  have hdigit := forall_isBlank (Text.hexDigit? · = none) (by decide) hc
  have hbyte := forall_isBlank (fun c => c.toNat.toUInt8 ∈ String.utf8EncodeChar c) (by decide) hc
  fun_induction Text.percentDecode cs with
  | case1 => cases h
  | case2 a b r x y hb ha ih =>
    -- the two characters that go with the percent sign are digits, and a blank is none
    have hne : c ≠ '%' ∧ c ≠ a ∧ c ≠ b := by
      refine ⟨?_, ?_, ?_⟩ <;> rintro rfl
      · cases hc
      · cases hdigit.symm.trans ha
      · cases hdigit.symm.trans hb
    simp only [List.mem_cons, hne.1, hne.2.1, hne.2.2, false_or] at h
    exact List.mem_cons_of_mem _ (ih h)
  | case3 a b r hnone ih =>
    rcases List.mem_cons.1 h with rfl | hr
    · cases hc
    · exact List.mem_cons_of_mem _ (ih hr)
  | case4 d r hd ih =>
    rcases List.mem_cons.1 h with rfl | hr
    · exact List.mem_append_left _ hbyte
    · exact List.mem_append_right _ (ih hr)

/-- What follows a first byte takes in no byte that is a character of its own. -/
theorem mem_following {n bits : Nat} {least greatest b : UInt8} {r : List UInt8} (hb : b < 0x80)
    (hleast : 0x80 ≤ least) (h : b ∈ r) : b ∈ (Text.following n bits least greatest r).2 := by
  fun_induction Text.following n bits least greatest r with
  | case1 => exact h
  | case2 => cases h
  | case3 n bits least greatest b' r hb' ih =>
    rcases List.mem_cons.1 h with rfl | hr
    · exact absurd (UInt8.lt_of_lt_of_le hb (UInt8.le_trans hleast hb'.1)) (UInt8.lt_irrefl _)
    · exact ih (by decide) hr
  | case4 => exact h

theorem le_of_announced? {b least greatest : UInt8} {bits n : Nat}
    (h : Text.announced? b = some (bits, n, least, greatest)) : 0x80 ≤ least := by
  unfold Text.announced? at h
  repeat' split at h
  all_goals cases h
  all_goals decide

/-- A byte of its own is a character of its own. -/
theorem mem_ofUtf8Lossy {b : UInt8} (hb : b < 0x80) {bs : List UInt8} (h : b ∈ bs) :
    Char.ofNat b.toNat ∈ Text.ofUtf8Lossy bs := by
  unfold Text.ofUtf8Lossy
  fun_induction Text.characters? bs with
  | case1 => cases h
  | case2 b' r hnone ih =>
    rcases List.mem_cons.1 h with rfl | hr
    · rw [Text.announced?, if_pos hb] at hnone
      cases hnone
    · exact List.mem_cons_of_mem _ (ih hr)
  | case3 b' r bits n least greatest hsome ih =>
    rcases List.mem_cons.1 h with rfl | hr
    · rw [Text.announced?, if_pos hb] at hsome
      cases hsome
      exact List.mem_cons_self ..
    · exact List.mem_cons_of_mem _ (ih (mem_following hb (le_of_announced? hsome) hr))

/-- A domain name neither takes in blanks and controls nor gives any out. -/
structure DomainReader.Strict (domain? : DomainReader) : Prop where
  taken : ∀ {cs c}, isBlank c = true → c ∈ cs → domain? cs = none
  sent : ∀ {cs name c}, domain? cs = some name → isBlank c = true → c ∉ name

theorem strict_plainDomain? : DomainReader.Strict plainDomain? where
  taken := by
    intro cs c hc hmem
    have hkept := forall_isBlank (fun c => c.toLower = c ∧ isForbidden c = true) (by decide) hc
    have hlower : c ∈ cs.map Char.toLower := hkept.1 ▸ List.mem_map_of_mem hmem
    exact if_pos (.inr (.inl (List.any_eq_true.2 ⟨c, hlower, hkept.2⟩)))
  sent := by
    intro cs name c hname hc hmem
    rw [plainDomain?, Option.ite_none_left_eq_some] at hname
    obtain ⟨hfit, hname⟩ := hname
    obtain rfl := Option.some.inj hname
    have hforbidden := forall_isBlank (isForbidden · = true) (by decide) hc
    exact hfit (.inr (.inl (List.any_eq_true.2 ⟨c, hmem, hforbidden⟩)))

/-! ## Blanks behind a host -/

namespace Blanks

variable {domain? : DomainReader} {s : List Char}

theorem bracketed_eq_error (h : Blanks s) (cs : List Char) :
    Host.bracketed (cs ++ s) = .error .invalidIpv6 := by
  have hlast : (cs ++ s).getLast? ≠ some ']' := by
    rw [List.getLast?_append, List.getLast?_eq_some_getLast h.nonempty]
    intro hlast
    exact h.notMem rfl (Option.some.inj hlast ▸ List.getLast_mem h.nonempty)
  rw [Host.bracketed, if_neg hlast]

/-- Blanks do not start a numeric address. -/
theorem eq_append_of_bracket (h : Blanks s) {cs r : List Char} (hr : cs ++ s = '[' :: r) :
    ∃ r', cs = '[' :: r' ∧ r = r' ++ s := by
  cases cs with
  | nil => exact (h.notMem rfl (hr ▸ List.mem_cons_self ..)).elim
  | cons c cs =>
    obtain ⟨rfl, rfl⟩ := List.cons.inj hr
    exact ⟨cs, rfl, rfl⟩

theorem toOption_parse (h : Blanks s) (hdomain : domain?.Strict) (cs : List Char) :
    (Host.parse domain? (cs ++ s)).toOption = none := by
  unfold Host.parse
  split
  · rename_i r hr
    obtain ⟨r', -, rfl⟩ := h.eq_append_of_bracket hr
    rw [h.bracketed_eq_error]
    rfl
  · obtain ⟨c, hmem⟩ := List.exists_mem_of_ne_nil s h.nonempty
    have hc := h.blank c hmem
    have hbyte := forall_isBlank
      (fun c => c.toNat.toUInt8 < 0x80 ∧ Char.ofNat c.toNat.toUInt8.toNat = c) (by decide) hc
    have hsent := mem_ofUtf8Lossy hbyte.1 (mem_percentDecode hc (List.mem_append_right cs hmem))
    rw [hbyte.2] at hsent
    rw [hdomain.taken hc hsent]
    rfl

theorem ne_parseOpaque (h : Blanks s) {cs : List Char} {a b : Host}
    (ha : Host.parseOpaque cs = .ok a) (hb : Host.parseOpaque (cs ++ s) = .ok b) :
    b.chars ≠ a.chars := by
  unfold Host.parseOpaque at hb
  split at hb
  · rename_i r hr
    obtain ⟨r', -, rfl⟩ := h.eq_append_of_bracket hr
    rw [h.bracketed_eq_error] at hb
    cases hb
  · rename_i hbracket
    unfold Host.parseOpaque at ha
    split at ha
    · exact (hbracket _ rfl).elim
    split_ifs at ha hb
    obtain rfl := Except.ok.inj ha
    obtain rfl := Except.ok.inj hb
    rw [Host.chars, Host.chars, Text.percentEncode_append]
    intro heq
    exact Text.percentEncode_ne_nil _ h.nonempty (List.append_right_eq_self.1 heq)

/-! ## Blanks behind a name, a host and a port -/

theorem splitUser_append (h : Blanks s) (cs : List Char) :
    (splitUser (cs ++ s)).2 = (splitUser cs).2 ++ s := by
  have hat : ∀ c ∈ s.reverse, decide (c ≠ '@') = true := by
    intro c hc
    refine decide_eq_true fun heq => h.notMem (c := '@') rfl ?_
    exact heq ▸ List.mem_reverse.1 hc
  simp only [splitUser]
  rw [List.reverse_append, List.takeWhile_append_of_pos hat, List.reverse_append,
    List.reverse_reverse]

/-- Without a colon there is no port. -/
theorem splitPort_of_notMem {cs : List Char} (h : ':' ∉ cs) (inside : Bool) :
    splitPort inside cs = (cs, none) := by
  induction cs generalizing inside with
  | nil => rfl
  | cons c cs ih =>
    rw [List.mem_cons, not_or] at h
    rw [splitPort, if_neg (fun hcolon => h.1 hcolon.1.symm), ih h.2]

theorem splitPort_append (h : Blanks s) (inside : Bool) (cs : List Char) :
    splitPort inside (cs ++ s) = match splitPort inside cs with
      | (host, some port) => (host, some (port ++ s))
      | (host, none) => (host ++ s, none) := by
  induction cs generalizing inside with
  | nil => exact splitPort_of_notMem (h.notMem rfl) inside
  | cons c cs ih =>
    rw [List.cons_append, splitPort, splitPort]
    split
    · rfl
    · rw [ih]
      rcases splitPort (c = '[' || (inside && c ≠ ']')) cs with ⟨host, _ | port⟩ <;> rfl

theorem readPort_append (h : Blanks s) (scheme cs : List Char) :
    readPort scheme (cs ++ s) = .error .invalidPort := by
  obtain ⟨c, hmem⟩ := List.exists_mem_of_ne_nil s h.nonempty
  have hdigit := forall_isBlank (Char.isDigit · = false) (by decide) (h.blank c hmem)
  have hall : (cs ++ s).all Char.isDigit = false :=
    List.all_eq_false.2 ⟨c, List.mem_append_right _ hmem, by rw [hdigit]; exact Bool.false_ne_true⟩
  rw [readPort, hall]
  rfl

theorem toOption_eq_some {α : Type} {r : Except UrlFault α} {a : α} :
    r.toOption = some a ↔ r = .ok a := by
  cases r <;> simp [Except.toOption]

theorem reached_eq_some {scheme front : List Char} {a : Host × Option Nat}
    (h : reached domain? scheme front = some a) :
    let parts := splitPort false (splitUser front).2
    readPort scheme (parts.2.getD []) = .ok a.2 ∧
      (if schemeKind scheme = .network then Host.parse domain? parts.1
        else Host.parseOpaque parts.1) = .ok a.1 := by
  unfold reached at h
  dsimp only at h
  generalize splitPort false (splitUser front).2 = parts at h ⊢
  split at h
  · cases h
  · simp only [Option.bind_eq_bind, Option.bind_eq_some_iff, toOption_eq_some] at h
    obtain ⟨host, hhost, port, hport, ha⟩ := h
    cases ha
    exact ⟨hport, hhost⟩

/-- A front with blanks behind it names no host, or another one. -/
theorem ne_reached (h : Blanks s) (hdomain : domain?.Strict) {scheme front : List Char}
    {a b : Host × Option Nat} (ha : reached domain? scheme front = some a)
    (hb : reached domain? scheme (front ++ s) = some b) : b.1.chars ≠ a.1.chars := by
  obtain ⟨-, ha⟩ := reached_eq_some ha
  obtain ⟨hport, hb⟩ := reached_eq_some hb
  rw [h.splitUser_append, h.splitPort_append] at hport hb
  generalize splitPort false (splitUser front).2 = parts at ha hport hb
  obtain ⟨host, _ | port⟩ := parts
  · split at ha
    · rename_i hk
      rw [if_pos hk] at hb
      cases (toOption_eq_some.2 hb).symm.trans (h.toOption_parse hdomain host)
    · rename_i hk
      rw [if_neg hk] at hb
      exact h.ne_parseOpaque ha hb
  · cases hport.symm.trans (h.readPort_append scheme port)

/-! ## Blanks behind a path -/

/-- What does not separate goes onto the last piece. -/
theorem splitOn_append {sep : Char} (hs : sep ∉ s) (cs : List Char) :
    ∃ front last, cs.splitOn sep = front ++ [last] ∧
      (cs ++ s).splitOn sep = front ++ [last ++ s] := by
  induction cs with
  | nil => exact ⟨[], [], List.splitOn_nil sep, List.splitOn_eq_singleton hs⟩
  | cons c cs ih =>
    obtain ⟨front, last, hcs, happend⟩ := ih
    rw [List.cons_append, List.splitOn_cons_eq_if_modifyHead, List.splitOn_cons_eq_if_modifyHead,
      hcs, happend]
    split
    · exact ⟨[] :: front, last, rfl, rfl⟩
    · cases front with
      | nil => exact ⟨[], c :: last, rfl, rfl⟩
      | cons first front => exact ⟨(c :: first) :: front, last, rfl, rfl⟩

theorem segments_append (h : Blanks s) (k : SchemeKind) (cs : List Char) :
    ∃ front last, segments k cs = front ++ [last] ∧
      segments k (cs ++ s) = front ++ [last ++ s] := by
  have hs : s.map (fun c => if k.isSlash c then '/' else c) = s := by
    refine (List.map_congr_left fun c hc => ?_).trans (List.map_id' s)
    rw [isSlash_of_isBlank k (h.blank c hc)]
    rfl
  rw [segments, segments, List.map_append, hs]
  exact splitOn_append (h.notMem rfl) _

/-- The last segment is put onto what the others make. -/
theorem addSegments_concat (path front : List (List Char)) :
    ∃ folder, ∀ last, addSegments path (front ++ [last]) = addSegment folder last true := by
  induction front generalizing path with
  | nil => exact ⟨path, fun _ => rfl⟩
  | cons segment front ih =>
    obtain ⟨folder, hfolder⟩ := ih (addSegment path segment false)
    refine ⟨folder, fun last => ?_⟩
    rw [← hfolder, List.cons_append, addSegments]
    intro hnil
    cases List.append_eq_nil_iff.1 hnil |>.2

/-- No blank stands in a segment that only points somewhere. -/
theorem isPoint_eq_false {l : List Char} {c : Char} (hc : isBlank c = true) (h : c ∈ l) :
    isPoint l = false := by
  have hpoint := forall_isBlank (fun c => c ≠ '.' ∧ c.toLower ∉ ['%', '2', 'e']) (by decide) hc
  have hone : l ≠ ['.'] := by
    rintro rfl
    exact hpoint.1 (List.mem_singleton.1 h)
  have hcoded : l.map Char.toLower ≠ ['%', '2', 'e'] := by
    intro heq
    exact hpoint.2 (heq ▸ List.mem_map_of_mem h)
  simp [isPoint, hone, hcoded]

theorem isDoublePoint_eq_false {l : List Char} {c : Char} (hc : isBlank c = true) (h : c ∈ l) :
    isDoublePoint l = false := by
  have hhalves : ∀ n, (isPoint (l.take n) && isPoint (l.drop n)) = false := by
    intro n
    rw [← List.take_append_drop n l] at h
    rcases List.mem_append.1 h with hfirst | hsecond
    · rw [isPoint_eq_false hc hfirst, Bool.false_and]
    · rw [isPoint_eq_false hc hsecond, Bool.and_false]
  rw [isDoublePoint, hhalves, hhalves]
  rfl

theorem addSegment_append (h : Blanks s) (folder : List (List Char)) (last : List Char) :
    addSegment folder (last ++ s) true =
      folder ++ [Text.percentEncode keptInPath last ++ Text.percentEncode keptInPath s] := by
  obtain ⟨c, hmem⟩ := List.exists_mem_of_ne_nil s h.nonempty
  have hlast : c ∈ last ++ s := List.mem_append_right _ hmem
  rw [addSegment, isDoublePoint_eq_false (h.blank c hmem) hlast,
    isPoint_eq_false (h.blank c hmem) hlast, Text.percentEncode_append]
  rfl

theorem pathChars_concat (path : List (List Char)) (segment : List Char) :
    pathChars (path ++ [segment]) = pathChars path ++ '/' :: segment := by
  simp [pathChars]

theorem resolvePath_append (h : Blanks s) (k : SchemeKind) {cs : List Char} (hcs : cs ≠ []) :
    ∃ front, resolvePath k (cs ++ s) = front ++ Text.percentEncode keptInPath s ∧
      (resolvePath k cs = front ∨ (resolvePath k cs).getLast? = some '/') := by
  obtain ⟨c, r, rfl⟩ := List.exists_cons_of_ne_nil hcs
  have hcore : (if k.isSlash c then r ++ s else c :: (r ++ s)) =
      (if k.isSlash c then r else c :: r) ++ s := by
    split <;> rfl
  rw [List.cons_append, resolvePath, resolvePath, hcore]
  obtain ⟨front, last, hsegments, happend⟩ :=
    h.segments_append k (if k.isSlash c then r else c :: r)
  obtain ⟨folder, hfolder⟩ := addSegments_concat [] front
  rw [hsegments, happend, hfolder, hfolder, h.addSegment_append, pathChars_concat]
  refine ⟨pathChars folder ++ '/' :: Text.percentEncode keptInPath last, by simp, ?_⟩
  rw [addSegment]
  split
  · exact .inr (by simp [pathChars_concat])
  split
  · exact .inr (by simp [pathChars_concat])
  · exact .inl (pathChars_concat ..)

theorem slash_notMem (h : Blanks s) : '/' ∉ Text.percentEncode keptInPath s := by
  intro hmem
  obtain ⟨c, hc, hcoded⟩ := List.mem_flatMap.1 hmem
  rw [if_neg (by simp [forall_isBlank (keptInPath · = false) (by decide) (h.blank c hc)])] at hcoded
  obtain ⟨b, -, hb⟩ := List.mem_flatMap.1 hcoded
  rcases Text.mem_escaped hb with hkept | heq
  · cases hkept
  · cases heq

/-- A path with blanks behind it is another one, however many slashes it starts with. -/
theorem dropWhile_resolvePath_ne (h : Blanks s) (k : SchemeKind) {cs : List Char} (hcs : cs ≠ []) :
    (resolvePath k (cs ++ s)).dropWhile (· = '/') ≠ (resolvePath k cs).dropWhile (· = '/') := by
  obtain ⟨front, happend, hpath⟩ := h.resolvePath_append k hcs
  have hslash := h.slash_notMem
  have hne := Text.percentEncode_ne_nil keptInPath h.nonempty
  generalize Text.percentEncode keptInPath s = coded at happend hslash hne
  have hstop : ∀ c, coded.head? = some c → decide (c = '/') = false := by
    intro c hc
    exact decide_eq_false fun heq => hslash (heq ▸ List.mem_of_head? hc)
  rw [happend, dropWhile_append_of_stop hstop]
  intro heq
  rcases hpath with rfl | hlast
  · exact hne (List.append_right_eq_self.1 heq)
  -- without the blanks the last segment only pointed somewhere, so the path ends in a slash
  · have hparts := List.takeWhile_append_dropWhile (p := fun c => decide (c = '/'))
      (l := resolvePath k cs)
    rw [← hparts, ← heq, List.getLast?_append, List.getLast?_append,
      List.getLast?_eq_some_getLast hne] at hlast
    exact hslash (Option.some.inj hlast ▸ List.getLast_mem hne)

/-! ## Blanks behind an address -/

theorem foreign (h : Blanks s) : Foreign s := by
  refine ⟨fun c hc => ?_, fun c hc => ?_, fun k c hc => ?_⟩
  · exact forall_isBlank (isSchemeChar · = false) (by decide) (h.blank c (List.mem_of_head? hc))
  · refine decide_eq_false fun heq => h.notMem rfl (heq ▸ List.mem_of_head? hc)
  · exact isSlash_of_isBlank k (h.blank c (List.mem_of_head? hc))

/-- Blanks go onto the host or the port if there is no path, and onto the path otherwise. -/
theorem authority_append (h : Blanks s) (k : SchemeKind) (cs : List Char) :
    authority k cs = cs ∧ authority k (cs ++ s) = cs ++ s ∨
      cs.drop (authority k cs).length ≠ [] ∧ authority k (cs ++ s) = authority k cs := by
  have hs : authority k s = s := by
    refine List.takeWhile_eq_self_iff.2 fun c hc => ?_
    have hsigns := forall_isBlank (fun c => c ≠ '?' ∧ c ≠ '#') (by decide) (h.blank c hc)
    simp [isSlash_of_isBlank k (h.blank c hc), hsigns]
  have happend : authority k (cs ++ s) = if (authority k cs).length = cs.length
      then cs ++ authority k s else authority k cs := List.takeWhile_append
  have hstart : authority k cs <+: cs := List.takeWhile_prefix _
  rw [hs] at happend
  split at happend
  · rename_i hlength
    exact .inl ⟨hstart.eq_of_length hlength, happend⟩
  · rename_i hlength
    refine .inr ⟨fun hnil => hlength ?_, happend⟩
    exact Nat.le_antisymm hstart.length_le (List.drop_eq_nil_iff.1 hnil)

theorem resolvePath_ne (h : Blanks s) (k : SchemeKind) {cs : List Char} (hcs : cs ≠ []) :
    resolvePath k (cs ++ s) ≠ resolvePath k cs :=
  fun heq => h.dropWhile_resolvePath_ne k hcs (congrArg _ heq)

theorem elsewhere_readAuthority (h : Blanks s) (hdomain : domain?.Strict) (scheme : List Char)
    {cs : List Char} (hcs : Bare cs) :
    Elsewhere (readAuthority domain? scheme cs) (readAuthority domain? scheme (cs ++ s)) := by
  intro u v hu hv hhost hpath
  rw [hosted_readAuthority] at hu hv
  obtain ⟨a, ha, rfl⟩ := Option.map_eq_some_iff.1 hu
  obtain ⟨b, hb, rfl⟩ := Option.map_eq_some_iff.1 hv
  rcases h.authority_append (schemeKind scheme) cs with ⟨hall, happend⟩ | ⟨hrest, happend⟩
  · rw [hall] at ha
    rw [happend] at hb
    exact h.ne_reached hdomain ha hb (Option.some.inj hhost)
  · have hbare := hcs.mono (List.drop_subset (authority (schemeKind scheme) cs).length cs)
    rw [happend, drop_authority_append, Tail.split_bare hbare,
      Tail.split_bare (h.bare hbare)] at hpath
    exact h.resolvePath_ne (schemeKind scheme) hrest hpath

theorem elsewhere_readFile (h : Blanks s) (hdomain : domain?.Strict) {cs : List Char}
    (hcs : Bare cs) : Elsewhere (readFile domain? cs) (readFile domain? (cs ++ s)) := by
  intro u v hu hv hhost hpath
  obtain ⟨r, host, hr, hparse, rfl⟩ := hosted_readFile_eq_some hu
  obtain ⟨r', host', hr', hparse', rfl⟩ := hosted_readFile_eq_some hv
  rw [behindSlashes_append h.foreign, hr] at hr'
  obtain rfl : r ++ s = r' := Option.some.inj hr'
  rcases h.authority_append .file r with ⟨-, happend⟩ | ⟨hrest, happend⟩
  · rw [happend] at hparse'
    cases (toOption_eq_some.2 hparse').symm.trans (h.toOption_parse hdomain r)
  · have hbare := (hcs.mono (behindSlashes_subset hr)).mono
      (List.drop_subset (authority .file r).length r)
    rw [happend, drop_authority_append, Tail.split_bare hbare,
      Tail.split_bare (h.bare hbare)] at hpath
    exact h.dropWhile_resolvePath_ne .file hrest (List.cons.inj hpath).2

/-- **An address with blanks behind its front is none, or another one.** -/
theorem elsewhere_read (h : Blanks s) (hdomain : domain?.Strict) {cs : List Char} (hcs : Bare cs) :
    Elsewhere (read domain? cs) (read domain? (cs ++ s)) := by
  rw [read, read, splitScheme_append h.foreign]
  cases hscheme : splitScheme cs with
  | none =>
    intro u v hu
    cases hu
  | some p =>
    obtain ⟨scheme, rest⟩ := p
    have hrest := hcs.mono (splitScheme_subset hscheme)
    dsimp only [Option.map_some]
    cases schemeKind scheme with
    | network =>
      dsimp only
      rw [dropWhile_append_of_stop (h.foreign.slash .network)]
      exact h.elsewhere_readAuthority hdomain scheme (hrest.mono (List.dropWhile_suffix _).subset)
    | file => exact h.elsewhere_readFile hdomain hrest
    | other =>
      dsimp only
      rw [read_other, read_other, behindSlashes_append h.foreign]
      cases hr : behindSlashes .other rest with
      | none =>
        intro u v hu
        cases hu
      | some r =>
        exact h.elsewhere_readAuthority hdomain scheme (hrest.mono (behindSlashes_subset hr))

end Blanks

/-! ## The reader at hand -/

/-- What the front of an address tells the reader. -/
def origin (domain? : DomainReader) (front : List Char) : Option Origin :=
  (hosted (read domain? front)).bind fun u =>
    u.host?.map fun host => ⟨schemeKind u.scheme, host.chars, u.path⟩

theorem origin_eq_some {domain? : DomainReader} {front : List Char} {o : Origin} :
    origin domain? front = some o ↔ ∃ u host, hosted (read domain? front) = some u ∧
      u.host? = some host ∧ o = ⟨schemeKind u.scheme, host.chars, u.path⟩ := by
  simp only [origin, Option.bind_eq_some_iff, Option.map_eq_some_iff, eq_comm (a := o)]
  exact exists_congr fun u => exists_and_left.symm

/-- **The reader at hand keeps to the standard.** -/
theorem standard_reader {domain? : DomainReader} (hdomain : domain?.Strict) :
    (reader domain?).Standard (origin domain?) where
  parts := by
    intro cs o ho
    obtain ⟨u, host, hu, hhost, rfl⟩ := origin_eq_some.1 ho
    have hread := hosted_read domain? (Tail.apart_split (cleaned cs))
    rw [hu, Tail.text_split, ← parse_eq_read] at hread
    rw [reader, (hosted_eq_some.1 hread).1]
    simp [address, Origin.address, Tail.beside, hhost]
  hosted := by
    intro cs a host hread hhost
    cases hparse : parse domain? cs with
    | error f =>
      rw [reader, hparse] at hread
      cases hread
    | ok u =>
      rw [reader, hparse] at hread
      obtain rfl := Except.ok.inj hread
      obtain ⟨host', hhost', -⟩ := Option.map_eq_some_iff.1 hhost
      have hparts := hosted_read domain? (Tail.apart_split (cleaned cs))
      rw [Tail.text_split, ← parse_eq_read, hosted_eq_some.2 ⟨hparse, host', hhost'⟩] at hparts
      obtain ⟨front, hfront, rfl⟩ := Option.map_eq_some_iff.1 hparts.symm
      exact ⟨_, origin_eq_some.2 ⟨front, host', hfront, hhost', rfl⟩⟩
  blanks := by
    intro front s o o' hfront hs ho ho'
    obtain ⟨u, host, hu, hhost, rfl⟩ := origin_eq_some.1 ho
    obtain ⟨v, host', hv, hhost', rfl⟩ := origin_eq_some.1 ho'
    intro hsame
    refine hs.elsewhere_read hdomain hfront u v hu hv ?_
    rw [hhost, hhost', Option.map_some, Option.map_some]
    exact congrArg some hsame

end Flowline.Url
