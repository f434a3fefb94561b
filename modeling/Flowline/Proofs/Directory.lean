import Flowline.Files.Loader
import Mathlib.Tactic.SplitIfs

/-! # What lies directly in a directory

A path below a directory that ends in a single name leads to the entry of that name in the place
that the directory names, whatever lies in the tree and however the directory is written. The files
of flows have such paths, so no id leads out of the directory, and no two ids to one file. -/

namespace Flowline

namespace Files

/-! ## Places -/

/-- A component of a path that goes one step down. -/
structure IsName (name : String) : Prop where
  slash : '/' ∉ name.toList
  nonempty : name ≠ ""
  ne_here : name ≠ "."
  ne_above : name ≠ ".."

/-- The texts between the slashes of a path. -/
def components (path : String) : List String := (path.toList.splitOn '/').map String.ofList

/-- Where a path starts. -/
def start (fs : Files) (path : String) : List String :=
  if Path.isAbsolute path then [] else fs.base

/-- The place that a path names. One without any text names the base. -/
def place (fs : Files) (path : String) : Except FileError (List String) :=
  fs.follow (fs.start path) (components path)

/-- Where a name leads from a place, which has to be a directory. -/
def entry (fs : Files) (name : String) (place : List String) : Except FileError (List String) :=
  match fs.at? place with
  | none => .error .notFound
  | some (some _) => .error .notDirectory
  | some none =>
    if nameLimit < name.utf8ByteSize then .error .nameTooLong else .ok (place ++ [name])

/-- The text of what lies at a place. -/
def textAt (fs : Files) (place : List String) : Except FileError String :=
  match fs.at? place with
  | none => .error .notFound
  | some none => .error .isDirectory
  | some (some bytes) =>
    (Text.ofUtf8? bytes).elim (.error .notText) fun cs => .ok (String.ofList cs)

theorem find_eq (fs : Files) {path : String} (h : path ≠ "") :
    fs.find path = fs.place path >>= fun p => (fs.at? p).elim (.error .notFound) .ok := by
  rw [find, if_neg (by simpa using h)]
  refine congrArg (Except.bind (fs.place path)) (funext fun p => ?_)
  cases fs.at? p <;> rfl

theorem disk_eq (fs : Files) {path : String} (h : path ≠ "") :
    fs.disk path = fs.place path >>= fs.textAt := by
  rw [disk, find_eq fs h]
  cases fs.place path with
  | error e => rfl
  | ok p =>
    have hplace : ((.ok p : Except FileError (List String)) >>= fun p =>
        (fs.at? p).elim (.error .notFound) .ok) = (fs.at? p).elim (.error .notFound) .ok := rfl
    have htext : ((.ok p : Except FileError (List String)) >>= fs.textAt) = fs.textAt p := rfl
    rw [hplace, htext, textAt]
    rcases fs.at? p with _ | _ | bytes
    · rfl
    · rfl
    · dsimp only [Option.elim_some]
      cases Text.ofUtf8? bytes <;> rfl

section Follow

variable (fs : Files)

/-- The first component of a path is followed on its own. -/
theorem follow_cons (place : List String) (c : String) (r : List String) :
    fs.follow place (c :: r) = fs.follow place [c] >>= fun p => fs.follow p r := by
  rw [follow, follow]
  rcases fs.at? place with _ | _ | bytes
  · rfl
  · dsimp only
    split_ifs <;> rfl
  · rfl

theorem follow_append (place : List String) (a b : List String) :
    fs.follow place (a ++ b) = fs.follow place a >>= fun p => fs.follow p b := by
  induction a generalizing place with
  | nil => rfl
  | cons c a ih =>
    rw [List.cons_append, follow_cons, follow_cons fs place c a, bind_assoc]
    exact congrArg _ (funext fun p => ih p)

theorem follow_name {name : String} (h : IsName name) (place : List String) :
    fs.follow place [name] = fs.entry name place := by
  rw [follow, entry]
  rcases fs.at? place with _ | _ | bytes
  · rfl
  · dsimp only
    rw [if_neg (not_or.2 ⟨h.nonempty, h.ne_here⟩), if_neg h.ne_above]
    rfl
  · rfl

/-- Behind a last slash nothing is missed: an entry has to lie in a directory anyway. -/
theorem follow_empty_bind (place : List String) (name : String) :
    (fs.follow place [""] >>= fs.entry name) = fs.entry name place := by
  have hentry : ∀ p, fs.entry name p = match fs.at? p with
      | none => .error .notFound
      | some (some _) => .error .notDirectory
      | some none =>
        if nameLimit < name.utf8ByteSize then .error .nameTooLong else .ok (p ++ [name]) :=
    fun _ => rfl
  rw [follow]
  cases hat : fs.at? place with
  | none => rw [hentry, hat]; rfl
  | some content =>
    cases content with
    | none => rfl
    | some bytes => rw [hentry, hat]; rfl

end Follow

/-! ## Paths below a directory -/

theorem components_of_slash_notMem {name : String} (h : '/' ∉ name.toList) :
    components name = [name] := by
  rw [components, List.splitOn_eq_singleton h, List.map_singleton, String.ofList_toList]

theorem components_append_slash (dir path : String) :
    components (dir ++ "/" ++ path) = components dir ++ components path := by
  have htext : (dir ++ "/" ++ path).toList = dir.toList ++ '/' :: path.toList := by simp
  rw [components, htext, List.splitOn_append_cons_self, List.map_append]
  rfl

theorem start_append (fs : Files) {dir : String} (h : dir ≠ "") (path : String) :
    fs.start (dir ++ path) = fs.start dir := by
  obtain ⟨c, r, hdir⟩ := List.exists_cons_of_ne_nil (mt String.toList_eq_nil_iff.1 h)
  simp [start, Path.isAbsolute, hdir]

theorem IsName.isAbsolute {name : String} (h : IsName name) : Path.isAbsolute name = false := by
  refine decide_eq_false fun hhead => h.slash ?_
  exact List.mem_of_head? hhead

theorem place_append_slash (fs : Files) (dir : String) {name : String} (h : IsName name) :
    fs.place (dir ++ "/" ++ name) =
      fs.follow (fs.start (dir ++ "/")) (components dir) >>= fs.entry name := by
  rw [place, components_append_slash, components_of_slash_notMem h.slash, follow_append,
    start_append fs (by simp)]
  exact congrArg _ (funext fun p => follow_name fs h p)

theorem place_slash (fs : Files) (dir : String) :
    fs.place (dir ++ "/") =
      fs.follow (fs.start (dir ++ "/")) (components dir) >>= fun p => fs.follow p [""] := by
  have hcomponents : components (dir ++ "/") = components dir ++ [""] := by
    have hempty : components "" = [""] := components_of_slash_notMem (by simp)
    rw [← hempty, ← components_append_slash, String.append_empty]
  rw [place, hcomponents, follow_append]

/-- **A path below a directory leads to an entry of the directory.** -/
theorem place_join (fs : Files) (dir : String) {name : String} (h : IsName name) :
    fs.place (Path.join dir name) = fs.place dir >>= fs.entry name := by
  by_cases hdir : dir = ""
  · subst hdir
    have hjoin : Path.join "" name = name := by simp [Path.join]
    rw [hjoin, place, place, components_of_slash_notMem h.slash, follow_name fs h, start,
      h.isAbsolute]
    exact (follow_empty_bind fs fs.base name).symm
  have hbelow : ¬ (Path.isAbsolute name || dir.isEmpty) = true := by
    simp [h.isAbsolute, hdir]
  rw [Path.join, if_neg hbelow]
  split
  · -- the slash at the end of the directory is the one in front of the name
    rename_i hlast
    obtain ⟨d, hd⟩ := List.getLast?_eq_some_iff.1 hlast
    obtain rfl : dir = String.ofList d ++ "/" := by
      apply String.toList_inj.1
      rw [hd, String.toList_append, String.toList_ofList]
      rfl
    rw [place_append_slash fs _ h, place_slash, bind_assoc]
    exact congrArg _ (funext fun p => (follow_empty_bind fs p name).symm)
  · rw [place_append_slash fs dir h, start_append fs hdir, place]

theorem join_ne_empty (dir : String) {name : String} (h : IsName name) :
    Path.join dir name ≠ "" := by
  rw [Path.join]
  split
  · exact h.nonempty
  · split <;> simp [h.nonempty]

/-- What is read of a path below a directory is what the entry of the directory holds. -/
theorem disk_join (fs : Files) (dir : String) {name : String} (h : IsName name) :
    fs.disk (Path.join dir name) = fs.place dir >>= fs.entry name >>= fs.textAt := by
  rw [disk_eq fs (join_ne_empty dir h), place_join fs dir h]

theorem disk_join_of_place {fs : Files} {dir name : String} {place : List String} (h : IsName name)
    (hplace : fs.place dir = .ok place) :
    fs.disk (Path.join dir name) = fs.entry name place >>= fs.textAt := by
  rw [disk_join fs dir h, hplace]
  rfl

theorem entry_of_directory {fs : Files} {place : List String} (h : fs.at? place = some none)
    (name : String) : fs.entry name place =
      if nameLimit < name.utf8ByteSize then .error .nameTooLong else .ok (place ++ [name]) := by
  simp only [entry, h]

theorem entry_eq_ok {fs : Files} {name : String} {place p : List String}
    (h : fs.entry name place = .ok p) : p = place ++ [name] := by
  unfold entry at h
  split at h
  · cases h
  · cases h
  · split at h
    · cases h
    · exact (Except.ok.inj h).symm

theorem exists_place_of_join {fs : Files} {dir name : String} {p : List String} (h : IsName name)
    (hp : fs.place (Path.join dir name) = .ok p) :
    ∃ place, fs.place dir = .ok place ∧ p = place ++ [name] := by
  rw [place_join fs dir h] at hp
  cases hplace : fs.place dir with
  | error e =>
    rw [hplace] at hp
    cases hp
  | ok place =>
    rw [hplace] at hp
    exact ⟨place, rfl, entry_eq_ok hp⟩

end Files

namespace Loader

open Files (IsName)

/-! ## Admitted ids -/

theorem isIdChar_iff {c : Char} : isIdChar c = true ↔ 'A' ≤ c ∧ c ≤ 'Z' ∨ 'a' ≤ c ∧ c ≤ 'z' ∨
    '0' ≤ c ∧ c ≤ '9' ∨ c = '-' ∨ c = '_' ∨ c = '.' := by
  have hletters : c.isAlphanum = (decide ('A' ≤ c ∧ c ≤ 'Z') ||
      decide ('a' ≤ c) && decide (c ≤ 'z') || decide ('0' ≤ c) && decide (c ≤ '9')) := rfl
  simp [isIdChar, hletters, or_assoc]

theorem admits_iff {id : String} : admits id = true ↔
    id ≠ "" ∧ (∀ c ∈ id.toList, isIdChar c = true) ∧ id.toList.head? ≠ some '.' := by
  simp [admits, and_assoc]

/-- No admitted id leads its file astray: it has no slash, and more text than points. -/
theorem isName_fileName {id : String} (h : admits id = true) : IsName (id ++ ".json") := by
  obtain ⟨-, hchars, -⟩ := admits_iff.1 h
  have hlength : 5 ≤ (id ++ ".json").length := by
    rw [String.length_append]
    exact Nat.le_add_left 5 _
  refine ⟨?_, ?_, ?_, ?_⟩
  · rw [String.toList_append, List.mem_append]
    rintro (hid | hsuffix)
    · cases hchars _ hid
    · exact absurd hsuffix (by decide)
  all_goals
    intro heq
    rw [heq] at hlength
    exact absurd hlength (by decide)

theorem join_injective {dir a b : String} (ha : IsName a) (hb : IsName b)
    (h : Path.join dir a = Path.join dir b) : a = b := by
  rw [Path.join, Path.join, ha.isAbsolute, hb.isAbsolute] at h
  split at h
  · exact h
  · split at h
    · exact (String.append_right_inj _).1 h
    · exact (String.append_right_inj _).1 h

/-! ## What comes of an id -/

theorem load_of_not_admitted {id : String} (h : admits id = false) (disk : Disk) (dir : String) :
    load disk dir id = .error (.flowNotFound id) := by
  rw [load, path?, h]
  rfl

theorem load_of_admitted {id : String} (h : admits id = true) (disk : Disk) (dir : String) :
    load disk dir id = match disk (Path.join dir (id ++ ".json")) with
      | .error .notFound => .error (.flowNotFound id)
      | .error _ => .error (.io Failure.unreadableFile)
      | .ok text =>
        (Document.parse? text).elim (.error (.document Failure.unreadableJson)) .ok := by
  rw [load, path?, h]
  show (match disk (Path.join dir (id ++ ".json")) with
    | .error .notFound => _
    | .error _ => _
    | .ok text => _) = _
  split
  · rfl
  · rfl
  · cases Document.parse? _ <;> rfl

/-- What comes of an id by what lies at the place of its file. -/
inductive Yields (fs : Files) (place : List String) (id : String) : Except Failure Document → Prop
  | nothing (h : fs.at? place = none) : Yields fs place id (.error (.flowNotFound id))
  | directory (h : fs.at? place = some none) :
      Yields fs place id (.error (.io Failure.unreadableFile))
  | binary {bytes : List UInt8} (h : fs.at? place = some (some bytes))
      (hbytes : Text.ofUtf8? bytes = none) :
      Yields fs place id (.error (.io Failure.unreadableFile))
  | malformed {bytes : List UInt8} {cs : List Char} (h : fs.at? place = some (some bytes))
      (hbytes : Text.ofUtf8? bytes = some cs) (hdoc : Document.parse? (String.ofList cs) = none) :
      Yields fs place id (.error (.document Failure.unreadableJson))
  | document {bytes : List UInt8} {cs : List Char} {d : Document}
      (h : fs.at? place = some (some bytes)) (hbytes : Text.ofUtf8? bytes = some cs)
      (hdoc : Document.parse? (String.ofList cs) = some d) : Yields fs place id (.ok d)

theorem yields_load {fs : Files} {dir id : String} {place : List String} (h : admits id = true)
    (hplace : fs.place dir = .ok place) (hdir : fs.at? place = some none)
    (hshort : (id ++ ".json").utf8ByteSize ≤ Files.nameLimit) :
    Yields fs (place ++ [id ++ ".json"]) id (load fs.disk dir id) := by
  have hdisk : fs.disk (Path.join dir (id ++ ".json")) = fs.textAt (place ++ [id ++ ".json"]) := by
    rw [Files.disk_join_of_place (isName_fileName h) hplace, Files.entry_of_directory hdir,
      if_neg (Nat.not_lt.2 hshort)]
    rfl
  rw [load_of_admitted h, hdisk, Files.textAt]
  cases hat : fs.at? (place ++ [id ++ ".json"]) with
  | none => exact .nothing hat
  | some content =>
    cases content with
    | none => exact .directory hat
    | some bytes =>
      dsimp only
      cases hbytes : Text.ofUtf8? bytes with
      | none => exact .binary hat hbytes
      | some cs =>
        dsimp only [Option.elim_some]
        cases hdoc : Document.parse? (String.ofList cs) with
        | none => exact .malformed hat hbytes hdoc
        | some d => exact .document hat hbytes hdoc

theorem load_of_tooLong {fs : Files} {dir id : String} {place : List String} (h : admits id = true)
    (hplace : fs.place dir = .ok place) (hdir : fs.at? place = some none)
    (hlong : Files.nameLimit < (id ++ ".json").utf8ByteSize) :
    load fs.disk dir id = .error (.io Failure.unreadableFile) := by
  have hdisk : fs.disk (Path.join dir (id ++ ".json")) = .error .nameTooLong := by
    rw [Files.disk_join_of_place (isName_fileName h) hplace, Files.entry_of_directory hdir,
      if_pos hlong]
    rfl
  rw [load_of_admitted h, hdisk]

/-- **The files of flows lie in their directory.** An id is admitted if it is made of letters,
digits and three marks, not all absent and no point in front; any other one is not found, whatever
files there are. The file of an admitted id has a single name, which lies directly in the directory
in every tree of files, and no other id has it. What comes of the id depends on that file alone: it
is not found if the file is not, cannot be read if the file cannot, is no document if the text is
none, and is the document of the text otherwise. -/
theorem load_confined (dir id : String) :
    let name := id ++ ".json"
    let path := Path.join dir name
    (admits id = true ↔ id ≠ "" ∧ (∀ c ∈ id.toList, 'A' ≤ c ∧ c ≤ 'Z' ∨ 'a' ≤ c ∧ c ≤ 'z' ∨
        '0' ≤ c ∧ c ≤ '9' ∨ c = '-' ∨ c = '_' ∨ c = '.') ∧ id.toList.head? ≠ some '.') ∧
      (admits id = false → ∀ disk, load disk dir id = .error (.flowNotFound id)) ∧
      (admits id = true →
        IsName name ∧
        (∀ fs : Files, fs.place path = fs.place dir >>= fs.entry name) ∧
        (∀ other, admits other = true → other ≠ id → Path.join dir (other ++ ".json") ≠ path ∧
          ∀ (fs : Files) place, fs.place path = .ok place →
            fs.place (Path.join dir (other ++ ".json")) ≠ .ok place) ∧
        (∀ disk : Disk,
          (disk path = .error .notFound → load disk dir id = .error (.flowNotFound id)) ∧
          (∀ e, disk path = .error e → e ≠ .notFound →
            load disk dir id = .error (.io Failure.unreadableFile)) ∧
          (∀ text, disk path = .ok text → load disk dir id =
            (Document.parse? text).elim (.error (.document Failure.unreadableJson)) .ok)) ∧
        ∀ (fs : Files) place, fs.place dir = .ok place → fs.at? place = some none →
          (name.utf8ByteSize ≤ Files.nameLimit →
            Yields fs (place ++ [name]) id (load fs.disk dir id)) ∧
          (Files.nameLimit < name.utf8ByteSize →
            load fs.disk dir id = .error (.io Failure.unreadableFile))) := by
  intro name path
  refine ⟨?_, fun h disk => load_of_not_admitted h disk dir, fun h => ?_⟩
  · simp only [admits_iff, isIdChar_iff]
  have hname : IsName name := isName_fileName h
  refine ⟨hname, fun fs => Files.place_join fs dir hname, ?_, fun disk => ⟨?_, ?_, ?_⟩, ?_⟩
  · intro other hother hne
    have hothername := isName_fileName hother
    refine ⟨fun heq => hne ((String.append_left_inj _).1 (join_injective hothername hname heq)), ?_⟩
    intro fs place hplace hotherplace
    obtain ⟨p, hp, hend⟩ := Files.exists_place_of_join hname hplace
    obtain ⟨q, hq, hotherend⟩ := Files.exists_place_of_join hothername hotherplace
    have hlast := List.append_inj_right' (hotherend.symm.trans hend) rfl
    exact hne ((String.append_left_inj _).1 (List.singleton_inj.1 hlast))
  · intro hdisk
    rw [load_of_admitted h, hdisk]
  · intro e hdisk hne
    rw [load_of_admitted h, hdisk]
    cases e with
    | notFound => exact absurd rfl hne
    | _ => rfl
  · intro text hdisk
    rw [load_of_admitted h, hdisk]
  · intro fs place hplace hdir
    exact ⟨yields_load h hplace hdir, load_of_tooLong h hplace hdir⟩

/-- A file beside the directory is not reached, one in it is. -/
theorem load_confined_beside :
    let fs := Files.ofList ["srv"] [("a.json", some []), ("flows/a.json", some [0xFF])]
    admits "../a" = false ∧ load fs.disk "flows/" "../a" = .error (.flowNotFound "../a") ∧
      admits "a" = true ∧ Yields fs ["srv", "flows", "a.json"] "a" (load fs.disk "flows/" "a") ∧
      admits "b" = true ∧ Path.join "flows/" "b.json" ≠ Path.join "flows/" "a.json" := by
  intro fs
  have hbeside : admits "../a" = false := by decide
  have ha : admits "a" = true := by decide
  have hb : admits "b" = true := by decide
  have hplace : fs.place "flows/" = .ok ["srv", "flows"] := rfl
  have hdir : fs.at? ["srv", "flows"] = some none := by decide
  obtain ⟨-, -, hother, -, hread⟩ := (load_confined "flows/" "a").2.2 ha
  refine ⟨hbeside, (load_confined "flows/" "../a").2.1 hbeside fs.disk, ha, ?_, hb, ?_⟩
  · exact (hread fs _ hplace hdir).1 (by decide)
  · exact (hother "b" hb (by decide)).1

end Loader

end Flowline
