/-! Templates: texts with placeholders. A placeholder is a key between double braces, where a key is
any text without braces, not the empty one; every other brace stands for itself. A template is read
once from left to right, and what is filled in is not read again. -/

namespace Flowline.Template

/-- A part of a template: a character of its own or a placeholder with its key. -/
inductive Part where
  | char (c : Char)
  | hole (key : List Char)
deriving DecidableEq, Repr

def isBrace (c : Char) : Bool := c = '\x7b' || c = '\x7d'

/-- The key and the rest of a text that starts with a placeholder. -/
def hole? : List Char → Option (List Char × List Char)
  | '\x7b' :: '\x7b' :: r =>
    match r.takeWhile (!isBrace ·), r.dropWhile (!isBrace ·) with
    | k :: ks, '\x7d' :: '\x7d' :: rest => some (k :: ks, rest)
    | _, _ => none
  | _ => none

theorem length_of_hole? {cs k rest : List Char} (h : hole? cs = some (k, rest)) :
    rest.length < cs.length := by
  unfold hole? at h
  split at h
  · rename_i r
    split at h
    · rename_i hd
      have := (List.dropWhile_sublist (l := r) (!isBrace ·)).length_le
      rw [hd] at this
      cases h
      simp only [List.length_cons] at *
      omega
    · contradiction
  · contradiction

/-- The parts of a text. A brace that starts no placeholder is a character of its own. -/
def parse (cs : List Char) : List Part :=
  match _h : hole? cs with
  | some (k, rest) => .hole k :: parse rest
  | none =>
    match cs with
    | [] => []
    | c :: r => .char c :: parse r
termination_by cs.length
decreasing_by
  · exact length_of_hole? _h
  · simp

def fill (text : List Char → List Char) (ps : List Part) : List Char :=
  ps.flatMap fun
    | .char c => [c]
    | .hole k => text k

@[simp] theorem fill_nil (text : List Char → List Char) : fill text [] = [] := rfl

@[simp] theorem fill_append (text : List Char → List Char) (ps qs : List Part) :
    fill text (ps ++ qs) = fill text ps ++ fill text qs := by simp [fill]

end Flowline.Template
