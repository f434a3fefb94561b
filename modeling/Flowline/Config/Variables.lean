/-! Variables in the text of a configuration: a name between a dollar sign with an opening brace and
the next closing brace. The text is read once, so what a variable holds is not expanded again. -/

namespace Flowline

abbrev Environment : Type := String → Option String

namespace Environment

def reference (name : List Char) : List Char := '$' :: '\x7b' :: name ++ ['\x7d']

/-- What a reference stands for; itself if the variable is not set. -/
def value (env : Environment) (name : List Char) : List Char :=
  match env (String.ofList name) with
  | some v => v.toList
  | none => reference name

/-- Expands the references in a text. One that is not closed reaches to the end. -/
def expand (env : Environment) : List Char → List Char
  | [] => []
  | '$' :: '\x7b' :: r =>
    env.value (r.takeWhile (· ≠ '\x7d')) ++ expand env ((r.dropWhile (· ≠ '\x7d')).drop 1)
  | c :: r => c :: expand env r
termination_by cs => cs.length
decreasing_by
  · have := (List.dropWhile_sublist (l := r) (· ≠ '\x7d')).length_le
    simp only [List.length_drop, List.length_cons]
    omega
  · simp

def names : List Char → List String
  | [] => []
  | '$' :: '\x7b' :: r =>
    String.ofList (r.takeWhile (· ≠ '\x7d')) :: names ((r.dropWhile (· ≠ '\x7d')).drop 1)
  | _ :: r => names r
termination_by cs => cs.length
decreasing_by
  · have := (List.dropWhile_sublist (l := r) (· ≠ '\x7d')).length_le
    simp only [List.length_drop, List.length_cons]
    omega
  · simp

/-- No other variable has a part in the expansion. -/
theorem expand_congr {env env' : Environment} (cs : List Char)
    (h : ∀ name ∈ names cs, env name = env' name) : env.expand cs = env'.expand cs := by
  fun_induction names cs with
  | case1 => simp [expand]
  | case2 r ih =>
    have h := List.forall_mem_cons.1 h
    simp only [expand, value, h.1, ih h.2]
  | case3 c r hc ih =>
    rw [expand, expand, ih h]
    all_goals exact hc

def home? (env : Environment) : Option String := env "HOME"

end Environment

end Flowline
