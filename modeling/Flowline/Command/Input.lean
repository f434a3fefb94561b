import Flowline.Json.Tree

/-! Initial inputs as they are given on a command line: a key, a sign of equality and a value. A
value that reads as JSON is that value, and every other text stands for itself. -/

namespace Flowline.Command

inductive InputError where
  | noSign (text : String)
  | noKey
deriving DecidableEq, Repr, Inhabited

def InputError.message : InputError → String
  | noSign text => "expected key=value, got '" ++ text ++ "'"
  | noKey => "input key must not be empty"

def valueOf (text : String) : Json := (Json.parse? text).getD (.string text)

/-- Reads an input; the key ends at the first sign of equality. -/
def readInput (text : String) : Except InputError (String × Json) :=
  let key := text.toList.takeWhile (· ≠ '=')
  match text.toList.drop key.length with
  | [] => .error (.noSign text)
  | _ :: value =>
    if key.isEmpty then .error .noKey
    else .ok (String.ofList key, valueOf (String.ofList value))

/-- A key without a sign of equality is read back, whatever the value. -/
theorem readInput_append {key : List Char} (hk : '=' ∉ key) (hne : key ≠ []) (value : List Char) :
    readInput (String.ofList (key ++ '=' :: value))
      = .ok (String.ofList key, valueOf (String.ofList value)) := by
  have ht : (key ++ '=' :: value).takeWhile (· ≠ '=') = key := by
    have hp : ∀ c ∈ key, decide (c ≠ '=') = true := fun c hc =>
      decide_eq_true fun h : c = '=' => hk (h ▸ hc)
    rw [List.takeWhile_append_of_pos hp]
    simp
  simp only [readInput, String.toList_ofList, ht, List.drop_left]
  simp [hne]

end Flowline.Command
