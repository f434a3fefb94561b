import Flowline.Decimal.Reader
import Flowline.Json.Printer
import Flowline.Text.Blank

/-! What a value is to a reader who asks for a text or for a number. A string counts as the number
that it spells, blanks around it aside. -/

namespace Flowline.Json

/-- The text that templates and listings show: a string itself, nothing for null, otherwise the
compact text. -/
def shown : Json → String
  | .string s => s
  | .null => ""
  | v => v.text

def double? : Json → Option Double
  | .number n => some n.toDouble
  | .string s => Decimal.double? (Text.trim s.toList)
  | _ => none

/-- The bounds of an integer of 64 bits with a sign. -/
def leastInt : Int := -0x8000000000000000
def greatestInt : Int := 0x7fffffffffffffff

def inRange (n : Int) : Bool := leastInt ≤ n && n ≤ greatestInt

def clamped (n : Int) : Int := max leastInt (min greatestInt n)

/-- The integer view. A number beyond 64 bits is seen through its floating-point view and clamped;
a string has to spell an integer within 64 bits. -/
def int? : Json → Option Int
  | .number (.integer n) =>
    if inRange n then some n else (Double.ofInt n).toInt?.map clamped
  | .number (.float x) => x.toInt?.map clamped
  | .string s => (Decimal.integer? (Text.trim s.toList)).filter inRange
  | _ => none

@[simp] theorem shown_string (s : String) : (Json.string s).shown = s := rfl
@[simp] theorem shown_null : Json.null.shown = "" := rfl

theorem inRange_clamped (n : Int) : inRange (clamped n) = true := by
  have h : leastInt ≤ clamped n ∧ clamped n ≤ greatestInt := by
    simp only [clamped, leastInt, greatestInt]
    omega
  simp [inRange, h]

/-- The integer view never leaves the range, however large the number is. -/
theorem inRange_of_int? {v : Json} {n : Int} (h : v.int? = some n) : inRange n = true := by
  unfold int? at h
  split at h
  · split at h
    · rename_i hr; exact Option.some.inj h ▸ hr
    · obtain ⟨m, _, rfl⟩ := Option.map_eq_some_iff.1 h; exact inRange_clamped m
  · obtain ⟨m, _, rfl⟩ := Option.map_eq_some_iff.1 h; exact inRange_clamped m
  · exact (Option.filter_eq_some_iff.1 h).2
  · contradiction

end Flowline.Json
