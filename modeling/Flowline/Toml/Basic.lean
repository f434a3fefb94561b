/-! TOML documents. A document is put together line by line: headers open tables, and assignments
put values under keys of one or more parts. Nothing may be defined twice, and a table may be added
to only from where it came about. -/

namespace Flowline

/-- How a table came about. -/
inductive TableOrigin where
  /-- Under a header of its own. -/
  | header
  /-- On the way to a table with a longer header. -/
  | implied
  /-- On the way to a value with a key of several parts. -/
  | dotted
  /-- As a value in braces, which is complete. -/
  | inline
deriving DecidableEq, Repr, Inhabited

/-- A value. Of real numbers and moments only the kind is kept, as no setting has such a value. -/
inductive Toml where
  | text (s : String)
  | integer (n : Int)
  | real
  | bool (b : Bool)
  | moment
  | array (items : List Toml)
  | table (origin : TableOrigin) (fields : List (String × Toml))
  /-- The tables under one header in double brackets. -/
  | tables (items : List (List (String × Toml)))
deriving Repr, Inhabited

namespace Toml

abbrev Fields : Type := List (String × Toml)

def replace (k : String) (v : Toml) (fields : Fields) : Fields :=
  fields.map fun f => if f.1 = k then (k, v) else f

/-- Puts a value under a key. The tables on the way have to be open for it: one that was only
implied may be passed through, and the last one has to have come about in the same way. -/
def insert (key : String) (v : Toml) : List String → Fields → Option Fields
  | [], fields => if (fields.lookup key).isSome then none else some (fields ++ [(key, v)])
  | k :: path, fields =>
    match fields.lookup k with
    | none => (insert key v path []).map fun f => fields ++ [(k, .table .dotted f)]
    | some (.table origin inner) =>
      if origin = .dotted ∨ (origin = .implied ∧ path ≠ []) then
        (insert key v path inner).map fun f => replace k (.table origin f) fields
      else none
    | some _ => none

/-- Changes the table at a place, through the latest of several tables under one header. -/
def alter (change : Fields → Option Fields) : List String → Fields → Option Fields
  | [], fields => change fields
  | k :: path, fields =>
    match fields.lookup k with
    | none => (alter change path []).map fun f => fields ++ [(k, .table .implied f)]
    | some (.table origin inner) =>
      if origin = .inline then none
      else (alter change path inner).map fun f => replace k (.table origin f) fields
    | some (.tables items) =>
      match items.getLast? with
      | some last =>
        (alter change path last).map fun f => replace k (.tables (items.dropLast ++ [f])) fields
      | none => none
    | some _ => none

/-- Opens a table; one that was implied before is opened once. -/
def openTable (key : String) (fields : Fields) : Option Fields :=
  match fields.lookup key with
  | none => some (fields ++ [(key, .table .header [])])
  | some (.table .implied inner) => some (replace key (.table .header inner) fields)
  | some _ => none

def openNext (key : String) (fields : Fields) : Option Fields :=
  match fields.lookup key with
  | none => some (fields ++ [(key, .tables [[]])])
  | some (.tables items) => some (replace key (.tables (items ++ [[]])) fields)
  | some _ => none

/-! ## Lines -/

inductive Line where
  | header (path : List String) (key : String)
  | nextHeader (path : List String) (key : String)
  | assignment (path : List String) (key : String) (v : Toml)

/-- The document so far and the place of the open table. -/
structure Draft where
  fields : Fields
  place : List String

/-- Takes a line. A header moves to its table; an assignment belongs to the table that is open. -/
def Draft.add (d : Draft) : Line → Option Draft
  | .header path key => (alter (openTable key) path d.fields).map (⟨·, path ++ [key]⟩)
  | .nextHeader path key => (alter (openNext key) path d.fields).map (⟨·, path ++ [key]⟩)
  | .assignment path key v => (alter (insert key v path) d.place d.fields).map (⟨·, d.place⟩)

def ofLines? (lines : List Line) : Option Fields :=
  (lines.foldlM Draft.add ⟨[], []⟩).map Draft.fields

def ofPairs? (pairs : List (List String × String × Toml)) : Option Toml :=
  (pairs.foldlM (fun fields p => insert p.2.1 p.2.2 p.1 fields) []).map (.table .inline)

end Toml

end Flowline
