import Flowline.Command.Input

/-! What a command line asks for. Arguments are read from left to right: options with a letter or a
word, at most one operand, and at the outermost level the name of a command, whose own arguments
follow. An option or operand is settled when the next one begins, so the first fault or request in
this order decides. -/

namespace Flowline.Command

/-- Why a command line asks for no command. -/
inductive Refusal where
  | misuse
  | help
  | version
  | bare
deriving DecidableEq, Repr, Inhabited

/-! ## Levels -/

/-- A place for a value: an option or an operand. -/
structure Slot where
  name : String
  letter? : Option Char
  many : Bool
  admits : String → Bool

structure Level where
  options : List Slot
  operand? : Option Slot
  commands : List String
  showsVersion : Bool

inductive Purpose where
  | value (s : Slot)
  | refusal (r : Refusal)

namespace Level

/-- What a word asks for at a level; help is there at every level. -/
def word? (l : Level) (word : String) : Option Purpose :=
  if word = "help" then some (.refusal .help)
  else if word = "version" ∧ l.showsVersion then some (.refusal .version)
  else (l.options.find? fun s => s.name = word).map .value

/-- What a letter asks for at a level. -/
def letter? (l : Level) (c : Char) : Option Purpose :=
  if c = 'h' then some (.refusal .help)
  else if c = 'V' ∧ l.showsVersion then some (.refusal .version)
  else (l.options.find? fun s => s.letter? = some c).map .value

end Level

/-! ## The shape of an argument -/

/-- What an argument looks like, whatever its level knows of it. -/
inductive Shape where
  /-- Everything after it is an operand. -/
  | divider
  | word (name : String) (value? : Option String)
  | letter (c : Char) (value? : Option String)
  | plain
deriving DecidableEq, Repr, Inhabited

/-- A word may have a value after a sign of equality, a letter also without the sign. -/
def Shape.of (argument : String) : Shape :=
  match argument.toList with
  | ['-', '-'] => .divider
  | '-' :: '-' :: r =>
    let name := r.takeWhile (· ≠ '=')
    .word (String.ofList name) ((r.drop name.length).tail?.map String.ofList)
  | '-' :: c :: '=' :: r => .letter c (some (String.ofList r))
  | ['-', c] => .letter c none
  | '-' :: c :: r => .letter c (some (String.ofList r))
  | _ => .plain

/-- Only an argument that starts with a dash is anything but plain. -/
theorem Shape.of_eq_plain {argument : String} (h : argument.toList.head? ≠ some '-') :
    Shape.of argument = .plain := by
  unfold Shape.of
  split <;> simp_all

example : Shape.of "--flow=a=b" = .word "flow" (some "a=b") := by decide +kernel
example : Shape.of "-ia=b" = .letter 'i' (some "a=b") := by decide +kernel
example : Shape.of "-" = .plain := by decide +kernel

/-! ## Reading a level -/

/-- What has been given so far, and the slot that is open, with its value once it is there. -/
structure Progress where
  given : List (String × String)
  current? : Option (Slot × Option String)

namespace Progress

def empty : Progress := ⟨[], none⟩

def isAwaiting (p : Progress) : Bool :=
  match p.current? with
  | some (_, none) => true
  | _ => false

/-- Closes the open slot. It has to have a value that it admits. -/
def settle (p : Progress) : Except Refusal Progress :=
  match p.current? with
  | none => .ok p
  | some (s, value?) =>
    match value?.filter s.admits with
    | none => .error .misuse
    | some v =>
      if s.many = false ∧ (p.given.lookup s.name).isSome then .error .misuse
      else .ok ⟨p.given ++ [(s.name, v)], none⟩

/-- Opens a slot. With a value it is closed at once. -/
def start (s : Slot) (value? : Option String) (p : Progress) : Except Refusal Progress := do
  let p ← p.settle
  let p : Progress := ⟨p.given, some (s, value?)⟩
  if value?.isSome then p.settle else return p

/-- Ends in a refusal, unless there is a fault before it. -/
def refuse (r : Refusal) (p : Progress) : Except Refusal Progress := do
  let _ ← p.settle
  throw r

def fill (v : String) (p : Progress) : Progress :=
  { p with current? := p.current?.map fun c => (c.1, some v) }

/-- Takes an operand. It is settled later, as a value that stands apart from its option is. -/
def operand (l : Level) (p : Progress) (v : String) : Except Refusal Progress := do
  let p ← p.settle
  match l.operand? with
  | none => throw .misuse
  | some s =>
    if (p.given.lookup s.name).isSome then throw .misuse else return ⟨p.given, some (s, some v)⟩

/-- Takes one argument that is neither a divider nor a command. -/
def take (l : Level) (p : Progress) (argument : String) : Except Refusal Progress :=
  match Shape.of argument with
  | .word name value? =>
    match l.word? name, value? with
    | some (.value s), _ => p.start s value?
    | some (.refusal r), none => p.refuse r
    | _, _ => .error .misuse
  | .letter c value? =>
    match l.letter? c with
    | some (.value s) => p.start s value?
    | some (.refusal r) => p.refuse r
    | none => .error .misuse
  | _ => if p.isAwaiting then .ok (p.fill argument) else p.operand l argument

end Progress

/-- Reads arguments up to the end or to a command, which is left with the arguments that follow. -/
def scan (l : Level) :
    Progress → List String → Except Refusal (Progress × Option (String × List String))
  | p, [] => .ok (p, none)
  | p, a :: r =>
    if p.isAwaiting = false ∧ a ∈ l.commands then .ok (p, some (a, r))
    else if Shape.of a = .divider then return (← r.foldlM (Progress.operand l) p, none)
    else
      match p.take l a with
      | .ok p => scan l p r
      | .error e => .error e

/-- What is given at a level without commands, in order. -/
def valuesOf (l : Level) (args : List String) : Except Refusal (List (String × String)) := do
  let (p, _) ← scan l .empty args
  return (← p.settle).given

/-! ## The commands -/

inductive Source where
  | file (path : String)
  | flow (id : String)
deriving DecidableEq, Repr, Inhabited

end Command

/-- What can be asked for, with all that is needed to do it. -/
inductive Command where
  | run (source : Command.Source) (inputs : List (String × Json))
  | validate (path : String)
  | sign (url? date? : Option String)
  | configuration
deriving Inhabited

namespace Command

/-- An empty path names no file. -/
def isPath (s : String) : Bool := !s.isEmpty

def fileSlot : Slot := ⟨"FILE", none, false, isPath⟩
def configSlot : Slot := ⟨"config", some 'c', false, isPath⟩
def inputSlot : Slot := ⟨"input", some 'i', true, fun s => (readInput s).toOption.isSome⟩

/-- An option with a word only, which admits every text. -/
def textSlot (name : String) : Slot := ⟨name, none, false, fun _ => true⟩

def level (options : List Slot) (operand? : Option Slot) : Level := ⟨options, operand?, [], false⟩

/-- The commands, of which the last one only shows how they are used. -/
def names : List String := ["run", "validate", "sign", "config", "help"]

def outermost : Level := ⟨[configSlot], none, names, true⟩

/-- Reads the arguments of a command. A run needs a file or a flow, and not both. -/
def read (name : String) (args : List String) : Except Refusal Command :=
  match name with
  | "run" => do
    let given ← valuesOf (level [textSlot "flow", inputSlot] fileSlot) args
    let inputs := given.filterMap fun g =>
      if g.1 = inputSlot.name then (readInput g.2).toOption else none
    match given.lookup fileSlot.name, given.lookup "flow" with
    | some path, none => return run (.file path) inputs
    | none, some id => return run (.flow id) inputs
    | _, _ => throw .misuse
  | "validate" => do
    let given ← valuesOf (level [] fileSlot) args
    match given.lookup fileSlot.name with
    | some path => return validate path
    | none => throw .misuse
  | "sign" => do
    let given ← valuesOf (level [textSlot "url", textSlot "date"] none) args
    return sign (given.lookup "url") (given.lookup "date")
  | "config" => do
    let _ ← valuesOf (level [] none) args
    return configuration
  | _ =>
    match args with
    | [] => throw .help
    | [topic] => throw (if topic ∈ names then .help else .misuse)
    | _ => throw .misuse

end Command

structure Arguments where
  config? : Option String
  command : Command
deriving Inhabited

namespace Arguments

open Command

def read (args : List String) : Except Refusal Arguments := do
  let (p, command?) ← scan outermost .empty args
  match command? with
  | none =>
    let p ← p.settle
    throw (if p.given.isEmpty then .bare else .misuse)
  | some (name, rest) =>
    let command ← Command.read name rest
    let p ← p.settle
    return ⟨p.given.lookup configSlot.name, command⟩

@[simp] theorem read_nil : read [] = .error .bare := rfl

end Arguments

end Flowline
