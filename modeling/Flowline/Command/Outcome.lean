import Flowline.Command.Arguments
import Flowline.Config.Printer
import Flowline.Files.Loader
import Flowline.Graph.Walk
import Flowline.Run.Remote

/-! What commands do: each one ends with a text for the standard output, and with a notice or a
fault for the error output. Everything around a command is a parameter: the files, the variables of
the environment, the network and the date. -/

namespace Flowline

/-! ## Faults -/

/-- Why a command failed, and in the course of what. -/
inductive Fault where
  | failure (f : Failure)
  /-- A configuration that was asked for could not be loaded. -/
  | configuration (path : String) (f : Failure)
  | unreadable (path : String) (e : FileError)
deriving DecidableEq, Repr, Inhabited

namespace Fault

/-- The lines of a text without their ends; no line follows the last end. -/
def lines (cs : List Char) : List (List Char) :=
  match (cs.splitOn '\n').reverse with
  | [] => []
  | last :: front =>
    (front.map fun l => if l.getLast? = some '\r' then l.dropLast else l).reverse
      ++ (if last.isEmpty then [] else [last])

/-- A cause, each of its lines indented. -/
def indented (cause : String) : String :=
  "    " ++ "\n    ".intercalate ((lines cause.toList).map String.ofList)

example : indented "a\nb" = "    a\n    b" := by decide +kernel

def inContext (context cause : String) : String :=
  context ++ "\n\nCaused by:\n" ++ indented cause

def message : Fault → String
  | failure f => f.message
  | configuration path f => inContext ("loading config from " ++ path) f.message
  | unreadable path e => inContext ("reading " ++ path) e.message

end Fault

/-! ## Outcomes -/

/-- What a command has to say, and the fault that stopped it. -/
structure Outcome where
  output : String
  notice : String
  fault? : Option Fault
deriving DecidableEq, Repr, Inhabited

namespace Outcome

def printed (output : String) : Outcome := ⟨output, "", none⟩

def failed (fault : Fault) : Outcome := ⟨"", "", some fault⟩

def exitCode (o : Outcome) : Nat := if o.fault?.isSome then 1 else 0

/-- A command succeeds exactly if nothing stopped it. -/
theorem exitCode_eq_zero_iff {o : Outcome} : o.exitCode = 0 ↔ o.fault? = none := by
  cases h : o.fault? <;> simp [exitCode, h]

def errors (o : Outcome) : String :=
  match o.fault? with
  | none => o.notice
  | some f => "Error: " ++ f.message ++ "\n"

def ofExcept (r : Except Fault Outcome) : Outcome :=
  match r with
  | .ok o => o
  | .error f => failed f

end Outcome

/-! ## The surroundings -/

structure Machine where
  disk : Disk
  isPresent : String → Bool
  env : Environment

namespace Machine

def configPaths (env : Environment) (path? : Option String) : List String :=
  match path? with
  | some path => [path]
  | none => Config.defaultPaths env

/-- The configuration that is asked for; otherwise the first that is found, or the defaults. -/
def config (m : Machine) : Option String → Except Fault Config
  | some path => (Config.load m.disk m.env path).mapError (.configuration path)
  | none =>
    match (Config.defaultPaths m.env).find? m.isPresent with
    | some path => (Config.load m.disk m.env path).mapError .failure
    | none => .ok .default

def graph (m : Machine) (path : String) : Except Fault Graph :=
  match m.disk path with
  | .error e => .error (.unreadable path e)
  | .ok text => (Graph.parse text).mapError .failure

end Machine

/-! ## The services of a configuration -/

namespace Config

/-- The chat service, its limits in milliseconds. -/
def chatService (c : Config) : ChatService where
  client := ⟨c.chat.app, c.chat.user⟩
  key := c.chat.key
  secret := c.chat.secret
  url := c.chat.url
  domain := c.chat.domain
  connectLimit := 1000 * c.chat.connectTimeout
  replyLimit := 1000 * c.chat.replyTimeout

def toolService (c : Config) : ToolService := ⟨c.tools.url, c.tools.timeout⟩

def engine (c : Config) : Engine := .standard ⟨c.chat.domain, c.tools.speed⟩

end Config

/-! ## The commands -/

namespace Command

/-- The place of a node in a run, in three columns, and the node. -/
def listing (place : Nat) (v : Vertex) : String :=
  let number := toString (place + 1)
  String.ofList (List.replicate (3 - number.length) ' ') ++ number ++ ". " ++ v.id ++ " ("
    ++ v.typeLabel ++ ")\n"

def listings (path : List Vertex) : String :=
  String.join (path.zipIdx.map fun v => listing v.2 v.1)

/-- The nodes of a document in the order of a run; the document itself is not run. -/
def validated (m : Machine) (path : String) : Except Fault Outcome := do
  let order ← (← m.graph path).path.mapError .failure
  return .printed (listings order)

/-- An address signed with the credentials of a configuration. -/
def signed (read : AddressReader) (c : Config) (url date : String) : Except Fault Outcome :=
  match Signature.sign read url c.chat.key c.chat.secret date with
  | .ok url => .ok (.printed (url ++ "\n"))
  | .error f => .error (.failure f)

/-- How a run ends, after the frames that it has printed. The final text is a notice, so that it
stays apart from the frames. -/
def concluded (frames : String) : Except Failure Report → Outcome
  | .ok r => ⟨frames, (r.final?.map fun text => "\n" ++ text ++ "\n").getD "", none⟩
  | .error f => ⟨frames, "", some (.failure f)⟩

/-- The job of a run. A file is read before the run starts, a flow within it. -/
def job (m : Machine) (c : Config) (source : Source) (inputs : Table Json) :
    Except Fault (Job (Except Failure Report)) :=
  match source with
  | .file path => (m.graph path).map fun g => c.engine.execute g inputs
  | .flow id => .ok (c.engine.executeFlow id inputs)

def path? (c : Config) (env : Environment) : Command → Option String
  | run (.file path) _ | validate path => some path
  | run (.flow id) _ => Loader.path? (c.flowsDir env) id
  | sign .. | configuration => none

variable {σ : Type}

/-- Runs a document and prints its reports as they come, each one as a frame. -/
def carriedOut (m : Machine) (net : Network σ) (date : String) (c : Config) (source : Source)
    (inputs : Table Json) (s : σ) : Outcome × σ :=
  match job m c source inputs with
  | .error f => (.failed f, s)
  | .ok job =>
    let remote : Remote := ⟨c.chatService, c.toolService, Loader.load m.disk (c.flowsDir m.env)⟩
    let (r, s, frames) := Service.run (remote.peers net date) (fun t e => t ++ e.frame)
      (some (1000 * c.flows.runTimeout)) job (s, "")
    (concluded frames r, s)

def outcome (m : Machine) (net : Network σ) (date : String) (c : Config) (command : Command)
    (s : σ) : Outcome × σ :=
  match command with
  | .run source inputs => carriedOut m net date c source (.ofList inputs) s
  | .validate path => (.ofExcept (validated m path), s)
  | .sign url? date? => (.ofExcept (signed net.read c (url?.getD c.chat.url) (date?.getD date)), s)
  | .configuration => (.printed (c.masked.text ++ "\n"), s)

end Command

def Arguments.outcome {σ : Type} (a : Arguments) (m : Machine) (net : Network σ) (date : String)
    (s : σ) : Outcome × σ :=
  match m.config a.config? with
  | .error f => (.failed f, s)
  | .ok c => a.command.outcome m net date c s

end Flowline
