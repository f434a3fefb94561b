import Flowline.Config.Variables
import Flowline.Failure
import Flowline.Files.Tree
import Flowline.Json.Record
import Flowline.Toml.Reader

/-! The configuration: how to reach the chat service and the tool service, and where flows lie.
Every setting has a default, so an empty file is a configuration. -/

namespace Flowline

open Json

structure ChatSettings where
  app : String
  key : String
  secret : String
  url : String
  /-- The domain of a request that names none. -/
  domain : String
  user : String
  /-- In seconds. -/
  connectTimeout : Nat
  /-- In seconds. -/
  replyTimeout : Nat
deriving DecidableEq, Repr, Inhabited

structure ToolSettings where
  url : String
  /-- In seconds. -/
  timeout : Nat
  /-- The speed of a voice where a node gives none. -/
  speed : Int
deriving DecidableEq, Repr, Inhabited

/-- Where flows lie, and how long a run may take in seconds. -/
structure FlowSettings where
  dir : String
  runTimeout : Nat
deriving DecidableEq, Repr, Inhabited

structure Config where
  chat : ChatSettings
  tools : ToolSettings
  flows : FlowSettings
deriving DecidableEq, Repr, Inhabited

/-! ## Defaults -/

def ChatSettings.default : ChatSettings where
  app := ""
  key := ""
  secret := ""
  url := "wss://spark-api.xf-yun.com/v3.5/chat"
  domain := "generalv3.5"
  user := "workflow-user"
  connectTimeout := 60
  replyTimeout := 300

def ToolSettings.default : ToolSettings where
  url := "http://127.0.0.1:18668"
  timeout := 300
  speed := 50

def FlowSettings.default : FlowSettings where
  dir := "./workflows"
  runTimeout := 600

def Config.default : Config := ⟨.default, .default, .default⟩

/-! ## Reading -/

def Config.readCount? : Reader Nat := fun d t =>
  (Reader.intWithin 0 0xffffffffffffffff d t).map Int.toNat

/-- A setting that is missing has its default, and one of the wrong kind is a fault. -/
def ChatSettings.read? : Reader ChatSettings := fun d t => do
  let r ← Record.read? ["app_id", "api_key", "api_secret", "api_url", "domain", "uid",
    "connect_timeout_secs", "response_timeout_secs"] d t
  let s := ChatSettings.default
  return {
    app := ← r.defaulted "app_id" .text s.app
    key := ← r.defaulted "api_key" .text s.key
    secret := ← r.defaulted "api_secret" .text s.secret
    url := ← r.defaulted "api_url" .text s.url
    domain := ← r.defaulted "domain" .text s.domain
    user := ← r.defaulted "uid" .text s.user
    connectTimeout := ← r.defaulted "connect_timeout_secs" Config.readCount? s.connectTimeout
    replyTimeout := ← r.defaulted "response_timeout_secs" Config.readCount? s.replyTimeout }

def ToolSettings.read? : Reader ToolSettings := fun d t => do
  let r ← Record.read? ["aitools_url", "timeout_secs", "default_speed"] d t
  let s := ToolSettings.default
  return {
    url := ← r.defaulted "aitools_url" .text s.url
    timeout := ← r.defaulted "timeout_secs" Config.readCount? s.timeout
    speed := ← r.defaulted "default_speed" .int s.speed }

def FlowSettings.read? : Reader FlowSettings := fun d t => do
  let r ← Record.read? ["dir", "run_timeout_secs"] d t
  let s := FlowSettings.default
  return {
    dir := ← r.defaulted "dir" .text s.dir
    runTimeout := ← r.defaulted "run_timeout_secs" Config.readCount? s.runTimeout }

namespace Config

def read? : Reader Config := fun d t => do
  let r ← Record.read? ["spark", "plugins", "workflows"] d t
  return {
    chat := ← r.defaulted "spark" ChatSettings.read? .default
    tools := ← r.defaulted "plugins" ToolSettings.read? .default
    flows := ← r.defaulted "workflows" FlowSettings.read? .default }

def parse? (text : String) : Option Config :=
  (Toml.parse? text).bind fun fields => read? depthLimit (.object (Toml.members fields))

/-- The configuration in a file, its variables expanded before it is read. A file that cannot be
read for any reason counts as missing. -/
def load (disk : Disk) (env : Environment) (path : String) : Except Failure Config :=
  match disk path with
  | .error _ => .error (.configurationNotFound path)
  | .ok text =>
    match parse? (String.ofList (env.expand text.toList)) with
    | some c => .ok c
    | none => .error (.configuration Failure.unreadableToml)

/-! ## Places -/

def defaultPaths (env : Environment) : List String :=
  "weft.toml" :: (env.home?.map fun home => Path.join (Path.join home ".weft") "config.toml").toList

/-- The directory of the flows. A tilde in front of it is the home directory, if there is one. -/
def flowsDir (c : Config) (env : Environment) : String :=
  match c.flows.dir.toList, env.home? with
  | '~' :: '/' :: rest, some home => Path.join home (String.ofList rest)
  | _, _ => c.flows.dir

/-! ## Secrets -/

def hasCredentials (c : Config) : Bool := c.chat.key ≠ "" && c.chat.secret ≠ ""

def shownLength : Nat := 4

/-- The start of a secret and a mark; an empty one shows that it is empty. -/
def mask (secret : String) : String :=
  if secret.isEmpty then "" else String.ofList (secret.toList.take shownLength) ++ "****"

def masked (c : Config) : Config :=
  { c with chat := { c.chat with key := mask c.chat.key, secret := mask c.chat.secret } }

end Config

end Flowline
