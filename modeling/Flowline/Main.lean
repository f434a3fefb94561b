import Flowline.Command.Outcome
import Flowline.Command.Usage
import Flowline.Url.Basic
import Std.Time.Format

/-! The program. It looks up the files and variables that its command may ask for, carries the
command out, and prints what comes of it. No connection leaves it, so the services count as
unreachable. -/

namespace Flowline.Program

/-- The number of a system error, which may come with either sign. -/
def errorNumber (code : UInt32) : UInt32 := min code (0 - code)

def fileError (e : IO.Error) : FileError :=
  match e with
  | .noFileOrDirectory .. => .notFound
  | .inappropriateType _ code _ => if errorNumber code = 20 then .notDirectory else .isDirectory
  | .invalidArgument _ code _ =>
    if errorNumber code = 36 then .nameTooLong else .other (toString e)
  | _ => .other (toString e)

def readFile (path : String) : IO (Except FileError String) := do
  try
    let bytes ← IO.FS.readBinFile path
    return match Text.ofUtf8? bytes.toList with
      | some cs => .ok (String.ofList cs)
      | none => .error .notText
  catch e => return .error (fileError e)

/-- The files at these paths, and no others. -/
def readFiles (paths : List String) : IO Disk := do
  let files ← paths.mapM fun path => do return (path, ← readFile path)
  return fun path => (files.lookup path).getD (.error .notFound)

/-- The variables with these names, and no others. -/
def readVariables (names : List String) : IO Environment := do
  let values ← names.mapM fun name => do return (name, ← IO.getEnv name)
  return fun name => (values.lookup name).join

/-- A path leads somewhere unless a part of it is missing. -/
def isPresent (disk : Disk) (path : String) : Bool :=
  match disk path with
  | .error .notFound | .error .notDirectory => false
  | _ => true

/-- All that a command line may ask for: the texts where a configuration may lie, the variables that
they name, and the document of the command. -/
def machine (a : Arguments) : IO Machine := do
  let home ← readVariables ["HOME"]
  let paths := Machine.configPaths home a.config?
  let disk ← readFiles paths
  let names := paths.flatMap fun path => Environment.names ((disk path).toOption.getD "").toList
  let env ← readVariables ("HOME" :: names)
  let m : Machine := ⟨disk, isPresent disk, env⟩
  match m.config a.config? with
  | .error _ => return m
  | .ok c => return { m with disk := ← readFiles (paths ++ (a.command.path? c env).toList) }

/-- The present moment as a date of a message. -/
def today : IO String := do
  let now ← Std.Time.Timestamp.now
  let moment := Std.Time.DateTime.ofTimestamp now Std.Time.TimeZone.ZoneRules.UTC
  return moment.format "EEE, dd MMM uuuu HH:mm:ss 'GMT'"

/-- Prints what a command has to say and ends the program. -/
def leave (exit : Nat) (output errors : String) : IO UInt32 := do
  IO.print output
  IO.eprint errors
  return exit.toUInt32

end Flowline.Program

open Flowline in
/-- Reads the command line, carries the command out and prints its outcome. -/
def main (args : List String) : IO UInt32 := do
  match Arguments.read args with
  | .error e => Program.leave e.exitCode e.output e.errors
  | .ok a =>
    let net := Network.none (Url.reader Url.plainDomain?)
    let (o, _) := a.outcome (← Program.machine a) net (← Program.today) ()
    Program.leave o.exitCode o.output o.errors
