import LedgerIndex.CommandLine.Command
import LedgerIndex.Config.Rendered
import LedgerIndex.Json.Printer

/-! # The program

The command line, the environment and the disk around `CommandLine.Command`.  Commands work on a
tree of files; a file that one of them misses is read from the disk and the command is carried out
again.  There are no connections: every exchange over the network is dropped.  Database tables last
as long as the program runs. -/

open LedgerIndex

namespace LedgerIndex.CommandLine

/-- The variables that stand in for options. -/
def environmentNames : List String :=
  (Overrides.specs ++ Command.storeSpecs).filterMap (·.environmentName)

/-- The values of the variables that are set. -/
def readEnvironment : IO (List (String × String)) :=
  environmentNames.filterMapM fun name => do
    return (← IO.getEnv name).map (name, ·)

/-- The content of the file at a path of the disk. -/
def readFile? (path : String) : IO (Option Bytes) :=
  try
    return some (← IO.FS.readBinFile path).toList
  catch _ => return none

/-- How many files a command may miss. -/
def mostFiles : Nat := 32

/-- A workspace with nothing in it. -/
def emptyWorkspace : Workspace := { files := {}, network := .unreachable }

/-- Carries out a command, giving it the files that it misses, at most `fuel` of them.  Beside what
the command gives stands the tree of the files that it was given. -/
def supply {ε α : Type} (missing? : ε → Option String)
    (command : Workspace → Except ε α × Workspace) :
    Nat → Workspace → IO (Except ε α × Workspace × Tree)
  | 0, workspace => do
    let (result, after) := command workspace
    return (result, after, workspace.files)
  | fuel + 1, workspace => do
    let (result, after) := command workspace
    let given := (result, after, workspace.files)
    let .error e := result | return given
    let some path := missing? e | return given
    let some content ← readFile? path | return given
    supply missing? command fuel { workspace with files := workspace.files.addFile path content }

/-- Writes the files of a tree that another one does not have. -/
def saveChanges (before after : Tree) : IO Unit :=
  for (path, content) in after.changesSince before do
    let directory := Path.directory path
    if directory != "" then IO.FS.createDirAll directory
    IO.FS.writeBinFile path ⟨content.toArray⟩

/-- Reports an error and gives the exit code of a failure. -/
def fail (message : String) : IO UInt32 := do
  IO.eprintln ("Error: " ++ message)
  return 1

/-- The text of an error that has none of its own. -/
def unnamed : String := "the input or a reply is not usable"

/-- Lets a daemon run in real time until it has finished. -/
partial def keepRunning (daemon : Daemon) : IO Unit := do
  if daemon.isFinished then return
  IO.sleep 1000
  keepRunning (daemon.advance 1000)

/-- Shows what a command gives, or reports its error, and gives the exit code. -/
def report {ε α : Type} (message? : ε → Option String) (shown : α → IO Unit) :
    Except ε α → IO UInt32
  | .ok a => do
    shown a
    return 0
  | .error e => fail ((message? e).getD unnamed)

/-- Carries out a command and gives the exit code. -/
def Command.run : Command → IO UInt32
  | .blockHash header => report (some ·.message) IO.print (hashLine header)
  | .config overrides => do
    let load (workspace : Workspace) := (overrides.load workspace.files, workspace)
    let (result, _) ← supply ConfigError.missing? load mostFiles emptyWorkspace
    report ConfigError.message? (fun config => IO.println config.json.text) result
  | .dashboards overrides => do
    let (result, after, given) ← supply ProvisionError.missing? (provision overrides) mostFiles
      emptyWorkspace
    saveChanges given after.files
    report ProvisionError.message? (fun _ => return) result
  | .start overrides store => do
    let (result, _) ← supply LaunchError.missing? (CommandLine.start overrides store) mostFiles
      emptyWorkspace
    report LaunchError.message? (fun launch => keepRunning launch.daemon) result

end LedgerIndex.CommandLine

/-- Reads the command line and carries out its command. -/
def main (args : List String) : IO UInt32 := do
  match CommandLine.Command.ofWords (← CommandLine.readEnvironment) args with
  | .ok command => command.run
  | .error .displayHelp =>
    IO.println CommandLine.UsageError.displayHelp.message
    return 0
  | .error e =>
    IO.eprintln ("error: " ++ e.message)
    return 2
