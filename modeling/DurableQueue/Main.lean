import DurableQueue.CommandLine.Run
import DurableQueue.FileSystem.Edit
import DurableQueue.Logging.Line

/-!
# The program

The outermost layer. It takes up the queue's directory from the machine as a `Disk`, lets
`CommandLine.run` work on that, does to the machine what was done to the disk, call by call
and in the same order, and shows what the run reports. It decides nothing itself.
-/

namespace DurableQueue.Program

open FileSystem CommandLine

/-- Where the names of a path lead from the root, links not followed. -/
def place (path : String) : Location :=
  (Path.names path).foldl
    (fun here name =>
      if name = .text "." then here else if name = .text ".." then here.tail else name :: here)
    []

/-- Takes up what stands at a path of the machine. What is neither a directory nor can be read
is taken up as a device. -/
def takeUp (t : Tree) (path : String) (location : Location) : IO Tree := do
  let file := System.mkFilePath [path]
  if ← file.isDir then return t.put location .directory
  if !(← file.pathExists) then return t
  try
    let bytes ← IO.FS.readBinFile file
    return (t.putFile location { contents := bytes.toList }).2
  catch _ => return t.put location (.device .null)

/-- Takes up a directory of the machine: all directories on the way to it and its entries. -/
def takeUpDirectory (t : Tree) (path : String) : IO Tree := do
  let mut t := t
  let start := if Path.isAbsolute path then "/" else ""
  let mut above := start
  for name in Path.names path do
    above := if above = start then start ++ name.shown else Path.join above name.shown
    t ← takeUp t above (place above)
  let dir := System.mkFilePath [path]
  if ← dir.isDir then
    for entry in ← dir.readDir do
      t ← takeUp t (Path.join path entry.fileName) (.text entry.fileName :: place path)
  return t

/-- Does to the machine what a call did to the disk. -/
def carryOut : Call → IO Unit
  | .openWrite path | .createNew path => do
    if !(← (System.mkFilePath [path]).pathExists) then
      IO.FS.writeBinFile path ByteArray.empty
  | .write path offset new => do
    let old ← IO.FS.readBinFile path
    if old.size = offset then
      let h ← IO.FS.Handle.mk path .append
      h.write new.toByteArray
      h.flush
    else IO.FS.writeBinFile path (Bytes.overwrite old.toList offset new).toByteArray
  | .rename source target => IO.FS.rename source target
  | .remove path => IO.FS.removeFile path
  | .makeDirectory path => IO.FS.createDir path
  | .openRead _ | .seek .. | .read .. | .sync _ | .list _ => return

/-- Adds lines to a log file. -/
def addLines (path : String) (lines : List String) : IO Unit := do
  let h ← IO.FS.Handle.mk path .append
  for line in lines do h.putStrLn line

/-- Shows a report, and answers the exit code. -/
def present (r : Report) : IO UInt32 := do
  let out ← IO.getStdout
  let err ← IO.getStderr
  for n in r.notices do err.putStrLn (r.format.line n)
  match r.logDir with
  | none => pure ()
  | some dir =>
    addLines (Path.join dir "diskq.log") (r.notices.map r.format.line)
    addLines (Path.join dir "diskq-err.log") (r.grave.map r.format.line)
  out.write r.output.toByteArray
  match r.ending with
  | .done => pure ()
  | .failed f => err.putStrLn s!"Error: {f.message}"
  | .refused .usage => err.putStr usage
  | .refused .help => out.putStr usage
  | .refused .version => out.putStrLn "diskq"
  | .unlogged => err.putStrLn "Error: failed to set up the log"
  out.flush
  return UInt32.ofNat r.ending.exitCode

/-- Runs the program. -/
def start (words : List String) : IO UInt32 := do
  let home := (← IO.getEnv "TMPDIR").getD "/tmp"
  let environment ← Flag.general.filterMapM fun f => do
    return (← IO.getEnv f.variableName).map fun value => (f.variableName, value)
  let mut tree : Tree := {}
  let mut input : Bytes := []
  match Invocation.parse home environment words with
  | .error _ => pure ()
  | .ok i =>
    tree ← takeUpDirectory tree i.config.dataPath
    if i.log.dir ≠ "" then tree ← takeUpDirectory tree i.log.dir
    if i.command.readsInput then input := (← (← IO.getStdin).readBinToEnd).toList
  let disk : Disk := { tree, seed := ← IO.rand 0 Word.signedLimit }
  let (report, disk) := run disk home environment words input
  for access in disk.history.reverse do
    if access.error.isNone then carryOut access.call
  present report

end DurableQueue.Program

/-- Runs the program on the words of its command line. -/
def main (words : List String) : IO UInt32 := DurableQueue.Program.start words
