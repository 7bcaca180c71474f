import PseudoMove.CommandLine.Run
/-!
# The program

The layer that touches the world. It looks up the paths that a command is about, carries the command out
on what it found, and puts the results in place: files, standard output, messages and exit code.
-/

namespace PseudoMove.Program

open CommandLine

/-- What stands at a place on disk, if something does that can be read. -/
def onDisk? (place : Place) : IO (Option Entry) := do
  try
    let found ← IO.FS.realPath (FileTree.pathOf place)
    if ← found.isDir then return some .directory
    let bytes ← IO.FS.readBinFile found
    return some ((String.fromUTF8? bytes).elim .binary .text)
  catch _ => return none

/-- A file tree with what is found on the way to a path, and at the path itself. -/
def lookUp (t : FileTree) (path : String) : IO FileTree := do
  let (start, pieces, _) := FileTree.parse path
  let mut t := t
  let mut place := start
  for piece in pieces do
    place := FileTree.next place piece
    unless FileTree.isFixed place do
      if let some entry ← onDisk? place then t := t.put place entry
  return t

/-- The standard input, if it is text. -/
def readStdin : IO (Option String) := do
  return String.fromUTF8? (← IO.FS.readBinFile "/dev/stdin")

/-- How many processors there are, as far as the system tells. -/
def processorCount : IO Nat := do
  try
    let ls ← IO.FS.lines "/proc/cpuinfo"
    return max 1 (ls.filter fun l => l.startsWith "processor").size
  catch _ => return 1

/-- Whether colours are wanted: if they are asked for, or on a terminal if they are not refused. -/
def wantsColors : IO Bool := do
  if (← IO.getEnv "CLICOLOR_FORCE").any (· ≠ "0") then return true
  if (← IO.getEnv "NO_COLOR").isSome then return false
  if (← IO.getEnv "CLICOLOR") = some "0" then return false
  (← IO.getStdout).isTty

/-- Writes a file, with the directories it lies in. -/
def putFile (path contents : String) : IO Unit := do
  match Path.parent? path.toList with
  | none | some [] => pure ()
  | some parent => IO.FS.createDirAll (String.ofList parent)
  IO.FS.writeFile path contents

/-- Carries out a command in the world. -/
def runInvocation (i : Invocation) : IO Result := do
  let mut files : FileTree := {}
  for path in i.command.paths do
    files ← lookUp files path
  let surroundings : Surroundings := {
    files
    stdin := ← if i.command.readsStdin then readStdin else pure (some "")
    processors := ← processorCount
    colored := ← wantsColors }
  let before ← IO.monoNanosNow
  let r ← IO.lazyPure fun _ => CommandLine.runInvocation i surroundings
  IO.print r.output
  for (path, contents) in r.files.changesSince files do
    putFile path contents
  let time := Duration.ofParts 0 ((← IO.monoNanosNow) - before)
  for m in r.messages do
    IO.eprintln (m.line (surroundings.colored && !i.common.noColor) time)
  return r

end PseudoMove.Program

/-- Runs the program with the words of its command line. -/
def main (words : List String) : IO UInt32 := do
  match PseudoMove.CommandLine.readInvocation words with
  | .ok i => return (← PseudoMove.Program.runInvocation i).exitCode.toUInt32
  | .error .version => do
    IO.print PseudoMove.CommandLine.versionLine
    return 0
  | .error .help => do
    IO.println "usage: move-decompiler [OPTIONS] (decompile | annotate | stats) INPUT..."
    return 0
  | .error .misuse => do
    IO.eprintln "usage: move-decompiler [OPTIONS] (decompile | annotate | stats) INPUT..."
    return 2
