import PseudoMove.CommandLine.Command
import PseudoMove.CommandLine.Summary
import PseudoMove.Config.File
import PseudoMove.OutputPath
/-!
# Carrying out commands

A command is a function from the files and the standard input it finds to what it writes: its output,
its messages and the files afterwards. All inputs of a batch are read before any output is written.
An input that cannot be read is told and passed over; an output that cannot be written ends the
command.
-/

namespace PseudoMove.CommandLine

open PseudoMove.Text OutputPath

/-- What a command finds: the files, the standard input (`none` if it is no text), the number of
processors, and whether colours are wanted. -/
structure Surroundings where
  files : FileTree
  stdin : Option String := some ""
  processors : Nat := 1
  colored : Bool := false

/-- What a command has written so far. -/
structure Transcript where
  output : String := ""
  messages : List Message := []
  files : FileTree

/-- A part of a command, which may end it with a message. -/
abbrev Task := ExceptT String (StateM Transcript)

/-- What a command carries with it. -/
structure Setting where
  common : CommonOptions
  stdin : Option String
  processors : Nat
  colored : Bool

namespace Setting

/-- The settings where none are given. -/
def defaults (s : Setting) : Config := { jobs := s.processors }

/-- The notices that are shown. -/
def threshold (s : Setting) : Threshold := .ofWord s.common.logLevel

end Setting

/-- Tells something. -/
def tell (m : Message) : Task Unit :=
  modify fun t => { t with messages := t.messages ++ [m] }

/-- Tells something unless the command is to be quiet. -/
def tellUnlessQuiet (s : Setting) (m : Message) : Task Unit :=
  if s.common.quiet then pure () else tell m

/-- Tells the notices that are shown. -/
def note (s : Setting) (ns : List Notice) : Task Unit :=
  modify fun t =>
    { t with
      messages :=
        t.messages ++ (ns.filter fun n => s.threshold.admits n.level).map Message.notice }

/-- Writes to the standard output. -/
def putText (text : String) : Task Unit := modify fun t => { t with output := t.output ++ text }

/-- The text of an input, or why there is none. -/
def inputText (s : Setting) (files : FileTree) (input : String) : Except String String :=
  if input = stdinPath then
    match s.stdin with
    | some text => .ok text
    | none => .error ("Failed to read standard input: " ++ FileFault.notText.message)
  else
    match files.read input with
    | .ok text => .ok text
    | .error e => .error ("Failed to read " ++ input ++ ": " ++ e.message)

/-- Writes a file, with the directories it lies in. -/
def putFile (path contents : String) : Task Unit := do
  let t ← get
  match t.files.save path contents with
  | .ok files => set { t with files }
  | .error (.directory parent e) => throw ("Failed to create " ++ parent ++ ": " ++ e.message)
  | .error (.file e) => throw ("Failed to write " ++ path ++ ": " ++ e.message)

/-- The settings of a command. -/
def settings (s : Setting) (path : Option String) : Task Config := do
  match path with
  | none => pure s.defaults
  | some path =>
    match Config.load s.defaults (← get).files path with
    | .ok c => do
      note s [.configLoaded path]
      pure c
    | .error e =>
      throw ("Failed to load config " ++ path ++ ": " ++ e.message ++
        match e.cause? with
        | some cause => ": " ++ cause
        | none => "")

/-! ### Decompilation -/

namespace DecompileOptions

/-- Whether there are several inputs. -/
def isBatch (o : DecompileOptions) : Bool := o.inputs.length > 1

/-- What is wrong with the options together, if something is. -/
def fault? (o : DecompileOptions) (files : FileTree) : Option String :=
  if o.inputs.count stdinPath > 1 then some "Standard input (-) can only be given once"
  else if o.jobs = some 0 then some "Job count must be at least 1"
  else if o.isBatch then
    (o.output.filter files.isFile).map fun path =>
      "Output must be a directory when decompiling several inputs: " ++
        String.ofList (quoted path.toList)
  else none

/-- The settings with what the options change. -/
def adjust (o : DecompileOptions) (c : Config) : Config :=
  { c with
    jobs := o.jobs.getD c.jobs
    keepTypeArguments := c.keepTypeArguments || o.keepTypeArguments
    emitBranchComments := c.emitBranchComments && !o.noBranchComments }

end DecompileOptions

/-- Decompiles an input, or gives the reason why it cannot be read. -/
def decompileInput (s : Setting) (c : Config) (input : String) :
    Task (String × Except String Outcome) := do
  match inputText s (← get).files input with
  | .ok text => do
    note s (Decompilation.notices c text)
    pure (input, .ok (Outcome.ofText c text))
  | .error e => pure (input, .error e)

/-- Writes the outcome for an input to where it belongs. -/
def deliver (s : Setting) (o : DecompileOptions) (input : String) (outcome : Outcome) :
    Task Unit := do
  let text := o.format.render input outcome
  match outputFile? input o.output o.format o.isBatch (← get).files.isDirectory with
  | some path => do
    putFile path text
    tellUnlessQuiet s (.wrote path)
  | none => do
    if o.isBatch ∧ o.format = .text then putText ("// ==> " ++ input ++ " <==\n")
    putText text
    if text.toList.getLast? ≠ some '\n' then putText "\n"

/-- Tells what has become of an input, and writes its outcome if there is one. -/
def report (s : Setting) (o : DecompileOptions) (input : String) :
    Except String Outcome → Task Unit
  | .error e => tell (.inputError e)
  | .ok outcome => do
    if outcome.isFallback then
      tellUnlessQuiet s
        (.warning (input ++ ": reconstruction failed, emitting annotated disassembly"))
    note s (outcome.warnings.map (Notice.warned input))
    deliver s o input outcome

/-- Decompiles inputs. -/
def decompileCommand (s : Setting) (o : DecompileOptions) : Task Unit := do
  if let some fault := o.fault? (← get).files then throw fault
  let c := o.adjust (← settings s o.config)
  if let some fault := c.fault? then throw (ConfigFault.invalid fault).message
  tellUnlessQuiet s (.decompiling o.inputs.length c.jobs)
  let results ← o.inputs.mapM (decompileInput s c)
  results.forM fun r => report s o r.1 r.2
  let failures := results.countP fun r => r.2.toOption.isNone
  let fallbacks := results.countP fun r => r.2.toOption.any (·.isFallback)
  tellUnlessQuiet s (.decompiled (o.inputs.length - failures))
  if fallbacks > 0 then
    tellUnlessQuiet s
      (.warning (counted fallbacks "input" "inputs" ++ " fell back to annotated output"))
  if failures > 0 then
    throw (toString failures ++ " of " ++ toString o.inputs.length ++
      " input(s) could not be read")

/-! ### The other commands -/

/-- The text of the only input of a command. -/
def onlyInput (s : Setting) (input : String) : Task String := do
  match inputText s (← get).files input with
  | .ok text => pure text
  | .error e => throw e

/-- Annotates an input. -/
def annotateCommand (s : Setting) (input : String) (output : Option String) : Task Unit := do
  let text := annotate (← onlyInput s input)
  match output with
  | some path => do
    putFile path text
    tellUnlessQuiet s (.wrote path)
  | none => putText text

/-- Shows the statistics of an input. -/
def statsCommand (s : Setting) (input : String) (config : Option String) (json : Bool) :
    Task Unit := do
  let c ← settings s config
  let text ← onlyInput s input
  note s (Decompilation.notices c text)
  let outcome := Outcome.ofText c text
  if outcome.isFallback then
    tellUnlessQuiet s
      (.warning (input ++ ": " ++ outcome.warnings.head?.getD "decompilation failed"))
  if json then
    putText (Json.print .pretty (Report.statisticsJson input outcome.statistics) ++ "\n")
  else
    putText (String.join
      ((statisticsLines s.colored input outcome.module outcome.statistics).map (· ++ "\n")))

/-- Carries out a command. -/
def execute (s : Setting) : Command → Task Unit
  | .decompile o => decompileCommand s o
  | .annotate input output => annotateCommand s input output
  | .stats input config json => statsCommand s input config json

/-- The paths that a command may look at or write to. -/
def Command.paths : Command → List String
  | .decompile o =>
    o.inputs.filter (· ≠ stdinPath) ++ o.config.toList ++ o.output.toList ++
      o.output.toList.flatMap fun target => o.inputs.map fun input => inDirectory input target o.format
  | .annotate input output => [input].filter (· ≠ stdinPath) ++ output.toList
  | .stats input config _ => [input].filter (· ≠ stdinPath) ++ config.toList

/-- Whether a command reads the standard input. -/
def Command.readsStdin : Command → Bool
  | .decompile o => o.inputs.contains stdinPath
  | .annotate input _ | .stats input _ _ => input = stdinPath

/-! ### The program -/

/-- What a run of the program comes to. -/
structure Result where
  exitCode : Nat
  output : String := ""
  messages : List Message := []
  files : FileTree

/-- The line that names the program and its version. -/
def versionLine : String := "move-decompiler 1.0.0\n"

/-- Carries out a command in its surroundings. A failure is told last. -/
def runInvocation (i : Invocation) (w : Surroundings) : Result :=
  let s : Setting :=
    { common := i.common
      stdin := w.stdin
      processors := w.processors
      colored := w.colored && !i.common.noColor }
  let (r, t) := (execute s i.command).run { files := w.files }
  match r with
  | .ok () => { exitCode := 0, output := t.output, messages := t.messages, files := t.files }
  | .error e =>
    { exitCode := 1
      output := t.output
      messages := t.messages ++ [.failure e]
      files := t.files }

/-- Runs the program with the words of a command line. -/
def run (words : List String) (w : Surroundings) : Result :=
  match readInvocation words with
  | .ok i => runInvocation i w
  | .error .version => { exitCode := 0, output := versionLine, files := w.files }
  | .error .help => { exitCode := 0, files := w.files }
  | .error .misuse => { exitCode := 2, files := w.files }

end PseudoMove.CommandLine
