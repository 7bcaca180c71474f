/-!
# Settings

What a user may choose about decompilation, and which choices are valid.
-/

namespace PseudoMove

/-- The settings. `jobs` is how many inputs may be worked on at a time. -/
structure Config where
  indentSize : Nat := 4
  emitHeaderComment : Bool := true
  emitBranchComments : Bool := true
  keepTypeArguments : Bool := false
  renderUseDeclarations : Bool := true
  maxInstructionsPerFunction : Nat := 100000
  jobs : Nat := 1
deriving DecidableEq, Repr

/-- What may be wrong with settings. -/
inductive InvalidConfig where
  | indentTooLarge
  | noInstructions
  | noJobs
deriving DecidableEq, Repr

namespace Config

/-- The largest indentation. -/
def maxIndentSize : Nat := 16

/-- The first thing that is wrong with the settings, if something is. -/
def fault? (c : Config) : Option InvalidConfig :=
  if c.indentSize > maxIndentSize then some .indentTooLarge
  else if c.maxInstructionsPerFunction = 0 then some .noInstructions
  else if c.jobs = 0 then some .noJobs
  else none

/-- Accepts settings with which nothing is wrong. -/
def validate (c : Config) : Except InvalidConfig Unit :=
  match c.fault? with
  | some f => .error f
  | none => .ok ()

end Config

/-- What a message says is wrong. -/
def InvalidConfig.message : InvalidConfig → String
  | .indentTooLarge => "indent_size must be at most " ++ toString Config.maxIndentSize
  | .noInstructions => "max_instructions_per_function must be greater than 0"
  | .noJobs => "jobs must be greater than 0"

end PseudoMove
