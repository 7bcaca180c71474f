import PseudoMove.FileTree
import PseudoMove.Report
/-!
# Where output goes

Output goes to standard output unless a target is given. For several inputs the target is a directory,
and each input has a file in it that is named after it; for one input it is the file itself, unless it
is a directory already.
-/

namespace PseudoMove.OutputPath

/-- The path that stands for standard input. -/
def stdinPath : String := "-"

/-- The name of an input's own output file, without its ending. -/
def stemFor (input : String) : String :=
  if input = stdinPath then "stdin"
  else ((Path.stem? input.toList).map String.ofList).getD "module"

/-- The output file of an input inside a directory. -/
def inDirectory (input directory : String) (format : ReportFormat) : String :=
  String.ofList
    (Path.join directory.toList (stemFor input ++ "." ++ format.extension).toList)

/-- The output file of an input, or `none` for standard output. `several` says that there are other
inputs, `isDirectory` which paths are directories. -/
def outputFile? (input : String) (target : Option String) (format : ReportFormat) (several : Bool)
    (isDirectory : String → Bool) : Option String :=
  target.map fun t =>
    if several || isDirectory t then inDirectory input t format else t

end PseudoMove.OutputPath
