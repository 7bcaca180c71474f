import PseudoMove.Config.Json
import PseudoMove.FileTree
import PseudoMove.Json.Printer
import PseudoMove.Json.Reader
import PseudoMove.Text.Quoted
/-!
# Settings in files

A settings file is JSON and its name says so. Settings that are read are checked; those that are written
are not.
-/

namespace PseudoMove

open Text

/-- Why a settings file cannot be read or written. -/
inductive ConfigFault where
  | notFound (path : String)
  | file (fault : FileFault)
  | malformed
  | unsupportedFormat (ending : String)
  | invalid (fault : InvalidConfig)
deriving DecidableEq, Repr

namespace ConfigFault

/-- How the failure is told. -/
def message : ConfigFault → String
  | .notFound path => "Config file not found: " ++ String.ofList (quoted path.toList)
  | .file fault => "IO error: " ++ fault.message
  | .malformed => "Parse error: malformed settings"
  | .unsupportedFormat ending => "Unsupported format: " ++ ending
  | .invalid fault => "Invalid config: " ++ fault.message

/-- The failure behind this one, if there is one that has a message of its own. -/
def cause? : ConfigFault → Option String
  | .file fault => some fault.message
  | _ => none

end ConfigFault

namespace Config

/-- Whether the ending of a file name is that of JSON files, in any case of its ASCII letters. -/
def isJsonEnding (ending : List Char) : Bool := ending.map Char.toLower = "json".toList

/-- Reads the text of a settings file. Of its strings only names of fields matter. -/
def readText (defaults : Config) (contents : String) : Except ConfigFault Config :=
  match (Json.readWith? false contents).bind (ofJson? defaults) with
  | none => .error .malformed
  | some c =>
    match c.fault? with
    | some f => .error (.invalid f)
    | none => .ok c

/-- Reads a settings file. A file name without an ending is refused. -/
def load (defaults : Config) (t : FileTree) (path : String) : Except ConfigFault Config :=
  if t.has path then
    let ending := (Path.extension? path.toList).getD []
    if isJsonEnding ending then
      match t.read path with
      | .ok contents => readText defaults contents
      | .error e => .error (.file e)
    else .error (.unsupportedFormat (String.ofList ending))
  else .error (.notFound path)

/-- Writes a settings file, with the directories it lies in. A file name without an ending will do. -/
def save (c : Config) (t : FileTree) (path : String) : Except ConfigFault FileTree :=
  let ending := (Path.extension? path.toList).getD "json".toList
  if isJsonEnding ending then
    match t.save path (Json.print .pretty c.toJson) with
    | .ok t => .ok t
    | .error (.directory _ e) | .error (.file e) => .error (.file e)
  else .error (.unsupportedFormat (String.ofList ending))

end Config

end PseudoMove
