import ApiPages.Config.Toml
import ApiPages.Failure
import ApiPages.Files.Disk
import ApiPages.Json.Bounded
import ApiPages.Json.Shape

/-! Reading a settings file: JSON if it is named so, lines of settings otherwise. -/
namespace ApiPages.Config

def hasBoundedData (settings : Json) : Bool :=
  ((settings.get? "data").map (Json.isBounded (Json.depthLimit - 1))).getD true

/-- What a settings text holds; the path only decides how it is read. -/
def parse? (path text : String) : Option Json :=
  if Path.hasExtension ["json"] path then (Json.parse? text).filter hasBoundedData
  else Toml.parse? text

def unread (what path : String) : Failure :=
  { root := .outside "The file cannot be read", contexts := [what ++ ": " ++ path] }

def load (d : Disk) (codec : Codec α) (path : String) : Except Failure α :=
  match d.readText? path with
  | none => .error (unread "Failed to read config file" path)
  | some text =>
    match (parse? path text).bind codec.decode with
    | some value => .ok value
    | none => .error (Failure.ofProblem (.badConfiguration path "the settings cannot be read"))

end ApiPages.Config
