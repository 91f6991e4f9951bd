import ShaderMachine.Text.Blank
import ShaderMachine.Text.Path

/-!
# Manifest formats

The format of a manifest shows in the extension of its file, in any case.
-/

namespace ShaderMachine

open Text (Path)

inductive ManifestFormat where
  | json | toml | yaml
deriving DecidableEq, Repr

/-- Why a path has no manifest format. -/
inductive FormatError where
  | noExtension (path : Path)
  | unsupported (extension : String)
deriving DecidableEq, Repr

def FormatError.message : FormatError → String
  | noExtension path =>
    "cannot infer program format of '" ++ path.text ++ "' without an extension"
  | unsupported extension =>
    "unsupported program format '." ++ extension ++ "' (expected .json, .toml, .yaml)"

namespace ManifestFormat

/-- The name of the format. -/
def name : ManifestFormat → String
  | json => "JSON"
  | toml => "TOML"
  | yaml => "YAML"

/-- The formats and the extensions of their files. -/
def extensions : List (String × ManifestFormat) :=
  [("json", json), ("toml", toml), ("yaml", yaml), ("yml", yaml)]

def ofPath (path : Path) : Except FormatError ManifestFormat :=
  match path.extension? with
  | none => .error (.noExtension path)
  | some extension =>
    let extension := String.ofList (Text.lower extension)
    match extensions.lookup extension with
    | some format => .ok format
    | none => .error (.unsupported extension)

end ManifestFormat

end ShaderMachine
