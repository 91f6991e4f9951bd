import ShaderMachine.Document.Toml
import ShaderMachine.Document.Yaml
import ShaderMachine.Manifest.Format
import ShaderMachine.Manifest.Json
import ShaderMachine.Program

/-!
# Reading manifests and programs

A text in one of the formats is read into a document, the document is taken as a manifest, and the
manifest is made a program.
-/

namespace ShaderMachine

/-- The document that a text holds, if it is well-formed. -/
def ManifestFormat.document? (format : ManifestFormat) (text : String) : Option Document.Node :=
  match format with
  | .json => Document.Json.read? text
  | .toml => Document.Toml.read? text
  | .yaml => Document.Yaml.read? text

/-- The manifest that a text describes. -/
def Manifest.read? (format : ManifestFormat) (text : String) : Option Manifest := do
  ofNode? (← format.document? text)

namespace Program

/-- Why a text is no program. -/
inductive ReadError where
  /-- The text does not describe a manifest. -/
  | invalid (format : ManifestFormat)
  | inconsistent (e : ProgramError)
deriving DecidableEq, Repr

/-- The messages of an error, from the outermost to its cause. -/
def ReadError.messages : ReadError → List String
  | invalid format => ["invalid " ++ format.name ++ " program", "the text is no manifest"]
  | inconsistent e => e.messages

/-- The program that a text describes. -/
def read (format : ManifestFormat) (text : String) : Except ReadError Program :=
  match Manifest.read? format text with
  | none => .error (.invalid format)
  | some m =>
    match ofManifest m with
    | .ok p => .ok p
    | .error e => .error (.inconsistent e)

end Program

end ShaderMachine
