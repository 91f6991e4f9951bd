import ShaderMachine.Document.Json
import ShaderMachine.Document.JsonText
import ShaderMachine.Manifest

/-!
# Manifests as JSON

The JSON form of a manifest gives all fields in their order, but leaves out a body that is absent.
-/

namespace ShaderMachine

open Document

def Parameter.json (p : Parameter) : JsonText :=
  .record [("width", .nat p.width.toNat), ("out", .bool p.out)]

def FunctionEntry.json (f : FunctionEntry) : JsonText :=
  let asm := f.asm.toList.map fun text => ("asm", JsonText.string text)
  let code := f.code.toList.map fun bytes =>
    ("code", JsonText.list (bytes.map fun b => .nat b.toNat))
  .record ([("name", .string f.name), ("locals", .nat f.locals.toNat),
    ("params", .list (f.params.map Parameter.json))] ++ asm ++ code)

namespace Manifest

def json (m : Manifest) : JsonText :=
  .record [("globals", .nat m.globals.toNat),
    ("inputs", .list (m.inputs.map fun slot => .nat slot.toNat)),
    ("functions", .list (m.functions.map FunctionEntry.json))]

/-- The manifest as compact JSON text. -/
def toJson (m : Manifest) : String := String.ofList m.json.compact

/-- The manifest that a JSON text describes. -/
def ofJson? (text : String) : Option Manifest := do ofNode? (← Json.read? text)

end Manifest

end ShaderMachine
