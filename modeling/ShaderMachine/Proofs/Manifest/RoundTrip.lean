import ShaderMachine.Manifest.Json
import ShaderMachine.Proofs.Document.JsonText

/-!
# Manifests are read back from their JSON text

A manifest is written in two steps, as a JSON value and as the text of that value, and it is read in
two, as a document and as the manifest that the document describes. In the middle stands the
document of a manifest (`Manifest.node`): it is what the text is read as, by the laws of
`JsonText.ReadAs`, and it describes the manifest. `Manifest.ofJson?_toJson` puts the two together.
-/

namespace ShaderMachine

open Document

/-! ## Documents of values -/

namespace Document.Node

def ofNat (n : Nat) : Node := .scalar { integer := some (n : Int) }

def ofBool (b : Bool) : Node := .scalar { flag := some b }

def ofText (s : String) : Node := .scalar { text := some s }

/-- A number is read back where it is below the bound. -/
theorem natBelow?_ofNat {bound n : Nat} (h : n < bound) : (ofNat n).natBelow? bound = some n := by
  show (if n < bound then some n else none) = some n
  rw [if_pos h]

@[simp] theorem byte?_ofNat (b : UInt8) : (ofNat b.toNat).byte? = some b := by
  rw [byte?, natBelow?_ofNat b.toNat_lt_size, Option.map_some, UInt8.ofNat_toNat]

@[simp] theorem word64?_ofNat (w : UInt64) : (ofNat w.toNat).word64? = some w := by
  rw [word64?, natBelow?_ofNat w.toNat_lt_size, Option.map_some, UInt64.ofNat_toNat]

@[simp] theorem flag?_ofBool (b : Bool) : (ofBool b).flag? = some b := rfl

@[simp] theorem text?_ofText (s : String) : (ofText s).text? = some s := rfl

/-- A list is read if its items are. -/
theorem listOf?_map {α : Type} {read : Node → Option α} {node : α → Node}
    (h : ∀ a, read (node a) = some a) (as : List α) :
    listOf? read (.list (as.map node)) = some as := by
  show (as.map node).mapM read = some as
  induction as with
  | nil => rfl
  | cons a as ih => rw [List.map_cons, List.mapM_cons, h, ih]; rfl

/-- A text is not taken for an absent value. -/
theorem optional?_ofText (s : String) : optional? text? (ofText s) = some (some s) := rfl

/-- A list is not taken for an absent value, even if it is empty. -/
theorem optional?_list {α : Type} (read : Node → Option α) (items : List Node) :
    optional? read (.list items) = (read (.list items)).map some := rfl

end Document.Node

open Document.Node (ofNat ofBool ofText)

namespace Parameter

/-- The document of a parameter. -/
def node (p : Parameter) : Node :=
  .record [(some "width", ofNat p.width.toNat), (some "out", ofBool p.out)]

/-- The text of a parameter is read as its document. -/
theorem json_readAs (p : Parameter) : p.json.ReadAs p.node :=
  JsonText.readAs_record
    (.cons (.mk _ (JsonText.readAs_nat _)) (.cons (.mk _ (JsonText.readAs_bool _)) .nil))

/-- A parameter is read back from its document. -/
theorem ofNode?_node (p : Parameter) : ofNode? p.node = some p := by
  simp [ofNode?, node, Node.fields?, Node.lookup?, Node.withDefault?]

end Parameter

namespace FunctionEntry

/-- The document of an entry, without the bodies that it does not have. -/
def node (f : FunctionEntry) : Node :=
  .record ([(some "name", ofText f.name), (some "locals", ofNat f.locals.toNat),
    (some "params", .list (f.params.map Parameter.node))] ++
    (f.asm.toList.map fun text => (some "asm", ofText text)) ++
    f.code.toList.map fun bytes => (some "code", .list (bytes.map fun b => ofNat b.toNat)))

/-- The text of an entry is read as its document. A body that the entry does not have is in neither
of them. -/
theorem json_readAs (f : FunctionEntry) : f.json.ReadAs f.node := by
  have hfields : List.Forall₂ JsonText.EntryReadAs
      [("name", .string f.name), ("locals", .nat f.locals.toNat),
        ("params", .list (f.params.map Parameter.json))]
      [(some "name", ofText f.name), (some "locals", ofNat f.locals.toNat),
        (some "params", .list (f.params.map Parameter.node))] :=
    .cons (.mk _ (JsonText.readAs_string _)) (.cons (.mk _ (JsonText.readAs_nat _))
      (.cons (.mk _ (JsonText.readAs_list_map Parameter.json_readAs _)) .nil))
  have hasm : List.Forall₂ JsonText.EntryReadAs
      (f.asm.toList.map fun text => ("asm", JsonText.string text))
      (f.asm.toList.map fun text => (some "asm", ofText text)) := by
    cases f.asm with
    | none => exact .nil
    | some text => exact .cons (.mk _ (JsonText.readAs_string _)) .nil
  have hcode : List.Forall₂ JsonText.EntryReadAs
      (f.code.toList.map fun bytes =>
        ("code", JsonText.list (bytes.map fun b => .nat b.toNat)))
      (f.code.toList.map fun bytes =>
        (some "code", .list (bytes.map fun b => ofNat b.toNat))) := by
    cases f.code with
    | none => exact .nil
    | some bytes =>
      exact .cons (.mk _ (JsonText.readAs_list_map (fun _ => JsonText.readAs_nat _) _)) .nil
  exact JsonText.readAs_record (List.rel_append (List.rel_append hfields hasm) hcode)

/-- An entry is read back from its document, with either body, both or none. -/
theorem ofNode?_node (f : FunctionEntry) : ofNode? f.node = some f := by
  obtain ⟨name, locals, params, asm, code⟩ := f
  have hparams := Node.listOf?_map Parameter.ofNode?_node params
  have hcode := Node.listOf?_map Node.byte?_ofNat
  cases asm <;> cases code <;>
    simp [ofNode?, node, Node.fields?, Node.lookup?, Node.withDefault?, hparams,
      Node.optional?_ofText, Node.optional?_list, hcode]

end FunctionEntry

namespace Manifest

/-- The document of a manifest. -/
def node (m : Manifest) : Node :=
  .record [(some "globals", ofNat m.globals.toNat),
    (some "inputs", .list (m.inputs.map fun slot => ofNat slot.toNat)),
    (some "functions", .list (m.functions.map FunctionEntry.node))]

/-- The text of a manifest is read as its document. -/
theorem json_readAs (m : Manifest) : m.json.ReadAs m.node :=
  JsonText.readAs_record
    (.cons (.mk _ (JsonText.readAs_nat _))
      (.cons (.mk _ (JsonText.readAs_list_map (fun _ => JsonText.readAs_nat _) _))
        (.cons (.mk _ (JsonText.readAs_list_map FunctionEntry.json_readAs _)) .nil)))

/-- A manifest is read back from its document. -/
theorem ofNode?_node (m : Manifest) : ofNode? m.node = some m := by
  have hinputs := Node.listOf?_map Node.word64?_ofNat m.inputs
  have hfunctions := Node.listOf?_map FunctionEntry.ofNode?_node m.functions
  simp [ofNode?, node, Node.fields?, Node.lookup?, Node.withDefault?, hinputs, hfunctions]

/-- **Manifests survive being written as JSON.** -/
theorem ofJson?_toJson (m : Manifest) : ofJson? m.toJson = some m := by
  rw [ofJson?, toJson, JsonText.read?_compact m.json_readAs]
  exact m.ofNode?_node

end Manifest

end ShaderMachine
