import ShaderMachine.Document.Node
import ShaderMachine.Function

/-!
# Manifests

A manifest describes a program: the number of its globals, the slots that are inputs, and its
functions, whose bodies are given as assembly text or as bytes. `Manifest.ofNode?` says which
documents are manifests. Numbers are unsigned, of 64 bits or of a byte.
-/

namespace ShaderMachine

/-- A function as it is described. A consistent manifest gives exactly one of `asm` and `code`. -/
structure FunctionEntry where
  name : String
  locals : UInt64
  params : List Parameter
  asm : Option String
  code : Option (List UInt8)
deriving DecidableEq, Repr

structure Manifest where
  globals : UInt64
  inputs : List UInt64
  functions : List FunctionEntry
deriving DecidableEq, Repr

open Document

def Parameter.ofNode? (n : Node) : Option Parameter := do
  match ← n.fields? ["width", "out"] with
  | [width, out] =>
    let width ← (← width).byte?
    let out ← Node.withDefault? false Node.flag? out
    return ⟨width, out⟩
  | _ => none

def FunctionEntry.ofNode? (n : Node) : Option FunctionEntry := do
  match ← n.fields? ["name", "locals", "params", "asm", "code"] with
  | [name, locals, params, asm, code] =>
    let name ← (← name).text?
    let locals ← Node.withDefault? 0 Node.word64? locals
    let params ← Node.withDefault? [] (Node.listOf? Parameter.ofNode?) params
    let asm ← Node.withDefault? none (Node.optional? Node.text?) asm
    let code ← Node.withDefault? none (Node.optional? (Node.listOf? Node.byte?)) code
    return ⟨name, locals, params, asm, code⟩
  | _ => none

/-- The manifest that a document describes. -/
def Manifest.ofNode? (n : Node) : Option Manifest := do
  match ← n.fields? ["globals", "inputs", "functions"] with
  | [globals, inputs, functions] =>
    let globals ← Node.withDefault? 0 Node.word64? globals
    let inputs ← Node.withDefault? [] (Node.listOf? Node.word64?) inputs
    let functions ← Node.listOf? FunctionEntry.ofNode? (← functions)
    return ⟨globals, inputs, functions⟩
  | _ => none

end ShaderMachine
