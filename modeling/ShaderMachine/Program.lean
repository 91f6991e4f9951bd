import ShaderMachine.Assembler.Source
import ShaderMachine.Manifest

/-!
# Programs

A program is a set of functions over one global layout. It is made from a manifest, provided that
the manifest is consistent: inputs are globals, names are distinct, and every function has one body.
The first violation is reported, inputs before functions.
-/

namespace ShaderMachine

structure Program where
  layout : GlobalLayout
  functions : List Function
deriving DecidableEq, Repr

/-- Why a manifest is no program. -/
inductive ProgramError where
  | inputOutside (slot globals : UInt64)
  | duplicateFunction (name : String)
  | twoBodies (name : String)
  | noBody (name : String)
  | assembling (name : String) (e : AssembleError)
deriving DecidableEq, Repr

/-- The messages of an error, from the outermost to its cause. -/
def ProgramError.messages : ProgramError → List String
  | inputOutside slot globals =>
    ["input slot " ++ Numeral.natText slot.toNat ++ " outside the " ++
      Numeral.natText globals.toNat ++ " declared globals"]
  | duplicateFunction name => ["duplicate function '" ++ name ++ "'"]
  | twoBodies name => ["function '" ++ name ++ "' has both 'asm' and 'code'"]
  | noBody name => ["function '" ++ name ++ "' has neither 'asm' nor 'code'"]
  | assembling name e => ("assembling '" ++ name ++ "'") :: e.messages

/-- The body of a function as it is described. -/
def FunctionEntry.body (f : FunctionEntry) : Except ProgramError Code :=
  match f.asm, f.code with
  | some text, none =>
    match assemble text with
    | .ok code => .ok code
    | .error e => .error (.assembling f.name e)
  | none, some bytes => .ok bytes.toArray
  | some _, some _ => .error (.twoBodies f.name)
  | none, none => .error (.noBody f.name)

namespace Program

/-- The functions of a manifest, given the names of those before them. -/
def functionsOf (layout : GlobalLayout) (seen : List String) :
    List FunctionEntry → Except ProgramError (List Function)
  | [] => .ok []
  | f :: rest =>
    if f.name ∈ seen then .error (.duplicateFunction f.name)
    else do
      let code ← f.body
      let functions ← functionsOf layout (f.name :: seen) rest
      return ⟨f.name, f.params, f.locals.toNat, code, layout⟩ :: functions

/-- The program of a manifest. -/
def ofManifest (m : Manifest) : Except ProgramError Program :=
  match m.inputs.find? fun slot => m.globals ≤ slot with
  | some slot => .error (.inputOutside slot m.globals)
  | none => do
    let layout : GlobalLayout := ⟨m.globals.toNat, m.inputs⟩
    let functions ← functionsOf layout [] m.functions
    return ⟨layout, functions⟩

/-- The function with a name. -/
def function? (p : Program) (name : String) : Option Function :=
  p.functions.find? fun f => f.name == name

/-- Why a program has no function to run. -/
inductive EntryError where
  | noSuchFunction (name : String)
  | ambiguous
deriving DecidableEq, Repr

def EntryError.message : EntryError → String
  | noSuchFunction name => "no function named '" ++ name ++ "'"
  | ambiguous => "program has no 'main'; pick a function explicitly"

/-- The function to run: the one asked for, or else `main`, or else the only one. -/
def entry (p : Program) (name : Option String) : Except EntryError Function :=
  match name with
  | some name =>
    match p.function? name with
    | some f => .ok f
    | none => .error (.noSuchFunction name)
  | none =>
    match p.function? "main", p.functions with
    | some f, _ => .ok f
    | none, [f] => .ok f
    | none, _ => .error .ambiguous

end Program

end ShaderMachine
