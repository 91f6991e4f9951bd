import ShaderMachine.Instruction.Listing
import ShaderMachine.Machine.Execution

/-!
# Invocations

An interpreter runs functions one invocation at a time. It keeps the stack and the globals that the
last invocation left, for inspection only: an invocation that starts to execute begins with fresh
ones. The words of `out` parameters are copied back into the arguments after the body has returned.
-/

namespace ShaderMachine

structure Options where
  /-- The number of instructions that an invocation may execute, if there is a limit. -/
  budget : Option Nat := none
deriving DecidableEq, Repr

def Options.withBudget (_ : Options) (limit : Nat) : Options := { budget := some limit }

/-- A number of turns that is enough for every run within the budget: one for each instruction, and
one to find the budget spent. Without a budget no number is, and `patience` is taken. -/
def Options.turns (o : Options) (patience : Nat) : Nat :=
  match o.budget with
  | some limit => limit + 1
  | none => patience

structure Interpreter where
  options : Options := {}
  stack : Stack := {}
  globals : Globals := {}
  /-- The number of instructions that the last invocation began. -/
  steps : Nat := 0
deriving DecidableEq, Repr

/-- What an invocation leaves behind. -/
structure Outcome where
  /-- The returned words, or the fault that ended the invocation. -/
  result : Except Fault (List Word)
  /-- The argument words, with those of `out` parameters copied back. -/
  args : Array Word
  interpreter : Interpreter
  events : Array Event

namespace Function

/-- Refuses an invocation that does not supply as many words as the function expects. -/
def checkCounts (f : Function) (inv : Invocation) : Except FaultKind Unit :=
  if inv.args.size < f.parameterSlots then
    .error (.argumentCount f.parameterSlots inv.args.size)
  else if inv.inputs.size ≠ f.layout.inputSlots.length then
    .error (.inputCount f.layout.inputSlots.length inv.inputs.size)
  else .ok ()

/-- The stack on which the body starts: the parameters and above them the locals. -/
def frame (f : Function) (args : Array Word) : Stack :=
  ⟨args.extract 0 f.parameterSlots ++ Array.replicate f.localCount Word.uninitialized⟩

end Function

/-- Writes the inputs into their slots, in order, up to the first slot that does not exist. A slot
number is a signed index in 64 bits. -/
def Globals.fill : List (UInt64 × Word) → Globals → Option FaultKind × Globals
  | [], g => (none, g)
  | (slot, w) :: rest, g =>
    match g.set slot.toInt64.toInt w with
    | .ok g => fill rest g
    | .error k => (some k, g)

/-- The globals at the start of an invocation. -/
def GlobalLayout.start (layout : GlobalLayout) (inputs : Array Word) : Option FaultKind × Globals :=
  Globals.fill (layout.inputSlots.zip inputs.toList) (.filled layout.globalCount .uninitialized)

/-- Copies the words of slots `offset` to `offset + width` of the stack into the arguments at the
same places, up to the first slot that the stack does not have. -/
def copySlots (stack : Stack) (offset : Nat) : Nat → Array Word → Option FaultKind × Array Word
  | 0, args => (none, args)
  | width + 1, args =>
    match stack.get offset with
    | .ok w => copySlots stack (offset + 1) width (args.setIfInBounds offset w)
    | .error k => (some k, args)

/-- Copies the words of `out` parameters from the stack into the arguments. The parameters lie one
after the other from `offset` on. -/
def copyOut (stack : Stack) (offset : Nat) :
    List Parameter → Array Word → Option FaultKind × Array Word
  | [], args => (none, args)
  | p :: parameters, args =>
    let width := p.width.toNat
    if p.out then
      match copySlots stack offset width args with
      | (none, args) => copyOut stack (offset + width) parameters args
      | (some k, args) => (some k, args)
    else copyOut stack (offset + width) parameters args

namespace Interpreter

/-- The events with which an invocation begins. -/
def openingEvents (f : Function) (verbose : Bool) : Array Event :=
  if verbose then
    let start := Event.invocationStart f.name f.parameterSlots f.localCount f.layout.globalCount
    match f.code.listing with
    | .ok listing => #[start, .body f.name listing]
    | .error _ => #[start]
  else #[]

/-- Events that only a verbose run reports. -/
def whenVerbose (verbose : Bool) (events : Array Event) (event : Event) : Array Event :=
  if verbose then events.push event else events

/-- The outcome of an invocation whose execution has stopped. -/
def conclude (options : Options) (f : Function) (verbose : Bool) (args : Array Word) (stop : Stop)
    (s : State) : Outcome :=
  let interpreter : Interpreter := ⟨options, s.stack, s.globals, s.steps⟩
  match stop with
  | .error fault =>
    let event := Event.invocationFaulted f.name fault s.steps
    ⟨.error fault, args, interpreter, whenVerbose verbose s.events event⟩
  | .ok count =>
    match copyOut s.stack 0 f.parameters args with
    | (some kind, args) => ⟨.error ⟨none, kind⟩, args, interpreter, s.events⟩
    | (none, args) =>
      let event := Event.invocationFinished f.name count s.steps
      let results := (s.stack.slots.extract 0 count).toList
      ⟨.ok results, args, interpreter, whenVerbose verbose s.events event⟩

/-- Runs a function for at most `turns` rounds; there is no outcome when they do not suffice. An
invocation that is refused for its number of words leaves stack and globals as they are. -/
def run (vm : Interpreter) (f : Function) (inv : Invocation) (verbose : Bool) (turns : Nat) :
    Option Outcome :=
  match f.checkCounts inv with
  | .error kind => some ⟨.error ⟨none, kind⟩, inv.args, { vm with steps := 0 }, #[]⟩
  | .ok () =>
    let stack := f.frame inv.args
    match f.layout.start inv.inputs with
    | (some kind, globals) =>
      some ⟨.error ⟨none, kind⟩, inv.args, ⟨vm.options, stack, globals, 0⟩, #[]⟩
    | (none, globals) =>
      let s : State := ⟨0, 0, stack, globals, openingEvents f verbose⟩
      match execute f.code ⟨vm.options.budget, verbose⟩ turns s with
      | some (stop, s) => some (conclude vm.options f verbose inv.args stop s)
      | none => none

end Interpreter

/-- Runs a function on a fresh interpreter without limit on the instructions. -/
def Function.run (f : Function) (inv : Invocation) (turns : Nat) : Option Outcome :=
  ({} : Interpreter).run f inv false turns

end ShaderMachine
