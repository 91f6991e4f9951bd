import ShaderMachine.Interpreter

/-!
# Batches

Many invocations of one function are divided into chunks, one for each worker. A worker runs its
chunk in order on an interpreter of its own, so the outcomes do not depend on how the batch was
divided.
-/

namespace ShaderMachine.Batch

/-- The number of workers in use: at least one, and no more than there are invocations. -/
def workerCount (workers invocations : Nat) : Nat := max 1 (min workers (max 1 invocations))

/-- Consecutive chunks of `size` items, or of one item if `size` is zero; the last one may be
shorter. -/
def chunks {α : Type} (size : Nat) : List α → List (List α)
  | [] => []
  | item :: items => (item :: items.take (size - 1)) :: chunks size (items.drop (size - 1))
termination_by items => items.length
decreasing_by simp only [List.length_drop, List.length_cons]; omega

/-- Runs invocations one after the other on one interpreter. -/
def runChunk (f : Function) (turns : Nat) : Interpreter → List Invocation → Option (List Outcome)
  | _, [] => some []
  | vm, inv :: rest => do
    let outcome ← vm.run f inv false turns
    let others ← runChunk f turns outcome.interpreter rest
    return outcome :: others

/-- The outcomes of all invocations, in their order. -/
def run (f : Function) (options : Options) (workers : Nat) (turns : Nat)
    (invocations : List Invocation) : Option (List Outcome) :=
  let count := workerCount workers invocations.length
  if count = 1 then runChunk f turns { options } invocations
  else do
    let size := (invocations.length + count - 1) / count
    let outcomes ← (chunks size invocations).mapM (runChunk f turns { options })
    return outcomes.flatten

/-- The event that announces a batch. -/
def event (f : Function) (workers invocations : Nat) : Event :=
  .runningBatch f.name invocations (workerCount workers invocations)

end ShaderMachine.Batch
