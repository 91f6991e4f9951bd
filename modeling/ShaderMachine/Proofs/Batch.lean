import ShaderMachine.Batch
import ShaderMachine.Proofs.Machine.Prefix
import ShaderMachine.Proofs.Machine.Session

/-!
# A batch is its invocations, each run alone

However a batch is divided, the outcomes are those of chunks that together make up the batch
(`Batch.exists_parts`). Within a chunk one invocation follows the other on one interpreter, where it
is unaffected by those before it (`Interpreter.Ends.unaffected`). So every outcome hands back what
its invocation does alone (`Batch.forall₂_of_runChunk`), and a batch ends if all its invocations do.
-/

namespace ShaderMachine

/-! ## Lists of computations that may fail -/

section
variable {α β : Type} {g : α → Option β}

/-- A list of computations succeeds with results if each of them does with its own. -/
theorem mapM_eq_some_iff {items : List α} {results : List β} :
    items.mapM g = some results ↔ List.Forall₂ (g · = some ·) items results := by
  induction items generalizing results with
  | nil =>
    rw [List.mapM_nil, List.forall₂_nil_left_iff]
    exact Option.some_inj.trans eq_comm
  | cons item items ih =>
    rw [List.mapM_cons, List.forall₂_cons_left_iff]
    simp only [bind, Option.bind_eq_some_iff, pure, Option.some.injEq, ih]
    constructor
    · rintro ⟨result, hresult, results, hresults, rfl⟩
      exact ⟨result, results, hresult, hresults, rfl⟩
    · rintro ⟨result, results, hresult, hresults, rfl⟩
      exact ⟨result, hresult, results, hresults, rfl⟩

/-- If each of a list of computations succeeds, so do all of them. -/
theorem exists_mapM {items : List α} (h : ∀ item ∈ items, ∃ result, g item = some result) :
    ∃ results, items.mapM g = some results := by
  simp only [mapM_eq_some_iff]
  induction items with
  | nil => exact ⟨[], .nil⟩
  | cons item items ih =>
    obtain ⟨⟨result, hresult⟩, hitems⟩ := List.forall_mem_cons.1 h
    obtain ⟨results, hresults⟩ := ih hitems
    exact ⟨result :: results, .cons hresult hresults⟩

end

/-- More turns do not change the outcome of an invocation. -/
theorem Interpreter.run_mono {vm : Interpreter} {f : Function} {inv : Invocation} {verbose : Bool}
    {turns turns' : Nat} {o : Outcome} (hle : turns ≤ turns')
    (h : vm.run f inv verbose turns = some o) : vm.run f inv verbose turns' = some o := by
  refine run_eq_some_iff.2 ?_
  rcases run_eq_some_iff.1 h with hsetup | ⟨globals, stop, s, hsetup, hexecute, ho⟩
  · exact .inl hsetup
  · exact .inr ⟨globals, stop, s, hsetup, execute_mono hle hexecute, ho⟩

/-- The outcome hands back what the invocation does on an interpreter of its own: the same result or
fault, and the same arguments. -/
def Outcome.AsAlone (o : Outcome) (f : Function) (options : Options) (inv : Invocation) : Prop :=
  ∃ o', (Interpreter.fresh options).Ends f inv false o' ∧ o.result = o'.result ∧ o.args = o'.args

namespace Batch

/-! ## Dividing a batch -/

/-- Chunks keep the order, and they lose and repeat nothing. -/
theorem flatten_chunks {α : Type} (size : Nat) (items : List α) :
    (chunks size items).flatten = items := by
  fun_induction chunks size items with
  | case1 => rfl
  | case2 item items ih => rw [List.flatten_cons, ih, List.cons_append, List.take_append_drop]

section
variable {f : Function} {options : Options} {workers turns : Nat} {vm : Interpreter}
  {invs : List Invocation} {os : List Outcome}

/-- The outcomes of a batch are those of some chunks that make it up. -/
theorem exists_parts (f : Function) (options : Options) (workers : Nat) (invs : List Invocation) :
    ∃ parts : List (List Invocation), parts.flatten = invs ∧ ∀ turns,
      run f options workers turns invs =
        (parts.mapM (runChunk f turns (.fresh options))).map List.flatten := by
  by_cases hone : workerCount workers invs.length = 1
  · refine ⟨[invs], List.flatten_singleton, fun turns => ?_⟩
    rw [run, if_pos hone, List.mapM_cons, List.mapM_nil]
    cases hchunk : runChunk f turns (.fresh options) invs with
    | none => exact hchunk
    | some os =>
      refine hchunk.trans (congrArg some ?_)
      exact List.flatten_singleton.symm
  · have hchunks := flatten_chunks
      ((invs.length + workerCount workers invs.length - 1) / workerCount workers invs.length) invs
    refine ⟨_, hchunks, fun turns => ?_⟩
    rw [run, if_neg hone, Option.map_eq_bind]
    rfl

/-! ## Chunks -/

/-- The outcomes of a chunk are those of its invocations alone, one for each. -/
theorem forall₂_of_runChunk (h : runChunk f turns vm invs = some os) :
    List.Forall₂ (fun inv o => o.AsAlone f vm.options inv) invs os := by
  induction invs generalizing vm os with
  | nil =>
    cases h
    exact .nil
  | cons inv invs ih =>
    simp only [runChunk, bind, Option.bind_eq_some_iff, pure, Option.some.injEq] at h
    obtain ⟨o, hrun, os, hrest, rfl⟩ := h
    have hends : vm.Ends f inv false o := ⟨turns, hrun⟩
    obtain ⟨o', hends'⟩ := Interpreter.exists_ends_iff.1 ⟨o, hends⟩
    have hunaffected := hends.unaffected hends'
    have hos := ih hrest
    rw [hends.options] at hos
    exact .cons ⟨o', hends', hunaffected.result, hunaffected.args⟩ hos

/-- A chunk ends if its invocations end when they are run alone. -/
theorem exists_runChunk
    (h : ∀ inv ∈ invs, ∃ o, (Interpreter.fresh vm.options).run f inv false turns = some o) :
    ∃ os, runChunk f turns vm invs = some os := by
  induction invs generalizing vm with
  | nil => exact ⟨[], rfl⟩
  | cons inv invs ih =>
    obtain ⟨hinv, hinvs⟩ := List.forall_mem_cons.1 h
    obtain ⟨o, hrun⟩ := (Interpreter.exists_run_iff turns).2 hinv
    have hoptions : o.interpreter.options = vm.options := Interpreter.Ends.options ⟨turns, hrun⟩
    rw [← hoptions] at hinvs
    obtain ⟨os, hos⟩ := ih hinvs
    refine ⟨o :: os, ?_⟩
    rw [runChunk, hrun]
    simp only [bind, Option.bind_some, hos]
    rfl

/-- There is a number of turns that is enough for all of some invocations that end. -/
theorem exists_turns (h : ∀ inv ∈ invs, ∃ o, vm.Ends f inv false o) :
    ∃ turns, ∀ inv ∈ invs, ∃ o, vm.run f inv false turns = some o := by
  induction invs with
  | nil => exact ⟨0, nofun⟩
  | cons inv invs ih =>
    obtain ⟨⟨o, turns, hrun⟩, hinvs⟩ := List.forall_mem_cons.1 h
    obtain ⟨turns', hruns⟩ := ih hinvs
    refine ⟨max turns turns', List.forall_mem_cons.2 ⟨⟨o, ?_⟩, fun inv hinv => ?_⟩⟩
    · exact Interpreter.run_mono (Nat.le_max_left ..) hrun
    · obtain ⟨o, hrun⟩ := hruns inv hinv
      exact ⟨o, Interpreter.run_mono (Nat.le_max_right ..) hrun⟩

/-! ## Batches -/

/-- The batch ends with the outcomes. -/
def Ends (f : Function) (options : Options) (workers : Nat) (invs : List Invocation)
    (os : List Outcome) : Prop :=
  ∃ turns, run f options workers turns invs = some os

/-- Each outcome of a batch is that of its invocation alone. -/
theorem forall₂_of_run (h : run f options workers turns invs = some os) :
    List.Forall₂ (fun inv o => o.AsAlone f options inv) invs os := by
  obtain ⟨parts, rfl, hrun⟩ := exists_parts f options workers invs
  rw [hrun] at h
  obtain ⟨oss, hoss, rfl⟩ := Option.map_eq_some_iff.1 h
  exact List.rel_flatten ((mapM_eq_some_iff.1 hoss).imp fun _ _ => forall₂_of_runChunk)

/-- A batch ends if each of its invocations does. The turns of the longest one are enough for
all. -/
theorem exists_ends (h : ∀ inv ∈ invs, ∃ o, (Interpreter.fresh options).Ends f inv false o) :
    ∃ os, Ends f options workers invs os := by
  obtain ⟨turns, hruns⟩ := exists_turns h
  obtain ⟨parts, rfl, hrun⟩ := exists_parts f options workers invs
  have hparts : ∀ part ∈ parts, ∃ os, runChunk f turns (.fresh options) part = some os :=
    fun part hpart => exists_runChunk fun inv hinv =>
      hruns inv (List.mem_flatten.2 ⟨part, hpart, hinv⟩)
  obtain ⟨oss, hoss⟩ := exists_mapM hparts
  exact ⟨oss.flatten, turns, by rw [hrun, hoss]; rfl⟩

/-- **A batch is its invocations, each run alone.** For every number of workers, a batch ends if all
its invocations do when they are run alone. Then it has one outcome for each, in their order, with
the result and the arguments of the invocation alone. -/
theorem ends_as_alone (f : Function) (options : Options) (workers : Nat)
    (invs : List Invocation) :
    ((∃ os, Ends f options workers invs os) ↔
      ∀ inv ∈ invs, ∃ o, (Interpreter.fresh options).Ends f inv false o) ∧
    ∀ os, Ends f options workers invs os → os.length = invs.length ∧
      ∀ i (hinv : i < invs.length) (ho : i < os.length), os[i].AsAlone f options invs[i] := by
  have hall : ∀ os, Ends f options workers invs os → os.length = invs.length ∧
      ∀ i (hinv : i < invs.length) (ho : i < os.length), os[i].AsAlone f options invs[i] := by
    rintro os ⟨turns, hrun⟩
    have halone := forall₂_of_run hrun
    exact ⟨halone.length_eq.symm, fun i hinv ho => halone.get hinv ho⟩
  refine ⟨⟨?_, exists_ends⟩, hall⟩
  rintro ⟨os, hends⟩ inv hinv
  obtain ⟨hlength, halone⟩ := hall os hends
  obtain ⟨i, hi, rfl⟩ := List.getElem_of_mem hinv
  obtain ⟨o, ho, -⟩ := halone i hi (hlength ▸ hi)
  exact ⟨o, ho⟩

end

/-- A function that returns its argument if that is zero, and otherwise leaves its body. -/
def checkFunction : Function := ⟨"check", [⟨1, false⟩], 0, #[26, 21, 9, 0, 46, 1], ⟨0, []⟩⟩

def checkInvocation (w : Word) : Invocation := ⟨#[w], #[]⟩

/-- Two workers share three invocations. The second one fails, which the third one does not
notice. -/
theorem ends_as_alone_checkFunction :
    ∃ o₀ o₁ o₂,
      Ends checkFunction {} 2 [checkInvocation ⟨0⟩, checkInvocation ⟨1⟩, checkInvocation ⟨0⟩]
        [o₀, o₁, o₂] ∧
      o₁.result = .error ⟨some 9, .codeOverrun⟩ ∧ o₂.result = .ok [⟨0⟩] := by
  have hrun₀ : ((Interpreter.fresh {}).run checkFunction (checkInvocation ⟨0⟩) false 3).map
      Outcome.result = some (.ok [⟨0⟩]) := by decide +kernel
  have hrun₁ : ((Interpreter.fresh {}).run checkFunction (checkInvocation ⟨1⟩) false 3).map
      Outcome.result = some (.error ⟨some 9, .codeOverrun⟩) := by decide
  obtain ⟨zero, hzero, hresult₀⟩ := Option.map_eq_some_iff.1 hrun₀
  obtain ⟨one, hone, hresult₁⟩ := Option.map_eq_some_iff.1 hrun₁
  obtain ⟨hiff, hall⟩ := ends_as_alone checkFunction {} 2
    [checkInvocation ⟨0⟩, checkInvocation ⟨1⟩, checkInvocation ⟨0⟩]
  obtain ⟨os, hends⟩ := hiff.2 fun inv hinv => by
    rcases List.mem_cons.1 hinv with rfl | hinv
    · exact ⟨zero, 3, hzero⟩
    · rcases List.mem_pair.1 hinv with rfl | rfl
      · exact ⟨one, 3, hone⟩
      · exact ⟨zero, 3, hzero⟩
  obtain ⟨hlength, halone⟩ := hall os hends
  obtain ⟨o₀, o₁, o₂, rfl⟩ := List.length_eq_three.1 hlength
  obtain ⟨o, ho, hresult, -⟩ := halone 1 (by decide) (by simp)
  obtain rfl := ho.unique ⟨3, hone⟩
  obtain ⟨o', ho', hresult', -⟩ := halone 2 (by decide) (by simp)
  obtain rfl := ho'.unique ⟨3, hzero⟩
  exact ⟨o₀, o₁, o₂, hends, hresult.trans hresult₁, hresult'.trans hresult₀⟩

end Batch

end ShaderMachine
