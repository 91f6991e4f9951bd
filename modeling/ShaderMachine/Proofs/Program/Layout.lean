import ShaderMachine.Program
import ShaderMachine.Proofs.Machine.Invocation

/-!
# Loaded programs fit their layout

A manifest is a program only if its input slots are among its globals, which compares unsigned
numbers (`Program.ofManifest_eq_ok_iff`). An invocation writes each input to its slot as a signed
index into the table that it has set up. `Program.run_of_ofManifest` says that the one check makes
the other superfluous: an invocation of a loaded function is refused for the number of its arguments
or else of its inputs, and if both are right, its body is executed.
-/

namespace ShaderMachine

/-- The outcome of an invocation that is refused for the number of words that it supplies. -/
def Interpreter.refusal (vm : Interpreter) (inv : Invocation) (kind : FaultKind) : Outcome :=
  ⟨.error ⟨none, kind⟩, inv.args, { vm with steps := 0 }, #[]⟩

/-- Inputs can be written to slots that are in range, also if there are too few or too many. -/
theorem GlobalLayout.start_eq_none {layout : GlobalLayout}
    (h : ∀ slot ∈ layout.inputSlots, layout.InRange slot) (inputs : Array Word) :
    (layout.start inputs).1 = none := by
  have hsize : (Globals.filled layout.globalCount .uninitialized).slots.size = layout.globalCount :=
    Array.size_replicate
  refine Globals.fill_eq_none_iff.2 fun input hinput => ?_
  rw [Slots.InBounds, hsize]
  exact h input.1 (List.of_mem_zip hinput).1

/-- A function that can write its inputs is executed unless the numbers of words are wrong. -/
theorem Interpreter.run_of_start {f : Function} (h : ∀ inputs, (f.layout.start inputs).1 = none)
    (vm : Interpreter) (inv : Invocation) (verbose : Bool) (turns : Nat) :
    vm.run f inv verbose turns =
      if inv.args.size < f.parameterSlots then
        some (vm.refusal inv (.argumentCount f.parameterSlots inv.args.size))
      else if inv.inputs.size ≠ f.layout.inputSlots.length then
        some (vm.refusal inv (.inputCount f.layout.inputSlots.length inv.inputs.size))
      else
        (execute f.code ⟨vm.options.budget, verbose⟩ turns
          (startState f inv verbose (f.layout.start inv.inputs).2)).map fun (stop, s) =>
            conclude vm.options f verbose inv.args stop s := by
  rw [run_eq, setup]
  unfold Function.checkCounts
  by_cases hargs : inv.args.size < f.parameterSlots
  · simp only [if_pos hargs]
    rfl
  · by_cases hinputs : inv.inputs.size ≠ f.layout.inputSlots.length
    · simp only [if_neg hargs, if_pos hinputs]
      rfl
    · simp only [if_neg hargs, if_neg hinputs]
      have hstart := h inv.inputs
      generalize f.layout.start inv.inputs = start at hstart
      obtain ⟨k, globals⟩ := start
      obtain rfl : k = none := hstart
      rfl

namespace Program

section
variable {m : Manifest} {p : Program} {layout : GlobalLayout} {seen : List String}
  {entries : List FunctionEntry} {functions : List Function} {f : Function}

/-- A manifest is a program if its input slots are among its globals and its functions can be loaded
with the layout that these make. -/
theorem ofManifest_eq_ok_iff :
    ofManifest m = .ok p ↔ (∀ slot ∈ m.inputs, slot < m.globals) ∧
      p.layout = ⟨m.globals.toNat, m.inputs⟩ ∧
      functionsOf p.layout [] m.functions = .ok p.functions := by
  unfold ofManifest
  cases hfind : m.inputs.find? fun slot => m.globals ≤ slot with
  | some slot =>
    have hle : m.globals ≤ slot := by simpa using List.find?_some hfind
    refine iff_of_false nofun fun h => ?_
    exact UInt64.not_lt.2 hle (h.1 slot (List.mem_of_find?_eq_some hfind))
  | none =>
    have hslots : ∀ slot ∈ m.inputs, slot < m.globals := by
      simpa [UInt64.not_le] using hfind
    obtain ⟨layout, functions⟩ := p
    rw [and_iff_right hslots]
    dsimp only
    constructor
    · intro h
      cases hfunctions : functionsOf ⟨m.globals.toNat, m.inputs⟩ [] m.functions with
      | error e =>
        rw [hfunctions] at h
        cases h
      | ok loaded =>
        rw [hfunctions] at h
        cases h
        exact ⟨rfl, hfunctions⟩
    · rintro ⟨rfl, hfunctions⟩
      rw [hfunctions]
      rfl

/-- All functions are loaded with one layout. -/
theorem layout_of_mem_functionsOf (h : functionsOf layout seen entries = .ok functions)
    (hf : f ∈ functions) : f.layout = layout := by
  induction entries generalizing seen functions with
  | nil =>
    cases h
    cases hf
  | cons entry entries ih =>
    rw [functionsOf] at h
    split at h
    · cases h
    · cases hbody : entry.body with
      | error e =>
        rw [hbody] at h
        cases h
      | ok code =>
        cases hrest : functionsOf layout (entry.name :: seen) entries with
        | error e =>
          rw [hbody, hrest] at h
          cases h
        | ok rest =>
          rw [hbody, hrest] at h
          cases h
          rcases List.mem_cons.1 hf with rfl | hf
          · rfl
          · exact ih hrest hf

/-- The input slots of a loaded function are in range, read as signed indices. -/
theorem inRange_of_ofManifest (h : ofManifest m = .ok p) (hglobals : m.globals.toNat < 2 ^ 63)
    (hf : f ∈ p.functions) : ∀ slot ∈ f.layout.inputSlots, f.layout.InRange slot := by
  obtain ⟨hslots, hlayout, hfunctions⟩ := ofManifest_eq_ok_iff.1 h
  rw [layout_of_mem_functionsOf hfunctions hf, hlayout]
  intro slot hslot
  exact (GlobalLayout.inRange_iff (Nat.le_of_lt hglobals) slot).2
    (UInt64.lt_iff_toNat_lt.1 (hslots slot hslot))

/-- **Loaded programs do not fail on their own layout.** The inputs of a function that has been
loaded can always be written. An invocation is refused if its arguments are too few, or else if its
inputs are not as many as the manifest names; any other invocation is executed from its first
instruction. -/
theorem run_of_ofManifest (h : ofManifest m = .ok p) (hglobals : m.globals.toNat < 2 ^ 63)
    (hf : f ∈ p.functions) :
    (∀ inputs, (f.layout.start inputs).1 = none) ∧
    ∀ (vm : Interpreter) (inv : Invocation) (verbose : Bool) (turns : Nat),
      vm.run f inv verbose turns =
        if inv.args.size < f.parameterSlots then
          some (vm.refusal inv (.argumentCount f.parameterSlots inv.args.size))
        else if inv.inputs.size ≠ m.inputs.length then
          some (vm.refusal inv (.inputCount m.inputs.length inv.inputs.size))
        else
          (execute f.code ⟨vm.options.budget, verbose⟩ turns
            (Interpreter.startState f inv verbose (f.layout.start inv.inputs).2)).map fun (stop, s) =>
              Interpreter.conclude vm.options f verbose inv.args stop s := by
  obtain ⟨-, hlayout, hfunctions⟩ := ofManifest_eq_ok_iff.1 h
  have hslots : f.layout.inputSlots = m.inputs := by
    rw [layout_of_mem_functionsOf hfunctions hf, hlayout]
  have hstart := GlobalLayout.start_eq_none (inRange_of_ofManifest h hglobals hf)
  refine ⟨hstart, fun vm inv verbose turns => ?_⟩
  rw [← hslots]
  exact Interpreter.run_of_start hstart vm inv verbose turns

end

/-- A program of one function that adds its two inputs, the second of which is the first global. -/
def blendManifest : Manifest :=
  ⟨2, [1, 0], [⟨"blend", 0, [⟨1, true⟩], some "vector 2 loadglobal 0\naddi\nreturn 1", none⟩]⟩

def blendFunction : Function :=
  ⟨"blend", [⟨1, true⟩], 0, #[55, 2, 30, 0, 1, 46, 1], ⟨2, [1, 0]⟩⟩

/-- The program refuses too few arguments and too few inputs, in this order, and else runs with its
inputs at the slots that the manifest names. -/
theorem run_of_ofManifest_blendManifest :
    ofManifest blendManifest = .ok ⟨⟨2, [1, 0]⟩, [blendFunction]⟩ ∧
      blendManifest.globals.toNat < 2 ^ 63 ∧
      (({} : Interpreter).run blendFunction ⟨#[], #[]⟩ false 0 =
        some (({} : Interpreter).refusal ⟨#[], #[]⟩ (.argumentCount 1 0))) ∧
      (({} : Interpreter).run blendFunction ⟨#[⟨0⟩], #[⟨7⟩]⟩ false 0 =
        some (({} : Interpreter).refusal ⟨#[⟨0⟩], #[⟨7⟩]⟩ (.inputCount 2 1))) ∧
      (({} : Interpreter).run blendFunction ⟨#[⟨0⟩], #[⟨7⟩, ⟨5⟩]⟩ false 3).map Outcome.result =
        some (.ok [⟨12⟩]) := by
  have hload : ofManifest blendManifest = .ok ⟨⟨2, [1, 0]⟩, [blendFunction]⟩ := by decide +kernel
  obtain ⟨-, hrun⟩ := run_of_ofManifest hload (by decide) (List.mem_singleton_self _)
  refine ⟨hload, by decide, ?_, ?_, ?_⟩
  · exact (hrun {} _ false 0).trans (if_pos (by decide))
  · exact (hrun {} _ false 0).trans ((if_neg (by decide)).trans (if_pos (by decide)))
  · rw [hrun {} _ false 3, if_neg (by decide), if_neg (by decide)]
    decide +kernel

end Program

end ShaderMachine
