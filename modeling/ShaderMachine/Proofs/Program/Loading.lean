import ShaderMachine.Proofs.Program.Layout

/-!
# Which manifests are loaded

`Program.ofManifest_iff_consistent` says which manifests are loaded (`Manifest.Consistent`), as
which program (`Manifest.Describes`), and with which error any other is refused
(`Manifest.FirstViolation`): inputs are checked before functions, functions in their order, and the
name of a function before its body.

Functions are loaded one after the other with the names of those before them. What loading one of
them does is said once (`functionsOf_cons_eq_ok_iff`, `functionsOf_cons_eq_error_iff`); what holds of
all follows by induction, for any names that are taken at the start.
-/

namespace ShaderMachine

/-! ## Entries -/

namespace FunctionEntry

/-- An entry has exactly one of assembly text and bytes, and the text can be assembled. -/
structure HasBody (f : FunctionEntry) : Prop where
  one : f.asm.isSome ≠ f.code.isSome
  assembles : ∀ text, f.asm = some text → ∃ code, assemble text = .ok code

/-- The body that an entry describes: its bytes, or what its text assembles to. -/
inductive DescribesBody (f : FunctionEntry) : Code → Prop
  | bytes {bytes} : f.asm = none → f.code = some bytes → f.DescribesBody bytes.toArray
  | text {text code} : f.asm = some text → f.code = none → assemble text = .ok code →
      f.DescribesBody code

/-- What is wrong with an entry that describes no body. -/
inductive LacksBody (f : FunctionEntry) : ProgramError → Prop
  | both {text bytes} : f.asm = some text → f.code = some bytes → f.LacksBody (.twoBodies f.name)
  | neither : f.asm = none → f.code = none → f.LacksBody (.noBody f.name)
  | text {text e} : f.asm = some text → f.code = none → assemble text = .error e →
      f.LacksBody (.assembling f.name e)

/-- Why an entry is not accepted behind others that have taken the given names. That its own name is
taken counts more than what is wrong with its body. -/
inductive Rejected (f : FunctionEntry) (names : List String) : ProgramError → Prop
  | name : f.name ∈ names → f.Rejected names (.duplicateFunction f.name)
  | body {e} : f.name ∉ names → f.LacksBody e → f.Rejected names e

/-- The function that an entry describes, in a program with the given layout. -/
structure Describes (entry : FunctionEntry) (layout : GlobalLayout) (f : Function) : Prop where
  name : f.name = entry.name
  parameters : f.parameters = entry.params
  localCount : f.localCount = entry.locals.toNat
  layout : f.layout = layout
  body : entry.DescribesBody f.code

section
variable {f : FunctionEntry} {code : Code} {e : ProgramError} {names names' : List String}

/-- The order in which names were taken is of no concern. -/
theorem Rejected.congr (h : ∀ name, name ∈ names ↔ name ∈ names') (hf : f.Rejected names e) :
    f.Rejected names' e := by
  cases hf with
  | name hname => exact .name ((h _).1 hname)
  | body hname hbody => exact .body (fun hname' => hname ((h _).2 hname')) hbody

/-- A body that is described is the one that is made. -/
theorem body_of_describesBody (h : f.DescribesBody code) : f.body = .ok code := by
  unfold body
  cases h with
  | bytes hasm hcode => rw [hasm, hcode]
  | text hasm hcode hassemble => simp only [hasm, hcode, hassemble]

/-- What is wrong with an entry is the error that is reported. -/
theorem body_of_lacksBody (h : f.LacksBody e) : f.body = .error e := by
  unfold body
  cases h with
  | both hasm hcode | neither hasm hcode => rw [hasm, hcode]
  | text hasm hcode hassemble => simp only [hasm, hcode, hassemble]

/-- An entry describes a body, or something is wrong with it. -/
theorem describesBody_or_lacksBody (f : FunctionEntry) :
    (∃ code, f.DescribesBody code) ∨ ∃ e, f.LacksBody e := by
  cases hasm : f.asm with
  | none =>
    cases hcode : f.code with
    | none => exact .inr ⟨_, .neither hasm hcode⟩
    | some bytes => exact .inl ⟨_, .bytes hasm hcode⟩
  | some text =>
    cases hcode : f.code with
    | none =>
      cases hassemble : assemble text with
      | ok code => exact .inl ⟨code, .text hasm hcode hassemble⟩
      | error e => exact .inr ⟨_, .text hasm hcode hassemble⟩
    | some bytes => exact .inr ⟨_, .both hasm hcode⟩

/-- An entry has the body that it describes, and no other. -/
theorem body_eq_ok_iff : f.body = .ok code ↔ f.DescribesBody code := by
  refine ⟨fun h => ?_, body_of_describesBody⟩
  rcases f.describesBody_or_lacksBody with ⟨code', hcode⟩ | ⟨e, he⟩
  · have heq := h.symm.trans (body_of_describesBody hcode)
    cases heq
    exact hcode
  · have heq := h.symm.trans (body_of_lacksBody he)
    cases heq

/-- An entry is reported for what is wrong with it, and for nothing else. -/
theorem body_eq_error_iff : f.body = .error e ↔ f.LacksBody e := by
  refine ⟨fun h => ?_, body_of_lacksBody⟩
  rcases f.describesBody_or_lacksBody with ⟨code, hcode⟩ | ⟨e', he⟩
  · have heq := h.symm.trans (body_of_describesBody hcode)
    cases heq
  · have heq := h.symm.trans (body_of_lacksBody he)
    cases heq
    exact he

/-- Entries with one body are those that describe one. -/
theorem hasBody_iff : f.HasBody ↔ ∃ code, f.DescribesBody code := by
  constructor
  · rintro ⟨hone, hassembles⟩
    refine f.describesBody_or_lacksBody.resolve_right ?_
    rintro ⟨e, he⟩
    cases he with
    | both hasm hcode | neither hasm hcode => exact hone (by rw [hasm, hcode]; rfl)
    | text hasm _ hassemble =>
      obtain ⟨code, hcode⟩ := hassembles _ hasm
      rw [hassemble] at hcode
      cases hcode
  · rintro ⟨code, h⟩
    cases h with
    | bytes hasm hcode => exact ⟨by simp [hasm, hcode], by simp [hasm]⟩
    | text hasm hcode hassemble =>
      refine ⟨by simp [hasm, hcode], fun text htext => ?_⟩
      rw [hasm] at htext
      cases htext
      exact ⟨code, hassemble⟩

/-- Entries with one body are those of which a body is made. -/
theorem hasBody_iff_body : f.HasBody ↔ ∃ code, f.body = .ok code := by
  simp only [hasBody_iff, body_eq_ok_iff]

/-- If the name of an entry is taken, this is what is reported. -/
theorem rejected_iff_of_mem (h : f.name ∈ names) :
    f.Rejected names e ↔ e = .duplicateFunction f.name := by
  constructor
  · intro hf
    cases hf with
    | name => rfl
    | body hname => exact absurd h hname
  · rintro rfl
    exact .name h

/-- If the name of an entry is free, the error of its body is reported. -/
theorem rejected_iff_of_not_mem (h : f.name ∉ names) : f.Rejected names e ↔ f.body = .error e := by
  rw [body_eq_error_iff]
  constructor
  · intro hf
    cases hf with
    | name hname => exact absurd hname h
    | body _ hbody => exact hbody
  · exact .body h

end

end FunctionEntry

/-! ## Manifests -/

/-- The names of the entries differ from those that are taken, and from each other. -/
def Unused (taken : List String) (entries : List FunctionEntry) : Prop :=
  (entries.map FunctionEntry.name).Nodup ∧ ∀ f ∈ entries, f.name ∉ taken

/-- The first entry takes its name, and the others have to differ from it as well. -/
theorem unused_cons_iff {taken : List String} {f : FunctionEntry} {rest : List FunctionEntry} :
    Unused taken (f :: rest) ↔ f.name ∉ taken ∧ Unused (f.name :: taken) rest := by
  constructor
  · rintro ⟨hnodup, htaken⟩
    obtain ⟨hnotin, hnodup⟩ := List.nodup_cons.1 hnodup
    refine ⟨htaken f (.head _), hnodup, fun g hg hmem => ?_⟩
    rcases List.mem_cons.1 hmem with heq | hmem
    · exact hnotin (heq ▸ List.mem_map_of_mem hg)
    · exact htaken g (.tail _ hg) hmem
  · rintro ⟨hname, hnodup, htaken⟩
    refine ⟨List.nodup_cons.2 ⟨fun hmem => ?_, hnodup⟩, fun g hg => ?_⟩
    · obtain ⟨g, hg, heq⟩ := List.mem_map.1 hmem
      exact htaken g hg (heq ▸ .head _)
    · rcases List.mem_cons.1 hg with rfl | hg
      · exact hname
      · exact fun hmem => htaken g hg (.tail _ hmem)

/-- While no name is taken, the entries only have to differ from each other. -/
theorem unused_nil_left_iff {entries : List FunctionEntry} :
    Unused [] entries ↔ (entries.map FunctionEntry.name).Nodup :=
  ⟨And.left, fun h => ⟨h, nofun⟩⟩

namespace Manifest

/-- What is asked of a manifest: its inputs are among its globals, its functions have different
names, and every function has a body. -/
structure Consistent (m : Manifest) : Prop where
  inputs : ∀ slot ∈ m.inputs, slot < m.globals
  names : (m.functions.map FunctionEntry.name).Nodup
  bodies : ∀ f ∈ m.functions, f.HasBody

/-- The program that a manifest describes, with its functions in their order. -/
structure Describes (m : Manifest) (p : Program) : Prop where
  layout : p.layout = ⟨m.globals.toNat, m.inputs⟩
  functions : m.functions.Forall₂ (fun entry f => entry.Describes p.layout f) p.functions

/-- The error of the first thing that is wrong with a manifest: an input, or else a function. What
stands in front of it is in order. -/
inductive FirstViolation (m : Manifest) : ProgramError → Prop
  | input {before slot after} : m.inputs = before ++ slot :: after →
      (∀ s ∈ before, s < m.globals) → ¬ slot < m.globals →
      m.FirstViolation (.inputOutside slot m.globals)
  | function {before f after e} : m.functions = before ++ f :: after →
      Consistent { m with functions := before } → f.Rejected (before.map FunctionEntry.name) e →
      m.FirstViolation e

end Manifest

/-! ## Loading -/

namespace Program

section
variable {m : Manifest} {p : Program} {layout : GlobalLayout} {seen : List String}
  {f : FunctionEntry} {entries rest : List FunctionEntry} {functions : List Function}
  {e : ProgramError}

/-- A function is loaded with those behind it if its name is not taken and it describes a body; its
own name is taken from there on. -/
theorem functionsOf_cons_eq_ok_iff :
    functionsOf layout seen (f :: rest) = .ok functions ↔
      f.name ∉ seen ∧ ∃ code loaded, f.DescribesBody code ∧
        functionsOf layout (f.name :: seen) rest = .ok loaded ∧
        functions = ⟨f.name, f.params, f.locals.toNat, code, layout⟩ :: loaded := by
  rw [functionsOf]
  by_cases hname : f.name ∈ seen
  · rw [if_pos hname]
    refine iff_of_false ?_ fun h => h.1 hname
    intro h
    cases h
  · rw [if_neg hname, and_iff_right hname]
    constructor
    · intro h
      cases hbody : f.body with
      | error e =>
        rw [hbody] at h
        cases h
      | ok code =>
        cases hrest : functionsOf layout (f.name :: seen) rest with
        | error e =>
          rw [hbody, hrest] at h
          cases h
        | ok loaded =>
          rw [hbody, hrest] at h
          cases h
          exact ⟨code, loaded, FunctionEntry.body_eq_ok_iff.1 hbody, rfl, rfl⟩
    · rintro ⟨code, loaded, hbody, hrest, rfl⟩
      rw [FunctionEntry.body_eq_ok_iff.2 hbody, hrest]
      rfl

/-- Loading a function with those behind it fails at the function or behind it. -/
theorem functionsOf_cons_eq_error_iff :
    functionsOf layout seen (f :: rest) = .error e ↔
      f.Rejected seen e ∨ f.name ∉ seen ∧ f.HasBody ∧
        functionsOf layout (f.name :: seen) rest = .error e := by
  rw [functionsOf]
  by_cases hname : f.name ∈ seen
  · rw [if_pos hname, FunctionEntry.rejected_iff_of_mem hname]
    constructor
    · intro h
      cases h
      exact .inl rfl
    · rintro (rfl | ⟨hname', -⟩)
      · rfl
      · exact absurd hname hname'
  · rw [if_neg hname, FunctionEntry.rejected_iff_of_not_mem hname, and_iff_right hname,
      FunctionEntry.hasBody_iff_body]
    cases hbody : f.body with
    | error e' =>
      constructor
      · intro h
        cases h
        exact .inl rfl
      · rintro (h | ⟨⟨code, hcode⟩, -⟩)
        · cases h
          rfl
        · cases hcode
    | ok code =>
      rw [and_iff_right ⟨code, rfl⟩]
      constructor
      · intro h
        cases hrest : functionsOf layout (f.name :: seen) rest with
        | error e' =>
          rw [hrest] at h
          cases h
          exact .inr rfl
        | ok loaded =>
          rw [hrest] at h
          cases h
      · rintro (h | hrest)
        · cases h
        · rw [hrest]
          rfl

/-- Functions are loaded if no name is taken when its turn comes and each describes a body. -/
theorem functionsOf_eq_ok_iff :
    functionsOf layout seen entries = .ok functions ↔
      Unused seen entries ∧
        entries.Forall₂ (fun entry f => entry.Describes layout f) functions := by
  induction entries generalizing seen functions with
  | nil =>
    constructor
    · intro h
      cases h
      exact ⟨⟨.nil, nofun⟩, .nil⟩
    · rintro ⟨-, h⟩
      cases h
      rfl
  | cons f rest ih =>
    rw [functionsOf_cons_eq_ok_iff, unused_cons_iff, and_assoc]
    refine and_congr_right fun _ => ?_
    constructor
    · rintro ⟨code, loaded, hbody, hrest, rfl⟩
      obtain ⟨hunused, hall⟩ := ih.1 hrest
      exact ⟨hunused, .cons ⟨rfl, rfl, rfl, rfl, hbody⟩ hall⟩
    · rintro ⟨hunused, hall⟩
      cases hall with
      | @cons _ g _ loaded hdescribes hall =>
        obtain ⟨name, parameters, localCount, code, layout'⟩ := g
        obtain ⟨rfl, rfl, rfl, rfl, hbody⟩ := hdescribes
        exact ⟨code, loaded, hbody, ih.2 ⟨hunused, hall⟩, rfl⟩

/-- Entries that have bodies describe functions. -/
theorem exists_describes_iff (layout : GlobalLayout) :
    (∃ functions, entries.Forall₂ (fun entry f => entry.Describes layout f) functions) ↔
      ∀ f ∈ entries, f.HasBody := by
  induction entries with
  | nil => exact ⟨fun _ => nofun, fun _ => ⟨[], .nil⟩⟩
  | cons f rest ih =>
    rw [List.forall_mem_cons, ← ih, FunctionEntry.hasBody_iff]
    constructor
    · rintro ⟨functions, h⟩
      cases h with
      | cons hf hrest => exact ⟨⟨_, hf.body⟩, _, hrest⟩
    · rintro ⟨⟨code, hcode⟩, functions, hrest⟩
      exact ⟨⟨f.name, f.params, f.locals.toNat, code, layout⟩ :: functions,
        .cons ⟨rfl, rfl, rfl, rfl, hcode⟩ hrest⟩

/-- Loading functions fails at the first one that is rejected. -/
theorem functionsOf_eq_error_iff :
    functionsOf layout seen entries = .error e ↔
      ∃ before f after, entries = before ++ f :: after ∧ Unused seen before ∧
        (∀ g ∈ before, g.HasBody) ∧ f.Rejected (before.map FunctionEntry.name ++ seen) e := by
  induction entries generalizing seen with
  | nil =>
    refine iff_of_false nofun ?_
    rintro ⟨before, f, after, h, -⟩
    simp at h
  | cons f rest ih =>
    -- Names that are taken by `f` are put in front of `seen` there, and behind it here.
    have hnames : ∀ (before : List FunctionEntry) (name : String),
        name ∈ before.map FunctionEntry.name ++ f.name :: seen ↔
          name ∈ (f :: before).map FunctionEntry.name ++ seen := by
      intro before name
      simp [or_left_comm]
    rw [functionsOf_cons_eq_error_iff, ih]
    constructor
    · rintro (hf | ⟨hname, hbody, before, g, after, rfl, hunused, hbodies, hg⟩)
      · exact ⟨[], f, rest, rfl, ⟨.nil, nofun⟩, nofun, hf⟩
      · exact ⟨f :: before, g, after, rfl, unused_cons_iff.2 ⟨hname, hunused⟩,
          List.forall_mem_cons.2 ⟨hbody, hbodies⟩, hg.congr (hnames before)⟩
    · rintro ⟨before, g, after, heq, hunused, hbodies, hg⟩
      cases before with
      | nil =>
        cases heq
        exact .inl hg
      | cons f' before =>
        cases heq
        obtain ⟨hname, hunused⟩ := unused_cons_iff.1 hunused
        obtain ⟨hbody, hbodies⟩ := List.forall_mem_cons.1 hbodies
        exact .inr ⟨hname, hbody, before, g, after, rfl, hunused, hbodies,
          hg.congr fun name => (hnames before name).symm⟩

/-- The first input outside the globals is found behind inputs that are inside. -/
theorem find?_outside_eq_some_iff {globals slot : UInt64} {inputs : List UInt64} :
    (inputs.find? fun slot => globals ≤ slot) = some slot ↔
      ∃ before after, inputs = before ++ slot :: after ∧ (∀ s ∈ before, s < globals) ∧
        ¬ slot < globals := by
  simp only [List.find?_eq_some_iff_append, decide_eq_true_eq, Bool.not_eq_true', UInt64.not_lt,
    decide_eq_false_iff_not, UInt64.not_le]
  constructor
  · rintro ⟨hslot, before, after, hinputs, hbefore⟩
    exact ⟨before, after, hinputs, hbefore, hslot⟩
  · rintro ⟨before, after, hinputs, hbefore, hslot⟩
    exact ⟨hslot, before, after, hinputs, hbefore⟩

/-- The inputs of a manifest are checked before its functions are loaded. -/
theorem ofManifest_eq_error_iff :
    ofManifest m = .error e ↔
      (∃ before slot after, m.inputs = before ++ slot :: after ∧ (∀ s ∈ before, s < m.globals) ∧
        ¬ slot < m.globals ∧ e = .inputOutside slot m.globals) ∨
      (∀ slot ∈ m.inputs, slot < m.globals) ∧
        functionsOf ⟨m.globals.toNat, m.inputs⟩ [] m.functions = .error e := by
  unfold ofManifest
  cases hfind : m.inputs.find? fun slot => m.globals ≤ slot with
  | some slot =>
    obtain ⟨before, after, hinputs, hbefore, hout⟩ := find?_outside_eq_some_iff.1 hfind
    constructor
    · intro h
      cases h
      exact .inl ⟨before, slot, after, hinputs, hbefore, hout, rfl⟩
    · rintro (⟨before', slot', after', hinputs', hbefore', hout', rfl⟩ | ⟨hall, -⟩)
      · rw [find?_outside_eq_some_iff.2 ⟨before', after', hinputs', hbefore', hout'⟩] at hfind
        cases hfind
        rfl
      · exact absurd (hall slot (List.mem_of_find?_eq_some hfind)) hout
  | none =>
    have hall : ∀ slot ∈ m.inputs, slot < m.globals := by
      simpa [UInt64.not_le] using hfind
    dsimp only
    constructor
    · intro h
      refine .inr ⟨hall, ?_⟩
      cases hfunctions : functionsOf ⟨m.globals.toNat, m.inputs⟩ [] m.functions with
      | error e' =>
        rw [hfunctions] at h
        cases h
        rfl
      | ok functions =>
        rw [hfunctions] at h
        cases h
    · rintro (⟨before, slot, after, hinputs, -, hout, -⟩ | ⟨-, hfunctions⟩)
      · exact absurd (hall slot (by rw [hinputs]; simp)) hout
      · rw [hfunctions]
        rfl

/-- A program is made of a manifest exactly if the manifest is consistent and describes it. -/
theorem ofManifest_eq_ok_iff_describes :
    ofManifest m = .ok p ↔ m.Consistent ∧ m.Describes p := by
  rw [ofManifest_eq_ok_iff, functionsOf_eq_ok_iff, unused_nil_left_iff]
  constructor
  · rintro ⟨hinputs, hlayout, hnames, hfunctions⟩
    have hbodies := (exists_describes_iff p.layout).1 ⟨p.functions, hfunctions⟩
    exact ⟨⟨hinputs, hnames, hbodies⟩, hlayout, hfunctions⟩
  · rintro ⟨⟨hinputs, hnames, -⟩, hlayout, hfunctions⟩
    exact ⟨hinputs, hlayout, hnames, hfunctions⟩

/-- A consistent manifest describes a program. -/
theorem exists_describes (h : m.Consistent) : ∃ p, m.Describes p := by
  obtain ⟨functions, hfunctions⟩ :=
    (exists_describes_iff ⟨m.globals.toNat, m.inputs⟩).2 h.bodies
  exact ⟨⟨_, functions⟩, rfl, hfunctions⟩

/-- **Exactly the consistent manifests are loaded.** The program of a consistent manifest is the one
that it describes, and any other manifest is refused with the error of its first violation. -/
theorem ofManifest_iff_consistent (m : Manifest) :
    ((∃ p, ofManifest m = .ok p) ↔ m.Consistent) ∧
      (∀ p, ofManifest m = .ok p ↔ m.Consistent ∧ m.Describes p) ∧
      ∀ e, ofManifest m = .error e ↔ m.FirstViolation e := by
  refine ⟨?_, fun p => ofManifest_eq_ok_iff_describes, fun e => ?_⟩
  · constructor
    · rintro ⟨p, h⟩
      exact (ofManifest_eq_ok_iff_describes.1 h).1
    · intro h
      obtain ⟨p, hp⟩ := exists_describes h
      exact ⟨p, ofManifest_eq_ok_iff_describes.2 ⟨h, hp⟩⟩
  · rw [ofManifest_eq_error_iff, functionsOf_eq_error_iff]
    constructor
    · rintro (⟨before, slot, after, hinputs, hbefore, hout, rfl⟩ |
        ⟨hinputs, before, f, after, hfunctions, hunused, hbodies, hf⟩)
      · exact .input hinputs hbefore hout
      · rw [List.append_nil] at hf
        exact .function hfunctions ⟨hinputs, unused_nil_left_iff.1 hunused, hbodies⟩ hf
    · intro h
      cases h with
      | @input before slot after hinputs hbefore hout =>
        exact .inl ⟨before, slot, after, hinputs, hbefore, hout, rfl⟩
      | @function before f after _ hfunctions hconsistent hf =>
        refine .inr ⟨hconsistent.inputs, before, f, after, hfunctions,
          unused_nil_left_iff.2 hconsistent.names, hconsistent.bodies, ?_⟩
        rwa [List.append_nil]

-- The second function has a name that is taken and two bodies, and its name is what is reported.
example : ofManifest ⟨1, [0], [⟨"main", 0, [], none, some [46, 0]⟩,
    ⟨"main", 0, [], some "return 0", some [46, 0]⟩]⟩ = .error (.duplicateFunction "main") := by
  decide

end

end Program

end ShaderMachine
