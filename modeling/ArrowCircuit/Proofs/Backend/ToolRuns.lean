import ArrowCircuit.Backend.Honk
import ArrowCircuit.Backend.Sunspot
import ArrowCircuit.Proofs.Backend.ProofFile

/-!
# Backends with tools at work

For both backends with tools: where the files of a proof lie, that compiling, proving and verifying leave
the content of such a file to the tools, and how a request for a proof ends.
-/

/-! ## The UltraHonk backend -/

namespace ArrowCircuit.Honk

open Run Tool
open Tool.Workspace (Traces TracesBeside Spared Concludes)
open Groth16 (ProofData)

variable {ξ : Type}

/-- The files that a proof of a circuit is read from. -/
def proofFiles (c : Compiled) : Option (Path × Path) :=
  c.project.map fun project => (project.1.target.join "proof", project.1.target.join "public_inputs")

/-- The run for a proof of a circuit, in the workspace alone. -/
def proofRun (T : Toolbox ξ) (settings : Tool.Settings) (c : Compiled) (inputs : InputMap Value) :
    Run (Workspace ξ) ProofData := do
  let _ ← Run.lift .inputs (c.circuit.orderedValues inputs)
  let project ← Run.lift id (c.project.elim (.error .noPart) .ok)
  let witness ← project.1.execute T (Tool.Settings.binary settings.compiler) inputs
  let _ ← Workspace.call T (call settings
    ["prove", "-b", project.2.artifact.text, "-w", witness.text, "-o", project.1.target.text])
  Workspace.readProof "bb" (project.1.target.join "proof") (project.1.target.join "public_inputs")
    fun content => .ok (Wire.inputTexts content)

theorem exec_prove (T : Toolbox ξ) (settings : Tool.Settings) (c : Compiled) (inputs : InputMap Value)
    (w : Workspace ξ) :
    (prove T settings inputs).exec (c, w) =
      (((proofRun T settings c inputs).exec w).1, (c, ((proofRun T settings c inputs).exec w).2)) := by
  rw [prove, proofRun, exec_bind_ok (exec_get _)]
  dsimp only
  have hlift := exec_lift Fault.inputs (c.circuit.orderedValues inputs) w
  have hlift' := exec_lift Fault.inputs (c.circuit.orderedValues inputs) (c, w)
  cases hvalues : c.circuit.orderedValues inputs with
  | error f =>
      rw [hvalues] at hlift hlift'
      rw [exec_bind_error hlift, exec_bind_error hlift']
  | ok values =>
      rw [hvalues] at hlift hlift'
      rw [exec_bind_ok hlift, exec_bind_ok hlift']
      obtain ⟨circuit, backend, noir, project, key⟩ := c
      cases project with
      | none => rfl
      | some project => rfl

theorem concludes_proofRun (choose : Choice ξ) (directoryName : String → Nat → Path)
    (settings : Tool.Settings) (c : Compiled) (inputs : InputMap Value)
    (w : Workspace (List Deed × ξ)) :
    Concludes "bb" (proofFiles c) w
      ((proofRun (choose.recording.toolbox directoryName) settings c inputs).exec w) := by
  refine Workspace.concludes_lift _ fun _ _ => Workspace.concludes_lift _ fun project hproject => ?_
  have hfiles : proofFiles c =
      some (project.1.target.join "proof", project.1.target.join "public_inputs") := by
    obtain ⟨circuit, backend, noir, found, key⟩ := c
    cases found with
    | none => cases hproject
    | some found =>
        cases hproject
        rfl
  rw [hfiles]
  refine .bind (Workspace.traces_execute (fun _ => id) choose directoryName Workspace.spared_nil _ _ _)
    fun witness w => ?_
  exact Workspace.concludes_command choose directoryName rfl

/-! Whatever is done with a circuit, the file of its proof changes by tools only. -/

section

variable {names : List String} {w : Workspace (List Deed × ξ)}

/-- The file under a list of names may be that of a proof. -/
def MayHoldProof (names : List String) : Prop := ∃ root, names = root ++ ["target", "proof"]

theorem MayHoldProof.spared {names : List String} (h : MayHoldProof names) : Spared names := by
  obtain ⟨root, rfl⟩ := h
  constructor <;> simp

theorem MayHoldProof.verify_ne {names : List String} (h : MayHoldProof names) {name : String}
    (hname : Path.Plain name) (root : Path) : ((root.join "verify").join name).resolve ≠ names := by
  obtain ⟨other, rfl⟩ := h
  exact Workspace.verify_ne_target hname root other "proof"

theorem mayHoldProof_of_proofFiles {c : Compiled} {p q : Path} (h : proofFiles c = some (p, q)) :
    MayHoldProof p.resolve := by
  obtain ⟨project, -, hp⟩ := Option.map_eq_some_iff.mp h
  cases hp
  refine ⟨project.1.root.resolve, ?_⟩
  rw [Path.resolve_join (by decide), Noir.Project.target, Path.resolve_join (by decide),
    List.append_assoc]
  rfl

variable (choose : Choice ξ) (directoryName : String → Nat → Path) (settings : Tool.Settings)
  (hnames : MayHoldProof names)

include hnames

theorem traces_compile (source : Source) :
    Traces (fun _ => True) names w (compile (choose.recording.toolbox directoryName) settings source)
      (compile (choose.toolbox directoryName) settings source) := by
  refine (Tracks.lift _ _).bind_any fun circuit _ => ?_
  refine (Tracks.lift _ _).bind_any fun noir _ => ?_
  refine (Workspace.traces_create choose directoryName hnames.spared _ _).bind_any fun project _ => ?_
  refine (Workspace.traces_compile (fun _ _ => trivial) choose directoryName _ _).bind_any fun _ _ => ?_
  exact .pure _

theorem traces_proofRun (c : Compiled) (inputs : InputMap Value) :
    Traces (fun _ => True) names w
      (proofRun (choose.recording.toolbox directoryName) settings c inputs)
      (proofRun (choose.toolbox directoryName) settings c inputs) := by
  refine (Tracks.lift _ _).bind_any fun _ _ => (Tracks.lift _ _).bind_any fun project _ => ?_
  refine (Workspace.traces_execute (fun _ _ => trivial) choose directoryName hnames.spared _ _
    _).bind_any fun witness _ => ?_
  exact (Workspace.traces_call choose directoryName trivial).bind_any fun _ _ =>
    Workspace.traces_readProof

end

section

variable {names : List String} {s : Compiled × Workspace (List Deed × ξ)}

theorem traces_onWorkspace {α : Type} {r : Run (Workspace (List Deed × ξ)) α}
    {q : Run (Workspace ξ) α} (h : Traces (fun _ => True) names s.2 r q) :
    TracesBeside names s (onWorkspace r) (onWorkspace q) := by
  refine ⟨?_, h.related⟩
  change ((q.exec s.2.forget).1, (s.1, (q.exec s.2.forget).2)) = _
  rw [h.exec_view]
  rfl

theorem traces_project : TracesBeside names s project project := by
  refine .bind_get ?_
  obtain ⟨⟨circuit, backend, noir, project, key⟩, w⟩ := s
  cases project with
  | none => exact .fault _
  | some project => exact .pure _

variable (choose : Choice ξ) (directoryName : String → Nat → Path) (settings : Tool.Settings)

theorem traces_ensureKey :
    TracesBeside names s (ensureKey (choose.recording.toolbox directoryName) settings)
      (ensureKey (choose.toolbox directoryName) settings) := by
  refine .bind_get ?_
  obtain ⟨⟨circuit, backend, noir, found, key⟩, w⟩ := s
  cases key with
  | some key => exact .pure _
  | none =>
      refine traces_project.bind_any fun project _ => ?_
      refine (traces_onWorkspace ?_).bind_any fun _ s => ?_
      · exact (Workspace.traces_call choose directoryName trivial).bind_any fun _ _ =>
          Workspace.traces_require _ _
      · refine .bind_any ⟨rfl, ?_⟩ fun _ _ => .pure _
        exact refl_of (Workspace.Traced _ names) s.2

theorem traces_prove (hnames : MayHoldProof names) (inputs : InputMap Value) :
    TracesBeside names s (prove (choose.recording.toolbox directoryName) settings inputs)
      (prove (choose.toolbox directoryName) settings inputs) := by
  obtain ⟨c, w⟩ := s
  have hrun : Traces (fun _ => True) names w _ _ :=
    traces_proofRun choose directoryName settings hnames c inputs
  refine .of_exec (exec_prove _ settings c inputs w) ?_ hrun.related
  change (prove _ settings inputs).exec (c, w.forget) = _
  rw [exec_prove, hrun.exec_view]
  rfl

theorem traces_verify (hnames : MayHoldProof names) (proof : Bytes) (inputs : List Value) :
    TracesBeside names s
      (verify (choose.recording.toolbox directoryName) settings proof inputs)
      (verify (choose.toolbox directoryName) settings proof inputs) := by
  refine (traces_ensureKey choose directoryName settings).bind_any fun key _ => ?_
  refine traces_project.bind_any fun project _ => traces_onWorkspace ?_
  refine (Workspace.traces_makeDirectory _).bind_any fun _ _ => ?_
  refine (Workspace.traces_write (hnames.verify_ne (by decide) _) _).bind_any fun _ _ => ?_
  refine (Tracks.lift _ _).bind_any fun bytes _ => ?_
  refine (Workspace.traces_write (hnames.verify_ne (by decide) _) _).bind_any fun _ _ => ?_
  exact Workspace.traces_accepts choose directoryName trivial

end

end ArrowCircuit.Honk

/-! ## The Sunspot backend -/

namespace ArrowCircuit.Sunspot

open Run Tool
open Tool.Workspace (Traces Spared Concludes)

variable {ξ : Type} {finished : Option Paths}

/-- Where the files of a circuit can lie: where the finished ones do, or else in a project. -/
def Placed (finished : Option Paths) (paths : Paths) : Prop :=
  finished = some paths ∨
    finished = none ∧ ∃ root, paths = Paths.beside (Noir.Project.mk root).artifact root none none

/-- The files of a circuit lie where those of its backend can. -/
def Compiled.Native (finished : Option Paths) (c : Compiled) : Prop :=
  ∀ paths, c.paths = some paths → Placed finished paths

/-- The files that a proof is read from. -/
def proofFiles (finished : Option Paths) (c : Option Compiled) : Option (Path × Path) :=
  (pathsOf finished c).toOption.map fun paths => (paths.proof, paths.publicWitness)

/-- The file under a list of names may be that of a proof. -/
def MayHoldProof (finished : Option Paths) (names : List String) : Prop :=
  ∃ paths, Placed finished paths ∧ names = paths.proof.resolve

theorem placed_of_pathsOf {c : Option Compiled} {paths : Paths} (hc : ∀ c' ∈ c, c'.Native finished)
    (h : pathsOf finished c = .ok paths) : Placed finished paths := by
  unfold pathsOf at h
  split at h
  · rename_i found hfound
    cases h
    obtain ⟨c', hc', hpaths⟩ := Option.bind_eq_some_iff.mp hfound
    exact hc c' hc' paths hpaths
  · cases h
    exact .inl rfl
  · cases h

theorem proofFiles_of_pathsOf {c : Option Compiled} {paths : Paths}
    (h : pathsOf finished c = .ok paths) :
    proofFiles finished c = some (paths.proof, paths.publicWitness) := by
  rw [proofFiles, h]
  rfl

theorem mayHoldProof_of_proofFiles {c : Option Compiled} {p q : Path}
    (hc : ∀ c' ∈ c, c'.Native finished) (h : proofFiles finished c = some (p, q)) :
    MayHoldProof finished p.resolve := by
  obtain ⟨paths, hpaths, hp⟩ := Option.map_eq_some_iff.mp h
  cases hp
  exact ⟨paths, placed_of_pathsOf hc (toOption_eq_some hpaths), rfl⟩

/-- The finished files lie where an artifact and two keys have been given. -/
def FromArtifact (finished : Option Paths) : Prop :=
  ∀ paths ∈ finished, ∃ artifact provingKey verifyingKey,
    paths = Paths.ofFinished artifact provingKey verifyingKey

/-- In a project the proof lies in the directory of what tools write. -/
theorem proof_beside (root : Path) :
    (Paths.beside (Noir.Project.mk root).artifact root none none).proof.resolve =
      root.resolve ++ ["target", "circuit.proof"] := by
  simp only [Paths.beside, Noir.Project.artifact, Noir.Project.target]
  rw [Path.parent_join (by decide), Path.resolve_join (by decide), Path.resolve_join (by decide),
    List.append_assoc]
  rfl

theorem MayHoldProof.spared {names : List String} (hfinished : FromArtifact finished)
    (h : MayHoldProof finished names) : Spared names := by
  have hlast : names.getLast? = some "circuit.proof" := by
    obtain ⟨paths, rfl | ⟨-, root, rfl⟩, rfl⟩ := h
    · obtain ⟨artifact, provingKey, verifyingKey, rfl⟩ := hfinished paths rfl
      rw [Paths.ofFinished, Paths.beside, Path.resolve_join (by decide), List.getLast?_concat]
    · rw [proof_beside, List.getLast?_append]
      rfl
  constructor <;> rw [hlast] <;> decide

/-- The copy of a proof that is verified is not the proof, also if the finished files lie beside each
other in a directory without a project. -/
theorem MayHoldProof.verify_ne {names : List String} (hfinished : FromArtifact finished)
    (h : MayHoldProof finished names) {paths : Paths} (hpaths : Placed finished paths) {name : String}
    (hname : Path.Plain name) :
    ((paths.workDirectory.join "verify").join name).resolve ≠ names := by
  obtain ⟨other, hother | ⟨hnone, root, rfl⟩, rfl⟩ := h
  · obtain rfl : other = paths := by
      rcases hpaths with hsome | ⟨hnone, -⟩
      · exact Option.some.inj (hother.symm.trans hsome)
      · rw [hnone] at hother
        cases hother
    obtain ⟨artifact, provingKey, verifyingKey, rfl⟩ := hfinished other hother
    rw [Paths.ofFinished, Paths.beside]
    dsimp only
    split
    · rename_i htarget
      rw [Path.resolve_join (by decide) artifact.parent,
        Path.resolve_of_name htarget (by decide) (by decide), List.append_assoc]
      exact Workspace.verify_ne_target hname _ _ _
    · rw [Path.resolve_join hname, Path.resolve_join (by decide), Path.resolve_join (by decide)]
      intro heq
      simpa using congrArg List.length heq
  · rw [proof_beside]
    exact Workspace.verify_ne_target hname _ _ _

/-- The run for a proof behind the check of the inputs. -/
def proofRun (T : Toolbox ξ) (settings : Tool.Settings) (finished : Option Paths)
    (c : Option Compiled) (inputs : InputMap Value) : Run (Workspace ξ) Groth16.ProofData := do
  let paths ← Run.lift id (pathsOf finished c)
  let witness ← (Noir.Project.mk paths.workDirectory).execute T
    (Tool.Settings.binary settings.compiler) inputs
  let _ ← Workspace.call T
    { binary := Tool.Settings.binary settings.prover
      arguments :=
        ["prove", paths.artifact.text, witness.text, paths.system.text, paths.provingKey.text] }
  Workspace.readProof "sunspot" paths.proof paths.publicWitness Wire.decodeWitness

theorem prove_none (T : Toolbox ξ) (settings : Tool.Settings) (inputs : InputMap Value) :
    prove T settings finished none inputs = proofRun T settings finished none inputs := by
  simp only [prove, proofRun, call, bind_assoc, pure_bind]
  rfl

theorem prove_some (T : Toolbox ξ) (settings : Tool.Settings) (c : Compiled)
    (inputs : InputMap Value) :
    prove T settings finished (some c) inputs = (do
      let _ ← Run.lift .inputs (c.circuit.orderedValues inputs)
      proofRun T settings finished (some c) inputs) := by
  simp only [prove, proofRun, call, bind_assoc, pure_bind]
  rfl

section

variable {names : List String} {w : Workspace (List Deed × ξ)} (choose : Choice ξ)
  (directoryName : String → Nat → Path) (settings : Tool.Settings)

theorem concludes_prove (c : Option Compiled) (inputs : InputMap Value) :
    Concludes "sunspot" (proofFiles finished c) w
      ((prove (choose.recording.toolbox directoryName) settings finished c inputs).exec w) := by
  have hrest : Concludes "sunspot" (proofFiles finished c) w
      ((proofRun (choose.recording.toolbox directoryName) settings finished c inputs).exec w) := by
    refine Workspace.concludes_lift _ fun paths hpaths => ?_
    rw [proofFiles_of_pathsOf hpaths]
    refine .bind (Workspace.traces_execute (fun _ => id) choose directoryName Workspace.spared_nil _ _ _)
      fun witness w => ?_
    exact Workspace.concludes_command choose directoryName rfl
  cases c with
  | none =>
      rw [prove_none]
      exact hrest
  | some c =>
      rw [prove_some]
      exact Workspace.concludes_lift _ fun _ _ => hrest

variable (hfinished : FromArtifact finished) (hnames : MayHoldProof finished names)

include hfinished hnames

theorem traces_compile (source : Source) :
    Traces (fun _ => True) names w
      (compile (choose.recording.toolbox directoryName) settings finished source)
      (compile (choose.toolbox directoryName) settings finished source) := by
  have hspared := hnames.spared hfinished
  have hcall : ∀ (arguments : List String) (w : Workspace (List Deed × ξ)),
      Traces (fun _ => True) names w (call (choose.recording.toolbox directoryName) settings arguments)
        (call (choose.toolbox directoryName) settings arguments) :=
    fun _ _ => (Workspace.traces_call choose directoryName trivial).bind_any fun _ _ => .pure _
  have hrest : ∀ w : Workspace (List Deed × ξ), Traces (fun _ => True) names w
      (compile (choose.recording.toolbox directoryName) settings none source)
      (compile (choose.toolbox directoryName) settings none source) := by
    intro w
    refine (Tracks.lift _ _).bind_any fun circuit _ => (Tracks.lift _ _).bind_any fun noir _ => ?_
    refine (Workspace.traces_create choose directoryName hspared _ _).bind_any fun project _ => ?_
    refine (Workspace.traces_compile (fun _ _ => trivial) choose directoryName _ _).bind_any
      fun program _ => ?_
    refine (hcall _ _).bind_any fun _ _ => (hcall _ _).bind_any fun _ _ => ?_
    refine (Tracks.forIn fun p _ _ => ?_).bind_any fun _ _ => .pure _
    exact (Workspace.traces_require _ _).bind_any fun _ _ => .pure _
  cases finished with
  | some paths => exact .fault _
  | none => exact hrest w

theorem traces_prove (c : Option Compiled) (inputs : InputMap Value) :
    Traces (fun _ => True) names w
      (prove (choose.recording.toolbox directoryName) settings finished c inputs)
      (prove (choose.toolbox directoryName) settings finished c inputs) := by
  have hrest : ∀ w : Workspace (List Deed × ξ), Traces (fun _ => True) names w
      (proofRun (choose.recording.toolbox directoryName) settings finished c inputs)
      (proofRun (choose.toolbox directoryName) settings finished c inputs) := by
    intro w
    refine (Tracks.lift _ _).bind_any fun paths _ => ?_
    refine (Workspace.traces_execute (fun _ _ => trivial) choose directoryName
      (hnames.spared hfinished) _ _ _).bind_any fun witness _ => ?_
    exact (Workspace.traces_call choose directoryName trivial).bind_any fun _ _ =>
      Workspace.traces_readProof
  cases c with
  | none =>
      rw [prove_none, prove_none]
      exact hrest w
  | some c =>
      rw [prove_some, prove_some]
      exact (Tracks.lift _ _).bind_any fun _ w => hrest w

theorem traces_verify {c : Option Compiled} (hc : ∀ c' ∈ c, c'.Native finished) (proof : Bytes)
    (inputs : List Value) :
    Traces (fun _ => True) names w
      (verify (choose.recording.toolbox directoryName) settings finished c proof inputs)
      (verify (choose.toolbox directoryName) settings finished c proof inputs) := by
  refine (Tracks.lift _ _).bind fun paths _ hexec => ?_
  have hpaths : Placed finished paths :=
    placed_of_pathsOf hc (mapError_eq_ok (Prod.mk.inj hexec).1)
  refine (Workspace.traces_makeDirectory _).bind_any fun _ _ => ?_
  refine (Workspace.traces_write (hnames.verify_ne hfinished hpaths (by decide)) _).bind_any
    fun _ _ => ?_
  refine (Tracks.lift _ _).bind_any fun bytes _ => ?_
  refine (Workspace.traces_write (hnames.verify_ne hfinished hpaths (by decide)) _).bind_any
    fun _ _ => ?_
  exact Workspace.traces_accepts choose directoryName trivial

end

/-! The circuits of the backend have their files where it looks for them. -/

/-- A loaded program remembers where it lies. -/
theorem artifact_of_load {p : Path} {program : Noir.Program} {w w' : Workspace ξ}
    (h : (Noir.Project.load p).exec w = (.ok program, w')) : program.artifact = p := by
  obtain ⟨_, w₁, -, h⟩ := value_of_bind h
  obtain ⟨content, w₂, -, h⟩ := value_of_bind h
  cases htext : Bytes.toString? content with
  | none =>
      rw [htext] at h
      cases h
  | some text =>
      rw [htext] at h
      obtain ⟨artifact, w₃, -, h⟩ := value_of_bind h
      cases artifact with
      | object fields =>
          cases h
          rfl
      | _ => cases h

theorem native_of_compile {T : Toolbox ξ} {settings : Tool.Settings} {source : Source}
    {c : Compiled} {w w' : Workspace ξ}
    (h : (compile T settings finished source).exec w = (.ok c, w')) : c.Native finished := by
  cases finished with
  | some paths => cases h
  | none =>
      obtain ⟨circuit, w₁, -, h⟩ := value_of_bind h
      obtain ⟨noir, w₂, -, h⟩ := value_of_bind h
      obtain ⟨project, w₃, -, h⟩ := value_of_bind h
      obtain ⟨program, w₄, hprogram, h⟩ := value_of_bind h
      obtain ⟨_, w₅, -, h⟩ := value_of_bind h
      obtain ⟨_, w₆, -, h⟩ := value_of_bind h
      obtain ⟨_, w₇, -, h⟩ := value_of_bind h
      cases h
      rintro paths ⟨⟩
      obtain ⟨_, w₈, -, hload⟩ := value_of_bind hprogram
      rw [artifact_of_load hload]
      exact .inr ⟨rfl, project.root, rfl⟩

theorem native_of_finished {circuit : Circuit} {c : Compiled}
    (h : ofFinished finished circuit = .ok c) : c.Native finished := by
  cases finished with
  | none => cases h
  | some paths =>
      cases h
      rintro _ ⟨⟩
      exact .inl rfl

end ArrowCircuit.Sunspot
