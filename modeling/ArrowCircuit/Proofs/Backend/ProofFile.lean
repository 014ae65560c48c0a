import ArrowCircuit.Groth16.Prove
import ArrowCircuit.Noir.Project
import ArrowCircuit.Proofs.Outcome
import ArrowCircuit.Proofs.Tool.History

/-!
# The file of a proof

A backend with tools reads a proof from the file that the command for proofs has to write.  It may not
write that file itself, so that its content changes by tools alone: a project is made of other files
(`Spared`).  A request for a proof ends in a fault before the command is called, or gives what lies in the
file behind the command (`Concludes`), whether or not it is the command that has put it there.
-/

namespace ArrowCircuit.Tool

open Run
open Groth16 (ProofData)

variable {ξ : Type}

/-- The call of a tool is the command for a proof. -/
def Call.IsProve (c : Call) : Prop := c.arguments.head? = some "prove"

namespace Workspace

variable {kind : Call → Prop} (hkind : ∀ c : Call, ¬c.IsProve → kind c) {names : List String}
  {w : Workspace (List Deed × ξ)}

include hkind in
/-- A command that is none for a proof. -/
theorem traces_command {c : Call} {word : String} (choose : Choice ξ)
    (directoryName : String → Nat → Path) (h : c.arguments.head? = some word) (hword : word ≠ "prove") :
    Traces kind names w (call (choose.recording.toolbox directoryName) c)
      (call (choose.toolbox directoryName) c) :=
  traces_call choose directoryName
    (hkind c fun hprove => hword (Option.some.inj (h.symm.trans hprove)))

/-! ## Files of a project -/

/-- The file under a list of names is none of those that a project is made of. -/
structure Spared (names : List String) : Prop where
  manifest : names.getLast? ≠ some "Nargo.toml"
  program : names.getLast? ≠ some "main.nr"
  inputs : names.getLast? ≠ some "Prover.toml"

variable (choose : Choice ξ) (directoryName : String → Nat → Path) (hnames : Spared names)

include hnames in
theorem traces_create (hint source : String) :
    Traces kind names w (Noir.Project.create (choose.recording.toolbox directoryName) hint source)
      (Noir.Project.create (choose.toolbox directoryName) hint source) := by
  refine (traces_temporary choose directoryName hint).bind_any fun root _ => ?_
  refine (traces_makeDirectory _).bind_any fun _ _ => ?_
  refine (traces_write (Path.resolve_join_ne (by decide) hnames.manifest root) _).bind_any fun _ _ => ?_
  refine (traces_write (Path.resolve_join_ne (by decide) hnames.program _) _).bind_any fun _ _ => ?_
  exact .pure _

theorem traces_load (p : Path) :
    Traces kind names w (Noir.Project.load p) (Noir.Project.load p) := by
  refine (traces_require p _).bind_any fun _ _ => ?_
  refine (traces_read p).bind_any fun content _ => ?_
  cases Bytes.toString? content with
  | none => exact .fault _
  | some text =>
      refine (Tracks.lift _ _).bind_any fun artifact _ => ?_
      cases artifact with
      | object fields => exact .pure _
      | _ => exact .fault _

include hkind in
theorem traces_compile (compiler : String) (p : Noir.Project) :
    Traces kind names w (p.compile (choose.recording.toolbox directoryName) compiler)
      (p.compile (choose.toolbox directoryName) compiler) :=
  (traces_command hkind choose directoryName rfl (by decide)).bind_any fun _ _ => traces_load _

include hkind hnames in
theorem traces_execute (compiler : String) (p : Noir.Project) (inputs : InputMap Value) :
    Traces kind names w (p.execute (choose.recording.toolbox directoryName) compiler inputs)
      (p.execute (choose.toolbox directoryName) compiler inputs) := by
  refine (Tracks.lift _ _).bind_any fun text _ => ?_
  refine (traces_write (Path.resolve_join_ne (by decide) hnames.inputs p.root) _).bind_any
    fun _ _ => ?_
  refine (traces_command hkind choose directoryName rfl (by decide)).bind_any fun _ _ => ?_
  refine (traces_require _ _).bind_any fun _ _ => ?_
  exact .pure _

/-- What is written in order to verify a proof lies in a directory of its own. -/
theorem verify_ne_target {name : String} (hname : Path.Plain name) (root : Path)
    (other : List String) (file : String) :
    ((root.join "verify").join name).resolve ≠ other ++ ["target", file] := by
  rw [Path.resolve_join hname, Path.resolve_join (by decide), List.append_assoc]
  intro heq
  have hpair : ["verify", name] = ["target", file] := List.append_inj_right' heq rfl
  exact absurd (List.cons.inj hpair).1 (by decide)

/-! ## Reading a proof behind its command -/

variable {engine : String} {p q : Path} {decode : Bytes → Except Wire.InputFault (List String)}

/-- Reads what the command for a proof has to write: the proof, and the public inputs if they are
there. -/
def readProof (engine : String) (p q : Path) (decode : Bytes → Except Wire.InputFault (List String)) :
    Run (Workspace ξ) ProofData := do
  require p (.proofNotProduced engine p.text)
  let publicInputs ← if ← has q then Run.lift .wireInput (decode (← read q)) else pure []
  return ⟨← read p, publicInputs.map Value.str⟩

/-- The public inputs in a tree of files, none if there is no file of them. -/
def inputsIn (q : Path) (decode : Bytes → Except Wire.InputFault (List String)) (files : FileTree) :
    Except Fault (List String) :=
  if files.has q then do (decode (← (files.read q).mapError .file)).mapError .wireInput else .ok []

/-- The proof in a tree of files. -/
def proofIn (engine : String) (p q : Path) (decode : Bytes → Except Wire.InputFault (List String))
    (files : FileTree) : Except Fault ProofData :=
  if files.has p then do
    let publicInputs ← inputsIn q decode files
    return ⟨← (files.read p).mapError .file, publicInputs.map Value.str⟩
  else .error (.toolchain (.proofNotProduced engine p.text))

theorem exec_require {ξ : Type} (w : Workspace ξ) (p : Path) (fault : Toolchain.Fault) :
    (require p fault).exec w =
      (if w.files.has p then .ok () else .error (.toolchain fault), w) := by
  rw [require, exec_bind_ok (show (has p).exec w = (.ok (w.files.has p), w) from rfl)]
  cases w.files.has p <;> rfl

theorem exec_readProof {ξ : Type} (w : Workspace ξ) :
    (readProof engine p q decode).exec w = (proofIn engine p q decode w.files, w) := by
  -- the end of the reading, which is the same whether there are public inputs or not
  have hend : ∀ texts : List String,
      (do return (⟨← read p, texts.map Value.str⟩ : ProofData) : Run (Workspace ξ) ProofData).exec w =
        ((w.files.read p).mapError Fault.file >>= fun proof =>
          pure ⟨proof, texts.map Value.str⟩, w) :=
    fun texts => exec_bind_steady rfl fun _ => rfl
  have hrequire := exec_require w p (.proofNotProduced engine p.text)
  have hhas : (has q).exec w = (.ok (w.files.has q), w) := rfl
  rw [readProof, proofIn]
  cases hp : w.files.has p with
  | false =>
      rw [hp] at hrequire
      exact exec_bind_error hrequire _
  | true =>
      rw [hp] at hrequire
      rw [exec_bind_ok hrequire, exec_bind_ok hhas, inputsIn]
      cases w.files.has q with
      | false => exact hend []
      | true =>
          simp only [if_true, bind_assoc]
          exact exec_bind_steady rfl fun _ => exec_bind_steady rfl hend

/-- What a run of the command for a proof leads to, by the two files: that of the proof and that of the
public inputs. -/
structure Answers (engine : String) (p q : Path) (d : Deed) (reply : Except Fault ProofData) : Prop where
  failed : ∀ f, d.action.outcome = .error f → reply = .error (.tool f)
  /-- The proof counts as missing exactly if nothing is there, whoever has written it. -/
  missing_iff : ∀ result, d.action.outcome = .ok result →
    (reply = .error (.toolchain (.proofNotProduced engine p.text)) ↔ d.after.lookup p.resolve = none)
  returned : ∀ data, reply = .ok data →
    (∃ result, d.action.outcome = .ok result) ∧ d.after.content? p.resolve = some data.proof
  plain : ∀ result content, d.action.outcome = .ok result →
    d.after.content? p.resolve = some content → d.after.lookup q.resolve = none →
    reply = .ok ⟨content, []⟩

/-- What is wrong with public inputs is the fault of no tool. -/
theorem inputsIn_ne_toolchain (files : FileTree) (f : Toolchain.Fault) :
    inputsIn q decode files ≠ .error (.toolchain f) := by
  rw [inputsIn]
  cases files.has q with
  | false => exact nofun
  | true =>
      cases files.read q with
      | error e => exact nofun
      | ok content =>
          change (decode content).mapError Fault.wireInput ≠ _
          cases decode content with
          | error e => exact nofun
          | ok texts => exact nofun

theorem proofIn_missing_iff {files : FileTree} :
    proofIn engine p q decode files = .error (.toolchain (.proofNotProduced engine p.text)) ↔
      files.lookup p.resolve = none := by
  rw [← Option.not_isSome_iff_eq_none, ← FileTree.has, proofIn]
  cases files.has p with
  | false => exact ⟨fun _ => Bool.false_ne_true, fun _ => rfl⟩
  | true =>
      refine ⟨fun h => ?_, fun h => absurd rfl h⟩
      rw [if_pos rfl] at h
      cases hinputs : inputsIn q decode files with
      | error e =>
          rw [hinputs] at h
          cases h
          exact absurd hinputs (inputsIn_ne_toolchain files _)
      | ok texts =>
          rw [hinputs] at h
          cases hproof : files.read p <;> rw [hproof] at h <;> cases h

/-- The proof that is read is the content of its file. -/
theorem content?_of_proofIn {files : FileTree} {data : ProofData}
    (h : proofIn engine p q decode files = .ok data) : files.content? p.resolve = some data.proof := by
  rw [proofIn] at h
  split at h
  · obtain ⟨texts, -, h⟩ := bind_eq_ok h
    obtain ⟨content, hcontent, h⟩ := bind_eq_ok h
    cases h
    exact FileTree.read_eq_ok_iff.mp (mapError_eq_ok hcontent)
  · cases h

theorem proofIn_plain {files : FileTree} {content : Bytes}
    (hp : files.content? p.resolve = some content) (hq : files.lookup q.resolve = none) :
    proofIn engine p q decode files = .ok ⟨content, []⟩ := by
  have hhas : files.has p = true := by
    rw [FileTree.has, FileTree.content?_eq_some_iff.mp hp]
    rfl
  have hnone : files.has q = false := by
    rw [FileTree.has, hq]
    rfl
  rw [proofIn, inputsIn, hhas, hnone, FileTree.read_eq_ok_iff.mpr hp]
  rfl

theorem answers_proofIn (d : Deed) :
    Answers engine p q d
      (d.action.outcome.mapError .tool >>= fun _ => proofIn engine p q decode d.after) := by
  refine ⟨?_, ?_, ?_, ?_⟩
  · intro f hf
    rw [hf]
    rfl
  · intro result hresult
    rw [hresult]
    exact proofIn_missing_iff
  · intro data hdata
    obtain ⟨result, hresult, hproof⟩ := bind_eq_ok hdata
    exact ⟨⟨result, mapError_eq_ok hresult⟩, content?_of_proofIn hproof⟩
  · intro result content hresult hp hq
    rw [hresult]
    exact proofIn_plain hp hq

theorem traces_readProof :
    Traces kind names w (readProof engine p q decode) (readProof engine p q decode) :=
  .of_steady (exec_readProof w) (exec_readProof w.forget)

/-! ## Requests for a proof -/

/-- How a request for a proof ends, with the files that it reads if there are such: in a fault without
the command, or with the command called last and what this leads to. -/
def Concludes (engine : String) (files : Option (Path × Path)) (w : Workspace (List Deed × ξ))
    (ending : Except Fault ProofData × Workspace (List Deed × ξ)) : Prop :=
  ∃ earlier, (∀ e ∈ earlier, ¬e.call.IsProve) ∧
    (ending.2.deeds = w.deeds ++ earlier ∧ (∃ f, ending.1 = .error f) ∨
      ∃ d p q, ending.2.deeds = w.deeds ++ earlier ++ [d] ∧ d.call.IsProve ∧ files = some (p, q) ∧
        Answers engine p q d ending.1)

variable {files : Option (Path × Path)}

/-- A check before the command, which knows nothing of the workspace. -/
theorem concludes_lift {ε α : Type} (cause : ε → Fault) {r : Except ε α}
    {g : α → Run (Workspace (List Deed × ξ)) ProofData}
    (hg : ∀ a, r = .ok a → Concludes engine files w ((g a).exec w)) :
    Concludes engine files w ((Run.lift cause r >>= g).exec w) := by
  cases r with
  | error e => exact ⟨[], List.forall_mem_nil _, .inl ⟨(List.append_nil _).symm, cause e, rfl⟩⟩
  | ok a => exact hg a rfl

/-- Which file is traced does not matter, only what is called. -/
theorem spared_nil : Spared [] := ⟨by decide, by decide, by decide⟩

/-- What comes before the command calls other tools, and may end the request. -/
theorem Concludes.bind {α : Type} {r : Run (Workspace (List Deed × ξ)) α}
    {r' : Run (Workspace ξ) α} {g : α → Run (Workspace (List Deed × ξ)) ProofData}
    (hr : Traces (fun c => ¬c.IsProve) [] w r r')
    (hg : ∀ a w', Concludes engine files w' ((g a).exec w')) :
    Concludes engine files w ((r >>= g).exec w) := by
  obtain ⟨new, hdeeds, hnew, -⟩ := hr.related
  rcases hexec : r.exec w with ⟨result, w'⟩
  rw [hexec] at hdeeds
  cases result with
  | error f =>
      rw [exec_bind_error hexec]
      exact ⟨new, hnew, .inl ⟨hdeeds, f, rfl⟩⟩
  | ok a =>
      rw [exec_bind_ok hexec]
      obtain ⟨earlier, hearlier, hend⟩ := hg a w'
      refine ⟨new ++ earlier, List.forall_mem_append.mpr ⟨hnew, hearlier⟩, ?_⟩
      rw [← List.append_assoc, ← hdeeds]
      exact hend

/-- The command, and then the reading in the files that it leaves. -/
theorem exec_call_readProof (command : Call) :
    (call (choose.recording.toolbox directoryName) command >>= fun _ => readProof engine p q decode).exec w =
      ((deed choose command w).action.outcome.mapError .tool >>= fun _ =>
          proofIn engine p q decode (deed choose command w).after,
        ((call (choose.recording.toolbox directoryName) command).exec w).2) := by
  have hcall := exec_call choose directoryName command w
  cases houtcome : (deed choose command w).action.outcome with
  | error f =>
      rw [houtcome] at hcall
      rw [exec_bind_error hcall, hcall]
      rfl
  | ok result =>
      rw [houtcome] at hcall
      rw [exec_bind_ok hcall, exec_readProof, hcall]
      rfl

theorem concludes_command {command : Call} (hcommand : command.IsProve) :
    Concludes engine (some (p, q)) w
      ((call (choose.recording.toolbox directoryName) command >>= fun _ =>
        readProof engine p q decode).exec w) := by
  rw [exec_call_readProof]
  exact ⟨[], List.forall_mem_nil _, .inr ⟨deed choose command w, p, q,
    by rw [List.append_nil]; rfl, hcommand, rfl, answers_proofIn _⟩⟩

end Workspace

end ArrowCircuit.Tool
