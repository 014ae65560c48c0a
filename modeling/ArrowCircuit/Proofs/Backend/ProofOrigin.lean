import ArrowCircuit.Backend.Bench
import ArrowCircuit.Proofs.Backend.ToolRuns

/-!
# Where proofs come from

A backend with tools is asked to compile, prove and verify, in any order and with tools that write what
they like.  Whenever it returns a proof, that is the content of the proof's file, written by the latest
run of a tool that has written the file (`proof_is_latest_in_file`).  This need not be the command for that
very proof: a command that ends well and writes nothing leaves an earlier proof to be returned again.
-/

namespace ArrowCircuit.Bench

open Tool Run
open Tool.Workspace (Traced Traces TracesBeside Concludes Answers)

variable {ξ C : Type}

/-! ## Requests -/

/-- What can be asked of a backend.  Its circuits are numbered in the order in which they have come
about; it can also be asked to work without a circuit. -/
inductive Request where
  | compile (source : Source)
  | finished (circuit : Circuit)
  | foreign (circuit : Circuit)
  | prove (k : Option Nat) (inputs : InputMap Value)
  | verify (k : Option Nat) (proof : Bytes) (inputs : List Value)

/-- The circuits that have come about, and the workspace. -/
structure Stock (ξ C : Type) where
  circuits : List C := []
  workspace : Workspace ξ

namespace Stock

/-- The circuit with a number. -/
def select (s : Stock ξ C) (k : Option Nat) : Option C := k.bind fun i => s.circuits[i]?

/-- One more circuit, if there is one. -/
def add (s : Stock ξ C) (c : Option C) : Stock ξ C := { s with circuits := s.circuits ++ c.toList }

/-- The circuit with a number and the workspace behind a run. -/
def put (s : Stock ξ C) (k : Option Nat) (x : Option C × Workspace ξ) : Stock ξ C where
  circuits := k.elim s.circuits fun i => x.1.elim s.circuits (s.circuits.set i)
  workspace := x.2

end Stock

/-- The stock behind a request. -/
def step (bench : Bench ξ C) (s : Stock ξ C) : Request → Stock ξ C
  | .compile source =>
    { s with workspace := ((bench.compile source).exec s.workspace).2 }.add
      ((bench.compile source).exec s.workspace).1.toOption
  | .finished circuit => s.add (bench.finished circuit).toOption
  | .foreign circuit => s.add (some (bench.foreign circuit))
  | .prove k inputs => s.put k ((bench.prove inputs).exec (s.select k, s.workspace)).2
  | .verify k proof inputs => s.put k ((bench.verify proof inputs).exec (s.select k, s.workspace)).2

/-- The stock behind requests. -/
def reached (bench : Bench ξ C) (start : Stock ξ C) (requests : List Request) : Stock ξ C :=
  requests.foldl bench.step start

/-! ## Backends that leave proofs to tools -/

/-- A backend that never writes where a proof may lie, with circuits of its own kind; its runs are
recorded beside a backend without records. -/
structure LeavesProofs (bench : Bench (List Deed × ξ) C) (plain : Bench ξ C) (engine : String)
    (files : Option C → Option (Path × Path)) (native : C → Prop) (mayHold : List String → Prop) :
    Prop where
  finished_eq : bench.finished = plain.finished
  foreign_eq : bench.foreign = plain.foreign
  compile_native : ∀ source w c, ((bench.compile source).exec w).1 = .ok c → native c
  finished_native : ∀ circuit c, bench.finished circuit = .ok c → native c
  foreign_native : ∀ circuit, native (bench.foreign circuit)
  prove_circuit : ∀ x inputs, ((bench.prove inputs).exec x).2.1 = x.1
  verify_native : ∀ x proof inputs, (∀ c ∈ x.1, native c) →
    ∀ c ∈ ((bench.verify proof inputs).exec x).2.1, native c
  exists_mayHold : ∃ names, mayHold names
  compile_traces : ∀ names, mayHold names → ∀ source w,
    Traces (fun _ => True) names w (bench.compile source) (plain.compile source)
  prove_traces : ∀ names, mayHold names → ∀ x inputs,
    TracesBeside names x (bench.prove inputs) (plain.prove inputs)
  verify_traces : ∀ names, mayHold names → ∀ x, (∀ c ∈ x.1, native c) → ∀ proof inputs,
    TracesBeside names x (bench.verify proof inputs) (plain.verify proof inputs)
  concludes : ∀ x inputs, Concludes engine (files x.1) x.2
    (((bench.prove inputs).exec x).1, ((bench.prove inputs).exec x).2.2)
  mayHold_files : ∀ c, (∀ c' ∈ c, native c') → ∀ p q, files c = some (p, q) → mayHold p.resolve

/-- A stock without the record. -/
def Stock.forget (s : Stock (List Deed × ξ) C) : Stock ξ C where
  circuits := s.circuits
  workspace := s.workspace.forget

/-- From a stock to one with circuits of their kind, files of proofs have changed by tools only. -/
def Keeps (native : C → Prop) (mayHold : List String → Prop) (s s' : Stock (List Deed × ξ) C) : Prop :=
  (∀ c ∈ s'.circuits, native c) ∧
    ∀ names, mayHold names → Traced (fun _ => True) names s.workspace s'.workspace

section

variable {bench : Bench (List Deed × ξ) C} {plain : Bench ξ C} {engine : String}
  {files : Option C → Option (Path × Path)} {native : C → Prop} {mayHold : List String → Prop}
  {s : Stock (List Deed × ξ) C}

theorem native_select (h : ∀ c ∈ s.circuits, native c) (k : Option Nat) :
    ∀ c ∈ s.select k, native c := by
  intro c hc
  obtain ⟨i, -, hi⟩ := Option.bind_eq_some_iff.mp hc
  exact h c (List.mem_of_getElem? hi)

theorem native_add (h : ∀ c ∈ s.circuits, native c) {c : Option C} (hc : ∀ c' ∈ c, native c') :
    ∀ c' ∈ (s.add c).circuits, native c' := by
  intro c' hc'
  rcases List.mem_append.mp hc' with hold | hnew
  · exact h c' hold
  · exact hc c' (Option.mem_toList.mp hnew)

theorem native_put (h : ∀ c ∈ s.circuits, native c) (k : Option Nat)
    {x : Option C × Workspace (List Deed × ξ)} (hx : ∀ c ∈ x.1, native c) :
    ∀ c ∈ (s.put k x).circuits, native c := by
  obtain ⟨c', w⟩ := x
  intro c hc
  cases k with
  | none => exact h c hc
  | some i =>
      cases c' with
      | none => exact h c hc
      | some c' =>
          rcases List.mem_or_eq_of_mem_set hc with hold | rfl
          · exact h c hold
          · exact hx c rfl

theorem keeps_step (hbench : bench.LeavesProofs plain engine files native mayHold)
    (hs : ∀ c ∈ s.circuits, native c) (request : Request) :
    Keeps native mayHold s (bench.step s request) := by
  have hsteady : ∀ names, Traced (fun _ => True) names s.workspace s.workspace :=
    fun names => refl_of (Traced _ names) _
  cases request with
  | compile source =>
      exact ⟨native_add hs fun c hc => hbench.compile_native source _ c (toOption_eq_some hc),
        fun names hnames => (hbench.compile_traces names hnames source _).related⟩
  | finished circuit =>
      exact ⟨native_add hs fun c hc => hbench.finished_native circuit c (toOption_eq_some hc),
        fun names _ => hsteady names⟩
  | foreign circuit =>
      refine ⟨native_add hs fun c hc => ?_, fun names _ => hsteady names⟩
      obtain rfl := Option.mem_some.mp hc
      exact hbench.foreign_native circuit
  | prove k inputs =>
      refine ⟨native_put hs k ?_, fun names hnames => (hbench.prove_traces names hnames _ inputs).related⟩
      rw [hbench.prove_circuit]
      exact native_select hs k
  | verify k proof inputs =>
      have hselect := native_select hs k
      exact ⟨native_put hs k (hbench.verify_native _ proof inputs hselect),
        fun names hnames => (hbench.verify_traces names hnames _ hselect proof inputs).related⟩

/-- A request does without the record what it does with it. -/
theorem step_forget (hbench : bench.LeavesProofs plain engine files native mayHold)
    (hs : ∀ c ∈ s.circuits, native c) (request : Request) :
    plain.step s.forget request = (bench.step s request).forget := by
  obtain ⟨names, hnames⟩ := hbench.exists_mayHold
  cases request with
  | compile source =>
      have hview := (hbench.compile_traces names hnames source s.workspace).exec_view
      simp only [step, Stock.forget, Stock.add, hview]
  | finished circuit =>
      simp only [step, Stock.forget, Stock.add, hbench.finished_eq]
  | foreign circuit =>
      simp only [step, Stock.forget, Stock.add, hbench.foreign_eq]
  | prove k inputs =>
      have hview := (hbench.prove_traces names hnames (s.select k, s.workspace) inputs).exec_view
      exact congrArg (fun x => s.forget.put k x.2) hview
  | verify k proof inputs =>
      have hview := (hbench.verify_traces names hnames (s.select k, s.workspace)
        (native_select hs k) proof inputs).exec_view
      exact congrArg (fun x => s.forget.put k x.2) hview

theorem keeps_reached (hbench : bench.LeavesProofs plain engine files native mayHold)
    (hs : ∀ c ∈ s.circuits, native c) (requests : List Request) :
    Keeps native mayHold s (bench.reached s requests) ∧
      plain.reached s.forget requests = (bench.reached s requests).forget := by
  induction requests generalizing s with
  | nil => exact ⟨⟨hs, fun names _ => refl_of (Traced _ names) _⟩, rfl⟩
  | cons request rest ih =>
      obtain ⟨hstep, htraced⟩ := keeps_step hbench hs request
      obtain ⟨⟨hrest, htraced'⟩, hforget⟩ := ih hstep
      refine ⟨⟨hrest, fun names hnames =>
        trans_of (Traced _ names) (htraced names hnames) (htraced' names hnames)⟩, ?_⟩
      rw [← step_forget hbench hs] at hforget
      exact hforget

/-! ## Proofs and their files -/

/-- How a request for a proof ends that has called its command: by what lies in the proof's file then,
which the latest run has put there that wrote it. -/
structure ReadsFile (engine : String) (p q : Path) (start : FileTree) (deeds : List Deed) (d : Deed)
    (reply : Except Fault Groth16.ProofData) : Prop extends Answers engine p q d reply where
  latest : ∀ data, reply = .ok data →
    Latest p.resolve data.proof (start.content? p.resolve) deeds
  /-- A command that ends well without writing the proof leaves the earlier one to be returned. -/
  stale : ∀ result old, d.action.outcome = .ok result →
    (∀ write ∈ d.action.writes, write.1.resolve ≠ p.resolve) →
    d.files.content? p.resolve = some old → d.after.lookup q.resolve = none →
    reply = .ok ⟨old, []⟩

/-- Whatever has been asked of a backend, and whatever its tools have done, a request for a proof ends in
a fault without its command, or calls the command last and reads the file.  What has been done is told by
the same requests to the backend with its runs recorded. -/
def ReadsProofs (plain : Bench ξ C) (bench : Bench (List Deed × ξ) C) (engine : String)
    (files : Option C → Option (Path × Path)) : Prop :=
  ∀ (start : FileTree) (x : ξ) (requests : List Request) (k : Option Nat) (inputs : InputMap Value),
    let t := plain.reached { workspace := { files := start, tools := x } } requests
    let reply := ((plain.prove inputs).exec (t.select k, t.workspace)).1
    let s := bench.reached { workspace := { files := start, tools := ([], x) } } requests
    let deeds := ((bench.prove inputs).exec (s.select k, s.workspace)).2.2.deeds
    t = s.forget ∧ reply = ((bench.prove inputs).exec (s.select k, s.workspace)).1 ∧
      ∃ earlier, (∀ e ∈ earlier, ¬e.call.IsProve) ∧
        (deeds = s.workspace.deeds ++ earlier ∧ (∃ f, reply = .error f) ∨
          ∃ d p q, deeds = s.workspace.deeds ++ earlier ++ [d] ∧ d.call.IsProve ∧
            files (t.select k) = some (p, q) ∧ ReadsFile engine p q start deeds d reply)

theorem readsProofs_of_leavesProofs (hbench : bench.LeavesProofs plain engine files native mayHold) :
    plain.ReadsProofs bench engine files := by
  intro start x requests k inputs t reply s deeds
  obtain ⟨⟨hnative, htraced⟩, hforget⟩ : Keeps native mayHold _ s ∧ t = s.forget :=
    keeps_reached hbench (List.forall_mem_nil _) requests
  have hselect := native_select hnative k
  have hreply : reply = ((bench.prove inputs).exec (s.select k, s.workspace)).1 := by
    obtain ⟨names, hnames⟩ := hbench.exists_mayHold
    have hview := (hbench.prove_traces names hnames (s.select k, s.workspace) inputs).exec_view
    rw [← congrArg Prod.fst hview]
    change ((plain.prove inputs).exec (t.select k, t.workspace)).1 = _
    rw [hforget]
    rfl
  refine ⟨hforget, hreply, ?_⟩
  rw [hreply, hforget]
  obtain ⟨earlier, hearlier, hend⟩ := hbench.concludes (s.select k, s.workspace) inputs
  refine ⟨earlier, hearlier, hend.imp id ?_⟩
  rintro ⟨d, p, q, hdeeds, hprove, hfiles, hanswers⟩
  change deeds = s.workspace.deeds ++ earlier ++ [d] at hdeeds
  refine ⟨d, p, q, hdeeds, hprove, hfiles, hanswers, fun data hdata => ?_, ?_⟩
  · -- the file has a history from the start to the end, and the command is the last run in it
    have hnames := hbench.mayHold_files _ hselect p q hfiles
    obtain ⟨new, hnew, -, hfollows⟩ := trans_of (Traced _ p.resolve) (htraced _ hnames)
      (hbench.prove_traces _ hnames (s.select k, s.workspace) inputs).related
    obtain rfl : deeds = new := hnew
    have hlast := hfollows
    rw [hdeeds] at hlast
    rw [← content?_of_follows_concat hlast, (hanswers.returned data hdata).2] at hfollows
    exact latest_of_follows hfollows
  · intro result old hresult hwrites hold hinputs
    rw [← Deed.content?_after_of_forall_ne hwrites] at hold
    exact hanswers.plain result old hresult hold hinputs

end

/-! ## The two backends -/

variable (choose : Choice ξ) (directoryName : String → Nat → Path) (settings : Tool.Settings)

/-- A run with a circuit that has to be there is traced if it is so with the circuit. -/
theorem traces_withCircuit {α : Type} {names : List String} {r : Run (C × Workspace (List Deed × ξ)) α}
    {q : Run (C × Workspace ξ) α} {x : Option C × Workspace (List Deed × ξ)}
    (h : ∀ c, TracesBeside names (c, x.2) r q) :
    TracesBeside names x (withCircuit r) (withCircuit q) := by
  obtain ⟨c, w⟩ := x
  cases c with
  | none => exact ⟨rfl, refl_of (Traced _ names) w⟩
  | some c =>
      have hview := (h c).exec_view
      exact ⟨congrArg (fun y => (y.1, (some y.2.1, y.2.2))) hview, (h c).related⟩

theorem traces_besideCircuit {α : Type} {names : List String}
    (r : Option C → Run (Workspace (List Deed × ξ)) α) (q : Option C → Run (Workspace ξ) α)
    (x : Option C × Workspace (List Deed × ξ)) (h : Traces (fun _ => True) names x.2 (r x.1) (q x.1)) :
    TracesBeside names x (besideCircuit r) (besideCircuit q) := by
  have hview := h.exec_view
  exact ⟨congrArg (fun y => (y.1, (x.1, y.2))) hview, h.related⟩

theorem honk_leavesProofs :
    (honk (choose.recording.toolbox directoryName) settings).LeavesProofs
      (honk (choose.toolbox directoryName) settings) "bb"
      (fun c => c.bind Honk.proofFiles) (fun _ => True) Honk.MayHoldProof where
  finished_eq := rfl
  foreign_eq := rfl
  compile_native _ _ _ _ := trivial
  finished_native _ _ _ := trivial
  foreign_native _ := trivial
  verify_native _ _ _ _ _ _ := trivial
  exists_mayHold := ⟨["target", "proof"], [], rfl⟩
  compile_traces _ hnames source _ := Honk.traces_compile choose directoryName settings hnames source
  prove_circuit x inputs := by
    obtain ⟨c, w⟩ := x
    cases c with
    | none => rfl
    | some c =>
        change some ((Honk.prove _ settings inputs).exec (c, w)).2.1 = some c
        rw [Honk.exec_prove]
  prove_traces _ hnames _ inputs :=
    traces_withCircuit fun _ => Honk.traces_prove choose directoryName settings hnames inputs
  verify_traces _ hnames _ _ proof inputs :=
    traces_withCircuit fun _ => Honk.traces_verify choose directoryName settings hnames proof inputs
  concludes x inputs := by
    obtain ⟨c, w⟩ := x
    cases c with
    | none => exact ⟨[], List.forall_mem_nil _, .inl ⟨(List.append_nil _).symm, _, rfl⟩⟩
    | some c =>
        change Concludes "bb" (Honk.proofFiles c) w
          (((Honk.prove _ settings inputs).exec (c, w)).1,
            ((Honk.prove _ settings inputs).exec (c, w)).2.2)
        rw [Honk.exec_prove]
        exact Honk.concludes_proofRun choose directoryName settings c inputs w
  mayHold_files c _ p q h := by
    obtain ⟨c', -, h⟩ := Option.bind_eq_some_iff.mp h
    exact Honk.mayHoldProof_of_proofFiles h

theorem sunspot_leavesProofs {finished : Option Sunspot.Paths}
    (hfinished : Sunspot.FromArtifact finished) :
    (sunspot (choose.recording.toolbox directoryName) settings finished).LeavesProofs
      (sunspot (choose.toolbox directoryName) settings finished) "sunspot"
      (Sunspot.proofFiles finished) (Sunspot.Compiled.Native finished)
      (Sunspot.MayHoldProof finished) where
  finished_eq := rfl
  foreign_eq := rfl
  compile_native source w c h := Sunspot.native_of_compile (Prod.ext h rfl)
  finished_native _ _ h := Sunspot.native_of_finished h
  foreign_native _ _ h := by cases h
  verify_native _ _ _ h := h
  exists_mayHold := by
    cases finished with
    | none => exact ⟨_, _, .inr ⟨rfl, ⟨false, []⟩, rfl⟩, rfl⟩
    | some paths => exact ⟨_, paths, .inl rfl, rfl⟩
  compile_traces _ hnames source _ :=
    Sunspot.traces_compile choose directoryName settings hfinished hnames source
  prove_circuit _ _ := rfl
  prove_traces _ hnames x inputs :=
    traces_besideCircuit (fun c => Sunspot.prove _ settings finished c inputs)
      (fun c => Sunspot.prove _ settings finished c inputs) x
      (Sunspot.traces_prove choose directoryName settings hfinished hnames x.1 inputs)
  verify_traces _ hnames x hx proof inputs :=
    traces_besideCircuit (fun c => Sunspot.verify _ settings finished c proof inputs)
      (fun c => Sunspot.verify _ settings finished c proof inputs) x
      (Sunspot.traces_verify choose directoryName settings hfinished hnames hx proof inputs)
  concludes x inputs := Sunspot.concludes_prove choose directoryName settings x.1 inputs
  mayHold_files _ hc _ _ h := Sunspot.mayHoldProof_of_proofFiles hc h

/-- **Origin of proofs.** With any tools, after any requests, a proof that either backend returns is the
content of the proof's file, written by the latest run that wrote the file.  The fault of a missing proof
is raised exactly if nothing lies there; an earlier proof that its command has not replaced is returned
again. -/
theorem proof_is_latest_in_file (finished : Option (Path × Path × Path)) :
    (honk (choose.toolbox directoryName) settings).ReadsProofs
        (honk (choose.recording.toolbox directoryName) settings) "bb"
        (fun c => c.bind Honk.proofFiles) ∧
      (sunspot (choose.toolbox directoryName) settings
          (finished.map fun f => .ofFinished f.1 f.2.1 f.2.2)).ReadsProofs
        (sunspot (choose.recording.toolbox directoryName) settings
          (finished.map fun f => .ofFinished f.1 f.2.1 f.2.2)) "sunspot"
        (Sunspot.proofFiles (finished.map fun f => .ofFinished f.1 f.2.1 f.2.2)) := by
  have hfinished : Sunspot.FromArtifact (finished.map fun f => .ofFinished f.1 f.2.1 f.2.2) := by
    intro paths hpaths
    obtain ⟨f, -, hf⟩ := Option.map_eq_some_iff.mp hpaths
    exact ⟨f.1, f.2.1, f.2.2, hf.symm⟩
  exact ⟨readsProofs_of_leavesProofs (honk_leavesProofs choose directoryName settings),
    readsProofs_of_leavesProofs (sunspot_leavesProofs choose directoryName settings hfinished)⟩

/-! A prover that writes a proof only the first time it is called. -/

/-- Tools that know whether they have written a proof. -/
def idleTools : Choice Bool := fun c s =>
  if c.arguments.head? = some "prove" then
    ({ writes := if s.2 then [] else [(⟨false, ["c", "circuit.proof"]⟩, [7])]
       outcome := .ok ⟨c.command, "", "", 0⟩ }, true)
  else
    ({ writes := [(⟨false, ["c", "target", "circuit.gz"]⟩, [])]
       outcome := .ok ⟨c.command, "", "", 0⟩ }, s.2)

def idleSettings : Tool.Settings := ⟨.str "nargo", .str "sunspot", .null, false⟩

/-- An artifact and its two keys. -/
def idleFiles : Path × Path × Path :=
  (⟨false, ["c", "circuit.json"]⟩, ⟨false, ["c", "circuit.pk"]⟩, ⟨false, ["c", "circuit.vk"]⟩)

/-- The backend over finished files. -/
def idleBench {ξ : Type} (choose : Choice ξ) : Bench ξ Sunspot.Compiled :=
  sunspot (choose.toolbox fun _ _ => ⟨false, []⟩) idleSettings
    ((some idleFiles).map fun f => .ofFinished f.1 f.2.1 f.2.2)

/-- The stock behind one request for a proof. -/
def idleStock : Stock (List Deed × Bool) Sunspot.Compiled :=
  (idleBench idleTools.recording).reached
    { workspace := { files := ⟨[(["c"], .directory)]⟩, tools := ([], false) } } [.prove none []]

/-- A second proof is returned although its command has written nothing. -/
theorem proof_is_latest_in_file_idle :
    (idleBench idleTools).ReadsProofs (idleBench idleTools.recording) "sunspot"
        (Sunspot.proofFiles ((some idleFiles).map fun f => .ofFinished f.1 f.2.1 f.2.2)) ∧
      (((idleBench idleTools.recording).prove []).exec (none, idleStock.workspace)).1 =
        .ok ⟨[7], []⟩ ∧
      (((idleBench idleTools.recording).prove []).exec (none, idleStock.workspace)).2.2.deeds.getLast?.map
        (fun d => (d.call.arguments.head?, d.action.writes)) = some (some "prove", []) :=
  ⟨(proof_is_latest_in_file idleTools _ idleSettings (some idleFiles)).2, rfl, rfl⟩

end ArrowCircuit.Bench
