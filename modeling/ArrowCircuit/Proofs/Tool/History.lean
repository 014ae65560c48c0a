import ArrowCircuit.Proofs.Files.Tree
import ArrowCircuit.Proofs.Run
import ArrowCircuit.Tool.Scripted

/-!
# The history of a workspace

Tools that act by choice: at every call they write some files, one after another, and end well or fail.
Their runs are recorded in the order in which they happen (`Choice.recording`), so that it can be said
where the content of a file comes from: it is what the latest run that wrote the file has written, or
what was there from the start (`latest_of_follows`).
-/

namespace ArrowCircuit.Tool

/-- What a tool does in a run: it writes files, and ends well or fails. -/
structure Action where
  writes : List (Path × Bytes)
  outcome : Except Failure Result

/-- The files behind an action. -/
def Action.apply (a : Action) (files : FileTree) : FileTree :=
  a.writes.foldl (fun files write => files.store write.1 write.2) files

/-- Tools that choose what to do by the call, the files and a state of their own. -/
abbrev Choice (ξ : Type) := Call → FileTree × ξ → Action × ξ

/-- The executor of tools that act by choice. -/
def Choice.executor {ξ : Type} (choose : Choice ξ) : Executor ξ where
  run c s := ((choose c s).1.outcome.mapError .tool, ((choose c s).1.apply s.1, (choose c s).2))

/-! ## Scripts as choices -/

/-- The effect that a script has for a call. -/
def scriptedEffect (script : String → List Effect) (c : Call) (played : Played) : Effect :=
  let key := c.binary ++ " " ++ c.arguments.headD ""
  (((script key)[(played.counts.lookup key).getD 0]?).or (script key).getLast?).getD {}

/-- The choice that the tools of a script make. -/
def scriptedChoice (script : String → List Effect) : Choice Played := fun c s =>
  let key := c.binary ++ " " ++ c.arguments.headD ""
  let e := scriptedEffect script c s.2
  ({ writes := e.writes.map fun write => (Effect.place c write.1, write.2)
     outcome := match e.failure with
      | none => .ok ⟨c.command, "", "", 0⟩
      | some f => .error { f with command := c.command } },
   { counts := (key, (s.2.counts.lookup key).getD 0 + 1) :: s.2.counts, calls := s.2.calls ++ [c] })

/-- Scripted tools are tools that act by choice, so that what holds of these holds of them. -/
theorem scripted_eq (script : String → List Effect) :
    scripted script = (scriptedChoice script).executor := by
  rw [scripted, Choice.executor, Executor.mk.injEq]
  funext c s
  obtain ⟨files, played⟩ := s
  refine Prod.ext ?_ (Prod.ext ?_ rfl)
  · generalize heffect : scriptedEffect script c played = e
    rw [scriptedEffect] at heffect
    simp only [scriptedChoice, scriptedEffect, heffect]
    cases e.failure <;> rfl
  · simp only [scriptedChoice, scriptedEffect, Action.apply, Effect.apply, List.foldl_map]

/-! ## Deeds -/

/-- A run of a tool: the call, the files that it finds, and what it does. -/
structure Deed where
  call : Call
  files : FileTree
  action : Action

namespace Deed

/-- The files that a run of a tool leaves. -/
def after (d : Deed) : FileTree := d.action.apply d.files

/-- The file under a list of names has been written in a run of a tool, and now has this content. -/
def Wrote (names : List String) (content : Bytes) (d : Deed) : Prop :=
  (∃ write ∈ d.action.writes, write.1.resolve = names ∧ write.2 = content) ∧
    d.after.content? names = some content

end Deed

/-- A content that was not there before an action has been written by it. -/
theorem Action.content?_apply (a : Action) (files : FileTree) (names : List String) :
    (a.apply files).content? names = files.content? names ∨
      ∃ write ∈ a.writes, write.1.resolve = names ∧
        (a.apply files).content? names = some write.2 := by
  obtain ⟨writes, outcome⟩ := a
  simp only [apply]
  induction writes generalizing files with
  | nil => exact .inl rfl
  | cons write rest ih =>
      rw [List.foldl_cons]
      rcases ih (files.store write.1 write.2) with hrest | ⟨last, hlast, hnames, hcontent⟩
      · rcases files.content?_store write.1 write.2 names with hkept | ⟨hnames, hcontent⟩
        · exact .inl (hrest.trans hkept)
        · exact .inr ⟨write, List.mem_cons_self, hnames.symm, hrest.trans hcontent⟩
      · exact .inr ⟨last, List.mem_cons_of_mem write hlast, hnames, hcontent⟩

theorem Deed.content?_after_of_forall_ne {d : Deed} {names : List String}
    (h : ∀ write ∈ d.action.writes, write.1.resolve ≠ names) :
    d.after.content? names = d.files.content? names := by
  rcases d.action.content?_apply d.files names with hkept | ⟨write, hmem, hnames, -⟩
  · exact hkept
  · exact absurd hnames (h write hmem)

theorem Deed.content?_of_not_wrote {d : Deed} {names : List String} {content : Bytes}
    (h : d.after.content? names = some content) (hwrote : ¬d.Wrote names content) :
    d.files.content? names = some content := by
  rcases d.action.content?_apply d.files names with hkept | ⟨write, hmem, hnames, hcontent⟩
  · exact hkept.symm.trans h
  · have hbytes : write.2 = content := Option.some.inj (hcontent.symm.trans h)
    exact absurd ⟨⟨write, hmem, hnames, hbytes⟩, h⟩ hwrote

/-! ## The content of a file along a history -/

/-- The content of a file along runs of tools: each run finds what the one before it has left. -/
def Follows (names : List String) (start : Option Bytes) : List Deed → Option Bytes → Prop
  | [], stop => start = stop
  | d :: rest, stop => d.files.content? names = start ∧ Follows names (d.after.content? names) rest stop

/-- A content comes from the latest run that wrote the file, or was there from the start and no run has
written it. -/
def Latest (names : List String) (content : Bytes) (start : Option Bytes) (deeds : List Deed) : Prop :=
  (∃ before d later, deeds = before ++ d :: later ∧ d.Wrote names content ∧
    ∀ e ∈ later, ∀ other, ¬e.Wrote names other) ∨
  start = some content ∧ ∀ e ∈ deeds, ∀ other, ¬e.Wrote names other

theorem follows_append {names : List String} {start middle stop : Option Bytes}
    {deeds more : List Deed} (h : Follows names start deeds middle)
    (hmore : Follows names middle more stop) : Follows names start (deeds ++ more) stop := by
  induction deeds generalizing start with
  | nil =>
      obtain rfl : start = middle := h
      exact hmore
  | cons d rest ih => exact ⟨h.1, ih h.2⟩

/-- At the end a file is as the last run has left it. -/
theorem content?_of_follows_concat {names : List String} {start stop : Option Bytes}
    {deeds : List Deed} {d : Deed} (h : Follows names start (deeds ++ [d]) stop) :
    d.after.content? names = stop := by
  induction deeds generalizing start with
  | nil => exact h.2
  | cons e rest ih => exact ih h.2

/-- **Origins.** What a file holds was written by the latest run that wrote it. -/
theorem latest_of_follows {names : List String} {start : Option Bytes} {deeds : List Deed}
    {content : Bytes} (h : Follows names start deeds (some content)) :
    Latest names content start deeds := by
  induction deeds generalizing start with
  | nil => exact .inr ⟨h, List.forall_mem_nil _⟩
  | cons d rest ih =>
      obtain ⟨hstart, hrest⟩ := h
      rcases ih hrest with ⟨before, e, later, rfl, hwrote, hlater⟩ | ⟨hafter, hnone⟩
      · exact .inl ⟨d :: before, e, later, rfl, hwrote, hlater⟩
      -- no later run wrote the file, so it is as the first run has left it
      · by_cases hwrote : d.Wrote names content
        · exact .inl ⟨[], d, rest, rfl, hwrote, hnone⟩
        · have hkept := d.content?_of_not_wrote hafter hwrote
          refine .inr ⟨hstart.symm.trans hkept, List.forall_mem_cons.mpr ⟨fun other hother => ?_, hnone⟩⟩
          obtain rfl := Option.some.inj (hother.2.symm.trans hafter)
          exact hwrote hother

/-! ## Recorded workspaces -/

variable {ξ : Type}

/-- Tools whose runs are recorded. -/
def Choice.recording (choose : Choice ξ) : Choice (List Deed × ξ) := fun c s =>
  ((choose c (s.1, s.2.2)).1,
    (s.2.1 ++ [⟨c, s.1, (choose c (s.1, s.2.2)).1⟩], (choose c (s.1, s.2.2)).2))

/-- A toolbox with tools that act by choice. -/
def Choice.toolbox (choose : Choice ξ) (directoryName : String → Nat → Path) : Toolbox ξ where
  executor := choose.executor
  directoryName := directoryName

namespace Workspace

open Run

/-- The runs of tools so far. -/
def deeds (w : Workspace (List Deed × ξ)) : List Deed := w.tools.1

/-- The workspace without the record. -/
def forget (w : Workspace (List Deed × ξ)) : Workspace ξ :=
  { files := w.files, tools := w.tools.2, directories := w.directories }

/-- The run of a tool that a call starts. -/
def deed (choose : Choice ξ) (c : Call) (w : Workspace (List Deed × ξ)) : Deed :=
  ⟨c, w.files, (choose c (w.files, w.tools.2)).1⟩

theorem exec_call (choose : Choice ξ) (directoryName : String → Nat → Path) (c : Call)
    (w : Workspace (List Deed × ξ)) :
    (call (choose.recording.toolbox directoryName) c).exec w =
      ((deed choose c w).action.outcome.mapError .tool,
        { w with files := (deed choose c w).after
                 tools := (w.deeds ++ [deed choose c w], (choose c (w.files, w.tools.2)).2) }) :=
  rfl

/-- What may have happened between two workspaces, as far as one file is concerned: calls of a kind, each
of which finds the content that the one before it has left. -/
def Traced (kind : Call → Prop) (names : List String) (w w' : Workspace (List Deed × ξ)) : Prop :=
  ∃ new, w'.deeds = w.deeds ++ new ∧ (∀ d ∈ new, kind d.call) ∧
    Follows names (w.files.content? names) new (w'.files.content? names)

instance (kind : Call → Prop) (names : List String) :
    IsPreorder (Workspace (List Deed × ξ)) (Traced kind names) where
  refl w := ⟨[], (List.append_nil _).symm, List.forall_mem_nil _, rfl⟩
  trans w w' w'' h h' := by
    obtain ⟨new, hdeeds, hkind, hfollows⟩ := h
    obtain ⟨more, hdeeds', hkind', hfollows'⟩ := h'
    exact ⟨new ++ more, by rw [hdeeds', hdeeds, List.append_assoc],
      List.forall_mem_append.mpr ⟨hkind, hkind'⟩, follows_append hfollows hfollows'⟩

/-- A recorded run that is another one without the record, changes one file by tools only, and calls them
in one way only. -/
abbrev Traces {α : Type} (kind : Call → Prop) (names : List String) (w : Workspace (List Deed × ξ))
    (r : Run (Workspace (List Deed × ξ)) α) (q : Run (Workspace ξ) α) : Prop :=
  Tracks forget (Traced kind names) w r q

section

variable {α : Type} {kind : Call → Prop} {names : List String} {w : Workspace (List Deed × ξ)}

theorem traced_of_content {w' : Workspace (List Deed × ξ)} (hdeeds : w'.deeds = w.deeds)
    (hcontent : w'.files.content? names = w.files.content? names) : Traced kind names w w' :=
  ⟨[], by rw [hdeeds, List.append_nil], List.forall_mem_nil _, hcontent.symm⟩

/-- Runs that only look at the workspace, and see the same. -/
theorem Traces.of_steady {r : Run (Workspace (List Deed × ξ)) α} {q : Run (Workspace ξ) α}
    {result : Except Fault α} (hr : r.exec w = (result, w))
    (hq : q.exec w.forget = (result, w.forget)) : Traces kind names w r q :=
  .of_exec hr hq (refl_of (Traced kind names) w)

variable (choose : Choice ξ) (directoryName : String → Nat → Path)

theorem traces_call {c : Call} (hc : kind c) :
    Traces kind names w (call (choose.recording.toolbox directoryName) c)
      (call (choose.toolbox directoryName) c) := by
  refine ⟨rfl, ?_⟩
  rw [exec_call]
  exact ⟨[deed choose c w], rfl, List.forall_mem_singleton.mpr hc, rfl, rfl⟩

theorem exec_change_ok {ξ : Type} {f : FileTree → Except FileFault FileTree} {w : Workspace ξ}
    {files : FileTree} (h : f w.files = .ok files) :
    (change f).exec w = (.ok (), { w with files := files }) := by
  simp only [change, exec_ofStep, h]

theorem exec_change_error {ξ : Type} {f : FileTree → Except FileFault FileTree} {w : Workspace ξ}
    {e : FileFault} (h : f w.files = .error e) : (change f).exec w = (.error (.file e), w) := by
  simp only [change, exec_ofStep, h]

theorem traces_change {f : FileTree → Except FileFault FileTree}
    (h : ∀ t t', f t = .ok t' → t'.content? names = t.content? names) :
    Traces kind names w (change f) (change f) := by
  cases hf : f w.files with
  | error e => exact .of_steady (exec_change_error hf) (exec_change_error hf)
  | ok files =>
      exact .of_exec (exec_change_ok hf) (exec_change_ok hf) (traced_of_content rfl (h _ _ hf))

theorem traces_write {p : Path} (hp : p.resolve ≠ names) (content : Bytes) :
    Traces kind names w (write p content) (write p content) :=
  traces_change fun _ _ h => by rw [FileTree.content?_write h, if_neg hp.symm]

theorem traces_makeDirectory (p : Path) :
    Traces kind names w (makeDirectory p) (makeDirectory p) :=
  traces_change fun _ _ h => FileTree.content?_makeDirectory h names

theorem exec_temporary_ok {ξ : Type} {T : Toolbox ξ} {hint : String} {w : Workspace ξ}
    {files : FileTree}
    (h : w.files.makeDirectories (T.directoryName hint (w.directories + 1)) = .ok files) :
    (temporary T hint).exec w = (.ok (T.directoryName hint (w.directories + 1)),
      { w with files := files, directories := w.directories + 1 }) := by
  simp only [temporary, exec_ofStep, h]

theorem exec_temporary_error {ξ : Type} {T : Toolbox ξ} {hint : String} {w : Workspace ξ}
    {e : FileFault}
    (h : w.files.makeDirectories (T.directoryName hint (w.directories + 1)) = .error e) :
    (temporary T hint).exec w = (.error (.file e), w) := by
  simp only [temporary, exec_ofStep, h]

theorem traces_temporary (hint : String) :
    Traces kind names w (temporary (choose.recording.toolbox directoryName) hint)
      (temporary (choose.toolbox directoryName) hint) := by
  cases hfiles : w.files.makeDirectories (directoryName hint (w.directories + 1)) with
  | error e => exact .of_steady (exec_temporary_error hfiles) (exec_temporary_error hfiles)
  | ok files =>
      exact .of_exec (exec_temporary_ok hfiles) (exec_temporary_ok hfiles)
        (traced_of_content rfl (FileTree.content?_makeDirectories hfiles names))

theorem traces_read (p : Path) : Traces kind names w (read p) (read p) := .of_steady rfl rfl

theorem traces_has (p : Path) : Traces kind names w (has p) (has p) := .of_steady rfl rfl

theorem traces_require (p : Path) (fault : Toolchain.Fault) :
    Traces kind names w (require p fault) (require p fault) := by
  refine (traces_has p).bind_any fun found w' => ?_
  cases found with
  | true => exact .pure _
  | false => exact .fault _

/-- The word of a verifier, by the result of its call. -/
def verdict : Except Fault Result → Except Fault Bool
  | .ok _ => .ok true
  | .error (.tool f) => if f.isRejection then .ok false else .error (.tool f)
  | .error f => .error f

theorem exec_accepts {ξ : Type} (T : Toolbox ξ) (c : Call) (w : Workspace ξ) :
    (accepts T c).exec w = (verdict ((call T c).exec w).1, ((call T c).exec w).2) := by
  rw [accepts, exec_ofStep]
  rcases (call T c).exec w with ⟨result, w'⟩
  cases result with
  | ok r => rfl
  | error f =>
      cases f with
      | tool f =>
          dsimp only [verdict]
          split <;> rfl
      | _ => rfl

theorem traces_accepts {c : Call} (hc : kind c) :
    Traces kind names w (accepts (choose.recording.toolbox directoryName) c)
      (accepts (choose.toolbox directoryName) c) := by
  have hcall : Traces kind names w _ _ := traces_call choose directoryName hc
  obtain ⟨hview, hrelated⟩ := hcall
  refine .of_exec (exec_accepts _ c w) ?_ hrelated
  rw [exec_accepts, hview]

end

/-! ## Workspaces beside something else -/

variable {γ : Type}

/-- A state with a workspace in it, without the record. -/
def forgetBeside (s : γ × Workspace (List Deed × ξ)) : γ × Workspace ξ := (s.1, s.2.forget)

/-- What may have happened to the workspace in a state, as far as one file is concerned. -/
def TracedBeside (names : List String) (s s' : γ × Workspace (List Deed × ξ)) : Prop :=
  Traced (fun _ => True) names s.2 s'.2

instance (names : List String) :
    IsPreorder (γ × Workspace (List Deed × ξ)) (TracedBeside names) where
  refl s := refl_of (Traced _ names) s.2
  trans _ _ _ h h' := trans_of (Traced _ names) h h'

/-- A recorded run on a state with a workspace in it, which changes one file by tools only. -/
abbrev TracesBeside {α : Type} (names : List String) (s : γ × Workspace (List Deed × ξ))
    (r : Run (γ × Workspace (List Deed × ξ)) α) (q : Run (γ × Workspace ξ) α) : Prop :=
  Tracks forgetBeside (TracedBeside names) s r q

end Workspace

end ArrowCircuit.Tool
