import ArrowCircuit.Proofs.Session.Lifecycle

/-!
# Failed steps

A step of a session may fail in a dozen places: the script is not read, the circuit is not lowered, a
setup fails, inputs are missing, there is no witness, the engine refuses.  What has been changed before
a fault stays changed, so what a failed step leaves behind depends on where it fails.

Two facts carry everything.  A compilation does not touch the current circuit before it has succeeded
(`current_of_compile_error`).  Whatever is done with a circuit, it stays as it is or gets the keys that
it did not have (`Compiled.Extends`), and that is kept by sequencing.  The same holds of every preorder
that the uses of a circuit keep: a step that compiles nothing keeps it (`uses_step`), and so does a run of
such steps (`uses_run`).
-/

namespace ArrowCircuit

open Run

/-! ## Circuits in use -/

namespace Direct

variable {σ α : Type} (E : Engine σ)

/-- A circuit and what has become of it: it is as it was, or had no keys and has got some. -/
def Compiled.Extends (c c' : Compiled) : Prop :=
  c' = c ∨ c.keys = none ∧ ∃ keys, c' = { c with keys := some keys }

instance : IsPreorder Compiled Compiled.Extends where
  refl _ := .inl rfl
  trans := by
    rintro a b c (rfl | ⟨hnone, keys, rfl⟩) hbc
    · exact hbc
    · -- the circuit has keys now, so nothing more happens to it
      rcases hbc with rfl | ⟨hkeys, -⟩
      · exact .inr ⟨hnone, keys, rfl⟩
      · cases hkeys

theorem Compiled.Extends.eq_of_keys {c c' : Compiled} (h : c.Extends c') {keys : Groth16.KeyPair}
    (hkeys : c.keys = some keys) : c' = c := by
  rcases h with rfl | ⟨hnone, -⟩
  · rfl
  · rw [hkeys] at hnone
    cases hnone

theorem Compiled.Extends.circuit_eq {c c' : Compiled} (h : c.Extends c') : c'.circuit = c.circuit := by
  rcases h with rfl | ⟨-, keys, rfl⟩ <;> rfl

theorem Compiled.Extends.system_eq {c c' : Compiled} (h : c.Extends c') : c'.system = c.system := by
  rcases h with rfl | ⟨-, keys, rfl⟩ <;> rfl

/-- What may happen to a circuit and the engine while the circuit is in use. -/
def InUse (x x' : Compiled × σ) : Prop := x.1.Extends x'.1

instance : IsPreorder (Compiled × σ) InUse where
  refl x := refl_of Compiled.Extends x.1
  trans _ _ _ h h' := trans_of Compiled.Extends h h'

variable (x : Compiled × σ)

theorem inUse_ensureKeys : Tracks id InUse x (ensureKeys E) (ensureKeys E) := by
  refine .of_related ?_
  obtain ⟨c, s⟩ := x
  cases hkeys : c.keys with
  | some keys =>
      rw [exec_ensureKeys_of_some E hkeys]
      exact .inl rfl
  | none =>
      rcases hsetup : (E.setup c.system).exec s with ⟨result, s'⟩
      cases result with
      | ok keys =>
          rw [exec_ensureKeys_of_ok E hkeys hsetup]
          exact .inr ⟨hkeys, keys, rfl⟩
      | error f =>
          rw [exec_ensureKeys_of_error E hkeys hsetup]
          exact .inl rfl

theorem keys_ne_none_of_ensureKeys {x x' : Compiled × σ} {keys : Groth16.KeyPair}
    (h : (ensureKeys E).exec x = (.ok keys, x')) : x'.1.keys ≠ none := by
  rw [(keys_of_ensureKeys E h).1]
  exact Option.some_ne_none keys

/-- What the making of keys keeps, and the runs of the engine once there are keys, is kept by every use
of a circuit. -/
theorem watches_of {R : Compiled × σ → Compiled × σ → Prop} [IsPreorder (Compiled × σ) R]
    (hkeys : ∀ x, Tracks id R x (ensureKeys E) (ensureKeys E))
    (hengine : ∀ {α : Type} x (r : Run σ α), x.1.keys ≠ none → Tracks id R x (onEngine r) (onEngine r))
    (settings : Settings) : (system E settings).Watches (system E settings) id R where
  name := rfl
  info _ := rfl
  prove inputs x := by
    refine .bind_get (.bind_any (.lift _ _) fun w y => ?_)
    exact (hkeys y).bind fun keys z hexec => hengine z _ (keys_ne_none_of_ensureKeys E hexec)
  verify proof inputs x :=
    (hkeys x).bind fun keys y hexec => hengine y _ (keys_ne_none_of_ensureKeys E hexec)
  verifyingKey x := (hkeys x).bind_any fun _ _ => .pure _

/-- **Use.** Whatever the backend does with a circuit, and however it ends, the circuit stays as it is
or gets its keys. -/
theorem watches_inUse (settings : Settings) :
    (system E settings).Watches (system E settings) id InUse :=
  watches_of E (inUse_ensureKeys E) (fun _ _ _ => .of_related (.inl rfl)) settings

/-- A compilation lowers its source, and may make the keys at once. -/
theorem exists_lowered_of_compile {settings : Settings} {source : Source} {options : CompileOptions}
    {c : Compiled} {s s' : σ}
    (h : (compile E settings source options).exec s = (.ok c, s')) :
    ∃ c₁, lowered settings source options = .ok c₁ ∧
      (c = c₁ ∨ c = ((ensureKeys E).exec (c₁, s)).2.1) := by
  rw [compile, exec_ofStep] at h
  cases hc : lowered settings source options with
  | error f =>
      rw [hc] at h
      cases h
  | ok c₁ =>
      refine ⟨c₁, rfl, ?_⟩
      rw [hc] at h
      dsimp only at h
      split at h
      · rcases hexec : (ensureKeys E).exec (c₁, s) with ⟨result, c₂, s₂⟩
        rw [hexec] at h
        cases result with
        | error f => cases h
        | ok keys =>
            cases h
            exact .inr rfl
      · cases h
        exact .inl rfl

/-- The circuit that is compiled is that of the source. -/
theorem circuit_of_compile {settings : Settings} {source : Source} {options : CompileOptions}
    {c : Compiled} {s s' : σ}
    (h : (compile E settings source options).exec s = (.ok c, s')) : source.circuit = .ok c.circuit := by
  obtain ⟨c₁, hlowered, hc⟩ := exists_lowered_of_compile E h
  obtain ⟨circuit, hcircuit, hlowered⟩ := bind_eq_ok hlowered
  obtain ⟨bits, -, hlowered⟩ := bind_eq_ok hlowered
  obtain ⟨system, -, hlowered⟩ := bind_eq_ok hlowered
  obtain ⟨noir, -, hlowered⟩ := bind_eq_ok hlowered
  cases hlowered
  rcases hc with rfl | rfl
  · exact hcircuit
  · -- the keys that are made at once leave the circuit as it is
    rw [Compiled.Extends.circuit_eq (inUse_ensureKeys E (_, s)).related]
    exact hcircuit

/-- Without a witness neither the circuit is touched nor the engine called. -/
theorem exec_prove_of_witness_error {c : Compiled} {inputs : InputMap Value} {f : Fault}
    (h : witness c inputs = .error f) (s : σ) :
    (prove E inputs).exec (c, s) = (.error f, (c, s)) := by
  have hlift : (Run.lift id (witness c inputs) : Run (Compiled × σ) Assignment).exec (c, s) =
      (.error f, (c, s)) := by
    rw [exec_lift, h]
    rfl
  rw [prove, exec_bind_ok (exec_get _)]
  exact exec_bind_error hlift _

end Direct

namespace Session

open Direct

variable {σ C α : Type}

/-! ## Compilation -/

section Compilation

variable (S : Session σ C) {st st' : State σ C} {f : Fault}

theorem current_of_compile_error {source : Source} {options : CompileOptions}
    (h : (S.compile source options).exec st = (.error f, st')) : st'.current = st.current := by
  rw [compile, exec_ofStep] at h
  split at h
  · cases h
  · cases h
    rfl

/-- A compilation that succeeds makes its circuit the current one. -/
theorem exists_current_of_compile {source : Source} {options : CompileOptions} {info : CircuitInfo}
    (h : (S.compile source options).exec st = (.ok info, st')) :
    ∃ c, st'.current = some c ∧
      (S.system.compile source options).exec st.world = (.ok c, st'.world) := by
  rw [compile, exec_ofStep] at h
  split at h
  · next c world hcompile =>
      cases h
      exact ⟨c, rfl, hcompile⟩
  · cases h

/-- Up to the compilation nothing happens to the current circuit. -/
theorem current_of_prepare_error {script : String}
    (h : (S.prepare script).exec st = (.error f, st')) : st'.current = st.current := by
  rcases fault_of_bind h with h | ⟨circuit, st₁, hcircuit, h⟩
  · exact congrArg State.current (Prod.mk.inj h).2.symm
  obtain rfl : st = st₁ := (Prod.mk.inj hcircuit).2
  rcases fault_of_bind h with h | ⟨noir, st₁, hnoir, h⟩
  · exact congrArg State.current (Prod.mk.inj h).2.symm
  obtain rfl : st = st₁ := (Prod.mk.inj hnoir).2
  rcases fault_of_bind h with h | ⟨info, st₁, -, h⟩
  · exact current_of_compile_error S h
  · -- nothing is left that could fail
    cases h

/-- Behind it the circuit of the script is the current one. -/
theorem exists_current_of_prepare {script : String} {prepared : Circuit × String}
    (h : (S.prepare script).exec st = (.ok prepared, st')) :
    ∃ circuit c w, (Source.script script).circuit = .ok circuit ∧ st'.current = some c ∧
      (S.system.compile (.parsed circuit) {}).exec w = (.ok c, st'.world) := by
  obtain ⟨circuit, st₁, hcircuit, h⟩ := value_of_bind h
  obtain ⟨noir, st₂, -, h⟩ := value_of_bind h
  obtain ⟨info, st₃, hcompile, h⟩ := value_of_bind h
  obtain ⟨c, hc, hexec⟩ := exists_current_of_compile S hcompile
  cases h
  exact ⟨circuit, c, _, mapError_eq_ok (Prod.mk.inj hcircuit).1, hc, hexec⟩

end Compilation

/-! ## Use of the current circuit -/

/-- What may happen to the current circuit of a session and to the world without a compilation, where
`R` is what the use of a circuit may do. -/
def State.Uses (R : C × σ → C × σ → Prop) (st st' : State σ C) : Prop :=
  Option.Rel R (st.current.map (·, st.world)) (st'.current.map (·, st'.world))

/-- What may happen to a session under way without a compilation. -/
def Progress.Uses (R : C × σ → C × σ → Prop) (p p' : Progress σ C) : Prop :=
  State.Uses R p.state p'.state

/-- A step that compiles nothing. -/
def Step.UsesCircuit : Step → Prop
  | .compile .. | .create .. => False
  | .prove _ | .verify .. | .verifyLast | .format _ | .verifyingKey => True

section Use

variable {R : C × σ → C × σ → Prop}

theorem State.Uses.exists_current {st st' : State σ C} (h : State.Uses R st st') {c : C}
    (hc : st.current = some c) :
    ∃ c', st'.current = some c' ∧ R (c, st.world) (c', st'.world) := by
  obtain ⟨current, w⟩ := st
  obtain ⟨current', w'⟩ := st'
  obtain rfl : current = some c := hc
  cases current' with
  | none => cases h
  | some c' =>
      cases h with
      | some h => exact ⟨c', rfl, h⟩

theorem uses_onCircuit {r : Run (C × σ) α} (h : ∀ x, Tracks id R x r r) (st : State σ C) :
    Tracks id (State.Uses R) st (onCircuit r) (onCircuit r) := by
  refine .of_related ?_
  obtain ⟨current, w⟩ := st
  cases current with
  | none => exact .none
  | some c => exact .some (h (c, w)).related

theorem uses_onState {r : Run (State σ C) α} (h : ∀ st, Tracks id (State.Uses R) st r r)
    (p : Progress σ C) : Tracks id (Progress.Uses R) p (onState r) (onState r) :=
  .of_related (h p.state).related

variable [IsPreorder (C × σ) R]

instance : IsPreorder (State σ C) (State.Uses R) where
  refl st := by
    obtain ⟨current, w⟩ := st
    cases current with
    | none => exact .none
    | some c => exact .some (refl_of R (c, w))
  trans st₁ st₂ st₃ h h' := by
    rw [State.Uses] at h h' ⊢
    generalize st₁.current.map (·, st₁.world) = x₁ at h
    generalize st₂.current.map (·, st₂.world) = x₂ at h h'
    generalize st₃.current.map (·, st₃.world) = x₃ at h'
    cases h with
    | none => exact h'
    | some h =>
        cases h' with
        | some h' => exact .some (trans_of R h h')

instance : IsPreorder (Progress σ C) (Progress.Uses R) where
  refl p := refl_of (State.Uses R) p.state
  trans _ _ _ h h' := trans_of (State.Uses R) h h'

variable {S : Session σ C} (h : S.system.Watches S.system id R)

include h

theorem uses_conclude (publicValues privateValues : Value) (prepared : Circuit × String)
    (st : State σ C) : Tracks id (State.Uses R) st (S.conclude publicValues privateValues prepared)
      (S.conclude publicValues privateValues prepared) := by
  refine .bind_any (.lift _ _) fun inputs st₁ => uses_onCircuit (fun x => ?_) st₁
  exact tracks_concludeRun h S.chain S.rate x prepared.2 inputs

/-- **Steps.** In a step that compiles nothing, nothing happens to the current circuit but what its
uses do. -/
theorem uses_step {step : Step} (hstep : step.UsesCircuit) (p : Progress σ C) :
    Tracks id (Progress.Uses R) p (S.step step) (S.step step) := by
  cases step with
  | compile => exact hstep.elim
  | create => exact hstep.elim
  | prove inputs =>
      have hprove : ∀ st, Tracks id (State.Uses R) st (S.prove inputs) (S.prove inputs) :=
        uses_onCircuit fun x => tracks_proveRun h S.chain S.rate x inputs
      refine (uses_onState hprove p).bind_any fun out p₁ => ?_
      have hlast : Tracks id (Progress.Uses R) p₁ (modify fun p => { p with last := out })
          (modify fun p => { p with last := out }) := .of_related (refl_of (State.Uses R) p₁.state)
      exact hlast.bind_any fun _ _ => .pure _
  | verify proof inputs =>
      exact uses_onState (fun st => (uses_onCircuit (h.verify proof inputs) st).map _) p
  | verifyLast =>
      refine .bind_get (uses_onState (fun st => ?_) p)
      exact (uses_onCircuit (h.verify _ _) st).map _
  | format proof =>
      refine uses_onState (fun st => ?_) p
      exact (uses_onCircuit (fun x => tracks_formatRun h S.chain S.rate x proof) st).map _
  | verifyingKey => exact uses_onState (fun st => (uses_onCircuit h.verifyingKey st).map _) p

/-- **Runs.** Nor does anything else happen to it in a run of such steps. -/
theorem uses_run {steps : List Step} (hsteps : ∀ step ∈ steps, step.UsesCircuit)
    (p : Progress σ C) : Progress.Uses R p (S.run steps p).2 := by
  induction steps generalizing p with
  | nil => exact refl_of (Progress.Uses R) p
  | cons step rest ih =>
      obtain ⟨hstep, hrest⟩ := List.forall_mem_cons.mp hsteps
      exact trans_of (Progress.Uses R) (uses_step h hstep p).related (ih hrest _)

end Use

/-! ## Steps -/

theorem exec_onState (r : Run (State σ C) α) (p : Progress σ C) :
    (onState r).exec p = ((r.exec p.state).1, { p with state := (r.exec p.state).2 }) :=
  rfl

/-- Beside the state only the last proof changes. -/
theorem state_step_create (S : Session σ C) (script : String) (publicValues privateValues : Value)
    (p : Progress σ C) :
    ((S.step (.create script publicValues privateValues)).exec p).2.state =
      ((S.create script publicValues privateValues).exec p.state).2 := by
  rcases hcreate : (S.create script publicValues privateValues).exec p.state with ⟨result, st⟩
  have hstate : (onState (S.create script publicValues privateValues)).exec p =
      (result, { p with state := st }) := by
    rw [exec_onState, hcreate]
  cases result with
  | error f => rw [step, exec_bind_error hstate]
  | ok creation =>
      rw [step, exec_bind_ok hstate]
      rfl

/-- A proof that the backend refuses without a change leaves the whole session as it is. -/
theorem exec_step_prove_of_error (S : Session σ C) {p : Progress σ C} {c : C}
    {inputs : InputMap Value} {f : Fault} (hc : p.state.current = some c)
    (h : (S.system.prove inputs).exec (c, p.state.world) = (.error f, (c, p.state.world))) :
    (S.step (.prove inputs)).exec p = (.error f, p) := by
  obtain ⟨⟨current, w⟩, last⟩ := p
  obtain rfl : current = some c := hc
  have hrun : (S.proveRun inputs).exec (c, w) = (.error f, (c, w)) := exec_bind_error h _
  have hprove : (S.prove inputs).exec ⟨some c, w⟩ = (.error f, ⟨some c, w⟩) := by
    rw [prove_eq, onCircuit, exec_ofStep]
    simp only [hrun]
  have hstate : (onState (S.prove inputs)).exec ⟨⟨some c, w⟩, last⟩ =
      (.error f, ⟨⟨some c, w⟩, last⟩) := by
    rw [exec_onState, hprove]
  exact exec_bind_error hstate _

/-! ## Reachable states -/

namespace Scenario

variable (sc : Scenario σ)

/-- Where the session is after steps. -/
def reached (steps : List Step) : Progress σ Compiled := (sc.session.run steps sc.start).2

theorem reached_append_cons (steps : List Step) (step : Step) (uses : List Step) :
    sc.reached (steps ++ step :: uses) =
      (sc.session.run uses ((sc.session.step step).exec (sc.reached steps)).2).2 :=
  run_append sc.session steps (step :: uses) sc.start

theorem reached_eq (steps : List Step) : sc.reached steps = (sc.after steps).view :=
  congrArg Prod.snd (run_numbered sc steps sc.recordedStart).1

end Scenario

/-- Inputs without a witness change nothing, also in the record of the calls. -/
theorem exec_step_prove_of_witness_error (sc : Scenario σ) (steps : List Step) {c : Compiled}
    {inputs : InputMap Value} {f : Fault} (hc : (sc.reached steps).state.current = some c)
    (h : Direct.witness c inputs = .error f) :
    (sc.session.step (.prove inputs)).exec (sc.reached steps) = (.error f, sc.reached steps) ∧
      (sc.recorded.step (.prove inputs)).exec (sc.after steps) = (.error f, sc.after steps) := by
  refine ⟨exec_step_prove_of_error _ hc (exec_prove_of_witness_error _ h _), ?_⟩
  rw [sc.reached_eq] at hc
  obtain ⟨n, hn, rfl⟩ := Option.map_eq_some_iff.mp hc
  refine exec_step_prove_of_error _ hn ?_
  have hexec := exec_prove_of_witness_error (sc.engine.recording n.number) h
    (sc.after steps).state.world
  exact congrArg (fun out => (out.1, (Numbered.mk n.number out.2.1, out.2.2))) hexec

/-- A way from a script to a proof that fails before its circuit is compiled leaves the current circuit
in place; behind that point the new circuit is the current one. -/
theorem current_of_create (sc : Scenario σ) (p : Progress σ Compiled) (script : String)
    (publicValues privateValues : Value) :
    (∀ f st, (sc.session.prepare script).exec p.state = (.error f, st) →
      (sc.session.step (.create script publicValues privateValues)).exec p =
          (.error f, { p with state := st }) ∧ st.current = p.state.current) ∧
    ∀ prepared st, (sc.session.prepare script).exec p.state = (.ok prepared, st) →
      ∃ c c', (Source.script script).circuit = .ok c.circuit ∧ st.current = some c ∧
        ((sc.session.step (.create script publicValues privateValues)).exec p).2.state.current =
          some c' ∧ c.Extends c' := by
  constructor
  · intro f st hprepare
    refine ⟨?_, current_of_prepare_error _ hprepare⟩
    have hcreate : (sc.session.create script publicValues privateValues).exec p.state =
        (.error f, st) := by
      rw [create_eq]
      exact exec_bind_error hprepare _
    have hstate : (onState (sc.session.create script publicValues privateValues)).exec p =
        (.error f, { p with state := st }) := by
      rw [exec_onState, hcreate]
    exact exec_bind_error hstate _
  · intro prepared st hprepare
    obtain ⟨circuit, c, w, hcircuit, hc, hcompile⟩ := exists_current_of_prepare _ hprepare
    have hsource : circuit = c.circuit := Except.ok.inj (circuit_of_compile _ hcompile)
    -- the proof is made and decided on with the new circuit, whatever comes of it
    have huse := (uses_conclude (S := sc.session) (watches_inUse sc.engine sc.settings) publicValues
      privateValues prepared st).related
    have hcurrent :
        ((sc.session.step (.create script publicValues privateValues)).exec p).2.state =
          ((sc.session.conclude publicValues privateValues prepared).exec st).2 := by
      rw [state_step_create, create_eq, exec_bind_ok hprepare]
    obtain ⟨c', hc', hextends⟩ := huse.exists_current hc
    exact ⟨c, c', hsource ▸ hcircuit, hc, hcurrent ▸ hc', hextends⟩

/-- **Failed steps.** Over any engine, from every state that a session reaches: a compilation that
fails, for whatever reason, leaves the current circuit with its keys in place; so does the way from a
script to a proof that fails before its circuit is compiled, and behind that point the new circuit is
the current one; where inputs have no witness the whole session stays as it is, and the engine is not
called; and whatever comes of a step that compiles nothing, the current circuit stays, and so do its
keys if it has any. -/
theorem failed_step_keeps_session (sc : Scenario σ) (steps : List Step) :
    (∀ source options f p',
      (sc.session.step (.compile source options)).exec (sc.reached steps) = (.error f, p') →
        p'.state.current = (sc.reached steps).state.current) ∧
    (∀ script publicValues privateValues f st,
      (sc.session.prepare script).exec (sc.reached steps).state = (.error f, st) →
        (sc.session.step (.create script publicValues privateValues)).exec (sc.reached steps) =
            (.error f, { sc.reached steps with state := st }) ∧
          st.current = (sc.reached steps).state.current) ∧
    (∀ script publicValues privateValues prepared st,
      (sc.session.prepare script).exec (sc.reached steps).state = (.ok prepared, st) →
        ∃ c c', (Source.script script).circuit = .ok c.circuit ∧ st.current = some c ∧
          ((sc.session.step (.create script publicValues privateValues)).exec
            (sc.reached steps)).2.state.current = some c' ∧ c.Extends c') ∧
    (∀ inputs c f, (sc.reached steps).state.current = some c → Direct.witness c inputs = .error f →
      (sc.session.step (.prove inputs)).exec (sc.reached steps) = (.error f, sc.reached steps) ∧
        (sc.recorded.step (.prove inputs)).exec (sc.after steps) = (.error f, sc.after steps)) ∧
    ∀ step c, step.UsesCircuit → (sc.reached steps).state.current = some c →
      ∃ c', ((sc.session.step step).exec (sc.reached steps)).2.state.current = some c' ∧
        c.Extends c' ∧ ∀ keys, c.keys = some keys → c' = c := by
  refine ⟨fun source options f p' h => ?_, fun script publicValues privateValues => ?_,
    fun script publicValues privateValues => ?_, fun inputs c f hc h => ?_,
    fun step c hstep hc => ?_⟩
  · rcases hcompile : (sc.session.compile source options).exec (sc.reached steps).state with ⟨r, st⟩
    rw [step, exec_onState, exec_map, hcompile] at h
    cases r with
    | error g =>
        cases h
        exact current_of_compile_error _ hcompile
    | ok info => cases h
  · exact (current_of_create sc _ script publicValues privateValues).1
  · exact (current_of_create sc _ script publicValues privateValues).2
  · exact exec_step_prove_of_witness_error sc steps hc h
  · have huse := (uses_step (S := sc.session) (watches_inUse sc.engine sc.settings) hstep
      (sc.reached steps)).related
    obtain ⟨c', hc', hextends⟩ := State.Uses.exists_current huse hc
    exact ⟨c', hc', hextends, fun keys hkeys => hextends.eq_of_keys hkeys⟩

/-- A circuit is compiled, and its keys are left for later. -/
def keyless : List Step := [.compile (.parsed equalInputs) {}]

/-- A setup at once fails and leaves the circuit that was there; a proof without inputs and an empty
script are refused before the engine is asked; and a decision for which the setup fails leaves the
circuit without keys. -/
theorem failed_step_keeps_session_retrying :
    (∃ p', (retrying.session.step (.compile (.parsed equalInputs) { eagerSetup := some true })).exec
        (retrying.reached keyless) = (.error (.engineFailed "flaky" "setup" "no entropy"), p') ∧
      p'.state.current = (retrying.reached keyless).state.current) ∧
    (∃ f st, (retrying.session.prepare "").exec (retrying.reached keyless).state = (.error f, st) ∧
      st.current = (retrying.reached keyless).state.current) ∧
    ∃ c, (retrying.reached keyless).state.current = some c ∧ c.keys = none ∧
      (retrying.session.step (.prove [])).exec (retrying.reached keyless) =
        (.error (.inputs (.missing ["b", "a"])), retrying.reached keyless) ∧
      ∃ c', ((retrying.session.step (.verify [] [])).exec (retrying.reached keyless)).2.state.current =
        some c' ∧ c.Extends c' := by
  obtain ⟨hcompile, hprepare, -, hwitness, huse⟩ := failed_step_keeps_session retrying keyless
  have hsetup : ∃ p', (retrying.session.step
      (.compile (.parsed equalInputs) { eagerSetup := some true })).exec (retrying.reached keyless) =
        (.error (.engineFailed "flaky" "setup" "no entropy"), p') := ⟨_, rfl⟩
  have hscript : ∃ f st, (retrying.session.prepare "").exec (retrying.reached keyless).state =
      (.error f, st) := ⟨_, _, rfl⟩
  have hcurrent : ∃ c, (retrying.reached keyless).state.current = some c ∧ c.keys = none ∧
      Direct.witness c [] = .error (.inputs (.missing ["b", "a"])) := ⟨_, rfl, rfl, rfl⟩
  obtain ⟨p', hp'⟩ := hsetup
  obtain ⟨f, st, hst⟩ := hscript
  obtain ⟨c, hc, hkeys, hmissing⟩ := hcurrent
  obtain ⟨c', hc', hextends, -⟩ := huse (.verify [] []) c trivial hc
  exact ⟨⟨p', hp', hcompile _ _ _ p' hp'⟩, ⟨f, st, hst, (hprepare "" .null .null f st hst).2⟩,
    c, hc, hkeys, (hwitness [] c _ hc hmissing).1, c', hc', hextends⟩

end Session

end ArrowCircuit
