import ArrowCircuit.Proofs.Backend.Keys
import ArrowCircuit.Proofs.Session.Backend

/-!
# The life of keys in a session

A session compiles circuits, replaces the current one, and makes keys at four places: while a circuit
is compiled, for a proof, for a decision, and for a chain.  Whatever it is asked for in whatever order,
and whichever calls of the engine fail, each circuit gets its keys from one setup and uses no others.

One step of a session keeps this (`tracks_step`), and so does a run of steps (`run_numbered`).
-/

namespace ArrowCircuit.Session

open Direct Run Call

variable {σ α : Type}

/-- A session to be run: the engine and the settings of its backend, its chain and the price of a byte
there, and the state in which the engine starts. -/
structure Scenario (σ : Type) where
  engine : Engine σ
  settings : Direct.Settings
  chain : Option Chain
  rate : Json
  world : σ

namespace Scenario

/-- The session over the direct backend. -/
def session (sc : Scenario σ) : Session σ Compiled :=
  ⟨Direct.system sc.engine sc.settings, sc.chain, sc.rate⟩

/-- The session with its circuits numbered and its calls recorded. -/
def recorded (sc : Scenario σ) : Session (σ × Record) Numbered :=
  ⟨Direct.numbered sc.engine sc.settings, sc.chain, sc.rate⟩

end Scenario

variable (sc : Scenario σ)

/-! ## States -/

/-- The state of a session without numbers and record. -/
def State.view (st : State (σ × Record) Numbered) : State σ Compiled :=
  ⟨st.current.map (·.circuit), st.world.1⟩

/-- The calls made for each circuit are a life, none have been made for circuits to come, and the
current circuit has the keys that its calls have made. -/
structure Consistent (st : State (σ × Record) Numbered) : Prop where
  fresh : ∀ n, st.world.2.count ≤ n → st.world.2.callsOf n = []
  life : ∀ n, ∃ system, Life system (st.world.2.callsOf n)
  current : ∀ c, st.current = some c →
    c.number < st.world.2.count ∧ Sound c.circuit (st.world.2.callsOf c.number)

/-- What may happen in a session: circuits and calls are added, and a circuit that is not the current
one gets no more calls. -/
structure Proceeds (st st' : State (σ × Record) Numbered) : Prop where
  count : st.world.2.count ≤ st'.world.2.count
  grows : ∀ n, st.world.2.callsOf n <+: st'.world.2.callsOf n
  retired : ∀ n, n < st.world.2.count → (∀ c, st.current = some c → c.number ≠ n) →
    st'.world.2.callsOf n = st.world.2.callsOf n ∧ ∀ c, st'.current = some c → c.number ≠ n
  consistent : Consistent st → Consistent st'

instance : IsPreorder (State (σ × Record) Numbered) Proceeds where
  refl _ := ⟨Nat.le_refl _, fun _ => List.prefix_rfl, fun _ _ h => ⟨rfl, h⟩, id⟩
  trans _ _ _ h h' := by
    refine ⟨Nat.le_trans h.count h'.count, fun n => (h.grows n).trans (h'.grows n), fun n hn hc => ?_,
      fun hs => h'.consistent (h.consistent hs)⟩
    obtain ⟨hcalls, hcurrent⟩ := h.retired n hn hc
    obtain ⟨hcalls', hcurrent'⟩ := h'.retired n (Nat.lt_of_lt_of_le hn h.count) hcurrent
    exact ⟨hcalls'.trans hcalls, hcurrent'⟩

/-- The current circuit at work. -/
theorem proceeds_of_works {c c' : Numbered} {w w' : σ × Record}
    (h : Numbered.Works (c, w) (c', w')) : Proceeds ⟨some c, w⟩ ⟨some c', w'⟩ := by
  obtain ⟨hnumber, hworks⟩ := h
  have hcount : w'.2.count = w.2.count := hworks.count
  have hgrows : ∀ n, w.2.callsOf n <+: w'.2.callsOf n := by
    intro n
    by_cases hn : n = c.number
    · rw [hn]
      exact hworks.grows
    · exact ⟨[], (List.append_nil _).trans (hworks.others n hn).symm⟩
  refine ⟨Nat.le_of_eq hcount.symm, hgrows, fun n hn hc => ?_,
    fun hs => ⟨fun n hn => ?_, fun n => ?_, ?_⟩⟩
  · have hne : c.number ≠ n := hc c rfl
    refine ⟨hworks.others n hne.symm, ?_⟩
    rintro _ ⟨⟩
    rwa [hnumber]
  · -- numbers to come are not the one of the current circuit
    have hlt := (hs.current c rfl).1
    have hne : n ≠ c.number := by
      rintro rfl
      exact absurd (hcount ▸ hn) (Nat.not_le.mpr hlt)
    exact (hworks.others n hne).trans (hs.fresh n (hcount ▸ hn))
  · by_cases hn : n = c.number
    · rw [hn]
      exact ⟨_, (hworks.sound (hs.current c rfl).2).life⟩
    · obtain ⟨system, hlife⟩ := hs.life n
      exact ⟨system, (hworks.others n hn).symm ▸ hlife⟩
  · rintro _ ⟨⟩
    obtain ⟨hlt, hsound⟩ := hs.current c rfl
    refine ⟨?_, ?_⟩
    · rw [hnumber]
      exact hcount.symm ▸ hlt
    · rw [hnumber]
      exact hworks.sound hsound

theorem tracks_onCircuit {r : Run (Numbered × (σ × Record)) α} {q : Run (Compiled × σ) α}
    (h : ∀ x, Tracks Numbered.view Numbered.Works x r q) (st : State (σ × Record) Numbered) :
    Tracks State.view Proceeds st (onCircuit r) (onCircuit q) := by
  obtain ⟨current, w⟩ := st
  cases current with
  | none => exact .of_exec rfl rfl (refl_of Proceeds _)
  | some c =>
      obtain ⟨hview, hworks⟩ := h (c, w)
      refine ⟨?_, proceeds_of_works hworks⟩
      have hplain : q.exec (c.circuit, w.1) = _ := hview
      simp only [onCircuit, exec_ofStep, State.view, Option.map_some, hplain]
      rfl

/-- A circuit is compiled under the next number, and becomes the current one or not. -/
theorem proceeds_of_compiles {current current' : Option Numbered} {s s' : σ} {r r' : Record}
    {result : Except Fault Compiled}
    (h : Compiles r.count { r with count := r.count + 1 } result r')
    (hcurrent : current' = current ∨ ∃ c, result = .ok c ∧ current' = some ⟨r.count, c⟩) :
    Proceeds ⟨current, (s, r)⟩ ⟨current', (s', r')⟩ := by
  have hcount : r'.count = r.count + 1 := h.count
  have hothers : ∀ n, n ≠ r.count → r'.callsOf n = r.callsOf n := h.others
  have hgrows : ∀ n, r.callsOf n <+: r'.callsOf n := by
    intro n
    by_cases hn : n = r.count
    · rw [hn]
      exact h.grows
    · exact ⟨[], (List.append_nil _).trans (hothers n hn).symm⟩
  refine ⟨?_, hgrows, fun n hn hc => ⟨hothers n (Nat.ne_of_lt hn), ?_⟩, fun hs => ?_⟩
  · change r.count ≤ r'.count
    omega
  · rintro c rfl
    rcases hcurrent with rfl | ⟨_, -, ⟨⟩⟩
    · exact hc c rfl
    · exact (Nat.ne_of_lt hn).symm
  · -- no call has been made for the new number before
    have hnew : r.callsOf r.count = [] := hs.fresh r.count (Nat.le_refl _)
    refine ⟨fun n hn => ?_, fun n => ?_, ?_⟩
    · have hlt : r.count < n := by
        change r'.count ≤ n at hn
        omega
      exact (hothers n (Nat.ne_of_gt hlt)).trans (hs.fresh n (Nat.le_of_lt hlt))
    · by_cases hn : n = r.count
      · rw [hn]
        exact h.life hnew
      · obtain ⟨system, hlife⟩ := hs.life n
        exact ⟨system, (hothers n hn).symm ▸ hlife⟩
    · rintro c rfl
      rcases hcurrent with rfl | ⟨c', hc', ⟨⟩⟩
      · obtain ⟨hlt, hsound⟩ := hs.current c rfl
        have hlt' : c.number < r.count := hlt
        refine ⟨?_, (hothers c.number (Nat.ne_of_lt hlt')).symm ▸ hsound⟩
        change c.number < r'.count
        omega
      · refine ⟨?_, h.sound hnew c' hc'⟩
        change r.count < r'.count
        omega

/-! ## Steps -/

theorem tracks_compile (source : Source) (options : CompileOptions)
    (st : State (σ × Record) Numbered) :
    Tracks State.view Proceeds st (sc.recorded.compile source options)
      (sc.session.compile source options) := by
  obtain ⟨current, s, r⟩ := st
  obtain ⟨result, s', r', hrecorded, hplain, hcompiles⟩ :=
    exec_compile_recording sc.engine sc.settings source options r.count s { r with count := r.count + 1 }
  have hnumbered : (sc.recorded.system.compile source options).exec (s, r) =
      (result.map (Numbered.mk r.count), (s', r')) :=
    congrArg (fun out => (out.1.map (Numbered.mk r.count), out.2)) hrecorded
  have hdirect : (sc.session.system.compile source options).exec s = (result, s') := hplain
  cases result with
  | error f =>
      have hexec : (sc.recorded.compile source options).exec ⟨current, (s, r)⟩ =
          (.error f, ⟨current, (s', r')⟩) := by
        simp only [compile, exec_ofStep, hnumbered, Except.map]
      have hexec' : (sc.session.compile source options).exec (State.view ⟨current, (s, r)⟩) =
          (.error f, State.view ⟨current, (s', r')⟩) := by
        simp only [compile, exec_ofStep, State.view, hdirect]
      exact .of_exec hexec hexec' (proceeds_of_compiles hcompiles (.inl rfl))
  | ok c =>
      have hexec : (sc.recorded.compile source options).exec ⟨current, (s, r)⟩ =
          (.ok c.info, ⟨some ⟨r.count, c⟩, (s', r')⟩) := by
        simp only [compile, exec_ofStep, hnumbered, Except.map]
        rfl
      have hexec' : (sc.session.compile source options).exec (State.view ⟨current, (s, r)⟩) =
          (.ok c.info, State.view ⟨some ⟨r.count, c⟩, (s', r')⟩) := by
        simp only [compile, exec_ofStep, State.view, hdirect]
        rfl
      exact .of_exec hexec hexec' (proceeds_of_compiles hcompiles (.inr ⟨c, rfl, rfl⟩))

/-- What a session does with its circuit goes through the backend. -/
theorem watches_recorded :
    sc.recorded.system.Watches sc.session.system Numbered.view Numbered.Works where
  name := rfl
  info _ := rfl
  prove inputs := Numbered.tracks_run fun n => Direct.tracks_prove sc.engine n inputs
  verify proof inputs := Numbered.tracks_run fun n => tracks_verify sc.engine n proof inputs
  verifyingKey := Numbered.tracks_run fun n => tracks_verifyingKey sc.engine sc.settings n

theorem tracks_prove (inputs : InputMap Value) (st : State (σ × Record) Numbered) :
    Tracks State.view Proceeds st (sc.recorded.prove inputs) (sc.session.prove inputs) := by
  rw [prove_eq, prove_eq]
  exact tracks_onCircuit
    (fun x => tracks_proveRun (watches_recorded sc) sc.chain sc.rate x inputs) st

theorem tracks_create (script : String) (publicValues privateValues : Value)
    (st : State (σ × Record) Numbered) :
    Tracks State.view Proceeds st (sc.recorded.create script publicValues privateValues)
      (sc.session.create script publicValues privateValues) := by
  rw [create_eq, create_eq]
  refine .bind_any (.bind_any (.lift _ _) fun circuit st₁ => ?_) fun prepared st₄ => ?_
  · refine .bind_any (.lift _ _) fun noir st₂ => ?_
    exact (tracks_compile sc (.parsed circuit) {} st₂).bind_any fun _ _ => .pure _
  · refine .bind_any (.lift _ _) fun inputs st₅ => tracks_onCircuit (fun x => ?_) st₅
    exact tracks_concludeRun (watches_recorded sc) sc.chain sc.rate x prepared.2 inputs

/-! ## Runs -/

/-- A session under way, without numbers and record. -/
def Progress.view (p : Progress (σ × Record) Numbered) : Progress σ Compiled :=
  ⟨p.state.view, p.last⟩

/-- What may happen to a session under way. -/
def Progress.Proceeds (p p' : Progress (σ × Record) Numbered) : Prop :=
  Session.Proceeds p.state p'.state

instance : IsPreorder (Progress (σ × Record) Numbered) Progress.Proceeds where
  refl p := refl_of Session.Proceeds p.state
  trans _ _ _ h h' := trans_of Session.Proceeds h h'

theorem tracks_onState {r : Run (State (σ × Record) Numbered) α} {q : Run (State σ Compiled) α}
    (h : ∀ st, Tracks State.view Session.Proceeds st r q) (p : Progress (σ × Record) Numbered) :
    Tracks Progress.view Progress.Proceeds p (onState r) (onState q) := by
  obtain ⟨hview, hproceeds⟩ := h p.state
  refine ⟨?_, hproceeds⟩
  have hplain : q.exec p.state.view = _ := hview
  simp only [onState, onPart, exec_ofStep, Progress.view, hplain]

/-- The last proof is kept beside the state. -/
theorem tracks_modify_last (last : Outcome) (p : Progress (σ × Record) Numbered) :
    Tracks Progress.view Progress.Proceeds p (modify fun p => { p with last })
      (modify fun p => { p with last }) :=
  ⟨rfl, refl_of Session.Proceeds p.state⟩

/-- **Steps.** A recorded step is a step, and proceeds. -/
theorem tracks_step (step : Step) (p : Progress (σ × Record) Numbered) :
    Tracks Progress.view Progress.Proceeds p (sc.recorded.step step) (sc.session.step step) := by
  cases step with
  | compile source options =>
      exact tracks_onState (fun st => (tracks_compile sc source options st).map _) p
  | prove inputs =>
      refine (tracks_onState (tracks_prove sc inputs) p).bind_any fun out p₁ => ?_
      exact (tracks_modify_last out p₁).bind_any fun _ _ => .pure _
  | verify proof inputs =>
      refine tracks_onState (fun st => ?_) p
      exact (tracks_onCircuit ((watches_recorded sc).verify proof inputs) st).map _
  | verifyLast =>
      refine .bind_get (tracks_onState (fun st => ?_) p)
      exact (tracks_onCircuit ((watches_recorded sc).verify _ _) st).map _
  | create script publicValues privateValues =>
      refine (tracks_onState (tracks_create sc script publicValues privateValues) p).bind_any
        fun creation p₁ => ?_
      exact (tracks_modify_last _ p₁).bind_any fun _ _ => .pure _
  | format proof =>
      refine tracks_onState (fun st => ?_) p
      exact (tracks_onCircuit
        (fun x => tracks_formatRun (watches_recorded sc) sc.chain sc.rate x proof) st).map _
  | verifyingKey =>
      refine tracks_onState (fun st => ?_) p
      exact (tracks_onCircuit (watches_recorded sc).verifyingKey st).map _

/-- Takes steps one after another: the replies, and where the session ends. -/
def run {C : Type} (S : Session σ C) :
    List Step → Progress σ C → List (Except Fault Reply) × Progress σ C
  | [], p => ([], p)
  | step :: rest, p =>
    let out := (S.step step).exec p
    let later := run S rest out.2
    (out.1 :: later.1, later.2)

theorem run_append {C : Type} (S : Session σ C) (steps more : List Step) (p : Progress σ C) :
    (S.run (steps ++ more) p).2 = (S.run more (S.run steps p).2).2 := by
  induction steps generalizing p with
  | nil => rfl
  | cons step rest ih => exact ih _

/-- **Runs.** A recorded run is a run, and proceeds. -/
theorem run_numbered (steps : List Step) (p : Progress (σ × Record) Numbered) :
    sc.session.run steps p.view =
        ((sc.recorded.run steps p).1, (sc.recorded.run steps p).2.view) ∧
      Progress.Proceeds p (sc.recorded.run steps p).2 := by
  induction steps generalizing p with
  | nil => exact ⟨rfl, refl_of Progress.Proceeds p⟩
  | cons step rest ih =>
      obtain ⟨hview, hstep⟩ := tracks_step sc step p
      obtain ⟨hlater, hrest⟩ := ih ((sc.recorded.step step).exec p).2
      refine ⟨?_, trans_of Progress.Proceeds hstep hrest⟩
      simp only [run, hview, hlater]

/-! ## Lifecycle -/

namespace Scenario

/-- The session before its first step. -/
def start : Progress σ Compiled := { state := ⟨none, sc.world⟩ }

/-- The recorded session before its first step. -/
def recordedStart : Progress (σ × Record) Numbered := { state := ⟨none, (sc.world, {})⟩ }

/-- Where the recorded session is after steps. -/
def after (steps : List Step) : Progress (σ × Record) Numbered :=
  (sc.recorded.run steps sc.recordedStart).2

/-- The circuit that is the current one after steps. -/
def current (steps : List Step) : Option Numbered := (sc.after steps).state.current

/-- The number of circuits compiled in the course of steps. -/
def count (steps : List Step) : Nat := (sc.after steps).state.world.2.count

/-- The calls made for a circuit in the course of steps. -/
def calls (steps : List Step) (n : Nat) : List Call := (sc.after steps).state.world.2.callsOf n

end Scenario

theorem consistent_after (steps : List Step) : Consistent (sc.after steps).state := by
  have hproceeds := (run_numbered sc steps sc.recordedStart).2
  exact hproceeds.consistent ⟨fun _ _ => rfl, fun _ => ⟨default, life_nil _⟩, nofun⟩

theorem proceeds_after (steps more : List Step) :
    Progress.Proceeds (sc.after steps) (sc.after (steps ++ more)) := by
  rw [Scenario.after, Scenario.after, run_append]
  exact (run_numbered sc more _).2

/-- A decision is asked of the backend with the current circuit. -/
theorem world_step_verify {p : Progress (σ × Record) Numbered} {c : Numbered}
    (hc : p.state.current = some c) (proof : Bytes) (inputs : List Value) :
    ((sc.recorded.step (.verify proof inputs)).exec p).2.state.world =
      ((Direct.verify (sc.engine.recording c.number) proof inputs).exec
        (c.circuit, p.state.world)).2.2 := by
  simp only [step, onState, onPart, exec_ofStep, exec_map, verify, onCircuit, hc]
  rfl

/-- A circuit without keys makes a setup for the next decision. -/
theorem exists_setup_of_none (steps : List Step) {c : Numbered} (hc : sc.current steps = some c)
    (hkeys : c.circuit.keys = none) (proof : Bytes) (inputs : List Value) :
    ∃ result, sc.calls steps c.number ++ [.setup c.circuit.system result] <+:
      sc.calls (steps ++ [.verify proof inputs]) c.number := by
  obtain ⟨result, hcalls⟩ := callsOf_verify_of_none sc.engine hkeys c.number proof inputs
    (sc.after steps).state.world.1 (sc.after steps).state.world.2
  have hafter : (sc.after (steps ++ [.verify proof inputs])).state.world =
      ((sc.recorded.step (.verify proof inputs)).exec (sc.after steps)).2.state.world := by
    rw [Scenario.after, run_append]
    rfl
  rw [world_step_verify sc hc] at hafter
  refine ⟨result, ?_⟩
  rw [Scenario.calls, Scenario.calls, hafter]
  exact hcalls

/-- **The life of keys.** Over any engine, with keys made at once or on first use, and for any steps:
numbering circuits and recording calls changes nothing; a circuit gets a setup only while it has no
keys, and its proofs and decisions use the keys of the one setup that succeeded; the current circuit
holds the keys that its calls have made, and none before; keys once made stay whatever follows; a
circuit that was replaced gets no more calls; and a circuit that still has no keys asks for them
again. -/
theorem keys_of_one_setup (sc : Scenario σ) (steps more : List Step) :
    sc.session.run steps sc.start =
        ((sc.recorded.run steps sc.recordedStart).1, (sc.after steps).view) ∧
      (∀ n, ∃ system, Life system (sc.calls steps n)) ∧
      (∀ c, sc.current steps = some c →
        Life c.circuit.system (sc.calls steps c.number) ∧
          c.circuit.keys = firstKeys (sc.calls steps c.number)) ∧
      (∀ n keys, firstKeys (sc.calls steps n) = some keys →
        firstKeys (sc.calls (steps ++ more) n) = some keys) ∧
      (∀ n, n < sc.count steps → (∀ c, sc.current steps = some c → c.number ≠ n) →
        sc.calls (steps ++ more) n = sc.calls steps n) ∧
      ∀ c proof inputs, sc.current steps = some c → c.circuit.keys = none →
        ∃ result, sc.calls steps c.number ++ [.setup c.circuit.system result] <+:
          sc.calls (steps ++ [.verify proof inputs]) c.number := by
  have hconsistent := consistent_after sc steps
  have hproceeds := proceeds_after sc steps more
  refine ⟨?_, hconsistent.life, fun c hc => ?_, fun n keys hkeys => ?_, fun n hn hc => ?_, ?_⟩
  · exact (run_numbered sc steps sc.recordedStart).1
  · have hsound := (hconsistent.current c hc).2
    exact ⟨hsound.life, hsound.keys⟩
  · exact firstKeys_of_prefix (hproceeds.grows n) hkeys
  · exact (hproceeds.retired n hn hc).1
  · intro c proof inputs hc hkeys
    exact exists_setup_of_none sc steps hc hkeys proof inputs

/-- An engine that counts its setups: the first one fails, and each later one makes keys of its own. -/
def flaky : Engine Nat where
  name := "flaky"
  setup _ := Run.ofStep fun
    | 0 => (.error (.engineFailed "flaky" "setup" "no entropy"), 1)
    | n + 1 => (.ok ⟨[n.toUInt8], [n.toUInt8]⟩, n + 2)
  prove _ _ _ := throw (.engineFailed "flaky" "prove" "no entropy")
  verify _ _ _ := pure true

/-- A session over `flaky` that makes keys on first use. -/
def retrying : Scenario Nat := ⟨flaky, { eagerSetup := false }, none, .null, 0⟩

/-- A circuit whose two inputs are equal. -/
def equalInputs : Circuit where
  publicParams := [⟨"a", 0⟩]
  privateParams := [⟨"b", 0⟩]
  statements := [.assert (.binary .eq (.identifier "a") (.identifier "b")) none]

/-- A circuit is compiled, and the setup for its first decision fails. -/
def failedSetup : List Step := [.compile (.parsed equalInputs) {}, .verify [] []]

/-- The second decision asks for keys again, and they are still the same when they are exported. -/
theorem keys_of_one_setup_retrying :
    (retrying.current failedSetup).map (·.circuit.keys) = some none ∧
      firstKeys (retrying.calls (failedSetup ++ [.verify [] []]) 0) = some ⟨[0], [0]⟩ ∧
      firstKeys (retrying.calls (failedSetup ++ [.verify [] []] ++ [.verifyingKey]) 0) =
        some ⟨[0], [0]⟩ := by
  have hkeys : firstKeys (retrying.calls (failedSetup ++ [.verify [] []]) 0) =
      some ⟨[0], [0]⟩ := by decide +kernel
  obtain ⟨-, -, -, hstay, -⟩ :=
    keys_of_one_setup retrying (failedSetup ++ [.verify [] []]) [.verifyingKey]
  exact ⟨by decide +kernel, hkeys, hstay 0 _ hkeys⟩

end ArrowCircuit.Session
