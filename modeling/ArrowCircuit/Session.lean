import ArrowCircuit.Backend.System

/-!
# Sessions

A session holds a backend, the circuit it compiled last, and the chain for which proofs are made, if
any. A step that fails leaves the current circuit in place.
-/

namespace ArrowCircuit

/-- A chain that verifies proofs. -/
inductive Chain where
  | solana
  deriving DecidableEq, Repr

/-- The name of a chain. -/
def Chain.name : Chain → String
  | .solana => "solana"

/-- The chain that a setting names; none if nothing is set. -/
def Chain.ofSetting (setting : Json) : Except Fault (Option Chain) :=
  if !setting.isTruthy then .ok none
  else if setting.string? = some Chain.solana.name then .ok (some .solana)
  else do
    let shown ← (Value.ofJson setting).display.mapError .numeral
    throw (.unknownChain (Text.toStr shown))

/-- A session over a backend. -/
structure Session (σ C : Type) where
  system : ProvingSystem σ C
  chain : Option Chain
  /-- The price of a byte on the chain. -/
  rate : Json := .int ChainProof.defaultRate

namespace Session

/-- What changes in a session: the current circuit and the state of the backend. -/
structure State (σ C : Type) where
  current : Option C
  world : σ

/-- A proof as a session hands it out. -/
inductive Outcome where
  | plain (proof : Groth16.ProofData)
  | onChain (proof : ChainProof)
  deriving Repr

/-- The bytes of a proof. -/
def Outcome.proof : Outcome → Bytes
  | .plain p => p.proof
  | .onChain p => p.proof

/-- The public inputs of a proof. -/
def Outcome.publicInputs : Outcome → List Value
  | .plain p => p.publicInputs
  | .onChain p => p.inputTexts.map Value.str

/-- What comes out of making a proof from a script. -/
structure Creation where
  proof : Groth16.ProofData
  verified : Bool
  noir : String
  chain : Option ChainProof
  deriving Repr

variable {σ C : Type}

/-- A session for a chain, at the price that the configuration says. -/
def ofConfig (system : ProvingSystem σ C) (chain cfg : Json) : Except Fault (Session σ C) := do
  let cfg := if cfg.isTruthy then cfg else Config.default
  match ← Chain.ofSetting chain with
  | none => return { system, chain := none }
  | some c =>
    if !Backend.fitsChain system.name then throw (.backend (.chain c.name system.name))
    let rate ← (Config.sectionSetting cfg c.name "lamports_per_byte").mapError .config
    return { system, chain := some c, rate := rate.getD (.int ChainProof.defaultRate) }

variable (S : Session σ C)

/-- A run with the current circuit. -/
def onCircuit {α : Type} (r : Run (C × σ) α) : Run (State σ C) α :=
  Run.ofStep fun st =>
    match st.current with
    | none => (.error .noCircuit, st)
    | some c =>
      let (result, (c, world)) := r.exec (c, st.world)
      (result, ⟨some c, world⟩)

/-- Compiles a source, which becomes the current circuit if that succeeds. -/
def compile (source : Source) (options : CompileOptions) : Run (State σ C) CircuitInfo :=
  Run.ofStep fun st =>
    match (S.system.compile source options).exec st.world with
    | (.ok c, world) => (.ok (S.system.info c), ⟨some c, world⟩)
    | (.error f, world) => (.error f, { st with world })

/-- The form of a proof for the chain, with the current circuit's key. -/
def formatRun (proof : Groth16.ProofData) : Run (C × σ) ChainProof := do
  if S.chain.isNone then Run.fault .noChain
  let (c, _) ← get
  let n := (S.system.info c).circuit.publicCount
  let count ← Run.lift .chain (ChainProof.checkProof proof.proof proof.publicInputs n)
  let key ← S.system.verifyingKey
  Run.lift .chain (ChainProof.assemble S.system.name key S.rate proof.proof proof.publicInputs count)

/-- The form of a proof for the chain. -/
def format (proof : Groth16.ProofData) : Run (State σ C) ChainProof := onCircuit (S.formatRun proof)

/-- Proves with the current circuit, for the chain if there is one. -/
def prove (inputs : InputMap Value) : Run (State σ C) Outcome :=
  onCircuit do
    let proof ← S.system.prove inputs
    if S.chain.isNone then return .plain proof
    return .onChain (← S.formatRun proof)

/-- Decides on a proof with the current circuit. -/
def verify (proof : Bytes) (inputs : List Value) : Run (State σ C) Bool :=
  onCircuit (S.system.verify proof inputs)

/-- The items of supplied values: those of a list, or the characters of a text. -/
def items : Value → Except Fault (List (Except Fault Value))
  | .list vs => .ok (vs.map .ok)
  | .text t => .ok (t.map fun c => .ok (.text [c]))
  | .bytes bs => .ok (bs.map fun b => .ok (.int b.toNat))
  | .map fields => .ok (fields.map fun _ => .error .namedValues)
  | v => .error (.noLength v.typeName)

/-- The named inputs of a circuit from values in order. -/
def namedInputs (c : Circuit) (publicValues privateValues : Value) :
    Except Fault (InputMap Value) := do
  let publicItems ← items publicValues
  let privateItems ← if publicItems.length = c.publicParams.length then items privateValues else .ok []
  let m ← (c.inputMap publicItems privateItems).mapError .inputs
  m.mapM fun (name, v) => do return (name, ← v)

/-- The whole way from a script and values in order to a verified proof. -/
def create (script : String) (publicValues privateValues : Value) : Run (State σ C) Creation := do
  let circuit ← Run.lift id (Source.script script).circuit
  let noir ← Run.lift .noir (Noir.program circuit)
  let _ ← S.compile (.parsed circuit) {}
  let inputs ← Run.lift id (namedInputs circuit publicValues privateValues)
  onCircuit do
    let proof ← S.system.prove inputs
    let verified ← S.system.verify proof.proof proof.publicInputs
    let chain ← if S.chain.isSome then some <$> S.formatRun proof else pure none
    return { proof, verified, noir, chain }

/-! ## Runs of steps -/

/-- A step of a session. -/
inductive Step where
  | compile (source : Source) (options : CompileOptions)
  | prove (inputs : InputMap Value)
  | verify (proof : Bytes) (inputs : List Value)
  /-- Verifies the last proof. -/
  | verifyLast
  | create (script : String) (publicValues privateValues : Value)
  | format (proof : Groth16.ProofData)
  | verifyingKey

/-- What a step answers. -/
inductive Reply where
  | compiled (info : CircuitInfo)
  | proof (outcome : Outcome)
  | verdict (accepted : Bool)
  | created (creation : Creation)
  | key (key : Option Bytes)

/-- A session under way: its state and its last proof, at first without bytes and inputs. -/
structure Progress (σ C : Type) where
  state : State σ C
  last : Outcome := .plain ⟨[], []⟩

/-- A run on the state of a session under way. -/
def onState {α : Type} (r : Run (State σ C) α) : Run (Progress σ C) α :=
  r.onPart (·.state) fun state p => { p with state }

/-- Takes a step. -/
def step : Step → Run (Progress σ C) Reply
  | .compile source options => onState (.compiled <$> S.compile source options)
  | .prove inputs => do
    let outcome ← onState (S.prove inputs)
    modify fun p => { p with last := outcome }
    return .proof outcome
  | .verify proof inputs => onState (.verdict <$> S.verify proof inputs)
  | .verifyLast => do
    let last := (← get).last
    onState (.verdict <$> S.verify last.proof last.publicInputs)
  | .create script publicValues privateValues => do
    let creation ← onState (S.create script publicValues privateValues)
    modify fun p => { p with last := .plain creation.proof }
    return .created creation
  | .format proof => onState ((.proof ∘ .onChain) <$> S.format proof)
  | .verifyingKey => onState (.key <$> onCircuit S.system.verifyingKey)

end Session

end ArrowCircuit
