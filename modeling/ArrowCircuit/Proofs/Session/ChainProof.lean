import ArrowCircuit.Proofs.Chain.Format
import ArrowCircuit.Proofs.Curve.Residues
import ArrowCircuit.Proofs.Groth16.Lowered
import ArrowCircuit.Proofs.Lowering.Fragment
import ArrowCircuit.Proofs.Noir.Printing
import ArrowCircuit.Proofs.Script.Printed
import ArrowCircuit.Proofs.Session.Failure
import ArrowCircuit.Proofs.Wire.Witness
import ArrowCircuit.Proofs.Witness.NamedInputs

/-!
# Proofs of a session for the chain

On its way to the chain a proof goes through four checks of sizes, each of which computes the size in
its own way.  Whatever a session has done before, a script whose circuit can be set up is compiled
exactly if the circuit has a Noir text.  Then its circuit is ready for proofs (`Compiled.Ready`) and stays
so, and from that every check follows: for every witness there is a proof in the form that the chain
takes (`printable_script_fits_chain`).
-/

namespace ArrowCircuit

open Run

/-! ## Circuits of the backend -/

namespace Direct

variable {S : PairingSuite}

/-- A circuit that is ready for proofs: its system is lowered from it, its keys, if it has any, have been
made by a setup for that system, and without keys it can get some, since their header has room for the
system and some draw lies outside the domain. -/
structure Compiled.Ready (S : PairingSuite) (c : Compiled) (e : Entropy) : Prop where
  lowered : ∃ bits, c.circuit.lower { bits } = .ok c.system
  keys : ∀ keys, c.keys = some keys → ∃ e₀ e₁, Groth16.setup S c.system e₀ = .ok (keys, e₁)
  setup : c.keys = none →
    c.system.FitsHeader ∧ (Groth16.Trapdoor.draw c.system.rowCount e).isSome

namespace Compiled.Ready

variable {c : Compiled} {e : Entropy}

theorem laidOut (hc : c.Ready S e) :
    c.system.LaidOut c.circuit.privateParams.length c.circuit.publicParams.length := by
  obtain ⟨bits, hlower⟩ := hc.lowered
  obtain ⟨s, hs, hsystem⟩ := Lowering.lower_eq_ok_iff.mp hlower
  rw [hsystem]
  exact Lowering.laidOut_system hs

/-- With keys of a setup a circuit is ready whatever the randomness. -/
theorem withKeys (hc : c.Ready S e) {keys : Groth16.KeyPair} {e₀ e₁ : Entropy}
    (hsetup : Groth16.setup S c.system e₀ = .ok (keys, e₁)) (e' : Entropy) :
    ({ c with keys := some keys } : Compiled).Ready S e' := by
  refine ⟨hc.lowered, ?_, ?_⟩
  · rintro _ ⟨⟩
    exact ⟨e₀, e₁, hsetup⟩
  · rintro ⟨⟩

end Compiled.Ready

/-- What leaves a circuit ready that was, and gives it keys at most. -/
def KeepsReady (S : PairingSuite) (x x' : Compiled × Entropy) : Prop :=
  x.1.Ready S x.2 → x.1.Extends x'.1 ∧ x'.1.Ready S x'.2

instance : IsPreorder (Compiled × Entropy) (KeepsReady S) where
  refl x hx := ⟨refl_of Compiled.Extends x.1, hx⟩
  trans _ _ _ h h' hx := by
    obtain ⟨hextends, hy⟩ := h hx
    obtain ⟨hextends', hz⟩ := h' hy
    exact ⟨trans_of Compiled.Extends hextends hextends', hz⟩

section Runs

variable {G₁ G₂ : Type} [AddCommGroup G₁] [AddCommGroup G₂] (M₁ : S.curve.Models G₁)
  (M₂ : S.twist.Models G₂)

include M₁ M₂

/-- The keys of a circuit, new or old, are those of a setup, and the circuit keeps them. -/
theorem exec_ensureKeys_of_ready {c : Compiled} {e : Entropy} (hc : c.Ready S e) :
    ∃ keys e', (ensureKeys (.groth16 S)).exec (c, e) = (.ok keys, ({ c with keys := some keys }, e')) ∧
      ∃ e₀ e₁, Groth16.setup S c.system e₀ = .ok (keys, e₁) := by
  cases hkeys : c.keys with
  | some keys =>
      -- the circuit is not changed, which is the same as to give it the keys that it has
      refine ⟨keys, e, ?_, hc.keys keys hkeys⟩
      rw [exec_ensureKeys_of_some _ hkeys, ← hkeys]
  | none =>
      obtain ⟨hfits, hdraw⟩ := hc.setup hkeys
      obtain ⟨⟨t, e'⟩, hdraw⟩ := Option.isSome_iff_exists.mp hdraw
      obtain ⟨keys, hkeys'⟩ := Groth16.exists_setup M₁ M₂ hc.laidOut.wellFormed hfits hdraw
      refine ⟨keys, e', exec_ensureKeys_of_ok _ hkeys ?_, e, e', hkeys'⟩
      simp only [Engine.groth16, exec_ofStep, hkeys']

theorem keepsReady_ensureKeys (x : Compiled × Entropy) :
    Tracks id (KeepsReady S) x (ensureKeys (.groth16 S)) (ensureKeys (.groth16 S)) := by
  refine .of_related fun hx => ⟨(inUse_ensureKeys (.groth16 S) x).related, ?_⟩
  obtain ⟨keys, e', hexec, e₀, e₁, hsetup⟩ := exec_ensureKeys_of_ready M₁ M₂ hx
  rw [hexec]
  exact hx.withKeys hsetup e'

/-- **Use.** Whatever is done with a circuit that is ready leaves it ready. -/
theorem watches_keepsReady (settings : Settings) :
    (system (.groth16 S) settings).Watches (system (.groth16 S) settings) id (KeepsReady S) := by
  refine watches_of _ (keepsReady_ensureKeys M₁ M₂) (fun x r hkeys => .of_related fun hx => ?_) settings
  -- the engine takes from the randomness only where nothing is left to be drawn for keys
  exact ⟨.inl rfl, hx.lowered, hx.keys, fun hnone => absurd hnone hkeys⟩

/-- **Compilation.** A circuit that is ready is compiled, with its keys or without. -/
theorem exec_compile_of_ready {settings : Settings} {source : Source} {options : CompileOptions}
    {c : Compiled} {e : Entropy} (hlowered : lowered settings source options = .ok c)
    (hc : c.Ready S e) :
    ∃ c' e', (compile (.groth16 S) settings source options).exec e = (.ok c', e') ∧
      c.Extends c' ∧ c'.Ready S e' := by
  rw [compile, exec_ofStep, hlowered]
  dsimp only
  split
  · obtain ⟨hextends, hready⟩ := (keepsReady_ensureKeys M₁ M₂ (c, e)).related hc
    obtain ⟨keys, e', hexec, -⟩ := exec_ensureKeys_of_ready M₁ M₂ hc
    rw [hexec] at hextends hready ⊢
    exact ⟨_, _, rfl, hextends, hready⟩
  · exact ⟨c, e, rfl, refl_of Compiled.Extends c, hc⟩

/-- **Proofs.** For every witness there is a proof, and the circuit has its keys then. -/
theorem exec_prove_of_ready {c : Compiled} {e : Entropy} (hc : c.Ready S e) {inputs : InputMap Value}
    {w : Assignment} (hw : witness c inputs = .ok w) :
    ∃ keys proof e', (prove (.groth16 S) inputs).exec (c, e) =
        (.ok ⟨proof, (Groth16.publicValues c.system w).map Groth16.publicText⟩,
          ({ c with keys := some keys }, e')) ∧
      proof.length = 256 ∧
      keys.verifyingKey.length = 448 + 64 * (c.circuit.publicParams.length + 1) := by
  obtain ⟨keys, e₁, hkeys, e₀, e₀', hsetup⟩ := exec_ensureKeys_of_ready M₁ M₂ hc
  obtain ⟨hlength, hproof⟩ := Groth16.prove_of_setup M₁ M₂ hc.laidOut.wellFormed hsetup
  obtain ⟨bits, hlower⟩ := hc.lowered
  obtain ⟨proof, e₂, hsize, hproof⟩ := hproof w (isSome_of_witness hlower hw) e₁
  rw [hc.laidOut.publicInputs, List.length_range'] at hlength
  refine ⟨keys, proof, e₂, ?_, hsize, hlength⟩
  have hwitness : (Run.lift id (witness c inputs) : Run (Compiled × Entropy) Assignment).exec (c, e) =
      (.ok w, (c, e)) := by
    rw [exec_lift, hw]
    rfl
  rw [prove, exec_bind_ok (exec_get _)]
  dsimp only
  rw [exec_bind_ok hwitness, exec_bind_ok hkeys]
  simp only [onEngine, onPart, Engine.call, Engine.groth16, exec_ofStep, hproof, Except.mapError]

end Runs

/-- **Scripts.** A script that is read and whose circuit is lowered has a compiled circuit exactly if the
circuit is printable, and otherwise a numeral of its Noir text is too large. -/
theorem decides_lowered {text : String} {c : Circuit} (hparse : Circuit.parse text = .ok c)
    {settings : Settings} {options : CompileOptions} {bits : Nat}
    (hbits : Lowering.bitsOf (options.bits.getD (.int settings.bits)) = .ok bits)
    {system : ConstraintSystem} (hlower : c.lower { bits } = .ok system) :
    Decides (fun f => f = .noir (.numeral .tooLarge)) c.Printable
      (fun compiled => ∃ noir, compiled = ⟨c, noir, system, none⟩)
      (lowered settings (.script text) options) := by
  have harithmetic : c.IsArithmetic :=
    (Lowering.decides_lower hparse { bits }).exists_ok_iff.mp ⟨system, hlower⟩
  rw [lowered, Source.circuit, hparse]
  simp only [bind, Except.bind, Except.mapError, hbits, hlower]
  rcases Noir.decides_program harithmetic with ⟨hprintable, noir, hnoir, -⟩ | ⟨hlarge, f, hnoir, rfl⟩
  · rw [hnoir]
    exact .ok hprintable ⟨noir, rfl⟩
  · rw [hnoir]
    exact .error hlarge rfl

end Direct

/-! ## Sessions for the chain -/

/-- A proof in the form that the chain takes, for a circuit and named inputs: the sizes of the proof and
of its key, the numbers supplied for the public parameters, in their order, as words and as texts, and
the size of the key's account for every authority. -/
structure ChainProof.Fits (record : ChainProof) (c : Circuit) (inputs : InputMap Value) : Prop where
  proof : record.proof.length = 256
  key : record.key.length = 448 + 64 * (c.publicParams.length + 1)
  inputCount : record.inputCount = c.publicParams.length
  numbers : ∃ ns : List Nat, record.inputs = ns.map (Bytes.bigEndian 32) ∧
    record.inputTexts = ns.map Wire.paddedHex ∧
    List.Forall₂ (fun (p : Param) (n : Nat) =>
      Witness.supplied .scalar inputs p.name = some (n : Int) ∧ n < scalarModulus) c.publicParams ns
  account : ∀ authority : Bytes, authority.length = 32 → ∃ account,
    Account.encode record.key authority c.publicParams.length = .ok account ∧
      (account.length : Int) = record.accountSize

/-- What is put together from a key, a proof and the numbers of a witness has this form. -/
theorem ChainProof.fits {c : Circuit} {inputs : InputMap Value} {key proof : Bytes} {zs : List Int}
    (hcount : c.publicParams.length ≤ Account.maxInputs)
    (hkey : key.length = 448 + 64 * (c.publicParams.length + 1)) (hproof : proof.length = 256)
    (hsupplied : List.Forall₂ (fun p z => Witness.supplied .scalar inputs p.name = some z)
      c.publicParams zs) (hzs : ∀ z ∈ zs, Canonical scalarModulus z) (rent : Json) :
    Fits ⟨key, c.publicParams.length, proof, zs.map fun z => Bytes.bigEndian 32 z.toNat,
      Account.size c.publicParams.length, rent⟩ c inputs := by
  refine ⟨hproof, hkey, rfl, ⟨zs.map Int.toNat, ?_, ?_, ?_⟩, fun authority hauthority => ?_⟩
  · rw [List.map_map]
    rfl
  · rw [inputTexts, List.map_map, List.map_map]
    exact List.map_congr_left fun z hz => Wire.hex_bigEndian (hzs z hz).toNat_lt_two_pow
  · rw [List.forall₂_map_right_iff, List.forall₂_iff_zip]
    refine ⟨hsupplied.length_eq, fun {p z} hmem => ?_⟩
    have hz := hzs z (List.of_mem_zip hmem).2
    rw [Int.toNat_of_nonneg hz.1]
    exact ⟨List.forall₂_zip hsupplied hmem, hz.toNat_lt⟩
  · exact Account.exists_encode_eq hcount hkey hauthority

namespace Session

open Direct

/-- The form of a proof of the right sizes, with a circuit that has keys. -/
theorem exec_formatRun {σ : Type} (E : Engine σ) (settings : Settings) (chain : Chain) {c : Compiled}
    {keys : Groth16.KeyPair} {s : σ} {proof : Bytes} {zs : List Int} {rate rent : Json}
    (hkeys : c.keys = some keys) (hcount : c.circuit.publicParams.length ≤ Account.maxInputs)
    (hkey : keys.verifyingKey.length = 448 + 64 * (c.circuit.publicParams.length + 1))
    (hproof : proof.length = 256) (hlength : zs.length = c.circuit.publicParams.length)
    (hzs : ∀ z ∈ zs, Canonical scalarModulus z)
    (hrent : ChainProof.rentAt (Account.size c.circuit.publicParams.length) rate = .ok rent) :
    (formatRun ⟨Direct.system E settings, some chain, rate⟩
      ⟨proof, zs.map Groth16.publicText⟩).exec (c, s) =
      (.ok ⟨keys.verifyingKey, c.circuit.publicParams.length, proof,
        zs.map fun z => Bytes.bigEndian 32 z.toNat, Account.size c.circuit.publicParams.length, rent⟩,
        (c, s)) := by
  have hchecked : (Run.lift .chain (ChainProof.checkProof proof (zs.map Groth16.publicText)
      c.circuit.publicParams.length) : Run (Compiled × σ) Nat).exec (c, s) =
        (.ok c.circuit.publicParams.length, (c, s)) := by
    rw [exec_lift, ChainProof.checkProof_eq_ok hcount (by rw [List.length_map, hlength]) hproof]
    rfl
  have hverifyingKey : (Direct.system E settings).verifyingKey.exec (c, s) =
      (.ok (some keys.verifyingKey), (c, s)) := exec_bind_ok (exec_ensureKeys_of_some E hkeys s) _
  -- with a chain, the check that there is one leaves only the rest of the run
  change (sealRun ⟨Direct.system E settings, some chain, rate⟩ ⟨proof, zs.map Groth16.publicText⟩
    c.circuit.publicParams.length).exec (c, s) = _
  rw [sealRun, exec_bind_ok hchecked, exec_bind_ok hverifyingKey, exec_lift,
    ChainProof.assemble_eq_ok hkey hzs hrent]
  rfl

/-- A proof that has a form for the chain is handed out in it. -/
theorem exec_prove_onChain {σ C : Type} {B : ProvingSystem σ C} {chain : Chain} {rate : Json}
    {st : State σ C} {c : C} {x y : C × σ} {inputs : InputMap Value} {proof : Groth16.ProofData}
    {record : ChainProof} (hcurrent : st.current = some c)
    (hprove : (B.prove inputs).exec (c, st.world) = (.ok proof, x))
    (hformat : (formatRun ⟨B, some chain, rate⟩ proof).exec x = (.ok record, y)) :
    (Session.prove ⟨B, some chain, rate⟩ inputs).exec st = (.ok (.onChain record), ⟨some y.1, y.2⟩) := by
  have hrun : (proveRun ⟨B, some chain, rate⟩ inputs).exec (c, st.world) =
      (.ok (.onChain record), y) :=
    (exec_bind_ok hprove _).trans (exec_bind_ok hformat _)
  rw [prove_eq, onCircuit, exec_ofStep]
  simp only [hcurrent, hrun]

section Compile

variable {σ : Type} (sc : Scenario σ) {source : Source} {options : CompileOptions}
  {p : Progress σ Compiled}

theorem exec_step_compile {c : Compiled} {s : σ}
    (h : (Direct.compile sc.engine sc.settings source options).exec p.state.world = (.ok c, s)) :
    (sc.session.step (.compile source options)).exec p =
      (.ok (.compiled c.info), { p with state := ⟨some c, s⟩ }) := by
  rw [step, exec_onState, exec_map, Session.compile, exec_ofStep]
  simp only [Scenario.session, Direct.system, h]
  rfl

/-- A source without a circuit changes nothing. -/
theorem exec_step_compile_of_error {f : Fault}
    (h : Direct.lowered sc.settings source options = .error f) :
    (sc.session.step (.compile source options)).exec p = (.error f, p) := by
  have hcompile : (Direct.compile sc.engine sc.settings source options).exec p.state.world =
      (.error f, p.state.world) := by
    rw [Direct.compile, exec_ofStep, h]
  rw [step, exec_onState, exec_map, Session.compile, exec_ofStep]
  simp only [Scenario.session, Direct.system, hcompile]
  rfl

end Compile

section Ready

variable {S : PairingSuite} {G₁ G₂ : Type} [AddCommGroup G₁] [AddCommGroup G₂]
  (M₁ : S.curve.Models G₁) (M₂ : S.twist.Models G₂)

include M₁ M₂

/-- A circuit that is ready is compiled, and stays the current one and ready while the session compiles
nothing else. -/
theorem exists_ready_of_compile {sc : Scenario Entropy} (hengine : sc.engine = .groth16 S)
    {steps : List Step} {source : Source} {options : CompileOptions} {c : Compiled}
    (hlowered : lowered sc.settings source options = .ok c)
    (hc : c.Ready S (sc.reached steps).state.world) :
    (∃ info p, (sc.session.step (.compile source options)).exec (sc.reached steps) =
      (.ok (.compiled info), p)) ∧
    ∀ uses : List Step, (∀ step ∈ uses, step.UsesCircuit) →
      ∃ c', (sc.reached (steps ++ .compile source options :: uses)).state.current = some c' ∧
        c.Extends c' ∧
        c'.Ready S (sc.reached (steps ++ .compile source options :: uses)).state.world := by
  obtain ⟨c₁, e, hcompile, hextends, hc₁⟩ := exec_compile_of_ready M₁ M₂ hlowered hc
  rw [← hengine] at hcompile
  have hstep := exec_step_compile sc hcompile
  refine ⟨⟨_, _, hstep⟩, fun uses huses => ?_⟩
  have hwatches : sc.session.system.Watches sc.session.system id (KeepsReady S) := by
    have hkeeps := watches_keepsReady M₁ M₂ sc.settings
    rwa [← hengine] at hkeeps
  rw [sc.reached_append_cons, hstep]
  obtain ⟨c₂, hcurrent, hkeeps⟩ :=
    State.Uses.exists_current (uses_run hwatches huses { sc.reached steps with state := ⟨some c₁, e⟩ }) rfl
  obtain ⟨hextends', hc₂⟩ := hkeeps hc₁
  exact ⟨c₂, hcurrent, trans_of Compiled.Extends hextends hextends', hc₂⟩

/-- With a circuit that is ready, for all inputs that have a witness, a session for the chain gives a
proof in the form that the chain takes. -/
theorem exists_record_of_ready {settings : Settings} {rate : Json} (hnull : rate ≠ .null)
    (hobject : ∀ fields, rate ≠ .object fields) {st : State Entropy Compiled} {c : Compiled}
    (hcurrent : st.current = some c) (hc : c.Ready S st.world) {text : String}
    (hparse : Circuit.parse text = .ok c.circuit) (hcount : c.circuit.publicParams.length ≤ 16)
    {inputs : InputMap Value} {w : Assignment} (hwitness : Direct.witness c inputs = .ok w) :
    ∃ record st', (Session.prove ⟨Direct.system (.groth16 S) settings, some .solana, rate⟩ inputs).exec
        st = (.ok (.onChain record), st') ∧ record.Fits c.circuit inputs := by
  obtain ⟨keys, proof, e, hprove, hproof, hkey⟩ := exec_prove_of_ready M₁ M₂ hc hwitness
  obtain ⟨bits, hlower⟩ := hc.lowered
  have hsupplied := supplied_of_witness hlower hwitness hparse
  obtain ⟨rent, hrent⟩ := ChainProof.exists_rentAt (Account.size c.circuit.publicParams.length) hnull
    hobject
  have hzs : ∀ z ∈ Groth16.publicValues c.system w, Canonical scalarModulus z :=
    fun z hz => Groth16.canonical_of_mem_publicValues hz
  have hformat := exec_formatRun (.groth16 S) settings .solana (c := { c with keys := some keys })
    (s := e) rfl hcount hkey hproof hsupplied.length_eq.symm hzs hrent
  exact ⟨_, _, exec_prove_onChain hcurrent hprove hformat,
    ChainProof.fits hcount hkey hproof hsupplied hzs rent⟩

end Ready

/-- **Proofs for the chain.** Over a curve and a twist whose arithmetic does what it says, whatever a
session for the chain has done before: a script that is read and lowered, with at most sixteen public
parameters, and for whose system a setup ends, is compiled if its circuit is printable. After that, and
after all further steps that compile nothing, for all inputs that have a witness and whatever the
randomness, the session gives a proof in the form that the chain takes. If the circuit is not printable
the script is refused, since a numeral of its Noir text is too large, although everything else would
succeed; the session stays as it is, and if it has no circuit then there is no proof. -/
theorem printable_script_fits_chain {S : PairingSuite} {G₁ G₂ : Type} [AddCommGroup G₁]
    [AddCommGroup G₂] (M₁ : S.curve.Models G₁) (M₂ : S.twist.Models G₂) (sc : Scenario Entropy)
    (hengine : sc.engine = .groth16 S) (hchain : sc.chain = some .solana)
    (hnull : sc.rate ≠ .null) (hobject : ∀ fields, sc.rate ≠ .object fields) (steps : List Step)
    {text : String} {c : Circuit} (hparse : Circuit.parse text = .ok c)
    (hcount : c.publicParams.length ≤ 16) (options : CompileOptions) {bits : Nat}
    (hbits : Lowering.bitsOf (options.bits.getD (.int sc.settings.bits)) = .ok bits)
    {system : ConstraintSystem} (hlower : c.lower { bits } = .ok system) (hheader : system.FitsHeader)
    (hdraw : (Groth16.Trapdoor.draw system.rowCount (sc.reached steps).state.world).isSome) :
    (c.Printable →
      (∃ info p, (sc.session.step (.compile (.script text) options)).exec (sc.reached steps) =
        (.ok (.compiled info), p)) ∧
      ∀ uses : List Step, (∀ step ∈ uses, step.UsesCircuit) →
        ∀ (inputs : InputMap Value) (privateValues publicValues : List Value) (w : Assignment),
          c.orderedValues inputs = .ok (privateValues, publicValues) →
          system.witness .scalar privateValues publicValues = .ok w →
          ∃ record st, (sc.session.prove inputs).exec
              (sc.reached (steps ++ .compile (.script text) options :: uses)).state =
            (.ok (.onChain record), st) ∧ record.Fits c inputs) ∧
    (¬ c.Printable →
      (sc.session.step (.compile (.script text) options)).exec (sc.reached steps) =
        (.error (.noir (.numeral .tooLarge)), sc.reached steps) ∧
      ((sc.reached steps).state.current = none → ∀ inputs : InputMap Value,
        ((sc.session.prove inputs).exec
          (sc.reached (steps ++ [.compile (.script text) options])).state).1 = .error .noCircuit)) := by
  rcases decides_lowered hparse hbits hlower with
    ⟨hprintable, _, hlowered, noir, rfl⟩ | ⟨hlarge, _, hlowered, rfl⟩
  · refine ⟨fun _ => ?_, fun hlarge => absurd hprintable hlarge⟩
    have hready : (⟨c, noir, system, none⟩ : Compiled).Ready S (sc.reached steps).state.world := by
      refine ⟨⟨bits, hlower⟩, ?_, fun _ => ⟨hheader, hdraw⟩⟩
      rintro _ ⟨⟩
    obtain ⟨hcompile, hcurrent⟩ := exists_ready_of_compile M₁ M₂ hengine hlowered hready
    refine ⟨hcompile, fun uses huses inputs privateValues publicValues w hordered hw => ?_⟩
    obtain ⟨c', hc', hextends, hready'⟩ := hcurrent uses huses
    obtain rfl : c'.circuit = c := hextends.circuit_eq
    obtain rfl : c'.system = system := hextends.system_eq
    rw [Scenario.session, hengine, hchain]
    exact exists_record_of_ready M₁ M₂ hnull hobject hc' hready' hparse hcount
      (Witness.witness_eq_ok hordered hw)
  · refine ⟨fun hprintable => absurd hprintable hlarge, fun _ => ?_⟩
    have hstep := exec_step_compile_of_error sc (p := sc.reached steps) hlowered
    refine ⟨hstep, fun hnone inputs => ?_⟩
    rw [sc.reached_append_cons, hstep, run, prove_eq, onCircuit, exec_ofStep]
    simp only [hnone]

/-- A script with two public parameters. -/
def productScript : String := "([total, factor], [a, b]) => { assert((a + b) * factor == total); }"

/-- What the grammar makes of `productScript`. -/
def productDefinition : Script.Definition where
  parameters := .listed 1 [.pattern 1 [(1, "total"), (1, "factor")], .pattern 1 [(1, "a"), (1, "b")]]
  body := .block [.expression 1 (.call 1 (.ident 1 "assert") [.binary 1 .eq
    (.binary 1 .mul (.binary 1 .add (.ident 1 "a") (.ident 1 "b")) (.ident 1 "factor"))
    (.ident 1 "total")])]

/-- The circuit of `productScript`. -/
def productCircuit : Circuit where
  publicParams := [⟨"total", 0⟩, ⟨"factor", 1⟩]
  privateParams := [⟨"a", 0⟩, ⟨"b", 1⟩]
  statements := [.assert (.binary .eq (.binary .mul (.binary .add (.identifier "a") (.identifier "b"))
    (.identifier "factor")) (.identifier "total")) none]

/-- The system of `productCircuit`. -/
def productSystem : ConstraintSystem where
  numWitnesses := 6
  publicInputs := [3, 4]
  privateInputs := [1, 2]
  constraints := [⟨[⟨1, 1⟩, ⟨1, 2⟩], [⟨1, 0⟩], [⟨1, 5⟩]⟩, ⟨[⟨1, 5⟩], [⟨1, 4⟩], [⟨1, 3⟩]⟩]
  computations := [.linear 5 [⟨1, 1⟩, ⟨1, 2⟩]]

/-- Inputs in no particular order. -/
def productInputs : InputMap Value :=
  [("b", .int 5), ("total", .str "0x24"), ("a", .int 7), ("factor", .int 3)]

/-- A session that leaves the keys for later, where the first draw for them lies inside the domain. -/
def productSession : Scenario Entropy :=
  ⟨.groth16 Residues.suite, { eagerSetup := false }, some .solana, .int ChainProof.defaultRate,
    .cycle [2, 9, 4]⟩

/-- A script with a number in hexadecimal. -/
def scaledScript (n : Nat) : String :=
  Script.asserting ["e"] ["a"] ("a * 0x" ++ Numeral.hexNat n ++ " == e")

/-- The circuit of `scaledScript`. -/
def scaledCircuit (n : Nat) : Circuit where
  publicParams := [⟨"e", 0⟩]
  privateParams := [⟨"a", 0⟩]
  statements := [.assert (.binary .eq (.binary .mul (.identifier "a") (.literal (.int n)))
    (.identifier "e")) none]

theorem parse_scaledScript (n : Nat) : Circuit.parse (scaledScript n) = .ok (scaledCircuit n) := by
  refine Script.parse_asserting (by decide) (by decide) fun scopes hvisible => ?_
  obtain ⟨he, ha⟩ := List.forall_mem_cons.mp hvisible
  have hleft : Script.Climbs scopes BinaryOp.mul.precedence "a".toList (.identifier "a") :=
    Script.climbs_ident (by decide) (ha "a" List.mem_cons_self) (by decide) (by decide) (by decide)
  have hright : Script.Climbs scopes (BinaryOp.eq.precedence + 1) "e".toList (.identifier "e") :=
    Script.climbs_ident (by decide) he (by decide) (by decide) (by decide)
  have hproduct := Script.climbs_binary .mul hleft (Script.climbs_hex n)
  have hequal := (Script.climbs_binary .eq (hproduct.mono (by decide)) hright).mono (Nat.zero_le _)
  have htext : ("a * 0x" ++ Numeral.hexNat n ++ " == e").toList =
      "a".toList ++ ' ' :: (BinaryOp.mul.symbol.toList ++ ' ' :: '0' :: 'x' :: Nat.toDigits 16 n) ++
        ' ' :: (BinaryOp.eq.symbol.toList ++ ' ' :: "e".toList) := by
    have hdigits : (Numeral.hexNat n).toList = Nat.toDigits 16 n := String.toList_ofList
    rw [String.toList_append, String.toList_append, hdigits]
    rfl
  rw [htext]
  exact hequal

theorem not_printable_scaledCircuit {n : Nat} (h : Nat.pow 10 Numeral.digitLimit ≤ n) :
    ¬ (scaledCircuit n).Printable := by
  intro hprintable
  have hcondition := hprintable _ List.mem_cons_self
  have hproduct := (Expr.printable_binary.mp hcondition).1
  have hnumber := Expr.printable_int.mp (Expr.printable_binary.mp hproduct).2
  exact absurd h (Nat.not_le.mpr hnumber)

/-- The product has a proof for the chain, and a script with a number of 4301 digits is refused. -/
theorem printable_script_fits_chain_product :
    (∃ record st, (productSession.session.prove productInputs).exec
        (productSession.reached [.compile (.script productScript) {}]).state =
      (.ok (.onChain record), st) ∧ record.Fits productCircuit productInputs) ∧
    (productSession.session.step
        (.compile (.script (scaledScript (Nat.pow 10 Numeral.digitLimit))) {})).exec
      (productSession.reached []) = (.error (.noir (.numeral .tooLarge)), productSession.reached []) := by
  constructor
  · have hparse : Circuit.parse productScript = .ok productCircuit := by
      have hdefinition : Script.Definition.parse productScript.toList = .ok productDefinition := by cbv
      rw [Circuit.parse, hdefinition]
      rfl
    have hlower : productCircuit.lower { bits := 64 } = .ok productSystem := rfl
    have hprintable : productCircuit.Printable :=
      (Noir.decides_program (by decide)).exists_ok_iff.mp ⟨_, rfl⟩
    have hc : productCircuit.WellNumbered := ⟨by decide, by decide, by decide⟩
    have hordered : productCircuit.orderedValues productInputs =
        .ok ([.int 7, .int 5], [.str "0x24", .int 3]) :=
      Circuit.orderedValues_eq_ok_of_get? hc.privatePositions hc.publicPositions (by decide) ⟨rfl, rfl⟩
        (List.forall_mem_cons.mpr ⟨rfl, List.forall_mem_singleton.mpr rfl⟩)
        (List.forall_mem_cons.mpr ⟨rfl, List.forall_mem_singleton.mpr rfl⟩)
    have hw : productSystem.witness .scalar [.int 7, .int 5] [.str "0x24", .int 3] =
        .ok ⟨[(5, 12), (0, 1), (1, 7), (2, 5), (3, 36), (4, 3)]⟩ := by
      obtain ⟨_, hs, heq⟩ := Lowering.lower_eq_ok_iff.mp hlower
      cases hs
      rw [heq]
      exact Witness.witness_eq_ok_iff.mpr ⟨rfl, rfl, [7, 5], [36, 3], rfl, rfl, rfl, by decide⟩
    obtain ⟨-, hproof⟩ := (printable_script_fits_chain (Residues.models Residues.base)
      (Residues.models Residues.extension) productSession rfl rfl (by rintro ⟨⟩) (by rintro _ ⟨⟩) []
      hparse (show 2 ≤ 16 by decide) {} rfl hlower ⟨by decide, by decide⟩ (by decide +kernel)).1
        hprintable
    exact hproof [] (List.forall_mem_nil _) productInputs _ _ _ hordered hw
  · -- the sizes of the system do not depend on the number
    have hlower : ∀ n, ∃ system, (scaledCircuit n).lower { bits := 64 } = .ok system ∧
        system.numWitnesses = 3 ∧ system.rowCount = 3 := fun n => ⟨_, rfl, rfl, rfl⟩
    obtain ⟨system, hlower, hwitnesses, hrows⟩ := hlower (Nat.pow 10 Numeral.digitLimit)
    have hdraw : (Groth16.Trapdoor.draw system.rowCount productSession.world).isSome := by
      rw [hrows]
      decide +kernel
    have hrefused := (printable_script_fits_chain (Residues.models Residues.base)
      (Residues.models Residues.extension) productSession rfl rfl (by rintro ⟨⟩) (by rintro _ ⟨⟩) []
      (parse_scaledScript _) (show 1 ≤ 16 by decide) {} rfl hlower
      ⟨by rw [hwitnesses]; decide, by rw [hrows]; decide⟩ hdraw).2
    exact (hrefused (not_printable_scaledCircuit le_rfl)).1

end Session

end ArrowCircuit
