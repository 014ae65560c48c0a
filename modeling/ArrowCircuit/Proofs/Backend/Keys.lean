import ArrowCircuit.Proofs.Backend.Record
import ArrowCircuit.Proofs.Outcome

/-!
# The keys of a compiled circuit

The direct backend with circuits numbered and calls recorded.  Whatever is done with a compiled circuit
keeps its keys those that its calls have made, and adds only calls that suit them; calls made for other
circuits are left alone.
-/

namespace ArrowCircuit.Direct

open Groth16 Run Call

variable {σ α : Type} (E : Engine σ)

/-! ## One circuit at work -/

/-- A circuit and the engine without the record. -/
def view (x : Compiled × (σ × Record)) : Compiled × σ := (x.1, x.2.1)

/-- The keys of a circuit are those that its calls have made, and each call has suited them. -/
structure Sound (c : Compiled) (calls : List Call) : Prop where
  life : Life c.system calls
  keys : c.keys = firstKeys calls

/-- What may happen while the circuit with a number is at work: it gets more calls, and other circuits
do not. -/
structure Works (n : Nat) (x x' : Compiled × (σ × Record)) : Prop where
  system : x'.1.system = x.1.system
  count : x'.2.2.count = x.2.2.count
  others : ∀ m, m ≠ n → x'.2.2.callsOf m = x.2.2.callsOf m
  grows : x.2.2.callsOf n <+: x'.2.2.callsOf n
  sound : Sound x.1 (x.2.2.callsOf n) → Sound x'.1 (x'.2.2.callsOf n)

instance (n : Nat) : IsPreorder (Compiled × (σ × Record)) (Works n) where
  refl _ := ⟨rfl, rfl, fun _ _ => rfl, List.prefix_rfl, id⟩
  trans _ _ _ h h' :=
    ⟨h'.system.trans h.system, h'.count.trans h.count,
      fun m hm => (h'.others m hm).trans (h.others m hm), h.grows.trans h'.grows,
      fun hs => h'.sound (h.sound hs)⟩

/-- One more call for the circuit, which may have made its keys. -/
theorem Works.add {n : Nat} {c c' : Compiled} {s s' : σ} {r : Record} {call : Call}
    (hsystem : c'.system = c.system) (hsuits : c.keys = firstKeys (r.callsOf n) →
      call.Suits c.system c.keys ∧ c'.keys = firstKeys (r.callsOf n ++ [call])) :
    Works n (c, (s, r)) (c', (s', r.add n call)) := by
  have hcalls := r.callsOf_add n call
  refine ⟨hsystem, rfl, fun m hm => r.callsOf_add_of_ne hm call, ?_, fun hs => ?_⟩
  · change r.callsOf n <+: (r.add n call).callsOf n
    rw [hcalls]
    exact List.prefix_append _ _
  · obtain ⟨hcall, hkeys⟩ := hsuits hs.keys
    change Sound c' ((r.add n call).callsOf n)
    rw [hcalls]
    refine ⟨?_, hkeys⟩
    rw [hsystem]
    exact hs.life.concat (hs.keys ▸ hcall)

theorem exec_ensureKeys_of_some {c : Compiled} {keys : KeyPair} (h : c.keys = some keys) (s : σ) :
    (ensureKeys E).exec (c, s) = (.ok keys, (c, s)) := by
  rw [ensureKeys, exec_ofStep]
  simp only [h]

theorem exec_ensureKeys_of_ok {c : Compiled} {keys : KeyPair} {s s' : σ} (h : c.keys = none)
    (hsetup : (E.setup c.system).exec s = (.ok keys, s')) :
    (ensureKeys E).exec (c, s) = (.ok keys, ({ c with keys := some keys }, s')) := by
  rw [ensureKeys, exec_ofStep]
  simp only [h, Engine.call, exec_ofStep, hsetup, Except.mapError]

theorem exec_ensureKeys_of_error {c : Compiled} {f : Fault} {s s' : σ} (h : c.keys = none)
    (hsetup : (E.setup c.system).exec s = (.error f, s')) :
    (ensureKeys E).exec (c, s) = (.error (Engine.explain E.name "setup" f), (c, s')) := by
  rw [ensureKeys, exec_ofStep]
  simp only [h, Engine.call, exec_ofStep, hsetup, Except.mapError]

/-- The recording engine sets up as the engine does, and keeps the call. -/
theorem exec_recording_setup {system : ConstraintSystem} {s s' : σ} {result : Except Fault KeyPair}
    (n : Nat) (h : (E.setup system).exec s = (result, s')) (r : Record) :
    ((E.recording n).setup system).exec (s, r) = (result, (s', r.add n (.setup system result))) := by
  change ((E.setup system).recorded n (.setup system)).exec (s, r) = _
  rw [exec_recorded, h]

/-- **Setup.** The engine is asked for keys only where there are none; where it fails there are still
none. -/
theorem tracks_ensureKeys (n : Nat) (x : Compiled × (σ × Record)) :
    Tracks view (Works n) x (ensureKeys (E.recording n)) (ensureKeys E) := by
  obtain ⟨c, s, r⟩ := x
  cases hkeys : c.keys with
  | some keys =>
      exact .of_exec (exec_ensureKeys_of_some _ hkeys _) (exec_ensureKeys_of_some _ hkeys _)
        (refl_of (Works n) _)
  | none =>
      rcases hsetup : (E.setup c.system).exec s with ⟨result, s'⟩
      have hrecorded := exec_recording_setup E n hsetup r
      cases result with
      | ok keys =>
          refine .of_exec (exec_ensureKeys_of_ok _ hkeys hrecorded)
            (exec_ensureKeys_of_ok _ hkeys hsetup) (.add rfl fun hfirst => ?_)
          refine ⟨⟨rfl, hkeys⟩, ?_⟩
          rw [firstKeys_append, ← hfirst, hkeys]
          rfl
      | error f =>
          refine .of_exec (exec_ensureKeys_of_error _ hkeys hrecorded)
            (exec_ensureKeys_of_error _ hkeys hsetup) (.add rfl fun hfirst => ?_)
          refine ⟨⟨rfl, hkeys⟩, ?_⟩
          rw [firstKeys_concat_of_none rfl, hfirst]

/-- What `ensureKeys` returns are the keys that the circuit has afterwards. -/
theorem keys_of_ensureKeys {x x' : Compiled × σ} {keys : KeyPair}
    (h : (ensureKeys E).exec x = (.ok keys, x')) :
    x'.1.keys = some keys ∧ x'.1.system = x.1.system := by
  obtain ⟨c, s⟩ := x
  cases hkeys : c.keys with
  | some keys' =>
      rw [exec_ensureKeys_of_some E hkeys] at h
      cases h
      exact ⟨hkeys, rfl⟩
  | none =>
      rcases hsetup : (E.setup c.system).exec s with ⟨result, s'⟩
      cases result with
      | ok keys' =>
          rw [exec_ensureKeys_of_ok E hkeys hsetup] at h
          cases h
          exact ⟨rfl, rfl⟩
      | error f =>
          rw [exec_ensureKeys_of_error E hkeys hsetup] at h
          cases h

/-- A recorded call of the engine that suits the circuit and makes no keys. -/
theorem tracks_onEngine (n : Nat) (x : Compiled × (σ × Record)) (stage : String)
    (call : Except Fault α → Call) (r : Run σ α) (hnone : ∀ result, (call result).keys? = none)
    (hsuits : ∀ result, (call result).Suits x.1.system x.1.keys) :
    Tracks view (Works n) x (onEngine ((E.recording n).call stage (r.recorded n call)))
      (onEngine (E.call stage r)) := by
  obtain ⟨c, s, record⟩ := x
  refine ⟨rfl, ?_⟩
  refine Works.add rfl fun hfirst => ⟨hsuits _, ?_⟩
  rw [firstKeys_concat_of_none (hnone _), hfirst]

/-- **Proofs.** The engine proves with the proving key of the circuit. -/
theorem tracks_prove (n : Nat) (inputs : InputMap Value) (x : Compiled × (σ × Record)) :
    Tracks view (Works n) x (prove (E.recording n) inputs) (prove E inputs) := by
  refine .bind_get (.bind (.lift _ _) fun w x' hw => ?_)
  -- reading the witness leaves the state as it is
  obtain rfl : x = x' := congrArg Prod.snd hw
  refine (tracks_ensureKeys E n x).bind fun keys x' hkeys => ?_
  obtain ⟨hheld, hsystem⟩ := keys_of_ensureKeys _ hkeys
  exact tracks_onEngine E n x' "prove" _ _ (fun _ => rfl)
    fun _ => ⟨hsystem.symm, keys, hheld, rfl⟩

/-- **Decisions.** The engine decides with the verifying key of the circuit. -/
theorem tracks_verify (n : Nat) (proof : Bytes) (inputs : List Value)
    (x : Compiled × (σ × Record)) :
    Tracks view (Works n) x (verify (E.recording n) proof inputs) (verify E proof inputs) := by
  refine (tracks_ensureKeys E n x).bind fun keys x' hkeys => ?_
  obtain ⟨hheld, -⟩ := keys_of_ensureKeys _ hkeys
  exact tracks_onEngine E n x' "verify" _ _ (fun _ => rfl) fun _ => ⟨keys, hheld, rfl⟩

/-- A circuit without keys asks for them whenever it has to decide on a proof. -/
theorem callsOf_verify_of_none {c : Compiled} (h : c.keys = none) (n : Nat) (proof : Bytes)
    (inputs : List Value) (s : σ) (r : Record) :
    ∃ result, r.callsOf n ++ [.setup c.system result] <+:
      ((verify (E.recording n) proof inputs).exec (c, (s, r))).2.2.2.callsOf n := by
  rcases hsetup : (E.setup c.system).exec s with ⟨result, s'⟩
  have hrecorded := exec_recording_setup E n hsetup r
  refine ⟨result, ?_⟩
  rw [← r.callsOf_add]
  cases result with
  | error f =>
      have hexec := exec_ensureKeys_of_error _ h hrecorded
      refine ⟨[], ?_⟩
      rw [List.append_nil, verify, exec_bind_error hexec]
  | ok keys =>
      rw [verify, exec_bind_ok (exec_ensureKeys_of_ok _ h hrecorded)]
      -- what the engine decides is one more call
      have hworks := (tracks_onEngine E n
        ({ c with keys := some keys }, (s', r.add n (.setup c.system (.ok keys)))) "verify"
        (.verify keys.verifyingKey proof inputs) (E.verify keys.verifyingKey proof inputs)
        (fun _ => rfl) fun _ => ⟨keys, rfl, rfl⟩).related
      exact hworks.grows

theorem tracks_verifyingKey (settings : Settings) (n : Nat) (x : Compiled × (σ × Record)) :
    Tracks view (Works n) x (system (E.recording n) settings).verifyingKey
      (system E settings).verifyingKey :=
  (tracks_ensureKeys E n x).bind_any fun keys _ => .pure (some keys.verifyingKey)

/-! ## Compilation -/

/-- A circuit that has just been lowered has no keys. -/
theorem keys_of_lowered {settings : Settings} {source : Source} {options : CompileOptions}
    {c : Compiled} (h : lowered settings source options = .ok c) : c.keys = none := by
  obtain ⟨circuit, -, h⟩ := bind_eq_ok h
  obtain ⟨bits, -, h⟩ := bind_eq_ok h
  obtain ⟨system, -, h⟩ := bind_eq_ok h
  obtain ⟨noir, -, h⟩ := bind_eq_ok h
  cases h
  rfl

/-- What may happen while a circuit with a new number is compiled: it gets its first calls, which suit
it even if it is not to be used. -/
structure Compiles (n : Nat) (r : Record) (result : Except Fault Compiled) (r' : Record) : Prop where
  count : r'.count = r.count
  others : ∀ m, m ≠ n → r'.callsOf m = r.callsOf m
  grows : r.callsOf n <+: r'.callsOf n
  life : r.callsOf n = [] → ∃ system, Life system (r'.callsOf n)
  sound : r.callsOf n = [] → ∀ c, result = .ok c → Sound c (r'.callsOf n)

theorem compiles_of_error (n : Nat) (r : Record) (f : Fault) : Compiles n r (.error f) r :=
  ⟨rfl, fun _ _ => rfl, List.prefix_rfl, fun h => ⟨default, h ▸ life_nil _⟩, nofun⟩

/-- **Compilation.** With keys made at once or not, a recorded compilation is a compilation. -/
theorem exec_compile_recording (settings : Settings) (source : Source) (options : CompileOptions)
    (n : Nat) (s : σ) (r : Record) :
    ∃ result s' r', (compile (E.recording n) settings source options).exec (s, r) =
        (result, (s', r')) ∧
      (compile E settings source options).exec s = (result, s') ∧ Compiles n r result r' := by
  simp only [compile, exec_ofStep]
  cases hlowered : lowered settings source options with
  | error f => exact ⟨_, _, _, rfl, rfl, compiles_of_error n r f⟩
  | ok c =>
      have hkeys := keys_of_lowered hlowered
      have hfirst : r.callsOf n = [] → Sound c (r.callsOf n) :=
        fun h => ⟨h ▸ life_nil _, by rw [hkeys, h]; rfl⟩
      dsimp only
      split
      · -- the setup runs at once
        obtain ⟨hview, hworks⟩ := tracks_ensureKeys E n (c, (s, r))
        rcases hexec : (ensureKeys (E.recording n)).exec (c, (s, r)) with ⟨result, c', s', r'⟩
        rw [hexec] at hview hworks
        have hplain : (ensureKeys E).exec (c, s) = (result, (c', s')) := hview
        rw [hplain]
        refine ⟨_, _, _, rfl, rfl, hworks.count, hworks.others, hworks.grows, fun h => ?_,
          fun h c'' hc'' => ?_⟩
        · exact ⟨c'.system, (hworks.sound (hfirst h)).life⟩
        · cases result with
          | error f => cases hc''
          | ok keys =>
              cases hc''
              exact hworks.sound (hfirst h)
      · refine ⟨_, _, _, rfl, rfl, rfl, fun _ _ => rfl, List.prefix_rfl, fun h => ?_,
          fun h c' hc' => ?_⟩
        · exact ⟨c.system, (hfirst h).life⟩
        · cases hc'
          exact hfirst h

/-! ## Numbered circuits -/

/-- A compiled circuit with its number. -/
structure Numbered where
  number : Nat
  circuit : Compiled

/-- A run with a circuit, told its number. -/
def Numbered.run {τ : Type} (r : Nat → Run (Compiled × τ) α) : Run (Numbered × τ) α :=
  Run.ofStep fun x =>
    let out := (r x.1.number).exec (x.1.circuit, x.2)
    (out.1, (⟨x.1.number, out.2.1⟩, out.2.2))

/-- The direct backend with its circuits numbered and its calls recorded. -/
def numbered (settings : Settings) : ProvingSystem (σ × Record) Numbered where
  name := (system E settings).name
  compile source options := Run.ofStep fun w =>
    let n := w.2.count
    let out := ((system (E.recording n) settings).compile source options).exec
      (w.1, { w.2 with count := n + 1 })
    (out.1.map (Numbered.mk n), out.2)
  info c := (system E settings).info c.circuit
  prove inputs := Numbered.run fun n => (system (E.recording n) settings).prove inputs
  verify proof inputs := Numbered.run fun n => (system (E.recording n) settings).verify proof inputs
  verifyingKey := Numbered.run fun n => (system (E.recording n) settings).verifyingKey

/-- A numbered circuit and the engine, without number and record. -/
def Numbered.view (x : Numbered × (σ × Record)) : Compiled × σ := (x.1.circuit, x.2.1)

/-- What may happen while a numbered circuit is at work. -/
def Numbered.Works (x x' : Numbered × (σ × Record)) : Prop :=
  x'.1.number = x.1.number ∧
    Direct.Works x.1.number (x.1.circuit, x.2) (x'.1.circuit, x'.2)

instance : IsPreorder (Numbered × (σ × Record)) Numbered.Works where
  refl _ := ⟨rfl, refl_of (Works _) _⟩
  trans _ _ _ h h' := ⟨h'.1.trans h.1, trans_of (Works _) h.2 (h.1 ▸ h'.2)⟩

theorem Numbered.tracks_run {r : Nat → Run (Compiled × (σ × Record)) α} {q : Run (Compiled × σ) α}
    (h : ∀ n x, Tracks Direct.view (Direct.Works n) x (r n) q) (x : Numbered × (σ × Record)) :
    Tracks Numbered.view Numbered.Works x (Numbered.run r) q :=
  ⟨(h x.1.number (x.1.circuit, x.2)).exec_view, rfl, (h x.1.number (x.1.circuit, x.2)).related⟩

end ArrowCircuit.Direct
