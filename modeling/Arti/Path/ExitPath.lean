import Arti.Llcrypto.Ed25519

/-! # Paths to an exit relay

`TorPath` of `tor-circmgr/src/path.rs` and `ExitPathBuilder` of
`path/exitpath.rs`. The directory and the relays are outside the model: what
the path code reads of a relay is a `RelayView`, and `NetDir::pick_relay`
draws a relay for a role among those a predicate admits, advancing the random
source. `build_circuit` is the calls it makes: the channel manager, the channel
and the handshakes are outside the model, `ok` says which of their calls
succeed, and the first that fails ends the build with its error. The spawned
reactor task makes no call that can fail and is left out.
-/

namespace Arti.Path
set_option autoImplicit false

open Arti.Llcrypto

/-- What the path code reads of a `Relay` and a `TargetPort`. -/
structure RelayView (Relay Port : Type) where
  edIdentity : Relay → Ed25519Identity
  inSameFamily : Relay → Relay → Bool
  isSupportedBy : Port → Relay → Bool

/-- `tor_netdir::WeightRole`. -/
inductive WeightRole
  | guard
  | middle
  | exit
  deriving DecidableEq, Repr

/-- A directory snapshot: `pick_relay(rng, role, predicate)`. -/
structure NetDir (Relay R : Type) where
  pickRelay : R → WeightRole → (Relay → Bool) → Option Relay × R

/-- `DirInfo`: fallback directories before a consensus, or a directory. -/
inductive DirInfo (Relay R Fallback : Type)
  | fallbacks (dirs : List Fallback)
  | directory (netdir : NetDir Relay R)

/-- `TorPath`. -/
inductive TorPath (Relay Fallback : Type)
  | oneHop (relay : Relay)
  | fallbackOneHop (dir : Fallback)
  | path (relays : List Relay)

/-- Modelled from the spec: `TorPath::new_multihop`, the multi-hop path of the
given relays. -/
def TorPath.newMultihop {Relay Fallback : Type} (relays : List Relay) : TorPath Relay Fallback :=
  .path relays

/-- The errors of `tor-circmgr` the path code raises. -/
inductive PathError
  | needConsensus
  | noRelays (msg : String)
  deriving DecidableEq, Repr

/-- `TorPath::first_hop`: the channel target of the first hop, a relay or a
fallback directory. -/
def TorPath.firstHop {Relay Fallback : Type} : TorPath Relay Fallback → Except PathError (Relay ⊕ Fallback)
  | .oneHop r => .ok (.inl r)
  | .fallbackOneHop f => .ok (.inr f)
  | .path [] => .error (.noRelays "Path with no entries!")
  | .path (r :: _) => .ok (.inl r)

/-- The calls `build_circuit` makes on its collaborators:
`chanmgr.get_or_launch(first_hop)` inside `get_channel`, `chan.new_circ`,
`pcirc.create_firsthop_fast`, `pcirc.create_firsthop_ntor` and
`circ.extend_ntor`. -/
inductive CircCall (Relay Fallback : Type)
  | getOrLaunch (target : Relay ⊕ Fallback)
  | newCirc
  | createFirsthopFast
  | createFirsthopNtor (relay : Relay)
  | extendNtor (relay : Relay)
  deriving DecidableEq, Repr

/-- How a build ends: with a circuit, with the error of `first_hop`, with the
error of a call that failed, or with a panic of `&p[0]`. -/
inductive BuildOutcome (Relay Fallback : Type)
  | built
  | pathError (e : PathError)
  | callFailed (call : CircCall Relay Fallback)
  | panic
  deriving DecidableEq, Repr

section Build

variable {Relay Fallback : Type} (ok : CircCall Relay Fallback → Bool)

/-- Calls made in order, each with its `?`: the calls made and how they ended. -/
def runCalls : List (CircCall Relay Fallback) →
    List (CircCall Relay Fallback) × BuildOutcome Relay Fallback
  | [] => ([], .built)
  | c :: cs =>
    if ok c then
      let (made, out) := runCalls cs
      (c :: made, out)
    else ([c], .callFailed c)

/-- The handshakes of `build_circuit` for each kind of path; `none` for the
panic of `&p[0]` on an empty path. -/
def TorPath.handshakes : TorPath Relay Fallback → Option (List (CircCall Relay Fallback))
  | .oneHop _ => some [.createFirsthopFast]
  | .fallbackOneHop _ => some [.createFirsthopFast]
  | .path [] => none
  | .path (r :: rs) => some (.createFirsthopNtor r :: rs.map .extendNtor)

/-- `TorPath::build_circuit`: the calls it makes, in order, and how it ends. -/
def TorPath.buildCircuit (p : TorPath Relay Fallback) :
    List (CircCall Relay Fallback) × BuildOutcome Relay Fallback :=
  match p.firstHop with
  | .error e => ([], .pathError e)
  | .ok target =>
    match runCalls ok [.getOrLaunch target, .newCirc] with
    | (made, .built) =>
      match p.handshakes with
      | some hs =>
        let (made', out) := runCalls ok hs
        (made ++ made', out)
      | none => (made, .panic)
    | failed => failed

end Build

/-- `ExitPathBuilderInner`. -/
inductive ExitPathBuilderInner (Relay Port : Type)
  | wantsPorts (ports : List Port)
  | chosenExit (relay : Relay)

section Builder

variable {Relay Port R Fallback : Type} (V : RelayView Relay Port)

/-- `ExitPathBuilder::pick_exit`. -/
def pickExit (b : ExitPathBuilderInner Relay Port) (rng : R) (netdir : NetDir Relay R) :
    Except PathError Relay × R :=
  match b with
  | .wantsPorts ports =>
    match netdir.pickRelay rng .exit (fun r => ports.all fun p => V.isSupportedBy p r) with
    | (some r, rng) => (.ok r, rng)
    | (none, rng) => (.error (.noRelays "No exit relay found"), rng)
  | .chosenExit r => (.ok r, rng)

/-- `ExitPathBuilder::pick_path`, returning the random source as it leaves it. -/
def pickPath (b : ExitPathBuilderInner Relay Port) (rng : R) :
    DirInfo Relay R Fallback → Except PathError (TorPath Relay Fallback) × R
  | .fallbacks _ => (.error .needConsensus, rng)
  | .directory netdir =>
    match pickExit V b rng netdir with
    | (.error e, rng) => (.error e, rng)
    | (.ok exit, rng) =>
      match netdir.pickRelay rng .middle (fun r => !V.inSameFamily r exit) with
      | (none, rng) => (.error (.noRelays "No middle relay found"), rng)
      | (some middle, rng) =>
        match netdir.pickRelay rng .guard
            (fun r => !V.inSameFamily r middle && !V.inSameFamily r exit) with
        | (none, rng) => (.error (.noRelays "No entry relay found"), rng)
        | (some entry, rng) => (.ok (TorPath.newMultihop [entry, middle, exit]), rng)

end Builder

/-- `pick_relay` returns only relays its predicate admits. -/
def NetDir.PicksAdmitted {Relay R : Type} (netdir : NetDir Relay R) : Prop :=
  ∀ rng role pred r rng', netdir.pickRelay rng role pred = (some r, rng') → pred r = true

/-! ## Exit paths -/

section Proofs

variable {Relay Port R Fallback : Type} {V : RelayView Relay Port}

/-- What a successful `pick_path` has done: three draws from a directory. -/
theorem pickPath_ok_inv {b : ExitPathBuilderInner Relay Port} {rng rng' : R}
    {dirInfo : DirInfo Relay R Fallback} {p : TorPath Relay Fallback}
    (hOk : pickPath V b rng dirInfo = (.ok p, rng')) :
    ∃ netdir exit middle entry rng₁ rng₂, dirInfo = .directory netdir ∧
      pickExit V b rng netdir = (.ok exit, rng₁) ∧
      netdir.pickRelay rng₁ .middle (fun r => !V.inSameFamily r exit) = (some middle, rng₂) ∧
      netdir.pickRelay rng₂ .guard
        (fun r => !V.inSameFamily r middle && !V.inSameFamily r exit) = (some entry, rng') ∧
      p = .path [entry, middle, exit] := by
  rcases dirInfo with dirs | netdir
  · simp [pickPath] at hOk
  simp only [pickPath] at hOk
  rcases hExit : pickExit V b rng netdir with ⟨_ | exit, rng₁⟩ <;> simp only [hExit] at hOk
  · simp at hOk
  rcases hMiddle : netdir.pickRelay rng₁ .middle (fun r => !V.inSameFamily r exit) with
    ⟨_ | middle, rng₂⟩ <;> simp only [hMiddle] at hOk
  · simp at hOk
  rcases hEntry : netdir.pickRelay rng₂ .guard
    (fun r => !V.inSameFamily r middle && !V.inSameFamily r exit) with
    ⟨_ | entry, rng₃⟩ <;> simp only [hEntry, Prod.mk.injEq, Except.ok.injEq, reduceCtorEq,
      false_and] at hOk
  obtain ⟨rfl, rfl⟩ := hOk
  exact ⟨netdir, exit, middle, entry, rng₁, rng₂, rfl, hExit, hMiddle, hEntry, rfl⟩

theorem pickExit_ok {b : ExitPathBuilderInner Relay Port} {rng rng₁ : R} {netdir : NetDir Relay R}
    {exit : Relay} (hPick : netdir.PicksAdmitted) (hExit : pickExit V b rng netdir = (.ok exit, rng₁)) :
    (∀ ports, b = .wantsPorts ports → ∀ port ∈ ports, V.isSupportedBy port exit = true) ∧
      (∀ r, b = .chosenExit r → exit = r) := by
  rcases b with ports | r
  · simp only [pickExit] at hExit
    rcases hDraw : netdir.pickRelay rng .exit (fun r => ports.all fun p => V.isSupportedBy p r) with
      ⟨_ | x, rng₂⟩ <;> simp only [hDraw, Prod.mk.injEq, Except.ok.injEq, reduceCtorEq,
        false_and] at hExit
    obtain ⟨rfl, -⟩ := hExit
    refine ⟨fun ports' hb port hport => ?_, fun _ hb => (by cases hb)⟩
    cases hb
    exact List.all_eq_true.mp (hPick _ _ _ _ _ hDraw) port hport
  · simp only [pickExit, Prod.mk.injEq, Except.ok.injEq] at hExit
    exact ⟨fun _ hb => (by cases hb), fun _ hb => (by cases hb; exact hExit.1.symm)⟩

/-- Four relays, each its own family, with a directory that draws the first
relay a predicate admits. -/
def fourRelays : RelayView Arti.Bytes.Byte Nat :=
  ⟨fun r => ⟨⟨List.replicate 32 r, List.length_replicate 32 r⟩⟩, fun a c => decide (a = c),
    fun _ _ => true⟩

/-- The directory of `fourRelays`. -/
def fourRelayDir : NetDir Arti.Bytes.Byte Unit := ⟨fun _ _ pred => ([0, 1, 2, 3].find? pred, ())⟩

/-- A path that `pick_path` returns is `[entry, middle, exit]`: three relays with
distinct identities, no two of one family, whose exit supports every wanted
port or is the chosen exit. -/
theorem pick_path_exit_path_ok (b : ExitPathBuilderInner Relay Port) (rng rng' : R)
    (dirInfo : DirInfo Relay R Fallback) (p : TorPath Relay Fallback)
    (hPick : ∀ netdir, dirInfo = .directory netdir → netdir.PicksAdmitted)
    (hFamily : ∀ a c, V.edIdentity a = V.edIdentity c → V.inSameFamily a c = true)
    (hOk : pickPath V b rng dirInfo = (.ok p, rng')) :
    ∃ entry middle exit, p = .path [entry, middle, exit] ∧
      V.edIdentity entry ≠ V.edIdentity middle ∧ V.edIdentity entry ≠ V.edIdentity exit ∧
      V.edIdentity middle ≠ V.edIdentity exit ∧
      V.inSameFamily entry middle = false ∧ V.inSameFamily entry exit = false ∧
      V.inSameFamily middle exit = false ∧
      (∀ ports, b = .wantsPorts ports → ∀ port ∈ ports, V.isSupportedBy port exit = true) ∧
      (∀ r, b = .chosenExit r → exit = r) := by
  obtain ⟨netdir, exit, middle, entry, rng₁, rng₂, rfl, hExit, hMiddle, hEntry, rfl⟩ :=
    pickPath_ok_inv hOk
  have hAdmit := hPick netdir rfl
  have hm : V.inSameFamily middle exit = false := by
    simpa using hAdmit _ _ _ _ _ hMiddle
  have he : V.inSameFamily entry middle = false ∧ V.inSameFamily entry exit = false := by
    simpa using hAdmit _ _ _ _ _ hEntry
  have hDistinct : ∀ a c, V.inSameFamily a c = false → V.edIdentity a ≠ V.edIdentity c :=
    fun a c hNot hEq => by simp [hFamily a c hEq] at hNot
  exact ⟨entry, middle, exit, rfl, hDistinct _ _ he.1, hDistinct _ _ he.2, hDistinct _ _ hm,
    he.1, he.2, hm, pickExit_ok hAdmit hExit⟩

theorem pick_path_exit_path_ok_four_relays :
    fourRelayDir.PicksAdmitted ∧
      (∀ a c, fourRelays.edIdentity a = fourRelays.edIdentity c →
        fourRelays.inSameFamily a c = true) ∧
      pickPath fourRelays (.wantsPorts [443]) ()
          (.directory fourRelayDir : DirInfo Arti.Bytes.Byte Unit Unit) = (.ok (.path [2, 1, 0]), ()) ∧
      fourRelays.edIdentity 2 ≠ fourRelays.edIdentity 0 := by
  have hPick : fourRelayDir.PicksAdmitted := fun _ _ _ _ _ h => List.find?_some (Prod.mk.inj h).1
  have hFamily : ∀ a c, fourRelays.edIdentity a = fourRelays.edIdentity c →
      fourRelays.inSameFamily a c = true := by
    intro a c h
    have hHead := congrArg (fun i => i.id.toList.head?) h
    simpa [fourRelays] using hHead
  have hOk : pickPath fourRelays (.wantsPorts [443]) ()
      (.directory fourRelayDir : DirInfo Arti.Bytes.Byte Unit Unit) = (.ok (.path [2, 1, 0]), ()) :=
    rfl
  obtain ⟨e, m, x, hp, -, hex, -⟩ :=
    pick_path_exit_path_ok _ _ _ _ _ (fun _ h => by cases h; exact hPick) hFamily hOk
  cases hp
  exact ⟨hPick, hFamily, hOk, hex⟩

end Proofs

end Arti.Path
