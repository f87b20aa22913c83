import Arti.Llcrypto.Base64

/-! # Ed25519 identities and batch validation

`tor-llcrypto/src/pk/ed25519.rs`. The curve arithmetic of `ed25519_dalek` is
outside the model: a signature check and a batch check are parameters.
-/

namespace Arti.Llcrypto
set_option autoImplicit false

open Arti.Bytes

/-- `Ed25519Identity`: an unchecked 32-byte key. Its `PartialEq`, the
constant-time `ct_eq` of `subtle`, decides byte equality. -/
structure Ed25519Identity where
  id : Mathlib.Vector Byte 32
  deriving DecidableEq

/-- `Ed25519Identity::new`. -/
def Ed25519Identity.new (id : Mathlib.Vector Byte 32) : Ed25519Identity := ⟨id⟩

/-- `Ed25519Identity::from_slice`; `array_ref!(id, 0, 32)` of a slice of 32
bytes is the slice itself. -/
def Ed25519Identity.fromSlice (id : List Byte) : Option Ed25519Identity :=
  if h : id.length = 32 then some (Ed25519Identity.new ⟨id, h⟩) else none

/-- `Display for Ed25519Identity`: the 32 bytes in base64 with the configuration
`STANDARD_NO_PAD`. -/
def Ed25519Identity.display (i : Ed25519Identity) : String := ⟨encodeNoPad i.id.toList⟩

/-- `Debug for Ed25519Identity`: the `Display` form inside `Ed25519Identity { … }`. -/
def Ed25519Identity.debug (i : Ed25519Identity) : String :=
  "Ed25519Identity \x7b " ++ i.display ++ " \x7d"

/-- `ValidatableEd25519Signature`: a key, a signature, and the whole text it
allegedly signs. -/
structure ValidatableEd25519Signature (PK Sig : Type) where
  key : PK
  sig : Sig
  text : List Byte

section Batch

variable {PK Sig : Type} (verify : PK → List Byte → Sig → Bool)
  (verifyBatch : List (List Byte) → List Sig → List PK → Bool)

/-- `is_valid`: `self.key.verify(&text[..], &self.sig).is_ok()`, with `verify`
the check of `ed25519_dalek`. -/
def ValidatableEd25519Signature.isValid (s : ValidatableEd25519Signature PK Sig) : Bool :=
  verify s.key s.text s.sig

/-- The loop of `validate_batch` that pushes each signature's parts. -/
def batchParts (acc : List (List Byte) × List Sig × List PK) :
    List (ValidatableEd25519Signature PK Sig) → List (List Byte) × List Sig × List PK
  | [] => acc
  | s :: sigs => batchParts (acc.1 ++ [s.text], acc.2.1 ++ [s.sig], acc.2.2 ++ [s.key]) sigs

/-- `validate_batch`: true on no signature, `is_valid` on one, and otherwise
`ed25519_dalek::verify_batch` on the messages, signatures and keys. -/
def validateBatch (sigs : List (ValidatableEd25519Signature PK Sig)) : Bool :=
  match sigs with
  | [] => true
  | [s] => s.isValid verify
  | _ =>
    let (edMsgs, edSigs, edPks) := batchParts ([], [], []) sigs
    verifyBatch edMsgs edSigs edPks

end Batch

/-! ## Identities -/

/-- An identity's text form is 43 characters of the base64 alphabet, and two
identities with the same text form, or the same debug form, are the same identity. -/
theorem identity_display_faithful (i j : Ed25519Identity) :
    i.display.length = 43 ∧ (∀ c ∈ i.display.toList, c ∈ standardAlphabet) ∧
      (i.display = j.display → i = j) ∧ (i.debug = j.debug → i = j) := by
  have hDisplay : i.display = j.display → i = j := fun h => by
    obtain ⟨⟨l, hl⟩⟩ := i
    obtain ⟨⟨l', hl'⟩⟩ := j
    obtain rfl : l = l' := encodeNoPad_injective (congrArg String.data h)
    rfl
  refine ⟨?_, fun c hc => mem_encodeNoPad hc, hDisplay, fun h => hDisplay ?_⟩
  · simp only [String.length, Ed25519Identity.display, length_encodeNoPad,
      Mathlib.Vector.toList_length]
  · have hData := congrArg String.data h
    simp only [Ed25519Identity.debug, String.data_append, List.append_cancel_left_eq,
      List.append_cancel_right_eq] at hData
    exact String.ext hData

example : (Ed25519Identity.new (Mathlib.Vector.replicate 32 0x20)).display =
    "ICAgICAgICAgICAgICAgICAgICAgICAgICAgICAgICA" := by
  decide

end Arti.Llcrypto
