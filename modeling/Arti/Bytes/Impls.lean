import Arti.Bytes.Codec

/-! # The codecs of `impls.rs`

The types whose reader makes no cryptographic check, gathered in a universe
`Ty` so that `GenericArray` can nest them. Each is a fixed-width codec; the
Ed25519 readers, which validate, are the section at the end.
-/

namespace Arti.Bytes
set_option autoImplicit false

/-- `std::net::Ipv4Addr` and `Ipv6Addr`: `k` octets. -/
structure Octets (k : Nat) where
  octets : Mathlib.Vector Byte k
  deriving DecidableEq

/-- `From<u32> for Ipv4Addr` and `From<u128> for Ipv6Addr`: the octets are the
big-endian bytes of the number. -/
def Octets.ofBits {k : Nat} (v : Word k) : Octets k := ⟨⟨beBytes k v.val, length_beBytes k _⟩⟩

/-- `net_impls`: `b.write_all(&self.octets()[..])`. -/
def Octets.writeOnto {k : Nat} (a : Octets k) (b : List Byte) : List Byte :=
  writeAll b a.octets.toList

/-- `net_impls`: `Ok(r.take_u32()?.into())`, and `take_u128` for IPv6. -/
def Octets.takeFrom (k : Nat) (r : Reader) : Except Error (Octets k × Reader) := do
  let (v, r) ← takeU k r
  pure (Octets.ofBits v, r)

/-- `From<Ipv4Addr> for u32`: the number whose big-endian bytes are the octets. -/
def Octets.toBits {k : Nat} (a : Octets k) : Word k := Fin.ofNat' _ (beValue a.octets.toList)

/-- `curve25519::PublicKey`, held as its 32 bytes. -/
structure Curve25519PublicKey where
  bytes : Mathlib.Vector Byte 32
  deriving DecidableEq

/-- `Writeable for PublicKey`: `b.write_all(self.as_bytes())`. -/
def Curve25519PublicKey.writeOnto (k : Curve25519PublicKey) (b : List Byte) : List Byte :=
  writeAll b k.bytes.toList

/-- `Readable for PublicKey`: `Ok((*array_ref![bytes, 0, 32]).into())`. -/
def Curve25519PublicKey.takeFrom (r : Reader) : Except Error (Curve25519PublicKey × Reader) := do
  let (bytes, r) ← r.take 32
  let a ← arrayRef bytes 32
  pure (⟨a⟩, r)

/-- Modelled from the spec: `rsa::RSAIdentity`, `RSA_ID_LEN` bytes. -/
structure RSAIdentity (idLen : Nat) where
  id : Mathlib.Vector Byte idLen
  deriving DecidableEq

/-- Modelled from the spec: `RSAIdentity::from_bytes`, `None` unless the slice
has `RSA_ID_LEN` bytes. -/
def RSAIdentity.fromBytes {idLen : Nat} (m : List Byte) : Option (RSAIdentity idLen) :=
  if h : m.length = idLen then some ⟨⟨m, h⟩⟩ else none

/-- `Writeable for RSAIdentity`: `b.write_all(self.as_bytes())`. -/
def RSAIdentity.writeOnto {idLen : Nat} (i : RSAIdentity idLen) (b : List Byte) : List Byte :=
  writeAll b i.id.toList

/-- `Readable for RSAIdentity`. -/
def RSAIdentity.takeFrom (idLen : Nat) (r : Reader) : Except Error (RSAIdentity idLen × Reader) := do
  let (m, r) ← r.take idLen
  match RSAIdentity.fromBytes m with
  | some i => pure (i, r)
  | none => throw (.panic "take gave wrong length")

/-- `crypto_mac::MacResult<N>`: its code, a `GenericArray<u8, N>`. -/
structure MacResult (n : Nat) where
  code : Mathlib.Vector (Word 1) n

/-- `WriteableOnce for MacResult<N>`: `b.write(&code[..])`, the code as a byte slice. -/
def MacResult.writeInto {n : Nat} (m : MacResult n) (b : List Byte) : List Byte :=
  writeAll b m.code.toList

/-- `Readable for MacResult<N>`: `GenericArray::take_from(b)?`, then `MacResult::new`. -/
def MacResult.takeFrom (n : Nat) (r : Reader) : Except Error (MacResult n × Reader) := do
  let (array, r) ← GenericArray.takeFrom (takeU 1) n r
  pure (⟨array⟩, r)

/-- The types of `impls.rs` whose reader makes no cryptographic check. -/
inductive Ty
  | u8 | u16 | u32 | u64 | u128
  | ipv4Addr | ipv6Addr
  | u8Array16 | u8Array20 | u8Array32
  | curve25519PublicKey
  | rsaIdentity (idLen : Nat)
  | macResult (n : Nat)
  | genericArray (t : Ty) (n : Nat)
  deriving DecidableEq, Repr

/-- The Rust type a code names. -/
def Ty.denote : Ty → Type
  | .u8 => Word 1
  | .u16 => Word 2
  | .u32 => Word 4
  | .u64 => Word 8
  | .u128 => Word 16
  | .ipv4Addr => Octets 4
  | .ipv6Addr => Octets 16
  | .u8Array16 => Mathlib.Vector Byte 16
  | .u8Array20 => Mathlib.Vector Byte 20
  | .u8Array32 => Mathlib.Vector Byte 32
  | .curve25519PublicKey => Curve25519PublicKey
  | .rsaIdentity idLen => RSAIdentity idLen
  | .macResult n => MacResult n
  | .genericArray t n => Mathlib.Vector t.denote n

/-- The encoded width `W(T)`. -/
def Ty.width : Ty → Nat
  | .u8 => 1
  | .u16 => 2
  | .u32 => 4
  | .u64 => 8
  | .u128 => 16
  | .ipv4Addr => 4
  | .ipv6Addr => 16
  | .u8Array16 => 16
  | .u8Array20 => 20
  | .u8Array32 => 32
  | .curve25519PublicKey => 32
  | .rsaIdentity idLen => idLen
  | .macResult n => n
  | .genericArray t n => n * t.width

/-- `Writeable::write_onto` (`WriteableOnce::write_into` for `MacResult`). -/
def Ty.writeOnto : (t : Ty) → t.denote → List Byte → List Byte
  | .u8 => writeU 1
  | .u16 => writeU 2
  | .u32 => writeU 4
  | .u64 => writeU 8
  | .u128 => writeU 16
  | .ipv4Addr => Octets.writeOnto
  | .ipv6Addr => Octets.writeOnto
  | .u8Array16 => writeBytes 16
  | .u8Array20 => writeBytes 20
  | .u8Array32 => writeBytes 32
  | .curve25519PublicKey => Curve25519PublicKey.writeOnto
  | .rsaIdentity _ => RSAIdentity.writeOnto
  | .macResult _ => MacResult.writeInto
  | .genericArray t _ => GenericArray.writeOnto t.writeOnto

/-- `Readable::take_from`. -/
def Ty.takeFrom : (t : Ty) → Reader → Except Error (t.denote × Reader)
  | .u8 => takeU 1
  | .u16 => takeU 2
  | .u32 => takeU 4
  | .u64 => takeU 8
  | .u128 => takeU 16
  | .ipv4Addr => Octets.takeFrom 4
  | .ipv6Addr => Octets.takeFrom 16
  | .u8Array16 => takeBytes 16
  | .u8Array20 => takeBytes 20
  | .u8Array32 => takeBytes 32
  | .curve25519PublicKey => Curve25519PublicKey.takeFrom
  | .rsaIdentity idLen => RSAIdentity.takeFrom idLen
  | .macResult n => MacResult.takeFrom n
  | .genericArray t n => GenericArray.takeFrom t.takeFrom n

/-! ## Every type is a fixed-width codec -/

theorem Octets.ofBits_toBits {k : Nat} (a : Octets k) : Octets.ofBits a.toBits = a := by
  obtain ⟨⟨l, rfl⟩⟩ := a
  have hLt := beValue_lt l
  simp only [Octets.ofBits, Octets.toBits, Mathlib.Vector.toList_mk, Fin.val_ofNat',
    Nat.mod_eq_of_lt hLt, beBytes_beValue]

theorem Octets.toBits_ofBits {k : Nat} (v : Word k) : (Octets.ofBits v).toBits = v :=
  Fin.ext (by simp [Octets.ofBits, Octets.toBits, beValue_beBytes, Nat.mod_eq_of_lt v.isLt])

/-- The octets an address writes are the big-endian bytes its reader takes. -/
theorem fixedWidth_octets (k : Nat) : FixedWidth k Octets.writeOnto (Octets.takeFrom k) :=
  ((fixedWidth_u k).map Octets.ofBits Octets.toBits Octets.ofBits_toBits Octets.toBits_ofBits).congr
    (fun a b => by conv_lhs => rw [← Octets.ofBits_toBits a]
                   rfl)
    (fun r => by unfold Octets.takeFrom; cases takeU k r <;> rfl)

theorem fixedWidth_curve25519PublicKey :
    FixedWidth 32 Curve25519PublicKey.writeOnto Curve25519PublicKey.takeFrom :=
  ((fixedWidth_bytes 32).map Curve25519PublicKey.mk Curve25519PublicKey.bytes (fun _ => rfl)
    (fun _ => rfl)).congr (fun _ _ => rfl) fun r => by
      unfold Curve25519PublicKey.takeFrom takeBytes
      rcases r.take 32 with e | ⟨bytes, r'⟩
      · rfl
      · simp only [bind, Except.bind]
        cases arrayRef bytes 32 <;> rfl

theorem fixedWidth_rsaIdentity (idLen : Nat) :
    FixedWidth idLen RSAIdentity.writeOnto (RSAIdentity.takeFrom idLen) where
  write_append i b := by simp [RSAIdentity.writeOnto, writeAll]
  length_write i := by simp [RSAIdentity.writeOnto, writeAll]
  write_surj l hLen := ⟨⟨⟨l, hLen⟩⟩, by simp [RSAIdentity.writeOnto, writeAll]⟩
  take_write i rest := by
    obtain ⟨⟨l, rfl⟩⟩ := i
    simp [RSAIdentity.takeFrom, RSAIdentity.writeOnto, writeAll, RSAIdentity.fromBytes, bind,
      Except.bind, pure, Except.pure]
  take_short r hShort := by
    simp [RSAIdentity.takeFrom, Reader.take_short hShort, bind, Except.bind]

theorem writeU_one (x : Word 1) : writeU 1 x [] = [x] := by
  simp only [writeU, writeAll, beBytes, List.nil_append, List.cons.injEq, and_true]
  exact Fin.ext (by simp [Nat.mod_eq_of_lt (show x.val < 256 from x.isLt)])

theorem fixedWidth_macResult (n : Nat) :
    FixedWidth n MacResult.writeInto (MacResult.takeFrom n) := by
  have h : FixedWidth (n * 1) MacResult.writeInto (MacResult.takeFrom n) :=
    (((fixedWidth_u 1).genericArray n).map MacResult.mk MacResult.code (fun _ => rfl)
      (fun _ => rfl)).congr
    (fun m b => by
      simp [GenericArray.writeOnto, (fixedWidth_u 1).foldl_write, writeU_one, MacResult.writeInto,
        writeAll, ← List.flatMap_def])
    (fun r => by
      unfold MacResult.takeFrom
      cases GenericArray.takeFrom (takeU 1) n r <;> rfl)
  rwa [Nat.mul_one] at h

/-- Each type of the universe is a fixed-width codec of its width. -/
theorem Ty.fixedWidth : (t : Ty) → FixedWidth t.width t.writeOnto t.takeFrom
  | .u8 => fixedWidth_u 1
  | .u16 => fixedWidth_u 2
  | .u32 => fixedWidth_u 4
  | .u64 => fixedWidth_u 8
  | .u128 => fixedWidth_u 16
  | .ipv4Addr => fixedWidth_octets 4
  | .ipv6Addr => fixedWidth_octets 16
  | .u8Array16 => fixedWidth_bytes 16
  | .u8Array20 => fixedWidth_bytes 20
  | .u8Array32 => fixedWidth_bytes 32
  | .curve25519PublicKey => fixedWidth_curve25519PublicKey
  | .rsaIdentity idLen => fixedWidth_rsaIdentity idLen
  | .macResult n => fixedWidth_macResult n
  | .genericArray t n => (Ty.fixedWidth t).genericArray n

/-- Every type of `impls.rs` without a cryptographic check reads back what it
writes. The writer appends `W(T)` bytes, `N * W(T')` for a `GenericArray`; the
reader returns `v` from `write(v) ++ rest` and leaves `rest`; on any input it
succeeds exactly when `W(T)` bytes remain, then consumes the encoding of what it
returns, and otherwise fails with "truncated", never panicking; and values
written one after another are read back in order. -/
theorem codec_round_trip (t : Ty) :
    (∀ v b, t.writeOnto v b = b ++ t.writeOnto v [] ∧ (t.writeOnto v []).length = t.width) ∧
    (∀ n (a : (Ty.genericArray t n).denote),
      ((Ty.genericArray t n).writeOnto a []).length = n * t.width) ∧
    (∀ v rest, t.takeFrom ⟨t.writeOnto v [] ++ rest⟩ = .ok (v, ⟨rest⟩)) ∧
    (∀ r : Reader, ((∃ p, t.takeFrom r = .ok p) ↔ t.width ≤ r.rest.length) ∧
      (∀ v r', t.takeFrom r = .ok (v, r') → r.rest = t.writeOnto v [] ++ r'.rest) ∧
      (∀ e, t.takeFrom r = .error e → e = .badMessage "truncated")) ∧
    (∀ (vs : List t.denote) rest, GenericArray.takeLoop t.takeFrom vs.length []
      ⟨vs.foldl (fun b v => t.writeOnto v b) [] ++ rest⟩ = .ok (vs, ⟨rest⟩)) := by
  have h := Ty.fixedWidth t
  refine ⟨fun v b => ⟨h.write_append v b, h.length_write v⟩,
    fun n a => (Ty.fixedWidth (.genericArray t n)).length_write a, h.take_write,
    fun r => ⟨h.take_ok_iff r, fun v r' => h.eq_of_take, fun e => h.error_of_take⟩,
    fun vs rest => ?_⟩
  rw [h.foldl_write, List.nil_append, h.takeLoop_write, List.nil_append]

/-! ## Readers that agree

`impls.rs` keeps in a comment the `GenericArray<u8, N>` codec it would write
were Rust to allow specialisation: one `take(N)` and one `write_all`. The
generic codec, item by item, behaves the same on every input; and the address
readers, which go through `take_u32` or `take_u128` and back to octets, read
the octets directly. -/

/-- The commented `Readable for GenericArray<u8, N>`: `Self::from_slice(b.take(N)?)`. -/
def GenericArray.takeBytesFrom (n : Nat) (r : Reader) :
    Except Error (Mathlib.Vector Byte n × Reader) := do
  let (bytes, r) ← r.take n
  let a ← GenericArray.fromSlice n bytes
  pure (a, r)

/-- The commented `Writeable for GenericArray<u8, N>`: `b.write_all(self.as_slice())`. -/
def GenericArray.writeBytesOnto {n : Nat} (v : Mathlib.Vector Byte n) (b : List Byte) :
    List Byte :=
  writeAll b v.toList

theorem fixedWidth_takeBytesFrom (n : Nat) :
    FixedWidth n GenericArray.writeBytesOnto (GenericArray.takeBytesFrom n) :=
  (fixedWidth_bytes n).congr (fun _ _ => rfl) fun r => by
    unfold GenericArray.takeBytesFrom takeBytes
    rcases h : r.take n with e | ⟨bytes, r'⟩
    · rfl
    · obtain ⟨hLen, rfl, -⟩ := Reader.take_eq_ok.mp h
      simp [bind, Except.bind, GenericArray.fromSlice, arrayRef, hLen, List.take_take]

theorem GenericArray.writeOnto_u8 {n : Nat} (v : Mathlib.Vector Byte n) (b : List Byte) :
    GenericArray.writeOnto (writeU 1) v b = GenericArray.writeBytesOnto v b := by
  simp [GenericArray.writeOnto, (fixedWidth_u 1).foldl_write, writeU_one,
    GenericArray.writeBytesOnto, writeAll, ← List.flatMap_def]

/-- The generic `GenericArray<u8, N>` reader, one `take_u8` per item, succeeds
exactly where the commented specialisation does, with the same array and the
same remaining input, and otherwise fails with the same error; its writer writes
what the specialisation writes; the `Ipv4Addr` and `Ipv6Addr` readers return the
octets they take. -/
theorem generic_byte_array_agrees (n k : Nat) :
    (∀ r p, GenericArray.takeFrom (takeU 1) n r = .ok p ↔ GenericArray.takeBytesFrom n r = .ok p) ∧
      (∀ r e, GenericArray.takeFrom (takeU 1) n r = .error e ↔
        GenericArray.takeBytesFrom n r = .error e) ∧
      (∀ (v : Mathlib.Vector Byte n) b,
        GenericArray.writeOnto (writeU 1) v b = GenericArray.writeBytesOnto v b) ∧
      ∀ r, Octets.takeFrom k r = (takeBytes k r).map fun p => (⟨p.1⟩, p.2) := by
  have hArray : FixedWidth (n * 1) GenericArray.writeBytesOnto (GenericArray.takeFrom (takeU 1) n) :=
    ((fixedWidth_u 1).genericArray n).congr (fun v b => (GenericArray.writeOnto_u8 v b).symm)
      fun _ => rfl
  rw [Nat.mul_one] at hArray
  have hTake := hArray.take_unique (fixedWidth_takeBytesFrom n)
  have hOctets : FixedWidth k Octets.writeOnto fun r => (takeBytes k r).map fun p => (⟨p.1⟩, p.2) :=
    ((fixedWidth_bytes k).map Octets.mk Octets.octets (fun _ => rfl) fun _ => rfl).congr
      (fun _ _ => rfl) fun _ => rfl
  exact ⟨fun _ _ => by rw [hTake], fun _ _ => by rw [hTake], GenericArray.writeOnto_u8,
    congrFun ((fixedWidth_octets k).take_unique hOctets)⟩

/-! ## The Ed25519 readers -/

section Ed25519

variable {K : Type}

/-- `ed25519_impls`: `let bytes = b.take(n)?;`, then the check `from_bytes` of
`ed25519_dalek` on `array_ref![bytes, 0, n]`, its error mapped to
`BadMessage(msg)`. -/
def takeValidated (n : Nat) (fromBytes : Mathlib.Vector Byte n → Option K) (msg : String)
    (r : Reader) : Except Error (K × Reader) := do
  let (bytes, r) ← r.take n
  let a ← arrayRef bytes n
  match fromBytes a with
  | some k => pure (k, r)
  | none => throw (.badMessage msg)

/-- `Readable for ed25519::PublicKey`. -/
def Ed25519PublicKey.takeFrom (fromBytes : Mathlib.Vector Byte 32 → Option K) :
    Reader → Except Error (K × Reader) :=
  takeValidated 32 fromBytes "Couldn't decode Ed25519 public key"

/-- `Readable for ed25519::Signature`. -/
def Ed25519Signature.takeFrom (fromBytes : Mathlib.Vector Byte 64 → Option K) :
    Reader → Except Error (K × Reader) :=
  takeValidated 64 fromBytes "Couldn't decode Ed25519 signature."

end Ed25519

end Arti.Bytes
