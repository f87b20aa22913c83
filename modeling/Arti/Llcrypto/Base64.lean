import Arti.Bytes.Codec

/-! # Base64 without padding

The text form of an identity, `Display for Ed25519Identity`, is
`base64::encode_config(self.id, base64::STANDARD_NO_PAD)`. The `base64` crate is
not part of the source: the encoding is modelled from the spec, as the standard
alphabet with no `=` padding. Its inverse is not in the source either; it is the
proof that the encoding loses nothing.
-/

namespace Arti.Llcrypto
set_option autoImplicit false

open Arti.Bytes

/-- Modelled from the spec: the standard base64 alphabet. -/
def standardAlphabet : List Char :=
  "ABCDEFGHIJKLMNOPQRSTUVWXYZabcdefghijklmnopqrstuvwxyz0123456789+/".toList

/-- Modelled from the spec: the character of a six-bit value. -/
def sextetChar (n : Nat) : Char := standardAlphabet.getD n 'A'

/-- Modelled from the spec: the encoding with the configuration `STANDARD_NO_PAD`.
Three bytes become four characters; a last group of one or two bytes becomes two
or three characters, with no padding. -/
def encodeNoPad : List Byte → List Char
  | a :: b :: c :: rest =>
    sextetChar (a.val / 4) :: sextetChar (a.val % 4 * 16 + b.val / 16) ::
      sextetChar (b.val % 16 * 4 + c.val / 64) :: sextetChar (c.val % 64) :: encodeNoPad rest
  | [a, b] =>
    [sextetChar (a.val / 4), sextetChar (a.val % 4 * 16 + b.val / 16),
      sextetChar (b.val % 16 * 4)]
  | [a] => [sextetChar (a.val / 4), sextetChar (a.val % 4 * 16)]
  | [] => []

/-- The decoding table of the alphabet: the six-bit value of `A`–`Z`, `a`–`z`,
`0`–`9`, `+` and `/`, by code point. -/
def charSextet (c : Char) : Option Nat :=
  if 65 ≤ c.toNat ∧ c.toNat < 91 then some (c.toNat - 65)
  else if 97 ≤ c.toNat ∧ c.toNat < 123 then some (c.toNat - 71)
  else if 48 ≤ c.toNat ∧ c.toNat < 58 then some (c.toNat + 4)
  else if c.toNat = 43 then some 62
  else if c.toNat = 47 then some 63
  else none

/-- The inverse of `encodeNoPad`: four characters become three bytes, and a last
group of three or two characters becomes two bytes or one. -/
def decodeNoPad : List Char → Option (List Byte)
  | c0 :: c1 :: c2 :: c3 :: rest => do
    let s0 ← charSextet c0
    let s1 ← charSextet c1
    let s2 ← charSextet c2
    let s3 ← charSextet c3
    let bytes ← decodeNoPad rest
    pure (Fin.ofNat' 256 (s0 * 4 + s1 / 16) :: Fin.ofNat' 256 (s1 % 16 * 16 + s2 / 4) ::
      Fin.ofNat' 256 (s2 % 4 * 64 + s3) :: bytes)
  | [c0, c1, c2] => do
    let s0 ← charSextet c0
    let s1 ← charSextet c1
    let s2 ← charSextet c2
    pure [Fin.ofNat' 256 (s0 * 4 + s1 / 16), Fin.ofNat' 256 (s1 % 16 * 16 + s2 / 4)]
  | [c0, c1] => do
    let s0 ← charSextet c0
    let s1 ← charSextet c1
    pure [Fin.ofNat' 256 (s0 * 4 + s1 / 16)]
  | [_] => none
  | [] => some []

/-! ## Characters -/

theorem sextetChar_mem (n : Nat) : sextetChar n ∈ standardAlphabet := by
  unfold sextetChar
  rw [List.getD_eq_getElem?_getD]
  cases h : standardAlphabet[n]? with
  | none => decide
  | some c => exact List.getElem?_mem h

theorem charSextet_sextetChar {n : Nat} (h : n < 64) : charSextet (sextetChar n) = some n := by
  have hAll : ∀ k : Fin 64, charSextet (sextetChar k) = some k := by decide
  exact hAll ⟨n, h⟩

/-- The six-bit values one group of bytes is cut into. -/
theorem sextets_lt (a b c : Byte) :
    a.val / 4 < 64 ∧ a.val % 4 * 16 + b.val / 16 < 64 ∧ b.val % 16 * 4 + c.val / 64 < 64 ∧
      c.val % 64 < 64 := by
  have := a.isLt; have := b.isLt; have := c.isLt
  omega

/-- Joining the sextets of a group gives its bytes back. -/
theorem sextets_join (a b c : Byte) :
    Fin.ofNat' 256 (a.val / 4 * 4 + (a.val % 4 * 16 + b.val / 16) / 16) = a ∧
      Fin.ofNat' 256 ((a.val % 4 * 16 + b.val / 16) % 16 * 16 + (b.val % 16 * 4 + c.val / 64) / 4)
        = b ∧
      Fin.ofNat' 256 ((b.val % 16 * 4 + c.val / 64) % 4 * 64 + c.val % 64) = c := by
  have := a.isLt; have := b.isLt; have := c.isLt
  refine ⟨Fin.ext ?_, Fin.ext ?_, Fin.ext ?_⟩ <;> simp only [Fin.ofNat'] <;> omega

/-! ## The encoding -/

/-- Base64 without padding writes `⌈4n/3⌉` characters for `n` bytes. -/
theorem length_encodeNoPad : ∀ l : List Byte, (encodeNoPad l).length = (4 * l.length + 2) / 3
  | _ :: _ :: _ :: rest => by
    simp only [encodeNoPad, List.length_cons, length_encodeNoPad rest]
    omega
  | [_, _] | [_] | [] => by simp [encodeNoPad]

theorem mem_encodeNoPad {c : Char} : ∀ {l : List Byte}, c ∈ encodeNoPad l → c ∈ standardAlphabet
  | _ :: _ :: _ :: rest, h => by
    simp only [encodeNoPad, List.mem_cons] at h
    rcases h with rfl | rfl | rfl | rfl | h
    iterate 4 exact sextetChar_mem _
    exact mem_encodeNoPad h
  | [_, _], h | [_], h => by
    simp only [encodeNoPad, List.mem_cons, List.not_mem_nil, or_false] at h
    rcases h with rfl | rfl | rfl <;> exact sextetChar_mem _

/-- Decoding undoes the encoding. -/
theorem decodeNoPad_encodeNoPad : ∀ l : List Byte, decodeNoPad (encodeNoPad l) = some l
  | a :: b :: c :: rest => by
    obtain ⟨h0, h1, h2, h3⟩ := sextets_lt a b c
    obtain ⟨ha, hb, hc⟩ := sextets_join a b c
    simp only [encodeNoPad, decodeNoPad, charSextet_sextetChar h0, charSextet_sextetChar h1,
      charSextet_sextetChar h2, charSextet_sextetChar h3, decodeNoPad_encodeNoPad rest,
      Option.bind_eq_bind, Option.some_bind, Option.pure_def, ha, hb, hc]
  | [a, b] => by
    obtain ⟨h0, h1, h2, -⟩ := sextets_lt a b 0
    obtain ⟨ha, hb, -⟩ := sextets_join a b 0
    simp only [encodeNoPad, decodeNoPad, charSextet_sextetChar h0, charSextet_sextetChar h1]
    simp only [Fin.val_zero, Nat.zero_div, Nat.add_zero] at h2 hb
    simp only [charSextet_sextetChar h2, Option.bind_eq_bind, Option.some_bind, Option.pure_def,
      ha, hb]
  | [a] => by
    obtain ⟨h0, h1, -, -⟩ := sextets_lt a 0 0
    obtain ⟨ha, -, -⟩ := sextets_join a 0 0
    simp only [Fin.val_zero, Nat.zero_div, Nat.add_zero] at h1 ha
    simp only [encodeNoPad, decodeNoPad, charSextet_sextetChar h0, charSextet_sextetChar h1,
      Option.bind_eq_bind, Option.some_bind, Option.pure_def, ha]
  | [] => rfl

theorem encodeNoPad_injective : Function.Injective encodeNoPad := fun l l' h => by
  simpa only [decodeNoPad_encodeNoPad, Option.some.injEq] using congrArg decodeNoPad h

end Arti.Llcrypto
