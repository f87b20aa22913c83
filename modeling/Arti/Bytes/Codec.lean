import Mathlib.Data.Vector.Defs
import Mathlib.Algebra.Order.Group.Nat

/-! # The byte codec of `tor-bytes`

A `Writer` is a `Vec<u8>`, which only grows. A `Reader` is held as the bytes
it has not consumed yet. `Reader` and the integer helpers of `Writer` are not
in the source tree and are modelled from the specification. A panic of the
code is an error of its own kind, so that the model can say it never happens.
-/

namespace Arti.Bytes
set_option autoImplicit false

abbrev Byte := Fin 256

/-- An unsigned integer of `k` bytes. -/
abbrev Word (k : Nat) := Fin (256 ^ k)

/-- `tor_bytes::Error`, with the panics of a reader as a constructor of their own:
the text is the code's, or names the call that panics where the code gives none. -/
inductive Error
  | badMessage (msg : String)
  | panic (msg : String)
  deriving DecidableEq, Repr

/-- Modelled from the spec: a `Reader`, a forward cursor over a borrowed byte
slice, held as the bytes it has not consumed. -/
structure Reader where
  rest : List Byte
  deriving DecidableEq, Repr

/-- Modelled from the spec: `Reader::take`, the next `n` bytes or
`BadMessage("truncated")`. -/
def Reader.take (r : Reader) (n : Nat) : Except Error (List Byte × Reader) :=
  if n ≤ r.rest.length then .ok (r.rest.take n, ⟨r.rest.drop n⟩)
  else .error (.badMessage "truncated")

/-- `Writer::write_all` on a `Vec<u8>`: `extend_from_slice`. -/
def writeAll (b bytes : List Byte) : List Byte := b ++ bytes

/-- The `k` bytes of `v` modulo `256 ^ k`, most significant first. -/
def beBytes : Nat → Nat → List Byte
  | 0, _ => []
  | k + 1, v => Fin.ofNat' 256 (v / 256 ^ k) :: beBytes k (v % 256 ^ k)

/-- The number a string of bytes denotes, most significant first. -/
def beValue : List Byte → Nat
  | [] => 0
  | b :: l => b.val * 256 ^ l.length + beValue l

/-- Modelled from the spec: `Writer::write_u8` to `write_u128`, big-endian. -/
def writeU (k : Nat) (v : Word k) (b : List Byte) : List Byte := writeAll b (beBytes k v.val)

/-- Modelled from the spec: `Reader::take_u8` to `take_u128`, big-endian. -/
def takeU (k : Nat) (r : Reader) : Except Error (Word k × Reader) := do
  let (s, r) ← r.take k
  pure (Fin.ofNat' _ (beValue s), r)

/-- `array_ref!(bytes, 0, n)`, which panics on a slice shorter than `n`. -/
def arrayRef (bytes : List Byte) (n : Nat) : Except Error (Mathlib.Vector Byte n) :=
  if h : n ≤ bytes.length then .ok ⟨bytes.take n, List.length_take_of_le h⟩
  else .error (.panic "array_ref!")

/-- `impl_array!`: `[u8; n]`, written as its bytes. -/
def writeBytes (n : Nat) (a : Mathlib.Vector Byte n) (b : List Byte) : List Byte :=
  writeAll b a.toList

/-- `impl_array!`: `[u8; n]`, read by `take(n)` and `array_ref!`. -/
def takeBytes (n : Nat) (r : Reader) : Except Error (Mathlib.Vector Byte n × Reader) := do
  let (bytes, r) ← r.take n
  let a ← arrayRef bytes n
  pure (a, r)

/-! ## `GenericArray` -/

namespace GenericArray

variable {α : Type}

/-- `Writeable for GenericArray<T, N>`: each item written in turn. -/
def writeOnto (write : α → List Byte → List Byte) {n : Nat} (v : Mathlib.Vector α n)
    (b : List Byte) : List Byte :=
  v.toList.foldl (fun b x => write x b) b

/-- The loop of `Readable for GenericArray<T, N>`:
`for _ in 0..N { v.push(T::take_from(b)?); }`. -/
def takeLoop (take : Reader → Except Error (α × Reader)) :
    Nat → List α → Reader → Except Error (List α × Reader)
  | 0, v, r => .ok (v, r)
  | n + 1, v, r => do
    let (x, r) ← take r
    takeLoop take n (v ++ [x]) r

/-- `GenericArray::from_slice`, which panics unless the slice has `n` items. -/
def fromSlice (n : Nat) (v : List α) : Except Error (Mathlib.Vector α n) :=
  if h : v.length = n then .ok ⟨v, h⟩ else .error (.panic "GenericArray::from_slice")

/-- `Readable for GenericArray<T, N>`. An error returns no reader: how far the
items read before it have advanced the `&mut Reader` is not modelled. -/
def takeFrom (take : Reader → Except Error (α × Reader)) (n : Nat) (r : Reader) :
    Except Error (Mathlib.Vector α n × Reader) := do
  let (v, r) ← takeLoop take n [] r
  let a ← fromSlice n v
  pure (a, r)

end GenericArray

/-! ## Big-endian integers -/

@[simp] theorem length_beBytes (k v : Nat) : (beBytes k v).length = k := by
  induction k generalizing v <;> simp [beBytes, *]

theorem beValue_lt (l : List Byte) : beValue l < 256 ^ l.length := by
  induction l with
  | nil => simp [beValue]
  | cons b l ih =>
    have hMul : b.val * 256 ^ l.length + 256 ^ l.length ≤ 256 ^ (l.length + 1) := by
      rw [Nat.pow_succ, ← Nat.succ_mul, Nat.mul_comm]
      exact Nat.mul_le_mul_left _ b.isLt
    simp only [beValue, List.length_cons]
    omega

theorem beValue_beBytes (k v : Nat) : beValue (beBytes k v) = v % 256 ^ k := by
  induction k generalizing v with
  | zero => simp [beBytes, beValue, Nat.mod_one]
  | succ k ih =>
    have hSplit : v % 256 ^ (k + 1) = v % 256 ^ k + 256 ^ k * (v / 256 ^ k % 256) := by
      rw [Nat.pow_succ, Nat.mod_mul]
    simp only [beBytes, beValue, ih, length_beBytes, Nat.mod_mod, Fin.val_ofNat', hSplit]
    rw [Nat.mul_comm, Nat.add_comm]

theorem beBytes_beValue (l : List Byte) : beBytes l.length (beValue l) = l := by
  induction l with
  | nil => rfl
  | cons b l ih =>
    have hLt := beValue_lt l
    have hPos : 0 < 256 ^ l.length := Nat.pos_pow_of_pos _ (by decide)
    have hDiv : (b.val * 256 ^ l.length + beValue l) / 256 ^ l.length = b.val := by
      rw [Nat.add_comm, Nat.add_mul_div_right _ _ hPos, Nat.div_eq_of_lt hLt, Nat.zero_add]
    have hMod : (b.val * 256 ^ l.length + beValue l) % 256 ^ l.length = beValue l := by
      rw [Nat.mul_comm, Nat.mul_add_mod, Nat.mod_eq_of_lt hLt]
    simp only [List.length_cons, beBytes, beValue, hDiv, hMod, ih, List.cons.injEq, and_true]
    exact Fin.ext (Nat.mod_eq_of_lt b.isLt)

/-! ## The primitive readers -/

theorem Reader.take_eq_ok {r : Reader} {n : Nat} {p : List Byte × Reader} :
    r.take n = .ok p ↔ n ≤ r.rest.length ∧ p = (r.rest.take n, ⟨r.rest.drop n⟩) := by
  unfold Reader.take
  split <;> simp [*, eq_comm]

@[simp] theorem Reader.take_append {n : Nat} {l rest : List Byte} (hLen : l.length = n) :
    Reader.take ⟨l ++ rest⟩ n = .ok (l, ⟨rest⟩) := by
  simp [Reader.take, hLen, List.take_left', List.drop_left']

theorem Reader.take_short {r : Reader} {n : Nat} (hShort : r.rest.length < n) :
    r.take n = .error (.badMessage "truncated") := by
  simp [Reader.take, Nat.not_le.mpr hShort]

/-! ## Fixed-width codecs -/

/-- A writer and a reader of fixed width `w` that invert each other: the writer
appends `w` bytes, every string of `w` bytes is written for some value, and the
reader takes back what was written and fails on fewer than `w` bytes with
"truncated". -/
structure FixedWidth {α : Type} (w : Nat) (write : α → List Byte → List Byte)
    (take : Reader → Except Error (α × Reader)) : Prop where
  write_append : ∀ v b, write v b = b ++ write v []
  length_write : ∀ v, (write v []).length = w
  write_surj : ∀ l : List Byte, l.length = w → ∃ v, write v [] = l
  take_write : ∀ v rest, take ⟨write v [] ++ rest⟩ = .ok (v, ⟨rest⟩)
  take_short : ∀ r : Reader, r.rest.length < w → take r = .error (.badMessage "truncated")

namespace FixedWidth

variable {α β : Type} {w : Nat} {write : α → List Byte → List Byte}
  {take : Reader → Except Error (α × Reader)}

theorem take_of_le (h : FixedWidth w write take) {r : Reader} (hLong : w ≤ r.rest.length) :
    ∃ v, write v [] = r.rest.take w ∧ take r = .ok (v, ⟨r.rest.drop w⟩) := by
  obtain ⟨v, hv⟩ := h.write_surj (r.rest.take w) (by simp [hLong])
  have hTake := h.take_write v (r.rest.drop w)
  rw [hv, List.take_append_drop] at hTake
  exact ⟨v, hv, hTake⟩

theorem take_ok_iff (h : FixedWidth w write take) (r : Reader) :
    (∃ p, take r = .ok p) ↔ w ≤ r.rest.length := by
  refine ⟨fun ⟨p, hp⟩ => Nat.not_lt.mp fun hShort => ?_, fun hLong => ?_⟩
  · rw [h.take_short r hShort] at hp
    cases hp
  · obtain ⟨v, -, hv⟩ := h.take_of_le hLong
    exact ⟨_, hv⟩

theorem eq_of_take (h : FixedWidth w write take) {r r' : Reader} {v : α}
    (hOk : take r = .ok (v, r')) : r.rest = write v [] ++ r'.rest := by
  obtain ⟨v', hv', hTake⟩ := h.take_of_le ((h.take_ok_iff r).mp ⟨_, hOk⟩)
  rw [hOk, Except.ok.injEq, Prod.mk.injEq] at hTake
  rw [hTake.1, hTake.2, hv', List.take_append_drop]

theorem error_of_take (h : FixedWidth w write take) {r : Reader} {e : Error}
    (hErr : take r = .error e) : e = .badMessage "truncated" := by
  by_cases hLong : w ≤ r.rest.length
  · obtain ⟨v, -, hv⟩ := h.take_of_le hLong
    rw [hv] at hErr
    cases hErr
  · rw [h.take_short r (Nat.not_le.mp hLong), Except.error.injEq] at hErr
    exact hErr.symm

theorem congr (h : FixedWidth w write take) {write' : α → List Byte → List Byte}
    {take' : Reader → Except Error (α × Reader)} (hWrite : ∀ v b, write' v b = write v b)
    (hTake : ∀ r, take' r = take r) : FixedWidth w write' take' := by
  obtain rfl : write' = write := funext fun v => funext (hWrite v)
  obtain rfl : take' = take := funext hTake
  exact h

/-- Two fixed-width readers for one writer are the same reader. -/
theorem take_unique {take' : Reader → Except Error (α × Reader)} (h : FixedWidth w write take)
    (h' : FixedWidth w write take') : take = take' := by
  funext r
  by_cases hLong : w ≤ r.rest.length
  · obtain ⟨v, hv, ht⟩ := h.take_of_le hLong
    obtain ⟨v', hv', ht'⟩ := h'.take_of_le hLong
    obtain rfl : v = v' := by
      have h1 := h.take_write v []
      rw [hv, ← hv', h.take_write v' [], Except.ok.injEq, Prod.mk.injEq] at h1
      exact h1.1.symm
    rw [ht, ht']
  · rw [h.take_short r (Nat.not_le.mp hLong), h'.take_short r (Nat.not_le.mp hLong)]

/-- A codec carried along a bijection. -/
theorem map (h : FixedWidth w write take) (f : α → β) (g : β → α) (hfg : ∀ y, f (g y) = y)
    (hgf : ∀ x, g (f x) = x) :
    FixedWidth w (fun y => write (g y)) (fun r => (take r).map fun p => (f p.1, p.2)) where
  write_append y b := h.write_append (g y) b
  length_write y := h.length_write (g y)
  write_surj l hLen := by
    obtain ⟨v, hv⟩ := h.write_surj l hLen
    exact ⟨f v, by rw [hgf, hv]⟩
  take_write y rest := by simp [h.take_write, Except.map, hfg]
  take_short r hShort := by simp [h.take_short r hShort, Except.map]

end FixedWidth

theorem fixedWidth_u (k : Nat) : FixedWidth k (writeU k) (takeU k) where
  write_append v b := by simp [writeU, writeAll]
  length_write v := by simp [writeU, writeAll]
  write_surj l hLen := ⟨Fin.ofNat' _ (beValue l), by
    subst hLen
    simp [writeU, writeAll, Fin.val_ofNat', Nat.mod_eq_of_lt (beValue_lt l), beBytes_beValue]⟩
  take_write v rest := by
    simp [takeU, writeU, writeAll, beValue_beBytes, Nat.mod_eq_of_lt v.isLt]
  take_short r hShort := by simp [takeU, Reader.take_short hShort]

theorem fixedWidth_bytes (n : Nat) : FixedWidth n (writeBytes n) (takeBytes n) where
  write_append v b := by simp [writeBytes, writeAll]
  length_write v := by simp [writeBytes, writeAll]
  write_surj l hLen := ⟨⟨l, hLen⟩, by simp [writeBytes, writeAll]⟩
  take_write v rest := by
    obtain ⟨l, rfl⟩ := v
    simp [takeBytes, writeBytes, writeAll, arrayRef, bind, Except.bind, pure, Except.pure]
  take_short r hShort := by simp [takeBytes, Reader.take_short hShort, bind, Except.bind]

/-! ## `GenericArray` of a fixed-width codec -/

namespace FixedWidth

variable {α : Type} {w : Nat} {write : α → List Byte → List Byte}
  {take : Reader → Except Error (α × Reader)}

theorem foldl_write (h : FixedWidth w write take) (xs : List α) (b : List Byte) :
    xs.foldl (fun b x => write x b) b = b ++ (xs.map (write · [])).flatten := by
  induction xs generalizing b with
  | nil => simp
  | cons x xs ih => simp [ih, h.write_append x b]

theorem length_flatten (h : FixedWidth w write take) (xs : List α) :
    (xs.map (write · [])).flatten.length = xs.length * w := by
  induction xs with
  | nil => simp
  | cons x xs ih => simp [h.length_write, ih, Nat.succ_mul, Nat.add_comm]

theorem takeLoop_write (h : FixedWidth w write take) (xs acc : List α) (rest : List Byte) :
    GenericArray.takeLoop take xs.length acc ⟨(xs.map (write · [])).flatten ++ rest⟩ =
      .ok (acc ++ xs, ⟨rest⟩) := by
  induction xs generalizing acc with
  | nil => simp [GenericArray.takeLoop]
  | cons x xs ih => simp [GenericArray.takeLoop, h.take_write, ih, bind, Except.bind]

theorem takeLoop_short (h : FixedWidth w write take) (n : Nat) (acc : List α) (r : Reader)
    (hShort : r.rest.length < n * w) :
    GenericArray.takeLoop take n acc r = .error (.badMessage "truncated") := by
  induction n generalizing acc r with
  | zero => simp at hShort
  | succ n ih =>
    rw [Nat.succ_mul] at hShort
    by_cases hLong : w ≤ r.rest.length
    · obtain ⟨v, -, hv⟩ := h.take_of_le hLong
      simp only [GenericArray.takeLoop, hv, bind, Except.bind]
      exact ih _ _ (by simp only [List.length_drop]; omega)
    · simp [GenericArray.takeLoop, h.take_short r (by omega), bind, Except.bind]

theorem flatten_surj (h : FixedWidth w write take) (n : Nat) (l : List Byte)
    (hLen : l.length = n * w) : ∃ xs : List α, xs.length = n ∧ (xs.map (write · [])).flatten = l := by
  induction n generalizing l with
  | zero => exact ⟨[], rfl, by simp_all⟩
  | succ n ih =>
    rw [Nat.succ_mul] at hLen
    obtain ⟨x, hx⟩ := h.write_surj (l.take w) (by simp; omega)
    obtain ⟨xs, hxs, hFlat⟩ := ih (l.drop w) (by simp; omega)
    exact ⟨x :: xs, by simp [hxs], by simp [hx, hFlat]⟩

/-- `GenericArray<T, N>` over a codec of width `w` is a codec of width `N * w`. -/
theorem genericArray (h : FixedWidth w write take) (n : Nat) :
    FixedWidth (n * w) (GenericArray.writeOnto write) (GenericArray.takeFrom take n) where
  write_append v b := by simp [GenericArray.writeOnto, h.foldl_write]
  length_write v := by simp [GenericArray.writeOnto, h.foldl_write, h.length_flatten]
  write_surj l hLen := by
    obtain ⟨xs, hxs, hFlat⟩ := h.flatten_surj n l hLen
    exact ⟨⟨xs, hxs⟩, by simp [GenericArray.writeOnto, h.foldl_write, hFlat]⟩
  take_write v rest := by
    obtain ⟨xs, rfl⟩ := v
    simp [GenericArray.takeFrom, GenericArray.writeOnto, h.foldl_write, h.takeLoop_write,
      GenericArray.fromSlice, bind, Except.bind, pure, Except.pure]
  take_short r hShort := by
    simp [GenericArray.takeFrom, h.takeLoop_short n [] r hShort, bind, Except.bind]

end FixedWidth

end Arti.Bytes
