import Mathlib.Algebra.Order.Group.Nat
import Mathlib.Data.Vector.Defs

/-! # Flow-control windows

`SendWindow` and `RecvWindow` of `tor-proto/src/circuit/sendme.rs`. A window
is a `u16`, held here as a natural number: `checkedSub` and `checkedAdd` are
`u16::checked_sub` and `u16::checked_add`. A `SendWindow` is the record behind
its mutex; the oneshot sender kept in `unblock` is named by its channel number.
-/

namespace Arti.Sendme
set_option autoImplicit false

/-- `WindowParams`: the largest window and the SENDME increment. -/
structure WindowParams where
  maximum : Nat
  increment : Nat
  deriving DecidableEq, Repr

/-- `CircParams`: limit at 1000 cells, and each SENDME adjusts by 100. -/
def circParams : WindowParams := ⟨1000, 100⟩

/-- `StreamParams`: limit at 500 cells, and each SENDME adjusts by 50. -/
def streamParams : WindowParams := ⟨500, 50⟩

/-- What the window lemmas ask of a parameter set; both of the code's sets satisfy it. -/
structure WindowParams.Valid (P : WindowParams) : Prop where
  increment_pos : 0 < P.increment
  increment_dvd : P.increment ∣ P.maximum
  maximum_lt : P.maximum < 2 ^ 16

theorem WindowParams.valid_of_mem {P : WindowParams} (hP : P = circParams ∨ P = streamParams) :
    P.Valid := by
  rcases hP with rfl | rfl <;> exact ⟨by decide, by decide, by decide⟩

/-- `u16::checked_sub`. -/
def checkedSub (a b : Nat) : Option Nat := if b ≤ a then some (a - b) else none

/-- `u16::checked_add`. -/
def checkedAdd (a b : Nat) : Option Nat := if a + b < 2 ^ 16 then some (a + b) else none

/-- Tag type used in regular v1 sendme cells: `[u8; 20]`. -/
abbrev CircTag := Mathlib.Vector (Fin 256) 20

/-- Absence of a tag, as with stream cells. -/
abbrev NoTag := Unit

/-! ## `SendWindow` -/

section SendWindow

variable {T : Type}

/-- `SendWindowInner`: the current window, the tags incoming SENDMEs have to
match, and the sender a blocked `take` waits on. -/
structure SendWindowInner (T : Type) where
  window : Nat
  tags : List T
  unblock : Option Nat
  deriving DecidableEq, Repr

/-- `SendWindow::new`. -/
def SendWindow.new (T : Type) (window : Nat) : SendWindowInner T := ⟨window, [], none⟩

/-- The capacity `SendWindow::new` reserves for the tag queue:
`(window + increment - 1) / increment`. -/
def SendWindow.capacity (P : WindowParams) (window : Nat) : Nat :=
  (window + P.increment - 1) / P.increment

/-- The branch of `SendWindow::take` that finds credit: decrement the window,
record `tag` when the new window is a multiple of the increment, and return the
new window. `none` is the other branch: the window is zero. -/
def SendWindowInner.take (P : WindowParams) (w : SendWindowInner T) (tag : T) :
    Option (SendWindowInner T × Nat) :=
  match checkedSub w.window 1 with
  | some val =>
    let w := { w with window := val }
    some (if w.window % P.increment = 0 then { w with tags := w.tags ++ [tag] } else w, val)
  | none => none

/-- The branch of `SendWindow::take` that finds the window at zero:
`w.unblock.replace(send)` for the sender of a fresh oneshot channel `send`.
Returns the new interior and the sender that was there before. -/
def SendWindowInner.replaceUnblock (w : SendWindowInner T) (send : Nat) :
    SendWindowInner T × Option Nat :=
  ({ w with unblock := some send }, w.unblock)

/-- The match at the head of `SendWindow::put`, on the popped front of the queue
and the tag of the SENDME. -/
def tagMatches [DecidableEq T] : Option T → Option T → Bool
  | some t, some tag => t = tag
  | some _, none => true
  | _, _ => false

/-- What a call of `SendWindow::put` leaves behind: the interior, the sender it
took out of `unblock` and sent on, and its result. -/
structure PutOutcome (T : Type) where
  inner : SendWindowInner T
  fired : Option Nat
  result : Option Nat

/-- `SendWindow::put`. The front of the queue is popped before it is matched,
so a rejected SENDME consumes it too. -/
def SendWindowInner.put [DecidableEq T] (P : WindowParams) (w : SendWindowInner T)
    (tag : Option T) : PutOutcome T :=
  let w' := { w with tags := w.tags.tail }
  if tagMatches w.tags.head? tag then
    match checkedAdd w'.window P.increment with
    | some v => ⟨{ w' with window := v, unblock := none }, w'.unblock, some v⟩
    | none => ⟨w', none, none⟩
  else ⟨w', none, none⟩

end SendWindow

/-! ## `RecvWindow` -/

/-- Errors of `tor-proto` that the windows raise. -/
inductive ProtoError
  | circProto (msg : String)
  deriving DecidableEq, Repr

/-- `RecvWindow`: the number of cells we would still receive before sending a SENDME. -/
structure RecvWindow where
  window : Nat
  deriving DecidableEq, Repr

/-- `RecvWindow::new`. -/
def RecvWindow.new (window : Nat) : RecvWindow := ⟨window⟩

/-- `RecvWindow::take`: `some` the new window and whether a SENDME is due;
`none` when the cell violated the window, which is then left as it was. -/
def RecvWindow.take (P : WindowParams) (r : RecvWindow) : Option (RecvWindow × Bool) :=
  match checkedSub r.window 1 with
  | some x => some (⟨x⟩, x % P.increment = 0)
  | none => none

/-- `RecvWindow::decrement_n`. -/
def RecvWindow.decrementN (r : RecvWindow) (n : Nat) : Except ProtoError RecvWindow :=
  match checkedSub r.window n with
  | some x => .ok ⟨x⟩
  | none => .error (.circProto "Received too many cells on a stream")

/-- `RecvWindow::put`; `none` is the panic of its `unwrap` on overflow. -/
def RecvWindow.put (P : WindowParams) (r : RecvWindow) : Option RecvWindow :=
  (checkedAdd r.window P.increment).map (⟨·⟩)

/-! ## Equations -/

@[simp] theorem checkedSub_eq_some {a b c : Nat} : checkedSub a b = some c ↔ b ≤ a ∧ c = a - b := by
  unfold checkedSub
  by_cases h : b ≤ a <;> simp [h, eq_comm]

@[simp] theorem checkedSub_eq_none {a b : Nat} : checkedSub a b = none ↔ a < b := by
  unfold checkedSub
  by_cases h : b ≤ a
  · simp [h]
  · simp [h]; omega

@[simp] theorem checkedAdd_eq_some {a b c : Nat} :
    checkedAdd a b = some c ↔ a + b < 2 ^ 16 ∧ c = a + b := by
  unfold checkedAdd
  by_cases h : a + b < 2 ^ 16
  · rw [if_pos h]; simp only [Option.some.injEq, eq_comm, h, true_and]
  · rw [if_neg h]; simp only [reduceCtorEq, false_iff]; exact fun h' => h h'.1

@[simp] theorem checkedAdd_eq_none {a b : Nat} : checkedAdd a b = none ↔ 2 ^ 16 ≤ a + b := by
  unfold checkedAdd
  by_cases h : a + b < 2 ^ 16
  · rw [if_pos h]; simp only [reduceCtorEq, false_iff, Nat.not_le]; exact h
  · rw [if_neg h]; simp only [true_iff]; exact Nat.le_of_not_lt h

section Equations

variable {T : Type} {P : WindowParams}

/-- The two branches of `take`, as one equation. -/
theorem SendWindowInner.take_eq (w : SendWindowInner T) (tag : T) :
    w.take P tag = if 0 < w.window then
      some (⟨w.window - 1, w.tags ++ (if (w.window - 1) % P.increment = 0 then [tag] else []),
        w.unblock⟩, w.window - 1)
    else none := by
  unfold SendWindowInner.take checkedSub
  by_cases h : 1 ≤ w.window
  · rw [if_pos h, if_pos (by omega : 0 < w.window)]
    dsimp only
    split <;> simp [*]
  · rw [if_neg h, if_neg (by omega)]

theorem SendWindowInner.take_eq_some {w w' : SendWindowInner T} {tag : T} {v : Nat} :
    w.take P tag = some (w', v) ↔ 0 < w.window ∧ v = w.window - 1 ∧
      w' = ⟨w.window - 1, w.tags ++ (if (w.window - 1) % P.increment = 0 then [tag] else []),
        w.unblock⟩ := by
  rw [take_eq]
  split <;> simp [*, eq_comm, and_comm]

@[simp] theorem SendWindowInner.take_eq_none {w : SendWindowInner T} {tag : T} :
    w.take P tag = none ↔ w.window = 0 := by
  rw [take_eq]; split <;> simp <;> omega

variable [DecidableEq T]

/-- Whether `put` accepts: the front matches the SENDME and the raised window fits a `u16`. -/
def SendWindowInner.accepts (P : WindowParams) (w : SendWindowInner T) (tag : Option T) : Prop :=
  tagMatches w.tags.head? tag = true ∧ w.window + P.increment < 2 ^ 16

instance (w : SendWindowInner T) (tag : Option T) : Decidable (w.accepts P tag) :=
  inferInstanceAs (Decidable (_ ∧ _))

theorem SendWindowInner.put_eq (w : SendWindowInner T) (tag : Option T) :
    w.put P tag = if w.accepts P tag then
      ⟨⟨w.window + P.increment, w.tags.tail, none⟩, w.unblock, some (w.window + P.increment)⟩
    else ⟨⟨w.window, w.tags.tail, w.unblock⟩, none, none⟩ := by
  unfold SendWindowInner.put SendWindowInner.accepts checkedAdd
  by_cases hm : tagMatches w.tags.head? tag = true
  · by_cases hlt : w.window + P.increment < 2 ^ 16
    · rw [if_pos hm, if_pos hlt, if_pos ⟨hm, hlt⟩]
    · rw [if_pos hm, if_neg hlt, if_neg (fun h => hlt h.2)]
  · rw [if_neg hm, if_neg (fun h => hm h.1)]

@[simp] theorem SendWindowInner.put_tags (w : SendWindowInner T) (tag : Option T) :
    (w.put P tag).inner.tags = w.tags.tail := by
  rw [put_eq]; split <;> rfl

@[simp] theorem SendWindowInner.put_result (w : SendWindowInner T) (tag : Option T) :
    (w.put P tag).result = if w.accepts P tag then some (w.window + P.increment) else none := by
  rw [put_eq]; split <;> rfl

@[simp] theorem SendWindowInner.put_window (w : SendWindowInner T) (tag : Option T) :
    (w.put P tag).inner.window = if w.accepts P tag then w.window + P.increment else w.window := by
  rw [put_eq]; split <;> rfl

@[simp] theorem SendWindowInner.put_unblock (w : SendWindowInner T) (tag : Option T) :
    (w.put P tag).inner.unblock = if w.accepts P tag then none else w.unblock := by
  rw [put_eq]; split <;> rfl

@[simp] theorem SendWindowInner.put_fired (w : SendWindowInner T) (tag : Option T) :
    (w.put P tag).fired = if w.accepts P tag then w.unblock else none := by
  rw [put_eq]; split <;> rfl

end Equations

theorem RecvWindow.take_eq (P : WindowParams) (r : RecvWindow) :
    r.take P = if 0 < r.window
      then some (⟨r.window - 1⟩, decide ((r.window - 1) % P.increment = 0)) else none := by
  unfold RecvWindow.take checkedSub
  by_cases h : 1 ≤ r.window
  · rw [if_pos h, if_pos (by omega : 0 < r.window)]
  · rw [if_neg h, if_neg (by omega)]

theorem RecvWindow.put_eq (P : WindowParams) (r : RecvWindow) :
    r.put P = if r.window + P.increment < 2 ^ 16 then some ⟨r.window + P.increment⟩ else none := by
  unfold RecvWindow.put checkedAdd
  split <;> rfl

end Arti.Sendme
