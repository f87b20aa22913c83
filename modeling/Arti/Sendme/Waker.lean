import Arti.Sendme.Run
import Mathlib.Logic.Function.Basic

/-! # A blocked `take` and the `put` that wakes it

`SendWindow::take` is a future. Under the lock it either finds credit and
returns, or installs the sender of a fresh oneshot channel in `unblock`,
releases the lock and awaits the receiver; once woken it starts over. A `put`
takes the lock as a whole, so it can fall between any two steps of the
sender. The sender task is one program counter; the oneshot channels are a
table indexed by channel number.
-/

namespace Arti.Sendme
set_option autoImplicit false

/-- A channel of `futures::channel::oneshot`: whether a value was sent, and
which ends have been dropped. -/
structure Oneshot where
  sent : Bool
  senderDropped : Bool
  receiverDropped : Bool
  deriving DecidableEq, Repr

/-- `oneshot::channel()`. -/
def Oneshot.new : Oneshot := ⟨false, false, false⟩

/-- `Sender::send`: the value is stored unless the receiver is gone; either way
the sender is consumed. -/
def Oneshot.send (ch : Oneshot) : Oneshot :=
  { ch with sent := !ch.receiverDropped, senderDropped := true }

/-- Dropping the receiver, as when the future holding it is dropped. -/
def Oneshot.dropReceiver (ch : Oneshot) : Oneshot := { ch with receiverDropped := true }

/-- Where the sender task is in `take`: no call pending, at the top of the loop
about to lock (`woken` records that the pass is a retry after a wake-up, which
the code itself does not keep), or with the lock released awaiting the receiver
of channel `recv`. -/
inductive TakeTask (T : Type)
  | idle
  | locking (tag : T) (woken : Bool)
  | suspended (tag : T) (recv : Nat)
  deriving DecidableEq, Repr

/-- The shared window, the oneshot channels created so far (`fresh` of them),
and the sender task. -/
structure TakeState (T : Type) where
  inner : SendWindowInner T
  chans : Nat → Oneshot
  fresh : Nat
  task : TakeTask T

/-- The steps of the system: a new call `take(tag)`, made only when no other is
pending; one pass of the loop of `take` under the lock; `wait_on.await`, which
completes once the channel holds a value; a call `put(tag)`, atomic under the
lock; and the suspended `take` future dropped with its receiver. -/
inductive TakeEvent (T : Type)
  | issue (tag : T)
  | lockCheck
  | poll
  | put (tag : Option T)
  | abandon
  deriving DecidableEq, Repr

/-- The panics of `take`: `assert!(old.is_none())`, and `wait_on.await.unwrap()`
on a channel whose sender was dropped. -/
inductive TakeFault
  | assertOldIsNone
  | unwrapCanceled
  deriving DecidableEq, Repr

section Step

variable {T : Type} [DecidableEq T]

/-- A window created by `SendWindow::new` with no call pending. -/
def TakeState.init (T : Type) (w : Nat) : TakeState T :=
  ⟨SendWindow.new T w, fun _ => Oneshot.new, 0, .idle⟩

/-- `send.send(())` on the sender `put` took out of `unblock`, if any. -/
def fire (chans : Nat → Oneshot) : Option Nat → Nat → Oneshot
  | none => chans
  | some c => Function.update chans c (chans c).send

/-- One step of the system. -/
def TakeState.step (P : WindowParams) (s : TakeState T) : TakeEvent T → Outcome (TakeState T) TakeFault
  | .issue tag => match s.task with
    | .idle => .next { s with task := .locking tag false }
    | _ => .blocked
  | .lockCheck => match s.task with
    | .locking tag _ => match s.inner.take P tag with
      | some (w, _) => .next { s with inner := w, task := .idle }
      | none =>
        let send := s.fresh
        let (w, old) := s.inner.replaceUnblock send
        match old with
        | none => .next ⟨w, Function.update s.chans send Oneshot.new, s.fresh + 1,
            .suspended tag send⟩
        | some _ => .fault .assertOldIsNone
    | _ => .blocked
  | .poll => match s.task with
    | .suspended tag recv =>
      if (s.chans recv).sent then .next { s with task := .locking tag true }
      else if (s.chans recv).senderDropped then .fault .unwrapCanceled
      else .blocked
    | _ => .blocked
  | .put tag =>
    let o := s.inner.put P tag
    .next { s with inner := o.inner, chans := fire s.chans o.fired }
  | .abandon => match s.task with
    | .suspended _ recv =>
      .next ⟨s.inner, Function.update s.chans recv (s.chans recv).dropReceiver, s.fresh, .idle⟩
    | _ => .blocked

end Step

/-! ## One step of one task -/

section TaskStep

variable {T : Type} [DecidableEq T] {P : WindowParams} {s s' : TakeState T} {e : TakeEvent T}

/-- Everything a step of the task can do. -/
theorem TakeState.step_next (hs : s.step P e = .next s') :
    (∃ tag, e = .issue tag ∧ s.task = .idle ∧ s' = { s with task := .locking tag false }) ∨
    (∃ tag b w v, e = .lockCheck ∧ s.task = .locking tag b ∧ s.inner.take P tag = some (w, v) ∧
      s' = { s with inner := w, task := .idle }) ∨
    (∃ tag b, e = .lockCheck ∧ s.task = .locking tag b ∧ s.inner.window = 0 ∧
      s.inner.unblock = none ∧ s' = ⟨{ s.inner with unblock := some s.fresh },
        Function.update s.chans s.fresh Oneshot.new, s.fresh + 1, .suspended tag s.fresh⟩) ∨
    (∃ tag c, e = .poll ∧ s.task = .suspended tag c ∧ (s.chans c).sent = true ∧
      s' = { s with task := .locking tag true }) ∨
    (∃ x, e = .put x ∧ s' = { s with
      inner := (s.inner.put P x).inner
      chans := fire s.chans (s.inner.put P x).fired }) ∨
    (∃ tag c, e = .abandon ∧ s.task = .suspended tag c ∧
      s' = ⟨s.inner, Function.update s.chans c (s.chans c).dropReceiver, s.fresh, .idle⟩) := by
  cases e with
  | issue tag =>
    rcases ht : s.task <;> simp only [TakeState.step, ht, reduceCtorEq, Outcome.next.injEq] at hs
    exact .inl ⟨tag, rfl, rfl, hs.symm⟩
  | lockCheck =>
    rcases ht : s.task with _ | ⟨tag, b⟩ | _ <;> simp only [TakeState.step, ht, reduceCtorEq] at hs
    rcases hw : s.inner.take P tag with _ | ⟨w, v⟩
    · rcases hu : s.inner.unblock <;>
        simp only [hw, hu, SendWindowInner.replaceUnblock, reduceCtorEq, Outcome.next.injEq] at hs
      exact .inr <| .inr <| .inl ⟨tag, b, rfl, rfl, SendWindowInner.take_eq_none.mp hw, rfl, hs.symm⟩
    · simp only [hw, Outcome.next.injEq] at hs
      exact .inr <| .inl ⟨tag, b, w, v, rfl, rfl, hw, hs.symm⟩
  | poll =>
    rcases ht : s.task with _ | _ | ⟨tag, c⟩ <;> simp only [TakeState.step, ht, reduceCtorEq] at hs
    split at hs
    · simp only [Outcome.next.injEq] at hs
      exact .inr <| .inr <| .inr <| .inl ⟨tag, c, rfl, rfl, ‹_›, hs.symm⟩
    · split at hs <;> cases hs
  | put x =>
    simp only [TakeState.step, Outcome.next.injEq] at hs
    exact .inr <| .inr <| .inr <| .inr <| .inl ⟨x, rfl, hs.symm⟩
  | abandon =>
    rcases ht : s.task with _ | _ | ⟨tag, c⟩ <;>
      simp only [TakeState.step, ht, reduceCtorEq, Outcome.next.injEq] at hs
    exact .inr <| .inr <| .inr <| .inr <| .inr ⟨tag, c, rfl, rfl, hs.symm⟩

/-- The two panics of `take`, and when each happens. -/
theorem TakeState.step_eq_fault {f : TakeFault} : s.step P e = .fault f ↔
    (e = .lockCheck ∧ f = .assertOldIsNone ∧ (∃ tag b, s.task = .locking tag b) ∧
      s.inner.window = 0 ∧ s.inner.unblock ≠ none) ∨
    (e = .poll ∧ f = .unwrapCanceled ∧ ∃ tag c, s.task = .suspended tag c ∧
      (s.chans c).sent = false ∧ (s.chans c).senderDropped = true) := by
  constructor
  · intro hf
    cases e with
    | lockCheck =>
      rcases ht : s.task with _ | ⟨tag, b⟩ | _ <;> simp only [TakeState.step, ht, reduceCtorEq] at hf
      rcases hw : s.inner.take P tag with _ | ⟨w, v⟩ <;> rcases hu : s.inner.unblock <;>
        simp only [hw, hu, SendWindowInner.replaceUnblock, reduceCtorEq, Outcome.fault.injEq] at hf
      exact .inl ⟨rfl, hf.symm, ⟨tag, b, rfl⟩, SendWindowInner.take_eq_none.mp hw, nofun⟩
    | poll =>
      rcases ht : s.task with _ | _ | ⟨tag, c⟩ <;> simp only [TakeState.step, ht, reduceCtorEq] at hf
      split at hf
      next => cases hf
      next hs =>
        split at hf
        next hd =>
          cases hf
          exact .inr ⟨rfl, rfl, tag, c, rfl, by simpa using hs, hd⟩
        next => cases hf
    | issue tag => rcases ht : s.task <;> simp [TakeState.step, ht] at hf
    | put x => simp [TakeState.step] at hf
    | abandon => rcases ht : s.task <;> simp [TakeState.step, ht] at hf
  · rintro (⟨rfl, rfl, ⟨tag, b, ht⟩, h0, hu⟩ | ⟨rfl, rfl, tag, c, ht, hsent, hdrop⟩)
    · obtain ⟨c, hc⟩ := Option.ne_none_iff_exists'.mp hu
      simp only [TakeState.step, ht, SendWindowInner.take_eq_none.mpr h0,
        SendWindowInner.replaceUnblock, hc]
    · simp [TakeState.step, ht, hsent, hdrop]

end TaskStep

/-! ## No lost wake-up -/

section Invariant

variable {T : Type} [DecidableEq T] {P : WindowParams} {s s' : TakeState T}

/-- The invariant of a window none of whose `take` calls is abandoned: `unblock`
holds a sender only while the task waits on its channel at window zero, and a
suspended task whose window is positive has been sent to. -/
def TakeInv (s : TakeState T) : Prop :=
  match s.task with
  | .idle => s.inner.unblock = none
  | .locking _ woken => s.inner.unblock = none ∧ (woken = true → 0 < s.inner.window)
  | .suspended _ c =>
    (s.chans c = Oneshot.new ∧ s.inner.unblock = some c ∧ s.inner.window = 0) ∨
      ((s.chans c).sent = true ∧ s.inner.unblock = none ∧ 0 < s.inner.window)

omit [DecidableEq T] in
theorem TakeInv.init (w : Nat) : TakeInv (TakeState.init T w) := rfl

omit [DecidableEq T] in
theorem TakeInv.unblock_window (h : TakeInv s) {c : Nat} (hc : s.inner.unblock = some c) :
    s.inner.window = 0 := by
  unfold TakeInv at h
  split at h
  · simp_all
  · simp_all
  · rcases h with ⟨-, -, h0⟩ | ⟨-, hn, -⟩
    · exact h0
    · simp_all

theorem TakeInv.put (hP : 0 < P.increment) (h : TakeInv s) (x : Option T) :
    TakeInv { s with inner := (s.inner.put P x).inner, chans := fire s.chans (s.inner.put P x).fired } := by
  rcases htask : s.task with _ | ⟨_, woken⟩ | ⟨_, c⟩ <;>
    simp only [TakeInv, htask, SendWindowInner.put_unblock, SendWindowInner.put_window,
      SendWindowInner.put_fired] at h ⊢
  · simp [h]
  · obtain ⟨hu, hw⟩ := h
    refine ⟨by simp [hu], fun hb => ?_⟩
    have := hw hb
    split <;> omega
  · rcases h with ⟨hc, hu, hw⟩ | ⟨hc, hu, hw⟩
    · by_cases hacc : s.inner.accepts P x
      · simp [hacc, hu, fire, hc, Oneshot.send, Oneshot.new]
        omega
      · simp [hacc, hu, hw, fire, hc]
    · simp only [hu, ite_self, fire, hc, true_and]
      split <;> omega

/-- Every step but `abandon` keeps the invariant. -/
theorem TakeInv.step (hP : 0 < P.increment) (h : TakeInv s) {e : TakeEvent T}
    (he : e ≠ .abandon) (hs : s.step P e = .next s') : TakeInv s' := by
  cases e with
  | issue tag =>
    rcases htask : s.task with _ | ⟨_, woken⟩ | ⟨_, c⟩ <;>
      simp only [TakeState.step, htask, reduceCtorEq, Outcome.next.injEq] at hs
    subst hs
    simpa [TakeInv, htask] using h
  | lockCheck =>
    rcases htask : s.task with _ | ⟨tag, woken⟩ | ⟨_, c⟩ <;>
      simp only [TakeState.step, htask, reduceCtorEq] at hs
    simp only [TakeInv, htask] at h
    rcases ht : s.inner.take P tag with _ | ⟨w, v⟩
    · simp only [ht, SendWindowInner.replaceUnblock, h.1, Outcome.next.injEq] at hs
      subst hs
      simpa [TakeInv] using SendWindowInner.take_eq_none.mp ht
    · simp only [ht, Outcome.next.injEq] at hs
      subst hs
      obtain ⟨-, -, rfl⟩ := SendWindowInner.take_eq_some.mp ht
      exact h.1
  | poll =>
    rcases htask : s.task with _ | ⟨_, woken⟩ | ⟨_, c⟩ <;>
      simp only [TakeState.step, htask, reduceCtorEq] at hs
    simp only [TakeInv, htask] at h
    split at hs
    · simp only [Outcome.next.injEq] at hs
      subst hs
      rcases h with ⟨hc, -⟩ | ⟨-, hu, hw⟩
      · simp_all [Oneshot.new]
      · exact ⟨hu, fun _ => hw⟩
    · split at hs <;> simp at hs
  | put x =>
    simp only [TakeState.step, Outcome.next.injEq] at hs
    subst hs
    exact h.put hP x
  | abandon => exact absurd rfl he

/-- Under the invariant no step panics, `abandon` included. -/
theorem TakeInv.step_ne_fault (h : TakeInv s) (e : TakeEvent T) (f : TakeFault) :
    s.step P e ≠ .fault f := by
  cases e with
  | issue tag => rcases htask : s.task <;> simp [TakeState.step, htask]
  | lockCheck =>
    rcases htask : s.task with _ | ⟨tag, woken⟩ | ⟨_, c⟩ <;> simp only [TakeState.step, htask] at h ⊢
    · simp
    · simp only [TakeInv, htask] at h
      rcases s.inner.take P tag with _ | ⟨w, v⟩ <;>
        simp [SendWindowInner.replaceUnblock, h.1]
    · simp
  | poll =>
    rcases htask : s.task with _ | ⟨_, woken⟩ | ⟨_, c⟩ <;> simp only [TakeState.step, htask]
    · simp
    · simp
    · simp only [TakeInv, htask] at h
      rcases h with ⟨hc, -⟩ | ⟨hc, -⟩ <;> simp [hc, Oneshot.new]
  | put x => simp [TakeState.step]
  | abandon => rcases htask : s.task <;> simp [TakeState.step, htask]

/-- A task woken with credit takes it on its next pass. -/
theorem TakeInv.retry (h : TakeInv s) {tag : T} (ht : s.task = .locking tag true) :
    ∃ s', s.step P .lockCheck = .next s' ∧ s'.task = .idle ∧
      s'.inner.window = s.inner.window - 1 := by
  simp only [TakeInv, ht, true_implies] at h
  simp only [TakeState.step, ht, SendWindowInner.take_eq, if_pos h.2]
  exact ⟨_, rfl, rfl, rfl⟩

/-- A task suspended while the window is positive has been sent to: its poll
completes, and its retry takes the credit and returns. -/
theorem TakeInv.resume (hP : 0 < P.increment) (h : TakeInv s) {tag : T} {c : Nat}
    (ht : s.task = .suspended tag c) (hw : 0 < s.inner.window) :
    (s.chans c).sent = true ∧ ∃ s₁ s₂, s.step P .poll = .next s₁ ∧
      s₁.step P .lockCheck = .next s₂ ∧ s₂.task = .idle ∧ s₂.inner.window = s.inner.window - 1 := by
  have hsent : (s.chans c).sent = true := by
    have h' := h
    simp only [TakeInv, ht] at h'
    rcases h' with ⟨-, -, h0⟩ | ⟨hc, -⟩
    · omega
    · exact hc
  have hpoll : s.step P .poll = .next { s with task := .locking tag true } := by
    simp [TakeState.step, ht, hsent]
  obtain ⟨s₂, h₂, hidle, hw₂⟩ := (h.step hP (by nofun) hpoll).retry rfl
  exact ⟨hsent, _, s₂, hpoll, h₂, hidle, hw₂⟩

end Invariant

section Runs

variable {T : Type} [DecidableEq T] {P : WindowParams}

/-- With `take` calls issued one at a time and never abandoned, whatever `put`
calls fall between the sender's steps: `unblock` holds a sender only at window
zero; a task suspended while the window is positive has been sent to, and its
poll and retry take the credit and return; a task woken with credit takes it on
its next pass; and no step panics. -/
theorem take_wakeup_not_lost (hP : P = circParams ∨ P = streamParams) {w : Nat}
    {s : TakeState T}
    (hs : Reachable (TakeState.step P) (· ≠ .abandon) (TakeState.init T w) s) :
    (∀ c, s.inner.unblock = some c → s.inner.window = 0) ∧
    (∀ tag c, s.task = .suspended tag c → 0 < s.inner.window → (s.chans c).sent = true ∧
      ∃ s₁ s₂, s.step P .poll = .next s₁ ∧ s₁.step P .lockCheck = .next s₂ ∧
        s₂.task = .idle ∧ s₂.inner.window = s.inner.window - 1) ∧
    (∀ tag, s.task = .locking tag true → ∃ s', s.step P .lockCheck = .next s' ∧
      s'.task = .idle ∧ s'.inner.window = s.inner.window - 1) ∧
    (∀ e f, s.step P e ≠ .fault f) := by
  have hinc := (WindowParams.valid_of_mem hP).increment_pos
  have h : TakeInv s := hs.invariant TakeInv (TakeInv.init w)
    (fun _ _ _ hI he hstep => hI.step hinc he hstep)
  exact ⟨fun c hc => h.unblock_window hc, fun tag c ht hw => h.resume hinc ht hw,
    fun tag ht => h.retry ht, h.step_ne_fault⟩

/-- From a window of one cell: a take sends it, a second suspends, and a SENDME
fires its channel; its poll and retry then take the new credit. -/
theorem take_wakeup_not_lost_after_put :
    ∃ s, Reachable (TakeState.step circParams) (· ≠ .abandon) (TakeState.init CircTag 1) s ∧
      s.task = .suspended (circTag 2) 0 ∧ 0 < s.inner.window ∧ (s.chans 0).sent = true ∧
      ∃ s₁ s₂, s.step circParams .poll = .next s₁ ∧ s₁.step circParams .lockCheck = .next s₂ ∧
        s₂.task = .idle ∧ s₂.inner.window = s.inner.window - 1 := by
  obtain ⟨s, hrun, ht, hw⟩ : ∃ s, runSteps (TakeState.step circParams) (TakeState.init CircTag 1)
      [.issue (circTag 1), .lockCheck, .issue (circTag 2), .lockCheck, .put (some (circTag 1))] =
        .next s ∧ s.task = .suspended (circTag 2) 0 ∧ 0 < s.inner.window := ⟨_, rfl, rfl, by decide⟩
  have hs : Reachable (TakeState.step circParams) (· ≠ .abandon) (TakeState.init CircTag 1) s :=
    Reachable.of_runSteps .init (by simp) hrun
  exact ⟨s, hs, ht, hw, (take_wakeup_not_lost (Or.inl rfl) hs).2.1 _ _ ht hw⟩

/-- A `take` dropped while suspended leaves its sender in `unblock`. The next
`take` that finds the window at zero then fails `assert!(old.is_none())`:
from a window of one cell, a take succeeds, a second suspends and is dropped,
and a third panics. -/
theorem abandoned_take_fails_assert :
    ∃ s, Reachable (TakeState.step circParams) (fun _ => True) (TakeState.init CircTag 1) s ∧
      s.step circParams .lockCheck = .fault .assertOldIsNone := by
  obtain ⟨s, hrun, hfault⟩ : ∃ s, runSteps (TakeState.step circParams) (TakeState.init CircTag 1)
      [.issue (circTag 1), .lockCheck, .issue (circTag 2), .lockCheck, .abandon,
        .issue (circTag 3)] = .next s ∧
      s.step circParams .lockCheck = .fault .assertOldIsNone := ⟨_, rfl, rfl⟩
  exact ⟨s, Reachable.of_runSteps .init (fun _ _ => trivial) hrun, hfault⟩

end Runs

/-! ## Dropped `take` futures

A `take` dropped while suspended drops its oneshot receiver and leaves the
sender in `unblock`. `DropInv` is what still holds then: such a stale sender
sits only at window zero and only while no task waits on it.
-/

section Dropped

variable {T : Type} [DecidableEq T] {P : WindowParams} {s s' : TakeState T}

/-- The invariant of a window whose suspended `take` calls may be dropped:
`unblock` holds a sender only at window zero, a sender there that no task waits
on belongs to a dropped `take`, and a task waits as it does under `TakeInv`. -/
def DropInv (s : TakeState T) : Prop :=
  (∀ c, s.inner.unblock = some c → s.inner.window = 0) ∧
  match s.task with
  | .idle => ∀ c, s.inner.unblock = some c → (s.chans c).receiverDropped = true
  | .locking _ woken => (∀ c, s.inner.unblock = some c → (s.chans c).receiverDropped = true) ∧
      (woken = true → s.inner.unblock = none ∧ 0 < s.inner.window)
  | .suspended _ c => (s.chans c = Oneshot.new ∧ s.inner.unblock = some c) ∨
      ((s.chans c).sent = true ∧ s.inner.unblock = none ∧ 0 < s.inner.window)

omit [DecidableEq T] in
theorem DropInv.init (w : Nat) : DropInv (TakeState.init T w) :=
  ⟨nofun, nofun⟩

/-- Every step keeps `DropInv`, `abandon` included. -/
theorem DropInv.step (hP : 0 < P.increment) (h : DropInv s) {e : TakeEvent T}
    (hs : s.step P e = .next s') : DropInv s' := by
  obtain ⟨hglob, htask⟩ := h
  rcases TakeState.step_next hs with ⟨tag, -, ht, rfl⟩ | ⟨tag, b, w, v, -, ht, hw, rfl⟩ |
    ⟨tag, b, -, -, h0, -, rfl⟩ | ⟨tag, c, -, ht, hsent, rfl⟩ | ⟨x, -, rfl⟩ | ⟨tag, c, -, ht, rfl⟩
  · simp only [ht] at htask
    exact ⟨hglob, htask, nofun⟩
  · obtain ⟨hpos, -, rfl⟩ := SendWindowInner.take_eq_some.mp hw
    have hu : s.inner.unblock = none :=
      Option.eq_none_iff_forall_not_mem.mpr fun c hc => absurd (hglob c hc) (by omega)
    exact ⟨fun c hc => by simp [hu] at hc, fun c hc => by simp [hu] at hc⟩
  · exact ⟨fun _ _ => h0, .inl ⟨by simp, rfl⟩⟩
  · simp only [ht] at htask
    rcases htask with ⟨hnew, -⟩ | ⟨-, hu, hw⟩
    · simp [hnew, Oneshot.new] at hsent
    · exact ⟨hglob, fun c hc => by simp [hu] at hc, fun _ => ⟨hu, hw⟩⟩
  · rw [SendWindowInner.put_eq]
    split
    · refine ⟨nofun, ?_⟩
      rcases ht : s.task with _ | ⟨_, woken⟩ | ⟨_, c⟩ <;> simp only [ht] at htask ⊢
      · exact nofun
      · exact ⟨nofun, fun _ => ⟨trivial, Nat.add_pos_right _ hP⟩⟩
      · refine .inr ⟨?_, trivial, Nat.add_pos_right _ hP⟩
        rcases htask with ⟨hnew, hu⟩ | ⟨hsent, hu, -⟩
        · simp [hu, fire, hnew, Oneshot.send, Oneshot.new]
        · simp [hu, fire, hsent]
    · exact ⟨hglob, htask⟩
  · simp only [ht] at htask
    refine ⟨hglob, fun c' hc' => ?_⟩
    rcases htask with ⟨-, hu⟩ | ⟨-, hu, -⟩ <;> rw [hu] at hc' <;> cases hc'
    simp [Oneshot.dropReceiver]

/-- A task polls only a channel that is fresh or has been sent on, so the
`unwrap` of its result never panics. -/
theorem DropInv.poll_ne_fault (h : DropInv s) (e : TakeEvent T) :
    s.step P e ≠ .fault .unwrapCanceled := by
  rw [Ne, TakeState.step_eq_fault]
  rintro (⟨-, ⟨⟩, -⟩ | ⟨-, -, tag, c, ht, hsent, hdrop⟩)
  have htask := h.2
  simp only [ht] at htask
  rcases htask with ⟨hnew, -⟩ | ⟨hs, -⟩
  · simp [hnew, Oneshot.new] at hdrop
  · simp [hs] at hsent

/-- The assertion of `take` fails exactly when a fresh call meets window zero with
the sender of a dropped `take` still in `unblock`. -/
theorem DropInv.assert_iff (h : DropInv s) :
    s.step P .lockCheck = .fault .assertOldIsNone ↔
      ∃ tag c, s.task = .locking tag false ∧ s.inner.unblock = some c ∧
        (s.chans c).receiverDropped = true := by
  obtain ⟨hglob, htask⟩ := h
  simp only [TakeState.step_eq_fault, true_and, reduceCtorEq, false_and, or_false]
  constructor
  · rintro ⟨⟨tag, b, ht⟩, -, hu⟩
    obtain ⟨c, hc⟩ := Option.ne_none_iff_exists'.mp hu
    simp only [ht] at htask
    cases b with
    | false => exact ⟨tag, c, ht, hc, htask.1 c hc⟩
    | true => simp [htask.2 rfl] at hc
  · rintro ⟨tag, c, ht, hu, -⟩
    exact ⟨⟨tag, false, ht⟩, hglob c hu, by simp [hu]⟩

/-- An accepted `put` takes any sender out of `unblock` and fires it; afterwards
`TakeInv`, the invariant of runs with no dropped `take`, holds again. -/
theorem DropInv.put_accepted (hP : 0 < P.increment) (h : DropInv s) {x : Option T}
    (hacc : s.inner.accepts P x) :
    TakeInv { s with inner := (s.inner.put P x).inner, chans := fire s.chans (s.inner.put P x).fired } := by
  have htask := h.2
  rw [SendWindowInner.put_eq, if_pos hacc]
  rcases ht : s.task with _ | ⟨_, woken⟩ | ⟨_, c⟩ <;> simp only [TakeInv, ht] at htask ⊢
  · exact ⟨trivial, fun _ => Nat.add_pos_right _ hP⟩
  · refine .inr ⟨?_, trivial, Nat.add_pos_right _ hP⟩
    rcases htask with ⟨hnew, hu⟩ | ⟨hsent, hu, -⟩
    · simp [hu, fire, hnew, Oneshot.send, Oneshot.new]
    · simp [hu, fire, hsent]

end Dropped

/-- When suspended `take` calls may be dropped: the `unwrap` in `take` never
panics; `assert!(old.is_none())` fails exactly when a `take` call meets window
zero while the sender of a dropped `take` is still in `unblock`; and once a
`put` is accepted, no step panics until a `take` is dropped again. -/
theorem dropped_take_assert_iff {T : Type} [DecidableEq T] {P : WindowParams}
    (hP : P = circParams ∨ P = streamParams) {w : Nat} {s : TakeState T}
    (hs : Reachable (TakeState.step P) (fun _ => True) (TakeState.init T w) s) :
    (∀ e, s.step P e ≠ .fault .unwrapCanceled) ∧
    (s.step P .lockCheck = .fault .assertOldIsNone ↔
      ∃ tag c, s.task = .locking tag false ∧ s.inner.unblock = some c ∧
        (s.chans c).receiverDropped = true) ∧
    (∀ x s', s.step P (.put x) = .next s' → (s.inner.put P x).result ≠ none →
      ∀ t, Reachable (TakeState.step P) (· ≠ .abandon) s' t → ∀ e f, t.step P e ≠ .fault f) := by
  have hinc := (WindowParams.valid_of_mem hP).increment_pos
  have h : DropInv s := hs.invariant DropInv (DropInv.init w)
    (fun _ _ _ hI _ he => hI.step hinc he)
  refine ⟨h.poll_ne_fault, h.assert_iff, fun x s' hput hres t ht => ?_⟩
  simp only [TakeState.step, Outcome.next.injEq] at hput
  subst hput
  have hacc : s.inner.accepts P x := by
    by_contra hn
    simp [SendWindowInner.put_result, hn] at hres
  have hI : TakeInv t := ht.invariant TakeInv (h.put_accepted hinc hacc)
    (fun _ _ _ hI he hstep => hI.step hinc he hstep)
  exact hI.step_ne_fault

/-- From a window of one cell: a take sends it, a second suspends and is dropped,
and a third meets window zero with the dropped take's sender in place. -/
theorem dropped_take_assert_iff_after_drop :
    ∃ s, Reachable (TakeState.step circParams) (fun _ => True) (TakeState.init CircTag 1) s ∧
      s.task = .locking (circTag 3) false ∧ s.inner.unblock = some 0 ∧
      (s.chans 0).receiverDropped = true ∧
      s.step circParams .lockCheck = .fault .assertOldIsNone := by
  obtain ⟨s, hrun, htask, hu, hdrop⟩ : ∃ s, runSteps (TakeState.step circParams)
      (TakeState.init CircTag 1) [.issue (circTag 1), .lockCheck, .issue (circTag 2), .lockCheck,
        .abandon, .issue (circTag 3)] = .next s ∧ s.task = .locking (circTag 3) false ∧
      s.inner.unblock = some 0 ∧ (s.chans 0).receiverDropped = true := ⟨_, rfl, rfl, rfl, rfl⟩
  have hs := Reachable.of_runSteps .init (fun _ _ => trivial) hrun
  exact ⟨s, hs, htask, hu, hdrop,
    ((dropped_take_assert_iff (Or.inl rfl) hs).2.1).mpr ⟨_, _, htask, hu, hdrop⟩⟩

end Arti.Sendme
