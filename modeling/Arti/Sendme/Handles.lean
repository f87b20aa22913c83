import Arti.Sendme.Waker

/-! # Handles that share one window

`SendWindow::new_ref` gives another handle on the same `Arc<Mutex<_>>`. A
`take` borrows only its own handle, so takes through different handles run at
once: their passes under the lock interleave with each other and with `put`.
Each handle runs the single task of `TakeState` on the shared interior, and
`Shared` keeps one program counter per handle. While no future is dropped, at
most one take is parked, the sender in `unblock` is the parked take's, and
`assert!(old.is_none())` fails exactly when a take finds the window at zero
while another handle's take is parked.
-/

namespace Arti.Sendme
set_option autoImplicit false

/-- The shared interior, the oneshot channels, and the `take` task of every
handle, by number. -/
structure Shared (T : Type) where
  inner : SendWindowInner T
  chans : Nat → Oneshot
  fresh : Nat
  tasks : Nat → TakeTask T

section Step

variable {T : Type} [DecidableEq T]

/-- Handles on a window made by `SendWindow::new`, none with a call pending. -/
def Shared.init (T : Type) (w : Nat) : Shared T :=
  ⟨SendWindow.new T w, fun _ => Oneshot.new, 0, fun _ => .idle⟩

/-- The window as handle `h` sees it: the shared parts and its own task. -/
def Shared.view (s : Shared T) (h : Nat) : TakeState T := ⟨s.inner, s.chans, s.fresh, s.tasks h⟩

/-- Handle `h` takes a step of `TakeState`. `put` does not read the task, so
which handle calls it makes no difference. -/
def Shared.step (P : WindowParams) (s : Shared T) : Nat × TakeEvent T → Outcome (Shared T) TakeFault
  | (h, e) => match (s.view h).step P e with
    | .next t => .next ⟨t.inner, t.chans, t.fresh, Function.update s.tasks h t.task⟩
    | .fault f => .fault f
    | .blocked => .blocked

/-- Handle `h`'s take waits on channel `c`, which nothing has sent to. -/
def Shared.Parked (s : Shared T) (h c : Nat) : Prop :=
  ∃ tag, s.tasks h = .suspended tag c ∧ (s.chans c).sent = false

end Step

/-! ## One step of the shared window -/

section SharedStep

variable {T : Type} [DecidableEq T] {P : WindowParams} {s s' : Shared T}

theorem Shared.step_eq_next {h : Nat} {e : TakeEvent T} : s.step P (h, e) = .next s' ↔
    ∃ t, (s.view h).step P e = .next t ∧ s' = ⟨t.inner, t.chans, t.fresh, Function.update s.tasks h t.task⟩ := by
  simp only [Shared.step]
  rcases (s.view h).step P e with t | f | _ <;> simp [@eq_comm _ s']

theorem Shared.step_eq_fault {h : Nat} {e : TakeEvent T} {f : TakeFault} :
    s.step P (h, e) = .fault f ↔ (s.view h).step P e = .fault f := by
  simp only [Shared.step]
  rcases (s.view h).step P e with t | f | _ <;> simp

end SharedStep

/-! ## While no `take` is dropped -/

section Invariant

variable {T : Type} [DecidableEq T] {P : WindowParams} {s s' : Shared T}

/-- What holds of the shared window while no `take` future is dropped: a sender
in `unblock` is that of a new channel a take waits on, at window zero; a
suspended take's channel is new with its sender in `unblock`, or has been sent
to; and suspended takes wait on channels already made, one take to a channel. -/
structure SharedInv (s : Shared T) : Prop where
  unblock : ∀ c, s.inner.unblock = some c →
    s.inner.window = 0 ∧ s.chans c = Oneshot.new ∧ ∃ h tag, s.tasks h = .suspended tag c
  suspended : ∀ h tag c, s.tasks h = .suspended tag c →
    (s.chans c = Oneshot.new ∧ s.inner.unblock = some c) ∨ (s.chans c).sent = true
  lt_fresh : ∀ h tag c, s.tasks h = .suspended tag c → c < s.fresh
  distinct : ∀ h h' tag tag' c, s.tasks h = .suspended tag c → s.tasks h' = .suspended tag' c → h = h'

omit [DecidableEq T] in
theorem SharedInv.init (w : Nat) : SharedInv (Shared.init T w) where
  unblock _ hc := by cases hc
  suspended _ _ _ ht := by cases ht
  lt_fresh _ _ _ ht := by cases ht
  distinct _ _ _ _ _ ht := by cases ht

omit [DecidableEq T] in
theorem update_eq_suspended {tasks : Nat → TakeTask T} {h h' : Nat} {x : TakeTask T}
    (hx : ∀ tag c, x ≠ .suspended tag c) {tag : T} {c : Nat}
    (ht : Function.update tasks h x h' = .suspended tag c) : tasks h' = .suspended tag c := by
  by_cases hh : h' = h
  · subst hh
    exact absurd (by simpa using ht) (hx tag c)
  · rwa [Function.update_noteq hh] at ht

theorem fire_apply (chans : Nat → Oneshot) (u : Option Nat) (c : Nat) :
    fire chans u c = if u = some c then (chans c).send else chans c := by
  cases u with
  | none => simp [fire]
  | some d =>
    by_cases hd : d = c
    · subst hd; simp [fire]
    · simp [fire, hd, Function.update_noteq (Ne.symm hd)]

omit [DecidableEq T] in
/-- Handle `h` moving to a state in which it waits on no channel, from one in
which it waited on none or on a channel already sent to, keeps the invariant. -/
theorem SharedInv.retask (hI : SharedInv s) {h : Nat} {x : TakeTask T}
    (hx : ∀ tag c, x ≠ .suspended tag c)
    (hh : ∀ tag c, s.tasks h = .suspended tag c → (s.chans c).sent = true) :
    SharedInv { s with tasks := Function.update s.tasks h x } := by
  refine ⟨fun c hc => ?_, fun h' tag c ht => ?_, fun h' tag c ht => ?_, fun h₁ h₂ tag₁ tag₂ c h₁c h₂c => ?_⟩
  · obtain ⟨h0, hnew, h', tag, ht⟩ := hI.unblock c hc
    have hne : h' ≠ h := by
      rintro rfl
      have hsent := hh tag c ht
      simp [hnew, Oneshot.new] at hsent
    exact ⟨h0, hnew, h', tag, by simpa [Function.update_noteq hne] using ht⟩
  · exact hI.suspended h' tag c (update_eq_suspended hx ht)
  · exact hI.lt_fresh h' tag c (update_eq_suspended hx ht)
  · exact hI.distinct h₁ h₂ tag₁ tag₂ c (update_eq_suspended hx h₁c) (update_eq_suspended hx h₂c)

/-- Every step but a dropped future keeps the invariant. -/
theorem SharedInv.step (hI : SharedInv s) {h : Nat} {e : TakeEvent T} (he : e ≠ .abandon)
    (hs : s.step P (h, e) = .next s') : SharedInv s' := by
  obtain ⟨t, ht, rfl⟩ := Shared.step_eq_next.mp hs
  rcases TakeState.step_next ht with ⟨tag, rfl, hidle, rfl⟩ | ⟨tag, b, w, v, rfl, hlock, hw, rfl⟩ |
    ⟨tag, b, rfl, hlock, h0, hu, rfl⟩ | ⟨tag, c, rfl, hsus, hsent, rfl⟩ | ⟨x, rfl, rfl⟩ |
    ⟨tag, c, rfl, -, -⟩
  · exact hI.retask (by simp) fun _ _ ht => by simp [Shared.view, ht] at hidle
  · obtain ⟨hpos, -, rfl⟩ := SendWindowInner.take_eq_some.mp hw
    have hu : s.inner.unblock = none := by
      cases hc : s.inner.unblock with
      | none => rfl
      | some c => have := (hI.unblock c hc).1; simp [Shared.view] at hpos; omega
    have hI' := hI.retask (h := h) (x := .idle) (by simp) fun _ _ ht => by
      simp [Shared.view, ht] at hlock
    exact ⟨fun c hc => by simp [Shared.view, hu] at hc, hI'.suspended, hI'.lt_fresh, hI'.distinct⟩
  · simp only [Shared.view] at h0 hu ⊢
    have key : ∀ h' tag' c, Function.update s.tasks h (.suspended tag s.fresh) h' = .suspended tag' c →
        (h' = h ∧ c = s.fresh) ∨ (s.tasks h' = .suspended tag' c ∧ c < s.fresh) := by
      intro h' tag' c ht
      by_cases hh : h' = h
      · subst hh
        simp only [Function.update_same, TakeTask.suspended.injEq] at ht
        exact .inl ⟨rfl, ht.2.symm⟩
      · rw [Function.update_noteq hh] at ht
        exact .inr ⟨ht, hI.lt_fresh h' tag' c ht⟩
    refine ⟨fun c hc => ?_, fun h' tag' c ht => ?_, fun h' tag' c ht => ?_,
      fun h₁ h₂ tag₁ tag₂ c h₁c h₂c => ?_⟩
    · obtain rfl : s.fresh = c := Option.some.inj hc
      exact ⟨h0, by simp, h, tag, by simp⟩
    · rcases key h' tag' c ht with ⟨-, rfl⟩ | ⟨ht, hlt⟩
      · simp
      · rcases hI.suspended h' tag' c ht with ⟨-, hc⟩ | hc
        · simp [hu] at hc
        · simp [Function.update_noteq (Nat.ne_of_lt hlt), hc]
    · rcases key h' tag' c ht with ⟨-, rfl⟩ | ⟨-, hlt⟩ <;> dsimp only <;> omega
    · rcases key h₁ tag₁ c h₁c with ⟨rfl, hc₁⟩ | ⟨h₁c, hlt₁⟩ <;>
        rcases key h₂ tag₂ c h₂c with ⟨rfl, hc₂⟩ | ⟨h₂c, hlt₂⟩
      · rfl
      · omega
      · omega
      · exact hI.distinct h₁ h₂ tag₁ tag₂ c h₁c h₂c
  · exact hI.retask (by simp) fun _ _ ht => by
      obtain ⟨-, rfl⟩ := TakeTask.suspended.inj (ht.symm.trans hsus)
      exact hsent
  · simp only [Shared.view, Function.update_eq_self]
    rw [SendWindowInner.put_eq]
    split
    · refine ⟨nofun, fun h' tag c ht => .inr ?_, hI.lt_fresh, hI.distinct⟩
      show (fire s.chans s.inner.unblock c).sent = true
      rw [fire_apply]
      rcases hI.suspended h' tag c ht with ⟨hnew, hc⟩ | hc
      · simp [hc, hnew, Oneshot.send, Oneshot.new]
      · split
        · rename_i hcu
          simp [(hI.unblock c hcu).2.1, Oneshot.send, Oneshot.new]
        · exact hc
    · exact ⟨hI.unblock, hI.suspended, hI.lt_fresh, hI.distinct⟩
  · exact absurd rfl he

end Invariant

/-! ## No concurrent parkers -/

section Parked

variable {T : Type} [DecidableEq T] {P : WindowParams} {s : Shared T}

omit [DecidableEq T] in
/-- A parked take's sender is the one in `unblock`, and it waits at window zero. -/
theorem SharedInv.parked (hI : SharedInv s) {h c : Nat} (hp : s.Parked h c) :
    s.inner.unblock = some c ∧ s.inner.window = 0 := by
  obtain ⟨tag, ht, hsent⟩ := hp
  rcases hI.suspended h tag c ht with ⟨-, hu⟩ | hs
  · exact ⟨hu, (hI.unblock c hu).1⟩
  · simp [hs] at hsent

/-- A step panics only at the assertion, when a take finds the window at zero
while another handle's take is parked. -/
theorem SharedInv.step_eq_fault (hI : SharedInv s) {h : Nat} {e : TakeEvent T} {f : TakeFault} :
    s.step P (h, e) = .fault f ↔ e = .lockCheck ∧ f = .assertOldIsNone ∧
      (∃ tag b, s.tasks h = .locking tag b) ∧ s.inner.window = 0 ∧ ∃ h' c, h' ≠ h ∧ s.Parked h' c := by
  rw [Shared.step_eq_fault, TakeState.step_eq_fault]
  simp only [Shared.view]
  constructor
  · rintro (⟨rfl, rfl, ⟨tag, b, htb⟩, h0, hu⟩ | ⟨rfl, rfl, tag, c, hsus, hsent, hdrop⟩)
    · obtain ⟨c, hc⟩ := Option.ne_none_iff_exists'.mp hu
      obtain ⟨-, hnew, h', tag', hh'⟩ := hI.unblock c hc
      refine ⟨rfl, rfl, ⟨tag, b, htb⟩, h0, h', c, ?_, tag', hh', by simp [hnew, Oneshot.new]⟩
      rintro rfl
      rw [htb] at hh'
      cases hh'
    · rcases hI.suspended h tag c hsus with ⟨hnew, -⟩ | hs
      · simp [hnew, Oneshot.new] at hdrop
      · simp [hs] at hsent
  · rintro ⟨rfl, rfl, htb, h0, h', c, -, hp⟩
    exact .inl ⟨rfl, rfl, htb, h0, by simp [(hI.parked hp).1]⟩

end Parked

section Runs

end Runs

end Arti.Sendme
