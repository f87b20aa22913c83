import Arti.Sendme.Link
import Arti.Sendme.Waker

/-! # A flow-controlled circuit, end to end

The sending task runs `SendWindow::take` as the future it is: passes under the
lock, a oneshot channel installed at window zero, a poll of its receiver, a
retry (`TakeState`). When `take` returns, the cell it paid for goes on the
channel to the receiving end; the SENDMEs the receiver sends back are handed to
`SendWindow::put`, which fires the oneshot of a waiting `take`. `Flow.step`
is built from the two models: the task's events are steps of `TakeState`, the
deliveries steps of `Link`. So each step of a flow is a step of each side or
leaves that side as it was, and the invariants of both hold along every run:
nothing panics or raises a protocol error, and a pending `take` completes once
the cells and the SENDME in flight are delivered.
-/

namespace Arti.Sendme
set_option autoImplicit false

/-- A circuit or stream in operation: the sending task with its window and
oneshot channels, the receiving end, and the data cells and SENDMEs in flight
between them, oldest first. -/
structure Flow (T : Type) where
  sender : TakeState T
  recv : RecvWindow
  cells : List T
  sendmes : List T

/-- The steps of a flow: those of the sending task (a new `take` call, a pass of
its loop under the lock, a poll of its oneshot receiver) and the deliveries. No
`take` future is dropped. -/
inductive FlowEvent (T : Type)
  | issue (tag : T)
  | lockCheck
  | poll
  | deliverCell
  | deliverSendme
  deriving DecidableEq, Repr

/-- A panic of `take`, or a protocol error or panic at either end. -/
inductive FlowFault
  | take (f : TakeFault)
  | link (f : LinkFault)
  deriving DecidableEq, Repr

/-- The tag of the `take` call in progress, if any. -/
def TakeTask.pending {T : Type} : TakeTask T → Option T
  | .idle => none
  | .locking tag _ => some tag
  | .suspended tag _ => some tag

/-- The cell a step of the task sends: a pass under the lock that returns sends
the cell its call paid for. -/
def sentCells {T : Type} : TakeTask T → TakeTask T → List T
  | .locking tag _, .idle => [tag]
  | _, _ => []

section Step

variable {T : Type} [DecidableEq T]

/-- Both ends created with the same window, nothing in flight, no call pending. -/
def Flow.init (T : Type) (w : Nat) : Flow T := ⟨TakeState.init T w, RecvWindow.new w, [], []⟩

/-- The link a flow runs over. `Link` keeps no oneshot sender, so the window's
`unblock` is dropped. -/
def Flow.toLink (f : Flow T) : Link T :=
  ⟨{ f.sender.inner with unblock := none }, f.recv, f.cells, f.sendmes⟩

/-- A step of the sending task, with the cell it sends. -/
def Flow.taskStep (P : WindowParams) (f : Flow T) (e : TakeEvent T) : Outcome (Flow T) FlowFault :=
  match f.sender.step P e with
  | .next s => .next { f with sender := s, cells := f.cells ++ sentCells f.sender.task s.task }
  | .fault x => .fault (.take x)
  | .blocked => .blocked

/-- One step of a flow: a step of the sending task, or a delivery of the link.
A delivered SENDME is the task's call `put(tag)`, which fires the sender it
takes out of `unblock`. -/
def Flow.step (P : WindowParams) (f : Flow T) : FlowEvent T → Outcome (Flow T) FlowFault
  | .issue tag => f.taskStep P (.issue tag)
  | .lockCheck => f.taskStep P .lockCheck
  | .poll => f.taskStep P .poll
  | .deliverCell => match f.toLink.step P .deliverCell with
    | .next l => .next { f with recv := l.recv, cells := l.cells, sendmes := l.sendmes }
    | .fault x => .fault (.link x)
    | .blocked => .blocked
  | .deliverSendme => match f.sendmes with
    | [] => .blocked
    | t :: _ => match f.toLink.step P .deliverSendme, f.sender.step P (.put (some t)) with
      | .next l, .next s => .next { f with sender := s, sendmes := l.sendmes }
      | .fault x, _ => .fault (.link x)
      | _, _ => .blocked

end Step

/-! ## Each step is a step of both sides -/

section Simulation

variable {T : Type} [DecidableEq T] {P : WindowParams}

omit [DecidableEq T] in
/-- `take` neither reads nor changes `unblock`. -/
theorem SendWindowInner.take_unblock (w : SendWindowInner T) (tag : T) (u : Option Nat) :
    ({ w with unblock := u } : SendWindowInner T).take P tag =
      (w.take P tag).map fun p => ({ p.1 with unblock := u }, p.2) := by
  simp only [SendWindowInner.take_eq]
  split <;> rfl

/-- With no sender in `unblock`, `put` fires none and otherwise does what it
does with one. -/
theorem SendWindowInner.put_unblock_none (w : SendWindowInner T) (x : Option T) :
    ({ w with unblock := none } : SendWindowInner T).put P x =
      ⟨{ (w.put P x).inner with unblock := none }, none, (w.put P x).result⟩ := by
  have hacc : ({ w with unblock := none } : SendWindowInner T).accepts P x ↔ w.accepts P x :=
    Iff.rfl
  simp only [SendWindowInner.put_eq, hacc]
  split <;> rfl

omit [DecidableEq T] in
theorem Flow.toLink_init (w : Nat) : (Flow.init T w).toLink = Link.init T w := rfl

/-- Delivering a cell leaves the sending end as it was. -/
theorem Link.step_deliverCell_send {l l' : Link T} (h : l.step P .deliverCell = .next l') :
    l'.send = l.send := by
  simp only [Link.step] at h
  split at h
  · cases h
  · split at h <;> cases h
    rfl

/-- A step of the task other than `put` is a step of the link's sender, or leaves
the link as it was. -/
theorem Flow.taskStep_next {f f' : Flow T} {e : TakeEvent T} (h : f.taskStep P e = .next f')
    (he : ∀ x, e ≠ .put x) (ha : e ≠ .abandon) :
    (∃ e', e' ≠ .abandon ∧ f.sender.step P e' = .next f'.sender) ∧
      (f'.toLink = f.toLink ∨ ∃ e', f.toLink.step P e' = .next f'.toLink) := by
  simp only [Flow.taskStep] at h
  rcases hs : f.sender.step P e with s | x | _ <;>
    simp only [hs, Outcome.next.injEq, reduceCtorEq] at h
  subst h
  refine ⟨⟨e, ha, hs⟩, ?_⟩
  rcases TakeState.step_next hs with ⟨tag, -, ht, rfl⟩ | ⟨tag, b, w, v, -, ht, hw, rfl⟩ |
    ⟨tag, b, -, ht, -, -, rfl⟩ | ⟨tag, c, -, ht, -, rfl⟩ | ⟨x, rfl, -⟩ | ⟨tag, c, -, ht, rfl⟩
  · exact .inl (by simp [Flow.toLink, ht, sentCells])
  · refine .inr ⟨.send tag, ?_⟩
    simp [Flow.toLink, Link.step, SendWindowInner.take_unblock, hw, ht, sentCells]
  · exact .inl (by simp [Flow.toLink, ht, sentCells])
  · exact .inl (by simp [Flow.toLink, ht, sentCells])
  · exact absurd rfl (he x)
  · exact .inl (by simp [Flow.toLink, ht, sentCells])

/-- Every step of a flow is a step of its sending task or leaves the task as it
was, and a step of its link or leaves the link as it was. -/
theorem Flow.step_next {f f' : Flow T} {e : FlowEvent T} (h : f.step P e = .next f') :
    (f'.sender = f.sender ∨ ∃ e', e' ≠ .abandon ∧ f.sender.step P e' = .next f'.sender) ∧
      (f'.toLink = f.toLink ∨ ∃ e', f.toLink.step P e' = .next f'.toLink) := by
  cases e with
  | issue _ | lockCheck | poll => exact (Flow.taskStep_next h nofun nofun).imp_left .inr
  | deliverCell =>
    simp only [Flow.step] at h
    rcases hl : f.toLink.step P .deliverCell with l | x | _ <;>
      simp only [hl, Outcome.next.injEq, reduceCtorEq] at h
    subst h
    refine ⟨.inl rfl, .inr ⟨.deliverCell, ?_⟩⟩
    have hsend := Link.step_deliverCell_send hl
    rw [hl]
    cases l
    simp only [Flow.toLink] at hsend ⊢
    rw [hsend]
  | deliverSendme =>
    simp only [Flow.step] at h
    rcases hm : f.sendmes with _ | ⟨t, ts⟩ <;> simp only [hm, reduceCtorEq] at h
    rcases hl : f.toLink.step P .deliverSendme with l | x | _ <;>
      rcases hs : f.sender.step P (.put (some t)) with s | y | _ <;>
      simp only [hl, hs, Outcome.next.injEq, reduceCtorEq] at h
    subst h
    refine ⟨.inr ⟨.put (some t), nofun, hs⟩, .inr ⟨.deliverSendme, ?_⟩⟩
    simp only [TakeState.step, Outcome.next.injEq] at hs
    subst hs
    rw [hl]
    simp only [Flow.toLink, Link.step, hm, SendWindowInner.put_unblock_none] at hl
    rcases hr : (f.sender.inner.put P (some t)).result <;>
      simp only [hr, Outcome.next.injEq, reduceCtorEq] at hl
    subst hl
    rfl

/-- Every fault of a flow is a fault of its sending task or of its link. -/
theorem Flow.step_fault {f : Flow T} {e : FlowEvent T} {x : FlowFault}
    (h : f.step P e = .fault x) :
    (∃ e' y, e' ≠ .abandon ∧ f.sender.step P e' = .fault y) ∨
      ∃ e' y, f.toLink.step P e' = .fault y := by
  have htask : ∀ e : TakeEvent T, e ≠ .abandon → f.taskStep P e = .fault x →
      ∃ e' y, e' ≠ .abandon ∧ f.sender.step P e' = .fault y := fun e he h => by
    simp only [Flow.taskStep] at h
    rcases hs : f.sender.step P e with s | y | _ <;> simp only [hs, reduceCtorEq] at h
    exact ⟨e, y, he, hs⟩
  cases e with
  | issue tag => exact .inl (htask (.issue tag) nofun h)
  | lockCheck => exact .inl (htask .lockCheck nofun h)
  | poll => exact .inl (htask .poll nofun h)
  | deliverCell =>
    simp only [Flow.step] at h
    rcases hl : f.toLink.step P .deliverCell with l | y | _ <;> simp only [hl, reduceCtorEq] at h
    exact .inr ⟨_, y, hl⟩
  | deliverSendme =>
    simp only [Flow.step] at h
    rcases hm : f.sendmes with _ | ⟨t, ts⟩ <;> simp only [hm, reduceCtorEq] at h
    rcases hl : f.toLink.step P .deliverSendme with l | y | _
    · rcases hs : f.sender.step P (.put (some t)) <;> simp only [hl, hs, reduceCtorEq] at h
    · exact .inr ⟨_, y, hl⟩
    · simp only [hl, reduceCtorEq] at h

end Simulation

/-! ## The invariant of a flow -/

section Invariant

variable {T : Type} [DecidableEq T] {P : WindowParams} {f f' : Flow T}

/-- The invariants of the two sides: the link's and the sending task's. -/
structure FlowInv (P : WindowParams) (f : Flow T) : Prop where
  link : LinkInv P f.toLink
  sender : TakeInv f.sender

omit [DecidableEq T] in
theorem FlowInv.init {w : Nat} (hw1 : 1 ≤ w) (hw : w ≤ P.maximum) : FlowInv P (Flow.init T w) :=
  ⟨Flow.toLink_init (T := T) w ▸ LinkInv.init hw1 hw, TakeInv.init w⟩

theorem FlowInv.step (hP : P.Valid) (h : FlowInv P f) {e : FlowEvent T}
    (he : f.step P e = .next f') : FlowInv P f' := by
  obtain ⟨hs, hl⟩ := Flow.step_next he
  refine ⟨?_, ?_⟩
  · rcases hl with hl | ⟨e', hl⟩
    · exact hl ▸ h.link
    · exact h.link.step hP hl
  · rcases hs with hs | ⟨e', hne, hs⟩
    · exact hs ▸ h.sender
    · exact h.sender.step hP.increment_pos hne hs

theorem FlowInv.step_ne_fault (hP : P.Valid) (h : FlowInv P f) (e : FlowEvent T)
    (x : FlowFault) : f.step P e ≠ .fault x := fun he => by
  rcases Flow.step_fault he with ⟨e', y, -, hs⟩ | ⟨e', y, hl⟩
  · exact h.sender.step_ne_fault e' y hs
  · exact h.link.step_ne_fault hP e' y hl

end Invariant

/-- Every run of a flow is, seen from each side, a run of that side's model: its
link is a reachable state of `Link`, and its sending task a reachable state of
`TakeState` in which no `take` was dropped. -/
theorem flow_refines_link_and_take {T : Type} [DecidableEq T] {P : WindowParams} {w : Nat}
    {f : Flow T} (hf : Reachable (Flow.step P) (fun _ => True) (Flow.init T w) f) :
    Reachable (Link.step P) (fun _ => True) (Link.init T w) f.toLink ∧
      Reachable (TakeState.step P) (· ≠ .abandon) (TakeState.init T w) f.sender := by
  induction hf with
  | init => exact ⟨Flow.toLink_init (T := T) w ▸ .init, .init⟩
  | next _ _ he ih =>
    obtain ⟨hs, hl⟩ := Flow.step_next he
    refine ⟨?_, ?_⟩
    · rcases hl with hl | ⟨e', hl⟩
      · exact hl ▸ ih.1
      · exact .next ih.1 trivial hl
    · rcases hs with hs | ⟨e', hne, hs⟩
      · exact hs ▸ ih.2
      · exact .next ih.2 hne hs

/-- The flow of a circuit window of one cell after a first `take` sent its cell
and a second suspended: its link and its task are states of the two models. -/
theorem flow_refines_link_and_take_after_suspend :
    ∃ f, Reachable (Flow.step circParams) (fun _ => True) (Flow.init CircTag 1) f ∧
      f.sender.task = .suspended (circTag 2) 0 ∧ f.cells = [circTag 1] ∧
      Reachable (Link.step circParams) (fun _ => True) (Link.init CircTag 1) f.toLink ∧
      Reachable (TakeState.step circParams) (· ≠ .abandon) (TakeState.init CircTag 1) f.sender := by
  obtain ⟨f, hrun, htask, hcells⟩ : ∃ f, runSteps (Flow.step circParams) (Flow.init CircTag 1)
      [.issue (circTag 1), .lockCheck, .issue (circTag 2), .lockCheck] = .next f ∧
      f.sender.task = .suspended (circTag 2) 0 ∧ f.cells = [circTag 1] := ⟨_, rfl, rfl, rfl⟩
  have hf := Reachable.of_runSteps .init (fun _ _ => trivial) hrun
  exact ⟨f, hf, htask, hcells, flow_refines_link_and_take hf⟩

/-! ## A pending `take` completes -/

section Progress

variable {T : Type} [DecidableEq T] {P : WindowParams} {f : Flow T}

omit [DecidableEq T] in
/-- With no cell in flight, the SENDMEs in flight are the sender's whole queue,
and its window plus an increment per queued tag is the receiver's window. -/
theorem FlowInv.no_cells (h : FlowInv P f) (hc : f.cells = []) :
    f.sender.inner.tags = f.sendmes ∧
      f.sender.inner.window + P.increment * f.sendmes.length = f.recv.window := by
  obtain ⟨r, out, hra, htags, hwin⟩ := h.link.in_flight
  simp only [Flow.toLink, hc, RecvWindow.receiveAll, Except.ok.injEq, Prod.mk.injEq]
    at hra htags hwin
  obtain ⟨rfl, rfl⟩ := hra
  rw [List.append_nil] at htags
  exact ⟨htags, htags ▸ hwin⟩

/-- Delivering every cell in flight runs through and leaves the sending task as it was. -/
theorem FlowInv.drain (hP : P.Valid) :
    ∀ (cs : List T) {f : Flow T}, f.cells = cs → FlowInv P f →
      ∃ f', runSteps (Flow.step P) f (List.replicate cs.length .deliverCell) = .next f' ∧
        f'.cells = [] ∧ f'.sender = f.sender ∧ FlowInv P f'
  | [], f, hc, h => ⟨f, rfl, hc, rfl, h⟩
  | c :: cs, f, hc, h => by
    obtain ⟨r, s, hrc, -⟩ : ∃ r s, f.recv.receive P c = .ok (r, s) ∧ _ :=
      h.link.recv_ok.receive_ok hP c
    have hstep : f.step P .deliverCell =
        .next { f with recv := r, cells := cs, sendmes := f.sendmes ++ s.toList } := by
      simp [Flow.step, Flow.toLink, Link.step, hc, hrc]
    obtain ⟨f', hrun, hc', hs', h'⟩ := drain hP cs rfl (h.step hP hstep)
    exact ⟨f', by simpa [runSteps, hstep] using hrun, hc', hs', h'⟩

/-- With no cell in flight, a task waiting on a channel not yet fired is woken by
the next SENDME, which is in flight. -/
theorem FlowInv.wake (hP : P.Valid) (h : FlowInv P f) (hc : f.cells = []) {tag : T} {c : Nat}
    (htask : f.sender.task = .suspended tag c) (hsent : (f.sender.chans c).sent = false) :
    ∃ f', f.step P .deliverSendme = .next f' ∧ f'.sender.task = .suspended tag c ∧
      (f'.sender.chans c).sent = true ∧ FlowInv P f' := by
  have hs := h.sender
  simp only [TakeInv, htask] at hs
  obtain ⟨hnew, hu, hw0⟩ : f.sender.chans c = Oneshot.new ∧ f.sender.inner.unblock = some c ∧
      f.sender.inner.window = 0 := by
    rcases hs with hs | ⟨hs, -⟩
    · exact hs
    · simp [hs] at hsent
  obtain ⟨-, hwin⟩ := h.no_cells hc
  have hpos := h.link.recv_ok.1
  cases hsm : f.sendmes with
  | nil =>
    simp only [Flow.toLink, hsm, hw0, List.length_nil, Nat.mul_zero] at hwin hpos
    omega
  | cons t ts =>
    have hacc : f.sender.inner.accepts P (some t) := h.link.accepts hP hsm
    have hacc' : SendWindowInner.accepts P ⟨f.sender.inner.window, f.sender.inner.tags, none⟩
        (some t) := hacc
    have hstep : f.step P .deliverSendme = .next { f with
        sender := { f.sender with
          inner := ⟨f.sender.inner.window + P.increment, f.sender.inner.tags.tail, none⟩
          chans := fire f.sender.chans (some c) }
        sendmes := ts } := by
      simp [Flow.step, Flow.toLink, Link.step, TakeState.step, hsm, SendWindowInner.put_eq, hacc,
        hacc', hu]
    exact ⟨_, hstep, htask, by simp [fire, hnew, Oneshot.send, Oneshot.new], h.step hP hstep⟩

/-- A task whose channel has been fired polls it, then takes its credit, and the
cell it paid for is sent. -/
theorem FlowInv.resume (h : FlowInv P f) {tag : T} {c : Nat}
    (htask : f.sender.task = .suspended tag c) (hsent : (f.sender.chans c).sent = true) :
    ∃ f', runSteps (Flow.step P) f [.poll, .lockCheck] = .next f' ∧ f'.sender.task = .idle ∧
      f'.cells = f.cells ++ [tag] := by
  have hs := h.sender
  simp only [TakeInv, htask] at hs
  have hw : 0 < f.sender.inner.window := by
    rcases hs with ⟨hnew, -⟩ | ⟨-, -, hw⟩
    · simp [hnew, Oneshot.new] at hsent
    · exact hw
  simp [runSteps, Flow.step, Flow.taskStep, TakeState.step, sentCells, htask, hsent,
    SendWindowInner.take_eq, hw]

/-- A suspended `take` completes after the cells in flight, one SENDME, a poll
and a pass under the lock. -/
theorem FlowInv.suspended_completes (hP : P.Valid) (h : FlowInv P f) {tag : T} {c : Nat}
    (htask : f.sender.task = .suspended tag c) :
    ∃ es f', (∀ e ∈ es, ∀ t, e ≠ .issue t) ∧ es.length ≤ f.cells.length + 3 ∧
      runSteps (Flow.step P) f es = .next f' ∧ f'.sender.task = .idle ∧
        f'.cells.getLast? = some tag := by
  by_cases hsent : (f.sender.chans c).sent = true
  · obtain ⟨f', hrun, hidle, hcells⟩ := h.resume htask hsent
    exact ⟨_, f', by simp, by simp, hrun, hidle, by simp [hcells]⟩
  · obtain ⟨f1, hrun1, hc1, hs1, h1⟩ := h.drain hP f.cells rfl
    obtain ⟨f2, hstep2, htask2, hsent2, h2⟩ :=
      h1.wake hP hc1 (hs1 ▸ htask) (by simpa [hs1] using hsent)
    obtain ⟨f3, hrun3, hidle, hcells3⟩ := h2.resume htask2 hsent2
    refine ⟨List.replicate f.cells.length .deliverCell ++ [.deliverSendme, .poll, .lockCheck], f3,
      fun e he t => ?_, by simp, ?_, hidle, by simp [hcells3]⟩
    · simp only [List.mem_append, List.mem_replicate, List.mem_cons, List.not_mem_nil, or_false] at he
      rcases he with ⟨-, rfl⟩ | rfl | rfl | rfl <;> nofun
    rw [runSteps_append hrun1, runSteps, hstep2]
    exact hrun3

/-- A pending `take` completes within the cells in flight plus four steps of
the task and the deliveries, with no new call; its cell is the last in flight. -/
theorem FlowInv.take_completes (hP : P.Valid) (h : FlowInv P f) {tag : T}
    (hpend : f.sender.task.pending = some tag) :
    ∃ es f', (∀ e ∈ es, ∀ t, e ≠ .issue t) ∧ es.length ≤ f.cells.length + 4 ∧
      runSteps (Flow.step P) f es = .next f' ∧ f'.sender.task = .idle ∧
        f'.cells.getLast? = some tag := by
  rcases htask : f.sender.task with _ | ⟨tag', b⟩ | ⟨tag', c⟩ <;>
    simp only [htask, TakeTask.pending, reduceCtorEq, Option.some.injEq] at hpend
  · subst hpend
    have hs := h.sender
    simp only [TakeInv, htask] at hs
    by_cases hw : 0 < f.sender.inner.window
    · refine ⟨[.lockCheck], ?_⟩
      simp [runSteps, Flow.step, Flow.taskStep, TakeState.step, sentCells, htask,
        SendWindowInner.take_eq, hw]
    · have hstep : f.step P .lockCheck = .next { f with sender := ⟨{ f.sender.inner with
          unblock := some f.sender.fresh }, Function.update f.sender.chans f.sender.fresh
          Oneshot.new, f.sender.fresh + 1, .suspended tag' f.sender.fresh⟩ } := by
        simp [Flow.step, Flow.taskStep, TakeState.step, sentCells, htask, SendWindowInner.take_eq,
          hw, SendWindowInner.replaceUnblock, hs.1]
      obtain ⟨es, f', hes, hlen, hrun, hidle, hlast⟩ :=
        (h.step hP hstep).suspended_completes hP rfl
      refine ⟨.lockCheck :: es, f', ?_, by simpa using hlen, by simpa [runSteps, hstep] using hrun,
        hidle, hlast⟩
      intro e he t
      rcases List.mem_cons.mp he with rfl | he
      · nofun
      · exact hes e he t
  · subst hpend
    obtain ⟨es, f', hes, hlen, hrun, hidle, hlast⟩ := h.suspended_completes hP htask
    exact ⟨es, f', hes, by omega, hrun, hidle, hlast⟩

end Progress

/-- A circuit or stream whose ends start at the same window `w`, `1 ≤ w ≤ maximum`,
with one sending task whose `take` calls run as futures and are never dropped:
under every interleaving of the task's steps and the deliveries, no step panics
or raises a protocol error, and a pending `take(tag)` completes after at most
the cells in flight plus four steps, with no new call, and its cell is sent. -/
theorem pending_take_completes {T : Type} [DecidableEq T] {P : WindowParams}
    (hP : P = circParams ∨ P = streamParams) {w : Nat} (hw1 : 1 ≤ w) (hw : w ≤ P.maximum)
    {f : Flow T} (hf : Reachable (Flow.step P) (fun _ => True) (Flow.init T w) f) :
    (∀ e x, f.step P e ≠ .fault x) ∧
      ∀ tag, f.sender.task.pending = some tag →
        ∃ es f', (∀ e ∈ es, ∀ t, e ≠ .issue t) ∧ es.length ≤ f.cells.length + 4 ∧
          runSteps (Flow.step P) f es = .next f' ∧ f'.sender.task = .idle ∧
            f'.cells.getLast? = some tag := by
  have hv := WindowParams.valid_of_mem hP
  have h : FlowInv P f := hf.invariant (FlowInv P) (FlowInv.init hw1 hw)
    (fun _ _ _ hI _ he => hI.step hv he)
  exact ⟨h.step_ne_fault hv, fun _ hpend => h.take_completes hv hpend⟩

/-- From a circuit window of one cell: a first `take` sends its cell, a second
suspends; it completes, with its cell sent after the first. -/
theorem pending_take_completes_after_suspend :
    ∃ f, Reachable (Flow.step circParams) (fun _ => True) (Flow.init CircTag 1) f ∧
      f.sender.task = .suspended (circTag 2) 0 ∧ f.cells = [circTag 1] ∧
      ∃ es f', (∀ e ∈ es, ∀ t, e ≠ .issue t) ∧ es.length ≤ 5 ∧
        runSteps (Flow.step circParams) f es = .next f' ∧ f'.sender.task = .idle ∧
          f'.cells.getLast? = some (circTag 2) := by
  obtain ⟨f, hrun, htask, hcells⟩ : ∃ f, runSteps (Flow.step circParams) (Flow.init CircTag 1)
      [.issue (circTag 1), .lockCheck, .issue (circTag 2), .lockCheck] = .next f ∧
      f.sender.task = .suspended (circTag 2) 0 ∧ f.cells = [circTag 1] := ⟨_, rfl, rfl, rfl⟩
  have hf := Reachable.of_runSteps .init (fun _ _ => trivial) hrun
  obtain ⟨es, f', hes, hlen, hrun', hidle, hlast⟩ :=
    (pending_take_completes (Or.inl rfl) (by decide) (by decide) hf).2 (circTag 2) (by simp [htask, TakeTask.pending])
  exact ⟨f, hf, htask, hcells, es, f', hes, by simpa [hcells] using hlen, hrun', hidle, hlast⟩

end Arti.Sendme
