import Arti.Sendme.Run

/-! # The two ends of a circuit

A `SendWindow` and a `RecvWindow` started at the same window, joined by two FIFO
channels: data cells towards the receiver, each carrying the tag its `take`
recorded or not, and SENDMEs back, each carrying the tag of the cell it answers.
The two ends test "the new window is a multiple of the increment" separately;
`LinkInv` says those tests fall on the same cells: the sender's queue is the
SENDMEs in flight followed by the SENDMEs the receiver will send for the cells
in flight, and the sender's window plus an increment per queued tag is the
receiver's window once those cells are in.
-/

namespace Arti.Sendme
set_option autoImplicit false

/-- A receive window in the range its code keeps it in. -/
def RecvOk (P : WindowParams) (r : RecvWindow) : Prop := 0 < r.window ∧ r.window ≤ P.maximum

/-- The protocol errors and panics of the two ends: `RecvWindow::take` returned
`None` (too many cells), the `unwrap` in `RecvWindow::put` panicked, and
`SendWindow::put` returned `None` (a bad or unexpected SENDME). -/
inductive LinkFault
  | recvTakeNone
  | recvPutOverflow
  | sendPutNone
  deriving DecidableEq, Repr

section Receive

variable {T : Type} {P : WindowParams}

/-- What the receiving end does with a data cell carrying `tag`: `RecvWindow::take`,
and when a SENDME is due, `RecvWindow::put` and a SENDME carrying `tag`. -/
def RecvWindow.receive (P : WindowParams) (r : RecvWindow) (tag : T) :
    Except LinkFault (RecvWindow × Option T) :=
  match r.take P with
  | none => .error .recvTakeNone
  | some (r', false) => .ok (r', none)
  | some (r', true) => match r'.put P with
    | none => .error .recvPutOverflow
    | some r'' => .ok (r'', some tag)

/-- The receiving end's handling of several cells in order, with the SENDMEs it sends. -/
def RecvWindow.receiveAll (P : WindowParams) (r : RecvWindow) : List T →
    Except LinkFault (RecvWindow × List T)
  | [] => .ok (r, [])
  | c :: cs => match r.receive P c with
    | .error f => .error f
    | .ok (r', s) => match r'.receiveAll P cs with
      | .error f => .error f
      | .ok (r'', out) => .ok (r'', s.toList ++ out)

/-- A multiple of the increment below the maximum leaves room for one more increment. -/
theorem add_increment_le_maximum (hP : P.Valid) {v : Nat} (hv : v < P.maximum)
    (hd : v % P.increment = 0) : v + P.increment ≤ P.maximum := by
  have hdvd : P.increment ∣ P.maximum - v :=
    Nat.dvd_sub' hP.increment_dvd (Nat.dvd_of_mod_eq_zero hd)
  have := Nat.le_of_dvd (by omega) hdvd
  omega

/-- From a window in range, a cell is received without error, and a SENDME is
sent exactly when the decremented window is a multiple of the increment. -/
theorem RecvOk.receive (hP : P.Valid) {r : RecvWindow} (h : RecvOk P r) (tag : T) :
    r.receive P tag = if (r.window - 1) % P.increment = 0
      then .ok (⟨r.window - 1 + P.increment⟩, some tag) else .ok (⟨r.window - 1⟩, none) := by
  obtain ⟨hpos, hle⟩ := h
  unfold RecvWindow.receive
  rw [RecvWindow.take_eq, if_pos hpos]
  by_cases hd : (r.window - 1) % P.increment = 0
  · have hfit := add_increment_le_maximum hP (by omega) hd
    have hmax := hP.maximum_lt
    simp only [hd, decide_True, RecvWindow.put_eq, if_pos (show r.window - 1 + P.increment < 2 ^ 16 by
      omega), if_true]
  · simp [hd]

theorem RecvOk.receive_ok (hP : P.Valid) {r : RecvWindow} (h : RecvOk P r) (tag : T) :
    ∃ r' s, r.receive P tag = .ok (r', s) ∧ RecvOk P r' := by
  rw [h.receive hP]
  obtain ⟨hpos, hle⟩ := h
  split
  · rename_i hd
    have hfit := add_increment_le_maximum hP (by omega) hd
    have := hP.increment_pos
    exact ⟨_, _, rfl, by simp only; omega, hfit⟩
  · rename_i hd
    refine ⟨_, _, rfl, ?_, by simp only; omega⟩
    rcases Nat.eq_zero_or_pos (r.window - 1) with h0 | h0
    · simp [h0] at hd
    · exact h0

theorem RecvOk.receiveAll_ok (hP : P.Valid) :
    ∀ {r : RecvWindow} (cells : List T), RecvOk P r →
      ∃ r' out, r.receiveAll P cells = .ok (r', out) ∧ RecvOk P r'
  | r, [], h => ⟨r, [], rfl, h⟩
  | r, c :: cs, h => by
    obtain ⟨r1, s, hs, h1⟩ := h.receive_ok hP c
    obtain ⟨r2, out, hout, h2⟩ := receiveAll_ok hP cs h1
    exact ⟨r2, s.toList ++ out, by simp [RecvWindow.receiveAll, hs, hout], h2⟩

theorem RecvWindow.receiveAll_cons {r r' : RecvWindow} {c : T} {cs out : List T}
    (h : r.receiveAll P (c :: cs) = .ok (r', out)) :
    ∃ r1 s out', r.receive P c = .ok (r1, s) ∧ r1.receiveAll P cs = .ok (r', out') ∧
      out = s.toList ++ out' := by
  simp only [receiveAll] at h
  split at h
  · cases h
  · rename_i r1 s hrc
    split at h
    · cases h
    · rename_i r2 out' hra
      simp only [Except.ok.injEq, Prod.mk.injEq] at h
      obtain ⟨rfl, rfl⟩ := h
      exact ⟨r1, s, out', hrc, hra, rfl⟩

theorem RecvWindow.receiveAll_append {r r' r'' : RecvWindow} {cells out : List T} {c : T}
    {s : Option T} (h1 : r.receiveAll P cells = .ok (r', out)) (h2 : r'.receive P c = .ok (r'', s)) :
    r.receiveAll P (cells ++ [c]) = .ok (r'', out ++ s.toList) := by
  induction cells generalizing r out with
  | nil =>
    simp only [receiveAll, Except.ok.injEq, Prod.mk.injEq] at h1
    obtain ⟨rfl, rfl⟩ := h1
    simp [receiveAll, h2]
  | cons c' cs ih =>
    obtain ⟨r1, s1, out', hrc, hra, rfl⟩ := receiveAll_cons h1
    simp [receiveAll, hrc, ih hra]

/-- Receiving cells from a window in range lowers it by one per cell and raises it
by an increment per SENDME sent. -/
theorem RecvWindow.receiveAll_window (hP : P.Valid) :
    ∀ {r r' : RecvWindow} {cells out : List T}, RecvOk P r →
      r.receiveAll P cells = .ok (r', out) → r'.window + cells.length = r.window + P.increment * out.length
  | r, r', [], out, _, h => by
    simp only [receiveAll, Except.ok.injEq, Prod.mk.injEq] at h
    obtain ⟨rfl, rfl⟩ := h
    simp
  | r, r', c :: cs, out, hr, h => by
    obtain ⟨r1, s, out', hrc, hra, rfl⟩ := receiveAll_cons h
    obtain ⟨r2, s2, hrc2, hr1⟩ := hr.receive_ok hP c
    rw [hrc, Except.ok.injEq, Prod.mk.injEq] at hrc2
    obtain ⟨rfl, rfl⟩ := hrc2
    have ih := receiveAll_window hP hr1 hra
    rw [hr.receive hP] at hrc
    have hpos := hr.1
    split at hrc <;> simp only [Except.ok.injEq, Prod.mk.injEq] at hrc <;> obtain ⟨rfl, rfl⟩ := hrc <;>
      simp only [Option.toList, List.length_cons, List.length_append, List.length_nil,
        Nat.mul_add] at ih ⊢ <;> omega

end Receive

/-! ## The link -/

section Link

variable {T : Type} [DecidableEq T] {P : WindowParams}

/-- The two ends of a circuit and what is in flight between them, oldest first. -/
structure Link (T : Type) where
  send : SendWindowInner T
  recv : RecvWindow
  cells : List T
  sendmes : List T

/-- The events of a link: a `take` that completes and sends a cell, the delivery
of the oldest cell, and the delivery of the oldest SENDME. -/
inductive LinkEvent (T : Type)
  | send (tag : T)
  | deliverCell
  | deliverSendme
  deriving DecidableEq, Repr

/-- Both ends created with the same window, nothing in flight. -/
def Link.init (T : Type) (w : Nat) : Link T := ⟨SendWindow.new T w, RecvWindow.new w, [], []⟩

/-- One event of the link. -/
def Link.step (P : WindowParams) (l : Link T) : LinkEvent T → Outcome (Link T) LinkFault
  | .send tag => match l.send.take P tag with
    | some (w, _) => .next { l with send := w, cells := l.cells ++ [tag] }
    | none => .blocked
  | .deliverCell => match l.cells with
    | [] => .blocked
    | c :: cs => match l.recv.receive P c with
      | .error f => .fault f
      | .ok (r, s) => .next { l with recv := r, cells := cs, sendmes := l.sendmes ++ s.toList }
  | .deliverSendme => match l.sendmes with
    | [] => .blocked
    | t :: ts => match l.send.put P (some t) with
      | ⟨w, _, some _⟩ => .next { l with send := w, sendmes := ts }
      | ⟨_, _, none⟩ => .fault .sendPutNone

/-- The invariant of a link. -/
structure LinkInv (P : WindowParams) (l : Link T) : Prop where
  recv_ok : RecvOk P l.recv
  in_flight : ∃ r out, l.recv.receiveAll P l.cells = .ok (r, out) ∧
    l.send.tags = l.sendmes ++ out ∧ l.send.window + P.increment * l.send.tags.length = r.window

variable {l l' : Link T}

omit [DecidableEq T] in
theorem LinkInv.init {w : Nat} (hw1 : 1 ≤ w) (hw : w ≤ P.maximum) : LinkInv P (Link.init T w) :=
  ⟨⟨hw1, hw⟩, ⟨⟨w⟩, [], rfl, rfl, by simp [Link.init, SendWindow.new, RecvWindow.new]⟩⟩

omit [DecidableEq T] in
/-- The receiver's window once the cells in flight are in is in range. -/
theorem LinkInv.end_ok (hP : P.Valid) (h : LinkInv P l) {r : RecvWindow} {out : List T}
    (hra : l.recv.receiveAll P l.cells = .ok (r, out)) : RecvOk P r := by
  obtain ⟨r', out', hra', hok⟩ := h.recv_ok.receiveAll_ok hP l.cells
  rw [hra] at hra'
  simp only [Except.ok.injEq, Prod.mk.injEq] at hra'
  obtain ⟨rfl, rfl⟩ := hra'
  exact hok

/-- The oldest SENDME in flight carries the oldest recorded tag, and there is room
for its increment. -/
theorem LinkInv.accepts (hP : P.Valid) (h : LinkInv P l) {t : T} {ts : List T}
    (hs : l.sendmes = t :: ts) : l.send.accepts P (some t) := by
  obtain ⟨r, out, hra, htags, hwin⟩ := h.in_flight
  have hend := h.end_ok hP hra
  have hlen : 1 ≤ l.send.tags.length := by simp [htags, hs]
  have hmul : P.increment ≤ P.increment * l.send.tags.length := Nat.le_mul_of_pos_right _ hlen
  have := hend.2
  have := hP.maximum_lt
  refine ⟨by simp [htags, hs, tagMatches], ?_⟩
  omega

omit [DecidableEq T] in
/-- A completed `take` keeps the invariant: its cell brings a SENDME from the
receiver exactly when `take` recorded its tag. -/
theorem LinkInv.send (hP : P.Valid) (h : LinkInv P l) {tag : T} {w : SendWindowInner T}
    {v : Nat} (ht : l.send.take P tag = some (w, v)) :
    LinkInv P { l with send := w, cells := l.cells ++ [tag] } := by
  obtain ⟨r, out, hra, htags, hwin⟩ := h.in_flight
  obtain ⟨hpos, -, rfl⟩ := SendWindowInner.take_eq_some.mp ht
  have hres : (r.window - 1) % P.increment = (l.send.window - 1) % P.increment := by
    rw [show r.window - 1 = (l.send.window - 1) + P.increment * l.send.tags.length by omega,
      Nat.add_mul_mod_self_left]
  have hrec := (h.end_ok hP hra).receive hP tag
  refine ⟨h.recv_ok, ?_⟩
  by_cases hd : (l.send.window - 1) % P.increment = 0
  · rw [if_pos (hres.trans hd)] at hrec
    refine ⟨_, _, RecvWindow.receiveAll_append hra hrec, by simp [hd, htags], ?_⟩
    simp only [hd, if_true, List.length_append, List.length_singleton, Nat.mul_succ]
    omega
  · rw [if_neg (fun h' => hd (hres.symm.trans h'))] at hrec
    refine ⟨_, _, RecvWindow.receiveAll_append hra hrec, by simp [hd, htags], ?_⟩
    simp only [hd, if_false, List.append_nil]
    omega

omit [DecidableEq T] in
/-- Delivering the oldest cell keeps the invariant: its SENDME, if any, moves
from the receiver's future to the channel. -/
theorem LinkInv.deliverCell (hP : P.Valid) (h : LinkInv P l) {c : T} {cs : List T}
    (hcells : l.cells = c :: cs) {r1 : RecvWindow} {s : Option T}
    (hrc : l.recv.receive P c = .ok (r1, s)) :
    LinkInv P { l with recv := r1, cells := cs, sendmes := l.sendmes ++ s.toList } := by
  obtain ⟨r, out, hra, htags, hwin⟩ := h.in_flight
  rw [hcells] at hra
  obtain ⟨r1', s', out', hrc', hra', rfl⟩ := RecvWindow.receiveAll_cons hra
  rw [hrc, Except.ok.injEq, Prod.mk.injEq] at hrc'
  obtain ⟨rfl, rfl⟩ := hrc'
  obtain ⟨r2, s2, hrc2, hok⟩ := h.recv_ok.receive_ok hP c
  rw [hrc, Except.ok.injEq, Prod.mk.injEq] at hrc2
  obtain ⟨rfl, rfl⟩ := hrc2
  exact ⟨hok, r, out', hra', by simp [htags], hwin⟩

/-- Delivering the oldest SENDME keeps the invariant: `put` accepts it and pops
the tag it carries. -/
theorem LinkInv.deliverSendme (hP : P.Valid) (h : LinkInv P l) {t : T} {ts : List T}
    (hs : l.sendmes = t :: ts) {w : SendWindowInner T} {f v : Option Nat}
    (hput : l.send.put P (some t) = ⟨w, f, v⟩) : LinkInv P { l with send := w, sendmes := ts } := by
  obtain ⟨r, out, hra, htags, hwin⟩ := h.in_flight
  obtain rfl : w = (l.send.put P (some t)).inner := by rw [hput]
  have hlen : 1 ≤ l.send.tags.length := by simp [htags, hs]
  have hmul : P.increment ≤ P.increment * l.send.tags.length := Nat.le_mul_of_pos_right _ hlen
  refine ⟨h.recv_ok, r, out, hra, by simp [htags, hs], ?_⟩
  simp only [SendWindowInner.put_window, SendWindowInner.put_tags, if_pos (h.accepts hP hs),
    List.length_tail, Nat.mul_sub_one]
  omega

theorem LinkInv.step (hP : P.Valid) {e : LinkEvent T} (h : LinkInv P l)
    (he : l.step P e = .next l') : LinkInv P l' := by
  cases e with
  | send tag =>
    simp only [Link.step] at he
    split at he
    · rename_i w v ht
      cases he
      exact h.send hP ht
    · cases he
  | deliverCell =>
    simp only [Link.step] at he
    split at he
    · cases he
    · rename_i c cs hcells
      split at he
      · cases he
      · rename_i r1 s hrc
        cases he
        exact h.deliverCell hP hcells hrc
  | deliverSendme =>
    simp only [Link.step] at he
    split at he
    · cases he
    · rename_i t ts hs
      split at he
      · rename_i w f v hput
        cases he
        exact h.deliverSendme hP hs hput
      · cases he

/-- No event of a link in its invariant is a protocol error or a panic. -/
theorem LinkInv.step_ne_fault (hP : P.Valid) (h : LinkInv P l) (e : LinkEvent T)
    (f : LinkFault) : l.step P e ≠ .fault f := by
  cases e with
  | send tag =>
    simp only [Link.step]
    split <;> simp
  | deliverCell =>
    simp only [Link.step]
    split
    · simp
    · rename_i c cs _
      obtain ⟨r1, s, hrc, -⟩ := h.recv_ok.receive_ok hP c
      simp [hrc]
  | deliverSendme =>
    simp only [Link.step]
    split
    · simp
    · rename_i t ts hs
      rw [SendWindowInner.put_eq, if_pos (h.accepts hP hs)]
      simp

end Link

/-- Two ends started at the same window `w`, `1 ≤ w ≤ maximum`, under every
interleaving of sends and deliveries: neither end raises a protocol error or
panics, each SENDME in flight carries the oldest recorded tags in order, both
windows stay at most the maximum, and a send window at zero always has a cell
or a SENDME in flight. -/
theorem link_never_faults_or_deadlocks {T : Type} [DecidableEq T] {P : WindowParams}
    (hP : P = circParams ∨ P = streamParams) {w : Nat} (hw1 : 1 ≤ w) (hw : w ≤ P.maximum)
    {l : Link T} (hl : Reachable (Link.step P) (fun _ => True) (Link.init T w) l) :
    (∀ e f, l.step P e ≠ .fault f) ∧ l.sendmes <+: l.send.tags ∧
      l.send.window ≤ P.maximum ∧ l.recv.window ≤ P.maximum ∧
      (l.send.window = 0 → l.cells ≠ [] ∨ l.sendmes ≠ []) := by
  have hv := WindowParams.valid_of_mem hP
  have h := Reachable.invariant (LinkInv P) (LinkInv.init hw1 hw)
    (fun _ _ _ hI _ he => hI.step hv he) hl
  obtain ⟨r, out, hra, htags, hwin⟩ := h.in_flight
  have hend := h.end_ok hv hra
  refine ⟨h.step_ne_fault hv, ⟨out, htags.symm⟩, by have := hend.2; omega, h.recv_ok.2, ?_⟩
  intro hzero
  by_contra hnone
  simp only [ne_eq, not_or, not_not] at hnone
  obtain ⟨hc, hs⟩ := hnone
  rw [hc] at hra
  simp only [RecvWindow.receiveAll, Except.ok.injEq, Prod.mk.injEq] at hra
  obtain ⟨rfl, rfl⟩ := hra
  have := h.recv_ok.1
  simp [htags, hs, hzero] at hwin
  omega

theorem link_never_faults_or_deadlocks_after_delivery :
    ∃ l, Reachable (Link.step circParams) (fun _ => True) (Link.init CircTag 1) l ∧
      l.send.window = 0 ∧ l.cells = [] ∧ (l.cells ≠ [] ∨ l.sendmes ≠ []) ∧
      ∀ e f, l.step circParams e ≠ .fault f := by
  obtain ⟨l, hrun, hw, hc⟩ : ∃ l, runSteps (Link.step circParams) (Link.init CircTag 1)
      [.send (circTag 1), .deliverCell] = .next l ∧ l.send.window = 0 ∧ l.cells = [] :=
    ⟨_, rfl, rfl, rfl⟩
  have hl := Reachable.of_runSteps .init (fun _ _ => trivial) hrun
  have h := link_never_faults_or_deadlocks (Or.inl rfl) (by decide) (by decide) hl
  exact ⟨l, hl, hw, hc, h.2.2.2.2 hw, h.1⟩

/-- Credit is conserved: in every state of a link started at `w`,
`1 ≤ w ≤ maximum`, the receiver's window is the sender's window plus the cells
in flight plus an increment per SENDME in flight. -/
theorem link_credit_conserved {T : Type} [DecidableEq T] {P : WindowParams}
    (hP : P = circParams ∨ P = streamParams) {w : Nat} (hw1 : 1 ≤ w) (hw : w ≤ P.maximum)
    {l : Link T} (hl : Reachable (Link.step P) (fun _ => True) (Link.init T w) l) :
    l.send.window + l.cells.length + P.increment * l.sendmes.length = l.recv.window := by
  have hv := WindowParams.valid_of_mem hP
  have h := Reachable.invariant (LinkInv P) (LinkInv.init hw1 hw)
    (fun _ _ _ hI _ he => hI.step hv he) hl
  obtain ⟨r, out, hra, htags, hwin⟩ := h.in_flight
  have hrecv := RecvWindow.receiveAll_window hv h.recv_ok hra
  rw [htags, List.length_append, Nat.mul_add] at hwin
  omega

/-- A circuit window of one cell: its cell sent and delivered, the receiver's
window is the one SENDME in flight. -/
theorem link_credit_conserved_after_delivery :
    ∃ l, Reachable (Link.step circParams) (fun _ => True) (Link.init CircTag 1) l ∧
      l.send.window = 0 ∧ l.cells = [] ∧ l.sendmes = [circTag 1] ∧ l.recv.window = 100 ∧
      l.send.window + l.cells.length + circParams.increment * l.sendmes.length = l.recv.window := by
  obtain ⟨l, hrun, hw, hc, hs, hr⟩ : ∃ l, runSteps (Link.step circParams) (Link.init CircTag 1)
      [.send (circTag 1), .deliverCell] = .next l ∧ l.send.window = 0 ∧ l.cells = [] ∧
        l.sendmes = [circTag 1] ∧ l.recv.window = 100 := ⟨_, rfl, rfl, rfl, rfl, rfl⟩
  have hl := Reachable.of_runSteps .init (fun _ _ => trivial) hrun
  exact ⟨l, hl, hw, hc, hs, hr, link_credit_conserved (Or.inl rfl) (by decide) (by decide) hl⟩

end Arti.Sendme
