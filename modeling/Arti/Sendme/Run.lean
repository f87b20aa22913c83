import Arti.Sendme.Window
import Mathlib.Data.Nat.Defs
import Mathlib.Order.Interval.Finset.Nat

/-! # Runs of one send window

A run is a sequence of `take` calls that complete and `put` calls with any
argument, accepted or not. `CountInv` is the counting invariant behind every
bound on a `SendWindow`: the queued tags plus the capacity of the current
window never exceed the capacity of the initial one.
-/

namespace Arti.Sendme
set_option autoImplicit false
open SendWindow

/-! ## Capacity -/

section Capacity

variable {P : WindowParams}

theorem capacity_succ (hP : 0 < P.increment) (v : Nat) :
    capacity P (v + 1) = capacity P v + if v % P.increment = 0 then 1 else 0 := by
  unfold capacity
  rw [show v + 1 + P.increment - 1 = v + P.increment by omega, Nat.add_div_right _ hP]
  rcases Nat.eq_zero_or_pos v with rfl | hv
  · simp [Nat.div_eq_of_lt (show P.increment - 1 < P.increment by omega)]
  · rw [show v + P.increment - 1 = (v - 1) + P.increment by omega, Nat.add_div_right _ hP]
    have h := Nat.succ_div (v - 1) P.increment
    rw [Nat.sub_add_cancel hv] at h
    simp only [Nat.dvd_iff_mod_eq_zero] at h
    rw [h]
    split <;> omega

theorem capacity_add_increment (hP : 0 < P.increment) (v : Nat) :
    capacity P (v + P.increment) = capacity P v + 1 := by
  unfold capacity
  rw [show v + P.increment + P.increment - 1 = v + P.increment - 1 + P.increment by omega,
    Nat.add_div_right _ hP]

theorem capacity_mul (hP : 0 < P.increment) (m : Nat) : capacity P (P.increment * m) = m := by
  induction m with
  | zero => simp [capacity, Nat.div_eq_of_lt (show P.increment - 1 < P.increment by omega)]
  | succ m ih => rw [Nat.mul_succ, capacity_add_increment hP, ih]

theorem capacity_mono {a b : Nat} (h : a ≤ b) : capacity P a ≤ capacity P b :=
  Nat.div_le_div_right (by omega)

theorem le_mul_capacity (hP : 0 < P.increment) (v : Nat) : v ≤ P.increment * capacity P v := by
  have h := Nat.lt_mul_div_succ (v + P.increment - 1) hP
  rw [Nat.mul_succ] at h
  unfold capacity
  omega

/-- The capacity of a window is the number of multiples of the increment below it. -/
theorem card_multiples_Ico (hP : 0 < P.increment) (a b : Nat) :
    ((Finset.Ico a b).filter (P.increment ∣ ·)).card = capacity P b - capacity P a := by
  induction b with
  | zero => simp [capacity, Nat.div_eq_of_lt (show P.increment - 1 < P.increment by omega)]
  | succ b ih =>
    rw [capacity_succ hP]
    by_cases hab : a ≤ b
    · have hmono := capacity_mono (P := P) hab
      rw [Nat.Ico_succ_right_eq_insert_Ico hab, Finset.filter_insert]
      by_cases hd : P.increment ∣ b
      · rw [if_pos hd, Finset.card_insert_of_not_mem (by simp), ih,
          if_pos (Nat.mod_eq_zero_of_dvd hd)]
        omega
      · rw [if_neg hd, ih, if_neg (fun h => hd (Nat.dvd_of_mod_eq_zero h))]
        omega
    · have hmono := capacity_mono (P := P) (show b + 1 ≤ a by omega)
      rw [Finset.Ico_eq_empty_of_le (by omega), capacity_succ hP] at *
      simp only [Finset.filter_empty, Finset.card_empty]
      omega

/-- A window below the maximum has at most `maximum / increment` tags of room. -/
theorem capacity_le_div (hP : P.Valid) {w : Nat} (hw : w ≤ P.maximum) :
    capacity P w ≤ P.maximum / P.increment := by
  calc capacity P w ≤ capacity P P.maximum := capacity_mono hw
    _ = P.maximum / P.increment := by
      conv_lhs => rw [← Nat.mul_div_cancel' hP.increment_dvd]
      exact capacity_mul hP.increment_pos _

end Capacity

/-! ## Operations and runs -/

section Runs

variable {T : Type} [DecidableEq T] {P : WindowParams}

/-- An operation on one `SendWindow`: a `take` call, or a `put` call. -/
inductive Op (T : Type)
  | take (tag : T)
  | put (tag : Option T)
  deriving DecidableEq, Repr

/-- One call: `none` when a `take` finds no credit and would suspend; otherwise
the new interior and what the call returns. -/
def SendWindowInner.exec (P : WindowParams) (w : SendWindowInner T) :
    Op T → Option (SendWindowInner T × Option Nat)
  | .take tag => (w.take P tag).map fun r => (r.1, some r.2)
  | .put tag => some ((w.put P tag).inner, (w.put P tag).result)

/-- Calls one after the other, with their results; `none` if a `take` would suspend. -/
def SendWindowInner.run (P : WindowParams) :
    SendWindowInner T → List (Op T) → Option (SendWindowInner T × List (Option Nat))
  | w, [] => some (w, [])
  | w, op :: ops => match w.exec P op with
    | none => none
    | some (w', r) => (w'.run P ops).map fun s => (s.1, r :: s.2)

theorem SendWindowInner.exec_take {w w' : SendWindowInner T} {tag : T} {r : Option Nat} :
    w.exec P (.take tag) = some (w', r) ↔ 0 < w.window ∧ r = some (w.window - 1) ∧
      w' = ⟨w.window - 1, w.tags ++ (if (w.window - 1) % P.increment = 0 then [tag] else []),
        w.unblock⟩ := by
  simp only [exec, take_eq]
  split <;> simp [*, eq_comm, and_comm]

theorem SendWindowInner.exec_put {w w' : SendWindowInner T} {tag : Option T} {r : Option Nat} :
    w.exec P (.put tag) = some (w', r) ↔ w' = (w.put P tag).inner ∧ r = (w.put P tag).result := by
  simp [exec, eq_comm]

/-- An invariant of the calls made so far and the interior, kept by every call
whose result satisfies `Q`, holds after every run whose results satisfy `Q`. -/
theorem SendWindowInner.run_induction (I : List (Op T) → SendWindowInner T → Prop)
    (Q : Option Nat → Prop)
    (hstep : ∀ past w op w' r, I past w → w.exec P op = some (w', r) → Q r → I (past ++ [op]) w') :
    ∀ (ops past : List (Op T)) (w s : SendWindowInner T) (rs : List (Option Nat)),
      I past w → w.run P ops = some (s, rs) → (∀ r ∈ rs, Q r) → I (past ++ ops) s
  | [], past, w, s, rs, hI, hrun, _ => by
    simp only [run, Option.some.injEq, Prod.mk.injEq] at hrun
    obtain ⟨rfl, -⟩ := hrun
    simpa using hI
  | op :: ops, past, w, s, rs, hI, hrun, hQ => by
    simp only [run] at hrun
    split at hrun
    · cases hrun
    · rename_i w' r he
      obtain ⟨⟨s', rs'⟩, hrun', heq⟩ := Option.map_eq_some'.mp hrun
      simp only [Prod.mk.injEq] at heq
      obtain ⟨rfl, rfl⟩ := heq
      have hI' := hstep past w op w' r hI he (hQ r (by simp))
      simpa using run_induction I Q hstep ops (past ++ [op]) w' s' rs' hI' hrun'
        (fun r' hr' => hQ r' (by simp [hr']))

end Runs

/-! ## Runs of a receive window -/

/-- `n` calls of `RecvWindow::take` in a row, with the flags they return;
`none` once one of them returns `None`. -/
def RecvWindow.takes (P : WindowParams) (r : RecvWindow) : Nat → Option (RecvWindow × List Bool)
  | 0 => some (r, [])
  | n + 1 => match r.takes P n with
    | some (r', flags) => (r'.take P).map fun p => (p.1, flags ++ [p.2])
    | none => none

theorem RecvWindow.takes_window (P : WindowParams) (r : RecvWindow) (n : Nat) :
    (r.takes P n).map (·.1) = if n ≤ r.window then some ⟨r.window - n⟩ else none := by
  induction n with
  | zero => simp [RecvWindow.takes]
  | succ n ih =>
    simp only [RecvWindow.takes]
    by_cases hn : n ≤ r.window
    · rw [if_pos hn] at ih
      obtain ⟨⟨r', flags⟩, hT, hr'⟩ := Option.map_eq_some'.mp ih
      simp only at hr'
      subst hr'
      simp only [hT, RecvWindow.take_eq]
      by_cases hn' : n + 1 ≤ r.window
      · rw [if_pos (by omega : 0 < r.window - n), if_pos hn']
        simp [Nat.sub_sub]
      · rw [if_neg (by omega), if_neg hn']
        rfl
    · rw [if_neg hn] at ih
      rw [Option.map_eq_none'.mp ih, if_neg (by omega)]
      rfl

/-- `decrement_n(n)` does what `n` calls of `take` do to the window, and fails
with its own message exactly when one of them would return `None`. -/
theorem decrement_n_eq_takes (P : WindowParams) (r : RecvWindow) (n : Nat) :
    r.decrementN n = match r.takes P n with
      | some (r', _) => .ok r'
      | none => .error (.circProto "Received too many cells on a stream") := by
  have h := RecvWindow.takes_window P r n
  unfold RecvWindow.decrementN checkedSub
  by_cases hn : n ≤ r.window
  · rw [if_pos hn] at h
    obtain ⟨⟨r', flags⟩, hT, hr'⟩ := Option.map_eq_some'.mp h
    simp only at hr'
    rw [if_pos hn, hT, hr']
  · rw [if_neg hn] at h
    rw [if_neg hn, Option.map_eq_none'.mp h]

/-- From a window that is a multiple of the increment, `take` succeeds exactly
as many times as the window, and the `k`-th call flags a SENDME exactly when
`k` is a multiple of the increment. -/
theorem recv_window_sendme_every_increment {P : WindowParams} {w : Nat}
    (hw : P.increment ∣ w) (n : Nat) :
    (RecvWindow.new w).takes P n = if n ≤ w then
      some (⟨w - n⟩, (List.range n).map fun i => decide ((i + 1) % P.increment = 0))
    else none := by
  induction n with
  | zero => simp [RecvWindow.takes, RecvWindow.new]
  | succ n ih =>
    rw [RecvWindow.takes, ih]
    by_cases hn : n + 1 ≤ w
    · have hFlag : (w - (n + 1)) % P.increment = 0 ↔ (n + 1) % P.increment = 0 := by
        rw [← Nat.dvd_iff_mod_eq_zero, ← Nat.dvd_iff_mod_eq_zero]
        exact ⟨fun h => by simpa [Nat.sub_sub_self hn] using Nat.dvd_sub' hw h,
          fun h => Nat.dvd_sub' hw h⟩
      rw [if_pos (by omega), if_pos hn]
      simp only [RecvWindow.take_eq, if_pos (show 0 < w - n by omega)]
      simp [List.range_succ, hFlag, Nat.sub_sub]
    · rw [if_neg hn]
      by_cases hle : n ≤ w
      · rw [if_pos hle]
        simp only [RecvWindow.take_eq, if_neg (show ¬0 < w - n by omega)]
        rfl
      · rw [if_neg hle]

theorem recv_window_sendme_every_increment_stream :
    streamParams.increment ∣ 500 ∧
      ((RecvWindow.new 500).takes streamParams 50).map (fun p => (p.2.getLast?, p.2.count true)) =
        some (some true, 1) ∧
      (RecvWindow.new 500).takes streamParams 501 = none := by
  have hdvd : streamParams.increment ∣ 500 := by decide
  refine ⟨hdvd, ?_, ?_⟩
  · rw [recv_window_sendme_every_increment hdvd 50]
    decide
  · rw [recv_window_sendme_every_increment hdvd 501]
    rfl

/-! ## Systems -/

section Systems

variable {σ ε φ : Type}

/-- What one step of a system does: move to a next state, fail with a fault
(a panic or a protocol error), or not apply (a task that would stay suspended,
an empty channel). -/
inductive Outcome (σ φ : Type)
  | next (s : σ)
  | fault (f : φ)
  | blocked
  deriving DecidableEq, Repr

/-- The states reached from `init` by steps whose events satisfy `allowed`. -/
inductive Reachable (step : σ → ε → Outcome σ φ) (allowed : ε → Prop) (init : σ) : σ → Prop
  | init : Reachable step allowed init init
  | next {s s' : σ} {e : ε} :
      Reachable step allowed init s → allowed e → step s e = .next s' → Reachable step allowed init s'

/-- An invariant that holds initially and is kept by every allowed step holds
in every reachable state. -/
theorem Reachable.invariant {step : σ → ε → Outcome σ φ} {allowed : ε → Prop} {init : σ}
    (I : σ → Prop) (h0 : I init)
    (hstep : ∀ s e s', I s → allowed e → step s e = .next s' → I s') {s : σ}
    (h : Reachable step allowed init s) : I s := by
  induction h with
  | init => exact h0
  | next _ he hs ih => exact hstep _ _ _ ih he hs

/-- Steps one after the other, stopping at the first fault or blocked step. -/
def runSteps (step : σ → ε → Outcome σ φ) : σ → List ε → Outcome σ φ
  | s, [] => .next s
  | s, e :: es => match step s e with
    | .next s' => runSteps step s' es
    | .fault f => .fault f
    | .blocked => .blocked

/-- A trace that runs through continues with the steps after it. -/
theorem runSteps_append {step : σ → ε → Outcome σ φ} :
    ∀ {s s' : σ} {es : List ε}, runSteps step s es = .next s' →
      ∀ es' : List ε, runSteps step s (es ++ es') = runSteps step s' es'
  | s, s', [], h, es' => by cases h; rfl
  | s, s', e :: es, h, es' => by
    simp only [runSteps] at h
    split at h
    · rename_i s'' he
      simp only [List.cons_append, runSteps, he]
      exact runSteps_append h es'
    · cases h
    · cases h

/-- The state a trace of allowed steps ends in is reachable. -/
theorem Reachable.of_runSteps {step : σ → ε → Outcome σ φ} {allowed : ε → Prop} {init : σ} :
    ∀ {s s' : σ} {es : List ε}, Reachable step allowed init s → (∀ e ∈ es, allowed e) →
      runSteps step s es = .next s' → Reachable step allowed init s'
  | s, s', [], hs, _, h => by cases h; exact hs
  | s, s', e :: es, hs, hes, h => by
    simp only [runSteps] at h
    split at h
    · rename_i s'' he
      exact of_runSteps (.next hs (hes e (by simp)) he) (fun e' he' => hes e' (by simp [he'])) h
    · cases h
    · cases h

end Systems

/-! ## The counting invariant -/

section Counting

variable {T : Type} [DecidableEq T] {P : WindowParams}

theorem tagMatches_eq_true {o x : Option T} :
    tagMatches o x = true ↔ ∃ t, o = some t ∧ (x = none ∨ x = some t) := by
  cases o <;> cases x <;> simp [tagMatches, eq_comm]

theorem tagMatches_eq_false {o x : Option T} :
    tagMatches o x = false ↔ o = none ∨ ∃ t, x = some t ∧ o ≠ some t := by
  cases o <;> cases x <;> simp [tagMatches]

theorem SendWindowInner.tags_ne_nil_of_accepts {w : SendWindowInner T} {x : Option T}
    (h : w.accepts P x) : w.tags ≠ [] := by
  obtain ⟨t, ht, -⟩ := tagMatches_eq_true.mp h.1
  intro hnil
  simp [hnil] at ht

/-- The counting invariant of a window started at `w0`. -/
def CountInv (P : WindowParams) (w0 : Nat) (w : SendWindowInner T) : Prop :=
  w.tags.length + capacity P w.window ≤ capacity P w0

theorem CountInv.exec {w0 : Nat} {w w' : SendWindowInner T} {op : Op T} {r : Option Nat}
    (hP : 0 < P.increment) (h : CountInv P w0 w) (he : w.exec P op = some (w', r)) :
    CountInv P w0 w' := by
  unfold CountInv at *
  cases op with
  | take tag =>
    obtain ⟨hpos, -, rfl⟩ := SendWindowInner.exec_take.mp he
    have hcap := capacity_succ hP (w.window - 1)
    rw [Nat.sub_add_cancel hpos] at hcap
    split <;> simp only [List.length_append, List.length_singleton, List.length_nil] <;>
      split at hcap <;> omega
  | put tag =>
    obtain ⟨rfl, -⟩ := SendWindowInner.exec_put.mp he
    rw [SendWindowInner.put_tags, SendWindowInner.put_window, List.length_tail]
    split
    · rename_i hacc
      have hne := SendWindowInner.tags_ne_nil_of_accepts hacc
      have := List.length_pos.mpr hne
      rw [capacity_add_increment hP]
      omega
    · omega

omit [DecidableEq T] in
theorem CountInv.new (w0 : Nat) : CountInv P w0 (SendWindow.new T w0) := by
  simp [CountInv, SendWindow.new]

theorem CountInv.of_run {w0 : Nat} (hP : 0 < P.increment) {ops : List (Op T)}
    {s : SendWindowInner T} {rs : List (Option Nat)}
    (hrun : (SendWindow.new T w0).run P ops = some (s, rs)) : CountInv P w0 s :=
  SendWindowInner.run_induction (fun _ w => CountInv P w0 w) (fun _ => True)
    (fun _ _ _ _ _ hI he _ => hI.exec hP he) ops [] _ s rs (CountInv.new w0) hrun (by simp)

section Consequences

variable {w0 : Nat} {w : SendWindowInner T} (hP : P.Valid) (hw0 : w0 ≤ P.maximum)
include hP hw0

omit [DecidableEq T] in
theorem CountInv.window_le (h : CountInv P w0 w) : w.window ≤ P.maximum := by
  have h1 := le_mul_capacity hP.increment_pos w.window
  have h2 := capacity_le_div hP hw0
  have h3 : P.increment * capacity P w.window ≤ P.increment * (P.maximum / P.increment) :=
    Nat.mul_le_mul_left _ (by unfold CountInv at h; omega)
  rw [Nat.mul_div_cancel' hP.increment_dvd] at h3
  omega

theorem CountInv.accepts_iff (h : CountInv P w0 w) (x : Option T) :
    w.accepts P x ↔ tagMatches w.tags.head? x = true := by
  refine ⟨And.left, fun hm => ⟨hm, ?_⟩⟩
  have hne : w.tags ≠ [] := fun hnil => by simp [hnil, tagMatches] at hm
  have hlen := List.length_pos.mpr hne
  have hnext : CountInv P w0 ⟨w.window + P.increment, w.tags.tail, none⟩ := by
    unfold CountInv at *
    simp only [List.length_tail, capacity_add_increment hP.increment_pos]
    omega
  have h1 : w.window + P.increment ≤ P.maximum := hnext.window_le hP hw0
  have := hP.maximum_lt
  omega

end Consequences

end Counting

/-! ## Every run of a circuit or stream window -/

/-- From an initial window at most the maximum, every run keeps the window under
the maximum and the queue within the multiples of the increment between the
current and the initial window; so `put` returns `None` only when the queue
front is missing or differs from the SENDME's tag. -/
theorem send_window_tags_bounded {T : Type} [DecidableEq T] {P : WindowParams}
    (hP : P = circParams ∨ P = streamParams) {w : Nat} (hw : w ≤ P.maximum)
    {ops : List (Op T)} {s : SendWindowInner T} {rs : List (Option Nat)}
    (hrun : (SendWindow.new T w).run P ops = some (s, rs)) :
    s.window ≤ P.maximum ∧
      s.tags.length ≤ ((Finset.Ico s.window w).filter (P.increment ∣ ·)).card ∧
      s.tags.length ≤ P.maximum / P.increment ∧
      ∀ x, (s.put P x).result = none ↔
        s.tags.head? = none ∨ ∃ t, x = some t ∧ s.tags.head? ≠ some t := by
  have hv := WindowParams.valid_of_mem hP
  have hI := CountInv.of_run hv.increment_pos hrun
  refine ⟨hI.window_le hv hw, ?_, ?_, fun x => ?_⟩
  · rw [card_multiples_Ico hv.increment_pos]
    unfold CountInv at hI
    omega
  · have := capacity_le_div hv hw
    unfold CountInv at hI
    omega
  · simp [SendWindowInner.put_result, hI.accepts_iff hv hw x, tagMatches_eq_false]

/-- A stream window of 100: fifty takes queue a tag, a SENDME for it is
accepted, and fifty more takes queue another. -/
theorem send_window_tags_bounded_after_sendme :
    ∃ s rs, (SendWindow.new NoTag 100).run streamParams
        (List.replicate 50 (Op.take ()) ++ Op.put none :: List.replicate 50 (Op.take ())) = some (s, rs) ∧
      rs[50]? = some (some 100) ∧ s.tags = [()] ∧
      s.window ≤ streamParams.maximum ∧
      s.tags.length ≤ ((Finset.Ico s.window 100).filter (streamParams.increment ∣ ·)).card ∧
      s.tags.length ≤ streamParams.maximum / streamParams.increment ∧
      ∀ x, (s.put streamParams x).result = none ↔
        s.tags.head? = none ∨ ∃ t, x = some t ∧ s.tags.head? ≠ some t := by
  obtain ⟨s, rs, hrun, hput, htags⟩ : ∃ s rs, (SendWindow.new NoTag 100).run streamParams
      (List.replicate 50 (Op.take ()) ++ Op.put none :: List.replicate 50 (Op.take ())) = some (s, rs) ∧
      rs[50]? = some (some 100) ∧ s.tags = [()] := ⟨_, _, rfl, rfl, rfl⟩
  exact ⟨s, rs, hrun, hput, htags, send_window_tags_bounded (Or.inr rfl) (by decide) hrun⟩

/-! ## Rejected SENDMEs -/

/-- The tag `[k; 20]` of the spec's scenarios. -/
def circTag (k : Fin 256) : CircTag := Mathlib.Vector.replicate 20 k

/-- A `put` that returns `None` leaves the window and `unblock` as they were and
wakes no one, but its queue has lost its front. -/
theorem put_rejected_pops_front {T : Type} [DecidableEq T] {P : WindowParams}
    (w : SendWindowInner T) (x : Option T) (h : (w.put P x).result = none) :
    (w.put P x).inner = ⟨w.window, w.tags.tail, w.unblock⟩ ∧ (w.put P x).fired = none := by
  rw [SendWindowInner.put_eq] at *
  by_cases hacc : w.accepts P x
  · rw [if_pos hacc] at h
    cases h
  · rw [if_neg hacc]
    exact ⟨rfl, rfl⟩

theorem put_rejected_pops_front_waiting :
    ((⟨0, [circTag 1, circTag 2], some 3⟩ : SendWindowInner CircTag).put circParams
        (some (circTag 9))).result = none ∧
      ((⟨0, [circTag 1, circTag 2], some 3⟩ : SendWindowInner CircTag).put circParams
        (some (circTag 9))).inner = ⟨0, [circTag 2], some 3⟩ ∧
      ((⟨0, [circTag 1, circTag 2], some 3⟩ : SendWindowInner CircTag).put circParams
        (some (circTag 9))).fired = none := by
  have h : ((⟨0, [circTag 1, circTag 2], some 3⟩ : SendWindowInner CircTag).put circParams
      (some (circTag 9))).result = none := by decide
  exact ⟨h, put_rejected_pops_front _ _ h⟩

/-- One take from a window of one records `[1; 20]`; a SENDME carrying `[9; 20]`
is then rejected, and the queue no longer holds `[1; 20]`. -/
theorem rejected_sendme_loses_oldest_tag :
    (SendWindow.new CircTag 1).run circParams [.take (circTag 1)] =
        some (⟨0, [circTag 1], none⟩, [some 0]) ∧
      ((⟨0, [circTag 1], none⟩ : SendWindowInner CircTag).put circParams
        (some (circTag 9))).result = none ∧
      ((⟨0, [circTag 1], none⟩ : SendWindowInner CircTag).put circParams
        (some (circTag 9))).inner.tags = [] := by
  decide

end Arti.Sendme
