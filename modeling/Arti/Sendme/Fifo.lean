import Arti.Sendme.Run

/-! # SENDMEs are matched oldest first

From an initial window that is a multiple of the increment, `take` number `j`
records its tag exactly when `j` is a multiple of the increment, whatever the
puts between the takes did to the window. `FifoInv` says that the queue is then
the list of those tags less the ones the accepted puts consumed, so the `k`-th
put is checked against the tag of take number `k * increment`.
-/

namespace Arti.Sendme
set_option autoImplicit false

section Recorded

variable {T : Type}

/-- The tags of take number `inc`, `2 * inc`, ... among the tags `ts` of a run's takes. -/
def recorded (inc : Nat) (ts : List T) : List T :=
  (ts.enum.filter fun p => (p.1 + 1) % inc = 0).map Prod.snd

theorem recorded_append (inc : Nat) (ts : List T) (t : T) :
    recorded inc (ts ++ [t]) = recorded inc ts ++ if (ts.length + 1) % inc = 0 then [t] else [] := by
  unfold recorded
  rw [List.enum_append, List.filter_append, List.map_append]
  split <;> simp [*]

theorem length_recorded (inc : Nat) (ts : List T) : (recorded inc ts).length = ts.length / inc := by
  induction ts using List.reverseRecOn with
  | nil => simp [recorded]
  | append_singleton ts t ih =>
    rw [recorded_append, List.length_append, ih, List.length_append, List.length_singleton,
      Nat.succ_div]
    simp only [Nat.dvd_iff_mod_eq_zero]
    split <;> simp

/-- The `k`-th recorded tag is the tag of take number `(k + 1) * inc`. -/
theorem getElem?_recorded {inc : Nat} (hinc : 0 < inc) (ts : List T) (k : Nat) :
    (recorded inc ts)[k]? = ts[(k + 1) * inc - 1]? := by
  induction ts using List.reverseRecOn with
  | nil => simp [recorded]
  | append_singleton ts t ih =>
    rw [recorded_append]
    have hlen := length_recorded inc ts
    have hdiv := Nat.div_add_mod ts.length inc
    have hmod := Nat.mod_lt ts.length hinc
    have hpos : 0 < (k + 1) * inc := Nat.mul_pos (Nat.succ_pos k) hinc
    by_cases hk : k < ts.length / inc
    · have h1 : (k + 1) * inc ≤ ts.length / inc * inc := Nat.mul_le_mul_right inc hk
      rw [List.getElem?_append_left (by omega), ih,
        List.getElem?_append_left (by rw [Nat.mul_comm inc] at hdiv; omega)]
    · rw [List.getElem?_append_right (by omega), hlen]
      have h1 : (ts.length / inc + 1) * inc ≤ (k + 1) * inc :=
        Nat.mul_le_mul_right inc (by omega)
      rw [Nat.succ_mul, Nat.mul_comm] at h1
      split
      · rename_i hd
        have hq : ts.length + 1 = inc * (ts.length / inc + 1) := by
          have h := Nat.div_add_mod (ts.length + 1) inc
          rw [hd, Nat.succ_div, if_pos (Nat.dvd_of_mod_eq_zero hd)] at h
          omega
        by_cases hkq : k = ts.length / inc
        · subst hkq
          rw [Nat.sub_self, Nat.mul_comm, ← hq, Nat.add_sub_cancel,
            List.getElem?_append_right (le_refl _), Nat.sub_self]
        · have h2 : inc * (ts.length / inc + 1) + inc ≤ (k + 1) * inc := by
            have := Nat.mul_le_mul_right inc (show ts.length / inc + 2 ≤ k + 1 by omega)
            rw [Nat.add_mul, Nat.mul_comm] at this
            omega
          rw [List.getElem?_eq_none (by simp; omega), List.getElem?_eq_none (by simp; omega)]
      · rename_i hd
        have hr : ts.length % inc + 1 < inc := by
          rcases Nat.lt_or_ge (ts.length % inc + 1) inc with h | h
          · exact h
          · exfalso
            apply hd
            have : ts.length + 1 = inc * (ts.length / inc + 1) := by rw [Nat.mul_succ]; omega
            rw [this, Nat.mul_mod_right]
        rw [List.getElem?_eq_none (by simp), List.getElem?_eq_none (by simp; omega)]

end Recorded

section Counts

variable {T : Type}

/-- The tags of the `take` calls of a run, in order. -/
def takeTags : List (Op T) → List T :=
  List.filterMap fun | .take t => some t | .put _ => none

/-- The number of `put` calls of a run. -/
def putCount : List (Op T) → Nat :=
  List.countP fun | .take _ => false | .put _ => true

@[simp] theorem takeTags_nil : takeTags ([] : List (Op T)) = [] := rfl
@[simp] theorem putCount_nil : putCount ([] : List (Op T)) = 0 := rfl

@[simp] theorem takeTags_append_take (ops : List (Op T)) (t : T) :
    takeTags (ops ++ [.take t]) = takeTags ops ++ [t] := by
  simp [takeTags, List.filterMap_append]

@[simp] theorem takeTags_append_put (ops : List (Op T)) (x : Option T) :
    takeTags (ops ++ [.put x]) = takeTags ops := by
  simp [takeTags, List.filterMap_append]

@[simp] theorem putCount_append_take (ops : List (Op T)) (t : T) :
    putCount (ops ++ [.take t]) = putCount ops := by
  simp [putCount, List.countP_append]

@[simp] theorem putCount_append_put (ops : List (Op T)) (x : Option T) :
    putCount (ops ++ [.put x]) = putCount ops + 1 := by
  simp [putCount, List.countP_append]

@[simp] theorem takeTags_map_take (tags : List T) : takeTags (tags.map Op.take) = tags := by
  induction tags <;> simp_all [takeTags]

@[simp] theorem putCount_map_take (tags : List T) : putCount (tags.map Op.take) = 0 := by
  induction tags <;> simp_all [putCount]

end Counts

section Fifo

variable {T : Type} [DecidableEq T] {P : WindowParams}

/-- A window started at `w0` after the calls `past`, all of whose puts were accepted:
each take cost one unit and each put returned an increment; the puts consumed the
first recorded tags, and the queue holds the rest. -/
structure FifoInv (P : WindowParams) (w0 : Nat) (past : List (Op T)) (w : SendWindowInner T) :
    Prop where
  window_eq : w.window + (takeTags past).length = w0 + P.increment * putCount past
  puts_le : putCount past ≤ (recorded P.increment (takeTags past)).length
  tags_eq : w.tags = (recorded P.increment (takeTags past)).drop (putCount past)

theorem FifoInv.exec {w0 : Nat} {past : List (Op T)} {w w' : SendWindowInner T} {op : Op T}
    {r : Option Nat} (hdvd : P.increment ∣ w0) (h : FifoInv P w0 past w)
    (he : w.exec P op = some (w', r)) (hr : r ≠ none) : FifoInv P w0 (past ++ [op]) w' := by
  cases op with
  | take tag =>
    obtain ⟨hpos, -, rfl⟩ := SendWindowInner.exec_take.mp he
    have hw := h.window_eq
    have hsum : P.increment ∣ (w.window - 1) + ((takeTags past).length + 1) := by
      rw [show w.window - 1 + ((takeTags past).length + 1) = w0 + P.increment * putCount past by
        omega]
      exact Nat.dvd_add hdvd (Nat.dvd_mul_right _ _)
    have hrec : (w.window - 1) % P.increment = 0 ↔
        ((takeTags past).length + 1) % P.increment = 0 := by
      rw [← Nat.dvd_iff_mod_eq_zero, ← Nat.dvd_iff_mod_eq_zero]
      exact ⟨fun h1 => (Nat.dvd_add_right h1).mp hsum, fun h2 => (Nat.dvd_add_left h2).mp hsum⟩
    refine ⟨?_, ?_, ?_⟩
    · simp only [takeTags_append_take, putCount_append_take, List.length_append,
        List.length_singleton]
      omega
    · simp only [takeTags_append_take, putCount_append_take, recorded_append, List.length_append]
      have := h.puts_le
      omega
    · simp only [takeTags_append_take, putCount_append_take, recorded_append,
        List.drop_append_of_le_length h.puts_le, h.tags_eq, hrec]
  | put x =>
    obtain ⟨rfl, rfl⟩ := SendWindowInner.exec_put.mp he
    have hacc : w.accepts P x := by
      by_contra hn
      exact hr (by simp [hn])
    have hne := SendWindowInner.tags_ne_nil_of_accepts hacc
    rw [SendWindowInner.put_eq, if_pos hacc]
    refine ⟨?_, ?_, ?_⟩
    · simp only [takeTags_append_put, putCount_append_put, Nat.mul_succ]
      have := h.window_eq
      omega
    · simp only [takeTags_append_put, putCount_append_put]
      rw [h.tags_eq, Ne, List.drop_eq_nil_iff] at hne
      omega
    · simp only [takeTags_append_put, putCount_append_put, h.tags_eq, List.tail_drop]

theorem FifoInv.of_run {w0 : Nat} (hdvd : P.increment ∣ w0) {ops : List (Op T)}
    {s : SendWindowInner T} {rs : List (Option Nat)}
    (hrun : (SendWindow.new T w0).run P ops = some (s, rs)) (hok : none ∉ rs) :
    FifoInv P w0 ops s := by
  have hinit : FifoInv P w0 [] (SendWindow.new T w0) :=
    ⟨by simp [SendWindow.new], by simp, by simp [SendWindow.new, recorded]⟩
  simpa using SendWindowInner.run_induction (fun past w => FifoInv P w0 past w) (· ≠ none)
    (fun _ _ _ _ _ hI he hr => hI.exec hdvd he hr) ops [] _ s rs hinit hrun
    (fun r hr h => hok (h ▸ hr))

theorem SendWindowInner.run_takes (w : SendWindowInner T) (tags : List T)
    (hLen : tags.length ≤ w.window) :
    ∃ s rs, w.run P (tags.map .take) = some (s, rs) ∧ none ∉ rs := by
  induction tags generalizing w with
  | nil => exact ⟨w, [], rfl, by simp⟩
  | cons t ts ih =>
    simp only [List.length_cons] at hLen
    obtain ⟨s, rs, hrun, hok⟩ := ih ⟨w.window - 1,
      w.tags ++ (if (w.window - 1) % P.increment = 0 then [t] else []), w.unblock⟩
      (show ts.length ≤ w.window - 1 by omega)
    refine ⟨s, some (w.window - 1) :: rs, ?_, by simp [hok]⟩
    simp only [List.map_cons, run, exec, take_eq, if_pos (show 0 < w.window by omega),
      Option.map_some']
    rw [hrun]
    rfl

end Fifo

/-- From a window `w` that is a multiple of the increment, `n ≤ w` takes in a
row all complete, leave the window at `w - n`, and queue exactly the tags of
take number `increment`, `2 * increment`, ..., in order. -/
theorem take_run_records_every_increment {T : Type} [DecidableEq T] {P : WindowParams} {w : Nat}
    (hdvd : P.increment ∣ w) (tags : List T) (hLen : tags.length ≤ w) :
    ∃ s rs, (SendWindow.new T w).run P (tags.map .take) = some (s, rs) ∧
      s.window = w - tags.length ∧ s.tags = recorded P.increment tags := by
  obtain ⟨s, rs, hrun, hok⟩ := SendWindowInner.run_takes (P := P) (SendWindow.new T w) tags hLen
  have hI := FifoInv.of_run hdvd hrun hok
  have hw := hI.window_eq
  simp only [takeTags_map_take, putCount_map_take, Nat.mul_zero, Nat.add_zero] at hw
  refine ⟨s, rs, hrun, by omega, by simpa using hI.tags_eq⟩

/-- The tags of a thousand takes from a circuit window of 1000, the `k`-th
carrying `[k / 100; 20]`. -/
def thousandTakeTags : List CircTag :=
  (List.range 1000).map fun k => circTag (Fin.ofNat' 256 ((k + 1) / 100))

set_option maxRecDepth 10000 in
theorem take_run_records_every_increment_thousand :
    circParams.increment ∣ 1000 ∧ thousandTakeTags.length ≤ 1000 ∧
      ∃ s rs, (SendWindow.new CircTag 1000).run circParams (thousandTakeTags.map .take) =
          some (s, rs) ∧
        s.window = 0 ∧ s.tags = (List.range 10).map fun i => circTag (Fin.ofNat' 256 (i + 1)) := by
  have hdvd : circParams.increment ∣ 1000 := by decide
  have hLen : thousandTakeTags.length ≤ 1000 := by
    simp only [thousandTakeTags, List.length_map, List.length_range, le_refl]
  obtain ⟨s, rs, hrun, hw, htags⟩ := take_run_records_every_increment hdvd thousandTakeTags hLen
  simp only [thousandTakeTags, List.length_map, List.length_range, Nat.sub_self] at hw
  exact ⟨hdvd, hLen, s, rs, hrun, hw, htags.trans (by decide)⟩

/-- From an initial window that is a multiple of the increment and at most the
maximum, after any interleaving of completed takes and accepted puts, the next
put, the `k`-th, returns `window + increment` exactly when take number
`k * increment` has completed and the SENDME carries no tag or that take's tag;
otherwise it returns `None`. -/
theorem put_matches_take_number {T : Type} [DecidableEq T] {P : WindowParams}
    (hP : P = circParams ∨ P = streamParams) {w : Nat} (hdvd : P.increment ∣ w)
    (hw : w ≤ P.maximum) {ops : List (Op T)} {s : SendWindowInner T} {rs : List (Option Nat)}
    (hrun : (SendWindow.new T w).run P ops = some (s, rs)) (hok : none ∉ rs) (x : Option T) :
    ((s.put P x).result = some (s.window + P.increment) ↔
      ∃ t, (takeTags ops)[(putCount ops + 1) * P.increment - 1]? = some t ∧
        (x = none ∨ x = some t)) ∧
    ((s.put P x).result = none ∨ (s.put P x).result = some (s.window + P.increment)) := by
  have hv := WindowParams.valid_of_mem hP
  have hI := FifoInv.of_run hdvd hrun hok
  have hacc := (CountInv.of_run hv.increment_pos hrun).accepts_iff hv hw x
  have hhead : s.tags.head? = (takeTags ops)[(putCount ops + 1) * P.increment - 1]? := by
    rw [hI.tags_eq, List.head?_drop, getElem?_recorded hv.increment_pos]
  rw [SendWindowInner.put_result]
  by_cases h : s.accepts P x
  · rw [if_pos h, ← hhead]
    exact ⟨iff_of_true rfl (tagMatches_eq_true.mp (hacc.mp h)), Or.inr rfl⟩
  · rw [if_neg h, ← hhead]
    exact ⟨iff_of_false (by simp) fun h' => h (hacc.mpr (tagMatches_eq_true.mpr h')), Or.inl rfl⟩

/-- A hundred takes tagged `[1; 20]` to `[100; 20]`, the SENDME for the
hundredth, and a hundred more takes tagged `[101; 20]` to `[200; 20]`. -/
def sendmeBetweenTakes : List (Op CircTag) :=
  (List.range 100).map (fun j => .take (circTag (Fin.ofNat' 256 (j + 1)))) ++
    .put (some (circTag 100)) ::
      (List.range 100).map (fun j => .take (circTag (Fin.ofNat' 256 (j + 101))))

set_option maxRecDepth 10000 in
/-- From a circuit window of 200, after that run the next SENDME matches take
number 200 only: it is accepted with that take's tag and rejected with the tag
the first SENDME matched. -/
theorem put_matches_take_number_sendme_between_takes :
    ∃ s rs, (SendWindow.new CircTag 200).run circParams sendmeBetweenTakes = some (s, rs) ∧
      none ∉ rs ∧
      (s.put circParams (some (circTag 200))).result = some (s.window + circParams.increment) ∧
      (s.put circParams (some (circTag 100))).result = none := by
  obtain ⟨s, rs, hrun, hok⟩ : ∃ s rs, (SendWindow.new CircTag 200).run circParams
      sendmeBetweenTakes = some (s, rs) ∧ none ∉ rs := ⟨_, _, rfl, by decide⟩
  have hTag : (takeTags sendmeBetweenTakes)[(putCount sendmeBetweenTakes + 1) *
      circParams.increment - 1]? = some (circTag 200) := by decide
  have h1 := put_matches_take_number (Or.inl rfl) (by decide) (by decide) hrun hok
    (some (circTag 200))
  have h2 := put_matches_take_number (Or.inl rfl) (by decide) (by decide) hrun hok
    (some (circTag 100))
  refine ⟨s, rs, hrun, hok, h1.1.mpr ⟨circTag 200, hTag, .inr rfl⟩,
    h2.2.resolve_right fun hSome => ?_⟩
  obtain ⟨t, ht, hx⟩ := h2.1.mp hSome
  rw [hTag, Option.some.injEq] at ht
  subst ht
  revert hx
  decide

end Arti.Sendme
