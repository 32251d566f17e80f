import PfdProfiler.CalibrationFacts

/-! The contract of `pfd_store_init`: the correction it publishes, the retry policy of its
calibration, and its independence from the store it replaces. -/

namespace PfdProfiler

theorem second_of_failed {failed : List (List UInt64)} (last : List UInt64) (hlen : failed.length = 10) :
    ((failed ++ [last]).drop 1).take 1 = [failed.getD 1 []] := by
  match failed, hlen with
  | _ :: _ :: _, _ => rfl

/-- The retry loop of a call and what follows it. The rounds that fail the gate
(`std_pp > PFD_CORRECTION_CONF`) are retried, at most ten times; any other round ends the
loop, a round whose `std_pp` is `NAN` included, and its average is kept. The warning of line
201 is printed once, by the second failed round. After eleven failed rounds the average is the
median of the last round's non-zero clipped samples or, when there is none, the profile's
default (`32` on an unknown profile), and the correction is that average rounded half up,
with no direct measurement of the counter. The average chosen then goes through lines 247-314
as `SettledCorrection` says: an accepted average of `0` is replaced by the direct delta. -/
def RetryLaw (b : Build) (p : Platform) (fresh : Fresh) (st : Store) (n : UInt32) : Prop :=
  let ch := initChoice b p fresh st n
  (∃ o, pfdStoreInit b p fresh st n = .ok o ∧ SettledCorrection p.getticks ch o.store.pfdCorrection) ∧
  ∃ failed last, ch.rounds = failed ++ [last] ∧ failed.length ≤ 10 ∧
    (∀ r ∈ failed, FailsGate p n r) ∧
    ((¬ FailsGate p n last ∧ ch.avg = (roundRecord p n last).avg ∧
        ch.calib.out = ((failed.drop 1).take 1).map (recalcMsg p n)) ∨
      (FailsGate p n last ∧ failed.length = 10 ∧
        (nonZero (last.map clip) ≠ [] → ch.avg = .fin (median (nonZero (last.map clip))) ∧
          ch.calib.out = [recalcMsg p n (failed.getD 1 []), .settingManually, .usingMedian ch.avg]) ∧
        (nonZero (last.map clip) = [] → ch.avg = (profileAvg b.profile).getD pfdConservativeDefault ∧
          ch.calib.out = recalcMsg p n (failed.getD 1 []) :: .settingManually ::
            if b.profile = .other then [.unknownArchitecture pfdConservativeDefault] else []) ∧
        ∃ a o, ch.avg = .fin a ∧ pfdStoreInit b p fresh st n = .ok o ∧ o.clock = ch.calib.clock ∧
          o.store.pfdCorrection.toNat = ⌊a + 1 / 2⌋₊))

theorem pfdStoreInit_retries (b : Build) (p : Platform) (fresh : Fresh) (st : Store) (n : UInt32) :
    RetryLaw b p fresh st n := by
  unfold RetryLaw
  intro ch
  obtain ⟨c₀, hsettle₀, hcorr⟩ := settle_correction p.getticks ch (retryOutcome_avg (initChoice_spec b p fresh st n))
  obtain ⟨failed, last, hrounds, hle, hfailed, hlast, -, -, hcase⟩ := initChoice_spec b p fresh st n
  rw [List.nil_append] at hrounds
  refine ⟨⟨_, pfdStoreInit_of_settle hsettle₀, hcorr⟩, failed, last, hrounds, hle, hfailed, ?_⟩
  rcases hcase with ⟨hpass, havg, -, hout⟩ | ⟨hfail, hlen, c', hslot, hout, hman⟩
  · exact .inl ⟨hpass, havg, by rw [hout, List.nil_append, recalcWarnings_zero]⟩
  · obtain ⟨-, -, -, ⟨q, hq, h1, h2⟩, hmed, hprof⟩ := manualAvg_spec b.profile n c' last hslot hlast
    rw [Prod.mk.injEq] at hman
    obtain ⟨hcalib, havg⟩ := hman
    have hwarn : c'.out = [recalcMsg p n (failed.getD 1 [])] := by
      rw [hout, List.nil_append, recalcWarnings_zero, second_of_failed last hlen, List.map_singleton]
    have hq' : ch.avg = .fin q := havg.trans hq
    obtain ⟨c, hsettle, -, -, -, hfin, -⟩ := settle_spec p.getticks ch (.inr ⟨q, hq', by linarith, h2⟩)
    refine .inr ⟨hfail, hlen, fun hne => ?_, fun hnil => ?_,
      q, _, hq', pfdStoreInit_of_settle hsettle, (hfin q hq' h1).2.1, (hfin q hq' h1).1⟩
    · obtain ⟨hmed', hout'⟩ := hmed hne
      exact ⟨havg.trans hmed', by rw [hcalib, hout', hwarn, havg]; rfl⟩
    · obtain ⟨hprof', hout'⟩ := hprof hnil
      exact ⟨havg.trans hprof', by rw [hcalib, hout', hwarn]; rfl⟩

/-- A counter that reads `0` twice and then steps by `5`: the only round measures `0`, its
`std_pp` is `NAN`, which does not fail the gate, so the round is accepted; its average `0` is
then replaced by the direct delta `5` of `measure_minimum_tick_delta(64)`. -/
theorem pfdStoreInit_zero_round_accepted :
    ∃ o, pfdStoreInit ⟨.other, 1, Nat.one_pos⟩ ⟨fun k => if k < 2 ∨ k % 2 = 0 then 0 else 5, id⟩
        ⟨fun _ => 0, fun _ _ => 0⟩ ⟨none, none, 0⟩ 1 = .ok o ∧
      o.rounds = [[0]] ∧
      stdPp (roundRecord ⟨fun k => if k < 2 ∨ k % 2 = 0 then 0 else 5, id⟩ 1 [0]) = .nan ∧
      o.store.pfdCorrection = 5 ∧
      o.out = [.directDelta 5, .notPositive pfdConservativeDefault, .setCorrection 5 0] := by
  set g : Nat → UInt64 := fun k => if k < 2 ∨ k % 2 = 0 then 0 else 5 with hg
  set p : Platform := ⟨g, id⟩
  have five : ∀ d ∈ tickDeltas g (64 : UInt32).toNat 2, d = 5 := by
    intro d hd
    simp only [tickDeltas, List.mem_map, List.mem_range] at hd
    obtain ⟨i, -, rfl⟩ := hd
    simp only [hg]
    rw [if_neg (by omega), if_pos (by omega)]
    rfl
  have hmmtd : measureMinimumTickDelta g 64 2 = (5, 130) :=
    measureMinimumTickDelta_of_const g (by decide) (by decide) (by decide) five
  have havg : (roundRecord p 1 [0]).avg = .fin 0 := by
    rw [roundRecord, show (1 : UInt32).toNat = [(0 : UInt64)].length from rfl,
      analyse_eq_summary id [0] (by decide)]
    simp [summary, average, clipSum, clip_eq]
  have hq : stdPp (roundRecord p 1 [0]) = .nan := by simp [stdPp, havg]
  obtain ⟨hm, -, hclock, hout, -, had⟩ := calibRound_spec p 1 ⟨[0], 0, 0, 0, []⟩ rfl
  have hm' : (calibRound p 1 ⟨[0], 0, 0, 0, []⟩).1 = [0] := hm.trans (by decide)
  have hch : initChoice ⟨.other, 1, Nat.one_pos⟩ p ⟨fun _ => 0, fun _ _ => 0⟩ ⟨none, none, 0⟩ 1 =
      ⟨(calibRound p 1 ⟨[0], 0, 0, 0, []⟩).2.1, .fin 0, .nan, [[0]]⟩ := by
    rw [initChoice, initCalib_eq, show (List.range (1 : UInt32).toNat).map (fun _ => (0 : UInt64)) = [0] from rfl,
      retryLoop_eq]
    simp only [had, hm', hq, havg, Dbl.not_lt_nan, if_false]
    rfl
  have hsettle := settle_of_zero_avg p.getticks
    (initChoice ⟨.other, 1, Nat.one_pos⟩ p ⟨fun _ => 0, fun _ _ => 0⟩ ⟨none, none, 0⟩ 1) (by rw [hch])
    (m := 5) (k := 130) (by rw [hch]; exact hclock ▸ hmmtd) (by decide) (by decide)
  rw [pfdStoreInit_of_settle hsettle, hch]
  exact ⟨_, rfl, rfl, hq, rfl, by simp [Calib.print, hout, printedStdPp]⟩

/-- The store a call leaves: `PFD_NUM_STORES` slots and entries of `_pfd_s`; slot `0` holds
the last round's samples as `get_abs_deviation` clipped them, and every other slot and every
other entry of `_pfd_s` is as `malloc` returned it. -/
def StoreFrame (b : Build) (fresh : Fresh) (n : UInt32) (o : Outcome) : Prop :=
  ∃ slots s, o.store.pfdStore = some slots ∧ o.store.pfdS = some s ∧
    slots.length = b.numStores ∧ s.length = b.numStores ∧
    slots.getD 0 [] = (o.rounds.getLast?.getD []).map clip ∧
    ∀ i, 0 < i → i < b.numStores →
      slots.getD i [] = (List.range n.toNat).map (fresh.slot i) ∧ s.getD i 0 = fresh.pfdS i

theorem pfdStoreInit_frame (b : Build) (p : Platform) (fresh : Fresh) (st : Store) (n : UInt32) :
    ∃ o, pfdStoreInit b p fresh st n = .ok o ∧ StoreFrame b fresh n o := by
  have out := initChoice_spec b p fresh st n
  obtain ⟨c, hsettle, -, hslot, -, -⟩ := settle_spec p.getticks _ (retryOutcome_avg out)
  have pos := b.numStores_pos
  refine ⟨_, pfdStoreInit_of_settle hsettle, _, _, rfl, rfl, by simp, by simp, ?_, fun i hi hlt => ?_⟩
  · simp [Store.update, allocate, hslot, retryOutcome_slot0 out, pos]
  · simp [Store.update, allocate, List.getElem_set, hi.ne, hlt]

/-- The counter readings of a call: two an entry in each of its one to eleven rounds, and the
`128` of `measure_minimum_tick_delta(64)` when the chosen average is finite and `≤ 0`; so every
call ends after at most `22 num_entries + 128` readings. -/
def ReadingCount (b : Build) (p : Platform) (fresh : Fresh) (st : Store) (n : UInt32) : Prop :=
  let ch := initChoice b p fresh st n
  ∃ o, pfdStoreInit b p fresh st n = .ok o ∧ 1 ≤ o.rounds.length ∧ o.rounds.length ≤ 11 ∧
    o.clock = 2 * n.toNat * o.rounds.length + (if ch.avg.isFinite ∧ ch.avg ≤ 0 then 128 else 0) ∧
    o.clock ≤ 22 * n.toNat + 128

theorem pfdStoreInit_readings (b : Build) (p : Platform) (fresh : Fresh) (st : Store) (n : UInt32) :
    ReadingCount b p fresh st n := by
  unfold ReadingCount
  intro ch
  have out := initChoice_spec b p fresh st n
  obtain ⟨c, hsettle, -, -, hc, -⟩ := settle_spec p.getticks ch (retryOutcome_avg out)
  obtain ⟨failed, last, hrounds, hle, -, -, -, hclock, -⟩ := out
  have hlen : ch.rounds.length = failed.length + 1 := by rw [hrounds]; simp
  have readings : c.clock = 2 * n.toNat * ch.rounds.length +
      if ch.avg.isFinite ∧ ch.avg ≤ 0 then 128 else 0 := by
    rw [hc, sanitize_clock, hclock, hlen, Nat.zero_add]
  have hmul : 2 * n.toNat * ch.rounds.length ≤ 2 * n.toNat * 11 := Nat.mul_le_mul_left _ (by omega)
  refine ⟨_, pfdStoreInit_of_settle hsettle, show 1 ≤ ch.rounds.length by omega,
    show ch.rounds.length ≤ 11 by omega, readings, show c.clock ≤ _ from ?_⟩
  rw [readings]
  split_ifs <;> omega

section Frame

/-! `_pfd_s[0]` is written by `PFDI` and read only by the `PFDO` that follows it: every step
after the rounds carries it through unread. -/

variable (getticks : Nat → UInt64) (x : UInt64)

theorem manualAvg_s0 (profile : Profile) (n : UInt32) (c : Calib) :
    manualAvg profile n { c with s0 := x } =
      ({ (manualAvg profile n c).1 with s0 := x }, (manualAvg profile n c).2) := by
  simp only [manualAvg, Calib.print]
  split_ifs <;> (try cases profileAvg profile) <;> rfl

theorem sanitize_s0 (c : Calib) (a : Dbl) :
    sanitize getticks { c with s0 := x } a = ({ (sanitize getticks c a).1 with s0 := x }, (sanitize getticks c a).2) := by
  unfold sanitize
  dsimp only
  generalize measureMinimumTickDelta getticks 64 c.clock = r
  obtain ⟨m, k⟩ := r
  split_ifs <;> rfl

theorem roundCorrection_s0 (c : Calib) (v : Dbl) :
    roundCorrection { c with s0 := x } v =
      (roundCorrection c v).map fun r => ({ r.1 with s0 := x }, r.2) := by
  unfold roundCorrection
  split_ifs
  · rfl
  · cases (v + .fin (1 / 2)).toTicks with
    | none => rfl
    | some t => by_cases h : t = 0 <;> simp [h] <;> rfl

theorem finalGuard_s0 (c : Calib) (q : Dbl) :
    finalGuard getticks { c with s0 := x } q =
      (finalGuard getticks c q).map fun r => ({ r.1 with s0 := x }, r.2) := by
  unfold finalGuard
  rw [conservative_toTicks]
  generalize measureMinimumTickDelta getticks 64 c.clock = r
  obtain ⟨m, k⟩ := r
  dsimp only
  split_ifs <;> rfl

theorem settle_s0 (ch : Choice) :
    settle getticks { ch with calib := { ch.calib with s0 := x } } =
      (settle getticks ch).map fun c => { c with s0 := x } := by
  simp only [settle, sanitize_s0]
  generalize sanitize getticks ch.calib ch.avg = r
  obtain ⟨c₁, v⟩ := r
  dsimp only
  rw [roundCorrection_s0]
  cases roundCorrection c₁ v with
  | error e => rfl
  | ok r =>
      obtain ⟨c₂, corr⟩ := r
      have hc : ({ (if ch.avg ≤ 0 then ({ c₂ with s0 := x } : Calib).print (.notPositive pfdConservativeDefault)
          else { c₂ with s0 := x }) with correction := corr } : Calib) =
          { { (if ch.avg ≤ 0 then c₂.print (.notPositive pfdConservativeDefault) else c₂) with
            correction := corr } with s0 := x } := by
        split_ifs <;> rfl
      simp only [Except.map, bind, Except.bind]
      rw [hc, finalGuard_s0]
      cases finalGuard getticks { (if ch.avg ≤ 0 then c₂.print (.notPositive pfdConservativeDefault)
          else c₂) with correction := corr } ch.stdPp with
      | error e => rfl
      | ok r =>
          obtain ⟨c₃, q⟩ := r
          dsimp only [Except.map]
          split_ifs <;> rfl

end Frame

section History

variable (p : Platform) (profile : Profile) (n : UInt32)

theorem calib_eq_of_agree {c d : Calib} (hslot : d.slot0 = c.slot0) (hcorr : d.correction = c.correction)
    (hclock : d.clock = c.clock) (hout : d.out = c.out) : d = { c with s0 := d.s0 } := by
  cases c
  cases d
  simp_all

theorem calibRound_congr {c d : Calib} (hc : c.slot0.length = n.toNat) (hd : d.slot0.length = n.toNat)
    (hcorr : d.correction = c.correction) (hclock : d.clock = c.clock) (hout : d.out = c.out) :
    calibRound p n d = ((calibRound p n c).1, { (calibRound p n c).2.1 with s0 := (calibRound p n d).2.1.s0 },
      (calibRound p n c).2.2) := by
  obtain ⟨hm₁, hs₁, hk₁, ho₁, hc₁, ha₁⟩ := calibRound_spec p n c hc
  obtain ⟨hm₂, hs₂, hk₂, ho₂, hc₂, ha₂⟩ := calibRound_spec p n d hd
  have hm : (calibRound p n d).1 = (calibRound p n c).1 := by rw [hm₁, hm₂, hcorr, hclock]
  refine Prod.ext hm (Prod.ext (calib_eq_of_agree (by rw [hs₁, hs₂, hm]) (by rw [hc₁, hc₂, hcorr])
    (by rw [hk₁, hk₂, hclock]) (by rw [ho₁, ho₂, hout])) (by rw [ha₁, ha₂, hm]))

/-- Two runs of the retry loop from states that differ only in the contents of slot `0` and in
`_pfd_s[0]` run the same rounds and end in the same state, but for `_pfd_s[0]`. -/
theorem retryLoop_congr : ∀ tries pw (rounds : List (List UInt64)) {c d : Calib},
    c.slot0.length = n.toNat → d.slot0.length = n.toNat → d.correction = c.correction →
    d.clock = c.clock → d.out = c.out →
    ∃ x, retryLoop p profile n tries pw rounds d =
      let ch := retryLoop p profile n tries pw rounds c
      { ch with calib := { ch.calib with s0 := x } }
  | tries, pw, rounds, c, d, hc, hd, hcorr, hclock, hout => by
      obtain ⟨-, hslot, -, -, -, -⟩ := calibRound_spec p n c hc
      have hlen : (calibRound p n c).2.1.slot0.length = n.toNat := by
        rw [hslot, List.length_map, (calibRound_spec p n c hc).1]; simp
      rw [retryLoop_eq p profile n tries pw rounds d, calibRound_congr p n hc hd hcorr hclock hout,
        retryLoop_eq p profile n tries pw rounds c]
      generalize (calibRound p n d).2.1.s0 = y
      generalize calibRound p n c = r at hlen
      obtain ⟨m, c₁, ad⟩ := r
      dsimp only at hlen ⊢
      by_cases hfail : pfdCorrectionConf < stdPp ad
      · rw [if_pos hfail, if_pos hfail]
        have hc₂ : (if pw = 1 then ({ c₁ with s0 := y } : Calib).print
            (.recalculating ad.avg (printedStdPp (stdPp ad))) else { c₁ with s0 := y }) =
            { (if pw = 1 then c₁.print (.recalculating ad.avg (printedStdPp (stdPp ad))) else c₁) with
              s0 := y } := by
          split_ifs <;> rfl
        rw [hc₂]
        cases tries with
        | zero => exact ⟨y, by rw [manualAvg_s0]⟩
        | succ t =>
            exact retryLoop_congr t (pw + 1) _ (by split_ifs <;> exact hlen)
              (by split_ifs <;> exact hlen) rfl rfl rfl
      · rw [if_neg hfail, if_neg hfail]
        exact ⟨y, rfl⟩

/-- What a call publishes: slot `0` as each round measured it, slot `0` and `pfd_correction` as
the call leaves them, the lines it printed and the number of readings it took. -/
def Outcome.published (o : Outcome) : List (List UInt64) × List UInt64 × UInt64 × List Msg × Nat :=
  (o.rounds, (o.store.pfdStore.getD []).headD [], o.store.pfdCorrection, o.out, o.clock)

theorem pfdStoreInit_eq_map (b : Build) (fresh : Fresh) (st : Store) :
    pfdStoreInit b p fresh st n = (settle p.getticks (initChoice b p fresh st n)).map fun c =>
      ⟨(allocate b fresh st n).update c, c.clock, c.out, (initChoice b p fresh st n).rounds⟩ := by
  unfold pfdStoreInit
  dsimp only
  generalize settle p.getticks (initChoice b p fresh st n) = r
  cases r <;> rfl

theorem published_update (b : Build) (fresh : Fresh) (st : Store) (c : Calib)
    (rounds : List (List UInt64)) :
    Outcome.published ⟨(allocate b fresh st n).update c, c.clock, c.out, rounds⟩ =
      (rounds, c.slot0, c.correction, c.out, c.clock) := by
  obtain ⟨k, hk⟩ : ∃ k, b.numStores = k + 1 := ⟨_, (Nat.succ_pred_eq_of_pos b.numStores_pos).symm⟩
  simp [Outcome.published, Store.update, allocate, hk, List.range_succ_eq_map]

end History

/-- Two calls with the same readings publish the same thing, whatever the stores they replace
(their slots, their slot `0`, their correction, or no store at all) and whatever memory
`malloc` hands them: the rounds measure the same samples, and slot `0`, `pfd_correction`, the
lines printed and the readings taken agree. -/
theorem pfdStoreInit_history_independent (b : Build) (p : Platform) (fresh₁ fresh₂ : Fresh)
    (st₁ st₂ : Store) (n : UInt32) :
    (pfdStoreInit b p fresh₁ st₁ n).map Outcome.published =
      (pfdStoreInit b p fresh₂ st₂ n).map Outcome.published := by
  obtain ⟨x, hch⟩ := retryLoop_congr p b.profile n 10 0 []
    (c := { (allocate b fresh₁ st₁ n).calib with correction := 0 })
    (d := { (allocate b fresh₂ st₂ n).calib with correction := 0 })
    (initCalib_length b fresh₁ st₁ n) (initCalib_length b fresh₂ st₂ n)
    (by rw [initCalib_eq, initCalib_eq]) (by rw [initCalib_eq, initCalib_eq])
    (by rw [initCalib_eq, initCalib_eq])
  set ch := initChoice b p fresh₁ st₁ n
  have hch' : initChoice b p fresh₂ st₂ n = { ch with calib := { ch.calib with s0 := x } } := hch
  rw [pfdStoreInit_eq_map, pfdStoreInit_eq_map, hch', settle_s0 p.getticks x ch]
  cases settle p.getticks ch with
  | error e => rfl
  | ok c => simp only [Except.map, published_update]

end PfdProfiler
