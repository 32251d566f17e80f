import PfdProfiler.Calibration
import PfdProfiler.DeviationFacts

/-! What the retry loop of `pfd_store_init` can do, stated once: the rounds it runs, the
warnings it prints and the average it chooses. -/

namespace PfdProfiler

/-- The record `get_abs_deviation` gives a round that measured `r`. -/
def roundRecord (p : Platform) (n : UInt32) (r : List UInt64) : AbsDeviation :=
  (analyse p.sqrt r n.toNat).2

/-- A round fails the quality gate of line 196 when `std_pp > PFD_CORRECTION_CONF`. -/
def FailsGate (p : Platform) (n : UInt32) (r : List UInt64) : Prop :=
  pfdCorrectionConf < stdPp (roundRecord p n r)

instance (p : Platform) (n : UInt32) : DecidablePred (FailsGate p n) := fun r =>
  inferInstanceAs (Decidable (pfdCorrectionConf < stdPp (roundRecord p n r)))

def recalcMsg (p : Platform) (n : UInt32) (r : List UInt64) : Msg :=
  .recalculating (roundRecord p n r).avg (printedStdPp (stdPp (roundRecord p n r)))

/-- The warnings of lines 198-203 over the failed rounds `rs` of a loop entered with
`printWarning` failed rounds behind it: the round that finds the counter at `1` prints. -/
def recalcWarnings (p : Platform) (n : UInt32) : Nat → List (List UInt64) → List Msg
  | 0, _ :: r :: _ => [recalcMsg p n r]
  | 1, r :: _ => [recalcMsg p n r]
  | _, _ => []

theorem recalcWarnings_cons (p : Platform) (n : UInt32) (pw : Nat) (r : List UInt64)
    (rs : List (List UInt64)) :
    (if pw = 1 then [recalcMsg p n r] else []) ++ recalcWarnings p n (pw + 1) rs =
      recalcWarnings p n pw (r :: rs) := by
  match pw, rs with
  | 0, [] => rfl
  | 0, _ :: _ => rfl
  | 1, _ => rfl
  | k + 2, _ => rfl

section Round

variable (p : Platform) (n : UInt32)

theorem calibRound_spec (c : Calib) (hlen : c.slot0.length = n.toNat) :
    let r := calibRound p n c
    r.1 = roundSamples p.getticks c.correction n.toNat c.clock ∧ r.2.1.slot0 = r.1.map clip ∧
      r.2.1.clock = c.clock + 2 * n.toNat ∧ r.2.1.out = c.out ∧ r.2.1.correction = c.correction ∧
      r.2.2 = roundRecord p n r.1 := by
  obtain ⟨hslot, hclock, hout, hcorr, -⟩ := measureRound_spec p.getticks n c hlen
  have hlen' : (measureRound p.getticks n c).slot0.length = n.toNat := by simp [hslot]
  have hfst := congrArg Prod.fst
    (analyse_eq_summary p.sqrt (measureRound p.getticks n c).slot0 (by rw [hlen']; exact u32_toNat_lt n))
  rw [hlen'] at hfst
  exact ⟨hslot, hfst, hclock, hout, hcorr, rfl⟩

end Round

theorem retryLoop_eq (p : Platform) (profile : Profile) (n : UInt32) (tries pw : Nat)
    (rounds : List (List UInt64)) (c : Calib) :
    retryLoop p profile n tries pw rounds c =
      let r := calibRound p n c
      let q := stdPp r.2.2
      if pfdCorrectionConf < q then
        let c' := if pw = 1 then r.2.1.print (.recalculating r.2.2.avg (printedStdPp q)) else r.2.1
        match tries with
        | t + 1 => retryLoop p profile n t (pw + 1) (rounds ++ [r.1]) c'
        | 0 => ⟨(manualAvg profile n c').1, (manualAvg profile n c').2, q, rounds ++ [r.1]⟩
      else ⟨r.2.1, r.2.2.avg, q, rounds ++ [r.1]⟩ := by
  cases tries <;> rfl

@[simp] theorem recalcWarnings_nil (p : Platform) (n : UInt32) (pw : Nat) :
    recalcWarnings p n pw [] = [] := by
  rcases pw with _ | _ | _ <;> rfl

theorem manualAvg_clock (profile : Profile) (n : UInt32) (c : Calib) :
    (manualAvg profile n c).1.clock = c.clock := by
  simp only [manualAvg]
  split_ifs <;> (try cases profileAvg profile) <;> rfl

/-- What a run of the retry loop from `c`, with `tries` retries left and `pw` failed rounds
behind it, can leave: failed rounds and then a last one. Either the last round passes the gate
and its average is kept, or it is the last retry and the clipped slot goes to `manualAvg`;
the warning of line 201 is printed by the round that finds `pw = 1`, and each round takes two
readings an entry. -/
def RetryOutcome (p : Platform) (profile : Profile) (n : UInt32) (tries pw : Nat)
    (rounds : List (List UInt64)) (c : Calib) (ch : Choice) : Prop :=
  ∃ failed last, ch.rounds = rounds ++ failed ++ [last] ∧ failed.length ≤ tries ∧
    (∀ r ∈ failed, FailsGate p n r) ∧ last.length = n.toNat ∧
    ch.stdPp = stdPp (roundRecord p n last) ∧
    ch.calib.clock = c.clock + 2 * n.toNat * (failed.length + 1) ∧
    ((¬ FailsGate p n last ∧ ch.avg = (roundRecord p n last).avg ∧
        ch.calib.slot0 = last.map clip ∧ ch.calib.out = c.out ++ recalcWarnings p n pw failed) ∨
      (FailsGate p n last ∧ failed.length = tries ∧
        ∃ c', c'.slot0 = last.map clip ∧ c'.out = c.out ++ recalcWarnings p n pw (failed ++ [last]) ∧
          (ch.calib, ch.avg) = manualAvg profile n c'))

section Loop

variable (p : Platform) (profile : Profile) (n : UInt32)

theorem retryOutcome_turn (tries pw : Nat) (rounds : List (List UInt64)) (c : Calib)
    (hlen : c.slot0.length = n.toNat)
    (rest : ∀ t, tries = t + 1 → ∀ c' : Calib, c'.slot0.length = n.toNat →
      RetryOutcome p profile n t (pw + 1) (rounds ++ [(calibRound p n c).1]) c'
        (retryLoop p profile n t (pw + 1) (rounds ++ [(calibRound p n c).1]) c')) :
    RetryOutcome p profile n tries pw rounds c (retryLoop p profile n tries pw rounds c) := by
  obtain ⟨hm, hslot, hclock, hout, -, had⟩ := calibRound_spec p n c hlen
  have hmlen : (calibRound p n c).1.length = n.toNat := by rw [hm]; simp
  rw [retryLoop_eq]
  generalize calibRound p n c = r at rest hm hslot hclock hout had hmlen ⊢
  obtain ⟨m, c₁, ad⟩ := r
  dsimp only at rest hm hslot hclock hout had hmlen ⊢
  subst had
  by_cases hfail : FailsGate p n m
  · rw [if_pos (show pfdCorrectionConf < stdPp (roundRecord p n m) from hfail)]
    set c₂ := if pw = 1 then
      c₁.print (.recalculating (roundRecord p n m).avg (printedStdPp (stdPp (roundRecord p n m))))
      else c₁ with hc₂
    have hslot₂ : c₂.slot0 = m.map clip := by rw [hc₂]; split_ifs <;> exact hslot
    have hout₂ : c₂.out = c.out ++ if pw = 1 then [recalcMsg p n m] else [] := by
      rw [hc₂]; split_ifs <;> simp [Calib.print, hout, recalcMsg]
    have hclock₂ : c₂.clock = c.clock + 2 * n.toNat := by rw [hc₂, ← hclock]; split_ifs <;> rfl
    cases tries with
    | zero =>
        refine ⟨[], m, by simp, le_refl _, by simp, hmlen, rfl, ?_, .inr ⟨hfail, rfl, c₂, hslot₂, ?_, rfl⟩⟩
        · rw [manualAvg_clock, hclock₂, List.length_nil, zero_add, mul_one]
        · rw [hout₂, List.nil_append, ← recalcWarnings_cons, recalcWarnings_nil, List.append_nil]
    | succ t =>
        obtain ⟨failed, last, hrounds, hle, hfailed, hlast, hstd, hclock', hcase⟩ :=
          rest t rfl c₂ (by rw [hslot₂, List.length_map, hmlen])
        refine ⟨m :: failed, last, by simp [hrounds], by simp only [List.length_cons]; omega,
          fun r hr => ?_, hlast, hstd, by rw [hclock', hclock₂, List.length_cons]; ring, ?_⟩
        · rcases List.mem_cons.mp hr with rfl | hr
          · exact hfail
          · exact hfailed r hr
        · rcases hcase with ⟨hpass, havg, hslot', hout'⟩ | ⟨hfail', hlen', c', hslot', hout', hman⟩
          · exact .inl ⟨hpass, havg, hslot', by rw [hout', hout₂, List.append_assoc, recalcWarnings_cons]⟩
          · refine .inr ⟨hfail', by simp [hlen'], c', hslot', ?_, hman⟩
            rw [hout', hout₂, List.append_assoc, recalcWarnings_cons, List.cons_append]
  · rw [if_neg (show ¬ pfdCorrectionConf < stdPp (roundRecord p n m) from hfail)]
    exact ⟨[], m, by simp, Nat.zero_le _, by simp, hmlen, rfl,
      by rw [hclock, List.length_nil, zero_add, mul_one],
      .inl ⟨hfail, rfl, hslot, by simp [hout]⟩⟩

theorem retryLoop_spec : ∀ tries pw (rounds : List (List UInt64)) (c : Calib),
    c.slot0.length = n.toNat →
      RetryOutcome p profile n tries pw rounds c (retryLoop p profile n tries pw rounds c)
  | 0, pw, rounds, c, hlen => retryOutcome_turn p profile n 0 pw rounds c hlen fun _ h => absurd h (by omega)
  | t + 1, pw, rounds, c, hlen => retryOutcome_turn p profile n (t + 1) pw rounds c hlen fun _ h c' hc' => by
      cases h
      exact retryLoop_spec t (pw + 1) _ c' hc'

end Loop

/-- The averages the calibration can choose from: `NAN` or a value in `[0, 1500]`. -/
def AvgRange (a : Dbl) : Prop := a = .nan ∨ ∃ q, a = .fin q ∧ 0 ≤ q ∧ q ≤ 1500

theorem roundRecord_avg (p : Platform) (n : UInt32) (r : List UInt64) (hlen : r.length = n.toNat) :
    AvgRange (roundRecord p n r).avg := by
  have bound : r.length < 2 ^ 32 := hlen ▸ u32_toNat_lt n
  rw [roundRecord, ← hlen, analyse_eq_summary p.sqrt r bound]
  simp only [summary, average, (loop_clipStep_full r bound).2, Dbl.ofNat_eq]
  by_cases h0 : r.length = 0
  · left
    simp [List.length_eq_zero.mp h0, clipSum]
  · have hpos : (0 : ℚ) < r.length := by exact_mod_cast Nat.pos_of_ne_zero h0
    have hle : (clipSum r : ℚ) ≤ 1500 * r.length := by exact_mod_cast clipSum_le r
    right
    refine ⟨_, Dbl.fin_div_fin hpos.ne', by positivity, ?_⟩
    rw [div_le_iff₀ hpos]
    exact hle

theorem profileAvg_range (profile : Profile) :
    ∃ q, (profileAvg profile).getD pfdConservativeDefault = .fin q ∧ 1 ≤ q ∧ q ≤ 1500 := by
  cases profile <;> exact ⟨_, rfl, by norm_num, by norm_num⟩

/-- After the last retry the average is the median of the clipped slot's non-zero samples, or
the profile's default when there is none; either lies in `[1, 1500]`. -/
theorem manualAvg_spec (profile : Profile) (n : UInt32) (c : Calib) (xs : List UInt64)
    (hslot : c.slot0 = xs.map clip) (hlen : xs.length = n.toNat) :
    let r := manualAvg profile n c
    r.1.slot0 = c.slot0 ∧ r.1.clock = c.clock ∧ r.1.correction = c.correction ∧
      (∃ q, r.2 = .fin q ∧ 1 ≤ q ∧ q ≤ 1500) ∧
      (nonZero (xs.map clip) ≠ [] → r.2 = .fin (median (nonZero (xs.map clip))) ∧
        r.1.out = c.out ++ [.settingManually, .usingMedian r.2]) ∧
      (nonZero (xs.map clip) = [] → r.2 = (profileAvg profile).getD pfdConservativeDefault ∧
        r.1.out = c.out ++ .settingManually ::
          if profile = .other then [.unknownArchitecture pfdConservativeDefault] else []) := by
  have small : ∀ x ∈ nonZero (xs.map clip), x < 2 ^ 52 := fun x hx => by
    simp only [nonZero, List.mem_filter, List.map_map, List.mem_map] at hx
    obtain ⟨⟨v, -, rfl⟩, -⟩ := hx
    exact (clip_toNat_le v).trans_lt (by norm_num)
  have hmed : medianNonZeroTicks (c.print .settingManually).slot0 n =
      if nonZero (xs.map clip) = [] then .nan else .fin (median (nonZero (xs.map clip))) := by
    have htake : (xs.map clip).take n.toNat = xs.map clip := by
      rw [← hlen, ← List.length_map xs clip, List.take_length]
    rw [show (c.print .settingManually).slot0 = xs.map clip from hslot,
      medianNonZeroTicks_of_lt _ _ (by rwa [htake]), htake]
  by_cases hnil : nonZero (xs.map clip) = []
  · simp only [hnil, if_true] at hmed
    have hman : manualAvg profile n c =
        ((if profile = .other then (c.print .settingManually).print
          (.unknownArchitecture pfdConservativeDefault) else c.print .settingManually),
          (profileAvg profile).getD pfdConservativeDefault) := by
      simp only [manualAvg, hmed, Dbl.isFinite_nan, Bool.false_eq_true, false_and, if_false]
      cases profile <;> rfl
    rw [hman]
    refine ⟨?_, ?_, ?_, profileAvg_range profile, fun h => absurd hnil h, fun _ => ⟨rfl, ?_⟩⟩ <;>
      split_ifs <;> simp [Calib.print]
  · obtain ⟨lo, hlo, hi, hhi, hle, hge⟩ := median_bounds hnil
    have hlo1 : (1 : ℚ) ≤ lo := by exact_mod_cast pos_of_mem_nonZero hlo
    have hhi1 : (hi : ℚ) ≤ 1500 := by
      simp only [nonZero, List.mem_filter, List.map_map, List.mem_map] at hhi
      obtain ⟨⟨v, -, rfl⟩, -⟩ := hhi
      exact_mod_cast clip_toNat_le v
    have hpos : (0 : ℚ) < median (nonZero (xs.map clip)) := by linarith
    have hman : manualAvg profile n c = ((c.print .settingManually).print
        (.usingMedian (.fin (median (nonZero (xs.map clip))))), .fin (median (nonZero (xs.map clip)))) := by
      simp [manualAvg, hmed, hnil, hpos]
    rw [hman]
    exact ⟨rfl, rfl, rfl, ⟨_, rfl, by linarith, by linarith⟩, fun _ => ⟨rfl, by simp [Calib.print]⟩,
      fun h => absurd h hnil⟩

theorem retryOutcome_avg {p : Platform} {profile : Profile} {n : UInt32} {tries pw : Nat}
    {rounds : List (List UInt64)} {c : Calib} {ch : Choice}
    (out : RetryOutcome p profile n tries pw rounds c ch) : AvgRange ch.avg := by
  obtain ⟨failed, last, -, -, -, hlast, -, -, ⟨-, havg, -⟩ | ⟨-, -, c', hslot, -, hman⟩⟩ := out
  · exact havg ▸ roundRecord_avg p n last hlast
  · obtain ⟨-, -, -, ⟨q, hq, h1, h2⟩, -⟩ := manualAvg_spec profile n c' last hslot hlast
    exact .inr ⟨q, (congrArg Prod.snd hman).trans hq, by linarith, h2⟩

theorem retryOutcome_slot0 {p : Platform} {profile : Profile} {n : UInt32} {tries pw : Nat}
    {rounds : List (List UInt64)} {c : Calib} {ch : Choice}
    (out : RetryOutcome p profile n tries pw rounds c ch) :
    ch.calib.slot0 = (ch.rounds.getLast?.getD []).map clip := by
  obtain ⟨failed, last, hrounds, -, -, hlast, -, -, ⟨-, -, hslot, -⟩ | ⟨-, -, c', hslot, -, hman⟩⟩ := out
  · simp [hslot, hrounds]
  · rw [show ch.calib = (manualAvg profile n c').1 from congrArg Prod.fst hman,
      (manualAvg_spec profile n c' last hslot hlast).1, hslot]
    simp [hrounds]

theorem retryOutcome_slot0_length {p : Platform} {profile : Profile} {n : UInt32} {tries pw : Nat}
    {rounds : List (List UInt64)} {c : Calib} {ch : Choice}
    (out : RetryOutcome p profile n tries pw rounds c ch) : ch.calib.slot0.length = n.toNat := by
  rw [retryOutcome_slot0 out]
  obtain ⟨failed, last, hrounds, -, -, hlast, -⟩ := out
  simp [hrounds, hlast]

section Settle

variable (getticks : Nat → UInt64)

theorem cast_lt_two_pow_sub_one {x : ℕ} (h : x < 2 ^ 64 - 1) : (x : ℚ) < 2 ^ 64 - 1 := by
  have : ((x + 1 : ℕ) : ℚ) < 2 ^ 64 := by exact_mod_cast (show x + 1 < 2 ^ 64 by omega)
  push_cast at this
  linarith

theorem sanitize_snd (c : Calib) (a : Dbl) :
    (sanitize getticks c a).2 =
      if !a.isFinite then pfdConservativeDefault
      else if a ≤ 0 then
        if 0 < (measureMinimumTickDelta getticks 64 c.clock).1 then
          .ofU64 (measureMinimumTickDelta getticks 64 c.clock).1
        else pfdConservativeDefault
      else if a < 1 then 1 else a := by
  unfold sanitize
  generalize measureMinimumTickDelta getticks 64 c.clock = r
  obtain ⟨m, k⟩ := r
  dsimp only
  split_ifs <;> rfl

/-- The checks of lines 247-290 leave a value of at least `1`: below `2 ^ 64 - 1`, or `2 ^ 64`
when a direct delta from `2 ^ 64 - 1024` on is cast to `double`. -/
theorem sanitize_spec (c : Calib) {a : Dbl} (range : AvgRange a) :
    ∃ q, (sanitize getticks c a).2 = .fin q ∧ 1 ≤ q ∧ (q < 2 ^ 64 - 1 ∨ q = 2 ^ 64) := by
  rw [sanitize_snd]
  rcases range with rfl | ⟨q, rfl, -, h1⟩
  · exact ⟨32, rfl, by norm_num, .inl (by norm_num)⟩
  · by_cases hle : q ≤ 0
    · set m := (measureMinimumTickDelta getticks 64 c.clock).1
      by_cases hpos : 0 < m
      · refine ⟨Dbl.roundNat m.toNat, by simp [hle, hpos, Dbl.ofU64], by exact_mod_cast Dbl.roundNat_pos hpos, ?_⟩
        rcases Dbl.roundNat_lt_or_top (u64_toNat_lt m) with h | h
        · exact .inl (cast_lt_two_pow_sub_one h)
        · exact .inr (by exact_mod_cast h)
      · exact ⟨32, by simp [hle, hpos, pfdConservativeDefault], by norm_num, .inl (by norm_num)⟩
    · by_cases hone : q < 1
      · exact ⟨1, by simp [hle, hone], le_refl _, .inl (by norm_num)⟩
      · exact ⟨q, by simp [hle, hone], not_lt.mp hone, .inl (by linarith)⟩

theorem sanitize_slot0 (c : Calib) (a : Dbl) : (sanitize getticks c a).1.slot0 = c.slot0 := by
  unfold sanitize
  generalize measureMinimumTickDelta getticks 64 c.clock = r
  split_ifs <;> dsimp only <;> (try split_ifs) <;> rfl

theorem sanitize_clock (c : Calib) (a : Dbl) :
    (sanitize getticks c a).1.clock = c.clock + if a.isFinite ∧ a ≤ 0 then 128 else 0 := by
  have hk : (measureMinimumTickDelta getticks 64 c.clock).2 = c.clock + 128 :=
    (measureMinimumTickDelta_spec getticks 64 c.clock).1
  unfold sanitize
  generalize measureMinimumTickDelta getticks 64 c.clock = r at hk
  obtain ⟨m, k⟩ := r
  dsimp only at hk ⊢
  split_ifs <;> simp_all [Calib.print]

theorem sanitize_of_one_le (c : Calib) {a : ℚ} (h : 1 ≤ a) : sanitize getticks c (.fin a) = (c, .fin a) := by
  simp [sanitize, show ¬ a ≤ 0 by linarith, show ¬ a < 1 by linarith]

theorem ofU64_uint64Max : Dbl.ofU64 uint64Max = .fin (2 ^ 64) := by
  rw [Dbl.ofU64, (Dbl.roundNat_eq_top_iff (u64_toNat_lt _)).mpr (by norm_num)]
  norm_num

/-- Lines 292-314 on a value in `[1, 2 ^ 64 - 1)`: it is rounded half up, which gives a
correction of at least `1`, and no branch is taken. -/
theorem roundCorrection_spec (c : Calib) {q : ℚ} (h1 : 1 ≤ q) (h2 : q < 2 ^ 64 - 1) :
    roundCorrection c (.fin q) = .ok (c, UInt64.ofNat ⌊q + 1 / 2⌋₊) ∧
      (UInt64.ofNat ⌊q + 1 / 2⌋₊).toNat = ⌊q + 1 / 2⌋₊ ∧ 1 ≤ ⌊q + 1 / 2⌋₊ := by
  have hcond : -1 < q + 1 / 2 ∧ q + 1 / 2 < 2 ^ 64 := ⟨by linarith only [h1], by linarith only [h2]⟩
  have hge : 1 ≤ ⌊q + 1 / 2⌋₊ := Nat.le_floor (by push_cast; linarith only [h1])
  have hlt : ⌊q + 1 / 2⌋₊ < 2 ^ 64 := (Nat.floor_lt (by linarith only [h1])).mpr (by exact_mod_cast hcond.2)
  have hnat : (UInt64.ofNat ⌊q + 1 / 2⌋₊).toNat = ⌊q + 1 / 2⌋₊ := u64_ofNat_toNat hlt
  have hne : UInt64.ofNat ⌊q + 1 / 2⌋₊ ≠ 0 := fun h => by
    have : (UInt64.ofNat ⌊q + 1 / 2⌋₊).toNat = 0 := by rw [h]; rfl
    omega
  refine ⟨?_, hnat, hge⟩
  have hbig : ¬ Dbl.ofU64 uint64Max ≤ .fin q := by
    rw [ofU64_uint64Max, Dbl.fin_le_fin, not_le]
    linarith only [h2]
  simp only [roundCorrection, hbig, if_false, Dbl.fin_add_fin, Dbl.toTicks_fin]
  rw [if_pos hcond]
  exact if_neg hne

/-- Lines 292-301: `2 ^ 64` is clamped to `UINT64_MAX`, with a warning. -/
theorem roundCorrection_clamp (c : Calib) :
    roundCorrection c (.fin (2 ^ 64)) = .ok (c.print (.aboveMax uint64Max), uint64Max) := by
  rw [roundCorrection, ofU64_uint64Max, if_pos (Dbl.fin_le_fin.mpr le_rfl)]

theorem roundCorrection_cases (c : Calib) {q : ℚ} (h1 : 1 ≤ q) (h2 : q < 2 ^ 64 - 1 ∨ q = 2 ^ 64) :
    ∃ c' corr, roundCorrection c (.fin q) = .ok (c', corr) ∧ c'.slot0 = c.slot0 ∧ c'.clock = c.clock ∧
      corr ≠ 0 ∧ ((q < 2 ^ 64 - 1 ∧ c' = c ∧ corr.toNat = ⌊q + 1 / 2⌋₊) ∨ (q = 2 ^ 64 ∧ corr = uint64Max)) := by
  rcases h2 with h2 | rfl
  · obtain ⟨hr, hnat, hge⟩ := roundCorrection_spec c h1 h2
    refine ⟨c, _, hr, rfl, rfl, fun h => ?_, .inl ⟨h2, rfl, hnat⟩⟩
    rw [h, show (0 : UInt64).toNat = 0 from rfl] at hnat
    omega
  · exact ⟨_, _, roundCorrection_clamp c, rfl, rfl, by decide, .inr ⟨rfl, rfl⟩⟩

theorem conservative_toTicks : (pfdConservativeDefault + .fin (1 / 2)).toTicks = some 32 := by
  have hfloor : ⌊(32 + 1 / 2 : ℚ)⌋₊ = 32 :=
    (Nat.floor_eq_iff (by norm_num)).mpr ⟨by norm_num, by norm_num⟩
  rw [pfdConservativeDefault, Dbl.lit_eq, Dbl.fin_add_fin, Dbl.toTicks_fin,
    if_pos ⟨by norm_num, by norm_num⟩, show ((OfNat.ofNat 32 : ℚ) + 1 / 2) = 32 + 1 / 2 from rfl, hfloor]
  rfl

theorem finalGuard_of_ne_zero (c : Calib) (q : Dbl) (h : c.correction ≠ 0) :
    finalGuard getticks c q = .ok (c, q) := by
  simp [finalGuard, h]

theorem settle_of_round (ch : Choice) {c₁ c₂ : Calib} {v : Dbl} {corr : UInt64}
    (hs : sanitize getticks ch.calib ch.avg = (c₁, v)) (hr : roundCorrection c₁ v = .ok (c₂, corr))
    (hne : corr ≠ 0) :
    settle getticks ch = .ok ({ (if ch.avg ≤ 0 then c₂.print (.notPositive pfdConservativeDefault) else c₂) with
      correction := corr }.print (.setCorrection corr (printedStdPp ch.stdPp))) := by
  simp only [settle, hs, hr, bind, Except.bind, finalGuard, hne, if_false, pure, Except.pure]

/-- Lines 247-372 on an average the loop can choose: the call ends with a correction of at
least `1`, and reads the counter only in lines 247-290. The value those lines leave is rounded
half up, or clamped to `UINT64_MAX` at `2 ^ 64`; on an average `a ≥ 1` no branch is taken. -/
theorem settle_spec (ch : Choice) (range : AvgRange ch.avg) :
    ∃ c, settle getticks ch = .ok c ∧ 1 ≤ c.correction.toNat ∧ c.slot0 = ch.calib.slot0 ∧
      c.clock = (sanitize getticks ch.calib ch.avg).1.clock ∧
      (∀ a, ch.avg = .fin a → 1 ≤ a →
        c.correction.toNat = ⌊a + 1 / 2⌋₊ ∧ c.clock = ch.calib.clock ∧
        c.out = ch.calib.out ++ [.setCorrection c.correction (printedStdPp ch.stdPp)]) ∧
      ∃ q, (sanitize getticks ch.calib ch.avg).2 = .fin q ∧ 1 ≤ q ∧
        ((q < 2 ^ 64 - 1 ∧ c.correction.toNat = ⌊q + 1 / 2⌋₊) ∨ (q = 2 ^ 64 ∧ c.correction = uint64Max)) := by
  obtain ⟨q, hq, h1, h2⟩ := sanitize_spec getticks ch.calib range
  have hslot := sanitize_slot0 getticks ch.calib ch.avg
  rcases hs : sanitize getticks ch.calib ch.avg with ⟨c₁, v⟩
  rw [hs] at hq hslot
  dsimp only at hq hslot
  subst hq
  obtain ⟨c₂, corr, hr, hslot₂, hclock₂, hne, hcase⟩ := roundCorrection_cases c₁ h1 h2
  have hpos : 1 ≤ corr.toNat := Nat.one_le_iff_ne_zero.mpr fun h => hne (u64_eq_iff.mpr h)
  refine ⟨_, settle_of_round getticks ch hs hr hne, hpos, by split_ifs <;> rw [← hslot, ← hslot₂] <;> rfl,
    by split_ifs <;> rw [← hclock₂] <;> rfl, fun a ha ha1 => ?_,
    q, rfl, h1, hcase.imp (fun h => ⟨h.1, h.2.2⟩) id⟩
  have hsa := hs
  rw [ha, sanitize_of_one_le getticks ch.calib ha1, Prod.mk.injEq, Dbl.fin.injEq] at hsa
  obtain ⟨hc₁, hqa⟩ := hsa
  subst hc₁
  have small : q < 2 ^ 64 - 1 := by
    rcases range with h | ⟨b, hb, -, hb1⟩
    · rw [ha] at h; cases h
    · rw [ha, Dbl.fin.injEq] at hb; linarith
  obtain ⟨-, rfl, hnat⟩ := hcase.resolve_right fun h => by linarith [h.1]
  have hc₁ : (if ch.avg ≤ 0 then ch.calib.print (.notPositive pfdConservativeDefault) else ch.calib) = ch.calib := by
    rw [if_neg (by rw [ha, Dbl.zero_eq, Dbl.fin_le_fin, not_le]; linarith)]
  rw [hqa]
  exact ⟨hnat, by rw [hc₁]; rfl, by rw [hc₁]; rfl⟩

theorem floor_cast_add_half (m : Nat) : ⌊(m : ℚ) + 1 / 2⌋₊ = m :=
  (Nat.floor_eq_iff (by positivity)).mpr ⟨by linarith only [], by linarith only []⟩

/-- The correction lines 247-372 publish, for each average the loop can choose: `32` for
`NAN`; for `0`, the direct delta `d` of `measure_minimum_tick_delta(64)` cast to `double`,
`UINT64_MAX` from `2 ^ 64 - 1024` on, and `32` when `d` is `0`; `1` below `1`; and the
average rounded half up from `1` on. Between `2 ^ 52` and `2 ^ 53` C rounds `d + 0.5` to even,
so only `d ≤ correction ≤ d + 1` is stated there. -/
def SettledCorrection (getticks : Nat → UInt64) (ch : Choice) (corr : UInt64) : Prop :=
  (ch.avg = .nan → corr = 32) ∧
  (∀ a, ch.avg = .fin a → 0 < a → a < 1 → corr = 1) ∧
  (∀ a, ch.avg = .fin a → 1 ≤ a → corr.toNat = ⌊a + 1 / 2⌋₊) ∧
  (ch.avg = .fin 0 →
    let d := (measureMinimumTickDelta getticks 64 ch.calib.clock).1
    (d = 0 → corr = 32) ∧
    (0 < d → d.toNat < 2 ^ 52 ∨ 2 ^ 53 ≤ d.toNat → d.toNat < 2 ^ 64 - 1024 →
      corr.toNat = Dbl.roundNat d.toNat) ∧
    (2 ^ 52 ≤ d.toNat → d.toNat < 2 ^ 53 → d.toNat ≤ corr.toNat ∧ corr.toNat ≤ d.toNat + 1) ∧
    (2 ^ 64 - 1024 ≤ d.toNat → corr = uint64Max))

theorem settle_correction (ch : Choice) (range : AvgRange ch.avg) :
    ∃ c, settle getticks ch = .ok c ∧ SettledCorrection getticks ch c.correction := by
  obtain ⟨c, hsettle, -, -, -, hfin, q, hq, -, hcase⟩ := settle_spec getticks ch range
  have rounded : ∀ n : ℕ, (n : ℚ) < 2 ^ 64 - 1 → q = n → c.correction.toNat = n := fun n hn hqn => by
    subst hqn
    obtain ⟨-, h⟩ := hcase.resolve_right fun h => by linarith [h.1]
    rw [h, floor_cast_add_half]
  have default : .fin q = pfdConservativeDefault → c.correction = 32 := fun h =>
    u64_eq_iff.mpr (rounded 32 (by norm_num) (by simpa [pfdConservativeDefault] using h))
  refine ⟨c, hsettle, fun ha => ?_, fun a ha h0 h1 => ?_, fun a ha h1 => (hfin a ha h1).1, fun ha => ?_⟩
  · rw [sanitize_snd, ha] at hq
    exact default hq.symm
  · rw [sanitize_snd, ha] at hq
    simp only [Dbl.isFinite_fin, Bool.not_true, Bool.false_eq_true, if_false, Dbl.zero_eq, Dbl.fin_le_fin,
      not_le.mpr h0, Dbl.one_eq, Dbl.fin_lt_fin, h1, if_true, Dbl.fin.injEq] at hq
    exact u64_eq_iff.mpr (rounded 1 (by norm_num) (by rw [← hq]; norm_num))
  · rw [sanitize_snd, ha] at hq
    simp only [Dbl.isFinite_fin, Bool.not_true, Bool.false_eq_true, if_false, Dbl.zero_eq, Dbl.fin_le_fin,
      le_refl, if_true] at hq
    set d := (measureMinimumTickDelta getticks 64 ch.calib.clock).1
    have hd := u64_toNat_lt d
    refine ⟨fun h0 => ?_, fun hpos hwin hmax => ?_, fun hlo hhi => ?_, fun hmax => ?_⟩
    · rw [if_neg (by rw [h0]; decide)] at hq
      exact default hq.symm
    · rw [if_pos hpos, Dbl.ofU64, Dbl.fin.injEq] at hq
      have hlt : Dbl.roundNat d.toNat < 2 ^ 64 - 1 :=
        (Dbl.roundNat_lt_or_top hd).resolve_right fun h => by
          have := (Dbl.roundNat_eq_top_iff hd).mp h; omega
      exact rounded _ (cast_lt_two_pow_sub_one hlt) hq.symm
    · rw [if_pos (u64_pos_iff.mpr (by omega)), Dbl.ofU64, Dbl.roundNat_of_lt hhi, Dbl.fin.injEq] at hq
      have := rounded d.toNat (cast_lt_two_pow_sub_one (by omega)) hq.symm
      omega
    · rw [if_pos (u64_pos_iff.mpr (by omega)), Dbl.ofU64, (Dbl.roundNat_eq_top_iff hd).mpr hmax,
        Dbl.fin.injEq] at hq
      exact (hcase.resolve_left fun h => by norm_num [← hq] at h).2

/-- Lines 260-281, 316-326 and 367-371 on an average of `0` when `measure_minimum_tick_delta(64)`
measures a positive delta below `2 ^ 53`: that delta is the correction, and both warnings of a
non-positive average are printed before the final line. -/
theorem settle_of_zero_avg (ch : Choice) (havg : ch.avg = .fin 0) {m : UInt64} {k : Nat}
    (hmeasure : measureMinimumTickDelta getticks 64 ch.calib.clock = (m, k)) (hpos : 0 < m)
    (hmax : m.toNat < 2 ^ 53) :
    settle getticks ch = .ok ({ ({ ch.calib with clock := k }.print (.directDelta m)).print
      (.notPositive pfdConservativeDefault) with correction := m }.print
        (.setCorrection m (printedStdPp ch.stdPp))) := by
  have hsan : sanitize getticks ch.calib ch.avg =
      ({ ch.calib with clock := k }.print (.directDelta m), .fin m.toNat) := by
    simp only [sanitize, havg, Dbl.isFinite_fin, Bool.not_true, Bool.false_eq_true, if_false,
      Dbl.zero_eq, Dbl.fin_le_fin, le_refl, if_true, hmeasure, if_pos hpos, Dbl.ofU64_of_lt hmax]
  obtain ⟨hround, -, -⟩ := roundCorrection_spec ({ ch.calib with clock := k }.print (.directDelta m))
    (by exact_mod_cast (show 1 ≤ m.toNat from hpos)) (cast_lt_two_pow_sub_one (by omega))
  rw [floor_cast_add_half, show UInt64.ofNat m.toNat = m from UInt64.toNat.inj (u64_ofNat_toNat m.val.isLt)] at hround
  have hne : m ≠ 0 := fun h => by rw [h] at hpos; exact absurd hpos (by decide)
  rw [settle_of_round getticks ch hsan hround hne, if_pos (by rw [havg, Dbl.zero_eq, Dbl.fin_le_fin])]

end Settle

theorem recalcWarnings_zero (p : Platform) (n : UInt32) (rs : List (List UInt64)) :
    recalcWarnings p n 0 rs = ((rs.drop 1).take 1).map (recalcMsg p n) := by
  match rs with
  | [] => rfl
  | [_] => rfl
  | _ :: _ :: _ => rfl

theorem initCalib_eq (b : Build) (fresh : Fresh) (st : Store) (n : UInt32) :
    { (allocate b fresh st n).calib with correction := 0 } =
      ⟨(List.range n.toNat).map (fresh.slot 0), fresh.pfdS 0, 0, 0, []⟩ := by
  rw [allocate_calib]

theorem initCalib_length (b : Build) (fresh : Fresh) (st : Store) (n : UInt32) :
    ({ (allocate b fresh st n).calib with correction := 0 } : Calib).slot0.length = n.toNat := by
  rw [initCalib_eq, List.length_map, List.length_range]

theorem initChoice_spec (b : Build) (p : Platform) (fresh : Fresh) (st : Store) (n : UInt32) :
    RetryOutcome p b.profile n 10 0 [] ⟨(List.range n.toNat).map (fresh.slot 0), fresh.pfdS 0, 0, 0, []⟩
      (initChoice b p fresh st n) := by
  rw [initChoice, initCalib_eq]
  exact retryLoop_spec p b.profile n 10 0 [] _ (by simp)

theorem pfdStoreInit_of_settle {b : Build} {p : Platform} {fresh : Fresh} {st : Store} {n : UInt32}
    {c : Calib} (h : settle p.getticks (initChoice b p fresh st n) = .ok c) :
    pfdStoreInit b p fresh st n =
      .ok ⟨(allocate b fresh st n).update c, c.clock, c.out, (initChoice b p fresh st n).rounds⟩ := by
  simp [pfdStoreInit, h]

end PfdProfiler
