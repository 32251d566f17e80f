import PfdProfiler.DeviationFacts
import Mathlib.Algebra.BigOperators.Ring

/-! `get_abs_deviation` read with exact arithmetic. Its average and dispersion are the means
over all clipped samples, the comparisons of pass 1 pick a band for each sample, pass 2
routes every sample to the same band, and each band's statistics are the means over the
samples of that band around the band's own average. -/

namespace PfdProfiler

def meanOver (idx : List Nat) (f : Nat → ℚ) : ℚ := (idx.map f).sum / idx.length

def sample (vals : List UInt64) (i : Nat) : ℚ := (vals.getD i 0).toNat

/-- The band of a sample `x` around the average `μ`: its distance to `μ` against `0.1 μ`,
`0.25 μ`, `0.5 μ` and `0.75 μ`, compared exactly. -/
def bandOf (μ x : ℚ) : Band :=
  if |x - μ| ≤ 1 / 10 * μ then .p10
  else if |x - μ| ≤ 1 / 4 * μ then .p25
  else if |x - μ| ≤ 1 / 2 * μ then .p50
  else if |x - μ| ≤ 3 / 4 * μ then .p75
  else .rst

@[simp] theorem absd_fin (q : ℚ) : absd (.fin q) = .fin |q| := by
  unfold absd
  split_ifs with h
  · rw [abs_of_nonneg (by simpa using h)]
  · rw [Dbl.neg_fin, abs_of_neg (by simpa using h)]

theorem sampleBand_fin (xs : List UInt64) (μ : ℚ) (i : Nat) :
    sampleBand xs (.fin μ) i = bandOf μ (sample xs i) := by
  simp only [sampleBand, devBand, bandOf, sample, dev10p, dev25p, dev50p, dev75p, Dbl.ofNat_eq,
    Dbl.fin_sub_fin, absd_fin, Dbl.fin_mul_fin, Dbl.fin_le_fin]

theorem foldl_add_fin (d : Nat → Dbl) (w : Nat → ℚ) (l : List Nat)
    (hd : ∀ i ∈ l, d i = .fin (w i)) (s : ℚ) :
    l.foldl (fun a i => a + d i) (.fin s) = .fin (s + (l.map w).sum) := by
  induction l generalizing s with
  | nil => simp
  | cons i l ih =>
      rw [List.foldl_cons, hd i (List.mem_cons_self _ _), Dbl.fin_add_fin,
        ih (fun j hj => hd j (List.mem_cons_of_mem _ hj)), List.map_cons, List.sum_cons, add_assoc]

theorem cast_sum_toNat (l : List Nat) (v : Nat → UInt64) :
    (((l.map fun i => (v i).toNat).sum : ℕ) : ℚ) = (l.map fun i => ((v i).toNat : ℚ)).sum := by
  rw [Nat.cast_list_sum, List.map_map]
  rfl

section Exact

variable (xs : List UInt64) (n : Nat) (μ : ℚ)

theorem passOne_sumAdev :
    (passOne xs n (.fin μ)).sumAdev = .fin ((List.range n).map fun i => |sample xs i - μ|).sum :=
  (loop_map PassOne.sumAdev (fun i s => passOneStep_sumAdev xs _ i s) n PassOne.init).trans
    ((foldl_add_fin _ (fun i => |sample xs i - μ|) _ (fun i _ => by simp [sample]) 0).trans (by simp))

theorem passOne_sumStdev :
    (passOne xs n (.fin μ)).sumStdev = .fin ((List.range n).map fun i => (sample xs i - μ) ^ 2).sum :=
  (loop_map PassOne.sumStdev (fun i s => passOneStep_sumStdev xs _ i s) n PassOne.init).trans
    ((foldl_add_fin _ (fun i => (sample xs i - μ) ^ 2) _
      (fun i _ => by simp [sample, abs_mul_abs_self, sq]) 0).trans (by simp))

/-- Pass 2 over a finite average, given the average `a b` of every band it meets: in each
band, the sums of the absolute and squared deviations from that band's average. -/
theorem passTwo_sums (one : PassOne) (a : Band → ℚ)
    (known : ∀ i < n, (bandAverages one).get (bandOf μ (sample xs i)) =
      .fin (a (bandOf μ (sample xs i)))) :
    let two := passTwo xs n (.fin μ) one
    let idx := bandIdx (fun i => bandOf μ (sample xs i)) n
    two.sumAdev = PerBand.ofFn (fun b => .fin ((idx b).map fun i => |sample xs i - a b|).sum) ∧
      two.sumStdev = PerBand.ofFn (fun b => .fin ((idx b).map fun i => (sample xs i - a b) ^ 2).sum) := by
  intro two idx
  have hband : sampleBand xs (.fin μ) = fun i => bandOf μ (sample xs i) :=
    funext (sampleBand_fin xs μ)
  have member : ∀ b, ∀ i ∈ idx b, bandOf μ (sample xs i) = b := fun b i hi =>
    (List.mem_filter.mp hi).2 |> of_decide_eq_true
  have diff : ∀ i < n, absd (Dbl.ofNat (xs.getD i 0).toNat -
      (bandAverages one).get (sampleBand xs (.fin μ) i)) = .fin |sample xs i - a (bandOf μ (sample xs i))| := by
    intro i hi
    rw [sampleBand_fin, known i hi]
    simp [sample]
  constructor
  · refine (loop_map PassTwo.sumAdev (fun i s => passTwoStep_sumAdev xs _ i _ s) n PassTwo.init).trans
      ((loop_modify _ _ _ n).trans ?_)
    refine congrArg PerBand.ofFn (funext fun b => ?_)
    rw [hband]
    refine (foldl_add_fin _ (fun i => |sample xs i - a b|) _ (fun i hi => ?_) 0).trans (by simp)
    rw [← member b i hi, ← diff i ((List.mem_range.mp (List.mem_filter.mp hi).1)), hband]
  · refine (loop_map PassTwo.sumStdev (fun i s => passTwoStep_sumStdev xs _ i _ s) n PassTwo.init).trans
      ((loop_modify _ _ _ n).trans ?_)
    refine congrArg PerBand.ofFn (funext fun b => ?_)
    rw [hband]
    refine (foldl_add_fin _ (fun i => (sample xs i - a b) ^ 2) _ (fun i hi => ?_) 0).trans (by simp)
    have := diff i ((List.mem_range.mp (List.mem_filter.mp hi).1))
    rw [member b i hi] at this
    simp only [hband] at this
    rw [this]
    simp [abs_mul_abs_self, sq]

end Exact

section Clipped

variable (vals : List UInt64)

theorem average_clip (bound : vals.length < 2 ^ 32) (nonempty : vals ≠ []) :
    average (UInt64.ofNat (clipSum vals)) vals.length =
      .fin (meanOver (List.range vals.length) (sample (vals.map clip))) := by
  have hn : (vals.length : ℚ) ≠ 0 := by exact_mod_cast (List.length_pos.mpr nonempty).ne'
  rw [average, (loop_clipStep_full vals bound).2, Dbl.ofNat_eq, Dbl.ofNat_eq, Dbl.fin_div_fin hn,
    meanOver, List.length_range, ← clipSum_range, cast_sum_toNat]
  rfl

theorem bandAverages_fin (bound : vals.length < 2 ^ 32) (μ : ℚ) (b : Band)
    (occupied : bandIdx (fun i => bandOf μ (sample (vals.map clip) i)) vals.length b ≠ []) :
    (bandAverages (passOne (vals.map clip) vals.length (.fin μ))).get b =
      .fin (meanOver (bandIdx (fun i => bandOf μ (sample (vals.map clip) i)) vals.length b)
        (sample (vals.map clip))) := by
  obtain ⟨hcount, hsum⟩ := passOne_band_totals vals bound (.fin μ) b
  have hband : sampleBand (vals.map clip) (.fin μ) = fun i => bandOf μ (sample (vals.map clip) i) :=
    funext (sampleBand_fin _ μ)
  have hlen : ((bandIdx (fun i => bandOf μ (sample (vals.map clip) i)) vals.length b).length : ℚ) ≠ 0 :=
    by exact_mod_cast (List.length_pos.mpr occupied).ne'
  rw [hband] at hcount hsum
  rw [bandAverages, PerBand.get_ofFn, Dbl.ofNat_eq, Dbl.ofNat_eq, hcount, hsum, Dbl.fin_div_fin hlen,
    meanOver, cast_sum_toNat]
  rfl

/-- The statistics of `get_abs_deviation` over `1 ≤ n < 2 ^ 32` samples, read with exact
arithmetic. With `x` the clipped samples, `μ` their mean and `band i` the band the comparisons
of `|x i - μ|` against `0.1 μ .. 0.75 μ` pick: both passes route sample `i` to `band i`; the
average, mean absolute deviation and standard deviation are those of `x`; and each occupied
band has as average, mean absolute deviation and standard deviation those of its own samples
around its own average. -/
def ExactStatistics (sqrt : ℚ → ℚ) (vals : List UInt64) : Prop :=
  let n := vals.length
  let xs := vals.map clip
  let x := sample xs
  let μ := meanOver (List.range n) x
  let band := fun i => bandOf μ (x i)
  ∃ ad, getAbsDeviation sqrt vals n = some (xs, ad) ∧ ad.avg = .fin μ ∧
    (∀ i s, (passOneStep xs ad.avg i s).numDev = s.numDev.modify (band i) (· + 1) ∧
      (passOneStep xs ad.avg i s).sumVals = s.sumVals.modify (band i) (· + xs.getD i 0)) ∧
    (∀ i t, passTwoStep xs ad.avg ad.bandAvg i t = t.add ad.bandAvg (band i) (xs.getD i 0)) ∧
    ad.absDev = .fin (meanOver (List.range n) fun i => |x i - μ|) ∧
    ad.stdDev = .fin (sqrt (meanOver (List.range n) fun i => (x i - μ) ^ 2)) ∧
    ∀ b, bandIdx band n b ≠ [] →
      let avgB := meanOver (bandIdx band n b) x
      ad.bandAvg.get b = .fin avgB ∧
        ad.bandAbsDev.get b = .fin (meanOver (bandIdx band n b) fun i => |x i - avgB|) ∧
        ad.bandStdDev.get b = .fin (sqrt (meanOver (bandIdx band n b) fun i => (x i - avgB) ^ 2))

theorem meanOver_sq_nonneg (idx : List Nat) (f : Nat → ℚ) (c : ℚ) :
    0 ≤ meanOver idx fun i => (f i - c) ^ 2 :=
  div_nonneg (List.sum_nonneg fun _ h => by
    obtain ⟨i, -, rfl⟩ := List.mem_map.mp h
    exact sq_nonneg _) (Nat.cast_nonneg _)

theorem getAbsDeviation_exact (sqrt : ℚ → ℚ) (vals : List UInt64) (nonempty : vals ≠ [])
    (bound : vals.length < 2 ^ 32) : ExactStatistics sqrt vals := by
  unfold ExactStatistics
  intro n xs x μ band
  have hn : (n : ℚ) ≠ 0 := by exact_mod_cast (List.length_pos.mpr nonempty).ne'
  have hband : sampleBand xs (.fin μ) = band := funext (sampleBand_fin xs μ)
  have havg : average (UInt64.ofNat (clipSum vals)) n = .fin μ := average_clip vals bound nonempty
  have run : getAbsDeviation sqrt vals n = some (xs, summary sqrt n (.fin μ) (passOne xs n (.fin μ))
      (passTwo xs n (.fin μ) (passOne xs n (.fin μ)))) := by
    rw [← havg]
    exact getAbsDeviation_eq_summary sqrt vals bound
  set one := passOne xs n (.fin μ)
  set two := passTwo xs n (.fin μ) one
  have mem_own : ∀ i < n, i ∈ bandIdx band n (band i) := fun i hi =>
    List.mem_filter.mpr ⟨List.mem_range.mpr hi, decide_eq_true rfl⟩
  have known : ∀ i < n, (bandAverages one).get (band i) =
      .fin (meanOver (bandIdx band n (band i)) x) := fun i hi =>
    bandAverages_fin vals bound μ _ (List.ne_nil_of_mem (mem_own i hi))
  obtain ⟨sumAdev, sumStdev⟩ := passTwo_sums xs n μ one (fun b => meanOver (bandIdx band n b) x) known
  have count : ∀ b, Dbl.ofNat (one.numDev.get b).toNat = .fin (bandIdx band n b).length := fun b => by
    rw [(passOne_band_totals vals bound (.fin μ) b).1, hband]
    rfl
  refine ⟨_, run, rfl, fun i s => ?_, fun i t => ?_, ?_, ?_, fun b occupied => ?_⟩
  · show (passOneStep xs (.fin μ) i s).numDev = _ ∧ (passOneStep xs (.fin μ) i s).sumVals = _
    rw [passOneStep_numDev, passOneStep_sumVals, hband]
    exact ⟨rfl, rfl⟩
  · show passTwoStep xs (.fin μ) (bandAverages one) i t = t.add (bandAverages one) (band i) _
    rw [passTwoStep_eq, hband]
  · show one.sumAdev / Dbl.ofNat n = _
    rw [passOne_sumAdev, Dbl.ofNat_eq, Dbl.fin_div_fin hn, meanOver, List.length_range]
  · show Dbl.sqrt sqrt (one.sumStdev / Dbl.ofNat n) = _
    have nonneg := meanOver_sq_nonneg (List.range n) x μ
    rw [meanOver, List.length_range] at nonneg ⊢
    rw [passOne_sumStdev, Dbl.ofNat_eq, Dbl.fin_div_fin hn, Dbl.sqrt_fin_of_nonneg _ nonneg]
  · have hlen : ((bandIdx band n b).length : ℚ) ≠ 0 := by
      exact_mod_cast (List.length_pos.mpr occupied).ne'
    refine ⟨bandAverages_fin vals bound μ b occupied, ?_, ?_⟩
    · simp only [summary, PerBand.get_ofFn]
      rw [sumAdev, count, PerBand.get_ofFn, Dbl.fin_div_fin hlen]
      rfl
    · simp only [summary, PerBand.get_ofFn]
      rw [sumStdev, count, PerBand.get_ofFn, Dbl.fin_div_fin hlen]
      exact Dbl.sqrt_fin_of_nonneg _ (meanOver_sq_nonneg _ x _)

theorem getAbsDeviation_exact_sample :
    ([2000, 7, 3] : List UInt64) ≠ [] ∧ ([2000, 7, 3] : List UInt64).length < 2 ^ 32 ∧
      ExactStatistics id [2000, 7, 3] :=
  ⟨by decide, by decide, getAbsDeviation_exact id [2000, 7, 3] (by decide) (by decide)⟩

end Clipped

end PfdProfiler
