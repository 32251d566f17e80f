import PfdProfiler.Deviation
import Mathlib.Algebra.Order.BigOperators.Group.List

/-! What `get_abs_deviation` does to its array, and the loop invariants of its passes that
do not depend on the arithmetic of doubles: the band counters and tick sums, and the
tracking of the extremes. -/

namespace PfdProfiler

/-- What the clipping loop writes back for one sample. -/
def clip (v : UInt64) : UInt64 := if outOfRange v then 0 else v

theorem outOfRange_iff (v : UInt64) : outOfRange v = true ↔ 1500 < v.toNat := by
  have : (pfdValUpLimit).toNat = 1500 := rfl
  simp only [outOfRange, Bool.or_eq_true, decide_eq_true_eq, u64_lt_iff, this]
  omega

theorem clip_eq (v : UInt64) : clip v = if v ≤ pfdValUpLimit then v else 0 := by
  have hle : v ≤ pfdValUpLimit ↔ v.toNat ≤ 1500 := u64_le_iff
  by_cases hv : v.toNat ≤ 1500
  · have : outOfRange v = false := by
      rw [← Bool.not_eq_true, outOfRange_iff]
      omega
    rw [clip, if_neg (by simp [this]), if_pos (hle.mpr hv)]
  · rw [clip, if_pos ((outOfRange_iff v).mpr (by omega)), if_neg (fun h => hv (hle.mp h))]

theorem clip_toNat_le (v : UInt64) : (clip v).toNat ≤ 1500 := by
  rw [clip_eq]
  split_ifs with h
  · exact h
  · exact Nat.zero_le _

theorem clip_clip (v : UInt64) : clip (clip v) = clip v := by
  rw [clip_eq (clip v), if_pos (show clip v ≤ pfdValUpLimit from u64_le_iff.mpr (clip_toNat_le v))]

theorem getD_clip_le (vals : List UInt64) (i : Nat) : ((vals.map clip).getD i 0).toNat ≤ 1500 := by
  simp only [List.getD_eq_getElem?_getD, List.getElem?_map]
  cases vals[i]? with
  | none => exact Nat.zero_le _
  | some v => exact clip_toNat_le v

def clipPrefix (vals : List UInt64) (k : Nat) : List UInt64 := (vals.take k).map clip ++ vals.drop k

theorem clipStep_upTo (vals : List UInt64) {k : Nat} (hk : k < vals.length) (sum : UInt64) :
    clipStep k (clipPrefix vals k, sum) = (clipPrefix vals (k + 1), sum + clip vals[k]) := by
  have hlen : ((vals.take k).map clip).length = k := by simp [hk.le]
  have hsplit : clipPrefix vals k = (vals.take k).map clip ++ vals[k] :: vals.drop (k + 1) := by
    rw [clipPrefix, List.drop_eq_getElem_cons hk]
  have hnext : clipPrefix vals (k + 1) = (vals.take k).map clip ++ clip vals[k] :: vals.drop (k + 1) := by
    rw [clipPrefix, List.take_succ, List.getElem?_eq_getElem hk, Option.toList_some, List.map_append,
      List.map_singleton, List.append_assoc, List.singleton_append]
  have hget : ∀ w : UInt64, ∀ rest : List UInt64,
      ((vals.take k).map clip ++ w :: rest).getD k 0 = w := by
    intro w rest
    rw [List.getD_append_right _ _ _ _ hlen.le, hlen, Nat.sub_self]
    rfl
  simp only [clipStep, hsplit, hget]
  by_cases hout : outOfRange vals[k]
  · have hclip : clip vals[k] = 0 := by simp [clip, hout]
    simp only [hout, if_true, List.set_append_right _ _ hlen.le, hlen, Nat.sub_self,
      List.set_cons_zero, hget, hnext, hclip]
  · have hclip : clip vals[k] = vals[k] := by simp [clip, hout]
    simp only [hout, if_false, Bool.false_eq_true, hget, hnext, hclip]

def clipSum (vals : List UInt64) : Nat := ((vals.map clip).map UInt64.toNat).sum

theorem u64_ofNat_add (x : Nat) (b : UInt64) : UInt64.ofNat x + b = UInt64.ofNat (x + b.toNat) :=
  UInt64.toNat.inj (by rw [u64_toNat_add, u64_toNat_ofNat, u64_toNat_ofNat, Nat.mod_add_mod])

theorem loop_clipStep (vals : List UInt64) :
    ∀ k, k ≤ vals.length →
      loop k clipStep (vals, 0) = (clipPrefix vals k, UInt64.ofNat (clipSum (vals.take k))) := by
  intro k
  induction k with
  | zero => intro _; simp [clipPrefix, clipSum]
  | succ k ih =>
      intro hk
      rw [loop_succ, ih (by omega), clipStep_upTo vals (by omega), u64_ofNat_add, clipSum,
        clipSum, List.take_succ, List.getElem?_eq_getElem (show k < vals.length by omega),
        Option.toList_some, List.map_append, List.map_append, List.sum_append]
      rfl

theorem clipSum_le (vals : List UInt64) : clipSum vals ≤ 1500 * vals.length := by
  induction vals with
  | nil => simp [clipSum]
  | cons v vals ih =>
      have := clip_toNat_le v
      simp only [clipSum, List.map_cons, List.sum_cons, List.length_cons] at ih ⊢
      omega

theorem loop_clipStep_full (vals : List UInt64) (bound : vals.length < 2 ^ 32) :
    loop vals.length clipStep (vals, 0) = (vals.map clip, UInt64.ofNat (clipSum vals)) ∧
      (UInt64.ofNat (clipSum vals)).toNat = clipSum vals := by
  refine ⟨by simpa [clipPrefix] using loop_clipStep vals vals.length (le_refl _), ?_⟩
  rw [u64_toNat_ofNat, Nat.mod_eq_of_lt]
  have := clipSum_le vals
  omega

theorem clipSum_map_clip (vals : List UInt64) : clipSum (vals.map clip) = clipSum vals := by
  simp [clipSum, Function.comp_def, clip_clip]

theorem loop_map {σ τ : Type} (f : σ → τ) {body : Nat → σ → σ} {g : Nat → τ → τ}
    (comm : ∀ i s, f (body i s) = g i (f s)) (k : Nat) (s : σ) :
    f (loop k body s) = loop k g (f s) := by
  induction k with
  | zero => rfl
  | succ k ih => rw [loop_succ, loop_succ, comm, ih]

def devBand (avg ad : Dbl) : Band :=
  if ad ≤ dev10p avg then .p10
  else if ad ≤ dev25p avg then .p25
  else if ad ≤ dev50p avg then .p50
  else if ad ≤ dev75p avg then .p75
  else .rst

/-- The band of sample `i`: its absolute deviation from the global average, against the
limits drawn from that average. -/
def sampleBand (vals : List UInt64) (avg : Dbl) (i : Nat) : Band :=
  devBand avg (absd (Dbl.ofNat (vals.getD i 0).toNat - avg))

section Passes

variable (vals : List UInt64) (avg : Dbl) (i : Nat)

theorem passOneStep_eq (s : PassOne) :
    passOneStep vals avg i s =
      let v := vals.getD i 0
      let ad := absd (Dbl.ofNat v.toNat - avg)
      let s := ({ s with ext := s.ext.update i (.ofNat v.toNat) }).count (sampleBand vals avg i) v
      { s with sumAdev := s.sumAdev + ad, sumStdev := s.sumStdev + ad * ad } := by
  simp only [passOneStep, sampleBand, devBand]
  split_ifs <;> rfl

theorem passTwoStep_eq (bandAvg : PerBand Dbl) (s : PassTwo) :
    passTwoStep vals avg bandAvg i s = s.add bandAvg (sampleBand vals avg i) (vals.getD i 0) := by
  simp only [passTwoStep, sampleBand, devBand, apply_ite (s.add bandAvg · (vals.getD i 0))]

variable (s : PassOne)

@[simp] theorem passOneStep_ext :
    (passOneStep vals avg i s).ext = s.ext.update i (.ofNat (vals.getD i 0).toNat) := by
  rw [passOneStep_eq]; rfl

@[simp] theorem passOneStep_numDev :
    (passOneStep vals avg i s).numDev = s.numDev.modify (sampleBand vals avg i) (· + 1) := by
  rw [passOneStep_eq]; rfl

@[simp] theorem passOneStep_sumVals :
    (passOneStep vals avg i s).sumVals =
      s.sumVals.modify (sampleBand vals avg i) (· + vals.getD i 0) := by
  rw [passOneStep_eq]; rfl

@[simp] theorem passOneStep_sumAdev :
    (passOneStep vals avg i s).sumAdev = s.sumAdev + absd (Dbl.ofNat (vals.getD i 0).toNat - avg) := by
  rw [passOneStep_eq]; rfl

@[simp] theorem passOneStep_sumStdev :
    (passOneStep vals avg i s).sumStdev =
      s.sumStdev + absd (Dbl.ofNat (vals.getD i 0).toNat - avg) *
        absd (Dbl.ofNat (vals.getD i 0).toNat - avg) := by
  rw [passOneStep_eq]; rfl

variable (bandAvg : PerBand Dbl) (t : PassTwo)

@[simp] theorem passTwoStep_sumAdev :
    (passTwoStep vals avg bandAvg i t).sumAdev =
      t.sumAdev.modify (sampleBand vals avg i)
        (· + absd (Dbl.ofNat (vals.getD i 0).toNat - bandAvg.get (sampleBand vals avg i))) := by
  rw [passTwoStep_eq]; rfl

@[simp] theorem passTwoStep_sumStdev :
    (passTwoStep vals avg bandAvg i t).sumStdev =
      t.sumStdev.modify (sampleBand vals avg i)
        (· + absd (Dbl.ofNat (vals.getD i 0).toNat - bandAvg.get (sampleBand vals avg i)) *
          absd (Dbl.ofNat (vals.getD i 0).toNat - bandAvg.get (sampleBand vals avg i))) := by
  rw [passTwoStep_eq]; rfl

end Passes

def bandIdx (band : Nat → Band) (k : Nat) (b : Band) : List Nat :=
  (List.range k).filter fun i => band i = b

theorem bandIdx_succ (band : Nat → Band) (k : Nat) (b : Band) :
    bandIdx band (k + 1) b = bandIdx band k b ++ if band k = b then [k] else [] := by
  simp only [bandIdx, List.range_succ, List.filter_append, List.filter_singleton]
  split_ifs <;> simp_all

theorem u32_ofNat_add (x : Nat) (b : UInt32) : UInt32.ofNat x + b = UInt32.ofNat (x + b.toNat) :=
  UInt32.toNat.inj (by
    rw [u32_toNat_add, u32_toNat_ofNat_mod, u32_toNat_ofNat_mod, Nat.mod_add_mod])

theorem loop_modify {α : Type} [Add α] (band : Nat → Band) (f : Nat → α) (z : α) (k : Nat) :
    loop k (fun i (acc : PerBand α) => acc.modify (band i) (· + f i)) (PerBand.ofFn fun _ => z) =
      PerBand.ofFn fun b => (bandIdx band k b).foldl (fun a i => a + f i) z := by
  induction k with
  | zero => rfl
  | succ k ih =>
      rw [loop_succ, ih]
      refine PerBand.ext_get fun b => ?_
      simp only [PerBand.get_modify, PerBand.get_ofFn, bandIdx_succ, List.foldl_append]
      split_ifs with h1 h2 h2
      · rfl
      · exact absurd h1.symm h2
      · exact absurd h2.symm h1
      · rfl

theorem foldl_add_u32 (l : List Nat) (m : Nat) :
    l.foldl (fun (a : UInt32) _ => a + 1) (.ofNat m) = .ofNat (m + l.length) := by
  induction l generalizing m with
  | nil => rfl
  | cons i l ih =>
      rw [List.foldl_cons, u32_ofNat_add, ih, List.length_cons, show (1 : UInt32).toNat = 1 from rfl,
        Nat.add_assoc, Nat.add_comm 1]

theorem foldl_add_u64 (v : Nat → UInt64) (l : List Nat) (m : Nat) :
    l.foldl (fun a i => a + v i) (UInt64.ofNat m) = .ofNat (m + (l.map fun i => (v i).toNat).sum) := by
  induction l generalizing m with
  | nil => rfl
  | cons i l ih => rw [List.foldl_cons, u64_ofNat_add, ih, List.map_cons, List.sum_cons, Nat.add_assoc]

theorem loop_count (band : Nat → Band) (k : Nat) :
    loop k (fun i (acc : PerBand UInt32) => acc.modify (band i) (· + 1)) (PerBand.ofFn fun _ => 0) =
      PerBand.ofFn fun b => UInt32.ofNat (bandIdx band k b).length := by
  rw [loop_modify band (fun _ => 1)]
  exact congrArg PerBand.ofFn (funext fun b => (foldl_add_u32 _ 0).trans (by rw [Nat.zero_add]))

theorem loop_sum (band : Nat → Band) (v : Nat → UInt64) (k : Nat) :
    loop k (fun i (acc : PerBand UInt64) => acc.modify (band i) (· + v i)) (PerBand.ofFn fun _ => 0) =
      PerBand.ofFn fun b => UInt64.ofNat ((bandIdx band k b).map fun i => (v i).toNat).sum := by
  rw [loop_modify]
  exact congrArg PerBand.ofFn (funext fun b => (foldl_add_u64 v _ 0).trans (by rw [Nat.zero_add]))

theorem bandIdx_partition (band : Nat → Band) (w : Nat → Nat) (k : Nat) :
    ((bandIdx band k .p10).map w).sum + ((bandIdx band k .p25).map w).sum +
        ((bandIdx band k .p50).map w).sum + ((bandIdx band k .p75).map w).sum +
        ((bandIdx band k .rst).map w).sum = ((List.range k).map w).sum := by
  induction k with
  | zero => rfl
  | succ k ih =>
      simp only [bandIdx_succ, List.map_append, List.sum_append, List.range_succ]
      cases band k <;> simp only [reduceCtorEq, if_true, if_false, List.map_cons, List.map_nil,
        List.sum_cons, List.sum_nil] <;> omega

theorem map_range_getD (l : List UInt64) (f : UInt64 → Nat) :
    (List.range l.length).map (fun i => f (l.getD i 0)) = l.map f := by
  apply List.ext_getElem (by simp)
  intro i h1 _
  simp [List.getElem?_eq_getElem (by simpa using h1)]

theorem clipLoop_eq (vals : List UInt64) (bound : vals.length < 2 ^ 32) :
    clipLoop vals vals.length = (vals.map clip, UInt64.ofNat (clipSum vals)) :=
  (loop_clipStep_full vals bound).1

theorem clipSum_range (vals : List UInt64) :
    ((List.range vals.length).map fun i => ((vals.map clip).getD i 0).toNat).sum = clipSum vals := by
  rw [clipSum, ← map_range_getD, List.length_map]

/-- Over fewer than `2 ^ 32` clipped samples, whatever the average, each band counter and
each band tick sum of pass 1 holds the exact count and sum of the indices `sampleBand` puts
in that band. -/
theorem passOne_band_totals (vals : List UInt64) (bound : vals.length < 2 ^ 32) (avg : Dbl)
    (b : Band) :
    let xs := vals.map clip
    let one := passOne xs vals.length avg
    let idx := bandIdx (sampleBand xs avg) vals.length b
    (one.numDev.get b).toNat = idx.length ∧
      (one.sumVals.get b).toNat = (idx.map fun i => (xs.getD i 0).toNat).sum := by
  intro xs one idx
  have hcount : one.numDev = _ := (loop_map PassOne.numDev (fun i s => passOneStep_numDev xs avg i s) vals.length
    PassOne.init).trans
    (loop_count (sampleBand xs avg) vals.length)
  have hticks : one.sumVals = _ := (loop_map PassOne.sumVals (fun i s => passOneStep_sumVals xs avg i s) vals.length
    PassOne.init).trans
    (loop_sum (sampleBand xs avg) (fun i => xs.getD i 0) vals.length)
  have count_le : idx.length ≤ vals.length :=
    (List.length_filter_le _ _).trans (List.length_range _).le
  have sum_le : (idx.map fun i => (xs.getD i 0).toNat).sum ≤ idx.length * 1500 := by
    have := List.sum_le_card_nsmul (idx.map fun i => (xs.getD i 0).toNat) 1500 (by
      simp only [List.mem_map]
      rintro _ ⟨i, -, rfl⟩
      exact getD_clip_le vals i)
    rwa [List.length_map, smul_eq_mul] at this
  simp only [idx] at count_le sum_le ⊢
  rw [hcount, hticks, PerBand.get_ofFn, PerBand.get_ofFn, u32_toNat_ofNat_mod, u64_toNat_ofNat,
    Nat.mod_eq_of_lt (by omega), Nat.mod_eq_of_lt (by omega)]
  exact ⟨rfl, rfl⟩

/-- `get_abs_deviation` zeroes exactly the samples above `PFD_VAL_UP_LIMIT` and keeps the
others, and the record depends on the array only through what it leaves behind: a second
run on that array changes nothing and returns the same record. -/
theorem getAbsDeviation_rerun (sqrt : ℚ → ℚ) (vals : List UInt64) (bound : vals.length < 2 ^ 32) :
    ∃ ad, getAbsDeviation sqrt vals vals.length =
        some (vals.map fun v => if v ≤ pfdValUpLimit then v else 0, ad) ∧
      getAbsDeviation sqrt (vals.map fun v => if v ≤ pfdValUpLimit then v else 0) vals.length =
        some (vals.map fun v => if v ≤ pfdValUpLimit then v else 0, ad) := by
  have hclip : (fun v => if v ≤ pfdValUpLimit then v else 0) = clip := funext fun v => (clip_eq v).symm
  have hlen : (vals.map clip).length = vals.length := List.length_map _ _
  have again : clipLoop (vals.map clip) vals.length = (vals.map clip, UInt64.ofNat (clipSum vals)) := by
    rw [← hlen, clipLoop_eq _ (by rwa [hlen]), List.map_map, clipSum_map_clip]
    simp [Function.comp_def, clip_clip]
  rw [hclip, getAbsDeviation_eq _ _ bound, getAbsDeviation_eq _ _ bound]
  simp only [analyse, again, clipLoop_eq _ bound]
  exact ⟨_, rfl, rfl⟩

theorem getAbsDeviation_rerun_sample :
    ([2000, 7] : List UInt64).length < 2 ^ 32 ∧
      ∃ ad, getAbsDeviation id [2000, 7] [2000, 7].length =
          some ([2000, 7].map fun v => if v ≤ pfdValUpLimit then v else 0, ad) ∧
        getAbsDeviation id ([2000, 7].map fun v => if v ≤ pfdValUpLimit then v else 0)
            [2000, 7].length =
          some ([2000, 7].map fun v => if v ≤ pfdValUpLimit then v else 0, ad) :=
  ⟨by decide, getAbsDeviation_rerun id [2000, 7] (by decide)⟩

theorem u32_toUInt64_toNat (a : UInt32) : a.toUInt64.toNat = a.toNat := rfl

theorem numVals_sub_numDev {n : Nat} (c : UInt32) (hn : n < 2 ^ 64) (hc : c.toNat ≤ n) :
    (UInt64.ofNat n - c.toUInt64).toNat = n - c.toNat := by
  rw [u64_toNat_sub, u64_toNat_ofNat, u32_toUInt64_toNat, Nat.mod_eq_of_lt hn]
  omega

/-- Pass 1 puts every sample in exactly one band, the five tick sums add up to `sum_vals`,
the sum of the clipped samples, and none of the counters and sums wraps: each holds the exact
count or sum. So `num_vals - num_dev_b` in `print_abs_deviation` does not wrap either. -/
def BandsExact (sqrt : ℚ → ℚ) (vals : List UInt64) : Prop :=
  let n := vals.length
  let xs := vals.map clip
  let sumVals := UInt64.ofNat (clipSum vals)
  let one := passOne xs n (average sumVals n)
  let band := sampleBand xs (average sumVals n)
  clipLoop vals n = (xs, sumVals) ∧ sumVals.toNat = clipSum vals ∧ clipSum vals ≤ 1500 * n ∧
    (∀ b, (one.numDev.get b).toNat = (bandIdx band n b).length ∧
      (one.sumVals.get b).toNat = ((bandIdx band n b).map fun i => (xs.getD i 0).toNat).sum) ∧
    one.numDev.p10.toNat + one.numDev.p25.toNat + one.numDev.p50.toNat + one.numDev.p75.toNat +
      one.numDev.rst.toNat = n ∧
    one.sumVals.p10.toNat + one.sumVals.p25.toNat + one.sumVals.p50.toNat +
      one.sumVals.p75.toNat + one.sumVals.rst.toNat = sumVals.toNat ∧
    ∃ ad, getAbsDeviation sqrt vals n = some (xs, ad) ∧ ad.numDev = one.numDev ∧
      ∀ b, (ad.numVals - (ad.numDev.get b).toUInt64).toNat = n - (ad.numDev.get b).toNat

theorem getAbsDeviation_bands (sqrt : ℚ → ℚ) (vals : List UInt64) (bound : vals.length < 2 ^ 32) :
    BandsExact sqrt vals := by
  unfold BandsExact
  intro n xs sumVals one band
  have hsum := (loop_clipStep_full vals bound).2
  have exact : ∀ b, (one.numDev.get b).toNat = (bandIdx band n b).length ∧
      (one.sumVals.get b).toNat = ((bandIdx band n b).map fun i => (xs.getD i 0).toNat).sum :=
    passOne_band_totals vals bound _
  have hcounts := bandIdx_partition band (fun _ => 1) n
  have hsums := bandIdx_partition band (fun i => (xs.getD i 0).toNat) n
  simp only [List.map_const', List.sum_replicate, smul_eq_mul, mul_one, List.length_range] at hcounts
  rw [clipSum_range] at hsums
  have e10 := exact .p10
  have e25 := exact .p25
  have e50 := exact .p50
  have e75 := exact .p75
  have erst := exact .rst
  simp only [PerBand.get] at e10 e25 e50 e75 erst
  refine ⟨clipLoop_eq vals bound, hsum, clipSum_le vals, exact,
    by rw [e10.1, e25.1, e50.1, e75.1, erst.1]; exact hcounts,
    by rw [e10.2, e25.2, e50.2, e75.2, erst.2, show sumVals = UInt64.ofNat (clipSum vals) from rfl,
      hsum]; exact hsums, ?_⟩
  have hrun : getAbsDeviation sqrt vals n =
      some (xs, summary sqrt n (average sumVals n) one (passTwo xs n (average sumVals n) one)) := by
    rw [getAbsDeviation_eq sqrt vals bound, analyse, clipLoop_eq vals bound]
  refine ⟨_, hrun, rfl, fun b => numVals_sub_numDev (one.numDev.get b) (by omega) ?_⟩
  rw [(exact b).1]
  exact (List.length_filter_le _ _).trans (List.length_range n).le

theorem getAbsDeviation_bands_sample :
    ([2000, 7, 3] : List UInt64).length < 2 ^ 32 ∧ BandsExact id [2000, 7, 3] :=
  ⟨by decide, getAbsDeviation_bands id [2000, 7, 3] (by decide)⟩

/-- The running maximum pass 1 compares sample `k` against: `0`, then the largest of the
samples before `k`. -/
def runMax (x : Nat → Nat) : Nat → Nat
  | 0 => 0
  | k + 1 => max (runMax x k) (x k)

theorem le_runMax (x : Nat → Nat) {i k : Nat} (h : i < k) : x i ≤ runMax x k := by
  induction k with
  | zero => omega
  | succ k ih =>
      rcases Nat.lt_succ_iff_lt_or_eq.mp h with h | rfl
      · exact (ih h).trans (le_max_left _ _)
      · exact le_max_right _ _

def stays (x : Nat → Nat) (k : Nat) : List Nat := (List.range k).filter fun i => x i ≤ runMax x i

theorem stays_succ (x : Nat → Nat) (k : Nat) :
    stays x (k + 1) = stays x k ++ if x k ≤ runMax x k then [k] else [] := by
  by_cases h : x k ≤ runMax x k <;> simp [stays, List.range_succ, List.filter_append, h]

theorem lt_of_mem_stays {x : Nat → Nat} {k i : Nat} (h : i ∈ stays x k) : i < k := by
  simp only [stays, List.mem_filter, List.mem_range] at h
  exact h.1

/-- What pass 1 knows of the extremes after `k` samples `x 0 .. x (k - 1)`: the running
maximum at its first index, and the least sample that did not raise the maximum at its first
index, or `DBL_MAX` at index `0` while there is none. -/
structure ExtremesInv (x : Nat → Nat) (k : Nat) (e : Extremes) : Prop where
  max_val : e.maxVal = .fin (runMax x k)
  max_zero : runMax x k = 0 → e.maxValIdx = 0
  max_idx : 0 < runMax x k → e.maxValIdx.toNat < k ∧ x e.maxValIdx.toNat = runMax x k ∧
    ∀ i < e.maxValIdx.toNat, x i < runMax x k
  min_none : stays x k = [] → e.minVal = dblMax ∧ e.minValIdx = 0
  min_some : stays x k ≠ [] → e.minValIdx.toNat ∈ stays x k ∧ e.minVal = .fin (x e.minValIdx.toNat) ∧
    ∀ i ∈ stays x k, x e.minValIdx.toNat ≤ x i ∧ (i < e.minValIdx.toNat → x e.minValIdx.toNat < x i)

theorem dblMax_gt (v : Nat) (h : v ≤ 1500) : Dbl.fin v < dblMax := by
  simp only [dblMax, Dbl.fin_lt_fin]
  have : (v : ℚ) ≤ 1500 := by exact_mod_cast h
  linarith [show (1500 : ℚ) < (2 ^ 53 - 1) * 2 ^ 971 by norm_num]

theorem u64_ofNat_toNat {k : Nat} (h : k < 2 ^ 64) : (UInt64.ofNat k).toNat = k := by
  rw [u64_toNat_ofNat, Nat.mod_eq_of_lt h]

theorem extremes_step (x : Nat → Nat) (small : ∀ i, x i ≤ 1500) {k : Nat} (bound : k < 2 ^ 64)
    {e : Extremes} (inv : ExtremesInv x k e) : ExtremesInv x (k + 1) (e.update k (.fin (x k))) := by
  have hk : (UInt64.ofNat k).toNat = k := u64_ofNat_toNat bound
  by_cases raise : runMax x k < x k
  · -- the sample raises the maximum and leaves the minimum alone
    have hmax : runMax x (k + 1) = x k := max_eq_right raise.le
    have hstays : stays x (k + 1) = stays x k := by
      rw [stays_succ, if_neg (by omega), List.append_nil]
    have hupd : e.update k (.fin (x k)) = { e with maxVal := .fin (x k), maxValIdx := .ofNat k } := by
      simp [Extremes.update, inv.max_val, raise]
    rw [hupd]
    refine ⟨by simp [hmax], by omega, fun _ => ⟨by simp [hk], by simp [hk, hmax], ?_⟩,
      hstays ▸ inv.min_none, hstays ▸ inv.min_some⟩
    intro i hi
    have := le_runMax x (show i < k by simpa [hk] using hi)
    omega
  · have hmax : runMax x (k + 1) = runMax x k := max_eq_left (by omega)
    have hstays : stays x (k + 1) = stays x k ++ [k] := by rw [stays_succ, if_pos (by omega)]
    have not_gt : ¬ (e.maxVal < .fin (x k)) := by simpa [inv.max_val] using raise
    have max_idx : 0 < runMax x (k + 1) → e.maxValIdx.toNat < k + 1 ∧
        x e.maxValIdx.toNat = runMax x (k + 1) ∧ ∀ i < e.maxValIdx.toNat, x i < runMax x (k + 1) := by
      intro h
      obtain ⟨lt, eq, first⟩ := inv.max_idx (hmax ▸ h)
      exact ⟨by omega, by rw [eq, hmax], by rwa [hmax]⟩
    by_cases lower : .fin (x k) < e.minVal
    · have hupd : e.update k (.fin (x k)) = { e with minVal := .fin (x k), minValIdx := .ofNat k } := by
        simp only [Extremes.update, gt_iff_lt, not_gt, lower, if_false, if_true]
      rw [hupd]
      refine ⟨by simp [inv.max_val, hmax], fun h => inv.max_zero (hmax ▸ h), max_idx,
        fun h => by simp [hstays] at h, fun _ => ?_⟩
      refine ⟨by simp [hk, hstays], by simp [hk], ?_⟩
      intro i hi
      simp only [hstays, List.mem_append, List.mem_singleton, hk] at hi ⊢
      rcases hi with hi | rfl
      · have hlt := lt_of_mem_stays hi
        have some_before : stays x k ≠ [] := List.ne_nil_of_mem hi
        obtain ⟨_, hmin, least⟩ := inv.min_some some_before
        have : x k < x e.minValIdx.toNat := by simpa [hmin] using lower
        have := (least i hi).1
        exact ⟨by omega, fun _ => by omega⟩
      · exact ⟨le_refl _, fun h => absurd h (lt_irrefl _)⟩
    · have hupd : e.update k (.fin (x k)) = e := by
        simp only [Extremes.update, gt_iff_lt, not_gt, lower, if_false]
      rw [hupd]
      have some_before : stays x k ≠ [] := by
        intro none
        exact lower ((inv.min_none none).1 ▸ dblMax_gt _ (small k))
      obtain ⟨hmem, hmin, least⟩ := inv.min_some some_before
      have not_lt : x e.minValIdx.toNat ≤ x k := by
        simp only [hmin, Dbl.fin_lt_fin, Nat.cast_lt, not_lt] at lower
        exact lower
      refine ⟨by rw [inv.max_val, hmax], fun h => inv.max_zero (hmax ▸ h), max_idx,
        fun h => by simp [hstays] at h, fun _ => ⟨hstays ▸ List.mem_append_left _ hmem, hmin, ?_⟩⟩
      intro i hi
      rw [hstays, List.mem_append, List.mem_singleton] at hi
      rcases hi with hi | rfl
      · exact least i hi
      · have := lt_of_mem_stays hmem
        exact ⟨not_lt, fun h => absurd h (by omega)⟩

theorem extremes_run (x : Nat → Nat) (small : ∀ i, x i ≤ 1500) :
    ∀ k, k < 2 ^ 64 → ExtremesInv x k (loop k (fun i e => e.update i (.fin (x i))) Extremes.init)
  | 0, _ => ⟨rfl, fun _ => rfl, fun h => absurd h (lt_irrefl _), fun _ => ⟨rfl, rfl⟩,
      fun h => absurd rfl h⟩
  | k + 1, bound => by
      rw [loop_succ]
      exact extremes_step x small (by omega) (extremes_run x small k (by omega))

theorem passOne_ext (xs : List UInt64) (n : Nat) (avg : Dbl) :
    (passOne xs n avg).ext =
      loop n (fun i e => e.update i (.fin (xs.getD i 0).toNat)) Extremes.init :=
  loop_map PassOne.ext (fun i s => passOneStep_ext xs avg i s) n _

theorem analyse_eq_summary (sqrt : ℚ → ℚ) (vals : List UInt64) (bound : vals.length < 2 ^ 32) :
    let n := vals.length
    let avg := average (UInt64.ofNat (clipSum vals)) n
    let one := passOne (vals.map clip) n avg
    analyse sqrt vals n = (vals.map clip, summary sqrt n avg one (passTwo (vals.map clip) n avg one)) := by
  intro n avg one
  rw [analyse, clipLoop_eq vals bound]

@[simp] theorem analyse_numVals (sqrt : ℚ → ℚ) (vals : List UInt64) (n : Nat) :
    (analyse sqrt vals n).2.numVals = .ofNat n := by
  unfold analyse
  split
  rfl

theorem getAbsDeviation_eq_summary (sqrt : ℚ → ℚ) (vals : List UInt64) (bound : vals.length < 2 ^ 32) :
    let n := vals.length
    let avg := average (UInt64.ofNat (clipSum vals)) n
    let one := passOne (vals.map clip) n avg
    getAbsDeviation sqrt vals n =
      some (vals.map clip, summary sqrt n avg one (passTwo (vals.map clip) n avg one)) :=
  (getAbsDeviation_eq sqrt vals bound).trans (congrArg some (analyse_eq_summary sqrt vals bound))

/-- Pass 1 keeps the largest clipped sample at the first index holding it. A sample that does
not raise the running maximum (which starts at `0`) may lower the minimum and one that raises
it never does, so the minimum is taken over the samples that stay at or below the running
maximum, at the first index holding it; when every sample raises the maximum, `min_val`
stays `DBL_MAX` at index `0`. -/
def ExtremesTracked (sqrt : ℚ → ℚ) (vals : List UInt64) : Prop :=
  let n := vals.length
  let x := fun i => ((vals.map clip).getD i 0).toNat
  ∃ ad, getAbsDeviation sqrt vals n = some (vals.map clip, ad) ∧
    ad.maxValIdx.toNat < n ∧ ad.maxVal = .fin (x ad.maxValIdx.toNat) ∧
    (∀ i < n, x i ≤ x ad.maxValIdx.toNat) ∧
    (∀ i < ad.maxValIdx.toNat, x i < x ad.maxValIdx.toNat) ∧
    (stays x n = [] → ad.minVal = dblMax ∧ ad.minValIdx = 0) ∧
    (stays x n ≠ [] → ad.minValIdx.toNat ∈ stays x n ∧ ad.minVal = .fin (x ad.minValIdx.toNat) ∧
      ∀ i ∈ stays x n, x ad.minValIdx.toNat ≤ x i ∧
        (i < ad.minValIdx.toNat → x ad.minValIdx.toNat < x i))

theorem getAbsDeviation_extremes (sqrt : ℚ → ℚ) (vals : List UInt64) (nonempty : vals ≠ [])
    (bound : vals.length < 2 ^ 32) : ExtremesTracked sqrt vals := by
  unfold ExtremesTracked
  intro n x
  have inv := extremes_run x (getD_clip_le vals) n (by omega)
  have hext := passOne_ext (vals.map clip) n (average (UInt64.ofNat (clipSum vals)) n)
  rw [← hext] at inv
  have hpos : 0 < n := List.length_pos.mpr nonempty
  refine ⟨_, getAbsDeviation_eq_summary sqrt vals bound, ?_⟩
  simp only [summary]
  have top : ∀ i < n, x i ≤ runMax x n := fun i hi => le_runMax x hi
  by_cases zero : runMax x n = 0
  · have idx := inv.max_zero zero
    have x0 : x 0 = 0 := by have := top 0 hpos; omega
    rw [idx, inv.max_val, zero]
    refine ⟨hpos, by simp [x0], fun i hi => by have := top i hi; omega,
      fun i hi => absurd hi (Nat.not_lt_zero _), inv.min_none, inv.min_some⟩
  · obtain ⟨lt, eq, first⟩ := inv.max_idx (Nat.pos_of_ne_zero zero)
    rw [inv.max_val, eq]
    exact ⟨lt, rfl, top, first, inv.min_none, inv.min_some⟩

theorem getAbsDeviation_extremes_sample :
    ([2, 5, 3] : List UInt64) ≠ [] ∧ ([2, 5, 3] : List UInt64).length < 2 ^ 32 ∧
      ExtremesTracked id [2, 5, 3] :=
  ⟨by decide, by decide, getAbsDeviation_extremes id [2, 5, 3] (by decide) (by decide)⟩

/-- On the increasing array `[3, 5]` both samples raise the maximum and the minimum is never
updated: `min_val` is `DBL_MAX`, not the least sample `3`, and `vals[min_val_idx]` is `3`. -/
theorem getAbsDeviation_increasing_pair :
    ∃ ad, getAbsDeviation id [3, 5] 2 = some ([3, 5], ad) ∧
      ad.minVal = dblMax ∧ ad.minValIdx = 0 ∧ ad.minVal ≠ .fin 3 := by
  have hclip : [3, 5].map clip = [3, 5] := by decide
  have run := getAbsDeviation_eq_summary id [3, 5] (by decide)
  simp only [hclip] at run
  refine ⟨_, run, ?_⟩
  have h3 : (3 : UInt64).toNat = 3 := rfl
  have h5 : (5 : UInt64).toNat = 5 := rfl
  simp only [summary, passOne_ext, loop, List.range, List.range.loop, List.foldl, Extremes.update,
    Extremes.init, List.getD_cons_zero, List.getD_cons_succ, h3, h5, Dbl.zero_eq, gt_iff_lt,
    Dbl.fin_lt_fin]
  norm_num [dblMax]

end PfdProfiler
