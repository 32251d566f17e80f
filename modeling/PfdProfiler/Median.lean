import PfdProfiler.Double
import PfdProfiler.Ticks
import Mathlib.Data.List.Sort

/-! `median_non_zero_ticks`, the fallback of the calibration after its last retry, and the
median of a multiset it computes. -/

namespace PfdProfiler

/-- `qsort(base, count, sizeof(ticks), compare)`. The C library leaves the algorithm open;
for a comparison that orders its elements totally, as `ticks_compare` does, every algorithm
returns the same array, and insertion sort stands for it. -/
def qsort (compare : UInt64 → UInt64 → Int) (xs : List UInt64) : List UInt64 :=
  xs.insertionSort fun a b => compare a b ≤ 0

/-- The filter loop of `median_non_zero_ticks`: `scratch[0 .. count - 1]`. -/
def nonZeroScratch (samples : List UInt64) (numEntries : Nat) : List UInt64 :=
  (List.range numEntries).foldl (fun scratch i =>
    let value := samples.getD i 0
    if value = 0 then scratch else scratch ++ [value]) []

/-- `median_non_zero_ticks(samples, num_entries)`, the scratch allocation succeeding. Both
casts round, and so does their sum: a sum of two whole doubles is the whole number
`roundNat` rounds. -/
def medianNonZeroTicks (samples : List UInt64) (numEntries : UInt32) : Dbl :=
  if numEntries.toNat = 0 then .nan
  else
    let scratch := nonZeroScratch samples numEntries.toNat
    let count := scratch.length
    if count = 0 then .nan
    else
      let scratch := qsort ticksCompare scratch
      if count &&& 1 = 0 then
        .fin (Dbl.roundNat (Dbl.roundNat (scratch.getD (count / 2 - 1) 0).toNat +
          Dbl.roundNat (scratch.getD (count / 2) 0).toNat)) / 2
      else Dbl.ofU64 (scratch.getD (count / 2) 0)

/-- The middle of an ascending list: its middle element, or the mean of its two middle
elements when the count is even. -/
def middle (sorted : List ℕ) : ℚ :=
  let count := sorted.length
  if count % 2 = 0 then ((sorted.getD (count / 2 - 1) 0 : ℚ) + sorted.getD (count / 2) 0) / 2
  else sorted.getD (count / 2) 0

/-- `middle` as `median_non_zero_ticks` computes it in `double`. -/
def middleRounded (sorted : List ℕ) : ℚ :=
  let count := sorted.length
  if count % 2 = 0 then
    (Dbl.roundNat (Dbl.roundNat (sorted.getD (count / 2 - 1) 0) + Dbl.roundNat (sorted.getD (count / 2) 0)) : ℚ) / 2
  else Dbl.roundNat (sorted.getD (count / 2) 0)

def median (xs : List ℕ) : ℚ := middle (xs.insertionSort (· ≤ ·))

def nonZero (samples : List UInt64) : List ℕ := (samples.map UInt64.toNat).filter (· ≠ 0)

def TicksLe (a b : UInt64) : Prop := ticksCompare a b ≤ 0

instance : DecidableRel TicksLe := fun a b => inferInstanceAs (Decidable (ticksCompare a b ≤ 0))

theorem ticksLe_iff (a b : UInt64) : TicksLe a b ↔ a.toNat ≤ b.toNat :=
  (ticksCompare_nonpos_iff a b).trans u64_le_iff

instance : IsTotal UInt64 TicksLe :=
  ⟨fun a b => (le_total a.toNat b.toNat).imp (ticksLe_iff a b).mpr (ticksLe_iff b a).mpr⟩

instance : IsTrans UInt64 TicksLe :=
  ⟨fun a b c hab hbc => (ticksLe_iff a c).mpr (((ticksLe_iff a b).mp hab).trans ((ticksLe_iff b c).mp hbc))⟩

theorem nonZeroScratch_eq (samples : List UInt64) (n : Nat) :
    nonZeroScratch samples n = (samples.take n).filter (· != 0) := by
  induction n with
  | zero => simp [nonZeroScratch]
  | succ n ih =>
      have step : nonZeroScratch samples (n + 1) =
          let value := samples.getD n 0
          if value = 0 then nonZeroScratch samples n else nonZeroScratch samples n ++ [value] := by
        simp only [nonZeroScratch, List.range_succ, List.foldl_append, List.foldl_cons,
          List.foldl_nil]
      rw [step, ih, List.take_succ, List.filter_append]
      cases h : samples[n]? with
      | none => simp [h]
      | some v => by_cases hv : v = 0 <;> simp [h, hv]

theorem qsort_map_toNat (xs : List UInt64) :
    (qsort ticksCompare xs).map UInt64.toNat = (xs.map UInt64.toNat).insertionSort (· ≤ ·) := by
  have sorted : ((qsort ticksCompare xs).map UInt64.toNat).Sorted (· ≤ ·) := by
    have := List.sorted_insertionSort TicksLe xs
    rw [List.Sorted, List.pairwise_map]
    exact this.imp fun h => (ticksLe_iff _ _).mp h
  exact List.eq_of_perm_of_sorted
    (((List.perm_insertionSort TicksLe xs).map _).trans (List.perm_insertionSort _ _).symm)
    sorted (List.sorted_insertionSort _ _)

theorem scratch_map_toNat (samples : List UInt64) (n : Nat) :
    (nonZeroScratch samples n).map UInt64.toNat = nonZero (samples.take n) := by
  rw [nonZeroScratch_eq, nonZero, List.filter_map]
  congr 1
  apply List.filter_congr
  intro x _
  by_cases hx : x = 0
  · simp [hx]
  · have : x.toNat ≠ 0 := fun h => hx (u64_eq_iff.mpr h)
    simp [hx, this]

theorem getD_map_toNat (xs : List UInt64) (i : Nat) :
    (xs.getD i 0).toNat = (xs.map UInt64.toNat).getD i 0 := by
  simp only [List.getD_eq_getElem?_getD, List.getElem?_map]
  cases xs[i]? <;> rfl

theorem getD_lt {s : List ℕ} {b : ℕ} (h : ∀ x ∈ s, x < b) (hb : 0 < b) (i : ℕ) : s.getD i 0 < b := by
  rw [List.getD_eq_getElem?_getD]
  cases hs : s[i]? with
  | none => exact hb
  | some x => exact h x (List.getElem?_mem hs)

theorem length_qsort (compare : UInt64 → UInt64 → Int) (xs : List UInt64) :
    (qsort compare xs).length = xs.length :=
  List.length_insertionSort _ _

theorem pick_middle (s : List UInt64) :
    (if s.length &&& 1 = 0 then
        .fin (Dbl.roundNat (Dbl.roundNat (s.getD (s.length / 2 - 1) 0).toNat +
          Dbl.roundNat (s.getD (s.length / 2) 0).toNat)) / 2
      else Dbl.ofU64 (s.getD (s.length / 2) 0)) = .fin (middleRounded (s.map UInt64.toNat)) := by
  simp only [middleRounded, Nat.and_one_is_mod, List.length_map, Dbl.ofU64, getD_map_toNat]
  split_ifs <;> simp

theorem medianNonZeroTicks_eq (samples : List UInt64) (n : UInt32) :
    medianNonZeroTicks samples n =
      if nonZero (samples.take n.toNat) = [] then .nan
      else .fin (middleRounded ((nonZero (samples.take n.toNat)).insertionSort (· ≤ ·))) := by
  by_cases hn : n.toNat = 0
  · simp [medianNonZeroTicks, hn, nonZero]
  have hsort := qsort_map_toNat (nonZeroScratch samples n.toNat)
  rw [scratch_map_toNat] at hsort
  have hempty : (qsort ticksCompare (nonZeroScratch samples n.toNat)).length = 0 ↔
      nonZero (samples.take n.toNat) = [] := by
    rw [← List.length_map _ UInt64.toNat, hsort, List.length_insertionSort, List.length_eq_zero]
  simp only [medianNonZeroTicks, hn, if_false]
  rw [← length_qsort ticksCompare (nonZeroScratch samples n.toNat)]
  simp only [hempty, pick_middle, hsort]

theorem middleRounded_of_lt {s : List ℕ} (small : ∀ x ∈ s, x < 2 ^ 52) : middleRounded s = middle s := by
  have hx := getD_lt small (by positivity)
  have hr : ∀ i, Dbl.roundNat (s.getD i 0) = s.getD i 0 := fun i =>
    Dbl.roundNat_of_lt ((hx i).trans (by norm_num))
  simp only [middleRounded, middle, hr]
  split_ifs
  · rw [Dbl.roundNat_of_lt (by linarith only [hx (s.length / 2 - 1), hx (s.length / 2)])]
    push_cast
    rfl
  · rfl

theorem middleRounded_pos {s : List ℕ} (pos : ∀ x ∈ s, 0 < x) (nonempty : s ≠ []) : 0 < middleRounded s := by
  have hget : ∀ i < s.length, 0 < s.getD i 0 := fun i hi => by
    rw [List.getD_eq_getElem _ _ hi]
    exact pos _ (List.getElem_mem hi)
  have hlen : 0 < s.length := List.length_pos.mpr nonempty
  simp only [middleRounded]
  split_ifs
  · have : 0 < Dbl.roundNat (s.getD (s.length / 2) 0) := Dbl.roundNat_pos (hget _ (by omega))
    have : 0 < Dbl.roundNat (Dbl.roundNat (s.getD (s.length / 2 - 1) 0) + Dbl.roundNat (s.getD (s.length / 2) 0)) :=
      Dbl.roundNat_pos (by omega)
    positivity
  · exact_mod_cast Dbl.roundNat_pos (hget _ (by omega))

theorem insertionSort_perm_eq {xs ys : List ℕ} (perm : xs.Perm ys) :
    xs.insertionSort (· ≤ ·) = ys.insertionSort (· ≤ ·) :=
  List.eq_of_perm_of_sorted
    ((List.perm_insertionSort _ xs).trans (perm.trans (List.perm_insertionSort _ ys).symm))
    (List.sorted_insertionSort _ xs) (List.sorted_insertionSort _ ys)

theorem middle_bounds {s : List ℕ} (sorted : s.Sorted (· ≤ ·)) (nonempty : s ≠ []) :
    ∃ lo ∈ s, ∃ hi ∈ s, (lo : ℚ) ≤ middle s ∧ middle s ≤ hi := by
  have hpos : 0 < s.length := List.length_pos.mpr nonempty
  have hj : s.length / 2 < s.length := by omega
  simp only [middle, List.getD_eq_getElem _ _ hj]
  split_ifs with heven
  · have hi : s.length / 2 - 1 < s.length := by omega
    have hle : s[s.length / 2 - 1] ≤ s[s.length / 2] := by
      simpa using sorted.rel_get_of_le (show (⟨_, hi⟩ : Fin s.length) ≤ ⟨_, hj⟩ by
        simp [Fin.le_def])
    have hle' : (s[s.length / 2 - 1] : ℚ) ≤ s[s.length / 2] := by exact_mod_cast hle
    rw [List.getD_eq_getElem _ _ hi]
    exact ⟨_, List.getElem_mem hi, _, List.getElem_mem hj, by linarith only [hle'], by linarith only [hle']⟩
  · exact ⟨_, List.getElem_mem hj, _, List.getElem_mem hj, le_refl _, le_refl _⟩

theorem median_bounds {xs : List ℕ} (nonempty : xs ≠ []) :
    ∃ lo ∈ xs, ∃ hi ∈ xs, (lo : ℚ) ≤ median xs ∧ median xs ≤ hi := by
  have perm := List.perm_insertionSort (· ≤ ·) xs
  obtain ⟨lo, hlo, hi, hhi, hle, hge⟩ := middle_bounds (List.sorted_insertionSort (· ≤ ·) xs)
    (by rwa [Ne, ← List.length_eq_zero, List.length_insertionSort, List.length_eq_zero])
  exact ⟨lo, perm.subset hlo, hi, perm.subset hhi, hle, hge⟩

theorem nonZero_eq_nil_iff (samples : List UInt64) :
    nonZero samples = [] ↔ ∀ x ∈ samples, x = 0 := by
  simp [nonZero, List.filter_eq_nil_iff, u64_eq_iff]

theorem pos_of_mem_nonZero {samples : List UInt64} {x : ℕ} (mem : x ∈ nonZero samples) : 0 < x := by
  simp only [nonZero, List.mem_filter] at mem
  have := mem.2
  simp only [ne_eq, decide_not, Bool.not_eq_eq_eq_not, Bool.not_true, decide_eq_false_iff_not] at this
  omega

theorem medianNonZeroTicks_full (samples : List UInt64) (hlen : samples.length < 2 ^ 32) :
    medianNonZeroTicks samples (UInt32.ofNat samples.length) =
      if nonZero samples = [] then .nan
      else .fin (middleRounded ((nonZero samples).insertionSort (· ≤ ·))) := by
  rw [medianNonZeroTicks_eq, UInt32.toNat_ofNat_of_lt (by simpa using hlen), List.take_length]

/-- On samples below `2 ^ 52`, as the clipped slot's are, the result is the median. -/
theorem medianNonZeroTicks_of_lt (samples : List UInt64) (n : UInt32)
    (small : ∀ x ∈ nonZero (samples.take n.toNat), x < 2 ^ 52) :
    medianNonZeroTicks samples n =
      if nonZero (samples.take n.toNat) = [] then .nan
      else .fin (median (nonZero (samples.take n.toNat))) := by
  rw [medianNonZeroTicks_eq, median,
    middleRounded_of_lt fun x hx => small x ((List.perm_insertionSort _ _).subset hx)]

/-- `median_non_zero_ticks` returns `NAN` exactly when no sample is non-zero. Otherwise it
returns the middle of the sorted non-zero samples as cast and summed in `double`: a function
of their multiset, and positive. On samples below `2 ^ 52` that is their median, between the
least and the greatest of them. -/
theorem medianNonZeroTicks_median (samples : List UInt64) (hlen : samples.length < 2 ^ 32) :
    (medianNonZeroTicks samples (UInt32.ofNat samples.length) = .nan ↔ ∀ x ∈ samples, x = 0) ∧
      (nonZero samples ≠ [] →
        medianNonZeroTicks samples (UInt32.ofNat samples.length) =
          .fin (middleRounded ((nonZero samples).insertionSort (· ≤ ·))) ∧
        0 < middleRounded ((nonZero samples).insertionSort (· ≤ ·))) ∧
      (∀ other : List UInt64, other.length < 2 ^ 32 → (nonZero other).Perm (nonZero samples) →
        medianNonZeroTicks other (UInt32.ofNat other.length) =
          medianNonZeroTicks samples (UInt32.ofNat samples.length)) ∧
      ((∀ x ∈ nonZero samples, x < 2 ^ 52) → nonZero samples ≠ [] →
        medianNonZeroTicks samples (UInt32.ofNat samples.length) = .fin (median (nonZero samples)) ∧
        ∃ lo ∈ nonZero samples, ∃ hi ∈ nonZero samples,
          (lo : ℚ) ≤ median (nonZero samples) ∧ median (nonZero samples) ≤ hi) := by
  have hm := medianNonZeroTicks_full samples hlen
  refine ⟨?_, fun h => ⟨by simp [hm, h], middleRounded_pos ?_ ?_⟩, ?_, fun small h => ⟨?_, median_bounds h⟩⟩
  · rw [← nonZero_eq_nil_iff]
    by_cases h : nonZero samples = [] <;> simp [hm, h]
  · exact fun x hx => pos_of_mem_nonZero ((List.perm_insertionSort _ _).subset hx)
  · rwa [Ne, ← List.length_eq_zero, List.length_insertionSort, List.length_eq_zero]
  · intro other hother perm
    have hnil : nonZero other = [] ↔ nonZero samples = [] :=
      ⟨fun h => (h ▸ perm).nil_eq.symm, fun h => (h ▸ perm).eq_nil⟩
    rw [medianNonZeroTicks_full other hother, hm, insertionSort_perm_eq perm]
    simp only [hnil]
  · rw [hm, if_neg h, median, middleRounded_of_lt fun x hx => small x ((List.perm_insertionSort _ _).subset hx)]

theorem medianNonZeroTicks_median_spec_example :
    [0, 0, 5, 0, (3 : UInt64)].length < 2 ^ 32 ∧ medianNonZeroTicks [0, 0, 5, 0, 3] 5 = .fin 4 := by
  have h : nonZero [0, 0, 5, 0, 3] = [5, 3] := by decide
  refine ⟨by decide, ?_⟩
  have := ((medianNonZeroTicks_median [0, 0, 5, 0, 3] (by decide)).2.2.2 (by rw [h]; decide)
    (by rw [h]; decide)).1
  rw [h] at this
  rw [show (5 : UInt32) = UInt32.ofNat [0, 0, 5, 0, (3 : UInt64)].length from rfl, this]
  norm_num [median, middle, List.insertionSort, List.orderedInsert]

/-- `(double) (2 ^ 53 + 1)` is `2 ^ 53`: the one sample's median is lost in the cast. -/
theorem medianNonZeroTicks_above_two_pow_53 :
    medianNonZeroTicks [9007199254740993] 1 = .fin (2 ^ 53) ∧
      median (nonZero [9007199254740993]) = 2 ^ 53 + 1 := by
  have h : nonZero [9007199254740993] = [2 ^ 53 + 1] := by decide
  have hr : Dbl.roundNat 9007199254740993 = 2 ^ 53 := by
    rw [Dbl.roundNat_of_digits (e := 1) le_rfl (by norm_num) (by norm_num)]
    decide
  refine ⟨?_, by rw [h]; norm_num [median, middle]⟩
  rw [show (1 : UInt32) = UInt32.ofNat [(9007199254740993 : UInt64)].length from rfl,
    medianNonZeroTicks_full _ (by decide), h, if_neg (List.cons_ne_nil _ _)]
  simp [middleRounded, hr]
  norm_num

end PfdProfiler
