import PfdProfiler.Store
import PfdProfiler.DeviationFacts

/-! `print_abs_deviation` and `pfd_collect_abs_deviation`: the report of one slot.

The lines are modelled by the values they print; the `printf` widths and precisions are not.
The shares and `std_pp` values are computed exactly, where C rounds each operation: a band of
one sample in three prints `33.333333333333336`, and the five shares need not add up to `100`.
`get_abs_deviation` reads and writes only the first `num_vals` entries of the array it is
given (`analyse_take`), so the report of a slot longer than `num_vals` is the report of that
prefix. -/

namespace PfdProfiler

/-- `(long int) v`: the same 64 bits read as a signed number. -/
def toLongInt (v : UInt64) : Int := if v.toNat < 2 ^ 63 then v.toNat else (v.toNat : Int) - 2 ^ 64

/-- The lines `pfd_collect_abs_deviation` and `print_abs_deviation` print, with the values
they print in them: an entry of the slot (line 432), the heading (393), the totals (394), the
extremes (396), and a band's count, share in percent, average, deviations and `std_pp` (401,
406, 411, 416, 421). -/
inductive Line
  | sample (i : UInt32) (v : Int)
  | statistics
  | totals (avg absDev stdDev : Dbl) (numVals : UInt64)
  | extremes (minVal : Dbl) (minValIdx : UInt64) (maxVal : Dbl) (maxValIdx : UInt64)
  | band (b : Band) (numDev : UInt32) (share avg absDev stdDev stdPp : Dbl)
  deriving DecidableEq, Repr

/-- `v10p .. vrest`: `100 * (1 - (num_vals - num_dev_b) / (double) num_vals)`, the difference
taken in `uint64_t`. -/
def bandShare (ad : AbsDeviation) (b : Band) : Dbl :=
  100 * (1 - .ofNat (ad.numVals - (ad.numDev.get b).toUInt64).toNat / .ofNat ad.numVals.toNat)

def bandStdPp (ad : AbsDeviation) (b : Band) : Dbl :=
  100 * (1 - (ad.bandAvg.get b - ad.bandStdDev.get b) / ad.bandAvg.get b)

def bandLine (ad : AbsDeviation) (b : Band) : Line :=
  .band b (ad.numDev.get b) (bandShare ad b) (ad.bandAvg.get b) (ad.bandAbsDev.get b)
    (ad.bandStdDev.get b) (bandStdPp ad b)

/-- `print_abs_deviation(abs_dev)`. -/
def printAbsDeviation (ad : AbsDeviation) : List Line :=
  [.statistics, .totals ad.avg ad.absDev ad.stdDev ad.numVals,
    .extremes ad.minVal ad.minValIdx ad.maxVal ad.maxValIdx,
    bandLine ad .p10, bandLine ad .p25, bandLine ad .p50, bandLine ad .p75, bandLine ad .rst]

/-- `pfd_collect_abs_deviation(store, num_vals, num_print, out)` on an initialised store: the
lines printed, the store with slot `store` as `get_abs_deviation` leaves it, and the record
written to `*out` when `out` is not `NULL`. -/
def pfdCollectAbsDeviation (sqrt : ℚ → ℚ) (st : Store) (store numVals numPrint : UInt32) :
    Option (List Line × Store × AbsDeviation) := do
  let slot := (st.pfdStore.getD []).getD store.toNat []
  let p := if numPrint > numVals then numVals else numPrint
  let printed := loop p.toNat (fun i out => out ++ [.sample (.ofNat i) (toLongInt (slot.getD i 0))]) []
  let (slot, ad) ← getAbsDeviation sqrt slot numVals.toNat
  return (printed ++ printAbsDeviation ad, { st with pfdStore := st.pfdStore.map (·.set store.toNat slot) }, ad)

theorem loop_congr {σ : Type} {n : Nat} {body body' : Nat → σ → σ} (h : ∀ i < n, body i = body' i)
    (s : σ) : loop n body s = loop n body' s := by
  induction n with
  | zero => rfl
  | succ n ih => rw [loop_succ, loop_succ, ih fun i hi => h i (by omega), h n (by omega)]

theorem loop_append {α : Type} (f : Nat → α) (n : Nat) :
    loop n (fun i out => out ++ [f i]) [] = (List.range n).map f := by
  induction n with
  | zero => rfl
  | succ n ih => rw [loop_succ, ih, List.range_succ, List.map_append, List.map_singleton]

section Locality

variable (avg : Dbl) {xs ys : List UInt64} {n : Nat}

theorem passOne_congr (h : ∀ i < n, xs.getD i 0 = ys.getD i 0) : passOne xs n avg = passOne ys n avg :=
  loop_congr (fun i hi => funext fun s => by simp only [passOneStep, h i hi]) _

theorem passTwo_congr (h : ∀ i < n, xs.getD i 0 = ys.getD i 0) (one : PassOne) :
    passTwo xs n avg one = passTwo ys n avg one :=
  loop_congr (fun i hi => funext fun s => by simp only [passTwoStep, h i hi]) _

end Locality

/-- `get_abs_deviation` reads and writes only the first `num_vals` entries of its array: the
record is that of the prefix, and the entries past it are left as they were. -/
theorem analyse_take (sqrt : ℚ → ℚ) (vals : List UInt64) {n : Nat} (hn : n ≤ vals.length) :
    analyse sqrt vals n =
      ((analyse sqrt (vals.take n) n).1 ++ vals.drop n, (analyse sqrt (vals.take n) n).2) := by
  have hlen : (vals.take n).length = n := List.length_take_of_le hn
  have hfull := loop_clipStep (vals.take n) n hlen.ge
  have hpre := loop_clipStep vals n hn
  rw [clipPrefix, List.take_take, min_self, List.drop_take, Nat.sub_self, List.take_zero,
    List.append_nil] at hfull
  have hget : ∀ i < n, (clipPrefix vals n).getD i 0 = ((vals.take n).map clip).getD i 0 := fun i hi =>
    List.getD_append _ _ _ _ (by rw [List.length_map, hlen]; exact hi)
  simp only [analyse, clipLoop, hfull, hpre, List.take_take, min_self]
  rw [passOne_congr _ hget, passTwo_congr _ hget, clipPrefix]

theorem analyse_length (sqrt : ℚ → ℚ) (vals : List UInt64) {n : Nat} (hn : n ≤ vals.length)
    (bound : n < 2 ^ 32) : (analyse sqrt vals n).1.length = vals.length := by
  have hlen : (vals.take n).length = n := List.length_take_of_le hn
  have hfst := congrArg Prod.fst (analyse_eq_summary sqrt (vals.take n) (by rw [hlen]; exact bound))
  rw [hlen] at hfst
  simp only [analyse_take sqrt vals hn, List.length_append, hfst, List.length_map, hlen,
    List.length_drop]
  omega

/-- The call always returns, its count being a `uint32_t`. It prints the first
`min(num_print, num_vals)` entries of the slot as they were measured, before they are
clipped, then the report of the record, and leaves the slot clipped in place; the rest of the
store is unchanged. -/
theorem pfdCollectAbsDeviation_spec (sqrt : ℚ → ℚ) (st : Store) (store numVals numPrint : UInt32) :
    let slot := (st.pfdStore.getD []).getD store.toNat []
    let r := analyse sqrt slot numVals.toNat
    pfdCollectAbsDeviation sqrt st store numVals numPrint =
      some ((List.range (min numPrint.toNat numVals.toNat)).map
          (fun i => Line.sample (.ofNat i) (toLongInt (slot.getD i 0))) ++ printAbsDeviation r.2,
        { st with pfdStore := st.pfdStore.map (·.set store.toNat r.1) }, r.2) := by
  intro slot r
  have hp : (if numPrint > numVals then numVals else numPrint).toNat = min numPrint.toNat numVals.toNat := by
    split_ifs with h
    · exact (min_eq_right (Nat.le_of_lt h)).symm
    · exact (min_eq_left (Nat.not_lt.mp h)).symm
  simp only [pfdCollectAbsDeviation, getAbsDeviation_eq sqrt _ (u32_toNat_lt numVals), hp,
    loop_append]
  rfl

end PfdProfiler
