import PfdProfiler.Double
import PfdProfiler.Ticks

/-! `get_abs_deviation`: the clipping loop, pass 1 (average, extremes, band counts and sums)
and pass 2 (the dispersion of each band around its own average).

Its three loops run a `uint32_t` index up to a `size_t` bound. `forIndex` is that loop with a
fuel bound, and `getAbsDeviation` runs each loop for `num_vals` iterations, which is enough
whenever any number is (`forIndex_eq_some`). -/

namespace PfdProfiler

/-- `for (uint32_t i = 0; i < num_vals; i++) body`, for at most `fuel` iterations; `none` when
the fuel runs out while the test still holds. -/
def forIndex {σ : Type} (numVals : Nat) (body : Nat → σ → σ) : Nat → UInt32 → σ → Option σ
  | 0, i, s => if i.toNat < numVals then none else some s
  | fuel + 1, i, s =>
      if i.toNat < numVals then forIndex numVals body fuel (i + 1) (body i.toNat s) else some s

def loop {σ : Type} (numVals : Nat) (body : Nat → σ → σ) (init : σ) : σ :=
  (List.range numVals).foldl (fun s i => body i s) init

section Loop

variable {σ : Type} (numVals : Nat) (body : Nat → σ → σ)

theorem u32_toNat_ofNat {k : Nat} (h : k < 2 ^ 32) : (UInt32.ofNat k).toNat = k :=
  UInt32.toNat_ofNat_of_lt (by simpa using h)

theorem u32_ofNat_succ {k : Nat} (h : k + 1 < 2 ^ 32) :
    UInt32.ofNat k + 1 = UInt32.ofNat (k + 1) :=
  UInt32.toNat.inj (by
    rw [u32_toNat_add, u32_toNat_ofNat (by omega), u32_toNat_ofNat h]
    exact Nat.mod_eq_of_lt h)

theorem forIndex_from (bound : numVals < 2 ^ 32) :
    ∀ fuel k s, k ≤ numVals → numVals - k ≤ fuel →
      forIndex numVals body fuel (UInt32.ofNat k) s =
        some ((List.range' k (numVals - k)).foldl (fun s i => body i s) s) := by
  intro fuel
  induction fuel with
  | zero =>
      intro k s hk hfuel
      have : k = numVals := by omega
      subst this
      simp [forIndex, u32_toNat_ofNat bound]
  | succ fuel ih =>
      intro k s hk hfuel
      rw [forIndex, u32_toNat_ofNat (by omega)]
      by_cases hlt : k < numVals
      · rw [if_pos hlt, u32_ofNat_succ (by omega), ih (k + 1) _ (by omega) (by omega),
          show numVals - k = numVals - (k + 1) + 1 by omega, List.range'_succ]
        rfl
      · have : k = numVals := by omega
        subst this
        simp

theorem forIndex_short :
    ∀ fuel k s, k < numVals → numVals < 2 ^ 32 → fuel < numVals - k →
      forIndex numVals body fuel (UInt32.ofNat k) s = none := by
  intro fuel
  induction fuel with
  | zero =>
      intro k s hk bound _
      simp [forIndex, u32_toNat_ofNat (show k < 2 ^ 32 by omega), hk]
  | succ fuel ih =>
      intro k s hk bound hfuel
      rw [forIndex, u32_toNat_ofNat (by omega), if_pos hk, u32_ofNat_succ (by omega)]
      exact ih (k + 1) _ (by omega) bound (by omega)

/-- For a bound below `2 ^ 32` each loop stops after exactly `num_vals` iterations, and it
visits `0 .. num_vals - 1` once each, in order. -/
theorem forIndex_eq (bound : numVals < 2 ^ 32) (fuel : Nat) (s : σ) :
    forIndex numVals body fuel 0 s =
      if numVals ≤ fuel then some (loop numVals body s) else none := by
  have zero : (0 : UInt32) = UInt32.ofNat 0 := rfl
  split_ifs with hfuel
  · rw [zero, forIndex_from numVals body bound fuel 0 s (Nat.zero_le _) (by omega), loop,
      List.range_eq_range']
    rfl
  · rw [zero]
    exact forIndex_short numVals body fuel 0 s (by omega) bound (by omega)

theorem forIndex_eq_some (bound : numVals < 2 ^ 32) (s : σ) :
    forIndex numVals body numVals 0 s = some (loop numVals body s) := by
  rw [forIndex_eq numVals body bound, if_pos (le_refl _)]

/-- From a bound of `2 ^ 32` on the `uint32_t` index wraps before reaching it: the loop never
stops, whatever the fuel. -/
theorem forIndex_diverges (bound : 2 ^ 32 ≤ numVals) :
    ∀ fuel i s, forIndex numVals body fuel i s = none := by
  intro fuel
  induction fuel with
  | zero => intro i s; simp [forIndex, show i.toNat < numVals by have := u32_toNat_lt i; omega]
  | succ fuel ih =>
      intro i s
      rw [forIndex, if_pos (by have := u32_toNat_lt i; omega)]
      exact ih _ _

@[simp] theorem loop_zero (s : σ) : loop 0 body s = s := rfl

theorem loop_succ (n : Nat) (s : σ) : loop (n + 1) body s = body n (loop n body s) := by
  simp [loop, List.range_succ]

end Loop

/-- The five bands, named by the suffix of their variables: within 10% of the average,
10-25%, 25-50%, 50-75% and the rest. -/
inductive Band
  | p10 | p25 | p50 | p75 | rst
  deriving DecidableEq, Repr

/-- One variable per band, as the source declares `num_dev_10p` to `num_dev_rst`. -/
structure PerBand (α : Type) where
  p10 : α
  p25 : α
  p50 : α
  p75 : α
  rst : α
  deriving DecidableEq, Repr

namespace PerBand

variable {α : Type}

def get (xs : PerBand α) : Band → α
  | .p10 => xs.p10
  | .p25 => xs.p25
  | .p50 => xs.p50
  | .p75 => xs.p75
  | .rst => xs.rst

def ofFn (f : Band → α) : PerBand α := ⟨f .p10, f .p25, f .p50, f .p75, f .rst⟩

def modify (xs : PerBand α) (b : Band) (f : α → α) : PerBand α :=
  ofFn fun c => if c = b then f (xs.get c) else xs.get c

@[simp] theorem get_ofFn (f : Band → α) (b : Band) : (ofFn f).get b = f b := by cases b <;> rfl

theorem ext_get {xs ys : PerBand α} (h : ∀ b, xs.get b = ys.get b) : xs = ys := by
  cases xs
  cases ys
  simp only [PerBand.mk.injEq]
  exact ⟨h .p10, h .p25, h .p50, h .p75, h .rst⟩

@[simp] theorem get_modify (xs : PerBand α) (b c : Band) (f : α → α) :
    (xs.modify b f).get c = if c = b then f (xs.get c) else xs.get c := by
  simp [modify]

end PerBand

/-- `abs_deviation_t`. The five fields of a band quantity are grouped in a `PerBand`:
`numDev` holds `num_dev_10p .. num_dev_rst`, `bandAvg` holds `avg_10p .. avg_rst`,
`bandAbsDev` holds `abs_dev_10p ..` and `bandStdDev` holds `std_dev_10p ..`. The type is
declared in `pfd.h`, which is not among the sources: its fields are those `pfd.c` uses. -/
structure AbsDeviation where
  numVals : UInt64
  avg : Dbl
  absDev : Dbl
  stdDev : Dbl
  minVal : Dbl
  minValIdx : UInt64
  maxVal : Dbl
  maxValIdx : UInt64
  numDev : PerBand UInt32
  bandAvg : PerBand Dbl
  bandAbsDev : PerBand Dbl
  bandStdDev : PerBand Dbl
  deriving DecidableEq, Repr

def pfdValUpLimit : UInt64 := 1500

def dblMax : Dbl := .fin ((2 ^ 53 - 1) * 2 ^ 971)

def absd (x : Dbl) : Dbl := if 0 ≤ x then x else -x

/-- The test of line 459, `(int64_t) vals[i] < 0 || vals[i] > PFD_VAL_UP_LIMIT`: the cast is
negative exactly when the top bit is set. -/
def outOfRange (v : UInt64) : Bool := decide (2 ^ 63 ≤ v.toNat) || decide (pfdValUpLimit < v)

/-- The body of the clipping loop: zero `vals[i]` when it is out of range, then add it to
`sum_vals`. -/
def clipStep (i : Nat) (acc : List UInt64 × UInt64) : List UInt64 × UInt64 :=
  let vals := if outOfRange (acc.1.getD i 0) then acc.1.set i 0 else acc.1
  (vals, acc.2 + vals.getD i 0)

/-- `dev_10p`, `dev_25p`, `dev_50p` and `dev_75p`: the band limits on the absolute deviation. -/
def dev10p (avg : Dbl) : Dbl := .fin (1 / 10) * avg
def dev25p (avg : Dbl) : Dbl := .fin (1 / 4) * avg
def dev50p (avg : Dbl) : Dbl := .fin (1 / 2) * avg
def dev75p (avg : Dbl) : Dbl := .fin (3 / 4) * avg

/-- `max_val`, `min_val` and their indices. -/
structure Extremes where
  maxVal : Dbl
  minVal : Dbl
  maxValIdx : UInt64
  minValIdx : UInt64

def Extremes.init : Extremes := ⟨0, dblMax, 0, 0⟩

/-- Lines 483-492: a sample raises the maximum, or else it may lower the minimum. -/
def Extremes.update (e : Extremes) (i : Nat) (v : Dbl) : Extremes :=
  if v > e.maxVal then { e with maxVal := v, maxValIdx := .ofNat i }
  else if v < e.minVal then { e with minVal := v, minValIdx := .ofNat i }
  else e

structure PassOne where
  ext : Extremes
  numDev : PerBand UInt32
  sumVals : PerBand UInt64
  sumAdev : Dbl
  sumStdev : Dbl

def PassOne.init : PassOne :=
  ⟨Extremes.init, PerBand.ofFn fun _ => 0, PerBand.ofFn fun _ => 0, 0, 0⟩

def PassOne.count (s : PassOne) (b : Band) (v : UInt64) : PassOne :=
  { s with numDev := s.numDev.modify b (· + 1), sumVals := s.sumVals.modify b (· + v) }

/-- The body of pass 1 (lines 481-521). -/
def passOneStep (vals : List UInt64) (avg : Dbl) (i : Nat) (s : PassOne) : PassOne :=
  let v := vals.getD i 0
  let diff := Dbl.ofNat v.toNat - avg
  let ad := absd diff
  let s := { s with ext := s.ext.update i (.ofNat v.toNat) }
  let s :=
    if ad ≤ dev10p avg then s.count .p10 v
    else if ad ≤ dev25p avg then s.count .p25 v
    else if ad ≤ dev50p avg then s.count .p50 v
    else if ad ≤ dev75p avg then s.count .p75 v
    else s.count .rst v
  { s with sumAdev := s.sumAdev + ad, sumStdev := s.sumStdev + ad * ad }

/-- `avg_10p = sum_vals_10p / (double) num_dev_10p` and its four siblings. -/
def bandAverages (s : PassOne) : PerBand Dbl :=
  PerBand.ofFn fun b => .ofNat (s.sumVals.get b).toNat / .ofNat (s.numDev.get b).toNat

structure PassTwo where
  sumAdev : PerBand Dbl
  sumStdev : PerBand Dbl

def PassTwo.init : PassTwo := ⟨PerBand.ofFn fun _ => 0, PerBand.ofFn fun _ => 0⟩

def PassTwo.add (s : PassTwo) (bandAvg : PerBand Dbl) (b : Band) (v : UInt64) : PassTwo :=
  let diff := Dbl.ofNat v.toNat - bandAvg.get b
  let ad := absd diff
  { sumAdev := s.sumAdev.modify b (· + ad), sumStdev := s.sumStdev.modify b (· + ad * ad) }

/-- The body of pass 2 (lines 545-581). -/
def passTwoStep (vals : List UInt64) (avg : Dbl) (bandAvg : PerBand Dbl) (i : Nat)
    (s : PassTwo) : PassTwo :=
  let v := vals.getD i 0
  let diff := Dbl.ofNat v.toNat - avg
  let ad := absd diff
  if ad ≤ dev10p avg then s.add bandAvg .p10 v
  else if ad ≤ dev25p avg then s.add bandAvg .p25 v
  else if ad ≤ dev50p avg then s.add bandAvg .p50 v
  else if ad ≤ dev75p avg then s.add bandAvg .p75 v
  else s.add bandAvg .rst v

/-- The record `get_abs_deviation` fills in (lines 452, 454, 523-537 and 584-599). -/
def summary (sqrt : ℚ → ℚ) (numVals : Nat) (avg : Dbl) (one : PassOne) (two : PassTwo) :
    AbsDeviation where
  numVals := .ofNat numVals
  avg := avg
  absDev := one.sumAdev / .ofNat numVals
  stdDev := Dbl.sqrt sqrt (one.sumStdev / .ofNat numVals)
  minVal := one.ext.minVal
  minValIdx := one.ext.minValIdx
  maxVal := one.ext.maxVal
  maxValIdx := one.ext.maxValIdx
  numDev := one.numDev
  bandAvg := bandAverages one
  bandAbsDev := PerBand.ofFn fun b => two.sumAdev.get b / .ofNat (one.numDev.get b).toNat
  bandStdDev := PerBand.ofFn fun b =>
    Dbl.sqrt sqrt (two.sumStdev.get b / .ofNat (one.numDev.get b).toNat)

/-- `get_abs_deviation(vals, num_vals, &ad)`: the array it leaves behind and the record, or
`none` when a loop does not stop. -/
def getAbsDeviation (sqrt : ℚ → ℚ) (vals : List UInt64) (numVals : Nat) :
    Option (List UInt64 × AbsDeviation) := do
  let (vals, sumVals) ← forIndex numVals clipStep numVals 0 (vals, 0)
  let avg := Dbl.ofNat sumVals.toNat / .ofNat numVals
  let one ← forIndex numVals (passOneStep vals avg) numVals 0 PassOne.init
  let two ← forIndex numVals (passTwoStep vals avg (bandAverages one)) numVals 0 PassTwo.init
  return (vals, summary sqrt numVals avg one two)

def clipLoop (vals : List UInt64) (numVals : Nat) : List UInt64 × UInt64 :=
  loop numVals clipStep (vals, 0)

/-- `avg = sum_vals / (double) num_vals`. -/
def average (sumVals : UInt64) (numVals : Nat) : Dbl := .ofNat sumVals.toNat / .ofNat numVals

def passOne (vals : List UInt64) (numVals : Nat) (avg : Dbl) : PassOne :=
  loop numVals (passOneStep vals avg) PassOne.init

def passTwo (vals : List UInt64) (numVals : Nat) (avg : Dbl) (one : PassOne) : PassTwo :=
  loop numVals (passTwoStep vals avg (bandAverages one)) PassTwo.init

/-- `get_abs_deviation` for a count below `2 ^ 32`, its loops as folds. -/
def analyse (sqrt : ℚ → ℚ) (vals : List UInt64) (numVals : Nat) : List UInt64 × AbsDeviation :=
  let (vals, sumVals) := clipLoop vals numVals
  let avg := average sumVals numVals
  let one := passOne vals numVals avg
  (vals, summary sqrt numVals avg one (passTwo vals numVals avg one))

theorem getAbsDeviation_eq (sqrt : ℚ → ℚ) (vals : List UInt64) {numVals : Nat}
    (bound : numVals < 2 ^ 32) : getAbsDeviation sqrt vals numVals = some (analyse sqrt vals numVals) := by
  simp only [getAbsDeviation, analyse, clipLoop, average, passOne, passTwo,
    forIndex_eq_some _ _ bound]
  rfl

theorem getAbsDeviation_diverges (sqrt : ℚ → ℚ) (vals : List UInt64) {numVals : Nat}
    (bound : 2 ^ 32 ≤ numVals) : getAbsDeviation sqrt vals numVals = none := by
  simp [getAbsDeviation, forIndex_diverges _ _ bound]

/-- At `num_vals = 2 ^ 32` the index wraps to `0` before the test fails: no loop of
`get_abs_deviation` stops, whatever the fuel, and neither does the function. -/
theorem getAbsDeviation_wraps_at_2pow32 :
    (∀ (σ : Type) (body : Nat → σ → σ) (fuel : Nat) (s : σ),
        forIndex (2 ^ 32) body fuel 0 s = none) ∧
      ∀ (sqrt : ℚ → ℚ) (vals : List UInt64), getAbsDeviation sqrt vals (2 ^ 32) = none :=
  ⟨fun _ body fuel s => forIndex_diverges _ body (le_refl _) fuel 0 s,
    fun sqrt vals => getAbsDeviation_diverges sqrt vals (le_refl _)⟩

end PfdProfiler
