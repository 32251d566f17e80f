import PfdProfiler.Store
import PfdProfiler.Median

/-! `pfd_store_init`: the retry loop of measurement rounds with its quality gate, the
fallback after the last retry, the checks on the chosen average, its rounding to `ticks`
and the final guard.

The `asm volatile` barriers and the frequency spin of lines 164-172 have no effect the model
can see, and `median_non_zero_ticks` is assumed to get its scratch buffer. The stores to
`ad.avg` and `corrected_avg` that nothing reads afterwards are left out. -/

namespace PfdProfiler

inductive Fault
  | assertFailed
  | badConversion
  deriving DecidableEq, Repr

def pfdConservativeDefault : Dbl := 32

def pfdCorrectionConf : Dbl := 3

/-- The default correction of a known profile (lines 219-230). -/
def profileAvg : Profile → Option Dbl
  | .opteron => some 64
  | .opteron2 => some 68
  | .xeon | .xeon2 => some 20
  | .niagara => some 76
  | .ryzen53600 => some 32
  | .i3_7020U => some 25
  | .other => none

/-- `std_pp` of lines 190-194: `NAN` unless `ad.avg` is finite and non-zero. -/
def stdPp (ad : AbsDeviation) : Dbl :=
  if ad.avg.isFinite && !ad.avg.eq 0 then 100 * (1 - (ad.avg - ad.stdDev) / ad.avg) else .nan

/-- `std_pp` as lines 200 and 369 print it. -/
def printedStdPp (q : Dbl) : Dbl := if q.isFinite then q else 0

/-- One measurement round and its analysis (lines 181-189): slot `0` as the round measured it,
the state with slot `0` clipped by `get_abs_deviation`, and its record. -/
def calibRound (p : Platform) (numEntries : UInt32) (c : Calib) :
    List UInt64 × Calib × AbsDeviation :=
  let c := measureRound p.getticks numEntries c
  let (slot0, ad) := analyse p.sqrt c.slot0 numEntries.toNat
  (c.slot0, { c with slot0 }, ad)

/-- Lines 207-243, after the last retry: the median of slot `0` if it is finite and positive,
or else the profile's default. -/
def manualAvg (profile : Profile) (numEntries : UInt32) (c : Calib) : Calib × Dbl :=
  let c := c.print .settingManually
  let median := medianNonZeroTicks c.slot0 numEntries
  if median.isFinite ∧ 0 < median then (c.print (.usingMedian median), median)
  else match profileAvg profile with
    | some avg => (c, avg)
    | none => (c.print (.unknownArchitecture pfdConservativeDefault), pfdConservativeDefault)

/-- What the retry loop leaves: the calibration state, `ad.avg` as the loop sets it, the last
`std_pp` and, as a record of the run, slot `0` as each round measured it. -/
structure Choice where
  calib : Calib
  avg : Dbl
  stdPp : Dbl
  rounds : List (List UInt64)

/-- The loop of lines 180-243, entered at `retry:` with `tries` retries left and
`printWarning` failed rounds so far. -/
def retryLoop (p : Platform) (profile : Profile) (numEntries : UInt32) :
    Nat → Nat → List (List UInt64) → Calib → Choice
  | tries, printWarning, rounds, c =>
    let (measured, c, ad) := calibRound p numEntries c
    let rounds := rounds ++ [measured]
    let q := stdPp ad
    if pfdCorrectionConf < q then
      let c := if printWarning = 1 then c.print (.recalculating ad.avg (printedStdPp q)) else c
      match tries with
      | tries + 1 => retryLoop p profile numEntries tries (printWarning + 1) rounds c
      | 0 =>
        let (c, avg) := manualAvg profile numEntries c
        ⟨c, avg, q, rounds⟩
    else ⟨c, ad.avg, q, rounds⟩

/-- Lines 247-290: `corrected_avg` made finite and at least `1`. -/
def sanitize (getticks : Nat → UInt64) (c : Calib) (avg : Dbl) : Calib × Dbl :=
  if !avg.isFinite then (c.print (.nonFinite pfdConservativeDefault), pfdConservativeDefault)
  else if avg ≤ 0 then
    let (measured, clock) := measureMinimumTickDelta getticks 64 c.clock
    let c := { c with clock }
    if 0 < measured then (c.print (.directDelta measured), .ofU64 measured)
    else (c.print (.notPositive pfdConservativeDefault), pfdConservativeDefault)
  else if avg < 1 then (c.print (.belowOne 1), 1)
  else (c, avg)

/-- Lines 292-314: `corrected_avg` rounded to `ticks`, halves up. The sum
`corrected_avg + 0.5` is taken exactly; in C it rounds, which changes the result only for an
odd whole number in `[2 ^ 52, 2 ^ 53)`, made one larger. -/
def roundCorrection (c : Calib) (correctedAvg : Dbl) : Except Fault (Calib × UInt64) :=
  if Dbl.ofU64 uint64Max ≤ correctedAvg then .ok (c.print (.aboveMax uint64Max), uint64Max)
  else match (correctedAvg + .fin (1 / 2)).toTicks with
    | none => .error .badConversion
    | some correction =>
      if correction = 0 then .ok (c.print (.roundedZero 1), 1) else .ok (c, correction)

/-- Lines 329-365: a zero `pfd_correction` is replaced by a direct measurement or by the
conservative default, and `std_pp` is made finite on that path. -/
def finalGuard (getticks : Nat → UInt64) (c : Calib) (q : Dbl) : Except Fault (Calib × Dbl) :=
  if c.correction = 0 then
    let (measured, clock) := measureMinimumTickDelta getticks 64 c.clock
    let c := { c with clock }
    let q := if q.isFinite then q else 0
    if 0 < measured then .ok ({ c with correction := measured }.print (.enforcingDirect measured), q)
    else match (pfdConservativeDefault + .fin (1 / 2)).toTicks with
      | none => .error .badConversion
      | some correction =>
        let correction := if correction = 0 then 1 else correction
        .ok ({ c with correction }.print (.fallingBack correction), q)
  else .ok (c, q)

/-- Lines 247-372, from the average the retry loop chose to the published correction. -/
def settle (getticks : Nat → UInt64) (ch : Choice) : Except Fault Calib := do
  let (c, correctedAvg) := sanitize getticks ch.calib ch.avg
  let (c, correction) ← roundCorrection c correctedAvg
  let c := if ch.avg ≤ 0 then c.print (.notPositive pfdConservativeDefault) else c
  let (c, q) ← finalGuard getticks { c with correction } ch.stdPp
  if c.correction = 0 then throw .assertFailed
  return c.print (.setCorrection c.correction (printedStdPp q))

/-- The retry loop of a call, from the store as lines 136-177 leave it: reallocated, with
`pfd_correction` zeroed, `10` tries left and no failed round. -/
def initChoice (b : Build) (p : Platform) (fresh : Fresh) (st : Store) (numEntries : UInt32) :
    Choice :=
  retryLoop p b.profile numEntries 10 0 [] { (allocate b fresh st numEntries).calib with correction := 0 }

/-- What a call leaves: the store, the number of counter readings it took, the lines it
printed and slot `0` as each round measured it. -/
structure Outcome where
  store : Store
  clock : Nat
  out : List Msg
  rounds : List (List UInt64)

/-- `pfd_store_init(num_entries)`. -/
def pfdStoreInit (b : Build) (p : Platform) (fresh : Fresh) (st : Store) (numEntries : UInt32) :
    Except Fault Outcome := do
  let ch := initChoice b p fresh st numEntries
  let c ← settle p.getticks ch
  return ⟨(allocate b fresh st numEntries).update c, c.clock, c.out, ch.rounds⟩

end PfdProfiler
