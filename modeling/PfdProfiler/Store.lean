import PfdProfiler.Deviation

/-! The thread-local store of `pfd.c` and the measurement round of `pfd_store_init`.

`pfd.h` is not among the sources. `PFD_NUM_STORES` is a parameter of the build, and the
macros `PFDI` and `PFDO` are modelled from the comment at the top of `pfd.c` (lines 30-33)
and from their use at lines 181-186: `PFDI(s)` reads the counter into `_pfd_s[s]`, and
`PFDO(s, i)` reads it again and stores in `pfd_store[s][i]` the delta of the two readings
less `pfd_correction`, the measurement overhead. -/

namespace PfdProfiler

/-- The build-time hardware identifier that selects the default correction of lines 219-240;
`other` is a build that defines none of them. -/
inductive Profile
  | opteron | opteron2 | xeon | xeon2 | niagara | ryzen53600 | i3_7020U | other
  deriving DecidableEq, Repr

/-- What a build fixes: its profile and `PFD_NUM_STORES`, at least one store since the
calibration measures into store `0`. -/
structure Build where
  profile : Profile
  numStores : Nat
  numStores_pos : 0 < numStores

/-- The platform: the `k`-th reading of the cycle counter during a call, and the root `sqrt`
takes of a non-negative double. -/
structure Platform where
  getticks : Nat → UInt64
  sqrt : ℚ → ℚ

/-- What `malloc` hands back: entry `j` of the new `_pfd_s`, and entry `j` of the new slot
`i`. Allocations are assumed to succeed. -/
structure Fresh where
  pfdS : Nat → UInt64
  slot : Nat → Nat → UInt64

/-- `pfd_store`, `_pfd_s` and `pfd_correction`; a `NULL` pointer is `none`. -/
structure Store where
  pfdStore : Option (List (List UInt64))
  pfdS : Option (List UInt64)
  pfdCorrection : UInt64
  deriving DecidableEq, Repr

/-- The lines `pfd_store_init` prints, with the values it prints in them, by source line:
`recalculating` 201, `settingManually` 210, `usingMedian` 215, `unknownArchitecture` 233,
`nonFinite` 257, `directDelta` 272, `notPositive` 278 and 325, `belowOne` 288, `aboveMax` 299,
`roundedZero` 311, `enforcingDirect` 346, `fallingBack` 362 and `setCorrection` 370. -/
inductive Msg
  | recalculating (avg stdPp : Dbl)
  | settingManually
  | usingMedian (avg : Dbl)
  | unknownArchitecture (avg : Dbl)
  | nonFinite (avg : Dbl)
  | directDelta (measured : UInt64)
  | notPositive (avg : Dbl)
  | belowOne (avg : Dbl)
  | aboveMax (correction : UInt64)
  | roundedZero (correction : UInt64)
  | enforcingDirect (correction : UInt64)
  | fallingBack (correction : UInt64)
  | setCorrection (correction : UInt64) (stdPp : Dbl)
  deriving DecidableEq, Repr

/-- What the calibration reads and writes: slot `0`, `_pfd_s[0]`, `pfd_correction`, the
number of counter readings taken so far and the lines printed so far. -/
structure Calib where
  slot0 : List UInt64
  s0 : UInt64
  correction : UInt64
  clock : Nat
  out : List Msg
  deriving DecidableEq, Repr

def Calib.print (c : Calib) (m : Msg) : Calib := { c with out := c.out ++ [m] }

/-- Lines 136-162: the old slots and `_pfd_s` are released, and `_pfd_s` and
`PFD_NUM_STORES` slots of `num_entries` entries allocated anew. -/
def allocate (b : Build) (fresh : Fresh) (st : Store) (numEntries : UInt32) : Store where
  pfdStore := some ((List.range b.numStores).map fun i =>
    (List.range numEntries.toNat).map (fresh.slot i))
  pfdS := some ((List.range b.numStores).map fresh.pfdS)
  pfdCorrection := st.pfdCorrection

def Store.calib (st : Store) : Calib where
  slot0 := (st.pfdStore.getD []).headD []
  s0 := (st.pfdS.getD []).headD 0
  correction := st.pfdCorrection
  clock := 0
  out := []

def Store.update (st : Store) (c : Calib) : Store where
  pfdStore := st.pfdStore.map (·.set 0 c.slot0)
  pfdS := st.pfdS.map (·.set 0 c.s0)
  pfdCorrection := c.correction

/-- `PFDI(0)`: `_pfd_s[0]` takes a reading. The macro is defined in `pfd.h`, which is not
among the sources; this is the meaning its uses in `pfd.c` give it. -/
def pfdi (getticks : Nat → UInt64) (c : Calib) : Calib :=
  { c with s0 := getticks c.clock, clock := c.clock + 1 }

/-- `PFDO(0, i)`: entry `i` of slot `0` becomes the reading less `_pfd_s[0]` and less
`pfd_correction`, in `ticks`. Defined in `pfd.h`, not among the sources, as `PFDI` is. -/
def pfdo (getticks : Nat → UInt64) (i : Nat) (c : Calib) : Calib :=
  { c with slot0 := c.slot0.set i (getticks c.clock - c.s0 - c.correction), clock := c.clock + 1 }

/-- The measurement loop of lines 181-186. Its index and bound are both `uint32_t`, so it runs
`num_entries` times. -/
def measureRound (getticks : Nat → UInt64) (numEntries : UInt32) (c : Calib) : Calib :=
  loop numEntries.toNat (fun i c => pfdo getticks i (pfdi getticks c)) c

/-- The samples a round measures from reading `clock` on: each delta of two readings less
the correction. -/
def roundSamples (getticks : Nat → UInt64) (correction : UInt64) (n clock : Nat) : List UInt64 :=
  (List.range n).map fun i => getticks (clock + 2 * i + 1) - getticks (clock + 2 * i) - correction

theorem allocate_calib (b : Build) (fresh : Fresh) (st : Store) (numEntries : UInt32) :
    (allocate b fresh st numEntries).calib =
      ⟨(List.range numEntries.toNat).map (fresh.slot 0), fresh.pfdS 0, st.pfdCorrection, 0, []⟩ := by
  obtain ⟨k, hk⟩ : ∃ k, b.numStores = k + 1 := ⟨_, (Nat.succ_pred_eq_of_pos b.numStores_pos).symm⟩
  simp [allocate, Store.calib, hk, List.range_succ_eq_map]

section Round

variable (getticks : Nat → UInt64)

theorem pfdo_pfdi (i : Nat) (c : Calib) :
    pfdo getticks i (pfdi getticks c) =
      { c with slot0 := c.slot0.set i (getticks (c.clock + 1) - getticks c.clock - c.correction),
               s0 := getticks c.clock, clock := c.clock + 2 } := rfl

theorem roundSamples_succ (correction : UInt64) (k clock : Nat) :
    roundSamples getticks correction (k + 1) clock =
      roundSamples getticks correction k clock ++
        [getticks (clock + 2 * k + 1) - getticks (clock + 2 * k) - correction] := by
  simp [roundSamples, List.range_succ]

@[simp] theorem length_roundSamples (correction : UInt64) (k clock : Nat) :
    (roundSamples getticks correction k clock).length = k := by
  simp [roundSamples]

theorem measure_upTo (c : Calib) :
    ∀ k, k ≤ c.slot0.length →
      let c' := loop k (fun i c => pfdo getticks i (pfdi getticks c)) c
      c'.clock = c.clock + 2 * k ∧ c'.out = c.out ∧ c'.correction = c.correction ∧
        c'.slot0 = roundSamples getticks c.correction k c.clock ++ c.slot0.drop k
  | 0, _ => by simp [roundSamples]
  | k + 1, hk => by
      obtain ⟨hclock, hout, hcorr, hslot⟩ := measure_upTo c k (by omega)
      rw [loop_succ, pfdo_pfdi]
      refine ⟨by rw [hclock]; ring, hout, hcorr, ?_⟩
      show List.set _ k _ = _
      rw [hslot, hclock, hcorr, List.set_append_right _ _ (length_roundSamples ..).le,
        length_roundSamples, Nat.sub_self, List.drop_eq_getElem_cons (by omega), List.set_cons_zero,
        roundSamples_succ, List.append_assoc, List.singleton_append]

/-- A round over a slot of `num_entries` entries takes `2 num_entries` readings and overwrites
the whole slot; after one entry, `_pfd_s[0]` holds the start reading of the last one. -/
theorem measureRound_spec (n : UInt32) (c : Calib) (hlen : c.slot0.length = n.toNat) :
    let c' := measureRound getticks n c
    c'.slot0 = roundSamples getticks c.correction n.toNat c.clock ∧
      c'.clock = c.clock + 2 * n.toNat ∧ c'.out = c.out ∧ c'.correction = c.correction ∧
      (0 < n.toNat → c'.s0 = getticks (c.clock + 2 * (n.toNat - 1))) := by
  obtain ⟨hclock, hout, hcorr, hslot⟩ := measure_upTo getticks c n.toNat hlen.ge
  refine ⟨by rw [measureRound, hslot, ← hlen, List.drop_length, List.append_nil, hlen], hclock, hout,
    hcorr, fun hpos => ?_⟩
  obtain ⟨k, hk⟩ : ∃ k, n.toNat = k + 1 := ⟨_, (Nat.succ_pred_eq_of_pos hpos).symm⟩
  have hclock' := (measure_upTo getticks c k (by omega)).1
  rw [measureRound, hk, loop_succ, pfdo_pfdi]
  exact congrArg getticks (by rw [hclock']; rfl)

end Round

end PfdProfiler
