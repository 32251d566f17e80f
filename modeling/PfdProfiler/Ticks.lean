import Mathlib.Data.List.Range
import Mathlib.Tactic.Ring

/-! Cycle-counter readings and the two helpers of `pfd.c` that work on raw `ticks`:
`measure_minimum_tick_delta` and the `qsort` comparison `ticks_compare`.

A run reads the counter through `getticks : Nat → UInt64`, the value of its `k`-th reading;
backwards and wrapping readings are all allowed. -/

namespace PfdProfiler

def uint64Max : UInt64 := 18446744073709551615

theorem u64_lt_iff {a b : UInt64} : a < b ↔ a.toNat < b.toNat := Iff.rfl
theorem u64_le_iff {a b : UInt64} : a ≤ b ↔ a.toNat ≤ b.toNat := Iff.rfl
theorem u64_eq_iff {a b : UInt64} : a = b ↔ a.toNat = b.toNat := ⟨congrArg _, UInt64.toNat.inj⟩
theorem u64_toNat_lt (a : UInt64) : a.toNat < 2 ^ 64 := a.toNat_lt_size
theorem u64_toNat_add (a b : UInt64) : (a + b).toNat = (a.toNat + b.toNat) % 2 ^ 64 := rfl
theorem u64_toNat_sub (a b : UInt64) : (a - b).toNat = (2 ^ 64 - b.toNat + a.toNat) % 2 ^ 64 :=
  BitVec.toNat_sub ..
theorem u64_toNat_ofNat (n : Nat) : (UInt64.ofNat n).toNat = n % 2 ^ 64 := BitVec.toNat_ofNat ..
@[simp] theorem uint64Max_toNat : uint64Max.toNat = 2 ^ 64 - 1 := rfl

@[simp] theorem u64_sub_zero (a : UInt64) : a - 0 = a := by
  have := u64_toNat_lt a
  rw [u64_eq_iff, u64_toNat_sub, UInt64.toNat_zero]
  omega

@[simp] theorem u64_sub_self (a : UInt64) : a - a = 0 := by
  have := u64_toNat_lt a
  rw [u64_eq_iff, u64_toNat_sub, UInt64.toNat_zero]
  omega

theorem u64_le_of_lt {a b : UInt64} (h : a < b) : a ≤ b := Nat.le_of_lt h
theorem u64_pos_iff {a : UInt64} : 0 < a ↔ 0 < a.toNat := Iff.rfl

theorem u32_toNat_add (a b : UInt32) : (a + b).toNat = (a.toNat + b.toNat) % 2 ^ 32 := rfl
theorem u32_toNat_lt (a : UInt32) : a.toNat < 2 ^ 32 := a.toNat_lt_size
theorem u32_toNat_ofNat_mod (n : Nat) : (UInt32.ofNat n).toNat = n % 2 ^ 32 := BitVec.toNat_ofNat ..

/-- One attempt of `measure_minimum_tick_delta`: two readings from `clock`, and `best`
replaced by the delta when that is positive and smaller. -/
def tickDeltaAttempt (getticks : Nat → UInt64) (acc : UInt64 × Nat) : UInt64 × Nat :=
  let start := getticks acc.2
  let stop := getticks (acc.2 + 1)
  let delta := stop - start
  (if 0 < delta ∧ delta < acc.1 then delta else acc.1, acc.2 + 2)

/-- `measure_minimum_tick_delta(attempts)`, reading the counter from reading `clock` on; the
result comes with the number of readings taken so far. -/
def measureMinimumTickDelta (getticks : Nat → UInt64) (attempts : UInt32) (clock : Nat) :
    UInt64 × Nat :=
  let acc := (List.range attempts.toNat).foldl (fun acc _ => tickDeltaAttempt getticks acc)
    (uint64Max, clock)
  (if acc.1 = uint64Max then 0 else acc.1, acc.2)

def tickDeltas (getticks : Nat → UInt64) (attempts : Nat) (clock : Nat) : List UInt64 :=
  (List.range attempts).map fun i => getticks (clock + 2 * i + 1) - getticks (clock + 2 * i)

/-- What the running `best` is after some attempts: one of the deltas seen or the start
value, and no larger than any positive delta seen. -/
def BestOf (start : UInt64) (deltas : List UInt64) (best : UInt64) : Prop :=
  (best = start ∨ (0 < best ∧ best ∈ deltas)) ∧ best ≤ start ∧ ∀ d ∈ deltas, 0 < d → best ≤ d

theorem tickDeltaAttempt_clock (getticks : Nat → UInt64) (acc : UInt64 × Nat) :
    (tickDeltaAttempt getticks acc).2 = acc.2 + 2 := rfl

theorem attempts_fold (getticks : Nat → UInt64) (k : Nat) (best : UInt64) (clock : Nat) :
    let acc := (List.range k).foldl (fun acc _ => tickDeltaAttempt getticks acc) (best, clock)
    acc.2 = clock + 2 * k ∧ BestOf best (tickDeltas getticks k clock) acc.1 := by
  induction k with
  | zero => exact ⟨rfl, .inl rfl, UInt64.le_refl _, by simp [tickDeltas]⟩
  | succ k ih =>
      obtain ⟨hclock, hbest⟩ := ih
      simp only [List.range_succ, List.foldl_append, List.foldl_cons, List.foldl_nil]
      set acc := (List.range k).foldl (fun acc _ => tickDeltaAttempt getticks acc) (best, clock)
      have hdeltas : tickDeltas getticks (k + 1) clock =
          tickDeltas getticks k clock ++ [getticks (acc.2 + 1) - getticks acc.2] := by
        simp [tickDeltas, List.range_succ, hclock]
      refine ⟨by rw [tickDeltaAttempt_clock, hclock]; ring, ?_⟩
      rw [hdeltas]
      obtain ⟨hmem, hle, hmin⟩ := hbest
      simp only [tickDeltaAttempt]
      split_ifs with hnew
      · refine ⟨.inr ⟨hnew.1, by simp⟩, ?_, ?_⟩
        · exact UInt64.le_trans (u64_le_of_lt hnew.2) hle
        · intro d hd hpos
          rcases List.mem_append.mp hd with hd | hd
          · exact UInt64.le_trans (u64_le_of_lt hnew.2) (hmin d hd hpos)
          · simp only [List.mem_singleton] at hd
            exact hd ▸ UInt64.le_refl _
      · refine ⟨hmem.imp_right fun h => ⟨h.1, List.mem_append_left _ h.2⟩, hle, ?_⟩
        intro d hd hpos
        rcases List.mem_append.mp hd with hd | hd
        · exact hmin d hd hpos
        · simp only [List.mem_singleton] at hd
          subst hd
          exact UInt64.not_lt.mp fun h => hnew ⟨hpos, h⟩

/-- `measure_minimum_tick_delta` takes two readings an attempt and returns the least delta
strictly between `0` and `UINT64_MAX`, or `0` when no delta lies there. -/
theorem measureMinimumTickDelta_spec (getticks : Nat → UInt64) (attempts : UInt32) (clock : Nat) :
    let r := measureMinimumTickDelta getticks attempts clock
    let deltas := tickDeltas getticks attempts.toNat clock
    r.2 = clock + 2 * attempts.toNat ∧
      ((r.1 = 0 ∧ ∀ d ∈ deltas, d = 0 ∨ d = uint64Max) ∨
        (0 < r.1 ∧ r.1 < uint64Max ∧ r.1 ∈ deltas ∧ ∀ d ∈ deltas, 0 < d → r.1 ≤ d)) := by
  obtain ⟨hclock, hmem, -, hmin⟩ :=
    attempts_fold getticks attempts.toNat uint64Max clock
  refine ⟨hclock, ?_⟩
  simp only [measureMinimumTickDelta]
  split_ifs with hmax
  · refine .inl ⟨rfl, fun d hd => ?_⟩
    have := hmin d hd
    have := u64_toNat_lt d
    simp only [u64_lt_iff, u64_le_iff, u64_eq_iff, hmax, uint64Max_toNat, UInt64.toNat_zero] at *
    omega
  · rcases hmem with h | ⟨hpos, hin⟩
    · exact absurd h hmax
    · have := u64_toNat_lt (List.foldl (fun acc _ => tickDeltaAttempt getticks acc)
        (uint64Max, clock) (List.range attempts.toNat)).1
      refine .inr ⟨hpos, ?_, hin, hmin⟩
      simp only [u64_lt_iff, u64_eq_iff, uint64Max_toNat] at hmax ⊢
      omega

theorem measureMinimumTickDelta_of_const (getticks : Nat → UInt64) {attempts : UInt32} {clock : Nat}
    {d : UInt64} (hpos : 0 < attempts.toNat) (hd : 0 < d) (hmax : d < uint64Max)
    (hconst : ∀ e ∈ tickDeltas getticks attempts.toNat clock, e = d) :
    measureMinimumTickDelta getticks attempts clock = (d, clock + 2 * attempts.toNat) := by
  obtain ⟨hclock, hbest, -, hmin⟩ := attempts_fold getticks attempts.toNat uint64Max clock
  have mem : d ∈ tickDeltas getticks attempts.toNat clock := by
    have h0 : 0 < (tickDeltas getticks attempts.toNat clock).length := by simpa [tickDeltas] using hpos
    exact hconst _ (List.getElem_mem h0) ▸ List.getElem_mem h0
  have hne : d ≠ uint64Max := fun h => Nat.lt_irrefl _ (h ▸ u64_lt_iff.mp hmax)
  have hbest' : (List.foldl (fun acc _ => tickDeltaAttempt getticks acc) (uint64Max, clock)
      (List.range attempts.toNat)).1 = d := by
    rcases hbest with h | ⟨-, h⟩
    · exact absurd (h ▸ hmin d mem hd) (UInt64.not_le.mpr hmax)
    · exact hconst _ h
  simp only [measureMinimumTickDelta, hbest', hclock, if_neg hne]

/-- A counter that steps back by one between the two readings gives the positive delta
`UINT64_MAX`, which equals the sentinel, so the measurement reports `0`. -/
theorem measureMinimumTickDelta_backwards_by_one :
    tickDeltas (fun k => if k = 0 then 1 else 0) 1 0 = [uint64Max] ∧
      (measureMinimumTickDelta (fun k => if k = 0 then 1 else 0) 1 0).1 = 0 := by
  decide

/-- `ticks_compare`, the comparison handed to `qsort`. -/
def ticksCompare (a b : UInt64) : Int :=
  if a < b then -1 else if a > b then 1 else 0

theorem ticksCompare_nonpos_iff (a b : UInt64) : ticksCompare a b ≤ 0 ↔ a ≤ b := by
  simp only [ticksCompare, u64_lt_iff, u64_le_iff, gt_iff_lt]
  split_ifs <;> omega

end PfdProfiler
