import Mathlib.Data.Rat.Floor

/-! The C `double` of `pfd.c`, read with exact arithmetic on its finite values.

A finite double is a rational. `nan` and the two infinities follow IEEE 754 for the
operations the profiler uses: every comparison with `nan` is false, `0 / 0` is `nan` and a
non-zero value over zero is an infinity. `sqrt` is the platform's, given as a function on the
non-negative rationals.

The arithmetic does not round. The cast of a `uint64_t` does: `ofU64` rounds to 53
significant bits, ties to even, so `(double) UINT64_MAX` is `2 ^ 64`. `ofNat` is the cast of a
value below `2 ^ 53`, where the two agree; `get_abs_deviation` only casts such values (clipped
samples, sums of at most `1500 num_vals`, counts below `2 ^ 32`). -/

namespace PfdProfiler

inductive Dbl where
  | nan
  | inf (negative : Bool)
  | fin (value : ℚ)
  deriving DecidableEq, Repr

namespace Dbl

instance {n : Nat} : OfNat Dbl n := ⟨fin n⟩

def ofNat (n : Nat) : Dbl := fin n

/-- The whole number nearest to `n` with at most 53 significant bits, ties to even: the
value of `(double) n`. -/
def roundNat (n : Nat) : Nat :=
  if n < 2 ^ 53 then n
  else
    let e := n.log2 - 52
    let q := n / 2 ^ e
    let r := n % 2 ^ e
    (if 2 ^ (e - 1) < r ∨ (r = 2 ^ (e - 1) ∧ q % 2 = 1) then q + 1 else q) * 2 ^ e

/-- `(double) v` for a `uint64_t` `v`. -/
def ofU64 (v : UInt64) : Dbl := fin (roundNat v.toNat)

def neg : Dbl → Dbl
  | nan => nan
  | inf s => inf (!s)
  | fin x => fin (-x)

def add : Dbl → Dbl → Dbl
  | fin x, fin y => fin (x + y)
  | inf s, inf t => if s = t then inf s else nan
  | inf s, fin _ => inf s
  | fin _, inf t => inf t
  | _, _ => nan

def mul : Dbl → Dbl → Dbl
  | fin x, fin y => fin (x * y)
  | inf s, inf t => inf (s != t)
  | inf s, fin y => if y = 0 then nan else inf (s != decide (y < 0))
  | fin y, inf s => if y = 0 then nan else inf (s != decide (y < 0))
  | _, _ => nan

def div : Dbl → Dbl → Dbl
  | fin x, fin y => if y = 0 then (if x = 0 then nan else inf (decide (x < 0))) else fin (x / y)
  | fin _, inf _ => fin 0
  | inf s, fin y => inf (s != decide (y < 0))
  | _, _ => nan

instance : Neg Dbl := ⟨neg⟩
instance : Add Dbl := ⟨add⟩
instance : Sub Dbl := ⟨fun x y => add x (neg y)⟩
instance : Mul Dbl := ⟨mul⟩
instance : Div Dbl := ⟨div⟩

def lt : Dbl → Dbl → Bool
  | fin x, fin y => decide (x < y)
  | fin _, inf t => !t
  | inf s, fin _ => s
  | inf s, inf t => s && !t
  | _, _ => false

def le : Dbl → Dbl → Bool
  | fin x, fin y => decide (x ≤ y)
  | fin _, inf t => !t
  | inf s, fin _ => s
  | inf s, inf t => s || !t
  | _, _ => false

def eq : Dbl → Dbl → Bool
  | fin x, fin y => decide (x = y)
  | inf s, inf t => s == t
  | _, _ => false

instance : LT Dbl := ⟨fun x y => lt x y⟩
instance : LE Dbl := ⟨fun x y => le x y⟩
instance (x y : Dbl) : Decidable (x < y) := inferInstanceAs (Decidable (lt x y = true))
instance (x y : Dbl) : Decidable (x ≤ y) := inferInstanceAs (Decidable (le x y = true))

def isFinite : Dbl → Bool
  | fin _ => true
  | _ => false

/-- `sqrt` of `math.h`, through the platform's root of a non-negative rational. -/
def sqrt (root : ℚ → ℚ) : Dbl → Dbl
  | fin x => if x < 0 then nan else fin (root x)
  | inf false => inf false
  | _ => nan

/-- The conversion `(ticks) x`: it truncates toward zero and is undefined (`none`) when the
truncated value is not a `uint64_t`. -/
def toTicks : Dbl → Option UInt64
  | fin x => if -1 < x ∧ x < 2 ^ 64 then some (UInt64.ofNat ⌊x⌋₊) else none
  | _ => none

variable {x y : ℚ}

@[simp] theorem ofNat_eq (n : Nat) : ofNat n = fin n := rfl
@[simp] theorem lit_eq (n : Nat) [n.AtLeastTwo] :
    (no_index (OfNat.ofNat n) : Dbl) = fin (OfNat.ofNat n) := rfl
@[simp] theorem zero_eq : (0 : Dbl) = fin 0 := rfl
@[simp] theorem one_eq : (1 : Dbl) = fin 1 := rfl

@[simp] theorem neg_fin : -fin x = fin (-x) := rfl
@[simp] theorem fin_add_fin : fin x + fin y = fin (x + y) := rfl
@[simp] theorem fin_sub_fin : fin x - fin y = fin (x - y) := by
  show add _ (neg _) = _
  simp [add, neg, neg, sub_eq_add_neg]
@[simp] theorem fin_mul_fin : fin x * fin y = fin (x * y) := rfl
@[simp] theorem fin_div_fin (h : y ≠ 0) : fin x / fin y = fin (x / y) := by
  show div _ _ = _
  simp [div, h]
@[simp] theorem fin_zero_div_zero : fin 0 / fin 0 = nan := rfl

@[simp] theorem nan_add (d : Dbl) : nan + d = nan := by cases d <;> rfl
@[simp] theorem nan_sub (d : Dbl) : nan - d = nan := by cases d <;> rfl
@[simp] theorem nan_mul (d : Dbl) : nan * d = nan := by cases d <;> rfl
@[simp] theorem nan_div (d : Dbl) : nan / d = nan := by cases d <;> rfl
@[simp] theorem fin_sub_nan : fin x - nan = nan := rfl
@[simp] theorem fin_mul_nan : fin x * nan = nan := rfl
@[simp] theorem fin_div_nan : fin x / nan = nan := rfl

@[simp] theorem fin_lt_fin : fin x < fin y ↔ x < y := by
  show lt _ _ = true ↔ _
  simp [lt]
@[simp] theorem fin_le_fin : fin x ≤ fin y ↔ x ≤ y := by
  show le _ _ = true ↔ _
  simp [le]
@[simp] theorem not_nan_lt (d : Dbl) : ¬ nan < d := by
  show ¬ lt _ _ = true
  cases d <;> simp [lt]
@[simp] theorem not_lt_nan (d : Dbl) : ¬ d < nan := by
  show ¬ lt _ _ = true
  cases d <;> simp [lt]
@[simp] theorem not_nan_le (d : Dbl) : ¬ nan ≤ d := by
  show ¬ le _ _ = true
  cases d <;> simp [le]
@[simp] theorem not_le_nan (d : Dbl) : ¬ d ≤ nan := by
  show ¬ le _ _ = true
  cases d <;> simp [le]

@[simp] theorem eq_fin_fin : eq (fin x) (fin y) = decide (x = y) := rfl
@[simp] theorem isFinite_fin : isFinite (fin x) = true := rfl
@[simp] theorem isFinite_nan : isFinite nan = false := rfl
@[simp] theorem isFinite_inf (s : Bool) : isFinite (inf s) = false := rfl

theorem isFinite_iff {d : Dbl} : isFinite d = true ↔ ∃ q, d = fin q := by
  cases d <;> simp

@[simp] theorem sqrt_fin_of_nonneg (root : ℚ → ℚ) (h : 0 ≤ x) : sqrt root (fin x) = fin (root x) := by
  simp [sqrt, not_lt.mpr h]
@[simp] theorem sqrt_nan (root : ℚ → ℚ) : sqrt root nan = nan := rfl

theorem roundNat_of_lt {n : Nat} (h : n < 2 ^ 53) : roundNat n = n := if_pos h

theorem ofU64_of_lt {v : UInt64} (h : v.toNat < 2 ^ 53) : ofU64 v = fin v.toNat := by
  rw [ofU64, roundNat_of_lt h]

/-- Above `2 ^ 53` a number with `53 + e` binary digits loses its last `e`. -/
theorem roundNat_of_digits {n e : Nat} (he : 1 ≤ e) (lo : 2 ^ (52 + e) ≤ n) (hi : n < 2 ^ (53 + e)) :
    roundNat n = (if 2 ^ (e - 1) < n % 2 ^ e ∨ (n % 2 ^ e = 2 ^ (e - 1) ∧ n / 2 ^ e % 2 = 1)
      then n / 2 ^ e + 1 else n / 2 ^ e) * 2 ^ e := by
  have big : 2 ^ 53 ≤ n := (Nat.pow_le_pow_right (by decide) (by omega)).trans lo
  have hn : n ≠ 0 := by omega
  have hL : n.log2 = 52 + e :=
    le_antisymm (Nat.lt_succ_iff.mp ((Nat.log2_lt hn).mpr (by rwa [Nat.succ_eq_add_one, Nat.add_right_comm])))
      ((Nat.le_log2 hn).mpr lo)
  rw [roundNat, if_neg (by omega), hL, Nat.add_sub_cancel_left]

theorem roundNat_le_pow {n k : Nat} (h : n < 2 ^ k) : roundNat n ≤ 2 ^ k := by
  by_cases small : n < 2 ^ 53
  · rw [roundNat_of_lt small]
    exact h.le
  have hn : n ≠ 0 := by omega
  have hL : 53 ≤ n.log2 := (Nat.le_log2 hn).mpr (by omega)
  have hk : n.log2 < k := (Nat.log2_lt hn).mpr h
  have hq : n / 2 ^ (n.log2 - 52) < 2 ^ 53 := by
    rw [Nat.div_lt_iff_lt_mul (by positivity), ← Nat.pow_add]
    exact Nat.lt_log2_self.trans_le (Nat.pow_le_pow_right (by decide) (by omega))
  rw [roundNat, if_neg small]
  calc _ ≤ 2 ^ 53 * 2 ^ (n.log2 - 52) := Nat.mul_le_mul_right _ (by split_ifs <;> omega)
    _ = 2 ^ (53 + (n.log2 - 52)) := (Nat.pow_add ..).symm
    _ ≤ 2 ^ k := Nat.pow_le_pow_right (by decide) (by omega)

theorem roundNat_pos {n : Nat} (h : 0 < n) : 0 < roundNat n := by
  by_cases small : n < 2 ^ 53
  · rwa [roundNat_of_lt small]
  have hn : n ≠ 0 := by omega
  have hq : 0 < n / 2 ^ (n.log2 - 52) :=
    Nat.div_pos ((Nat.pow_le_pow_right (by decide) (Nat.sub_le _ _)).trans (Nat.log2_self_le hn)) (by positivity)
  rw [roundNat, if_neg small]
  exact Nat.mul_pos (by split_ifs <;> omega) (by positivity)

theorem roundNat_high {n : Nat} (lo : 2 ^ 63 ≤ n) (hi : n < 2 ^ 64) :
    roundNat n = (if 1024 < n % 2048 ∨ (n % 2048 = 1024 ∧ n / 2048 % 2 = 1)
      then n / 2048 + 1 else n / 2048) * 2048 :=
  roundNat_of_digits (e := 11) (by decide) lo hi

/-- `(double) v` of a `uint64_t` reaches `(double) UINT64_MAX = 2 ^ 64` exactly from
`2 ^ 64 - 1024` on; below it is a whole number under `2 ^ 64 - 1`. -/
theorem roundNat_eq_top_iff {n : Nat} (hi : n < 2 ^ 64) : roundNat n = 2 ^ 64 ↔ 2 ^ 64 - 1024 ≤ n := by
  by_cases lo : 2 ^ 63 ≤ n
  · rw [roundNat_high lo hi]
    split_ifs <;> omega
  · have := roundNat_le_pow (n := n) (k := 63) (by omega)
    omega

theorem roundNat_lt_or_top {n : Nat} (hi : n < 2 ^ 64) : roundNat n < 2 ^ 64 - 1 ∨ roundNat n = 2 ^ 64 := by
  by_cases lo : 2 ^ 63 ≤ n
  · rw [roundNat_high lo hi]
    split_ifs <;> omega
  · have := roundNat_le_pow (n := n) (k := 63) (by omega)
    omega

@[simp] theorem toTicks_fin : toTicks (fin x) = if -1 < x ∧ x < 2 ^ 64 then some (UInt64.ofNat ⌊x⌋₊) else none :=
  rfl

end Dbl

end PfdProfiler
