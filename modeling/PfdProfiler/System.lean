import PfdProfiler.CalibrationFacts
import PfdProfiler.DeviationExact
import PfdProfiler.Report

/-! The profiler of one thread as a state machine: `pfd_store_init`, the measurement macros
`PFDI(s)` and `PFDO(s, i)`, and `pfd_collect_abs_deviation`, each a step on the thread-local
store, the count of counter readings taken and what the calls hand back.

`PFDI` and `PFDO` are modelled as in `Store.lean`, now for any slot `s`. A `NULL` store or an
index out of range is undefined behaviour in C, and the step is then `none`; so is a call of
`pfd_store_init` that would fail its `assert`. -/

namespace PfdProfiler

/-- What the profiler hands back to its caller: a line `pfd_store_init` prints, a line
`pfd_collect_abs_deviation` prints, or the record it writes to `*out`. -/
inductive Output
  | msg (m : Msg)
  | line (l : Line)
  | record (ad : AbsDeviation)

/-- The thread's profiler between calls: its store, the counter readings taken so far and
what the calls have handed back. -/
structure Sys where
  st : Store
  clock : Nat
  out : List Output

/-- A call on the profiler; `init` carries what `malloc` hands back. -/
inductive Op
  /-- `pfd_store_init(num_entries)`. -/
  | init (numEntries : UInt32) (fresh : Fresh)
  /-- `PFDI(s)`. -/
  | start (s : UInt32)
  /-- `PFDO(s, i)`. -/
  | stop (s i : UInt32)
  /-- `pfd_collect_abs_deviation(store, num_vals, num_print, out)`, with `out` not `NULL`
  when `hasOut`. -/
  | collect (store numVals numPrint : UInt32) (hasOut : Bool)

/-- The platform as a call sees it that starts after `clock` readings. -/
def Platform.after (p : Platform) (clock : Nat) : Platform := ⟨fun j => p.getticks (clock + j), p.sqrt⟩

/-- `pfd_store_init(num_entries)` on the thread's profiler. -/
def initAt (b : Build) (p : Platform) (n : UInt32) (fresh : Fresh) (sys : Sys) : Option Sys :=
  match pfdStoreInit b (p.after sys.clock) fresh sys.st n with
  | .ok o => some ⟨o.store, sys.clock + o.clock, sys.out ++ o.out.map .msg⟩
  | .error _ => none

/-- `PFDI(s)`: `_pfd_s[s]` takes the next reading. The macro is defined in `pfd.h`, which is
not among the sources; this is the meaning its uses in `pfd.c` give it. -/
def pfdiAt (getticks : Nat → UInt64) (s : UInt32) (sys : Sys) : Option Sys := do
  let starts ← sys.st.pfdS
  if s.toNat < starts.length then
    some ⟨{ sys.st with pfdS := some (starts.set s.toNat (getticks sys.clock)) }, sys.clock + 1,
      sys.out⟩
  else none

/-- `PFDO(s, i)`: entry `i` of slot `s` takes the next reading less `_pfd_s[s]` and
`pfd_correction`. Defined in `pfd.h`, not among the sources, as `PFDI` is. -/
def pfdoAt (getticks : Nat → UInt64) (s i : UInt32) (sys : Sys) : Option Sys := do
  let slots ← sys.st.pfdStore
  let starts ← sys.st.pfdS
  let slot ← slots[s.toNat]?
  let start ← starts[s.toNat]?
  if i.toNat < slot.length then
    some ⟨{ sys.st with pfdStore := some (slots.set s.toNat
      (slot.set i.toNat (getticks sys.clock - start - sys.st.pfdCorrection))) }, sys.clock + 1, sys.out⟩
  else none

/-- `pfd_collect_abs_deviation(store, num_vals, num_print, out)`, which reads `num_vals`
entries of slot `store`: its lines, then the record when `out` is not `NULL`. -/
def collectAt (sqrt : ℚ → ℚ) (store numVals numPrint : UInt32) (hasOut : Bool) (sys : Sys) :
    Option Sys := do
  let slots ← sys.st.pfdStore
  let slot ← slots[store.toNat]?
  if numVals.toNat ≤ slot.length then
    let (lines, st, ad) ← pfdCollectAbsDeviation sqrt sys.st store numVals numPrint
    some ⟨st, sys.clock, sys.out ++ lines.map .line ++ if hasOut then [.record ad] else []⟩
  else none

/-- One call on the profiler. -/
def step (b : Build) (p : Platform) (sys : Sys) : Op → Option Sys
  | .init n fresh => initAt b p n fresh sys
  | .start s => pfdiAt p.getticks s sys
  | .stop s i => pfdoAt p.getticks s i sys
  | .collect store numVals numPrint hasOut => collectAt p.sqrt store numVals numPrint hasOut sys

/-- A sequence of calls, stopping at the first that is undefined. -/
def runOps (b : Build) (p : Platform) : Sys → List Op → Option Sys
  | sys, [] => some sys
  | sys, op :: ops => (step b p sys op).bind (runOps b p · ops)

def Op.isInit : Op → Bool
  | .init _ _ => true
  | _ => false

def Op.entries (n : UInt32) : Op → UInt32
  | .init m _ => m
  | _ => n

def InRange (b : Build) (n : UInt32) : Op → Prop
  | .init _ _ => True
  | .start s => s.toNat < b.numStores
  | .stop s i => s.toNat < b.numStores ∧ i.toNat < n.toNat
  | .collect store numVals _ _ => store.toNat < b.numStores ∧ numVals.toNat ≤ n.toNat

instance (b : Build) (n : UInt32) (op : Op) : Decidable (InRange b n op) :=
  match op with
  | .init _ _ => isTrue trivial
  | .start s => inferInstanceAs (Decidable (s.toNat < b.numStores))
  | .stop s i => inferInstanceAs (Decidable (s.toNat < b.numStores ∧ i.toNat < n.toNat))
  | .collect store numVals _ _ =>
      inferInstanceAs (Decidable (store.toNat < b.numStores ∧ numVals.toNat ≤ n.toNat))

/-- Every call of a sequence keeps its indices in the store the calls before it leave. -/
def Fits (b : Build) : UInt32 → List Op → Prop
  | _, [] => True
  | n, op :: ops => InRange b n op ∧ Fits b (op.entries n) ops

instance decFits (b : Build) : ∀ n ops, Decidable (Fits b n ops)
  | _, [] => isTrue trivial
  | n, op :: ops =>
      haveI := decFits b (op.entries n) ops
      inferInstanceAs (Decidable (InRange b n op ∧ Fits b (op.entries n) ops))

/-- The store as `pfd_store_init(num_entries)` leaves it: `PFD_NUM_STORES` slots of
`num_entries` entries, `PFD_NUM_STORES` entries of `_pfd_s`, and a correction of at least `1`. -/
structure Ready (b : Build) (n : UInt32) (st : Store) : Prop where
  slots : ∃ slots, st.pfdStore = some slots ∧ slots.length = b.numStores ∧
    ∀ slot ∈ slots, slot.length = n.toNat
  starts : ∃ starts, st.pfdS = some starts ∧ starts.length = b.numStores
  correction : 1 ≤ st.pfdCorrection.toNat

def Store.slot (st : Store) (s : UInt32) : Option (List UInt64) := st.pfdStore.bind (·[s.toNat]?)

def Store.start (st : Store) (s : UInt32) : Option UInt64 := st.pfdS.bind (·[s.toNat]?)

def Store.entry (st : Store) (s i : UInt32) : Option UInt64 := (st.slot s).bind (·[i.toNat]?)

def Op.touches (s : UInt32) : Op → Bool
  | .init _ _ => true
  | .start s' => s' == s
  | .stop s' _ => s' == s
  | .collect s' _ _ _ => s' == s

def Op.keepsStart (s : UInt32) : Op → Bool
  | .init _ _ => false
  | .start s' => s' != s
  | _ => true

/-- What `pfd_collect_abs_deviation` hands back for a slot holding `slot`: its first
`min(num_print, num_vals)` entries as measured, the report of the record of its first
`num_vals` entries, and the record when `out` is not `NULL`. -/
def collectOutput (sqrt : ℚ → ℚ) (slot : List UInt64) (numVals numPrint : UInt32) (hasOut : Bool) :
    List Output :=
  let ad := (analyse sqrt slot numVals.toNat).2
  ((List.range (min numPrint.toNat numVals.toNat)).map
      (fun i => Line.sample (.ofNat i) (toLongInt (slot.getD i 0))) ++ printAbsDeviation ad).map .line ++
    if hasOut then [.record ad] else []

section Steps

/-! Each call, when its pointers are set and its indices in range, and what a call that
returns leaves. -/

variable {getticks : Nat → UInt64} {sys sys' : Sys} {slots : List (List UInt64)}
  {starts slot : List UInt64} {start : UInt64}

theorem initAt_of {b : Build} {p : Platform} {n : UInt32} {fresh : Fresh} {o : Outcome}
    (h : pfdStoreInit b (p.after sys.clock) fresh sys.st n = .ok o) :
    initAt b p n fresh sys = some ⟨o.store, sys.clock + o.clock, sys.out ++ o.out.map .msg⟩ := by
  unfold initAt
  rw [h]

theorem pfdiAt_of (hS : sys.st.pfdS = some starts) {s : UInt32} (hs : s.toNat < starts.length) :
    pfdiAt getticks s sys =
      some ⟨{ sys.st with pfdS := some (starts.set s.toNat (getticks sys.clock)) }, sys.clock + 1,
        sys.out⟩ := by
  rw [pfdiAt, hS]
  exact if_pos hs

theorem pfdiAt_some {s : UInt32} (h : pfdiAt getticks s sys = some sys') :
    ∃ starts, sys.st.pfdS = some starts ∧
      sys' = ⟨{ sys.st with pfdS := some (starts.set s.toNat (getticks sys.clock)) }, sys.clock + 1,
        sys.out⟩ := by
  simp only [pfdiAt, Option.bind_eq_bind, Option.bind_eq_some, Option.ite_none_right_eq_some,
    Option.some.injEq] at h
  obtain ⟨starts, hS, -, rfl⟩ := h
  exact ⟨starts, hS, rfl⟩

theorem pfdoAt_of (hslots : sys.st.pfdStore = some slots) (hS : sys.st.pfdS = some starts) {s i : UInt32}
    (hslot : slots[s.toNat]? = some slot) (hstart : starts[s.toNat]? = some start)
    (hi : i.toNat < slot.length) :
    pfdoAt getticks s i sys = some ⟨{ sys.st with pfdStore := some (slots.set s.toNat
      (slot.set i.toNat (getticks sys.clock - start - sys.st.pfdCorrection))) }, sys.clock + 1, sys.out⟩ := by
  rw [pfdoAt, hslots, hS]
  simp only [Option.bind_eq_bind, Option.some_bind, hslot, hstart]
  exact if_pos hi

theorem pfdoAt_some {s i : UInt32} (h : pfdoAt getticks s i sys = some sys') :
    ∃ slots starts slot start, sys.st.pfdStore = some slots ∧ sys.st.pfdS = some starts ∧
      slots[s.toNat]? = some slot ∧ starts[s.toNat]? = some start ∧
      sys' = ⟨{ sys.st with pfdStore := some (slots.set s.toNat
        (slot.set i.toNat (getticks sys.clock - start - sys.st.pfdCorrection))) }, sys.clock + 1,
        sys.out⟩ := by
  simp only [pfdoAt, Option.bind_eq_bind, Option.bind_eq_some, Option.ite_none_right_eq_some,
    Option.some.injEq] at h
  obtain ⟨slots, hslots, starts, hS, slot, hslot, start, hstart, -, rfl⟩ := h
  exact ⟨slots, starts, slot, start, hslots, hS, hslot, hstart, rfl⟩

variable {sqrt : ℚ → ℚ} {store numVals numPrint : UInt32} {hasOut : Bool}

theorem collectAt_of (hslots : sys.st.pfdStore = some slots) (hslot : slots[store.toNat]? = some slot)
    (hv : numVals.toNat ≤ slot.length) :
    collectAt sqrt store numVals numPrint hasOut sys = some
      ⟨{ sys.st with pfdStore := some (slots.set store.toNat (analyse sqrt slot numVals.toNat).1) },
        sys.clock, sys.out ++ collectOutput sqrt slot numVals numPrint hasOut⟩ := by
  have hget : (sys.st.pfdStore.getD []).getD store.toNat [] = slot := by
    rw [hslots, Option.getD_some, List.getD_eq_getElem?_getD, hslot, Option.getD_some]
  simp [collectAt, hslots, hslot, hv, pfdCollectAbsDeviation_spec, hget, collectOutput]

theorem collectAt_some (h : collectAt sqrt store numVals numPrint hasOut sys = some sys') :
    ∃ slots slot, sys.st.pfdStore = some slots ∧ slots[store.toNat]? = some slot ∧
      sys' = ⟨{ sys.st with pfdStore := some (slots.set store.toNat (analyse sqrt slot numVals.toNat).1) },
        sys.clock, sys.out ++ collectOutput sqrt slot numVals numPrint hasOut⟩ := by
  have h' := h
  simp only [collectAt, Option.bind_eq_bind, Option.bind_eq_some, Option.ite_none_right_eq_some] at h'
  obtain ⟨slots, hslots, slot, hslot, hv, -⟩ := h'
  rw [collectAt_of hslots hslot hv, Option.some.injEq] at h
  exact ⟨slots, slot, hslots, hslot, h.symm⟩

theorem collectAt_output :
    (collectAt sqrt store numVals numPrint hasOut sys).map (·.out.drop sys.out.length) =
      (sys.st.slot store).bind fun slot =>
        if numVals.toNat ≤ slot.length then some (collectOutput sqrt slot numVals numPrint hasOut)
        else none := by
  rcases hslots : sys.st.pfdStore with _ | slots
  · simp [collectAt, Store.slot, hslots]
  rcases hslot : slots[store.toNat]? with _ | slot
  · simp [collectAt, Store.slot, hslots, hslot]
  by_cases hv : numVals.toNat ≤ slot.length
  · simp [collectAt_of hslots hslot hv, Store.slot, hslots, hslot, hv]
  · simp [collectAt, Store.slot, hslots, hslot, hv]

end Steps

namespace Ready

variable {b : Build} {n : UInt32} {st : Store}

theorem setStart (ready : Ready b n st) {starts : List UInt64} (hS : st.pfdS = some starts) (k : Nat)
    (v : UInt64) : Ready b n { st with pfdS := some (starts.set k v) } := by
  obtain ⟨starts', hS', hlen⟩ := ready.starts
  rw [hS, Option.some.injEq] at hS'
  exact ⟨ready.slots, ⟨_, rfl, by rw [List.length_set, hS', hlen]⟩, ready.correction⟩

theorem setSlot (ready : Ready b n st) {slots : List (List UInt64)} (hslots : st.pfdStore = some slots)
    (k : Nat) {slot : List UInt64} (hlen : slot.length = n.toNat) :
    Ready b n { st with pfdStore := some (slots.set k slot) } := by
  obtain ⟨slots', hslots', hnum, hmem⟩ := ready.slots
  rw [hslots, Option.some.injEq] at hslots'
  subst hslots'
  refine ⟨⟨_, rfl, by rw [List.length_set, hnum], fun x hx => ?_⟩, ready.starts, ready.correction⟩
  rcases List.mem_or_eq_of_mem_set hx with hx | rfl
  · exact hmem x hx
  · exact hlen

theorem lookup (ready : Ready b n st) {s : Nat} (hs : s < b.numStores) :
    ∃ slots starts slot start, st.pfdStore = some slots ∧ st.pfdS = some starts ∧
      slots[s]? = some slot ∧ starts[s]? = some start ∧ slot.length = n.toNat ∧ s < starts.length := by
  obtain ⟨slots, hslots, hnum, hmem⟩ := ready.slots
  obtain ⟨starts, hS, hlen⟩ := ready.starts
  exact ⟨slots, starts, _, _, hslots, hS, List.getElem?_eq_getElem (hnum ▸ hs),
    List.getElem?_eq_getElem (hlen ▸ hs), hmem _ (List.getElem_mem _), hlen ▸ hs⟩

end Ready

theorem pfdStoreInit_ready (b : Build) (p : Platform) (fresh : Fresh) (st : Store) (n : UInt32) :
    ∃ o, pfdStoreInit b p fresh st n = .ok o ∧ Ready b n o.store := by
  have out := initChoice_spec b p fresh st n
  obtain ⟨c, hsettle, hcorr, hslot, -, -⟩ := settle_spec p.getticks _ (retryOutcome_avg out)
  have hlen : c.slot0.length = n.toNat := hslot ▸ retryOutcome_slot0_length out
  refine ⟨_, pfdStoreInit_of_settle hsettle,
    ⟨_, rfl, by simp [Store.update, allocate], fun slot hs => ?_⟩,
    ⟨_, rfl, by simp [Store.update, allocate]⟩, hcorr⟩
  rcases List.mem_or_eq_of_mem_set hs with hs | rfl
  · obtain ⟨i, -, rfl⟩ := List.mem_map.mp hs
    simp
  · exact hlen

theorem initAt_ready (b : Build) (p : Platform) (n : UInt32) (fresh : Fresh) (sys : Sys) :
    ∃ sys', initAt b p n fresh sys = some sys' ∧ Ready b n sys'.st := by
  obtain ⟨o, h, ready⟩ := pfdStoreInit_ready b (p.after sys.clock) fresh sys.st n
  exact ⟨_, initAt_of h, ready⟩

section Run

variable (b : Build) (p : Platform)

/-- One call with its indices in range on a ready store returns and leaves the store ready;
only `pfd_store_init` changes `pfd_correction`. -/
theorem step_ready {n : UInt32} {sys : Sys} {op : Op} (ready : Ready b n sys.st) (fits : InRange b n op) :
    ∃ sys', step b p sys op = some sys' ∧ Ready b (op.entries n) sys'.st ∧
      (op.isInit = false → sys'.st.pfdCorrection = sys.st.pfdCorrection) := by
  cases op with
  | init m fresh =>
    obtain ⟨sys', h, ready'⟩ := initAt_ready b p m fresh sys
    exact ⟨sys', h, ready', nofun⟩
  | start s =>
    obtain ⟨-, starts, -, -, -, hS, -, -, -, hs⟩ := ready.lookup fits
    exact ⟨_, pfdiAt_of hS hs, ready.setStart hS _ _, fun _ => rfl⟩
  | stop s i =>
    obtain ⟨slots, starts, slot, start, hslots, hS, hslot, hstart, hlen, -⟩ := ready.lookup fits.1
    exact ⟨_, pfdoAt_of hslots hS hslot hstart (hlen ▸ fits.2),
      ready.setSlot hslots _ (by rw [List.length_set, hlen]), fun _ => rfl⟩
  | collect store numVals numPrint hasOut =>
    obtain ⟨slots, -, slot, -, hslots, -, hslot, -, hlen, -⟩ := ready.lookup fits.1
    exact ⟨_, collectAt_of hslots hslot (hlen ▸ fits.2),
      ready.setSlot hslots _ ((analyse_length _ _ (hlen ▸ fits.2) (u32_toNat_lt numVals)).trans hlen),
      fun _ => rfl⟩

/-- A run of calls that keep their indices in range, from a ready store, returns at every
call and leaves the store ready; without `pfd_store_init` it keeps `pfd_correction`. -/
theorem runOps_ready : ∀ (ops : List Op) {n : UInt32} {sys : Sys}, Ready b n sys.st → Fits b n ops →
    ∃ sys', runOps b p sys ops = some sys' ∧ Ready b (ops.foldl Op.entries n) sys'.st ∧
      ((∀ op ∈ ops, op.isInit = false) → sys'.st.pfdCorrection = sys.st.pfdCorrection)
  | [], _, sys, ready, _ => ⟨sys, rfl, ready, fun _ => rfl⟩
  | op :: ops, _, _, ready, ⟨hop, hops⟩ => by
    obtain ⟨sys₁, h₁, ready₁, keep₁⟩ := step_ready b p ready hop
    obtain ⟨sys', h', ready', keep'⟩ := runOps_ready ops ready₁ hops
    refine ⟨sys', by rw [runOps, h₁]; exact h', ready', fun noInit => ?_⟩
    rw [keep' fun o ho => noInit o (List.mem_cons_of_mem _ ho), keep₁ (noInit op (List.mem_cons_self _ _))]

/-- Every `malloc` succeeding, as `Fresh` models it: from any state of the thread's profiler,
a run that starts with `pfd_store_init` and keeps
every later index in range (`s < PFD_NUM_STORES`, `i < num_entries` and `num_vals ≤ num_entries`
of the latest `pfd_store_init`) returns at every call: no `NULL` pointer or index out of range is
ever used. Every state it reaches is ready, and the calls after it keep the correction that
`pfd_store_init` published until the next `pfd_store_init`. -/
theorem runOps_init_safe (sys : Sys) (n : UInt32) (fresh : Fresh) (ops : List Op) (fits : Fits b n ops) :
    ∃ sys₁ sys', step b p sys (.init n fresh) = some sys₁ ∧ runOps b p sys₁ ops = some sys' ∧
      Ready b (ops.foldl Op.entries n) sys'.st ∧
      ((∀ op ∈ ops, op.isInit = false) → sys'.st.pfdCorrection = sys₁.st.pfdCorrection) := by
  obtain ⟨sys₁, h₁, ready₁⟩ := initAt_ready b p n fresh sys
  obtain ⟨sys', h', ready', keep⟩ := runOps_ready b p ops ready₁ fits
  exact ⟨sys₁, sys', h₁, h', ready', keep⟩

theorem runOps_init_safe_sample :
    Fits ⟨.other, 2, by decide⟩ 3 [.start 1, .stop 1 2, .collect 1 3 3 true, .init 1 ⟨fun _ => 0, fun _ _ => 0⟩,
      .stop 0 0] ∧
    ∃ sys₁ sys', step ⟨.other, 2, by decide⟩ ⟨fun k => .ofNat k, id⟩ ⟨⟨none, none, 0⟩, 0, []⟩
        (.init 3 ⟨fun _ => 0, fun _ _ => 0⟩) = some sys₁ ∧
      runOps ⟨.other, 2, by decide⟩ ⟨fun k => .ofNat k, id⟩ sys₁ [.start 1, .stop 1 2, .collect 1 3 3 true,
        .init 1 ⟨fun _ => 0, fun _ _ => 0⟩, .stop 0 0] = some sys' ∧
      Ready ⟨.other, 2, by decide⟩ ([Op.start 1, .stop 1 2, .collect 1 3 3 true,
        .init 1 ⟨fun _ => 0, fun _ _ => 0⟩, .stop 0 0].foldl Op.entries 3) sys'.st ∧
      ((∀ op ∈ [Op.start 1, .stop 1 2, .collect 1 3 3 true, .init 1 ⟨fun _ => 0, fun _ _ => 0⟩, .stop 0 0],
        op.isInit = false) → sys'.st.pfdCorrection = sys₁.st.pfdCorrection) :=
  ⟨by decide, runOps_init_safe _ _ _ 3 _ _ (by decide)⟩

end Run

section Frame

variable (b : Build) (p : Platform)

theorem u32_toNat_ne {s s' : UInt32} (h : s' ≠ s) : s'.toNat ≠ s.toNat := fun e => h (UInt32.toNat.inj e)

/-- What every call of a run keeps, the run keeps. -/
theorem runOps_keeps {α : Type} (allowed : Op → Prop) (f : Sys → α)
    (step_keeps : ∀ {sys sys' op}, allowed op → step b p sys op = some sys' → f sys' = f sys) :
    ∀ (ops : List Op) {sys sys' : Sys}, runOps b p sys ops = some sys' → (∀ op ∈ ops, allowed op) →
      f sys' = f sys
  | [], _, _, h, _ => by rw [runOps, Option.some.injEq] at h; rw [h]
  | op :: ops, _, _, h, all => by
    obtain ⟨sys₁, h₁, h'⟩ := Option.bind_eq_some.mp h
    rw [runOps_keeps allowed f step_keeps ops h' fun o ho => all o (List.mem_cons_of_mem _ ho),
      step_keeps (all op (List.mem_cons_self _ _)) h₁]

variable {s : UInt32} {sys sys' : Sys} {op : Op}

theorem step_isolated (away : op.touches s = false) (h : step b p sys op = some sys') :
    (sys'.st.slot s, sys'.st.start s) = (sys.st.slot s, sys.st.start s) := by
  cases op with
  | init => cases away
  | start s' =>
    obtain ⟨starts, hS, rfl⟩ := pfdiAt_some h
    simp [Store.slot, Store.start, hS, List.getElem?_set_ne (u32_toNat_ne (beq_eq_false_iff_ne.mp away))]
  | stop s' i =>
    obtain ⟨slots, -, -, -, hslots, -, -, -, rfl⟩ := pfdoAt_some h
    simp [Store.slot, Store.start, hslots,
      List.getElem?_set_ne (u32_toNat_ne (beq_eq_false_iff_ne.mp away))]
  | collect s' =>
    obtain ⟨slots, -, hslots, -, rfl⟩ := collectAt_some h
    simp [Store.slot, Store.start, hslots,
      List.getElem?_set_ne (u32_toNat_ne (beq_eq_false_iff_ne.mp away))]

theorem step_keepsStart (keep : op.keepsStart s = true) (h : step b p sys op = some sys') :
    (sys'.st.start s, sys'.st.pfdCorrection) = (sys.st.start s, sys.st.pfdCorrection) := by
  cases op with
  | init => cases keep
  | start s' =>
    obtain ⟨starts, hS, rfl⟩ := pfdiAt_some h
    simp [Store.start, hS, List.getElem?_set_ne (u32_toNat_ne (bne_iff_ne.mp keep))]
  | stop =>
    obtain ⟨-, -, -, -, -, -, -, -, rfl⟩ := pfdoAt_some h
    rfl
  | collect =>
    obtain ⟨-, -, -, -, rfl⟩ := collectAt_some h
    rfl

/-- Calls on other slots never disturb slot `s`: a run whose calls do not name it leaves
`pfd_store[s]` and `_pfd_s[s]` as they were, whatever the calls measure or analyse, and a
report of slot `s` after the run hands back the lines and record it would have handed back
before. -/
theorem runOps_isolated (ops : List Op) (h : runOps b p sys ops = some sys')
    (away : ∀ op ∈ ops, op.touches s = false) :
    sys'.st.slot s = sys.st.slot s ∧ sys'.st.start s = sys.st.start s ∧
      ∀ numVals numPrint hasOut,
        (step b p sys' (.collect s numVals numPrint hasOut)).map (·.out.drop sys'.out.length) =
          (step b p sys (.collect s numVals numPrint hasOut)).map (·.out.drop sys.out.length) := by
  obtain ⟨hslot, hstart⟩ := Prod.mk.inj (runOps_keeps b p _ _ (step_isolated b p) ops h away)
  exact ⟨hslot, hstart, fun _ _ _ => by simp only [step, collectAt_output, hslot]⟩

theorem runOps_isolated_sample :
    runOps ⟨.other, 2, by decide⟩ ⟨fun k => .ofNat (10 * k), id⟩ ⟨⟨some [[4, 0], [0, 0]], some [0, 0], 1⟩, 0, []⟩
        [.start 1, .stop 1 0] = some ⟨⟨some [[4, 0], [9, 0]], some [0, 0], 1⟩, 2, []⟩ ∧
      (∀ op ∈ [Op.start 1, .stop 1 0], op.touches 0 = false) ∧
      (Store.slot ⟨some [[4, 0], [9, 0]], some [0, 0], 1⟩ 0 = Store.slot ⟨some [[4, 0], [0, 0]], some [0, 0], 1⟩ 0 ∧
        Store.start ⟨some [[4, 0], [9, 0]], some [0, 0], 1⟩ 0 = Store.start ⟨some [[4, 0], [0, 0]], some [0, 0], 1⟩ 0 ∧
        ∀ numVals numPrint hasOut,
          (step ⟨.other, 2, by decide⟩ ⟨fun k => .ofNat (10 * k), id⟩ ⟨⟨some [[4, 0], [9, 0]], some [0, 0], 1⟩, 2, []⟩
            (.collect 0 numVals numPrint hasOut)).map (·.out.drop 0) =
          (step ⟨.other, 2, by decide⟩ ⟨fun k => .ofNat (10 * k), id⟩ ⟨⟨some [[4, 0], [0, 0]], some [0, 0], 1⟩, 0, []⟩
            (.collect 0 numVals numPrint hasOut)).map (·.out.drop 0)) :=
  ⟨rfl, by decide, runOps_isolated _ _ _ (show runOps ⟨.other, 2, by decide⟩ ⟨fun k => .ofNat (10 * k), id⟩
    ⟨⟨some [[4, 0], [0, 0]], some [0, 0], 1⟩, 0, []⟩ [.start 1, .stop 1 0] =
      some ⟨⟨some [[4, 0], [9, 0]], some [0, 0], 1⟩, 2, []⟩ from rfl) (by decide)⟩

theorem foldl_entries (n : UInt32) :
    ∀ ops : List Op, (∀ op ∈ ops, op.isInit = false) → ops.foldl Op.entries n = n
  | [], _ => rfl
  | .init _ _ :: _, h => nomatch h _ (List.mem_cons_self _ _)
  | .start _ :: ops, h | .stop _ _ :: ops, h | .collect _ _ _ _ :: ops, h =>
    foldl_entries n ops fun o ho => h o (List.mem_cons_of_mem _ ho)

/-- `PFDO(s, i)` records the ticks from its `PFDI(s)` to it, less `pfd_correction`: on a ready
store, whatever calls run between the two (measurements of other slots, other entries of slot
`s`, reports), as long as none is `pfd_store_init` or another `PFDI(s)` and their indices are
in range, the run returns and entry `i` of slot `s` holds the reading of `PFDO` less that of
`PFDI` less the correction. -/
theorem pfdo_measures_interval {n s i : UInt32} {ops : List Op} (ready : Ready b n sys.st)
    (hs : s.toNat < b.numStores) (hi : i.toNat < n.toNat) (fits : Fits b n ops)
    (keep : ∀ op ∈ ops, op.keepsStart s = true) :
    ∃ mid sys', runOps b p sys (.start s :: ops) = some mid ∧ step b p mid (.stop s i) = some sys' ∧
      sys'.st.entry s i = some (p.getticks mid.clock - p.getticks sys.clock - sys.st.pfdCorrection) := by
  obtain ⟨-, starts, -, -, -, hS, -, -, -, hlt⟩ := ready.lookup hs
  let sys₁ : Sys :=
    ⟨{ sys.st with pfdS := some (starts.set s.toNat (p.getticks sys.clock)) }, sys.clock + 1, sys.out⟩
  have h₁ : step b p sys (.start s) = some sys₁ := pfdiAt_of hS hlt
  have ready₁ : Ready b n sys₁.st := ready.setStart hS _ _
  have noInit : ∀ op ∈ ops, op.isInit = false := fun op hop => by
    have := keep op hop
    cases op <;> first | rfl | cases this
  obtain ⟨mid, hmid, readyMid, -⟩ := runOps_ready b p ops ready₁ fits
  rw [foldl_entries n ops noInit] at readyMid
  have kept := Prod.mk.inj (runOps_keeps b p _ _ (step_keepsStart b p) ops hmid keep)
  obtain ⟨slots, starts', slot, start, hslots, hS', hslot, hstart, hlen, -⟩ := readyMid.lookup hs
  have hstart' : start = p.getticks sys.clock := by
    simpa [Store.start, hS', hstart, List.getElem?_set_self hlt] using kept.1
  refine ⟨mid, _, by rw [runOps, h₁]; exact hmid,
    pfdoAt_of hslots hS' hslot hstart (hlen ▸ hi), ?_⟩
  simp [Store.entry, Store.slot, hslots, hslot, List.getElem?_set_self (List.getElem?_eq_some_iff.mp hslot).1,
    hlen ▸ hi, hstart', kept.2]

theorem pfdo_measures_interval_sample :
    Ready ⟨.other, 2, by decide⟩ 2 ⟨some [[0, 0], [0, 0]], some [0, 0], 1⟩ ∧
      ∃ mid sys', runOps ⟨.other, 2, by decide⟩ ⟨fun k => .ofNat (10 * k), id⟩
          ⟨⟨some [[0, 0], [0, 0]], some [0, 0], 1⟩, 0, []⟩ [.start 0, .start 1, .stop 1 0, .collect 1 2 2 false] = some mid ∧
        step ⟨.other, 2, by decide⟩ ⟨fun k => .ofNat (10 * k), id⟩ mid (.stop 0 1) = some sys' ∧
        sys'.st.entry 0 1 = some (.ofNat (10 * mid.clock) - .ofNat (10 * 0) - 1) := by
  have ready : Ready ⟨.other, 2, by decide⟩ 2 ⟨some [[0, 0], [0, 0]], some [0, 0], 1⟩ :=
    ⟨⟨_, rfl, rfl, by decide⟩, ⟨_, rfl, rfl⟩, by decide⟩
  exact ⟨ready, pfdo_measures_interval _ _ ready (by decide) (by decide) (by decide) (by decide)⟩

end Frame

section Overhead

variable (p : Platform) {n : UInt32} {d : UInt64}

theorem sample_replicate {k i : Nat} (h : i < k) : sample (List.replicate k d) i = d.toNat := by
  rw [sample, List.getD_eq_getElem?_getD, List.getElem?_replicate, if_pos h, Option.getD_some]

theorem roundRecord_replicate (pos : 0 < n.toNat) (hd : 1 ≤ d.toNat) (hd' : d.toNat ≤ 1500)
    (root : p.sqrt 0 = 0) :
    (roundRecord p n (List.replicate n.toNat d)).avg = .fin d.toNat ∧
      stdPp (roundRecord p n (List.replicate n.toNat d)) = 0 := by
  set vals := List.replicate n.toNat d
  have hlen : vals.length = n.toNat := List.length_replicate _ _
  have bound : vals.length < 2 ^ 32 := hlen ▸ u32_toNat_lt n
  have hclip : vals.map clip = vals := by
    rw [List.map_replicate, clip, if_neg (by rw [outOfRange_iff]; omega)]
  have hsample : ∀ i ∈ List.range vals.length, sample (vals.map clip) i = d.toNat := fun i hi => by
    rw [hclip, sample_replicate (hlen ▸ List.mem_range.mp hi)]
  have hpos : (vals.length : ℚ) ≠ 0 := by rw [hlen]; exact_mod_cast pos.ne'
  have havg := average_clip vals bound (List.ne_nil_of_length_pos (hlen ▸ pos))
  rw [meanOver, List.map_congr_left hsample, List.map_const', List.sum_replicate, nsmul_eq_mul,
    List.length_range, mul_div_cancel_left₀ _ hpos] at havg
  have hstd := passOne_sumStdev (vals.map clip) vals.length d.toNat
  have hsq : (List.range vals.length).map (fun i => (sample (vals.map clip) i - d.toNat) ^ 2) =
      (List.range vals.length).map fun _ => 0 :=
    List.map_congr_left fun i hi => by rw [hsample i hi, sub_self, sq, mul_zero]
  rw [hsq, List.map_const', List.sum_replicate, nsmul_zero] at hstd
  rw [roundRecord, ← hlen, analyse_eq_summary p.sqrt vals bound]
  have hne : (d.toNat : ℚ) ≠ 0 := by exact_mod_cast (show d.toNat ≠ 0 by omega)
  simp only [summary, havg, hstd, stdPp, Dbl.ofNat_eq, Dbl.fin_div_fin hpos, zero_div,
    Dbl.sqrt_fin_of_nonneg _ le_rfl, root, Dbl.isFinite_fin, Dbl.zero_eq, Dbl.eq_fin_fin, hne,
    decide_False, Bool.not_false, Bool.and_true, if_true, Dbl.fin_sub_fin, sub_zero,
    Dbl.fin_div_fin hne, div_self hne, Dbl.one_eq, sub_self, Dbl.lit_eq, Dbl.fin_mul_fin, mul_zero,
    true_and]

theorem roundSamples_const (overhead : ∀ j, p.getticks (2 * j + 1) - p.getticks (2 * j) = d) (k : Nat) :
    roundSamples p.getticks 0 k 0 = List.replicate k d := by
  have hd : ∀ i ∈ List.range k, p.getticks (0 + 2 * i + 1) - p.getticks (0 + 2 * i) - 0 = d :=
    fun i _ => by rw [Nat.zero_add, overhead, u64_sub_zero]
  rw [roundSamples, List.map_congr_left hd, List.map_const', List.length_range]

/-- On a counter whose readings come in pairs `d` apart, `1 ≤ d ≤ 1500`, the first round of
`pfd_store_init` measures `d` in every entry and passes the gate: the correction is `d`, the
call takes `2 num_entries` readings and prints only its final line. -/
theorem pfdStoreInit_constant (b : Build) (fresh : Fresh) (st : Store) (pos : 0 < n.toNat)
    (hd : 1 ≤ d.toNat) (hd' : d.toNat ≤ 1500) (root : p.sqrt 0 = 0)
    (overhead : ∀ j, p.getticks (2 * j + 1) - p.getticks (2 * j) = d) :
    ∃ o, pfdStoreInit b p fresh st n = .ok o ∧ o.store.pfdCorrection = d ∧ o.clock = 2 * n.toNat ∧
      o.out = [.setCorrection d 0] ∧ o.rounds = [List.replicate n.toNat d] := by
  let c₀ : Calib := ⟨(List.range n.toNat).map (fresh.slot 0), fresh.pfdS 0, 0, 0, []⟩
  obtain ⟨hsamples, -, hclock, hout, -, hrec⟩ := calibRound_spec p n c₀ (by simp [c₀])
  rw [roundSamples_const p overhead] at hsamples
  obtain ⟨havg, hpp⟩ := roundRecord_replicate p pos hd hd' root
  have pass : ¬ pfdCorrectionConf < 0 := by
    simp only [pfdCorrectionConf, Dbl.lit_eq, Dbl.zero_eq, Dbl.fin_lt_fin]
    norm_num
  have hch : initChoice b p fresh st n =
      ⟨(calibRound p n c₀).2.1, .fin d.toNat, 0, [List.replicate n.toNat d]⟩ := by
    rw [initChoice, initCalib_eq, retryLoop_eq]
    simp only [hrec, hsamples, hpp, havg, pass, if_false, List.nil_append]
  obtain ⟨c, hsettle, -, -, -, hexact, -⟩ :=
    settle_spec p.getticks _ (retryOutcome_avg (initChoice_spec b p fresh st n))
  rw [hch] at hexact
  obtain ⟨hcorr, hc, hcout⟩ := hexact d.toNat rfl (by exact_mod_cast hd)
  rw [floor_cast_add_half] at hcorr
  have hcd : c.correction = d := UInt64.toNat.inj hcorr
  refine ⟨_, pfdStoreInit_of_settle hsettle, hcd, (hc.trans hclock).trans (Nat.zero_add _), ?_, by rw [hch]⟩
  rw [hcout, hout, hcd]
  rfl

end Overhead

/-- Calibration cancels a constant overhead: when every pair of readings of the cycle counter
from the call of `pfd_store_init` on is `d` cycles apart, `1 ≤ d ≤ 1500`, and `sqrt(0) = 0`,
the call's one round measures `d` in every entry, has `std_pp = 0` and passes the gate, and
the call sets `pfd_correction = d` after `2 num_entries` readings; a following `PFDI(s)`,
`PFDO(s, i)` around nothing records `0` in entry `i` of slot `s`. -/
theorem calibration_cancels_overhead (b : Build) (p : Platform) (sys : Sys) (fresh : Fresh)
    {n s i : UInt32} {d : UInt64} (hs : s.toNat < b.numStores) (hi : i.toNat < n.toNat)
    (hd : 1 ≤ d.toNat) (hd' : d.toNat ≤ 1500) (root : p.sqrt 0 = 0)
    (overhead : ∀ j, p.getticks (sys.clock + 2 * j + 1) - p.getticks (sys.clock + 2 * j) = d) :
    ∃ o sys', pfdStoreInit b (p.after sys.clock) fresh sys.st n = .ok o ∧
      o.rounds = [List.replicate n.toNat d] ∧
      stdPp (roundRecord (p.after sys.clock) n (List.replicate n.toNat d)) = 0 ∧
      ¬ FailsGate (p.after sys.clock) n (List.replicate n.toNat d) ∧ o.clock = 2 * n.toNat ∧
      runOps b p sys [.init n fresh, .start s, .stop s i] = some sys' ∧
      sys'.st.pfdCorrection = d ∧ sys'.clock = sys.clock + 2 * n.toNat + 2 ∧ sys'.st.entry s i = some 0 := by
  obtain ⟨o, hinit, hcorr, hclock, -, hrounds⟩ :=
    pfdStoreInit_constant (p.after sys.clock) (n := n) b fresh sys.st (by omega) hd hd' root overhead
  have hpp := (roundRecord_replicate (p.after sys.clock) (n := n) (by omega) hd hd' root).2
  have pass : ¬ FailsGate (p.after sys.clock) n (List.replicate n.toNat d) := by
    rw [FailsGate, hpp, pfdCorrectionConf, Dbl.lit_eq, Dbl.zero_eq, Dbl.fin_lt_fin]
    norm_num
  obtain ⟨o', hinit', ready⟩ := pfdStoreInit_ready b (p.after sys.clock) fresh sys.st n
  rw [hinit, Except.ok.injEq] at hinit'
  subst hinit'
  obtain ⟨slots, starts, slot, -, hslots, hS, hslot, -, hlen, hlt⟩ := ready.lookup hs
  let sys₁ : Sys := ⟨o.store, sys.clock + o.clock, sys.out ++ o.out.map .msg⟩
  let sys₂ : Sys :=
    ⟨{ sys₁.st with pfdS := some (starts.set s.toNat (p.getticks sys₁.clock)) }, sys₁.clock + 1, sys₁.out⟩
  have h₁ : step b p sys (.init n fresh) = some sys₁ := initAt_of hinit
  have h₂ : step b p sys₁ (.start s) = some sys₂ := pfdiAt_of hS hlt
  have h₃ : pfdoAt p.getticks s i sys₂ = _ :=
    pfdoAt_of hslots rfl hslot (List.getElem?_set_self hlt) (hlen ▸ hi)
  refine ⟨o, _, hinit, hrounds, hpp, pass, hclock,
    by simp only [runOps, h₁, h₂, Option.some_bind, Option.bind_some]; exact h₃, hcorr,
    by show sys.clock + o.clock + 1 + 1 = sys.clock + 2 * n.toNat + 2; omega, ?_⟩
  have hpair : p.getticks (sys₁.clock + 1) - p.getticks sys₁.clock = d := by
    show p.getticks (sys.clock + o.clock + 1) - p.getticks (sys.clock + o.clock) = d
    rw [hclock]
    exact overhead n.toNat
  simp [Store.entry, Store.slot, List.getElem?_set_self (List.getElem?_eq_some_iff.mp hslot).1,
    List.getElem?_set_self (hlen ▸ hi : i.toNat < slot.length), hpair, sys₂, hcorr]

theorem calibration_cancels_overhead_sample :
    (∀ j, UInt64.ofNat (7 * ((0 + 2 * j + 1) % 2)) - UInt64.ofNat (7 * ((0 + 2 * j) % 2)) = 7) ∧
      ∃ o sys', pfdStoreInit ⟨.other, 1, by decide⟩ (Platform.after ⟨fun k => .ofNat (7 * (k % 2)), id⟩ 0)
          ⟨fun _ => 0, fun _ _ => 0⟩ ⟨none, none, 0⟩ 4 = .ok o ∧
        o.rounds = [List.replicate (4 : UInt32).toNat 7] ∧
        stdPp (roundRecord (Platform.after ⟨fun k => .ofNat (7 * (k % 2)), id⟩ 0) 4
          (List.replicate (4 : UInt32).toNat 7)) = 0 ∧
        ¬ FailsGate (Platform.after ⟨fun k => .ofNat (7 * (k % 2)), id⟩ 0) 4 (List.replicate (4 : UInt32).toNat 7) ∧
        o.clock = 2 * (4 : UInt32).toNat ∧
        runOps ⟨.other, 1, by decide⟩ ⟨fun k => .ofNat (7 * (k % 2)), id⟩ ⟨⟨none, none, 0⟩, 0, []⟩
          [.init 4 ⟨fun _ => 0, fun _ _ => 0⟩, .start 0, .stop 0 3] = some sys' ∧
        sys'.st.pfdCorrection = 7 ∧ sys'.clock = 0 + 2 * (4 : UInt32).toNat + 2 ∧
        sys'.st.entry 0 3 = some 0 := by
  have overhead : ∀ j, UInt64.ofNat (7 * ((0 + 2 * j + 1) % 2)) - UInt64.ofNat (7 * ((0 + 2 * j) % 2)) = 7 :=
    fun j => by rw [show (0 + 2 * j + 1) % 2 = 1 by omega, show (0 + 2 * j) % 2 = 0 by omega]; rfl
  exact ⟨overhead, calibration_cancels_overhead ⟨.other, 1, by decide⟩ ⟨fun k => .ofNat (7 * (k % 2)), id⟩
    ⟨⟨none, none, 0⟩, 0, []⟩ ⟨fun _ => 0, fun _ _ => 0⟩ (n := 4) (s := 0) (i := 3) (d := 7)
    (by decide) (by decide) (by decide) (by decide) rfl overhead⟩

end PfdProfiler
