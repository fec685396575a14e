import Hxnu.Lib.Word

/-!
# The boot clock

The kernel's clock reads the time-stamp counter and turns the cycles since boot into seconds and
nanoseconds with two truncating divisions, a cast from 128 to 32 bits and two saturating steps
(`time.rs`). The uptime is nevertheless one floor division of the elapsed cycles, cut off at the
largest word.

## Main definitions

* `Clock`, `Clock.timestamp`, `Clock.uptimeNanoseconds`.

## Main results

* `uptimeNanoseconds_exact`: no bit is lost, and the uptime never decreases.
-/

namespace Hxnu.Time

open Word

/-- `BootTimestamp`. -/
structure BootTimestamp where
  seconds : ℕ
  nanoseconds : ℕ
  deriving DecidableEq, Repr

/-- The statics `CLOCK_INITIALIZED`, `CLOCK_START_TSC` and `CLOCK_TSC_HZ`. -/
structure Clock where
  initialized : Bool
  startTsc : ℕ
  tscHz : ℕ
  deriving DecidableEq, Repr

namespace Clock

variable (clock : Clock) (tsc : ℕ)

/-- The cycles since boot when the counter reads `tsc`. -/
def elapsedCycles : ℕ := wrapSub tsc clock.startTsc

/-- `timestamp` when the counter reads `tsc`. -/
def timestamp : BootTimestamp :=
  if clock.initialized = false then ⟨0, 0⟩
  else
    let tscHz := max clock.tscHz 1
    let seconds := clock.elapsedCycles tsc / tscHz
    let cycleRemainder := clock.elapsedCycles tsc % tscHz
    -- The product is a `u128`, the quotient is cast to a `u32`.
    ⟨seconds, cycleRemainder * 10 ^ 9 % 2 ^ 128 / tscHz % 2 ^ 32⟩

/-- `uptime_nanoseconds`. -/
def uptimeNanoseconds : ℕ :=
  satAdd (satMul (clock.timestamp tsc).seconds (10 ^ 9)) (clock.timestamp tsc).nanoseconds

theorem elapsedCycles_lt : clock.elapsedCycles tsc < 2 ^ 64 :=
  Nat.mod_lt _ (by norm_num)

theorem satAdd_satMul (a b c : ℕ) : satAdd (satMul a b) c = min (2 ^ 64 - 1) (a * b + c) := by
  rw [satAdd, satMul, maxValue]
  generalize a * b = product
  omega

/-- The remainder of a division, in units of `1 / u`, is below `u`. -/
theorem mod_mul_div_lt (hhz : 1 ≤ hz) (hu : 1 ≤ u) : e % hz * u / hz < u :=
  (Nat.div_lt_iff_lt_mul hhz).mpr <| by
    rw [mul_comm u]
    exact Nat.mul_lt_mul_of_pos_right (Nat.mod_lt _ hhz) hu

/-- Whole units and the remainder's units are the units of the whole. -/
theorem div_mul_add_mod_mul_div (hhz : 1 ≤ hz) : e / hz * u + e % hz * u / hz = e * u / hz := by
  rw [← Nat.mul_add_div hhz, ← mul_assoc, ← add_mul, Nat.div_add_mod]

variable {clock tsc}

theorem timestamp_eq (hinit : clock.initialized = true) (hhz : 1 ≤ clock.tscHz) :
    clock.timestamp tsc = ⟨clock.elapsedCycles tsc / clock.tscHz,
      clock.elapsedCycles tsc % clock.tscHz * 10 ^ 9 / clock.tscHz⟩ := by
  have hle := Nat.mod_le (clock.elapsedCycles tsc) clock.tscHz
  have hlt := clock.elapsedCycles_lt tsc
  have hnanos : clock.elapsedCycles tsc % clock.tscHz * 10 ^ 9 / clock.tscHz < 10 ^ 9 :=
    mod_mul_div_lt hhz (by norm_num)
  rw [timestamp, if_neg (by simp [hinit]), max_eq_left hhz]
  simp only [BootTimestamp.mk.injEq, true_and]
  rw [Nat.mod_eq_of_lt (b := 2 ^ 128) (by omega), Nat.mod_eq_of_lt (by omega)]

theorem uptimeNanoseconds_eq (hinit : clock.initialized = true) (hhz : 1 ≤ clock.tscHz) :
    clock.uptimeNanoseconds tsc =
      min (2 ^ 64 - 1) (clock.elapsedCycles tsc * 10 ^ 9 / clock.tscHz) := by
  rw [uptimeNanoseconds, timestamp_eq hinit hhz, satAdd_satMul, div_mul_add_mod_mul_div hhz]

end Clock

/-- **The uptime is one floor division.** On a running clock the timestamp splits the elapsed
cycles exactly: the nanoseconds are below a second, the 128-bit product and the cast to 32 bits
lose nothing, the uptime is the elapsed cycles in nanoseconds rounded down and cut off at the
largest word, and a larger number of elapsed cycles never has a smaller uptime. -/
theorem uptimeNanoseconds_exact (clock : Clock) (tsc : ℕ) (hinit : clock.initialized = true)
    (hhz : 1 ≤ clock.tscHz) :
    let e := clock.elapsedCycles tsc
    let hz := clock.tscHz
    clock.timestamp tsc = ⟨e / hz, e % hz * 10 ^ 9 / hz⟩ ∧
      (clock.timestamp tsc).nanoseconds < 10 ^ 9 ∧
      e < 2 ^ 64 ∧ e % hz * 10 ^ 9 < 2 ^ 128 ∧ e % hz * 10 ^ 9 / hz < 2 ^ 32 ∧
      clock.uptimeNanoseconds tsc = min (2 ^ 64 - 1) (e * 10 ^ 9 / hz) ∧
      ∀ later, e ≤ clock.elapsedCycles later →
        clock.uptimeNanoseconds tsc ≤ clock.uptimeNanoseconds later := by
  have hle := Nat.mod_le (clock.elapsedCycles tsc) clock.tscHz
  have hlt := clock.elapsedCycles_lt tsc
  have hnanos : clock.elapsedCycles tsc % clock.tscHz * 10 ^ 9 / clock.tscHz < 10 ^ 9 :=
    Clock.mod_mul_div_lt hhz (by norm_num)
  refine ⟨Clock.timestamp_eq hinit hhz, ?_, hlt, by omega, by omega,
    Clock.uptimeNanoseconds_eq hinit hhz, fun later hlater => ?_⟩
  · rwa [Clock.timestamp_eq hinit hhz]
  · rw [Clock.uptimeNanoseconds_eq hinit hhz, Clock.uptimeNanoseconds_eq hinit hhz]
    gcongr

theorem uptimeNanoseconds_exact_half :
    Clock.uptimeNanoseconds ⟨true, 5, 2⟩ 8 = min (2 ^ 64 - 1) (3 * 10 ^ 9 / 2) :=
  (uptimeNanoseconds_exact ⟨true, 5, 2⟩ 8 rfl (by decide)).2.2.2.2.2.1

end Hxnu.Time
