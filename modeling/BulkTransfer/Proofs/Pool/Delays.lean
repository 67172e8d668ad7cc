import Mathlib.Algebra.Order.Ring.Nat
import BulkTransfer.Pool.Config

/-!
# Delays before retries

The delay before a retry is the base delay times a factor, and never more than the cap.  The
factor is a power of two as long as that has 32 bits, and the largest such number from there
on.  A product that is no duration is above every cap, so the cap stands for it rightly.
-/

namespace BulkTransfer

/-!
## Durations
-/

namespace Duration

theorem nanoseconds_shorter (d e : Duration) :
    (d.shorter e).nanoseconds = min d.nanoseconds e.nanoseconds := by
  rw [shorter, Nat.min_def]
  split <;> rfl

theorem times?_eq_some_iff {d product : Duration} {factor : UInt32} :
    d.times? factor = some product ↔ product.nanoseconds = d.nanoseconds * factor.toNat := by
  rw [times?, ofNanoseconds?]
  constructor
  · intro h
    split at h
    · cases h
      rfl
    · cases h
  · intro h
    have hbounded := product.bounded
    rw [h] at hbounded
    rw [dif_pos hbounded]
    cases product
    cases h
    rfl

theorem times?_eq_none_iff {d : Duration} {factor : UInt32} :
    d.times? factor = none ↔ longestDuration < d.nanoseconds * factor.toNat := by
  rw [times?, ofNanoseconds?]
  split
  · rename_i hbounded
    constructor
    · intro h
      cases h
    · exact fun h => absurd hbounded (Nat.not_le.mpr h)
  · rename_i hlong
    exact ⟨fun _ => Nat.not_le.mp hlong, fun _ => rfl⟩

end Duration

namespace PoolConfig

variable {config : PoolConfig} {m n : UInt32}

theorem validate_eq_ok_iff :
    config.validate = .ok () ↔
      config.workers ≠ 0 ∧ config.queueCapacity ≠ 0 ∧
        config.retryBase.nanoseconds ≤ config.retryCap.nanoseconds := by
  by_cases hworkers : config.workers = 0
  · simp [validate, hworkers]
  by_cases hcapacity : config.queueCapacity = 0
  · simp [validate, hworkers, hcapacity]
  simp [validate, hworkers, hcapacity]

/-!
## Factors
-/

theorem toNat_shifted {doublings : Nat} (h : doublings < 32) :
    ((1 : UInt32) <<< UInt32.ofNat doublings).toNat = 2 ^ doublings := by
  have hplaces : (UInt32.ofNat doublings).toNat = doublings :=
    UInt32.toNat_ofNat_of_lt' (show doublings < 2 ^ 32 by omega)
  have hsize : 2 ^ doublings < 2 ^ 32 := Nat.pow_lt_pow_right (by decide) h
  rw [UInt32.toNat_shiftLeft, hplaces, Nat.mod_eq_of_lt h, UInt32.toNat_one, Nat.one_shiftLeft,
    Nat.mod_eq_of_lt hsize]

theorem toNat_backoffFactor (n : UInt32) :
    (backoffFactor n).toNat = min (2 ^ (n.toNat - 1)) (2 ^ 32 - 1) := by
  rw [backoffFactor]
  split
  · rename_i hshort
    have hsize : 2 ^ (n.toNat - 1) < 2 ^ 32 := Nat.pow_lt_pow_right (by decide) hshort
    rw [toNat_shifted hshort, Nat.min_eq_left (Nat.le_sub_one_of_lt hsize)]
  · rename_i hlong
    have hsize : 2 ^ 32 ≤ 2 ^ (n.toNat - 1) :=
      Nat.pow_le_pow_right (by decide) (Nat.not_lt.mp hlong)
    rw [Nat.min_eq_right (Nat.le_trans (Nat.sub_le _ 1) hsize)]
    rfl

theorem one_le_backoffFactor (n : UInt32) : 1 ≤ (backoffFactor n).toNat := by
  rw [toNat_backoffFactor]
  exact Nat.le_min.mpr ⟨Nat.one_le_two_pow, by decide⟩

theorem backoffFactor_le (h : m ≤ n) : (backoffFactor m).toNat ≤ (backoffFactor n).toNat := by
  have hle : m.toNat - 1 ≤ n.toNat - 1 := Nat.sub_le_sub_right (UInt32.le_iff_toNat_le.mp h) 1
  have hpow : 2 ^ (m.toNat - 1) ≤ 2 ^ (n.toNat - 1) := Nat.pow_le_pow_right (by decide) hle
  rw [toNat_backoffFactor, toNat_backoffFactor]
  exact min_le_min_right _ hpow

/-!
## Delays
-/

/-- A delay is the exact product or the cap, whichever is less, also if the product is no
duration. -/
theorem nanoseconds_backoff (config : PoolConfig) (n : UInt32) :
    (config.backoff n).nanoseconds =
      min (config.retryBase.nanoseconds * (backoffFactor n).toNat)
        config.retryCap.nanoseconds := by
  rw [backoff]
  split
  · rename_i product hproduct
    rw [Duration.nanoseconds_shorter, Duration.times?_eq_some_iff.mp hproduct]
  · rename_i hlong
    have hcap := config.retryCap.bounded
    have hproduct := Duration.times?_eq_none_iff.mp hlong
    rw [Nat.min_eq_right (by omega)]

theorem base_le_backoff (h : config.validate = .ok ()) (n : UInt32) :
    config.retryBase.nanoseconds ≤ (config.backoff n).nanoseconds := by
  rw [nanoseconds_backoff]
  exact Nat.le_min.mpr ⟨Nat.le_mul_of_pos_right _ (one_le_backoffFactor n), (validate_eq_ok_iff.mp h).2.2⟩

theorem backoff_le_cap (config : PoolConfig) (n : UInt32) :
    (config.backoff n).nanoseconds ≤ config.retryCap.nanoseconds := by
  rw [nanoseconds_backoff]
  exact Nat.min_le_right _ _

theorem backoff_le_backoff (config : PoolConfig) (h : m ≤ n) :
    (config.backoff m).nanoseconds ≤ (config.backoff n).nanoseconds := by
  have hproduct := Nat.mul_le_mul_left config.retryBase.nanoseconds (backoffFactor_le h)
  rw [nanoseconds_backoff, nanoseconds_backoff]
  exact min_le_min_right _ hproduct

/-- From the 33rd retry on the factor stands still, but then the cap has been reached if that is
no more than the largest factor allows. -/
theorem nanoseconds_backoff_eq_min
    (h : n.toNat ≤ 32 ∨
      config.retryCap.nanoseconds ≤ config.retryBase.nanoseconds * (2 ^ 32 - 1)) :
    (config.backoff n).nanoseconds =
      min (config.retryBase.nanoseconds * 2 ^ (n.toNat - 1)) config.retryCap.nanoseconds := by
  rw [nanoseconds_backoff, toNat_backoffFactor]
  rcases Nat.lt_or_ge (n.toNat - 1) 32 with hshort | hlong
  · have hsize : 2 ^ (n.toNat - 1) < 2 ^ 32 := Nat.pow_lt_pow_right (by decide) hshort
    rw [Nat.min_eq_left (Nat.le_sub_one_of_lt hsize)]
  · have hcap := h.resolve_left (by omega)
    have hsize : 2 ^ 32 - 1 ≤ 2 ^ (n.toNat - 1) :=
      Nat.le_trans (Nat.sub_le _ 1) (Nat.pow_le_pow_right (by decide) hlong)
    have hproduct := Nat.mul_le_mul_left config.retryBase.nanoseconds hsize
    rw [Nat.min_eq_right hsize, Nat.min_eq_right hcap, Nat.min_eq_right (hcap.trans hproduct)]

/-- In a pool that passes its checks every delay is between the base and the cap, a later retry
waits no less than an earlier one, and the delays double up to the cap: always if the cap is
within the largest factor, and otherwise up to the 32nd retry.  Nothing wraps around on the
way: the factor is the power of two or the largest one of 32 bits, and a product of any duration
is exact or too long to be a duration. -/
theorem backoff_doubles (config : PoolConfig) (hvalid : config.validate = .ok ())
    (m n : UInt32) :
    (config.retryBase.nanoseconds ≤ (config.backoff n).nanoseconds ∧
      (config.backoff n).nanoseconds ≤ config.retryCap.nanoseconds) ∧
    (m ≤ n → (config.backoff m).nanoseconds ≤ (config.backoff n).nanoseconds) ∧
    (n.toNat ≤ 32 ∨
        config.retryCap.nanoseconds ≤ config.retryBase.nanoseconds * (2 ^ 32 - 1) →
      (config.backoff n).nanoseconds =
        min (config.retryBase.nanoseconds * 2 ^ (n.toNat - 1)) config.retryCap.nanoseconds) ∧
    (backoffFactor n).toNat = min (2 ^ (n.toNat - 1)) (2 ^ 32 - 1) ∧
    ∀ (d : Duration) (factor : UInt32),
      (∀ product, d.times? factor = some product ↔
        product.nanoseconds = d.nanoseconds * factor.toNat) ∧
      (d.times? factor = none ↔ longestDuration < d.nanoseconds * factor.toNat) :=
  ⟨⟨base_le_backoff hvalid n, backoff_le_cap config n⟩, backoff_le_backoff config,
    nanoseconds_backoff_eq_min, toNat_backoffFactor n,
    fun _ _ => ⟨fun _ => Duration.times?_eq_some_iff, Duration.times?_eq_none_iff⟩⟩

/-- By default the delays double seven times. -/
theorem backoff_doubles_default :
    ({} : PoolConfig).validate = .ok () ∧
      (({} : PoolConfig).backoff 7).nanoseconds = 6400000000 ∧
      (({} : PoolConfig).backoff 64).nanoseconds = 10000000000 ∧
      (({} : PoolConfig).backoff 64).nanoseconds ≤
        (({} : PoolConfig).backoff 4294967295).nanoseconds := by
  have hvalid : ({} : PoolConfig).validate = .ok () := rfl
  rcases backoff_doubles {} hvalid 1 7 with ⟨-, -, hseventh, -⟩
  rcases backoff_doubles {} hvalid 64 4294967295 with ⟨-, hlater, -⟩
  rcases backoff_doubles {} hvalid 1 64 with ⟨-, -, hcapped, -⟩
  exact ⟨hvalid, hseventh (.inl (by decide)), hcapped (.inr (by decide)), hlater (by decide)⟩

end PoolConfig
end BulkTransfer
