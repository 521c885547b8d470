/-
Module: MiningPool.Proofs.Effect.Backoff
Purpose: how long the waits between the attempts of a call are.
Main exports: Lengthens, Draw.lengthens_jitter, Retry.delay_succ, Retry.waits_of_returns
-/
import MiningPool.Proofs.Effect.Attempts
import MiningPool.Proofs.Number.Rounding
import MiningPool.Settings.Meaning

/-!
The waits double until the greatest delay is reached, and each is lengthened by less than a tenth, which is
worked out in floating-point arithmetic. Only the first wait is never compared with the greatest delay.
Delays from settings are never too long to be doubled.
-/

namespace MiningPool

/-- A wait is longer than planned by whole milliseconds, and by less than a tenth. Plans of 2⁵³ milliseconds
and more are not exact as floating-point numbers; they keep to the tenth up to a part of 2⁻⁵¹. -/
def Lengthens (planned wait : Duration) : Prop :=
  ∃ millis, wait = planned + Duration.ofMillis millis ∧
    (planned.millis < 2 ^ (53 : Nat) → millis = 0 ∨ 10 * millis < planned.millis) ∧
    10 * millis ≤ planned.millis + planned.millis / 2 ^ (51 : Nat)

namespace Draw

open Binary64

variable (draw : Draw) {duration : Duration} {millis : Binary64}

theorem toRat_value_le : draw.value.toRat ≤ 1 - 1 / 2 ^ (53 : Nat) := by
  have less : (draw.units : ℚ) + 1 ≤ 2 ^ (53 : Nat) := by exact_mod_cast draw.units_lt
  rw [toRat, value, zpow_neg]
  norm_num at less ⊢
  linarith

/-- The product is made of three roundings. -/
theorem exists_rounds_of_product? (product : draw.product? duration = some millis) :
    ∃ whole part : ℚ, Rounds duration.millis whole ∧ Rounds (whole * tenth.toRat) part ∧
      Rounds (part * draw.value.toRat) millis.toRat ∧ 0 ≤ whole ∧ 0 ≤ part := by
  simp only [product?, Option.bind_eq_bind, Option.bind_eq_some_iff] at product
  obtain ⟨whole, isWhole, part, isPart, isMillis⟩ := product
  exact ⟨whole.toRat, part.toRat, rounds_of_ofNat? isWhole, rounds_of_mul? isPart,
    rounds_of_mul? isMillis, whole.toRat_nonneg, part.toRat_nonneg⟩

/-- Of milliseconds that the arithmetic represents exactly the tenth is not reached: no rounding passes the
next whole number above the tenth, and the last one stays below it. -/
theorem lt_of_product? (product : draw.product? duration = some millis)
    (short : duration.millis < 2 ^ (53 : Nat)) :
    millis.floor = 0 ∨ 10 * millis.floor < duration.millis := by
  obtain ⟨whole, part, toWhole, toPart, toMillis, _, partNonneg⟩ :=
    draw.exists_rounds_of_product? product
  generalize duration.millis = n at toWhole short ⊢
  have enough : n ≤ 10 * ((n + 9) / 10) ∧ 10 * ((n + 9) / 10) ≤ n + 9 := by omega
  generalize (n + 9) / 10 = ceiling at enough
  have enough' : (n : ℚ) ≤ 10 * ceiling := by exact_mod_cast enough.1
  have wholeLe : whole ≤ n := toWhole.le_of_le short (by linarith)
  have partLe : part ≤ ceiling := by
    refine toPart.le_of_le (by omega) ?_
    rw [toRat_tenth]
    linarith
  have product := mul_le_mul partLe draw.toRat_value_le draw.value.toRat_nonneg (Nat.cast_nonneg _)
  rcases Nat.eq_zero_or_pos ceiling with none | positive
  · left
    have floorLe := millis.floor_le_toRat.trans (toMillis.le_of_le (n := ceiling) (by omega) (by linarith))
    have floorLe' : millis.floor ≤ ceiling := by exact_mod_cast floorLe
    omega
  · right
    have floorLt := millis.floor_le_toRat.trans_lt (toMillis.lt_of_le positive (by omega) product)
    have floorLt' : millis.floor < ceiling := by exact_mod_cast floorLt
    omega

/-- Three roundings together add less than four units of 2⁻⁵³. -/
theorem le_of_product? (product : draw.product? duration = some millis) :
    10 * millis.floor ≤ duration.millis + duration.millis / 2 ^ (51 : Nat) := by
  rcases Nat.lt_or_ge duration.millis (2 ^ (53 : Nat)) with short | long
  · have less := draw.lt_of_product? product short
    omega
  obtain ⟨whole, part, toWhole, toPart, toMillis, wholeNonneg, partNonneg⟩ :=
    draw.exists_rounds_of_product? product
  generalize duration.millis = n at toWhole long ⊢
  have long' : (2 : ℚ) ^ (53 : Nat) ≤ n := by exact_mod_cast long
  have wholeLe := toWhole.le_add (Nat.cast_nonneg n)
  have partLe := toPart.le_add (mul_nonneg wholeNonneg tenth.toRat_nonneg)
  have millisLe := toMillis.le_add (mul_nonneg partNonneg draw.value.toRat_nonneg)
  have product := mul_le_mul_of_nonneg_left draw.toRat_value_le partNonneg
  have floorLe := millis.floor_le_toRat
  rw [toRat_tenth] at partLe
  have bound : (10 : ℚ) * millis.floor * 2 ^ (51 : Nat) ≤ n * 2 ^ (51 : Nat) + n := by linarith
  have bound' : 10 * millis.floor * 2 ^ (51 : Nat) ≤ n * 2 ^ (51 : Nat) + n := by exact_mod_cast bound
  omega

/-- What is drawn for a duration lengthens it by less than a tenth. -/
theorem lengthens_jitter (duration : Duration) : Lengthens duration (duration + draw.jitter duration) := by
  rw [jitter]
  cases product : draw.product? duration with
  | none => exact ⟨0, rfl, fun _ => .inl rfl, by omega⟩
  | some millis =>
      refine ⟨_, rfl, fun short => ?_, ?_⟩
      · have less := draw.lt_of_product? product short
        omega
      · have bound := draw.le_of_product? product
        omega

end Draw

namespace Retry

section

variable {policy : RetryPolicy}

/-- From the second wait on the doubled delays are cut to the greatest one. -/
theorem delay_succ (attempt : Nat) :
    delay policy (attempt + 1) = min (policy.baseDelay * 2 ^ (attempt + 1)) policy.maxDelay := by
  have cut : ∀ once greatest : Nat, min (min once greatest * 2) greatest = min (once * 2) greatest := by
    omega
  induction attempt with
  | zero => rfl
  | succ attempt ih => rw [delay, ih, cut, Nat.mul_assoc, ← Nat.pow_succ]

/-- Only the first wait may be planned longer than the greatest delay. -/
theorem delay_eq {attempt : Nat} (usual : 0 < attempt ∨ policy.baseDelay ≤ policy.maxDelay) :
    delay policy attempt = min (policy.baseDelay * 2 ^ attempt) policy.maxDelay := by
  cases attempt with
  | zero =>
      have shorter := usual.resolve_left (Nat.lt_irrefl 0)
      rw [delay, Nat.pow_zero, Nat.mul_one, Nat.min_eq_left shorter]
  | succ attempt => exact delay_succ attempt

end

/-- Between any two calls there is one wait. It is planned to take the base delay, doubled for every wait
before it, and at most the greatest delay, except that the first wait is planned to take the base delay even
where this is longer than the greatest one. -/
theorem waits_of_returns {I : Interface} {attempts : Nat} {baseDelay maxDelay : Duration}
    {query : I.Query} {script : Script I} {outcome : Except Error (I.Answer query)} {journal : Journal I}
    (returns : Returns (.create attempts baseDelay maxDelay) query script outcome journal) :
    journal.calls.length = journal.waits.length + 1 ∧
      ∀ number wait, journal.waits[number]? = some wait →
        ∃ planned, Lengthens planned wait ∧ (number = 0 → planned = baseDelay) ∧
          (0 < number ∨ baseDelay ≤ maxDelay → planned = min (baseDelay * 2 ^ number) maxDelay) := by
  obtain ⟨last, least⟩ := exists_isLeast attempts query script
  obtain ⟨-, -, rfl⟩ := (returns_iff (isLeast_last least) outcome journal).1 returns
  refine ⟨by simp [called, before], fun number wait waited => ?_⟩
  obtain ⟨counted, rfl⟩ := List.getElem?_eq_some_iff.1 waited
  simp only [called, before, List.getElem_map, List.getElem_range]
  refine ⟨_, (script.draw number).lengthens_jitter _, ?_,
    @delay_eq (.create attempts baseDelay maxDelay) number⟩
  rintro rfl
  rfl

/-- Delays that are read from settings are whole milliseconds of 64 bits, and their doubles fit. -/
theorem fits_retryPolicy {settings : Settings} (base : (settings .retryDelay : Nat) < 2 ^ (64 : Nat))
    (greatest : (settings .maxRetryDelay : Nat) < 2 ^ (64 : Nat)) (attempt : Nat) :
    Fits settings.retryPolicy attempt := by
  have room (n : Nat) (small : n < 2 ^ (64 : Nat)) :
      n * 1000000 * 2 ≤ 2 ^ (64 : Nat) * 1000000000 - 1 := by omega
  exact fits_of_le (room _ base) (room _ greatest) attempt

/-- Calls are made at most twice, with a base delay that is longer than the greatest delay. -/
def steep : Settings :=
  .ofGiven (((GivenSettings.empty.set .maxRetries (2 : Nat)).set .retryDelay (8 : Nat)).set .maxRetryDelay
    (4 : Nat))

/-- It fails once in a way that may pass, and then gives an answer. -/
def secondTime : Script operation :=
  ⟨fun _ call => if call < 1 then .error (.reported .node "connection reset") else .ok (7 : Nat),
    fun _ => Draw.zero⟩

/-- The settings pass the check, and the first wait takes twice as long as the greatest delay. -/
theorem waits_of_returns_steep :
    steep.check = .ok () ∧ steep.retryPolicy.maxDelay = Duration.ofMillis 4 ∧
      ∃ journal, Returns steep.retryPolicy () secondTime (.ok (7 : Nat)) journal ∧
        journal.waits = [Duration.ofMillis 8] := by
  have checked : steep.check = .ok () := by
    have position : steep.checkAuditPosition = .ok () := rfl
    have interval : steep.submitInterval = .ok (Duration.ofSeconds 60) := rfl
    have interface : (IpAddress.parse? steep.rpcInterface).isNone = false := rfl
    rw [Settings.check, position, interval, interface]
    rfl
  have least : IsLeast {attempt | Settled (secondTime.answer () attempt) ∨ attempt + 1 = max 2 1} 1 := by
    refine ⟨.inr rfl, ?_⟩
    rintro attempt (settled | reached)
    · rcases attempt with _ | attempt
      · rcases settled with _ | ⟨_, final⟩
        cases final
      · exact Nat.le_add_left 1 attempt
    · exact Nat.le_of_eq (Nat.succ.inj reached).symm
  have fits : ∀ attempt, Fits steep.retryPolicy attempt := fits_retryPolicy (by decide) (by decide)
  have returns : Returns steep.retryPolicy () secondTime (.ok (7 : Nat)) (called _ _ _ 1) :=
    (returns_iff (isLeast_last least) _ _).2
      ⟨fun earlier _ => fits earlier, rfl, rfl⟩
  obtain ⟨planned, ⟨millis, lengthened, short, _⟩, first, _⟩ :=
    (waits_of_returns returns).2 0 _ rfl
  rw [first rfl] at lengthened short
  have none : millis = 0 := by
    have less : millis = 0 ∨ 10 * millis < 8 := short (by decide)
    omega
  rw [none] at lengthened
  exact ⟨checked, rfl, _, returns, congrArg (fun wait => [wait]) lengthened⟩

end Retry

end MiningPool
