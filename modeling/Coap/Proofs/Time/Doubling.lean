import Coap.Proofs.Time.Schedule

/-!
# Doubling

A duration is kept as a number of seconds in 64 bits and the nanoseconds on top of them
(`Duration.Fields`). The two are doubled one by one, with a carry from the nanoseconds to the
seconds, and the seconds are checked to fit. This comes to the same as doubling the number of
nanoseconds: nothing is lost, and a check fails just if the double is longer than any duration. So a
schedule can be stepped until its time-out gets too long, and the step that fails is the first one
after which it would be.

* `Duration.map_fields_double?`: doubling the fields is doubling the duration;
* `Backoff.exists_after?_iff`, `Backoff.exists_next?_eq_none`: how often a schedule can be stepped;
* `Backoff.exists_exhaust?_iff`: when it can be stepped until it is exhausted;
* `Backoff.doubling`: the schedules that start with a first time-out.
-/

namespace Coap

namespace Duration

/-! ### Seconds and nanoseconds -/

/-- The nanoseconds of the longest duration. -/
def longest : Nat := (2 ^ 64 - 1) * nanosPerSecond + 999999999

theorem lt_limit_iff {n : Nat} : n < UInt64.size * nanosPerSecond ↔ n ≤ longest := by
  have hlongest : UInt64.size * nanosPerSecond = longest + 1 := by decide
  rw [hlongest, Nat.lt_succ_iff]

/-- A duration as it is kept: whole seconds, and nanoseconds that do not make up another one. -/
structure Fields where
  seconds : UInt64
  nanos : UInt32
  nanos_lt : nanos.toNat < nanosPerSecond

/-- The fields of a duration. -/
def fields (d : Duration) : Fields where
  seconds := UInt64.ofNat (d.nanoseconds / nanosPerSecond)
  nanos := UInt32.ofNat (d.nanoseconds % nanosPerSecond)
  nanos_lt := by
    rw [UInt32.toNat_ofNat']
    exact Nat.lt_of_le_of_lt (Nat.mod_le _ _) (Nat.mod_lt _ nanosPerSecond_pos)

/-- A number of seconds, if it fits. -/
def secondsOf? (n : Nat) : Option UInt64 :=
  if n < UInt64.size then some (UInt64.ofNat n) else none

theorem secondsOf?_eq_some_iff {n : Nat} {seconds : UInt64} :
    secondsOf? n = some seconds ↔ seconds.toNat = n := by
  rw [secondsOf?]
  split
  · rename_i h
    rw [Option.some.injEq, ← UInt64.toNat_inj, UInt64.toNat_ofNat_of_lt' h, eq_comm]
  · rename_i h
    have hlt := seconds.toNat_lt
    rw [UInt64.size] at h
    simp only [reduceCtorEq, false_iff]
    omega

namespace Fields

/-- The nanoseconds of the duration that has some fields. -/
def nanoseconds (f : Fields) : Nat := f.seconds.toNat * nanosPerSecond + f.nanos.toNat

/-- Twice the nanoseconds of some fields, which may make up another second. -/
def total (f : Fields) : UInt64 := f.nanos.toUInt64 * 2

theorem toNat_total (f : Fields) : f.total.toNat = 2 * f.nanos.toNat := by
  have hlt := f.nanos.toNat_lt
  have htwo : (2 : UInt64).toNat = 2 := rfl
  rw [total, UInt64.toNat_mul, UInt32.toNat_toUInt64, htwo]
  omega

theorem toNat_carry (f : Fields) :
    (f.total / 1000000000).toNat = 2 * f.nanos.toNat / nanosPerSecond := by
  rw [UInt64.toNat_div, toNat_total]
  rfl

theorem toNat_rest (f : Fields) :
    (f.total % 1000000000).toUInt32.toNat = 2 * f.nanos.toNat % nanosPerSecond := by
  have hlt : 2 * f.nanos.toNat % nanosPerSecond < 2 ^ 32 :=
    Nat.lt_trans (Nat.mod_lt _ nanosPerSecond_pos) (by decide)
  have hmod : (f.total % 1000000000).toNat = 2 * f.nanos.toNat % nanosPerSecond := by
    rw [UInt64.toNat_mod, toNat_total]
    rfl
  rw [UInt64.toNat_toUInt32, hmod, Nat.mod_eq_of_lt hlt]

/-- The fields doubled one by one, with a carry. There are none if the seconds do not fit, be it
    before or after the carry. -/
def double? (f : Fields) : Option Fields := do
  let twice ← secondsOf? (2 * f.seconds.toNat)
  let seconds ← secondsOf? (twice.toNat + (f.total / 1000000000).toNat)
  return ⟨seconds, (f.total % 1000000000).toUInt32,
    (toNat_rest f).symm ▸ Nat.mod_lt _ nanosPerSecond_pos⟩

variable {f f' : Fields}

theorem ext_of_nanoseconds (h : f.nanoseconds = f'.nanoseconds) : f = f' := by
  obtain ⟨seconds, nanos, hlt⟩ := f
  obtain ⟨seconds', nanos', hlt'⟩ := f'
  simp only [nanoseconds, nanosPerSecond] at h hlt hlt'
  obtain rfl : seconds = seconds' := UInt64.toNat_inj.1 (by omega)
  obtain rfl : nanos = nanos' := UInt32.toNat_inj.1 (by omega)
  rfl

theorem nanoseconds_lt (f : Fields) : f.nanoseconds < UInt64.size * nanosPerSecond := by
  have hseconds := f.seconds.toNat_lt
  have hnanos := f.nanos_lt
  rw [nanoseconds, UInt64.size]
  simp only [nanosPerSecond] at *
  omega

theorem double?_eq_some : f.double? = some f' ↔
    f'.seconds.toNat = 2 * f.seconds.toNat + 2 * f.nanos.toNat / nanosPerSecond ∧
      f'.nanos.toNat = 2 * f.nanos.toNat % nanosPerSecond := by
  simp only [double?, bind, pure, Option.bind_eq_some_iff, secondsOf?_eq_some_iff, toNat_carry,
    Option.some.injEq]
  constructor
  · rintro ⟨twice, htwice, seconds, hseconds, rfl⟩
    exact ⟨htwice ▸ hseconds, toNat_rest f⟩
  · obtain ⟨seconds, nanos, _⟩ := f'
    rintro ⟨hseconds, hnanos⟩
    -- If the seconds fit with the carry, then they do without it.
    have hlt : 2 * f.seconds.toNat < UInt64.size :=
      Nat.lt_of_le_of_lt (Nat.le_add_right _ _) (hseconds ▸ seconds.toNat_lt)
    have htwice := UInt64.toNat_ofNat_of_lt' hlt
    obtain rfl : (f.total % 1000000000).toUInt32 = nanos :=
      UInt32.toNat_inj.1 ((toNat_rest f).trans hnanos.symm)
    exact ⟨_, htwice, seconds, htwice.symm ▸ hseconds, rfl⟩

/-- With the carry nothing is lost. -/
theorem double?_eq_some_iff : f.double? = some f' ↔ f'.nanoseconds = 2 * f.nanoseconds := by
  have hnanos := f.nanos_lt
  have hnanos' := f'.nanos_lt
  rw [double?_eq_some, nanoseconds, nanoseconds]
  simp only [nanosPerSecond] at *
  omega

end Fields

variable {d : Duration}

theorem nanoseconds_fields (d : Duration) : d.fields.nanoseconds = d.nanoseconds := by
  have hlt := d.lt_limit
  have hseconds : d.nanoseconds / nanosPerSecond < UInt64.size :=
    Nat.div_lt_of_lt_mul (Nat.mul_comm _ _ ▸ hlt)
  have hnanos : d.nanoseconds % nanosPerSecond < UInt32.size :=
    Nat.lt_trans (Nat.mod_lt _ nanosPerSecond_pos) (by decide)
  rw [Fields.nanoseconds, fields, UInt64.toNat_ofNat_of_lt' hseconds,
    UInt32.toNat_ofNat_of_lt' hnanos, Nat.div_add_mod']

/-- Doubling the fields is doubling the duration. -/
theorem map_fields_double? (d : Duration) : d.double?.map fields = d.fields.double? := by
  refine Option.ext fun f => ?_
  rw [Option.map_eq_some_iff, Fields.double?_eq_some_iff, nanoseconds_fields]
  constructor
  · rintro ⟨d', hd', rfl⟩
    rw [nanoseconds_fields, nanoseconds_of_double? hd']
  · intro hf
    refine ⟨⟨f.nanoseconds, f.nanoseconds_lt⟩, ofNanoseconds?_eq_some_iff.2 hf, ?_⟩
    exact Fields.ext_of_nanoseconds (nanoseconds_fields _)

end Duration

namespace Backoff

variable {b b' : Backoff} {k : Nat}

/-! ### Stepping a schedule -/

/-- A schedule can be stepped `k` times just if its time-out, doubled as often, is a duration. -/
theorem exists_after?_iff :
    (∃ b', b.after? k = some b') ↔ 2 ^ k * b.current.nanoseconds ≤ Duration.longest := by
  rw [← Duration.lt_limit_iff]
  constructor
  · rintro ⟨b', hb'⟩
    exact (after?_eq_some_iff.1 hb').1 ▸ b'.current.lt_limit
  · exact exists_after?

theorem next?_eq_none_iff :
    b.next? = none ↔ Duration.longest < 2 * b.current.nanoseconds := by
  have hone : b.after? 1 = b.next? := rfl
  have hiff := exists_after?_iff (b := b) (k := 1)
  rw [hone, ← Option.isSome_iff_exists, Nat.pow_one] at hiff
  rw [← Option.not_isSome_iff_eq_none, hiff, Nat.not_le]

/-- If a schedule cannot be stepped `k` times, then one of the steps fails, and it is the first one
    that would make the time-out too long. -/
theorem exists_next?_eq_none (h : Duration.longest < 2 ^ k * b.current.nanoseconds) :
    ∃ j < k, (∃ b', b.after? j = some b' ∧ b'.next? = none) ∧
      Duration.longest < 2 ^ (j + 1) * b.current.nanoseconds ∧
      ∀ i ≤ j, 2 ^ i * b.current.nanoseconds ≤ Duration.longest := by
  induction k with
  | zero =>
    rw [Nat.pow_zero, Nat.one_mul] at h
    exact absurd (Duration.lt_limit_iff.1 b.current.lt_limit) (Nat.not_le.2 h)
  | succ k ih =>
    by_cases hlonger : Duration.longest < 2 ^ k * b.current.nanoseconds
    · obtain ⟨j, hj, hfails⟩ := ih hlonger
      exact ⟨j, Nat.lt_succ_of_lt hj, hfails⟩
    · -- The last step is the one that fails.
      have hfits := Nat.not_lt.1 hlonger
      obtain ⟨b', hb'⟩ := exists_after?_iff.2 hfits
      refine ⟨k, Nat.lt_succ_self k, ⟨b', hb', next?_eq_none_iff.2 ?_⟩, h, fun i hi => ?_⟩
      · rwa [(after?_eq_some_iff.1 hb').1, ← Nat.mul_assoc, ← Nat.pow_succ']
      · exact Nat.le_trans (Nat.mul_le_mul_right _ (Nat.pow_le_pow_right Nat.two_pos hi)) hfits

/-- Stepping a schedule once and then `k` times. -/
theorem after?_succ_of_next? (h : b.next? = some b') (k : Nat) :
    b.after? (k + 1) = b'.after? k := by
  induction k with
  | zero => exact h
  | succ k ih => rw [after?, ih, after?]

/-! ### Stepping until the schedule is exhausted -/

/-- Steps a schedule until it is exhausted. Gives the schedule after each of the steps, unless one
    of them fails. -/
def exhaust? (b : Backoff) : Option (List Backoff) :=
  if b.exhausted then some []
  else
    match _ : b.next? with
    | none => none
    | some b' => (exhaust? b').map (b' :: ·)
termination_by b.left
decreasing_by
  rename_i hexhausted hnext
  have hleft : b.left ≠ 0 := fun h => hexhausted (left_eq_zero_iff.1 h)
  rw [left_of_next? hnext]
  exact Nat.pred_lt hleft

theorem exhaust?_of_left_eq_zero (h : b.left = 0) : b.exhaust? = some [] := by
  rw [exhaust?, if_pos (left_eq_zero_iff.1 h)]

theorem exhaust?_of_left_ne_zero (h : b.left ≠ 0) :
    b.exhaust? = b.next?.bind fun b' => b'.exhaust?.map (b' :: ·) := by
  rw [exhaust?, if_neg fun hexhausted => h (left_eq_zero_iff.2 hexhausted)]
  split
  · rename_i hnext
    rw [hnext, Option.bind_none]
  · rename_i b' hnext
    rw [hnext, Option.bind_some]

/-- Stepping a schedule until it is exhausted is stepping it as often as it has retransmissions
    left. -/
theorem steps_of_exhaust? {reached : List Backoff} (h : b.exhaust? = some reached) :
    reached.length = b.left ∧ ∀ i < b.left, reached[i]? = b.after? (i + 1) := by
  induction hn : b.left generalizing b reached with
  | zero =>
    rw [exhaust?_of_left_eq_zero hn, Option.some.injEq] at h
    exact ⟨h ▸ rfl, fun i hi => absurd hi (Nat.not_lt_zero i)⟩
  | succ n ih =>
    -- There is a retransmission left, so the schedule is stepped at least once.
    rw [exhaust?_of_left_ne_zero (hn ▸ Nat.succ_ne_zero n), Option.bind_eq_some_iff] at h
    obtain ⟨b', hnext, h⟩ := h
    obtain ⟨later, hlater, rfl⟩ := Option.map_eq_some_iff.1 h
    have hleft : b'.left = n := by rw [left_of_next? hnext, hn, Nat.add_sub_cancel]
    obtain ⟨hlength, hsteps⟩ := ih hlater hleft
    refine ⟨congrArg Nat.succ hlength, fun i hi => ?_⟩
    cases i with
    | zero => exact hnext.symm
    | succ i =>
      rw [List.getElem?_cons_succ, hsteps i (Nat.lt_of_succ_lt_succ hi),
        after?_succ_of_next? hnext]

/-- A schedule can be stepped until it is exhausted just if the last time-out is a duration. -/
theorem exists_exhaust?_iff :
    (∃ reached, b.exhaust? = some reached) ↔
      2 ^ b.left * b.current.nanoseconds ≤ Duration.longest := by
  simp only [← exists_after?_iff, ← Option.isSome_iff_exists]
  induction hn : b.left generalizing b with
  | zero => rw [exhaust?_of_left_eq_zero hn, after?, Option.isSome_some, Option.isSome_some]
  | succ n ih =>
    rw [exhaust?_of_left_ne_zero (hn ▸ Nat.succ_ne_zero n)]
    cases hnext : b.next? with
    | none =>
      -- If the first step fails, then there is no way to make more of them.
      have hnone (k : Nat) : b.after? (k + 1) = none := by
        induction k with
        | zero => exact hnext
        | succ k ih => rw [after?, ih, Option.bind_none]
      simp [hnone]
    | some b' =>
      have hleft : b'.left = n := by rw [left_of_next? hnext, hn, Nat.add_sub_cancel]
      rw [after?_succ_of_next? hnext, Option.bind_some, Option.isSome_map, ih hleft]

/-- A schedule starts with a first time-out, no retransmissions so far and the number of them that
    is allowed. Each step doubles the time-out, in its two fields as in all, and there are `k` steps
    just if this gives a duration; otherwise it is the first step that leads beyond the longest
    duration which fails. A schedule that is stepped until it is exhausted is stepped as often as
    retransmissions are allowed, unless the last time-out would be too long. -/
theorem doubling (timing : Timing) :
    (∀ u b, start? timing u = some b → b = ⟨b.current, 0, timing.maxRetransmit⟩) ∧
    (∀ d : Duration, d.fields.nanoseconds = d.nanoseconds ∧
      d.double?.map Duration.fields = d.fields.double?) ∧
    ∀ first : Duration,
      let b : Backoff := ⟨first, 0, timing.maxRetransmit⟩
      (∀ k, 2 ^ k * first.nanoseconds ≤ Duration.longest →
        ∃ b', b.after? k = some b' ∧ b'.current.nanoseconds = 2 ^ k * first.nanoseconds ∧
          b'.retransmissions = k ∧ (b'.exhausted ↔ timing.maxRetransmit ≤ k)) ∧
      (∀ k, Duration.longest < 2 ^ k * first.nanoseconds →
        ∃ j < k, (∃ b', b.after? j = some b' ∧ b'.next? = none) ∧
          Duration.longest < 2 ^ (j + 1) * first.nanoseconds ∧
          ∀ i ≤ j, 2 ^ i * first.nanoseconds ≤ Duration.longest) ∧
      ((∃ reached, b.exhaust? = some reached) ↔
        2 ^ timing.maxRetransmit * first.nanoseconds ≤ Duration.longest) ∧
      ∀ reached, b.exhaust? = some reached →
        reached.length = timing.maxRetransmit ∧
          ∀ i < timing.maxRetransmit, reached[i]? = b.after? (i + 1) := by
  refine ⟨fun u b h => ?_, fun d => ⟨d.nanoseconds_fields, d.map_fields_double?⟩, fun first => ?_⟩
  · obtain ⟨hfresh, hmost⟩ := start?_eq_some h
    rw [← hfresh, ← hmost]
  intro b
  refine ⟨fun k hk => ?_, fun k hk => exists_next?_eq_none hk, exists_exhaust?_iff,
    fun reached h => steps_of_exhaust? h⟩
  -- The schedule after some steps is told by a closed form.
  obtain ⟨b', hb'⟩ := exists_after?_iff (b := b).2 hk
  obtain ⟨hcurrent, hcount, hmost⟩ := after?_eq_some_iff.1 hb'
  have hcount : b'.retransmissions = k := hcount.trans (Nat.zero_add k)
  have hmost : b'.maxRetransmit = timing.maxRetransmit := hmost
  refine ⟨b', hb', hcurrent, hcount, ?_⟩
  rw [exhausted, hcount, hmost, decide_eq_true_iff]

/-- A time-out that is a nanosecond below half of the seconds that fit is doubled once. -/
theorem doubling_once :
    let first : Duration := ⟨2 ^ 63 * nanosPerSecond - 1, by decide⟩
    let b : Backoff := ⟨first, 0, 4⟩
    (∃ b', b.after? 1 = some b' ∧ b'.current.nanoseconds = 2 ^ 64 * nanosPerSecond - 2 ∧
      b'.retransmissions = 1 ∧ b'.next? = none) ∧
    ¬ ∃ reached, b.exhaust? = some reached := by
  intro first b
  obtain ⟨-, -, hdoubling⟩ := doubling {}
  obtain ⟨hsteps, hfails, hloop, -⟩ := hdoubling first
  obtain ⟨b', hb', hcurrent, hcount, -⟩ := hsteps 1 (by decide)
  obtain ⟨j, hj, ⟨b'', hb'', hnext⟩, hlong, -⟩ := hfails 2 (by decide)
  -- The first step leads to a duration, so it is the second one that fails.
  have hsecond : j ≠ 0 := by
    rintro rfl
    exact absurd hlong (by decide)
  obtain rfl : j = 1 := by omega
  obtain rfl : b' = b'' := Option.some.inj (hb'.symm.trans hb'')
  exact ⟨⟨b', hb', hcurrent.trans (by decide), hcount, hnext⟩, mt hloop.1 (by decide)⟩

/-- A time-out of two seconds is doubled four times. -/
example :
    ((⟨⟨2 * nanosPerSecond, by decide⟩, 0, 4⟩ : Backoff).exhaust?.map
      (List.map fun b => b.current.nanoseconds / nanosPerSecond)) = some [4, 8, 16, 32] := by
  cbv

end Backoff

end Coap
