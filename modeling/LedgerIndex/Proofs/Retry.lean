import Mathlib.Data.ENat.Lattice
import LedgerIndex.Retry

/-! # Retrying ends

Retrying is a loop without a bound of its own: an attempt is followed by the next one for as long as
`RetryPolicy.after` says so.  `RetryPolicy.Course` is that loop, and `RetryPolicy.run` follows it to
its end (`course_run`).  Every operation is called up to its first success or up to the greatest
number of attempts, whichever comes first, and after each call but the last one there is one delay,
which grows by the base delay from call to call (`run_schedule`). -/

namespace LedgerIndex.RetryPolicy

variable {ε α : Type}

/-- The number of the first attempt that succeeds, infinite where every attempt fails. -/
noncomputable def firstSuccess (outcome : Nat → Except ε α) : ℕ∞ :=
  sInf {n | ∃ attempt : ℕ, 0 < attempt ∧ (outcome attempt).isOk = true ∧ n = attempt}

/-- The course from the attempt `first` on, of which `last` is the last one. -/
def scheduleFrom (policy : RetryPolicy) (first last : Nat) : List RetryEvent :=
  .attempt :: (List.range' first (last - first)).flatMap fun attempt =>
    [.sleep ⟨policy.baseDelay.nanos * attempt⟩, .attempt]

/-- The course of a number of calls: a call, and then a delay and a call for each further one.  The
delays are one base delay, two, three and so on. -/
def schedule (policy : RetryPolicy) (calls : Nat) : List RetryEvent :=
  policy.scheduleFrom 1 calls

/-- The loop from an attempt on: it ends with the result of the attempt, or it sleeps and goes on
with the next attempt. -/
inductive Course (policy : RetryPolicy) (outcome : Nat → Except ε α) :
    Nat → Except ε α → List RetryEvent → Prop
  | finish {attempt : Nat} {result : Except ε α}
      (h : policy.after attempt (outcome attempt) = .finish result) :
      Course policy outcome attempt result [.attempt]
  | retry {attempt : Nat} {delay : Span} {result : Except ε α} {events : List RetryEvent}
      (h : policy.after attempt (outcome attempt) = .retryAfter delay)
      (rest : Course policy outcome (attempt + 1) result events) :
      Course policy outcome attempt result (.attempt :: .sleep delay :: events)

variable {policy : RetryPolicy} {outcome : Nat → Except ε α} {attempt first last : Nat}
  {result result' : Except ε α} {events events' : List RetryEvent}

/-! ### One attempt -/

/-- An attempt is the last one if it succeeds or no further one is allowed. -/
def Ends (policy : RetryPolicy) (outcome : Nat → Except ε α) (attempt : Nat) : Prop :=
  (outcome attempt).isOk = true ∨ policy.maxAttempts ≤ attempt

theorem after_of_ends (h : policy.Ends outcome attempt) :
    policy.after attempt (outcome attempt) = .finish (outcome attempt) := by
  cases houtcome : outcome attempt with
  | ok value => rfl
  | error e =>
      rw [Ends, houtcome] at h
      exact if_pos (h.resolve_left nofun)

theorem after_of_not_ends (h : ¬ policy.Ends outcome attempt) :
    policy.after attempt (outcome attempt) = .retryAfter (policy.delay attempt) := by
  obtain ⟨hfailed, hfurther⟩ := not_or.mp h
  cases houtcome : outcome attempt with
  | ok value => exact absurd (by rw [houtcome]; rfl) hfailed
  | error e => exact if_neg hfurther

/-! ### The loop -/

theorem Course.unique (h : policy.Course outcome attempt result events)
    (h' : policy.Course outcome attempt result' events') : result = result' ∧ events = events' := by
  induction h generalizing result' events' with
  | finish h =>
      cases h' with
      | finish h' =>
          rw [h] at h'
          exact ⟨RetryStep.finish.inj h', rfl⟩
      | retry h' _ => cases h.symm.trans h'
  | retry h _ ih =>
      cases h' with
      | finish h' => cases h.symm.trans h'
      | retry h' rest' =>
          rw [h] at h'
          obtain ⟨rfl, rfl⟩ := ih rest'
          rw [RetryStep.retryAfter.inj h']
          exact ⟨rfl, rfl⟩

/-- With as much fuel as there are further attempts the loop comes to its end. -/
theorem course_runFrom (fuel : Nat) (h : policy.maxAttempts ≤ attempt + fuel) :
    policy.Course outcome attempt (policy.runFrom outcome fuel attempt).1
      (policy.runFrom outcome fuel attempt).2 := by
  induction fuel generalizing attempt with
  | zero => exact .finish (after_of_ends (.inr h))
  | succ fuel ih =>
      by_cases hends : policy.Ends outcome attempt
      · rw [runFrom, after_of_ends hends]
        exact .finish (after_of_ends hends)
      · rw [runFrom, after_of_not_ends hends]
        exact .retry (after_of_not_ends hends) (ih (by omega))

/-- **The loop terminates**, with what `run` computes. -/
theorem course_run (policy : RetryPolicy) (outcome : Nat → Except ε α) :
    policy.Course outcome 1 (policy.run outcome).1 (policy.run outcome).2 :=
  course_runFrom policy.maxAttempts (Nat.le_add_left ..)

/-! ### The schedule -/

theorem scheduleFrom_self (policy : RetryPolicy) (last : Nat) :
    policy.scheduleFrom last last = [.attempt] := by
  simp [scheduleFrom]

theorem scheduleFrom_of_lt (policy : RetryPolicy) (h : first < last) :
    policy.scheduleFrom first last
      = .attempt :: .sleep ⟨policy.baseDelay.nanos * first⟩ ::
        policy.scheduleFrom (first + 1) last := by
  have hlength : last - first = (last - (first + 1)) + 1 := by omega
  rw [scheduleFrom, hlength, List.range'_succ, List.flatMap_cons]
  rfl

theorem count_attempt_scheduleFrom (policy : RetryPolicy) (first last : Nat) :
    (policy.scheduleFrom first last).count .attempt = last - first + 1 := by
  have hround : (List.count .attempt ∘ fun attempt =>
      [RetryEvent.sleep ⟨policy.baseDelay.nanos * attempt⟩, .attempt]) = fun _ => 1 := rfl
  rw [scheduleFrom, List.count_cons_self, List.count_flatMap, hround]
  simp

/-- The loop goes through the schedule up to the first attempt that is the last. -/
theorem course_scheduleFrom (hle : first ≤ last) (hlast : policy.Ends outcome last)
    (hfirst : ∀ attempt, first ≤ attempt → attempt < last → ¬ policy.Ends outcome attempt) :
    policy.Course outcome first (outcome last) (policy.scheduleFrom first last) := by
  induction hle using Nat.decreasingInduction with
  | self =>
      rw [scheduleFrom_self]
      exact .finish (after_of_ends hlast)
  | of_succ first hlt ih =>
      rw [scheduleFrom_of_lt policy hlt]
      refine .retry (after_of_not_ends (hfirst first (Nat.le_refl _) hlt)) (ih ?_)
      exact fun attempt h => hfirst attempt (Nat.le_of_succ_le h)

theorem sleep_mem_scheduleFrom {delay : Span}
    (h : .sleep delay ∈ policy.scheduleFrom first last) :
    ∃ attempt, first ≤ attempt ∧ attempt < last ∧
      delay = ⟨policy.baseDelay.nanos * attempt⟩ := by
  rcases List.mem_cons.mp h with h | h
  · cases h
  · obtain ⟨attempt, hattempt, hdelay⟩ := List.mem_flatMap.mp h
    obtain ⟨hle, hlt⟩ := List.mem_range'_1.mp hattempt
    refine ⟨attempt, hle, by omega, ?_⟩
    simpa using hdelay

/-! ### The number of calls -/

/-- The first attempt that is the last one is the first success or the last attempt allowed. -/
theorem exists_calls (policy : RetryPolicy) (outcome : Nat → Except ε α) :
    ∃ calls : ℕ, calls = min (firstSuccess outcome) (max 1 policy.maxAttempts : ℕ) ∧
      1 ≤ calls ∧ policy.Ends outcome calls ∧
      ∀ attempt : ℕ, 1 ≤ attempt → attempt < calls → ¬ policy.Ends outcome attempt := by
  classical
  have hsome : ∃ calls, 1 ≤ calls ∧ policy.Ends outcome calls :=
    ⟨max 1 policy.maxAttempts, le_max_left .., .inr (le_max_right ..)⟩
  obtain ⟨hpos, hends⟩ := Nat.find_spec hsome
  have hleast : ∀ attempt : ℕ, 1 ≤ attempt → policy.Ends outcome attempt →
      Nat.find hsome ≤ attempt := fun attempt hattempt h => Nat.find_min' hsome ⟨hattempt, h⟩
  refine ⟨Nat.find hsome, le_antisymm (le_min (le_sInf ?_) ?_) ?_, hpos, hends, ?_⟩
  · rintro _ ⟨attempt, hattempt, hok, rfl⟩
    exact Nat.cast_le.mpr (hleast attempt hattempt (.inl hok))
  · exact Nat.cast_le.mpr (hleast _ (le_max_left ..) (.inr (le_max_right ..)))
  · rcases hends with hok | hmax
    · exact (min_le_left ..).trans (sInf_le ⟨_, hpos, hok, rfl⟩)
    · exact (min_le_right ..).trans (Nat.cast_le.mpr (max_le hpos hmax))
  · intro attempt hattempt hlt h
    exact absurd (hleast attempt hattempt h) (Nat.not_le.mpr hlt)

/-- The last call succeeds exactly if the first success is among the calls allowed. -/
theorem isOk_iff {calls : ℕ}
    (hcalls : calls = min (firstSuccess outcome) (max 1 policy.maxAttempts : ℕ))
    (hpos : 1 ≤ calls) :
    (outcome calls).isOk = true ↔ firstSuccess outcome ≤ (max 1 policy.maxAttempts : ℕ) := by
  constructor
  · intro hok
    have hfirst : firstSuccess outcome ≤ calls := sInf_le ⟨calls, hpos, hok, rfl⟩
    exact hfirst.trans (hcalls.le.trans (min_le_right ..))
  · intro hle
    rw [min_eq_left hle] at hcalls
    have hne : {n : ℕ∞ | ∃ attempt : ℕ, 0 < attempt ∧ (outcome attempt).isOk = true ∧
        n = attempt}.Nonempty := by
      by_contra hempty
      rw [firstSuccess, Set.not_nonempty_iff_eq_empty.mp hempty, sInf_empty] at hcalls
      exact ENat.natCast_ne_top calls hcalls
    obtain ⟨attempt, -, hok, hattempt⟩ := csInf_mem hne
    have heq : calls = attempt := Nat.cast_injective (hcalls.trans hattempt)
    rw [heq]
    exact hok

/-- **Retrying is bounded.**  The loop terminates and has one course only, which `run` computes.
The operation is called up to its first success, and at the most as often as the policy allows, but
at least once.  Between two calls there is one delay, of one, two, three base delays and so on, and
none behind the last call.  The result is that of the last call: the first success, if it is among
the calls allowed, and a failure otherwise. -/
theorem run_schedule (policy : RetryPolicy) (outcome : Nat → Except ε α) :
    ∃ calls : ℕ, calls = min (firstSuccess outcome) (max 1 policy.maxAttempts : ℕ) ∧
      (∀ result events, policy.Course outcome 1 result events ↔
        result = outcome calls ∧ events = policy.schedule calls) ∧
      policy.run outcome = (outcome calls, policy.schedule calls) ∧
      policy.schedule calls = .attempt :: (List.range' 1 (calls - 1)).flatMap (fun attempt =>
        [.sleep ⟨policy.baseDelay.nanos * attempt⟩, .attempt]) ∧
      (policy.schedule calls).count .attempt = calls ∧
      (∀ delay, .sleep delay ∈ policy.schedule calls → ∃ attempt, 0 < attempt ∧
        attempt < policy.maxAttempts ∧ delay = ⟨policy.baseDelay.nanos * attempt⟩) ∧
      ((outcome calls).isOk = true ↔ firstSuccess outcome ≤ (max 1 policy.maxAttempts : ℕ)) := by
  obtain ⟨calls, hcalls, hpos, hends, hfirst⟩ := exists_calls policy outcome
  have hcourse : policy.Course outcome 1 (outcome calls) (policy.schedule calls) :=
    course_scheduleFrom hpos hends hfirst
  have hrun := (course_run policy outcome).unique hcourse
  refine ⟨calls, hcalls, fun result events => ⟨fun h => h.unique hcourse, ?_⟩,
    Prod.ext hrun.1 hrun.2, rfl, ?_, fun delay hdelay => ?_, isOk_iff hcalls hpos⟩
  · rintro ⟨rfl, rfl⟩
    exact hcourse
  · rw [schedule, count_attempt_scheduleFrom]
    omega
  · obtain ⟨attempt, hattempt, hlt, rfl⟩ := sleep_mem_scheduleFrom hdelay
    have hgoes := hfirst attempt hattempt hlt
    exact ⟨attempt, hattempt, Nat.not_le.mp (mt .inr hgoes), rfl⟩

/-- With two seconds as the base delay a third attempt comes after delays of two and of four
seconds; one that succeeds is the last, and so is one that fails if three are allowed. -/
theorem run_schedule_third :
    let outcome (succeeds : Nat) : Nat → Except String Nat := fun attempt =>
      if attempt = succeeds then .ok attempt else .error "refused"
    let events : List RetryEvent := [.attempt, .sleep (Span.ofSeconds 2), .attempt,
      .sleep (Span.ofSeconds 4), .attempt]
    RetryPolicy.run ⟨5, Span.ofSeconds 2⟩ (outcome 3) = (.ok 3, events) ∧
      RetryPolicy.run ⟨3, Span.ofSeconds 2⟩ (outcome 9) = (.error "refused", events) := by
  intro outcome events
  have hthird : ∀ (policy : RetryPolicy) (succeeds : Nat), policy.baseDelay = Span.ofSeconds 2 →
      (policy.run (outcome succeeds)).2.count .attempt = 3 →
      policy.run (outcome succeeds) = (outcome succeeds 3, events) := by
    intro policy succeeds hbase hthree
    obtain ⟨calls, -, -, hrun, hschedule, hcount, -⟩ := run_schedule policy (outcome succeeds)
    rw [hrun, hcount] at hthree
    rw [hrun, hschedule, hthree, hbase]
    rfl
  exact ⟨hthird _ 3 rfl (by decide), hthird _ 9 rfl (by decide)⟩

end LedgerIndex.RetryPolicy
