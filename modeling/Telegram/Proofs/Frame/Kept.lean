import Telegram.Proofs.Frame.Exhaust

/-!
# Passing over oversized frames

`Layout.nextKept` calls `Layout.next` until the answer is no report of an oversized frame. Its fuel is
enough, so it can be told without any:

* `Layout.Passes` is the rule by which it goes, one constructor for stopping and one for passing on. It
  determines the answer (`Layout.Passes.unique`), and `Layout.nextKept_passes` says that `nextKept` goes
  by it.
* `Layout.exhaustKept` calls `nextKept` over and over until more bytes are needed. What it answers is what
  `Layout.exhaust` answers without the reports of oversized frames (`Layout.exhaustKept_eq`).
-/

namespace Telegram.Frame

/-- The answer reports an oversized frame. -/
def Outcome.isTooLong : Outcome → Bool
  | .error (.tooLong ..) => true
  | _ => false

/-- The trace without the reports of oversized frames. -/
def Trace.kept (trace : Trace) : Trace :=
  { trace with outcomes := trace.outcomes.filter fun outcome => !outcome.isTooLong }

theorem Trace.kept_after (outcomes : List Outcome) (trace : Trace) :
    (trace.after outcomes).kept =
      trace.kept.after (outcomes.filter fun outcome => !outcome.isTooLong) := by
  simp [Trace.after, Trace.kept]

namespace Layout

variable {layout : Layout}

/-! ## One answer

The rule has one constructor for each turn of the loop, so an induction on it follows the loop without its
fuel. It is used wherever something is to be said of streams that end at their first error. -/

/-- The first answer that reports no oversized frame. The program finds it in a loop. Here it is a
relation, without a bound on the reports that come before it. -/
inductive Passes (layout : Layout) : State → Bytes → Step → Prop where
  | stop {state : State} {buffer : Bytes}
      (hkept : (layout.next state buffer).outcome.isTooLong = false) :
      Passes layout state buffer (layout.next state buffer)
  | pass {state : State} {buffer : Bytes} {step : Step}
      (hlong : (layout.next state buffer).outcome.isTooLong = true)
      (hrest : Passes layout (layout.next state buffer).state (layout.next state buffer).buffer step) :
      Passes layout state buffer step

theorem Passes.sound (hcheck : layout.check = .ok ()) {state : State} (hsound : state.Sound)
    {buffer : Bytes} {step : Step} (h : layout.Passes state buffer step) : step.state.Sound := by
  induction h with
  | stop _ => exact (next_advances hcheck hsound _).sound
  | pass _ _ ih => exact ih (next_advances hcheck hsound _).sound

/-- **The rule has one outcome.** -/
theorem Passes.unique {state : State} {buffer : Bytes} {step step' : Step}
    (h : layout.Passes state buffer step) (h' : layout.Passes state buffer step') : step = step' := by
  induction h with
  | stop hkept =>
    cases h' with
    | stop _ => rfl
    | pass hlong _ => exact absurd (hkept.symm.trans hlong) Bool.false_ne_true
  | pass hlong _ ih =>
    cases h' with
    | stop hkept => exact absurd (hkept.symm.trans hlong) Bool.false_ne_true
    | pass _ hrest => exact ih hrest

/-- A call is the answer unless it reports an oversized frame, after which the next call decides. -/
theorem nextKeptIn_succ (fuel : Nat) (state : State) (buffer : Bytes) :
    layout.nextKeptIn (fuel + 1) state buffer =
      if (layout.next state buffer).outcome.isTooLong then
        layout.nextKeptIn fuel (layout.next state buffer).state (layout.next state buffer).buffer
      else layout.next state buffer := by
  rw [nextKeptIn]
  generalize layout.next state buffer = step
  obtain ⟨outcome, state', buffer'⟩ := step
  cases outcome with
  | error e => cases e <;> rfl
  | _ => rfl

/-- With more calls than there are bytes, the first answer that is no report is found. -/
theorem nextKeptIn_passes (hcheck : layout.check = .ok ()) {fuel : Nat} {state : State}
    (hsound : state.Sound) {buffer : Bytes} (hfuel : buffer.length < fuel) :
    layout.Passes state buffer (layout.nextKeptIn fuel state buffer) := by
  induction fuel generalizing state buffer with
  | zero => exact absurd hfuel (Nat.not_lt_zero _)
  | succ fuel ih =>
    have hadvances := next_advances hcheck hsound buffer
    cases hlong : (layout.next state buffer).outcome.isTooLong with
    | false =>
      rw [nextKeptIn_succ, hlong, if_neg Bool.false_ne_true]
      exact .stop hlong
    | true =>
      have hmore : (layout.next state buffer).outcome ≠ .needMore := by
        intro hwait
        rw [hwait] at hlong
        cases hlong
      have hlt := hadvances.lt hmore
      rw [nextKeptIn_succ, if_pos hlong]
      exact .pass hlong (ih hadvances.sound (by omega))

/-- **Passing over oversized frames** ends with the first answer that reports none. -/
theorem nextKept_passes (hcheck : layout.check = .ok ()) {state : State} (hsound : state.Sound)
    (buffer : Bytes) : layout.Passes state buffer (layout.nextKept state buffer) :=
  nextKeptIn_passes hcheck hsound (Nat.lt_succ_self _)

theorem nextKept_of_kept {state : State} {buffer : Bytes}
    (hkept : (layout.next state buffer).outcome.isTooLong = false) :
    layout.nextKept state buffer = layout.next state buffer := by
  rw [nextKept, nextKeptIn_succ, hkept, if_neg Bool.false_ne_true]

theorem nextKept_of_isTooLong (hcheck : layout.check = .ok ()) {state : State} (hsound : state.Sound)
    {buffer : Bytes} (hlong : (layout.next state buffer).outcome.isTooLong = true) :
    layout.nextKept state buffer =
      layout.nextKept (layout.next state buffer).state (layout.next state buffer).buffer := by
  have hadvances := next_advances hcheck hsound buffer
  exact (nextKept_passes hcheck hsound buffer).unique
    (.pass hlong (nextKept_passes hcheck hadvances.sound _))

/-! ## Every answer

A report is passed over within a call, while the loop that keeps reports has a turn for it. The proof goes
by the turns of that loop, and changes nothing on the other side when one of them is a report. -/

/-- The answers of `nextKept` until more bytes are needed, in at most `fuel` calls. -/
def exhaustKeptIn (layout : Layout) : Nat → State → Bytes → Trace
  | 0, state, buffer => { state, buffer }
  | fuel + 1, state, buffer =>
    let step := layout.nextKept state buffer
    match step.outcome with
    | .needMore => { state := step.state, buffer := step.buffer }
    | outcome => (layout.exhaustKeptIn fuel step.state step.buffer).after [outcome]

/-- The answers of `nextKept` until more bytes are needed. -/
def exhaustKept (layout : Layout) (state : State) (buffer : Bytes) : Trace :=
  layout.exhaustKeptIn (buffer.length + 1) state buffer

/-- The loop depends on where it starts only through its first answer. -/
theorem exhaustKeptIn_congr {state state' : State} {buffer buffer' : Bytes}
    (hnext : layout.nextKept state buffer = layout.nextKept state' buffer') (fuel : Nat) :
    layout.exhaustKeptIn (fuel + 1) state buffer = layout.exhaustKeptIn (fuel + 1) state' buffer' := by
  simp only [exhaustKeptIn, hnext]

/-- **What is passed over is all that is missing**: the two loops answer the same, except that one is
silent about oversized frames, and they end alike. -/
theorem exhaustKept_eq (hcheck : layout.check = .ok ()) {state : State} (hsound : state.Sound)
    (buffer : Bytes) : layout.exhaustKept state buffer = (layout.exhaust state buffer).kept := by
  refine exhaust_induction (motive := fun state buffer trace => ∀ fuel, buffer.length < fuel →
    layout.exhaustKeptIn fuel state buffer = trace.kept) hcheck ?wait ?step hsound buffer _
    (Nat.lt_succ_self _)
  case wait =>
    intro state buffer _ hwait fuel hfuel
    obtain ⟨fuel, rfl⟩ := Nat.exists_eq_succ_of_ne_zero (Nat.ne_zero_of_lt hfuel)
    rw [exhaustKeptIn, nextKept_of_kept (by rw [hwait]; rfl)]
    simp only [hwait]
    rfl
  case step =>
    intro state buffer trace hsound hmore ih fuel hfuel
    obtain ⟨fuel, rfl⟩ := Nat.exists_eq_succ_of_ne_zero (Nat.ne_zero_of_lt hfuel)
    have hlt := (next_advances hcheck hsound buffer).lt hmore
    rw [Trace.kept_after]
    cases hlong : (layout.next state buffer).outcome.isTooLong with
    -- the report is passed over within the one call, so the loop has no turn for it
    | true =>
      rw [exhaustKeptIn_congr (nextKept_of_isTooLong hcheck hsound hlong), ih _ (by omega)]
      simp [hlong, Trace.after]
    | false =>
      rw [exhaustKeptIn, nextKept_of_kept hlong]
      cases houtcome : (layout.next state buffer).outcome with
      | needMore => exact absurd houtcome hmore
      | frame bytes =>
        simp only [ih _ (show _ < fuel by omega)]
        rfl
      | error e =>
        rw [houtcome] at hlong
        simp only [ih _ (show _ < fuel by omega)]
        simp [hlong]

end Layout

end Telegram.Frame
