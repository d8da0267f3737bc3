import Telegram.Proofs.Frame.Progress

/-!
# Calling until more bytes are needed

`Layout.exhaust` calls `Layout.next` over and over, going on after errors, until the answer is that more
bytes are needed. It keeps every answer, in contrast to `Layout.drain`, which stops at the first error and
loses the frames before it.

The number of calls is bounded by `fuel`, one for each buffered byte and one more. That this is always
enough is `Layout.exhaust_eq`: over an accepted layout the loop satisfies its own equation, with no fuel
in it.

Most of what is said of decoders is said of this loop. From here on nobody unfolds it: an equation
replaces its definition, and an induction its recursion.
-/

namespace Telegram.Frame

/-- What a decoder has answered so far, and where it stands. The answer that more bytes are needed is not
kept: it says where the bytes happened to end, and not what they are. -/
structure Trace where
  outcomes : List Outcome := []
  state : State := .framing
  buffer : Bytes := []
  deriving DecidableEq

/-- The trace with earlier answers in front. -/
def Trace.after (outcomes : List Outcome) (trace : Trace) : Trace :=
  { trace with outcomes := outcomes ++ trace.outcomes }

namespace Layout

/-- The answers until more bytes are needed, in at most `fuel` calls. Each answer before the last uses up
a byte, so one call more than there are bytes is always enough. -/
def exhaustIn (layout : Layout) : Nat → State → Bytes → Trace
  | 0, state, buffer => { state, buffer }
  | fuel + 1, state, buffer =>
    let step := layout.next state buffer
    match step.outcome with
    | .needMore => { state := step.state, buffer := step.buffer }
    | outcome => (layout.exhaustIn fuel step.state step.buffer).after [outcome]

/-- The answers until more bytes are needed. -/
def exhaust (layout : Layout) (state : State) (buffer : Bytes) : Trace :=
  layout.exhaustIn (buffer.length + 1) state buffer

variable {layout : Layout}

/-- **Enough fuel is enough**: calls beyond one for each byte and one more are never made. -/
theorem exhaustIn_eq_exhaust (hcheck : layout.check = .ok ()) {fuel : Nat} {state : State}
    (hsound : state.Sound) {buffer : Bytes} (hfuel : buffer.length < fuel) :
    layout.exhaustIn fuel state buffer = layout.exhaust state buffer := by
  suffices hany : ∀ (bound fuel : Nat) (state : State) (buffer : Bytes), state.Sound →
      buffer.length < bound → buffer.length < fuel →
      layout.exhaustIn fuel state buffer = layout.exhaustIn bound state buffer from
    hany _ _ _ _ hsound (Nat.lt_succ_self _) hfuel
  -- every answer takes bytes off the buffer, so the fuel of neither side runs out before the bytes do
  intro bound
  induction bound with
  | zero =>
    intro fuel state buffer _ hbound
    exact absurd hbound (Nat.not_lt_zero _)
  | succ bound ih =>
    intro fuel state buffer hsound hbound hfuel
    cases fuel with
    | zero => exact absurd hfuel (Nat.not_lt_zero _)
    | succ fuel =>
      have hadvances := next_advances hcheck hsound buffer
      simp only [exhaustIn]
      split
      · rfl
      · rename_i hmore
        have hlt := hadvances.lt hmore
        rw [ih fuel _ _ hadvances.sound (by omega) (by omega)]

/-- **The loop without its fuel**: an answer other than that more bytes are needed is followed by the
answers to what it left. -/
theorem exhaust_eq (hcheck : layout.check = .ok ()) {state : State} (hsound : state.Sound)
    (buffer : Bytes) :
    layout.exhaust state buffer =
      let step := layout.next state buffer
      match step.outcome with
      | .needMore => { state := step.state, buffer := step.buffer }
      | outcome => (layout.exhaust step.state step.buffer).after [outcome] := by
  have hadvances := next_advances hcheck hsound buffer
  rw [exhaust, exhaustIn]
  simp only
  split
  · rfl
  · rename_i hmore
    rw [exhaustIn_eq_exhaust hcheck hadvances.sound (hadvances.lt hmore)]

theorem exhaust_of_needMore (hcheck : layout.check = .ok ()) {state : State} (hsound : state.Sound)
    {buffer : Bytes} (hwait : (layout.next state buffer).outcome = .needMore) :
    layout.exhaust state buffer =
      { state := (layout.next state buffer).state, buffer := (layout.next state buffer).buffer } := by
  rw [exhaust_eq hcheck hsound]
  simp only [hwait]

theorem exhaust_of_ne_needMore (hcheck : layout.check = .ok ()) {state : State}
    (hsound : state.Sound) {buffer : Bytes} (hmore : (layout.next state buffer).outcome ≠ .needMore) :
    layout.exhaust state buffer =
      (layout.exhaust (layout.next state buffer).state (layout.next state buffer).buffer).after
        [(layout.next state buffer).outcome] := by
  rw [exhaust_eq hcheck hsound]
  cases houtcome : (layout.next state buffer).outcome with
  | needMore => exact absurd houtcome hmore
  | frame bytes => simp only [houtcome]
  | error e => simp only [houtcome]

/-- The loop depends on where it starts only through its first answer. -/
theorem exhaust_congr (hcheck : layout.check = .ok ()) {state state' : State} {buffer buffer' : Bytes}
    (hsound : state.Sound) (hsound' : state'.Sound)
    (hnext : layout.next state buffer = layout.next state' buffer') :
    layout.exhaust state buffer = layout.exhaust state' buffer' := by
  rw [exhaust_eq hcheck hsound, exhaust_eq hcheck hsound', hnext]

/-- **Induction along the loop**: what holds when more bytes are needed, and is kept when an answer is
put in front, holds of every loop. -/
theorem exhaust_induction {motive : State → Bytes → Trace → Prop} (hcheck : layout.check = .ok ())
    (wait : ∀ state buffer, state.Sound → (layout.next state buffer).outcome = .needMore →
      motive state buffer
        { state := (layout.next state buffer).state, buffer := (layout.next state buffer).buffer })
    (step : ∀ state buffer trace, state.Sound → (layout.next state buffer).outcome ≠ .needMore →
      motive (layout.next state buffer).state (layout.next state buffer).buffer trace →
      motive state buffer (trace.after [(layout.next state buffer).outcome]))
    {state : State} (hsound : state.Sound) (buffer : Bytes) :
    motive state buffer (layout.exhaust state buffer) := by
  induction hlength : buffer.length using Nat.strongRecOn generalizing state buffer with
  | ind length ih =>
    have hadvances := next_advances hcheck hsound buffer
    by_cases hwait : (layout.next state buffer).outcome = .needMore
    · rw [exhaust_of_needMore hcheck hsound hwait]
      exact wait state buffer hsound hwait
    · rw [exhaust_of_ne_needMore hcheck hsound hwait]
      have hlt := hadvances.lt hwait
      exact step state buffer _ hsound hwait (ih _ (by omega) hadvances.sound _ rfl)

end Layout

end Telegram.Frame
