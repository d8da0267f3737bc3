import Telegram.Frame.Decoder

/-!
# Sessions with one decoder

Whoever owns a decoder hands it bytes and calls it, in any order. A `Call` is one such step, and a
`Session` is where a decoder stands after some of them: the bytes it was given so far, what it remembers
and what it has not used yet.

* `Layout.call` is one step of a session, `Layout.after` where any number of them leads, and
  `Layout.calls` also gives the answers.
* Feeding aside, every kind of call comes down to calling `next` once or more often
  (`Layout.exists_call_eq_after_next`). So what holds of `next` and of feeding holds of all of them.
-/

namespace Telegram.Frame

/-- What can be done with a decoder. -/
inductive Call where
  /-- Bytes arrive. -/
  | feed (chunk : Bytes)
  /-- The next frame is asked for. -/
  | next
  /-- All frames that are buffered are asked for. -/
  | drain
  /-- The next frame of a stream is asked for, where oversized ones are passed over. -/
  | nextKept
  /-- The same, when no more bytes will come. -/
  | nextAtEnd
  deriving DecidableEq

/-- Only bytes arrive; the decoder is not asked for anything. -/
def Call.isFeed : Call → Bool
  | .feed _ => true
  | _ => false

/-- What a call answers. -/
inductive Answer where
  | fed
  | outcome (outcome : Outcome)
  | drained (frames : Except Error (List Bytes))

/-- Where a decoder stands. That `fed` is kept is what is added to the program, which forgets the bytes
that it has used up. -/
structure Session where
  /-- All the bytes that arrived so far. -/
  fed : Bytes := []
  state : State := .framing
  buffer : Bytes := []
  deriving DecidableEq

/-- How many bytes of the stream are used up. -/
def Session.position (session : Session) : Nat :=
  session.fed.length - session.buffer.length

/-- The session after a step of its decoder. -/
def Session.advance (session : Session) (step : Step) : Session :=
  { session with state := step.state, buffer := step.buffer }

@[simp] theorem Session.advance_fed (session : Session) (step : Step) :
    (session.advance step).fed = session.fed := rfl

@[simp] theorem Session.advance_state (session : Session) (step : Step) :
    (session.advance step).state = step.state := rfl

@[simp] theorem Session.advance_buffer (session : Session) (step : Step) :
    (session.advance step).buffer = step.buffer := rfl

namespace Layout

/-- One call: its answer and the session after it. -/
def call (layout : Layout) (session : Session) : Call → Answer × Session
  | .feed chunk =>
    (.fed, { session with fed := session.fed ++ chunk, buffer := session.buffer ++ chunk })
  | .next =>
    let step := layout.next session.state session.buffer
    (.outcome step.outcome, session.advance step)
  | .nextKept =>
    let step := layout.nextKept session.state session.buffer
    (.outcome step.outcome, session.advance step)
  | .nextAtEnd =>
    let step := layout.nextAtEnd session.state session.buffer
    (.outcome step.outcome, session.advance step)
  | .drain =>
    let (frames, state, buffer) := layout.drain session.state session.buffer
    (.drained frames, { session with state, buffer })

/-- The session after the calls. -/
def after (layout : Layout) (session : Session) (calls : List Call) : Session :=
  calls.foldl (fun session call => (layout.call session call).2) session

/-- What the calls answer one by one, each with the session after it. -/
def calls (layout : Layout) (session : Session) : List Call → List (Answer × Session)
  | [] => []
  | call :: rest => layout.call session call :: layout.calls (layout.call session call).2 rest

variable {layout : Layout}

@[simp] theorem after_nil (session : Session) : layout.after session [] = session := rfl

@[simp] theorem after_cons (session : Session) (call : Call) (calls : List Call) :
    layout.after session (call :: calls) = layout.after (layout.call session call).2 calls := rfl

theorem after_append (session : Session) (first second : List Call) :
    layout.after session (first ++ second) = layout.after (layout.after session first) second :=
  List.foldl_append

/-! ## Every call is made of `next`

The loops of a decoder call `next` again and again on what the call before has left, and differ in when
they stop and in what they make of the answers. Neither changes where the decoder ends up, other than by
the number of calls. -/

theorem nextKeptIn_eq_after_next (layout : Layout) (session : Session) (fuel : Nat) :
    ∃ count, session.advance (layout.nextKeptIn (fuel + 1) session.state session.buffer) =
      layout.after session (List.replicate (count + 1) .next) := by
  induction fuel generalizing session with
  | zero =>
    refine ⟨0, ?_⟩
    rw [nextKeptIn]
    split <;> rfl
  | succ fuel ih =>
    rw [nextKeptIn]
    split
    · obtain ⟨count, hcount⟩ := ih (session.advance (layout.next session.state session.buffer))
      exact ⟨count + 1, hcount⟩
    · exact ⟨0, rfl⟩

theorem drainIn_eq_after_next (layout : Layout) (session : Session) (fuel : Nat) :
    ∃ count,
      { session with
        state := (layout.drainIn (fuel + 1) session.state session.buffer).2.1
        buffer := (layout.drainIn (fuel + 1) session.state session.buffer).2.2 } =
      layout.after session (List.replicate (count + 1) .next) := by
  induction fuel generalizing session with
  | zero =>
    refine ⟨0, ?_⟩
    rw [drainIn]
    split <;> rfl
  | succ fuel ih =>
    rw [drainIn]
    split
    · exact ⟨0, rfl⟩
    · exact ⟨0, rfl⟩
    · obtain ⟨count, hcount⟩ := ih (session.advance (layout.next session.state session.buffer))
      exact ⟨count + 1, hcount⟩

theorem nextAtEnd_advance (session : Session) :
    session.advance (layout.nextAtEnd session.state session.buffer) =
      session.advance (layout.nextKept session.state session.buffer) := by
  rw [nextAtEnd]
  split
  · split <;> rfl
  · rfl

/-- **A decoder only moves by `next`**: whatever it is asked, it ends up where calling `next` a number of
times leads, at least once. -/
theorem exists_call_eq_after_next (layout : Layout) (session : Session) {call : Call}
    (hasks : call.isFeed = false) :
    ∃ count, (layout.call session call).2 = layout.after session (List.replicate (count + 1) .next) := by
  cases call with
  | feed chunk => cases hasks
  | next => exact ⟨0, rfl⟩
  | drain => exact drainIn_eq_after_next layout session _
  | nextKept => exact nextKeptIn_eq_after_next layout session _
  | nextAtEnd =>
    obtain ⟨count, hcount⟩ := nextKeptIn_eq_after_next layout session session.buffer.length
    exact ⟨count, (nextAtEnd_advance session).trans hcount⟩

/-- **Induction over a session**: what feeding and `next` preserve holds wherever the calls lead. -/
theorem after_induction (layout : Layout) {motive : Session → Prop}
    (feed : ∀ session chunk, motive session → motive (layout.call session (.feed chunk)).2)
    (next : ∀ session, motive session → motive (layout.call session .next).2)
    {session : Session} (h : motive session) (calls : List Call) : motive (layout.after session calls) := by
  have hnexts (session : Session) (hsession : motive session) (count : Nat) :
      motive (layout.after session (List.replicate count .next)) := by
    induction count generalizing session with
    | zero => exact hsession
    | succ count ih => exact ih _ (next session hsession)
  induction calls generalizing session with
  | nil => exact h
  | cons call calls ih =>
    rw [after_cons]
    refine ih ?_
    cases hfeed : call.isFeed with
    | true =>
      cases call with
      | feed chunk => exact feed session chunk h
      | _ => cases hfeed
    | false =>
      obtain ⟨count, hcount⟩ := exists_call_eq_after_next layout session hfeed
      rw [hcount]
      exact hnexts session h (count + 1)

end Layout

end Telegram.Frame
