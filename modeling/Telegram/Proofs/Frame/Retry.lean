import Telegram.Proofs.Frame.Chunks
import Telegram.Proofs.Frame.Drain
import Telegram.Proofs.Frame.Kept

/-!
# Calling again

Whoever wants more than one answer calls `Layout.next` in a loop. When such a loop goes on is up to the
caller: after frames, after some errors, for as long as a decoder skips. `Retry` is any such rule, and it
may look at everything that was answered so far.

* An answer leaves a shorter buffer, unless it asks for more bytes, and then asking again changes nothing
  (`Layout.next_of_needMore`).
* So a loop whose rule does not call again when more bytes are needed ends, after no more calls than there
  are bytes and one more (`Layout.exists_loops`, `Layout.Loops.length_le`).
* `Layout.drain` is the loop that goes on after frames, and `Layout.nextKept` the loop that goes on after
  reports of oversized frames (`Layout.drain_loops`, `Layout.nextKept_loops`).
-/

namespace Telegram.Frame

/-! ## States

A caller may do with the buffer what it likes between two calls. So a state counts as reachable whatever
was buffered when it was reached, and nothing is assumed about the buffer either when it is used. -/

namespace Layout

variable {layout : Layout}

/-- The states that calls lead to, whatever is buffered at each of them. The buffer is free at every call,
since bytes may arrive or be taken away in between. -/
inductive Reachable (layout : Layout) : State → Prop where
  | fresh : Reachable layout .framing
  | next {state : State} (h : Reachable layout state) (buffer : Bytes) :
      Reachable layout (layout.next state buffer).state

/-- Every kind of call leads to a reachable state. -/
theorem Reachable.after {session : Session} (h : layout.Reachable session.state) (calls : List Call) :
    layout.Reachable (layout.after session calls).state := by
  apply layout.after_induction (motive := fun session => layout.Reachable session.state)
  · exact fun _ _ h => h
  · exact fun session h => h.next session.buffer
  · exact h

theorem Reachable.sound (hcheck : layout.check = .ok ()) {state : State} (h : layout.Reachable state) :
    state.Sound := by
  induction h with
  | fresh => trivial
  | next _ buffer ih => exact (next_advances hcheck ih buffer).sound

end Layout

/-! ## Loops

A loop is described by its course: the answers after which it went on, and the one at which it stopped. It
may never stop, and then it has no course; that this does not happen is what has to be shown. -/

/-- Whether to call again after the given answers, the last one first. All earlier answers are at hand, so
a loop may count them, or wait for a certain one. -/
abbrev Retry := List Step → Bool

namespace Retry

/-- Calls again after the answers of one kind. -/
def on (kind : Outcome → Bool) : Retry :=
  fun steps => steps.head?.any fun step => kind step.outcome

@[simp] theorem on_cons (kind : Outcome → Bool) (step : Step) (earlier : List Step) :
    on kind (step :: earlier) = kind step.outcome := rfl

/-- When more bytes are needed, there is no further call. -/
def Waits (retry : Retry) : Prop :=
  ∀ step earlier, step.outcome = .needMore → retry (step :: earlier) = false

theorem waits_on {kind : Outcome → Bool} (hkind : kind .needMore = false) : (on kind).Waits := by
  intro step earlier hwait
  rw [on_cons, hwait, hkind]

end Retry

/-- What collecting frames comes to: the frames, unless the last answer is an error. -/
def collected (passed : List Step) (last : Step) : Except Error (List Bytes) :=
  match last.outcome with
  | .error e => .error e
  | _ => .ok (passed.filterMap fun step => step.outcome.frame?)

namespace Layout

variable {layout : Layout} {retry : Retry}

/-- A loop that has come to its end: the answers that it passed on, and its last one. The answers from
before it started are `earlier`. -/
inductive Loops (layout : Layout) (retry : Retry) :
    List Step → State → Bytes → List Step → Step → Prop where
  | stop {earlier : List Step} {state : State} {buffer : Bytes}
      (hstop : retry (layout.next state buffer :: earlier) = false) :
      Loops layout retry earlier state buffer [] (layout.next state buffer)
  | again {earlier : List Step} {state : State} {buffer : Bytes} {passed : List Step} {last : Step}
      (hagain : retry (layout.next state buffer :: earlier) = true)
      (hrest : Loops layout retry (layout.next state buffer :: earlier)
        (layout.next state buffer).state (layout.next state buffer).buffer passed last) :
      Loops layout retry earlier state buffer (layout.next state buffer :: passed) last

/-- A loop has one course. -/
theorem Loops.unique {earlier : List Step} {state : State} {buffer : Bytes} {passed passed' : List Step}
    {last last' : Step} (h : layout.Loops retry earlier state buffer passed last)
    (h' : layout.Loops retry earlier state buffer passed' last') : passed' = passed ∧ last' = last := by
  induction h generalizing passed' with
  | stop hstop =>
    cases h' with
    | stop _ => exact ⟨rfl, rfl⟩
    | again hagain _ => exact absurd (hstop.symm.trans hagain) Bool.false_ne_true
  | again hagain _ ih =>
    cases h' with
    | stop hstop => exact absurd (hstop.symm.trans hagain) Bool.false_ne_true
    | again _ hrest =>
      obtain ⟨rfl, rfl⟩ := ih hrest
      exact ⟨rfl, rfl⟩

/-- An answer after which there is another call has taken bytes off the buffer. -/
theorem length_next_lt (hcheck : layout.check = .ok ()) (hwaits : retry.Waits) {state : State}
    (hsound : state.Sound) {buffer : Bytes} {earlier : List Step}
    (hagain : retry (layout.next state buffer :: earlier) = true) :
    (layout.next state buffer).buffer.length < buffer.length := by
  apply (next_advances hcheck hsound buffer).lt
  intro hwait
  rw [hwaits _ _ hwait] at hagain
  cases hagain

/-- **Loops are short**: an answer is passed on only if it took a byte. -/
theorem Loops.length_le (hcheck : layout.check = .ok ()) (hwaits : retry.Waits) {earlier : List Step}
    {state : State} (hsound : state.Sound) {buffer : Bytes} {passed : List Step} {last : Step}
    (h : layout.Loops retry earlier state buffer passed last) : passed.length ≤ buffer.length := by
  induction h with
  | stop _ => exact Nat.zero_le _
  | @again _ state buffer passed _ hagain _ ih =>
    have hlt := length_next_lt hcheck hwaits hsound hagain
    have hle := ih (next_advances hcheck hsound buffer).sound
    rw [List.length_cons]
    omega

/-- **Loops end**, by the bytes that are left. -/
theorem exists_loops (hcheck : layout.check = .ok ()) (hwaits : retry.Waits) (earlier : List Step)
    {state : State} (hsound : state.Sound) (buffer : Bytes) :
    ∃ passed last, layout.Loops retry earlier state buffer passed last := by
  induction hlength : buffer.length using Nat.strongRecOn generalizing earlier state buffer with
  | ind length ih =>
    cases hretry : retry (layout.next state buffer :: earlier) with
    | false => exact ⟨_, _, .stop hretry⟩
    | true =>
      have hlt := length_next_lt hcheck hwaits hsound hretry
      obtain ⟨passed, last, hrest⟩ :=
        ih _ (hlength ▸ hlt) (layout.next state buffer :: earlier)
          (next_advances hcheck hsound buffer).sound _ rfl
      exact ⟨_, _, .again hretry hrest⟩

/-! ## The loops of the decoder

The two loops that a decoder has are instances, with a rule each. They have fuel of their own, and what
was shown of their lengths says that it is enough. -/

/-- Passing over oversized frames is the loop that calls again after their reports. -/
theorem Passes.loops {state : State} {buffer : Bytes} {step : Step} (h : layout.Passes state buffer step)
    (earlier : List Step) :
    ∃ passed, layout.Loops (.on Outcome.isTooLong) earlier state buffer passed step := by
  induction h generalizing earlier with
  | stop hkept => exact ⟨[], .stop hkept⟩
  | @pass state buffer _ hlong _ ih =>
    obtain ⟨passed, hrest⟩ := ih (layout.next state buffer :: earlier)
    exact ⟨_, .again hlong hrest⟩

theorem nextKept_loops (hcheck : layout.check = .ok ()) {state : State} (hsound : state.Sound)
    (buffer : Bytes) :
    ∃ passed, layout.Loops (.on Outcome.isTooLong) [] state buffer passed
      (layout.nextKept state buffer) :=
  (nextKept_passes hcheck hsound buffer).loops []

theorem drainIn_loops (hcheck : layout.check = .ok ()) {fuel : Nat} (earlier : List Step) {state : State}
    (hsound : state.Sound) {buffer : Bytes} (hfuel : buffer.length < fuel) :
    ∃ passed last, layout.Loops (.on Outcome.isFrame) earlier state buffer passed last ∧
      layout.drainIn fuel state buffer = (collected passed last, last.state, last.buffer) := by
  induction fuel generalizing earlier state buffer with
  | zero => exact absurd hfuel (Nat.not_lt_zero _)
  | succ fuel ih =>
    have hadvances := next_advances hcheck hsound buffer
    cases houtcome : (layout.next state buffer).outcome with
    | needMore =>
      refine ⟨[], _, .stop (by simp [houtcome, Outcome.isFrame]), ?_⟩
      simp [drainIn, collected, houtcome]
    | error e =>
      refine ⟨[], _, .stop (by simp [houtcome, Outcome.isFrame]), ?_⟩
      simp [drainIn, collected, houtcome]
    | frame bytes =>
      have hlt := hadvances.lt (by simp [houtcome])
      obtain ⟨passed, last, hrest, hdrain⟩ := ih (layout.next state buffer :: earlier) hadvances.sound
        (Nat.lt_of_lt_of_le hlt (Nat.le_of_lt_succ hfuel))
      refine ⟨_, last, .again (by simp [houtcome, Outcome.isFrame]) hrest, ?_⟩
      simp only [drainIn, houtcome, hdrain, collected]
      -- a frame in front changes the frames that are collected, and no error
      cases last.outcome <;> simp [Except.map, Outcome.frame?, houtcome]

/-- Collecting frames is the loop that calls again after frames. -/
theorem drain_loops (hcheck : layout.check = .ok ()) {state : State} (hsound : state.Sound)
    (buffer : Bytes) :
    ∃ passed last, layout.Loops (.on Outcome.isFrame) [] state buffer passed last ∧
      layout.drain state buffer = (collected passed last, last.state, last.buffer) :=
  drainIn_loops hcheck [] hsound (Nat.lt_succ_self _)

/-- **Progress and quiescence.** Over an accepted layout, from every state that calls lead to and on every
buffer:

1. an answer other than that more bytes are needed leaves a shorter buffer;
2. where more bytes are needed, asking again without any is answered the same, and changes nothing;
3. so every loop that does not call again where more bytes are needed ends, in one way only, after at most
   one call for each buffered byte and one more;
4. collecting all frames is such a loop, and so is asking for the next frame of a stream. -/
theorem loops_end (hcheck : layout.check = .ok ()) {state : State} (hreachable : layout.Reachable state)
    (buffer : Bytes) :
    let step := layout.next state buffer
    (step.outcome ≠ .needMore → step.buffer.length < buffer.length) ∧
    (step.outcome = .needMore → layout.next step.state step.buffer = step) ∧
    (∀ retry : Retry, retry.Waits → ∃ passed last,
      layout.Loops retry [] state buffer passed last ∧
      passed.length + 1 ≤ buffer.length + 1 ∧
      ∀ passed' last', layout.Loops retry [] state buffer passed' last' →
        passed' = passed ∧ last' = last) ∧
    (∃ passed last, layout.Loops (.on Outcome.isFrame) [] state buffer passed last ∧
      passed.length + 1 ≤ buffer.length + 1 ∧
      layout.drain state buffer = (collected passed last, last.state, last.buffer)) ∧
    ∃ passed, layout.Loops (.on Outcome.isTooLong) [] state buffer passed (layout.nextKept state buffer) ∧
      passed.length + 1 ≤ buffer.length + 1 := by
  intro step
  have hsound := hreachable.sound hcheck
  refine ⟨(next_advances hcheck hsound buffer).lt, next_of_needMore hcheck, ?loop, ?drain, ?kept⟩
  case loop =>
    intro retry hwaits
    obtain ⟨passed, last, hloops⟩ := exists_loops hcheck hwaits [] hsound buffer
    have hle := hloops.length_le hcheck hwaits hsound
    exact ⟨passed, last, hloops, Nat.succ_le_succ hle, fun _ _ => hloops.unique⟩
  case drain =>
    obtain ⟨passed, last, hloops, hdrain⟩ := drain_loops hcheck hsound buffer
    have hle := hloops.length_le hcheck (Retry.waits_on rfl) hsound
    exact ⟨passed, last, hloops, Nat.succ_le_succ hle, hdrain⟩
  case kept =>
    obtain ⟨passed, hloops⟩ := nextKept_loops hcheck hsound buffer
    have hle := hloops.length_le hcheck (Retry.waits_on rfl) hsound
    exact ⟨passed, hloops, Nat.succ_le_succ hle⟩

/-- A patient decoder in the middle of an oversized frame: its last byte, a frame of which nothing is
handed on, and the start of another oversized frame. -/
theorem loops_end_while_skipping :
    let layout : Layout := { width := 1, maxLength := 4, strip := 2, failFast := false }
    let buffer : Bytes := [7, 1, 0xAA, 8, 1]
    layout.check = .ok () ∧ layout.Reachable (.skipping 10 1) ∧
      layout.next (.skipping 10 1) buffer =
        ⟨.error (.tooLong 10 4 false), .framing, [1, 0xAA, 8, 1]⟩ ∧
      layout.nextKept (.skipping 10 1) buffer = ⟨.frame [], .framing, [8, 1]⟩ ∧
      layout.next .framing [8, 1] = ⟨.needMore, .skipping 9 7, []⟩ ∧
      layout.next (.skipping 9 7) [] = ⟨.needMore, .skipping 9 7, []⟩ ∧
      (∃ passed, layout.Loops (.on Outcome.isTooLong) [] (.skipping 10 1) buffer passed
        ⟨.frame [], .framing, [8, 1]⟩ ∧ passed.length + 1 ≤ 6) := by
  intro layout buffer
  have hfresh : layout.Reachable .framing := .fresh
  have hreachable : layout.Reachable (.skipping 10 1) := hfresh.next [9, 1, 2, 3, 4, 5, 6, 7, 8]
  have hfirst : layout.next (.skipping 10 1) buffer =
      ⟨.error (.tooLong 10 4 false), .framing, [1, 0xAA, 8, 1]⟩ := by decide +kernel
  have hnext : layout.nextKept (.skipping 10 1) buffer = ⟨.frame [], .framing, [8, 1]⟩ := by decide +kernel
  have hmore : layout.next .framing [8, 1] = ⟨.needMore, .skipping 9 7, []⟩ := by decide +kernel
  obtain ⟨-, -, -, -, hkept⟩ := loops_end (show layout.check = .ok () from rfl) hreachable buffer
  obtain ⟨-, hstable, -⟩ := loops_end (show layout.check = .ok () from rfl) Reachable.fresh [8, 1]
  rw [hnext] at hkept
  rw [hmore] at hstable
  exact ⟨rfl, hreachable, hfirst, hnext, hmore, hstable rfl, hkept⟩

end Layout

end Telegram.Frame
