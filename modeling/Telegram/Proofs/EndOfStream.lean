import Telegram.Proofs.Frame.Chunks
import Telegram.Proofs.Frame.Discard
import Telegram.Proofs.Message

/-!
# The end of a stream

When no more bytes will come, a decoder is asked by `Layout.nextAtEnd`. Bytes that are left over and make
no frame are then an error, unless they belong to an oversized frame. That exception hides nothing, as a
decoder that skips an oversized frame has no bytes left over.

* `askTimes` are the answers to asking over and over, and stops for none of them.
* `Layout.askTimes_nextAtEnd` says that asking at the end answers what the stream still has, and after it
  `Trace.ending` for ever.
* `Receiver.askAtEnd` asks a receiver over and over. It translates what the decoder answers, answer by
  answer (`Receiver.askAtEnd_eq_some_iff`).
* `Layout.nextAtEnd_hides_nothing` puts both together, from wherever a decoder is.
-/

namespace Telegram.Frame

/-- The answers to asking so many times, each where the one before has led. -/
def askTimes (ask : State → Bytes → Step) : Nat → State → Bytes → List Step
  | 0, _, _ => []
  | count + 1, state, buffer =>
    let step := ask state buffer
    step :: askTimes ask count step.state step.buffer

/-- What is answered at the end of a stream when it has nothing more to give: the bytes that are left
over, if any, belong to no frame. -/
def Trace.ending (trace : Trace) : Step :=
  ⟨if trace.buffer = [] then .needMore else .error .closed, trace.state, trace.buffer⟩

/-- Where asking changes nothing, all answers are the same. -/
theorem askTimes_of_eq {ask : State → Bytes → Step} {step : Step}
    (hsame : ask step.state step.buffer = step) (count : Nat) :
    askTimes ask count step.state step.buffer = List.replicate count step := by
  induction count with
  | zero => rfl
  | succ count ih => rw [askTimes, hsame, ih, List.replicate_succ]

/-- What is repeated often enough need not be repeated once more. -/
theorem take_append_replicate_succ (steps : List Step) (step : Step) (count : Nat) :
    (steps ++ List.replicate (count + 1) step).take count =
      (steps ++ List.replicate count step).take count := by
  rw [List.replicate_succ', ← List.append_assoc, List.take_append_of_le_length]
  rw [List.length_append, List.length_replicate]
  exact Nat.le_add_left ..

namespace Layout

variable {layout : Layout}

/-! ## The answer of a stream

At the end of a stream the decoder is asked as before, and only if it would wait for bytes is the answer
changed. So all that can go wrong is a wait that is not turned into an error: the one exception is a frame
that is being skipped, and then there is nothing left over that an error could tell of. -/

/-- The answer of a stream is the answer of a last call. -/
theorem Passes.exists_next {state : State} {buffer : Bytes} {step : Step}
    (h : layout.Passes state buffer step) :
    step.outcome.isTooLong = false ∧ ∃ state' buffer', layout.next state' buffer' = step := by
  induction h with
  | stop hkept => exact ⟨hkept, _, _, rfl⟩
  | pass _ _ ih => exact ih

/-- Progress of a stream is progress of its decoder. -/
theorem Passes.advances (hcheck : layout.check = .ok ()) {state : State} (hsound : state.Sound)
    {buffer : Bytes} {step : Step} (h : layout.Passes state buffer step) : step.Advances buffer := by
  induction h with
  | stop _ => exact next_advances hcheck hsound _
  | @pass state buffer _ _ _ ih =>
    have hadvances := next_advances hcheck hsound buffer
    exact (ih hadvances.sound).mono hadvances.le

/-- A stream answers frames, says that a frame is corrupted, and asks for more bytes. -/
theorem Passes.outcome_cases (hcheck : layout.check = .ok ()) {state : State} {buffer : Bytes}
    {step : Step} (h : layout.Passes state buffer step) :
    step.outcome = .needMore ∨ (∃ bytes, step.outcome = .frame bytes) ∨
      ∃ cause, step.outcome = .error (.corrupted cause) := by
  obtain ⟨hkept, state', buffer', rfl⟩ := h.exists_next
  have hframe := next_concernsFrame hcheck state' buffer'
  cases houtcome : (layout.next state' buffer').outcome with
  | needMore => exact .inl rfl
  | frame bytes => exact .inr (.inl ⟨bytes, rfl⟩)
  | error e =>
    rw [houtcome] at hkept
    have hconcerns := hframe e houtcome
    cases e with
    | corrupted cause => exact .inr (.inr ⟨cause, rfl⟩)
    | tooLong => cases hkept
    | _ => cases hconcerns

/-- **Skipping hides no bytes**: a stream that skips an oversized frame has none left over. -/
theorem Passes.buffer_eq_nil (hcheck : layout.check = .ok ()) {state : State} {buffer : Bytes}
    {step : Step} (h : layout.Passes state buffer step) (hskipping : step.state.isSkipping = true) :
    step.buffer = [] := by
  obtain ⟨-, state', buffer', rfl⟩ := h.exists_next
  exact next_buffer_eq_nil hcheck hskipping

/-- A stream that needs more bytes goes on needing them. -/
theorem Passes.nextKept_again (hcheck : layout.check = .ok ()) {state : State} {buffer : Bytes}
    {step : Step} (h : layout.Passes state buffer step) (hwait : step.outcome = .needMore) :
    layout.nextKept step.state step.buffer = step := by
  obtain ⟨hkept, state', buffer', rfl⟩ := h.exists_next
  have hagain := next_of_needMore hcheck hwait
  rw [← hagain] at hkept
  rw [nextKept_of_kept hkept, hagain]

theorem nextAtEnd_of_ne_needMore {state : State} {buffer : Bytes}
    (hmore : (layout.nextKept state buffer).outcome ≠ .needMore) :
    layout.nextAtEnd state buffer = layout.nextKept state buffer := by
  rw [nextAtEnd]
  split
  · exact absurd ‹_› hmore
  · rfl

theorem nextAtEnd_of_needMore (hcheck : layout.check = .ok ()) {state : State} (hsound : state.Sound)
    {buffer : Bytes} (hwait : (layout.nextKept state buffer).outcome = .needMore) :
    layout.nextAtEnd state buffer =
      Trace.ending
        { state := (layout.nextKept state buffer).state, buffer := (layout.nextKept state buffer).buffer } := by
  have hskipping := (nextKept_passes hcheck hsound buffer).buffer_eq_nil hcheck
  rw [nextAtEnd]
  generalize layout.nextKept state buffer = step at hwait hskipping ⊢
  obtain ⟨outcome, state', buffer'⟩ := step
  obtain rfl : outcome = .needMore := hwait
  simp only [Trace.ending, Bool.or_eq_true, List.isEmpty_iff]
  by_cases hnil : buffer' = []
  · rw [if_pos (.inl hnil), if_pos hnil]
  · have hleft : ¬ (buffer' = [] ∨ state'.isSkipping = true) := fun h => hnil (h.elim id hskipping)
    rw [if_neg hleft, if_neg hnil]

/-- At the end of a stream that has nothing more to give, asking changes nothing. -/
theorem nextAtEnd_ending (hcheck : layout.check = .ok ()) {state : State} {buffer : Bytes} {step : Step}
    (hsound : step.state.Sound) (h : layout.Passes state buffer step) (hwait : step.outcome = .needMore) :
    layout.nextAtEnd step.state step.buffer =
      Trace.ending { state := step.state, buffer := step.buffer } := by
  have hagain := h.nextKept_again hcheck hwait
  rw [nextAtEnd_of_needMore hcheck hsound (by rw [hagain]; exact hwait), hagain]

/-! ## Asking at the end

Asking again after an answer is answered with the next, as long as there are any. From then on the answer
is the same and nothing moves, so the answers to any number of requests are a list with its last member
repeated. -/

/-- **At the end nothing is lost.** Asking at the end over and over answers what the stream would have
answered without its end, and in the same order. Then the answer is the same for ever, and leaves
everything as it is. -/
theorem askTimes_nextAtEnd (hcheck : layout.check = .ok ()) {fuel : Nat} {state : State}
    (hsound : state.Sound) {buffer : Bytes} (hfuel : buffer.length < fuel) :
    ∃ steps : List Step,
      steps.map Step.outcome = (layout.exhaustKeptIn fuel state buffer).outcomes ∧
      (∀ step ∈ steps, (∃ bytes, step.outcome = .frame bytes) ∨
        ∃ cause, step.outcome = .error (.corrupted cause)) ∧
      askTimes layout.nextKept steps.length state buffer = steps ∧
      ∀ count, askTimes layout.nextAtEnd count state buffer =
        (steps ++ List.replicate count (layout.exhaustKeptIn fuel state buffer).ending).take count := by
  induction fuel generalizing state buffer with
  | zero => exact absurd hfuel (Nat.not_lt_zero _)
  | succ fuel ih =>
    have hpasses := nextKept_passes hcheck hsound buffer
    have hadvances := hpasses.advances hcheck hsound
    by_cases hwait : (layout.nextKept state buffer).outcome = .needMore
    · have htrace : layout.exhaustKeptIn (fuel + 1) state buffer =
          { state := (layout.nextKept state buffer).state,
            buffer := (layout.nextKept state buffer).buffer } := by
        simp only [exhaustKeptIn, hwait]
      have hending := nextAtEnd_of_needMore hcheck hsound hwait
      refine ⟨[], by rw [htrace]; rfl, fun _ h => (List.not_mem_nil h).elim, rfl, fun count => ?_⟩
      rw [htrace, List.nil_append, List.take_of_length_le (Nat.le_of_eq List.length_replicate)]
      cases count with
      | zero => rfl
      | succ count =>
        rw [askTimes, hending, List.replicate_succ]
        exact congrArg _ (askTimes_of_eq (nextAtEnd_ending hcheck hadvances.sound hpasses hwait) count)
    · have htrace : layout.exhaustKeptIn (fuel + 1) state buffer =
          (layout.exhaustKeptIn fuel (layout.nextKept state buffer).state
            (layout.nextKept state buffer).buffer).after [(layout.nextKept state buffer).outcome] := by
        rw [exhaustKeptIn]
        cases houtcome : (layout.nextKept state buffer).outcome with
        | needMore => exact absurd houtcome hwait
        | frame bytes => simp only
        | error e => simp only
      have hlt := hadvances.lt hwait
      obtain ⟨steps, houtcomes, hcases, hkept, hend⟩ :=
        ih hadvances.sound (Nat.lt_of_lt_of_le hlt (Nat.le_of_lt_succ hfuel))
      refine ⟨layout.nextKept state buffer :: steps, ?_, ?_, ?_, fun count => ?_⟩
      · rw [htrace, List.map_cons, houtcomes]
        rfl
      · exact List.forall_mem_cons.2 ⟨(hpasses.outcome_cases hcheck).resolve_left hwait, hcases⟩
      · rw [List.length_cons, askTimes, hkept]
      · rw [htrace]
        cases count with
        | zero => rfl
        | succ count =>
          rw [askTimes, nextAtEnd_of_ne_needMore hwait, hend, List.cons_append, List.take_succ_cons,
            take_append_replicate_succ]
          rfl

end Layout

end Telegram.Frame

namespace Telegram

open Telegram.Frame

/-! ## Messages at the end

A receiver asks its decoder for frames and reads what is in them. It asks at the end in the same way, and
the dictionary that translates answers of a decoder into those of a receiver is the one for streams
without an end. -/

namespace Receiver

/-- The answers to asking so many times for a message, when no more bytes will come. -/
def askAtEnd (receiver : Receiver) : Nat → State → Bytes → Run (List MessageStep)
  | 0, _, _ => pure []
  | count + 1, state, buffer => do
    let step ← receiver.nextAtEnd state buffer
    let steps ← receiver.askAtEnd count step.state step.buffer
    pure (step :: steps)

variable {receiver : Receiver}

/-- Asking a receiver at the end is asking its decoder at the end: only where the decoder needs more bytes
does the receiver look at what is left over. -/
theorem nextAtEnd_eq_tell (state : State) (buffer : Bytes) :
    receiver.nextAtEnd state buffer = receiver.tell (receiver.layout.nextAtEnd state buffer) := by
  funext table
  rw [nextAtEnd, nextKept_eq_tell, Layout.nextAtEnd]
  generalize receiver.layout.nextKept state buffer = step
  obtain ⟨outcome, state', buffer'⟩ := step
  cases outcome with
  | needMore =>
    have htell : receiver.tell ⟨.needMore, state', buffer'⟩ table =
        some (⟨.needMore, state', buffer'⟩, table) := rfl
    rw [bind_of_eq_some htell]
    simp only
    split <;> rfl
  | error e => rfl
  | frame frame =>
    cases htell : receiver.tell ⟨.frame frame, state', buffer'⟩ table with
    | none => rw [bind_of_eq_none htell]
    | some answer =>
      obtain ⟨message, table'⟩ := answer
      obtain ⟨outcome, htells, rfl⟩ := tell_eq_some_iff.1 htell
      rw [bind_of_eq_some htell]
      -- whatever a frame holds, the receiver does not ask for more bytes
      cases htells <;> rfl

/-- **Asking a receiver at the end translates what its decoder answers there.** -/
theorem askAtEnd_eq_some_iff {count : Nat} {state : State} {buffer : Bytes} {table table' : SlotTable}
    {messages : List MessageStep} :
    receiver.askAtEnd count state buffer table = some (messages, table') ↔
      receiver.Translates table (askTimes receiver.layout.nextAtEnd count state buffer) messages table' := by
  induction count generalizing state buffer table messages with
  | zero =>
    constructor
    · intro h
      obtain ⟨rfl, rfl⟩ := Prod.mk.inj (Option.some.inj h)
      exact .nil table
    · rintro ⟨⟩
      rfl
  | succ count ih =>
    rw [askAtEnd, askTimes, nextAtEnd_eq_tell]
    exact translates_cons_iff fun _ _ _ => ih

/-- There are no answers at the end only where the registry does not answer. -/
theorem askAtEnd_eq_none_iff {count : Nat} {state : State} {buffer : Bytes} {table : SlotTable} :
    receiver.askAtEnd count state buffer table = none ↔
      receiver.Stalls table (askTimes receiver.layout.nextAtEnd count state buffer) := by
  induction count generalizing state buffer table with
  | zero => exact ⟨nofun, nofun⟩
  | succ count ih =>
    rw [askAtEnd, askTimes, nextAtEnd_eq_tell]
    exact stalls_cons_iff fun _ _ => ih

/-- The end of a stream is told as it is: that more bytes are needed, and that the stream was closed. Both
are said of the stream and not of a frame, so a receiver has nothing to add to them. -/
structure EndsAlike (step : Step) (message : MessageStep) : Prop where
  needMore_iff : message.outcome = .needMore ↔ step.outcome = .needMore
  closed_iff : message.outcome = .error (.frame .closed) ↔ step.outcome = .error .closed
  state_eq : message.state = step.state
  buffer_eq : message.buffer = step.buffer

theorem Tells.endsAlike {table table' : SlotTable} {outcome : Outcome} {message : MessageOutcome}
    (h : receiver.Tells table outcome message table') (state : State) (buffer : Bytes) :
    EndsAlike ⟨outcome, state, buffer⟩ ⟨message, state, buffer⟩ := by
  refine ⟨?_, ?_, rfl, rfl⟩ <;> cases h <;> simp

theorem Translates.endsAlike {table table' : SlotTable} {steps : List Step}
    {messages : List MessageStep} (h : receiver.Translates table steps messages table') :
    List.Forall₂ EndsAlike steps messages := by
  induction h with
  | nil => exact .nil
  | cons htells _ ih => exact .cons (htells.endsAlike _ _) ih

end Receiver

/-- **The end of a stream hides nothing.** From wherever a decoder is and whatever is buffered, asking at
the end over and over answers first what the stream still has, frames and corrupted frames in their order.
After that the answer is that more bytes are needed if none are left over, and that the stream was closed
if there are; it stays so and leaves everything as it is. A receiver does the same with the messages in
the frames, and says that it needs more bytes or that the stream was closed exactly where the decoder
does. -/
theorem Frame.Layout.nextAtEnd_hides_nothing {layout : Layout} (hcheck : layout.check = .ok ())
    (calls : List Call) (buffer : Bytes) :
    let state := (layout.after {} calls).state
    let kept := layout.exhaustKept state buffer
    (∃ steps : List Step, steps.map Step.outcome = kept.outcomes ∧
      (∀ step ∈ steps, (∃ bytes, step.outcome = .frame bytes) ∨
        ∃ cause, step.outcome = .error (.corrupted cause)) ∧
      askTimes layout.nextKept steps.length state buffer = steps ∧
      ∀ count, askTimes layout.nextAtEnd count state buffer =
        (steps ++ List.replicate count kept.ending).take count) ∧
    ∀ receiver : Receiver, receiver.layout = layout → ∀ count table,
      (∀ messages table', receiver.askAtEnd count state buffer table = some (messages, table') ↔
        receiver.Translates table (askTimes layout.nextAtEnd count state buffer) messages table') ∧
      (∀ messages table', receiver.askAtEnd count state buffer table = some (messages, table') →
        List.Forall₂ Receiver.EndsAlike (askTimes layout.nextAtEnd count state buffer) messages) ∧
      (receiver.askAtEnd count state buffer table = none ↔
        receiver.Stalls table (askTimes layout.nextAtEnd count state buffer)) := by
  intro state kept
  have hsound : state.Sound := (accounts_after hcheck calls).sound
  refine ⟨askTimes_nextAtEnd hcheck hsound (Nat.lt_succ_self _), ?_⟩
  rintro receiver rfl count table
  refine ⟨fun _ _ => Receiver.askAtEnd_eq_some_iff, fun _ _ h => ?_, Receiver.askAtEnd_eq_none_iff⟩
  exact (Receiver.askAtEnd_eq_some_iff.1 h).endsAlike

/-- What is left of an oversized frame, a frame that is too short, a frame, noise, another oversized
frame, and the beginning of a frame. The decoder and a receiver of numbers say twice that the stream was
closed. -/
theorem Frame.Layout.nextAtEnd_hides_nothing_of_cut_frame :
    let layout : Layout :=
      { header := .one 0x68, offset := 1, width := 1, maxLength := 6, strip := 3 }
    let state := (layout.after {} [.feed [0x68, 9, 1], .next]).state
    let buffer : Bytes :=
      [2, 3, 4, 5, 6, 7, 8, 9, 0x68, 0, 0x68, 2, 7, 8, 0, 0x68, 5, 1, 2, 3, 4, 5, 0x68, 1]
    let receiver : Receiver := { layout, registry := {}, type := .scalar (.int .u8), version := 1 }
    (layout.check = .ok () ∧ state = .skipping 11 8) ∧
      (askTimes layout.nextAtEnd 4 state buffer).map Step.outcome =
        [.error (.corrupted (.shorterThanStrip 2 3)), .frame [8], .error .closed, .error .closed] ∧
      ∃ messages table, receiver.askAtEnd 4 state buffer {} = some (messages, table) ∧
        List.Forall₂ Receiver.EndsAlike (askTimes layout.nextAtEnd 4 state buffer) messages := by
  intro layout state buffer receiver
  obtain ⟨⟨steps, houtcomes, -, -, hend⟩, hmessages⟩ := nextAtEnd_hides_nothing
    (show layout.check = .ok () from rfl) [.feed [0x68, 9, 1], .next] buffer
  refine ⟨⟨rfl, rfl⟩, ?_, ?_⟩
  · rw [hend, List.map_take, List.map_append, houtcomes, List.map_replicate]
    decide +kernel
  · have hanswered : (receiver.askAtEnd 4 state buffer {}).isSome = true := by decide +kernel
    obtain ⟨⟨messages, table⟩, hask⟩ := Option.isSome_iff_exists.1 hanswered
    exact ⟨messages, table, hask, (hmessages receiver rfl 4 {}).2.1 messages table hask⟩

/-- A stream that ends within an oversized frame has nothing left over. -/
example :
    let layout : Frame.Layout := { width := 1, maxLength := 4, failFast := false }
    (Frame.askTimes layout.nextAtEnd 3 .framing [1, 7, 9, 1, 2]).map Frame.Step.outcome =
      [.frame [1, 7], .needMore, .needMore] := by
  decide

end Telegram
