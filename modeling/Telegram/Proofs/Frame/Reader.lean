import Telegram.Proofs.Frame.Chunks
import Telegram.Frame.Reader

/-!
# Reading from a source is decoding what it delivers

A reader asks its source for more bytes whenever its decoder does. Whatever the source delivers, in pieces
of any size, with faults and ends of the stream in between, the answers are those of a fresh decoder that
is given all the bytes at once.

* `Source.Pulls` says what one request takes off a source, and `Source.RunsDry` what requests do until one
  of them finds the end of the stream.
* `Reader.Reads` is the contract of one call. The bytes that it takes off the source take the decoder from
  where it stood before to where it stands afterwards, and each fault that it meets is its answer, unless
  it is an interruption. It answers that the stream has ended only where the source ran dry.
* `Layout.StandsAt` is the simulation relation: a decoder stands where a fresh one would stand after the
  given bytes, except that it may not have been asked for every answer yet. Each call of a reader keeps it
  (`Reader.exists_standsAt`).
* `Reader.answers_stream` reads off it what many calls answer.

A source has a life of its own between calls. It may come to an end and go on delivering afterwards, as a
file does that is being written, so that an end of the stream is an answer like others and not the last
one.
-/

namespace Telegram.Frame

/-! ## Requests to a source

A request is answered with the bytes of the first item, or with as many as fit into a chunk, with its
fault, or with no bytes at all. An empty item is taken for the end of the stream, as there is no way to
tell them apart. -/

/-- The bytes of an item. -/
def Item.bytes : Item → Bytes
  | .data bytes => bytes
  | .fault _ => []

/-- The fault that an item is reported as. An interruption is not reported. -/
def Item.fault? : Item → Option SourceFault
  | .data _ | .fault .interrupted => none
  | .fault cause => some cause

namespace Source

/-- All the bytes that a source delivers. -/
def data (source : Source) : Bytes :=
  source.flatMap Item.bytes

/-- The faults that a source has reported, one after the other. -/
def faults (source : Source) : List SourceFault :=
  source.filterMap Item.fault?

/-- What one request takes off a source. Between them, the cases say that neither bytes nor faults are
lost on the way: what is not handed over is still there. -/
inductive Pulls : Source → Except SourceFault Bytes → Source → Prop where
  /-- An end of the stream, where no item is left or the item is empty. -/
  | nothing {source rest : Source} (hdata : source.data = rest.data)
      (hfaults : source.faults = rest.faults) : Pulls source (.ok []) rest
  | chunk {source rest : Source} {chunk : Bytes} (hchunk : chunk ≠ [])
      (hdata : source.data = chunk ++ rest.data) (hfaults : source.faults = rest.faults)
      (hweight : rest.weight < source.weight) : Pulls source (.ok chunk) rest
  | fault (fault : SourceFault) (rest : Source) : Pulls (.fault fault :: rest) (.error fault) rest

/-- Request after request the source delivers bytes, or nothing but an interruption, until it has none to
give: the end of the stream, after which `rest` is left. -/
inductive RunsDry : Source → Source → Prop where
  | ended {source rest : Source} (hpull : source.pull = (.ok [], rest)) : RunsDry source rest
  | chunk {source next rest : Source} {chunk : Bytes} (hpull : source.pull = (.ok chunk, next)) (hchunk : chunk ≠ [])
      (hlater : RunsDry next rest) : RunsDry source rest
  | interrupted {source next rest : Source} (hpull : source.pull = (.error .interrupted, next))
      (hlater : RunsDry next rest) : RunsDry source rest

/-- An item of data is delivered, as much of it as is asked for. -/
theorem pull_data (bytes : Bytes) (rest : Source) :
    Pulls (.data bytes :: rest) (pull (.data bytes :: rest)).1 (pull (.data bytes :: rest)).2 := by
  rw [pull]
  split
  · cases bytes with
    | nil => exact .nothing rfl (by rfl)
    | cons b bytes => exact .chunk (List.cons_ne_nil b bytes) rfl (by rfl) (by simp [weight])
  · rename_i hlong
    have hpositive : 0 < chunkSize := by decide
    have hchunk : bytes.take chunkSize ≠ [] := by
      intro hnil
      have hlength := congrArg List.length hnil
      rw [List.length_take, List.length_nil] at hlength
      omega
    have hweight : weight (.data (bytes.drop chunkSize) :: rest) < weight (.data bytes :: rest) := by
      simp only [weight, List.length_drop]
      omega
    refine .chunk hchunk ?_ rfl hweight
    simp only [data, List.flatMap_cons, Item.bytes]
    rw [← List.append_assoc, List.take_append_drop]

theorem pulls_pull (source : Source) : Pulls source source.pull.1 source.pull.2 := by
  cases source with
  | nil => exact .nothing rfl rfl
  | cons item rest =>
    cases item with
    | data bytes => exact pull_data bytes rest
    | fault fault => exact .fault fault rest

end Source

/-! ## Errors of the decoder

A reader passes on errors of its decoder and faults of its source in the same kind of answer. To tell
which is which, it has to be known that the decoder never makes up one that a source would report. -/

/-- The error is about the bytes, not about the source that they come from. -/
def Error.isFraming : Error → Bool
  | .source _ | .closed => false
  | _ => true

/-- An error in the step is about the bytes. -/
def Step.Framing (step : Step) : Prop :=
  ∀ e, step.outcome = .error e → e.isFraming = true

namespace Layout

variable {layout : Layout}

/-- **The decoder speaks of bytes alone**: it makes up no fault of a source and no end of a stream. -/
theorem next_framing (hcheck : layout.check = .ok ()) (state : State) (buffer : Bytes) :
    (layout.next state buffer).Framing := by
  intro e he
  have hframe := next_concernsFrame hcheck state buffer e he
  cases e with
  | corrupted cause => rfl
  | tooLong length max skipping => rfl
  | _ => cases hframe

/-! ## Where a decoder stands

A reader stops asking its decoder as soon as there is an answer to hand on, and the bytes behind that
answer stay buffered. A fresh decoder that is fed them all would have gone on. So the two are compared
after both have been asked for everything. -/

/-- Feeding depends on where a decoder stands, and on what it has answered so far up to the remark that
`Outcome.settled` forgets. -/
theorem feed_settled_congr {first second : Trace} (h : first.settled = second.settled) (chunk : Bytes) :
    (layout.feed first chunk).settled = (layout.feed second chunk).settled := by
  simp only [Trace.settled, Trace.mk.injEq] at h
  obtain ⟨houtcomes, hstate, hbuffer⟩ := h
  rw [feed, feed, Trace.settled_after, Trace.settled_after, houtcomes, hstate, hbuffer]

/-- Feeding one chunk after the other is feeding them together. -/
theorem feed_append (hcheck : layout.check = .ok ()) {trace : Trace} (hsound : trace.state.Sound)
    (first second : Bytes) :
    (layout.feed trace (first ++ second)).settled =
      (layout.feed (layout.feed trace first) second).settled := by
  rw [feed, ← List.append_assoc, Trace.settled_after, exhaust_append hcheck hsound,
    ← Trace.settled_after, Trace.after_after]
  rfl

/-- A decoder stands where a fresh one would stand after the bytes, once it has been asked for the answers
that it still has to give. So it does not matter how many of them were
already asked for, as they are among the answers on both sides. -/
def StandsAt (layout : Layout) (delivered : Bytes) (trace : Trace) : Prop :=
  (layout.feed {} delivered).settled = (layout.feed trace []).settled

/-- A fresh decoder that has been given nothing stands where it does. -/
theorem standsAt_nil (layout : Layout) : layout.StandsAt [] {} :=
  rfl

/-- **More bytes** take a decoder further, however many answers it has given to them. -/
theorem StandsAt.append (hcheck : layout.check = .ok ()) {delivered : Bytes} {trace trace' : Trace}
    (h : layout.StandsAt delivered trace) (hsound : trace.state.Sound) {more : Bytes}
    (hmore : layout.feed trace more = layout.feed trace' []) :
    layout.StandsAt (delivered ++ more) trace' := by
  have hfresh : State.Sound .framing := trivial
  calc (layout.feed {} (delivered ++ more)).settled
      = (layout.feed (layout.feed {} delivered) more).settled := feed_append hcheck hfresh _ _
    _ = (layout.feed (layout.feed trace []) more).settled := feed_settled_congr h more
    _ = (layout.feed trace ([] ++ more)).settled := (feed_append hcheck hsound [] more).symm
    _ = (layout.feed trace' []).settled := congrArg Trace.settled hmore

/-- A decoder that asks for more bytes has nothing left to answer. -/
theorem feed_nil_of_idle (hcheck : layout.check = .ok ()) {trace : Trace} (hidle : trace.Idle layout) :
    layout.feed trace [] = trace := by
  have hquiet := exhaust_of_needMore hcheck hidle.sound (by rw [hidle.waits])
  rw [hidle.waits] at hquiet
  rw [feed, List.append_nil, hquiet]
  simp [Trace.after]

theorem feed_fresh (layout : Layout) (bytes : Bytes) :
    layout.feed {} bytes = layout.exhaust .framing bytes :=
  rfl

/-- What a decoder has answered is what a fresh one answers first, whatever bytes are still to come. -/
theorem StandsAt.outcomes_prefix (hcheck : layout.check = .ok ()) {delivered : Bytes} {trace : Trace}
    (h : layout.StandsAt delivered trace) (rest : Bytes) :
    trace.outcomes.map Outcome.settled <+:
      (layout.exhaust .framing (delivered ++ rest)).outcomes.map Outcome.settled := by
  have hfresh : State.Sound .framing := trivial
  have hwhole : (layout.exhaust .framing (delivered ++ rest)).settled =
      (layout.feed (layout.feed trace []) rest).settled :=
    (feed_append hcheck hfresh delivered rest).trans (feed_settled_congr h rest)
  have houtcomes := congrArg Trace.outcomes hwhole
  simp only [Trace.settled, feed, Trace.after, List.map_append, List.append_assoc] at houtcomes
  rw [houtcomes]
  exact List.prefix_append _ _

/-- A decoder that asks for more bytes stands exactly where a fresh one does. -/
theorem StandsAt.settled_eq (hcheck : layout.check = .ok ()) {delivered : Bytes} {trace : Trace}
    (h : layout.StandsAt delivered trace) (hidle : trace.Idle layout) :
    (layout.exhaust .framing delivered).settled = trace.settled := by
  rwa [StandsAt, feed_fresh, feed_nil_of_idle hcheck hidle] at h

end Layout

/-! ## One call of a reader

A call asks the decoder, and as long as this needs more it asks the source. There are four ways out of
that: an answer of the decoder, a fault, the end of the stream, and an interruption, after which it goes
on. The induction is on the fuel, and follows these. -/

namespace Reader

open Layout

/-- The answer of the decoder that a call hands on, if it does. -/
def framed? : Except Error Bytes → Option Outcome
  | .ok bytes => some (.frame bytes)
  | .error e => if e.isFraming then some (.error e) else none

/-- The fault of the source that a call reports, if it does. -/
def fault? : Except Error Bytes → Option SourceFault
  | .error (.source fault) => some fault
  | _ => none

/-- Where the decoder of a reader stands when it has given these answers. -/
def trace (reader : Reader) (outcomes : List Outcome) : Trace :=
  { outcomes, state := reader.state, buffer := reader.buffer }

/-- What one call does: the bytes that it takes off the source take the decoder to where it stands after
the call. -/
structure Reads (before : Reader) (answer : Except Error Bytes) (after : Reader) : Prop where
  layout : after.layout = before.layout
  sound : after.state.Sound
  faults : before.source.faults = (fault? answer).toList ++ after.source.faults
  stands : ∃ delivered, before.source.data = delivered ++ after.source.data ∧
    ∀ outcomes, before.layout.feed (before.trace outcomes) delivered =
      before.layout.feed (after.trace (outcomes ++ (framed? answer).toList)) []
  /-- What is not answered by the decoder is answered when the decoder asks for more bytes. -/
  idle : framed? answer = none → ∀ outcomes, (after.trace outcomes).Idle before.layout
  /-- The end of the stream is answered where a request of this call has found it. -/
  closed : answer = .error .closed → before.source.RunsDry after.source

variable {reader : Reader}

/-- A call that the decoder answers from what is buffered. -/
theorem reads_of_ne_needMore (hcheck : reader.layout.check = .ok ()) (hsound : reader.state.Sound)
    {step : Step} (hstep : reader.layout.next reader.state reader.buffer = step)
    (hmore : step.outcome ≠ .needMore) {answer : Except Error Bytes}
    (hframed : framed? answer = some step.outcome) (hfault : fault? answer = none) :
    reader.Reads answer { reader with state := step.state, buffer := step.buffer } where
  layout := rfl
  sound := hstep ▸ (next_advances hcheck hsound reader.buffer).sound
  faults := by rw [hfault]; rfl
  stands := by
    refine ⟨[], rfl, fun outcomes => ?_⟩
    subst hstep
    have hanswer := exhaust_of_ne_needMore hcheck hsound hmore
    simp only [feed, trace, List.append_nil, hanswer, Trace.after_after, hframed]
    rfl
  idle hnone := by
    rw [hframed] at hnone
    cases hnone
  closed hclosed := by
    rw [hclosed] at hframed
    cases hframed

/-- Asking the decoder again with more bytes is asking it at once with all of them. -/
theorem feed_of_needMore (hcheck : reader.layout.check = .ok ()) (hsound : reader.state.Sound)
    {step : Step} (hstep : reader.layout.next reader.state reader.buffer = step)
    (hwait : step.outcome = .needMore) (outcomes : List Outcome) (more : Bytes) :
    reader.layout.feed (reader.trace outcomes) more =
      reader.layout.feed { outcomes, state := step.state, buffer := step.buffer } more := by
  subst hstep
  have hadvances := next_advances hcheck hsound reader.buffer
  have hagain := (next_grows hcheck reader.state reader.buffer more).eq_next hwait
  simp only [feed, trace, exhaust_congr hcheck hsound hadvances.sound hagain]

/-- A call that ends when the decoder asks for more bytes, as the source has none to give. It has found a
fault or the end of the stream. -/
theorem reads_of_needMore (hcheck : reader.layout.check = .ok ()) (hsound : reader.state.Sound)
    {step : Step} (hstep : reader.layout.next reader.state reader.buffer = step)
    (hwait : step.outcome = .needMore) {answer : Except Error Bytes} (hframed : framed? answer = none)
    {rest : Source} (hdata : reader.source.data = rest.data)
    (hfaults : reader.source.faults = (fault? answer).toList ++ rest.faults)
    (hclosed : answer = .error .closed → reader.source.pull = (.ok [], rest)) :
    reader.Reads answer { reader with state := step.state, buffer := step.buffer, source := rest } where
  layout := rfl
  sound := hstep ▸ (next_advances hcheck hsound reader.buffer).sound
  faults := hfaults
  stands := by
    refine ⟨[], hdata, fun outcomes => ?_⟩
    rw [feed_of_needMore hcheck hsound hstep hwait, hframed, Option.toList_none, List.append_nil]
    rfl
  idle _ outcomes := by
    subst hstep
    refine ⟨(next_advances hcheck hsound reader.buffer).sound, ?_⟩
    simp only [trace, next_of_needMore hcheck hwait, ← hwait]
  closed h := .ended (hclosed h)

/-- A call that goes on with what the source has delivered. -/
theorem Reads.of_needMore (hcheck : reader.layout.check = .ok ()) (hsound : reader.state.Sound)
    {step : Step} (hstep : reader.layout.next reader.state reader.buffer = step)
    (hwait : step.outcome = .needMore) {chunk : Bytes} {rest : Source}
    (hdata : reader.source.data = chunk ++ rest.data) (hfaults : reader.source.faults = rest.faults)
    (hlater : ∀ {dry : Source}, rest.RunsDry dry → reader.source.RunsDry dry)
    {answer : Except Error Bytes} {after : Reader}
    (h : Reads { reader with state := step.state, buffer := step.buffer ++ chunk, source := rest }
      answer after) :
    reader.Reads answer after where
  layout := h.layout
  sound := h.sound
  faults := hfaults.trans h.faults
  stands := by
    obtain ⟨delivered, hdelivered, hstands⟩ := h.stands
    refine ⟨chunk ++ delivered, ?_, fun outcomes => ?_⟩
    · rw [hdata, List.append_assoc]
      exact congrArg (chunk ++ ·) hdelivered
    · rw [feed_of_needMore hcheck hsound hstep hwait, ← hstands outcomes]
      simp only [feed, trace, List.append_assoc]
  idle := h.idle
  closed hclosed := hlater (h.closed hclosed)

/-- The fuel of a call covers every request that the source can answer, so a call never ends for want of
it. -/
theorem readIn_reads {fuel : Nat} (hcheck : reader.layout.check = .ok ()) (hsound : reader.state.Sound)
    (hfuel : reader.source.weight < fuel) :
    reader.Reads (reader.readIn fuel).1 (reader.readIn fuel).2 := by
  induction fuel generalizing reader with
  | zero => exact absurd hfuel (Nat.not_lt_zero _)
  | succ fuel ih =>
    have hpulls := reader.source.pulls_pull
    have hframing := next_framing hcheck reader.state reader.buffer
    have hadvances := next_advances hcheck hsound reader.buffer
    obtain ⟨step, hstep⟩ : ∃ step, reader.layout.next reader.state reader.buffer = step := ⟨_, rfl⟩
    obtain ⟨answer, rest, hpull⟩ : ∃ answer rest, reader.source.pull = (answer, rest) := ⟨_, _, rfl⟩
    rw [hstep] at hframing hadvances
    rw [hpull] at hpulls
    simp only [readIn, hstep]
    cases houtcome : step.outcome with
    | frame bytes =>
      exact reads_of_ne_needMore hcheck hsound hstep (by simp [houtcome]) (by rw [houtcome]; rfl) rfl
    | error e =>
      have he := hframing e houtcome
      refine reads_of_ne_needMore hcheck hsound hstep (by simp [houtcome]) ?_ ?_
      · rw [framed?, if_pos he, houtcome]
      · cases e <;> first | rfl | cases he
    | needMore =>
      simp only [hpull]
      generalize hsource : reader.source = source at hpulls hfuel
      cases hpulls with
      | nothing hdata hfaults =>
        exact reads_of_needMore hcheck hsound hstep houtcome rfl (hsource ▸ hdata) (hsource ▸ hfaults)
          fun _ => hpull
      | @chunk _ _ chunk hchunk hdata hfaults hweight =>
        cases chunk with
        | nil => exact absurd rfl hchunk
        | cons b chunk =>
          exact .of_needMore hcheck hsound hstep houtcome (hsource ▸ hdata) (hsource ▸ hfaults)
            (.chunk hpull hchunk) (ih hcheck hadvances.sound (Nat.lt_of_lt_of_le hweight (Nat.le_of_lt_succ hfuel)))
      | fault cause =>
        have hlt : 1 + rest.weight < fuel + 1 := hfuel
        cases cause with
        | interrupted =>
          -- the decoder is asked once more, with nothing new
          have hdata : reader.source.data = [] ++ rest.data := by rw [hsource]; rfl
          refine .of_needMore hcheck hsound hstep houtcome hdata (by rw [hsource]; rfl) (.interrupted hpull) ?_
          rw [List.append_nil]
          exact ih hcheck hadvances.sound (show rest.weight < fuel by omega)
        | _ =>
          exact reads_of_needMore hcheck hsound hstep houtcome rfl (by rw [hsource]; rfl) (by rw [hsource]; rfl) nofun

/-- **One call** of a reader whose decoder is in a sound state. -/
theorem read_reads (hcheck : reader.layout.check = .ok ()) (hsound : reader.state.Sound) :
    reader.Reads reader.read.1 reader.read.2 :=
  readIn_reads hcheck hsound (Nat.lt_succ_self _)

/-! ## Many calls

Everything that is said of many calls is a sum over single ones: of bytes delivered, of answers, of
faults. The relation to a fresh decoder is kept by each call and read off after the last. -/

/-- The reader after so many calls. -/
def after (reader : Reader) : Nat → Reader
  | 0 => reader
  | count + 1 => (reader.after count).read.2

/-- The answer of a call, the first one being number 0. -/
def answer (reader : Reader) (call : Nat) : Except Error Bytes :=
  (reader.after call).read.1

/-- The answers of so many calls. -/
def answers (reader : Reader) (count : Nat) : List (Except Error Bytes) :=
  (List.range count).map reader.answer

/-- What the decoder has answered in so many calls. -/
def framed (reader : Reader) (count : Nat) : List Outcome :=
  (reader.answers count).filterMap framed?

/-- The faults of the source that so many calls have reported. -/
def reported (reader : Reader) (count : Nat) : List SourceFault :=
  (reader.answers count).filterMap fault?

theorem answers_succ (reader : Reader) (count : Nat) :
    reader.answers (count + 1) = reader.answers count ++ [reader.answer count] := by
  rw [answers, List.range_succ, List.map_append]
  rfl

theorem framed_succ (reader : Reader) (count : Nat) :
    reader.framed (count + 1) = reader.framed count ++ (framed? (reader.answer count)).toList := by
  rw [framed, answers_succ, List.filterMap_append, ← framed]
  cases h : framed? (reader.answer count) <;> simp [h]

theorem reported_succ (reader : Reader) (count : Nat) :
    reader.reported (count + 1) = reader.reported count ++ (fault? (reader.answer count)).toList := by
  rw [reported, answers_succ, List.filterMap_append, ← reported]
  cases h : fault? (reader.answer count) <;> simp [h]

/-- More calls add answers behind those that there are. -/
theorem framed_prefix (reader : Reader) {count count' : Nat} (hle : count ≤ count') :
    reader.framed count <+: reader.framed count' := by
  induction hle with
  | refl => exact List.prefix_refl _
  | step _ ih =>
    rw [framed_succ]
    exact ih.trans (List.prefix_append _ _)

theorem after_layout_sound (hcheck : reader.layout.check = .ok ()) (hsound : reader.state.Sound)
    (count : Nat) : (reader.after count).layout = reader.layout ∧ (reader.after count).state.Sound := by
  induction count with
  | zero => exact ⟨rfl, hsound⟩
  | succ count ih =>
    obtain ⟨hlayout, hsound⟩ := ih
    have hreads := read_reads (hlayout ▸ hcheck) hsound
    exact ⟨hreads.layout.trans hlayout, hreads.sound⟩

/-- The contract of each of many calls. -/
theorem reads_answer (hcheck : reader.layout.check = .ok ()) (hsound : reader.state.Sound)
    (call : Nat) : (reader.after call).Reads (reader.answer call) (reader.after (call + 1)) := by
  obtain ⟨hlayout, hsound⟩ := after_layout_sound hcheck hsound call
  exact read_reads (hlayout ▸ hcheck) hsound

/-- **Each fault is reported once**, in its turn: what has been reported and what is still to come make up
the faults of the source. -/
theorem reported_append_faults (hcheck : reader.layout.check = .ok ()) (hsound : reader.state.Sound)
    (count : Nat) :
    reader.reported count ++ (reader.after count).source.faults = reader.source.faults := by
  induction count with
  | zero => rfl
  | succ count ih =>
    rw [reported_succ, List.append_assoc, ← (reads_answer hcheck hsound count).faults, ih]

/-- A reader that is started has a layout that can describe a frame, and a fresh decoder. -/
theorem start_eq_ok_iff {layout : Layout} {source : Source} :
    start layout source = .ok reader ↔ layout.check = .ok () ∧ reader = { layout, source } := by
  rw [start]
  cases layout.check with
  | error e => exact ⟨nofun, nofun⟩
  | ok => exact ⟨fun h => ⟨rfl, (Except.ok.inj h).symm⟩, fun h => congrArg Except.ok h.2.symm⟩

section Started

variable {layout : Layout} {source : Source}

theorem sound_of_start (hstart : start layout source = .ok reader) :
    layout.check = .ok () ∧ reader.layout = layout ∧ reader.source = source ∧ reader.state.Sound := by
  obtain ⟨hcheck, rfl⟩ := start_eq_ok_iff.1 hstart
  exact ⟨hcheck, rfl, rfl, trivial⟩

/-- **The simulation**: after any number of calls the decoder of a reader stands where a fresh one stands
after the bytes that the source has delivered. -/
theorem exists_standsAt (hstart : start layout source = .ok reader) (count : Nat) :
    ∃ delivered, source.data = delivered ++ (reader.after count).source.data ∧
      layout.StandsAt delivered ((reader.after count).trace (reader.framed count)) := by
  induction count with
  | zero =>
    obtain ⟨-, rfl⟩ := start_eq_ok_iff.1 hstart
    exact ⟨[], rfl, standsAt_nil layout⟩
  | succ count ih =>
    obtain ⟨hcheck, rfl, -, hsound⟩ := sound_of_start hstart
    obtain ⟨delivered, hdata, hstands⟩ := ih
    obtain ⟨hlayout, hsound'⟩ := after_layout_sound hcheck hsound count
    obtain ⟨more, hmore, hfeed⟩ := (reads_answer hcheck hsound count).stands
    refine ⟨delivered ++ more, by rw [hdata, hmore, List.append_assoc], ?_⟩
    have hfeed := hfeed (reader.framed count)
    rw [hlayout, ← framed_succ] at hfeed
    exact hstands.append hcheck hsound' hfeed

/-- What the decoder of a reader has answered is what a fresh one answers first. -/
theorem framed_prefix_exhaust (hstart : start layout source = .ok reader) (count : Nat) :
    (reader.framed count).map Outcome.settled <+:
      (layout.exhaust .framing source.data).outcomes.map Outcome.settled := by
  obtain ⟨hcheck, -⟩ := sound_of_start hstart
  obtain ⟨delivered, hdata, hstands⟩ := exists_standsAt hstart count
  rw [hdata]
  exact hstands.outcomes_prefix hcheck _

/-- The call was answered by the source: it failed, or it had no bytes to give. -/
theorem framed?_eq_none_iff {answer : Except Error Bytes} :
    framed? answer = none ↔ answer = .error .closed ∨ ∃ fault, answer = .error (.source fault) := by
  cases answer with
  | ok bytes => simp [framed?]
  | error e => cases e <;> simp [framed?, Error.isFraming]

/-- A call that was answered by the source leaves the decoder where a fresh one stands that has been given
all the bytes so far. -/
theorem exists_drained (hstart : start layout source = .ok reader) {call : Nat}
    (hanswer : framed? (reader.answer call) = none) :
    ∃ delivered, source.data = delivered ++ (reader.after (call + 1)).source.data ∧
      (layout.exhaust .framing delivered).settled =
        ((reader.after (call + 1)).trace (reader.framed (call + 1))).settled := by
  obtain ⟨hcheck, rfl, -, hsound⟩ := sound_of_start hstart
  obtain ⟨delivered, hdata, hstands⟩ := exists_standsAt hstart (call + 1)
  obtain ⟨hlayout, -⟩ := after_layout_sound hcheck hsound call
  have hidle := (reads_answer hcheck hsound call).idle hanswer (reader.framed (call + 1))
  exact ⟨delivered, hdata, hstands.settled_eq hcheck (hlayout ▸ hidle)⟩

/-- Once the end of the stream was found with no item left, there is nothing more to answer. -/
theorem framed_eq_exhaust (hstart : start layout source = .ok reader) {call count : Nat}
    (hcall : call < count) (hclosed : reader.answer call = .error .closed)
    (hempty : (reader.after (call + 1)).source = []) :
    (reader.framed count).map Outcome.settled =
      (layout.exhaust .framing source.data).outcomes.map Outcome.settled := by
  obtain ⟨delivered, hdata, hdrained⟩ := exists_drained hstart (framed?_eq_none_iff.2 (.inl hclosed))
  rw [hempty, show Source.data [] = [] from rfl, List.append_nil] at hdata
  have houtcomes := congrArg (fun trace => trace.outcomes.length) hdrained
  simp only [Trace.settled, trace, List.length_map, ← hdata] at houtcomes
  refine (framed_prefix_exhaust hstart count).eq_of_length_le ?_
  rw [List.length_map, List.length_map, houtcomes]
  exact (reader.framed_prefix hcall).length_le

/-- The end of the stream is answered where the source ran dry and the decoder waits for bytes. -/
theorem runsDry_of_closed (hstart : start layout source = .ok reader) {call : Nat}
    (hclosed : reader.answer call = .error .closed) :
    (reader.after call).source.RunsDry (reader.after (call + 1)).source ∧
      (layout.next (reader.after (call + 1)).state (reader.after (call + 1)).buffer).outcome = .needMore := by
  obtain ⟨hcheck, rfl, -, hsound⟩ := sound_of_start hstart
  obtain ⟨hlayout, -⟩ := after_layout_sound hcheck hsound call
  have hreads := reads_answer hcheck hsound call
  have hidle := hreads.idle (framed?_eq_none_iff.2 (.inl hclosed)) []
  rw [hlayout] at hidle
  exact ⟨hreads.closed hclosed, congrArg Step.outcome hidle.waits⟩

end Started

theorem ne_interrupted_of_mem_faults {source : Source} {fault : SourceFault}
    (hmem : fault ∈ source.faults) : fault ≠ .interrupted := by
  obtain ⟨item, -, hitem⟩ := List.mem_filterMap.1 hmem
  rintro rfl
  cases item with
  | data bytes => cases hitem
  | fault cause => cases cause <;> cases hitem

/-- **Reading is decoding.** Take a source of bytes, empty pieces and faults, and any number of calls for
a frame.

* What the decoder answers in these calls is what a fresh decoder answers first when it is given all the
  bytes of the source, up to the remark whether the bytes of an oversized frame were still to come.
* It is all of that as soon as a call found the end of the stream with no item left.
* The faults that have been reported, and those of the items that are left, are the faults of the source
  in their order, without the interruptions; no interruption is ever reported.
* After a fault or an end of the stream the decoder stands where a fresh one stands that was given the
  bytes delivered so far, and those are the bytes of the source without the ones that are left.
* A call answers that the stream has ended only if it has asked until the source had no bytes to give, and
  the decoder needs more of them. -/
theorem answers_stream {layout : Layout} {source : Source} (hstart : start layout source = .ok reader)
    (count : Nat) :
    let whole := (layout.exhaust .framing source.data).outcomes.map Outcome.settled
    (reader.framed count).map Outcome.settled <+: whole ∧
      (∀ call < count, reader.answer call = .error .closed → (reader.after (call + 1)).source = [] →
        (reader.framed count).map Outcome.settled = whole) ∧
      (reader.reported count ++ (reader.after count).source.faults = source.faults ∧
        .error (.source .interrupted) ∉ reader.answers count) ∧
      (∀ call < count,
        (reader.answer call = .error .closed ∨ ∃ fault, reader.answer call = .error (.source fault)) →
        ∃ delivered, source.data = delivered ++ (reader.after (call + 1)).source.data ∧
          let drained := layout.exhaust .framing delivered
          drained.outcomes.map Outcome.settled = (reader.framed (call + 1)).map Outcome.settled ∧
            drained.state = (reader.after (call + 1)).state ∧
            drained.buffer = (reader.after (call + 1)).buffer) ∧
      ∀ call < count, reader.answer call = .error .closed →
        (reader.after call).source.RunsDry (reader.after (call + 1)).source ∧
          (layout.next (reader.after (call + 1)).state (reader.after (call + 1)).buffer).outcome = .needMore := by
  have hreported : reader.reported count ++ (reader.after count).source.faults = source.faults := by
    obtain ⟨hcheck, rfl, rfl, hsound⟩ := sound_of_start hstart
    exact reported_append_faults hcheck hsound count
  refine ⟨framed_prefix_exhaust hstart count, fun call => framed_eq_exhaust hstart,
    ⟨hreported, ?interrupted⟩, ?across, fun call _ hclosed => runsDry_of_closed hstart hclosed⟩
  case interrupted =>
    intro hmem
    have hlisted : .interrupted ∈ reader.reported count := List.mem_filterMap.2 ⟨_, hmem, rfl⟩
    exact ne_interrupted_of_mem_faults (hreported ▸ List.mem_append_left _ hlisted) rfl
  case across =>
    intro call _ hanswer
    obtain ⟨delivered, hdata, hdrained⟩ := exists_drained hstart (framed?_eq_none_iff.2 hanswer)
    simp only [Trace.settled, Trace.mk.injEq] at hdrained
    exact ⟨delivered, hdata, hdrained⟩

/-- Noise, a frame, an oversized frame and a frame, with an interruption, a fault and an empty piece in
the middle of them. -/
theorem answers_stream_of_cut_frames :
    let layout : Layout := { header := .one 0x68, offset := 1, width := 1, adjustment := 1, maxLength := 8 }
    let source : Source :=
      [.data [0, 0x68, 2], .fault .interrupted, .data [10, 11, 12, 0x68], .fault .wouldBlock,
        .data [9, 1, 2], .data [], .data [3, 4, 5, 6, 7, 8, 9, 10, 0x68, 0], .data [0x55]]
    let reader : Reader := { layout, source }
    (start layout source = .ok reader ∧ reader.answer 5 = .error .closed ∧
        (reader.after 6).source = [] ∧ reader.answer 1 = .error (.source .wouldBlock)) ∧
      reader.framed 6 =
        [.frame [0x68, 2, 10, 11, 12], .error (.tooLong 12 8 true), .frame [0x68, 0, 0x55]] ∧
      (reader.framed 6).map Outcome.settled =
        (layout.exhaust .framing source.data).outcomes.map Outcome.settled ∧
      reader.reported 6 = [.wouldBlock] ∧
      (∃ delivered, source.data = delivered ++ (reader.after 2).source.data ∧
        (layout.exhaust .framing delivered).buffer = (reader.after 2).buffer) ∧
      (reader.after 5).source.RunsDry (reader.after 6).source := by
  intro layout source reader
  have hstart : start layout source = .ok reader := rfl
  have hclosed : reader.answer 5 = .error .closed := by decide +kernel
  have hempty : (reader.after 6).source = [] := by decide +kernel
  have hblocked : reader.answer 1 = .error (.source .wouldBlock) := by decide +kernel
  obtain ⟨-, hwhole, ⟨hreported, -⟩, hacross, hdry⟩ := answers_stream hstart 6
  rw [hempty] at hreported
  obtain ⟨delivered, hdata, -, -, hbuffer⟩ := hacross 1 (by decide) (.inr ⟨_, hblocked⟩)
  exact ⟨⟨hstart, hclosed, hempty, hblocked⟩, by decide +kernel, hwhole 5 (by decide) hclosed hempty,
    (List.append_nil _).symm.trans hreported, ⟨delivered, hdata, hbuffer⟩, (hdry 5 (by decide) hclosed).1⟩

end Reader

end Telegram.Frame
