import Telegram.Proofs.Frame.Chunks
import Telegram.Proofs.Frame.Kept
import Telegram.Proofs.Frame.Session

/-!
# Reporting at once or reporting at the end

A layout says whether an oversized frame is reported when it is found or when its last byte has gone by.
This changes when a report is made, and nothing else: not which frames are found, not which are reported,
and not what is buffered or still to be skipped.

The two decoders part only while an oversized frame is incomplete. Then the one that reports at once has
made its report and the other still owes it, which is what `State.pending` holds.

* `Step.Parts` compares one search, in `Layout.scan_parts`.
* `Layout.nextKept_reporting` is about streams, where reports are passed over: there the two never differ.
* `Layout.exhaust_reporting` is about the loop that keeps all answers.
* `Layout.reporting_only_moves_reports` says both for sessions and for feeding.
-/

namespace Telegram.Frame

namespace Layout

/-- The same layout, with oversized frames reported when they are found, or else when they have gone
by. -/
def reporting (layout : Layout) (atOnce : Bool) : Layout :=
  { layout with failFast := atOnce }

/-- The length field is read in the same way. -/
theorem reporting_cut_of_le {layout : Layout} (hcheck : layout.check = .ok ()) {buffer : Bytes}
    (hlong : layout.fieldEnd ≤ buffer.length) :
    ∃ raw, ∀ atOnce, (layout.reporting atOnce).cut buffer = (layout.reporting atOnce).judge raw buffer := by
  obtain ⟨raw, hread⟩ := readLength_field hcheck hlong
  refine ⟨raw, fun atOnce => ?_⟩
  have hread' : readLength (layout.reporting atOnce).order (layout.reporting atOnce).width.toNat
      ((layout.reporting atOnce).field buffer) = .ok raw := hread
  have hlong' : (layout.reporting atOnce).fieldEnd ≤ buffer.length := hlong
  rw [cut_of_le hlong', hread']

end Layout

/-- A step of a stream: bytes arrive, or the next frame is asked for and oversized ones are passed
over. -/
def Call.isStream : Call → Bool
  | .feed _ | .nextKept | .nextAtEnd => true
  | .next | .drain => false

/-- The reports that are owed where they are put off. A decoder that puts them off is behind the other by
these and by nothing else. -/
def State.pending (max : Nat) : State → List Outcome
  | .framing => []
  | .skipping length _ => [.error (.tooLong length max false)]

/-- Two traces that end alike, where the answers of the first are those of the second, except that reports
are owed: by the second trace in the end, and by both at the start. -/
structure Trace.Owes (max : Nat) (owed : List Outcome) (first second : Trace) : Prop where
  state : first.state = second.state
  buffer : first.buffer = second.buffer
  outcomes : owed ++ first.outcomes.map Outcome.settled =
    second.outcomes.map Outcome.settled ++ second.state.pending max

/-- What was owed at the start is paid by the answers in front, and the debt in the end stays. -/
theorem Trace.Owes.after {max : Nat} {first second : Trace} (h : Trace.Owes max [] first second)
    {outcomes outcomes' owed : List Outcome}
    (hpaid : owed ++ outcomes.map Outcome.settled = outcomes'.map Outcome.settled) :
    Trace.Owes max owed (first.after outcomes) (second.after outcomes') := by
  refine ⟨h.state, h.buffer, ?_⟩
  have houtcomes := h.outcomes
  rw [List.nil_append] at houtcomes
  simp only [Trace.after, List.map_append]
  rw [← List.append_assoc, hpaid, houtcomes, List.append_assoc]

/-! ## One search

Both decoders look at the same bytes and judge them by the same numbers. Only in one place do they look at
how reports are to be made, and this is when the bytes of an oversized frame are not all there. -/

/-- What the two decoders answer to the same bytes: the same, or one of them reports the oversized frame
that both begin to skip. -/
inductive Step.Parts (max : Nat) : Step → Step → Prop where
  | same {step : Step} (hstate : step.state = .framing) : Parts max step step
  | early {length left : Nat} (hpos : 0 < left) (hle : left ≤ length) :
      Parts max ⟨.error (.tooLong length max true), .skipping length left, []⟩
        ⟨.needMore, .skipping length left, []⟩

namespace Layout

variable {layout : Layout}

/-- **The one place where the two part**: the bytes of the oversized frame are not all there. -/
theorem skip_parts (length : Nat) (buffer : Bytes) :
    Step.Parts layout.max ((layout.reporting true).skip length buffer)
      ((layout.reporting false).skip length buffer) := by
  rw [skip_eq, skip_eq]
  by_cases hshort : buffer.length < length
  · rw [if_pos hshort, if_pos hshort]
    exact .early (by omega) (Nat.sub_le _ _)
  · rw [if_neg hshort, if_neg hshort]
    exact .same rfl

/-- A frame that is taken, or waited for, leaves nothing to skip. -/
theorem take_state (length : Nat) (buffer : Bytes) : (layout.take length buffer).state = .framing := by
  rw [take_eq]
  split
  · rfl
  · split <;> rfl

/-- The verdict is the same, as it does not ask when reports are made. -/
theorem judge_parts (raw : Int) (buffer : Bytes) :
    Step.Parts layout.max ((layout.reporting true).judge raw buffer)
      ((layout.reporting false).judge raw buffer) := by
  by_cases hnegative : raw < 0
  · have hjudge (atOnce : Bool) : (layout.reporting atOnce).judge raw buffer =
        ⟨.error (.corrupted (.negativeLength raw)), .framing, buffer.drop layout.fieldEnd⟩ :=
      if_pos hnegative
    rw [hjudge, hjudge]
    exact .same rfl
  obtain ⟨length, hlength⟩ : ∃ length : Int, raw + layout.adjustment.toInt + layout.fieldEnd = length :=
    ⟨_, rfl⟩
  by_cases hend : length < layout.fieldEnd
  · have hjudge (atOnce : Bool) : (layout.reporting atOnce).judge raw buffer =
        ⟨.error (.corrupted (.endsBeforeBody length layout.fieldEnd)), .framing,
          buffer.drop layout.fieldEnd⟩ := by
      subst hlength
      exact (if_neg hnegative).trans (if_pos hend)
    rw [hjudge, hjudge]
    exact .same rfl
  by_cases hmax : layout.max < length
  · have hjudge (atOnce : Bool) : (layout.reporting atOnce).judge raw buffer =
        (layout.reporting atOnce).skip (min length.toNat countLimit) buffer := by
      subst hlength
      exact (if_neg hnegative).trans ((if_neg hend).trans (if_pos hmax))
    rw [hjudge, hjudge]
    exact skip_parts _ _
  · have hjudge (atOnce : Bool) : (layout.reporting atOnce).judge raw buffer =
        layout.take length.toNat buffer := by
      subst hlength
      exact (if_neg hnegative).trans ((if_neg hend).trans (if_neg hmax))
    rw [hjudge, hjudge]
    exact .same (take_state _ _)

/-- The length field is read in the same way by both. -/
theorem cut_parts (hcheck : layout.check = .ok ()) (buffer : Bytes) :
    Step.Parts layout.max ((layout.reporting true).cut buffer) ((layout.reporting false).cut buffer) := by
  by_cases hshort : buffer.length < layout.fieldEnd
  · have hwait (atOnce : Bool) : (layout.reporting atOnce).cut buffer = ⟨.needMore, .framing, buffer⟩ :=
      cut_of_lt hshort
    rw [hwait, hwait]
    exact .same rfl
  · obtain ⟨raw, hcut⟩ := reporting_cut_of_le hcheck (Nat.le_of_not_lt hshort)
    rw [hcut, hcut]
    exact judge_parts raw buffer

/-- **One search by both decoders**, over an accepted layout. -/
theorem scan_parts (hcheck : layout.check = .ok ()) (buffer : Bytes) :
    Step.Parts layout.max ((layout.reporting true).scan buffer)
      ((layout.reporting false).scan buffer) := by
  by_cases hat : layout.header.isAt (layout.header.seek buffer) = true
  · have hscan (atOnce : Bool) : (layout.reporting atOnce).scan buffer =
        (layout.reporting atOnce).cut (layout.header.seek buffer) := if_pos hat
    rw [hscan, hscan]
    exact cut_parts hcheck _
  · have hscan (atOnce : Bool) : (layout.reporting atOnce).scan buffer =
        ⟨.needMore, .framing, layout.header.seek buffer⟩ := if_neg hat
    rw [hscan, hscan]
    exact .same rfl

/-! ## Skipping

While a frame is being skipped, the decoder that reports at once has nothing to say, and the other has
nothing to say before the end. At the end it makes its report in a call of its own, and the next call
begins where the first decoder already is. -/

section Skipping

variable (layout : Layout) (length : Nat) {left : Nat} {buffer : Bytes}

/-- While the frame is incomplete, it does not matter when it is reported. -/
theorem next_skipping_of_lt (hshort : buffer.length < left) :
    layout.next (.skipping length left) buffer =
      ⟨.needMore, .skipping length (left - buffer.length), []⟩ := by
  rw [next_skipping, if_pos hshort]

/-- What was reported at once is not mentioned again. -/
theorem next_skipping_true (hall : left ≤ buffer.length) :
    (layout.reporting true).next (.skipping length left) buffer =
      (layout.reporting true).next .framing (buffer.drop left) := by
  rw [next_skipping, if_neg (Nat.not_lt.2 hall)]
  rfl

/-- A report that was put off is made before the search goes on. -/
theorem next_skipping_false (hall : left ≤ buffer.length) :
    (layout.reporting false).next (.skipping length left) buffer =
      ⟨.error (.tooLong length layout.max false), .framing, buffer.drop left⟩ := by
  rw [next_skipping, if_neg (Nat.not_lt.2 hall)]
  rfl

end Skipping

/-! ## Streams

On a stream a report is passed over in the same call, whenever it is made. So the extra call of the
decoder that puts reports off goes unnoticed. -/

/-- Passing over reports depends on where it starts only through its first answer. -/
theorem nextKept_congr (hcheck : layout.check = .ok ()) {state state' : State} {buffer buffer' : Bytes}
    (hsound : state.Sound) (hsound' : state'.Sound)
    (hnext : layout.next state buffer = layout.next state' buffer') :
    layout.nextKept state buffer = layout.nextKept state' buffer' := by
  cases hlong : (layout.next state buffer).outcome.isTooLong with
  | true =>
    rw [nextKept_of_isTooLong hcheck hsound hlong, hnext]
    rw [hnext] at hlong
    rw [nextKept_of_isTooLong hcheck hsound' hlong]
  | false =>
    rw [nextKept_of_kept hlong, hnext]
    rw [hnext] at hlong
    rw [nextKept_of_kept hlong]

/-- An incomplete frame is skipped as far as it goes. -/
theorem nextKept_skipping_of_lt (layout : Layout) (length : Nat) {left : Nat} {buffer : Bytes}
    (hshort : buffer.length < left) :
    layout.nextKept (.skipping length left) buffer =
      ⟨.needMore, .skipping length (left - buffer.length), []⟩ := by
  have hnext := layout.next_skipping_of_lt length hshort
  rw [nextKept_of_kept (by rw [hnext]; rfl), hnext]

/-- Where reports are passed over, the end of a frame that is skipped goes by unnoticed. -/
theorem nextKept_skipping_of_le (hcheck : layout.check = .ok ()) (atOnce : Bool) {length left : Nat}
    {buffer : Bytes} (hsound : (State.skipping length left).Sound) (hall : left ≤ buffer.length) :
    (layout.reporting atOnce).nextKept (.skipping length left) buffer =
      (layout.reporting atOnce).nextKept .framing (buffer.drop left) := by
  have hcheck' : (layout.reporting atOnce).check = .ok () := hcheck
  cases atOnce with
  | true =>
    have hframing : State.framing.Sound := trivial
    exact nextKept_congr hcheck' hsound hframing (layout.next_skipping_true length hall)
  | false =>
    have hreport := layout.next_skipping_false length hall
    rw [nextKept_of_isTooLong hcheck' hsound (by rw [hreport]; rfl), hreport]

/-- **On a stream it never matters** when oversized frames are reported. -/
theorem nextKept_reporting (hcheck : layout.check = .ok ()) {state : State} (hsound : state.Sound)
    (buffer : Bytes) :
    (layout.reporting true).nextKept state buffer = (layout.reporting false).nextKept state buffer := by
  have hcheck' (atOnce : Bool) : (layout.reporting atOnce).check = .ok () := hcheck
  induction hlength : buffer.length using Nat.strongRecOn generalizing state buffer with
  | ind total ih =>
    subst hlength
    cases state with
    | skipping length left =>
      by_cases hshort : buffer.length < left
      · rw [nextKept_skipping_of_lt _ length hshort, nextKept_skipping_of_lt _ length hshort]
      · have hall := Nat.le_of_not_lt hshort
        have hframing : State.framing.Sound := trivial
        have hlt : (buffer.drop left).length < buffer.length := by
          rw [List.length_drop]
          have hpos : 0 < left := hsound.1
          omega
        rw [nextKept_skipping_of_le hcheck true hsound hall, nextKept_skipping_of_le hcheck false hsound hall]
        exact ih _ hlt hframing _ rfl
    | framing =>
      have hadvances := next_advances (hcheck' true) hsound buffer
      have hparts := scan_parts hcheck buffer
      generalize hfirst : (layout.reporting true).scan buffer = first at hparts
      generalize hsecond : (layout.reporting false).scan buffer = second at hparts
      replace hfirst : (layout.reporting true).next .framing buffer = first := hfirst
      replace hsecond : (layout.reporting false).next .framing buffer = second := hsecond
      cases hparts with
      | same hstate =>
        cases hlong : first.outcome.isTooLong with
        | false =>
          rw [nextKept_of_kept (by rw [hfirst, hlong]), nextKept_of_kept (by rw [hsecond, hlong]), hfirst,
            hsecond]
        | true =>
          have hmore : first.outcome ≠ .needMore := by
            intro hwait
            rw [hwait] at hlong
            cases hlong
          rw [hfirst] at hadvances
          rw [nextKept_of_isTooLong (hcheck' true) hsound (by rw [hfirst, hlong]),
            nextKept_of_isTooLong (hcheck' false) hsound (by rw [hsecond, hlong]), hfirst, hsecond]
          exact ih _ (hadvances.lt hmore) hadvances.sound _ rfl
      | early hpos hle =>
        -- one of them passes over its report, and both wait for the rest of the frame
        have hkept : ((layout.reporting false).next .framing buffer).outcome.isTooLong = false := by
          rw [hsecond]
          rfl
        rw [nextKept_of_isTooLong (hcheck' true) hsound (by rw [hfirst]; rfl), nextKept_of_kept hkept, hfirst,
          hsecond]
        exact nextKept_skipping_of_lt _ _ hpos

/-! ## All answers

The induction is over the loop of the decoder that reports at once, and the other makes one round more for
each frame that it has still to report. What is owed when the bytes run out is the difference between the
two. -/

/-- A frame that is complete costs a decoder that puts reports off one more answer. -/
theorem exhaust_skipping_of_le (hcheck : layout.check = .ok ()) {length left : Nat} {buffer : Bytes}
    (hsound : (State.skipping length left).Sound) (hall : left ≤ buffer.length) (atOnce : Bool) :
    (layout.reporting atOnce).exhaust (.skipping length left) buffer =
      ((layout.reporting atOnce).exhaust .framing (buffer.drop left)).after
        (if atOnce then [] else [.error (.tooLong length layout.max false)]) := by
  have hcheck' : (layout.reporting atOnce).check = .ok () := hcheck
  cases atOnce with
  | true =>
    have hframing : State.framing.Sound := trivial
    exact exhaust_congr hcheck' hsound hframing (layout.next_skipping_true length hall)
  | false =>
    have hreport := layout.next_skipping_false length hall
    rw [exhaust_of_ne_needMore hcheck' hsound (by rw [hreport]; nofun), hreport]
    rfl

/-- A frame that stays incomplete is skipped in silence, and the loop is over. -/
theorem exhaust_skipping_of_lt (hcheck : layout.check = .ok ()) {length left : Nat} {buffer : Bytes}
    (hsound : (State.skipping length left).Sound) (hshort : buffer.length < left) :
    layout.exhaust (.skipping length left) buffer =
      { state := .skipping length (left - buffer.length) } := by
  have hnext := layout.next_skipping_of_lt length hshort
  rw [exhaust_of_needMore hcheck hsound (by rw [hnext]), hnext]

/-- **The loop that keeps all answers** gives the same ones, but for the report of a frame that is still
being skipped in the end. -/
theorem exhaust_reporting (hcheck : layout.check = .ok ()) {state : State} (hsound : state.Sound)
    (buffer : Bytes) :
    Trace.Owes layout.max (state.pending layout.max) ((layout.reporting true).exhaust state buffer)
      ((layout.reporting false).exhaust state buffer) := by
  have hcheck' (atOnce : Bool) : (layout.reporting atOnce).check = .ok () := hcheck
  induction hlength : buffer.length using Nat.strongRecOn generalizing state buffer with
  | ind total ih =>
    subst hlength
    cases state with
    | skipping length left =>
      by_cases hshort : buffer.length < left
      · rw [exhaust_skipping_of_lt (hcheck' true) hsound hshort,
          exhaust_skipping_of_lt (hcheck' false) hsound hshort]
        exact ⟨rfl, rfl, rfl⟩
      · have hall := Nat.le_of_not_lt hshort
        have hframing : State.framing.Sound := trivial
        have hlt : (buffer.drop left).length < buffer.length := by
          rw [List.length_drop]
          have hpos : 0 < left := hsound.1
          omega
        rw [exhaust_skipping_of_le hcheck hsound hall, exhaust_skipping_of_le hcheck hsound hall]
        exact (ih _ hlt hframing _ rfl).after rfl
    | framing =>
      have hadvances := next_advances (hcheck' true) hsound buffer
      have hparts := scan_parts hcheck buffer
      generalize hfirst : (layout.reporting true).scan buffer = first at hparts
      generalize hsecond : (layout.reporting false).scan buffer = second at hparts
      replace hfirst : (layout.reporting true).next .framing buffer = first := hfirst
      replace hsecond : (layout.reporting false).next .framing buffer = second := hsecond
      cases hparts with
      | same hstate =>
        by_cases hwait : first.outcome = .needMore
        · rw [exhaust_of_needMore (hcheck' true) hsound (by rw [hfirst, hwait]),
            exhaust_of_needMore (hcheck' false) hsound (by rw [hsecond, hwait]), hfirst, hsecond]
          refine ⟨rfl, rfl, ?_⟩
          simp only [hstate]
          rfl
        · rw [hfirst] at hadvances
          rw [exhaust_of_ne_needMore (hcheck' true) hsound (by rw [hfirst]; exact hwait),
            exhaust_of_ne_needMore (hcheck' false) hsound (by rw [hsecond]; exact hwait), hfirst, hsecond]
          have hrest := ih _ (hadvances.lt hwait) hadvances.sound _ rfl
          rw [hstate] at hrest ⊢
          exact hrest.after rfl
      -- the report is made by one of them and owed by the other, and there are no more bytes to pay it
      -- with
      | @early length left hpos hle =>
        have hskipping : (State.skipping length left).Sound := ⟨hpos, hle⟩
        rw [exhaust_of_ne_needMore (hcheck' true) hsound (by rw [hfirst]; nofun),
          exhaust_of_needMore (hcheck' false) hsound (by rw [hsecond]), hfirst, hsecond,
          exhaust_skipping_of_lt (hcheck' true) hskipping (show ([] : Bytes).length < left from hpos)]
        exact ⟨rfl, rfl, rfl⟩

/-! ## Sessions and feeding

Feeding runs the loop after each chunk. A report that is owed at the end of one chunk is paid in the next
or is owed on, so debts do not pile up: there is never more than one. -/

/-- One step of a stream leads both decoders to the same answer and to the same session. -/
theorem call_reporting (hcheck : layout.check = .ok ()) {session : Session} (hsound : session.state.Sound)
    {call : Call} (hstream : call.isStream = true) :
    (layout.reporting true).call session call = (layout.reporting false).call session call ∧
      ((layout.reporting true).call session call).2.state.Sound := by
  have hkept := nextKept_reporting hcheck hsound session.buffer
  have hcheck' : (layout.reporting true).check = .ok () := hcheck
  have hsound' := (nextKept_passes hcheck' hsound session.buffer).sound hcheck' hsound
  cases call with
  | feed chunk => exact ⟨rfl, hsound⟩
  | nextKept =>
    refine ⟨?_, hsound'⟩
    simp only [call, hkept]
  | nextAtEnd =>
    have hstate : ((layout.reporting true).call session .nextAtEnd).2.state =
        ((layout.reporting true).nextKept session.state session.buffer).state :=
      congrArg Session.state (nextAtEnd_advance session)
    refine ⟨?_, hstate ▸ hsound'⟩
    simp only [call, nextAtEnd, hkept]
  | next => cases hstream
  | drain => cases hstream

/-- Call by call, from the same session to the same session. -/
theorem calls_reporting (hcheck : layout.check = .ok ()) {calls : List Call}
    (hstream : ∀ call ∈ calls, call.isStream = true) {session : Session} (hsound : session.state.Sound) :
    (layout.reporting true).calls session calls = (layout.reporting false).calls session calls := by
  induction calls generalizing session with
  | nil => rfl
  | cons call rest ih =>
    rw [List.forall_mem_cons] at hstream
    obtain ⟨hcall, hsound'⟩ := call_reporting hcheck hsound hstream.1
    rw [Layout.calls, Layout.calls, ← hcall, ih hstream.2 hsound']

/-- Chunks come to what their bytes come to at once, for either decoder, and there the loop tells the
difference. -/
theorem feedAll_reporting (hcheck : layout.check = .ok ()) (chunks : List Bytes) :
    Trace.Owes layout.max [] ((layout.reporting true).feedAll chunks)
      ((layout.reporting false).feedAll chunks) := by
  have hcheck' (atOnce : Bool) : (layout.reporting atOnce).check = .ok () := hcheck
  have hwhole (atOnce : Bool) : ((layout.reporting atOnce).feedAll chunks).settled =
      ((layout.reporting atOnce).exhaust .framing chunks.flatten).settled :=
    foldl_feed_settled (hcheck' atOnce) (idle_fresh (hcheck' atOnce)) chunks
  simp only [Trace.settled, Trace.mk.injEq] at hwhole
  have hframing : State.framing.Sound := trivial
  obtain ⟨hstate, hbuffer, houtcomes⟩ := exhaust_reporting hcheck hframing chunks.flatten
  constructor
  · rw [(hwhole true).2.1, (hwhole false).2.1, hstate]
  · rw [(hwhole true).2.2, (hwhole false).2.2, hbuffer]
  · rw [(hwhole true).1, (hwhole false).1, (hwhole false).2.1]
    exact houtcomes

/-- **Reports only move.** Two layouts that differ only in when oversized frames are reported agree on
every stream, step by step: the answers, the bytes buffered and what is being skipped. Asked for all
answers after each chunk, they give the same ones in the same order and end alike, except that reporting
at once has one report more where the last oversized frame is still being skipped. -/
theorem reporting_only_moves_reports {layout : Layout} (hcheck : layout.check = .ok ()) :
    (∀ calls, (∀ call ∈ calls, call.isStream = true) →
      (layout.reporting true).calls {} calls = (layout.reporting false).calls {} calls) ∧
    ∀ chunks,
      let early := (layout.reporting true).feedAll chunks
      let late := (layout.reporting false).feedAll chunks
      early.state = late.state ∧ early.buffer = late.buffer ∧
        early.outcomes.map Outcome.settled =
          late.outcomes.map Outcome.settled ++ late.state.pending layout.max := by
  refine ⟨fun calls hstream => ?_, fun chunks => ?_⟩
  · have hframing : State.framing.Sound := trivial
    exact calls_reporting hcheck hstream hframing
  · obtain ⟨hstate, hbuffer, houtcomes⟩ := feedAll_reporting hcheck chunks
    exact ⟨hstate, hbuffer, houtcomes⟩

/-- Two oversized frames, of which the second stays incomplete: the first is reported by both decoders,
the second only by the one that reports at once. -/
theorem reporting_only_moves_reports_of_two_frames :
    let layout : Layout := { width := 1, maxLength := 4 }
    let steps : List Call := [.feed [6, 1, 2], .nextKept, .feed [3, 4, 5, 6, 1, 42, 9], .nextKept, .nextAtEnd]
    let chunks : List Bytes := [[6, 1, 2], [3, 4, 5, 6, 1, 42, 9, 8]]
    (layout.check = .ok () ∧ ∀ call ∈ steps, call.isStream = true) ∧
      (layout.reporting true).calls {} steps = (layout.reporting false).calls {} steps ∧
      ((layout.reporting true).feedAll chunks).outcomes.map Outcome.settled =
        ((layout.reporting false).feedAll chunks).outcomes.map Outcome.settled ++
          [.error (.tooLong 10 4 false)] := by
  intro layout steps chunks
  have hcheck : layout.check = .ok () := rfl
  have hstream : ∀ call ∈ steps, call.isStream = true := by decide
  have hstate : ((layout.reporting false).feedAll chunks).state = .skipping 10 8 := by decide
  obtain ⟨hcalls, hfeed⟩ := reporting_only_moves_reports hcheck
  obtain ⟨-, -, houtcomes⟩ := hfeed chunks
  rw [hstate] at houtcomes
  exact ⟨⟨hcheck, hstream⟩, hcalls steps hstream, houtcomes⟩

end Layout

end Telegram.Frame
