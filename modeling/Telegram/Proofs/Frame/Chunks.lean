import Telegram.Proofs.Frame.Exhaust

/-!
# A stream may be cut anywhere

A decoder is fed a stream in chunks, and after each chunk it is asked until it needs more bytes. What it
answers, and where it stands in the end, does not depend on where the chunks end. Only one thing about
an answer does: whether the bytes of an oversized frame were still to come when it was reported, which
`Outcome.settled` forgets.

The work is in one call. `Step.Grows` compares the answer to a buffer with the answer to that buffer and
more bytes. There are three cases:

* **same**: an answer was complete, so the bytes behind it stay where they are;
* **wait**: more bytes were needed, and asking again with them is asking all at once;
* **early**: an oversized frame was reported before all of it had come. With more bytes it may be all
  there at once; the decoder that reported it early then passes over the rest in silence.
-/

namespace Telegram.Frame

/-! ## One call on a longer buffer

A call is made of parts that look at more and more of the buffer: for a header, at the length field, at
the whole frame. For each part the answers to the shorter and to the longer buffer are compared, and
always in the same three cases. -/

/-- The second step answers a buffer with `more` appended, where the first answers the buffer alone. -/
inductive Step.Grows (layout : Layout) (more : Bytes) : Step → Step → Prop where
  | same {step : Step} (hcomplete : step.outcome ≠ .needMore) :
      Grows layout more step { step with buffer := step.buffer ++ more }
  | wait {step : Step} (hwait : step.outcome = .needMore) :
      Grows layout more step (layout.next step.state (step.buffer ++ more))
  | early {length left : Nat} (hfast : layout.failFast = true) (hpos : 0 < left)
      (hle : left ≤ length) :
      Grows layout more ⟨.error (.tooLong length layout.max true), .skipping length left, []⟩
        (if more.length < left then
          ⟨.error (.tooLong length layout.max true), .skipping length (left - more.length), []⟩
        else ⟨.error (.tooLong length layout.max false), .framing, more.drop left⟩)

/-- Where more bytes were needed, the decoder is asked again. -/
theorem Step.Grows.eq_next {layout : Layout} {more : Bytes} {before after : Step}
    (hgrows : Step.Grows layout more before after) (hwait : before.outcome = .needMore) :
    after = layout.next before.state (before.buffer ++ more) := by
  cases hgrows with
  | same hcomplete => exact absurd hwait hcomplete
  | wait _ => rfl
  | early _ _ _ => cases hwait

/-- Dropping bytes that are buffered already leaves the appended ones alone. -/
theorem Step.Grows.drop (layout : Layout) (more : Bytes) {outcome : Outcome}
    (hcomplete : outcome ≠ .needMore) {count : Nat} {buffer : Bytes} (hle : count ≤ buffer.length) :
    Step.Grows layout more ⟨outcome, .framing, buffer.drop count⟩
      ⟨outcome, .framing, (buffer ++ more).drop count⟩ := by
  rw [List.drop_append_of_le_length hle]
  exact .same hcomplete

/-- Waiting at the front of a frame is undone by asking again. -/
theorem Step.Grows.again {layout : Layout} {buffer more : Bytes} {step : Step}
    (hnext : layout.next .framing (buffer ++ more) = step) :
    Step.Grows layout more ⟨.needMore, .framing, buffer⟩ step := by
  subst hnext
  exact .wait rfl

namespace Layout

variable {layout : Layout}

/-- Skipping with more bytes: what is skipped already is not skipped again. -/
theorem skip_append_of_lt {length : Nat} {buffer more : Bytes} (hshort : buffer.length < length) :
    layout.skip length (buffer ++ more) =
      if more.length < length - buffer.length then
        let state := State.skipping length (length - buffer.length - more.length)
        if layout.failFast then ⟨.error (.tooLong length layout.max true), state, []⟩
        else ⟨.needMore, state, []⟩
      else
        ⟨.error (.tooLong length layout.max false), .framing, more.drop (length - buffer.length)⟩ := by
  rw [skip_eq, List.length_append, Nat.sub_add_eq, List.drop_append,
    List.drop_eq_nil_of_le (Nat.le_of_lt hshort), List.nil_append]
  simp only [Nat.lt_sub_iff_add_lt']

/-- **Skipping** is where the third case comes from. -/
theorem skip_grows (layout : Layout) (length : Nat) (buffer more : Bytes) :
    Step.Grows layout more (layout.skip length buffer) (layout.skip length (buffer ++ more)) := by
  by_cases hshort : buffer.length < length
  · rw [skip_append_of_lt hshort, skip_eq, if_pos hshort]
    cases hfast : layout.failFast with
    | true => exact .early hfast (by omega) (Nat.sub_le _ _)
    | false =>
      -- a patient decoder only counts what is skipped, so asking again goes on counting
      have hagain := next_skipping layout length (length - buffer.length) ([] ++ more)
      simp only [hfast, List.nil_append, Bool.false_eq_true, if_false] at hagain ⊢
      rw [← hagain]
      exact .wait rfl
  · have hlonger : ¬ (buffer ++ more).length < length := by
      rw [List.length_append]
      omega
    rw [skip_eq, if_neg hshort, skip_eq, if_neg hlonger]
    exact .drop layout more (by simp) (by omega)

/-- **A frame that is taken** is all there, and bytes behind it make no difference. -/
theorem take_grows {length : Nat} {buffer more : Bytes}
    (hnext : layout.next .framing (buffer ++ more) = layout.take length (buffer ++ more)) :
    Step.Grows layout more (layout.take length buffer) (layout.take length (buffer ++ more)) := by
  by_cases hshort : buffer.length < length
  · have hwait : layout.take length buffer = ⟨.needMore, .framing, buffer⟩ := by
      rw [take_eq, if_pos hshort]
    rw [hwait]
    exact .again hnext
  · have hle : length ≤ buffer.length := by omega
    have hlonger : ¬ (buffer ++ more).length < length := by
      rw [List.length_append]
      omega
    rw [take_eq, if_neg hshort, take_eq, if_neg hlonger, List.take_append_of_le_length hle]
    split
    · exact .drop layout more (by simp) hle
    · exact .drop layout more (by simp) hle

/-- **The verdict** on a length is about the layout, and only what is done with the frame looks at the
bytes. -/
theorem judge_grows {raw : Int} {buffer more : Bytes} (hlong : layout.fieldEnd ≤ buffer.length)
    (hnext : layout.next .framing (buffer ++ more) = layout.judge raw (buffer ++ more)) :
    Step.Grows layout more (layout.judge raw buffer) (layout.judge raw (buffer ++ more)) := by
  simp only [judge] at hnext ⊢
  split
  · exact .drop layout more (by simp) hlong
  rename_i hnegative
  split
  · exact .drop layout more (by simp) hlong
  rename_i hend
  split
  · exact skip_grows layout _ buffer more
  · rename_i hmax
    rw [if_neg hnegative, if_neg hend, if_neg hmax] at hnext
    exact take_grows hnext

/-- **The length field** is read from the same bytes, if they are there at all. -/
theorem cut_grows (hcheck : layout.check = .ok ()) {buffer more : Bytes}
    (hnext : layout.next .framing (buffer ++ more) = layout.cut (buffer ++ more)) :
    Step.Grows layout more (layout.cut buffer) (layout.cut (buffer ++ more)) := by
  by_cases hshort : buffer.length < layout.fieldEnd
  · rw [cut_of_lt hshort]
    exact .again hnext
  · have hle : layout.fieldEnd ≤ buffer.length := by omega
    have hle' : layout.fieldEnd ≤ (buffer ++ more).length := by
      rw [List.length_append]
      omega
    obtain ⟨raw, hraw, hcut⟩ := exists_cut_eq hcheck hle
    obtain ⟨raw', hraw', hcut'⟩ := exists_cut_eq hcheck hle'
    -- the length field lies in the bytes that were buffered first
    rw [field, List.take_append_of_le_length hle, ← field, hraw] at hraw'
    obtain rfl : raw = raw' := Except.ok.inj hraw'
    rw [hcut'] at hnext ⊢
    rw [hcut]
    exact judge_grows hle hnext

/-- **The search** can be interrupted, and a header that was found stays where it is. -/
theorem scan_grows (hcheck : layout.check = .ok ()) (buffer more : Bytes) :
    Step.Grows layout more (layout.scan buffer) (layout.scan (buffer ++ more)) := by
  have hseek := layout.header.seek_append buffer more
  by_cases hat : layout.header.isAt (layout.header.seek buffer) = true
  · have hat' := Header.isAt_append hat more
    rw [Header.seek_of_isAt hat'] at hseek
    have hbefore : layout.scan buffer = layout.cut (layout.header.seek buffer) := by
      simp only [scan]
      rw [if_pos hat]
    have hafter : layout.scan (buffer ++ more) = layout.cut (layout.header.seek buffer ++ more) := by
      simp only [scan]
      rw [hseek, if_pos hat']
    rw [hbefore, hafter]
    refine cut_grows hcheck ?_
    simp only [next, scan]
    rw [Header.seek_of_isAt hat', if_pos hat']
  · have hbefore : layout.scan buffer = ⟨.needMore, .framing, layout.header.seek buffer⟩ := by
      simp only [scan]
      rw [if_neg hat]
    rw [hbefore]
    refine .again ?_
    simp only [next, scan]
    rw [← hseek]

/-- **More bytes do not change an answer**: the answer to a longer buffer is the one to the buffer, or
what the decoder answers when it is asked again, or an early report brought up to date. -/
theorem next_grows (hcheck : layout.check = .ok ()) (state : State) (buffer more : Bytes) :
    Step.Grows layout more (layout.next state buffer) (layout.next state (buffer ++ more)) := by
  cases state with
  | framing => exact scan_grows hcheck buffer more
  | skipping length left =>
    by_cases hshort : buffer.length < left
    · have hwait : layout.next (.skipping length left) buffer =
          ⟨.needMore, .skipping length (left - buffer.length), []⟩ := by
        rw [next_skipping, if_pos hshort]
      -- to skip what is there and then what comes is to skip both at once
      have hafter : layout.next (.skipping length left) (buffer ++ more) =
          layout.next (.skipping length (left - buffer.length)) ([] ++ more) := by
        rw [next_skipping, next_skipping, List.nil_append, List.length_append, Nat.sub_add_eq,
          List.drop_append, List.drop_eq_nil_of_le (Nat.le_of_lt hshort), List.nil_append]
        simp only [Nat.lt_sub_iff_add_lt']
      rw [hwait, hafter]
      exact .wait rfl
    · have hle : left ≤ buffer.length := by omega
      have hlonger : ¬ (buffer ++ more).length < left := by
        rw [List.length_append]
        omega
      rw [next_skipping, if_neg hshort, next_skipping, if_neg hlonger,
        List.drop_append_of_le_length hle]
      split
      · exact scan_grows hcheck _ more
      · exact .same (by simp)

/-- Where more bytes are needed, asking again without them changes nothing. -/
theorem next_of_needMore (hcheck : layout.check = .ok ()) {state : State} {buffer : Bytes}
    (hwait : (layout.next state buffer).outcome = .needMore) :
    layout.next (layout.next state buffer).state (layout.next state buffer).buffer =
      layout.next state buffer := by
  have hagain := (next_grows hcheck state buffer []).eq_next hwait
  rw [List.append_nil, List.append_nil] at hagain
  exact hagain.symm

end Layout

/-! ## The whole loop on a longer buffer

The loop is followed on the shorter buffer, answer by answer, until that needs more bytes. The longer
buffer gives the same answers up to there, and is then at the same place with the new bytes in front of
it. -/

/-- The answer without the remark whether the bytes of an oversized frame were still to come. The remark
depends on how much happened to be buffered when the frame was found, so it is the one thing about an
answer that chunks do change. -/
def Outcome.settled : Outcome → Outcome
  | .error (.tooLong length max _) => .error (.tooLong length max false)
  | outcome => outcome

/-- The trace with every answer settled. -/
def Trace.settled (trace : Trace) : Trace :=
  { trace with outcomes := trace.outcomes.map Outcome.settled }

@[simp] theorem Trace.after_nil (trace : Trace) : trace.after [] = trace := rfl

theorem Trace.after_after (first second : List Outcome) (trace : Trace) :
    (trace.after second).after first = trace.after (first ++ second) := by
  simp [Trace.after]

theorem Trace.settled_after (outcomes : List Outcome) (trace : Trace) :
    (trace.after outcomes).settled = trace.settled.after (outcomes.map Outcome.settled) := by
  simp [Trace.after, Trace.settled]

namespace Layout

variable {layout : Layout}

/-- **An early report is followed by silence**: a decoder that reported an oversized frame before all of
it had come goes on as if it had seen all of it. -/
theorem exhaust_early (hcheck : layout.check = .ok ()) (hfast : layout.failFast = true)
    {length left : Nat} (hpos : 0 < left) (hle : left ≤ length) (more : Bytes) :
    layout.exhaust (.skipping length left) more =
      if more.length < left then { state := .skipping length (left - more.length) }
      else layout.exhaust .framing (more.drop left) := by
  have hsound : (State.skipping length left).Sound := ⟨hpos, hle⟩
  have hnext := next_skipping layout length left more
  rw [hfast] at hnext
  by_cases hshort : more.length < left
  · rw [if_pos hshort] at hnext ⊢
    rw [exhaust_of_needMore hcheck hsound (by rw [hnext]), hnext]
  · rw [if_neg hshort] at hnext ⊢
    exact exhaust_congr hcheck hsound trivial hnext

/-- An answer to the bytes at hand is the first answer to a longer buffer, and leaves the rest to be
answered. -/
theorem exhaust_append_of_ne_needMore (hcheck : layout.check = .ok ()) {state : State}
    (hsound : state.Sound) {buffer : Bytes} (more : Bytes)
    (hmore : (layout.next state buffer).outcome ≠ .needMore) :
    (layout.exhaust state (buffer ++ more)).settled =
      ((layout.exhaust (layout.next state buffer).state ((layout.next state buffer).buffer ++ more)).after
        [(layout.next state buffer).outcome]).settled := by
  have hgrows := next_grows hcheck state buffer more
  have hcons : (layout.next state (buffer ++ more)).outcome ≠ .needMore →
      layout.exhaust state (buffer ++ more) = _ := exhaust_of_ne_needMore hcheck hsound
  generalize layout.next state buffer = before at hmore hgrows ⊢
  generalize layout.next state (buffer ++ more) = after at hgrows hcons
  cases hgrows with
  | same hcomplete => rw [hcons hcomplete]
  | wait hwait => exact absurd hwait hmore
  | @early length left hfast hpos hle =>
    rw [List.nil_append, exhaust_early hcheck hfast hpos hle]
    by_cases hshort : more.length < left
    · rw [if_pos hshort] at hcons ⊢
      rw [hcons (by simp), exhaust_early hcheck hfast (by omega) (by omega), if_pos (by simp; omega)]
      rfl
    · rw [if_neg hshort] at hcons ⊢
      rw [hcons (by simp)]
      rfl

/-- **Bytes may come later**: answering a buffer with more bytes appended is answering the buffer, and
then what is left of it with the bytes appended. -/
theorem exhaust_append (hcheck : layout.check = .ok ()) {state : State} (hsound : state.Sound)
    (buffer more : Bytes) :
    (layout.exhaust state (buffer ++ more)).settled =
      ((layout.exhaust (layout.exhaust state buffer).state
        ((layout.exhaust state buffer).buffer ++ more)).after
          (layout.exhaust state buffer).outcomes).settled := by
  refine exhaust_induction (motive := fun state buffer trace =>
    (layout.exhaust state (buffer ++ more)).settled =
      ((layout.exhaust trace.state (trace.buffer ++ more)).after trace.outcomes).settled)
    hcheck ?wait ?step hsound buffer
  case wait =>
    intro state buffer hsound hwait
    have hadvances := next_advances hcheck hsound buffer
    have hagain := (next_grows hcheck state buffer more).eq_next hwait
    rw [Trace.after_nil, exhaust_congr hcheck hsound hadvances.sound hagain]
  case step =>
    intro state buffer trace hsound hmore ih
    rw [exhaust_append_of_ne_needMore hcheck hsound more hmore, Trace.settled_after, ih,
      ← Trace.settled_after, Trace.after_after]
    rfl

end Layout

/-! ## Feeding chunks

A chunk is appended to what is left, and the loop is run. So between chunks a decoder is always idle, and
by `Layout.exhaust_append` two chunks come to the same as their bytes at once. The rest is an induction
over the chunks. -/

namespace Layout

/-- Appends a chunk to the buffer and answers until more bytes are needed. -/
def feed (layout : Layout) (trace : Trace) (chunk : Bytes) : Trace :=
  (layout.exhaust trace.state (trace.buffer ++ chunk)).after trace.outcomes

/-- What a fresh decoder answers when it is fed the chunks one by one. -/
def feedAll (layout : Layout) (chunks : List Bytes) : Trace :=
  chunks.foldl layout.feed {}

end Layout

/-- The decoder needs more bytes, and says so however often it is asked. This is how a chunk is left
behind: what arrives next is appended to a buffer that has been answered to the end. -/
structure Trace.Idle (layout : Layout) (trace : Trace) : Prop where
  sound : trace.state.Sound
  waits : layout.next trace.state trace.buffer = ⟨.needMore, trace.state, trace.buffer⟩

namespace Layout

variable {layout : Layout}

theorem idle_fresh (hcheck : layout.check = .ok ()) : Trace.Idle layout {} where
  sound := trivial
  waits := by
    have hshort : ([] : Bytes).length < layout.fieldEnd := fieldEnd_pos hcheck
    simp only [next, scan, Header.seek, cut_of_lt hshort, ite_self]

/-- The loop ends where more bytes are needed. -/
theorem idle_exhaust (hcheck : layout.check = .ok ()) {state : State} (hsound : state.Sound)
    (buffer : Bytes) : (layout.exhaust state buffer).Idle layout := by
  refine exhaust_induction (motive := fun _ _ trace => trace.Idle layout) hcheck ?wait ?step
    hsound buffer
  case wait =>
    intro state buffer hsound hwait
    refine ⟨(next_advances hcheck hsound buffer).sound, ?_⟩
    rw [next_of_needMore hcheck hwait, ← hwait]
  case step =>
    intro state buffer trace _ _ ih
    exact ⟨ih.sound, ih.waits⟩

theorem idle_feed (hcheck : layout.check = .ok ()) {trace : Trace} (hidle : trace.Idle layout)
    (chunk : Bytes) : (layout.feed trace chunk).Idle layout :=
  ⟨(idle_exhaust hcheck hidle.sound _).sound, (idle_exhaust hcheck hidle.sound _).waits⟩

theorem idle_foldl_feed (hcheck : layout.check = .ok ()) {trace : Trace} (hidle : trace.Idle layout)
    (chunks : List Bytes) : (chunks.foldl layout.feed trace).Idle layout := by
  induction chunks generalizing trace with
  | nil => exact hidle
  | cons chunk rest ih => exact ih (idle_feed hcheck hidle chunk)

/-- Feeding chunks from any idle decoder on is answering all their bytes at once. -/
theorem foldl_feed_settled (hcheck : layout.check = .ok ()) {trace : Trace}
    (hidle : trace.Idle layout) (chunks : List Bytes) :
    (chunks.foldl layout.feed trace).settled =
      ((layout.exhaust trace.state (trace.buffer ++ chunks.flatten)).after trace.outcomes).settled := by
  induction chunks generalizing trace with
  | nil =>
    have hquiet := exhaust_of_needMore hcheck hidle.sound (by rw [hidle.waits])
    rw [hidle.waits] at hquiet
    rw [List.foldl_nil, List.flatten_nil, List.append_nil, hquiet]
    simp [Trace.after]
  | cons chunk rest ih =>
    -- the first chunk is answered by itself, and what it leaves goes in front of all the others
    rw [List.foldl_cons, ih (idle_feed hcheck hidle chunk), List.flatten_cons, ← List.append_assoc,
      Trace.settled_after, Trace.settled_after,
      exhaust_append hcheck hidle.sound (trace.buffer ++ chunk) rest.flatten, Trace.settled_after,
      Trace.after_after, ← List.map_append]
    rfl

/-- **Chunking never matters.** Two ways of cutting a stream give the same answers, up to the remark
whether the bytes of an oversized frame were still to come, and end with the same bytes buffered and the
same bytes still to be skipped. Both end where the decoder asks for more bytes. -/
theorem feedAll_eq_of_flatten_eq (hcheck : layout.check = .ok ()) {first second : List Bytes}
    (hsame : first.flatten = second.flatten) :
    (layout.feedAll first).outcomes.map Outcome.settled =
        (layout.feedAll second).outcomes.map Outcome.settled ∧
      (layout.feedAll first).state = (layout.feedAll second).state ∧
      (layout.feedAll first).buffer = (layout.feedAll second).buffer ∧
      ∀ chunks, (layout.feedAll chunks).Idle layout := by
  have hidle := idle_fresh hcheck
  have hsettled : (layout.feedAll first).settled = (layout.feedAll second).settled := by
    rw [feedAll, feedAll, foldl_feed_settled hcheck hidle, foldl_feed_settled hcheck hidle, hsame]
  simp only [Trace.settled, Trace.mk.injEq] at hsettled
  obtain ⟨houtcomes, hstate, hbuffer⟩ := hsettled
  exact ⟨houtcomes, hstate, hbuffer, fun chunks => idle_foldl_feed hcheck hidle chunks⟩

/-- Noise, a frame, an oversized frame and the start of another one: at once, and in six chunks that cut
the header, the length and the oversized body. -/
theorem feedAll_eq_of_six_chunks :
    let layout : Layout :=
      { header := .two 0xAA55, offset := 2, width := 1, maxLength := 6, strip := 3 }
    let frames : Bytes := [0xAA, 0xAA, 0x55, 1, 7, 0xAA, 0x55, 5, 1, 2, 3, 4, 5, 0xAA, 0x55]
    let chunks : List Bytes :=
      [[0xAA, 0xAA], [0x55], [1, 7, 0xAA], [0x55, 5, 1], [2, 3], [4, 5, 0xAA, 0x55]]
    (layout.check = .ok () ∧ [frames].flatten = chunks.flatten) ∧
      (layout.feedAll [frames]).outcomes.map Outcome.settled =
        (layout.feedAll chunks).outcomes.map Outcome.settled ∧
      (layout.feedAll [frames]).state = (layout.feedAll chunks).state ∧
      (layout.feedAll [frames]).buffer = (layout.feedAll chunks).buffer ∧
      ∀ chunks, (layout.feedAll chunks).Idle layout :=
  ⟨⟨rfl, rfl⟩, feedAll_eq_of_flatten_eq rfl rfl⟩

/-- The two runs of that stream differ in the remark, and in nothing else. -/
example :
    let layout : Layout :=
      { header := .two 0xAA55, offset := 2, width := 1, maxLength := 6, strip := 3 }
    (layout.feedAll [[0xAA, 0x55, 1, 7, 0xAA, 0x55, 5, 1, 2, 3, 4, 5, 0xAA, 0x55]]).outcomes =
        [.frame [7], .error (.tooLong 8 6 false)] ∧
      (layout.feedAll [[0xAA, 0x55, 1, 7, 0xAA, 0x55, 5, 1], [2, 3, 4, 5, 0xAA, 0x55]]).outcomes =
        [.frame [7], .error (.tooLong 8 6 true)] := by
  decide

end Layout

end Telegram.Frame
