import Telegram.Proofs.Frame.Drain
import Telegram.Proofs.Frame.Kept
import Telegram.Proofs.Frame.Reader

/-!
# A stream in one piece

What there is to say of all the answers to a stream, if it is given to a reader as one item.

* `upTo` are the answers up to the frame with which there are as many as someone asks for.
* Every answer is a frame, or reports an oversized or a corrupted one (`Layout.judged_of_mem_exhaust`).
  Where frames have neither header nor stripped bytes, and there is nothing but frames, the frames and the
  rest are the bytes that were decoded (`Layout.flatten_frames_append`).
* `Reader.pending` are the answers that a reader has not given yet. A call takes the first of them off
  (`Reader.Reads.pending_eq`). If the source is in one piece, a call can only end with a frame, a fault of
  the frame at hand, or the end of the stream with no answer left (`Reader.readIn_onePiece`).
-/

namespace Telegram.Frame

/-- The answer reports a corrupted frame. -/
def Outcome.isCorrupted : Outcome → Bool
  | .error (.corrupted _) => true
  | _ => false

/-! ## Answers up to a number of frames

A limit counts frames, and answers that report something are not counted. Behind the last frame that is
wanted nothing is looked at any more, so an error there is never met. -/

/-- How many frames are still to come after the answer. -/
def Outcome.remaining (outcome : Outcome) (limit : Option ℕ) : Option ℕ :=
  if outcome.isFrame then limit.map (· - 1) else limit

/-- The answers up to the frame with which there are as many as are asked for. -/
def upTo (limit : Option ℕ) : List Outcome → List Outcome
  | [] => []
  | outcome :: rest => if limit = some 0 then [] else outcome :: upTo (outcome.remaining limit) rest

/-- As many frames as are asked for. -/
def atMost (limit : Option ℕ) (frames : List Bytes) : List Bytes :=
  limit.elim frames frames.take

/-- With all frames there, nothing more is met. -/
theorem upTo_full (outcomes : List Outcome) : upTo (some 0) outcomes = [] := by
  cases outcomes with
  | nil => rfl
  | cons outcome rest => rw [upTo, if_pos rfl]

/-- Before that, every answer is met. -/
theorem upTo_cons {limit : Option ℕ} (hopen : limit ≠ some 0) (outcome : Outcome) (rest : List Outcome) :
    upTo limit (outcome :: rest) = outcome :: upTo (outcome.remaining limit) rest :=
  if_neg hopen

/-- **Up to the stop** there are as many frames as were asked for, or all that there are. -/
theorem filterMap_frame?_upTo (limit : Option ℕ) (outcomes : List Outcome) :
    (upTo limit outcomes).filterMap Outcome.frame? = atMost limit (outcomes.filterMap Outcome.frame?) := by
  induction outcomes generalizing limit with
  | nil => cases limit <;> simp [upTo, atMost]
  | cons outcome rest ih =>
    by_cases hfull : limit = some 0
    · rw [hfull, upTo_full]
      rfl
    · rw [upTo_cons hfull, List.filterMap_cons, List.filterMap_cons, ih]
      cases outcome with
      | frame bytes =>
        cases limit with
        | none => rfl
        | some n =>
          obtain ⟨n, rfl⟩ := Nat.exists_eq_succ_of_ne_zero fun hzero => hfull (congrArg some hzero)
          rfl
      | _ => rfl

theorem Outcome.frame?_settled (outcome : Outcome) : outcome.settled.frame? = outcome.frame? := by
  cases outcome with
  | error e => cases e <;> rfl
  | _ => rfl

theorem Outcome.isFrame_settled (outcome : Outcome) : outcome.settled.isFrame = outcome.isFrame := by
  cases outcome with
  | error e => cases e <;> rfl
  | _ => rfl

theorem Outcome.isTooLong_settled (outcome : Outcome) : outcome.settled.isTooLong = outcome.isTooLong := by
  cases outcome with
  | error e => cases e <;> rfl
  | _ => rfl

theorem Outcome.isCorrupted_settled (outcome : Outcome) : outcome.settled.isCorrupted = outcome.isCorrupted := by
  cases outcome with
  | error e => cases e <;> rfl
  | _ => rfl

theorem Outcome.settled_eq_corrupted_iff {outcome : Outcome} {cause : Corruption} :
    outcome.settled = .error (.corrupted cause) ↔ outcome = .error (.corrupted cause) := by
  cases outcome with
  | error e => cases e <;> simp [settled]
  | _ => simp [settled]

/-- The stop does not depend on when an oversized frame was reported. -/
theorem upTo_map_settled (limit : Option ℕ) (outcomes : List Outcome) :
    upTo limit (outcomes.map Outcome.settled) = (upTo limit outcomes).map Outcome.settled := by
  induction outcomes generalizing limit with
  | nil => rfl
  | cons outcome rest ih =>
    have hremaining : outcome.settled.remaining limit = outcome.remaining limit := by
      rw [Outcome.remaining, outcome.isFrame_settled, Outcome.remaining]
    rw [List.map_cons, upTo, upTo, hremaining, ih, apply_ite (List.map Outcome.settled)]
    rfl

/-! ## What a decoder takes out of a buffer

Where no header is looked for and nothing is stripped, the bytes of a frame are handed on as they stand in
the buffer. Then frames and rest can be put together again, as long as nothing was reported on the way. -/

/-- In a step over frames of which nothing is removed, no byte is lost unless there is an error. Without
one, the frames and what is left over are the capture again, put together. -/
inductive Step.Keeps (buffer : Bytes) : Step → Prop where
  | wait : Keeps buffer ⟨.needMore, .framing, buffer⟩
  | frame {bytes rest : Bytes} (hsplit : bytes ++ rest = buffer) : Keeps buffer ⟨.frame bytes, .framing, rest⟩
  | error {step : Step} {e : Error} (he : step.outcome = .error e) : Keeps buffer step

namespace Layout

variable {layout : Layout}

/-- A frame from which nothing is stripped is handed on with all its bytes. -/
theorem take_keeps (hstrip : layout.strip = 0) (length : ℕ) (buffer : Bytes) :
    (layout.take length buffer).Keeps buffer := by
  rw [take_eq, hstrip]
  split
  · exact .wait
  · split
    · exact .error rfl
    · exact .frame (List.take_append_drop length buffer)

/-- An oversized frame that is reported at once is never dropped in silence. -/
theorem skip_keeps (hfast : layout.failFast = true) (length : ℕ) (buffer : Bytes) :
    (layout.skip length buffer).Keeps buffer := by
  rw [skip_eq, hfast]
  split
  · exact .error rfl
  · exact .error rfl

theorem judge_keeps (hfast : layout.failFast = true) (hstrip : layout.strip = 0) (raw : ℤ) (buffer : Bytes) :
    (layout.judge raw buffer).Keeps buffer := by
  simp only [judge]
  split
  · exact .error rfl
  split
  · exact .error rfl
  split
  · exact skip_keeps hfast _ buffer
  · exact take_keeps hstrip _ buffer

/-- **One call** over frames without a header: no byte is passed over in front of the length field. -/
theorem next_keeps (hcheck : layout.check = .ok ()) (hfast : layout.failFast = true) (hheader : layout.header = .none)
    (hstrip : layout.strip = 0) (buffer : Bytes) : (layout.next .framing buffer).Keeps buffer := by
  have hat : layout.header.isAt buffer = true := by
    rw [hheader]
    rfl
  have hcut : layout.next .framing buffer = layout.cut buffer := by
    simp only [next, scan]
    rw [Header.seek_of_isAt hat, if_pos hat]
  rw [hcut]
  by_cases hshort : buffer.length < layout.fieldEnd
  · rw [cut_of_lt hshort]
    exact .wait
  · obtain ⟨raw, -, hjudge⟩ := exists_cut_eq hcheck (Nat.le_of_not_lt hshort)
    rw [hjudge]
    exact judge_keeps hfast hstrip raw buffer

/-- **Frames and rest are the bytes**, if nothing but frames was found and nothing is removed from
them. -/
theorem flatten_frames_append (hcheck : layout.check = .ok ()) (hfast : layout.failFast = true)
    (hheader : layout.header = .none) (hstrip : layout.strip = 0) {buffer : Bytes}
    (hframes : ∀ outcome ∈ (layout.exhaust .framing buffer).outcomes, outcome.isFrame = true) :
    ((layout.exhaust .framing buffer).outcomes.filterMap Outcome.frame?).flatten ++
      (layout.exhaust .framing buffer).buffer = buffer := by
  have hfresh : State.Sound .framing := trivial
  refine exhaust_induction (motive := fun state buffer trace => state = .framing →
    (∀ outcome ∈ trace.outcomes, outcome.isFrame = true) →
    (trace.outcomes.filterMap Outcome.frame?).flatten ++ trace.buffer = buffer) hcheck ?wait ?step
    hfresh buffer rfl hframes
  case wait =>
    rintro state buffer - hwait rfl -
    have hkeeps := next_keeps hcheck hfast hheader hstrip buffer
    generalize layout.next .framing buffer = step at hwait hkeeps
    cases hkeeps with
    | wait => rfl
    | frame _ => cases hwait
    | error he => rw [hwait] at he; cases he
  case step =>
    rintro state buffer trace - - ih rfl hframes
    have hkeeps := next_keeps hcheck hfast hheader hstrip buffer
    have hframe := hframes (layout.next .framing buffer).outcome List.mem_cons_self
    have hrest : ∀ outcome ∈ trace.outcomes, outcome.isFrame = true :=
      fun outcome hmem => hframes outcome (List.mem_cons_of_mem _ hmem)
    generalize layout.next .framing buffer = step at ih hkeeps hframe
    cases hkeeps with
    | wait => cases hframe
    | @frame bytes rest hsplit =>
      calc (((trace.after [.frame bytes]).outcomes.filterMap Outcome.frame?).flatten) ++ trace.buffer
          = bytes ++ ((trace.outcomes.filterMap Outcome.frame?).flatten ++ trace.buffer) := List.append_assoc ..
        _ = bytes ++ rest := by rw [ih rfl hrest]
        _ = buffer := hsplit
    | error he => rw [he] at hframe; cases hframe

/-- An answer is a frame, or reports an oversized or a corrupted one. -/
theorem judged_of_mem_exhaust (hcheck : layout.check = .ok ()) {state : State} (hsound : state.Sound) {buffer : Bytes}
    {outcome : Outcome} (hmem : outcome ∈ (layout.exhaust state buffer).outcomes) :
    outcome.isFrame = true ∨ outcome.isTooLong = true ∨ outcome.isCorrupted = true := by
  refine exhaust_induction (motive := fun _ _ trace => outcome ∈ trace.outcomes → _) hcheck (fun _ _ _ _ => nofun)
    ?step hsound buffer hmem
  case step =>
    intro state buffer trace _ hmore ih hmem
    rcases List.mem_cons.1 hmem with rfl | hmem
    · have hconcerns := next_concernsFrame hcheck state buffer
      cases houtcome : (layout.next state buffer).outcome with
      | needMore => exact absurd houtcome hmore
      | frame bytes => exact .inl rfl
      | error e =>
        have he := hconcerns e houtcome
        cases e with
        | tooLong length max skipping => exact .inr (.inl rfl)
        | corrupted cause => exact .inr (.inr rfl)
        | _ => cases he
    · exact ih hmem

/-- There are no more answers than bytes. -/
theorem length_outcomes_le (hcheck : layout.check = .ok ()) {state : State} (hsound : state.Sound) (buffer : Bytes) :
    (layout.exhaust state buffer).outcomes.length ≤ buffer.length := by
  refine exhaust_induction (motive := fun _ buffer trace => trace.outcomes.length ≤ buffer.length) hcheck
    (fun _ _ _ _ => Nat.zero_le _) ?step hsound buffer
  case step =>
    intro state buffer trace hsound hmore ih
    exact Nat.lt_of_le_of_lt ih ((next_advances hcheck hsound buffer).lt hmore)

end Layout

/-! ## A source in one piece

Asked for a chunk, such a source delivers one, and keeps the rest as its only item. So it never delivers
nothing while it has something, and the first time that it has no bytes to give is the end. -/

/-- The source has at most one item, and that is data. A capture is such a source, as it is in memory as a
whole before the first frame is taken from it. -/
def Source.IsOnePiece : Source → Prop
  | [] | [.data _] => True
  | _ => False

/-- Such a source delivers bytes, and has an end where it delivers none. -/
theorem Source.pull_onePiece {source : Source} (hpiece : source.IsOnePiece) :
    ∃ chunk rest, source.pull = (.ok chunk, rest) ∧ Source.IsOnePiece rest ∧
      (chunk = [] ∧ rest = [] ∨ chunk ≠ [] ∧ Source.weight rest < source.weight) := by
  match source, hpiece with
  | [], _ => exact ⟨[], [], rfl, trivial, .inl ⟨rfl, rfl⟩⟩
  | [.data bytes], _ =>
    by_cases hshort : bytes.length ≤ chunkSize
    · refine ⟨bytes, [], if_pos hshort, trivial, ?_⟩
      rcases eq_or_ne bytes [] with hnil | hsome
      · exact .inl ⟨hnil, rfl⟩
      · exact .inr ⟨hsome, Nat.succ_pos _⟩
    · have hpositive : 0 < chunkSize := by decide
      refine ⟨_, _, if_neg hshort, trivial, .inr ⟨?_, ?_⟩⟩
      · rw [← List.length_pos_iff, List.length_take]
        omega
      · simp only [weight, List.length_drop]
        omega

namespace Reader

open Layout

variable {reader : Reader}

/-- **The end of a stream in one piece is its last word**: a call answers a frame, or a fault of the frame
at hand, or that the stream has ended, after which there is nothing left. -/
theorem readIn_onePiece {fuel : ℕ} (hcheck : reader.layout.check = .ok ()) (hpiece : reader.source.IsOnePiece)
    (hfuel : reader.source.weight < fuel) :
    (reader.readIn fuel).2.source.IsOnePiece ∧ ∀ e, (reader.readIn fuel).1 = .error e →
      e.concernsFrame = true ∨ e = .closed ∧ (reader.readIn fuel).2.source = [] := by
  induction fuel generalizing reader with
  | zero => exact absurd hfuel (Nat.not_lt_zero _)
  | succ fuel ih =>
    have hconcerns := next_concernsFrame hcheck reader.state reader.buffer
    obtain ⟨chunk, rest, hpull, hrest, hchunk⟩ := Source.pull_onePiece hpiece
    simp only [readIn]
    cases houtcome : (reader.layout.next reader.state reader.buffer).outcome with
    | frame bytes =>
      refine ⟨hpiece, ?_⟩
      rintro e' heq
      cases heq
    | error e =>
      refine ⟨hpiece, ?_⟩
      rintro e' heq
      obtain rfl := Except.error.inj heq
      exact .inl (hconcerns _ houtcome)
    | needMore =>
      simp only [hpull]
      rcases hchunk with ⟨rfl, rfl⟩ | ⟨hsome, hweight⟩
      · refine ⟨trivial, ?_⟩
        rintro e' heq
        exact .inr ⟨(Except.error.inj heq).symm, rfl⟩
      · -- the source has delivered bytes, so fewer requests are left to it
        obtain ⟨b, bytes, rfl⟩ := List.exists_cons_of_ne_nil hsome
        exact ih hcheck hrest (Nat.lt_of_lt_of_le hweight (Nat.le_of_lt_succ hfuel))

/-! ## The answers that are left

What a reader will answer is settled by what is buffered and what the source still has. A call moves the
first of these answers from what is left to what was given, and whoever collects answers can go by this
list alone. -/

/-- What the decoder of a reader has still to answer to the bytes that are buffered and to those that will
come. -/
def pending (reader : Reader) : Trace :=
  (reader.layout.exhaust reader.state (reader.buffer ++ reader.source.data)).settled

/-- **A call takes the first answer off.** -/
theorem Reads.pending_eq {before after : Reader} {answer : Except Error Bytes} (h : before.Reads answer after)
    (hcheck : before.layout.check = .ok ()) (hsound : before.state.Sound) :
    before.pending = after.pending.after ((framed? answer).toList.map Outcome.settled) := by
  obtain ⟨delivered, hdata, hfeed⟩ := h.stands
  calc before.pending
      = (before.layout.feed (before.trace []) (delivered ++ after.source.data)).settled := by
        rw [pending, hdata]
        rfl
    _ = (before.layout.feed (before.layout.feed (before.trace []) delivered) after.source.data).settled :=
        feed_append hcheck hsound _ _
    _ = (before.layout.feed (before.layout.feed (after.trace (framed? answer).toList) [])
          after.source.data).settled := by rw [hfeed, List.nil_append]
    _ = (before.layout.feed (after.trace (framed? answer).toList) ([] ++ after.source.data)).settled :=
        (feed_append hcheck h.sound _ _).symm
    _ = after.pending.after ((framed? answer).toList.map Outcome.settled) := by
        rw [feed, Trace.settled_after, ← h.layout]
        rfl

/-- Where the stream has ended, nothing is left to answer. -/
theorem Reads.pending_of_end {before after : Reader} {answer : Except Error Bytes} (h : before.Reads answer after)
    (hcheck : before.layout.check = .ok ()) (hanswer : framed? answer = none) (hempty : after.source = []) :
    after.pending = { state := after.state, buffer := after.buffer } := by
  have hquiet := feed_nil_of_idle hcheck (h.idle hanswer [])
  have hfeed : after.pending = (before.layout.feed (after.trace []) []).settled := by
    rw [pending, hempty, h.layout]
    rfl
  rw [hfeed, hquiet]
  rfl

end Reader

end Telegram.Frame
