import Telegram.Proofs.Frame.Progress
import Telegram.Proofs.Frame.Session

/-!
# Skipping oversized frames

A frame that is too long is dropped from the stream, its own bytes and no others. They may come in any
number of pieces, and the decoder may be called in any way while they do. The number of bytes is the
adjusted length of the frame, or `countLimit` where that is less, since a count has no more than 64 bits.

* `Layout.OversizedAt` says that an oversized frame starts at some byte of a stream.
* `Layout.Accounts` ties what a decoder remembers to the bytes it has used up: what is left to skip is
  what the frame has behind the position reached. Feeding and `next` preserve it, so every call does.
* `Layout.discards_exactly` puts together what follows for sessions. The search for the next frame begins
  at the first byte behind the oversized one.

A decoder forgets the bytes that it has used up. So its state alone does not say whether it drops the
right ones; the stream as a whole has to be kept beside it, which is what a session does.
-/

namespace Telegram.Frame

/-- How long the oversized frame is that is being skipped. -/
def State.remembered : State → Nat
  | .framing => 0
  | .skipping length _ => length

namespace Layout

/-- An oversized frame of adjusted length `length` starts at byte number `start` of the stream: there is
its header, its length field is complete, and the number in it, once adjusted, says so. -/
structure OversizedAt (layout : Layout) (stream : Bytes) (start length : Nat) : Prop where
  header : layout.header.isAt (stream.drop start) = true
  room : start + layout.fieldEnd ≤ stream.length
  field : ∃ raw, readLength layout.order layout.width.toNat (layout.field (stream.drop start)) = .ok raw ∧
    0 ≤ raw ∧ raw + layout.adjustment.toInt + layout.fieldEnd = length
  oversized : layout.max < length

variable {layout : Layout}

/-- Later bytes do not change where an oversized frame starts or how long it is. -/
theorem OversizedAt.append {stream : Bytes} {start length : Nat}
    (h : layout.OversizedAt stream start length) (more : Bytes) :
    layout.OversizedAt (stream ++ more) start length := by
  have hroom := h.room
  have hdrop : (stream ++ more).drop start = stream.drop start ++ more :=
    List.drop_append_of_le_length (by omega)
  have hlong : layout.fieldEnd ≤ (stream.drop start).length := by
    rw [List.length_drop]
    omega
  constructor
  · rw [hdrop]
    exact Header.isAt_append h.header more
  · rw [List.length_append]
    omega
  · rw [hdrop, Layout.field, List.take_append_of_le_length hlong]
    exact h.field
  · exact h.oversized

/-! ## Finding an oversized frame

A decoder begins to skip in one situation only, and it is the one that `Layout.OversizedAt` describes. The
description speaks of the stream and of a position in it, so it stays true when the buffer has moved
on. -/

/-- Where the search ends at an oversized frame, that frame is skipped. -/
theorem OversizedAt.scan_eq (hcheck : layout.check = .ok ()) {stream buffer : Bytes} {start length : Nat}
    (h : layout.OversizedAt stream start length) (hseek : layout.header.seek buffer = stream.drop start) :
    layout.scan buffer = layout.skip (min length countLimit) (stream.drop start) := by
  have hroom := h.room
  obtain ⟨raw, hread, hnonnegative, hlength⟩ := h.field
  have hmax := h.oversized
  obtain ⟨-, hend⟩ := check_eq_ok_iff.1 hcheck
  have hlong : layout.fieldEnd ≤ (stream.drop start).length := by
    rw [List.length_drop]
    omega
  simp only [scan]
  rw [hseek, if_pos h.header, cut_of_le hlong, hread]
  simp only [judge]
  rw [if_neg (by omega), hlength, if_neg (by omega), if_pos (by omega), Int.toNat_natCast]

/-- A frame is skipped because its length is beyond the limit. -/
theorem exists_of_judge_skipping {raw : Int} {buffer : Bytes} {length left : Nat}
    (hskipping : (layout.judge raw buffer).state = .skipping length left) :
    ∃ adjusted : Nat, 0 ≤ raw ∧ raw + layout.adjustment.toInt + layout.fieldEnd = adjusted ∧
      layout.max < adjusted := by
  simp only [judge] at hskipping
  split at hskipping
  · cases hskipping
  split at hskipping
  · cases hskipping
  split at hskipping
  · rename_i hnegative hend hmax
    exact ⟨(raw + layout.adjustment.toInt + layout.fieldEnd).toNat, by omega, by omega, by omega⟩
  · rw [take_eq] at hskipping
    split at hskipping
    · cases hskipping
    · split at hskipping <;> cases hskipping

/-- **A decoder starts skipping at an oversized frame only**, the one that the search for a header
found. -/
theorem exists_oversizedAt_of_scan (hcheck : layout.check = .ok ()) {stream : Bytes} {origin : Nat}
    (horigin : origin ≤ stream.length) {length left : Nat}
    (hskipping : (layout.scan (stream.drop origin)).state = .skipping length left) :
    ∃ start adjusted, layout.header.seek (stream.drop origin) = stream.drop start ∧
      layout.OversizedAt stream start adjusted := by
  obtain ⟨passed, hpassed⟩ := layout.header.seek_suffix (stream.drop origin)
  have hseek : layout.header.seek (stream.drop origin) = stream.drop (origin + passed.length) := by
    rw [← List.drop_drop, ← hpassed, List.drop_left]
    exact hpassed.symm ▸ rfl
  have hlength := congrArg List.length hpassed
  rw [List.length_append, List.length_drop] at hlength
  simp only [scan] at hskipping
  split at hskipping
  · rename_i hat
    by_cases hshort : (layout.header.seek (stream.drop origin)).length < layout.fieldEnd
    · rw [cut_of_lt hshort] at hskipping
      cases hskipping
    · obtain ⟨raw, hread, hcut⟩ := exists_cut_eq hcheck (Nat.le_of_not_lt hshort)
      rw [hcut] at hskipping
      obtain ⟨adjusted, hnonnegative, hadjusted, hmax⟩ := exists_of_judge_skipping hskipping
      rw [hseek] at hat hread
      exact ⟨_, adjusted, hseek, hat, by omega, ⟨raw, hread, hnonnegative, hadjusted⟩, hmax⟩
  · cases hskipping

/-! ## What is used up

A call leaves the end of the buffer that it was given, so the position only moves forward. How far it
moves is what counts while a frame is skipped: all the way through the buffer, as long as the frame
reaches beyond it. -/

theorem skip_suffix (length : Nat) (buffer : Bytes) : (layout.skip length buffer).buffer <:+ buffer := by
  rw [skip_eq]
  split
  · simp only
    split
    · exact List.nil_suffix
    · exact List.nil_suffix
  · exact List.drop_suffix _ _

theorem take_suffix (length : Nat) (buffer : Bytes) : (layout.take length buffer).buffer <:+ buffer := by
  rw [take_eq]
  split
  · exact List.suffix_refl _
  · split
    · exact List.drop_suffix _ _
    · exact List.drop_suffix _ _

theorem judge_suffix (raw : Int) (buffer : Bytes) : (layout.judge raw buffer).buffer <:+ buffer := by
  simp only [judge]
  split
  · exact List.drop_suffix _ _
  split
  · exact List.drop_suffix _ _
  split
  · exact skip_suffix _ _
  · exact take_suffix _ _

theorem scan_suffix (hcheck : layout.check = .ok ()) (buffer : Bytes) :
    (layout.scan buffer).buffer <:+ buffer := by
  have hseek := layout.header.seek_suffix buffer
  simp only [scan]
  split
  · by_cases hshort : (layout.header.seek buffer).length < layout.fieldEnd
    · rw [cut_of_lt hshort]
      exact hseek
    · obtain ⟨raw, -, hcut⟩ := exists_cut_eq hcheck (Nat.le_of_not_lt hshort)
      rw [hcut]
      exact (judge_suffix raw _).trans hseek
  · exact hseek

theorem next_suffix (hcheck : layout.check = .ok ()) (state : State) (buffer : Bytes) :
    (layout.next state buffer).buffer <:+ buffer := by
  cases state with
  | framing => exact scan_suffix hcheck buffer
  | skipping length left =>
    rw [next_skipping]
    split
    · exact List.nil_suffix
    split
    · exact (scan_suffix hcheck _).trans (List.drop_suffix _ _)
    · exact List.drop_suffix _ _

/-- Once all that was left to skip has come, it is used up. -/
theorem length_next_skipping_le (hcheck : layout.check = .ok ()) (length : Nat) {left : Nat}
    {buffer : Bytes} (hall : left ≤ buffer.length) :
    (layout.next (.skipping length left) buffer).buffer.length + left ≤ buffer.length := by
  have hdrop : (layout.next (.skipping length left) buffer).buffer <:+ buffer.drop left := by
    rw [next_skipping, if_neg (Nat.not_lt.2 hall)]
    split
    · exact scan_suffix hcheck _
    · exact List.suffix_refl _
  have hle := hdrop.length_le
  rw [List.length_drop] at hle
  omega

/-- A decoder that skips a frame has nothing else buffered: what came with the frame belongs to it. -/
theorem scan_buffer_eq_nil (hcheck : layout.check = .ok ()) {buffer : Bytes}
    (hskipping : (layout.scan buffer).state.isSkipping = true) : (layout.scan buffer).buffer = [] := by
  obtain ⟨length, left, hstate⟩ : ∃ length left, (layout.scan buffer).state = .skipping length left := by
    cases hstate : (layout.scan buffer).state with
    | framing =>
      rw [hstate] at hskipping
      cases hskipping
    | skipping length left => exact ⟨length, left, rfl⟩
  obtain ⟨start, adjusted, hseek, hoversized⟩ :=
    exists_oversizedAt_of_scan hcheck (Nat.zero_le buffer.length) hstate
  rw [List.drop_zero] at hseek
  rw [hoversized.scan_eq hcheck hseek, skip_eq] at hstate ⊢
  split
  · split <;> rfl
  · rename_i hcomplete
    rw [if_neg hcomplete] at hstate
    cases hstate

theorem next_buffer_eq_nil (hcheck : layout.check = .ok ()) {state : State} {buffer : Bytes}
    (hskipping : (layout.next state buffer).state.isSkipping = true) :
    (layout.next state buffer).buffer = [] := by
  cases state with
  | framing => exact scan_buffer_eq_nil hcheck hskipping
  | skipping length left =>
    rw [next_skipping] at hskipping ⊢
    split at hskipping
    · rw [if_pos ‹_›]
    · rw [if_neg ‹_›]
      split at hskipping
      · rw [if_pos ‹_›]
        exact scan_buffer_eq_nil hcheck hskipping
      · cases hskipping

/-! ## The account of a session

Feeding moves neither the position nor what is left to skip. A call moves the one forward by as much as it
reduces the other. So the byte at which skipping will stop is fixed when it begins. -/

/-- What is buffered is the end of the stream, and what is left to skip is what the oversized frame has
behind the position reached. The place of the frame in the stream is part of it:
`start` is where it begins, which no call can tell any more once its first bytes are gone. -/
structure Accounts (layout : Layout) (session : Session) : Prop where
  sound : session.state.Sound
  suffix : session.buffer <:+ session.fed
  skipping : ∀ length left, session.state = .skipping length left → ∃ start adjusted,
    layout.OversizedAt session.fed start adjusted ∧ length = min adjusted countLimit ∧
      start ≤ session.position ∧ session.position + left = start + length

theorem position_add_length {session : Session} (hsuffix : session.buffer <:+ session.fed) :
    session.position + session.buffer.length = session.fed.length :=
  Nat.sub_add_cancel hsuffix.length_le

theorem buffer_eq_drop {session : Session} (hsuffix : session.buffer <:+ session.fed) :
    session.buffer = session.fed.drop session.position := by
  obtain ⟨used, hused⟩ := hsuffix
  have hposition : session.position = used.length := by
    rw [Session.position, ← hused, List.length_append, Nat.add_sub_cancel]
  rw [hposition, ← hused, List.drop_left]

theorem Accounts.fresh : layout.Accounts {} :=
  ⟨trivial, List.suffix_refl [], nofun⟩

/-- What has been used up does not change by what arrives. -/
theorem position_feed (session : Session) (chunk : Bytes) :
    (layout.call session (.feed chunk)).2.position = session.position := by
  simp only [Session.position, call, List.length_append]
  omega

/-- Bytes that arrive are not used up, so nothing is accounted for anew. -/
theorem Accounts.feed {session : Session} (h : layout.Accounts session) (chunk : Bytes) :
    layout.Accounts (layout.call session (.feed chunk)).2 := by
  refine ⟨h.sound, ?_, fun length left hstate => ?_⟩
  · obtain ⟨used, hused⟩ := h.suffix
    exact ⟨used, by simp only [call, ← hused, List.append_assoc]⟩
  · obtain ⟨start, adjusted, hoversized, hlength, hrest⟩ := h.skipping length left hstate
    exact ⟨start, adjusted, hoversized.append chunk, hlength, by rwa [position_feed]⟩

/-- A search that begins anywhere in the stream opens an account for the oversized frame it ends at. -/
theorem Accounts.scan (hcheck : layout.check = .ok ()) (session : Session) {origin : Nat}
    (horigin : origin ≤ session.fed.length) :
    layout.Accounts (session.advance (layout.scan (session.fed.drop origin))) := by
  have hsuffix := (scan_suffix hcheck (session.fed.drop origin)).trans (List.drop_suffix _ _)
  refine ⟨(scan_advances hcheck _).sound, hsuffix, fun length left hstate => ?_⟩
  obtain ⟨start, adjusted, hseek, hoversized⟩ := exists_oversizedAt_of_scan hcheck horigin hstate
  have hskipping : (layout.scan (session.fed.drop origin)).state.isSkipping = true := by
    rw [Session.advance_state] at hstate
    rw [hstate]
    rfl
  have hnil := scan_buffer_eq_nil hcheck hskipping
  have hposition : (session.advance (layout.scan (session.fed.drop origin))).position =
      session.fed.length := by
    simp only [Session.position, Session.advance_fed, Session.advance_buffer, hnil, List.length_nil,
      Nat.sub_zero]
  have hroom := hoversized.room
  rw [Session.advance_state, hoversized.scan_eq hcheck hseek, skip_eq, List.length_drop] at hstate
  split at hstate
  · obtain ⟨rfl, rfl⟩ : min adjusted countLimit = length ∧
        min adjusted countLimit - (session.fed.length - start) = left := by
      simp only at hstate
      split at hstate <;> exact State.skipping.inj hstate
    exact ⟨start, adjusted, hoversized, rfl, by omega, by omega⟩
  · cases hstate

/-- **One call keeps the account.** Either it goes on with the frame that is being skipped, or it begins a
search, and that opens an account of its own. -/
theorem Accounts.next (hcheck : layout.check = .ok ()) {session : Session} (h : layout.Accounts session) :
    layout.Accounts (layout.call session .next).2 := by
  have hbuffer := buffer_eq_drop h.suffix
  have hposition := position_add_length h.suffix
  show layout.Accounts (session.advance (layout.next session.state session.buffer))
  cases hstate : session.state with
  | framing =>
    show layout.Accounts (session.advance (layout.scan session.buffer))
    rw [hbuffer]
    exact .scan hcheck session (by omega)
  | skipping length left =>
    obtain ⟨start, adjusted, hoversized, hlength, hstart, hleft⟩ := h.skipping length left hstate
    have hsound : 0 < left ∧ left ≤ length := by
      have hsound := h.sound
      rwa [hstate] at hsound
    rw [next_skipping]
    split
    · refine ⟨⟨by omega, by omega⟩, List.nil_suffix, fun length' left' hstate' => ?_⟩
      obtain ⟨rfl, rfl⟩ := State.skipping.inj hstate'
      have hposition' : (session.advance ⟨.needMore, .skipping length (left - session.buffer.length),
          []⟩).position = session.fed.length := rfl
      exact ⟨start, adjusted, hoversized, hlength, by omega, by omega⟩
    split
    · rw [hbuffer, List.drop_drop]
      exact .scan hcheck session (by omega)
    · exact ⟨trivial, (List.drop_suffix _ _).trans h.suffix, nofun⟩

/-- **The account is kept** wherever a session leads. -/
theorem accounts_after (hcheck : layout.check = .ok ()) (calls : List Call) :
    layout.Accounts (layout.after {} calls) :=
  layout.after_induction (fun _ chunk h => h.feed chunk) (fun _ h => h.next hcheck) .fresh calls

/-- **Nothing else happens meanwhile**: a decoder that is skipping up to byte number `stop` of the stream
goes on doing so, whatever it is given and asked, until that byte is reached. -/
theorem skipping_until (hcheck : layout.check = .ok ()) {session : Session} (h : layout.Accounts session)
    {length left : Nat} (hstate : session.state = .skipping length left) (calls : List Call) :
    (layout.after session calls).position < session.position + left →
      (layout.after session calls).state =
        .skipping length (session.position + left - (layout.after session calls).position) := by
  obtain ⟨stop, hstop⟩ : ∃ stop, session.position + left = stop := ⟨_, rfl⟩
  rw [hstop]
  refine (layout.after_induction (motive := fun session => layout.Accounts session ∧
    (session.position < stop → session.state = .skipping length (stop - session.position)))
    ?feed ?next ⟨h, fun _ => ?start⟩ calls).2
  case start => rw [hstate, ← hstop, Nat.add_sub_cancel_left]
  case feed =>
    rintro session chunk ⟨h, hskips⟩
    refine ⟨h.feed chunk, ?_⟩
    rw [position_feed]
    exact hskips
  -- a call before the end of the frame uses up what is buffered, and nothing but bytes of the frame
  case next =>
    rintro session ⟨h, hskips⟩
    refine ⟨h.next hcheck, fun hbefore => ?_⟩
    have hposition := position_add_length h.suffix
    have hposition' := position_add_length (h.next hcheck).suffix
    have hle := (next_suffix hcheck session.state session.buffer).length_le
    have hfed : (layout.call session .next).2.fed = session.fed := rfl
    have hbuffer : (layout.call session .next).2.buffer =
        (layout.next session.state session.buffer).buffer := rfl
    have hstate' : (layout.call session .next).2.state =
        (layout.next session.state session.buffer).state := rfl
    rw [hfed, hbuffer] at hposition'
    have hskipping := hskips (by omega)
    have hshort : session.buffer.length < stop - session.position := by
      by_contra hall
      have hused := length_next_skipping_le hcheck length (Nat.not_lt.1 hall)
      rw [← hskipping] at hused
      omega
    have hnext : layout.next session.state session.buffer =
        ⟨.needMore, .skipping length (stop - session.position - session.buffer.length), []⟩ := by
      rw [hskipping, next_skipping, if_pos hshort]
    rw [hnext, List.length_nil] at hposition'
    rw [hstate', hnext, State.skipping.injEq]
    exact ⟨rfl, by omega⟩

/-- Whoever is asked for something and goes on skipping has used up all there was. -/
theorem call_buffer_eq_nil (hcheck : layout.check = .ok ()) (session : Session) {call : Call}
    (hasks : call.isFeed = false) (hskipping : (layout.call session call).2.state.isSkipping = true) :
    (layout.call session call).2.buffer = [] := by
  obtain ⟨count, hcount⟩ := exists_call_eq_after_next layout session hasks
  -- only the last call of `next` matters, whatever led to it
  rw [List.replicate_succ', after_append] at hcount
  rw [hcount] at hskipping ⊢
  exact next_buffer_eq_nil hcheck hskipping

/-! ## Exactly the oversized frame is dropped

Everything that can be asked of a decoder is made of calls of `next`, so what has been shown of these and
of feeding is shown of all sessions. -/

/-- What a session shows of the oversized frames in its stream. A frame that starts at byte number `start`
and has `length` bytes to drop reaches up to `start + length`. -/
structure DiscardsExactly (layout : Layout) (session : Session) : Prop where
  /-- The decoder is skipping exactly when something is left to skip, -/
  left_pos_iff : session.state.isSkipping = true ↔ 0 < session.state.left
  /-- and exactly then the length of an oversized frame is remembered. -/
  remembered_pos_iff : session.state.isSkipping = true ↔ 0 < session.state.remembered
  buffer_eq : session.buffer = session.fed.drop session.position
  /-- What is left to skip belongs to an oversized frame, less what is used up of it. Nothing else is
  looked for before the end of the frame is reached. The next call uses up all there is of the frame, and
  no more: a search begins at the first byte behind it. -/
  skips : ∀ length left, session.state = .skipping length left → ∃ start adjusted,
    layout.OversizedAt session.fed start adjusted ∧ length = min adjusted countLimit ∧
      start ≤ session.position ∧ left + (session.position - start) = length ∧
      (∀ more, (layout.after session more).position < start + length → (layout.after session more).state =
        .skipping length (start + length - (layout.after session more).position)) ∧
      layout.next session.state session.buffer =
        if session.fed.length < start + length then
          ⟨.needMore, .skipping length (start + length - session.fed.length), []⟩
        else if layout.failFast then layout.scan (session.fed.drop (start + length))
        else ⟨.error (.tooLong length layout.max false), .framing, session.fed.drop (start + length)⟩
  /-- A search that ends at an oversized frame uses up all there is of it, and no more. -/
  finds : ∀ origin start adjusted, layout.OversizedAt session.fed start adjusted →
    layout.header.seek (session.fed.drop origin) = session.fed.drop start →
      layout.scan (session.fed.drop origin) =
        let length := min adjusted countLimit
        if session.fed.length < start + length then
          ⟨if layout.failFast then .error (.tooLong length layout.max true) else .needMore,
            .skipping length (start + length - session.fed.length), []⟩
        else ⟨.error (.tooLong length layout.max false), .framing, session.fed.drop (start + length)⟩

/-- In a sound state something is left to skip for as long as it skips. -/
theorem isSkipping_iff_left_pos {state : State} (hsound : state.Sound) :
    state.isSkipping = true ↔ 0 < state.left := by
  cases state with
  | framing => exact ⟨nofun, nofun⟩
  | skipping length left => exact ⟨fun _ => hsound.1, fun _ => rfl⟩

theorem isSkipping_iff_remembered_pos {state : State} (hsound : state.Sound) :
    state.isSkipping = true ↔ 0 < state.remembered := by
  cases state with
  | framing => exact ⟨nofun, nofun⟩
  | skipping length left => exact ⟨fun _ => Nat.lt_of_lt_of_le hsound.1 hsound.2, fun _ => rfl⟩

/-- The search in terms of the whole stream, in place of the part of it that is searched. -/
theorem OversizedAt.scan_drop_eq (hcheck : layout.check = .ok ()) {stream : Bytes}
    {origin start adjusted : Nat} (h : layout.OversizedAt stream start adjusted)
    (hseek : layout.header.seek (stream.drop origin) = stream.drop start) :
    layout.scan (stream.drop origin) =
      let length := min adjusted countLimit
      if stream.length < start + length then
        ⟨if layout.failFast then .error (.tooLong length layout.max true) else .needMore,
          .skipping length (start + length - stream.length), []⟩
      else ⟨.error (.tooLong length layout.max false), .framing, stream.drop (start + length)⟩ := by
  have hroom := h.room
  rw [h.scan_eq hcheck hseek, skip_eq, List.length_drop, List.drop_drop]
  by_cases hshort : stream.length < start + min adjusted countLimit
  · rw [if_pos (by omega), if_pos hshort]
    have hleft : min adjusted countLimit - (stream.length - start) =
        start + min adjusted countLimit - stream.length := by
      omega
    rw [hleft]
    cases layout.failFast <;> rfl
  · rw [if_neg (by omega), if_neg hshort]

/-- What the account says, in the words of a stream. -/
theorem Accounts.discardsExactly (hcheck : layout.check = .ok ()) {session : Session}
    (h : layout.Accounts session) : layout.DiscardsExactly session where
  left_pos_iff := isSkipping_iff_left_pos h.sound
  remembered_pos_iff := isSkipping_iff_remembered_pos h.sound
  buffer_eq := buffer_eq_drop h.suffix
  skips := by
    intro length left hstate
    obtain ⟨start, adjusted, hoversized, hlength, hstart, hleft⟩ := h.skipping length left hstate
    have hposition := position_add_length h.suffix
    have huntil := skipping_until hcheck h hstate
    rw [hleft] at huntil
    refine ⟨start, adjusted, hoversized, hlength, hstart, by omega, huntil, ?_⟩
    rw [hstate, next_skipping]
    by_cases hshort : session.fed.length < start + length
    · have hrest : left - session.buffer.length = start + length - session.fed.length := by omega
      rw [if_pos (by omega), if_pos hshort, hrest]
    · rw [if_neg (by omega), if_neg hshort, buffer_eq_drop h.suffix, List.drop_drop, hleft]
  finds := fun _ _ _ hoversized hseek => hoversized.scan_drop_eq hcheck hseek

/-- **Exact discarding.** Whatever a decoder is given and asked, and in whatever order, it drops exactly
the bytes of each oversized frame, as far as a count reaches, before it looks for the next one. Whatever
it is asked comes down to `next`, and leaves nothing buffered while it is skipping. -/
theorem discards_exactly {layout : Layout} (hcheck : layout.check = .ok ()) (calls : List Call) :
    layout.DiscardsExactly (layout.after {} calls) ∧
    ∀ call, call.isFeed = false →
      (∃ count, (layout.call (layout.after {} calls) call).2 =
        layout.after (layout.after {} calls) (List.replicate (count + 1) .next)) ∧
      ((layout.call (layout.after {} calls) call).2.state.isSkipping = true →
        (layout.call (layout.after {} calls) call).2.buffer = []) :=
  ⟨(accounts_after hcheck calls).discardsExactly hcheck, fun _ hasks =>
    ⟨exists_call_eq_after_next layout _ hasks, call_buffer_eq_nil hcheck _ hasks⟩⟩

/-- A frame of ten bytes, where four are allowed, comes in pieces. When six bytes of it are used up, there
are four to drop of what comes next. -/
theorem discards_exactly_of_two_pieces :
    let layout : Layout := { width := 1, maxLength := 4, failFast := false }
    let session := layout.after {} [.feed [9, 1, 2], .next, .feed [3, 4, 5], .drain]
    layout.check = .ok () ∧ session = ⟨[9, 1, 2, 3, 4, 5], .skipping 10 4, []⟩ ∧
      layout.DiscardsExactly session ∧
      ((layout.call session .nextAtEnd).2.state.isSkipping = true →
        (layout.call session .nextAtEnd).2.buffer = []) ∧
      (layout.after session [.feed [6, 7, 8, 9, 1, 42], .next]).buffer = [1, 42] := by
  intro layout session
  obtain ⟨hexact, hcalls⟩ := discards_exactly (show layout.check = .ok () from rfl)
    [.feed [9, 1, 2], .next, .feed [3, 4, 5], .drain]
  exact ⟨rfl, by decide, hexact, (hcalls .nextAtEnd rfl).2, by decide⟩

end Layout

end Telegram.Frame
