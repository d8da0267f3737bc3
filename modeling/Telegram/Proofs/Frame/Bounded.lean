import Telegram.Proofs.Frame.Reader

/-!
# How much is ever buffered

A length field can promise any number of bytes. None of that promise is stored: a decoder that asks for
more bytes holds fewer than a longest frame has, and a reader asks its source for one chunk at a time.

* `Layout.capacity` is the number of bytes that a decoder never holds while it asks for more.
* `Layout.next_length_lt` goes through the ways of asking for more: no header, no complete length field,
  no complete frame, and an oversized frame of which nothing is kept.
* `Reader.readIn_length_le` is what one call of a reader preserves, and `Layout.buffered_bounded` what any
  number of calls does, whatever the source delivers.

The bound does not hold at all times. A decoder that has just been given bytes may hold any number of
them, and has it frame by frame. It is when it asks for more that little is left.
-/

namespace Telegram.Frame

/-- The bytes of the longest frame, or of the header where that is longer. -/
def Layout.capacity (layout : Layout) : Nat :=
  Max.max layout.max layout.header.width

/-! ## Asking for more bytes

In each of these ways the decoder has compared what it holds with some number and found it smaller: with
the width of the header, the end of the length field or the length of the frame, and this length it has
compared with the greatest one before. -/

/-- Where no header is found, less than one is kept. -/
theorem Header.length_seek_lt {header : Header} {buffer : Bytes}
    (hnone : ¬ header.isAt (header.seek buffer) = true) :
    (header.seek buffer).length < header.width := by
  induction buffer with
  | nil =>
    rw [seek, List.length_nil]
    refine Nat.pos_of_ne_zero fun hwidth => hnone ?_
    have hnil := List.eq_nil_of_length_eq_zero hwidth
    simp only [seek, isAt, hnil, List.isPrefixOf_nil_left]
  | cons b rest ih =>
    rw [seek] at hnone ⊢
    by_cases hstay : header.isAt (b :: rest) || Bytes.isShorter (b :: rest) header.width
    · rw [if_pos hstay] at hnone ⊢
      rw [Bool.or_eq_true, Bytes.isShorter_iff] at hstay
      exact hstay.resolve_left hnone
    · rw [if_neg hstay] at hnone ⊢
      exact ih hnone

/-- An answer that asks for more bytes leaves fewer than `limit` of them. -/
def Step.Bounded (step : Step) (limit : Nat) : Prop :=
  step.outcome = .needMore → step.buffer.length < limit

theorem Step.Bounded.mono {step : Step} {limit limit' : Nat} (h : step.Bounded limit)
    (hle : limit ≤ limit') : step.Bounded limit' :=
  fun hwait => Nat.lt_of_lt_of_le (h hwait) hle

namespace Layout

variable {layout : Layout}

/-- Of a frame that is skipped nothing is kept. -/
theorem skip_bounded (length : Nat) (buffer : Bytes) {limit : Nat} (hpos : 0 < limit) :
    (layout.skip length buffer).Bounded limit := by
  rw [skip_eq]
  split
  · simp only
    split
    · nofun
    · exact fun _ => hpos
  · nofun

/-- A frame that is not complete is shorter than a complete one. -/
theorem take_bounded (length : Nat) (buffer : Bytes) : (layout.take length buffer).Bounded length := by
  rw [take_eq]
  split
  · rename_i hshort
    exact fun _ => hshort
  · split <;> nofun

theorem judge_bounded (hpos : 0 < layout.max) (raw : Int) (buffer : Bytes) :
    (layout.judge raw buffer).Bounded layout.max := by
  simp only [judge]
  split
  · intro hwait
    cases hwait
  split
  · intro hwait
    cases hwait
  split
  · exact skip_bounded _ _ hpos
  · exact (take_bounded _ _).mono (by omega)

theorem cut_bounded (hcheck : layout.check = .ok ()) (buffer : Bytes) :
    (layout.cut buffer).Bounded layout.max := by
  obtain ⟨-, hend⟩ := check_eq_ok_iff.1 hcheck
  have hpos := fieldEnd_pos hcheck
  by_cases hshort : buffer.length < layout.fieldEnd
  · rw [cut_of_lt hshort]
    exact fun _ => Nat.lt_of_lt_of_le hshort hend
  · obtain ⟨raw, -, hcut⟩ := exists_cut_eq hcheck (Nat.le_of_not_lt hshort)
    rw [hcut]
    exact judge_bounded (by omega) raw buffer

theorem scan_bounded (hcheck : layout.check = .ok ()) (buffer : Bytes) :
    (layout.scan buffer).Bounded layout.capacity := by
  simp only [scan]
  split
  · exact (cut_bounded hcheck _).mono (Nat.le_max_left ..)
  · rename_i hnone
    exact fun _ => Nat.lt_of_lt_of_le (Header.length_seek_lt hnone) (Nat.le_max_right ..)

/-- **A decoder that asks for more bytes holds fewer than a frame or a header has**, whatever state it is
in and whatever it was given. -/
theorem next_length_lt (hcheck : layout.check = .ok ()) (state : State) (buffer : Bytes) :
    (layout.next state buffer).Bounded layout.capacity := by
  have hpos : 0 < layout.capacity := by
    obtain ⟨-, hend⟩ := check_eq_ok_iff.1 hcheck
    have hfield := fieldEnd_pos hcheck
    exact Nat.lt_of_lt_of_le (show 0 < layout.max by omega) (Nat.le_max_left ..)
  cases state with
  | framing => exact scan_bounded hcheck buffer
  | skipping length left =>
    rw [next_skipping]
    split
    · exact fun _ => hpos
    · split
      · exact scan_bounded hcheck _
      · nofun

end Layout

/-! ## A reader

A reader goes to its source only when its decoder asks for more, and comes back with a chunk at most. So
after a call it holds less than the bound and a chunk. -/

/-- A source delivers at most one chunk at a time. -/
theorem Source.length_le_of_pull {source rest : Source} {chunk : Bytes}
    (hpull : source.pull = (.ok chunk, rest)) : chunk.length ≤ chunkSize := by
  cases source with
  | nil =>
    obtain ⟨rfl, -⟩ := Prod.mk.inj hpull |>.imp_left Except.ok.inj
    exact Nat.zero_le _
  | cons item items =>
    cases item with
    | fault cause => cases (Prod.mk.inj hpull).1
    | data bytes =>
      rw [pull] at hpull
      split at hpull
      · rename_i hshort
        obtain ⟨rfl, -⟩ := Prod.mk.inj hpull |>.imp_left Except.ok.inj
        exact hshort
      · obtain ⟨rfl, -⟩ := Prod.mk.inj hpull |>.imp_left Except.ok.inj
        exact List.length_take_le _ _

namespace Reader

open Layout

/-- **One call** leaves at most a chunk beyond what the decoder holds while it asks for more. -/
theorem readIn_length_le {reader : Reader} (hcheck : reader.layout.check = .ok ())
    (hsound : reader.state.Sound) (fuel : Nat)
    (hle : reader.buffer.length ≤ reader.layout.capacity - 1 + chunkSize) :
    (reader.readIn fuel).2.buffer.length ≤ reader.layout.capacity - 1 + chunkSize := by
  induction fuel generalizing reader with
  | zero => exact hle
  | succ fuel ih =>
    have hadvances := next_advances hcheck hsound reader.buffer
    have hbounded := next_length_lt hcheck reader.state reader.buffer
    obtain ⟨step, hstep⟩ : ∃ step, reader.layout.next reader.state reader.buffer = step := ⟨_, rfl⟩
    obtain ⟨answer, rest, hpull⟩ : ∃ answer rest, reader.source.pull = (answer, rest) := ⟨_, _, rfl⟩
    rw [hstep] at hadvances hbounded
    have hkept : step.buffer.length ≤ reader.layout.capacity - 1 + chunkSize :=
      Nat.le_trans hadvances.le hle
    simp only [readIn, hstep]
    cases houtcome : step.outcome with
    | frame bytes => exact hkept
    | error e => exact hkept
    | needMore =>
      have hlt := hbounded houtcome
      simp only [hpull]
      cases answer with
      | error cause =>
        cases cause with
        -- the decoder is asked once more, with nothing new
        | interrupted => exact ih hcheck hadvances.sound hkept
        | _ => exact hkept
      | ok chunk =>
        have hchunk := Source.length_le_of_pull hpull
        cases chunk with
        | nil => exact hkept
        | cons b chunk =>
          refine ih hcheck hadvances.sound ?_
          show (step.buffer ++ b :: chunk).length ≤ reader.layout.capacity - 1 + chunkSize
          rw [List.length_append]
          omega

end Reader

/-- **Bounded buffering.** A decoder that asks for more bytes holds fewer than `capacity`, whatever state
it is in and whatever it was given. So a reader never holds more than a chunk beyond that, however often
it is called and whatever its source delivers and promises. -/
theorem Layout.buffered_bounded {layout : Layout} (hcheck : layout.check = .ok ()) :
    (∀ state buffer, (layout.next state buffer).outcome = .needMore →
      (layout.next state buffer).buffer.length < Max.max layout.max layout.header.width) ∧
    ∀ source reader, Reader.start layout source = .ok reader → ∀ count,
      (reader.after count).buffer.length ≤ Max.max layout.max layout.header.width - 1 + chunkSize := by
  refine ⟨next_length_lt hcheck, fun source reader hstart count => ?_⟩
  obtain ⟨-, hreader⟩ := Reader.start_eq_ok_iff.1 hstart
  obtain ⟨-, hsame, -, hsound⟩ := Reader.sound_of_start hstart
  induction count with
  | zero =>
    rw [hreader]
    exact Nat.zero_le _
  | succ count ih =>
    obtain ⟨hlayout, hsound'⟩ := Reader.after_layout_sound (hsame ▸ hcheck) hsound count
    rw [hsame] at hlayout
    rw [← hlayout] at hcheck ih ⊢
    exact Reader.readIn_length_le hcheck hsound' _ ih

/-- Behind a frame of five bytes a length field promises two gigabytes. Reporting it leaves the buffer
within the bound. -/
theorem Layout.buffered_bounded_of_promise :
    let layout : Layout := { width := 4, maxLength := 6 }
    let source : Source := [.data [0, 0, 0, 1, 7, 0x80], .data [0, 0, 0, 1, 2], .data [3]]
    let reader : Reader := { layout, source }
    (layout.check = .ok () ∧ Reader.start layout source = .ok reader ∧
        (layout.next .framing [0x80, 0, 0]).outcome = .needMore) ∧
      (layout.next .framing [0x80, 0, 0]).buffer.length < 6 ∧
      (reader.after 2).buffer.length ≤ 6 - 1 + 8192 := by
  intro layout source reader
  have hcheck : layout.check = .ok () := rfl
  have hwait : (layout.next .framing [0x80, 0, 0]).outcome = .needMore := by decide
  have hcapacity : Max.max layout.max layout.header.width = 6 := rfl
  obtain ⟨hnext, hreader⟩ := buffered_bounded hcheck
  rw [hcapacity] at hnext hreader
  exact ⟨⟨hcheck, rfl, hwait⟩, hnext _ _ hwait, hreader source reader rfl 2⟩

end Telegram.Frame
