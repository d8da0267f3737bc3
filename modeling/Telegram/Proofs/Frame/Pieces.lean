import Mathlib.Algebra.GroupWithZero.Nat
import Telegram.Proofs.Frame.Chunks
import Telegram.Proofs.Frame.Kept

/-!
# A stream of frames, oversized frames and noise

A sender puts frames one behind the other; some may be longer than the layout allows, and between them the
line may add noise in which no header begins. The decoder undoes this: it answers the frames of such a
stream, all of them, in their order, each without the bytes to be stripped, and nothing else but a report
in the place of each oversized frame.

* `Layout.Framed` says that some bytes spell one frame, and `Layout.Carries` that a list of pieces can
  stand in a stream.
* `Layout.next_append_of_framed` and `Layout.next_append_of_oversized` take one frame off the front of a
  stream.
* `Header.Misses.seek_append` passes over noise. This needs a whole header to follow, so noise at the end
  of the stream has a case of its own (`Layout.exhaust_of_misses`).
* `Layout.exhaust_stream` puts the pieces together.
-/

namespace Telegram.Frame

/-! ## Noise

Noise is harmless only if no header begins in it. A header of two bytes may begin with the last byte of
the noise and end with the first byte of what follows, so what follows has to be looked at too. -/

namespace Header

/-- No header begins inside the noise, also none that ends in the bytes that follow it. A header of two
bytes may have its first one at the very end of the noise, so what follows has a say in it. -/
def Misses (header : Header) (noise following : Bytes) : Prop :=
  ∀ i < noise.length, header.isAt ((noise ++ following).drop i) = false

instance (header : Header) (noise following : Bytes) : Decidable (header.Misses noise following) :=
  inferInstanceAs (Decidable (∀ i < noise.length, header.isAt ((noise ++ following).drop i) = false))

theorem width_le_two (header : Header) : header.width ≤ 2 := by
  cases header <;> simp [width, bytes]

theorem width_le_of_isAt {header : Header} {buffer : Bytes} (hat : header.isAt buffer = true) :
    header.width ≤ buffer.length :=
  (List.isPrefixOf_iff_prefix.1 hat).length_le

/-- Where no header begins, none is found. -/
theorem isAt_seek_eq_false {header : Header} {buffer : Bytes}
    (h : ∀ i, header.isAt (buffer.drop i) = false) : header.isAt (header.seek buffer) = false := by
  obtain ⟨front, hfront⟩ := header.seek_suffix buffer
  have hdrop : header.seek buffer = buffer.drop front.length := by
    conv => rhs; rw [← hfront, List.drop_left]
  exact hdrop ▸ h front.length

/-- **Noise is passed over** where at least a header's width of bytes follows it. -/
theorem Misses.seek_append {header : Header} {noise rest : Bytes} (h : header.Misses noise rest)
    (hroom : header.width ≤ rest.length) : header.seek (noise ++ rest) = header.seek rest := by
  induction noise with
  | nil => rfl
  | cons b noise ih =>
    have hat : header.isAt (b :: (noise ++ rest)) = false := h 0 (by simp)
    have hlonger : Bytes.isShorter (b :: (noise ++ rest)) header.width = false := by
      rw [Bool.eq_false_iff, ne_eq, Bytes.isShorter_iff, List.length_cons, List.length_append]
      omega
    rw [List.cons_append, seek, hat, hlonger, Bool.or_false, if_neg Bool.false_ne_true]
    exact ih fun i hi => h (i + 1) (Nat.succ_lt_succ hi)

/-- Where less than a header's width follows the noise, no header begins from there on. -/
theorem Misses.isAt_drop {header : Header} {noise rest : Bytes} (h : header.Misses noise rest)
    (hshort : rest.length < header.width) (i : Nat) : header.isAt ((noise ++ rest).drop i) = false := by
  by_cases hi : i < noise.length
  · exact h i hi
  · rw [Bool.eq_false_iff]
    intro hat
    have hle := width_le_of_isAt hat
    rw [List.length_drop, List.length_append] at hle
    omega

/-- A header has at most two bytes, so the first byte that follows the noise decides. -/
theorem Misses.append {header : Header} {noise following : Bytes} (h : header.Misses noise following)
    {more : Bytes} (hmore : following = [] → more = []) : header.Misses noise (following ++ more) := by
  intro i hi
  by_cases hempty : following = []
  · rw [hmore hempty, List.append_nil]
    exact h i hi
  · have hlength : 0 < following.length := List.length_pos_iff.2 hempty
    have hwidth := header.width_le_two
    rw [← List.append_assoc, List.drop_append_of_le_length (by rw [List.length_append]; omega),
      Bool.eq_false_iff]
    intro hat
    refine Bool.eq_false_iff.1 (h i hi) (isAt_of_isAt_append ?_ hat)
    rw [List.length_drop, List.length_append]
    omega

end Header

/-! ## Frames

To stand in a stream, bytes have to spell a frame by themselves: the header at the front, the length field
complete, and the number in it the length of all of them. Then nothing that follows can change how they
are judged. -/

/-- The bytes are as long as a frame that begins with them: a header, and a length field that counts them
all. Nothing is said yet about how long a frame may be. -/
structure Layout.Framed (layout : Layout) (bytes : Bytes) : Prop where
  header : layout.header.isAt bytes = true
  fieldEnd_le : layout.fieldEnd ≤ bytes.length
  counted : ∃ raw : Int, 0 ≤ raw ∧
    readLength layout.order layout.width.toNat (layout.field bytes) = .ok raw ∧
      raw + layout.adjustment.toInt + layout.fieldEnd = bytes.length

namespace Layout

variable {layout : Layout} {bytes : Bytes}

/-- Bytes that follow a frame do not change how it is judged. -/
theorem Framed.next_append (hframed : layout.Framed bytes) (rest : Bytes) :
    layout.next .framing (bytes ++ rest) =
      if layout.max < bytes.length then layout.skip (min bytes.length countLimit) (bytes ++ rest)
      else layout.take bytes.length (bytes ++ rest) := by
  obtain ⟨hheader, hend, raw, hraw, hread, hcount⟩ := hframed
  have hat := Header.isAt_append hheader rest
  have hlong : Bytes.isShorter (bytes ++ rest) layout.fieldEnd = false := by
    rw [Bool.eq_false_iff, ne_eq, Bytes.isShorter_iff, List.length_append]
    omega
  have hfield : layout.field (bytes ++ rest) = layout.field bytes := by
    rw [field, List.take_append_of_le_length hend, ← field]
  simp only [next, scan, Header.seek_of_isAt hat, hat, if_true, cut, hlong, hfield, hread, judge, hcount]
  rw [if_neg Bool.false_ne_true, if_neg (by omega), if_neg (by omega)]
  simp only [Int.ofNat_lt, Int.toNat_natCast]

/-- **A frame is taken off the front of a stream.** -/
theorem next_append_of_framed (hframed : layout.Framed bytes) (hmax : bytes.length ≤ layout.max)
    (hstrip : layout.strip.toNat ≤ bytes.length) (rest : Bytes) :
    layout.next .framing (bytes ++ rest) =
      ⟨.frame (bytes.drop layout.strip.toNat), .framing, rest⟩ := by
  rw [hframed.next_append, if_neg (by omega), take_eq, if_neg (by rw [List.length_append]; omega),
    if_neg (by omega), List.take_left, List.drop_left]

/-- **An oversized frame is taken off the front of a stream**, and reported. -/
theorem next_append_of_oversized (hframed : layout.Framed bytes) (hmax : layout.max < bytes.length)
    (hlimit : bytes.length ≤ countLimit) (rest : Bytes) :
    layout.next .framing (bytes ++ rest) =
      ⟨.error (.tooLong bytes.length layout.max false), .framing, rest⟩ := by
  rw [hframed.next_append, if_pos hmax, Nat.min_eq_left hlimit, skip_eq,
    if_neg (by rw [List.length_append]; omega), List.drop_left]

end Layout

/-! ## Pieces

The pieces are taken off one by one. Frames, also oversized ones, give one answer each. Noise gives none,
and is taken off together with the search for the header behind it. -/

/-- What a stream is made of. A piece is only a claim about its bytes; `Piece.Fits` is whether it is
true. -/
inductive Piece where
  | frame (bytes : Bytes)
  /-- A frame that is longer than the layout allows. -/
  | oversized (bytes : Bytes)
  | noise (bytes : Bytes)
  deriving DecidableEq

namespace Piece

/-- The bytes of a piece, as they stand in the stream. -/
def bytes : Piece → Bytes
  | .frame bytes | .oversized bytes | .noise bytes => bytes

/-- The bytes of the next piece. A piece without bytes does not count. They are what a header at the end
of noise could go on with. -/
def following : List Piece → Bytes
  | [] => []
  | piece :: rest => if piece.bytes = [] then following rest else piece.bytes

/-- The frame that is handed on for a piece. -/
def frame? (layout : Layout) : Piece → Option Bytes
  | .frame bytes => some (bytes.drop layout.strip.toNat)
  | .oversized _ | .noise _ => none

/-- What is answered to a piece. -/
def outcome? (layout : Layout) : Piece → Option Outcome
  | .frame bytes => some (.frame (bytes.drop layout.strip.toNat))
  | .oversized bytes => some (.error (.tooLong bytes.length layout.max false))
  | .noise _ => none

/-- The piece is what it is said to be, where it stands in front of `following`. -/
def Fits (layout : Layout) (following : Bytes) : Piece → Prop
  | .frame bytes =>
    layout.Framed bytes ∧ bytes.length ≤ layout.max ∧ layout.strip.toNat ≤ bytes.length
  | .oversized bytes => layout.Framed bytes ∧ layout.max < bytes.length
  | .noise bytes => layout.header ≠ .none ∧ layout.header.Misses bytes following

/-- The stream goes on with the next piece, and where there is none it ends. -/
theorem exists_flatMap_eq (pieces : List Piece) :
    ∃ more, pieces.flatMap bytes = following pieces ++ more ∧ (following pieces = [] → more = []) := by
  induction pieces with
  | nil => exact ⟨[], rfl, fun _ => rfl⟩
  | cons piece rest ih =>
    rw [List.flatMap_cons, following]
    split
    · rename_i hempty
      rw [hempty, List.nil_append]
      exact ih
    · rename_i hbytes
      exact ⟨_, rfl, fun hempty => absurd hempty hbytes⟩

end Piece

/-- The pieces can stand one behind the other in a stream. -/
def Layout.Carries (layout : Layout) : List Piece → Prop
  | [] => True
  | piece :: rest => piece.Fits layout (Piece.following rest) ∧ layout.Carries rest

namespace Layout

variable {layout : Layout}

/-- Noise misses the header in front of the whole rest of the stream. -/
theorem Carries.misses {noise : Bytes} {rest : List Piece}
    (h : layout.Carries (.noise noise :: rest)) :
    layout.header.Misses noise (rest.flatMap Piece.bytes) := by
  obtain ⟨⟨-, hmisses⟩, -⟩ := h
  obtain ⟨more, hstream, hmore⟩ := Piece.exists_flatMap_eq rest
  rw [hstream]
  exact hmisses.append hmore

/-- A stream that is too short for a header has noise for its pieces. -/
theorem Carries.eq_noise_of_lt {pieces : List Piece} (h : layout.Carries pieces)
    (hshort : (pieces.flatMap Piece.bytes).length < layout.header.width) :
    ∀ piece ∈ pieces, ∃ noise, piece = .noise noise := by
  induction pieces with
  | nil => exact nofun
  | cons piece rest ih =>
    obtain ⟨hfits, hrest⟩ := h
    rw [List.flatMap_cons, List.length_append] at hshort
    rw [List.forall_mem_cons]
    refine ⟨?_, ih hrest (by omega)⟩
    cases piece with
    | frame bytes | oversized bytes =>
      have hwidth := Header.width_le_of_isAt hfits.1.header
      simp only [Piece.bytes] at hshort
      omega
    | noise bytes => exact ⟨bytes, rfl⟩

/-- Where no header begins, all that is left is at most the start of one. -/
theorem exhaust_of_misses (hcheck : layout.check = .ok ()) {buffer : Bytes}
    (h : ∀ i, layout.header.isAt (buffer.drop i) = false) :
    layout.exhaust .framing buffer = { buffer := layout.header.seek buffer } := by
  have hnext : layout.next .framing buffer = ⟨.needMore, .framing, layout.header.seek buffer⟩ := by
    simp only [next, scan, Header.isAt_seek_eq_false h, if_neg Bool.false_ne_true]
  have hsound : State.Sound .framing := trivial
  rw [exhaust_of_needMore hcheck hsound (by rw [hnext]), hnext]

/-- Noise that a header can follow is passed over. -/
theorem exhaust_append_of_misses (hcheck : layout.check = .ok ()) {noise rest : Bytes}
    (h : layout.header.Misses noise rest) (hroom : layout.header.width ≤ rest.length) :
    layout.exhaust .framing (noise ++ rest) = layout.exhaust .framing rest := by
  refine exhaust_congr hcheck trivial trivial ?_
  simp only [next, scan, h.seek_append hroom]

/-- An answer that takes a piece off the front of the stream is the first of its answers. -/
theorem exhaust_append_of_next (hcheck : layout.check = .ok ()) {bytes rest : Bytes} {outcome : Outcome}
    (hmore : outcome ≠ .needMore)
    (hnext : layout.next .framing (bytes ++ rest) = ⟨outcome, .framing, rest⟩) :
    layout.exhaust .framing (bytes ++ rest) = (layout.exhaust .framing rest).after [outcome] := by
  have hsound : State.Sound .framing := trivial
  rw [exhaust_of_ne_needMore hcheck hsound (by rw [hnext]; exact hmore), hnext]

end Layout

/-! ## The whole stream

The induction is over the pieces. Each is answered by itself whatever comes behind it, and leaves the
decoder where a stream begins; noise is passed over together with the piece behind it, or stays for the
end. -/

/-- The trace answers the pieces one by one and leaves nothing of them. Only noise at the end of the
stream may leave something behind, since it may be the start of a header. -/
structure Trace.Delivers (layout : Layout) (pieces : List Piece) (trace : Trace) : Prop where
  outcomes : trace.outcomes = pieces.filterMap (Piece.outcome? layout)
  state : trace.state = .framing
  buffer : (∀ noise, pieces.getLast? ≠ some (.noise noise)) → trace.buffer = []

/-- A piece in front does not make another one the last. -/
theorem Piece.getLast?_ne_of_cons {piece last : Piece} {rest : List Piece}
    (h : (piece :: rest).getLast? ≠ some last) : rest.getLast? ≠ some last := by
  intro hlast
  rw [List.getLast?_cons, hlast] at h
  exact h rfl

/-- A piece that is taken off the front is answered first. -/
theorem Trace.Delivers.cons {layout : Layout} {piece : Piece} {rest : List Piece} {trace : Trace}
    (h : trace.Delivers layout rest) {outcome : Outcome} (houtcome : piece.outcome? layout = some outcome) :
    (trace.after [outcome]).Delivers layout (piece :: rest) where
  outcomes := by rw [List.filterMap_cons_some houtcome, ← h.outcomes]; rfl
  state := h.state
  buffer hlast := h.buffer fun noise => Piece.getLast?_ne_of_cons (hlast noise)

namespace Layout

variable {layout : Layout}

/-- Noise in front of pieces that are answered. -/
theorem exhaust_delivers_noise (hcheck : layout.check = .ok ()) {noise : Bytes} {rest : List Piece}
    (hpieces : layout.Carries (.noise noise :: rest))
    (hrest : (layout.exhaust .framing (rest.flatMap Piece.bytes)).Delivers layout rest) :
    (layout.exhaust .framing (noise ++ rest.flatMap Piece.bytes)).Delivers layout
      (.noise noise :: rest) := by
  by_cases hroom : layout.header.width ≤ (rest.flatMap Piece.bytes).length
  · rw [exhaust_append_of_misses hcheck hpieces.misses hroom]
    exact ⟨hrest.outcomes, hrest.state, fun hlast =>
      hrest.buffer fun other => Piece.getLast?_ne_of_cons (hlast other)⟩
  -- too few bytes are left for a frame, so noise is all that follows
  · have hshort := Nat.lt_of_not_le hroom
    have hnoise : ∀ piece ∈ Piece.noise noise :: rest, ∃ other, piece = .noise other :=
      List.forall_mem_cons.2 ⟨⟨noise, rfl⟩, hpieces.2.eq_noise_of_lt hshort⟩
    rw [exhaust_of_misses hcheck (hpieces.misses.isAt_drop hshort)]
    refine ⟨?outcomes, rfl, ?buffer⟩
    case outcomes =>
      rw [eq_comm, List.filterMap_eq_nil_iff]
      intro piece hpiece
      obtain ⟨other, rfl⟩ := hnoise piece hpiece
      rfl
    case buffer =>
      intro hlast
      have hmem : rest.getLast?.getD (.noise noise) ∈ Piece.noise noise :: rest :=
        List.mem_of_getLast? List.getLast?_cons
      obtain ⟨other, hother⟩ := hnoise _ hmem
      exact absurd (List.getLast?_cons.trans (congrArg some hother)) (hlast other)

/-- **Piece by piece** the decoder answers a stream that is all there. -/
theorem exhaust_delivers (hcheck : layout.check = .ok ()) {pieces : List Piece}
    (hpieces : layout.Carries pieces) (hlimit : (pieces.flatMap Piece.bytes).length ≤ countLimit) :
    (layout.exhaust .framing (pieces.flatMap Piece.bytes)).Delivers layout pieces := by
  induction pieces with
  | nil =>
    have hidle := idle_fresh hcheck
    have hquiet := exhaust_of_needMore hcheck hidle.sound (by rw [hidle.waits])
    rw [hidle.waits] at hquiet
    rw [List.flatMap_nil, hquiet]
    exact ⟨rfl, rfl, fun _ => rfl⟩
  | cons piece rest ih =>
    rw [List.flatMap_cons] at hlimit ⊢
    rw [List.length_append] at hlimit
    have ih := ih hpieces.2 (by omega)
    cases piece with
    | frame bytes =>
      obtain ⟨hframed, hmax, hstrip⟩ := hpieces.1
      have hnext := next_append_of_framed hframed hmax hstrip (rest.flatMap Piece.bytes)
      rw [Piece.bytes, exhaust_append_of_next hcheck (by simp) hnext]
      exact ih.cons rfl
    | oversized bytes =>
      obtain ⟨hframed, hmax⟩ := hpieces.1
      have hlength : bytes.length ≤ countLimit := Nat.le_trans (Nat.le_add_right _ _) hlimit
      have hnext := next_append_of_oversized hframed hmax hlength (rest.flatMap Piece.bytes)
      rw [Piece.bytes, exhaust_append_of_next hcheck (by simp) hnext]
      exact ih.cons rfl
    | noise noise => exact exhaust_delivers_noise hcheck hpieces ih

/-- What is answered to the pieces without the reports is the frames. -/
theorem filter_outcome? (layout : Layout) (pieces : List Piece) :
    (pieces.filterMap (Piece.outcome? layout)).filter (fun outcome => !outcome.isTooLong) =
      (pieces.filterMap (Piece.frame? layout)).map Outcome.frame := by
  rw [List.filter_filterMap, List.map_filterMap]
  congr
  funext piece
  cases piece <;> rfl

/-- **No frame is lost, repeated or moved.** Take a stream of frames that the layout allows, frames that
are too long for it, and noise in which no header begins. A fresh decoder that passes over oversized
frames answers the frames of the stream, each without the bytes to be stripped, and then asks for more
bytes. A decoder that does not pass over them answers the same frames, and a report with the length of the
frame in the place of each that is too long. Both end outside any oversized frame, and with nothing in the
buffer unless the stream ends in noise. -/
theorem exhaust_stream (hcheck : layout.check = .ok ()) {pieces : List Piece}
    (hpieces : layout.Carries pieces) (hlength : (pieces.flatMap Piece.bytes).length < 2 ^ 63) :
    let kept := layout.exhaustKept .framing (pieces.flatMap Piece.bytes)
    let all := layout.exhaust .framing (pieces.flatMap Piece.bytes)
    kept.outcomes = (pieces.filterMap (Piece.frame? layout)).map Outcome.frame ∧
      all.outcomes = pieces.filterMap (Piece.outcome? layout) ∧
      (kept.state = .framing ∧ all.state = .framing) ∧
      ((∀ noise, pieces.getLast? ≠ some (.noise noise)) → kept.buffer = [] ∧ all.buffer = []) ∧
      kept.Idle layout ∧ all.Idle layout := by
  have hlimit : (pieces.flatMap Piece.bytes).length ≤ countLimit :=
    Nat.le_trans (Nat.le_of_lt hlength) (by decide)
  have hsound : State.Sound .framing := trivial
  have hdelivers := exhaust_delivers hcheck hpieces hlimit
  have hidle := idle_exhaust hcheck hsound (pieces.flatMap Piece.bytes)
  simp only [exhaustKept_eq hcheck hsound]
  refine ⟨?_, hdelivers.outcomes, ⟨hdelivers.state, hdelivers.state⟩,
    fun hlast => ⟨hdelivers.buffer hlast, hdelivers.buffer hlast⟩, ⟨hidle.sound, hidle.waits⟩, hidle⟩
  rw [Trace.kept, hdelivers.outcomes, filter_outcome?]

/-- Noise that ends like a header begins, a frame, an oversized frame, such noise again, and a frame of
which nothing is left when its first bytes are stripped. -/
theorem exhaust_stream_of_five_pieces :
    let layout : Layout :=
      { header := .two 0xAA55, offset := 2, width := 1, adjustment := -1, maxLength := 6, strip := 3 }
    let pieces : List Piece :=
      [.noise [0x13, 0xAA], .frame [0xAA, 0x55, 2, 7], .oversized [0xAA, 0x55, 6, 1, 2, 3, 4, 5],
        .noise [0xAA], .frame [0xAA, 0x55, 1]]
    let stream := pieces.flatMap Piece.bytes
    (layout.check = .ok () ∧ layout.Carries pieces ∧ stream.length < 2 ^ 63) ∧
      (layout.exhaustKept .framing stream).outcomes = [.frame [7], .frame []] ∧
      (layout.exhaust .framing stream).outcomes =
        [.frame [7], .error (.tooLong 8 6 false), .frame []] ∧
      (layout.exhaustKept .framing stream).buffer = [] := by
  intro layout pieces stream
  have hcheck : layout.check = .ok () := rfl
  have hpieces : layout.Carries pieces :=
    ⟨⟨nofun, by decide⟩, ⟨⟨rfl, by decide, 2, by decide, rfl, rfl⟩, by decide, by decide⟩,
      ⟨⟨rfl, by decide, 6, by decide, rfl, rfl⟩, by decide⟩, ⟨nofun, by decide⟩,
      ⟨⟨rfl, by decide, 1, by decide, rfl, rfl⟩, by decide, by decide⟩, trivial⟩
  have hlength : stream.length < 2 ^ 63 := by decide
  obtain ⟨hkept, hall, -, hbuffer, -⟩ := exhaust_stream hcheck hpieces hlength
  exact ⟨⟨hcheck, hpieces, hlength⟩, hkept, hall, (hbuffer nofun).1⟩

end Layout

end Telegram.Frame
