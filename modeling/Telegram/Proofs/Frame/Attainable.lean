import Mathlib.Algebra.Order.Floor.Div
import Telegram.Proofs.ByteOrder
import Telegram.Proofs.Frame.Exhaust

/-!
# Which layouts can frame at all

`Layout.check` refuses a layout whose length field has no place in the longest frame. No frame is lost by
that, but not every layout that it lets pass can frame: bytes may have to be stripped that no frame has,
the adjustment may take every number of the field beyond the longest frame, and a header that reaches into
the length field leaves few numbers to choose from. This module finds out exactly which layouts have a
buffer with a frame in it.

* `Layout.pinned` are the bytes of the length field that the header fixes. The other bytes are free, and
  with them the field's number runs through an arithmetic progression, `Layout.number`, with
  `256 ^ freeWidth` members (`Layout.field_of_isAt`, `Layout.exists_field_eq`).
* `Layout.Admits` says of a number that a frame with it is handed on (`Layout.judge_frame_iff`).
* A frame of any run is the answer of one call that starts outside any other frame
  (`Layout.exists_next_of_mem_exhaust`), so a layout can frame when it admits a number of its progression.
* `Layout.leastChoice` is the first one that makes a frame long enough. The longest frame and the sign of
  the number bound them from above, so it is enough to look at this one (`Layout.exists_frame_iff`).
-/

namespace Telegram.Frame

/-! ## Numbers of a length field

A length field has a sign only at its full width. For narrower ones the highest bit is an ordinary one, so
their numbers are never negative. -/

theorem signed64_eq {n : Nat} (hn : n < 2 ^ 64) :
    signed64 n = if n < 2 ^ 63 then (n : Int) else n - 2 ^ 64 := by
  rw [signed64, BitVec.toInt_eq_toNat_cond, BitVec.toNat_ofNat, Nat.mod_eq_of_lt hn]
  split <;> split <;> omega

/-- The number is not negative as long as the highest of the 64 bits is not set. -/
theorem signed64_nonneg_iff {n : Nat} (hn : n < 2 ^ 64) : 0 ≤ signed64 n ↔ n < 2 ^ 63 := by
  rw [signed64_eq hn]
  split <;> omega

theorem signed64_of_lt {n : Nat} (hn : n < 2 ^ 63) : signed64 n = n := by
  rw [signed64_eq (Nat.lt_trans hn (by decide)), if_pos hn]

/-- The numbers of a length field have at most 64 bits. -/
theorem pow_le_of_isFieldWidth {width : Nat} (hwidth : isFieldWidth width = true) :
    256 ^ width ≤ 2 ^ 64 := by
  have hle : width ≤ 8 := by
    simp only [isFieldWidth, Bool.or_eq_true, beq_iff_eq] at hwidth
    omega
  exact Nat.pow_le_pow_right (by decide) hle

namespace Layout

/-! ## The free part of a length field

The header may reach into the length field, and then its last bytes are the field's first. What is left to
choose are the bytes behind it. In one byte order these count in ones and in the other in steps of a power
of 256, and in both cases the numbers are evenly spaced. -/

/-- The bytes of the length field that lie inside the header, and are the same in every frame. -/
def pinned (layout : Layout) : Bytes :=
  (layout.header.bytes.drop layout.offset.toNat).take layout.width.toNat

/-- How many bytes of the length field lie behind the header. -/
def freeWidth (layout : Layout) : Nat :=
  layout.width.toNat - layout.pinned.length

/-- The number of a length field whose free bytes are all zero. -/
def base (layout : Layout) : Nat :=
  match layout.order with
  | .big => layout.order.decode layout.pinned * 256 ^ layout.freeWidth
  | .little => layout.order.decode layout.pinned

/-- How far two numbers of the length field lie apart when their free bytes spell neighbours. -/
def stride (layout : Layout) : Nat :=
  match layout.order with
  | .big => 1
  | .little => 256 ^ layout.pinned.length

/-- The number of a length field whose free bytes spell `choice`. -/
def number (layout : Layout) (choice : Nat) : Nat :=
  layout.base + layout.stride * choice

theorem stride_pos (layout : Layout) : 0 < layout.stride := by
  rw [stride]
  split
  · exact Nat.one_pos
  · exact Nat.pow_pos (by decide)

theorem length_pinned_le (layout : Layout) : layout.pinned.length ≤ layout.width.toNat :=
  List.length_take_le _ _

/-- **The number of a length field** is the member of the progression that its free bytes spell. -/
theorem decode_pinned_append (layout : Layout) {free : Bytes} (hfree : free.length = layout.freeWidth) :
    layout.order.decode (layout.pinned ++ free) = layout.number (layout.order.decode free) := by
  rw [ByteOrder.decode_append, number, base, stride]
  cases layout.order with
  | big => simp only [hfree, Nat.one_mul]
  | little => rfl

theorem length_pinned_append (layout : Layout) {free : Bytes} (hfree : free.length = layout.freeWidth) :
    (layout.pinned ++ free).length = layout.width.toNat := by
  have hle := layout.length_pinned_le
  rw [List.length_append, hfree, freeWidth]
  omega

/-- Every member of the progression fits into the length field. -/
theorem number_lt (layout : Layout) {choice : Nat} (hchoice : choice < 256 ^ layout.freeWidth) :
    layout.number choice < 256 ^ layout.width.toNat := by
  have hfree := layout.order.length_encode layout.freeWidth choice
  have hnumber := layout.decode_pinned_append hfree
  rw [ByteOrder.decode_encode, Nat.mod_eq_of_lt hchoice] at hnumber
  rw [← hnumber, ← layout.length_pinned_append hfree]
  exact layout.order.decode_lt _

/-- The bytes of the length field behind `front`, where `front` stands at the front of the buffer. -/
theorem field_append (layout : Layout) (front rest : Bytes) :
    layout.field (front ++ rest) =
      (front.drop layout.offset.toNat).take layout.width.toNat ++
        (rest.drop (layout.offset.toNat - front.length)).take
          (layout.width.toNat - (front.drop layout.offset.toNat).length) := by
  rw [field, fieldEnd, ← List.take_drop, List.drop_append, List.take_append]

/-- What the header leaves free of the length field. -/
theorem freeWidth_eq (layout : Layout) :
    layout.freeWidth =
      layout.width.toNat - (layout.header.bytes.drop layout.offset.toNat).length := by
  rw [freeWidth, pinned, List.length_take]
  omega

/-- **Behind a header** the length field has its pinned bytes and as many others as are free. -/
theorem field_of_isAt {layout : Layout} {buffer : Bytes} (hat : layout.header.isAt buffer = true)
    (hlong : layout.fieldEnd ≤ buffer.length) :
    ∃ free : Bytes, free.length = layout.freeWidth ∧ layout.field buffer = layout.pinned ++ free := by
  obtain ⟨rest, rfl⟩ := List.isPrefixOf_iff_prefix.1 hat
  have hlength := length_field hlong
  have hfield := layout.field_append layout.header.bytes rest
  rw [← freeWidth_eq, ← pinned] at hfield
  refine ⟨_, ?_, hfield⟩
  rw [hfield, List.length_append] at hlength
  rw [freeWidth] at hlength ⊢
  omega

/-- **Every choice of the free bytes occurs**, in a buffer as long as is wanted. -/
theorem exists_field_eq (layout : Layout) {free : Bytes} (hfree : free.length = layout.freeWidth)
    (size : Nat) :
    ∃ buffer : Bytes, layout.header.isAt buffer = true ∧ size ≤ buffer.length ∧
      layout.field buffer = layout.pinned ++ free := by
  -- the bytes between the header and the field do not matter, nor those behind the field
  have hgap : ((List.replicate (layout.offset.toNat - layout.header.bytes.length) 0 ++
      (free ++ List.replicate size 0)).drop (layout.offset.toNat - layout.header.bytes.length) : Bytes) =
        free ++ List.replicate size 0 :=
    List.drop_left' List.length_replicate
  refine ⟨layout.header.bytes ++ (List.replicate (layout.offset.toNat - layout.header.bytes.length) 0 ++
    (free ++ List.replicate size 0)), ?_, ?_, ?_⟩
  · exact List.isPrefixOf_iff_prefix.2 (List.prefix_append _ _)
  · simp only [List.length_append, List.length_replicate]
    omega
  · rw [field_append, ← freeWidth_eq, hgap, ← hfree, List.take_left, ← pinned]

/-- **A frame is judged by the number that the free bytes choose.** -/
theorem cut_eq_judge {layout : Layout} (hwidth : isFieldWidth layout.width.toNat = true)
    {buffer free : Bytes} (hlong : layout.fieldEnd ≤ buffer.length)
    (hfree : free.length = layout.freeWidth) (hfield : layout.field buffer = layout.pinned ++ free) :
    layout.cut buffer = layout.judge (signed64 (layout.number (layout.order.decode free))) buffer := by
  have hread := readLength_of_length hwidth layout.order (layout.length_pinned_append hfree)
  rw [decode_pinned_append layout hfree] at hread
  rw [cut_of_le hlong, hfield, hread]

/-! ## Numbers that are admitted

A frame is handed on if its length reaches the end of the length field, has room for the bytes to be
stripped, and is not above the limit. These are conditions on one number, and they allow an interval. -/

/-- The shortest frame that is handed on: it reaches the end of its length field and has all the bytes
that are to be stripped. -/
def shortest (layout : Layout) : Nat :=
  layout.fieldEnd ⊔ layout.strip.toNat

/-- A frame with this number in its length field is handed on. -/
structure Admits (layout : Layout) (number : Nat) : Prop where
  /-- The number is not read as a negative one. -/
  nonneg : number < 2 ^ 63
  shortest_le : (layout.shortest : Int) ≤ number + layout.adjustment.toInt + layout.fieldEnd
  le_max : number + layout.adjustment.toInt + layout.fieldEnd ≤ layout.max

theorem fieldEnd_le_shortest (layout : Layout) : layout.fieldEnd ≤ layout.shortest :=
  Nat.le_max_left _ _

theorem strip_le_shortest (layout : Layout) : layout.strip.toNat ≤ layout.shortest :=
  Nat.le_max_right _ _

/-- What is skipped is never handed on. -/
theorem skip_ne_frame (layout : Layout) (length : Nat) (buffer frame : Bytes) :
    (layout.skip length buffer).outcome ≠ .frame frame := by
  rw [skip_eq]
  split
  · split <;> simp
  · simp

theorem take_frame_iff (layout : Layout) (length : Nat) (buffer : Bytes) :
    (∃ frame, (layout.take length buffer).outcome = .frame frame) ↔
      layout.strip.toNat ≤ length ∧ length ≤ buffer.length := by
  rw [take_eq]
  split
  · exact iff_of_false (by simp) (by omega)
  split
  · exact iff_of_false (by simp) (by omega)
  · exact iff_of_true ⟨_, rfl⟩ (by omega)

/-- **A judgement is a frame** when the number is admitted and the frame is buffered. -/
theorem judge_frame_iff (layout : Layout) {number : Nat} (hnumber : number < 2 ^ 64) (buffer : Bytes) :
    (∃ frame, (layout.judge (signed64 number) buffer).outcome = .frame frame) ↔
      layout.Admits number ∧ number + layout.adjustment.toInt + layout.fieldEnd ≤ buffer.length := by
  have hsign := signed64_nonneg_iff hnumber
  have hend := layout.fieldEnd_le_shortest
  simp only [judge]
  split
  · rename_i hnegative
    exact iff_of_false (by simp) fun h => Int.not_le.2 hnegative (hsign.2 h.1.nonneg)
  rename_i hnonneg
  have hlt := hsign.1 (Int.not_lt.1 hnonneg)
  rw [signed64_of_lt hlt]
  split
  · exact iff_of_false (by simp) fun h => by have hshortest := h.1.shortest_le; omega
  split
  · exact iff_of_false (fun h => layout.skip_ne_frame _ _ _ h.choose_spec) fun h => by
      have hmax := h.1.le_max
      omega
  rw [take_frame_iff]
  constructor
  · rintro ⟨hstrip, hlong⟩
    exact ⟨⟨hlt, by rw [shortest]; omega, by omega⟩, by omega⟩
  · rintro ⟨hadmits, hlong⟩
    have hstrip := layout.strip_le_shortest
    have hshortest := hadmits.shortest_le
    exact ⟨by omega, by omega⟩

/-! ## Runs with a frame in them

A decoder meets a frame outside any other one, and by a single call. So the question about all streams
comes down to one about single frames. -/

/-- **A frame is the answer of one call** that starts outside any other frame. -/
theorem exists_next_of_mem_exhaust {layout : Layout} {state : State} {buffer frame : Bytes}
    (hmem : .frame frame ∈ (layout.exhaust state buffer).outcomes) :
    ∃ rest, (layout.next .framing rest).outcome = .frame frame := by
  rw [exhaust] at hmem
  generalize buffer.length + 1 = fuel at hmem
  induction fuel generalizing state buffer with
  | zero => cases hmem
  | succ fuel ih =>
    simp only [exhaustIn] at hmem
    split at hmem
    · cases hmem
    rename_i outcome _
    rcases List.mem_cons.1 hmem with hfirst | hlater
    · cases state with
      | framing => exact ⟨buffer, hfirst.symm⟩
      | skipping length left =>
        -- only a decoder that reports at once goes on to the next frame in the same call
        rw [next_skipping] at hfirst
        split at hfirst
        · cases hfirst
        split at hfirst
        · exact ⟨buffer.drop left, hfirst.symm⟩
        · cases hfirst
    · exact ih hlater

/-- A frame of a call is among the answers of a run that starts with this call. -/
theorem mem_exhaust_of_next {layout : Layout} {state : State} {buffer frame : Bytes}
    (hnext : (layout.next state buffer).outcome = .frame frame) :
    .frame frame ∈ (layout.exhaust state buffer).outcomes := by
  simp only [exhaust, exhaustIn, hnext]
  exact List.mem_cons_self

/-- **A layout with a frame in some run** is accepted, and admits a number of its length field. -/
theorem exists_admits_of_mem_exhaust {layout : Layout} {buffer frame : Bytes}
    (hmem : .frame frame ∈ (layout.exhaust .framing buffer).outcomes) :
    layout.check = .ok () ∧
      ∃ choice < 256 ^ layout.freeWidth, layout.Admits (layout.number choice) := by
  obtain ⟨rest, hnext⟩ := exists_next_of_mem_exhaust hmem
  simp only [next, scan] at hnext
  split at hnext
  case isFalse => cases hnext
  rename_i hat
  generalize layout.header.seek rest = found at hat hnext
  have hlong : layout.fieldEnd ≤ found.length := by
    by_contra hshort
    rw [cut_of_lt (Nat.lt_of_not_le hshort)] at hnext
    cases hnext
  have hwidth : isFieldWidth layout.width.toNat = true := by
    by_contra hwidth
    rw [cut_of_le hlong, readLength, if_pos (by simp [hwidth])] at hnext
    cases hnext
  obtain ⟨free, hfree, hfield⟩ := field_of_isAt hat hlong
  have hchoice : layout.order.decode free < 256 ^ layout.freeWidth := hfree ▸ layout.order.decode_lt free
  have hnumber : layout.number (layout.order.decode free) < 2 ^ 64 :=
    Nat.lt_of_lt_of_le (layout.number_lt hchoice) (pow_le_of_isFieldWidth hwidth)
  rw [cut_eq_judge hwidth hlong hfree hfield] at hnext
  obtain ⟨hadmits, -⟩ := (layout.judge_frame_iff hnumber found).1 ⟨frame, hnext⟩
  have hmax : layout.fieldEnd ≤ layout.max := by
    have hend := layout.fieldEnd_le_shortest
    have hlong := Int.le_trans hadmits.shortest_le hadmits.le_max
    omega
  exact ⟨check_eq_ok_iff.2 ⟨hwidth, hmax⟩, _, hchoice, hadmits⟩

/-- **A layout that admits a number of its length field** has a buffer with a frame in it. -/
theorem exists_mem_exhaust_of_admits {layout : Layout} (hcheck : layout.check = .ok ()) {choice : Nat}
    (hchoice : choice < 256 ^ layout.freeWidth) (hadmits : layout.Admits (layout.number choice)) :
    ∃ buffer frame, .frame frame ∈ (layout.exhaust .framing buffer).outcomes := by
  obtain ⟨hwidth, hmax⟩ := check_eq_ok_iff.1 hcheck
  have hfree := layout.order.length_encode layout.freeWidth choice
  -- a buffer of the longest frame's length has room for the frame that the number describes
  obtain ⟨buffer, hat, hlong, hfield⟩ := layout.exists_field_eq hfree layout.max
  have hcut := cut_eq_judge hwidth (Nat.le_trans hmax hlong) hfree hfield
  rw [ByteOrder.decode_encode, Nat.mod_eq_of_lt hchoice] at hcut
  have hnumber : layout.number choice < 2 ^ 64 := Nat.lt_trans hadmits.nonneg (by decide)
  obtain ⟨frame, hframe⟩ := (layout.judge_frame_iff hnumber buffer).2
    ⟨hadmits, Int.le_trans hadmits.le_max (Int.ofNat_le.2 hlong)⟩
  refine ⟨buffer, frame, mem_exhaust_of_next ?_⟩
  rw [next, scan, Header.seek_of_isAt hat, if_pos hat, hcut]
  exact hframe

/-! ## The first number that is large enough

An arithmetic progression meets an interval or steps over it. The first member that is not below the
interval decides. -/

/-- What the free bytes have to spell at least for the frame to be long enough. -/
def leastChoice (layout : Layout) : Nat :=
  (layout.shortest - layout.fieldEnd - layout.adjustment.toInt - layout.base).toNat ⌈/⌉ layout.stride

/-- The choices from the first one on are those that make a frame long enough. -/
theorem leastChoice_le_iff (layout : Layout) (choice : Nat) :
    layout.leastChoice ≤ choice ↔
      (layout.shortest : Int) ≤ layout.number choice + layout.adjustment.toInt + layout.fieldEnd := by
  rw [leastChoice, ceilDiv_le_iff_le_mul layout.stride_pos, number]
  omega

theorem number_le_number (layout : Layout) {choice choice' : Nat} (hle : choice ≤ choice') :
    layout.number choice ≤ layout.number choice' :=
  Nat.add_le_add_left (Nat.mul_le_mul_left _ hle) _

/-- **Which layouts can frame**: there is a buffer with a frame in it exactly when the layout is accepted
and the first number that makes a frame long enough is a number of the length field, is not a negative one
and makes no frame that is too long. -/
theorem exists_frame_iff (layout : Layout) :
    (∃ buffer frame, .frame frame ∈ (layout.exhaust .framing buffer).outcomes) ↔
      layout.check = .ok () ∧ layout.leastChoice < 256 ^ layout.freeWidth ∧
        layout.number layout.leastChoice < 2 ^ 63 ∧
          layout.number layout.leastChoice + layout.adjustment.toInt + layout.fieldEnd ≤ layout.max := by
  constructor
  · rintro ⟨buffer, frame, hmem⟩
    obtain ⟨hcheck, choice, hchoice, hnonneg, hshortest, hmax⟩ := exists_admits_of_mem_exhaust hmem
    have hleast := (layout.leastChoice_le_iff choice).2 hshortest
    have hnumber := layout.number_le_number hleast
    exact ⟨hcheck, by omega, by omega, by omega⟩
  · rintro ⟨hcheck, hchoice, hnonneg, hmax⟩
    have hshortest := (layout.leastChoice_le_iff _).1 (Nat.le_refl _)
    exact exists_mem_exhaust_of_admits hcheck hchoice ⟨hnonneg, hshortest, hmax⟩

/-- More bytes to strip than the longest frame has are accepted, and then no frame ever comes. -/
theorem check_ok_without_frames :
    let layout : Layout := { maxLength := 4, strip := 5 }
    layout.check = .ok () ∧
      ¬ ∃ buffer frame, .frame frame ∈ (layout.exhaust .framing buffer).outcomes := by
  refine ⟨by decide, ?_⟩
  rintro ⟨buffer, frame, hmem⟩
  obtain ⟨-, choice, -, hadmits⟩ := exists_admits_of_mem_exhaust hmem
  have hlong := Int.le_trans hadmits.shortest_le hadmits.le_max
  exact absurd hlong (by decide)

end Layout

end Telegram.Frame
