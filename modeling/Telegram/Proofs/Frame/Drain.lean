import Mathlib.Data.List.DropRight
import Telegram.Proofs.Frame.Chunks
import Telegram.Proofs.Frame.Discard

/-!
# Asking for all buffered frames

`Layout.drain` collects the buffered frames and stops at the first error, with which it loses the frames
it has collected. Asked over and over, until it has no frame to give, it answers every error in turn and
then the frames behind the last one.

* `Layout.Drains` is what one call does to the answers of `Layout.exhaust`: it takes all of them if they
  are frames, and otherwise takes them up to the first error and answers that.
* `Layout.drains` are the answers of the calls, and `delivered` are the frames in them.
* `Layout.delivered_drains` says which frames these are, and when they are all there are: only if errors
  come before frames. `Layout.drains_loses_frame` is a stream where they do not.
-/

namespace Telegram.Frame

/-- The answer is a frame. -/
def Outcome.isFrame : Outcome → Bool
  | .frame _ => true
  | _ => false

def Outcome.frame? : Outcome → Option Bytes
  | .frame bytes => some bytes
  | _ => none

def Outcome.error? : Outcome → Option Error
  | .error e => some e
  | _ => none

/-- The frames behind the last answer that is none. An error ends a call and takes the frames in front of
it along, so these are the ones that are still there when the calls come to their end. -/
def lastFrames (outcomes : List Outcome) : List Bytes :=
  (outcomes.rtakeWhile Outcome.isFrame).filterMap Outcome.frame?

/-- All frames that were answered. An answer that is an error brings none. -/
def delivered (answers : List (Except Error (List Bytes))) : List Bytes :=
  answers.flatMap fun answer => answer.toOption.getD []

namespace Layout

/-- What asking for all buffered frames answers, over and over until there are none, in at most `fuel`
calls. -/
def drainsIn (layout : Layout) : Nat → State → Bytes → List (Except Error (List Bytes))
  | 0, _, _ => []
  | fuel + 1, state, buffer =>
    let (answer, state, buffer) := layout.drain state buffer
    match answer with
    | .ok [] => [.ok []]
    | answer => answer :: layout.drainsIn fuel state buffer

/-- What asking for all buffered frames answers, over and over until there are none. -/
def drains (layout : Layout) (state : State) (buffer : Bytes) : List (Except Error (List Bytes)) :=
  layout.drainsIn (buffer.length + 1) state buffer

end Layout

/-! ## Frames among answers

These are facts about lists of answers. A stretch of frames that is followed by an error is not among the
last frames, and what is not among the last frames is lost. -/

section Frames

theorem filterMap_frame?_map (frames : List Bytes) :
    (frames.map Outcome.frame).filterMap Outcome.frame? = frames := by
  rw [List.filterMap_map]
  exact List.filterMap_some

theorem filterMap_error?_map (frames : List Bytes) :
    (frames.map Outcome.frame).filterMap Outcome.error? = [] := by
  rw [List.filterMap_map, List.filterMap_eq_nil_iff]
  exact fun _ _ => rfl

theorem lastFrames_map (frames : List Bytes) : lastFrames (frames.map Outcome.frame) = frames := by
  have hall : (frames.map Outcome.frame).rtakeWhile Outcome.isFrame = frames.map Outcome.frame := by
    rw [List.rtakeWhile_eq_self_iff]
    intro outcome houtcome
    obtain ⟨bytes, -, rfl⟩ := List.mem_map.1 houtcome
    rfl
  rw [lastFrames, hall, filterMap_frame?_map]

/-- Nothing in front of an error is among the last frames. -/
theorem lastFrames_append_error (before : List Outcome) (e : Error) (outcomes : List Outcome) :
    lastFrames (before ++ .error e :: outcomes) = lastFrames outcomes := by
  have hstop : (before ++ .error e :: outcomes).rtakeWhile Outcome.isFrame =
      outcomes.rtakeWhile Outcome.isFrame := by
    rw [List.rtakeWhile, List.rtakeWhile, List.reverse_append, List.reverse_cons, List.append_assoc,
      List.takeWhile_append]
    split
    · rename_i hall
      have hself := List.IsPrefix.eq_of_length (List.takeWhile_prefix _) hall
      rw [hself]
      simp [Outcome.isFrame]
    · rfl
  rw [lastFrames, hstop, lastFrames]

theorem filterMap_frame?_eq_nil_iff (outcomes : List Outcome) :
    outcomes.filterMap Outcome.frame? = [] ↔ ∀ outcome ∈ outcomes, outcome.isFrame = false := by
  rw [List.filterMap_eq_nil_iff]
  refine forall₂_congr fun outcome _ => ?_
  cases outcome <;> simp [Outcome.frame?, Outcome.isFrame]

/-- **When the last frames are all frames**: behind a frame there is nothing but frames. -/
theorem lastFrames_eq_iff (outcomes : List Outcome) :
    lastFrames outcomes = outcomes.filterMap Outcome.frame? ↔
      outcomes.Pairwise fun first second => first.isFrame = true → second.isFrame = true := by
  have hsplit : outcomes.rdropWhile Outcome.isFrame ++ outcomes.rtakeWhile Outcome.isFrame = outcomes :=
    List.rdropWhile_append_rtakeWhile ..
  have hlast : ∀ outcome ∈ outcomes.rtakeWhile Outcome.isFrame, outcome.isFrame = true :=
    fun _ => List.mem_rtakeWhile_imp
  have hnone : lastFrames outcomes = outcomes.filterMap Outcome.frame? ↔
      ∀ outcome ∈ outcomes.rdropWhile Outcome.isFrame, outcome.isFrame = false := by
    conv_lhs => rw [← hsplit, List.filterMap_append, hsplit]
    rw [← filterMap_frame?_eq_nil_iff, lastFrames, List.self_eq_append_left]
  rw [hnone]
  constructor
  · intro hfirst
    rw [← hsplit, List.pairwise_append]
    refine ⟨List.pairwise_of_forall_mem_list ?_, List.pairwise_of_forall_mem_list ?_, ?_⟩
    · exact fun first hmem _ _ hframe => absurd hframe (by rw [hfirst first hmem]; exact nofun)
    · exact fun _ _ second hmem _ => hlast second hmem
    · exact fun _ _ second hmem _ => hlast second hmem
  · intro hpairwise outcome hmem
    -- the last of those in front is no frame, so none of them is
    have hne := List.ne_nil_of_mem hmem
    have hstop := Bool.eq_false_iff.2 (List.rdropWhile_last_not Outcome.isFrame outcomes hne)
    rw [← hsplit, List.pairwise_append, ← List.dropLast_concat_getLast hne, List.pairwise_append] at hpairwise
    rw [← List.dropLast_concat_getLast hne, List.mem_append, List.mem_singleton] at hmem
    rcases hmem with hmem | rfl
    · refine Bool.eq_false_iff.2 fun hframe => ?_
      have hend := hpairwise.1.2.2 outcome hmem _ (List.mem_singleton_self _) hframe
      rw [hstop] at hend
      cases hend
    · exact hstop

theorem delivered_append (first second : List (Except Error (List Bytes))) :
    delivered (first ++ second) = delivered first ++ delivered second :=
  List.flatMap_append

theorem delivered_map_error (errors : List Error) : delivered (errors.map .error) = [] := by
  rw [delivered, List.flatMap_map, List.flatMap_eq_nil_iff]
  exact fun _ _ => rfl

end Frames

/-! ## One call

The loop of a call follows that of `Layout.exhaust` as long as there are frames, and ends at the first
answer of another kind. The decoder is then behind that answer, and the frames in front of it have gone
out of the buffer. -/

namespace Layout

variable {layout : Layout}

/-- What one call for all buffered frames does to the answers that there are. -/
inductive Drains (layout : Layout) (state : State) (buffer : Bytes) :
    Except Error (List Bytes) × State × Bytes → Prop where
  /-- They are all frames, and it takes them. -/
  | all {state' : State} {buffer' : Bytes} (frames : List Bytes)
      (htrace : layout.exhaust state buffer =
        { outcomes := frames.map Outcome.frame, state := state', buffer := buffer' }) :
      Drains layout state buffer (.ok frames, state', buffer')
  /-- It takes them up to the first error, which is what is answered. -/
  | stop {state' : State} {buffer' : Bytes} (frames : List Bytes) (e : Error) (hsound : state'.Sound)
      (hlt : buffer'.length < buffer.length)
      (htrace : layout.exhaust state buffer =
        (layout.exhaust state' buffer').after (frames.map Outcome.frame ++ [.error e])) :
      Drains layout state buffer (.error e, state', buffer')

theorem drainIn_drains (hcheck : layout.check = .ok ()) {fuel : Nat} {state : State} (hsound : state.Sound)
    {buffer : Bytes} (hfuel : buffer.length < fuel) :
    layout.Drains state buffer (layout.drainIn fuel state buffer) := by
  induction fuel generalizing state buffer with
  | zero => exact absurd hfuel (Nat.not_lt_zero _)
  | succ fuel ih =>
    have hadvances := next_advances hcheck hsound buffer
    rw [drainIn]
    cases houtcome : (layout.next state buffer).outcome with
    | needMore => exact .all [] (exhaust_of_needMore hcheck hsound houtcome)
    | error e =>
      have hmore : (layout.next state buffer).outcome ≠ .needMore := by simp [houtcome]
      refine .stop [] e hadvances.sound (hadvances.lt hmore) ?_
      rw [exhaust_of_ne_needMore hcheck hsound hmore, houtcome]
      rfl
    | frame bytes =>
      have hmore : (layout.next state buffer).outcome ≠ .needMore := by simp [houtcome]
      have hlt := hadvances.lt hmore
      have hrest := ih hadvances.sound (Nat.lt_of_lt_of_le hlt (Nat.le_of_lt_succ hfuel))
      have htrace := exhaust_of_ne_needMore hcheck hsound hmore
      rw [houtcome] at htrace
      generalize layout.drainIn fuel (layout.next state buffer).state (layout.next state buffer).buffer =
        answer at hrest ⊢
      cases hrest with
      | all frames hall =>
        refine .all (bytes :: frames) ?_
        rw [htrace, hall]
        rfl
      | stop frames e hsound' hlt' hstop =>
        refine .stop (bytes :: frames) e hsound' (Nat.lt_trans hlt' hlt) ?_
        rw [htrace, hstop, Trace.after_after]
        rfl

theorem drain_drains (hcheck : layout.check = .ok ()) {state : State} (hsound : state.Sound)
    (buffer : Bytes) : layout.Drains state buffer (layout.drain state buffer) :=
  drainIn_drains hcheck hsound (Nat.lt_succ_self _)

/-! ## Call after call

A call that answers an error leaves a shorter buffer behind, so the errors come to an end; and a call that
answers frames has gone through to the end, so the next one finds none. -/

/-- Nothing is answered to no bytes. -/
theorem exhaust_nil (hcheck : layout.check = .ok ()) {state : State} (hsound : state.Sound) :
    layout.exhaust state [] =
      { state := (layout.next state []).state, buffer := (layout.next state []).buffer } := by
  refine exhaust_of_needMore hcheck hsound ?_
  by_contra hmore
  exact Nat.not_lt_zero _ ((next_advances hcheck hsound []).lt hmore)

/-- A decoder that needs more bytes has no frame to give. -/
theorem drainsIn_of_idle {trace : Trace} (hidle : trace.Idle layout) (fuel : Nat) :
    layout.drainsIn (fuel + 1) trace.state trace.buffer = [.ok []] := by
  have hdrain : layout.drain trace.state trace.buffer = (.ok [], trace.state, trace.buffer) := by
    simp only [drain, drainIn, hidle.waits]
  simp only [drainsIn, hdrain]

/-- **Every error in turn, and then the frames behind the last one**: what calls for all buffered frames
answer. -/
theorem drainsIn_eq (hcheck : layout.check = .ok ()) {fuel : Nat} {state : State} (hsound : state.Sound)
    {buffer : Bytes} (hfuel : buffer.length < fuel) :
    layout.drainsIn fuel state buffer =
      ((layout.exhaust state buffer).outcomes.filterMap Outcome.error?).map Except.error ++
        if lastFrames (layout.exhaust state buffer).outcomes = [] then [.ok []]
        else [.ok (lastFrames (layout.exhaust state buffer).outcomes), .ok []] := by
  induction fuel generalizing state buffer with
  | zero => exact absurd hfuel (Nat.not_lt_zero _)
  | succ fuel ih =>
    have hdrains := drain_drains hcheck hsound buffer
    rw [drainsIn]
    generalize layout.drain state buffer = answer at hdrains ⊢
    cases hdrains with
    | stop frames e hsound' hlt htrace =>
      simp only
      rw [ih hsound' (by omega), htrace]
      simp only [Trace.after, List.append_assoc, List.singleton_append, List.filterMap_append,
        filterMap_error?_map, lastFrames_append_error]
      rfl
    | all frames htrace =>
      rw [htrace]
      simp only [filterMap_error?_map, lastFrames_map]
      cases frames with
      | nil => rfl
      | cons bytes frames =>
        -- the frames are gone, so the next call finds none; the fuel is not at its end, as bytes were
        -- there
        have hidle := idle_exhaust hcheck hsound buffer
        rw [htrace] at hidle
        have hfilled : buffer ≠ [] := by
          rintro rfl
          rw [exhaust_nil hcheck hsound] at htrace
          cases congrArg Trace.outcomes htrace
        have hpos := List.length_pos_iff.2 hfilled
        obtain ⟨fuel, rfl⟩ : ∃ rest, fuel = rest + 1 := ⟨fuel - 1, by omega⟩
        rw [drainsIn_of_idle hidle]
        rfl

/-- **Frames in front of an error are lost.** From wherever a decoder is and whatever is buffered, asking
for all buffered frames over and over, until there are none, answers every error in turn and then the
frames behind the last one. So of the frames that asking one by one answers, going on after errors, these
are the ones that are delivered, and they are all of them exactly when nothing but frames comes behind a
frame. -/
theorem delivered_drains (hcheck : layout.check = .ok ()) (calls : List Call) (buffer : Bytes) :
    let state := (layout.after {} calls).state
    let outcomes := (layout.exhaust state buffer).outcomes
    let answers := layout.drains state buffer
    answers = (outcomes.filterMap Outcome.error?).map .error ++
        (if lastFrames outcomes = [] then [.ok []] else [.ok (lastFrames outcomes), .ok []]) ∧
      delivered answers = lastFrames outcomes ∧
      (delivered answers = outcomes.filterMap Outcome.frame? ↔
        outcomes.Pairwise fun first second => first.isFrame = true → second.isFrame = true) := by
  intro state outcomes answers
  have hsound : state.Sound := (accounts_after hcheck calls).sound
  have hanswers := drainsIn_eq hcheck hsound (Nat.lt_succ_self buffer.length)
  have hdelivered : delivered answers = lastFrames outcomes := by
    show delivered (layout.drainsIn _ _ _) = _
    rw [hanswers, delivered_append, delivered_map_error, List.nil_append]
    split
    · exact ‹lastFrames _ = []›.symm
    · exact List.append_nil _
  exact ⟨hanswers, hdelivered, hdelivered ▸ lastFrames_eq_iff outcomes⟩

/-- The rest of an oversized frame, and then a frame, an oversized frame and two frames. The first frame
is lost with the report of what comes behind it. -/
theorem delivered_drains_of_last_two :
    let layout : Layout := { width := 1, maxLength := 4 }
    let state := (layout.after {} [.feed [9, 1, 2], .next]).state
    let buffer : Bytes := [3, 4, 5, 6, 7, 8, 9, 1, 0xAA, 5, 1, 2, 3, 4, 5, 1, 0xBB, 1, 0xCC]
    (layout.check = .ok () ∧ state = .skipping 10 7) ∧
      layout.drains state buffer = [.error (.tooLong 6 4 false), .ok [[1, 0xBB], [1, 0xCC]], .ok []] ∧
      delivered (layout.drains state buffer) = [[1, 0xBB], [1, 0xCC]] ∧
      delivered (layout.drains state buffer) ≠
        (layout.exhaust state buffer).outcomes.filterMap Outcome.frame? := by
  intro layout state buffer
  obtain ⟨hanswers, hdelivered, hall⟩ := delivered_drains (show layout.check = .ok () from rfl)
    [.feed [9, 1, 2], .next] buffer
  have houtcomes : (layout.exhaust state buffer).outcomes = [.frame [1, 0xAA], .error (.tooLong 6 4 false),
      .frame [1, 0xBB], .frame [1, 0xCC]] := by decide +kernel
  have hlast : lastFrames (layout.exhaust state buffer).outcomes = [[1, 0xBB], [1, 0xCC]] := by
    rw [houtcomes]
    rfl
  refine ⟨⟨rfl, rfl⟩, ?_, hdelivered.trans hlast, fun hsame => ?_⟩
  · rw [hanswers, hlast, houtcomes]
    rfl
  · have hpairwise := hall.1 hsame
    rw [houtcomes] at hpairwise
    exact absurd hpairwise (by decide)

/-- **A frame that is never delivered**: it is buffered complete, but an oversized frame stands behind
it. -/
theorem drains_loses_frame :
    let layout : Layout := { width := 1, maxLength := 4 }
    let buffer : Bytes := [1, 0xAA, 5, 1, 2, 3, 4, 5]
    layout.check = .ok () ∧
      layout.drains .framing buffer = [.error (.tooLong 6 4 false), .ok []] ∧
      delivered (layout.drains .framing buffer) = [] ∧
      (layout.exhaust .framing buffer).outcomes.filterMap Outcome.frame? = [[1, 0xAA]] := by
  have hdrains : Layout.drains { width := 1, maxLength := 4 } .framing [1, 0xAA, 5, 1, 2, 3, 4, 5] =
      [.error (.tooLong 6 4 false), .ok []] := by rfl
  exact ⟨rfl, hdrains, by rw [hdrains]; rfl, by decide +kernel⟩

end Layout

end Telegram.Frame
