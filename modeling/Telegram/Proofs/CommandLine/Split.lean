import Telegram.CommandLine.Run
import Telegram.Proofs.Frame.Whole

/-!
# Splitting a capture is decoding it

The command `split` reads its capture in chunks and stops at the first corrupted frame, at the end of the
capture or when it has as many frames as it was asked for. What it prints is what a fresh decoder answers
to the whole capture (`split_prints_frames`).

* `Collects` is the rule by which answers become a capture, one constructor for each kind of answer and
  one for each way to stop. `collect` goes by it (`collect_collects`).
* Whatever is collected by the rule is read off the answers up to the stop (`Collects.found`,
  `Collects.failed`).
* The command is collecting (`split_eq`), once its options are in order and its capture can be read.

The rule speaks of a list of answers and of a limit, and knows neither readers nor sources. What ties it
to the command is that a reader over one piece of data gives just these answers.
-/

namespace Telegram.CommandLine

open Telegram.Frame

/-! ## Collecting

There are four things that an answer can be, and two ways to come to an end without one. A report of an
oversized frame is counted, and a corrupted frame ends everything; frames that were collected before it
are not printed. -/

/-- The rule by which the answers that are left become a capture. The first two constructors are the ways
to stop: the limit is spent, whatever is left; or no answer is left, and then the buffer is what
trails. -/
inductive Collects : Option ℕ → Trace → Except Frame.Error Capture → Prop where
  /-- There are as many frames as were asked for. -/
  | full (trace : Trace) (trailing : Bytes) : Collects (some 0) trace (.ok { trailing })
  | ended {limit : Option ℕ} {trace : Trace} (hended : trace.outcomes = []) :
      Collects limit trace (.ok { trailing := trace.buffer })
  | frame {limit : Option ℕ} (hopen : limit ≠ some 0) (bytes : Bytes) {trace : Trace}
      {result : Except Frame.Error Capture} (hrest : Collects (limit.map (· - 1)) trace result) :
      Collects limit (trace.after [.frame bytes])
        (result.map fun found => { found with frames := bytes :: found.frames })
  | oversized {limit : Option ℕ} (hopen : limit ≠ some 0) (length max : ℕ) (skipping : Bool) {trace : Trace}
      {result : Except Frame.Error Capture} (hrest : Collects limit trace result) :
      Collects limit (trace.after [.error (.tooLong length max skipping)])
        (result.map fun found => { found with oversized := found.oversized + 1 })
  | corrupted {limit : Option ℕ} (hopen : limit ≠ some 0) (cause : Corruption) (trace : Trace) :
      Collects limit (trace.after [.error (.corrupted cause)]) (.error (.corrupted cause))

section Collects

variable {limit : Option ℕ} {trace : Trace} {result : Except Frame.Error Capture}

/-- **Without a corrupted frame before the stop** the capture holds the frames before it and the number of
oversized ones, and what is left over if there is no stop. -/
theorem Collects.found (h : Collects limit trace result)
    (hclean : ∀ outcome ∈ upTo limit trace.outcomes, outcome.isCorrupted = false) :
    ∃ trailing, (limit = none → trailing = trace.buffer) ∧
      result = .ok {
        frames := (upTo limit trace.outcomes).filterMap Outcome.frame?
        oversized := (upTo limit trace.outcomes).countP Outcome.isTooLong
        trailing } := by
  induction h with
  | full trace trailing =>
    refine ⟨trailing, nofun, ?_⟩
    rw [upTo_full]
    rfl
  | ended hended =>
    refine ⟨_, fun _ => rfl, ?_⟩
    rw [hended]
    rfl
  -- a frame is met and collected, and counts against the limit
  | frame hopen bytes _ ih =>
    rw [Trace.after, List.singleton_append, upTo_cons hopen] at hclean ⊢
    obtain ⟨trailing, htrailing, rfl⟩ := ih fun outcome hmem => hclean outcome (List.mem_cons_of_mem _ hmem)
    exact ⟨trailing, fun hnone => htrailing (by rw [hnone]; rfl), rfl⟩
  | oversized hopen length max skipping _ ih =>
    rw [Trace.after, List.singleton_append, upTo_cons hopen] at hclean ⊢
    obtain ⟨trailing, htrailing, rfl⟩ := ih fun outcome hmem => hclean outcome (List.mem_cons_of_mem _ hmem)
    exact ⟨trailing, htrailing, by rw [List.countP_cons_of_pos rfl]; rfl⟩
  -- excluded, as it would have been met
  | corrupted hopen cause trace =>
    rw [Trace.after, List.singleton_append, upTo_cons hopen] at hclean
    exact absurd (hclean _ List.mem_cons_self) (by simp [Outcome.isCorrupted])

/-- **With a corrupted frame before the stop** there is nothing but its error. -/
theorem Collects.failed (h : Collects limit trace result)
    (hcorrupted : ∃ outcome ∈ upTo limit trace.outcomes, outcome.isCorrupted = true) :
    ∃ cause, .error (.corrupted cause) ∈ upTo limit trace.outcomes ∧ result = .error (.corrupted cause) := by
  induction h with
  | full trace trailing =>
    rw [upTo_full] at hcorrupted
    obtain ⟨_, hmem, -⟩ := hcorrupted
    exact absurd hmem List.not_mem_nil
  | ended hended =>
    rw [hended] at hcorrupted
    obtain ⟨_, hmem, -⟩ := hcorrupted
    exact absurd hmem List.not_mem_nil
  | frame hopen bytes _ ih =>
    rw [Trace.after, List.singleton_append, upTo_cons hopen] at hcorrupted ⊢
    have hrest := ((List.exists_mem_cons_iff _ _ _).1 hcorrupted).resolve_left Bool.false_ne_true
    obtain ⟨cause, hmem, rfl⟩ := ih hrest
    exact ⟨cause, List.mem_cons_of_mem _ hmem, rfl⟩
  | oversized hopen length max skipping _ ih =>
    rw [Trace.after, List.singleton_append, upTo_cons hopen] at hcorrupted ⊢
    have hrest := ((List.exists_mem_cons_iff _ _ _).1 hcorrupted).resolve_left Bool.false_ne_true
    obtain ⟨cause, hmem, rfl⟩ := ih hrest
    exact ⟨cause, List.mem_cons_of_mem _ hmem, rfl⟩
  | corrupted hopen cause trace =>
    rw [Trace.after, List.singleton_append, upTo_cons hopen]
    exact ⟨cause, List.mem_cons_self, rfl⟩

end Collects

/-- **Collecting goes by the rule**, with more rounds than there are answers. -/
theorem collect_collects {fuel : ℕ} {limit : Option ℕ} {reader : Reader} (hcheck : reader.layout.check = .ok ())
    (hsound : reader.state.Sound) (hpiece : reader.source.IsOnePiece)
    (hfuel : reader.pending.outcomes.length < fuel) :
    Collects limit reader.pending (collect fuel limit reader) := by
  induction fuel generalizing limit reader with
  | zero => exact absurd hfuel (Nat.not_lt_zero _)
  | succ fuel ih =>
    by_cases hopen : limit = some 0
    · rw [hopen, collect]
      exact .full _ _
    have hreads := Reader.read_reads hcheck hsound
    have hpending := hreads.pending_eq hcheck hsound
    obtain ⟨hafter, herror⟩ := Reader.readIn_onePiece hcheck hpiece (Nat.lt_succ_self _)
    rw [← Reader.read] at hafter herror
    rw [collect]
    swap
    · exact hopen
    generalize reader.read = call at hreads hpending hafter herror ⊢
    obtain ⟨answer, after⟩ := call
    have hlayout : after.layout = reader.layout := hreads.layout
    rw [← hlayout] at hcheck
    -- what the decoder has answered was the first of the answers, so there is one less for the rounds
    -- that are left
    have hrest {outcome : Frame.Outcome} (hframed : Reader.framed? answer = some outcome) :
        reader.pending = after.pending.after [outcome.settled] ∧
          ∀ limit, Collects limit after.pending (collect fuel limit after) := by
      rw [hframed] at hpending
      refine ⟨hpending, fun _ => ih hcheck hreads.sound hafter ?_⟩
      rw [hpending] at hfuel
      exact Nat.lt_of_succ_lt_succ hfuel
    cases answer with
    | ok bytes =>
      obtain ⟨heq, hcollects⟩ := hrest rfl
      simp only [heq, bind_pure_comp]
      exact .frame hopen bytes (hcollects _)
    | error e =>
      rcases herror e rfl with hconcerns | ⟨rfl, hempty⟩
      · cases e with
        | tooLong length max skipping =>
          obtain ⟨heq, hcollects⟩ := hrest rfl
          simp only [heq, bind_pure_comp]
          exact .oversized hopen length max false (hcollects limit)
        | corrupted cause =>
          rw [(hrest rfl).1]
          exact .corrupted hopen cause _
        | _ => cases hconcerns
      · rw [hpending, hreads.pending_of_end (hlayout ▸ hcheck) rfl hempty]
        exact .ended rfl

/-! ## The command

The words of a command line become options, the options a layout and a limit, and the input a capture.
Each of these can fail on its own, with an exit code of its own, and the theorem is about the command
lines where none of them does. -/

/-- The bytes of the standard input or of the file, if they can be read. -/
def SplitOptions.contents? (options : SplitOptions) (inputs : Inputs) : Option Bytes :=
  if options.input = "-" then some inputs.stdin else (inputs.file options.input).toOption

/-- The bytes of the capture, if they can be read. -/
def SplitOptions.capture? (options : SplitOptions) (inputs : Inputs) : Option Bytes := do
  let contents ← options.contents? inputs
  if options.hex then
    let text ← Text.fromUtf8? contents
    (Hex.decodeLoose (String.ofList text)).toOption
  else some contents

/-- What is told of a capture that was collected. -/
def Capture.outcome (found : Capture) (format : Format) (limit : Option ℕ) : Outcome where
  code := if 0 < found.oversized || (!found.trailing.isEmpty && limit.isNone) then .dataInvalid else .success
  output := reportFrames format found.frames

/-- Collects the frames of a capture and tells what was found. -/
def SplitOptions.collected (options : SplitOptions) (format : Format) (layout : Layout) (capture : Bytes) :
    Except Failure Outcome :=
  ((collect (capture.length + 1) options.limit { layout, source := [.data capture] }).mapError
    (frameFailure "read frames")).map fun found => found.outcome format options.limit

variable {inputs : Inputs} {format : Format} {options : SplitOptions} {header : Header} {capture : Bytes}

theorem openCapture_eq {contents : Bytes} (hcontents : options.contents? inputs = some contents) :
    openCapture inputs options = .ok (.ok contents) := by
  rw [SplitOptions.contents?] at hcontents
  rw [openCapture]
  by_cases hstdin : options.input = "-"
  · rw [if_pos hstdin, Option.some.injEq] at hcontents
    rw [if_pos (beq_iff_eq.2 hstdin), hcontents]
  · rw [if_neg hstdin] at hcontents
    rw [if_neg (mt beq_iff_eq.1 hstdin)]
    cases hfile : inputs.file options.input with
    | error fault =>
      rw [hfile] at hcontents
      cases hcontents
    | ok bytes =>
      rw [hfile] at hcontents
      rw [Option.some.inj hcontents]

/-- A capture in hex is a text that spells bytes. -/
theorem readHexCapture_eq {contents : Bytes} {text : List Char} (htext : Text.fromUtf8? contents = some text)
    (hdecode : (Hex.decodeLoose (String.ofList text)).toOption = some capture) :
    readHexCapture (.ok contents) = .ok capture := by
  simp only [readHexCapture, htext, parseHex]
  cases hresult : Hex.decodeLoose (String.ofList text) with
  | error fault =>
    rw [hresult] at hdecode
    cases hdecode
  | ok bytes =>
    rw [hresult] at hdecode
    rw [← Option.some.inj hdecode]
    rfl

/-- **Splitting is collecting**, once the options are in order and the capture has been read. -/
theorem split_eq (hheader : headerOf options.header = .ok header) (hcapture : options.capture? inputs = some capture)
    (hcheck : ({ options.layout with header } : Layout).check = .ok ()) :
    split inputs format options = options.collected format { options.layout with header } capture := by
  obtain ⟨contents, hcontents, hcapture⟩ := Option.bind_eq_some_iff.1 hcapture
  have hok {α β : Type} (a : α) (next : α → Except Failure β) : (Except.ok a >>= next) = next a := rfl
  -- where no frames are asked for, the capture is not looked at
  have hlimit : (if options.limit = some 0 then options.collected format { options.layout with header } []
      else options.collected format { options.layout with header } capture) =
        options.collected format { options.layout with header } capture := by
    split
    · rename_i hfull
      rw [SplitOptions.collected, SplitOptions.collected, hfull]
      rfl
    · rfl
  rw [split, hheader, openCapture_eq hcontents]
  simp only [hok, bind_pure_comp]
  cases hhex : options.hex with
  | false =>
    rw [hhex, if_neg Bool.false_ne_true, Option.some.injEq] at hcapture
    rw [if_neg Bool.false_ne_true, hcapture]
    simp only [hok, hcheck, Except.mapError]
    exact hlimit
  | true =>
    rw [hhex, if_pos rfl] at hcapture
    obtain ⟨text, htext, hdecode⟩ := Option.bind_eq_some_iff.1 hcapture
    rw [if_pos rfl, readHexCapture_eq htext hdecode]
    simp only [hok, hcheck, Except.map, Except.mapError]
    exact hlimit

/-- Nothing on the command line changes when oversized frames are reported. -/
theorem failFast_of_split? {words : Sorted} (hwords : split? words = some (.split options)) :
    options.layout.failFast = true := by
  simp only [split?] at hwords
  split at hwords
  · injection hwords with hwords
    injection hwords with hwords
    rw [← hwords]
    rfl
  · cases hwords

/-- Only one of the commands reads its words as a splitting. -/
theorem failFast_of_ofCommand {default : Format} {shared : Option Sorted} {name : String} {own : List String}
    (hwords : Request.ofCommand default shared name own = some ⟨format, .split options⟩) :
    options.layout.failFast = true := by
  rw [Request.ofCommand] at hwords
  split at hwords
  · obtain ⟨page, -, hpage⟩ := Option.bind_eq_some_iff.1 hwords
    cases hpage
  obtain ⟨⟨spec, read⟩, hfind, hwords⟩ := Option.bind_eq_some_iff.1 hwords
  simp only at hwords
  split at hwords
  · cases hwords
  · rename_i words _ _
    obtain ⟨_, -, hwords⟩ := Option.bind_eq_some_iff.1 hwords
    obtain ⟨command, hread, hcommand⟩ := Option.bind_eq_some_iff.1 hwords
    obtain rfl : command = .split options := by
      injection hcommand with hcommand
      injection hcommand
    -- no command but `split` reads its words as a splitting
    have hmem := List.mem_of_find?_eq_some hfind
    simp only [commands, List.mem_cons, List.not_mem_nil, or_false, Prod.mk.injEq] at hmem
    rcases hmem with ⟨-, rfl⟩ | ⟨-, rfl⟩ | ⟨-, rfl⟩
    · exact failFast_of_split? hread
    · simp only [checksum?] at hread
      split at hread <;> cases hread
    · cases hread
  · cases hwords

/-- Every layout that can be asked for reports oversized frames when they are detected. -/
theorem failFast_of_ofArguments {default : Format} {words : List String}
    (hwords : Request.ofArguments default words = some ⟨format, .split options⟩) :
    options.layout.failFast = true := by
  rw [Request.ofArguments] at hwords
  split at hwords
  · rename_i name _ _
    cases hname : name == "help" <;> simp [hname] at hwords
  · exact failFast_of_ofCommand hwords
  · exact failFast_of_ofCommand hwords
  · cases hwords

section Run

variable {default : Format} {words : List String}

theorem run_of_split_ok (hwords : Request.ofArguments default words = some ⟨format, .split options⟩) {outcome : Outcome}
    (hsplit : split inputs format options = .ok outcome) : run default inputs words = outcome := by
  simp only [run, hwords, Request.run, hsplit]

theorem run_of_split_error (hwords : Request.ofArguments default words = some ⟨format, .split options⟩)
    {failure : Failure} (hsplit : split inputs format options = .error failure) :
    run default inputs words = { code := failure.code, errors := [failure.message] } := by
  simp only [run, hwords, Request.run, hsplit]

end Run

section Collected

variable {layout : Layout}

/-- Where reading starts, all answers to the capture are left. -/
theorem collects_capture (hcheck : layout.check = .ok ()) (limit : Option ℕ) (capture : Bytes) :
    Collects limit (layout.exhaust .framing capture).settled
      (collect (capture.length + 1) limit { layout, source := [.data capture] }) := by
  have hdata : Source.data [.data capture] = capture := List.append_nil capture
  have hpending : ({ layout, source := [.data capture] } : Reader).pending =
      (layout.exhaust .framing capture).settled := by
    rw [Reader.pending, hdata]
    rfl
  rw [← hpending]
  refine collect_collects hcheck trivial trivial ?_
  rw [hpending, Trace.settled, List.length_map]
  have hfresh : State.Sound .framing := trivial
  exact Nat.lt_succ_of_le (Layout.length_outcomes_le hcheck hfresh capture)

/-- What is told of a capture without a corrupted frame before the stop. -/
theorem exists_collected_eq (hcheck : layout.check = .ok ()) (format : Format)
    (hclean : ∀ answer ∈ upTo options.limit (layout.exhaust .framing capture).outcomes, answer.isCorrupted = false) :
    ∃ trailing, (options.limit = none → trailing = (layout.exhaust .framing capture).buffer) ∧
      options.collected format layout capture = .ok (Capture.outcome {
        frames := atMost options.limit ((layout.exhaust .framing capture).outcomes.filterMap Outcome.frame?)
        oversized := (upTo options.limit (layout.exhaust .framing capture).outcomes).countP Outcome.isTooLong
        trailing } format options.limit) := by
  have hsettled : ∀ answer ∈ upTo options.limit (layout.exhaust .framing capture).settled.outcomes,
      answer.isCorrupted = false := by
    rw [Trace.settled, upTo_map_settled, List.forall_mem_map]
    intro answer hmem
    rw [Outcome.isCorrupted_settled]
    exact hclean answer hmem
  obtain ⟨trailing, htrailing, hfound⟩ := (collects_capture hcheck options.limit capture).found hsettled
  refine ⟨trailing, htrailing, ?_⟩
  rw [SplitOptions.collected, hfound, Trace.settled, upTo_map_settled, List.filterMap_map, List.countP_map]
  have hframe? : Outcome.frame? ∘ Outcome.settled = Outcome.frame? := funext Outcome.frame?_settled
  have hisTooLong : Outcome.isTooLong ∘ Outcome.settled = Outcome.isTooLong := funext Outcome.isTooLong_settled
  rw [hframe?, hisTooLong, filterMap_frame?_upTo]
  rfl

/-- What is told of a capture with a corrupted frame before the stop. -/
theorem exists_collected_eq_error (hcheck : layout.check = .ok ()) (format : Format)
    (hcorrupted : ∃ answer ∈ upTo options.limit (layout.exhaust .framing capture).outcomes,
      answer.isCorrupted = true) :
    ∃ cause, .error (.corrupted cause) ∈ upTo options.limit (layout.exhaust .framing capture).outcomes ∧
      options.collected format layout capture = .error (frameFailure "read frames" (.corrupted cause)) := by
  have hsettled : ∃ answer ∈ upTo options.limit (layout.exhaust .framing capture).settled.outcomes,
      answer.isCorrupted = true := by
    obtain ⟨answer, hmem, hanswer⟩ := hcorrupted
    rw [Trace.settled, upTo_map_settled]
    exact ⟨answer.settled, List.mem_map_of_mem hmem, by rw [Outcome.isCorrupted_settled, hanswer]⟩
  obtain ⟨cause, hcause, hfailed⟩ := (collects_capture hcheck options.limit capture).failed hsettled
  rw [Trace.settled, upTo_map_settled] at hcause
  obtain ⟨answer, hmem, hanswer⟩ := List.mem_map.1 hcause
  rw [Outcome.settled_eq_corrupted_iff] at hanswer
  refine ⟨cause, hanswer ▸ hmem, ?_⟩
  rw [SplitOptions.collected, hfailed]
  rfl

end Collected

/-- The exit code tells of oversized frames always, and of bytes left over only where all frames were
asked for. -/
theorem Capture.code_outcome (found : Capture) (format : Format) (limit : Option ℕ) :
    (found.outcome format limit).code.toNat =
      if 0 < found.oversized ∨ limit = none ∧ found.trailing ≠ [] then 60 else 0 := by
  simp only [outcome, Bool.or_eq_true, Bool.and_eq_true, decide_eq_true_eq, Bool.not_eq_true',
    List.isEmpty_eq_false_iff, Option.isNone_iff_eq_none, and_comm]
  split <;> rfl

end Telegram.CommandLine
