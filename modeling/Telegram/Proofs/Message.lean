import Telegram.Message
import Telegram.Proofs.Frame.Kept
import Telegram.Proofs.Registry.Resolve

/-!
# Messages never disturb framing

A receiver takes each frame to hold one value. Whatever becomes of the value, the stream goes on as if
only its frames had been asked for.

* `Move` is what can happen to a stream: bytes arrive, or the next message is asked for. `Layout.Plays`
  and `Receiver.play` answer such moves with frames and with messages.
* `Receiver.Tells` is the dictionary between the two: what is told of a frame, of an error, and of more
  bytes being needed. Only a frame that holds bytes has the registry asked.
* `Receiver.Translates` takes a list of answers through the dictionary, with the slot table handed on from
  one to the next, and `Receiver.Stalls` is where there is nothing to translate.
* `Receiver.play_translates` says that messages are the translation of frames, answer by answer.

The registry may have factories and adapters of callers, and the slot table may be any. Nothing of this
depends on how deep adapters may call each other: what a frame is told to hold is what the registry reads
with the fuel that the receiver has, be it the one that it is started with or any other.
-/

namespace Telegram

/-! ## Moves

The decoder is told apart from the receiver by what it is asked for, and both are moved alike. So the
moves are given once, and both sides play them. -/

/-- What can happen to a stream. -/
inductive Move where
  /-- Bytes arrive. -/
  | feed (bytes : Bytes)
  /-- The next answer is asked for. -/
  | ask
  /-- The next answer is asked for that reports no oversized frame. -/
  | askKept

/-- The answers of a decoder to the asking moves. The moves are the same as for a receiver, and nothing
here knows of messages. -/
inductive Frame.Layout.Plays (layout : Frame.Layout) :
    List Move → Frame.State → Bytes → List Frame.Step → Prop where
  | nil (state : Frame.State) (buffer : Bytes) : Plays layout [] state buffer []
  | feed {bytes : Bytes} {rest : List Move} {state : Frame.State} {buffer : Bytes}
      {steps : List Frame.Step} (h : Plays layout rest state (buffer ++ bytes) steps) :
      Plays layout (.feed bytes :: rest) state buffer steps
  | ask {rest : List Move} {state : Frame.State} {buffer : Bytes} {step : Frame.Step}
      {steps : List Frame.Step} (hnext : layout.next state buffer = step)
      (h : Plays layout rest step.state step.buffer steps) :
      Plays layout (.ask :: rest) state buffer (step :: steps)
  /-- Reports of oversized frames are passed over. -/
  | askKept {rest : List Move} {state : Frame.State} {buffer : Bytes} {step : Frame.Step}
      {steps : List Frame.Step} (hpasses : layout.Passes state buffer step)
      (h : Plays layout rest step.state step.buffer steps) :
      Plays layout (.askKept :: rest) state buffer (step :: steps)

/-- The moves can be answered from wherever the decoder is. -/
theorem Frame.Layout.exists_plays {layout : Frame.Layout} (hcheck : layout.check = .ok ())
    (moves : List Move) {state : Frame.State} (hsound : state.Sound) (buffer : Bytes) :
    ∃ steps, layout.Plays moves state buffer steps := by
  induction moves generalizing state buffer with
  | nil => exact ⟨_, .nil state buffer⟩
  | cons move rest ih =>
    cases move with
    | feed bytes =>
      obtain ⟨steps, hsteps⟩ := ih hsound (buffer ++ bytes)
      exact ⟨steps, .feed hsteps⟩
    | ask =>
      obtain ⟨steps, hsteps⟩ := ih (next_advances hcheck hsound buffer).sound _
      exact ⟨_, .ask rfl hsteps⟩
    | askKept =>
      have hpasses := nextKept_passes hcheck hsound buffer
      obtain ⟨steps, hsteps⟩ := ih (hpasses.sound hcheck hsound) _
      exact ⟨_, .askKept hpasses hsteps⟩

/-- The moves determine the answers. -/
theorem Frame.Layout.Plays.unique {layout : Frame.Layout} {moves : List Move} {state : Frame.State}
    {buffer : Bytes} {steps steps' : List Frame.Step} (h : layout.Plays moves state buffer steps)
    (h' : layout.Plays moves state buffer steps') : steps = steps' := by
  induction h generalizing steps' with
  | nil =>
    cases h'
    rfl
  | feed _ ih =>
    cases h' with
    | feed h' => exact ih h'
  | ask hnext _ ih =>
    cases h' with
    | ask hnext' h' =>
      obtain rfl := hnext.symm.trans hnext'
      rw [ih h']
  | askKept hpasses _ ih =>
    cases h' with
    | askKept hpasses' h' =>
      obtain rfl := hpasses.unique hpasses'
      rw [ih h']

namespace Receiver

/-- The answers of a receiver to the asking moves. -/
def play (receiver : Receiver) : List Move → Frame.State → Bytes → Run (List MessageStep)
  | [], _, _ => pure []
  | .feed bytes :: rest, state, buffer => receiver.play rest state (buffer ++ bytes)
  | .ask :: rest, state, buffer => do
    let step ← receiver.next state buffer
    let steps ← receiver.play rest step.state step.buffer
    pure (step :: steps)
  | .askKept :: rest, state, buffer => do
    let step ← receiver.nextKept state buffer
    let steps ← receiver.play rest step.state step.buffer
    pure (step :: steps)

/-! ## The dictionary

What a frame is told to be is decided by the registry, and that may take the slot table from one state to
another. The stream has no part in it, and so it does not occur in the dictionary at all. -/

/-- What is told of an answer of the decoder, with the slot table before and after. Only a frame with
bytes in it has to do with the table; all else is told from the answer alone. -/
inductive Tells (receiver : Receiver) (table : SlotTable) :
    Frame.Outcome → MessageOutcome → SlotTable → Prop where
  | needMore : Tells receiver table .needMore .needMore table
  | error (e : Frame.Error) : Tells receiver table (.error e) (.error (.frame e)) table
  /-- A frame without bytes holds no value. -/
  | empty : Tells receiver table (.frame []) (.error .empty) table
  /-- A frame holds a value, and perhaps bytes behind it, which are of no account. -/
  | value {frame rest : Bytes} {value : Value} {table' : SlotTable} (hframe : frame ≠ [])
      (hdecode : receiver.registry.decodeIn receiver.fuel receiver.type receiver.version frame table =
        some (⟨.ok (some value), rest⟩, table')) :
      Tells receiver table (.frame frame) (.value value) table'
  /-- The frame ends before there is a value. -/
  | absent {frame rest : Bytes} {table' : SlotTable} (hframe : frame ≠ [])
      (hdecode : receiver.registry.decodeIn receiver.fuel receiver.type receiver.version frame table =
        some (⟨.ok none, rest⟩, table')) :
      Tells receiver table (.frame frame) (.error .empty) table'
  | failed {frame rest : Bytes} {e : Codec.Error} {table' : SlotTable} (hframe : frame ≠ [])
      (hdecode : receiver.registry.decodeIn receiver.fuel receiver.type receiver.version frame table =
        some (⟨.error e, rest⟩, table')) :
      Tells receiver table (.frame frame) (.error (.codec e)) table'

/-- Answers of the decoder, and what is told of them one by one. Both sequences have the same length, and
each message leaves the stream exactly where its answer did. -/
inductive Translates (receiver : Receiver) :
    SlotTable → List Frame.Step → List MessageStep → SlotTable → Prop where
  | nil (table : SlotTable) : Translates receiver table [] [] table
  | cons {table table' table'' : SlotTable} {step : Frame.Step} {outcome : MessageOutcome}
      {steps : List Frame.Step} {messages : List MessageStep}
      (htells : receiver.Tells table step.outcome outcome table')
      (hrest : Translates receiver table' steps messages table'') :
      Translates receiver table (step :: steps) (⟨outcome, step.state, step.buffer⟩ :: messages) table''

/-- The answers of the decoder come to a frame whose bytes the registry never finishes reading. It is the
one way in which a run of a receiver has no answer. -/
inductive Stalls (receiver : Receiver) : SlotTable → List Frame.Step → Prop where
  | here {table : SlotTable} {step : Frame.Step} {steps : List Frame.Step} {frame : Bytes}
      (houtcome : step.outcome = .frame frame) (hframe : frame ≠ [])
      (hdecode : receiver.registry.decodeIn receiver.fuel receiver.type receiver.version frame table = none) :
      Stalls receiver table (step :: steps)
  | later {table table' : SlotTable} {step : Frame.Step} {outcome : MessageOutcome}
      {steps : List Frame.Step} (htells : receiver.Tells table step.outcome outcome table')
      (hrest : Stalls receiver table' steps) : Stalls receiver table (step :: steps)

variable {receiver : Receiver} {table table' : SlotTable}

/-- **The dictionary is complete**: what the receiver makes of an answer is what it says, and nothing
else. -/
theorem interpret_eq_some_iff {outcome : Frame.Outcome} {message : MessageOutcome} :
    receiver.interpret outcome table = some (message, table') ↔
      receiver.Tells table outcome message table' := by
  constructor
  · intro h
    cases outcome with
    | needMore | error e =>
      obtain ⟨rfl, rfl⟩ := Prod.mk.inj (Option.some.inj h)
      constructor
    | frame frame =>
      rw [interpret, unpack] at h
      split at h
      · rename_i hempty
        obtain ⟨rfl, rfl⟩ := Prod.mk.inj (Option.some.inj h)
        obtain rfl := List.isEmpty_iff.1 hempty
        exact .empty
      · rename_i hfilled
        have hframe : frame ≠ [] := fun heq => hfilled (List.isEmpty_iff.2 heq)
        obtain ⟨⟨result, rest⟩, after, hdecode, h⟩ := bind_eq_some_iff.1 h
        rcases result with e | _ | value <;> obtain ⟨rfl, rfl⟩ := Prod.mk.inj (Option.some.inj h)
        · exact .failed hframe hdecode
        · exact .absent hframe hdecode
        · exact .value hframe hdecode
  · intro htells
    cases htells with
    | needMore | error e | empty => rfl
    | value hframe hdecode | absent hframe hdecode | failed hframe hdecode =>
      rw [interpret, unpack, if_neg fun hempty => hframe (List.isEmpty_iff.1 hempty)]
      exact bind_eq_some_iff.2 ⟨_, _, hdecode, rfl⟩

/-- A frame goes without an answer exactly when its bytes do. -/
theorem interpret_eq_none_iff {outcome : Frame.Outcome} :
    receiver.interpret outcome table = none ↔
      ∃ frame, outcome = .frame frame ∧ frame ≠ [] ∧
        receiver.registry.decodeIn receiver.fuel receiver.type receiver.version frame table = none := by
  constructor
  · intro h
    cases outcome with
    | needMore | error e => cases h
    | frame frame =>
      rw [interpret, unpack] at h
      split at h
      · cases h
      · rename_i hfilled
        refine ⟨frame, rfl, fun heq => hfilled (List.isEmpty_iff.2 heq), ?_⟩
        rcases bind_eq_none_iff.1 h with hdecode | ⟨⟨result, rest⟩, after, -, hnext⟩
        · exact hdecode
        · rcases result with e | _ | value <;> cases hnext
  · rintro ⟨frame, rfl, hframe, hdecode⟩
    rw [interpret, unpack, if_neg fun hempty => hframe (List.isEmpty_iff.1 hempty)]
    exact bind_of_eq_none hdecode

/-! ## One answer

Asking a receiver is asking its decoder and telling what it answered. For one call this is how it is
defined; for passing over oversized frames it has to be shown, since the receiver decides by what was told
and the decoder by what it answered. -/

/-- What is told of an answer of the decoder, with where it leaves the stream. -/
def tell (receiver : Receiver) (step : Frame.Step) : Run MessageStep := do
  let outcome ← receiver.interpret step.outcome
  pure ⟨outcome, step.state, step.buffer⟩

theorem tell_eq_some_iff {step : Frame.Step} {message : MessageStep} :
    receiver.tell step table = some (message, table') ↔
      ∃ outcome, receiver.Tells table step.outcome outcome table' ∧
        message = ⟨outcome, step.state, step.buffer⟩ := by
  rw [tell, bind_eq_some_iff]
  constructor
  · rintro ⟨outcome, after, hinterpret, h⟩
    obtain ⟨rfl, rfl⟩ := Prod.mk.inj (Option.some.inj h)
    exact ⟨outcome, interpret_eq_some_iff.1 hinterpret, rfl⟩
  · rintro ⟨outcome, htells, rfl⟩
    exact ⟨outcome, table', interpret_eq_some_iff.2 htells, rfl⟩

theorem tell_eq_none_iff {step : Frame.Step} :
    receiver.tell step table = none ↔ receiver.interpret step.outcome table = none := by
  rw [tell, bind_eq_none_iff]
  constructor
  · rintro (hinterpret | ⟨outcome, after, -, hnext⟩)
    · exact hinterpret
    · cases hnext
  · exact .inl

/-- A call is one call of the decoder, and what is told of its answer. -/
theorem next_eq_tell (state : Frame.State) (buffer : Bytes) :
    receiver.next state buffer = receiver.tell (receiver.layout.next state buffer) :=
  rfl

/-- Calling on after reports of oversized frames passes over what the decoder passes over. -/
theorem nextKeptIn_eq_tell (fuel : Nat) (state : Frame.State) (buffer : Bytes) :
    receiver.nextKeptIn fuel state buffer =
      receiver.tell (receiver.layout.nextKeptIn fuel state buffer) := by
  induction fuel generalizing state buffer with
  | zero => rfl
  | succ fuel ih =>
    rw [nextKeptIn, next_eq_tell, Frame.Layout.nextKeptIn_succ]
    generalize receiver.layout.next state buffer = step
    obtain ⟨outcome, state', buffer'⟩ := step
    cases outcome with
    | needMore => rfl
    | error e =>
      -- a report costs the receiver nothing but the call: the slot table is as before
      cases e with
      | tooLong length max skipping => exact ih state' buffer'
      | _ => rfl
    | frame frame =>
      funext table
      rw [if_neg (by simp [Frame.Outcome.isTooLong])]
      cases htell : receiver.tell ⟨.frame frame, state', buffer'⟩ table with
      | none => rw [bind_of_eq_none htell]
      | some answer =>
        obtain ⟨message, table'⟩ := answer
        obtain ⟨outcome, htells, rfl⟩ := tell_eq_some_iff.1 htell
        rw [bind_of_eq_some htell]
        -- nothing that is told of a frame is a report
        cases htells <;> rfl

theorem nextKept_eq_tell (state : Frame.State) (buffer : Bytes) :
    receiver.nextKept state buffer = receiver.tell (receiver.layout.nextKept state buffer) :=
  nextKeptIn_eq_tell _ state buffer

/-! ## All answers

Two lists are compared, and the slot table goes along with the second. They come to an end together,
unless the registry never finishes reading a frame: then the messages stop there and the answers of the
decoder do not. -/

/-- The first answer, and the answers to the rest. -/
theorem translates_cons_iff {step : Frame.Step} {steps : List Frame.Step}
    {rest : MessageStep → Run (List MessageStep)} {messages : List MessageStep} {table'' : SlotTable}
    (hrest : ∀ outcome table' messages,
      rest ⟨outcome, step.state, step.buffer⟩ table' = some (messages, table'') ↔
        receiver.Translates table' steps messages table'') :
    (do
      let message ← receiver.tell step
      let messages ← rest message
      pure (message :: messages) : Run (List MessageStep)) table = some (messages, table'') ↔
      receiver.Translates table (step :: steps) messages table'' := by
  rw [bind_eq_some_iff]
  constructor
  · rintro ⟨message, table', htell, h⟩
    obtain ⟨outcome, htells, rfl⟩ := tell_eq_some_iff.1 htell
    obtain ⟨messages, after, hmessages, h⟩ := bind_eq_some_iff.1 h
    obtain ⟨rfl, rfl⟩ := Prod.mk.inj (Option.some.inj h)
    exact .cons htells ((hrest _ _ _).1 hmessages)
  · intro h
    cases h with
    | cons htells htranslates =>
      exact ⟨_, _, tell_eq_some_iff.2 ⟨_, htells, rfl⟩,
        bind_eq_some_iff.2 ⟨_, _, (hrest _ _ _).2 htranslates, rfl⟩⟩

/-- Nothing is answered if the first answer or the rest is missing. -/
theorem stalls_cons_iff {step : Frame.Step} {steps : List Frame.Step}
    {rest : MessageStep → Run (List MessageStep)}
    (hrest : ∀ outcome table', rest ⟨outcome, step.state, step.buffer⟩ table' = none ↔
      receiver.Stalls table' steps) :
    (do
      let message ← receiver.tell step
      let messages ← rest message
      pure (message :: messages) : Run (List MessageStep)) table = none ↔
      receiver.Stalls table (step :: steps) := by
  rw [bind_eq_none_iff, tell_eq_none_iff, interpret_eq_none_iff]
  constructor
  · rintro (⟨frame, houtcome, hframe, hdecode⟩ | ⟨message, table', htell, h⟩)
    · exact .here houtcome hframe hdecode
    · obtain ⟨outcome, htells, rfl⟩ := tell_eq_some_iff.1 htell
      rcases bind_eq_none_iff.1 h with hnone | ⟨messages, after, -, hpure⟩
      · exact .later htells ((hrest _ _).1 hnone)
      · cases hpure
  · intro h
    cases h with
    | here houtcome hframe hdecode => exact .inl ⟨_, houtcome, hframe, hdecode⟩
    | later htells hstalls =>
      exact .inr ⟨_, _, tell_eq_some_iff.2 ⟨_, htells, rfl⟩, bind_of_eq_none ((hrest _ _).2 hstalls)⟩

/-- **Messages are the translation of frames**, whatever moves are made from wherever the decoder is. -/
theorem play_eq_some_iff (hcheck : receiver.layout.check = .ok ()) {moves : List Move}
    {state : Frame.State} {buffer : Bytes} {steps : List Frame.Step} (hsound : state.Sound)
    (hplays : receiver.layout.Plays moves state buffer steps) {table table' : SlotTable}
    {messages : List MessageStep} :
    receiver.play moves state buffer table = some (messages, table') ↔
      receiver.Translates table steps messages table' := by
  induction hplays generalizing table messages with
  | nil state buffer =>
    constructor
    · intro h
      obtain ⟨rfl, rfl⟩ := Prod.mk.inj (Option.some.inj h)
      exact .nil table
    · rintro ⟨⟩
      rfl
  | feed _ ih => exact ih hsound
  | ask hnext _ ih =>
    subst hnext
    rw [play, next_eq_tell]
    exact translates_cons_iff fun _ _ _ => ih (Frame.Layout.next_advances hcheck hsound _).sound
  | askKept hpasses _ ih =>
    rw [play, nextKept_eq_tell, (Frame.Layout.nextKept_passes hcheck hsound _).unique hpasses]
    exact translates_cons_iff fun _ _ _ => ih (hpasses.sound hcheck hsound)

/-- **Messages fail to come only where the registry does not answer.** -/
theorem play_eq_none_iff (hcheck : receiver.layout.check = .ok ()) {moves : List Move}
    {state : Frame.State} {buffer : Bytes} {steps : List Frame.Step} (hsound : state.Sound)
    (hplays : receiver.layout.Plays moves state buffer steps) {table : SlotTable} :
    receiver.play moves state buffer table = none ↔ receiver.Stalls table steps := by
  induction hplays generalizing table with
  | nil => exact ⟨nofun, nofun⟩
  | feed _ ih => exact ih hsound
  | ask hnext _ ih =>
    subst hnext
    rw [play, next_eq_tell]
    exact stalls_cons_iff fun _ _ => ih (Frame.Layout.next_advances hcheck hsound _).sound
  | askKept hpasses _ ih =>
    rw [play, nextKept_eq_tell, (Frame.Layout.nextKept_passes hcheck hsound _).unique hpasses]
    exact stalls_cons_iff fun _ _ => ih (hpasses.sound hcheck hsound)

/-- Translating leaves the stream alone. -/
theorem Translates.framing_eq {steps : List Frame.Step} {messages : List MessageStep}
    (h : receiver.Translates table steps messages table') :
    (messages.map fun message => (message.state, message.buffer)) =
      steps.map fun step => (step.state, step.buffer) := by
  induction h with
  | nil => rfl
  | cons _ _ ih => simp only [List.map_cons, ih]

/-- A receiver is started on a layout that can describe a frame, and is for what it was asked for. -/
theorem start_eq_ok {layout : Frame.Layout} {registry : Registry} {type : TypeExpr}
    {version : Option UInt32} (h : start layout registry type version = .ok receiver) :
    layout.check = .ok () ∧
      receiver = { layout, registry, type, version := version.getD registry.limits.defaultVersion } := by
  rw [start] at h
  split at h
  · cases h
  · rename_i hcheck
    exact ⟨hcheck, (Except.ok.inj h).symm⟩

/-- **A bad message never disturbs framing.** Feed a fresh receiver and ask it for messages in any order.
A plain decoder that is fed and asked alike has one list of answers, and the messages are its translation:
each leaves the same state and the same buffer as the answer it stands for, and tells of it what the
dictionary says. There is no list of messages exactly when the registry never finishes reading one of the
frames, after the messages before it.

The registry is asked as by `Registry.decode`. It makes no difference to the correspondence how deep
adapters may call each other while a frame is read. -/
theorem play_translates {layout : Frame.Layout} {registry : Registry} {type : TypeExpr}
    {version : Option UInt32} (hstart : start layout registry type version = .ok receiver)
    (moves : List Move) :
    (∀ frame, receiver.registry.decodeIn receiver.fuel receiver.type receiver.version frame =
      registry.decode type (version.getD registry.limits.defaultVersion) frame) ∧
    ∃ steps, (∀ others, layout.Plays moves .framing [] others ↔ others = steps) ∧ ∀ fuel table,
      let receiver := { receiver with fuel }
      (∀ messages table', receiver.play moves .framing [] table = some (messages, table') ↔
        receiver.Translates table steps messages table') ∧
      (∀ messages table', receiver.play moves .framing [] table = some (messages, table') →
        (messages.map fun message => (message.state, message.buffer)) =
          steps.map fun step => (step.state, step.buffer)) ∧
      (receiver.play moves .framing [] table = none ↔ receiver.Stalls table steps) := by
  obtain ⟨hcheck, rfl⟩ := start_eq_ok hstart
  have hsound : Frame.State.framing.Sound := trivial
  obtain ⟨steps, hplays⟩ := Frame.Layout.exists_plays hcheck moves hsound []
  refine ⟨fun _ => rfl, steps, fun others => ⟨fun hothers => hothers.unique hplays, ?_⟩,
    fun fuel table => ⟨?_, ?_, ?_⟩⟩
  · rintro rfl
    exact hplays
  · exact fun messages table' => play_eq_some_iff hcheck hsound hplays
  · intro messages table' hplay
    exact ((play_eq_some_iff hcheck hsound hplays).1 hplay).framing_eq
  · exact play_eq_none_iff hcheck hsound hplays

/-- A frame without a message, one that is read but for its nesting, an oversized one and a good one. -/
theorem play_translates_of_four_frames :
    let layout : Frame.Layout :=
      { header := .one 0x68, offset := 1, width := 1, maxLength := 8, strip := 2 }
    let id : Field :=
      { name := "id", member := "id", type := .scalar (.int .u8), format := {}, adapter := none }
    let next : Field :=
      { name := "next", member := "next", type := .sequence .list (.record "link"),
        format := { length := 1 }, adapter := none }
    let link : Schema := { type := .record "link", fields := [id, next], initial := [] }
    let registry : Registry := { limits := { maxDepth := 2 }, schemas := [link] }
    let receiver : Receiver := { layout, registry, type := .record "link", version := 1 }
    let moves : List Move :=
      [.feed [0x68, 0, 0x68], .ask, .ask, .feed [3, 1, 2, 3, 0x68, 7], .ask,
        .feed [0, 0, 0, 0, 0, 0, 0, 0x68, 1, 5], .askKept]
    let steps : List Frame.Step :=
      [⟨.frame [], .framing, [0x68]⟩, ⟨.needMore, .framing, [0x68]⟩,
        ⟨.frame [1, 2, 3], .framing, [0x68, 7]⟩, ⟨.frame [5], .framing, []⟩]
    start layout registry (.record "link") none = .ok receiver ∧
      ∃ messages table, receiver.play moves .framing [] {} = some (messages, table) ∧
        receiver.Translates {} steps messages table := by
  intro layout id next link registry receiver moves steps
  have hstart : start layout registry (.record "link") none = .ok receiver := rfl
  obtain ⟨-, plain, hplain, htranslates⟩ := play_translates hstart moves
  have hlast : layout.nextKept .framing [0x68, 7, 0, 0, 0, 0, 0, 0, 0, 0x68, 1, 5] =
      ⟨.frame [5], .framing, []⟩ := by decide +kernel
  have hkept := Frame.Layout.nextKept_passes (start_eq_ok hstart).1
    (show Frame.State.framing.Sound from trivial) [0x68, 7, 0, 0, 0, 0, 0, 0, 0, 0x68, 1, 5]
  rw [hlast] at hkept
  have hplays : layout.Plays moves .framing [] steps :=
    .feed (.ask (by decide +kernel) (.ask (by decide +kernel) (.feed (.ask (by decide +kernel)
      (.feed (.askKept hkept (.nil _ _)))))))
  obtain rfl := (hplain steps).1 hplays
  have hanswered : (receiver.play moves .framing [] {}).isSome = true := by decide +kernel
  obtain ⟨⟨messages, table⟩, hplay⟩ := Option.isSome_iff_exists.1 hanswered
  exact ⟨hstart, messages, table, hplay, ((htranslates receiver.fuel {}).1 messages table).1 hplay⟩

end Receiver

end Telegram
