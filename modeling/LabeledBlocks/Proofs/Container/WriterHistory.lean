import LabeledBlocks.Proofs.BlockMap.Consistent
import LabeledBlocks.Proofs.Container.Sinks

/-!
# What a writer has written

A writer may be called in any order, be called again after a failure, and write to a sink that
fails at any point. Whatever is called, the sink holds the first bytes of the container that the
arguments of the calls describe, and the writer is done only behind a whole container. This is
carried by an invariant that ties the phase of a session to the calls made so far: every call
keeps it.

* `Writer.history` — a list of calls made one after the other.
* `Writer.layout` — the bytes that the arguments of the calls describe.
* `Writer.Stands` — where a session stands after some steps, and `Writer.stands_runAll`.
* `Writer.whole_history` — what therefore holds after any calls.
-/

namespace LabeledBlocks.Writer

/-! ### Calls -/

/-- A call that takes one step. -/
inductive Step where
  | header (mixedProperties : Bool)
  | keys (keys : Labels)
  | block (block : Block)
  | finish

namespace Step

def run : Step → Writer Unit
  | .header mixedProperties => Writer.header mixedProperties
  | .keys given => Writer.keys given
  | .block given => Writer.block given
  | .finish => Writer.finish

/-- What a step is called when it is refused. -/
def name : Step → WriterCall
  | .header _ => .header
  | .keys _ => .keys
  | .block _ => .block
  | .finish => .finish

def header? : Step → Option Bool
  | .header mixedProperties => some mixedProperties
  | _ => none

def keys? : Step → Option Labels
  | .keys given => some given
  | _ => none

def block? : Step → Option Block
  | .block given => some given
  | _ => none

def isFinish : Step → Bool
  | .finish => true
  | _ => false

end Step

/-- A call on a writer: one step, or a whole map. -/
inductive Call where
  | step (step : Step)
  | map (keys : Labels) (blocks : List Block) (mixedProperties : Bool)

namespace Call

def run : Call → Writer Unit
  | .step single => single.run
  | .map keys blocks mixedProperties => Writer.map keys blocks mixedProperties

/-- What a call is called when it is refused: a whole map begins with its header. -/
def name : Call → WriterCall
  | .step single => single.name
  | .map _ _ _ => .header

/-- The steps that a call takes one after the other. -/
def steps : Call → List Step
  | .step single => [single]
  | .map keys blocks mixedProperties =>
    .header mixedProperties :: .keys keys :: (blocks.map .block ++ [.finish])

end Call

/-- The session that a call leaves. -/
def left : EStateM.Result ContainerError WriterSession Unit → WriterSession
  | .ok _ after => after
  | .error _ after => after

def told : EStateM.Result ContainerError WriterSession Unit → Except ContainerError Unit
  | .ok _ _ => .ok ()
  | .error error _ => .error error

/-- Calls made one after the other, whether or not the earlier ones failed: what the caller was
told, and the session that is left. -/
def history : List Call → WriterSession → List (Except ContainerError Unit) × WriterSession
  | [], session => ([], session)
  | call :: further, session =>
    let rest := history further (left (call.run session))
    (told (call.run session) :: rest.1, rest.2)

/-! ### The container that the calls describe -/

variable {sink : Sink} {options : WriterOptions} {steps more : List Step} {session : WriterSession}

/-- The blocks that were given, as many as there are keys. -/
def blocksOf (keys : Labels) (steps : List Step) : List Block :=
  (steps.filterMap Step.block?).take keys.count

def pieces (keys : Labels) (blocks : List Block) : List Piece :=
  keyLayout keys ++ blocks.flatMap Block.layout

/-- The bytes that the arguments describe: those of the first header, of the first keys with the
number of blocks, of as many blocks, and the end when there are so many blocks and it was asked
for. -/
def layout (options : WriterOptions) (steps : List Step) : List UInt8 :=
  match steps.findSome? Step.header? with
  | none => []
  | some mixedProperties =>
    let header := Header.of options.order .map options.checksum mixedProperties
    match steps.findSome? Step.keys? with
    | none => header.bytes
    | some keys =>
      let content := Piece.allBytes options.order (pieces keys (blocksOf keys steps))
      if (blocksOf keys steps).length = keys.count ∧ steps.any Step.isFinish then
        header.enclose content
      else header.bytes ++ content

/-- The steps taken so far are in turn and write lengths that fit, and they have come to this
phase. -/
inductive InTurn : List Step → WriterPhase → Prop
  | idle : InTurn [] .idle
  | writingKeys (mixedProperties : Bool) : InTurn [.header mixedProperties] .writingKeys
  | writingBlocks (mixedProperties : Bool) {keys : Labels} {blocks : List Block}
      (few : blocks.length ≤ keys.count) (fit : Piece.Fit (pieces keys blocks)) :
      InTurn (.header mixedProperties :: .keys keys :: blocks.map .block)
        (.writingBlocks blocks.length keys.count)
  | done (mixedProperties : Bool) {keys : Labels} {blocks : List Block}
      (all : blocks.length = keys.count) (fit : Piece.Fit (pieces keys blocks)) :
      InTurn (.header mixedProperties :: .keys keys :: (blocks.map .block ++ [.finish])) .done

theorem blocksOf_front {keys : Labels} : blocksOf keys steps <+: blocksOf keys (steps ++ more) := by
  unfold blocksOf
  rw [List.filterMap_append, List.take_append]
  exact List.prefix_append _ _

theorem allBytes_pieces_front {keys : Labels} {blocks others : List Block}
    (front : blocks <+: others) :
    Piece.allBytes options.order (pieces keys blocks) <+:
      Piece.allBytes options.order (pieces keys others) := by
  obtain ⟨rest, rfl⟩ := front
  unfold pieces
  rw [List.flatMap_append, ← List.append_assoc, Piece.allBytes_append _ (_ ++ _)]
  exact List.prefix_append _ _

/-- Further calls only describe more bytes behind those described before. -/
theorem layout_front : layout options steps <+: layout options (steps ++ more) := by
  unfold layout
  rw [List.findSome?_append, List.findSome?_append]
  cases steps.findSome? Step.header? with
  | none => exact List.nil_prefix
  | some mixedProperties =>
    dsimp only [Option.some_or]
    cases steps.findSome? Step.keys? with
    | none =>
      dsimp only [Option.none_or]
      split
      · exact List.prefix_refl _
      · rw [Header.enclose, List.append_assoc]
        split <;> exact List.prefix_append _ _
    | some keys =>
      dsimp only [Option.some_or]
      have front : blocksOf keys steps <+: blocksOf keys (steps ++ more) := blocksOf_front
      by_cases whole : (blocksOf keys steps).length = keys.count ∧ steps.any Step.isFinish
      · have same : blocksOf keys (steps ++ more) = blocksOf keys steps := by
          refine (front.eq_of_length_le ?_).symm
          rw [whole.1]
          exact List.length_take_le _ _
        have whole' : (blocksOf keys steps).length = keys.count ∧
            (steps ++ more).any Step.isFinish := by
          rw [List.any_append, whole.2]
          exact ⟨whole.1, rfl⟩
        rw [same, if_pos whole, if_pos whole']
      · rw [if_neg whole]
        have behind : ∀ start : List UInt8,
            start ++ Piece.allBytes options.order (pieces keys (blocksOf keys steps)) <+:
              start ++ Piece.allBytes options.order (pieces keys (blocksOf keys (steps ++ more))) :=
          fun start => (List.prefix_append_right_inj start).mpr (allBytes_pieces_front front)
        split
        · exact (behind _).trans (List.prefix_append _ _)
        · exact behind _

theorem pieces_nil {keys : Labels} : pieces keys [] = keyLayout keys :=
  List.append_nil _

theorem pieces_append {keys : Labels} {blocks : List Block} {block : Block} :
    pieces keys (blocks ++ [block]) = pieces keys blocks ++ block.layout := by
  simp [pieces]

section InTurn

variable (options) (mixedProperties : Bool) {keys : Labels} {blocks : List Block}

/-- Blocks that are given in turn, no more than there are keys, are all laid out. -/
theorem blocksOf_inTurn (few : blocks.length ≤ keys.count) (last : List Step)
    (none : last.filterMap Step.block? = []) :
    blocksOf keys (.header mixedProperties :: .keys keys :: (blocks.map .block ++ last)) =
      blocks := by
  have given : blocks.filterMap (Step.block? ∘ Step.block) = blocks := List.filterMap_some
  simp only [blocksOf, List.filterMap_cons, Step.block?, List.filterMap_append, none,
    List.filterMap_map, given, List.append_nil]
  exact List.take_of_length_le few

theorem layout_behind_keys (rest : List Step) :
    layout options (.header mixedProperties :: .keys keys :: rest) =
      let header := Header.of options.order .map options.checksum mixedProperties
      let given := blocksOf keys (.header mixedProperties :: .keys keys :: rest)
      let content := Piece.allBytes options.order (pieces keys given)
      if given.length = keys.count ∧ rest.any Step.isFinish then header.enclose content
      else header.bytes ++ content :=
  rfl

theorem layout_blocks (few : blocks.length ≤ keys.count) :
    layout options (.header mixedProperties :: .keys keys :: blocks.map .block) =
      (Header.of options.order .map options.checksum mixedProperties).bytes ++
        Piece.allBytes options.order (pieces keys blocks) := by
  have given := blocksOf_inTurn mixedProperties few [] rfl
  rw [List.append_nil] at given
  rw [layout_behind_keys, given]
  have unended : ¬(blocks.map Step.block).any Step.isFinish := by simp [Step.isFinish]
  exact if_neg fun ended => unended ended.2

theorem layout_done (all : blocks.length = keys.count) :
    layout options (.header mixedProperties :: .keys keys :: (blocks.map .block ++ [.finish])) =
      (Header.of options.order .map options.checksum mixedProperties).enclose
        (Piece.allBytes options.order (pieces keys blocks)) := by
  rw [layout_behind_keys, blocksOf_inTurn mixedProperties (Nat.le_of_eq all) [.finish] rfl]
  exact if_pos ⟨all, by simp [Step.isFinish]⟩

end InTurn

/-! ### Failures -/

/-- After a failure every call is refused, and nothing is changed. -/
theorem run_of_failed (failed : session.phase = .failed) (call : Call) :
    call.run session = .error (.misuse (.writerCall call.name .failed)) session := by
  obtain ⟨output, options, phase⟩ := session
  subst failed
  cases call with
  | step single => cases single <;> rfl
  | map keys blocks mixedProperties => rfl

/-- The session that is left when steps are taken one after the other, whether or not the earlier
ones failed. -/
def runAll (steps : List Step) (session : WriterSession) : WriterSession :=
  steps.foldl (fun session step => left (step.run session)) session

/-- Nothing happens any more after a failure. -/
theorem runAll_of_failed (failed : session.phase = .failed) : runAll steps session = session := by
  induction steps with
  | nil => rfl
  | cons step steps ih =>
    have refused : left (step.run session) = session := by
      rw [show step.run session = _ from run_of_failed failed (.step step)]
      rfl
    rw [runAll, List.foldl_cons, refused]
    exact ih

/-- A call that fails leaves a session that has failed. -/
def FailsForGood (writer : Writer Unit) : Prop :=
  ∀ session error after, writer session = .error error after → after.phase = .failed

theorem failsForGood_encode (encoder : Encoder Unit) (next : WriterPhase) :
    FailsForGood (encode encoder next) := by
  intro session error after h
  unfold encode at h
  split at h <;> cases h
  rfl

theorem failsForGood_fail (misuse : Misuse) : FailsForGood (fail misuse) := by
  rintro session error after ⟨⟩
  rfl

theorem FailsForGood.bind {first : Writer Unit} {next : Unit → Writer Unit}
    (h : FailsForGood first) (h' : FailsForGood (next ())) : FailsForGood (first >>= next) := by
  intro session error after failed
  cases begun : first session with
  | ok _ middle =>
    rw [run_bind_of_ok begun] at failed
    exact h' middle error after failed
  | error error' middle =>
    rw [run_bind_of_error begun] at failed
    cases failed
    exact h session _ _ begun

/-- Every step that fails does so for good. -/
theorem failsForGood_step (step : Step) : FailsForGood step.run := by
  rintro ⟨output, options, phase⟩ error after h
  cases step with
  | header mixedProperties =>
    cases phase with
    | idle => exact failsForGood_encode _ _ _ _ _ h
    | _ => exact failsForGood_fail _ _ _ _ h
  | keys keys =>
    cases phase with
    | writingKeys => exact failsForGood_encode _ _ _ _ _ h
    | _ => exact failsForGood_fail _ _ _ _ h
  | block block =>
    cases phase with
    | writingBlocks written count =>
      change (if written < count then encode _ _ else fail _ : Writer Unit) _ = _ at h
      split at h
      · exact failsForGood_encode _ _ _ _ _ h
      · exact failsForGood_fail _ _ _ _ h
    | _ => exact failsForGood_fail _ _ _ _ h
  | finish =>
    cases phase with
    | writingBlocks written count =>
      change (if written = count then encode _ _ else fail _ : Writer Unit) _ = _ at h
      split at h
      · exact failsForGood_encode _ _ _ _ _ h
      · exact failsForGood_fail _ _ _ _ h
    | _ => exact failsForGood_fail _ _ _ _ h

/-! ### A whole map is the sum of its steps -/

/-- One step and what follows it leave what the steps leave. -/
theorem left_bind {step : Step} {next : Unit → Writer Unit}
    (h : ∀ after, left (next () after) = runAll steps after) :
    left ((step.run >>= next) session) = runAll (step :: steps) session := by
  rw [runAll, List.foldl_cons]
  cases done : step.run session with
  | ok _ after =>
    rw [run_bind_of_ok done]
    exact h after
  | error error after =>
    rw [run_bind_of_error done]
    exact (runAll_of_failed (failsForGood_step step _ _ _ done)).symm

theorem left_blocks (blocks : List Block) (session : WriterSession) :
    left ((Writer.blocks blocks >>= fun _ => finish) session) =
      runAll (blocks.map .block ++ [.finish]) session := by
  induction blocks generalizing session with
  | nil => rfl
  | cons first rest ih =>
    have regroup : (Writer.blocks (first :: rest) >>= fun _ => finish) =
        (Step.block first).run >>= fun _ => Writer.blocks rest >>= fun _ => finish := by
      rw [Writer.blocks, bind_assoc]
      rfl
    rw [regroup]
    exact left_bind ih

/-- A call leaves the session that its steps leave. -/
theorem left_run (call : Call) (session : WriterSession) :
    left (call.run session) = runAll call.steps session := by
  cases call with
  | step single => rfl
  | map keys blocks mixedProperties =>
    have behind : ∀ session, left (((Step.keys keys).run >>= fun _ =>
        Writer.blocks blocks >>= fun _ => finish) session) =
        runAll (.keys keys :: (blocks.map .block ++ [.finish])) session :=
      fun _ => left_bind (left_blocks blocks)
    have whole : left (((Step.header mixedProperties).run >>= fun _ => (Step.keys keys).run >>=
        fun _ => Writer.blocks blocks >>= fun _ => finish) session) = _ := left_bind behind
    exact whole

/-- Every call that fails does so for good. -/
theorem failsForGood_call (call : Call) : FailsForGood call.run := by
  have all : ∀ blocks, FailsForGood (Writer.blocks blocks) := by
    intro blocks
    induction blocks with
    | nil =>
      rintro session error after ⟨⟩
    | cons first rest ih => exact (failsForGood_step (.block first)).bind ih
  cases call with
  | step single => exact failsForGood_step single
  | map keys blocks mixedProperties =>
    refine (failsForGood_step (.header mixedProperties)).bind ?_
    refine (failsForGood_step (.keys keys)).bind ?_
    exact (all blocks).bind (failsForGood_step .finish)

/-! ### Where a session stands -/

/-- Where a session stands after these steps: they were in turn and everything that they describe
has reached the sink, or the session has failed and the first bytes of it have. -/
inductive Stands (sink : Sink) (options : WriterOptions) : List Step → WriterSession → Prop
  | going {steps : List Step} {phase : WriterPhase} (turn : InTurn steps phase)
      (fits : sink.Fits (layout options steps))
      (flushed : phase = .done → sink.flushFails = false) :
      Stands sink options steps ⟨(Output.to sink).offer (layout options steps), options, phase⟩
  | failed {steps : List Step} {session : WriterSession} {sent : List UInt8}
      (failed : session.phase = .failed)
      (written : session.output.sink.written = sink.written ++ sent)
      (front : sent <+: layout options steps) : Stands sink options steps session

variable {phase next : WriterPhase} {step : Step} {data : List UInt8}
  {failure : Option ContainerError}

/-- A step in turn, which offers further bytes that it describes, all of them unless it fails. -/
theorem stands_of_offers (fits : sink.Fits (layout options steps))
    (offers : Offers step.run ⟨(Output.to sink).offer (layout options steps), options, phase⟩ data
      failure next)
    (front : layout options steps ++ data <+: layout options (steps ++ [step]))
    (whole : failure = none → layout options steps ++ data = layout options (steps ++ [step]) ∧
      InTurn (steps ++ [step]) next ∧ (next = .done → sink.flushFails = false)) :
    Stands sink options (steps ++ [step])
      (left (step.run ⟨(Output.to sink).offer (layout options steps), options, phase⟩)) := by
  let sent := sink.fitting (layout options steps ++ data)
  have front' : sent <+: layout options (steps ++ [step]) := Sink.fitting_front.trans front
  have written : ∀ after : Output, after.sink = (sink.after (layout options steps)).after data →
      after.sink.written = sink.written ++ sent := by
    intro after same
    rw [same, ← Sink.after_append, Sink.written_after]
  by_cases taken : ((Output.to sink).offer (layout options steps)).sink.Fits data
  · rw [offers.fits taken]
    cases failure with
    | some error => exact .failed rfl (written _ rfl) front'
    | none =>
      obtain ⟨all, turn, flushed⟩ := whole rfl
      have fits' : sink.Fits (layout options (steps ++ [step])) := by
        rw [← all]
        exact Sink.fits_append.mpr ⟨fits, taken⟩
      have stands := Stands.going turn fits' flushed
      rw [← all, ← Output.offer_offer] at stands
      exact stands
  · obtain ⟨after, full, same, failed⟩ := offers.full taken
    rw [full]
    exact .failed failed (written after.output same) front'

/-- A step in turn that writes pieces. -/
theorem stands_of_put {given : List Piece} (fits : sink.Fits (layout options steps))
    (run : step.run ⟨(Output.to sink).offer (layout options steps), options, phase⟩ =
      encode (Encoder.put options.order given) next
        ⟨(Output.to sink).offer (layout options steps), options, phase⟩)
    (described : layout options (steps ++ [step]) =
      layout options steps ++ Piece.allBytes options.order given)
    (turn : Piece.Fit given → InTurn (steps ++ [step]) next) (more : next ≠ .done) :
    Stands sink options (steps ++ [step])
      (left (step.run ⟨(Output.to sink).offer (layout options steps), options, phase⟩)) := by
  have offers := (offers_encode (Encoder.offers_put options.order given _)).congr run
  refine stands_of_offers fits offers ?_ fun none => ?_
  · rw [described]
    exact (List.prefix_append_right_inj _).mpr Piece.encodeAll_fst_front
  · have fit := (Piece.encodeAll_snd_eq_none_iff options.order).mp (Option.map_eq_none_iff.mp none)
    rw [Piece.encodeAll_fst fit, described]
    exact ⟨rfl, turn fit, fun done => absurd done more⟩

/-- A step out of turn. -/
theorem stands_of_refused {misuse : Misuse}
    (refused : step.run ⟨(Output.to sink).offer (layout options steps), options, phase⟩ =
      fail misuse ⟨(Output.to sink).offer (layout options steps), options, phase⟩) :
    Stands sink options (steps ++ [step])
      (left (step.run ⟨(Output.to sink).offer (layout options steps), options, phase⟩)) := by
  rw [refused]
  exact .failed rfl Sink.written_after (Sink.fitting_front.trans layout_front)

/-- After one more step, the session stands where the bytes of all arguments so far end. -/
theorem stands_step (stands : Stands sink options steps session) (step : Step) :
    Stands sink options (steps ++ [step]) (left (step.run session)) := by
  cases stands with
  | failed failed written front =>
    rw [show step.run session = _ from run_of_failed failed (.step step)]
    exact .failed failed written (front.trans layout_front)
  | going turn fits flushed =>
    cases turn with
    | idle =>
      cases step with
      | header mixedProperties =>
        refine stands_of_offers fits ((offers_encode (Encoder.offers_bytes _ _)).congr rfl)
          (List.prefix_refl _) fun _ => ⟨rfl, .writingKeys mixedProperties, ?_⟩
        rintro ⟨⟩
      | _ => exact stands_of_refused rfl
    | writingKeys mixedProperties =>
      cases step with
      | keys keys =>
        have none : ([] : List Block).length ≤ keys.count := Nat.zero_le _
        refine stands_of_put fits rfl ?_ (fun fit => ?_) (by rintro ⟨⟩)
        · have described := layout_blocks options mixedProperties none
          rw [pieces_nil] at described
          exact described
        · rw [← pieces_nil] at fit
          exact .writingBlocks mixedProperties none fit
      | _ => exact stands_of_refused rfl
    | @writingBlocks mixedProperties keys blocks few fit =>
      cases step with
      | block block =>
        have snoc : Step.header mixedProperties :: .keys keys :: blocks.map .block ++
            [.block block] =
              .header mixedProperties :: .keys keys :: (blocks ++ [block]).map .block := by
          simp
        by_cases next : blocks.length < keys.count
        · have few' : (blocks ++ [block]).length ≤ keys.count := by
            rw [List.length_append]
            exact next
          refine stands_of_put fits (block_of_lt next block) ?_ (fun fit' => ?_) (by rintro ⟨⟩)
          · rw [snoc, layout_blocks options mixedProperties few',
              layout_blocks options mixedProperties few, pieces_append, Piece.allBytes_append,
              List.append_assoc]
          · have turn := InTurn.writingBlocks mixedProperties few' (by
              rw [pieces_append]
              exact Piece.fit_append.mpr ⟨fit, fit'⟩)
            rw [List.length_append] at turn
            rw [snoc]
            exact turn
        · exact stands_of_refused (block_of_not_lt next block)
      | finish =>
        by_cases all : blocks.length = keys.count
        · have whole := layout_done options mixedProperties all
          rw [Header.enclose, ← layout_blocks options mixedProperties few] at whole
          have offers : Encoder.Offers _ ((Output.to sink).offer (layout options
              (.header mixedProperties :: .keys keys :: blocks.map .block))) _ _ :=
            Encoder.offers_finish (Header.of options.order .map options.checksum mixedProperties) rfl
          rw [Header.hasChecksum_of] at offers
          refine stands_of_offers fits ((offers_encode offers).congr (finish_of_eq all)) ?_
            fun none => ⟨whole.symm, .done mixedProperties all fit, fun _ => ?_⟩
          · exact whole ▸ List.prefix_refl _
          · exact Encoder.flushFailure_eq_none.mp none
        · exact stands_of_refused (finish_of_ne all)
      | _ => exact stands_of_refused rfl
    | done mixedProperties all fit =>
      cases step <;> exact stands_of_refused rfl

/-- So it does after any steps. -/
theorem stands_runAll (stands : Stands sink options steps session) (more : List Step) :
    Stands sink options (steps ++ more) (runAll more session) := by
  induction more generalizing steps session with
  | nil =>
    rw [List.append_nil]
    exact stands
  | cons step more ih =>
    have rest := ih (stands_step stands step)
    rw [List.append_assoc] at rest
    exact rest

/-! ### Any calls -/

/-- The session after some calls is the one after their steps. -/
theorem history_eq_runAll (calls : List Call) (session : WriterSession) :
    (history calls session).2 = runAll (calls.flatMap Call.steps) session := by
  induction calls generalizing session with
  | nil => rfl
  | cons call calls ih =>
    have behind : (history (call :: calls) session).2 =
        (history calls (left (call.run session))).2 := rfl
    rw [behind, ih, left_run, List.flatMap_cons, runAll, runAll, runAll, List.foldl_append]

/-- A failure is never made good by a later call. -/
theorem failed_of_told {calls : List Call} {error : ContainerError}
    (among : .error error ∈ (history calls session).1) :
    (history calls session).2.phase = .failed := by
  induction calls generalizing session with
  | nil => cases among
  | cons call calls ih =>
    rcases List.mem_cons.mp among with here | later
    · cases done : call.run session with
      | ok _ after =>
        rw [done] at here
        cases here
      | error _ after =>
        have failed := failsForGood_call call _ _ _ done
        have behind : (history (call :: calls) session).2 = (history calls after).2 := by
          rw [history, done]
          rfl
        rw [behind, history_eq_runAll, runAll_of_failed failed]
        exact failed
    · exact ih later

/-- What holds of a writer after some calls, of what the caller was told and of the session that is
left. -/
structure Whole (sink : Sink) (options : WriterOptions) (calls : List Call)
    (answers : List (Except ContainerError Unit)) (session : WriterSession) : Prop where
  /-- The sink holds the first bytes of the container that the arguments of the calls describe. -/
  front : ∃ sent, session.output.sink.written = sink.written ++ sent ∧
    sent <+: layout options (calls.flatMap Call.steps)
  /-- A writer that has not failed was called in turn, and all bytes that are described have
  reached the sink and the running checksum. -/
  going : session.phase ≠ .failed →
    InTurn (calls.flatMap Call.steps) session.phase ∧
    session.output.sink.written = sink.written ++ layout options (calls.flatMap Call.steps) ∧
    session.output.checksum = Checksum.start.update (layout options (calls.flatMap Call.steps))
  /-- A writer that is done has been given a header, keys, as many blocks and the end, its sink was
  flushed, and it has written what is written of a map of these keys and blocks. -/
  done : session.phase = .done → sink.flushFails = false ∧
    ∃ mixedProperties keys blocks,
      calls.flatMap Call.steps =
        .header mixedProperties :: .keys keys :: (blocks.map .block ++ [.finish]) ∧
      blocks.length = keys.count ∧
      layout options (calls.flatMap Call.steps) =
        (Header.of options.order .map options.checksum mixedProperties).enclose
          (Piece.allBytes options.order (pieces keys blocks)) ∧
      ∀ map, BlockMap.ofBlocks keys blocks mixedProperties = .ok map →
        map.write options .unlimited =
          (.holding (layout options (calls.flatMap Call.steps)), none)
  /-- A call that fails leaves a session that has failed. -/
  fails : ∀ call error after, Call.run call session = .error error after → after.phase = .failed
  /-- No failure has been made good. -/
  broken : ∀ error, .error error ∈ answers → session.phase = .failed
  /-- After a failure every call is refused, and nothing is written or changed. -/
  refused : session.phase = .failed → ∀ call : Call,
    call.run session = .error (.misuse (.writerCall call.name .failed)) session
  /-- The steps of whole maps, taken one by one, leave the same session. -/
  steps : session =
    (history ((calls.flatMap Call.steps).map .step) (.start sink options)).2

theorem Stands.front (stands : Stands sink options steps session) :
    ∃ sent, session.output.sink.written = sink.written ++ sent ∧ sent <+: layout options steps := by
  cases stands with
  | going turn fits flushed => exact ⟨_, Sink.written_after, Sink.fitting_front⟩
  | failed failed written front => exact ⟨_, written, front⟩

/-- As long as nothing has failed, the steps are in turn and the sink holds just what they lay out.
-/
theorem Stands.going_of_ne (stands : Stands sink options steps session)
    (going : session.phase ≠ .failed) :
    InTurn steps session.phase ∧
    session.output.sink.written = sink.written ++ layout options steps ∧
    session.output.checksum = Checksum.start.update (layout options steps) := by
  cases stands with
  | going turn fits flushed =>
    exact ⟨turn, Sink.written_after.trans (congrArg _ (Sink.fitting_of_fits fits)), rfl⟩
  | failed failed => exact absurd failed going

/-- A writer that is done has written what is written of the map of its keys and blocks. -/
theorem Stands.done_of_eq (stands : Stands sink options steps session)
    (done : session.phase = .done) :
    sink.flushFails = false ∧
    ∃ mixedProperties keys blocks,
      steps = .header mixedProperties :: .keys keys :: (blocks.map .block ++ [.finish]) ∧
      blocks.length = keys.count ∧
      layout options steps = (Header.of options.order .map options.checksum mixedProperties).enclose
        (Piece.allBytes options.order (pieces keys blocks)) ∧
      ∀ map, BlockMap.ofBlocks keys blocks mixedProperties = .ok map →
        map.write options .unlimited = (.holding (layout options steps), none) := by
  cases stands with
  | failed failed => exact absurd (failed.symm.trans done) (by decide)
  | going turn fits flushed =>
    cases done
    cases turn with
    | done mixedProperties all fit =>
      have described := layout_done options mixedProperties all
      refine ⟨flushed rfl, mixedProperties, _, _, rfl, all, described, fun map built => ?_⟩
      obtain ⟨count, _, rfl⟩ := BlockMap.ofBlocks_eq_ok_iff.mp built
      rw [described]
      exact (BlockMap.write_iff count options).mpr ⟨fit, rfl⟩

/-- **Whatever a writer is called for**, its sink holds the first bytes of the container that the
calls describe, it is done only behind a whole container, and it fails for good. -/
theorem whole_history (sink : Sink) (options : WriterOptions) (calls : List Call) :
    Whole sink options calls (history calls (.start sink options)).1
      (history calls (.start sink options)).2 := by
  have start : Stands sink options [] ⟨(Output.to sink).offer [], options, .idle⟩ :=
    .going .idle Sink.fits_nil fun done => by cases done
  rw [Output.offer_nil] at start
  have stands := stands_runAll start (calls.flatMap Call.steps)
  rw [List.nil_append, ← history_eq_runAll] at stands
  exact {
    front := stands.front
    going := stands.going_of_ne
    done := stands.done_of_eq
    fails := fun call error after failed => failsForGood_call call _ _ _ failed
    broken := fun error among => failed_of_told among
    refused := run_of_failed
    steps := by
      have single : ∀ steps : List Step, (steps.map Call.step).flatMap Call.steps = steps := by
        intro steps
        induction steps with
        | nil => rfl
        | cons step steps ih => rw [List.map_cons, List.flatMap_cons, ih, Call.steps]; rfl
      rw [history_eq_runAll, history_eq_runAll, single]
  }

end LabeledBlocks.Writer
