import LabeledBlocks.Container.Whole
import LabeledBlocks.Proofs.Container.Contents

/-!
# Writing to a sink without a limit

A sink with room for everything takes in all that is written to it, so that a container is written
exactly when all its lengths fit. What the sink holds then is the header, the bytes of the layout
and, if asked for, the checksum of both.

* `Encoder.put_eq_ok_iff` — pieces are written when all of them fit.
* `Encoder.run_container_iff` — what a sink holds after a container was written to it.
* `BlockMap.write_iff` — the same for a map, which is written step by step.
-/

namespace LabeledBlocks

/-! ### What was written -/

/-- Takes in everything, and never fails. -/
def Sink.Unlimited (sink : Sink) : Prop :=
  sink.room = none ∧ sink.flushFails = false

def Sink.holding (bytes : List UInt8) : Sink :=
  { Sink.unlimited with taken := bytes.reverse }

theorem Sink.written_holding (bytes : List UInt8) : (Sink.holding bytes).written = bytes := by
  simp [holding, written]

def Output.add (output : Output) (data : List UInt8) : Output :=
  ⟨{ output.sink with taken := data.reverse ++ output.sink.taken }, output.checksum.update data⟩

namespace Output

variable {output : Output} {data more : List UInt8}

theorem unlimited_add (unlimited : output.sink.Unlimited) : (output.add data).sink.Unlimited :=
  unlimited

theorem add_add : (output.add data).add more = output.add (data ++ more) := by
  simp [add, Checksum.update_append]

theorem sink_to_add : ((Output.to .unlimited).add data).sink = .holding data := by
  simp [add, Output.to, Sink.holding, Sink.unlimited]

end Output

namespace Header

/-- The bytes behind a header and its content: their checksum, if the header announces one. -/
def trailer (header : Header) (body : List UInt8) : List UInt8 :=
  if header.hasChecksum then header.order.bytes 4 (Checksum.of body).toNat else []

def enclose (header : Header) (content : List UInt8) : List UInt8 :=
  (header.bytes ++ content) ++ header.trailer (header.bytes ++ content)

theorem hasChecksum_of (order : ByteOrder) (kind : ContainerKind) (checksum mixed : Bool) :
    (Header.of order kind checksum mixed).hasChecksum = checksum := by
  have flag : ∀ checksum mixed : Bool, ((if mixed then mixedFlag else 0) |||
      (if checksum then checksumFlag else 0)) &&& checksumFlag ≠ 0 ↔ checksum = true := by
    decide
  rw [Bool.eq_iff_iff, hasChecksum, decide_eq_true_iff]
  exact flag checksum mixed

theorem mixedProperties_of (order : ByteOrder) (kind : ContainerKind) (checksum mixed : Bool) :
    (Header.of order kind checksum mixed).mixedProperties = mixed := by
  have flag : ∀ checksum mixed : Bool, ((if mixed then mixedFlag else 0) |||
      (if checksum then checksumFlag else 0)) &&& mixedFlag ≠ 0 ↔ mixed = true := by
    decide
  rw [Bool.eq_iff_iff, mixedProperties, decide_eq_true_iff]
  exact flag checksum mixed

end Header

/-! ### Encoders -/

namespace Encoder

variable {output after : Output}

theorem bytes_unlimited (unlimited : output.sink.Unlimited) (data : List UInt8) :
    Encoder.bytes data output = .ok () (output.add data) := by
  obtain ⟨⟨taken, room, flush⟩, checksum⟩ := output
  obtain ⟨rfl, rfl⟩ := unlimited
  simp [Encoder.bytes, Sink.accept, Sink.fitting, Output.add]

/-- Pieces are written when all of them fit. -/
theorem put_eq_ok_iff (unlimited : output.sink.Unlimited) (order : ByteOrder)
    {pieces : List Piece} :
    put order pieces output = .ok () after ↔
      Piece.Fit pieces ∧ after = output.add (Piece.allBytes order pieces) := by
  have written := bytes_unlimited unlimited (Piece.encodeAll order pieces).1
  rw [← Piece.encodeAll_snd_eq_none_iff order]
  cases excess : (Piece.encodeAll order pieces).2 with
  | some n =>
    have failed : put order pieces output =
        .error (.misuse (.lengthTooLarge n)) (output.add (Piece.encodeAll order pieces).1) := by
      simp only [put, excess, bind, EStateM.bind, written]
      rfl
    simp [failed]
  | none =>
    have fit := (Piece.encodeAll_snd_eq_none_iff order).mp excess
    have done : put order pieces output = .ok () (output.add (Piece.allBytes order pieces)) := by
      rw [Piece.encodeAll_fst fit] at written
      simp only [put, excess, Piece.encodeAll_fst fit, bind, EStateM.bind, written]
      rfl
    simp [done, eq_comm]

/-- The end writes the checksum of all that was written before it. -/
theorem finish_unlimited (unlimited : output.sink.Unlimited) (header : Header)
    {body : List UInt8} (written : output.checksum = Checksum.start.update body) :
    finish header.order header.hasChecksum output = .ok () (output.add (header.trailer body)) := by
  have flushed : ∀ data, (output.add data).sink.flushFails = false := fun _ => unlimited.2
  cases asked : header.hasChecksum with
  | false =>
    have nothing : output.add [] = output := rfl
    have flushes : output.sink.flushFails = false := unlimited.2
    simp [finish, Header.trailer, asked, nothing, bind, EStateM.bind, run_get, flushes, pure,
      EStateM.pure]
  | true =>
    have sum : output.checksum.value = Checksum.of body := by rw [written, Checksum.of]
    simp [finish, Header.trailer, asked, bind, EStateM.bind, run_get, bytes_unlimited unlimited,
      sum, flushed, pure, EStateM.pure]

/-- Behind a header and some pieces the end is written, if the pieces fit. -/
theorem container_eq_ok_iff {options : WriterOptions} {kind : ContainerKind}
    {content : List Piece} :
    container options kind content (.to .unlimited) = .ok () after ↔
      Piece.Fit content ∧
        after = (Output.to .unlimited).add
          ((Header.of options.order kind options.checksum false).enclose
            (Piece.allBytes options.order content)) := by
  let header := Header.of options.order kind options.checksum false
  let start := Output.to .unlimited
  have unlimited : start.sink.Unlimited := ⟨rfl, rfl⟩
  have headed : Encoder.header header start = .ok () (start.add header.bytes) :=
    bytes_unlimited unlimited _
  have finished : ∀ body, finish options.order options.checksum (start.add body) =
      .ok () ((start.add body).add (header.trailer body)) := by
    intro body
    have checksum : header.hasChecksum = options.checksum := Header.hasChecksum_of ..
    rw [← checksum]
    exact finish_unlimited (Output.unlimited_add unlimited) header rfl
  unfold container
  rw [run_check_bind_eq_ok]
  constructor
  · rintro ⟨_, begun, rest⟩
    obtain ⟨_, rfl⟩ := EStateM.Result.ok.inj (begun.symm.trans headed)
    obtain ⟨_, put, ended⟩ := run_check_bind_eq_ok.mp rest
    obtain ⟨fit, rfl⟩ := (put_eq_ok_iff (Output.unlimited_add unlimited) _).mp put
    rw [Output.add_add, finished, EStateM.Result.ok.injEq, Output.add_add] at ended
    exact ⟨fit, ended.2.symm⟩
  · rintro ⟨fit, rfl⟩
    have headUnlimited : (start.add header.bytes).sink.Unlimited := unlimited
    have placed := (put_eq_ok_iff headUnlimited options.order).mpr ⟨fit, rfl⟩
    refine ⟨_, headed, run_check_bind_eq_ok.mpr ⟨_, placed, ?_⟩⟩
    rw [Output.add_add, finished, Output.add_add]
    rfl

/-- A run without a failure leaves its sink. -/
theorem run_eq_iff {encoder : Encoder Unit} {sink after : Sink} :
    encoder.run sink = (after, none) ↔
      ∃ output, encoder (.to sink) = .ok () output ∧ output.sink = after := by
  cases h : encoder (.to sink) with
  | ok _ output => simp [run, h]
  | error e output => simp [run, h]

/-- A container is written to a buffer when all its pieces fit. -/
theorem run_container_iff {options : WriterOptions} {kind : ContainerKind} {content : List Piece}
    {sink : Sink} :
    (container options kind content).run .unlimited = (sink, none) ↔
      Piece.Fit content ∧
        sink = .holding ((Header.of options.order kind options.checksum false).enclose
          (Piece.allBytes options.order content)) := by
  rw [run_eq_iff]
  constructor
  · rintro ⟨output, done, rfl⟩
    obtain ⟨fit, rfl⟩ := container_eq_ok_iff.mp done
    exact ⟨fit, Output.sink_to_add⟩
  · rintro ⟨fit, rfl⟩
    exact ⟨_, container_eq_ok_iff.mpr ⟨fit, rfl⟩, Output.sink_to_add⟩

end Encoder

/-! ### Writers -/

namespace Writer

variable {session after : WriterSession}

theorem encode_eq_ok_iff {encoder : Encoder Unit} {next : WriterPhase} :
    encode encoder next session = .ok () after ↔
      ∃ output, encoder session.output = .ok () output ∧
        after = { session with output, phase := next } := by
  cases h : encoder session.output with
  | ok _ output => simp [encode, h, eq_comm]
  | error e output => simp [encode, h]

/-- Pieces are written by a writer when all of them fit. -/
theorem encode_put_iff (unlimited : session.output.sink.Unlimited) {order : ByteOrder}
    {pieces : List Piece} {next : WriterPhase} :
    encode (Encoder.put order pieces) next session = .ok () after ↔
      Piece.Fit pieces ∧
        after = { session with
          output := session.output.add (Piece.allBytes order pieces), phase := next } := by
  rw [encode_eq_ok_iff]
  constructor
  · rintro ⟨output, done, rfl⟩
    obtain ⟨fit, rfl⟩ := (Encoder.put_eq_ok_iff unlimited order).mp done
    exact ⟨fit, rfl⟩
  · rintro ⟨fit, rfl⟩
    exact ⟨_, (Encoder.put_eq_ok_iff unlimited order).mpr ⟨fit, rfl⟩, rfl⟩

variable {sink : Sink} {output : Output} {options : WriterOptions}

theorem header_idle (mixed : Bool) (unlimited : output.sink.Unlimited) :
    header mixed ⟨output, options, .idle⟩ =
      .ok () ⟨output.add (Header.of options.order .map options.checksum mixed).bytes, options,
        .writingKeys⟩ :=
  encode_eq_ok_iff.mpr ⟨_, Encoder.bytes_unlimited unlimited _, rfl⟩

theorem block_of_lt {written count : Nat} (next : written < count) (block : Block) :
    Writer.block block ⟨output, options, .writingBlocks written count⟩ =
      encode (Encoder.put options.order block.layout) (.writingBlocks (written + 1) count)
        ⟨output, options, .writingBlocks written count⟩ := by
  simp [Writer.block, bind, EStateM.bind, run_get, next]

theorem block_of_not_lt {written count : Nat} (last : ¬written < count) (block : Block) :
    Writer.block block ⟨output, options, .writingBlocks written count⟩ =
      fail (.allBlocksWritten count) ⟨output, options, .writingBlocks written count⟩ := by
  simp [Writer.block, bind, EStateM.bind, run_get, last]

theorem finish_of_eq {written count : Nat} (all : written = count) :
    finish ⟨output, options, .writingBlocks written count⟩ =
      encode (Encoder.finish options.order options.checksum) .done
        ⟨output, options, .writingBlocks written count⟩ := by
  simp [finish, bind, EStateM.bind, run_get, all]

theorem finish_of_ne {written count : Nat} (missing : written ≠ count) :
    finish ⟨output, options, .writingBlocks written count⟩ =
      fail (.blocksMissing written count) ⟨output, options, .writingBlocks written count⟩ := by
  simp [finish, bind, EStateM.bind, run_get, missing]

/-- Every block is written if its pieces fit, as long as there are blocks to come. -/
theorem blocks_eq_ok_iff (options : WriterOptions) {written count : Nat} {blocks : List Block}
    (unlimited : output.sink.Unlimited) (few : written + blocks.length ≤ count) :
    Writer.blocks blocks ⟨output, options, .writingBlocks written count⟩ = .ok () after ↔
      Piece.Fit (blocks.flatMap Block.layout) ∧
        after = ⟨output.add (Piece.allBytes options.order (blocks.flatMap Block.layout)), options,
          .writingBlocks (written + blocks.length) count⟩ := by
  induction blocks generalizing output written with
  | nil =>
    have done : Writer.blocks [] ⟨output, options, .writingBlocks written count⟩ =
        .ok () ⟨output, options, .writingBlocks written count⟩ := rfl
    have nothing : output.add (Piece.allBytes options.order []) = output := rfl
    simp [done, nothing, Piece.Fit, eq_comm]
  | cons first rest ih =>
    rw [List.length_cons] at few
    have next : written < count := by omega
    have few' : written + 1 + rest.length ≤ count := by omega
    have length : written + 1 + rest.length = written + (rest.length + 1) := by omega
    rw [List.flatMap_cons, Piece.fit_append, Piece.allBytes_append, Writer.blocks,
      run_check_bind_eq_ok, List.length_cons, and_assoc, ← length, ← Output.add_add,
      ← ih (Output.unlimited_add unlimited) few']
    constructor
    · rintro ⟨middle, begun, ended⟩
      rw [block_of_lt next] at begun
      obtain ⟨fit, rfl⟩ := (encode_put_iff unlimited).mp begun
      exact ⟨fit, ended⟩
    · rintro ⟨fit, ended⟩
      refine ⟨_, ?_, ended⟩
      rw [block_of_lt next]
      exact (encode_put_iff unlimited).mpr ⟨fit, rfl⟩

theorem finish_last {written : Nat} (unlimited : output.sink.Unlimited) {kind : ContainerKind}
    {mixed : Bool} {body : List UInt8} (before : output.checksum = Checksum.start.update body) :
    finish ⟨output, options, .writingBlocks written written⟩ =
      .ok () ⟨output.add ((Header.of options.order kind options.checksum mixed).trailer body),
        options, .done⟩ := by
  have finished := Encoder.finish_unlimited unlimited
    (Header.of options.order kind options.checksum mixed) before
  rw [Header.hasChecksum_of] at finished
  rw [finish_of_eq rfl]
  exact encode_eq_ok_iff.mpr ⟨_, finished, rfl⟩

end Writer

namespace BlockMap

def layout (map : BlockMap) : List Piece :=
  Writer.keyLayout map.keys ++ map.blocks.flatMap Block.layout

/-- A writer takes a whole map when all its pieces fit. -/
theorem writer_map_eq_ok_iff {map : BlockMap} (count : map.keys.count = map.blocks.length)
    {options : WriterOptions} {after : WriterSession} :
    Writer.map map.keys map.blocks map.mixedProperties (.start .unlimited options) =
        .ok () after ↔
      Piece.Fit map.layout ∧
        after = ⟨(Output.to .unlimited).add
          ((Header.of options.order .map options.checksum map.mixedProperties).enclose
            (Piece.allBytes options.order map.layout)), options, .done⟩ := by
  let header := Header.of options.order .map options.checksum map.mixedProperties
  let start := Output.to .unlimited
  have unlimited : start.sink.Unlimited := ⟨rfl, rfl⟩
  have headUnlimited : (start.add header.bytes).sink.Unlimited := unlimited
  have keysUnlimited : ∀ keys, ((start.add header.bytes).add keys).sink.Unlimited :=
    fun _ => unlimited
  have few : 0 + map.blocks.length ≤ map.keys.count := by omega
  have all : 0 + map.blocks.length = map.keys.count := by omega
  have headed : Writer.header map.mixedProperties (.start .unlimited options) =
      .ok () ⟨start.add header.bytes, options, .writingKeys⟩ := Writer.header_idle _ unlimited
  have keyed : ∀ {output : Output} {after : WriterSession}, output.sink.Unlimited →
      (Writer.keys map.keys ⟨output, options, .writingKeys⟩ = .ok () after ↔
        Piece.Fit (Writer.keyLayout map.keys) ∧
          after = ⟨output.add (Piece.allBytes options.order (Writer.keyLayout map.keys)),
            options, .writingBlocks 0 map.keys.count⟩) :=
    fun unlimited => Writer.encode_put_iff unlimited
  have finished : ∀ body, Writer.finish ⟨start.add body, options,
        .writingBlocks map.keys.count map.keys.count⟩ =
      .ok () ⟨(start.add body).add (header.trailer body), options, .done⟩ := fun body =>
    Writer.finish_last (Output.unlimited_add unlimited) rfl
  have body : ∀ keys blocks : List UInt8, ((start.add header.bytes).add keys).add blocks =
      start.add (header.bytes ++ (keys ++ blocks)) := by
    intro keys blocks
    rw [Output.add_add, Output.add_add]
  rw [layout, Piece.fit_append, Piece.allBytes_append]
  unfold Writer.map
  constructor
  · intro done
    obtain ⟨_, begun, done⟩ := run_check_bind_eq_ok.mp done
    obtain ⟨_, rfl⟩ := EStateM.Result.ok.inj (begun.symm.trans headed)
    obtain ⟨_, begun, done⟩ := run_check_bind_eq_ok.mp done
    obtain ⟨keysFit, rfl⟩ := (keyed headUnlimited).mp begun
    obtain ⟨_, begun, done⟩ := run_check_bind_eq_ok.mp done
    obtain ⟨blocksFit, rfl⟩ := (Writer.blocks_eq_ok_iff options (keysUnlimited _) few).mp begun
    rw [all, body, finished, Output.add_add] at done
    exact ⟨⟨keysFit, blocksFit⟩, (EStateM.Result.ok.inj done).2.symm⟩
  · rintro ⟨⟨keysFit, blocksFit⟩, rfl⟩
    have keysDone := (keyed headUnlimited).mpr ⟨keysFit, rfl⟩
    have keysWritten := keysUnlimited (Piece.allBytes options.order (Writer.keyLayout map.keys))
    have blocksDone := (Writer.blocks_eq_ok_iff options keysWritten few).mpr
      ⟨blocksFit, rfl⟩
    refine run_check_bind_eq_ok.mpr ⟨_, headed, ?_⟩
    refine run_check_bind_eq_ok.mpr ⟨_, keysDone, ?_⟩
    refine run_check_bind_eq_ok.mpr ⟨_, blocksDone, ?_⟩
    rw [all, body, finished, Output.add_add]
    rfl

/-- A map is written to a buffer when all its pieces fit. -/
theorem write_iff {map : BlockMap} (count : map.keys.count = map.blocks.length)
    (options : WriterOptions) {sink : Sink} :
    map.write options .unlimited = (sink, none) ↔
      Piece.Fit map.layout ∧
        sink = .holding ((Header.of options.order .map options.checksum map.mixedProperties).enclose
          (Piece.allBytes options.order map.layout)) := by
  have opened : map.write options .unlimited = (sink, none) ↔
      ∃ after, Writer.map map.keys map.blocks map.mixedProperties (.start .unlimited options) =
        .ok () after ∧ after.output.sink = sink := by
    unfold write
    cases Writer.map map.keys map.blocks map.mixedProperties (.start .unlimited options) with
    | ok _ after => simp
    | error e after => simp
  rw [opened]
  constructor
  · rintro ⟨after, done, rfl⟩
    obtain ⟨fit, rfl⟩ := (writer_map_eq_ok_iff count).mp done
    exact ⟨fit, Output.sink_to_add⟩
  · rintro ⟨fit, rfl⟩
    exact ⟨_, (writer_map_eq_ok_iff count).mpr ⟨fit, rfl⟩, Output.sink_to_add⟩

end BlockMap

end LabeledBlocks
