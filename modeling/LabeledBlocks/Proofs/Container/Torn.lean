import LabeledBlocks.Proofs.Container.Exact
import LabeledBlocks.Proofs.Container.RoundTrip
import LabeledBlocks.Proofs.Container.Sinks

/-!
# Torn writes

When a sink is full before a container is complete, the write fails, and the sink holds as many of
the first bytes as there was room for. Whatever was to be written, nothing is read from less.

* `Encoder.offers_container`, `Writer.offers_map` — what is offered by whole containers.
* `Torn` — a write to a sink of any size, and what can be read of it.
* `torn_write` — labels, blocks and maps are written so.
-/

namespace LabeledBlocks

def Sink.ofRoom (room : Nat) : Sink :=
  ⟨[], some room, false⟩

theorem Output.checksum_offer (output : Output) (data : List UInt8) :
    (output.offer data).checksum = output.checksum.update data :=
  rfl

namespace Encoder

/-- What a header and fitting pieces enclose is offered as a whole. -/
theorem offers_enclosed (header : Header) {content : List Piece} (fit : Piece.Fit content)
    (sink : Sink) :
    Offers (do
        Encoder.header header
        put header.order content
        finish header.order header.hasChecksum) (.to sink)
      (header.enclose (Piece.allBytes header.order content)) (flushFailure sink) := by
  have before : (((Output.to sink).offer header.bytes).offer
      (Piece.allBytes header.order content)).checksum =
        Checksum.start.update (header.bytes ++ Piece.allBytes header.order content) := by
    rw [Output.checksum_offer, Output.checksum_offer, Output.to, Checksum.update_append]
  rw [Header.enclose, List.append_assoc]
  refine (offers_bytes _ _).bind ((offers_put_of_fit fit _ _).bind ?_)
  exact offers_finish header before

/-- A container whose pieces fit is offered as a whole. -/
theorem offers_container (options : WriterOptions) (kind : ContainerKind) {content : List Piece}
    (fit : Piece.Fit content) (sink : Sink) :
    Offers (container options kind content) (.to sink)
      ((Header.of options.order kind options.checksum false).enclose
        (Piece.allBytes options.order content)) (flushFailure sink) := by
  have offers := offers_enclosed (Header.of options.order kind options.checksum false) fit sink
  rw [Header.hasChecksum_of] at offers
  exact offers

end Encoder

/-! ### Maps -/

namespace Writer

variable {output : Output} {options : WriterOptions}

/-- Fitting blocks are offered one after the other, as long as there are blocks to come. -/
theorem offers_blocks {blocks : List Block} (fit : Piece.Fit (blocks.flatMap Block.layout))
    {written count : Nat} (few : written + blocks.length ≤ count) :
    Offers (Writer.blocks blocks) ⟨output, options, .writingBlocks written count⟩
      (Piece.allBytes options.order (blocks.flatMap Block.layout)) none
      (.writingBlocks (written + blocks.length) count) := by
  induction blocks generalizing output written with
  | nil => exact .last rfl
  | cons first rest ih =>
    rw [List.length_cons, Nat.add_comm rest.length, ← Nat.add_assoc] at few ⊢
    rw [List.flatMap_cons, Piece.fit_append] at fit
    rw [List.flatMap_cons, Piece.allBytes_append]
    have next : written < count := by omega
    have here : Offers (Writer.block first) ⟨output, options, .writingBlocks written count⟩ _ none _ :=
      (offers_encode (Encoder.offers_put_of_fit fit.1 options.order output)).congr
        (block_of_lt next first)
    exact here.bind (ih fit.2 few)

theorem offers_finish {written count : Nat} (all : written = count) (header : Header)
    (same : header.order = options.order ∧ header.hasChecksum = options.checksum)
    {body : List UInt8} (before : output.checksum = Checksum.start.update body) :
    Offers finish ⟨output, options, .writingBlocks written count⟩ (header.trailer body)
      (Encoder.flushFailure output.sink) .done := by
  have ended := Encoder.offers_finish header before
  rw [same.1, same.2] at ended
  exact (offers_encode ended).congr (finish_of_eq all)

/-- A whole map whose pieces fit is offered as a whole. -/
theorem offers_map {map : BlockMap} (count : map.keys.count = map.blocks.length)
    (options : WriterOptions) (fit : Piece.Fit map.layout) (sink : Sink) :
    Offers (Writer.map map.keys map.blocks map.mixedProperties) (.start sink options)
      ((Header.of options.order .map options.checksum map.mixedProperties).enclose
        (Piece.allBytes options.order map.layout)) (Encoder.flushFailure sink) .done := by
  rw [BlockMap.layout, Piece.fit_append] at fit
  rw [BlockMap.layout, Piece.allBytes_append, WriterSession.start]
  obtain ⟨header, isHeader⟩ : ∃ header, header =
      Header.of options.order .map options.checksum map.mixedProperties := ⟨_, rfl⟩
  have same : header.order = options.order ∧ header.hasChecksum = options.checksum := by
    rw [isHeader]
    exact ⟨rfl, Header.hasChecksum_of ..⟩
  have all : 0 + map.blocks.length = map.keys.count := by omega
  have headed : Offers (Writer.header map.mixedProperties) ⟨.to sink, options, .idle⟩ header.bytes
      none .writingKeys := by
    rw [isHeader]
    exact (offers_encode (Encoder.offers_bytes _ _)).congr rfl
  have keyed : ∀ output, Offers (Writer.keys map.keys) ⟨output, options, .writingKeys⟩
      (Piece.allBytes options.order (keyLayout map.keys)) none
      (.writingBlocks 0 map.keys.count) := fun output =>
    (offers_encode (Encoder.offers_put_of_fit fit.1 options.order output)).congr rfl
  have blocked : ∀ output, Offers (Writer.blocks map.blocks)
      ⟨output, options, .writingBlocks 0 map.keys.count⟩
      (Piece.allBytes options.order (map.blocks.flatMap Block.layout)) none
      (.writingBlocks (0 + map.blocks.length) map.keys.count) := fun output =>
    offers_blocks fit.2 (Nat.le_of_eq all)
  rw [← isHeader, Header.enclose]
  generalize Piece.allBytes options.order (keyLayout map.keys) = keyBytes at *
  generalize Piece.allBytes options.order (map.blocks.flatMap Block.layout) = blockBytes at *
  have before : ((((Output.to sink).offer header.bytes).offer keyBytes).offer blockBytes).checksum =
      Checksum.start.update (header.bytes ++ (keyBytes ++ blockBytes)) := by
    simp only [Output.checksum_offer, Output.to, Checksum.update_append, List.append_assoc]
  rw [List.append_assoc, List.append_assoc]
  exact headed.bind ((keyed _).bind ((blocked _).bind (offers_finish all header same before)))

end Writer

/-! ### What is left of a write that did not fit -/

/-- A write of these bytes to a sink with so much room. It succeeds when there is room for all of
them. Otherwise it fails, the sink holds the first of them, and nothing can be read from it. -/
structure Torn {α : Type} (write : Sink → Sink × Option ContainerError) (read : Decoder α)
    (whole : List UInt8) (room : Nat) : Prop where
  succeeds : (write (.ofRoom room)).2 = none ↔ whole.length ≤ room
  complete : whole.length ≤ room → (write (.ofRoom room)).1.written = whole
  torn : room < whole.length →
    (write (.ofRoom room)).2 = some (.transfer .sinkFull) ∧
    (write (.ofRoom room)).1.written = whole.take room ∧
    ∀ source : Feed, source.bytes = (write (.ofRoom room)).1.written →
      ∃ error after, read source = .error error after

theorem Sink.fits_ofRoom {room : Nat} {data : List UInt8} :
    (Sink.ofRoom room).Fits data ↔ data.length ≤ room := by
  rw [Sink.fits_iff]
  exact ⟨fun fits => fits room rfl, fun fits _ same => by cases same; exact fits⟩

theorem Sink.written_ofRoom (room : Nat) (data : List UInt8) :
    ((Sink.ofRoom room).after data).written = data.take room := by
  rw [Sink.written_after]
  rfl

/-- What is offered as a whole, and read from nothing less, is torn where it does not fit. -/
theorem torn_of_exact {α : Type} {write : Sink → Sink × Option ContainerError} {read : Decoder α}
    {whole : List UInt8} {P : α → Prop} {room : Nat}
    (fits : (Sink.ofRoom room).Fits whole → write (.ofRoom room) = ((Sink.ofRoom room).after whole, none))
    (full : ¬(Sink.ofRoom room).Fits whole →
      write (.ofRoom room) = ((Sink.ofRoom room).after whole, some (.transfer .sinkFull)))
    (exact : read.Exact whole P) : Torn write read whole room := by
  rw [Sink.fits_ofRoom] at fits full
  refine ⟨⟨fun done => ?_, fun enough => by rw [fits enough]⟩, fun enough => ?_, fun short => ?_⟩
  · by_contra short
    rw [full short] at done
    cases done
  · rw [fits enough, Sink.written_ofRoom, List.take_of_length_le enough]
  · rw [full (Nat.not_le.mpr short), Sink.written_ofRoom]
    refine ⟨rfl, rfl, fun source same => exact.fails ?_ ?_⟩
    · rw [same]
      exact List.take_prefix _ _
    · rw [same, List.length_take]
      omega

/-- A container that is written to a sink with too little room is torn. -/
theorem torn_container {options : WriterOptions} {kind : ContainerKind} {content : List Piece}
    {α β : Type} {decoder : ByteOrder → Decoder β} {build : Header → β → Except Error α}
    {whole : Sink}
    (written : (Encoder.container options kind content).run .unlimited = (whole, none))
    (exact : Piece.Fit content → (decoder options.order).Exact
      (Piece.allBytes options.order content) fun _ => True) (verify : Bool) (room : Nat) :
    Torn (Encoder.container options kind content).run
      (Decoder.container kind decoder build verify) whole.written room := by
  obtain ⟨fit, rfl⟩ := Encoder.run_container_iff.mp written
  rw [Sink.written_holding]
  have offers := Encoder.offers_container options kind fit (.ofRoom room)
  have read : (decoder (Header.of options.order kind options.checksum false).order).Exact _ _ :=
    exact fit
  refine torn_of_exact (fun fits => ?_) (fun full => ?_) (Decoder.exact_container read verify)
  · unfold Encoder.run
    rw [offers.fits fits]
    rfl
  · obtain ⟨after, failed, same⟩ := offers.full full
    unfold Encoder.run
    rw [failed]
    exact congrArg (·, _) same

/-- **A torn write never loads.** Whatever the labels, the block or the map, a write to a sink with
too little room fails, leaves the first bytes that would have been written, and nothing is read from
them, whether or not the checksum is compared. -/
theorem torn_write (options : WriterOptions) (verify : Bool) (room : Nat) :
    (∀ (labels : Labels) (whole : Sink), labels.Regular → labels.Counted →
      labels.write options .unlimited = (whole, none) →
      Torn (labels.write options) (Labels.read verify) whole.written room) ∧
    (∀ (block : Block) (whole : Sink), block.Sound → block.Labelled Labels.Counted →
      block.write options .unlimited = (whole, none) →
      Torn (block.write options) (Block.read verify) whole.written room) ∧
    (∀ (map : BlockMap) (whole : Sink) (allocator : Allocator), map.Sound →
      map.Labelled Labels.Counted →
      map.write options .unlimited = (whole, none) →
      Torn (map.write options) (BlockMap.readWith allocator verify) whole.written room) := by
  refine ⟨?_, ?_, ?_⟩
  · intro labels whole regular counted written
    rw [Labels.read_eq]
    exact torn_container written (Decoder.exact_labels options.order regular counted) verify room
  · intro block whole sound counted written
    rw [Block.read_eq]
    exact torn_container written (Decoder.exact_block Allocator.zeros options.order sound counted)
      verify room
  · intro map whole allocator sound counted written
    obtain ⟨fit, rfl⟩ := (BlockMap.write_iff sound.consistent.count options).mp written
    rw [Sink.written_holding, BlockMap.readWith_eq]
    have offers := Writer.offers_map sound.consistent.count options fit (.ofRoom room)
    refine torn_of_exact (fun fits => ?_) (fun full => ?_)
      (Decoder.exact_container (Decoder.exact_mapContent allocator _ sound counted fit) verify)
    · unfold BlockMap.write
      rw [offers.fits fits]
      rfl
    · obtain ⟨after, failed, same, _⟩ := offers.full full
      unfold BlockMap.write
      rw [failed]
      exact congrArg (·, _) same

/-- Chains of gradients that are too deep to be read, cut off inside the first block. -/
theorem chained_torn :
    ∃ whole, (chainedMap (maxGradientDepth + 1)).write ⟨.little, true⟩ .unlimited = (whole, none) ∧
      100 < whole.written.length ∧
      Torn ((chainedMap (maxGradientDepth + 1)).write ⟨.little, true⟩) (BlockMap.read true)
        whole.written 100 := by
  have written := @write_chainedMap ⟨.little, true⟩ (maxGradientDepth + 1) (by decide +kernel)
  have consistent : (chainedMap (maxGradientDepth + 1)).Consistent := by decide
  have valid : (chainedMap (maxGradientDepth + 1)).Labelled Labels.Valid := by decide
  have sound : (chainedMap (maxGradientDepth + 1)).Sound :=
    ⟨consistent, valid.keys.toRegular, fun block member =>
      .of_consistent (consistent.blocks block member) (valid.blocks block member).regular⟩
  refine ⟨_, written, ?_, ((torn_write _ _ _).2.2 _ _ Allocator.zeros sound (by decide) written)⟩
  rw [Sink.written_holding]
  decide +kernel

end LabeledBlocks
