import LabeledBlocks.Proofs.BlockMap.Consistent
import LabeledBlocks.Proofs.Container.Enclosed
import LabeledBlocks.Proofs.Container.Kinds

/-!
# Reading back what was written

Labels, blocks and block maps are read back from the bytes of their containers, whatever follows
these and whether or not the checksum is compared. There is one exception: gradients that are
nested too deeply are written but not read.

* `BlockMap.Rereadable.read_enclosed`, `BlockMap.read_refuses` — maps that are read back, and those
  that are not.
* `read_written` — the round trip of containers of all kinds.
-/

namespace LabeledBlocks

/-! ### The steps of a reader -/

namespace Reader

variable {feed : Feed} (verify : Bool) {header : Header} {keys : Labels} {rest : List UInt8}

/-- The state in front of the block at a position. -/
abbrev before (header : Header) (keys : Labels) (verify : Bool) (next : Nat) (feed : Feed) :
    ReaderSession :=
  ⟨feed, verify, Allocator.zeros, .readingBlocks header keys next⟩

/-- A session reads the header first. -/
theorem header_idle (readable : header.check .map = .ok ())
    (start : feed.bytes = header.bytes ++ rest) :
    ∃ after, Reader.header (.start feed verify Allocator.zeros) =
        .ok header.mixedProperties ⟨after, verify, Allocator.zeros, .readingKeys header⟩ ∧
      { feed with checksum := .start }.Passed header.bytes rest after := by
  obtain ⟨after, read, passed⟩ := Decoder.header_reads readable start
  refine ⟨after, ?_, passed⟩
  have decoded : decode (Decoder.header .map) (.start feed verify Allocator.zeros) =
      .ok header ⟨after, verify, Allocator.zeros, .idle⟩ := decode_of_ok read
  exact (run_bind_of_ok decoded).trans rfl

/-- The keys are read, and with them the number of blocks. -/
theorem keys_reads (header : Header) (valid : keys.Valid) (addressable : keys.Addressable)
    (fit : Piece.Fit (Writer.keyLayout keys))
    (start : feed.bytes = Piece.allBytes header.order (Writer.keyLayout keys) ++ rest) :
    ∃ after, Reader.keys ⟨feed, verify, Allocator.zeros, .readingKeys header⟩ =
        .ok keys (before header keys verify 0 after) ∧
      feed.Passed (Piece.allBytes header.order (Writer.keyLayout keys)) rest after := by
  have layout := (Piece.fit_append.mp fit).1
  rw [Writer.keyLayout, Piece.allBytes_append, Piece.allBytes_singleton] at start ⊢
  rw [List.append_assoc] at start
  obtain ⟨middle, keysRead, keysPassed⟩ :=
    Decoder.reads_labels header.order valid addressable layout feed _ start
  obtain ⟨after, countRead, countPassed⟩ :=
    Decoder.reads_count header.order (Labels.count_lt valid addressable) .blockCount middle _
      keysPassed.bytes
  refine ⟨after, ?_, keysPassed.trans countPassed⟩
  have decoded : decode (Decoder.labels header.order)
      ⟨feed, verify, Allocator.zeros, .readingKeys header⟩ =
      .ok keys ⟨middle, verify, Allocator.zeros, .readingKeys header⟩ := decode_of_ok keysRead
  have counted : decode (Decoder.count header.order .blockCount)
      ⟨middle, verify, Allocator.zeros, .readingKeys header⟩ =
      .ok keys.count ⟨after, verify, Allocator.zeros, .readingKeys header⟩ := decode_of_ok countRead
  refine (run_bind_of_ok decoded).trans ((run_bind_of_ok counted).trans ?_)
  rw [if_neg (not_not.mpr rfl)]
  rfl

/-- Behind the last block the checksum is read. -/
theorem block_last (keys : Labels) {body : List UInt8}
    (start : feed.bytes = header.trailer body ++ rest)
    (checksum : feed.checksum = Checksum.start.update body) :
    ∃ after, Reader.block (before header keys verify keys.count feed) =
        .ok none ⟨after, verify, Allocator.zeros, .done header keys⟩ ∧
      feed.Passed (header.trailer body) rest after := by
  obtain ⟨after, read, passed⟩ := Decoder.trailer_reads header verify start checksum
  refine ⟨after, ?_, passed⟩
  have decoded : decode (Decoder.trailer header verify)
      (before header keys verify keys.count feed) =
      .ok () (before header keys verify keys.count after) := decode_of_ok read
  unfold Reader.block
  refine (run_bind_of_ok (rfl : (get : Reader _) _ = .ok _ _)).trans ?_
  dsimp only
  rw [if_pos rfl]
  exact (run_bind_of_ok decoded).trans rfl

/-- What a reader does in front of a block. -/
theorem block_before {next : Nat} (more : next < keys.count) :
    Reader.block (before header keys verify next feed) =
      (do
        let block ← decode (Decoder.block Allocator.zeros header.order)
        enter (.readingBlocks header keys (next + 1))
        pure (some block) : Reader (Option Block)) (before header keys verify next feed) := by
  unfold Reader.block
  refine (run_bind_of_ok (rfl : (get : Reader _) _ = .ok _ _)).trans ?_
  dsimp only
  rw [if_neg (Nat.ne_of_lt more)]
  rfl

/-- A session reads the next block. -/
theorem block_next {next : Nat} (more : next < keys.count) {bytes : List UInt8} {block : Block}
    (h : (Decoder.block Allocator.zeros header.order).Reads bytes block)
    (start : feed.bytes = bytes ++ rest) :
    ∃ after, Reader.block (before header keys verify next feed) =
        .ok (some block) (before header keys verify (next + 1) after) ∧
      feed.Passed bytes rest after := by
  obtain ⟨after, read, passed⟩ := h feed rest start
  refine ⟨after, ?_, passed⟩
  have decoded : decode (Decoder.block Allocator.zeros header.order)
      (before header keys verify next feed) = .ok block (before header keys verify next after) :=
    decode_of_ok read
  rw [block_before verify more]
  exact (run_bind_of_ok decoded).trans rfl

/-- A session fails at a block that can not be read. -/
theorem block_fails {next : Nat} (more : next < keys.count) {bytes : List UInt8}
    {error : ContainerError}
    (h : (Decoder.block Allocator.zeros header.order).Fails bytes error)
    (start : feed.bytes = bytes ++ rest) :
    ∃ after, Reader.block (before header keys verify next feed) = .error error after := by
  obtain ⟨after, failed⟩ := h feed rest start
  rw [block_before verify more]
  exact ⟨_, run_bind_of_error (decode_of_error failed)⟩

def blockBytes (header : Header) (block : Block) : List UInt8 :=
  Piece.allBytes header.order block.layout

/-- From a block on, a reader reads all blocks to come, and the checksum. -/
theorem blocks_reads {todo : List Block} {next : Nat} (all : next + todo.length = keys.count)
    (h : ∀ block ∈ todo,
      (Decoder.block Allocator.zeros header.order).Reads (blockBytes header block) block)
    {body : List UInt8}
    (start : feed.bytes = todo.flatMap (blockBytes header) ++
      (header.trailer (body ++ todo.flatMap (blockBytes header)) ++ rest))
    (checksum : feed.checksum = Checksum.start.update body) :
    ∃ after, Reader.blocks todo.length (before header keys verify next feed) =
        .ok todo ⟨after, verify, Allocator.zeros, .done header keys⟩ ∧
      after.bytes = rest := by
  induction todo generalizing feed next body with
  | nil =>
    rw [List.length_nil, Nat.add_zero] at all
    subst all
    rw [List.flatMap_nil, List.nil_append, List.append_nil] at start
    obtain ⟨after, ended, passed⟩ := block_last verify keys start checksum
    refine ⟨after, ?_, passed.bytes⟩
    exact (run_bind_of_ok ended).trans rfl
  | cons first todo ih =>
    rw [List.length_cons] at all
    rw [List.forall_mem_cons] at h
    rw [List.flatMap_cons, List.append_assoc] at start
    have more : next < keys.count := by omega
    have all' : next + 1 + todo.length = keys.count := by omega
    obtain ⟨middle, begun, passed⟩ := block_next verify more h.1 start
    have start' := passed.bytes
    rw [← List.append_assoc body] at start'
    have checksum' : middle.checksum =
        Checksum.start.update (body ++ blockBytes header first) := by
      rw [passed.checksum, checksum, Checksum.update_append]
    obtain ⟨after, ended, left⟩ := ih all' h.2 start' checksum'
    refine ⟨after, ?_, left⟩
    rw [List.length_cons, Reader.blocks, run_bind_of_ok begun]
    exact (run_bind_of_ok ended).trans rfl

/-- If all blocks are read or fail with one error, and one fails, reading them fails with it. -/
theorem blocks_fail {todo : List Block} {next : Nat} (all : next + todo.length = keys.count)
    {error : ContainerError}
    (h : ∀ block ∈ todo,
      (Decoder.block Allocator.zeros header.order).Reads (blockBytes header block) block ∨
        (Decoder.block Allocator.zeros header.order).Fails (blockBytes header block) error)
    (failing : ∃ block ∈ todo,
      (Decoder.block Allocator.zeros header.order).Fails (blockBytes header block) error)
    (start : feed.bytes = todo.flatMap (blockBytes header) ++ rest) :
    ∃ after, Reader.blocks todo.length (before header keys verify next feed) =
      .error error after := by
  induction todo generalizing feed next with
  | nil =>
    obtain ⟨_, member, _⟩ := failing
    exact absurd member List.not_mem_nil
  | cons first todo ih =>
    rw [List.length_cons] at all
    rw [List.forall_mem_cons] at h
    rw [List.flatMap_cons, List.append_assoc] at start
    have more : next < keys.count := by omega
    have all' : next + 1 + todo.length = keys.count := by omega
    rw [List.length_cons, Reader.blocks]
    by_cases fails :
        (Decoder.block Allocator.zeros header.order).Fails (blockBytes header first) error
    · obtain ⟨after, failed⟩ := block_fails verify more fails start
      exact ⟨after, run_bind_of_error failed⟩
    · have reads := h.1.resolve_right fails
      obtain ⟨middle, begun, passed⟩ := block_next verify more reads start
      have rest' : ∃ block ∈ todo, (Decoder.block Allocator.zeros header.order).Fails
          (blockBytes header block) error := by
        obtain ⟨block, member, fails'⟩ := failing
        rcases List.mem_cons.mp member with rfl | inside
        · exact absurd fails' fails
        · exact ⟨block, inside, fails'⟩
      obtain ⟨after, failed⟩ := ih all' h.2 rest' passed.bytes
      refine ⟨after, ?_⟩
      rw [run_bind_of_ok begun]
      exact run_bind_of_error failed

/-- A reader of a whole map goes to the blocks first. -/
theorem map_start (readable : header.check .map = .ok ()) (valid : keys.Valid)
    (addressable : keys.Addressable) (fit : Piece.Fit (Writer.keyLayout keys))
    (start : feed.bytes =
      header.bytes ++ (Piece.allBytes header.order (Writer.keyLayout keys) ++ rest)) :
    ∃ middle, Reader.map (.start feed verify Allocator.zeros) =
        Reader.content header keys (before header keys verify 0 middle) ∧
      { feed with checksum := .start }.Passed
        (header.bytes ++ Piece.allBytes header.order (Writer.keyLayout keys)) rest middle := by
  obtain ⟨headed, headerRead, headerPassed⟩ := header_idle verify readable start
  obtain ⟨middle, keysRead, keysPassed⟩ :=
    keys_reads verify header valid addressable fit headerPassed.bytes
  refine ⟨middle, ?_, headerPassed.trans keysPassed⟩
  refine (run_bind_of_ok headerRead).trans ?_
  exact run_bind_of_ok keysRead

end Reader

/-! ### Maps -/

namespace BlockMap

/-- The sizes of the keys and of all blocks can be addressed. -/
structure Addressable (map : BlockMap) : Prop where
  keys : map.keys.Addressable
  blocks : ∀ block ∈ map.blocks, block.Addressable

instance : DecidablePred Addressable := fun map =>
  decidable_of_iff (map.keys.Addressable ∧ ∀ block ∈ map.blocks, block.Addressable)
    ⟨fun ⟨keys, blocks⟩ => ⟨keys, blocks⟩, fun ⟨keys, blocks⟩ => ⟨keys, blocks⟩⟩

variable {map : BlockMap} {header : Header}

theorem storable_blocks (consistent : map.Consistent) (valid : map.Labelled Labels.Valid)
    (addressable : map.Addressable) (fit : Piece.Fit map.layout) :
    ∀ block ∈ map.blocks, Decoder.Storable block := by
  intro block member
  have fits := Piece.fit_flatMap.mp (Piece.fit_append.mp fit).2 block member
  exact ⟨consistent.blocks block member, valid.blocks block member,
    addressable.blocks block member, fits⟩

theorem allBytes_layout (order : ByteOrder) (map : BlockMap) :
    Piece.allBytes order map.layout =
      Piece.allBytes order (Writer.keyLayout map.keys) ++
        map.blocks.flatMap fun block => Piece.allBytes order block.layout := by
  rw [layout, Piece.allBytes_append, Piece.allBytes_flatMap]

/-- A map that is read back once it was written, whatever the choices of the writer are. -/
structure Rereadable (map : BlockMap) : Prop where
  consistent : map.Consistent
  valid : map.Labelled Labels.Valid
  addressable : map.Addressable
  shallow : ∀ block ∈ map.blocks, block.depth ≤ maxGradientDepth + 1

/-- A map whose gradients are not too deep is read back. -/
theorem Rereadable.read_enclosed (rereadable : map.Rereadable) (fit : Piece.Fit map.layout)
    (readable : header.check .map = .ok ()) (mixed : header.mixedProperties = map.mixedProperties)
    (verify : Bool) {feed : Feed} {rest : List UInt8}
    (start : feed.bytes = header.enclose (Piece.allBytes header.order map.layout) ++ rest) :
    ∃ after, read verify feed = .ok map after ∧ after.bytes = rest := by
  obtain ⟨consistent, valid, addressable, shallow⟩ := rereadable
  have storable := storable_blocks consistent valid addressable fit
  have reads : ∀ block ∈ map.blocks, (Decoder.block Allocator.zeros header.order).Reads
      (Reader.blockBytes header block) block := fun block member =>
    Decoder.reads_blockWithin (storable block member) (shallow block member)
  have all : 0 + map.blocks.length = map.keys.count := by rw [consistent.count, Nat.zero_add]
  rw [Header.enclose, allBytes_layout] at start
  simp only [List.append_assoc] at start
  obtain ⟨middle, begun, passed⟩ := Reader.map_start verify readable valid.keys
    addressable.keys (Piece.fit_append.mp fit).1 start
  have start' := passed.bytes
  rw [← List.append_assoc header.bytes] at start'
  obtain ⟨after, blocksRead, left⟩ :=
    Reader.blocks_reads verify all reads start' passed.checksum
  refine ⟨after, ?_, left⟩
  have built : ofBlocks map.keys map.blocks header.mixedProperties = .ok map :=
    ofBlocks_eq_ok_iff.mpr ⟨consistent.count, mixed ▸ consistent.agree, by rw [mixed]⟩
  have done : Reader.content header map.keys (Reader.before header map.keys verify 0 middle) =
      .ok map ⟨after, verify, Allocator.zeros, .done header map.keys⟩ := by
    rw [Reader.content, consistent.count, run_bind_of_ok blocksRead, built]
    rfl
  rw [read, readWith, Reader.run, begun, done]

/-- A map some of whose gradients are too deep is refused for that. -/
theorem read_refuses (consistent : map.Consistent) (valid : map.Labelled Labels.Valid)
    (addressable : map.Addressable) (fit : Piece.Fit map.layout)
    (deep : ∃ block ∈ map.blocks, maxGradientDepth + 1 < block.depth)
    (readable : header.check .map = .ok ()) (verify : Bool) {feed : Feed} {rest : List UInt8}
    (start : feed.bytes = header.enclose (Piece.allBytes header.order map.layout) ++ rest) :
    ∃ after, read verify feed = .error (.content (.malformed .gradientsTooDeep)) after := by
  have storable := storable_blocks consistent valid addressable fit
  have all : 0 + map.blocks.length = map.keys.count := by rw [consistent.count, Nat.zero_add]
  rw [Header.enclose, allBytes_layout] at start
  simp only [List.append_assoc] at start
  obtain ⟨middle, begun, passed⟩ := Reader.map_start verify readable valid.keys
    addressable.keys (Piece.fit_append.mp fit).1 start
  have failing : ∃ block ∈ map.blocks, (Decoder.block Allocator.zeros header.order).Fails
      (Reader.blockBytes header block) (.content (.malformed .gradientsTooDeep)) := by
    obtain ⟨block, member, deeper⟩ := deep
    exact ⟨block, member, Decoder.blockWithin_fails (storable block member) deeper⟩
  have each : ∀ block ∈ map.blocks,
      (Decoder.block Allocator.zeros header.order).Reads (Reader.blockBytes header block) block ∨
        (Decoder.block Allocator.zeros header.order).Fails (Reader.blockBytes header block)
          (.content (.malformed .gradientsTooDeep)) := by
    intro block member
    by_cases shallow : block.depth ≤ maxGradientDepth + 1
    · exact .inl (Decoder.reads_blockWithin (storable block member) shallow)
    · exact .inr (Decoder.blockWithin_fails (storable block member) (Nat.not_le.mp shallow))
  obtain ⟨after, failed⟩ :=
    Reader.blocks_fail verify all each failing passed.bytes
  refine ⟨after.feed, ?_⟩
  have done : Reader.content header map.keys (Reader.before header map.keys verify 0 middle) =
      .error (.content (.malformed .gradientsTooDeep)) after := by
    rw [Reader.content, consistent.count]
    exact run_bind_of_error failed
  rw [read, readWith, Reader.run, begun, done]

end BlockMap

/-! ### Containers of all kinds -/

/-- Whatever follows a container, and whether or not its checksum is compared, the value is read
from it and what follows is left. -/
def ReadBack {α : Type} (read : Bool → Decoder α) (container : List UInt8) (value : α) : Prop :=
  ∀ verify feed rest, feed.bytes = container ++ rest →
    ∃ after, read verify feed = .ok value after ∧ after.bytes = rest

/-- Reading the container fails, since gradients in it are nested too deeply. -/
def RefusedAsTooDeep {α : Type} (read : Bool → Decoder α) (container : List UInt8) : Prop :=
  ∀ verify feed rest, feed.bytes = container ++ rest →
    ∃ after, read verify feed = .error (.content (.malformed .gradientsTooDeep)) after

/-- What was written is read back, bit by bit, except when gradients are nested too deeply. -/
theorem read_written (options : WriterOptions) (sink : Sink) :
    (∀ labels : Labels, labels.Valid → labels.Addressable →
      labels.write options .unlimited = (sink, none) →
        ReadBack Labels.read sink.written labels) ∧
    (∀ block : Block, block.Consistent → block.Labelled Labels.Valid → block.Addressable →
      block.write options .unlimited = (sink, none) →
        (block.depth ≤ maxGradientDepth + 1 → ReadBack Block.read sink.written block) ∧
        (maxGradientDepth + 1 < block.depth → RefusedAsTooDeep Block.read sink.written)) ∧
    (∀ map : BlockMap, map.Consistent → map.Labelled Labels.Valid → map.Addressable →
      map.write options .unlimited = (sink, none) →
        ((∀ block ∈ map.blocks, block.depth ≤ maxGradientDepth + 1) →
          ReadBack BlockMap.read sink.written map) ∧
        ((∃ block ∈ map.blocks, maxGradientDepth + 1 < block.depth) →
          RefusedAsTooDeep BlockMap.read sink.written)) := by
  refine ⟨?_, ?_, ?_⟩
  · intro labels valid addressable written
    obtain ⟨fit, rfl⟩ := Encoder.run_container_iff.mp written
    rw [Sink.written_holding]
    intro verify feed rest start
    exact (Decoder.reads_labels _ valid addressable fit).enclosed (Header.check_of ..) verify start
  · intro block consistent valid addressable written
    obtain ⟨fit, rfl⟩ := Encoder.run_container_iff.mp written
    rw [Sink.written_holding]
    have storable : Decoder.Storable block := ⟨consistent, valid, addressable, fit⟩
    constructor
    · intro shallow verify feed rest start
      exact (Decoder.reads_blockWithin storable shallow).enclosed (Header.check_of ..) verify start
    · intro deep verify feed rest start
      exact (Decoder.blockWithin_fails storable deep).enclosed (Header.check_of ..) verify start
  · intro map consistent valid addressable written
    obtain ⟨fit, rfl⟩ := (BlockMap.write_iff consistent.count options).mp written
    rw [Sink.written_holding]
    constructor
    · intro shallow verify feed rest start
      have rereadable : map.Rereadable := ⟨consistent, valid, addressable, shallow⟩
      exact rereadable.read_enclosed fit (Header.check_of ..) (Header.mixedProperties_of ..) verify
        start
    · intro deep verify feed rest start
      exact BlockMap.read_refuses consistent valid addressable fit deep (Header.check_of ..)
        verify start

/-- A block with a chain of so many gradients, each of one value: a quiet NaN with a payload in the
innermost one, negative zeros in the others. -/
def chained : Nat → Block
  | 0 => ⟨⟨[1, 1], #[0x7FF8000000000123]⟩, .of ["sample"] [[0]], [],
      .of ["x"] [[-1]], []⟩
  | levels + 1 => ⟨⟨[1, 1], #[0x8000000000000000]⟩, .of ["sample"] [[0]], [],
      .of ["x"] [[-1]], [("cell", chained levels)]⟩

/-- Two chains under different keys. -/
def chainedMap (levels : Nat) : BlockMap :=
  ⟨.of ["key"] [[2], [-2147483648]], [chained levels, chained levels], true⟩

theorem write_chainedMap (options : WriterOptions) {levels : Nat}
    (fit : Piece.Fit (chainedMap levels).layout) :
    (chainedMap levels).write options .unlimited =
      (.holding ((Header.of options.order .map options.checksum true).enclose
        (Piece.allBytes options.order (chainedMap levels).layout)), none) :=
  (BlockMap.write_iff rfl options).mpr ⟨fit, rfl⟩

theorem rereadable_chainedMap : (chainedMap maxGradientDepth).Rereadable :=
  ⟨by decide, by decide, by decide, by decide⟩

theorem fit_chainedMap : Piece.Fit (chainedMap maxGradientDepth).layout := by
  decide +kernel

theorem chained_read_written :
    (∃ sink, (chainedMap maxGradientDepth).write ⟨.big, true⟩ .unlimited = (sink, none) ∧
      ReadBack BlockMap.read sink.written (chainedMap maxGradientDepth)) ∧
    (∃ sink, (chainedMap (maxGradientDepth + 1)).write ⟨.little, false⟩ .unlimited = (sink, none) ∧
      RefusedAsTooDeep BlockMap.read sink.written) := by
  constructor
  · have written := write_chainedMap ⟨.big, true⟩ fit_chainedMap
    obtain ⟨consistent, valid, addressable, shallow⟩ := rereadable_chainedMap
    exact ⟨_, written, ((read_written _ _).2.2 _ consistent valid addressable written).1 shallow⟩
  · have written := @write_chainedMap ⟨.little, false⟩ (maxGradientDepth + 1) (by decide +kernel)
    exact ⟨_, written, ((read_written _ _).2.2 _ (by decide) (by decide) (by decide) written).2
      (by decide)⟩

end LabeledBlocks
