import LabeledBlocks.Container.Whole
import LabeledBlocks.Proofs.Outcomes

/-!
# Containers of all kinds are read alike

A container is read in four steps, whatever its kind is: the header, the content in the byte order
of the header, the checksum, and the check of what was read. Labels and blocks are read in just
these steps. A map is read by a session that goes through one phase after the other; as long as
nobody interferes, its calls come down to the same steps.

* `Decoder.container` — a container, read in four steps.
* `Labels.read_eq`, `Block.read_eq`, `BlockMap.readWith_eq` — the three kinds are read so.
-/

namespace LabeledBlocks

namespace Decoder

variable {α β : Type}

/-- A container of one kind: its header, its content, the checksum behind it, and what is built of
the content. -/
def container (kind : ContainerKind) (content : ByteOrder → Decoder β)
    (build : Header → β → Except Error α) (verify : Bool) : Decoder α := do
  let header ← Decoder.header kind
  let parts ← content header.order
  trailer header verify
  accept (build header parts)

/-- Keys and the number of blocks, which must be that of the keys. -/
def keysBy (labels : Decoder Labels) (order : ByteOrder) : Decoder Labels := do
  let keys ← labels
  let blockCount ← count order .blockCount
  if blockCount ≠ keys.count then
    refuse (.malformed (.blockCount blockCount keys.count))
  pure keys

def keys (order : ByteOrder) : Decoder Labels :=
  keysBy (labels order) order

/-- The content of the container of a map: the keys, and a block for each of them. -/
def contentBy (keys : Decoder Labels) (block : Decoder Block) : Decoder (Labels × List Block) := do
  let keys ← keys
  let blocks ← replicate block keys.count
  pure (keys, blocks)

def mapContent (allocator : Allocator) (order : ByteOrder) : Decoder (Labels × List Block) :=
  contentBy (keys order) (block allocator order)

end Decoder

def BlockMap.ofContent (header : Header) (content : Labels × List Block) : Except Error BlockMap :=
  BlockMap.ofBlocks content.1 content.2 header.mixedProperties

theorem Labels.read_eq (verify : Bool) :
    Labels.read verify = Decoder.container .labels Decoder.labels (fun _ => .ok) verify :=
  rfl

theorem Block.read_eq (verify : Bool) :
    Block.read verify =
      Decoder.container .block (Decoder.block Allocator.zeros) (fun _ => .ok) verify :=
  rfl

/-! ### The steps of a session -/

namespace Reader

variable {α β γ : Type} {session : ReaderSession} {header : Header} {labels : Labels}

/-- What becomes of a session in which a decoder has run: it goes over to another phase, or fails
for good. -/
def advance (session : ReaderSession) (phase : α → ReaderPhase) (given : α → β) :
    EStateM.Result ContainerError Feed α → EStateM.Result ContainerError ReaderSession β
  | .ok value after => .ok (given value) { session with feed := after, phase := phase value }
  | .error error after =>
    .error error { session with feed := after, phase := session.phase.fail }

/-- A session goes on exactly if its decoder has given something. -/
theorem advance_eq_ok {phase : α → ReaderPhase} {given : α → β}
    {result : EStateM.Result ContainerError Feed α} {value : β} {after : ReaderSession} :
    advance session phase given result = .ok value after ↔
      ∃ part feed, result = .ok part feed ∧ value = given part ∧
        after = { session with feed, phase := phase part } := by
  cases result with
  | ok part feed =>
    constructor
    · rintro ⟨⟩
      exact ⟨part, feed, rfl, rfl, rfl⟩
    · rintro ⟨_, _, ⟨⟩, rfl, rfl⟩
      rfl
  | error error feed =>
    constructor
    · rintro ⟨⟩
    · rintro ⟨_, _, ⟨⟩, _⟩

theorem decode_of_ok {decoder : Decoder α} {value : α} {after : Feed}
    (h : decoder session.feed = .ok value after) :
    decode decoder session = .ok value { session with feed := after } := by
  simp [decode, h]

theorem decode_of_error {decoder : Decoder α} {error : ContainerError} {after : Feed}
    (h : decoder session.feed = .error error after) :
    decode decoder session =
      .error error { session with feed := after, phase := session.phase.fail } := by
  simp [decode, h, fail]

/-- Two decoders that run one after the other in a session can run as one. -/
theorem decode_bind (decoder : Decoder α) (next : α → Decoder β) :
    decode (decoder >>= next) = decode decoder >>= fun value => decode (next value) := by
  funext session
  cases done : decoder session.feed with
  | ok value after =>
    rw [run_bind_of_ok (decode_of_ok done)]
    simp only [decode, run_bind_of_ok done]
  | error error after =>
    rw [run_bind_of_error (decode_of_error done)]
    exact decode_of_error (run_bind_of_error done)

theorem decode_enter (decoder : Decoder α) (phase : α → ReaderPhase) (given : α → β) :
    (do
        let value ← decode decoder
        enter (phase value)
        pure (given value) : Reader β) session =
      advance session phase given (decoder session.feed) := by
  cases done : decoder session.feed with
  | ok value after => exact run_bind_of_ok (decode_of_ok done)
  | error error after => exact run_bind_of_error (decode_of_error done)

/-- In front of the header a session reads it. -/
theorem header_eq (phase : session.phase = .idle) :
    Reader.header session =
      advance session .readingKeys Header.mixedProperties (Decoder.header .map session.feed) := by
  obtain ⟨feed, verify, allocator, _⟩ := session
  subst phase
  exact decode_enter _ _ _

/-- Behind the header a session reads the keys. -/
theorem keys_eq (phase : session.phase = .readingKeys header) :
    Reader.keys session =
      advance session (.readingBlocks header · 0) id (Decoder.keys header.order session.feed) := by
  obtain ⟨feed, verify, allocator, _⟩ := session
  subst phase
  unfold Reader.keys
  rw [← decode_enter, Decoder.keys, Decoder.keysBy, decode_bind, bind_assoc]
  refine (run_bind_of_ok run_get).trans ?_
  dsimp only
  refine congrFun (congrArg (decode _ >>= ·) (funext fun keys => ?_)) _
  rw [decode_bind, bind_assoc]
  refine congrArg (decode _ >>= ·) (funext fun count => ?_)
  by_cases differs : count ≠ keys.count
  · rw [if_pos differs, if_pos differs]
    rfl
  · rw [if_neg differs, if_neg differs]
    rfl

/-- In front of a block a session reads it. -/
theorem block_eq {next : Nat} (phase : session.phase = .readingBlocks header labels next)
    (more : next ≠ labels.count) :
    Reader.block session =
      advance session (fun _ => .readingBlocks header labels (next + 1)) some
        (Decoder.block session.allocator header.order session.feed) := by
  obtain ⟨feed, verify, allocator, _⟩ := session
  subst phase
  rw [← decode_enter]
  unfold Reader.block
  refine (run_bind_of_ok run_get).trans ?_
  dsimp only
  rw [if_neg more]
  rfl

/-- Behind the last block a session reads the checksum. -/
theorem block_last_eq (phase : session.phase = .readingBlocks header labels labels.count) :
    Reader.block session =
      advance session (fun _ => .done header labels) (fun _ => none)
        (Decoder.trailer header session.verify session.feed) := by
  obtain ⟨feed, verify, allocator, _⟩ := session
  subst phase
  rw [← decode_enter]
  unfold Reader.block
  refine (run_bind_of_ok run_get).trans ?_
  dsimp only
  rw [if_pos rfl]
  rfl

/-! ### A whole map -/

/-- What a call gives, and the feed that it leaves. -/
def outcome :
    EStateM.Result ContainerError ReaderSession α → EStateM.Result ContainerError Feed α
  | .ok value after => .ok value after.feed
  | .error error after => .error error after.feed

theorem run_eq (reader : Reader α) (allocator : Allocator) (verify : Bool) (feed : Feed) :
    reader.run allocator verify feed = outcome (reader (.start feed verify allocator)) := by
  unfold run outcome
  cases reader (.start feed verify allocator) <;> rfl

/-- A call that goes on behind a step goes on behind its decoder. -/
theorem outcome_bind {reader : Reader β} {decoder : Decoder γ} {phase : γ → ReaderPhase}
    {given : γ → β} {next : β → Reader α} {next' : γ → Decoder α}
    (step : reader session = advance session phase given (decoder session.feed))
    (h : ∀ value after,
      outcome (next (given value) { session with feed := after, phase := phase value }) =
        next' value after) :
    outcome ((reader >>= next) session) = (decoder >>= next') session.feed := by
  cases done : decoder session.feed with
  | ok value after =>
    rw [done] at step
    rw [run_bind_of_ok step, run_bind_of_ok done]
    exact h value after
  | error error after =>
    rw [done] at step
    rw [run_bind_of_error step, run_bind_of_error done]
    rfl

/-- A call that goes on from wherever the first one ended goes on behind its decoder. -/
theorem outcome_then {reader : Reader β} {decoder : Decoder β} {next : β → Reader α}
    {next' : β → Decoder α} (first : outcome (reader session) = decoder session.feed)
    (h : ∀ value after, outcome (next value after) = next' value after.feed) :
    outcome ((reader >>= next) session) = (decoder >>= next') session.feed := by
  cases done : reader session with
  | ok value after =>
    rw [done] at first
    rw [run_bind_of_ok done, run_bind_of_ok first.symm]
    exact h value after
  | error error after =>
    rw [done] at first
    rw [run_bind_of_error done, run_bind_of_error first.symm]
    rfl

/-- From a block on, a session reads all blocks to come, and the checksum. -/
theorem outcome_blocks {count next : Nat} (all : next + count = labels.count)
    (phase : session.phase = .readingBlocks header labels next) :
    outcome (Reader.blocks count session) =
      (do
        let blocks ← Decoder.replicate (Decoder.block session.allocator header.order) count
        Decoder.trailer header session.verify
        pure blocks : Decoder (List Block)) session.feed := by
  induction count generalizing session next with
  | zero =>
    subst all
    rw [Decoder.replicate, pure_bind]
    exact outcome_bind (block_last_eq phase) fun _ _ => rfl
  | succ count ih =>
    have more : next ≠ labels.count := by omega
    rw [Decoder.replicate, bind_assoc, Reader.blocks]
    refine outcome_bind (block_eq phase more) fun first after => ?_
    have rest := @ih { session with
      feed := after, phase := .readingBlocks header labels (next + 1) } (next + 1) (by omega) rfl
    have same : ∀ blocks after, outcome ((pure (first :: blocks) : Reader _) after) =
        (pure (first :: blocks) : Decoder _) after.feed := fun _ _ => rfl
    simpa only [bind_assoc, pure_bind] using outcome_then rest same

/-- The blocks that a session reads are those of one decoder, and the checksum comes behind them. -/
theorem outcome_content (phase : session.phase = .readingBlocks header labels 0) :
    outcome (Reader.content header labels session) =
      (do
        let blocks ← Decoder.replicate (Decoder.block session.allocator header.order) labels.count
        Decoder.trailer header session.verify
        Decoder.accept (BlockMap.ofContent header (labels, blocks)) : Decoder BlockMap)
          session.feed := by
  have regroup : ∀ {α β : Type} (blocks : Decoder α) (ended : Decoder Unit) (next : α → Decoder β),
      (do let read ← blocks; ended; next read) =
        (do let read ← blocks; ended; pure read : Decoder α) >>= next := by
    intro _ _ blocks ended next
    simp only [bind_assoc, pure_bind]
  rw [regroup]
  refine outcome_then (outcome_blocks (Nat.zero_add _) phase) fun blocks after => ?_
  unfold BlockMap.ofContent
  cases BlockMap.ofBlocks labels blocks header.mixedProperties <;> rfl

end Reader

/-- A session that reads a whole map reads a container of the keys and the blocks. -/
theorem BlockMap.readWith_eq (allocator : Allocator) (verify : Bool) :
    BlockMap.readWith allocator verify =
      Decoder.container .map (Decoder.mapContent allocator) BlockMap.ofContent verify := by
  funext feed
  rw [readWith, Reader.run_eq]
  have whole : Reader.map (.start feed verify allocator) =
      (Reader.header >>= fun _ => Reader.rest) (.start feed verify allocator) := rfl
  rw [whole]
  refine Reader.outcome_bind (Reader.header_eq rfl) fun header after => ?_
  have keyed : ∀ session : ReaderSession, session.phase = .readingKeys header →
      Reader.rest session = (Reader.keys >>= fun keys => Reader.content header keys) session := by
    rintro ⟨feed, verify, allocator, _⟩ rfl
    rfl
  rw [keyed _ rfl, Decoder.mapContent, Decoder.contentBy, bind_assoc]
  refine Reader.outcome_bind (Reader.keys_eq rfl) fun keys after => ?_
  rw [bind_assoc]
  simp only [pure_bind]
  exact Reader.outcome_content rfl

end LabeledBlocks
