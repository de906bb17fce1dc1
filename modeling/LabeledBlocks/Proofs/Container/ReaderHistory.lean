import LabeledBlocks.Proofs.BlockMap.Consistent
import LabeledBlocks.Proofs.Container.Kinds

/-!
# What a reader hands out

A reader may be asked for anything in any order, and be asked again after a failure. Whatever is
asked, it hands out the blocks of the container from left to right, each of them once, and after a
failure it does nothing any more. This is carried by an invariant that ties the phase of a session
to what one pass over the container finds: every call keeps it.

* `Reader.history` — the answers to a list of questions.
* `Reader.Stands` — where a session stands after some blocks have been handed out.
* `Reader.ends_answer` — every call keeps it, and fails for good if it fails.
* `Reader.inOrder_history` — what therefore holds after any questions.
-/

namespace LabeledBlocks

/-! ### One pass over the container of a map -/

namespace Decoder

variable {α : Type} {decoder : Decoder α} {count : Nat} {feed middle after : Feed}

/-- The header and the keys of the container of a map. -/
def opening : Decoder (Header × Labels) := do
  let header ← header .map
  let keys ← keys header.order
  pure (header, keys)

/-- The container of a map from left to right: the header, the keys, a block for each of the keys,
and the checksum. -/
def onePass (allocator : Allocator) (verify : Bool) : Decoder (Header × Labels × List Block) := do
  let (header, keys) ← opening
  let blocks ← replicate (block allocator header.order) keys.count
  trailer header verify
  pure (header, keys, blocks)

/-- One pass that ends in front of the block at position `next`. -/
def passTo (allocator : Allocator) (next : Nat) : Decoder (Header × Labels × List Block) := do
  let (header, keys) ← opening
  let blocks ← replicate (block allocator header.order) next
  pure (header, keys, blocks)

/-- What is given one after the other, at most `count` times, up to the first failure. -/
def upTo (decoder : Decoder α) : (count : Nat) → Feed → List α
  | 0, _ => []
  | count + 1, feed =>
    match decoder feed with
    | .ok first after => first :: upTo decoder count after
    | .error _ _ => []

/-- The blocks that one pass over the container of a map comes by, up to the first failure. -/
def mapBlocks (allocator : Allocator) (feed : Feed) : List Block :=
  match opening feed with
  | .ok (header, keys) after => upTo (block allocator header.order) keys.count after
  | .error _ _ => []

theorem opening_of_ok {header : Header} {keys : Labels}
    (first : Decoder.header .map feed = .ok header middle)
    (second : Decoder.keys header.order middle = .ok keys after) :
    opening feed = .ok (header, keys) after := by
  unfold opening
  rw [run_bind_of_ok first, run_bind_of_ok second]
  rfl

/-- One more behind a number of them. -/
theorem replicate_succ_of_ok {values : List α} {value : α}
    (begun : replicate decoder count feed = .ok values middle)
    (last : decoder middle = .ok value after) :
    replicate decoder (count + 1) feed = .ok (values ++ [value]) after := by
  induction count generalizing feed values with
  | zero =>
    cases begun
    unfold replicate
    rw [run_bind_of_ok last]
    rfl
  | succ count ih =>
    unfold replicate at begun
    obtain ⟨first, second, here, begun⟩ := run_bind_eq_ok.mp begun
    obtain ⟨rest, third, further, given⟩ := run_bind_eq_ok.mp begun
    cases given
    unfold replicate
    rw [run_bind_of_ok here, run_bind_of_ok (ih further)]
    rfl

theorem length_of_replicate {values : List α}
    (read : replicate decoder count feed = .ok values after) : values.length = count := by
  induction count generalizing feed values with
  | zero =>
    cases read
    rfl
  | succ count ih =>
    unfold replicate at read
    obtain ⟨first, second, here, read⟩ := run_bind_eq_ok.mp read
    obtain ⟨rest, third, further, given⟩ := run_bind_eq_ok.mp read
    cases given
    rw [List.length_cons, ih further]

/-- What was given a number of times comes first among what is given up to the first failure. -/
theorem upTo_of_replicate {values : List α} {limit : Nat} (within : count ≤ limit)
    (read : replicate decoder count feed = .ok values middle) :
    values <+: upTo decoder limit feed := by
  induction count generalizing feed values limit with
  | zero =>
    cases read
    exact List.nil_prefix
  | succ count ih =>
    obtain ⟨limit, rfl⟩ : ∃ less, limit = less + 1 := ⟨limit - 1, by omega⟩
    unfold replicate at read
    obtain ⟨first, second, here, read⟩ := run_bind_eq_ok.mp read
    obtain ⟨rest, third, further, given⟩ := run_bind_eq_ok.mp read
    cases given
    simp only [upTo, here]
    exact List.prefix_cons_inj first |>.mpr (ih (by omega) further)

/-- Nothing is taken where nothing is left. -/
theorem finish_of_ok (done : finish feed = .ok () after) : after = feed := by
  unfold finish at done
  split at done <;> cases done
  rfl

end Decoder

namespace Reader

/-! ### Questions and answers -/

/-- What a reader can be asked: one of its calls, or the next block as a member of a sequence. -/
inductive Asked where
  | call (call : ReaderCall)
  | next
  deriving DecidableEq, Repr

/-- What a reader answers. -/
inductive Answer where
  | header (mixedProperties : Bool)
  | keys (keys : Labels)
  | block (block : Option Block)
  | map (map : BlockMap)
  | finished

def Answer.blocks : Answer → List Block
  | .header _ => []
  | .keys _ => []
  | .block given => given.toList
  | .map read => read.blocks
  | .finished => []

def answer : Asked → Reader Answer
  | .call .header => do return .header (← header)
  | .call .keys => do return .keys (← keys)
  | .call .block => do return .block (← block)
  | .call .map => do return .map (← map)
  | .call .finish => do
    finish
    return .finished
  | .next => do return .block (← next)

/-- The answers to questions asked one after the other, whether or not the earlier ones failed,
and the session that is left. -/
def history : List Asked → ReaderSession → List (Except ContainerError Answer) × ReaderSession
  | [], session => ([], session)
  | asked :: further, session =>
    match answer asked session with
    | .ok given after => ((history further after).1.cons (.ok given), (history further after).2)
    | .error error after =>
      ((history further after).1.cons (.error error), (history further after).2)

/-- The blocks that have been handed out. -/
def delivered (answers : List (Except ContainerError Answer)) : List Block :=
  answers.flatMap fun
    | .ok given => given.blocks
    | .error _ => []

/-! ### Where a session stands -/

variable {source : Feed} {verify : Bool} {allocator : Allocator} {blocks : List Block}
  {session : ReaderSession} {α β : Type}

/-- Where a session stands that has handed out these blocks: what one pass over the container has
come by up to there is what the session knows and what it has handed out. -/
inductive Stands (source : Feed) (verify : Bool) (allocator : Allocator) :
    List Block → ReaderSession → Prop
  | idle : Stands source verify allocator [] (.start source verify allocator)
  | readingKeys {header : Header} {feed : Feed}
      (begun : Decoder.header .map source = .ok header feed) :
      Stands source verify allocator [] ⟨feed, verify, allocator, .readingKeys header⟩
  | readingBlocks {header : Header} {keys : Labels} {next : Nat} {first feed : Feed}
      {blocks : List Block} (opened : Decoder.opening source = .ok (header, keys) first)
      (within : next ≤ keys.count)
      (read : Decoder.replicate (Decoder.block allocator header.order) next first =
        .ok blocks feed) :
      Stands source verify allocator blocks
        ⟨feed, verify, allocator, .readingBlocks header keys next⟩
  | done {header : Header} {keys : Labels} {first last feed : Feed} {blocks : List Block}
      (opened : Decoder.opening source = .ok (header, keys) first)
      (read : Decoder.replicate (Decoder.block allocator header.order) keys.count first =
        .ok blocks last)
      (closed : Decoder.trailer header verify last = .ok () feed) :
      Stands source verify allocator blocks ⟨feed, verify, allocator, .done header keys⟩
  | failed {header : Option Header} {keys : Option Labels} {feed : Feed} {blocks : List Block}
      (front : blocks <+: Decoder.mapBlocks allocator source) :
      Stands source verify allocator blocks ⟨feed, verify, allocator, .failed header keys⟩

/-- What has been handed out comes first among the blocks of the container. -/
theorem Stands.front (stands : Stands source verify allocator blocks session) :
    blocks <+: Decoder.mapBlocks allocator source := by
  cases stands with
  | idle => exact List.nil_prefix
  | readingKeys => exact List.nil_prefix
  | readingBlocks opened within read =>
    simp only [Decoder.mapBlocks, opened]
    exact Decoder.upTo_of_replicate within read
  | done opened read =>
    simp only [Decoder.mapBlocks, opened]
    exact Decoder.upTo_of_replicate (Nat.le_refl _) read
  | failed front => exact front

/-- After a failure the blocks that were read but not handed out do not count. -/
theorem Stands.fewer {some : List Block} (stands : Stands source verify allocator blocks session)
    (broken : session.phase.state = .failed) (among : some <+: blocks) :
    Stands source verify allocator some session := by
  cases stands with
  | idle => cases broken
  | readingKeys => cases broken
  | readingBlocks => cases broken
  | done => cases broken
  | failed front => exact .failed (among.trans front)

/-- How a call ends that is made where these blocks have been handed out: it gives what is expected,
or it has failed for good and has handed out none. -/
def Ends (source : Feed) (verify : Bool) (allocator : Allocator) (blocks : List Block)
    (expected : α → ReaderSession → Prop) :
    EStateM.Result ContainerError ReaderSession α → Prop
  | .ok value after => expected value after
  | .error _ after => Stands source verify allocator blocks after ∧ after.phase.state = .failed

variable {expected : α → ReaderSession → Prop}

theorem Stands.fail {error : ContainerError} (stands : Stands source verify allocator blocks session)
    {feed : Feed} :
    Ends source verify allocator blocks expected (Reader.fail error { session with feed }) := by
  refine ⟨?_, rfl⟩
  have front := stands.front
  cases stands <;> exact .failed front

theorem Stands.refuse {call : ReaderCall}
    (stands : Stands source verify allocator blocks session) :
    Ends source verify allocator blocks expected (Reader.refuse call session) :=
  stands.fail

/-- A call that decodes the next part and goes over to another phase. -/
theorem Stands.advance {γ : Type} {phase : γ → ReaderPhase} {value : γ → α}
    {result : EStateM.Result ContainerError Feed γ}
    (stands : Stands source verify allocator blocks session)
    (h : ∀ part feed, result = .ok part feed →
      expected (value part) { session with feed, phase := phase part }) :
    Ends source verify allocator blocks expected (Reader.advance session phase value result) := by
  cases result with
  | ok part feed => exact h part feed rfl
  | error error feed => exact stands.fail

/-- One call behind the other. -/
theorem Ends.bind {reader : Reader β} {next : β → Reader α}
    {expected' : β → ReaderSession → Prop}
    (first : Ends source verify allocator blocks expected' (reader session))
    (second : ∀ value after, expected' value after →
      Ends source verify allocator blocks expected (next value after)) :
    Ends source verify allocator blocks expected ((reader >>= next) session) := by
  cases done : reader session with
  | ok value after =>
    rw [done] at first
    rw [run_bind_of_ok done]
    exact second value after first
  | error error after =>
    rw [done] at first
    rw [run_bind_of_error done]
    exact first

theorem Ends.imp {expected' : α → ReaderSession → Prop}
    {result : EStateM.Result ContainerError ReaderSession α}
    (h : Ends source verify allocator blocks expected' result)
    (weaker : ∀ value after, expected' value after → expected value after) :
    Ends source verify allocator blocks expected result := by
  cases result with
  | ok value after => exact weaker value after h
  | error error after => exact h

theorem Ends.fewer {more : List Block} {result : EStateM.Result ContainerError ReaderSession α}
    (h : Ends source verify allocator (blocks ++ more) expected result) :
    Ends source verify allocator blocks expected result := by
  cases result with
  | ok value after => exact h
  | error error after =>
    obtain ⟨stands, broken⟩ := h
    exact ⟨stands.fewer broken (List.prefix_append blocks more), broken⟩

/-! ### The calls that take one step -/

variable {header : Header} {keys : Labels} {next : Nat}

/-- Reading the header leaves the session standing where its blocks end. -/
theorem ends_header (stands : Stands source verify allocator blocks session) :
    Ends source verify allocator blocks
      (fun _ after => Stands source verify allocator blocks after) (Reader.header session) := by
  cases stands with
  | idle =>
    rw [header_eq rfl]
    exact Stands.idle.advance fun _ _ begun => .readingKeys begun
  | readingKeys begun => exact (Stands.readingKeys begun).refuse
  | readingBlocks opened within read => exact (Stands.readingBlocks opened within read).refuse
  | done opened read closed => exact (Stands.done opened read closed).refuse
  | failed front => exact (Stands.failed front).refuse

/-- The keys, in their turn. -/
theorem ends_keys_inTurn (stands : Stands source verify allocator blocks session)
    (phase : session.phase = .readingKeys header) :
    Ends source verify allocator blocks
      (fun keys after =>
        after.phase = .readingBlocks header keys 0 ∧ Stands source verify allocator blocks after)
      (Reader.keys session) := by
  rw [keys_eq phase]
  refine stands.advance fun keys feed read => ⟨rfl, ?_⟩
  cases stands with
  | readingKeys begun =>
    cases phase
    exact .readingBlocks (Decoder.opening_of_ok begun read) (Nat.zero_le _) rfl
  | _ => cases phase

/-- Reading the keys leaves the session standing where its blocks end. -/
theorem ends_keys (stands : Stands source verify allocator blocks session) :
    Ends source verify allocator blocks
      (fun _ after => Stands source verify allocator blocks after) (Reader.keys session) := by
  cases stands with
  | idle => exact Stands.idle.refuse
  | readingKeys begun =>
    exact (ends_keys_inTurn (.readingKeys begun) rfl).imp fun _ _ ended => ended.2
  | readingBlocks opened within read => exact (Stands.readingBlocks opened within read).refuse
  | done opened read closed => exact (Stands.done opened read closed).refuse
  | failed front => exact (Stands.failed front).refuse

/-- The next block, where one is left. -/
theorem ends_block_next (stands : Stands source verify allocator blocks session)
    (phase : session.phase = .readingBlocks header keys next) (more : next ≠ keys.count) :
    Ends source verify allocator blocks
      (fun given after => ∃ block, given = some block ∧
        after.phase = .readingBlocks header keys (next + 1) ∧
        Stands source verify allocator (blocks ++ [block]) after)
      (Reader.block session) := by
  rw [block_eq phase more]
  refine stands.advance fun block feed taken => ⟨block, rfl, rfl, ?_⟩
  cases stands with
  | readingBlocks opened within read =>
    cases phase
    exact .readingBlocks opened (by omega) (Decoder.replicate_succ_of_ok read taken)
  | _ => cases phase

/-- The end behind the last block. -/
theorem ends_block_last (stands : Stands source verify allocator blocks session)
    (phase : session.phase = .readingBlocks header keys keys.count) :
    Ends source verify allocator blocks
      (fun given after => given = none ∧ Stands source verify allocator blocks after)
      (Reader.block session) := by
  rw [block_last_eq phase]
  refine stands.advance fun _ feed closed => ⟨rfl, ?_⟩
  cases stands with
  | readingBlocks opened within read =>
    cases phase
    exact .done opened read closed
  | _ => cases phase

/-- Reading a block ends behind it, if there is one more. -/
theorem ends_block (stands : Stands source verify allocator blocks session) :
    Ends source verify allocator blocks
      (fun given after => Stands source verify allocator (blocks ++ given.toList) after)
      (Reader.block session) := by
  cases stands with
  | idle => exact Stands.idle.refuse
  | readingKeys begun => exact (Stands.readingKeys begun).refuse
  | @readingBlocks header keys next _ _ _ opened within read =>
    by_cases last : next = keys.count
    · subst last
      refine (ends_block_last (.readingBlocks opened within read) rfl).imp fun given after ended => ?_
      obtain ⟨rfl, stands⟩ := ended
      rw [Option.toList_none, List.append_nil]
      exact stands
    · refine (ends_block_next (.readingBlocks opened within read) rfl last).imp
        fun given after ended => ?_
      obtain ⟨block, rfl, _, stands⟩ := ended
      exact stands
  | done opened read closed =>
    change Stands source verify allocator (_ ++ []) _
    rw [List.append_nil]
    exact .done opened read closed
  | failed front => exact (Stands.failed front).refuse

/-- Looking for data behind the map leaves the session where it stands. -/
theorem ends_finish (stands : Stands source verify allocator blocks session) :
    Ends source verify allocator blocks
      (fun _ after => Stands source verify allocator blocks after) (finish session) := by
  cases stands with
  | idle => exact Stands.idle.refuse
  | readingKeys begun => exact (Stands.readingKeys begun).refuse
  | readingBlocks opened within read => exact (Stands.readingBlocks opened within read).refuse
  | @done header keys _ _ feed _ opened read closed =>
    have stands := Stands.done opened read closed
    change Ends _ _ _ _ _ (decode Decoder.finish ⟨feed, verify, allocator, .done header keys⟩)
    cases ended : Decoder.finish feed with
    | ok _ after =>
      rw [decode_of_ok ended, Decoder.finish_of_ok ended]
      exact stands
    | error error after =>
      rw [decode_of_error ended]
      exact stands.fail
  | failed front => exact (Stands.failed front).refuse

/-! ### The calls that take several steps -/

/-- All the blocks to come, and the end behind them. -/
theorem ends_blocks {count : Nat} (stands : Stands source verify allocator blocks session)
    (phase : session.phase = .readingBlocks header keys next) (all : next + count = keys.count) :
    Ends source verify allocator blocks
      (fun given after => Stands source verify allocator (blocks ++ given) after)
      (Reader.blocks count session) := by
  induction count generalizing session next blocks with
  | zero =>
    subst all
    unfold Reader.blocks
    refine (ends_block_last stands phase).bind fun given after ended => ?_
    change Stands source verify allocator (blocks ++ []) after
    rw [List.append_nil]
    exact ended.2
  | succ count ih =>
    unfold Reader.blocks
    refine (ends_block_next stands phase (by omega)).bind fun given after ended => ?_
    obtain ⟨block, rfl, phase, stands⟩ := ended
    refine ((ih stands phase (by omega)).fewer).bind fun rest last stands => ?_
    rw [List.append_assoc] at stands
    exact stands

/-- Reading all blocks ends behind the last one. -/
theorem ends_content (stands : Stands source verify allocator blocks session)
    (phase : session.phase = .readingBlocks header keys 0) :
    Ends source verify allocator blocks
      (fun map after => Stands source verify allocator (blocks ++ map.blocks) after)
      (content header keys session) := by
  unfold content
  refine (ends_blocks stands phase (Nat.zero_add _)).bind fun given after stands => ?_
  cases built : BlockMap.ofBlocks keys given header.mixedProperties with
  | ok map =>
    obtain ⟨_, _, rfl⟩ := BlockMap.ofBlocks_eq_ok_iff.mp built
    exact stands
  | error error => exact Ends.fewer stands.fail

/-- Reading the keys and the blocks ends behind the last block. -/
theorem ends_rest (stands : Stands source verify allocator blocks session) :
    Ends source verify allocator blocks
      (fun map after => Stands source verify allocator (blocks ++ map.blocks) after)
      (rest session) := by
  cases stands with
  | idle => exact Stands.idle.refuse
  | readingKeys begun =>
    exact (ends_keys_inTurn (.readingKeys begun) rfl).bind fun keys after ended =>
      ends_content ended.2 ended.1
  | @readingBlocks _ _ next _ _ _ opened within read =>
    cases next with
    | zero => exact ends_content (.readingBlocks opened within read) rfl
    | succ next => exact (Stands.readingBlocks opened within read).refuse
  | done opened read closed => exact (Stands.done opened read closed).refuse
  | failed front => exact (Stands.failed front).refuse

/-- Reading a map ends behind its last block. -/
theorem ends_map (stands : Stands source verify allocator blocks session) :
    Ends source verify allocator blocks
      (fun map after => Stands source verify allocator (blocks ++ map.blocks) after)
      (map session) := by
  cases stands with
  | idle => exact (ends_header .idle).bind fun _ _ stands => ends_rest stands
  | readingKeys begun => exact ends_rest (.readingKeys begun)
  | readingBlocks opened within read => exact ends_rest (.readingBlocks opened within read)
  | done opened read closed => exact ends_rest (.done opened read closed)
  | failed front => exact ends_rest (.failed front)

theorem ends_nextFromKeys (stands : Stands source verify allocator blocks session) :
    Ends source verify allocator blocks
      (fun given after => Stands source verify allocator (blocks ++ given.toList) after)
      (nextFromKeys session) := by
  cases stands with
  | idle => exact ends_block .idle
  | readingKeys begun =>
    exact (ends_keys (.readingKeys begun)).bind fun _ _ stands => ends_block stands
  | readingBlocks opened within read => exact ends_block (.readingBlocks opened within read)
  | done opened read closed => exact ends_block (.done opened read closed)
  | failed front =>
    change Stands source verify allocator (_ ++ []) _
    rw [List.append_nil]
    exact .failed front

/-- Reading the next block, and before it what has not been read yet, ends behind the block. -/
theorem ends_next (stands : Stands source verify allocator blocks session) :
    Ends source verify allocator blocks
      (fun given after => Stands source verify allocator (blocks ++ given.toList) after)
      (Reader.next session) := by
  cases stands with
  | idle => exact (ends_header .idle).bind fun _ _ stands => ends_nextFromKeys stands
  | readingKeys begun => exact ends_nextFromKeys (.readingKeys begun)
  | readingBlocks opened within read => exact ends_nextFromKeys (.readingBlocks opened within read)
  | done opened read closed => exact ends_nextFromKeys (.done opened read closed)
  | failed front => exact ends_nextFromKeys (.failed front)

/-! ### Any questions -/

/-- Every call keeps where the session stands, and fails for good if it fails. -/
theorem ends_answer (stands : Stands source verify allocator blocks session) (asked : Asked) :
    Ends source verify allocator blocks
      (fun given after => Stands source verify allocator (blocks ++ given.blocks) after)
      (answer asked session) := by
  have none : ∀ {after}, Stands source verify allocator blocks after →
      Stands source verify allocator (blocks ++ []) after := by
    intro after stands
    rw [List.append_nil]
    exact stands
  cases asked with
  | next => exact (ends_next stands).bind fun _ _ stands => stands
  | call call =>
    cases call with
    | header => exact (ends_header stands).bind fun _ _ stands => none stands
    | keys => exact (ends_keys stands).bind fun _ _ stands => none stands
    | block => exact (ends_block stands).bind fun _ _ stands => stands
    | map => exact (ends_map stands).bind fun _ _ stands => stands
    | finish => exact (ends_finish stands).bind fun _ _ stands => none stands

/-- After a failure every call is refused, the sequence of blocks is at its end, and nothing is
read or changed. -/
theorem answer_of_failed (broken : session.phase.state = .failed) :
    (∀ call, answer (.call call) session =
      .error (.misuse (.readerCall call .failed)) session) ∧
    answer .next session = .ok (.block none) session := by
  obtain ⟨feed, verify, allocator, phase⟩ := session
  cases phase with
  | failed header keys =>
    refine ⟨fun call => ?_, rfl⟩
    cases call <;> rfl
  | _ => cases broken

/-- Whatever is asked for, a session stands where the blocks that it has handed out end. -/
theorem stands_history (stands : Stands source verify allocator blocks session)
    (asked : List Asked) :
    Stands source verify allocator (blocks ++ delivered (history asked session).1)
      (history asked session).2 := by
  induction asked generalizing session blocks with
  | nil =>
    change Stands source verify allocator (blocks ++ []) session
    rw [List.append_nil]
    exact stands
  | cons first further ih =>
    have ended := ends_answer stands first
    unfold history
    cases done : answer first session with
    | ok given after =>
      rw [done] at ended
      have rest := ih ended
      rw [List.append_assoc] at rest
      exact rest
    | error error after =>
      rw [done] at ended
      exact ih ended.1

/-- A session that has failed stays as it is. -/
theorem history_of_failed (broken : session.phase.state = .failed) (asked : List Asked) :
    (history asked session).2 = session := by
  induction asked with
  | nil => rfl
  | cons first further ih =>
    obtain ⟨calls, next⟩ := answer_of_failed broken
    cases first with
    | call call =>
      unfold history
      rw [calls call]
      exact ih
    | next =>
      unfold history
      rw [next]
      exact ih

/-- A failure is never made good by a later call. -/
theorem failed_of_error {error : ContainerError} {asked : List Asked}
    (stands : Stands source verify allocator blocks session)
    (among : .error error ∈ (history asked session).1) :
    (history asked session).2.phase.state = .failed := by
  induction asked generalizing session blocks with
  | nil => cases among
  | cons first further ih =>
    have ended := ends_answer stands first
    unfold history at among ⊢
    cases done : answer first session with
    | ok given after =>
      rw [done] at ended among
      rcases List.mem_cons.mp among with same | later
      · cases same
      · exact ih ended later
    | error _ after =>
      rw [done] at ended
      rw [← ended.2]
      exact congrArg (fun session => session.phase.state) (history_of_failed ended.2 further)

/-! ### The whole map -/

/-- A reader that has not read anything, and has been asked for the header, is in front of the
keys. -/
theorem phase_of_header {mixedProperties : Bool} {after : ReaderSession}
    (done : Reader.header (.start source verify allocator) = .ok mixedProperties after) :
    ∃ header, after.phase = .readingKeys header ∧ header.mixedProperties = mixedProperties := by
  rw [header_eq rfl] at done
  obtain ⟨header, feed, _, rfl, rfl⟩ := advance_eq_ok.mp done
  exact ⟨header, rfl, rfl⟩

theorem phase_of_keys {after : ReaderSession} (phase : session.phase = .readingKeys header)
    (done : Reader.keys session = .ok keys after) :
    after.phase = .readingBlocks header keys 0 := by
  rw [keys_eq phase] at done
  obtain ⟨_, feed, _, rfl, rfl⟩ := advance_eq_ok.mp done
  rfl

theorem rest_in_front_of_keys (phase : session.phase = .readingKeys header) :
    rest session = (Reader.keys >>= fun keys => content header keys) session := by
  obtain ⟨feed, verify, allocator, _⟩ := session
  subst phase
  rfl

theorem map_in_front_of_keys (phase : session.phase = .readingKeys header) :
    map session = (Reader.keys >>= fun keys => content header keys) session := by
  obtain ⟨feed, verify, allocator, _⟩ := session
  subst phase
  rfl

theorem map_in_front_of_blocks (phase : session.phase = .readingBlocks header keys 0) :
    map session = content header keys session := by
  obtain ⟨feed, verify, allocator, _⟩ := session
  subst phase
  rfl

/-- A map is read by the header, the keys, and the blocks one after the other. -/
def steps : Reader BlockMap := do
  let mixedProperties ← Reader.header
  let keys ← Reader.keys
  let blocks ← Reader.blocks keys.count
  match BlockMap.ofBlocks keys blocks mixedProperties with
  | .ok map => pure map
  | .error error => Reader.fail (.content (.invalid error))

variable (source verify allocator)

theorem map_eq_steps :
    map (.start source verify allocator) = steps (.start source verify allocator) := by
  change (Reader.header >>= fun _ => rest) _ = _
  unfold steps
  refine run_bind_congr fun mixedProperties after done => ?_
  obtain ⟨header, phase, rfl⟩ := phase_of_header done
  exact rest_in_front_of_keys phase

/-- A map can be read as well when its header has been read already. -/
theorem map_after_header :
    (Reader.header >>= fun _ => map) (.start source verify allocator) =
      map (.start source verify allocator) := by
  refine run_bind_congr fun mixedProperties after done => ?_
  obtain ⟨header, phase, rfl⟩ := phase_of_header done
  rw [map_in_front_of_keys phase, rest_in_front_of_keys phase]

/-- A map can be read as well when its header and its keys have been read already. -/
theorem map_after_keys :
    (Reader.header >>= fun _ => Reader.keys >>= fun _ => map) (.start source verify allocator) =
      map (.start source verify allocator) := by
  refine run_bind_congr fun mixedProperties after done => ?_
  obtain ⟨header, phase, rfl⟩ := phase_of_header done
  rw [rest_in_front_of_keys phase]
  refine run_bind_congr fun keys last done => ?_
  exact map_in_front_of_blocks (phase_of_keys phase done)

/-- What a whole map is read to: what is made of the parts that one pass comes by. -/
theorem map_eq_onePass :
    outcome (map (.start source verify allocator)) =
      (do
        let (header, keys, blocks) ← Decoder.onePass allocator verify
        Decoder.accept (BlockMap.ofBlocks keys blocks header.mixedProperties) :
          Decoder BlockMap) source := by
  have read : outcome (map (.start source verify allocator)) =
      BlockMap.readWith allocator verify source :=
    (run_eq map allocator verify source).symm
  rw [read, BlockMap.readWith_eq]
  unfold Decoder.container Decoder.mapContent Decoder.contentBy Decoder.onePass Decoder.opening
    BlockMap.ofContent
  simp only [bind_assoc, pure_bind]

/-! ### The result -/

/-- What holds of the answers of a reader and of the session that is left. -/
structure InOrder (answers : List (Except ContainerError Answer)) (session : ReaderSession) :
    Prop where
  /-- The blocks come from left to right, none of them is left out or comes twice. -/
  front : delivered answers <+: Decoder.mapBlocks allocator source
  /-- In front of a block, the blocks before it have been handed out, and what is left of the
  bytes is what one pass leaves there. -/
  counted : ∀ header keys next, session.phase = .readingBlocks header keys next →
    (delivered answers).length = next ∧ next ≤ keys.count ∧
    Decoder.passTo allocator next source = .ok (header, keys, delivered answers) session.feed
  /-- At the end, all blocks have been handed out and one pass has succeeded, the checksum
  included. -/
  complete : ∀ header keys, session.phase = .done header keys →
    (delivered answers).length = keys.count ∧
    Decoder.onePass allocator verify source =
      .ok (header, keys, delivered answers) session.feed
  /-- At the end, a reader of the whole map would have given the map of the keys and of the blocks
  that have been handed out. -/
  whole : ∀ header keys, session.phase = .done header keys →
    outcome (map (.start source verify allocator)) =
      Decoder.accept (BlockMap.ofBlocks keys (delivered answers) header.mixedProperties)
        session.feed
  /-- A call that fails leaves a session that has failed. -/
  fails : ∀ asked error after, answer asked session = .error error after →
    after.phase.state = .failed
  /-- No failure has been made good. -/
  broken : ∀ error, .error error ∈ answers → session.phase.state = .failed
  /-- After a failure every call is refused, the sequence of blocks is at its end, and nothing is
  read or changed. -/
  refused : session.phase.state = .failed →
    (∀ call, answer (.call call) session =
      .error (.misuse (.readerCall call .failed)) session) ∧
    answer .next session = .ok (.block none) session

variable {source verify allocator}

/-- In front of a block, one pass has come by the blocks before it. -/
theorem Stands.counted (stands : Stands source verify allocator blocks session)
    (phase : session.phase = .readingBlocks header keys next) :
    blocks.length = next ∧ next ≤ keys.count ∧
    Decoder.passTo allocator next source = .ok (header, keys, blocks) session.feed := by
  cases stands with
  | readingBlocks opened within read =>
    cases phase
    refine ⟨Decoder.length_of_replicate read, within, ?_⟩
    unfold Decoder.passTo
    rw [run_bind_of_ok opened]
    change (Decoder.replicate _ next >>= _) _ = _
    rw [run_bind_of_ok read]
    rfl
  | _ => cases phase

/-- At the end, one pass has succeeded. -/
theorem Stands.complete (stands : Stands source verify allocator blocks session)
    (phase : session.phase = .done header keys) :
    blocks.length = keys.count ∧
    Decoder.onePass allocator verify source = .ok (header, keys, blocks) session.feed := by
  cases stands with
  | done opened read closed =>
    cases phase
    refine ⟨Decoder.length_of_replicate read, ?_⟩
    unfold Decoder.onePass
    rw [run_bind_of_ok opened]
    change (Decoder.replicate _ keys.count >>= _) _ = _
    rw [run_bind_of_ok read, run_bind_of_ok closed]
    rfl
  | _ => cases phase

/-- Answers that end where the session stands are in order. -/
theorem Stands.inOrder {answers : List (Except ContainerError Answer)}
    (stands : Stands source verify allocator (delivered answers) session)
    (broken : ∀ error, .error error ∈ answers → session.phase.state = .failed) :
    InOrder source verify allocator answers session where
  front := stands.front
  counted _ _ _ phase := stands.counted phase
  complete _ _ phase := stands.complete phase
  whole header keys phase := by
    rw [map_eq_onePass, run_bind_of_ok (stands.complete phase).2]
  fails := by
    intro asked error after done
    have ended := ends_answer stands asked
    rw [done] at ended
    exact ended.2
  broken := broken
  refused := answer_of_failed

variable (source verify allocator)

/-- **Whatever a reader is asked**, it hands out the blocks in order, each of them once, and fails
for good. A whole map can be asked for on a new reader, behind the header or behind the keys, with
the same result as when its parts are asked for one after the other. -/
theorem inOrder_history (asked : List Asked) :
    InOrder source verify allocator (history asked (.start source verify allocator)).1
      (history asked (.start source verify allocator)).2 ∧
    (Reader.header >>= fun _ => map) (.start source verify allocator) =
      map (.start source verify allocator) ∧
    (Reader.header >>= fun _ => Reader.keys >>= fun _ => map) (.start source verify allocator) =
      map (.start source verify allocator) ∧
    map (.start source verify allocator) = steps (.start source verify allocator) := by
  refine ⟨?_, map_after_header source verify allocator, map_after_keys source verify allocator,
    map_eq_steps source verify allocator⟩
  exact (stands_history .idle asked).inOrder fun _ among => failed_of_error .idle among

end Reader

end LabeledBlocks
