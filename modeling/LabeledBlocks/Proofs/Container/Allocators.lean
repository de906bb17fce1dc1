import LabeledBlocks.Proofs.Container.Canonical
import LabeledBlocks.Proofs.Container.Machine
import LabeledBlocks.Proofs.Reachable

/-!
# It does not matter which arrays are given

A map is read into arrays that an allocator gives, which may go by whatever it was asked for before
and may leave anything in its arrays. A run with such an allocator is compared, step by step, with the
run over the same bytes in which all arrays are zeros. As long as the arrays suit their shapes, both
runs do the same. At the first array that does not suit, the run ends before anything is written to it.

* `Dense.Suits` — an array has the shape that was asked for, and as many values as this says.
* `Decoder.InStep` — two runs do the same until an array does not suit.
* `Overwriting.readWith_eq` — a map that is read into the arrays themselves, over what they hold.
* `BlockMap.readWith_independent` — what is read does not depend on the arrays.
-/

namespace LabeledBlocks

/-! ### Arrays that suit -/

/-- The array has the shape that was asked for, and as many values as the shape says. -/
structure Dense.Suits (array : Dense) (shape : List Nat) : Prop where
  shaped : array.shape = shape
  sized : array.data.size = shape.prod

/-- What is wrong with an array that does not suit. -/
def Dense.misfit (array : Dense) (shape : List Nat) : Malformation :=
  if array.shape ≠ shape then .allocatedShape array.shape shape
  else .allocatedLength array.data.size shape

theorem Dense.suits_filled (shape : List Nat) (value : FloatBits) :
    (Dense.filled shape value).Suits shape :=
  ⟨rfl, Dense.filled_filled shape value⟩

theorem Dense.suits_zeros (shape : List Nat) : (Dense.zeros shape).Suits shape :=
  Dense.suits_filled shape 0

namespace Decoder

variable {α β : Type}

theorem fill_of_suits {array : Dense} {shape : List Nat} (suits : array.Suits shape)
    (values : List FloatBits) : fill array shape values = pure ⟨shape, values.toArray⟩ := by
  unfold fill
  rw [if_neg (not_not.mpr suits.shaped), if_neg (not_not.mpr suits.sized)]

/-- An array that does not suit is refused, whatever is to be put into it. -/
theorem fill_of_not_suits {array : Dense} {shape : List Nat} (unsuited : ¬array.Suits shape)
    (values : List FloatBits) :
    fill array shape values = refuse (.malformed (array.misfit shape)) := by
  unfold fill Dense.misfit
  by_cases other : array.shape ≠ shape
  · rw [if_pos other, if_pos other]
    rfl
  · have size : array.data.size ≠ shape.prod := fun size => unsuited ⟨not_not.mp other, size⟩
    rw [if_neg other, if_neg other, if_pos size]
    rfl

/-! ### Two runs in step -/

/-- On its way through a feed the decoder asks for an array when those before it have been asked
for. -/
def Calls (decoder : Decoder α) (feed : Feed) (earlier : List Request) (request : Request) : Prop :=
  request :: earlier <:+ (decoder.left feed).asked

/-- All arrays that were given since `before` suit. -/
inductive Served (allocator : Allocator) (before : List Request) : List Request → Prop where
  | nothing : Served allocator before before
  | another {earlier : List Request} {request : Request} (served : Served allocator before earlier)
      (suits : (allocator earlier request.shape).Suits request.shape) :
      Served allocator before (request :: earlier)

section Served

variable {allocator : Allocator} {before middle asked : List Request}

theorem Served.trans (h : Served allocator before middle) (h' : Served allocator middle asked) :
    Served allocator before asked := by
  induction h' with
  | nothing => exact h
  | another _ suits ih => exact .another ih suits

/-- In a run that is served, every array that was asked for suits. -/
theorem Served.suits (h : Served allocator [] asked) {earlier : List Request} {request : Request}
    (called : request :: earlier <:+ asked) :
    (allocator earlier request.shape).Suits request.shape := by
  induction h with
  | nothing => cases List.eq_nil_of_suffix_nil called
  | another _ suits ih =>
    rcases List.suffix_cons_iff.mp called with last | before
    · cases last
      exact suits
    · exact ih before

end Served

/-- With arrays from the allocator, a decoder does the same as another one, and all arrays suit; or
it is refused an array that does not suit, and everything ends there. -/
inductive InStep (allocator : Allocator) (given plain : Decoder α) (feed : Feed) : Prop where
  | same (same : given feed = plain feed)
      (served : Served allocator feed.asked (given.left feed).asked)
  | stopped {earlier : List Request} {request : Request} {after : Feed}
      (served : Served allocator feed.asked earlier)
      (unsuited : ¬(allocator earlier request.shape).Suits request.shape)
      (failed : given feed = .error
        (.content (.malformed ((allocator earlier request.shape).misfit request.shape))) after)
      (asked : after.asked = request :: earlier) (position : after.position = request.position)

section InStep

variable {allocator : Allocator} {given plain : Decoder α} {next next' : α → Decoder β}

/-- A decoder that asks for no array is in step with itself. -/
theorem Leaves.inStep {decoder : Decoder α} (quiet : decoder.Leaves Quiet) (feed : Feed) :
    InStep allocator decoder decoder feed := by
  refine .same rfl ?_
  rw [(quiet feed).asked]
  exact .nothing

/-- Runs that are in step can go on in step. -/
theorem InStep.bind {feed : Feed} (h : InStep allocator given plain feed)
    (h' : ∀ value middle, InStep allocator (next value) (next' value) middle) :
    InStep allocator (given >>= next) (plain >>= next') feed := by
  cases h with
  | same same served =>
    cases done : given feed with
    | ok value middle =>
      rw [left_of_ok done] at served
      have plainly := run_bind_of_ok (f := next') (same.symm.trans done)
      cases h' value middle with
      | same same' served' =>
        refine .same ?_ ?_
        · rw [run_bind_of_ok done, plainly, same']
        · rw [left_bind_of_ok done]
          exact served.trans served'
      | stopped served' unsuited failed asked position =>
        exact .stopped (served.trans served') unsuited ((run_bind_of_ok done).trans failed) asked
          position
    | error error after =>
      rw [left_of_error done] at served
      refine .same ?_ ?_
      · rw [run_bind_of_error done, run_bind_of_error (same.symm.trans done)]
      · rwa [left_bind_of_error done]
  | stopped served unsuited failed asked position =>
    exact .stopped served unsuited (run_bind_of_error failed) asked position

/-- A step that asks for no array may stand in front. -/
theorem InStep.behind {decoder : Decoder α} (quiet : decoder.Leaves Quiet)
    (h : ∀ value feed, InStep allocator (next value) (next' value) feed) (feed : Feed) :
    InStep allocator (decoder >>= next) (decoder >>= next') feed :=
  (quiet.inStep feed).bind h

theorem InStep.unless {refused : Prop} [Decidable refused] {fault : ContentFault}
    {given plain : Unit → Decoder α}
    (h : ¬refused → ∀ feed, InStep allocator (given ()) (plain ()) feed) (feed : Feed) :
    InStep allocator (if refused then Decoder.refuse fault >>= given else given ())
      (if refused then Decoder.refuse fault >>= plain else plain ()) feed := by
  by_cases holds : refused
  · rw [if_pos holds, if_pos holds]
    exact .same rfl .nothing
  · rw [if_neg holds, if_neg holds]
    exact h holds feed

theorem InStep.replicate (h : ∀ feed, InStep allocator given plain feed) (count : Nat)
    (feed : Feed) :
    InStep allocator (Decoder.replicate given count) (Decoder.replicate plain count) feed := by
  induction count generalizing feed with
  | zero => exact (quiet_pure []).inStep feed
  | succ count ih =>
    refine (h feed).bind fun first middle => (ih middle).bind fun rest => ?_
    exact (quiet_pure _).inStep

/-! ### Block after block -/

/-- An array is asked for and filled: what it holds does not matter, if it suits. -/
theorem inStep_filled (allocator : Allocator) (shape : List Nat) (values : List FloatBits)
    (feed : Feed) :
    InStep allocator
      (allocate allocator shape >>= fun array => fill array shape values)
      (allocate .zeros shape >>= fun array => fill array shape values) feed := by
  have given : (allocate allocator shape >>= fun array => fill array shape values) feed =
      fill (allocator feed.asked shape) shape values (feed.ask shape) := rfl
  have plain : (allocate .zeros shape >>= fun array => fill array shape values) feed =
      fill (Dense.zeros shape) shape values (feed.ask shape) := rfl
  by_cases suits : (allocator feed.asked shape).Suits shape
  · rw [fill_of_suits suits] at given
    rw [fill_of_suits (Dense.suits_zeros shape)] at plain
    refine .same (given.trans plain.symm) ?_
    rw [left_of_ok given]
    exact .another .nothing suits
  · rw [fill_of_not_suits suits] at given
    let request : Request := ⟨shape, feed.position⟩
    have unsuited : ¬(allocator feed.asked request.shape).Suits request.shape := suits
    exact .stopped .nothing unsuited given rfl rfl

variable (allocator)

/-- Whatever arrays are given, a block is read in step with the one that is read into zeros. -/
theorem inStep_ownBlock (order : ByteOrder) (feed : Feed) :
    InStep allocator (ownBlock allocator order) (ownBlock .zeros order) feed := by
  rw [ownBlock, ownBlock]
  refine .behind (stepwise_quiet.axes order) (fun axes => ?_) feed
  refine .behind (stepwise_quiet.length order .rank) fun rank => .unless fun _ => ?_
  have numbers := stepwise_quiet.replicate (stepwise_quiet.count order .shape) rank
  refine .behind numbers fun shape => ?_
  refine .unless fun _ => .unless fun _ => ?_
  refine .behind (quiet_payload (8 * shape.prod) .blockValues) fun data feed => ?_
  have filled := inStep_filled allocator shape (floats order shape.prod data) feed
  rw [← bind_assoc, ← bind_assoc]
  exact filled.bind fun values => (stepwise_quiet.accept _).inStep

end InStep

section Nested

variable {allocator : Allocator} (order : ByteOrder)

theorem inStep_gradients {gradient gradient' : Decoder Block}
    (h : ∀ feed, InStep allocator gradient gradient' feed) (count : Nat) (block : Block)
    (feed : Feed) :
    InStep allocator (gradients order gradient count block) (gradients order gradient' count block)
      feed := by
  induction count generalizing block feed with
  | zero => exact (quiet_pure block).inStep feed
  | succ count ih =>
    refine .behind (stepwise_quiet.string order .parameter) (fun parameter middle => ?_) feed
    refine (h middle).bind fun next => ?_
    exact .behind (stepwise_quiet.accept _) fun block => ih block

theorem inStep_blockWithin {own own' : Decoder Block} (h : ∀ feed, InStep allocator own own' feed)
    (levels : Nat) (feed : Feed) :
    InStep allocator (blockWithin own order levels) (blockWithin own' order levels) feed := by
  induction levels generalizing feed with
  | zero =>
    refine (h feed).bind fun block => ?_
    refine .behind (stepwise_quiet.length order .gradientCount) fun count => ?_
    exact .unless fun _ => (quiet_pure block).inStep
  | succ levels ih =>
    refine (h feed).bind fun block => ?_
    refine .behind (stepwise_quiet.length order .gradientCount) fun count => ?_
    exact inStep_gradients order ih count block

theorem inStep_mapContent (feed : Feed) :
    InStep allocator (mapContent allocator order) (mapContent .zeros order) feed := by
  refine .behind (stepwise_quiet.keys order) (fun keys middle => ?_) feed
  have nested := inStep_blockWithin order (inStep_ownBlock allocator order) maxGradientDepth
  exact (InStep.replicate nested keys.count middle).bind fun blocks => (quiet_pure _).inStep

/-- Containers are read in step when their contents are. -/
theorem inStep_container {kind : ContainerKind} {content content' : ByteOrder → Decoder β}
    (build : Header → β → Except Error α) (verify : Bool)
    (h : ∀ order feed, InStep allocator (content order) (content' order) feed) (feed : Feed) :
    InStep allocator (container kind content build verify) (container kind content' build verify)
      feed := by
  refine .behind (quiet_header kind) (fun header middle => ?_) feed
  refine (h header.order middle).bind fun parts => ?_
  exact .behind (quiet_trailer header verify) fun _ => (stepwise_quiet.accept _).inStep

end Nested

/-- Whatever arrays are given, a map is read in step with the one that is read into zeros. -/
theorem inStep_readWith (allocator : Allocator) (verify : Bool) (feed : Feed) :
    InStep allocator (BlockMap.readWith allocator verify) (BlockMap.read verify) feed := by
  rw [BlockMap.read, BlockMap.readWith_eq, BlockMap.readWith_eq]
  exact inStep_container BlockMap.ofContent verify inStep_mapContent feed

end Decoder

/-! ### Written over what the arrays hold -/

namespace Overwriting

open Decoder

/-- Writes one value after the other over those of a buffer, as long as there are values and it has
room for them. -/
def overwrite : (buffer values : List FloatBits) → List FloatBits
  | _ :: buffer, value :: values => value :: overwrite buffer values
  | buffer, [] => buffer
  | [], _ => []

/-- What a buffer holds afterwards: the values that it had room for, and behind them what it held. -/
theorem overwrite_eq (buffer values : List FloatBits) :
    overwrite buffer values = values.take buffer.length ++ buffer.drop values.length := by
  induction buffer generalizing values with
  | nil => cases values <;> rfl
  | cons old buffer ih =>
    cases values with
    | nil => rfl
    | cons value values =>
      rw [overwrite, ih]
      rfl

/-- Nothing of the buffer is left when there are as many values as it has. -/
theorem overwrite_of_length_eq {buffer values : List FloatBits}
    (length : buffer.length = values.length) : overwrite buffer values = values := by
  rw [overwrite_eq, length, List.take_length, ← length, List.drop_length, List.append_nil]

/-- Writes values into an array that was asked for, if it suits. -/
def fill (array : Dense) (shape : List Nat) (values : List FloatBits) : Decoder Dense := do
  if array.shape ≠ shape then
    refuse (.malformed (.allocatedShape array.shape shape))
  if array.data.size ≠ shape.prod then
    refuse (.malformed (.allocatedLength array.data.size shape))
  pure { array with data := (overwrite array.data.toList values).toArray }

/-- With as many values as the shape says, nothing is left of what the array held. -/
theorem fill_eq {array : Dense} {shape : List Nat} {values : List FloatBits}
    (enough : values.length = shape.prod) :
    fill array shape values = Decoder.fill array shape values := by
  unfold fill Decoder.fill
  by_cases other : array.shape ≠ shape
  · rw [if_pos other, if_pos other]
    rfl
  by_cases size : array.data.size ≠ shape.prod
  · rw [if_neg other, if_neg other, if_pos size, if_pos size]
    rfl
  have same := not_not.mp other
  have length : array.data.toList.length = values.length := by
    rw [Array.length_toList, not_not.mp size, enough]
  rw [if_neg other, if_neg other, if_neg size, if_neg size, overwrite_of_length_eq length, same]

def ownBlock (allocator : Allocator) (order : ByteOrder) : Decoder Block := do
  let axes ← axes order
  valuesBehind fill allocator order axes

theorem ownBlock_eq (allocator : Allocator) (order : ByteOrder) :
    ownBlock allocator order = Decoder.ownBlock allocator order := by
  have filled : ∀ (array : Dense) (shape : List Nat) (data : List UInt8),
      fill array shape (floats order shape.prod data) =
        Decoder.fill array shape (floats order shape.prod data) :=
    fun _ shape data => fill_eq (length_floats order shape.prod data)
  unfold ownBlock Decoder.ownBlock valuesBehind
  simp only [filled]

/-- Reads a map from a feed, each array of it into the one that the allocator gives for it. -/
def readWith (allocator : Allocator) (verify : Bool) : Decoder BlockMap :=
  let block order := blockWithin (ownBlock allocator order) order maxGradientDepth
  container .map (fun order => contentBy (keys order) (block order)) BlockMap.ofContent verify

theorem readWith_eq (allocator : Allocator) (verify : Bool) :
    readWith allocator verify = BlockMap.readWith allocator verify := by
  rw [readWith, funext (ownBlock_eq allocator), BlockMap.readWith_eq]
  rfl

end Overwriting

namespace BlockMap

/-- **What is read does not depend on the arrays that are given**, whatever the bytes are, wherever
they break off, whatever the allocator goes by and whatever it leaves in its arrays. As long as every
array suits, the outcome is that of reading without an allocator. The first array that does not suit is
refused, no array is asked for behind it, and nothing is read any more. So whatever map is given is the
one that is read without an allocator, and its values fit its labels, although they are written over
what the arrays hold. -/
theorem readWith_independent (allocator : Allocator) (verify : Bool) (bytes : List UInt8)
    (ending : Ending) :
    ((∀ earlier request, (readWith allocator verify).Calls (.of bytes ending) earlier request →
        (allocator earlier request.shape).Suits request.shape) →
      readWith allocator verify (.of bytes ending) = read verify (.of bytes ending)) ∧
    (∀ earlier request, (readWith allocator verify).Calls (.of bytes ending) earlier request →
      ¬(allocator earlier request.shape).Suits request.shape →
        ∃ after, readWith allocator verify (.of bytes ending) = .error (.content (.malformed
            ((allocator earlier request.shape).misfit request.shape))) after ∧
          after.asked = request :: earlier ∧ after.position = request.position) ∧
    (∀ map after, readWith allocator verify (.of bytes ending) = .ok map after →
      read verify (.of bytes ending) = .ok map after ∧ map.Sound) ∧
    Overwriting.readWith allocator verify = readWith allocator verify := by
  have step := Decoder.inStep_readWith allocator verify (.of bytes ending)
  refine ⟨fun suit => ?_, fun earlier request called unsuited => ?_, fun map after done => ?_,
    Overwriting.readWith_eq allocator verify⟩
  · cases step with
    | same same _ => exact same
    | stopped _ unsuited failed asked _ =>
      refine absurd (suit _ _ ?_) unsuited
      rw [Decoder.Calls, Decoder.left_of_error failed, asked]
  · cases step with
    | same _ served => exact absurd (served.suits called) unsuited
    | @stopped earlier' request' after served unsuited' failed asked position =>
      rw [Decoder.Calls, Decoder.left_of_error failed, asked] at called
      rcases List.suffix_cons_iff.mp called with last | before
      · cases last
        exact ⟨after, failed, asked, position⟩
      · exact absurd (served.suits before) unsuited
  · refine ⟨?_, sound_of_read done⟩
    cases step with
    | same same _ => rw [← same, done]
    | stopped _ _ failed _ _ => cases failed.symm.trans done

/-- Gives arrays that hold old values. -/
def used : Allocator := fun _ shape => Dense.filled shape 1

/-- Gives such arrays, but the second one has no room for values. -/
def usedUp : Allocator := fun earlier shape =>
  if earlier.length = 1 then ⟨shape, #[]⟩ else Dense.filled shape 1

theorem crossed_independent :
    readWith used true (.of crossedBytes .endOfData) = read true (.of crossedBytes .endOfData) ∧
      ∃ after, readWith usedUp true (.of crossedBytes .endOfData) =
          .error (.content (.malformed (.allocatedLength 0 [1, 1]))) after ∧
        after.asked = [⟨[1, 1], 235⟩, ⟨[1, 1], 136⟩] ∧ after.position = 235 := by
  have called : (readWith usedUp true).Calls (.of crossedBytes .endOfData) [⟨[1, 1], 136⟩]
      ⟨[1, 1], 235⟩ := by
    unfold Decoder.Calls
    decide +kernel
  have unsuited : ¬(usedUp [⟨[1, 1], 136⟩] [1, 1]).Suits [1, 1] := fun suits =>
    absurd suits.sized (by decide)
  constructor
  · exact (readWith_independent used true crossedBytes .endOfData).1 fun _ request _ =>
      Dense.suits_filled request.shape 1
  · exact (readWith_independent usedUp true crossedBytes .endOfData).2.1 _ _ called unsuited

end BlockMap

end LabeledBlocks
