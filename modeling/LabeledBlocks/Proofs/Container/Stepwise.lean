import LabeledBlocks.Proofs.Container.Kinds

/-!
# Properties that go from step to step

The contents of all containers are read in the same few steps: bytes are taken, values are given,
contents are refused, arrays are asked for, and one decoder goes on behind the other. A property
that these steps have, and that goes from two decoders to one behind the other, is a property of
everything that is read.

* `Decoder.Stepwise` — such a property, arrays apart.
* `Decoder.Stepwise.labels`, `Decoder.Stepwise.keys` — labels and keys, for which no array is asked.
* `Decoder.Stepwise.block`, `Decoder.Stepwise.mapContent` — blocks and maps, when a block without
  its gradients has the property.
-/

namespace LabeledBlocks.Decoder

/-- The property goes from step to step. -/
structure Stepwise (P : {α : Type} → Decoder α → Prop) : Prop where
  given : ∀ {α : Type} (value : α), P (pure value : Decoder α)
  refuse : ∀ {α : Type} (fault : ContentFault), P (Decoder.refuse fault : Decoder α)
  payload : ∀ count field, P (Decoder.payload count field)
  bind : ∀ {α β : Type} {decoder : Decoder α} {next : α → Decoder β},
    P decoder → (∀ value, P (next value)) → P (decoder >>= next)

namespace Stepwise

variable {P : {α : Type} → Decoder α → Prop} (steps : Stepwise P)

include steps

section Steps

variable {α : Type} {decoder : Decoder α}

theorem accept (result : Except Error α) : P (Decoder.accept result) := by
  cases result with
  | ok value => exact steps.given value
  | error error => exact steps.refuse _

/-- A condition may refuse. -/
theorem guarded {refused : Prop} [Decidable refused] {fault : ContentFault}
    {next : Unit → Decoder α} (h : P (next ())) :
    P (if refused then Decoder.refuse fault >>= next else next ()) := by
  by_cases holds : refused
  · rw [if_pos holds]
    exact steps.bind (steps.refuse fault) fun _ => h
  · rwa [if_neg holds]

theorem number (order : ByteOrder) (count : Nat) (field : Field) :
    P (Decoder.number order count field) :=
  steps.bind (steps.payload count field) fun _ => steps.given _

theorem length (order : ByteOrder) (field : Field) : P (Decoder.length order field) :=
  steps.number order 4 field

theorem count (order : ByteOrder) (field : Field) : P (Decoder.count order field) :=
  steps.number order 8 field

theorem string (order : ByteOrder) (field : Field) : P (Decoder.string order field) := by
  refine steps.bind (steps.length order field) fun size => ?_
  refine steps.bind (steps.payload size field) fun data => ?_
  cases Utf8.decode data with
  | ok text => exact steps.given text
  | error fault => exact steps.refuse _

theorem replicate (h : P decoder) (count : Nat) : P (Decoder.replicate decoder count) := by
  induction count with
  | zero => exact steps.given []
  | succ count ih => exact steps.bind h fun _ => steps.bind ih fun _ => steps.given _

end Steps

/-! ### Labels -/

theorem labelBytes (rows width : Nat) : P (Decoder.labelBytes rows width) := by
  unfold Decoder.labelBytes
  exact steps.guarded (steps.given _)

theorem labels (order : ByteOrder) : P (Decoder.labels order) := by
  refine steps.bind (steps.length order .nameCount) fun nameCount => ?_
  refine steps.bind (steps.replicate (steps.string order .name) nameCount) fun names => ?_
  refine steps.bind (steps.count order .rowCount) fun rows => ?_
  refine steps.bind (steps.length order .rowWidth) fun width => ?_
  refine steps.guarded (steps.guarded (steps.bind (steps.labelBytes rows width) fun size => ?_))
  exact steps.bind (steps.payload size .labelValues) fun _ => steps.accept _

theorem keys (order : ByteOrder) : P (Decoder.keys order) := by
  refine steps.bind (steps.labels order) fun keys => ?_
  refine steps.bind (steps.count order .blockCount) fun blockCount => ?_
  exact steps.guarded (steps.given keys)

/-! ### Blocks -/

section Blocks

variable {allocator : Allocator}

theorem fill (array : Dense) (shape : List Nat) (values : List FloatBits) :
    P (Decoder.fill array shape values) := by
  unfold Decoder.fill
  exact steps.guarded (steps.guarded (steps.given _))

theorem axes (order : ByteOrder) : P (Decoder.axes order) := by
  refine steps.bind (steps.labels order) fun samples => ?_
  refine steps.bind (steps.length order .componentCount) fun componentCount => ?_
  refine steps.bind (steps.replicate (steps.labels order) componentCount) fun components => ?_
  exact steps.bind (steps.labels order) fun properties => steps.given _

theorem ownBlock (allocate : ∀ shape, P (Decoder.allocate allocator shape)) (order : ByteOrder) :
    P (Decoder.ownBlock allocator order) := by
  refine steps.bind (steps.axes order) fun axes => ?_
  refine steps.bind (steps.length order .rank) fun rank => steps.guarded ?_
  refine steps.bind (steps.replicate (steps.count order .shape) rank) fun shape => ?_
  refine steps.guarded (steps.guarded ?_)
  refine steps.bind (steps.payload _ .blockValues) fun data => ?_
  refine steps.bind (allocate shape) fun array => ?_
  exact steps.bind (steps.fill array shape _) fun values => steps.accept _

variable {order : ByteOrder}

theorem gradients {gradient : Decoder Block} (h : P gradient) (count : Nat) (block : Block) :
    P (Decoder.gradients order gradient count block) := by
  induction count generalizing block with
  | zero => exact steps.given block
  | succ count ih =>
    refine steps.bind (steps.string order .parameter) fun parameter => steps.bind h fun next => ?_
    exact steps.bind (steps.accept _) fun block => ih block

theorem blockWithin {own : Decoder Block} (h : P own) (levels : Nat) :
    P (Decoder.blockWithin own order levels) := by
  induction levels with
  | zero =>
    refine steps.bind h fun block => ?_
    refine steps.bind (steps.length order .gradientCount) fun count => ?_
    exact steps.guarded (steps.given block)
  | succ levels ih =>
    refine steps.bind h fun block => ?_
    exact steps.bind (steps.length order .gradientCount) fun count => steps.gradients ih count block

variable (own : P (Decoder.ownBlock allocator order))

include own

theorem block : P (Decoder.block allocator order) :=
  steps.blockWithin own maxGradientDepth

theorem mapContent : P (Decoder.mapContent allocator order) := by
  refine steps.bind (steps.keys order) fun keys => ?_
  exact steps.bind (steps.replicate (steps.block own) _) fun _ => steps.given _

end Blocks

/-! ### Behind the content -/

/-- The checksum is read behind a look at what has been taken so far. -/
theorem trailer (look : P (get : Decoder Feed)) (header : Header) (verify : Bool) :
    P (Decoder.trailer header verify) := by
  unfold Decoder.trailer
  by_cases checked : header.hasChecksum = true
  · rw [if_pos checked]
    refine steps.bind look fun feed => ?_
    refine steps.bind (steps.number header.order 4 .checksum) fun stored => ?_
    split
    · exact steps.refuse _
    · exact steps.given ()
  · rw [if_neg checked]
    exact steps.given ()

end Stepwise

end LabeledBlocks.Decoder
