import LabeledBlocks.Proofs.Container.Asked
import LabeledBlocks.Proofs.Dense

/-!
# Sizes in machine words

Counts, widths, ranks and lengths of axes are read from bytes that nobody has checked. A machine
computes the sizes that follow from them in words. Some products are checked, and refused if they
are too great; for everything else that is too great the decoder here ends with an error of its own,
which can be any error. It is nevertheless the decoder that computes with all numbers, whatever that
error is: what is not checked can not become too great.

* `Machine.sized`, `Machine.checkedMul` — sizes that have to fit into a word, and products that are
  checked.
* `Machine.foldlM_sized` — every product on the way to that of a shape fits if there is room for it.
* `Machine.labels_eq`, `Machine.ownBlock_eq` — labels and blocks are decoded alike.
* `Machine.read_eq` — so is a whole map.
* `BlockMap.readWith_frugal` — reading asks for no array on the word of a container.
-/

namespace LabeledBlocks

namespace Machine

open Decoder

variable {α : Type}

/-! ### Words -/

/-- A size that is not checked. If it does not fit into a word the decoder ends with `overflow`. -/
def sized (overflow : ContainerError) (size : Nat) : Decoder Nat :=
  if size < addressLimit then pure size else throw overflow

/-- A product, if it fits into a word. -/
def checkedMul (a b : Nat) : Option Nat :=
  if a * b < addressLimit then some (a * b) else none

theorem sized_of_lt {overflow : ContainerError} {size : Nat} (small : size < addressLimit) :
    sized overflow size = pure size :=
  if_pos small

def labelBytes (rows width : Nat) : Decoder Nat :=
  match (checkedMul rows width).bind (checkedMul · 4) with
  | none => refuse (.malformed .labelsTooLarge)
  | some size => pure size

theorem labelBytes_eq : labelBytes = Decoder.labelBytes := by
  funext rows width
  unfold labelBytes Decoder.labelBytes checkedMul
  by_cases small : rows * width * 4 < addressLimit
  · have fits : rows * width < addressLimit := by omega
    rw [if_pos fits, Option.bind_some, if_pos small, if_neg (Nat.not_le.mpr small)]
  · rw [if_pos (Nat.not_lt.mp small)]
    by_cases fits : rows * width < addressLimit
    · rw [if_pos fits, Option.bind_some, if_neg small]
      rfl
    · rw [if_neg fits]
      rfl

def elements (overflow : ContainerError) (shape : List Nat) : Decoder Nat :=
  shape.foldlM (fun size axis => sized overflow (size * axis)) 1

/-- Is there room for an array of this shape, with its empty axes left out of account? -/
def hasRoom (shape : List Nat) : Bool :=
  match (shape.filter (· ≠ 0)).foldlM checkedMul 8 with
  | some bytes => bytes ≤ Dense.maxLength
  | none => false

section Shape

/-- A product of some numbers that are not zero fits into a word exactly if all products on the way
do. -/
theorem foldlM_checkedMul {axes : List Nat} (some : ∀ axis ∈ axes, axis ≠ 0) {size : Nat}
    (small : size < addressLimit) :
    axes.foldlM checkedMul size =
      if size * axes.prod < addressLimit then .some (size * axes.prod) else none := by
  induction axes generalizing size with
  | nil => rw [List.foldlM_nil, List.prod_nil, Nat.mul_one, if_pos small]; rfl
  | cons axis axes ih =>
    rw [List.forall_mem_cons] at some
    have positive : 0 < axes.prod := List.prod_pos_iff_forall_pos_nat.mpr fun other member =>
      Nat.pos_of_ne_zero (some.2 other member)
    rw [List.foldlM_cons, List.prod_cons, ← Nat.mul_assoc]
    by_cases fits : size * axis < addressLimit
    · rw [checkedMul, if_pos fits]
      exact ih some.2 fits
    · have great := Nat.le_mul_of_pos_right (size * axis) positive
      rw [checkedMul, if_neg fits, if_neg (by omega)]
      rfl

/-- In machine words, too, there is room exactly if the span is within the limit. -/
theorem hasRoom_iff {shape : List Nat} :
    hasRoom shape = true ↔ 8 * Dense.span shape ≤ Dense.maxLength := by
  have some : ∀ axis ∈ shape.filter (· ≠ 0), axis ≠ 0 := fun axis member =>
    of_decide_eq_true (List.mem_filter.mp member).2
  rw [hasRoom, foldlM_checkedMul some (by decide), ← Dense.span]
  by_cases fits : 8 * Dense.span shape < addressLimit
  · rw [if_pos fits, decide_eq_true_eq]
  · rw [if_neg fits]
    have : Dense.maxLength < addressLimit := by decide
    constructor
    · intro room
      cases room
    · omega

/-- Every product on the way to that of a shape fits into a word if there is room for the shape, even
if an empty axis comes behind long ones. -/
theorem foldlM_sized {overflow : ContainerError} {shape : List Nat} {size : Nat}
    (room : size * Dense.span shape < addressLimit) :
    shape.foldlM (fun size axis => sized overflow (size * axis)) size =
      pure (size * shape.prod) := by
  induction shape generalizing size with
  | nil => rw [List.foldlM_nil, List.prod_nil, Nat.mul_one]
  | cons axis shape ih =>
    rw [List.foldlM_cons, List.prod_cons, ← Nat.mul_assoc]
    by_cases empty : axis = 0
    · subst empty
      rw [Nat.mul_zero, Nat.zero_mul, sized_of_lt (by decide), pure_bind, ih (by simp [addressLimit]),
        Nat.zero_mul]
    · rw [Dense.span_cons empty, ← Nat.mul_assoc] at room
      have small := Nat.le_mul_of_pos_right (size * axis) (Dense.span_pos shape)
      rw [sized_of_lt (by omega), pure_bind, ih room]

/-- What there is room for is computed without an overflow. -/
theorem elements_eq {overflow : ContainerError} {shape : List Nat}
    (room : 8 * Dense.span shape ≤ Dense.maxLength) :
    elements overflow shape = pure shape.prod ∧
      sized overflow (8 * shape.prod) = pure (8 * shape.prod) := by
  have limit : Dense.maxLength < addressLimit := by decide
  have small : 1 * Dense.span shape < addressLimit := by omega
  have within := Dense.prod_le_span shape
  refine ⟨?_, sized_of_lt (by omega)⟩
  rw [elements, foldlM_sized small, Nat.one_mul]

end Shape

/-! ### Labels and blocks -/

/-- What follows a condition that may refuse only matters where it does not hold. -/
theorem refused_congr {refused : Prop} [Decidable refused] {fault : ContentFault}
    {next next' : Unit → Decoder α} (h : ¬refused → next () = next' ()) :
    (if refused then refuse fault >>= next else next ()) =
      if refused then refuse fault >>= next' else next' () := by
  by_cases holds : refused
  · rw [if_pos holds, if_pos holds]
    rfl
  · rw [if_neg holds, if_neg holds, h holds]

def labels (order : ByteOrder) : Decoder Labels :=
  labelsBy labelBytes Labels.ofValues order

theorem labels_eq (order : ByteOrder) : labels order = Decoder.labels order := by
  rw [labels, labelBytes_eq]
  rfl

def axes (order : ByteOrder) : Decoder Axes :=
  axesBy (labels order) order

theorem axes_eq (order : ByteOrder) : axes order = Decoder.axes order := by
  rw [axes, labels_eq]
  rfl

/-- The block of these labels and of the values behind them. -/
def valuesBehind (overflow : ContainerError) (allocator : Allocator) (order : ByteOrder)
    (axes : Axes) : Decoder Block := do
  let rank ← length order .rank
  let expected ← sized overflow (axes.components.length + 2)
  if rank ≠ expected then
    refuse (.malformed (.rank rank axes.components.length))
  let shape ← replicate (count order .shape) rank
  if shape ≠ axes.shape then
    refuse (.invalid (.shapeMismatch .whole axes.shape shape))
  if !hasRoom shape then
    refuse (.malformed (.shapeTooLarge shape))
  let size ← elements overflow shape
  let bytes ← sized overflow (8 * size)
  let data ← payload bytes .blockValues
  let array ← allocate allocator shape
  if array.shape ≠ shape then
    refuse (.malformed (.allocatedShape array.shape shape))
  if array.data.size ≠ size then
    refuse (.malformed (.allocatedLength array.data.size shape))
  let values := floats order size data
  accept (Block.ofValues ⟨shape, values.toArray⟩ axes.samples axes.components axes.properties)

/-- The values of a block are read alike in machine words. -/
theorem valuesBehind_eq (overflow : ContainerError) (allocator : Allocator) (order : ByteOrder)
    {axes : Axes} (few : axes.components.length < 2 ^ 32) :
    valuesBehind overflow allocator order axes =
      Decoder.valuesBehind fill allocator order axes := by
  have limit : axes.components.length + 2 < addressLimit := Nat.lt_trans
    (Nat.add_lt_add_right few 2) (by decide)
  unfold valuesBehind Decoder.valuesBehind
  rw [sized_of_lt limit]
  refine congrArg (length order .rank >>= ·) (funext fun rank => ?_)
  rw [pure_bind]
  refine refused_congr fun _ => ?_
  refine congrArg (replicate (count order .shape) rank >>= ·) (funext fun shape => ?_)
  refine refused_congr fun _ => ?_
  by_cases room : 8 * Dense.span shape ≤ Dense.maxLength
  · have fits : ¬(!hasRoom shape) = true := by rw [hasRoom_iff.mpr room]; decide
    obtain ⟨size, bytes⟩ := @elements_eq overflow shape room
    dsimp only
    rw [if_neg fits, if_neg (Nat.not_lt.mpr room), size, pure_bind, bytes, pure_bind]
    refine congrArg (payload (8 * shape.prod) .blockValues >>= ·) (funext fun data => ?_)
    refine congrArg (allocate allocator shape >>= ·) (funext fun array => ?_)
    unfold fill
    by_cases other : array.shape ≠ shape
    · rw [if_pos other, if_pos other]
      rfl
    · by_cases size : array.data.size ≠ shape.prod
      · rw [if_neg other, if_neg other, if_pos size, if_pos size]
        rfl
      · rw [if_neg other, if_neg other, if_neg size, if_neg size]
        rfl
  · have full : (!hasRoom shape) = true := by
      rw [Bool.not_eq_true', Bool.eq_false_iff]
      exact mt hasRoom_iff.mp room
    dsimp only
    rw [if_pos full, if_pos (Nat.lt_of_not_le room)]
    rfl

/-- There are no more component axes than a word counts. -/
theorem few_components {order : ByteOrder} {axes : Axes} {feed after : Feed}
    (done : Decoder.axes order feed = .ok axes after) : axes.components.length < 2 ^ 32 := by
  unfold Decoder.axes axesBy at done
  obtain ⟨samples, first, _, done⟩ := run_bind_eq_ok.mp done
  obtain ⟨componentCount, second, counted, done⟩ := run_bind_eq_ok.mp done
  obtain ⟨components, third, read, done⟩ := run_bind_eq_ok.mp done
  obtain ⟨properties, fourth, _, done⟩ := run_bind_eq_ok.mp done
  obtain ⟨rfl, rfl⟩ := EStateM.Result.ok.inj done
  obtain ⟨_, _, _, small⟩ := yields_length order .componentCount _ _ _ counted
  rw [length_of_replicate read]
  exact small

section Words

variable (overflow : ContainerError)

def ownBlock (allocator : Allocator) (order : ByteOrder) : Decoder Block := do
  let axes ← axes order
  valuesBehind overflow allocator order axes

theorem ownBlock_eq (allocator : Allocator) (order : ByteOrder) :
    ownBlock overflow allocator order = Decoder.ownBlock allocator order := by
  rw [ownBlock, axes_eq, Decoder.ownBlock]
  funext feed
  refine run_bind_congr fun axes middle done => ?_
  rw [valuesBehind_eq overflow allocator order (few_components done)]

/-! ### A whole map -/

def mapContent (allocator : Allocator) (order : ByteOrder) : Decoder (Labels × List Block) :=
  contentBy (keysBy (labels order) order)
    (blockWithin (ownBlock overflow allocator order) order maxGradientDepth)

theorem mapContent_eq (allocator : Allocator) (order : ByteOrder) :
    mapContent overflow allocator order = Decoder.mapContent allocator order := by
  rw [mapContent, labels_eq, ownBlock_eq]
  rfl

def read (allocator : Allocator) (verify : Bool) : Decoder BlockMap :=
  container .map (mapContent overflow allocator) BlockMap.ofContent verify

/-- A map is read as if there were no words. -/
theorem read_eq (allocator : Allocator) (verify : Bool) :
    read overflow allocator verify = BlockMap.readWith allocator verify := by
  rw [read, funext (mapContent_eq overflow allocator), BlockMap.readWith_eq]

end Words

end Machine

/-- **No array is asked for on the word of a container**, whatever bytes it is made of, wherever
these break off and whatever arrays are given: the reading of a map asks for arrays frugally, and computes
no size that does not fit into a word, since it does not matter what would happen then. -/
theorem BlockMap.readWith_frugal (allocator : Allocator) (verify : Bool) (bytes : List UInt8)
    (ending : Ending) :
    BlockMap.AsksFrugally allocator bytes ending
        ((BlockMap.readWith allocator verify).left (.of bytes ending)) ∧
      ∀ overflow, Machine.read overflow allocator verify = BlockMap.readWith allocator verify :=
  ⟨BlockMap.readWith_asks allocator verify bytes ending, fun overflow =>
    Machine.read_eq overflow allocator verify⟩

end LabeledBlocks
