import LabeledBlocks.Error
import LabeledBlocks.FloatBits.Basic

/-!
# Dense arrays

Arrays of 64-bit floating-point numbers in row-major order.

* `Dense.create` makes a fresh array, and `Dense.checkSpan` tells whether there can be one.
* `Dense.row` cuts out one of the runs that the values consist of.
* `Dense.permuteAxes` puts the axes into another order.
* `Dense.sameNumbers` compares as numbers, `=` compares as bits.
-/

namespace LabeledBlocks

/-- A shape, and the values in row-major order. -/
structure Dense where
  shape : List Nat
  data : Array FloatBits
  deriving DecidableEq, Repr

namespace Dense

/-- The greatest length that an array is made for. Of values that are given it counts the elements,
of values that are read from a container the bytes. -/
def maxLength : Nat := 2 ^ 63 - 1

/-- Elements of an array of this shape with the empty axes left out of account. -/
def span (shape : List Nat) : Nat :=
  (shape.filter (· ≠ 0)).prod

/-- Refuses a shape that spans more than an array can have. -/
def checkSpan (shape : List Nat) : Except Error Unit :=
  if span shape > maxLength then .error (.outOfRange (.shape shape)) else .ok ()

def zeros (shape : List Nat) : Dense :=
  ⟨shape, Array.replicate shape.prod 0⟩

/-- A fresh array of zeros, for a shape that an array can have. -/
def create (shape : List Nat) : Except Error Dense := do
  checkSpan shape
  pure (zeros shape)

def filled (shape : List Nat) (value : FloatBits) : Dense :=
  ⟨shape, Array.replicate shape.prod value⟩

/-- An array with these values in row-major order. -/
def ofValues (shape : List Nat) (values : Array FloatBits) : Except Error Dense :=
  if values.size ≠ shape.prod then
    .error (.array (.elementCount shape shape.prod values.size))
  else if span shape > maxLength then .error (.array .tooLarge)
  else .ok ⟨shape, values⟩

def value (array : Dense) (position : Nat) : Except Error FloatBits :=
  match array.data[position]? with
  | some value => .ok value
  | none => .error (.outOfRange .values)

/-- The `index`-th run of `length` values. -/
def row (array : Dense) (length index : Nat) : Except Error (Array FloatBits) :=
  if (index + 1) * length ≤ array.data.size then
    .ok (array.data.extract (index * length) ((index + 1) * length))
  else .error (.outOfRange .values)

/-! ### Axes -/

/-- How many positions apart two neighbours along each axis are. -/
def strides : List Nat → List Nat
  | [] => []
  | _ :: shape => shape.prod :: strides shape

/-- The positions that are reached by walking through axes of these lengths and strides, the
last axis fastest. -/
def steps : List (Nat × Nat) → List Nat
  | [] => [0]
  | (length, stride) :: axes =>
    let inner := steps axes
    (List.range length).flatMap fun i => inner.map (i * stride + ·)

/-- The same positions, of which there are none as soon as one axis is empty, however long the
others are. -/
def walk (axes : List (Nat × Nat)) : List Nat :=
  if axes.any (·.1 == 0) then [] else steps axes

/-- An empty axis leaves nothing to walk through. -/
theorem steps_eq_nil {axes : List (Nat × Nat)} (h : axes.any (·.1 == 0)) : steps axes = [] := by
  induction axes with
  | nil => simp at h
  | cons axis axes ih =>
    obtain ⟨length, stride⟩ := axis
    rw [List.any_cons, Bool.or_eq_true] at h
    rcases h with h | h
    · have none : length = 0 := beq_iff_eq.1 h
      simp [steps, none]
    · simp [steps, ih h]

theorem walk_eq_steps (axes : List (Nat × Nat)) : walk axes = steps axes := by
  unfold walk
  split
  · exact (steps_eq_nil ‹_›).symm
  · rfl

def axis (array : Dense) (axis : Nat) : Except Error (Nat × Nat) :=
  match (array.shape.zip (strides array.shape))[axis]? with
  | some found => .ok found
  | none => .error (.outOfRange .axis)

def valuesAlong (array : Dense) (order : List Nat) : Except Error (Array FloatBits) := do
  let axes ← order.mapM array.axis
  let values ← (walk axes).mapM array.value
  pure values.toArray

/-- The array whose axes are those of `array` in the order `order`. -/
def permuteAxes (array : Dense) (order : List Nat) : Except Error Dense := do
  let axes ← order.mapM array.axis
  let data ← array.valuesAlong order
  pure ⟨axes.map (·.1), data⟩

/-! ### Comparison -/

def sameNumbers (a b : Dense) : Bool :=
  a.shape == b.shape && a.data.size == b.data.size
    && (a.data.toList.zip b.data.toList).all fun (x, y) => FloatBits.sameNumber x y

end Dense

end LabeledBlocks
