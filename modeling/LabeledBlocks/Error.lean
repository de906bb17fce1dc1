import LabeledBlocks.Text.Quoted

/-!
# Errors

Why labels, blocks and maps are refused. Each error is a cause with the values that show it;
`Error.message` alone decides the wording.
-/

namespace LabeledBlocks

open Text

/-- The values of one row of labels, one per dimension. -/
abbrev Row := List Int32

/-! ### Causes -/

/-- Why a dimension name is no identifier. -/
inductive NameFault where
  | empty
  | leadingDigit
  | foreignCharacter
  deriving DecidableEq, Repr

/-- Where a dimension name stands twice. -/
inductive NameClash where
  | withinLabels
  | acrossComponents
  | componentsAndSamples
  | componentsAndProperties
  deriving DecidableEq, Repr

/-- What of an array's shape is at fault: the whole shape or one axis of it. -/
inductive ShapePart where
  | whole
  | samples
  | component (index : Nat)
  | properties
  deriving DecidableEq, Repr

/-- How the component axes of two blocks differ. -/
inductive ComponentDifference where
  /-- The number of axes. -/
  | axisCount (expected got : Nat)
  /-- The dimension names of one axis. -/
  | names (axis : Nat) (got expected : List String)
  /-- The labels of one axis. -/
  | labels (axis : Nat)
  /-- Anything at all, between blocks that were to be joined along their samples. -/
  | joining
  deriving DecidableEq, Repr

/-- Why the properties of two blocks had to be identical. -/
inductive PropertyConflict where
  /-- One block is the gradient of the other. -/
  | gradient (parameter : String)
  /-- The blocks of these two keys were to be joined along their samples. -/
  | keys (key first : Row)
  /-- The block at this position of a list was to be joined with the first one. -/
  | joining (block : Nat)
  deriving DecidableEq, Repr

/-- Why a block can not be a gradient. -/
inductive GradientFault where
  /-- Its first sample dimension does not refer to the samples of its block. -/
  | sampleNames (got : List String)
  | tooFewComponents (expected got : Nat)
  | component (axis : Nat)
  /-- The gradient of this block in a list has other sample names than that of the first. -/
  | differentSampleNames (block : Nat) (got expected : List String)
  /-- One of the blocks being joined has no such gradient. -/
  | missing
  deriving DecidableEq, Repr

/-- Why a row of joined samples is ambiguous. -/
inductive SampleAmbiguity where
  | dimension (name : String)
  | row (values : Row)
  deriving DecidableEq, Repr

/-- What a move takes its dimensions from. -/
inductive MoveSource where
  | keys
  | samples
  | components
  deriving DecidableEq, Repr

/-- Why an argument of an operation is refused. -/
inductive ArgumentFault where
  | rowsWithoutNames
  | emptyParameter
  | unknownDimension (name : String) (dimensions : List String)
  | nothingToMove (source : MoveSource)
  | movedTwice (source : MoveSource) (name : String)
  | alreadyProperty (name : String)
  | alreadyKey (name : String)
  | noSampleDimensionLeft
  | notComponent (name : String)
  deriving DecidableEq, Repr

/-- Why values do not fill an array. -/
inductive ArrayFault where
  | elementCount (shape : List Nat) (required got : Nat)
  | tooLarge
  deriving DecidableEq, Repr

/-- What breaks an operation off: an index that points outside of what it should point into, or an
array that can not be made. -/
inductive Stray where
  /-- A dimension that a row has no value for. -/
  | dimension
  /-- A position outside the values of an array. -/
  | values
  /-- A sample that the parent of a gradient does not have. -/
  | sample
  /-- An axis that an array does not have. -/
  | axis
  /-- The first block of a group that has none. -/
  | block
  /-- A shape whose axes, the empty ones left out of account, span more than an array can have. -/
  | shape (shape : List Nat)
  deriving DecidableEq, Repr

/-- An entry that was asked for by its position and does not exist. -/
inductive MissingEntry where
  | row (index count : Nat)
  | block (index count : Nat)
  deriving DecidableEq, Repr

/-- Why labels, a block or a map are refused. -/
inductive Error where
  | duplicateRow (names : List String) (row : Row)
  | widthMismatch (index expected got : Nat)
  | incompatibleNames (first second : List String)
  | invalidName (name : String) (fault : NameFault)
  | duplicateName (name : String) (clash : NameClash)
  | shapeMismatch (part : ShapePart) (expected got : List Nat)
  | duplicateGradient (parameter : String)
  | propertyMismatch (conflict : PropertyConflict)
  | invalidSampleReference (row : Nat) (reference : Int32) (parentCount : Nat)
  | invalidGradient (parameter : String) (fault : GradientFault)
  | keyCountMismatch (keys blocks : Nat)
  | inconsistentProperties (block : Nat) (expected got : List String)
  | inconsistentSamples (block : Nat) (expected got : List String)
  | inconsistentComponents (block : Nat) (difference : ComponentDifference)
  | inconsistentGradients (block : Nat) (expected got : List String)
  | ambiguousSamples (ambiguity : SampleAmbiguity)
  | sampleMismatch (block : Nat)
  | invalidArgument (fault : ArgumentFault)
  | array (fault : ArrayFault)
  /-- An operation was about to read or write outside its data, or to make too large an array. -/
  | outOfRange (stray : Stray)
  deriving DecidableEq, Repr

/-! ### Wording -/

def NameFault.message : NameFault → String
  | .empty => "names can not be empty"
  | .leadingDigit => "names can not start with a digit"
  | .foreignCharacter => "names can only contain ASCII letters, digits and underscores"

def NameClash.message : NameClash → String
  | .withinLabels => "in the same labels"
  | .acrossComponents => "across component axes"
  | .componentsAndSamples => "in both components and samples"
  | .componentsAndProperties => "in both components and properties"

def ShapePart.message : ShapePart → String
  | .whole => "values"
  | .samples => "samples"
  | .component index => s!"components[{index}]"
  | .properties => "properties"

def ComponentDifference.message : ComponentDifference → String
  | .axisCount expected got => s!"expected {expected} component axes, got {got}"
  | .names axis got expected =>
    s!"component axis {axis} has names {quotes got}, expected {quotes expected}"
  | .labels axis => s!"component axis {axis} differs"
  | .joining => "components must be identical to merge blocks along samples"

def PropertyConflict.message : PropertyConflict → String
  | .gradient parameter =>
    s!"the gradient with respect to '{parameter}' must have the same properties as its block"
  | .keys key first =>
    s!"block for key {integers key} can not be merged along samples with the block for key "
      ++ integers first
  | .joining block =>
    s!"block {block} does not have the same properties as the other blocks being merged"

def GradientFault.message : GradientFault → String
  | .sampleNames got => s!"the first sample dimension must be 'sample', got {quotes got}"
  | .tooFewComponents expected got => s!"expected at least {expected} components, got {got}"
  | .component axis => s!"component {axis} differs from the block component"
  | .differentSampleNames block got expected =>
    s!"block {block} has gradient sample names {quotes got}, expected {quotes expected}"
  | .missing => "missing from one of the blocks being merged"

def SampleAmbiguity.message : SampleAmbiguity → String
  | .dimension name => s!"'{name}' is already a sample dimension"
  | .row values => s!"sample {integers values} would appear more than once"

def MoveSource.plural : MoveSource → String
  | .keys => "key dimensions"
  | .samples => "sample dimensions"
  | .components => "components"

def MoveSource.singular : MoveSource → String
  | .keys => "key dimension"
  | .samples => "sample dimension"
  | .components => "component"

def ArgumentFault.message : ArgumentFault → String
  | .rowsWithoutNames => "labels without dimension names can not contain rows"
  | .emptyParameter => "gradient parameter name can not be empty"
  | .unknownDimension name dimensions =>
    s!"'{name}' is not part of the dimensions {quotes dimensions}"
  | .nothingToMove source => s!"the list of {source.plural} to move can not be empty"
  | .movedTwice source name => s!"{source.singular} '{name}' is listed more than once"
  | .alreadyProperty name =>
    s!"can not move '{name}' to properties: it is already a property dimension"
  | .alreadyKey name => s!"can not move '{name}' to keys: it is already a key dimension"
  | .noSampleDimensionLeft => "at least one sample dimension must stay in the blocks"
  | .notComponent name => s!"'{name}' is not a single-dimension component of this block"

def ArrayFault.message : ArrayFault → String
  | .elementCount shape required got =>
    s!"shape {counts shape} requires {required} elements, but got {got}"
  | .tooLarge => "ShapeError/Overflow: arithmetic overflow"

def Stray.message : Stray → String
  | .dimension => "dimension out of range"
  | .values => "position out of range of the values"
  | .sample => "sample out of range"
  | .axis => "axis out of range"
  | .block => "block out of range"
  | .shape _ => "ndarray: Shape too large, product of non-zero axis lengths overflows isize"

def MissingEntry.message : MissingEntry → String
  | .row index count => s!"row index {index} out of bounds for labels with {count} rows"
  | .block index count => s!"index out of bounds: the len is {count} but the index is {index}"

def Error.message : Error → String
  | .duplicateRow names row =>
    s!"duplicate row {integers row} in labels with names {quotes names}"
  | .widthMismatch index expected got =>
    s!"row {index} has {got} values, expected {expected} (one per dimension name)"
  | .incompatibleNames first second =>
    s!"incompatible dimension names: {quotes first} vs {quotes second}"
  | .invalidName name fault => s!"invalid dimension name '{name}': {fault.message}"
  | .duplicateName name clash =>
    s!"dimension name '{name}' is used more than once {clash.message}"
  | .shapeMismatch part expected got =>
    s!"shape mismatch for {part.message}: expected {counts expected}, got {counts got}"
  | .duplicateGradient parameter =>
    s!"gradient with respect to '{parameter}' already exists in this block"
  | .propertyMismatch conflict => s!"property labels mismatch: {conflict.message}"
  | .invalidSampleReference row reference parentCount =>
    s!"gradient sample {row} references parent sample {reference.toInt}, "
      ++ s!"but the block only has {parentCount} samples"
  | .invalidGradient parameter fault =>
    s!"invalid gradient with respect to '{parameter}': {fault.message}"
  | .keyCountMismatch keys blocks => s!"got {keys} keys but {blocks} blocks"
  | .inconsistentProperties block expected got =>
    s!"block {block} has property names {quotes got}, expected {quotes expected}"
  | .inconsistentSamples block expected got =>
    s!"block {block} has sample names {quotes got}, expected {quotes expected}"
  | .inconsistentComponents block difference =>
    s!"block {block} has inconsistent components: {difference.message}"
  | .inconsistentGradients block expected got =>
    s!"block {block} has gradients {quotes got}, expected {quotes expected}"
  | .ambiguousSamples ambiguity => s!"ambiguous samples after moving keys: {ambiguity.message}"
  | .sampleMismatch block =>
    s!"block {block} has different samples from the other blocks in its group"
  | .invalidArgument fault => s!"invalid parameter: {fault.message}"
  | .array fault => s!"array error: {fault.message}"
  | .outOfRange stray => stray.message

end LabeledBlocks
