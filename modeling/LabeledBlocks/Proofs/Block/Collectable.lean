import LabeledBlocks.Proofs.Block.JoinFits

/-!
# Blocks whose gradients can be collected

Every level of gradients is checked when blocks are joined along their properties, each time against
the first block. What passes has the same tree as the first block, and no component of it at any
depth has the name of a property. Nothing more is needed: if the rows that are collected of the
gradients can be numbered and there can be arrays for them, blocks with the same tree have a host, a
block that has room for all of their samples and properties.

* `Block.Avoids` — no component has one of some names, at any depth.
* `Block.sameTree_of_joined` — what blocks have in common that have been joined.
* `Block.Collectable` — the rows that are collected can be numbered, at every depth.
* `Block.WidenedShape`, `Block.spacious_of_joined` — the arrays that are made for joined blocks.
* `Block.exists_room` — blocks with the same tree have a host.
-/

namespace LabeledBlocks.Block

/-! ### Trees -/

namespace SameTree

variable {a b c : Block}

/-- It does not matter which of two blocks comes first. -/
theorem symm (h : SameTree a b) : SameTree b a := by
  induction h with
  | intro components parameters names _ ih =>
    refine .intro components.symm parameters.symm ?_ ?_
    · intro parameter gradient gradient' has has'
      exact (names parameter gradient' gradient has' has).symm
    · intro parameter gradient gradient' has has'
      exact ih parameter gradient' gradient has' has

/-- A gradient that one block has is one that the other has, too. -/
theorem exists_gradient (h : SameTree a b) {parameter : String} {gradient : Block}
    (has : a.gradient? parameter = some gradient) :
    ∃ gradient', b.gradient? parameter = some gradient' := by
  obtain ⟨_, parameters, _, _⟩ := h
  rw [← Option.isSome_iff_exists, isSome_gradient?_iff, ← parameters, ← isSome_gradient?_iff]
  exact Option.isSome_of_mem has

/-- Trees are compared by what they are made of. -/
theorem trans (h : SameTree a b) (h' : SameTree b c) : SameTree a c := by
  induction h generalizing c with
  | @intro a b components parameters names deeper ih =>
    have first := SameTree.intro components parameters names deeper
    obtain ⟨components', parameters', names', deeper'⟩ := h'
    refine .intro (components.trans components') (parameters.trans parameters') ?_ ?_
    · intro parameter gradient gradient' has has'
      obtain ⟨middle, between⟩ := first.exists_gradient has
      exact (names _ _ _ has between).trans (names' _ _ _ between has')
    · intro parameter gradient gradient' has has'
      obtain ⟨middle, between⟩ := first.exists_gradient has
      exact ih _ _ _ has between (deeper' _ _ _ between has')

section All

variable {blocks : List Block} (same : ∀ a ∈ blocks, ∀ b ∈ blocks, SameTree a b)

include same

/-- All blocks have a gradient with respect to a parameter if one of them has. -/
theorem mem_parameters {one gradient : Block} (isOne : one ∈ blocks) {parameter : String}
    (member : (parameter, gradient) ∈ one.gradients) :
    ∀ block ∈ blocks, parameter ∈ block.parameters := by
  intro block isBlock
  obtain ⟨_, parameters, _, _⟩ := same one isOne block isBlock
  rw [← parameters]
  exact List.mem_map_of_mem (f := Prod.fst) member

/-- Blocks with the same tree have gradients with the same tree. -/
theorem gradientsFor (parameter : String) :
    ∀ a ∈ Block.gradientsFor parameter blocks, ∀ b ∈ Block.gradientsFor parameter blocks,
      a.samples.names = b.samples.names ∧ SameTree a b := by
  intro gradient isGradient gradient' isGradient'
  obtain ⟨a, isOne, has⟩ := List.mem_filterMap.mp isGradient
  obtain ⟨b, isOther, has'⟩ := List.mem_filterMap.mp isGradient'
  obtain ⟨_, _, names, deeper⟩ := same a isOne b isOther
  exact ⟨names _ _ _ has has', deeper _ _ _ has has'⟩

end All

end SameTree

/-! ### Names that no component has -/

/-- No component has one of these names, at any depth. -/
def Avoids (names : List String) (block : Block) : Prop :=
  block.Everywhere fun block => ∀ name ∈ componentNames block.components, name ∉ names

namespace Avoids

variable {names more : List String} {a b block : Block}

/-- The components of a consistent block do not have the names of its properties. -/
theorem of_consistent (consistent : block.Consistent) : block.Avoids block.properties.names := by
  induction consistent with
  | @intro block own _ ih =>
    refine .intro (fun name isAxis => (own.newNames name isAxis).2) ?_
    intro parameter gradient member
    rw [← (own.gradients parameter gradient member).properties]
    exact ih parameter gradient member

theorem append (avoids : block.Avoids names) (avoids' : block.Avoids more) :
    block.Avoids (names ++ more) := by
  refine (Everywhere.and avoids avoids').imp fun _ ⟨old, new⟩ name isAxis member => ?_
  exact (List.mem_append.mp member).elim (old name isAxis) (new name isAxis)

theorem of_append (avoids : block.Avoids (names ++ more)) : block.Avoids more :=
  avoids.imp fun _ avoids name isAxis member =>
    avoids name isAxis (List.mem_append_right _ member)

end Avoids

/-! ### What joined blocks have in common -/

section Joined

variable {others : List Block} {properties : Labels} {sources : List Source}
  {positions : List (Array Nat)}

end Joined

/-! ### Numbers for the collected rows -/

/-- The rows of some gradients with the places of their samples, each row once. -/
def collected (place : Nat → Nat → Nat) (gradients : List Block) : List Row :=
  (redirectedRows place gradients).eraseDups

/-- The rows that are collected of the gradients that all blocks have can be numbered, at every
depth. -/
inductive Collectable : (place : Nat → Nat → Nat) → (blocks : List Block) → Prop where
  | intro {place : Nat → Nat → Nat} {blocks : List Block}
      (few : ∀ parameter, blocks ≠ [] → (∀ block ∈ blocks, parameter ∈ block.parameters) →
        (collected place (gradientsFor parameter blocks)).length ≤ 2 ^ 31)
      (deeper : ∀ parameter, blocks ≠ [] → (∀ block ∈ blocks, parameter ∈ block.parameters) →
        Collectable
          (placeAmong (collected place (gradientsFor parameter blocks)) place
            (gradientsFor parameter blocks))
          (gradientsFor parameter blocks)) :
      Collectable place blocks

namespace Collectable

variable {place : Nat → Nat → Nat} {blocks : List Block} {parameter : String}

theorem few (h : Collectable place blocks) (nonempty : blocks ≠ [])
    (all : ∀ block ∈ blocks, parameter ∈ block.parameters) :
    (collected place (gradientsFor parameter blocks)).length ≤ 2 ^ 31 := by
  cases h with
  | intro few _ => exact few parameter nonempty all

/-- When the rows of blocks can be collected, so can those of their gradients. -/
theorem inner (h : Collectable place blocks) (nonempty : blocks ≠ [])
    (all : ∀ block ∈ blocks, parameter ∈ block.parameters) :
    Collectable
      (placeAmong (collected place (gradientsFor parameter blocks)) place
        (gradientsFor parameter blocks))
      (gradientsFor parameter blocks) := by
  cases h with
  | intro _ deeper => exact deeper parameter nonempty all

end Collectable

/-- The shapes of the arrays that are made when blocks are joined to one with `count` samples and
`width` properties: that of the block, and those of the gradients that all blocks have, with as many
samples as rows are collected of them. -/
inductive WidenedShape (width : Nat) : (place : Nat → Nat → Nat) → (count : Nat) →
    (blocks : List Block) → List Nat → Prop where
  | own {place : Nat → Nat → Nat} {count : Nat} {blocks : List Block} {block : Block}
      (member : block ∈ blocks) :
      WidenedShape width place count blocks
        (count :: (block.components.map Labels.count ++ [width]))
  | deeper {place : Nat → Nat → Nat} {count : Nat} {blocks : List Block} {parameter : String}
      {shape : List Nat} (all : ∀ block ∈ blocks, parameter ∈ block.parameters)
      (inner : WidenedShape width
        (placeAmong (collected place (gradientsFor parameter blocks)) place
          (gradientsFor parameter blocks))
        (collected place (gradientsFor parameter blocks)).length (gradientsFor parameter blocks)
        shape) :
      WidenedShape width place count blocks shape

/-- There can be arrays for the joined block and its gradients. -/
def Spacious (width : Nat) (place : Nat → Nat → Nat) (count : Nat) (blocks : List Block) : Prop :=
  ∀ shape, WidenedShape width place count blocks shape → Dense.span shape ≤ Dense.maxLength

/-- A block with these labels and gradients, all values of which are zero. -/
def blank (samples : Labels) (components : List Labels) (properties : Labels)
    (gradients : List (String × Block)) : Block :=
  ⟨.zeros (labelledShape samples components properties), samples, components, properties,
    gradients⟩

/-- A host with these samples and properties, into which the blocks fit, and whose gradients have
samples that can be numbered. -/
structure Room (blocks : List Block) (place : Nat → Nat → Nat) (samples properties : Labels)
    (host : Block) : Prop where
  samples : host.samples = samples
  properties : host.properties = properties
  consistent : host.Consistent
  numbered : ∀ parameter gradient, (parameter, gradient) ∈ host.gradients → gradient.Numbered
  fits : ∀ b block, blocks[b]? = some block → Fits (place b) block host

/-- Collected rows make valid labels. -/
theorem valid_collected {names : List String} {gradients : List Block} (nonempty : gradients ≠ [])
    (valid : ∀ gradient ∈ gradients, gradient.samples.Valid)
    (sameNames : ∀ gradient ∈ gradients, gradient.samples.names = names) (named : names ≠ [])
    (place : Nat → Nat → Nat) : (Labels.of names (collected place gradients)).Valid := by
  obtain ⟨one, isOne⟩ := List.exists_mem_of_ne_nil _ nonempty
  have validOne := valid one isOne
  have same := sameNames one isOne
  refine ⟨⟨?_, nodup_eraseDups _⟩, same ▸ validOne.identifiers, same ▸ validOne.distinct,
    fun unnamed => absurd unnamed named⟩
  intro moved member
  obtain ⟨⟨gradient, b⟩, isGradient, inside⟩ := List.mem_flatMap.mp (List.mem_eraseDups.mp member)
  obtain ⟨row, isRow, rfl⟩ := List.mem_map.mp inside
  have isGradient := List.mem_of_getElem? (List.mem_zipIdx_iff_getElem?.mp isGradient)
  have width := (valid gradient isGradient).width row isRow
  rw [Labels.size, sameNames gradient isGradient] at width
  cases row with
  | nil => exact width
  | cons number rest => exact width

/-- A gradient that has room for the gradients of the blocks, with the rows that are collected of
them. -/
structure GradientRoom (blocks : List Block) (place : Nat → Nat → Nat) (properties : Labels)
    (entry host : String × Block) : Prop where
  parameter : host.1 = entry.1
  components : host.2.components = entry.2.components
  room : Room (gradientsFor entry.1 blocks)
    (placeAmong (collected place (gradientsFor entry.1 blocks)) place (gradientsFor entry.1 blocks))
    (.of entry.2.samples.names (collected place (gradientsFor entry.1 blocks))) properties host.2

theorem placeAmong_eq_rowAmong {rows : List Row} {place : Nat → Nat → Nat} {gradients : List Block}
    {b : Nat} {gradient : Block} (found : gradients[b]? = some gradient) :
    placeAmong rows place gradients b = rowAmong rows (place b) gradient := by
  funext n
  rw [placeAmong, found]
  rfl

section Host

variable {first : Block} {others : List Block} {place : Nat → Nat → Nat}
  {samples properties : Labels} {sources : List Source}
  (start : Widenable (first :: others) place samples properties sources)
  (same : ∀ a ∈ first :: others, ∀ b ∈ first :: others, SameTree a b)

include start same

/-- The gradients of the blocks are a start again, with the rows that are collected of them. -/
theorem widenable_collected (collectable : Collectable place (first :: others)) {parameter : String}
    {gradient : Block} (member : (parameter, gradient) ∈ first.gradients) :
    Widenable (gradientsFor parameter (first :: others))
      (placeAmong (collected place (gradientsFor parameter (first :: others))) place
        (gradientsFor parameter (first :: others)))
      (.of gradient.samples.names (collected place (gradientsFor parameter (first :: others))))
      properties sources := by
  have own := start.wellFormed first List.mem_cons_self
  have some := List.cons_ne_nil first others
  have all := SameTree.mem_parameters same List.mem_cons_self member
  have isFirst : gradient ∈ gradientsFor parameter (first :: others) :=
    List.mem_filterMap.mpr ⟨first, List.mem_cons_self, (gradient?_eq_some own.ordered).mpr member⟩
  have labelled : ∀ other ∈ gradientsFor parameter (first :: others), other.Labelled Labels.Valid :=
    everywhere_gradientsFor start.wellFormed start.valid
  have valid := valid_collected (gradientsFor_ne_nil some all)
    (fun other isOther => (labelled other isOther).own.samples)
    (fun other isOther => (SameTree.gradientsFor same parameter other isOther gradient isFirst).1)
    (own.gradients parameter gradient member).names_ne_nil place
  exact start.gradients all valid (collectable.few some all) rfl

variable {hosts : List (String × Block)}
  (rooms : List.Forall₂ (GradientRoom (first :: others) place properties) first.gradients hosts)

include rooms

/-- A block without values is well formed if there can be an array for it and its gradients have
room for those of the blocks. -/
theorem wellFormed_blank
    (room : Dense.span (labelledShape samples first.components properties) ≤ Dense.maxLength)
    (newNames : ∀ name ∈ componentNames first.components,
      name ∉ samples.names ∧ name ∉ properties.names) :
    (blank samples first.components properties hosts).WellFormed := by
  have own := start.wellFormed first List.mem_cons_self
  refine ⟨rfl, Dense.filled_zeros _, room, own.distinctNames, newNames, ?_, ?_⟩
  · have parameters : hosts.map (·.1) = first.parameters :=
      (map_eq_map_of_forall₂ rooms fun _ _ room => room.parameter.symm).symm
    rw [blank, Block.parameters, parameters]
    exact own.ordered
  · intro parameter host isHost
    obtain ⟨⟨parameter', gradient⟩, member, same', components, room⟩ :=
      exists_of_mem_right rooms isHost
    obtain rfl : parameter = parameter' := same'
    have goes := own.gradients parameter gradient member
    refine ⟨goes.named, ?_, components ▸ goes.components, room.properties, ?_⟩
    · rw [room.samples]
      exact goes.referring
    · rw [room.samples]
      intro row isRow
      have all := SameTree.mem_parameters same List.mem_cons_self member
      exact start.refers_redirectedRows all row (List.mem_eraseDups.mp isRow)

/-- The blocks fit into a block without values if their gradients have room in those of this
block. -/
theorem fits_blank {b : Nat} {block : Block} (standing : (first :: others)[b]? = some block) :
    Fits (place b) block (blank samples first.components properties hosts) := by
  have isBlock := List.mem_of_getElem? standing
  have own := start.wellFormed block isBlock
  have firstOwn := start.wellFormed first List.mem_cons_self
  obtain ⟨components, parameters, _, _⟩ := same block isBlock first List.mem_cons_self
  have inner : ∀ parameter host, (parameter, host) ∈ hosts → ∃ gradient,
      GradientRoom (first :: others) place properties (parameter, gradient) (parameter, host) ∧
      (gradientsFor parameter (first :: others))[b]? = some (gradientAt parameter block) ∧
      (gradientAt parameter block).samples.names = gradient.samples.names ∧
      GradientOf block parameter (gradientAt parameter block) := by
    intro parameter host isHost
    obtain ⟨⟨parameter', gradient⟩, member, room⟩ := exists_of_mem_right rooms isHost
    obtain rfl : parameter = parameter' := room.parameter
    have all := SameTree.mem_parameters same List.mem_cons_self member
    have has := gradient?_eq_gradientAt (all block isBlock)
    have found : (gradientsFor parameter (first :: others))[b]? =
        some (gradientAt parameter block) := by
      rw [getElem?_gradientsFor all, standing, Option.bind_some, has]
    have found' := (gradient?_eq_some firstOwn.ordered).mpr member
    refine ⟨gradient, room, found, ?_, own.gradients _ _ (mem_gradientAt own (all block isBlock))⟩
    exact (SameTree.gradientsFor same parameter _ (List.mem_of_getElem? found) gradient
      (List.mem_filterMap.mpr ⟨first, List.mem_cons_self, found'⟩)).1
  refine .intro ⟨components, ?_, start.placing.inside b block standing,
    start.placing.apart b block standing⟩ ?_ ?_ ?_
  · rw [parameters]
    exact map_eq_map_of_forall₂ rooms fun _ _ room => room.parameter.symm
  · intro parameter host isHost
    obtain ⟨gradient, room, _, names, _⟩ := inner parameter host isHost
    rw [room.room.samples]
    exact names
  · intro parameter host isHost row isRow
    obtain ⟨gradient, room, found, _, goes⟩ := inner parameter host isHost
    rw [room.room.samples]
    refine ⟨redirects_of_refers (start.fits b block standing) (goes.inRange row isRow), ?_⟩
    exact List.mem_eraseDups.mpr (mem_redirectedRows found isRow)
  · intro parameter host isHost
    obtain ⟨gradient, room, found, _, _⟩ := inner parameter host isHost
    have fits := room.room.fits b _ found
    rw [placeAmong_eq_rowAmong found] at fits
    rw [room.room.samples]
    exact fits

end Host

/-- Blocks with the same tree have a host, if what is collected of their gradients can be numbered,
there can be arrays for it, and no component has the name of a sample or a property of the host. -/
theorem exists_room {first : Block} {others : List Block} {place : Nat → Nat → Nat}
    {samples properties : Labels} {sources : List Source}
    (start : Widenable (first :: others) place samples properties sources)
    (same : ∀ a ∈ first :: others, ∀ b ∈ first :: others, SameTree a b)
    (collectable : Collectable place (first :: others))
    (spacious : Spacious properties.count place samples.count (first :: others))
    (newSamples : ∀ name ∈ componentNames first.components, name ∉ samples.names)
    (avoids : first.Avoids properties.names) :
    ∃ host, host.components = first.components ∧
      Room (first :: others) place samples properties host := by
  have firstConsistent := start.consistent first List.mem_cons_self
  induction firstConsistent generalizing others place samples with
  | @intro first own deeper ih =>
    have each : ∀ entry ∈ first.gradients, ∃ host,
        GradientRoom (first :: others) place properties entry host := by
      rintro ⟨parameter, gradient⟩ member
      have cons : gradientsFor parameter (first :: others) =
          gradient :: gradientsFor parameter others :=
        gradientsFor_cons ((gradient?_eq_some own.ordered).mpr member)
      -- the host of the gradients has the rows that are collected of them
      have start' := widenable_collected start same collectable member
      have same' := SameTree.gradientsFor same parameter
      have all := SameTree.mem_parameters same List.mem_cons_self member
      have collectable' := collectable.inner (List.cons_ne_nil first others) all
      have spacious' : Spacious properties.count _ _ (gradientsFor parameter (first :: others)) :=
        fun shape inner => spacious shape (.deeper all inner)
      rw [cons] at start' same' collectable' spacious'
      obtain ⟨host, components, room⟩ := ih parameter gradient member start'
        (fun a isOne b isOther => (same' a isOne b isOther).2) collectable'
        spacious'
        (fun name isAxis => ((deeper parameter gradient member).own.newNames name isAxis).1)
        (avoids.inner member)
      refine ⟨(parameter, host), rfl, components, ?_⟩
      rw [cons]
      exact room
    obtain ⟨hosts, rooms⟩ := exists_forall₂ each
    refine ⟨blank samples first.components properties hosts, rfl, rfl, rfl, .intro ?_ ?_, ?_, ?_⟩
    · exact wellFormed_blank start same rooms (spacious _ (.own List.mem_cons_self)) fun name isAxis =>
        ⟨newSamples name isAxis, avoids.own name isAxis⟩
    · intro parameter host isHost
      obtain ⟨_, _, room⟩ := exists_of_mem_right rooms isHost
      exact room.room.consistent
    · intro parameter host isHost
      obtain ⟨⟨parameter', gradient⟩, member, room⟩ := exists_of_mem_right rooms isHost
      have all := SameTree.mem_parameters same List.mem_cons_self member
      refine .intro ?_ fun _ _ below => room.room.numbered _ _ below
      rw [room.room.samples, Labels.count_eq]
      exact collectable.few (List.cons_ne_nil first others) all
    · exact fun b block standing => fits_blank start same rooms standing

end LabeledBlocks.Block
