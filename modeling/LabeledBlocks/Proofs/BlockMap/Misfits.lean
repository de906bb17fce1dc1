import LabeledBlocks.Proofs.Block.JoinBlame
import LabeledBlocks.Proofs.BlockMap.Consistent
import Mathlib.Data.List.Sort

/-!
# Blocks that do not fit into a map

The blocks of a map are compared with the first of them, one after the other and in a fixed order of
respects, and the comparison ends with the first difference. What has not been compared by then
belongs to blocks that are refused anyway. So a map is made exactly of as many blocks as keys, any
two of which have the same layout, and the block that an error names is the first that differs from
the first one.

* `BlockMap.SameLayout` — what any two blocks of a map have in common.
* `BlockMap.Misfit` — the first respect in which a block differs, with the error that tells it.
* `BlockMap.checkBlock_eq_error_iff`, `BlockMap.checkBlocks_eq_error_iff` — misfits are reported,
  the first of them.
* `BlockMap.accepted_iff` — which keys and blocks make a map.
* `BlockMap.first_misfit_reported` — when a map is made, and what blocks are refused for else.
-/

namespace LabeledBlocks.BlockMap

/-! ### Layouts -/

/-- The names along all axes are the same, and so are the parameters of the gradients. Blocks of
which the property names may be mixed need not have the same ones. -/
structure SameLayout (mixedProperties : Bool) (a b : Block) : Prop where
  sampleNames : a.samples.names = b.samples.names
  axisCount : a.components.length = b.components.length
  axisNames : ∀ (axis : Nat) (x y : Labels), a.components[axis]? = some x →
    b.components[axis]? = some y → x.names = y.names
  parameters : ∀ parameter, parameter ∈ a.parameters ↔ parameter ∈ b.parameters
  propertyNames : mixedProperties = false → a.properties.names = b.properties.names

/-- The names of axes are the same when they are axis by axis. -/
theorem componentNames_eq_iff {got expected : List Labels} :
    got.map Labels.names = expected.map Labels.names ↔
      got.length = expected.length ∧ ∀ (axis : Nat) (x y : Labels), got[axis]? = some x →
        expected[axis]? = some y → x.names = y.names := by
  constructor
  · intro same
    refine ⟨by simpa only [List.length_map] using congrArg List.length same, ?_⟩
    intro axis x y isFound isWanted
    have here := congrArg (·[axis]?) same
    simpa only [List.getElem?_map, isFound, isWanted, Option.map_some, Option.some.injEq] using here
  · rintro ⟨count, same⟩
    refine List.ext_getElem (by rw [List.length_map, List.length_map, count]) fun axis h h' => ?_
    rw [List.getElem_map, List.getElem_map]
    rw [List.length_map] at h h'
    exact same axis _ _ (List.getElem?_eq_getElem h) (List.getElem?_eq_getElem h')

instance (mixedProperties : Bool) (a b : Block) : Decidable (SameLayout mixedProperties a b) :=
  decidable_of_iff
    (a.samples.names = b.samples.names ∧
      a.components.map Labels.names = b.components.map Labels.names ∧
      ((∀ parameter ∈ a.parameters, parameter ∈ b.parameters) ∧
        ∀ parameter ∈ b.parameters, parameter ∈ a.parameters) ∧
      (mixedProperties = false → a.properties.names = b.properties.names))
    ⟨fun ⟨samples, components, ⟨has, has'⟩, properties⟩ =>
        have ⟨count, names⟩ := componentNames_eq_iff.mp components
        ⟨samples, count, names, fun parameter => ⟨has parameter, has' parameter⟩, properties⟩,
      fun ⟨samples, count, names, parameters, properties⟩ =>
        ⟨samples, componentNames_eq_iff.mpr ⟨count, names⟩,
          ⟨fun parameter => (parameters parameter).mp, fun parameter => (parameters parameter).mpr⟩,
          properties⟩⟩

section Layout

variable {mixedProperties : Bool} {a b : Block}

/-- Parameters that stand in order are the same if none is missing on either side. -/
theorem parameters_eq_iff (ordered : a.parameters.Pairwise (· < ·))
    (ordered' : b.parameters.Pairwise (· < ·)) :
    a.parameters = b.parameters ↔
      ∀ parameter, parameter ∈ a.parameters ↔ parameter ∈ b.parameters :=
  ⟨fun same _ => by rw [same], ordered.eq_of_mem_iff ordered'⟩

/-- Blocks that agree have the same layout, and the other way round. -/
theorem agree_iff_sameLayout (ordered : a.parameters.Pairwise (· < ·))
    (ordered' : b.parameters.Pairwise (· < ·)) :
    Agree mixedProperties a b ↔ SameLayout mixedProperties a b := by
  constructor
  · intro agree
    obtain ⟨count, names⟩ := componentNames_eq_iff.mp agree.componentNames
    exact ⟨agree.sampleNames, count, names,
      (parameters_eq_iff ordered ordered').mp agree.parameters, agree.propertyNames⟩
  · intro same
    exact ⟨same.sampleNames, componentNames_eq_iff.mpr ⟨same.axisCount, same.axisNames⟩,
      same.propertyNames, (parameters_eq_iff ordered ordered').mpr same.parameters⟩

end Layout

/-! ### Misfits -/

/-- The first respect in which a block at a position differs from the first block, and the error
that tells it. In all respects before, the blocks do not differ. -/
inductive Misfit (mixedProperties : Bool) (first : Block) (position : Nat) (block : Block) :
    Error → Prop where
  | sampleNames (differ : block.samples.names ≠ first.samples.names) :
      Misfit mixedProperties first position block
        (.inconsistentSamples position first.samples.names block.samples.names)
  | axisCount (samples : block.samples.names = first.samples.names)
      (differ : block.components.length ≠ first.components.length) :
      Misfit mixedProperties first position block
        (.inconsistentComponents position
          (.axisCount first.components.length block.components.length))
  | axisNames {before before' after after' : List Labels} {found wanted : Labels}
      (samples : block.samples.names = first.samples.names)
      (count : block.components.length = first.components.length)
      (split : block.components = before ++ found :: after)
      (split' : first.components = before' ++ wanted :: after')
      (same : before.map Labels.names = before'.map Labels.names)
      (differ : found.names ≠ wanted.names) :
      Misfit mixedProperties first position block
        (.inconsistentComponents position (.names before.length found.names wanted.names))
  | propertyNames (samples : block.samples.names = first.samples.names)
      (components : block.components.map Labels.names = first.components.map Labels.names)
      (unmixed : mixedProperties = false)
      (differ : block.properties.names ≠ first.properties.names) :
      Misfit mixedProperties first position block
        (.inconsistentProperties position first.properties.names block.properties.names)
  | parameters (samples : block.samples.names = first.samples.names)
      (components : block.components.map Labels.names = first.components.map Labels.names)
      (properties : mixedProperties = false → block.properties.names = first.properties.names)
      (differ : block.parameters ≠ first.parameters) :
      Misfit mixedProperties first position block
        (.inconsistentGradients position first.parameters block.parameters)

section Misfit

variable {mixedProperties : Bool} {first block : Block} {position : Nat} {e : Error}

theorem Misfit.block? (misfit : Misfit mixedProperties first position block e) :
    e.block? = some position := by
  cases misfit <;> rfl

/-- An error that tells a block from the first one tells the truth. -/
theorem Misfit.not_agree (misfit : Misfit mixedProperties first position block e) :
    ¬Agree mixedProperties block first := by
  intro agree
  cases misfit with
  | sampleNames differ => exact differ agree.sampleNames
  | axisCount _ differ => exact differ (componentNames_eq_iff.mp agree.componentNames).1
  | axisNames _ _ split split' same differ =>
    have names := agree.componentNames
    rw [split, split', List.map_append, List.map_append, same, List.append_cancel_left_eq] at names
    exact differ (List.cons.inj names).1
  | propertyNames _ _ unmixed differ => exact differ (agree.propertyNames unmixed)
  | parameters _ _ _ differ => exact differ agree.parameters

end Misfit

/-! ### The checks -/

theorem checkComponentNames_of_eq (position : Nat) {got expected : List Labels}
    (same : got.map Labels.names = expected.map Labels.names) :
    got.length = expected.length ∧ checkComponentNames position 0 got expected = .ok () := by
  have count := (componentNames_eq_iff.mp same).1
  exact ⟨count, (checkComponentNames_eq_ok_iff count).mpr same⟩

/-- The names are compared axis by axis, up to the first one where they differ. -/
theorem checkComponentNames_eq_error_iff {position start : Nat} {got expected : List Labels}
    {e : Error} :
    checkComponentNames position start got expected = .error e ↔
      ∃ before found after before' wanted after', got = before ++ found :: after ∧
        expected = before' ++ wanted :: after' ∧
        before.map Labels.names = before'.map Labels.names ∧ found.names ≠ wanted.names ∧
        e = .inconsistentComponents position
          (.names (start + before.length) found.names wanted.names) := by
  induction got generalizing start expected with
  | nil =>
    refine iff_of_false (fun refused => by cases refused) ?_
    rintro ⟨before, _, _, _, _, _, split, _⟩
    exact absurd split.symm (List.append_ne_nil_of_right_ne_nil before (List.cons_ne_nil _ _))
  | cons found got ih =>
    cases expected with
    | nil =>
      refine iff_of_false (fun refused => by cases refused) ?_
      rintro ⟨_, _, _, before', _, _, _, split, _⟩
      exact absurd split.symm (List.append_ne_nil_of_right_ne_nil before' (List.cons_ne_nil _ _))
    | cons wanted expected =>
      rw [checkComponentNames, refused_eq_error, ih]
      constructor
      · rintro (⟨differ, rfl⟩ | ⟨same, before, x, after, before', y, after', rfl, rfl, names, rest⟩)
        · exact ⟨[], found, got, [], wanted, expected, rfl, rfl, rfl, differ, rfl⟩
        · refine ⟨found :: before, x, after, wanted :: before', y, after', rfl, rfl, ?_, ?_⟩
          · rw [List.map_cons, List.map_cons, names, not_not.mp same]
          · rwa [List.length_cons, Nat.add_comm before.length, ← Nat.add_assoc]
      · rintro ⟨before, x, after, before', y, after', split, split', names, differ, rfl⟩
        cases before with
        | nil =>
          obtain rfl : before' = [] := List.map_eq_nil_iff.mp names.symm
          cases split
          cases split'
          exact .inl ⟨differ, rfl⟩
        | cons _ before =>
          cases before' with
          | nil => cases names
          | cons _ before' =>
            obtain ⟨rfl, rfl⟩ := List.cons.inj split
            obtain ⟨rfl, rfl⟩ := List.cons.inj split'
            obtain ⟨same, names⟩ := List.cons.inj names
            refine .inr ⟨not_not.mpr same, before, x, after, before', y, after', rfl, rfl, names,
              differ, ?_⟩
            rw [List.length_cons, Nat.add_comm before.length, ← Nat.add_assoc]

section Checks

variable {mixedProperties : Bool} {first : Block} {e : Error}

/-- A block is refused for the first respect in which it differs. -/
theorem checkBlock_eq_error_iff {position : Nat} {block : Block} :
    checkBlock mixedProperties first position block = .error e ↔
      Misfit mixedProperties first position block e := by
  simp only [checkBlock, throw_bind_eq, refused_eq_error, check_bind_eq_error, not_not,
    Bool.and_eq_true, Bool.not_eq_true', bne_iff_ne, not_and]
  constructor
  · rintro (⟨differ, rfl⟩ | ⟨samples, ⟨differ, rfl⟩ | ⟨count, refused | ⟨passed, refused⟩⟩⟩)
    · exact .sampleNames differ
    · exact .axisCount samples differ
    · obtain ⟨before, found, after, before', wanted, after', split, split', same, differ, rfl⟩ :=
        checkComponentNames_eq_error_iff.mp refused
      rw [Nat.zero_add]
      exact .axisNames samples count split split' same differ
    · have components := (checkComponentNames_eq_ok_iff count).mp passed
      obtain ⟨⟨unmixed, differ⟩, rfl⟩ | ⟨properties, refused⟩ := refused
      · exact .propertyNames samples components unmixed differ
      · obtain ⟨differ, rfl⟩ | ⟨_, passed⟩ := refused_eq_error.mp refused
        · exact .parameters samples components properties differ
        · cases passed
  · intro misfit
    cases misfit with
    | sampleNames differ => exact .inl ⟨differ, rfl⟩
    | axisCount samples differ => exact .inr ⟨samples, .inl ⟨differ, rfl⟩⟩
    | axisNames samples count split split' same differ =>
      refine .inr ⟨samples, .inr ⟨count, .inl ?_⟩⟩
      refine checkComponentNames_eq_error_iff.mpr
        ⟨_, _, _, _, _, _, split, split', same, differ, ?_⟩
      rw [Nat.zero_add]
    | propertyNames samples components unmixed differ =>
      obtain ⟨count, passed⟩ := checkComponentNames_of_eq position components
      exact .inr ⟨samples, .inr ⟨count, .inr ⟨passed, .inl ⟨⟨unmixed, differ⟩, rfl⟩⟩⟩⟩
    | parameters samples components properties differ =>
      obtain ⟨count, passed⟩ := checkComponentNames_of_eq position components
      refine .inr ⟨samples, .inr ⟨count, .inr ⟨passed, .inr ⟨?_, ?_⟩⟩⟩⟩
      · exact properties
      · exact if_pos differ

/-- Of several blocks the first one that differs is refused. -/
theorem checkBlocks_eq_error_iff {start : Nat} {blocks : List Block} :
    checkBlocks mixedProperties first start blocks = .error e ↔
      ∃ before block after, blocks = before ++ block :: after ∧
        (∀ other ∈ before, Agree mixedProperties other first) ∧
        Misfit mixedProperties first (start + before.length) block e := by
  induction blocks generalizing start with
  | nil =>
    refine iff_of_false (fun refused => by cases refused) ?_
    rintro ⟨before, _, _, split, _⟩
    exact absurd split.symm (List.append_ne_nil_of_right_ne_nil before (List.cons_ne_nil _ _))
  | cons block blocks ih =>
    rw [checkBlocks, check_bind_eq_error, checkBlock_eq_error_iff, checkBlock_eq_ok_iff, ih]
    constructor
    · rintro (misfit | ⟨agree, before, other, after, rfl, all, misfit⟩)
      · exact ⟨[], block, blocks, rfl, fun _ none => absurd none List.not_mem_nil, misfit⟩
      · refine ⟨block :: before, other, after, rfl, List.forall_mem_cons.mpr ⟨agree, all⟩, ?_⟩
        rwa [List.length_cons, Nat.add_comm before.length, ← Nat.add_assoc]
    · rintro ⟨before, other, after, split, all, misfit⟩
      cases before with
      | nil =>
        obtain ⟨rfl, rfl⟩ := List.cons.inj split
        exact .inl misfit
      | cons _ before =>
        obtain ⟨rfl, rfl⟩ := List.cons.inj split
        obtain ⟨agree, all⟩ := List.forall_mem_cons.mp all
        refine .inr ⟨agree, before, other, after, rfl, all, ?_⟩
        rwa [List.length_cons, Nat.add_comm before.length, ← Nat.add_assoc] at misfit

end Checks

/-! ### Maps -/

/-- The keys and the blocks make a map. -/
def Accepted (keys : Labels) (blocks : List Block) (mixedProperties : Bool) : Prop :=
  ∃ map, ofBlocks keys blocks mixedProperties = .ok map

section Accepted

variable {keys keys' : Labels} {blocks blocks' : List Block} {mixedProperties : Bool} {e : Error}

/-- A map is made exactly of as many blocks as keys, any two of which agree. -/
theorem accepted_iff :
    Accepted keys blocks mixedProperties ↔
      keys.count = blocks.length ∧ ∀ a ∈ blocks, ∀ b ∈ blocks, Agree mixedProperties a b := by
  constructor
  · rintro ⟨map, made⟩
    obtain ⟨count, agree, _⟩ := ofBlocks_eq_ok_iff.mp made
    exact ⟨count, agree⟩
  · rintro ⟨count, agree⟩
    exact ⟨_, ofBlocks_eq_ok_iff.mpr ⟨count, agree, rfl⟩⟩

/-- Blocks of an accepted map make a map with as many keys, however many they are and in whatever
order they stand. -/
theorem Accepted.of_subset (h : Accepted keys blocks mixedProperties) (within : blocks' ⊆ blocks)
    (count : keys'.count = blocks'.length) : Accepted keys' blocks' mixedProperties := by
  obtain ⟨_, agree⟩ := accepted_iff.mp h
  exact accepted_iff.mpr ⟨count, fun a ha b hb => agree a (within ha) b (within hb)⟩

theorem Accepted.mixed (h : Accepted keys blocks mixedProperties) : Accepted keys blocks true := by
  obtain ⟨count, agree⟩ := accepted_iff.mp h
  exact accepted_iff.mpr ⟨count, fun a ha b hb =>
    { agree a ha b hb with propertyNames := fun unmixed => by cases unmixed }⟩

/-- No map is made if there are too many or too few keys, or else if a block does not go with the
first one. -/
theorem ofBlocks_eq_error_iff :
    ofBlocks keys blocks mixedProperties = .error e ↔
      (keys.count ≠ blocks.length ∧ e = .keyCountMismatch keys.count blocks.length) ∨
      keys.count = blocks.length ∧ ∃ first before block after,
        blocks = first :: before ++ block :: after ∧
        (∀ other ∈ before, Agree mixedProperties other first) ∧
        Misfit mixedProperties first (before.length + 1) block e := by
  simp only [ofBlocks, throw_bind_eq, refused_eq_error, not_not, eq_comm (a := e)]
  refine or_congr_right (and_congr_right fun _ => ?_)
  cases blocks with
  | nil =>
    refine iff_of_false (fun refused => by cases refused) ?_
    rintro ⟨_, _, _, _, split, _⟩
    cases split
  | cons first others =>
    have passed : ∀ {map : BlockMap}, ¬(pure map : Except Error BlockMap) = .error e := by
      rintro _ ⟨⟩
    simp only [check_bind_eq_error, passed, and_false, or_false, checkBlocks_eq_error_iff]
    constructor
    · rintro ⟨before, block, after, rfl, agree, misfit⟩
      rw [Nat.add_comm] at misfit
      exact ⟨first, before, block, after, rfl, agree, misfit⟩
    · rintro ⟨_, before, block, after, split, agree, misfit⟩
      obtain ⟨rfl, rfl⟩ := List.cons.inj split
      rw [Nat.add_comm] at misfit
      exact ⟨before, block, after, rfl, agree, misfit⟩

end Accepted

/-- Keys and blocks make a map exactly when there are as many keys as blocks, any two of which have
the same layout. So it does not matter in which order the blocks stand; some of them, with as many
keys, make a map if all do; and blocks that need not have the same property names make a map if they
do where they need. Else, if the number of the keys is right, the block that is reported is the
first one that differs from the first, and the error tells the first respect in which it does. As in
every block that is built, the gradients stand in the order of their parameters. -/
theorem first_misfit_reported (keys : Labels) (blocks : List Block) (mixedProperties : Bool)
    (ordered : ∀ block ∈ blocks, block.parameters.Pairwise (· < ·)) :
    (Accepted keys blocks mixedProperties ↔
      keys.count = blocks.length ∧
        ∀ a ∈ blocks, ∀ b ∈ blocks, SameLayout mixedProperties a b) ∧
    (∀ others, others.Perm blocks →
      (Accepted keys others mixedProperties ↔ Accepted keys blocks mixedProperties)) ∧
    (∀ keys' some, some.Sublist blocks → keys'.count = some.length →
      Accepted keys blocks mixedProperties → Accepted keys' some mixedProperties) ∧
    (Accepted keys blocks false → Accepted keys blocks true) ∧
    ∀ e, ofBlocks keys blocks mixedProperties = .error e ↔
      (keys.count ≠ blocks.length ∧ e = .keyCountMismatch keys.count blocks.length) ∨
      keys.count = blocks.length ∧ ∃ first before block after,
        blocks = first :: before ++ block :: after ∧
        (∀ other ∈ before, SameLayout mixedProperties other first) ∧
        ¬SameLayout mixedProperties block first ∧ e.block? = some (before.length + 1) ∧
        Misfit mixedProperties first (before.length + 1) block e := by
  have sameLayout : ∀ a ∈ blocks, ∀ b ∈ blocks,
      (Agree mixedProperties a b ↔ SameLayout mixedProperties a b) :=
    fun a ha b hb => agree_iff_sameLayout (ordered a ha) (ordered b hb)
  refine ⟨?_, fun others perm => ?_, ?_, .mixed, fun e => ?_⟩
  · rw [accepted_iff]
    exact and_congr_right fun _ =>
      forall₂_congr fun a ha => forall₂_congr fun b hb => sameLayout a ha b hb
  · constructor
    · intro accepted
      have count := (accepted_iff.mp accepted).1
      exact accepted.of_subset perm.symm.subset (count.trans perm.length_eq)
    · intro accepted
      have count := (accepted_iff.mp accepted).1
      exact accepted.of_subset perm.subset (count.trans perm.length_eq.symm)
  · exact fun _ _ sublist count accepted => accepted.of_subset sublist.subset count
  · rw [ofBlocks_eq_error_iff]
    refine or_congr_right (and_congr_right fun _ => ?_)
    refine exists_congr fun first => exists₃_congr fun before block after => ?_
    refine and_congr_right fun split => ?_
    subst split
    have isFirst : first ∈ first :: before ++ block :: after := List.mem_cons_self
    have inBefore : ∀ other ∈ before, other ∈ first :: before ++ block :: after :=
      fun other inside => List.mem_append_left _ (List.mem_cons_of_mem _ inside)
    have isBlock : block ∈ first :: before ++ block :: after :=
      List.mem_append_right _ List.mem_cons_self
    refine and_congr ?_ ?_
    · exact forall₂_congr fun other inside => sameLayout other (inBefore other inside) first isFirst
    · rw [← sameLayout block isBlock first isFirst]
      exact ⟨fun misfit => ⟨misfit.not_agree, misfit.block?, misfit⟩, fun h => h.2.2⟩

/-- A block with a component and a gradient. -/
def motleyBlock (row : Row) (component : Int32) (property : String) : Block :=
  let components : List Labels := [.of ["x"] [[component]]]
  let properties : Labels := .of [property] [[0]]
  ⟨⟨[1, 1, 1], #[1]⟩, .of ["s"] [row], components, properties,
    [("cell", ⟨⟨[0, 1, 1], #[]⟩, .of ["sample"] [], components, properties, []⟩)]⟩

/-- Three blocks, of which the last one has another property name. -/
def motley : List Block :=
  [motleyBlock [1] 0 "p", motleyBlock [2] 7 "p", motleyBlock [3] 0 "q"]

/-- The blocks make a map, in either order, where property names may be mixed. Else the last one is
reported. -/
theorem motley_reported :
    (∀ block ∈ motley, block.parameters.Pairwise (· < ·)) ∧
      Accepted (.of ["a"] [[0], [1], [2]]) motley true ∧
      Accepted (.of ["a"] [[0], [1], [2]]) motley.reverse true ∧
      ofBlocks (.of ["a"] [[0], [1], [2]]) motley false =
        .error (.inconsistentProperties 2 ["p"] ["q"]) := by
  have ordered : ∀ block ∈ motley, block.parameters.Pairwise (· < ·) := by decide
  obtain ⟨accepted, reordered, _⟩ :=
    first_misfit_reported (.of ["a"] [[0], [1], [2]]) motley true ordered
  obtain ⟨_, _, _, _, refused⟩ :=
    first_misfit_reported (.of ["a"] [[0], [1], [2]]) motley false ordered
  have mixed := accepted.mpr ⟨rfl, by decide⟩
  refine ⟨ordered, mixed, (reordered _ motley.reverse_perm).mpr mixed, (refused _).mpr (.inr ?_)⟩
  exact ⟨rfl, _, [motleyBlock [2] 7 "p"], _, [], rfl, by decide, by decide, rfl,
    .propertyNames rfl rfl rfl (by decide)⟩

end LabeledBlocks.BlockMap
