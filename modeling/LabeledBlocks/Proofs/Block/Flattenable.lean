import LabeledBlocks.Proofs.Block.FlattenTwice

/-!
# When components can be flattened

Components can be flattened exactly if each of the names is the only dimension of an axis. Nothing
else can go wrong: the rows of different axes make different combinations, every position that is
read is one of the array, and the gradients, which start with the axes of their block, follow it.

* `Block.HasAxes` — what it takes to flatten components.
* `Block.exists_flattenAxes` — the values, the labels and the gradients are no obstacle.
* `Block.exists_flatten_iff` — components are flattened exactly then.
* `Block.flatten_flatten` — two steps do the same as one.
-/

namespace LabeledBlocks.Block

/-! ### Labels of combinations -/

section Products

variable {parts : List Labels} (regular : ∀ labels ∈ parts, labels.Regular)

include regular

theorem length_of_mem_products {row : Row} (member : row ∈ products parts) :
    row.length = (parts.map Labels.size).sum := by
  induction parts generalizing row with
  | nil =>
    rw [products, List.mem_singleton] at member
    rw [member]
    rfl
  | cons labels parts ih =>
    rw [List.forall_mem_cons] at regular
    obtain ⟨own, isOwn, member⟩ := List.mem_flatMap.mp member
    obtain ⟨rest, isRest, rfl⟩ := List.mem_map.mp member
    rw [List.length_append, regular.1.width own isOwn, ih regular.2 isRest, List.map_cons,
      List.sum_cons]

/-- Rows of regular labels make different combinations. -/
theorem nodup_products : (products parts).Nodup := by
  induction parts with
  | nil => exact List.nodup_singleton _
  | cons labels parts ih =>
    rw [List.forall_mem_cons] at regular
    refine List.nodup_flatMap.mpr ⟨fun row _ => ?_, ?_⟩
    · exact (ih regular.2).map (List.append_right_injective row)
    · refine regular.1.nodup.pairwise_of_forall_ne fun row isRow row' isRow' different => ?_
      intro combined member member'
      obtain ⟨rest, _, rfl⟩ := List.mem_map.mp member
      obtain ⟨rest', _, same⟩ := List.mem_map.mp member'
      have width := (regular.1.width row' isRow').trans (regular.1.width row isRow).symm
      exact different (List.append_inj same width).1.symm

end Products

section Standing

variable {names : List String} {axes : List Nat} {components : List Labels}
  (standing : Standing names axes components)

include standing

/-- The axes that are found have one dimension each. -/
theorem exists_moved : ∃ moved,
    List.Forall₂ (fun axis labels => components[axis]? = some labels) axes moved ∧
      moved.map Labels.size = names.map fun _ => 1 := by
  induction standing with
  | nil => exact ⟨[], .nil, rfl⟩
  | cons here _ ih =>
    obtain ⟨labels, found, named⟩ := here
    obtain ⟨moved, further, sizes⟩ := ih
    refine ⟨labels :: moved, .cons found further, ?_⟩
    rw [List.map_cons, sizes, Labels.size, named]
    rfl

theorem mem_componentNames_of_standing {name : String} (member : name ∈ names) :
    ∃ labels ∈ components, labels.names = [name] ∧ name ∈ componentNames components := by
  obtain ⟨_, _, labels, found, named⟩ := exists_mem_zip_of_mem_left standing member
  have isAxis := List.mem_of_getElem? found
  exact ⟨labels, isAxis, named, List.mem_flatMap.mpr ⟨labels, isAxis, by simp [named]⟩⟩

end Standing

/-- The axes of a block make new properties with its old ones. -/
theorem exists_flattenedProperties {block : Block} {names : List String} {axes : List Nat}
    (own : block.WellFormed) (valid : block.AxesLabelled Labels.Valid)
    (standing : Standing names axes block.components) (some : names ≠ []) (nodup : names.Nodup) :
    ∃ properties, block.flattenedProperties names axes = .ok properties := by
  obtain ⟨moved, found, sizes⟩ := exists_moved standing
  have regular : ∀ labels ∈ moved ++ [block.properties], labels.Regular := by
    intro labels member
    rcases List.mem_append.mp member with isMoved | isLast
    · obtain ⟨_, _, here⟩ := exists_of_mem_right found isMoved
      exact (valid.components labels (List.mem_of_getElem? here)).toRegular
    · rw [List.mem_singleton.mp isLast]
      exact valid.properties.toRegular
  have valid : (Labels.of (names ++ block.properties.names)
      (combinations (moved ++ [block.properties]))).Valid := by
    rw [combinations_eq_products]
    refine ⟨⟨fun row member => ?_, nodup_products regular⟩, ?_, ?_, ?_⟩
    · rw [length_of_mem_products regular member, List.map_append, List.sum_append, sizes]
      simp [Labels.of, Labels.size]
    · intro name member
      rcases List.mem_append.mp member with isNew | isOld
      · obtain ⟨labels, isAxis, named, _⟩ := mem_componentNames_of_standing standing isNew
        exact (valid.components labels isAxis).identifiers name (by simp [named])
      · exact valid.properties.identifiers name isOld
    · refine List.nodup_append.mpr ⟨nodup, valid.properties.distinct, ?_⟩
      rintro name isNew _ isOld rfl
      obtain ⟨_, _, _, isName⟩ := mem_componentNames_of_standing standing isNew
      exact (own.newNames name isName).2 isOld
    · exact fun unnamed => absurd (List.append_eq_nil_iff.mp unnamed).1 some
  exact ⟨_, bind_eq_ok.mpr
    ⟨moved, componentsAt_eq_ok_iff.mpr found, Labels.ofRows_of_valid valid⟩⟩

/-! ### Values and gradients -/

section Flatten

variable {names : List String} {axes : List Nat} {properties : Labels}

/-- What a flattened block has on its axes. -/
theorem flattenAxes_axes {block result : Block} (own : block.WellFormed)
    (h : flattenAxes axes properties block = .ok result) :
    result.samples = block.samples ∧ result.components = block.keptComponents axes ∧
      result.properties = properties := by
  obtain ⟨_, _, _, _, bare, built, rest⟩ := flattenAxes_steps.mp h
  obtain ⟨_, _, _, rfl⟩ := ofValues_eq_ok_iff.mp built
  obtain ⟨_, rfl, _⟩ := flattenGradientAxes_eq_ok (by exact own.ordered) rest
  exact ⟨rfl, rfl, rfl⟩

/-- The axes that stay in a block stay in its gradients. -/
theorem keptComponents_prefix {block gradient : Block}
    (extended : block.components <+: gradient.components) :
    block.keptComponents axes <+: gradient.keptComponents axes := by
  obtain ⟨more, extended⟩ := extended
  rw [keptComponents, keptComponents, ← extended, List.zipIdx_append, List.filter_append,
    List.map_append]
  exact List.prefix_append _ _

/-- One gradient after the other is added if each can be flattened and goes with the result. -/
theorem exists_flattenGradientAxes {gradients : List (String × Block)} {result : Block}
    (each : ∀ entry ∈ gradients, ∃ flat, flattenAxes axes properties entry.2 = .ok flat ∧
      flat.AxesLabelled Labels.Regular ∧ GradientOf result entry.1 flat)
    (regular : result.AxesLabelled Labels.Regular)
    (ordered : ((result.gradients ++ gradients).map (·.1)).Pairwise (· < ·)) :
    ∃ final, flattenGradientAxes axes properties result gradients = .ok final := by
  induction gradients generalizing result with
  | nil => exact ⟨result, rfl⟩
  | cons entry gradients ih =>
    obtain ⟨parameter, gradient⟩ := entry
    rw [List.forall_mem_cons] at each
    obtain ⟨⟨flat, made, regular', goes⟩, others⟩ := each
    have last : ∀ other ∈ result.gradients.map (·.1), other < parameter := by
      rw [List.map_append, List.map_cons, List.pairwise_append] at ordered
      exact fun other member => ordered.2.2 other member parameter List.mem_cons_self
    have new : parameter ∉ result.parameters := fun known =>
      String.lt_irrefl parameter (last parameter known)
    have added := (addGradient_eq_ok_iff regular regular').mpr ⟨new, goes, rfl⟩
    rw [insertGradient_eq_append last] at added
    let next : Block := { result with gradients := result.gradients ++ [(parameter, flat)] }
    obtain ⟨final, rest⟩ := @ih next
      (fun other member => by
        obtain ⟨flat, made, regular', goes⟩ := others other member
        exact ⟨flat, made, regular', { goes with }⟩)
      { regular with } (by simpa [next] using ordered)
    refine ⟨final, ?_⟩
    simp only [flattenGradientAxes, bind_eq_ok]
    exact ⟨flat, made, _, added, rest⟩

section Level

variable {block : Block} (own : block.WellFormed) (standing : Standing names axes block.components)

include own standing

/-- The axes in their new order are those of the array. -/
theorem axisOrder_perm (nodup : axes.Nodup) :
    (block.keptAxes axes ++ axes.map (· + 1) ++ [block.values.shape.length - 1]).Perm
      (List.range block.values.shape.length) := by
  rw [axisOrder_eq own, length_shape own]
  exact between_perm (unmoved_append_perm standing nodup)

/-- The axes that stay have the lengths that their labels ask for. -/
theorem shape_keptAxes {found : List (Nat × Nat)}
    (looked : (block.keptAxes axes).mapM block.values.axis = .ok found) :
    found.map (·.1) ++ [properties.count] =
      labelledShape block.samples (block.keptComponents axes) properties := by
  have components : block.keptComponents axes = axesBesides names block.components :=
    (axesBesides_eq standing own.distinctNames).symm
  have inner : ((unmoved axes block.components.length).map (· + 1)).map block.values.lengthAt =
      along (unmoved axes block.components.length) (block.components.map Labels.count) := by
    rw [List.map_map, along]
    refine List.map_congr_left fun axis member => ?_
    have inside := List.mem_range.mp (List.mem_of_mem_filter member)
    rw [Function.comp_apply, Dense.lengthAt, own.shape, labelledShape, List.getElem?_cons_succ,
      List.getElem?_append_left (by rwa [List.length_map])]
  have first : block.values.lengthAt 0 = block.samples.count := by
    rw [Dense.lengthAt, own.shape]
    rfl
  rw [Dense.map_fst_axes looked, keptAxes_eq own, List.map_cons, inner, first, labelledShape,
    components, map_count_axesBesides standing own.distinctNames]
  rfl

theorem nodup_keptNames : (componentNames (block.keptComponents axes)).Nodup := by
  have distinct := List.nodup_flatMap.mp own.distinctNames
  have components : block.keptComponents axes = axesBesides names block.components :=
    (axesBesides_eq standing own.distinctNames).symm
  rw [components]
  refine List.nodup_flatMap.mpr ⟨fun labels member => ?_, distinct.2.sublist List.filter_sublist⟩
  exact distinct.1 labels (List.mem_of_mem_filter member)

/-- The axes that stay have names that are neither those of the samples nor those of the new
properties. -/
theorem keptNames_new (propertyNames : properties.names = names ++ block.properties.names) :
    ∀ name ∈ componentNames (block.keptComponents axes),
      name ∉ block.samples.names ∧ name ∉ properties.names := by
  intro name member
  obtain ⟨labels, isKept, isName⟩ := List.mem_flatMap.mp member
  have isOwn := List.mem_flatMap.mpr ⟨labels, mem_of_mem_keptComponents isKept, isName⟩
  refine ⟨(own.newNames name isOwn).1, fun isProperty => ?_⟩
  rw [propertyNames, List.mem_append] at isProperty
  rcases isProperty with moves | isOld
  · -- the axis that has this name moves
    obtain ⟨axis, paired, labels', found, named⟩ := exists_mem_zip_of_mem_left standing moves
    obtain ⟨⟨_, i⟩, inside, rfl⟩ := List.mem_map.mp isKept
    have here := List.mem_zipIdx_iff_getElem?.mp (List.mem_of_mem_filter inside)
    obtain rfl := axis_unique own.distinctNames here found isName (by simp [named])
    have stays := (List.mem_filter.mp inside).2
    exact absurd (List.of_mem_zip paired).2 (of_decide_eq_true stays)
  · exact (own.newNames name isOwn).2 isOld

/-- The values of a block can be put into their new order, and then go with the new labels. -/
theorem exists_flattenedValues (nodup : axes.Nodup)
    (propertyNames : properties.names = names ++ block.properties.names) :
    ∃ kept, (block.keptAxes axes).mapM block.values.axis = .ok kept ∧
      ∃ data, block.values.valuesAlong (block.keptAxes axes ++ axes.map (· + 1) ++
          [block.values.shape.length - 1]) = .ok data ∧
        ofValues ⟨kept.map (·.1) ++ [properties.count], data⟩ block.samples
            (block.keptComponents axes) properties =
          .ok ⟨⟨kept.map (·.1) ++ [properties.count], data⟩, block.samples,
            block.keptComponents axes, properties, []⟩ := by
  have perm := axisOrder_perm own standing nodup
  obtain ⟨data, copied⟩ := Dense.exists_valuesAlong perm own.filled
  have known : ∀ axis ∈ block.keptAxes axes, ∃ found, block.values.axis axis = .ok found :=
    fun axis member => Dense.exists_axis <| List.mem_range.mp <| perm.mem_iff.mp <|
      List.mem_append_left _ (List.mem_append_left _ member)
  obtain ⟨kept, all⟩ := exists_forall₂ known
  have looked := mapM_eq_ok.mpr all
  exact ⟨kept, looked, data, copied, ofValues_eq_ok_iff.mpr
    ⟨shape_keptAxes own standing looked, nodup_keptNames own standing,
      keptNames_new own standing propertyNames, rfl⟩⟩

end Level

/-- A block can be flattened once the new properties are found, and so can its gradients. -/
theorem exists_flattenAxes {block : Block} (sound : block.Sound)
    (standing : Standing names axes block.components) (nodup : axes.Nodup)
    (combined : block.flattenedProperties names axes = .ok properties) :
    ∃ result, flattenAxes axes properties block = .ok result := by
  induction sound with
  | @intro block proper deeper ih =>
    have own := proper.wellFormed
    obtain ⟨propertyNames, _, valid⟩ :=
      mem_flattenedProperties standing own.distinctNames combined
    obtain ⟨kept, looked, data, copied, built⟩ :=
      exists_flattenedValues own standing nodup propertyNames
    have each : ∀ entry ∈ block.gradients, ∃ flat, flattenAxes axes properties entry.2 = .ok flat ∧
        flat.AxesLabelled Labels.Regular ∧
          GradientOf ⟨⟨kept.map (·.1) ++ [properties.count], data⟩, block.samples,
            block.keptComponents axes, properties, []⟩ entry.1 flat := by
      intro entry member
      have goes := own.gradients entry.1 entry.2 member
      have inner := deeper entry.1 entry.2 member
      have combined' := goes.flattenedProperties_eq_ok combined
      obtain ⟨flat, made⟩ := ih entry.1 entry.2 member (standing.gradient goes) combined'
      have soundFlat := sound_flattenAxes inner valid.toRegular nodup
        (flattensTo_of_flattenedProperties combined') made
      obtain ⟨samples, components, properties⟩ := flattenAxes_axes inner.own.wellFormed made
      exact ⟨flat, made, soundFlat.own.regular, goes.named, samples ▸ goes.referring,
        components ▸ keptComponents_prefix goes.components, properties, samples ▸ goes.inRange⟩
    obtain ⟨result, rest⟩ := exists_flattenGradientAxes each
      ⟨proper.regular.samples,
        fun labels member => proper.regular.components _ (mem_of_mem_keptComponents member),
        valid.toRegular⟩
      (by exact own.ordered)
    exact ⟨result, flattenAxes_steps.mpr ⟨kept, looked, data, copied, _, built, rest⟩⟩

end Flatten

/-! ### Names -/

/-- Each of the names is the only dimension of a component axis. -/
def HasAxes (names : List String) (block : Block) : Prop :=
  ∀ name ∈ names, ∃ labels ∈ block.components, labels.names = [name]

instance (names : List String) : DecidablePred (HasAxes names) := fun block =>
  inferInstanceAs (Decidable (∀ name ∈ names, ∃ labels ∈ block.components, labels.names = [name]))

/-- Axes are found for distinct names each of which is the only dimension of one. -/
theorem exists_componentAxes {block : Block} {earlier : List Nat} {names : List String}
    (nodup : names.Nodup) (has : HasAxes names block)
    (apart : ∀ axis ∈ earlier, ∀ labels, block.components[axis]? = some labels →
      ∀ name ∈ names, labels.names ≠ [name]) :
    ∃ axes, block.componentAxes earlier names = .ok axes := by
  induction names generalizing earlier with
  | nil => exact ⟨[], rfl⟩
  | cons name names ih =>
    obtain ⟨once, nodup⟩ := List.nodup_cons.mp nodup
    rw [HasAxes, List.forall_mem_cons] at has
    obtain ⟨⟨labels, isAxis, named⟩, has⟩ := has
    have some : (block.components.findIdx? fun labels => labels.names == [name]).isSome := by
      rw [List.findIdx?_isSome, List.any_eq_true]
      exact ⟨labels, isAxis, beq_iff_eq.mpr named⟩
    obtain ⟨axis, found⟩ := Option.isSome_iff_exists.mp some
    obtain ⟨inside, named', _⟩ := List.findIdx?_eq_some_iff_getElem.mp found
    have here := List.getElem?_eq_getElem inside
    have named' := beq_iff_eq.mp named'
    have new : axis ∉ earlier := fun known =>
      apart axis known _ here name List.mem_cons_self named'
    have apart' : ∀ other ∈ axis :: earlier, ∀ labels, block.components[other]? = .some labels →
        ∀ name ∈ names, labels.names ≠ [name] := by
      rw [List.forall_mem_cons]
      constructor
      · intro labels' here' other member same
        cases here.symm.trans here'
        rw [named', List.cons.injEq] at same
        exact once (same.1 ▸ member)
      · intro other known labels' here' name' member
        exact apart other known labels' here' name' (List.mem_cons_of_mem _ member)
    obtain ⟨axes, rest⟩ := ih nodup has apart'
    refine ⟨axis :: axes, ?_⟩
    rw [componentAxes, found]
    exact refused_eq_ok.mpr ⟨new, map_eq_ok.mpr ⟨axes, rest, rfl⟩⟩

/-! ### Flattening by name -/

/-- A block with the components of these names made part of its properties. -/
def flatten (names : List String) (block : Block) : Except Error Block := do
  let axes ← block.componentAxes [] names
  let properties ← block.flattenedProperties names axes
  block.flattenAxes axes properties

theorem flatten_eq_ok {block result : Block} {names : List String} :
    block.flatten names = .ok result ↔ ∃ axes, block.componentAxes [] names = .ok axes ∧
      ∃ properties, block.flattenedProperties names axes = .ok properties ∧
        block.flattenAxes axes properties = .ok result := by
  simp only [flatten, bind_eq_ok]

section Named

variable {block result : Block} {names : List String} (consistent : block.Consistent)

include consistent

theorem flattened_flatten (h : block.flatten names = .ok result) :
    Flattened names block result := by
  obtain ⟨axes, found, properties, combined, taken⟩ := flatten_eq_ok.mp h
  obtain ⟨standing, nodup, _⟩ := componentAxes_eq_ok found
  exact flattened_flattenAxes consistent standing nodup combined taken

/-- No name is accepted twice. -/
theorem nodup_of_flatten (h : block.flatten names = .ok result) : names.Nodup := by
  obtain ⟨axes, found, _⟩ := flatten_eq_ok.mp h
  obtain ⟨standing, nodup, _⟩ := componentAxes_eq_ok found
  exact nodup_names_of_standing standing consistent.own.distinctNames nodup

/-- The labels of a flattened block are valid at every depth. -/
theorem labelled_flattenAxes {axes : List Nat} {properties : Labels}
    (labelled : block.Labelled Labels.Valid) (valid : properties.Valid)
    (h : flattenAxes axes properties block = .ok result) : result.Labelled Labels.Valid := by
  induction consistent generalizing result with
  | @intro block own _ ih =>
    have axesOf := flattenAxes_axes own h
    obtain ⟨_, _, _, _, bare, built, rest⟩ := flattenAxes_steps.mp h
    obtain ⟨_, _, _, rfl⟩ := ofValues_eq_ok_iff.mp built
    obtain ⟨added, rfl, flattened⟩ := flattenGradientAxes_eq_ok (by exact own.ordered) rest
    refine .intro ⟨labelled.own.samples, ?_, valid⟩ fun parameter flat member => ?_
    · exact fun labels member => labelled.own.components _ (mem_of_mem_keptComponents member)
    · obtain ⟨⟨_, gradient⟩, isOwn, same, made⟩ := exists_of_mem_right flattened member
      obtain rfl : parameter = _ := same
      exact ih parameter gradient isOwn (labelled.inner isOwn) made

/-- Moving component axes keeps a block consistent and its labels valid. -/
theorem flatten_kept (labelled : block.Labelled Labels.Valid)
    (h : block.flatten names = .ok result) :
    result.Consistent ∧ result.Labelled Labels.Valid := by
  obtain ⟨axes, found, properties, combined, taken⟩ := flatten_eq_ok.mp h
  obtain ⟨standing, nodup, _⟩ := componentAxes_eq_ok found
  obtain ⟨_, _, valid⟩ :=
    mem_flattenedProperties standing consistent.own.distinctNames combined
  have sound := sound_flattenAxes (.of_consistent consistent labelled.regular) valid.toRegular nodup
    (flattensTo_of_flattenedProperties combined) taken
  exact ⟨sound.consistent, labelled_flattenAxes consistent labelled valid taken⟩

/-- Components are flattened exactly if each name is the only dimension of an axis. -/
theorem exists_flatten_iff (labelled : block.Labelled Labels.Valid) (some : names ≠ [])
    (nodup : names.Nodup) : (∃ result, block.flatten names = .ok result) ↔ HasAxes names block := by
  constructor
  · rintro ⟨result, h⟩ name member
    obtain ⟨axes, found, _⟩ := flatten_eq_ok.mp h
    obtain ⟨standing, _, _⟩ := componentAxes_eq_ok found
    obtain ⟨labels, isAxis, named, _⟩ := mem_componentNames_of_standing standing member
    exact ⟨labels, isAxis, named⟩
  · intro has
    obtain ⟨axes, found⟩ : ∃ axes, block.componentAxes [] names = .ok axes :=
      exists_componentAxes nodup has fun _ member => absurd member List.not_mem_nil
    obtain ⟨standing, different, _⟩ := componentAxes_eq_ok found
    obtain ⟨properties, combined⟩ :=
      exists_flattenedProperties consistent.own labelled.own standing some nodup
    obtain ⟨result, taken⟩ := exists_flattenAxes (.of_consistent consistent labelled.regular)
      standing different combined
    exact ⟨result, flatten_eq_ok.mpr ⟨axes, found, properties, combined, taken⟩⟩

end Named

/-- An axis of the second step is one that the first step leaves. -/
theorem hasAxes_append_iff {first second : List String} {block mid : Block}
    (level : FlattenedLevel first block mid) (apart : ∀ name ∈ second, name ∉ first)
    (has : HasAxes first block) :
    HasAxes (second ++ first) block ↔ HasAxes second mid := by
  rw [HasAxes, List.forall_mem_append, HasAxes, level.components]
  constructor
  · rintro ⟨both, _⟩ name member
    obtain ⟨labels, isAxis, named⟩ := both name member
    refine ⟨labels, List.mem_filter.mpr ⟨isAxis, ?_⟩, named⟩
    rw [Bool.not_eq_true', isMoved, List.any_eq_false]
    intro other isFirst same
    rw [named, beq_iff_eq, List.cons.injEq] at same
    exact apart name member (same.1 ▸ isFirst)
  · intro rest
    refine ⟨fun name member => ?_, has⟩
    obtain ⟨labels, isKept, named⟩ := rest name member
    exact ⟨labels, List.mem_of_mem_filter isKept, named⟩

/-- Flattening components in two steps does the same as flattening all of them at once. -/
theorem flatten_flatten {block result : Block} {first second : List String}
    (consistent : block.Consistent) (labelled : block.Labelled Labels.Valid) (some : first ≠ [])
    (some' : second ≠ []) (nodup : (second ++ first).Nodup) :
    (∃ mid, block.flatten first = .ok mid ∧ mid.flatten second = .ok result) ↔
      block.flatten (second ++ first) = .ok result := by
  obtain ⟨nodup', nodup'', apart⟩ := List.nodup_append.mp nodup
  have apart : ∀ name ∈ second, name ∉ first := fun name member both =>
    apart name member name both rfl
  have some'' : second ++ first ≠ [] := fun none => some (List.append_eq_nil_iff.mp none).2
  -- two steps give a block that is flattened, and there is only one
  have twice : ∀ mid, block.flatten first = .ok mid → ∀ a, mid.flatten second = .ok a →
      Flattened (second ++ first) block a ∧ a.Consistent := by
    intro mid h a h'
    have kept := flatten_kept consistent labelled h
    exact ⟨(flattened_flatten consistent h).trans (flattened_flatten kept.1 h') apart,
      (flatten_kept kept.1 kept.2 h').1⟩
  have once : ∀ a, block.flatten (second ++ first) = .ok a →
      Flattened (second ++ first) block a ∧ a.Consistent := fun a h =>
    ⟨flattened_flatten consistent h, (flatten_kept consistent labelled h).1⟩
  have canMid : ∀ mid, block.flatten first = .ok mid →
      (HasAxes (second ++ first) block ↔ ∃ a, mid.flatten second = .ok a) := by
    intro mid h
    have kept := flatten_kept consistent labelled h
    rw [exists_flatten_iff kept.1 kept.2 some' nodup']
    exact hasAxes_append_iff (flattened_flatten consistent h).level apart
      ((exists_flatten_iff consistent labelled some nodup'').mp ⟨mid, h⟩)
  constructor
  · rintro ⟨mid, h, h'⟩
    have can := (canMid mid h).mpr ⟨result, h'⟩
    obtain ⟨a, made⟩ := (exists_flatten_iff consistent labelled some'' nodup).mpr can
    obtain ⟨flattened, kept⟩ := twice mid h result h'
    obtain ⟨flattened', kept'⟩ := once a made
    rw [made, flattened.unique flattened' kept kept']
  · intro made
    have can := (exists_flatten_iff consistent labelled some'' nodup).mp ⟨result, made⟩
    obtain ⟨mid, h⟩ := (exists_flatten_iff consistent labelled some nodup'').mpr fun name member =>
      can name (List.mem_append_right _ member)
    obtain ⟨a, h'⟩ := (canMid mid h).mp can
    obtain ⟨flattened, kept⟩ := twice mid h a h'
    obtain ⟨flattened', kept'⟩ := once result made
    exact ⟨mid, h, by rw [h', flattened.unique flattened' kept kept']⟩

end LabeledBlocks.Block
