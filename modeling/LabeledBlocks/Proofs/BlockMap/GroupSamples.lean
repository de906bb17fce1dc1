import LabeledBlocks.Proofs.BlockMap.SplitMerged

/-!
# The samples of a group

The samples of the blocks of a group, and as well their properties, go on with the values that the
keys have in the dimensions that move. Within a group these values tell the blocks apart, so that
rows of different blocks stay different, and the rows make valid labels.

* `BlockMap.NewNames` — names that can be given to new dimensions.
* `BlockMap.nodup_continuedRows`, `BlockMap.valid_continuedRows` — rows that go on with the keys.
* `BlockMap.exists_groupSamples` — the samples are put together, sorted or not.
-/

namespace LabeledBlocks.BlockMap

/-- Names that can be given to new dimensions. -/
structure NewNames (names : List String) : Prop where
  some : names ≠ []
  identifiers : ∀ name ∈ names, Labels.IsIdentifier name
  distinct : names.Nodup

variable {dimensions names : List String} {group : List (Row × Block)}
  {arranged : List (Row × Source)}

/-- New dimensions go behind those of valid labels, whose names they do not have. -/
theorem NewNames.valid_append (new : NewNames names) {labels : Labels} (valid : labels.Valid)
    (unused : ∀ name ∈ names, name ∉ labels.names) {rows : List Row}
    (regular : (Labels.of (labels.names ++ names) rows).Regular) :
    (Labels.of (labels.names ++ names) rows).Valid := by
  refine ⟨regular, ?_, ?_, ?_⟩
  · intro name member
    rcases List.mem_append.mp member with isOld | isNew
    · exact valid.identifiers name isOld
    · exact new.identifiers name isNew
  · apply List.nodup_append.mpr
    refine ⟨valid.distinct, new.distinct, ?_⟩
    rintro name isOld _ isNew rfl
    exact unused name isNew isOld
  · intro unnamed
    exact absurd (List.append_eq_nil_iff.mp unnamed).2 new.some

section Continued

variable {labelsOf : Block → Labels} (distinct : GroupDistinct dimensions names group)
  (regular : ∀ entry ∈ group, (labelsOf entry.2).Regular)
  (sameNames : ∀ a ∈ group, ∀ b ∈ group, (labelsOf a.2).names = (labelsOf b.2).names)

include distinct regular sameNames

/-- Different rows of a group are still different with the values of their keys behind them. -/
theorem nodup_continuedRows :
    ((continuedRows (fun block => (labelsOf block).rows) (Labels.valuesOf dimensions names)
      group).map (·.1)).Nodup := by
  have sources : ((continuedRows (fun block => (labelsOf block).rows)
      (Labels.valuesOf dimensions names) group).map (·.2)).Nodup := by
    rw [continuedRows, List.map_flatMap]
    simp only [Block.extendRows, List.map_map]
    exact Block.nodup_sources_flatMap (fun entry => (labelsOf entry.2).rows) group
  apply List.Nodup.map_on _ sources.of_map
  rintro ⟨row, source⟩ member ⟨row', source'⟩ member' same
  obtain ⟨key, block, own, found, standing, rfl⟩ := mem_continuedRows.mp member
  obtain ⟨key', block', own', found', standing', rfl⟩ := mem_continuedRows.mp member'
  have isEntry := List.mem_of_getElem? found
  have isEntry' := List.mem_of_getElem? found'
  have width := (regular _ isEntry).width own (List.mem_of_getElem? standing)
  have width' := (regular _ isEntry').width own' (List.mem_of_getElem? standing')
  rw [Labels.size, sameNames _ isEntry _ isEntry'] at width
  obtain ⟨rfl, moved⟩ := List.append_inj same (width.trans width'.symm)
  obtain ⟨b, n⟩ := source
  obtain ⟨b', n'⟩ := source'
  obtain rfl : b = b' := distinct.distinct _ _ _ _ found found' moved
  cases found.symm.trans found'
  have inside := (List.getElem?_eq_some_iff.mp standing).1
  have rows := (regular _ isEntry).nodup
  obtain rfl := (List.getElem?_inj inside rows).mp (standing.trans standing'.symm)
  rfl

/-- The rows of a group make valid labels with the values of the keys behind them. -/
theorem valid_continuedRows (new : NewNames names) {entry : Row × Block} (isEntry : entry ∈ group)
    (valid : (labelsOf entry.2).Valid) (unused : ∀ name ∈ names, name ∉ (labelsOf entry.2).names)
    (perm : arranged.Perm (continuedRows (fun block => (labelsOf block).rows)
      (Labels.valuesOf dimensions names) group)) :
    (Labels.of ((labelsOf entry.2).names ++ names) (arranged.map (·.1))).Valid := by
  refine new.valid_append valid unused ⟨?_, ?_⟩
  · intro row member
    obtain ⟨⟨_, source⟩, inside, rfl⟩ := List.mem_map.mp member
    obtain ⟨key, block, own, found, standing, rfl⟩ :=
      mem_continuedRows.mp (perm.mem_iff.mp inside)
    have isOther := List.mem_of_getElem? found
    have width := (regular _ isOther).width own (List.mem_of_getElem? standing)
    rw [List.length_append, width, distinct.width _ isOther, Labels.size,
      sameNames _ isOther _ isEntry]
    exact (List.length_append ..).symm
  · have nodup := nodup_continuedRows distinct regular sameNames
    exact (perm.map (·.1)).nodup_iff.mpr nodup

end Continued

/-- The rows of a group are put together with the values of the keys behind them, whether or not
they are sorted then. -/
theorem exists_groupSamples (sorted : Bool) {members : List Member}
    (known : ∀ name ∈ names, name ∈ dimensions)
    (width : ∀ member ∈ members, member.key.length = dimensions.length) :
    ∃ rows, groupSamples (names.map dimensions.idxOf) members = .ok rows ∧
      (if sorted then Block.sortRows rows else rows).Perm
        (continuedRows (fun block => block.samples.rows) (Labels.valuesOf dimensions names)
          (members.map Member.entry)) := by
  obtain ⟨parts, taken, flat⟩ := mapM_extendRows (fun block => block.samples.rows) known width
  refine ⟨parts.flatten, by rw [groupSamples, taken]; rfl, ?_⟩
  rw [flat]
  exact Block.ite_sortRows_perm _ sorted

end LabeledBlocks.BlockMap
