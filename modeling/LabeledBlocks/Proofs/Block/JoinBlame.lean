import LabeledBlocks.Proofs.Block.JoinProperties
import LabeledBlocks.Proofs.Block.JoinRefusals

/-!
# Which of the joined blocks an error names

Some errors carry the number of a block. Where blocks are joined, at whatever depth of their
gradients, this is the position among the blocks that are joined, and the block there has another
tree than the first one. All other checks on the way are about one block or its labels, and their
errors carry no such number. What the labels are and how many samples there are does not matter.

* `Error.block?`, `Unnumbered` — the number of a block that an error carries, or does not carry.
* `Block.errsAtOne_joinSamples`, `Block.errsAtOne_joinProperties` — what the number stands for.
* `Block.parameters_joinSamples`, `Block.parameters_joinProperties` — joined blocks keep the
  parameters of the first one.
-/

namespace LabeledBlocks

/-- The number of a block that an error carries. -/
def Error.block? : Error → Option Nat
  | .inconsistentProperties block _ _ => some block
  | .inconsistentSamples block _ _ => some block
  | .inconsistentComponents block _ => some block
  | .inconsistentGradients block _ _ => some block
  | .sampleMismatch block => some block
  | _ => none

/-- An error of this computation carries no number of a block. -/
abbrev Unnumbered {α : Type} (x : Except Error α) : Prop :=
  RefusedOnly (fun e => e.block? = none) x

/-! ### Labels -/

namespace Labels

theorem unnumbered_checkNames {earlier names : List String} :
    Unnumbered (checkNames earlier names) := by
  induction names generalizing earlier with
  | nil => exact .of_ok rfl
  | cons name names ih =>
    rw [checkNames]
    cases NameFault.ofName name with
    | some fault => exact .of_error rfl
    | none => exact .checked (fun _ => rfl) fun _ => ih

theorem unnumbered_checkRows {names : List String} {seen : RowIndex} {start : Nat}
    {rows : List Row} : Unnumbered (checkRows names seen start rows) := by
  induction rows generalizing seen start with
  | nil => exact .of_ok rfl
  | cons row rows ih => exact .checked (fun _ => rfl) fun _ => .checked (fun _ => rfl) fun _ => ih

theorem unnumbered_ofRows {names : List String} {rows : List Row} :
    Unnumbered (ofRows names rows) := by
  simp only [ofRows, throw_bind_eq]
  refine .bind unnumbered_checkNames fun _ _ => .checked (fun _ => rfl) fun _ => ?_
  exact .bind unnumbered_checkRows fun _ _ => .of_ok rfl

theorem unnumbered_unionWithPositions {a b : Labels} : Unnumbered (unionWithPositions a b) := by
  refine .bind ?_ fun _ _ => .of_ok rfl
  by_cases same : a.names = b.names
  · exact .of_ok (if_pos same)
  · rw [checkSameNames, if_neg same]
    exact .of_error rfl

end Labels

namespace Block

/-! ### One block -/

theorem unnumbered_checkAxes {last axis : Nat} {expected got : List Nat} :
    Unnumbered (checkAxes last axis expected got) := by
  induction expected generalizing axis got with
  | nil => exact .of_ok rfl
  | cons wanted expected ih =>
    cases got with
    | nil => exact .of_ok rfl
    | cons found got => exact .checked (fun _ => rfl) fun _ => ih

theorem unnumbered_checkComponentNames {samples properties : Labels} {seen names : List String} :
    Unnumbered (checkComponentNames samples properties seen names) := by
  induction names generalizing seen with
  | nil => exact .of_ok rfl
  | cons name names ih =>
    exact .checked (fun _ => rfl) fun _ => .checked (fun _ => rfl) fun _ =>
      .checked (fun _ => rfl) fun _ => ih

theorem unnumbered_ofValues {values : Dense} {samples properties : Labels}
    {components : List Labels} : Unnumbered (ofValues values samples components properties) :=
  .bind (.checked (fun _ => rfl) fun _ => unnumbered_checkAxes) fun _ _ =>
    .bind unnumbered_checkComponentNames fun _ _ => .of_ok rfl

theorem unnumbered_checkSpan {shape : List Nat} : Unnumbered (Dense.checkSpan shape) :=
  .checked (fun _ => rfl) fun _ => .of_ok rfl

theorem unnumbered_checkReferences {parentCount start : Nat} {rows : List Row} :
    Unnumbered (checkReferences parentCount start rows) := by
  induction rows generalizing start with
  | nil => exact .of_ok rfl
  | cons row rows ih =>
    cases row with
    | nil => exact .of_error rfl
    | cons number row => exact .checked (fun _ => rfl) fun _ => ih

theorem unnumbered_addGradient {block gradient : Block} {parameter : String} :
    Unnumbered (block.addGradient parameter gradient) := by
  refine .bind ?_ fun _ _ => .of_ok rfl
  simp only [checkGradient, throw_bind_eq]
  refine .checked (fun _ => rfl) fun _ => .checked (fun _ => rfl) fun _ =>
    .checked (fun _ => rfl) fun _ => .checked (fun _ => rfl) fun _ => ?_
  cases firstDifference 0 block.components gradient.components with
  | some axis => exact .of_error rfl
  | none => exact .checked (fun _ => rfl) fun _ => unnumbered_checkReferences

/-! ### Rows and values -/

theorem unnumbered_mapM_gradientFor {parameter : String} {blocks : List Block} :
    Unnumbered (blocks.mapM (gradientFor parameter)) := by
  refine .mapM fun block _ => ?_
  unfold gradientFor
  cases block.gradient? parameter with
  | some gradient => exact .of_ok rfl
  | none => exact .of_error rfl

theorem unnumbered_checkSampleNames {parameter : String} {expected : List String} {position : Nat}
    {gradients : List Block} :
    Unnumbered (checkSampleNames parameter expected position gradients) := by
  induction gradients generalizing position with
  | nil => exact .of_ok rfl
  | cons gradient gradients ih => exact .checked (fun _ => rfl) fun _ => ih

theorem unnumbered_reference {α : Type} {parent : Array α} {row : Row} :
    Unnumbered (reference parent row) := by
  cases row with
  | nil => exact .of_error rfl
  | cons number row =>
    refine .checked (fun _ => rfl) fun _ => ?_
    cases parent[number.toInt.toNat]? with
    | some found => exact .of_ok rfl
    | none => exact .of_error rfl

theorem unnumbered_survivingRows {placed : Array (Option Nat)} {block start : Nat}
    {rows : List Row} : Unnumbered (survivingRows placed block start rows) := by
  induction rows generalizing start with
  | nil => exact .of_ok rfl
  | cons row rows ih =>
    rw [survivingRows]
    cases found : reference placed row with
    | error e => exact .of_error (unnumbered_reference e found)
    | ok entry =>
      obtain ⟨_ | j, rest⟩ := entry
      · exact ih
      · exact ih.map

theorem unnumbered_sampleValues {donors : Array (Dense × Nat)} {rowLength : Nat}
    {sources : List Source} : Unnumbered (sampleValues donors rowLength sources) := by
  refine .bind (.mapM fun source _ => ?_) fun _ _ => .of_ok rfl
  cases donors[source.block]? with
  | none => exact .of_error rfl
  | some donor =>
    dsimp only
    split
    · unfold Dense.row
      split
      · exact .of_ok rfl
      · exact .of_error rfl
    · exact .of_error rfl

theorem unnumbered_lender {count : Nat} {block : Block} {positions : Array Nat} :
    Unnumbered (lender count block positions) := by
  unfold lender
  split
  · exact .of_ok rfl
  · exact .of_error rfl

theorem unnumbered_propertyValues {lenders : Array Lender} {sampleCount componentSize : Nat}
    {sources : List Source} :
    Unnumbered (propertyValues lenders sampleCount componentSize sources) := by
  unfold propertyValues
  split
  · exact .of_ok rfl
  · refine .bind (.mapM fun sample _ => .mapM fun component _ => .mapM fun source _ => ?_)
      fun _ _ => .of_ok rfl
    unfold lentValue
    cases lenders[source.block]? with
    | none => exact .of_error rfl
    | some lender =>
      dsimp only
      cases lender.sampleAt[sample]? with
      | none => exact .of_error rfl
      | some own =>
        cases own with
        | none => exact .of_ok rfl
        | some own =>
          dsimp only
          unfold Dense.value
          split
          · exact .of_ok rfl
          · exact .of_error rfl

/-- No error of a union of gradient samples carries the number of a block. -/
theorem unnumbered_unionSamples {parameter : String} {names : List String} {merged : Labels}
    {number : Nat} {gradients : List (Block × Array Nat)} :
    Unnumbered (unionSamples parameter names merged number gradients) := by
  induction gradients generalizing merged number with
  | nil => exact .of_ok rfl
  | cons entry gradients ih =>
    refine .bind unnumbered_checkSampleNames fun _ _ => .bind (.mapM fun row _ => ?_) fun _ _ =>
      .bind Labels.unnumbered_ofRows fun _ _ => .bind Labels.unnumbered_unionWithPositions
        fun _ _ => .bind ih fun _ _ => .of_ok rfl
    exact .bind unnumbered_reference fun _ _ => .of_ok rfl

/-! ### Joining -/

/-- Blocks are refused for their components. -/
theorem refusedOnly_checkAllComponents :
    RefusedOnly (OneDiffers first others) (checkAllComponents first.components 1 others) := by
  have each := RefusedOnly.of_each (f := checkAllComponents first.components)
    (R := fun position other e => Differs position first other e) (fun _ => rfl)
    (fun start other others => ?_) 1 others
  · exact each.imp fun e => oneDiffers_of_others
  · rw [checkAllComponents]
    exact .bind (refusedOnly_checkSameComponents.imp fun _ => .inl) fun _ _ _ => .inr

/-- If an error of joining blocks carries a number, the block at this position has another tree than
the first one. -/
def ErrsAtOne (first : Block) (others : List Block) (x : Except Error Block) : Prop :=
  RefusedOnly (fun e => e.block? = none ∨ OneDiffers first others e) x

section Gradients

variable {first : Block} (ordered : (first.gradients.map (·.1)).Pairwise (· < ·))
  {others : List Block}

include ordered

/-- What is found out about the gradients with respect to a parameter is true of the blocks. -/
theorem ErrsAtOne.of_gradients {parameter : String} {gradient : Block} {x : Except Error Block}
    (h : ErrsAtOne gradient (gradientsFor parameter others) x)
    (member : (parameter, gradient) ∈ first.gradients)
    (all : ∀ other ∈ others, parameter ∈ other.parameters) : ErrsAtOne first others x := by
  have has := (gradient?_eq_some ordered).mpr member
  have isParameter := isSome_gradient?_iff.mp (Option.isSome_of_mem has)
  refine h.imp fun e => .imp_right fun differs => differs.of_gradients has ?_
  exact List.forall_mem_cons.mpr ⟨isParameter, all⟩

variable {gradients : List (String × Block)} (among : ∀ entry ∈ gradients, entry ∈ first.gradients)

include among

/-- What holds of joining each gradient along the samples holds of joining all of them. -/
theorem errsAtOne_joinSampleGradients {placed : List (Array (Option Nat))} {result : Block}
    (one : ∀ entry ∈ gradients, ∀ others samples sources,
      ErrsAtOne entry.2 others (joinSamples entry.2 others samples sources)) :
    ErrsAtOne first others (joinSampleGradients gradients others placed result) := by
  induction gradients generalizing result with
  | nil => exact .of_ok (by rw [joinSampleGradients])
  | cons entry gradients ih =>
    obtain ⟨parameter, gradient⟩ := entry
    rw [List.forall_mem_cons] at among one
    simp only [joinSampleGradients]
    refine .bind (unnumbered_mapM_gradientFor.imp fun _ => .inl) fun otherGradients got => ?_
    obtain ⟨all, rfl⟩ := mapM_gradientFor_eq_ok_iff.mp got
    refine .bind (unnumbered_checkSampleNames.imp fun _ => .inl) fun _ _ => ?_
    refine .bind (.mapM fun _ _ => unnumbered_survivingRows.imp fun _ => .inl) fun _ _ => ?_
    refine .bind (Labels.unnumbered_ofRows.imp fun _ => .inl) fun _ _ => ?_
    refine .bind ((one.1 _ _ _).of_gradients ordered among.1 all) fun _ _ => ?_
    exact .bind (unnumbered_addGradient.imp fun _ => .inl) fun _ _ => ih among.2 one.2

/-- What holds of joining each gradient along the properties holds of joining all of them. -/
theorem errsAtOne_joinPropertyGradients {positions : List (Array Nat)} {properties : Labels}
    {sources : List Source} {result : Block}
    (one : ∀ entry ∈ gradients, ∀ others samples positions, ErrsAtOne entry.2 others
      (joinProperties entry.2 others samples positions properties sources)) :
    ErrsAtOne first others
      (joinPropertyGradients gradients others positions properties sources result) := by
  induction gradients generalizing result with
  | nil => exact .of_ok (by rw [joinPropertyGradients])
  | cons entry gradients ih =>
    obtain ⟨parameter, gradient⟩ := entry
    rw [List.forall_mem_cons] at among one
    simp only [joinPropertyGradients]
    refine .bind (unnumbered_mapM_gradientFor.imp fun _ => .inl) fun otherGradients got => ?_
    obtain ⟨all, rfl⟩ := mapM_gradientFor_eq_ok_iff.mp got
    refine .bind (Labels.unnumbered_ofRows.imp fun _ => .inl) fun _ _ => ?_
    refine .bind (unnumbered_unionSamples.imp fun _ => .inl) fun _ _ => ?_
    refine .bind ((one.1 _ _ _).of_gradients ordered among.1 all) fun _ _ => ?_
    exact .bind (unnumbered_addGradient.imp fun _ => .inl) fun _ _ => ih among.2 one.2

end Gradients

section Join

variable {first : Block} (consistent : first.Consistent) (others : List Block)

include consistent

/-- If an error of joining along the samples carries a number, the block there differs. -/
theorem errsAtOne_joinSamples (samples : Labels) (sources : List Source) :
    ErrsAtOne first others (joinSamples first others samples sources) := by
  induction consistent generalizing others samples sources with
  | @intro first own _ ih =>
    rw [joinSamples_eq]
    refine .bind (refusedOnly_checkJoinable.imp ?_) fun _ _ => ?_
    · rintro e (differs | ⟨_, _, _, _, rfl⟩)
      · exact .inr differs
      · exact .inl rfl
    refine .bind (refusedOnly_checkSameParameters.imp fun _ => .inr) fun _ _ => ?_
    refine .bind (unnumbered_checkSpan.imp fun _ => .inl) fun _ _ => ?_
    refine .bind (unnumbered_sampleValues.imp fun _ => .inl) fun _ _ => ?_
    refine .bind (unnumbered_ofValues.imp fun _ => .inl) fun _ _ => ?_
    exact errsAtOne_joinSampleGradients own.ordered (fun _ member => member)
      fun entry member others => ih entry.1 entry.2 member others

/-- If an error of joining along the properties carries a number, the block there differs. -/
theorem errsAtOne_joinProperties (samples : Labels) (positions : List (Array Nat))
    (properties : Labels) (sources : List Source) :
    ErrsAtOne first others (joinProperties first others samples positions properties sources) := by
  induction consistent generalizing others samples positions with
  | @intro first own _ ih =>
    rw [joinProperties_eq]
    refine .bind (refusedOnly_checkAllComponents.imp fun _ => .inr) fun _ _ => ?_
    refine .bind (refusedOnly_checkSameParameters.imp fun _ => .inr) fun _ _ => ?_
    refine .bind (unnumbered_checkSpan.imp fun _ => .inl) fun _ _ => ?_
    refine .bind (.mapM fun _ _ => unnumbered_lender.imp fun _ => .inl) fun _ _ => ?_
    refine .bind (unnumbered_propertyValues.imp fun _ => .inl) fun _ _ => ?_
    refine .bind (unnumbered_ofValues.imp fun _ => .inl) fun _ _ => ?_
    exact errsAtOne_joinPropertyGradients own.ordered (fun _ member => member)
      fun entry member others => ih entry.1 entry.2 member others

end Join

/-- The number that is carried is the position. -/
theorem Differs.block? {position : Nat} {first other : Block} {e : Error}
    (differs : Differs position first other e) : e.block? = none ∨ e.block? = some position := by
  induction differs with
  | axisCount | axis | parameters => exact .inr rfl
  | sampleNames => exact .inl rfl
  | deeper _ _ _ ih => exact ih

/-! ### The parameters of joined blocks -/

section Parameters

variable {first result : Block} {others : List Block}

variable (ordered : first.parameters.Pairwise (· < ·))

include ordered

theorem parameters_joinSamples {samples : Labels} {sources : List Source}
    (h : joinSamples first others samples sources = .ok result) :
    result.parameters = first.parameters := by
  obtain ⟨_, _, _, _, _, own, built, rest⟩ := joinSamples_steps.mp h
  obtain ⟨_, _, _, rfl⟩ := ofValues_eq_ok_iff.mp built
  exact (gains_joinSampleGradients rest).parameters (by exact ordered)

theorem parameters_joinProperties {samples properties : Labels} {positions : List (Array Nat)}
    {sources : List Source}
    (h : joinProperties first others samples positions properties sources = .ok result) :
    result.parameters = first.parameters := by
  obtain ⟨_, _, _, _, _, _, _, own, built, rest⟩ := joinProperties_steps.mp h
  obtain ⟨_, _, _, rfl⟩ := ofValues_eq_ok_iff.mp built
  exact (gains_joinPropertyGradients rest).parameters (by exact ordered)

end Parameters

end Block

end LabeledBlocks
