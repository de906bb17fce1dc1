import LabeledBlocks.Proofs.Reachable
import Mathlib.Data.List.Perm.Basic

/-!
# Labels as sets of rows

Labels are compared as sets by looking up the rows of the one side in the other. Nothing is looked
up the other way. It need not be: there are equally many rows on both sides and none of them stands
twice, so the rows of one side are those of the other in another order. The hash adds up what it is
told of every row, and does not see the order either.

* `Labels.sameRows_iff_perm`, `Labels.sameRows_iff_mem` — labels with the same rows.
* `Labels.digest_eq_of_sameRows` — labels with the same rows are hashed alike.
* `Labels.compared_as_sets` — how labels that are reached compare.
-/

namespace LabeledBlocks.Labels

section Regular

variable {a b : Labels} (ha : a.Regular) (hb : b.Regular)

include ha hb

/-- The rows of either side are those of the other in another order. -/
theorem sameRows_iff_perm :
    a.sameRows b = true ↔ a.names = b.names ∧ a.rows.Perm b.rows := by
  simp only [sameRows, Bool.and_eq_true, beq_iff_eq, List.all_eq_true, contains_iff hb, a.count_eq,
    b.count_eq]
  constructor
  · rintro ⟨⟨names, count⟩, found⟩
    -- All rows of `a` are found in `b`, which has no more rows than these.
    have among : a.rows.Subperm b.rows := List.subperm_of_subset ha.nodup found
    exact ⟨names, among.perm_of_length_le count.ge⟩
  · rintro ⟨names, perm⟩
    exact ⟨⟨names, perm.length_eq⟩, fun row => perm.mem_iff.mp⟩

theorem sameRows_iff_mem :
    a.sameRows b = true ↔ a.names = b.names ∧ ∀ row, row ∈ a.rows ↔ row ∈ b.rows := by
  rw [sameRows_iff_perm ha hb, List.perm_ext_iff_of_nodup ha.nodup hb.nodup]

theorem sameRows_symm (same : a.sameRows b = true) : b.sameRows a = true := by
  obtain ⟨names, perm⟩ := (sameRows_iff_perm ha hb).mp same
  exact (sameRows_iff_perm hb ha).mpr ⟨names.symm, perm.symm⟩

theorem identical_iff_rows :
    a.identical b = true ↔ a.names = b.names ∧ a.rows = b.rows := by
  rw [identical_iff ha hb, ext_iff]

/-- Hashes of rows that are added up do not show the order of the rows. -/
theorem digest_eq_of_sameRows (rowHash : Row → UInt64) (same : a.sameRows b = true) :
    a.digest rowHash = b.digest rowHash := by
  obtain ⟨names, perm⟩ := (sameRows_iff_perm ha hb).mp same
  have swap : LeftCommutative fun x y : UInt64 => x + y :=
    ⟨fun x y z => by rw [← UInt64.add_assoc, UInt64.add_comm x y, UInt64.add_assoc]⟩
  have sum : (a.rows.map rowHash).sum = (b.rows.map rowHash).sum :=
    (perm.map rowHash).foldr_eq 0
  rw [digest, digest, names, a.count_eq, b.count_eq, perm.length_eq, sum]

end Regular

theorem sameRows_self {a : Labels} (ha : a.Regular) : a.sameRows a = true :=
  (sameRows_iff_perm ha ha).mpr ⟨rfl, .refl _⟩

theorem sameRows_trans {a b c : Labels} (ha : a.Regular) (hb : b.Regular) (hc : c.Regular)
    (same : a.sameRows b = true) (same' : b.sameRows c = true) : a.sameRows c = true := by
  obtain ⟨names, perm⟩ := (sameRows_iff_perm ha hb).mp same
  obtain ⟨names', perm'⟩ := (sameRows_iff_perm hb hc).mp same'
  exact (sameRows_iff_perm ha hc).mpr ⟨names.trans names', perm.trans perm'⟩

/-- **Labels compare as sets of rows.** However they are come by, labels are the same exactly if they
have the same names and the same rows, in whatever order. So labels are the same as themselves, what
is the same as others is so the other way round, and two that are the same as a third one are the
same. They are identical exactly if the rows have the same order as well. Whatever the hash of a row
is, labels that are the same are hashed alike. -/
theorem compared_as_sets {a b c : Labels} (reached : Reachable (.labels a))
    (reached' : Reachable (.labels b)) (reached'' : Reachable (.labels c)) :
    (a.sameRows b = true ↔ a.names = b.names ∧ ∀ row, row ∈ a.rows ↔ row ∈ b.rows) ∧
    (a.sameRows a = true ∧ (a.sameRows b = true → b.sameRows a = true) ∧
      (a.sameRows b = true → b.sameRows c = true → a.sameRows c = true)) ∧
    (a.identical b = true ↔ a.names = b.names ∧ a.rows = b.rows) ∧
    (a.identical b = true → a.sameRows b = true) ∧
    ∀ rowHash : Row → UInt64, a.sameRows b = true → a.digest rowHash = b.digest rowHash := by
  have ha : a.Regular := sound_of_reachable reached
  have hb : b.Regular := sound_of_reachable reached'
  have hc : c.Regular := sound_of_reachable reached''
  refine ⟨sameRows_iff_mem ha hb, ?_, identical_iff_rows ha hb, ?_, ?_⟩
  · exact ⟨sameRows_self ha, sameRows_symm ha hb, sameRows_trans ha hb hc⟩
  · intro identical
    obtain ⟨names, rows⟩ := (identical_iff_rows ha hb).mp identical
    exact (sameRows_iff_perm ha hb).mpr ⟨names, .of_eq rows⟩
  · exact fun rowHash => digest_eq_of_sameRows ha hb rowHash

def rising : Labels :=
  .of ["x"] [[0], [1], [2]]

def turned : Labels :=
  .of ["x"] [[2], [0], [1]]

def united : Labels :=
  .of ["x"] [[2], [1], [0]]

theorem turned_compared : Reachable (.labels united) ∧ rising.sameRows turned = true ∧
    turned.sameRows rising = true ∧ rising.sameRows united = true ∧
    rising.identical turned = false ∧
    ∀ rowHash : Row → UInt64, rising.digest rowHash = turned.digest rowHash := by
  have reached : Reachable (.labels rising) := reachable_labels (by decide)
  have reached' : Reachable (.labels turned) := reachable_labels (by decide)
  have parts : Reachable (.labels (.of ["x"] [[2], [1]])) ∧
      Reachable (.labels (.of ["x"] [[1], [0]])) :=
    ⟨reachable_labels (by decide), reachable_labels (by decide)⟩
  have reached'' : Reachable (.labels united) := .union parts.1 parts.2 (by decide +kernel)
  obtain ⟨_, ⟨_, symm, trans⟩, identical, _, hashed⟩ :=
    compared_as_sets reached reached' reached''
  have moved : rising.sameRows turned = true := by decide +kernel
  have moved' : turned.sameRows united = true := by decide +kernel
  have apart : rising.identical turned = false := by
    rw [← Bool.not_eq_true, identical]
    decide
  exact ⟨reached'', moved, symm moved, trans moved moved', apart, fun rowHash => hashed rowHash moved⟩

end LabeledBlocks.Labels
