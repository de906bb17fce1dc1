import LabeledBlocks.Block.Joining
import LabeledBlocks.BlockMap.Grouping
import LabeledBlocks.Proofs.BlockMap.Consistent
import LabeledBlocks.Proofs.Groups
import LabeledBlocks.Proofs.Labels.Selection

/-!
# Groups of blocks, by name

A move takes the dimensions of some names away from the keys. What is left of a key, which keys
there are then, and which blocks belong together is said here in terms of names, and the grouping
that works with positions is shown to do just that.

* `BlockMap.restOf` — what is left of a key.
* `BlockMap.keysWithout` — the keys that are left, each once, in order of first appearance.
* `BlockMap.groupOf` — the blocks whose keys have the same rest.
* `BlockMap.groupsWithout_eq_ok_iff` — the grouping gives these keys and these groups.
* `BlockMap.move_eq_ok` — a move makes one block for every key that is left.
* `BlockMap.continuedRows` — the rows of the blocks of a group, with the values that moved.
-/

namespace LabeledBlocks

/-- The names of the dimensions that stay when those of other names are taken away. -/
def staying (dimensions names : List String) : List String :=
  dimensions.filter (· ∉ names)

theorem mem_staying {dimensions names : List String} {name : String} :
    name ∈ staying dimensions names ↔ name ∈ dimensions ∧ name ∉ names := by
  rw [staying, List.mem_filter, decide_eq_true_eq]

theorem staying_eq_nil_iff {dimensions names : List String} :
    staying dimensions names = [] ↔ ∀ name ∈ dimensions, name ∈ names := by
  rw [staying, List.filter_eq_nil_iff]
  exact forall₂_congr fun name _ => by rw [decide_eq_true_eq, not_not]

/-- The names that were put behind others are taken away again. -/
theorem staying_append {dimensions names : List String}
    (apart : ∀ name ∈ dimensions, name ∉ names) :
    staying (dimensions ++ names) names = dimensions := by
  have kept : names.filter (· ∉ names) = [] := by
    rw [List.filter_eq_nil_iff]
    simp
  have all : dimensions.filter (· ∉ names) = dimensions := by
    rw [List.filter_eq_self]
    simpa using apart
  rw [staying, List.filter_append, kept, all, List.append_nil]

/-- The positions of the dimensions that stay. -/
theorem map_idxOf_staying {dimensions : List String} (nodup : dimensions.Nodup)
    (names : List String) :
    (staying dimensions names).map dimensions.idxOf =
      (List.range dimensions.length).filter (· ∉ names.map dimensions.idxOf) := by
  have range : List.range dimensions.length = dimensions.map dimensions.idxOf := by
    refine List.ext_getElem (by simp) fun d inside _ => ?_
    rw [List.length_range] at inside
    rw [List.getElem_range, List.getElem_map, nodup.idxOf_getElem]
  rw [range, List.filter_map, staying]
  refine congrArg _ (List.filter_congr fun name member => ?_)
  rw [Function.comp_apply, decide_eq_decide, not_iff_not, List.mem_map]
  constructor
  · intro isMoved
    exact ⟨name, isMoved, rfl⟩
  · rintro ⟨other, isMoved, same⟩
    rwa [← (List.idxOf_inj member).mp same.symm] at isMoved

/-- A row is determined by its values in the dimensions that move and in those that stay. -/
theorem eq_of_valuesOf {dimensions names : List String} (nodup : dimensions.Nodup)
    (known : ∀ name ∈ names, name ∈ dimensions) {row row' : Row}
    (width : row.length = dimensions.length) (width' : row'.length = dimensions.length)
    (rest : Labels.valuesOf dimensions (staying dimensions names) row =
      Labels.valuesOf dimensions (staying dimensions names) row')
    (moved : Labels.valuesOf dimensions names row = Labels.valuesOf dimensions names row') :
    row = row' := by
  have stays : ∀ name ∈ staying dimensions names, name ∈ dimensions :=
    fun name member => (mem_staying.mp member).1
  have same : ∀ name ∈ dimensions,
      (dimensions.zip row).lookup name = (dimensions.zip row').lookup name := by
    intro name member
    by_cases isMoved : name ∈ names
    · exact Labels.lookup_eq_of_valuesOf known width width' moved name isMoved
    · exact Labels.lookup_eq_of_valuesOf stays width width' rest name
        (mem_staying.mpr ⟨member, isMoved⟩)
  rw [← Labels.valuesOf_self nodup width, ← Labels.valuesOf_self nodup width']
  exact List.filterMap_congr same

/-- Names are accepted for a move when none of them comes twice. -/
theorem checkMovedOnce_eq_ok_iff {source : MoveSource} {earlier names : List String} :
    checkMovedOnce source earlier names = .ok () ↔
      names.Nodup ∧ ∀ name ∈ names, name ∉ earlier := by
  induction names generalizing earlier with
  | nil => simp [checkMovedOnce]
  | cons name names ih =>
    rw [checkMovedOnce, refused_eq_ok, ih, List.nodup_cons, List.forall_mem_cons]
    simp only [List.mem_cons, not_or]
    constructor
    · rintro ⟨new, nodup, apart⟩
      exact ⟨⟨fun h => (apart name h).1 rfl, nodup⟩, new, fun other h => (apart other h).2⟩
    · rintro ⟨⟨once, nodup⟩, new, apart⟩
      exact ⟨new, nodup, fun other h => ⟨fun same => once (same ▸ h), apart other h⟩⟩

namespace BlockMap

/-! ### Keys and groups by name -/

/-- What is left of a key when the dimensions of some names are taken away: a single zero if none
stays. -/
def restOf (dimensions names : List String) (key : Row) : Row :=
  if staying dimensions names = [] then [0]
  else Labels.valuesOf dimensions (staying dimensions names) key

/-- The names of the dimensions that are left, and the name of no dimension if none stays. -/
def namesLeft (dimensions names : List String) : List String :=
  if staying dimensions names = [] then Labels.single.names else staying dimensions names

/-- The names that move are not left, unless one of them stands for the dimension that is left when
all move. -/
theorem not_mem_namesLeft {dimensions names : List String} {name : String}
    (nameless : (∀ name ∈ dimensions, name ∈ names) → "_" ∉ names) (moved : name ∈ names) :
    name ∉ namesLeft dimensions names := by
  unfold namesLeft
  by_cases none : staying dimensions names = []
  · rw [if_pos none, Labels.single, List.mem_singleton]
    rintro rfl
    exact nameless (staying_eq_nil_iff.mp none) moved
  · rw [if_neg none]
    exact fun stays => (mem_staying.mp stays).2 moved

/-- What is left of the keys, each once, in order of first appearance. -/
def keysWithout (map : BlockMap) (names : List String) : Labels where
  names := namesLeft map.keys.names names
  rows := (map.keys.rows.map (restOf map.keys.names names)).eraseDups

theorem names_keysWithout (map : BlockMap) (names : List String) :
    (map.keysWithout names).names = namesLeft map.keys.names names :=
  rfl

theorem rows_keysWithout (map : BlockMap) (names : List String) :
    (map.keysWithout names).rows = (map.keys.rows.map (restOf map.keys.names names)).eraseDups :=
  rfl

section Keys

variable {map : BlockMap} (valid : map.keys.Valid) {names : List String}

include valid

theorem length_restOf {key : Row} (isKey : key ∈ map.keys.rows) :
    (restOf map.keys.names names key).length = (namesLeft map.keys.names names).length := by
  unfold restOf namesLeft
  by_cases none : staying map.keys.names names = []
  · rw [if_pos none, if_pos none]
    rfl
  · rw [if_neg none, if_neg none]
    exact Labels.length_valuesOf (fun name member => (mem_staying.mp member).1)
      (valid.width key isKey)

/-- What is left of valid keys is valid. -/
theorem valid_keysWithout : (map.keysWithout names).Valid := by
  have left : ∀ name ∈ namesLeft map.keys.names names, Labels.IsIdentifier name := by
    unfold namesLeft
    by_cases none : staying map.keys.names names = []
    · rw [if_pos none]
      decide
    · rw [if_neg none]
      exact fun name member => valid.identifiers name (mem_staying.mp member).1
  refine ⟨⟨?_, nodup_eraseDups _⟩, left, ?_, ?_⟩
  · intro rest member
    obtain ⟨key, isKey, rfl⟩ := List.mem_map.mp (List.mem_eraseDups.mp member)
    exact length_restOf valid isKey
  · change (namesLeft map.keys.names names).Nodup
    unfold namesLeft
    by_cases none : staying map.keys.names names = []
    · rw [if_pos none]
      decide
    · rw [if_neg none]
      exact valid.distinct.sublist List.filter_sublist
  · intro unnamed
    change namesLeft map.keys.names names = [] at unnamed
    unfold namesLeft at unnamed
    by_cases none : staying map.keys.names names = []
    · rw [if_pos none] at unnamed
      cases unnamed
    · rw [if_neg none] at unnamed
      exact absurd unnamed none

end Keys

/-- The blocks, with their keys, that have the same rest of the key. -/
def groupOf (map : BlockMap) (names : List String) (rest : Row) : List (Row × Block) :=
  map.entries.filter fun entry => restOf map.keys.names names entry.1 == rest

theorem mem_groupOf {map : BlockMap} {names : List String} {rest : Row} {entry : Row × Block} :
    entry ∈ map.groupOf names rest ↔
      entry ∈ map.entries ∧ restOf map.keys.names names entry.1 = rest := by
  rw [groupOf, List.mem_filter, beq_iff_eq]

/-- The blocks of a group are blocks of the map, under its keys. -/
theorem mem_of_mem_groupOf {map : BlockMap} {names : List String} {rest : Row}
    {entry : Row × Block} (member : entry ∈ map.groupOf names rest) :
    entry.1 ∈ map.keys.rows ∧ entry.2 ∈ map.blocks :=
  List.of_mem_zip (mem_groupOf.mp member).1

/-- What is left of the key of a block is a key that is left. -/
theorem restOf_mem_keysWithout {map : BlockMap} (names : List String) {entry : Row × Block}
    (isEntry : entry ∈ map.entries) :
    restOf map.keys.names names entry.1 ∈ (map.keysWithout names).rows :=
  List.mem_eraseDups.mpr (List.mem_map_of_mem (List.of_mem_zip isEntry).1)

theorem consistent_groupOf {map : BlockMap} (consistent : map.Consistent) (names : List String)
    (rest : Row) : ∀ entry ∈ map.groupOf names rest, entry.2.Consistent :=
  fun _ member => consistent.blocks _ (mem_of_mem_groupOf member).2

def Member.entry (member : Member) : Row × Block :=
  (member.key, member.block)

theorem map_snd_entry (group : List Member) :
    (group.map Member.entry).map (·.2) = group.map Member.block := by
  rw [List.map_map]
  rfl

theorem map_entry_members (map : BlockMap) : map.members.map Member.entry = map.entries := by
  rw [members, List.map_map]
  exact List.zipIdx_map_fst 0 map.entries

theorem mem_members {map : BlockMap} {member : Member} (isMember : member ∈ map.members) :
    member.key ∈ map.keys.rows ∧ member.block ∈ map.blocks := by
  have isEntry := List.mem_map_of_mem (f := Member.entry) isMember
  rw [map_entry_members] at isEntry
  exact List.of_mem_zip isEntry

def membersOf (map : BlockMap) (names : List String) (rest : Row) : List Member :=
  map.members.filter fun member => restOf map.keys.names names member.key == rest

theorem map_entry_membersOf (map : BlockMap) (names : List String) (rest : Row) :
    (map.membersOf names rest).map Member.entry = map.groupOf names rest := by
  rw [membersOf, groupOf, ← map_entry_members, List.filter_map]
  rfl

section AllTakenAway

variable {map : BlockMap} {names : List String} (none : staying map.keys.names names = [])

include none

theorem restOf_eq_zero : restOf map.keys.names names = fun _ => [0] :=
  funext fun _ => if_pos none

/-- When all dimensions are taken away from the keys of some blocks, a single key is left. -/
theorem keysWithout_eq_single (some : map.keys.rows ≠ []) :
    map.keysWithout names = Labels.single := by
  refine Labels.ext_iff.mpr ⟨if_pos none, ?_⟩
  rw [rows_keysWithout, restOf_eq_zero none]
  exact eraseDups_map_const some

/-- Without blocks no key is left. -/
theorem keysWithout_eq_empty (empty : map.keys.rows = []) :
    Labels.empty Labels.single.names = .ok (map.keysWithout names) := by
  have left : map.keysWithout names = .of Labels.single.names [] := by
    refine Labels.ext_iff.mpr ⟨if_pos none, ?_⟩
    rw [rows_keysWithout, empty]
    rfl
  rw [left]
  have valid : (Labels.of Labels.single.names []).Valid := by decide
  exact Labels.ofRows_of_valid valid

theorem membersOf_eq_members (rest : Row) (zero : rest = [0]) :
    map.membersOf names rest = map.members := by
  rw [membersOf, restOf_eq_zero none, List.filter_eq_self]
  simp [zero]

end AllTakenAway

/-! ### The grouping -/

theorem movedDimensions_eq_ok_iff {map : BlockMap} {names : List String} {moved : List Nat} :
    map.movedDimensions names = .ok moved ↔
      names ≠ [] ∧ names.Nodup ∧ (∀ name ∈ names, name ∈ map.keys.names) ∧
        moved = names.map map.keys.names.idxOf := by
  simp only [movedDimensions, throw_bind_eq, refused_eq_ok, check_bind_eq_ok,
    checkMovedOnce_eq_ok_iff, Labels.dimensions_eq_ok_iff, List.isEmpty_iff, List.not_mem_nil,
    not_false_eq_true, implies_true, and_true, ne_eq]

/-- The names of the dimensions that do not move. -/
theorem namesWithout_idxOf {dimensions : List String} (nodup : dimensions.Nodup)
    (names : List String) :
    namesWithout (names.map dimensions.idxOf) dimensions = staying dimensions names := by
  have same : ∀ entry ∈ dimensions.zipIdx,
      decide (entry.2 ∉ names.map dimensions.idxOf) = decide (entry.1 ∉ names) := by
    rintro ⟨name, d⟩ member
    have found := List.mem_zipIdx_iff_getElem?.mp member
    dsimp only at found ⊢
    obtain ⟨inside, rfl⟩ := List.getElem?_eq_some_iff.mp found
    rw [decide_eq_decide, not_iff_not, List.mem_map]
    constructor
    · rintro ⟨other, isMoved, rfl⟩
      rwa [List.getElem_idxOf]
    · intro isMoved
      exact ⟨_, isMoved, nodup.idxOf_getElem d inside⟩
  rw [namesWithout, List.filter_congr same, staying]
  conv => rhs; rw [← List.zipIdx_map_fst 0 dimensions, List.filter_map]
  rfl

/-- The values of a key in dimensions that it has are found. -/
theorem movedValues_of_lt {moved : List Nat} {key : Row} (inRange : ∀ d ∈ moved, d < key.length) :
    movedValues moved key = .ok (Labels.pick moved key) := by
  have values : Labels.pick moved key = moved.map fun d => key[d]?.getD 0 := by
    have present : ∀ d ∈ moved, key[d]? = some (key[d]?.getD 0) := fun d member => by
      rw [List.getElem?_eq_getElem (inRange d member), Option.getD_some]
    rw [Labels.pick, List.filterMap_congr present, List.filterMap_eq_map']
  rw [values]
  refine mapM_eq_map fun d member => ?_
  rw [List.getElem?_eq_getElem (inRange d member)]
  rfl

/-- The values that move, by the names of their dimensions. -/
theorem movedValues_eq {dimensions names : List String} {key : Row}
    (known : ∀ name ∈ names, name ∈ dimensions) (width : key.length = dimensions.length) :
    movedValues (names.map dimensions.idxOf) key = .ok (Labels.valuesOf dimensions names key) := by
  rw [← Labels.pick_idxOf known]
  refine movedValues_of_lt fun d member => ?_
  obtain ⟨name, isMoved, rfl⟩ := List.mem_map.mp member
  rw [width]
  exact List.idxOf_lt_length_of_mem (known name isMoved)

theorem map_fst_entries {map : BlockMap} (count : map.keys.count = map.blocks.length) :
    map.entries.map (·.1) = map.keys.rows :=
  List.map_fst_zip (Nat.le_of_eq (map.keys.count_eq.symm.trans count))

theorem map_snd_entries {map : BlockMap} (count : map.keys.count = map.blocks.length) :
    map.entries.map (·.2) = map.blocks :=
  List.map_snd_zip (Nat.le_of_eq (count.symm.trans map.keys.count_eq))

theorem nodup_keys_entries {map : BlockMap} (nodup : map.keys.rows.Nodup)
    (count : map.keys.count = map.blocks.length) : (map.entries.map (·.1)).Nodup := by
  rwa [map_fst_entries count]

theorem map_key_members {map : BlockMap} (count : map.keys.count = map.blocks.length) :
    map.members.map Member.key = map.keys.rows := by
  rw [← map_fst_entries count, ← map_entry_members, List.map_map]
  rfl

/-- The grouping gives what is left of the keys, and for each of them its group. -/
theorem groupsWithout_eq_ok_iff {map : BlockMap} (valid : map.keys.Valid)
    (count : map.keys.count = map.blocks.length) {names : List String} {keys : Labels}
    {groups : List (List Member)} :
    map.groupsWithout (names.map map.keys.names.idxOf) = .ok (keys, groups) ↔
      keys = map.keysWithout names ∧ groups = keys.rows.map (map.membersOf names) := by
  have given : map.groupsWithout (names.map map.keys.names.idxOf) =
      .ok (map.keysWithout names, (map.keysWithout names).rows.map (map.membersOf names)) := by
    rw [groupsWithout, namesWithout_idxOf valid.distinct]
    by_cases none : staying map.keys.names names = []
    · by_cases empty : map.keys.rows = []
      · have no : (map.keysWithout names).rows = [] := by
          rw [rows_keysWithout, empty]
          rfl
        simp only [none, empty, List.isEmpty_nil, if_true, keysWithout_eq_empty none empty, no]
        rfl
      · have some : map.keys.rows.isEmpty = false := by simpa using empty
        have all := membersOf_eq_members none [0] rfl
        simp only [none, some, List.isEmpty_nil, if_true, keysWithout_eq_single none empty,
          Labels.single, List.map_singleton, all]
        rfl
    · have some : (staying map.keys.names names).isEmpty = false := by simpa using none
      have projects := Labels.project_eq fun name (member : name ∈ staying map.keys.names names) =>
        (mem_staying.mp member).1
      have rest : restOf map.keys.names names =
          Labels.valuesOf map.keys.names (staying map.keys.names names) :=
        funext fun _ => if_neg none
      have left : map.keysWithout names = map.keys.projected (staying map.keys.names names) := by
        refine Labels.ext_iff.mpr ⟨if_neg none, ?_⟩
        rw [rows_keysWithout, rest]
        rfl
      have positions : (map.keys.rows.map fun key =>
            (map.keysWithout names).rows.idxOf (restOf map.keys.names names key)) =
          map.members.map fun member =>
            (map.keysWithout names).rows.idxOf (restOf map.keys.names names member.key) := by
        rw [← map_key_members count, List.map_map]
        rfl
      rw [← left, ← rest] at projects
      simp only [some, Bool.false_eq_true, if_false]
      rw [projects]
      refine congrArg (fun groups => Except.ok (map.keysWithout names, groups)) ?_
      rw [(map.keysWithout names).count_eq]
      exact groupsByNumber_idxOf (nodup_eraseDups _) positions
  rw [given, Except.ok.injEq, Prod.mk.injEq]
  constructor
  · rintro ⟨rfl, rfl⟩
    exact ⟨rfl, rfl⟩
  · rintro ⟨rfl, rfl⟩
    exact ⟨rfl, rfl⟩

/-- The members of a group have different keys. -/
theorem nodup_keys_groupOf {map : BlockMap} (nodup : map.keys.rows.Nodup)
    (count : map.keys.count = map.blocks.length) (names : List String) (rest : Row) :
    ((map.groupOf names rest).map (·.1)).Nodup :=
  (nodup_keys_entries nodup count).sublist (List.filter_sublist.map _)

/-- Every key that is left is what is left of the key of some block. -/
theorem exists_mem_groupOf {map : BlockMap} (count : map.keys.count = map.blocks.length)
    {names : List String} {rest : Row} (isRest : rest ∈ (map.keysWithout names).rows) :
    ∃ entry, entry ∈ map.groupOf names rest := by
  obtain ⟨key, isKey, rfl⟩ := List.mem_map.mp (List.mem_eraseDups.mp isRest)
  rw [← map_fst_entries count] at isKey
  obtain ⟨entry, isEntry, rfl⟩ := List.mem_map.mp isKey
  exact ⟨entry, List.mem_filter.mpr ⟨isEntry, beq_self_eq_true _⟩⟩

/-- When all dimensions of the keys are taken away from some blocks, a single key is left. -/
theorem keysWithout_eq_single_of_blocks {map : BlockMap} {names : List String}
    (count : map.keys.count = map.blocks.length) (all : ∀ name ∈ map.keys.names, name ∈ names)
    (some : map.blocks ≠ []) : map.keysWithout names = Labels.single := by
  apply keysWithout_eq_single (staying_eq_nil_iff.mpr all)
  rw [← List.length_pos_iff, ← map.keys.count_eq, count]
  exact List.length_pos_iff.mpr some

/-- A move makes one block for every key that is left, out of the blocks of its group. -/
theorem move_eq_ok {map merged : BlockMap} {names : List String}
    (mergeGroup : List Nat → List Member → Except Error Block) (valid : map.keys.Valid)
    (count : map.keys.count = map.blocks.length)
    (h : (do
      let moved ← map.movedDimensions names
      let (keys, groups) ← map.groupsWithout moved
      let blocks ← groups.mapM (mergeGroup moved)
      ofBlocks keys blocks map.mixedProperties) = .ok merged) :
    (names ≠ [] ∧ names.Nodup ∧ ∀ name ∈ names, name ∈ map.keys.names) ∧
      merged.mixedProperties = map.mixedProperties ∧ merged.keys = map.keysWithout names ∧
      List.Forall₂ (fun rest block =>
          mergeGroup (names.map map.keys.names.idxOf) (map.membersOf names rest) = .ok block)
        merged.keys.rows merged.blocks ∧
      ((∀ block ∈ merged.blocks, block.Consistent) → merged.Consistent) := by
  obtain ⟨moved, found, h⟩ := bind_eq_ok.mp h
  obtain ⟨some, nodup, known, rfl⟩ := movedDimensions_eq_ok_iff.mp found
  obtain ⟨⟨keys, groups⟩, grouped, h⟩ := bind_eq_ok.mp h
  obtain ⟨rfl, rfl⟩ := (groupsWithout_eq_ok_iff valid count).mp grouped
  obtain ⟨blocks, made, h⟩ := bind_eq_ok.mp h
  have all := mapM_eq_ok.mp made
  rw [List.forall₂_map_left_iff] at all
  obtain ⟨_, _, rfl⟩ := ofBlocks_eq_ok_iff.mp h
  exact ⟨⟨some, nodup, known⟩, rfl, rfl, all, fun each => consistent_ofBlocks each h⟩

/-- A move succeeds if it makes blocks that go together of all groups. -/
theorem move_of_groups {map : BlockMap} {names : List String}
    (mergeGroup : List Nat → List Member → Except Error Block) (valid : map.keys.Valid)
    (count : map.keys.count = map.blocks.length) (some : names ≠ []) (nodup : names.Nodup)
    (known : ∀ name ∈ names, name ∈ map.keys.names) {blocks : List Block}
    (all : List.Forall₂ (fun rest block =>
        mergeGroup (names.map map.keys.names.idxOf) (map.membersOf names rest) = .ok block)
      (map.keysWithout names).rows blocks)
    (agree : ∀ a ∈ blocks, ∀ b ∈ blocks, Agree map.mixedProperties a b) :
    (do
      let moved ← map.movedDimensions names
      let (keys, groups) ← map.groupsWithout moved
      let blocks ← groups.mapM (mergeGroup moved)
      ofBlocks keys blocks map.mixedProperties) =
        .ok ⟨map.keysWithout names, blocks, map.mixedProperties⟩ := by
  have found := movedDimensions_eq_ok_iff.mpr ⟨some, nodup, known, rfl⟩
  have grouped := (@groupsWithout_eq_ok_iff _ valid count names _ _).mpr ⟨rfl, rfl⟩
  have made := mapM_eq_ok.mpr (List.forall₂_map_left_iff.mpr all)
  have keysCount : (map.keysWithout names).count = blocks.length := by
    rw [Labels.count_eq]
    exact all.length_eq
  rw [found, ok_bind_eq, grouped, ok_bind_eq]
  exact bind_eq_ok.mpr ⟨blocks, made, ofBlocks_eq_ok_iff.mpr ⟨keysCount, agree, rfl⟩⟩

/-! ### The rows of a group -/

/-- Rows of some blocks, one block after the other, each with what the key of its block goes on
with, and with its source. -/
def continuedRows (rowsOf : Block → List Row) (continuation : Row → Row)
    (group : List (Row × Block)) : List (Row × Source) :=
  group.zipIdx.flatMap fun entry =>
    Block.extendRows (continuation entry.1.1) entry.2 (rowsOf entry.1.2)

/-- A continued row is a row of a block, followed by the values of its key. -/
theorem mem_continuedRows {rowsOf : Block → List Row} {continuation : Row → Row}
    {group : List (Row × Block)} {row : Row} {source : Source} :
    (row, source) ∈ continuedRows rowsOf continuation group ↔ ∃ key block own,
      group[source.block]? = some (key, block) ∧ (rowsOf block)[source.index]? = some own ∧
      row = own ++ continuation key := by
  simp only [continuedRows, Block.extendRows, List.mem_flatMap, List.mem_map, Prod.exists,
    List.mem_zipIdx_iff_getElem?, Prod.mk.injEq]
  constructor
  · rintro ⟨key, block, b, found, own, r, standing, rfl, rfl⟩
    exact ⟨key, block, own, found, standing, rfl⟩
  · rintro ⟨key, block, own, found, standing, rfl⟩
    exact ⟨key, block, source.block, found, own, source.index, standing, rfl, rfl⟩

/-- There are as many rows as the blocks have together. -/
theorem length_continuedRows (labelsOf : Block → Labels) (continuation : Row → Row)
    (group : List (Row × Block)) :
    (continuedRows (fun block => (labelsOf block).rows) continuation group).length =
      (group.map fun entry => (labelsOf entry.2).count).sum := by
  have each : (fun entry : (Row × Block) × Nat => (Block.extendRows (continuation entry.1.1) entry.2
      (labelsOf entry.1.2).rows).length) =
      (fun entry => (labelsOf entry.2).count) ∘ Prod.fst := by
    funext entry
    rw [Block.extendRows, List.length_map, List.length_zipIdx, Function.comp_apply, Labels.count_eq]
  rw [continuedRows, List.length_flatMap, each, ← List.map_map, List.zipIdx_map_fst]

/-- Every source is a row of one of the blocks. -/
theorem inRange_continuedRows {labelsOf : Block → Labels} {continuation : Row → Row}
    {group : List (Row × Block)} {arranged : List (Row × Source)}
    (perm : arranged.Perm
      (continuedRows (fun block => (labelsOf block).rows) continuation group)) :
    ∀ source ∈ arranged.map (·.2), ∃ block, (group.map (·.2))[source.block]? = some block ∧
      source.index < (labelsOf block).count := by
  intro source member
  obtain ⟨⟨row, source⟩, isRow, rfl⟩ := List.mem_map.mp member
  obtain ⟨key, block, own, found, standing, _⟩ := mem_continuedRows.mp (perm.mem_iff.mp isRow)
  refine ⟨block, ?_, ?_⟩
  · rw [List.getElem?_map, found, Option.map_some]
  · rw [(labelsOf block).count_eq]
    exact (List.getElem?_eq_some_iff.mp standing).1

theorem map_fst_continuedRows (rowsOf : Block → List Row) (continuation : Row → Row)
    (group : List (Row × Block)) :
    (continuedRows rowsOf continuation group).map (·.1) =
      group.flatMap fun entry => (rowsOf entry.2).map (· ++ continuation entry.1) := by
  have each : ∀ entry ∈ group.zipIdx,
      (Block.extendRows (continuation entry.1.1) entry.2 (rowsOf entry.1.2)).map (·.1) =
        (rowsOf entry.1.2).map (· ++ continuation entry.1.1) := by
    intro entry _
    rw [Block.extendRows, List.map_map]
    conv => rhs; rw [← List.zipIdx_map_fst 0 (rowsOf entry.1.2), List.map_map]
    rfl
  rw [continuedRows, List.map_flatMap, List.flatMap_congr each]
  conv => rhs; rw [← List.zipIdx_map_fst 0 group, List.flatMap_map]

/-- The rows that are put together for a group are those of its blocks, with the values of their
keys that moved. -/
theorem mapM_extendRows (rowsOf : Block → List Row) {dimensions names : List String}
    {group : List Member} (known : ∀ name ∈ names, name ∈ dimensions)
    (width : ∀ member ∈ group, member.key.length = dimensions.length) :
    ∃ parts, (group.zipIdx.mapM fun entry => do
        let continuation ← movedValues (names.map dimensions.idxOf) entry.1.key
        pure (Block.extendRows continuation entry.2 (rowsOf entry.1.block))) = .ok parts ∧
      parts.flatten = continuedRows rowsOf (Labels.valuesOf dimensions names)
        (group.map Member.entry) := by
  let part := fun entry : Member × Nat =>
    Block.extendRows (Labels.valuesOf dimensions names entry.1.key) entry.2 (rowsOf entry.1.block)
  refine ⟨group.zipIdx.map part, mapM_eq_map fun entry member => ?_, ?_⟩
  · have isMember := List.fst_mem_of_mem_zipIdx member
    rw [movedValues_eq known (width entry.1 isMember)]
    rfl
  · rw [continuedRows, List.zipIdx_map, List.flatMap_map, List.flatMap_def]
    rfl

end BlockMap

end LabeledBlocks
