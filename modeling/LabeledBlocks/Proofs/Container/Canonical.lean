import LabeledBlocks.Proofs.Container.Contained
import LabeledBlocks.Proofs.Container.Parts
import LabeledBlocks.Proofs.Container.RoundTrip

/-!
# Only what is written is loaded

Bytes that are loaded as a map are the bytes of a container of the map, except that they may list
the gradients of a block in another order. What they list is determined by them. Writing the map
that was loaded, in the byte order and with or without a checksum as the header of the bytes says,
gives as many bytes, from which the map is loaded again; they are the same bytes exactly when all
gradients were listed in order.

* `ToldBy` — a value is known from its bytes, whatever follows them.
* `Block.toldBy_listable` — a block with its gradients, as they are listed, is known from its bytes.
* `BlockMap.Lists` — the map that bytes list.
* `BlockMap.load_rewritten` — bytes that are loaded, and the bytes that are written instead.
-/

namespace LabeledBlocks

/-! ### Values that are known from their bytes -/

/-- No other value of its kind has bytes that begin like those of this one. -/
def ToldBy {α : Type} (encode : α → List UInt8) (P : α → Prop) (value : α) : Prop :=
  ∀ other rest rest', P other → encode value ++ rest = encode other ++ rest' →
    value = other ∧ rest = rest'

section ToldBy

variable {α : Type} {encode : α → List UInt8} {P : α → Prop}

/-- What two values are read from can not begin alike. -/
theorem Decoder.Reads.unique {decoder : Decoder α} {bytes bytes' rest rest' : List UInt8}
    {value value' : α} (h : decoder.Reads bytes value) (h' : decoder.Reads bytes' value')
    (same : bytes ++ rest = bytes' ++ rest') : value = value' ∧ rest = rest' := by
  obtain ⟨after, done, passed⟩ := h (.of (bytes ++ rest) .endOfData) rest rfl
  obtain ⟨_, done', passed'⟩ := h' (.of (bytes ++ rest) .endOfData) rest' same
  obtain ⟨rfl, rfl⟩ := EStateM.Result.ok.inj (done.symm.trans done')
  exact ⟨rfl, passed.bytes.symm.trans passed'.bytes⟩

/-- Lists of values are known when the values are, if they are equally many. -/
theorem eq_of_flatMap_eq {values others : List α} (told : ∀ value ∈ values, ToldBy encode P value)
    (length : values.length = others.length) (known : ∀ other ∈ others, P other)
    {rest rest' : List UInt8}
    (same : values.flatMap encode ++ rest = others.flatMap encode ++ rest') :
    values = others ∧ rest = rest' := by
  induction values generalizing others with
  | nil =>
    cases List.eq_nil_of_length_eq_zero length.symm
    exact ⟨rfl, same⟩
  | cons value values ih =>
    cases others with
    | nil => cases length
    | cons other others =>
      rw [List.forall_mem_cons] at told known
      rw [List.flatMap_cons, List.flatMap_cons, List.append_assoc, List.append_assoc] at same
      obtain ⟨rfl, behind⟩ := told.1 other _ _ known.1 same
      obtain ⟨rfl, rfl⟩ := ih told.2 (Nat.succ.inj length) known.2 behind
      exact ⟨rfl, rfl⟩

end ToldBy

theorem Labels.Storable.reads {labels : Labels} (storable : labels.Storable) (order : ByteOrder) :
    (Decoder.labels order).Reads (Piece.allBytes order labels.layout) labels :=
  Decoder.reads_labels order storable.valid storable.addressable storable.fit

namespace Block

theorem OwnStorable.reads {block : Block} (own : block.OwnStorable) (order : ByteOrder) :
    (Decoder.ownBlock Allocator.zeros order).Reads
      (Piece.allBytes order
        (ownLayout block.values block.samples block.components block.properties))
      { block with gradients := [] } := by
  have bare : AxesLabelled Labels.Valid { block with gradients := [] } := { own.valid with }
  have addressable : OwnAddressable { block with gradients := [] } :=
    ⟨{ own.addressable.labels with }, own.addressable.values⟩
  have reads := Decoder.reads_ownBlock order own.wellFormed bare addressable own.fit
  exact reads

theorem Listable.inOrder {block : Block} (listable : block.Listable) : block.inOrder.Listable where
  own := everywhere_inOrder listable.own fun _ _ own =>
    ⟨own.wellFormed, { own.valid with }, ⟨{ own.addressable.labels with }, own.addressable.values⟩,
      own.fit⟩
  fit := fun piece member => listable.fit piece ((layout_inOrder block).mem_iff.mp member)

/-- What is known of a gradient that is listed behind its parameter. -/
def ListableEntry (entry : String × Block) : Prop :=
  (Utf8.encode entry.1).length < 2 ^ 32 ∧ entry.2.Listable

theorem Listable.entries {block : Block} (listable : block.Listable) :
    block.gradients.length < 2 ^ 32 ∧ ∀ entry ∈ block.gradients, ListableEntry entry := by
  have fit := listable.fit
  rw [layout_eq, Piece.fit_append, Piece.fit_append] at fit
  obtain ⟨⟨_, count⟩, gradients⟩ := fit
  refine ⟨Piece.excess?_length.mp (Piece.fit_cons.mp count).1, fun entry member => ?_⟩
  obtain ⟨named, inner⟩ := Decoder.fit_gradientLayout gradients entry member
  exact ⟨named, listable.own.inner member, inner⟩

/-- A gradient is known from its bytes when the block is that follows its parameter. -/
theorem toldBy_gradient {order : ByteOrder} {entry : String × Block}
    (named : (Utf8.encode entry.1).length < 2 ^ 32)
    (told : ToldBy (fun block => Piece.allBytes order block.layout) Listable entry.2) :
    ToldBy (Decoder.gradientBytes order) ListableEntry entry := by
  rintro ⟨parameter, gradient⟩ rest rest' ⟨named', listable⟩ same
  obtain ⟨name, block⟩ := entry
  simp only [Decoder.gradientBytes, List.append_assoc] at same
  have texts := Decoder.reads_string order named .parameter
  have texts' := Decoder.reads_string order named' .parameter
  simp only [← List.append_assoc (order.bytes 4 _)] at same
  obtain ⟨rfl, behind⟩ := texts.unique texts' same
  obtain ⟨rfl, rfl⟩ := told gradient rest rest' listable behind
  exact ⟨rfl, rfl⟩

/-- A block with its gradients, in the order in which they are listed, is known from its bytes. -/
theorem toldBy_listable {order : ByteOrder} {block : Block} (own : block.Everywhere OwnStorable)
    (fit : Piece.Fit block.layout) :
    ToldBy (fun block => Piece.allBytes order block.layout) Listable block := by
  induction own with
  | @intro block own deeper ih =>
    intro other rest rest' listable same
    have entries := Listable.entries ⟨.intro own deeper, fit⟩
    have entries' := listable.entries
    simp only [Decoder.allBytes_block, List.append_assoc] at same
    obtain ⟨bare, same⟩ := (own.reads order).unique (listable.own.own.reads order) same
    have counts := Decoder.reads_length order entries.1 .gradientCount
    have counts' := Decoder.reads_length order entries'.1 .gradientCount
    obtain ⟨length, same⟩ := counts.unique counts' same
    have told : ∀ entry ∈ block.gradients,
        ToldBy (Decoder.gradientBytes order) ListableEntry entry := fun entry member =>
      toldBy_gradient (entries.2 entry member).1 (ih _ _ member (entries.2 entry member).2.fit)
    obtain ⟨gradients, rfl⟩ := eq_of_flatMap_eq told length entries'.2 same
    refine ⟨?_, rfl⟩
    rw [← block.eta, ← other.eta, gradients]
    simp only [Block.mk.injEq] at bare ⊢
    exact ⟨bare.1, bare.2.1, bare.2.2.1, bare.2.2.2.1, trivial⟩

end Block

namespace BlockMap

/-! ### What a container lists -/

def inOrder (map : BlockMap) : BlockMap :=
  { map with blocks := map.blocks.map Block.inOrder }

/-- The bytes are the container of this map, with the gradients in the order in which they are
listed there. -/
structure Lists (bytes : List UInt8) (header : Header) (listed : BlockMap) : Prop where
  keys : listed.keys.Storable
  count : listed.keys.count = listed.blocks.length
  blocks : ∀ block ∈ listed.blocks, block.Listable
  mixed : listed.mixedProperties = header.mixedProperties
  bytes : bytes = header.enclose (Piece.allBytes header.order listed.layout)

def ListedInOrder (map : BlockMap) : Prop :=
  ∀ block ∈ map.blocks, block.Everywhere Block.ListedInOrder

/-- No block of the map, and none of their gradients, has more than one gradient. -/
def SingleGradients (map : BlockMap) : Prop :=
  ∀ block ∈ map.blocks, block.Everywhere fun block => block.gradients.length ≤ 1

variable {bytes : List UInt8} {header : Header} {listed other map : BlockMap}

theorem inOrder_eq_self (ordered : listed.ListedInOrder) : listed.inOrder = listed := by
  have same : listed.blocks.map Block.inOrder = listed.blocks := by
    conv => rhs; rw [← List.map_id listed.blocks]
    exact List.map_congr_left fun block member => Block.inOrder_eq_self (ordered block member)
  rw [inOrder, same]

/-- Gradients of which there is never more than one are listed in order. -/
theorem listedInOrder_of_single (single : listed.SingleGradients) : listed.ListedInOrder := by
  intro block member
  refine (single block member).imp fun block few => ?_
  unfold Block.ListedInOrder
  cases found : block.gradients with
  | nil => exact .nil
  | cons first rest =>
    rw [found, List.length_cons] at few
    have none : rest = [] := List.eq_nil_of_length_eq_zero (by omega)
    rw [none]
    exact List.pairwise_singleton ..

/-- However the gradients are listed, the layout has the same pieces. -/
theorem layout_inOrder (listed : BlockMap) : listed.inOrder.layout.Perm listed.layout := by
  have blocks : ∀ blocks : List Block, ((blocks.map Block.inOrder).flatMap Block.layout).Perm
      (blocks.flatMap Block.layout) := by
    intro blocks
    induction blocks with
    | nil => exact .refl _
    | cons first rest ih => exact (Block.layout_inOrder first).append ih
  exact (blocks listed.blocks).append_left _

theorem length_allBytes_inOrder (order : ByteOrder) (listed : BlockMap) :
    (Piece.allBytes order listed.inOrder.layout).length =
      (Piece.allBytes order listed.layout).length :=
  ((layout_inOrder listed).flatMap_right _).length_eq

/-- Bytes list one map only. -/
theorem Lists.unique (lists : Lists bytes header listed) (lists' : Lists bytes header other) :
    other = listed := by
  have inner := Header.enclose_injective (lists.bytes.symm.trans lists'.bytes)
  simp only [allBytes_layout, Writer.keyLayout, Piece.allBytes_append, List.append_assoc] at inner
  obtain ⟨keys, rest⟩ :=
    (lists.keys.reads header.order).unique (lists'.keys.reads header.order) inner
  have length : listed.blocks.length = other.blocks.length := by
    rw [← lists.count, ← lists'.count, keys]
  have told : ∀ block ∈ listed.blocks,
      ToldBy (fun block => Piece.allBytes header.order block.layout) Block.Listable block :=
    fun block member =>
      Block.toldBy_listable (lists.blocks block member).own (lists.blocks block member).fit
  rw [keys] at rest
  have blockBytes := congrArg (· ++ []) (List.append_cancel_left rest)
  obtain ⟨blocks, _⟩ := eq_of_flatMap_eq told length lists'.blocks blockBytes
  have mixed : listed.mixedProperties = other.mixedProperties := lists.mixed.trans lists'.mixed.symm
  cases listed
  cases other
  cases keys
  cases blocks
  cases mixed
  rfl

theorem Lists.fit (lists : Lists bytes header listed) : Piece.Fit listed.layout := by
  rw [layout, Writer.keyLayout, Piece.fit_append, Piece.fit_append, Piece.fit_flatMap]
  refine ⟨⟨lists.keys.fit, ?_⟩, fun block member => (lists.blocks block member).fit⟩
  simp [Piece.Fit, Piece.excess?]

/-- A map whose gradients are in order is listed by its own container. -/
theorem Lists.inOrder (lists : Lists bytes header listed) :
    Lists (header.enclose (Piece.allBytes header.order listed.inOrder.layout)) header
      listed.inOrder := by
  refine ⟨lists.keys, ?_, ?_, lists.mixed, rfl⟩
  · rw [BlockMap.inOrder, List.length_map]
    exact lists.count
  · intro block member
    obtain ⟨inner, inside, rfl⟩ := List.mem_map.mp member
    exact (lists.blocks inner inside).inOrder

/-! ### Bytes that are loaded -/

/-- Bytes that are loaded list the map, up to the order of gradients. -/
theorem exists_lists (loaded : load bytes = .ok map) :
    ∃ header listed, header.check .map = .ok () ∧ Lists bytes header listed ∧
      listed.inOrder = map ∧ map.Rereadable := by
  unfold load read at loaded
  rw [readWith_eq] at loaded
  obtain ⟨header, inner, ⟨keys, blocks⟩, readable, delimits, built, rfl⟩ :=
    Decoder.container_load_eq_ok Decoder.delimited_mapContent loaded
  obtain ⟨stored, count, known, listed, listable, rfl, rfl⟩ :=
    (Decoder.yields_mapContent Allocator.zeros header.order).of_reads delimits.reads
  have consistent :=
    consistent_ofBlocks (fun block member => (known block member).1.consistent) built
  obtain ⟨_, _, rfl⟩ := ofBlocks_eq_ok_iff.mp built
  refine ⟨header, ⟨keys, listed, header.mixedProperties⟩, readable, ⟨stored, ?_, listable, rfl, ?_⟩,
    rfl, consistent, ⟨stored.valid, fun block member => (known block member).1.valid⟩,
    ⟨stored.addressable, fun block member => (known block member).1.addressable⟩,
    fun block member => (known block member).2⟩
  · rw [List.length_map] at count
    exact count
  · rw [allBytes_layout]

/-- A map is loaded from its container. -/
theorem Rereadable.load_enclosed (rereadable : map.Rereadable) (fit : Piece.Fit map.layout)
    (readable : header.check .map = .ok ()) (mixed : header.mixedProperties = map.mixedProperties) :
    load (header.enclose (Piece.allBytes header.order map.layout)) = .ok map := by
  unfold load read
  rw [readWith_eq, Decoder.container_load_eq_ok_iff Decoder.delimited_mapContent, ← readWith_eq]
  exact rereadable.read_enclosed fit readable mixed true (List.append_nil _).symm

/-- Bytes from which a map is loaded list the map, perhaps with its gradients in another order. When
the map is written again, in the byte order and with or without a checksum as their header says,
there are as many bytes, and the map is loaded from them. They are the same bytes exactly when the
gradients were listed in order, as they are when there is never more than one. -/
theorem load_rewritten (loaded : load bytes = .ok map) :
    ∃ header listed sink, Header.parse (bytes.take Header.length) = .ok header ∧
      Lists bytes header listed ∧ (∀ other, Lists bytes header other → other = listed) ∧
      listed.inOrder = map ∧
      map.write ⟨header.order, header.hasChecksum⟩ .unlimited = (sink, none) ∧
      sink.written.length = bytes.length ∧
      load sink.written = .ok map ∧
      (sink.written = bytes ↔ listed.ListedInOrder) ∧
      (listed.SingleGradients → sink.written = bytes) := by
  obtain ⟨header, listed, readable, lists, rfl, rereadable⟩ := exists_lists loaded
  have parsed : Header.parse (bytes.take Header.length) = .ok header := by
    rw [lists.bytes, Header.parse_enclose]
  have fit := lists.inOrder.fit
  have options : Header.of header.order .map header.hasChecksum listed.inOrder.mixedProperties =
      header := by
    rw [lists.inOrder.mixed]
    exact (Header.eq_of_check readable).symm
  have written := (write_iff rereadable.consistent.count ⟨header.order, header.hasChecksum⟩).mpr
    ⟨fit, rfl⟩
  rw [options] at written
  have same : header.enclose (Piece.allBytes header.order listed.inOrder.layout) = bytes ↔
      listed.ListedInOrder := by
    constructor
    · intro same
      have again := lists.inOrder
      rw [same] at again
      intro block member
      rw [← lists.unique again] at member
      exact (rereadable.consistent.blocks block member).imp fun _ own =>
        Block.listedInOrder_iff.mpr own.ordered
    · intro ordered
      rw [inOrder_eq_self ordered, lists.bytes]
  refine ⟨header, listed, _, parsed, lists, fun other => lists.unique, rfl, written, ?_, ?_, ?_, ?_⟩
  · rw [Sink.written_holding, lists.bytes]
    simp only [Header.enclose, List.length_append, Header.length_trailer, length_allBytes_inOrder]
  · rw [Sink.written_holding]
    exact rereadable.load_enclosed fit readable lists.mixed.symm
  · rw [Sink.written_holding]
    exact same
  · intro single
    rw [Sink.written_holding]
    exact same.mpr (listedInOrder_of_single single)

/-- Two gradients, of which the second one should come first. -/
def crossed : BlockMap :=
  ⟨.of ["key"] [[2]], [{ chained 0 with gradients := [("cell", chained 0), ("box", chained 0)] }],
    false⟩

/-- The container that lists them so. -/
def crossedBytes : List UInt8 :=
  (Header.of .big .map false false).enclose (Piece.allBytes .big crossed.layout)

theorem crossed_rewritten :
    ∃ map sink, load crossedBytes = .ok map ∧
      map.write ⟨.big, false⟩ .unlimited = (sink, none) ∧
      sink.written.length = crossedBytes.length ∧ load sink.written = .ok map ∧
      sink.written ≠ crossedBytes := by
  obtain ⟨map, loaded⟩ : ∃ map, load crossedBytes = .ok map := exists_eq_ok (by decide +kernel)
  obtain ⟨header, listed, sink, parsed, _, only, _, written, length, again, same, _⟩ :=
    load_rewritten loaded
  have announced : Header.parse (crossedBytes.take Header.length) =
      .ok (.of .big .map false false) := by decide +kernel
  obtain rfl := Except.ok.inj (announced.symm.trans parsed)
  have lists : Lists crossedBytes (.of .big .map false false) crossed :=
    ⟨⟨by decide, by decide, by decide⟩, by decide, by decide, by decide, rfl⟩
  refine ⟨map, sink, loaded, written, length, again, fun unchanged => ?_⟩
  have ordered := same.mp unchanged
  rw [← only _ lists] at ordered
  exact absurd (ordered _ List.mem_cons_self).own (by decide)

end BlockMap

end LabeledBlocks
