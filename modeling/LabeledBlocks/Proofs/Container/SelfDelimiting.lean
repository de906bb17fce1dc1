import LabeledBlocks.Proofs.Container.Parts
import LabeledBlocks.Proofs.Container.RoundTrip

/-!
# Containers end by themselves

Reading a container takes a number of bytes that the container itself determines. In front of
anything else the same value is read from them and the rest is left, so that containers can follow
each other; where they are cut off, anywhere, reading fails because data is missing, and never gives
another value or another reason.

* `EndsBy` — the bytes that were taken make up the value, and no fewer do.
* `Decoder.container_endsBy` — this holds of a container of any kind.
* `read_endsBy` — labels, blocks and maps are read so.
-/

namespace LabeledBlocks

/-- A value was read from the first `count` bytes of a feed. In front of anything else it is read
from them again and the rest is left; when there are fewer of them, reading fails for that, or
because the source failed. -/
structure EndsBy {α : Type} (read : Decoder α) (feed : Feed) (value : α) (after : Feed)
    (count : Nat) : Prop where
  enough : count ≤ feed.bytes.length
  left : after.bytes = feed.bytes.drop count
  position : after.position = feed.position + count
  alone : ∀ (source : Feed) (rest : List UInt8), source.bytes = feed.bytes.take count ++ rest →
    ∃ behind, read source = .ok value behind ∧ behind.bytes = rest
  cut : ∀ fewer < count, ∀ source : Feed, source.bytes = feed.bytes.take fewer →
    ∃ error behind, read source = .error error behind ∧
      source.ending.Reports (ContainerError.EndsAfter fewer) error

namespace Decoder

variable {α β : Type} {kind : ContainerKind} {content : ByteOrder → Decoder β}
  {build : Header → β → Except Error α}

/-- What a container is read from ends where reading stopped. -/
theorem container_endsBy (delimited : ∀ order, (content order).Delimited ContainerError.Truncated)
    {verify : Bool} {feed after : Feed} {value : α}
    (done : container kind content build verify feed = .ok value after) :
    ∃ count, EndsBy (container kind content build verify) feed value after count := by
  obtain ⟨header, inner, stored, encloses, start, passed⟩ := container_eq_ok delimited done
  generalize whole : (header.bytes ++ inner) ++ stored = bytes at start passed
  have taken : feed.bytes.take bytes.length = bytes := by rw [start, List.take_left]
  refine ⟨bytes.length, ?_, ?_, passed.position, ?_, ?_⟩
  · rw [start, List.length_append]
    exact Nat.le_add_right _ _
  · rw [start, List.drop_left]
  · intro source rest begins
    rw [taken, ← whole] at begins
    obtain ⟨behind, read, passed'⟩ := encloses.reads begins
    exact ⟨behind, read, passed'.bytes⟩
  · intro fewer less source cut
    have short : feed.bytes.take fewer = bytes.take fewer := by
      rw [start, List.take_append_of_le_length (Nat.le_of_lt less)]
    have length : (bytes.take fewer).length = fewer := List.length_take_of_le (Nat.le_of_lt less)
    have lacking : bytes.drop fewer ≠ [] := by
      intro none
      have := List.length_drop (i := fewer) (l := bytes)
      rw [none, List.length_nil] at this
      omega
    have broken := encloses.breaksOff (whole.trans (List.take_append_drop fewer bytes).symm) lacking
    rw [length] at broken
    exact broken source (cut.trans short)

end Decoder

/-- Containers of all kinds end by themselves, whether or not the checksum is compared. -/
theorem read_endsBy (verify : Bool) (feed after : Feed) :
    (∀ labels, Labels.read verify feed = .ok labels after →
      ∃ count, EndsBy (Labels.read verify) feed labels after count) ∧
    (∀ block, Block.read verify feed = .ok block after →
      ∃ count, EndsBy (Block.read verify) feed block after count) ∧
    (∀ map, BlockMap.read verify feed = .ok map after →
      ∃ count, EndsBy (BlockMap.read verify) feed map after count) := by
  refine ⟨?_, ?_, ?_⟩
  · intro labels done
    rw [Labels.read_eq] at done ⊢
    exact Decoder.container_endsBy Decoder.delimited_labels done
  · intro block done
    rw [Block.read_eq] at done ⊢
    exact Decoder.container_endsBy Decoder.delimited_block done
  · intro map done
    rw [BlockMap.read, BlockMap.readWith_eq] at done ⊢
    exact Decoder.container_endsBy Decoder.delimited_mapContent done

/-- The container of two chains of gradients, in front of another container. -/
theorem chained_endsBy :
    ∃ feed after count, BlockMap.read true feed = .ok (chainedMap maxGradientDepth) after ∧
      EndsBy (BlockMap.read true) feed (chainedMap maxGradientDepth) after count := by
  obtain ⟨feed, start⟩ : ∃ feed : Feed, feed.bytes = (Header.of .big .map true true).enclose
      (Piece.allBytes .big (chainedMap maxGradientDepth).layout) ++ magicBytes :=
    ⟨.of _ .failure, rfl⟩
  obtain ⟨after, done, _⟩ := rereadable_chainedMap.read_enclosed fit_chainedMap (Header.check_of ..)
    (Header.mixedProperties_of ..) true start
  obtain ⟨count, ends⟩ := (read_endsBy true feed after).2.2 _ done
  exact ⟨feed, after, count, done, ends⟩

end LabeledBlocks
