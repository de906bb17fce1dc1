import LabeledBlocks.Container.Layout
import LabeledBlocks.Container.Decoder
import LabeledBlocks.Proofs.Outcomes
import LabeledBlocks.Proofs.Text.Utf8

/-!
# Reading what stands in front

A decoder reads a value from bytes when, whatever follows them, it takes exactly these bytes and
gives the value; the checksum of the feed has then taken in these bytes. Decoders that follow each
other read bytes that follow each other, so that a format is read piece by piece.

* `Decoder.Reads`, `Decoder.Fails` — a decoder takes bytes and gives a value, or fails on them.
* `Decoder.Reads.bind`, `Decoder.Reads.bind_fails` — one decoder behind the other.
* `Decoder.reads_number`, `Decoder.reads_string`, `Decoder.reads_replicate` — the primitives.
-/

namespace LabeledBlocks

theorem Checksum.update_append (register : Checksum) (bytes more : List UInt8) :
    (register.update bytes).update more = register.update (bytes ++ more) := by
  simp [update]

/-- The feed that is left when some bytes have been handed out and the rest has not. Nothing is said
of the arrays that were asked for on the way. -/
structure Feed.Passed (feed : Feed) (taken rest : List UInt8) (after : Feed) : Prop where
  bytes : after.bytes = rest
  ending : after.ending = feed.ending
  position : after.position = feed.position + taken.length
  checksum : after.checksum = feed.checksum.update taken

theorem Feed.Passed.trans {feed middle after : Feed} {taken more rest rest' : List UInt8}
    (h : feed.Passed taken rest' middle) (h' : middle.Passed more rest after) :
    feed.Passed (taken ++ more) rest after where
  bytes := h'.bytes
  ending := h'.ending.trans h.ending
  position := by rw [h'.position, h.position, List.length_append, Nat.add_assoc]
  checksum := by rw [h'.checksum, h.checksum, Checksum.update_append]

namespace Decoder

variable {α β : Type}

/-- In front of anything the decoder takes exactly these bytes, and gives this value. -/
def Reads (decoder : Decoder α) (bytes : List UInt8) (value : α) : Prop :=
  ∀ feed rest, feed.bytes = bytes ++ rest →
    ∃ after, decoder feed = .ok value after ∧ feed.Passed bytes rest after

/-- On bytes that start like this the decoder fails with this error. -/
def Fails (decoder : Decoder α) (bytes : List UInt8) (error : ContainerError) : Prop :=
  ∀ feed rest, feed.bytes = bytes ++ rest → ∃ after, decoder feed = .error error after

/-! ### One decoder behind the other -/

theorem reads_pure (value : α) : Reads (pure value) [] value := by
  intro feed rest h
  exact ⟨feed, rfl, h, rfl, rfl, rfl⟩

/-- What is read one after the other is read from the bytes one after the other. -/
theorem Reads.bind {decoder : Decoder α} {next : α → Decoder β} {bytes more : List UInt8}
    {first : α} {value : β} (h : decoder.Reads bytes first) (h' : (next first).Reads more value) :
    (decoder >>= next).Reads (bytes ++ more) value := by
  intro feed rest start
  rw [List.append_assoc] at start
  obtain ⟨middle, read, passed⟩ := h feed (more ++ rest) start
  obtain ⟨after, read', passed'⟩ := h' middle rest passed.bytes
  exact ⟨after, (run_bind_of_ok read).trans read', passed.trans passed'⟩

/-- A decoder that takes nothing leaves all bytes to the next one. -/
theorem Reads.bind_nil {decoder : Decoder α} {next : α → Decoder β} {bytes : List UInt8}
    {first : α} {value : β} (h : decoder.Reads [] first) (h' : (next first).Reads bytes value) :
    (decoder >>= next).Reads bytes value :=
  h.bind h'

/-- What is left to do once everything has been taken. -/
theorem Reads.bind_last {decoder : Decoder α} {next : α → Decoder β} {bytes : List UInt8}
    {first : α} {value : β} (h : decoder.Reads bytes first) (h' : (next first).Reads [] value) :
    (decoder >>= next).Reads bytes value := by
  have := h.bind h'
  rwa [List.append_nil] at this

/-- Bytes fail behind what has been read. -/
theorem Reads.bind_fails {decoder : Decoder α} {next : α → Decoder β} {bytes more : List UInt8}
    {first : α} {error : ContainerError} (h : decoder.Reads bytes first)
    (h' : (next first).Fails more error) : (decoder >>= next).Fails (bytes ++ more) error := by
  intro feed rest start
  rw [List.append_assoc] at start
  obtain ⟨middle, read, passed⟩ := h feed (more ++ rest) start
  obtain ⟨after, failed⟩ := h' middle rest passed.bytes
  exact ⟨after, (run_bind_of_ok read).trans failed⟩

theorem Fails.bind {decoder : Decoder α} {next : α → Decoder β} {bytes : List UInt8}
    {error : ContainerError} (h : decoder.Fails bytes error) :
    (decoder >>= next).Fails bytes error := by
  intro feed rest start
  obtain ⟨after, failed⟩ := h feed rest start
  exact ⟨after, run_bind_of_error failed⟩

/-- More bytes do not help. -/
theorem Fails.append {decoder : Decoder α} {bytes : List UInt8} {error : ContainerError}
    (h : decoder.Fails bytes error) (more : List UInt8) :
    decoder.Fails (bytes ++ more) error := by
  intro feed rest start
  rw [List.append_assoc] at start
  exact h feed (more ++ rest) start

theorem refuse_fails (fault : ContentFault) :
    Fails (refuse fault : Decoder α) [] (.content fault) := by
  intro feed rest _
  exact ⟨feed, rfl⟩

/-! ### Bytes, numbers and texts -/

/-- Just these bytes are taken. -/
theorem reads_take {count : Nat} {bytes : List UInt8} (length : bytes.length = count)
    (short : ContainerError) : Reads (take count short) bytes bytes := by
  intro feed rest start
  subst length
  have taken : feed.bytes.take bytes.length = bytes := by
    rw [start]
    exact List.take_left
  have dropped : feed.bytes.drop bytes.length = rest := by
    rw [start]
    exact List.drop_left
  unfold take
  simp only [taken, dropped, if_true]
  exact ⟨_, rfl, rfl, rfl, rfl, rfl⟩

theorem reads_payload {count : Nat} {bytes : List UInt8} (length : bytes.length = count)
    (field : Field) : Reads (payload count field) bytes bytes :=
  reads_take length _

/-- A number is read back when its bytes can hold it. -/
theorem reads_number (order : ByteOrder) {count n : Nat} (holds : n < 256 ^ count)
    (field : Field) : Reads (number order count field) (order.bytes count n) n := by
  refine (reads_payload (ByteOrder.length_bytes order count n) field).bind_last ?_
  rw [ByteOrder.number_bytes, Nat.mod_eq_of_lt holds]
  exact reads_pure n

theorem reads_length (order : ByteOrder) {n : Nat} (holds : n < 2 ^ 32) (field : Field) :
    Reads (length order field) (order.bytes 4 n) n :=
  reads_number order holds field

theorem reads_count (order : ByteOrder) {n : Nat} (holds : n < 2 ^ 64) (field : Field) :
    Reads (count order field) (order.bytes 8 n) n :=
  reads_number order holds field

/-- A text is read back. -/
theorem reads_string (order : ByteOrder) {text : String}
    (holds : (Utf8.encode text).length < 2 ^ 32) (field : Field) :
    Reads (string order field)
      (order.bytes 4 (Utf8.encode text).length ++ Utf8.encode text) text := by
  refine (reads_length order holds field).bind ?_
  refine (reads_payload rfl field).bind_last ?_
  rw [Utf8.decode_encode]
  exact reads_pure text

/-- Values that can be read one by one can be read one after the other. -/
theorem reads_replicate {decoder : Decoder α} {encode : α → List UInt8} {values : List α}
    (h : ∀ value ∈ values, decoder.Reads (encode value) value) :
    Reads (replicate decoder values.length) (values.flatMap encode) values := by
  induction values with
  | nil => exact reads_pure []
  | cons first rest ih =>
    rw [List.forall_mem_cons] at h
    rw [List.flatMap_cons, List.length_cons]
    refine h.1.bind ?_
    refine (ih h.2).bind_last ?_
    exact reads_pure (first :: rest)

theorem reads_accept {result : Except Error α} {value : α} (h : result = .ok value) :
    Reads (accept result) [] value := by
  rw [h]
  exact reads_pure value

end Decoder

end LabeledBlocks
