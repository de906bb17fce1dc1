import LabeledBlocks.Proofs.Container.Writing

/-!
# Writing to any sink

A sink may be full at any point, and its flush may fail. What reaches it does not depend on how
the bytes are grouped: it takes in the first bytes that are offered, as many as there is room for.
So every encoder is described by the bytes that it offers, and by the failure that it comes to
when the sink takes all of them.

* `Sink.after_append`, `Sink.fits_append` — bytes offered together or one after the other.
* `Encoder.Offers`, `Writer.Offers` — what encoders and the calls of a writer offer.
* `Writer.Offers.bind` — one call behind the other.
-/

namespace LabeledBlocks

/-! ### Sinks -/

namespace Sink

variable {sink : Sink} {data more : List UInt8}

def Fits (sink : Sink) (data : List UInt8) : Prop :=
  (sink.accept data).2 = true

instance : Decidable (sink.Fits data) :=
  inferInstanceAs (Decidable (_ = true))

/-- What a sink has taken in after it was offered bytes. -/
def after (sink : Sink) (data : List UInt8) : Sink :=
  (sink.accept data).1

theorem fits_iff : sink.Fits data ↔ ∀ room ∈ sink.room, data.length ≤ room := by
  obtain ⟨taken, room, flushFails⟩ := sink
  cases room <;> simp [Fits, accept]

theorem after_nil : sink.after [] = sink := by
  obtain ⟨taken, room, flushFails⟩ := sink
  cases room <;> simp [after, accept, fitting]

theorem fits_nil : sink.Fits [] :=
  fits_iff.mpr fun _ _ => Nat.zero_le _

theorem after_append : sink.after (data ++ more) = (sink.after data).after more := by
  obtain ⟨taken, room, flushFails⟩ := sink
  cases room with
  | none => simp [after, accept, fitting]
  | some room =>
    simp [after, accept, fitting, List.take_append, Nat.sub_sub]

/-- Bytes fit one after the other exactly if they fit together. -/
theorem fits_append : sink.Fits (data ++ more) ↔ sink.Fits data ∧ (sink.after data).Fits more := by
  obtain ⟨taken, room, flushFails⟩ := sink
  cases room with
  | none => simp [Fits, accept, after]
  | some room =>
    simp only [fits_iff, after, accept, Option.map_some, Option.mem_def, Option.some.injEq,
      forall_eq', List.length_append]
    omega

/-- A sink that was offered too much takes nothing more. -/
theorem after_of_not_fits (full : ¬sink.Fits data) : (sink.after data).after more = sink.after data := by
  obtain ⟨taken, room, flushFails⟩ := sink
  cases room with
  | none => exact absurd (fits_iff.mpr (by simp)) full
  | some room =>
    rw [fits_iff] at full
    have noRoom : room - data.length = 0 := by
      simp only [Option.mem_def, Option.some.injEq, forall_eq'] at full
      omega
    simp [after, accept, fitting, noRoom]

theorem written_after : (sink.after data).written = sink.written ++ sink.fitting data :=
  written_accept sink data

theorem fitting_front : sink.fitting data <+: data := by
  unfold fitting
  split
  · exact List.prefix_refl _
  · exact List.take_prefix _ _

theorem fitting_of_fits (fits : sink.Fits data) : sink.fitting data = data := by
  obtain ⟨taken, room, flushFails⟩ := sink
  rw [fits_iff] at fits
  cases room with
  | none => rfl
  | some room => exact List.take_of_length_le (fits room rfl)

end Sink

/-! ### Outputs -/

/-- What was done so far, and more bytes offered to the sink. -/
def Output.offer (output : Output) (data : List UInt8) : Output :=
  ⟨output.sink.after data, output.checksum.update data⟩

theorem Output.offer_offer {output : Output} {data more : List UInt8} :
    (output.offer data).offer more = output.offer (data ++ more) := by
  simp [offer, Sink.after_append, Checksum.update_append]

theorem Output.offer_nil {output : Output} : output.offer [] = output := by
  simp [offer, Sink.after_nil, Checksum.update]

/-- The bytes of pieces up to the first length that does not fit come first among their bytes. -/
theorem Piece.encodeAll_fst_front {order : ByteOrder} {pieces : List Piece} :
    (encodeAll order pieces).1 <+: allBytes order pieces := by
  induction pieces with
  | nil => exact List.prefix_refl _
  | cons piece pieces ih =>
    rw [encodeAll, allBytes_cons]
    cases piece.excess? with
    | some n => exact List.nil_prefix
    | none => exact (List.prefix_append_right_inj _).mpr ih

/-! ### Encoders -/

namespace Encoder

variable {output : Output} {data more : List UInt8} {failure : Option ContainerError}

/-- An encoder offers these bytes, one part after the other, and comes to this failure behind
them, or to none. It stops where the sink is full. -/
structure Offers (encoder : Encoder Unit) (output : Output) (data : List UInt8)
    (failure : Option ContainerError) : Prop where
  fits : output.sink.Fits data →
    encoder output =
      match failure with
      | none => .ok () (output.offer data)
      | some error => .error error (output.offer data)
  full : ¬output.sink.Fits data →
    ∃ after, encoder output = .error (.transfer .sinkFull) after ∧
      after.sink = output.sink.after data

/-- One encoder behind the other. -/
theorem Offers.bind {first : Encoder Unit} {next : Unit → Encoder Unit}
    (h : first.Offers output data none)
    (h' : (next ()).Offers (output.offer data) more failure) :
    (first >>= next).Offers output (data ++ more) failure where
  fits both := by
    obtain ⟨fits, fits'⟩ := Sink.fits_append.mp both
    rw [run_bind_of_ok (h.fits fits), h'.fits fits', Output.offer_offer]
  full tooMuch := by
    by_cases fits : output.sink.Fits data
    · have fits' : ¬(output.offer data).sink.Fits more := fun fits' =>
        tooMuch (Sink.fits_append.mpr ⟨fits, fits'⟩)
      obtain ⟨after, full, same⟩ := h'.full fits'
      exact ⟨after, (run_bind_of_ok (h.fits fits)).trans full,
        same.trans Sink.after_append.symm⟩
    · obtain ⟨after, full, same⟩ := h.full fits
      refine ⟨after, run_bind_of_error full, ?_⟩
      rw [same, Sink.after_append, Sink.after_of_not_fits fits]

/-- An encoder that writes nothing more. -/
theorem Offers.last {encoder : Encoder Unit}
    (h : encoder output =
      match failure with
      | none => .ok () output
      | some error => .error error output) :
    encoder.Offers output [] failure where
  fits _ := by rw [h, Output.offer_nil]
  full tooMuch := absurd Sink.fits_nil tooMuch

theorem Offers.congr {encoder encoder' : Encoder Unit} (h : encoder'.Offers output data failure)
    (same : encoder output = encoder' output) : encoder.Offers output data failure where
  fits fits := same.trans (h.fits fits)
  full tooMuch := by
    rw [same]
    exact h.full tooMuch

theorem offers_bytes (output : Output) (data : List UInt8) :
    Offers (bytes data) output data none where
  fits fits := if_pos fits
  full tooMuch := ⟨_, if_neg tooMuch, rfl⟩

/-- Pieces are written up to the first length that does not fit, and then comes the failure. -/
theorem put_eq_bind (order : ByteOrder) (pieces : List Piece) :
    put order pieces = bytes (Piece.encodeAll order pieces).1 >>= fun _ =>
      (Piece.encodeAll order pieces).2.elim (pure ()) fun n =>
        throw (.misuse (.lengthTooLarge n)) := by
  unfold put
  cases Piece.encodeAll order pieces with
  | mk data excess => cases excess <;> rfl

/-- Pieces are offered up to the first length that does not fit. -/
theorem offers_put (order : ByteOrder) (pieces : List Piece) (output : Output) :
    Offers (put order pieces) output (Piece.encodeAll order pieces).1
      ((Piece.encodeAll order pieces).2.map fun n => .misuse (.lengthTooLarge n)) := by
  have whole : Offers (put order pieces) output ((Piece.encodeAll order pieces).1 ++ [])
      ((Piece.encodeAll order pieces).2.map fun n => .misuse (.lengthTooLarge n)) := by
    rw [put_eq_bind]
    refine (offers_bytes output _).bind (.last ?_)
    cases (Piece.encodeAll order pieces).2 <;> rfl
  rwa [List.append_nil] at whole

theorem offers_put_of_fit {pieces : List Piece} (fit : Piece.Fit pieces) (order : ByteOrder)
    (output : Output) :
    Offers (put order pieces) output (Piece.allBytes order pieces) none := by
  have offered := offers_put order pieces output
  rwa [(Piece.encodeAll_snd_eq_none_iff order).mpr fit, Piece.encodeAll_fst fit] at offered

/-- What a flush comes to. -/
def flushFailure (sink : Sink) : Option ContainerError :=
  if sink.flushFails then some (.transfer .flush) else none

theorem flushFailure_eq_none {sink : Sink} : flushFailure sink = none ↔ sink.flushFails = false := by
  unfold flushFailure
  cases sink.flushFails <;> simp

/-- The end offers the checksum of all that was offered before it, and flushes the sink. -/
theorem offers_finish (header : Header) {body : List UInt8}
    (before : output.checksum = Checksum.start.update body) :
    Offers (finish header.order header.hasChecksum) output (header.trailer body)
      (flushFailure output.sink) := by
  let flush : Unit → Encoder Unit := fun _ => do
    if (← get).sink.flushFails then throw (.transfer .flush)
  have flushed : ∀ output, Offers (flush ()) output [] (flushFailure output.sink) := by
    intro output
    refine .last ?_
    change (if output.sink.flushFails then throw _ else pure () : Encoder Unit) output = _
    unfold flushFailure
    cases output.sink.flushFails <;> rfl
  unfold finish Header.trailer
  cases header.hasChecksum with
  | false => exact flushed output
  | true =>
    have offered := offers_bytes output (header.order.bytes 4 output.checksum.value.toNat)
    have whole : Offers (_ >>= flush) output _ _ := offered.bind (flushed _)
    rw [List.append_nil] at whole
    simp only [if_true, Checksum.of, ← before]
    exact whole.congr rfl

end Encoder

/-! ### Writers -/

namespace Writer

variable {session : WriterSession} {data more : List UInt8} {failure : Option ContainerError}
  {phase next : WriterPhase}

/-- A call offers these bytes, and comes behind them to this failure, or to this phase if there is
none. It stops where the sink is full, and no failure is made good. -/
structure Offers (writer : Writer Unit) (session : WriterSession) (data : List UInt8)
    (failure : Option ContainerError) (phase : WriterPhase) : Prop where
  fits : session.output.sink.Fits data →
    writer session =
      match failure with
      | none => .ok () { session with output := session.output.offer data, phase }
      | some error =>
        .error error { session with output := session.output.offer data, phase := .failed }
  full : ¬session.output.sink.Fits data →
    ∃ after, writer session = .error (.transfer .sinkFull) after ∧
      after.output.sink = session.output.sink.after data ∧ after.phase = .failed

/-- One call behind the other. -/
theorem Offers.bind {first : Writer Unit} {following : Unit → Writer Unit}
    (h : Offers first session data none phase)
    (h' : Offers (following ()) { session with output := session.output.offer data, phase } more
      failure next) :
    Offers (first >>= following) session (data ++ more) failure next where
  fits both := by
    obtain ⟨fits, fits'⟩ := Sink.fits_append.mp both
    rw [run_bind_of_ok (h.fits fits), h'.fits fits']
    dsimp only
    rw [Output.offer_offer]
  full tooMuch := by
    by_cases fits : session.output.sink.Fits data
    · have fits' : ¬(session.output.offer data).sink.Fits more := fun fits' =>
        tooMuch (Sink.fits_append.mpr ⟨fits, fits'⟩)
      obtain ⟨after, full, same, failed⟩ := h'.full fits'
      exact ⟨after, (run_bind_of_ok (h.fits fits)).trans full,
        same.trans Sink.after_append.symm, failed⟩
    · obtain ⟨after, full, same, failed⟩ := h.full fits
      refine ⟨after, run_bind_of_error full, ?_, failed⟩
      rw [same, Sink.after_append, Sink.after_of_not_fits fits]

/-- A call that writes nothing more. -/
theorem Offers.last {writer : Writer Unit}
    (h : writer session = .ok () { session with phase }) : Offers writer session [] none phase where
  fits _ := by rw [h, Output.offer_nil]
  full tooMuch := absurd Sink.fits_nil tooMuch

theorem Offers.congr {writer writer' : Writer Unit}
    (h : writer'.Offers session data failure phase) (same : writer session = writer' session) :
    writer.Offers session data failure phase where
  fits fits := same.trans (h.fits fits)
  full tooMuch := by
    rw [same]
    exact h.full tooMuch

/-- A call that hands an encoder on offers what the encoder does. -/
theorem offers_encode {encoder : Encoder Unit}
    (h : encoder.Offers session.output data failure) :
    Offers (encode encoder next) session data failure next where
  fits fits := by
    unfold encode
    rw [h.fits fits]
    cases failure <;> rfl
  full tooMuch := by
    obtain ⟨after, full, same⟩ := h.full tooMuch
    refine ⟨{ session with output := after, phase := .failed }, ?_, same, rfl⟩
    unfold encode
    rw [full]

end Writer

end LabeledBlocks
