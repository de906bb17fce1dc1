import LabeledBlocks.Proofs.Container.Delimited
import LabeledBlocks.Proofs.Container.Enclosed
import Mathlib.Data.Nat.Bitwise

/-!
# The parts of a container

Whatever a container is read from consists of three parts: the bytes of a header, the bytes that the
content is read from, and the end. Each of them determines where it stops, so that the container
does. When the checksum is compared the bytes are those that the header and the content would be
enclosed with.

* `Header.bytes_of_parse`, `Header.eq_of_check` — a header that can be read is one that is written.
* `Decoder.Encloses` — a header, content and an end that make up a container of a value.
* `Decoder.container_eq_ok` — what a container is read from consists of such parts.
* `Decoder.Encloses.reads`, `Decoder.Encloses.breaksOff` — and the container is read from them
  alone.
* `Decoder.container_load_eq_ok` — what bytes that are one container consist of.
-/

namespace LabeledBlocks

/-! ### Headers that can be read -/

/-- A byte that announces an order is its marker. -/
theorem ByteOrder.eq_marker {byte : UInt8} {order : ByteOrder}
    (known : ofMarker? byte = some order) : byte = order.marker := by
  unfold ofMarker? at known
  split at known
  · cases known
    assumption
  · split at known
    · cases known
      assumption
    · cases known

/-- A byte that stands for a kind is its byte. -/
theorem ContainerKind.eq_byte {byte : UInt8} {kind : ContainerKind}
    (known : ofByte? byte = some kind) : byte = kind.byte := by
  unfold ofByte? at known
  split at known
  · cases known
    assumption
  · split at known
    · cases known
      assumption
    · split at known
      · cases known
        assumption
      · cases known

/-- Four bytes are those of the word that they stand for. -/
theorem ByteOrder.bytes_word (order : ByteOrder) (b₀ b₁ b₂ b₃ : UInt8) :
    order.bytes 4 (UInt32.ofNat (order.number [b₀, b₁, b₂, b₃])).toNat = [b₀, b₁, b₂, b₃] := by
  have small : order.number [b₀, b₁, b₂, b₃] < 256 ^ 4 := Decoder.number_lt order [b₀, b₁, b₂, b₃]
  rw [UInt32.toNat_ofNat_of_lt' small]
  exact bytes_number order [b₀, b₁, b₂, b₃]

namespace Header

/-- Bytes that are read as a header are the bytes of the header. -/
theorem bytes_of_parse {data : List UInt8} {header : Header} (read : parse data = .ok header) :
    data = header.bytes := by
  unfold parse at read
  split at read
  case h_2 => cases read
  case h_1 m₀ m₁ m₂ m₃ marker v₀ v₁ v₂ v₃ kind f₀ f₁ f₂ f₃ =>
    obtain ⟨magic, read⟩ := refused_eq_ok.mp read
    cases ordered : ByteOrder.ofMarker? marker with
    | none => simp [ordered] at read
    | some order =>
      cases kinded : ContainerKind.ofByte? kind with
      | none => simp [ordered, kinded] at read
      | some container =>
        simp only [ordered, kinded, Except.ok.injEq] at read
        subst read
        simp only [bytes, ByteOrder.bytes_word, ← not_not.mp magic, ← ByteOrder.eq_marker ordered,
          ← ContainerKind.eq_byte kinded]
        rfl

theorem and_or (a b c : UInt32) : a &&& (b ||| c) = a &&& b ||| a &&& c :=
  UInt32.toBitVec_inj.mp (BitVec.and_or_distrib_left ..)

/-- One flag is either set or not. -/
theorem and_flag (flags : UInt32) {flag : UInt32} {i : Nat} (single : flag.toNat = 2 ^ i) :
    flags &&& flag = if flags &&& flag ≠ 0 then flag else 0 := by
  by_cases unset : flags &&& flag = 0
  · rw [if_neg (not_not.mpr unset), unset]
  · rw [if_pos unset]
    rw [← UInt32.toNat_inj, UInt32.toNat_and, single, Nat.and_two_pow] at unset ⊢
    cases bit : flags.toNat.testBit i with
    | false => simp [bit] at unset
    | true => simp

/-- Flags without any unknown one are given by the known ones. -/
theorem flags_eq {flags : UInt32} (known : flags &&& ~~~(mixedFlag ||| checksumFlag) = 0) :
    flags = (if flags &&& mixedFlag ≠ 0 then mixedFlag else 0) |||
      (if flags &&& checksumFlag ≠ 0 then checksumFlag else 0) := by
  have every : (mixedFlag ||| checksumFlag) ||| ~~~(mixedFlag ||| checksumFlag) = -1 := by decide
  have mixed : mixedFlag.toNat = 2 ^ 0 := by decide
  have checksum : checksumFlag.toNat = 2 ^ 1 := by decide
  calc flags = flags &&& ((mixedFlag ||| checksumFlag) ||| ~~~(mixedFlag ||| checksumFlag)) := by
        rw [every, UInt32.and_neg_one]
    _ = flags &&& mixedFlag ||| flags &&& checksumFlag := by
        rw [and_or, known, UInt32.or_zero, and_or]
    _ = _ := by rw [← and_flag flags mixed, ← and_flag flags checksum]

/-- A header that is checked is the header of a container of the kind. -/
theorem eq_of_check {header : Header} {kind : ContainerKind}
    (readable : header.check kind = .ok ()) :
    header = .of header.order kind header.hasChecksum header.mixedProperties := by
  rw [check, check_bind_eq_ok] at readable
  obtain ⟨valid, ofKind⟩ := readable
  obtain ⟨order, version, kind', flags⟩ := header
  simp only [validate, refused_eq_ok] at valid
  obtain ⟨newest, numbered, known, _⟩ := valid
  obtain ⟨same, _⟩ := refused_eq_ok.mp ofKind
  obtain rfl := not_not.mp same
  have first : version = formatVersion := by
    simp only [formatVersion, gt_iff_lt, UInt32.lt_iff_toNat_lt, ← UInt32.toNat_inj]
      at newest numbered ⊢
    simp at newest numbered ⊢
    omega
  subst first
  have flagged := flags_eq (not_not.mp known)
  simp only [of, ofFlags, hasChecksum, mixedProperties, decide_eq_true_eq]
  rw [← flagged]

/-! ### What a header tells -/

section Told

variable {header header' : Header}

theorem bytes_injective (same : header.bytes = header'.bytes) : header = header' := by
  have parsed := congrArg parse same
  rw [parse_bytes, parse_bytes] at parsed
  exact Except.ok.inj parsed

theorem length_trailer (body : List UInt8) :
    (header.trailer body).length = if header.hasChecksum then 4 else 0 := by
  unfold trailer
  split <;> simp

/-- Content is known from what encloses it. -/
theorem enclose_injective {content content' : List UInt8}
    (same : header.enclose content = header.enclose content') : content = content' := by
  have length : (header.trailer (header.bytes ++ content)).length =
      (header.trailer (header.bytes ++ content')).length := by
    rw [length_trailer, length_trailer]
  have bodies := (List.append_inj' same length).1
  exact List.append_cancel_left bodies

end Told

end Header

/-- The error of a container that ends after so many bytes. -/
def ContainerError.EndsAfter (count : Nat) (error : ContainerError) : Prop :=
  if count < Header.length then error = .corruptHeader .truncated else error.Truncated

namespace Decoder

/-! ### The header in front -/

/-- A header is read from its bytes, and is one that can be read. -/
theorem yields_header (kind : ContainerKind) :
    Yields (header kind) fun bytes header => bytes = header.bytes ∧ header.check kind = .ok () := by
  intro feed
  unfold Decoder.header
  rw [run_modify_bind]
  refine (?_ : Yields _ _) { feed with checksum := .start }
  refine (yields_take _ _).bind fun bytes given taken => ?_
  obtain ⟨rfl, _⟩ := taken
  cases read : Header.parse given with
  | error fault =>
    intro feed value after done
    cases done
  | ok header =>
    dsimp only
    cases readable : header.check kind with
    | error error =>
      intro feed value after done
      cases done
    | ok _ => exact .pure ⟨by rw [List.append_nil, Header.bytes_of_parse read], readable⟩

/-- On less bytes than a header has it is the header that is missing. -/
theorem breaksOff_header (kind : ContainerKind) {bytes : List UInt8}
    (few : bytes.length < Header.length) :
    BreaksOff (header kind) (· = .corruptHeader .truncated) bytes := by
  intro feed start
  unfold Decoder.header
  rw [run_modify_bind]
  have short : BreaksOff (take Header.length (.corruptHeader .truncated))
      (· = .corruptHeader .truncated) bytes := by
    refine breaksOff_take ?_ few
    rfl
  exact short.bind { feed with checksum := .start } start

/-! ### The end -/

/-- The end of a container whose body is known: the checksum, which may be compared with that of the
body, and what is built of the content. -/
def ending {α : Type} (header : Header) (verify : Bool) (body : List UInt8)
    (built : Except Error α) : Decoder α := do
  if header.hasChecksum then
    let stored ← number header.order 4 .checksum
    if verify ∧ UInt32.ofNat stored ≠ Checksum.of body then
      refuse (.checksum (.ofNat stored) (Checksum.of body))
  accept built

section Ending

variable {α : Type} {header : Header} {verify : Bool} {body : List UInt8} {built : Except Error α}

/-- Behind a body that was handed out the container ends so. -/
theorem trailer_eq_ending {feed : Feed} (checksum : feed.checksum = Checksum.start.update body) :
    (trailer header verify >>= fun _ => accept built) feed =
      ending header verify body built feed := by
  have computed : feed.checksum.value = Checksum.of body := by rw [checksum, Checksum.of]
  unfold trailer ending
  cases header.hasChecksum with
  | false => rfl
  | true =>
    simp only [if_true, bind_assoc]
    rw [run_bind_of_ok run_get, computed]
    refine congrFun (congrArg (number _ _ _ >>= ·) (funext fun stored => ?_)) feed
    split <;> rfl

theorem delimited_ending :
    Delimited (ending header verify body built) ContainerError.Truncated := by
  unfold ending
  cases header.hasChecksum with
  | false => exact stepwise_delimited.accept built
  | true =>
    refine stepwise_delimited.bind (stepwise_delimited.number _ _ _) fun stored => ?_
    exact stepwise_delimited.guarded (stepwise_delimited.accept built)

/-- A checksum that is compared is that of the body. -/
theorem yields_ending : Yields (ending header verify body built) fun bytes value =>
    built = .ok value ∧ (verify = true → bytes = header.trailer body) := by
  have accepted : Yields (accept built) fun bytes value => built = .ok value ∧ bytes = [] :=
    .accept fun value given => ⟨given, rfl⟩
  unfold ending Header.trailer
  cases header.hasChecksum with
  | false => exact accepted.imp fun bytes value taken => ⟨taken.1, fun _ => taken.2⟩
  | true =>
    refine (yields_number _ _ _).bind fun bytes stored taken => ?_
    obtain ⟨rfl, small⟩ := taken
    refine .unless fun matching => ?_
    refine accepted.imp fun more value taken => ⟨taken.1, fun compared => ?_⟩
    have same : UInt32.ofNat stored = Checksum.of body :=
      not_not.mp fun differs => matching ⟨compared, differs⟩
    rw [taken.2, List.append_nil, if_pos rfl, ← same, UInt32.toNat_ofNat_of_lt' small]

end Ending

/-! ### The whole container -/

section Container

variable {α β : Type} {kind : ContainerKind} {content : ByteOrder → Decoder β}
  {build : Header → β → Except Error α} {verify : Bool} {header : Header}
  {inner stored rest : List UInt8} {value : α}

/-- Behind the bytes of a header, the content is read from `inner` and the end from `stored`, and
nothing less would do. -/
structure Encloses (kind : ContainerKind) (content : ByteOrder → Decoder β)
    (build : Header → β → Except Error α) (verify : Bool) (header : Header)
    (inner stored : List UInt8) (value : α) : Prop where
  readable : header.check kind = .ok ()
  parts : ∃ parts, (content header.order).Delimits ContainerError.Truncated inner parts ∧
    (ending header verify (header.bytes ++ inner) (build header parts)).Delimits
      ContainerError.Truncated stored value

/-- Behind the header and the content comes the end. -/
theorem container_behind (readable : header.check kind = .ok ()) {parts : β}
    (reads : (content header.order).Reads inner parts) {feed : Feed}
    (start : feed.bytes = header.bytes ++ (inner ++ rest)) :
    ∃ middle, container kind content build verify feed =
        ending header verify (header.bytes ++ inner) (build header parts) middle ∧
      { feed with checksum := .start }.Passed (header.bytes ++ inner) rest middle := by
  obtain ⟨headed, headerDone, headerPassed⟩ := header_reads readable start
  obtain ⟨middle, contentDone, contentPassed⟩ := reads headed rest headerPassed.bytes
  have passed := headerPassed.trans contentPassed
  refine ⟨middle, ?_, passed⟩
  unfold container
  rw [run_bind_of_ok headerDone, run_bind_of_ok contentDone]
  exact trailer_eq_ending passed.checksum

/-- What is enclosed is read back, whatever follows it. -/
theorem Encloses.reads (encloses : Encloses kind content build verify header inner stored value)
    {feed : Feed} (start : feed.bytes = ((header.bytes ++ inner) ++ stored) ++ rest) :
    ∃ after, container kind content build verify feed = .ok value after ∧
      { feed with checksum := .start }.Passed ((header.bytes ++ inner) ++ stored) rest after := by
  obtain ⟨readable, parts, delimits, ends⟩ := encloses
  simp only [List.append_assoc] at start
  obtain ⟨middle, behind, passed⟩ := container_behind readable delimits.reads start
  obtain ⟨after, done, passed'⟩ := ends.reads middle rest passed.bytes
  exact ⟨after, behind.trans done, passed.trans passed'⟩

/-- Where the bytes end inside the content the container fails for that. -/
theorem breaksOff_inside (readable : header.check kind = .ok ()) {behind : List UInt8}
    (h : (content header.order).BreaksOff ContainerError.Truncated behind) :
    BreaksOff (container kind content build verify) ContainerError.Truncated
      (header.bytes ++ behind) := by
  intro feed start
  obtain ⟨headed, headerDone, passed⟩ := header_reads readable start
  obtain ⟨error, after, failed, reported⟩ := h headed passed.bytes
  rw [passed.ending] at reported
  refine ⟨error, after, ?_, reported⟩
  unfold container
  rw [run_bind_of_ok headerDone, run_bind_of_error failed]

/-- Where the bytes end inside the checksum the container fails for that. -/
theorem breaksOff_ending (readable : header.check kind = .ok ()) {parts : β}
    (reads : (content header.order).Reads inner parts) {behind : List UInt8}
    (h : (ending header verify (header.bytes ++ inner) (build header parts)).BreaksOff
      ContainerError.Truncated behind) :
    BreaksOff (container kind content build verify) ContainerError.Truncated
      (header.bytes ++ (inner ++ behind)) := by
  intro feed start
  obtain ⟨middle, ends, passed⟩ := container_behind readable reads start
  obtain ⟨error, after, failed, reported⟩ := h middle passed.bytes
  rw [passed.ending] at reported
  exact ⟨error, after, ends.trans failed, reported⟩

/-- Wherever the bytes end too early the container fails for that. -/
theorem Encloses.breaksOff
    (encloses : Encloses kind content build verify header inner stored value)
    {bytes more : List UInt8} (split : (header.bytes ++ inner) ++ stored = bytes ++ more)
    (some : more ≠ []) :
    BreaksOff (container kind content build verify) (ContainerError.EndsAfter bytes.length)
      bytes := by
  obtain ⟨readable, parts, delimits, ends⟩ := encloses
  by_cases short : bytes.length < Header.length
  · have missing : ContainerError.EndsAfter bytes.length = (· = .corruptHeader .truncated) :=
      funext fun error => by rw [ContainerError.EndsAfter, if_pos short]
    rw [missing]
    exact (breaksOff_header kind short).bind
  · have missing : ContainerError.EndsAfter bytes.length = ContainerError.Truncated :=
      funext fun error => by rw [ContainerError.EndsAfter, if_neg short]
    have headed : header.bytes <+: bytes := by
      apply List.prefix_of_prefix_length_le ⟨inner ++ stored, rfl⟩
      · exact ⟨more, by rw [← split, List.append_assoc]⟩
      · rw [header.length_bytes]
        exact Nat.not_lt.mp short
    obtain ⟨behind, rfl⟩ := headed
    rw [List.append_assoc, List.append_assoc] at split
    rw [missing]
    rcases List.append_eq_append_iff.mp (List.append_cancel_left split) with
      ⟨late, rfl, rest⟩ | ⟨lacking, inside, rest⟩
    · exact breaksOff_ending readable delimits.reads (ends.breaksOff late more rest some)
    · cases lacking with
      | nil =>
        rw [List.append_nil] at inside
        have := breaksOff_ending readable delimits.reads (ends.breaksOff [] more rest.symm some)
        rwa [List.append_nil, inside] at this
      | cons byte lacking =>
        exact breaksOff_inside readable
          (delimits.breaksOff behind (byte :: lacking) inside (List.cons_ne_nil _ _))

/-- What a container is read from consists of a header, content and an end. -/
theorem container_eq_ok (delimited : ∀ order, (content order).Delimited ContainerError.Truncated)
    {feed after : Feed} (done : container kind content build verify feed = .ok value after) :
    ∃ header inner stored, Encloses kind content build verify header inner stored value ∧
      feed.bytes = ((header.bytes ++ inner) ++ stored) ++ after.bytes ∧
      { feed with checksum := .start }.Passed ((header.bytes ++ inner) ++ stored) after.bytes
        after := by
  obtain ⟨header, headed, headerDone, rest⟩ := run_bind_eq_ok.mp done
  obtain ⟨bytes, start, rfl, readable⟩ := yields_header kind feed header headed headerDone
  obtain ⟨parts, filled, contentDone, _⟩ := run_bind_eq_ok.mp rest
  obtain ⟨inner, start', delimits⟩ := delimited header.order headed parts filled contentDone
  rw [start'] at start
  obtain ⟨middle, behind, passed⟩ := container_behind readable delimits.reads start
  obtain ⟨stored, start'', ends⟩ := delimited_ending middle value after (behind.symm.trans done)
  have encloses : Encloses kind content build verify header inner stored value :=
    ⟨readable, parts, delimits, ends⟩
  have whole : feed.bytes = ((header.bytes ++ inner) ++ stored) ++ after.bytes := by
    rw [start, ← passed.bytes, start'']
    simp only [List.append_assoc]
  obtain ⟨_, same, passed'⟩ := encloses.reads whole
  obtain ⟨_, rfl⟩ := EStateM.Result.ok.inj (done.symm.trans same)
  exact ⟨header, inner, stored, encloses, whole, passed'⟩

/-! ### Bytes that are one container -/

/-- Bytes are loaded when a container is read from them and nothing is left. -/
theorem container_load_eq_ok_iff
    (delimited : ∀ order, (content order).Delimited ContainerError.Truncated)
    {bytes : List UInt8} :
    (container kind content build verify).load bytes = .ok value ↔
      ∃ after, container kind content build verify (.of bytes .endOfData) = .ok value after ∧
        after.bytes = [] := by
  unfold load
  cases done : container kind content build verify (.of bytes .endOfData) with
  | error error after => simp [run_bind_of_error done]
  | ok given after =>
    obtain ⟨_, _, _, _, _, passed⟩ := container_eq_ok delimited done
    have atEnd : after.ending = .endOfData := passed.ending
    rw [run_bind_of_ok done]
    cases left : after.bytes with
    | nil =>
      have finished : finish after = .ok () after := by simp [finish, left, atEnd]
      simp [run_bind_of_ok finished, left, pure, EStateM.pure]
    | cons byte rest =>
      have refused : finish after = .error (.content (.malformed .trailingData))
          { after with bytes := rest, position := after.position + 1 } := by
        simp [finish, left]
      simp [run_bind_of_error refused, left]

/-- Bytes that are loaded, with the checksum compared, are those that their header and their content
would be enclosed with. -/
theorem container_load_eq_ok
    (delimited : ∀ order, (content order).Delimited ContainerError.Truncated) {bytes : List UInt8}
    (loaded : (container kind content build true).load bytes = .ok value) :
    ∃ header inner parts, header.check kind = .ok () ∧
      (content header.order).Delimits ContainerError.Truncated inner parts ∧
      build header parts = .ok value ∧ bytes = header.enclose inner := by
  obtain ⟨after, done, left⟩ := (container_load_eq_ok_iff delimited).mp loaded
  obtain ⟨header, inner, stored, ⟨readable, parts, delimits, ends⟩, whole, _⟩ :=
    container_eq_ok delimited done
  obtain ⟨built, compared⟩ := yields_ending.of_reads ends.reads
  refine ⟨header, inner, parts, readable, delimits, built, ?_⟩
  rw [left, List.append_nil, compared rfl] at whole
  exact whole

end Container

end Decoder

end LabeledBlocks
