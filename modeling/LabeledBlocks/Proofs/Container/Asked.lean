import LabeledBlocks.Proofs.Container.ReaderHistory
import LabeledBlocks.Proofs.Container.Stepwise
import LabeledBlocks.Proofs.Container.Taken

/-!
# Arrays are asked for behind their values

A decoder asks for an array only when it has been handed out all bytes of its values, and asks for
at most one array for each block and each gradient, of the shape that the labels have that it has
just read. So all arrays together never hold more than the bytes that have been handed out, whatever
these are and however the decoder ends.

* `Decoder.Quiet` — bytes are handed out, and no array is asked for.
* `Decoder.Visits` — blocks and gradients are visited one after the other, and nothing else asks for
  an array.
* `Decoder.Visits.paid` — the bytes of all arrays were handed out before.
* `BlockMap.readWith_asks` — how a map is read, whatever it is read from.
-/

namespace LabeledBlocks

def Request.bytes (request : Request) : Nat :=
  8 * request.shape.prod

def Feed.ask (feed : Feed) (shape : List Nat) : Feed :=
  { feed with asked := ⟨shape, feed.position⟩ :: feed.asked }

namespace Decoder

variable {α β : Type}

/-! ### What a decoder leaves -/

/-- The feed that is left, whether or not the decoder gives something. -/
def left (decoder : Decoder α) (feed : Feed) : Feed :=
  match decoder feed with
  | .ok _ after => after
  | .error _ after => after

/-- However the decoder ends, the feed that it leaves is related to the one it started with. -/
def Leaves (decoder : Decoder α) (R : Feed → Feed → Prop) : Prop :=
  ∀ feed, R feed (decoder.left feed)

section Left

variable {decoder : Decoder α} {next : α → Decoder β} {feed after : Feed} {value : α}
  {error : ContainerError}

theorem left_of_ok (done : decoder feed = .ok value after) : decoder.left feed = after := by
  rw [left, done]

theorem left_of_error (failed : decoder feed = .error error after) :
    decoder.left feed = after := by
  rw [left, failed]

theorem left_bind_of_ok (done : decoder feed = .ok value after) :
    (decoder >>= next).left feed = (next value).left after := by
  rw [left, run_bind_of_ok done]
  rfl

theorem left_bind_of_error (failed : decoder feed = .error error after) :
    (decoder >>= next).left feed = after :=
  left_of_error (run_bind_of_error failed)

end Left

section Leaves

variable {R S : Feed → Feed → Prop} {decoder : Decoder α} {next : α → Decoder β}

/-- A decoder, and behind it another one, of which only what is left in the end has to be known. -/
theorem Leaves.bind (h : decoder.Leaves R) (ends : ∀ feed after, R feed after → S feed after)
    (goesOn : ∀ value feed middle, decoder feed = .ok value middle → R feed middle →
      S feed ((next value).left middle)) : (decoder >>= next).Leaves S := by
  intro feed
  have left := h feed
  cases done : decoder feed with
  | ok value middle =>
    rw [left_of_ok done] at left
    rw [left_bind_of_ok done]
    exact goesOn value feed middle done left
  | error error after =>
    rw [left_of_error done] at left
    rw [left_bind_of_error done]
    exact ends feed after left

theorem Leaves.imp (h : decoder.Leaves R) (weaker : ∀ feed after, R feed after → S feed after) :
    decoder.Leaves S :=
  fun feed => weaker feed _ (h feed)

end Leaves

/-! ### Decoders that ask for nothing -/

/-- Some bytes have been handed out, and no array has been asked for. -/
structure Quiet (feed after : Feed) : Prop where
  position : feed.position ≤ after.position
  total : after.position + after.bytes.length = feed.position + feed.bytes.length
  asked : after.asked = feed.asked

theorem Quiet.refl (feed : Feed) : Quiet feed feed :=
  ⟨Nat.le_refl _, rfl, rfl⟩

theorem Quiet.trans {feed middle after : Feed} (h : Quiet feed middle) (h' : Quiet middle after) :
    Quiet feed after :=
  ⟨Nat.le_trans h.position h'.position, h'.total.trans h.total, h'.asked.trans h.asked⟩

section Quiet

variable {decoder : Decoder α} {next : α → Decoder β}

theorem Leaves.then (h : decoder.Leaves Quiet) (h' : ∀ value, (next value).Leaves Quiet) :
    (decoder >>= next).Leaves Quiet :=
  h.bind (fun _ _ quiet => quiet) fun value _ middle _ quiet => quiet.trans (h' value middle)

theorem quiet_pure (value : α) : (pure value : Decoder α).Leaves Quiet :=
  Quiet.refl

theorem quiet_refuse (fault : ContentFault) : (refuse fault : Decoder α).Leaves Quiet :=
  Quiet.refl

/-- A condition may refuse. -/
theorem Leaves.unless {R : Feed → Feed → Prop} {refused : Prop} [Decidable refused]
    {fault : ContentFault} {next : Unit → Decoder α} (quiet : ∀ feed, R feed feed)
    (h : ¬refused → (next ()).Leaves R) :
    (if refused then Decoder.refuse fault >>= next else next ()).Leaves R := by
  by_cases holds : refused
  · rw [if_pos holds]
    exact quiet
  · rw [if_neg holds]
    exact h holds

/-- However many bytes there are, what is left behind them is the same feed further on. -/
theorem left_take (count : Nat) (short : ContainerError) (feed : Feed) :
    (take count short).left feed = { feed with
      bytes := feed.bytes.drop count
      position := feed.position + (feed.bytes.take count).length
      checksum := feed.checksum.update (feed.bytes.take count) } := by
  unfold left take
  by_cases length : (feed.bytes.take count).length = count
  · simp only [if_pos length]
  · simp only [if_neg length]
    cases feed.ending <;> rfl

theorem quiet_take (count : Nat) (short : ContainerError) : (take count short).Leaves Quiet := by
  intro feed
  rw [left_take]
  refine ⟨Nat.le_add_right _ _, ?_, rfl⟩
  dsimp only
  rw [List.length_take, List.length_drop]
  omega

/-- A payload that is given has been handed out as a whole. -/
theorem position_of_payload {count : Nat} {field : Field} {data : List UInt8} {feed after : Feed}
    (done : payload count field feed = .ok data after) :
    after.position = feed.position + count := by
  obtain ⟨bytes, start, rfl, length⟩ := yields_payload count field feed data after done
  have quiet := quiet_take count (.content (.truncated field)) feed
  have left : (take count (.content (.truncated field))).left feed = after := left_of_ok done
  have total := quiet.total
  rw [left, start, List.length_append] at total
  omega

theorem quiet_payload (count : Nat) (field : Field) : (payload count field).Leaves Quiet :=
  quiet_take count _

theorem stepwise_quiet : Stepwise fun decoder => decoder.Leaves Quiet where
  given := quiet_pure
  refuse := quiet_refuse
  payload := quiet_payload
  bind := Leaves.then

/-- A header is read without an array. -/
theorem quiet_header (kind : ContainerKind) : (header kind).Leaves Quiet := by
  refine Leaves.then (fun _ => ⟨Nat.le_refl _, rfl, rfl⟩) fun _ => ?_
  refine (quiet_take _ _).then fun data => ?_
  cases Header.parse data with
  | error fault => exact Quiet.refl
  | ok header =>
    dsimp only
    cases header.check kind with
    | error error => exact Quiet.refl
    | ok _ => exact quiet_pure header

theorem quiet_trailer (header : Header) (verify : Bool) : (trailer header verify).Leaves Quiet :=
  stepwise_quiet.trailer Quiet.refl header verify

end Quiet

/-! ### A block without its gradients -/

/-- Nothing was asked for behind the labels, or one array of their shape behind all bytes of its
values. -/
inductive AskedFor (shape : List Nat) (decoded : Feed) : (after : Feed) → Prop where
  | nothing {after : Feed} (quiet : Quiet decoded after) : AskedFor shape decoded after
  | array {filled : Feed} (quiet : Quiet decoded filled)
      (behind : decoded.position + 8 * shape.prod ≤ filled.position)
      (allocatable : 8 * Dense.span shape ≤ Dense.maxLength) :
      AskedFor shape decoded (filled.ask shape)

theorem AskedFor.behind {shape : List Nat} {feed decoded after : Feed} (quiet : Quiet feed decoded)
    (h : AskedFor shape decoded after) : AskedFor shape feed after := by
  cases h with
  | nothing quiet' => exact .nothing (quiet.trans quiet')
  | array quiet' behind allocatable =>
    exact .array (quiet.trans quiet') (by have := quiet.position; omega) allocatable

section Behind

variable {shape : List Nat} {decoder : Decoder α} {next : α → Decoder β}

/-- A decoder that asks for nothing may stand in front. -/
theorem Leaves.thenAsks (h : decoder.Leaves Quiet)
    (h' : ∀ value, (next value).Leaves (AskedFor shape)) :
    (decoder >>= next).Leaves (AskedFor shape) :=
  h.bind (fun _ _ => .nothing) fun value _ middle _ quiet => (h' value middle).behind quiet

/-- When an array is there, no other one is asked for. -/
theorem left_filled (array : Dense) (shape : List Nat) (values : List FloatBits) (axes : Axes)
    (feed : Feed) :
    (do
      let values ← fill array shape values
      accept (Block.ofValues values axes.samples axes.components axes.properties) :
        Decoder Block).left feed = feed := by
  unfold fill
  by_cases other : array.shape ≠ shape
  · rw [if_pos other]
    rfl
  by_cases size : array.data.size ≠ shape.prod
  · rw [if_neg other, if_pos size]
    rfl
  rw [if_neg other, if_neg size]
  change (accept _).left feed = feed
  cases Block.ofValues ⟨shape, values.toArray⟩ axes.samples axes.components axes.properties <;> rfl

end Behind

/-- An array is asked for behind its values, if at all. -/
theorem asks_valuesBehind (allocator : Allocator) (order : ByteOrder) (axes : Axes) :
    (valuesBehind fill allocator order axes).Leaves (AskedFor axes.shape) := by
  have quiet : ∀ feed, AskedFor axes.shape feed feed := fun feed => .nothing (Quiet.refl feed)
  refine (stepwise_quiet.length order .rank).thenAsks fun rank => .unless quiet fun _ => ?_
  have numbers := stepwise_quiet.replicate (stepwise_quiet.count order .shape) rank
  refine numbers.thenAsks fun shape => ?_
  refine .unless quiet fun same => .unless quiet fun small => ?_
  obtain rfl := not_not.mp same
  refine (quiet_payload (8 * axes.shape.prod) .blockValues).bind (fun _ _ => .nothing) ?_
  intro data feed middle done quiet
  have asked : ∀ next : Dense → Decoder Block,
      (allocate allocator axes.shape >>= next).left middle =
        (next (allocator middle.asked axes.shape)).left (middle.ask axes.shape) :=
    fun _ => rfl
  rw [asked, left_filled]
  exact .array quiet (Nat.le_of_eq (position_of_payload done).symm) (Nat.le_of_not_gt small)

/-! ### Block after block -/

/-- A block or a gradient that is read without its own gradients: the feed in front of it, what is
left behind it, and the array that was asked for in between, if one was. -/
structure Visit where
  before : Feed
  after : Feed
  asked : Option Request

/-- This is what happens when a block is read without its gradients. An array that was asked for has
the shape of the labels that were read, all bytes of its values were handed out behind them, and
there is room for it even if the empty axes are left out of account. -/
structure Visit.Happens (allocator : Allocator) (order : ByteOrder) (visit : Visit) : Prop where
  run : (ownBlock allocator order).left visit.before = visit.after
  added : visit.after.asked = visit.asked.toList ++ visit.before.asked
  onward : visit.before.position ≤ visit.after.position
  total : visit.after.position + visit.after.bytes.length =
    visit.before.position + visit.before.bytes.length
  labelled : ∀ request ∈ visit.asked, ∃ axes decoded,
    Decoder.axes order visit.before = .ok axes decoded ∧ request.shape = axes.shape ∧
      visit.before.position ≤ decoded.position ∧
      decoded.position + request.bytes ≤ request.position
  within : ∀ request ∈ visit.asked, request.position ≤ visit.after.position
  allocatable : ∀ request ∈ visit.asked, 8 * Dense.span request.shape ≤ Dense.maxLength

/-- Blocks and gradients are read one after the other, and nothing is asked for between them. -/
inductive Visits (allocator : Allocator) (order : ByteOrder) : Feed → List Visit → Feed → Prop where
  | stop {feed after : Feed} (quiet : Quiet feed after) : Visits allocator order feed [] after
  | next {feed after : Feed} {visit : Visit} {more : List Visit} (quiet : Quiet feed visit.before)
      (happens : visit.Happens allocator order)
      (rest : Visits allocator order visit.after more after) :
      Visits allocator order feed (visit :: more) after

section Visits

variable {allocator : Allocator} {order : ByteOrder}

/-- Nothing is asked for while the block is read. -/
theorem Visit.happens_quiet {before after : Feed}
    (run : (ownBlock allocator order).left before = after) (quiet : Quiet before after) :
    Visit.Happens allocator order ⟨before, after, none⟩ :=
  ⟨run, quiet.asked, quiet.position, quiet.total, (by rintro _ ⟨⟩), (by rintro _ ⟨⟩),
    (by rintro _ ⟨⟩)⟩

/-- Whatever there is to read, this is how it happens. -/
theorem exists_visit (allocator : Allocator) (order : ByteOrder) (before : Feed) :
    ∃ visit : Visit, visit.before = before ∧ visit.Happens allocator order := by
  have front := stepwise_quiet.axes order before
  cases read : Decoder.axes order before with
  | error error after =>
    rw [left_of_error read] at front
    have run : (ownBlock allocator order).left before = after := by
      rw [ownBlock, left_bind_of_error read]
    exact ⟨⟨before, after, none⟩, rfl, Visit.happens_quiet run front⟩
  | ok axes decoded =>
    rw [left_of_ok read] at front
    have run : (ownBlock allocator order).left before =
        (valuesBehind fill allocator order axes).left decoded := by
      rw [ownBlock, left_bind_of_ok read]
    have asked := asks_valuesBehind allocator order axes decoded
    rw [← run] at asked
    generalize left : (ownBlock allocator order).left before = after at asked
    cases asked with
    | nothing quiet =>
      exact ⟨⟨before, after, none⟩, rfl, Visit.happens_quiet left (front.trans quiet)⟩
    | @array filled quiet behind allocatable =>
      have whole := front.trans quiet
      refine ⟨⟨before, _, some ⟨axes.shape, filled.position⟩⟩, rfl, left, ?_, whole.position,
        whole.total, ?_, ?_, ?_⟩
      · exact congrArg (Request.mk axes.shape filled.position :: ·) whole.asked
      · rintro request ⟨⟩
        exact ⟨axes, decoded, read, rfl, front.position, behind⟩
      · rintro request ⟨⟩
        exact Nat.le_refl _
      · rintro request ⟨⟩
        exact allocatable

variable {feed middle after : Feed} {visits more : List Visit}

theorem Visits.behind (h : Visits allocator order middle visits after) (quiet : Quiet feed middle) :
    Visits allocator order feed visits after := by
  cases h with
  | stop quiet' => exact .stop (quiet.trans quiet')
  | next quiet' happens rest => exact .next (quiet.trans quiet') happens rest

theorem Visits.append (h : Visits allocator order feed visits middle)
    (h' : Visits allocator order middle more after) :
    Visits allocator order feed (visits ++ more) after := by
  induction h with
  | stop quiet => exact h'.behind quiet
  | next quiet happens _ ih => exact .next quiet happens (ih h')

theorem Visits.happens (h : Visits allocator order feed visits after) :
    ∀ visit ∈ visits, visit.Happens allocator order := by
  induction h with
  | stop _ => exact fun _ none => absurd none List.not_mem_nil
  | next _ happens _ ih => exact List.forall_mem_cons.mpr ⟨happens, ih⟩

/-- The arrays that were asked for are those of the visits. -/
theorem Visits.requests (h : Visits allocator order feed visits after) :
    after.requests = feed.requests ++ visits.filterMap Visit.asked := by
  induction h with
  | stop quiet =>
    rw [Feed.requests, quiet.asked, List.filterMap_nil, List.append_nil, Feed.requests]
  | @next feed after visit more quiet happens _ ih =>
    have added := happens.added
    rw [ih, Feed.requests, Feed.requests, added, quiet.asked, List.reverse_append,
      List.append_assoc]
    cases asked : visit.asked with
    | none => rw [List.filterMap_cons_none asked]; rfl
    | some request => rw [List.filterMap_cons_some asked]; rfl

/-- Along visits, bytes are handed out one after the other, and none gets lost. -/
theorem Visits.total (h : Visits allocator order feed visits after) :
    feed.position ≤ after.position ∧
      after.position + after.bytes.length = feed.position + feed.bytes.length := by
  induction h with
  | stop quiet => exact ⟨quiet.position, quiet.total⟩
  | next quiet happens _ ih =>
    exact ⟨Nat.le_trans quiet.position (Nat.le_trans happens.onward ih.1),
      ih.2.trans (happens.total.trans quiet.total)⟩

/-- Whenever an array is asked for, its bytes and those of the arrays before it have been handed out
one after the other. -/
theorem Visits.paid (h : Visits allocator order feed visits after) {earlier later : List Request}
    {request : Request} (asked : visits.filterMap Visit.asked = earlier ++ request :: later) :
    feed.position + ((earlier ++ [request]).map Request.bytes).sum ≤ request.position ∧
      request.position ≤ after.position := by
  induction h generalizing earlier with
  | stop _ => cases earlier <;> cases asked
  | @next feed after visit more quiet happens rest ih =>
    have further := quiet.position
    cases own : visit.asked with
    | none =>
      rw [List.filterMap_cons_none own] at asked
      have := ih asked
      have := happens.onward
      omega
    | some first =>
      rw [List.filterMap_cons_some own] at asked
      obtain ⟨_, decoded, _, _, start, behind⟩ := happens.labelled first own
      have within := happens.within first own
      cases earlier with
      | nil =>
        obtain ⟨rfl, _⟩ := List.cons.inj asked
        have := rest.total.1
        simp only [List.nil_append, List.map_cons, List.map_nil, List.sum_cons, List.sum_nil]
        omega
      | cons other earlier =>
        obtain ⟨rfl, further⟩ := List.cons.inj asked
        have := ih further
        simp only [List.cons_append, List.map_cons, List.sum_cons]
        omega

/-- Blocks and gradients are visited on the way from one feed to another. -/
def Visiting (allocator : Allocator) (order : ByteOrder) (feed after : Feed) : Prop :=
  ∃ visits, Visits allocator order feed visits after

theorem Quiet.visiting (quiet : Quiet feed after) : Visiting allocator order feed after :=
  ⟨[], .stop quiet⟩

variable {decoder : Decoder α} {next : α → Decoder β}

theorem Leaves.visiting (h : decoder.Leaves Quiet) : decoder.Leaves (Visiting allocator order) :=
  h.imp fun _ _ quiet => quiet.visiting

theorem Leaves.thenVisits (h : decoder.Leaves (Visiting allocator order))
    (h' : ∀ value, (next value).Leaves (Visiting allocator order)) :
    (decoder >>= next).Leaves (Visiting allocator order) := by
  refine h.bind (fun _ _ visiting => visiting) fun value _ middle _ visiting => ?_
  obtain ⟨visits, visiting⟩ := visiting
  obtain ⟨more, further⟩ := h' value middle
  exact ⟨visits ++ more, visiting.append further⟩

variable (allocator order)

theorem stepwise_visiting :
    Stepwise fun decoder => decoder.Leaves (Visiting allocator order) where
  given value := (quiet_pure value).visiting
  refuse fault := (quiet_refuse fault).visiting
  payload count field := (quiet_payload count field).visiting
  bind := Leaves.thenVisits

theorem visiting_ownBlock : (ownBlock allocator order).Leaves (Visiting allocator order) := by
  intro feed
  obtain ⟨visit, rfl, happens⟩ := exists_visit allocator order feed
  exact ⟨[visit], .next (Quiet.refl _) happens (.stop (happens.run ▸ Quiet.refl _))⟩

theorem visiting_mapContent : (mapContent allocator order).Leaves (Visiting allocator order) :=
  (stepwise_visiting allocator order).mapContent (visiting_ownBlock allocator order)

end Visits

/-- However the reading of a container ends, the blocks and the gradients in it have been visited
one after the other, in the byte order of its header. -/
theorem visiting_container {kind : ContainerKind} {allocator : Allocator}
    {content : ByteOrder → Decoder β} (build : Header → β → Except Error α) (verify : Bool)
    (h : ∀ order, (content order).Leaves (Visiting allocator order)) :
    (container kind content build verify).Leaves
      fun feed after => ∃ order, Visiting allocator order feed after := by
  refine (quiet_header kind).bind (fun _ _ quiet => ⟨.little, quiet.visiting⟩) ?_
  intro header feed middle _ quiet
  refine ⟨header.order, ?_⟩
  have rest : (do
      let parts ← content header.order
      trailer header verify
      accept (build header parts) : Decoder α).Leaves (Visiting allocator header.order) :=
    (h header.order).thenVisits fun parts =>
      (quiet_trailer header verify).visiting.thenVisits fun _ =>
        (stepwise_quiet.accept _).visiting
  obtain ⟨visits, visiting⟩ := rest middle
  exact ⟨visits, visiting.behind quiet⟩

end Decoder

/-- What the reading of a map does, whatever it is read from. Blocks and gradients are visited one
after the other; the arrays that are asked for are those of the visits, in order; and when an array
is asked for, the bytes of all arrays up to it have been handed out. -/
structure BlockMap.AsksFrugally (allocator : Allocator) (bytes : List UInt8) (ending : Ending)
    (after : Feed) : Prop where
  visits : ∃ order visits, Decoder.Visits allocator order (.of bytes ending) visits after ∧
    (∀ visit ∈ visits, visit.Happens allocator order) ∧
    after.requests = visits.filterMap Decoder.Visit.asked
  paid : ∀ earlier request later, after.requests = earlier ++ request :: later →
    ((earlier ++ [request]).map Request.bytes).sum ≤ request.position
  consumed : (after.requests.map Request.bytes).sum ≤ after.position
  total : after.position + after.bytes.length = bytes.length

/-- Reading a map asks for arrays frugally, however it ends. -/
theorem BlockMap.readWith_asks (allocator : Allocator) (verify : Bool) (bytes : List UInt8)
    (ending : Ending) :
    AsksFrugally allocator bytes ending
      ((BlockMap.readWith allocator verify).left (.of bytes ending)) := by
  obtain ⟨order, visits, visiting⟩ : ∃ order, Decoder.Visiting allocator order (.of bytes ending)
      ((BlockMap.readWith allocator verify).left (.of bytes ending)) := by
    rw [BlockMap.readWith_eq]
    exact Decoder.visiting_container BlockMap.ofContent verify
      (Decoder.visiting_mapContent allocator) _
  have requests : _ = visits.filterMap Decoder.Visit.asked := visiting.requests
  have total := visiting.total.2
  refine ⟨⟨order, visits, visiting, visiting.happens, requests⟩, ?_, ?_, ?_⟩
  · intro earlier request later asked
    have paid := (visiting.paid (requests.symm.trans asked)).1
    rwa [Feed.of, Nat.zero_add] at paid
  · rw [requests]
    rcases List.eq_nil_or_concat (visits.filterMap Decoder.Visit.asked) with nothing | some
    · rw [nothing]
      exact Nat.zero_le _
    · obtain ⟨earlier, last, split⟩ := some
      rw [List.concat_eq_append] at split
      obtain ⟨paid, within⟩ := visiting.paid split
      rw [Feed.of, Nat.zero_add] at paid
      rw [split]
      exact Nat.le_trans paid within
  · rw [total, Feed.of, Nat.zero_add]

end LabeledBlocks
