import SealedToken.Proofs.Deflate.Decoder
import SealedToken.Proofs.Deflate.RoundTrip

/-!
Bounded decompression: what the loop gives with any decoder that delivers the expansion of its
input, and with the decoder in windows. There the loop may give up when all of the input is
taken with the first window, and the output goes on behind that window.
-/

namespace SealedToken.Deflate

open Inflater Window

/-! ### A window that is given away -/

namespace Loop

variable {input : ByteArray} {limit : Nat} {l : Loop Window}

/-- All of the input is taken, a part of the first window is given away, and the output goes on
behind the window. -/
structure Drains (input : ByteArray) (l : Loop Window) : Prop where
  sound : l.state.Sound
  consumed : l.consumed = input.size
  given : l.state.given = l.held.size
  ready : l.state.ready = windowSize
  left : l.held.size < windowSize
  goesOn : l.state.inflater.isDone = false
  room : l.held.size < l.capacity

/-- The reply that gives away more of the window. -/
def drained (l : Loop Window) : Reply Window :=
  let (state, output) := l.state.give (l.capacity - l.held.size)
  ⟨state, 0, output, false⟩

theorem Drains.call (h : l.Drains input) : l.call decoder input = some l.drained := by
  have hleft : ¬ l.state.isEmpty = true := by
    simp [isEmpty, h.ready, h.given, h.left]
  have hended : (l.state.give (l.capacity - l.held.size)).1.isEnded = false := by
    simp [isEnded, give, h.goesOn]
  change l.state.call _ _ = _
  rw [call_of_not_isEmpty hleft]
  simp only [hended, drained]

theorem Drains.size_append (h : l.Drains input) :
    (l.held ++ l.drained.output).size = min windowSize l.capacity := by
  have hleft := h.left
  have hroom := h.room
  rw [drained, ByteArray.size_append, size_give h.sound, h.ready, h.given]
  omega

/-- More room than is left of the window makes the reply stall. -/
theorem Drains.stalls (h : l.Drains input) (hpast : windowSize < l.capacity) :
    l.Stalls decoder input := by
  refine ⟨_, h.call, rfl, h.consumed, ?_⟩
  rw [h.size_append]
  omega

/-- A reply that fills the room within the limit leads to the next turn. -/
theorem turn_of_fills {σ : Type} {d : StreamDecoder σ} {l : Loop σ} {reply : Reply σ}
    (hcall : l.call d input = some reply) (hended : reply.ended = false)
    (hfills : (l.held ++ reply.output).size = l.capacity) (hlimit : l.capacity ≤ limit) :
    l.turn d input limit = .inl (l.after limit reply) ∧
      (l.after limit reply).held.size = l.capacity ∧
        (l.after limit reply).capacity = nextCapacity l.capacity l.capacity limit := by
  refine ⟨?_, hfills, by rw [after, hfills]⟩
  simp only [Loop.turn, hcall]
  rw [if_neg (by omega), if_neg (by simp [hended]), if_neg (by omega)]

theorem lt_nextCapacity {held capacity : Nat} (h : held ≤ limit) :
    held < nextCapacity held capacity limit := by
  rw [nextCapacity]
  omega

/-- Less room than is left of the window is filled. -/
theorem Drains.turn (h : l.Drains input) (hwithin : l.capacity < windowSize)
    (hlimit : l.capacity ≤ limit) :
    ∃ next, l.turn decoder input limit = .inl next ∧ next.Drains input ∧
      next.capacity = nextCapacity l.capacity l.capacity limit := by
  have hfills : (l.held ++ l.drained.output).size = l.capacity := by
    rw [h.size_append, Nat.min_eq_right (Nat.le_of_lt hwithin)]
  obtain ⟨hturn, hheld, hcapacity⟩ := turn_of_fills h.call rfl hfills hlimit
  have hroom := h.room
  refine ⟨_, hturn, ⟨sound_give h.sound, h.consumed, ?_, h.ready, by rwa [hheld], h.goesOn, ?_⟩,
    hcapacity⟩
  · change min l.state.ready (l.state.given + (l.capacity - l.held.size)) = _
    rw [h.ready, h.given, hheld]
    omega
  · rw [hheld, hcapacity]
    exact lt_nextCapacity hlimit

/-- Does the capacity, where it is filled each time, come to pass the window without
stopping at its end? -/
def passes (limit : Nat) : (capacity fuel : Nat) → Bool
  | _, 0 => false
  | capacity, fuel + 1 =>
      windowSize < capacity || capacity < windowSize && capacity ≤ limit &&
        passes limit (nextCapacity capacity capacity limit) fuel

theorem exists_stalls {fuel : Nat} (hl : Reached decoder input limit l) (h : l.Drains input)
    (hpasses : passes limit l.capacity fuel = true) :
    ∃ last, Reached decoder input limit last ∧ last.Stalls decoder input := by
  induction fuel generalizing l with
  | zero => simp [passes] at hpasses
  | succ fuel ih =>
      simp only [passes, Bool.or_eq_true, Bool.and_eq_true, decide_eq_true_eq] at hpasses
      rcases hpasses with hpast | ⟨⟨hwithin, hlimit⟩, hpasses⟩
      · exact ⟨l, hl, h.stalls hpast⟩
      · obtain ⟨next, hturn, hnext, hcapacity⟩ := h.turn hwithin hlimit
        exact ih (hl.tail hturn) hnext (hcapacity ▸ hpasses)

end Loop

/-! ### A block that ends where the window is passed -/

/-- The last token passes the end of the window, and stands in the last byte of the block. -/
structure Spills (ts : List Token) : Prop where
  valid : ∀ t ∈ ts, t.Valid
  within : totalLength ts.dropLast ≤ windowSize
  past : windowSize < totalLength ts
  byte : (endOf ts + 7) / 8 = (pack ts).size

section Spills

variable {ts : List Token} {limit : Nat}

/-- The first window, when all of the block is taken. -/
def spilled (ts : List Token) : Window :=
  ofWhole (pack ts) ⟨coded (pack ts) (endOf ts), ts.foldl Token.appendTo .empty⟩ (pack ts).size 0
    windowSize

theorem Spills.decode (h : Spills ts) :
    decoder.start.decode ((pack ts).extract 0 (pack ts).size) =
      some (spilled ts, (pack ts).size) := by
  have hend : decoder.start.windowEnd = windowSize := rfl
  have hrun : runTo windowSize (decoder.start.whole (pack ts)) = _ :=
    runTo_pack h.valid h.within h.past
  have hready : min windowSize (ts.foldl Token.appendTo .empty).size = windowSize := by
    rw [size_tokens]
    exact Nat.min_eq_left (Nat.le_of_lt (by simpa using h.past))
  rw [Stands.decode_eq stands_start, hend, hrun]
  dsimp only
  rw [hready]
  change some (ofWhole _ _ ((endOf ts + 7) / 8) _ _, (endOf ts + 7) / 8 - 0) = _
  rw [h.byte]
  rfl

/-- The reply that takes the block. -/
def spill (ts : List Token) (room : Nat) : Reply Window :=
  let (state, output) := (spilled ts).give room
  ⟨state, (pack ts).size, output, false⟩

theorem Spills.call (h : Spills ts) :
    (Loop.start decoder (pack ts) limit).call decoder (pack ts) =
      some (spill ts (firstCapacity (pack ts).size limit)) := by
  have hended (room : Nat) : ((spilled ts).give room).1.isEnded = false := rfl
  change decoder.start.call ((pack ts).extract 0 (pack ts).size)
    (firstCapacity (pack ts).size limit - 0) = _
  rw [Nat.sub_zero, call_of_isEmpty rfl, decodeAll, extract_rest, Nat.zero_add, h.decode]
  simp only [Option.bind_eq_bind, Option.bind_some, hended, ByteArray.empty_append]
  rw [if_pos (.inr (.inl (by simp))), Nat.zero_add]
  rfl

/-- The first call takes all of the block and fills its room. -/
theorem Spills.drains (h : Spills ts) (hwithin : firstCapacity (pack ts).size limit < windowSize)
    (hlimit : firstCapacity (pack ts).size limit ≤ limit) :
    ∃ l, Loop.Reached decoder (pack ts) limit l ∧ l.Drains (pack ts) ∧
      l.capacity = nextCapacity (firstCapacity (pack ts).size limit)
        (firstCapacity (pack ts).size limit) limit := by
  have hsound : (spilled ts).Sound := (decoded_of_decode sound_start h.decode).sound
  have hfills : ((Loop.start decoder (pack ts) limit).held ++
      (spill ts (firstCapacity (pack ts).size limit)).output).size =
        firstCapacity (pack ts).size limit := by
    change (ByteArray.empty ++ ((spilled ts).give _).2).size = _
    rw [ByteArray.empty_append, size_give hsound]
    exact Nat.min_eq_right (Nat.le_of_lt hwithin)
  obtain ⟨hturn, hheld, hcapacity⟩ := Loop.turn_of_fills h.call rfl hfills hlimit
  refine ⟨_, .single hturn, ⟨sound_give hsound, Nat.zero_add _, ?_, rfl, by rwa [hheld], rfl, ?_⟩,
    hcapacity⟩
  · rw [hheld]
    change min windowSize (0 + _) = _
    rw [Nat.zero_add]
    exact Nat.min_eq_right (Nat.le_of_lt hwithin)
  · rw [hheld, hcapacity]
    exact Loop.lt_nextCapacity hlimit

/-- Where the capacity comes to pass the window, the loop gives up. -/
theorem Spills.inflate (h : Spills ts) {fuel : Nat}
    (hwithin : firstCapacity (pack ts).size limit < windowSize)
    (hlimit : firstCapacity (pack ts).size limit ≤ limit)
    (hpasses : Loop.passes limit (nextCapacity (firstCapacity (pack ts).size limit)
      (firstCapacity (pack ts).size limit) limit) fuel = true) :
    inflate (pack ts) limit = .error (.invalidFormat .inflateTruncated) := by
  obtain ⟨last, hlast, -⟩ := expands_pack h.valid
  obtain ⟨l, hl, hdrains, hcapacity⟩ := h.drains hwithin hlimit
  exact (inflates_of_delivers (delivers_decoder hlast) limit).stalled
    (Loop.exists_stalls hl hdrains (hcapacity ▸ hpasses))

end Spills

/-! ### Whole runs -/

theorem Expands.delivers {input whole : ByteArray} (h : Expands input whole) :
    decoder.Delivers input whole True (Waits input) := by
  obtain ⟨last, hlast, hdone, rfl, -⟩ := h
  simpa only [hdone] using delivers_decoder hlast

/-- Within the first window, or where the limit comes before its end, no reply stalls. -/
theorem Expands.inflate {input whole : ByteArray} {limit : Nat} (h : Expands input whole)
    (hwindow : limit < windowSize ∨ whole.size ≤ windowSize) :
    inflate input limit = wholeWithin whole limit := by
  refine ((inflates_of_delivers h.delivers limit).settled trivial).2 fun l hl hstalls => ?_
  obtain ⟨last, hlast, hdone, rfl, -⟩ := h
  obtain ⟨hle, hlt⟩ := window_of_stalls hlast hdone hl hstalls
  omega

theorem wholeWithin_eq_ok {whole : ByteArray} {limit : Nat} :
    wholeWithin whole limit = .ok whole ↔ whole.size ≤ limit := by
  unfold wholeWithin
  split <;> simp [*]

/-- Decompression within a limit. With any decoder that delivers the expansion of its input the
loop ends, within its bound, and gives the expansion or says that it is too long, unless it comes
by a reply that stalls. The decoder in windows delivers, and stalls only where a window ends
within the limit and before the end of the output. -/
theorem inflation_settled (input : ByteArray) (limit : Nat) :
    (∀ {σ : Type} (d : StreamDecoder σ) (whole : ByteArray) (complete : Prop)
      (stands : σ → Nat → Nat → Prop),
        d.Delivers input whole complete stands → Inflates d input whole complete limit) ∧
    (∀ whole, Expands input whole → Inflates decoder input whole True limit ∧
      (limit < windowSize ∨ whole.size ≤ windowSize →
        inflate input limit = wholeWithin whole limit)) ∧
    (∀ more whole, Expands (input ++ more) whole → 0 < more.size →
      ∃ error, inflate input limit = .error error) ∧
    Inflates decoder (deflate input) input True limit ∧
      (limit < windowSize ∨ input.size ≤ windowSize →
        (inflate (deflate input) limit = .ok input ↔ input.size ≤ limit)) := by
  have hdeflated := expands_deflate input
  refine ⟨fun d whole complete stands hd => inflates_of_delivers hd limit,
    fun whole h => ⟨inflates_of_delivers h.delivers limit, h.inflate⟩,
    fun more whole h hmore => ?_, inflates_of_delivers hdeflated.delivers limit, fun hwindow => ?_⟩
  · obtain ⟨last, hlast⟩ := @exists_endsAt (start input) (Nat.zero_le _)
    refine (inflates_of_delivers (delivers_decoder hlast) limit).incomplete ?_
    simp [h.not_done hmore hlast]
  · rw [hdeflated.inflate hwindow, wholeWithin_eq_ok]

/-- A byte and four copies of it. -/
def five : List Token := [.literal 7, .copy 4 1]

/-- Five bytes in a block of four: they are given as a whole or not at all, and not from a part of
the block. -/
theorem inflation_of_five :
    inflate (pack five) 5 = .ok ⟨#[7, 7, 7, 7, 7]⟩ ∧
      inflate (pack five) 4 = .error (.compressionLimitExceeded 4) ∧
      (∃ error, inflate ((pack five).extract 0 3) 5 = .error error) ∧
      Inflates decoder (pack five) ⟨#[7, 7, 7, 7, 7]⟩ True 5 := by
  have hexpands : Expands (pack five) ⟨#[7, 7, 7, 7, 7]⟩ := expands_pack (by decide)
  have hsize : (pack five).size = 4 := by
    rw [size_pack]
    decide +kernel
  have hparts : (pack five).extract 0 3 ++ (pack five).extract 3 4 = pack five := by
    conv_rhs => rw [← @ByteArray.extract_zero_size (pack five), hsize]
    exact ByteArray.extract_append_extract
  refine ⟨((inflation_settled _ 5).2.1 _ hexpands).2 (.inl (by decide)),
    ((inflation_settled _ 4).2.1 _ hexpands).2 (.inl (by decide)),
    (inflation_settled _ 5).2.2.1 ((pack five).extract 3 4) _ (hparts.symm ▸ hexpands) ?_,
    (inflation_settled _ 5).1 _ _ _ _ hexpands.delivers⟩
  rw [ByteArray.size_extract, hsize]
  decide

/-- A byte that is repeated to the end of the first window and one further. -/
def overrunning : List Token :=
  List.replicate 3 (.literal 255) ++ List.replicate 127 (.copy 258 1)

theorem spills_overrunning : Spills overrunning where
  valid := by decide +kernel
  within := by decide +kernel
  past := by decide +kernel
  byte := by
    rw [size_pack]
    decide +kernel

/-- A complete block whose expansion is within the limit is said to be truncated. -/
theorem inflate_overrunning : ∃ whole, Expands (pack overrunning) whole ∧
    decoder.Delivers (pack overrunning) whole True (Waits (pack overrunning)) ∧
    whole.size ≤ defaultLimit ∧
    inflate (pack overrunning) defaultLimit = .error (.invalidFormat .inflateTruncated) := by
  have hexpands := expands_pack spills_overrunning.valid
  have hcapacity : firstCapacity (pack overrunning).size defaultLimit = 422 := by
    rw [size_pack]
    decide +kernel
  refine ⟨_, hexpands, hexpands.delivers, ?_,
    @Spills.inflate _ defaultLimit spills_overrunning 6 ?_ ?_ ?_⟩
  · rw [size_tokens]
    decide +kernel
  · rw [hcapacity]
    decide
  · rw [hcapacity]
    decide
  · rw [hcapacity]
    decide +kernel

end SealedToken.Deflate
