import Mathlib.Logic.Relation
import SealedToken.Deflate.Bounded
import SealedToken.Proofs.Outcome

/-!
The loop around a decoder, for any decoder that delivers the expansion of its input piece
by piece. The loop ends, holds at most one byte more than the limit, and gives the expansion
or says that it is too long. One reply makes it give up all the same: one that takes the last
of the input and leaves room, while the decoder has not said that it has ended.
-/

namespace SealedToken.Deflate

variable {σ : Type} {d : StreamDecoder σ} {input whole : ByteArray} {limit : Nat}
  {complete : Prop} {stands : σ → Nat → Nat → Prop} {reply : Reply σ}

/-! ### What a decoder delivers -/

/-- A reply to a call with some room, when part of the input is taken and part of the
expansion is given. It goes on in both, and says that it has ended only when the input is
complete and all is given. -/
structure Reply.Continues (input whole : ByteArray) (complete : Prop)
    (stands : σ → Nat → Nat → Prop) (consumed given room : Nat) (reply : Reply σ) : Prop where
  taken : consumed + reply.consumed ≤ input.size
  part : reply.output = whole.extract given (given + reply.output.size)
  fits : reply.output.size ≤ room
  progress : consumed < input.size ∨ given < whole.size →
    reply.ended = true ∨ 0 < reply.consumed ∨ 0 < reply.output.size
  ended : reply.ended = true → complete ∧ given + reply.output.size = whole.size
  stands : reply.ended = false →
    stands reply.state (consumed + reply.consumed) (given + reply.output.size)

/-- A decoder delivers the expansion of an input, whatever room it is given. Between two
calls it stands somewhere in the input and in the expansion. It refuses no complete input. -/
structure StreamDecoder.Delivers (d : StreamDecoder σ) (input whole : ByteArray)
    (complete : Prop) (stands : σ → Nat → Nat → Prop) : Prop where
  start : stands d.start 0 0
  continues : ∀ {s consumed given room reply}, stands s consumed given → 0 < room →
    d.call s (input.extract consumed input.size) room = some reply →
      reply.Continues input whole complete stands consumed given room
  accepts : complete → ∀ {s consumed given room}, stands s consumed given → 0 < room →
    (d.call s (input.extract consumed input.size) room).isSome = true

/-! ### The loop in turns -/

/-- Where the loop stands before a call. -/
structure Loop (σ : Type) where
  state : σ
  consumed : Nat
  held : ByteArray
  capacity : Nat

namespace Loop

section Turns

variable (d : StreamDecoder σ) (input : ByteArray) (limit : Nat)

def start : Loop σ := ⟨d.start, 0, .empty, firstCapacity input.size limit⟩

/-- The call for all of the room there is. -/
def call (l : Loop σ) : Option (Reply σ) :=
  d.call l.state (input.extract l.consumed input.size) (l.capacity - l.held.size)

def after (l : Loop σ) (reply : Reply σ) : Loop σ :=
  let held := l.held ++ reply.output
  ⟨reply.state, l.consumed + reply.consumed, held, nextCapacity held.size l.capacity limit⟩

/-- A turn leads to the next one or to a result. -/
def turn (l : Loop σ) : Loop σ ⊕ Except Error ByteArray :=
  match l.call d input with
  | none => .inr (.error (.invalidFormat .inflate))
  | some reply =>
      let held := l.held ++ reply.output
      if limit < held.size then .inr (.error (.compressionLimitExceeded limit))
      else if reply.ended then .inr (.ok held)
      else if l.consumed + reply.consumed = input.size ∧ held.size < l.capacity then
        .inr (.error (.invalidFormat .inflateTruncated))
      else .inl (l.after limit reply)

/-- Where the loop comes by. -/
def Reached (l : Loop σ) : Prop :=
  Relation.ReflTransGen (fun l next => l.turn d input limit = .inl next) (start d input limit) l

/-- The reply has not ended, and takes the last of the input and leaves room. -/
def Stalls (l : Loop σ) : Prop :=
  ∃ reply, l.call d input = some reply ∧ reply.ended = false ∧
    l.consumed + reply.consumed = input.size ∧ (l.held ++ reply.output).size < l.capacity

end Turns

theorem inflateFrom_succ {l : Loop σ} {fuel : Nat} :
    inflateFrom d input limit l.state l.consumed l.held l.capacity (fuel + 1) =
      match l.turn d input limit with
      | .inl next => inflateFrom d input limit next.state next.consumed next.held next.capacity fuel
      | .inr result => result := by
  rw [inflateFrom, turn, call]
  cases d.call l.state (input.extract l.consumed input.size) (l.capacity - l.held.size) with
  | none => rfl
  | some reply =>
      dsimp only [after]
      split_ifs <;> rfl

/-! ### What a turn keeps -/

/-- A beginning of the expansion is held, and there is room for more, but for no more than
one byte behind the limit. -/
structure Sound (input whole : ByteArray) (limit : Nat) (stands : σ → Nat → Nat → Prop)
    (l : Loop σ) : Prop where
  stands : stands l.state l.consumed l.held.size
  consumed : l.consumed ≤ input.size
  held : l.held = whole.extract 0 l.held.size
  room : l.held.size < l.capacity
  capacity : l.capacity ≤ limit + 1

theorem sound_start (hd : d.Delivers input whole complete stands) :
    Sound input whole limit stands (start d input limit) where
  stands := hd.start
  consumed := Nat.zero_le _
  held := by simp [start]
  room := by
    change 0 < firstCapacity input.size limit
    rw [firstCapacity]
    omega
  capacity := Nat.min_le_right _ _

/-- What is left to be taken, and to be held. -/
def left (input : ByteArray) (limit : Nat) (l : Loop σ) : Nat :=
  input.size - l.consumed + (limit + 1 - l.held.size)

theorem turn_of_call {l next : Loop σ} (hcall : l.call d input = some reply)
    (h : l.turn d input limit = .inl next) :
    next = l.after limit reply ∧ (l.held ++ reply.output).size ≤ limit ∧ reply.ended = false ∧
      ¬ (l.consumed + reply.consumed = input.size ∧
        (l.held ++ reply.output).size < l.capacity) := by
  simp only [turn, hcall] at h
  split_ifs at h with hlimit hended hstall
  exact ⟨(Sum.inl.inj h).symm, Nat.le_of_not_lt hlimit, by simpa using hended, hstall⟩

section Reply

variable {l next : Loop σ} {result : Except Error ByteArray}
  (hd : d.Delivers input whole complete stands) (hl : l.Sound input whole limit stands)
include hd hl

theorem Sound.continues (hcall : l.call d input = some reply) :
    reply.Continues input whole complete stands l.consumed l.held.size
      (l.capacity - l.held.size) :=
  hd.continues hl.stands (Nat.sub_pos_of_lt hl.room) hcall

theorem Sound.held_append (hcall : l.call d input = some reply) :
    l.held ++ reply.output = whole.extract 0 (l.held ++ reply.output).size := by
  have hreply := hl.continues hd hcall
  have happend : whole.extract 0 l.held.size ++
      whole.extract l.held.size (l.held.size + reply.output.size) =
        whole.extract 0 (l.held.size + reply.output.size) := by
    rw [ByteArray.extract_append_extract]
    congr 1
    omega
  rw [ByteArray.size_append, ← happend, ← hl.held, ← hreply.part]

/-- Never is more held than there is room for. -/
theorem Sound.size_append_le (hcall : l.call d input = some reply) :
    (l.held ++ reply.output).size ≤ l.capacity := by
  have hfits := (hl.continues hd hcall).fits
  have hroom := hl.room
  rw [ByteArray.size_append]
  omega

/-- A turn that leads to a next one leaves less. -/
theorem Sound.turn (h : l.turn d input limit = .inl next) :
    next.Sound input whole limit stands ∧ left input limit next < left input limit l := by
  cases hcall : l.call d input with
  | none => simp [Loop.turn, hcall] at h
  | some reply =>
      obtain ⟨rfl, hlimit, hended, hgo⟩ := turn_of_call hcall h
      have hreply := hl.continues hd hcall
      have htaken := hreply.taken
      have hstands := hreply.stands hended
      have hroom := hl.room
      have hconsumed := hl.consumed
      have hheld := hl.held_append hd hcall
      rw [ByteArray.size_append] at hgo hlimit hheld
      -- where nothing is taken and nothing is given the loop gives up
      have hmore : 0 < reply.consumed ∨ 0 < reply.output.size := by
        by_contra hnone
        have hleft : l.consumed < input.size := by omega
        have hprogress := hreply.progress (.inl hleft)
        rw [hended] at hprogress
        simp [hnone] at hprogress
      refine ⟨⟨?_, htaken, ?_, ?_, ?_⟩, ?_⟩
      all_goals simp only [after, left, nextCapacity, ByteArray.size_append]
      · exact hstands
      · exact hheld
      · omega
      · omega
      · omega

/-- What a turn can result in. -/
theorem Sound.settles (h : l.turn d input limit = .inr result) :
    l.Stalls d input ∧ result = .error (.invalidFormat .inflateTruncated) ∨
      complete ∧ whole.size ≤ limit ∧ result = .ok whole ∨
      limit < whole.size ∧ result = .error (.compressionLimitExceeded limit) ∨
      ¬ complete ∧ result = .error (.invalidFormat .inflate) := by
  cases hcall : l.call d input with
  | none =>
      obtain rfl : .error (.invalidFormat .inflate) = result := by
        simpa [Loop.turn, hcall] using h
      refine .inr (.inr (.inr ⟨fun hcomplete => ?_, rfl⟩))
      have haccepts := hd.accepts hcomplete hl.stands (Nat.sub_pos_of_lt hl.room)
      rw [← Loop.call, hcall] at haccepts
      simp at haccepts
  | some reply =>
      have hheld := hl.held_append hd hcall
      have hreply := hl.continues hd hcall
      simp only [Loop.turn, hcall] at h
      split_ifs at h with hlimit hended hstall
      · obtain rfl := Sum.inr.inj h
        refine .inr (.inr (.inl ⟨?_, rfl⟩))
        rw [hheld, ByteArray.size_extract] at hlimit
        omega
      · obtain rfl := Sum.inr.inj h
        obtain ⟨hcomplete, hall⟩ := hreply.ended hended
        rw [ByteArray.size_append, hall] at hlimit hheld
        rw [hheld]
        exact .inr (.inl ⟨hcomplete, Nat.le_of_not_lt hlimit, by simp⟩)
      · obtain rfl := Sum.inr.inj h
        exact .inl ⟨⟨reply, hcall, by simpa using hended, hstall⟩, rfl⟩

omit hd in
/-- A reply that stalls makes the loop give up. -/
theorem Sound.turn_of_stalls (h : l.Stalls d input) :
    l.turn d input limit = .inr (.error (.invalidFormat .inflateTruncated)) := by
  obtain ⟨reply, hcall, hended, hall, hleft⟩ := h
  have hcapacity := hl.capacity
  simp only [Loop.turn, hcall]
  rw [if_neg (by omega), if_neg (by simp [hended]), if_pos ⟨hall, hleft⟩]

end Reply

/-! ### A whole run -/

section Run

variable {l last : Loop σ} (hd : d.Delivers input whole complete stands)
include hd

theorem Reached.sound (h : Reached d input limit l) : l.Sound input whole limit stands := by
  induction h with
  | refl => exact sound_start hd
  | tail _ hturn ih => exact (ih.turn hd hturn).1

/-- With fuel for what is left the loop ends by itself. -/
theorem exists_last {fuel : Nat} (hl : Reached d input limit l) (hfuel : left input limit l < fuel) :
    ∃ last, Reached d input limit last ∧ last.turn d input limit =
      .inr (inflateFrom d input limit l.state l.consumed l.held l.capacity fuel) := by
  induction fuel generalizing l with
  | zero => omega
  | succ fuel ih =>
      rw [inflateFrom_succ]
      cases hturn : l.turn d input limit with
      | inl next =>
          have hless := ((hl.sound hd).turn hd hturn).2
          exact ih (hl.tail hturn) (by omega)
      | inr result => exact ⟨l, hl, hturn⟩

end Run

/-- One turn is the last. -/
theorem Reached.last_unique {l last : Loop σ} {result result' : Except Error ByteArray}
    (h : Reached d input limit l) (hturn : l.turn d input limit = .inr result)
    (h' : Reached d input limit last) (hturn' : last.turn d input limit = .inr result') :
    l = last := by
  have hunique : Relator.RightUnique fun l next => Loop.turn d input limit l = .inl next :=
    fun _ _ _ h h' => Sum.inl.inj (h.symm.trans h')
  have hstuck : ∀ {l last : Loop σ} {result : Except Error ByteArray},
      l.turn d input limit = .inr result →
        Relation.ReflTransGen (fun l next => l.turn d input limit = .inl next) l last →
          l = last := fun hturn h => by
    rcases h.cases_head with heq | ⟨_, hnext, -⟩
    · exact heq
    · simp [hturn] at hnext
  rcases Relation.ReflTransGen.total_of_right_unique hunique h h' with hto | hfrom
  · exact hstuck hturn hto
  · exact (hstuck hturn' hfrom).symm

end Loop

/-! ### What the loop gives -/

/-- An expansion as a whole, or that it is longer than the limit. -/
def wholeWithin (whole : ByteArray) (limit : Nat) : Except Error ByteArray :=
  if whole.size ≤ limit then .ok whole else .error (.compressionLimitExceeded limit)

theorem wholeWithin_ne_truncated (whole : ByteArray) (limit : Nat) :
    wholeWithin whole limit ≠ .error (.invalidFormat .inflateTruncated) := by
  unfold wholeWithin
  split <;> simp

/-- The loop for an input: it ends, and it never holds or reserves more than one byte behind
the limit. If it comes by a reply that stalls, it says that the input is truncated. For a
complete input it gives the expansion as a whole, or says that it is longer than the limit, just
when no reply stalls. For any other input it fails. -/
structure Inflates (d : StreamDecoder σ) (input whole : ByteArray) (complete : Prop)
    (limit : Nat) : Prop where
  ends : ∃ last, Loop.Reached d input limit last ∧
    last.turn d input limit = .inr (inflateWith d input limit)
  bounded : ∀ l, Loop.Reached d input limit l → l.capacity ≤ limit + 1 ∧
    ∀ reply, l.call d input = some reply → (l.held ++ reply.output).size ≤ l.capacity
  stalled : (∃ l, Loop.Reached d input limit l ∧ l.Stalls d input) →
    inflateWith d input limit = .error (.invalidFormat .inflateTruncated)
  settled : complete → (inflateWith d input limit = wholeWithin whole limit ↔
    ∀ l, Loop.Reached d input limit l → ¬ l.Stalls d input)
  incomplete : ¬ complete → ∃ error, inflateWith d input limit = .error error

theorem inflates_of_delivers (hd : d.Delivers input whole complete stands) (limit : Nat) :
    Inflates d input whole complete limit := by
  obtain ⟨last, hlast, hturn⟩ : ∃ last, Loop.Reached d input limit last ∧
      last.turn d input limit = .inr (inflateWith d input limit) := by
    refine Loop.exists_last hd Relation.ReflTransGen.refl ?_
    simp only [Loop.left, Loop.start, ByteArray.size_empty]
    omega
  have hresult := (hlast.sound hd).settles hd hturn
  have hstalled : (∃ l, Loop.Reached d input limit l ∧ l.Stalls d input) →
      inflateWith d input limit = .error (.invalidFormat .inflateTruncated) := by
    rintro ⟨l, hl, hstalls⟩
    have hgives := (hl.sound hd).turn_of_stalls hstalls
    obtain rfl := hl.last_unique hgives hlast hturn
    exact Sum.inr.inj (hturn.symm.trans hgives)
  refine ⟨⟨last, hlast, hturn⟩, fun l hl => ?_, hstalled, fun hcomplete =>
    ⟨fun heq l hl hstalls => ?_, fun hnone => ?_⟩, fun hnot => ?_⟩
  · exact ⟨(hl.sound hd).capacity, fun reply hcall => (hl.sound hd).size_append_le hd hcall⟩
  · rw [hstalled ⟨l, hl, hstalls⟩] at heq
    exact wholeWithin_ne_truncated whole limit heq.symm
  · rcases hresult with ⟨hstalls, -⟩ | ⟨-, hle, heq⟩ | ⟨hlt, heq⟩ | ⟨hnot, -⟩
    · exact absurd hstalls (hnone last hlast)
    · rw [heq, wholeWithin, if_pos hle]
    · rw [heq, wholeWithin, if_neg (by omega)]
    · exact absurd hcomplete hnot
  · rcases hresult with ⟨-, heq⟩ | ⟨hcomplete, -⟩ | ⟨-, heq⟩ | ⟨-, heq⟩
    · exact ⟨_, heq⟩
    · exact absurd hcomplete hnot
    · exact ⟨_, heq⟩
    · exact ⟨_, heq⟩

end SealedToken.Deflate
