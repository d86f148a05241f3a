import SealedToken.Proofs.Deflate.Limit
import SealedToken.Proofs.Deflate.Steps

/-!
An expansion does not depend on the limit it was made under, as long as it fits. A limit
decides how much room a call of the decoder gets; where the output does not fill the room,
more or less of it makes no difference.
-/

namespace SealedToken.Deflate

/-! ### A window -/

namespace Window

variable {w after : Window} {input : ByteArray} {room taken : Nat}

/-- A window is decoded as far as it is given away, and the output reaches as far. -/
structure Sound (w : Window) : Prop where
  given : w.given ≤ w.ready
  ready : w.ready ≤ w.inflater.out.size
  reader : w.inflater.cursor.reader.pos ≤ 8 * w.inflater.cursor.reader.bytes.size

theorem sound_start : decoder.start.Sound := ⟨Nat.le_refl _, Nat.le_refl _, Nat.le_refl _⟩

/-- What a decoding leaves. If it stops short of the end of a window, then all of the input
is taken or the end of everything is reached. -/
structure Decoded (w : Window) (input : ByteArray) (after : Window) (taken : Nat) : Prop where
  sound : after.Sound
  given : after.given = w.given
  le_size : taken ≤ input.size
  ready : taken = input.size ∨ after.inflater.isDone = true ∨
    after.ready = (w.ready / windowSize + 1) * windowSize

theorem le_windowEnd {n : Nat} : n ≤ (n / windowSize + 1) * windowSize := by
  rw [windowSize]
  omega

/-- Steps in the bytes that were there and those of a further input. -/
theorem ran_further {cursor : Cursor} {out : ByteArray} {bound : Nat} {s : Inflater}
    {stop : Option Stop} (hreader : cursor.reader.pos ≤ 8 * cursor.reader.bytes.size)
    (h : Inflater.runTo bound ⟨{ cursor with
      reader := { cursor.reader with bytes := cursor.reader.bytes ++ input } }, out⟩ = (s, stop)) :
    out.size ≤ s.out.size ∧
      s.cursor.reader.bytes.size = cursor.reader.bytes.size + input.size ∧
      s.cursor.reader.pos ≤ 8 * (cursor.reader.bytes.size + input.size) := by
  obtain ⟨⟨hbytes, hpos⟩, hgrown, -⟩ := Inflater.ran_of_runTo h
  dsimp only at hbytes hpos
  rw [ByteArray.size_append] at hpos
  refine ⟨hgrown, ?_, hpos (by omega)⟩
  rw [hbytes, ByteArray.size_append]

theorem decoded_of_decode (hw : w.Sound) (h : w.decode input = some (after, taken)) :
    Decoded w input after taken := by
  obtain ⟨⟨cursor, out⟩, given, ready⟩ := w
  obtain ⟨hgiven, hready, hreader⟩ := hw
  dsimp only at hgiven hready hreader
  have hend := @le_windowEnd ready
  unfold decode at h
  dsimp only at h
  generalize hbound : (ready / windowSize + 1) * windowSize = bound at h hend
  split at h
  · simp at h
  · next s hrun =>
      obtain ⟨rfl, rfl⟩ := Prod.mk.inj (Option.some.inj h)
      obtain ⟨hgrown, hbytes, hpos⟩ := ran_further hreader hrun
      refine ⟨⟨?_, ?_, ?_⟩, rfl, Nat.le_refl _, .inl rfl⟩
      · dsimp only
        omega
      · dsimp only
        omega
      · dsimp only
        omega
  · next cursor' out' hrun =>
      obtain ⟨rfl, rfl⟩ := Prod.mk.inj (Option.some.inj h)
      obtain ⟨hgrown, hbytes, hpos⟩ := ran_further hreader hrun
      dsimp only at hgrown hbytes hpos
      refine ⟨⟨?_, ?_, ?_⟩, rfl, ?_, ?_⟩
      · dsimp only
        omega
      · dsimp only
        omega
      · dsimp only
        rw [ByteArray.size_extract]
        omega
      · omega
      · rcases (Inflater.ran_of_runTo hrun).stopped rfl with hdone | hfull
        · exact .inr (.inl hdone)
        · exact .inr (.inr ((Nat.min_eq_left hfull).trans hbound.symm))

/-- The rest of a window is given away. -/
def emptied (w : Window) : Window × ByteArray :=
  ({ w with given := w.ready }, w.inflater.out.extract w.given w.ready)

theorem size_emptied (hw : w.Sound) : w.emptied.2.size = w.ready - w.given := by
  have hready := hw.ready
  rw [emptied, ByteArray.size_extract, Nat.min_eq_left hready]

theorem sound_emptied (hw : w.Sound) : w.emptied.1.Sound := ⟨Nat.le_refl _, hw.ready, hw.reader⟩

theorem isEmpty_emptied : w.emptied.1.isEmpty = true := by simp [emptied, isEmpty]

theorem isEnded_emptied : w.emptied.1.isEnded = w.inflater.isDone := by
  rw [isEnded, isEmpty_emptied, Bool.and_true]
  rfl

theorem Sound.given_eq (hw : w.Sound) (hempty : w.isEmpty = true) : w.given = w.ready :=
  Nat.le_antisymm hw.given (of_decide_eq_true hempty)

theorem sound_give (hw : w.Sound) : (w.give room).1.Sound :=
  ⟨Nat.min_le_left _ _, hw.ready, hw.reader⟩

theorem size_give (hw : w.Sound) : (w.give room).2.size = min (w.ready - w.given) room := by
  obtain ⟨hgiven, hready, -⟩ := hw
  rw [give, ByteArray.size_extract]
  omega

/-- Where room is left, nothing is left of the window. -/
theorem give_of_size_lt (hw : w.Sound) (h : (w.give room).2.size < room) :
    w.give room = w.emptied := by
  rw [size_give hw] at h
  have hall : min w.ready (w.given + room) = w.ready := by omega
  rw [give, hall, emptied]

theorem give_of_lt (hw : w.Sound) (h : w.ready - w.given < room) : w.give room = w.emptied := by
  refine give_of_size_lt hw ?_
  rw [size_give hw]
  omega

/-! ### Windows -/

variable {consumed windows : Nat} {output : ByteArray} {reply : Reply Window}

theorem size_le_of_decodeAll (h : w.decodeAll input room consumed output windows = some reply) :
    output.size ≤ reply.output.size := by
  induction windows generalizing w room consumed output with
  | zero =>
      obtain rfl := Option.some.inj h
      exact Nat.le_refl _
  | succ windows ih =>
      simp only [decodeAll, Option.bind_eq_bind, Option.bind_eq_some_iff] at h
      obtain ⟨⟨d, taken⟩, -, h⟩ := h
      dsimp only at h
      split at h
      · obtain rfl := Option.some.inj h
        simp [ByteArray.size_append]
      · have hrest := ih h
        rw [ByteArray.size_append] at hrest
        omega

theorem size_give_le_of_decodeAll {d : Window}
    (hdecode : w.decode (input.extract consumed input.size) = some (d, taken))
    (h : w.decodeAll input room consumed output (windows + 1) = some reply) :
    output.size + (d.give room).2.size ≤ reply.output.size := by
  rw [decodeAll, hdecode] at h
  simp only [Option.bind_eq_bind, Option.bind_some] at h
  rw [← ByteArray.size_append]
  split at h
  · obtain rfl := Option.some.inj h
    exact Nat.le_refl _
  · exact size_le_of_decodeAll h

/-- A window for which there is room is given away to its end. -/
theorem decodeAll_succ {d : Window} (hd : d.Sound) (hroom : d.ready - d.given < room)
    (hdecode : w.decode (input.extract consumed input.size) = some (d, taken)) :
    w.decodeAll input room consumed output (windows + 1) =
      if d.emptied.1.isEnded ∨ consumed + taken = input.size then
        some ⟨d.emptied.1, consumed + taken, output ++ d.emptied.2, d.emptied.1.isEnded⟩
      else d.emptied.1.decodeAll input (room - (d.ready - d.given)) (consumed + taken)
        (output ++ d.emptied.2) windows := by
  have hleft : room - (d.ready - d.given) ≠ 0 := by omega
  rw [decodeAll, hdecode]
  simp only [Option.bind_eq_bind, Option.bind_some, give_of_lt hd hroom]
  simp only [isEmpty_emptied, size_emptied hd, hleft, not_true_eq_false, or_false]

/-- Where the output leaves room, more or less of it makes no difference. The number of windows
is no bound then: each behind the first one takes up a whole window of the room. -/
theorem decodeAll_congr {room' windows' : Nat} (hw : w.Sound) (hempty : w.isEmpty = true)
    (hconsumed : consumed ≤ input.size)
    (hwindows : room + w.ready % windowSize < windows * windowSize)
    (hwindows' : room' + w.ready % windowSize < windows' * windowSize)
    (h : w.decodeAll input room consumed output windows = some reply)
    (hroom : reply.output.size < output.size + room)
    (hroom' : reply.output.size < output.size + room') :
    w.decodeAll input room' consumed output windows' = some reply := by
  induction windows generalizing w room room' consumed output windows' with
  | zero => simp at hwindows
  | succ windows ih =>
      obtain ⟨windows', rfl⟩ : ∃ k, windows' = k + 1 :=
        ⟨windows' - 1, by cases windows' <;> simp at hwindows' ⊢⟩
      cases hdecode : w.decode (input.extract consumed input.size) with
      | none => simp [decodeAll, hdecode] at h
      | some decoded =>
          obtain ⟨d, taken⟩ := decoded
          obtain ⟨hd, hgiven, htaken, hready⟩ := decoded_of_decode hw hdecode
          have hsize := size_give_le_of_decodeAll hdecode h
          rw [size_give hd] at hsize
          rw [decodeAll_succ hd (by omega) hdecode] at h
          rw [decodeAll_succ hd (by omega) hdecode]
          split at h
          · next hstop => rwa [if_pos hstop]
          · next hgo =>
              rw [if_neg hgo]
              rw [ByteArray.size_extract] at htaken hready
              -- the decoding has stopped at the end of the window
              have hend : d.ready = (w.ready / windowSize + 1) * windowSize := by
                rcases hready with hall | hdone | hend
                · exact absurd (.inr (by omega)) hgo
                · exact absurd (.inl (isEnded_emptied.trans hdone)) hgo
                · exact hend
              have hlast := hw.given_eq hempty
              have hready' : d.emptied.1.ready = d.ready := rfl
              rw [windowSize] at *
              refine ih (sound_emptied hd) isEmpty_emptied (by omega) ?_ ?_ h ?_ ?_
              · omega
              · omega
              · rw [ByteArray.size_append, size_emptied hd]
                omega
              · rw [ByteArray.size_append, size_emptied hd]
                omega

theorem sound_of_decodeAll (hw : w.Sound) (hconsumed : consumed ≤ input.size)
    (h : w.decodeAll input room consumed output windows = some reply) :
    reply.state.Sound ∧ reply.consumed ≤ input.size := by
  induction windows generalizing w room consumed output with
  | zero =>
      obtain rfl := Option.some.inj h
      exact ⟨hw, hconsumed⟩
  | succ windows ih =>
      simp only [decodeAll, Option.bind_eq_bind, Option.bind_eq_some_iff] at h
      obtain ⟨⟨d, taken⟩, hdecode, h⟩ := h
      obtain ⟨hd, -, htaken, -⟩ := decoded_of_decode hw hdecode
      rw [ByteArray.size_extract] at htaken
      dsimp only at h
      split at h
      · obtain rfl := Option.some.inj h
        refine ⟨sound_give hd, ?_⟩
        dsimp only
        omega
      · exact ih (sound_give hd) (by omega) h

/-! ### A call -/

/-- What a call leaves. With room it takes all of the input, gives something or ends. -/
structure Replied (input : ByteArray) (room : Nat) (reply : Reply Window) : Prop where
  sound : reply.state.Sound
  le_size : reply.consumed ≤ input.size
  progress : 0 < room →
    reply.ended = true ∨ reply.consumed = input.size ∨ 0 < reply.output.size

theorem progress_of_decodeAll (hw : w.Sound) (hempty : w.isEmpty = true) (hroom : 0 < room)
    (h : w.decodeAll input room 0 .empty (windows + 1) = some reply) :
    reply.ended = true ∨ reply.consumed = input.size ∨ 0 < reply.output.size := by
  cases hdecode : w.decode (input.extract 0 input.size) with
  | none =>
      rw [decodeAll, hdecode] at h
      simp at h
  | some decoded =>
      obtain ⟨d, taken⟩ := decoded
      obtain ⟨hd, hgiven, -, hready⟩ := decoded_of_decode hw hdecode
      have hsize := size_give_le_of_decodeAll hdecode h
      rw [size_give hd, ByteArray.size_empty] at hsize
      have hlast := hw.given_eq hempty
      by_cases hnone : d.ready - d.given = 0
      · rw [decodeAll_succ hd (by omega) hdecode] at h
        have hstop : d.emptied.1.isEnded = true ∨ 0 + taken = input.size := by
          rcases hready with hall | hdone | hend
          · rw [ByteArray.size_extract] at hall
            exact .inr (by omega)
          · exact .inl (isEnded_emptied.trans hdone)
          · rw [windowSize] at hend
            omega
        rw [if_pos hstop] at h
        obtain rfl := Option.some.inj h
        exact hstop.imp_right .inl
      · exact .inr (.inr (by omega))

theorem call_of_isEmpty (h : w.isEmpty = true) :
    w.call input room = w.decodeAll input room 0 .empty (room / windowSize + 2) := by
  rw [call, if_pos h]

theorem call_of_not_isEmpty (h : ¬ w.isEmpty = true) :
    w.call input room =
      some ⟨(w.give room).1, 0, (w.give room).2, (w.give room).1.isEnded⟩ := by
  rw [call, if_neg h]

theorem replied_of_call (hw : w.Sound) (h : w.call input room = some reply) :
    Replied input room reply := by
  by_cases hempty : w.isEmpty = true
  · rw [call_of_isEmpty hempty] at h
    obtain ⟨hsound, hconsumed⟩ := sound_of_decodeAll hw (Nat.zero_le _) h
    exact ⟨hsound, hconsumed, fun hroom => progress_of_decodeAll hw hempty hroom h⟩
  · rw [call_of_not_isEmpty hempty] at h
    have hleft : ¬ w.ready ≤ w.given := by simpa [isEmpty] using hempty
    have hsize := @size_give w room hw
    obtain rfl := Option.some.inj h
    refine ⟨sound_give hw, Nat.zero_le _, fun hroom => .inr (.inr ?_)⟩
    dsimp only
    omega

/-- A call that does not fill the room is the same with more or less of it. -/
theorem call_congr {room' : Nat} (hw : w.Sound) (h : w.call input room = some reply)
    (hroom : reply.output.size < room) (hroom' : reply.output.size < room') :
    w.call input room' = some reply := by
  by_cases hempty : w.isEmpty = true
  · rw [call_of_isEmpty hempty] at h ⊢
    refine decodeAll_congr hw hempty (Nat.zero_le _) ?_ ?_ h ?_ ?_
    · rw [windowSize]
      omega
    · rw [windowSize]
      omega
    · rwa [ByteArray.size_empty, Nat.zero_add]
    · rwa [ByteArray.size_empty, Nat.zero_add]
  · rw [call_of_not_isEmpty hempty] at h ⊢
    have houtput : reply.output = (w.give room).2 := by rw [← Option.some.inj h]
    rw [houtput] at hroom hroom'
    have hsame := give_of_size_lt hw hroom
    rw [hsame, size_emptied hw] at hroom'
    rwa [give_of_lt hw hroom', ← hsame]

end Window

/-! ### The whole expansion -/

section

variable {input output held : ByteArray} {w : Window} {limit limit' consumed capacity : Nat}

theorem size_le_of_inflateFrom {σ : Type} {d : StreamDecoder σ} {s : σ} {fuel : Nat}
    (h : inflateFrom d input limit s consumed held capacity fuel = .ok output) :
    held.size ≤ output.size := by
  induction fuel generalizing s consumed held capacity with
  | zero => simp [inflateFrom] at h
  | succ fuel ih =>
      rw [inflateFrom] at h
      split at h
      · simp at h
      · next reply hreply =>
          dsimp only at h
          obtain ⟨-, h⟩ := ite_error_eq_ok.1 h
          split at h
          · obtain rfl := Except.ok.inj h
            rw [ByteArray.size_append]
            exact Nat.le_add_right _ _
          · obtain ⟨-, h⟩ := ite_error_eq_ok.1 h
            have hrest := ih h
            rw [ByteArray.size_append] at hrest
            exact Nat.le_trans (Nat.le_add_right _ _) hrest

/-- The capacity leaves room, and is the same under two limits until it is more than the
expansion needs. -/
structure Interchangeable (size held capacity capacity' : Nat) : Prop where
  room : held < capacity
  room' : held < capacity'
  same : capacity = capacity' ∨ size < capacity ∧ size < capacity'

namespace Interchangeable

variable {size n more capacity' : Nat} (h : Interchangeable size n capacity capacity')
include h

theorem next (hmore : more ≤ size) (hlimit : size ≤ limit) (hlimit' : size ≤ limit') :
    Interchangeable size more (nextCapacity more capacity limit)
      (nextCapacity more capacity' limit') := by
  obtain ⟨hroom, hroom', hsame⟩ := h
  unfold nextCapacity
  exact ⟨by omega, by omega, by omega⟩

theorem lt_iff (hmore : more ≤ size) : more < capacity ↔ more < capacity' := by
  have hsame := h.same
  omega

theorem call {reply : Reply Window} (hw : w.Sound)
    (hcall : w.call input (capacity - n) = some reply) (hsize : n + reply.output.size ≤ size) :
    w.call input (capacity' - n) = some reply := by
  rcases h.same with hsame | ⟨hlarge, hlarge'⟩
  · rwa [← hsame]
  · exact Window.call_congr hw hcall (by omega) (by omega)

end Interchangeable

/-- The same calls give the same under both limits. -/
theorem inflateFrom_congr {capacity' fuel fuel' : Nat} (hw : w.Sound)
    (hconsumed : consumed ≤ input.size)
    (hcap : Interchangeable output.size held.size capacity capacity')
    (hlimit' : output.size ≤ limit') (hfuel : output.size - held.size < fuel')
    (h : inflateFrom decoder input limit w consumed held capacity fuel = .ok output) :
    inflateFrom decoder input limit' w consumed held capacity' fuel' = .ok output := by
  induction fuel generalizing w consumed held capacity capacity' fuel' with
  | zero => simp [inflateFrom] at h
  | succ fuel ih =>
      obtain ⟨fuel', rfl⟩ : ∃ k, fuel' = k + 1 := ⟨fuel' - 1, by omega⟩
      have hlimit := inflateFrom_size_le h
      rw [inflateFrom] at h ⊢
      cases hcall : decoder.call w (input.extract consumed input.size) (capacity - held.size) with
      | none => simp [hcall] at h
      | some reply =>
          obtain ⟨hsound, htaken, hprogress⟩ := Window.replied_of_call hw hcall
          rw [ByteArray.size_extract] at htaken hprogress
          simp only [hcall] at h
          obtain ⟨-, h⟩ := ite_error_eq_ok.1 h
          have hsize : (held ++ reply.output).size ≤ output.size := by
            split at h
            · obtain rfl := Except.ok.inj h
              exact Nat.le_refl _
            · exact size_le_of_inflateFrom (ite_error_eq_ok.1 h).2
          have hheld := hsize
          rw [ByteArray.size_append] at hheld
          have hcall' : decoder.call w (input.extract consumed input.size)
              (capacity' - held.size) = some reply := hcap.call hw hcall hheld
          simp only [hcall']
          rw [if_neg (by omega)]
          split at h
          · next hended => rwa [if_pos hended]
          · next hended =>
              rw [if_neg hended]
              obtain ⟨hgo, h⟩ := ite_error_eq_ok.1 h
              have hgo' := hgo
              rw [hcap.lt_iff hsize] at hgo'
              rw [if_neg hgo']
              -- every call that is not the last one has given something
              have hgiven : 0 < reply.output.size := by
                have hroom := hcap.room
                rcases hprogress (by omega) with hlast | hall | hgiven
                · exact absurd hlast hended
                · have hfull : ¬ (held ++ reply.output).size < capacity :=
                    fun hlt => hgo ⟨by omega, hlt⟩
                  rw [ByteArray.size_append] at hfull
                  omega
                · exact hgiven
              refine ih hsound (by omega) (hcap.next hsize hlimit hlimit') ?_ h
              rw [ByteArray.size_append]
              omega

end

/-- What can be expanded under one limit can be expanded under every other one that the
expansion does not exceed, to the same. -/
theorem inflate_of_size_le {input output : ByteArray} {limit limit' : Nat}
    (h : inflate input limit = .ok output) (hsize : output.size ≤ limit') :
    inflate input limit' = .ok output := by
  have hlimit := inflate_size_le h
  refine inflateFrom_congr Window.sound_start (Nat.zero_le _) ⟨?_, ?_, ?_⟩ hsize ?_ h
  · rw [firstCapacity, ByteArray.size_empty]
    omega
  · rw [firstCapacity, ByteArray.size_empty]
    omega
  · rw [firstCapacity, firstCapacity]
    omega
  · rw [ByteArray.size_empty]
    omega

end SealedToken.Deflate
