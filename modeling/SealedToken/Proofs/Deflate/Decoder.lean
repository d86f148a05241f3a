import SealedToken.Proofs.Deflate.Delivery
import SealedToken.Proofs.Deflate.Expansion
import SealedToken.Proofs.Deflate.Window

/-!
The decoder in windows delivers what its input expands to, whatever room it is given. It
stalls only at the end of a window, when more is to come.
-/

namespace SealedToken.Deflate

open Inflater

namespace Window

variable {w after : Window} {input : ByteArray} {consumed given room taken : Nat}
  {reply : Reply Window}

/-! ### Between two calls -/

/-- The steps that were taken, as steps in all of the input. -/
def whole (input : ByteArray) (w : Window) : Inflater :=
  { w.inflater with
    cursor := { w.inflater.cursor with
      reader := { w.inflater.cursor.reader with bytes := input } } }

/-- A window where steps in all of the input have come by, when a part of it is taken. -/
def ofWhole (input : ByteArray) (s : Inflater) (taken given ready : Nat) : Window :=
  ⟨{ s with cursor := { s.cursor with
      reader := { s.cursor.reader with bytes := input.extract 0 taken } } }, given, ready⟩

theorem whole_ofWhole {s : Inflater} {ready : Nat} (h : s.cursor.reader.bytes = input) :
    (ofWhole input s taken given ready).whole input = s := by
  subst h
  rfl

/-- All of the input is taken, and more is needed for the next step. -/
structure Starved (input : ByteArray) (w : Window) (consumed : Nat) : Prop where
  whole : (w.whole input).Starved
  ready : w.ready = w.inflater.out.size
  all : consumed = input.size

/-- A part of the input is taken, and a part of the output is given away. -/
structure Stands (input : ByteArray) (w : Window) (consumed given : Nat) : Prop where
  sound : w.Sound
  le_size : consumed ≤ input.size
  given_eq : w.given = given
  bytes : w.inflater.cursor.reader.bytes = input.extract 0 consumed
  taken : consumed ≤ (w.inflater.cursor.reader.pos + 7) / 8 ∨ Starved input w consumed
  steps : Steps (start input) (w.whole input)

theorem stands_start : Stands input decoder.start 0 0 where
  sound := sound_start
  le_size := Nat.zero_le _
  given_eq := rfl
  bytes := by simp [decoder]
  taken := .inl (Nat.zero_le _)
  steps := .refl

/-- Where the current window ends. -/
def windowEnd (w : Window) : Nat := (w.ready / windowSize + 1) * windowSize

theorem ready_lt_windowEnd : w.ready < w.windowEnd := by
  rw [windowEnd, windowSize]
  omega

theorem dvd_windowEnd : windowSize ∣ w.windowEnd := Nat.dvd_mul_left _ _

theorem Stands.pos_le (h : Stands input w consumed given) :
    (w.whole input).cursor.reader.pos ≤ 8 * input.size :=
  (goesOn_of_steps h.steps).pos (Nat.zero_le _)

theorem Stands.given_le (h : Stands input w consumed given) :
    given ≤ (w.whole input).out.size :=
  h.given_eq ▸ Nat.le_trans h.sound.given h.sound.ready

/-- A decoding is a run in all of the input. -/
theorem Stands.decode_eq (h : Stands input w consumed given) :
    w.decode (input.extract consumed input.size) =
      match runTo w.windowEnd (w.whole input) with
      | (_, some .fault) => none
      | (s, some .short) =>
          some (ofWhole input s input.size given (min w.windowEnd s.out.size), input.size - consumed)
      | (s, none) =>
          let taken := (s.cursor.reader.pos + 7) / 8
          some (ofWhole input s taken given (min w.windowEnd s.out.size), taken - consumed) := by
  have hinput : w.inflater.cursor.reader.bytes ++ input.extract consumed input.size = input := by
    rw [h.bytes, ByteArray.extract_append_extract]
    simp
  have hsize : w.inflater.cursor.reader.bytes.size = consumed := by
    have hle := h.le_size
    rw [h.bytes, ByteArray.size_extract]
    omega
  have hrest : (input.extract consumed input.size).size = input.size - consumed := by simp
  have hgoes := goesOn_of_steps (stopped_runTo w.windowEnd h.pos_le).steps
  obtain ⟨⟨cursor, out⟩, given', ready⟩ := w
  obtain rfl := h.given_eq
  unfold decode
  dsimp only at hinput hsize ⊢
  rw [hinput, hsize, hrest]
  simp only [windowEnd, whole] at hgoes ⊢
  generalize runTo _ _ = run at hgoes ⊢
  obtain ⟨⟨cursor', out'⟩, stop⟩ := run
  obtain rfl : cursor'.reader.bytes = input := hgoes.bytes
  cases stop with
  | none => rfl
  | some why =>
      cases why with
      | fault => rfl
      | short => simp [ofWhole]

theorem Starved.runTo (h : Starved input w consumed) :
    runTo w.windowEnd (w.whole input) = (w.whole input, some .short) := by
  have hfull : (w.whole input).isFull w.windowEnd = false := by
    by_contra hfull
    have hle : w.windowEnd ≤ w.inflater.out.size :=
      le_size_of_isFull (Bool.not_eq_false _ ▸ hfull)
    have hlt := @ready_lt_windowEnd w
    rw [h.ready] at hlt
    omega
  rw [Inflater.runTo, run_succ h.whole.1 hfull, h.whole.2]

/-- What a decoding leaves: a window that was decoded further, or stands at the end of all. -/
structure Decodes (input : ByteArray) (w after : Window) (consumed given : Nat) : Prop where
  stands : Stands input after consumed given
  steps : Steps (w.whole input) (after.whole input)
  ready : after.inflater.isDone = true ∧ after.ready = after.inflater.out.size ∨
    after.inflater.isDone = false ∧ after.ready = w.windowEnd ∧
      after.inflater.isFull after.ready = true ∨
    after.inflater.isDone = false ∧ Starved input after consumed

section Decode

variable {s : Inflater} {ready : Nat}

/-- Further steps in all of the input lead to a window again. -/
theorem Stands.ofWhole (h : Stands input w consumed given) (hsteps : Steps (w.whole input) s)
    (hsound : (ofWhole input s taken given ready).Sound) (hle : taken ≤ input.size)
    (htaken : taken ≤ (s.cursor.reader.pos + 7) / 8 ∨
      Starved input (ofWhole input s taken given ready) taken) :
    Stands input (ofWhole input s taken given ready) taken given ∧
      Steps (w.whole input) ((ofWhole input s taken given ready).whole input) := by
  have hbytes : s.cursor.reader.bytes = input := (goesOn_of_steps hsteps).bytes
  have hwhole : Steps (w.whole input) ((Window.ofWhole input s taken given ready).whole input) := by
    rwa [whole_ofWhole hbytes]
  exact ⟨⟨hsound, hle, rfl, rfl, htaken, h.steps.trans hwhole⟩, hwhole⟩

/-- What was taken before is a part of what a run reads that is not starved. -/
theorem Stands.le_taken (h : Stands input w consumed given)
    (hrun : runTo w.windowEnd (w.whole input) = (s, none)) :
    consumed ≤ (s.cursor.reader.pos + 7) / 8 := by
  have hsteps := (stopped_runTo w.windowEnd h.pos_le).steps
  rw [hrun] at hsteps
  rcases h.taken with htaken | hstarved
  · have hmore := le_pos_of_steps hsteps
    change w.inflater.cursor.reader.pos ≤ s.cursor.reader.pos at hmore
    omega
  · rw [hstarved.runTo] at hrun
    simp at hrun

theorem Stands.decode (h : Stands input w consumed given) (hopen : w.inflater.isDone = false)
    (hdecode : w.decode (input.extract consumed input.size) = some (after, taken)) :
    Decodes input w after (consumed + taken) given := by
  have hstopped := stopped_runTo w.windowEnd h.pos_le
  have hle := h.le_size
  have hsound := (decoded_of_decode h.sound hdecode).sound
  rw [h.decode_eq] at hdecode
  rcases hrun : runTo w.windowEnd (w.whole input) with ⟨s, stop⟩
  rw [hrun] at hdecode hstopped
  cases stop with
  | none =>
      obtain ⟨rfl, rfl⟩ := Prod.mk.inj (Option.some.inj hdecode)
      have hpos : s.cursor.reader.pos ≤ 8 * input.size :=
        (goesOn_of_steps hstopped.steps).pos h.pos_le
      rw [Nat.add_sub_cancel' (h.le_taken hrun)]
      obtain ⟨hstands, hsteps⟩ :=
        h.ofWhole hstopped.steps hsound (by omega) (.inl (Nat.le_refl _))
      refine ⟨hstands, hsteps, ?_⟩
      change s.isDone = true ∧ min w.windowEnd s.out.size = s.out.size ∨ _
      cases hdone : s.isDone with
      | true => exact .inl ⟨rfl, Nat.min_eq_right (hstopped.within hopen hdone)⟩
      | false =>
          have hfull : s.isFull w.windowEnd = true := by simpa [hdone] using hstopped.ended rfl
          have hready := Nat.min_eq_left (le_size_of_isFull hfull)
          refine .inr (.inl ⟨hdone, hready, ?_⟩)
          change s.isFull (min w.windowEnd s.out.size) = true
          rwa [hready]
  | some why =>
      obtain ⟨hdone, hfull, hnext⟩ := hstopped.failed why rfl
      cases why with
      | fault => simp at hdecode
      | short =>
          obtain ⟨rfl, rfl⟩ := Prod.mk.inj (Option.some.inj hdecode)
          rw [Nat.add_sub_cancel' hle]
          have hbytes : s.cursor.reader.bytes = input := (goesOn_of_steps hstopped.steps).bytes
          have hstarved : Starved input (Window.ofWhole input s input.size given
              (min w.windowEnd s.out.size)) input.size := by
            refine ⟨?_, Nat.min_eq_right (size_le_of_not_full hfull), rfl⟩
            rw [whole_ofWhole hbytes]
            exact starved_of_next hdone hfull hnext
          obtain ⟨hstands, hsteps⟩ :=
            h.ofWhole hstopped.steps hsound (Nat.le_refl _) (.inr hstarved)
          exact ⟨hstands, hsteps, .inr (.inr ⟨hdone, hstarved⟩)⟩

end Decode

/-! ### A call -/

/-- Why a window is not decoded further: the end of everything is reached, or that of the
window, or there is nothing left to read. -/
inductive Halted (input : ByteArray) (w : Window) (consumed : Nat) : Prop
  | done (h : w.inflater.isDone = true) (ready : w.ready = w.inflater.out.size)
  | full (h : w.inflater.isDone = false) (dvd : windowSize ∣ w.ready) (pos : 0 < w.ready)
      (isFull : w.inflater.isFull w.ready = true)
  | starved (h : w.inflater.isDone = false) (starved : Starved input w consumed)

theorem Decodes.halted (h : Decodes input w after consumed given) : Halted input after consumed := by
  rcases h.ready with ⟨hdone, hready⟩ | ⟨hdone, hready, hfull⟩ | ⟨hdone, hstarved⟩
  · exact .done hdone hready
  · refine .full hdone ?_ ?_ hfull
    · rw [hready]
      exact dvd_windowEnd
    · rw [hready]
      exact Nat.zero_lt_of_lt ready_lt_windowEnd
  · exact .starved hdone hstarved

theorem Halted.ready_of_done (h : Halted input w consumed) (hdone : w.inflater.isDone = true) :
    w.ready = w.inflater.out.size := by
  cases h with
  | done _ hready => exact hready
  | full hopen => simp [hopen] at hdone
  | starved hopen => simp [hopen] at hdone

theorem Starved.give (h : Starved input w consumed) : Starved input (w.give room).1 consumed :=
  ⟨h.whole, h.ready, h.all⟩

theorem Halted.give (h : Halted input w consumed) : Halted input (w.give room).1 consumed := by
  cases h with
  | done hdone hready => exact .done hdone hready
  | full hdone hdvd hpos hfull => exact .full hdone hdvd hpos hfull
  | starved hdone hstarved => exact .starved hdone hstarved.give

/-- A window was decoded further, if there was anything to decode. -/
def Grown (input : ByteArray) (ready : Nat) (w : Window) (consumed : Nat) : Prop :=
  w.inflater.isDone = true ∨ Starved input w consumed ∨ ready < w.ready

theorem Decodes.grown (h : Decodes input w after consumed given) :
    Grown input w.ready after consumed := by
  rcases h.ready with ⟨hdone, -⟩ | ⟨-, hready, -⟩ | ⟨-, hstarved⟩
  · exact .inl hdone
  · exact .inr (.inr (hready ▸ ready_lt_windowEnd))
  · exact .inr (.inl hstarved)

theorem Decodes.le_ready (hw : w.Sound) (h : Decodes input w after consumed given) :
    w.ready ≤ after.ready := by
  have hout := size_out_le h.steps
  change w.inflater.out.size ≤ after.inflater.out.size at hout
  have hle := Nat.le_trans hw.ready hout
  rcases h.ready with ⟨-, hready⟩ | ⟨-, hready, -⟩ | ⟨-, hstarved⟩
  · rwa [hready]
  · exact hready ▸ Nat.le_of_lt ready_lt_windowEnd
  · rwa [hstarved.ready]

theorem Grown.of_le {ready ready' : Nat} (h : Grown input ready' w consumed) (hle : ready ≤ ready') :
    Grown input ready w consumed :=
  h.imp_right (.imp_right (Nat.lt_of_le_of_lt hle))

theorem Grown.give {ready : Nat} (h : Grown input ready w consumed) :
    Grown input ready (w.give room).1 consumed :=
  h.imp_right (.imp_left Starved.give)

/-- Part of the window is given away. -/
theorem Stands.give (h : Stands input w consumed given) :
    Stands input (w.give room).1 consumed (given + (w.give room).2.size) ∧
      (w.give room).2 = w.inflater.out.extract given (given + (w.give room).2.size) := by
  have hgiven : (w.give room).1.given = given + (w.give room).2.size := by
    have hle := h.sound.given
    rw [size_give h.sound, ← h.given_eq]
    change min w.ready (w.given + room) = _
    omega
  refine ⟨⟨sound_give h.sound, h.le_size, hgiven, h.bytes, ?_, h.steps⟩, ?_⟩
  · exact h.taken.imp_right Starved.give
  · rw [← hgiven, ← h.given_eq]
    rfl

/-- What is left of a window and given away, when part of the output is given. -/
structure Answers (input : ByteArray) (w : Window) (given room : Nat) (after : Window)
    (consumed : Nat) (output : ByteArray) (last : Bool) : Prop where
  stands : Stands input after consumed (given + output.size)
  halted : Halted input after consumed
  steps : Steps (w.whole input) (after.whole input)
  part : output = after.inflater.out.extract given (given + output.size)
  fits : output.size ≤ room
  last_eq : last = after.isEnded
  emptied : output.size < room → after.isEmpty = true

theorem answers_give (h : Stands input after consumed given) (hhalted : Halted input after consumed)
    (hsteps : Steps (w.whole input) (after.whole input)) :
    Answers input w given room (after.give room).1 consumed (after.give room).2
      (after.give room).1.isEnded where
  stands := h.give.1
  halted := hhalted.give
  steps := hsteps
  part := h.give.2
  fits := by
    rw [size_give h.sound]
    exact Nat.min_le_right _ _
  last_eq := rfl
  emptied hlt := by
    rw [give_of_size_lt h.sound hlt]
    exact isEmpty_emptied

/-- An answer behind another one. -/
theorem Answers.append {w' w'' : Window} {consumed' : Nat} {part rest : ByteArray} {last last' : Bool}
    (h : Answers input w given room w' consumed part last)
    (h' : Answers input w' (given + part.size) (room - part.size) w'' consumed' rest last') :
    Answers input w given room w'' consumed' (part ++ rest) last' where
  stands := by
    rw [ByteArray.size_append, ← Nat.add_assoc]
    exact h'.stands
  halted := h'.halted
  steps := h.steps.trans h'.steps
  part := by
    have hpart : part = w''.inflater.out.extract given (given + part.size) :=
      h.part.trans (extract_out h'.steps h.stands.given_le).symm
    have hrest := h'.part
    rw [ByteArray.size_append]
    calc part ++ rest
        = w''.inflater.out.extract given (given + part.size) ++
            w''.inflater.out.extract (given + part.size) (given + part.size + rest.size) := by
          rw [← hpart, ← hrest]
      _ = w''.inflater.out.extract given (given + (part.size + rest.size)) := by
          rw [ByteArray.extract_append_extract]
          congr 1 <;> omega
  fits := by
    have hfits := h.fits
    have hfits' := h'.fits
    rw [ByteArray.size_append]
    omega
  last_eq := h'.last_eq
  emptied hlt := by
    rw [ByteArray.size_append] at hlt
    exact h'.emptied (by omega)

section DecodeAll

variable {c windows : Nat} {output : ByteArray}

theorem extract_rest :
    (input.extract c input.size).extract consumed (input.extract c input.size).size =
      input.extract (c + consumed) input.size := by
  rw [ByteArray.extract_extract, ByteArray.size_extract]
  congr 1
  omega

/-- Once a window is decoded and given away, that is all, or the next one follows. -/
theorem decodeAll_of_decode {d : Window}
    (hdecode : w.decode (input.extract (c + consumed) input.size) = some (d, taken)) :
    ∃ more, (more = 0 ∨ more = windows ∧ (d.give room).1.inflater.isDone = false) ∧
      w.decodeAll (input.extract c input.size) room consumed output (windows + 1) =
        (d.give room).1.decodeAll (input.extract c input.size) (room - (d.give room).2.size)
          (consumed + taken) (output ++ (d.give room).2) more := by
  rw [decodeAll, extract_rest, hdecode]
  simp only [Option.bind_eq_bind, Option.bind_some]
  split
  · exact ⟨0, .inl rfl, rfl⟩
  · next hgo =>
      have hempty : (d.give room).1.isEmpty = true := by
        by_contra hleft
        exact hgo (.inr (.inr (.inr hleft)))
      refine ⟨windows, .inr ⟨rfl, ?_⟩, rfl⟩
      by_contra hdone
      exact hgo (.inl (by simpa [isEnded, hempty] using hdone))

theorem exists_decode_of_decodeAll
    (h : w.decodeAll (input.extract c input.size) room consumed output (windows + 1) = some reply) :
    ∃ d taken, w.decode (input.extract (c + consumed) input.size) = some (d, taken) := by
  rw [decodeAll, extract_rest] at h
  simp only [Option.bind_eq_bind, Option.bind_eq_some_iff] at h
  obtain ⟨⟨d, taken⟩, hdecode, -⟩ := h
  exact ⟨d, taken, hdecode⟩

theorem Stands.decodeAll (h : Stands input w (c + consumed) given)
    (hopen : w.inflater.isDone = false)
    (hall : w.decodeAll (input.extract c input.size) room consumed output (windows + 1) =
      some reply) :
    Grown input w.ready reply.state (c + reply.consumed) ∧
      ∃ more, reply.output = output ++ more ∧
        Answers input w given room reply.state (c + reply.consumed) more reply.ended := by
  induction windows using Nat.strongRecOn generalizing w room consumed given output with
  | ind windows ih =>
      obtain ⟨d, taken, hdecode⟩ := exists_decode_of_decodeAll hall
      have hd := h.decode hopen hdecode
      rw [Nat.add_assoc] at hd
      have hanswer := @answers_give w d input _ given room hd.stands hd.halted hd.steps
      obtain ⟨more, hmore, heq⟩ := decodeAll_of_decode hdecode
      rw [heq] at hall
      cases more with
      | zero =>
          obtain rfl := Option.some.inj hall
          exact ⟨hd.grown.give, _, rfl, hanswer⟩
      | succ more =>
          obtain ⟨rfl, hopen'⟩ := hmore.resolve_left (by omega)
          obtain ⟨hgrown, rest, hrest, hanswer'⟩ :=
            ih more (Nat.lt_succ_self _) hanswer.stands hopen' hall
          have hle := hd.le_ready h.sound
          exact ⟨hgrown.of_le hle, _, by rw [hrest, ByteArray.append_assoc],
            hanswer.append hanswer'⟩

/-- A complete input is decoded. -/
theorem Stands.isSome_decode {last : Inflater} (h : Stands input w consumed given)
    (hlast : (start input).EndsAt last) (hdone : last.isDone = true) :
    (w.decode (input.extract consumed input.size)).isSome = true := by
  have hstopped := stopped_runTo w.windowEnd h.pos_le
  rw [h.decode_eq]
  rcases hrun : runTo w.windowEnd (w.whole input) with ⟨s, stop⟩
  rw [hrun] at hstopped
  cases stop with
  | none => rfl
  | some why =>
      cases why with
      | short => rfl
      | fault =>
          obtain ⟨hopen, hfull, hnext⟩ := hstopped.failed .fault rfl
          rcases (hlast.of_steps (h.steps.trans hstopped.steps)).steps.cases_head with rfl | hstep
          · simp [hopen] at hdone
          · obtain ⟨t, hstep, -⟩ := hstep
            obtain ⟨u, hu⟩ := exists_next hstep hfull
            simp [hu] at hnext

theorem Stands.isSome_decodeAll {last : Inflater} (h : Stands input w (c + consumed) given)
    (hopen : w.inflater.isDone = false) (hlast : (start input).EndsAt last)
    (hdone : last.isDone = true) :
    (w.decodeAll (input.extract c input.size) room consumed output windows).isSome = true := by
  induction windows using Nat.strongRecOn generalizing w room consumed given output with
  | ind windows ih =>
      cases windows with
      | zero => rfl
      | succ windows =>
          obtain ⟨⟨d, taken⟩, hdecode⟩ := Option.isSome_iff_exists.1 (h.isSome_decode hlast hdone)
          have hd := h.decode hopen hdecode
          rw [Nat.add_assoc] at hd
          obtain ⟨more, hmore, heq⟩ := decodeAll_of_decode hdecode
          rw [heq]
          rcases hmore with rfl | ⟨rfl, hopen'⟩
          · rfl
          · exact ih more (Nat.lt_succ_self _) hd.stands.give.1 hopen'

end DecodeAll

/-- Between two calls of a decoder that has not ended. -/
structure Waits (input : ByteArray) (w : Window) (consumed given : Nat) : Prop where
  stands : Stands input w consumed given
  halted : 0 < w.ready → Halted input w consumed
  last : w.isEnded = false

/-- A call answers, and with room something comes of it. -/
theorem Waits.call (h : Waits input w consumed given) (hroom : 0 < room)
    (hcall : w.call (input.extract consumed input.size) room = some reply) :
    Answers input w given room reply.state (consumed + reply.consumed) reply.output reply.ended ∧
      (reply.ended = true ∨ 0 < reply.output.size ∨
        Starved input reply.state (consumed + reply.consumed)) := by
  by_cases hempty : w.isEmpty = true
  · rw [call_of_isEmpty hempty] at hcall
    have hopen : w.inflater.isDone = false := by simpa [isEnded, hempty] using h.last
    obtain ⟨hgrown, more, hmore, hanswer⟩ := Stands.decodeAll h.stands hopen hcall
    rw [ByteArray.empty_append] at hmore
    rw [← hmore] at hanswer
    refine ⟨hanswer, ?_⟩
    by_cases hsome : 0 < reply.output.size
    · exact .inr (.inl hsome)
    · -- nothing is given, so nothing is left of the window
      have hempty' := hanswer.emptied (by omega)
      rcases hgrown with hdone | hstarved | hgrown
      · exact .inl (by rw [hanswer.last_eq, isEnded, hdone, hempty', Bool.and_self])
      · exact .inr (.inr hstarved)
      · have hgiven := hanswer.stands.sound.given_eq hempty'
        have hgiven' := h.stands.sound.given_eq hempty
        have hfirst := hanswer.stands.given_eq
        have hfirst' := h.stands.given_eq
        omega
  · rw [call_of_not_isEmpty hempty] at hcall
    have hleft : w.given < w.ready := by simpa [isEmpty] using hempty
    have hsize := @size_give w room h.stands.sound
    obtain rfl := Option.some.inj hcall
    refine ⟨answers_give h.stands (h.halted (by omega)) .refl, .inr (.inl ?_)⟩
    dsimp only
    omega

end Window

/-! ### What is delivered -/

open Window

/-- The decoder delivers the output of the steps, and ends if these come to the end of
everything. -/
theorem delivers_decoder {input : ByteArray} {last : Inflater} (hlast : (start input).EndsAt last) :
    decoder.Delivers input last.out (last.isDone = true) (Waits input) where
  start := ⟨stands_start, by simp [decoder], rfl⟩
  continues {w consumed given room reply} h hroom hcall := by
    obtain ⟨hanswer, hprogress⟩ := h.call hroom hcall
    have hrest := hlast.of_steps hanswer.stands.steps
    have hgiven := hanswer.stands.given_eq
    refine ⟨hanswer.stands.le_size, ?_, hanswer.fits, fun hmore => ?_, fun hended => ?_,
      fun hgo => ⟨hanswer.stands, fun _ => hanswer.halted, hanswer.last_eq ▸ hgo⟩⟩
    · exact hanswer.part.trans (extract_out hrest.steps hanswer.stands.given_le).symm
    · rcases hprogress with hended | hsome | hstarved
      · exact .inl hended
      · exact .inr (.inr hsome)
      · -- the steps end here, so what is not given is in the window
        obtain rfl := hrest.unique ⟨.refl, hstarved.whole.not_step⟩
        have hall := hstarved.all
        have hready := hstarved.ready
        change consumed < input.size ∨ given < reply.state.inflater.out.size at hmore
        by_contra hnone
        have hempty := hanswer.emptied (by omega)
        have hgiven' := hanswer.stands.sound.given_eq hempty
        omega
    · rw [hanswer.last_eq, isEnded, Bool.and_eq_true] at hended
      obtain rfl := hrest.unique ⟨.refl, not_step_of_done hended.1⟩
      refine ⟨hended.1, ?_⟩
      rw [← hgiven, hanswer.stands.sound.given_eq hended.2]
      exact hanswer.halted.ready_of_done hended.1
  accepts hdone {w consumed given room} h hroom := by
    change (w.call _ _).isSome = true
    by_cases hempty : w.isEmpty = true
    · rw [call_of_isEmpty hempty]
      have hopen : w.inflater.isDone = false := by simpa [isEnded, hempty] using h.last
      exact Stands.isSome_decodeAll h.stands hopen hlast hdone
    · rw [call_of_not_isEmpty hempty]
      rfl

/-- A reply that stalls leaves off at the end of a window, and there is more to come. -/
theorem window_of_stalls {input : ByteArray} {limit : Nat} {last : Inflater} {l : Loop Window}
    (hlast : (start input).EndsAt last) (hdone : last.isDone = true)
    (hl : Loop.Reached decoder input limit l) (h : l.Stalls decoder input) :
    windowSize ≤ limit ∧ windowSize < last.out.size := by
  have hsound := hl.sound (delivers_decoder hlast)
  obtain ⟨reply, hcall, hgo, -, hroom⟩ := h
  have hpos := hsound.room
  have hcapacity := hsound.capacity
  rw [ByteArray.size_append] at hroom
  obtain ⟨hanswer, -⟩ := hsound.stands.call (Nat.sub_pos_of_lt hpos) hcall
  have hempty := hanswer.emptied (by omega)
  have hopen : reply.state.inflater.isDone = false := by
    rw [hanswer.last_eq] at hgo
    simpa [isEnded, hempty] using hgo
  have hrest := hlast.of_steps hanswer.stands.steps
  have hready := hanswer.stands.sound.given_eq hempty
  rw [hanswer.stands.given_eq] at hready
  cases hanswer.halted with
  | done hdone' => simp [hopen] at hdone'
  | full _ hdvd hpos' hfull =>
      have hlt := lt_size_of_isFull hrest hdone hopen hfull
      have hle := Nat.le_of_dvd hpos' hdvd
      omega
  | starved _ hstarved =>
      obtain rfl := hrest.unique ⟨.refl, hstarved.whole.not_step⟩
      change reply.state.inflater.isDone = true at hdone
      simp [hopen] at hdone

end SealedToken.Deflate
