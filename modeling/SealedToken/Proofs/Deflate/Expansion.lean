import Mathlib.Logic.Relation
import SealedToken.Proofs.Deflate.Reading
import SealedToken.Proofs.Deflate.Steps

/-!
What compressed bytes expand to: the output of the steps in them, when these come to an end.
A plain block can be decoded in many ways, a few bytes or many at a time, but all of them come
to the same end; so a decoder may stop anywhere and go on later.
-/

namespace SealedToken.Deflate

namespace Inflater

variable {s t u last last' : Inflater} {bound room left count : Nat} {stop : Option Stop}

/-- Before the first step. -/
def start (input : ByteArray) : Inflater := { cursor := { reader := ⟨input, 0⟩ } }

/-- The next step, with some room for the bytes of a plain block. -/
def next (s : Inflater) (room : Nat) : Except Stop Inflater :=
  (s.cursor.step room).map fun (cursor, piece) => ⟨cursor, piece.appendTo s.out⟩

/-- A step with any room. At the end of everything there is none. -/
def Step (s t : Inflater) : Prop := s.isDone = false ∧ ∃ room, s.next room = .ok t

abbrev Steps : Inflater → Inflater → Prop := Relation.ReflTransGen Step

/-! ### Plain bytes -/

/-- A number of plain bytes. -/
def takePlain (s : Inflater) (left count : Nat) : Inflater :=
  let start := s.cursor.reader.pos / 8
  ⟨{ s.cursor with
      reader := { s.cursor.reader with pos := 8 * (start + count) }, mode := .plain (left - count) },
    s.out ++ s.cursor.reader.bytes.extract start (start + count)⟩

/-- How many bytes there are for a plain block. -/
def available (s : Inflater) : Nat := s.cursor.reader.bytes.size - s.cursor.reader.pos / 8

theorem next_plain (h : s.cursor.mode = .plain left) (hleft : left ≠ 0) :
    s.next room = if min (min left room) s.available = 0 then .error .short
      else .ok (s.takePlain left (min (min left room) s.available)) := by
  rw [next, Cursor.step, h]
  dsimp only
  rw [Cursor.stepPlain, if_neg hleft]
  dsimp only
  rw [← available]
  split
  · rfl
  · rfl

/-- Plain bytes in two parts. -/
theorem takePlain_takePlain {more : Nat} :
    (s.takePlain left count).takePlain (left - count) more = s.takePlain left (count + more) := by
  have hpos : 8 * (s.cursor.reader.pos / 8 + count) / 8 = s.cursor.reader.pos / 8 + count := by
    omega
  simp only [takePlain, hpos, Nat.sub_sub, Nat.add_assoc, ByteArray.append_assoc,
    ByteArray.extract_append_extract]
  simp

theorem available_takePlain : (s.takePlain left count).available = s.available - count := by
  simp only [available, takePlain]
  omega

/-- All other steps do not heed the room. -/
theorem next_room (h : ∀ n, s.cursor.mode ≠ .plain (n + 1)) (room room' : Nat) :
    s.next room = s.next room' := by
  rw [next, next, Cursor.step, Cursor.step]
  split
  · rfl
  · next left hmode =>
      cases left with
      | zero => rfl
      | succ left => exact absurd hmode (h left)
  · rfl
  · rfl

theorem step_takePlain (h : s.cursor.mode = .plain left) (hcount : count ≠ 0)
    (hleft : count ≤ left) (havailable : count ≤ s.available) : Step s (s.takePlain left count) := by
  refine ⟨by simp [isDone, h], count, ?_⟩
  have hmin : min (min left count) s.available = count := by omega
  rw [next_plain h (by omega), hmin, if_neg hcount]

theorem exists_of_step_plain (h : Step s t) (hmode : s.cursor.mode = .plain left)
    (hleft : left ≠ 0) :
    ∃ count, count ≠ 0 ∧ count ≤ left ∧ count ≤ s.available ∧ t = s.takePlain left count := by
  obtain ⟨-, room, hnext⟩ := h
  rw [next_plain hmode hleft] at hnext
  obtain ⟨hcount, hnext⟩ := ite_error_eq_ok.1 hnext
  exact ⟨_, hcount, by omega, by omega, (Except.ok.inj hnext).symm⟩

/-! ### All ways lead to one end -/

/-- Of two steps one makes up for the other. -/
theorem step_or_step (ht : Step s t) (hu : Step s u) : t = u ∨ Step t u ∨ Step u t := by
  by_cases hplain : ∃ n, s.cursor.mode = .plain (n + 1)
  · obtain ⟨n, hmode⟩ := hplain
    obtain ⟨count, hcount, hleft, havailable, rfl⟩ := exists_of_step_plain ht hmode (by omega)
    obtain ⟨count', hcount', hleft', havailable', rfl⟩ := exists_of_step_plain hu hmode (by omega)
    -- the step that takes fewer bytes is followed by one that takes the others
    have hmore : ∀ {count count'}, count < count' → count' ≤ n + 1 → count' ≤ s.available →
        Step (s.takePlain (n + 1) count) (s.takePlain (n + 1) count') := by
      intro count count' hlt hle havailable
      have hstep : Step (s.takePlain (n + 1) count)
          ((s.takePlain (n + 1) count).takePlain (n + 1 - count) (count' - count)) :=
        step_takePlain rfl (by omega) (by omega) (by rw [available_takePlain]; omega)
      rwa [takePlain_takePlain, Nat.add_sub_cancel' (Nat.le_of_lt hlt)] at hstep
    rcases Nat.lt_trichotomy count count' with hlt | rfl | hlt
    · exact .inr (.inl (hmore hlt hleft' havailable'))
    · exact .inl rfl
    · exact .inr (.inr (hmore hlt hleft havailable))
  · obtain ⟨-, room, ht⟩ := ht
    obtain ⟨-, room', hu⟩ := hu
    rw [next_room (fun n hmode => hplain ⟨n, hmode⟩) room room', hu] at ht
    exact .inl (Except.ok.inj ht).symm

theorem Step.not_done (h : Step s t) : s.isDone = false := h.1

/-- The steps come to an end, where there is no next one. -/
structure EndsAt (s last : Inflater) : Prop where
  steps : Steps s last
  final : ∀ t, ¬ Step last t

theorem EndsAt.eq_of_steps (h : EndsAt s last) (ht : Steps last t) : t = last := by
  rcases ht.cases_head with heq | ⟨u, hstep, -⟩
  · exact heq.symm
  · exact absurd hstep (h.final u)

/-- Wherever the steps have come by, the end is before them. -/
theorem EndsAt.of_steps (h : EndsAt s last) (ht : Steps s t) : EndsAt t last := by
  obtain ⟨u, htu, hlastu⟩ := Relation.church_rosser (fun s t u ht hu => by
    rcases step_or_step ht hu with rfl | htu | hut
    · exact ⟨t, .refl, .refl⟩
    · exact ⟨u, .single htu, .refl⟩
    · exact ⟨t, .refl, .single hut⟩) ht h.steps
  rw [h.eq_of_steps hlastu] at htu
  exact ⟨htu, h.final⟩

theorem EndsAt.unique (h : EndsAt s last) (h' : EndsAt s last') : last = last' :=
  (h.eq_of_steps (h'.of_steps h.steps).steps).symm

theorem not_step_of_done (h : s.isDone = true) (t : Inflater) : ¬ Step s t := by
  intro hstep
  simp [hstep.not_done] at h

/-! ### What a step does -/

theorem next_eq_ok : s.next room = .ok t ↔
    ∃ cursor piece, s.cursor.step room = .ok (cursor, piece) ∧ ⟨cursor, piece.appendTo s.out⟩ = t := by
  simp [next]

theorem Step.goesOn (h : Step s t) : s.cursor.reader.GoesOn t.cursor.reader := by
  obtain ⟨-, room, hnext⟩ := h
  obtain ⟨cursor, piece, hstep, rfl⟩ := next_eq_ok.1 hnext
  exact Cursor.goesOn_step hstep

theorem goesOn_of_steps (h : Steps s t) : s.cursor.reader.GoesOn t.cursor.reader := by
  induction h with
  | refl => exact .refl
  | tail _ hstep ih => exact ih.trans hstep.goesOn

/-- All but the end of a plain block is read. -/
theorem Step.lt_pos (h : Step s t) (hmode : s.cursor.mode ≠ .plain 0) :
    s.cursor.reader.pos < t.cursor.reader.pos := by
  obtain ⟨hdone, room, hnext⟩ := id h
  obtain ⟨cursor, piece, hstep, heq⟩ := next_eq_ok.1 hnext
  rw [Cursor.step] at hstep
  split at hstep
  · obtain ⟨cursor', hhead, hpair⟩ := map_eq_ok.1 hstep
    obtain ⟨rfl, -⟩ := Prod.mk.inj hpair
    rw [← heq]
    exact (@Cursor.extends_stepHead .empty _ _ hhead).1
  · next left hplain =>
      have hleft : left ≠ 0 := by
        rintro rfl
        exact hmode hplain
      obtain ⟨count, hcount, -, -, rfl⟩ := exists_of_step_plain h hplain hleft
      change _ < 8 * (s.cursor.reader.pos / 8 + count)
      omega
  · rw [← heq]
    exact (@Cursor.extends_stepCoded .empty _ _ _ _ hstep).1
  · next hmode => simp [isDone, hmode] at hdone

theorem exists_repeatBack (distance : Nat) (out : ByteArray) (length : Nat) :
    ∃ more, repeatBack distance out length = out ++ more := by
  induction length generalizing out with
  | zero => exact ⟨.empty, by simp [repeatBack]⟩
  | succ length ih =>
      rw [repeatBack]
      obtain ⟨more, hmore⟩ := ih (out.push (if distance ≤ out.size then
        byteAt out (out.size - distance) else 0))
      exact ⟨_, by rw [hmore, ← ByteArray.append_toByteArray_singleton, ByteArray.append_assoc]⟩

theorem exists_appendTo (piece : Piece) (out : ByteArray) : ∃ more, piece.appendTo out = out ++ more := by
  match piece with
  | .nothing => exact ⟨.empty, by simp [Piece.appendTo]⟩
  | .token (.literal byte) => exact ⟨_, ByteArray.append_toByteArray_singleton.symm⟩
  | .token (.copy length distance) => exact exists_repeatBack distance out length
  | .plain bytes => exact ⟨bytes, rfl⟩

/-- Output is only added to. -/
theorem exists_out (h : Steps s t) : ∃ more, t.out = s.out ++ more := by
  induction h with
  | refl => exact ⟨.empty, by simp⟩
  | tail _ hstep ih =>
      obtain ⟨-, room, hnext⟩ := hstep
      obtain ⟨cursor, piece, -, rfl⟩ := next_eq_ok.1 hnext
      obtain ⟨more, hmore⟩ := ih
      obtain ⟨more', hmore'⟩ := exists_appendTo piece (s.out ++ more)
      exact ⟨more ++ more', by rw [hmore, hmore', ByteArray.append_assoc]⟩

theorem size_out_le (h : Steps s t) : s.out.size ≤ t.out.size := by
  obtain ⟨more, hmore⟩ := exists_out h
  rw [hmore, ByteArray.size_append]
  exact Nat.le_add_right _ _

theorem extract_out (h : Steps s t) {i j : Nat} (hj : j ≤ s.out.size) :
    t.out.extract i j = s.out.extract i j := by
  obtain ⟨more, hmore⟩ := exists_out h
  have hnone : more.extract (i - s.out.size) (j - s.out.size) = .empty := by
    rw [ByteArray.extract_eq_empty_iff]
    omega
  rw [hmore, ByteArray.extract_append, hnone, ByteArray.append_empty]

/-- Plain bytes that are not decoded yet are output to come. -/
theorem lt_size_of_isFull (h : EndsAt s last) (hlast : last.isDone = true) (hopen : s.isDone = false)
    (hfull : s.isFull bound = true) : bound < last.out.size := by
  by_cases hplain : ∃ n, s.cursor.mode = .plain (n + 1)
  · obtain ⟨n, hmode⟩ := hplain
    rcases h.steps.cases_head with rfl | ⟨t, hstep, ht⟩
    · simp [hopen] at hlast
    · obtain ⟨count, hcount, -, havailable, rfl⟩ := exists_of_step_plain hstep hmode (by omega)
      have hmore := size_out_le ht
      have hle := le_size_of_isFull hfull
      rw [available] at havailable
      simp only [takePlain, ByteArray.size_append, ByteArray.size_extract] at hmore
      omega
  · have hlt : bound < s.out.size := by
      unfold isFull at hfull
      split at hfull
      · next n hmode => exact absurd ⟨n, hmode⟩ hplain
      · exact of_decide_eq_true hfull
    exact Nat.lt_of_lt_of_le hlt (size_out_le h.steps)

/-- A step that adds to the output does not lead to the end. -/
theorem Step.out_of_done (h : Step s t) (hdone : t.isDone = true) : t.out = s.out := by
  obtain ⟨hgo, room, hnext⟩ := id h
  obtain ⟨cursor, piece, hstep, rfl⟩ := next_eq_ok.1 hnext
  rw [Cursor.step] at hstep
  split at hstep
  · obtain ⟨_, -, hpair⟩ := map_eq_ok.1 hstep
    obtain ⟨-, rfl⟩ := Prod.mk.inj hpair
    rfl
  · next left hplain =>
      by_cases hleft : left = 0
      · subst hleft
        obtain ⟨-, rfl⟩ := Prod.mk.inj (Except.ok.inj hstep)
        rfl
      · obtain ⟨count, -, -, -, heq⟩ := exists_of_step_plain h hplain hleft
        rw [heq] at hdone
        simp [isDone, takePlain] at hdone
  · next literals distances hmode =>
      obtain ⟨⟨symbol, r⟩, -, hstep⟩ := bind_eq_ok.1 hstep
      dsimp only at hstep
      split at hstep
      · obtain ⟨rfl, rfl⟩ := Prod.mk.inj (Except.ok.inj hstep)
        simp [isDone, hmode] at hdone
      · split at hstep
        · obtain ⟨-, rfl⟩ := Prod.mk.inj (Except.ok.inj hstep)
          rfl
        · obtain ⟨_, -, hstep⟩ := bind_eq_ok.1 hstep
          obtain ⟨_, -, hstep⟩ := bind_eq_ok.1 hstep
          obtain ⟨_, -, hstep⟩ := bind_eq_ok.1 hstep
          obtain ⟨rfl, rfl⟩ := Prod.mk.inj (Except.ok.inj hstep)
          simp [isDone, hmode] at hdone
  · next hmode => simp [isDone, hmode] at hgo

/-! ### Runs -/

theorem Step.le_pos (h : Step s t) : s.cursor.reader.pos ≤ t.cursor.reader.pos := by
  by_cases hmode : s.cursor.mode = .plain 0
  · obtain ⟨-, room, hnext⟩ := h
    rw [next, Cursor.step, hmode] at hnext
    obtain rfl := Except.ok.inj hnext
    exact Nat.le_refl _
  · exact Nat.le_of_lt (h.lt_pos hmode)

theorem le_pos_of_steps (h : Steps s t) : s.cursor.reader.pos ≤ t.cursor.reader.pos := by
  induction h with
  | refl => exact Nat.le_refl _
  | tail _ hstep ih => exact Nat.le_trans ih hstep.le_pos

/-- Work for steps: what is not read yet, and the end of a plain block. -/
def work (s : Inflater) : Nat :=
  2 * s.cursor.reader.left + match s.cursor.mode with
    | .plain 0 => 1
    | _ => 0

theorem le_work : 2 * s.cursor.reader.left ≤ s.work := Nat.le_add_right _ _

theorem work_le : s.work ≤ 2 * s.cursor.reader.left + 1 := by
  unfold work
  split
  · exact Nat.le_refl _
  · exact Nat.le_succ _

theorem Step.work_lt (h : Step s t) (hpos : s.cursor.reader.pos ≤ 8 * s.cursor.reader.bytes.size) :
    t.work < s.work := by
  by_cases hmode : s.cursor.mode = .plain 0
  · obtain ⟨-, room, hnext⟩ := h
    rw [next, Cursor.step, hmode] at hnext
    obtain rfl := Except.ok.inj hnext
    rw [work, work, hmode]
    cases hlast : s.cursor.last <;> simp [Cursor.endBlock, hlast]
  · obtain ⟨hbytes, hle⟩ := h.goesOn
    have hlt := h.lt_pos hmode
    have hle := hle hpos
    have hwork := @work_le t
    have hwork' := @le_work s
    simp only [BitReader.left, hbytes] at hwork hwork'
    omega

/-- More bytes have to come for the next step, whatever the room. -/
def Starved (s : Inflater) : Prop := s.isDone = false ∧ ∀ room, s.next room = .error .short

theorem Starved.not_step (h : s.Starved) (t : Inflater) : ¬ Step s t := by
  rintro ⟨-, room, hnext⟩
  simp [h.2] at hnext

theorem lt_of_plain_not_full {n : Nat} (hmode : s.cursor.mode = .plain (n + 1))
    (h : s.isFull bound = false) : s.out.size < bound := by
  simpa [isFull, hmode] using h

theorem size_le_of_not_full (h : s.isFull bound = false) : s.out.size ≤ bound := by
  unfold isFull at h
  split at h
  · exact Nat.le_of_lt (Nat.lt_of_not_le (by simpa using h))
  · exact Nat.le_of_not_lt (by simpa using h)

/-- A step that is possible with some room is possible with any room that a run has. -/
theorem exists_next (h : Step s t) (hfull : s.isFull bound = false) :
    ∃ u, s.next (bound - s.out.size) = .ok u := by
  by_cases hplain : ∃ n, s.cursor.mode = .plain (n + 1)
  · obtain ⟨n, hmode⟩ := hplain
    obtain ⟨count, hcount, -, havailable, -⟩ := exists_of_step_plain h hmode (by omega)
    have hroom := lt_of_plain_not_full hmode hfull
    exact ⟨_, by rw [next_plain hmode (by omega), if_neg (by omega)]⟩
  · obtain ⟨-, room, hnext⟩ := h
    exact ⟨t, (next_room (fun n hmode => hplain ⟨n, hmode⟩) _ room).trans hnext⟩

theorem starved_of_next (hdone : s.isDone = false) (hfull : s.isFull bound = false)
    (h : s.next (bound - s.out.size) = .error .short) : s.Starved := by
  refine ⟨hdone, fun room => ?_⟩
  by_cases hplain : ∃ n, s.cursor.mode = .plain (n + 1)
  · obtain ⟨n, hmode⟩ := hplain
    have hroom := lt_of_plain_not_full hmode hfull
    rw [next_plain hmode (by omega)] at h ⊢
    split at h
    · exact if_pos (by omega)
    · simp at h
  · exact (next_room (fun n hmode => hplain ⟨n, hmode⟩) room _).trans h

theorem run_succ {fuel : Nat} (hdone : s.isDone = false) (hfull : s.isFull bound = false) :
    run bound s (fuel + 1) = match s.next (bound - s.out.size) with
      | .ok t => run bound t fuel
      | .error stop => (s, some stop) := by
  rw [run, if_neg (by simp [hdone, hfull]), next]
  cases s.cursor.step (bound - s.out.size) <;> rfl

/-- There always is an end. -/
theorem exists_endsAt (hpos : s.cursor.reader.pos ≤ 8 * s.cursor.reader.bytes.size) :
    ∃ last, EndsAt s last := by
  induction hwork : s.work using Nat.strongRecOn generalizing s with
  | ind work ih =>
      by_cases hfinal : ∃ t, Step s t
      · obtain ⟨t, hstep⟩ := hfinal
        have hgoes := hstep.goesOn
        obtain ⟨last, hlast⟩ := ih t.work (hwork ▸ hstep.work_lt hpos)
          (by rw [hgoes.bytes]; exact hgoes.pos hpos) rfl
        exact ⟨last, .head hstep hlast.steps, hlast.final⟩
      · exact ⟨s, .refl, fun t hstep => hfinal ⟨t, hstep⟩⟩

/-- How a run stops: at the end of everything or behind the bound, or where the next step
fails. It comes to the end within the bound. -/
structure Stopped (bound : Nat) (s t : Inflater) (stop : Option Stop) : Prop where
  steps : Steps s t
  ended : stop = none → t.isDone = true ∨ t.isFull bound = true
  failed : ∀ why, stop = some why → t.isDone = false ∧ t.isFull bound = false ∧
    t.next (bound - t.out.size) = .error why
  within : s.isDone = false → t.isDone = true → t.out.size ≤ bound

theorem stopped_run {fuel : Nat} (hpos : s.cursor.reader.pos ≤ 8 * s.cursor.reader.bytes.size)
    (hfuel : s.work < fuel) : Stopped bound s (run bound s fuel).1 (run bound s fuel).2 := by
  induction fuel generalizing s with
  | zero => omega
  | succ fuel ih =>
      by_cases hstop : s.isDone = true ∨ s.isFull bound = true
      · rw [run, if_pos hstop]
        exact ⟨.refl, fun _ => hstop, by simp, fun hdone hdone' => by simp [hdone] at hdone'⟩
      · have hdone : s.isDone = false := by simpa using fun hdone => hstop (.inl hdone)
        have hfull : s.isFull bound = false := by simpa using fun hfull => hstop (.inr hfull)
        rw [run_succ hdone hfull]
        cases hnext : s.next (bound - s.out.size) with
        | error why =>
            refine ⟨.refl, by simp, fun why' hwhy => ?_, fun _ hdone' => by simp [hdone] at hdone'⟩
            obtain rfl := Option.some.inj hwhy
            exact ⟨hdone, hfull, hnext⟩
        | ok u =>
            have hstep : Step s u := ⟨hdone, _, hnext⟩
            have hgoes := hstep.goesOn
            have hrest := @ih u (by rw [hgoes.bytes]; exact hgoes.pos hpos)
              (by have hless := hstep.work_lt hpos; omega)
            refine ⟨.head hstep hrest.steps, hrest.ended, hrest.failed, fun _ hlast => ?_⟩
            cases hu : u.isDone with
            | false => exact hrest.within hu hlast
            | true =>
                -- nothing is done behind the end
                have hlast : EndsAt u u := ⟨.refl, not_step_of_done hu⟩
                rw [hlast.eq_of_steps hrest.steps, hstep.out_of_done hu]
                exact size_le_of_not_full hfull

theorem stopped_runTo (bound : Nat)
    (hpos : s.cursor.reader.pos ≤ 8 * s.cursor.reader.bytes.size) :
    Stopped bound s (runTo bound s).1 (runTo bound s).2 :=
  stopped_run hpos (Nat.lt_succ_of_le work_le)

/-! ### Further bytes -/

instance : HasReader Inflater :=
  ⟨fun s => s.cursor.reader, fun more s => { s with cursor := extend more s.cursor }⟩

theorem extend_takePlain {more : ByteArray}
    (h : s.cursor.reader.pos / 8 + count ≤ s.cursor.reader.bytes.size) :
    (extend more s).takePlain left count = extend more (s.takePlain left count) := by
  have hnone : more.extract (s.cursor.reader.pos / 8 - s.cursor.reader.bytes.size)
      (s.cursor.reader.pos / 8 + count - s.cursor.reader.bytes.size) = .empty := by
    rw [ByteArray.extract_eq_empty_iff]
    omega
  have hextract : (s.cursor.reader.bytes ++ more).extract (s.cursor.reader.pos / 8)
      (s.cursor.reader.pos / 8 + count) = s.cursor.reader.bytes.extract (s.cursor.reader.pos / 8)
        (s.cursor.reader.pos / 8 + count) := by
    rw [ByteArray.extract_append, hnone, ByteArray.append_empty]
  exact congrArg (fun bytes => (⟨_, s.out ++ bytes⟩ : Inflater)) hextract

/-- The same step is possible when there are further bytes. -/
theorem Step.extend {more : ByteArray} (h : Step s t) : Step (extend more s) (extend more t) := by
  by_cases hplain : ∃ n, s.cursor.mode = .plain (n + 1)
  · obtain ⟨n, hmode⟩ := hplain
    obtain ⟨count, hcount, hleft, havailable, rfl⟩ := exists_of_step_plain h hmode (by omega)
    rw [available] at havailable
    rw [← extend_takePlain (by omega)]
    refine step_takePlain hmode hcount hleft ?_
    change count ≤ (s.cursor.reader.bytes ++ more).size - s.cursor.reader.pos / 8
    rw [ByteArray.size_append]
    omega
  · obtain ⟨hdone, room, hnext⟩ := h
    obtain ⟨cursor, piece, hstep, rfl⟩ := next_eq_ok.1 hnext
    have hfurther :=
      (@Cursor.extends_step more _ room (fun n hmode => hplain ⟨n, hmode⟩) _ hstep).2
    exact ⟨hdone, room, next_eq_ok.2 ⟨_, _, hfurther, rfl⟩⟩

theorem steps_extend {more : ByteArray} (h : Steps s t) : Steps (extend more s) (extend more t) :=
  h.lift _ fun _ _ hstep => hstep.extend

end Inflater

/-! ### Expansions -/

open Inflater

/-- Bytes are compressed ones, to their last byte, and this is what they expand to. -/
def Expands (input whole : ByteArray) : Prop :=
  ∃ last, (start input).EndsAt last ∧ last.isDone = true ∧ last.out = whole ∧
    (last.cursor.reader.pos + 7) / 8 = input.size

variable {input more whole : ByteArray} {last : Inflater}

/-- Where bytes are missing the steps do not come to the end of everything. -/
theorem Expands.not_done (h : Expands (input ++ more) whole) (hmore : 0 < more.size)
    (hlast : (start input).EndsAt last) : last.isDone = false := by
  by_contra hdone
  rw [Bool.not_eq_false] at hdone
  obtain ⟨last', hlast', -, -, hpos⟩ := h
  have hextend : (start (input ++ more)).EndsAt (extend more last) :=
    ⟨steps_extend hlast.steps, not_step_of_done hdone⟩
  obtain rfl := hlast'.unique hextend
  have hle : last.cursor.reader.pos ≤ 8 * input.size :=
    (goesOn_of_steps hlast.steps).pos (Nat.zero_le _)
  change (last.cursor.reader.pos + 7) / 8 = _ at hpos
  rw [ByteArray.size_append] at hpos
  omega

end SealedToken.Deflate
