import SealedToken.Deflate.Inflater
import SealedToken.Proofs.Outcome

/-!
The steps of a decoder go on in the bytes they are given, never past the end of them, and
only add to the output.
-/

namespace SealedToken.Deflate

/-! ### Reading bits -/

/-- A reader goes on in the same bytes, and not past their end. -/
structure BitReader.GoesOn (r r' : BitReader) : Prop where
  bytes : r'.bytes = r.bytes
  pos : r.pos ≤ 8 * r.bytes.size → r'.pos ≤ 8 * r.bytes.size

namespace BitReader

variable {r r' r'' : BitReader} {n count : Nat}

theorem GoesOn.refl : r.GoesOn r := ⟨rfl, id⟩

theorem GoesOn.trans (h : r.GoesOn r') (h' : r'.GoesOn r'') : r.GoesOn r'' where
  bytes := h'.bytes.trans h.bytes
  pos hpos := by
    have hpos' := h'.pos
    rw [h.bytes] at hpos'
    exact hpos' (h.pos hpos)

theorem goesOn_bit (h : r.bit = .ok (n, r')) : r.GoesOn r' := by
  unfold bit at h
  split at h
  · next hleft =>
      obtain ⟨-, rfl⟩ := Prod.mk.inj (Except.ok.inj h)
      refine ⟨rfl, fun _ => ?_⟩
      change r.pos + 1 ≤ _
      omega
  · simp at h

theorem goesOn_bits (h : r.bits count = .ok (n, r')) : r.GoesOn r' := by
  induction count generalizing r n with
  | zero =>
      obtain ⟨-, rfl⟩ := Prod.mk.inj (Except.ok.inj h)
      exact .refl
  | succ count ih =>
      obtain ⟨⟨b, next⟩, hbit, h⟩ := bind_eq_ok.1 h
      obtain ⟨⟨m, last⟩, hbits, h⟩ := bind_eq_ok.1 h
      obtain ⟨-, rfl⟩ := Prod.mk.inj (Except.ok.inj h)
      exact (goesOn_bit hbit).trans (ih hbits)

theorem goesOn_align : r.GoesOn r.align where
  bytes := rfl
  pos hpos := by
    change (r.pos + 7) / 8 * 8 ≤ _
    omega

end BitReader

section Reading

open BitReader

variable {r r' : BitReader} {n : Nat}

theorem Code.goesOn_symbolFrom {c : Code} {word index length left : Nat}
    (h : c.symbolFrom word index length r left = .ok (n, r')) : r.GoesOn r' := by
  induction left generalizing word index length r with
  | zero => simp [symbolFrom] at h
  | succ left ih =>
      obtain ⟨⟨b, next⟩, hbit, h⟩ := bind_eq_ok.1 h
      have hnext := goesOn_bit hbit
      dsimp only at h
      split at h
      · split at h
        · obtain ⟨-, rfl⟩ := Prod.mk.inj (Except.ok.inj h)
          exact hnext
        · simp at h
      · obtain ⟨-, h⟩ := ite_error_eq_ok.1 h
        exact hnext.trans (ih h)

theorem Code.goesOn_symbol {c : Code} (h : c.symbol r = .ok (n, r')) : r.GoesOn r' :=
  goesOn_symbolFrom h

namespace Description

theorem goesOn_shortLengths {count : Nat} {lengths : List Nat}
    (h : shortLengths r count = .ok (lengths, r')) : r.GoesOn r' := by
  induction count generalizing r lengths with
  | zero =>
      obtain ⟨-, rfl⟩ := Prod.mk.inj (Except.ok.inj h)
      exact .refl
  | succ count ih =>
      obtain ⟨⟨n, next⟩, hbits, h⟩ := bind_eq_ok.1 h
      obtain ⟨⟨rest, last⟩, hrest, h⟩ := bind_eq_ok.1 h
      obtain ⟨-, rfl⟩ := Prod.mk.inj (Except.ok.inj h)
      exact (goesOn_bits hbits).trans (ih hrest)

theorem goesOn_codedLengths {c : Code} {total fuel : Nat} {done lengths : List Nat}
    (h : codedLengths c total r done fuel = .ok (lengths, r')) : r.GoesOn r' := by
  induction fuel generalizing r done with
  | zero => simp [codedLengths] at h
  | succ fuel ih =>
      rw [codedLengths] at h
      obtain ⟨-, h⟩ := ite_error_eq_ok.1 h
      split at h
      · obtain ⟨-, rfl⟩ := Prod.mk.inj (Except.ok.inj h)
        exact .refl
      · obtain ⟨⟨symbol, next⟩, hsymbol, h⟩ := bind_eq_ok.1 h
        have hnext := Code.goesOn_symbol hsymbol
        dsimp only at h
        split at h
        · exact hnext.trans (ih h)
        · split at h
          · split at h
            · simp at h
            · obtain ⟨⟨n, last⟩, hbits, h⟩ := bind_eq_ok.1 h
              exact (hnext.trans (goesOn_bits hbits)).trans (ih h)
          · split at h <;>
            · obtain ⟨⟨n, last⟩, hbits, h⟩ := bind_eq_ok.1 h
              exact (hnext.trans (goesOn_bits hbits)).trans (ih h)

theorem goesOn_read {literals distances : Code} (h : read r = .ok (literals, distances, r')) :
    r.GoesOn r' := by
  obtain ⟨⟨_, r₁⟩, h₁, h⟩ := bind_eq_ok.1 h
  obtain ⟨⟨_, r₂⟩, h₂, h⟩ := bind_eq_ok.1 h
  obtain ⟨⟨_, r₃⟩, h₃, h⟩ := bind_eq_ok.1 h
  obtain ⟨-, h⟩ := ite_error_eq_ok.1 h
  obtain ⟨⟨_, r₄⟩, h₄, h⟩ := bind_eq_ok.1 h
  obtain ⟨_, -, h⟩ := bind_eq_ok.1 h
  obtain ⟨⟨_, r₅⟩, h₅, h⟩ := bind_eq_ok.1 h
  obtain ⟨_, -, h⟩ := bind_eq_ok.1 h
  obtain ⟨_, -, h⟩ := bind_eq_ok.1 h
  obtain ⟨-, -, rfl⟩ := Except.ok.inj h
  exact ((((goesOn_bits h₁).trans (goesOn_bits h₂)).trans (goesOn_bits h₃)).trans
    (goesOn_shortLengths h₄)).trans (goesOn_codedLengths h₅)

end Description

namespace Cursor

variable {s s' : Cursor} {piece : Piece}

theorem goesOn_tableNumber {table : Array (Nat × Nat)} {index : Nat}
    (h : tableNumber table index r = .ok (n, r')) : r.GoesOn r' := by
  unfold tableNumber at h
  split at h
  · simp at h
  · obtain ⟨⟨m, next⟩, hbits, h⟩ := bind_eq_ok.1 h
    obtain ⟨-, rfl⟩ := Prod.mk.inj (Except.ok.inj h)
    exact goesOn_bits hbits

theorem goesOn_stepHead (h : s.stepHead = .ok s') : s.reader.GoesOn s'.reader := by
  obtain ⟨⟨_, r₁⟩, h₁, h⟩ := bind_eq_ok.1 h
  obtain ⟨⟨_, r₂⟩, h₂, h⟩ := bind_eq_ok.1 h
  have hhead := (goesOn_bits h₁).trans (goesOn_bits h₂)
  dsimp only at h
  split at h
  · obtain ⟨⟨_, r₃⟩, h₃, h⟩ := bind_eq_ok.1 h
    obtain ⟨⟨_, r₄⟩, h₄, h⟩ := bind_eq_ok.1 h
    obtain ⟨-, h⟩ := ite_error_eq_ok.1 h
    obtain rfl := Except.ok.inj h
    exact ((hhead.trans goesOn_align).trans (goesOn_bits h₃)).trans (goesOn_bits h₄)
  · split at h
    · obtain rfl := Except.ok.inj h
      exact hhead
    · split at h
      · obtain ⟨⟨_, _, r₃⟩, h₃, h⟩ := bind_eq_ok.1 h
        obtain rfl := Except.ok.inj h
        exact hhead.trans (Description.goesOn_read h₃)
      · simp at h

theorem goesOn_stepPlain {left room : Nat} (h : s.stepPlain left room = .ok (s', piece)) :
    s.reader.GoesOn s'.reader := by
  unfold stepPlain at h
  split at h
  · obtain ⟨rfl, -⟩ := Prod.mk.inj (Except.ok.inj h)
    exact .refl
  · obtain ⟨-, h⟩ := ite_error_eq_ok.1 h
    obtain ⟨rfl, -⟩ := Prod.mk.inj (Except.ok.inj h)
    refine ⟨rfl, fun hpos => ?_⟩
    dsimp only
    omega

theorem goesOn_stepCoded {literals distances : Code}
    (h : s.stepCoded literals distances = .ok (s', piece)) : s.reader.GoesOn s'.reader := by
  obtain ⟨⟨_, r₁⟩, h₁, h⟩ := bind_eq_ok.1 h
  have hsymbol := Code.goesOn_symbol h₁
  dsimp only at h
  split at h
  · obtain ⟨rfl, -⟩ := Prod.mk.inj (Except.ok.inj h)
    exact hsymbol
  · split at h
    · obtain ⟨rfl, -⟩ := Prod.mk.inj (Except.ok.inj h)
      exact hsymbol
    · obtain ⟨⟨_, r₂⟩, h₂, h⟩ := bind_eq_ok.1 h
      obtain ⟨⟨_, r₃⟩, h₃, h⟩ := bind_eq_ok.1 h
      obtain ⟨⟨_, r₄⟩, h₄, h⟩ := bind_eq_ok.1 h
      obtain ⟨rfl, -⟩ := Prod.mk.inj (Except.ok.inj h)
      exact ((hsymbol.trans (goesOn_tableNumber h₂)).trans (Code.goesOn_symbol h₃)).trans
        (goesOn_tableNumber h₄)

theorem goesOn_step {room : Nat} (h : s.step room = .ok (s', piece)) :
    s.reader.GoesOn s'.reader := by
  unfold step at h
  split at h
  · obtain ⟨s'', hstep, h⟩ := map_eq_ok.1 h
    obtain ⟨rfl, -⟩ := Prod.mk.inj h
    exact goesOn_stepHead hstep
  · exact goesOn_stepPlain h
  · exact goesOn_stepCoded h
  · obtain ⟨rfl, -⟩ := Prod.mk.inj (Except.ok.inj h)
    exact .refl

end Cursor

end Reading

/-! ### A run of steps -/

theorem size_repeatBack (distance length : Nat) (out : ByteArray) :
    (repeatBack distance out length).size = out.size + length := by
  induction length generalizing out with
  | zero => rfl
  | succ length ih =>
      rw [repeatBack, ih, ByteArray.size_push]
      omega

/-- How many bytes a token stands for. -/
def Token.length : Token → Nat
  | .literal _ => 1
  | .copy length _ => length

theorem Token.size_appendTo (t : Token) (out : ByteArray) :
    (t.appendTo out).size = out.size + t.length := by
  cases t with
  | literal byte => exact ByteArray.size_push
  | copy length distance => exact size_repeatBack distance length out

theorem Piece.size_le_appendTo {piece : Piece} {out : ByteArray} :
    out.size ≤ (piece.appendTo out).size := by
  cases piece with
  | nothing => exact Nat.le_refl _
  | token t =>
      rw [appendTo, Token.size_appendTo]
      exact Nat.le_add_right _ _
  | plain bytes => simp [appendTo, ByteArray.size_append]

namespace Inflater

theorem le_size_of_isFull {s : Inflater} {bound : Nat} (h : s.isFull bound = true) :
    bound ≤ s.out.size := by
  unfold isFull at h
  split at h
  · exact of_decide_eq_true h
  · exact Nat.le_of_lt (of_decide_eq_true h)

/-- What a run of steps leaves. -/
structure Ran (bound : Nat) (s after : Inflater) (stop : Option Stop) : Prop where
  reader : s.cursor.reader.GoesOn after.cursor.reader
  grown : s.out.size ≤ after.out.size
  stopped : stop = none → after.isDone = true ∨ bound ≤ after.out.size

theorem ran_run {bound fuel : Nat} {s : Inflater} :
    Ran bound s (run bound s fuel).1 (run bound s fuel).2 := by
  induction fuel generalizing s with
  | zero => exact ⟨.refl, Nat.le_refl _, by simp [run]⟩
  | succ fuel ih =>
      rw [run]
      split
      · next hstop => exact ⟨.refl, Nat.le_refl _, fun _ => hstop.imp_right le_size_of_isFull⟩
      · split
        · next cursor piece hstep =>
            have hrest := @ih ⟨cursor, piece.appendTo s.out⟩
            exact ⟨(Cursor.goesOn_step hstep).trans hrest.reader,
              Nat.le_trans Piece.size_le_appendTo hrest.grown, hrest.stopped⟩
        · exact ⟨.refl, Nat.le_refl _, by simp⟩

theorem ran_of_runTo {bound : Nat} {s after : Inflater} {stop : Option Stop}
    (h : runTo bound s = (after, stop)) : Ran bound s after stop := by
  have hran : Ran bound s (runTo bound s).1 (runTo bound s).2 := ran_run
  rwa [h] at hran

end Inflater

end SealedToken.Deflate
