import SealedToken.Deflate.Inflater
import SealedToken.Proofs.Outcome

/-!
What is read of compressed bytes depends on the bytes that are read only: with further bytes
behind them the same is read, and nothing is read twice.
-/

namespace SealedToken.Deflate

/-- Results of reading, which have a reader that goes on. -/
class HasReader (ρ : Type) where
  reader : ρ → BitReader
  /-- The same with further bytes behind those of the reader. -/
  extend : ByteArray → ρ → ρ

export HasReader (reader extend)

instance : HasReader BitReader := ⟨id, fun more r => { r with bytes := r.bytes ++ more }⟩

instance {α ρ : Type} [HasReader ρ] : HasReader (α × ρ) :=
  ⟨fun x => reader x.2, fun more x => (x.1, extend more x.2)⟩

instance : HasReader Cursor := ⟨Cursor.reader, fun more s => { s with reader := extend more s.reader }⟩

instance : HasReader (Cursor × Piece) := ⟨fun x => x.1.reader, fun more x => (extend more x.1, x.2)⟩

/-- What is read from a position on goes on from there, and is read in the same way when there
are further bytes. -/
def Extends {ρ : Type} [HasReader ρ] (more : ByteArray) (pos : Nat)
    (read further : Except Stop ρ) : Prop :=
  ∀ a, read = .ok a → pos ≤ (reader a).pos ∧ further = .ok (extend more a)

namespace Extends

variable {ρ ρ' : Type} [HasReader ρ] [HasReader ρ'] {more : ByteArray} {pos : Nat}
  {read read' further further' : Except Stop ρ}

protected theorem ok {a : ρ} (h : pos ≤ (reader a).pos) :
    Extends more pos (.ok a) (.ok (extend more a)) := by
  intro a heq
  obtain rfl := Except.ok.inj heq
  exact ⟨h, rfl⟩

protected theorem error {stop : Stop} : Extends more pos (.error stop) further := by
  intro a heq
  simp at heq

protected theorem bind {next next' : ρ → Except Stop ρ'} (h : Extends more pos read further)
    (hnext : ∀ a, Extends more (reader a).pos (next a) (next' (extend more a))) :
    Extends more pos (read >>= next) (further >>= next') := by
  intro b heq
  obtain ⟨a, ha, hb⟩ := bind_eq_ok.1 heq
  obtain ⟨hle, rfl⟩ := h a ha
  obtain ⟨hle', hb'⟩ := hnext a b hb
  exact ⟨Nat.le_trans hle hle', hb'⟩

/-- What is not read depends on no bytes. -/
protected theorem same {α : Type} {x : Except Stop α} {next next' : α → Except Stop ρ}
    (h : ∀ a, Extends more pos (next a) (next' a)) :
    Extends more pos (x >>= next) (x >>= next') := by
  cases x with
  | error stop => exact .error
  | ok a => exact h a

protected theorem ite {c : Prop} [Decidable c] (h : Extends more pos read further)
    (h' : Extends more pos read' further') :
    Extends more pos (if c then read else read') (if c then further else further') := by
  split
  · exact h
  · exact h'

protected theorem mono {pos' : Nat} (h : Extends more pos' read further) (hle : pos ≤ pos') :
    Extends more pos read further :=
  fun a ha => ⟨Nat.le_trans hle (h a ha).1, (h a ha).2⟩

end Extends

theorem byteAt_append {bytes more : ByteArray} {i : Nat} (h : i < bytes.size) :
    byteAt (bytes ++ more) i = byteAt bytes i := by
  have happend : i < (bytes ++ more).size := by
    rw [ByteArray.size_append]
    omega
  rw [byteAt, byteAt, dif_pos happend, dif_pos h, ByteArray.getElem_append_left]

variable {more : ByteArray} {r : BitReader}

namespace BitReader

@[simp] theorem extend_pos : (extend more r).pos = r.pos := rfl

@[simp] theorem extend_bytes : (extend more r).bytes = r.bytes ++ more := rfl

theorem extends_bit : Extends more (r.pos + 1) r.bit (extend more r).bit := by
  unfold bit
  split
  · next hleft =>
      rw [extend_bytes, extend_pos, byteAt_append hleft, if_pos]
      · exact .ok (Nat.le_refl _)
      · rw [ByteArray.size_append]
        exact Nat.lt_add_right _ hleft
  · exact .error

theorem extends_bits {count : Nat} :
    Extends more r.pos (r.bits count) ((extend more r).bits count) := by
  induction count generalizing r with
  | zero => exact .ok (Nat.le_refl _)
  | succ count ih =>
      refine .mono (extends_bit.bind fun _ => ih.bind fun _ => ?_) (Nat.le_succ _)
      exact .ok (Nat.le_refl _)

theorem extends_bits_succ {count : Nat} :
    Extends more (r.pos + 1) (r.bits (count + 1)) ((extend more r).bits (count + 1)) :=
  extends_bit.bind fun _ => extends_bits.bind fun _ => .ok (Nat.le_refl _)

theorem le_pos_align : r.pos ≤ r.align.pos := by
  change r.pos ≤ (r.pos + 7) / 8 * 8
  omega

end BitReader

open BitReader

theorem Code.extends_symbolFrom {c : Code} {word index length left : Nat} :
    Extends more (r.pos + 1) (c.symbolFrom word index length r left)
      (c.symbolFrom word index length (extend more r) left) := by
  induction left generalizing word index length r with
  | zero => exact .error
  | succ left ih =>
      refine extends_bit.bind fun _ => .ite ?_ (.ite .error (ih.mono (Nat.le_succ _)))
      split
      · exact .ok (Nat.le_refl _)
      · exact .error

theorem Code.extends_symbol {c : Code} :
    Extends more (r.pos + 1) (c.symbol r) (c.symbol (extend more r)) :=
  extends_symbolFrom

namespace Description

theorem extends_shortLengths {count : Nat} :
    Extends more r.pos (shortLengths r count) (shortLengths (extend more r) count) := by
  induction count generalizing r with
  | zero => exact .ok (Nat.le_refl _)
  | succ count ih => exact extends_bits.bind fun _ => ih.bind fun _ => .ok (Nat.le_refl _)

theorem extends_codedLengths {c : Code} {total fuel : Nat} {done : List Nat} :
    Extends more r.pos (codedLengths c total r done fuel)
      (codedLengths c total (extend more r) done fuel) := by
  induction fuel generalizing done r with
  | zero => exact .error
  | succ fuel ih =>
      refine .ite .error (.ite (.ok (Nat.le_refl _)) ?_)
      refine .mono (Code.extends_symbol.bind fun _ => .ite ih (.ite ?_ (.ite ?_ ?_)))
        (Nat.le_succ _)
      · cases done with
        | nil => exact .error
        | cons length done => exact extends_bits.bind fun _ => ih
      · exact extends_bits.bind fun _ => ih
      · exact extends_bits.bind fun _ => ih

theorem extends_read : Extends more r.pos (read r) (read (extend more r)) := by
  refine extends_bits.bind fun _ => extends_bits.bind fun _ => extends_bits.bind fun _ => ?_
  refine .ite .error (extends_shortLengths.bind fun _ => .same fun _ => ?_)
  exact extends_codedLengths.bind fun _ => .same fun _ => .same fun _ => .ok (Nat.le_refl _)

end Description

namespace Cursor

variable {s : Cursor}

theorem extends_tableNumber {table : Array (Nat × Nat)} {index : Nat} :
    Extends more r.pos (tableNumber table index r) (tableNumber table index (extend more r)) := by
  unfold tableNumber
  split
  · exact .error
  · exact extends_bits.bind fun _ => .ok (Nat.le_refl _)

theorem extends_stepHead :
    Extends more (s.reader.pos + 1) s.stepHead (extend more s).stepHead := by
  refine extends_bits_succ.bind fun _ => extends_bits.bind fun _ => ?_
  refine .ite ?_ (.ite (.ok (Nat.le_refl _)) (.ite ?_ .error))
  · refine .mono (extends_bits.bind fun _ => extends_bits.bind fun _ => ?_) le_pos_align
    exact .ite .error (.ok (Nat.le_refl _))
  · exact Description.extends_read.bind fun _ => .ok (Nat.le_refl _)

theorem extends_stepCoded {literals distances : Code} :
    Extends more (s.reader.pos + 1) (s.stepCoded literals distances)
      ((extend more s).stepCoded literals distances) := by
  refine Code.extends_symbol.bind fun _ => ?_
  refine .ite (.ok (Nat.le_refl _)) (.ite (.ok (Nat.le_refl _)) ?_)
  refine extends_tableNumber.bind fun _ => ?_
  refine .mono (Code.extends_symbol.bind fun _ => ?_) (Nat.le_succ _)
  exact extends_tableNumber.bind fun _ => .ok (Nat.le_refl _)

/-- A step that does not depend on the room depends on no further bytes. -/
theorem extends_step {room : Nat} (h : ∀ n, s.mode ≠ .plain (n + 1)) :
    Extends more s.reader.pos (s.step room) ((extend more s).step room) := by
  obtain ⟨r, last, mode⟩ := s
  cases mode with
  | head =>
      refine .mono (fun x hx => ?_) (Nat.le_succ _)
      obtain ⟨cursor, hhead, rfl⟩ := map_eq_ok.1 hx
      obtain ⟨hlt, hfurther⟩ := extends_stepHead cursor hhead
      exact ⟨hlt, map_eq_ok.2 ⟨_, hfurther, rfl⟩⟩
  | plain left =>
      cases left with
      | zero => exact .ok (Nat.le_refl _)
      | succ left => exact absurd rfl (h left)
  | coded literals distances => exact extends_stepCoded.mono (Nat.le_succ _)
  | done => exact .ok (Nat.le_refl _)

end Cursor

end SealedToken.Deflate
