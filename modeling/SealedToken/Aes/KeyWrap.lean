import SealedToken.Aes.Block

/-!
Wrapping a key under another: six passes over its half blocks, each mixed with a
running half block that starts as a fixed value. Unwrapping has to arrive at that
value again.
-/

namespace SealedToken.Aes

/-- The two words of the fixed half block. -/
def wrapStart : UInt32 := 0xa6a6a6a6

/-- A half block is two words; this is the running one. -/
structure HalfBlock where
  high : UInt32
  low : UInt32
  deriving DecidableEq

def HalfBlock.ofBytes (bytes : ByteArray) (i : Nat) : HalfBlock :=
  ⟨wordAt bytes (8 * i), wordAt bytes (8 * i + 4)⟩

/-- Combine with a count. -/
def HalfBlock.count (a : HalfBlock) (t : Nat) : HalfBlock :=
  ⟨a.high ^^^ UInt32.ofNat (t >>> 32), a.low ^^^ UInt32.ofNat t⟩

def HalfBlock.pushTo (a : HalfBlock) (out : ByteArray) : ByteArray :=
  pushWord (pushWord out a.high) a.low

/-- One pass forwards; `t` is the count of the next step. -/
def wrapPass (k : Key) (a : HalfBlock) (t : Nat) (done : List HalfBlock) :
    List HalfBlock → HalfBlock × List HalfBlock
  | [] => (a, done.reverse)
  | r :: rest =>
      let b := k.encrypt ⟨a.high, a.low, r.high, r.low⟩
      wrapPass k (HalfBlock.count ⟨b.c0, b.c1⟩ t) (t + 1) (⟨b.c2, b.c3⟩ :: done) rest

/-- One pass backwards, over the half blocks in reverse; `t` is the count of the
next step. -/
def unwrapPass (k : Key) (a : HalfBlock) (t : Nat) (done : List HalfBlock) :
    List HalfBlock → HalfBlock × List HalfBlock
  | [] => (a, done)
  | r :: rest =>
      let a := a.count t
      let b := k.decrypt ⟨a.high, a.low, r.high, r.low⟩
      unwrapPass k ⟨b.c0, b.c1⟩ (t - 1) (⟨b.c2, b.c3⟩ :: done) rest

def passes : Nat := 6

def wrapPasses (k : Key) (n : Nat) (s : HalfBlock × List HalfBlock) :
    (left : Nat) → HalfBlock × List HalfBlock
  | 0 => s
  | left + 1 => wrapPasses k n (wrapPass k s.1 (n * (passes - 1 - left) + 1) [] s.2) left

def unwrapPasses (k : Key) (n : Nat) (s : HalfBlock × List HalfBlock) :
    (left : Nat) → HalfBlock × List HalfBlock
  | 0 => s
  | left + 1 => unwrapPasses k n (unwrapPass k s.1 (n * (left + 1)) [] s.2.reverse) left

def halfBlocks (bytes : ByteArray) : List HalfBlock :=
  (List.range (bytes.size / 8)).map (HalfBlock.ofBytes bytes)

def joinHalfBlocks (bs : List HalfBlock) : ByteArray :=
  bs.foldl (fun out b => b.pushTo out) ByteArray.empty

/-- Wrap a key, `none` when it is not made of half blocks. -/
def keyWrap? (kek key : ByteArray) : Option ByteArray :=
  if key.size % 8 ≠ 0 then none
  else
    let bs := halfBlocks key
    let (a, bs) := wrapPasses (Key.ofBytes kek) bs.length (⟨wrapStart, wrapStart⟩, bs) passes
    some (joinHalfBlocks (a :: bs))

/-- Unwrap a key, `none` when the passes do not arrive at the fixed value. -/
def keyUnwrap? (kek wrapped : ByteArray) : Option ByteArray :=
  if wrapped.size % 8 ≠ 0 then none
  else
    match halfBlocks wrapped with
    | [] => none
    | a :: bs =>
        let (a, bs) := unwrapPasses (Key.ofBytes kek) bs.length (a, bs) passes
        if a = ⟨wrapStart, wrapStart⟩ then some (joinHalfBlocks bs) else none

end SealedToken.Aes
