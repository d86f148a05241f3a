import SealedToken.Deflate.Bounded

/-!
No expansion is longer than the limit it was made under, whatever the decoder gives.
-/

namespace SealedToken.Deflate

variable {σ : Type} {d : StreamDecoder σ} {input output : ByteArray} {limit : Nat}

theorem inflateFrom_size_le {fuel : Nat} {s : σ} {consumed capacity : Nat} {held : ByteArray}
    (h : inflateFrom d input limit s consumed held capacity fuel = .ok output) :
    output.size ≤ limit := by
  induction fuel generalizing s consumed held capacity with
  | zero => simp [inflateFrom] at h
  | succ fuel ih =>
      rw [inflateFrom] at h
      split at h
      · simp at h
      · next reply hreply =>
          dsimp only at h
          split at h
          · simp at h
          · next hlimit =>
              split at h
              · -- the end was reached before the limit was passed
                obtain rfl := Except.ok.inj h
                exact Nat.le_of_not_lt hlimit
              · split at h
                · simp at h
                · exact ih h

theorem inflateWith_size_le (h : inflateWith d input limit = .ok output) :
    output.size ≤ limit :=
  inflateFrom_size_le h

theorem inflate_size_le (h : inflate input limit = .ok output) : output.size ≤ limit :=
  inflateWith_size_le h

end SealedToken.Deflate
