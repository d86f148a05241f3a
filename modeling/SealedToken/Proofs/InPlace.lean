import SealedToken.Proofs.Outcome

/-!
Changes that are carried out in place, step by step. What such a change has written when it
fails stays written. Nothing does when all that can fail comes before all that is written:
then the change is made as a whole or not at all.
-/

namespace SealedToken

/-- A change of a state in place. A failure leaves the state as it is by then. -/
abbrev InPlace (σ α : Type) := EStateM Error σ α

namespace InPlace

variable {σ α : Type} {f : σ → Except Error α}

/-- A step that only looks at the state, and may fail. -/
def look (f : σ → Except Error α) : InPlace σ α := fun s =>
  match f s with
  | .ok a => .ok a s
  | .error error => .error error s

/-- A change as a whole: a failure leaves the state as it was. -/
def whole (change : σ → Except Error σ) : InPlace σ Unit := fun s =>
  match change s with
  | .ok after => .ok () after
  | .error error => .error error s

variable {change : σ → Except Error σ} {s after : σ} {error : Error}

theorem whole_eq_ok : (whole change).run s = .ok () after ↔ change s = .ok after := by
  rw [EStateM.run, whole]
  cases change s <;> simp

theorem whole_eq_error :
    (whole change).run s = .error error after ↔ after = s ∧ change s = .error error := by
  rw [EStateM.run, whole]
  cases change s <;> simp [and_comm, eq_comm]

/-- A look comes before a change. -/
theorem look_bind {next : α → InPlace σ Unit} {change : α → σ → Except Error σ}
    (h : ∀ a, next a = whole (change a)) :
    (look f >>= next) = whole fun s => f s >>= fun a => change a s := by
  funext s
  change (look f).bind next s = _
  unfold EStateM.bind look
  cases hlook : f s with
  | error error => simp [whole, hlook]
  | ok a => simp [whole, hlook, h]

/-- A state can be written without fail. -/
theorem modify_eq_whole (write : σ → σ) :
    (modify write : InPlace σ Unit) = whole fun s => .ok (write s) :=
  rfl

/-- What cannot fail comes after a change. -/
theorem whole_bind_modify {write : σ → σ} :
    (whole change >>= fun _ => modify write) = whole fun s => (change s).map write := by
  funext s
  change (whole change).bind (fun _ => modify write) s = _
  unfold EStateM.bind
  cases hchange : change s with
  | error error => simp [whole, hchange, Except.map]
  | ok after => simp [whole, hchange, Except.map, modify_eq_whole]

end InPlace

end SealedToken
