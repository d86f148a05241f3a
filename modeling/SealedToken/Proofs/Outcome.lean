import Mathlib.Data.List.Forall2
import SealedToken.Attempt

/-!
How a success or a failure of an operation is taken apart: the steps of which it
consists, the attempts in a row, and the error that is told of many.
-/

namespace SealedToken

/-! ### Steps in sequence -/

section Steps

variable {ε α β : Type}

@[simp] theorem pure_eq_ok (a : α) : (pure a : Except ε α) = .ok a := rfl

@[simp] theorem throw_eq_error (e : ε) : (throw e : Except ε α) = .error e := rfl

@[simp] theorem ok_bind (a : α) (f : α → Except ε β) : (Except.ok a >>= f) = f a := rfl

@[simp] theorem error_bind (e : ε) (f : α → Except ε β) :
    (Except.error e >>= f) = .error e := rfl

@[simp] theorem bind_eq_ok {x : Except ε α} {f : α → Except ε β} {b : β} :
    x >>= f = .ok b ↔ ∃ a, x = .ok a ∧ f a = .ok b := by
  cases x <;> simp

/-- A step that gives nothing has only to succeed. -/
theorem seq_eq_ok {x : Except ε Unit} {f : Unit → Except ε β} {b : β} :
    x >>= f = .ok b ↔ x = .ok () ∧ f () = .ok b := by
  cases x <;> simp

/-- A guard is passed when its condition does not hold. -/
@[simp] theorem ite_error_eq_ok {c : Prop} [Decidable c] {x : Except ε α} {e : ε} {a : α} :
    (if c then .error e else x) = .ok a ↔ ¬ c ∧ x = .ok a := by
  split <;> simp_all

/-- Two ways to begin, and one to go on. -/
theorem ite_bind_eq_ok {c : Prop} [Decidable c] {x y : Except ε α} {f : α → Except ε β} {b : β} :
    (if c then x >>= f else y >>= f) = .ok b ↔ ∃ a, (if c then x else y) = .ok a ∧ f a = .ok b := by
  split <;> exact bind_eq_ok

@[simp] theorem map_eq_ok {x : Except ε α} {f : α → β} {b : β} :
    x.map f = .ok b ↔ ∃ a, x = .ok a ∧ f a = b := by
  cases x <;> simp [Except.map]

@[simp] theorem isOk_ok (a : α) : (Except.ok a : Except ε α).isOk = true := rfl

@[simp] theorem isOk_error (e : ε) : (Except.error e : Except ε α).isOk = false := rfl

theorem isOk_iff {x : Except ε α} : x.isOk = true ↔ ∃ a, x = .ok a := by
  cases x <;> simp

theorem isOk_iff_eq_ok {x : Except ε Unit} : x.isOk = true ↔ x = .ok () := by
  cases x <;> simp

theorem toOption_eq_some {x : Except ε α} {a : α} : x.toOption = some a ↔ x = .ok a := by
  cases x <;> simp [Except.toOption]

/-- An operation that is known to succeed by its value, and what it leaves. -/
theorem exists_eq_of_fst {σ : Type} {x : Except ε α × σ} {a : α} (h : x.1 = .ok a) :
    ∃ after, x = (.ok a, after) :=
  ⟨x.2, Prod.ext h rfl⟩

/-- An operation that is known not to succeed by its value, and what it leaves. -/
theorem exists_error_of_fst {σ : Type} {x : Except ε Unit × σ} (h : x.1 ≠ .ok ()) :
    ∃ e after, x = (.error e, after) := by
  obtain ⟨_ | e, after⟩ := x
  · exact ⟨_, after, rfl⟩
  · exact absurd rfl h

/-- A step for every member of a list gives the results of the members in order. -/
theorem mapM_eq_ok {f : α → Except ε β} {as : List α} {bs : List β} :
    as.mapM f = .ok bs ↔ List.Forall₂ (fun a b => f a = .ok b) as bs := by
  induction as generalizing bs with
  | nil => simp [eq_comm]
  | cons a rest ih =>
      simp only [List.mapM_cons, bind_eq_ok, pure_eq_ok, Except.ok.injEq,
        List.forall₂_cons_left_iff, ih]
      constructor
      · rintro ⟨b, hb, bs, hbs, rfl⟩
        exact ⟨b, bs, hb, hbs, rfl⟩
      · rintro ⟨b, bs, hb, hbs, rfl⟩
        exact ⟨b, hb, bs, hbs, rfl⟩

/-- Where two lists correspond, each member of the second has one in the first. -/
theorem exists_of_forall₂ {R : α → β → Prop} {as : List α} {bs : List β}
    (h : List.Forall₂ R as bs) {b : β} (hb : b ∈ bs) : ∃ a ∈ as, R a b := by
  obtain ⟨i, hi, rfl⟩ := List.getElem_of_mem hb
  have hi' : i < as.length := h.length_eq ▸ hi
  exact ⟨as[i], List.getElem_mem hi', h.get hi' hi⟩

theorem exists_of_mapM_eq_ok {f : α → Except ε β} {as : List α} {bs : List β}
    (h : as.mapM f = .ok bs) {b : β} (hb : b ∈ bs) : ∃ a ∈ as, f a = .ok b :=
  exists_of_forall₂ (mapM_eq_ok.1 h) hb

/-- Two operations have the same outcome up to a relation: they fail with the same error, or
give results that are related. -/
inductive SameOutcome (R : α → β → Prop) : Except ε α → Except ε β → Prop
  | error (e : ε) : SameOutcome R (.error e) (.error e)
  | ok {a : α} {b : β} (h : R a b) : SameOutcome R (.ok a) (.ok b)

theorem SameOutcome.bind {γ δ : Type} {S : γ → δ → Prop} {R : α → β → Prop} {x : Except ε γ}
    {y : Except ε δ} {f : γ → Except ε α} {g : δ → Except ε β} (h : SameOutcome S x y)
    (hrest : ∀ c d, S c d → SameOutcome R (f c) (g d)) : SameOutcome R (x >>= f) (y >>= g) := by
  cases h with
  | error e => exact .error e
  | ok h => exact hrest _ _ h

/-- What two operations begin with in common has no part in how their outcomes relate. -/
theorem SameOutcome.bind_common {γ : Type} {R : α → β → Prop} (x : Except ε γ)
    {f : γ → Except ε α} {g : γ → Except ε β} (hrest : ∀ c, SameOutcome R (f c) (g c)) :
    SameOutcome R (x >>= f) (x >>= g) := by
  cases x with
  | error e => exact .error e
  | ok c => exact hrest c

end Steps

/-! ### The first of many -/

/-- The first member of a list that has a property. -/
def FirstWith {α : Type} (P : α → Prop) (as : List α) (a : α) : Prop :=
  ∃ before rest, as = before ++ a :: rest ∧ P a ∧ ∀ b ∈ before, ¬ P b

section First

variable {α : Type} {P : α → Prop} {as : List α} {a b : α}

theorem FirstWith.mem (h : FirstWith P as a) : a ∈ as := by
  obtain ⟨before, rest, rfl, -, -⟩ := h
  simp

theorem FirstWith.holds (h : FirstWith P as a) : P a := by
  obtain ⟨-, -, -, ha, -⟩ := h
  exact ha

@[simp] theorem not_firstWith_nil : ¬ FirstWith P [] a := fun h => by simpa using h.mem

theorem firstWith_cons : FirstWith P (b :: as) a ↔ P b ∧ a = b ∨ ¬ P b ∧ FirstWith P as a := by
  constructor
  · rintro ⟨_ | ⟨c, before⟩, rest, heq, ha, hbefore⟩
    · obtain ⟨rfl, -⟩ := List.cons.inj heq
      exact .inl ⟨ha, rfl⟩
    · obtain ⟨rfl, rfl⟩ := List.cons.inj heq
      exact .inr ⟨hbefore b (by simp), before, rest, rfl, ha, fun c hc => hbefore c (by simp [hc])⟩
  · rintro (⟨hb, rfl⟩ | ⟨hb, before, rest, rfl, ha, hbefore⟩)
    · exact ⟨[], as, rfl, hb, by simp⟩
    · exact ⟨b :: before, rest, rfl, ha, by simpa [hb] using hbefore⟩

/-- Where some member has a property, one is the first. -/
theorem exists_firstWith : (∃ a, FirstWith P as a) ↔ ∃ a ∈ as, P a := by
  constructor
  · rintro ⟨a, ha⟩
    exact ⟨a, ha.mem, ha.holds⟩
  · rintro ⟨a, ha, hP⟩
    induction as with
    | nil => simp at ha
    | cons b rest ih =>
        by_cases hb : P b
        · exact ⟨b, firstWith_cons.2 (.inl ⟨hb, rfl⟩)⟩
        · obtain ⟨c, hc⟩ := ih ((List.mem_cons.1 ha).resolve_left fun heq => hb (heq ▸ hP))
          exact ⟨c, firstWith_cons.2 (.inr ⟨hb, hc⟩)⟩

end First

/-! ### Attempts in a row -/

section Attempts

variable {α β : Type} {f : α → Except Error β} {as : List α}

/-- A success is the success of a member. -/
theorem tryEach_success {b : β} (h : (tryEach f as).2 = some b) : ∃ a ∈ as, f a = .ok b := by
  induction as with
  | nil => simp [tryEach] at h
  | cons a rest ih =>
      rw [tryEach] at h
      split at h
      · next b' hb =>
          obtain rfl : b' = b := by simpa using h
          exact ⟨a, by simp, hb⟩
      · obtain ⟨a', ha', hb⟩ := ih h
        exact ⟨a', by simp [ha'], hb⟩

/-- The attempts end with the first that succeeds. -/
theorem tryEach_eq_some {b : β} :
    (tryEach f as).2 = some b ↔
      ∃ a, FirstWith (fun a => (f a).isOk = true) as a ∧ f a = .ok b := by
  induction as with
  | nil => simp [tryEach]
  | cons c rest ih =>
      rw [tryEach]
      cases hc : f c with
      | ok found => simp [firstWith_cons, hc]
      | error error => simp [firstWith_cons, hc, ih]

/-- There is a success as soon as some member succeeds. -/
theorem isSome_tryEach : (tryEach f as).2.isSome = true ↔ ∃ a ∈ as, (f a).isOk = true := by
  induction as with
  | nil => simp [tryEach]
  | cons a rest ih =>
      rw [tryEach]
      split
      · next b hb => simp [hb]
      · next e he => simp [he, ih]

/-- Every failure is the failure of a member. -/
theorem tryEach_failure {a : α} {e : Error} (h : (a, e) ∈ (tryEach f as).1) :
    a ∈ as ∧ f a = .error e := by
  induction as with
  | nil => simp [tryEach] at h
  | cons b rest ih =>
      rw [tryEach] at h
      split at h
      · simp at h
      · next e' he =>
          rcases List.mem_cons.1 h with heq | h
          · obtain ⟨rfl, rfl⟩ := Prod.mk.inj heq
            exact ⟨by simp, he⟩
          · obtain ⟨ha, hb⟩ := ih h
            exact ⟨by simp [ha], hb⟩

/-- Attempts that have the same outcome for every member. -/
theorem tryEach_congr {g : α → Except Error β} (h : ∀ a ∈ as, f a = g a) :
    tryEach f as = tryEach g as := by
  induction as with
  | nil => rfl
  | cons a rest ih =>
      rw [tryEach, tryEach, h a (by simp), ih fun b hb => h b (by simp [hb])]

end Attempts

/-! ### The error that is told -/

/-- Of an error and a later one, one of the two is kept. -/
theorem Error.mostRelevant_eq {current : Option Error} {new e : Error}
    (h : Error.mostRelevant current new = some e) : current = some e ∨ new = e := by
  cases current with
  | none => exact .inr (by simpa [Error.mostRelevant] using h)
  | some error =>
      rw [Error.mostRelevant] at h
      split at h
      · exact .inl h
      · exact .inr (by simpa using h)

theorem Error.mem_of_foldl_mostRelevant {errors : List Error} {current : Option Error} {e : Error}
    (h : errors.foldl Error.mostRelevant current = some e) : current = some e ∨ e ∈ errors := by
  induction errors generalizing current with
  | nil => exact .inl h
  | cons new rest ih =>
      rcases ih h with h | h
      · rcases Error.mostRelevant_eq h with h | rfl
        · exact .inl h
        · exact .inr (by simp)
      · exact .inr (by simp [h])

/-- The error that is told of many is one of them. -/
theorem Error.mem_of_mostRelevantOf {errors : List Error} {e : Error}
    (h : Error.mostRelevantOf errors = some e) : e ∈ errors := by
  rcases Error.mem_of_foldl_mostRelevant h with h | h
  · simp at h
  · exact h

end SealedToken
