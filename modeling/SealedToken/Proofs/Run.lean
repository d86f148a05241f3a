import Mathlib.Data.List.Induction

/-!
Objects that are changed by one call after the other. What holds of an object at
the end of a run was brought about by some call and left alone by all later ones.
-/

namespace SealedToken.Run

variable {σ κ : Type} {step : σ → κ → σ} {P : σ → Prop} {E : σ → κ → Prop} {K : κ → Prop}

/-- Suppose that every call after which `P` holds brings it about (`E`) or finds it
and is harmless (`K`). When `P` holds after a run and not before it, then some call
of the run brought it about and only harmless calls came later. -/
theorem exists_origin (hstep : ∀ s c, P (step s c) → E s c ∨ P s ∧ K c) {s : σ} (hs : ¬ P s)
    {calls : List κ} (h : P (calls.foldl step s)) :
    ∃ before c after, calls = before ++ c :: after ∧ E (before.foldl step s) c ∧
      ∀ d ∈ after, K d := by
  -- from the end of the run: its last call brought it about, or the run before it did
  induction calls using List.reverseRecOn with
  | nil => exact absurd h hs
  | append_singleton calls last ih =>
      rw [List.foldl_append, List.foldl_cons, List.foldl_nil] at h
      rcases hstep _ _ h with hE | ⟨hP, hK⟩
      · exact ⟨calls, last, [], rfl, hE, by simp⟩
      · obtain ⟨before, c, after, rfl, hE, hafter⟩ := ih hP
        refine ⟨before, c, after ++ [last], by simp, hE, fun d hd => ?_⟩
        rcases List.mem_append.1 hd with hd | hd
        · exact hafter d hd
        · rwa [List.mem_singleton.1 hd]

/-- Suppose that `P` holds after a call exactly when the call brings it about (`E`) or
finds it and spares it (`S`). When it does not hold before a run, it holds after the run
exactly when some call brought it about that was followed only by calls that spared it. -/
theorem holds_iff {S : σ → κ → Prop}
    (hstep : ∀ s c, P (step s c) ↔ E s c ∨ P s ∧ S s c) {s : σ} (hs : ¬ P s)
    {calls : List κ} :
    P (calls.foldl step s) ↔
      ∃ before c after, calls = before ++ c :: after ∧ E (before.foldl step s) c ∧
        ∀ between d rest, after = between ++ d :: rest →
          S ((before ++ c :: between).foldl step s) d := by
  -- from the end of the run: its last call brought it about, or spared it
  induction calls using List.reverseRecOn with
  | nil => simp [hs]
  | append_singleton calls last ih =>
      rw [List.foldl_append, List.foldl_cons, List.foldl_nil, hstep, ih]
      constructor
      · rintro (hE | ⟨⟨before, c, after, rfl, hE, hafter⟩, hS⟩)
        · exact ⟨calls, last, [], rfl, hE, by simp⟩
        · refine ⟨before, c, after ++ [last], by simp, hE, fun between d rest heq => ?_⟩
          rcases List.eq_nil_or_concat rest with rfl | ⟨rest, d', rfl⟩
          · obtain ⟨rfl, rfl⟩ := List.append_inj' heq rfl |>.imp id List.singleton_inj.1
            exact hS
          · rw [List.concat_eq_append, ← List.cons_append, ← List.append_assoc] at heq
            exact hafter between d rest (List.append_inj' heq rfl).1
      · rintro ⟨before, c, after, heq, hE, hafter⟩
        rcases List.eq_nil_or_concat after with rfl | ⟨after, d, rfl⟩
        · obtain ⟨rfl, rfl⟩ := List.append_inj' heq rfl |>.imp id List.singleton_inj.1
          exact .inl hE
        · rw [List.concat_eq_append, ← List.cons_append, ← List.append_assoc] at heq
          obtain ⟨rfl, hlast⟩ := List.append_inj' heq rfl
          obtain rfl := List.singleton_inj.1 hlast
          refine .inr ⟨⟨before, c, after, rfl, hE, fun between d' rest hrest => ?_⟩, ?_⟩
          · exact hafter between d' (rest ++ [last]) (by simp [hrest])
          · exact hafter after last [] (by simp)

end SealedToken.Run
