import Mathlib.Data.List.MinMax
import SealedToken.Proofs.Failure
import SealedToken.Proofs.Outcome

/-!
Which of many errors is told. The errors come in groups, one group for everything that is
tried, and the choice is made in each group and then among the groups. That is the choice
among all of them at once: the first of those that tell the most. Beside the errors stands
what was tried, of which the log tells the part that was tried with a key.
-/

namespace SealedToken

variable {α β : Type}

/-! ### The choice -/

namespace Error

variable {e new : Error} {errors other before after : List Error} {current later : Option Error}

/-- The error that is kept of one from before and one from later. -/
def choose (current later : Option Error) : Option Error :=
  later.elim current (mostRelevant current)

@[simp] theorem choose_none : choose current none = current := rfl

@[simp] theorem choose_some : choose current (some new) = mostRelevant current new := rfl

@[simp] theorem none_choose : choose none later = later := by
  cases later <;> rfl

theorem mostRelevant_some :
    mostRelevant (some e) new = if e.rank ≤ new.rank then some e else some new := rfl

/-- Once there has been an error, there is one that is kept. -/
theorem exists_mostRelevant : ∃ e, mostRelevant current new = some e := by
  cases current with
  | none => exact ⟨new, rfl⟩
  | some e =>
      rw [mostRelevant_some]
      split <;> simp

/-- Which two of three are compared first makes no difference. -/
theorem choose_assoc {one two three : Option Error} :
    choose (choose one two) three = choose one (choose two three) := by
  rcases one with _ | a
  · simp
  rcases two with _ | b
  · simp
  rcases three with _ | c
  · simp
  simp only [choose_some, mostRelevant_some]
  split_ifs <;> simp only [choose_some, mostRelevant_some] <;> split_ifs <;> first | rfl | omega

/-- What was kept before is compared with the choice among the rest. -/
theorem foldl_mostRelevant :
    errors.foldl mostRelevant current = choose current (mostRelevantOf errors) := by
  induction errors generalizing current with
  | nil => rfl
  | cons e rest ih =>
      rw [mostRelevantOf, List.foldl_cons, List.foldl_cons, ih, ih, ← choose_some,
        ← @choose_some e none, none_choose, choose_assoc]

theorem mostRelevantOf_cons :
    mostRelevantOf (e :: errors) = choose (some e) (mostRelevantOf errors) := by
  rw [mostRelevantOf, List.foldl_cons, foldl_mostRelevant]
  rfl

theorem mostRelevantOf_append :
    mostRelevantOf (before ++ after) = choose (mostRelevantOf before) (mostRelevantOf after) := by
  rw [mostRelevantOf, List.foldl_append, foldl_mostRelevant]
  rfl

/-- Choosing in each group and then among the groups is choosing among all at once. -/
theorem mostRelevantOf_flatten {groups : List (List Error)} :
    mostRelevantOf (groups.filterMap mostRelevantOf) = mostRelevantOf groups.flatten := by
  induction groups with
  | nil => rfl
  | cons group rest ih =>
      rw [List.flatten_cons, mostRelevantOf_append, ← ih]
      cases hgroup : mostRelevantOf group with
      | none => rw [List.filterMap_cons_none hgroup, none_choose]
      | some e => rw [List.filterMap_cons_some hgroup, mostRelevantOf_cons]

/-- The choice is the first error of the least rank. -/
theorem mostRelevantOf_eq_argmin : mostRelevantOf errors = errors.argmin rank := by
  have hstep : mostRelevant = List.argAux fun new e => rank new < rank e := by
    funext current new
    cases current with
    | none => rfl
    | some e =>
        simp only [mostRelevant_some, List.argAux]
        split_ifs <;> first | rfl | omega
  rw [mostRelevantOf, hstep]
  rfl

theorem exists_mostRelevantOf (h : errors ≠ []) : ∃ e, mostRelevantOf errors = some e := by
  rw [← Option.ne_none_iff_exists', mostRelevantOf_eq_argmin, Ne, List.argmin_eq_none]
  exact h

/-- The order of the errors has no part in the rank of the one that is told. -/
theorem rank_eq_of_perm (hperm : errors.Perm other) (h : mostRelevantOf errors = some e)
    (hother : mostRelevantOf other = some new) : e.rank = new.rank := by
  rw [mostRelevantOf_eq_argmin] at h hother
  apply Nat.le_antisymm
  · exact List.le_of_mem_argmin (hperm.mem_iff.2 (List.argmin_mem hother)) h
  · exact List.le_of_mem_argmin (hperm.mem_iff.1 (List.argmin_mem h)) hother

end Error

/-! ### What was tried -/

/-- What of a token has failed: one of its entries before any key was tried for it, or a key
that was tried for an entry. -/
inductive Miss
  | untried (error : Error)
  | tried (attempt : FailedAttempt)

namespace Miss

def error : Miss → Error
  | .untried error => error
  | .tried attempt => attempt.error

/-- The line of the log that tells of it. -/
def attempt? : Miss → Option FailedAttempt
  | .untried _ => none
  | .tried attempt => some attempt

/-- Before any key is tried, all that fails are the checks of a header and the look for keys. -/
def Sound : Miss → Prop
  | .untried error => error.isFurther = false
  | .tried _ => True

/-- Of the keys that are tried for an entry those that fail, each by itself. -/
def ofKeys (f : Jwk → Except Error β) (algorithm : String) (keys : List Jwk) : List Miss :=
  keys.filterMap fun key =>
    match f key with
    | .ok _ => none
    | .error error => some (.tried ⟨key.kid, algorithm, error⟩)

/-- What fails of an entry: the checks before any key is tried for it or, where they give
something to try, what is tried of that. -/
def ofEntry (prepared : Except Error α) (tries : α → List Miss) : List Miss :=
  match prepared with
  | .error error => [.untried error]
  | .ok pending => tries pending

section Entry

variable {prepared other : Except Error α} {tries : α → List Miss} {f : Jwk → Except Error β}
  {algorithm : String} {keys : List Jwk} {miss : Miss}

theorem sound_of_mem_ofKeys (h : miss ∈ ofKeys f algorithm keys) : miss.Sound := by
  obtain ⟨key, -, hmiss⟩ := List.mem_filterMap.1 h
  split at hmiss
  · simp at hmiss
  · obtain rfl := Option.some.inj hmiss
    trivial

theorem sound_of_mem_ofEntry (hprepared : Preliminary prepared)
    (htries : ∀ pending, ∀ miss ∈ tries pending, miss.Sound)
    (h : miss ∈ ofEntry prepared tries) : miss.Sound := by
  cases prepared with
  | error error =>
      obtain rfl := List.mem_singleton.1 h
      exact hprepared error rfl
  | ok pending => exact htries pending miss h

/-- The order in which something is tried has no part in what fails. -/
theorem ofEntry_perm {R : α → α → Prop} (h : SameOutcome R prepared other)
    (htries : ∀ one two, R one two → (tries one).Perm (tries two)) :
    (ofEntry prepared tries).Perm (ofEntry other tries) := by
  cases h with
  | error error => exact .refl _
  | ok h => exact htries _ _ h

/-- Attempts in a row without a success miss with every key, and tell of that in order. -/
theorem ofKeys_of_tryEach (algorithm : String) (h : (tryEach f keys).2 = none) :
    (tryEach f keys).1.map (·.1) = keys ∧
      ofKeys f algorithm keys =
        (tryEach f keys).1.map fun failed => .tried ⟨failed.1.kid, algorithm, failed.2⟩ := by
  induction keys with
  | nil => exact ⟨rfl, rfl⟩
  | cons key rest ih =>
      rw [tryEach] at h ⊢
      cases hkey : f key with
      | ok b => simp [hkey] at h
      | error error =>
          rw [hkey] at h
          obtain ⟨hkeys, hmisses⟩ := ih h
          simp only [ofKeys, List.filterMap_cons, hkey]
          exact ⟨congrArg _ hkeys, congrArg _ hmisses⟩

end Entry

end Miss

/-! ### What is told of it -/

/-- The failure and the log that tell of misses: the failure is the choice among their errors,
and the log has a line for each of them that was made with a key. -/
structure Tells (misses : List Miss) (failure : Option Error) (log : List FailedAttempt) :
    Prop where
  failure : Error.mostRelevantOf (misses.map Miss.error) = failure
  log : misses.filterMap Miss.attempt? = log

theorem tells_nil : Tells [] none [] := ⟨rfl, rfl⟩

/-- An entry that fails before any key was tried for it is told of by its error alone. -/
theorem tells_untried {error : Error} : Tells [.untried error] (some error) [] := ⟨rfl, rfl⟩

/-- What is told of an entry joins what was told of those before. -/
theorem Tells.append {before after : List Miss} {failure : Option Error} {error : Error}
    {log more : List FailedAttempt} (h : Tells before failure log)
    (hafter : Tells after (some error) more) :
    Tells (before ++ after) (Error.mostRelevant failure error) (log ++ more) where
  failure := by
    rw [List.map_append, Error.mostRelevantOf_append, h.failure, hafter.failure, Error.choose_some]
  log := by rw [List.filterMap_append, h.log, hafter.log]

/-- What is told of several entries: the choice among the failures of all, and the logs in a
row. -/
theorem tells_flatMap {entries : List α} {misses : α → List Miss}
    {failure : α → Option Error} {log : α → List FailedAttempt}
    (h : ∀ a ∈ entries, Tells (misses a) (failure a) (log a)) :
    Tells (entries.flatMap misses) (Error.mostRelevantOf (entries.filterMap failure))
      (entries.flatMap log) where
  failure := by
    calc
      Error.mostRelevantOf ((entries.flatMap misses).map Miss.error)
        = Error.mostRelevantOf (entries.map fun a => (misses a).map Miss.error).flatten := by
          rw [List.map_flatMap, List.flatMap_def]
      _ = Error.mostRelevantOf ((entries.map fun a => (misses a).map Miss.error).filterMap
            Error.mostRelevantOf) := Error.mostRelevantOf_flatten.symm
      _ = Error.mostRelevantOf (entries.filterMap failure) := by
          rw [List.filterMap_map]
          exact congrArg _ (List.filterMap_congr fun a ha => (h a ha).failure)
  log := by
    rw [List.filterMap_flatMap]
    exact List.flatMap_congr fun a ha => (h a ha).log

/-- What is told of an entry all of whose keys have failed. -/
theorem tells_ofKeys {f : Jwk → Except Error β} {algorithm : String} {keys : List Jwk}
    {default : Error} (hkeys : keys ≠ []) (h : (tryEach f keys).2 = none) :
    Tells (Miss.ofKeys f algorithm keys)
      (some ((Error.mostRelevantOf ((tryEach f keys).1.map (·.2))).getD default))
      ((tryEach f keys).1.map fun failed => ⟨failed.1.kid, algorithm, failed.2⟩) := by
  obtain ⟨hall, hmisses⟩ := Miss.ofKeys_of_tryEach algorithm h
  generalize (tryEach f keys).1 = failures at *
  have herrors : failures.map (·.2) ≠ [] := by
    rintro hnil
    obtain rfl := List.map_eq_nil_iff.1 hnil
    exact hkeys hall.symm
  obtain ⟨error, herror⟩ := Error.exists_mostRelevantOf herrors
  rw [hmisses, herror]
  constructor
  · rw [List.map_map]
    exact herror
  · simp [List.filterMap_map, Function.comp_def, Miss.attempt?]

/-- What is told of the same misses in another order has an error of the same rank. -/
theorem Tells.rank_eq {misses others : List Miss} {error other : Error}
    {log logOther : List FailedAttempt} (h : Tells misses (some error) log)
    (hother : Tells others (some other) logOther) (hperm : misses.Perm others) :
    other.rank = error.rank :=
  Error.rank_eq_of_perm (hperm.map Miss.error).symm hother.failure h.failure

/-! ### The report of a token -/

/-- What a token reports of the misses with its entries. -/
structure Reports (misses : List Miss) (error : Error) (log : List FailedAttempt) : Prop where
  /-- The error is the first of the least rank. -/
  least : (misses.map Miss.error).argmin Error.rank = some error
  /-- It is what one choice among all errors in a row gives. -/
  flat : Error.mostRelevantOf (misses.map Miss.error) = some error
  /-- The log has a line for every key that failed. -/
  logged : log = misses.filterMap Miss.attempt?
  /-- That the signature or the content is not authentic is told of a key that was tried. -/
  tried : error = .invalidSignature ∨ error = .authenticationFailure →
    ∃ attempt, .tried attempt ∈ misses ∧ attempt.error = error

theorem Tells.reports {misses : List Miss} {error : Error} {log : List FailedAttempt}
    (h : Tells misses (some error) log) (hsound : ∀ miss ∈ misses, miss.Sound) :
    Reports misses error log where
  least := Error.mostRelevantOf_eq_argmin ▸ h.failure
  flat := h.failure
  logged := h.log.symm
  tried := by
    intro hfurther
    obtain ⟨miss, hmiss, hmissed⟩ := List.mem_map.1 (Error.mem_of_mostRelevantOf h.failure)
    cases miss with
    | tried attempt => exact ⟨attempt, hmiss, hmissed⟩
    | untried early =>
        -- no check of a header fails that way
        obtain rfl : early = error := hmissed
        have hearly : early.isFurther = false := hsound _ hmiss
        rcases hfurther with rfl | rfl <;> simp [Error.isFurther] at hearly

end SealedToken
