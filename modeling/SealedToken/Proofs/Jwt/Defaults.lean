import SealedToken.Proofs.Jwt.Window

/-!
Claims that are filled up with defaults. In the end there stands under each name the claim
that was given, or else what the default stands for. So no claim is ever replaced, a second
filling finds nothing left to do, and dates that are left open are made so that the claims
hold from now on until their validity is over.
-/

namespace SealedToken.Claims

variable {rng later : Entropy} {now validity time period leeway : Int}
  {claims defaults filled : Object} {name : String} {value : Json}

/-! ### One default -/

/-- The claims that are made where their default is null. -/
def madeNames : List String := ["exp", "nbf", "iat", "jti"]

theorem defaultValue?_of_ne_null (h : value ≠ .null) :
    defaultValue? rng now validity name value = some value := by
  have hnull : ¬ value.isNull = true := mt isNull_iff.1 h
  simp [defaultValue?, hnull]

/-- A default stands for a claim unless it is null and nothing is made for its name. -/
theorem isSome_defaultValue? :
    (defaultValue? rng now validity name value).isSome = true ↔
      value ≠ .null ∨ name ∈ madeNames := by
  by_cases hnull : value = .null
  · subst hnull
    by_cases hexp : name = "exp"
    · simp [defaultValue?, Json.isNull, madeNames, hexp]
    · by_cases hnow : name = "nbf" ∨ name = "iat"
      · simp [defaultValue?, Json.isNull, madeNames, hexp, hnow, ← or_assoc]
      · by_cases hjti : name = "jti"
        · simp [defaultValue?, Json.isNull, madeNames, hjti]
        · simp [defaultValue?, Json.isNull, madeNames, hexp, hnow, hjti]
  · simp [defaultValue?_of_ne_null hnull, hnull]

/-- Add one default, unless there is a claim of its name. -/
def addDefault (rng : Entropy) (now validity : Int) (out : Object) (m : String × Json) : Object :=
  if out.contains m.1 then out
  else
    match defaultValue? rng now validity m.1 m.2 with
    | some value => out.insert m.1 value
    | none => out

theorem withDefaults_eq_foldl :
    withDefaults rng now validity claims defaults =
      defaults.members.foldl (addDefault rng now validity) claims := rfl

theorem find?_addDefault {m : String × Json} :
    (addDefault rng now validity claims m).find? name =
      (claims.find? name).or
        (if m.1 = name then defaultValue? rng now validity m.1 m.2 else none) := by
  unfold addDefault
  split
  · next hgiven =>
      obtain ⟨given, hgiven⟩ := Object.contains_iff.1 hgiven
      by_cases hname : m.1 = name
      · simp [← hname, hgiven]
      · simp [hname]
  · next hmissing =>
      have hmissing := Object.contains_eq_false_iff.1 (by simpa using hmissing)
      by_cases hname : m.1 = name
      · subst hname
        cases hdefault : defaultValue? rng now validity m.1 m.2 <;> simp [hmissing]
      · cases hdefault : defaultValue? rng now validity m.1 m.2 <;> simp [hname]

/-! ### All defaults -/

/-- Defaults of distinct names are added, each under its own name. -/
theorem find?_foldl_addDefault {members : List (String × Json)}
    (distinct : members.Pairwise fun a b => a.1 ≠ b.1) :
    (members.foldl (addDefault rng now validity) claims).find? name =
      (claims.find? name).or
        (((members.find? (·.1 == name)).map (·.2)).bind (defaultValue? rng now validity name)) := by
  induction members generalizing claims with
  | nil => simp
  | cons m rest ih =>
      rw [List.pairwise_cons] at distinct
      rw [List.foldl_cons, ih distinct.2, find?_addDefault, Option.or_assoc]
      by_cases hname : m.1 = name
      · subst hname
        -- no later default has the name of this one
        have hrest : rest.find? (·.1 == m.1) = none := by
          rw [List.find?_eq_none]
          intro m' hm'
          simpa using (distinct.1 m' hm').symm
        simp [hrest]
      · simp [hname]

/-- Under each name there is the claim that was given, or else what the default stands for. -/
theorem find?_withDefaults :
    (withDefaults rng now validity claims defaults).find? name =
      (claims.find? name).or
        ((defaults.find? name).bind (defaultValue? rng now validity name)) := by
  rw [withDefaults_eq_foldl]
  exact find?_foldl_addDefault (defaults.ordered.imp String.ne_of_lt)

/-- Claims that have been filled up with defaults. -/
structure Fills (claims defaults filled : Object) : Prop where
  /-- Every claim that was given stays as it is. -/
  kept : ∀ name value, claims.find? name = some value → filled.find? name = some value
  /-- A name is added just when its default stands for a claim. -/
  names : ∀ name, filled.contains name = true ↔ claims.contains name = true ∨
    ∃ value, defaults.find? name = some value ∧ (value ≠ .null ∨ name ∈ madeNames)
  /-- A default is copied, unless it is null. -/
  copied : ∀ name value, claims.find? name = none → defaults.find? name = some value →
    value ≠ .null → filled.find? name = some value

theorem fills_withDefaults :
    Fills claims defaults (withDefaults rng now validity claims defaults) where
  kept name value h := by rw [find?_withDefaults, h, Option.some_or]
  names name := by
    rw [Object.contains_eq_isSome, Object.contains_eq_isSome, find?_withDefaults,
      Option.isSome_or, Bool.or_eq_true]
    refine or_congr_right ?_
    cases hdefault : defaults.find? name with
    | none => simp
    | some value => simp [isSome_defaultValue?]
  copied name value hmissing hdefault hvalue := by
    rw [find?_withDefaults, hmissing, Option.none_or, hdefault, Option.bind_some,
      defaultValue?_of_ne_null hvalue]

/-- What is filled up is full: whenever this is done again, there is a claim for each default
that stands for one. -/
theorem withDefaults_withDefaults :
    withDefaults later time period (withDefaults rng now validity claims defaults) defaults =
      withDefaults rng now validity claims defaults := by
  refine Object.ext_find? fun name => ?_
  have hfilled : Fills claims defaults (withDefaults rng now validity claims defaults) :=
    fills_withDefaults
  rw [find?_withDefaults]
  cases hfound : (withDefaults rng now validity claims defaults).find? name with
  | some value => rfl
  | none =>
      rw [Option.none_or, Option.bind_eq_none_iff]
      intro value hdefault
      rw [← Option.not_isSome_iff_eq_none, isSome_defaultValue?]
      intro hstands
      have hcontains := (hfilled.names name).2 (.inr ⟨value, hdefault, hstands⟩)
      rw [Object.contains_eq_isSome, hfound] at hcontains
      simp at hcontains

/-! ### Dates that are left open -/

/-- Neither a claim nor a default gives a value for a name. -/
def LeavesOpen (claims defaults : Object) (name : String) : Prop :=
  claims.find? name = none ∧ ∀ value, defaults.find? name = some value → value = .null

/-- What is found then has been made. -/
theorem LeavesOpen.made (h : LeavesOpen claims defaults name)
    (hfound : (withDefaults rng now validity claims defaults).find? name = some value) :
    defaultValue? rng now validity name .null = some value := by
  rw [find?_withDefaults, h.1, Option.none_or] at hfound
  obtain ⟨default, hdefault, hvalue⟩ := Option.bind_eq_some_iff.1 hfound
  obtain rfl := h.2 default hdefault
  exact hvalue

theorem made_exp : defaultValue? rng now validity "exp" .null =
    some (.int (Seconds.add now validity)) := rfl

theorem made_nbf : defaultValue? rng now validity "nbf" .null = some (.int now) := rfl

/-- Dates that were left open let the claims hold for as long as they are to be valid. -/
theorem checkValidity_withDefaults (hexp : LeavesOpen claims defaults "exp")
    (hnbf : LeavesOpen claims defaults "nbf") (hleast : Seconds.least ≤ now)
    (hgreatest : now + validity ≤ Seconds.greatest) (hbegun : now ≤ time)
    (hover : time ≤ now + validity) (hleeway : 0 ≤ leeway) :
    checkValidity (withDefaults rng now validity claims defaults) time leeway = .ok () := by
  refine checkValidity_eq_ok.2 ⟨fun value hvalue => ?_, fun value hvalue => ?_⟩
  · obtain rfl := Option.some.inj (made_exp.symm.trans (hexp.made hvalue))
    refine ⟨Seconds.clamp (Seconds.add now validity), rfl, ?_⟩
    unfold Seconds.add Seconds.clamp
    unfold Seconds.least Seconds.greatest at *
    omega
  · obtain rfl := Option.some.inj (made_nbf.symm.trans (hnbf.made hvalue))
    refine ⟨Seconds.clamp now, rfl, ?_⟩
    unfold Seconds.sub Seconds.clamp
    unfold Seconds.least Seconds.greatest at *
    omega

/-- Defaults only fill gaps. Every given claim stays as it is; the names that are added are
those whose default is not null or is made, and a default that is not null is copied. To fill
up again with the same defaults changes nothing, whenever it is done and for whatever
validity. And if expiry and beginning are left open, then the claims hold from now on until
the validity is over, under every leeway. -/
theorem defaults_fill_gaps (rng : Entropy) (now validity : Int) (claims defaults : Object) :
    Fills claims defaults (withDefaults rng now validity claims defaults) ∧
    (∀ later time period,
      withDefaults later time period (withDefaults rng now validity claims defaults) defaults =
        withDefaults rng now validity claims defaults) ∧
    (LeavesOpen claims defaults "exp" → LeavesOpen claims defaults "nbf" →
      Seconds.least ≤ now → now + validity ≤ Seconds.greatest →
      ∀ time leeway, now ≤ time → time ≤ now + validity → 0 ≤ leeway →
        checkValidity (withDefaults rng now validity claims defaults) time leeway = .ok ()) :=
  ⟨fills_withDefaults, fun _ _ _ => withDefaults_withDefaults,
    fun hexp hnbf hleast hgreatest _ _ hbegun hover hleeway =>
      checkValidity_withDefaults hexp hnbf hleast hgreatest hbegun hover hleeway⟩

/-- Defaults of all kinds: one that is copied, one that stands for nothing, and those for
which a value is made. -/
def sampleDefaults : Object :=
  .ofMembers [("iss", .str "issuer"), ("aud", .null), ("exp", .null), ("nbf", .null),
    ("iat", .null), ("jti", .null)]

def subjectClaims : Object := .ofMembers [("sub", .str "me")]

/-- Claims of a subject get all of them but the audience, a second time changes nothing, and
they hold until the last second of their ten minutes. -/
theorem subject_filled :
    let filled := withDefaults zeros 1700000000 600 subjectClaims sampleDefaults
    filled.find? "sub" = some (.str "me") ∧ filled.contains "jti" = true ∧
      filled.contains "aud" = false ∧ filled.find? "iss" = some (.str "issuer") ∧
      withDefaults zeros 1700000600 600 filled sampleDefaults = filled ∧
      checkValidity filled 1700000600 0 = .ok () := by
  obtain ⟨hfills, hagain, hholds⟩ :=
    defaults_fill_gaps zeros 1700000000 600 subjectClaims sampleDefaults
  refine ⟨hfills.kept _ _ rfl, (hfills.names _).2 (.inr ⟨.null, rfl, by decide⟩), ?_,
    hfills.copied _ _ rfl rfl (by simp), hagain _ _ _, hholds ?_ ?_ ?_ ?_ _ _ ?_ ?_ ?_⟩
  · rw [← Bool.not_eq_true, hfills.names]
    decide +kernel
  · exact ⟨rfl, fun value h => (Option.some.inj h).symm⟩
  · exact ⟨rfl, fun value h => (Option.some.inj h).symm⟩
  all_goals decide

end SealedToken.Claims
