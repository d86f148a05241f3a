import SealedToken.Proofs.Failure
import SealedToken.Proofs.Header.Rereading
import SealedToken.Proofs.Jwt.Window

/-!
Claims as a record: those with a fixed meaning, each of its type, and all others beside them.
Every member of an object ends up in one place of the record and is written once when the
record is, so reading and writing undo each other. What gets lost on the way is that a claim
with a fixed meaning was null instead of absent.
-/

namespace SealedToken

/-! ### Values that are read as they are written -/

namespace Json

variable {α : Type} {read? : Json → Option α} {write : α → Json} {Fits : α → Prop} {r : Record}
  {name : String} {member : Option α}

/-- Of all values those are read that are written for something that fits. -/
structure ReadsWritten (read? : Json → Option α) (write : α → Json) (Fits : α → Prop) : Prop where
  read_iff : ∀ value a, read? value = some a ↔ value = write a ∧ Fits a
  null : ∀ a, write a ≠ .null
  canonical : ∀ a, (write a).canonical = write a

theorem ReadsWritten.written (h : ReadsWritten read? write Fits) :
    ∀ m ∈ optionMember name write member, m.2.canonical = m.2 ∧ m.2 ≠ .null :=
  forall_mem_optionMember (P := fun value => value.canonical = value ∧ value ≠ .null)
    fun a _ => ⟨h.canonical a, h.null a⟩

theorem readsWritten_text : ReadsWritten asString? str fun _ => True where
  read_iff value text := by cases value <;> simp [asString?]
  null := by simp
  canonical _ := rfl

theorem readsWritten_seconds :
    ReadsWritten Seconds.ofJson? Json.int fun date => Seconds.inRange date = true where
  read_iff value date := by
    constructor
    · intro h
      obtain rfl := (Seconds.ofJson?_eq_some h).1
      exact ⟨rfl, (Option.ite_none_right_eq_some.1 h).1⟩
    · rintro ⟨rfl, hrange⟩
      exact if_pos hrange
  null := by simp [Json.int]
  canonical _ := rfl

/-- Strings are read of a list of just these strings. -/
theorem asStrings?_eq_some {value : Json} {texts : List String} :
    value.asStrings? = some texts ↔ value = .arr (texts.map .str) := by
  cases value with
  | arr items =>
      simp only [asStrings?, arr.injEq]
      induction items generalizing texts with
      | nil => cases texts <;> simp
      | cons item rest ih =>
          rw [List.mapM_cons]
          cases item with
          | str first =>
              simp only [asString?, Option.bind_eq_bind, Option.bind_some, Option.bind_eq_some_iff,
                Option.pure_def, Option.some.injEq, ih]
              cases texts with
              | nil => simp
              | cons text texts => simp [and_comm]
          | _ => cases texts <;> simp [asString?]
  | _ => simp [asStrings?]

theorem readsWritten_audience : ReadsWritten Audience.ofJson? Audience.toJson fun _ => True where
  read_iff value a := by
    cases a with
    | one name => cases value <;> simp [Audience.ofJson?, Audience.toJson]
    | many names =>
        cases value <;> simp [Audience.ofJson?, Audience.toJson, asStrings?_eq_some]
  null a := by cases a <;> simp [Audience.toJson]
  canonical a := by
    cases a with
    | one name => rfl
    | many names =>
        rw [Audience.toJson, canonical, canonicalItems_eq_map, List.map_map]
        rfl

/-- What is there, where null counts as nothing. -/
def present (found : Option Json) : Option Json := found.filter (! ·.isNull)

@[simp] theorem present_none : present none = none := rfl

theorem present_some {value : Json} :
    present (some value) = if value = .null then none else some value := by
  cases value <;> simp [present, isNull]

theorem ReadsWritten.present_map (h : ReadsWritten read? write Fits) :
    present (member.map write) = member.map write := by
  cases member with
  | none => rfl
  | some a => rw [Option.map_some, present_some, if_neg (h.null a)]

/-- An optional member is what its value was written for. -/
theorem ReadsWritten.optional_eq_ok_iff (h : ReadsWritten read? write Fits) :
    r.optional read? name = .ok member ↔
      present (r.find? name) = member.map write ∧ ∀ a, member = some a → Fits a := by
  unfold Record.optional
  split
  · next hnone => cases member <;> simp [hnone]
  · next hnull => cases member <;> simp [hnull, present_some]
  · next value hnull hvalue =>
      rw [hvalue, present_some, if_neg hnull]
      split
      · next a ha =>
          obtain ⟨rfl, hfits⟩ := (h.read_iff _ _).1 ha
          cases member with
          | none => simp
          | some b =>
              have hread := h.read_iff (write a) b
              simp only [ha, Option.some.injEq] at hread
              simpa using hread
      · next hnone =>
          cases member with
          | none => simp
          | some b =>
              have hread := h.read_iff value b
              simp only [hnone, reduceCtorEq, false_iff] at hread
              simpa using hread

theorem optional_eq_error {error : Error} (h : r.optional read? name = .error error) :
    error = shapeFault := by
  unfold Record.optional at h
  split at h
  · simp at h
  · simp at h
  · split at h
    · simp at h
    · exact (Except.error.inj h).symm

end Json

/-! ### The record of claims -/

namespace RegisteredClaims

variable {claims : Object} {r : RegisteredClaims} {name : String}

/-- The claims with a fixed meaning as they are written. -/
def registeredMembers (r : RegisteredClaims) : Json.Record :=
  Json.optionMember "iss" Json.str r.iss ++ Json.optionMember "sub" Json.str r.sub ++
    Json.optionMember "aud" Audience.toJson r.aud ++ Json.optionMember "exp" Json.int r.exp ++
    Json.optionMember "nbf" Json.int r.nbf ++ Json.optionMember "iat" Json.int r.iat ++
    Json.optionMember "jti" Json.str r.jti

theorem members_eq_append : r.members = r.registeredMembers ++ r.extra.members := rfl

theorem names_registeredMembers : (r.registeredMembers.map (·.1)).Sublist registeredNames := by
  simp only [registeredMembers, List.map_append]
  exact (((((Json.names_optionMember.append Json.names_optionMember).append
    Json.names_optionMember).append Json.names_optionMember).append
    Json.names_optionMember).append Json.names_optionMember).append Json.names_optionMember

theorem find?_exp : Json.Record.find? r.registeredMembers "exp" = r.exp.map Json.int := by
  simp [registeredMembers]

theorem find?_nbf : Json.Record.find? r.registeredMembers "nbf" = r.nbf.map Json.int := by
  simp [registeredMembers]

/-- The dates are counted in 64 bits. -/
structure Dated (r : RegisteredClaims) : Prop where
  exp : ∀ date, r.exp = some date → Seconds.inRange date = true
  nbf : ∀ date, r.nbf = some date → Seconds.inRange date = true
  iat : ∀ date, r.iat = some date → Seconds.inRange date = true

/-- A record that has all claims of an object, each in its place. -/
structure Holds (claims : Object) (r : RegisteredClaims) : Prop where
  registered : ∀ name ∈ registeredNames,
    Json.present (claims.find? name) = Json.Record.find? r.registeredMembers name
  dated : r.Dated
  extra : r.extra = claims.filter fun name _ => ! registeredNames.contains name

/-- An object is read as the record that has all its claims. -/
theorem ofObject_eq_ok : ofObject claims = .ok r ↔ Holds claims r := by
  have hfound (name : String) : Json.Record.find? claims.members name = claims.find? name := rfl
  simp only [ofObject, bind_eq_ok, pure_eq_ok, Except.ok.injEq, hfound,
    Json.readsWritten_text.optional_eq_ok_iff, Json.readsWritten_audience.optional_eq_ok_iff,
    Json.readsWritten_seconds.optional_eq_ok_iff]
  constructor
  · rintro ⟨iss, ⟨hiss, -⟩, sub, ⟨hsub, -⟩, aud, ⟨haud, -⟩, exp, ⟨hexp, hexp'⟩, nbf, ⟨hnbf, hnbf'⟩,
      iat, ⟨hiat, hiat'⟩, jti, ⟨hjti, -⟩, rfl⟩
    refine ⟨?_, ⟨hexp', hnbf', hiat'⟩, rfl⟩
    simp [registeredNames, registeredMembers, hiss, hsub, haud, hexp, hnbf, hiat, hjti]
  · rintro ⟨hregistered, ⟨hexp', hnbf', hiat'⟩, hextra⟩
    simp only [registeredNames, registeredMembers, List.forall_mem_cons] at hregistered
    obtain ⟨hiss, hsub, haud, hexp, hnbf, hiat, hjti, -⟩ := hregistered
    refine ⟨r.iss, ⟨by simpa using hiss, by simp⟩, r.sub, ⟨by simpa using hsub, by simp⟩, r.aud,
      ⟨by simpa using haud, by simp⟩, r.exp, ⟨by simpa using hexp, hexp'⟩, r.nbf,
      ⟨by simpa using hnbf, hnbf'⟩, r.iat, ⟨by simpa using hiat, hiat'⟩, r.jti,
      ⟨by simpa using hjti, by simp⟩, ?_⟩
    rw [← hextra]

/-- Errors that do not tell of a wrong shape. -/
def isNotShape (error : Error) : Bool := error ≠ Json.shapeFault

theorem ofObject_eq_error {error : Error} (h : ofObject claims = .error error) :
    error = Json.shapeFault := by
  have hoptional {α : Type} (read? : Json → Option α) (name : String) :
      Avoids isNotShape (Json.Record.optional claims.members read? name) := by
    intro error herror
    simp [isNotShape, Json.optional_eq_error herror]
  have havoids : Avoids isNotShape (ofObject claims) := by
    simp [ofObject, hoptional]
  simpa [isNotShape] using havoids error h

/-! ### Writing a record -/

/-- The other claims are under other names. -/
def Separate (r : RegisteredClaims) : Prop := ∀ name ∈ registeredNames, r.extra.find? name = none

theorem Holds.separate (h : Holds claims r) : r.Separate := by
  intro name hname
  rw [h.extra, Object.find?_filter]
  simp [hname]

theorem distinct_members (h : r.Separate) : r.members.Pairwise fun a b => a.1 ≠ b.1 := by
  rw [members_eq_append, List.pairwise_append]
  refine ⟨Json.distinct_of_sublist names_registeredMembers (by decide),
    r.extra.ordered.imp String.ne_of_lt, fun a ha b hb heq => ?_⟩
  have hname := names_registeredMembers.subset (List.mem_map_of_mem ha)
  have hfound := Object.find?_of_mem (heq ▸ hb : (a.1, b.2) ∈ r.extra.members)
  simp [h a.1 hname] at hfound

/-- The members of a record as an object. -/
def toObject (r : RegisteredClaims) : Object := .ofMembers (Json.canonicalMembers r.members)

theorem ofJson_toJson : Claims.ofJson r.toJson = .ok (.object r.toObject) := by
  have hobject : Json.asObject? (.obj r.toObject.members) = some r.toObject :=
    congrArg some Object.ofMembers_members
  change Claims.ofJson (.obj r.toObject.members) = _
  simp [Claims.ofJson, hobject]

/-- No claim with a fixed meaning is written as null. -/
theorem written_registeredMembers :
    ∀ m ∈ r.registeredMembers, m.2.canonical = m.2 ∧ m.2 ≠ .null := by
  simp only [registeredMembers, List.forall_mem_append]
  exact ⟨⟨⟨⟨⟨⟨Json.readsWritten_text.written, Json.readsWritten_text.written⟩,
    Json.readsWritten_audience.written⟩, Json.readsWritten_seconds.written⟩,
    Json.readsWritten_seconds.written⟩, Json.readsWritten_seconds.written⟩,
    Json.readsWritten_text.written⟩

theorem written_of_find? {value : Json}
    (h : Json.Record.find? r.registeredMembers name = some value) :
    value.canonical = value ∧ value ≠ .null :=
  written_registeredMembers (name, value) (Json.Record.mem_of_find? h)

/-- Each claim of a record is found where it was. -/
theorem find?_toObject (hseparate : r.Separate) (hextra : r.extra.Proper) :
    r.toObject.find? name =
      (Json.Record.find? r.registeredMembers name).or (r.extra.find? name) := by
  have hregistered : (Json.Record.find? r.registeredMembers name).map Json.canonical =
      Json.Record.find? r.registeredMembers name := by
    cases hfound : Json.Record.find? r.registeredMembers name with
    | none => rfl
    | some value => exact congrArg some (written_of_find? hfound).1
  have hothers : (r.extra.find? name).map Json.canonical = r.extra.find? name := by
    cases hfound : r.extra.find? name with
    | none => rfl
    | some value => exact congrArg some (hextra name value hfound).canonical_eq
  have happend : Json.Record.find? r.members name =
      (Json.Record.find? r.registeredMembers name).or (r.extra.find? name) :=
    Json.Record.find?_append
  rw [toObject, Json.find?_canonical (distinct_members hseparate), happend, Option.map_or,
    hregistered, hothers]

/-- An object without the claims that have a fixed meaning and are null. -/
def withoutNulls (claims : Object) : Object :=
  claims.filter fun name value => ! (registeredNames.contains name && value.isNull)

theorem Holds.toObject_eq (h : Holds claims r) (hproper : claims.Proper) :
    r.toObject = withoutNulls claims := by
  have hextra : r.extra.Proper := by
    intro name value hvalue
    rw [h.extra, Object.find?_filter] at hvalue
    exact hproper name value (Option.filter_eq_some_iff.1 hvalue).1
  refine Object.ext_find? fun name => ?_
  rw [find?_toObject h.separate hextra, withoutNulls, Object.find?_filter]
  by_cases hname : name ∈ registeredNames
  · rw [h.separate name hname, Option.or_none, ← h.registered name hname, Json.present]
    simp [hname]
  · rw [Json.find?_eq_none names_registeredMembers hname, Option.none_or, h.extra,
      Object.find?_filter]
    simp [hname]

theorem holds_toObject (hdated : r.Dated) (hextra : r.extra.Proper) (hseparate : r.Separate) :
    Holds r.toObject r where
  registered name hname := by
    rw [find?_toObject hseparate hextra, hseparate name hname, Option.or_none]
    cases hfound : Json.Record.find? r.registeredMembers name with
    | none => rfl
    | some value => rw [Json.present_some, if_neg (written_of_find? hfound).2]
  dated := hdated
  extra := by
    refine Object.ext_find? fun name => ?_
    rw [Object.find?_filter, find?_toObject hseparate hextra]
    by_cases hname : name ∈ registeredNames
    · simp [hname, hseparate name hname]
    · rw [Json.find?_eq_none names_registeredMembers hname, Option.none_or]
      cases r.extra.find? name <;> simp [hname, Option.filter_some]

/-- Reading claims as a record and writing the record undo each other. What is written of the
record of an object is the object without the claims that have a fixed meaning and are null.
And a record, whose other claims are under other names, is read again of what is written of
it. -/
theorem record_round_trip :
    (∀ (claims : Object) (r : RegisteredClaims), claims.Proper →
      (Claims.object claims).registered = .ok r →
        Claims.ofJson r.toJson = .ok (.object (withoutNulls claims))) ∧
    ∀ r : RegisteredClaims, r.Dated → r.extra.Proper → r.Separate →
      ∃ claims, Claims.ofJson r.toJson = .ok claims ∧ claims.registered = .ok r := by
  refine ⟨fun claims r hproper hr => ?_, fun r hdated hextra hseparate => ?_⟩
  · rw [ofJson_toJson, (ofObject_eq_ok.1 hr).toObject_eq hproper]
  · exact ⟨_, ofJson_toJson, ofObject_eq_ok.2 (holds_toObject hdated hextra hseparate)⟩

/-- Claims with nulls: under a name with a fixed meaning, and under another one. -/
def nullClaims : Object :=
  .ofMembers [("aud", .arr [.str "a", .str "b"]), ("exp", .int 10), ("note", .null), ("sub", .null)]

/-- Of the two nulls the first is lost, and what is left is a record that comes back. -/
theorem null_claims_recorded :
    ∃ r, (Claims.object nullClaims).registered = .ok r ∧
      Claims.ofJson r.toJson = .ok (.object (nullClaims.erase "sub")) ∧
      ∃ claims, Claims.ofJson r.toJson = .ok claims ∧ claims.registered = .ok r := by
  have haudience : (Json.arr [.str "a", .str "b"]).Proper :=
    .arr (by simpa using ⟨.str "a", .str "b"⟩)
  have hproper : nullClaims.Proper :=
    (((Object.proper_empty.insert haudience).insert (.num (.int (by decide) (by decide)))).insert
      .null).insert .null
  have hr : (Claims.object nullClaims).registered = .ok
      { aud := some (.many ["a", "b"]), exp := some 10, extra := .ofMembers [("note", .null)] } :=
    toOption_eq_some.1 (by decide +kernel)
  have hkept : withoutNulls nullClaims = nullClaims.erase "sub" := by decide +kernel
  have hholds := ofObject_eq_ok.1 hr
  obtain ⟨hwritten, hread⟩ := record_round_trip
  refine ⟨_, hr, hkept ▸ hwritten _ _ hproper hr, hread _ hholds.dated ?_ hholds.separate⟩
  exact Object.proper_empty.insert .null

end RegisteredClaims

end SealedToken
