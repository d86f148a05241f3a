import SealedToken.Jwe.Text
import SealedToken.Proofs.Header.Union

/-!
How the writing of a token ends. The compact form has no place for the header of a
recipient. Where there is one it is moved into the protected header, and the content is
encrypted again; the token is changed by then, whether or not that succeeds.
-/

namespace SealedToken.Jwe

variable {p : Primitives} {rng : Entropy} {t : Jwe} {r : Recipient} {name : String} {compact : Bool}

/-! ### The header that is moved -/

/-- Members are moved as if nothing had to be protected. -/
theorem addMembers_eq_moveMembers {header : Object} {members : List (String × Json)} :
    HeaderRegistry.addMembers ⟨[]⟩ header members =
      match moveMembers header members with
      | (_, some name) => .error (.duplicateHeader name)
      | (out, none) => .ok out := by
  induction members generalizing header with
  | nil => rfl
  | cons m rest ih =>
      rw [HeaderRegistry.addMembers, moveMembers]
      cases h : header.contains m.1 with
      | true => simp [HeaderRegistry.mustProtect, HeaderRegistry.find?]
      | false => simpa [HeaderRegistry.mustProtect, HeaderRegistry.find?] using ih

/-- All members are moved when no name is in both headers. -/
theorem moveMembers_eq_none {header added : Object}
    (h : (moveMembers header added.members).2 = none) :
    HeaderRegistry.Admits ⟨[]⟩ header added ∧
      (moveMembers header added.members).1 = header.union added := by
  rw [← HeaderRegistry.addMembers_eq_ok, addMembers_eq_moveMembers]
  cases hmove : moveMembers header added.members with
  | mk out twice =>
      rw [hmove] at h
      subst h
      rfl

/-- Otherwise it stops at such a name. -/
theorem moveMembers_eq_some {header added : Object}
    (h : (moveMembers header added.members).2 = some name) :
    header.contains name = true ∧ added.contains name = true := by
  have hrefused : HeaderRegistry.addMembers ⟨[]⟩ header added.members =
      .error (.duplicateHeader name) := by
    rw [addMembers_eq_moveMembers]
    cases hmove : moveMembers header added.members with
    | mk out twice =>
        rw [hmove] at h
        subst h
        rfl
  obtain ⟨name', hadded, hrefuses⟩ := HeaderRegistry.refuses_of_addMembers hrefused
  rcases hrefuses with ⟨-, heq⟩ | ⟨hheader, heq⟩
  · simp at heq
  · obtain rfl := Error.duplicateHeader.inj heq
    exact ⟨hheader, hadded⟩

/-- The token with the header of its recipient moved, up to a name that is in both. -/
def moved (t : Jwe) (r : Recipient) : Jwe :=
  { t with
    protectedHeader :=
      some (moveMembers (t.protectedHeader.getD .empty) (r.header.getD .empty).members).1
    recipients := [{ r with header := none }] }

/-- The name at which that stops. -/
def nameTwice (t : Jwe) (r : Recipient) : Option String :=
  (moveMembers (t.protectedHeader.getD .empty) (r.header.getD .empty).members).2

/-! ### The ways to end -/

theorem compactRecipient_eq_ok :
    t.compactRecipient = .ok r ↔
      t.recipients = [r] ∧ t.aad = none ∧ t.sharedHeader = none := by
  unfold compactRecipient
  split
  · next r' hr =>
      simp only [ite_error_eq_ok, hr, Bool.not_eq_true, Option.isSome_eq_false_iff,
        Option.isNone_iff_eq_none, Except.ok.injEq, List.cons.injEq, and_true]
      rw [← and_assoc, and_comm]
  · next others =>
      simp only [reduceCtorEq, false_iff]
      rintro ⟨hr, -⟩
      exact others r hr

/-- A token whose single recipient has a header to be moved, while the key of the content
is held. -/
structure Moves (t : Jwe) (r : Recipient) (a : ContentEncryptionAlgorithm)
    (contentKey : ByteArray) : Prop where
  content : t.content.isSome = true
  recipient : t.compactRecipient = .ok r
  header : (Header.nonempty r.header).isSome = true
  algorithm : t.algorithm = some a
  contentKey : t.contentKey = some contentKey

section Moves

variable {a : ContentEncryptionAlgorithm} {contentKey : ByteArray}

/-- With the key of the content, the move comes first, and then the encryption. -/
theorem protectHeader_eq (halgorithm : t.algorithm = some a)
    (hcontentKey : t.contentKey = some contentKey) :
    t.protectHeader p rng r =
      match t.nameTwice r with
      | some name => (.error (.duplicateHeader name), t.moved r)
      | none =>
          match (t.moved r).sealContent p rng a contentKey with
          | .ok after => (.ok (), after)
          | .error error => (.error error, t.moved r) := by
  unfold protectHeader
  split
  · next a' contentKey' ha hkey =>
      obtain rfl := Option.some.inj (ha.symm.trans halgorithm)
      obtain rfl := Option.some.inj (hkey.symm.trans hcontentKey)
      rfl
  · next hnot => exact absurd hcontentKey (hnot a contentKey halgorithm)

/-- The compact form of a token whose recipient has a header. -/
theorem serialize_of_moves (moves : Moves t r a contentKey) :
    t.serialize p rng true =
      match t.nameTwice r with
      | some name => (.error (.duplicateHeader name), t.moved r)
      | none =>
          match (t.moved r).sealContent p rng a contentKey with
          | .ok after => (after.compactText, after)
          | .error error => (.error error, t.moved r) := by
  obtain ⟨content, hcontent⟩ := Option.isSome_iff_exists.1 moves.content
  have hheader : (Header.nonempty r.header).isNone = false := by simpa using moves.header
  rw [serialize, hcontent]
  dsimp only
  rw [if_pos rfl, serializeCompact, moves.recipient]
  dsimp only
  rw [hheader, protectHeader_eq moves.algorithm moves.contentKey]
  cases t.nameTwice r with
  | some name => rfl
  | none => cases (t.moved r).sealContent p rng a contentKey <;> rfl

end Moves

/-- Otherwise a token stays as it is. -/
theorem serialize_of_not_moves (h : ¬ ∃ r a contentKey, Moves t r a contentKey) :
    (t.serialize p rng compact).2 = t := by
  unfold serialize
  split
  · rfl
  · next content hcontent =>
      cases compact with
      | false => rfl
      | true =>
          rw [if_pos rfl, serializeCompact]
          split
          · rfl
          · next r hr =>
              split
              · rfl
              · next hheader =>
                  have hkept : (t.protectHeader p rng r).2 = t := by
                    unfold protectHeader
                    split
                    · next a contentKey ha hkey =>
                        -- everything is there that a move asks for
                        have hsome : (Header.nonempty r.header).isSome = true :=
                          Option.isSome_iff_ne_none.2 (by simpa using hheader)
                        exact absurd ⟨r, a, contentKey, by simp [hcontent], hr, hsome, ha, hkey⟩ h
                    · rfl
                  split
                  · next hprotect => rwa [hprotect] at hkept
                  · next hprotect => rwa [hprotect] at hkept

/-- Writing a token in its JSON form leaves it as it is. -/
theorem serialize_json : (t.serialize p rng false).2 = t := by
  unfold serialize
  split <;> rfl

end SealedToken.Jwe
