import SealedToken.Header.Member
import SealedToken.Header.Registry
import SealedToken.Json.Bytes
import SealedToken.Proofs.Base64Url
import SealedToken.Proofs.Outcome

/-!
Reading parameters of a header.
-/

namespace SealedToken

theorem Object.contains_eq_isSome {o : Object} {name : String} :
    o.contains name = (o.find? name).isSome := by
  rw [Bool.eq_iff_iff, Object.contains, Object.find?, Option.isSome_map, List.find?_isSome,
    List.any_eq_true]

namespace Header

@[simp] theorem text?_eq_ok_some {header : Object} {name text : String} :
    text? header name = .ok (some text) ↔ header.find? name = some (.str text) := by
  unfold text?
  split <;> simp_all

@[simp] theorem text?_eq_ok_none {header : Object} {name : String} :
    text? header name = .ok none ↔ header.find? name = none := by
  unfold text?
  split <;> simp_all

/-- A parameter that spells bytes where it occurs is spelled in the one way there is. -/
theorem bytes?_eq_ok {header : Object} {name : String} {found : Option ByteArray} :
    bytes? header name = .ok found ↔
      header.find? name = found.map Json.ofBytes := by
  constructor
  · intro h
    unfold bytes? at h
    split at h
    · next hnone =>
        obtain rfl := Except.ok.inj h
        exact hnone
    · next text htext =>
        split at h
        · next bytes hbytes =>
            obtain rfl := Except.ok.inj h
            rw [htext, Option.map_some, Json.ofBytes, Base64Url.encode_of_decode? hbytes]
        · simp at h
    · simp at h
  · intro h
    rw [bytes?, h]
    cases found with
    | none => rfl
    | some bytes => simp [Json.ofBytes]

end Header

end SealedToken
