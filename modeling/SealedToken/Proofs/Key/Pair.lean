import SealedToken.KeyManagement.Agreement
import SealedToken.Proofs.Json.Plain
import SealedToken.Proofs.Key.Json

/-!
Keys with a private part and the keys that are handed out of them. Where a sender gets
something from the key that was handed out, its owner gets the same and the private part.
-/

namespace SealedToken

namespace Jwk

variable {key own : Jwk} {op : KeyOperation}

/-! ### What a key gives -/

theorem octets_eq_ok {k : ByteArray} :
    key.octets op = .ok k ↔ key.permits op = true ∧ key.material = .oct k := by
  rw [octets, seq_eq_ok, checkOperation_eq_ok_iff]
  refine and_congr_right fun _ => ?_
  split <;> simp_all [wrongType]

theorem rsaPublic_eq_ok {n e : ByteArray} :
    key.rsaPublic op = .ok (n, e) ↔
      key.permits op = true ∧ ∃ secret, key.material = .rsa n e secret := by
  rw [rsaPublic, seq_eq_ok, checkOperation_eq_ok_iff]
  refine and_congr_right fun _ => ?_
  split <;> simp_all [wrongType]

theorem ecPublic_eq_ok {curve : EllipticCurve} {x y : ByteArray} :
    key.ecPublic op = .ok (curve, x, y) ↔
      key.permits op = true ∧ ∃ d, key.material = .ec curve x y d := by
  rw [ecPublic, seq_eq_ok, checkOperation_eq_ok_iff]
  refine and_congr_right fun _ => ?_
  split <;> simp_all [wrongType]

theorem okpPublic_eq_ok {curve : OctetCurve} {x : ByteArray} :
    key.okpPublic op = .ok (curve, x) ↔
      key.permits op = true ∧ ∃ d, key.material = .okp curve x d := by
  rw [okpPublic, seq_eq_ok, checkOperation_eq_ok_iff]
  refine and_congr_right fun _ => ?_
  split <;> simp_all [wrongType]

/-! ### The private key -/

/-- The key with a private part that belongs to a key: of the same material, or of the
material whose public part the key consists of. -/
structure PrivateOf (key own : Jwk) : Prop where
  hasPrivate : own.hasPrivate = true
  material : own.material = key.material ∨ own.material.public? = some key.material

namespace PrivateOf

variable (h : PrivateOf key own)
include h

theorem public?_eq : own.material.public? = key.material.public? := by
  rcases h.material with hsame | hpublic
  · rw [hsame]
  · -- a public part is its own public part
    rw [hpublic]
    cases hown : own.material <;> rw [hown, KeyMaterial.public?] at hpublic
    · simp at hpublic
    all_goals rw [← Option.some.inj hpublic, KeyMaterial.public?]

/-- What the owner has, family by family. -/
theorem owned :
    match key.material with
    | .oct k => own.material = .oct k
    | .rsa n e _ => ∃ s, own.material = .rsa n e (some s)
    | .ec curve x y _ => ∃ d, own.material = .ec curve x y (some d)
    | .okp curve x _ => ∃ d, own.material = .okp curve x (some d) := by
  have hpublic := h.public?_eq
  have hprivate := h.hasPrivate
  rw [Jwk.hasPrivate] at hprivate
  cases hkey : key.material with
  | oct k =>
      -- a secret has no public part that could be handed out
      rcases h.material with hsame | hhanded
      · rw [hsame, hkey]
      · rw [hpublic, hkey, KeyMaterial.public?] at hhanded
        simp at hhanded
  | rsa | ec | okp =>
      rw [hkey, KeyMaterial.public?] at hpublic
      cases hown : own.material <;>
        simp_all [KeyMaterial.public?, KeyMaterial.hasPrivate, Option.isSome_iff_exists]

theorem oct {k : ByteArray} (hkey : key.material = .oct k) : own.material = .oct k := by
  simpa only [hkey] using h.owned

theorem rsa {n e : ByteArray} {secret : Option RsaSecret} (hkey : key.material = .rsa n e secret) :
    ∃ s, own.material = .rsa n e (some s) := by
  simpa only [hkey] using h.owned

theorem ec {curve : EllipticCurve} {x y : ByteArray} {secret : Option ByteArray}
    (hkey : key.material = .ec curve x y secret) : ∃ d, own.material = .ec curve x y (some d) := by
  simpa only [hkey] using h.owned

theorem okp {curve : OctetCurve} {x : ByteArray} {secret : Option ByteArray}
    (hkey : key.material = .okp curve x secret) : ∃ d, own.material = .okp curve x (some d) := by
  simpa only [hkey] using h.owned

end PrivateOf

/-! ### Public keys that travel as JSON -/

/-- The value of a member that is a text. -/
def IsText (v : Json) : Prop := ∃ text, v = .str text

/-- All members of a key are texts as long as it is not restricted to operations. -/
theorem isText_members (h : key.operations = none) : ∀ m ∈ key.members, IsText m.2 := by
  have htexts : ∀ m ∈ textMembers (materialTexts key.material), IsText m.2 := by
    rw [textMembers, List.forall_mem_map]
    intro m _
    exact ⟨m.2, rfl⟩
  rw [members, restrictionMembers, List.forall_mem_cons, h]
  simp only [List.forall_mem_append]
  refine ⟨⟨_, rfl⟩, htexts, ⟨⟨?_, ?_⟩, ?_⟩, ?_⟩
  · exact Json.forall_mem_optionMember fun use _ => ⟨use.name, rfl⟩
  · simp [Json.optionMember]
  · exact Json.forall_mem_optionMember fun kid _ => ⟨kid, rfl⟩
  · exact Json.forall_mem_optionMember fun alg _ => ⟨alg, rfl⟩

theorem plain_toJson (h : key.operations = none) : key.toJson.canonical.Plain := by
  rw [toJson_eq, Json.canonical]
  apply Json.Plain.texts
  intro name v hv
  rw [Json.find?_canonical (distinct_members key)] at hv
  obtain ⟨value, hvalue, rfl⟩ := Option.map_eq_some_iff.1 hv
  obtain ⟨text, rfl⟩ := isText_members h _ (Json.Record.mem_of_find? hvalue)
  exact ⟨text, rfl⟩

end Jwk

namespace AgreementCurve

/-- The size of a public member. -/
def publicSize : AgreementCurve → Nat
  | .ec curve => 2 * curve.coordinateSize
  | .x25519 => OctetCurve.memberSize

variable {curve : AgreementCurve} {point : ByteArray}

theorem plain_publicKey : (curve.publicKey point).toJson.canonical.Plain := by
  apply Jwk.plain_toJson
  cases curve <;> rfl

theorem sized_publicKey (hsize : point.size = curve.publicSize) :
    (curve.publicKey point).material.Sized := by
  cases curve with
  | ec c =>
      have hsize : point.size = 2 * c.coordinateSize := hsize
      refine ⟨?_, ?_, nofun⟩
      · rw [ByteArray.size_extract]
        omega
      · rw [ByteArray.size_extract]
        omega
  | x25519 => exact ⟨hsize, nofun⟩

/-- A public key is read as it was written. -/
theorem ofJson_publicKey (hsize : point.size = curve.publicSize) :
    Jwk.ofJson (curve.publicKey point).toJson.canonical = .ok (curve.publicKey point) :=
  Jwk.ofJson_toJson (sized_publicKey hsize)

end AgreementCurve

end SealedToken
