import SealedToken.Key.Thumbprint
import SealedToken.Proofs.Json.Rereading
import SealedToken.Proofs.Key.RoundTrip

/-!
What a thumbprint stands for. Before it is hashed, a key is reduced to the members that are
required of its type. Their text has one form, and two keys have one text exactly when they
have one public part. What restricts or names a key, and its private members, are not hashed.
-/

namespace SealedToken

/-! ### Objects of bare texts -/

namespace Json

/-- A text in which nothing has to be escaped, without white space. -/
def BareText (text : String) : Prop :=
  ∀ c ∈ text.toList, escape c = [c] ∧ Text.isBlank c = false

instance (text : String) : Decidable (BareText text) :=
  List.decidableBAll (fun c => escape c = [c] ∧ Text.isBlank c = false) text.toList

/-- A text between quotes, as it is. -/
def bareText (text : String) : List Char := '"' :: (text.toList ++ ['"'])

/-- A member whose value is a text, both as they are. -/
def bareMember (m : String × String) : List Char := bareText m.1 ++ ':' :: bareText m.2

/-- The text of an object whose members are texts: nothing is escaped, and nothing stands
between its parts but colons and commas. -/
def bareObject (texts : List (String × String)) : List Char :=
  '\x7b' :: ([','].intercalate (texts.map bareMember) ++ ['\x7d'])

/-- Members whose names and values are bare. -/
def BareMembers (texts : List (String × String)) : Prop :=
  ∀ m ∈ texts, BareText m.1 ∧ BareText m.2

section

variable {text : String} {texts : List (String × String)} {α : Type} {chars : α → List Char}
  {as : List α}

theorem quoted_of_bare (h : BareText text) : quoted text = bareText text := by
  have hescape : ∀ c ∈ text.toList, escape c = [c] := fun c hc => (h c hc).1
  rw [quoted, bareText, List.flatMap_congr hescape, List.flatMap_singleton']

theorem listChars_eq_intercalate : listChars chars as = [','].intercalate (as.map chars) := by
  induction as with
  | nil => rfl
  | cons a rest ih =>
      cases rest with
      | nil => simp [listChars]
      | cons next rest =>
          rw [List.map_cons, List.map_cons, List.intercalate_cons_cons, ← List.map_cons, ← ih]
          simp [listChars]

/-- Where nothing has to be escaped, an object of texts is written as it is. -/
theorem chars_textMembers (h : BareMembers texts) :
    (obj (Jwk.textMembers texts)).chars = bareObject texts := by
  have hmembers : (Jwk.textMembers texts).map memberChars = texts.map bareMember := by
    rw [Jwk.textMembers, List.map_map]
    apply List.map_congr_left
    intro m hm
    obtain ⟨hname, hvalue⟩ := h m hm
    rw [Function.comp_apply, memberChars, quoted_of_bare hname, Json.chars, quoted_of_bare hvalue,
      bareMember]
  rw [Json.chars, membersChars_eq, listChars_eq_intercalate, hmembers]
  rfl

theorem isBlank_bareText (h : BareText text) :
    ∀ c ∈ bareText text, Text.isBlank c = false := by
  simp only [bareText, List.forall_mem_cons, List.forall_mem_append]
  exact ⟨by decide, fun c hc => (h c hc).2, by decide, by simp⟩

/-- No white space is written. -/
theorem isBlank_bareObject (h : BareMembers texts) :
    ∀ c ∈ bareObject texts, Text.isBlank c = false := by
  have hmember : ∀ m ∈ texts, ∀ c ∈ bareMember m, Text.isBlank c = false := by
    intro m hm
    obtain ⟨hname, hvalue⟩ := h m hm
    simp only [bareMember, List.forall_mem_append, List.forall_mem_cons]
    exact ⟨isBlank_bareText hname, by decide, isBlank_bareText hvalue⟩
  have hlist : ∀ c ∈ listChars bareMember texts, Text.isBlank c = false := by
    cases texts with
    | nil => simp [listChars]
    | cons m rest =>
        rw [List.forall_mem_cons] at hmember
        simp only [listChars, List.forall_mem_append, List.forall_mem_flatMap,
          List.forall_mem_cons]
        exact ⟨hmember.1, fun next hnext => ⟨by decide, hmember.2 next hnext⟩⟩
  simp only [bareObject, ← listChars_eq_intercalate, List.forall_mem_cons, List.forall_mem_append]
  exact ⟨by decide, hlist, by decide, by simp⟩

/-- The text of members in the order of their names is read as these members. -/
theorem parse?_textMembers (ordered : texts.Pairwise fun a b => a.1 < b.1) :
    parse? (obj (Jwk.textMembers texts)).print = some (obj (Jwk.textMembers texts)) := by
  have hproper : (obj (Jwk.textMembers texts)).Proper := by
    refine .obj ?_ (List.pairwise_map.2 ordered)
    rw [Jwk.textMembers, List.forall_mem_map]
    exact fun m _ => .str m.2
  have hreadable : (obj (Jwk.textMembers texts)).Readable nestingLimit := by
    refine .obj ?_
    rw [Jwk.textMembers, List.forall_mem_map]
    exact fun m _ => .str m.2
  rw [parse?_print hreadable, hproper.canonical_eq]

end

end Json

/-! ### Names of curves and encoded bytes -/

theorem EllipticCurve.name_injective : Function.Injective EllipticCurve.name := by
  intro curve other h
  have hread := congrArg EllipticCurve.ofName? h
  simpa [EllipticCurve.ofName?_name] using hread

theorem OctetCurve.name_injective : Function.Injective OctetCurve.name := by
  intro curve other h
  have hread := congrArg OctetCurve.ofName? h
  simpa [OctetCurve.ofName?_name] using hread

theorem Base64Url.bareText_encode (bytes : ByteArray) : Json.BareText (encode bytes) := by
  have hdigit : ∀ v < 64, Json.escape (digit v) = [digit v] := by decide
  intro c hc
  obtain ⟨v, hv, rfl⟩ := isDigit_of_mem_encode c hc
  exact ⟨hdigit v hv, (digit_not_special v hv).1⟩

/-! ### The members of a key -/

namespace KeyMaterial

variable {m other : KeyMaterial}

/-- The curve that a key is on, if it is on one. -/
def curve? : KeyMaterial → Option (EllipticCurve ⊕ OctetCurve)
  | .oct _ | .rsa .. => none
  | .ec curve .. => some (.inl curve)
  | .okp curve .. => some (.inr curve)

/-- The members that are public, and of a secret the secret. -/
def publicMembers : KeyMaterial → List (String × ByteArray)
  | .oct k => [("k", k)]
  | .rsa n e _ => [("n", n), ("e", e)]
  | .ec _ x y _ => [("x", x), ("y", y)]
  | .okp _ x _ => [("x", x)]

/-- Of one type, on one curve and with the same public members. -/
structure SharesPublic (m other : KeyMaterial) : Prop where
  type : m.type = other.type
  curve : m.curve? = other.curve?
  members : m.publicMembers = other.publicMembers

/-- The members that are required of a key of the type, in no order. -/
def requiredTexts (m : KeyMaterial) : List (String × String) :=
  ("kty", m.type.name) ::
    (m.curve?.toList.map (fun curve => ("crv", curve.elim EllipticCurve.name OctetCurve.name)) ++
      m.publicMembers.map fun member => (member.1, Base64Url.encode member.2))

/-- The required members in the order of their names. -/
def orderedTexts : KeyMaterial → List (String × String)
  | .oct k => [("k", Base64Url.encode k), ("kty", KeyType.oct.name)]
  | .rsa n e _ =>
      [("e", Base64Url.encode e), ("kty", KeyType.rsa.name), ("n", Base64Url.encode n)]
  | .ec curve x y _ =>
      [("crv", curve.name), ("kty", KeyType.ec.name), ("x", Base64Url.encode x),
       ("y", Base64Url.encode y)]
  | .okp curve x _ =>
      [("crv", curve.name), ("kty", KeyType.okp.name), ("x", Base64Url.encode x)]

theorem identity_eq (m : KeyMaterial) : m.identity = Jwk.textMembers m.orderedTexts := by
  cases m <;> rfl

theorem perm_orderedTexts (m : KeyMaterial) : m.orderedTexts.Perm m.requiredTexts := by
  cases m with
  | oct k => exact .swap _ _ _
  | rsa n e secret => exact (List.Perm.swap _ _ _).trans (.cons _ (.swap _ _ _))
  | ec curve x y d => exact .swap _ _ _
  | okp curve x d => exact .swap _ _ _

theorem ordered_orderedTexts (m : KeyMaterial) :
    m.orderedTexts.Pairwise fun a b => a.1 < b.1 := by
  have hnames : (m.orderedTexts.map (·.1)).Pairwise (· < ·) := by
    cases m <;> simp only [orderedTexts, List.map_cons, List.map_nil] <;> decide
  exact List.pairwise_map.1 hnames

theorem bareMembers_requiredTexts (m : KeyMaterial) : Json.BareMembers m.requiredTexts := by
  have htype : Json.BareText m.type.name := by
    cases m.type <;> decide
  have hcurve : ∀ curve ∈ m.curve?.toList,
      Json.BareText (curve.elim EllipticCurve.name OctetCurve.name) := by
    rintro (curve | curve) - <;> cases curve <;> decide
  have hnames : ∀ member ∈ m.publicMembers, Json.BareText member.1 := by
    cases m <;> simp only [publicMembers, List.forall_mem_cons] <;> decide
  simp only [Json.BareMembers, requiredTexts, List.forall_mem_cons, List.forall_mem_append,
    List.forall_mem_map]
  exact ⟨⟨by decide, htype⟩, fun curve h => ⟨by decide, hcurve curve h⟩,
    fun member h => ⟨hnames member h, Base64Url.bareText_encode member.2⟩⟩

theorem bareMembers_orderedTexts (m : KeyMaterial) : Json.BareMembers m.orderedTexts :=
  fun member h => bareMembers_requiredTexts m member ((perm_orderedTexts m).mem_iff.1 h)

/-! ### What tells the public part -/

theorem orderedTexts_of_sharesPublic (h : m.SharesPublic other) :
    m.orderedTexts = other.orderedTexts := by
  have hrequired : m.requiredTexts = other.requiredTexts := by
    rw [requiredTexts, requiredTexts, h.type, h.curve, h.members]
  have hperm : m.orderedTexts.Perm other.orderedTexts := by
    refine (perm_orderedTexts m).trans ?_
    rw [hrequired]
    exact (perm_orderedTexts other).symm
  have hantisymm : ∀ a b, a ∈ m.orderedTexts → b ∈ other.orderedTexts →
      a.1 < b.1 → b.1 < a.1 → a = b := fun a b _ _ hab hba =>
    absurd (String.lt_trans hab hba) (String.lt_irrefl _)
  exact hperm.eq_of_pairwise hantisymm (ordered_orderedTexts m) (ordered_orderedTexts other)

theorem sharesPublic_of_orderedTexts (h : m.orderedTexts = other.orderedTexts) :
    m.SharesPublic other := by
  cases m with
  | oct k =>
      cases other with
      | oct l =>
          have hk : Base64Url.encode k = Base64Url.encode l := by simpa [orderedTexts] using h
          obtain rfl := Base64Url.encode_injective hk
          exact ⟨rfl, rfl, rfl⟩
      | rsa | ec | okp => simp [orderedTexts] at h
  | rsa n e secret =>
      cases other with
      | rsa n' e' secret' =>
          simp only [orderedTexts, List.cons.injEq, Prod.mk.injEq, true_and, and_true] at h
          obtain rfl := Base64Url.encode_injective h.1
          obtain rfl := Base64Url.encode_injective h.2
          exact ⟨rfl, rfl, rfl⟩
      | oct | ec | okp => simp [orderedTexts] at h
  | ec curve x y d =>
      cases other with
      | ec curve' x' y' d' =>
          simp only [orderedTexts, List.cons.injEq, Prod.mk.injEq, true_and, and_true] at h
          obtain rfl := EllipticCurve.name_injective h.1
          obtain rfl := Base64Url.encode_injective h.2.1
          obtain rfl := Base64Url.encode_injective h.2.2
          exact ⟨rfl, rfl, rfl⟩
      | oct | rsa | okp => simp [orderedTexts] at h
  | okp curve x d =>
      cases other with
      | okp curve' x' d' =>
          simp only [orderedTexts, List.cons.injEq, Prod.mk.injEq, true_and, and_true] at h
          obtain rfl := OctetCurve.name_injective h.1
          obtain rfl := Base64Url.encode_injective h.2
          exact ⟨rfl, rfl, rfl⟩
      | oct | rsa | ec => simp [orderedTexts] at h

theorem sharesPublic_public? (h : m.public? = some other) : other.SharesPublic m := by
  cases m with
  | oct k => simp [public?] at h
  | rsa | ec | okp =>
      obtain rfl := Option.some.inj h
      exact ⟨rfl, rfl, rfl⟩

end KeyMaterial

/-! ### The text that is hashed -/

namespace Jwk

variable {key other after : Jwk}

theorem identityText_eq (key : Jwk) :
    key.identityText = (Json.obj (textMembers key.material.orderedTexts)).print := by
  rw [identityText, KeyMaterial.identity_eq]

theorem toList_identityText (key : Jwk) :
    key.identityText.toList = Json.bareObject key.material.orderedTexts := by
  rw [identityText_eq, Json.print, String.toList_ofList,
    Json.chars_textMembers (KeyMaterial.bareMembers_orderedTexts key.material)]

theorem parse?_identityText (key : Jwk) :
    Json.parse? key.identityText =
      some (.obj (textMembers key.material.orderedTexts)) := by
  rw [identityText_eq, Json.parse?_textMembers (KeyMaterial.ordered_orderedTexts key.material)]

theorem textMembers_injective : Function.Injective textMembers := by
  refine List.map_injective_iff.2 fun a b h => ?_
  simpa [Prod.ext_iff] using h

/-- What the text says is read out of it, so it tells the public part. -/
theorem identityText_eq_iff :
    key.identityText = other.identityText ↔ key.material.SharesPublic other.material := by
  constructor
  · intro h
    have hparsed := congrArg Json.parse? h
    rw [parse?_identityText, parse?_identityText, Option.some.injEq, Json.obj.injEq] at hparsed
    exact KeyMaterial.sharesPublic_of_orderedTexts (textMembers_injective hparsed)
  · intro h
    rw [identityText_eq, identityText_eq, KeyMaterial.orderedTexts_of_sharesPublic h]

theorem thumbprint_of_sharesPublic (h : key.material.SharesPublic other.material) :
    key.thumbprint = other.thumbprint := by
  rw [thumbprint, thumbprint, thumbprintBytes, thumbprintBytes, identityText_eq_iff.2 h]

theorem thumbprint_publicKey (h : key.publicKey = .ok after) :
    after.thumbprint = key.thumbprint := by
  obtain ⟨material, hpublic, rfl⟩ := publicKey_eq_ok.1 h
  exact thumbprint_of_sharesPublic (KeyMaterial.sharesPublic_public? hpublic)

/-- Only a secret is without a public part. -/
theorem exists_publicKey (h : key.type ≠ .oct) : ∃ shared, key.publicKey = .ok shared := by
  rcases key with ⟨_ | _ | _ | _, _⟩
  · exact absurd rfl h
  all_goals exact ⟨_, rfl⟩

theorem thumbprint_apply {c : Change} (h : c.apply key = .ok after) :
    after.thumbprint = key.thumbprint := by
  cases c with
  | dropPrivate => exact thumbprint_publicKey h
  | setKid | setUse | setOperations | setAlg =>
      obtain rfl := Except.ok.inj h
      rfl

theorem thumbprint_changeAll {changes : List Change} (h : key.changeAll changes = .ok after) :
    after.thumbprint = key.thumbprint := by
  refine changeAll_induction (motive := fun changed => changed.thumbprint = key.thumbprint) rfl ?_ h
  intro changed next c hchanged hnext
  exact (thumbprint_apply hnext).trans hchanged

/-- A text that says members in the one form: those that are required and no others, in the
order of their names, without white space. -/
structure SaysInOrder (text : String) (required texts : List (String × String)) : Prop where
  all : texts.Perm required
  ordered : texts.Pairwise fun a b => a.1 < b.1
  bare : text.toList = Json.bareObject texts
  unspaced : ∀ c ∈ text.toList, Text.isBlank c = false
  reads : Json.parse? text = some (.obj (textMembers texts))

theorem saysInOrder_identityText (key : Jwk) :
    SaysInOrder key.identityText key.material.requiredTexts key.material.orderedTexts where
  all := KeyMaterial.perm_orderedTexts key.material
  ordered := KeyMaterial.ordered_orderedTexts key.material
  bare := toList_identityText key
  unspaced := by
    rw [toList_identityText]
    exact Json.isBlank_bareObject (KeyMaterial.bareMembers_orderedTexts key.material)
  reads := parse?_identityText key

/-- The thumbprint of a key is the digest of the text of its required members, which has one
form. The bytes of two of these texts are equal exactly when the keys are of one type, on one
curve and have the same public members. No change of what restricts or names a key touches its
thumbprint, nor does taking the private part away, which succeeds for all keys but secrets; and
a key that was read and changed keeps it when it is written and read again. -/
theorem thumbprint_identifies_public_part :
    (∀ key other : Jwk, key.identityText.toUTF8 = other.identityText.toUTF8 ↔
      key.material.SharesPublic other.material) ∧
    (∀ key : Jwk,
      key.thumbprint = Base64Url.encode (ShaSize.sha256.digest key.identityText.toUTF8) ∧
      ∃ texts, SaysInOrder key.identityText key.material.requiredTexts texts) ∧
    (∀ (key after : Jwk) (changes : List Change), key.changeAll changes = .ok after →
      after.thumbprint = key.thumbprint) ∧
    (∀ key : Jwk, key.type ≠ .oct → ∃ shared, key.publicKey = .ok shared ∧
      shared.hasPrivate = false ∧ shared.thumbprint = key.thumbprint) ∧
    ∀ key : Jwk, key.Obtained → ∃ again, ofText key.toText = .ok again ∧
      again.thumbprint = key.thumbprint := by
  refine ⟨fun key other => ?_, fun key => ⟨rfl, _, saysInOrder_identityText key⟩,
    fun key after changes => thumbprint_changeAll, fun key hkey => ?_, fun key hkey => ?_⟩
  · rw [← identityText_eq_iff]
    exact ⟨Utf8.toUTF8_injective, congrArg String.toUTF8⟩
  · obtain ⟨shared, hshared⟩ := exists_publicKey hkey
    exact ⟨shared, hshared, hasPrivate_publicKey hshared, thumbprint_publicKey hshared⟩
  · exact ⟨key, ofText_toText hkey.sized, rfl⟩

/-- A key with a private part, a name and a use. -/
def namedText : String :=
  "\x7b\"kty\":\"RSA\",\"kid\":\"1\",\"use\":\"sig\",\"n\":\"AQAB\",\"e\":\"Aw\"," ++
    "\"d\":\"AQ\",\"p\":\"Ag\",\"q\":\"Aw\",\"dp\":\"BA\",\"dq\":\"BQ\",\"qi\":\"Bg\"\x7d"

def namedKey : Jwk where
  material := .rsa ⟨#[1, 0, 1]⟩ ⟨#[3]⟩
    (some ⟨⟨#[1]⟩, ⟨#[2]⟩, ⟨#[3]⟩, ⟨#[4]⟩, ⟨#[5]⟩, ⟨#[6]⟩⟩)
  use := some .signature
  kid := some "1"

/-- The public key alone, for another use. -/
def plainKey : Jwk where
  material := .rsa ⟨#[1, 0, 1]⟩ ⟨#[3]⟩ none
  use := some .encryption

/-- The same modulus with a zero in front. -/
def paddedKey : Jwk where
  material := .rsa ⟨#[0, 1, 0, 1]⟩ ⟨#[3]⟩ none

theorem named_thumbprint :
    namedKey.Obtained ∧
      namedKey.identityText.toUTF8 = plainKey.identityText.toUTF8 ∧
      namedKey.identityText.toUTF8 ≠ paddedKey.identityText.toUTF8 ∧
      namedKey.changeAll [.setKid none, .dropPrivate, .setUse (some .encryption)] = .ok plainKey ∧
      plainKey.thumbprint = namedKey.thumbprint ∧
      (∃ shared, namedKey.publicKey = .ok shared ∧ shared.hasPrivate = false ∧
        shared.thumbprint = namedKey.thumbprint) ∧
      ∃ again, ofText namedKey.toText = .ok again ∧
        again.thumbprint = namedKey.thumbprint := by
  obtain ⟨tells, -, changes, shares, rereads⟩ := thumbprint_identifies_public_part
  have hread : ofText namedText = .ok namedKey := toOption_eq_some.1 (by decide +kernel)
  have hobtained : namedKey.Obtained := ⟨namedText, namedKey, [], hread, rfl⟩
  have hchanged :
      namedKey.changeAll [.setKid none, .dropPrivate, .setUse (some .encryption)] = .ok plainKey :=
    rfl
  have hpadded : ¬ namedKey.material.SharesPublic paddedKey.material := fun h =>
    absurd h.members (by decide)
  exact ⟨hobtained, (tells namedKey plainKey).2 ⟨rfl, rfl, rfl⟩,
    fun h => hpadded ((tells namedKey paddedKey).1 h), hchanged,
    changes namedKey plainKey _ hchanged, shares namedKey (by decide),
    rereads namedKey hobtained⟩

end Jwk

end SealedToken
