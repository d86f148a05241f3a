import SealedToken.Key.Set
import SealedToken.Proofs.Key.Json

/-!
Keys that were read and changed are written and read again. A reader only lets through keys
whose members have the sizes of their curve. No change of a key touches them: what restricts or
names it stands beside the material, and the public part of a key has the public members of the
key. So every key that can be had from one that was read is read as itself, alone and in a set,
whatever it is restricted to by then; and once its private part was taken away, nothing of it is
written.
-/

namespace SealedToken

/-! ### Sizes that a reader checks -/

namespace Jwk

variable {key after : Jwk} {w : Written} {m : KeyMaterial}

theorem size_of_privateBytes {size : Nat} {member : Option String} {d : Option ByteArray}
    (h : privateBytes size member = .ok d) : ∀ secret, d = some secret → secret.size = size := by
  intro secret hsecret
  unfold privateBytes at h
  split at h
  · obtain rfl := Except.ok.inj h
    simp at hsecret
  · simp only [bind_eq_ok, Except.ok.injEq] at h
    obtain ⟨bytes, -, _, hsize, rfl⟩ := h
    obtain rfl := Option.some.inj hsecret
    exact checkSize_eq_ok.1 hsize

theorem sized_of_ecMaterial (h : w.ecMaterial = .ok m) : m.Sized := by
  simp only [Written.ecMaterial, bind_eq_ok, Except.ok.injEq] at h
  obtain ⟨curve, -, x, -, y, -, _, hx, _, hy, d, hd, rfl⟩ := h
  exact ⟨checkSize_eq_ok.1 hx, checkSize_eq_ok.1 hy, size_of_privateBytes hd⟩

theorem sized_of_okpMaterial (h : w.okpMaterial = .ok m) : m.Sized := by
  simp only [Written.okpMaterial, bind_eq_ok, Except.ok.injEq] at h
  obtain ⟨curve, -, x, -, _, hx, d, hd, rfl⟩ := h
  exact ⟨checkSize_eq_ok.1 hx, size_of_privateBytes hd⟩

theorem sized_of_material (h : w.material = .ok m) : m.Sized := by
  unfold Written.material at h
  split at h
  · obtain ⟨k, -, h⟩ := bind_eq_ok.1 h
    obtain rfl := Except.ok.inj h
    trivial
  · split at h
    · simp only [Written.rsaMaterial, bind_eq_ok, Except.ok.injEq] at h
      obtain ⟨secret, -, n, -, e, -, rfl⟩ := h
      trivial
    · split at h
      · exact sized_of_ecMaterial h
      · split at h
        · exact sized_of_okpMaterial h
        · simp at h

theorem sized_of_key (h : w.key = .ok key) : key.material.Sized := by
  obtain ⟨material, hmaterial, h⟩ := bind_eq_ok.1 h
  obtain rfl := Except.ok.inj h
  exact sized_of_material hmaterial

theorem sized_of_ofRecord {r : Json.Record} (h : ofRecord r = .ok key) : key.material.Sized := by
  obtain ⟨w, -, h⟩ := bind_eq_ok.1 h
  split at h
  · next key' hkey =>
      obtain rfl := Except.ok.inj h
      exact sized_of_key hkey
  · simp at h

theorem sized_of_ofText {text : String} (h : ofText text = .ok key) : key.material.Sized := by
  simp only [ofText, read, bind_eq_ok, pure_eq_ok, Except.ok.injEq] at h
  obtain ⟨_, ⟨_, -, key', hrecord, rfl⟩, _, -, rfl⟩ := h
  exact sized_of_ofRecord hrecord

/-! ### Keys that are changed -/

/-- A change of a key. Restrictions and names are set, or taken away. -/
inductive Change
  | setKid (kid : Option String)
  | setUse (use : Option KeyUse)
  | setOperations (operations : Option (List KeyOperation))
  | setAlg (alg : Option String)
  | dropPrivate

def Change.apply (key : Jwk) : Change → Except Error Jwk
  | .setKid kid => .ok { key with kid }
  | .setUse use => .ok { key with use }
  | .setOperations operations => .ok { key with operations }
  | .setAlg alg => .ok { key with alg }
  | .dropPrivate => key.publicKey

/-- Changes in a row, as long as they succeed. -/
def changeAll (key : Jwk) (changes : List Change) : Except Error Jwk :=
  changes.foldlM Change.apply key

/-- What every change keeps is kept by changes in a row. -/
theorem changeAll_induction {motive : Jwk → Prop} {changes : List Change} (start : motive key)
    (step : ∀ (changed next : Jwk) (c : Change), motive changed → c.apply changed = .ok next →
      motive next)
    (h : key.changeAll changes = .ok after) : motive after := by
  induction changes generalizing key with
  | nil =>
      obtain rfl := Except.ok.inj h
      exact start
  | cons c rest ih =>
      rw [changeAll, List.foldlM_cons] at h
      obtain ⟨changed, hchanged, h⟩ := bind_eq_ok.1 h
      exact ih (step key changed c start hchanged) h

theorem publicKey_eq_ok :
    key.publicKey = .ok after ↔
      ∃ material, key.material.public? = some material ∧ { key with material } = after := by
  unfold publicKey
  cases key.material.public? <;> simp

theorem sized_public? (hsized : m.Sized) {material : KeyMaterial}
    (h : m.public? = some material) : material.Sized := by
  cases m with
  | oct k => simp [KeyMaterial.public?] at h
  | rsa n e secret =>
      obtain rfl := Option.some.inj h
      trivial
  | ec curve x y d =>
      obtain rfl := Option.some.inj h
      exact ⟨hsized.1, hsized.2.1, nofun⟩
  | okp curve x d =>
      obtain rfl := Option.some.inj h
      exact ⟨hsized.1, nofun⟩

theorem sized_apply {c : Change} (hsized : key.material.Sized) (h : c.apply key = .ok after) :
    after.material.Sized := by
  cases c with
  | dropPrivate =>
      obtain ⟨material, hpublic, rfl⟩ := publicKey_eq_ok.1 h
      exact sized_public? hsized hpublic
  | setKid | setUse | setOperations | setAlg =>
      obtain rfl := Except.ok.inj h
      exact hsized

theorem sized_changeAll {changes : List Change} (hsized : key.material.Sized)
    (h : key.changeAll changes = .ok after) : after.material.Sized :=
  changeAll_induction hsized (fun _ _ _ => sized_apply) h

/-- A key that was read, and changed by then. -/
def Obtained (key : Jwk) : Prop :=
  ∃ text read changes, ofText text = .ok read ∧ read.changeAll changes = .ok key

theorem Obtained.sized (h : key.Obtained) : key.material.Sized := by
  obtain ⟨text, read, changes, hread, hchanged⟩ := h
  exact sized_changeAll (sized_of_ofText hread) hchanged

theorem Obtained.publicKey (h : key.Obtained) (hpublic : key.publicKey = .ok after) :
    after.Obtained := by
  obtain ⟨text, read, changes, hread, hchanged⟩ := h
  refine ⟨text, read, changes ++ [.dropPrivate], hread, ?_⟩
  rw [changeAll, List.foldlM_append]
  apply bind_eq_ok.2
  exact ⟨key, hchanged, by simp [Change.apply, hpublic]⟩

/-! ### Private members -/

/-- The names of the members that only a private key has, or a secret. -/
def privateNames : List String := ["d", "p", "q", "dp", "dq", "qi", "k"]

/-- Nothing private is in the text of the key. -/
def HidesPrivate (key : Jwk) : Prop :=
  ∃ o : Object, Json.parse? key.toText = some o.toJson ∧
    ∀ name ∈ privateNames, o.contains name = false

theorem lookup_privateNames (h : m.hasPrivate = false) :
    ∀ name ∈ privateNames, (materialTexts m).lookup name = none := by
  cases m with
  | oct k => simp [KeyMaterial.hasPrivate] at h
  | rsa n e secret =>
      obtain rfl : secret = none := by simpa [KeyMaterial.hasPrivate] using h
      simp [privateNames, materialTexts, secretTexts, List.lookup_cons]
  | ec curve x y d =>
      obtain rfl : d = none := by simpa [KeyMaterial.hasPrivate] using h
      simp [privateNames, materialTexts, privateTexts, List.lookup_cons]
  | okp curve x d =>
      obtain rfl : d = none := by simpa [KeyMaterial.hasPrivate] using h
      simp [privateNames, materialTexts, privateTexts, List.lookup_cons]

theorem hasPrivate_publicKey (h : key.publicKey = .ok after) : after.hasPrivate = false := by
  obtain ⟨material, hpublic, rfl⟩ := publicKey_eq_ok.1 h
  cases hkey : key.material with
  | oct k => simp [hkey, KeyMaterial.public?] at hpublic
  | rsa | ec | okp =>
      rw [hkey] at hpublic
      obtain rfl := Option.some.inj hpublic
      rfl

theorem hidesPrivate (h : key.hasPrivate = false) : key.HidesPrivate := by
  have hreadable : key.toJson.Readable Json.nestingLimit := by
    rw [toJson_eq]
    exact .obj fun m hm => (codable_members key m hm).readable
  refine ⟨Object.ofMembers (Json.canonicalMembers key.members), ?_, fun name hname => ?_⟩
  · rw [toText, Json.parse?_print hreadable, toJson_eq, Json.canonical]
  · have hmaterial : name ∈ materialNames := by
      revert name
      decide
    rw [Object.contains_eq_false_iff, Json.find?_canonical (distinct_members key),
      find?_material key hmaterial, lookup_privateNames h name hname]
    rfl

end Jwk

/-! ### Sets -/

namespace KeySet

variable {keys done : List Jwk}

theorem opens_toJson (key : Jwk) : key.toJson.Opens :=
  ⟨'{', _, rfl, rfl, by decide⟩

theorem takesItem_keyStep {key : Jwk} (hsized : key.material.Sized) :
    Json.TakesItem keyStep done key.toJson (done ++ [key]) := by
  intro rest _
  rw [keyStep, Jwk.read_chars hsized, ok_bind]
  rfl

theorem folds_keyStep (hsized : ∀ key ∈ keys, key.material.Sized) :
    Json.Folds (Json.TakesItem keyStep) done (keys.map Jwk.toJson) (done ++ keys) := by
  induction keys generalizing done with
  | nil =>
      rw [List.append_nil]
      exact .nil
  | cons key others ih =>
      rw [List.forall_mem_cons] at hsized
      have hothers := @ih (done ++ [key]) hsized.2
      rw [List.append_assoc, List.singleton_append] at hothers
      exact .cons (takesItem_keyStep hsized.1) hothers

/-- The array of keys is read as the keys in order. -/
theorem readKeys_chars (hsized : ∀ key ∈ keys, key.material.Sized) (rest : List Char) :
    readKeys ((Json.arr (keys.map Jwk.toJson)).chars ++ rest) = .ok (keys, rest) := by
  have hopens : ∀ item ∈ keys.map Jwk.toJson, item.Opens := by
    rw [List.forall_mem_map]
    intro key _
    exact opens_toJson key
  rw [Json.chars, List.cons_append, List.append_assoc, List.singleton_append, readKeys,
    Json.dropBlanks_cons rfl]
  exact Json.arrayRest_itemsChars (folds_keyStep hsized) hopens

theorem takesMember_memberStep (hsized : ∀ key ∈ keys, key.material.Sized) :
    Json.TakesMember memberStep none ("keys", .arr (keys.map Jwk.toJson)) (some keys) := by
  intro rest _
  simp [memberStep, readKeys_chars hsized]

theorem ofText_toText (hsized : ∀ key ∈ keys, key.material.Sized) :
    ofText (toText ⟨keys⟩) = .ok ⟨keys⟩ := by
  have hobject := @Json.objectRest_membersChars _ _ _ _ _ []
    (.cons (takesMember_memberStep hsized) .nil)
  have hread : read (toText ⟨keys⟩).toList = .ok (⟨keys⟩, []) := by
    rw [toText, Json.print, String.toList_ofList, Json.chars, read, Json.dropBlanks_cons rfl]
    exact bind_eq_ok.2 ⟨_, hobject, rfl⟩
  rw [ofText, hread]
  rfl

end KeySet

/-! ### Keys that were read and changed -/

/-- A key that can be had from one that was read is written and read again as the same key,
with members of the sizes of its curve. What is written of it has no private member unless it
has a private part, and its public part has none. Keys of this kind are read again from a set,
in order. -/
theorem obtained_reread :
    (∀ key : Jwk, key.Obtained →
      Jwk.ofText key.toText = .ok key ∧ key.material.Sized ∧
      (key.hasPrivate = false → key.HidesPrivate) ∧
      ∀ after, key.publicKey = .ok after → after.Obtained ∧ after.HidesPrivate) ∧
    ∀ keys : List Jwk, (∀ key ∈ keys, key.Obtained) →
      KeySet.ofText (KeySet.toText ⟨keys⟩) = .ok ⟨keys⟩ := by
  refine ⟨fun key hkey => ⟨Jwk.ofText_toText hkey.sized, hkey.sized, Jwk.hidesPrivate,
    fun after hpublic => ⟨?_, ?_⟩⟩, fun keys hkeys => ?_⟩
  · exact hkey.publicKey hpublic
  · exact Jwk.hidesPrivate (Jwk.hasPrivate_publicKey hpublic)
  · exact KeySet.ofText_toText fun key hkey => (hkeys key hkey).sized

/-- A key pair for agreement that permits no operation, and has no name. -/
def pairText : String :=
  "\x7b\"kty\":\"OKP\",\"crv\":\"X25519\",\"key_ops\":[]," ++
    "\"x\":\"AAAAAAAAAAAAAAAAAAAAAAAAAAAAAAAAAAAAAAAAAAA\"," ++
    "\"d\":\"AAAAAAAAAAAAAAAAAAAAAAAAAAAAAAAAAAAAAAAAAAA\"\x7d"

/-- The key pair with a name. -/
def pairKey : Jwk where
  material := .okp .x25519 (Bytes.zeros 32) (some (Bytes.zeros 32))
  operations := some []
  kid := some "1"

def pairPublic : Jwk := { pairKey with material := .okp .x25519 (Bytes.zeros 32) none }

theorem pair_reread :
    pairKey.Obtained ∧ Jwk.ofText pairKey.toText = .ok pairKey ∧
      pairKey.publicKey = .ok pairPublic ∧ pairPublic.HidesPrivate ∧
      KeySet.ofText (KeySet.toText ⟨[pairPublic, pairKey]⟩) = .ok ⟨[pairPublic, pairKey]⟩ := by
  have hread : Jwk.ofText pairText = .ok { pairKey with kid := none } :=
    toOption_eq_some.1 (by decide +kernel)
  have hpair : pairKey.Obtained := ⟨pairText, _, [.setKid (some "1")], hread, rfl⟩
  obtain ⟨hreread, -, -, hpublic⟩ := obtained_reread.1 pairKey hpair
  obtain ⟨hobtained, hhides⟩ := hpublic pairPublic rfl
  refine ⟨hpair, hreread, rfl, hhides, obtained_reread.2 _ ?_⟩
  simp [hpair, hobtained]

end SealedToken
