import SealedToken.Proofs.ContentEncryption
import SealedToken.Proofs.Key.Pair
import SealedToken.Proofs.KeyManagement.Selection
import SealedToken.Proofs.KeyManagement.Wrapping

/-!
A key of the content that was wrapped for a key is recovered with the private key that
belongs to it, as far as the operations on keys undo each other.
-/

namespace SealedToken

/-! ### Operations that undo each other -/

namespace Primitives

variable (p : Primitives)

/-- A key is unwrapped under the key it was wrapped under. -/
def UnwrapsKeys : Prop :=
  ∀ kek key wrapped, p.keyWrap? kek key = some wrapped → p.keyUnwrap? kek wrapped = some key

/-- The encodings of a public RSA key and of the private one that belongs to it: what is
encrypted under the one is decrypted under the other. -/
structure RsaPair (publicInfo privateInfo : List UInt8) : Prop where
  accepted : p.rsaAcceptsDecrypting privateInfo = true
  decrypts : ∀ rng padding text encrypted,
    p.rsaEncrypt? rng padding publicInfo text = some encrypted →
      p.rsaDecrypt? padding privateInfo encrypted = some text

/-- A public member on a curve and the private one that belongs to it: whoever agrees with
the one on a secret finds that its owner has agreed on the same. -/
structure AgreementPair (curve : AgreementCurve) (peer secret : ByteArray) : Prop where
  operable : (p.curvePublic? curve secret).isSome = true
  agrees : ∀ other point shared, p.curvePublic? curve other = some point →
    p.agree? curve other peer = some shared →
      point.size = curve.publicSize ∧ p.agree? curve secret point = some shared

end Primitives

namespace KeyDerivation

theorem le_size_extend (secret : ByteArray) (c : Context) (size : Nat) (out : ByteArray)
    (counter : Nat) : size ≤ (extend secret c size out counter).size := by
  induction out, counter using extend.induct secret c size with
  | case1 out counter hlt ih => rwa [extend, if_pos hlt]
  | case2 out counter hle =>
      rw [extend, if_neg hle]
      exact Nat.le_of_not_lt hle

/-- A derived key has the size that is asked for. -/
theorem size_derive (secret : ByteArray) (c : Context) :
    (derive secret c).size = c.keyBits / 8 := by
  have hle := le_size_extend secret c (c.keyBits / 8) ByteArray.empty 1
  rw [derive, ByteArray.size_extract]
  omega

end KeyDerivation

/-- A parameter that spells bytes. -/
theorem Header.bytes_of_find? {header : Object} {name : String} {bytes : ByteArray}
    (h : header.find? name = some (Json.ofBytes bytes)) : Header.bytes header name = .ok bytes := by
  simp [Header.bytes, Header.bytes?, h, Json.ofBytes]

namespace KeyManagementAlgorithm

variable {p : Primitives} {rng : Entropy} {a : KeyManagementAlgorithm} {key own : Jwk}
  {keyBits : Nat} {held : Option ByteArray} {header received : Object} {limits : PasswordLimits}
  {wrapped : WrappedKey} {name : String}

/-- What the key of a recipient has to permit. -/
def recoveryOperation : KeyManagementAlgorithm → KeyOperation
  | .direct => .decrypt
  | .ecdhEs _ => .deriveKey
  | _ => .unwrapKey

/-- The operations that an algorithm rests on undo each other for a private key. -/
def Inverts (p : Primitives) (a : KeyManagementAlgorithm) (own : Jwk) : Prop :=
  match a with
  | .direct => True
  | .rsaPkcs1 | .rsaOaep | .rsaOaep256 =>
      ∀ n e info, own.rsaPublic .unwrapKey = .ok (n, e) → own.rsaPrivate .unwrapKey = .ok info →
        p.RsaPair (Der.rsaPublicInfo n.data.toList e.data.toList) info
  | .aesKeyWrap _ | .pbes2 _ => p.UnwrapsKeys
  | .aesGcmKeyWrap _ => p.OpensSealed
  | .ecdhEs inner =>
      (∀ curve peer secret, AgreementCurve.ofKey own = .ok curve →
        curve.publicMember own = .ok peer → curve.privateMember own = .ok secret →
          p.AgreementPair curve peer secret) ∧
        (inner.isSome = true → p.UnwrapsKeys)

/-- A header that is received has what the algorithm added, and apart from that what was
there before. -/
structure Carries (a : KeyManagementAlgorithm) (header added received : Object) : Prop where
  added : ∀ name value, added.find? name = some value → received.find? name = some value
  kept : ∀ name, name ∉ a.parameters → received.find? name = header.find? name

/-! ### Each kind of recovery -/

theorem size_contentKey {chosen : ByteArray} (h : contentKey rng keyBits held = .ok chosen) :
    chosen.size = keyBits / 8 := by
  cases held with
  | none =>
      obtain rfl := Except.ok.inj h
      exact rng.size_take _
  | some heldKey =>
      obtain ⟨hsize, h⟩ := seq_eq_ok.1 h
      obtain rfl := Except.ok.inj h
      exact Jwe.checkKeySize_eq_ok.1 hsize

section Octets

variable (howner : key.PrivateOf own)
include howner

/-- The owner has the same secret. -/
theorem octets_own {op other : KeyOperation} {k : ByteArray} (hpermits : own.permits other = true)
    (h : key.octets op = .ok k) : own.octets other = .ok k :=
  Jwk.octets_eq_ok.2 ⟨hpermits, howner.oct (Jwk.octets_eq_ok.1 h).2⟩

theorem sizedSecret_own {s : AesSize} {op other : KeyOperation} {kek : ByteArray}
    (hpermits : own.permits other = true) (h : sizedSecret s key op = .ok kek) :
    sizedSecret s own other = .ok kek ∧ kek.size = s.bytes := by
  obtain ⟨k, hk, h⟩ := bind_eq_ok.1 h
  obtain ⟨hsize, h⟩ := seq_eq_ok.1 h
  obtain rfl := Except.ok.inj h
  exact ⟨bind_eq_ok.2 ⟨_, octets_own howner hpermits hk, seq_eq_ok.2 ⟨hsize, rfl⟩⟩,
    Jwe.checkKeySize_eq_ok.1 hsize⟩

end Octets

theorem unwrapUnder_wrapUnder {kek chosen encrypted : ByteArray} (hunwraps : p.UnwrapsKeys)
    (h : wrapUnder p kek chosen = .ok encrypted) : unwrapUnder p kek encrypted = .ok chosen := by
  unfold wrapUnder at h
  split at h
  · next found hfound =>
      obtain rfl := Except.ok.inj h
      rw [unwrapUnder, hunwraps _ _ _ hfound]
      rfl
  · simp at h

section Rsa

variable {padding : Rsa.EncryptionPadding} {chosen : ByteArray}

/-- The owner of an RSA key decrypts what was encrypted for it. -/
theorem decrypts_of_wrapRsa (howner : key.PrivateOf own) (hpermits : own.permits .unwrapKey = true)
    (hinverts : ∀ n e info, own.rsaPublic .unwrapKey = .ok (n, e) →
      own.rsaPrivate .unwrapKey = .ok info →
        p.RsaPair (Der.rsaPublicInfo n.data.toList e.data.toList) info)
    (h : wrapRsa p rng padding key chosen = .ok wrapped) :
    wrapped.contentKey = chosen ∧ ∃ info, acceptedRsaPrivate p own = .ok info ∧
      p.rsaDecrypt? padding info wrapped.encryptedKey = some chosen := by
  simp only [wrapRsa, bind_eq_ok] at h
  obtain ⟨⟨n, e⟩, hpublic, h⟩ := h
  obtain ⟨-, secret, hmaterial⟩ := Jwk.rsaPublic_eq_ok.1 hpublic
  obtain ⟨s, hown⟩ := howner.rsa hmaterial
  have hown' : own.rsaPublic .unwrapKey = .ok (n, e) := Jwk.rsaPublic_eq_ok.2 ⟨hpermits, _, hown⟩
  have hprivate : ∃ info, own.rsaPrivate .unwrapKey = .ok info := by
    simp [Jwk.rsaPrivate, Jwk.checkOperation_eq_ok_iff.2 hpermits, hown]
  obtain ⟨info, hinfo⟩ := hprivate
  have hpair := hinverts n e info hown' hinfo
  dsimp only at h
  split at h
  · simp at h
  · split at h
    · next encrypted hencrypted =>
        obtain rfl := Except.ok.inj h
        exact ⟨rfl, info, acceptedRsaPrivate_eq_ok.2 ⟨hinfo, hpair.accepted⟩,
          hpair.decrypts _ _ _ _ hencrypted⟩
    · split at h <;> simp at h

end Rsa

theorem unwrapAesGcm_wrapAesGcm {s : AesSize} {kek chosen : ByteArray} (hopens : p.OpensSealed)
    (hkek : kek.size = s.bytes)
    (hadded : ∀ name value, (wrapAesGcm p rng kek chosen).header.find? name = some value →
      received.find? name = some value) :
    unwrapAesGcm p kek (wrapAesGcm p rng kek chosen).encryptedKey received = .ok chosen := by
  have hiv : Header.bytes received "iv" =
      .ok (rng.take ContentEncryptionAlgorithm.gcmIvSize) :=
    Header.bytes_of_find? (hadded _ _ (by simp [wrapAesGcm]))
  have htag : Header.bytes received "tag" = .ok
      (p.gcmSeal kek (rng.take ContentEncryptionAlgorithm.gcmIvSize) .empty chosen).2 :=
    Header.bytes_of_find? (hadded _ _ (by simp [wrapAesGcm]))
  rw [unwrapAesGcm, hiv, ok_bind, htag, ok_bind]
  exact ContentEncryptionAlgorithm.gcmDecrypt_sealed hopens hkek (rng.size_take _)

section Password

variable {s : AesSize} {chosen : ByteArray}

theorem iterationsOf_int {n : Nat} (h : n < 2 ^ 32) : iterationsOf (Json.int n) = .ok n := by
  have hrange : 0 ≤ (n : Int) ∧ (n : Int) < 2 ^ 32 := by omega
  rw [Json.int, iterationsOf, if_pos hrange, Int.toNat_natCast]

theorem le_of_passwordKey {password salt kek : ByteArray} {iterations : Nat}
    (h : a.passwordKey p s limits password salt iterations = .ok kek) :
    iterations ≤ limits.maxIterations := by
  have hcheck := (seq_eq_ok.1 h).1
  unfold PasswordLimits.check at hcheck
  exact Nat.le_of_not_lt (ite_error_eq_ok.1 hcheck).1

/-- Salt and repetitions are received as they were sent. -/
theorem receivedSalt_of_find? {salt : ByteArray} {iterations : Nat}
    (hsalt : received.find? "p2s" = some (Json.ofBytes salt))
    (hiterations : received.find? "p2c" = some (Json.int iterations)) (h : iterations < 2 ^ 32) :
    receivedSalt received = .ok (salt, iterations) := by
  rw [receivedSalt, Header.bytes_of_find? hsalt, ok_bind, Header.value, hiterations]
  dsimp only
  rw [ok_bind, iterationsOf_int h]
  rfl

/-- The owner of a password derives the key that wrapped. -/
theorem recover_pbes2 (other : Entropy) (keyBits : Nat) (howner : key.PrivateOf own)
    (hpermits : own.permits .unwrapKey = true) (hunwraps : p.UnwrapsKeys)
    (hlimit : limits.maxIterations < 2 ^ 32)
    (h : wrapPassword p rng (.pbes2 s) s key chosen header limits = .ok wrapped)
    (hadded : ∀ name value, wrapped.header.find? name = some value →
      received.find? name = some value) :
    wrapped.contentKey = chosen ∧
      recover p other (.pbes2 s) own keyBits wrapped.encryptedKey received limits = .ok chosen := by
  simp only [wrapPassword, bind_eq_ok, pure_eq_ok, Except.ok.injEq] at h
  obtain ⟨⟨salt, iterations⟩, -, secret, hsecret, kek, hkek, encrypted, hencrypted, rfl⟩ := h
  refine ⟨rfl, ?_⟩
  have hiterations : iterations < 2 ^ 32 := Nat.lt_of_le_of_lt (le_of_passwordKey hkek) hlimit
  have hreceived : receivedSalt received = .ok (salt, iterations) :=
    receivedSalt_of_find? (hadded _ _ (by simp)) (hadded _ _ (by simp)) hiterations
  rw [recover, hreceived, ok_bind]
  dsimp only
  rw [octets_own howner hpermits hsecret, ok_bind, hkek, ok_bind]
  exact unwrapUnder_wrapUnder hunwraps hencrypted

end Password

section Agreement

variable {curve : AgreementCurve} {derived : ByteArray} {added : Object}

theorem ofKey_own (howner : key.PrivateOf own) (h : AgreementCurve.ofKey key = .ok curve) :
    AgreementCurve.ofKey own = .ok curve := by
  unfold AgreementCurve.ofKey at h
  split at h
  · next hmaterial =>
      obtain ⟨d, hown⟩ := howner.ec hmaterial
      rwa [AgreementCurve.ofKey, hown]
  · next hmaterial =>
      obtain ⟨d, hown⟩ := howner.okp hmaterial
      rwa [AgreementCurve.ofKey, hown]
  · simp at h

theorem members_own {peer : ByteArray} (howner : key.PrivateOf own)
    (hpermits : own.permits .deriveKey = true) (h : curve.publicMember key = .ok peer) :
    curve.publicMember own = .ok peer ∧ ∃ secret, curve.privateMember own = .ok secret := by
  have hchecked := Jwk.checkOperation_eq_ok_iff.2 hpermits
  cases curve with
  | ec c =>
      obtain ⟨⟨c', x, y⟩, hpublic, hpeer⟩ := bind_eq_ok.1 h
      obtain ⟨-, d, hmaterial⟩ := Jwk.ecPublic_eq_ok.1 hpublic
      obtain ⟨d, hown⟩ := howner.ec hmaterial
      obtain rfl := Except.ok.inj hpeer
      simp [AgreementCurve.publicMember, AgreementCurve.privateMember, Jwk.ecPrivate, Jwk.ecPublic,
        hchecked, hown]
  | x25519 =>
      obtain ⟨⟨c', x⟩, hpublic, hpeer⟩ := bind_eq_ok.1 h
      obtain ⟨-, d, hmaterial⟩ := Jwk.okpPublic_eq_ok.1 hpublic
      obtain ⟨d, hown⟩ := howner.okp hmaterial
      obtain rfl := Except.ok.inj hpeer
      simp [AgreementCurve.publicMember, AgreementCurve.privateMember, Jwk.okpPrivate,
        Jwk.okpPublic, hchecked, hown]

/-- The key that is made for one message, as the recipient sees it. -/
theorem publicKey_members {point : ByteArray} (hsize : point.size = curve.publicSize) :
    AgreementCurve.ofKey (curve.publicKey point) = .ok curve ∧
      curve.publicMember (curve.publicKey point) = .ok point := by
  cases curve with
  | ec c =>
      refine ⟨rfl, ?_⟩
      have hsize : point.size = 2 * c.coordinateSize := hsize
      have hjoin : point.extract 0 c.coordinateSize ++
          point.extract c.coordinateSize (2 * c.coordinateSize) = point := by
        rw [ByteArray.extract_append_extract, Nat.zero_min, Nat.max_eq_right (by omega), ← hsize,
          ByteArray.extract_zero_size]
      simp [AgreementCurve.publicMember, AgreementCurve.publicKey, Jwk.ecPublic, Jwk.checkOperation,
        hjoin]
  | x25519 => exact ⟨rfl, rfl⟩

/-- What the key is derived for is read from parameters that no agreement adds. -/
theorem deriveShared_congr {secret peer : ByteArray} {inner : Option AesSize}
    (h : ∀ name, name ∉ (ecdhEs inner).parameters → received.find? name = header.find? name) :
    deriveShared p (.ecdhEs inner) curve secret peer keyBits received =
      deriveShared p (.ecdhEs inner) curve secret peer keyBits header := by
  have henc := h "enc" (by simp [parameters])
  have hproducer := h "apu" (by simp [parameters])
  have hconsumer := h "apv" (by simp [parameters])
  simp only [deriveShared, derivedFor, Header.bytes?, henc, hproducer, hconsumer]

/-- The key is derived from a secret that is shared. It depends on the secret, and not on
the side. -/
theorem exists_of_deriveShared {secret peer : ByteArray}
    (h : deriveShared p a curve secret peer keyBits header = .ok derived) :
    derived.size = keyBits / 8 ∧ ∃ shared, p.agree? curve secret peer = some shared ∧
      ∀ other point, p.agree? curve other point = some shared →
        deriveShared p a curve other point keyBits header = .ok derived := by
  simp only [deriveShared, bind_eq_ok] at h ⊢
  obtain ⟨name, hname, producer, hproducer, consumer, hconsumer, h⟩ := h
  split at h
  · simp at h
  · next shared hshared =>
      obtain rfl := Except.ok.inj h
      refine ⟨KeyDerivation.size_derive _ _, shared, hshared, fun other point hother => ?_⟩
      exact ⟨name, hname, producer, hproducer, consumer, hconsumer, by rw [hother]; rfl⟩

/-- The sender's side of an agreement. -/
theorem exists_of_agree (h : agree p rng a key keyBits header = .ok (derived, added)) :
    ∃ curve peer point, AgreementCurve.ofKey key = .ok curve ∧ curve.publicMember key = .ok peer ∧
      curve.checkSupported = .ok () ∧
      p.curvePublic? curve (p.curveSecret rng curve) = some point ∧
      deriveShared p a curve (p.curveSecret rng curve) peer keyBits header = .ok derived ∧
      added = Object.empty.insert "epk" (curve.publicKey point).toJson.canonical := by
  simp only [agree, bind_eq_ok] at h
  obtain ⟨curve, hcurve, peer, hpeer, _, hsupported, h⟩ := h
  split at h
  · simp at h
  · next point hpoint =>
      simp only [bind_eq_ok, pure_eq_ok, Except.ok.injEq, Prod.mk.injEq] at h
      obtain ⟨derived', hderived, rfl, rfl⟩ := h
      exact ⟨curve, peer, point, hcurve, hpeer, hsupported, hpoint, hderived, rfl⟩

/-- Both sides of an agreement derive the same key. -/
theorem deriveReceived_of_agree {inner : Option AesSize} (howner : key.PrivateOf own)
    (hpermits : own.permits .deriveKey = true)
    (hpairs : ∀ curve peer secret, AgreementCurve.ofKey own = .ok curve →
      curve.publicMember own = .ok peer → curve.privateMember own = .ok secret →
        p.AgreementPair curve peer secret)
    (h : agree p rng (.ecdhEs inner) key keyBits header = .ok (derived, added))
    (hcarries : (ecdhEs inner).Carries header added received) :
    deriveReceived p (.ecdhEs inner) own keyBits received = .ok derived := by
  obtain ⟨curve, peer, point, hcurve, hpeer, hsupported, hpoint, hderived, rfl⟩ := exists_of_agree h
  have hown := ofKey_own howner hcurve
  obtain ⟨hpeer', secret, hsecret⟩ := members_own howner hpermits hpeer
  have hpair := hpairs curve peer secret hown hpeer' hsecret
  obtain ⟨-, shared, hshared, hsame⟩ := exists_of_deriveShared hderived
  obtain ⟨hsize, hshared'⟩ := hpair.agrees _ _ _ hpoint hshared
  obtain ⟨hephemeral, hmember⟩ := publicKey_members hsize
  have hepk : Header.value received "epk" = .ok (curve.publicKey point).toJson.canonical := by
    rw [Header.value, hcarries.added "epk" (curve.publicKey point).toJson.canonical (by simp)]
  have hoperable : curve.operableMember p own = .ok secret := by
    simp [AgreementCurve.operableMember, hsecret, hsupported, hpair.operable]
  rw [deriveReceived, hown, ok_bind, hepk, ok_bind, AgreementCurve.ofJson_publicKey hsize,
    ok_bind, if_neg (by simp [hephemeral, Except.toOption]), hoperable, ok_bind, hmember,
    ok_bind, deriveShared_congr hcarries.kept]
  exact hsame secret point hshared'

end Agreement

/-! ### What is added to the header -/

theorem plain_of_insert {o : Object} {value : Json} (ho : ∀ n v, o.find? n = some v → v.Plain)
    (hvalue : value.Plain) : ∀ n v, (o.insert name value).find? n = some v → v.Plain := by
  intro n v hv
  rw [Object.find?_insert] at hv
  split at hv
  · obtain rfl := Option.some.inj hv
    exact hvalue
  · exact ho n v hv

/-- All that an algorithm adds is plain. -/
theorem plain_of_wrap (hlimit : limits.maxIterations < 2 ^ 32)
    (h : a.wrap p rng key keyBits held header limits = .ok wrapped) :
    ∀ n v, wrapped.header.find? n = some v → v.Plain := by
  have hempty : ∀ n v, Object.empty.find? n = some v → v.Plain := by simp
  cases a with
  | direct =>
      simp only [wrap, bind_eq_ok, pure_eq_ok, Except.ok.injEq] at h
      obtain ⟨_, -, _, -, _, -, rfl⟩ := h
      exact hempty
  | rsaPkcs1 | rsaOaep | rsaOaep256 =>
      obtain ⟨_, -, h⟩ := bind_eq_ok.1 h
      rw [(wrapRsa_eq_ok h).2]
      exact hempty
  | aesKeyWrap s =>
      simp only [wrap, bind_eq_ok, pure_eq_ok, Except.ok.injEq] at h
      obtain ⟨_, -, _, -, _, -, rfl⟩ := h
      exact hempty
  | aesGcmKeyWrap s =>
      simp only [wrap, bind_eq_ok, pure_eq_ok, Except.ok.injEq] at h
      obtain ⟨_, -, _, -, rfl⟩ := h
      exact plain_of_insert (plain_of_insert hempty (.text _)) (.text _)
  | pbes2 s =>
      obtain ⟨_, -, h⟩ := bind_eq_ok.1 h
      simp only [wrapPassword, bind_eq_ok, pure_eq_ok, Except.ok.injEq] at h
      obtain ⟨⟨salt, iterations⟩, -, _, -, _, hkek, _, -, rfl⟩ := h
      exact plain_of_insert (plain_of_insert hempty (.text _))
        (.count (Nat.lt_of_le_of_lt (le_of_passwordKey hkek) hlimit))
  | ecdhEs inner =>
      have hadded : ∃ (other : Entropy) (bits : Nat) (derived : ByteArray),
          agree p other (.ecdhEs inner) key bits header = .ok (derived, wrapped.header) := by
        cases inner with
        | none =>
            simp only [wrap, bind_eq_ok, pure_eq_ok, Except.ok.injEq] at h
            obtain ⟨_, -, ⟨derived, added⟩, hagree, rfl⟩ := h
            exact ⟨_, _, derived, hagree⟩
        | some s =>
            simp only [wrap, bind_eq_ok, pure_eq_ok, Except.ok.injEq] at h
            obtain ⟨⟨kek, added⟩, hagree, _, -, _, -, rfl⟩ := h
            exact ⟨_, _, kek, hagree⟩
      obtain ⟨_, _, _, hagree⟩ := hadded
      obtain ⟨_, _, _, -, -, -, -, -, hheader⟩ := exists_of_agree hagree
      rw [hheader]
      exact plain_of_insert hempty AgreementCurve.plain_publicKey

/-! ### Any algorithm -/

theorem size_of_agree {derived : ByteArray} {added : Object}
    (h : agree p rng a key keyBits header = .ok (derived, added)) : derived.size = keyBits / 8 := by
  obtain ⟨_, _, _, -, -, -, -, hderived, -⟩ := exists_of_agree h
  exact (exists_of_deriveShared hderived).1

/-- The key of the content that was wrapped has the size that was asked for, and its owner
recovers it. -/
theorem recover_wrap (other : Entropy) (howner : key.PrivateOf own)
    (hpermits : own.permits a.recoveryOperation = true) (hinverts : a.Inverts p own)
    (hlimit : limits.maxIterations < 2 ^ 32)
    (h : a.wrap p rng key keyBits held header limits = .ok wrapped)
    (hcarries : a.Carries header wrapped.header received) :
    wrapped.contentKey.size = keyBits / 8 ∧
      a.recover p other own keyBits wrapped.encryptedKey received limits =
        .ok wrapped.contentKey := by
  cases a with
  | direct =>
      simp only [wrap, bind_eq_ok, pure_eq_ok, Except.ok.injEq] at h
      obtain ⟨_, -, k, hk, _, hsize, rfl⟩ := h
      refine ⟨Jwe.checkKeySize_eq_ok.1 hsize, ?_⟩
      have hown : own.octets .decrypt = .ok k := octets_own howner hpermits hk
      rw [recover, hown]
      rfl
  | rsaPkcs1 =>
      obtain ⟨chosen, hchosen, h⟩ := bind_eq_ok.1 h
      obtain ⟨rfl, info, hinfo, hdecrypts⟩ := decrypts_of_wrapRsa howner hpermits hinverts h
      have hsize := size_contentKey hchosen
      refine ⟨hsize, ?_⟩
      rw [recover, unwrapRsaPkcs1_of_accepted hinfo, hdecrypts]
      simp [hsize, Option.filter]
  | rsaOaep | rsaOaep256 =>
      obtain ⟨chosen, hchosen, h⟩ := bind_eq_ok.1 h
      obtain ⟨rfl, info, hinfo, hdecrypts⟩ := decrypts_of_wrapRsa howner hpermits hinverts h
      refine ⟨size_contentKey hchosen, ?_⟩
      rw [recover, unwrapRsaOaep, hinfo, ok_bind, hdecrypts]
      rfl
  | aesKeyWrap s =>
      simp only [wrap, bind_eq_ok, pure_eq_ok, Except.ok.injEq] at h
      obtain ⟨kek, hkek, chosen, hchosen, encrypted, hencrypted, rfl⟩ := h
      refine ⟨size_contentKey hchosen, ?_⟩
      have hown : sizedSecret s own .unwrapKey = .ok kek := (sizedSecret_own howner hpermits hkek).1
      rw [recover, hown, ok_bind]
      exact unwrapUnder_wrapUnder hinverts hencrypted
  | aesGcmKeyWrap s =>
      simp only [wrap, bind_eq_ok, pure_eq_ok, Except.ok.injEq] at h
      obtain ⟨kek, hkek, chosen, hchosen, rfl⟩ := h
      refine ⟨size_contentKey hchosen, ?_⟩
      have hsize := (sizedSecret_own howner hpermits hkek).2
      have hown : sizedSecret s own .unwrapKey = .ok kek := (sizedSecret_own howner hpermits hkek).1
      rw [recover, hown, ok_bind]
      exact unwrapAesGcm_wrapAesGcm hinverts hsize hcarries.added
  | pbes2 s =>
      obtain ⟨chosen, hchosen, h⟩ := bind_eq_ok.1 h
      obtain ⟨rfl, hrecover⟩ :=
        recover_pbes2 other keyBits howner hpermits hinverts hlimit h hcarries.added
      exact ⟨size_contentKey hchosen, hrecover⟩
  | ecdhEs inner =>
      cases inner with
      | none =>
          simp only [wrap, bind_eq_ok, pure_eq_ok, Except.ok.injEq] at h
          obtain ⟨_, -, ⟨derived, added⟩, hagree, rfl⟩ := h
          have hreceived := deriveReceived_of_agree howner hpermits hinverts.1 hagree hcarries
          refine ⟨size_of_agree hagree, ?_⟩
          rw [recover, hreceived]
          rfl
      | some s =>
          simp only [wrap, bind_eq_ok, pure_eq_ok, Except.ok.injEq] at h
          obtain ⟨⟨kek, added⟩, hagree, chosen, hchosen, encrypted, hencrypted, rfl⟩ := h
          have hreceived := deriveReceived_of_agree howner hpermits hinverts.1 hagree hcarries
          refine ⟨size_contentKey hchosen, ?_⟩
          rw [recover, hreceived, ok_bind]
          exact unwrapUnder_wrapUnder (hinverts.2 rfl) hencrypted

/-- The owner of a key recovers what was wrapped for it. -/
theorem unwrap_wrap (other : Entropy) (howner : key.PrivateOf own)
    (hpermits : own.permits a.recoveryOperation = true) (hinverts : a.Inverts p own)
    (hlimit : limits.maxIterations < 2 ^ 32)
    (h : a.wrap p rng key keyBits held header limits = .ok wrapped)
    (hcarries : a.Carries header wrapped.header received) :
    a.unwrap p other own keyBits wrapped.encryptedKey received limits =
      .ok wrapped.contentKey := by
  obtain ⟨hsize, hrecover⟩ := recover_wrap other howner hpermits hinverts hlimit h hcarries
  rw [unwrap, hrecover, ok_bind, Jwe.checkKeySize_eq_ok.2 hsize]
  rfl

end KeyManagementAlgorithm

end SealedToken
