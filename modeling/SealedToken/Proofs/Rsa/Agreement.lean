import SealedToken.Primitives.Standard
import SealedToken.Proofs.Key.RoundTrip
import SealedToken.Proofs.Rsa.Signature
import SealedToken.Proofs.Signing

/-!
Signatures with an RSA key and their verification read the key in two ways. To sign, all of its
members are encoded, and zeros in front of a number are left out of an encoding. To verify,
modulus and exponent are handed on as the bytes that they were given as. A key whose modulus or
exponent has a zero in front therefore signs, and refuses all that it signed; every other key
accepts what it signed.
-/

namespace SealedToken

open Rsa

/-- The members of a private key, as they are encoded. -/
def RsaSecret.parts (n e : ByteArray) (s : RsaSecret) : Der.RsaParts :=
  ⟨n.data.toList, e.data.toList, s.d.data.toList, s.p.data.toList, s.q.data.toList,
    s.dp.data.toList, s.dq.data.toList, s.qi.data.toList⟩

/-- The numbers that the members of a private key are. -/
def RsaSecret.numbers (n e : ByteArray) (s : RsaSecret) : PrivateKey :=
  PrivateKey.ofParts (s.parts n e)

theorem RsaSecret.modulus_numbers (n e : ByteArray) (s : RsaSecret) :
    (s.numbers n e).n = Bytes.toNat n :=
  (Bytes.toNat_eq_spelled n).symm

theorem RsaSecret.exponent_numbers (n e : ByteArray) (s : RsaSecret) :
    (s.numbers n e).e = Bytes.toNat e :=
  (Bytes.toNat_eq_spelled e).symm

/-- The private members of a key in their shortest bytes. -/
def RsaSecret.ofNumbers (k : PrivateKey) : RsaSecret :=
  ⟨Bytes.minimal k.d, Bytes.minimal k.p, Bytes.minimal k.q, Bytes.minimal k.dp,
    Bytes.minimal k.dq, Bytes.minimal k.qi⟩

theorem RsaSecret.numbers_ofNumbers {k : PrivateKey} {n : ByteArray} (hn : Bytes.toNat n = k.n) :
    (RsaSecret.ofNumbers k).numbers n (Bytes.minimal k.e) = k := by
  have hminimal (m : Nat) : numberOf (Bytes.minimal m).data.toList = m :=
    (Bytes.toNat_eq_spelled _).symm.trans Bytes.toNat_minimal
  have hmodulus : numberOf n.data.toList = k.n := (Bytes.toNat_eq_spelled n).symm.trans hn
  simp only [numbers, parts, ofNumbers, PrivateKey.ofParts, hminimal, hmodulus]

/-! ### Operations that read the numbers of a key -/

namespace Primitives

/-- Bytes of a public RSA key are refused when a zero is in front. -/
def RefusesPadded (p : Primitives) : Prop :=
  ∀ padding h n e message signature, Padded n ∨ Padded e →
    p.rsaVerify padding h n e message signature = false

/-- What is signed with the encoding of a private key is accepted by the shortest bytes of its
modulus and its exponent. -/
def ReadsRsa (p : Primitives) (k : PrivateKey) : Prop :=
  p.AcceptsRsa k.info (Bytes.minimal k.n) (Bytes.minimal k.e)

theorem standard_refusesPadded : Primitives.standard.RefusesPadded :=
  fun _ _ _ _ _ _ hpadded => verify_padded hpadded

theorem standard_readsRsa {k : PrivateKey} (hsize : k.parts.size < 2 ^ 60) :
    Primitives.standard.ReadsRsa k :=
  fun _ _ _ _ _ hs => verify_sign? hsize hs

-- Both stand for any encoding: on that of a key, the check of these equations would read it.
theorem standard_rsaAcceptsSigning (info : List UInt8) :
    Primitives.standard.rsaAcceptsSigning info = (PrivateKey.ofInfo? info).isSome := rfl

theorem standard_rsaSign? (rng : Entropy) (padding : SignaturePadding) (h : ShaSize)
    (info : List UInt8) (message : ByteArray) :
    Primitives.standard.rsaSign? rng padding h info message =
      sign? rng padding h info message := rfl

/-- The encoding of a consistent key is accepted, and stands for the key. -/
theorem standard_signs (rng : Entropy) {k : PrivateKey} {h : ShaSize}
    {message signature : ByteArray} (hsize : k.parts.size < 2 ^ 60) (hk : k.consistent = true)
    (hs : Pkcs1.sign? k h message = some signature) :
    Primitives.standard.rsaAcceptsSigning k.info = true ∧
      Primitives.standard.rsaSign? rng .pkcs1 h k.info message = some signature := by
  have hread : PrivateKey.ofInfo? k.info = some k := by rw [ofInfo?_info hsize, if_pos hk]
  constructor
  · rw [standard_rsaAcceptsSigning, hread, Option.isSome_some]
  · rw [standard_rsaSign?, sign?, hread, ← hs]
    rfl

end Primitives

namespace SigningAlgorithm

variable {p : Primitives} {rng : Entropy} {a : SigningAlgorithm} {key own : Jwk}
  {message signature n e : ByteArray} {secret : RsaSecret} {padding : SignaturePadding}
  {h : ShaSize}

/-! ### Both readings of a key -/

theorem rsaPrivate_eq_info {op : KeyOperation} (hown : own.material = .rsa n e (some secret))
    (hpermits : own.permits op = true) : own.rsaPrivate op = .ok (secret.numbers n e).info := by
  rw [Jwk.rsaPrivate, Jwk.checkOperation_eq_ok_iff.2 hpermits, ok_bind, hown,
    RsaSecret.numbers, ← rsaPrivateInfo_eq_info]
  rfl

/-- A signature is made with the numbers of the key. -/
theorem signRsa_numbers (hown : own.material = .rsa n e (some secret))
    (hpermits : own.permits .sign = true)
    (haccepts : p.rsaAcceptsSigning (secret.numbers n e).info = true)
    (hsigned : p.rsaSign? rng padding h (secret.numbers n e).info message = some signature) :
    signRsa p rng padding h own message = .ok signature := by
  rw [signRsa, rsaPrivate_eq_info hown hpermits, ok_bind, haccepts, hsigned]
  rfl

/-- Where no zero is in front, the bytes of a key are the shortest ones of its numbers. -/
theorem acceptsOwn_of_readsRsa (hown : own.material = .rsa n e (some secret))
    (hreads : p.ReadsRsa (secret.numbers n e)) (hplain : ¬ (Padded n ∨ Padded e)) :
    AcceptsOwn p a own := by
  have hn : Bytes.minimal (secret.numbers n e).n = n := by
    rw [RsaSecret.modulus_numbers]
    exact Bytes.minimal_toNat_of_head fun h => hplain (.inl h)
  have he : Bytes.minimal (secret.numbers n e).e = e := by
    rw [RsaSecret.exponent_numbers]
    exact Bytes.minimal_toNat_of_head fun h => hplain (.inr h)
  rw [Primitives.ReadsRsa, hn, he] at hreads
  have haccepts (n' e' : ByteArray) (s : Option RsaSecret) (info : List UInt8)
      (hmaterial : own.material = .rsa n' e' s) (hinfo : own.rsaPrivate .sign = .ok info) :
      p.AcceptsRsa info n' e' := by
    obtain ⟨rfl, rfl, -⟩ := KeyMaterial.rsa.inj (hown.symm.trans hmaterial)
    rw [rsaPrivate_eq_info hown (Jwk.rsaPrivate_eq_ok hinfo).1] at hinfo
    obtain rfl := Except.ok.inj hinfo
    exact hreads
  cases a with
  | rsaPkcs1 | rsaPss => exact haccepts
  | hmac | unsecured => trivial
  | ecdsa | eddsa => simp [AcceptsOwn, hown]

/-- Only the algorithms of its own kind sign with an RSA key. -/
theorem verify_eq_verifyRsa (hown : own.material = .rsa n e (some secret))
    (hsign : a.sign p rng own message = .ok signature) :
    ∃ padding h, ∀ key, a.verify p key message signature =
      verifyRsa p padding h key message signature := by
  cases a with
  | rsaPkcs1 h => exact ⟨.pkcs1, h, fun _ => rfl⟩
  | rsaPss h => exact ⟨.pss, h, fun _ => rfl⟩
  | hmac h =>
      obtain ⟨k, hk, -⟩ := bind_eq_ok.1 hsign
      have hmaterial := (Jwk.octets_eq_ok.1 hk).2
      simp [hown] at hmaterial
  | ecdsa curve =>
      obtain ⟨⟨found, d, x, y⟩, hprivate, -⟩ := bind_eq_ok.1 hsign
      have hmaterial := (Jwk.ecPrivate_eq_ok.1 hprivate).2
      simp [hown] at hmaterial
  | eddsa =>
      obtain ⟨⟨curve, d, x⟩, hprivate, -⟩ := bind_eq_ok.1 hsign
      have hmaterial := (Jwk.okpPrivate_eq_ok.1 hprivate).2
      simp [hown] at hmaterial
  | unsecured =>
      obtain ⟨hempty, -⟩ := seq_eq_ok.1 hsign
      simp [checkEmptySecret, hown] at hempty

/-- Nothing is verified with a key that has a zero in front. -/
theorem verifyRsa_padded {s : Option RsaSecret} (hkey : key.material = .rsa n e s)
    (hpermits : key.permits .verify = true) (hrefuses : p.RefusesPadded)
    (hpadded : Padded n ∨ Padded e) :
    verifyRsa p padding h key message signature = .error .invalidSignature := by
  rw [verifyRsa, Jwk.rsaPublic_eq_ok.2 ⟨hpermits, s, hkey⟩, ok_bind]
  dsimp only
  rw [hrefuses _ _ _ _ _ _ hpadded]
  rfl

/-- The answer of a key to its own signatures: they are refused when its modulus or its
exponent has a zero in front. -/
def answer (n e : ByteArray) : Except Error Unit :=
  if Padded n ∨ Padded e then .error .invalidSignature else .ok ()

theorem verify_eq_answer (hfor : key.VerifiesFor own) (hpermits : key.permits .verify = true)
    (hown : own.material = .rsa n e (some secret)) (hreads : p.ReadsRsa (secret.numbers n e))
    (hrefuses : p.RefusesPadded) (hsign : a.sign p rng own message = .ok signature) :
    a.verify p key message signature = answer n e := by
  rw [answer]
  split
  · next hpadded =>
      obtain ⟨padding, h, hverify⟩ := verify_eq_verifyRsa hown hsign
      obtain ⟨s, hkey⟩ := hfor.rsa hown
      rw [hverify]
      exact verifyRsa_padded hkey hpermits hrefuses hpadded
  · next hplain =>
      exact verify_sign hfor hpermits (acceptsOwn_of_readsRsa hown hreads hplain) hsign

/-- What an RSA key signed is accepted by it and by its public part, unless its modulus or its
exponent has a zero in front: then both refuse it. -/
theorem verify_signed_rsa (hown : own.material = .rsa n e (some secret))
    (hreads : p.ReadsRsa (secret.numbers n e)) (hrefuses : p.RefusesPadded)
    (hpermits : own.permits .verify = true)
    (hsign : a.sign p rng own message = .ok signature) :
    a.verify p own message signature = answer n e ∧
      ∃ shared, own.publicKey = .ok shared ∧ shared.hasPrivate = false ∧
        a.verify p shared message signature = answer n e := by
  have hpublic : own.material.public? = some (.rsa n e none) := by rw [hown]; rfl
  have hshared : own.publicKey = .ok { own with material := .rsa n e none } :=
    Jwk.publicKey_eq_ok.2 ⟨_, hpublic, rfl⟩
  refine ⟨verify_eq_answer (.inl rfl) hpermits hown hreads hrefuses hsign, _, hshared, rfl, ?_⟩
  exact verify_eq_answer (.inr hpublic) hpermits hown hreads hrefuses hsign

/-! ### A key with and without a zero in front -/

/-- A number from its words of 256 bits. -/
def ofWords (words : List Nat) : Nat :=
  words.foldl (fun n word => n * 2 ^ 256 + word) 0

/-- A key with a modulus of 2048 bits. -/
def sampleNumbers : PrivateKey :=
  let e := 65537
  let p := ofWords
    [0xe49fc20e6ac7660fdd893b25024de82f7a6c5458b51179cdc077ce4f61cadb39,
     0x19f318d31ccfa598ea0b48df4e35569dce82e13fbf4a05d2ad6556b08e95b438,
     0x55467a6e47317e023d1707e9915e9c5fb39b893361edbcef3ae73a1cca3886a5,
     0x5fbc5c3abf58cc5289aa214367d24f9cb58302a20c702731a54f7700f5a913c9]
  let q := ofWords
    [0xdedd1a2dcc7ce401b95dc7b558fc0554b2d5627c137b189f2cdc206247e78f0a,
     0x2c766abd7aee912f633a7bd2b004394126ebdebed6e0d01d70ad99f9a56fa29b,
     0xc2b1a036679b76b1c8974498b5f9a1431ac7184505baf3afb0fdf22e01d130c0,
     0x9c9fc484dceff6774d2ace26fe0712bb6e2d9b8b9281663ebd81737debd4c68f]
  let d := (Modular.inverse? (Nat.lcm (p - 1) (q - 1)) e).getD 0
  { n := p * q, e, d, p, q, dp := d % (p - 1), dq := d % (q - 1)
    qi := (Modular.inverse? p q).getD 0 }

/-- The key with so many bytes for its modulus. -/
def sampleKey (size : Nat) : Jwk where
  material := .rsa (Bytes.ofNat size sampleNumbers.n) (Bytes.minimal sampleNumbers.e)
    (some (.ofNumbers sampleNumbers))

theorem consistent_sampleNumbers : sampleNumbers.consistent = true := by
  decide +kernel

theorem isSome_sign_sampleNumbers :
    (Pkcs1.sign? sampleNumbers .sha256 .empty).isSome = true := by
  -- a list is evaluated much faster than an array
  rw [Pkcs1.sign?, Option.isSome_map, Bytes.toNat_eq_spelled]
  decide +kernel

theorem size_parts_sampleNumbers : sampleNumbers.parts.size < 2 ^ 60 := by
  decide +kernel

theorem modulus_sampleKey {size : Nat} (hsize : 256 ≤ size) :
    Bytes.toNat (Bytes.ofNat size sampleNumbers.n) = sampleNumbers.n := by
  have hfits : sampleNumbers.n < 256 ^ 256 := by decide +kernel
  rw [Bytes.toNat_ofNat, Nat.mod_eq_of_lt]
  exact Nat.lt_of_lt_of_le hfits (Nat.pow_le_pow_right (by decide) hsize)

theorem numbers_sampleKey {size : Nat} (hsize : 256 ≤ size) :
    (RsaSecret.ofNumbers sampleNumbers).numbers (Bytes.ofNat size sampleNumbers.n)
      (Bytes.minimal sampleNumbers.e) = sampleNumbers :=
  RsaSecret.numbers_ofNumbers (modulus_sampleKey hsize)

/-- The key signs, with more bytes for the modulus as well. -/
theorem sign_sampleKey (rng : Entropy) {size : Nat} (hsize : 256 ≤ size) :
    ∃ signature, sign .standard rng (.rsaPkcs1 .sha256) (sampleKey size) .empty = .ok signature := by
  obtain ⟨signature, hs⟩ := Option.isSome_iff_exists.1 isSome_sign_sampleNumbers
  obtain ⟨haccepts, hsigned⟩ := Primitives.standard_signs rng size_parts_sampleNumbers
    consistent_sampleNumbers hs
  rw [← numbers_sampleKey hsize] at haccepts hsigned
  exact ⟨signature, signRsa_numbers rfl rfl haccepts hsigned⟩

/-- The key accepts what it signs, and so does its public part. -/
theorem sampleKey_accepts_own :
    ∃ signature, sign .standard (.ofSeed .empty) (.rsaPkcs1 .sha256) (sampleKey 256) .empty =
        .ok signature ∧
      verify .standard (.rsaPkcs1 .sha256) (sampleKey 256) .empty signature = .ok () ∧
      ∃ shared, (sampleKey 256).publicKey = .ok shared ∧ shared.hasPrivate = false ∧
        verify .standard (.rsaPkcs1 .sha256) shared .empty signature = .ok () := by
  obtain ⟨signature, hsign⟩ := sign_sampleKey (.ofSeed .empty) (Nat.le_refl 256)
  have hanswer : answer (Bytes.ofNat 256 sampleNumbers.n) (Bytes.minimal sampleNumbers.e) =
      .ok () := if_neg (by decide +kernel)
  have hreads : Primitives.standard.ReadsRsa ((RsaSecret.ofNumbers sampleNumbers).numbers
      (Bytes.ofNat 256 sampleNumbers.n) (Bytes.minimal sampleNumbers.e)) := by
    rw [numbers_sampleKey (Nat.le_refl 256)]
    exact Primitives.standard_readsRsa size_parts_sampleNumbers
  have hverify := verify_signed_rsa rfl hreads Primitives.standard_refusesPadded rfl hsign
  rw [hanswer] at hverify
  exact ⟨signature, hsign, hverify⟩

/-- The same key as a text, with a zero in front of the modulus. It is read and signs, and then
it refuses its signature, and so does its public part. -/
theorem padded_sampleKey_refuses_own :
    Jwk.ofText (sampleKey 257).toText = .ok (sampleKey 257) ∧
      (sampleKey 257).permits .verify = true ∧
      (∀ k : PrivateKey, k.parts.size < 2 ^ 60 → Primitives.standard.ReadsRsa k) ∧
      Primitives.standard.RefusesPadded ∧
      ∃ signature, sign .standard (.ofSeed .empty) (.rsaPkcs1 .sha256) (sampleKey 257) .empty =
          .ok signature ∧
        verify .standard (.rsaPkcs1 .sha256) (sampleKey 257) .empty signature =
          .error .invalidSignature ∧
        ∃ shared, (sampleKey 257).publicKey = .ok shared ∧
          verify .standard (.rsaPkcs1 .sha256) shared .empty signature =
            .error .invalidSignature := by
  obtain ⟨signature, hsign⟩ := sign_sampleKey (.ofSeed .empty) (Nat.le_succ 256)
  have hpadded : Padded (Bytes.ofNat 257 sampleNumbers.n) := by decide +kernel
  exact ⟨Jwk.ofText_toText trivial, rfl, fun _ => Primitives.standard_readsRsa,
    Primitives.standard_refusesPadded, signature, hsign,
    verifyRsa_padded rfl rfl Primitives.standard_refusesPadded (.inl hpadded), _, rfl,
    verifyRsa_padded rfl rfl Primitives.standard_refusesPadded (.inl hpadded)⟩

end SigningAlgorithm

end SealedToken
