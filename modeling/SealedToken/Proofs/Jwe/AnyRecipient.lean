import SealedToken.Proofs.Jwe.Invariant
import SealedToken.Proofs.Jwe.Unlocking
import SealedToken.Proofs.Jws.AnyValid

/-!
One recipient and one key are enough. Without a compression there is no error that ends the
walk through the recipients, so a decryption asks whether there are a recipient and a key
offered for it by which the content is opened. What it leaves is what the first such key of
the first such recipient gives.
-/

namespace SealedToken

namespace Jwe

variable {p : Primitives} {supply : Recipient → Jwk → Entropy} {t : Jwe}
  {content : EncryptedContent} {keys more other : KeySource} {r : Recipient} {key : Jwk}
  {contentKey text : ByteArray} {opened : Opened}

/-! ### One key -/

/-- A key opens the content through a recipient whose header passes every check: it leads to a
key of the content, and under that one the content is decrypted. -/
structure Checked.OpensWith (checked : Checked t r) (p : Primitives)
    (supply : Recipient → Jwk → Entropy) (content : EncryptedContent) (key : Jwk)
    (contentKey text : ByteArray) : Prop where
  unwraps : checked.management.unwrap p (supply r key) key checked.encryption.keySize r.encryptedKey
    checked.header t.options.limits = .ok contentKey
  decrypts : checked.encryption.decrypt p contentKey (contentAad t.protectedText t.aad) content =
    .ok text

/-- A key that opens the content. -/
def Checked.Suits (checked : Checked t r) (p : Primitives)
    (supply : Recipient → Jwk → Entropy) (content : EncryptedContent) (key : Jwk) : Prop :=
  ∃ contentKey text, checked.OpensWith p supply content key contentKey text

/-- What is left to do for a recipient that has been checked. -/
def Checked.pending (checked : Checked t r) (offered : List Jwk) : Pending where
  header := checked.header
  management := checked.management
  encryption := checked.encryption
  compressed := false
  keys := offered

section Attempts

variable (checked : Checked t r) {offered : List Jwk}

theorem attempt_eq_ok :
    t.attempt p supply content r (checked.pending offered) key = .ok (text, contentKey) ↔
      checked.OpensWith p supply content key contentKey text := by
  simp only [attempt, bind_eq_ok, pure_eq_ok, Except.ok.injEq, Prod.mk.injEq]
  constructor
  · rintro ⟨_, hunwrap, _, hdecrypt, rfl, rfl⟩
    exact ⟨hunwrap, hdecrypt⟩
  · rintro ⟨hunwrap, hdecrypt⟩
    exact ⟨contentKey, hunwrap, text, hdecrypt, rfl, rfl⟩

theorem isOk_attempt :
    (t.attempt p supply content r (checked.pending offered) key).isOk = true ↔
      checked.Suits p supply content key := by
  rw [isOk_iff, Prod.exists, exists_comm]
  simp only [attempt_eq_ok, Checked.Suits]

end Attempts

/-! ### One recipient -/

/-- The content is opened through a recipient: its header passes every check, and one of the
keys on offer for it suits. -/
def Openable (p : Primitives) (supply : Recipient → Jwk → Entropy) (t : Jwe)
    (content : EncryptedContent) (keys : KeySource) (r : Recipient) : Prop :=
  ∃ checked : Checked t r, ∃ key ∈ keys.offered checked.kid, checked.Suits p supply content key

theorem Openable.extends (h : Openable p supply t content keys r) (hmore : more.Extends keys) :
    Openable p supply t content more r := by
  obtain ⟨checked, key, hkey, hsuits⟩ := h
  exact ⟨checked, key, hmore.mem_offered hkey, hsuits⟩

section Plain

/-- Nothing is compressed. -/
theorem compresses_eq_false {compressed : Bool} (hplain : ¬ Compressed t)
    (h : compresses t.protectedHeader = .ok compressed) : compressed = false := by
  rw [← Bool.not_eq_true]
  exact mt (compressed_of_compresses h).1 hplain

variable (hplain : ¬ Compressed t)
include hplain

theorem prepare_eq_ok {pending : Pending} :
    t.prepare keys r = .ok pending ↔
      ∃ checked : Checked t r, keys.offered checked.kid ≠ [] ∧
        pending = checked.pending (keys.offered checked.kid) := by
  constructor
  · intro h
    obtain ⟨checked, hoffered, hcompressed, hheader, hmanagement, hencryption⟩ :=
      checked_of_prepare h
    obtain ⟨hkeys, hne⟩ := KeySource.candidates_eq_ok.1 hoffered
    have hcompressed := compresses_eq_false hplain hcompressed
    refine ⟨checked, hkeys ▸ hne, ?_⟩
    cases pending
    simp_all [Checked.pending]
  · rintro ⟨checked, hne, rfl⟩
    have halgorithms : algorithms t.options checked.header =
        .ok (checked.management, checked.encryption) :=
      algorithms_eq_ok.2 ⟨⟨_, checked.managementNamed, checked.managementRegistered⟩, _,
        checked.encryptionNamed, checked.encryptionRegistered⟩
    obtain ⟨compressed, hcompressed⟩ := checked.compressible
    obtain rfl := compresses_eq_false hplain hcompressed
    rw [prepare, checked.merged, ok_bind, halgorithms, ok_bind]
    dsimp only
    rw [hcompressed, ok_bind, checked.identified, ok_bind,
      KeySource.candidates_eq_ok.2 ⟨rfl, hne⟩]
    rfl

omit hplain in
/-- A recipient gives what the attempts with the keys have given. -/
theorem openFor_of_prepare (checked : Checked t r) {offered : List Jwk}
    (hprepare : t.prepare keys r = .ok (checked.pending offered)) :
    (t.openFor p supply content keys r).1 = .ok opened ↔
      (tryEach (t.attempt p supply content r (checked.pending offered)) offered).2 =
          some (opened.plaintext, opened.contentKey) ∧
        opened.algorithm = checked.encryption := by
  have hkeys : (checked.pending offered).keys = offered := rfl
  rw [openFor, hprepare]
  dsimp only
  rw [hkeys]
  cases (tryEach (t.attempt p supply content r (checked.pending offered)) offered).2 with
  | none => simp
  | some found =>
      obtain ⟨text, contentKey⟩ := found
      obtain ⟨plaintext, algorithm, contentKey'⟩ := opened
      have hexpand : expand t.options (checked.pending offered).compressed text = .ok text := rfl
      simp only [hexpand, map_eq_ok, Except.ok.injEq, Option.some.injEq, Opened.mk.injEq,
        Prod.mk.injEq]
      constructor
      · rintro ⟨_, rfl, rfl, rfl, rfl⟩
        exact ⟨⟨rfl, rfl⟩, rfl⟩
      · rintro ⟨⟨rfl, rfl⟩, rfl⟩
        exact ⟨text, rfl, rfl, rfl, rfl⟩

/-- A recipient gives what the first key opens that opens anything. -/
theorem openFor_eq_ok :
    (t.openFor p supply content keys r).1 = .ok opened ↔
      ∃ (checked : Checked t r) (key : Jwk),
        FirstWith (checked.Suits p supply content) (keys.offered checked.kid) key ∧
        checked.OpensWith p supply content key opened.contentKey opened.plaintext ∧
        opened.algorithm = checked.encryption := by
  constructor
  · intro h
    cases hprepare : t.prepare keys r with
    | error error => simp [openFor, hprepare] at h
    | ok pending =>
        obtain ⟨checked, -, rfl⟩ := (prepare_eq_ok hplain).1 hprepare
        obtain ⟨hsuccess, halgorithm⟩ := (openFor_of_prepare checked hprepare).1 h
        obtain ⟨key, hfirst, hattempt⟩ := tryEach_eq_some.1 hsuccess
        simp only [isOk_attempt] at hfirst
        exact ⟨checked, key, hfirst, (attempt_eq_ok checked).1 hattempt, halgorithm⟩
  · rintro ⟨checked, key, hfirst, hopens, halgorithm⟩
    have hprepare : t.prepare keys r = .ok (checked.pending (keys.offered checked.kid)) :=
      (prepare_eq_ok hplain).2 ⟨checked, List.ne_nil_of_mem hfirst.mem, rfl⟩
    refine (openFor_of_prepare checked hprepare).2 ⟨tryEach_eq_some.2 ⟨key, ?_, ?_⟩, halgorithm⟩
    · simp only [isOk_attempt]
      exact hfirst
    · exact (attempt_eq_ok checked).2 hopens

theorem isOk_openFor :
    (t.openFor p supply content keys r).1.isOk = true ↔ Openable p supply t content keys r := by
  constructor
  · intro h
    obtain ⟨opened, hopened⟩ := isOk_iff.1 h
    obtain ⟨checked, key, hfirst, -, -⟩ := (openFor_eq_ok hplain).1 hopened
    exact ⟨checked, key, hfirst.mem, hfirst.holds⟩
  · rintro ⟨checked, hkeys⟩
    obtain ⟨key, hfirst⟩ := exists_firstWith.2 hkeys
    obtain ⟨contentKey, text, hopens⟩ := hfirst.holds
    exact isOk_iff.2 ⟨⟨text, checked.encryption, contentKey⟩,
      (openFor_eq_ok hplain).2 ⟨checked, key, hfirst, hopens, rfl⟩⟩

/-- There is no error then that ends the walk. -/
theorem early_openFor : Early (t.openFor p supply content keys r).1 := by
  unfold openFor
  split
  · next error herror => exact Avoids.error_iff.2 (early_prepare error herror)
  · next pending hpending =>
      obtain ⟨checked, -, rfl⟩ := (prepare_eq_ok hplain).1 hpending
      dsimp only [Checked.pending]
      split
      · simp [expand]
      · exact Avoids.error_iff.2 (Avoids.failures (fun key => early_attempt) rfl)

/-- The walk goes past all recipients through which the content is not opened. -/
theorem goesPast_iff :
    GoesPast p supply t content keys r ↔ ¬ Openable p supply t content keys r := by
  rw [← isOk_openFor hplain]
  constructor
  · rintro ⟨error, herror, -⟩
    simp [herror]
  · intro hfailed
    cases hopen : (t.openFor p supply content keys r).1 with
    | ok opened => simp [hopen] at hfailed
    | error error => exact goesPast_of_early (early_openFor hplain error hopen) hopen

/-! ### All recipients -/

/-- A decryption gives what is opened through the first recipient through which anything is. -/
theorem openFirst_eq_ok_iff {rs : List Recipient} :
    (t.openFirst p supply content keys none [] rs).1 = .ok opened ↔
      ∃ r, FirstWith (Openable p supply t content keys) rs r ∧
        (t.openFor p supply content keys r).1 = .ok opened := by
  rw [openFirst_eq_ok]
  simp only [goesPast_iff hplain]
  constructor
  · rintro ⟨before, r, rest, rfl, hopened, hbefore⟩
    have hopenable := (isOk_openFor hplain).1 (isOk_iff.2 ⟨opened, hopened⟩)
    exact ⟨r, ⟨before, rest, rfl, hopenable, hbefore⟩, hopened⟩
  · rintro ⟨r, ⟨before, rest, rfl, -, hbefore⟩, hopened⟩
    exact ⟨before, r, rest, rfl, hopened, hbefore⟩

/-- A decryption succeeds when the content is opened through some recipient. -/
theorem isOk_decrypt (hcontent : t.content = some content) :
    (t.decrypt p supply keys).1 = .ok () ↔
      ∃ r ∈ t.recipients, Openable p supply t content keys r := by
  constructor
  · intro h
    obtain ⟨after, hdecrypt⟩ := exists_eq_of_fst h
    obtain ⟨found, opened, log, hfound, hopen, -⟩ := decrypt_eq_ok.1 hdecrypt
    obtain rfl := Option.some.inj (hcontent.symm.trans hfound)
    obtain ⟨r, hfirst, -⟩ := (openFirst_eq_ok_iff hplain).1 (congrArg Prod.fst hopen)
    exact ⟨r, hfirst.mem, hfirst.holds⟩
  · intro h
    obtain ⟨r, hfirst⟩ := exists_firstWith.2 h
    obtain ⟨opened, hopened⟩ := isOk_iff.1 ((isOk_openFor hplain).2 hfirst.holds)
    obtain ⟨log, hopen⟩ :=
      exists_eq_of_fst ((openFirst_eq_ok_iff hplain).2 ⟨r, hfirst, hopened⟩)
    exact congrArg Prod.fst (decrypt_eq_ok.2 ⟨content, opened, log, hcontent, hopen, rfl⟩)

end Plain

/-- What a token is after a decryption that succeeds. -/
structure OpenedBy (p : Primitives) (supply : Recipient → Jwk → Entropy)
    (content : EncryptedContent) (keys : KeySource) (checked : Checked t r) (key : Jwk)
    (after : Jwe) : Prop where
  /-- Of all recipients through which the content is opened the first one counts. -/
  ofRecipients : FirstWith (Openable p supply t content keys) t.recipients r
  /-- Of its keys the first one counts that suits. -/
  ofKeys : FirstWith (checked.Suits p supply content) (keys.offered checked.kid) key
  /-- The plaintext, the key of the content and its algorithm are what they lead to. -/
  after_eq : ∃ contentKey text log, checked.OpensWith p supply content key contentKey text ∧
    after = { t with
      plaintext := some text
      algorithm := some checked.encryption
      contentKey := some contentKey
      log }

/-- How a content that is not compressed is decrypted. -/
structure OpensAny (p : Primitives) (supply : Recipient → Jwk → Entropy) (t : Jwe)
    (content : EncryptedContent) (keys : KeySource) : Prop where
  /-- One recipient with one key is enough. -/
  succeeds : (t.decrypt p supply keys).1 = .ok () ↔
    ∃ r ∈ t.recipients, Openable p supply t content keys r
  /-- What is held after a success comes from the first of them. -/
  opened : ∀ after, t.decrypt p supply keys = (.ok (), after) →
    ∃ (r : Recipient) (checked : Checked t r) (key : Jwk),
      OpenedBy p supply content keys checked key after
  /-- A failure drops the plaintext and keeps all else. -/
  failed : ∀ error after, t.decrypt p supply keys = (.error error, after) →
    ∃ log, after = { t with plaintext := none, log }
  /-- The order of the recipients and of the keys makes no difference to the success. -/
  reordered : ∀ recipients other, t.recipients.Perm recipients → keys.Permutes other →
    ((t.decrypt p supply keys).1 = .ok () ↔
      ({ t with recipients }.decrypt p supply other).1 = .ok ())
  /-- Other recipients and keys do not prevent it, wherever they stand. -/
  joined : ∀ recipients more, t.recipients ⊆ recipients → more.Extends keys →
    (t.decrypt p supply keys).1 = .ok () →
      ({ t with recipients }.decrypt p supply more).1 = .ok ()

/-- The other recipients have no part in it. -/
theorem openable_recipients (hplain : ¬ Compressed t) {recipients : List Recipient} :
    Openable p supply { t with recipients } content keys r ↔
      Openable p supply t content keys r := by
  rw [← isOk_openFor hplain, ← isOk_openFor (t := { t with recipients }) hplain]
  rfl

/-- Let a token have a content that is not compressed. It is decrypted exactly when there are a
recipient whose header passes every check and a key on offer for it that leads to the content,
and then by the first ones. Recipients and keys by which it is not opened do not count, and
neither does the order of any of them. A failure leaves the token without a plaintext, and
with the key of the content that it had. -/
theorem decrypts_through_any_recipient (hcontent : t.content = some content)
    (hplain : ¬ Compressed t) : OpensAny p supply t content keys := by
  refine ⟨isOk_decrypt hplain hcontent, ?_, fun error after => decrypt_eq_error, ?_, ?_⟩
  · intro after hdecrypt
    obtain ⟨found, opened, log, hfound, hopen, rfl⟩ := decrypt_eq_ok.1 hdecrypt
    obtain rfl := Option.some.inj (hcontent.symm.trans hfound)
    obtain ⟨r, hfirst, hopened⟩ := (openFirst_eq_ok_iff hplain).1 (congrArg Prod.fst hopen)
    obtain ⟨checked, key, hkey, hopens, halgorithm⟩ := (openFor_eq_ok hplain).1 hopened
    refine ⟨r, checked, key, hfirst, hkey, opened.contentKey, opened.plaintext, log, hopens, ?_⟩
    rw [halgorithm]
  · intro recipients other hperm hkeys
    rw [isOk_decrypt hplain hcontent, isOk_decrypt (t := { t with recipients }) hplain hcontent]
    simp only [openable_recipients hplain]
    constructor
    · rintro ⟨r, hr, hopenable⟩
      exact ⟨r, hperm.mem_iff.1 hr, hopenable.extends hkeys.symm.extends⟩
    · rintro ⟨r, hr, hopenable⟩
      exact ⟨r, hperm.mem_iff.2 hr, hopenable.extends hkeys.extends⟩
  · intro recipients more hsubset hmore hok
    rw [isOk_decrypt (t := { t with recipients }) hplain hcontent]
    simp only [openable_recipients hplain]
    obtain ⟨r, hr, hopenable⟩ := (isOk_decrypt hplain hcontent).1 hok
    exact ⟨r, hsubset hr, hopenable.extends hmore⟩

/-! ### A stranger in front -/

/-- A recipient whose header names an algorithm a second time, so that it cannot be merged. -/
def strangerRecipient : Recipient where
  header := some (.ofMembers [("alg", .str KeyManagementAlgorithm.direct.name)])
  encryptedKey := .empty

/-- A token under a shared key, with the stranger in front of its recipient. -/
def strangerInFront : Jwe :=
  { direct with
    recipients := strangerRecipient :: direct.recipients
    options := { allowed := some [KeyManagementAlgorithm.direct.name,
      (ContentEncryptionAlgorithm.gcm .aes128).name] } }

/-- It is decrypted, and also with the recipients in the other order and with another key in
front of the one that suits. -/
theorem stranger_recipient_passed :
    (strangerInFront.decrypt directPrimitives (fun _ _ => zeros) (.anyOf ⟨[directKey]⟩)).1 =
        .ok () ∧
      ({ strangerInFront with recipients := strangerInFront.recipients.reverse }.decrypt
        directPrimitives (fun _ _ => zeros) (.anyOf ⟨[directKey]⟩)).1 = .ok () ∧
      (strangerInFront.decrypt directPrimitives (fun _ _ => zeros)
        (.anyOf ⟨[.ofOctets "other".toUTF8, directKey]⟩)).1 = .ok () := by
  have hopened : (strangerInFront.decrypt directPrimitives (fun _ _ => zeros)
      (.anyOf ⟨[directKey]⟩)).1 = .ok () := by
    decide +kernel
  have hplain : ¬ Compressed strangerInFront := by
    rw [Compressed]
    decide +kernel
  have h : OpensAny directPrimitives (fun _ _ => zeros) strangerInFront _ (.anyOf ⟨[directKey]⟩) :=
    decrypts_through_any_recipient rfl hplain
  exact ⟨hopened, (h.reordered _ _ (List.reverse_perm _).symm (.refl _)).1 hopened,
    h.joined _ _ (List.Subset.refl _) (.keys (by simp)) hopened⟩

end Jwe

end SealedToken
