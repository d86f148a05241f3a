import SealedToken.Proofs.ContentEncryption
import SealedToken.Proofs.Jwe.Failure
import SealedToken.Proofs.Jwe.Release

/-!
When a decryption with a single key succeeds: the key leads to the key of the content
through some recipient, and whatever it leads to through those before opens nothing else.
-/

namespace SealedToken.Jwe

variable {p : Primitives} {supply : Recipient → Jwk → Entropy} {t : Jwe} {key : Jwk}
  {content : EncryptedContent} {r : Recipient} {a : ContentEncryptionAlgorithm}
  {contentKey plaintext : ByteArray} {keys : KeySource}

/-- The content of a token is a plaintext, under a key. -/
structure Contains (p : Primitives) (t : Jwe) (content : EncryptedContent)
    (a : ContentEncryptionAlgorithm) (contentKey plaintext : ByteArray) : Prop where
  opens : ∃ text compressed, compresses t.protectedHeader = .ok compressed ∧
    a.decrypt p contentKey (contentAad t.protectedText t.aad) content = .ok text ∧
    expand t.options compressed text = .ok plaintext

/-- What was sealed is decrypted under the same key. -/
theorem decrypt_of_sealContent {rng : Entropy} {after : Jwe} (hinverts : a.Inverts p)
    (hplaintext : t.plaintext = some plaintext)
    (h : t.sealContent p rng a contentKey = .ok after) :
    ∃ content compressed, after.content = some content ∧
      compresses after.protectedHeader = .ok compressed ∧
      a.decrypt p contentKey (contentAad after.protectedText after.aad) content =
        .ok (if compressed then Deflate.deflate plaintext else plaintext) := by
  obtain ⟨plaintext', compressed, content, hheld, hcompressed, hencrypted, rfl⟩ :=
    sealContent_eq_ok.1 h
  obtain rfl := Option.some.inj (hheld.symm.trans hplaintext)
  exact ⟨content, compressed, rfl, hcompressed,
    ContentEncryptionAlgorithm.decrypt_encrypt hinverts hencrypted⟩

/-- It is the content, as far as it can be expanded again. -/
theorem contains_of_sealContent {rng : Entropy} {after : Jwe} (hinverts : a.Inverts p)
    (hplaintext : t.plaintext = some plaintext)
    (hexpands : compresses after.protectedHeader = .ok true →
      Deflate.inflate (Deflate.deflate plaintext) after.options.maxSize = .ok plaintext)
    (h : t.sealContent p rng a contentKey = .ok after) :
    ∃ content, after.content = some content ∧ Contains p after content a contentKey plaintext := by
  obtain ⟨content, compressed, hcontent, hcompressed, hdecrypt⟩ :=
    decrypt_of_sealContent hinverts hplaintext h
  refine ⟨content, hcontent, _, compressed, hcompressed, hdecrypt, ?_⟩
  cases compressed with
  | true =>
      rw [if_pos rfl, expand, if_pos rfl]
      exact hexpands hcompressed
  | false => simp [expand]

/-! ### One recipient -/

/-- What is left to do for a recipient with a single key. -/
theorem prepare_single (checked : Checked t r) {compressed : Bool}
    (hcompressed : compresses t.protectedHeader = .ok compressed) :
    t.prepare (.single key) r = .ok {
      header := checked.header, management := checked.management,
      encryption := checked.encryption, compressed, keys := [key] } := by
  have halgorithms : algorithms t.options checked.header =
      .ok (checked.management, checked.encryption) :=
    algorithms_eq_ok.2 ⟨⟨_, checked.managementNamed, checked.managementRegistered⟩, _,
      checked.encryptionNamed, checked.encryptionRegistered⟩
  rw [prepare, checked.merged, ok_bind, halgorithms, ok_bind]
  dsimp only
  rw [hcompressed, ok_bind, checked.identified, ok_bind]
  rfl

/-- The only key is tried, and its failure is told. -/
theorem openFor_single {pending : Pending} (hpending : t.prepare (.single key) r = .ok pending)
    (hkeys : pending.keys = [key]) :
    (t.openFor p supply content (.single key) r).1 =
      (t.attempt p supply content r pending key >>= fun (text, contentKey) =>
        (expand t.options pending.compressed text).map fun plaintext =>
          { plaintext, algorithm := pending.encryption, contentKey }) := by
  rw [openFor, hpending]
  dsimp only
  rw [hkeys, tryEach, tryEach]
  cases t.attempt p supply content r pending key with
  | ok found => rfl
  | error error => rfl

/-- A recipient through which the key leads to the key of the content. -/
theorem openFor_of_unwrap (checked : Checked t r)
    (hcontains : Contains p t content checked.encryption contentKey plaintext)
    (hunwrap : checked.management.unwrap p (supply r key) key checked.encryption.keySize
      r.encryptedKey checked.header t.options.limits = .ok contentKey) :
    (t.openFor p supply content (.single key) r).1 =
      .ok ⟨plaintext, checked.encryption, contentKey⟩ := by
  obtain ⟨text, compressed, hcompressed, hdecrypt, hexpand⟩ := hcontains.opens
  rw [openFor_single (prepare_single checked hcompressed) rfl, attempt]
  dsimp only
  rw [hunwrap, ok_bind, hdecrypt, ok_bind, pure_eq_ok, ok_bind]
  dsimp only
  rw [hexpand]
  rfl

/-- An early error does not stop the walk. -/
theorem goesPast_of_early {error : Error} (hlate : error.isLate = false)
    (h : (t.openFor p supply content keys r).1 = .error error) :
    GoesPast p supply t content keys r := by
  refine ⟨error, h, fun limit heq => ?_⟩
  rw [heq] at hlate
  simp [Error.isLate] at hlate

/-- The walk ends at a recipient only with the plaintext, when the content opens under no
other key that is found there. -/
theorem goesPast_or_opens
    (hsame : ∀ (checked : Checked t r) contentKey text,
      checked.management.unwrap p (supply r key) key checked.encryption.keySize r.encryptedKey
        checked.header t.options.limits = .ok contentKey →
      checked.encryption.decrypt p contentKey (contentAad t.protectedText t.aad) content =
        .ok text →
      Contains p t content checked.encryption contentKey plaintext) :
    GoesPast p supply t content (.single key) r ∨
      ∃ opened, (t.openFor p supply content (.single key) r).1 = .ok opened ∧
        opened.plaintext = plaintext := by
  cases hprepare : t.prepare (.single key) r with
  | error error =>
      refine .inl (goesPast_of_early (early_prepare error hprepare) ?_)
      rw [openFor, hprepare]
  | ok pending =>
      obtain ⟨checked, hoffered, -, hheader, hmanagement, hencryption⟩ :=
        checked_of_prepare hprepare
      have hkeys : pending.keys = [key] := (Except.ok.inj hoffered).symm
      cases hattempt : t.attempt p supply content r pending key with
      | error error =>
          refine .inl (goesPast_of_early (early_attempt error hattempt) ?_)
          rw [openFor_single hprepare hkeys, hattempt, error_bind]
      | ok found =>
          have hfound := hattempt
          simp only [attempt, bind_eq_ok, pure_eq_ok, Except.ok.injEq, hmanagement, hencryption,
            hheader] at hfound
          obtain ⟨contentKey, hunwrap, text, hdecrypt, -⟩ := hfound
          have hcontains := hsame checked contentKey text hunwrap hdecrypt
          exact .inr ⟨_, openFor_of_unwrap checked hcontains hunwrap, rfl⟩

/-! ### All recipients -/

theorem openFirst_of_opens {before rest : List Recipient} {failure : Option Error}
    {log : List FailedAttempt}
    (hopens : ∃ opened, (t.openFor p supply content keys r).1 = .ok opened ∧
      opened.plaintext = plaintext)
    (hbefore : ∀ q ∈ before, GoesPast p supply t content keys q ∨
      ∃ opened, (t.openFor p supply content keys q).1 = .ok opened ∧
        opened.plaintext = plaintext) :
    ∃ opened, (t.openFirst p supply content keys failure log (before ++ r :: rest)).1 =
      .ok opened ∧ opened.plaintext = plaintext := by
  -- the first recipient that is not gone past
  have hfirst : ∃ passed q others, before ++ r :: rest = passed ++ q :: others ∧
      (∀ q ∈ passed, GoesPast p supply t content keys q) ∧
      ∃ opened, (t.openFor p supply content keys q).1 = .ok opened ∧
        opened.plaintext = plaintext := by
    induction before with
    | nil => exact ⟨[], r, rest, rfl, by simp, hopens⟩
    | cons q before ih =>
        rcases hbefore q (by simp) with hpast | hopens'
        · obtain ⟨passed, q', others, heq, hpassed, hfound⟩ :=
            ih fun q' hq' => hbefore q' (by simp [hq'])
          exact ⟨q :: passed, q', others, by rw [List.cons_append, heq, List.cons_append],
            by simpa [hpast] using hpassed, hfound⟩
        · exact ⟨[], q, before ++ r :: rest, rfl, by simp, hopens'⟩
  obtain ⟨passed, q, others, heq, hpassed, opened, hopened, hplaintext⟩ := hfirst
  exact ⟨opened, openFirst_eq_ok.2 ⟨passed, q, others, heq, hopened, hpassed⟩, hplaintext⟩

/-- A decryption succeeds with what is found through one of the recipients, when those
before it give the same or nothing. -/
theorem decrypt_of_opens {before rest : List Recipient} (hcontent : t.content = some content)
    (hrecipients : t.recipients = before ++ r :: rest)
    (hopens : ∃ opened, (t.openFor p supply content keys r).1 = .ok opened ∧
      opened.plaintext = plaintext)
    (hbefore : ∀ q ∈ before, GoesPast p supply t content keys q ∨
      ∃ opened, (t.openFor p supply content keys q).1 = .ok opened ∧
        opened.plaintext = plaintext) :
    ∃ after, t.decrypt p supply keys = (.ok (), after) ∧ after.plaintext = some plaintext := by
  have hfirst : ∃ opened, (t.openFirst p supply content keys none [] t.recipients).1 =
      .ok opened ∧ opened.plaintext = plaintext := by
    rw [hrecipients]
    exact openFirst_of_opens hopens hbefore
  obtain ⟨opened, hopened, rfl⟩ := hfirst
  obtain ⟨log, hfirst⟩ := exists_eq_of_fst hopened
  exact ⟨_, decrypt_eq_ok.2 ⟨content, opened, log, hcontent, hfirst, rfl⟩, rfl⟩

end SealedToken.Jwe
