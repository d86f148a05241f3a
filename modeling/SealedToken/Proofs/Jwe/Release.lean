import SealedToken.Primitives.Standard
import SealedToken.Proofs.Jwe.Opening
import SealedToken.Proofs.Jwe.Sealing
import SealedToken.Proofs.Run

/-!
When the plaintext of a token that was read is released. Whatever is called on the
token, and in which order: a plaintext that can be had was opened by the last
decryption, and by it alone.
-/

namespace SealedToken.Jwe

variable {p : Primitives} {supply : Recipient → Jwk → Entropy} {t : Jwe} {keys : KeySource}
  {plaintext : ByteArray}

/-! ### One decryption -/

/-- What was decrypted before has no part in what is opened. -/
theorem openFirst_fresh {content : EncryptedContent} {failure : Option Error}
    {log : List FailedAttempt} {rs : List Recipient} :
    ({ t with plaintext := none, log := [] } : Jwe).openFirst p supply content keys failure log rs =
      t.openFirst p supply content keys failure log rs := by
  induction rs generalizing failure log with
  | nil => rfl
  | cons r rest ih =>
      simp only [openFirst, ih]
      rfl

/-- A decryption succeeds by what the first recipient opens that opens anything. -/
theorem decrypt_eq_ok {after : Jwe} :
    t.decrypt p supply keys = (.ok (), after) ↔
      ∃ content opened log, t.content = some content ∧
        t.openFirst p supply content keys none [] t.recipients = (.ok opened, log) ∧
        after = { t with
          plaintext := some opened.plaintext
          algorithm := some opened.algorithm
          contentKey := some opened.contentKey
          log } := by
  unfold decrypt
  dsimp only
  split
  · next hnone => simp [hnone]
  · next content hsome =>
      rw [openFirst_fresh]
      split
      · next error log hopen => simp [hsome, hopen]
      · next opened log hopen => simp [hsome, hopen, eq_comm]

/-- A decryption fails with what the walk through the recipients tells. -/
theorem decrypt_of_openFirst_error {content : EncryptedContent} {error : Error}
    {log : List FailedAttempt} (hcontent : t.content = some content)
    (hopen : t.openFirst p supply content keys none [] t.recipients = (.error error, log)) :
    t.decrypt p supply keys = (.error error, { t with plaintext := none, log }) := by
  unfold decrypt
  dsimp only
  split
  · next hnone => simp [hnone] at hcontent
  · next held hheld =>
      obtain rfl := Option.some.inj (hcontent.symm.trans hheld)
      rw [openFirst_fresh, hopen]

/-- A decryption that fails leaves no plaintext. -/
theorem decrypt_plaintext_of_error {error : Error} {after : Jwe}
    (h : t.decrypt p supply keys = (.error error, after)) : after.plaintext = none := by
  unfold decrypt at h
  dsimp only at h
  split at h
  · obtain ⟨-, rfl⟩ := Prod.mk.inj h
    rfl
  · split at h
    · obtain ⟨-, rfl⟩ := Prod.mk.inj h
      rfl
    · simp at h

/-- What a decryption has found that releases a plaintext. -/
structure Releases (p : Primitives) (supply : Recipient → Jwk → Entropy) (t : Jwe)
    (keys : KeySource) (plaintext : ByteArray) : Prop where
  succeeded : (t.decrypt p supply keys).1 = .ok ()
  /-- A recipient of the token that opens its content. -/
  opened : ∃ content, t.content = some content ∧ ∃ r ∈ t.recipients, ∃ opened : Opened,
    opened.plaintext = plaintext ∧ Opens p supply t content keys r opened

/-- A decryption that leaves a plaintext to be had has opened it. -/
theorem releases_of_decrypt (h : (t.decrypt p supply keys).2.plaintext = some plaintext) :
    Releases p supply t keys plaintext := by
  cases hdecrypt : t.decrypt p supply keys with
  | mk outcome after =>
      cases outcome with
      | error error =>
          rw [hdecrypt, decrypt_plaintext_of_error hdecrypt] at h
          simp at h
      | ok _ =>
          obtain ⟨content, opened, log, hcontent, hopen, rfl⟩ := decrypt_eq_ok.1 hdecrypt
          obtain ⟨r, hr, hopens⟩ := opens_of_openFirst (by rw [hopen])
          rw [hdecrypt, Option.some.injEq] at h
          exact ⟨by rw [hdecrypt], content, hcontent, r, hr, opened, h, hopens⟩

/-- The token without all that a decryption tells. -/
def undecrypted (t : Jwe) : Jwe :=
  { t with plaintext := none, algorithm := none, contentKey := none, log := [] }

/-- A decryption only adds what it tells. -/
theorem decrypt_undecrypted {outcome : Except Error Unit} {after : Jwe}
    (h : t.decrypt p supply keys = (outcome, after)) : after.undecrypted = t.undecrypted := by
  obtain rfl : (t.decrypt p supply keys).2 = after := by rw [h]
  unfold decrypt
  dsimp only
  split
  · rfl
  · split <;> rfl

/-! ### Runs -/

/-- A call on an encrypted token. -/
inductive Call
  | setOptions (options : JweOptions)
  | setAad (aad : ByteArray)
  | addRecipient (rng : Entropy) (key : Jwk) (header : Option Object)
  | decrypt (supply : Recipient → Jwk → Entropy) (keys : KeySource)
  | serialize (rng : Entropy) (compact : Bool)
  | headerAt (index : Nat)

/-- Is the call a decryption? -/
def Call.decrypts : Call → Bool
  | .decrypt .. => true
  | _ => false

/-- The token after a call, which may have failed. -/
def Call.after (p : Primitives) (t : Jwe) : Call → Jwe
  | .setOptions options => { t with options }
  | .setAad aad =>
      match t.setAad aad with
      | .ok t => t
      | .error _ => t
  | .addRecipient rng key header =>
      match t.addRecipient p rng key header with
      | .ok t => t
      | .error _ => t
  | .decrypt supply keys => (t.decrypt p supply keys).2
  | .serialize rng compact => (t.serialize p rng compact).2
  | .headerAt _ => t

/-- The token after a sequence of calls. -/
def run (p : Primitives) (t : Jwe) (calls : List Call) : Jwe := calls.foldl (Call.after p) t

theorem setAad_plaintext {aad : ByteArray} {after : Jwe} (h : t.setAad aad = .ok after) :
    after.plaintext = t.plaintext := by
  unfold setAad at h
  split at h
  · simp at h
  · obtain rfl := Except.ok.inj h
    rfl

/-- Only a decryption changes which plaintext can be had. -/
theorem after_plaintext {c : Call} (hc : c.decrypts = false) :
    (c.after p t).plaintext = t.plaintext := by
  cases c with
  | setOptions options => rfl
  | setAad aad =>
      rw [Call.after]
      split
      · next hset => exact setAad_plaintext hset
      · rfl
  | addRecipient rng key header =>
      rw [Call.after]
      split
      · next hadd => exact addRecipient_plaintext hadd
      · rfl
  | decrypt supply keys => simp [Call.decrypts] at hc
  | serialize rng compact => exact serialize_plaintext
  | headerAt index => rfl

/-- A token that was read of its written parts: nothing of it has been decrypted. -/
structure ReadOf (w : WrittenContent) (recipients : List WrittenRecipient) (t : Jwe) : Prop where
  nonempty : recipients ≠ []
  protectedHeader : Header.decode w.protectedText = .ok t.protectedHeader
  aad : w.aad.mapM Header.decodeBytes = .ok t.aad
  content : ∃ content, t.content = some content ∧ Header.decodeBytes w.iv = .ok content.iv ∧
    Header.decodeBytes w.ciphertext = .ok content.ciphertext ∧
    Header.decodeBytes w.tag = .ok content.tag
  recipients : recipients.mapM readRecipient = .ok t.recipients
  rest : t = {
    plaintext := none
    protectedHeader := t.protectedHeader
    protectedText := w.protectedText
    sharedHeader := Header.nonempty w.sharedHeader
    aad := t.aad
    recipients := t.recipients
    content := t.content }

theorem readOf_of_ofWritten {w : WrittenContent} {recipients : List WrittenRecipient}
    (h : ofWritten w recipients = .ok t) : ReadOf w recipients t := by
  unfold ofWritten at h
  obtain ⟨hsome, h⟩ := ite_error_eq_ok.1 h
  simp only [bind_eq_ok, pure_eq_ok, Except.ok.injEq] at h
  obtain ⟨header, hheader, aad, haad, iv, hiv, ciphertext, hciphertext, tag, htag, rs, hrs, rfl⟩ := h
  exact ⟨by simpa using hsome, hheader, haad, ⟨_, rfl, hiv, hciphertext, htag⟩, hrs, rfl⟩

theorem deserialize_eq_ok {raw : String} :
    deserialize raw = .ok t ↔
      ∃ w recipients,
        (if Json.startsObject (Text.trim raw) then readJson (Text.trim raw)
          else readCompact (Text.trim raw)) = .ok (w, recipients) ∧
        ofWritten w recipients = .ok t := by
  unfold deserialize
  dsimp only
  rw [ite_bind_eq_ok]
  simp only [Prod.exists]

theorem readOf_of_deserialize {raw : String} (h : deserialize raw = .ok t) :
    ∃ w recipients, ReadOf w recipients t := by
  obtain ⟨w, recipients, -, h⟩ := deserialize_eq_ok.1 h
  exact ⟨w, recipients, readOf_of_ofWritten h⟩

theorem deserialize_plaintext {raw : String} (h : deserialize raw = .ok t) :
    t.plaintext = none := by
  obtain ⟨w, recipients, hread⟩ := readOf_of_deserialize h
  rw [hread.rest]

/-- The last decryption among the calls is the one that has opened a plaintext. -/
def OpenedLast (p : Primitives) (t : Jwe) (calls : List Call) (plaintext : ByteArray) : Prop :=
  ∃ before supply keys after, calls = before ++ .decrypt supply keys :: after ∧
    (∀ c ∈ after, c.decrypts = false) ∧ Releases p supply (t.run p before) keys plaintext

/-- Let a token be read and any calls be made on it. If a plaintext can be had then,
the last decryption among the calls has succeeded and has opened that very plaintext,
from the content of that time and under its options, through a recipient of which
both algorithms were permitted. -/
theorem plaintext_opened_by_last_decryption {raw : String} (hread : deserialize raw = .ok t)
    {calls : List Call} (h : (t.run p calls).plaintext = some plaintext) :
    OpenedLast p t calls plaintext := by
  -- the plaintext is traced back from the end to the call that opened it
  have hstep (t : Jwe) (c : Call) (hc : (c.after p t).plaintext = some plaintext) :
      (∃ supply keys, c = .decrypt supply keys ∧ Releases p supply t keys plaintext) ∨
      t.plaintext = some plaintext ∧ c.decrypts = false := by
    cases c with
    | decrypt supply keys => exact .inl ⟨_, _, rfl, releases_of_decrypt hc⟩
    | _ => exact .inr ⟨by rwa [after_plaintext rfl] at hc, rfl⟩
  have hs : t.plaintext ≠ some plaintext := by simp [deserialize_plaintext hread]
  obtain ⟨before, c, after, rfl, ⟨supply, keys, rfl, hreleases⟩, hafter⟩ :=
    Run.exists_origin (P := fun t : Jwe => t.plaintext = some plaintext) hstep hs h
  exact ⟨before, supply, keys, after, rfl, hafter, hreleases⟩

/-! ### A token under a shared key -/

/-- A token that is encrypted under a key of sixteen zeros. -/
def directText : String :=
  "eyJhbGciOiJkaXIiLCJlbmMiOiJBMTI4R0NNIn0..AAAAAAAAAAAAAAAA.a-E.zmWOBxRJfXA6YVOoRWHwuw"

def directTag : ByteArray :=
  ⟨#[206, 101, 142, 7, 20, 73, 125, 112, 58, 97, 83, 168, 69, 97, 240, 187]⟩

def direct : Jwe where
  plaintext := none
  protectedHeader := some (.ofMembers [("alg", .str KeyManagementAlgorithm.direct.name),
    ("enc", .str (ContentEncryptionAlgorithm.gcm .aes128).name)])
  protectedText := "eyJhbGciOiJkaXIiLCJlbmMiOiJBMTI4R0NNIn0"
  sharedHeader := none
  recipients := [{ header := none, encryptedKey := .empty }]
  content := some ⟨⟨Array.replicate 12 0⟩, ⟨#[107, 225]⟩, directTag⟩

def directKey : Jwk := { material := .oct ⟨Array.replicate 16 0⟩ }

/-- The standard operations as far as the token needs them: its tag is the only one
that is accepted, and for its key only. -/
def directPrimitives : Primitives := { Primitives.standard with
  gcmOpen? := fun key _ _ _ tag =>
    if key = ⟨Array.replicate 16 0⟩ ∧ tag = directTag then some "hi".toUTF8 else none }

/-- A decryption that is not allowed, one that is, and calls that change nothing. -/
def directCalls : List Call :=
  [.setOptions { allowed := some [] },
    .decrypt (fun _ _ => .ofSeed .empty) (.single directKey),
    .setOptions { allowed := some [KeyManagementAlgorithm.direct.name,
      (ContentEncryptionAlgorithm.gcm .aes128).name] },
    .decrypt (fun _ _ => .ofSeed .empty) (.single directKey), .setAad .empty,
    .serialize (.ofSeed .empty) true, .headerAt 1]

theorem deserialize_directText : deserialize directText = .ok direct :=
  toOption_eq_some.1 (by decide +kernel)

theorem direct_plaintext_opened :
    (direct.run directPrimitives directCalls).plaintext = some "hi".toUTF8 ∧
      OpenedLast directPrimitives direct directCalls "hi".toUTF8 :=
  have h : (direct.run directPrimitives directCalls).plaintext = some "hi".toUTF8 := by
    decide +kernel
  ⟨h, plaintext_opened_by_last_decryption deserialize_directText h⟩

end SealedToken.Jwe
