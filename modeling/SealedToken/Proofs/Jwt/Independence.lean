import SealedToken.Proofs.Jwt.Release

/-!
What one token of claims has to do with the next. Reading a token replaces the one that
is held and drops its claims; the header of the last token that was authentic stays. It
has a part in which kind of token is expected, and in nothing else.
-/

namespace SealedToken.Jwt

variable {p : Primitives} {supply : Recipient → Jwk → Entropy} {now : Int} {t other : Jwt}
  {raw : String} {keys : KeySource} {options : JwtOptions} {header : Object}

/-! ### What the reading of a token depends on -/

/-- Two objects that accept the same algorithms and check claims alike. -/
structure Alike (t other : Jwt) : Prop where
  allowed : t.options.allowed = other.options.allowed
  leeway : t.options.leeway = other.options.leeway
  checks : t.options.checks = other.options.checks

theorem Alike.readCarrier_eq (h : Alike t other) {text : String} :
    t.readCarrier text = other.readCarrier text := by
  rw [readCarrier, readCarrier, signedOptions, signedOptions, encryptedOptions, encryptedOptions,
    h.allowed]

theorem Alike.checkClaims_eq (h : Alike t other) (hclaims : t.claims = other.claims) :
    t.checkClaims now = other.checkClaims now := by
  rw [checkClaims, checkClaims, hclaims, h.leeway, h.checks]

/-- Validating the same token, they come to the same end when they expect the same kind. -/
theorem Alike.validate_eq (h : Alike t other) (htoken : t.token = other.token)
    (hkind : t.expectedKind keys = other.expectedKind keys) :
    (t.validate p supply now keys).1 = (other.validate p supply now keys).1 := by
  unfold validate
  rw [htoken, hkind]
  cases other.token with
  | none => rfl
  | some token =>
      dsimp only
      split
      · rfl
      · split
        · rfl
        · exact Alike.checkClaims_eq ⟨h.allowed, h.leeway, h.checks⟩ rfl

/-- So they do reading any token. -/
theorem Alike.deserialize_eq (h : Alike t other)
    (hkind : t.expectedKind keys = other.expectedKind keys) :
    (t.deserialize p supply now raw (some keys)).1 =
      (other.deserialize p supply now raw (some keys)).1 := by
  unfold deserialize
  rw [h.readCarrier_eq]
  split
  · rfl
  · exact Alike.validate_eq ⟨h.allowed, h.leeway, h.checks⟩ rfl hkind

/-! ### What the reading of a token leaves -/

/-- The reading of a token authenticates it, and gives this header with its claims. -/
def Authenticates (p : Primitives) (supply : Recipient → Jwk → Entropy) (t : Jwt) (raw : String)
    (keys : KeySource) (header : Object) : Prop :=
  ∃ token after payload claims, t.readCarrier (Text.trim raw) = .ok token ∧
    t.expectedKind keys = token.kind ∧
    authenticate p supply token keys = (.ok (header, some payload), after) ∧
    Claims.ofPayload payload = .ok claims

/-- The object that has read a token, before it validates it. -/
def holding (t : Jwt) (token : Carrier) : Jwt := { t with token := some token, claims := none }

theorem deserialize_eq_validate {token : Carrier}
    (hread : t.readCarrier (Text.trim raw) = .ok token) :
    t.deserialize p supply now raw (some keys) = (t.holding token).validate p supply now keys := by
  rw [deserialize, hread]
  rfl

theorem deserialize_eq_error {error : Error}
    (hread : t.readCarrier (Text.trim raw) = .error error) :
    t.deserialize p supply now raw (some keys) = (.error error, t) := by
  rw [deserialize, hread]

/-- No reading changes the options. -/
theorem options_of_deserialize :
    (t.deserialize p supply now raw (some keys)).2.options = t.options := by
  cases hread : t.readCarrier (Text.trim raw) with
  | error error => rw [deserialize_eq_error hread]
  | ok token =>
      rw [deserialize_eq_validate hread]
      cases hvalidate : (t.holding token).validate p supply now keys with
      | mk outcome after =>
          let v : Validation := ⟨t.holding token, supply, now, keys⟩
          cases Validation.validates_of_result (v := v) hvalidate with
          | refused _ _ _ _ configured => exact configured
          | checked => rfl

/-- An object without a header gets that of the token that it authenticates. -/
theorem header_of_deserialize (hnone : t.header = none) :
    (t.deserialize p supply now raw (some keys)).2.header = some header ↔
      Authenticates p supply t raw keys header := by
  cases hread : t.readCarrier (Text.trim raw) with
  | error error => simp [deserialize_eq_error hread, hnone, Authenticates, hread]
  | ok token =>
      rw [deserialize_eq_validate hread]
      constructor
      · intro h
        cases hvalidate : (t.holding token).validate p supply now keys with
        | mk outcome after =>
            rw [hvalidate] at h
            let v : Validation := ⟨t.holding token, supply, now, keys⟩
            cases Validation.validates_of_result (v := v) hvalidate with
            | refused _ _ _ unread =>
                have hheader : t.header = some header := unread.symm.trans h
                simp [hnone] at hheader
            | checked held expected authentic read checks =>
                obtain rfl := Option.some.inj held
                obtain rfl := Option.some.inj h
                exact ⟨token, _, _, _, hread, expected, authentic, read⟩
      · rintro ⟨token', after, payload, claims, hread', expected, authentic, read⟩
        obtain rfl := Except.ok.inj (hread.symm.trans hread')
        have held : (t.holding token).token = some token := rfl
        have expected : (t.holding token).expectedKind keys = token.kind := expected
        simp [validate, held, expected, authentic, claimsOf, read, Except.bind, Except.map]

/-! ### The kind of token that is expected -/

/-- The first token misleads about the kind of the second: neither an option nor a list of
algorithms tells that kind, the keys do not call for an encrypted token, and the header of
the first token, which was authentic, names an algorithm for the content. -/
structure Misleads (p : Primitives) (supply : Recipient → Jwk → Entropy) (options : JwtOptions)
    (raw : String) (keys later : KeySource) : Prop where
  unset : options.expected = none
  mixed : options.allowed.bind kindOfNames = none
  untold : kindOfKeys (later.offered none) ≠ some .encrypted
  header : ∃ header, Authenticates p supply { options } raw keys header ∧
    header.contains "enc" = true

/-- The object that has read a token. -/
def reading (p : Primitives) (supply : Recipient → Jwk → Entropy) (now : Int)
    (options : JwtOptions) (raw : String) (keys : KeySource) : Jwt :=
  (({ options } : Jwt).deserialize p supply now raw (some keys)).2

theorem options_reading : (reading p supply now options raw keys).options = options := by
  rw [reading, options_of_deserialize]

theorem kindOfHeader_eq_some {header : Option Object} {kind : TokenKind} :
    kindOfHeader header = some kind ↔
      kind = .encrypted ∧ ∃ h, header = some h ∧ h.contains "enc" = true := by
  unfold kindOfHeader
  rw [Option.ite_none_right_eq_some, Option.any_eq_true]
  simp only [Option.some.injEq, and_comm, eq_comm]

theorem kindOfHeader_reading {kind : TokenKind} :
    kindOfHeader (reading p supply now options raw keys).header = some kind ↔
      kind = .encrypted ∧ ∃ header, Authenticates p supply { options } raw keys header ∧
        header.contains "enc" = true := by
  simp only [kindOfHeader_eq_some, reading, header_of_deserialize]

theorem Misleads.expectedKind_eq {later : KeySource}
    (h : Misleads p supply options raw keys later) :
    (reading p supply now options raw keys).expectedKind later = .encrypted := by
  rw [expectedKind, options_reading, kindOfHeader_reading.2 ⟨rfl, h.header⟩, h.unset, h.mixed]
  rfl

theorem expectedKind_reading {later : KeySource} :
    (reading p supply now options raw keys).expectedKind later ≠
        ({ options } : Jwt).expectedKind later ↔
      Misleads p supply options raw keys later := by
  have hheader : kindOfHeader ({ options } : Jwt).header = none := rfl
  constructor
  · intro hne
    simp only [expectedKind, options_reading, hheader] at hne
    cases unset : options.expected with
    | some kind => simp [unset] at hne
    | none =>
        cases mixed : options.allowed.bind kindOfNames with
        | some kind => simp [unset, mixed] at hne
        | none =>
            cases hread : kindOfHeader (reading p supply now options raw keys).header with
            | none => simp [unset, mixed, hread] at hne
            | some kind =>
                obtain ⟨rfl, hauthentic⟩ := kindOfHeader_reading.1 hread
                refine ⟨unset, mixed, fun htold => ?_, hauthentic⟩
                simp [unset, mixed, hread, htold] at hne
  · intro h
    rw [h.expectedKind_eq, expectedKind, hheader, h.unset, h.mixed]
    have huntold := h.untold
    cases htold : kindOfKeys (later.offered none) with
    | none => simp
    | some kind =>
        rw [htold] at huntold
        simpa [eq_comm] using huntold

/-! ### One token after another -/

/-- What the reading of a first token does to that of a second one, which is then read
with other keys. -/
structure Influence (p : Primitives) (supply next : Recipient → Jwk → Entropy) (first now : Int)
    (options : JwtOptions) (raw second : String) (keys later : KeySource) : Prop where
  /-- The kind of token that is expected changes just when the first token misleads. -/
  kind : (reading p supply first options raw keys).expectedKind later ≠
      ({ options } : Jwt).expectedKind later ↔ Misleads p supply options raw keys later
  /-- Unless it does, the second token is read as if there had not been a first one. -/
  fresh : ¬ Misleads p supply options raw keys later →
    ((reading p supply first options raw keys).deserialize p next now second (some later)).1 =
      (({ options } : Jwt).deserialize p next now second (some later)).1
  /-- If it does, the second token is read as if an encrypted one had been called for. -/
  misled : Misleads p supply options raw keys later →
    ((reading p supply first options raw keys).deserialize p next now second (some later)).1 =
      (({ options := { options with expected := some .encrypted } } : Jwt).deserialize p next now
        second (some later)).1

theorem alike_reading {others : JwtOptions} (hallowed : options.allowed = others.allowed)
    (hleeway : options.leeway = others.leeway) (hchecks : options.checks = others.checks) :
    Alike (reading p supply now options raw keys) { options := others } :=
  ⟨by rw [options_reading, hallowed], by rw [options_reading, hleeway],
    by rw [options_reading, hchecks]⟩

/-- Let a token be read, whatever it is and with whatever keys, and then another one. The
first has no influence on how the reading of the second ends, but for one case: its header,
which was authentic, tells the kind of the second. -/
theorem influence_of_first_token (p : Primitives) (supply next : Recipient → Jwk → Entropy)
    (first now : Int) (options : JwtOptions) (raw second : String) (keys later : KeySource) :
    Influence p supply next first now options raw second keys later := by
  refine ⟨expectedKind_reading, fun hnot => ?_, fun hmisled => ?_⟩
  · exact (alike_reading rfl rfl rfl).deserialize_eq
      (Decidable.not_not.1 (mt expectedKind_reading.1 hnot))
  · exact Alike.deserialize_eq (alike_reading rfl rfl rfl) hmisled.expectedKind_eq

/-! ### A header that misleads -/

/-- A token without a key that names an algorithm for the content. -/
def misleadingText : String := "eyJhbGciOiJub25lIiwiZW5jIjoiQTEyOEdDTSJ9.e30."

/-- Tokens of either kind are accepted. -/
def mixedOptions : JwtOptions :=
  { allowed := some
      [SigningAlgorithm.unsecured.name, (ContentEncryptionAlgorithm.gcm .aes128).name] }

/-- A signed token is accepted by a new object, and not by one that has read another signed
token before. -/
theorem earlier_header_misleads :
    (({ options := mixedOptions } : Jwt).deserialize .standard (fun _ _ => .ofSeed .empty) 0
        Jws.unsecuredText (some (.single Jws.emptySecret))).1 = .ok () ∧
      ((reading .standard (fun _ _ => .ofSeed .empty) 0 mixedOptions misleadingText
          (.single Jws.emptySecret)).deserialize .standard (fun _ _ => .ofSeed .empty) 0
        Jws.unsecuredText (some (.single Jws.emptySecret))).1 =
          .error (.typeMismatch .encrypted .signed) := by
  constructor <;> decide +kernel

end SealedToken.Jwt
