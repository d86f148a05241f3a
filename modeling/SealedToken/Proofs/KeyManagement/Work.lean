import SealedToken.Primitives.Standard
import SealedToken.Proofs.InPlace
import SealedToken.Proofs.KeyManagement.Recovery

/-!
The work that is done on a password. Salt and repetitions come from defaults, from the
sender or from whoever wrote the header; either side derives a key only from those that the
limits allow, and what the sender uses the recipient finds and allows as well.

A function of a value cannot tell what was computed on the way to a failure. So both sides
are written a second time with a list of the derivations that are made, and shown to have
the outcomes that they have without it.
-/

namespace SealedToken

/-- Work that the limits allow. -/
structure PasswordLimits.Allows (limits : PasswordLimits) (salt : ByteArray)
    (iterations : Nat) : Prop where
  positive : 0 < iterations
  bounded : iterations ≤ limits.maxIterations
  salted : limits.minSaltSize ≤ salt.size

theorem PasswordLimits.check_eq_ok {limits : PasswordLimits} {salt : ByteArray}
    {iterations : Nat} :
    limits.check iterations salt = .ok () ↔ limits.Allows salt iterations := by
  simp only [check, ite_error_eq_ok, and_true]
  constructor
  · rintro ⟨hbounded, hsalted, hpositive⟩
    exact ⟨by omega, by omega, by omega⟩
  · rintro ⟨hpositive, hbounded, hsalted⟩
    omega

namespace KeyManagementAlgorithm

variable {p : Primitives} {rng : Entropy} {a : KeyManagementAlgorithm} {s : AesSize} {key : Jwk}
  {keyBits : Nat} {held : Option ByteArray} {header : Object} {limits : PasswordLimits}
  {wrapped : WrappedKey} {password salt : ByteArray} {iterations : Nat}

/-! ### What is asked for -/

/-- The salt and the repetitions that a header asks for. Where it names none they come from
the defaults, if there are any: a salt of their size, and their number. -/
structure AsksFor (defaults : Option PasswordLimits) (header : Object) (salt : ByteArray)
    (iterations : Nat) : Prop where
  salt : header.find? "p2s" = some (Json.ofBytes salt) ∨
    header.find? "p2s" = none ∧ ∃ limits ∈ defaults, salt.size = limits.defaultSaltSize
  iterations : header.find? "p2c" = some (Json.int iterations) ∨
    header.find? "p2c" = none ∧ ∃ limits ∈ defaults, iterations = limits.defaultIterations

theorem asksFor_of_chosenSalt (h : chosenSalt rng limits header = .ok (salt, iterations)) :
    AsksFor (some limits) header salt iterations := by
  obtain ⟨named, hnamed, h⟩ := bind_eq_ok.1 h
  have hsalt : salt = named.getD (rng.take limits.defaultSaltSize) →
      header.find? "p2s" = some (Json.ofBytes salt) ∨
        header.find? "p2s" = none ∧ ∃ d ∈ some limits, salt.size = d.defaultSaltSize := by
    rintro rfl
    rw [Header.bytes?_eq_ok.1 hnamed]
    cases named with
    | none => exact .inr ⟨rfl, limits, rfl, rng.size_take _⟩
    | some salt => exact .inl rfl
  split at h
  · next value hvalue =>
      obtain ⟨count, hcount, h⟩ := bind_eq_ok.1 h
      obtain ⟨rfl, rfl⟩ := Prod.mk.inj (Except.ok.inj h)
      exact ⟨hsalt rfl, .inl (by rw [hvalue, iterationsOf_eq_ok hcount])⟩
  · next hnone =>
      obtain ⟨rfl, rfl⟩ := Prod.mk.inj (Except.ok.inj h)
      exact ⟨hsalt rfl, .inr ⟨hnone, limits, rfl, rfl⟩⟩

theorem asksFor_of_receivedSalt (h : receivedSalt header = .ok (salt, iterations)) :
    AsksFor none header salt iterations := by
  simp only [receivedSalt, Header.bytes, Header.value, bind_eq_ok, pure_eq_ok, Except.ok.injEq,
    Prod.mk.injEq] at h
  obtain ⟨_, ⟨named, hnamed, hsalt⟩, value, hvalue, _, hcount, rfl, rfl⟩ := h
  constructor
  · split at hsalt
    · obtain rfl := Except.ok.inj hsalt
      exact .inl (Header.bytes?_eq_ok.1 hnamed)
    · simp at hsalt
  · split at hvalue
    · next hfound =>
        obtain rfl := Except.ok.inj hvalue
        exact .inl (by rw [hfound, iterationsOf_eq_ok hcount])
    · simp at hvalue

/-! ### What is done -/

/-- What goes into a key that is derived from a password. -/
structure Derivation where
  salt : ByteArray
  iterations : Nat

/-- A program that notes the derivations it makes, also when it fails. -/
abbrev Noting (α : Type) := InPlace (List Derivation) α

/-- An outcome, and what is noted by then. -/
def Noting.ending {α : Type} (outcome : Except Error α) (noted : List Derivation) :
    EStateM.Result Error (List Derivation) α :=
  match outcome with
  | .ok a => .ok a noted
  | .error error => .error error noted

/-- A program has an outcome, and notes nothing but what is allowed. -/
def Noting.Within {α : Type} (allowed : Derivation → Prop) (program : Noting α)
    (outcome : Except Error α) : Prop :=
  ∀ noted, ∃ made, (∀ d ∈ made, allowed d) ∧ program.run noted = ending outcome (made ++ noted)

section Noting

variable {α β : Type} {allowed : Derivation → Prop}

theorem Noting.within_look {outcome : Except Error α} :
    Noting.Within allowed (InPlace.look fun _ => outcome) outcome := by
  intro noted
  refine ⟨[], by simp, ?_⟩
  rw [EStateM.run, InPlace.look]
  cases outcome <;> rfl

theorem Noting.Within.bind {program : Noting α} {outcome : Except Error α} {next : α → Noting β}
    {after : α → Except Error β} (h : Noting.Within allowed program outcome)
    (hnext : ∀ a, outcome = .ok a → Noting.Within allowed (next a) (after a)) :
    Noting.Within allowed (program >>= next) (outcome >>= after) := by
  intro noted
  obtain ⟨made, hmade, hrun⟩ := h noted
  change ∃ _, _ ∧ program.bind next noted = _
  rw [EStateM.run] at hrun
  unfold EStateM.bind
  rw [hrun]
  cases outcome with
  | error error => exact ⟨made, hmade, rfl⟩
  | ok a =>
      obtain ⟨later, hlater, hrest⟩ := hnext a rfl (made ++ noted)
      refine ⟨later ++ made, fun d hd => ?_, ?_⟩
      · exact (List.mem_append.1 hd).elim (hlater d) (hmade d)
      · rw [ok_bind, List.append_assoc]
        exact hrest

end Noting

/-- Derive a key, and note it. -/
def deriveNoting (p : Primitives) (a : KeyManagementAlgorithm) (s : AesSize)
    (password salt : ByteArray) (iterations : Nat) : Noting ByteArray := do
  modify (⟨salt, iterations⟩ :: ·)
  pure (p.passwordKey s.sha password (a.saltInput salt) iterations s.bytes)

def passwordKeyNoting (p : Primitives) (a : KeyManagementAlgorithm) (s : AesSize)
    (limits : PasswordLimits) (password salt : ByteArray) (iterations : Nat) :
    Noting ByteArray := do
  InPlace.look fun _ => limits.check iterations salt
  deriveNoting p a s password salt iterations

/-- The sender's side, with a note of each derivation. -/
def wrapNoting (p : Primitives) (rng : Entropy) (s : AesSize) (key : Jwk) (keyBits : Nat)
    (held : Option ByteArray) (header : Object) (limits : PasswordLimits) : Noting WrappedKey := do
  let contentKey ← InPlace.look fun _ => contentKey (rng.fork 0) keyBits held
  let (salt, iterations) ← InPlace.look fun _ => chosenSalt (rng.fork 1) limits header
  let password ← InPlace.look fun _ => key.octets .wrapKey
  let kek ← passwordKeyNoting p (pbes2 s) s limits password salt iterations
  let wrapped ← InPlace.look fun _ => wrapUnder p kek contentKey
  let header := (Object.empty.insert "p2s" (Json.ofBytes salt)).insert "p2c"
    (Json.int iterations)
  InPlace.look fun _ => .ok ⟨contentKey, wrapped, header⟩

def recoverNoting (p : Primitives) (s : AesSize) (key : Jwk) (encryptedKey : ByteArray)
    (header : Object) (limits : PasswordLimits) : Noting ByteArray := do
  let (salt, iterations) ← InPlace.look fun _ => receivedSalt header
  let password ← InPlace.look fun _ => key.octets .unwrapKey
  let kek ← passwordKeyNoting p (pbes2 s) s limits password salt iterations
  InPlace.look fun _ => unwrapUnder p kek encryptedKey

/-- The recipient's side, with a note of each derivation. -/
def unwrapNoting (p : Primitives) (s : AesSize) (key : Jwk) (keyBits : Nat)
    (encryptedKey : ByteArray) (header : Object) (limits : PasswordLimits) :
    Noting ByteArray := do
  let recovered ← recoverNoting p s key encryptedKey header limits
  InPlace.look fun _ => checkKeySize (keyBits / 8) recovered
  InPlace.look fun _ => .ok recovered

/-- Other operations derive the same keys in allowed work. -/
def AgreesWithin (p : Primitives) (a : KeyManagementAlgorithm) (limits : PasswordLimits)
    (derive : ShaSize → ByteArray → ByteArray → Nat → Nat → ByteArray) : Prop :=
  ∀ sha password salt iterations size, limits.Allows salt iterations →
    derive sha password (a.saltInput salt) iterations size =
      p.passwordKey sha password (a.saltInput salt) iterations size

theorem passwordKey_congr {derive : ShaSize → ByteArray → ByteArray → Nat → Nat → ByteArray}
    (h : AgreesWithin p a limits derive) :
    a.passwordKey { p with passwordKey := derive } s limits password salt iterations =
      a.passwordKey p s limits password salt iterations := by
  unfold passwordKey
  cases hcheck : limits.check iterations salt with
  | error error => rfl
  | ok _ => exact congrArg Except.ok (h _ _ _ _ _ (PasswordLimits.check_eq_ok.1 hcheck))

/-- A failure before the operations on keys differ is one failure. -/
theorem exists_error_bind {α β : Type} {x : Except Error α}
    {next : Primitives → α → Except Error β}
    (h : ∀ a, x = .ok a → ∃ error, ∀ p, next p a = .error error) :
    ∃ error, ∀ p, (x >>= next p) = .error error := by
  cases x with
  | error error => exact ⟨error, fun _ => rfl⟩
  | ok a => exact h a rfl

theorem exists_passwordKey_error {α : Type} {next : Primitives → ByteArray → Except Error α}
    (h : ¬ limits.Allows salt iterations) :
    ∃ error, ∀ p, (a.passwordKey p s limits password salt iterations >>= next p) =
      .error error := by
  cases hcheck : limits.check iterations salt with
  | error error => exact ⟨error, fun p => by rw [passwordKey, hcheck]; rfl⟩
  | ok _ => exact absurd (PasswordLimits.check_eq_ok.1 hcheck) h

/-! ### Work within the limits -/

/-- The work of one side, for a header that asks for salt and repetitions. It notes what is
asked for and allowed, and nothing else; operations that derive the same keys where that is
allowed give the same; and where nothing that is asked for is allowed, it is refused, in one
way whatever the operations on keys do. -/
structure WorksWithin {α : Type} (limits : PasswordLimits) (a : KeyManagementAlgorithm)
    (asked : ByteArray → Nat → Prop) (noting : Primitives → Noting α)
    (outcome : Primitives → Except Error α) : Prop where
  notes : ∀ p, Noting.Within (fun d => asked d.salt d.iterations ∧
    limits.Allows d.salt d.iterations) (noting p) (outcome p)
  congr : ∀ p derive, AgreesWithin p a limits derive →
    outcome { p with passwordKey := derive } = outcome p
  refused : (∀ salt iterations, asked salt iterations → ¬ limits.Allows salt iterations) →
    ∃ error, ∀ p, outcome p = .error error

theorem within_passwordKeyNoting {asked : ByteArray → Nat → Prop} (h : asked salt iterations) :
    Noting.Within (fun d => asked d.salt d.iterations ∧ limits.Allows d.salt d.iterations)
      (passwordKeyNoting p a s limits password salt iterations)
      (a.passwordKey p s limits password salt iterations) := by
  refine .bind Noting.within_look fun _ hcheck noted => ?_
  -- the check stands before the derivation
  have hallowed := PasswordLimits.check_eq_ok.1 hcheck
  exact ⟨[⟨salt, iterations⟩], by simpa using ⟨h, hallowed⟩, rfl⟩

theorem worksWithin_wrap (rng : Entropy) (s : AesSize) (key : Jwk) (keyBits : Nat)
    (held : Option ByteArray) (header : Object) (limits : PasswordLimits) :
    WorksWithin limits (pbes2 s) (AsksFor (some limits) header)
      (fun p => wrapNoting p rng s key keyBits held header limits)
      (fun p => (pbes2 s).wrap p rng key keyBits held header limits) where
  notes p := by
    refine .bind Noting.within_look fun chosen _ => .bind Noting.within_look fun asked hasked => ?_
    refine .bind Noting.within_look fun password _ => ?_
    refine .bind (within_passwordKeyNoting (asksFor_of_chosenSalt hasked)) fun kek _ => ?_
    exact .bind Noting.within_look fun wrapped _ => Noting.within_look
  congr p derive h := by
    simp only [wrap, wrapPassword, passwordKey_congr h]
    rfl
  refused h := by
    refine exists_error_bind fun chosen _ => exists_error_bind fun asked hasked => ?_
    exact exists_error_bind fun password _ =>
      exists_passwordKey_error (h _ _ (asksFor_of_chosenSalt hasked))

theorem worksWithin_unwrap (rng : Entropy) (s : AesSize) (key : Jwk) (keyBits : Nat)
    (encryptedKey : ByteArray) (header : Object) (limits : PasswordLimits) :
    WorksWithin limits (pbes2 s) (AsksFor none header)
      (fun p => unwrapNoting p s key keyBits encryptedKey header limits)
      (fun p => (pbes2 s).unwrap p rng key keyBits encryptedKey header limits) where
  notes p := by
    refine .bind (.bind Noting.within_look fun asked hasked => ?_) fun recovered _ =>
      .bind Noting.within_look fun _ _ => Noting.within_look
    refine .bind Noting.within_look fun password _ => ?_
    exact .bind (within_passwordKeyNoting (asksFor_of_receivedSalt hasked)) fun kek _ =>
      Noting.within_look
  congr p derive h := by
    simp only [unwrap, recover, passwordKey_congr h]
    rfl
  refused h := by
    have hrecover : ∃ error, ∀ p,
        (pbes2 s).recover p rng key keyBits encryptedKey header limits = .error error := by
      refine exists_error_bind fun asked hasked => exists_error_bind fun password _ => ?_
      exact exists_passwordKey_error (h _ _ (asksFor_of_receivedSalt hasked))
    obtain ⟨error, hrecover⟩ := hrecover
    exact ⟨error, fun p => by rw [unwrap, hrecover, error_bind]⟩

/-! ### What both sides agree on -/

/-- How a sender wraps with a password: salt and repetitions are allowed, they are added to
the header, and the key that wraps is derived with them. -/
structure Derives (p : Primitives) (s : AesSize) (key : Jwk) (limits : PasswordLimits)
    (wrapped : WrappedKey) (salt : ByteArray) (iterations : Nat) (kek : ByteArray) : Prop where
  allowed : limits.Allows salt iterations
  added : wrapped.header =
    (Object.empty.insert "p2s" (Json.ofBytes salt)).insert "p2c" (Json.int iterations)
  derived : ∃ password, key.octets .wrapKey = .ok password ∧
    (pbes2 s).passwordKey p s limits password salt iterations = .ok kek
  wraps : wrapUnder p kek wrapped.contentKey = .ok wrapped.encryptedKey

theorem derives_of_wrap
    (h : (pbes2 s).wrap p rng key keyBits held header limits = .ok wrapped) :
    ∃ salt iterations kek, chosenSalt (rng.fork 1) limits header = .ok (salt, iterations) ∧
      Derives p s key limits wrapped salt iterations kek := by
  obtain ⟨chosen, -, h⟩ := bind_eq_ok.1 h
  simp only [wrapPassword, bind_eq_ok, pure_eq_ok, Except.ok.injEq] at h
  obtain ⟨⟨salt, iterations⟩, hsalt, password, hpassword, kek, hkek, encrypted, hwraps, rfl⟩ := h
  have hallowed := PasswordLimits.check_eq_ok.1 (seq_eq_ok.1 hkek).1
  exact ⟨salt, iterations, kek, hsalt, hallowed, rfl, ⟨password, hpassword, hkek⟩, hwraps⟩

section Derived

variable {received : Object} {kek : ByteArray}
  (hderives : Derives p s key limits wrapped salt iterations kek)
  (hreceived : ∀ name value, wrapped.header.find? name = some value →
    received.find? name = some value)
include hderives hreceived

theorem receivedSalt_of_derives (hlimit : limits.maxIterations < 2 ^ 32) :
    receivedSalt received = .ok (salt, iterations) := by
  have hadded := hderives.added
  exact receivedSalt_of_find? (hreceived _ _ (by simp [hadded])) (hreceived _ _ (by simp [hadded]))
    (Nat.lt_of_le_of_lt hderives.allowed.bounded hlimit)

/-- Whoever has the password and receives what was added unwraps under the same key. -/
theorem recover_of_derives {own : Jwk} (hlimit : limits.maxIterations < 2 ^ 32)
    (hpassword : key.octets .wrapKey = .ok password) (hown : own.octets .unwrapKey = .ok password)
    (other : Entropy) :
    (pbes2 s).recover p other own keyBits wrapped.encryptedKey received limits =
      unwrapUnder p kek wrapped.encryptedKey := by
  obtain ⟨password', hpassword', hkek⟩ := hderives.derived
  obtain rfl := Except.ok.inj (hpassword'.symm.trans hpassword)
  rw [recover, receivedSalt_of_derives hderives hreceived hlimit, ok_bind]
  dsimp only
  rw [hown, ok_bind, hkek, ok_bind]

end Derived

/-- The work on a password is bounded, and both sides agree on the bounds. For any header
the sender derives a key only in work that the header and the defaults ask for and the
limits allow, and the recipient only in work that the header asks for and the limits allow;
else they refuse. Where the sender wraps, it adds the header's own parameters where the
header has them, the recipient reads and allows what was added, and with the same password
it unwraps under the key that wrapped. -/
theorem password_work_bounded (s : AesSize) (limits : PasswordLimits)
    (hlimit : limits.maxIterations < 2 ^ 32) (rng : Entropy) (key : Jwk) (keyBits : Nat)
    (header : Object) :
    (∀ held, WorksWithin limits (pbes2 s) (AsksFor (some limits) header)
      (fun p => wrapNoting p rng s key keyBits held header limits)
      (fun p => (pbes2 s).wrap p rng key keyBits held header limits)) ∧
    (∀ encryptedKey, WorksWithin limits (pbes2 s) (AsksFor none header)
      (fun p => unwrapNoting p s key keyBits encryptedKey header limits)
      (fun p => (pbes2 s).unwrap p rng key keyBits encryptedKey header limits)) ∧
    ∀ p held wrapped, (pbes2 s).wrap p rng key keyBits held header limits = .ok wrapped →
      (∀ name value, name ∈ (pbes2 s).parameters → header.find? name = some value →
        wrapped.header.find? name = some value) ∧
      ∃ salt iterations kek, AsksFor (some limits) header salt iterations ∧
        Derives p s key limits wrapped salt iterations kek ∧
        ∀ received : Object, (∀ name value, wrapped.header.find? name = some value →
            received.find? name = some value) →
          receivedSalt received = .ok (salt, iterations) ∧
          limits.check iterations salt = .ok () ∧
          ∀ own password other, key.octets .wrapKey = .ok password →
            own.octets .unwrapKey = .ok password →
              (pbes2 s).recover p other own keyBits wrapped.encryptedKey received limits =
                unwrapUnder p kek wrapped.encryptedKey := by
  refine ⟨fun held => worksWithin_wrap rng s key keyBits held header limits,
    fun encryptedKey => worksWithin_unwrap rng s key keyBits encryptedKey header limits,
    fun p held wrapped h => ?_⟩
  obtain ⟨salt, iterations, kek, hchosen, hderives⟩ := derives_of_wrap h
  obtain ⟨hsalt, hiterations⟩ := chosenSalt_named hchosen
  refine ⟨fun name value hname hvalue => ?_, salt, iterations, kek,
    asksFor_of_chosenSalt hchosen, hderives, fun received hreceived =>
      ⟨receivedSalt_of_derives hderives hreceived hlimit,
        PasswordLimits.check_eq_ok.2 hderives.allowed, fun own password other hpassword hown =>
          recover_of_derives hderives hreceived hlimit hpassword hown other⟩⟩
  rw [hderives.added]
  simp only [parameters, List.mem_cons, List.not_mem_nil, or_false] at hname
  rcases hname with rfl | rfl
  · simp [hsalt value hvalue]
  · simp [hiterations value hvalue]

def passphrase : Jwk := { material := .oct ⟨#[104, 105]⟩ }

/-- A header that asks for a salt of eight bytes, and for so many repetitions. -/
def headerAsking (iterations : Nat) : Object :=
  .ofMembers [("p2s", .str "AAAAAAAAAAA"), ("p2c", Json.int iterations)]

/-- One repetition is made where the header asks for it; none is not made at all. -/
theorem password_work_once :
    (∃ wrapped, (pbes2 .aes128).wrap .standard (.ofSeed .empty) passphrase 128 none
        (headerAsking 1) {} = .ok wrapped ∧
      wrapped.header.find? "p2c" = some (Json.int 1) ∧
      ∃ kek, (pbes2 .aes128).recover .standard (.ofSeed .empty) passphrase 128
        wrapped.encryptedKey wrapped.header {} = unwrapUnder .standard kek wrapped.encryptedKey) ∧
    ∃ error, ∀ p, (pbes2 .aes128).unwrap p (.ofSeed .empty) passphrase 128 .empty
      (headerAsking 0) {} = .error error := by
  constructor
  · obtain ⟨wrapped, hwrap⟩ : ∃ wrapped, (pbes2 .aes128).wrap .standard (.ofSeed .empty) passphrase
        128 none (headerAsking 1) {} = .ok wrapped := isOk_iff.1 (by decide +kernel)
    obtain ⟨hown, _, _, kek, -, -, hreceived⟩ := (password_work_bounded .aes128 {} (by decide)
      (.ofSeed .empty) passphrase 128 (headerAsking 1)).2.2 .standard none wrapped hwrap
    refine ⟨wrapped, hwrap, hown _ _ (by simp [parameters]) rfl, kek, ?_⟩
    exact (hreceived wrapped.header fun _ _ h => h).2.2 passphrase _ _ rfl rfl
  · refine ((password_work_bounded .aes128 {} (by decide) (.ofSeed .empty) passphrase 128
      (headerAsking 0)).2.1 .empty).refused fun salt iterations hasks hallows => ?_
    obtain hsome | ⟨hnone, -⟩ := hasks.iterations
    · have hzero : Json.int 0 = Json.int iterations := Option.some.inj hsome
      have hpositive := hallows.positive
      simp [Json.int] at hzero
      omega
    · exact absurd hnone (by decide)

end KeyManagementAlgorithm

end SealedToken
