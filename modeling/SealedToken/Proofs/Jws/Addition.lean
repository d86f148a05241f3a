import SealedToken.Proofs.InPlace
import SealedToken.Proofs.Jws.RoundTrip

/-!
Adding a signature as a change in place. Everything that can fail comes before the one write,
so a failure leaves the token alone. What is added names the algorithm that it was made by,
and is of one mode with all signatures that are there.
-/

namespace SealedToken.Jws

variable {p : Primitives} {t after : Jws} {c : SigningCall} {s : SealedToken.Signature}
  {protectedHeader header chosen : Option Object} {name given : String}

/-! ### The steps in place -/

/-- Sign the payload, and write the signature at the end. -/
def addSignatureInPlace (p : Primitives) (c : SigningCall) : InPlace Jws Unit := do
  let payload ← InPlace.look fun t =>
    match t.held with
    | none => .error (.invalidOperation .signDetached)
    | some payload => .ok payload
  let header := Header.nonempty c.header
  let (name, protectedHeader) ← InPlace.look fun _ =>
    chooseAlgorithm c.alg (Header.nonempty c.protectedHeader) header
  let merged ← InPlace.look fun t => t.options.registry.merge protectedHeader [header]
  let encoded ← InPlace.look fun _ => payloadEncoded protectedHeader merged
  InPlace.look fun t => t.checkSameMode encoded
  InPlace.look fun t => Algorithm.checkAllowed t.options.allowed name
  let algorithm ← InPlace.look fun _ => SigningAlgorithm.lookup name
  let protectedText := Header.encode protectedHeader
  let bytes ← InPlace.look fun _ =>
    algorithm.sign p c.rng c.key (signingInput protectedText payload encoded)
  modify fun t => { t with
    signatures := t.signatures ++ [{ protectedHeader, protectedText, header, bytes }] }

theorem addSignatureInPlace_eq_whole :
    addSignatureInPlace p c = InPlace.whole fun t =>
      t.addSignature p c.rng c.key c.alg c.protectedHeader c.header := by
  unfold addSignatureInPlace
  rw [InPlace.look_bind fun payload => InPlace.look_bind fun chosen =>
    InPlace.look_bind fun merged => InPlace.look_bind fun encoded =>
      InPlace.look_bind fun _ => InPlace.look_bind fun _ =>
        InPlace.look_bind fun algorithm => InPlace.look_bind fun bytes =>
          InPlace.modify_eq_whole _]
  congr 1
  funext t
  rw [addSignature, makeSignature]
  cases t.held with
  | none => rfl
  | some payload => simp [bind_assoc]

/-! ### One mode -/

/-- A protected header that says that the payload is not encoded, and says so critically. -/
def Unencoded (protectedHeader : Option Object) : Prop :=
  ∃ header, protectedHeader = some header ∧ header.find? "b64" = some (.bool false) ∧
    ∃ names, header.find? "crit" = some (.arr names) ∧ .str "b64" ∈ names

theorem unencoded_of_payloadEncoded {merged : Object}
    (h : payloadEncoded protectedHeader merged = .ok false) : Unencoded protectedHeader := by
  unfold payloadEncoded at h
  split at h
  · split at h <;> simp at h
  · next encoded hencoded =>
      split at h
      · next hcritical =>
          obtain rfl := Except.ok.inj h
          obtain ⟨header, rfl, hb64⟩ := Option.bind_eq_some_iff.1 hencoded
          rw [Option.any_some, listsCritical] at hcritical
          split at hcritical
          · next names hnames =>
              exact ⟨header, rfl, hb64, names, hnames, List.contains_iff_mem.1 hcritical⟩
          · simp at hcritical
      · simp at h
  · simp at h

/-- All signatures of a token have one mode. -/
structure OneMode (t : Jws) : Prop where
  mode : ∃ encoded, ∀ s ∈ t.signatures, Signature.payloadEncoded s = .ok encoded
  /-- It only leaves the payload as it is where the protected header says so. -/
  unencoded : ∀ s ∈ t.signatures, Signature.payloadEncoded s = .ok false →
    Unencoded s.protectedHeader

theorem isOk_encodesPayload_of_begun (h : Begun t) : t.encodesPayload.isOk = true := by
  cases h with
  | made payload => rfl
  | read h =>
      obtain ⟨held, signatures, -, hmodes, rfl⟩ := deserialize_eq_ok.1 h
      cases signatures with
      | nil => rfl
      | cons first rest =>
          obtain ⟨mode, hmode, -⟩ := bind_eq_ok.1 (hmodes first rest rfl)
          exact isOk_iff.2 ⟨mode, hmode⟩

/-- Only the first signature tells the mode of a token, so it stays. -/
theorem isOk_encodesPayload_of_keeps (h : t.encodesPayload.isOk = true) (hkeeps : Keeps p t after) :
    after.encodesPayload.isOk = true := by
  cases hkeeps with
  | marked mark signatures =>
      rw [encodesPayload] at h ⊢
      rw [signatures]
      cases hfirst : t.signatures with
      | nil => rfl
      | cons first rest =>
          rw [hfirst] at h
          exact h
  | added made _ signatures =>
      rw [encodesPayload] at h ⊢
      rw [signatures]
      cases hfirst : t.signatures with
      | nil => exact isOk_iff.2 ⟨_, made.ownMode⟩
      | cons first rest =>
          rw [hfirst] at h
          exact h

theorem oneMode_run (h : Begun t) (calls : List Call) : OneMode (t.run p calls) := by
  have hok : (t.run p calls).encodesPayload.isOk = true :=
    List.foldlRecOn (motive := fun t : Jws => t.encodesPayload.isOk = true) calls (Call.after p)
      (isOk_encodesPayload_of_begun h)
      fun _ hbefore c _ => isOk_encodesPayload_of_keeps hbefore (keeps_after c)
  obtain ⟨encoded, hencoded⟩ := isOk_iff.1 hok
  exact ⟨⟨encoded, fun s hs => ((h.coherent.run calls).mode s hs).trans hencoded⟩,
    fun s _ hplain => unencoded_of_payloadEncoded hplain⟩

/-! ### What is added -/

/-- A given algorithm is the one that is used. -/
theorem name_eq_of_chooseAlgorithm
    (h : chooseAlgorithm (some given) protectedHeader header = .ok (name, chosen)) :
    name = given := by
  obtain ⟨found, -, h⟩ := bind_eq_ok.1 h
  cases found with
  | none => exact (Prod.mk.inj (Except.ok.inj h)).1.symm
  | some found =>
      dsimp only at h
      split at h
      · next hsame => exact (Prod.mk.inj (Except.ok.inj h)).1.symm.trans hsame.symm
      · simp at h

/-- A signature that a call has made and added to a token. -/
structure Appends (t after : Jws) {payload : ByteArray} (made : Made p t.options payload c s) :
    Prop where
  held : t.held = some payload
  /-- It comes last, and nothing else is new. -/
  appended : after = { t with signatures := t.signatures ++ [s] }
  state : s.state = .signed
  /-- Its merged header names the algorithm that it was made by. -/
  header : after.headerAt t.signatures.length = .ok made.merged
  named : made.merged.find? "alg" = some (.str made.algorithm.name)
  asGiven : ∀ name, c.alg = some name → name = made.algorithm.name
  permitted : Algorithm.Permitted t.options.allowed made.algorithm.name
  /-- The text of its protected header is read as that header, if objects are read as they
  were written. -/
  decoded : (∀ o, s.protectedHeader = some o → o.ReadsBack) →
    Header.decode s.protectedText = .ok s.protectedHeader

/-- What adding a signature step by step does to a token. -/
structure AddsSignature (p : Primitives) (t : Jws) (c : SigningCall) : Prop where
  /-- A failure leaves the token as it was, wherever it comes. -/
  failed : ∀ error after, (addSignatureInPlace p c).run t = .error error after →
    after = t ∧ t.addSignature p c.rng c.key c.alg c.protectedHeader c.header = .error error
  /-- A success appends one signature. -/
  succeeded : ∀ after, (addSignatureInPlace p c).run t = .ok () after →
    t.addSignature p c.rng c.key c.alg c.protectedHeader c.header = .ok after ∧
      ∃ payload s, ∃ made : Made p t.options payload c s, Appends t after made

theorem appends_of_addSignature
    (h : t.addSignature p c.rng c.key c.alg c.protectedHeader c.header = .ok after) :
    ∃ payload s, ∃ made : Made p t.options payload c s, Appends t after made := by
  obtain ⟨payload, hheld⟩ := exists_held_of_addSignature h
  obtain ⟨s, made, -, rfl⟩ := addSignature_made hheld h
  have hname := SigningAlgorithm.name_of_lookup made.registered
  refine ⟨payload, s, made, {
    held := hheld
    appended := rfl
    state := ?_
    header := ?_
    named := hname ▸ made.named
    asGiven := fun given hgiven => ?_
    permitted := hname ▸ made.permitted
    decoded := fun hreads => ?_ }⟩
  · obtain ⟨s', hafter, hstate⟩ := addSignature_signed h
    have hsignatures := congrArg Jws.signatures hafter
    obtain rfl := List.singleton_inj.1 (List.append_cancel_left hsignatures)
    exact hstate
  · rw [headerAt, List.getElem?_concat_length]
    exact made.merges
  · have hchosen := made.chosen
    rw [hgiven] at hchosen
    rw [hname, name_eq_of_chooseAlgorithm hchosen]
  · rw [made.text]
    exact Header.decode_encode_of_readsBack made.protects.nonempty hreads

/-- Let a token be made of a payload or read, and any calls be made on it. All its signatures
have one mode then, and if a signature is added to it, step by step and in place, it is as
it was or has one signature more, whose header names the algorithm that it was made by. -/
theorem addsSignature_of_begun (h : Begun t) (calls : List Call) :
    OneMode (t.run p calls) ∧ ∀ c, AddsSignature p (t.run p calls) c := by
  refine ⟨oneMode_run h calls, fun c => ⟨fun error after hrun => ?_, fun after hrun => ?_⟩⟩
  · rw [addSignatureInPlace_eq_whole] at hrun
    exact InPlace.whole_eq_error.1 hrun
  · rw [addSignatureInPlace_eq_whole] at hrun
    have hadd := InPlace.whole_eq_ok.1 hrun
    exact ⟨hadd, appends_of_addSignature hadd⟩

/-- A payload that is signed as it is. -/
def unencodedCalls : List Call :=
  [.setOptions macOptions,
    .addSignature (.ofSeed .empty) (.ofOctets "first".toUTF8)
      (some (SigningAlgorithm.hmac .sha256).name) (some unencodedHeader) none]

def unencodedToken : Jws := (ofPayload "a.b".toUTF8).run .standard unencodedCalls

/-- A second signature of the same mode, and one of the other. -/
def plainCall : SigningCall :=
  ⟨.ofSeed .empty, .ofOctets "second".toUTF8, none, some unencodedHeader, some macHeader⟩

def encodedCall : SigningCall :=
  ⟨.ofSeed .empty, .ofOctets "second".toUTF8, none, none, some macHeader⟩

/-- A signature of the same mode is added, and one of the other mode is refused. -/
theorem unencoded_signatures :
    (∃ s ∈ unencodedToken.signatures, Signature.payloadEncoded s = .ok false) ∧
      (∃ after, (addSignatureInPlace .standard plainCall).run unencodedToken = .ok () after) ∧
      (addSignatureInPlace .standard encodedCall).run unencodedToken =
        .error (.invalidFormat .mixedPayloadEncoding) unencodedToken ∧
      OneMode unencodedToken ∧ ∀ c, AddsSignature .standard unencodedToken c := by
  have hrefused : unencodedToken.addSignature .standard encodedCall.rng encodedCall.key
      encodedCall.alg encodedCall.protectedHeader encodedCall.header =
        .error (.invalidFormat .mixedPayloadEncoding) := by
    decide +kernel
  obtain ⟨after, hadd⟩ : ∃ after, unencodedToken.addSignature .standard plainCall.rng
      plainCall.key plainCall.alg plainCall.protectedHeader plainCall.header = .ok after :=
    isOk_iff.1 (by decide +kernel)
  refine ⟨by decide +kernel, ⟨after, ?_⟩, ?_, addsSignature_of_begun (.made _) unencodedCalls⟩
  · rw [addSignatureInPlace_eq_whole, InPlace.whole_eq_ok]
    exact hadd
  · rw [addSignatureInPlace_eq_whole, InPlace.whole_eq_error]
    exact ⟨rfl, hrefused⟩

end SealedToken.Jws
