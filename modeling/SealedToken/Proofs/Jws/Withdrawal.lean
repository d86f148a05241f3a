import SealedToken.Proofs.Jws.Release

/-!
What is left of an earlier success when a verification fails. The payload is withdrawn
in every case. The marks of the signatures are only replaced when there is a payload to
verify: with the payload taken out and none given, a verification fails and the marks of
the last success stand, so that the token still counts as valid.
-/

namespace SealedToken.Jws

variable {p : Primitives} {t after : Jws} {keys : KeySource} {alg : Option String}
  {detached : Option ByteArray} {error : Error}

/-! ### How a verification fails -/

/-- How a verification fails, and what it leaves. -/
inductive Fails (p : Primitives) (t : Jws) (keys : KeySource) (alg : Option String)
    (detached : Option ByteArray) : Error → Jws → Prop
  | withoutPayload (missing : (detached <|> t.held) = none) :
      Fails p t keys alg detached (.invalidOperation .payloadDetached)
        { t with held := none, trusted := false, log := [] }
  | withoutSignatures {payload : ByteArray} (present : (detached <|> t.held) = some payload)
      (unsigned : t.signatures = []) :
      Fails p t keys alg detached (.invalidFormat .noSignatures)
        { t with held := some payload, trusted := false, log := [] }
  /-- No signature is accepted, and all are marked so. -/
  | refused {payload : ByteArray} (present : (detached <|> t.held) = some payload)
      (refuses : ∀ s ∈ t.signatures, ¬ Accepts p t.options payload keys alg s)
      (error : Error) (log : List FailedAttempt) :
      Fails p t keys alg detached error
        { t with
          held := some payload
          trusted := false
          signatures := t.signatures.map fun s => { s with state := .invalid }
          log }

/-- Without an accepted signature all are marked invalid. -/
theorem verifyAll_refused {payload : ByteArray}
    (h : ∀ s ∈ t.signatures, ¬ Accepts p t.options payload keys alg s) :
    ∃ log, (t.verifyAll p payload keys alg).2 =
      { t with signatures := t.signatures.map fun s => { s with state := .invalid }, log } := by
  have hmarks : (t.verifyAll p payload keys alg).2.signatures =
      t.signatures.map fun s => { s with state := .invalid } := by
    rw [verifyAll_signatures]
    refine List.map_congr_left fun s hs => ?_
    cases houtcome : (verifyOne p t.options payload keys alg s).1 with
    | ok _ => exact absurd (verifyOne_eq_ok.1 houtcome) (h s hs)
    | error _ => rfl
  have hnone : ¬ (t.signatures.map (verifyOne p t.options payload keys alg)).any (·.1.isOk) =
      true := by
    rintro hany
    obtain ⟨s, hs, haccepts⟩ := any_isOk_verifyOne.1 hany
    exact h s hs haccepts
  refine ⟨(t.verifyAll p payload keys alg).2.log, ?_⟩
  rw [← hmarks]
  simp only [verifyAll, if_neg hnone]

theorem fails_of_verify (h : t.verify p keys alg detached = (.error error, after)) :
    Fails p t keys alg detached error after := by
  cases hpayload : (detached <|> t.held) with
  | none =>
      simp only [verify, hpayload, Prod.mk.injEq, Except.error.injEq] at h
      obtain ⟨rfl, rfl⟩ := h
      exact .withoutPayload hpayload
  | some payload =>
      by_cases hs : t.signatures = []
      · simp only [verify, hpayload, hs, List.isEmpty_nil, if_true, Prod.mk.injEq,
          Except.error.injEq] at h
        obtain ⟨rfl, rfl⟩ := h
        rw [← hs]
        exact .withoutSignatures hpayload hs
      · rw [verify_eq_verifyAll p keys alg hpayload hs] at h
        have hrefuses : ∀ s ∈ t.signatures, ¬ Accepts p t.options payload keys alg s := by
          intro s hs haccepts
          have hok := verifyAll_eq_ok
            (t := { t with held := some payload, trusted := false, log := [] }) |>.2
            ⟨s, hs, haccepts⟩
          simp [h] at hok
        obtain ⟨log, hafter⟩ := verifyAll_refused
          (t := { t with held := some payload, trusted := false, log := [] }) hrefuses
        rw [h] at hafter
        rw [show after = _ from hafter]
        exact .refused hpayload hrefuses error log

/-! ### When a token counts as valid -/

/-- Is the call a verification that succeeds? -/
def Call.Succeeds (p : Primitives) (t : Jws) : Call → Prop
  | .verify keys alg detached => (t.verify p keys alg detached).1 = .ok ()
  | _ => False

/-- Does the call leave the marks of the signatures? A verification does without a
payload. -/
def Call.Spares (t : Jws) : Call → Prop
  | .verify _ _ detached => (detached <|> t.held) = none
  | _ => True

theorem isValid_eq_true : t.isValid = true ↔ ∃ s ∈ t.signatures, s.state = .valid := by
  simp [isValid]

theorem not_isValid (h : ∀ s ∈ t.signatures, s.state ≠ .valid) : ¬ t.isValid = true := by
  rw [isValid_eq_true]
  rintro ⟨s, hs, hvalid⟩
  exact h s hs hvalid

/-- A verification that succeeds has marked a signature. -/
theorem isValid_of_verify (h : (t.verify p keys alg detached).1 = .ok ()) :
    (t.verify p keys alg detached).2.isValid = true := by
  cases hpayload : (detached <|> t.held) with
  | none => simp [verify, hpayload] at h
  | some payload =>
      by_cases hs : t.signatures = []
      · simp [verify, hpayload, hs] at h
      · rw [verify_eq_verifyAll p keys alg hpayload hs] at h ⊢
        obtain ⟨s, hs, haccepts⟩ := verifyAll_eq_ok.1 h
        rw [isValid_eq_true, verifyAll_signatures]
        exact ⟨_, List.mem_map_of_mem hs, by rw [verifyOne_eq_ok.2 haccepts]; rfl⟩

/-- After a verification that fails, the token counts as valid only by marks that it
has spared. -/
theorem Fails.isValid (h : Fails p t keys alg detached error after) :
    after.isValid = true ↔ t.isValid = true ∧ (detached <|> t.held) = none := by
  cases h with
  | withoutPayload missing => simp [Jws.isValid, missing]
  | withoutSignatures present unsigned => simp [Jws.isValid, unsigned]
  | refused present => simp [Jws.isValid, present]

section Signing

variable {rng : Entropy} {key : Jwk} {protectedHeader header : Option Object}

theorem makeSignature_state {s : SealedToken.Signature}
    (h : t.makeSignature p rng key alg protectedHeader header = .ok s) : s.state = .signed := by
  unfold makeSignature at h
  split at h
  · simp at h
  · simp only [bind_eq_ok, pure_eq_ok, Except.ok.injEq] at h
    obtain ⟨_, -, _, -, _, -, _, -, _, -, _, -, _, -, rfl⟩ := h
    rfl

/-- What is added has not been verified. -/
theorem addSignature_signed {signed : Jws}
    (h : t.addSignature p rng key alg protectedHeader header = .ok signed) :
    ∃ s, signed = { t with signatures := t.signatures ++ [s] } ∧ s.state = .signed := by
  simp only [addSignature, bind_eq_ok, pure_eq_ok, Except.ok.injEq] at h
  obtain ⟨s, hs, rfl⟩ := h
  exact ⟨s, rfl, makeSignature_state hs⟩

theorem addSignature_isValid {signed : Jws}
    (h : t.addSignature p rng key alg protectedHeader header = .ok signed) :
    signed.isValid = t.isValid := by
  obtain ⟨s, rfl, hstate⟩ := addSignature_signed h
  simp [isValid, hstate]

end Signing

/-- A call leaves a valid token when it is a verification that succeeds, or when it
leaves the marks of one that was valid before. -/
theorem isValid_after (c : Call) :
    (c.after p t).isValid = true ↔ c.Succeeds p t ∨ t.isValid = true ∧ c.Spares t := by
  cases c with
  | addSignature rng key alg protectedHeader header =>
      rw [Call.after]
      split
      · next signed hsigned => simp [addSignature_isValid hsigned, Call.Succeeds, Call.Spares]
      · simp [Call.Succeeds, Call.Spares]
  | verify keys alg detached =>
      rw [Call.after, Call.Succeeds, Call.Spares]
      cases hverify : t.verify p keys alg detached with
      | mk outcome after =>
          cases outcome with
          | ok _ =>
              have hvalid := isValid_of_verify (congrArg Prod.fst hverify)
              rw [hverify] at hvalid
              simp [hvalid]
          | error error => simpa using (fails_of_verify hverify).isValid
  | _ => simp [Call.after, Call.Succeeds, Call.Spares, isValid, detach]

/-! ### Runs -/

/-- A token as it is begun. -/
inductive Begun : Jws → Prop
  | made (payload : ByteArray) : Begun (ofPayload payload)
  | read {raw : String} {t : Jws} (h : deserialize raw = .ok t) : Begun t

theorem readSignature_state {protectedText bytesText : String} {header : Option Object}
    {s : SealedToken.Signature} (h : readSignature protectedText header bytesText = .ok s) :
    s.state = .signed := by
  simp only [readSignature, bind_eq_ok, pure_eq_ok, Except.ok.injEq] at h
  obtain ⟨_, -, _, -, rfl⟩ := h
  rfl

theorem readCompact_state {text : String} {held : Option ByteArray}
    {signatures : List SealedToken.Signature}
    (h : readCompact text = .ok (held, signatures)) : ∀ s ∈ signatures, s.state = .signed := by
  obtain ⟨_, _, _, s, _, -, hs, -, -, rfl⟩ := segments_of_readCompact h
  simpa using readSignature_state hs

theorem readJson_state {text : String} {held : Option ByteArray}
    {signatures : List SealedToken.Signature}
    (h : readJson text = .ok (held, signatures)) : ∀ s ∈ signatures, s.state = .signed := by
  unfold readJson at h
  split at h
  · simp at h
  · obtain ⟨⟨payload, written⟩, -, h⟩ := bind_eq_ok.1 h
    obtain ⟨read, hread, h⟩ := bind_eq_ok.1 h
    obtain rfl : read = signatures := by
      cases read with
      | nil => simp at h
      | cons first rest =>
          cases payload with
          | none => exact (Prod.mk.inj (Except.ok.inj h)).2
          | some payload =>
              obtain ⟨_, -, h⟩ := bind_eq_ok.1 h
              exact (Prod.mk.inj (Except.ok.inj h)).2
    intro s hs
    obtain ⟨w, -, hw⟩ := exists_of_mapM_eq_ok hread hs
    exact readSignature_state hw

/-- A token that is begun does not count as valid. -/
theorem Begun.not_isValid (h : Begun t) : ¬ t.isValid = true := by
  cases h with
  | made payload => simp [isValid, ofPayload]
  | read h =>
      obtain ⟨held, signatures, hread, -, rfl⟩ := deserialize_eq_ok.1 h
      refine Jws.not_isValid fun s hs => ?_
      split at hread
      · simp [readJson_state hread s hs]
      · simp [readCompact_state hread s hs]

/-- The last verification among the calls that had a payload has succeeded. -/
def Stands (p : Primitives) (t : Jws) (calls : List Call) : Prop :=
  ∃ before c later, calls = before ++ c :: later ∧ c.Succeeds p (t.run p before) ∧
    ∀ between d rest, later = between ++ d :: rest →
      d.Spares (t.run p (before ++ c :: between))

/-- After any calls a token counts as valid exactly when the last verification that had
a payload has succeeded. -/
theorem Begun.isValid_run (h : Begun t) {calls : List Call} :
    (t.run p calls).isValid = true ↔ Stands p t calls :=
  Run.holds_iff (P := fun t : Jws => t.isValid = true) (fun _ c => isValid_after c) h.not_isValid

/-- Let a token be begun in any way, any calls be made on it, and a verification fail.
Then no payload can be had. With a payload to verify, all signatures are marked invalid;
without one, the error says so and the signatures are as before. So the token counts as
valid exactly when there was no payload and the last verification that had one has
succeeded. -/
theorem failed_verification_withdraws (hbegun : Begun t) {calls : List Call}
    (h : (t.run p calls).verify p keys alg detached = (.error error, after)) :
    after.payload? = none ∧
      ((detached <|> (t.run p calls).held).isSome → ∀ s ∈ after.signatures, s.state = .invalid) ∧
      ((detached <|> (t.run p calls).held) = none →
        error = .invalidOperation .payloadDetached ∧
          after.signatures = (t.run p calls).signatures) ∧
      (after.isValid = true ↔
        (detached <|> (t.run p calls).held) = none ∧ Stands p t calls) := by
  have hfails := fails_of_verify h
  refine ⟨?_, ?_, ?_, ?_⟩
  · cases hfails <;> rfl
  · cases hfails with
    | withoutPayload missing => simp [missing]
    | withoutSignatures present unsigned => simp [unsigned]
    | refused present => simp
  · cases hfails with
    | withoutPayload missing => simp
    | withoutSignatures present unsigned => simp [present]
    | refused present => simp [present]
  · rw [hfails.isValid, hbegun.isValid_run, and_comm]

/-! ### A payload taken out -/

/-- The token without a key is verified, and its payload taken out. -/
def detachingCalls : List Call :=
  [.setOptions { allowed := some [SigningAlgorithm.unsecured.name] },
    .verify (.single emptySecret) none none, .detach]

/-- The verification that follows, without a payload. -/
theorem verify_detached :
    ((unsecured.run .standard detachingCalls).verify .standard (.single emptySecret) none none).1 =
      .error (.invalidOperation .payloadDetached) := by decide +kernel

theorem detached_payload_withdrawn :
    ∃ after, (unsecured.run .standard detachingCalls).verify .standard (.single emptySecret) none
        none = (.error (.invalidOperation .payloadDetached), after) ∧ after.payload? = none ∧
      (after.isValid = true ↔
        (none <|> (unsecured.run .standard detachingCalls).held) = none ∧
          Stands .standard unsecured detachingCalls) := by
  have h := failed_verification_withdraws (p := .standard) (.read deserialize_unsecuredText)
    (Prod.ext verify_detached rfl)
  exact ⟨_, Prod.ext verify_detached rfl, h.1, h.2.2.2⟩

/-- A verification that fails does not always take the mark of an earlier success. -/
theorem valid_after_failed_verification :
    ¬ ∀ (t : Jws) (calls : List Call) (keys : KeySource) (error : Error) (after : Jws), Begun t →
      (t.run .standard calls).verify .standard keys none none = (.error error, after) →
        after.isValid = false := by
  intro h
  have hvalid : ((unsecured.run .standard detachingCalls).verify .standard (.single emptySecret)
      none none).2.isValid = true := by decide +kernel
  have hnot := h unsecured detachingCalls _ _ _ (.read deserialize_unsecuredText)
    (Prod.ext verify_detached rfl)
  exact Bool.false_ne_true (hnot.symm.trans hvalid)

end SealedToken.Jws
