import SealedToken.Jws.Sign
import SealedToken.Jws.Text
import SealedToken.Primitives.Standard
import SealedToken.Proofs.Jws.Acceptance
import SealedToken.Proofs.Run

/-!
When the payload of a token that was read is released. Whatever is called on the
token, and in which order: a payload that can be had was checked by the last
verification, and by it alone.
-/

namespace SealedToken.Jws

variable {p : Primitives} {t : Jws} {keys : KeySource} {alg : Option String}
  {detached : Option ByteArray} {payload : ByteArray}

/-! ### One verification -/

/-- With a payload and a signature there is something to verify. -/
theorem verify_eq_verifyAll (p : Primitives) (keys : KeySource) (alg : Option String)
    (hheld : (detached <|> t.held) = some payload) (hs : t.signatures ≠ []) :
    t.verify p keys alg detached =
      ({ t with held := some payload, trusted := false, log := [] } : Jws).verifyAll p payload
        keys alg := by
  simp [verify, hheld, hs]

/-- What a verification has found that releases a payload. -/
structure Releases (p : Primitives) (t : Jws) (keys : KeySource) (alg : Option String)
    (detached : Option ByteArray) (payload : ByteArray) : Prop where
  succeeded : (t.verify p keys alg detached).1 = .ok ()
  checked : (detached <|> t.held) = some payload
  /-- A signature that is accepted, and marked valid by this verification. -/
  accepted : ∃ (i : Nat) (s : SealedToken.Signature), t.signatures[i]? = some s ∧
    (t.verify p keys alg detached).2.signatures[i]? = some { s with state := .valid } ∧
    Accepts p t.options payload keys alg s

/-- A verification that leaves a payload to be had has checked that payload. -/
theorem releases_of_verify (h : (t.verify p keys alg detached).2.payload? = some payload) :
    Releases p t keys alg detached payload := by
  cases hheld : (detached <|> t.held) with
  | none =>
      -- the early returns come after trust was withdrawn
      simp [verify, hheld, payload?] at h
  | some held =>
      by_cases hs : t.signatures = []
      · simp [verify, hheld, hs, payload?] at h
      · have hverify := verify_eq_verifyAll p keys alg hheld hs
        rw [hverify, payload?, Option.ite_none_right_eq_some, verifyAll_held] at h
        obtain ⟨htrusted, hpayload⟩ := h
        obtain rfl : held = payload := by simpa using hpayload
        have hok := (verifyAll_trusted rfl).1 htrusted
        obtain ⟨s, hs, haccepts⟩ := verifyAll_eq_ok.1 hok
        obtain ⟨i, hi⟩ := List.mem_iff_getElem?.1 hs
        refine ⟨by rw [hverify, hok], hheld, i, s, hi, ?_, haccepts⟩
        rw [hverify, verifyAll_signatures, List.getElem?_map, hi, Option.map_some,
          verifyOne_eq_ok.2 haccepts]
        rfl

/-! ### Runs -/

/-- A call on a signed token. -/
inductive Call
  | setOptions (options : JwsOptions)
  | addSignature (rng : Entropy) (key : Jwk) (alg : Option String)
      (protectedHeader header : Option Object)
  | verify (keys : KeySource) (alg : Option String) (detached : Option ByteArray)
  | detach
  | serialize (compact : Bool)
  | headerAt (index : Nat)

/-- Is the call a verification? -/
def Call.verifies : Call → Bool
  | .verify .. => true
  | _ => false

/-- The token after a call, which may have failed. Writing a token and looking at its
headers do not change it. -/
def Call.after (p : Primitives) (t : Jws) : Call → Jws
  | .setOptions options => { t with options }
  | .addSignature rng key alg protectedHeader header =>
      match t.addSignature p rng key alg protectedHeader header with
      | .ok signed => signed
      | .error _ => t
  | .verify keys alg detached => (t.verify p keys alg detached).2
  | .detach => t.detach.2
  | .serialize _ | .headerAt _ => t

/-- The token after a sequence of calls. -/
def run (p : Primitives) (t : Jws) (calls : List Call) : Jws := calls.foldl (Call.after p) t

theorem addSignature_payload? {rng : Entropy} {key : Jwk} {protectedHeader header : Option Object}
    {signed : Jws} (h : t.addSignature p rng key alg protectedHeader header = .ok signed) :
    signed.payload? = t.payload? := by
  simp only [addSignature, bind_eq_ok, pure_eq_ok, Except.ok.injEq] at h
  obtain ⟨s, -, rfl⟩ := h
  rfl

/-- Only a verification releases a payload that could not be had before. -/
theorem payload?_of_after {c : Call} (hc : c.verifies = false)
    (h : (c.after p t).payload? = some payload) : t.payload? = some payload := by
  cases c with
  | setOptions options => exact h
  | addSignature rng key alg protectedHeader header =>
      rw [Call.after] at h
      split at h
      · next signed hsigned => rwa [addSignature_payload? hsigned] at h
      · exact h
  | verify keys alg detached => simp [Call.verifies] at hc
  | detach =>
      have hnone : (t.detach).2.payload? = none := ite_self none
      simp [Call.after, hnone] at h
  | serialize compact => exact h
  | headerAt index => exact h

/-- A token is read in one of its forms, and all its signatures have the mode of the
first. -/
theorem deserialize_eq_ok {raw : String} :
    deserialize raw = .ok t ↔
      ∃ held signatures,
        (if Json.startsObject (Text.trim raw) then readJson (Text.trim raw)
          else readCompact (Text.trim raw)) = .ok (held, signatures) ∧
        (∀ first rest, signatures = first :: rest → checkModes first signatures = .ok ()) ∧
        t = { held, trusted := false, signatures } := by
  unfold deserialize
  dsimp only
  rw [ite_bind_eq_ok]
  constructor
  · rintro ⟨⟨held, _ | ⟨first, rest⟩⟩, hread, h⟩
    · exact ⟨held, [], hread, by simp, (Except.ok.inj h).symm⟩
    · obtain ⟨hmodes, h⟩ := seq_eq_ok.1 h
      refine ⟨held, first :: rest, hread, ?_, (Except.ok.inj h).symm⟩
      rintro _ _ heq
      obtain ⟨rfl, rfl⟩ := List.cons.inj heq
      exact hmodes
  · rintro ⟨held, _ | ⟨first, rest⟩, hread, hmodes, rfl⟩
    · exact ⟨(held, []), hread, rfl⟩
    · exact ⟨(held, first :: rest), hread, seq_eq_ok.2 ⟨hmodes first rest rfl, rfl⟩⟩

/-- What the three segments of the compact form are read as. -/
theorem segments_of_readCompact {text : String} {held : Option ByteArray}
    {signatures : List SealedToken.Signature} (h : readCompact text = .ok (held, signatures)) :
    ∃ protectedText payloadText bytesText s payload,
      Text.segments text = [protectedText, payloadText, bytesText] ∧
        readSignature protectedText none bytesText = .ok s ∧
        readPayload payloadText s.protectedHeader = .ok payload ∧
        held = some payload ∧ signatures = [s] := by
  unfold readCompact at h
  split at h
  · next protectedText payloadText bytesText hsegments =>
      simp only [bind_eq_ok, pure_eq_ok, Except.ok.injEq, Prod.mk.injEq] at h
      obtain ⟨s, hs, payload, hpayload, rfl, rfl⟩ := h
      exact ⟨_, _, _, s, payload, hsegments, hs, hpayload, rfl, rfl⟩
  · simp at h

theorem deserialize_payload? {raw : String} (h : deserialize raw = .ok t) : t.payload? = none := by
  obtain ⟨held, signatures, -, -, rfl⟩ := deserialize_eq_ok.1 h
  rfl

/-- The last verification among the calls is the one that has checked a payload. -/
def CheckedLast (p : Primitives) (t : Jws) (calls : List Call) (payload : ByteArray) : Prop :=
  ∃ before keys alg detached after, calls = before ++ .verify keys alg detached :: after ∧
    (∀ c ∈ after, c.verifies = false) ∧ Releases p (t.run p before) keys alg detached payload

/-- Let a token be read and any calls be made on it. If a payload can be had then, the
last verification among the calls has succeeded and has checked that very payload:
under the options of that time, a signature was accepted that it marked valid. By
default no signature is accepted that was made without a key. -/
theorem payload_checked_by_last_verification {raw : String} (hread : deserialize raw = .ok t)
    {calls : List Call} (h : (t.run p calls).payload? = some payload) :
    CheckedLast p t calls payload ∧
      ¬ Algorithm.Permitted none SigningAlgorithm.unsecured.name := by
  refine ⟨?_, Algorithm.not_permitted_unsecured⟩
  -- the payload is traced back from the end to the call that released it
  have hstep (t : Jws) (c : Call) (hc : (c.after p t).payload? = some payload) :
      (∃ keys alg detached, c = .verify keys alg detached ∧
        Releases p t keys alg detached payload) ∨
      t.payload? = some payload ∧ c.verifies = false := by
    cases c with
    | verify keys alg detached => exact .inl ⟨_, _, _, rfl, releases_of_verify hc⟩
    | _ => exact .inr ⟨payload?_of_after rfl hc, rfl⟩
  have hs : t.payload? ≠ some payload := by simp [deserialize_payload? hread]
  obtain ⟨before, c, after, rfl, ⟨keys, alg, detached, rfl, hreleases⟩, hafter⟩ :=
    Run.exists_origin (P := fun t : Jws => t.payload? = some payload) hstep hs h
  exact ⟨before, keys, alg, detached, after, rfl, hafter, hreleases⟩

/-! ### A token without a key -/

/-- A token that is signed without a key, over the empty object. -/
def unsecuredText : String := "eyJhbGciOiJub25lIn0.e30."

def unsecured : Jws where
  held := some "\x7b\x7d".toUTF8
  trusted := false
  signatures := [
    { protectedHeader := some (.ofMembers [("alg", .str SigningAlgorithm.unsecured.name)])
      protectedText := "eyJhbGciOiJub25lIn0"
      header := none
      bytes := .empty }]

/-- The key that stands for no key. -/
def emptySecret : Jwk := { material := .oct .empty }

/-- A verification that fails, one that succeeds, and calls that change nothing. -/
def unsecuredCalls : List Call :=
  [.verify (.single emptySecret) (some "HS256") none,
    .setOptions { allowed := some [SigningAlgorithm.unsecured.name] },
    .verify (.single emptySecret) none none, .serialize true, .headerAt 1]

theorem deserialize_unsecuredText : deserialize unsecuredText = .ok unsecured :=
  toOption_eq_some.1 (by decide +kernel)

theorem unsecured_payload_checked :
    (unsecured.run .standard unsecuredCalls).payload? = some "\x7b\x7d".toUTF8 ∧
      CheckedLast .standard unsecured unsecuredCalls "\x7b\x7d".toUTF8 :=
  have h : (unsecured.run .standard unsecuredCalls).payload? = some "\x7b\x7d".toUTF8 := by
    decide +kernel
  ⟨h, (payload_checked_by_last_verification deserialize_unsecuredText h).1⟩

end SealedToken.Jws
