import SealedToken.Proofs.Jws.Addition

/-!
A payload that is transported separately. Neither form of a token needs its payload: the compact
form leaves the place of it empty, and the JSON form leaves the member out. All else is written
and read as with the payload, so whoever is given the payload beside the token has the token
that was written with it, and verifies that one.
-/

namespace SealedToken.Jws

variable {p : Primitives} {t detached : Jws} {payload : ByteArray} {compact encoded : Bool}
  {text : String} {written : Option String} {keys : KeySource} {alg : Option String}
  {calls : List Call}

/-! ### Taking the payload out -/

theorem detach_eq : t.detach = (some payload, detached) ↔
    t.held = some payload ∧ detached = { t with held := none } := by
  rw [detach, Prod.mk.injEq, @eq_comm _ _ detached]

/-- The signatures stay, and with them what is asked of their headers. -/
theorem Writable.detach (h : Writable t) : Writable { t with held := none } :=
  ⟨h.text, h.own, h.mode⟩

/-! ### Writing without the payload -/

theorem compactText_none (h : t.compactText encoded written = .ok text) :
    ∃ text', ({ t with held := none } : Jws).compactText encoded none = .ok text' := by
  unfold compactText at h ⊢
  dsimp only at h ⊢
  split at h
  · -- nothing is written where the payload would stand, so there is no dot
    obtain ⟨hcompact, -⟩ := seq_eq_ok.1 h
    rw [hcompact, ok_bind, if_neg (by simp)]
    exact ⟨_, rfl⟩
  · simp at h

theorem jsonText_none (h : t.jsonText written = .ok text) :
    ∃ text', ({ t with held := none } : Jws).jsonText none = .ok text' := by
  unfold jsonText at h ⊢
  dsimp only at h ⊢
  split at h
  · simp at h
  · exact ⟨_, rfl⟩
  · exact ⟨_, rfl⟩

/-- A token that can be written can be written without its payload. -/
theorem exists_serialize_detached (h : t.serialize compact = .ok text) :
    ∃ text', ({ t with held := none } : Jws).serialize compact = .ok text' := by
  obtain ⟨encoded, hmode, h⟩ := bind_eq_ok.1 h
  obtain ⟨written, -, h⟩ := bind_eq_ok.1 h
  have hmode' : ({ t with held := none } : Jws).encodesPayload = .ok encoded := hmode
  rw [serialize, hmode', ok_bind, payloadText?, ok_bind]
  cases compact with
  | true => exact compactText_none h
  | false => exact jsonText_none h

/-! ### Verifying with the payload beside the token -/

/-- A payload that is given stands in for the one that a token holds. -/
theorem verify_given :
    t.verify p keys alg (some payload) =
      ({ t with held := some payload } : Jws).verify p keys alg none := rfl

/-- Without a payload there is nothing to verify, and none is released. -/
theorem verify_withoutPayload (h : t.held = none) :
    t.verify p keys alg none = (.error (.invalidOperation .payloadDetached),
      { t with trusted := false, log := [] }) := by
  simp [verify, h]

/-- Two tokens as they are read of a text that was written with the payload, and of one that was
written without it: the second is verified with the payload beside it as the first one is. -/
structure Detaches (p : Primitives) (payload : ByteArray) (compact : Bool)
    (attached detached : Jws) : Prop where
  /-- The verifications have the same outcome, and they leave the same token: the same marks, the
  same log, and the same payload if it is released. -/
  verify : ∀ options keys alg,
    ({ detached with options } : Jws).verify p keys alg (some payload) =
      ({ attached with options } : Jws).verify p keys alg none
  /-- The JSON form tells that there is no payload. -/
  missing : compact = false → ∀ options keys alg,
    ({ detached with options } : Jws).verify p keys alg none =
      (.error (.invalidOperation .payloadDetached), { detached with options })

theorem detaches_rereadToken :
    Detaches p payload compact (t.rereadToken (some payload))
      (t.rereadToken (if compact then some .empty else none)) where
  verify options keys alg := verify_given
  missing hcompact options keys alg := by
    subst hcompact
    exact verify_withoutPayload rfl

/-- Let a token be made of a payload or read, and any calls be made on it. If it can be written
in some form, it can be written in that form once its payload is taken out, and both texts are
read. Whoever is given the payload beside the second one verifies it as the first one is
verified, with any keys and options; without the payload its JSON form is never verified. -/
theorem detached_verifies_as_attached (hbegun : Begun t)
    (hdetach : (t.run p calls).detach = (some payload, detached))
    (hwritten : (t.run p calls).serialize compact = .ok text)
    (hreadable : HeadersReadable (t.run p calls)) :
    ∃ text' attached' detached', detached.serialize compact = .ok text' ∧
      deserialize text = .ok attached' ∧ deserialize text' = .ok detached' ∧
      Detaches p payload compact attached' detached' := by
  obtain ⟨hheld, rfl⟩ := detach_eq.1 hdetach
  have hwritable := (hbegun.coherent.run calls).writable hreadable
  obtain ⟨text', hwritten'⟩ := exists_serialize_detached hwritten
  have hread := deserialize_serialize_of_held hwritable hheld hwritten
  have hread' := deserialize_serialize hwritable.detach hwritten'
  exact ⟨text', _, _, hwritten', hread, hread', detaches_rereadToken⟩

/-! ### A payload that is not encoded -/

theorem readable_unencodedToken : HeadersReadable unencodedToken := by
  have hheaders : ∀ s ∈ unencodedToken.signatures, s.header = none ∧ s.protectedHeader =
      some (unencodedHeader.insert "alg" (.str (SigningAlgorithm.hmac .sha256).name)) := by
    decide +kernel
  have hplain : unencodedHeader.Codable (Json.nestingLimit - 1) :=
    (Object.codable_empty.insert ⟨.bool false, rfl⟩).insert
      ⟨.arr (by simp [Json.Readable.str]), rfl⟩
  refine ⟨fun s hs _ => ?_, fun s hs => ?_⟩
  · rw [(hheaders s hs).2]
    exact hplain.insert (Json.codable_str _)
  · rw [(hheaders s hs).1]
    exact Object.codable_empty

/-- A payload with a dot, which is signed as it is, stands in the JSON form or beside it. -/
theorem unencoded_payload_detached :
    ∃ text text' attached detached, unencodedToken.serialize false = .ok text ∧
      ({ unencodedToken with held := none } : Jws).serialize false = .ok text' ∧
      deserialize text = .ok attached ∧ deserialize text' = .ok detached ∧
      Detaches .standard "a.b".toUTF8 false attached detached := by
  obtain ⟨text, hwritten⟩ : ∃ text, unencodedToken.serialize false = .ok text :=
    isOk_iff.1 (by decide +kernel)
  have hdetach : unencodedToken.detach =
      (some "a.b".toUTF8, { unencodedToken with held := none }) :=
    detach_eq.2 ⟨by decide +kernel, rfl⟩
  obtain ⟨text', attached, detached, hwritten', hread, hread', h⟩ :=
    detached_verifies_as_attached (.made _) hdetach hwritten readable_unencodedToken
  exact ⟨text, text', attached, detached, hwritten, hwritten', hread, hread', h⟩

end SealedToken.Jws
