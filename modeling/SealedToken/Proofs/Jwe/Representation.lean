import SealedToken.Proofs.Jwe.Addition
import SealedToken.Proofs.Jwe.Delivery

/-!
What a token is made of. Its content comes with recipients, the key of the content with an
algorithm and in the size that this one asks for, and a token that was started has all its
recipients added under one algorithm. A token is therefore never written without a
recipient, and its content never encrypted again under a key of the wrong size.
-/

namespace SealedToken

/-- A header that is admitted hides nothing of what is there. -/
theorem HeaderRegistry.Admits.find?_union {registry : HeaderRegistry} {merged header : Object}
    {name : String} {value : Json} (h : registry.Admits merged header)
    (hvalue : merged.find? name = some value) :
    (merged.union header).find? name = some value := by
  have hnew : header.find? name = none := by
    rw [← Object.contains_eq_false_iff, ← Bool.not_eq_true]
    intro hname
    have hmerged := (h name hname).2
    simp [Object.contains_eq_isSome, hvalue] at hmerged
  rw [Object.find?_union, hnew, Option.none_or, hvalue]

namespace Jwe

variable {p : Primitives} {rng : Entropy} {t after : Jwe} {r : Recipient} {key : Jwk}
  {header : Option Object} {a : ContentEncryptionAlgorithm}

/-! ### The algorithm that headers name -/

/-- If a header names an algorithm of the content, then this one. -/
def NamesOnly (a : ContentEncryptionAlgorithm) (header : Object) : Prop :=
  ∀ value, header.find? "enc" = some value → value = .str a.name

section Headers

variable {one other : Object}

@[simp] theorem namesOnly_empty : NamesOnly a .empty := by
  simp [NamesOnly]

theorem NamesOnly.union (h : NamesOnly a one) (h' : NamesOnly a other) :
    NamesOnly a (one.union other) := by
  intro value hvalue
  rw [Object.find?_union, Option.or_eq_some_iff] at hvalue
  rcases hvalue with hvalue | ⟨-, hvalue⟩
  · exact h' value hvalue
  · exact h value hvalue

/-- What a union names its parts name, as none of them hides another. -/
theorem NamesOnly.of_union {registry : HeaderRegistry} (h : NamesOnly a (one.union other))
    (hadmits : registry.Admits one other) : NamesOnly a one ∧ NamesOnly a other := by
  refine ⟨fun value hvalue => h value (hadmits.find?_union hvalue), fun value hvalue => ?_⟩
  refine h value ?_
  rw [Object.find?_union, hvalue, Option.some_or]

/-- However far the members of a header are moved, nothing else is named. -/
theorem namesOnly_moveMembers {members : List (String × Json)} (h : NamesOnly a one)
    (hmembers : ∀ value, ("enc", value) ∈ members → value = .str a.name) :
    NamesOnly a (moveMembers one members).1 := by
  induction members generalizing one with
  | nil => exact h
  | cons m rest ih =>
      obtain ⟨name, value⟩ := m
      rw [moveMembers]
      split
      · exact h
      · refine ih (fun found hfound => ?_) fun found hfound =>
          hmembers found (List.mem_cons_of_mem _ hfound)
        rw [Object.find?_insert] at hfound
        split at hfound
        · next hname =>
            obtain rfl := Option.some.inj hfound
            subst hname
            exact hmembers value List.mem_cons_self
        · exact h found hfound

end Headers

/-- All headers of a token name one algorithm, or none. -/
structure Agrees (a : ContentEncryptionAlgorithm) (t : Jwe) : Prop where
  covered : NamesOnly a (t.protectedHeader.getD .empty)
  shared : NamesOnly a (t.sharedHeader.getD .empty)
  own : ∀ r ∈ t.recipients, NamesOnly a (r.header.getD .empty)

theorem Agrees.parameters (h : Agrees a t) (hr : r ∈ t.recipients) :
    NamesOnly a (t.parameters r.header) :=
  (h.covered.union h.shared).union (h.own r hr)

/-- A recipient that passes the checks has the algorithm that all headers name. -/
theorem Agrees.encryption_eq (h : Agrees a t) (hr : r ∈ t.recipients) (checked : Checked t r) :
    checked.encryption = a := by
  have hnamed := checked.encryptionNamed.named
  rw [← parameters_of_merged checked.merged] at hnamed
  have hname : checked.encryptionName = a.name := Json.str.inj (h.parameters hr _ hnamed)
  have hlookup := checked.encryptionRegistered
  rw [hname, a.lookup_name] at hlookup
  exact (Except.ok.inj hlookup).symm

theorem Agrees.moved (h : Agrees a t) (hr : t.recipients = [r]) : Agrees a (t.moved r) where
  covered := by
    refine namesOnly_moveMembers h.covered fun value hvalue => ?_
    have hown := h.own r (by simp [hr])
    exact hown value (Object.find?_of_mem hvalue)
  shared := h.shared
  own := by simp [Jwe.moved]

/-! ### Recipients that are added under one algorithm -/

/-- What holds of a token that was started: its headers name the algorithm that is held. -/
structure OneAlgorithm (t : Jwe) : Prop where
  started : Started t
  agrees : ∀ a, t.algorithm = some a → Agrees a t

theorem oneAlgorithm_ofPlaintext {plaintext : ByteArray}
    {protectedHeader sharedHeader : Option Object} :
    OneAlgorithm (ofPlaintext plaintext protectedHeader sharedHeader) :=
  ⟨started_ofPlaintext, by simp [ofPlaintext]⟩

/-- Behind a recipient the algorithm is held. -/
theorem OneAlgorithm.exists_algorithm (h : OneAlgorithm t) (hne : t.recipients ≠ []) :
    ∃ a, t.algorithm = some a := by
  have hcoherent := h.started.coherent
  have hkey := h.started.held (hcoherent.content.2 hne)
  exact Option.isSome_iff_exists.1 (hcoherent.algorithm.2 hkey)

section Adding

variable (added : Added p rng t key header)

/-- An algorithm that is held is the one that a recipient is added under. -/
theorem Added.encryption_eq (ha : t.algorithm = some a) : added.encryption = a := by
  have hsame := added.sameEncryption
  rw [checkSameAlgorithm, ha] at hsame
  dsimp only at hsame
  split at hsame
  · next heq => exact heq.symm
  · simp at hsame

/-- The header that its recipient is given names it, or one that all share does. -/
theorem Added.namesOnly :
    NamesOnly added.encryption (t.protectedHeader.getD .empty) ∧
      NamesOnly added.encryption (t.sharedHeader.getD .empty) ∧
      NamesOnly added.encryption (header.getD .empty) := by
  obtain ⟨hshared, hown, -, -⟩ := merged_eq_ok.1 added.merges
  have hmerged : NamesOnly added.encryption (t.common.union (header.getD .empty)) := by
    intro value hvalue
    have hnamed := added.encryptionNamed.named
    rw [← added.parameters_merged, Jwe.parameters, hvalue, Option.some.injEq] at hnamed
    rw [hnamed, ContentEncryptionAlgorithm.name_of_lookup added.encryptionRegistered]
  obtain ⟨hcommon, hheader⟩ := hmerged.of_union hown
  obtain ⟨hprotected, hshared⟩ := NamesOnly.of_union hcommon hshared
  exact ⟨hprotected, hshared, hheader⟩

/-- Nor does what is added to that header name another. -/
theorem Added.namesOnly_recipient :
    NamesOnly added.encryption (added.recipient.header.getD .empty) := by
  rw [added.recipient_header_getD]
  refine added.namesOnly.2.2.union fun value hvalue => ?_
  have hparameter := added.mem_parameters_of_extra (Object.contains_iff.2 ⟨value, hvalue⟩)
  exact absurd rfl (KeyManagementAlgorithm.ne_of_mem_parameters hparameter).2.1

theorem OneAlgorithm.agrees_added (h : OneAlgorithm t) : Agrees added.encryption added.after := by
  obtain ⟨hprotected, hshared, -⟩ := added.namesOnly
  refine ⟨by rwa [added.protectedHeader_eq], by rwa [added.sharedHeader_eq], fun r hr => ?_⟩
  rw [added.recipients_eq, List.mem_append, List.mem_singleton] at hr
  rcases hr with hr | rfl
  · obtain ⟨a, ha⟩ := h.exists_algorithm (List.ne_nil_of_mem hr)
    rw [added.encryption_eq ha]
    exact (h.agrees a ha).own r hr
  · exact added.namesOnly_recipient

/-- The algorithm that a recipient is added under is held then. -/
theorem OneAlgorithm.algorithm_added (h : OneAlgorithm t) :
    added.after.algorithm = some added.encryption := by
  rcases added.after_cases with ⟨hcontent, hafter⟩ | ⟨-, encrypted, -, hafter⟩
  · obtain ⟨a, ha⟩ := h.exists_algorithm (h.started.coherent.content.1 hcontent)
    rw [hafter, added.encryption_eq ha]
    exact ha
  · rw [hafter]

end Adding

/-! ### Any calls -/

/-- Once there is an algorithm, no call takes another. -/
theorem OneAlgorithm.algorithm_changes (h : OneAlgorithm t) (ha : t.algorithm = some a)
    (hchanges : Changes p t after) : after.algorithm = some a := by
  cases hchanges with
  | beside plaintext aad options log => exact ha
  | added added =>
      rw [h.algorithm_added added, added.encryption_eq ha]
  | opened plaintext contentKey log mem checked size =>
      exact congrArg some ((h.agrees a ha).encryption_eq mem checked)
  | moved moves => exact ha
  | sealed moves sealed =>
      obtain ⟨_, _, _, _, _, _, rfl⟩ := sealContent_eq_ok.1 sealed
      exact ha

theorem OneAlgorithm.changes (h : OneAlgorithm t) (hchanges : Changes p t after) :
    OneAlgorithm after := by
  refine ⟨h.started.changes hchanges, fun b hb => ?_⟩
  cases hchanges with
  | beside plaintext aad options log =>
      obtain ⟨hprotected, hshared, hown⟩ := h.agrees b hb
      exact ⟨hprotected, hshared, hown⟩
  | added added =>
      obtain rfl := Option.some.inj ((h.algorithm_added added).symm.trans hb)
      exact h.agrees_added added
  | opened plaintext contentKey log mem checked size =>
      obtain ⟨a, ha⟩ := h.exists_algorithm (List.ne_nil_of_mem mem)
      have hagrees := h.agrees a ha
      obtain rfl := Option.some.inj hb
      rw [hagrees.encryption_eq mem checked]
      exact ⟨hagrees.covered, hagrees.shared, hagrees.own⟩
  | moved moves => exact (h.agrees b hb).moved (compactRecipient_eq_ok.1 moves.recipient).1
  | sealed moves sealed =>
      obtain ⟨_, _, _, _, _, _, rfl⟩ := sealContent_eq_ok.1 sealed
      have hmoved := (h.agrees b hb).moved (compactRecipient_eq_ok.1 moves.recipient).1
      exact ⟨hmoved.covered, hmoved.shared, hmoved.own⟩

theorem OneAlgorithm.run (h : OneAlgorithm t) (calls : List Call) : OneAlgorithm (t.run p calls) :=
  List.foldlRecOn calls (Call.after p) h fun _ hbefore c _ => hbefore.changes (changes_of_call c)

theorem OneAlgorithm.algorithm_run (h : OneAlgorithm t) (ha : t.algorithm = some a)
    (calls : List Call) : (t.run p calls).algorithm = some a := by
  induction calls generalizing t with
  | nil => exact ha
  | cons c rest ih =>
      have hchanges : Changes p t (c.after p t) := changes_of_call c
      exact ih (h.changes hchanges) (h.algorithm_changes ha hchanges)

theorem run_addRecipient (added : Added p rng t key header) (later : List Call) :
    t.run p (.addRecipient rng key header :: later) = added.after.run p later := by
  have hadd : t.addRecipient p rng key header = .ok added.after := addRecipient_iff.2 ⟨added, rfl⟩
  rw [run, List.foldl_cons, Call.after, hadd]
  rfl

/-- A token was started, and between earlier and later calls on it a recipient was added under
an algorithm. -/
inductive AddedUnder (p : Primitives) (t : Jwe) (a : ContentEncryptionAlgorithm) : Prop
  | called {rng : Entropy} {before : Jwe} {key : Jwk} {header : Option Object}
      (plaintext : ByteArray) (protectedHeader sharedHeader : Option Object)
      (earlier later : List Call)
      (started : (ofPlaintext plaintext protectedHeader sharedHeader).run p earlier = before)
      (added : Added p rng before key header) (under : added.encryption = a)
      (ends : added.after.run p later = t)

/-- Whenever that was, it is the algorithm that the token holds. -/
theorem AddedUnder.algorithm_eq (h : AddedUnder p t a) : t.algorithm = some a := by
  cases h with
  | @called _ before _ _ _ _ _ earlier later started added under ends =>
      have hbefore : OneAlgorithm before := started ▸ oneAlgorithm_ofPlaintext.run earlier
      have hafter : OneAlgorithm added.after := hbefore.changes (.added added)
      rw [← ends, ← under]
      exact hafter.algorithm_run (hbefore.algorithm_added added) later

/-! ### What a token is written as -/

/-- Errors that no writing of a token ends with. -/
def isUnreached : Error → Bool
  | .invalidOperation .compactUnencrypted => true
  | .invalidKeyLength _ _ => true
  | _ => false

theorem avoids_compresses {protectedHeader : Option Object} :
    Avoids isUnreached (compresses protectedHeader) := by
  unfold compresses Header.text?
  split
  · simp
  · simp only [Avoids.bind_iff]
    refine ⟨by split <;> simp [isUnreached], fun name? _ => ?_⟩
    cases name? <;> simp [isUnreached]

/-- A key of the right size is no reason for an encryption to fail. -/
theorem avoids_sealContent {contentKey : ByteArray} (hsize : contentKey.size = a.keyBytes) :
    Avoids isUnreached (t.sealContent p rng a contentKey) := by
  intro error h
  rcases sealContent_eq_error hsize h with ⟨-, rfl⟩ | hcompresses
  · rfl
  · exact avoids_compresses error hcompresses

/-- A single recipient and its content are all that the compact form has to have. -/
theorem avoids_compactText (hcontent : t.content.isSome = true) (hr : t.recipients = [r]) :
    Avoids isUnreached t.compactText := by
  obtain ⟨content, hcontent⟩ := Option.isSome_iff_exists.1 hcontent
  rw [compactText, hcontent, hr]
  simp [isUnreached]

theorem avoids_compactRecipient : Avoids isUnreached t.compactRecipient := by
  unfold compactRecipient
  split <;> simp [isUnreached]

theorem Coherent.avoids_protectHeader (h : Coherent t) :
    Avoids isUnreached (t.protectHeader p rng r).1 := by
  unfold protectHeader
  split
  · next a contentKey ha hkey =>
      have hsealed : Avoids isUnreached ((t.moved r).sealContent p rng a contentKey) :=
        avoids_sealContent (h.size a contentKey ha hkey)
      dsimp only
      split
      · simp [isUnreached]
      · split
        · simp
        · next error hseal => exact Avoids.error_iff.2 (hsealed error hseal)
  · simp [isUnreached]

/-- A header that has been protected leaves one recipient, with the content. -/
theorem content_of_protectHeader (h : t.protectHeader p rng r = (.ok (), after)) :
    after.content.isSome = true ∧ after.recipients = [{ r with header := none }] := by
  unfold protectHeader at h
  split at h
  · dsimp only at h
    split at h
    · simp at h
    · split at h
      · next sealed hseal =>
          obtain ⟨_, _, _, _, _, _, rfl⟩ := sealContent_eq_ok.1 hseal
          obtain rfl := (Prod.mk.inj h).2
          exact ⟨rfl, rfl⟩
      · simp at h
  · simp at h

theorem Coherent.avoids_serialize (h : Coherent t) {compact : Bool} :
    Avoids isUnreached (t.serialize p rng compact).1 := by
  unfold serialize
  split
  · simp [isUnreached]
  · next content hcontent =>
      cases compact with
      | false => simp
      | true =>
          rw [if_pos rfl, serializeCompact]
          split
          · next error herror => exact Avoids.error_iff.2 (avoids_compactRecipient error herror)
          · next r hrecipient =>
              split
              · obtain ⟨hr, -, -⟩ := compactRecipient_eq_ok.1 hrecipient
                exact avoids_compactText (by simp [hcontent]) hr
              · have hprotect : Avoids isUnreached (t.protectHeader p rng r).1 :=
                  h.avoids_protectHeader
                split
                · next error after heq =>
                    rw [heq] at hprotect
                    exact Avoids.error_iff.2 (Avoids.error_iff.1 hprotect)
                · next after heq =>
                    obtain ⟨hcontent, hr⟩ := content_of_protectHeader heq
                    exact avoids_compactText hcontent hr

/-- What a token is written with in its JSON form for its recipients: the members of a single
one, or a list of two or more. There is nothing that it is written with for none. -/
inductive Lists : List Recipient → List (String × Json) → Prop
  | single (r : Recipient) : Lists [r] (recipientMembers r)
  | several (r s : Recipient) (rest : List Recipient) :
      Lists (r :: s :: rest)
        [("recipients", .arr ((r :: s :: rest).map fun r => .obj (recipientMembers r)))]

theorem Coherent.lists_serialize (h : Coherent t) {text : String}
    (hwritten : t.serialize p rng false = (.ok text, after)) :
    ∃ content members, t.content = some content ∧ Lists t.recipients members ∧
      text = (Json.obj (t.sharedMembers content ++ members)).print := by
  unfold serialize at hwritten
  split at hwritten
  · simp at hwritten
  · next content hcontent =>
      obtain rfl := Except.ok.inj (Prod.mk.inj hwritten).1
      have hne : t.recipients ≠ [] := h.content.1 (by simp [hcontent])
      rw [jsonText]
      split
      · next r hr => exact ⟨content, _, hcontent, hr ▸ .single r, rfl⟩
      · next hmany =>
          match hr : t.recipients with
          | [] => exact absurd hr hne
          | [r] => exact absurd hr (hmany r)
          | r :: s :: rest => exact ⟨content, _, hcontent, .several r s rest, rfl⟩

/-- None of the members is an empty list of recipients. -/
theorem Lists.not_mem {rs : List Recipient} {members : List (String × Json)} (h : Lists rs members)
    (content : EncryptedContent) :
    ("recipients", Json.arr []) ∉ t.sharedMembers content ++ members := by
  intro hmem
  rcases List.mem_append.1 hmem with hmem | hmem
  · have hname := names_sharedMembers.subset (List.mem_map_of_mem hmem)
    revert hname
    decide
  · cases h with
    | single r =>
        have hname := names_recipientMembers.subset (List.mem_map_of_mem hmem)
        revert hname
        decide
    | several r s rest => simp at hmem

/-- The parts of a token fit together, and it is written accordingly. -/
structure Fits (p : Primitives) (t : Jwe) : Prop where
  /-- There is a content as soon as there is a recipient. -/
  content : t.content.isSome = true ↔ t.recipients ≠ []
  /-- With the key of the content its algorithm is held. -/
  algorithm : t.algorithm.isSome = true ↔ t.contentKey.isSome = true
  /-- The key has the size that the algorithm asks for. -/
  size : ∀ a contentKey, t.algorithm = some a → t.contentKey = some contentKey →
    contentKey.size = a.keyBytes
  /-- If the token was started, its recipients were all added under one algorithm: the one
  that is held. -/
  uniform : ∀ a, AddedUnder p t a → t.algorithm = some a
  /-- The JSON form has the recipients in it, and never an empty list of them. -/
  listed : ∀ rng text after, t.serialize p rng false = (.ok text, after) →
    ∃ content members, t.content = some content ∧ Lists t.recipients members ∧
      ("recipients", Json.arr []) ∉ t.sharedMembers content ++ members ∧
      text = (Json.obj (t.sharedMembers content ++ members)).print
  /-- The compact form never lacks the content. -/
  encrypted : ∀ rng compact,
    (t.serialize p rng compact).1 ≠ .error (.invalidOperation .compactUnencrypted)
  /-- Where the content is encrypted again for it, the key has the right size. -/
  sized : ∀ rng compact expected found,
    (t.serialize p rng compact).1 ≠ .error (.invalidKeyLength expected found)

/-- Let a token be started or read, and any calls be made on it, whether or not they succeed:
its parts fit together. -/
theorem parts_fit (h : Reachable p t) : Fits p t where
  content := h.coherent.content
  algorithm := h.coherent.algorithm
  size := h.coherent.size
  uniform a hadded := hadded.algorithm_eq
  listed rng text after hwritten := by
    obtain ⟨content, members, hcontent, hlists, htext⟩ := h.coherent.lists_serialize hwritten
    exact ⟨content, members, hcontent, hlists, hlists.not_mem content, htext⟩
  encrypted rng compact hfailed := by
    have hreached := h.coherent.avoids_serialize _ hfailed
    simp [isUnreached] at hreached
  sized rng compact expected found hfailed := by
    have hreached := h.coherent.avoids_serialize _ hfailed
    simp [isUnreached] at hreached

/-- Two recipients of one content: the secret of the first is its key, and the second has it
encrypted. -/
theorem two_recipients_fit :
    ∃ t, Reachable .standard t ∧ t.recipients.length = 2 ∧
      AddedUnder .standard t (.gcm .aes128) ∧ Fits .standard t := by
  obtain ⟨first, second, -, -, halgorithm, -⟩ := exists_twoAdded
  have hfirst : unshared.run .standard [.addRecipient zeros zeroKey (some directHeader)] =
      first.after :=
    run_addRecipient first []
  have hsecond : first.after.run .standard [.addRecipient zeros wideKey (some gcmWrapHeader)] =
      second.after :=
    run_addRecipient second []
  have hreachable : Reachable .standard second.after := by
    have hone : Reachable .standard first.after := hfirst ▸ .started _ _ _ _
    exact hsecond ▸ hone.run _
  have hunder : AddedUnder .standard second.after second.encryption :=
    .called _ _ _ _ [] hfirst second rfl rfl
  have hencryption : second.encryption = .gcm .aes128 :=
    Option.some.inj (hunder.algorithm_eq.symm.trans halgorithm)
  refine ⟨second.after, hreachable, ?_, hencryption ▸ hunder, parts_fit hreachable⟩
  rw [second.recipients_eq, first.recipients_eq]
  rfl

end Jwe

end SealedToken
