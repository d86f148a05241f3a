import SealedToken.Proofs.Json.Unambiguous
import SealedToken.Proofs.Jwt.RoundTrip

/-!
Claims and the payload that carries them. Nothing in the payload tells an object from a text:
what spells an object is read as that object, and all else as a text. So an object is read as
itself and a text as itself, unless it spells an object. A token inside a token is such a text
or not by its form. The compact form does not begin with a brace, which every text of an object
does; the JSON form is an object, or nobody would read it as a token.
-/

namespace SealedToken

/-! ### Texts of objects -/

namespace Text

/-- A text begins with its first character that is no white space, once that is cut off. -/
theorem head?_trim {text : String} {c : Char} {left : List Char} (hc : isBlank c = false)
    (h : text.toList.dropWhile isBlank = c :: left) : (trim text).toList.head? = some c := by
  rw [trim, String.toList_ofList, trimChars, h, List.reverse_cons, List.dropWhile_append]
  split
  · rw [List.dropWhile_cons_of_neg (by simp [hc])]
    rfl
  · rw [List.reverse_append]
    rfl

end Text

namespace Json

variable {fuel : Nat} {purpose : Purpose} {cs rest : List Char} {v : Json}

theorem kind_of_items? {done : List Json} (h : items? fuel purpose done cs = some (v, rest)) :
    v.kind = .arr := by
  induction fuel generalizing done cs with
  | zero => simp [items?] at h
  | succ fuel ih =>
      rw [items?] at h
      split at h
      · simp at h
      · split at h
        · exact ih h
        · obtain ⟨rfl, -⟩ := Prod.mk.inj (Option.some.inj h)
          rfl
        · simp at h

theorem kind_of_numberFor (h : numberFor purpose cs = some (v, rest)) : v.kind ≠ .obj := by
  obtain ⟨⟨t, left⟩, -, h⟩ := Option.bind_eq_some_iff.1 h
  cases purpose with
  | keep levels =>
      obtain ⟨n, -, h⟩ := Option.map_eq_some_iff.1 h
      obtain ⟨rfl, -⟩ := Prod.mk.inj h
      simp [kind]
  | skip =>
      obtain ⟨rfl, -⟩ := Prod.mk.inj (Option.some.inj h)
      simp [kind]

/-- A value that begins with no brace is no object. -/
theorem dropBlanks_of_kind (hkind : v.kind = .obj)
    (h : value? fuel purpose cs = some (v, rest)) : ∃ left, dropBlanks cs = '{' :: left := by
  cases fuel with
  | zero => simp [value?] at h
  | succ fuel =>
      rw [value?] at h
      split at h
      · obtain ⟨rfl, -⟩ := Prod.mk.inj (Option.some.inj h)
        simp [kind] at hkind
      · obtain ⟨rfl, -⟩ := Prod.mk.inj (Option.some.inj h)
        simp [kind] at hkind
      · obtain ⟨rfl, -⟩ := Prod.mk.inj (Option.some.inj h)
        simp [kind] at hkind
      · obtain ⟨⟨text, left⟩, -, h⟩ := Option.map_eq_some_iff.1 h
        obtain ⟨rfl, -⟩ := Prod.mk.inj h
        simp [kind] at hkind
      · split at h
        · simp at h
        · split at h
          · obtain ⟨rfl, -⟩ := Prod.mk.inj (Option.some.inj h)
            simp [kind] at hkind
          · simp [kind_of_items? h] at hkind
      · next left heq => exact ⟨left, heq⟩
      · exact absurd hkind (kind_of_numberFor h)

theorem kind_canonical : v.canonical.kind = v.kind := by
  cases v <;> rfl

theorem kind_of_asObject? {o : Object} (h : v.asObject? = some o) : v.kind = .obj := by
  cases v <;> simp [asObject?, kind] at h ⊢

/-- The white space of a text of JSON is white space. -/
theorem dropWhile_of_dropBlanks {c : Char} {left : List Char} (hc : Text.isBlank c = false)
    (h : dropBlanks cs = c :: left) : cs.dropWhile Text.isBlank = c :: left := by
  induction cs with
  | nil => simp [dropBlanks] at h
  | cons first others ih =>
      rw [dropBlanks, List.dropWhile_cons] at h
      split at h
      · next hblank =>
          have hfirst : Text.isBlank first = true := by
            simp only [isBlank, Bool.or_eq_true, beq_iff_eq] at hblank
            rcases hblank with ((rfl | rfl) | rfl) | rfl <;> decide
          rw [List.dropWhile_cons_of_pos hfirst]
          exact ih h
      · obtain ⟨rfl, rfl⟩ := List.cons.inj h
        exact List.dropWhile_cons_of_neg (by simp [hc])

/-- A text of an object begins with a brace, apart from white space. -/
theorem startsObject_of_parse? {text : String} {o : Object}
    (h : (parse? text).bind asObject? = some o) : startsObject (Text.trim text) = true := by
  obtain ⟨v, hv, hobject⟩ := Option.bind_eq_some_iff.1 h
  unfold parse? at hv
  split at hv
  · next value rest hread =>
      split at hv
      · obtain rfl := Option.some.inj hv
        have hkind := kind_canonical.symm.trans (kind_of_asObject? hobject)
        obtain ⟨left, hleft⟩ := dropBlanks_of_kind hkind hread
        have hbrace : Text.isBlank '{' = false := by decide
        rw [startsObject, Text.head?_trim hbrace (dropWhile_of_dropBlanks hbrace hleft)]
        rfl
      · simp at hv
  · simp at hv

end Json

/-! ### Claims as they come back -/

namespace Claims

variable {t : String} {o : Object}

/-- The text of an object, with any white space around it. -/
def Spells (t : String) (o : Object) : Prop := (Json.parse? t).bind Json.asObject? = some o

theorem ofPayload_of_spells (h : Spells t o) : ofPayload (toPayload (.text t)) = .ok (.object o) := by
  rw [ofPayload, toPayload, Json.parseBytes?_toUTF8, h]

theorem codable_text_iff : (Claims.text t).Codable ↔ ∀ o, ¬ Spells t o :=
  Option.eq_none_iff_forall_ne_some

/-- A text comes back as itself unless it spells an object. -/
theorem ofPayload_eq_text_iff :
    ofPayload (toPayload (.text t)) = .ok (.text t) ↔ ∀ o, ¬ Spells t o := by
  constructor
  · intro h o hspells
    rw [ofPayload_of_spells hspells] at h
    simp at h
  · intro h
    exact ofPayload_toPayload (codable_text_iff.2 h)

theorem ofPayload_eq_object_iff :
    ofPayload (toPayload (.text t)) = .ok (.object o) ↔ Spells t o := by
  refine ⟨fun h => ?_, ofPayload_of_spells⟩
  by_cases hspells : ∃ other, Spells t other
  · obtain ⟨other, hother⟩ := hspells
    rw [ofPayload_of_spells hother] at h
    obtain rfl := Claims.object.inj (Except.ok.inj h)
    exact hother
  · rw [ofPayload_eq_text_iff.2 (not_exists.1 hspells)] at h
    simp at h

/-- A text that is read as a token and begins with a brace spells an object. -/
theorem exists_spells_of_readCarrier {receiver : Jwt} {carrier : Carrier}
    (hread : receiver.readCarrier t = .ok carrier) (hbrace : Json.startsObject t = true) :
    ∃ o, Spells t o := by
  obtain ⟨kind, hkind, -⟩ := bind_eq_ok.1 hread
  rw [Jwt.kindOfText, if_pos hbrace] at hkind
  split at hkind
  · simp at hkind
  · next o ho => exact ⟨o, ho⟩

/-- What is read from the payload of claims. An object comes back as the same object. A text
comes back, as the same text if it spells no object, and else as the object that it spells. So
a text that begins with no brace comes back as it was, such as every token in its compact form;
and a token in its JSON form comes back as an object. -/
theorem payload_reread :
    (∀ members : Object, members.Codable (Json.nestingLimit - 1) →
      ofPayload (toPayload (.object members)) = .ok (.object members)) ∧
    (∀ t, (ofPayload (toPayload (.text t)) = .ok (.text t) ↔ ∀ o, ¬ Spells t o) ∧
      ∀ o, ofPayload (toPayload (.text t)) = .ok (.object o) ↔ Spells t o) ∧
    (∀ t, Json.startsObject (Text.trim t) = false →
      ofPayload (toPayload (.text t)) = .ok (.text t)) ∧
    ∀ (receiver : Jwt) t carrier, receiver.readCarrier t = .ok carrier →
      Json.startsObject t = true → ∃ o, ofPayload (toPayload (.text t)) = .ok (.object o) := by
  refine ⟨fun members hcodable => ?_, fun t => ⟨ofPayload_eq_text_iff, fun o => ?_⟩,
    fun t hbrace => ?_, fun receiver t carrier hread hbrace => ?_⟩
  · exact @ofPayload_toPayload (.object members) hcodable
  · exact ofPayload_eq_object_iff
  · apply ofPayload_eq_text_iff.2
    intro o hspells
    rw [Json.startsObject_of_parse? hspells] at hbrace
    contradiction
  · obtain ⟨o, hspells⟩ := exists_spells_of_readCarrier hread hbrace
    exact ⟨o, ofPayload_of_spells hspells⟩

def datedMembers : Object := .ofMembers [("sub", .str "alice"), ("exp", .int 10)]

/-- An object, and a token inside a token in each of its forms. -/
theorem nested_forms_reread :
    ofPayload (toPayload (.object datedMembers)) = .ok (.object datedMembers) ∧
    Jws.unsecured.serialize true = .ok Jws.unsecuredText ∧
    ofPayload (toPayload (.text Jws.unsecuredText)) = .ok (.text Jws.unsecuredText) ∧
    ∃ t o, Jws.unsecured.serialize false = .ok t ∧
      ofPayload (toPayload (.text t)) = .ok (.object o) := by
  obtain ⟨hobject, -, hcompact, hjson⟩ := payload_reread
  have hcodable : datedMembers.Codable (Json.nestingLimit - 1) :=
    (Object.codable_empty.insert (Json.codable_str _)).insert
      (Json.codable_int (by decide) (by decide))
  refine ⟨hobject _ hcodable, toOption_eq_some.1 (by decide +kernel),
    hcompact _ (by decide +kernel), ?_⟩
  have hread : (Jws.unsecured.serialize false >>= fun t =>
      (({} : Jwt).readCarrier t).map fun _ => Json.startsObject t) = .ok true :=
    toOption_eq_some.1 (by decide +kernel)
  obtain ⟨t, hwritten, hread⟩ := bind_eq_ok.1 hread
  obtain ⟨carrier, hread, hbrace⟩ := map_eq_ok.1 hread
  obtain ⟨o, ho⟩ := hjson {} t carrier hread hbrace
  exact ⟨t, o, hwritten, ho⟩

/-- A token in its JSON form is a text that does not come back. -/
theorem nested_text_not_kept :
    ∃ t, Jws.unsecured.serialize false = .ok t ∧
      ofPayload (toPayload (.text t)) ≠ .ok (.text t) := by
  have hspells : (Jws.unsecured.serialize false).toOption.any (fun t =>
      ((Json.parse? t).bind Json.asObject?).isSome) = true := by decide +kernel
  obtain ⟨t, hwritten, hspells⟩ := Option.any_eq_true _ _ |>.1 hspells
  obtain ⟨o, ho⟩ := Option.isSome_iff_exists.1 hspells
  refine ⟨t, toOption_eq_some.1 hwritten, ?_⟩
  rw [ofPayload_of_spells ho]
  simp

end Claims

end SealedToken
