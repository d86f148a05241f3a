import SealedToken.Header.Encoding
import SealedToken.Proofs.Base64Url
import SealedToken.Proofs.Json.Record
import SealedToken.Proofs.Outcome
import SealedToken.Proofs.Text

/-!
The written form of a header is read as the header.
-/

namespace SealedToken

variable {levels : Nat}

/-! ### Values and objects that can be written -/

/-- A value that its text stands for: it can be read, and the members of the objects in it
are in order. -/
structure Json.Codable (levels : Nat) (v : Json) : Prop where
  readable : v.Readable levels
  canonical : v.canonical = v

theorem Json.codable_str (text : String) : (Json.str text).Codable levels :=
  ⟨.str text, rfl⟩

theorem Json.codable_int {value : Int} (hlow : -2 ^ 63 ≤ value) (hhigh : value < 2 ^ 64) :
    (Json.int value).Codable levels :=
  ⟨.num (Number.readsBack_int hlow hhigh), rfl⟩

namespace Object

variable {o p : Object}

/-- An object whose values their texts stand for. -/
def Codable (levels : Nat) (o : Object) : Prop :=
  ∀ name v, o.find? name = some v → v.Codable levels

theorem codable_empty : empty.Codable levels := by
  simp [Codable]

theorem Codable.insert {name : String} {value : Json} (h : o.Codable levels)
    (hvalue : value.Codable levels) : (o.insert name value).Codable levels := by
  intro n v hv
  rw [find?_insert] at hv
  split at hv
  · obtain rfl := Option.some.inj hv
    exact hvalue
  · exact h n v hv

theorem Codable.union (ho : o.Codable levels) (hp : p.Codable levels) :
    (o.union p).Codable levels := by
  intro n v hv
  rw [find?_union, Option.or_eq_some_iff] at hv
  rcases hv with hv | ⟨-, hv⟩
  · exact hp n v hv
  · exact ho n v hv

theorem Codable.filter {test : String → Json → Bool} (h : o.Codable levels) :
    (o.filter test).Codable levels := by
  intro n v hv
  rw [find?_filter, Option.filter_eq_some_iff] at hv
  exact h n v hv.1

theorem Codable.toJson (h : o.Codable levels) : o.toJson.Codable (levels + 1) where
  readable := .obj fun m hm => (h m.1 m.2 (find?_of_mem hm)).readable
  canonical := by
    have hmembers : Json.canonicalMembers o.members = o.members := by
      rw [Json.canonicalMembers_eq_map]
      refine (List.map_congr_left fun m hm => ?_).trans (List.map_id _)
      exact Prod.ext rfl (h m.1 m.2 (find?_of_mem hm)).canonical
    rw [Object.toJson, Json.canonical, hmembers, ofMembers_members]
    rfl

theorem asObject?_toJson : o.toJson.asObject? = some o := by
  rw [Object.toJson, Json.asObject?, ofMembers_members]

/-- The text of an object is read as the object. -/
def ReadsBack (o : Object) : Prop := (Json.parse? o.toJson.print).bind Json.asObject? = some o

theorem Codable.readsBack (h : o.Codable (Json.nestingLimit - 1)) : o.ReadsBack := by
  have hjson : o.toJson.Codable Json.nestingLimit := Object.Codable.toJson h
  rw [ReadsBack, Json.parse?_print hjson.readable, Option.bind_some, hjson.canonical,
    asObject?_toJson]

/-- An object is read with its members in order, and each is found as it was. -/
theorem exists_of_print {members : Json.Record}
    (hread : (Json.obj members).Readable Json.nestingLimit)
    (distinct : members.Pairwise fun a b => a.1 ≠ b.1) :
    ∃ o : Object, (Json.parse? (Json.obj members).print).bind Json.asObject? = some o ∧
      ∀ n, o.find? n = (Json.Record.find? members n).map Json.canonical := by
  refine ⟨.ofMembers (Json.canonicalMembers members), ?_, fun n => Json.find?_canonical distinct⟩
  rw [Json.parse?_print hread, Option.bind_some, Json.canonical, asObject?_toJson]

end Object

theorem Json.parseBytes?_toUTF8 {text : String} :
    Json.parseBytes? text.toUTF8 = Json.parse? text := by
  rw [Json.parseBytes?, Utf8.fromUTF8?_toUTF8]
  rfl

/-! ### Headers -/

namespace Header

theorem decodeBytes_encode (bytes : ByteArray) :
    decodeBytes (Base64Url.encode bytes) = .ok bytes := by
  rw [decodeBytes, Base64Url.decode?_encode]

/-- Reading is strict, so what was read is written as it stood. -/
theorem encode_of_decodeBytes {text : String} {bytes : ByteArray}
    (h : decodeBytes text = .ok bytes) : Base64Url.encode bytes = text := by
  unfold decodeBytes at h
  split at h
  · next found hdecode =>
      obtain rfl := Except.ok.inj h
      exact Base64Url.encode_of_decode? hdecode
  · simp at h

/-- A header that can be written: an absent one, or one with members. -/
def Codable (levels : Nat) (header : Option Object) : Prop :=
  nonempty header = header ∧ (header.getD .empty).Codable levels

/-- Something is written for a text that has characters. -/
theorem encode_ne_empty {text : String} (h : text ≠ "") : Base64Url.encode text.toUTF8 ≠ "" := by
  intro hempty
  have hbytes : text.toUTF8 = "".toUTF8 :=
    Base64Url.encode_injective (hempty.trans (show "" = Base64Url.encode "".toUTF8 by decide))
  exact h (Utf8.toUTF8_injective hbytes)

variable {header : Option Object} {o : Object}

/-- A header in which a name is found has members. -/
theorem nonempty_of_contains {name : String} (h : o.contains name = true) :
    nonempty (some o) = some o := by
  rw [nonempty, Option.filter_some, if_pos]
  rw [Bool.not_eq_true', ← Bool.not_eq_true]
  intro hempty
  rw [Object.eq_empty_of_isEmpty hempty, Object.contains_empty] at h
  exact Bool.false_ne_true h

/-- Something is written for a header with members. -/
theorem encode_some (h : nonempty (some o) = some o) :
    encode (some o) = Base64Url.encode o.toJson.print.toUTF8 ∧ encode (some o) ≠ "" := by
  have hsome : o.isEmpty = false := by
    cases hempty : o.isEmpty with
    | false => rfl
    | true => simp [nonempty, hempty] at h
  have hencode : encode (some o) = Base64Url.encode o.toJson.print.toUTF8 := by
    rw [encode, hsome]
    rfl
  refine ⟨hencode, ?_⟩
  rw [hencode]
  refine encode_ne_empty fun hempty => ?_
  simp [Json.print, Object.toJson, Json.chars] at hempty

/-- What is written for a header is read as the text of an object. -/
theorem decode_encode_some (h : nonempty (some o) = some o) :
    decode (encode (some o)) =
      match Json.parse? o.toJson.print with
      | none => .error (.invalidFormat (.json none))
      | some value =>
          match value.asObject? with
          | some header => .ok (some header)
          | none => .error (.invalidFormat .protectedNotObject) := by
  obtain ⟨hencode, hne⟩ := encode_some h
  rw [decode, if_neg (by simpa using hne), hencode, decodeBytes_encode, ok_bind,
    Json.parseBytes?_toUTF8]
  rfl

/-- A header is read as it was written when its text is. -/
theorem decode_encode_of_readsBack (hnonempty : nonempty header = header)
    (h : ∀ o, header = some o → o.ReadsBack) : decode (encode header) = .ok header := by
  cases header with
  | none => rfl
  | some o =>
      obtain ⟨value, hvalue, hobject⟩ := Option.bind_eq_some_iff.1 (h o rfl)
      rw [decode_encode_some hnonempty, hvalue]
      dsimp only
      rw [hobject]

/-- The written form of a header is read as the header. -/
theorem decode_encode (h : Codable (Json.nestingLimit - 1) header) :
    decode (encode header) = .ok header := by
  refine decode_encode_of_readsBack h.1 ?_
  rintro o rfl
  exact Object.Codable.readsBack h.2

/-! ### Headers in an object -/

theorem readable_member {header : Option Object} {name : String} (h : Codable levels header) :
    ∀ m ∈ Json.optionMember name Object.toJson header, m.2.Readable (levels + 1) := by
  apply Json.forall_mem_optionMember
  rintro o rfl
  exact (Object.Codable.toJson h.2).readable

/-- A header that is written into an object is read there. -/
theorem optional_written {header : Option Object} {members : Json.Record} {name : String}
    (hfind : Json.Record.find? members name =
      (header.map Object.toJson).map Json.canonical)
    (h : Codable levels header) :
    members.optional Json.asObject? name = .ok header := by
  refine Json.Record.optional_eq_ok Object.toJson ?_ fun o _ =>
    ⟨Object.asObject?_toJson, by simp [Object.toJson]⟩
  cases header with
  | none => exact hfind
  | some o =>
      have hcanonical : o.toJson.canonical = o.toJson := (Object.Codable.toJson h.2).canonical
      rw [hfind, Option.map_some, Option.map_some, hcanonical]

/-! ### The characters of a written header -/

/-- A text that is read as a header is made of digits. -/
theorem digits_of_decode {text : String} {header : Option Object}
    (h : decode text = .ok header) : Base64Url.Digits text := by
  by_cases hempty : text = ""
  · simp [hempty, Base64Url.Digits]
  · rw [decode, if_neg (by simpa using hempty)] at h
    obtain ⟨bytes, hbytes, -⟩ := bind_eq_ok.1 h
    rw [← encode_of_decodeBytes hbytes]
    exact Base64Url.digits_encode bytes

/-- So is the text that is written for a header. -/
theorem digits_encode (header : Option Object) : Base64Url.Digits (encode header) := by
  unfold encode
  split
  · simp [Base64Url.Digits]
  · split
    · simp [Base64Url.Digits]
    · exact Base64Url.digits_encode _

/-! ### Where the text of a header comes from -/

/-- The text of a header: a text that was read as the header, or the one that is written for
it. -/
inductive TextOf : String → Option Object → Prop
  | read {text : String} {header : Option Object} (h : decode text = .ok header) :
      TextOf text header
  | written {header : Option Object} (h : nonempty header = header) :
      TextOf (encode header) header

/-- The text of a header is read as the header. Only the text that was written for it depends
on its values. -/
theorem TextOf.decode_eq_ok {text : String} {header : Option Object} (h : TextOf text header)
    (hcodable : text = encode header →
      (header.getD .empty).Codable (Json.nestingLimit - 1)) : decode text = .ok header := by
  cases h with
  | read h => exact h
  | written h => exact decode_encode ⟨h, hcodable rfl⟩

end Header

end SealedToken
