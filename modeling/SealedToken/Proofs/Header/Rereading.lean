import SealedToken.Proofs.Header.Written
import SealedToken.Proofs.Json.Reading
import SealedToken.Proofs.Json.Rereading

/-!
The written form of a header tells the header. What the written form is read as is the header
with each float as its text is read.
-/

namespace SealedToken

namespace Object

variable {o p : Object} {n : String}

/-- An object with values that programs hold. -/
def Proper (o : Object) : Prop := ∀ name v, o.find? name = some v → v.Proper

theorem proper_empty : empty.Proper := by
  simp [Proper]

theorem Proper.insert {name : String} {value : Json} (h : o.Proper) (hvalue : value.Proper) :
    (o.insert name value).Proper := by
  intro n v hv
  rw [find?_insert] at hv
  split at hv
  · obtain rfl := Option.some.inj hv
    exact hvalue
  · exact h n v hv

theorem Proper.of_asObject? {v : Json} (hv : v.Proper) (h : v.asObject? = some o) :
    o.Proper := by
  intro name value hfound
  cases hv with
  | obj hmembers ordered =>
      obtain rfl := Option.some.inj h
      exact hmembers _ (mem_of_mem_ofMembers (mem_of_find? hfound))
  | _ => simp [Json.asObject?] at h

theorem Proper.toJson (h : o.Proper) : o.toJson.Proper :=
  .obj (fun m hm => h m.1 m.2 (find?_of_mem hm)) o.ordered

/-- The object with each float in it as its text is read. -/
def reread (o : Object) : Object := o.mapValues fun _ v => v.reread

theorem toJson_reread : o.reread.toJson = o.toJson.reread := by
  rw [toJson, toJson, Json.reread, Json.rereadMembers_eq_map]
  rfl

theorem find?_reread : o.reread.find? n = (o.find? n).map Json.reread := by
  simp only [reread, mapValues, find?, List.find?_map, Option.map_map]
  rfl

end Object

namespace Header

variable {header other : Option Object}

/-- A header with values that programs hold. -/
def Proper (header : Option Object) : Prop := (header.getD .empty).Proper

/-- A header that is read has values that programs hold. -/
theorem proper_of_decode {text : String} (h : decode text = .ok header) : Proper header := by
  unfold decode at h
  split at h
  · obtain rfl := Except.ok.inj h
    exact Object.proper_empty
  · obtain ⟨bytes, -, h⟩ := bind_eq_ok.1 h
    split at h
    · simp at h
    · next value hvalue =>
        split at h
        · next o ho =>
            obtain rfl := Except.ok.inj h
            obtain ⟨written, -, hread⟩ := Option.bind_eq_some_iff.1 hvalue
            exact .of_asObject? (Json.proper_of_parse? hread) ho
        · simp at h

/-- The header with each float in it as its text is read. -/
def reread (header : Option Object) : Option Object := header.map Object.reread

/-- A header that is absent or has members is told by its written form. -/
theorem encode_injective (hheader : nonempty header = header) (hother : nonempty other = other)
    (hproper : Proper header) (hproper' : Proper other) (h : encode header = encode other) :
    header = other := by
  cases header with
  | none =>
      cases other with
      | none => rfl
      | some p => exact absurd h.symm (encode_some hother).2
  | some o =>
      cases other with
      | none => exact absurd h (encode_some hheader).2
      | some p =>
          rw [(encode_some hheader).1, (encode_some hother).1] at h
          have hprint := Utf8.toUTF8_injective (Base64Url.encode_injective h)
          have hjson : o.toJson = p.toJson :=
            (Object.Proper.toJson hproper).eq_of_print (Object.Proper.toJson hproper') hprint
          rw [← Object.asObject?_toJson, hjson, Object.asObject?_toJson]

/-- What the written form of a header is read as, if it is read. -/
theorem eq_reread_of_decode_encode (hheader : nonempty header = header) (hproper : Proper header)
    (h : decode (encode header) = .ok other) : other = reread header := by
  cases header with
  | none => exact (Except.ok.inj h).symm
  | some o =>
      rw [decode_encode_some hheader] at h
      split at h
      · simp at h
      · next value hvalue =>
          obtain rfl := (Object.Proper.toJson hproper).eq_of_parse? hvalue
          rw [Option.getD_some, ← Object.toJson_reread, Object.asObject?_toJson] at h
          exact (Except.ok.inj h).symm

end Header

end SealedToken
