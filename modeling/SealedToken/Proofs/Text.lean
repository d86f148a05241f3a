import SealedToken.Proofs.Base64Url
import SealedToken.Text.Blank
import SealedToken.Text.Segments
import SealedToken.Text.Utf8

/-!
Texts that are put together and taken apart again: the bytes of a text, segments without a
dot of their own, and texts with no white space at either end.
-/

namespace SealedToken

theorem Utf8.fromUTF8?_toUTF8 (text : String) : String.fromUTF8? text.toUTF8 = some text := by
  have h := Utf8.decode_toUTF8 text
  unfold Utf8.decode at h
  split at h
  · next heq => rw [heq, Except.ok.inj h]
  · simp at h

theorem Utf8.toUTF8_injective {a b : String} (h : a.toUTF8 = b.toUTF8) : a = b := by
  have hread := congrArg String.fromUTF8? h
  simpa only [fromUTF8?_toUTF8, Option.some.injEq] using hread

namespace Text

/-! ### White space -/

theorem dropWhile_isBlank {cs : List Char} (h : ∀ c, cs.head? = some c → isBlank c = false) :
    cs.dropWhile isBlank = cs := by
  cases cs with
  | nil => rfl
  | cons c rest => rw [List.dropWhile_cons_of_neg (by simp [h c rfl])]

theorem trimChars_eq_self {cs : List Char} (hfirst : ∀ c, cs.head? = some c → isBlank c = false)
    (hlast : ∀ c, cs.getLast? = some c → isBlank c = false) : trimChars cs = cs := by
  have hreverse : cs.reverse.dropWhile isBlank = cs.reverse :=
    dropWhile_isBlank fun c hc => hlast c (by rwa [List.head?_reverse] at hc)
  rw [trimChars, dropWhile_isBlank hfirst, hreverse, List.reverse_reverse]

/-- Nothing is cut off a text with no white space at either end. -/
theorem trim_eq_self {text : String} (hfirst : ∀ c, text.toList.head? = some c → isBlank c = false)
    (hlast : ∀ c, text.toList.getLast? = some c → isBlank c = false) : trim text = text := by
  rw [trim, trimChars_eq_self hfirst hlast, String.ofList_toList]

/-! ### Segments -/

theorem segmentChars_eq_singleton {cs : List Char} (h : '.' ∉ cs) : segmentChars cs = [cs] := by
  induction cs with
  | nil => rfl
  | cons c rest ih =>
      obtain ⟨hc, hrest⟩ := not_or.1 (mt List.mem_cons.2 h)
      rw [segmentChars, if_neg (Ne.symm hc), ih hrest]

theorem segmentChars_append {cs rest : List Char} (h : '.' ∉ cs) :
    segmentChars (cs ++ '.' :: rest) = cs :: segmentChars rest := by
  induction cs with
  | nil => rfl
  | cons c cs ih =>
      obtain ⟨hc, hcs⟩ := not_or.1 (mt List.mem_cons.2 h)
      rw [List.cons_append, segmentChars, if_neg (Ne.symm hc), ih hcs]

theorem segmentChars_intercalate {parts : List (List Char)} (hne : parts ≠ [])
    (h : ∀ part ∈ parts, '.' ∉ part) : segmentChars (['.'].intercalate parts) = parts := by
  induction parts with
  | nil => exact absurd rfl hne
  | cons part rest ih =>
      cases rest with
      | nil => simpa using segmentChars_eq_singleton (h part (by simp))
      | cons next rest =>
          rw [List.intercalate_cons_cons, List.append_assoc, List.singleton_append,
            segmentChars_append (h part (by simp)), ih (by simp) fun p hp => h p (by simp [hp])]

/-- Segments that have no dot of their own are found again. -/
theorem segments_joinSegments {parts : List String} (hne : parts ≠ [])
    (h : ∀ part ∈ parts, '.' ∉ part.toList) : segments (joinSegments parts) = parts := by
  have hchars : segmentChars (['.'].intercalate (parts.map String.toList)) =
      parts.map String.toList :=
    segmentChars_intercalate (by simpa using hne) (by simpa using h)
  rw [segments, joinSegments, String.toList_intercalate]
  simp only [show ".".toList = ['.'] from rfl, hchars, List.map_map]
  simp [Function.comp_def]

/-- The segments of a text make up the text, and none has a dot of its own. -/
theorem intercalate_segmentChars {cs : List Char} :
    ['.'].intercalate (segmentChars cs) = cs ∧ ∀ part ∈ segmentChars cs, '.' ∉ part := by
  induction cs with
  | nil => simp [segmentChars]
  | cons c rest ih =>
      cases hsegments : segmentChars rest with
      | nil => exact absurd hsegments (segmentChars_ne_nil rest)
      | cons segment others =>
          rw [hsegments, List.forall_mem_cons] at ih
          obtain ⟨hjoin, hsegment, hothers⟩ := ih
          rw [segmentChars, hsegments]
          split
          · next hdot =>
              rw [List.intercalate_cons_cons, hjoin, hdot]
              exact ⟨rfl, by simpa using ⟨hsegment, hothers⟩⟩
          · next hdot =>
              constructor
              · -- the first segment is longer by one character
                rw [← hjoin]
                cases others with
                | nil => simp
                | cons next others => rw [List.intercalate_cons_cons, List.intercalate_cons_cons]; rfl
              · simpa [Ne.symm hdot] using ⟨hsegment, hothers⟩

theorem joinSegments_segments {text : String} : joinSegments (segments text) = text := by
  apply String.toList_inj.1
  rw [joinSegments, String.toList_intercalate, segments, List.map_map]
  simp only [show ".".toList = ['.'] from rfl, Function.comp_def, String.toList_ofList,
    List.map_id']
  exact intercalate_segmentChars.1

theorem dot_notMem_segments {text part : String} (h : part ∈ segments text) :
    '.' ∉ part.toList := by
  obtain ⟨chars, hchars, rfl⟩ := List.mem_map.1 h
  rw [String.toList_ofList]
  exact intercalate_segmentChars.2 chars hchars

/-- Segments behind the first one stand behind a dot. -/
theorem joinSegments_cons {part next : String} {rest : List String} :
    joinSegments (part :: next :: rest) = part ++ "." ++ joinSegments (next :: rest) := by
  apply String.toList_inj.1
  simp only [joinSegments, String.toList_append, String.toList_intercalate, List.map_cons,
    List.intercalate_cons_cons]

/-- A character of the whole is the dot, or stands in one of the segments. -/
theorem mem_intercalate {parts : List (List Char)} {c : Char} (h : c ∈ ['.'].intercalate parts) :
    c = '.' ∨ ∃ part ∈ parts, c ∈ part := by
  induction parts with
  | nil => simp at h
  | cons part rest ih =>
      cases rest with
      | nil => exact .inr ⟨part, by simp, by simpa using h⟩
      | cons next rest =>
          rw [List.intercalate_cons_cons, List.append_assoc, List.mem_append, List.mem_append,
            List.mem_singleton] at h
          rcases h with h | rfl | h
          · exact .inr ⟨part, by simp, h⟩
          · exact .inl rfl
          · exact (ih h).imp_right fun ⟨other, hother, hc⟩ => ⟨other, by simp [hother], hc⟩

theorem mem_joinSegments {parts : List String} {c : Char} (h : c ∈ (joinSegments parts).toList) :
    c = '.' ∨ ∃ part ∈ parts, c ∈ part.toList := by
  rw [joinSegments, String.toList_intercalate] at h
  simpa using mem_intercalate h

end Text

end SealedToken
