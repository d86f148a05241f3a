import SealedToken.Proofs.Json.Record
import SealedToken.Proofs.Json.Unambiguous
import SealedToken.Proofs.Number.Rounding

/-!
What is read of a text is a value that programs hold: its integers fit 64 bits, its floats
are normal, and the members of its objects are in order.
-/

namespace SealedToken

/-! ### Numbers -/

namespace NumberText

variable {n : Number} {x : Binary64}

theorem Collected.add_lt {s : Collected} (h : s.significand < 2 ^ 64) (digit : Char) :
    (s.add digit).significand < 2 ^ 64 := by
  unfold Collected.add
  dsimp only
  split
  · next hnext => exact hnext.2
  · exact h

/-- What is collected fits 64 bits. -/
theorem collect_lt (digits : List Char) : (collect 0 digits).significand < 2 ^ 64 := by
  suffices h : ∀ s : Collected, s.significand < 2 ^ 64 →
      (digits.foldl Collected.add s).significand < 2 ^ 64 from h ⟨0, 0⟩ (by norm_num)
  induction digits with
  | nil => exact fun s h => h
  | cons digit rest ih => exact fun s h => ih _ (Collected.add_lt h digit)

theorem proper_signed (negative : Bool) (h : x.Normal) : (signed negative x).Proper := by
  cases negative with
  | false => exact .float h
  | true => exact .float h.neg

theorem proper_of_ofDecimal? {negative : Bool} {significand : Nat} {exponent : Int}
    (h : (Binary64.ofDecimal? significand exponent).map (signed negative) = some n) :
    n.Proper := by
  obtain ⟨x, hx, rfl⟩ := Option.map_eq_some_iff.1 h
  exact proper_signed negative (Binary64.normal_of_ofDecimal? hx)

theorem proper_of_floatValue? {t : NumberText} {whole : Collected}
    (h : t.floatValue? whole = some n) : n.Proper := by
  unfold floatValue? at h
  dsimp only at h
  split at h
  · exact proper_of_ofDecimal? h
  · split at h
    · exact proper_of_ofDecimal? h
    · split at h
      · simp at h
      · obtain rfl := Option.some.inj h
        exact proper_signed _ (Binary64.normal_zero false)

/-- The number that a text stands for is one of the numbers there are. -/
theorem proper_of_value? {t : NumberText} (h : t.value? = some n) : n.Proper := by
  have hlt := collect_lt t.whole
  unfold value? at h
  dsimp only at h
  split at h
  · split at h
    · obtain rfl := Option.some.inj h
      exact .int (by omega) (by exact_mod_cast hlt)
    · split at h
      · obtain ⟨x, hx, rfl⟩ := Option.map_eq_some_iff.1 h
        exact proper_signed true (Binary64.normal_of_ofNat? hx)
      · next hfits =>
          obtain rfl := Option.some.inj h
          exact .int (by omega) (by omega)
  · exact proper_of_floatValue? h

end NumberText

/-! ### Values -/

namespace Json

variable {v : Json} {purpose : Purpose} {cs rest : List Char} {fuel : Nat}

theorem proper_ofMembers {members : List (String × Json)} (h : ∀ m ∈ members, m.2.Proper) :
    (Object.ofMembers members).toJson.Proper :=
  .obj (fun m hm => h m (Object.mem_of_mem_ofMembers hm)) (Object.ofMembers members).ordered

theorem proper_canonical_arr {items : List Json} (h : ∀ item ∈ items, item.canonical.Proper) :
    (arr items).canonical.Proper := by
  rw [canonical, canonicalItems_eq_map]
  refine .arr fun ordered hordered => ?_
  obtain ⟨item, hitem, rfl⟩ := List.mem_map.1 hordered
  exact h item hitem

theorem proper_canonical_obj {members : List (String × Json)}
    (h : ∀ m ∈ members, m.2.canonical.Proper) : (obj members).canonical.Proper := by
  rw [canonical, canonicalMembers_eq_map]
  refine proper_ofMembers fun ordered hordered => ?_
  obtain ⟨m, hm, rfl⟩ := List.mem_map.1 hordered
  exact h m hm

/-- What is read with so much fuel is proper when its members are put in order. -/
def ReadsProper (fuel : Nat) : Prop :=
  ∀ purpose cs v rest, value? fuel purpose cs = some (v, rest) → v.canonical.Proper

theorem proper_of_numberFor (h : numberFor purpose cs = some (v, rest)) : v.canonical.Proper := by
  obtain ⟨⟨t, left⟩, -, h⟩ := Option.bind_eq_some_iff.1 h
  cases purpose with
  | keep levels =>
      obtain ⟨n, hn, h⟩ := Option.map_eq_some_iff.1 h
      obtain ⟨rfl, -⟩ := Prod.mk.inj h
      exact .num (NumberText.proper_of_value? hn)
  | skip =>
      obtain ⟨rfl, -⟩ := Prod.mk.inj (Option.some.inj h)
      exact .null

theorem proper_of_items? {done : List Json} (hdone : ∀ item ∈ done, item.canonical.Proper)
    (hread : ∀ smaller < fuel, ReadsProper smaller)
    (h : items? fuel purpose done cs = some (v, rest)) : v.canonical.Proper := by
  induction fuel generalizing done cs with
  | zero => simp [items?] at h
  | succ fuel ih =>
      rw [items?] at h
      split at h
      · simp at h
      · next item left hitem =>
          have hall : ∀ i ∈ item :: done, i.canonical.Proper :=
            List.forall_mem_cons.2 ⟨hread fuel fuel.lt_succ_self _ _ _ _ hitem, hdone⟩
          split at h
          · exact ih hall (fun smaller hlt => hread smaller (hlt.trans fuel.lt_succ_self)) h
          · obtain ⟨rfl, -⟩ := Prod.mk.inj (Option.some.inj h)
            exact proper_canonical_arr fun i hi => hall i (List.mem_reverse.1 hi)
          · simp at h

theorem proper_of_members? {done : List (String × Json)}
    (hdone : ∀ m ∈ done, m.2.canonical.Proper) (hread : ∀ smaller < fuel, ReadsProper smaller)
    (h : members? fuel purpose done cs = some (v, rest)) : v.canonical.Proper := by
  induction fuel generalizing done cs with
  | zero => simp [members?] at h
  | succ fuel ih =>
      rw [members?] at h
      split at h
      · split at h
        · simp at h
        · next name left _ =>
            split at h
            · split at h
              · simp at h
              · next value _ hvalue =>
                  have hall : ∀ m ∈ (name, value) :: done, m.2.canonical.Proper :=
                    List.forall_mem_cons.2 ⟨hread fuel fuel.lt_succ_self _ _ _ _ hvalue, hdone⟩
                  split at h
                  · exact ih hall
                      (fun smaller hlt => hread smaller (hlt.trans fuel.lt_succ_self)) h
                  · obtain ⟨rfl, -⟩ := Prod.mk.inj (Option.some.inj h)
                    exact proper_canonical_obj fun m hm => hall m (List.mem_reverse.1 hm)
                  · simp at h
            · simp at h
      · simp at h

/-- One level of a value, from the levels below. -/
theorem readsProper_succ (hread : ∀ smaller ≤ fuel, ReadsProper smaller) :
    ReadsProper (fuel + 1) := by
  intro purpose cs v rest h
  have hsmaller : ∀ smaller < fuel, ReadsProper smaller := fun smaller hlt => hread _ hlt.le
  rw [value?] at h
  split at h
  · obtain ⟨rfl, -⟩ := Prod.mk.inj (Option.some.inj h)
    exact .null
  · obtain ⟨rfl, -⟩ := Prod.mk.inj (Option.some.inj h)
    exact .bool true
  · obtain ⟨rfl, -⟩ := Prod.mk.inj (Option.some.inj h)
    exact .bool false
  · obtain ⟨⟨text, left⟩, -, h⟩ := Option.map_eq_some_iff.1 h
    obtain ⟨rfl, -⟩ := Prod.mk.inj h
    exact .str text
  · split at h
    · simp at h
    · split at h
      · obtain ⟨rfl, -⟩ := Prod.mk.inj (Option.some.inj h)
        exact proper_canonical_arr (by simp)
      · exact proper_of_items? (by simp) hsmaller h
  · split at h
    · simp at h
    · split at h
      · obtain ⟨rfl, -⟩ := Prod.mk.inj (Option.some.inj h)
        exact proper_canonical_obj (by simp)
      · exact proper_of_members? (by simp) hsmaller h
  · exact proper_of_numberFor h

theorem readsProper (fuel : Nat) : ReadsProper fuel := by
  induction fuel using Nat.strong_induction_on with
  | _ fuel ih =>
      cases fuel with
      | zero =>
          intro purpose cs v rest h
          simp [value?] at h
      | succ fuel => exact readsProper_succ fun smaller hle => ih smaller (Nat.lt_succ_of_le hle)

/-- The value of a text is one that programs hold. -/
theorem proper_of_parse? {text : String} (h : parse? text = some v) : v.Proper := by
  unfold parse? at h
  split at h
  · next value rest hvalue =>
      split at h
      · obtain rfl := Option.some.inj h
        exact readsProper _ _ _ _ _ hvalue
      · simp at h
  · simp at h

end Json

end SealedToken
