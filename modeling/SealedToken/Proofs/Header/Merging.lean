import SealedToken.Proofs.Header.Union

/-!
The union of any number of headers, under any registry. Which headers are accepted is said
here without the order in which they are added and without the map they are added to: what
has to be protected is, no two headers share a name, and what is critical is understood.
-/

namespace SealedToken

/-! ### Headers side by side -/

namespace Object

variable {o p : Object} {headers : List Object}

/-- Objects without a name in common. -/
def Disjoint (o p : Object) : Prop :=
  ∀ name, o.contains name = true → p.contains name = false

/-- An object has exactly the members of the headers. -/
def Unites (o : Object) (headers : List Object) : Prop :=
  ∀ name v, o.find? name = some v ↔ ∃ header ∈ headers, header.find? name = some v

theorem Disjoint.symm (h : o.Disjoint p) : p.Disjoint o := by
  intro name hp
  cases ho : o.contains name with
  | false => rfl
  | true => simp [h name ho] at hp

theorem find?_eq_none_of_disjoint (h : o.Disjoint p) {name : String} {v : Json}
    (ho : o.find? name = some v) : p.find? name = none :=
  contains_eq_false_iff.1 (h name (contains_iff.2 ⟨v, ho⟩))

theorem union_disjoint_iff {other : Object} :
    (o.union p).Disjoint other ↔ o.Disjoint other ∧ p.Disjoint other := by
  simp only [Disjoint, contains_union, Bool.or_eq_true, or_imp, forall_and]

/-- There is no more than one object that unites headers. -/
theorem Unites.unique (ho : o.Unites headers) (hp : p.Unites headers) : o = p :=
  ext_find? fun name => Option.ext fun v => (ho name v).trans (hp name v).symm

theorem unites_congr {others : List Object} (h : ∀ header, header ∈ headers ↔ header ∈ others) :
    o.Unites headers ↔ o.Unites others := by
  simp only [Unites, h]

/-- The union of objects that share no name has the members of all of them. -/
theorem unites_foldl_union (h : (o :: headers).Pairwise Disjoint) :
    (headers.foldl union o).Unites (o :: headers) := by
  induction headers generalizing o with
  | nil => simp [Unites]
  | cons p rest ih =>
      obtain ⟨ho, hp, hrest⟩ := List.pairwise_cons.1 h |>.imp_right List.pairwise_cons.1
      have hunion : ((o.union p) :: rest).Pairwise Disjoint :=
        List.pairwise_cons.2 ⟨fun other hother =>
          union_disjoint_iff.2 ⟨ho other (by simp [hother]), hp other hother⟩, hrest⟩
      intro name v
      have hstep : (o.union p).find? name = some v ↔
          o.find? name = some v ∨ p.find? name = some v := by
        rw [find?_union, Option.or_eq_some_iff]
        constructor
        · exact fun h => h.elim .inr fun h => .inl h.2
        · exact fun h => h.elim
            (fun h => .inr ⟨find?_eq_none_of_disjoint (ho p (by simp)) h, h⟩) .inl
      simp only [List.foldl_cons, ih hunion name v, List.mem_cons, exists_eq_or_imp, hstep, or_assoc]

end Object

namespace HeaderRegistry

variable {r : HeaderRegistry} {merged out : Object} {headers : List Object}

/-! ### Adding any number of headers -/

/-- A header has nothing in it that has to be protected. -/
def Bare (r : HeaderRegistry) (header : Object) : Prop :=
  ∀ name, header.contains name = true → r.mustProtect name = false

theorem admits_iff {header : Object} :
    r.Admits merged header ↔ r.Bare header ∧ merged.Disjoint header := by
  constructor
  · exact fun h => ⟨fun name hname => (h name hname).1,
      Object.Disjoint.symm fun name hname => (h name hname).2⟩
  · exact fun h name hname => ⟨h.1 name hname, h.2.symm name hname⟩

/-- The headers are added one after the other, each to all that came before it. -/
theorem addHeaders_eq_ok :
    r.addHeaders merged headers = .ok out ↔
      (∀ header ∈ headers, r.Bare header) ∧ (merged :: headers).Pairwise Object.Disjoint ∧
        out = headers.foldl Object.union merged := by
  induction headers generalizing merged with
  | nil => simp [addHeaders, @eq_comm _ merged]
  | cons header rest ih =>
      simp only [addHeaders, bind_eq_ok, addMembers_eq_ok, admits_iff, List.pairwise_cons,
        List.forall_mem_cons, List.foldl_cons]
      constructor
      · rintro ⟨_, ⟨⟨hheader, hdisjoint⟩, rfl⟩, hrest⟩
        obtain ⟨hbare, hpairwise, rfl⟩ := ih.1 hrest
        obtain ⟨hunion, hrest⟩ := List.pairwise_cons.1 hpairwise
        have hparts := fun p hp => Object.union_disjoint_iff.1 (hunion p hp)
        exact ⟨⟨hheader, hbare⟩, ⟨⟨hdisjoint, fun p hp => (hparts p hp).1⟩,
          fun p hp => (hparts p hp).2, hrest⟩, rfl⟩
      · rintro ⟨⟨hheader, hbare⟩, ⟨⟨hdisjoint, hmerged⟩, hfirst, hrest⟩, rfl⟩
        have hunion := fun p hp => Object.union_disjoint_iff.2 ⟨hmerged p hp, hfirst p hp⟩
        exact ⟨_, ⟨⟨hheader, hdisjoint⟩, rfl⟩,
          ih.2 ⟨hbare, List.pairwise_cons.2 ⟨hunion, hrest⟩, rfl⟩⟩

/-! ### What is critical -/

/-- Parameters that are critical are named in a list that is not empty, understood, and
there. -/
def Understands (r : HeaderRegistry) (merged : Object) : Prop :=
  ∀ v, merged.find? "crit" = some v → ∃ names : List String,
    v = .arr (names.map .str) ∧ names ≠ [] ∧
      ∀ name ∈ names, r.supports name = true ∧ merged.contains name = true

theorem checkNames_eq_ok {values : List Json} :
    r.checkNames merged values = .ok () ↔ ∃ names : List String, values = names.map .str ∧
      ∀ name ∈ names, r.supports name = true ∧ merged.contains name = true := by
  induction values with
  | nil => exact ⟨fun _ => ⟨[], rfl, by simp⟩, fun _ => rfl⟩
  | cons value rest ih =>
      constructor
      · intro h
        cases value with
        | str name =>
            simp only [checkNames] at h
            split at h
            · next hname =>
                obtain ⟨names, rfl, hnames⟩ := ih.1 h
                exact ⟨name :: names, rfl, List.forall_mem_cons.2
                  ⟨Bool.and_eq_true_iff.1 hname, hnames⟩⟩
            · simp at h
        | _ => simp [checkNames] at h
      · rintro ⟨names, hvalues, hnames⟩
        cases names with
        | nil => simp at hvalues
        | cons name names =>
            obtain ⟨rfl, rfl⟩ := List.cons.inj hvalues
            obtain ⟨⟨hsupports, hcontains⟩, hnames⟩ := List.forall_mem_cons.1 hnames
            rw [checkNames, if_pos (by simp [hsupports, hcontains])]
            exact ih.2 ⟨names, rfl, hnames⟩

theorem checkCritical_eq_ok : r.checkCritical merged = .ok () ↔ r.Understands merged := by
  rw [checkCritical]
  split
  · next h => simp [Understands, h]
  · next value values h =>
      simp only [Understands, h, Option.some.injEq, checkNames_eq_ok, forall_eq', Json.arr.injEq]
      constructor
      · rintro ⟨names, hvalues, hnames⟩
        exact ⟨names, hvalues, by rintro rfl; simp at hvalues, hnames⟩
      · rintro ⟨names, hvalues, -, hnames⟩
        exact ⟨names, hvalues, hnames⟩
  · next v hlist h =>
      simp only [Understands, h, Option.some.injEq, forall_eq', reduceCtorEq, false_iff]
      rintro ⟨names, rfl, hne, -⟩
      obtain ⟨name, names, rfl⟩ := List.exists_cons_of_ne_nil hne
      exact hlist _ _ rfl

/-! ### The union of headers -/

variable {protectedHeader : Option Object} {others : List (Option Object)}

/-- The headers that are there. -/
def present (protectedHeader : Option Object) (others : List (Option Object)) : List Object :=
  protectedHeader.toList ++ others.reduceOption

/-- What does not depend on the order of the headers and decides whether they are accepted:
nothing is unprotected that has to be protected, and no two headers share a name. -/
structure Compatible (r : HeaderRegistry) (protectedHeader : Option Object)
    (others : List (Option Object)) : Prop where
  bare : ∀ header ∈ others.reduceOption, r.Bare header
  disjoint : (present protectedHeader others).Pairwise Object.Disjoint

/-- An absent protected header counts as an empty one. -/
theorem pairwise_present_iff :
    (protectedHeader.getD .empty :: others.reduceOption).Pairwise Object.Disjoint ↔
      (present protectedHeader others).Pairwise Object.Disjoint := by
  cases protectedHeader <;> simp [present, Object.Disjoint]

theorem unites_present_iff :
    merged.Unites (protectedHeader.getD .empty :: others.reduceOption) ↔
      merged.Unites (present protectedHeader others) := by
  cases protectedHeader <;> simp [present, Object.Unites]

theorem merge_eq_ok_iff :
    r.merge protectedHeader others = .ok merged ↔
      r.Compatible protectedHeader others ∧ merged.Unites (present protectedHeader others) ∧
        r.Understands merged := by
  simp only [merge, bind_eq_ok, addHeaders_eq_ok, pure_eq_ok, Except.ok.injEq,
    pairwise_present_iff]
  constructor
  · rintro ⟨_, ⟨hbare, hdisjoint, rfl⟩, _, hcritical, rfl⟩
    have hunites := Object.unites_foldl_union (pairwise_present_iff.2 hdisjoint)
    exact ⟨⟨hbare, hdisjoint⟩, unites_present_iff.1 hunites, checkCritical_eq_ok.1 hcritical⟩
  · rintro ⟨⟨hbare, hdisjoint⟩, hunites, hcritical⟩
    have hunion := Object.unites_foldl_union (pairwise_present_iff.2 hdisjoint)
    obtain rfl := hunites.unique (unites_present_iff.1 hunion)
    exact ⟨_, ⟨hbare, hdisjoint, rfl⟩, (), checkCritical_eq_ok.2 hcritical, rfl⟩

/-- Headers are compatible in any order, and so they have one union. -/
theorem merge_perm {permuted : List (Option Object)} (h : others.Perm permuted)
    (hmerge : r.merge protectedHeader others = .ok merged) :
    r.merge protectedHeader permuted = .ok merged := by
  obtain ⟨⟨hbare, hdisjoint⟩, hunites, hcritical⟩ := merge_eq_ok_iff.1 hmerge
  have hothers : others.reduceOption.Perm permuted.reduceOption := h.filterMap id
  have hpresent : (present protectedHeader others).Perm (present protectedHeader permuted) :=
    hothers.append_left _
  exact merge_eq_ok_iff.2 ⟨⟨fun header hmem => hbare header (hothers.mem_iff.2 hmem),
    (hpresent.pairwise_iff fun {_ _} => Object.Disjoint.symm).1 hdisjoint⟩,
    (Object.unites_congr fun _ => hpresent.mem_iff).1 hunites, hcritical⟩

/-- What is found in a union is found in the union with more headers. -/
theorem find?_of_merge_sublist {more : List (Option Object)} {larger : Object} {name : String}
    {v : Json} (h : others.Sublist more) (hmerge : r.merge protectedHeader others = .ok merged)
    (hmore : r.merge protectedHeader more = .ok larger) (hv : merged.find? name = some v) :
    larger.find? name = some v := by
  obtain ⟨-, hunites, -⟩ := merge_eq_ok_iff.1 hmerge
  obtain ⟨-, hlarger, -⟩ := merge_eq_ok_iff.1 hmore
  have hpresent : (present protectedHeader others).Sublist (present protectedHeader more) :=
    (h.filterMap id).append_left _
  obtain ⟨header, hmem, hheader⟩ := (hunites name v).1 hv
  exact (hlarger name v).2 ⟨header, hpresent.mem hmem, hheader⟩

/-- A parameter that has to be protected comes from the protected header. -/
theorem find?_of_merge_mustProtect {name : String} {v : Json} (h : r.mustProtect name = true)
    (hmerge : r.merge protectedHeader others = .ok merged) (hv : merged.find? name = some v) :
    ∃ header, protectedHeader = some header ∧ header.find? name = some v := by
  obtain ⟨⟨hbare, -⟩, hunites, -⟩ := merge_eq_ok_iff.1 hmerge
  obtain ⟨header, hmem, hheader⟩ := (hunites name v).1 hv
  rcases List.mem_append.1 hmem with hprotected | hother
  · exact ⟨header, Option.mem_toList.1 hprotected, hheader⟩
  · have hopen := hbare header hother name (Object.contains_iff.2 ⟨v, hheader⟩)
    simp [h] at hopen

/-- What the union of headers is, whatever the registry knows of their parameters. -/
structure Merging (r : HeaderRegistry) (protectedHeader : Option Object)
    (others : List (Option Object)) : Prop where
  /-- It is made exactly when the headers are compatible and what is critical in their
  union is understood, and has exactly the members of all of them. -/
  accepts : ∀ merged, r.merge protectedHeader others = .ok merged ↔
    r.Compatible protectedHeader others ∧ merged.Unites (present protectedHeader others) ∧
      r.Understands merged
  /-- Headers that share no name can be united, and only in one way. -/
  united : (present protectedHeader others).Pairwise Object.Disjoint →
    ∃! merged : Object, merged.Unites (present protectedHeader others)
  /-- The order of the unprotected headers does not matter. -/
  order : ∀ permuted, others.Perm permuted → ∀ merged,
    r.merge protectedHeader others = .ok merged ↔ r.merge protectedHeader permuted = .ok merged
  /-- More headers change nothing that is there already. -/
  keeps : ∀ more merged larger, others.Sublist more →
    r.merge protectedHeader others = .ok merged → r.merge protectedHeader more = .ok larger →
      ∀ name v, merged.find? name = some v → larger.find? name = some v
  /-- If it has to be protected, what is critical is said by the protected header. -/
  critical : r.mustProtect "crit" = true → ∀ merged, r.merge protectedHeader others = .ok merged →
    ∀ v, merged.find? "crit" = some v →
      ∃ header, protectedHeader = some header ∧ header.find? "crit" = some v

/-- The union of a protected header and any number of others, under any registry. -/
theorem merge_merging (r : HeaderRegistry) (protectedHeader : Option Object)
    (others : List (Option Object)) : r.Merging protectedHeader others where
  accepts _ := merge_eq_ok_iff
  united h := by
    have hunites := unites_present_iff.1
      (Object.unites_foldl_union (pairwise_present_iff.2 h))
    exact ⟨_, hunites, fun _ hother => hother.unique hunites⟩
  order _ h _ := ⟨merge_perm h, merge_perm h.symm⟩
  keeps _ _ _ h hmerge hmore _ _ := find?_of_merge_sublist h hmerge hmore
  critical h _ hmerge _ := find?_of_merge_mustProtect h hmerge

end HeaderRegistry

end SealedToken
