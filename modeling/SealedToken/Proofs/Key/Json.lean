import SealedToken.Key.Json
import SealedToken.Proofs.Header.Written
import SealedToken.Proofs.Json.Streaming

/-!
Keys that are written and read again. All members of a key are texts, but for the operations
that it is restricted to; what is found under a name is said once for the members as they are
written (`find?_members`), and a record in which the same is found is read as the key, whether
it comes from a value or straight from a text. All that is asked of a key is that its members
have the sizes that its curve prescribes (`KeyMaterial.Sized`), which is what a reader checks.
-/

namespace SealedToken

/-- Members of the sizes that the curve prescribes. -/
def KeyMaterial.Sized : KeyMaterial → Prop
  | .oct _ | .rsa .. => True
  | .ec curve x y d =>
      x.size = curve.coordinateSize ∧ y.size = curve.coordinateSize ∧
        ∀ secret, d = some secret → secret.size = curve.coordinateSize
  | .okp _ x d =>
      x.size = OctetCurve.memberSize ∧ ∀ secret, d = some secret → secret.size = OctetCurve.memberSize

namespace Jwk

variable {key : Jwk} {r : Json.Record} {w : Written} {name : String}

/-! ### Members that are all texts -/

def textMembers (texts : List (String × String)) : Json.Record :=
  texts.map fun m => (m.1, .str m.2)

theorem find?_textMembers {texts : List (String × String)} :
    Json.Record.find? (textMembers texts) name = (texts.lookup name).map .str := by
  induction texts with
  | nil => rfl
  | cons m rest ih =>
      rw [textMembers, List.map_cons, Json.Record.find?_cons, List.lookup_cons]
      by_cases h : m.1 = name
      · simp [h]
      · rw [if_neg h, beq_false_of_ne (Ne.symm h)]
        exact ih

/-! ### What is written of a key -/

def secretTexts : Option RsaSecret → List (String × String)
  | none => []
  | some s =>
      [("d", Base64Url.encode s.d), ("p", Base64Url.encode s.p), ("q", Base64Url.encode s.q),
       ("dp", Base64Url.encode s.dp), ("dq", Base64Url.encode s.dq),
       ("qi", Base64Url.encode s.qi)]

/-- A private member that stands by itself. -/
def privateTexts : Option ByteArray → List (String × String)
  | none => []
  | some d => [("d", Base64Url.encode d)]

def materialTexts : KeyMaterial → List (String × String)
  | .oct k => [("k", Base64Url.encode k)]
  | .rsa n e secret =>
      ("n", Base64Url.encode n) :: ("e", Base64Url.encode e) :: secretTexts secret
  | .ec curve x y d =>
      ("crv", curve.name) :: ("x", Base64Url.encode x) :: ("y", Base64Url.encode y) ::
        privateTexts d
  | .okp curve x d =>
      ("crv", curve.name) :: ("x", Base64Url.encode x) :: privateTexts d

theorem materialMembers_eq (m : KeyMaterial) :
    materialMembers m = textMembers (materialTexts m) := by
  cases m with
  | oct k => rfl
  | rsa n e secret => cases secret <;> rfl
  | ec curve x y d => cases d <;> rfl
  | okp curve x d => cases d <;> rfl

/-- The members that restrict and name a key. -/
def restrictionMembers (key : Jwk) : Json.Record :=
  Json.optionMember "use" (fun use => .str use.name) key.use ++
    Json.optionMember "key_ops" operationsJson key.operations ++
    Json.optionMember "kid" Json.str key.kid ++ Json.optionMember "alg" Json.str key.alg

def members (key : Jwk) : Json.Record :=
  ("kty", .str key.type.name) :: (textMembers (materialTexts key.material) ++ key.restrictionMembers)

theorem toJson_eq (key : Jwk) : key.toJson = .obj key.members := by
  rw [toJson, materialMembers_eq, members, restrictionMembers]
  simp only [List.append_assoc]

/-- The names of all members in the order in which they are written. -/
def writtenNames : List String :=
  ["kty", "crv", "k", "n", "e", "x", "y", "d", "p", "q", "dp", "dq", "qi", "use", "key_ops",
   "kid", "alg"]

/-- The names of the members that a key is made of. -/
def materialNames : List String :=
  ["crv", "k", "n", "e", "x", "y", "d", "p", "q", "dp", "dq", "qi"]

def restrictionNames : List String := ["use", "key_ops", "kid", "alg"]

theorem names_materialTexts (m : KeyMaterial) :
    ((materialTexts m).map (·.1)).Sublist materialNames := by
  cases m with
  | oct k =>
      show ["k"].Sublist materialNames
      decide
  | rsa n e secret =>
      cases secret with
      | none =>
          show ["n", "e"].Sublist materialNames
          decide
      | some s =>
          show ["n", "e", "d", "p", "q", "dp", "dq", "qi"].Sublist materialNames
          decide
  | ec curve x y d =>
      cases d with
      | none =>
          show ["crv", "x", "y"].Sublist materialNames
          decide
      | some d =>
          show ["crv", "x", "y", "d"].Sublist materialNames
          decide
  | okp curve x d =>
      cases d with
      | none =>
          show ["crv", "x"].Sublist materialNames
          decide
      | some d =>
          show ["crv", "x", "d"].Sublist materialNames
          decide

theorem names_textMembers {texts : List (String × String)} :
    (textMembers texts).map (·.1) = texts.map (·.1) := by
  simp [textMembers]

theorem names_restrictionMembers (key : Jwk) :
    (key.restrictionMembers.map (·.1)).Sublist restrictionNames := by
  simp only [restrictionMembers, List.map_append]
  exact ((Json.names_optionMember.append Json.names_optionMember).append
    Json.names_optionMember).append Json.names_optionMember

theorem names_members (key : Jwk) : (key.members.map (·.1)).Sublist writtenNames := by
  rw [members, List.map_cons, List.map_append, names_textMembers]
  exact ((names_materialTexts _).append (names_restrictionMembers key)).cons_cons "kty"

theorem distinct_members (key : Jwk) : key.members.Pairwise fun a b => a.1 ≠ b.1 :=
  Json.distinct_of_sublist (names_members key) (by decide)

/-! ### What is found under a name -/

theorem find?_kty (key : Jwk) : Json.Record.find? key.members "kty" = some (.str key.type.name) := by
  rw [members, Json.Record.find?_cons, if_pos rfl]

/-- The members that a key is made of are found as its material has them. -/
theorem find?_material (key : Jwk) (hname : name ∈ materialNames) :
    Json.Record.find? key.members name =
      ((materialTexts key.material).lookup name).map .str := by
  have hne : "kty" ≠ name ∧ name ∉ restrictionNames := by
    revert name
    decide
  rw [members, Json.Record.find?_cons, if_neg hne.1, Json.Record.find?_append,
    Json.find?_eq_none (names_restrictionMembers key) hne.2, Option.or_none, find?_textMembers]

/-- The others are found as they restrict and name the key. -/
theorem find?_restriction (key : Jwk) (hname : name ∈ restrictionNames) :
    Json.Record.find? key.members name = Json.Record.find? key.restrictionMembers name := by
  have hne : "kty" ≠ name ∧ name ∉ materialNames := by
    revert name
    decide
  have hnames := names_materialTexts key.material
  rw [← names_textMembers] at hnames
  rw [members, Json.Record.find?_cons, if_neg hne.1, Json.Record.find?_append,
    Json.find?_eq_none hnames hne.2, Option.none_or]

/-! ### Members that are read -/

/-- The members of a written key that are texts wherever they are there. -/
def Written.texts (w : Written) : List (String × Option String) :=
  [("crv", w.crv), ("k", w.k), ("n", w.n), ("e", w.e), ("x", w.x), ("y", w.y), ("d", w.d),
   ("p", w.p), ("q", w.q), ("dp", w.dp), ("dq", w.dq), ("qi", w.qi), ("kid", w.kid),
   ("alg", w.alg)]

theorem asOperations?_operationsJson (ops : List KeyOperation) :
    asOperations? (operationsJson ops) = some ops := by
  have hread : (ops.map fun op => Json.str op.name).mapM (Json.asName? KeyOperation.ofName?) =
      some ops := by
    induction ops with
    | nil => rfl
    | cons op rest ih =>
        rw [List.map_cons, List.mapM_cons, ih]
        simp [Json.asName?, KeyOperation.ofName?_name]
  simpa [asOperations?, operationsJson, Json.asItems?] using hread

/-- A record is read member by member. -/
theorem Written.ofRecord_eq_ok (hkty : r.find? "kty" = some (.str w.kty))
    (htexts : ∀ m ∈ w.texts, r.find? m.1 = m.2.map .str)
    (huse : r.find? "use" = w.use.map fun use => .str use.name)
    (hoperations : r.find? "key_ops" = w.operations.map operationsJson) :
    Written.ofRecord r = .ok w := by
  have hkty' : r.required Json.asString? "kty" = .ok w.kty :=
    Json.Record.required_eq_ok (.str w.kty) hkty rfl
  have htext : ∀ m ∈ w.texts, r.optional Json.asString? m.1 = .ok m.2 := by
    intro m hm
    apply Json.Record.optional_eq_ok .str (htexts m hm)
    intro text _
    exact ⟨rfl, by simp⟩
  have huse' : r.optional (Json.asName? KeyUse.ofName?) "use" = .ok w.use := by
    apply Json.Record.optional_eq_ok _ huse
    intro use _
    exact ⟨KeyUse.ofName?_name use, by simp⟩
  have hoperations' : r.optional asOperations? "key_ops" = .ok w.operations := by
    apply Json.Record.optional_eq_ok _ hoperations
    intro ops _
    exact ⟨asOperations?_operationsJson ops, by simp [operationsJson]⟩
  simp only [texts, List.forall_mem_cons] at htext
  obtain ⟨hcrv, hk, hn, he, hx, hy, hd, hp, hq, hdp, hdq, hqi, hkid, halg, -⟩ := htext
  simp only [Written.ofRecord, hkty', hcrv, hk, hn, he, hd, hp, hq, hdp, hdq, hqi, hx, hy, huse',
    hoperations', hkid, halg, ok_bind, pure_eq_ok]

/-- A key as its members are written. -/
def written (key : Jwk) : Written :=
  let member (name : String) := (materialTexts key.material).lookup name
  { kty := key.type.name, crv := member "crv", k := member "k", n := member "n", e := member "e",
    d := member "d", p := member "p", q := member "q", dp := member "dp", dq := member "dq",
    qi := member "qi", x := member "x", y := member "y", use := key.use,
    operations := key.operations, kid := key.kid, alg := key.alg }

theorem texts_written (key : Jwk) :
    key.written.texts =
      (materialNames.map fun name => (name, (materialTexts key.material).lookup name)) ++
        [("kid", key.kid), ("alg", key.alg)] :=
  rfl

/-- A record in which the members of a key are found is read as they were written. -/
theorem ofRecord_written
    (h : ∀ name ∈ memberNames, r.find? name = Json.Record.find? key.members name) :
    Written.ofRecord r = .ok key.written := by
  have hrestriction (name : String) (hname : name ∈ restrictionNames) :
      r.find? name = Json.Record.find? key.restrictionMembers name := by
    have hmember : name ∈ memberNames := by
      revert name
      decide
    exact (h name hmember).trans (find?_restriction key hname)
  apply Written.ofRecord_eq_ok
  · exact (h "kty" (by decide)).trans (find?_kty key)
  · rw [texts_written, List.forall_mem_append]
    constructor
    · rw [List.forall_mem_map]
      intro name hname
      have hmember : name ∈ memberNames := by
        revert name
        decide
      exact (h name hmember).trans (find?_material key hname)
    · simp [hrestriction "kid" (by decide), hrestriction "alg" (by decide), restrictionMembers]
  · rw [hrestriction "use" (by decide)]
    simp [restrictionMembers, written]
  · rw [hrestriction "key_ops" (by decide)]
    simp [restrictionMembers, written]

/-! ### Material that is made again -/

theorem neededBytes_encode (name : String) (bytes : ByteArray) :
    neededBytes name (some (Base64Url.encode bytes)) = .ok bytes := by
  simp [neededBytes, needed]

theorem checkSize_eq_ok {expected : Nat} {bytes : ByteArray} :
    checkSize expected bytes = .ok () ↔ bytes.size = expected := by
  simp [checkSize]

theorem privateBytes_lookup {size : Nat} {d : Option ByteArray}
    (hsize : ∀ secret, d = some secret → secret.size = size) :
    privateBytes size ((privateTexts d).lookup "d") = .ok d := by
  cases d with
  | none => rfl
  | some d =>
      show privateBytes size (some (Base64Url.encode d)) = .ok (some d)
      rw [privateBytes, neededBytes_encode, ok_bind, checkSize_eq_ok.2 (hsize d rfl), ok_bind]

theorem octMaterial_written {k : ByteArray} (hkey : key.material = .oct k) :
    key.written.octMaterial = .ok (.oct k) := by
  have hk : key.written.k = some (Base64Url.encode k) := by
    simp [written, hkey, materialTexts]
  rw [Written.octMaterial, hk, neededBytes_encode, ok_bind]

theorem rsaMaterial_written {n e : ByteArray} {secret : Option RsaSecret}
    (hkey : key.material = .rsa n e secret) :
    key.written.rsaMaterial = .ok (.rsa n e secret) := by
  have hn : key.written.n = some (Base64Url.encode n) := by
    simp [written, hkey, materialTexts]
  have he : key.written.e = some (Base64Url.encode e) := by
    simp [written, hkey, materialTexts, List.lookup_cons]
  have hsecret : key.written.rsaSecret = .ok secret := by
    cases secret with
    | none => simp [Written.rsaSecret, written, hkey, materialTexts, secretTexts, List.lookup_cons]
    | some s =>
        simp [Written.rsaSecret, written, hkey, materialTexts, secretTexts, List.lookup_cons,
          neededBytes_encode]
  rw [Written.rsaMaterial, hsecret, ok_bind, hn, neededBytes_encode, ok_bind, he,
    neededBytes_encode, ok_bind]

theorem ecMaterial_written {curve : EllipticCurve} {x y : ByteArray} {d : Option ByteArray}
    (hkey : key.material = .ec curve x y d) (hsized : (KeyMaterial.ec curve x y d).Sized) :
    key.written.ecMaterial = .ok (.ec curve x y d) := by
  obtain ⟨hsizeX, hsizeY, hsizeD⟩ := hsized
  have hcurve : key.written.curve EllipticCurve.ofName? = .ok curve := by
    simp [Written.curve, written, hkey, materialTexts, needed, EllipticCurve.ofName?_name]
  have hx : key.written.x = some (Base64Url.encode x) := by
    simp [written, hkey, materialTexts, List.lookup_cons]
  have hy : key.written.y = some (Base64Url.encode y) := by
    simp [written, hkey, materialTexts, List.lookup_cons]
  have hd : key.written.d = (privateTexts d).lookup "d" := by
    simp [written, hkey, materialTexts, List.lookup_cons]
  rw [Written.ecMaterial, hcurve, ok_bind, hx, neededBytes_encode, ok_bind, hy,
    neededBytes_encode, ok_bind, checkSize_eq_ok.2 hsizeX, ok_bind, checkSize_eq_ok.2 hsizeY,
    ok_bind, hd, privateBytes_lookup hsizeD, ok_bind]

theorem okpMaterial_written {curve : OctetCurve} {x : ByteArray} {d : Option ByteArray}
    (hkey : key.material = .okp curve x d) (hsized : (KeyMaterial.okp curve x d).Sized) :
    key.written.okpMaterial = .ok (.okp curve x d) := by
  obtain ⟨hsizeX, hsizeD⟩ := hsized
  have hcurve : key.written.curve OctetCurve.ofName? = .ok curve := by
    simp [Written.curve, written, hkey, materialTexts, needed, OctetCurve.ofName?_name]
  have hx : key.written.x = some (Base64Url.encode x) := by
    simp [written, hkey, materialTexts, List.lookup_cons]
  have hd : key.written.d = (privateTexts d).lookup "d" := by
    simp [written, hkey, materialTexts, List.lookup_cons]
  rw [Written.okpMaterial, hcurve, ok_bind, hx, neededBytes_encode, ok_bind,
    checkSize_eq_ok.2 hsizeX, ok_bind, hd, privateBytes_lookup hsizeD, ok_bind]

theorem key_written (hsized : key.material.Sized) : key.written.key = .ok key := by
  have hkty : key.written.kty = key.material.type.name := rfl
  have hmaterial : key.written.material = .ok key.material := by
    rw [Written.material, hkty]
    cases hkey : key.material with
    | oct k => exact octMaterial_written hkey
    | rsa n e secret => exact rsaMaterial_written hkey
    | ec curve x y d => exact ecMaterial_written hkey (hkey ▸ hsized)
    | okp curve x d => exact okpMaterial_written hkey (hkey ▸ hsized)
  rw [Written.key, hmaterial, ok_bind]
  rfl

/-- A record in which the members of a key are found is read as the key. -/
theorem ofRecord_eq_ok (hsized : key.material.Sized)
    (h : ∀ name ∈ memberNames, r.find? name = Json.Record.find? key.members name) :
    ofRecord r = .ok key := by
  rw [ofRecord, ofRecord_written h, ok_bind, key_written hsized]
  rfl

/-! ### Written and read -/

theorem codable_operationsJson (ops : List KeyOperation) {levels : Nat} :
    (operationsJson ops).Codable (levels + 1) where
  readable := by
    apply Json.Readable.arr
    rw [List.forall_mem_map]
    intro op _
    exact .str op.name
  canonical := by
    rw [operationsJson, Json.canonical, Json.canonicalItems_eq_map, List.map_map]
    rfl

theorem codable_members (key : Jwk) {levels : Nat} :
    ∀ m ∈ key.members, m.2.Codable (levels + 1) := by
  have htexts : ∀ m ∈ textMembers (materialTexts key.material), m.2.Codable (levels + 1) := by
    rw [textMembers, List.forall_mem_map]
    intro m _
    exact Json.codable_str m.2
  rw [members, restrictionMembers, List.forall_mem_cons]
  simp only [List.forall_mem_append]
  refine ⟨Json.codable_str _, htexts, ⟨⟨?_, ?_⟩, ?_⟩, ?_⟩
  · exact Json.forall_mem_optionMember fun use _ => Json.codable_str use.name
  · exact Json.forall_mem_optionMember fun ops _ => codable_operationsJson ops
  · exact Json.forall_mem_optionMember fun kid _ => Json.codable_str kid
  · exact Json.forall_mem_optionMember fun alg _ => Json.codable_str alg

theorem memberNames_contains (key : Jwk) : ∀ m ∈ key.members, memberNames.contains m.1 = true := by
  intro m hm
  have hwritten : m.1 ∈ writtenNames := (names_members key).subset (List.mem_map_of_mem hm)
  revert hwritten
  generalize m.1 = name
  revert name
  decide

/-- A key is read from the front of a text, whatever stands behind it. -/
theorem read_chars (hsized : key.material.Sized) (rest : List Char) :
    read (key.toJson.chars ++ rest) = .ok (key, rest) := by
  have hrecord := @Json.Record.read_chars memberNames key.members rest (memberNames_contains key)
    (distinct_members key) fun m hm => (codable_members key m hm).readable
  have hfound : ∀ name ∈ memberNames, Json.Record.find? key.members.reverse name =
      Json.Record.find? key.members name := by
    intro name _
    exact Json.Record.find?_reverse (distinct_members key)
  rw [toJson_eq, read, hrecord, ok_bind]
  dsimp only
  rw [ofRecord_eq_ok hsized hfound]
  rfl

theorem ofText_toText (hsized : key.material.Sized) : ofText key.toText = .ok key := by
  have hread := read_chars hsized []
  rw [List.append_nil] at hread
  rw [ofText, toText, Json.print, String.toList_ofList, hread]
  rfl

/-- As a value a key has its members in the order of their names. -/
theorem ofJson_toJson (hsized : key.material.Sized) : ofJson key.toJson.canonical = .ok key := by
  have hfound : ∀ name ∈ memberNames,
      Json.Record.find? ((Object.ofMembers (Json.canonicalMembers key.members)).members.filter
        fun m => memberNames.contains m.1) name = Json.Record.find? key.members name := by
    intro name hname
    rw [Json.Record.find?_filter (List.contains_iff_mem.2 hname)]
    apply (Json.find?_canonical (distinct_members key)).trans
    cases hfind : Json.Record.find? key.members name with
    | none => rfl
    | some v =>
        have hcanonical : v.canonical = v :=
          (@codable_members key 0 _ (Json.Record.mem_of_find? hfind)).canonical
        rw [Option.map_some, hcanonical]
  rw [toJson_eq, Json.canonical, ofJson]
  exact ofRecord_eq_ok hsized hfound

end Jwk

end SealedToken
