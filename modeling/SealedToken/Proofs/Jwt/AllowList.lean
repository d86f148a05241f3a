import SealedToken.Proofs.Jwt.Release

/-!
Which list of allowed algorithms governs the validation of a token of claims. The
list is handed to the token when it is read, and that is the list under which it is
authenticated from then on. A list that is set later only has a say in the kind of
token that is expected.
-/

namespace SealedToken

variable {p : Primitives} {supply : Recipient → Jwk → Entropy} {keys : KeySource}
  {token : Carrier} {names : List String}

/-! ### The algorithms of a token -/

/-- The algorithms that the token itself accepts. -/
def Carrier.allowed : Carrier → Option (List String)
  | .signed token => token.options.allowed
  | .encrypted token => token.options.allowed

theorem Carrier.allowed_unauthenticated : token.unauthenticated.allowed = token.allowed := by
  cases token <;> rfl

/-- The token is authentic by algorithms of these names: by that of a signature that
verifies, or by both those of a recipient that opens the content. -/
inductive Carrier.AuthenticBy (p : Primitives) (supply : Recipient → Jwk → Entropy)
    (keys : KeySource) : Carrier → List String → Prop
  | signed {token : Jws} {payload : ByteArray} {s : SealedToken.Signature}
      (checked : Jws.Checked token.options none s) (held : token.held = some payload)
      (mem : s ∈ token.signatures) (verifies : checked.Verifies p payload keys) :
      AuthenticBy p supply keys (.signed token) [checked.name]
  | encrypted {token : Jwe} {content : EncryptedContent} {r : Recipient} {opened : Jwe.Opened}
      (checked : Jwe.Checked token r) (held : token.content = some content)
      (mem : r ∈ token.recipients) (unlocks : checked.Unlocks p supply content keys opened) :
      AuthenticBy p supply keys (.encrypted token)
        [checked.managementName, checked.encryptionName]

/-- A token that releases its payload is authentic by some algorithms. -/
theorem Carrier.authenticBy_of_releases {payload : ByteArray}
    (h : token.Releases p supply keys payload) : ∃ names, token.AuthenticBy p supply keys names := by
  cases h with
  | signed verified released =>
      obtain ⟨-, held, i, s, hs, -, checked, verifies⟩ :=
        Jws.releases_of_verify (by rw [verified]; exact released)
      exact ⟨_, .signed checked held (List.mem_of_getElem? hs) verifies⟩
  | encrypted decrypted released =>
      obtain ⟨-, content, held, r, hr, opened, -, checked, unlocks⟩ :=
        Jwe.releases_of_decrypt (by rw [decrypted]; exact released)
      exact ⟨_, .encrypted checked held hr unlocks⟩

theorem Carrier.AuthenticBy.exists_name (h : token.AuthenticBy p supply keys names) :
    ∃ name, name ∈ names := by
  cases h <;> exact ⟨_, List.mem_cons_self⟩

/-- Every one of them is permitted by the list of the token. -/
theorem Carrier.AuthenticBy.permitted (h : token.AuthenticBy p supply keys names) :
    ∀ name ∈ names, Algorithm.Permitted token.allowed name := by
  cases h with
  | signed checked held mem verifies => simp [allowed, checked.permitted]
  | encrypted checked held mem unlocks =>
      simp [allowed, checked.managementNamed.permitted, checked.encryptionNamed.permitted]

namespace Jwt

variable {t : Jwt}

/-! ### The list that a token was read with -/

theorem allowed_of_readCarrier {text : String} (h : t.readCarrier text = .ok token) :
    token.allowed = t.options.allowed := by
  unfold readCarrier at h
  obtain ⟨kind, -, h⟩ := bind_eq_ok.1 h
  cases kind with
  | signed =>
      obtain ⟨read, -, h⟩ := bind_eq_ok.1 h
      obtain rfl := Except.ok.inj h
      rfl
  | encrypted =>
      obtain ⟨read, -, h⟩ := bind_eq_ok.1 h
      obtain rfl := Except.ok.inj h
      rfl

/-- One step: the token that is held after a call was read by it, with the list of the
options of that time, or was held before, and then no token was read. -/
theorem Call.origin_of_current {c : Call} {after : Jwt} {outcome : Except Error Unit}
    (h : c.result p t = (outcome, after)) {held : Carrier} (hheld : after.current = some held) :
    (c.replaces = true ∧ held.allowed = t.options.allowed) ∨
      t.current = some held ∧ c.replaces = false := by
  cases c with
  | setOptions options =>
      obtain ⟨-, rfl⟩ := Prod.mk.inj h
      exact .inr ⟨hheld, rfl⟩
  | deserialize supply now raw keys =>
      simp only [result, Jwt.deserialize] at h
      split at h
      · next error hread =>
          obtain ⟨-, rfl⟩ := Prod.mk.inj h
          refine .inr ⟨hheld, ?_⟩
          rw [replaces, ← isOk_readCarrier (t := t), hread]
          rfl
      · next token hread =>
          have hreplaces : (Call.deserialize supply now raw keys).replaces = true := by
            rw [replaces, ← isOk_readCarrier (t := t), hread]
            rfl
          have hcurrent : after.current = some token.unauthenticated := by
            cases keys with
            | none =>
                obtain ⟨-, rfl⟩ := Prod.mk.inj h
                rfl
            | some keys => exact Validation.current_of_result (v := ⟨_, supply, now, keys⟩) h
          obtain rfl := Option.some.inj (hcurrent.symm.trans hheld)
          exact .inl
            ⟨hreplaces, Carrier.allowed_unauthenticated.trans (allowed_of_readCarrier hread)⟩
  | validate supply now keys =>
      have hcurrent := Validation.current_of_result (v := ⟨t, supply, now, keys⟩) h
      exact .inr ⟨hcurrent.symm.trans hheld, rfl⟩

/-- The token that is held accepts the algorithms that were configured when it was
read. -/
theorem allowed_of_current {options : JwtOptions} {calls : List Call} {held : Carrier}
    (h : (run p { options } calls).current = some held) :
    ∃ before d later, calls = before ++ d :: later ∧ d.replaces = true ∧
      (∀ e ∈ later, e.replaces = false) ∧
      held.allowed = (run p { options } before).options.allowed := by
  have hstep (t : Jwt) (c : Call) (hc : (c.result p t).2.current = some held) :
      (c.replaces = true ∧ held.allowed = t.options.allowed) ∨
        t.current = some held ∧ c.replaces = false :=
    Call.origin_of_current (Prod.ext rfl rfl) hc
  obtain ⟨before, d, later, hcalls, ⟨hreplaces, hallowed⟩, hlater⟩ :=
    Run.exists_origin (P := fun t : Jwt => t.current = some held) hstep (by simp [current]) h
  exact ⟨before, d, later, hcalls, hreplaces, hlater, hallowed⟩

/-! ### The list that is configured -/

/-- The object with another list of allowed algorithms. -/
def withAllowed (t : Jwt) (list : Option (List String)) : Jwt :=
  { t with options := { t.options with allowed := list } }

/-- As long as it leaves the expected kind of token, another list does not change how
a validation ends. -/
theorem validate_withAllowed {now : Int} {list : Option (List String)}
    (held : t.token = some token) (hkind : t.expectedKind keys = token.kind)
    (hlist : (t.withAllowed list).expectedKind keys = token.kind) :
    ((t.withAllowed list).validate p supply now keys).1 = (t.validate p supply now keys).1 := by
  have held' : (t.withAllowed list).token = some token := held
  simp only [validate, held, held', hkind, hlist, ne_eq, not_true_eq_false, if_false]
  -- the checks of the claims look at other options only
  split <;> rfl

/-- The same validation with another list of allowed algorithms. -/
def Validation.withAllowed (v : Validation) (list : Option (List String)) : Validation :=
  { v with start := v.start.withAllowed list }

theorem Validation.Holds.kind_eq {v : Validation} (h : v.Holds p)
    (held : v.start.token = some token) : v.start.expectedKind v.keys = token.kind := by
  obtain ⟨token', held', hkind⟩ := h.expected
  obtain rfl := Option.some.inj (held.symm.trans held')
  exact hkind

/-- With another list a validation that succeeds still does, provided that the list
leaves the expected kind of token. -/
theorem Validation.succeeds_withAllowed {v : Validation} {list : Option (List String)}
    {after : Jwt} (held : v.start.token = some token) (h : v.result p = (.ok (), after)) :
    ((v.withAllowed list).result p).1 = .ok () ↔
      (v.start.withAllowed list).expectedKind v.keys = token.kind := by
  constructor
  · intro hlist
    exact (Validation.holds (v := v.withAllowed list) (Prod.ext hlist rfl)).kind_eq held
  · intro hlist
    rw [result, withAllowed, validate_withAllowed held ((Validation.holds h).kind_eq held) hlist]
    exact congrArg Prod.fst h

/-- Let any options be set, any tokens be read and validated. When a call makes a
validation that succeeds, the token is authentic by algorithms which are permitted by
the list that was configured when the token was read; that is the present list unless
another was set since. The present list has no other part in it than that it may tell
which kind of token is expected: with any list in its place that leaves the kind, the
validation succeeds as well. -/
theorem list_of_reading_governs (p : Primitives) (options : JwtOptions) (calls : List Call)
    {c : Call} {v : Validation} (hv : c.validation? (run p { options } calls) = some v)
    (h : (c.result p (run p { options } calls)).1 = .ok ()) :
    ∃ token, v.start.token = some token ∧
      (∃ names, token.AuthenticBy p v.supply v.keys names) ∧
      (∃ before d later, calls ++ [c] = before ++ d :: later ∧ d.replaces = true ∧
        (∀ e ∈ later, e.replaces = false) ∧
        ∀ names, token.AuthenticBy p v.supply v.keys names →
          ∀ name ∈ names, Algorithm.Permitted (run p { options } before).options.allowed name) ∧
      ∀ list, ((v.withAllowed list).result p).1 = .ok () ↔
        (v.start.withAllowed list).expectedKind v.keys = token.kind := by
  obtain ⟨after, h⟩ := exists_eq_of_fst h
  have hrun : run p { options } (calls ++ [c]) = after := by
    rw [run, List.foldl_append]
    exact congrArg Prod.snd h
  rw [Call.result_of_validation hv] at h
  cases Validation.validates_of_result h with
  | checked held expected authentic read checks =>
      have hnames := Carrier.authenticBy_of_releases (releases_of_authenticate authentic)
      -- the token that is validated is the one that is held after the call
      have hstart : v.start.current = some (Carrier.unauthenticated _) :=
        congrArg (Option.map Carrier.unauthenticated) held
      have hcurrent := (Validation.current_of_result h).trans hstart
      rw [← hrun] at hcurrent
      obtain ⟨before, d, later, hcalls, hreplaces, hlater, hallowed⟩ := allowed_of_current hcurrent
      rw [Carrier.allowed_unauthenticated] at hallowed
      refine ⟨_, held, hnames, ⟨before, d, later, hcalls, hreplaces, hlater, ?_⟩, fun list =>
        Validation.succeeds_withAllowed held h⟩
      intro names hnames name hname
      rw [← hallowed]
      exact hnames.permitted name hname

/-! ### A list that is withdrawn -/

/-- A token without a key is read while that is allowed, and then it no longer is. -/
def withdrawnCalls : List Call :=
  [.setOptions { allowed := some [SigningAlgorithm.unsecured.name] },
    .deserialize (fun _ _ => .ofSeed .empty) 0 Jws.unsecuredText none,
    .setOptions {}]

/-- The token is validated after that. -/
def withdrawnCall : Call := .validate (fun _ _ => .ofSeed .empty) 0 (.single Jws.emptySecret)

def withdrawnValidation : Validation where
  start := run .standard {} withdrawnCalls
  supply := fun _ _ => .ofSeed .empty
  now := 0
  keys := .single Jws.emptySecret

theorem result_withdrawnCall :
    (withdrawnCall.result .standard (run .standard {} withdrawnCalls)).1 = .ok () :=
  toOption_eq_some.1 (by decide +kernel)

theorem withdrawn_list_of_reading :
    ∃ token, withdrawnValidation.start.token = some token ∧
      ∃ before d later, withdrawnCalls ++ [withdrawnCall] = before ++ d :: later ∧
        d.replaces = true ∧
        ∀ names, token.AuthenticBy .standard withdrawnValidation.supply withdrawnValidation.keys
            names → ∀ name ∈ names,
          Algorithm.Permitted (run .standard {} before).options.allowed name := by
  obtain ⟨token, held, -, ⟨before, d, later, hcalls, hreplaces, -, hpermitted⟩, -⟩ :=
    list_of_reading_governs .standard {} withdrawnCalls (v := withdrawnValidation) rfl
      result_withdrawnCall
  exact ⟨token, held, before, d, later, hcalls, hreplaces, hpermitted⟩

/-- The list that is configured does not govern: the token is authentic by an algorithm
that the list of that time does not permit. -/
theorem withdrawn_algorithm_accepted :
    withdrawnCall.validation? (run .standard {} withdrawnCalls) = some withdrawnValidation ∧
      (withdrawnCall.result .standard (run .standard {} withdrawnCalls)).1 = .ok () ∧
      ∃ token names, withdrawnValidation.start.token = some token ∧
        token.AuthenticBy .standard withdrawnValidation.supply withdrawnValidation.keys names ∧
        ∃ name ∈ names, ¬ Algorithm.Permitted withdrawnValidation.start.options.allowed name := by
  refine ⟨rfl, result_withdrawnCall, ?_⟩
  have hlist : withdrawnValidation.start.token.map Carrier.allowed =
      some (some [SigningAlgorithm.unsecured.name]) := by decide +kernel
  have hpresent : withdrawnValidation.start.options.allowed = none := by decide +kernel
  obtain ⟨after, hresult⟩ := exists_eq_of_fst (x := withdrawnValidation.result .standard)
    result_withdrawnCall
  cases Validation.validates_of_result hresult with
  | checked held expected authentic read checks =>
      obtain ⟨names, hnames⟩ :=
        Carrier.authenticBy_of_releases (releases_of_authenticate authentic)
      have hpermitted := hnames.permitted
      rw [held, Option.map_some, Option.some.injEq] at hlist
      rw [hlist] at hpermitted
      obtain ⟨name, hname⟩ := hnames.exists_name
      -- the only name that the list of the token permits
      obtain rfl := List.mem_singleton.1 (hpermitted name hname)
      refine ⟨_, names, held, hnames, _, hname, ?_⟩
      rw [hpresent]
      exact Algorithm.not_permitted_unsecured

end Jwt

end SealedToken
