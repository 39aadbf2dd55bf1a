import IdtxCore.JwtAuthHandler

/-!
# `JwksCache`: what a key-set document leaves cached

`usable` and `expected` say which keys a document should leave, from its entries alone. `loadJwksJson` agrees on them
as long as reading an entry throws nothing (`loadKeys_eq`). One entry that throws, of a wrong type or with components from
which no key can be built, ends the whole load, and without a `keys` array the load goes on after the log line
(`survives_iff`).
-/

namespace IdtxCore

namespace Json

def stringMember (json : Json) (key : String) : Option String :=
  match json.member key with
  | some (.string value) => some value
  | _ => none

/-- An object whose member of that name, if there is one, is a string. -/
def Typed (json : Json) (key : String) : Prop :=
  ∃ members, json = .object members ∧ ∀ v, members.lookup key = some v → ∃ value, v = .string value

theorem value_cases (json : Json) (key fallback : String) :
    (json.Typed key ∧ json.value key fallback = .ok ((json.stringMember key).getD fallback)) ∨
      ¬json.Typed key ∧ ∃ err, json.value key fallback = .error err := by
  cases json with
  | object members =>
    unfold value stringMember member
    dsimp only
    cases hv : members.lookup key with
    | none => exact .inl ⟨⟨members, rfl, fun v h => by rw [hv] at h; cases h⟩, rfl⟩
    | some v =>
      cases v with
      | string value => exact .inl ⟨⟨members, rfl, fun v h => ⟨value, by rw [hv] at h; cases h; rfl⟩⟩, rfl⟩
      | null | boolean | number | array | object =>
        refine .inr ⟨?_, _, rfl⟩
        rintro ⟨_, ⟨rfl⟩, hstring⟩
        obtain ⟨_, heq⟩ := hstring _ hv
        cases heq
  | null | boolean | number | string | array =>
    refine .inr ⟨?_, _, rfl⟩
    rintro ⟨_, heq, -⟩
    cases heq

/-- A run that does not throw has read a typed member, and the rest of it does not throw either. -/
theorem typed_of_not_error {α : Type} {json : Json} {key fallback : String} {f : String → Except String α}
    (h : ¬∃ err, (json.value key fallback >>= f) = .error err) :
    json.Typed key ∧ ¬∃ err, f ((json.stringMember key).getD fallback) = .error err := by
  rcases json.value_cases key fallback with ⟨htyped, heq⟩ | ⟨-, err, heq⟩
  · rw [heq] at h
    exact ⟨htyped, h⟩
  · exact absurd ⟨err, by rw [heq]; rfl⟩ h

/-- For a typed member, `value` gives a text other than the default only if the member has it. -/
theorem Typed.stringMember_eq_none_iff {json : Json} {key : String} (h : json.Typed key) :
    json.stringMember key = none ↔ json.member key = none := by
  obtain ⟨members, rfl, hstring⟩ := h
  unfold stringMember member
  dsimp only
  cases hv : members.lookup key with
  | none => exact ⟨fun _ => rfl, fun _ => rfl⟩
  | some v =>
    obtain ⟨value, rfl⟩ := hstring v hv
    exact iff_of_false (by simp) (by simp)

end Json

namespace JwksCache
variable (lib : JwtLibrary)

/-! ### The keys of a document -/

/-- An RSA signature key with an id. -/
def Selected (publicKey : Json) : Prop :=
  (publicKey.stringMember "kid").getD "" ≠ "" ∧
    (publicKey.member "use" = none ∨ publicKey.stringMember "use" = some "sig") ∧
    publicKey.stringMember "kty" = some "RSA"

instance : DecidablePred Selected := fun _ => inferInstanceAs (Decidable (_ ∧ _))

/-- The entry of a signature key from whose components a public key can be built. -/
def usable (publicKey : Json) : Option KeyEntry :=
  if Selected publicKey then
    match publicKey.stringMember "kid", publicKey.stringMember "n", publicKey.stringMember "e" with
    | some kid, some n, some e =>
      match lib.createPublicKeyFromRsaComponents n e with
      | .ok pem => some ⟨pem, kid, "RSA", "sig", (publicKey.stringMember "alg").getD ""⟩
      | .error _ => none
    | _, _, _ => none
  else none

/-- Of the usable entries of a kid the first one counts. -/
def expected (entries : List Json) : JwksCache := fun kid =>
  (entries.filterMap (usable lib)).find? fun entry => entry.kid = kid

def keysArray (json : Json) : Option (List Json) :=
  match json.member "keys" with
  | some (.array entries) => some entries
  | _ => none

/-! ### The load -/

/-- What the loop of `loadJwksJson` runs over; nothing if `operator[]` throws. -/
def iterated : Json → Option (List Json)
  | .object members => some ((members.lookup "keys").getD .null).elements
  | .null => some []
  | _ => none

/-- The cache after a call of `loadJwksJson`, which may throw. -/
def loadInto (cache : JwksCache) (jwksJson : String) : JwksCache :=
  match loadJwksJson lib jwksJson with
  | .ok loaded => loaded
  | .error _ => cache

/-- The components of a signature key are strings that make a public key. -/
def Builds (publicKey : Json) : Prop :=
  ∀ n e, publicKey.member "n" = some n → publicKey.member "e" = some e →
    ∃ modulus exponent pem, n = .string modulus ∧ e = .string exponent ∧
      lib.createPublicKeyFromRsaComponents modulus exponent = .ok pem

/-- Nothing throws when the entry is read. -/
structure Readable (publicKey : Json) : Prop where
  typed : ∀ key ∈ ["kty", "use", "kid", "alg"], publicKey.Typed key
  builds : Selected publicKey → Builds lib publicKey

variable {lib} {publicKey : Json}

theorem getD_eq_iff {o : Option String} {value fallback : String} (hne : value ≠ fallback) :
    o.getD fallback = value ↔ o = some value := by
  cases o with
  | none => exact iff_of_false (Ne.symm hne) (by simp)
  | some w => simp

theorem use_eq_sig_iff (h : publicKey.Typed "use") : (publicKey.stringMember "use").getD "sig" = "sig" ↔
    publicKey.member "use" = none ∨ publicKey.stringMember "use" = some "sig" := by
  rw [← h.stringMember_eq_none_iff]
  cases publicKey.stringMember "use" with
  | none => simp
  | some use => simp

theorem asString_of_member {key : String} {v : Json} (h : publicKey.member key = some v) :
    (∃ value, v = .string value ∧ v.asString = .ok value ∧ publicKey.stringMember key = some value) ∨
      (∀ value, v ≠ .string value) ∧ ∃ err, v.asString = .error err := by
  unfold Json.stringMember
  rw [h]
  cases v with
  | string value => exact .inl ⟨value, rfl, rfl, rfl⟩
  | null | boolean | number | array | object => exact .inr ⟨fun _ h => (by cases h), _, rfl⟩

/-- What `keyEntry` does with a selected key. -/
def build (lib : JwtLibrary) (publicKey : Json) : Except String (Option KeyEntry) :=
  match publicKey.member "n", publicKey.member "e" with
  | some n, some e => do
    let n ← n.asString
    let e ← e.asString
    let pem ← lib.createPublicKeyFromRsaComponents n e
    pure (some ⟨pem, (publicKey.stringMember "kid").getD "", "RSA", "sig", (publicKey.stringMember "alg").getD ""⟩)
  | _, _ => pure none

theorem keyEntry_of_typed (h : ∀ key ∈ ["kty", "use", "kid", "alg"], publicKey.Typed key) :
    keyEntry lib publicKey = if Selected publicKey then build lib publicKey else .ok none := by
  have hvalue : ∀ key ∈ ["kty", "use", "kid", "alg"], ∀ fallback,
      publicKey.value key fallback = .ok ((publicKey.stringMember key).getD fallback) := fun key hkey fallback => by
    rcases publicKey.value_cases key fallback with ⟨-, heq⟩ | ⟨hnot, -⟩
    · exact heq
    · exact absurd (h key hkey) hnot
  have huse := use_eq_sig_iff (h "use" (by simp))
  unfold keyEntry
  rw [hvalue "kty" (by simp), hvalue "use" (by simp), hvalue "kid" (by simp), hvalue "alg" (by simp)]
  simp only [bind, Except.bind]
  by_cases hselected : Selected publicKey
  · obtain ⟨hkid, hsig, hkty⟩ := hselected
    have hsig' := huse.2 hsig
    have hskip : ¬((publicKey.stringMember "kid").getD "" = "" ∨ (publicKey.stringMember "use").getD "sig" ≠ "sig") :=
      not_or.2 ⟨hkid, not_not.2 hsig'⟩
    rw [if_neg hskip, if_pos (by rw [hkty]; rfl), if_pos ⟨hkid, hsig, hkty⟩, hsig', hkty]
    rfl
  · rw [if_neg hselected]
    split_ifs with hskip hkty
    · rfl
    · rw [not_or, not_not] at hskip
      exact absurd ⟨hskip.1, huse.1 hskip.2, (getD_eq_iff (by decide)).1 hkty⟩ hselected
    · rfl

theorem keyEntry_of_not_typed (h : ¬∀ key ∈ ["kty", "use", "kid", "alg"], publicKey.Typed key) :
    ∃ err, keyEntry lib publicKey = .error err := by
  by_contra hnone
  refine h ?_
  unfold keyEntry at hnone
  obtain ⟨hkty, hnone⟩ := Json.typed_of_not_error hnone
  obtain ⟨huse, hnone⟩ := Json.typed_of_not_error hnone
  obtain ⟨hkid, hnone⟩ := Json.typed_of_not_error hnone
  obtain ⟨halg, -⟩ := Json.typed_of_not_error hnone
  simp only [List.mem_cons, List.not_mem_nil, or_false]
  rintro _ (rfl | rfl | rfl | rfl) <;> assumption

theorem usable_of_selected (h : Selected publicKey) : usable lib publicKey =
    match publicKey.stringMember "n", publicKey.stringMember "e" with
    | some n, some e =>
      match lib.createPublicKeyFromRsaComponents n e with
      | .ok pem => some ⟨pem, (publicKey.stringMember "kid").getD "", "RSA", "sig", (publicKey.stringMember "alg").getD ""⟩
      | .error _ => none
    | _, _ => none := by
  unfold usable
  rw [if_pos h]
  cases hkid : publicKey.stringMember "kid" with
  | none => exact absurd (by rw [hkid]; rfl) h.1
  | some kid => cases publicKey.stringMember "n" <;> cases publicKey.stringMember "e" <;> rfl

theorem build_cases (h : Selected publicKey) :
    (Builds lib publicKey ∧ build lib publicKey = .ok (usable lib publicKey)) ∨
      ¬Builds lib publicKey ∧ ∃ err, build lib publicKey = .error err := by
  rw [usable_of_selected h]
  unfold build Builds
  cases hn : publicKey.member "n" with
  | none =>
    refine .inl ⟨by rintro _ _ ⟨⟩, ?_⟩
    rw [show publicKey.stringMember "n" = none by unfold Json.stringMember; rw [hn]]
    rfl
  | some n =>
    cases he : publicKey.member "e" with
    | none =>
      refine .inl ⟨by rintro _ _ _ ⟨⟩, ?_⟩
      rw [show publicKey.stringMember "e" = none by unfold Json.stringMember; rw [he]]
      cases publicKey.stringMember "n" <;> rfl
    | some e =>
      rcases asString_of_member hn with ⟨modulus, rfl, hread, hmodulus⟩ | ⟨hnot, err, hthrow⟩
      rotate_left
      · refine .inr ⟨fun hbuilds => ?_, err, by simp only [hthrow]; rfl⟩
        obtain ⟨modulus, _, _, heq, -⟩ := hbuilds n e rfl rfl
        exact hnot modulus heq
      rcases asString_of_member he with ⟨exponent, rfl, hread', hexponent⟩ | ⟨hnot, err, hthrow⟩
      rotate_left
      · refine .inr ⟨fun hbuilds => ?_, err, by simp only [hread, hthrow]; rfl⟩
        obtain ⟨_, exponent, _, -, heq, -⟩ := hbuilds _ e rfl rfl
        exact hnot exponent heq
      rw [hmodulus, hexponent]
      simp only [hread, hread']
      cases hcreate : lib.createPublicKeyFromRsaComponents modulus exponent with
      | ok pem =>
        refine .inl ⟨?_, by simp only [bind, Except.bind, hcreate]; rfl⟩
        rintro _ _ ⟨rfl⟩ ⟨rfl⟩
        exact ⟨modulus, exponent, pem, rfl, rfl, hcreate⟩
      | error err =>
        refine .inr ⟨fun hbuilds => ?_, err, by simp only [bind, Except.bind, hcreate]⟩
        obtain ⟨_, _, pem, ⟨rfl⟩, ⟨rfl⟩, hok⟩ := hbuilds _ _ rfl rfl
        rw [hcreate] at hok
        cases hok

/-- An entry is read, or reading it throws. -/
theorem keyEntry_cases (lib : JwtLibrary) (publicKey : Json) :
    (Readable lib publicKey ∧ keyEntry lib publicKey = .ok (usable lib publicKey)) ∨
      ¬Readable lib publicKey ∧ ∃ err, keyEntry lib publicKey = .error err := by
  by_cases htyped : ∀ key ∈ ["kty", "use", "kid", "alg"], publicKey.Typed key
  · rw [keyEntry_of_typed htyped]
    split_ifs with hselected
    · exact (build_cases hselected).imp (fun h => ⟨⟨htyped, fun _ => h.1⟩, h.2⟩)
        fun h => ⟨fun hreadable => h.1 (hreadable.builds hselected), h.2⟩
    · left
      refine ⟨⟨htyped, fun h => absurd h hselected⟩, ?_⟩
      unfold usable
      rw [if_neg hselected]
  · exact .inr ⟨fun h => htyped h.typed, keyEntry_of_not_typed htyped⟩

/-! ### What a load leaves -/

theorem loadKeys_eq {entries : List Json} (h : ∀ publicKey ∈ entries, Readable lib publicKey) (cache : JwksCache) :
    loadKeys lib cache entries = .ok fun kid => (cache kid).or (expected lib entries kid) := by
  induction entries generalizing cache with
  | nil => exact congrArg Except.ok (funext fun kid => (Option.or_none ..).symm)
  | cons publicKey entries ih =>
    have hrest := ih fun e he => h e (List.mem_cons_of_mem _ he)
    rcases keyEntry_cases lib publicKey with ⟨-, heq⟩ | ⟨hnot, -⟩
    rotate_left
    · exact absurd (h publicKey List.mem_cons_self) hnot
    rw [loadKeys, heq]
    cases hentry : usable lib publicKey with
    | none =>
      show loadKeys lib cache entries = _
      rw [hrest]
      unfold expected
      rw [List.filterMap_cons_none hentry]
    | some entry =>
      show loadKeys lib (cache.emplace entry) entries = _
      rw [hrest]
      refine congrArg Except.ok (funext fun kid => ?_)
      unfold emplace expected
      rw [List.filterMap_cons_some hentry, List.find?_cons, Option.or_assoc]
      by_cases hkid : kid = entry.kid
      · rw [if_pos hkid, decide_eq_true hkid.symm, Option.some_or]
      · rw [if_neg hkid, decide_eq_false (Ne.symm hkid), Option.none_or]

theorem loadKeys_of_not_readable {entries : List Json} (h : ∃ publicKey ∈ entries, ¬Readable lib publicKey)
    (cache : JwksCache) : ∃ err, loadKeys lib cache entries = .error err := by
  induction entries generalizing cache with
  | nil => exact absurd h (by simp)
  | cons publicKey entries ih =>
    rw [loadKeys]
    rcases keyEntry_cases lib publicKey with ⟨hreadable, heq⟩ | ⟨-, err, heq⟩
    · have hrest : ∃ publicKey ∈ entries, ¬Readable lib publicKey := by
        obtain ⟨e, he, hnot⟩ := h
        rcases List.mem_cons.1 he with rfl | he
        · exact absurd hreadable hnot
        · exact ⟨e, he, hnot⟩
      rw [heq]
      cases usable lib publicKey with
      | none => exact ih hrest cache
      | some entry => exact ih hrest (cache.emplace entry)
    · exact ⟨err, by rw [heq]; rfl⟩

/-- A load runs over some entries, or `operator[]` throws. -/
theorem loadJwksJson_eq {doc : String} {json : Json} (hparse : lib.parse doc = .ok json) :
    (∃ entries, iterated json = some entries ∧ loadJwksJson lib doc = loadKeys lib (fun _ => none) entries) ∨
      iterated json = none ∧ ∃ err, loadJwksJson lib doc = .error err := by
  unfold loadJwksJson
  rw [hparse]
  cases json with
  | null => exact .inl ⟨[], rfl, rfl⟩
  | object members => exact .inl ⟨_, rfl, rfl⟩
  | boolean | number | string | array => exact .inr ⟨rfl, _, rfl⟩

theorem loadInto_of_readable {doc : String} {json : Json} {entries : List Json} (hparse : lib.parse doc = .ok json)
    (hentries : iterated json = some entries) (h : ∀ publicKey ∈ entries, Readable lib publicKey) (cache : JwksCache) :
    loadInto lib cache doc = expected lib entries := by
  rcases loadJwksJson_eq hparse with ⟨entries', heq, hload⟩ | ⟨hnone, -⟩
  · obtain rfl : entries' = entries := Option.some.inj (heq.symm.trans hentries)
    unfold loadInto
    rw [hload, loadKeys_eq h]
    exact funext fun kid => Option.none_or
  · rw [hnone] at hentries
    cases hentries

/-- A load that throws leaves the cache as it was. -/
theorem loadInto_of_throws {doc : String} {json : Json} (hparse : lib.parse doc = .ok json)
    (h : ∀ entries, iterated json = some entries → ∃ publicKey ∈ entries, ¬Readable lib publicKey) (cache : JwksCache) :
    loadInto lib cache doc = cache := by
  have hthrow : ∃ err, loadJwksJson lib doc = .error err := by
    rcases loadJwksJson_eq hparse with ⟨entries, heq, hload⟩ | ⟨-, herr⟩
    · rw [hload]
      exact loadKeys_of_not_readable (h entries heq) _
    · exact herr
  obtain ⟨err, herr⟩ := hthrow
  unfold loadInto
  rw [herr]

theorem iterated_of_keysArray {json : Json} {entries : List Json} (h : keysArray json = some entries) :
    iterated json = some entries := by
  cases json with
  | object members =>
    unfold keysArray Json.member at h
    dsimp only at h
    show some ((members.lookup "keys").getD .null).elements = _
    cases hkeys : members.lookup "keys" with
    | none => rw [hkeys] at h; cases h
    | some v =>
      rw [hkeys] at h
      cases v with
      | array values => exact h
      | null | boolean | number | string | object => cases h
  | null | boolean | number | string | array => cases h

/-- What a document should leave: its keys, or the cache as it was if it is no key set. -/
def Survives (lib : JwtLibrary) (cache : JwksCache) (doc : String) : Prop :=
  loadInto lib cache doc =
    match (lib.parse doc).toOption.bind keysArray with
    | some entries => expected lib entries
    | none => cache

/-- The entries of a `keys` array can all be read, and a document without one throws. Otherwise the cache must already be
what it comes to. -/
def Tolerated (lib : JwtLibrary) (cache : JwksCache) (doc : String) : Prop :=
  ∀ json, lib.parse doc = .ok json → ∀ entries, iterated json = some entries →
    ((keysArray json).isSome = true ↔ ∀ publicKey ∈ entries, Readable lib publicKey) ∨ cache = expected lib entries

theorem survives_iff (lib : JwtLibrary) (cache : JwksCache) (doc : String) :
    Survives lib cache doc ↔ Tolerated lib cache doc := by
  unfold Survives Tolerated
  cases hparse : lib.parse doc with
  | error err =>
    refine iff_of_true ?_ fun _ hok => nomatch hok
    unfold loadInto loadJwksJson
    rw [hparse]
    rfl
  | ok json =>
    simp only [Except.toOption, Option.bind_some, Except.ok.injEq, forall_eq']
    cases hkeys : keysArray json with
    | some entries =>
      have hentries := iterated_of_keysArray hkeys
      simp only [hentries, Option.some.injEq, forall_eq', Option.isSome_some, true_iff]
      by_cases hread : ∀ publicKey ∈ entries, Readable lib publicKey
      · exact iff_of_true (loadInto_of_readable hparse hentries hread cache) (.inl hread)
      · have hthrows : loadInto lib cache doc = cache := by
          refine loadInto_of_throws hparse (fun entries' heq => ?_) cache
          obtain rfl : entries = entries' := Option.some.inj (hentries.symm.trans heq)
          simpa using hread
        rw [hthrows, or_iff_right hread]
    | none =>
      cases hentries : iterated json with
      | none =>
        refine iff_of_true (loadInto_of_throws hparse (fun entries heq => ?_) cache) fun _ heq => nomatch heq
        rw [hentries] at heq
        cases heq
      | some entries =>
        simp only [Option.some.injEq, forall_eq', Option.isSome_none, Bool.false_eq_true, false_iff]
        by_cases hread : ∀ publicKey ∈ entries, Readable lib publicKey
        · rw [loadInto_of_readable hparse hentries hread cache, or_iff_right (not_not.2 hread)]
          exact eq_comm
        · have hthrows : loadInto lib cache doc = cache := by
            refine loadInto_of_throws hparse (fun entries' heq => ?_) cache
            obtain rfl : entries = entries' := Option.some.inj (hentries.symm.trans heq)
            simpa using hread
          exact iff_of_true hthrows (.inl hread)

/-- A document without keys, and one whose first key has a number for a modulus. -/
def noKeys : String := "\x7b\x7d"

def brokenKeys : String := "\x7b\"keys\":[\x7b\"kid\":\"a\",\"kty\":\"RSA\",\"n\":1,\"e\":\"AQAB\"\x7d," ++
  "\x7b\"kid\":\"b\",\"kty\":\"RSA\",\"n\":\"b-n\",\"e\":\"AQAB\"\x7d]\x7d"

def keysLibrary : JwtLibrary where
  decode _ := .error "invalid token supplied"
  createPublicKeyFromRsaComponents n _ := .ok n
  algorithm _ _ := .ok ()
  verify _ _ := .ok ()
  parse doc :=
    if doc = noKeys then .ok (.object [])
    else if doc = brokenKeys then
      .ok (.object [("keys", .array [
        .object [("kid", .string "a"), ("kty", .string "RSA"), ("n", .number 1), ("e", .string "AQAB")],
        .object [("kid", .string "b"), ("kty", .string "RSA"), ("n", .string "b-n"), ("e", .string "AQAB")]])])
    else .error "syntax error"

def oldKeys : JwksCache := fun kid => if kid = "old" then some ⟨"old-n", "old", "RSA", "sig", ""⟩ else none

/-- Without keys the document takes the cached ones away, and a broken key keeps the one after it out. -/
theorem keys_lost :
    loadInto keysLibrary oldKeys noKeys "old" = none ∧ ¬Survives keysLibrary oldKeys noKeys ∧
      loadInto keysLibrary oldKeys brokenKeys "b" = none ∧ ¬Survives keysLibrary oldKeys brokenKeys :=
  ⟨by decide, fun h => absurd (congrFun h "old") (by decide), by decide,
    fun h => absurd (congrFun h "b") (by decide)⟩

end JwksCache

/-- `refreshJwks` loads what it is served into the handler's cache; when the load throws it reports that. -/
theorem JwtAuthHandler.refreshJwks_cache (lib : JwtLibrary) (served : HttpResponse) (h : JwtAuthHandler) :
    (h.refreshJwks lib served).2.cache =
      if h.jwksUri ≠ "" ∧ served.ok = true then JwksCache.loadInto lib h.cache served.body else h.cache := by
  unfold refreshJwks
  by_cases huri : h.jwksUri = ""
  · rw [if_pos huri, if_neg fun hcond => hcond.1 huri]
  by_cases hok : served.ok = false
  · rw [if_neg huri, if_pos hok, if_neg fun hcond => by simp [hok] at hcond]
  · rw [if_neg huri, if_neg hok, if_pos ⟨huri, eq_true_of_ne_false hok⟩]
    unfold JwksCache.loadInto
    cases JwksCache.loadJwksJson lib served.body <;> rfl

end IdtxCore
