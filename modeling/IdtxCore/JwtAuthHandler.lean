import Mathlib.Data.List.Basic

/-!
# `JwtAuthHandler`: authentication of a request

`before_handle`, `authenticate`, `tryVerify` and the cache of the provider's keys. A call that may
throw returns an `Except`; `authenticate` catches what `jwt::decode` throws and nothing of what reading
the claims throws.

`authenticate` refreshes the keys if `tryVerify` reports the error text "Unknown kid". `tryVerify`
reports a missing key with another text, so the keys are never refreshed and a token counts only under
the cached keys.

jwt-cpp and the JSON parser are parameters (`JwtLibrary`).
-/

namespace IdtxCore

inductive Json where
  | null
  | boolean (value : Bool)
  | number (value : Int)
  | string (value : String)
  | array (values : List Json)
  | object (members : List (String × Json))

namespace Json

def member : Json → String → Option Json
  | .object members, key => members.lookup key
  | _, _ => none

/-- `as_string` and `get<std::string>` throw unless the value is a string. -/
def asString : Json → Except String String
  | .string value => .ok value
  | _ => .error "type must be string"

/-- `json::value`: a member or a default; throws unless the value is an object and the member a
string. -/
def value (json : Json) (key fallback : String) : Except String String :=
  match json with
  | .object members =>
    match members.lookup key with
    | some v => v.asString
    | none => .ok fallback
  | _ => .error "cannot use value()"

def elements : Json → List Json
  | .null => []
  | .array values => values
  | .object members => members.map Prod.snd
  | scalar => [scalar]

end Json

structure HttpResponse where
  ok : Bool
  body : String
  code : Int
  err : String

structure DecodedJwt where
  header : String → Option Json
  payload : String → Option Json

inductive JwtAlgorithm where
  | rs256
  | rs384
  | rs512
  | ps256
  | ps384
  | ps512
  deriving DecidableEq, Repr

def JwtAlgorithm.ofName (name : String) : Option JwtAlgorithm :=
  if name = "RS256" then some .rs256
  else if name = "RS384" then some .rs384
  else if name = "RS512" then some .rs512
  else if name = "PS256" then some .ps256
  else if name = "PS384" then some .ps384
  else if name = "PS512" then some .ps512
  else none

structure JwtVerifier where
  leeway : Nat
  issuer : String
  audiences : List String
  algorithm : JwtAlgorithm
  pem : String

/-- What the handler calls: jwt-cpp, with the messages of what it throws, and the JSON parser. -/
structure JwtLibrary where
  decode : String → Except String DecodedJwt
  createPublicKeyFromRsaComponents : String → String → Except String String
  /-- the constructors `rs256`, `rs384` and `rs512` with a public key -/
  algorithm : JwtAlgorithm → String → Except String Unit
  /-- signature, `iss`, `aud` and `exp` -/
  verify : JwtVerifier → DecodedJwt → Except String Unit
  parse : String → Except String Json

/-! ### The key cache -/

structure KeyEntry where
  pem : String
  kid : String
  kty : String
  use : String
  alg : String
  deriving DecidableEq, Repr

abbrev JwksCache := String → Option KeyEntry

namespace JwksCache
variable (lib : JwtLibrary)

def keyEntry (publicKey : Json) : Except String (Option KeyEntry) := do
  let kty ← publicKey.value "kty" ""
  let use ← publicKey.value "use" "sig"
  let kid ← publicKey.value "kid" ""
  let alg ← publicKey.value "alg" ""
  if kid = "" ∨ use ≠ "sig" then pure none
  else if kty = "RSA" then
    match publicKey.member "n", publicKey.member "e" with
    | some n, some e =>
      let n ← n.asString
      let e ← e.asString
      let pem ← lib.createPublicKeyFromRsaComponents n e
      pure (some ⟨pem, kid, kty, use, alg⟩)
    | _, _ => pure none
  else pure none

/-- `emplace`: the first key of a `kid` stays. -/
def emplace (cache : JwksCache) (entry : KeyEntry) : JwksCache := fun kid =>
  (cache kid).or (if kid = entry.kid then some entry else none)

def loadKeys (cache : JwksCache) : List Json → Except String JwksCache
  | [] => pure cache
  | publicKey :: rest => do
    match ← keyEntry lib publicKey with
    | some entry => loadKeys (cache.emplace entry) rest
    | none => loadKeys cache rest

/-- A missing `keys` is only logged: `operator[]` then gives null. -/
def loadJwksJson (jwksJson : String) : Except String JwksCache := do
  match ← lib.parse jwksJson with
  | .object members => loadKeys lib (fun _ => none) ((members.lookup "keys").getD .null).elements
  | .null => pure fun _ => none
  | _ => throw "cannot use operator[]"

end JwksCache

/-! ### The handler -/

structure JwtAuthHandler where
  isEnabled : Bool
  issuer : String
  jwksUri : String
  audiences : List String
  /-- empty: every algorithm is allowed -/
  allowedAlgs : List String
  leeway : Nat
  cache : JwksCache
  lastError : String := ""

structure AuthResult where
  success : Bool
  message : String
  sub : String
  deriving DecidableEq, Repr

inductive HttpMethod where
  | get
  | post
  | delete
  | options
  deriving DecidableEq, Repr

structure AuthRequest where
  method : HttpMethod
  url : String
  /-- the `Authorization` header; empty if there is none -/
  authorization : String

/-- What `before_handle` does with a request. -/
inductive Verdict where
  | pass (sub : String)
  | respond (code : Nat) (message : String)
  deriving DecidableEq, Repr

namespace JwtAuthHandler
variable (lib : JwtLibrary) (served : HttpResponse) (h : JwtAuthHandler)

/-- What it returns: an error carries the text that the source leaves in `out_error`. Only `verify` is called in a try
block, so what the algorithm throws is thrown on. -/
def tryVerify (decoded : DecodedJwt) (alg kid : String) : Except String (Except String Unit) :=
  match h.cache kid with
  | none => .ok (.error "Unknown key id kid")
  | some key =>
    if key.use ≠ "sig" then .ok (.error "jwk not for signing")
    else if key.kty ≠ "RSA" then .ok (.error "Unsupported key type")
    else if key.alg ≠ "" ∧ key.alg ≠ alg then .ok (.error "jwk alg mismatch")
    else
      match JwtAlgorithm.ofName alg with
      | none => .ok (.error "Unsupported algorithm")
      | some algorithm =>
        match lib.algorithm algorithm key.pem with
        | .error e => .error e
        | .ok _ =>
          match lib.verify ⟨h.leeway, h.issuer, h.audiences, algorithm, key.pem⟩ decoded with
          | .ok _ => .ok (.ok ())
          | .error e => .ok (.error ("Token verification failed: " ++ e))

/-- `served` is what a GET of `jwks_uri` returns. -/
def refreshJwks : Bool × JwtAuthHandler :=
  if h.jwksUri = "" then (false, { h with lastError := "jwks_uri not set" })
  else if served.ok = false then
    (false, { h with
      lastError := "Failed to GET jwks: HTTP " ++ toString served.code ++ " " ++ served.err })
  else
    match JwksCache.loadJwksJson lib served.body with
    | .ok cache => (true, { h with cache := cache })
    | .error e => (false, { h with lastError := "Failed to load JWKS: " ++ e })

def headerClaim (decoded : DecodedJwt) (name : String) : Except String String :=
  match decoded.header name with
  | some claim => claim.asString
  | none => .ok ""

def payloadClaim (decoded : DecodedJwt) (name : String) : Except String String :=
  match decoded.payload name with
  | some claim => claim.asString
  | none => .error "claim not found"

/-- `authenticate` after the token is decoded: nothing it throws is caught. -/
def authenticateDecoded (decoded : DecodedJwt) : Except String (AuthResult × JwtAuthHandler) := do
  let kid ← headerClaim decoded "kid"
  let alg ← headerClaim decoded "alg"
  let sub ← payloadClaim decoded "sub"
  if kid = "" then pure (⟨false, "Token missing 'kid'", sub⟩, h)
  else if alg = "" then pure (⟨false, "Token missing 'alg'", sub⟩, h)
  else if h.allowedAlgs ≠ [] ∧ alg ∉ h.allowedAlgs then
    pure (⟨false, "Disallowed algorithm: " ++ alg, sub⟩, h)
  else
    match ← h.tryVerify lib decoded alg kid with
    | .ok _ => pure (⟨true, "OK", sub⟩, h)
    | .error err =>
      -- one refresh, then a retry, only for an unknown kid
      if err = "Unknown kid" then
        match h.refreshJwks lib served with
        | (false, h') => pure (⟨false, err, sub⟩, h')
        | (true, h') =>
          match ← h'.tryVerify lib decoded alg kid with
          | .ok _ => pure (⟨true, "OK", sub⟩, h')
          | .error err' => pure (⟨false, err', sub⟩, h')
      else pure (⟨false, err, sub⟩, h)

def authenticate (token : String) : Except String (AuthResult × JwtAuthHandler) :=
  if token = "" then .ok (⟨false, "Missing token", ""⟩, h)
  else if h.issuer = "" ∨ h.jwksUri = "" then .ok (⟨false, "JwtAuth not initialized", ""⟩, h)
  else
    match lib.decode token with
    | .error e => .ok (⟨false, "Invalid token format: " ++ e, ""⟩, h)
    | .ok decoded => h.authenticateDecoded lib served decoded

def getBearerToken (request : AuthRequest) : Option String :=
  if "Bearer ".toList.isPrefixOf request.authorization.toList then
    some (String.ofList (request.authorization.toList.drop 7))
  else none

def authenticateRequest (request : AuthRequest) : Except String (AuthResult × JwtAuthHandler) :=
  match getBearerToken request with
  | none => .ok (⟨false, "Unauthorized: No Bearer token", ""⟩, h)
  | some token => h.authenticate lib served token

def isOpen (request : AuthRequest) : Bool :=
  request.method = .options || !h.isEnabled || request.url = "/api/v1/health" ||
    request.url = "/api/v1/auth/login"

def beforeHandle (request : AuthRequest) : Except String (Verdict × JwtAuthHandler) :=
  if h.isOpen request then .ok (.pass "", h)
  else do
    let (result, h') ← h.authenticateRequest lib served request
    if result.success then pure (.pass result.sub, h')
    else pure (.respond 401 result.message, h')

/-! ### Which tokens count -/

structure Claims (decoded : DecodedJwt) (kid alg sub : String) : Prop where
  kid_eq : headerClaim decoded "kid" = .ok kid
  alg_eq : headerClaim decoded "alg" = .ok alg
  sub_eq : payloadClaim decoded "sub" = .ok sub

/-- A well-formed token with an allowed algorithm. -/
structure Presents (token : String) (decoded : DecodedJwt) (kid alg sub : String) : Prop
    extends Claims decoded kid alg sub where
  token_ne : token ≠ ""
  initialized : ¬ (h.issuer = "" ∨ h.jwksUri = "")
  decode_eq : lib.decode token = .ok decoded
  kid_ne : kid ≠ ""
  alg_ne : alg ≠ ""
  allowed : ¬ (h.allowedAlgs ≠ [] ∧ alg ∉ h.allowedAlgs)

structure KeyVerifies (key : KeyEntry) (decoded : DecodedJwt) (alg : String) : Prop where
  use_eq : key.use = "sig"
  kty_eq : key.kty = "RSA"
  alg_matches : ¬ (key.alg ≠ "" ∧ key.alg ≠ alg)
  verifies : ∃ algorithm, JwtAlgorithm.ofName alg = some algorithm ∧ lib.algorithm algorithm key.pem = .ok () ∧
    lib.verify ⟨h.leeway, h.issuer, h.audiences, algorithm, key.pem⟩ decoded = .ok ()

def VerifiesCached (token : String) : Prop :=
  ∃ decoded kid alg sub key, h.Presents lib token decoded kid alg sub ∧ h.cache kid = some key ∧
    h.KeyVerifies lib key decoded alg

/-- The `kid` of the token is not cached, and the token verifies under the set that is served now. -/
def VerifiesFetched (token : String) : Prop :=
  ∃ decoded kid alg sub cache key, h.Presents lib token decoded kid alg sub ∧ h.cache kid = none ∧
    served.ok = true ∧ JwksCache.loadJwksJson lib served.body = .ok cache ∧ cache kid = some key ∧
    h.KeyVerifies lib key decoded alg

def Authenticates (token : String) : Prop :=
  ∃ result h', h.authenticate lib served token = .ok (result, h') ∧ result.success = true

section Verify
variable {lib : JwtLibrary} {served : HttpResponse} {h : JwtAuthHandler} {token kid alg : String}
  {decoded : DecodedJwt}

/-- The cached key is one that its algorithm does not take. -/
structure Refuses (lib : JwtLibrary) (h : JwtAuthHandler) (key : KeyEntry) (kid alg : String) : Prop where
  cached : h.cache kid = some key
  use_eq : key.use = "sig"
  kty_eq : key.kty = "RSA"
  alg_matches : ¬ (key.alg ≠ "" ∧ key.alg ≠ alg)
  refused : ∃ algorithm e, JwtAlgorithm.ofName alg = some algorithm ∧ lib.algorithm algorithm key.pem = .error e

/-- What `tryVerify` does: it throws for a key that its algorithm refuses. No text that it reports is the one that
`authenticate` waits for. -/
theorem tryVerify_cases (lib : JwtLibrary) (h : JwtAuthHandler) (decoded : DecodedJwt) (alg kid : String) :
    ((∃ key, h.Refuses lib key kid alg) ∧ ∃ e, h.tryVerify lib decoded alg kid = .error e) ∨
      (¬∃ key, h.Refuses lib key kid alg) ∧
        ((h.tryVerify lib decoded alg kid = .ok (.ok ()) ∧
            ∃ key, h.cache kid = some key ∧ h.KeyVerifies lib key decoded alg) ∨
          (∃ err, h.tryVerify lib decoded alg kid = .ok (.error err) ∧ err ≠ "Unknown kid") ∧
            ¬∃ key, h.cache kid = some key ∧ h.KeyVerifies lib key decoded alg) := by
  unfold tryVerify
  cases hkey : h.cache kid with
  | none =>
    refine .inr ⟨?_, .inr ⟨⟨_, rfl, by decide⟩, by simp⟩⟩
    rintro ⟨key, hrefuses⟩
    cases hkey.symm.trans hrefuses.cached
  | some key =>
    have hrefuses : (∃ key', h.Refuses lib key' kid alg) → h.Refuses lib key kid alg := by
      rintro ⟨key', hrefuses⟩
      obtain rfl : key = key' := Option.some.inj (hkey.symm.trans hrefuses.cached)
      exact hrefuses
    simp only [Option.some.injEq, exists_eq_left']
    split_ifs with huse hkty halg
    · exact .inr ⟨fun hr => huse (hrefuses hr).use_eq, .inr ⟨⟨_, rfl, by decide⟩, fun hv => huse hv.use_eq⟩⟩
    · exact .inr ⟨fun hr => hkty (hrefuses hr).kty_eq, .inr ⟨⟨_, rfl, by decide⟩, fun hv => hkty hv.kty_eq⟩⟩
    · exact .inr ⟨fun hr => (hrefuses hr).alg_matches halg, .inr ⟨⟨_, rfl, by decide⟩, fun hv => hv.alg_matches halg⟩⟩
    cases halgorithm : JwtAlgorithm.ofName alg with
    | none =>
      refine .inr ⟨fun hr => ?_, .inr ⟨⟨_, rfl, by decide⟩, fun hv => ?_⟩⟩
      · obtain ⟨algorithm, -, hsome, -⟩ := (hrefuses hr).refused
        cases halgorithm.symm.trans hsome
      · obtain ⟨algorithm, hsome, -⟩ := hv.verifies
        cases halgorithm.symm.trans hsome
    | some algorithm =>
      dsimp only
      cases hmade : lib.algorithm algorithm key.pem with
      | error e =>
        exact .inl ⟨⟨key, hkey, not_ne_iff.1 huse, not_ne_iff.1 hkty, halg, algorithm, e, halgorithm, hmade⟩, e, rfl⟩
      | ok u =>
        have hunrefused : ¬∃ key', h.Refuses lib key' kid alg := by
          intro hr
          obtain ⟨algorithm', e, hsome, herr⟩ := (hrefuses hr).refused
          obtain rfl : algorithm = algorithm' := Option.some.inj (halgorithm.symm.trans hsome)
          cases hmade.symm.trans herr
        refine .inr ⟨hunrefused, ?_⟩
        dsimp only
        cases hverify : lib.verify ⟨h.leeway, h.issuer, h.audiences, algorithm, key.pem⟩ decoded with
        | ok u =>
          exact .inl ⟨rfl, not_ne_iff.1 huse, not_ne_iff.1 hkty, halg, algorithm, halgorithm, hmade, hverify⟩
        | error e =>
          refine .inr ⟨⟨_, rfl, fun heq => ?_⟩, fun hv => ?_⟩
          · have hlong : "Token verification failed: ".length = 27 := by decide
            have hshort : "Unknown kid".length = 11 := by decide
            have hlen := congrArg String.length heq
            rw [String.length_append, hlong, hshort] at hlen
            omega
          · obtain ⟨algorithm', hsome, -, hok⟩ := hv.verifies
            obtain rfl : algorithm = algorithm' := Option.some.inj (halgorithm.symm.trans hsome)
            cases hverify.symm.trans hok

/-- Reading the claims throws if one is not a string or the subject is missing. -/
def Unreadable (decoded : DecodedJwt) : Prop :=
  (∃ claim, decoded.header "kid" = some claim ∧ ∀ s, claim ≠ .string s) ∨
  (∃ claim, decoded.header "alg" = some claim ∧ ∀ s, claim ≠ .string s) ∨
  ∀ s, decoded.payload "sub" ≠ some (.string s)

theorem asString_cases (json : Json) :
    (∃ s, json = .string s ∧ json.asString = .ok s) ∨
      (∀ s, json ≠ .string s) ∧ ∃ e, json.asString = .error e := by
  cases json with
  | string s => exact .inl ⟨s, rfl, rfl⟩
  | null => exact .inr ⟨by simp, _, rfl⟩
  | boolean => exact .inr ⟨by simp, _, rfl⟩
  | number => exact .inr ⟨by simp, _, rfl⟩
  | array => exact .inr ⟨by simp, _, rfl⟩
  | object => exact .inr ⟨by simp, _, rfl⟩

theorem headerClaim_cases (decoded : DecodedJwt) (name : String) :
    (∃ s, headerClaim decoded name = .ok s ∧
        ∀ claim, decoded.header name = some claim → ∃ s, claim = .string s) ∨
      (∃ e, headerClaim decoded name = .error e) ∧
        ∃ claim, decoded.header name = some claim ∧ ∀ s, claim ≠ .string s := by
  unfold headerClaim
  cases decoded.header name with
  | none => exact .inl ⟨"", rfl, by simp⟩
  | some claim =>
    rcases asString_cases claim with ⟨s, hs, hok⟩ | ⟨hne, e, herr⟩
    · exact .inl ⟨s, hok, fun c hc => ⟨s, Option.some.inj hc ▸ hs⟩⟩
    · exact .inr ⟨⟨e, herr⟩, claim, rfl, hne⟩

theorem payloadClaim_cases (decoded : DecodedJwt) (name : String) :
    (∃ s, payloadClaim decoded name = .ok s ∧ decoded.payload name = some (.string s)) ∨
      (∃ e, payloadClaim decoded name = .error e) ∧
        ∀ s, decoded.payload name ≠ some (.string s) := by
  unfold payloadClaim
  cases decoded.payload name with
  | none => exact .inr ⟨⟨_, rfl⟩, by simp⟩
  | some claim =>
    rcases asString_cases claim with ⟨s, hs, hok⟩ | ⟨hne, e, herr⟩
    · exact .inl ⟨s, hok, by rw [hs]⟩
    · exact .inr ⟨⟨e, herr⟩, fun s hs => hne s (Option.some.inj hs)⟩

variable (lib served) in
theorem claims_cases (decoded : DecodedJwt) :
    (∃ kid alg sub, Claims decoded kid alg sub) ∨
      Unreadable decoded ∧ ∀ h : JwtAuthHandler, ∃ e, h.authenticateDecoded lib served decoded = .error e := by
  rcases headerClaim_cases decoded "kid" with ⟨kid, hkid, -⟩ | ⟨⟨e, hkid⟩, hbad⟩
  swap
  · exact .inr ⟨.inl hbad, fun h => ⟨e, by simp [authenticateDecoded, hkid, bind, Except.bind]⟩⟩
  rcases headerClaim_cases decoded "alg" with ⟨alg, halg, -⟩ | ⟨⟨e, halg⟩, hbad⟩
  swap
  · exact .inr ⟨.inr (.inl hbad), fun h => ⟨e, by simp [authenticateDecoded, hkid, halg, bind, Except.bind]⟩⟩
  rcases payloadClaim_cases decoded "sub" with ⟨sub, hsub, -⟩ | ⟨⟨e, hsub⟩, hbad⟩
  swap
  · exact .inr ⟨.inr (.inr hbad), fun h =>
      ⟨e, by simp [authenticateDecoded, hkid, halg, hsub, bind, Except.bind]⟩⟩
  exact .inl ⟨kid, alg, sub, hkid, halg, hsub⟩

theorem Claims.readable {sub : String} (hc : Claims decoded kid alg sub) : ¬ Unreadable decoded := by
  rintro (⟨claim, hclaim, hne⟩ | ⟨claim, hclaim, hne⟩ | hne)
  · rcases headerClaim_cases decoded "kid" with ⟨_, -, hstring⟩ | ⟨⟨e, he⟩, -⟩
    · obtain ⟨s, hs⟩ := hstring claim hclaim
      exact hne s hs
    · cases hc.kid_eq.symm.trans he
  · rcases headerClaim_cases decoded "alg" with ⟨_, -, hstring⟩ | ⟨⟨e, he⟩, -⟩
    · obtain ⟨s, hs⟩ := hstring claim hclaim
      exact hne s hs
    · cases hc.alg_eq.symm.trans he
  · rcases payloadClaim_cases decoded "sub" with ⟨s, -, hs⟩ | ⟨⟨e, he⟩, -⟩
    · exact hne s hs
    · cases hc.sub_eq.symm.trans he

theorem Claims.unique {decoded : DecodedJwt} {kid alg sub kid' alg' sub' : String}
    (hc : Claims decoded kid alg sub) (hc' : Claims decoded kid' alg' sub') :
    kid = kid' ∧ alg = alg' ∧ sub = sub' :=
  ⟨Except.ok.inj (hc.kid_eq.symm.trans hc'.kid_eq), Except.ok.inj (hc.alg_eq.symm.trans hc'.alg_eq),
    Except.ok.inj (hc.sub_eq.symm.trans hc'.sub_eq)⟩

/-- A key is looked up for the token, and its algorithm does not take it. -/
def Unusable (lib : JwtLibrary) (h : JwtAuthHandler) (kid alg : String) : Prop :=
  kid ≠ "" ∧ alg ≠ "" ∧ ¬ (h.allowedAlgs ≠ [] ∧ alg ∉ h.allowedAlgs) ∧ ∃ key, h.Refuses lib key kid alg

variable (lib served h) in
/-- With readable claims, what counts is the cached key: the error of a missing key is not the one that
causes a refresh. -/
theorem authenticateDecoded_of_claims {sub : String} (hc : Claims decoded kid alg sub) :
    (h.Unusable lib kid alg ∧ ∃ e, h.authenticateDecoded lib served decoded = .error e) ∨
      ¬h.Unusable lib kid alg ∧ ∃ result h', h.authenticateDecoded lib served decoded = .ok (result, h') ∧
        (result.success = true ↔ kid ≠ "" ∧ alg ≠ "" ∧ ¬ (h.allowedAlgs ≠ [] ∧ alg ∉ h.allowedAlgs) ∧
          ∃ key, h.cache kid = some key ∧ h.KeyVerifies lib key decoded alg) := by
  unfold authenticateDecoded
  simp only [hc.kid_eq, hc.alg_eq, hc.sub_eq, bind, Except.bind, pure, Except.pure]
  split_ifs with hkid halg hallowed
  · exact .inr ⟨fun hu => hu.1 hkid, _, _, rfl, by simp [hkid]⟩
  · exact .inr ⟨fun hu => hu.2.1 halg, _, _, rfl, by simp [halg]⟩
  · refine .inr ⟨fun hu => hu.2.2.1 hallowed, _, _, rfl, ?_⟩
    simp only [Bool.false_eq_true, false_iff]
    exact fun hx => hx.2.2.1 hallowed
  · rcases tryVerify_cases lib h decoded alg kid with ⟨hrefuses, e, hthrow⟩ | ⟨hnot, ⟨hok, hverifies⟩ |
      ⟨⟨err, herr, hne⟩, hverifies⟩⟩
    · simp only [hthrow]
      exact .inl ⟨⟨hkid, halg, hallowed, hrefuses⟩, e, rfl⟩
    · simp only [hok]
      exact .inr ⟨fun hu => hnot hu.2.2.2, _, _, rfl, iff_of_true rfl ⟨hkid, halg, hallowed, hverifies⟩⟩
    · simp only [herr, if_neg hne]
      exact .inr ⟨fun hu => hnot hu.2.2.2, _, _, rfl, iff_of_false Bool.false_ne_true fun hx => hverifies hx.2.2.2⟩

/-- The token can be decoded, and its claims cannot be read or its key cannot be used. -/
def Escapes (lib : JwtLibrary) (h : JwtAuthHandler) (token : String) : Prop :=
  token ≠ "" ∧ ¬ (h.issuer = "" ∨ h.jwksUri = "") ∧
    ∃ decoded, lib.decode token = .ok decoded ∧
      (Unreadable decoded ∨ ∃ kid alg sub, Claims decoded kid alg sub ∧ h.Unusable lib kid alg)

/-- `authenticate` throws for a token that escapes; for every other one it answers, and the answer is
that of the cached keys. -/
theorem authenticate_cases (lib : JwtLibrary) (served : HttpResponse) (h : JwtAuthHandler)
    (token : String) :
    (Escapes lib h token ∧ ∃ e, h.authenticate lib served token = .error e) ∨
      ¬ Escapes lib h token ∧ ∃ result h', h.authenticate lib served token = .ok (result, h') ∧
        (result.success = true ↔ h.VerifiesCached lib token) := by
  unfold authenticate
  by_cases hempty : token = ""
  · refine .inr ⟨fun he => he.1 hempty, _, _, if_pos hempty, ?_⟩
    simp only [Bool.false_eq_true, false_iff]
    rintro ⟨_, _, _, _, _, hp, -⟩
    exact hp.token_ne hempty
  rw [if_neg hempty]
  by_cases hinit : h.issuer = "" ∨ h.jwksUri = ""
  · refine .inr ⟨fun he => he.2.1 hinit, _, _, if_pos hinit, ?_⟩
    simp only [Bool.false_eq_true, false_iff]
    rintro ⟨_, _, _, _, _, hp, -⟩
    exact hp.initialized hinit
  rw [if_neg hinit]
  cases hdecode : lib.decode token with
  | error e =>
    refine .inr ⟨?_, _, _, rfl, ?_⟩
    · rintro ⟨-, -, decoded, hok, -⟩
      rw [hdecode] at hok
      cases hok
    · simp only [Bool.false_eq_true, false_iff]
      rintro ⟨_, _, _, _, _, hp, -⟩
      rw [hp.decode_eq] at hdecode
      cases hdecode
  | ok decoded =>
    rcases claims_cases lib served decoded with ⟨kid, alg, sub, hc⟩ | ⟨hbad, hthrow⟩
    · rcases authenticateDecoded_of_claims lib served h hc with ⟨hunusable, hthrow⟩ | ⟨husable, result, h', hauth,
        hsuccess⟩
      · exact .inl ⟨⟨hempty, hinit, decoded, hdecode, .inr ⟨kid, alg, sub, hc, hunusable⟩⟩, hthrow⟩
      refine .inr ⟨?_, ?_⟩
      · rintro ⟨-, -, decoded', hok, hbad | ⟨kid', alg', sub', hc', hunusable⟩⟩
        · rw [hdecode] at hok
          exact hc.readable (Except.ok.inj hok ▸ hbad)
        · obtain rfl : decoded = decoded' := Except.ok.inj (hdecode.symm.trans hok)
          obtain ⟨rfl, rfl, -⟩ := hc.unique hc'
          exact husable hunusable
      · refine ⟨result, h', hauth, hsuccess.trans ?_⟩
        constructor
        · rintro ⟨hkid, halg, hallowed, key, hkey, hverifies⟩
          exact ⟨decoded, kid, alg, sub, key, ⟨hc, hempty, hinit, hdecode, hkid, halg, hallowed⟩, hkey,
            hverifies⟩
        · rintro ⟨decoded', kid', alg', sub', key, hp, hkey, hverifies⟩
          obtain rfl : decoded = decoded' := Except.ok.inj (hdecode.symm.trans hp.decode_eq)
          obtain ⟨rfl, rfl, -⟩ := hc.unique hp.toClaims
          exact ⟨hp.kid_ne, hp.alg_ne, hp.allowed, key, hkey, hverifies⟩
    · exact .inl ⟨⟨hempty, hinit, decoded, hdecode, .inl hbad⟩, hthrow h⟩

theorem authenticates_iff : h.Authenticates lib served token ↔ h.VerifiesCached lib token := by
  rcases authenticate_cases lib served h token with ⟨hesc, e, hthrow⟩ | ⟨-, result, h', hok, hiff⟩
  · constructor
    · rintro ⟨result, h', hok, -⟩
      rw [hthrow] at hok
      cases hok
    · rintro ⟨decoded, kid, alg, sub, key, hp, hkey, hverifies⟩
      obtain ⟨-, -, decoded', hdecode, hbad⟩ := hesc
      obtain rfl : decoded = decoded' := Except.ok.inj (hp.decode_eq.symm.trans hdecode)
      rcases hbad with hbad | ⟨kid', alg', sub', hc, -, -, -, key', hrefuses⟩
      · exact absurd hbad hp.readable
      · obtain ⟨rfl, rfl, -⟩ := hp.toClaims.unique hc
        obtain rfl : key = key' := Option.some.inj (hkey.symm.trans hrefuses.cached)
        obtain ⟨algorithm, hsome, hmade, -⟩ := hverifies.verifies
        obtain ⟨algorithm', e, hsome', hrefused⟩ := hrefuses.refused
        obtain rfl : algorithm = algorithm' := Option.some.inj (hsome.symm.trans hsome')
        cases hmade.symm.trans hrefused
  · constructor
    · rintro ⟨result', h'', hok', hs⟩
      rw [hok] at hok'
      obtain ⟨rfl, -⟩ := Prod.mk.inj (Except.ok.inj hok')
      exact hiff.1 hs
    · exact fun hv => ⟨result, h', hok, hiff.2 hv⟩

/-- For every cache, every served set and every token: `authenticate` succeeds exactly for the tokens
that it should, unless the token is one that only a refresh would let in. -/
theorem authenticates_rotation_iff (lib : JwtLibrary) (served : HttpResponse) (h : JwtAuthHandler)
    (token : String) :
    (h.Authenticates lib served token ↔ h.VerifiesCached lib token ∨ h.VerifiesFetched lib served token) ↔
      ¬ h.VerifiesFetched lib served token := by
  rw [authenticates_iff]
  constructor
  · intro hlaw hfetched
    obtain ⟨decoded, kid, alg, sub, key, hp, hkey, -⟩ := hlaw.2 (.inr hfetched)
    obtain ⟨decoded', kid', alg', sub', -, -, hp', hnone, -⟩ := hfetched
    obtain rfl : decoded = decoded' := Except.ok.inj (hp.decode_eq.symm.trans hp'.decode_eq)
    obtain ⟨rfl, -, -⟩ := hp.toClaims.unique hp'.toClaims
    rw [hnone] at hkey
    cases hkey
  · intro hnot
    exact ⟨.inl, fun hor => hor.resolve_right hnot⟩

theorem getBearerToken_bearer (method : HttpMethod) (url token : String) :
    getBearerToken ⟨method, url, "Bearer " ++ token⟩ = some token := by
  have hlist : ("Bearer " ++ token).toList = "Bearer ".toList ++ token.toList := String.toList_append
  have hlen : "Bearer ".toList.length = 7 := by decide
  have hdrop : ("Bearer ".toList ++ token.toList).drop 7 = token.toList := by
    rw [← hlen]
    exact List.drop_left
  unfold getBearerToken
  rw [hlist, if_pos (List.isPrefixOf_iff_prefix.2 (List.prefix_append _ _)), hdrop, String.ofList_toList]

def RequestVerifies (lib : JwtLibrary) (served : HttpResponse) (h : JwtAuthHandler)
    (request : AuthRequest) : Prop :=
  ∃ token, getBearerToken request = some token ∧
    (h.VerifiesCached lib token ∨ h.VerifiesFetched lib served token)

/-- `before_handle` answers: it lets the request pass only if its token verifies, and says 401
otherwise. -/
def Decides (lib : JwtLibrary) (served : HttpResponse) (h : JwtAuthHandler) (request : AuthRequest) :
    Prop :=
  ∃ verdict h', h.beforeHandle lib served request = .ok (verdict, h') ∧
    ((∃ sub, verdict = .pass sub) ∧ RequestVerifies lib served h request ∨
      ∃ message, verdict = .respond 401 message)

/-- For every request to a protected URL: `before_handle` answers, unless the request carries a token
that can be decoded and whose claims cannot be read, or whose key the algorithm does not take. -/
theorem decides_iff (lib : JwtLibrary) (served : HttpResponse) (h : JwtAuthHandler)
    (request : AuthRequest) (hprotected : h.isOpen request = false) :
    Decides lib served h request ↔
      ¬ ∃ token, getBearerToken request = some token ∧ Escapes lib h token := by
  unfold Decides beforeHandle authenticateRequest
  rw [if_neg (by simp [hprotected])]
  cases hbearer : getBearerToken request with
  | none =>
    refine iff_of_true ⟨_, _, rfl, .inr ⟨_, rfl⟩⟩ ?_
    rintro ⟨token, heq, -⟩
    cases heq
  | some token =>
    rcases authenticate_cases lib served h token with ⟨hesc, e, hthrow⟩ | ⟨hesc, result, h', hok, hiff⟩
    · refine iff_of_false ?_ (not_not_intro ⟨token, rfl, hesc⟩)
      rintro ⟨verdict, h', heq, -⟩
      simp only [hthrow, bind, Except.bind] at heq
      cases heq
    · refine iff_of_true ?_ ?_
      · simp only [hok, bind, Except.bind]
        by_cases hs : result.success = true
        · rw [if_pos hs]
          exact ⟨_, _, rfl, .inl ⟨⟨_, rfl⟩, token, hbearer, .inl (hiff.1 hs)⟩⟩
        · rw [if_neg hs]
          exact ⟨_, _, rfl, .inr ⟨_, rfl⟩⟩
      · rintro ⟨token', heq, hesc'⟩
        rw [Option.some.inj heq] at hesc
        exact hesc hesc'

end Verify

/-! ### A provider that has rotated its keys -/

/-- The header `{"alg":"RS256","kid":"new"}` with the payload `{"sub":"u"}`, signed by the key "new". -/
def signedToken : String := "eyJhbGciOiJSUzI1NiIsImtpZCI6Im5ldyJ9.eyJzdWIiOiJ1In0.c2ln"

/-- The same header with the payload `{}`. -/
def subjectlessToken : String := "eyJhbGciOiJSUzI1NiIsImtpZCI6Im5ldyJ9.e30.c2ln"

def sampleHeader (name : String) : Option Json :=
  if name = "kid" then some (.string "new") else if name = "alg" then some (.string "RS256") else none

def sampleLibrary : JwtLibrary where
  decode token :=
    if token = signedToken then
      .ok ⟨sampleHeader, fun name => if name = "sub" then some (.string "u") else none⟩
    else if token = subjectlessToken then .ok ⟨sampleHeader, fun _ => none⟩
    else .error "invalid token supplied"
  createPublicKeyFromRsaComponents n _ := .ok n
  algorithm _ _ := .ok ()
  verify verifier _ := if verifier.pem = "new-n" then .ok () else .error "invalid signature"
  parse body :=
    if body = "jwks" then
      .ok (.object [("keys", .array [.object [("kty", .string "RSA"), ("use", .string "sig"),
        ("kid", .string "new"), ("n", .string "new-n"), ("e", .string "AQAB")]])])
    else .error "syntax error"

def servedKeys : HttpResponse := ⟨true, "jwks", 200, ""⟩

def newKey : KeyEntry := ⟨"new-n", "new", "RSA", "sig", ""⟩

def sampleHandler (key : KeyEntry) : JwtAuthHandler where
  isEnabled := true
  issuer := "https://idp"
  jwksUri := "https://idp/jwks"
  audiences := ["idtx"]
  allowedAlgs := ["RS256", "PS256"]
  leeway := 60
  cache kid := if kid = key.kid then some key else none

theorem sampleHandler_presents (key : KeyEntry) : ∃ decoded,
    (sampleHandler key).Presents sampleLibrary signedToken decoded "new" "RS256" "u" :=
  ⟨_, ⟨rfl, rfl, rfl⟩, by decide, by simp [sampleHandler], rfl, by decide, by decide, by simp [sampleHandler]⟩

theorem sampleHandler_keyVerifies (key : KeyEntry) (decoded : DecodedJwt) :
    (sampleHandler key).KeyVerifies sampleLibrary newKey decoded "RS256" :=
  ⟨rfl, rfl, by decide, .rs256, by decide, rfl, rfl⟩

/-- The token of the new key is refused while the old key is cached. -/
theorem not_authenticates_after_rotation :
    let h := sampleHandler ⟨"old-n", "old", "RSA", "sig", ""⟩
    h.VerifiesFetched sampleLibrary servedKeys signedToken ∧
      ¬ h.Authenticates sampleLibrary servedKeys signedToken := by
  intro h
  obtain ⟨decoded, hp⟩ := sampleHandler_presents ⟨"old-n", "old", "RSA", "sig", ""⟩
  refine ⟨⟨decoded, "new", "RS256", "u", _, newKey, hp, by decide, rfl, rfl, rfl,
    sampleHandler_keyVerifies _ _⟩, ?_⟩
  rw [authenticates_iff]
  rintro ⟨decoded', kid, alg, sub, key, hp', hkey, -⟩
  obtain rfl : decoded = decoded' := Except.ok.inj (hp.decode_eq.symm.trans hp'.decode_eq)
  obtain ⟨rfl, -, -⟩ := hp.toClaims.unique hp'.toClaims
  cases hkey

/-- A token without a subject makes `before_handle` throw. -/
theorem beforeHandle_throws_without_subject :
    let h := sampleHandler newKey
    let request : AuthRequest := ⟨.get, "/api/v1/sessions", "Bearer " ++ subjectlessToken⟩
    h.isOpen request = false ∧
      h.beforeHandle sampleLibrary servedKeys request = .error "claim not found" ∧
      ¬ Decides sampleLibrary servedKeys h request := by
  intro h request
  have hthrow : h.beforeHandle sampleLibrary servedKeys request = .error "claim not found" := by
    have hprotected : h.isOpen request = false := by decide
    have hbearer : getBearerToken request = some subjectlessToken := getBearerToken_bearer ..
    rw [beforeHandle, if_neg (by simp [hprotected]), authenticateRequest, hbearer]
    rfl
  refine ⟨by decide, hthrow, ?_⟩
  rintro ⟨verdict, h', hok, -⟩
  rw [hthrow] at hok
  cases hok

theorem decides_signedToken :
    let h := sampleHandler newKey
    let request : AuthRequest := ⟨.get, "/api/v1/sessions", "Bearer " ++ signedToken⟩
    h.isOpen request = false ∧ Decides sampleLibrary servedKeys h request := by
  intro h request
  have hprotected : h.isOpen request = false := by decide
  refine ⟨hprotected, (decides_iff _ _ h request hprotected).2 ?_⟩
  rintro ⟨token, hbearer, -, -, decoded, hdecode, hbad⟩
  obtain rfl : signedToken = token := Option.some.inj ((getBearerToken_bearer ..).symm.trans hbearer)
  obtain ⟨decoded', hp⟩ := sampleHandler_presents newKey
  obtain rfl : decoded' = decoded := Except.ok.inj (hp.decode_eq.symm.trans hdecode)
  rcases hbad with hbad | ⟨kid, alg, sub, -, -, -, -, key, hrefuses⟩
  · exact hp.readable hbad
  · obtain ⟨algorithm, e, -, hrefused⟩ := hrefuses.refused
    cases hrefused

end JwtAuthHandler
end IdtxCore
