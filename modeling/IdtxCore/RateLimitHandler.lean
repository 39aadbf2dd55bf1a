import IdtxCore.JwtAuthHandler
import IdtxCore.RateLimiter

/-!
# `RateLimitHandler` and `AuthController`: the login lockout

The middleware refuses a login of a source that is locked out; the controller asks the identity
provider and reports the outcome to the same `LoginThrottler`. Each of the two computes the source from
the request by `ResolveClientIp`, the controller with the configured `trustForwardedFor`, the middleware
without it (the parameter's default is `true`). Where the two sources agree (`Agrees`) a lockout holds
(`lockout_lasts`).

The JSON parser is a parameter. Only `Record`s of the audit log are left out.
-/

namespace IdtxCore

structure LoginHttpRequest where
  method : HttpMethod
  url : String
  /-- as `get_header_value` gives it: empty if there is none -/
  xForwardedFor : String
  remoteIpAddress : String
  body : String

/-! ### The client's address -/

namespace RateLimitHandler

def isBlank (c : Char) : Bool := c = ' ' || c = '\t'

def trim (s : List Char) : List Char := ((s.dropWhile isBlank).reverse.dropWhile isBlank).reverse

def forwardedIp (req : LoginHttpRequest) : Option String :=
  if req.xForwardedFor = "" then none
  else
    match trim (req.xForwardedFor.toList.takeWhile (· ≠ ',')) with
    | [] => none
    | first => some (String.ofList first)

def peerIp (req : LoginHttpRequest) : String :=
  if req.remoteIpAddress = "" then "unknown" else req.remoteIpAddress

def resolveClientIp (req : LoginHttpRequest) (trustForwarded : Bool) : String :=
  if trustForwarded then (forwardedIp req).getD (peerIp req) else peerIp req

def normalisePath (url : String) : String := String.ofList (url.toList.takeWhile (· ≠ '?'))

def loginPath : String := "/api/v1/auth/login"

def uploadPath : String := "/api/v1/upload"

structure Config where
  globalMaxRequests : Nat := 300
  globalWindow : Int := 60
  loginMaxRequests : Nat := 10
  loginWindow : Int := 60
  loginMaxFailures : Nat := 5
  loginFailureWindow : Int := 300
  loginLockout : Int := 300
  loginMaxBodyBytes : Nat := 4 * 1024
  uploadMaxBodyBytes : Nat := 8 * 1024 * 1024 * 1024
  globalMaxBodyBytes : Nat := 8 * 1024 * 1024
  trustForwardedFor : Bool := true

end RateLimitHandler

/-! ### The middleware -/

structure ErrorResponse where
  code : Nat
  error : String
  message : String
  retryAfter : Option Int := none
  deriving DecidableEq, Repr

/-- The handler after `configure`; before it, `enabled` is false and nothing else is read. -/
structure RateLimitHandler where
  enabled : Bool
  config : RateLimitHandler.Config
  globalLimiter : SlidingWindowLimiter
  loginLimiter : SlidingWindowLimiter
  loginThrottler : LoginThrottler

/-- The times that the handling of one request reads from the clock. -/
structure Instants where
  lockedAt : Int
  loginAt : Int
  globalAt : Int
  contactedAt : Int
  recordedAt : Int
  ordered : lockedAt ≤ contactedAt ∧ contactedAt ≤ recordedAt

namespace RateLimitHandler

def configure (cfg : Config) (startedAt : Int) : RateLimitHandler where
  enabled := true
  config := cfg
  globalLimiter := .create cfg.globalMaxRequests cfg.globalWindow startedAt
  loginLimiter := .create cfg.loginMaxRequests cfg.loginWindow startedAt
  loginThrottler := .create cfg.loginMaxFailures cfg.loginFailureWindow cfg.loginLockout startedAt

variable (h : RateLimitHandler) (req : LoginHttpRequest) (times : Instants)

def isLogin : Bool := req.method = .post && normalisePath req.url = loginPath

def isUpload : Bool := req.method = .post && normalisePath req.url = uploadPath

def maxBody : Nat :=
  if isLogin req then h.config.loginMaxBodyBytes
  else if isUpload req then h.config.uploadMaxBodyBytes
  else h.config.globalMaxBodyBytes

def clientIp : String := resolveClientIp req true

def checkGlobal : Option ErrorResponse × RateLimitHandler :=
  let (d, limiter) := h.globalLimiter.allow ("global:" ++ clientIp req) times.globalAt
  let h := { h with globalLimiter := limiter }
  if d.allowed then (none, h)
  else (some ⟨429, "rate_limited", "Too many requests. Slow down.", some d.retryAfter⟩, h)

def checkLogin : Option ErrorResponse × RateLimitHandler :=
  let (d, limiter) := h.loginLimiter.allow ("login:" ++ clientIp req) times.loginAt
  let h := { h with loginLimiter := limiter }
  if d.allowed then h.checkGlobal req times
  else (some ⟨429, "rate_limited", "Too many login attempts. Slow down.", some d.retryAfter⟩, h)

/-- `none`: the request goes on to its route. -/
def beforeHandle : Option ErrorResponse × RateLimitHandler :=
  if h.enabled = false then (none, h)
  else if req.method = .options then (none, h)
  else if h.maxBody req < req.body.utf8ByteSize then
    (some ⟨413, "payload_too_large", "Request body exceeds the permitted size.", none⟩, h)
  else if isLogin req then
    let lockedFor := h.loginThrottler.lockedFor (clientIp req) times.lockedAt
    if 0 < lockedFor then
      (some ⟨429, "too_many_attempts", "Too many failed login attempts. Try again later.",
        some lockedFor⟩, h)
    else h.checkLogin req times
  else h.checkGlobal req times

end RateLimitHandler

/-! ### The controller -/

structure LoginRequest where
  username : String
  password : String
  deriving DecidableEq, Repr

structure LoginResponse where
  accessToken : String
  tokenType : String
  expiresIn : Option Int
  refreshToken : Option String
  scope : Option String
  deriving DecidableEq, Repr

structure TokenRequest where
  username : String
  password : String
  clientId : String
  clientSecret : Option String
  scope : Option String
  deriving DecidableEq, Repr

structure AuthController where
  tokenUrl : String
  clientId : String
  clientSecret : String
  scope : String
  trustForwardedFor : Bool := true

namespace AuthController

def invalidRequest (message : String) : ErrorResponse := ⟨400, "invalid_request", message, none⟩

/-- `at(key).get_to(field)` of a string field, with the two errors that `parse_json_dto` tells apart. -/
def requiredField (members : List (String × Json)) (key : String) : Except ErrorResponse String :=
  match members.lookup key with
  | none => .error (invalidRequest ("Missing required field: key '" ++ key ++ "' not found"))
  | some field =>
    match field.asString with
    | .ok value => .ok value
    | .error e => .error (invalidRequest ("Invalid field type: " ++ e))

variable (parse : String → Except String Json) (c : AuthController)

def parseLoginRequest (body : String) : Except ErrorResponse LoginRequest :=
  match parse body with
  | .error e => .error (invalidRequest ("Request body is not valid JSON: " ++ e))
  | .ok (.object members) => do
    let username ← requiredField members "username"
    let password ← requiredField members "password"
    pure ⟨username, password⟩
  | .ok _ => .error (invalidRequest "Request body must be a JSON object.")

def prepare (req : LoginHttpRequest) : Except ErrorResponse TokenRequest :=
  if c.tokenUrl = "" ∨ c.clientId = "" then
    .error ⟨503, "auth_unavailable", "Authentication is not configured on the server.", none⟩
  else do
    let creds ← parseLoginRequest parse req.body
    if creds.username = "" ∨ creds.password = "" then
      .error (invalidRequest "'username' and 'password' must not be empty.")
    else
      pure ⟨creds.username, creds.password, c.clientId,
        if c.clientSecret = "" then none else some c.clientSecret,
        if c.scope = "" then none else some c.scope⟩

def optionalString (members : List (String × Json)) (key : String) : Option String :=
  match members.lookup key with
  | some (.string value) => some value
  | _ => none

def optionalInt (members : List (String × Json)) (key : String) : Option Int :=
  match members.lookup key with
  | some (.number value) => some value
  | _ => none

def parseTokenResponse (body : String) : Option LoginResponse :=
  match parse body with
  | .ok (.object members) =>
    match members.lookup "access_token" with
    | some (.string token) =>
      some ⟨token, (optionalString members "token_type").getD "Bearer", optionalInt members "expires_in",
        optionalString members "refresh_token", optionalString members "scope"⟩
    | _ => none
  | _ => none

def clientIp (req : LoginHttpRequest) : String := RateLimitHandler.resolveClientIp req c.trustForwardedFor

/-- `Login` from the provider's answer on: the answer to the client and the throttler. -/
def finish (throttler : LoginThrottler) (req : LoginHttpRequest) (response : HttpResponse)
    (recordedAt : Int) : Except ErrorResponse LoginResponse × LoginThrottler :=
  if response.ok = false then
    if 400 ≤ response.code ∧ response.code < 500 then
      (.error ⟨401, "invalid_credentials", "Authentication failed.", none⟩,
        (throttler.recordFailure (c.clientIp req) recordedAt).2)
    else (.error ⟨502, "idp_unreachable", "Failed to contact the identity provider.", none⟩, throttler)
  else
    match parseTokenResponse parse response.body with
    | none =>
      (.error ⟨502, "idp_invalid_response", "Identity provider returned an invalid response.", none⟩,
        throttler)
    | some out => (.ok out, throttler.recordSuccess (c.clientIp req))

end AuthController

/-! ### The application -/

structure LoginApp where
  handler : RateLimitHandler
  controller : AuthController

structure Visit where
  req : LoginHttpRequest
  times : Instants
  idp : TokenRequest → HttpResponse

structure Contact where
  form : TokenRequest
  source : String
  lockedFor : Int
  deriving DecidableEq, Repr

/-- What became of a request; no reply is modelled for the other routes. -/
structure VisitRecord where
  contact : Option Contact
  reply : Option (Except ErrorResponse LoginResponse)

namespace LoginApp
open RateLimitHandler

def initializeApp (config : Config) (controller : AuthController) (startedAt : Int) : LoginApp where
  handler := configure config startedAt
  controller := { controller with trustForwardedFor := config.trustForwardedFor }

variable (parse : String → Except String Json) (app : LoginApp) (v : Visit)

def login : VisitRecord × LoginApp :=
  match app.controller.prepare parse v.req with
  | .error e => (⟨none, some (.error e)⟩, app)
  | .ok form =>
    let throttler := app.handler.loginThrottler
    let source := app.controller.clientIp v.req
    let (reply, throttler') :=
      app.controller.finish parse throttler v.req (v.idp form) v.times.recordedAt
    (⟨some ⟨form, source, throttler.lockedFor source v.times.contactedAt⟩, some reply⟩,
      { app with handler := { app.handler with loginThrottler := throttler' } })

def visit : VisitRecord × LoginApp :=
  match app.handler.beforeHandle v.req v.times with
  | (some e, h) => (⟨none, some (.error e)⟩, { app with handler := h })
  | (none, h) =>
    if v.req.method = .post ∧ v.req.url = loginPath then login parse { app with handler := h } v
    else (⟨none, none⟩, { app with handler := h })

def run (app : LoginApp) : List Visit → List VisitRecord
  | [] => []
  | v :: rest => (app.visit parse v).1 :: run (app.visit parse v).2 rest

end LoginApp

/-! ### What the middleware checks -/

namespace RateLimitHandler

/-- The middleware and the controller take a request to be of the same source. -/
def Agrees (trustForwardedFor : Bool) (req : LoginHttpRequest) : Prop :=
  trustForwardedFor = true ∨ ∀ ip, forwardedIp req = some ip → ip = peerIp req

instance (trustForwardedFor : Bool) (req : LoginHttpRequest) : Decidable (Agrees trustForwardedFor req) :=
  inferInstanceAs (Decidable (_ ∨ _))

theorem clientIp_eq_iff (trustForwardedFor : Bool) (req : LoginHttpRequest) :
    clientIp req = resolveClientIp req trustForwardedFor ↔ Agrees trustForwardedFor req := by
  unfold clientIp resolveClientIp Agrees
  cases trustForwardedFor with
  | true => simp
  | false =>
    cases hf : forwardedIp req with
    | none => simp
    | some ip => simp

variable (h : RateLimitHandler) (req : LoginHttpRequest) (times : Instants)

theorem checkGlobal_throttler : (h.checkGlobal req times).2.loginThrottler = h.loginThrottler ∧
    (h.checkGlobal req times).2.enabled = h.enabled := by
  unfold checkGlobal
  dsimp only
  split <;> exact ⟨rfl, rfl⟩

theorem checkLogin_throttler : (h.checkLogin req times).2.loginThrottler = h.loginThrottler ∧
    (h.checkLogin req times).2.enabled = h.enabled := by
  unfold checkLogin
  dsimp only
  split
  · exact checkGlobal_throttler _ req times
  · exact ⟨rfl, rfl⟩

theorem beforeHandle_throttler : (h.beforeHandle req times).2.loginThrottler = h.loginThrottler ∧
    (h.beforeHandle req times).2.enabled = h.enabled := by
  unfold beforeHandle
  dsimp only
  split_ifs
  · exact ⟨rfl, rfl⟩
  · exact ⟨rfl, rfl⟩
  · exact ⟨rfl, rfl⟩
  · exact ⟨rfl, rfl⟩
  · exact checkLogin_throttler h req times
  · exact checkGlobal_throttler h req times

variable {h req times}

theorem lockedFor_eq_zero_of_beforeHandle (henabled : h.enabled = true) (hlogin : isLogin req = true)
    (hpass : (h.beforeHandle req times).1 = none) :
    h.loginThrottler.lockedFor (clientIp req) times.lockedAt = 0 := by
  have hmethod : req.method ≠ .options := by
    intro heq
    simp [isLogin, heq] at hlogin
  unfold beforeHandle at hpass
  rw [if_neg (by simp [henabled]), if_neg hmethod, if_pos hlogin] at hpass
  split at hpass
  · cases hpass
  dsimp only at hpass
  split at hpass
  · cases hpass
  · rename_i hpos
    exact Int.le_antisymm (Int.not_lt.1 hpos) LoginThrottler.lockedFor_nonneg

theorem isLogin_of_url (hmethod : req.method = .post) (hurl : req.url = loginPath) :
    isLogin req = true := by
  unfold isLogin
  rw [hmethod, hurl]
  decide

end RateLimitHandler

/-! ### Runs -/

namespace LoginApp
open RateLimitHandler
variable {parse : String → Except String Json} {app : LoginApp} {v : Visit}

structure Wired (trust : Bool) (app : LoginApp) : Prop where
  enabled : app.handler.enabled = true
  trust_eq : app.controller.trustForwardedFor = trust

theorem initializeApp_wired (config : Config) (controller : AuthController) (startedAt : Int) :
    (initializeApp config controller startedAt).Wired config.trustForwardedFor := ⟨rfl, rfl⟩

/-- What a request does: it is stopped before the provider, or it passes the lockout check and its
outcome is counted. -/
theorem visit_cases (parse : String → Except String Json) {trust : Bool} (hw : app.Wired trust) (v : Visit) :
    let throttler := app.handler.loginThrottler
    let app' := (app.visit parse v).2
    app'.Wired trust ∧
      ((app.visit parse v).1.contact = none ∧ app'.handler.loginThrottler = throttler ∨
        ∃ form response, (app.visit parse v).1.contact =
            some ⟨form, app.controller.clientIp v.req,
              throttler.lockedFor (app.controller.clientIp v.req) v.times.contactedAt⟩ ∧
          throttler.lockedFor (RateLimitHandler.clientIp v.req) v.times.lockedAt = 0 ∧
          app'.handler.loginThrottler =
            (app.controller.finish parse throttler v.req response v.times.recordedAt).2) := by
  obtain ⟨hthrottler, henabled⟩ := beforeHandle_throttler app.handler v.req v.times
  have hlocked : isLogin v.req = true → (app.handler.beforeHandle v.req v.times).1 = none →
      app.handler.loginThrottler.lockedFor (RateLimitHandler.clientIp v.req) v.times.lockedAt = 0 :=
    lockedFor_eq_zero_of_beforeHandle hw.enabled
  unfold visit
  rcases hbefore : app.handler.beforeHandle v.req v.times with ⟨_ | e, h⟩
  · simp only [hbefore] at hthrottler henabled hlocked ⊢
    split
    · rename_i hroute
      unfold login
      cases hprepare : app.controller.prepare parse v.req with
      | error e => exact ⟨⟨henabled.trans hw.enabled, hw.trust_eq⟩, .inl ⟨rfl, hthrottler⟩⟩
      | ok form =>
        refine ⟨⟨henabled.trans hw.enabled, hw.trust_eq⟩, .inr ⟨form, v.idp form, ?_, ?_, ?_⟩⟩
        · simp only [hthrottler]
        · exact hlocked (isLogin_of_url hroute.1 hroute.2) trivial
        · simp only [hthrottler]
    · exact ⟨⟨henabled.trans hw.enabled, hw.trust_eq⟩, .inl ⟨rfl, hthrottler⟩⟩
  · simp only [hbefore] at hthrottler henabled
    exact ⟨⟨henabled.trans hw.enabled, hw.trust_eq⟩, .inl ⟨rfl, hthrottler⟩⟩

theorem visit_lockedFor {trust : Bool} (hw : app.Wired trust) (hagrees : Agrees trust v.req) {k : Contact}
    (hk : (app.visit parse v).1.contact = some k) : k.lockedFor = 0 := by
  obtain ⟨-, ⟨hnone, -⟩ | ⟨form, response, hcontact, hzero, -⟩⟩ := visit_cases parse hw v
  · rw [hnone] at hk
    cases hk
  · rw [hcontact] at hk
    obtain rfl := Option.some.inj hk
    have hsource : RateLimitHandler.clientIp v.req = app.controller.clientIp v.req := by
      rw [AuthController.clientIp, hw.trust_eq]
      exact (clientIp_eq_iff trust v.req).2 hagrees
    rw [hsource] at hzero
    exact LoginThrottler.lockedFor_eq_zero_of_le v.times.ordered.1 hzero

theorem run_lockedFor {trust : Bool} (hw : app.Wired trust) {visits : List Visit}
    (hagrees : ∀ v ∈ visits, Agrees trust v.req) :
    ∀ record ∈ app.run parse visits, ∀ k, record.contact = some k → k.lockedFor = 0 := by
  induction visits generalizing app with
  | nil => simp [run]
  | cons v rest ih =>
    intro record hrecord k hk
    rcases List.mem_cons.1 hrecord with rfl | hrest
    · exact visit_lockedFor hw (hagrees v List.mem_cons_self) hk
    · exact ih (visit_cases parse hw v).1 (fun w hw' => hagrees w (List.mem_cons_of_mem _ hw')) record hrest k hk

theorem finish_lockedUntil {c : AuthController} {t : LoginThrottler} {req : LoginHttpRequest}
    {response : HttpResponse} {key : String} {bound recordedAt : Int} (hl : t.LockedUntil key bound)
    (hbefore : recordedAt < bound) (hsource : c.clientIp req ≠ key) :
    (c.finish parse t req response recordedAt).2.LockedUntil key bound := by
  unfold AuthController.finish
  split
  · split
    · rcases hl.recordFailure hbefore (c.clientIp req) with hl' | ⟨heq, -⟩
      · exact hl'
      · exact absurd heq hsource
    · exact hl
  · cases AuthController.parseTokenResponse parse response.body with
    | none => exact hl
    | some out => exact hl.recordSuccess hsource

/-- While at least a second of a lockout is left, a request that agrees does not reach the provider for
the locked source, and it does not end the lockout. -/
theorem visit_lockedUntil (parse : String → Except String Json) {trust : Bool} (hw : app.Wired trust)
    (hagrees : Agrees trust v.req)
    {key : String} {bound : Int} (hl : app.handler.loginThrottler.LockedUntil key bound)
    (hbefore : v.times.recordedAt + seconds 1 ≤ bound) :
    (app.visit parse v).2.handler.loginThrottler.LockedUntil key bound ∧
      ∀ k, (app.visit parse v).1.contact = some k → k.source ≠ key := by
  have hsecond : seconds 1 = 1000000000 := rfl
  have horder := v.times.ordered
  obtain ⟨-, ⟨hnone, hsame⟩ | ⟨form, response, hcontact, -, hfinish⟩⟩ := visit_cases parse hw v
  · rw [hsame, hnone]
    refine ⟨hl, ?_⟩
    intro k hk
    cases hk
  · have hzero := visit_lockedFor hw hagrees hcontact
    have hsource : app.controller.clientIp v.req ≠ key := by
      rintro rfl
      have hpos : 0 < app.handler.loginThrottler.lockedFor (app.controller.clientIp v.req)
          v.times.contactedAt := hl.lockedFor_pos (by omega)
      exact absurd hzero (by simpa using Int.ne_of_gt hpos)
    rw [hfinish, hcontact]
    refine ⟨finish_lockedUntil hl (by omega) hsource, ?_⟩
    rintro k hk
    obtain rfl := Option.some.inj hk
    exact hsource

/-- Once a source is locked out, no request of it reaches the provider until the last second of the
lockout, whatever the other sources do. -/
theorem lockout_lasts {trust : Bool} (hw : app.Wired trust) {visits : List Visit} {key : String}
    {bound : Int} (hl : app.handler.loginThrottler.LockedUntil key bound)
    (hagrees : ∀ v ∈ visits, Agrees trust v.req)
    (hbefore : ∀ v ∈ visits, v.times.recordedAt + seconds 1 ≤ bound) :
    ∀ record ∈ app.run parse visits, ∀ k, record.contact = some k → k.source ≠ key := by
  induction visits generalizing app with
  | nil => simp [run]
  | cons v rest ih =>
    obtain ⟨hl', hsource⟩ := visit_lockedUntil parse hw (hagrees v List.mem_cons_self) hl
      (hbefore v List.mem_cons_self)
    intro record hrecord
    rcases List.mem_cons.1 hrecord with rfl | hrest
    · exact hsource
    · exact ih (visit_cases parse hw v).1 hl' (fun w hw' => hagrees w (List.mem_cons_of_mem _ hw'))
        (fun w hw' => hbefore w (List.mem_cons_of_mem _ hw')) record hrest

/-- The middleware and the controller use the same source for exactly the requests that agree; in every
sequence of such requests, one that reaches the provider is of a source that is not locked out then. -/
theorem unlocked_at_provider (parse : String → Except String Json) (config : Config)
    (controller : AuthController) (startedAt : Int) :
    let app := initializeApp config controller startedAt
    (∀ req, RateLimitHandler.clientIp req = app.controller.clientIp req ↔
        Agrees config.trustForwardedFor req) ∧
      ∀ visits, (∀ v ∈ visits, Agrees config.trustForwardedFor v.req) →
        ∀ record ∈ app.run parse visits, ∀ k, record.contact = some k →
          k.lockedFor = 0 :=
  ⟨fun req => clientIp_eq_iff config.trustForwardedFor req,
    fun _ hagrees => run_lockedFor (initializeApp_wired config controller startedAt) hagrees⟩

/-! ### Six logins -/

def sampleBody : String := "\x7b\"username\":\"u\",\"password\":\"p\"\x7d"

def sampleParse (body : String) : Except String Json :=
  if body = sampleBody then .ok (.object [("username", .string "u"), ("password", .string "p")])
  else .error "syntax error"

def sampleVisit (n : Nat) (xForwardedFor : String) : Visit where
  req := ⟨.post, loginPath, xForwardedFor, "10.0.0.1", sampleBody⟩
  times := ⟨seconds n, seconds n, seconds n, seconds n, seconds n, Int.le_refl _, Int.le_refl _⟩
  idp _ := ⟨false, "", 401, "unauthorized"⟩

def sampleApp : LoginApp :=
  initializeApp { trustForwardedFor := false } ⟨"https://idp/token", "idtx", "", "", true⟩ 0

def sixLogins (xForwardedFor : String) : List Visit :=
  (List.range 5).map (fun n => sampleVisit n "") ++ [sampleVisit 5 xForwardedFor]

/-- The sixth login of a locked source reaches the provider with a header that the controller is told
not to trust. -/
theorem locked_source_reaches_provider :
    let forged := sampleVisit 5 "1.2.3.4"
    RateLimitHandler.clientIp forged.req = "1.2.3.4" ∧
      sampleApp.controller.clientIp forged.req = "10.0.0.1" ∧
      (sampleApp.run sampleParse (sixLogins "1.2.3.4")).map (fun r => r.contact.map Contact.lockedFor) =
        [some 0, some 0, some 0, some 0, some 0, some 299] := by
  decide +kernel

/-- With a header that names the peer, it does not. -/
theorem unlocked_at_provider_sixLogins :
    (sampleApp.run sampleParse (sixLogins " 10.0.0.1 , 10.0.0.9")).map (fun r => r.contact.isSome) =
        [true, true, true, true, true, false] ∧
      ∀ record ∈ sampleApp.run sampleParse (sixLogins " 10.0.0.1 , 10.0.0.9"), ∀ k,
        record.contact = some k → k.lockedFor = 0 :=
  ⟨by decide +kernel, (unlocked_at_provider sampleParse _ _ _).2 _ (by decide +kernel)⟩

end LoginApp
end IdtxCore
