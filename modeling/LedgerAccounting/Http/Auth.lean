/-
  File:      LedgerAccounting/Http/Auth.lean
  Subject:   The service-token middleware (`authtoken.rs`) and the assembly of the REST router in
             `main.rs`.

  A layer wraps everything added before it, so the layer added last sees a request first. `main`
  adds `require_token` last: it runs before the layer that would set the secret, finds none, and
  lets the request pass. The unit tests of `authtoken.rs` add the two layers the other way round.

  * `guarded_in_test_order`: in the order of the tests the middleware guards the router.
  * `served_guarded_iff`: in the order of `main` it guards only requests that it need not refuse.
-/
import LedgerAccounting.Http.Handlers
import LedgerAccounting.Run

namespace LedgerAccounting

/-! ## 1. Layers -/

abbrev Layer := Service → Service

/-- `Router::layer`: the new layer is the outermost. -/
def Service.layer (router : Service) (l : Layer) : Service := l router

/-- `Extension(SharedSecret(secret))`. -/
def extension (secret : String) : Layer := fun next req state =>
  next { req with sharedSecret := some secret } state

def skipPaths : List String := ["/healthz", "/readyz", "/metrics"]

def stripPrefix (pre s : String) : Option String :=
  if pre.toList.isPrefixOf s.toList then some (String.ofList (s.toList.drop pre.toList.length))
  else none

def unauthorized (message : String) (state : LedgerState) : Outcome :=
  ⟨⟨401, .unauthorized message⟩, none, state⟩

section Auth

-- `jsonwebtoken::decode`, of a token under a secret
variable (decode : String → String → Except String Unit)

def requireToken : Layer := fun next req state =>
  if skipPaths.contains req.path then next req state
  else
    match req.sharedSecret with
    | none => next req state
    | some secret =>
      let auth := req.authorization.getD ""
      let token := (stripPrefix "Bearer " auth).getD ""
      if token.isEmpty then unauthorized "missing or malformed Authorization header" state
      else
        match decode token secret with
        | .ok () => next req state
        | .error e => unauthorized s!"invalid token: {e}" state

/-- The REST service as `main` and `app` assemble it. -/
def assemble (secret : Option String) (router : Service) : Service :=
  let router := match secret with
    | some s => router.layer (extension s)
    | none => router
  router.layer (requireToken decode)

/-- The service as the tests of `authtoken.rs` assemble it. -/
def assembleInTests (secret : Option String) (router : Service) : Service :=
  let router := router.layer (requireToken decode)
  match secret with
  | some s => router.layer (extension s)
  | none => router

/-- A request from the network carries no extension. -/
def serve (service : Service) (req : HttpRequest) (state : LedgerState) : Outcome :=
  service { toHttpRequest := req, sharedSecret := none } state

/-! ## 2. What the middleware is for -/

/-- The request carries a bearer token that decodes under the secret. -/
def Authorized (secret : String) (req : HttpRequest) : Prop :=
  ∃ token, req.authorization = some ("Bearer " ++ token) ∧ decode token secret = .ok ()

/-- A handler runs only for an authorized request; every other request is answered 401 and changes
    nothing. -/
def Guarded (secret : String) (req : HttpRequest) (state : LedgerState) (out : Outcome) : Prop :=
  (out.handler.isSome → Authorized decode secret req) ∧
    (¬ Authorized decode secret req → out.response.status = 401 ∧ out.state = state)

end Auth

variable {decode : String → String → Except String Unit}

theorem stripPrefix_some {pre s t : String} (h : stripPrefix pre s = some t) : s = pre ++ t := by
  unfold stripPrefix at h
  split at h
  · rename_i hp
    obtain ⟨r, hr⟩ := List.isPrefixOf_iff_prefix.mp hp
    cases h
    rw [← String.toList_inj, String.toList_append, String.toList_ofList, ← hr]
    simp
  · cases h

theorem unauthorized_guarded (secret : String) (req : HttpRequest) (message : String)
    (state : LedgerState) : Guarded decode secret req state (unauthorized message state) := by
  refine ⟨fun h => ?_, fun _ => ⟨rfl, rfl⟩⟩
  cases h

/-- What the middleware lets pass under a secret is authorized. -/
theorem requireToken_guards (next : Service) (secret : String) (req : HttpRequest)
    (state : LedgerState) (hskip : req.path ∉ skipPaths) :
    Guarded decode secret req state
      (requireToken decode next { toHttpRequest := req, sharedSecret := some secret } state) := by
  unfold requireToken
  have hcontains : skipPaths.contains req.path = false := by simpa using hskip
  simp only [hcontains, Bool.false_eq_true, if_false]
  split
  · exact unauthorized_guarded _ _ _ _
  · rename_i htoken
    split
    · rename_i hdecode
      -- a token that is not empty was cut off behind the prefix
      cases hs : stripPrefix "Bearer " (req.authorization.getD "") with
      | none => simp [hs] at htoken
      | some token =>
        rw [hs] at hdecode
        have hauth : Authorized decode secret req := by
          refine ⟨token, ?_, hdecode⟩
          cases ha : req.authorization with
          | none =>
            have hnone : stripPrefix "Bearer " "" = none := by decide
            rw [ha, Option.getD_none, hnone] at hs
            cases hs
          | some auth =>
            rw [ha] at hs
            rw [← stripPrefix_some hs]
            rfl
        exact ⟨fun _ => hauth, fun hno => absurd hauth hno⟩
    · exact unauthorized_guarded _ _ _ _

/-- **In the order of the tests the middleware guards the router.** -/
theorem guarded_in_test_order (router : Service) (secret : String) (req : HttpRequest)
    (state : LedgerState) (hskip : req.path ∉ skipPaths) :
    Guarded decode secret req state
      (serve (assembleInTests decode (some secret) router) req state) :=
  requireToken_guards router secret req state hskip

/-! ## 3. The order of `main` -/

/-- In the order of `main` the middleware never finds a secret. -/
theorem serve_assemble (router : Service) (secret : String) (req : HttpRequest)
    (state : LedgerState) :
    serve (assemble decode (some secret) router) req state =
      router { toHttpRequest := req, sharedSecret := some secret } state := by
  unfold serve assemble Service.layer requireToken extension
  simp

/-- **The served router is guarded, decided**: a request is treated as the middleware promises
    exactly when its path is skipped anyway or it carries a token that decodes. -/
theorem served_guarded_iff (decode : String → String → Except String Unit) (x : Extract)
    (digest : ByteArray → String) (salt : String) (sup : Supply) (secret : String)
    (req : HttpRequest) (state : LedgerState) :
    (req.path ∉ skipPaths → Guarded decode secret req state
      (serve (assemble decode (some secret) (router x digest salt sup)) req state)) ↔
    req.path ∈ skipPaths ∨ Authorized decode secret req := by
  rw [serve_assemble]
  constructor
  · intro h
    by_contra hno
    push Not at hno
    exact router_status _ state ((h hno.1).2 hno.2).1
  · rintro (hskip | hauth) hpath
    · exact absurd hskip hpath
    · exact ⟨fun _ => hauth, fun hno => absurd hauth hno⟩

/-- Extractors that read the one account request of the sample, whatever the text. -/
def sampleExtract : Extract where
  createAccountRequest _ := .ok ⟨some "uc", "user_custodial", "BOTH", "user_custodial-uc", none⟩
  postingRequest _ := .ok sampleRequest
  listAccountsQuery _ := .ok ⟨none⟩
  limit _ := .ok none
  asset _ := .ok none
  ledgerQuery _ := .ok ⟨none, none, none, none⟩
  id segment := .ok segment

/-- **An account is created without any token**, although a secret is configured and no token
    decodes. -/
theorem unauthorized_account_created :
    ¬ ∀ (decode : String → String → Except String Unit) (x : Extract)
      (digest : ByteArray → String) (salt : String) (sup : Supply) (secret : String)
      (req : HttpRequest) (state : LedgerState), secret ≠ "" → req.path ∉ skipPaths →
      Guarded decode secret req state
        (serve (assemble decode (some secret) (router x digest salt sup)) req state) := by
  intro h
  have hguard := h (fun _ _ => .error "InvalidToken") sampleExtract sampleDigest sampleSalt
    sampleSupply "s3cret" ⟨.post, "/v1/accounts", "", none, ""⟩ .new (by decide) (by decide)
  rw [serve_assemble] at hguard
  have hran : (router sampleExtract sampleDigest sampleSalt sampleSupply
      { toHttpRequest := ⟨.post, "/v1/accounts", "", none, ""⟩, sharedSecret := some "s3cret" }
      .new).handler = some .createAccount := by decide +kernel
  obtain ⟨token, hauth, _⟩ := hguard.1 (by rw [hran]; rfl)
  cases hauth

end LedgerAccounting
