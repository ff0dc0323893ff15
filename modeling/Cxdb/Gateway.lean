import Cxdb.DataDir
import Cxdb.HttpPath

/-!
# The Gateway

The HTTP server of `proxy/server.go`: a rate limit on the login paths, then the middleware of
`middleware.go`, which asks readers for a session except on its public paths, and then the
routes. Everything below `/v1/` but the event stream is forwarded to the backend.

## Main results

* `isPublicPath_below`: the public paths below `/v1/`.
* `anonymous_reads`: what the gateway does with the read of a client that it does not know.
-/

open ByteFormat HttpPath

namespace Cxdb.Gateway

/-! ### Requests -/

/-- `Session` of `session.go`, as far as the gateway passes it on. -/
structure Session where
  id : Bytes
  email : Bytes
  name : Bytes
  deriving DecidableEq

/-- An HTTP request. The session store looks at the cookies. -/
structure Request where
  method : Bytes
  url : RequestUrl
  cookies : List (Bytes × Bytes)
  authorization : Bytes
  accept : Bytes
  xForwardedFor : Bytes
  remoteAddr : Bytes

/-- The functions of Go's `strings` and `net` that the middleware calls. -/
structure GoLib where
  /-- `strings.ToLower`. -/
  toLower : Bytes → Bytes
  /-- `strings.TrimSpace`. -/
  trimSpace : Bytes → Bytes
  /-- The host of `net.SplitHostPort`. -/
  splitHostPort : Bytes → Option Bytes

/-- The lower case of an ASCII character. -/
def asciiLower (b : UInt8) : UInt8 := if 65 ≤ b ∧ b ≤ 90 then b + 32 else b

/-- ASCII characters are mapped one by one, whatever follows. -/
structure GoLib.Lawful (lib : GoLib) : Prop where
  toLower_nil : lib.toLower [] = []
  toLower_append : ∀ as bs, as.all (· < 128) →
    lib.toLower (as ++ bs) = as.map asciiLower ++ lib.toLower bs

/-! ### Public paths -/

/-- `isPublicPath`. -/
def isPublicPath (lib : GoLib) (path : Bytes) : Prop :=
  let path := lib.toLower path
  path = utf8Bytes "/healthz" ∨ path = utf8Bytes "/readyz" ∨ path = utf8Bytes "/favicon.ico" ∨
    path = utf8Bytes "/login" ∨
    utf8Bytes "/auth/" <+: path ∨
    utf8Bytes "/_next/" <+: path ∨ utf8Bytes "/static/" <+: path ∨
    utf8Bytes ".css" <:+ path ∨ utf8Bytes ".js" <:+ path ∨ utf8Bytes ".ico" <:+ path ∨
    path = utf8Bytes "/v1/contexts" ∨
    path = utf8Bytes "/v1/metrics" ∨
    path = utf8Bytes "/v1/events"

instance (lib : GoLib) (path : Bytes) : Decidable (isPublicPath lib path) :=
  inferInstanceAs (Decidable (_ ∨ _))

/-- `shouldRateLimit`. -/
def shouldRateLimit (lib : GoLib) (path : Bytes) : Prop :=
  let path := lib.toLower path
  path = utf8Bytes "/login" ∨ utf8Bytes "/auth/" <+: path

instance (lib : GoLib) (path : Bytes) : Decidable (shouldRateLimit lib path) :=
  inferInstanceAs (Decidable (_ ∨ _))

/-- `isAPIRequest`. -/
def isAPIRequest (r : Request) : Prop :=
  utf8Bytes "/v1/" <+: r.url.path ∨ utf8Bytes "/api/" <+: r.url.path ∨
    r.authorization ≠ [] ∨
    (utf8Bytes "application/json" <:+: r.accept ∧ ¬utf8Bytes "text/html" <:+: r.accept)

instance (r : Request) : Decidable (isAPIRequest r) :=
  inferInstanceAs (Decidable (_ ∨ _))

/-- A read: any other method is let through. -/
def Request.IsRead (r : Request) : Prop :=
  r.method = utf8Bytes "GET" ∨ r.method = utf8Bytes "HEAD"

instance (r : Request) : Decidable r.IsRead := inferInstanceAs (Decidable (_ ∨ _))

/-! ### Authentication -/

/-- The handlers of the routes. -/
inductive Handler where
  | healthz
  | readyz
  | googleLogin
  | googleCallback
  | googleLogout
  | awsToken
  | me
  | sseBroker
  | proxy
  | static
  deriving DecidableEq

/-- A gateway: its configuration, its session store, and what its rate limiter allows to a
client at the moment. -/
structure Server where
  lib : GoLib
  sessionFromRequest : Request → Option Session
  tokenVerifiers : List (Bytes → Option Session)
  debugAuthToken : Bytes
  debugAuthAllowedIPs : Bytes
  devMode : Bool
  devEmail : Bytes
  devName : Bytes
  awsEnabled : Bool
  allows : Bytes → Bool

namespace Server

variable (g : Server) (r : Request)

/-- `getClientIP`, and `clientIP` of the server. -/
def clientIP : Bytes :=
  if r.xForwardedFor ≠ [] then g.lib.trimSpace (r.xForwardedFor.takeWhile (· ≠ 44))
  else (g.lib.splitHostPort r.remoteAddr).getD r.remoteAddr

/-- `parseAllowedIPs`. -/
def allowedIPs : List Bytes :=
  ((g.debugAuthAllowedIPs.splitOn 44).map g.lib.trimSpace).filter (· ≠ [])

/-- `extractBearerToken`. -/
def extractBearerToken : Bytes :=
  if utf8Bytes "Bearer " <+: r.authorization then r.authorization.drop 7 else []

/-- The session of the first verifier that accepts the bearer token. -/
def verifyBearer : Option Session :=
  let token := extractBearerToken r
  if token = [] then none else g.tokenVerifiers.findSome? fun verify => verify token

/-- `checkDebugAuth`. -/
def checkDebugAuth : Option Session :=
  if g.debugAuthToken = [] then none
  else if r.authorization ≠ g.debugAuthToken then none
  else if g.clientIP r ∉ g.allowedIPs then none
  else
    some ⟨utf8Bytes "debug-auth-session", utf8Bytes "debug@localhost",
      utf8Bytes "Debug Auth User"⟩

/-- The session that `DEV_MODE` puts in. -/
def devSession : Option Session :=
  if g.devMode then
    let email := g.lib.trimSpace g.devEmail
    let name := g.lib.trimSpace g.devName
    some ⟨utf8Bytes "dev-mode-session",
      if email = [] then utf8Bytes "dev@localhost" else email,
      if name = [] then utf8Bytes "Dev Mode User" else name⟩
  else none

/-- Who sends the request: the first of the ways to say so that works. -/
def session : Option Session :=
  (g.sessionFromRequest r).or ((g.verifyBearer r).or ((g.checkDebugAuth r).or g.devSession))

/-- What becomes of a request. -/
inductive Answer where
  | tooManyRequests
  | unauthorized
  | redirect (location : Bytes)
  | notFound
  | served (h : Handler) (user : Option Session)

/-- The routes, the more specific ones first. -/
def routes : List (Pattern × Handler) :=
  let exact (ss : List String) : Pattern := ⟨ss.map utf8Bytes, false⟩
  let below (ss : List String) : Pattern := ⟨ss.map utf8Bytes, true⟩
  [(exact ["healthz"], .healthz), (exact ["readyz"], .readyz),
    (exact ["auth", "google", "login"], .googleLogin),
    (exact ["auth", "google", "callback"], .googleCallback),
    (exact ["auth", "google", "logout"], .googleLogout)] ++
  (if g.awsEnabled then [(exact ["auth", "aws", "token"], .awsToken)] else []) ++
  [(exact ["api", "v1", "me"], .me), (exact ["v1", "events"], .sseBroker),
    (below ["v1"], .proxy), (below [], .static)]

/-- The multiplexer behind the middleware. -/
def serveHTTP (user : Option Session) : Answer :=
  match serveMux g.routes r.url.escapedPath with
  | .handler h => .served h user
  | .redirect location => .redirect location
  | .notFound => .notFound

/-- `RequireAuthForReadsWithOptions`. -/
def requireAuthForReads : Answer :=
  if ¬r.IsRead then g.serveHTTP r none
  else if isPublicPath g.lib r.url.path then g.serveHTTP r none
  else
    match g.session r with
    | some user => g.serveHTTP r (some user)
    | none =>
        if isAPIRequest r then .unauthorized else .redirect (utf8Bytes "/login")

/-- The chain of handlers, from the rate limit on. -/
def answer : Answer :=
  if shouldRateLimit g.lib r.url.path ∧ g.allows (g.clientIP r) = false then .tooManyRequests
  else g.requireAuthForReads r

/-! ### Reads of unknown clients -/

/-- The request says in no way who sends it, and the gateway makes up nobody. -/
structure Anonymous : Prop where
  cookie : g.sessionFromRequest r = none
  bearer : g.verifyBearer r = none
  debug : g.checkDebugAuth r = none
  devMode : g.devMode = false

/-- The paths that the gateway means to forward for everybody. -/
def openPaths : List Bytes := [utf8Bytes "/v1/contexts", utf8Bytes "/v1/metrics"]

/-- The path of the event stream. -/
def eventsPath : Bytes := utf8Bytes "/v1/events"

/-- What the client gets: from the backend if the request is forwarded, and else from the
gateway, which knows the list of contexts, as it polls the backend for it. -/
def response {ρ : Type} (poll : Request) (own : ρ → Answer → Request → ρ)
    (backend : Request → ρ) : ρ :=
  match g.answer r with
  | .served .proxy _ => backend r
  | answer => own (backend poll) answer r

/-- The backends answer alike about the contexts and the metrics. -/
def Agree {ρ : Type} (backend backend' : Request → ρ) : Prop :=
  ∀ r : Request, r.url.path ∈ openPaths → backend r = backend' r

/-- The read is kept from the backend unless it asks for the contexts or the metrics. -/
structure GuardsRead : Prop where
  forwarded : ∀ user, g.answer r = .served .proxy user → r.url.path ∈ openPaths
  others : utf8Bytes "/v1/" <+: r.url.path → r.url.path ∉ eventsPath :: openPaths →
    g.answer r = .unauthorized ∨ ∃ location, g.answer r = .redirect location
  events : r.url.escapedPath = eventsPath → g.answer r = .served .sseBroker none
  alike : ∀ {ρ : Type} (poll : Request) (own : ρ → Answer → Request → ρ)
    (backend backend' : Request → ρ), poll.url.path ∈ openPaths → Agree backend backend' →
    g.response r poll own backend = g.response r poll own backend'

/-- The path looks like an asset of the login page, or like a public path in other letters. -/
def LooksPublic (lib : GoLib) (path : Bytes) : Prop :=
  utf8Bytes ".css" <:+ lib.toLower path ∨ utf8Bytes ".js" <:+ lib.toLower path ∨
    utf8Bytes ".ico" <:+ lib.toLower path ∨ lib.toLower path ∈ eventsPath :: openPaths

/-- No path of the backend is taken for a public one: the path is one of the three that are
meant, or does not look public, or is not clean, so that the client is sent to another. -/
def SafePath : Prop :=
  utf8Bytes "/v1/" <+: r.url.path → r.url.path ∈ eventsPath :: openPaths ∨
    ¬LooksPublic g.lib r.url.path ∨ cleanPath r.url.escapedPath ≠ r.url.escapedPath

variable {g r}

end Server

/-! ### Public paths of the backend -/

/-- The lower case of a path of the backend begins like the path. -/
theorem toLower_below {lib : GoLib} (hlib : lib.Lawful) {path : Bytes}
    (h : utf8Bytes "/v1/" <+: path) : (lib.toLower path)[1]? = some 118 := by
  obtain ⟨rest, rfl⟩ := h
  rw [hlib.toLower_append _ _ (by decide)]
  rfl

theorem ne_of_getElem? {path : Bytes} (h : path[1]? = some 118) (literal : Bytes)
    (hliteral : literal[1]? ≠ some 118) : path ≠ literal := by
  rintro rfl
  exact hliteral h

theorem not_prefix_of_getElem? {path : Bytes} (h : path[1]? = some 118) (literal : Bytes)
    (hlength : 1 < literal.length) (hliteral : literal[1]? ≠ some 118) :
    ¬literal <+: path := by
  rintro ⟨rest, rfl⟩
  rw [List.getElem?_append_left hlength] at h
  exact hliteral h

/-- **The public paths of the backend.** -/
theorem isPublicPath_below {lib : GoLib} (hlib : lib.Lawful) {path : Bytes}
    (h : utf8Bytes "/v1/" <+: path) : isPublicPath lib path ↔ Server.LooksPublic lib path := by
  have hlower := toLower_below hlib h
  rw [isPublicPath, Server.LooksPublic]
  simp only [ne_of_getElem? hlower (utf8Bytes "/healthz") (by decide),
    ne_of_getElem? hlower (utf8Bytes "/readyz") (by decide),
    ne_of_getElem? hlower (utf8Bytes "/favicon.ico") (by decide),
    ne_of_getElem? hlower (utf8Bytes "/login") (by decide),
    not_prefix_of_getElem? hlower (utf8Bytes "/auth/") (by decide) (by decide),
    not_prefix_of_getElem? hlower (utf8Bytes "/_next/") (by decide) (by decide),
    not_prefix_of_getElem? hlower (utf8Bytes "/static/") (by decide) (by decide),
    false_or, Server.eventsPath, Server.openPaths, List.mem_cons, List.not_mem_nil, or_false]
  tauto

/-- Reads of the backend are not limited. -/
theorem not_shouldRateLimit_below {lib : GoLib} (hlib : lib.Lawful) {path : Bytes}
    (h : utf8Bytes "/v1/" <+: path) : ¬shouldRateLimit lib path := by
  have hlower := toLower_below hlib h
  rintro (hlogin | hauth)
  · exact ne_of_getElem? hlower _ (by decide) hlogin
  · exact not_prefix_of_getElem? hlower _ (by decide) (by decide) hauth

/-! ### Routing -/

namespace Server

variable {g : Server} {r : Request}

/-- **The proxy gets what stands below `/v1/`**, the event stream apart. -/
theorem findRoute_proxy {p : Pattern} {ss : List Bytes}
    (h : findRoute g.routes ss = some (p, .proxy)) :
    (∃ s rest, ss = utf8Bytes "v1" :: s :: rest) ∧
      ss ≠ [utf8Bytes "v1", utf8Bytes "events"] := by
  have hmem : (p, Handler.proxy) ∈ g.routes := List.mem_of_find?_eq_some h
  have hp : p = ⟨[utf8Bytes "v1"], true⟩ := by
    rw [routes] at hmem
    split at hmem <;> simpa using hmem
  have hmatches : p.Matches ss := by simpa using List.find?_some h
  constructor
  · subst hp
    obtain ⟨⟨rest, rfl⟩, hne⟩ : [utf8Bytes "v1"] <+: ss ∧ [utf8Bytes "v1"] ≠ ss := hmatches
    cases rest with
    | nil => exact absurd rfl hne
    | cons s rest => exact ⟨s, rest, rfl⟩
  · rintro rfl
    have hevents : findRoute g.routes [utf8Bytes "v1", utf8Bytes "events"] =
        some (⟨[utf8Bytes "v1", utf8Bytes "events"], false⟩, .sseBroker) := by
      rw [routes]
      cases g.awsEnabled <;> rfl
    rw [hevents] at h
    cases h

/-- Some handler is found for every path, as the last route is for all of them. -/
theorem findRoute_ne_none {ss : List Bytes} (h : ss ≠ []) : findRoute g.routes ss ≠ none := by
  intro hnone
  have hstatic : (⟨[], true⟩, Handler.static) ∈ g.routes := by simp [routes]
  have hmatches : (⟨[], true⟩ : Pattern).Matches ss := ⟨List.nil_prefix, h.symm⟩
  exact absurd hmatches (by simpa using List.find?_eq_none.mp hnone _ hstatic)

/-- **A forwarded request** has a clean path below `/v1/` that is not that of the events. -/
theorem serveHTTP_proxy {user user' : Option Session}
    (h : g.serveHTTP r user = .served .proxy user') :
    cleanPath r.url.escapedPath = r.url.escapedPath ∧ utf8Bytes "/v1/" <+: r.url.path ∧
      r.url.path ≠ eventsPath := by
  rw [serveHTTP] at h
  split at h
  next handler hserve =>
    obtain ⟨rfl, -⟩ := Answer.served.inj h
    obtain ⟨hclean, hpath, p, hfind, -⟩ := serveMux_handler hserve
    obtain ⟨⟨s, rest, hss⟩, hevents⟩ := findRoute_proxy hfind
    have hbelow : r.url.path = utf8Bytes "/v1/" ++ [47].intercalate (s :: rest) := by
      rw [hpath, hss, List.intercalate_cons_cons]
      rfl
    refine ⟨hclean, ⟨_, hbelow.symm⟩, fun hpath => hevents ?_⟩
    have hrest : [47].intercalate (s :: rest) = utf8Bytes "events" :=
      List.append_cancel_left (hbelow.symm.trans hpath)
    cases rest with
    | nil =>
        rw [List.intercalate_singleton] at hrest
        rw [hss, hrest]
    | cons s' rest =>
        -- a longer path has another slash
        have hslash : (47 : UInt8) ∈ [47].intercalate (s :: s' :: rest) := by
          simp [List.intercalate_cons_cons]
        rw [hrest] at hslash
        exact absurd hslash (by decide)
  · cases h
  · cases h

/-- The patterns for all paths below one. -/
theorem segments_of_subtree {route : Pattern × Handler} (h : route ∈ g.routes)
    (hsubtree : route.1.subtree = true) :
    route.1.segments = [utf8Bytes "v1"] ∨ route.1.segments = [] := by
  have hroutes : ∀ route ∈ g.routes, route.1.subtree = true →
      route.1.segments = [utf8Bytes "v1"] ∨ route.1.segments = [] := by
    rw [routes]
    cases g.awsEnabled <;> simp
  exact hroutes route h hsubtree

/-- **A clean path below `/v1/` is served.** -/
theorem serveHTTP_served (hclean : cleanPath r.url.escapedPath = r.url.escapedPath)
    (hbelow : utf8Bytes "/v1/" <+: r.url.path) (user : Option Session) :
    ∃ handler, g.serveHTTP r user = .served handler user := by
  have hhead := cleanPath_head r.url.escapedPath
  rw [hclean] at hhead
  obtain ⟨hne, hpath⟩ := r.url.path_eq hhead
  have hv1 : segments r.url.escapedPath ≠ [utf8Bytes "v1"] := by
    intro hv1
    rw [hpath, hv1, List.intercalate_singleton] at hbelow
    exact absurd hbelow.length_le (by decide)
  have hserve : ∃ handler, serveMux g.routes r.url.escapedPath = .handler handler := by
    rw [serveMux]
    simp only [hclean]
    rw [if_neg, if_neg (by simp)]
    · obtain ⟨route, hroute⟩ := Option.ne_none_iff_exists'.mp (findRoute_ne_none (g := g) hne)
      rw [hroute]
      exact ⟨_, rfl⟩
    · rintro ⟨-, -, route, hroute, hsubtree, hsegments⟩
      rcases segments_of_subtree hroute hsubtree with hroutes | hroutes
      · exact hv1 (hsegments.symm.trans hroutes)
      · exact hne (hsegments.symm.trans hroutes)
  obtain ⟨handler, hhandler⟩ := hserve
  rw [serveHTTP, hhandler]
  exact ⟨_, rfl⟩

/-- The event stream is the gateway's own. -/
theorem serveHTTP_events (h : r.url.escapedPath = eventsPath) (user : Option Session) :
    g.serveHTTP r user = .served .sseBroker user := by
  have hserve : serveMux g.routes r.url.escapedPath = .handler .sseBroker := by
    rw [h, routes]
    cases g.awsEnabled <;> rfl
  rw [serveHTTP, hserve]

/-! ### Unknown clients -/

/-- An unknown client has no session. -/
theorem Anonymous.session_eq (hanon : g.Anonymous r) : g.session r = none := by
  rw [session, devSession, hanon.cookie, hanon.bearer, hanon.debug, hanon.devMode]
  rfl

/-- A read of a public path is served, whoever sends it. -/
theorem answer_public (hlib : g.lib.Lawful) (hread : r.IsRead)
    (hbelow : utf8Bytes "/v1/" <+: r.url.path) (hpublic : isPublicPath g.lib r.url.path) :
    g.answer r = g.serveHTTP r none := by
  rw [answer, if_neg fun h => not_shouldRateLimit_below hlib hbelow h.1, requireAuthForReads,
    if_neg (not_not.mpr hread), if_pos hpublic]

/-- A read of another path is refused by the middleware. -/
theorem Anonymous.requireAuthForReads_eq (hanon : g.Anonymous r) (hread : r.IsRead)
    (hprivate : ¬isPublicPath g.lib r.url.path) :
    g.requireAuthForReads r =
      if isAPIRequest r then .unauthorized else .redirect (utf8Bytes "/login") := by
  rw [requireAuthForReads, if_neg (not_not.mpr hread), if_neg hprivate, hanon.session_eq]

/-- It does not get to a handler. -/
theorem Anonymous.not_served (hanon : g.Anonymous r) (hread : r.IsRead)
    (hprivate : ¬isPublicPath g.lib r.url.path) (handler : Handler) (user : Option Session) :
    g.answer r ≠ .served handler user := by
  rw [answer, hanon.requireAuthForReads_eq hread hprivate]
  split
  · rintro ⟨⟩
  split
  · rintro ⟨⟩
  · rintro ⟨⟩

/-- Below `/v1/` it is answered with 401. -/
theorem Anonymous.answer_unauthorized (hanon : g.Anonymous r) (hlib : g.lib.Lawful)
    (hread : r.IsRead) (hbelow : utf8Bytes "/v1/" <+: r.url.path)
    (hprivate : ¬isPublicPath g.lib r.url.path) : g.answer r = .unauthorized := by
  rw [answer, if_neg fun h => not_shouldRateLimit_below hlib hbelow h.1,
    hanon.requireAuthForReads_eq hread hprivate]
  exact if_pos (Or.inl hbelow)

/-- **On safe paths only the open ones are forwarded.** -/
theorem Anonymous.mem_openPaths (hanon : g.Anonymous r) (hlib : g.lib.Lawful)
    (hread : r.IsRead) (hsafe : g.SafePath r) {user : Option Session}
    (h : g.answer r = .served .proxy user) : r.url.path ∈ openPaths := by
  by_cases hpublic : isPublicPath g.lib r.url.path
  · have hserve : g.serveHTTP r none = .served .proxy user := by
      rw [answer, requireAuthForReads, if_neg (not_not.mpr hread), if_pos hpublic] at h
      split at h
      · cases h
      · exact h
    obtain ⟨hclean, hbelow, hevents⟩ := serveHTTP_proxy hserve
    rcases hsafe hbelow with hknown | hlooks | hunclean
    · exact (List.mem_cons.mp hknown).resolve_left hevents
    · exact absurd ((isPublicPath_below hlib hbelow).mp hpublic) hlooks
    · exact absurd hclean hunclean
  · exact absurd h (hanon.not_served hread hpublic .proxy user)

/-- What is kept from the backend does not depend on it. -/
theorem response_alike (hforwarded : ∀ user, g.answer r = .served .proxy user →
      r.url.path ∈ openPaths) {ρ : Type} (poll : Request) (own : ρ → Answer → Request → ρ)
    (backend backend' : Request → ρ) (hpoll : poll.url.path ∈ openPaths)
    (hagree : Agree backend backend') :
    g.response r poll own backend = g.response r poll own backend' := by
  rw [response, response]
  split
  next user hproxy => exact hagree r (hforwarded user hproxy)
  · rw [hagree poll hpoll]

/-- **Reads of unknown clients**: the gateway keeps a read from the backend, or forwards it as
it is meant to, exactly if the path of the backend is not mistaken for a public one. -/
theorem anonymous_reads (g : Server) (hlib : g.lib.Lawful) (r : Request) (hread : r.IsRead)
    (hanon : g.Anonymous r) : g.GuardsRead r ↔ g.SafePath r := by
  constructor
  · intro hguards hbelow
    by_contra hunsafe
    rw [not_or, not_or, not_not, not_not] at hunsafe
    obtain ⟨hunknown, hlooks, hclean⟩ := hunsafe
    obtain ⟨handler, hserved⟩ := serveHTTP_served (g := g) hclean hbelow none
    have hpublic := (isPublicPath_below hlib hbelow).mpr hlooks
    rw [← answer_public hlib hread hbelow hpublic] at hserved
    rcases hguards.others hbelow hunknown with h | ⟨location, h⟩ <;> rw [h] at hserved <;>
      cases hserved
  · intro hsafe
    have hforwarded : ∀ user, g.answer r = .served .proxy user → r.url.path ∈ openPaths :=
      fun user h => hanon.mem_openPaths hlib hread hsafe h
    refine ⟨hforwarded, fun hbelow hunknown => ?_, fun hevents => ?_, response_alike hforwarded⟩
    · by_cases hpublic : isPublicPath g.lib r.url.path
      · have hunclean := ((hsafe hbelow).resolve_left hunknown).resolve_left
          (not_not.mpr ((isPublicPath_below hlib hbelow).mp hpublic))
        obtain ⟨location, hredirect⟩ := serveMux_redirect g.routes hunclean
        rw [answer_public hlib hread hbelow hpublic, serveHTTP, hredirect]
        exact .inr ⟨location, rfl⟩
      · exact .inl (hanon.answer_unauthorized hlib hread hbelow hpublic)
    · have hpath : r.url.path = eventsPath := by
        have hdecodes := r.url.decodes
        rw [hevents, show unescape eventsPath = some eventsPath by decide] at hdecodes
        exact (Option.some.inj hdecodes).symm
      have hbelow : utf8Bytes "/v1/" <+: r.url.path := by
        rw [hpath]
        decide
      have hlower : g.lib.toLower eventsPath = eventsPath := by
        have h := hlib.toLower_append eventsPath [] (by decide)
        rw [List.append_nil, hlib.toLower_nil] at h
        rw [h]
        decide
      have hpublic : isPublicPath g.lib r.url.path := by
        rw [isPublicPath_below hlib hbelow, LooksPublic, hpath, hlower]
        exact .inr (.inr (.inr (List.mem_cons_self ..)))
      rw [answer_public hlib hread hbelow hpublic, serveHTTP_events hevents]

end Server

/-! ### An asset of the backend -/

/-- The library on ASCII texts. -/
def asciiLib : GoLib where
  toLower := List.map asciiLower
  trimSpace := id
  splitHostPort := some

theorem asciiLib_lawful : asciiLib.Lawful where
  toLower_nil := rfl
  toLower_append _ _ _ := List.map_append

/-- A gateway where nobody is logged in. -/
def lockedServer : Server where
  lib := asciiLib
  sessionFromRequest _ := none
  tokenVerifiers := []
  debugAuthToken := []
  debugAuthAllowedIPs := []
  devMode := false
  devEmail := []
  devName := []
  awsEnabled := false
  allows _ := true

/-- `GET` without any credentials. -/
def getRequest (url : RequestUrl) : Request where
  method := utf8Bytes "GET"
  url := url
  cookies := []
  authorization := []
  accept := []
  xForwardedFor := []
  remoteAddr := []

theorem getRequest_isRead (url : RequestUrl) : (getRequest url).IsRead := .inl rfl

theorem getRequest_anonymous (url : RequestUrl) : lockedServer.Anonymous (getRequest url) where
  cookie := rfl
  bearer := rfl
  debug := rfl
  devMode := rfl

/-- The turns of a context. -/
def turnsUrl : RequestUrl where
  escapedPath := utf8Bytes "/v1/contexts/1/turns"
  path := utf8Bytes "/v1/contexts/1/turns"
  decodes := by decide

/-- The turns of a context are kept from an unknown client. -/
theorem anonymous_reads_turns : lockedServer.GuardsRead (getRequest turnsUrl) :=
  (lockedServer.anonymous_reads asciiLib_lawful (getRequest turnsUrl) (getRequest_isRead _)
    (getRequest_anonymous _)).mpr fun _ => .inr (.inl fun h => by
      rw [Server.LooksPublic] at h
      revert h
      decide)

/-- A file of a snapshot. -/
def scriptUrl : RequestUrl where
  escapedPath := utf8Bytes "/v1/turns/5/fs/src/app.js"
  path := utf8Bytes "/v1/turns/5/fs/src/app.js"
  decodes := by decide

/-- **A file of a snapshot whose name ends like an asset** is forwarded for everybody. -/
theorem snapshot_script_forwarded :
    lockedServer.lib.Lawful ∧ (getRequest scriptUrl).IsRead ∧
      lockedServer.Anonymous (getRequest scriptUrl) ∧
      (∃ user, lockedServer.answer (getRequest scriptUrl) = .served .proxy user) ∧
      ¬lockedServer.GuardsRead (getRequest scriptUrl) := by
  have hproxy : lockedServer.answer (getRequest scriptUrl) = .served .proxy none := by rfl
  refine ⟨asciiLib_lawful, getRequest_isRead _, getRequest_anonymous _, ⟨none, hproxy⟩,
    fun hguards => ?_⟩
  exact absurd (hguards.forwarded none hproxy) (by decide)

end Cxdb.Gateway
