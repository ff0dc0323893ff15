import Cxdb.DataDir
import Cxdb.Exchanges
import Cxdb.UrlPaths

/-!
# Where the Proxy Sends Requests

The proxy of `cxtx` takes a request at a path and sends it on to a path of an upstream. For Codex
it strips the path that it is mounted at, which is the upstream's own; for Claude it puts the path
behind the upstream's; for Pi the first segment tells the upstream. Prefixes are compared as
texts, so that a segment that only begins like a prefix is cut.

## Main results

* `proxy_maps`: when a request is sent where it should.
* `version_is_cut`: a request that is not.
-/

open ByteFormat UrlPath

namespace Cxdb

/-! ### URLs -/

/-- What is left to the `url` crate: the bytes that it percent-encodes in a path and a query. -/
structure UrlCrate where
  path : EncodeSet
  query : EncodeSet

/-- A `Url`, of `http` or `https`. -/
structure HttpUrl (crate : UrlCrate) where
  origin : String
  path : Bytes
  query : Option Bytes
  rooted : path.head? = some 47
  kept : crate.path.KeepsPath path

/-- The `http::Uri` of a request. -/
structure Uri where
  path : Bytes
  query : Option Bytes
  rooted : path.head? = some 47

inductive ProviderKind where
  | codex
  | claude
  | pi
  deriving DecidableEq

variable {crate : UrlCrate}

namespace HttpUrl

/-- `set_path`. -/
def setPath (url : HttpUrl crate) (path : Bytes) : HttpUrl crate :=
  { url with
    path := UrlPath.setPath crate.path path
    rooted := rfl
    kept := setPath_keeps path }

/-- `set_query`. -/
def setQuery (url : HttpUrl crate) (query : Option Bytes) : HttpUrl crate :=
  { url with query := query.map (UrlPath.setQuery crate.query) }

end HttpUrl

/-! ### Mapping paths -/

namespace ProxyPaths

/-- `strip_prefix`. -/
def stripPrefix (pre path : Bytes) : Option Bytes :=
  if pre <+: path then some (path.drop pre.length) else none

def normalizePath (path : Bytes) : Bytes :=
  let trimmed := path.rdropWhile (· = 47)
  if trimmed = [] then [47]
  else if trimmed.head? = some 47 then trimmed
  else 47 :: trimmed

def stripMountPath (path mountPath : Bytes) : Option Bytes :=
  if mountPath = [47] then some path
  else
    (stripPrefix mountPath path).map fun suffix =>
      if suffix = [] then [47]
      else if suffix.head? = some 47 then suffix
      else 47 :: suffix

def joinUrl (base : HttpUrl crate) (path : Bytes) (query : Option Bytes) : HttpUrl crate :=
  let basePath := base.path.rdropWhile (· = 47)
  let extraPath := path.dropWhile (· = 47)
  let finalPath :=
    if basePath = [] then 47 :: extraPath
    else if extraPath = [] then basePath
    else basePath ++ 47 :: extraPath
  (base.setPath finalPath).setQuery query

def rebaseUrl (upstream : HttpUrl crate) (path : Bytes) (query : Option Bytes) : HttpUrl crate :=
  (upstream.setPath path).setQuery query

end ProxyPaths

open ProxyPaths

def ProviderKind.proxyMountPath (provider : ProviderKind) (upstreamBase : HttpUrl crate) : Bytes :=
  match provider with
  | .codex => normalizePath upstreamBase.path
  | .claude | .pi => [47]

def ProviderKind.buildUpstreamUrl (provider : ProviderKind) (upstreamBase : HttpUrl crate)
    (uri : Uri) : Except Bytes (HttpUrl crate) :=
  let mountPath := provider.proxyMountPath upstreamBase
  match provider with
  | .codex =>
      match stripMountPath uri.path mountPath with
      | some relativePath => .ok (joinUrl upstreamBase relativePath uri.query)
      | none =>
          .error (utf8Bytes "request path " ++ uri.path ++
            utf8Bytes " does not match proxy mount " ++ mountPath)
  | .claude => .ok (joinUrl upstreamBase uri.path uri.query)
  | .pi =>
      .error (utf8Bytes ("Pi uses dual-protocol routing; " ++
        "build_upstream_url should not be called directly"))

inductive UpstreamConfig (crate : UrlCrate) where
  | single (upstreamBase : HttpUrl crate)
  | dualProtocol (openaiUpstream anthropicUpstream : HttpUrl crate)

structure ResolvedRoute (crate : UrlCrate) where
  protocol : ProtocolKind
  upstreamUrl : HttpUrl crate

/-- `ProxyState`: what the routes depend on. -/
structure ProxyState (crate : UrlCrate) where
  provider : ProviderKind
  upstream : UpstreamConfig crate

def openaiPrefix : Bytes := utf8Bytes "/openai"

def anthropicPrefix : Bytes := utf8Bytes "/anthropic"

/-- The context of an error. -/
def deriveContext (e : Bytes) : Bytes := utf8Bytes "failed to derive upstream URL: " ++ e

/-- `resolve_route`. -/
def ProxyState.resolveRoute (state : ProxyState crate) (uri : Uri) :
    Except Bytes (ResolvedRoute crate) :=
  match state.upstream with
  | .single upstreamBase =>
      match state.provider.buildUpstreamUrl upstreamBase uri with
      | .error e => .error (deriveContext e)
      | .ok url =>
          match state.provider with
          | .codex => .ok ⟨.openAi, url⟩
          | .claude => .ok ⟨.anthropic, url⟩
          | .pi => .error (utf8Bytes "Pi always uses DualProtocol")
  | .dualProtocol openaiUpstream anthropicUpstream =>
      match stripPrefix openaiPrefix uri.path with
      | some suffix =>
          let suffix := if suffix = [] then [47] else suffix
          .ok ⟨.openAi, rebaseUrl openaiUpstream suffix uri.query⟩
      | none =>
        match stripPrefix anthropicPrefix uri.path with
        | some suffix =>
            let suffix := if suffix = [] then [47] else suffix
            .ok ⟨.anthropic, rebaseUrl anthropicUpstream suffix uri.query⟩
        | none =>
            .error (utf8Bytes "request path " ++ uri.path ++
              utf8Bytes " does not match /openai/ or /anthropic/ prefix")

/-- What becomes of a request: it is refused, or it is sent on. -/
inductive ProxyAnswer (crate : UrlCrate) where
  | badGateway (text : Bytes)
  | sent (route : ResolvedRoute crate)

/-- `proxy_handler`, with a delivery worker, as far as the upstream request. -/
def ProxyState.handle (state : ProxyState crate) (uri : Uri) : ProxyAnswer crate :=
  match state.resolveRoute uri with
  | .error e => .badGateway (utf8Bytes "cxtx proxy error: " ++ deriveContext e)
  | .ok route => .sent route

/-! ### Where requests should go -/

/-- The request is refused. -/
def ProxyState.Refuses (state : ProxyState crate) (uri : Uri) : Prop :=
  ∃ text, state.handle uri = .badGateway text

/-- The request is sent to these segments of an upstream, with its query. -/
def ProxyState.SendsTo (state : ProxyState crate) (uri : Uri) (protocol : ProtocolKind)
    (upstream : HttpUrl crate) (ss : List Bytes) : Prop :=
  ∃ url, state.handle uri = .sent ⟨protocol, url⟩ ∧ url.origin = upstream.origin ∧
    segments url.path = ss ∧ url.query = uri.query

/-- A mount path without the slash of the root. -/
def mountRoot (mountPath : Bytes) : Bytes := if mountPath = [47] then [] else mountPath

/-- The path is the mount path, or goes on with a slash behind it. -/
def Continues (mountPath path : Bytes) : Prop :=
  path = mountPath ∨ mountRoot mountPath ++ [47] <+: path

instance (mountPath path : Bytes) : Decidable (Continues mountPath path) :=
  inferInstanceAs (Decidable (_ ∨ _))

/-- What stands before the second slash of a path. -/
def firstSegment (path : Bytes) : Bytes := path.tail.takeWhile (· ≠ 47)

/-- **Where a request should go.** -/
def ProxyState.Maps (state : ProxyState crate) (uri : Uri) : Prop :=
  match state.upstream with
  | .single base =>
      match state.provider with
      | .codex =>
          if Continues (ProviderKind.codex.proxyMountPath base) uri.path then
            state.SendsTo uri .openAi base (segments uri.path)
          else state.Refuses uri
      | .claude => state.SendsTo uri .anthropic base (segments base.path ++ segments uri.path)
      | .pi => state.Refuses uri
  | .dualProtocol openai anthropic =>
      if firstSegment uri.path = utf8Bytes "openai" then
        state.SendsTo uri .openAi openai (segments uri.path).tail
      else if firstSegment uri.path = utf8Bytes "anthropic" then
        state.SendsTo uri .anthropic anthropic (segments uri.path).tail
      else state.Refuses uri

/-- The path has a longer segment where a prefix ends. -/
def Overruns (pre path : Bytes) : Prop := ∃ b rest, path = pre ++ b :: rest ∧ b ≠ 47

/-- The `url` crate keeps these segments, and the query. -/
def KeptAs (crate : UrlCrate) (ss : List Bytes) (query : Option Bytes) : Prop :=
  (∀ s ∈ ss, crate.path.Keeps s) ∧ ∀ q ∈ query, crate.query.Leaves q

/-- **When a request goes there**: no segment is longer than the end of a prefix that the path
begins with, and nothing that is sent on is written in another way. -/
def ProxyState.Maintains (state : ProxyState crate) (uri : Uri) : Prop :=
  match state.upstream with
  | .single base =>
      match state.provider with
      | .codex =>
          ¬Overruns (mountRoot (ProviderKind.codex.proxyMountPath base)) uri.path ∧
            (Continues (ProviderKind.codex.proxyMountPath base) uri.path →
              KeptAs crate (segments uri.path) uri.query)
      | .claude => KeptAs crate (segments uri.path) uri.query
      | .pi => True
  | .dualProtocol _ _ =>
      ¬Overruns openaiPrefix uri.path ∧ ¬Overruns anthropicPrefix uri.path ∧
        (firstSegment uri.path = utf8Bytes "openai" ∨
            firstSegment uri.path = utf8Bytes "anthropic" →
          KeptAs crate (segments uri.path).tail uri.query)

/-! ### What is sent -/

theorem head?_rdropWhile {path : Bytes} (hroot : path.head? = some 47)
    (hne : path.rdropWhile (· = 47) ≠ []) : (path.rdropWhile (· = 47)).head? = some 47 := by
  obtain ⟨rest, hrest⟩ := List.rdropWhile_prefix (· = (47 : UInt8)) (l := path)
  rw [← hrest, List.head?_append_of_ne_nil _ hne] at hroot
  exact hroot

@[simp] theorem HttpUrl.setQuery_path (url : HttpUrl crate) (query : Option Bytes) :
    (url.setQuery query).path = url.path := rfl

/-- The query of a URL whose query is set. -/
theorem HttpUrl.setQuery_iff {url : HttpUrl crate} {query : Option Bytes} :
    (url.setQuery query).query = query ↔ ∀ q ∈ query, crate.query.Leaves q := by
  cases query with
  | none => simp [HttpUrl.setQuery]
  | some q => simp [HttpUrl.setQuery, UrlPath.setQuery_iff]

/-- The segments of a path that is set behind another one that is kept. -/
theorem HttpUrl.setPath_iff {url : HttpUrl crate} {path rest : Bytes} {ss : List Bytes}
    (hroot : path.head? = some 47) (hss : ∀ s ∈ ss, crate.path.Keeps s)
    (hpath : segments path = ss ++ segments rest) :
    segments (url.setPath path).path = ss ++ segments rest ↔ crate.path.KeepsPath rest := by
  obtain ⟨p, rfl⟩ := List.head?_eq_some_iff.mp hroot
  rw [← hpath, HttpUrl.setPath, segments_setPath_iff, EncodeSet.KeepsPath, hpath]
  simp only [List.mem_append, or_imp, forall_and]
  exact and_iff_right hss

theorem joinUrl_origin (base : HttpUrl crate) (path : Bytes) (query : Option Bytes) :
    (joinUrl base path query).origin = base.origin := rfl

theorem rebaseUrl_origin (upstream : HttpUrl crate) (path : Bytes) (query : Option Bytes) :
    (rebaseUrl upstream path query).origin = upstream.origin := rfl

/-- **`join_url`** puts the segments behind those of the base. -/
theorem joinUrl_iff (base : HttpUrl crate) (path : Bytes) (query : Option Bytes) :
    (segments (joinUrl base path query).path = segments base.path ++ segments path ∧
      (joinUrl base path query).query = query) ↔ KeptAs crate (segments path) query := by
  rw [joinUrl, HttpUrl.setQuery_iff, HttpUrl.setQuery_path, KeptAs]
  refine and_congr_left' (HttpUrl.setPath_iff ?_ base.kept ?_)
  · split_ifs with hbase hextra
    · rfl
    · exact head?_rdropWhile base.rooted hbase
    · rw [List.head?_append_of_ne_nil _ hbase]
      exact head?_rdropWhile base.rooted hbase
  · split_ifs with hbase hextra
    · rw [segments_slash, segments_dropWhile, ← segments_rdropWhile base.path, hbase]
      rfl
    · rw [segments_rdropWhile, ← segments_dropWhile path, hextra, segments_nil, List.append_nil]
    · rw [segments_append_slash, segments_rdropWhile, segments_dropWhile]

/-- **`rebase_url`** puts the segments in the place of those of the upstream. -/
theorem rebaseUrl_iff (upstream : HttpUrl crate) {path : Bytes} (query : Option Bytes)
    (hroot : path.head? = some 47) :
    (segments (rebaseUrl upstream path query).path = segments path ∧
      (rebaseUrl upstream path query).query = query) ↔ KeptAs crate (segments path) query := by
  rw [rebaseUrl, HttpUrl.setQuery_iff, HttpUrl.setQuery_path, KeptAs]
  have hnone : ∀ s ∈ ([] : List Bytes), crate.path.Keeps s := by simp
  exact and_congr_left' (HttpUrl.setPath_iff hroot hnone rfl)

/-! ### Prefixes -/

theorem stripPrefix_append (pre suffix : Bytes) : stripPrefix pre (pre ++ suffix) = some suffix := by
  rw [stripPrefix, if_pos (List.prefix_append _ _), List.drop_left]

theorem stripPrefix_none {pre path : Bytes} (h : ¬pre <+: path) : stripPrefix pre path = none :=
  if_neg h

/-- Behind a prefix a path ends, goes on with a slash, or has a longer segment. -/
theorem overruns_append (pre suffix : Bytes) :
    Overruns pre (pre ++ suffix) ↔ ¬(suffix = [] ∨ suffix.head? = some 47) := by
  cases suffix with
  | nil => simp [Overruns]
  | cons b rest => simp [Overruns]

theorem Overruns.prefix_of {pre path : Bytes} (h : Overruns pre path) : pre <+: path := by
  obtain ⟨b, rest, rfl, -⟩ := h
  exact List.prefix_append _ _

theorem mountRoot_normalizePath {path : Bytes} (hroot : path.head? = some 47) :
    mountRoot (normalizePath path) = path.rdropWhile (· = 47) := by
  rw [normalizePath, mountRoot]
  by_cases hbase : path.rdropWhile (· = 47) = []
  · simp [hbase]
  · have hne : path.rdropWhile (· = 47) ≠ [47] := by
      intro h
      have hlast := List.rdropWhile_last_not (· = (47 : UInt8)) path hbase
      simp [h] at hlast
    simp [hbase, head?_rdropWhile hroot hbase, hne]

theorem Continues.prefix_of {mountPath path : Bytes} (h : Continues mountPath path) :
    mountRoot mountPath <+: path := by
  rcases h with rfl | h
  · rw [mountRoot]
    split_ifs
    · exact List.nil_prefix
    · exact List.prefix_rfl
  · exact (List.prefix_append _ _).trans h

/-- A path that begins with the mount path continues it, or has a longer segment. -/
theorem continues_append {mountPath suffix : Bytes}
    (hroot : (mountRoot mountPath ++ suffix).head? = some 47) :
    Continues mountPath (mountRoot mountPath ++ suffix) ↔
      suffix = [] ∨ suffix.head? = some 47 := by
  have hslash : [47] <+: suffix ↔ suffix.head? = some 47 := by
    cases suffix <;> simp [eq_comm]
  rw [Continues, List.prefix_append_right_inj, hslash]
  by_cases hmount : mountPath = [47]
  · have hempty : mountRoot mountPath = [] := if_pos hmount
    rw [hempty, List.nil_append] at hroot ⊢
    simp [hroot]
  · have hsame : mountRoot mountPath = mountPath := if_neg hmount
    rw [hsame, List.append_right_eq_self]

theorem stripMountPath_append (mountPath suffix : Bytes) :
    ∃ relativePath,
      stripMountPath (mountRoot mountPath ++ suffix) mountPath = some relativePath ∧
        segments relativePath = segments suffix := by
  rw [stripMountPath, mountRoot]
  by_cases hmount : mountPath = [47]
  · simp [hmount]
  · rw [if_neg hmount, if_neg hmount, stripPrefix_append, Option.map_some]
    refine ⟨_, rfl, ?_⟩
    split_ifs with hempty
    · rw [hempty]
      rfl
    · rfl
    · exact segments_slash suffix

theorem stripMountPath_none {mountPath path : Bytes} (h : ¬mountRoot mountPath <+: path) :
    stripMountPath path mountPath = none := by
  have hmount : mountPath ≠ [47] := by
    intro hmount
    rw [mountRoot, if_pos hmount] at h
    exact h List.nil_prefix
  rw [mountRoot, if_neg hmount] at h
  rw [stripMountPath, if_neg hmount, stripPrefix_none h, Option.map_none]

/-- The first segment of a path, by the prefix that it is. -/
theorem firstSegment_eq_iff {path name : Bytes} (hroot : path.head? = some 47)
    (hname : (47 : UInt8) ∉ name) :
    firstSegment path = name ↔ 47 :: name <+: path ∧ ¬Overruns (47 :: name) path := by
  obtain ⟨p, rfl⟩ := List.head?_eq_some_iff.mp hroot
  rw [firstSegment, List.tail_cons]
  constructor
  · intro h
    have hp : 47 :: name ++ p.dropWhile (· ≠ 47) = 47 :: p := by
      rw [← h, List.cons_append, List.takeWhile_append_dropWhile]
    rw [← hp, overruns_append, not_not]
    refine ⟨List.prefix_append _ _, ?_⟩
    have hhead := List.head?_dropWhile_not (· ≠ (47 : UInt8)) p
    cases hdrop : p.dropWhile (· ≠ 47) with
    | nil => exact Or.inl rfl
    | cons b rest =>
        rw [hdrop] at hhead
        exact Or.inr (by simpa using hhead)
  · rintro ⟨⟨suffix, hp⟩, hsuffix⟩
    rw [← hp, overruns_append, not_not] at hsuffix
    obtain rfl : name ++ suffix = p := List.tail_eq_of_cons_eq hp
    have hall : ∀ b ∈ name, decide (b ≠ 47) = true := by
      intro b hb
      exact decide_eq_true fun hslash => hname (hslash ▸ hb)
    rw [List.takeWhile_append_of_pos hall]
    rcases hsuffix with rfl | hsuffix
    · exact List.append_nil _
    · obtain ⟨rest, rfl⟩ := List.head?_eq_some_iff.mp hsuffix
      simp

/-- A path that begins with a segment has the segments behind it as its other ones. -/
theorem tail_segments {name suffix : Bytes} (hname : (47 : UInt8) ∉ name) (hne : name ≠ [])
    (hsuffix : suffix = [] ∨ suffix.head? = some 47) :
    (segments (47 :: name ++ suffix)).tail = segments suffix := by
  have hone : segments (47 :: name) = [name] := by
    have hall : ∀ s ∈ [name], (47 : UInt8) ∉ s := by simpa using hname
    have h := segments_intercalate hall
    rw [List.intercalate_singleton] at h
    rw [h, List.filter_cons_of_pos (by simpa using hne), List.filter_nil]
  rcases hsuffix with rfl | hsuffix
  · rw [List.append_nil, hone]
    rfl
  · obtain ⟨rest, rfl⟩ := List.head?_eq_some_iff.mp hsuffix
    rw [segments_append_slash, hone, segments_slash]
    rfl

/-! ### Requests -/

variable {state : ProxyState crate} {uri : Uri}

theorem sendsTo_iff {protocol : ProtocolKind} {upstream url : HttpUrl crate} {ss : List Bytes}
    (hsent : state.handle uri = .sent ⟨protocol, url⟩) (horigin : url.origin = upstream.origin) :
    state.SendsTo uri protocol upstream ss ↔ segments url.path = ss ∧ url.query = uri.query := by
  constructor
  · rintro ⟨url', hsent', -, h⟩
    rw [hsent] at hsent'
    cases hsent'
    exact h
  · exact fun h => ⟨url, hsent, horigin, h⟩

theorem not_refuses {route : ResolvedRoute crate} (hsent : state.handle uri = .sent route) :
    ¬state.Refuses uri := by
  rintro ⟨text, h⟩
  rw [hsent] at h
  cases h

theorem refuses_of_error {e : Bytes} (h : state.resolveRoute uri = .error e) :
    state.Refuses uri := by
  refine ⟨utf8Bytes "cxtx proxy error: " ++ deriveContext e, ?_⟩
  rw [ProxyState.handle, h]

/-- **Codex**: the path of the mount is stripped, and put back. -/
theorem codex_maps (base : HttpUrl crate) :
    (ProxyState.mk .codex (.single base)).Maps uri ↔
      (ProxyState.mk .codex (.single base)).Maintains uri := by
  simp only [ProxyState.Maps, ProxyState.Maintains]
  set mountPath := ProviderKind.codex.proxyMountPath base with hmount
  have hbase : segments base.path = segments (mountRoot mountPath) := by
    rw [hmount, ProviderKind.proxyMountPath, mountRoot_normalizePath base.rooted,
      segments_rdropWhile]
  by_cases hpre : mountRoot mountPath <+: uri.path
  · obtain ⟨suffix, hpath⟩ := hpre
    have hroot := uri.rooted
    rw [← hpath] at hroot
    obtain ⟨relativePath, hstrip, hsegments⟩ := stripMountPath_append mountPath suffix
    have hsent : (ProxyState.mk .codex (.single base)).handle uri =
        .sent ⟨.openAi, joinUrl base relativePath uri.query⟩ := by
      rw [hpath] at hstrip
      simp only [ProxyState.handle, ProxyState.resolveRoute, ProviderKind.buildUpstreamUrl,
        ← hmount, hstrip]
    have hcontinues := continues_append hroot
    rw [← hpath, overruns_append, not_not]
    by_cases hsuffix : suffix = [] ∨ suffix.head? = some 47
    · have hpieces : segments (mountRoot mountPath ++ suffix) =
          segments base.path ++ segments suffix := by
        rcases hsuffix with rfl | hsuffix
        · rw [List.append_nil, hbase, segments_nil, List.append_nil]
        · obtain ⟨rest, rfl⟩ := List.head?_eq_some_iff.mp hsuffix
          rw [segments_append_slash, hbase, segments_slash]
      have hkept : KeptAs crate (segments base.path ++ segments suffix) uri.query ↔
          KeptAs crate (segments suffix) uri.query := by
        simp only [KeptAs, List.mem_append, or_imp, forall_and]
        exact and_congr_left' (and_iff_right base.kept)
      rw [if_pos (hcontinues.mpr hsuffix), sendsTo_iff hsent (joinUrl_origin base _ _), hpieces, hkept, ← hsegments,
        joinUrl_iff]
      exact ⟨fun h => ⟨hsuffix, fun _ => h⟩, fun h => h.2 (hcontinues.mpr hsuffix)⟩
    · rw [if_neg (mt hcontinues.mp hsuffix)]
      exact iff_of_false (not_refuses hsent) fun h => hsuffix h.1
  · have hcontinues : ¬Continues mountPath uri.path := fun h => hpre h.prefix_of
    rw [if_neg hcontinues]
    refine iff_of_true ?_ ⟨fun h => hpre h.prefix_of, fun h => absurd h hcontinues⟩
    refine refuses_of_error (e := deriveContext (utf8Bytes "request path " ++ uri.path ++
      utf8Bytes " does not match proxy mount " ++ mountPath)) ?_
    simp only [ProxyState.resolveRoute, ProviderKind.buildUpstreamUrl, ← hmount,
      stripMountPath_none hpre]

/-- A request that is sent behind a prefix which is a whole segment. -/
theorem rebased {protocol : ProtocolKind} {upstream : HttpUrl crate} {name suffix : Bytes}
    (hname : (47 : UInt8) ∉ name) (hne : name ≠ []) (hpath : uri.path = 47 :: name ++ suffix)
    (hsuffix : suffix = [] ∨ suffix.head? = some 47)
    (hsent : state.handle uri =
      .sent ⟨protocol, rebaseUrl upstream (if suffix = [] then [47] else suffix) uri.query⟩) :
    state.SendsTo uri protocol upstream (segments uri.path).tail ↔
      KeptAs crate (segments uri.path).tail uri.query := by
  have hroot : (if suffix = [] then [47] else suffix).head? = some 47 := by
    split_ifs with hempty
    · rfl
    · exact hsuffix.resolve_left hempty
  have hsegments : segments (if suffix = [] then [47] else suffix) = segments suffix := by
    split_ifs with hempty
    · rw [hempty]
      rfl
    · rfl
  rw [sendsTo_iff hsent (rebaseUrl_origin upstream _ _), hpath, tail_segments hname hne hsuffix,
    ← hsegments, rebaseUrl_iff upstream uri.query hroot]

/-- A path begins with one of the prefixes at most. -/
theorem not_both {path : Bytes} (h : openaiPrefix <+: path) : ¬anthropicPrefix <+: path := by
  obtain ⟨rest, rfl⟩ := h
  rintro ⟨rest', h⟩
  have hhead : (anthropicPrefix ++ rest').tail.head? = (openaiPrefix ++ rest).tail.head? := by
    rw [h]
  revert hhead
  change ¬(some (97 : UInt8) = some 111)
  decide

/-- **Pi**: the first segment is taken off. -/
theorem pi_maps (provider : ProviderKind) (openai anthropic : HttpUrl crate) :
    (ProxyState.mk provider (.dualProtocol openai anthropic)).Maps uri ↔
      (ProxyState.mk provider (.dualProtocol openai anthropic)).Maintains uri := by
  simp only [ProxyState.Maps, ProxyState.Maintains]
  have hopenai : (47 : UInt8) ∉ utf8Bytes "openai" := by decide
  have hanthropic : (47 : UInt8) ∉ utf8Bytes "anthropic" := by decide
  have hfirst : firstSegment uri.path = utf8Bytes "openai" ↔
      openaiPrefix <+: uri.path ∧ ¬Overruns openaiPrefix uri.path :=
    firstSegment_eq_iff uri.rooted hopenai
  have hsecond : firstSegment uri.path = utf8Bytes "anthropic" ↔
      anthropicPrefix <+: uri.path ∧ ¬Overruns anthropicPrefix uri.path :=
    firstSegment_eq_iff uri.rooted hanthropic
  by_cases hpre : openaiPrefix <+: uri.path
  · have hother : ¬anthropicPrefix <+: uri.path := not_both hpre
    obtain ⟨suffix, hpath⟩ := hpre
    have hsent : (ProxyState.mk provider (.dualProtocol openai anthropic)).handle uri =
        .sent ⟨.openAi, rebaseUrl openai (if suffix = [] then [47] else suffix) uri.query⟩ := by
      simp only [ProxyState.handle, ProxyState.resolveRoute, ← hpath, stripPrefix_append]
    rw [if_neg fun h => hother (hsecond.mp h).1]
    by_cases hover : Overruns openaiPrefix uri.path
    · rw [if_neg fun h => (hfirst.mp h).2 hover]
      exact iff_of_false (not_refuses hsent) fun h => h.1 hover
    · have hsegment := hfirst.mpr ⟨⟨suffix, hpath⟩, hover⟩
      have hsuffix : suffix = [] ∨ suffix.head? = some 47 := by
        rwa [← hpath, overruns_append, not_not] at hover
      rw [if_pos hsegment, rebased hopenai (by decide) hpath.symm hsuffix hsent]
      exact ⟨fun h => ⟨hover, fun h' => hother h'.prefix_of, fun _ => h⟩,
        fun h => h.2.2 (Or.inl hsegment)⟩
  · rw [if_neg fun h => hpre (hfirst.mp h).1]
    by_cases hother : anthropicPrefix <+: uri.path
    · obtain ⟨suffix, hpath⟩ := hother
      have hsent : (ProxyState.mk provider (.dualProtocol openai anthropic)).handle uri =
          .sent ⟨.anthropic,
            rebaseUrl anthropic (if suffix = [] then [47] else suffix) uri.query⟩ := by
        have hnone := stripPrefix_none hpre
        rw [← hpath] at hnone
        simp only [ProxyState.handle, ProxyState.resolveRoute, ← hpath, hnone, stripPrefix_append]
      by_cases hover : Overruns anthropicPrefix uri.path
      · rw [if_neg fun h => (hsecond.mp h).2 hover]
        exact iff_of_false (not_refuses hsent) fun h => h.2.1 hover
      · have hsegment := hsecond.mpr ⟨⟨suffix, hpath⟩, hover⟩
        have hsuffix : suffix = [] ∨ suffix.head? = some 47 := by
          rwa [← hpath, overruns_append, not_not] at hover
        rw [if_pos hsegment, rebased hanthropic (by decide) hpath.symm hsuffix hsent]
        exact ⟨fun h => ⟨fun h' => hpre h'.prefix_of, hover, fun _ => h⟩,
          fun h => h.2.2 (Or.inr hsegment)⟩
    · rw [if_neg fun h => hother (hsecond.mp h).1]
      refine iff_of_true ?_ ⟨fun h => hpre h.prefix_of, fun h => hother h.prefix_of, fun h => ?_⟩
      · refine refuses_of_error (e := utf8Bytes "request path " ++ uri.path ++
          utf8Bytes " does not match /openai/ or /anthropic/ prefix") ?_
        simp only [ProxyState.resolveRoute, stripPrefix_none hpre, stripPrefix_none hother]
      · rcases h with h | h
        · exact absurd (hfirst.mp h).1 hpre
        · exact absurd (hsecond.mp h).1 hother

/-- **Every request is sent where it should** if and only if no prefix that its path begins with
ends inside a segment, and nothing that is sent on is written in another way. -/
theorem proxy_maps (state : ProxyState crate) (uri : Uri) :
    state.Maps uri ↔ state.Maintains uri := by
  obtain ⟨provider, upstream⟩ := state
  cases upstream with
  | single base =>
      cases provider with
      | codex => exact codex_maps base
      | claude =>
          have hsent : (ProxyState.mk .claude (.single base)).handle uri =
              .sent ⟨.anthropic, joinUrl base uri.path uri.query⟩ := rfl
          simp only [ProxyState.Maps, ProxyState.Maintains]
          rw [sendsTo_iff hsent (joinUrl_origin base _ _), joinUrl_iff]
      | pi => exact iff_of_true (refuses_of_error rfl) trivial
  | dualProtocol openai anthropic => exact pi_maps provider openai anthropic

/-! ### A request that is cut -/

/-- The bytes that are encoded in a path. -/
def encodedInPath (b : UInt8) : Bool :=
  b ≤ 32 ∨ 127 ≤ b ∨ b ∈ [34, 35, 60, 62, 63, 96, 123, 125]

/-- The bytes that are encoded in a query. -/
def encodedInQuery (b : UInt8) : Bool := b ≤ 32 ∨ 127 ≤ b ∨ b ∈ [34, 35, 39, 60, 62]

/-- The sets of the `url` crate. -/
def urlCrate : UrlCrate where
  path := ⟨encodedInPath, rfl,
    of_digits (p := fun n => encodedInPath (hexDigit n) = false) (by decide)⟩
  query := ⟨encodedInQuery, rfl,
    of_digits (p := fun n => encodedInQuery (hexDigit n) = false) (by decide)⟩

set_option maxRecDepth 2000 in
/-- The upstream of Codex. -/
def openAiBase : HttpUrl urlCrate where
  origin := "https://api.openai.com"
  path := utf8Bytes "/v1"
  query := none
  rooted := rfl
  kept := by decide

/-- A request for another version than that of the mount. -/
def betaModels : Uri where
  path := utf8Bytes "/v1beta/models"
  query := none
  rooted := rfl

/-- **A version is cut**: `/v1beta/models` is sent to `/v1/beta/models`. -/
theorem version_is_cut :
    (∃ url, (ProxyState.mk .codex (.single openAiBase)).handle betaModels = .sent ⟨.openAi, url⟩ ∧
      url.path = utf8Bytes "/v1/beta/models") ∧
    ¬(ProxyState.mk .codex (.single openAiBase)).Maps betaModels := by
  refine ⟨⟨_, rfl, by decide⟩, ?_⟩
  rw [codex_maps]
  exact fun h => h.1 ⟨98, utf8Bytes "eta/models", by decide, by decide⟩

end Cxdb
