import Mathlib.Logic.Equiv.List
import Cxdb.Gateway
import Cxdb.GlobRegexp
import Cxdb.XmlText

/-!
# The Token Exchange

`aws_iam.go`: a client sends a URL that it has presigned for AWS STS, the gateway asks that
URL who the client is, and if one of the allowed roles matches the ARN of the answer, it signs
a token with the secret that it also signs its session cookies with. `Verify` takes these
tokens for a session.

## Main results

* `issued_of_trustworthy`: a token says what AWS STS has answered.
* `verify_issued`: `Verify` accepts what has been issued and has not expired.
* `run_alike`: what other hosts serve makes no difference.
* `token_exchange`: the exchange over all runs.
-/

open ByteFormat GoStrings

namespace Cxdb.Gateway

/-! ### The web and the libraries -/

/-- A URL: the host that is asked, and what it is asked for. -/
structure Url where
  host : Bytes
  resource : Bytes
  deriving DecidableEq

/-- What a host does with a `GET` request. -/
inductive Reply where
  | failure
  | redirect (location : Url)
  | answer (status : ℕ) (body : Bytes)
  deriving DecidableEq

/-- All hosts, at one time. -/
abbrev Web := Url → Reply

/-- `STSIdentity`. -/
structure STSIdentity where
  account : Bytes
  arn : Bytes
  userId : Bytes
  deriving DecidableEq

/-- `Token` of the JWT library, its times in seconds. -/
structure Token where
  issuer : Bytes
  subject : Bytes
  audience : List Bytes
  issuedAt : Option ℕ
  expiration : Option ℕ
  cxdbType : Option Bytes
  cxdbAccount : Option Bytes
  cxdbRole : Option Bytes
  deriving DecidableEq

/-- The libraries that the exchange calls. -/
structure ExchangeLib where
  /-- The URL of `http.NewRequest`. -/
  newRequest : Bytes → Option Url
  /-- `json.Unmarshal` into an `STSIdentity`. -/
  unmarshal : Bytes → Option STSIdentity
  /-- The header and the payload of a token, as they are signed. -/
  signingInput : Token → Bytes
  /-- The token of a signed header and payload. -/
  parseInput : Bytes → Option Token
  /-- The HMAC of a message under a key, as a token ends with it. -/
  signature : Bytes → Bytes → Bytes
  /-- `jwt.Sign` with HS256. -/
  sign : Bytes → Token → Option Bytes
  /-- `jwt.Parse` with HS256. -/
  parse : Bytes → Bytes → Option Token

/-- A text that begins with `<` is not JSON, and the JWT library is correct: a token is signed
as header, dot, payload, dot and HMAC, and one that does not end with the HMAC of what it
begins with is refused. -/
structure ExchangeLib.Lawful (lib : ExchangeLib) : Prop where
  unmarshal_bracket : ∀ body, body.head? = some 60 → lib.unmarshal body = none
  sign_eq : ∀ key token signed, lib.sign key token = some signed →
    signed = lib.signingInput token ++ 46 :: lib.signature key (lib.signingInput token)
  parse_eq : ∀ key signed token, lib.parse key signed = some token →
    ∃ input, signed = input ++ 46 :: lib.signature key input ∧
      lib.parseInput input = some token
  parseInput_signingInput : ∀ token, lib.parseInput (lib.signingInput token) = some token
  parseInput_dot : ∀ input token, lib.parseInput input = some token → 46 ∈ input

/-! ### The exchange -/

/-- `AWSTokenExchanger`. -/
structure AWSTokenExchanger where
  allowedRolePatterns : List (List GlobRegexp.Atom)
  tokenTTL : ℕ
  signingKey : Bytes
  issuer : Bytes
  audience : Bytes

/-- `NewAWSTokenExchanger`. -/
def newAWSTokenExchanger (allowedRoles : List (List Char)) (tokenTTL : ℕ)
    (signingKey issuer : Bytes) : Option AWSTokenExchanger :=
  (allowedRoles.mapM fun role => GlobRegexp.parse (GlobRegexp.globRegexp role)).map
    fun patterns => ⟨patterns, tokenTTL, signingKey, issuer, issuer⟩

/-- A request to `/auth/aws/token`, with the web as the gateway finds it and the time in
nanoseconds. -/
structure Exchange where
  method : Bytes
  xAWSAuth : Bytes
  web : Web
  now : ℕ

/-- `extractTag`. -/
def extractTag (s tag : Bytes) : Bytes :=
  match index (XmlText.tagBytes tag) s with
  | none => []
  | some start =>
      let rest := s.drop (start + (tag.length + 2))
      match index (XmlText.tagBytes (47 :: tag)) rest with
      | none => []
      | some stop => rest.take stop

/-- `parseSTSXMLResponse`. -/
def parseSTSXMLResponse (body : Bytes) : Option STSIdentity :=
  let arn := extractTag body (utf8Bytes "Arn")
  if arn = [] then none
  else some ⟨extractTag body (utf8Bytes "Account"), arn, extractTag body (utf8Bytes "UserId")⟩

/-- What the client of `net/http` gets, which follows up to ten redirects. -/
def fetch (web : Web) : ℕ → Url → Option (ℕ × Bytes)
  | 0, _ => none
  | n + 1, url =>
      match web url with
      | .failure => none
      | .redirect location => fetch web n location
      | .answer status body => some (status, body)

/-- `extractRoleName`. -/
def extractRoleName (arn : Bytes) : Bytes :=
  match arn.splitOn 47 with
  | _ :: role :: _ => if role = [] then [46] else role
  | _ => arn

/-- A token that has been issued: what it says, and what the client gets. -/
structure Issue where
  claims : Token
  token : Bytes
  expiresAt : ℕ

/-- What the client of the exchange gets. -/
inductive TokenAnswer where
  | methodNotAllowed
  | missingHeader
  | invalidCredentials
  | arnNotAuthorized
  | generationFailed
  | ok (issue : Issue)

/-- Nanoseconds as seconds. -/
def seconds (nanoseconds : ℕ) : ℕ := nanoseconds / 1000000000

namespace AWSTokenExchanger

variable (lib : ExchangeLib) (e : AWSTokenExchanger)

/-- The identity of an answer: JSON first, then XML. -/
def readIdentity (body : Bytes) : Option STSIdentity :=
  match lib.unmarshal body with
  | some identity => if identity.arn ≠ [] then some identity else parseSTSXMLResponse body
  | none => parseSTSXMLResponse body

/-- `verifyPresignedURL`. -/
def verifyPresignedURL (web : Web) (presignedURL : Bytes) : Option STSIdentity :=
  (lib.newRequest presignedURL).bind fun url =>
    (fetch web 10 url).bind fun (status, body) =>
      if status = 200 then readIdentity lib body else none

/-- `isAllowed`. -/
def isAllowed (arn : Bytes) : Prop :=
  ∃ pattern ∈ e.allowedRolePatterns, GlobRegexp.matchString pattern (runes arn) = true

instance (arn : Bytes) : Decidable (e.isAllowed arn) := List.decidableBEx _ _

/-- The claims of the token for an identity. -/
def claims (identity : STSIdentity) (now : ℕ) : Token where
  issuer := e.issuer
  subject := identity.arn
  audience := [e.audience]
  issuedAt := some (seconds now)
  expiration := some (seconds (now + e.tokenTTL))
  cxdbType := some (utf8Bytes "aws_iam")
  cxdbAccount := some identity.account
  cxdbRole := some (extractRoleName identity.arn)

/-- `generateToken`. -/
def generateToken (identity : STSIdentity) (now : ℕ) : Option Issue :=
  let claims := e.claims identity now
  (lib.sign e.signingKey claims).map fun signed => ⟨claims, signed, now + e.tokenTTL⟩

/-- `TokenHandler`. -/
def tokenHandler (x : Exchange) : TokenAnswer :=
  if x.method ≠ utf8Bytes "POST" then .methodNotAllowed
  else if x.xAWSAuth = [] then .missingHeader
  else
    match verifyPresignedURL lib x.web x.xAWSAuth with
    | none => .invalidCredentials
    | some identity =>
        if e.isAllowed identity.arn then
          match e.generateToken lib identity x.now with
          | some issue => .ok issue
          | none => .generationFailed
        else .arnNotAuthorized

/-- `Verify`, at a time in nanoseconds. -/
def verify (tokenString : Bytes) (now : ℕ) : Option Session :=
  match lib.parse e.signingKey tokenString with
  | none => none
  | some token =>
      if (∀ exp ∈ token.expiration, seconds now < exp) ∧
          (∀ iat ∈ token.issuedAt, iat ≤ seconds now) ∧
          token.issuer = e.issuer ∧ e.audience ∈ token.audience ∧
          token.cxdbType = some (utf8Bytes "aws_iam") then
        some ⟨utf8Bytes "aws:" ++ token.subject,
          token.cxdbRole.getD [] ++ utf8Bytes "@aws.iam",
          utf8Bytes "AWS IAM: " ++ token.subject⟩
      else none

/-! ### Runs -/

/-- What the gateway does with its secret: it issues tokens, signs the session of a user who
logs in, and verifies the tokens that it is shown. -/
inductive Event where
  | exchange (x : Exchange)
  | login (random : Bytes)
  | verify (token : Bytes) (now : ℕ)

/-- `randomID`: the random bytes in hexadecimal digits. -/
def randomID (random : Bytes) : Bytes :=
  random.flatMap fun b =>
    [ChunkedBody.hexDigit (b.toNat / 16), ChunkedBody.hexDigit (b.toNat % 16)]

/-- What has been done: the messages that have been signed with the secret, and the tokens
that have been issued. -/
structure Record where
  signed : List Bytes
  issued : List Issue

/-- What an event adds. -/
def step (record : Record) : Event → Record
  | .exchange x =>
      match e.tokenHandler lib x with
      | .ok issue =>
          ⟨record.signed ++ [lib.signingInput issue.claims], record.issued ++ [issue]⟩
      | _ => record
  | .login random => { record with signed := record.signed ++ [randomID random] }
  | .verify _ _ => record

/-- What a sequence of events adds up to. -/
def run (events : List Event) : Record := events.foldl (e.step lib) ⟨[], []⟩

end AWSTokenExchanger

/-! ### AWS STS -/

/-- An XML answer of AWS STS: the elements that are read hold texts. -/
structure StsDocument extends XmlText.Document where
  arns : toDocument.HoldsTexts (utf8Bytes "Arn")
  accounts : toDocument.HoldsTexts (utf8Bytes "Account")

/-- The ARN of the identity in an XML answer. -/
def StsDocument.arn (d : StsDocument) : Option Bytes :=
  XmlText.firstText (utf8Bytes "Arn") d.pieces

/-- Its account. -/
def StsDocument.account (d : StsDocument) : Option Bytes :=
  XmlText.firstText (utf8Bytes "Account") d.pieces

/-- The answer reports an ARN and an account: in an XML document, or in JSON. -/
inductive Reports (lib : ExchangeLib) (body arn account : Bytes) : Prop where
  | xml (d : StsDocument) (hbody : d.bytes = body) (harn : d.arn = some arn)
      (haccount : d.account.getD [] = account)
  | json (identity : STSIdentity) (hbody : lib.unmarshal body = some identity)
      (harn : identity.arn = arn) (hne : arn ≠ []) (haccount : identity.account = account)

/-- The hosts of AWS STS, as these are documented: no redirects, and an answer with status 200
is an XML document, or a JSON object with an ARN. -/
structure IsSts (lib : ExchangeLib) (sts : Bytes → Prop) (web : Web) : Prop where
  not_redirect : ∀ url location, sts url.host → web url ≠ .redirect location
  answer : ∀ url body, sts url.host → web url = .answer 200 body →
    (∃ d : StsDocument, d.bytes = body) ∨
      ∃ identity, lib.unmarshal body = some identity ∧ identity.arn ≠ []

namespace AWSTokenExchanger

variable (lib : ExchangeLib) (sts : Bytes → Prop) (e : AWSTokenExchanger)

/-- **The token says what AWS STS has answered** to the presigned request, and an allowed role
matches the ARN, with stars that stand for any characters. -/
def Attested (allowedRoles : List (List Char)) (x : Exchange) (issue : Issue) : Prop :=
  ∃ url body identity, lib.newRequest x.xAWSAuth = some url ∧ sts url.host ∧
    x.web url = .answer 200 body ∧ Reports lib body identity.arn identity.account ∧
    (∃ role ∈ allowedRoles, GlobRegexp.Matches (fun _ => True) role (runes identity.arn)) ∧
    issue.claims = e.claims identity x.now ∧ issue.expiresAt = x.now + e.tokenTTL

/-- If what the URL leads to is read as an identity that is allowed, then the URL is one of AWS
STS, and no XML escapes stand in the ARN and the account of the answer. -/
def Trustworthy (x : Exchange) : Prop :=
  ∀ url body identity, lib.newRequest x.xAWSAuth = some url →
    fetch x.web 10 url = some (200, body) → readIdentity lib body = some identity →
    e.isAllowed identity.arn →
    sts url.host ∧ ∀ d : StsDocument, d.bytes = body →
      (∀ arn ∈ d.arn, XmlText.Plain arn) ∧ (∀ account ∈ d.account, XmlText.Plain account)

/-- Nobody presents a token with an HMAC that has not been made with the secret. -/
def Unforged (events : List Event) : Prop :=
  ∀ before token now after, events = before ++ .verify token now :: after →
    ∀ input, token = input ++ 46 :: lib.signature e.signingKey input →
      input ∈ (e.run lib before).signed

/-- The same event, but hosts other than those of AWS STS may serve something else. -/
inductive Event.Alike : Event → Event → Prop where
  | exchange {x x' : Exchange} (hmethod : x'.method = x.method)
      (hheader : x'.xAWSAuth = x.xAWSAuth) (hnow : x'.now = x.now)
      (hweb : ∀ url, sts url.host → x'.web url = x.web url) :
      Event.Alike (.exchange x) (.exchange x')
  | login (random : Bytes) : Event.Alike (.login random) (.login random)
  | verify (token : Bytes) (now : ℕ) : Event.Alike (.verify token now) (.verify token now)

end AWSTokenExchanger

/-! ### Reading an answer -/

/-- **The first element is extracted**, its text as it is escaped. -/
theorem extractTag_bytes (d : XmlText.Document) {name : Bytes} (hname : 62 ∉ name)
    (h : d.HoldsTexts name) :
    extractTag d.bytes name =
      ((XmlText.firstText name d.pieces).map XmlText.escapeText).getD [] := by
  rw [extractTag]
  rcases d.firstText_cases h with ⟨hnone, hmem⟩ | ⟨before, t, rest, htext, hbefore, hpieces⟩
  · rw [XmlText.Document.bytes, XmlText.index_tagBytes_none hname d.brackets hmem, hnone]
    rfl
  have hbrackets : ∀ inner, .tag inner ∈ before → 60 ∉ inner ∧ 62 ∉ inner :=
    fun inner hinner => d.brackets inner (hpieces ▸ List.mem_append_left _ hinner)
  have hstart := XmlText.index_tagBytes hname hbrackets hbefore
    (.text t :: .tag (47 :: name) :: rest)
  have hrest : d.bytes.drop ((XmlText.piecesBytes before).length + (name.length + 2)) =
      XmlText.piecesBytes ([.text t] ++ .tag (47 :: name) :: rest) := by
    have hlength : name.length + 2 = (XmlText.tagBytes name).length := by
      simp [XmlText.tagBytes]
    rw [XmlText.Document.bytes, hpieces, XmlText.piecesBytes_append, ← List.drop_drop,
      List.drop_left, XmlText.piecesBytes_cons, hlength, XmlText.Piece.bytes, List.drop_left]
    rfl
  have hclose : (62 : UInt8) ∉ 47 :: name := by simpa using hname
  have htags : ∀ inner, .tag inner ∈ [XmlText.Piece.text t] → 60 ∉ inner ∧ 62 ∉ inner := by
    simp
  have hstop := XmlText.index_tagBytes hclose htags (by simp) rest
  rw [← hpieces, ← XmlText.Document.bytes] at hstart
  rw [hstart, htext]
  simp only [hrest, hstop]
  simp [XmlText.Piece.bytes]

/-- An answer of AWS STS is read as what it reports, if XML leaves it alone. -/
theorem StsDocument.reports {lib : ExchangeLib} (hlib : lib.Lawful) (d : StsDocument)
    {identity : STSIdentity}
    (h : AWSTokenExchanger.readIdentity lib d.bytes = some identity)
    (harn : ∀ arn ∈ d.arn, XmlText.Plain arn)
    (haccount : ∀ account ∈ d.account, XmlText.Plain account) :
    Reports lib d.bytes identity.arn identity.account := by
  rw [AWSTokenExchanger.readIdentity, hlib.unmarshal_bracket _ d.bytes_head] at h
  simp only [parseSTSXMLResponse] at h
  rw [extractTag_bytes d.toDocument (by decide) d.arns,
    extractTag_bytes d.toDocument (by decide) d.accounts] at h
  split at h
  · cases h
  next hne =>
  obtain rfl := Option.some.inj h
  obtain ⟨arn, hsome⟩ : ∃ arn, d.arn = some arn := by
    cases hd : d.arn with
    | none =>
        rw [← StsDocument.arn, hd] at hne
        exact absurd rfl hne
    | some arn => exact ⟨arn, rfl⟩
  refine .xml d rfl ?_ ?_
  · show d.arn = some ((d.arn.map XmlText.escapeText).getD [])
    rw [hsome, Option.map_some, Option.getD_some, (harn arn hsome).escapeText_eq]
  · show d.account.getD [] = (d.account.map XmlText.escapeText).getD []
    cases hd : d.account with
    | none => rfl
    | some account =>
        rw [Option.map_some, Option.getD_some, Option.getD_some,
          (haccount account hd).escapeText_eq]

/-- AWS STS answers at once. -/
theorem IsSts.answer_of_fetch {lib : ExchangeLib} {sts : Bytes → Prop} {web : Web}
    (hsts : IsSts lib sts web) {url : Url} (hurl : sts url.host) {n status : ℕ} {body : Bytes}
    (h : fetch web n url = some (status, body)) : web url = .answer status body := by
  cases n with
  | zero => cases h
  | succ n =>
      rw [fetch] at h
      split at h
      · cases h
      next location hredirect => exact absurd hredirect (hsts.not_redirect url location hurl)
      next hanswer =>
        obtain ⟨rfl, rfl⟩ := Prod.mk.inj (Option.some.inj h)
        exact hanswer

/-- AWS STS is the same in two webs, so it is as documented in both. -/
theorem IsSts.congr {lib : ExchangeLib} {sts : Bytes → Prop} {web web' : Web} (hsts : IsSts lib sts web)
    (hweb : ∀ url, sts url.host → web' url = web url) : IsSts lib sts web' where
  not_redirect url location hurl := by
    rw [hweb url hurl]
    exact hsts.not_redirect url location hurl
  answer url body hurl := by
    rw [hweb url hurl]
    exact hsts.answer url body hurl

/-! ### Allowed roles -/

/-- The patterns of the allowed roles. -/
theorem newAWSTokenExchanger_eq (allowedRoles : List (List Char)) (tokenTTL : ℕ)
    (signingKey issuer : Bytes) :
    newAWSTokenExchanger allowedRoles tokenTTL signingKey issuer =
      some ⟨allowedRoles.map fun role =>
        .beginText :: (role.map GlobRegexp.globAtom ++ [.endText]),
        tokenTTL, signingKey, issuer, issuer⟩ := by
  have hpatterns : (allowedRoles.mapM fun role =>
      GlobRegexp.parse (GlobRegexp.globRegexp role)) =
      some (allowedRoles.map fun role =>
        .beginText :: (role.map GlobRegexp.globAtom ++ [.endText])) := by
    simp only [GlobRegexp.parse_globRegexp]
    exact List.mapM_pure (m := Option)
  rw [newAWSTokenExchanger, hpatterns, Option.map_some]

namespace AWSTokenExchanger

variable {lib : ExchangeLib} {sts : Bytes → Prop} {e : AWSTokenExchanger}

/-- **An allowed ARN** matches one of the roles. -/
theorem isAllowed_iff {allowedRoles : List (List Char)} {tokenTTL : ℕ}
    {signingKey issuer : Bytes}
    (he : newAWSTokenExchanger allowedRoles tokenTTL signingKey issuer = some e) (arn : Bytes) :
    e.isAllowed arn ↔
      ∃ role ∈ allowedRoles, GlobRegexp.Matches (· ≠ '\n') role (runes arn) := by
  rw [newAWSTokenExchanger_eq] at he
  obtain rfl := Option.some.inj he
  simp only [isAllowed, List.mem_map, exists_exists_and_eq_and, GlobRegexp.matchString_iff]

/-- What `TokenHandler` has seen when it issues a token. -/
theorem tokenHandler_ok {x : Exchange} {issue : Issue} (h : e.tokenHandler lib x = .ok issue) :
    ∃ url body identity, lib.newRequest x.xAWSAuth = some url ∧
      fetch x.web 10 url = some (200, body) ∧ readIdentity lib body = some identity ∧
      e.isAllowed identity.arn ∧ e.generateToken lib identity x.now = some issue := by
  rw [tokenHandler] at h
  split at h
  · cases h
  split at h
  · cases h
  split at h
  · cases h
  next identity hidentity =>
    split at h
    next hallowed =>
      split at h
      next issue' hissue =>
        obtain rfl := TokenAnswer.ok.inj h
        obtain ⟨url, hurl, hrest⟩ := Option.bind_eq_some_iff.mp hidentity
        obtain ⟨⟨status, body⟩, hfetch, hread⟩ := Option.bind_eq_some_iff.mp hrest
        simp only at hread
        split at hread
        next hstatus =>
          subst hstatus
          exact ⟨url, body, identity, hurl, hfetch, hread, hallowed, hissue⟩
        · cases hread
      · cases h
    · cases h

/-- **A token says what AWS STS has answered.** -/
theorem issued_of_trustworthy (hlib : lib.Lawful) {allowedRoles : List (List Char)}
    {tokenTTL : ℕ} {signingKey issuer : Bytes}
    (he : newAWSTokenExchanger allowedRoles tokenTTL signingKey issuer = some e)
    {x : Exchange} (hsts : IsSts lib sts x.web) (htrust : e.Trustworthy lib sts x)
    {issue : Issue} (h : e.tokenHandler lib x = .ok issue) :
    e.Attested lib sts allowedRoles x issue := by
  obtain ⟨url, body, identity, hurl, hfetch, hread, hallowed, hissue⟩ := tokenHandler_ok h
  obtain ⟨hhost, hplain⟩ := htrust url body identity hurl hfetch hread hallowed
  have hanswer := hsts.answer_of_fetch hhost hfetch
  have hreports : Reports lib body identity.arn identity.account := by
    rcases hsts.answer url body hhost hanswer with ⟨d, rfl⟩ | ⟨identity', hjson, hne⟩
    · obtain ⟨harn, haccount⟩ := hplain d rfl
      exact d.reports hlib hread harn haccount
    · rw [readIdentity, hjson] at hread
      simp only [if_pos hne] at hread
      obtain rfl := Option.some.inj hread
      exact .json identity' hjson rfl hne rfl
  obtain ⟨role, hrole, hmatches⟩ := (isAllowed_iff he identity.arn).mp hallowed
  obtain ⟨signed, -, rfl⟩ := Option.map_eq_some_iff.mp hissue
  exact ⟨url, body, identity, hurl, hhost, hanswer, hreports,
    ⟨role, hrole, hmatches.mono fun _ _ _ => trivial⟩, rfl, rfl⟩

/-! ### What has been signed -/

theorem run_append (events : List Event) (event : Event) :
    e.run lib (events ++ [event]) = e.step lib (e.run lib events) event := by
  rw [run, List.foldl_append]
  rfl

/-- What `TokenHandler` answers is what the record gets. -/
theorem step_exchange (record : Record) (x : Exchange) :
    (∃ issue, e.tokenHandler lib x = .ok issue ∧ e.step lib record (.exchange x) =
      ⟨record.signed ++ [lib.signingInput issue.claims], record.issued ++ [issue]⟩) ∨
      (∀ issue, e.tokenHandler lib x ≠ .ok issue) ∧
        e.step lib record (.exchange x) = record := by
  rw [step]
  cases e.tokenHandler lib x with
  | ok issue => exact .inl ⟨issue, rfl, rfl⟩
  | _ => exact .inr ⟨fun _ h => (nomatch h), rfl⟩

/-- A token that has been issued comes from an exchange. -/
theorem mem_issued {events : List Event} {issue : Issue}
    (h : issue ∈ (e.run lib events).issued) :
    ∃ x, .exchange x ∈ events ∧ e.tokenHandler lib x = .ok issue := by
  induction events using List.reverseRecOn with
  | nil => cases h
  | append_singleton events event ih =>
      rw [run_append] at h
      have hold : issue ∈ (e.run lib events).issued →
          ∃ x, .exchange x ∈ events ++ [event] ∧ e.tokenHandler lib x = .ok issue := by
        intro hissue
        obtain ⟨x, hx, hok⟩ := ih hissue
        exact ⟨x, List.mem_append_left _ hx, hok⟩
      cases event with
      | exchange x =>
          rcases step_exchange (e.run lib events) x with ⟨issue', hok, hstep⟩ | ⟨-, hstep⟩
          · rw [hstep, List.mem_append, List.mem_singleton] at h
            rcases h with h | rfl
            · exact hold h
            · exact ⟨x, List.mem_append_right _ List.mem_cons_self, hok⟩
          · rw [hstep] at h
            exact hold h
      | login random => exact hold h
      | verify token now => exact hold h

/-- **What has been signed** with the secret is a token that has been issued, or the session
of a user. -/
theorem mem_signed {events : List Event} {message : Bytes}
    (h : message ∈ (e.run lib events).signed) :
    (∃ issue ∈ (e.run lib events).issued, message = lib.signingInput issue.claims) ∨
      ∃ random, message = randomID random := by
  induction events using List.reverseRecOn with
  | nil => cases h
  | append_singleton events event ih =>
      rw [run_append] at h ⊢
      cases event with
      | exchange x =>
          rcases step_exchange (e.run lib events) x with ⟨issue, -, hstep⟩ | ⟨-, hstep⟩
          · rw [hstep] at h ⊢
            rcases List.mem_append.mp h with h | h
            · rcases ih h with ⟨issue', hissue, hmessage⟩ | hrandom
              · exact .inl ⟨issue', List.mem_append_left _ hissue, hmessage⟩
              · exact .inr hrandom
            · exact .inl ⟨issue, List.mem_append_right _ List.mem_cons_self,
                List.mem_singleton.mp h⟩
          · rw [hstep] at h ⊢
            exact ih h
      | login random =>
          rcases List.mem_append.mp h with h | h
          · exact ih h
          · exact .inr ⟨random, List.mem_singleton.mp h⟩
      | verify token now => exact ih h

/-- The session of a user is no token: it has no dot. -/
theorem randomID_dot (random : Bytes) : 46 ∉ randomID random := by
  have hdigit : ∀ n < 16, ChunkedBody.hexDigit n ≠ 46 := by
    intro n hn hdot
    have hvalue := ChunkedBody.hexValue_hexDigit hn
    rw [hdot] at hvalue
    cases hvalue
  rw [randomID, List.mem_flatMap]
  rintro ⟨b, -, hb⟩
  have hb256 := b.toNat_lt
  rcases List.mem_cons.mp hb with hdot | hdot
  · exact hdigit (b.toNat / 16) (by omega) hdot.symm
  · exact hdigit (b.toNat % 16) (by omega) (List.mem_singleton.mp hdot).symm

/-- An issued token is signed, and expires when its claims say. -/
theorem issue_eq (hlib : lib.Lawful) {x : Exchange} {issue : Issue}
    (h : e.tokenHandler lib x = .ok issue) :
    issue.token = lib.signingInput issue.claims ++
        46 :: lib.signature e.signingKey (lib.signingInput issue.claims) ∧
      issue.claims.expiration = some (seconds issue.expiresAt) := by
  obtain ⟨-, -, identity, -, -, -, -, hissue⟩ := tokenHandler_ok h
  obtain ⟨signed, hsigned, rfl⟩ := Option.map_eq_some_iff.mp hissue
  exact ⟨hlib.sign_eq _ _ _ hsigned, rfl⟩

/-- What `Verify` has seen when it accepts a token. -/
theorem verify_some {tokenString : Bytes} {now : ℕ} {session : Session}
    (h : e.verify lib tokenString now = some session) :
    ∃ token, lib.parse e.signingKey tokenString = some token ∧
      (∀ exp ∈ token.expiration, seconds now < exp) ∧
      session.id = utf8Bytes "aws:" ++ token.subject := by
  rw [verify] at h
  split at h
  · cases h
  next token hparse =>
    split at h
    next hvalid =>
      obtain rfl := Option.some.inj h
      exact ⟨token, hparse, hvalid.1, rfl⟩
    · cases h

/-- **`Verify` accepts what has been issued and has not expired.** -/
theorem verify_issued (hlib : lib.Lawful) {events : List Event} (hunf : e.Unforged lib events)
    {before after : List Event} {token : Bytes} {now : ℕ} {session : Session}
    (hevents : events = before ++ .verify token now :: after)
    (h : e.verify lib token now = some session) :
    ∃ issue ∈ (e.run lib before).issued, issue.token = token ∧ now < issue.expiresAt ∧
      session.id = utf8Bytes "aws:" ++ issue.claims.subject := by
  obtain ⟨claims, hparse, hexp, hid⟩ := verify_some h
  obtain ⟨input, htoken, hinput⟩ := hlib.parse_eq _ _ _ hparse
  rcases mem_signed (hunf before token now after hevents input htoken) with
    ⟨issue, hissue, rfl⟩ | ⟨random, rfl⟩
  · obtain ⟨x, -, hok⟩ := mem_issued hissue
    obtain ⟨hsigned, hexpiration⟩ := issue_eq hlib hok
    rw [hlib.parseInput_signingInput] at hinput
    obtain rfl := Option.some.inj hinput
    have hseconds : seconds now < seconds issue.expiresAt := hexp _ hexpiration
    have hnow : now < issue.expiresAt := by
      simp only [seconds] at hseconds
      omega
    exact ⟨issue, hissue, hsigned.trans htoken.symm, hnow, hid⟩
  · exact absurd (hlib.parseInput_dot _ _ hinput) (randomID_dot random)

/-! ### What other hosts serve -/

/-- A token that is issued is issued whatever other hosts serve. -/
theorem tokenHandler_mono {x x' : Exchange} (hsts : IsSts lib sts x.web)
    (htrust : e.Trustworthy lib sts x) (hmethod : x'.method = x.method)
    (hheader : x'.xAWSAuth = x.xAWSAuth) (hnow : x'.now = x.now)
    (hweb : ∀ url, sts url.host → x'.web url = x.web url) {issue : Issue}
    (h : e.tokenHandler lib x = .ok issue) : e.tokenHandler lib x' = .ok issue := by
  obtain ⟨url, body, identity, hurl, hfetch, hread, hallowed, -⟩ := tokenHandler_ok h
  have hhost := (htrust url body identity hurl hfetch hread hallowed).1
  have hanswer := hsts.answer_of_fetch hhost hfetch
  have hfetch' : fetch x'.web 10 url = some (200, body) := by
    rw [fetch, hweb url hhost, hanswer]
  have hverify : verifyPresignedURL lib x'.web x'.xAWSAuth =
      verifyPresignedURL lib x.web x.xAWSAuth := by
    rw [hheader, verifyPresignedURL, verifyPresignedURL, hurl, Option.bind_some,
      Option.bind_some, hfetch, hfetch']
  rw [← h, tokenHandler, tokenHandler, hverify, hmethod, hheader, hnow]

/-- **What other hosts serve makes no difference.** -/
theorem run_alike {events events' : List Event}
    (hsts : ∀ x, .exchange x ∈ events → IsSts lib sts x.web)
    (htrust : ∀ x, .exchange x ∈ events → e.Trustworthy lib sts x)
    (halike : List.Forall₂ (Event.Alike sts) events events')
    (htrust' : ∀ x, .exchange x ∈ events' → e.Trustworthy lib sts x) :
    e.run lib events' = e.run lib events := by
  rw [run, run]
  generalize (⟨[], []⟩ : Record) = record
  induction halike generalizing record with
  | nil => rfl
  | @cons event event' events events' hevent _ ih =>
      rw [List.foldl_cons, List.foldl_cons]
      have hstep : e.step lib record event' = e.step lib record event := by
        cases hevent with
        | @exchange x x' hmethod hheader hnow hweb =>
            have hx := hsts x List.mem_cons_self
            rcases step_exchange record x with ⟨issue, hok, hstep⟩ | ⟨hnot, hstep⟩ <;>
              rcases step_exchange record x' with ⟨issue', hok', hstep'⟩ | ⟨hnot', hstep'⟩
            · have hok'' := tokenHandler_mono hx (htrust x List.mem_cons_self) hmethod hheader
                hnow hweb hok
              rw [hok''] at hok'
              obtain rfl := TokenAnswer.ok.inj hok'
              rw [hstep, hstep']
            · exact absurd (tokenHandler_mono hx (htrust x List.mem_cons_self) hmethod hheader
                hnow hweb hok) (hnot' issue)
            · exact absurd (tokenHandler_mono (hx.congr hweb) (htrust' x' List.mem_cons_self)
                hmethod.symm hheader.symm hnow.symm (fun url hurl => (hweb url hurl).symm) hok')
                (hnot issue')
            · rw [hstep, hstep']
        | login random => rfl
        | verify token now => rfl
      rw [hstep]
      exact ih (fun x hx => hsts x (List.mem_cons_of_mem _ hx))
        (fun x hx => htrust x (List.mem_cons_of_mem _ hx))
        (fun x hx => htrust' x (List.mem_cons_of_mem _ hx)) _

/-- **The token exchange** is sound in a run: a token says what AWS STS has answered to the
exchange that issued it, `Verify` accepts what has been issued and has not expired, and one of
the others in which only other hosts serve something else comes to the same. -/
structure SoundRun (lib : ExchangeLib) (sts : Bytes → Prop) (allowedRoles : List (List Char))
    (e : AWSTokenExchanger) (others : List Event → Prop) (events : List Event) : Prop where
  issued : ∀ issue ∈ (e.run lib events).issued, ∃ x, .exchange x ∈ events ∧
    e.Attested lib sts allowedRoles x issue
  accepted : ∀ before token now after session, events = before ++ .verify token now :: after →
    e.verify lib token now = some session → ∃ issue ∈ (e.run lib before).issued,
      issue.token = token ∧ now < issue.expiresAt ∧
      session.id = utf8Bytes "aws:" ++ issue.claims.subject
  alike : ∀ events', List.Forall₂ (Event.Alike sts) events events' → others events' →
    e.run lib events' = e.run lib events

/-- **Runs of trustworthy exchanges are sound.** -/
theorem token_exchange (lib : ExchangeLib) (hlib : lib.Lawful) (sts : Bytes → Prop)
    (allowedRoles : List (List Char)) (tokenTTL : ℕ) (signingKey issuer : Bytes)
    (e : AWSTokenExchanger)
    (he : newAWSTokenExchanger allowedRoles tokenTTL signingKey issuer = some e)
    (events : List Event) (hsts : ∀ x, .exchange x ∈ events → IsSts lib sts x.web)
    (hunf : e.Unforged lib events)
    (htrust : ∀ x, .exchange x ∈ events → e.Trustworthy lib sts x) :
    SoundRun lib sts allowedRoles e
      (fun events' => ∀ x, .exchange x ∈ events' → e.Trustworthy lib sts x) events where
  issued issue hissue := by
    obtain ⟨x, hx, hok⟩ := mem_issued hissue
    exact ⟨x, hx, issued_of_trustworthy hlib he (hsts x hx) (htrust x hx) hok⟩
  accepted _ _ _ _ _ hevents h := verify_issued hlib hunf hevents h
  alike _ halike htrust' := run_alike hsts htrust halike htrust'

end AWSTokenExchanger

/-! ### A forged answer -/

instance encodableUInt8 : Encodable UInt8 :=
  Encodable.ofLeftInverse UInt8.toNat UInt8.ofNat fun _ => UInt8.ofNat_toNat

instance : Encodable Token :=
  Encodable.ofLeftInverse
    (fun t => (t.issuer, t.subject, t.audience, t.issuedAt, t.expiration, t.cxdbType,
      t.cxdbAccount, t.cxdbRole))
    (fun p => ⟨p.1, p.2.1, p.2.2.1, p.2.2.2.1, p.2.2.2.2.1, p.2.2.2.2.2.1, p.2.2.2.2.2.2.1,
      p.2.2.2.2.2.2.2⟩)
    fun _ => rfl

/-- A payload: the number of a token in bytes. -/
def numberBytes (token : Token) : Bytes :=
  (Nat.digits 256 (Encodable.encode token)).map UInt8.ofNat

theorem ofDigits_numberBytes (token : Token) :
    Nat.ofDigits 256 ((numberBytes token).map UInt8.toNat) = Encodable.encode token := by
  have hdigits : (numberBytes token).map UInt8.toNat =
      Nat.digits 256 (Encodable.encode token) := by
    rw [numberBytes, List.map_map]
    refine (List.map_congr_left fun d hd => ?_).trans (List.map_id _)
    exact UInt8.toNat_ofNat_of_lt (Nat.digits_lt_base (by decide) hd)
  rw [hdigits, Nat.ofDigits_digits]

/-- The token of a payload behind an empty header. -/
def readNumber : Bytes → Option Token
  | 46 :: bs => Encodable.decode (Nat.ofDigits 256 (bs.map UInt8.toNat))
  | _ => none

/-- Libraries that send tokens as numbers, and that know no JSON. -/
def numberLib : ExchangeLib where
  newRequest url :=
    if utf8Bytes "https://" <+: url then
      some ⟨(url.drop 8).takeWhile (· ≠ 47), (url.drop 8).dropWhile (· ≠ 47)⟩
    else none
  unmarshal _ := none
  signingInput token := 46 :: numberBytes token
  parseInput := readNumber
  signature _ _ := utf8Bytes "hmac"
  sign _ token := some (46 :: numberBytes token ++ 46 :: utf8Bytes "hmac")
  parse _ signed :=
    let n := signed.length - 5
    if signed.drop n = 46 :: utf8Bytes "hmac" then readNumber (signed.take n) else none

theorem numberLib_lawful : numberLib.Lawful where
  unmarshal_bracket _ _ := rfl
  sign_eq _ _ _ h := (Option.some.inj h).symm
  parse_eq _ signed token h := by
    simp only [numberLib] at h
    split at h
    next hmac =>
      refine ⟨signed.take (signed.length - 5), ?_, h⟩
      show signed = signed.take (signed.length - 5) ++ 46 :: utf8Bytes "hmac"
      rw [← hmac, List.take_append_drop]
    · cases h
  parseInput_signingInput token := by
    show Encodable.decode (Nat.ofDigits 256 ((numberBytes token).map UInt8.toNat)) = some token
    rw [ofDigits_numberBytes, Encodable.encodek]
  parseInput_dot input token h := by
    simp only [numberLib] at h
    rw [readNumber.eq_def] at h
    split at h
    · exact List.mem_cons_self
    · cases h

/-- The role that is allowed. -/
def appRole : Bytes := utf8Bytes "arn:aws:iam::123456789012:role/app"

/-- The answer of AWS STS for this role. -/
def appRolePieces : List XmlText.Piece :=
  [.tag (utf8Bytes "GetCallerIdentityResult"), .tag (utf8Bytes "Arn"), .text appRole,
    .tag (utf8Bytes "/Arn"), .tag (utf8Bytes "Account"), .text (utf8Bytes "123456789012"),
    .tag (utf8Bytes "/Account"), .tag (utf8Bytes "/GetCallerIdentityResult")]

def appRoleDocument : StsDocument where
  pieces := appRolePieces
  begins := ⟨_, _, rfl⟩
  brackets inner h := by
    simp only [appRolePieces, List.mem_cons, List.not_mem_nil, reduceCtorEq, or_false,
      false_or, XmlText.Piece.tag.injEq] at h
    rcases h with rfl | rfl | rfl | rfl | rfl | rfl <;> decide
  arns := XmlText.Document.holdsTexts_of_eq _
    (show appRolePieces = [.tag (utf8Bytes "GetCallerIdentityResult")] ++ _ from rfl)
    (by decide) (by decide)
  accounts := XmlText.Document.holdsTexts_of_eq _
    (show appRolePieces = [.tag (utf8Bytes "GetCallerIdentityResult"), .tag (utf8Bytes "Arn"),
      .text appRole, .tag (utf8Bytes "/Arn")] ++ _ from rfl) (by decide) (by decide)

/-- The host of AWS STS. -/
def stsHost (host : Bytes) : Prop := host = utf8Bytes "sts.amazonaws.com"

instance (host : Bytes) : Decidable (stsHost host) := inferInstanceAs (Decidable (_ = _))

/-- A web in which only this host serves something: that answer. -/
def soleWeb (host : Bytes) (url : Url) : Reply :=
  if url.host = host then .answer 200 appRoleDocument.bytes else .failure

theorem soleWeb_isSts (host : Bytes) : IsSts numberLib stsHost (soleWeb host) where
  not_redirect url location _ := by
    rw [soleWeb]
    split <;> rintro ⟨⟩
  answer url body _ h := by
    rw [soleWeb] at h
    split at h
    · exact .inl ⟨appRoleDocument, (Reply.answer.inj h).2⟩
    · cases h

/-- The exchanger for this role. -/
def appExchanger : AWSTokenExchanger where
  allowedRolePatterns :=
    [.beginText :: ("arn:aws:iam::123456789012:role/*".toList.map GlobRegexp.globAtom ++
      [.endText])]
  tokenTTL := 3600000000000
  signingKey := utf8Bytes "secret"
  issuer := utf8Bytes "cxdb.local"
  audience := utf8Bytes "cxdb.local"

theorem appExchanger_eq :
    newAWSTokenExchanger ["arn:aws:iam::123456789012:role/*".toList] 3600000000000
      (utf8Bytes "secret") (utf8Bytes "cxdb.local") = some appExchanger :=
  newAWSTokenExchanger_eq _ _ _ _

/-- A URL is presented while one host serves something. -/
def present (presignedURL : String) (host : Bytes) : Exchange where
  method := utf8Bytes "POST"
  xAWSAuth := utf8Bytes presignedURL
  web := soleWeb host
  now := 0

/-- The identity that is read from the answer. -/
def appIdentity : STSIdentity := ⟨utf8Bytes "123456789012", appRole, []⟩

set_option maxRecDepth 4000 in
theorem readIdentity_appRole :
    AWSTokenExchanger.readIdentity numberLib appRoleDocument.bytes = some appIdentity := by
  decide

theorem isAllowed_appRole : appExchanger.isAllowed appIdentity.arn := by
  decide

/-- Whoever serves the answer, a token is issued for it. -/
theorem tokenHandler_present {presignedURL : String} {host : Bytes} {url : Url}
    (hne : utf8Bytes presignedURL ≠ [])
    (hurl : numberLib.newRequest (utf8Bytes presignedURL) = some url) (hhost : url.host = host) :
    appExchanger.tokenHandler numberLib (present presignedURL host) =
      .ok ⟨appExchanger.claims appIdentity 0,
        46 :: numberBytes (appExchanger.claims appIdentity 0) ++ 46 :: utf8Bytes "hmac",
        3600000000000⟩ := by
  have hverify : AWSTokenExchanger.verifyPresignedURL numberLib (soleWeb host)
      (utf8Bytes presignedURL) = some appIdentity := by
    rw [AWSTokenExchanger.verifyPresignedURL, hurl, Option.bind_some, fetch, soleWeb,
      if_pos hhost]
    exact readIdentity_appRole
  rw [AWSTokenExchanger.tokenHandler, present]
  simp only [ne_eq, not_true_eq_false, if_false, if_neg hne, hverify, if_pos isAllowed_appRole]
  rfl

/-- The token for the answer. -/
def appToken : Bytes :=
  46 :: numberBytes (appExchanger.claims appIdentity 0) ++ 46 :: utf8Bytes "hmac"

/-- The URL that a client presigns. -/
def stsUrl : Url := ⟨utf8Bytes "sts.amazonaws.com", utf8Bytes "/?Action=GetCallerIdentity"⟩

/-- The exchange of a client that asks AWS STS. -/
def stsExchange : Exchange :=
  present "https://sts.amazonaws.com/?Action=GetCallerIdentity" stsUrl.host

theorem newRequest_sts :
    numberLib.newRequest (utf8Bytes "https://sts.amazonaws.com/?Action=GetCallerIdentity") =
      some stsUrl := by
  decide

theorem tokenHandler_sts : appExchanger.tokenHandler numberLib stsExchange =
    .ok ⟨appExchanger.claims appIdentity 0, appToken, 3600000000000⟩ :=
  tokenHandler_present (by decide) newRequest_sts rfl

theorem trustworthy_sts : appExchanger.Trustworthy numberLib stsHost stsExchange := by
  intro url body identity hurl hfetch _ _
  obtain rfl := Option.some.inj (newRequest_sts.symm.trans hurl)
  have hanswer : fetch stsExchange.web 10 stsUrl = some (200, appRoleDocument.bytes) := rfl
  obtain rfl : appRoleDocument.bytes = body :=
    (Prod.mk.inj (Option.some.inj (hanswer.symm.trans hfetch))).2
  refine ⟨rfl, fun d hd => ⟨fun arn harn => ?_, fun account haccount => ?_⟩⟩
  · have hextract := extractTag_bytes d.toDocument (by decide) d.arns
    rw [hd, extractTag_bytes appRoleDocument.toDocument (by decide) appRoleDocument.arns,
      ← StsDocument.arn, ← StsDocument.arn, Option.mem_def.mp harn] at hextract
    have hbytes : XmlText.escapeText appRole = XmlText.escapeText arn := hextract
    exact XmlText.plain_of_escapeText (hbytes ▸ by decide)
  · have hextract := extractTag_bytes d.toDocument (by decide) d.accounts
    rw [hd, extractTag_bytes appRoleDocument.toDocument (by decide) appRoleDocument.accounts,
      ← StsDocument.account, ← StsDocument.account, Option.mem_def.mp haccount] at hextract
    have hbytes : XmlText.escapeText (utf8Bytes "123456789012") =
      XmlText.escapeText account := hextract
    exact XmlText.plain_of_escapeText (hbytes ▸ by decide)

/-- A user logs in, a client exchanges its identity for a token, and shows the token. -/
def stsEvents : List AWSTokenExchanger.Event :=
  [.login [7], .exchange stsExchange, .verify appToken 1]

theorem stsEvents_unforged : appExchanger.Unforged numberLib stsEvents := by
  intro before token now after hevents input htoken
  obtain ⟨rfl, rfl⟩ : before = [.login [7], .exchange stsExchange] ∧ token = appToken := by
    rcases before with _ | ⟨_, _ | ⟨_, _ | ⟨_, _⟩⟩⟩ <;> simp_all [stsEvents]
  have hrun : appExchanger.run numberLib [.login [7], .exchange stsExchange] =
      ⟨[AWSTokenExchanger.randomID [7], 46 :: numberBytes (appExchanger.claims appIdentity 0)],
        [⟨appExchanger.claims appIdentity 0, appToken, 3600000000000⟩]⟩ := by
    rw [AWSTokenExchanger.run, List.foldl_cons, List.foldl_cons, AWSTokenExchanger.step,
      AWSTokenExchanger.step, tokenHandler_sts]
    rfl
  have hinput : input = 46 :: numberBytes (appExchanger.claims appIdentity 0) :=
    (List.append_cancel_right htoken).symm
  rw [hrun, hinput]
  exact List.mem_cons_of_mem _ List.mem_cons_self

/-- A run in which a token is issued and shown. -/
theorem token_exchange_sts :
    AWSTokenExchanger.SoundRun numberLib stsHost ["arn:aws:iam::123456789012:role/*".toList]
      appExchanger
      (fun events => ∀ x, .exchange x ∈ events → appExchanger.Trustworthy numberLib stsHost x)
      stsEvents := by
  have hexchange : ∀ x, .exchange x ∈ stsEvents → x = stsExchange := by
    intro x hx
    simpa [stsEvents] using hx
  exact AWSTokenExchanger.token_exchange numberLib numberLib_lawful stsHost _ _ _ _ appExchanger
    appExchanger_eq stsEvents (fun x hx => hexchange x hx ▸ soleWeb_isSts _) stsEvents_unforged
    (fun x hx => hexchange x hx ▸ trustworthy_sts)

/-- A host that is not one of AWS. -/
def attackerUrl : Url := ⟨utf8Bytes "attacker.example", utf8Bytes "/identity"⟩

/-- The exchange of a client that names this host. -/
def attackerExchange : Exchange := present "https://attacker.example/identity" attackerUrl.host

/-- **A host of the attacker** says who the client is, and the client gets a token for it. -/
theorem forged_identity_issued :
    numberLib.Lawful ∧ IsSts numberLib stsHost attackerExchange.web ∧
      newAWSTokenExchanger ["arn:aws:iam::123456789012:role/*".toList] 3600000000000
        (utf8Bytes "secret") (utf8Bytes "cxdb.local") = some appExchanger ∧
      appExchanger.Unforged numberLib [.exchange attackerExchange] ∧
      (∃ issue, appExchanger.tokenHandler numberLib attackerExchange = .ok issue) ∧
      ¬AWSTokenExchanger.SoundRun numberLib stsHost
        ["arn:aws:iam::123456789012:role/*".toList] appExchanger (fun _ => True)
        [.exchange attackerExchange] := by
  have hurl : numberLib.newRequest (utf8Bytes "https://attacker.example/identity") =
      some attackerUrl := by
    decide
  have hok : appExchanger.tokenHandler numberLib attackerExchange = .ok _ :=
    tokenHandler_present (by decide) hurl rfl
  refine ⟨numberLib_lawful, soleWeb_isSts _, appExchanger_eq, ?_, ⟨_, hok⟩, fun hsound => ?_⟩
  · intro before token now after hevents
    rcases before with _ | ⟨_, _ | ⟨_, _⟩⟩ <;> simp at hevents
  · rcases AWSTokenExchanger.step_exchange ⟨[], []⟩ attackerExchange with
      ⟨issue, -, hstep⟩ | ⟨hnot, -⟩
    · have hissued : issue ∈
          (appExchanger.run numberLib [.exchange attackerExchange]).issued := by
        rw [AWSTokenExchanger.run, List.foldl_cons, hstep]
        exact List.mem_cons_self
      obtain ⟨x, hx, url, _, _, hnew, hhost, -⟩ := hsound.issued issue hissued
      obtain rfl : x = attackerExchange := by simpa using hx
      obtain rfl := Option.some.inj (hurl.symm.trans hnew)
      exact absurd hhost (by decide)
    · exact absurd hok (hnot _)

end Cxdb.Gateway
