import HexDns.Lib.Logs
import HexDns.Lib.Threads
import HexDns.Models.Db
import Mathlib.Data.List.MinMax
import Mathlib.Logic.Function.Basic

/-! # Accounts at GitHub and Google

The views of `views/github.py` and `views/google.py` through which an account is connected with one at GitHub or
Google, and those that use it. `oauth_login` stores a state for the session and sends the browser away; the browser
comes back to `oauth_callback` with a code and a state, and the code is exchanged for tokens.

As in `Views.Site` a view is a thread, and other requests go on between any two of its accesses. The session is read
at the start of a request; what a view changes is written back as a whole. `connected` says that no interleaving
connects an account with a code that its own session did not ask for, nor uses the tokens of another account. -/

namespace HexDns.Views.Installations

open HexDns.Lib HexDns.Lib.Texts HexDns.Lib.Tables HexDns.Lib.Runs HexDns.Lib.Threads HexDns.Models.Db

/-! ### Rows -/

inductive Service
  | github | google
  deriving DecidableEq, Repr

/-- A row of `GitHubState` or `GoogleState`. -/
structure OauthState where
  id : ℕ
  user : ℕ
  state : Text
  redirectUri : Option Text
  deriving DecidableEq, Repr

structure GithubInstallation where
  id : ℕ
  installationId : ℤ
  user : Option ℕ
  accessToken : Option Text
  accessTokenExpiresAt : Option ℤ
  userAccessToken : Option Text
  userAccessTokenExpiresAt : Option ℤ
  userRefreshToken : Option Text
  userRefreshTokenExpiresAt : Option ℤ
  deriving DecidableEq, Repr

structure GoogleInstallation where
  id : ℕ
  user : Option ℕ
  accessToken : Option Text
  accessTokenExpiresAt : Option ℤ
  refreshToken : Option Text
  refreshTokenExpiresAt : Option ℤ
  scopes : Option Text
  deriving DecidableEq, Repr

/-- What the views keep in a session: `github_state_id` and `google_state_id`. -/
abbrev Session := Service → Option ℕ

/-- The data of a reply with tokens; the numbers are of seconds. -/
structure Tokens where
  accessToken : Option Text
  expiresIn : Option ℤ
  refreshToken : Option Text
  refreshTokenExpiresIn : Option ℤ
  scope : Option Text
  deriving DecidableEq, Repr

structure TokenReply where
  status : ℕ
  /-- nothing if the data cannot be read -/
  tokens : Option Tokens
  deriving DecidableEq, Repr

/-- `now + datetime.timedelta(seconds=…)`, if the number is there and not zero -/
def expiresAt (now : ℤ) (seconds : Option ℤ) : Option ℤ := (seconds.filter (· ≠ 0)).map (now + ·)

def GithubInstallation.withTokens (row : GithubInstallation) (tokens : Tokens) (now : ℤ) : GithubInstallation :=
  { row with
    userAccessToken := tokens.accessToken
    userAccessTokenExpiresAt := expiresAt now tokens.expiresIn
    userRefreshToken := tokens.refreshToken
    userRefreshTokenExpiresAt := expiresAt now tokens.refreshTokenExpiresIn }

def GoogleInstallation.withTokens (row : GoogleInstallation) (tokens : Tokens) (now : ℤ) : GoogleInstallation :=
  { row with
    accessToken := tokens.accessToken
    accessTokenExpiresAt := expiresAt now tokens.expiresIn
    refreshToken := tokens.refreshToken
    refreshTokenExpiresAt := expiresAt now tokens.refreshTokenExpiresIn
    scopes := tokens.scope }

/-! ### Requests and events -/

structure Request where
  path : Text
  get : List (Text × Text)
  deriving DecidableEq, Repr

/-- `request.GET.get(name)` -/
def Request.param (r : Request) (name : String) : Option Text := r.get.reverse.lookup name.toList

inductive Page
  | githubOauthLogin
  | githubOauthCallback
  | googleOauthCallback
  /-- a view that makes so many requests to GitHub with each token that it gets -/
  | github (requests : List ℕ)
  /-- a view under `verify_google_scopes` that makes so many requests to Google -/
  | google (scopes : List Text) (requests : ℕ)
  /-- a view that changes something else in the session -/
  | other
  deriving DecidableEq, Repr

/-- A request of somebody who is logged in. -/
structure Incoming where
  session : ℕ
  page : Page
  request : Request
  deriving DecidableEq, Repr

/-- What happens, with the number of the request and the request. -/
inductive Event
  /-- A state is stored for the session. -/
  | issued (n : ℕ) (i : Incoming) (service : Service) (row : OauthState)
  /-- A code is sent to the service. -/
  | exchanged (n : ℕ) (i : Incoming) (service : Service) (code : Text)
  /-- The service gives tokens for a code. -/
  | granted (n : ℕ) (i : Incoming) (service : Service) (tokens : Tokens)
  /-- Google gives tokens for a refresh token. -/
  | refreshed (n : ℕ) (i : Incoming) (refreshToken : Option Text) (tokens : Tokens)
  /-- GitHub lists installations for a token. -/
  | listed (n : ℕ) (i : Incoming) (token : Option Text) (ids : List ℤ)
  /-- GitHub gives a token for an installation. -/
  | installed (n : ℕ) (i : Incoming) (installationId : ℤ) (token : Option Text)
  | wroteGithub (n : ℕ) (i : Incoming) (row : GithubInstallation)
  | wroteGoogle (n : ℕ) (i : Incoming) (row : GoogleInstallation)
  /-- A request to the service is made with a token. -/
  | usedGithub (n : ℕ) (i : Incoming) (token : Option Text)
  | usedGoogle (n : ℕ) (i : Incoming) (token : Option Text)
  /-- The browser is sent on. -/
  | sentTo (n : ℕ) (i : Incoming) (uri : Text)
  deriving DecidableEq, Repr

/-- The state row that is stored. -/
def Event.row? (service : Service) : Event → Option OauthState
  | .issued _ _ service' row => if service' = service then some row else none
  | _ => none

/-! ### What is shared -/

structure Links where
  states : Service → Table OauthState OauthState.id
  github : Table GithubInstallation GithubInstallation.id
  google : Table GoogleInstallation GoogleInstallation.id
  sessions : ℕ → Session
  log : List Event

def Links.logged (s : Links) (es : List Event) : Links := { s with log := s.log ++ es }

def initial : Links := ⟨fun _ => .empty, .empty, .empty, fun _ _ => none, []⟩

/-- `….objects.filter(…).first()`: the row with the smallest key -/
def first {R : Type} {key : R → ℕ} (t : Table R key) (p : R → Bool) : Option R := (t.rows.filter p).argmin key

inductive Call
  /-- the session as it is at the start of the request -/
  | session
  /-- The session is written back. -/
  | saveSession (d : Session)
  /-- `state.save()` of a new state -/
  | insertState (service : Service) (redirectUri : Option Text)
  /-- `….objects.filter(id=…).first()` -/
  | getState (service : Service) (id : ℕ)
  | deleteState (service : Service) (id : ℕ)
  /-- The code is sent to the service. -/
  | exchange (service : Service) (code : Text)
  /-- The refresh token is sent to Google. -/
  | refresh (refreshToken : Option Text)
  /-- the installation of the account, with this id if there is one -/
  | githubInstallation (installationId : Option ℤ)
  | googleInstallation
  /-- `installation.save()` of a new row -/
  | createGithub (row : GithubInstallation)
  | createGoogle (row : GoogleInstallation)
  /-- `installation.save()` of a row that was read -/
  | saveGithub (row : GithubInstallation)
  | saveGoogle (row : GoogleInstallation)
  /-- a page of the list of installations -/
  | installations (token : Option Text) (page : ℕ)
  /-- the token of an installation -/
  | installationToken (installationId : ℤ)
  | githubRequest (token : Option Text)
  | googleRequest (token : Option Text)
  | now
  /-- the number of pages after which a request is given up at the latest -/
  | patience
  /-- `redirect` to an address from outside -/
  | redirect (uri : Text)

def Call.Reply : Call → Type
  | .session => Session
  | .insertState .. => OauthState
  | .getState .. => Option OauthState
  | .exchange .. => TokenReply
  | .refresh .. => TokenReply
  | .githubInstallation .. => Option GithubInstallation
  | .googleInstallation => Option GoogleInstallation
  | .installations .. => List ℤ
  | .installationToken .. => Option Text × Option ℤ
  | .now => ℤ
  | .patience => ℕ
  | _ => Unit

/-- What a call leaves open. -/
structure Chance where
  newId : ℕ
  uuid : Text
  reply : TokenReply
  /-- nothing if the answer is an error -/
  page : Option (List ℤ)
  installationToken : Option (Option Text × Option ℤ)
  now : ℤ
  patience : ℕ
  deriving DecidableEq, Repr

section
variable (account : ℕ → ℕ)

/-- The tokens of a reply that is not an error. -/
def TokenReply.given (reply : TokenReply) : List Tokens := if reply.status = 200 then reply.tokens.toList else []

/-- Another row has the account: the column is unique. -/
def taken (t : Table GoogleInstallation GoogleInstallation.id) (row : GoogleInstallation) : Bool :=
  t.rows.any fun r => r.id ≠ row.id && r.user = row.user && row.user.isSome

/-- A call of a request: its reply, nothing if it raises, and what is shared after it. -/
def handle (n : ℕ) (i : Incoming) (s : Links) : (c : Call) → Chance → Option (Option c.Reply × Links)
  | .session, _ => some (some (s.sessions i.session), s)
  | .saveSession d, _ => some (some (), { s with sessions := Function.update s.sessions i.session d })
  | .insertState service redirectUri, x =>
    -- a sequence gives no number twice
    if s.log.all fun e => (e.row? service).all (·.id ≠ x.newId) then
      let row : OauthState := ⟨x.newId, account i.session, x.uuid, redirectUri⟩
      some (some row, { s with states := Function.update s.states service ((s.states service).save row) }.logged
        [.issued n i service row])
    else none
  | .getState service id, _ => some (some (getRow (s.states service) id), s)
  | .deleteState service id, _ =>
    some (some (), { s with states := Function.update s.states service ((s.states service).erase id) })
  | .exchange service code, x =>
    some (some x.reply, (s.logged [.exchanged n i service code]).logged (x.reply.given.map (.granted n i service)))
  | .refresh token, x => some (some x.reply, s.logged (x.reply.given.map (.refreshed n i token)))
  | .githubInstallation id, _ =>
    some (some (first s.github fun r => r.user = some (account i.session) && id.all (· = r.installationId)), s)
  | .googleInstallation, _ => some (some (first s.google fun r => r.user = some (account i.session)), s)
  | .createGithub row, x =>
    if getRow s.github x.newId = none then
      let row := { row with id := x.newId }
      some (some (), { s with github := s.github.save row }.logged [.wroteGithub n i row])
    else none
  | .createGoogle row, x =>
    if getRow s.google x.newId = none then
      let row := { row with id := x.newId }
      if taken s.google row then some (none, s)
      else some (some (), { s with google := s.google.save row }.logged [.wroteGoogle n i row])
    else none
  | .saveGithub row, _ =>
    some (some (), { s with github := s.github.save row }.logged [.wroteGithub n i row])
  | .saveGoogle row, _ =>
    if taken s.google row then some (none, s)
    else some (some (), { s with google := s.google.save row }.logged [.wroteGoogle n i row])
  | .installations token _, x => some (x.page, s.logged (x.page.toList.map (.listed n i token)))
  | .installationToken id, x =>
    some (x.installationToken, s.logged (x.installationToken.toList.map fun t => .installed n i id t.1))
  | .githubRequest token, _ => some (some (), s.logged [.usedGithub n i token])
  | .googleRequest token, _ => some (some (), s.logged [.usedGoogle n i token])
  | .now, x => some (some x.now, s)
  | .patience, x => some (some x.patience, s)
  | .redirect uri, _ => some (some (), s.logged [.sentTo n i uri])

/-- What other parts of the service do. -/
inductive Other
  | deleteState (service : Service) (id : ℕ)
  /-- as `webhook` does -/
  | deleteGithub (installationId : ℤ)
  | deleteGoogle (id : ℕ)
  /-- The account is deleted: `SET_NULL`, and `CASCADE` for the states. -/
  | deleteAccount (user : ℕ)
  /-- The session ends. -/
  | flush (session : ℕ)

def others (s : Links) : Other → Option Links
  | .deleteState service id =>
    some { s with states := Function.update s.states service ((s.states service).erase id) }
  | .deleteGithub id => some { s with github := s.github.erasing fun r => r.installationId = id }
  | .deleteGoogle id => some { s with google := s.google.erase id }
  | .deleteAccount user => some { s with
      states := fun service => (s.states service).erasing fun r => r.user = user
      github := s.github.modify (fun r => { r with user := r.user.filter (· ≠ user) }) fun _ => rfl
      google := s.google.modify (fun r => { r with user := r.user.filter (· ≠ user) }) fun _ => rfl }
  | .flush session => some { s with sessions := Function.update s.sessions session fun _ => none }

/-- The views on what they share; each session is of one account. -/
def system : System Links Incoming Call Call.Reply Chance Other := ⟨handle account, others⟩

end

/-! ### The views -/

/-- A part of a view. -/
abbrev View (α : Type) := Thread Call Call.Reply α

def loadSession : View Session := perform Call.session
def saveSession (d : Session) : View Unit := perform (Call.saveSession d)
def insertState (service : Service) (redirectUri : Option Text) : View OauthState :=
  perform (Call.insertState service redirectUri)
def getState (service : Service) (id : ℕ) : View (Option OauthState) := perform (Call.getState service id)
def deleteState (service : Service) (id : ℕ) : View Unit := perform (Call.deleteState service id)
def exchange (service : Service) (code : Text) : View TokenReply := perform (Call.exchange service code)
def refresh (refreshToken : Option Text) : View TokenReply := perform (Call.refresh refreshToken)
def githubInstallation (installationId : Option ℤ) : View (Option GithubInstallation) :=
  perform (Call.githubInstallation installationId)
def googleInstallation : View (Option GoogleInstallation) := perform Call.googleInstallation
def createGithub (row : GithubInstallation) : View Unit := perform (Call.createGithub row)
def createGoogle (row : GoogleInstallation) : View Unit := perform (Call.createGoogle row)
def saveGithub (row : GithubInstallation) : View Unit := perform (Call.saveGithub row)
def saveGoogle (row : GoogleInstallation) : View Unit := perform (Call.saveGoogle row)
def installations (token : Option Text) (page : ℕ) : View (List ℤ) := perform (Call.installations token page)
def installationToken (installationId : ℤ) : View (Option Text × Option ℤ) :=
  perform (Call.installationToken installationId)
def githubRequest (token : Option Text) : View Unit := perform (Call.githubRequest token)
def googleRequest (token : Option Text) : View Unit := perform (Call.googleRequest token)
def now : View ℤ := perform Call.now
def patience : View ℕ := perform Call.patience
def redirect (uri : Text) : View Unit := perform (Call.redirect uri)

/-- The text is there and not empty. -/
def truthy (t : Option Text) : Bool := t.any (· ≠ [])

section
variable (externalUrlBase : Text) (parseInt : Text → Option ℤ)

/-- A state is stored and put into the session, and the browser is sent to the service. -/
def oauthLogin (service : Service) (d : Session) (redirectUri : Option Text) : View Unit := do
  let state ← insertState service (redirectUri.map (externalUrlBase ++ ·))
  saveSession (Function.update d service (some state.id))

/-- `oauth_login` of `views/github.py` -/
def githubOauthLogin (r : Request) : View Unit := do
  let d ← loadSession
  oauthLogin externalUrlBase .github d (r.param "redirect")

/-- `oauth_login` of `views/google.py`, in a request that has read the session -/
def googleOauthLogin (d : Session) (redirectUri : Option Text) : View Unit :=
  oauthLogin externalUrlBase .google d (redirectUri.filter (· ≠ []))

/-- The state of the session, if it is still there. -/
def sessionState (service : Service) (d : Session) : View (Option OauthState) :=
  match d service with
  | none => pure none
  | some id => getState service id

/-- `redirect(state.redirect_uri)`, or `redirect("zones")` -/
def sendOn (state : OauthState) : View Unit :=
  match state.redirectUri with
  | none => pure ()
  | some uri => if uri = [] then pure () else redirect uri

/-- `_github_get_all`, of the ids of the installations -/
def githubGetAll (token : Option Text) : ℕ → ℕ → View (List ℤ)
  | 0, _ => .raise
  | patience + 1, page => do
    let items ← installations token page
    if items.length = 100 then do
      let rest ← githubGetAll token patience (page + 1)
      pure (items ++ rest)
    else pure items

/-- `GitHubInstallation(user=request.user.account, installation_id=installation_id)` -/
def newGithub (user : ℕ) (installationId : ℤ) : GithubInstallation :=
  ⟨0, installationId, some user, none, none, none, none, none, none⟩

/-- The end of `oauth_callback` of `views/github.py`, from where the state is checked. -/
def githubExchange (user : ℕ) (r : Request) (code : Text) (installationId : ℤ) (state : OauthState)
    (installation : Option GithubInstallation) : View Unit :=
  match r.param "state" with
  | none => .raise
  | some text =>
    if text ≠ state.state then pure ()
    else do
      let reply ← exchange .github code
      if reply.status ≠ 200 then pure ()
      else do
        deleteState .github state.id
        match reply.tokens with
        | none => .raise
        | some tokens => do
          let now ← now
          match installation with
          | some row => do
            saveGithub (row.withTokens tokens now)
            sendOn state
          | none => do
            let patience ← patience
            let ids ← githubGetAll tokens.accessToken patience 1
            if installationId ∈ ids then do
              createGithub ((newGithub user installationId).withTokens tokens now)
              sendOn state
            else pure ()

/-- `oauth_callback` of `views/github.py` -/
def githubOauthCallback (user : ℕ) (r : Request) : View Unit := do
  let d ← loadSession
  match r.param "code", r.param "installation_id", r.param "setup_action" with
  | some code, some idText, some setupAction =>
    match parseInt idText with
    | none => pure ()
    | some installationId =>
      if setupAction = "update".toList then
        if (r.param "state").isSome then do
          let state ← sessionState .github d
          match state with
          | none => pure ()
          | some state => do
            let installation ← githubInstallation (some installationId)
            match installation with
            | none => pure ()
            | some row => githubExchange user r code installationId state (some row)
        else do
          let installation ← githubInstallation (some installationId)
          -- the `state` of `None` is asked for
          if installation.isSome then .raise else pure ()
      else do
        let state ← sessionState .github d
        match state with
        | none => pure ()
        | some state => githubExchange user r code installationId state none
  | _, _, _ => pure ()

/-- `oauth_callback` of `views/google.py` -/
def googleOauthCallback (user : ℕ) (r : Request) : View Unit := do
  let d ← loadSession
  match r.param "code", r.param "state" with
  | some code, some text =>
    match d .google with
    | none => googleOauthLogin externalUrlBase d (some r.path)
    | some id => do
      let state ← getState .google id
      match state with
      | none => googleOauthLogin externalUrlBase d none
      | some state =>
        if text ≠ state.state then pure ()
        else do
          let reply ← exchange .google code
          if reply.status ≠ 200 then pure ()
          else do
            deleteState .google state.id
            match reply.tokens with
            | none => .raise
            | some tokens => do
              let now ← now
              let installation ← googleInstallation
              match installation with
              | some row => saveGoogle (row.withTokens tokens now)
              | none => createGoogle (GoogleInstallation.withTokens
                  ⟨0, some user, none, none, none, none, none⟩ tokens now)
              sendOn state
  | _, _ => pure ()

/-- `get_installation_token`: the token, and the installation with it -/
def getInstallationToken (row : GithubInstallation) : View (Option Text × GithubInstallation) := do
  let now ← now
  if truthy row.accessToken && row.accessTokenExpiresAt.all (now < ·) then pure (row.accessToken, row)
  else do
    let reply ← installationToken row.installationId
    let row := { row with accessToken := reply.1, accessTokenExpiresAt := reply.2 }
    saveGithub row
    pure (reply.1, row)

/-- Requests with a token. -/
def repeated (request : View Unit) : ℕ → View Unit
  | 0 => pure ()
  | requests + 1 => do
    request
    repeated request requests

/-- Requests to GitHub with `get_installation_token(installation)`: so many with each token. -/
def githubRequests : List ℕ → GithubInstallation → View Unit
  | [], _ => pure ()
  | k :: requests, row => do
    let token ← getInstallationToken row
    repeated (githubRequest token.1) k
    githubRequests requests token.2

/-- What a view of `views/github.py` does with the installation of the account. -/
def githubView (requests : List ℕ) : View Unit := do
  let installation ← githubInstallation none
  match installation with
  | none => pure ()
  | some row => githubRequests requests row

/-- `in_scopes` -/
def GoogleInstallation.inScopes (row : GoogleInstallation) : List Text :=
  if truthy row.scopes then (row.scopes.getD []).splitOn ' ' else []

/-- `verify_google_scopes(scopes)(inner)` -/
def verifyGoogleScopes (scopes : List Text) (r : Request) (inner : Option Text → View Unit) : View Unit := do
  let d ← loadSession
  let installation ← googleInstallation
  match installation with
  | none => googleOauthLogin externalUrlBase d (some r.path)
  | some row =>
    if ¬ ∀ scope ∈ scopes, scope ∈ row.inScopes then googleOauthLogin externalUrlBase d (some r.path)
    else do
      let now ← now
      if truthy row.accessToken && row.accessTokenExpiresAt.all (now < ·) then inner row.accessToken
      -- a refresh token is not used before it has expired
      else if row.refreshTokenExpiresAt.any (now < ·) then googleOauthLogin externalUrlBase d (some r.path)
      else do
        let reply ← refresh row.refreshToken
        if reply.status ≠ 200 then googleOauthLogin externalUrlBase d (some r.path)
        else
          match reply.tokens with
          | none => .raise
          | some tokens => do
            saveGoogle { row with
              accessToken := tokens.accessToken
              accessTokenExpiresAt := expiresAt now tokens.expiresIn }
            inner tokens.accessToken

/-- A request with the account of its session. -/
def view (user : ℕ) (r : Request) : Page → View Unit
  | .githubOauthLogin => githubOauthLogin externalUrlBase r
  | .githubOauthCallback => githubOauthCallback parseInt user r
  | .googleOauthCallback => googleOauthCallback externalUrlBase user r
  | .github requests => githubView requests
  | .google scopes requests => verifyGoogleScopes externalUrlBase scopes r fun token =>
    repeated (googleRequest token) requests
  | .other => do
    let d ← loadSession
    saveSession d

def program (account : ℕ → ℕ) (i : Incoming) : Incoming × View Unit :=
  (i, view externalUrlBase parseInt (account i.session) i.request i.page)

end

/-! ### What the log has to say -/

/-- The state was stored for the session. -/
def Issued (service : Service) (session : ℕ) (row : OauthState) (log : List Event) : Prop :=
  ∃ n i, .issued n i service row ∈ log ∧ i.session = session

section
variable (account : ℕ → ℕ)

/-- The token was given to a request of the account, for a code or for a refresh token. -/
def GivenTo (service : Service) (user : ℕ) (token : Text) (log : List Event) : Prop :=
  ∃ n i tokens, account i.session = user ∧ (tokens.accessToken = some token ∨ tokens.refreshToken = some token) ∧
    (.granted n i service tokens ∈ log ∨ service = .google ∧ ∃ old, .refreshed n i old tokens ∈ log)

/-- GitHub listed the installation to a request of the account. -/
def ListedTo (user : ℕ) (installationId : ℤ) (log : List Event) : Prop :=
  ∃ n i token ids, account i.session = user ∧ .listed n i token ids ∈ log ∧ installationId ∈ ids

/-- GitHub gave the token for the installation. -/
def TokenOf (installationId : ℤ) (token : Text) (log : List Event) : Prop :=
  ∃ n i, .installed n i installationId (some token) ∈ log

/-- The installation and its tokens are those of the account. -/
structure GithubOf (user : ℕ) (row : GithubInstallation) (log : List Event) : Prop where
  listed : ListedTo account user row.installationId log
  token : ∀ t, row.accessToken = some t → TokenOf row.installationId t log
  userToken : ∀ t, row.userAccessToken = some t ∨ row.userRefreshToken = some t → GivenTo account .github user t log

/-- The tokens are those of the account. -/
def GoogleOf (user : ℕ) (row : GoogleInstallation) (log : List Event) : Prop :=
  ∀ t, row.accessToken = some t ∨ row.refreshToken = some t → GivenTo account .google user t log

/-- What has to be in the log before an event. A code is sent to a service only for a request with the state that
was stored for its session. A row is written for the account of the request, with tokens that were given to this
account; only its own tokens, and those of installations that were listed to it, are used. The browser is sent on
only to where it asked for when the state was stored. -/
def Event.Allowed (log : List Event) : Event → Prop
  | .issued .. => True
  | .exchanged _ i service code => i.request.param "code" = some code ∧
      ∃ row, Issued service i.session row log ∧ i.request.param "state" = some row.state
  | .granted n i service _ => ∃ code, .exchanged n i service code ∈ log
  | .refreshed _ i refreshToken _ => ∀ t, refreshToken = some t → GivenTo account .google (account i.session) t log
  | .listed n i token _ => ∃ tokens, .granted n i .github tokens ∈ log ∧ tokens.accessToken = token
  | .installed _ i installationId _ => ListedTo account (account i.session) installationId log
  | .wroteGithub _ i row => row.user = some (account i.session) ∧ GithubOf account (account i.session) row log
  | .wroteGoogle _ i row => row.user = some (account i.session) ∧ GoogleOf account (account i.session) row log
  | .usedGithub _ i token => ∃ id, ListedTo account (account i.session) id log ∧
      ∀ t, token = some t → TokenOf id t log
  | .usedGoogle _ i token => ∀ t, token = some t → GivenTo account .google (account i.session) t log
  | .sentTo _ i uri => ∃ service row, Issued service i.session row log ∧ row.redirectUri = some uri

/-- What is stored is what was issued and given. -/
structure Inv (s : Links) : Prop where
  lawful : Logs.Lawful (Event.Allowed account) s.log
  unique : ∀ {service n n' i i' row row'}, .issued n i service row ∈ s.log → .issued n' i' service row' ∈ s.log →
    row.id = row'.id → n = n' ∧ i = i' ∧ row = row'
  states : ∀ service, ∀ row ∈ s.states service, ∃ n i, .issued n i service row ∈ s.log
  sessions : ∀ session service id, s.sessions session service = some id →
    ∃ row, Issued service session row s.log ∧ row.id = id
  github : ∀ row ∈ s.github, ∀ user, row.user = some user → GithubOf account user row s.log
  google : ∀ row ∈ s.google, ∀ user, row.user = some user → GoogleOf account user row s.log

end

/-- The log gets longer. -/
instance : Preorder Links where
  le s t := s.log <+: t.log
  le_refl s := List.prefix_refl _
  le_trans _ _ _ hst htu := hst.trans htu

/-! ### Longer logs -/

section
variable {account : ℕ → ℕ} {service : Service} {session user n : ℕ} {state : OauthState} {token : Text} {id : ℤ}
  {log log' : List Event} {e : Event} {es : List Event} {s t : Links} {i : Incoming}

theorem le_logged : s ≤ s.logged es := List.prefix_append _ _

theorem mem_of_le (h : s ≤ t) (he : e ∈ s.log) : e ∈ t.log := List.IsPrefix.subset h he

theorem Issued.mono (h : Issued service session state log) (hle : log <+: log') :
    Issued service session state log' := by
  obtain ⟨n, i, hmem, hsession⟩ := h
  exact ⟨n, i, hle.subset hmem, hsession⟩

theorem GivenTo.mono (h : GivenTo account service user token log) (hle : log <+: log') :
    GivenTo account service user token log' := by
  obtain ⟨n, i, tokens, huser, htoken, hmem⟩ := h
  refine ⟨n, i, tokens, huser, htoken, hmem.imp (fun hmem => hle.subset hmem) ?_⟩
  rintro ⟨hservice, old, hmem⟩
  exact ⟨hservice, old, hle.subset hmem⟩

theorem ListedTo.mono (h : ListedTo account user id log) (hle : log <+: log') : ListedTo account user id log' := by
  obtain ⟨n, i, token, ids, huser, hmem, hid⟩ := h
  exact ⟨n, i, token, ids, huser, hle.subset hmem, hid⟩

theorem TokenOf.mono (h : TokenOf id token log) (hle : log <+: log') : TokenOf id token log' := by
  obtain ⟨n, i, hmem⟩ := h
  exact ⟨n, i, hle.subset hmem⟩

theorem GithubOf.mono {row : GithubInstallation} (h : GithubOf account user row log) (hle : log <+: log') :
    GithubOf account user row log' where
  listed := h.listed.mono hle
  token t ht := (h.token t ht).mono hle
  userToken t ht := (h.userToken t ht).mono hle

theorem GoogleOf.mono {row : GoogleInstallation} (h : GoogleOf account user row log) (hle : log <+: log') :
    GoogleOf account user row log' := fun t ht => (h t ht).mono hle

theorem GithubOf.withTokens {row : GithubInstallation} {tokens : Tokens} {now : ℤ}
    (h : GithubOf account user row log)
    (hgiven : ∀ t, tokens.accessToken = some t ∨ tokens.refreshToken = some t → GivenTo account .github user t log) :
    GithubOf account user (row.withTokens tokens now) log := ⟨h.listed, h.token, hgiven⟩

theorem lasting_allowed : Logs.Lasting (Event.Allowed account) := by
  intro log log' e hle h
  cases e with
  | issued => trivial
  | exchanged n i service code =>
    obtain ⟨hcode, row, hissued, hstate⟩ := h
    exact ⟨hcode, row, hissued.mono hle, hstate⟩
  | granted n i service tokens =>
    obtain ⟨code, hmem⟩ := h
    exact ⟨code, hle.subset hmem⟩
  | refreshed n i refreshToken tokens => exact fun t ht => (h t ht).mono hle
  | listed n i token ids =>
    obtain ⟨tokens, hmem, htoken⟩ := h
    exact ⟨tokens, hle.subset hmem, htoken⟩
  | installed n i installationId token => exact ListedTo.mono h hle
  | wroteGithub n i row => exact ⟨h.1, h.2.mono hle⟩
  | wroteGoogle n i row => exact ⟨h.1, h.2.mono hle⟩
  | usedGithub n i token =>
    obtain ⟨id, hlisted, htoken⟩ := h
    exact ⟨id, hlisted.mono hle, fun t ht => (htoken t ht).mono hle⟩
  | usedGoogle n i token => exact fun t ht => (h t ht).mono hle
  | sentTo n i uri =>
    obtain ⟨service, row, hissued, huri⟩ := h
    exact ⟨service, row, hissued.mono hle, huri⟩

/-- Events that store no state. -/
theorem Inv.logged (h : Inv account s) (hrow : ∀ e ∈ es, ∀ service, e.row? service = none)
    (hes : ∀ e ∈ es, e.Allowed account s.log) : Inv account (s.logged es) := by
  have hle : s.log <+: (s.logged es).log := List.prefix_append _ _
  have hold : ∀ {service n i row}, .issued n i service row ∈ (s.logged es).log → .issued n i service row ∈ s.log := by
    intro service n i row hmem
    rcases List.mem_append.mp hmem with hmem | hmem
    · exact hmem
    · simpa [Event.row?] using hrow _ hmem service
  refine ⟨h.lawful.append lasting_allowed hes, fun hmem hmem' => h.unique (hold hmem) (hold hmem'), ?_, ?_, ?_, ?_⟩
  · intro service row hr
    obtain ⟨n, i, hmem⟩ := h.states service row hr
    exact ⟨n, i, hle.subset hmem⟩
  · intro session service id hid
    obtain ⟨row, hissued, hrow⟩ := h.sessions session service id hid
    exact ⟨row, hissued.mono hle, hrow⟩
  · exact fun row hr user huser => (h.github row hr user huser).mono hle
  · exact fun row hr user huser => (h.google row hr user huser).mono hle

/-- A state that is found is the one that was stored for the session. -/
theorem Inv.issued_of_getRow (h : Inv account s) {id : ℕ} {row : OauthState}
    (hsession : ∃ row, Issued service session row s.log ∧ row.id = id)
    (hrow : getRow (s.states service) id = some row) : Issued service session row s.log := by
  obtain ⟨hmem, hid⟩ := getRow_eq_some.mp hrow
  obtain ⟨n, i, hissued⟩ := h.states service row hmem
  obtain ⟨row', ⟨n', i', hissued', hsession⟩, hid'⟩ := hsession
  obtain ⟨-, rfl, rfl⟩ := h.unique hissued hissued' (hid.trans hid'.symm)
  exact ⟨n, i, hissued, hsession⟩

end

/-! ### What the calls do -/

section
variable {account : ℕ → ℕ} {n : ℕ} {i : Incoming} {α : Type} {s : Links}

/-- The part of a view keeps what is known of what is stored, and what it returns meets the postcondition. -/
abbrev Keeps (account : ℕ → ℕ) (n : ℕ) (i : Incoming) (view : View α) (post : α → Links → Prop) (s : Links) : Prop :=
  Safe (system account) (Inv account) n i view post s

/-- The ids in a copy of the session are those of states that were stored for it. -/
def Copied (session : ℕ) (d : Session) (log : List Event) : Prop :=
  ∀ service id, d service = some id → ∃ row, Issued service session row log ∧ row.id = id

theorem Copied.mono {session : ℕ} {d : Session} {log log' : List Event} (h : Copied session d log)
    (hle : log <+: log') : Copied session d log' := by
  intro service id hid
  obtain ⟨row, hissued, hrow⟩ := h service id hid
  exact ⟨row, hissued.mono hle, hrow⟩

theorem keeps_loadSession : Keeps account n i loadSession (fun d u => Copied i.session d u.log) s :=
  safe_read fun t _ hI _ => ⟨_, rfl, fun d hd u hu => by
    obtain rfl := Option.some.inj hd
    exact Copied.mono (fun service id hid => hI.sessions i.session service id hid) hu⟩

theorem keeps_saveSession {d : Session} (hd : Copied i.session d s.log) :
    Keeps account n i (saveSession d) (fun _ _ => True) s := by
  refine safe_outcome fun t ht hI x => ⟨_, _, rfl, ?_, List.prefix_refl _, fun _ _ _ _ => trivial⟩
  refine ⟨hI.lawful, hI.unique, hI.states, fun session service id hid => ?_, hI.github, hI.google⟩
  rcases eq_or_ne session i.session with rfl | hne
  · have hid' : d service = some id := by simpa using hid
    exact (hd.mono ht) service id hid'
  · have hid' : t.sessions session service = some id := by simpa [hne] using hid
    exact hI.sessions session service id hid'

/-- A state that is stored has a new number. -/
theorem keeps_insertState {service : Service} {redirectUri : Option Text} :
    Keeps account n i (insertState service redirectUri) (fun row u => Issued service i.session row u.log) s := by
  refine safe_perform fun t ht hI x r t' hx => ?_
  simp only [system, handle, Option.ite_none_right_eq_some, Option.some.injEq, Prod.mk.injEq] at hx
  obtain ⟨hfresh, rfl, rfl⟩ := hx
  have hnew : ∀ {m j row}, .issued m j service row ∈ t.log → row.id ≠ x.newId := by
    intro m j row hmem
    simpa [Event.row?] using List.all_eq_true.mp hfresh _ hmem
  refine ⟨?_, List.prefix_append _ _, fun row hrow u hu _ => ?_⟩
  · refine ⟨hI.lawful.concat trivial, ?_, ?_, ?_, ?_, ?_⟩
    · intro service' m m' j j' row row' hmem hmem' hid
      rcases List.mem_append.mp hmem with hold | hlast <;> rcases List.mem_append.mp hmem' with hold' | hlast'
      · exact hI.unique hold hold' hid
      · obtain ⟨rfl, rfl, rfl, rfl⟩ := by simpa using hlast'
        exact absurd hid (hnew hold)
      · obtain ⟨rfl, rfl, rfl, rfl⟩ := by simpa using hlast
        exact absurd hid.symm (hnew hold')
      · obtain ⟨rfl, rfl, rfl, rfl⟩ := by simpa using hlast
        obtain ⟨rfl, rfl, rfl⟩ := by simpa using hlast'
        exact ⟨rfl, rfl, rfl⟩
    · intro service' row hrow
      rcases eq_or_ne service' service with rfl | hne
      · rcases mem_save.mp (by simpa [Links.logged] using hrow) with rfl | ⟨hrow, -⟩
        · exact ⟨n, i, List.mem_append_right _ (List.mem_singleton_self _)⟩
        · obtain ⟨m, j, hmem⟩ := hI.states service' row hrow
          exact ⟨m, j, List.mem_append_left _ hmem⟩
      · obtain ⟨m, j, hmem⟩ := hI.states service' row (by simpa [Links.logged, hne] using hrow)
        exact ⟨m, j, List.mem_append_left _ hmem⟩
    · intro session service' id hid
      obtain ⟨row, hissued, hrow⟩ := hI.sessions session service' id hid
      exact ⟨row, hissued.mono (List.prefix_append _ _), hrow⟩
    · exact fun row hr user huser => (hI.github row hr user huser).mono (List.prefix_append _ _)
    · exact fun row hr user huser => (hI.google row hr user huser).mono (List.prefix_append _ _)
  · obtain rfl := Option.some.inj hrow
    exact ⟨n, i, mem_of_le hu (List.mem_append_right _ (List.mem_singleton_self _)), rfl⟩

/-- A state that is found by the number in the session is one that was stored for it. -/
theorem keeps_getState {service : Service} {id : ℕ} (hid : ∃ row, Issued service i.session row s.log ∧ row.id = id) :
    Keeps account n i (getState service id)
      (fun state u => ∀ row, state = some row → Issued service i.session row u.log) s := by
  refine safe_read fun t ht hI _ => ⟨_, rfl, fun state hstate u hu row hrow => ?_⟩
  obtain rfl := Option.some.inj hstate
  obtain ⟨row', hissued, hid⟩ := hid
  exact (hI.issued_of_getRow ⟨row', hissued.mono ht, hid⟩ hrow).mono hu

/-- Fewer rows. -/
theorem Inv.fewer {s t : Links} (h : Inv account s) (hlog : t.log = s.log)
    (hstates : ∀ service, ∀ row ∈ t.states service, row ∈ s.states service)
    (hsessions : ∀ session service id, t.sessions session service = some id → s.sessions session service = some id)
    (hgithub : ∀ row ∈ t.github, ∀ user, row.user = some user → ∃ old ∈ s.github, old.user = some user ∧
      old = { row with user := old.user })
    (hgoogle : ∀ row ∈ t.google, ∀ user, row.user = some user → ∃ old ∈ s.google, old.user = some user ∧
      old = { row with user := old.user }) : Inv account t := by
  refine ⟨hlog ▸ h.lawful, fun hmem hmem' => h.unique (hlog ▸ hmem) (hlog ▸ hmem'), ?_, ?_, ?_, ?_⟩
  · intro service row hrow
    obtain ⟨n, i, hmem⟩ := h.states service row (hstates service row hrow)
    exact ⟨n, i, hlog ▸ hmem⟩
  · intro session service id hid
    rw [hlog]
    exact h.sessions session service id (hsessions session service id hid)
  · intro row hrow user huser
    obtain ⟨old, hold, hold', hsame⟩ := hgithub row hrow user huser
    have hof := h.github old hold user hold'
    rw [hsame] at hof
    rw [hlog]
    exact ⟨hof.listed, hof.token, hof.userToken⟩
  · intro row hrow user huser
    obtain ⟨old, hold, hold', hsame⟩ := hgoogle row hrow user huser
    have hof := h.google old hold user hold'
    rw [hsame] at hof
    rw [hlog]
    exact hof

theorem Inv.deleteState {s : Links} (h : Inv account s) (service : Service) (id : ℕ) :
    Inv account { s with states := Function.update s.states service ((s.states service).erase id) } := by
  refine h.fewer rfl (fun service' row hrow => ?_) (fun _ _ _ hid => hid) (fun row hrow user huser =>
    ⟨row, hrow, huser, rfl⟩) fun row hrow user huser => ⟨row, hrow, huser, rfl⟩
  rcases eq_or_ne service' service with rfl | hne
  · exact (mem_erase.mp (by simpa using hrow)).1
  · simpa [hne] using hrow

theorem keeps_deleteState {service : Service} {id : ℕ} :
    Keeps account n i (deleteState service id) (fun _ _ => True) s :=
  safe_outcome fun _ _ hI _ => ⟨_, _, rfl, hI.deleteState service id, List.prefix_refl _, fun _ _ _ _ => trivial⟩

/-- A code is sent with the state of the session, and the tokens are given to this request. -/
theorem keeps_exchange {service : Service} {code : Text} {state : OauthState}
    (hcode : i.request.param "code" = some code) (hstate : i.request.param "state" = some state.state)
    (hissued : Issued service i.session state s.log) : Keeps account n i (exchange service code)
      (fun reply u => reply.status = 200 → ∀ tokens, reply.tokens = some tokens →
        .granted n i service tokens ∈ u.log) s := by
  refine safe_outcome fun t ht hI x => ⟨_, _, rfl, ?_, le_logged.trans le_logged, ?_⟩
  · have hsent : Inv account (t.logged [.exchanged n i service code]) := by
      refine hI.logged (by simp [Event.row?]) fun e he => ?_
      obtain rfl := List.mem_singleton.mp he
      exact ⟨hcode, state, hissued.mono ht, hstate⟩
    refine hsent.logged (by simp [Event.row?]) fun e he => ?_
    obtain ⟨tokens, -, rfl⟩ := List.mem_map.mp he
    exact ⟨code, List.mem_append_right _ (List.mem_singleton_self _)⟩
  · intro reply hreply u hu hstatus tokens htokens
    obtain rfl := Option.some.inj hreply
    refine mem_of_le hu (List.mem_append_right _ (List.mem_map.mpr ⟨tokens, ?_, rfl⟩))
    simp [TokenReply.given, hstatus, htokens]

theorem keeps_refresh {refreshToken : Option Text}
    (htoken : ∀ t, refreshToken = some t → GivenTo account .google (account i.session) t s.log) :
    Keeps account n i (refresh refreshToken)
      (fun reply u => reply.status = 200 → ∀ tokens, reply.tokens = some tokens →
        .refreshed n i refreshToken tokens ∈ u.log) s := by
  refine safe_outcome fun t ht hI x => ⟨_, _, rfl, ?_, le_logged, ?_⟩
  · refine hI.logged (by simp [Event.row?]) fun e he => ?_
    obtain ⟨tokens, -, rfl⟩ := List.mem_map.mp he
    exact fun t' ht' => (htoken t' ht').mono ht
  · intro reply hreply u hu hstatus tokens htokens
    obtain rfl := Option.some.inj hreply
    refine mem_of_le hu (List.mem_append_right _ (List.mem_map.mpr ⟨tokens, ?_, rfl⟩))
    simp [TokenReply.given, hstatus, htokens]

theorem mem_first {R : Type} {key : R → ℕ} {t : Table R key} {p : R → Bool} {row : R} (h : first t p = some row) :
    row ∈ t ∧ p row = true := List.mem_filter.mp (List.argmin_mem h)

theorem keeps_githubInstallation {id : Option ℤ} : Keeps account n i (githubInstallation id)
    (fun row u => ∀ r, row = some r → r.user = some (account i.session) ∧
      GithubOf account (account i.session) r u.log) s := by
  refine safe_read fun t _ hI _ => ⟨_, rfl, fun row hrow u hu r hr => ?_⟩
  obtain rfl := Option.some.inj hrow
  obtain ⟨hmem, hp⟩ := mem_first hr
  have huser : r.user = some (account i.session) := of_decide_eq_true (Bool.and_eq_true_iff.mp hp).1
  exact ⟨huser, (hI.github r hmem _ huser).mono hu⟩

theorem keeps_googleInstallation : Keeps account n i googleInstallation
    (fun row u => ∀ r, row = some r → r.user = some (account i.session) ∧
      GoogleOf account (account i.session) r u.log) s := by
  refine safe_read fun t _ hI _ => ⟨_, rfl, fun row hrow u hu r hr => ?_⟩
  obtain rfl := Option.some.inj hrow
  obtain ⟨hmem, hp⟩ := mem_first hr
  have huser : r.user = some (account i.session) := of_decide_eq_true hp
  exact ⟨huser, (hI.google r hmem _ huser).mono hu⟩

/-- An installation of the account is written. -/
theorem Inv.writeGithub {s : Links} {row : GithubInstallation} (h : Inv account s)
    (huser : row.user = some (account i.session)) (hrow : GithubOf account (account i.session) row s.log) :
    Inv account ({ s with github := s.github.save row }.logged [.wroteGithub n i row]) := by
  refine Inv.logged (s := { s with github := s.github.save row }) ?_ (by simp [Event.row?]) fun e he => ?_
  · refine ⟨h.lawful, h.unique, h.states, h.sessions, fun r hr user hu => ?_, h.google⟩
    rcases mem_save.mp hr with rfl | ⟨hr, -⟩
    · obtain rfl := Option.some.inj (huser.symm.trans hu)
      exact hrow
    · exact h.github r hr user hu
  · obtain rfl := List.mem_singleton.mp he
    exact ⟨huser, hrow⟩

theorem Inv.writeGoogle {s : Links} {row : GoogleInstallation} (h : Inv account s)
    (huser : row.user = some (account i.session)) (hrow : GoogleOf account (account i.session) row s.log) :
    Inv account ({ s with google := s.google.save row }.logged [.wroteGoogle n i row]) := by
  refine Inv.logged (s := { s with google := s.google.save row }) ?_ (by simp [Event.row?]) fun e he => ?_
  · refine ⟨h.lawful, h.unique, h.states, h.sessions, h.github, fun r hr user hu => ?_⟩
    rcases mem_save.mp hr with rfl | ⟨hr, -⟩
    · obtain rfl := Option.some.inj (huser.symm.trans hu)
      exact hrow
    · exact h.google r hr user hu
  · obtain rfl := List.mem_singleton.mp he
    exact ⟨huser, hrow⟩

theorem keeps_saveGithub {row : GithubInstallation} (huser : row.user = some (account i.session))
    (hrow : GithubOf account (account i.session) row s.log) :
    Keeps account n i (saveGithub row) (fun _ _ => True) s :=
  safe_outcome fun _ ht hI _ =>
    ⟨_, _, rfl, hI.writeGithub huser (hrow.mono ht), le_logged, fun _ _ _ _ => trivial⟩

theorem keeps_createGithub {row : GithubInstallation} (huser : row.user = some (account i.session))
    (hrow : GithubOf account (account i.session) row s.log) :
    Keeps account n i (createGithub row) (fun _ _ => True) s := by
  refine safe_perform fun t ht hI x r t' hx => ?_
  simp only [system, handle, Option.ite_none_right_eq_some, Option.some.injEq, Prod.mk.injEq] at hx
  obtain ⟨-, rfl, rfl⟩ := hx
  have hrow' : GithubOf account (account i.session) { row with id := x.newId } t.log :=
    ⟨(hrow.mono ht).listed, (hrow.mono ht).token, (hrow.mono ht).userToken⟩
  exact ⟨hI.writeGithub huser hrow', le_logged, fun _ _ _ _ _ => trivial⟩

theorem keeps_saveGoogle {row : GoogleInstallation} (huser : row.user = some (account i.session))
    (hrow : GoogleOf account (account i.session) row s.log) :
    Keeps account n i (saveGoogle row) (fun _ _ => True) s := by
  refine safe_perform fun t ht hI x r t' hx => ?_
  simp only [system, handle] at hx
  split_ifs at hx
  · obtain ⟨rfl, rfl⟩ := by simpa using hx
    exact ⟨hI, le_rfl, fun b hb => by cases hb⟩
  · obtain ⟨rfl, rfl⟩ := by simpa using hx
    exact ⟨hI.writeGoogle huser (hrow.mono ht), le_logged, fun _ _ _ _ _ => trivial⟩

theorem keeps_createGoogle {row : GoogleInstallation} (huser : row.user = some (account i.session))
    (hrow : GoogleOf account (account i.session) row s.log) :
    Keeps account n i (createGoogle row) (fun _ _ => True) s := by
  refine safe_perform fun t ht hI x r t' hx => ?_
  simp only [system, handle] at hx
  split_ifs at hx
  · obtain ⟨rfl, rfl⟩ := by simpa using hx
    exact ⟨hI, le_rfl, fun b hb => by cases hb⟩
  · obtain ⟨rfl, rfl⟩ := by simpa using hx
    exact ⟨hI.writeGoogle huser (hrow.mono ht), le_logged, fun _ _ _ _ _ => trivial⟩

/-- A page of the list is asked for with the token that this request was given. -/
theorem keeps_installations {tokens : Tokens} {page : ℕ} (hgranted : .granted n i .github tokens ∈ s.log) :
    Keeps account n i (installations tokens.accessToken page)
      (fun ids u => .listed n i tokens.accessToken ids ∈ u.log) s := by
  refine safe_outcome fun t ht hI x => ⟨_, _, rfl, ?_, le_logged, ?_⟩
  · refine hI.logged (by simp [Event.row?]) fun e he => ?_
    obtain ⟨ids, -, rfl⟩ := List.mem_map.mp he
    exact ⟨tokens, mem_of_le ht hgranted, rfl⟩
  · intro ids hids u hu
    refine mem_of_le hu (List.mem_append_right _ (List.mem_map.mpr ⟨ids, ?_, rfl⟩))
    exact Option.mem_toList.mpr hids

theorem keeps_installationToken {id : ℤ} (hlisted : ListedTo account (account i.session) id s.log) :
    Keeps account n i (installationToken id)
      (fun reply u => ∀ t, reply.1 = some t → TokenOf id t u.log) s := by
  refine safe_outcome fun t ht hI x => ⟨_, _, rfl, ?_, le_logged, ?_⟩
  · refine hI.logged (fun e he service => ?_) fun e he => ?_
    · obtain ⟨reply, -, rfl⟩ := List.mem_map.mp he
      rfl
    · obtain ⟨reply, -, rfl⟩ := List.mem_map.mp he
      exact hlisted.mono ht
  · intro reply hreply u hu t' ht'
    refine ⟨n, i, mem_of_le hu (List.mem_append_right _ (List.mem_map.mpr ⟨reply, ?_, ?_⟩))⟩
    · exact Option.mem_toList.mpr hreply
    · rw [ht']

theorem keeps_githubRequest {token : Option Text} {id : ℤ} (hlisted : ListedTo account (account i.session) id s.log)
    (htoken : ∀ t, token = some t → TokenOf id t s.log) :
    Keeps account n i (githubRequest token) (fun _ _ => True) s := by
  refine safe_outcome fun t ht hI x => ⟨_, _, rfl, ?_, le_logged, fun _ _ _ _ => trivial⟩
  refine hI.logged (by simp [Event.row?]) fun e he => ?_
  obtain rfl := List.mem_singleton.mp he
  exact ⟨id, hlisted.mono ht, fun t' ht' => (htoken t' ht').mono ht⟩

theorem keeps_googleRequest {token : Option Text}
    (htoken : ∀ t, token = some t → GivenTo account .google (account i.session) t s.log) :
    Keeps account n i (googleRequest token) (fun _ _ => True) s := by
  refine safe_outcome fun t ht hI x => ⟨_, _, rfl, ?_, le_logged, fun _ _ _ _ => trivial⟩
  refine hI.logged (by simp [Event.row?]) fun e he => ?_
  obtain rfl := List.mem_singleton.mp he
  exact fun t' ht' => (htoken t' ht').mono ht

theorem keeps_now : Keeps account n i now (fun _ _ => True) s :=
  safe_read fun _ _ _ _ => ⟨_, rfl, fun _ _ _ _ => trivial⟩

theorem keeps_patience : Keeps account n i patience (fun _ _ => True) s :=
  safe_read fun _ _ _ _ => ⟨_, rfl, fun _ _ _ _ => trivial⟩

theorem keeps_redirect {service : Service} {state : OauthState} {uri : Text}
    (hissued : Issued service i.session state s.log) (huri : state.redirectUri = some uri) :
    Keeps account n i (redirect uri) (fun _ _ => True) s := by
  refine safe_outcome fun t ht hI x => ⟨_, _, rfl, ?_, le_logged, fun _ _ _ _ => trivial⟩
  refine hI.logged (by simp [Event.row?]) fun e he => ?_
  obtain rfl := List.mem_singleton.mp he
  exact ⟨service, state, hissued.mono ht, huri⟩

/-! ### The views -/

/-- What a view returns does not matter. -/
abbrev Fine (account : ℕ → ℕ) (n : ℕ) (i : Incoming) (view : View Unit) (s : Links) : Prop :=
  Keeps account n i view (fun _ _ => True) s

theorem fine_pure : Fine account n i (pure ()) s := safe_pure fun _ _ _ => trivial

theorem fine_oauthLogin {externalUrlBase : Text} {service : Service} {d : Session} {redirectUri : Option Text}
    (hd : Copied i.session d s.log) : Fine account n i (oauthLogin externalUrlBase service d redirectUri) s := by
  refine keeps_insertState.andThen fun row t ht hissued => keeps_saveSession fun service' id hid => ?_
  rcases eq_or_ne service' service with rfl | hne
  · obtain rfl : row.id = id := by simpa using hid
    exact ⟨row, hissued, rfl⟩
  · exact (hd.mono ht) service' id (by simpa [hne] using hid)

theorem fine_githubOauthLogin {externalUrlBase : Text} {r : Request} :
    Fine account n i (githubOauthLogin externalUrlBase r) s :=
  keeps_loadSession.andThen fun _ _ _ hd => fine_oauthLogin hd

theorem keeps_sessionState {service : Service} {d : Session} (hd : Copied i.session d s.log) :
    Keeps account n i (sessionState service d)
      (fun state u => ∀ row, state = some row → Issued service i.session row u.log) s := by
  unfold sessionState
  rcases hid : d service with _ | id
  · exact safe_pure fun _ _ _ row hrow => by cases hrow
  · exact keeps_getState (hd service id hid)

theorem fine_sendOn {service : Service} {state : OauthState} (hissued : Issued service i.session state s.log) :
    Fine account n i (sendOn state) s := by
  unfold sendOn
  rcases huri : state.redirectUri with _ | uri
  · exact fine_pure
  · by_cases hnil : uri = []
    · simp only [hnil, if_true]
      exact fine_pure
    · simp only [hnil, if_false]
      exact keeps_redirect hissued huri

/-- Every page is asked for with the token of this request. -/
theorem keeps_githubGetAll {tokens : Tokens} {patience page : ℕ} (hgranted : .granted n i .github tokens ∈ s.log) :
    Keeps account n i (githubGetAll tokens.accessToken patience page)
      (fun ids u => ∀ id ∈ ids, ListedTo account (account i.session) id u.log) s := by
  induction patience generalizing page s with
  | zero => exact safe_raise
  | succ patience ih =>
    refine (keeps_installations hgranted).andThen fun items t ht hlisted => ?_
    have hitems : ∀ u, t ≤ u → ∀ id ∈ items, ListedTo account (account i.session) id u.log :=
      fun u hu id hid => ⟨n, i, tokens.accessToken, items, rfl, mem_of_le hu hlisted, hid⟩
    split_ifs
    · refine (ih (mem_of_le ht hgranted)).andThen fun rest u hu hrest => safe_pure fun v hv _ id hid => ?_
      rcases List.mem_append.mp hid with hid | hid
      · exact hitems v (hu.trans hv) id hid
      · exact (hrest id hid).mono hv
    · exact safe_pure fun u hu _ => hitems u hu

theorem givenTo_of_granted {service : Service} {tokens : Tokens} {log : List Event}
    (hgranted : .granted n i service tokens ∈ log) {t : Text}
    (ht : tokens.accessToken = some t ∨ tokens.refreshToken = some t) :
    GivenTo account service (account i.session) t log := ⟨n, i, tokens, rfl, ht, Or.inl hgranted⟩

/-- The state is that of the session, and the installation one of the account. -/
theorem fine_githubExchange {code : Text} {installationId : ℤ} {state : OauthState}
    {installation : Option GithubInstallation} (hcode : i.request.param "code" = some code)
    (hissued : Issued .github i.session state s.log)
    (hinstallation : ∀ row, installation = some row → row.user = some (account i.session) ∧
      GithubOf account (account i.session) row s.log) :
    Fine account n i (githubExchange (account i.session) i.request code installationId state installation) s := by
  unfold githubExchange
  rcases hparam : i.request.param "state" with _ | text
  · exact safe_raise
  by_cases hstate : text = state.state
  swap
  · simp only [ne_eq, hstate, not_false_eq_true, if_true]
    exact fine_pure
  simp only [ne_eq, hstate, not_true_eq_false, if_false]
  refine (keeps_exchange hcode (hparam.trans (congrArg some hstate)) hissued).andThen fun reply t ht hgranted => ?_
  by_cases hstatus : reply.status = 200
  swap
  · simp only [hstatus, not_false_eq_true, if_true]
    exact fine_pure
  simp only [hstatus, not_true_eq_false, if_false]
  refine keeps_deleteState.andThen fun _ u hu _ => ?_
  rcases htokens : reply.tokens with _ | tokens
  · exact safe_raise
  have hgranted := hgranted hstatus tokens htokens
  refine keeps_now.andThen fun now v hv _ => ?_
  have htv := hu.trans hv
  rcases installation with _ | row
  · refine keeps_patience.andThen fun patience w hw _ => ?_
    refine (keeps_githubGetAll (mem_of_le (htv.trans hw) hgranted)).andThen fun ids y hy hlisted => ?_
    split_ifs with hid
    swap
    · exact fine_pure
    have hall := htv.trans (hw.trans hy)
    have hrow : GithubOf account (account i.session) (newGithub (account i.session) installationId) y.log :=
      ⟨hlisted _ hid, fun t ht => (by cases ht), fun t ht => (by rcases ht with ht | ht <;> cases ht)⟩
    refine Safe.andThen (keeps_createGithub rfl (hrow.withTokens fun t ht => ?_)) fun _ z hz _ => ?_
    · exact givenTo_of_granted (mem_of_le hall hgranted) ht
    · exact fine_sendOn (hissued.mono (ht.trans (hall.trans hz)))
  · obtain ⟨huser, hrow⟩ := hinstallation row rfl
    have hrow := hrow.mono (ht.trans htv)
    refine Safe.andThen (keeps_saveGithub huser (hrow.withTokens fun t ht => ?_)) fun _ w hw _ => ?_
    · exact givenTo_of_granted (mem_of_le htv hgranted) ht
    · exact fine_sendOn (hissued.mono (ht.trans (htv.trans hw)))

theorem fine_githubOauthCallback {parseInt : Text → Option ℤ} :
    Fine account n i (githubOauthCallback parseInt (account i.session) i.request) s := by
  refine keeps_loadSession.andThen fun d t _ hd => ?_
  rcases hcode : i.request.param "code" with _ | code
  · exact fine_pure
  rcases i.request.param "installation_id" with _ | idText
  · exact fine_pure
  rcases i.request.param "setup_action" with _ | setupAction
  · exact fine_pure
  rcases hid : parseInt idText with _ | installationId
  · simp only [hid]
    exact fine_pure
  simp only [hid]
  split_ifs
  · refine (keeps_sessionState hd).andThen fun state u hu hissued => ?_
    rcases state with _ | state
    · exact fine_pure
    refine keeps_githubInstallation.andThen fun installation v hv hinstallation => ?_
    rcases installation with _ | row
    · exact fine_pure
    refine fine_githubExchange hcode ((hissued state rfl).mono hv) fun row' hrow' => ?_
    exact hinstallation row' hrow'
  · refine keeps_githubInstallation.andThen fun installation v hv _ => ?_
    split_ifs
    · exact safe_raise
    · exact fine_pure
  · refine (keeps_sessionState hd).andThen fun state u hu hissued => ?_
    rcases state with _ | state
    · exact fine_pure
    exact fine_githubExchange hcode (hissued state rfl) fun row hrow => by cases hrow

theorem fine_googleOauthLogin {externalUrlBase : Text} {d : Session} {redirectUri : Option Text}
    (hd : Copied i.session d s.log) : Fine account n i (googleOauthLogin externalUrlBase d redirectUri) s :=
  fine_oauthLogin hd

theorem fine_googleOauthCallback {externalUrlBase : Text} :
    Fine account n i (googleOauthCallback externalUrlBase (account i.session) i.request) s := by
  refine keeps_loadSession.andThen fun d t _ hd => ?_
  rcases hcode : i.request.param "code" with _ | code
  · exact fine_pure
  rcases hparam : i.request.param "state" with _ | text
  · exact fine_pure
  rcases hid : d .google with _ | id
  · exact fine_googleOauthLogin hd
  refine (keeps_getState (hd .google id hid)).andThen fun state u hu hissued => ?_
  rcases state with _ | state
  · exact fine_googleOauthLogin (hd.mono hu)
  have hissued := hissued state rfl
  by_cases hstate : text = state.state
  swap
  · simp only [ne_eq, hstate, not_false_eq_true, if_true]
    exact fine_pure
  simp only [ne_eq, hstate, not_true_eq_false, if_false]
  refine (keeps_exchange hcode (hparam.trans (congrArg some hstate)) hissued).andThen fun reply v hv hgranted => ?_
  by_cases hstatus : reply.status = 200
  swap
  · simp only [hstatus, not_false_eq_true, if_true]
    exact fine_pure
  simp only [hstatus, not_true_eq_false, if_false]
  refine keeps_deleteState.andThen fun _ w hw _ => ?_
  rcases htokens : reply.tokens with _ | tokens
  · exact safe_raise
  have hgranted := hgranted hstatus tokens htokens
  refine keeps_now.andThen fun now y hy _ => ?_
  refine keeps_googleInstallation.andThen fun installation z hz hinstallation => ?_
  have hvz := hw.trans (hy.trans hz)
  have hrow : ∀ row : GoogleInstallation, GoogleOf account (account i.session) (row.withTokens tokens now) z.log :=
    fun _ t ht => givenTo_of_granted (mem_of_le hvz hgranted) ht
  rcases installation with _ | row
  · refine Safe.andThen (keeps_createGoogle rfl (hrow _)) fun _ z' hz' _ => ?_
    exact fine_sendOn (hissued.mono (hv.trans (hvz.trans hz')))
  · refine Safe.andThen (keeps_saveGoogle (hinstallation row rfl).1 (hrow row)) fun _ z' hz' _ => ?_
    exact fine_sendOn (hissued.mono (hv.trans (hvz.trans hz')))

theorem keeps_getInstallationToken {row : GithubInstallation} (huser : row.user = some (account i.session))
    (hrow : GithubOf account (account i.session) row s.log) : Keeps account n i (getInstallationToken row)
      (fun token u => (∀ t, token.1 = some t → TokenOf token.2.installationId t u.log) ∧
        token.2.user = some (account i.session) ∧ GithubOf account (account i.session) token.2 u.log) s := by
  refine keeps_now.andThen fun now t ht _ => ?_
  have hrow := hrow.mono ht
  split_ifs
  · exact safe_pure fun u hu _ => ⟨fun t' ht' => (hrow.token t' ht').mono hu, huser, hrow.mono hu⟩
  · refine (keeps_installationToken hrow.listed).andThen fun reply u hu htoken => ?_
    have hrow' : GithubOf account (account i.session)
        { row with accessToken := reply.1, accessTokenExpiresAt := reply.2 } u.log :=
      ⟨(hrow.mono hu).listed, htoken, (hrow.mono hu).userToken⟩
    refine Safe.andThen (keeps_saveGithub huser hrow') fun _ v hv _ => safe_pure fun w hw _ => ?_
    exact ⟨fun t' ht' => (htoken t' ht').mono (hv.trans hw), huser, hrow'.mono (hv.trans hw)⟩

/-- Requests that are fine wherever what is known holds. -/
theorem fine_repeated {request : View Unit} {k : ℕ} (hrequest : ∀ t, s ≤ t → Fine account n i request t) :
    Fine account n i (repeated request k) s := by
  induction k generalizing s with
  | zero => exact fine_pure
  | succ k ih =>
    exact (hrequest s le_rfl).andThen fun _ t ht _ => ih fun u hu => hrequest u (ht.trans hu)

theorem fine_githubRequests {requests : List ℕ} {row : GithubInstallation}
    (huser : row.user = some (account i.session)) (hrow : GithubOf account (account i.session) row s.log) :
    Fine account n i (githubRequests requests row) s := by
  induction requests generalizing s row with
  | nil => exact fine_pure
  | cons k requests ih =>
    refine (keeps_getInstallationToken huser hrow).andThen fun token t ht ⟨htoken, huser, hrow⟩ => ?_
    refine Safe.andThen (fine_repeated fun u hu => ?_) fun _ u hu _ => ih huser (hrow.mono hu)
    exact keeps_githubRequest (hrow.listed.mono hu) fun t' ht' => (htoken t' ht').mono hu

theorem fine_githubView {requests : List ℕ} : Fine account n i (githubView requests) s := by
  refine keeps_githubInstallation.andThen fun installation t _ hinstallation => ?_
  rcases installation with _ | row
  · exact fine_pure
  · exact fine_githubRequests (hinstallation row rfl).1 (hinstallation row rfl).2

/-- The inner view gets a token of the account. -/
theorem fine_verifyGoogleScopes {externalUrlBase : Text} {scopes : List Text} {r : Request}
    {inner : Option Text → View Unit}
    (hinner : ∀ token t, (∀ t', token = some t' → GivenTo account .google (account i.session) t' t.log) →
      Fine account n i (inner token) t) :
    Fine account n i (verifyGoogleScopes externalUrlBase scopes r inner) s := by
  refine keeps_loadSession.andThen fun d t _ hd => ?_
  refine keeps_googleInstallation.andThen fun installation u hu hinstallation => ?_
  rcases installation with _ | row
  · exact fine_googleOauthLogin (hd.mono hu)
  obtain ⟨huser, hrow⟩ := hinstallation row rfl
  dsimp only
  split_ifs
  swap
  · exact fine_googleOauthLogin (hd.mono hu)
  refine keeps_now.andThen fun now v hv _ => ?_
  have hrow := hrow.mono hv
  have hd := hd.mono (hu.trans hv)
  split_ifs
  · exact hinner _ _ fun t' ht' => hrow t' (Or.inl ht')
  · exact fine_googleOauthLogin hd
  refine (keeps_refresh fun t' ht' => hrow t' (Or.inr ht')).andThen fun reply w hw hrefreshed => ?_
  by_cases hstatus : reply.status = 200
  swap
  · simp only [ne_eq, hstatus, not_false_eq_true, if_true]
    exact fine_googleOauthLogin (hd.mono hw)
  simp only [ne_eq, hstatus, not_true_eq_false, if_false]
  rcases htokens : reply.tokens with _ | tokens
  · exact safe_raise
  have hgiven : ∀ t', tokens.accessToken = some t' → GivenTo account .google (account i.session) t' w.log :=
    fun t' ht' => ⟨n, i, tokens, rfl, Or.inl ht', Or.inr ⟨rfl, _, hrefreshed hstatus tokens htokens⟩⟩
  refine Safe.andThen (keeps_saveGoogle huser fun t' ht' => ?_) fun _ y hy _ =>
    hinner _ _ fun t' ht' => (hgiven t' ht').mono hy
  rcases ht' with ht' | ht'
  · exact hgiven t' ht'
  · exact (hrow t' (Or.inr ht')).mono hw

theorem fine_program (externalUrlBase : Text) (parseInt : Text → Option ℤ) (i : Incoming) (n : ℕ) (s : Links) :
    Fine account n (program externalUrlBase parseInt account i).1 (program externalUrlBase parseInt account i).2 s := by
  show Fine account n i (view externalUrlBase parseInt (account i.session) i.request i.page) s
  cases i.page with
  | githubOauthLogin => exact fine_githubOauthLogin
  | githubOauthCallback => exact fine_githubOauthCallback
  | googleOauthCallback => exact fine_googleOauthCallback
  | github requests => exact fine_githubView
  | google scopes requests =>
    show Fine account n i (verifyGoogleScopes externalUrlBase scopes i.request fun token =>
      repeated (googleRequest token) requests) s
    refine fine_verifyGoogleScopes fun token t htoken => fine_repeated fun u hu => ?_
    exact keeps_googleRequest fun t' ht' => (htoken t' ht').mono hu
  | other => exact keeps_loadSession.andThen fun _ _ _ hd => keeps_saveSession hd

/-! ### All requests -/

theorem keeps_others {e : Other} {t : Links} (hI : Inv account s) (hs : others s e = some t) :
    Inv account t ∧ s ≤ t := by
  cases e with
  | deleteState service id =>
    obtain rfl := Option.some.inj hs
    exact ⟨hI.deleteState service id, List.prefix_refl _⟩
  | deleteGithub id =>
    obtain rfl := Option.some.inj hs
    refine ⟨hI.fewer rfl (fun _ _ h => h) (fun _ _ _ h => h) (fun row hrow user huser => ?_) fun row hrow user huser =>
      ⟨row, hrow, huser, rfl⟩, List.prefix_refl _⟩
    exact ⟨row, (mem_erasing.mp hrow).1, huser, rfl⟩
  | deleteGoogle id =>
    obtain rfl := Option.some.inj hs
    refine ⟨hI.fewer rfl (fun _ _ h => h) (fun _ _ _ h => h) (fun row hrow user huser => ⟨row, hrow, huser, rfl⟩)
      fun row hrow user huser => ?_, List.prefix_refl _⟩
    exact ⟨row, (mem_erase.mp hrow).1, huser, rfl⟩
  | deleteAccount user =>
    obtain rfl := Option.some.inj hs
    refine ⟨hI.fewer rfl (fun _ _ h => (mem_erasing.mp h).1) (fun _ _ _ h => h) (fun row hrow user' huser => ?_)
      fun row hrow user' huser => ?_, List.prefix_refl _⟩
    · obtain ⟨old, hold, rfl⟩ := List.mem_map.mp hrow
      exact ⟨old, hold, (Option.filter_eq_some_iff.mp huser).1, rfl⟩
    · obtain ⟨old, hold, rfl⟩ := List.mem_map.mp hrow
      exact ⟨old, hold, (Option.filter_eq_some_iff.mp huser).1, rfl⟩
  | flush session =>
    obtain rfl := Option.some.inj hs
    refine ⟨hI.fewer rfl (fun _ _ h => h) (fun session' service id hid => ?_)
      (fun row hrow user huser => ⟨row, hrow, huser, rfl⟩) fun row hrow user huser => ⟨row, hrow, huser, rfl⟩,
      List.prefix_refl _⟩
    rcases eq_or_ne session' session with rfl | hne
    · simp at hid
    · simpa [hne] using hid

theorem inv_initial : Inv account initial where
  lawful := Logs.lawful_nil
  unique hmem := absurd hmem List.not_mem_nil
  states _ _ hrow := absurd hrow List.not_mem_nil
  sessions _ _ _ hid := by cases hid
  github _ hrow := absurd hrow List.not_mem_nil
  google _ hrow := absurd hrow List.not_mem_nil

/-- **Accounts are connected only by their owners**, and only their own tokens are used, in any interleaving of any
number of requests of any sessions with each other and with the rest of the service. -/
theorem connected (externalUrlBase : Text) (parseInt : Text → Option ℤ) (account : ℕ → ℕ)
    (cs : List (Choice Incoming Chance Other)) :
    Always (step (system account) (program externalUrlBase parseInt account))
      (fun p => Logs.Lawful (Event.Allowed account) p.shared.log) ⟨initial, []⟩ cs :=
  (always_of_safe (fun i n s => fine_program externalUrlBase parseInt i n s) (fun _ _ _ hI hs => keeps_others hI hs)
    inv_initial cs).mono fun _ hI => hI.lawful

end

end HexDns.Views.Installations
