import HexDns.Views.Dmarc
import HexDns.Views.Site

/-! # The views that edit zones

The views of `views/fzone.py`, `views/rzone.py`, `views/github.py` and `views/google.py` that show or change a
zone and the rows that belong to it. `confined` says that in every interleaving of any number of requests with
each other and with the rest of the service nothing of a zone is changed or shown but to somebody who was
allowed to while the request was handled, and that no row of a zone file changes without a task to update it. -/

namespace HexDns.Views.Editing

open HexDns.Lib.Texts HexDns.Lib.Tables HexDns.Lib.Runs HexDns.Lib.Threads HexDns.Models.Db HexDns.Views.Dmarc
  HexDns.Views.Site

/-! ### Requests and forms -/

abbrev Post := List (Text × Text)

/-- A request of somebody who is logged in, with the parameters of its path. -/
structure Request where
  isPost : Bool
  post : Post
  /-- `zone_id`, or `record_id` -/
  id : ℕ
  /-- `cds_id`, or `cdnskey_id` -/
  childId : ℕ
  owner : Text
  repo : Text
  deriving DecidableEq, Repr

/-- `request.method == "POST" and request.POST.get(name) == "true"` -/
def Request.confirms (r : Request) (name : String) : Bool :=
  r.isPost && r.post.reverse.lookup name.toList = some "true".toList

/-- The forms, and what `save` makes of columns. No form has a field for the zone. -/
structure Forms (γ : Type) where
  /-- The form of a model, with the columns of the row that is edited: nothing if the data is refused. -/
  clean : RowModel → Post → Option (Columns γ) → Option (Columns γ)
  clean_model : ∀ m post before columns, clean m post before = some columns → columns.model = m
  /-- the names in lower case -/
  saved : Columns γ → Columns γ
  saved_model : ∀ columns, (saved columns).model = columns.model
  withPassword : Text → Columns γ → Columns γ
  withPassword_model : ∀ password columns, (withPassword password columns).model = columns.model
  /-- `DMARCForm` -/
  dmarc : Post → Option DmarcForm
  /-- `ICloudForm`: the name and the text for the verification -/
  icloud : Post → Option (Text × Text)
  /-- `GithubPagesForm` -/
  githubPages : Post → Option Text
  /-- `GithubPagesSetupForm` with these branches: the name -/
  githubPagesSetup : List Text → Post → Option Text

variable {τ γ ζ : Type} (forms : Forms γ)

/-! ### Saving and deleting -/

/-- `v` if the condition holds -/
def doIf (c : Bool) (v : View τ γ ζ Unit) : View τ γ ζ Unit := if c then v else pure ()

/-- A request to another service, whose answer is of no interest if it is not an error. -/
def request (url : Text) : View τ γ ζ Unit := do
  let r ← http url
  if r.status < 400 then pure () else .raise

/-- `v` if the condition holds, and `r` otherwise -/
def replyIf (c : Bool) (v : View τ γ ζ HttpReply) (r : HttpReply) : View τ γ ζ HttpReply := if c then v else pure r

/-- The ingress of a `RedirectRecord`: it is patched, or created if it is not there. -/
def saveIngress : View τ γ ζ Unit := do
  let r ← http "read_namespaced_ingress".toList
  let p ← replyIf (r.status < 400) (http "patch_namespaced_ingress".toList) r
  if p.status = 404 then request "create_namespaced_ingress".toList
  else if p.status < 400 then pure ()
  else .raise

/-- `save` of a row -/
def saveRecord (row : RecordRow γ) : View τ γ ζ Unit := do
  doIf row.columns.model.hasTask (delay row.zone)
  doIf (row.columns.model = .record .redirect) saveIngress
  writeRow { row with columns := forms.saved row.columns }

/-- `delete` of a row -/
def dropRecord (row : RecordRow γ) : View τ γ ζ Unit := do
  doIf row.columns.model.hasTask (delay row.zone)
  doIf (row.columns.model = .record .redirect) (request "delete_namespaced_ingress".toList)
  dropRow row

/-- A new row of a zone. -/
def newRow (zone : ℕ) (columns : Columns γ) : View τ γ ζ Unit := do
  let key ← newId zone columns.model
  saveRecord forms ⟨key, zone, columns⟩

/-- `zone.last_modified = timezone.now(); zone.save()` -/
def touchZone (zone : ZoneRow ζ) : View τ γ ζ Unit := do
  let t ← now
  saveZone { zone with lastModified := t }

/-! ### Who may edit -/

/-- The first lines of a view of a zone, up to `raise PermissionDenied`. -/
def editableZone (isReverse : Bool) (id : ℕ) : View τ γ ζ (ZoneRow ζ) := do
  let token ← accessToken
  let zone ← getZone isReverse id
  let allowed ← hasScope token zone.id .edit
  if allowed then pure zone else .raise

/-- Those of a view of a row. -/
def editableRecord (m : RowModel) (id : ℕ) : View τ γ ζ (RecordRow γ × ZoneRow ζ) := do
  let token ← accessToken
  let row ← getRecord m id
  let zone ← zoneOf row
  let allowed ← hasScope token zone.id .edit
  if allowed then pure (row, zone) else .raise

/-! ### Records -/

/-- `create_…_record` -/
def createRecord (m : RowModel) (finish : Columns γ → View τ γ ζ (Columns γ)) (r : Request) : View τ γ ζ Unit := do
  let zone ← editableZone false r.id
  let key ← newId zone.id m
  match if r.isPost then forms.clean m r.post none else none with
  | some columns => do
    let columns ← finish columns
    let t ← now
    saveRecord forms ⟨key, zone.id, columns⟩
    saveZone { zone with lastModified := t }
  | none => render zone.id

/-- `edit_…_record` -/
def editRecord (m : RowModel) (r : Request) : View τ γ ζ Unit := do
  let (row, zone) ← editableRecord m r.id
  match if r.isPost then forms.clean m r.post (some row.columns) else none with
  | some columns => do
    touchZone zone
    saveRecord forms { row with columns := columns }
  | none => render zone.id

/-- `delete_…_record` -/
def deleteRecord (m : RowModel) (r : Request) : View τ γ ζ Unit := do
  let (row, zone) ← editableRecord m r.id
  if r.confirms "delete" then do
    touchZone zone
    dropRecord row
  else render zone.id

def createAddressRecord : Request → View τ γ ζ Unit := createRecord forms (.record .address) pure
def editAddressRecord : Request → View τ γ ζ Unit := editRecord forms (.record .address)
def deleteAddressRecord : Request → View τ γ ζ Unit := deleteRecord (.record .address)

/-- The password is made up. -/
def createDynamicAddressRecord : Request → View τ γ ζ Unit :=
  createRecord forms (.record .dynamicAddress) fun columns => do
    let password ← tokenHex
    pure (forms.withPassword password columns)

def editDynamicAddressRecord : Request → View τ γ ζ Unit := editRecord forms (.record .dynamicAddress)
def deleteDynamicAddressRecord : Request → View τ γ ζ Unit := deleteRecord (.record .dynamicAddress)
def createAnameRecord : Request → View τ γ ζ Unit := createRecord forms (.record .aname) pure
def editAnameRecord : Request → View τ γ ζ Unit := editRecord forms (.record .aname)
def deleteAnameRecord : Request → View τ γ ζ Unit := deleteRecord (.record .aname)
def createRedirectRecord : Request → View τ γ ζ Unit := createRecord forms (.record .redirect) pure
def editRedirectRecord : Request → View τ γ ζ Unit := editRecord forms (.record .redirect)
def deleteRedirectRecord : Request → View τ γ ζ Unit := deleteRecord (.record .redirect)
def createCnameRecord : Request → View τ γ ζ Unit := createRecord forms (.record .cname) pure
def editCnameRecord : Request → View τ γ ζ Unit := editRecord forms (.record .cname)
def deleteCnameRecord : Request → View τ γ ζ Unit := deleteRecord (.record .cname)
def createMxRecord : Request → View τ γ ζ Unit := createRecord forms (.record .mx) pure
def editMxRecord : Request → View τ γ ζ Unit := editRecord forms (.record .mx)
def deleteMxRecord : Request → View τ γ ζ Unit := deleteRecord (.record .mx)
def createNsRecord : Request → View τ γ ζ Unit := createRecord forms (.record .ns) pure
def editNsRecord : Request → View τ γ ζ Unit := editRecord forms (.record .ns)
def deleteNsRecord : Request → View τ γ ζ Unit := deleteRecord (.record .ns)
def createTxtRecord : Request → View τ γ ζ Unit := createRecord forms (.record .txt) pure
def editTxtRecord : Request → View τ γ ζ Unit := editRecord forms (.record .txt)
def deleteTxtRecord : Request → View τ γ ζ Unit := deleteRecord (.record .txt)
def createSrvRecord : Request → View τ γ ζ Unit := createRecord forms (.record .srv) pure
def editSrvRecord : Request → View τ γ ζ Unit := editRecord forms (.record .srv)
def deleteSrvRecord : Request → View τ γ ζ Unit := deleteRecord (.record .srv)
def createCaaRecord : Request → View τ γ ζ Unit := createRecord forms (.record .caa) pure
def editCaaRecord : Request → View τ γ ζ Unit := editRecord forms (.record .caa)
def deleteCaaRecord : Request → View τ γ ζ Unit := deleteRecord (.record .caa)
def createNaptrRecord : Request → View τ γ ζ Unit := createRecord forms (.record .naptr) pure
def editNaptrRecord : Request → View τ γ ζ Unit := editRecord forms (.record .naptr)
def deleteNaptrRecord : Request → View τ γ ζ Unit := deleteRecord (.record .naptr)
def createSshfpRecord : Request → View τ γ ζ Unit := createRecord forms (.record .sshfp) pure
def editSshfpRecord : Request → View τ γ ζ Unit := editRecord forms (.record .sshfp)
def deleteSshfpRecord : Request → View τ γ ζ Unit := deleteRecord (.record .sshfp)
def createDsRecord : Request → View τ γ ζ Unit := createRecord forms (.record .ds) pure
def editDsRecord : Request → View τ γ ζ Unit := editRecord forms (.record .ds)
def deleteDsRecord : Request → View τ γ ζ Unit := deleteRecord (.record .ds)
def createDnskeyRecord : Request → View τ γ ζ Unit := createRecord forms (.record .dnskey) pure
def editDnskeyRecord : Request → View τ γ ζ Unit := editRecord forms (.record .dnskey)
def deleteDnskeyRecord : Request → View τ γ ζ Unit := deleteRecord (.record .dnskey)
def createLocRecord : Request → View τ γ ζ Unit := createRecord forms (.record .loc) pure
def editLocRecord : Request → View τ γ ζ Unit := editRecord forms (.record .loc)
def deleteLocRecord : Request → View τ γ ζ Unit := deleteRecord (.record .loc)
def createHinfoRecord : Request → View τ γ ζ Unit := createRecord forms (.record .hinfo) pure
def editHinfoRecord : Request → View τ γ ζ Unit := editRecord forms (.record .hinfo)
def deleteHinfoRecord : Request → View τ γ ζ Unit := deleteRecord (.record .hinfo)
def createRpRecord : Request → View τ γ ζ Unit := createRecord forms (.record .rp) pure
def editRpRecord : Request → View τ γ ζ Unit := editRecord forms (.record .rp)
def deleteRpRecord : Request → View τ γ ζ Unit := deleteRecord (.record .rp)
def createHttpsRecord : Request → View τ γ ζ Unit := createRecord forms (.record .https) pure
def editHttpsRecord : Request → View τ γ ζ Unit := editRecord forms (.record .https)
def deleteHttpsRecord : Request → View τ γ ζ Unit := deleteRecord (.record .https)

/-! ### Records of reverse zones -/

/-- `create_r_…_record`: an object is made only for a form that was sent. -/
def createReverseRecord (m : RowModel) (r : Request) : View τ γ ζ Unit := do
  let zone ← editableZone true r.id
  if r.isPost then do
    let key ← newId zone.id m
    match forms.clean m r.post none with
    | some columns => do
      saveRecord forms ⟨key, zone.id, columns⟩
      touchZone zone
    | none => render zone.id
  else render zone.id

def createRPtrRecord : Request → View τ γ ζ Unit := createReverseRecord forms .ptr
def editRPtrRecord : Request → View τ γ ζ Unit := editRecord forms .ptr
def deleteRPtrRecord : Request → View τ γ ζ Unit := deleteRecord .ptr
def createRNsRecord : Request → View τ γ ζ Unit := createReverseRecord forms .reverseNs
def editRNsRecord : Request → View τ γ ζ Unit := editRecord forms .reverseNs
def deleteRNsRecord : Request → View τ γ ζ Unit := deleteRecord .reverseNs

/-! ### CDS and CDNSKEY -/

/-- The zone is saved before the row. -/
def createDelegationRow (m : RowModel) (r : Request) : View τ γ ζ Unit := do
  let zone ← editableZone false r.id
  let key ← newId zone.id m
  match if r.isPost then forms.clean m r.post none else none with
  | some columns => do
    touchZone zone
    saveRecord forms ⟨key, zone.id, columns⟩
  | none => render zone.id

/-- The path has the zone and the row; the row has to be one of the zone. -/
def deleteDelegationRow (m : RowModel) (r : Request) : View τ γ ζ Unit := do
  let token ← accessToken
  let zone ← getZone false r.id
  let row ← getRecord m r.childId
  let allowed ← hasScope token zone.id .edit
  if allowed then do
    let dnsZone ← zoneOf row
    if dnsZone.id = zone.id then
      if r.confirms "delete" then do
        touchZone zone
        dropRecord row
      else render zone.id
    else .raise
  else .raise

def createZoneCds : Request → View τ γ ζ Unit := createDelegationRow forms .additionalCds
def deleteZoneCds : Request → View τ γ ζ Unit := deleteDelegationRow .additionalCds
def createZoneCdnskey : Request → View τ γ ζ Unit := createDelegationRow forms .additionalCdnskey
def deleteZoneCdnskey : Request → View τ γ ζ Unit := deleteDelegationRow .additionalCdnskey

def disableZoneCds (r : Request) : View τ γ ζ Unit := do
  let zone ← editableZone false r.id
  if r.confirms "disable" then touchZone { zone with cdsDisable := true } else render zone.id

/-- A `GET` is enough. -/
def enableZoneCds (r : Request) : View τ γ ζ Unit := do
  let zone ← editableZone false r.id
  touchZone { zone with cdsDisable := false }

/-! ### Secrets, access lists and name servers -/

/-- The zone is not saved. -/
def createChild (m : RowModel) (r : Request) : View τ γ ζ Unit := do
  let zone ← editableZone false r.id
  let key ← newId zone.id m
  match if r.isPost then forms.clean m r.post none else none with
  | some columns => saveRecord forms ⟨key, zone.id, columns⟩
  | none => render zone.id

def editChild (m : RowModel) (r : Request) : View τ γ ζ Unit := do
  let (row, zone) ← editableRecord m r.id
  match if r.isPost then forms.clean m r.post (some row.columns) else none with
  | some columns => saveRecord forms { row with columns := columns }
  | none => render zone.id

def deleteChild (m : RowModel) (r : Request) : View τ γ ζ Unit := do
  let (row, zone) ← editableRecord m r.id
  if r.confirms "delete" then dropRecord row else render zone.id

def createZoneSecret : Request → View τ γ ζ Unit := createChild forms .updateSecrets
def editZoneSecret : Request → View τ γ ζ Unit := editChild forms .updateSecrets
def deleteZoneSecret : Request → View τ γ ζ Unit := deleteChild .updateSecrets
def createZoneAxfrSecret : Request → View τ γ ζ Unit := createChild forms .axfrSecrets
def editZoneAxfrSecret : Request → View τ γ ζ Unit := editChild forms .axfrSecrets
def deleteZoneAxfrSecret : Request → View τ γ ζ Unit := deleteChild .axfrSecrets
def createZoneAxfrIpAcl : Request → View τ γ ζ Unit := createChild forms .axfrIpAcl
def editZoneAxfrIpAcl : Request → View τ γ ζ Unit := editChild forms .axfrIpAcl
def deleteZoneAxfrIpAcl : Request → View τ γ ζ Unit := deleteChild .axfrIpAcl
def createZoneAxfrNotify : Request → View τ γ ζ Unit := createChild forms .axfrNotify
def editZoneAxfrNotify : Request → View τ γ ζ Unit := editChild forms .axfrNotify
def deleteZoneAxfrNotify : Request → View τ γ ζ Unit := deleteChild .axfrNotify
def createZoneCustomNs : Request → View τ γ ζ Unit := createChild forms .customNs
def editZoneCustomNsRecord : Request → View τ γ ζ Unit := editChild forms .customNs
def deleteZoneCustomNsRecord : Request → View τ γ ζ Unit := deleteChild .customNs

/-! ### Pages -/

def showZone (isReverse : Bool) (r : Request) : View τ γ ζ Unit := do
  let zone ← editableZone isReverse r.id
  render zone.id

def editZone : Request → View τ γ ζ Unit := showZone false
def editRzone : Request → View τ γ ζ Unit := showZone true
def editZoneCds : Request → View τ γ ζ Unit := showZone false
def editZoneTsig : Request → View τ γ ζ Unit := showZone false
def editZoneAxfr : Request → View τ γ ζ Unit := showZone false
def editZoneCustomNs : Request → View τ γ ζ Unit := showZone false

/-- Who may view a zone gets its records as a file. -/
def exportZoneFile (r : Request) : View τ γ ζ Unit := do
  let token ← accessToken
  let zone ← getZone false r.id
  let allowed ← hasScope token zone.id .view
  if allowed then render zone.id else .raise

/-! ### Prepared records -/

def generateDmarc (r : Request) : View τ γ ζ Unit := do
  let zone ← editableZone false r.id
  match if r.isPost then forms.dmarc r.post else none with
  | some form => newRow forms zone.id (.txt "_dmarc".toList 86400 (dmarcData form))
  | none => render zone.id

/-- A `GET` is enough for these two. -/
def createBlankSpf (r : Request) : View τ γ ζ Unit := do
  let zone ← editableZone false r.id
  newRow forms zone.id (.txt ['@'] 86400 "v=spf1 -all".toList)

def createBlankDmarc (r : Request) : View τ γ ζ Unit := do
  let zone ← editableZone false r.id
  newRow forms zone.id (.txt "_dmarc".toList 86400 "v=DMARC1;p=reject;sp=reject;adkim=s;aspf=s".toList)

/-- `mxrecord_set.filter(record_name=name)` -/
def isMxAt (name : Text) : Columns γ → Bool
  | .mx recordName .. => recordName = name
  | _ => false

/-- `cnamerecord_set.filter(record_name=name)` -/
def isCnameAt (name : Text) : Columns γ → Bool
  | .cname recordName .. => recordName = name
  | _ => false

/-- `txtrecord_set.filter(data__startswith="v=spf1", record_name=name)` -/
def isSpfAt (name : Text) : Columns γ → Bool
  | .txt recordName _ data => recordName = name && "v=spf1".toList.isPrefixOf data
  | _ => false

/-- The MX records of a zone at a name are replaced. -/
def replaceMx (zone : ℕ) (name : Text) (exchanges : List (String × ℕ)) : View τ γ ζ Unit := do
  deleteRows zone (isMxAt name)
  forEach (fun x => newRow forms zone (.mx name 3600 x.1.toList x.2)) exchanges

def setupGsuite (r : Request) : View τ γ ζ Unit := do
  let zone ← editableZone false r.id
  if r.confirms "setup" then
    replaceMx forms zone.id ['@'] [("aspmx.l.google.com", 1), ("alt1.aspmx.l.google.com", 5),
      ("alt2.aspmx.l.google.com", 5), ("alt3.aspmx.l.google.com", 10), ("alt4.aspmx.l.google.com", 10)]
  else render zone.id

def setupIcloud (r : Request) : View τ γ ζ Unit := do
  let zone ← editableZone false r.id
  match if r.isPost then forms.icloud r.post else none with
  | some (name, verification) => do
    let dkimRoot := if name = ['@'] then [] else '.' :: name
    let dkimLabel := "sig1._domainkey".toList ++ dkimRoot
    replaceMx forms zone.id name [("mx01.mail.icloud.com", 1), ("mx02.mail.icloud.com", 2)]
    newRow forms zone.id (.txt name 3600 verification)
    deleteRows zone.id (isCnameAt dkimLabel)
    newRow forms zone.id (.cname dkimLabel 3600
      ("sig1.dkim".toList ++ dkimRoot ++ '.' :: zone.zoneRoot ++ ".at.icloudmailadmin.com.".toList))
    deleteRows zone.id (isSpfAt name)
    newRow forms zone.id (.txt name 3600 "v=spf1 redirect=icloud.com".toList)
  | none => render zone.id

/-! ### GitHub and Google -/

/-- A record of GitHub Pages, after which the zone is saved. -/
def newGithubPages (zone : ZoneRow ζ) (name : Text) (repoOwner repoName : Option Text) : View τ γ ζ Unit := do
  newRow forms zone.id (.githubPages name 3600 repoOwner repoName)
  touchZone zone

def setupGithubPages (r : Request) : View τ γ ζ Unit := do
  let zone ← editableZone false r.id
  match if r.isPost then forms.githubPages r.post else none with
  | some name => newGithubPages forms zone name none none
  | none => do
    let installed ← installation
    doIf installed (request "repositories".toList)
    render zone.id

def setupGithubPagesRepo (r : Request) : View τ γ ζ Unit := do
  let token ← accessToken
  let zone ← getZone false r.id
  let installed ← installation
  if installed then do
    let allowed ← hasScope token zone.id .edit
    if allowed then do
      let branches ← http "branches".toList
      if branches.status = 404 then pure ()
      else if 400 ≤ branches.status then .raise
      else do
        let pages ← http "pages".toList
        match if r.isPost then forms.githubPagesSetup branches.texts r.post else none with
        | some name => do
          -- Pages are switched on where they are not
          doIf (pages.status = 404) (request "POST pages".toList)
          request "PUT pages".toList
          newGithubPages forms zone name (some r.owner) (some r.repo)
        | none => render zone.id
    else .raise
  else pure ()

/-- The columns with another name, and `repo_name` if it is not empty. -/
def renamed (name : Text) : Columns γ → Columns γ
  | .githubPages _ ttl repoOwner repoName => .githubPages name ttl repoOwner repoName
  | columns => columns

def repoName : Columns γ → Option Text
  | .githubPages _ _ _ repoName => repoName.filter (· ≠ [])
  | _ => none

/-- The record is saved, and the zone after it. -/
def renamePages (row : RecordRow γ) (zone : ZoneRow ζ) (name : Text) : View τ γ ζ Unit := do
  saveRecord forms { row with columns := renamed name row.columns }
  touchZone zone

def editGithubPagesRecord (r : Request) : View τ γ ζ Unit := do
  let token ← accessToken
  let row ← getRecord (.record .githubPages) r.id
  let installed ← installation
  let zone ← zoneOf row
  let allowed ← hasScope token zone.id .edit
  if allowed then
    if (repoName row.columns).isSome then
      if installed then do
        let branches ← http "branches".toList
        if 400 ≤ branches.status then .raise
        else do
          let pages ← http "pages".toList
          if pages.status = 404 then pure ()
          else
            match if r.isPost then forms.githubPagesSetup branches.texts r.post else none with
            | some name => do
              request "PUT pages".toList
              renamePages forms row zone name
            | none => render zone.id
      else pure ()
    else
      match if r.isPost then forms.githubPages r.post else none with
      | some name => renamePages forms row zone name
      | none => render zone.id
  else .raise

def deleteGithubPagesRecord (r : Request) : View τ γ ζ Unit := do
  let token ← accessToken
  let row ← getRecord (.record .githubPages) r.id
  let installed ← installation
  let zone ← zoneOf row
  let allowed ← hasScope token zone.id .edit
  if allowed then
    if (repoName row.columns).isSome && !installed then pure ()
    else if r.confirms "delete" then do
      let reply ← replyIf (repoName row.columns).isSome (http "DELETE pages".toList) ⟨204, []⟩
      if reply.status = 204 then do
        touchZone zone
        dropRecord row
      else pure ()
    else render zone.id
  else .raise

/-- A build is requested, and nothing changes here. -/
def githubPagesRecordRebuild (r : Request) : View τ γ ζ Unit := do
  let token ← accessToken
  let row ← getRecord (.record .githubPages) r.id
  let installed ← installation
  let zone ← zoneOf row
  let allowed ← hasScope token zone.id .edit
  if allowed then doIf (installed || (repoName row.columns).isNone) (do let _ ← http "builds".toList; pure ())
  else .raise

/-- `get_or_create(data=token)[0]`, and then `save` -/
def saveVerification (zone : ℕ) (data : Text) : View τ γ ζ Unit := do
  let found ← getTxt zone data
  match found with
  | some row => saveRecord forms row
  | none => do
    let key ← newId zone (.record .txt)
    saveRecord forms ⟨key, zone, .txt ['@'] 3600 data⟩
    saveRecord forms ⟨key, zone, forms.saved (.txt ['@'] 3600 data)⟩

/-- With the scopes that `verify_google_scopes` asks for; otherwise the browser is sent to Google. -/
def verifyZoneGoogle (r : Request) : View τ γ ζ Unit := do
  let scopes ← http "oauth2".toList
  if scopes.status = 200 then do
    let zone ← editableZone false r.id
    let reply ← http "siteVerification/v1/token".toList
    match reply.texts with
    | data :: _ => do
      saveVerification forms zone.id data
      let _ ← http "siteVerification/v1/webResource".toList
      pure ()
    | [] => .raise
  else pure ()

/-! ### The paths -/

/-- `create_…_record` -/
def createViews : List (Request → View τ γ ζ Unit) :=
  [createAddressRecord forms, createAnameRecord forms, createRedirectRecord forms, createCnameRecord forms,
    createMxRecord forms, createNsRecord forms, createTxtRecord forms, createSrvRecord forms,
    createCaaRecord forms, createNaptrRecord forms, createSshfpRecord forms, createDsRecord forms,
    createDnskeyRecord forms, createLocRecord forms, createHinfoRecord forms, createRpRecord forms,
    createHttpsRecord forms]

/-- `edit_…_record` -/
def editViews : List (Request → View τ γ ζ Unit) :=
  [editAddressRecord forms, editDynamicAddressRecord forms, editAnameRecord forms, editRedirectRecord forms,
    editCnameRecord forms, editMxRecord forms, editNsRecord forms, editTxtRecord forms, editSrvRecord forms,
    editCaaRecord forms, editNaptrRecord forms, editSshfpRecord forms, editDsRecord forms,
    editDnskeyRecord forms, editLocRecord forms, editHinfoRecord forms, editRpRecord forms,
    editHttpsRecord forms, editRPtrRecord forms, editRNsRecord forms]

/-- `delete_…_record` -/
def deleteViews : List (Request → View τ γ ζ Unit) :=
  [deleteAddressRecord, deleteDynamicAddressRecord, deleteAnameRecord, deleteRedirectRecord, deleteCnameRecord,
    deleteMxRecord, deleteNsRecord, deleteTxtRecord, deleteSrvRecord, deleteCaaRecord, deleteNaptrRecord,
    deleteSshfpRecord, deleteDsRecord, deleteDnskeyRecord, deleteLocRecord, deleteHinfoRecord, deleteRpRecord,
    deleteHttpsRecord, deleteRPtrRecord, deleteRNsRecord]

/-- Those of secrets, access lists and name servers. -/
def createChildViews : List (Request → View τ γ ζ Unit) :=
  [createZoneSecret forms, createZoneAxfrSecret forms, createZoneAxfrIpAcl forms, createZoneAxfrNotify forms,
    createZoneCustomNs forms]

/-- Those that change them. -/
def editChildViews : List (Request → View τ γ ζ Unit) :=
  [editZoneSecret forms, editZoneAxfrSecret forms, editZoneAxfrIpAcl forms, editZoneAxfrNotify forms,
    editZoneCustomNsRecord forms]

/-- Those that delete them. -/
def deleteChildViews : List (Request → View τ γ ζ Unit) :=
  [deleteZoneSecret, deleteZoneAxfrSecret, deleteZoneAxfrIpAcl, deleteZoneAxfrNotify, deleteZoneCustomNsRecord]

/-- The pages of zones. -/
def pages : List (Request → View τ γ ζ Unit) :=
  [editZone, editRzone, editZoneCds, editZoneTsig, editZoneAxfr, editZoneCustomNs]

/-- The others. -/
def otherViews : List (Request → View τ γ ζ Unit) :=
  [createDynamicAddressRecord forms, createRPtrRecord forms, createRNsRecord forms, createZoneCds forms,
    createZoneCdnskey forms, deleteZoneCds, deleteZoneCdnskey, disableZoneCds, enableZoneCds, exportZoneFile,
    generateDmarc forms, createBlankSpf forms, createBlankDmarc forms, setupGsuite forms, setupIcloud forms,
    setupGithubPages forms, setupGithubPagesRepo forms, editGithubPagesRecord forms, deleteGithubPagesRecord,
    githubPagesRecordRebuild, verifyZoneGoogle forms]

/-- The views that `urlpatterns` has for a zone and what belongs to it. -/
def urlpatterns : List (Request → View τ γ ζ Unit) :=
  createViews forms ++ editViews forms ++ deleteViews ++ createChildViews forms ++ editChildViews forms
    ++ deleteChildViews ++ pages ++ otherViews forms

/-! ### The parts of the views -/

section
variable {n : ℕ} {token : τ} {s : Site τ γ ζ} {forms}

/-- Whatever a view returns. -/
abbrev Fine (n : ℕ) (token : τ) (view : View τ γ ζ Unit) (s : Site τ γ ζ) : Prop :=
  Keeps n token view (fun _ _ => True) s

theorem fine_pure : Fine n token (pure () : View τ γ ζ Unit) s := safe_pure fun _ _ _ => trivial

theorem keeps_doIf {c : Bool} {v : View τ γ ζ Unit} {post : Unit → Site τ γ ζ → Prop}
    (hv : c = true → Keeps n token v post s) : Keeps n token (doIf c v) (fun a u => c = true → post a u) s := by
  unfold doIf
  split_ifs with hc
  · exact (hv hc).mono fun _ _ _ _ hpost _ => hpost
  · exact safe_pure fun _ _ _ hc' => absurd hc' hc

theorem fine_request {url : Text} : Fine n token (request url : View τ γ ζ Unit) s := by
  refine keeps_bind keeps_http fun r t _ _ => ?_
  split_ifs
  · exact fine_pure
  · exact safe_raise

theorem keeps_replyIf {c : Bool} {url : Text} {r : HttpReply} :
    Keeps n token (replyIf c (http url) r : View τ γ ζ HttpReply) (fun _ _ => True) s := by
  unfold replyIf
  split_ifs
  · exact keeps_http
  · exact safe_pure fun _ _ _ => trivial

theorem fine_saveIngress : Fine n token (saveIngress : View τ γ ζ Unit) s := by
  refine keeps_bind keeps_http fun r t _ _ => ?_
  refine keeps_bind keeps_replyIf fun p u _ _ => ?_
  split_ifs
  · exact fine_request
  · exact fine_pure
  · exact safe_raise

theorem fine_saveRecord {row : RecordRow γ} (hhome : s.home row.id = some row.home)
    (hgranted : Granted n token row.zone .edit s.log) : Fine n token (saveRecord forms row) s := by
  refine keeps_bind (keeps_doIf fun _ => keeps_delay) fun _ t ht hqueued => ?_
  refine keeps_bind (keeps_doIf fun _ => fine_saveIngress) fun _ u hu _ => ?_
  refine keeps_writeRow ?_ (hgranted.mono (ht.1.trans hu.1)) ?_
  · refine (hu.2 _ _ (ht.2 _ _ hhome)).trans (congrArg some ?_)
    exact Prod.ext rfl (forms.saved_model row.columns).symm
  · intro htask
    rw [show (forms.saved row.columns).model = row.columns.model from forms.saved_model _] at htask
    exact hu.1.subset (hqueued htask)

theorem fine_dropRecord {row : RecordRow γ} (hhome : s.home row.id = some row.home)
    (hgranted : Granted n token row.zone .edit s.log) : Fine n token (dropRecord row) s := by
  refine keeps_bind (keeps_doIf fun _ => keeps_delay) fun _ t ht hqueued => ?_
  refine keeps_bind (keeps_doIf fun _ => fine_request) fun _ u hu _ => ?_
  exact keeps_dropRow (hu.2 _ _ (ht.2 _ _ hhome)) (hgranted.mono (ht.1.trans hu.1))
    fun htask => hu.1.subset (hqueued htask)

theorem fine_newRow {zone : ℕ} {columns : Columns γ} (hgranted : Granted n token zone .edit s.log) :
    Fine n token (newRow forms zone columns) s :=
  keeps_bind keeps_newId fun _ _ ht hhome => fine_saveRecord hhome (hgranted.mono ht.1)

theorem fine_touchZone {zone : ZoneRow ζ} (hgranted : Granted n token zone.id .edit s.log) :
    Fine n token (touchZone zone : View τ γ ζ Unit) s :=
  keeps_bind keeps_now fun _ _ ht _ => keeps_saveZone (hgranted.mono ht.1)

theorem keeps_editableZone {isReverse : Bool} {id : ℕ} : Keeps n token (editableZone isReverse id)
    (fun zone u => Granted n token zone.id .edit u.log) s := by
  refine keeps_bind keeps_accessToken fun token' t _ ⟨htoken, hbegan⟩ => ?_
  refine keeps_bind keeps_getZone fun zone u hu _ => ?_
  rw [htoken]
  refine keeps_bind (keeps_hasScope (hu.1.subset hbegan)) fun allowed v _ hallowed => ?_
  split_ifs with h
  · exact safe_pure fun w hw _ => (hallowed h).mono hw.1
  · exact safe_raise

theorem keeps_editableRecord {m : RowModel} {id : ℕ} : Keeps n token (editableRecord m id : View τ γ ζ _)
    (fun found u => found.2.id = found.1.zone ∧ found.1.columns.model = m ∧
      u.home found.1.id = some found.1.home ∧ Granted n token found.1.zone .edit u.log) s := by
  refine keeps_bind keeps_accessToken fun token' t _ ⟨htoken, hbegan⟩ => ?_
  refine keeps_bind keeps_getRecord fun row u hu ⟨hhome, hmodel⟩ => ?_
  refine keeps_bind keeps_zoneOf fun zone v hv hzone => ?_
  rw [htoken, hzone]
  refine keeps_bind (keeps_hasScope (hv.1.subset (hu.1.subset hbegan))) fun allowed w hw hallowed => ?_
  split_ifs with h
  · exact safe_pure fun x hx _ => ⟨hzone, hmodel, hx.2 _ _ (hw.2 _ _ (hv.2 _ _ hhome)), (hallowed h).mono hx.1⟩
  · exact safe_raise

/-! ### The views -/

theorem fine_render {zone : ℕ} (hgranted : Granted n token zone .edit s.log) :
    Fine n token (render zone : View τ γ ζ Unit) s := keeps_render (Or.inl hgranted)

theorem clean_model {m : RowModel} {r : Request} {before : Option (Columns γ)} {columns : Columns γ}
    (h : (if r.isPost then forms.clean m r.post before else none) = some columns) : columns.model = m := by
  split_ifs at h
  exact forms.clean_model _ _ _ _ h

theorem fine_createRecord {m : RowModel} {finish : Columns γ → View τ γ ζ (Columns γ)} {r : Request}
    (hfinish : ∀ columns s, Keeps n token (finish columns) (fun c _ => c.model = columns.model) s) :
    Fine n token (createRecord forms m finish r) s := by
  refine keeps_bind keeps_editableZone fun zone t _ hgranted => ?_
  refine keeps_bind keeps_newId fun key u hu hhome => ?_
  rcases hclean : (if r.isPost then forms.clean m r.post none else none) with - | columns <;> dsimp only
  · exact fine_render (hgranted.mono hu.1)
  · refine keeps_bind (hfinish columns u) fun columns' v hv hmodel => ?_
    refine keeps_bind keeps_now fun now w hw _ => ?_
    have hgranted' := hgranted.mono (hu.1.trans (hv.1.trans hw.1))
    refine keeps_bind (fine_saveRecord ?_ hgranted') fun _ x hx _ => keeps_saveZone (hgranted'.mono hx.1)
    refine (hw.2 _ _ (hv.2 _ _ hhome)).trans (congrArg some ?_)
    exact Prod.ext rfl ((hmodel.trans (clean_model hclean)).symm)

theorem fine_createRecord_pure {m : RowModel} {r : Request} :
    Fine n token (createRecord forms m pure r : View τ γ ζ Unit) s :=
  fine_createRecord fun _ _ => safe_pure fun _ _ _ => rfl

theorem fine_editRecord {m : RowModel} {r : Request} : Fine n token (editRecord forms m r : View τ γ ζ Unit) s := by
  refine keeps_bind keeps_editableRecord fun ⟨row, zone⟩ t _ ⟨hzone, hmodel, hhome, hgranted⟩ => ?_
  dsimp only at hzone hmodel hhome hgranted ⊢
  rcases hclean : (if r.isPost then forms.clean m r.post (some row.columns) else none) with - | columns <;> dsimp only
  · exact fine_render (hzone ▸ hgranted)
  · refine keeps_bind (fine_touchZone (hzone ▸ hgranted)) fun _ u hu _ => ?_
    refine fine_saveRecord ((hu.2 _ _ hhome).trans (congrArg some ?_)) (hgranted.mono hu.1)
    exact Prod.ext rfl (hmodel.trans (clean_model hclean).symm)

theorem fine_deleteRecord {m : RowModel} {r : Request} : Fine n token (deleteRecord m r : View τ γ ζ Unit) s := by
  refine keeps_bind keeps_editableRecord fun ⟨row, zone⟩ t _ ⟨hzone, _, hhome, hgranted⟩ => ?_
  dsimp only at hzone hhome hgranted ⊢
  split_ifs
  · refine keeps_bind (fine_touchZone (hzone ▸ hgranted)) fun _ u hu _ => ?_
    exact fine_dropRecord (hu.2 _ _ hhome) (hgranted.mono hu.1)
  · exact fine_render (hzone ▸ hgranted)

theorem fine_createReverseRecord {m : RowModel} {r : Request} :
    Fine n token (createReverseRecord forms m r : View τ γ ζ Unit) s := by
  refine keeps_bind keeps_editableZone fun zone t _ hgranted => ?_
  split_ifs
  · refine keeps_bind keeps_newId fun key u hu hhome => ?_
    have hgranted' := hgranted.mono hu.1
    rcases hclean : forms.clean m r.post none with - | columns <;> dsimp only
    · exact fine_render hgranted'
    · refine keeps_bind (fine_saveRecord (hhome.trans (congrArg some ?_)) hgranted') fun _ v hv _ =>
        fine_touchZone (hgranted'.mono hv.1)
      exact Prod.ext rfl (forms.clean_model _ _ _ _ hclean).symm
  · exact fine_render hgranted

theorem fine_createDelegationRow {m : RowModel} {r : Request} :
    Fine n token (createDelegationRow forms m r : View τ γ ζ Unit) s := by
  refine keeps_bind keeps_editableZone fun zone t _ hgranted => ?_
  refine keeps_bind keeps_newId fun key u hu hhome => ?_
  have hgranted' := hgranted.mono hu.1
  rcases hclean : (if r.isPost then forms.clean m r.post none else none) with - | columns <;> dsimp only
  · exact fine_render hgranted'
  · refine keeps_bind (fine_touchZone hgranted') fun _ v hv _ => ?_
    refine fine_saveRecord ((hv.2 _ _ hhome).trans (congrArg some ?_)) (hgranted'.mono hv.1)
    exact Prod.ext rfl (clean_model hclean).symm

theorem fine_deleteDelegationRow {m : RowModel} {r : Request} :
    Fine n token (deleteDelegationRow m r : View τ γ ζ Unit) s := by
  refine keeps_bind keeps_accessToken fun token' t _ ⟨htoken, hbegan⟩ => ?_
  refine keeps_bind keeps_getZone fun zone u hu _ => ?_
  refine keeps_bind keeps_getRecord fun row v hv ⟨hhome, _⟩ => ?_
  rw [htoken]
  refine keeps_bind (keeps_hasScope (hv.1.subset (hu.1.subset hbegan))) fun allowed w hw hallowed => ?_
  by_cases h : allowed = true
  · rw [if_pos h]
    refine keeps_bind keeps_zoneOf fun dnsZone x hx hzone => ?_
    have hgranted := (hallowed h).mono hx.1
    by_cases hsame : dnsZone.id = zone.id
    · rw [if_pos hsame]
      split_ifs
      · refine keeps_bind (fine_touchZone hgranted) fun _ y hy _ => ?_
        refine fine_dropRecord (hy.2 _ _ (hx.2 _ _ (hw.2 _ _ hhome))) ?_
        rw [← hzone, hsame]
        exact hgranted.mono hy.1
      · exact fine_render hgranted
    · rw [if_neg hsame]
      exact safe_raise
  · rw [if_neg h]
    exact safe_raise

theorem fine_disableZoneCds {r : Request} : Fine n token (disableZoneCds r : View τ γ ζ Unit) s := by
  refine keeps_bind keeps_editableZone fun zone t _ hgranted => ?_
  split_ifs
  · exact fine_touchZone hgranted
  · exact fine_render hgranted

theorem fine_enableZoneCds {r : Request} : Fine n token (enableZoneCds r : View τ γ ζ Unit) s :=
  keeps_bind keeps_editableZone fun _ _ _ hgranted => fine_touchZone hgranted

theorem fine_createChild {m : RowModel} {r : Request} : Fine n token (createChild forms m r : View τ γ ζ Unit) s := by
  refine keeps_bind keeps_editableZone fun zone t _ hgranted => ?_
  refine keeps_bind keeps_newId fun key u hu hhome => ?_
  rcases hclean : (if r.isPost then forms.clean m r.post none else none) with - | columns <;> dsimp only
  · exact fine_render (hgranted.mono hu.1)
  · refine fine_saveRecord (hhome.trans (congrArg some ?_)) (hgranted.mono hu.1)
    exact Prod.ext rfl (clean_model hclean).symm

theorem fine_editChild {m : RowModel} {r : Request} : Fine n token (editChild forms m r : View τ γ ζ Unit) s := by
  refine keeps_bind keeps_editableRecord fun ⟨row, zone⟩ t _ ⟨hzone, hmodel, hhome, hgranted⟩ => ?_
  dsimp only at hzone hmodel hhome hgranted ⊢
  rcases hclean : (if r.isPost then forms.clean m r.post (some row.columns) else none) with - | columns <;> dsimp only
  · exact fine_render (hzone ▸ hgranted)
  · refine fine_saveRecord (hhome.trans (congrArg some ?_)) hgranted
    exact Prod.ext rfl (hmodel.trans (clean_model hclean).symm)

theorem fine_deleteChild {m : RowModel} {r : Request} : Fine n token (deleteChild m r : View τ γ ζ Unit) s := by
  refine keeps_bind keeps_editableRecord fun ⟨row, zone⟩ t _ ⟨hzone, _, hhome, hgranted⟩ => ?_
  dsimp only at hzone hhome hgranted ⊢
  split_ifs
  · exact fine_dropRecord hhome hgranted
  · exact fine_render (hzone ▸ hgranted)

theorem fine_showZone {isReverse : Bool} {r : Request} : Fine n token (showZone isReverse r : View τ γ ζ Unit) s :=
  keeps_bind keeps_editableZone fun _ _ _ hgranted => fine_render hgranted

theorem fine_exportZoneFile {r : Request} : Fine n token (exportZoneFile r : View τ γ ζ Unit) s := by
  refine keeps_bind keeps_accessToken fun token' t _ ⟨htoken, hbegan⟩ => ?_
  refine keeps_bind keeps_getZone fun zone u hu _ => ?_
  rw [htoken]
  refine keeps_bind (keeps_hasScope (hu.1.subset hbegan)) fun allowed v _ hallowed => ?_
  split_ifs with h
  · exact keeps_render (Or.inr (hallowed h))
  · exact safe_raise

/-! Prepared records -/

theorem fine_generateDmarc {r : Request} : Fine n token (generateDmarc forms r : View τ γ ζ Unit) s := by
  refine keeps_bind keeps_editableZone fun zone t _ hgranted => ?_
  split
  · exact fine_newRow hgranted
  · exact fine_render hgranted

theorem fine_createBlankSpf {r : Request} : Fine n token (createBlankSpf forms r : View τ γ ζ Unit) s :=
  keeps_bind keeps_editableZone fun _ _ _ hgranted => fine_newRow hgranted

theorem fine_createBlankDmarc {r : Request} : Fine n token (createBlankDmarc forms r : View τ γ ζ Unit) s :=
  keeps_bind keeps_editableZone fun _ _ _ hgranted => fine_newRow hgranted

theorem fine_replaceMx {zone : ℕ} {name : Text} {exchanges : List (String × ℕ)}
    (hgranted : Granted n token zone .edit s.log) :
    Fine n token (replaceMx forms zone name exchanges : View τ γ ζ Unit) s := by
  refine keeps_bind (keeps_deleteRows hgranted) fun _ t ht _ => ?_
  have hkept : ∀ u v : Site τ γ ζ, u ≤ v → Granted n token zone .edit u.log → Granted n token zone .edit v.log :=
    fun _ _ hle hknown => hknown.mono hle.1
  exact (safe_forEach _ hkept (fun _ _ u hu => fine_newRow hu) (hgranted.mono ht.1)).mono fun _ _ _ _ _ => trivial

theorem fine_setupGsuite {r : Request} : Fine n token (setupGsuite forms r : View τ γ ζ Unit) s := by
  refine keeps_bind keeps_editableZone fun zone t _ hgranted => ?_
  split_ifs
  · exact fine_replaceMx hgranted
  · exact fine_render hgranted

theorem fine_setupIcloud {r : Request} : Fine n token (setupIcloud forms r : View τ γ ζ Unit) s := by
  refine keeps_bind keeps_editableZone fun zone t _ hgranted => ?_
  split
  · refine keeps_bind (fine_replaceMx hgranted) fun _ t1 h1 _ => ?_
    have hgranted := hgranted.mono h1.1
    refine keeps_bind (fine_newRow hgranted) fun _ t2 h2 _ => ?_
    have hgranted := hgranted.mono h2.1
    refine keeps_bind (keeps_deleteRows hgranted) fun _ t3 h3 _ => ?_
    have hgranted := hgranted.mono h3.1
    refine keeps_bind (fine_newRow hgranted) fun _ t4 h4 _ => ?_
    have hgranted := hgranted.mono h4.1
    exact keeps_bind (keeps_deleteRows hgranted) fun _ t5 h5 _ => fine_newRow (hgranted.mono h5.1)
  · exact fine_render hgranted

/-! GitHub and Google -/

theorem fine_newGithubPages {zone : ZoneRow ζ} {name : Text} {repoOwner repoName : Option Text}
    (hgranted : Granted n token zone.id .edit s.log) :
    Fine n token (newGithubPages forms zone name repoOwner repoName) s :=
  keeps_bind (fine_newRow hgranted) fun _ _ ht _ => fine_touchZone (hgranted.mono ht.1)

theorem fine_setupGithubPages {r : Request} : Fine n token (setupGithubPages forms r : View τ γ ζ Unit) s := by
  refine keeps_bind keeps_editableZone fun zone t _ hgranted => ?_
  split
  · exact fine_newGithubPages hgranted
  · refine keeps_bind keeps_installation fun _ u hu _ => ?_
    refine keeps_bind (keeps_doIf fun _ => fine_request) fun _ v hv _ => ?_
    exact fine_render (hgranted.mono (hu.1.trans hv.1))

theorem fine_setupGithubPagesRepo {r : Request} :
    Fine n token (setupGithubPagesRepo forms r : View τ γ ζ Unit) s := by
  refine keeps_bind keeps_accessToken fun token' t _ ⟨htoken, hbegan⟩ => ?_
  refine keeps_bind keeps_getZone fun zone u hu _ => ?_
  refine keeps_bind keeps_installation fun installed v hv _ => ?_
  by_cases hinstalled : installed = true
  swap
  · rw [if_neg hinstalled]
    exact fine_pure
  rw [if_pos hinstalled, htoken]
  refine keeps_bind (keeps_hasScope (hv.1.subset (hu.1.subset hbegan))) fun allowed w _ hallowed => ?_
  by_cases h : allowed = true
  swap
  · rw [if_neg h]
    exact safe_raise
  rw [if_pos h]
  refine keeps_bind keeps_http fun branches x hx _ => ?_
  have hgranted := (hallowed h).mono hx.1
  by_cases h404 : branches.status = 404
  · rw [if_pos h404]
    exact fine_pure
  rw [if_neg h404]
  by_cases hfails : 400 ≤ branches.status
  · rw [if_pos hfails]
    exact safe_raise
  rw [if_neg hfails]
  refine keeps_bind keeps_http fun pages y hy _ => ?_
  have hgranted := hgranted.mono hy.1
  split
  · refine keeps_bind (keeps_doIf fun _ => fine_request) fun _ z hz _ => ?_
    refine keeps_bind fine_request fun _ z' hz' _ => ?_
    exact fine_newGithubPages (hgranted.mono (hz.1.trans hz'.1))
  · exact fine_render hgranted

theorem model_renamed (name : Text) (columns : Columns γ) : (renamed name columns).model = columns.model := by
  rcases columns with _ | _ | _ | _ | _ <;> rfl

theorem fine_renamePages {row : RecordRow γ} {zone : ZoneRow ζ} {name : Text} (hzone : zone.id = row.zone)
    (hhome : s.home row.id = some row.home) (hgranted : Granted n token row.zone .edit s.log) :
    Fine n token (renamePages forms row zone name) s := by
  refine keeps_bind (fine_saveRecord (hhome.trans (congrArg some ?_)) hgranted) fun _ t ht _ =>
    fine_touchZone (hzone ▸ hgranted.mono ht.1)
  exact Prod.ext rfl (model_renamed name row.columns).symm

theorem fine_editGithubPagesRecord {r : Request} :
    Fine n token (editGithubPagesRecord forms r : View τ γ ζ Unit) s := by
  refine keeps_bind keeps_accessToken fun token' t _ ⟨htoken, hbegan⟩ => ?_
  refine keeps_bind keeps_getRecord fun row u hu ⟨hhome, _⟩ => ?_
  refine keeps_bind keeps_installation fun installed v hv _ => ?_
  refine keeps_bind keeps_zoneOf fun zone w hw hzone => ?_
  rw [htoken]
  refine keeps_bind (keeps_hasScope (hw.1.subset (hv.1.subset (hu.1.subset hbegan)))) fun allowed x hx hallowed => ?_
  by_cases h : allowed = true
  swap
  · rw [if_neg h]
    exact safe_raise
  rw [if_pos h]
  have hgranted : Granted n token row.zone .edit x.log := hzone ▸ hallowed h
  have hhome := hx.2 _ _ (hw.2 _ _ (hv.2 _ _ hhome))
  by_cases hrepo : (repoName row.columns).isSome
  · rw [if_pos hrepo]
    by_cases hinstalled : installed = true
    swap
    · rw [if_neg hinstalled]
      exact fine_pure
    rw [if_pos hinstalled]
    refine keeps_bind keeps_http fun branches y hy _ => ?_
    by_cases hfails : 400 ≤ branches.status
    · rw [if_pos hfails]
      exact safe_raise
    rw [if_neg hfails]
    refine keeps_bind keeps_http fun pages z hz _ => ?_
    by_cases h404 : pages.status = 404
    · rw [if_pos h404]
      exact fine_pure
    rw [if_neg h404]
    have hgranted := hgranted.mono (hy.1.trans hz.1)
    have hhome := hz.2 _ _ (hy.2 _ _ hhome)
    split
    · exact keeps_bind fine_request fun _ z' hz' _ =>
        fine_renamePages hzone (hz'.2 _ _ hhome) (hgranted.mono hz'.1)
    · exact fine_render (hzone ▸ hgranted)
  · rw [if_neg hrepo]
    split
    · exact fine_renamePages hzone hhome hgranted
    · exact fine_render (hzone ▸ hgranted)

theorem fine_deleteGithubPagesRecord {r : Request} :
    Fine n token (deleteGithubPagesRecord r : View τ γ ζ Unit) s := by
  refine keeps_bind keeps_accessToken fun token' t _ ⟨htoken, hbegan⟩ => ?_
  refine keeps_bind keeps_getRecord fun row u hu ⟨hhome, _⟩ => ?_
  refine keeps_bind keeps_installation fun installed v hv _ => ?_
  refine keeps_bind keeps_zoneOf fun zone w hw hzone => ?_
  rw [htoken]
  refine keeps_bind (keeps_hasScope (hw.1.subset (hv.1.subset (hu.1.subset hbegan)))) fun allowed x hx hallowed => ?_
  by_cases h : allowed = true
  swap
  · rw [if_neg h]
    exact safe_raise
  rw [if_pos h]
  have hgranted : Granted n token row.zone .edit x.log := hzone ▸ hallowed h
  have hhome := hx.2 _ _ (hw.2 _ _ (hv.2 _ _ hhome))
  by_cases hgone : ((repoName row.columns).isSome && !installed) = true
  · rw [if_pos hgone]
    exact fine_pure
  rw [if_neg hgone]
  by_cases hconfirms : r.confirms "delete" = true
  · rw [if_pos hconfirms]
    refine keeps_bind keeps_replyIf fun reply y hy _ => ?_
    have hgranted := hgranted.mono hy.1
    split_ifs
    · exact keeps_bind (fine_touchZone (hzone ▸ hgranted)) fun _ z hz _ =>
        fine_dropRecord (hz.2 _ _ (hy.2 _ _ hhome)) (hgranted.mono hz.1)
    · exact fine_pure
  · rw [if_neg hconfirms]
    exact fine_render (hzone ▸ hgranted)

theorem fine_githubPagesRecordRebuild {r : Request} :
    Fine n token (githubPagesRecordRebuild r : View τ γ ζ Unit) s := by
  refine keeps_bind keeps_accessToken fun token' t _ ⟨htoken, hbegan⟩ => ?_
  refine keeps_bind keeps_getRecord fun row u hu _ => ?_
  refine keeps_bind keeps_installation fun installed v hv _ => ?_
  refine keeps_bind keeps_zoneOf fun zone w hw _ => ?_
  rw [htoken]
  refine keeps_bind (keeps_hasScope (hw.1.subset (hv.1.subset (hu.1.subset hbegan)))) fun allowed x _ _ => ?_
  split_ifs
  · exact (keeps_doIf fun _ => keeps_bind keeps_http fun _ _ _ _ => fine_pure).mono fun _ _ _ _ _ => trivial
  · exact safe_raise

theorem fine_saveVerification {zone : ℕ} {data : Text} (hgranted : Granted n token zone .edit s.log) :
    Fine n token (saveVerification forms zone data : View τ γ ζ Unit) s := by
  refine keeps_bind keeps_getTxt fun found t ht hfound => ?_
  have hgranted := hgranted.mono ht.1
  rcases found with - | row
  · refine keeps_bind keeps_newId fun key u hu hhome => ?_
    have hgranted := hgranted.mono hu.1
    refine keeps_bind (fine_saveRecord hhome hgranted) fun _ v hv _ => ?_
    refine fine_saveRecord ((hv.2 _ _ hhome).trans (congrArg some ?_)) (hgranted.mono hv.1)
    exact Prod.ext rfl (forms.saved_model (.txt ['@'] 3600 data)).symm
  · obtain ⟨hhome, hzone⟩ := hfound row rfl
    exact fine_saveRecord hhome (hzone ▸ hgranted)

theorem fine_verifyZoneGoogle {r : Request} : Fine n token (verifyZoneGoogle forms r : View τ γ ζ Unit) s := by
  refine keeps_bind keeps_http fun scopes t _ _ => ?_
  by_cases hscopes : scopes.status = 200
  swap
  · rw [if_neg hscopes]
    exact fine_pure
  rw [if_pos hscopes]
  refine keeps_bind keeps_editableZone fun zone u _ hgranted => ?_
  refine keeps_bind keeps_http fun reply v hv _ => ?_
  split
  · refine keeps_bind (fine_saveVerification (hgranted.mono hv.1)) fun _ w _ _ => ?_
    exact keeps_bind keeps_http fun _ _ _ _ => fine_pure
  · exact safe_raise

end

/-! ### All requests -/

/-- A request: the token of the session, and the number of the view that its path leads to. -/
structure Incoming (τ : Type) where
  token : τ
  view : ℕ
  request : Request

def program (i : Incoming τ) : τ × View τ γ ζ Unit :=
  (i.token, ((urlpatterns forms)[i.view]?).elim .raise (· i.request))

section
variable {forms} {n : ℕ} {token : τ} {s : Site τ γ ζ} {view : Request → View τ γ ζ Unit} {r : Request}

theorem fine_createViews (hview : view ∈ createViews forms) : Fine n token (view r) s := by
  revert view
  simp only [createViews, List.forall_mem_cons, List.not_mem_nil, false_imp_iff, implies_true, and_true]
  and_intros <;> exact fine_createRecord_pure

theorem fine_editViews (hview : view ∈ editViews forms) : Fine n token (view r) s := by
  revert view
  simp only [editViews, List.forall_mem_cons, List.not_mem_nil, false_imp_iff, implies_true, and_true]
  and_intros <;> exact fine_editRecord

theorem fine_deleteViews (hview : view ∈ deleteViews) : Fine n token (view r) s := by
  revert view
  simp only [deleteViews, List.forall_mem_cons, List.not_mem_nil, false_imp_iff, implies_true, and_true]
  and_intros <;> exact fine_deleteRecord

theorem fine_createChildViews (hview : view ∈ createChildViews forms) : Fine n token (view r) s := by
  revert view
  simp only [createChildViews, List.forall_mem_cons, List.not_mem_nil, false_imp_iff, implies_true, and_true]
  and_intros <;> exact fine_createChild

theorem fine_editChildViews (hview : view ∈ editChildViews forms) : Fine n token (view r) s := by
  revert view
  simp only [editChildViews, List.forall_mem_cons, List.not_mem_nil, false_imp_iff, implies_true, and_true]
  and_intros <;> exact fine_editChild

theorem fine_deleteChildViews (hview : view ∈ deleteChildViews) : Fine n token (view r) s := by
  revert view
  simp only [deleteChildViews, List.forall_mem_cons, List.not_mem_nil, false_imp_iff, implies_true, and_true]
  and_intros <;> exact fine_deleteChild

theorem fine_pages (hview : view ∈ pages) : Fine n token (view r) s := by
  revert view
  simp only [pages, List.forall_mem_cons, List.not_mem_nil, false_imp_iff, implies_true, and_true]
  and_intros <;> exact fine_showZone

theorem fine_createDynamicAddressRecord : Fine n token (createDynamicAddressRecord forms r : View τ γ ζ Unit) s :=
  fine_createRecord fun columns _ => keeps_bind keeps_tokenHex fun password _ _ _ =>
    safe_pure fun _ _ _ => forms.withPassword_model password columns

theorem fine_otherViews (hview : view ∈ otherViews forms) : Fine n token (view r) s := by
  revert view
  simp only [otherViews, List.forall_mem_cons, List.not_mem_nil, false_imp_iff, implies_true, and_true]
  exact ⟨fine_createDynamicAddressRecord, fine_createReverseRecord, fine_createReverseRecord,
    fine_createDelegationRow, fine_createDelegationRow, fine_deleteDelegationRow, fine_deleteDelegationRow,
    fine_disableZoneCds, fine_enableZoneCds, fine_exportZoneFile, fine_generateDmarc, fine_createBlankSpf,
    fine_createBlankDmarc, fine_setupGsuite, fine_setupIcloud, fine_setupGithubPages, fine_setupGithubPagesRepo,
    fine_editGithubPagesRecord, fine_deleteGithubPagesRecord, fine_githubPagesRecordRebuild, fine_verifyZoneGoogle⟩

theorem fine_urlpatterns (hview : view ∈ urlpatterns forms) : Fine n token (view r) s := by
  unfold urlpatterns at hview
  simp only [List.mem_append] at hview
  rcases hview with ((((((h | h) | h) | h) | h) | h) | h) | h
  · exact fine_createViews h
  · exact fine_editViews h
  · exact fine_deleteViews h
  · exact fine_createChildViews h
  · exact fine_editChildViews h
  · exact fine_deleteChildViews h
  · exact fine_pages h
  · exact fine_otherViews h

end

theorem fine_program (i : Incoming τ) (n : ℕ) (s : Site τ γ ζ) :
    Fine n (program forms i : τ × View τ γ ζ Unit).1 (program forms i).2 s := by
  show Fine n i.token (((urlpatterns forms)[i.view]?).elim .raise (· i.request)) s
  rcases hview : (urlpatterns forms)[i.view]? with - | view
  · exact safe_raise
  · exact fine_urlpatterns (List.mem_of_getElem? hview)

end HexDns.Views.Editing
