import HexDns.Svcb.Params
import HexDns.Tasks.ZoneFile

/-! # HTTPS records as objects

`SVCBBaseRecord` and `HTTPSRecord`: what `clean` checks, and the parameters that `svcb_data` and
`svcb_record` put together. An object keeps what its text fields decode to (`Caches`), and reads it from
there the next time. The ALPN value of the parameter list is the one in the cache, and `svcb_data` of
`HTTPSRecord` appends to it.

`run_clean_eq_ok` is what a record that passes `clean` is known to satisfy, and what is in its caches then;
`run_svcbData` is what one reading gives and leaves. -/

namespace HexDns.Svcb.Https

open HexDns.Lib.Texts HexDns.Lib.Programs HexDns.Base.Py HexDns.Base.Codecs HexDns.Base.Label
  HexDns.Models.Db HexDns.Models.Env HexDns.Svcb.Decode HexDns.Svcb.Params

/-! ### The object -/

/-- The caches of a record; that of the ALPN value is the list inside the object. -/
structure Caches where
  alpn : Option (List Bytes)
  ech : Option Bytes
  ipv4Hints : Option (List (BitVec 32))
  ipv6Hints : Option (List (BitVec 128))
  extraParams : Option (List SvcbParam)
  deriving DecidableEq

/-- The caches of a new object. -/
def Caches.empty : Caches := ⟨none, none, none, none, none⟩

/-- The text of a field that may be null, which counts as the empty one. -/
def text (t : Option Text) : Text := t.getD []

/-- A cached property: what is in the cache, unless it counts as false and the field does not; then the
field is decoded into the cache. -/
def cachedProperty {α : Type} (cache : Caches → Option α) (put : α → Caches → Caches)
    (isFalse : Option α → Bool) (decode : Text → Except PyErr α) (field : Text) :
    Exec Caches PyErr (Option α) := do
  let c ← get
  if isFalse (cache c) = true ∧ field ≠ [] then
    let v ← ofResult (decode field)
    modify (put v)
    return some v
  else return cache c

def Caches.putAlpn (v : List Bytes) (c : Caches) : Caches := { c with alpn := some v }

def Caches.putEch (v : Bytes) (c : Caches) : Caches := { c with ech := some v }

def Caches.putIpv4Hints (v : List (BitVec 32)) (c : Caches) : Caches := { c with ipv4Hints := some v }

def Caches.putIpv6Hints (v : List (BitVec 128)) (c : Caches) : Caches := { c with ipv6Hints := some v }

def Caches.putExtraParams (v : List SvcbParam) (c : Caches) : Caches := { c with extraParams := some v }

section
variable (data : HttpsData)

/-- `alpn_data` -/
def alpnProperty : Exec Caches PyErr (Option (List Bytes)) :=
  cachedProperty Caches.alpn Caches.putAlpn Option.isNone alpnFromStr (text data.alpns)

/-- `ech_data`; no bytes count as false. -/
def echProperty : Exec Caches PyErr (Option Bytes) :=
  cachedProperty Caches.ech Caches.putEch (fun v => v.getD [] = []) b64decode (text data.ech)

/-- `ipv4_hints_data` -/
def ipv4HintsProperty : Exec Caches PyErr (Option (List (BitVec 32))) :=
  cachedProperty Caches.ipv4Hints Caches.putIpv4Hints Option.isNone ipv4FromStr data.ipv4Hints

/-- `ipv6_hints_data` -/
def ipv6HintsProperty : Exec Caches PyErr (Option (List (BitVec 128))) :=
  cachedProperty Caches.ipv6Hints Caches.putIpv6Hints Option.isNone ipv6FromStr data.ipv6Hints

/-- `extra_params_data` -/
def extraParamsProperty : Exec Caches PyErr (Option (List SvcbParam)) :=
  cachedProperty Caches.extraParams Caches.putExtraParams Option.isNone decodeSvcbParamList data.extraParams

/-! ### `clean` -/

/-- How `clean` fails. -/
inductive CleanErr
  /-- `ValidationError({field: message})` -/
  | invalid (field message : Text)
  /-- `ValidationError({field: e.error_list})` of the `ValidationError` of a decoder -/
  | refused (field : Text)
  | raised (e : PyErr)
  deriving DecidableEq, Repr

/-- `if bad: raise ValidationError({field: message})` -/
def check (bad : Bool) (field message : Text) : Exec Caches CleanErr Unit :=
  if bad = true then throw (.invalid field message) else pure ()

/-- The result of a decoder, whose `ValidationError` is that of a field. -/
def decoded {α : Type} (field : Text) (x : Except PyErr α) : Exec Caches CleanErr α :=
  match x with
  | .ok a => pure a
  | .error .validationError => throw (.refused field)
  | .error e => throw (.raised e)

/-- `s in t` -/
def textIn (s t : Text) : Bool := s <:+: t

/-- The check of a switch `mandatory` that needs a parameter. -/
def checkMandatory (mandatory : Bool) (filled : Bool) (name field message : Text) :
    Exec Caches CleanErr Unit :=
  check (mandatory && !(filled || textIn name data.extraParams)) field message

/-- The check that a field that is filled is not among the extra parameters too. -/
def checkElsewhere (name message : Text) : Exec Caches CleanErr Unit :=
  check (textIn name data.extraParams) "extra_params".toList message

/-- A field that is filled is not given elsewhere, and decoded into its cache. -/
def cleanField {α : Type} (field : Text) (name fieldName elsewhere : Text)
    (decode : Text → Except PyErr α) (put : α → Caches → Caches) : Exec Caches CleanErr Unit :=
  if field ≠ [] then do
    checkElsewhere data name elsewhere
    let v ← decoded fieldName (decode field)
    modify (put v)
  else pure ()

/-- The extra parameters are decoded into their cache. -/
def cleanExtraParams : Exec Caches CleanErr Unit :=
  if data.extraParams ≠ [] then do
    let params ← decoded "extra_params".toList (decodeSvcbParamList data.extraParams)
    modify (Caches.putExtraParams params)
  else pure ()

/-- `base64.b64decode`, whose `binascii.Error` is made a `ValidationError` -/
def decodeEch (t : Text) : Except PyErr Bytes :=
  (b64decode t).mapError fun e => if e = .valueError then .validationError else e

/-- `self.target_port` counts as true. -/
def hasTargetPort : Bool := data.targetPort.getD 0 ≠ 0

/-- `SVCBBaseRecord.clean` -/
def cleanBase : Exec Caches CleanErr Unit := do
  cleanExtraParams data
  checkMandatory data data.alpnMandatory (text data.alpns ≠ []) "alpn".toList "alpns".toList
    "ALPNs must be specified when they are mandatory".toList
  cleanField data (text data.alpns) "alpn".toList "alpns".toList
    "ALPNs already defined elsewhere".toList alpnFromStr Caches.putAlpn
  checkMandatory data data.echMandatory (text data.ech ≠ []) "ech".toList "ech".toList
    "ECH must be specified when it is mandatory".toList
  cleanField data (text data.ech) "ech".toList "ech".toList
    "ECH already defined elsewhere".toList decodeEch Caches.putEch
  checkMandatory data data.noDefaultAlpn (text data.alpns ≠ []) "alpn".toList "alpns".toList
    "ALPNs must be specified when default ALPNs are ignored".toList
  checkMandatory data data.targetPortMandatory (hasTargetPort data) "port".toList "target_port".toList
    "A port must be specified when it is mandatory".toList
  checkMandatory data data.ipv4HintsMandatory (data.ipv4Hints ≠ []) "ipv4hint".toList "ipv4_hints".toList
    "IPv4 hints must be specified when they are mandatory".toList
  cleanField data data.ipv4Hints "ipv4hint".toList "ipv4_hints".toList
    "IPv4 hints already defined elsewhere".toList ipv4FromStr Caches.putIpv4Hints
  checkMandatory data data.ipv6HintsMandatory (data.ipv6Hints ≠ []) "ipv6hint".toList "ipv6_hints".toList
    "IPv4 hints must be specified when they are mandatory".toList
  cleanField data data.ipv6Hints "ipv6hint".toList "ipv6_hints".toList
    "IPv6 hints already defined elsewhere".toList ipv6FromStr Caches.putIpv6Hints
  check (hasTargetPort data && textIn "port".toList data.extraParams) "extra_params".toList
    "Target port already defined elsewhere".toList
  check ((data.alpnMandatory || data.noDefaultAlpnMandatory || data.targetPortMandatory ||
      data.ipv4HintsMandatory || data.ipv6HintsMandatory) && textIn "mandatory".toList data.extraParams)
    "extra_params".toList "Mandatory fields already defined elsewhere".toList
  check (data.port.getD 0 ≠ 0 && text data.scheme = []) "scheme".toList
    "Scheme must be set when a port is".toList
  check (text data.scheme ≠ [] && data.port.getD 0 = 0) "port".toList
    "Port must be set when a scheme is".toList

/-- A program that fails with the exceptions of Python. -/
def raising {α : Type} (m : Exec Caches PyErr α) : Exec Caches CleanErr α := ExceptT.adapt CleanErr.raised m

/-- `b"h2"` -/
def h2 : Bytes := [104, 50]

/-- What `HTTPSRecord.clean` adds. -/
def cleanHttp2 : Exec Caches CleanErr Unit :=
  if data.http2Support = true then do
    let alpn ← raising (alpnProperty data)
    check (h2 ∈ alpn.getD []) "alpns".toList "HTTP/2 support declared twice".toList
    checkElsewhere data "alpn".toList "ALPNs already defined elsewhere".toList
  else pure ()

/-- `HTTPSRecord.clean` -/
def clean : Exec Caches CleanErr Unit := do
  cleanBase data
  cleanHttp2 data

/-! ### `svcb_data` and `svcb_record` -/

/-- A parameter for a field that is filled. -/
def whenFilled (filled : Bool) (p : Exec Caches PyErr SvcbParam) : Exec Caches PyErr (List SvcbParam) :=
  if filled = true then do return [← p] else return []

/-- `mandatory` of `svcb_data`: the keys of the switches that are honoured, in the order of the fields -/
def mandatoryKeys : List ℤ :=
  (if text data.alpns ≠ [] ∧ data.alpnMandatory = true then [1] else []) ++
  (if data.noDefaultAlpnMandatory = true then [2] else []) ++
  (if data.ipv4Hints ≠ [] ∧ data.ipv4HintsMandatory = true then [4] else []) ++
  (if data.ipv6Hints ≠ [] ∧ data.ipv6HintsMandatory = true then [6] else []) ++
  (if hasTargetPort data = true ∧ data.targetPortMandatory = true then [3] else []) ++
  (if text data.ech ≠ [] ∧ data.echMandatory = true then [5] else [])

/-- The extra parameters, if there are any. -/
def extraParamList : Exec Caches PyErr (List SvcbParam) :=
  if data.extraParams ≠ [] then do return (← extraParamsProperty data).getD [] else return []

/-- `SVCBBaseRecord.svcb_data`: the parameters and `mandatory` -/
def svcbDataBase : Exec Caches PyErr (List SvcbParam × List ℤ) := do
  let alpn ← whenFilled (text data.alpns ≠ []) do return ⟨1, .alpn ((← alpnProperty data).getD [])⟩
  let noDefaultAlpn := if data.noDefaultAlpn = true then [⟨2, .null⟩] else []
  let ipv4Hints ← whenFilled (data.ipv4Hints ≠ []) do
    return ⟨4, .ipv4 ((← ipv4HintsProperty data).getD [])⟩
  let ipv6Hints ← whenFilled (data.ipv6Hints ≠ []) do
    return ⟨6, .ipv6 ((← ipv6HintsProperty data).getD [])⟩
  let port := if hasTargetPort data = true then [⟨3, .integer (data.targetPort.getD 0)⟩] else []
  let ech ← whenFilled (text data.ech ≠ []) do return ⟨5, .octet ((← echProperty data).getD [])⟩
  let extra ← extraParamList data
  return (alpn ++ noDefaultAlpn ++ ipv4Hints ++ ipv6Hints ++ port ++ ech ++ extra, mandatoryKeys data)

/-- `h2` appended to the ALPN value of the first parameter with its key -/
def appendH2 : List SvcbParam → List SvcbParam
  | [] => []
  | p :: params =>
    if p.key = 1 then
      match p.data with
      | .alpn alpns => ⟨p.key, .alpn (alpns ++ [h2])⟩ :: params
      | _ => p :: params
    else p :: appendH2 params

/-- `HTTPSRecord.svcb_data`; an ALPN value in the list is the one in the cache. -/
def svcbData : Exec Caches PyErr (List SvcbParam × List ℤ) := do
  let (params, mandatory) ← svcbDataBase data
  if data.http2Support = true then
    match (getParam params 1).map SvcbParam.data with
    | some (.alpn _) =>
      modify fun c => { c with alpn := c.alpn.map (· ++ [h2]) }
      return (appendH2 params, mandatory)
    | some _ => throw .attributeError
    | none => return (params ++ [⟨1, .alpn [h2]⟩], mandatory)
  else return (params, mandatory)

end

/-- `SVCB` -/
structure SvcbRd where
  priority : ℕ
  target : Text
  params : List SvcbParam
  deriving DecidableEq

/-- `svcb_record` -/
def svcbRecord (data : HttpsData) : Exec Caches PyErr SvcbRd := do
  let (params, mandatory) ← svcbData data
  return ⟨data.priority, data.target,
    if mandatory ≠ [] then params ++ [⟨0, .mandatory mandatory⟩] else params⟩

/-- `SVCB.pack` -/
def SvcbRd.pack (h : Host) (r : SvcbRd) : Except PyErr Bytes := do
  let priority ← packShort r.priority
  let target ← h.encodeName (← DnsLabel.ofText h.py r.target)
  let params ← packParams r.params
  return priority ++ target ++ params

/-- `svcb_record` of a new object -/
def record (data : HttpsData) : Except PyErr SvcbRd := (run (svcbRecord data) Caches.empty).1

/-- The record passes `clean`. -/
def PassesClean (data : HttpsData) : Prop := (run (clean data) Caches.empty).1 = .ok ()

instance decidablePassesClean (data : HttpsData) : Decidable (PassesClean data) :=
  inferInstanceAs (Decidable ((run (clean data) Caches.empty).1 = .ok ()))

/-- A record with the defaults of the model and no parameters. -/
def bareRecord : HttpsData where
  port := some 443
  scheme := some "https".toList
  priority := 1
  target := ".".toList
  targetPort := none
  targetPortMandatory := false
  alpns := none
  alpnMandatory := false
  noDefaultAlpn := false
  noDefaultAlpnMandatory := false
  ech := none
  echMandatory := false
  ipv4Hints := []
  ipv4HintsMandatory := false
  ipv6Hints := []
  ipv6HintsMandatory := false
  extraParams := []
  http2Support := false

/-! ### What the fields decode to -/

/-- What the filled fields of a record decode to; the parts of the other ones are empty. -/
structure Decoded where
  alpns : List Bytes
  ech : Bytes
  ipv4Hints : List (BitVec 32)
  ipv6Hints : List (BitVec 128)
  extraParams : List SvcbParam

/-- A filled field decodes to the value, and for one that is not filled there is none. -/
def FieldIs {α : Type} (decode : Text → Except PyErr (List α)) (field : Text) (v : List α) : Prop :=
  if field = [] then v = [] else decode field = .ok v

structure Decodes (data : HttpsData) (d : Decoded) : Prop where
  alpns : FieldIs alpnFromStr (text data.alpns) d.alpns
  ech : FieldIs b64decode (text data.ech) d.ech
  ipv4Hints : FieldIs ipv4FromStr data.ipv4Hints d.ipv4Hints
  ipv6Hints : FieldIs ipv6FromStr data.ipv6Hints d.ipv6Hints
  extraParams : FieldIs decodeSvcbParamList data.extraParams d.extraParams

section
variable {α : Type} {decode : Text → Except PyErr (List α)} {field : Text} {v w : List α}

theorem FieldIs.eq_nil (h : FieldIs decode field v) (hfield : field = []) : v = [] := by
  unfold FieldIs at h
  rwa [if_pos hfield] at h

theorem FieldIs.eq_ok (h : FieldIs decode field v) (hfield : field ≠ []) : decode field = .ok v := by
  unfold FieldIs at h
  rwa [if_neg hfield] at h

theorem FieldIs.unique (h : FieldIs decode field v) (h' : FieldIs decode field w) : v = w := by
  by_cases hfield : field = []
  · rw [h.eq_nil hfield, h'.eq_nil hfield]
  · exact Except.ok.inj ((h.eq_ok hfield).symm.trans (h'.eq_ok hfield))

end

theorem Decodes.unique {data : HttpsData} {d d' : Decoded} (h : Decodes data d) (h' : Decodes data d') :
    d = d' := by
  have h1 := h.alpns.unique h'.alpns
  have h2 := h.ech.unique h'.ech
  have h3 := h.ipv4Hints.unique h'.ipv4Hints
  have h4 := h.ipv6Hints.unique h'.ipv6Hints
  have h5 := h.extraParams.unique h'.extraParams
  rcases d
  rcases d'
  simp_all

/-- The parameters of a list of parameters from a text are octets. -/
theorem octet_of_decodeSvcbParamList {t : Text} {params : List SvcbParam}
    (h : decodeSvcbParamList t = .ok params) : ∀ p ∈ params, ∃ b, p.data = .octet b := by
  unfold decodeSvcbParamList at h
  obtain ⟨items, -, h⟩ := bind_eq_ok.mp h
  intro p hp
  obtain ⟨item, -, hitem⟩ := (mem_mapM h).1 p hp
  unfold octetParam svcbParam at hitem
  rcases hkey : keyId (asciiText item.1) with e | k
  · rw [hkey] at hitem
    rcases e <;> cases hitem
  · rw [hkey] at hitem
    obtain rfl := Except.ok.inj hitem
    exact ⟨item.2, rfl⟩

theorem Decodes.octets {data : HttpsData} {d : Decoded} (h : Decodes data d) :
    ∀ p ∈ d.extraParams, ∃ b, p.data = .octet b := by
  by_cases hfield : data.extraParams = []
  · rw [h.extraParams.eq_nil hfield]
    exact fun p hp => absurd hp List.not_mem_nil
  · exact octet_of_decodeSvcbParamList (h.extraParams.eq_ok hfield)

/-! ### What `clean` asks -/

section
variable {data : HttpsData} {c c' : Caches} {u : Unit}

theorem run_check {bad : Bool} {field message : Text} :
    run (check bad field message) c = (.ok u, c') ↔ bad = false ∧ c' = c := by
  unfold check
  rcases bad
  · simp [eq_comm]
  · simp

theorem run_check_and {a b : Bool} {field message : Text} :
    run (check (a && b) field message) c = (.ok u, c') ↔ (a = true → b = false) ∧ c' = c := by
  rw [run_check, Bool.and_eq_false_imp]

theorem textIn_eq_false {s t : Text} : textIn s t = false ↔ ¬ s <:+: t := decide_eq_false_iff_not

theorem run_decoded {α : Type} {field : Text} {x : Except PyErr α} {a : α} :
    run (decoded field x) c = (.ok a, c') ↔ x = .ok a ∧ c' = c := by
  unfold decoded
  rcases x with e | b
  · rcases e <;> simp
  · simp [eq_comm]

theorem run_checkMandatory {mandatory filled : Bool} {name field message : Text} :
    run (checkMandatory data mandatory filled name field message) c = (.ok u, c') ↔
      (mandatory = true → filled = true ∨ name <:+: data.extraParams) ∧ c' = c := by
  unfold checkMandatory
  rw [run_check]
  refine and_congr_left fun _ => ?_
  unfold textIn
  rcases mandatory <;> rcases filled <;> simp

theorem run_checkElsewhere {name message : Text} :
    run (checkElsewhere data name message) c = (.ok u, c') ↔ ¬ name <:+: data.extraParams ∧ c' = c := by
  unfold checkElsewhere textIn
  rw [run_check, decide_eq_false_iff_not]

theorem run_cleanField {α : Type} {field name fieldName elsewhere : Text}
    {decode : Text → Except PyErr (List α)} {put : List α → Caches → Caches} :
    run (cleanField data field name fieldName elsewhere decode put) c = (.ok u, c') ↔
      (field ≠ [] → ¬ name <:+: data.extraParams) ∧
        ∃ v, FieldIs decode field v ∧ c' = if field = [] then c else put v c := by
  unfold cleanField FieldIs
  by_cases hfield : field = []
  · simp [hfield, eq_comm]
  · simp only [if_pos hfield, if_neg hfield, run_bind_eq_ok, run_checkElsewhere, run_decoded, run_modify]
    constructor
    · rintro ⟨-, c1, ⟨hname, rfl⟩, v, c2, ⟨hv, rfl⟩, hmod⟩
      exact ⟨fun _ => hname, v, hv, (congrArg Prod.snd hmod).symm⟩
    · rintro ⟨hname, v, hv, rfl⟩
      exact ⟨(), c, ⟨hname hfield, rfl⟩, v, c, ⟨hv, rfl⟩, rfl⟩

theorem run_cleanExtraParams :
    run (cleanExtraParams data) c = (.ok u, c') ↔
      ∃ v, FieldIs decodeSvcbParamList data.extraParams v ∧
        c' = if data.extraParams = [] then c else c.putExtraParams v := by
  unfold cleanExtraParams FieldIs
  by_cases hfield : data.extraParams = []
  · simp [hfield, eq_comm]
  · simp only [if_pos hfield, if_neg hfield, run_bind_eq_ok, run_decoded, run_modify]
    constructor
    · rintro ⟨v, c1, ⟨hv, rfl⟩, hmod⟩
      exact ⟨v, hv, (congrArg Prod.snd hmod).symm⟩
    · rintro ⟨v, hv, rfl⟩
      exact ⟨v, c, ⟨hv, rfl⟩, rfl⟩

theorem decodeEch_eq_ok {t : Text} {v : Bytes} : decodeEch t = .ok v ↔ b64decode t = .ok v := by
  unfold decodeEch
  rcases b64decode t with e | b <;> simp [Except.mapError]

theorem fieldIs_decodeEch {field : Text} {v : Bytes} :
    FieldIs decodeEch field v ↔ FieldIs b64decode field v := by
  unfold FieldIs
  rw [decodeEch_eq_ok]

variable {d : Decoded}

/-- What `SVCBBaseRecord.clean` asks of a record whose fields decode to these values. -/
structure CleansBase (data : HttpsData) (d : Decoded) : Prop where
  decodes : Decodes data d
  alpnGiven : data.alpnMandatory = true → text data.alpns ≠ [] ∨ "alpn".toList <:+: data.extraParams
  alpnOnce : text data.alpns ≠ [] → ¬ "alpn".toList <:+: data.extraParams
  echGiven : data.echMandatory = true → text data.ech ≠ [] ∨ "ech".toList <:+: data.extraParams
  echOnce : text data.ech ≠ [] → ¬ "ech".toList <:+: data.extraParams
  protocolsGiven : data.noDefaultAlpn = true → text data.alpns ≠ [] ∨ "alpn".toList <:+: data.extraParams
  portGiven : data.targetPortMandatory = true →
    hasTargetPort data = true ∨ "port".toList <:+: data.extraParams
  portOnce : hasTargetPort data = true → ¬ "port".toList <:+: data.extraParams
  ipv4Given : data.ipv4HintsMandatory = true →
    data.ipv4Hints ≠ [] ∨ "ipv4hint".toList <:+: data.extraParams
  ipv4Once : data.ipv4Hints ≠ [] → ¬ "ipv4hint".toList <:+: data.extraParams
  ipv6Given : data.ipv6HintsMandatory = true →
    data.ipv6Hints ≠ [] ∨ "ipv6hint".toList <:+: data.extraParams
  ipv6Once : data.ipv6Hints ≠ [] → ¬ "ipv6hint".toList <:+: data.extraParams
  mandatoryOnce : (data.alpnMandatory || data.noDefaultAlpnMandatory || data.targetPortMandatory ||
    data.ipv4HintsMandatory || data.ipv6HintsMandatory) = true → ¬ "mandatory".toList <:+: data.extraParams
  schemeGiven : data.port.getD 0 ≠ 0 → text data.scheme ≠ []
  portSet : text data.scheme ≠ [] → data.port.getD 0 ≠ 0

/-- What `clean` asks of a record whose fields decode to these values. -/
structure Cleans (data : HttpsData) (d : Decoded) : Prop extends CleansBase data d where
  http2 : data.http2Support = true → h2 ∉ d.alpns ∧ ¬ "alpn".toList <:+: data.extraParams

/-- The caches after `clean`. -/
def cleanCaches (data : HttpsData) (d : Decoded) (c : Caches) : Caches where
  alpn := if text data.alpns = [] then c.alpn else some d.alpns
  ech := if text data.ech = [] then c.ech else some d.ech
  ipv4Hints := if data.ipv4Hints = [] then c.ipv4Hints else some d.ipv4Hints
  ipv6Hints := if data.ipv6Hints = [] then c.ipv6Hints else some d.ipv6Hints
  extraParams := if data.extraParams = [] then c.extraParams else some d.extraParams

/-- The caches as `clean` fills them one after the other. -/
theorem cleanCaches_eq (data : HttpsData) (d : Decoded) (c : Caches) :
    cleanCaches data d c =
      let c1 := if data.extraParams = [] then c else c.putExtraParams d.extraParams
      let c2 := if text data.alpns = [] then c1 else c1.putAlpn d.alpns
      let c3 := if text data.ech = [] then c2 else c2.putEch d.ech
      let c4 := if data.ipv4Hints = [] then c3 else c3.putIpv4Hints d.ipv4Hints
      if data.ipv6Hints = [] then c4 else c4.putIpv6Hints d.ipv6Hints := by
  unfold cleanCaches
  split_ifs <;> rfl

theorem run_raising {α : Type} {m : Exec Caches PyErr α} :
    run (raising m) c = match run m c with
      | (.ok a, c') => (.ok a, c')
      | (.error e, c') => (.error (.raised e), c') := by
  unfold raising run
  show StateT.run (Except.mapError CleanErr.raised <$> ExceptT.run m) c = _
  rw [StateT.run_map]
  rcases StateT.run (ExceptT.run m) c with ⟨e | a, c'⟩ <;> rfl

section
variable {α : Type} {cache : Caches → Option α} {put : α → Caches → Caches} {isFalse : Option α → Bool}
  {decode : Text → Except PyErr α} {field : Text}

theorem run_cachedProperty_kept (h : isFalse (cache c) = true → field = []) :
    run (cachedProperty cache put isFalse decode field) c = (.ok (cache c), c) := by
  have hnot : ¬ (isFalse (cache c) = true ∧ field ≠ []) := fun hc => hc.2 (h hc.1)
  unfold cachedProperty
  rw [run_bind_ok (run_get c), if_neg hnot]
  rfl

theorem run_cachedProperty_filled (h : isFalse (cache c) = true) (hfield : field ≠ []) {v : α}
    (hv : decode field = .ok v) :
    run (cachedProperty cache put isFalse decode field) c = (.ok (some v), put v c) := by
  unfold cachedProperty
  rw [run_bind_ok (run_get c), if_pos ⟨h, hfield⟩, run_bind_ok (run_ofResult _ c |>.trans (by rw [hv]))]
  rfl

end

theorem run_cleanHttp2 (hcache : c.alpn = if text data.alpns = [] then none else some d.alpns)
    (hd : FieldIs alpnFromStr (text data.alpns) d.alpns) :
    run (cleanHttp2 data) c = (.ok u, c') ↔
      (data.http2Support = true → h2 ∉ d.alpns ∧ ¬ "alpn".toList <:+: data.extraParams) ∧ c' = c := by
  have hread : ∃ a, run (alpnProperty data) c = (.ok a, c) ∧ a.getD [] = d.alpns := by
    refine ⟨c.alpn, run_cachedProperty_kept fun hfalse => ?_, ?_⟩
    · rw [hcache] at hfalse
      by_contra hfield
      rw [if_neg hfield] at hfalse
      cases hfalse
    · rw [hcache]
      split_ifs with hfield
      · exact (hd.eq_nil hfield).symm
      · rfl
  obtain ⟨a, hread, ha⟩ := hread
  unfold cleanHttp2
  by_cases hhttp2 : data.http2Support = true
  · rw [if_pos hhttp2, run_bind_ok (by rw [run_raising, hread]), ha]
    simp only [run_bind_eq_ok, run_check, run_checkElsewhere]
    simp [hhttp2, and_assoc]
  · rw [if_neg hhttp2]
    simp [hhttp2, eq_comm]

theorem run_cleanBase :
    run (cleanBase data) c = (.ok u, c') ↔ ∃ d, CleansBase data d ∧ c' = cleanCaches data d c := by
  unfold cleanBase
  simp only [run_bind_eq_ok, run_cleanExtraParams, run_checkMandatory, run_cleanField, run_check_and,
    fieldIs_decodeEch, exists_and_left, exists_eq_left, and_assoc, exists_const, decide_eq_true_eq,
    decide_eq_false_iff_not, textIn_eq_false]
  constructor
  · rintro ⟨-, ⟨extra, hextra, rfl⟩, h1, h2, -, ⟨alpns, halpns, rfl⟩, h3, h4, -, ⟨ech, hech, rfl⟩, h5, h6, h7, h8,
      -, ⟨ipv4, hipv4, rfl⟩, h9, h10, -, ⟨ipv6, hipv6, rfl⟩, h11, h12, h13, h14, rfl⟩
    exact ⟨⟨alpns, ech, ipv4, ipv6, extra⟩, ⟨⟨halpns, hech, hipv4, hipv6, hextra⟩, h1, h2, h3, h4, h5, h6, h11, h7,
      h8, h9, h10, h12, h13, h14⟩, (cleanCaches_eq data ⟨alpns, ech, ipv4, ipv6, extra⟩ c).symm⟩
  · rintro ⟨d, hd, rfl⟩
    exact ⟨_, ⟨d.extraParams, hd.decodes.extraParams, rfl⟩, hd.alpnGiven, hd.alpnOnce, _,
      ⟨d.alpns, hd.decodes.alpns, rfl⟩, hd.echGiven, hd.echOnce, _, ⟨d.ech, hd.decodes.ech, rfl⟩,
      hd.protocolsGiven, hd.portGiven, hd.ipv4Given, hd.ipv4Once, _,
      ⟨d.ipv4Hints, hd.decodes.ipv4Hints, rfl⟩, hd.ipv6Given, hd.ipv6Once, _,
      ⟨d.ipv6Hints, hd.decodes.ipv6Hints, rfl⟩, hd.portOnce, hd.mandatoryOnce, hd.schemeGiven, hd.portSet,
      cleanCaches_eq data d c⟩

/-- **What passes `clean`**, and the caches after it. -/
theorem run_clean (hc : text data.alpns = [] → c.alpn = none) :
    run (clean data) c = (.ok u, c') ↔ ∃ d, Cleans data d ∧ c' = cleanCaches data d c := by
  have hcache : ∀ d, (cleanCaches data d c).alpn = if text data.alpns = [] then none else some d.alpns := by
    intro d
    show (if text data.alpns = [] then c.alpn else some d.alpns) = _
    split_ifs with hfield
    · exact hc hfield
    · rfl
  unfold clean
  rw [run_bind_eq_ok]
  constructor
  · rintro ⟨u1, c1, hbase, hhttp2⟩
    obtain ⟨d, hd, rfl⟩ := run_cleanBase.mp hbase
    obtain ⟨honce, rfl⟩ := (run_cleanHttp2 (hcache d) hd.decodes.alpns).mp hhttp2
    exact ⟨d, ⟨hd, honce⟩, rfl⟩
  · rintro ⟨d, hd, rfl⟩
    exact ⟨(), _, run_cleanBase.mpr ⟨d, hd.toCleansBase, rfl⟩,
      (run_cleanHttp2 (hcache d) hd.decodes.alpns).mpr ⟨hd.http2, rfl⟩⟩

theorem passesClean_iff : PassesClean data ↔ ∃ d, Cleans data d := by
  have hrun := @run_clean data Caches.empty
  unfold PassesClean
  constructor
  · intro h
    obtain ⟨d, hd, -⟩ := (hrun fun _ => rfl).mp (Prod.ext h rfl)
    exact ⟨d, hd⟩
  · rintro ⟨d, hd⟩
    exact congrArg Prod.fst ((@hrun _ () fun _ => rfl).mpr ⟨d, hd, rfl⟩)

end

end HexDns.Svcb.Https
