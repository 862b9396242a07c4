import HexDns.Models.Convert

/-! # Import of a zone file

`DNSZone.import_zone_file`: the records of a zone file are saved one after the other in a transaction,
after the rows of nine models are deleted if the import overwrites. These are deleted by a query, which
does not call `delete` of the models: there are tasks for the saves only. -/

namespace HexDns.Models.ImportZone

open HexDns.Lib.Texts HexDns.Lib.Tables HexDns.Lib.Programs HexDns.Base.Py HexDns.Base.Label
  HexDns.Base.Message HexDns.Models.Db HexDns.Models.Env HexDns.Models.Convert

/-- `transaction.atomic()`: an exception takes back what was written to the rows, but not the tasks that
were put into the queue. -/
def atomic (m : Exec Store PyErr Unit) : Exec Store PyErr Unit :=
  ExceptT.mk fun st =>
    match run m st with
    | (.ok (), st') => (.ok (), st')
    | (.error e, st') => (.error e, { st with queue := st'.queue })

/-- The rows of which `p` holds are deleted by a query. -/
def deleteSet (p : Row → Bool) (st : Store) : Store :=
  { st with
    records := st.records.erasing p
    journal := st.journal ++ (st.records.rows.filter p).map .delete }

/-- The models whose rows an import deletes that overwrites. -/
def overwrittenModels : List Model := [.address, .cname, .mx, .ns, .txt, .srv, .caa, .naptr, .dnskey]

/-- The columns of `from_rr`, for the types that are imported. -/
def importColumns : QType → Option (Rr → Except PyErr RecordData)
  | .a | .aaaa => some (addressColumns true)
  | .cname => some cnameColumns
  | .mx => some mxColumns
  | .ns => some nsColumns
  | .txt => some txtColumns
  | .srv => some srvColumns
  | .caa => some caaColumns
  | .naptr => some naptrColumns
  | .dnskey => some dnskeyColumns
  | _ => none

section
variable (h : Host)

/-- One record of the zone file. -/
def importRr (self : Zone) (record : Rr) : Exec Store PyErr Unit :=
  if record.rclass ≠ .in then pure ()
  else
    match importColumns record.rtype with
    | none => pure ()
    | some columns => do
      let st ← get
      let r ← ofResult (fromRr h columns record self st.records.next)
      if record.rtype = .cname then
        modify (deleteSet fun x => x.zone = self.id && x.model = .cname && x.recordName = r.recordName)
      else pure ()
      saveRow h (if r.ttl ≤ 1 then { r with ttl := 3600 } else r)

/-- `list(dnslib.ZoneParser(zone_data, origin=suffix))` -/
abbrev ZoneParser := Text → DnsLabel → Except PyErr (List Rr)

/-- `except (dnslib.DNSError, ValueError, IndexError)` -/
def invalidZoneFile : PyErr → PyErr
  | .dnsError | .bufferError | .valueError | .unicodeError | .indexError => .valueError
  | e => e

/-- `import_zone_file` -/
def importZoneFile (parser : ZoneParser) (self : Zone) (zoneData : Text) (overwrite : Bool) :
    Exec Store PyErr Unit := do
  let suffix ← ofResult (DnsLabel.ofText h.py self.zoneRoot)
  let records ← ofResult ((parser zoneData suffix).mapError invalidZoneFile)
  atomic do
    if overwrite then
      modify (deleteSet fun x => x.zone = self.id && overwrittenModels.contains x.model)
    else pure ()
    runAll (importRr h self) records

end

end HexDns.Models.ImportZone
