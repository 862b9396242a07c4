import HexDns.Models.Validators
import HexDns.Tasks.Addresses
import HexDns.Tasks.Frame
import HexDns.Tasks.Lines
import HexDns.Tasks.Quoting

/-! # Rows in a zone file

A zone file is the lines of its header and of its rows, and each text of a row stands on a line without
quotes. If the texts end the lines that they stand on, the file has the records of the header and of the
rows one by one (`isolated_of_clean`). The validators do not see to it: a public key may go on after its
padding with lines of its own (`not_isolated_injected`). -/

namespace HexDns.Tasks.Isolation

open HexDns.Lib.Texts HexDns.Lib.MasterFile HexDns.Lib.Tables HexDns.Lib.Programs HexDns.Base.Py
  HexDns.Base.Codecs HexDns.Base.Label HexDns.Base.Message HexDns.Models.Db HexDns.Models.Env
  HexDns.Models.Convert HexDns.Models.Names HexDns.Models.Validators HexDns.Tasks.ZoneFile
  HexDns.Tasks.Addresses HexDns.Tasks.Frame HexDns.Tasks.Lines HexDns.Tasks.Quoting

/-! ### What a row is to contribute -/

/-- The types of the records that a class stands for. -/
def typesOf : Model → List QType
  | .address | .dynamicAddress | .aname | .githubPages => [.a, .aaaa]
  | .cname => [.cname]
  | .redirect => [.a, .aaaa, .caa]
  | .mx => [.mx]
  | .ns => [.ns]
  | .txt => [.txt]
  | .srv => [.srv]
  | .caa => [.caa]
  | .naptr => [.naptr]
  | .sshfp => [.sshfp]
  | .ds => [.ds]
  | .dnskey => [.dnskey]
  | .loc => [.loc]
  | .hinfo => [.hinfo]
  | .rp => [.rp]
  | .https => [.https]
  | .dhcid => [.dhcid]

/-- The classes that the quoting of texts or other rows matter to. -/
def isQuoted : Model → Bool
  | .txt | .caa | .hinfo | .naptr | .aname => true
  | _ => false

section
variable (h : Host)

/-- The label of a row: that of its name, after the port and the scheme of an HTTPS row that has others
than its own. -/
def ownLabel (self : Row) : Option Text :=
  match self.data with
  | .https data =>
    if (data.port = some 443 ∧ data.scheme = some "https".toList) ∨
        ((data.port = none ∨ data.port = some 0) ∧ (data.scheme = none ∨ data.scheme = some [])) then
      idnaLabel h self.recordName
    else (idnaLabel h self.recordName).bind fun _ => svcbRecordName h self.recordName data
  | _ => idnaLabel h self.recordName

/-- The name of a row: the root of the zone, or its label under it. -/
def ownName (zone : Zone) (zoneRoot : DnsLabel) (self : Row) : Option DnsLabel :=
  (ownLabel h self).bind fun label =>
    if label = ['@'] then some zoneRoot
    else (DnsLabel.ofText h.py (label ++ '.' :: zone.zoneRoot)).toOption

/-- The records of what `generate_fzone` adds for a row, read alone. -/
def rowRecords (st : Store) (zone : Zone) (zoneRoot : DnsLabel) (self : Row) : List Record :=
  ((rowText h st zone zoneRoot self).toOption.bind (records zoneRoot.label)).getD []

/-- The record is of a type of the class of the row, at the name of the row. -/
def IsOf (zone : Zone) (zoneRoot : DnsLabel) (self : Row) (record : Record) : Prop :=
  (∃ t ∈ typesOf self.model, record.rtype = encode (rtypeText t)) ∧
    ∃ own, ownName h zone zoneRoot self = some own ∧ own.Eqv ⟨record.owner⟩

/-- **Row isolation**: the zone file has the records of its header and of the rows one by one. Those of a
row are its own, so that a row without a label has none, and whatever other rows there are. -/
def Isolated (st : Store) (time : ℕ) (zone : Zone) : Prop :=
  ∃ zoneRoot header text rs, DnsLabel.ofText h.py zone.zoneRoot = .ok zoneRoot ∧
    generateZoneHeader h st time zone zoneRoot = .ok header ∧ records [] header = some rs ∧
    generateFzone h st time zone = .ok text ∧
    records [] text = some (rs ++ (publishedModels.flatMap (rowsOf st zone)).flatMap
      (rowRecords h st zone zoneRoot)) ∧
    ∀ r ∈ publishedModels.flatMap (rowsOf st zone),
      (∀ record ∈ rowRecords h st zone zoneRoot r, IsOf h zone zoneRoot r record) ∧
      ∀ st', rowRecords h st' zone zoneRoot r = rowRecords h st zone zoneRoot r

/-! ### The condition on the rows -/

/-- The text ends the line that it stands on, and no records follow. -/
def EndsLine (origin : List Bytes) (t : Text) : Prop := ∃ ks, Closes origin t ks []

/-- The text is a name that is printed so that it ends the line. -/
def EndsName (origin : List Bytes) (t : Text) : Prop :=
  ∃ l, DnsLabel.ofText h.py t = .ok l ∧ EndsLine origin l.toText

/-- The texts of a row that stand on a line without quotes end it, and what is packed, parsed or made a
name of can be. -/
def CleanData (zoneRoot : DnsLabel) : RecordData → Prop
  | .address address _ => address.isSome = true
  | .cname aliasName => ∃ target, cnameTarget h zoneRoot aliasName = .ok target ∧
      ∀ l, target = some l → EndsLine zoneRoot.label l.toText
  | .mx exchange _ => EndsName h zoneRoot.label exchange
  | .ns nameserver => EndsName h zoneRoot.label nameserver
  | .srv _ _ _ target => EndsName h zoneRoot.label target
  | .sshfp hostKey => ∃ key, h.sshKey hostKey = .ok key
  | .ds _ _ _ digest => EndsLine zoneRoot.label digest
  | .dnskey _ _ _ publicKey => ∃ t, publicKey = .str t ∧ EndsLine zoneRoot.label t
  | .loc latitude longitude altitude size hp vp =>
    EndsLine zoneRoot.label ([' '].intercalate (locWords h latitude longitude altitude size hp vp))
  | .rp mailbox txt => ∃ l l', DnsLabel.ofText h.py mailbox = .ok l ∧ DnsLabel.ofText h.py txt = .ok l' ∧
      EndsLine zoneRoot.label ([' '].intercalate [l.toText, l'.toText])
  | .https data => ∃ l target params, DnsLabel.ofText h.py data.target = .ok l ∧
      h.encodeName l = .ok target ∧ h.svcbParams data = .ok params
  | _ => True

/-- The owner is written as a word that is read as the name of the row. -/
def CleanOwner (zone : Zone) (zoneRoot : DnsLabel) (self : Row) (owner : Text) : Prop :=
  ∃ o labels own, Spells owner o ∧ NoDirective o ∧ readName zoneRoot.label o = some labels ∧
    ownName h zone zoneRoot self = some own ∧ own.Eqv ⟨labels⟩

/-- A row is not written, or its owner and its texts are clean. -/
def CleanRow (zone : Zone) (zoneRoot : DnsLabel) (self : Row) : Prop :=
  ∀ owner, ownerText h self = some owner →
    CleanOwner h zone zoneRoot self owner ∧ CleanData h zoneRoot self.data

/-- **The condition on the rows of a zone**, those of its header included. -/
structure Clean (st : Store) (zone : Zone) (zoneRoot : DnsLabel) : Prop where
  root : DnsLabel.ofText h.py zone.zoneRoot = .ok zoneRoot
  head : HasHead zoneRoot.label
  bytes : ∀ m ∈ zoneRoot.label, ∀ b ∈ m, CleanByte b
  valid : validLabels zoneRoot.label = true
  digest : zone.cdsDisable = false → ∃ name, h.encodeName zoneRoot = .ok name
  customNs : ∀ ns ∈ st.customNs, ns.dnsZone = zone.id → ∃ l k,
    DnsLabel.ofText h.py ns.nameserver = .ok l ∧ Spells l.toText k
  additionalCds : zone.cdsDisable = false → ∀ cds ∈ st.additionalCds, cds.dnsZone = zone.id →
    EndsLine zoneRoot.label cds.digest
  additionalCdnskey : zone.cdsDisable = false → ∀ cdnskey ∈ st.additionalCdnskey,
    cdnskey.dnsZone = zone.id → EndsLine zoneRoot.label cdnskey.publicKey
  rows : ∀ r ∈ st.records, r.zone = zone.id → isQuoted r.model = false → CleanRow h zone zoneRoot r

end

/-! ### Texts that end a line -/

section
variable {origin : List Bytes}

theorem endsLine_plain {t : Text} (ht : ∀ c ∈ t, Lexer.isSpecial c = false) : EndsLine origin t :=
  closes_plain origin ht

theorem endsLine_words {ts : List Text} {ks : List Token} (h : List.Forall₂ Spells ts ks) :
    EndsLine origin ([' '].intercalate ts) := ⟨ks, closes_words h⟩

theorem EndsLine.after {t : Text} (ht : EndsLine origin t) {ts : List Text} {ks : List Token}
    (h : List.Forall₂ Spells ts ks) (hne : ts ≠ []) :
    EndsLine origin ([' '].intercalate (ts ++ [t])) := by
  obtain ⟨ks', hclose⟩ := ht
  rw [intercalate_append hne (by simp), List.intercalate_singleton]
  exact ⟨_, hclose.after h hne⟩

theorem spells_showInt (n : ℤ) : Spells (showInt n) (plainToken (showInt n)) :=
  spells_plain (isPlain_showInt n)

theorem isSpecial_ipv4Text (a : BitVec 32) : ∀ c ∈ ipv4Text a, Lexer.isSpecial c = false := by
  intro c hc
  rcases mem_of_mem_intercalate hc with hc | ⟨t, ht, hc⟩
  · rw [List.mem_singleton.mp hc]
    decide
  · obtain ⟨i, -, rfl⟩ := List.mem_map.mp ht
    exact (isPlain_showNat _).2 c hc

theorem isSpecial_toDigits (n : ℕ) : ∀ c ∈ Nat.toDigits 16 n, Lexer.isSpecial c = false := by
  induction n using Nat.strongRecOn with
  | ind n ih =>
    rw [Nat.toDigits_eq_if (by omega)]
    split_ifs with hn
    · intro c hc
      rw [List.mem_singleton.mp hc]
      exact isSpecial_hex n hn
    · intro c hc
      rcases List.mem_append.mp hc with hc | hc
      · exact ih (n / 16) (by omega) c hc
      · rw [List.mem_singleton.mp hc]
        exact isSpecial_hex (n % 16) (by omega)

theorem isSpecial_ipv6Text (a : BitVec 128) : ∀ c ∈ ipv6Text a, Lexer.isSpecial c = false := by
  intro c hc
  rcases mem_of_mem_intercalate hc with hc | ⟨t, ht, hc⟩
  · rw [List.mem_singleton.mp hc]
    decide
  · rcases mem_compressHextets ht with rfl | ⟨n, rfl⟩
    · cases hc
    · exact isSpecial_toDigits n c hc

theorem endsLine_address (a : IpAddr) : EndsLine origin (Field.text (.address a)) := by
  rcases a with a | a
  · exact endsLine_plain (isSpecial_ipv4Text a)
  · exact endsLine_plain (isSpecial_ipv6Text a)

theorem spells_hash : Spells "\\#".toList ⟨false, [⟨35, true⟩]⟩ := by
  intro s hs c hc
  have hword : ({ s with mode := .escape false [] } : Lexer).step '#' =
      some { (s.push true [35]) with mode := .word } := rfl
  show s.lex ['\\', '#', c] = _
  rw [Lexer.lex_cons, Lexer.Open.step_backslash (Or.inl hs), Option.bind_some, Lexer.lex_cons, hword,
    Option.bind_some, Lexer.lex_singleton, Lexer.step_word_end rfl hc]
  congr 1
  simp [Lexer.endToken, Lexer.push, Lexer.add, hs.2]

end

/-! ### The lines of a row -/

section
variable {h : Host} {st : Store} {zone : Zone} {zoneRoot : DnsLabel} {self : Row}

theorem rtypeText_ne_nil {m : Model} {t : QType} (ht : t ∈ typesOf m) : rtypeText t ≠ [] := by
  revert ht
  cases m <;> simp only [typesOf, List.mem_cons, List.not_mem_nil, or_false] <;>
    (intro ht; rcases ht with rfl | rfl | rfl) <;> decide

/-- The rdata of a record that is written. -/
def rdataText (record : Published) : Text := [' '].intercalate (record.2.map Field.text)

/-- The records are of the types of a model, and their rdata end their lines. -/
def CleanRecords (m : Model) (zoneRoot : DnsLabel) (records : List Published) : Prop :=
  ∀ record ∈ records, record.1 ∈ typesOf m ∧ EndsLine zoneRoot.label (rdataText record)

theorem cleanRecords_one {m : Model} {record : Published} (ht : typesOf m = [record.1])
    (hends : EndsLine zoneRoot.label (rdataText record)) : CleanRecords m zoneRoot [record] := by
  intro record' hmem
  obtain rfl := List.mem_singleton.mp hmem
  exact ⟨by rw [ht]; exact List.mem_singleton_self _, hends⟩

theorem endsLine_addressRdata (origin : List Bytes) (a : IpAddr) :
    EndsLine origin (rdataText (addressRdata a)) := by
  rcases a with a | a
  · have hends : EndsLine origin (Field.text (.address (.v4 a))) := endsLine_address (.v4 a)
    simpa [rdataText, addressRdata] using hends
  · have hends : EndsLine origin (Field.text (.address (.v6 a))) := endsLine_address (.v6 a)
    simpa [rdataText, addressRdata] using hends

theorem cleanRecords_redirect : CleanRecords .redirect zoneRoot redirectRecords := by
  have hcaa : ∀ tag value : Text, IsPlain tag → '\\' ∉ value →
      EndsLine zoneRoot.label (rdataText (.caa, [.num 0, .word tag, .str value])) := by
    intro tag value htag hvalue
    have hwords : List.Forall₂ Spells [showInt 0, tag, quoted value]
        [plainToken (showInt 0), plainToken tag, stringToken value] :=
      .cons (spells_showInt 0) (.cons (spells_plain htag) (.cons (reads_quoted hvalue).spells .nil))
    exact endsLine_words hwords
  intro record hmem
  simp only [redirectRecords, List.mem_cons, List.not_mem_nil, or_false] at hmem
  rcases hmem with rfl | rfl | rfl | rfl | rfl
  · exact ⟨by decide, endsLine_addressRdata _ (ipv4 45 129 95 254)⟩
  · exact ⟨by decide, endsLine_addressRdata _ (.v6 _)⟩
  · exact ⟨by decide, hcaa _ _ (by decide) (by decide)⟩
  · exact ⟨by decide, hcaa _ _ (by decide) (by decide)⟩
  · exact ⟨by decide, hcaa _ _ (by decide) (by decide)⟩

theorem cleanRecords_addresses {m : Model} (hm : typesOf m = [.a, .aaaa]) (l : List IpAddr) :
    CleanRecords m zoneRoot (l.map addressRdata) := by
  intro record hmem
  obtain ⟨a, -, rfl⟩ := List.mem_map.mp hmem
  refine ⟨?_, endsLine_addressRdata _ a⟩
  rw [hm]
  rcases a with a | a <;> simp [addressRdata]

/-- One record of numbers and a text that ends the line. -/
theorem endsLine_nums {origin : List Bytes} (ns : List ℤ) {f : Field} (hends : EndsLine origin f.text) :
    EndsLine origin ([' '].intercalate ((ns.map Field.num ++ [f]).map Field.text)) := by
  have htexts : (ns.map Field.num ++ [f]).map Field.text = ns.map showInt ++ [f.text] := by
    rw [List.map_append, List.map_map]
    rfl
  rw [htexts]
  rcases ns with _ | ⟨n, ns⟩
  · simpa using hends
  · have hwords : ∀ l : List ℤ, List.Forall₂ Spells (l.map showInt) (l.map fun n => plainToken (showInt n)) := by
      intro l
      induction l with
      | nil => exact .nil
      | cons n l ih => exact .cons (spells_showInt n) ih
    exact hends.after (hwords (n :: ns)) (by simp)

/-- **A row with clean data** is not written, or as records of its types, each of which ends its
line. -/
theorem published_clean (hq : isQuoted self.model = false) (hc : CleanData h zoneRoot self.data) :
    published h st zone zoneRoot self = .ok none ∨ ∃ records,
      published h st zone zoneRoot self = .ok (some records) ∧
        CleanRecords self.model zoneRoot records := by
  obtain ⟨id, z, recordName, ttl, data⟩ := self
  rcases data with ⟨_ | a, _⟩ | ⟨a, b, _⟩ | _ | aliasName | _ | ⟨exchange, priority⟩ | nameserver | _ |
    ⟨priority, weight, port, target⟩ | _ | _ | hostKey | ⟨keyTag, algorithm, digestType, digest⟩ |
    ⟨flags, protocol, algorithm, publicKey⟩ | ⟨latitude, longitude, altitude, size, hp, vp⟩ | _ |
    ⟨mailbox, txt⟩ | data | data | _
  · cases hc
  · exact Or.inr ⟨_, rfl, cleanRecords_addresses rfl [a]⟩
  · refine Or.inr ⟨_, rfl, ?_⟩
    have haddresses : CleanRecords .dynamicAddress zoneRoot
        (((a.map IpAddr.v4).toList ++ (b.map IpAddr.v6).toList).map addressRdata) :=
      cleanRecords_addresses rfl _
    rcases a with _ | a <;> rcases b with _ | b <;> exact haddresses
  · cases hq
  · obtain ⟨target, htarget, hends⟩ := hc
    rcases target with _ | l
    · left
      show (cnameTarget h zoneRoot aliasName >>= _) = _
      rw [htarget]
      rfl
    · right
      refine ⟨[(.cname, [.name l])], ?_, cleanRecords_one rfl ?_⟩
      · show (cnameTarget h zoneRoot aliasName >>= _) = _
        rw [htarget]
        rfl
      · exact endsLine_nums [] (f := .name l) (hends l rfl)
  · exact Or.inr ⟨_, rfl, cleanRecords_redirect⟩
  · obtain ⟨l, hl, hends⟩ := hc
    right
    refine ⟨[(.mx, [.num priority, .name l])], ?_, cleanRecords_one rfl ?_⟩
    · show (DnsLabel.ofText h.py exchange >>= _) = _
      rw [hl]
      rfl
    · exact endsLine_nums [(priority : ℤ)] (f := .name l) hends
  · obtain ⟨l, hl, hends⟩ := hc
    right
    refine ⟨[(.ns, [.name l])], ?_, cleanRecords_one rfl ?_⟩
    · show (DnsLabel.ofText h.py nameserver >>= _) = _
      rw [hl]
      rfl
    · exact endsLine_nums [] (f := .name l) hends
  · cases hq
  · obtain ⟨l, hl, hends⟩ := hc
    right
    refine ⟨[(.srv, [.num priority, .num weight, .num port, .name l])], ?_, cleanRecords_one rfl ?_⟩
    · show (DnsLabel.ofText h.py target >>= _) = _
      rw [hl]
      rfl
    · exact endsLine_nums [(priority : ℤ), weight, port] (f := .name l) hends
  · cases hq
  · cases hq
  · obtain ⟨⟨keyType, decodedKey⟩, hkey⟩ := hc
    rcases hn : sshAlgoNum keyType with _ | n
    · left
      show (h.sshKey hostKey >>= _) = _
      rw [hkey]
      show Except.ok (Option.map _ (sshAlgoNum keyType >>= _)) = _
      rw [hn]
      rfl
    · right
      refine ⟨[(.sshfp, [.num n, .num 1, .word (hexlify (h.sha1 decodedKey))]),
        (.sshfp, [.num n, .num 2, .word (hexlify (h.sha256 decodedKey))])], ?_, ?_⟩
      · show (h.sshKey hostKey >>= _) = _
        rw [hkey]
        show Except.ok (Option.map _ (sshAlgoNum keyType >>= _)) = _
        rw [hn]
        rfl
      · intro record hmem
        rcases List.mem_pair.mp hmem with rfl | rfl
        · exact ⟨List.mem_singleton_self _, endsLine_nums [(n : ℤ), 1] (f := .word _)
            (endsLine_plain (isSpecial_hexlify _))⟩
        · exact ⟨List.mem_singleton_self _, endsLine_nums [(n : ℤ), 2] (f := .word _)
            (endsLine_plain (isSpecial_hexlify _))⟩
  · exact Or.inr ⟨_, rfl, cleanRecords_one rfl
      (endsLine_nums [(keyTag : ℤ), algorithm, digestType] (f := .word digest) hc)⟩
  · obtain ⟨t, rfl, hends⟩ := hc
    exact Or.inr ⟨_, rfl, cleanRecords_one rfl
      (endsLine_nums [(flags : ℤ), protocol, algorithm] (f := .word t) hends)⟩
  · refine Or.inr ⟨_, rfl, cleanRecords_one rfl ?_⟩
    have hmap : ∀ ws : List Text, (ws.map Field.word).map Field.text = ws := by
      intro ws
      rw [List.map_map]
      exact List.map_id ws
    show EndsLine _ ([' '].intercalate (((locWords h latitude longitude altitude size hp vp).map
      Field.word).map Field.text))
    rw [hmap]
    exact hc
  · cases hq
  · obtain ⟨l, l', hl, hl', hends⟩ := hc
    right
    refine ⟨[(.rp, [.name l, .name l'])], ?_, cleanRecords_one rfl hends⟩
    show (DnsLabel.ofText h.py mailbox >>= _) = _
    rw [hl]
    show (DnsLabel.ofText h.py txt >>= _) = _
    rw [hl']
    rfl
  · obtain ⟨l, target, params, hl, htarget, hparams⟩ := hc
    right
    let packed := packUint 2 data.priority ++ target ++ params
    refine ⟨[(.https, [.word "\\#".toList, .num packed.length, .word (hexlify packed)])], ?_,
      cleanRecords_one rfl ?_⟩
    · show (DnsLabel.ofText h.py data.target >>= _) = _
      rw [hl]
      show (h.encodeName l >>= _) = _
      rw [htarget]
      show (h.svcbParams data >>= _) = _
      rw [hparams]
      rfl
    · have hwords : List.Forall₂ Spells ["\\#".toList, showInt packed.length]
          [⟨false, [⟨35, true⟩]⟩, plainToken (showInt packed.length)] :=
        .cons spells_hash (.cons (spells_showInt _) .nil)
      exact (endsLine_plain (isSpecial_hexlify packed)).after hwords (by simp)
  · exact Or.inr ⟨_, rfl, cleanRecords_one rfl (endsLine_nums [] (f := .word (b64encode data))
      (endsLine_plain (isSpecial_b64encode data)))⟩
  · exact Or.inr ⟨_, rfl, cleanRecords_addresses rfl githubAddresses⟩

theorem gives_rowComment {origin : List Bytes} (m : Model) (n : ℕ) :
    Gives origin (line ["; ".toList, comment m, " record ".toList, showNat n]) [] := by
  have hline : line ["; ".toList, comment m, " record ".toList, showNat n] =
      line [';' :: (' ' :: comment m ++ " record ".toList), showNat n] := by
    simp [line]
  have hm : '\n' ∉ ' ' :: comment m ++ " record ".toList := by
    cases m <;> decide
  rw [hline]
  exact gives_commentLine hm n

/-- **A row that is clean** gives records that are its own. -/
theorem givesOnly_rowText (hq : isQuoted self.model = false) (hc : CleanRow h zone zoneRoot self) :
    ∃ t, rowText h st zone zoneRoot self = .ok t ∧
      GivesOnly zoneRoot.label (IsOf h zone zoneRoot self) t := by
  unfold rowText
  rcases howner : ownerText h self with _ | owner
  · exact ⟨[], rfl, [], gives_nil, fun r hr => absurd hr List.not_mem_nil⟩
  obtain ⟨⟨o, labels, own, hspells, hnodir, hread, hown, heqv⟩, hdata⟩ := hc owner howner
  rcases published_clean hq hdata with hnone | ⟨records, hrecords, hlines⟩
  · rw [hnone]
    exact ⟨[], rfl, [], gives_nil, fun r hr => absurd hr List.not_mem_nil⟩
  rw [hrecords]
  refine ⟨_, rfl, GivesOnly.append ?_ (givesOnly_flatMap fun record hmem => ?_)⟩
  · exact ⟨[], gives_rowComment self.model self.id, fun r hr => absurd hr List.not_mem_nil⟩
  · obtain ⟨htype, ks, hclose⟩ := hlines record hmem
    refine ⟨_, gives_recordLine hspells hnodir hread self.ttl (isPlain_rtypeText (rtypeText_ne_nil htype))
      hclose, fun r hr => ?_⟩
    obtain rfl := List.mem_singleton.mp hr
    exact ⟨⟨record.1, htype, rfl⟩, own, hown, heqv⟩

theorem rowRecords_eq {t : Text} {rs : List Record} (ht : rowText h st zone zoneRoot self = .ok t)
    (hgives : Gives zoneRoot.label t rs) : rowRecords h st zone zoneRoot self = rs := by
  unfold rowRecords
  rw [ht]
  show (records _ t).getD [] = rs
  rw [hgives.records]
  rfl

/-- The other rows do not matter. -/
theorem rowRecords_congr (hq : isQuoted self.model = false) (st' : Store) :
    rowRecords h st' zone zoneRoot self = rowRecords h st zone zoneRoot self := by
  have hpublished : published h st' zone zoneRoot self = published h st zone zoneRoot self := by
    obtain ⟨id, z, recordName, ttl, data⟩ := self
    rcases data with ⟨_ | a, _⟩ | _ | _ | _ | _ | _ | _ | _ | _ | _ | _ | _ | _ | _ | _ | _ | _ | _ | _ | _
    case aname => cases hq
    all_goals rfl
  unfold rowRecords rowText
  rw [hpublished]

/-! ### The header -/

section
variable {customNs : List CustomNs}

/-- A name server that is printed as a word. -/
def IsWritten (h : Host) (ns : CustomNs) : Prop :=
  ∃ l k, DnsLabel.ofText h.py ns.nameserver = .ok l ∧ Spells l.toText k

theorem labelText_written {ns : CustomNs} (hns : IsWritten h ns) :
    ∃ t, labelText h ns.nameserver = .ok t ∧ ∃ k, Spells t k := by
  obtain ⟨l, k, hl, hspells⟩ := hns
  refine ⟨l.toText, ?_, k, hspells⟩
  unfold labelText
  rw [hl]
  rfl

theorem primaryNs_written (hns : ∀ ns ∈ customNs, IsWritten h ns) :
    ∃ t, primaryNs h customNs = .ok t ∧ ∃ k, Spells t k := by
  unfold primaryNs
  split
  · rename_i ns hhead
    have hmem : ns ∈ customNs := (List.mem_insertionSort _).mp (List.mem_of_head? hhead)
    exact labelText_written (hns ns hmem)
  · exact ⟨nameservers.headD [], rfl, plainToken (nameservers.headD []), spells_plain (by decide)⟩

theorem headerNs_written (hns : ∀ ns ∈ customNs, IsWritten h ns) :
    ∃ ts, headerNs h customNs = .ok ts ∧ ∀ t ∈ ts, ∃ k, Spells t k := by
  unfold headerNs
  split_ifs with hnone
  · refine ⟨_, rfl, fun t ht => ⟨plainToken t, spells_plain ?_⟩⟩
    revert t ht
    decide
  · exact exists_mapM fun ns hmem => labelText_written (hns ns hmem)

end

/-- The types of the records of a header. -/
def headerTypes : List Bytes := encode "SOA".toList :: encode "NS".toList :: cdsTypes

/-- **The header** sets the origin, and gives records of its types after it. -/
theorem gives_header (hvalid : validLabels zoneRoot.label = true)
    (hdigest : zone.cdsDisable = false → ∃ name, h.encodeName zoneRoot = .ok name)
    (hns : ∀ ns ∈ st.customNs, ns.dnsZone = zone.id → IsWritten h ns)
    (hcds : zone.cdsDisable = false → ∀ cds ∈ st.additionalCds, cds.dnsZone = zone.id →
      EndsLine zoneRoot.label cds.digest)
    (hkey : zone.cdsDisable = false → ∀ cdnskey ∈ st.additionalCdnskey, cdnskey.dnsZone = zone.id →
      EndsLine zoneRoot.label cdnskey.publicKey) (time : ℕ) : ∃ rest rs,
    generateZoneHeader h st time zone zoneRoot =
      .ok (line ["$ORIGIN ".toList, zoneRoot.toText] ++ rest) ∧ Gives zoneRoot.label rest rs ∧
        ∀ r ∈ rs, r.rtype ∈ headerTypes := by
  have hns : ∀ ns ∈ st.customNs.rows.filter fun ns => ns.dnsZone = zone.id, IsWritten h ns := by
    intro ns hmem
    obtain ⟨hmem, hz⟩ := List.mem_filter.mp hmem
    exact hns ns hmem (by simpa using hz)
  obtain ⟨primary, hprimary, k, hk⟩ := primaryNs_written hns
  obtain ⟨servers, hservers, hwords⟩ := headerNs_written hns
  have hread : readName zoneRoot.label (plainToken ['@']) = some zoneRoot.label := by
    rw [readName_at]
    simp [hvalid]
  obtain ⟨cds, hcdsText, hgives⟩ : ∃ t, cdsText h st zone zoneRoot ['@'] = .ok t ∧
      GivesOnly zoneRoot.label (fun r => r.rtype ∈ headerTypes) t :=
    givesOnly_cdsText spells_at noDirective_at hread
      (fun _ _ htype => List.mem_cons_of_mem _ (List.mem_cons_of_mem _ htype)) hdigest
      (fun hdis row hmem hz =>
        (hcds hdis row hmem hz).imp fun ks hends => ⟨[], hends, fun r hr => (nomatch hr)⟩)
      (fun hdis row hmem hz =>
        (hkey hdis row hmem hz).imp fun ks hends => ⟨[], hends, fun r hr => (nomatch hr)⟩)
  have htimers : List.Forall₂ Spells ["86400".toList, "3600".toList, "86400".toList, "3600".toList]
      [plainToken "86400".toList, plainToken "3600".toList, plainToken "86400".toList,
        plainToken "3600".toList] := spells_plains (by decide)
  have hsoa : GivesOnly zoneRoot.label (fun r => r.rtype ∈ headerTypes)
      (soaLine primary time "86400 3600 86400 3600".toList) := by
    refine ⟨_, gives_soaLine hvalid hk time (closes_words htimers), fun r hr => ?_⟩
    obtain rfl := List.mem_singleton.mp hr
    exact List.mem_cons_self
  have hlines : GivesOnly zoneRoot.label (fun r => r.rtype ∈ headerTypes)
      (servers.flatMap (recordLine ['@'] 86400 "NS".toList)) := by
    refine givesOnly_flatMap fun t ht => ?_
    obtain ⟨k, hk⟩ := hwords t ht
    refine ⟨_, gives_nsLine hvalid hk, fun r hr => ?_⟩
    obtain rfl := List.mem_singleton.mp hr
    exact List.mem_cons_of_mem _ List.mem_cons_self
  obtain ⟨rs, hrs, htypes⟩ := (hsoa.append hlines).append hgives
  refine ⟨_, rs, ?_, hrs, htypes⟩
  unfold generateZoneHeader
  refine bind_eq_ok.mpr ⟨primary, hprimary, bind_eq_ok.mpr ⟨servers, hservers, bind_eq_ok.mpr
    ⟨cds, hcdsText, ?_⟩⟩⟩
  simp only [List.append_assoc]
  rfl

/-! ### The file -/

/-- **Row isolation**, where the texts of the rows that stand on a line without quotes end it, and the
owners are read as the names of their rows. -/
theorem isolated_of_clean (hrows : ∀ r ∈ st.records, r.zone = zone.id → isQuoted r.model = false)
    (hc : Clean h st zone zoneRoot) (time : ℕ) : Isolated h st time zone := by
  obtain ⟨rest, rs, hheader, hrest, -⟩ :=
    gives_header hc.valid hc.digest hc.customNs hc.additionalCds hc.additionalCdnskey time
  have hmem : ∀ r ∈ publishedModels.flatMap (rowsOf st zone), r ∈ st.records ∧ r.zone = zone.id := by
    intro r hr
    obtain ⟨hr, hz, -⟩ := mem_flatMap_rowsOf.mp hr
    exact ⟨hr, hz⟩
  have hown : ∀ r ∈ publishedModels.flatMap (rowsOf st zone), ∃ t, rowText h st zone zoneRoot r = .ok t ∧
      Gives zoneRoot.label t (rowRecords h st zone zoneRoot r) ∧
      ∀ record ∈ rowRecords h st zone zoneRoot r, IsOf h zone zoneRoot r record := by
    intro r hr
    obtain ⟨hr, hz⟩ := hmem r hr
    obtain ⟨t, ht, rs, hgives, hrs⟩ := givesOnly_rowText (hrows r hr hz) (hc.rows r hr hz (hrows r hr hz))
    rw [rowRecords_eq ht hgives]
    exact ⟨t, ht, hgives, hrs⟩
  obtain ⟨texts, htexts, hgives⟩ := gives_mapM fun r hr => by
    obtain ⟨t, ht, hgives, -⟩ := hown r hr
    exact ⟨t, ht, hgives⟩
  have horigin := adds_originLine hc.head hc.bytes
  have hname := readName_nameToken [] hc.head hc.bytes hc.valid
  refine ⟨zoneRoot, _, _, rs, hc.root, hheader, records_of_gives horigin hname hrest,
    generateFzone_eq_ok.mpr ⟨zoneRoot, _, texts, hc.root, hheader, htexts, rfl⟩, ?_, fun r hr => ?_⟩
  · rw [List.append_assoc]
    exact records_of_gives horigin hname (hrest.append hgives)
  · obtain ⟨-, -, -, hall⟩ := hown r hr
    obtain ⟨hr, hz⟩ := hmem r hr
    exact ⟨hall, rowRecords_congr (hrows r hr hz)⟩

end

/-! ### Zones with one row -/

def exampleZone : Zone := ⟨1, "example.com".toList, false⟩

def exampleRoot : DnsLabel := ⟨["example", "com"].map fun l => encode l.toList⟩

/-- The zone with a row. -/
def withRow (row : Row) : Store :=
  { Store.empty with zones := Table.empty.save exampleZone, records := Table.empty.save row }

theorem ofText_exampleZone : DnsLabel.ofText Host.ascii.py exampleZone.zoneRoot = .ok exampleRoot := by
  decide

/-- A DNSKEY row with this key. -/
def keyRow (publicKey : Text) : Row := ⟨1, 1, "www".toList, 300, .dnskey 257 3 13 (.str publicKey)⟩

theorem isolated_key : Isolated .ascii (withRow (keyRow "AA==".toList)) 0 exampleZone := by
  refine isolated_of_clean (fun r hr _ => ?_) (?_ : Clean .ascii _ exampleZone exampleRoot) 0
  · obtain rfl : r = keyRow "AA==".toList := List.mem_singleton.mp hr
    rfl
  · refine ⟨ofText_exampleZone, ?_, by decide, by decide, fun _ => ⟨_, rfl⟩, fun ns hns => (nomatch hns),
      fun _ row hrow => (nomatch hrow), fun _ row hrow => (nomatch hrow), fun r hr _ _ owner howner => ?_⟩
    · exact ⟨101, [120, 97, 109, 112, 108, 101], [encode "com".toList], by decide⟩
    · obtain rfl : r = keyRow "AA==".toList := List.mem_singleton.mp hr
      have hlabel : ownerText .ascii (keyRow "AA==".toList) = some "www".toList := by decide
      obtain rfl : "www".toList = owner := Option.some.inj (hlabel.symm.trans howner)
      refine ⟨⟨plainToken "www".toList, encode "www".toList :: exampleRoot.label,
        ⟨encode "www".toList :: exampleRoot.label⟩, spells_plain (by decide), ⟨by decide, by decide⟩,
        by decide, by decide, rfl⟩, "AA==".toList, rfl, endsLine_plain (by decide)⟩

/-- A key that goes on with a line after its padding. -/
def injectedKey : Text := "AA==\nmail 300 IN A 10.0.0.1".toList

/-- The validators take it, and the row contributes an address record at another name. -/
theorem not_isolated_injected : cleanDnskeyRecord (keyRow injectedKey) = .ok () ∧
    ¬ Isolated .ascii (withRow (keyRow injectedKey)) 0 exampleZone := by
  refine ⟨by decide, ?_⟩
  rintro ⟨zoneRoot, header, text, rs, hroot, -, -, -, -, hall⟩
  obtain rfl : exampleRoot = zoneRoot := Except.ok.inj (ofText_exampleZone.symm.trans hroot)
  have hrow : keyRow injectedKey ∈
      publishedModels.flatMap (rowsOf (withRow (keyRow injectedKey)) exampleZone) := by decide
  have hrecord : ⟨encode "mail".toList :: exampleRoot.label, 300, encode "IN".toList, encode ['A'],
      [plainToken "10.0.0.1".toList]⟩ ∈
      rowRecords .ascii (withRow (keyRow injectedKey)) exampleZone exampleRoot (keyRow injectedKey) := by
    decide
  obtain ⟨t, ht, htype⟩ := ((hall _ hrow).1 _ hrecord).1
  obtain rfl : t = .dnskey := List.mem_singleton.mp ht
  revert htype
  decide

end HexDns.Tasks.Isolation
