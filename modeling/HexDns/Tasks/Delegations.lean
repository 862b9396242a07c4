import HexDns.Tasks.ReverseNames

/-! # The owners of reverse delegations

`generate_rzone` writes the NS record of a part of a reverse zone under the number of the bits of its
prefix, in front of the name of the zone: `16.10.in-addr.arpa.` for every part `10.x.0.0/16` of
`10.0.0.0/8`. The name of the part is `network_to_apra` of the network of the record, `x.10.in-addr.arpa.`.

`LabelIsPrefix` is the coincidence under which the two are the same: the prefix of the record is one label
longer than that of the zone, and the number in this label is the length of the prefix. `delegates_iff`:
the owner is the name of the network, and the names at or below it are those of the addresses of the
network, if and only if this is so; two records have one owner if and only if they have one length of
prefix and zones of one name. -/

namespace HexDns.Tasks.Delegations

open HexDns.Lib.Texts HexDns.Lib.Digits HexDns.Lib.Tables HexDns.Lib.Programs HexDns.Base.Py
  HexDns.Base.Label HexDns.Base.Message HexDns.Models.Db HexDns.Models.Env HexDns.Models.Names
  HexDns.Axfr.Access HexDns.Tasks.ZoneFile HexDns.Tasks.Rzone HexDns.Tasks.Reverse
  HexDns.Tasks.ReverseNames

/-! ### The records -/

/-- `ReverseNSRecord.network` -/
def recordNetwork (record : ReverseNs) : Option IpNetwork :=
  ipNetwork record.recordAddress record.recordPrefix

/-- `ReverseDNSZoneRecord.clean` of an NS record of the zone -/
def cleanNs (zone : ReverseZone) (record : ReverseNs) : Except PyErr Unit :=
  match ipNetwork zone.zoneRootAddress zone.zoneRootPrefix with
  | none => .error .valueError
  | some zoneNetwork =>
    if zoneNetwork.contains record.recordAddress then .ok () else .error .validationError

/-- A record that passes `clean` with a network that is a proper part of the network of the zone, both on
the boundary of a label. -/
structure Delegation (zone : ReverseZone) (record : ReverseNs) (zoneNet net : IpNetwork) : Prop where
  zone_eq : network zone = some zoneNet
  record_eq : recordNetwork record = some net
  clean : cleanNs zone record = .ok ()
  zone_boundary : labelBits zoneNet.address ∣ zoneNet.prefixLen
  boundary : labelBits net.address ∣ net.prefixLen
  proper : zoneNet.prefixLen < net.prefixLen

/-- The owner of the NS line of a record. -/
def nsOwner (zoneRoot : DnsLabel) (record : ReverseNs) : DnsLabel :=
  ⟨octetLabel record.recordPrefix :: zoneRoot.label⟩

/-- The prefix is one label longer than that of the zone, and the number in the label is its length. -/
def LabelIsPrefix (zoneNet net : IpNetwork) : Prop :=
  match net.address with
  | .v4 a => net.prefixLen = zoneNet.prefixLen + 8 ∧
      a.toNat / 2 ^ (32 - net.prefixLen) % 256 = net.prefixLen
  | .v6 a => net.prefixLen = zoneNet.prefixLen + 4 ∧ net.prefixLen < 10 ∧
      a.toNat / 2 ^ (128 - net.prefixLen) % 16 = net.prefixLen

instance (zoneNet net : IpNetwork) : Decidable (LabelIsPrefix zoneNet net) := by
  unfold LabelIsPrefix
  split <;> infer_instance

/-! ### Networks on a label boundary -/

theorem ipNetwork_eq_some {address : IpAddr} {pre : ℕ} {net : IpNetwork}
    (hn : ipNetwork address pre = some net) : net = ⟨address, pre⟩ ∧ pre ≤ bits address := by
  unfold ipNetwork at hn
  split at hn
  · split_ifs at hn with hpre
    exact ⟨(Option.some.inj hn).symm, hpre.1⟩
  · split_ifs at hn with hpre
    exact ⟨(Option.some.inj hn).symm, hpre.1⟩

theorem labelCount_mul {net : IpNetwork} (hdvd : labelBits net.address ∣ net.prefixLen) :
    labelCount net * labelBits net.address = net.prefixLen :=
  congrArg IpNetwork.prefixLen (labelNetwork_eq_self hdvd)

theorem arpa_ne (a : BitVec 32) (b : BitVec 128) (l l' : List Bytes) :
    ¬ l ++ arpa (.v4 a) <:+ l' ++ arpa (.v6 b) ∧ ¬ l ++ arpa (.v6 b) <:+ l' ++ arpa (.v4 a) := by
  have hne : encode "in-addr".toList ≠ encode "ip6".toList := by decide
  refine ⟨fun h => ?_, fun h => ?_⟩
  · obtain ⟨u, hu⟩ := h
    simp only [arpa, ← List.append_assoc] at hu
    have hlast := List.append_inj_right' hu rfl
    exact hne (List.cons.inj hlast).1
  · obtain ⟨u, hu⟩ := h
    simp only [arpa, ← List.append_assoc] at hu
    have hlast := List.append_inj_right' hu rfl
    exact hne (List.cons.inj hlast).1.symm

/-- **The names at or below that of a network on a label boundary are those of its addresses.** -/
theorem below_iff_contains {net : IpNetwork} (hpre : net.prefixLen ≤ bits net.address)
    (hdvd : labelBits net.address ∣ net.prefixLen) (address : IpAddr) :
    Below (addressToApra address) (networkToApra net) ↔ net.contains address = true := by
  by_cases hin : net.contains address = true
  · rw [below_iff hpre hin, labelNetwork_eq_self hdvd]
  · refine ⟨fun hbelow => ?_, fun h => absurd h hin⟩
    have hmul := labelCount_mul hdvd
    obtain ⟨a, pre⟩ := net
    rcases a with a | a <;> rcases address with b | b
    · have hk : labelCount ⟨.v4 a, pre⟩ ≤ 4 := by
        have hle : pre ≤ 32 := hpre
        have hmul : labelCount ⟨.v4 a, pre⟩ * 8 = pre := hmul
        omega
      have hlen : labelCount ⟨.v4 a, pre⟩ ≤ (addressLabels (.v4 a)).length := by
        simpa [addressLabels] using hk
      have htake := (@below_iff_take ⟨.v4 a, pre⟩ (.v4 b) rfl hlen).mp hbelow
      exact (contains_v4_iff hk hmul.symm).mpr htake
    · unfold Below at hbelow
      rw [lower_addressToApra, lower_networkToApra] at hbelow
      exact absurd hbelow (arpa_ne a b _ _).1
    · unfold Below at hbelow
      rw [lower_addressToApra, lower_networkToApra] at hbelow
      exact absurd hbelow (arpa_ne b a _ _).2
    · have hk : labelCount ⟨.v6 a, pre⟩ ≤ 32 := by
        have hle : pre ≤ 128 := hpre
        have hmul : labelCount ⟨.v6 a, pre⟩ * 4 = pre := hmul
        omega
      have hlen : labelCount ⟨.v6 a, pre⟩ ≤ (addressLabels (.v6 a)).length := by
        simpa [addressLabels] using hk
      have htake := (@below_iff_take ⟨.v6 a, pre⟩ (.v6 b) rfl hlen).mp hbelow
      exact (contains_v6_iff hk hmul.symm).mpr htake

/-! ### The label of the prefix -/

theorem take_concat_eq {α : Type} {l : List α} {m k : ℕ} {x : α} (hm : m < k) (hk : k ≤ l.length) :
    l.take m ++ [x] = l.take k ↔ k = m + 1 ∧ l[m]? = some x := by
  have hlt : m < l.length := by omega
  constructor
  · intro h
    have hlen : k = m + 1 := by
      have hlen := congrArg List.length h
      simp only [List.length_append, List.length_take, List.length_singleton] at hlen
      omega
    refine ⟨hlen, ?_⟩
    rw [hlen, List.take_succ_eq_append_getElem hlt] at h
    rw [List.getElem?_eq_getElem hlt, (List.cons.inj (List.append_cancel_left h)).1]
  · rintro ⟨rfl, hget⟩
    rw [List.getElem?_eq_getElem hlt] at hget
    rw [List.take_succ_eq_append_getElem hlt, Option.some.inj hget]

theorem octetLabel_eq_nibbleLabel {d p : ℕ} (hd : d < 16) :
    nibbleLabel d = octetLabel p ↔ p < 10 ∧ d = p := by
  have hdigit : ∀ p < 10, showNat p = [Nat.digitChar p] := fun p hp => Nat.toDigits_of_lt_base hp
  constructor
  · intro h
    have hchar : [Nat.digitChar d] = showNat p := encode_inj h
    have hp : p < 10 := by
      by_contra hp
      have hlen : 1 < (showNat p).length := by
        have htwo := Nat.toDigits_of_base_le (b := 10) (n := p) (by decide) (by omega)
        unfold showNat
        rw [htwo, List.length_append, List.length_singleton]
        have hpos := List.length_pos_iff.mpr (Nat.toDigits_ne_nil (b := 10) (n := p / 10))
        omega
      rw [← hchar] at hlen
      exact absurd hlen (lt_irrefl 1)
    refine ⟨hp, nibbleLabel_inj d hd p (by omega) ?_⟩
    unfold nibbleLabel
    rw [hchar, hdigit p hp]
  · rintro ⟨hp, rfl⟩
    unfold nibbleLabel octetLabel
    rw [hdigit d hp]

theorem getElem?_addressLabels_v4 {a : BitVec 32} {m : ℕ} (hm : m < 4) :
    (addressLabels (.v4 a))[m]? = some (octetLabel (a.toNat / 2 ^ (32 - (m + 1) * 8) % 256)) := by
  have hpow : (256 : ℕ) ^ (4 - 1 - m) = 2 ^ (32 - (m + 1) * 8) := by
    rw [show (256 : ℕ) = 2 ^ 8 by rfl, ← pow_mul]
    congr 1
    omega
  simp [addressLabels, digits, hm, ← hpow]

theorem getElem?_addressLabels_v6 {a : BitVec 128} {m : ℕ} (hm : m < 32) :
    (addressLabels (.v6 a))[m]? = some (nibbleLabel (a.toNat / 2 ^ (128 - (m + 1) * 4) % 16)) := by
  have hpow : (16 : ℕ) ^ (32 - 1 - m) = 2 ^ (128 - (m + 1) * 4) := by
    rw [show (16 : ℕ) = 2 ^ 4 by rfl, ← pow_mul]
    congr 1
    omega
  simp [addressLabels, digits, hm, ← hpow]

/-! ### A delegation -/

section
variable {zone : ReverseZone} {record : ReverseNs} {zoneNet net : IpNetwork}

theorem Delegation.net_eq (hd : Delegation zone record zoneNet net) :
    net = ⟨record.recordAddress, record.recordPrefix⟩ :=
  (ipNetwork_eq_some hd.record_eq).1

theorem Delegation.prefixLen_le (hd : Delegation zone record zoneNet net) :
    net.prefixLen ≤ bits net.address := by
  have hle := (ipNetwork_eq_some hd.record_eq).2
  rw [hd.net_eq]
  exact hle

theorem Delegation.contains (hd : Delegation zone record zoneNet net) :
    zoneNet.contains net.address = true := by
  have hclean := hd.clean
  have hzone : ipNetwork zone.zoneRootAddress zone.zoneRootPrefix = some zoneNet := hd.zone_eq
  unfold cleanNs at hclean
  simp only [hzone] at hclean
  rw [hd.net_eq]
  by_contra hin
  rw [if_neg hin] at hclean
  cases hclean

/-- The two networks are of one family, and the labels of the zone are the first ones of the record. -/
theorem Delegation.labels (hd : Delegation zone record zoneNet net) :
    arpa zoneNet.address = arpa net.address ∧ labelBits zoneNet.address = labelBits net.address ∧
      labelCount zoneNet < labelCount net ∧ labelCount net ≤ (addressLabels net.address).length ∧
      (addressLabels zoneNet.address).take (labelCount zoneNet) =
        (addressLabels net.address).take (labelCount zoneNet) := by
  have hin := hd.contains
  have hzone := labelCount_mul hd.zone_boundary
  have hnet := labelCount_mul hd.boundary
  have hproper := hd.proper
  have hle := hd.prefixLen_le
  obtain ⟨z, zpre⟩ := zoneNet
  obtain ⟨a, pre⟩ := net
  rcases z with z | z <;> rcases a with a | a
  · have hzone : labelCount ⟨.v4 z, zpre⟩ * 8 = zpre := hzone
    have hnet : labelCount ⟨.v4 a, pre⟩ * 8 = pre := hnet
    have hproper : zpre < pre := hproper
    have hle : pre ≤ 32 := hle
    refine ⟨rfl, rfl, by omega, by simp only [addressLabels, List.length_map, length_digits]; omega, ?_⟩
    exact (contains_v4_iff (by omega) hzone.symm).mp hin
  · cases hin
  · cases hin
  · have hzone : labelCount ⟨.v6 z, zpre⟩ * 4 = zpre := hzone
    have hnet : labelCount ⟨.v6 a, pre⟩ * 4 = pre := hnet
    have hproper : zpre < pre := hproper
    have hle : pre ≤ 128 := hle
    refine ⟨rfl, rfl, by omega, by simp only [addressLabels, List.length_map, length_digits]; omega, ?_⟩
    exact (contains_v6_iff (by omega) hzone.symm).mp hin

theorem Delegation.nsOwner_label (hd : Delegation zone record zoneNet net) :
    (nsOwner (networkToApra zoneNet) record).label =
      ((addressLabels net.address).take (labelCount zoneNet) ++ [octetLabel net.prefixLen]).reverse ++
        arpa net.address := by
  obtain ⟨harpa, -, -, -, htake⟩ := hd.labels
  have hpre : record.recordPrefix = net.prefixLen := (congrArg IpNetwork.prefixLen hd.net_eq).symm
  unfold nsOwner
  rw [networkToApra_label, harpa, htake, hpre, List.reverse_append]
  rfl

theorem Delegation.lower_nsOwner (hd : Delegation zone record zoneNet net) :
    (nsOwner (networkToApra zoneNet) record).lower =
      (nsOwner (networkToApra zoneNet) record).label := by
  refine map_lower_eq_self fun l hl => ?_
  rw [hd.nsOwner_label] at hl
  rcases List.mem_append.mp hl with hl | hl
  · rcases List.mem_append.mp (List.mem_reverse.mp hl) with hl | hl
    · exact lower_addressLabels (List.mem_of_mem_take hl)
    · rw [List.mem_singleton.mp hl]
      exact lower_octetLabel _
  · exact lower_arpa _ l hl

/-- The label after those of the zone is the number of the bits of the prefix. -/
theorem Delegation.label_iff (hd : Delegation zone record zoneNet net) :
    labelCount net = labelCount zoneNet + 1 ∧
      (addressLabels net.address)[labelCount zoneNet]? = some (octetLabel net.prefixLen) ↔
      LabelIsPrefix zoneNet net := by
  obtain ⟨-, hbits, hlt, hlen, -⟩ := hd.labels
  have hzone := labelCount_mul hd.zone_boundary
  have hnet := labelCount_mul hd.boundary
  rw [hbits] at hzone
  generalize hm : labelCount zoneNet = m at *
  generalize hk : labelCount net = k at *
  obtain ⟨a, pre⟩ := net
  rcases a with a | a
  · have hzone : m * 8 = zoneNet.prefixLen := hzone
    have hnet : k * 8 = pre := hnet
    have hlen : k ≤ 4 := by simpa [addressLabels] using hlen
    rw [getElem?_addressLabels_v4 (by omega)]
    show _ ↔ pre = zoneNet.prefixLen + 8 ∧ a.toNat / 2 ^ (32 - pre) % 256 = pre
    have hcount : k = m + 1 ↔ pre = zoneNet.prefixLen + 8 := by omega
    rw [hcount]
    refine and_congr_right fun hpre => ?_
    have hexp : (m + 1) * 8 = pre := by omega
    rw [hexp]
    exact ⟨fun h => octetLabel_inj (Option.some.inj h), fun h => by rw [h]⟩
  · have hzone : m * 4 = zoneNet.prefixLen := hzone
    have hnet : k * 4 = pre := hnet
    have hlen : k ≤ 32 := by simpa [addressLabels] using hlen
    rw [getElem?_addressLabels_v6 (by omega)]
    show _ ↔ pre = zoneNet.prefixLen + 4 ∧ pre < 10 ∧ a.toNat / 2 ^ (128 - pre) % 16 = pre
    have hcount : k = m + 1 ↔ pre = zoneNet.prefixLen + 4 := by omega
    rw [hcount]
    refine and_congr_right fun hpre => ?_
    have hexp : (m + 1) * 4 = pre := by omega
    rw [hexp, Option.some_inj]
    exact octetLabel_eq_nibbleLabel (Nat.mod_lt _ (by decide))

/-- **The owner is the name of the network just when the label is the length of the prefix.** -/
theorem Delegation.owner_iff (hd : Delegation zone record zoneNet net) :
    nsOwner (networkToApra zoneNet) record = networkToApra net ↔ LabelIsPrefix zoneNet net := by
  obtain ⟨-, -, hlt, hlen, -⟩ := hd.labels
  rw [← hd.label_iff, ← take_concat_eq hlt hlen]
  constructor
  · intro h
    have hlabel := congrArg DnsLabel.label h
    rw [hd.nsOwner_label, networkToApra_label] at hlabel
    exact List.reverse_injective (List.append_cancel_right hlabel)
  · intro h
    have hlabel : (nsOwner (networkToApra zoneNet) record).label = (networkToApra net).label := by
      rw [hd.nsOwner_label, networkToApra_label, h]
    exact congrArg DnsLabel.mk hlabel

end

theorem contains_self (net : IpNetwork) : net.contains net.address = true := by
  unfold IpNetwork.contains
  rcases net.address with a | a
  · exact decide_eq_true rfl
  · exact decide_eq_true rfl

/-! ### The names below the owner -/

section
variable {zone : ReverseZone} {record : ReverseNs} {zoneNet net : IpNetwork}

/-- An owner above the name of the address of the network is the name of the network with the prefix one
label longer than that of the zone. -/
theorem Delegation.owner_of_below (hd : Delegation zone record zoneNet net)
    (hbelow : Below (addressToApra net.address) (nsOwner (networkToApra zoneNet) record)) :
    nsOwner (networkToApra zoneNet) record =
      networkToApra ⟨net.address, (labelCount zoneNet + 1) * labelBits net.address⟩ := by
  obtain ⟨-, -, hlt, hlen, -⟩ := hd.labels
  unfold Below at hbelow
  rw [hd.lower_nsOwner, hd.nsOwner_label, lower_addressToApra, List.suffix_append_self_iff,
    List.reverse_suffix, List.prefix_iff_eq_take, List.length_append, List.length_take,
    min_eq_left (by omega), List.length_singleton] at hbelow
  have hcount : labelCount ⟨net.address, (labelCount zoneNet + 1) * labelBits net.address⟩ =
      labelCount zoneNet + 1 := by
    unfold labelCount
    rcases net.address with a | a
    · show ((_ + 1) * 8 + (8 - 1)) / 8 = _
      omega
    · show ((_ + 1) * 4 + (4 - 1)) / 4 = _
      omega
  have hlabel : (nsOwner (networkToApra zoneNet) record).label =
      (networkToApra ⟨net.address, (labelCount zoneNet + 1) * labelBits net.address⟩).label := by
    rw [hd.nsOwner_label, networkToApra_label, hcount, hbelow]
  exact congrArg DnsLabel.mk hlabel

/-- **The names at or below the owner are those of the addresses of the network just when the label is
the length of the prefix.** -/
theorem Delegation.below_iff (hd : Delegation zone record zoneNet net) :
    (∀ address, Below (addressToApra address) (nsOwner (networkToApra zoneNet) record) ↔
      net.contains address = true) ↔ LabelIsPrefix zoneNet net := by
  constructor
  · intro hall
    have howner := hd.owner_of_below ((hall net.address).mpr (contains_self net))
    obtain ⟨-, hbits, hlt, -, -⟩ := hd.labels
    have hnet := labelCount_mul hd.boundary
    have hle := hd.prefixLen_le
    have hpre : (labelCount zoneNet + 1) * labelBits net.address ≤ net.prefixLen := by
      rw [← hnet]
      exact Nat.mul_le_mul_right _ hlt
    rcases Nat.eq_or_lt_of_le hpre with heq | hshort
    · rw [heq] at howner
      exact hd.owner_iff.mp howner
    · obtain ⟨b, hin, hout⟩ := exists_contains_not hshort hle
      have hbelow := (@below_iff_contains ⟨net.address, _⟩ (hpre.trans hle) (Nat.dvd_mul_left _ _)
        b).mpr hin
      rw [← howner] at hbelow
      have hcontains := (hall b).mp hbelow
      rw [hout] at hcontains
      cases hcontains
  · intro hlabel address
    rw [hd.owner_iff.mpr hlabel]
    exact below_iff_contains hd.prefixLen_le hd.boundary address

/-- Two records have one owner if their prefixes have one length and their zones one name. -/
theorem nsOwner_eqv_iff {zoneRoot zoneRoot' : DnsLabel} {record record' : ReverseNs} :
    (nsOwner zoneRoot record).Eqv (nsOwner zoneRoot' record') ↔
      record.recordPrefix = record'.recordPrefix ∧ zoneRoot.Eqv zoneRoot' := by
  unfold DnsLabel.Eqv DnsLabel.lower nsOwner
  rw [List.map_cons, List.map_cons, List.cons.injEq, lower_octetLabel, lower_octetLabel]
  exact and_congr_left fun _ => ⟨fun h => octetLabel_inj h, fun h => by rw [h]⟩

/-- Two records whose owners are the names of their networks do not share an owner if the networks have
no address in common. -/
theorem Delegation.disjoint (hd : Delegation zone record zoneNet net)
    (hlabel : LabelIsPrefix zoneNet net) {zone' : ReverseZone} {record' : ReverseNs}
    {zoneNet' net' : IpNetwork} (hd' : Delegation zone' record' zoneNet' net')
    (hlabel' : LabelIsPrefix zoneNet' net')
    (hdisjoint : ∀ address, ¬ (net.contains address = true ∧ net'.contains address = true)) :
    ¬ (nsOwner (networkToApra zoneNet) record).Eqv (nsOwner (networkToApra zoneNet') record') := by
  intro hsame
  have hself := contains_self net
  have hbelow := (hd.below_iff.mpr hlabel net.address).mpr hself
  unfold Below at hbelow
  rw [hsame] at hbelow
  exact hdisjoint net.address ⟨hself, (hd'.below_iff.mpr hlabel' net.address).mp hbelow⟩

end

/-! ### The NS lines of a zone file -/

/-- The NS records of a zone in the order of its file. -/
def zoneNs (db : Db) (zone : ReverseZone) : List ReverseNs :=
  (db.reverseNs.rows.filter fun r => r.zone = zone.id).insertionSort fun r s =>
    addressLe r.recordAddress s.recordAddress

/-- The line of an NS record with its owner and its name server. -/
def nsLine (owner nameserver : DnsLabel) (record : ReverseNs) : Text :=
  line ["; NS record ".toList, showNat record.id] ++
    recordLine owner.toText record.ttl "NS".toList nameserver.toText

theorem toText_nsOwner {zoneRoot : DnsLabel} (hroot : zoneRoot.label ≠ []) (record : ReverseNs) :
    (nsOwner zoneRoot record).toText = showNat record.recordPrefix ++ '.' :: zoneRoot.toText := by
  have hdigit : ∀ c ∈ showNat record.recordPrefix, 33 ≤ c.toNat ∧ c.toNat ≤ 126 := by
    intro c hc
    have hc := isDigit_iff.mp (isDigit_showNat hc)
    omega
  have hlabel : (octetLabel record.recordPrefix).flatMap showByte = showNat record.recordPrefix :=
    flatMap_showByte hdigit
  obtain ⟨l, ls, hls⟩ := List.exists_cons_of_ne_nil hroot
  unfold nsOwner DnsLabel.toText
  simp only [List.map_cons, hlabel, hls]
  simp [List.intercalate]

/-- The lines of the NS records have `nsOwner` as owners. -/
theorem ns_generateRzone {h : Host} {accounts : Accounts} {db : Db} {time : ℕ} {zone : ReverseZone}
    {file : RzoneFile} {zoneNet : IpNetwork} (hn : network zone = some zoneNet)
    (hfile : generateRzone h accounts db time zone = .ok file) :
    ∃ nameserver : ReverseNs → DnsLabel, file.ns = (zoneNs db zone).flatMap fun r =>
      nsLine (nsOwner (networkToApra zoneNet) r) (nameserver r) r := by
  have hn : ipNetwork zone.zoneRootAddress zone.zoneRootPrefix = some zoneNet := hn
  unfold generateRzone at hfile
  simp only [hn] at hfile
  obtain ⟨header, -, hfile⟩ := bind_eq_ok.mp hfile
  obtain ⟨account, -, hfile⟩ := bind_eq_ok.mp hfile
  obtain ⟨ptrs, -, hfile⟩ := bind_eq_ok.mp hfile
  obtain ⟨ns, hns, hfile⟩ := bind_eq_ok.mp hfile
  obtain ⟨auto, -, hfile⟩ := bind_eq_ok.mp hfile
  obtain rfl := Except.ok.inj hfile
  have hroot : (networkToApra zoneNet).label ≠ [] := by
    rw [networkToApra_label]
    rcases zoneNet.address with a | a <;> simp [arpa]
  let nameserver : ReverseNs → DnsLabel := fun r => (DnsLabel.ofText h.py r.nameserver).toOption.getD .root
  have hline : ∀ r ∈ zoneNs db zone, reverseNsText h (networkToApra zoneNet) r =
      .ok (nsLine (nsOwner (networkToApra zoneNet) r) (nameserver r) r) := by
    intro r hr
    obtain ⟨t, -, ht⟩ := (mem_mapM hns).2 r hr
    obtain ⟨p, hp, -⟩ := bind_eq_ok.mp ht
    unfold reverseNsText nsLine
    simp only [nameserver, hp, toText_nsOwner hroot]
    rfl
  have heq : ns = (zoneNs db zone).map fun r =>
      nsLine (nsOwner (networkToApra zoneNet) r) (nameserver r) r :=
    Except.ok.inj (hns.symm.trans (mapM_eq_map hline))
  refine ⟨nameserver, ?_⟩
  rw [heq, List.flatMap_def]

/-! ### The claim of a delegation -/

/-- **A reverse delegation delegates its network just when the label is the length of the prefix.** For a
record of a zone whose network is a proper part of that of the zone, both on the boundary of a label, the
owner of the NS line is `network_to_apra` of the network if and only if the prefix is one label longer
than that of the zone and the number in this label is the length of the prefix; the names at or below the
owner are those of the addresses of the network under the same condition. Two such records have one owner
just when their prefixes have one length and their zones one name, and never if both meet the condition
and the networks have no address in common. -/
theorem delegates_iff {zone : ReverseZone} {record : ReverseNs} {zoneNet net : IpNetwork}
    (hd : Delegation zone record zoneNet net) :
    (nsOwner (networkToApra zoneNet) record = networkToApra net ↔ LabelIsPrefix zoneNet net) ∧
      ((∀ address, Below (addressToApra address) (nsOwner (networkToApra zoneNet) record) ↔
        net.contains address = true) ↔ LabelIsPrefix zoneNet net) ∧
      (∀ zone' record' zoneNet' net', Delegation zone' record' zoneNet' net' →
        ((nsOwner (networkToApra zoneNet) record).Eqv (nsOwner (networkToApra zoneNet') record') ↔
          record.recordPrefix = record'.recordPrefix ∧
            (networkToApra zoneNet).Eqv (networkToApra zoneNet')) ∧
        (LabelIsPrefix zoneNet net → LabelIsPrefix zoneNet' net' →
          (∀ address, ¬ (net.contains address = true ∧ net'.contains address = true)) →
          ¬ (nsOwner (networkToApra zoneNet) record).Eqv (nsOwner (networkToApra zoneNet') record'))) ∧
      ∀ (h : Host) (accounts : Accounts) (db : Db) (time : ℕ) (file : RzoneFile),
        generateRzone h accounts db time zone = .ok file →
        ∃ nameserver : ReverseNs → DnsLabel, file.ns = (zoneNs db zone).flatMap fun r =>
          nsLine (nsOwner (networkToApra zoneNet) r) (nameserver r) r := by
  refine ⟨hd.owner_iff, hd.below_iff, fun zone' record' zoneNet' net' hd' => ⟨nsOwner_eqv_iff, ?_⟩,
    fun h accounts db time file hfile => ns_generateRzone hd.zone_eq hfile⟩
  intro hlabel hlabel' hdisjoint
  exact hd.disjoint hlabel hd' hlabel' hdisjoint

/-- `10.0.0.0/8` -/
def tenZone : ReverseZone := ⟨1, .v4 0x0a000000#32, 8, false⟩

/-- The NS record of `10.16.0.0/16`. -/
def sixteenNs : ReverseNs := ⟨1, 1, .v4 0x0a100000#32, 16, 3600, "ns.example".toList⟩

/-- The NS record of `10.1.0.0/16`. -/
def oneNs : ReverseNs := ⟨2, 1, .v4 0x0a010000#32, 16, 3600, "ns.example".toList⟩

theorem delegates_sixteenNs : Delegation tenZone sixteenNs ⟨.v4 0x0a000000#32, 8⟩ ⟨.v4 0x0a100000#32, 16⟩ ∧
    nsOwner (networkToApra ⟨.v4 0x0a000000#32, 8⟩) sixteenNs =
      networkToApra ⟨.v4 0x0a100000#32, 16⟩ := by
  have hd : Delegation tenZone sixteenNs ⟨.v4 0x0a000000#32, 8⟩ ⟨.v4 0x0a100000#32, 16⟩ :=
    ⟨by decide, by decide, by decide, by decide, by decide, by decide⟩
  exact ⟨hd, (delegates_iff hd).1.mpr (by decide)⟩

/-- The NS line of `10.1.0.0/16` is that of the name `16.10.in-addr.arpa.`, and so is the line of
`10.16.0.0/16`. -/
theorem not_delegates_oneNs : (¬ ∀ (zone : ReverseZone) (record : ReverseNs) (zoneNet net : IpNetwork),
      Delegation zone record zoneNet net →
      nsOwner (networkToApra zoneNet) record = networkToApra net) ∧
    nsOwner (networkToApra ⟨.v4 0x0a000000#32, 8⟩) oneNs =
      nsOwner (networkToApra ⟨.v4 0x0a000000#32, 8⟩) sixteenNs := by
  refine ⟨fun hall => ?_, by decide⟩
  have hd : Delegation tenZone oneNs ⟨.v4 0x0a000000#32, 8⟩ ⟨.v4 0x0a010000#32, 16⟩ :=
    ⟨by decide, by decide, by decide, by decide, by decide, by decide⟩
  have howner := hall tenZone oneNs _ _ hd
  revert howner
  decide

end HexDns.Tasks.Delegations
