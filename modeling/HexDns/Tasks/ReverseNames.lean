import HexDns.Lib.Digits
import HexDns.Tasks.Reverse

/-! # The names of reverse zones and of their addresses

`network_to_apra` makes a label of every octet (IPv4) or nibble (IPv6) that the prefix of the network
reaches into, `address_to_apra` one of each octet or nibble of the address. A prefix that ends inside a
label counts as the whole label, so that `10.0.0.0/9` has the name `0.10.in-addr.arpa.`, and the address
`10.1.0.1`, which is in that network, a name that is not below it.

`labelNetwork` is the network with the prefix rounded up to whole labels. `nested_iff`: the name of an
address of the network is below the name of the network if and only if the address is in `labelNetwork`,
and this holds of every address of the network if and only if the prefix is a multiple of the bits of a
label; distinct addresses have distinct names. -/

namespace HexDns.Tasks.ReverseNames

open HexDns.Lib.Texts HexDns.Lib.Digits HexDns.Lib.Tables HexDns.Lib.Programs HexDns.Base.Py
  HexDns.Base.Label HexDns.Base.Message HexDns.Models.Db HexDns.Models.Env HexDns.Models.Names
  HexDns.Axfr.Access HexDns.Tasks.ZoneFile HexDns.Tasks.Rzone HexDns.Tasks.Reverse

/-! ### What the rows are checked for -/

/-- `ReverseDNSZone.network` -/
def network (zone : ReverseZone) : Option IpNetwork :=
  ipNetwork zone.zoneRootAddress zone.zoneRootPrefix

/-- `ReverseDNSZone.clean` -/
def cleanZone (zone : ReverseZone) : Except PyErr Unit :=
  match ipNetwork zone.zoneRootAddress zone.zoneRootPrefix with
  | some _ => .ok ()
  | none => .error .validationError

/-- `ReverseDNSZoneRecord.clean` of a PTR record of the zone -/
def cleanPtr (zone : ReverseZone) (record : PtrRecord) : Except PyErr Unit :=
  match ipNetwork zone.zoneRootAddress zone.zoneRootPrefix with
  | none => .error .valueError
  | some zoneNetwork =>
    if zoneNetwork.contains record.recordAddress then .ok () else .error .validationError

theorem cleanZone_eq_ok {zone : ReverseZone} (hz : cleanZone zone = .ok ()) :
    ∃ net, network zone = some net := by
  unfold cleanZone at hz
  split at hz
  · exact ⟨_, ‹_›⟩
  · cases hz

theorem cleanPtr_eq_ok {zone : ReverseZone} {net : IpNetwork} {record : PtrRecord}
    (hn : network zone = some net) :
    cleanPtr zone record = .ok () ↔ net.contains record.recordAddress = true := by
  unfold cleanPtr
  unfold network at hn
  simp only [hn]
  by_cases hin : net.contains record.recordAddress = true
  · simp [hin]
  · simp [hin]

/-! ### Names and labels -/

/-- The bits that a label of a reverse name stands for. -/
def labelBits : IpAddr → ℕ
  | .v4 _ => 8
  | .v6 _ => 4

/-- The labels that `network_to_apra` takes of the address. -/
def labelCount (net : IpNetwork) : ℕ :=
  (net.prefixLen + (labelBits net.address - 1)) / labelBits net.address

/-- The network with the prefix rounded up to whole labels. -/
def labelNetwork (net : IpNetwork) : IpNetwork :=
  ⟨net.address, labelCount net * labelBits net.address⟩

/-- The label of an octet. -/
def octetLabel (d : ℕ) : Bytes := encode (showNat d)

/-- The label of a nibble. -/
def nibbleLabel (d : ℕ) : Bytes := encode [Nat.digitChar d]

/-- The labels of an address, the highest first. -/
def addressLabels : IpAddr → List Bytes
  | .v4 a => (digits 256 4 a.toNat).map octetLabel
  | .v6 a => (digits 16 32 a.toNat).map nibbleLabel

/-- The labels that the reverse names of a family end in. -/
def arpa : IpAddr → List Bytes
  | .v4 _ => [encode "in-addr".toList, encode "arpa".toList]
  | .v6 _ => [encode "ip6".toList, encode "arpa".toList]

theorem lower_octetLabel (d : ℕ) : (octetLabel d).map lowerByte = octetLabel d := by
  have hdigit : ∀ c ∈ showNat d, lowerChar c = c := fun c hc =>
    lowerChar_of_isDigit (isDigit_showNat hc)
  unfold octetLabel
  rw [← encode_lower, List.map_congr_left hdigit, List.map_id']

theorem lower_nibbleLabel {d : ℕ} (hd : d < 16) : (nibbleLabel d).map lowerByte = nibbleLabel d := by
  have hdigit : ∀ d < 16, lowerChar (Nat.digitChar d) = Nat.digitChar d := by decide
  unfold nibbleLabel
  rw [← encode_lower, List.map_singleton, hdigit d hd]

theorem octetLabel_inj {d e : ℕ} (h : octetLabel d = octetLabel e) : d = e := by
  have hde : showNat d = showNat e := encode_inj h
  rw [← Nat.ofDigitChars_ten_toDigits (n := d), ← Nat.ofDigitChars_ten_toDigits (n := e)]
  exact congrArg (Nat.ofDigitChars 10 · 0) hde

theorem nibbleLabel_inj : ∀ d < 16, ∀ e < 16, nibbleLabel d = nibbleLabel e → d = e := by
  have hchar : ∀ d < 16, ∀ e < 16, Nat.digitChar d = Nat.digitChar e → d = e := by decide
  intro d hd e he h
  exact hchar d hd e he (List.cons.inj (encode_inj h)).1

theorem lower_addressLabels {a : IpAddr} {l : Bytes} (hl : l ∈ addressLabels a) : l.map lowerByte = l := by
  rcases a with a | a
  · obtain ⟨d, -, rfl⟩ := List.mem_map.mp hl
    exact lower_octetLabel d
  · obtain ⟨d, hd, rfl⟩ := List.mem_map.mp hl
    exact lower_nibbleLabel (lt_of_mem_digits (by decide) hd)

theorem lower_arpa (a : IpAddr) : ∀ l ∈ arpa a, l.map lowerByte = l := by
  rcases a with a | a <;>
  · show ∀ l ∈ [_, _], _
    decide

theorem map_encode_octets (a : BitVec 32) : (octets a).map encode = addressLabels (.v4 a) := by
  show List.map _ (List.map _ _) = List.map _ (List.map _ _)
  rw [List.map_map, List.map_map]
  rfl

theorem map_encode_nibbles (a : BitVec 128) : (nibbles a).map encode = addressLabels (.v6 a) := by
  show List.map _ (List.map _ _) = List.map _ (List.map _ _)
  rw [List.map_map, List.map_map]
  rfl

theorem addressToApra_label (a : IpAddr) :
    (addressToApra a).label = (addressLabels a).reverse ++ arpa a := by
  rcases a with a | a
  · rw [← map_encode_octets, ← List.map_reverse]
    exact List.map_append
  · rw [← map_encode_nibbles, ← List.map_reverse]
    exact List.map_append

theorem networkToApra_label (net : IpNetwork) :
    (networkToApra net).label =
      ((addressLabels net.address).take (labelCount net)).reverse ++ arpa net.address := by
  obtain ⟨a, pre⟩ := net
  rcases a with a | a
  · rw [← map_encode_octets, ← List.map_take, ← List.map_reverse]
    exact List.map_append
  · rw [← map_encode_nibbles, ← List.map_take, ← List.map_reverse]
    exact List.map_append

theorem map_lower_eq_self {ls : List Bytes} (h : ∀ l ∈ ls, l.map lowerByte = l) :
    ls.map (·.map lowerByte) = ls :=
  (List.map_congr_left h).trans (List.map_id' ls)

theorem lower_addressToApra (a : IpAddr) :
    (addressToApra a).lower = (addressLabels a).reverse ++ arpa a := by
  unfold DnsLabel.lower
  rw [addressToApra_label]
  refine map_lower_eq_self fun l hl => ?_
  rcases List.mem_append.mp hl with hl | hl
  · exact lower_addressLabels (List.mem_reverse.mp hl)
  · exact lower_arpa a l hl

theorem lower_networkToApra (net : IpNetwork) : (networkToApra net).lower =
    ((addressLabels net.address).take (labelCount net)).reverse ++ arpa net.address := by
  unfold DnsLabel.lower
  rw [networkToApra_label]
  refine map_lower_eq_self fun l hl => ?_
  rcases List.mem_append.mp hl with hl | hl
  · exact lower_addressLabels (List.mem_of_mem_take (List.mem_reverse.mp hl))
  · exact lower_arpa net.address l hl

/-- **The name of an address is below the name of a network of its family if the two have the same
labels, as far as those of the network go.** -/
theorem below_iff_take {net : IpNetwork} {a : IpAddr} (harpa : arpa net.address = arpa a)
    (hlen : labelCount net ≤ (addressLabels net.address).length) :
    Below (addressToApra a) (networkToApra net) ↔
      (addressLabels net.address).take (labelCount net) = (addressLabels a).take (labelCount net) := by
  unfold Below
  rw [lower_addressToApra, lower_networkToApra, harpa, List.suffix_append_self_iff, List.reverse_suffix,
    List.prefix_iff_eq_take, List.length_take, min_eq_left hlen]

theorem take_map_inj {α : Type} {f : ℕ → α} {b n k x y : ℕ} (hb : 0 < b)
    (hf : ∀ d < b, ∀ e < b, f d = f e → d = e) (hx : x < b ^ n) (hy : y < b ^ n) (hk : k ≤ n) :
    ((digits b n x).map f).take k = ((digits b n y).map f).take k ↔
      x / b ^ (n - k) = y / b ^ (n - k) := by
  have hlt : ∀ z, ∀ d ∈ (digits b n z).take k, d < b := fun z d hd =>
    lt_of_mem_digits hb (List.mem_of_mem_take hd)
  rw [← take_digits_eq_iff hx hy hk, ← List.map_take, ← List.map_take]
  exact ⟨map_digits_inj hf (hlt x) (hlt y), fun h => by rw [h]⟩

theorem contains_v4_iff {a b : BitVec 32} {k pre : ℕ} (hk : k ≤ 4) (hpre : pre = k * 8) :
    IpNetwork.contains ⟨.v4 a, pre⟩ (.v4 b) = true ↔
      (addressLabels (.v4 a)).take k = (addressLabels (.v4 b)).take k := by
  have ha : a.toNat < 256 ^ 4 := a.isLt
  have hb : b.toNat < 256 ^ 4 := b.isLt
  have hpow : (256 : ℕ) ^ (4 - k) = 2 ^ (32 - pre) := by
    rw [show (256 : ℕ) = 2 ^ 8 by rfl, ← pow_mul]
    congr 1
    omega
  have htake := take_map_inj (by decide) (fun d _ e _ => octetLabel_inj) ha hb hk
  rw [hpow] at htake
  exact decide_eq_true_iff.trans htake.symm

theorem contains_v6_iff {a b : BitVec 128} {k pre : ℕ} (hk : k ≤ 32) (hpre : pre = k * 4) :
    IpNetwork.contains ⟨.v6 a, pre⟩ (.v6 b) = true ↔
      (addressLabels (.v6 a)).take k = (addressLabels (.v6 b)).take k := by
  have ha : a.toNat < 16 ^ 32 := a.isLt
  have hb : b.toNat < 16 ^ 32 := b.isLt
  have hpow : (16 : ℕ) ^ (32 - k) = 2 ^ (128 - pre) := by
    rw [show (16 : ℕ) = 2 ^ 4 by rfl, ← pow_mul]
    congr 1
    omega
  have htake := take_map_inj (by decide) nibbleLabel_inj ha hb hk
  rw [hpow] at htake
  exact decide_eq_true_iff.trans htake.symm

theorem prefixLen_le {zone : ReverseZone} {net : IpNetwork} (hn : network zone = some net) :
    net.prefixLen ≤ bits net.address := by
  unfold network ipNetwork at hn
  split at hn
  · split_ifs at hn with hpre
    obtain rfl := Option.some.inj hn
    exact hpre.1
  · split_ifs at hn with hpre
    obtain rfl := Option.some.inj hn
    exact hpre.1

/-- **An address of a network has a name below that of the network if and only if it is in the network
with the prefix rounded up.** -/
theorem below_iff {net : IpNetwork} {address : IpAddr} (hpre : net.prefixLen ≤ bits net.address)
    (hin : net.contains address = true) :
    Below (addressToApra address) (networkToApra net) ↔
      (labelNetwork net).contains address = true := by
  obtain ⟨a, pre⟩ := net
  rcases a with a | a
  · have hk : labelCount ⟨.v4 a, pre⟩ ≤ 4 := by
      have hle : pre ≤ 32 := hpre
      show (pre + 7) / 8 ≤ 4
      omega
    have hlen : labelCount ⟨.v4 a, pre⟩ ≤ (addressLabels (.v4 a)).length := by
      simpa [addressLabels] using hk
    rcases address with b | b
    · have harpa : arpa (.v4 a) = arpa (.v4 b) := rfl
      exact (below_iff_take harpa hlen).trans (contains_v4_iff hk rfl).symm
    · cases hin
  · have hk : labelCount ⟨.v6 a, pre⟩ ≤ 32 := by
      have hle : pre ≤ 128 := hpre
      show (pre + 3) / 4 ≤ 32
      omega
    have hlen : labelCount ⟨.v6 a, pre⟩ ≤ (addressLabels (.v6 a)).length := by
      simpa [addressLabels] using hk
    rcases address with b | b
    · cases hin
    · have harpa : arpa (.v6 a) = arpa (.v6 b) := rfl
      exact (below_iff_take harpa hlen).trans (contains_v6_iff hk rfl).symm

/-! ### Distinct addresses -/

theorem addressLabels_v4_inj {a b : BitVec 32} (h : addressLabels (.v4 a) = addressLabels (.v4 b)) :
    a = b := by
  have ha : a.toNat < 256 ^ 4 := a.isLt
  have hb : b.toNat < 256 ^ 4 := b.isLt
  have hdigits := map_digits_inj (fun d _ e _ => octetLabel_inj)
    (fun d hd => lt_of_mem_digits (by decide) hd) (fun d hd => lt_of_mem_digits (by decide) hd) h
  exact BitVec.eq_of_toNat_eq (digits_inj ha hb hdigits)

theorem addressLabels_v6_inj {a b : BitVec 128} (h : addressLabels (.v6 a) = addressLabels (.v6 b)) :
    a = b := by
  have ha : a.toNat < 16 ^ 32 := a.isLt
  have hb : b.toNat < 16 ^ 32 := b.isLt
  have hdigits := map_digits_inj nibbleLabel_inj
    (fun d hd => lt_of_mem_digits (by decide) hd) (fun d hd => lt_of_mem_digits (by decide) hd) h
  exact BitVec.eq_of_toNat_eq (digits_inj ha hb hdigits)

/-- **Distinct addresses have distinct names.** -/
theorem addressToApra_inj {a b : IpAddr} (h : (addressToApra a).Eqv (addressToApra b)) : a = b := by
  unfold DnsLabel.Eqv at h
  rw [lower_addressToApra, lower_addressToApra] at h
  rcases a with a | a <;> rcases b with b | b
  · have hrev := List.append_cancel_right h
    rw [addressLabels_v4_inj (List.reverse_injective hrev)]
  · have hlen := congrArg List.length h
    simp [addressLabels, arpa] at hlen
  · have hlen := congrArg List.length h
    simp [addressLabels, arpa] at hlen
  · have hrev := List.append_cancel_right h
    rw [addressLabels_v6_inj (List.reverse_injective hrev)]

/-! ### Whole labels -/

theorem labelNetwork_eq_self {net : IpNetwork} (hdvd : labelBits net.address ∣ net.prefixLen) :
    labelNetwork net = net := by
  obtain ⟨a, pre⟩ := net
  rcases a with a | a
  · have hk : (pre + 7) / 8 * 8 = pre := by
      have hdvd : 8 ∣ pre := hdvd
      omega
    exact congrArg (IpNetwork.mk _) hk
  · have hk : (pre + 3) / 4 * 4 = pre := by
      have hdvd : 4 ∣ pre := hdvd
      omega
    exact congrArg (IpNetwork.mk _) hk

/-- A network with a shorter prefix has an address more. -/
theorem exists_contains_not {address : IpAddr} {pre pre' : ℕ} (hlt : pre < pre')
    (hle : pre' ≤ bits address) :
    ∃ b, IpNetwork.contains ⟨address, pre⟩ b = true ∧ IpNetwork.contains ⟨address, pre'⟩ b = false := by
  rcases address with a | a
  · have hle : pre' ≤ 32 := hle
    obtain ⟨b, hb, hsame, hother⟩ := exists_other_quotient (m := 32 - pre) (j := 32 - pre') a.isLt
      (by omega) (by omega)
    have hnat : (BitVec.ofNat 32 b).toNat = b := Nat.mod_eq_of_lt hb
    refine ⟨.v4 (BitVec.ofNat 32 b), decide_eq_true ?_, decide_eq_false ?_⟩
    · rw [hnat]
      exact hsame
    · rw [hnat]
      exact hother
  · have hle : pre' ≤ 128 := hle
    obtain ⟨b, hb, hsame, hother⟩ := exists_other_quotient (m := 128 - pre) (j := 128 - pre') a.isLt
      (by omega) (by omega)
    have hnat : (BitVec.ofNat 128 b).toNat = b := Nat.mod_eq_of_lt hb
    refine ⟨.v6 (BitVec.ofNat 128 b), decide_eq_true ?_, decide_eq_false ?_⟩
    · rw [hnat]
      exact hsame
    · rw [hnat]
      exact hother

/-- A prefix that ends inside a label leaves out addresses of the network. -/
theorem exists_not_below {net : IpNetwork} (hle : net.prefixLen ≤ bits net.address)
    (hdvd : ¬ labelBits net.address ∣ net.prefixLen) :
    ∃ address, net.contains address = true ∧ (labelNetwork net).contains address = false := by
  obtain ⟨address, pre⟩ := net
  -- the last label ends after the prefix
  have hlabel : pre < labelCount ⟨address, pre⟩ * labelBits address ∧
      labelCount ⟨address, pre⟩ * labelBits address ≤ bits address := by
    rcases address with a | a
    · have hle : pre ≤ 32 := hle
      have hdvd : ¬ 8 ∣ pre := hdvd
      show pre < (pre + 7) / 8 * 8 ∧ (pre + 7) / 8 * 8 ≤ 32
      omega
    · have hle : pre ≤ 128 := hle
      have hdvd : ¬ 4 ∣ pre := hdvd
      show pre < (pre + 3) / 4 * 4 ∧ (pre + 3) / 4 * 4 ≤ 128
      omega
  exact exists_contains_not hlabel.1 hlabel.2

/-- **All addresses of a network have names below that of the network if and only if the prefix ends
with a label.** -/
theorem all_below_iff {zone : ReverseZone} {net : IpNetwork} (hn : network zone = some net) :
    (∀ address, net.contains address = true → Below (addressToApra address) (networkToApra net)) ↔
      labelBits net.address ∣ net.prefixLen := by
  constructor
  · intro hall
    by_contra hdvd
    obtain ⟨address, hin, hout⟩ := exists_not_below (prefixLen_le hn) hdvd
    have hbelow := (below_iff (prefixLen_le hn) hin).mp (hall address hin)
    rw [hout] at hbelow
    cases hbelow
  · intro hdvd address hin
    rw [below_iff (prefixLen_le hn) hin, labelNetwork_eq_self hdvd]
    exact hin

/-! ### The PTR lines of a zone file -/

/-- The PTR records of a zone in the order of its file. -/
def zonePtrs (db : Db) (zone : ReverseZone) : List PtrRecord :=
  (db.ptrRecords.rows.filter fun r => r.zone = zone.id).insertionSort fun r s =>
    addressLe r.recordAddress s.recordAddress

/-- The line of a PTR record with its pointer. -/
def ptrLine (pointer : DnsLabel) (record : PtrRecord) : Text :=
  line ["; PTR record ".toList, showNat record.id] ++
    recordLine (addressToApra record.recordAddress).toText record.ttl "PTR".toList pointer.toText

/-- The lines of the PTR records have the names of their addresses as owners. -/
theorem ptrs_generateRzone {h : Host} {accounts : Accounts} {db : Db} {time : ℕ} {zone : ReverseZone}
    {file : RzoneFile} (hfile : generateRzone h accounts db time zone = .ok file) :
    ∃ pointer : PtrRecord → DnsLabel,
      file.ptrs = (zonePtrs db zone).flatMap fun r => ptrLine (pointer r) r := by
  unfold generateRzone at hfile
  rcases hn : ipNetwork zone.zoneRootAddress zone.zoneRootPrefix with _ | net
  · simp only [hn] at hfile
    cases hfile
  · simp only [hn] at hfile
    obtain ⟨header, -, hfile⟩ := bind_eq_ok.mp hfile
    obtain ⟨account, -, hfile⟩ := bind_eq_ok.mp hfile
    obtain ⟨ptrs, hptrs, hfile⟩ := bind_eq_ok.mp hfile
    obtain ⟨ns, -, hfile⟩ := bind_eq_ok.mp hfile
    obtain ⟨auto, -, hfile⟩ := bind_eq_ok.mp hfile
    obtain rfl := Except.ok.inj hfile
    let pointer : PtrRecord → DnsLabel := fun r => (ptrPointer h (networkToApra net) r).toOption.getD .root
    have hline : ∀ r ∈ zonePtrs db zone,
        ptrText h (networkToApra net) r = .ok (ptrLine (pointer r) r) := by
      intro r hr
      obtain ⟨t, -, ht⟩ := (mem_mapM hptrs).2 r hr
      obtain ⟨p, hp, -⟩ := bind_eq_ok.mp ht
      unfold ptrText
      simp only [pointer, hp]
      rfl
    have hmap := mapM_eq_map hline
    have heq : ptrs = _ := Except.ok.inj (hptrs.symm.trans hmap)
    exact ⟨pointer, by rw [heq, List.flatMap_def]⟩

/-- **Reverse names nest up to whole labels.** The name of an address of the network of a zone is equal
to the name of the zone or below it if and only if the address is in the network with the prefix rounded
up to whole labels. This holds of every address of the network if and only if the prefix is a multiple
of 8 (IPv4) or 4 (IPv6). Every PTR line of the file of the zone has the name of its address as owner,
which is inside the zone under the same condition, and distinct addresses have distinct names. -/
theorem nested_iff {zone : ReverseZone} (hz : cleanZone zone = .ok ()) :
    ∃ net, network zone = some net ∧
      (∀ address, net.contains address = true →
        (Below (addressToApra address) (networkToApra net) ↔
          (labelNetwork net).contains address = true)) ∧
      ((∀ address, net.contains address = true → Below (addressToApra address) (networkToApra net)) ↔
        labelBits net.address ∣ net.prefixLen) ∧
      (∀ record, cleanPtr zone record = .ok () →
        (Below (addressToApra record.recordAddress) (networkToApra net) ↔
          (labelNetwork net).contains record.recordAddress = true)) ∧
      (∀ (h : Host) (accounts : Accounts) (db : Db) (time : ℕ) (file : RzoneFile),
        generateRzone h accounts db time zone = .ok file →
        ∃ pointer : PtrRecord → DnsLabel,
          file.ptrs = (zonePtrs db zone).flatMap fun record => ptrLine (pointer record) record) ∧
      ∀ a b, (addressToApra a).Eqv (addressToApra b) → a = b := by
  obtain ⟨net, hn⟩ := cleanZone_eq_ok hz
  have hpre := prefixLen_le hn
  refine ⟨net, hn, fun address hin => below_iff hpre hin, all_below_iff hn, fun record hrecord => ?_,
    fun h accounts db time file hfile => ptrs_generateRzone hfile, fun a b => addressToApra_inj⟩
  exact below_iff hpre ((cleanPtr_eq_ok hn).mp hrecord)

/-- `10.0.0.0/9` -/
def halfZone : ReverseZone := ⟨1, .v4 0x0a000000#32, 9, false⟩

/-- The PTR record of `10.1.0.1`. -/
def outsidePtr : PtrRecord := ⟨1, 1, .v4 0x0a010001#32, 3600, "host.example".toList⟩

theorem nested_halfZone : ∃ net, network halfZone = some net ∧
    ((∀ address, net.contains address = true → Below (addressToApra address) (networkToApra net)) ↔
      labelBits net.address ∣ net.prefixLen) := by
  have hz : cleanZone halfZone = .ok () := by decide
  obtain ⟨net, hn, -, hall, -⟩ := nested_iff hz
  exact ⟨net, hn, hall⟩

/-- The zone and the record are accepted, and the name of the address is not below that of the zone. -/
theorem not_nested_halfZone : ¬ ∀ (zone : ReverseZone) (net : IpNetwork) (record : PtrRecord),
    cleanZone zone = .ok () → network zone = some net → cleanPtr zone record = .ok () →
    Below (addressToApra record.recordAddress) (networkToApra net) := by
  intro hall
  have hbelow := hall halfZone ⟨.v4 0x0a000000#32, 9⟩ outsidePtr (by decide) (by decide) (by decide)
  revert hbelow
  decide

end HexDns.Tasks.ReverseNames
