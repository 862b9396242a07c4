import HexDns.Grpc.MostSpecific
import HexDns.Grpc.Records
import HexDns.Svcb.Https
import HexDns.Tasks.ImportedOwners

/-! # The owner names of HTTPS records

The owner of an HTTPS record is its name, with its port and its scheme in front as labels unless they are those of
`https`. `parse_https_record_name` takes them off again. `namesBack_iff` says which records come back, and when
different records have different owners. -/

namespace HexDns.Grpc.HttpsNames

open HexDns.Lib.Texts HexDns.Lib.Programs HexDns.Base.Py HexDns.Base.Label HexDns.Models.Db HexDns.Models.Env
  HexDns.Models.Names HexDns.Grpc.Records HexDns.Grpc.MostSpecific HexDns.Svcb.Https HexDns.Tasks.ImportedOwners

/-! ### The statement -/

/-- A record that passes `clean`, with an ASCII name in lower case and a scheme of letters and digits. -/
structure Stored (n : Text) (data : HttpsData) : Prop where
  ascii : IsAscii n
  lower : ∀ c ∈ n, lowerChar c = c
  scheme : ∀ c ∈ text data.scheme, c.isAlphanum
  port : data.port.getD 0 ≤ 65535
  clean : PassesClean data

/-- `idna.encode` writes lower-case letters, digits, hyphens and dots, and an ASCII text in lower case as it is. -/
structure IdnaFacts (h : Host) : Prop where
  chars : IdnaAscii h
  same : ∀ t u, IsAscii t → (∀ c ∈ t, lowerChar c = c) → h.idna t = some u → u = t

/-- 443 and `https`. -/
def httpsService : ℕ × Text := (443, "https".toList)

/-- The port and the scheme of a record, those of `https` if they are not set. -/
def service (data : HttpsData) : ℕ × Text :=
  if data.port.getD 0 = 0 then httpsService else (data.port.getD 0, text data.scheme)

section
variable (h : Host)

/-- `DNSLabel(self.svcb_record_name)` -/
def ownerName (n : Text) (data : HttpsData) : Except PyErr DnsLabel :=
  match svcbRecordName h n data with
  | some s => DnsLabel.ofText h.py s
  | none => .ok .root

/-- **The owner is parsed back** to the port, the scheme and the name of the record. -/
def ParsesBack (n : Text) (data : HttpsData) : Prop :=
  ∃ l name, ownerName h n data = .ok l ∧
    parseHttpsRecordName h.py l = (((service data).1 : ℤ), (service data).2, name) ∧
      DnsLabel.searchName name = .ok n

/-- The owners are the same name. -/
def SameOwner (n n' : Text) (data data' : HttpsData) : Prop :=
  ∃ l l', ownerName h n data = .ok l ∧ ownerName h n' data' = .ok l' ∧ l.Eqv l'

/-- **Two records come back**, and have different owners if they differ. -/
def NamesBack (n n' : Text) (data data' : HttpsData) : Prop :=
  ParsesBack h n data ∧ ParsesBack h n' data' ∧
    (SameOwner h n n' data data' → (service data, n) = (service data', n'))

/-- Labels of one to 63 characters. -/
def PlainLabels (t : Text) : Prop := ∀ l ∈ t.splitOn '.', 0 < l.length ∧ l.length < 64

/-- The name begins with what is read as a port and a scheme. -/
def ServiceLike (n : Text) : Prop :=
  ∃ port scheme rest, n.splitOn '.' = ('_' :: port) :: ('_' :: scheme) :: rest ∧ (h.py.int port).isSome

/-- **The records that come back**: with port 443 and scheme `https` the name is published as it is, and has to be
without escapes, otherwise as `idna_label` has it, which has to take it as it is, and writes blanks so that they are
read as parentheses; and either there are a port and a scheme in front of it, or it does not look as if. -/
def ReadsBack (n : Text) (data : HttpsData) : Prop :=
  if data.port = some 443 ∧ data.scheme = some "https".toList then
    (n = [] ∨ PlainLabels n ∧ unescape n = n) ∧ ¬ ServiceLike h n
  else
    (n = ['@'] ∨ isApex n = false ∧ (∀ c ∈ n, allowedChar c = true ∧ c ≠ ' ') ∧ PlainLabels n) ∧
      (if data.port.getD 0 = 0 then ¬ ServiceLike h n else (text data.scheme).length < 63)

/-- Schemes that are not `https` on 443 do not differ only by the case of their letters. -/
def SchemesApart (n n' : Text) (data data' : HttpsData) : Prop :=
  service data ≠ httpsService → service data' ≠ httpsService → n = n' → (service data).1 = (service data').1 →
    (service data).2.map lowerChar = (service data').2.map lowerChar → (service data).2 = (service data').2

end

/-! ### Names and their texts -/

section
variable {py : Python} {t u n : Text} {l : DnsLabel}

theorem unescape_append {a b : Text} (ha : '\\' ∉ a) : unescape (a ++ b) = a ++ unescape b := by
  induction a with
  | nil => rfl
  | cons c a ih =>
    have hc : c ≠ '\\' := fun hc => ha (hc ▸ List.mem_cons_self)
    have ha : '\\' ∉ a := fun hmem => ha (List.mem_cons_of_mem c hmem)
    rw [List.cons_append, unescape.eq_def]
    split
    · exact absurd (List.cons.inj ‹_›).1 hc
    · obtain ⟨rfl, rfl⟩ := List.cons.inj ‹_›
      rw [ih ha]
      rfl
    · exact absurd ‹_› (List.cons_ne_nil c _)

theorem unescape_cases (t : Text) : unescape t = t ∨ (unescape t).length < t.length := by
  fun_induction unescape t with
  | case1 a b c t hdigits ih =>
    right
    have hle : (unescape t).length ≤ t.length := by
      rcases ih with ih | ih
      · exact le_of_eq (congrArg List.length ih)
      · omega
    simp only [List.length_cons]
    omega
  | case2 a b c t hdigits ih =>
    rcases ih with ih | ih
    · exact Or.inl (congrArg ('\\' :: ·) ih)
    · right
      simp only [List.length_cons] at ih ⊢
      omega
  | case3 c t _ ih =>
    rcases ih with ih | ih
    · exact Or.inl (congrArg (c :: ·) ih)
    · right
      simp only [List.length_cons]
      omega
  | case4 => exact Or.inl rfl

theorem unescape_ne_nil (ht : t ≠ []) : unescape t ≠ [] := by
  fun_induction unescape t with
  | case1 a b c t hdigits ih => exact List.cons_ne_nil _ _
  | case2 a b c t hdigits ih => exact List.cons_ne_nil _ _
  | case3 c t _ ih => exact List.cons_ne_nil _ _
  | case4 => exact absurd rfl ht

/-- What the escape of a blank is read as. -/
def readBlank (c : Char) : Char := if c = ' ' then '(' else c

theorem unescape_escapeBlanks (ht : ∀ c ∈ t, allowedChar c = true) :
    unescape (escapeBlanks t) = t.map readBlank := by
  induction t with
  | nil => rfl
  | cons c t ih =>
    obtain ⟨hc, ht⟩ := List.forall_mem_cons.mp ht
    have hcons : escapeBlanks (c :: t) = (if c = ' ' then ['\\', '0', '4', '0'] else [c]) ++ escapeBlanks t := rfl
    rw [hcons, List.map_cons, readBlank]
    by_cases hblank : c = ' '
    · rw [if_pos hblank, if_pos hblank]
      show unescape ('\\' :: '0' :: '4' :: '0' :: escapeBlanks t) = _
      rw [unescape, if_pos ⟨by decide, by decide, by decide⟩, ih ht]
      rfl
    · have hslash : '\\' ∉ [c] := by
        intro hmem
        rw [← List.mem_singleton.mp hmem] at hc
        exact absurd hc (by decide)
      rw [if_neg hblank, if_neg hblank, unescape_append hslash, ih ht]
      rfl

theorem length_encode_ascii (ht : IsAscii t) : (encode t).length = t.length := length_encode_eq_iff.mpr ht

/-- The text of ASCII labels. -/
theorem searchName_iff {ls : List Bytes} (hascii : ∀ b ∈ ls, ∀ x ∈ b, x.toNat < 128) :
    DnsLabel.searchName ⟨ls⟩ = .ok n ↔ [46].intercalate ls = encode n := by
  obtain ⟨ts, hts, -⟩ := exists_texts (l := ⟨ls⟩) hascii
  have hls : ls = ts.map encode := by
    have hdecode : ∀ (ls : List Bytes) (ts : List Text), DnsLabel.texts ⟨ls⟩ = .ok ts → ls = ts.map encode := by
      intro ls
      induction ls with
      | nil =>
        intro ts h
        obtain rfl := Except.ok.inj h
        rfl
      | cons b ls ih =>
        intro ts h
        obtain ⟨t, ts', rfl, ht, hts'⟩ := (texts_eq_ok rfl).mp h
        rw [List.map_cons, ← ih ts' hts', decode_eq_some.mp ht]
    exact hdecode ls ts hts
  rw [searchName_eq_ok]
  have hjoin : encode (['.'].intercalate ts) = [46].intercalate ls := by
    rw [hls]
    exact flatMap_intercalate String.utf8EncodeChar ['.'] ts
  constructor
  · rintro ⟨ts', hts', rfl⟩
    obtain rfl := Except.ok.inj (hts.symm.trans hts')
    exact hjoin.symm
  · intro h
    exact ⟨ts, hts, (encode_inj (hjoin.trans h)).symm⟩

/-- What a text is as a name, and that its labels are short if it does not end in a dot. -/
theorem ofText_cases (hu : unescape t = u) (hascii : IsAscii u) (h : DnsLabel.ofText py t = .ok l) :
    [46].intercalate l.label = (encode u).rdropWhile (· = 46) ∧
      (t ≠ [] → (encode u).rdropWhile (· = 46) = encode u → PlainLabels u ∧ l.label = rootLabels u) := by
  unfold DnsLabel.ofText at h
  by_cases hroot : t = [] ∨ t = ['.']
  · rw [if_pos hroot] at h
    obtain rfl := Except.ok.inj h
    rcases hroot with rfl | rfl
    · rw [← hu]
      exact ⟨rfl, fun hne => absurd rfl hne⟩
    · rw [← hu]
      refine ⟨by decide, fun _ hlast => absurd hlast (by decide)⟩
  rw [if_neg hroot, hu] at h
  obtain ⟨b, hb, hl⟩ := bind_eq_ok.mp h
  unfold encodeIdna encodeIdnaAscii at hb
  rw [if_pos hascii] at hb
  dsimp only at hb
  split_ifs at hb with hshort
  obtain rfl := Except.ok.inj hb
  obtain rfl := Except.ok.inj hl
  refine ⟨List.intercalate_splitOn 46, fun hne hlast => ?_⟩
  rw [splitOn_encode hascii] at hshort
  rw [hlast, splitOn_encode hascii]
  refine ⟨fun x hx => ?_, rfl⟩
  have hlen : (encode x).length = x.length :=
    length_encode_ascii fun c hc => hascii c (mem_of_mem_splitOn hx c hc)
  have hmem : encode x ∈ rootLabels u := List.mem_map_of_mem hx
  rw [← List.dropLast_append_getLast (rootLabels_ne_nil u)] at hmem
  rcases List.mem_append.mp hmem with hmem | hmem
  · have hboth := hshort.1 _ hmem
    omega
  · -- the last label is not empty, as the text does not end in a dot
    have heq : encode x = (rootLabels u).getLast (rootLabels_ne_nil u) := List.mem_singleton.mp hmem
    have hlt := hshort.2
    rw [List.getLastD_eq_getLast?, List.getLast?_eq_some_getLast (rootLabels_ne_nil u), Option.getD_some,
      ← heq] at hlt
    refine ⟨?_, by omega⟩
    by_contra hzero
    have hnil : x = [] := List.length_eq_zero_iff.mp (by omega)
    rw [hnil] at heq
    have hjoin := encode_eq_intercalate u
    rw [← List.dropLast_append_getLast (rootLabels_ne_nil u), ← heq] at hjoin
    by_cases hfront : (rootLabels u).dropLast = []
    · rw [hfront] at hjoin
      have hu0 : u = [] := encode_inj hjoin
      exact unescape_ne_nil hne (hu.trans hu0)
    · rw [intercalate_append hfront (List.cons_ne_nil _ _)] at hjoin
      have hdot : encode u = [46].intercalate (rootLabels u).dropLast ++ [46] := by
        rw [hjoin]
        simp
      have hpos : encode u ≠ [] := by
        rw [hdot]
        simp
      have hend := List.rdropWhile_eq_self_iff.mp hlast hpos
      simp only [hdot, List.getLast_append_singleton] at hend
      exact hend rfl

/-- A list without `c` is found again in front of the first `c`. -/
theorem eq_of_prefix_of_notMem {α : Type*} {a b x y : List α} {c : α} (hle : a.length ≤ b.length) (hc : c ∉ b)
    (h : a ++ c :: x <+: b ++ c :: y) : a = b := by
  obtain ⟨z, hz⟩ := h
  rw [List.append_assoc, List.cons_append] at hz
  rcases List.append_eq_append_iff.mp hz with ⟨d, hd, htail⟩ | ⟨d, hd, -⟩
  · rcases d with _ | ⟨e, d⟩
    · rw [hd, List.append_nil]
    · obtain ⟨rfl, -⟩ := List.cons.inj htail
      exact absurd (by rw [hd]; simp) hc
  · have hnil : d = [] := by
      have hlen := congrArg List.length hd
      rw [List.length_append] at hlen
      exact List.length_eq_zero_iff.mp (by omega)
    rw [hd, hnil, List.append_nil]

/-- The first two labels look like a port and a scheme. -/
def Fronted (py : Python) (ls : List Bytes) : Prop :=
  ∃ port scheme rest, ls = (95 :: port) :: (95 :: scheme) :: rest ∧ ((decode port).bind py.int).isSome ∧
    (decode scheme).isSome

theorem parse_of_not_fronted {ls : List Bytes} (h : ¬ Fronted py ls) :
    parseHttpsRecordName py ⟨ls⟩ = (443, "https".toList, ⟨ls⟩) := by
  unfold parseHttpsRecordName
  split
  · rename_i port scheme rest hls
    have hls : ls = (95 :: port) :: (95 :: scheme) :: rest := hls
    split
    · rename_i k s hport hscheme
      refine absurd ⟨port, scheme, rest, hls, ?_, ?_⟩ h
      · rw [hport]
        rfl
      · rw [hscheme]
        rfl
    · rfl
  · rfl

theorem parse_fronted {port scheme : Bytes} {rest : List Bytes} {k : ℤ} {s : Text}
    (hport : (decode port).bind py.int = some k) (hscheme : decode scheme = some s) :
    parseHttpsRecordName py ⟨(95 :: port) :: (95 :: scheme) :: rest⟩ = (k, s, if rest = [] then .at else ⟨rest⟩) := by
  unfold parseHttpsRecordName
  simp only [hport, hscheme]

/-- The labels of an ASCII name show what the name looks like. -/
theorem fronted_iff {h : Host} (hascii : IsAscii n) : Fronted h.py (rootLabels n) ↔ ServiceLike h n := by
  have hlabel : ∀ l ∈ n.splitOn '.', ∀ b, encode l = 95 :: b ↔ ∃ t, l = '_' :: t ∧ encode t = b := by
    intro l hl b
    have hl : IsAscii l := fun c hc => hascii c (mem_of_mem_splitOn hl c hc)
    constructor
    · intro hb
      rcases l with _ | ⟨c, t⟩
      · cases hb
      rw [encode_cons, utf8EncodeChar_ascii (hl c List.mem_cons_self), List.singleton_append] at hb
      obtain ⟨hc, rfl⟩ := List.cons.inj hb
      have hval : c.toNat = 95 := by
        have hlt := hl c List.mem_cons_self
        have hnat := congrArg UInt8.toNat hc
        rw [toNat_byteOf hlt] at hnat
        exact hnat
      exact ⟨t, by rw [show c = '_' from Char.toNat_inj.mp hval], rfl⟩
    · rintro ⟨t, rfl, rfl⟩
      rfl
  unfold Fronted ServiceLike rootLabels
  constructor
  · rintro ⟨port, scheme, rest, hls, hport, -⟩
    rcases hsplit : n.splitOn '.' with _ | ⟨p, _ | ⟨s, ls⟩⟩
    · exact absurd hsplit (List.splitOn_ne_nil '.' n)
    · rw [hsplit] at hls
      exact absurd (congrArg List.length hls) (by simp)
    rw [hsplit, List.map_cons, List.map_cons] at hls
    obtain ⟨hp, hls⟩ := List.cons.inj hls
    obtain ⟨hs, -⟩ := List.cons.inj hls
    obtain ⟨p', rfl, rfl⟩ := (hlabel p (hsplit ▸ List.mem_cons_self) port).mp hp
    obtain ⟨s', rfl, rfl⟩ := (hlabel s (by rw [hsplit]; simp) scheme).mp hs
    refine ⟨p', s', ls, rfl, ?_⟩
    rw [decode_encode] at hport
    exact hport
  · rintro ⟨p, s, ls, hsplit, hport⟩
    refine ⟨encode p, encode s, ls.map encode, ?_, ?_, ?_⟩
    · rw [hsplit]
      rfl
    · rw [decode_encode]
      exact hport
    · rw [decode_encode]
      rfl

theorem searchName_rootLabels (hn : IsAscii n) : DnsLabel.searchName ⟨rootLabels n⟩ = .ok n := by
  have hascii : ∀ b ∈ rootLabels n, ∀ x ∈ b, x.toNat < 128 := by
    intro b hb x hx
    obtain ⟨l, hl, rfl⟩ := List.mem_map.mp hb
    obtain ⟨c, hc, hx⟩ := List.mem_flatMap.mp hx
    have hlt := hn c (mem_of_mem_splitOn hl c hc)
    rw [utf8EncodeChar_ascii hlt, List.mem_singleton] at hx
    rw [hx, toNat_byteOf hlt]
    exact hlt
  exact (searchName_iff hascii).mpr (encode_eq_intercalate n).symm

/-- **A name is parsed to itself** only if it is read as it is and does not look like a service, where what is read
is no longer than the name. -/
theorem plain_of_parse {h : Host} (hn : IsAscii n) (hu : unescape t = u) (hascii : IsAscii u) (ht : t ≠ [])
    (hlen : u.length ≤ n.length) {port : ℤ} {scheme : Text} {name : DnsLabel}
    (hl : DnsLabel.ofText h.py t = .ok l) (hparse : parseHttpsRecordName h.py l = (port, scheme, name))
    (hname : name.searchName = .ok n) : u = n ∧ PlainLabels n ∧ ¬ ServiceLike h n := by
  obtain ⟨hjoin, hplain⟩ := ofText_cases hu hascii hl
  have hlbytes := ascii_ofText hl
  have hdrop : ((encode u).rdropWhile (· = 46)).length ≤ u.length := by
    rw [← length_encode_ascii hascii]
    exact (List.rdropWhile_prefix _ _).length_le
  have hn0 : (encode n).length = n.length := length_encode_ascii hn
  by_cases hf : Fronted h.py l.label
  · -- what is left behind a port and a scheme is shorter
    obtain ⟨p, s, rest, hls, hp, hs⟩ := hf
    obtain ⟨k, hk⟩ := Option.isSome_iff_exists.mp hp
    obtain ⟨s', hs'⟩ := Option.isSome_iff_exists.mp hs
    obtain ⟨ls⟩ := l
    have hls : ls = (95 :: p) :: (95 :: s) :: rest := hls
    rw [hls, parse_fronted hk hs'] at hparse
    obtain rfl : (if rest = [] then DnsLabel.at else ⟨rest⟩) = name := (Prod.mk.inj (Prod.mk.inj hparse).2).2
    have hlong : ([46].intercalate rest).length + 3 ≤ ([46].intercalate ls).length := by
      rw [hls]
      rcases rest with _ | ⟨r, rest⟩
      · simp
        omega
      · simp
        omega
    rw [show ([46] : Bytes).intercalate ls = _ from hjoin] at hlong
    split_ifs at hname with hrest
    · have hat : n = ['@'] := (Except.ok.inj hname).symm
      rw [hat] at hlen
      simp only [List.length_singleton] at hlen
      omega
    · have hrestjoin := (searchName_iff fun b hb => hlbytes b (by rw [hls]; simp [hb])).mp hname
      rw [hrestjoin, hn0] at hlong
      omega
  · rw [parse_of_not_fronted hf] at hparse
    obtain rfl : l = name := (Prod.mk.inj (Prod.mk.inj hparse).2).2
    have hsame := (searchName_iff hlbytes).mp hname
    rw [hjoin] at hsame
    have hself : (encode u).rdropWhile (· = 46) = encode u := by
      refine (List.rdropWhile_prefix _ _).eq_of_length ?_
      rw [hsame, hn0, length_encode_ascii hascii]
      have := congrArg List.length hsame
      omega
    have hun : u = n := encode_inj (hself.symm.trans hsame)
    obtain ⟨hpl, hlabels⟩ := hplain ht hself
    rw [hun] at hpl hlabels
    refine ⟨hun, hpl, fun hservice => hf ?_⟩
    rw [hlabels]
    exact (fronted_iff hn).mpr hservice

end

/-! ### Records -/

section
variable {h : Host} {n : Text} {data : HttpsData} (hst : Stored n data)
include hst

theorem Stored.schemeGiven (hport : data.port.getD 0 ≠ 0) : text data.scheme ≠ [] := by
  obtain ⟨d, hd⟩ := passesClean_iff.mp hst.clean
  exact hd.schemeGiven hport

theorem Stored.schemeUnset (hport : data.port.getD 0 = 0) : text data.scheme = [] := by
  obtain ⟨d, hd⟩ := passesClean_iff.mp hst.clean
  by_contra hne
  exact hd.portSet hne hport

omit hst in
theorem idnaLabel_apex (hapex : isApex n = true) : idnaLabel h n = some ['@'] := by
  unfold idnaLabel
  rw [if_pos hapex]

/-- A name that is not the apex is published as it is, but for its blanks, if all its characters are allowed. -/
theorem Stored.idnaLabel_eq (hidna : IdnaFacts h) (hapex : isApex n = false) :
    idnaLabel h n = if n.all allowedChar then some (escapeBlanks n) else none := by
  unfold idnaLabel
  rw [hapex, if_neg (by simp)]
  rcases hu : h.idna n with _ | u
  · rfl
  · obtain rfl := hidna.same n u hst.ascii hst.lower hu
    have hchars := hidna.chars _ _ hu
    have hallowed : u.all allowedChar = true := List.all_eq_true.mpr fun c hc => allowedChar_of_idna (hchars c hc)
    have hblank : ' ' ∉ u := fun hmem => absurd (hchars ' ' hmem) (by decide)
    rw [if_pos hallowed, escapeBlanks_of_notMem hblank]

/-- The port and the scheme as labels. -/
def front (data : HttpsData) : Text :=
  '_' :: showNat (data.port.getD 0) ++ '.' :: '_' :: text data.scheme

theorem Stored.svcbRecordName_unset (hport : data.port.getD 0 = 0) : svcbRecordName h n data = idnaLabel h n := by
  have hscheme := hst.schemeUnset hport
  unfold svcbRecordName
  rcases hp : data.port with _ | p
  · rcases hs : data.scheme with _ | s
    · simp
    · rw [hs] at hscheme
      have hnil : s = [] := hscheme
      simp [hnil]
  · rw [hp] at hport
    have hzero : p = 0 := hport
    rcases hs : data.scheme with _ | s
    · simp [hzero]
    · rw [hs] at hscheme
      have hnil : s = [] := hscheme
      simp [hzero, hnil]

theorem Stored.svcbRecordName_set (hport : data.port.getD 0 ≠ 0)
    (hhttps : ¬ (data.port = some 443 ∧ data.scheme = some "https".toList)) : svcbRecordName h n data =
      some (front data ++ if isApex n then [] else '.' :: showOption (idnaLabel h n)) := by
  have hscheme := hst.schemeGiven hport
  unfold svcbRecordName
  rw [if_neg hhttps]
  rcases hp : data.port with _ | p
  · rw [hp] at hport
    exact absurd rfl hport
  rcases hs : data.scheme with _ | s
  · rw [hs] at hscheme
    exact absurd rfl hscheme
  rw [hp] at hport
  rw [hs] at hscheme
  have hp0 : p ≠ 0 := hport
  have hs0 : s ≠ [] := hscheme
  have hset : ¬ ((some p = none ∨ some p = some 0) ∧ (some s = none ∨ some s = some [])) := by
    simp [hp0]
  rw [if_neg hset]
  unfold front
  rw [hp, hs]
  split_ifs <;> simp [text, showOption]

omit hst in
theorem service_set (hport : data.port.getD 0 ≠ 0) : service data = (data.port.getD 0, text data.scheme) := by
  unfold service
  rw [if_neg hport]

omit hst in
/-- The services that are not put in front of the name. -/
theorem service_eq_https : service data = httpsService ↔
    data.port.getD 0 = 0 ∨ data.port = some 443 ∧ data.scheme = some "https".toList := by
  by_cases hport : data.port.getD 0 = 0
  · refine iff_of_true ?_ (Or.inl hport)
    unfold service
    rw [if_pos hport]
  rw [service_set hport]
  have hport' : data.port.getD 0 = 443 ↔ data.port = some 443 := by
    rcases hp : data.port with _ | p
    · simp
    · simp
  have hscheme : text data.scheme = "https".toList ↔ data.scheme = some "https".toList := by
    rcases hs : data.scheme with _ | s
    · simp [text]
    · simp [text]
  unfold httpsService
  rw [Prod.mk.injEq, hport', hscheme]
  exact ⟨Or.inr, fun h => h.resolve_left hport⟩

end

/-! ### The port and the scheme in front -/

section
variable {h : Host} {n u v : Text} {data : HttpsData} (hst : Stored n data)

/-- The two labels in front of a name. -/
def frontLabels (data : HttpsData) : List Bytes :=
  [95 :: encode (showNat (data.port.getD 0)), 95 :: encode (text data.scheme)]

theorem frontLabels_ne_nil : frontLabels data ≠ [] := List.cons_ne_nil _ _

include hst in
theorem Stored.front_chars : ∀ c ∈ front data, c.toNat < 128 ∧ c ≠ '\\' := by
  have halnum : ∀ c : Char, c.isAlphanum = true → c.toNat < 128 ∧ c ≠ '\\' := by
    intro c hc
    refine ⟨allowedChar_lt (by unfold allowedChar; rw [show (c.isAlpha || c.isDigit) = true from hc]; rfl), ?_⟩
    · rintro rfl
      exact absurd hc (by decide)
  intro c hc
  unfold front at hc
  simp only [List.cons_append, List.mem_cons, List.mem_append] at hc
  rcases hc with rfl | hc | rfl | rfl | hc
  · decide
  · exact halnum c (by simp [Char.isAlphanum, isDigit_showNat hc])
  · decide
  · decide
  · exact halnum c (hst.scheme c hc)

include hst in
theorem Stored.splitOn_front : (front data).splitOn '.' =
    ['_' :: showNat (data.port.getD 0), '_' :: text data.scheme] ∧
      ∀ v, (front data ++ '.' :: v).splitOn '.' =
        ('_' :: showNat (data.port.getD 0)) :: ('_' :: text data.scheme) :: v.splitOn '.' := by
  have hport : '.' ∉ '_' :: showNat (data.port.getD 0) := by
    intro hmem
    rcases List.mem_cons.mp hmem with hdot | hmem
    · exact absurd hdot (by decide)
    · exact absurd (isDigit_showNat hmem) (by decide)
  have hscheme : '.' ∉ '_' :: text data.scheme := by
    intro hmem
    rcases List.mem_cons.mp hmem with hdot | hmem
    · exact absurd hdot (by decide)
    · exact absurd (hst.scheme '.' hmem) (by decide)
  refine ⟨?_, fun v => ?_⟩
  · show ('_' :: showNat (data.port.getD 0) ++ '.' :: '_' :: text data.scheme).splitOn '.' = _
    rw [List.splitOn_append_cons_self_of_not_mem hport, List.splitOn_eq_singleton hscheme]
  · have hassoc : front data ++ '.' :: v =
        ('_' :: showNat (data.port.getD 0)) ++ '.' :: ('_' :: text data.scheme ++ '.' :: v) := by
      unfold front
      simp
    rw [hassoc, List.splitOn_append_cons_self_of_not_mem hport, List.splitOn_append_cons_self_of_not_mem hscheme]

include hst in
theorem Stored.labels_ne_nil : (∀ x ∈ (front data).splitOn '.', x ≠ []) ∧
    ∀ v : Text, (∀ x ∈ v.splitOn '.', x ≠ []) → ∀ x ∈ (front data ++ '.' :: v).splitOn '.', x ≠ [] := by
  obtain ⟨hone, htwo⟩ := hst.splitOn_front
  refine ⟨?_, fun v hv => ?_⟩
  · rw [hone]
    simp
  · rw [htwo]
    simpa using hv

include hst in
theorem Stored.port_short : ('_' :: showNat (data.port.getD 0)).length < 64 := by
  have hle : (showNat (data.port.getD 0)).length ≤ 5 :=
    (Nat.length_toDigits_le_iff (by omega) (by omega)).mpr (by have := hst.port; omega)
  simp only [List.length_cons]
  omega

include hst in
/-- The labels are short if the scheme is. -/
theorem Stored.plain_front : (PlainLabels (front data) ↔ (text data.scheme).length < 63) ∧
    ∀ v, PlainLabels (front data ++ '.' :: v) ↔ (text data.scheme).length < 63 ∧ PlainLabels v := by
  obtain ⟨hone, htwo⟩ := hst.splitOn_front
  have hport := hst.port_short
  unfold PlainLabels
  constructor
  · rw [hone]
    simp only [List.forall_mem_cons, List.length_cons] at hport ⊢
    constructor
    · rintro ⟨-, ⟨-, hlen⟩, -⟩
      omega
    · intro hlen
      exact ⟨⟨by omega, hport⟩, ⟨by omega, by omega⟩, fun _ h => nomatch h⟩
  · intro v
    rw [htwo]
    simp only [List.forall_mem_cons, List.length_cons] at hport ⊢
    constructor
    · rintro ⟨-, ⟨-, hlen⟩, hrest⟩
      exact ⟨by omega, hrest⟩
    · rintro ⟨hlen, hrest⟩
      exact ⟨⟨by omega, hport⟩, ⟨by omega, by omega⟩, hrest⟩

include hst in
theorem Stored.rootLabels_front : rootLabels (front data) = frontLabels data ∧
    ∀ v, rootLabels (front data ++ '.' :: v) = frontLabels data ++ rootLabels v := by
  obtain ⟨hone, htwo⟩ := hst.splitOn_front
  unfold rootLabels
  refine ⟨?_, fun v => ?_⟩
  · rw [hone]
    rfl
  · rw [htwo]
    rfl

/-- The labels in front are parsed back, and the rest of the name is what is left. -/
theorem parse_front {rest : List Bytes} : parseHttpsRecordName h.py ⟨frontLabels data ++ rest⟩ =
    (((data.port.getD 0 : ℕ) : ℤ), text data.scheme, if rest = [] then .at else ⟨rest⟩) := by
  have hport : (decode (encode (showNat (data.port.getD 0)))).bind h.py.int = some ((data.port.getD 0 : ℕ) : ℤ) := by
    rw [decode_encode]
    exact h.py.int_digits _
  exact parse_fronted hport (decode_encode _)

end

/-! ### When a record comes back -/

section
variable {h : Host} {n : Text} {data : HttpsData} (hst : Stored n data)

theorem not_serviceLike_short (hn : n.length < 3) : ¬ ServiceLike h n := by
  rintro ⟨port, scheme, rest, hsplit, -⟩
  have hjoin : ['.'].intercalate (n.splitOn '.') = n := List.intercalate_splitOn '.'
  rw [hsplit] at hjoin
  have hlen := congrArg List.length hjoin
  rcases rest with _ | ⟨r, rest⟩
  · simp at hlen
    omega
  · simp at hlen
    omega

theorem parse_root : parseHttpsRecordName h.py .root = (443, "https".toList, .root) :=
  parse_of_not_fronted fun ⟨_, _, _, hls, _⟩ => nomatch hls

theorem parse_at : parseHttpsRecordName h.py .at = (443, "https".toList, .at) :=
  parse_of_not_fronted fun ⟨_, _, _, hls, _⟩ => by simp at hls

theorem ofText_at {py : Python} : DnsLabel.ofText py ['@'] = .ok .at := by
  have hplain : ∀ l ∈ List.splitOn '.' ['@'], 0 < l.length ∧ l.length < 64 := by decide
  exact ofText_unescape py rfl (by decide) hplain

theorem searchName_at : DnsLabel.searchName .at = .ok ['@'] := rfl

/-- **A record of `https` on 443** is published under its name as it is. -/
theorem readsBack_https (hn : IsAscii n) (hhttps : data.port = some 443 ∧ data.scheme = some "https".toList)
    (hascii : IsAscii (unescape n)) (hback : ParsesBack h n data) :
    (n = [] ∨ PlainLabels n ∧ unescape n = n) ∧ ¬ ServiceLike h n := by
  obtain ⟨l, name, hl, hparse, hname⟩ := hback
  have howner : ownerName h n data = DnsLabel.ofText h.py n := by
    unfold ownerName svcbRecordName
    rw [if_pos hhttps]
  rw [howner] at hl
  by_cases hnil : n = []
  · exact ⟨Or.inl hnil, not_serviceLike_short (by rw [hnil]; simp)⟩
  · have hlen : (unescape n).length ≤ n.length := by
      rcases unescape_cases n with heq | hlt
      · exact le_of_eq (congrArg List.length heq)
      · omega
    obtain ⟨hu, hplain, hlike⟩ := plain_of_parse hn rfl hascii hnil hlen hl hparse hname
    exact ⟨Or.inr ⟨hplain, hu⟩, hlike⟩

theorem isAscii_readBlank {t : Text} (ht : ∀ c ∈ t, allowedChar c = true) : IsAscii (t.map readBlank) := by
  intro c hc
  obtain ⟨a, ha, rfl⟩ := List.mem_map.mp hc
  unfold readBlank
  split_ifs
  · decide
  · exact allowedChar_lt (ht a ha)

/-- Blanks do not come back. -/
theorem map_readBlank_eq_self {t : Text} : t.map readBlank = t ↔ ' ' ∉ t := by
  have hmap : t.map readBlank = t ↔ ∀ c ∈ t, readBlank c = c := by
    conv_lhs => rhs; rw [← List.map_id t]
    exact List.map_inj_left
  rw [hmap]
  constructor
  · intro hsame hmem
    exact absurd (hsame ' ' hmem) (by decide)
  · intro hblank c hc
    have hne : c ≠ ' ' := by
      rintro rfl
      exact hblank hc
    exact if_neg hne

theorem allowed_of_readBlank {t : Text} (ht : ∀ c ∈ t, allowedChar c = true) (hsame : t.map readBlank = t) :
    ∀ c ∈ t, allowedChar c = true ∧ c ≠ ' ' := by
  have hblank := map_readBlank_eq_self.mp hsame
  intro c hc
  refine ⟨ht c hc, ?_⟩
  rintro rfl
  exact hblank hc

include hst in
/-- **A record without a port** is published under what `idna_label` makes of its name. -/
theorem Stored.readsBack_unset (hidna : IdnaFacts h) (hport : data.port.getD 0 = 0) (hback : ParsesBack h n data) :
    (n = ['@'] ∨ isApex n = false ∧ (∀ c ∈ n, allowedChar c = true ∧ c ≠ ' ') ∧ PlainLabels n) ∧
      ¬ ServiceLike h n := by
  obtain ⟨l, name, hl, hparse, hname⟩ := hback
  unfold ownerName at hl
  rw [hst.svcbRecordName_unset hport] at hl
  rcases hapex : isApex n with _ | _
  · -- the name of the record is not that of the zone
    have hne : n ≠ [] := by
      rintro rfl
      exact absurd hapex (by decide)
    rw [hst.idnaLabel_eq hidna hapex] at hl
    by_cases hallowed : n.all allowedChar = true
    · rw [if_pos hallowed] at hl
      have hchars : ∀ c ∈ n, allowedChar c = true := List.all_eq_true.mp hallowed
      have hu := unescape_escapeBlanks hchars
      have hescape : escapeBlanks n ≠ [] := by
        intro hnil
        have hmap : n.map readBlank = [] := by
          rw [← hu, hnil]
          rfl
        exact hne (List.map_eq_nil_iff.mp hmap)
      obtain ⟨hsame, hplain, hlike⟩ := plain_of_parse hst.ascii hu (isAscii_readBlank hchars) hescape
        (List.length_map _).le hl hparse hname
      exact ⟨Or.inr ⟨rfl, allowed_of_readBlank hchars hsame, hplain⟩, hlike⟩
    · rw [if_neg hallowed] at hl
      obtain rfl := Except.ok.inj hl
      rw [parse_root] at hparse
      obtain rfl : DnsLabel.root = name := (Prod.mk.inj (Prod.mk.inj hparse).2).2
      exact absurd (Except.ok.inj hname).symm hne
  · rw [idnaLabel_apex hapex] at hl
    dsimp only at hl
    rw [ofText_at] at hl
    obtain rfl := Except.ok.inj hl
    rw [parse_at] at hparse
    obtain rfl : DnsLabel.at = name := (Prod.mk.inj (Prod.mk.inj hparse).2).2
    obtain rfl : ['@'] = n := Except.ok.inj hname
    exact ⟨Or.inl rfl, not_serviceLike_short (by simp)⟩

include hst in
theorem Stored.unescape_front {t v : Text} (ht : unescape t = v) :
    unescape (front data ++ '.' :: t) = front data ++ '.' :: v := by
  have hslash : '\\' ∉ front data ++ ['.'] := by
    intro hmem
    rcases List.mem_append.mp hmem with hmem | hmem
    · exact (hst.front_chars _ hmem).2 rfl
    · exact absurd (List.mem_singleton.mp hmem) (by decide)
  rw [List.append_cons, unescape_append hslash, ht, ← List.append_cons]

include hst in
theorem Stored.isAscii_front {v : Text} (hv : IsAscii v) : IsAscii (front data ++ '.' :: v) := by
  intro c hc
  rcases List.mem_append.mp hc with hc | hc
  · exact (hst.front_chars c hc).1
  rcases List.mem_cons.mp hc with rfl | hc
  · decide
  · exact hv c hc

include hst in
/-- The labels in front of a name `v` that is published. -/
theorem Stored.ofText_front {v : Text} (hv : IsAscii v) {t : Text} (ht : unescape t = v)
    (hscheme : (text data.scheme).length < 63) (hplain : PlainLabels v) :
    DnsLabel.ofText h.py (front data ++ '.' :: t) = .ok ⟨frontLabels data ++ rootLabels v⟩ := by
  have hlabels : PlainLabels (front data ++ '.' :: v) := (hst.plain_front.2 v).mpr ⟨hscheme, hplain⟩
  rw [ofText_unescape h.py (hst.unescape_front ht) (hst.isAscii_front hv) hlabels, hst.rootLabels_front.2]

include hst in
/-- **Only then** is what is left behind the port and the scheme the name. -/
theorem Stored.plain_of_front {v t : Text} (hv : IsAscii v) (ht : unescape t = v) (hlen : v.length ≤ n.length)
    (hat : n ≠ ['@']) (hhttps : service data ≠ httpsService) (hport : data.port.getD 0 ≠ 0) {l name : DnsLabel}
    (hl : DnsLabel.ofText h.py (front data ++ '.' :: t) = .ok l)
    (hparse : parseHttpsRecordName h.py l = (((service data).1 : ℤ), (service data).2, name))
    (hname : name.searchName = .ok n) : v = n ∧ (text data.scheme).length < 63 ∧ PlainLabels n := by
  obtain ⟨hjoin, hplain⟩ := ofText_cases (hst.unescape_front ht) (hst.isAscii_front hv) hl
  have hlbytes := ascii_ofText hl
  have hf : Fronted h.py l.label := by
    by_contra hnot
    rw [show l = ⟨l.label⟩ from rfl, parse_of_not_fronted hnot] at hparse
    obtain ⟨hk, hrest⟩ := Prod.mk.inj hparse
    obtain ⟨hs, -⟩ := Prod.mk.inj hrest
    exact hhttps (Prod.ext (by exact_mod_cast hk.symm) hs.symm)
  obtain ⟨p, s, rest, hls, hp, hs⟩ := hf
  obtain ⟨k, hk⟩ := Option.isSome_iff_exists.mp hp
  obtain ⟨s', hs'⟩ := Option.isSome_iff_exists.mp hs
  obtain ⟨ls⟩ := l
  have hls : ls = (95 :: p) :: (95 :: s) :: rest := hls
  rw [hls, parse_fronted hk hs', service_set hport] at hparse
  obtain ⟨-, hparse⟩ := Prod.mk.inj hparse
  obtain ⟨rfl, hname'⟩ := Prod.mk.inj hparse
  have hrest : rest ≠ [] := by
    rintro rfl
    rw [← hname'] at hname
    exact hat (Except.ok.inj hname).symm
  rw [if_neg hrest] at hname'
  have hs : s = encode (text data.scheme) := (decode_eq_some.mp hs').symm
  have hn : [46].intercalate rest = encode n :=
    (searchName_iff fun b hb => hlbytes b (by rw [hls]; simp [hb])).mp (hname' ▸ hname)
  have hlabels : ([46] : Bytes).intercalate ls = (95 :: p) ++ 46 :: (95 :: s ++ 46 :: encode n) := by
    rw [hls, ← hn]
    obtain ⟨r, rest, rfl⟩ := List.exists_cons_of_ne_nil hrest
    simp
  have hwhole : encode (front data ++ '.' :: v) = (95 :: encode (showNat (data.port.getD 0))) ++
      46 :: (95 :: s ++ 46 :: encode v) := by
    rw [encode_eq_intercalate, hst.rootLabels_front.2, intercalate_append frontLabels_ne_nil (rootLabels_ne_nil v),
      ← encode_eq_intercalate, hs]
    simp [frontLabels]
  -- the text up to its dots at the end is that of the labels
  have hpre := List.rdropWhile_prefix (fun x : UInt8 => x = 46) (encode (front data ++ '.' :: v))
  have hle := hpre.length_le
  rw [← show ([46] : Bytes).intercalate ls = _ from hjoin, hlabels, hwhole] at hpre hle
  have hdot : (46 : UInt8) ∉ 95 :: encode (showNat (data.port.getD 0)) := by
    have hfront : IsAscii (front data) := fun c hc => (hst.front_chars c hc).1
    refine dot_notMem_rootLabels hfront _ ?_
    rw [hst.rootLabels_front.1]
    exact List.mem_cons_self
  have hp : 95 :: p = 95 :: encode (showNat (data.port.getD 0)) := by
    refine eq_of_prefix_of_notMem ?_ hdot hpre
    simp only [List.length_append, List.length_cons, length_encode_ascii hst.ascii, length_encode_ascii hv] at hle ⊢
    omega
  have hsame : ([46] : Bytes).intercalate ls = encode (front data ++ '.' :: v) := by
    rw [hlabels, hwhole]
    refine hpre.eq_of_length_le ?_
    rw [hp]
    simp only [List.length_append, List.length_cons, length_encode_ascii hst.ascii, length_encode_ascii hv]
    omega
  have hvn : v = n := by
    rw [hlabels, hwhole, hp] at hsame
    have htail := List.append_cancel_left (List.cons.inj (List.append_cancel_left hsame)).2
    exact (encode_inj (List.cons.inj htail).2).symm
  obtain ⟨hpl, -⟩ := hplain (by simp) (hjoin.symm.trans hsame)
  obtain ⟨hscheme, hplv⟩ := (hst.plain_front.2 v).mp hpl
  exact ⟨hvn, hscheme, hvn ▸ hplv⟩

include hst in
/-- **A record with a port and a scheme** is published under them and what `idna_label` makes of its name. -/
theorem Stored.readsBack_set (hidna : IdnaFacts h) (hport : data.port.getD 0 ≠ 0)
    (hhttps : ¬ (data.port = some 443 ∧ data.scheme = some "https".toList)) (hback : ParsesBack h n data) :
    (n = ['@'] ∨ isApex n = false ∧ (∀ c ∈ n, allowedChar c = true ∧ c ≠ ' ') ∧ PlainLabels n) ∧
      (text data.scheme).length < 63 := by
  obtain ⟨l, name, hl, hparse, hname⟩ := hback
  have hservice : service data ≠ httpsService := by
    intro heq
    rcases service_eq_https.mp heq with hzero | hboth
    · exact hport hzero
    · exact hhttps hboth
  unfold ownerName at hl
  rw [hst.svcbRecordName_set hport hhttps] at hl
  dsimp only at hl
  rcases hapex : isApex n with _ | _
  · have hat : n ≠ ['@'] := by
      rintro rfl
      exact absurd hapex (by decide)
    rw [hapex, if_neg (by simp), hst.idnaLabel_eq hidna hapex] at hl
    by_cases hallowed : n.all allowedChar = true
    · rw [if_pos hallowed] at hl
      have hchars : ∀ c ∈ n, allowedChar c = true := List.all_eq_true.mp hallowed
      obtain ⟨hsame, hscheme, hplain⟩ := hst.plain_of_front (isAscii_readBlank hchars)
        (unescape_escapeBlanks hchars) (List.length_map _).le hat hservice hport hl hparse hname
      exact ⟨Or.inr ⟨rfl, allowed_of_readBlank hchars hsame, hplain⟩, hscheme⟩
    · rw [if_neg hallowed] at hl
      have hnone : unescape (showOption none) = showOption none := by decide
      have hascii : IsAscii (showOption none) := by decide
      have hlabels : ∀ x ∈ (showOption none).splitOn '.', x ≠ [] := by decide
      obtain ⟨-, hlabel⟩ := (ofText_cases (hst.unescape_front hnone) (hst.isAscii_front hascii) hl).2 (by simp)
        (rdropWhile_encode (hst.isAscii_front hascii) (hst.labels_ne_nil.2 _ hlabels))
      rw [show l = ⟨l.label⟩ from rfl, hlabel, hst.rootLabels_front.2, parse_front,
        if_neg (rootLabels_ne_nil _)] at hparse
      obtain rfl := (Prod.mk.inj (Prod.mk.inj hparse).2).2
      rw [searchName_rootLabels hascii] at hname
      obtain rfl := Except.ok.inj hname
      -- the text of `None` is not in lower case
      exact absurd (hst.lower 'N' (by decide)) (by decide)
  · rw [hapex, if_pos rfl, List.append_nil] at hl
    have hascii : IsAscii (front data) := fun c hc => (hst.front_chars c hc).1
    have hslash : '\\' ∉ front data := fun hmem => (hst.front_chars _ hmem).2 rfl
    obtain ⟨hplain, hlabel⟩ := (ofText_cases (unescape_eq_self hslash) hascii hl).2 (List.cons_ne_nil _ _)
      (rdropWhile_encode hascii hst.labels_ne_nil.1)
    rw [show l = ⟨frontLabels data ++ []⟩ by rw [List.append_nil, ← hst.rootLabels_front.1, ← hlabel], parse_front,
      if_pos rfl] at hparse
    obtain rfl := (Prod.mk.inj (Prod.mk.inj hparse).2).2
    obtain rfl : ['@'] = n := Except.ok.inj hname
    exact ⟨Or.inl rfl, hst.plain_front.1.mp hplain⟩

/-- The labels of the owner of a record that comes back. -/
def ownerLabels (n : Text) (data : HttpsData) : List Bytes :=
  if service data = httpsService then if n = [] then [] else rootLabels n
  else frontLabels data ++ if n = ['@'] then [] else rootLabels n

include hst in
theorem Stored.ownerName_eq (hidna : IdnaFacts h) (hback : ReadsBack h n data) :
    ownerName h n data = .ok ⟨ownerLabels n data⟩ := by
  unfold ReadsBack at hback
  unfold ownerName ownerLabels
  by_cases hhttps : data.port = some 443 ∧ data.scheme = some "https".toList
  · rw [if_pos hhttps] at hback
    rw [if_pos (service_eq_https.mpr (Or.inr hhttps))]
    unfold svcbRecordName
    rw [if_pos hhttps]
    rcases hback.1 with rfl | ⟨hplain, hu⟩
    · rfl
    · by_cases hnil : n = []
      · rw [if_pos hnil, hnil]
        rfl
      · rw [if_neg hnil]
        exact ofText_unescape h.py hu hst.ascii hplain
  rw [if_neg hhttps] at hback
  obtain ⟨hname, hlast⟩ := hback
  have hnotHttps : data.port.getD 0 ≠ 0 → service data ≠ httpsService := by
    intro hport heq
    rcases service_eq_https.mp heq with hzero | hboth
    · exact hport hzero
    · exact hhttps hboth
  rcases hname with rfl | ⟨hapex, hchars, hplain⟩
  · -- the name of the zone
    have hapex : isApex ['@'] = true := by decide
    by_cases hport : data.port.getD 0 = 0
    · rw [hst.svcbRecordName_unset hport, idnaLabel_apex hapex, if_pos (service_eq_https.mpr (Or.inl hport)),
        if_neg (List.cons_ne_nil _ _)]
      exact ofText_at
    · rw [if_neg hport] at hlast
      have hslash : '\\' ∉ front data := fun hmem => (hst.front_chars _ hmem).2 rfl
      have hascii : IsAscii (front data) := fun c hc => (hst.front_chars c hc).1
      rw [hst.svcbRecordName_set hport hhttps, hapex, if_pos rfl, List.append_nil, if_neg (hnotHttps hport), if_pos rfl,
        List.append_nil, ← hst.rootLabels_front.1]
      exact ofText_unescape h.py (unescape_eq_self hslash) hascii (hst.plain_front.1.mpr hlast)
  · have hnil : n ≠ [] := by
      rintro rfl
      exact absurd hapex (by decide)
    have hat : n ≠ ['@'] := by
      rintro rfl
      exact absurd hapex (by decide)
    have hblank : ' ' ∉ n := fun hmem => (hchars ' ' hmem).2 rfl
    have hslash : '\\' ∉ n := fun hmem => absurd (hchars _ hmem).1 (by decide)
    have hlabel : idnaLabel h n = some n := by
      rw [hst.idnaLabel_eq hidna hapex, if_pos (List.all_eq_true.mpr fun c hc => (hchars c hc).1),
        escapeBlanks_of_notMem hblank]
    by_cases hport : data.port.getD 0 = 0
    · rw [hst.svcbRecordName_unset hport, hlabel, if_pos (service_eq_https.mpr (Or.inl hport)), if_neg hnil]
      exact ofText_unescape h.py (unescape_eq_self hslash) hst.ascii hplain
    · rw [if_neg hport] at hlast
      rw [hst.svcbRecordName_set hport hhttps, hapex, if_neg (by simp), hlabel, if_neg (hnotHttps hport), if_neg hat]
      exact hst.ofText_front hst.ascii (unescape_eq_self hslash) hlast hplain

theorem ReadsBack.not_serviceLike (hback : ReadsBack h n data) (hservice : service data = httpsService) :
    ¬ ServiceLike h n := by
  unfold ReadsBack at hback
  by_cases hhttps : data.port = some 443 ∧ data.scheme = some "https".toList
  · rw [if_pos hhttps] at hback
    exact hback.2
  · rw [if_neg hhttps] at hback
    have hport : data.port.getD 0 = 0 := (service_eq_https.mp hservice).resolve_right hhttps
    rw [if_pos hport] at hback
    exact hback.2

include hst in
/-- **Such a record comes back.** -/
theorem Stored.parsesBack (hidna : IdnaFacts h) (hback : ReadsBack h n data) : ParsesBack h n data := by
  refine ⟨_, if service data = httpsService then ⟨ownerLabels n data⟩
    else if n = ['@'] then .at else ⟨rootLabels n⟩, hst.ownerName_eq hidna hback, ?_⟩
  unfold ownerLabels
  by_cases hservice : service data = httpsService
  · have hlike := hback.not_serviceLike hservice
    rw [if_pos hservice, if_pos hservice, hservice]
    by_cases hnil : n = []
    · rw [if_pos hnil]
      exact ⟨parse_root, by rw [hnil]; rfl⟩
    · rw [if_neg hnil]
      exact ⟨parse_of_not_fronted fun hf => hlike ((fronted_iff hst.ascii).mp hf), searchName_rootLabels hst.ascii⟩
  · have hport : data.port.getD 0 ≠ 0 := fun hzero => hservice (service_eq_https.mpr (Or.inl hzero))
    rw [if_neg hservice, if_neg hservice, parse_front, service_set hport]
    by_cases hat : n = ['@']
    · rw [if_pos hat, if_pos hat, if_pos rfl, hat]
      exact ⟨rfl, searchName_at⟩
    · rw [if_neg hat, if_neg hat, if_neg (rootLabels_ne_nil n)]
      exact ⟨rfl, searchName_rootLabels hst.ascii⟩

include hst in
/-- **Only such a record comes back**, unless what its name is read as is not ASCII. -/
theorem Stored.readsBack (hidna : IdnaFacts h) (hascii : IsAscii (unescape n)) (hparses : ParsesBack h n data) :
    ReadsBack h n data := by
  unfold ReadsBack
  by_cases hhttps : data.port = some 443 ∧ data.scheme = some "https".toList
  · rw [if_pos hhttps]
    exact readsBack_https hst.ascii hhttps hascii hparses
  rw [if_neg hhttps]
  by_cases hport : data.port.getD 0 = 0
  · rw [if_pos hport]
    exact hst.readsBack_unset hidna hport hparses
  · rw [if_neg hport]
    exact hst.readsBack_set hidna hport hhttps hparses

end

/-! ### Two records -/

section
variable {h : Host} {n n' : Text} {data data' : HttpsData} (hst : Stored n data) (hst' : Stored n' data')

/-- The labels in front of a name, in lower case. -/
theorem lower_frontLabels {rest : List Bytes} : DnsLabel.lower ⟨frontLabels data ++ rest⟩ =
    (95 :: encode (showNat (data.port.getD 0))) :: (95 :: encode ((text data.scheme).map lowerChar)) ::
      DnsLabel.lower ⟨rest⟩ := by
  have hdigit : ∀ c ∈ showNat (data.port.getD 0), lowerChar c = c := fun c hc =>
    lowerChar_of_isDigit (isDigit_showNat hc)
  have hport : (encode (showNat (data.port.getD 0))).map lowerByte = encode (showNat (data.port.getD 0)) := by
    rw [← encode_lower, List.map_congr_left hdigit, List.map_id']
  have hunder : lowerByte 95 = 95 := by decide
  unfold DnsLabel.lower frontLabels
  simp only [List.cons_append, List.nil_append, List.map_cons, hport, hunder, encode_lower]

/-- What is behind them tells the name. -/
theorem lower_rest_inj {apex : Text} {a b : Text} (ha : ∀ c ∈ a, lowerChar c = c) (hb : ∀ c ∈ b, lowerChar c = c)
    (h : DnsLabel.lower ⟨if a = apex then [] else rootLabels a⟩ =
      DnsLabel.lower ⟨if b = apex then [] else rootLabels b⟩) : a = b := by
  have hnil : DnsLabel.lower ⟨[]⟩ = [] := rfl
  split_ifs at h with hat hbt hbt
  · rw [hat, hbt]
  · rw [lower_rootLabels hb, hnil] at h
    exact absurd h.symm (rootLabels_ne_nil b)
  · rw [lower_rootLabels ha, hnil] at h
    exact absurd h (rootLabels_ne_nil a)
  · rw [lower_rootLabels ha, lower_rootLabels hb] at h
    exact rootLabels_inj h

include hst in
/-- A name that is published as it is does not look like a port and a scheme in front of a name. -/
theorem Stored.not_sameOwner (hservice : service data = httpsService) (hlike : ¬ ServiceLike h n)
    (hservice' : service data' ≠ httpsService) :
    DnsLabel.lower ⟨ownerLabels n data⟩ ≠ DnsLabel.lower ⟨ownerLabels n' data'⟩ := by
  intro heq
  unfold ownerLabels at heq
  rw [if_pos hservice, if_neg hservice', lower_frontLabels] at heq
  by_cases hnil : n = []
  · rw [if_pos hnil] at heq
    exact nomatch heq
  · rw [if_neg hnil, lower_rootLabels hst.lower] at heq
    refine hlike ((fronted_iff hst.ascii).mp ⟨_, _, _, heq, ?_, ?_⟩)
    · rw [decode_encode]
      exact Option.isSome_iff_exists.mpr ⟨_, h.py.int_digits _⟩
    · rw [decode_encode]
      rfl

include hst hst' in
/-- **The owners of records that come back are different** for different records unless their schemes differ only by
the case of their letters. -/
theorem Stored.owners_iff (hidna : IdnaFacts h) (hback : ReadsBack h n data) (hback' : ReadsBack h n' data') :
    (SameOwner h n n' data data' → (service data, n) = (service data', n')) ↔ SchemesApart n n' data data' := by
  have hsame : SameOwner h n n' data data' ↔
      DnsLabel.lower ⟨ownerLabels n data⟩ = DnsLabel.lower ⟨ownerLabels n' data'⟩ := by
    unfold SameOwner
    rw [hst.ownerName_eq hidna hback, hst'.ownerName_eq hidna hback']
    constructor
    · rintro ⟨l, l', hl, hl', heqv⟩
      obtain rfl := Except.ok.inj hl
      obtain rfl := Except.ok.inj hl'
      exact heqv
    · intro heqv
      exact ⟨_, _, rfl, rfl, heqv⟩
  rw [hsame]
  unfold SchemesApart
  by_cases hservice : service data = httpsService
  · refine iff_of_true (fun heq => ?_) fun hne => absurd hservice hne
    by_cases hservice' : service data' = httpsService
    · unfold ownerLabels at heq
      rw [if_pos hservice, if_pos hservice'] at heq
      rw [hservice, hservice', lower_rest_inj hst.lower hst'.lower heq]
    · exact absurd heq (hst.not_sameOwner hservice (hback.not_serviceLike hservice) hservice')
  by_cases hservice' : service data' = httpsService
  · refine iff_of_true (fun heq => ?_) fun _ hne => absurd hservice' hne
    exact absurd heq.symm (hst'.not_sameOwner hservice' (hback'.not_serviceLike hservice') hservice)
  -- both have their port and their scheme in front
  have hport : data.port.getD 0 ≠ 0 := fun hzero => hservice (service_eq_https.mpr (Or.inl hzero))
  have hport' : data'.port.getD 0 ≠ 0 := fun hzero => hservice' (service_eq_https.mpr (Or.inl hzero))
  have hlower : DnsLabel.lower ⟨ownerLabels n data⟩ = DnsLabel.lower ⟨ownerLabels n' data'⟩ ↔
      n = n' ∧ (service data).1 = (service data').1 ∧
        (service data).2.map lowerChar = (service data').2.map lowerChar := by
    unfold ownerLabels
    rw [if_neg hservice, if_neg hservice', lower_frontLabels, lower_frontLabels, service_set hport,
      service_set hport']
    constructor
    · intro heq
      obtain ⟨hp, hrest⟩ := List.cons.inj heq
      obtain ⟨hs, hn⟩ := List.cons.inj hrest
      refine ⟨lower_rest_inj hst.lower hst'.lower hn, ?_, encode_inj (List.cons.inj hs).2⟩
      have hvalue : ∀ k, Nat.ofDigitChars 10 (showNat k) 0 = k := fun k =>
        Nat.ofDigitChars_toDigits (by omega) (by omega)
      have hdigits := congrArg (Nat.ofDigitChars 10 · 0) (encode_inj (List.cons.inj hp).2)
      simpa only [hvalue] using hdigits
    · rintro ⟨rfl, hp, hs⟩
      dsimp only at hp hs
      rw [hp, hs]
  rw [hlower]
  constructor
  · intro hdistinct _ _ hn hp hs
    exact congrArg (fun k => k.1.2) (hdistinct ⟨hn, hp, hs⟩)
  · rintro hapart ⟨hn, hp, hs⟩
    rw [hn, Prod.ext hp (hapart hservice hservice' hn hp hs)]

end

/-- **HTTPS records come back** and have different owners if they differ, where their names can be read back and their
schemes do not differ only by case; and, where the escapes in their names are those of ASCII characters, only there. -/
theorem namesBack_iff {h : Host} {n n' : Text} {data data' : HttpsData} (hidna : IdnaFacts h) (hst : Stored n data)
    (hst' : Stored n' data') :
    (ReadsBack h n data ∧ ReadsBack h n' data' ∧ SchemesApart n n' data data' → NamesBack h n n' data data') ∧
      (IsAscii (unescape n) → IsAscii (unescape n') → NamesBack h n n' data data' →
        ReadsBack h n data ∧ ReadsBack h n' data' ∧ SchemesApart n n' data data') := by
  constructor
  · rintro ⟨hback, hback', hapart⟩
    exact ⟨hst.parsesBack hidna hback, hst'.parsesBack hidna hback',
      (hst.owners_iff hst' hidna hback hback').mpr hapart⟩
  · rintro hascii hascii' ⟨hparses, hparses', howners⟩
    have hback := hst.readsBack hidna hascii hparses
    have hback' := hst'.readsBack hidna hascii' hparses'
    exact ⟨hback, hback', (hst.owners_iff hst' hidna hback hback').mp howners⟩

/-! ### Two records of one owner -/

theorem idnaFacts_ascii : IdnaFacts .ascii where
  chars := idnaAscii_ascii
  same := by
    intro t u _ hlower hu
    have hsame : t.map lowerChar = t := (List.map_congr_left hlower).trans (List.map_id t)
    have hdef : (if t.map lowerChar ≠ [] ∧ ∀ c ∈ t.map lowerChar, c.isLower ∨ c.isDigit ∨ c = '-' ∨ c = '.' then
        some (t.map lowerChar) else none) = some u := hu
    split_ifs at hdef
    rw [← Option.some.inj hdef, hsame]

/-- A service of `https` on another port. -/
private def otherPort : HttpsData := { bareRecord with port := some 8443 }

private theorem stored_www : Stored "www".toList bareRecord :=
  ⟨by decide, by decide, by decide, by decide, by decide⟩

private theorem stored_otherPort : Stored "www".toList otherPort :=
  ⟨by decide, by decide, by decide, by decide, by decide⟩

private theorem plainLabels_www : PlainLabels "www".toList := by
  unfold PlainLabels
  decide

private theorem readsBack_otherPort : ReadsBack .ascii "www".toList otherPort := by
  refine ⟨Or.inr ⟨by decide, by decide, plainLabels_www⟩, ?_⟩
  have hport : otherPort.port.getD 0 ≠ 0 := by decide
  rw [if_neg hport]
  decide

/-- A record on each of two ports. -/
theorem namesBack_www : IdnaFacts .ascii ∧ Stored "www".toList bareRecord ∧ Stored "www".toList otherPort ∧
    NamesBack .ascii "www".toList "www".toList bareRecord otherPort := by
  refine ⟨idnaFacts_ascii, stored_www, stored_otherPort,
    (namesBack_iff idnaFacts_ascii stored_www stored_otherPort).1 ⟨?_, readsBack_otherPort, ?_⟩⟩
  · have hlike : ¬ ServiceLike .ascii "www".toList := by
      rintro ⟨port, scheme, rest, hsplit, -⟩
      have hone : "www".toList.splitOn '.' = ["www".toList] := by decide
      rw [hone] at hsplit
      cases hsplit
    exact ⟨Or.inr ⟨plainLabels_www, by decide⟩, hlike⟩
  · intro hne
    exact absurd rfl hne

/-- A name that begins with a port and a scheme is published as the name of the record with that port. -/
theorem not_namesBack_underscores : IdnaFacts .ascii ∧ Stored "_8443._https.www".toList bareRecord ∧
    Stored "www".toList otherPort ∧ ¬ ParsesBack .ascii "_8443._https.www".toList bareRecord ∧
      SameOwner .ascii "_8443._https.www".toList "www".toList bareRecord otherPort ∧
        service bareRecord ≠ service otherPort := by
  have hst : Stored "_8443._https.www".toList bareRecord := ⟨by decide, by decide, by decide, by decide, by decide⟩
  have hplain : PlainLabels "_8443._https.www".toList := by
    unfold PlainLabels
    decide
  have hlike : ServiceLike .ascii "_8443._https.www".toList :=
    ⟨"8443".toList, "https".toList, ["www".toList], by decide, by decide⟩
  refine ⟨idnaFacts_ascii, hst, stored_otherPort, fun hparses => ?_, ?_, by decide⟩
  · have hback := hst.readsBack idnaFacts_ascii (by decide) hparses
    exact hback.not_serviceLike (by decide) hlike
  · refine ⟨⟨rootLabels "_8443._https.www".toList⟩, ⟨ownerLabels "www".toList otherPort⟩,
      ofText_unescape _ rfl (by decide) hplain, stored_otherPort.ownerName_eq idnaFacts_ascii readsBack_otherPort, ?_⟩
    decide

end HexDns.Grpc.HttpsNames
