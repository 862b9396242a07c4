import HexDns.Grpc.Atomic
import HexDns.Tasks.Published

/-! # Which rows a deletion removes

RFC 2136 names the records that a deletion removes by their published owner, type and rdata (`Due`).
The handler looks rows up by the text of the name, falls back to the wildcard name, and compares
rdata as Python objects (`Hit`). `exact_iff` says when the two come to the same rows. -/

namespace HexDns.Grpc.Deletions

open HexDns.Lib.Texts HexDns.Lib.Tables HexDns.Lib.Programs HexDns.Base.Py HexDns.Base.Label
  HexDns.Base.Message HexDns.Models.Db HexDns.Models.Env HexDns.Models.Convert
  HexDns.Grpc.FindZone HexDns.Grpc.Records HexDns.Grpc.Tsig HexDns.Grpc.Update HexDns.Grpc.Steps
  HexDns.Grpc.Confined HexDns.Grpc.Atomic HexDns.Tasks.ZoneFile HexDns.Tasks.Published

section
variable (h : Host) (st : Store) (zone : Zone) (zoneRoot recordName : DnsLabel) (rr : Rr) (r : Row)

/-! ### The rows that a deletion is about -/

/-- A published record that a deletion names, at its owner: by the type, or any supported type; for
class NONE by the rdata too. -/
def Names (record : Published) : Prop :=
  if rr.rclass = .any then
    if rr.rtype = .any then record.1 ∈ supportedTypes else record.1 = rr.rtype
  else SameRecord h zoneRoot rr record

/-- **The rows that a deletion is to remove**: those published at its owner with a record that it
names. -/
def Due : Prop :=
  r.zone = zone.id ∧ PublishedAt h zoneRoot r rr.rname ∧
    PublishedWith h st zone zoneRoot r (Names h zoneRoot rr)

/-- The row is one that the deletion takes: of the type's model, and its resource record has the type,
and for class NONE equal rdata; for type ANY, of a model that is deleted. -/
def Taken : Prop :=
  if rr.rclass = .any then
    if rr.rtype = .any then r.model ∈ deletedModels
    else (modelOfType h rr.rtype).map Prod.fst = some r.model ∧ rtypeOf r.data = some rr.rtype
  else (modelOfType h rr.rtype).map Prod.fst = some r.model ∧
    ∃ rdata, toRdata h r.data = .ok (some (rr.rtype, rdata)) ∧ rr.rdata.eq rdata = true

/-- The row is stored under the text of the name. -/
def Stored : Prop := r.zone = zone.id ∧ recordName.searchName = .ok r.recordName

/-- The row is stored under the text of the wildcard name, and no row of its model under the text of
the name. -/
def FallenBack : Prop :=
  r.zone = zone.id ∧ recordName.wildcard.searchName = .ok r.recordName ∧
    ∀ s, recordName.searchName = .ok s → named st r.model s zone = []

/-- **The lookup agrees with what is published.** -/
structure Agrees : Prop where
  /-- a row that is due is stored under the text of the name, if not fallen back to, and taken -/
  found : ∀ r ∈ st.records, Due h st zone zoneRoot rr r →
    (Stored zone recordName r ∨ FallenBack st zone recordName r) ∧ Taken h rr r
  /-- a row stored under the text of the name and taken is published there -/
  here : ∀ r ∈ st.records, Stored zone recordName r → Taken h rr r → Due h st zone zoneRoot rr r
  /-- a row is not fallen back to and taken, unless it is published there -/
  noFallback : ∀ r ∈ st.records, FallenBack st zone recordName r → Taken h rr r →
    Due h st zone zoneRoot rr r

end

/-- The message is a deletion of one record that is answered with `NOERROR`, and this is the database
after it. -/
structure Deletes (h : Host) (now : ℕ) (msg : Bytes) (st : Store) (adm : Admitted) (rr : Rr)
    (zoneRoot : DnsLabel) (st' : Store) : Prop where
  accepted : Accepted h now msg st adm rr st'
  deletion : rr.rclass = .any ∨ rr.rclass = .none
  root : DnsLabel.ofText h.py adm.zone.zoneRoot = .ok zoneRoot

/-- **An accepted deletion removes exactly the rows that it is to remove, and changes nothing else.** -/
def Exact (h : Host) (now : ℕ) (msg : Bytes) (st : Store) : Prop :=
  ∀ adm rr zoneRoot st', Deletes h now msg st adm rr zoneRoot st' →
    ∀ r, r ∈ st'.records ↔ r ∈ st.records ∧ ¬ Due h st adm.zone zoneRoot rr r

variable {h : Host} {now : ℕ} {msg : Bytes} {st st' : Store} {adm : Admitted} {rr : Rr}
  {zoneRoot : DnsLabel}

/-! ### The rows that are removed -/

section
variable {tsigKey : UpdateSecret} {zone : Zone} {recordName : DnsLabel} {r : Row}

/-- The rows found for a name are stored under its text or fallen back to. -/
theorem mem_foundRows_iff {s : Text} (hs : recordName.searchName = .ok s) {m : Model} :
    r ∈ foundRows st recordName zone m ↔ r ∈ st.records ∧
      (Stored zone recordName r ∨ FallenBack st zone recordName r) ∧ m = r.model := by
  obtain ⟨w, hw⟩ := exists_searchName_wildcard hs
  rw [mem_foundRows hs hw]
  unfold Stored FallenBack
  rw [hs, hw]
  constructor
  · rintro ⟨hst, rfl, hz, rfl | ⟨hnone, rfl⟩⟩
    · exact ⟨hst, Or.inl ⟨hz, rfl⟩, rfl⟩
    · refine ⟨hst, Or.inr ⟨hz, rfl, fun s' hs' => ?_⟩, rfl⟩
      rw [← Except.ok.inj hs']; exact hnone
  · rintro ⟨hst, ⟨hz, heq⟩ | ⟨hz, heq, hnone⟩, rfl⟩
    · exact ⟨hst, rfl, hz, Or.inl (Except.ok.inj heq).symm⟩
    · exact ⟨hst, rfl, hz, Or.inr ⟨hnone s rfl, (Except.ok.inj heq).symm⟩⟩

/-- A deletion goes through the rows of its models that are stored under the text of the name or
fallen back to. -/
theorem mem_candidates {s : Text} (hs : recordName.searchName = .ok s) :
    r ∈ candidates h st zone recordName rr ↔ r ∈ st.records ∧
      (Stored zone recordName r ∨ FallenBack st zone recordName r) ∧
        if rr.rclass = .any ∧ rr.rtype = .any then r.model ∈ deletedModels
        else (modelOfType h rr.rtype).map Prod.fst = some r.model := by
  unfold candidates
  split_ifs with hany
  · rw [List.mem_flatMap]
    simp only [mem_foundRows_iff hs]
    constructor
    · rintro ⟨m, hm, hst, hor, rfl⟩; exact ⟨hst, hor, hm⟩
    · rintro ⟨hst, hor, hm⟩; exact ⟨_, hm, hst, hor, rfl⟩
  · rcases hm : modelOfType h rr.rtype with _ | ⟨m, columns⟩
    · simp
    · simpa using mem_foundRows_iff hs

/-- A sweep that returns has come to a decision on each row. -/
theorem decided_of_sweep {d : Row → Except Stop Bool} {l : List Row} (hl : (sweep d l).2 = .ok ())
    (hr : r ∈ l) : ∃ b, d r = .ok b := by
  induction l with
  | nil => cases hr
  | cons x l ih =>
    rw [sweep_cons] at hl
    rcases hx : d x with e | b
    · rw [hx] at hl; cases hl
    rcases List.mem_cons.mp hr with rfl | hr
    · exact ⟨b, hx⟩
    · refine ih ?_ hr
      rw [hx] at hl
      cases b <;> exact hl

/-- The decision on a row that the deletion comes to, once it has been made. -/
theorem decision_iff (hcand : r ∈ candidates h st zone recordName rr)
    {s : Text} (hs : recordName.searchName = .ok s) {b : Bool}
    (hd : decision h tsigKey recordName rr r = .ok b) : b = true ↔ Taken h rr r := by
  have hmodel := ((mem_candidates hs).mp hcand).2.2
  unfold decision decideRow at hd
  unfold Taken
  rcases hrr : toRr h r rr.rname with e | _ | recordRr
  · rw [hrr] at hd; cases hd
  · rw [hrr] at hd; cases hd
  rw [hrr] at hd
  dsimp only at hd
  obtain ⟨t, x, hx, rfl⟩ := toRr_eq_some.mp hrr
  have hdata : rtypeOf r.data = some t := rtypeOf_toRdata hx
  by_cases hclass : rr.rclass = .any
  · rw [if_pos hclass] at hd ⊢
    by_cases hany : rr.rtype = .any
    · rw [if_pos ⟨hclass, hany⟩] at hmodel
      rw [if_pos hany] at hd ⊢
      have hb : b = true := by
        unfold managed at hd
        split at hd <;> cases hd
        rfl
      exact iff_of_true hb hmodel
    · rw [if_neg fun hc => hany hc.2] at hmodel
      rw [if_neg hany] at hd ⊢
      have hb : decide (t = rr.rtype) = b := Except.ok.inj hd
      rw [← hb, decide_eq_true_iff, hdata, Option.some.injEq]
      exact (and_iff_right hmodel).symm
  · rw [if_neg fun hc => hclass hc.1] at hmodel
    rw [if_neg hclass] at hd ⊢
    have hb : (rr.rdata.eq x && decide (t = rr.rtype)) = b := Except.ok.inj hd
    rw [← hb, Bool.and_eq_true, decide_eq_true_iff, and_iff_right hmodel]
    constructor
    · rintro ⟨heq, rfl⟩; exact ⟨x, hx, heq⟩
    · rintro ⟨rdata, hrdata, heq⟩
      obtain ⟨rfl, rfl⟩ := Prod.mk.inj (Option.some.inj (Except.ok.inj (hx.symm.trans hrdata)))
      exact ⟨heq, rfl⟩

/-- **The rows that a deletion removes**, if it comes to its end. -/
theorem mem_deletions (hend : (deletions h st tsigKey zone recordName rr).2 = .ok ()) :
    r ∈ (deletions h st tsigKey zone recordName rr).1 ↔ r ∈ st.records ∧
      (Stored zone recordName r ∨ FallenBack st zone recordName r) ∧ Taken h rr r := by
  rcases hs : recordName.searchName with e | s
  · unfold deletions at hend; rw [hs] at hend; cases hend
  have hsweep : (deletions h st tsigKey zone recordName rr) =
      sweep (decision h tsigKey recordName rr) (candidates h st zone recordName rr) := by
    unfold deletions at hend ⊢
    rw [hs] at hend ⊢
    dsimp only at hend ⊢
    split_ifs at hend ⊢ with hany
    · rfl
    · rcases hm : managed h tsigKey recordName rr.rtype with stop | b
      · rw [hm] at hend; cases hend
      · rfl
  rw [hsweep] at hend ⊢
  have htaken : r ∈ candidates h st zone recordName rr →
      (decision h tsigKey recordName rr r = .ok true ↔ Taken h rr r) := fun hcand => by
    obtain ⟨b, hb⟩ := decided_of_sweep hend hcand
    rw [hb, ← decision_iff hcand hs hb]
    simp
  rw [mem_sweep hend]
  constructor
  · rintro ⟨hcand, hd⟩
    obtain ⟨hst, hor, -⟩ := (mem_candidates hs).mp hcand
    exact ⟨hst, hor, (htaken hcand).mp hd⟩
  · rintro ⟨hst, hor, ht⟩
    have hmodel : if rr.rclass = .any ∧ rr.rtype = .any then r.model ∈ deletedModels
        else (modelOfType h rr.rtype).map Prod.fst = some r.model := by
      unfold Taken at ht
      split_ifs at ht ⊢ <;> simp_all
    have hcand := (mem_candidates hs).mpr ⟨hst, hor, hmodel⟩
    exact ⟨hcand, (htaken hcand).mpr ht⟩

end

/-- What an accepted deletion leaves. -/
theorem Deletes.mem (hd : Deletes h now msg st adm rr zoneRoot st') {r : Row} :
    r ∈ st'.records ↔ r ∈ st.records ∧
      ¬ ((Stored adm.zone (rr.rname.stripSuffix adm.zoneName) r ∨
        FallenBack st adm.zone (rr.rname.stripSuffix adm.zoneName) r) ∧ Taken h rr r) := by
  obtain ⟨hstep, -⟩ := hd.accepted.step
  have hdel : Steps.step h adm.inc.tsigKey adm.zone adm.zoneName st rr =
      ((deletions h st adm.inc.tsigKey adm.zone (rr.rname.stripSuffix adm.zoneName) rr).2,
        (deletions h st adm.inc.tsigKey adm.zone (rr.rname.stripSuffix adm.zoneName) rr).1.foldl
          deleteStore st) := by
    unfold Steps.step
    rcases hd.deletion with hclass | hclass <;> rw [hclass]
  rw [hdel] at hstep
  obtain ⟨hend, rfl⟩ := Prod.mk.inj hstep
  rw [mem_after_deletions, mem_deletions hend]
  exact and_congr_right fun hr => not_congr (and_iff_right hr)

/-- **Deletions are exact precisely if the lookup of each agrees with what is published.** -/
theorem exact_iff (h : Host) (now : ℕ) (msg : Bytes) (st : Store) :
    Exact h now msg st ↔ ∀ adm rr zoneRoot st', Deletes h now msg st adm rr zoneRoot st' →
      Agrees h st adm.zone zoneRoot (rr.rname.stripSuffix adm.zoneName) rr := by
  constructor
  · intro hexact adm rr zoneRoot st' hd
    have hiff : ∀ r ∈ st.records, Due h st adm.zone zoneRoot rr r ↔
        (Stored adm.zone (rr.rname.stripSuffix adm.zoneName) r ∨
          FallenBack st adm.zone (rr.rname.stripSuffix adm.zoneName) r) ∧ Taken h rr r := by
      intro r hr
      have h' := hd.mem.symm.trans (hexact adm rr zoneRoot st' hd r)
      rw [and_congr_right_iff] at h'
      exact (not_iff_not.mp (h' hr)).symm
    exact ⟨fun r hr hdue => (hiff r hr).mp hdue,
      fun r hr hstored ht => (hiff r hr).mpr ⟨Or.inl hstored, ht⟩,
      fun r hr hback ht => (hiff r hr).mpr ⟨Or.inr hback, ht⟩⟩
  · intro hagrees adm rr zoneRoot st' hd r
    have ha := hagrees adm rr zoneRoot st' hd
    rw [hd.mem]
    refine and_congr_right fun hr => not_congr ⟨?_, ha.found r hr⟩
    rintro ⟨hstored | hback, ht⟩
    · exact ha.here r hr hstored ht
    · exact ha.noFallback r hr hback ht

/-! ### The zone's own name -/

/-- The rows stored as `@` are not found under the zone's own name, and stay. -/
theorem apex_kept (hd : Deletes h now msg st adm rr zoneRoot st')
    (hapex : (rr.rname.stripSuffix adm.zoneName).label = []) {r : Row} (hr : r ∈ st.records)
    (hname : r.recordName = ['@']) : r ∈ st'.records := by
  refine hd.mem.mpr ⟨hr, ?_⟩
  rw [show rr.rname.stripSuffix adm.zoneName = ⟨[]⟩ from congrArg DnsLabel.mk hapex]
  rintro ⟨⟨-, hs⟩ | ⟨-, hs, -⟩, -⟩
  · rw [hname] at hs; cases hs
  · rw [hname] at hs; cases hs

/-- `example TXT "x"` -/
def apexRow : Row := ⟨1, 1, ['@'], 60, .txt ['x']⟩

def zoneSecret : UpdateSecret := ⟨7, 1, .unlimited, ['@'], [1, 2, 3]⟩

def exampleZone : Zone := ⟨1, "example".toList, false⟩

def apexStore : Store :=
  { Store.empty with
    zones := Table.empty.save exampleZone
    records := Table.empty.save apexRow
    updateSecrets := Table.empty.save zoneSecret }

/-- Delete the TXT records of the zone's own name. -/
def deleteApex : DnsRecord :=
  ⟨1, .update, [⟨exampleRoot, .soa, .in⟩], [], [⟨exampleRoot, .txt, .any, 0, .empty⟩], []⟩

theorem apexRow_due : Due (hostOf zoneSecret deleteApex) apexStore exampleZone exampleRoot
    ⟨exampleRoot, .txt, .any, 0, .empty⟩ apexRow := by
  refine ⟨rfl, ⟨exampleRoot.label, by decide, by decide⟩, ?_⟩
  exact ⟨[(.txt, [.str ['x']])], rfl, _, List.mem_singleton.mpr rfl, rfl⟩

/-- The deletion is answered with `NOERROR`, and the record is still there. -/
theorem not_exact_apex : ¬ Exact (hostOf zoneSecret deleteApex) 1000000000 [] apexStore := by
  intro hexact
  obtain ⟨adm, haccepted, hzone, hname, -⟩ : ∃ adm, Accepted (hostOf zoneSecret deleteApex) 1000000000
      [] apexStore adm ⟨exampleRoot, .txt, .any, 0, .empty⟩ _ ∧ adm.zone = exampleZone ∧
        adm.zoneName = exampleRoot ∧ adm.inc.tsigKey = zoneSecret :=
    exists_accepted (by decide) (by decide)
  have hroot : DnsLabel.ofText Python.ascii "example".toList = .ok exampleRoot := by decide
  have hd : Deletes _ _ _ _ _ _ exampleRoot _ :=
    ⟨haccepted, Or.inl rfl, by rw [hzone]; exact hroot⟩
  have hmem : apexRow ∈ apexStore.records := by decide
  have hkept := apex_kept hd (by rw [hname]; decide) hmem rfl
  have hnot := ((hexact _ _ _ _ hd apexRow).mp hkept).2
  rw [hzone] at hnot
  exact hnot apexRow_due

end HexDns.Grpc.Deletions
