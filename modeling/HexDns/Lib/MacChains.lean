import Mathlib.Data.List.Basic
import Mathlib.Data.List.Infix

/-! # Chains of authenticated messages

A sender authenticates the messages of a session one by one: the MAC of a message is over the MAC before,
whether the message is the first one, and the message. `links` is what the MACs of a session are over. Who
verifies such a chain has the first messages of one session (`authentic`), if everything that it verified was
signed in some session, and if no two things that were signed have the same MAC. Messages of two sessions
cannot be mixed, left out, repeated or put in another order. -/

namespace HexDns.Lib.MacChains

/-- What a MAC is over: the MAC before, whether the message is the first one, and the message. -/
structure Link (M B : Type) where
  prior : M
  first : Bool
  body : B
  deriving DecidableEq, Repr

variable {M B : Type} (mac : Link M B → M)

/-- What the MACs of the messages are over. -/
def links : M → Bool → List B → List (Link M B)
  | _, _, [] => []
  | prior, first, b :: bs => ⟨prior, first, b⟩ :: links (mac ⟨prior, first, b⟩) false bs

/-- A session: the MAC that it begins with, and its messages. -/
structure Session (M B : Type) where
  start : M
  bodies : List B

/-- What the MACs of a session are over. -/
def Session.links (s : Session M B) : List (Link M B) := MacChains.links mac s.start true s.bodies

variable {mac}

@[simp] theorem length_links (prior : M) (first : Bool) (bs : List B) :
    (links mac prior first bs).length = bs.length := by
  induction bs generalizing prior first with
  | nil => rfl
  | cons b bs ih => simp [links, ih]

variable (mac) in
theorem map_body_links (prior : M) (first : Bool) (bs : List B) :
    (links mac prior first bs).map Link.body = bs := by
  induction bs generalizing prior first with
  | nil => rfl
  | cons b bs ih => simp [links, ih]

theorem getElem?_body {prior : M} {first : Bool} {bs : List B} {n : ℕ} {l : Link M B}
    (h : (links mac prior first bs)[n]? = some l) : bs[n]? = some l.body := by
  rw [← map_body_links mac prior first bs, List.getElem?_map, h]
  rfl

theorem links_zero {prior : M} {first : Bool} {bs : List B} {l : Link M B}
    (h : (links mac prior first bs)[0]? = some l) : l.prior = prior ∧ l.first = first := by
  rcases bs with _ | ⟨b, bs⟩
  · cases h
  · obtain rfl := Option.some.inj h
    exact ⟨rfl, rfl⟩

/-- Every later message is linked to the one before it. -/
theorem links_succ {prior : M} {first : Bool} {bs : List B} {n : ℕ} {l : Link M B}
    (h : (links mac prior first bs)[n + 1]? = some l) :
    l.first = false ∧ ∃ l', (links mac prior first bs)[n]? = some l' ∧ l.prior = mac l' := by
  induction n generalizing prior first bs with
  | zero =>
    rcases bs with _ | ⟨b, bs⟩
    · cases h
    · obtain ⟨hprior, hfirst⟩ := links_zero h
      exact ⟨hfirst, _, rfl, hprior⟩
  | succ n ih =>
    rcases bs with _ | ⟨b, bs⟩
    · cases h
    · exact ih h

section
variable {sessions : List (Session M B)} {start : M} {got : List B}

/-- **One message in common**: then it is in the same place, and everything before it is in common too. -/
theorem take_eq_of_link {s : Session M B} (hs : s ∈ sessions)
    (hgenuine : ∀ l ∈ links mac start true got, ∃ s ∈ sessions, l ∈ s.links mac)
    (hcollision : ∀ s ∈ sessions, ∀ l ∈ s.links mac, ∀ s' ∈ sessions, ∀ l' ∈ s'.links mac, mac l = mac l' → l = l')
    {n j : ℕ} {l : Link M B} (hgot : (links mac start true got)[n]? = some l) (hl : (s.links mac)[j]? = some l) :
    n = j ∧ s.start = start ∧ got.take (n + 1) = s.bodies.take (n + 1) := by
  have hbody : got[n]? = s.bodies[j]? := (getElem?_body hgot).trans (getElem?_body hl).symm
  induction n generalizing j l with
  | zero =>
    obtain ⟨hprior, hfirst⟩ := links_zero hgot
    rcases j with _ | j
    · refine ⟨rfl, (links_zero hl).1.symm.trans hprior, ?_⟩
      rw [List.take_add_one, List.take_add_one, hbody]
      rfl
    · rw [(links_succ hl).1] at hfirst
      cases hfirst
  | succ n ih =>
    obtain ⟨hfirst, l1, hl1, hprior1⟩ := links_succ hgot
    rcases j with _ | j
    · rw [(links_zero hl).2] at hfirst
      cases hfirst
    · obtain ⟨-, l2, hl2, hprior2⟩ := links_succ hl
      obtain ⟨s1, hs1, hmem1⟩ := hgenuine l1 (List.mem_of_getElem? hl1)
      have heq : l1 = l2 :=
        hcollision s1 hs1 l1 hmem1 s hs l2 (List.mem_of_getElem? hl2) (hprior1.symm.trans hprior2)
      rw [← heq] at hl2
      obtain ⟨rfl, hstart, htake⟩ := ih hl1 hl2 ((getElem?_body hl1).trans (getElem?_body hl2).symm)
      refine ⟨rfl, hstart, ?_⟩
      rw [List.take_add_one, htake, hbody, ← List.take_add_one]

/-- **What was verified is the beginning of a session**, if it was signed and no MAC stands for two things. -/
theorem authentic (hne : got ≠ []) (hgenuine : ∀ l ∈ links mac start true got, ∃ s ∈ sessions, l ∈ s.links mac)
    (hcollision : ∀ s ∈ sessions, ∀ l ∈ s.links mac, ∀ s' ∈ sessions, ∀ l' ∈ s'.links mac, mac l = mac l' → l = l') :
    ∃ s ∈ sessions, s.start = start ∧ got <+: s.bodies := by
  obtain ⟨n, hn⟩ : ∃ n, got.length = n + 1 := Nat.exists_eq_succ_of_ne_zero fun h => hne (List.length_eq_zero_iff.mp h)
  have hlt : n < (links mac start true got).length := by
    rw [length_links]
    omega
  obtain ⟨s, hs, hmem⟩ := hgenuine _ (List.getElem_mem hlt)
  obtain ⟨j, hj⟩ := List.getElem?_of_mem hmem
  obtain ⟨-, hstart, htake⟩ := take_eq_of_link hs hgenuine hcollision (List.getElem?_eq_getElem hlt) hj
  refine ⟨s, hs, hstart, ?_⟩
  rw [List.take_of_length_le (by omega)] at htake
  rw [htake]
  exact List.take_prefix _ _

end

end HexDns.Lib.MacChains
