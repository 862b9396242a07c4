import HexDns.Base.Codecs
import HexDns.Lib.Frames
import HexDns.Models.Wire

/-! # Messages over TCP

The two loops that `dns-cache/src/lib.rs` and `axfr/src/main.rs` have for a connection: one reads the
messages of the client, each after its length in two bytes, and one writes the responses. A read takes
place as soon as the bytes for it have come, in whatever pieces; every read has five seconds, and between a
timeout and bytes that have come either can win. -/

namespace HexDns.Net.Tcp

open HexDns.Lib.Texts HexDns.Lib.Frames HexDns.Base.Codecs HexDns.Models.Wire

/-! ### Lengths -/

/-- `read_u16`: the number that two bytes are -/
def readU16 : Bytes → ℕ
  | [a, b] => a.toNat * 256 + b.toNat
  | _ => 0

theorem packUint_two (n : ℕ) : packUint 2 n = [UInt8.ofNat (n / 256), UInt8.ofNat n] := by
  simp [packUint, List.range_succ]

theorem readU16_lt (h : Bytes) : readU16 h < 65536 := by
  unfold readU16
  split
  · rename_i a b
    have ha : a.toNat < 256 := a.toNat_lt
    have hb : b.toNat < 256 := b.toNat_lt
    omega
  · decide

/-- The length of a message as two bytes; `as u16` takes what is above away. -/
def u16 : Format UInt8 where
  width := 2
  pos := by decide
  header := packUint 2
  length := readU16
  length_header := length_packUint 2
  header_length h hlen := by
    obtain ⟨a, b, rfl⟩ := List.length_eq_two.mp hlen
    have hb : b.toNat < 256 := b.toNat_lt
    have hhigh : (a.toNat * 256 + b.toNat) / 256 = a.toNat := by omega
    have hlow : UInt8.ofNat (a.toNat * 256 + b.toNat) = b := by
      apply UInt8.toNat_inj.mp
      rw [UInt8.toNat_ofNat']
      omega
    rw [packUint_two, readU16, hhigh, hlow, UInt8.ofNat_toNat]

/-- **The lengths that two bytes can say.** -/
theorem fits_iff {n : ℕ} : u16.Fits n ↔ n < 65536 := by
  constructor
  · intro h
    have hlt := readU16_lt (packUint 2 n)
    rwa [show readU16 (packUint 2 n) = n from h] at hlt
  · intro h
    show readU16 (packUint 2 n) = n
    rw [packUint_two, readU16, UInt8.toNat_ofNat', UInt8.toNat_ofNat']
    omega

/-! ### The connection -/

/-- `ReadTcpState` -/
inductive ReadTcpState
  | len
  | msg (size : ℕ)
  deriving DecidableEq, Repr

/-- What the client has done with its side of the connection. -/
inductive Peer
  | open
  | closed
  | failed
  deriving DecidableEq, Repr

structure Stream where
  /-- all bytes that have come -/
  came : Bytes
  /-- those that are not read -/
  buffer : Bytes
  peer : Peer
  /-- what is read next, and until when; nothing if the loop is over -/
  reader : Option (ReadTcpState × ℕ)
  /-- the bytes that were written -/
  out : Bytes
  /-- A write has failed. -/
  broken : Bool
  deriving DecidableEq, Repr

/-- The time for a read, in milliseconds -/
def readTimeout : ℕ := 5000

/-- A connection that was accepted. -/
def Stream.accepted (now : ℕ) : Stream := ⟨[], [], .open, some (.len, now + readTimeout), [], false⟩

/-- Bytes come. -/
def Stream.receive (s : Stream) (b : Bytes) : Option Stream :=
  if s.peer = .open then some { s with came := s.came ++ b, buffer := s.buffer ++ b } else none

/-- The loop is over. -/
def Stream.stop (s : Stream) : Stream := { s with reader := none }

/-- At the end of what the client sends a read that still lacks bytes fails. -/
def Stream.lacks (s : Stream) : Option (Stream × Option Bytes) :=
  if s.peer = .closed then some (s.stop, none) else none

/-- A read takes place: the length of a message, or the message, which is handed on. -/
def Stream.read (now : ℕ) (s : Stream) : Option (Stream × Option Bytes) :=
  match s.reader with
  | none => none
  | some (.len, _) =>
    match s.buffer with
    | a :: b :: rest =>
      some ({ s with buffer := rest, reader := some (.msg (readU16 [a, b]), now + readTimeout) }, none)
    | _ => s.lacks
  | some (.msg size, _) =>
    if size ≤ s.buffer.length then
      some ({ s with buffer := s.buffer.drop size, reader := some (.len, now + readTimeout) },
        some (s.buffer.take size))
    else s.lacks

/-- The time for a read is over. -/
def Stream.timeout (now : ℕ) (s : Stream) : Option Stream :=
  match s.reader with
  | some (_, deadline) => if deadline ≤ now then some s.stop else none
  | none => none

/-- A read fails with the connection. -/
def Stream.readFails (s : Stream) : Option Stream :=
  if s.peer = .failed ∧ s.reader.isSome then some s.stop else none

/-- A response is written; a write can fail after some bytes, and then all later ones do. -/
def Stream.write (s : Stream) (m : Bytes) (cut : Option ℕ) : Stream :=
  if s.broken then s
  else
    match cut with
    | none => { s with out := s.out ++ u16.frame m }
    | some k => { s with out := s.out ++ (u16.frame m).take k, broken := true }

/-! ### What is read and written -/

/-- What was read, with what is not read yet, is what has come. -/
def Stream.HasRead (s : Stream) (got : List Bytes) : Prop :=
  match s.reader with
  | some (.len, _) => s.came = u16.frames got ++ s.buffer
  | some (.msg size, _) => s.came = u16.frames got ++ (u16.header size ++ s.buffer) ∧ size < 65536
  | none => u16.frames got <+: s.came

/-- What was written are the responses, up to where a write has failed. -/
def Stream.HasWritten (s : Stream) (taken : List Bytes) : Prop :=
  if s.broken then s.out <+: u16.frames taken else s.out = u16.frames taken

section
variable {s s' : Stream} {got taken : List Bytes} {now : ℕ}

theorem Stream.HasRead.begins (h : s.HasRead got) : u16.frames got <+: s.came := by
  unfold Stream.HasRead at h
  split at h
  · exact ⟨_, h.symm⟩
  · exact ⟨_, h.1.symm⟩
  · exact h

theorem Stream.HasRead.stop (h : s.HasRead got) : s.stop.HasRead got := h.begins

theorem Stream.receive_eq {b : Bytes} (h : s.receive b = some s') :
    s' = { s with came := s.came ++ b, buffer := s.buffer ++ b } := by
  unfold Stream.receive at h
  simp only [Option.ite_none_right_eq_some, Option.some.injEq] at h
  exact h.2.symm

/-- What a read does: the loop is over, or it has the length of a message, or the message. -/
theorem Stream.read_cases {handed : Option Bytes} (h : s.read now = some (s', handed)) :
    (s' = s.stop ∧ handed = none) ∨
    (∃ a b rest deadline, s.reader = some (.len, deadline) ∧ s.buffer = a :: b :: rest ∧ handed = none ∧
      s' = { s with buffer := rest, reader := some (.msg (readU16 [a, b]), now + readTimeout) }) ∨
    ∃ size deadline, s.reader = some (.msg size, deadline) ∧ size ≤ s.buffer.length ∧
      handed = some (s.buffer.take size) ∧
      s' = { s with buffer := s.buffer.drop size, reader := some (.len, now + readTimeout) } := by
  have hlacks : s.lacks = some (s', handed) → s' = s.stop ∧ handed = none := by
    intro hs
    unfold Stream.lacks at hs
    simp only [Option.ite_none_right_eq_some, Option.some.injEq, Prod.mk.injEq] at hs
    exact ⟨hs.2.1.symm, hs.2.2.symm⟩
  unfold Stream.read at h
  rcases hreader : s.reader with _ | ⟨_ | size, deadline⟩
  · rw [hreader] at h
    cases h
  · rw [hreader] at h
    dsimp only at h
    split at h
    · rename_i a b rest hbuffer
      obtain ⟨rfl, rfl⟩ := Prod.mk.inj (Option.some.inj h)
      exact Or.inr (Or.inl ⟨a, b, rest, deadline, rfl, hbuffer, rfl, rfl⟩)
    · exact Or.inl (hlacks h)
  · rw [hreader] at h
    dsimp only at h
    by_cases hsize : size ≤ s.buffer.length
    · rw [if_pos hsize] at h
      obtain ⟨rfl, rfl⟩ := Prod.mk.inj (Option.some.inj h)
      exact Or.inr (Or.inr ⟨size, deadline, rfl, hsize, rfl, rfl⟩)
    · rw [if_neg hsize] at h
      exact Or.inl (hlacks h)

theorem Stream.timeout_eq (h : s.timeout now = some s') : s' = s.stop := by
  unfold Stream.timeout at h
  split at h
  · simp only [Option.ite_none_right_eq_some, Option.some.injEq] at h
    exact h.2.symm
  · cases h

theorem Stream.readFails_eq (h : s.readFails = some s') : s' = s.stop := by
  unfold Stream.readFails at h
  simp only [Option.ite_none_right_eq_some, Option.some.injEq] at h
  exact h.2.symm

theorem Stream.HasRead.receive {b : Bytes} (h : s.HasRead got) (hs : s.receive b = some s') : s'.HasRead got := by
  obtain rfl := Stream.receive_eq hs
  unfold Stream.HasRead at h ⊢
  dsimp only
  rcases hreader : s.reader with _ | ⟨_ | size, deadline⟩
  · rw [hreader] at h
    exact List.IsPrefix.trans h (List.prefix_append _ _)
  · rw [hreader] at h
    dsimp only at h ⊢
    rw [h, List.append_assoc]
  · rw [hreader] at h
    dsimp only at h ⊢
    exact ⟨by rw [h.1, List.append_assoc, List.append_assoc], h.2⟩

/-- **A read** hands on the next message of the stream. -/
theorem Stream.HasRead.read {handed : Option Bytes} (h : s.HasRead got) (hs : s.read now = some (s', handed)) :
    s'.HasRead (got ++ handed.toList) := by
  rcases Stream.read_cases hs with ⟨rfl, rfl⟩ | ⟨a, b, rest, deadline, hreader, hbuffer, rfl, rfl⟩ |
    ⟨size, deadline, hreader, hsize, rfl, rfl⟩
  · rw [Option.toList_none, List.append_nil]
    exact h.stop
  · have hcame : s.came = u16.frames got ++ s.buffer := by
      simpa only [Stream.HasRead, hreader] using h
    have hheader : u16.header (readU16 [a, b]) = [a, b] := u16.header_length [a, b] rfl
    rw [Option.toList_none, List.append_nil]
    refine ⟨?_, readU16_lt _⟩
    dsimp only
    rw [hcame, hbuffer, hheader]
    rfl
  · simp only [Stream.HasRead, hreader] at h
    show s.came = u16.frames (got ++ [s.buffer.take size]) ++ s.buffer.drop size
    rw [h.1, Format.frames_append, Format.frames_cons, Format.frames_nil, List.append_nil, Format.frame,
      List.length_take_of_le hsize, List.append_assoc, List.append_assoc, List.take_append_drop]

/-- A message that is handed on has a length of two bytes. -/
theorem Stream.HasRead.length_lt {m : Bytes} (h : s.HasRead got) (hs : s.read now = some (s', some m)) :
    m.length < 65536 := by
  rcases Stream.read_cases hs with ⟨-, hnone⟩ | ⟨a, b, rest, deadline, -, -, hnone, -⟩ |
    ⟨size, deadline, hreader, hsize, hm, -⟩
  · cases hnone
  · cases hnone
  · obtain rfl := Option.some.inj hm
    simp only [Stream.HasRead, hreader] at h
    rw [List.length_take_of_le hsize]
    exact h.2

/-- The next read cannot take place, and the loop waits for it. -/
def Stream.Waits (s : Stream) : Prop :=
  match s.reader with
  | some (.len, _) => s.buffer.length < 2
  | some (.msg size, _) => s.buffer.length < size
  | none => False

/-- **A loop that waits** has handed on all messages of the stream. -/
theorem Stream.HasRead.split (h : s.HasRead got) (hfits : ∀ m ∈ got, m.length < 65536) (hwaits : s.Waits) :
    (u16.split s.came).1 = got := by
  have hgot : ∀ m ∈ got, u16.Fits m.length := fun m hm => fits_iff.mpr (hfits m hm)
  unfold Stream.Waits at hwaits
  unfold Stream.HasRead at h
  rcases hreader : s.reader with _ | ⟨_ | size, deadline⟩
  · rw [hreader] at hwaits
    exact hwaits.elim
  · rw [hreader] at h hwaits
    dsimp only at h hwaits
    exact congrArg Prod.fst (Format.split_iff.mpr ⟨h, hgot, Or.inl hwaits⟩)
  · rw [hreader] at h hwaits
    dsimp only at h hwaits
    refine congrArg Prod.fst (Format.split_iff.mpr ⟨h.1, hgot, Or.inr ?_⟩)
    have hheader : (u16.header size).length = u16.width := u16.length_header size
    rw [← hheader, List.drop_left, List.take_left]
    rwa [show u16.length (u16.header size) = size from fits_iff.mpr h.2]

theorem Stream.HasWritten.begins (h : s.HasWritten taken) : s.out <+: u16.frames taken := by
  unfold Stream.HasWritten at h
  split at h
  · exact h
  · rw [h]

/-- **A write** adds a response. -/
theorem Stream.HasWritten.write {m : Bytes} {cut : Option ℕ} (h : s.HasWritten taken) :
    (s.write m cut).HasWritten (taken ++ [m]) := by
  unfold Stream.HasWritten at h ⊢
  unfold Stream.write
  by_cases hbroken : s.broken = true
  · rw [if_pos hbroken] at h ⊢
    rw [if_pos hbroken, Format.frames_append]
    exact h.trans (List.prefix_append _ _)
  · rw [if_neg hbroken] at h ⊢
    rcases cut with _ | k
    · rw [if_neg hbroken, Format.frames_append, h]
      simp
    · rw [if_pos rfl, Format.frames_append, h]
      simp only [Format.frames_cons, Format.frames_nil, List.append_nil]
      exact (List.prefix_append_right_inj _).mpr (List.take_prefix _ _)

/-! ### A connection -/

/-- The messages that were read and the responses that were taken are those of the bytes. -/
structure Stream.Sound (s : Stream) (got taken : List Bytes) : Prop where
  hasRead : s.HasRead got
  lengths : ∀ m ∈ got, m.length < 65536
  hasWritten : s.HasWritten taken

theorem Stream.sound_accepted : (Stream.accepted now).Sound [] [] := ⟨rfl, by simp, rfl⟩

theorem Stream.Sound.receive {b : Bytes} (h : s.Sound got taken) (hs : s.receive b = some s') :
    s'.Sound got taken := by
  refine ⟨h.hasRead.receive hs, h.lengths, ?_⟩
  obtain rfl := Stream.receive_eq hs
  exact h.hasWritten

theorem Stream.Sound.stop (h : s.Sound got taken) : s.stop.Sound got taken :=
  ⟨h.hasRead.stop, h.lengths, h.hasWritten⟩

/-- A new deadline changes nothing. -/
theorem Stream.Sound.again (h : s.Sound got taken) (deadline : ℕ) :
    ({ s with reader := s.reader.map fun r => (r.1, deadline) } : Stream).Sound got taken := by
  refine ⟨?_, h.lengths, h.hasWritten⟩
  have hread := h.hasRead
  unfold Stream.HasRead at hread ⊢
  rcases hreader : s.reader with _ | ⟨_ | size, _⟩
  all_goals
    rw [hreader] at hread
    exact hread

theorem Stream.Sound.read {handed : Option Bytes} (h : s.Sound got taken)
    (hs : s.read now = some (s', handed)) : s'.Sound (got ++ handed.toList) taken := by
  refine ⟨h.hasRead.read hs, fun m hm => ?_, ?_⟩
  · rcases List.mem_append.mp hm with hm | hm
    · exact h.lengths m hm
    · obtain rfl := Option.mem_toList.mp hm
      exact h.hasRead.length_lt hs
  · rcases Stream.read_cases hs with ⟨rfl, -⟩ | ⟨_, _, _, _, -, -, -, rfl⟩ | ⟨_, _, -, -, -, rfl⟩
    all_goals exact h.hasWritten

theorem Stream.Sound.write {m : Bytes} {cut : Option ℕ} (h : s.Sound got taken) :
    (s.write m cut).Sound got (taken ++ [m]) := by
  refine ⟨?_, h.lengths, h.hasWritten.write⟩
  unfold Stream.write
  by_cases hbroken : s.broken = true
  · rw [if_pos hbroken]
    exact h.hasRead
  · rw [if_neg hbroken]
    cases cut <;> exact h.hasRead

end

end HexDns.Net.Tcp
