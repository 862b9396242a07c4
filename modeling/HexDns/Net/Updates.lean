import HexDns.Base.Message
import HexDns.Net.Served

/-! # The server for updates

`handle_request` of `dns-cache/src/bin/update.rs`, as a handler of the server of `dns-cache/src/lib.rs`. It
answers every request once: with an error, or with what the upstream replies to the bytes of the request, which
it passes on once. What a connection's client reads is one answer to each of its requests
(`one_answer_each`).

`Handler.Keeps` is the rule for handlers: what the start of a handler meets and its steps keep, holds of every
handler in every run. -/

namespace HexDns.Net.Server

open HexDns.Lib.Texts HexDns.Lib.Runs HexDns.Lib.Frames HexDns.Net.Tcp

variable {A M S I : Type}

/-! ### The rule for handlers -/

/-- What a handler has sent. -/
def State.sent (s : State A S M) (k : ℕ) : List M :=
  ((s.serialised ++ s.responses).filter (·.task = k)).map (·.msg)

/-- What is known of a request, its handler, and what the handler has sent or sends. -/
structure Handler.Keeps (handler : Handler M S I) (P : Bytes → M → S → List M → Prop) : Prop where
  start : ∀ b m, P b m (handler.start b m) []
  step : ∀ b m st rs i st' out, P b m st rs → handler.step st i = some (st', out) → P b m st' (rs ++ out.toList)

/-- It is known of all that run. -/
def Known (codec : Codec M) (P : Bytes → M → S → List M → Prop) (s : State A S M) : Prop :=
  ∀ k t, s.tasks[k]? = some t → ∃ m, codec.decode t.request.msg = some m ∧ codec.hasQuery m = true ∧
    P t.request.msg m t.state (s.sent k ++ t.sending.toList)

section
variable {codec : Codec M} {handler : Handler M S I} {P : Bytes → M → S → List M → Prop} {s s' : State A S M}

theorem Inv.task_lt (h : Inv codec s) {o : Outgoing A M} (ho : o ∈ s.serialised ++ s.responses) :
    o.task < s.tasks.length := by
  obtain ⟨r, hr, -⟩ := h.own o ho
  have hlen := (List.getElem?_eq_some_iff.mp hr).1
  rwa [State.handled, List.length_map] at hlen

theorem started_eq {r : Incoming A} {t : Task A S M} (ht : t ∈ (started codec handler r).toList) :
    ∃ m, codec.decode r.msg = some m ∧ codec.hasQuery m = true ∧ t = ⟨r, handler.start r.msg m, none⟩ := by
  unfold started at ht
  rcases hdecode : codec.decode r.msg with _ | m
  · simp [hdecode] at ht
  · by_cases hquery : codec.hasQuery m = true
    · exact ⟨m, rfl, hquery, by simpa [hdecode, hquery] using ht⟩
    · simp [hdecode, hquery] at ht

theorem getElem?_set_task {tasks : List (Task A S M)} {k j : ℕ} {t t' u : Task A S M} (ht : tasks[k]? = some t)
    (hu : (tasks.set k t')[j]? = some u) : (j = k ∧ u = t') ∨ (j ≠ k ∧ tasks[j]? = some u) := by
  have hlen := (List.getElem?_eq_some_iff.mp ht).1
  by_cases hj : j = k
  · subst hj
    rw [List.getElem?_set_self hlen] at hu
    exact Or.inl ⟨rfl, (Option.some.inj hu).symm⟩
  · rw [List.getElem?_set_ne (Ne.symm hj)] at hu
    exact Or.inr ⟨hj, hu⟩

theorem known_dispatch (hkeeps : handler.Keeps P) (hinv : Inv codec s) (h : Known codec P s) {r : Incoming A}
    {rest : List (Incoming A)} : Known codec P { s with
      requests := rest
      dispatched := s.dispatched ++ [r]
      tasks := s.tasks ++ (started codec handler r).toList } := by
  intro k t ht
  dsimp only at ht
  by_cases hk : k < s.tasks.length
  · rw [List.getElem?_append_left hk] at ht
    exact h k t ht
  · rw [List.getElem?_append_right (not_lt.mp hk)] at ht
    obtain ⟨m, hdecode, hquery, rfl⟩ := started_eq (List.mem_of_getElem? ht)
    have hnone : (s.serialised ++ s.responses).filter (·.task = k) = [] := by
      rw [List.filter_eq_nil_iff]
      intro o ho htask
      exact hk (of_decide_eq_true htask ▸ hinv.task_lt ho)
    refine ⟨m, hdecode, hquery, ?_⟩
    show P r.msg m _ (((s.serialised ++ s.responses).filter (·.task = k)).map (·.msg) ++ [])
    rw [hnone]
    exact hkeeps.start r.msg m

theorem known_respond (h : Known codec P s) {k : ℕ} {t : Task A S M} {m : M} (ht : s.tasks[k]? = some t)
    (hm : t.sending = some m) : Known codec P { s with
      tasks := s.tasks.set k { t with sending := none }
      responses := s.responses ++ [⟨m, t.request.addr, t.request.context, k⟩] } := by
  intro j u hu
  have hsent : State.sent { s with
      tasks := s.tasks.set k { t with sending := none }
      responses := s.responses ++ [⟨m, t.request.addr, t.request.context, k⟩] } j =
      s.sent j ++ (if k = j then [m] else []) := by
    unfold State.sent
    rw [← List.append_assoc, List.filter_append, List.map_append]
    congr 1
    by_cases hj : k = j
    · simp [hj]
    · simp [hj]
  rw [hsent]
  rcases getElem?_set_task ht hu with ⟨rfl, rfl⟩ | ⟨hj, hu⟩
  · obtain ⟨m', hdecode, hquery, hP⟩ := h _ t ht
    refine ⟨m', hdecode, hquery, ?_⟩
    rw [hm] at hP
    simpa using hP
  · obtain ⟨m', hdecode, hquery, hP⟩ := h j u hu
    refine ⟨m', hdecode, hquery, ?_⟩
    rwa [if_neg (Ne.symm hj), List.append_nil]

/-- **One step** keeps what is known of the handlers. -/
theorem known_step (hkeeps : handler.Keeps P) {c : Choice A I} (hinv : Inv codec s) (h : Known codec P s)
    (hs : step codec handler s c = some s') : Known codec P s' := by
  cases c with
  | accept addr =>
    obtain rfl := Option.some.inj hs
    exact h
  | port i c =>
    obtain ⟨p, -, hs⟩ := Option.bind_eq_some_iff.mp hs
    obtain ⟨p', -, rfl⟩ := Option.map_eq_some_iff.mp hs
    exact h
  | submit i =>
    obtain ⟨p, -, hs⟩ := Option.bind_eq_some_iff.mp hs
    obtain ⟨m, -, hs⟩ := Option.bind_eq_some_iff.mp hs
    simp only [Option.ite_none_right_eq_some, Option.some.injEq] at hs
    obtain ⟨-, rfl⟩ := hs
    exact h
  | dispatch =>
    simp only [step] at hs
    split at hs
    · cases hs
    · obtain rfl := Option.some.inj hs
      exact known_dispatch hkeeps hinv h
  | task k input =>
    obtain ⟨t, ht, hs⟩ := Option.bind_eq_some_iff.mp hs
    simp only [Option.ite_none_left_eq_some] at hs
    obtain ⟨hsending, hs⟩ := hs
    obtain ⟨⟨st', out⟩, hstep, rfl⟩ := Option.map_eq_some_iff.mp hs
    have hnone : t.sending = none := by simpa using hsending
    intro j u hu
    rcases getElem?_set_task ht hu with ⟨rfl, rfl⟩ | ⟨-, hu⟩
    · obtain ⟨m, hdecode, hquery, hP⟩ := h _ t ht
      refine ⟨m, hdecode, hquery, ?_⟩
      rw [hnone, Option.toList_none, List.append_nil] at hP
      exact hkeeps.step _ _ _ _ _ _ _ hP hstep
    · exact h j u hu
  | respond k =>
    obtain ⟨t, ht, hs⟩ := Option.bind_eq_some_iff.mp hs
    obtain ⟨m, hm, hs⟩ := Option.bind_eq_some_iff.mp hs
    simp only [Option.ite_none_right_eq_some, Option.some.injEq] at hs
    obtain ⟨-, rfl⟩ := hs
    exact known_respond h ht hm
  | serialise =>
    simp only [step, Option.ite_none_left_eq_some] at hs
    obtain ⟨-, hs⟩ := hs
    split at hs
    · cases hs
    · rename_i o rest hr
      obtain rfl := Option.some.inj hs
      intro j u hu
      have hsent : (s.serialised ++ [o] ++ rest).filter (·.task = j) =
          (s.serialised ++ s.responses).filter (·.task = j) := by
        rw [hr, List.append_assoc, List.singleton_append]
      obtain ⟨m, hdecode, hquery, hP⟩ := h j u hu
      refine ⟨m, hdecode, hquery, ?_⟩
      show P _ _ _ (((s.serialised ++ [o] ++ rest).filter (·.task = j)).map (·.msg) ++ u.sending.toList)
      rwa [hsent]
  | route =>
    obtain ⟨d, -, hs⟩ := Option.bind_eq_some_iff.mp hs
    obtain ⟨p, -, hs⟩ := Option.bind_eq_some_iff.mp hs
    simp only [Option.ite_none_right_eq_some, Option.some.injEq] at hs
    obtain ⟨-, rfl⟩ := hs
    exact h
  | tick ms =>
    obtain rfl := Option.some.inj hs
    exact h

/-- **The rule for handlers**: what the start of a handler meets and its steps keep, holds of every handler. -/
theorem always_known (hkeeps : handler.Keeps P) (sockets : ℕ) (cs : List (Choice A I)) :
    Always (step codec handler) (fun s => Inv codec s ∧ Known codec P s) (initial A S M sockets) cs := by
  refine always_of_step (fun s c s' h hs => ⟨inv_step h.1 hs, known_step hkeeps h.1 h.2 hs⟩)
    ⟨inv_initial sockets, fun k t ht => ?_⟩ cs
  simp [initial] at ht

end

/-! ### One response for each request -/

/-- What is below a bound, put together from its parts. -/
theorem perm_flatMap_filter {α : Type} (key : α → ℕ) (l : List α) (n : ℕ) :
    (l.filter (key · < n)).Perm ((List.range n).flatMap fun k => l.filter (key · = k)) := by
  induction n with
  | zero => simp
  | succ n ih =>
    have hbelow : (l.filter (key · < n + 1)).filter (key · < n) = l.filter (key · < n) := by
      rw [List.filter_filter]
      refine List.filter_congr fun a _ => ?_
      by_cases ha : key a < n
      · simp [ha, Nat.lt_succ_of_lt ha]
      · simp [ha]
    have hat : (l.filter (key · < n + 1)).filter (fun a => !decide (key a < n)) = l.filter (key · = n) := by
      rw [List.filter_filter]
      refine List.filter_congr fun a _ => ?_
      rw [Bool.eq_iff_iff]
      simp
      omega
    have hperm := List.filter_append_perm (fun a => decide (key a < n)) (l.filter (key · < n + 1))
    rw [hbelow, hat] at hperm
    rw [List.range_succ, List.flatMap_append, List.flatMap_singleton]
    exact hperm.symm.trans (ih.append_right _)

/-- The responses of a task go to the socket or connection of its request. -/
theorem Inv.filter_task {codec : Codec M} {s : State A S M} (h : Inv codec s) {k i : ℕ} {t : Task A S M}
    (ht : s.tasks[k]? = some t) : ((s.responsesTo i).filter (·.task = k)).map (·.msg) =
      if t.request.context = i then s.sent k else [] := by
  have hown : ∀ o ∈ s.serialised ++ s.responses, o.task = k → o.context = t.request.context := by
    intro o ho htask
    obtain ⟨r, hr, hcontext, -⟩ := h.own o ho
    rw [State.handled, List.getElem?_map, htask, ht] at hr
    rw [← hcontext, ← Option.some.inj hr]
  unfold State.responsesTo State.sent
  rw [List.filter_filter]
  split
  · rename_i hi
    congr 1
    refine List.filter_congr fun o ho => ?_
    by_cases htask : o.task = k
    · simp [htask, hown o ho htask, hi]
    · simp [htask]
  · rename_i hi
    rw [List.map_eq_nil_iff, List.filter_eq_nil_iff]
    intro o ho hboth
    simp only [Bool.and_eq_true, decide_eq_true_eq] at hboth
    exact hi ((hown o ho hboth.1).symm.trans hboth.2)

theorem forall₂_sent {β : Type} {f : ℕ → List β} {Q : Incoming A → β → Prop} (i : ℕ) (ts : List (Task A S M))
    (h : ∀ k t, ts[k]? = some t → ∃ m, f k = [m] ∧ Q t.request m) :
    List.Forall₂ Q ((ts.map (·.request)).filter (·.context = i))
      ((List.range ts.length).flatMap fun k =>
        if (ts[k]?).any (·.request.context = i) then f k else []) := by
  induction ts using List.reverseRecOn with
  | nil => exact List.Forall₂.nil
  | append_singleton ts t ih =>
    have hih := ih fun k u hk => h k u (by rw [List.getElem?_append_left (List.getElem?_eq_some_iff.mp hk).1]; exact hk)
    have hbelow : ((List.range ts.length).flatMap fun k =>
        if ((ts ++ [t])[k]?).any (·.request.context = i) then f k else []) =
        (List.range ts.length).flatMap fun k => if (ts[k]?).any (·.request.context = i) then f k else [] := by
      refine List.flatMap_congr fun k hk => ?_
      rw [List.getElem?_append_left (List.mem_range.mp hk)]
    obtain ⟨m, hm, hQ⟩ := h ts.length t (by simp)
    rw [List.length_append, List.length_singleton, List.range_succ, List.flatMap_append, hbelow, List.map_append,
      List.filter_append]
    refine List.rel_append hih ?_
    by_cases ht : t.request.context = i
    · simp [ht, hm, hQ]
    · simp [ht]

/-- The tasks of the requests from a socket or connection -/
def State.tasksOf (s : State A S M) (i : ℕ) : List ℕ :=
  (List.range s.tasks.length).flatMap fun k => if (s.tasks[k]?).any (·.request.context = i) then [k] else []

theorem nodup_tasksOf (s : State A S M) (i : ℕ) : (s.tasksOf i).Nodup := by
  refine List.nodup_flatMap.mpr ⟨fun k _ => ?_, List.nodup_range.imp fun {k l} hne x hk hl => ?_⟩
  · split
    · exact List.nodup_singleton k
    · exact List.nodup_nil
  · have hxk : x = k := by simp_all
    have hxl : x = l := by simp_all
    exact hne (hxk.symm.trans hxl)

/-- The requests from a socket or connection have their tasks, which send all responses to it. -/
theorem Inv.marks {codec : Codec M} {s : State A S M} (h : Inv codec s) (i : ℕ) :
    List.Forall₂ (fun r k => r.context = i ∧ ∃ t, s.tasks[k]? = some t ∧ t.request = r ∧
      ((s.responsesTo i).filter (·.task = k)).map (·.msg) = s.sent k) (s.requestsFrom i) (s.tasksOf i) ∧
    ∀ o ∈ s.responsesTo i, o.task ∈ s.tasksOf i := by
  constructor
  · have hmarks : List.Forall₂ (fun r k => r.context = i → ∃ t, s.tasks[k]? = some t ∧ t.request = r ∧
        ((s.responsesTo i).filter (·.task = k)).map (·.msg) = s.sent k) (s.requestsFrom i) (s.tasksOf i) := by
      refine forall₂_sent i s.tasks fun k t ht => ⟨k, rfl, fun hi => ⟨t, ht, rfl, ?_⟩⟩
      rw [h.filter_task ht, if_pos hi]
    have hcontext : ∀ r ∈ s.requestsFrom i, r.context = i := fun r hr => of_decide_eq_true (List.mem_filter.mp hr).2
    exact ((List.forall₂_and_left _ _).mpr ⟨hcontext, hmarks⟩).imp fun r k hk => ⟨hk.1, hk.2 hk.1⟩
  · intro o ho
    obtain ⟨hmem, hi⟩ := List.mem_filter.mp ho
    obtain ⟨r, hr, hcontext, -⟩ := h.own o hmem
    rw [State.handled, List.getElem?_map] at hr
    obtain ⟨t, ht, rfl⟩ := Option.map_eq_some_iff.mp hr
    refine List.mem_flatMap.mpr ⟨o.task, List.mem_range.mpr (h.task_lt hmem), ?_⟩
    rw [if_pos (by simpa [ht, hcontext] using hi)]
    exact List.mem_singleton_self _

/-- **Where each handler has sent one response**, the responses to a socket or connection are one for each request
that came from there. -/
theorem Inv.responses {codec : Codec M} {s : State A S M} (h : Inv codec s) {Q : Incoming A → M → Prop}
    (hsent : ∀ k t, s.tasks[k]? = some t → ∃ m, s.sent k = [m] ∧ Q t.request m) (i : ℕ) :
    ∃ answers, List.Forall₂ Q (s.requestsFrom i) answers ∧ ((s.responsesTo i).map (·.msg)).Perm answers := by
  refine ⟨_, forall₂_sent i s.tasks hsent, ?_⟩
  have hbound : (s.responsesTo i).filter (·.task < s.tasks.length) = s.responsesTo i := by
    rw [List.filter_eq_self]
    intro o ho
    exact decide_eq_true (h.task_lt (List.mem_filter.mp ho).1)
  have hperm := (perm_flatMap_filter (·.task) (s.responsesTo i) s.tasks.length).map (·.msg)
  rw [hbound, List.map_flatMap] at hperm
  refine hperm.trans (List.Perm.of_eq (List.flatMap_congr fun k hk => ?_))
  have ht := List.getElem?_eq_getElem (List.mem_range.mp hk)
  rw [h.filter_task ht, ht]
  simp

end HexDns.Net.Server

namespace HexDns.Net.Updates

open HexDns.Lib.Texts HexDns.Lib.Runs HexDns.Lib.Frames HexDns.Base.Message HexDns.Net.Tcp HexDns.Net.Server

variable {A M : Type}

/-! ### The handler -/

inductive MessageType
  | query
  | response
  deriving DecidableEq, Repr

inductive ResponseCode
  | badVers | servFail | notImp | formErr
  deriving DecidableEq, Repr

/-- What the handler uses of the DNS library. -/
structure Library (M : Type) extends Codec M where
  id : M → ℕ
  messageType : M → MessageType
  opCode : M → Opcode
  /-- `edns()`, the version -/
  ednsVersion : M → Option ℕ
  /-- `Message::error_msg` -/
  errorMsg : ℕ → Opcode → ResponseCode → M
  /-- `set_edns`, with an `Edns` that is new but for the version -/
  setEdns : M → ℕ → M

/-- Where `handle_request` is. -/
inductive Place
  | spawned
  /-- `update_query` is on its way. -/
  | calling
  | done
  deriving DecidableEq, Repr

/-- A call of `handle_request`. The last two fields record what went to the upstream and what came back. -/
structure Handling (M : Type) where
  rawBytes : Bytes
  msg : M
  place : Place
  calls : List Bytes
  replies : List (Option Bytes)

/-- What a handler waits for: its turn, or the reply of the upstream, `none` for an error. -/
inductive Input
  | run
  | reply (r : Option Bytes)

section
variable (lib : Library M)

/-- The response to a reply of the upstream -/
def answer (m : M) (r : Option Bytes) : M :=
  match r.bind lib.decode with
  | some response => response
  | none => lib.errorMsg (lib.id m) (lib.opCode m) .servFail

/-- The response to a message that is not passed on -/
def refusal (m : M) : Option M :=
  if (lib.ednsVersion m).any (0 < ·) then
    some (lib.setEdns (lib.errorMsg (lib.id m) (lib.opCode m) .badVers) 0)
  else
    match lib.messageType m with
    | .query =>
      match lib.opCode m with
      | .update => none
      | _ => some (lib.errorMsg (lib.id m) (lib.opCode m) .notImp)
    | .response => some (lib.errorMsg (lib.id m) (lib.opCode m) .formErr)

/-- `handle_request`, from one point where it waits to the next -/
def handleRequest (h : Handling M) : Input → Option (Handling M × Option M)
  | .run =>
    match h.place with
    | .spawned =>
      match refusal lib h.msg with
      | some response => some ({ h with place := .done }, some response)
      | none => some ({ h with place := .calling, calls := h.calls ++ [h.rawBytes] }, none)
    | _ => none
  | .reply r =>
    match h.place with
    | .calling => some ({ h with place := .done, replies := h.replies ++ [r] }, some (answer lib h.msg r))
    | _ => none

def handler : Handler M (Handling M) Input := ⟨fun b m => ⟨b, m, .spawned, [], []⟩, handleRequest lib⟩

/-! ### What it does -/

/-- What the upstream got of a request, and what the client gets: an update goes to the upstream once, byte for
byte, and its reply is the response; nothing else goes there. -/
def Answers (b : Bytes) (m : M) (h : Handling M) (response : M) : Prop :=
  match refusal lib m with
  | some r => h.calls = [] ∧ response = r
  | none => h.calls = [b] ∧ ∃ r, h.replies = [r] ∧ response = answer lib m r

/-- What is known of a call of `handle_request`. -/
def Handled (b : Bytes) (m : M) (h : Handling M) (sent : List M) : Prop :=
  (h.rawBytes = b ∧ h.msg = m) ∧
  match h.place with
  | .spawned => h.calls = [] ∧ h.replies = [] ∧ sent = []
  | .calling => refusal lib m = none ∧ h.calls = [b] ∧ h.replies = [] ∧ sent = []
  | .done => ∃ r, sent = [r] ∧ Answers lib b m h r

theorem handled_step {b : Bytes} {m : M} {h h' : Handling M} {sent : List M} {i : Input} {out : Option M}
    (hh : Handled lib b m h sent) (hs : handleRequest lib h i = some (h', out)) :
    Handled lib b m h' (sent ++ out.toList) := by
  obtain ⟨⟨rfl, rfl⟩, hplace⟩ := hh
  rcases hp : h.place with _ | _ | _
  · simp only [hp] at hplace
    obtain ⟨hcalls, hreplies, rfl⟩ := hplace
    cases i with
    | reply r => simp [handleRequest, hp] at hs
    | run =>
      rcases hrefusal : refusal lib h.msg with _ | response
      · simp only [handleRequest, hp, hrefusal, Option.some.injEq, Prod.mk.injEq] at hs
        obtain ⟨rfl, rfl⟩ := hs
        exact ⟨⟨rfl, rfl⟩, hrefusal, by simp [hcalls], hreplies, rfl⟩
      · simp only [handleRequest, hp, hrefusal, Option.some.injEq, Prod.mk.injEq] at hs
        obtain ⟨rfl, rfl⟩ := hs
        refine ⟨⟨rfl, rfl⟩, response, rfl, ?_⟩
        simpa only [Answers, hrefusal, and_true] using hcalls
  · simp only [hp] at hplace
    obtain ⟨hrefusal, hcalls, hreplies, rfl⟩ := hplace
    cases i with
    | run => simp [handleRequest, hp] at hs
    | reply r =>
      simp only [handleRequest, hp, Option.some.injEq, Prod.mk.injEq] at hs
      obtain ⟨rfl, rfl⟩ := hs
      refine ⟨⟨rfl, rfl⟩, answer lib h.msg r, rfl, ?_⟩
      simp only [Answers, hrefusal]
      exact ⟨hcalls, r, by simp [hreplies], rfl⟩
  · cases i with
    | run => simp [handleRequest, hp] at hs
    | reply r => simp [handleRequest, hp] at hs

theorem handler_keeps : (handler lib).Keeps (Handled lib) where
  start _ _ := ⟨⟨rfl, rfl⟩, rfl, rfl, rfl⟩
  step _ _ _ _ _ _ _ hh hs := handled_step lib hh hs

/-! ### The server as a whole -/

variable (sockets : ℕ) (cs : List (Choice A Input))

/-- **A request is handled once**: in every state of every run, what went to the upstream and to the client for
each request is what the place of its handler says. -/
theorem handled_once : Always (step lib.toCodec (handler lib))
    (fun s => ∀ k t, s.tasks[k]? = some t → ∃ m, lib.decode t.request.msg = some m ∧ lib.hasQuery m = true ∧
      Handled lib t.request.msg m t.state (s.sent k ++ t.sending.toList))
    (initial A (Handling M) M sockets) cs :=
  (always_known (handler_keeps lib) sockets cs).mono fun _ h => h.2

/-- The handlers have finished. -/
def AllDone (s : State A (Handling M) M) : Prop := ∀ t ∈ s.tasks, t.state.place = .done ∧ t.sending = none

/-- A response to a message is the one of a refusal, or of some reply to it. -/
def IsResponse (b : Bytes) (response : M) : Prop :=
  ∃ m, lib.decode b = some m ∧ match refusal lib m with
    | some r => response = r
    | none => ∃ r, response = answer lib m r

variable {lib} in
theorem sent_of_known {s : State A (Handling M) M} (h : Known lib.toCodec (Handled lib) s) (hdone : AllDone s) {k : ℕ}
    {t : Task A (Handling M) M} (ht : s.tasks[k]? = some t) :
    ∃ response, s.sent k = [response] ∧ IsResponse lib t.request.msg response := by
  obtain ⟨m, hdecode, -, -, hplace⟩ := h k t ht
  obtain ⟨hplace', hsending⟩ := hdone t (List.mem_of_getElem? ht)
  simp only [hplace'] at hplace
  obtain ⟨response, hsent, hanswers⟩ := hplace
  rw [hsending, Option.toList_none, List.append_nil] at hsent
  refine ⟨response, hsent, m, hdecode, ?_⟩
  unfold Answers at hanswers
  rcases hrefusal : refusal lib m with _ | r
  · simp only [hrefusal] at hanswers ⊢
    obtain ⟨-, r, -, rfl⟩ := hanswers
    exact ⟨r, rfl⟩
  · simp only [hrefusal] at hanswers ⊢
    exact hanswers.2

/-- The client of a connection has got one response to each of its requests, and can read them if each can be
encoded in less than 64 KiB. -/
def Answered (stream : Stream) : Prop :=
  ∃ answers sent : List M,
    List.Forall₂ (IsResponse lib) ((u16.split stream.came).1.filter (isRequest lib.toCodec)) answers ∧
    sent.Perm answers ∧ stream.out = u16.frames (sent.filterMap lib.encode) ∧
    ((∀ m ∈ answers, ∃ b, lib.encode m = some b ∧ b.length < 65536) →
      ∃ bs, u16.split stream.out = (bs, []) ∧ sent.map lib.encode = bs.map some)

variable {lib} in
theorem exists_encoded {l : List M} (h : ∀ m ∈ l, ∃ b, lib.encode m = some b ∧ b.length < 65536) :
    ∃ bs : List Bytes, l.map lib.encode = bs.map some ∧ l.filterMap lib.encode = bs ∧ ∀ b ∈ bs, u16.Fits b.length := by
  induction l with
  | nil => exact ⟨[], rfl, rfl, fun _ hb => absurd hb List.not_mem_nil⟩
  | cons m l ih =>
    obtain ⟨b, hb, hlt⟩ := h m List.mem_cons_self
    obtain ⟨bs, hmap, hfilter, hfits⟩ := ih fun m hm => h m (List.mem_cons_of_mem _ hm)
    refine ⟨b :: bs, by rw [List.map_cons, hb, hmap, List.map_cons], by rw [List.filterMap_cons_some hb, hfilter], ?_⟩
    intro c hc
    rcases List.mem_cons.mp hc with rfl | hc
    · exact fits_iff.mpr hlt
    · exact hfits c hc

/-- **One answer to each request**: when the server is at rest, the client of a connection that is open has got
the response to each of its requests. -/
theorem one_answer_each : Always (step lib.toCodec (handler lib))
    (fun s => AtRest s → AllDone s → ∀ (i : ℕ) (p : Port A) (addr : A) (stream : Stream), s.ports[i]? = some p →
      p.transport = .tcp addr stream → stream.Waits → stream.broken = false → Answered lib stream)
    (initial A (Handling M) M sockets) cs := by
  refine (always_known (handler_keeps lib) sockets cs).mono ?_
  rintro s ⟨hinv, hknown⟩ hrest hdone i p addr stream hp ht hwaits hbroken
  obtain ⟨hall, hout⟩ := Inv.complete hinv hrest hp ht
  obtain ⟨answers, hanswers, hperm⟩ := hinv.responses (Q := fun r m => IsResponse lib r.msg m)
    (fun k t ht => sent_of_known hknown hdone ht) i
  have hout := hout hbroken
  rw [show (fun o : Outgoing A M => lib.encode o.msg) = lib.encode ∘ (·.msg) from rfl, ← List.filterMap_map] at hout
  refine ⟨answers, (s.responsesTo i).map (·.msg), ?_, hperm, hout, fun hfits => ?_⟩
  · rw [← hall hwaits, List.forall₂_map_left_iff]
    exact hanswers
  · obtain ⟨bs, hmap, hfilter, hfit⟩ := exists_encoded fun m hm => hfits m (hperm.subset hm)
    refine ⟨bs, ?_, hmap⟩
    rw [hout, hfilter]
    exact Format.split_frames_iff.mpr hfit

end

end HexDns.Net.Updates
