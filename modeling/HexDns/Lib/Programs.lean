import Mathlib.Data.List.Basic

/-! # Programs whose effects survive an exception

`Exec σ ε α` is a program on states `σ` that returns a value or raises an exception `ε`; what it has
done to the state before it raised stays done. `run` is its meaning. `Triple P m Q F` is the Hoare
triple with two postconditions, `Q` for a return and `F` for an exception, and there is one rule for
each way to build a program. `runAll f l` runs `f` on the elements of a list in order; a run that
stops, stops at one element, and the run up to it has returned (`run_runAll_error`). -/

namespace HexDns.Lib.Programs

variable {σ ε α β : Type}

theorem bind_eq_ok {x : Except ε α} {f : α → Except ε β} {b : β} :
    x >>= f = .ok b ↔ ∃ a, x = .ok a ∧ f a = .ok b := by
  rcases x with e | a <;> simp [bind, Except.bind]

theorem bind_eq_error {x : Except ε α} {f : α → Except ε β} {e : ε} :
    x >>= f = .error e ↔ x = .error e ∨ ∃ a, x = .ok a ∧ f a = .error e := by
  rcases x with e' | a <;> simp [bind, Except.bind]

theorem ok_of_toOption {x : Except ε α} {a : α} (hx : x.toOption = some a) : x = .ok a := by
  rcases x with e | b
  · cases hx
  · exact congrArg Except.ok (Option.some.inj hx)

theorem mapM_congr {ε α β : Type} {f g : α → Except ε β} {l : List α} (h : ∀ x ∈ l, f x = g x) :
    l.mapM f = l.mapM g := by
  induction l with
  | nil => rfl
  | cons x l ih =>
    rw [List.mapM_cons, List.mapM_cons, h x List.mem_cons_self,
      ih fun y hy => h y (List.mem_cons_of_mem _ hy)]

theorem mapM_eq_map {ε α β : Type} {f : α → Except ε β} {g : α → β} {l : List α}
    (hf : ∀ x ∈ l, f x = .ok (g x)) : l.mapM f = .ok (l.map g) := by
  induction l with
  | nil => rfl
  | cons x l ih =>
    rw [List.mapM_cons, hf x List.mem_cons_self, ih fun y hy => hf y (List.mem_cons_of_mem x hy)]
    rfl

theorem exists_of_map_ok {f : α → β} {e : Except ε α} {b : β} (h : e.map f = .ok b) :
    ∃ a, e = .ok a ∧ f a = b := by
  rcases e with e | a
  · cases h
  · exact ⟨a, rfl, Except.ok.inj h⟩

/-- The results of a function on the elements of a list. -/
theorem mem_mapM {f : α → Except ε β} {l : List α} {ys : List β} (h : l.mapM f = .ok ys) :
    (∀ y ∈ ys, ∃ x ∈ l, f x = .ok y) ∧ ∀ x ∈ l, ∃ y ∈ ys, f x = .ok y := by
  induction l generalizing ys with
  | nil =>
    obtain rfl := Except.ok.inj h
    exact ⟨fun y hy => (nomatch hy), fun x hx => (nomatch hx)⟩
  | cons x l ih =>
    rw [List.mapM_cons] at h
    obtain ⟨y, hy, h⟩ := bind_eq_ok.mp h
    obtain ⟨zs, hzs, h⟩ := bind_eq_ok.mp h
    obtain rfl := Except.ok.inj h
    obtain ⟨h1, h2⟩ := ih hzs
    constructor
    · intro z hz
      rcases List.mem_cons.mp hz with rfl | hz
      · exact ⟨x, List.mem_cons_self, hy⟩
      · obtain ⟨w, hw, hz⟩ := h1 z hz
        exact ⟨w, List.mem_cons_of_mem x hw, hz⟩
    · intro w hw
      rcases List.mem_cons.mp hw with rfl | hw
      · exact ⟨y, List.mem_cons_self, hy⟩
      · obtain ⟨z, hz, hwz⟩ := h2 w hw
        exact ⟨z, List.mem_cons_of_mem y hz, hwz⟩

theorem length_mapM {f : α → Except ε β} {l : List α} {ys : List β} (h : l.mapM f = .ok ys) :
    ys.length = l.length := by
  induction l generalizing ys with
  | nil =>
    obtain rfl := Except.ok.inj h
    rfl
  | cons x l ih =>
    rw [List.mapM_cons] at h
    obtain ⟨y, -, h⟩ := bind_eq_ok.mp h
    obtain ⟨zs, hzs, h⟩ := bind_eq_ok.mp h
    obtain rfl := Except.ok.inj h
    rw [List.length_cons, List.length_cons, ih hzs]

/-! ### Tasks that store files -/

section
variable {ν κ : Type} [DecidableEq ν]

/-- The files by their names after what a task has made, a name and a file if anything, is stored. -/
def stored (files : ν → Option κ) : Option (ν × κ) → ν → Option κ
  | none => files
  | some (name, file) => fun n => if n = name then some file else files n

/-- **Tasks are done one after the other**: the file of a name is that of the one task that makes it, if
it is done, and what it was otherwise. -/
theorem foldlM_stored {make : α → Except ε (Option (ν × κ))}
    {f : (ν → Option κ) → α → Except ε (ν → Option κ)}
    (hf : ∀ files a, f files a = (make a).map (stored files)) {a : α} {n : ν} {l : List α}
    (ha : ∀ o, make a = .ok o → ∃ file, o = some (n, file))
    (hothers : ∀ b ∈ l, b ≠ a → ∀ file, make b ≠ .ok (some (n, file))) {files files' : ν → Option κ}
    (hd : l.foldlM f files = .ok files') :
    (a ∈ l → ∃ file, make a = .ok (some (n, file)) ∧ files' n = some file) ∧
    (a ∉ l → files' n = files n) := by
  induction l generalizing files with
  | nil =>
    obtain rfl := Except.ok.inj hd
    exact ⟨fun hmem => absurd hmem List.not_mem_nil, fun _ => rfl⟩
  | cons b l ih =>
    rw [List.foldlM_cons] at hd
    obtain ⟨files1, h1, hd⟩ := bind_eq_ok.mp hd
    obtain ⟨hin, hout⟩ := ih (fun b' hb' => hothers b' (List.mem_cons_of_mem b hb')) hd
    rw [hf] at h1
    rcases hmake : make b with e | o
    · rw [hmake] at h1
      cases h1
    rw [hmake] at h1
    obtain rfl := Except.ok.inj h1
    by_cases hb : b = a
    · rw [hb] at hmake
      obtain ⟨file, rfl⟩ := ha o hmake
      refine ⟨fun _ => ?_, fun hmem => absurd (hb ▸ List.mem_cons_self) hmem⟩
      by_cases hmem : a ∈ l
      · exact hin hmem
      · exact ⟨file, hmake, (hout hmem).trans (if_pos rfl)⟩
    · have hsame : stored files o n = files n := by
        rcases o with _ | ⟨name, file⟩
        · rfl
        · refine if_neg fun hname => hothers b List.mem_cons_self hb file ?_
          rw [hmake, hname]
      constructor
      · intro hmem
        exact hin ((List.mem_cons.mp hmem).resolve_left fun heq => hb heq.symm)
      · intro hmem
        exact (hout fun hmem' => hmem (List.mem_cons_of_mem b hmem')).trans hsame

theorem make_of_foldlM {make : α → Except ε (Option (ν × κ))}
    {f : (ν → Option κ) → α → Except ε (ν → Option κ)}
    (hf : ∀ files a, f files a = (make a).map (stored files)) {l : List α}
    {files files' : ν → Option κ} (hd : l.foldlM f files = .ok files') {a : α} (ha : a ∈ l) :
    ∃ o, make a = .ok o := by
  induction l generalizing files with
  | nil => exact absurd ha List.not_mem_nil
  | cons b l ih =>
    rw [List.foldlM_cons] at hd
    obtain ⟨files1, h1, hd⟩ := bind_eq_ok.mp hd
    rcases List.mem_cons.mp ha with rfl | ha
    · rw [hf] at h1
      rcases hmake : make a with e | o
      · rw [hmake] at h1
        cases h1
      · exact ⟨o, rfl⟩
    · exact ih hd ha

end

theorem exists_mapM {f : α → Except ε β} {P : β → Prop} {l : List α} (h : ∀ x ∈ l, ∃ y, f x = .ok y ∧ P y) :
    ∃ ys, l.mapM f = .ok ys ∧ ∀ y ∈ ys, P y := by
  induction l with
  | nil => exact ⟨[], rfl, fun y hy => (nomatch hy)⟩
  | cons x l ih =>
    obtain ⟨y, hy, hP⟩ := h x List.mem_cons_self
    obtain ⟨ys, hys, hPs⟩ := ih fun z hz => h z (List.mem_cons_of_mem x hz)
    refine ⟨y :: ys, ?_, List.forall_mem_cons.mpr ⟨hP, hPs⟩⟩
    rw [List.mapM_cons, hy, hys]
    rfl

/-- A list fails at its first element that fails. -/
theorem mapM_eq_error {f : α → Except ε β} {l : List α} {e : ε} : l.mapM f = .error e ↔
    ∃ front a back, l = front ++ a :: back ∧ (∀ x ∈ front, ∃ y, f x = .ok y) ∧ f a = .error e := by
  induction l with
  | nil =>
    constructor
    · intro h
      cases h
    · rintro ⟨front, a, back, hl, -⟩
      simp at hl
  | cons x l ih =>
    rw [List.mapM_cons, bind_eq_error]
    constructor
    · rintro (hx | ⟨y, hy, h⟩)
      · exact ⟨[], x, l, rfl, fun x hx => (nomatch hx), hx⟩
      rcases bind_eq_error.mp h with h | ⟨ys, -, h⟩
      · obtain ⟨front, a, back, rfl, hfront, ha⟩ := ih.mp h
        exact ⟨x :: front, a, back, rfl, List.forall_mem_cons.mpr ⟨⟨y, hy⟩, hfront⟩, ha⟩
      · cases h
    · rintro ⟨front, a, back, hl, hfront, ha⟩
      rcases front with _ | ⟨z, front⟩
      · obtain ⟨rfl, rfl⟩ := List.cons.inj hl
        exact Or.inl ha
      · obtain ⟨rfl, htail⟩ := List.cons.inj hl
        obtain ⟨⟨y, hy⟩, hfront⟩ := List.forall_mem_cons.mp hfront
        have h : l.mapM f = .error e := ih.mpr ⟨front, a, back, htail, hfront, ha⟩
        exact Or.inr ⟨y, hy, bind_eq_error.mpr (Or.inl h)⟩

/-- So does a loop. -/
theorem foldlM_eq_error {f : σ → α → Except ε σ} {l : List α} {s : σ} {e : ε} : l.foldlM f s = .error e ↔
    ∃ front a back t, l = front ++ a :: back ∧ front.foldlM f s = .ok t ∧ f t a = .error e := by
  induction l generalizing s with
  | nil =>
    constructor
    · intro h
      cases h
    · rintro ⟨front, a, back, t, hl, -⟩
      simp at hl
  | cons x l ih =>
    rw [List.foldlM_cons, bind_eq_error]
    constructor
    · rintro (hx | ⟨t, ht, h⟩)
      · exact ⟨[], x, l, s, rfl, rfl, hx⟩
      · obtain ⟨front, a, back, u, rfl, hfront, ha⟩ := ih.mp h
        refine ⟨x :: front, a, back, u, rfl, ?_, ha⟩
        rw [List.foldlM_cons]
        exact bind_eq_ok.mpr ⟨t, ht, hfront⟩
    · rintro ⟨front, a, back, u, hl, hfront, ha⟩
      rcases front with _ | ⟨z, front⟩
      · obtain ⟨rfl, rfl⟩ := List.cons.inj hl
        obtain rfl := Except.ok.inj hfront
        exact Or.inl ha
      · obtain ⟨rfl, htail⟩ := List.cons.inj hl
        rw [List.foldlM_cons] at hfront
        obtain ⟨t, ht, hfront⟩ := bind_eq_ok.mp hfront
        exact Or.inr ⟨t, ht, ih.mpr ⟨front, a, back, u, htail, hfront, ha⟩⟩

theorem mapM_eq_ok_iff {f : α → Except ε β} {g : α → Option β} (h : ∀ x y, f x = .ok y ↔ g x = some y) {l : List α}
    {ys : List β} : l.mapM f = .ok ys ↔ l.mapM g = some ys := by
  induction l generalizing ys with
  | nil =>
    rw [List.mapM_nil, List.mapM_nil]
    exact ⟨fun h => congrArg some (Except.ok.inj h), fun h => congrArg Except.ok (Option.some.inj h)⟩
  | cons x l ih =>
    rw [List.mapM_cons, List.mapM_cons, bind_eq_ok, Option.bind_eq_bind, Option.bind_eq_some_iff]
    refine exists_congr fun y => and_congr (h x y) ?_
    rw [bind_eq_ok, Option.bind_eq_bind, Option.bind_eq_some_iff]
    refine exists_congr fun zs => and_congr ih ?_
    exact ⟨fun h => congrArg some (Except.ok.inj h), fun h => congrArg Except.ok (Option.some.inj h)⟩

/-- Whatever a result fails with satisfies `P`. -/
def RaisesOnly (P : ε → Prop) (x : Except ε α) : Prop := ∀ e, x = .error e → P e

section
variable {P : ε → Prop} {x : Except ε α}

theorem raisesOnly_ok (a : α) : RaisesOnly P (.ok a : Except ε α) := fun _ h => by cases h

theorem raisesOnly_error {e : ε} (he : P e) : RaisesOnly P (.error e : Except ε α) := by
  intro e' h
  cases h
  exact he

theorem RaisesOnly.bind {f : α → Except ε β} (hx : RaisesOnly P x)
    (hf : ∀ a, x = .ok a → RaisesOnly P (f a)) : RaisesOnly P (x >>= f) := by
  intro e h
  rcases bind_eq_error.mp h with h | ⟨a, ha, h⟩
  · exact hx e h
  · exact hf a ha e h

theorem RaisesOnly.map (f : α → β) (hx : RaisesOnly P x) : RaisesOnly P (x.map f) := by
  intro e h
  rcases x with e' | a
  · cases h
    exact hx _ rfl
  · cases h

theorem RaisesOnly.mapM {f : α → Except ε β} {l : List α} (h : ∀ a ∈ l, RaisesOnly P (f a)) :
    RaisesOnly P (l.mapM f) := by
  induction l with
  | nil => exact raisesOnly_ok _
  | cons a l ih =>
    rw [List.mapM_cons]
    refine (h a List.mem_cons_self).bind fun b _ => ?_
    refine (ih fun a' ha' => h a' (List.mem_cons_of_mem _ ha')).bind fun bs _ => ?_
    exact raisesOnly_ok _

/-- A result that fails only so, and does not, is there. -/
theorem RaisesOnly.ok_or {e : ε} (hx : RaisesOnly (· = e) x) : (∃ a, x = .ok a) ∨ x = .error e := by
  rcases x with e' | a
  · exact Or.inr (congrArg Except.error (hx e' rfl))
  · exact Or.inl ⟨a, rfl⟩

end

/-- A program on states `σ` that may raise `ε`. -/
abbrev Exec (σ ε α : Type) := ExceptT ε (StateM σ) α

/-- The result and the state after the program. -/
def run (m : Exec σ ε α) (s : σ) : Except ε α × σ := StateT.run (ExceptT.run m) s

@[simp] theorem run_pure (a : α) (s : σ) : run (pure a : Exec σ ε α) s = (.ok a, s) := rfl

@[simp] theorem run_throw (e : ε) (s : σ) : run (throw e : Exec σ ε α) s = (.error e, s) := rfl

@[simp] theorem run_get (s : σ) : run (get : Exec σ ε σ) s = (.ok s, s) := rfl

@[simp] theorem run_modify (f : σ → σ) (s : σ) :
    run (modify f : Exec σ ε PUnit) s = (.ok ⟨⟩, f s) := rfl

theorem run_bind (m : Exec σ ε α) (f : α → Exec σ ε β) (s : σ) :
    run (m >>= f) s = match run m s with
      | (.ok a, s') => run (f a) s'
      | (.error e, s') => (.error e, s') := by
  change StateT.run (ExceptT.run m >>= ExceptT.bindCont f) s = _
  unfold run
  rw [StateT.run_bind]
  rcases h : StateT.run (ExceptT.run m) s with ⟨r, s'⟩
  rcases r with e | a <;> rfl

theorem run_bind_ok {m : Exec σ ε α} {f : α → Exec σ ε β} {s s' : σ} {a : α}
    (h : run m s = (.ok a, s')) : run (m >>= f) s = run (f a) s' := by
  rw [run_bind, h]

theorem run_bind_error {m : Exec σ ε α} {f : α → Exec σ ε β} {s s' : σ} {e : ε}
    (h : run m s = (.error e, s')) : run (m >>= f) s = (.error e, s') := by
  rw [run_bind, h]

theorem run_bind_eq_ok {m : Exec σ ε α} {f : α → Exec σ ε β} {s t : σ} {b : β} :
    run (m >>= f) s = (.ok b, t) ↔ ∃ a u, run m s = (.ok a, u) ∧ run (f a) u = (.ok b, t) := by
  rw [run_bind]
  rcases run m s with ⟨e | a, u⟩ <;> simp

theorem run_tryCatch (m : Exec σ ε α) (f : ε → Exec σ ε α) (s : σ) :
    run (tryCatch m f) s = match run m s with
      | (.ok a, s') => (.ok a, s')
      | (.error e, s') => run (f e) s' := by
  change StateT.run (ExceptT.run m >>= fun
    | .ok a => (pure (.ok a) : StateM σ (Except ε α))
    | .error e => f e) s = _
  unfold run
  rw [StateT.run_bind]
  rcases h : StateT.run (ExceptT.run m) s with ⟨r, s'⟩
  rcases r with e | a <;> rfl

/-- The value of an `Except`, raised if it is an error. -/
def ofResult (x : Except ε α) : Exec σ ε α :=
  match x with
  | .ok a => pure a
  | .error e => throw e

@[simp] theorem run_ofResult (x : Except ε α) (s : σ) : run (ofResult x) s = (x, s) := by
  cases x <;> rfl

/-! ### Hoare triples -/

/-- From a state in `P` the program returns `a` in a state in `Q a`, or raises `e` in one in
`F e`. -/
def Triple (P : σ → Prop) (m : Exec σ ε α) (Q : α → σ → Prop) (F : ε → σ → Prop) : Prop :=
  ∀ s, P s → match run m s with
    | (.ok a, s') => Q a s'
    | (.error e, s') => F e s'

section
variable {P P' : σ → Prop} {Q Q' : α → σ → Prop} {R : β → σ → Prop} {F F' : ε → σ → Prop}

theorem triple_pure (a : α) (h : ∀ s, P s → Q a s) : Triple P (pure a) Q F :=
  fun s hs => h s hs

theorem triple_throw (e : ε) (h : ∀ s, P s → F e s) : Triple P (throw e) Q F :=
  fun s hs => h s hs

theorem triple_bind {m : Exec σ ε α} {f : α → Exec σ ε β} (hm : Triple P m Q F)
    (hf : ∀ a, Triple (Q a) (f a) R F) : Triple P (m >>= f) R F := by
  intro s hs
  have h := hm s hs
  rw [run_bind]
  rcases hr : run m s with ⟨e | a, s'⟩
  · rw [hr] at h; exact h
  · rw [hr] at h; exact hf a s' h

theorem triple_ite {c : Prop} [Decidable c] {m n : Exec σ ε α} (hm : c → Triple P m Q F)
    (hn : ¬ c → Triple P n Q F) : Triple P (if c then m else n) Q F := by
  split_ifs with h
  · exact hm h
  · exact hn h

end

/-! ### Loops -/

/-- `f` on each element of the list, in order. -/
def runAll (f : α → Exec σ ε Unit) : List α → Exec σ ε Unit
  | [] => pure ()
  | a :: l => f a >>= fun _ => runAll f l

/-- **The rule of loops**: an invariant that each element's program keeps. -/
theorem triple_runAll {f : α → Exec σ ε Unit} {l : List α} {I : σ → Prop} {F : ε → σ → Prop}
    (h : ∀ a ∈ l, Triple I (f a) (fun _ => I) F) : Triple I (runAll f l) (fun _ => I) F := by
  induction l with
  | nil => exact triple_pure () fun _ hs => hs
  | cons a l ih =>
    exact triple_bind (h a List.mem_cons_self) fun _ =>
      ih fun b hb => h b (List.mem_cons_of_mem _ hb)

/-- The condition holds before each element that a loop comes to. -/
def BeforeEach (f : α → Exec σ ε Unit) (ok : σ → α → Prop) : List α → σ → Prop
  | [], _ => True
  | a :: l, s => ok s a ∧
      match run (f a) s with
      | (.ok (), s') => BeforeEach f ok l s'
      | (.error _, _) => True

theorem beforeEach_imp {f : α → Exec σ ε Unit} {ok : σ → α → Prop} {p : Prop} {l : List α} {s : σ}
    (h : p → BeforeEach f ok l s) : BeforeEach f (fun s a => p → ok s a) l s := by
  induction l generalizing s with
  | nil => exact trivial
  | cons a l ih =>
    refine ⟨fun hp => (h hp).1, ?_⟩
    rcases hr : run (f a) s with ⟨e | u, t⟩
    · exact trivial
    · refine ih fun hp => ?_
      have hrest := (h hp).2
      rw [hr] at hrest
      exact hrest

/-- **The rule of loops with a condition**: what each element's program keeps where the condition
holds, the loop keeps, also if it stops. -/
theorem run_runAll_of_beforeEach {f : α → Exec σ ε Unit} {ok : σ → α → Prop} {I : σ → Prop}
    {l : List α} (hstep : ∀ a ∈ l, ∀ s, I s → ok s a → I (run (f a) s).2) {s : σ} (h0 : I s)
    (h : BeforeEach f ok l s) : I (run (runAll f l) s).2 := by
  induction l generalizing s with
  | nil => exact h0
  | cons a l ih =>
    obtain ⟨hok, hrest⟩ := h
    have ha := hstep a List.mem_cons_self s h0 hok
    show I (run (f a >>= fun _ => runAll f l) s).2
    rw [run_bind]
    rcases hr : run (f a) s with ⟨e | u, t⟩
    · rw [hr] at ha
      exact ha
    · rw [hr] at ha hrest
      exact ih (fun b hb => hstep b (List.mem_cons_of_mem a hb)) ha hrest

/-- **A loop returns** if and only if each element that it comes to meets the condition for its program
to return. -/
theorem run_runAll_eq_ok {f : α → Exec σ ε Unit} {ok : σ → α → Prop} {l : List α}
    (hf : ∀ a ∈ l, ∀ s, (run (f a) s).1 = .ok () ↔ ok s a) {s : σ} :
    (run (runAll f l) s).1 = .ok () ↔ BeforeEach f ok l s := by
  induction l generalizing s with
  | nil => exact iff_of_true rfl trivial
  | cons a l ih =>
    have ha := hf a List.mem_cons_self s
    show (run (f a >>= fun _ => runAll f l) s).1 = .ok () ↔ ok s a ∧ _
    rw [run_bind, ← ha]
    rcases run (f a) s with ⟨e | u, t⟩
    · simp
    · simpa using ih fun b hb => hf b (List.mem_cons_of_mem a hb)

theorem run_runAll_append_ok {f : α → Exec σ ε Unit} {l l' : List α} {s s' : σ}
    (h : run (runAll f l) s = (.ok (), s')) : run (runAll f (l ++ l')) s = run (runAll f l') s' := by
  induction l generalizing s with
  | nil =>
    obtain rfl : s = s' := congrArg Prod.snd h
    rfl
  | cons a l ih =>
    change run (f a >>= fun _ => runAll f l) s = _ at h
    change run (f a >>= fun _ => runAll f (l ++ l')) s = _
    rw [run_bind] at h ⊢
    rcases hr : run (f a) s with ⟨e | u, t⟩
    · rw [hr] at h; cases h
    · rw [hr] at h; exact ih h

/-- **A loop that stops, stops at one element**, after the loop over the ones before has
returned. -/
theorem run_runAll_error {f : α → Exec σ ε Unit} {l : List α} {s s' : σ} {e : ε} :
    run (runAll f l) s = (.error e, s') ↔
      ∃ pre a post t, l = pre ++ a :: post ∧ run (runAll f pre) s = (.ok (), t) ∧
        run (f a) t = (.error e, s') := by
  constructor
  · induction l generalizing s with
    | nil => intro h; cases h
    | cons a l ih =>
      intro h
      change run (f a >>= fun _ => runAll f l) s = _ at h
      rw [run_bind] at h
      rcases hr : run (f a) s with ⟨e' | u, t⟩
      · rw [hr] at h
        exact ⟨[], a, l, s, rfl, rfl, by rw [hr]; exact h⟩
      · rw [hr] at h
        obtain ⟨pre, b, post, t', rfl, hpre, hb⟩ := ih h
        refine ⟨a :: pre, b, post, t', rfl, ?_, hb⟩
        change run (f a >>= fun _ => runAll f pre) s = _
        rw [run_bind_ok hr]; exact hpre
  · rintro ⟨pre, a, post, t, rfl, hpre, ha⟩
    rw [run_runAll_append_ok hpre]
    exact run_bind_error ha

/-- A loop over programs whose results do not depend on the state returns if each of them does. -/
theorem exists_run_runAll_ok {f : α → Exec σ ε Unit}
    (hf : ∀ a s s', (run (f a) s).1 = (run (f a) s').1) {l : List α} {s : σ} :
    (∃ s', run (runAll f l) s = (.ok (), s')) ↔ ∀ a ∈ l, (run (f a) s).1 = .ok () := by
  induction l generalizing s with
  | nil => exact iff_of_true ⟨s, rfl⟩ (by simp)
  | cons a l ih =>
    change (∃ s', run (f a >>= fun _ => runAll f l) s = _) ↔ _
    rw [List.forall_mem_cons, run_bind]
    rcases hr : run (f a) s with ⟨e | u, t⟩
    · simp
    · have hsame : ∀ b, (run (f b) t).1 = (run (f b) s).1 := fun b => hf b t s
      simp only [ih, hsame, true_and]

/-! ### Two programs -/

/-- From one state, two programs return in one state with values in the relation, or raise the same
exception in one state. -/
def AgreeAt (R : α → β → Prop) (m : Exec σ ε α) (m' : Exec σ ε β) (s : σ) : Prop :=
  match run m s, run m' s with
  | (.ok a, t), (.ok b, t') => R a b ∧ t = t'
  | (.error e, t), (.error e', t') => e = e' ∧ t = t'
  | _, _ => False

section
variable {γ δ : Type} {R : α → β → Prop} {m : Exec σ ε α} {m' : Exec σ ε β} {s : σ}

theorem agreeAt_ok {a : α} {b : β} (hR : R a b) : AgreeAt R (pure a : Exec σ ε α) (pure b) s := ⟨hR, rfl⟩

theorem agreeAt_error (e : ε) : AgreeAt R (throw e : Exec σ ε α) (throw e : Exec σ ε β) s := ⟨rfl, rfl⟩

theorem agreeAt_eq {m m' : Exec σ ε α} : AgreeAt Eq m m' s ↔ run m s = run m' s := by
  unfold AgreeAt
  rcases run m s with ⟨e | a, t⟩ <;> rcases run m' s with ⟨e' | b, t'⟩ <;> simp

/-- **The rule of sequences**: the rest is looked at in the state in which both programs return. -/
theorem AgreeAt.bind {S : γ → δ → Prop} {f : α → Exec σ ε γ} {f' : β → Exec σ ε δ} (h : AgreeAt R m m' s)
    (hf : ∀ a b t, run m s = (.ok a, t) → run m' s = (.ok b, t) → R a b → AgreeAt S (f a) (f' b) t) :
    AgreeAt S (m >>= f) (m' >>= f') s := by
  unfold AgreeAt at h ⊢
  rw [run_bind, run_bind]
  rcases hm : run m s with ⟨e | a, t⟩ <;> rcases hm' : run m' s with ⟨e' | b, t'⟩ <;> rw [hm, hm'] at h
  · exact h
  · exact h.elim
  · exact h.elim
  · obtain ⟨hR, rfl⟩ := h
    exact hf a b t hm hm' hR

/-- Steps that both programs make alike. -/
theorem agreeAt_step {S : γ → δ → Prop} {f : α → Exec σ ε γ} {f' : α → Exec σ ε δ} {m : Exec σ ε α}
    (hf : ∀ a t, run m s = (.ok a, t) → AgreeAt S (f a) (f' a) t) :
    AgreeAt S (m >>= f) (m >>= f') s :=
  AgreeAt.bind (R := Eq) (agreeAt_eq.mpr rfl) fun a _ t ha _ hab => hab ▸ hf a t ha

theorem agreeAt_tryCatch {f : ε → Exec σ ε α} {f' : ε → Exec σ ε β} (h : AgreeAt R m m' s)
    (hf : ∀ e t, AgreeAt R (f e) (f' e) t) : AgreeAt R (tryCatch m f) (tryCatch m' f') s := by
  unfold AgreeAt at h ⊢
  rw [run_tryCatch, run_tryCatch]
  rcases hm : run m s with ⟨e | a, t⟩ <;> rcases hm' : run m' s with ⟨e' | b, t'⟩ <;> rw [hm, hm'] at h
  · obtain ⟨rfl, rfl⟩ := h
    exact hf e t
  · exact h.elim
  · exact h.elim
  · exact h

theorem agreeAt_ofResult {x : Except ε α} {y : Except ε β}
    (h : match x, y with
      | .ok a, .ok b => R a b
      | .error e, .error e' => e = e'
      | _, _ => False) :
    AgreeAt R (ofResult x) (ofResult y) s := by
  unfold AgreeAt
  rw [run_ofResult, run_ofResult]
  rcases x with e | a <;> rcases y with e' | b
  · exact ⟨h, rfl⟩
  · exact h
  · exact h
  · exact ⟨h, rfl⟩

/-- Loops over lists whose elements agree. -/
theorem run_runAll_congr {f f' : α → Exec σ ε Unit} {ok : α → α → Prop}
    (hf : ∀ a a' s, ok a a' → run (f a) s = run (f' a') s) {l l' : List α} (hl : List.Forall₂ ok l l') (s : σ) :
    run (runAll f l) s = run (runAll f' l') s := by
  induction hl generalizing s with
  | nil => rfl
  | cons ha _ ih =>
    show run (f _ >>= fun _ => runAll f _) s = run (f' _ >>= fun _ => runAll f' _) s
    rw [run_bind, run_bind, hf _ _ s ha]
    rcases run (f' _) s with ⟨e | u, t⟩
    · rfl
    · exact ih t

end

/-! ### Programs that work off a list -/

section
variable {σ ε α β γ : Type}

/-- The program works off a list of items: it gets through the good ones at its front, and raises at the
first that is not good. `I` is what holds of the state after the items done so far. -/
def WorksOff (I : List γ → σ → Prop) (good : γ → Prop) (m : Exec σ ε α) (items : List γ) : Prop :=
  ∀ done s, I done s → ∃ before rest, items = before ++ rest ∧ (∀ b ∈ before, good b) ∧
    I (done ++ before) (run m s).2 ∧
    match (run m s).1 with
    | .ok _ => rest = []
    | .error _ => ∃ b after, rest = b :: after ∧ ¬ good b

variable {I : List γ → σ → Prop} {good : γ → Prop} {m : Exec σ ε α} {items items' : List γ}

/-- A program that returns, with no item. -/
theorem worksOff_nil (hm : ∀ done s, I done s → ∃ a t, run m s = (.ok a, t) ∧ I done t) :
    WorksOff I good m [] := by
  intro done s hs
  obtain ⟨a, t, hrun, ht⟩ := hm done s hs
  refine ⟨[], [], rfl, fun b hb => (nomatch hb), ?_, ?_⟩
  · rw [hrun, List.append_nil]
    exact ht
  · rw [hrun]

theorem worksOff_congr {m' : Exec σ ε α} (hrun : ∀ done s, I done s → run m s = run m' s)
    (hm' : WorksOff I good m' items) : WorksOff I good m items := by
  intro done s hs
  rw [hrun done s hs]
  exact hm' done s hs

theorem WorksOff.bind {f : α → Exec σ ε β} (hm : WorksOff I good m items)
    (hf : ∀ a, WorksOff I good (f a) items') : WorksOff I good (m >>= f) (items ++ items') := by
  intro done s hs
  obtain ⟨before, rest, hitems, hgood, ht, hend⟩ := hm done s hs
  rw [run_bind]
  rcases hrun : run m s with ⟨e | a, t⟩
  · rw [hrun] at ht hend
    obtain ⟨b, after, hrest, hb⟩ := hend
    exact ⟨before, rest ++ items', by rw [hitems, List.append_assoc], hgood, ht, b, after ++ items',
      by rw [hrest, List.cons_append], hb⟩
  · rw [hrun] at ht hend
    have hrest : rest = [] := hend
    obtain ⟨before', rest', hitems', hgood', ht', hend'⟩ := hf a (done ++ before) t ht
    refine ⟨before ++ before', rest', ?_, ?_, ?_, hend'⟩
    · rw [hitems, hrest, List.append_nil, hitems', List.append_assoc]
    · intro b hb
      exact (List.mem_append.mp hb).elim (hgood b) (hgood' b)
    · rw [← List.append_assoc]
      exact ht'

/-- **The rule of loops**: each element works off its items. -/
theorem worksOff_runAll {f : α → Exec σ ε Unit} {itemsOf : α → List γ} {l : List α}
    (hf : ∀ a ∈ l, WorksOff I good (f a) (itemsOf a)) : WorksOff I good (runAll f l) (l.flatMap itemsOf) := by
  induction l with
  | nil => exact worksOff_nil fun done s hs => ⟨(), s, rfl, hs⟩
  | cons a l ih =>
    rw [List.flatMap_cons]
    exact (hf a List.mem_cons_self).bind fun _ => ih fun b hb => hf b (List.mem_cons_of_mem a hb)

end

end HexDns.Lib.Programs
