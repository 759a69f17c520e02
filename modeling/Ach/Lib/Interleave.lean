import Mathlib.Logic.Function.Basic
import Mathlib.Logic.Relation
import Mathlib.Data.List.Basic

/-! # Programs that interleave, and their critical sections

A program is a tree of statements (`Prog`); each statement is one atomic step, and an assertion in
it can fail. Any number of processes, each with a program and locals of its own, run on one shared
state, one statement of one of them at a time (`Sys`). One flag of the shared state is a mutex.

Between the step that sets the flag and the step that clears it a process has the shared state to
itself. So it is enough to look at its section as if it ran alone (`Alone`, with the rules of `wp`
for the statements), and at the few statements outside: that is a `Discipline`, and under one no
assertion fails in any interleaving (`Discipline.safe`). What others can see of a section while it
runs is `View`; what a process relies on outside has to be true in every such view. `Φ` is a ghost
value of each process, for facts about all of them at once, such as how many are at some point. -/

namespace Ach.Lib.Interleave

/-! ### Programs -/

/-- A program over the states `σ`: a statement with the rest of the program. -/
inductive Prog (σ : Type) where
  | done
  /-- Asserts `ok` and then changes the state. -/
  | exec (ok : σ → Bool) (f : σ → σ) (k : Prog σ)
  /-- Waits until `p` holds and then changes the state, in one step. -/
  | await (p : σ → Bool) (f : σ → σ) (k : Prog σ)
  /-- Picks one of `n` numbers. -/
  | select (n : ℕ) (f : ℕ → σ → σ) (k : Prog σ)
  /-- Asserts `ok` and goes on with a branch whose guard holds. -/
  | choose (ok : σ → Bool) (n : ℕ) (g : Fin n → σ → Bool) (b : Fin n → Prog σ) (k : Prog σ)
  /-- Repeats the body while the guard holds. -/
  | loop (g : σ → Bool) (b : Prog σ) (k : Prog σ)

namespace Prog
variable {σ : Type}

/-- One program after the other. -/
def append : Prog σ → Prog σ → Prog σ
  | done, q => q
  | exec ok f k, q => exec ok f (k.append q)
  | await p f k, q => await p f (k.append q)
  | select n f k, q => select n f (k.append q)
  | choose ok n g b k, q => choose ok n g b (k.append q)
  | loop g b k, q => loop g b (k.append q)

instance : Append (Prog σ) := ⟨append⟩

@[simp] theorem done_append (q : Prog σ) : done ++ q = q := rfl

@[simp] theorem exec_append (ok : σ → Bool) (f : σ → σ) (k q : Prog σ) :
    exec ok f k ++ q = exec ok f (k ++ q) := rfl

@[simp] theorem await_append (p : σ → Bool) (f : σ → σ) (k q : Prog σ) :
    await p f k ++ q = await p f (k ++ q) := rfl

@[simp] theorem select_append (n : ℕ) (f : ℕ → σ → σ) (k q : Prog σ) :
    select n f k ++ q = select n f (k ++ q) := rfl

@[simp] theorem choose_append (ok : σ → Bool) (n : ℕ) (g : Fin n → σ → Bool)
    (b : Fin n → Prog σ) (k q : Prog σ) : choose ok n g b k ++ q = choose ok n g b (k ++ q) := rfl

@[simp] theorem loop_append (g : σ → Bool) (b k q : Prog σ) :
    loop g b k ++ q = loop g b (k ++ q) := rfl

theorem append_assoc (p q r : Prog σ) : p ++ q ++ r = p ++ (q ++ r) := by
  induction p with
  | done => rfl
  | exec ok f k ih => exact congrArg _ ih
  | await p f k ih => exact congrArg _ ih
  | select n f k ih => exact congrArg _ ih
  | choose ok n g b k _ ih => exact congrArg _ ih
  | loop g b k _ ih => exact congrArg _ ih

/-- The assertion of the next statement fails. -/
def fails (s : σ) : Prog σ → Bool
  | exec ok _ _ => !ok s
  | choose ok _ _ _ _ => !ok s
  | _ => false

/-- What can come of the next statement. -/
def next (s : σ) : Prog σ → List (Prog σ × σ)
  | done => []
  | exec ok f k => if ok s then [(k, f s)] else []
  | await p f k => if p s then [(k, f s)] else []
  | select n f k => (List.range n).map fun i => (k, f i s)
  | choose ok n g b k =>
    if ok s then ((List.finRange n).filter fun i => g i s).map fun i => (b i ++ k, s) else []
  | loop g b k => if g s then [(b ++ loop g b k, s)] else [(k, s)]

end Prog

/-! ### Systems -/

/-- The shared state, and each process with its program and its locals. -/
structure Sys (ι G L : Type) where
  shm : G
  prog : ι → Prog (G × L)
  loc : ι → L

variable {ι G L Φ : Type} [DecidableEq ι]

/-- The system after a statement of the process. -/
def Sys.after (s : Sys ι G L) (i : ι) (c : Prog (G × L) × (G × L)) : Sys ι G L :=
  ⟨c.2.1, Function.update s.prog i c.1, Function.update s.loc i c.2.2⟩

/-- One statement of one process. -/
inductive Step (s : Sys ι G L) : Sys ι G L → Prop
  | mk (i : ι) {c : Prog (G × L) × (G × L)} (hc : c ∈ (s.prog i).next (s.shm, s.loc i)) :
      Step s (s.after i c)

theorem not_step {s : Sys ι G L} (h : ∀ i, (s.prog i).next (s.shm, s.loc i) = [])
    (s' : Sys ι G L) : ¬ Step s s' := by
  rintro ⟨i, hc⟩
  simp [h i] at hc

/-- Any number of statements. -/
def Steps : Sys ι G L → Sys ι G L → Prop := Relation.ReflTransGen Step

/-- A schedule: at each step a process, and which of the next statements' outcomes is taken. -/
def Sys.go (s : Sys ι G L) : List (ι × ℕ) → Sys ι G L
  | [] => s
  | (i, n) :: sch => match ((s.prog i).next (s.shm, s.loc i))[n]? with
    | some c => (s.after i c).go sch
    | none => s

theorem steps_go (s : Sys ι G L) (sch : List (ι × ℕ)) : Steps s (s.go sch) := by
  induction sch generalizing s with
  | nil => exact .refl
  | cons x sch ih =>
    obtain ⟨i, n⟩ := x
    rw [Sys.go]
    cases hc : ((s.prog i).next (s.shm, s.loc i))[n]? with
    | none => exact .refl
    | some c => exact .head (.mk i (List.mem_of_getElem? hc)) (ih _)

/-- Who has the mutex after a statement of `i`: the process whose statement set it, until it is
cleared. -/
def holder (was is : Bool) (i : ι) (o : Option ι) : Option ι :=
  if is then if was then o else some i else none

/-- **Runs**, with the process that has the mutex. -/
inductive Runs (mutex : G → Bool) (s₀ : Sys ι G L) : Option ι → Sys ι G L → Prop
  | refl : Runs mutex s₀ none s₀
  | step {o : Option ι} {s : Sys ι G L} (i : ι) {c : Prog (G × L) × (G × L)}
      (hruns : Runs mutex s₀ o s) (hc : c ∈ (s.prog i).next (s.shm, s.loc i)) :
      Runs mutex s₀ (holder (mutex s.shm) (mutex c.2.1) i o) (s.after i c)

theorem Steps.runs (mutex : G → Bool) {s₀ s : Sys ι G L} (h : Steps s₀ s) :
    ∃ o, Runs mutex s₀ o s := by
  induction h with
  | refl => exact ⟨none, .refl⟩
  | tail _ hstep ih =>
    obtain ⟨o, hruns⟩ := ih
    obtain ⟨i, hc⟩ := hstep
    exact ⟨_, .step i hruns hc⟩

/-- The assertion of some next statement fails. -/
def Sys.Fails (s : Sys ι G L) : Prop := ∃ i, (s.prog i).fails (s.shm, s.loc i) = true

/-! ### A process alone -/

section
variable {σ : Type}

/-- **The process alone** never fails and never gets stuck, stays inside until it leaves, and `Q`
holds where it does. -/
inductive Alone (inside : σ → Prop) (Q : Prog σ → σ → Prop) : Prog σ → σ → Prop
  | leave {p : Prog σ} {s : σ} (hs : ¬ inside s) (hq : Q p s) : Alone inside Q p s
  | go {p : Prog σ} {s : σ} (hs : inside s) (hf : p.fails s = false) (hn : p.next s ≠ [])
      (h : ∀ c ∈ p.next s, Alone inside Q c.1 c.2) : Alone inside Q p s

/-- **The weakest precondition** of a part of a section: what goes on well from `R` goes on well
after the part. -/
def wp (inside : σ → Prop) (Q : Prog σ → σ → Prop) (p : Prog σ) (R : σ → Prop) (s : σ) : Prop :=
  ∀ k, (∀ t, R t → Alone inside Q k t) → Alone inside Q (p ++ k) s

variable {inside : σ → Prop} {Q : Prog σ → σ → Prop} {R R' : σ → Prop} {s : σ}

theorem wp_done (h : R s) : wp inside Q .done R s := fun _ hk => hk s h

theorem wp_mono {p : Prog σ} (h : wp inside Q p R s) (hr : ∀ t, R t → R' t) :
    wp inside Q p R' s := fun k hk => h k fun t ht => hk t (hr t ht)

theorem wp_append {p q : Prog σ} (h : wp inside Q p (wp inside Q q R) s) :
    wp inside Q (p ++ q) R s := fun k hk => by
  rw [Prog.append_assoc]
  exact h _ fun t ht => ht k hk

theorem wp_exec {ok : σ → Bool} {f : σ → σ} {p : Prog σ} (hs : inside s) (hok : ok s = true)
    (h : wp inside Q p R (f s)) : wp inside Q (.exec ok f p) R s := fun k hk => by
  refine .go hs (by simp [Prog.fails, hok]) (by simp [Prog.next, hok]) fun c hc => ?_
  obtain rfl : c = (p ++ k, f s) := by simpa [Prog.next, hok] using hc
  exact h k hk

theorem wp_select {n : ℕ} {f : ℕ → σ → σ} {p : Prog σ} (hs : inside s) (hn : 0 < n)
    (h : ∀ i, i < n → wp inside Q p R (f i s)) : wp inside Q (.select n f p) R s := fun k hk => by
  refine .go hs rfl (by simp [Prog.next]; omega) fun c hc => ?_
  obtain ⟨i, hi, rfl⟩ : ∃ i < n, (p ++ k, f i s) = c := by simpa [Prog.next] using hc
  exact h i hi k hk

theorem wp_choose {ok : σ → Bool} {n : ℕ} {g : Fin n → σ → Bool} {b : Fin n → Prog σ} {p : Prog σ}
    (hs : inside s) (hok : ok s = true) (hex : ∃ i, g i s = true)
    (h : ∀ i, g i s = true → wp inside Q (b i) (wp inside Q p R) s) :
    wp inside Q (.choose ok n g b p) R s := fun k hk => by
  obtain ⟨i, hi⟩ := hex
  refine .go hs (by simp [Prog.fails, hok]) ?_ fun c hc => ?_
  · simp only [Prog.choose_append, Prog.next, hok, if_true, ne_eq, List.map_eq_nil_iff,
      List.filter_eq_nil_iff, not_forall]
    exact ⟨i, List.mem_finRange i, by simpa using hi⟩
  · obtain ⟨j, hj, rfl⟩ : ∃ j, g j s = true ∧ (b j ++ (p ++ k), s) = c := by
      simpa [Prog.next, hok] using hc
    exact h j hj _ fun t ht => ht k hk

theorem wp_loop_true {g : σ → Bool} {b p : Prog σ} (hs : inside s) (hg : g s = true)
    (h : wp inside Q b (wp inside Q (.loop g b p) R) s) :
    wp inside Q (.loop g b p) R s := fun k hk => by
  refine .go hs rfl (by simp [Prog.next, hg]) fun c hc => ?_
  obtain rfl : c = (b ++ .loop g b (p ++ k), s) := by simpa [Prog.next, hg] using hc
  exact h _ fun t ht => ht k hk

theorem wp_loop_false {g : σ → Bool} {b p : Prog σ} (hs : inside s) (hg : g s = false)
    (h : wp inside Q p R s) : wp inside Q (.loop g b p) R s := fun k hk => by
  refine .go hs rfl (by simp [Prog.next, hg]) fun c hc => ?_
  obtain rfl : c = (p ++ k, s) := by simpa [Prog.next, hg] using hc
  exact h k hk

/-- **The rule for loops:** an invariant with a variant. -/
theorem wp_loop {g : σ → Bool} {b p : Prog σ} (I : ℕ → σ → Prop) {n : ℕ} (h0 : I n s)
    (hs : ∀ n t, I n t → inside t)
    (hbody : ∀ n t, I n t → g t = true → wp inside Q b (fun u => ∃ m, m < n ∧ I m u) t)
    (hend : ∀ n t, I n t → g t = false → wp inside Q p R t) :
    wp inside Q (.loop g b p) R s := by
  induction n using Nat.strongRecOn generalizing s with
  | ind n ih =>
    cases hg : g s with
    | true =>
      refine wp_loop_true (hs n s h0) hg (wp_mono (hbody n s h0 hg) ?_)
      rintro t ⟨m, hm, ht⟩
      exact ih m hm ht
    | false => exact wp_loop_false (hs n s h0) hg (hend n s h0 hg)

end

/-! ### Sections and what is outside of them -/

/-- What a process promises of its section, which it began at `g` with the ghost value `f`: where it
leaves, it has a ghost value with which the invariant holds, and is outside in good order. -/
def Section (mutex : G → Bool) (Inv : (ι → Φ) → G → Prop)
    (Out : ι → Φ → Prog (G × L) → L → G → Prop) (View : G → G → Prop) (i : ι) (f : Φ) (g : G) :
    Prog (G × L) → G × L → Prop :=
  Alone (fun s => mutex s.1 = true ∧ View g s.1) fun p s =>
    ∃ f', (∀ φ, φ i = f → Inv φ g → Inv (Function.update φ i f') s.1) ∧ Out i f' p s.2 s.1 ∧
      View g s.1

/-- **A discipline**: `Inv` is true of the shared state when the mutex is free, `Out` of a process
outside its section, and `View g` of what a section begun at `g` lets the others see. -/
structure Discipline (ι G L Φ : Type) [DecidableEq ι] where
  mutex : G → Bool
  Inv : (ι → Φ) → G → Prop
  Out : ι → Φ → Prog (G × L) → L → G → Prop
  View : G → G → Prop
  free : ∀ {φ g}, Inv φ g → mutex g = false
  refl : ∀ {φ g}, Inv φ g → View g g
  mono : ∀ {i f p l g g'}, Out i f p l g → View g g' → Out i f p l g'
  safe : ∀ {i f p l g g'}, Out i f p l g → View g g' → p.fails (g', l) = false
  step : ∀ {φ i p l g g' c}, Inv φ g → Out i (φ i) p l g → View g g' →
    (mutex g' = false → g' = g) → c ∈ p.next (g', l) →
    (c.2.1 = g' ∧ ∃ f, Inv (Function.update φ i f) g ∧ Out i f c.1 c.2.2 g) ∨
      (mutex g' = false ∧ Section mutex Inv Out View i (φ i) g c.1 c.2)

namespace Discipline
variable (D : Discipline ι G L Φ)

/-- The mutex is free. -/
structure Free (φ : ι → Φ) (s : Sys ι G L) : Prop where
  inv : D.Inv φ s.shm
  out : ∀ i, D.Out i (φ i) (s.prog i) (s.loc i) s.shm

/-- The process `h` is in its section, which it began at `g`. -/
structure Held (φ : ι → Φ) (h : ι) (g : G) (s : Sys ι G L) : Prop where
  inv : D.Inv φ g
  held : D.mutex s.shm = true
  view : D.View g s.shm
  out : ∀ i, i ≠ h → D.Out i (φ i) (s.prog i) (s.loc i) g
  sec : Section D.mutex D.Inv D.Out D.View h (φ h) g (s.prog h) (s.shm, s.loc h)

/-- **The system is in good order**, and this process has the mutex. -/
inductive Ordered : Option ι → Sys ι G L → Prop
  | free (φ : ι → Φ) {s : Sys ι G L} (h : D.Free φ s) : Ordered none s
  | held (φ : ι → Φ) (i : ι) (g : G) {s : Sys ι G L} (h : D.Held φ i g s) : Ordered (some i) s

variable {D} {s s₀ : Sys ι G L} {o : Option ι} {φ : ι → Φ} {g : G} {i j : ι}
  {c : Prog (G × L) × (G × L)}

/-- After a statement of `i` in its section, or the one that begins it. -/
theorem ordered_of_section (hinv : D.Inv φ g)
    (hout : ∀ j, j ≠ i → D.Out j (φ j) (s.prog j) (s.loc j) g)
    (hsec : Section D.mutex D.Inv D.Out D.View i (φ i) g c.1 c.2) :
    D.Ordered (if D.mutex c.2.1 then some i else none) (s.after i c) := by
  have hc := hsec
  cases hsec with
  | leave hs hq =>
    obtain ⟨f, hf, hi, hview⟩ := hq
    have hinv' := hf φ rfl hinv
    rw [if_neg (by simp [D.free hinv'])]
    refine .free (Function.update φ i f) ⟨hinv', fun j => ?_⟩
    by_cases hj : j = i
    · subst hj
      simpa [Sys.after] using hi
    · simpa [Sys.after, hj] using D.mono (hout j hj) hview
  | go hs hf hn h =>
    rw [if_pos hs.1]
    refine .held φ i g ⟨hinv, hs.1, hs.2, fun j hj => ?_, ?_⟩
    · simpa [Sys.after, hj] using hout j hj
    · simpa [Sys.after] using hc

/-- **Every step keeps the order.** -/
theorem Ordered.step (ho : D.Ordered o s) (hc : c ∈ (s.prog i).next (s.shm, s.loc i)) :
    D.Ordered (holder (D.mutex s.shm) (D.mutex c.2.1) i o) (s.after i c) := by
  cases ho with
  | free φ h =>
    have hfree := D.free h.inv
    rw [holder, if_neg (show ¬ D.mutex s.shm = true by simp [hfree])]
    rcases D.step h.inv (h.out i) (D.refl h.inv) (fun _ => rfl) hc with
      ⟨hshm, f, hinv, hi⟩ | ⟨-, hsec⟩
    · rw [hshm, if_neg (by simp [hfree])]
      refine .free (Function.update φ i f) ⟨by rw [← hshm] at hinv; exact hinv, fun j => ?_⟩
      by_cases hj : j = i
      · subst hj
        simpa [Sys.after, hshm] using hi
      · simpa [Sys.after, hj, hshm] using h.out j
    · exact ordered_of_section h.inv (fun j _ => h.out j) hsec
  | held φ k g h =>
    rw [holder, if_pos h.held]
    by_cases hik : i = k
    · subst hik
      have hsec := h.sec
      cases hsec with
      | leave hs hq => exact absurd ⟨h.held, h.view⟩ hs
      | go hs hf hn hgo => exact ordered_of_section h.inv h.out (hgo c hc)
    · rcases D.step h.inv (h.out i hik) h.view (fun hm => by simp [h.held] at hm) hc with
        ⟨hshm, f, hinv, hi⟩ | ⟨hm, -⟩
      · rw [hshm, if_pos h.held]
        refine .held (Function.update φ i f) k g
          ⟨hinv, by simp [Sys.after, hshm, h.held], by simp [Sys.after, hshm, h.view],
            fun j hj => ?_, ?_⟩
        · by_cases hji : j = i
          · subst hji
            simpa [Sys.after] using hi
          · simpa [Sys.after, hji] using h.out j hj
        · simpa [Sys.after, Ne.symm hik, hshm] using h.sec
      · simp [h.held] at hm

theorem Ordered.runs (ho : D.Ordered none s₀) (hruns : Runs D.mutex s₀ o s) : D.Ordered o s := by
  induction hruns with
  | refl => exact ho
  | step i _ hc ih => exact ih.step hc

/-- **No assertion fails**, and what can be seen is a view of a state with the invariant. -/
theorem Ordered.safe (ho : D.Ordered o s) : ¬ s.Fails ∧ ∃ φ g, D.Inv φ g ∧ D.View g s.shm := by
  cases ho with
  | free φ h =>
    refine ⟨fun ⟨i, hi⟩ => ?_, φ, _, h.inv, D.refl h.inv⟩
    rw [D.safe (h.out i) (D.refl h.inv)] at hi
    simp at hi
  | held φ k g h =>
    refine ⟨fun ⟨i, hi⟩ => ?_, φ, g, h.inv, h.view⟩
    by_cases hik : i = k
    · subst hik
      have hsec := h.sec
      cases hsec with
      | leave hs hq => exact hs ⟨h.held, h.view⟩
      | go hs hf hn hgo => simp [hf] at hi
    · rw [D.safe (h.out i hik) h.view] at hi
      simp at hi

/-- Somebody has a mutex that is set. -/
theorem Ordered.holder (ho : D.Ordered o s) (hm : D.mutex s.shm = true) : ∃ i, o = some i := by
  cases ho with
  | free φ h => simp [D.free h.inv] at hm
  | held φ i g h => exact ⟨i, rfl⟩

/-- Whoever has the mutex can go on. -/
theorem Ordered.progress (ho : D.Ordered (some i) s) :
    (s.prog i).next (s.shm, s.loc i) ≠ [] := by
  cases ho with
  | held φ i g h =>
    have hsec := h.sec
    cases hsec with
    | leave hs hq => exact absurd ⟨h.held, h.view⟩ hs
    | go hs hf hn hgo => exact hn

/-- **Mutual exclusion:** the others leave the shared state as it is. -/
theorem Ordered.alone (ho : D.Ordered (some i) s) (hj : j ≠ i)
    (hc : c ∈ (s.prog j).next (s.shm, s.loc j)) : c.2.1 = s.shm := by
  cases ho with
  | held φ i g h =>
    rcases D.step h.inv (h.out j hj) h.view (fun hm => by simp [h.held] at hm) hc with
      ⟨hshm, -⟩ | ⟨hm, -⟩
    · exact hshm
    · simp [h.held] at hm

end Discipline

end Ach.Lib.Interleave
