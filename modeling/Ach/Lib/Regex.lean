import Mathlib.Algebra.Ring.Nat
import Mathlib.Data.List.Basic
import Mathlib.Data.List.TakeWhile

/-! # POSIX matching of simple regular expressions

Expressions are alternatives of branches, a branch is a sequence of items: a character of a class, a
run of characters of a class (which may be a subexpression, whose span is reported), and the
anchors. `regexec` finds the match that begins first, among these the longest, and among these the
one in which each item, from left to right, is as long as it can be. Of two branches that match
equally long the first one counts.

`greedy` takes the longest run for each item without looking ahead. Where that gives a match up to
the end of the string, it is the one `regexec` finds (`regexec_of_greedy`). Whether there is a match
at all is a question of the items one by one (`regexec_isSome_iff`, `parses_many_ne_nil` and the
lemmas after it). -/

namespace Ach.Lib.Regex

variable {α : Type}

/-- An item of a branch. -/
inductive Item (α : Type) where
  /-- `^` -/
  | bol
  /-- `$` -/
  | eol
  /-- A character of the class. -/
  | one (p : α → Bool)
  /-- Any number of characters of the class; `group` if it is a subexpression. -/
  | many (group : Bool) (p : α → Bool)

/-- An expression: its branches. -/
abbrev Branches (α : Type) : Type := List (List (Item α))

/-- All ways to match the items at the start of `s`: the lengths of the items. `start` says whether
this is the start of the string. -/
def parses : List (Item α) → Bool → List α → List (List ℕ)
  | [], _, _ => [[]]
  | .bol :: is, start, s => if start then (parses is start s).map (0 :: ·) else []
  | .eol :: is, start, s => if s.isEmpty then (parses is start s).map (0 :: ·) else []
  | .one p :: is, _, s =>
    match s with
    | [] => []
    | a :: t => if p a then (parses is false t).map (1 :: ·) else []
  | .many _ p :: is, start, s =>
    (List.range ((s.takeWhile p).length + 1)).flatMap fun n =>
      (parses is (start && n == 0) (s.drop n)).map (n :: ·)

/-- Lexicographic order. -/
def lexLe : List ℕ → List ℕ → Prop
  | [], _ => True
  | _ :: _, [] => False
  | m :: v, n :: w => m < n ∨ m = n ∧ lexLe v w

instance decidableLexLe : ∀ v w : List ℕ, Decidable (lexLe v w)
  | [], _ => isTrue trivial
  | _ :: _, [] => isFalse id
  | m :: v, n :: w =>
    have := decidableLexLe v w
    inferInstanceAs (Decidable (m < n ∨ m = n ∧ lexLe v w))

theorem lexLe_antisymm : ∀ {v w : List ℕ}, lexLe v w → lexLe w v → v = w
  | [], [], _, _ => rfl
  | [], _ :: _, _, h => h.elim
  | _ :: _, [], h, _ => h.elim
  | m :: v, n :: w, h, h' => by
    simp only [lexLe] at h h'
    obtain ⟨rfl, hvw⟩ : m = n ∧ lexLe v w := by
      rcases h with h | h
      · omega
      · exact h
    obtain hwv : lexLe w v := by
      rcases h' with h' | h'
      · omega
      · exact h'.2
    rw [lexLe_antisymm hvw hwv]

/-- The first way to match is longer, or as long and, where they differ first, its item is longer.
-/
def Better (v w : List ℕ) : Prop := w.sum < v.sum ∨ w.sum = v.sum ∧ lexLe w v

instance (v w : List ℕ) : Decidable (Better v w) := by unfold Better; infer_instance

/-- The best of the ways to match. -/
def best : List (List ℕ) → Option (List ℕ)
  | [] => none
  | v :: vs =>
    match best vs with
    | none => some v
    | some w => if Better v w then some v else some w

/-- The branch that matches best at the start of `s`, and how; the branches are numbered from `i`.
-/
def bestBranch (start : Bool) (s : List α) : ℕ → Branches α → Option (ℕ × List ℕ)
  | _, [] => none
  | i, b :: bs =>
    match best (parses b start s), bestBranch start s (i + 1) bs with
    | none, r => r
    | some v, none => some (i, v)
    | some v, some (j, w) => if w.sum ≤ v.sum then some (i, v) else some (j, w)

/-- The spans of the subexpressions of a branch. -/
def spans : List (Item α) → ℕ → List ℕ → List (ℕ × ℕ)
  | .many true _ :: is, pos, n :: v => (pos, pos + n) :: spans is (pos + n) v
  | _ :: is, pos, n :: v => spans is (pos + n) v
  | _, _, _ => []

/-- The number of subexpressions of a branch. -/
def groups : List (Item α) → ℕ
  | [] => 0
  | .many true _ :: is => groups is + 1
  | _ :: is => groups is

/-- The spans of all subexpressions, in their order; those of other branches than the one that
matched have none. -/
def pmatch (re : Branches α) (branch pos : ℕ) (v : List ℕ) : List (Option (ℕ × ℕ)) :=
  re.zipIdx.flatMap fun b =>
    if b.2 = branch then (spans b.1 pos v).map some else List.replicate (groups b.1) none

/-- The search from position `pos` on. -/
def search (re : Branches α) : ℕ → Bool → List α → Option (List (Option (ℕ × ℕ)))
  | pos, start, s =>
    match bestBranch start s 0 re, s with
    | some (branch, v), _ => some (pmatch re branch pos v)
    | none, [] => none
    | none, _ :: t => search re (pos + 1) false t

/-- **`regexec`**: the spans of the subexpressions, if there is a match. -/
def regexec (re : Branches α) (s : List α) : Option (List (Option (ℕ × ℕ))) := search re 0 true s

/-! ### Matching without looking ahead -/

/-- The way to match in which each item is as long as it can be on its own. -/
def greedy : List (Item α) → Bool → List α → Option (List ℕ)
  | [], _, _ => some []
  | .bol :: is, start, s => if start then (greedy is start s).map (0 :: ·) else none
  | .eol :: is, start, s => if s.isEmpty then (greedy is start s).map (0 :: ·) else none
  | .one p :: is, _, s =>
    match s with
    | [] => none
    | a :: t => if p a then (greedy is false t).map (1 :: ·) else none
  | .many _ p :: is, start, s =>
    let n := (s.takeWhile p).length
    (greedy is (start && n == 0) (s.drop n)).map (n :: ·)

theorem greedy_mem : ∀ (is : List (Item α)) (start : Bool) (s : List α) (v : List ℕ),
    greedy is start s = some v → v ∈ parses is start s := by
  intro is
  induction is with
  | nil => intro start s v h; simp_all [greedy, parses]
  | cons i is ih =>
    intro start s v h
    cases i with
    | bol =>
      simp only [greedy, parses] at h ⊢
      split_ifs at h ⊢
      obtain ⟨w, hw, rfl⟩ := Option.map_eq_some_iff.mp h
      exact List.mem_map_of_mem (ih _ _ _ hw)
    | eol =>
      simp only [greedy, parses] at h ⊢
      split_ifs at h ⊢
      obtain ⟨w, hw, rfl⟩ := Option.map_eq_some_iff.mp h
      exact List.mem_map_of_mem (ih _ _ _ hw)
    | one p =>
      cases s with
      | nil => simp [greedy] at h
      | cons a t =>
        simp only [greedy, parses] at h ⊢
        split_ifs at h ⊢
        obtain ⟨w, hw, rfl⟩ := Option.map_eq_some_iff.mp h
        exact List.mem_map_of_mem (ih _ _ _ hw)
    | many group p =>
      simp only [greedy, parses, List.mem_flatMap, List.mem_range] at h ⊢
      obtain ⟨w, hw, rfl⟩ := Option.map_eq_some_iff.mp h
      exact ⟨_, Nat.lt_succ_self _, List.mem_map_of_mem (ih _ _ _ hw)⟩

/-- No other way to match has a longer item before a difference. -/
theorem le_greedy : ∀ (is : List (Item α)) (start : Bool) (s : List α) (v : List ℕ),
    greedy is start s = some v → ∀ w ∈ parses is start s, lexLe w v := by
  intro is
  induction is with
  | nil =>
    intro start s v h w hw
    simp only [parses, List.mem_singleton] at hw
    rw [hw]
    trivial
  | cons i is ih =>
    intro start s v h w hw
    cases i with
    | bol =>
      simp only [greedy, parses] at h hw
      split_ifs at h hw
      obtain ⟨v', hv, rfl⟩ := Option.map_eq_some_iff.mp h
      obtain ⟨w', hw', rfl⟩ := List.mem_map.mp hw
      exact Or.inr ⟨rfl, ih _ _ _ hv _ hw'⟩
    | eol =>
      simp only [greedy, parses] at h hw
      split_ifs at h hw
      obtain ⟨v', hv, rfl⟩ := Option.map_eq_some_iff.mp h
      obtain ⟨w', hw', rfl⟩ := List.mem_map.mp hw
      exact Or.inr ⟨rfl, ih _ _ _ hv _ hw'⟩
    | one p =>
      cases s with
      | nil => simp [greedy] at h
      | cons a t =>
        simp only [greedy, parses] at h hw
        split_ifs at h hw
        obtain ⟨v', hv, rfl⟩ := Option.map_eq_some_iff.mp h
        obtain ⟨w', hw', rfl⟩ := List.mem_map.mp hw
        exact Or.inr ⟨rfl, ih _ _ _ hv _ hw'⟩
    | many group p =>
      simp only [greedy, parses, List.mem_flatMap, List.mem_range] at h hw
      obtain ⟨v', hv, rfl⟩ := Option.map_eq_some_iff.mp h
      obtain ⟨n, hn, hw⟩ := hw
      obtain ⟨w', hw', rfl⟩ := List.mem_map.mp hw
      rcases Nat.lt_succ_iff_lt_or_eq.mp hn with hlt | rfl
      · exact Or.inl hlt
      · exact Or.inr ⟨rfl, ih _ _ _ hv _ hw'⟩

/-- With `$` at its end a branch matches up to the end of the string. -/
theorem sum_eq_length : ∀ (is : List (Item α)) (start : Bool) (s : List α),
    ∀ v ∈ parses (is ++ [.eol]) start s, v.sum = s.length := by
  intro is
  induction is with
  | nil =>
    intro start s v hv
    simp only [List.nil_append, parses] at hv
    split_ifs at hv with he
    · simp_all
    · simp at hv
  | cons i is ih =>
    intro start s v hv
    rw [List.cons_append] at hv
    cases i with
    | bol =>
      simp only [parses] at hv
      split_ifs at hv
      · obtain ⟨w, hw, rfl⟩ := List.mem_map.mp hv
        simpa using ih _ _ w hw
      · simp at hv
    | eol =>
      simp only [parses] at hv
      split_ifs at hv
      · obtain ⟨w, hw, rfl⟩ := List.mem_map.mp hv
        simpa using ih _ _ w hw
      · simp at hv
    | one p =>
      cases s with
      | nil => simp [parses] at hv
      | cons a t =>
        simp only [parses] at hv
        split_ifs at hv
        · obtain ⟨w, hw, rfl⟩ := List.mem_map.mp hv
          have := ih _ _ w hw
          simp only [List.sum_cons, List.length_cons]
          omega
        · simp at hv
    | many group p =>
      simp only [parses, List.mem_flatMap, List.mem_range] at hv
      obtain ⟨n, hn, hv⟩ := hv
      obtain ⟨w, hw, rfl⟩ := List.mem_map.mp hv
      have := ih _ _ w hw
      have hle := (List.takeWhile_prefix p (l := s)).length_le
      rw [List.length_drop] at this
      simp only [List.sum_cons]
      omega

theorem best_mem : ∀ {vs : List (List ℕ)} {v : List ℕ}, best vs = some v → v ∈ vs := by
  intro vs
  induction vs with
  | nil =>
    intro v h
    simp [best] at h
  | cons u vs ih =>
    intro v h
    simp only [best] at h
    split at h
    · simp_all
    · rename_i w hw
      split_ifs at h
      · simp_all
      · rw [← Option.some.inj h]
        exact List.mem_cons_of_mem u (ih hw)

/-- The best way to match is the one none of the others exceeds. -/
theorem best_eq {v : List ℕ} : ∀ {vs : List (List ℕ)}, v ∈ vs →
    (∀ w ∈ vs, w.sum = v.sum ∧ lexLe w v) → best vs = some v := by
  intro vs
  induction vs with
  | nil =>
    intro hv _
    simp at hv
  | cons u vs ih =>
    intro hv h
    have hu := h u List.mem_cons_self
    have hrest : ∀ w ∈ vs, w.sum = v.sum ∧ lexLe w v := fun w hw => h w (List.mem_cons_of_mem u hw)
    simp only [best]
    cases hb : best vs with
    | none =>
      rcases List.mem_cons.mp hv with rfl | hv'
      · rfl
      · rw [ih hv' hrest] at hb
        simp at hb
    | some w =>
      have hw := hrest w (best_mem hb)
      rcases List.mem_cons.mp hv with rfl | hv'
      · exact if_pos (Or.inr ⟨hw.1, hw.2⟩)
      · obtain rfl : v = w := Option.some.inj ((ih hv' hrest).symm.trans hb)
        simp only
        split_ifs with hbetter
        · rcases hbetter with hlt | ⟨-, hle⟩
          · omega
          · rw [lexLe_antisymm hu.2 hle]
        · rfl

theorem best_of_greedy {is : List (Item α)} {start : Bool} {s : List α} {v : List ℕ}
    (h : greedy (is ++ [.eol]) start s = some v) :
    best (parses (is ++ [.eol]) start s) = some v := by
  have hv := greedy_mem _ _ _ _ h
  refine best_eq hv fun w hw => ⟨?_, le_greedy _ _ _ _ h w hw⟩
  rw [sum_eq_length is start s w hw, sum_eq_length is start s v hv]

/-! ### The search -/

theorem bestBranch_eq_none {start : Bool} {s : List α} : ∀ (bs : Branches α) (i : ℕ),
    (∀ b ∈ bs, parses b start s = []) → bestBranch start s i bs = none := by
  intro bs
  induction bs with
  | nil =>
    intro _ _
    rfl
  | cons b bs ih =>
    intro i h
    simp only [bestBranch, h b List.mem_cons_self, best]
    exact ih (i + 1) fun c hc => h c (List.mem_cons_of_mem b hc)

/-- The only branch that matches is the best one. -/
theorem bestBranch_eq {start : Bool} {s : List α} {b : List (Item α)} {v : List ℕ}
    {post : Branches α} (hpost : ∀ c ∈ post, parses c start s = [])
    (hb : best (parses b start s) = some v) : ∀ (pre : Branches α) (i : ℕ),
      (∀ c ∈ pre, parses c start s = []) →
        bestBranch start s i (pre ++ b :: post) = some (i + pre.length, v) := by
  intro pre
  induction pre with
  | nil =>
    intro i _
    simp [bestBranch, hb, bestBranch_eq_none post (i + 1) hpost]
  | cons c pre ih =>
    intro i h
    replace ih := ih (i + 1) fun d hd => h d (List.mem_cons_of_mem c hd)
    simp only [List.cons_append, bestBranch, h c List.mem_cons_self, best, ih, List.length_cons]
    rw [show i + 1 + pre.length = i + (pre.length + 1) by omega]

/-- **The match found** where one branch matches without looking ahead and the others do not match.
-/
theorem regexec_of_greedy {is : List (Item α)} {s : List α} {v : List ℕ} (pre post : Branches α)
    (h : greedy (is ++ [.eol]) true s = some v) (hpre : ∀ c ∈ pre, parses c true s = [])
    (hpost : ∀ c ∈ post, parses c true s = []) :
    regexec (pre ++ (is ++ [.eol]) :: post) s =
      some (pmatch (pre ++ (is ++ [.eol]) :: post) pre.length 0 v) := by
  have hb := bestBranch_eq hpost (best_of_greedy h) pre 0 hpre
  unfold regexec search
  rw [hb, Nat.zero_add]

/-- An expression all branches of which begin with `^` has no match if it has none at the start. -/
theorem regexec_eq_none {re : Branches α} {s : List α} (hbol : ∀ b ∈ re, ∃ is, b = .bol :: is)
    (h : ∀ b ∈ re, parses b true s = []) : regexec re s = none := by
  have hfalse : ∀ (t : List α) (pos : ℕ), search re pos false t = none := by
    intro t
    have hb : ∀ u, bestBranch false u 0 re = none := fun u => bestBranch_eq_none re 0 fun b hb => by
      obtain ⟨is, rfl⟩ := hbol b hb
      simp [parses]
    induction t with
    | nil => intro pos; simp [search, hb]
    | cons a t ih => intro pos; simp [search, hb, ih]
  unfold regexec
  cases s with
  | nil => simp [search, bestBranch_eq_none re 0 h]
  | cons a t => simp [search, bestBranch_eq_none re 0 h, hfalse]

theorem best_ne_none {vs : List (List ℕ)} (h : vs ≠ []) : best vs ≠ none := by
  obtain ⟨v, vs, rfl⟩ := List.exists_cons_of_ne_nil h
  simp only [best]
  split
  · simp
  · split_ifs <;> simp

theorem bestBranch_ne_none {start : Bool} {s : List α} {b : List (Item α)} : ∀ (bs : Branches α)
    (i : ℕ), b ∈ bs → parses b start s ≠ [] → bestBranch start s i bs ≠ none := by
  intro bs
  induction bs with
  | nil =>
    intro i hb
    simp at hb
  | cons c bs ih =>
    intro i hb hne
    simp only [bestBranch]
    split
    · rename_i hc
      rcases List.mem_cons.mp hb with rfl | hb
      · exact absurd hc (best_ne_none hne)
      · exact ih (i + 1) hb hne
    · simp
    · split_ifs <;> simp

/-- **An anchored expression matches** if and only if a branch of it does at the start. -/
theorem regexec_isSome_iff {re : Branches α} {s : List α} (hbol : ∀ b ∈ re, ∃ is, b = .bol :: is) :
    (regexec re s).isSome = true ↔ ∃ b ∈ re, parses b true s ≠ [] := by
  constructor
  · intro h
    by_contra hno
    push Not at hno
    rw [regexec_eq_none hbol hno] at h
    simp at h
  · rintro ⟨b, hb, hne⟩
    have hsome := bestBranch_ne_none re 0 hb hne
    unfold regexec search
    split
    · rfl
    · rename_i hnone
      exact absurd hnone hsome
    · rename_i hnone
      exact absurd hnone hsome

/-! ### What a subexpression matches -/

theorem forall_take_of_le {p : α → Bool} {s : List α} {n : ℕ} (h : n ≤ (s.takeWhile p).length) :
    ∀ a ∈ s.take n, p a = true := by
  intro a ha
  have hsub : s.take n <+: s.takeWhile p := by
    rw [List.prefix_iff_eq_take.mp (List.takeWhile_prefix p), List.prefix_take_iff]
    exact ⟨List.take_prefix n s, by simp; omega⟩
  exact List.mem_takeWhile_imp (hsub.subset ha)

/-- A run of a class can be matched where the string begins with characters of the class. -/
theorem parses_many_ne_nil {group start : Bool} {p : α → Bool} {is : List (Item α)} {s : List α} :
    parses (.many group p :: is) start s ≠ [] ↔
      ∃ a t, s = a ++ t ∧ (∀ x ∈ a, p x = true) ∧ parses is (start && a.isEmpty) t ≠ [] := by
  simp only [parses, ne_eq, List.flatMap_eq_nil_iff, List.mem_range, List.map_eq_nil_iff,
    not_forall]
  constructor
  · rintro ⟨n, hn, h⟩
    have hle := (List.takeWhile_prefix p (l := s)).length_le
    refine ⟨s.take n, s.drop n, (List.take_append_drop n s).symm, forall_take_of_le (by omega), ?_⟩
    have hempty : (s.take n).isEmpty = (n == 0) := by
      cases s with
      | nil => simp at hn; simp [hn]
      | cons a s => cases n <;> simp
    rwa [hempty]
  · rintro ⟨a, t, rfl, ha, h⟩
    refine ⟨a.length, ?_, ?_⟩
    · rw [List.takeWhile_append_of_pos ha, List.length_append]
      omega
    · have hempty : (a.length == 0) = a.isEmpty := by cases a <;> simp
      rwa [hempty, List.drop_left]

theorem parses_one_ne_nil {start : Bool} {p : α → Bool} {is : List (Item α)} {s : List α} :
    parses (.one p :: is) start s ≠ [] ↔
      ∃ a t, s = a :: t ∧ p a = true ∧ parses is false t ≠ [] := by
  cases s <;> simp [parses]

theorem parses_bol_ne_nil {is : List (Item α)} {s : List α} :
    parses (.bol :: is) true s ≠ [] ↔ parses is true s ≠ [] := by
  simp [parses]

theorem parses_eol_ne_nil {start : Bool} {s : List α} : parses [.eol] start s ≠ [] ↔ s = [] := by
  simp [parses]

/-- Every character of a span of a branch is of the class of its subexpression, and so has any
property that follows from the classes of the subexpressions. -/
theorem mem_span {P : α → Prop} : ∀ (is : List (Item α)) (start : Bool) (pre s : List α)
    (v : List ℕ), (∀ p, .many true p ∈ is → ∀ a, p a = true → P a) → v ∈ parses is start s →
    ∀ span ∈ spans is pre.length v, ∀ a ∈ ((pre ++ s).take span.2).drop span.1, P a := by
  intro is
  induction is with
  | nil =>
    intro start pre s v _ _ span hspan
    simp [spans] at hspan
  | cons i is ih =>
    intro start pre s v hP hv
    have hP' : ∀ p, .many true p ∈ is → ∀ a, p a = true → P a :=
      fun p hp => hP p (List.mem_cons_of_mem i hp)
    cases i with
    | bol =>
      simp only [parses] at hv
      split_ifs at hv
      · obtain ⟨w, hw, rfl⟩ := List.mem_map.mp hv
        exact ih start pre s w hP' hw
      · simp at hv
    | eol =>
      simp only [parses] at hv
      split_ifs at hv
      · obtain ⟨w, hw, rfl⟩ := List.mem_map.mp hv
        exact ih start pre s w hP' hw
      · simp at hv
    | one p =>
      cases s with
      | nil => simp [parses] at hv
      | cons a t =>
        simp only [parses] at hv
        split_ifs at hv
        · obtain ⟨w, hw, rfl⟩ := List.mem_map.mp hv
          have := ih false (pre ++ [a]) t w hP' hw
          simpa [spans] using this
        · simp at hv
    | many group p =>
      simp only [parses, List.mem_flatMap, List.mem_range] at hv
      obtain ⟨n, hn, hv⟩ := hv
      obtain ⟨w, hw, rfl⟩ := List.mem_map.mp hv
      have hle := (List.takeWhile_prefix p (l := s)).length_le
      have hlen : (pre ++ s.take n).length = pre.length + n := by
        rw [List.length_append, List.length_take]
        omega
      have hrest := ih _ (pre ++ s.take n) (s.drop n) w hP' hw
      rw [List.append_assoc, List.take_append_drop, hlen] at hrest
      cases group with
      | false => exact hrest
      | true =>
        intro span hspan a ha
        rcases List.mem_cons.mp hspan with rfl | hspan
        · rw [List.take_length_add_append, List.drop_left] at ha
          exact hP p List.mem_cons_self a (forall_take_of_le (by omega) a ha)
        · exact hrest span hspan a ha

theorem bestBranch_mem {start : Bool} {s : List α} : ∀ (bs : Branches α) (i : ℕ) {r : ℕ × List ℕ},
    bestBranch start s i bs = some r →
      ∃ b, (b, r.1) ∈ bs.zipIdx i ∧ r.2 ∈ parses b start s := by
  intro bs
  induction bs with
  | nil =>
    intro i r h
    simp [bestBranch] at h
  | cons c bs ih =>
    intro i r h
    have hlater : bestBranch start s (i + 1) bs = some r →
        ∃ b, (b, r.1) ∈ (c :: bs).zipIdx i ∧ r.2 ∈ parses b start s := fun h' => by
      obtain ⟨b, hb, hr⟩ := ih (i + 1) h'
      exact ⟨b, List.mem_cons_of_mem _ hb, hr⟩
    have hhere : ∀ {v}, best (parses c start s) = some v → r = (i, v) →
        ∃ b, (b, r.1) ∈ (c :: bs).zipIdx i ∧ r.2 ∈ parses b start s := by
      rintro v hv rfl
      exact ⟨c, List.mem_cons_self, best_mem hv⟩
    simp only [bestBranch] at h
    split at h
    · exact hlater h
    · rename_i v hv _
      exact hhere hv (Option.some.inj h).symm
    · rename_i v j w hv hw
      split_ifs at h
      · exact hhere hv (Option.some.inj h).symm
      · exact hlater (hw.trans h)

/-- The spans reported are those of the branch that matched. -/
theorem mem_pmatch {re : Branches α} {b : List (Item α)} {branch pos : ℕ} {v : List ℕ}
    {span : ℕ × ℕ} (hb : (b, branch) ∈ re.zipIdx) (h : some span ∈ pmatch re branch pos v) :
    span ∈ spans b pos v := by
  obtain ⟨c, hc, hspan⟩ := List.mem_flatMap.mp h
  split_ifs at hspan with hi
  · obtain ⟨c, i⟩ := c
    simp only at hi
    subst hi
    rw [List.mk_mem_zipIdx_iff_getElem?] at hb hc
    obtain rfl : b = c := Option.some.inj (hb.symm.trans hc)
    simpa using hspan
  · exact absurd (List.eq_of_mem_replicate hspan) (by simp)

/-- Every character of a span that is reported has the properties that follow from the classes of
the subexpressions. -/
theorem mem_span_of_regexec {P : α → Prop} {re : Branches α} {s : List α}
    {m : List (Option (ℕ × ℕ))} (h : regexec re s = some m)
    (hP : ∀ b ∈ re, ∀ p, .many true p ∈ b → ∀ a, p a = true → P a) :
    ∀ span, some span ∈ m → ∀ a ∈ (s.take span.2).drop span.1, P a := by
  have hfound : ∀ {t pre : List α} {start : Bool} {r : ℕ × List ℕ},
      bestBranch start t 0 re = some r → pmatch re r.1 pre.length r.2 = m →
      ∀ span, some span ∈ m → ∀ a ∈ ((pre ++ t).take span.2).drop span.1, P a := by
    rintro t pre start r hr rfl span hspan
    obtain ⟨b, hb, hv⟩ := bestBranch_mem re 0 hr
    have hmem := List.mem_zipIdx_iff_getElem?.mp hb
    exact mem_span b start pre t r.2 (hP b (List.mem_of_getElem? hmem)) hv span
      (mem_pmatch hb hspan)
  have hsearch : ∀ (t pre : List α) (start : Bool), search re pre.length start t = some m →
      ∀ span, some span ∈ m → ∀ a ∈ ((pre ++ t).take span.2).drop span.1, P a := by
    intro t
    induction t with
    | nil =>
      intro pre start ht
      cases hr : bestBranch start ([] : List α) 0 re with
      | none => simp [search, hr] at ht
      | some r =>
        unfold search at ht
        rw [hr] at ht
        exact hfound hr (Option.some.inj ht)
    | cons b t ih =>
      intro pre start ht
      cases hr : bestBranch start (b :: t) 0 re with
      | none =>
        have := ih (pre ++ [b]) false (by simpa [search, hr] using ht)
        simpa using this
      | some r =>
        unfold search at ht
        rw [hr] at ht
        exact hfound hr (Option.some.inj ht)
  exact hsearch s [] true h

end Ach.Lib.Regex
