import Ach.Spin.Abstract

/-! # The getter of the SPIN model

In its first section the getter looks at an entry anywhere in the index and takes the number in it
for the frame it got last; in the second it gets a frame and checks that it is the right one.
Between the two puts come in. What it relies on then is that no number is taken back, and that the
entry after the one it looked at is where the next frame goes (`Looked`). -/

namespace Ach.Spin.Get

open Ach.Lib.Run Ach.Lib.Ring Ach.Lib.Interleave
open Ach.Channel.Types Ach.Channel.Invariant Ach.Channel.PutSpec
open Ach.Spin.Model Ach.Spin.Abstract

variable {c : Consts} {n : ℕ} {g g₀ : Shm} {Q : Code → State → Prop} {R : State → Prop}
  {l l' : Locals} {hist : List (List UInt8)} {k : ℕ}

/-! ### The entries -/

theorem lastSeq_eq (h : Chan c hist k g) (hlen : hist.length < 2 ^ 64) :
    g.shmLastSeq = hist.length := by
  have : g.shmLastSeq = hist.length % 2 ^ 64 := h.inv.lastSeq
  rwa [Nat.mod_eq_of_lt hlen] at this

/-- The entry of a frame that is held. -/
theorem held_entry (h : Chan c hist k g) (hlen : hist.length < 2 ^ 64) {s : ℕ}
    (h1 : hist.length - k ≤ s) (h2 : s < hist.length) :
    g.shmIdx[s % c.indexCnt]? =
      some ⟨(hist.getD s []).length, startOf hist s % c.dataSize, s + 1, true⟩ := by
  have hslot := header_index h.used (h.inv.toRep.slot h1 h2)
  have hnum : (s + 1) % 2 ^ 64 = s + 1 := Nat.mod_eq_of_lt (by omega)
  refine hslot.trans ?_
  simp only [hnum, header]
  simp

/-- An entry is that of a frame that is held, or is free. -/
theorem slot_cases (h : Chan c hist k g) (hlen : hist.length < 2 ^ 64) {i : ℕ}
    (hi : i < c.indexCnt) : ∃ p, p % c.indexCnt = i ∧ hist.length - k ≤ p ∧
      ((p < hist.length ∧ g.shmIdx[i]? =
          some ⟨(hist.getD p []).length, startOf hist p % c.dataSize, p + 1, true⟩) ∨
        (hist.length ≤ p ∧ p < hist.length - k + c.indexCnt ∧ g.shmIdx[i]? = some .zero)) := by
  have hrep := h.inv.toRep
  have hkh := hrep.keptHist
  have hkc : k ≤ c.indexCnt := hrep.keptCnt
  have hfree : g.shmIdxFree = c.indexCnt - k := hrep.indexFree
  obtain ⟨p, h1, h2, rfl⟩ := exists_mod_eq (hist.length - k) hi
  refine ⟨p, rfl, h1, ?_⟩
  rcases Nat.lt_or_ge p hist.length with hlt | hge
  · exact Or.inl ⟨hlt, held_entry h hlen h1 hlt⟩
  · exact Or.inr ⟨hge, h2, header_index h.used (hrep.freeSlot hge (by simp only [header]; omega))⟩

theorem length_idx (h : Chan c hist k g) : g.shmIdx.length = c.indexCnt := by
  simpa [header] using h.inv.indexLen

/-- A number in the index is that of a frame that was put, and is where that frame goes. -/
theorem seqNum_place (h : Chan c hist k g) (hlen : hist.length < 2 ^ 64) {i : ℕ} {e : Index}
    (he : g.shmIdx[i]? = some e) :
    e.seqNum = 0 ∨ e.seqNum ≤ hist.length ∧ i = (e.seqNum - 1) % c.indexCnt := by
  have hi := length_of_getElem? he
  rw [length_idx h] at hi
  obtain ⟨p, rfl, -, ⟨hlt, hp⟩ | ⟨-, -, hp⟩⟩ := slot_cases h hlen hi <;>
    rw [hp, Option.some.injEq] at he <;> subst he
  · exact Or.inr ⟨hlt, rfl⟩
  · exact Or.inl rfl

theorem lastIndexI_eq (h : Chan c hist k g) (hcnt : 0 < c.indexCnt) (hpos : 0 < hist.length) :
    lastIndexI c (g, l) = (hist.length - 1) % c.indexCnt := by
  have hhead : g.shmIdxHead = hist.length % c.indexCnt := h.inv.indexHead
  rw [lastIndexI, hhead, Nat.add_sub_assoc hcnt, Nat.mod_add_mod,
    show hist.length + (c.indexCnt - 1) = hist.length - 1 + c.indexCnt by omega, Nat.add_mod_right]

theorem oldestIndexI_eq (h : Chan c hist k g) :
    oldestIndexI c (g, l) = (hist.length - k) % c.indexCnt := by
  have hkh := h.inv.keptHist
  have hkc : k ≤ c.indexCnt := h.inv.keptCnt
  have hhead : g.shmIdxHead = hist.length % c.indexCnt := h.inv.indexHead
  have hfree : g.shmIdxFree = c.indexCnt - k := h.inv.indexFree
  rw [oldestIndexI, hhead, hfree, Nat.mod_add_mod,
    show hist.length + (c.indexCnt - k) = hist.length - k + c.indexCnt by omega, Nat.add_mod_right]

/-- The entry of the newest frame. -/
theorem last_entry (h : Chan c hist k g) (hlen : hist.length < 2 ^ 64) (hcnt : 0 < c.indexCnt)
    (hne : hist ≠ []) : ∃ e, g.shmIdx[lastIndexI c (g, l)]? = some e ∧ e.seqNum = hist.length := by
  have hpos := List.length_pos_iff.mpr hne
  have hk := h.inv.keptPos hne
  rw [lastIndexI_eq h hcnt hpos]
  exact ⟨_, held_entry h hlen (by omega) (by omega), by simp only; omega⟩

/-- The entry of the oldest frame that is held. -/
theorem oldest_entry (h : Chan c hist k g) (hlen : hist.length < 2 ^ 64) (hne : hist ≠ []) :
    ∃ e, g.shmIdx[oldestIndexI c (g, l)]? = some e ∧ e.seqNum = hist.length - k + 1 := by
  have hpos := List.length_pos_iff.mpr hne
  have hk := h.inv.keptPos hne
  rw [oldestIndexI_eq h]
  exact ⟨_, held_entry h hlen le_rfl (by omega), rfl⟩

/-! ### The first section -/

/-- What the getter relies on after it has looked at the index. -/
structure Looked (c : Consts) (g : Shm) (l : Locals) : Prop where
  stale : l.staleFrames = false
  missed : l.missedFrame = false
  read : l.readIdx = 0
  next : l.nextIndex < c.indexCnt
  seqNum : l.seqNum ≤ g.shmLastSeq
  place : l.seqNum ≠ 0 → l.nextIndex = l.seqNum % c.indexCnt

/-- The getter looks anywhere in the index. -/
theorem wp_lookAnywhere (hw : Wide c n) (h : Chan c hist k g₀)
    (hs : Inside c g₀ ({ g₀ with shmMutex := true }, l)) (hlen : hist.length < 2 ^ c.seqNumBits)
    (hlen' : hist.length < 2 ^ 64) (hl : l.staleFrames = false ∧ l.missedFrame = false ∧
      l.readIdx = 0)
    (hR : ∀ next seq, Looked c g₀ { l with nextIndex := next, seqNum := seq } →
      R ({ g₀ with shmMutex := true }, { l with nextIndex := next, seqNum := seq })) :
    wp (Inside c g₀) Q (lookAnywhere c) R ({ g₀ with shmMutex := true }, l) := by
  have hcnt := hw.cnt
  have hil := length_idx h
  refine wp_select hs hcnt fun j hj => ?_
  have htrunc : trunc c.sizeBits (j : ℤ) = j := trunc_eq rfl (by have := hw.cntBits; omega)
  have hlt := Nat.mod_lt (j + c.indexCnt - 1) hcnt
  obtain ⟨e, he⟩ : ∃ e, g₀.shmIdx[(j + c.indexCnt - 1) % c.indexCnt]? = some e :=
    ⟨_, List.getElem?_eq_getElem (by omega)⟩
  have hplace := seqNum_place h hlen' he
  have hseq : trunc c.seqNumBits (e.seqNum : ℤ) = e.seqNum := trunc_eq rfl (by omega)
  have hidx : g₀.idx ((j + c.indexCnt - 1) % c.indexCnt) = e := idx_of_getElem? he
  simp only [htrunc]
  refine wp_setLoc hs (by simp [hasIdx]; omega) ?_
  rw [show ({ g₀ with shmMutex := true } : Shm).idx ((j + c.indexCnt - 1) % c.indexCnt) = e from
    hidx, hseq]
  have hlast := lastSeq_eq h hlen'
  refine hR j e.seqNum ⟨hl.1, hl.2.1, hl.2.2, hj, by simp only; omega, fun hne => ?_⟩
  simp only at hne ⊢
  -- the entry before `j` is that of frame `e.seqNum`, so the next frame goes to `j`
  rcases hplace with h0 | ⟨-, hpl⟩
  · exact absurd h0 hne
  · have hmod : (j + c.indexCnt - 1 + 1) % c.indexCnt = (e.seqNum - 1 + 1) % c.indexCnt := by
      rw [← Nat.mod_add_mod, hpl, Nat.mod_add_mod]
    rw [show j + c.indexCnt - 1 + 1 = j + c.indexCnt by omega, Nat.add_mod_right,
      Nat.mod_eq_of_lt hj, show e.seqNum - 1 + 1 = e.seqNum by omega] at hmod
    exact hmod

/-! ### The second section -/

/-- **What the getter gets:** nothing, or the frame of an entry. -/
inductive Got (c : Consts) (g : Shm) (l : Locals) : Locals → Prop
  | nothing (hn : nothing (g, l) = true) (hw : l.oWait = false) :
      Got c g l { l with staleFrames := true }
  | frame (i : ℕ) {e : Index} (he : g.shmIdx[i]? = some e) (hpos : 0 < e.seqNum)
      (hle : e.seqNum ≤ g.shmLastSeq)
      (hnew : l.seqNum < e.seqNum ∨
        (l.seqNum = g.shmLastSeq ∧ l.oCopy = true ∧ e.seqNum = g.shmLastSeq))
      (hlast : l.oLast = true → i = lastIndexI c (g, l) ∧ e.seqNum = g.shmLastSeq)
      (hmissed : l.oLast = false → l.seqNum + 1 < e.seqNum → i = oldestIndexI c (g, l)) :
      Got c g l { l with readIdx := i, missedFrame := decide (l.seqNum + 1 < e.seqNum) }

/-- There is something to get. -/
theorem of_not_nothing (h : nothing (g, l) = false) :
    0 < g.shmLastSeq ∧ (l.seqNum = g.shmLastSeq → l.oCopy = true) := by
  simp only [nothing, Bool.or_eq_false_iff, Bool.and_eq_false_iff, decide_eq_false_iff_not,
    Bool.not_eq_false'] at h
  exact ⟨by omega, fun he => h.1.resolve_left (fun hne => hne he)⟩

/-- Past the frame that the getter got last, the next one is at `next_index` or gone. -/
theorem oldest_after (h : Chan c hist k g) (hlen : hist.length < 2 ^ 64) (hl : Looked c g l)
    (hnext : nextThere (g, l) = false) (holast : l.oLast = false) (hlt : l.seqNum < hist.length)
    (h0 : l.seqNum ≠ 0) : l.seqNum < hist.length - k := by
  by_contra hge
  have he := held_entry h hlen (s := l.seqNum) (by omega) hlt
  rw [← hl.place h0] at he
  simp [nextThere, holast, idx_of_getElem? he] at hnext

/-- The entry to read is set. -/
theorem wp_setRead {s : State} {i : State → ℕ} (hw : Wide c n) (hs : Inside c g₀ s)
    (hi : i s < c.indexCnt) (hR : R (s.1, { s.2 with readIdx := i s })) :
    wp (Inside c g₀) Q (setRead c i) R s := by
  have htrunc : trunc c.sizeBits (i s) = i s := trunc_eq rfl (by have := hw.cntBits; omega)
  refine wp_setLoc hs rfl ?_
  rw [htrunc]
  exact hR

/-- A frame is chosen. -/
theorem wp_chooseFrame (hw : Wide c n) (h : Chan c hist k g) (hs : Inside c g₀ (g, l))
    (hlen : hist.length < 2 ^ 64) (hl : Looked c g l) (hn : nothing (g, l) = false)
    (hR : ∀ i e, g.shmIdx[i]? = some e → 0 < e.seqNum → e.seqNum ≤ g.shmLastSeq →
      (l.seqNum < e.seqNum ∨
        (l.seqNum = g.shmLastSeq ∧ l.oCopy = true ∧ e.seqNum = g.shmLastSeq)) →
      (l.oLast = true → i = lastIndexI c (g, l) ∧ e.seqNum = g.shmLastSeq) →
      (l.oLast = false → l.seqNum + 1 < e.seqNum → i = oldestIndexI c (g, l)) →
      R (g, { l with readIdx := i })) : wp (Inside c g₀) Q (chooseFrame c) R (g, l) := by
  obtain ⟨hpos, hcopy⟩ := of_not_nothing hn
  have hlast := lastSeq_eq h hlen
  have hne : hist ≠ [] := List.length_pos_iff.mp (by omega)
  have hil := length_idx h
  have hcnt := hw.cnt
  have hseq := hl.seqNum
  obtain ⟨e, he, henum⟩ := last_entry (l := l) h hlen hcnt hne
  obtain ⟨o, ho, honum⟩ := oldest_entry (l := l) h hlen hne
  have hkh := h.inv.keptHist
  have hk := h.inv.keptPos hne
  have hcase : (l.seqNum < e.seqNum) ∨ (l.seqNum = g.shmLastSeq ∧ l.oCopy = true ∧
      e.seqNum = g.shmLastSeq) := by
    rcases Nat.lt_or_ge l.seqNum g.shmLastSeq with hlt | hge
    · exact Or.inl (by omega)
    · exact Or.inr ⟨by omega, hcopy (by omega), by omega⟩
  have hlt : lastIndexI c (g, l) < c.indexCnt := Nat.mod_lt _ hcnt
  have hlt' : oldestIndexI c (g, l) < c.indexCnt := Nat.mod_lt _ hcnt
  refine wp_chooseThree hs (by simpa [hasIdx, hil] using hl.next) ?_ (fun holast => ?_)
    (fun hthere => ?_) fun hboth => ?_
  · cases holast : l.oLast with
    | true => exact .inl rfl
    | false =>
      cases hnext : nextThere (g, l) with
      | true => exact .inr (.inl rfl)
      | false => exact .inr (.inr rfl)
  · refine wp_setRead (i := lastIndexI c) hw hs hlt (hR _ e he (by omega) (by omega) hcase
      (fun _ => ⟨rfl, by omega⟩) ?_)
    simp [show l.oLast = true from holast]
  · -- the next frame is where it was expected
    have hnext : l.oLast = false ∧ (g.idx l.nextIndex).seqNum = l.seqNum + 1 := by
      simpa [nextThere] using hthere
    obtain ⟨x, hx⟩ : ∃ x, g.shmIdx[l.nextIndex]? = some x :=
      ⟨_, List.getElem?_eq_getElem (by have := hl.next; omega)⟩
    rw [idx_of_getElem? hx] at hnext
    have hplace := seqNum_place h hlen hx
    refine wp_setRead (i := fun s => s.2.nextIndex) hw hs hl.next
      (hR _ x hx (by omega) (by omega) (Or.inl (by omega)) ?_ ?_)
    · simp [hnext.1]
    · omega
  · obtain ⟨holast, hnext⟩ : l.oLast = false ∧ nextThere (g, l) = false := by simpa using hboth
    refine wp_chooseThree hs rfl ?_ (fun hg => ?_) (fun hg => ?_) fun hg => ?_
    · by_cases heq : l.seqNum = g.shmLastSeq
      · exact .inl (decide_eq_true heq)
      · exact .inr (.inl (decide_eq_true heq))
    · have heq : l.seqNum = g.shmLastSeq := of_decide_eq_true hg
      refine wp_append (wp_check hs (hcopy heq) ?_)
      refine wp_setRead (i := lastIndexI c) hw hs hlt (hR _ e he (by omega) (by omega) hcase ?_ ?_)
      · simp [holast]
      · omega
    · have hlt'' : l.seqNum < hist.length := by
        have : l.seqNum ≠ g.shmLastSeq := of_decide_eq_true hg
        omega
      refine wp_setRead (i := oldestIndexI c) hw hs hlt'
        (hR _ o ho (by omega) (by omega) (Or.inl ?_) ?_ fun _ _ => rfl)
      · by_cases h0 : l.seqNum = 0
        · omega
        · have := oldest_after h hlen hl hnext holast hlt'' h0
          omega
      · simp [holast]
    · simp at hg

/-- The data is got. -/
theorem wp_getFrame (hw : Wide c n) (h : Chan c hist k g) (hs : Inside c g₀ (g, l))
    (hlen : hist.length < 2 ^ 64) (hl : Looked c g l)
    (hwait : l.oWait = true → l.seqNum < g.shmLastSeq) (hR : ∀ l', Got c g l l' → R (g, l')) :
    wp (Inside c g₀) Q (getFrame c) R (g, l) := by
  refine wp_ifElse hs rfl (fun hn => ?_) fun hn => ?_
  · have hnowait : l.oWait = false := by
      by_contra hwt
      have := hwait (by simpa using hwt)
      simp [nothing] at hn
      omega
    refine wp_append (wp_check hs (by simp [hnowait]) ?_)
    exact wp_setLoc hs rfl (hR _ (.nothing hn hnowait))
  · refine wp_append (wp_append ?_)
    refine wp_chooseFrame hw h hs hlen hl hn fun i e he hpos hle hnew hlast hmissed => ?_
    have hgot := hR _ (.frame i he hpos hle hnew hlast hmissed)
    have hhas : hasIdx (fun s => s.2.readIdx) (g, { l with readIdx := i }) = true := by
      simpa [hasIdx] using length_of_getElem? he
    have hread : readSeq (g, { l with readIdx := i }) = e.seqNum := by
      rw [readSeq, idx_of_getElem? he]
    refine wp_check hs (by simp only [hhas, hread]; simpa using hpos) ?_
    refine wp_ifElse hs hhas (fun hm => ?_) fun hm => ?_
    · have hlt : l.seqNum + 1 < e.seqNum := by
        rw [missed, hread] at hm
        exact of_decide_eq_true hm
      rw [decide_eq_true hlt] at hgot
      exact wp_setLoc hs rfl hgot
    · have hlt : ¬ l.seqNum + 1 < e.seqNum := by
        rw [missed, hread] at hm
        exact of_decide_eq_false hm
      rw [decide_eq_false hlt, ← hl.missed] at hgot
      exact wp_print hs hgot

/-- What is read through `read_idx`, if there was a frame. -/
theorem checkRead_ok {i : ℕ} {e : Index} {p : State → Bool} {s : State} (hs : Inside c g₀ s)
    (hi : s.2.readIdx = i) (he : s.1.shmIdx[i]? = some e) (hp : readSeq s = e.seqNum → p s = true)
    (hR : R s) : wp (Inside c g₀) Q (checkRead p) R s := by
  subst hi
  refine wp_check hs ?_ hR
  rw [hp (by rw [readSeq, idx_of_getElem? he]), Bool.and_true, hasIdx]
  exact decide_eq_true (length_of_getElem? he)

/-- Seven entries and one more. -/
theorem seven_castSucc {α : Type} (v : Fin 7 → α) (a : α) (m : Fin 7) :
    ![v 0, v 1, v 2, v 3, v 4, v 5, v 6, a] m.castSucc = v m := by
  match m with
  | 0 | 1 | 2 | 3 | 4 | 5 | 6 => rfl

/-- A branch of the validation. -/
theorem wp_branch {s : State} (hs : Inside c g₀ s)
    (h : ∀ j : Fin 8, (![validateGuard 0, validateGuard 1, validateGuard 2, validateGuard 3,
      validateGuard 4, validateGuard 5, validateGuard 6,
      fun s => decide (∀ n, validateGuard n s = false)] : Fin 8 → State → Bool) j s = true →
      wp (Inside c g₀) Q ((![validateLast c, validateWait, validateCopy, validateStale,
        validateSame, validateMissed c, validateNew, print] : Fin 8 → Code) j) R s) :
    wp (Inside c g₀) Q (validate c) R s := by
  refine wp_choose hs rfl ?_ fun j hj => wp_mono (h j hj) fun t ht => wp_done ht
  by_cases hex : ∃ m, validateGuard m s = true
  · obtain ⟨m, hm⟩ := hex
    refine ⟨m.castSucc, ?_⟩
    rw [seven_castSucc validateGuard]
    exact hm
  · refine ⟨7, ?_⟩
    have hnone : decide (∀ m, validateGuard m s = false) = true :=
      decide_eq_true fun m => by simpa using fun hm => hex ⟨m, hm⟩
    exact hnone

/-- The validation of a getter that got nothing. -/
theorem wp_validate_nothing (h : Chan c hist k g) (hcnt : 0 < c.indexCnt)
    (hs : ∀ l, Inside c g₀ (g, l)) (hl : Looked c g l) (hn : nothing (g, l) = true)
    (hw : l.oWait = false)
    (hR : R (g, { l with staleFrames := true })) :
    wp (Inside c g₀) Q (validate c) R (g, { l with staleFrames := true }) := by
  have hseq : l.seqNum = g.shmLastSeq := by
    have := hl.seqNum
    simp only [nothing, Bool.or_eq_true, Bool.and_eq_true, decide_eq_true_eq] at hn
    omega
  have hcopy : l.oCopy = true → g.shmLastSeq = 0 := fun hc => by
    simp [nothing, hc] at hn
    omega
  have hil := length_idx h
  refine wp_branch (hs _) fun j hj => ?_
  match j with
  | 0 =>
    refine wp_chooseThree (hs _) rfl (.inr (.inl rfl)) (fun hst => ?_) (fun _ => ?_) fun hst => ?_
    · simp at hst
    · refine wp_append (wp_check (hs _) (decide_eq_true hseq) ?_)
      exact wp_check (hs _) (by simp [hw]) hR
    · simp at hst
  | 1 =>
    have hwait : l.oWait = true := hj
    simp [hw] at hwait
  | 2 =>
    have hc : l.oCopy = true := hj
    have hzero := hcopy hc
    refine wp_append ?_
    refine checkRead_ok (hs _) hl.read
      (List.getElem?_eq_getElem (show 0 < g.shmIdx.length by omega)) (fun _ => ?_) ?_
    · exact decide_eq_true (by simp only; omega)
    · exact wp_check (hs _) (by simp [hw, hzero]) hR
  | 3 =>
    refine wp_append (wp_append (wp_check (hs _) (by simp [hl.missed]) ?_))
    refine wp_check (hs _) (by simp [hw]) ?_
    exact wp_check (hs _) (decide_eq_true hseq.symm) hR
  | 4 => exact wp_check (hs _) rfl hR
  | 5 =>
    have hm : l.missedFrame = true := hj
    simp [hl.missed] at hm
  | 6 =>
    have hlt : l.seqNum < g.shmLastSeq := of_decide_eq_true hj
    omega
  | 7 => exact wp_print (hs _) hR

/-- The validation of a getter that got a frame. -/
theorem wp_validate_frame {i : ℕ} {e : Index} (hs : ∀ l, Inside c g₀ (g, l)) (hl : Looked c g l)
    (hwait : l.oWait = true → l.seqNum < g.shmLastSeq) (he : g.shmIdx[i]? = some e)
    (hle : e.seqNum ≤ g.shmLastSeq)
    (hnew : l.seqNum < e.seqNum ∨
      (l.seqNum = g.shmLastSeq ∧ l.oCopy = true ∧ e.seqNum = g.shmLastSeq))
    (hlast : l.oLast = true → i = lastIndexI c (g, l) ∧ e.seqNum = g.shmLastSeq)
    (hmissed : l.oLast = false → l.seqNum + 1 < e.seqNum → i = oldestIndexI c (g, l))
    (hR : R (g, { l with readIdx := i, missedFrame := decide (l.seqNum + 1 < e.seqNum) })) :
    wp (Inside c g₀) Q (validate c) R
      (g, { l with readIdx := i, missedFrame := decide (l.seqNum + 1 < e.seqNum) }) := by
  have hfresh : l.staleFrames = false := hl.stale
  refine wp_branch (hs _) fun j hj => ?_
  match j with
  | 0 =>
    have ho : l.oLast = true := hj
    obtain ⟨hi, hnum⟩ := hlast ho
    refine wp_chooseThree (hs _) rfl (.inl (by simp [hfresh])) (fun _ => ?_) (fun hst => ?_)
      fun hst => ?_
    · refine wp_append (checkRead_ok (hs _) rfl he (fun hr => ?_) ?_)
      · exact decide_eq_true (hr.trans hnum)
      · exact wp_check (hs _) (decide_eq_true hi) hR
    · simp [hfresh] at hst
    · simp at hst
  | 1 =>
    have hlt := hwait hj
    refine wp_append (wp_check (hs _) (by simp [hfresh]) ?_)
    exact checkRead_ok (hs _) rfl he (fun hr => decide_eq_true (by simp only at hr ⊢; omega)) hR
  | 2 =>
    refine wp_append (checkRead_ok (hs _) rfl he (fun hr => ?_) ?_)
    · exact decide_eq_true (by simp only at hr ⊢; omega)
    · exact wp_check (hs _) (by simp [hfresh]) hR
  | 3 =>
    have hst : l.staleFrames = true := hj
    simp [hfresh] at hst
  | 4 =>
    have heq : g.shmLastSeq = l.seqNum := of_decide_eq_true hj
    have hc : l.oCopy = true := by
      rcases hnew with hlt | ⟨-, hc, -⟩
      · omega
      · exact hc
    exact wp_check (hs _) (by simp [hc]) hR
  | 5 =>
    have hm : l.seqNum + 1 < e.seqNum := of_decide_eq_true hj
    refine wp_append (wp_append (wp_append (wp_check (hs _) (by simp [hfresh]) ?_)))
    refine wp_check (hs _) (decide_eq_true (by simp only; omega)) ?_
    refine checkRead_ok (hs _) rfl he (fun hr => decide_eq_true (by simp only at hr ⊢; omega)) ?_
    refine wp_check (hs _) ?_ hR
    cases ho : l.oLast with
    | true =>
      simp only [Bool.not_true, Bool.false_and, Bool.false_or, Bool.true_and]
      exact decide_eq_true (hlast ho).1
    | false =>
      simp only [Bool.not_false, Bool.true_and, Bool.false_and, Bool.or_false]
      exact decide_eq_true (hmissed ho hm)
  | 6 =>
    have hlt : l.seqNum < g.shmLastSeq := of_decide_eq_true hj
    refine wp_append (wp_check (hs _) (by simp [hfresh]) ?_)
    exact checkRead_ok (hs _) rfl he (fun hr => decide_eq_true (by simp only at hr ⊢; omega)) hR
  | 7 => exact wp_print (hs _) hR

/-- **The second section goes through.** -/
theorem wp_getSection (hw : Wide c n) (h : Chan c hist k g) (hs : ∀ l, Inside c g₀ (g, l))
    (hlen : hist.length < 2 ^ 64) (hl : Looked c g l)
    (hwait : l.oWait = true → l.seqNum < g.shmLastSeq) (hR : ∀ l', R (g, l')) :
    wp (Inside c g₀) Q (getSection c) R (g, l) := by
  refine wp_append (wp_append (wp_check (hs _) (decide_eq_true hl.seqNum) ?_))
  refine wp_getFrame hw h (hs _) hlen hl hwait fun l' hgot => ?_
  cases hgot with
  | nothing hn hnw => exact wp_validate_nothing h hw.cnt hs hl hn hnw (hR _)
  | frame i he hpos hle hnew hlast hmissed =>
    exact wp_validate_frame hs hl hwait he hle hnew hlast hmissed (hR _)

end Ach.Spin.Get
