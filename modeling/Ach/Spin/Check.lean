import Ach.Spin.Get

/-! # The monitor of the SPIN model

What `monitor` asserts of the channel between two sections follows from the invariant of the
channel: its entries are those of the frames held and then free ones (`used_entry`, `free_entry`),
the entries of two frames one after the other are next to each other (`pair_next`), only in a full
index does the newest one stand before the oldest (`pair_head`), and each frame begins with its
number (`first_byte`). -/

namespace Ach.Spin.Check

open Ach.Lib.Run Ach.Lib.Ring Ach.Lib.Interleave
open Ach.Channel.Types Ach.Channel.Invariant Ach.Channel.PutSpec
open Ach.Spin.Model Ach.Spin.Abstract Ach.Spin.Get

variable {c : Consts} {n : ℕ} {g g₀ : Shm} {Q : Code → State → Prop} {R : State → Prop}
  {l : Locals} {hist : List (List UInt8)} {k : ℕ}

/-! ### The entries after the head -/

/-- From the head on, the free entries come first. -/
theorem free_entry (h : Chan c hist k g) {j : ℕ} (hj : j < g.shmIdxFree) :
    g.shmIdx[(g.shmIdxHead + j) % c.indexCnt]? = some .zero := by
  have hhead : g.shmIdxHead = hist.length % c.indexCnt := h.inv.indexHead
  have hslot := h.inv.toRep.freeSlot (s := hist.length + j) (by omega) (by simpa [header] using hj)
  rw [hhead, Nat.mod_add_mod]
  exact header_index h.used hslot

/-- The others are those of frames that are held. -/
theorem used_entry (h : Chan c hist k g) (hlen : hist.length < 2 ^ 64) {j : ℕ}
    (hj : g.shmIdxFree ≤ j) (hlt : j < c.indexCnt) :
    ∃ e, g.shmIdx[(g.shmIdxHead + j) % c.indexCnt]? = some e ∧ e.used = true ∧ 0 < e.size ∧
      0 < e.seqNum := by
  have hkh := h.inv.keptHist
  have hkc : k ≤ c.indexCnt := h.inv.keptCnt
  have hfree : g.shmIdxFree = c.indexCnt - k := h.inv.indexFree
  have hhead : g.shmIdxHead = hist.length % c.indexCnt := h.inv.indexHead
  have hp : hist.length + j - c.indexCnt < hist.length := by omega
  have hmod : (g.shmIdxHead + j) % c.indexCnt = (hist.length + j - c.indexCnt) % c.indexCnt := by
    rw [hhead, Nat.mod_add_mod,
      show hist.length + j = hist.length + j - c.indexCnt + c.indexCnt by omega, Nat.add_mod_right,
      Nat.add_sub_cancel]
  rw [hmod]
  refine ⟨_, held_entry h hlen (by omega) hp, rfl, ?_, Nat.succ_pos _⟩
  rw [List.getD_eq_getElem _ _ hp]
  exact List.length_pos_iff.mpr (h.inv.nonempty _ (List.getElem_mem hp))

/-- An entry that is used is that of a frame that is held. -/
theorem held_of_used (h : Chan c hist k g) (hlen : hist.length < 2 ^ 64) {i : ℕ} {e : Index}
    (he : g.shmIdx[i]? = some e) (hu : e.used = true) : ∃ p, p % c.indexCnt = i ∧
      hist.length - k ≤ p ∧ p < hist.length ∧
      e = ⟨(hist.getD p []).length, startOf hist p % c.dataSize, p + 1, true⟩ := by
  have hi := length_of_getElem? he
  rw [length_idx h] at hi
  obtain ⟨p, hp, h1, ⟨hlt, hpe⟩ | ⟨-, -, hpe⟩⟩ := slot_cases h hlen hi <;>
    rw [hpe, Option.some.injEq] at he
  · exact ⟨p, hp, h1, hlt, he.symm⟩
  · subst he
    simp [Index.zero] at hu

/-! ### The free space -/

/-- The end of the newest frame is the head of the data. -/
theorem last_space (h : Chan c hist k g) (hlen : hist.length < 2 ^ 64) (hcnt : 0 < c.indexCnt) :
    ∃ e, g.shmIdx[lastIndexI c (g, l)]? = some e ∧
      (e.offset + e.size) % c.dataSize = g.shmDataHead ∧ e.seqNum = g.shmLastSeq := by
  have hlast := lastSeq_eq h hlen
  have hhead : g.shmDataHead = hist.flatten.length % c.dataSize := h.inv.dataHead
  by_cases hne : hist = []
  · subst hne
    have hfree : g.shmIdxFree = c.indexCnt - k := h.inv.indexFree
    have hk : k = 0 := by simpa using h.inv.keptHist
    have hzero := free_entry h (j := c.indexCnt - 1) (by omega)
    rw [← Nat.add_sub_assoc hcnt] at hzero
    exact ⟨_, hzero, by simp [Index.zero, hhead], by simp [Index.zero, hlast]⟩
  · have hpos := List.length_pos_iff.mpr hne
    have hk := h.inv.keptPos hne
    rw [lastIndexI_eq h hcnt hpos]
    refine ⟨_, held_entry h hlen (by omega) (by omega), ?_, by simp only; omega⟩
    have hsucc := startOf_succ (show hist.length - 1 < hist.length by omega)
    rw [Nat.sub_add_cancel hpos, startOf_length] at hsucc
    simp only [Nat.mod_add_mod]
    rw [hhead, hsucc]

/-- The free space ends at the oldest frame. -/
theorem oldest_space (h : Chan c hist k g) (hlen : hist.length < 2 ^ 64) (hcnt : 0 < c.indexCnt) :
    ∃ e, g.shmIdx[oldestIndexI c (g, l)]? = some e ∧
      (g.shmDataHead + g.shmDataFree) % c.dataSize = e.offset := by
  have hhead : g.shmDataHead = hist.flatten.length % c.dataSize := h.inv.dataHead
  have hfree : g.shmDataFree + hist.flatten.length =
      c.dataSize + startOf hist (hist.length - k) := h.inv.dataFree
  have hmod : (g.shmDataHead + g.shmDataFree) % c.dataSize =
      startOf hist (hist.length - k) % c.dataSize := by
    rw [hhead, Nat.mod_add_mod, Nat.add_comm, hfree, Nat.add_mod_left]
  by_cases hne : hist = []
  · subst hne
    have hidx : g.shmIdxFree = c.indexCnt - k := h.inv.indexFree
    have hk : k = 0 := by simpa using h.inv.keptHist
    have hzero := free_entry h (j := 0) (by omega)
    have hold : oldestIndexI c (g, l) = (g.shmIdxHead + 0) % c.indexCnt := by
      rw [oldestIndexI, hidx, hk, Nat.sub_zero, Nat.add_mod_right, Nat.add_zero]
    rw [hold, hmod]
    exact ⟨_, hzero, by simp [startOf, Index.zero]⟩
  · have hpos := List.length_pos_iff.mpr hne
    have hk := h.inv.keptPos hne
    rw [oldestIndexI_eq h, hmod]
    exact ⟨_, held_entry h hlen le_rfl (by omega), rfl⟩

/-- The free entries are between the newest frame and the oldest one. -/
theorem last_free (hcnt : 0 < c.indexCnt) (s : State) :
    (lastIndexI c s + s.1.shmIdxFree + 1) % c.indexCnt = oldestIndexI c s := by
  rw [lastIndexI, oldestIndexI, Nat.add_assoc, Nat.mod_add_mod,
    show s.1.shmIdxHead + c.indexCnt - 1 + (s.1.shmIdxFree + 1) =
      s.1.shmIdxHead + s.1.shmIdxFree + c.indexCnt by omega, Nat.add_mod_right]

/-! ### Two entries next to each other -/

/-- The entry after the newest frame is used in a full index only, and by the oldest frame. -/
theorem pair_head (h : Chan c hist k g) {p q : ℕ} (hp : hist.length - k ≤ p) (hpl : p < hist.length)
    (hq : hist.length - k ≤ q) (hql : q < hist.length)
    (hnext : q % c.indexCnt = (p % c.indexCnt + 1) % c.indexCnt)
    (hhead : g.shmIdxHead = (p % c.indexCnt + 1) % c.indexCnt) :
    p + 1 = hist.length ∧ k = c.indexCnt ∧ q = hist.length - k := by
  have hkh := h.inv.keptHist
  have hkc : k ≤ c.indexCnt := h.inv.keptCnt
  have hhead' : g.shmIdxHead = hist.length % c.indexCnt := h.inv.indexHead
  rw [Nat.mod_add_mod] at hnext hhead
  have hpn : p + 1 = hist.length := by
    by_contra hne
    exact mod_ne (show p + 1 < hist.length by omega) (by omega) (hhead.symm.trans hhead')
  rw [hpn] at hnext
  have hqk : ¬ hist.length < q + c.indexCnt := fun hlt => mod_ne hql hlt hnext
  exact ⟨hpn, by omega, by omega⟩

/-- Otherwise the entry after a frame is that of the next frame. -/
theorem pair_next (h : Chan c hist k g) {p q : ℕ} (hp : hist.length - k ≤ p) (hpl : p < hist.length)
    (hq : hist.length - k ≤ q) (hql : q < hist.length)
    (hnext : q % c.indexCnt = (p % c.indexCnt + 1) % c.indexCnt)
    (hhead : g.shmIdxHead ≠ (p % c.indexCnt + 1) % c.indexCnt) : q = p + 1 := by
  have hkh := h.inv.keptHist
  have hkc : k ≤ c.indexCnt := h.inv.keptCnt
  have hhead' : g.shmIdxHead = hist.length % c.indexCnt := h.inv.indexHead
  rw [Nat.mod_add_mod] at hnext hhead
  have hpn : p + 1 ≠ hist.length := fun he => by rw [he] at hhead; exact hhead hhead'
  rcases Nat.lt_trichotomy q (p + 1) with hlt | heq | hgt
  · exact absurd hnext (mod_ne hlt (by omega))
  · exact heq
  · exact absurd hnext.symm (mod_ne hgt (by omega))

/-- The first byte of a frame that is held is its number. -/
theorem first_byte (h : Chan c hist k g) (hbyte : hist.length < 256) {p : ℕ}
    (hp : hist.length - k ≤ p) (hpl : p < hist.length) :
    ∃ b, g.shmData[startOf hist p % c.dataSize]? = some b ∧ b.toNat = p + 1 := by
  have hne := h.inv.nonempty _ (List.getElem_mem hpl)
  have hpos : 0 < (hist.getD p []).length := by
    rw [List.getD_eq_getElem _ _ hpl]
    exact List.length_pos_iff.mpr hne
  have hsucc := startOf_succ hpl
  have hle := startOf_le hist (p + 1)
  have hdl : g.shmData.length = c.dataSize := h.inv.dataLen
  have hget := h.inv.toRep.data.get (startOf hist p) (startOf_mono hist hp) (by omega)
  have hfirst : hist.flatten.getD (startOf hist p) 0 = (hist.getD p []).getD 0 0 := by
    conv_rhs => rw [← stream_eq hpl, List.getD_eq_getElem?_getD, List.getElem?_map,
      List.getElem?_range hpos]
    rfl
  rw [hfirst, h.stamped p hpl] at hget
  refine ⟨UInt8.ofNat (p + 1), ?_, ?_⟩
  · rw [← hdl]
    exact hget
  · rw [UInt8.toNat_ofNat']
    exact Nat.mod_eq_of_lt (by omega)

/-! ### The monitor -/

/-- An assertion about an entry. -/
theorem wp_checkIdx {s : State} {i : State → ℕ} {p : State → Bool} {e : Index}
    (hs : Inside c g₀ s) (he : s.1.shmIdx[i s]? = some e) (hp : p s = true) (h : R s) :
    wp (Inside c g₀) Q (checkIdx i p) R s := by
  refine wp_check hs ?_ h
  rw [hp, Bool.and_true, hasIdx]
  exact decide_eq_true (length_of_getElem? he)

theorem wp_checkUsed (h : Chan c hist k g) (hs : Inside c g₀ (g, l)) (hlen : hist.length < 2 ^ 64)
    (hj : l.j < c.indexCnt) (hR : R (g, l)) : wp (Inside c g₀) Q (checkUsed c) R (g, l) := by
  refine wp_ifElse hs rfl (fun hg => ?_) fun hg => ?_
  · have he := free_entry h (show l.j < g.shmIdxFree by simpa using hg)
    have hidx : headEntry c (g, l) = .zero := idx_of_getElem? he
    refine wp_append (wp_checkIdx hs he (by simp [hidx, Index.zero]) ?_)
    exact wp_checkIdx hs he (by simp [hidx, Index.zero]) hR
  · obtain ⟨e, he, hu, hsize, hseq⟩ :=
      used_entry h hlen (show g.shmIdxFree ≤ l.j by simpa using hg) hj
    have hidx : headEntry c (g, l) = e := idx_of_getElem? he
    refine wp_append (wp_append (wp_checkIdx hs he (by simp [hidx, hu]) ?_))
    refine wp_checkIdx hs he (by simpa [hidx] using hsize) ?_
    exact wp_checkIdx hs he (by simpa [hidx] using hseq) hR

theorem wp_checkSpace (h : Chan c hist k g) (hs : Inside c g₀ (g, l)) (hlen : hist.length < 2 ^ 64)
    (hcnt : 0 < c.indexCnt) (hj : l.j < c.indexCnt) (hR : R (g, l)) :
    wp (Inside c g₀) Q (checkSpace c) R (g, l) := by
  obtain ⟨e, he, hend, hseq⟩ := last_space (l := l) h hlen hcnt
  obtain ⟨o, ho, hoff⟩ := oldest_space (l := l) h hlen hcnt
  obtain ⟨x, hx⟩ : ∃ x, g.shmIdx[l.j]? = some x :=
    ⟨_, List.getElem?_eq_getElem (by rw [length_idx h]; exact hj)⟩
  have hlast : lastEntry c (g, l) = e := idx_of_getElem? he
  have hold : oldestEntry c (g, l) = o := idx_of_getElem? ho
  refine wp_append (wp_append (wp_append (wp_append ?_)))
  refine wp_checkIdx hs hx (by simp [Nat.mod_one]) ?_
  refine wp_checkIdx hs he ?_ ?_
  · simp only [hlast, hold, hasIdx, length_of_getElem? ho, decide_true, Bool.true_and,
      decide_eq_true_eq]
    rw [← Nat.mod_add_mod, hend, hoff]
  refine wp_checkIdx hs he (by simpa [hlast] using hend) ?_
  refine wp_check hs (decide_eq_true (last_free hcnt _)) ?_
  exact wp_checkIdx hs he (by simpa [hlast] using hseq) hR

theorem wp_checkPair {p q : ℕ} (h : Chan c hist k g) (hs : Inside c g₀ (g, l))
    (hlen : hist.length < 2 ^ 64) (hcnt : 0 < c.indexCnt) (hpj : p % c.indexCnt = l.j)
    (hqj : q % c.indexCnt = (l.j + 1) % c.indexCnt)
    (hp : hist.length - k ≤ p) (hpl : p < hist.length) (hq : hist.length - k ≤ q)
    (hql : q < hist.length) (hR : R (g, l)) : wp (Inside c g₀) Q (checkPair c) R (g, l) := by
  have hlast := lastSeq_eq h hlen
  have hkh := h.inv.keptHist
  have hfree : g.shmIdxFree = c.indexCnt - k := h.inv.indexFree
  have hdata : g.shmDataFree + hist.flatten.length =
      c.dataSize + startOf hist (hist.length - k) := h.inv.dataFree
  have hsucc := startOf_succ hpl
  have hentry : entryJ (g, l) = _ := idx_of_getElem? (by rw [← hpj]; exact held_entry h hlen hp hpl)
  have hentry' : entryNext c (g, l) = _ :=
    idx_of_getElem? (by rw [← hqj]; exact held_entry h hlen hq hql)
  refine wp_ifElse hs rfl (fun hg => ?_) fun hg => ?_
  · have hhead : g.shmIdxHead = (p % c.indexCnt + 1) % c.indexCnt := by
      rw [hpj]
      exact of_decide_eq_true hg
    obtain ⟨hpn, hkc, hqn⟩ := pair_head h hp hpl hq hql (by rw [hqj, hpj]) hhead
    refine wp_append (wp_append (wp_append (wp_append (wp_append ?_))))
    refine wp_check hs (decide_eq_true ?_) ?_
    · rw [oldestIndexI_eq h, ← hqj, hqn]
    refine wp_check hs (decide_eq_true ?_) ?_
    · rw [lastIndexI_eq h hcnt (by omega), ← hpj, ← hpn, Nat.add_sub_cancel]
    refine wp_check hs (decide_eq_true ?_) ?_
    · rw [hentry, hentry']
      simp only
      omega
    refine wp_check hs (decide_eq_true (by simp only; omega)) ?_
    refine wp_check hs (decide_eq_true ?_) ?_
    · rw [hentry]
      simp only
      omega
    refine wp_check hs (decide_eq_true ?_) hR
    rw [hentry, hentry']
    simp only [Nat.add_assoc, Nat.mod_add_mod]
    rw [hpn, startOf_length] at hsucc
    rw [← Nat.add_assoc, ← hsucc, Nat.add_comm, hdata, Nat.add_mod_left, hqn]
  · have hhead : g.shmIdxHead ≠ (p % c.indexCnt + 1) % c.indexCnt := by
      rw [hpj]
      exact of_decide_eq_false hg
    obtain rfl := pair_next h hp hpl hq hql (by rw [hqj, hpj]) hhead
    refine wp_append (wp_check hs (decide_eq_true (by rw [hentry, hentry'])) ?_)
    refine wp_check hs (decide_eq_true ?_) hR
    rw [hentry, hentry', hsucc]
    simp only [Nat.mod_add_mod]

/-- The last check of `monitor`. -/
theorem wp_checkData {e : Index} (h : Chan c hist k g) (hs : Inside c g₀ (g, l))
    (hbyte : hist.length < 256) (he : g.shmIdx[l.j]? = some e) (hR : R (g, l)) :
    wp (Inside c g₀) Q (ifElse (hasIdx fun s => s.2.j) (fun s => (entryJ s).used)
      (check fun s => decide ((entryJ s).offset < s.1.shmData.length) &&
        decide ((s.1.shmData.getD (entryJ s).offset 0).toNat = (entryJ s).seqNum)) print) R
      (g, l) := by
  have hentry : entryJ (g, l) = e := idx_of_getElem? he
  refine wp_ifElse hs (decide_eq_true (length_of_getElem? he)) (fun hu => ?_)
    fun _ => wp_print hs hR
  rw [hentry] at hu
  obtain ⟨p, -, hp, hpl, rfl⟩ := held_of_used h (by omega) he hu
  obtain ⟨b, hb, hnum⟩ := first_byte h hbyte hp hpl
  refine wp_check hs ?_ hR
  simp only [hentry, List.getD_eq_getElem?_getD, hb, Option.getD_some, hnum, decide_true,
    Bool.and_true, decide_eq_true_eq]
  exact (List.getElem?_eq_some_iff.mp hb).1

/-- **Every assertion of `monitor` holds.** -/
theorem wp_monitorSection (h : Chan c hist k g) (hs : Inside c g₀ (g, l))
    (hbyte : hist.length < 256) (hcnt : 0 < c.indexCnt) (hj : l.j < c.indexCnt) (hR : R (g, l)) :
    wp (Inside c g₀) Q (monitorSection c) R (g, l) := by
  have hlen : hist.length < 2 ^ 64 := by omega
  have hil := length_idx h
  have hlt := Nat.mod_lt (l.j + 1) hcnt
  obtain ⟨e, he⟩ : ∃ e, g.shmIdx[l.j]? = some e := ⟨_, List.getElem?_eq_getElem (by omega)⟩
  obtain ⟨x, hx⟩ : ∃ x, g.shmIdx[(l.j + 1) % c.indexCnt]? = some x :=
    ⟨_, List.getElem?_eq_getElem (by omega)⟩
  have hentry : entryJ (g, l) = e := idx_of_getElem? he
  have hentry' : entryNext c (g, l) = x := idx_of_getElem? hx
  have hhas : hasIdx (fun s => s.2.j) (g, l) = true := decide_eq_true (length_of_getElem? he)
  have hhas' : hasIdx (fun s => (s.2.j + 1) % c.indexCnt) (g, l) = true :=
    decide_eq_true (length_of_getElem? hx)
  refine wp_append (wp_append (wp_append ?_))
  refine wp_checkUsed h hs hlen hj (wp_checkSpace h hs hlen hcnt hj ?_)
  refine wp_ifElse hs (by rw [hhas, hhas']; rfl) (fun hg => ?_) fun hg => ?_
  all_goals rw [hentry, hentry'] at hg
  · obtain ⟨hu, hu'⟩ : e.used = true ∧ x.used = true := by simpa using hg
    obtain ⟨p, hpj, hp, hpl, -⟩ := held_of_used h hlen he hu
    obtain ⟨q, hqj, hq, hql, -⟩ := held_of_used h hlen hx hu'
    exact wp_checkPair h hs hlen hcnt hpj hqj hp hpl hq hql (wp_checkData h hs hbyte he hR)
  · refine wp_check hs (decide_eq_true ?_) (wp_checkData h hs hbyte he hR)
    by_contra hfree
    have hfree' : ∀ i < c.indexCnt, ∃ e, g.shmIdx[i]? = some e ∧ e.used = true := fun i hi => by
      obtain ⟨p, hp, h1, ⟨hlt, hpe⟩ | ⟨h2, h3, -⟩⟩ := slot_cases h hlen hi
      · exact ⟨_, hpe, rfl⟩
      · have hkh := h.inv.keptHist
        have hif : g.shmIdxFree = c.indexCnt - k := h.inv.indexFree
        simp only at hfree
        omega
    obtain ⟨e', he', hu⟩ := hfree' l.j hj
    obtain ⟨x', hx', hu'⟩ := hfree' _ hlt
    rw [he, Option.some.injEq] at he'
    rw [hx, Option.some.injEq] at hx'
    subst he' hx'
    simp [hu, hu'] at hg

end Ach.Spin.Check
