import Ach.Channel.Frame
import Ach.Spin.Abstract

/-! # The putter of the SPIN model

The section of `putter` does what the section of `ach_put` does (`wp_achPut`): run alone from a
state that represents a channel, with a buffer that holds the frame, it goes through without a
failed assertion, and the block it leaves is the one that `Put.putCritical` leaves. Each of its
parts is followed by the part of `ach_put` that it models. -/

namespace Ach.Spin.Put

open Ach.Lib.Run Ach.Lib.Word Ach.Lib.Ring Ach.Lib.Interleave
open Ach.Channel.Types Ach.Channel.Invariant Ach.Channel.PutSpec Ach.Channel.History
open Ach.Channel
open Ach.Spin.Model Ach.Spin.Abstract

variable {c : Consts} {n : ℕ} {g₀ : Shm} {Q : Code → State → Prop} {R : State → Prop} {s : State}
  {hist : List (List UInt8)} {k : ℕ}

/-- The section is under way, and the block represents `hist`. -/
structure Work (c : Consts) (g₀ : Shm) (hist : List (List UInt8)) (k : ℕ) (s : State) : Prop where
  inside : Inside c g₀ s
  rep : Rep hist k (header c s.1)
  used : UsedOk s.1

/-! ### `FREE_IDX` -/

/-- The counters after `FREE_IDX`. -/
def counted (g : Shm) (size : ℕ) : Shm :=
  { g with shmDataFree := g.shmDataFree + size, shmIdxFree := g.shmIdxFree + 1 }

/-- The globals after `FREE_IDX`. -/
def freed (g : Shm) (i size : ℕ) : Shm := withIdx (counted g size) (g.shmIdx.set i .zero)

theorem header_freed (c : Consts) (g : Shm) (i size : ℕ) :
    header c (freed g i size) = evict (header c g) i size := by
  simp [header, freed, counted, withIdx, evict, List.map_set, absIndex, Index.zero, AchIndex.zero]

theorem wp_freeIdx {i : State → ℕ} {e : Index} (hw : Wide c n) (hs : Inside c g₀ s)
    (he : s.1.shmIdx[i s]? = some e) (hused : e.used = true) (hfree : s.1.shmIdxFree < c.indexCnt)
    (hdata : s.1.shmDataFree + e.size ≤ c.dataSize)
    (hi : ∀ t : State, t.1.shmIdxHead = s.1.shmIdxHead → t.2 = s.2 → i t = i s)
    (h : R (freed s.1 (i s) e.size, s.2)) : wp (Inside c g₀) Q (freeIdx c i) R s := by
  obtain ⟨hmutex, hview⟩ := hs
  have hlt := length_of_getElem? he
  have hidx : s.1.idx (i s) = e := idx_of_getElem? he
  have hbits := hw.sizeBits
  have hcnt := hw.cntBits
  have htrunc : trunc c.sizeBits (s.1.shmDataFree + (s.1.idx (i s)).size) =
      s.1.shmDataFree + e.size := by
    rw [hidx]
    exact trunc_eq (by push_cast; rfl) (by omega)
  have htrunc' : trunc c.sizeBits (s.1.shmIdxFree + 1) = s.1.shmIdxFree + 1 :=
    trunc_eq (by push_cast; rfl) (by omega)
  have hview₁ : View c g₀ { s.1 with shmDataFree := s.1.shmDataFree + e.size } :=
    ⟨hdata, hview.2, hview.3, hview.4, hview.5⟩
  have hin : ∀ idx, Inside c g₀ (withIdx (counted s.1 e.size) idx, s.2) := fun _ =>
    ⟨hmutex, hdata, hfree, hview.3, hview.4, hview.5⟩
  have hi' : ∀ idx, i (withIdx (counted s.1 e.size) idx, s.2) = i s := fun _ => hi _ rfl rfl
  refine wp_append (wp_append (wp_append (wp_append (wp_append (wp_append (wp_append ?_))))))
  refine wp_check ⟨hmutex, hview⟩ (by simp [hasIdx, hlt, hidx, hused]) ?_
  refine wp_check ⟨hmutex, hview⟩ (by simpa using hfree) ?_
  refine wp_exec ⟨hmutex, hview⟩ (by simpa [hasIdx] using hlt) (wp_done ?_)
  rw [htrunc]
  refine wp_setShm ⟨hmutex, hview₁⟩ rfl ?_
  rw [htrunc']
  change wp _ _ _ _ (counted s.1 e.size, s.2)
  rw [← withIdx_self (i := i s) (e := e) (show (counted s.1 e.size).shmIdx[i s]? = _ from he)]
  -- the four fields of the entry, one after the other
  refine wp_setIdx hin hi' hlt ?_
  refine wp_setIdx hin hi' hlt ?_
  refine wp_setIdx hin hi' hlt ?_
  exact wp_setIdx hin hi' hlt h

/-! ### Making room -/

/-- The entry of the oldest frame. -/
theorem oldest_entry (h : Rep hist (k + 1) (header c s.1)) (hu : UsedOk s.1)
    (hlen : hist.length < 2 ^ 64) : ∃ e : Index,
      s.1.shmIdx[(hist.length - (k + 1)) % c.indexCnt]? = some e ∧ e.used = true ∧
      e.size = (hist.getD (hist.length - (k + 1)) []).length ∧ 0 < e.size := by
  have hkh := h.keptHist
  have hlt : hist.length - (k + 1) < hist.length := by omega
  have hslot := header_index hu (h.slot le_rfl hlt)
  refine ⟨_, hslot, decide_eq_true ?_, rfl, ?_⟩
  · show (hist.length - (k + 1) + 1) % 2 ^ 64 ≠ 0
    rw [Nat.mod_eq_of_lt (by omega)]
    omega
  · rw [List.getD_eq_getElem _ _ hlt]
    exact List.length_pos_iff.mpr (h.nonempty _ (List.getElem_mem hlt))

/-- `FREE_IDX` of the oldest frame is `free_index`. -/
theorem wp_freeOldest {i : State → ℕ} (hw : Wide c n) (hlen : hist.length < 2 ^ 64)
    (h : Work c g₀ hist (k + 1) s) (hi : i s = (hist.length - (k + 1)) % c.indexCnt)
    (hst : ∀ t : State, t.1.shmIdxHead = s.1.shmIdxHead → t.2 = s.2 → i t = i s)
    (hR : ∀ g, Work c g₀ hist k (g, s.2) →
      out (Put.freeIndex ((hist.length - (k + 1)) % c.indexCnt)) true (header c s.1) =
        .ok ((), header c g) → R (g, s.2)) : wp (Inside c g₀) Q (freeIdx c i) R s := by
  obtain ⟨hin, hrep, hused⟩ := h
  obtain ⟨e, he, heused, hesize, -⟩ := oldest_entry hrep hused hlen
  have hfree := hrep.indexFree
  have hkc := hrep.keptCnt
  have hevict := rep_evict hrep
  have hdata : s.1.shmDataFree + e.size ≤ c.dataSize := by
    have h1 := hevict.dataFree
    have h2 := startOf_le hist (hist.length - k)
    rw [← hesize] at h1
    simp only [evict, header] at h1
    omega
  have hfree' : s.1.shmIdxFree < c.indexCnt := by
    simp only [header] at hfree hkc
    omega
  refine wp_freeIdx hw hin (by rw [hi]; exact he) heused hfree' hdata hst ?_
  have hheader : header c (freed s.1 (i s) e.size) =
      evict (header c s.1) ((hist.length - (k + 1)) % c.indexCnt)
        (hist.getD (hist.length - (k + 1)) []).length := by rw [header_freed, hi, hesize]
  refine hR _ ⟨⟨hin.1, hdata, hfree', hin.2.3, hin.2.4, hin.2.5⟩, ?_, ?_⟩ ?_
  · rw [hheader]
    exact hevict
  · exact (show UsedOk (counted s.1 e.size) from hused).set _ rfl
  · have hfreed := freeIndex_oldest true hrep fun _ => hlen
    rw [show (header c s.1).indexCnt = c.indexCnt from rfl] at hfreed
    rw [hheader]
    exact hfreed

/-- The entry used by the index is cleared, as in `ach_put`. -/
theorem wp_clearHead (hw : Wide c n) (hlen : hist.length < 2 ^ 64) (h : Work c g₀ hist k s)
    (hR : ∀ k' g, k' < c.indexCnt → Work c g₀ hist k' (g, s.2) →
      out Put.clearHead true (header c s.1) = .ok ((), header c g) → R (g, s.2)) :
    wp (Inside c g₀) Q (clearHead c) R s := by
  have hkc := h.rep.keptCnt
  have hkh := h.rep.keptHist
  have hfree : s.1.shmIdxFree = c.indexCnt - k := h.rep.indexFree
  have hhead : s.1.shmIdxHead = hist.length % c.indexCnt := h.rep.indexHead
  have hcnt := hw.cnt
  replace hkc : k ≤ c.indexCnt := hkc
  refine wp_ifElse h.inside rfl (fun hg => ?_) fun hg => ?_
  · have hzero : s.1.shmIdxFree = 0 := by simpa [eq_comm] using hg
    obtain ⟨j, rfl⟩ : ∃ j, k = j + 1 := ⟨k - 1, by omega⟩
    have hpos : s.1.shmIdxHead = (hist.length - (j + 1)) % c.indexCnt := by
      rw [hhead, show hist.length = hist.length - (j + 1) + c.indexCnt by omega, Nat.add_mod_right]
      congr 1
      omega
    refine wp_freeOldest hw hlen h hpos (fun t ht _ => ht) fun g hg hout => ?_
    refine hR j g (by omega) hg ?_
    rw [Put.clearHead, out_bind, out_load, Outcome.bind_ok,
      if_pos (show (header c s.1).indexFree = 0 from hzero),
      show (header c s.1).indexHead = _ from hpos]
    exact hout
  · have hzero : s.1.shmIdxFree ≠ 0 := by simpa [eq_comm] using hg
    have hslot := h.rep.freeSlot (s := hist.length) le_rfl (by simp only [header]; omega)
    have hentry := header_index h.used hslot
    replace hentry : s.1.shmIdx[s.1.shmIdxHead]? = some .zero := by rw [hhead]; exact hentry
    refine wp_check h.inside ?_ (hR k s.1 (by omega) h ?_)
    · simp [hasIdx, length_of_getElem? hentry, idx_of_getElem? hentry, Index.zero]
    · rw [Put.clearHead, out_bind, out_load, Outcome.bind_ok,
        if_neg (show (header c s.1).indexFree ≠ 0 from hzero), out_bind,
        out_indexAt true (by rw [← h.rep.indexHead] at hslot; exact hslot), Outcome.bind_ok]
      exact out_assert rfl true _

/-- The oldest entry is not the head, if there is room in the index. -/
theorem oldest_ne_head (h : Rep hist (k + 1) (header c s.1)) (hk : k + 1 < c.indexCnt) :
    (hist.length - (k + 1)) % c.indexCnt ≠ s.1.shmIdxHead := by
  have hkh := h.keptHist
  have hhead : s.1.shmIdxHead = hist.length % c.indexCnt := h.indexHead
  rw [hhead]
  exact mod_ne (by omega) (by omega)

/-- **Overlapping entries are cleared**, as in `ach_put`; the induction is on the number of frames
held. -/
theorem wp_clearOverlapping (hw : Wide c n) (hlen : hist.length < 2 ^ 64) : ∀ (k fuel : ℕ)
    (s : State), Work c g₀ hist k s → k < c.indexCnt → k ≤ fuel →
    s.2.i = (hist.length - k) % c.indexCnt → s.2.buflen ≤ c.dataSize →
    (∀ k' g i, k' ≤ k → Work c g₀ hist k' (g, { s.2 with i := i }) → s.2.buflen ≤ g.shmDataFree →
      out (Put.clearOverlapping s.2.buflen fuel ((hist.length - k) % c.indexCnt)) true
        (header c s.1) = .ok ((), header c g) → R (g, { s.2 with i := i })) →
    wp (Inside c g₀) Q (clearOverlapping c) R s
  | 0, fuel, s, h, _, _, _, hfit, hR => by
    have hroom : ¬ s.1.shmDataFree < s.2.buflen := by
      have h1 := h.rep.dataFree
      rw [Nat.sub_zero, startOf_length] at h1
      simp only [header] at h1
      omega
    have hroom' : ¬ (header c s.1).dataFree < s.2.buflen := hroom
    refine wp_loop_false h.inside (by simpa using hroom) (wp_done ?_)
    refine hR 0 s.1 s.2.i le_rfl h (by omega) ?_
    cases fuel <;> simp [Put.clearOverlapping, hroom']
  | k + 1, 0, _, _, _, hf, _, _, _ => by omega
  | k + 1, fuel + 1, s, h, hk, hf, hi, hfit, hR => by
    by_cases hroom : s.1.shmDataFree < s.2.buflen
    · have hroom' : (header c s.1).dataFree < s.2.buflen := hroom
      obtain ⟨e, he, heused, -, hepos⟩ := oldest_entry h.rep h.used hlen
      have hne := oldest_ne_head h.rep hk
      have hkh := h.rep.keptHist
      have hbyte := hw.cntByte
      have hlt := Nat.mod_lt (hist.length - (k + 1)) (show 0 < c.indexCnt by omega)
      rw [← hi] at he hne hlt
      have hhas : hasIdx (fun s => s.2.i) s = true := by simpa [hasIdx] using length_of_getElem? he
      have hidx : s.1.idx s.2.i = e := idx_of_getElem? he
      have hnext : trunc 8 (((s.2.i + 1) % c.indexCnt : ℕ) : ℤ) =
          (hist.length - k) % c.indexCnt := by
        have := Nat.mod_lt (hist.length - k) (show 0 < c.indexCnt by omega)
        rw [hi, Nat.mod_add_mod, show hist.length - (k + 1) + 1 = hist.length - k by omega]
        exact trunc_eq rfl (by omega)
      refine wp_loop_true h.inside (by simpa using hroom) ?_
      refine wp_append (wp_append (wp_append (wp_append (wp_append ?_))))
      refine wp_check h.inside (by simpa using hlt) ?_
      refine wp_check h.inside (by simpa using hne) ?_
      refine wp_check h.inside (by simp [hhas, hidx]; omega) ?_
      refine wp_check h.inside (by simp [hhas, hidx, heused]) ?_
      refine wp_freeOldest hw hlen h hi (fun t _ ht => by rw [ht]) fun g hg hout => ?_
      refine wp_setLoc hg.inside rfl ?_
      dsimp only
      rw [hnext]
      refine wp_clearOverlapping hw hlen k fuel _ ⟨hg.inside, hg.rep, hg.used⟩ (by omega) (by omega)
        rfl hfit fun k' g' i' hk' hg' hfree hout' => ?_
      refine hR k' g' i' (by omega) hg' hfree ?_
      have hcnt : (header c s.1).indexCnt = c.indexCnt := rfl
      have hhead : s.2.i ≠ (header c s.1).indexHead := hne
      have hwadd : wadd s.2.i 1 % c.indexCnt = (hist.length - k) % c.indexCnt := by
        rw [wadd_eq (by omega), hi, Nat.mod_add_mod,
          show hist.length - (k + 1) + 1 = hist.length - k by omega]
      rw [← hi, Put.clearOverlapping]
      rw [← hi] at hout
      simp only [out_bind, out_load, Outcome.bind_ok, hroom', if_true, out_assert hhead, hout]
      rw [hcnt, out_umod (show 0 < c.indexCnt by omega), Outcome.bind_ok, hwadd]
      exact hout'
    · have hroom' : ¬ (header c s.1).dataFree < s.2.buflen := hroom
      refine wp_loop_false h.inside (by simpa using hroom) (wp_done ?_)
      exact hR (k + 1) s.1 s.2.i le_rfl h (by omega) (by simp [Put.clearOverlapping, hroom'])

/-! ### The copy -/

/-- The buffer as `ach_put` has it. -/
def bufOf (l : Locals) : ℕ → UInt8 := fun j => l.buf.getD j 0

/-- After `j` bytes have been copied from `r` to `d`. -/
def copied (s : State) (d r j : ℕ) : State :=
  ({ s.1 with shmData := blit s.1.shmData d (fun j => bufOf s.2 (r + j)) j }, { s.2 with i := j })

theorem inside_data {g : Shm} {l l' : Locals} (h : Inside c g₀ (g, l)) (data : List UInt8) :
    Inside c g₀ ({ g with shmData := data }, l') := ⟨h.1, h.2.1, h.2.2, h.2.3, h.2.4, h.2.5⟩

/-- `MEMCPY` copies, if what it copies is there. -/
theorem wp_memcpy {dstoff srcoff length : State → ℤ} {d r m : ℕ} (hs : Inside c g₀ s)
    (hoff : ∀ j, dstoff (copied s d r j) = d ∧ srcoff (copied s d r j) = r ∧
      length (copied s d r j) = m)
    (hdst : d + m ≤ s.1.shmData.length) (hsrc : r + m ≤ s.2.buf.length) (hm : m < 256)
    (hR : R (copied s d r m)) : wp (Inside c g₀) Q (memcpy dstoff srcoff length) R s := by
  have hin : ∀ j, Inside c g₀ (copied s d r j) := fun j => inside_data hs _
  refine wp_append (wp_setLoc hs rfl ?_)
  refine wp_loop (n := m) (fun v t => ∃ j ≤ m, v = m - j ∧ t = copied s d r j)
    ⟨0, Nat.zero_le _, by omega, rfl⟩ ?_ ?_ ?_
  · rintro v t ⟨j, -, -, rfl⟩
    exact hin j
  · rintro v t ⟨j, hj, rfl, rfl⟩ hg
    obtain ⟨hd, hr, hl⟩ := hoff j
    have hjm : j < m := by
      have : ((j : ℕ) : ℤ) < length (copied s d r j) := of_decide_eq_true hg
      omega
    have hi : (copied s d r j).2.i = j := rfl
    have hpos : (dstoff (copied s d r j) + (copied s d r j).2.i).toNat = d + j := by
      rw [hd, hi]
      omega
    have hfrom : (srcoff (copied s d r j) + (copied s d r j).2.i).toNat = r + j := by
      rw [hr, hi]
      omega
    refine wp_append (wp_exec (hin j) ?_ (wp_done ?_))
    · rw [hd, hr, hi]
      simp only [copied, length_blit, decide_eq_true_eq]
      omega
    · rw [hpos, hfrom]
      refine wp_setLoc (inside_data (hin j) _) rfl ⟨m - (j + 1), by omega, j + 1, hjm, rfl, ?_⟩
      have hstep : trunc 8 ((j : ℤ) + 1) = j + 1 := trunc_eq (by push_cast; rfl) (by omega)
      simp only [copied, hstep]
      rfl
  · rintro v t ⟨j, hj, rfl, rfl⟩ hg
    obtain ⟨-, -, hl⟩ := hoff j
    have hjm : ¬ ((j : ℕ) : ℤ) < length (copied s d r j) := of_decide_eq_false hg
    obtain rfl : j = m := by omega
    exact wp_done hR

/-- **The buffer is copied**, as in `ach_put`. -/
theorem wp_copyIn (hw : Wide c n) (h : Work c g₀ hist k s) (hfit : s.2.buflen ≤ s.1.shmDataFree)
    (hbuf : s.2.buflen ≤ s.2.buf.length) (hbyte : s.2.buflen < 256)
    (hR : ∀ data i, out (Put.copyIn (bufOf s.2) s.2.buflen) true (header c s.1) =
        .ok ((), { header c s.1 with data := data }) →
      R ({ s.1 with shmData := data }, { s.2 with i := i })) :
    wp (Inside c g₀) Q (copyIn c) R s := by
  have hsmall := hw.small
  have hpos := hw.size
  have hlen : s.1.shmData.length = c.dataSize := h.rep.dataLen
  have hhead : s.1.shmDataHead = hist.flatten.length % c.dataSize := h.rep.dataHead
  have hlt : s.1.shmDataHead < c.dataSize := by
    rw [hhead]
    exact Nat.mod_lt _ hpos
  have hfree : s.1.shmDataFree ≤ c.dataSize := h.inside.2.dataFree
  have hsub : wsub (header c s.1).dataSize (header c s.1).dataHead =
      c.dataSize - s.1.shmDataHead := wsub_eq hlt.le (by simp only [header]; omega)
  refine wp_ifElse h.inside rfl (fun hg => ?_) fun hg => ?_
  · have hone : s.2.buflen ≤ c.dataSize - s.1.shmDataHead := by
      have : (s.2.buflen : ℤ) ≤ c.dataSize - s.1.shmDataHead := by simpa using hg
      omega
    refine wp_memcpy (d := s.1.shmDataHead) (r := 0) (m := s.2.buflen) h.inside
      (fun j => ⟨rfl, rfl, rfl⟩) (by omega) (by omega) hbyte ?_
    refine hR _ _ ?_
    simp only [Put.copyIn, out_bind, out_load, Outcome.bind_ok, hsub, if_pos hone]
    rw [out_memcpyIn true _ _ _ (by simp only [header]; omega)]
    simp [header]
  · have htwo : ¬ s.2.buflen ≤ c.dataSize - s.1.shmDataHead := by
      have : ¬ (s.2.buflen : ℤ) ≤ c.dataSize - s.1.shmDataHead := by simpa using hg
      omega
    have hsub₂ : wsub s.2.buflen (c.dataSize - s.1.shmDataHead) =
        s.2.buflen - (c.dataSize - s.1.shmDataHead) := wsub_eq (by omega) (by omega)
    refine wp_append ?_
    refine wp_memcpy (d := s.1.shmDataHead) (r := 0) (m := c.dataSize - s.1.shmDataHead) h.inside
      (fun j => ⟨rfl, rfl, ?_⟩) (by omega) (by omega) (by omega) ?_
    · simp only [copied]
      omega
    refine wp_memcpy (d := 0) (r := c.dataSize - s.1.shmDataHead)
      (m := s.2.buflen - (c.dataSize - s.1.shmDataHead)) (inside_data h.inside _)
      (fun j => ⟨rfl, ?_, ?_⟩) ?_ ?_ (by omega) ?_
    · simp only [copied]
      omega
    · simp only [copied]
      omega
    · simp only [copied, length_blit]
      omega
    · simp only [copied]
      omega
    · have hzero : (fun j => bufOf s.2 (0 + j)) = bufOf s.2 := funext fun j => by rw [Nat.zero_add]
      simp only [copied, hzero]
      refine hR _ _ ?_
      simp only [Put.copyIn, out_bind, out_load, Outcome.bind_ok, hsub, if_neg htwo, hsub₂]
      rw [out_memcpyIn true _ _ _ (by simp only [header]; omega), Outcome.bind_ok,
        out_memcpyIn true _ _ _ (by simp only [header, length_blit]; omega)]
      rfl

/-! ### The counts -/

/-- The globals with the counts of one more frame of length `len`. -/
def moved (c : Consts) (g : Shm) (len : ℕ) : Shm where
  shmIdx := g.shmIdx
  shmLastSeq := g.shmLastSeq
  shmIdxHead := (g.shmIdxHead + 1) % c.indexCnt
  shmIdxFree := g.shmIdxFree - 1
  shmDataHead := (g.shmDataHead + len) % c.dataSize
  shmDataFree := g.shmDataFree - len
  shmData := g.shmData
  shmMutex := g.shmMutex

/-- The globals with the next number. -/
def numbered (g : Shm) : Shm := { g with shmLastSeq := g.shmLastSeq + 1 }

/-- The globals after the counts were modified. -/
def published (c : Consts) (g : Shm) (len : ℕ) : Shm :=
  moved c (withIdx (numbered g)
    (g.shmIdx.set g.shmIdxHead ⟨len, g.shmDataHead, g.shmLastSeq + 1, true⟩)) len

theorem header_published (c : Consts) {g : Shm} (len : ℕ) (hseq : g.shmLastSeq + 1 < 2 ^ 64) :
    header c (published c g len) = append (header c g) g.shmIdxHead len := by
  have hadd : wadd g.shmLastSeq 1 = g.shmLastSeq + 1 := wadd_eq hseq
  simp [header, published, moved, withIdx, numbered, append, List.map_set, absIndex, hadd]

/-- The counts are modified. -/
theorem wp_modifyCounts {e : Index} (hw : Wide c n) (hs : Inside c g₀ s)
    (he : s.1.shmIdx[s.1.shmIdxHead]? = some e) (hhead : s.1.shmDataHead < c.dataSize)
    (hlen : s.2.buflen ≤ s.1.shmDataFree) (hif : 0 < s.1.shmIdxFree)
    (hseq : s.1.shmLastSeq + 1 < 2 ^ c.seqNumBits) (hR : R (published c s.1 s.2.buflen, s.2)) :
    wp (Inside c g₀) Q (modifyCounts c) R s := by
  obtain ⟨hmutex, hview⟩ := hs
  obtain ⟨h1, h2, h3, h4, h5⟩ := hview
  have hsb := hw.sizeBits
  have hcb := hw.cntBits
  have hlt := length_of_getElem? he
  have hnum : trunc c.seqNumBits (s.1.shmLastSeq + 1) = s.1.shmLastSeq + 1 :=
    trunc_eq (by push_cast; rfl) hseq
  have hnum' : trunc c.seqNumBits ((s.1.shmLastSeq + 1 : ℕ) : ℤ) = s.1.shmLastSeq + 1 :=
    trunc_eq rfl hseq
  have hsize : trunc c.sizeBits s.2.buflen = s.2.buflen := trunc_eq rfl (by omega)
  have hoff : trunc c.sizeBits s.1.shmDataHead = s.1.shmDataHead := trunc_eq rfl (by omega)
  have hdata : trunc c.sizeBits (((s.1.shmDataHead + s.2.buflen) % c.dataSize : ℕ) : ℤ) =
      (s.1.shmDataHead + s.2.buflen) % c.dataSize := by
    have := Nat.mod_lt (s.1.shmDataHead + s.2.buflen) hw.size
    exact trunc_eq rfl (by omega)
  have hfree : trunc c.sizeBits ((s.1.shmDataFree : ℤ) - s.2.buflen) =
      s.1.shmDataFree - s.2.buflen := trunc_eq (by omega) (by omega)
  have hidx : trunc c.sizeBits (((s.1.shmIdxHead + 1) % c.indexCnt : ℕ) : ℤ) =
      (s.1.shmIdxHead + 1) % c.indexCnt := by
    have := Nat.mod_lt (s.1.shmIdxHead + 1) hw.cnt
    exact trunc_eq rfl (by omega)
  have hidxFree : trunc c.sizeBits ((s.1.shmIdxFree : ℤ) - 1) = s.1.shmIdxFree - 1 :=
    trunc_eq (by omega) (by omega)
  have hin : ∀ idx, Inside c g₀ (withIdx (numbered s.1) idx, s.2) := fun _ =>
    ⟨hmutex, h1, h2, h3, h4, h5.trans (Nat.le_succ _)⟩
  refine wp_append (wp_append (wp_append (wp_append (wp_append (wp_append (wp_append (wp_append
    ?_)))))))
  refine wp_setShm ⟨hmutex, h1, h2, h3, h4, h5⟩ rfl ?_
  rw [hnum]
  change wp _ _ _ _ (numbered s.1, s.2)
  rw [← withIdx_self (i := s.1.shmIdxHead) (e := e)
    (show (numbered s.1).shmIdx[s.1.shmIdxHead]? = _ from he)]
  -- the four fields of the entry, one after the other
  refine wp_setIdx hin (fun _ => rfl) hlt ?_
  refine wp_setIdx hin (fun _ => rfl) hlt ?_
  refine wp_setIdx hin (fun _ => rfl) hlt ?_
  refine wp_setIdx hin (fun _ => rfl) hlt ?_
  simp only [withIdx, numbered, hnum', hsize, hoff]
  -- the four counters
  refine wp_setShm ⟨hmutex, h1, h2, h3, h4, h5.trans (Nat.le_succ _)⟩ rfl ?_
  simp only [hdata]
  have hdl := (Nat.mod_lt (s.1.shmDataHead + s.2.buflen) hw.size).le
  have hil := (Nat.mod_lt (s.1.shmIdxHead + 1) hw.cnt).le
  refine wp_setShm ⟨hmutex, h1, h2, hdl, h4, h5.trans (Nat.le_succ _)⟩ rfl ?_
  simp only [hfree]
  refine wp_setShm ⟨hmutex, (Nat.sub_le _ _).trans h1, h2, hdl, h4, h5.trans (Nat.le_succ _)⟩ rfl ?_
  simp only [hidx]
  refine wp_setShm
    ⟨hmutex, (Nat.sub_le _ _).trans h1, h2, hdl, hil, h5.trans (Nat.le_succ _)⟩ rfl ?_
  simp only [hidxFree]
  exact hR

/-! ### The section -/

/-- The entry at the head is free, if there is room in the index. -/
theorem head_entry (h : Work c g₀ hist k s) (hk : k < c.indexCnt) :
    s.1.shmIdx[s.1.shmIdxHead]? = some .zero := by
  have hhead : s.1.shmIdxHead = hist.length % c.indexCnt := h.rep.indexHead
  have hfree : s.1.shmIdxFree = c.indexCnt - k := h.rep.indexFree
  have hslot := h.rep.freeSlot (s := hist.length) le_rfl (by simp only [header]; omega)
  rw [hhead]
  exact header_index h.used hslot

/-- `oldest_index_i` is the entry of the oldest frame. -/
theorem oldest_eq (h : Rep hist k (header c s.1)) :
    (s.1.shmIdxHead + s.1.shmIdxFree) % c.indexCnt = (hist.length - k) % c.indexCnt := by
  have hkh := h.keptHist
  have hkc : k ≤ c.indexCnt := h.keptCnt
  have hhead : s.1.shmIdxHead = hist.length % c.indexCnt := h.indexHead
  have hfree : s.1.shmIdxFree = c.indexCnt - k := h.indexFree
  rw [hhead, hfree, Nat.mod_add_mod,
    show hist.length + (c.indexCnt - k) = hist.length - k + c.indexCnt by omega, Nat.add_mod_right]

/-- **The section of `putter` is the section of `ach_put`.** -/
theorem wp_achPut (hw : Wide c n) (h : Work c g₀ hist k s) (hfit : s.2.buflen ≤ c.dataSize)
    (hbuf : s.2.buflen ≤ s.2.buf.length)
    (hbyte : s.2.buflen < 256) (hseq : hist.length + 1 < 2 ^ c.seqNumBits)
    (hlen : hist.length + 1 < 2 ^ 64)
    (hR : ∀ g i, Inside c g₀ (g, s.2) → UsedOk g → g.shmLastSeq = s.1.shmLastSeq + 1 →
      out (Put.putCritical (bufOf s.2) s.2.buflen) true (header c s.1) = .ok ((), header c g) →
      R (g, { s.2 with i := i })) : wp (Inside c g₀) Q (achPut c) R s := by
  have hcnt := hw.cnt
  have hcb := hw.cntBits
  have hbits := hw.cntByte
  have hhead₀ : s.1.shmIdxHead = hist.length % c.indexCnt := h.rep.indexHead
  refine wp_append (wp_append (wp_append (wp_append (wp_append (wp_append (wp_append (wp_append
    ?_)))))))
  refine wp_clearHead hw (by omega) h fun k₁ g₁ hk₁ hw₁ hout₁ => ?_
  have hfree₁ : g₁.shmIdxFree = c.indexCnt - k₁ := hw₁.rep.indexFree
  have hhead₁ : g₁.shmIdxHead = s.1.shmIdxHead := by
    rw [hhead₀]
    exact hw₁.rep.indexHead
  have hentry₁ := head_entry hw₁ hk₁
  refine wp_check hw₁.inside (by simp; omega) ?_
  refine wp_check hw₁.inside ?_ ?_
  · simp [hasIdx, length_of_getElem? hentry₁, idx_of_getElem? hentry₁, Index.zero]
  refine wp_setLoc hw₁.inside rfl ?_
  have hold := oldest_eq (s := (g₁, s.2)) hw₁.rep
  have hi : trunc 8 (((g₁.shmIdxHead + g₁.shmIdxFree) % c.indexCnt : ℕ) : ℤ) =
      (hist.length - k₁) % c.indexCnt := by
    have := Nat.mod_lt (hist.length - k₁) hcnt
    rw [hold]
    exact trunc_eq rfl (by omega)
  simp only [hi]
  refine wp_clearOverlapping hw (show hist.length < 2 ^ 64 by omega) k₁ c.indexCnt _
    ⟨hw₁.inside, hw₁.rep, hw₁.used⟩ hk₁ hk₁.le rfl hfit fun k₂ g₂ i hk₂ hw₂ hroom hout₂ => ?_
  have hentry₂ := head_entry hw₂ (by omega)
  have hfree₂ : g₂.shmIdxFree = c.indexCnt - k₂ := hw₂.rep.indexFree
  have hhead₂ : g₂.shmIdxHead = s.1.shmIdxHead := by
    rw [hhead₀]
    exact hw₂.rep.indexHead
  have hlast₂ : g₂.shmLastSeq = hist.length % 2 ^ 64 := hw₂.rep.lastSeq
  have hlast : s.1.shmLastSeq = hist.length % 2 ^ 64 := h.rep.lastSeq
  rw [Nat.mod_eq_of_lt (by omega)] at hlast₂ hlast
  refine wp_check hw₂.inside (by simpa using hroom) ?_
  refine wp_check hw₂.inside ?_ ?_
  · simp [hasIdx, length_of_getElem? hentry₂, idx_of_getElem? hentry₂, Index.zero]
  refine wp_copyIn hw hw₂ hroom hbuf hbyte fun data i' hout₃ => ?_
  have hhead₃ : g₂.shmDataHead < c.dataSize := by
    have : g₂.shmDataHead = hist.flatten.length % c.dataSize := hw₂.rep.dataHead
    rw [this]
    exact Nat.mod_lt _ hw.size
  have hin₃ : Inside c g₀ ({ g₂ with shmData := data }, { s.2 with i := i' }) :=
    inside_data hw₂.inside data
  refine wp_modifyCounts hw hin₃ (e := .zero) hentry₂ hhead₃ hroom (by simp only; omega)
    (by simp only; omega) ?_
  have hdf := hw₂.inside.2.dataFree
  refine hR _ i' ⟨hin₃.1, (Nat.sub_le _ _).trans hin₃.2.1, (Nat.sub_le _ _).trans hin₃.2.2,
    (Nat.mod_lt _ hw.size).le, (Nat.mod_lt _ hcnt).le, ?_⟩ ?_ ?_ ?_
  · exact hin₃.2.5.trans (Nat.le_succ _)
  · exact (show UsedOk (numbered { g₂ with shmData := data }) from hw₂.used).set _
      (by simp)
  · show g₂.shmLastSeq + 1 = s.1.shmLastSeq + 1
    omega
  · rw [header_published c _ (by show g₂.shmLastSeq + 1 < 2 ^ 64; omega)]
    have hassert₁ : 0 < (header c g₁).indexFree := by simp only [header]; omega
    have hassert₂ : s.2.buflen ≤ (header c g₂).dataFree := hroom
    have hcs : c.indexCnt < 2 ^ 63 := by omega
    have hss : c.dataSize < 2 ^ 63 := hw.small.trans (by norm_num)
    have holdest : out (Put.oldestIndexI (header c g₁)) true (header c g₁) =
        .ok ((hist.length - k₁) % c.indexCnt, header c g₁) := by
      have hwadd : wadd g₁.shmIdxHead g₁.shmIdxFree = g₁.shmIdxHead + g₁.shmIdxFree := by
        have := hw₁.inside.2.idxHead
        have := hw₁.inside.2.idxFree
        simp only at *
        exact wadd_eq (by omega)
      rw [Put.oldestIndexI, out_umod (show 0 < (header c g₁).indexCnt from hcnt)]
      simp only [header, hwadd, hold]
    -- one line for each statement of the section of `ach_put`
    refine (out_bind_of (out_load true _)).trans ?_
    refine (out_bind_of hout₁).trans ?_
    refine (out_bind_of (out_load true _)).trans ?_
    refine (out_bind_of (out_assert hassert₁ true _)).trans ?_
    refine (out_bind_of holdest).trans ?_
    refine (out_bind_of hout₂).trans ?_
    refine (out_bind_of (out_load true _)).trans ?_
    refine (out_bind_of (out_assert hassert₂ true _)).trans ?_
    refine (out_bind_of hout₃).trans ?_
    rw [show (header c s.1).indexHead = g₂.shmIdxHead from hhead₂.symm]
    have hslot : (header c g₂).index[g₂.shmIdxHead]? = some .zero := by
      simp [header, hentry₂, absIndex, Index.zero, AchIndex.zero]
    have hidx := Nat.mod_lt hist.length hcnt
    refine out_modifyCounts true hslot ?_ hhead₃ hss hroom hdf ?_ hcs ?_ ?_
    · intro _
      show 0 < wadd g₂.shmLastSeq 1
      rw [wadd_eq (by omega)]
      omega
    · show g₂.shmIdxHead < c.indexCnt
      omega
    · show 0 < g₂.shmIdxFree
      omega
    · exact hw₂.inside.2.idxFree

/-- The buffer is filled, with the number of the frame in front. -/
theorem wp_fillBuf (hs : Inside c g₀ s) (hpos : 0 < s.2.buflen)
    (hbuf : s.2.buflen ≤ s.2.buf.length) (hbyte : s.2.buflen < 256)
    (hR : ∀ buf i, buf.length = s.2.buf.length →
      buf.getD 0 0 = UInt8.ofNat (s.1.shmLastSeq + 1) → R (s.1, { s.2 with buf := buf, i := i })) :
    wp (Inside c g₀) Q fillBuf R s := by
  have hlen : 0 < s.2.buf.length := by omega
  refine wp_append (wp_append ?_)
  refine wp_setLoc hs (by simpa using hlen) ?_
  refine wp_setLoc hs rfl ?_
  refine wp_loop (n := s.2.buflen - 1) (fun v t => ∃ buf j, 1 ≤ j ∧ j ≤ s.2.buflen ∧
    v = s.2.buflen - j ∧ buf.length = s.2.buf.length ∧
    buf.getD 0 0 = UInt8.ofNat (s.1.shmLastSeq + 1) ∧ t = (s.1, { s.2 with buf := buf, i := j }))
    ⟨_, 1, le_rfl, hpos, rfl, List.length_set, ?_, rfl⟩ ?_ ?_ ?_
  · rw [List.getD_eq_getElem?_getD, List.getElem?_set_self hlen, Option.getD_some]
  · rintro v t ⟨buf, j, -, -, -, -, -, rfl⟩
    exact hs
  · rintro v t ⟨buf, j, h1, hj, rfl, hl, h0, rfl⟩ hg
    have hjm : j < s.2.buflen := by simpa using hg
    have hstep : trunc 8 ((j : ℤ) + 1) = j + 1 := trunc_eq (by push_cast; rfl) (by omega)
    refine wp_append (wp_setLoc hs (by simp only [decide_eq_true_eq]; omega) ?_)
    refine wp_setLoc hs rfl ⟨s.2.buflen - (j + 1), by omega,
      buf.set j (UInt8.ofInt (s.1.shmLastSeq - j)), j + 1, by omega, hjm, rfl,
      by rw [List.length_set]; exact hl, ?_, by simp only [hstep]⟩
    rw [List.getD_eq_getElem?_getD, List.getElem?_set_ne (by omega), ← List.getD_eq_getElem?_getD]
    exact h0
  · rintro v t ⟨buf, j, -, -, -, hl, h0, rfl⟩ _
    exact wp_done (hR buf j hl h0)

/-! ### The channel after the section -/

theorem putAll_append (dbg : Bool) (cs ds : List PutCall) (shm : AchHeader) :
    putAll dbg (cs ++ ds) shm = (putAll dbg cs shm).bind fun p =>
      (putAll dbg ds p.2).bind fun q => .ok (p.1 ++ q.1, q.2) := by
  induction cs generalizing shm with
  | nil =>
    rw [List.nil_append, putAll, Outcome.bind_ok]
    cases putAll dbg ds shm <;> rfl
  | cons p cs ih =>
    rw [List.cons_append, putAll, putAll]
    cases out (Put.achPut p.chan p.buf p.len) dbg shm with
    | ok x =>
      simp only [Outcome.bind_ok, ih]
      cases putAll dbg cs x.2 with
      | ok y =>
        simp only [Outcome.bind_ok]
        cases putAll dbg ds y.2 <;> rfl
      | _ => rfl
    | _ => rfl

/-- An empty mapped handle. -/
def someChan : AchChannel := ⟨true, 0, 0, 0, false⟩

/-- One more put. -/
theorem putBy_append {g g' : Shm} {buf : ℕ → UInt8} {len : ℕ} (h : PutBy c hist g)
    (hpos : 0 < len) (hfit : len ≤ c.dataSize)
    (hout : out (Put.putCritical buf len) true (header c g) = .ok ((), header c g')) :
    PutBy c (hist ++ [frameOf buf len]) g' := by
  obtain ⟨calls, hrun, hmap⟩ := h
  have hclean : Clean (atRest c g) := ⟨rfl, rfl, ⟨rfl, rfl, rfl, rfl⟩⟩
  have hput : out (Put.achPut someChan (some buf) len) true (atRest c g) = .ok (.ok, atRest c g') :=
    Frame.out_achPut_of_critical hclean (by omega) rfl hfit hout
  refine ⟨calls ++ [⟨someChan, some buf, len⟩], ?_, by simp [hmap]⟩
  rw [putAll_append, hrun, Outcome.bind_ok, putAll, hput]
  simp [putAll, List.replicate_succ']

/-- **The channel after one more frame.** -/
theorem chan_put {g g' : Shm} {buf : ℕ → UInt8} {len : ℕ} (hw : Wide c n) (h : Chan c hist k g)
    (hpos : 0 < len) (hfit : len ≤ c.dataSize) (hseq : hist.length + 1 < 2 ^ 64)
    (hstamp : buf 0 = UInt8.ofNat (hist.length + 1)) (hused : UsedOk g')
    (hout : out (Put.putCritical buf len) true (header c g) = .ok ((), header c g')) :
    ∃ k', Chan c (hist ++ [frameOf buf len]) k' g' := by
  obtain ⟨k', shm', hout', hinv, -⟩ :=
    putCritical_spec true buf h.inv hw.cnt hpos hfit fun _ => hseq
  obtain rfl : header c g' = shm' := by simpa [hout] using hout'
  refine ⟨k', hinv, hused, fun s hs => ?_, putBy_append h.puts hpos hfit hout⟩
  rw [List.length_append, List.length_singleton] at hs
  rcases Nat.lt_or_ge s hist.length with hlt | hge
  · rw [List.getD_append _ _ _ _ hlt]
    exact h.stamped s hlt
  · obtain rfl : s = hist.length := by omega
    rw [List.getD_append_right _ _ _ _ le_rfl, Nat.sub_self]
    simp [frameOf, List.range_eq_range', hpos, hstamp]

/-- **The section of `putter`** puts a frame. -/
theorem wp_putSection {l : Locals} (hw : Wide c n) (h : Chan c hist k g₀)
    (hs : Inside c g₀ ({ g₀ with shmMutex := true }, l)) (hpos : 0 < l.buflen)
    (hmax : l.buflen ≤ c.maxMsgSize) (hbuf : l.buf.length = c.maxMsgSize)
    (hseq : hist.length + 1 < 2 ^ c.seqNumBits) (hlen : hist.length + 1 < 256)
    (hR : ∀ g k' m buf i, Chan c (hist ++ [m]) k' g → Inside c g₀ (g, l) →
      g.shmLastSeq = g₀.shmLastSeq + 1 → buf.length = c.maxMsgSize →
      R (g, { l with buf := buf, i := i })) :
    wp (Inside c g₀) Q (fillBuf ++ achPut c) R ({ g₀ with shmMutex := true }, l) := by
  have hmsg := hw.msg
  have hbyte := hw.msgByte
  have hlast : g₀.shmLastSeq = hist.length % 2 ^ 64 := h.inv.lastSeq
  rw [Nat.mod_eq_of_lt (by omega)] at hlast
  refine wp_append (wp_fillBuf hs hpos (by simp only; omega) (by simp only; omega)
    fun buf i hbl hstamp => ?_)
  refine wp_achPut hw ⟨hs, h.inv.toRep, h.used⟩ (by simp only; omega)
    (by simp only at hbl ⊢; omega) (by simp only; omega) hseq (by omega)
    fun g i' hin hused hnum hout => ?_
  obtain ⟨k', hchan⟩ := chan_put hw h hpos (hmax.trans hmsg) (by omega)
    (by rw [← hlast]; exact hstamp) hused hout
  exact hR g k' _ buf i' hchan hin hnum (hbl.trans hbuf)

end Ach.Spin.Put
