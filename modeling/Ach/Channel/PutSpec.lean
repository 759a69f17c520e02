import Ach.Channel.Invariant

/-! # What `ach_put` does to a channel

On a channel that represents the list `hist` of frames, the critical section of `ach_put` returns
and leaves a channel that represents `hist` with the new frame appended (`putCritical_spec`); the
frames held afterwards are again the longest suffix that fits. The eviction of one frame is
`rep_evict`, the loop `clearOverlapping_spec`, and the last part, after which the new frame is in
the channel, `rep_append`. -/

namespace Ach.Channel.PutSpec

open Ach.Lib.Run Ach.Lib.Word Ach.Lib.Ring Ach.Lib.Suffix
open Ach.Channel.Types Ach.Channel.Lock Ach.Channel.Put Ach.Channel.Invariant

variable {hist : List (List UInt8)} {k : ℕ} {shm : AchHeader}

/-- The part of the block the critical section does not touch. -/
def fixedPart (s : AchHeader) : AchHeader :=
  { s with dataHead := 0, dataFree := 0, indexHead := 0, indexFree := 0, lastSeq := 0,
           index := [], data := [] }

section
variable {s t : AchHeader} (h : fixedPart s = fixedPart t)
include h

theorem indexCnt_of_fixedPart : s.indexCnt = t.indexCnt := by injection h

theorem dataSize_of_fixedPart : s.dataSize = t.dataSize := by injection h

theorem mutex_of_fixedPart : s.mutex = t.mutex := by injection h

theorem dirty_of_fixedPart : s.dirty = t.dirty := by injection h

theorem guardsOk_of_fixedPart : GuardsOk s ↔ GuardsOk t := by
  have h1 : s.magic = t.magic := by injection h
  have h2 : s.guardHeader = t.guardHeader := by injection h
  have h3 : s.guardIndex = t.guardIndex := by injection h
  have h4 : s.guardData = t.guardData := by injection h
  unfold GuardsOk
  rw [h1, h2, h3, h4]

end

/-- The bytes of the frame at `buf`. -/
def frameOf (buf : ℕ → UInt8) (len : ℕ) : List UInt8 := (List.range len).map buf

/-! ### Evicting one frame -/

/-- The block after `free_index` of an entry of the given size. -/
def evict (shm : AchHeader) (i size : ℕ) : AchHeader :=
  { shm with dataFree := shm.dataFree + size, indexFree := shm.indexFree + 1,
             index := shm.index.set i .zero }

theorem out_freeIndex {i : ℕ} {e : AchIndex} (dbg : Bool) (he : shm.index[i]? = some e)
    (hseq : dbg = true → e.seqNum ≠ 0) (hsize : e.size ≠ 0) (hfree : shm.indexFree < shm.indexCnt)
    (hcnt : shm.indexCnt < 2 ^ 63) (hdata : shm.dataFree + e.size < 2 ^ 64) :
    out (freeIndex i) dbg shm = .ok ((), evict shm i e.size) := by
  have hindex : wadd shm.indexFree 1 = shm.indexFree + 1 := wadd_eq (by omega)
  refine (out_bind_of (out_indexAt dbg he)).trans ?_
  refine (out_bind_of (out_assert_of hseq shm)).trans ?_
  refine (out_bind_of (out_assert hsize dbg shm)).trans ?_
  refine (out_bind_of (out_load dbg shm)).trans ?_
  refine (out_bind_of (out_assert hfree dbg shm)).trans ?_
  refine (out_bind_of (out_store _ dbg shm)).trans ?_
  refine (out_bind_of (out_store _ dbg _)).trans ?_
  rw [wadd_eq hdata, hindex]
  exact out_storeFields dbg _ (by exact he)

/-- **Eviction.** Freeing the slot of the oldest frame leaves one frame less. -/
theorem rep_evict (h : Rep hist (k + 1) shm) :
    Rep hist k (evict shm ((hist.length - (k + 1)) % shm.indexCnt)
      (hist.getD (hist.length - (k + 1)) []).length) := by
  have hkh := h.keptHist
  have hkc := h.keptCnt
  have hst := startOf_succ (show hist.length - (k + 1) < hist.length by omega)
  rw [show hist.length - (k + 1) + 1 = hist.length - k by omega] at hst
  refine ⟨h.cntSmall, h.sizeSmall, h.nonempty, by omega, by simp only [evict]; omega, h.lastSeq,
    h.indexHead, ?_, h.dataHead, ?_, by simpa [evict] using h.indexLen, ?_, h.dataLen, ?_⟩
  · have := h.indexFree
    simp only [evict]; omega
  · have := h.dataFree
    simp only [evict]; omega
  · have hrot := h.index.rotate (g := slotOf hist shm.dataSize) rfl (by rw [h.indexLen]; omega)
      (fun _ _ _ => rfl)
    rw [slotOf_ge (by rw [h.indexLen]; omega), h.indexLen] at hrot
    simp only [evict, List.length_set, h.indexLen]
    have e1 : hist.length - (k + 1) + 1 = hist.length - k := by omega
    have e2 : hist.length - (k + 1) + shm.indexCnt + 1 = hist.length - k + shm.indexCnt := by omega
    rwa [e1, e2] at hrot
  · exact h.data.mono (startOf_mono hist (by omega)) le_rfl

/-- `free_index` of the oldest frame. -/
theorem freeIndex_oldest (dbg : Bool) (h : Rep hist (k + 1) shm)
    (hseq : dbg = true → hist.length < 2 ^ 64) :
    out (freeIndex ((hist.length - (k + 1)) % shm.indexCnt)) dbg shm =
      .ok ((), evict shm ((hist.length - (k + 1)) % shm.indexCnt)
        (hist.getD (hist.length - (k + 1)) []).length) := by
  have hkh := h.keptHist
  have hkc := h.keptCnt
  have hlt : hist.length - (k + 1) < hist.length := by omega
  have hslot := h.slot (s := hist.length - (k + 1)) le_rfl hlt
  have hne : hist.getD (hist.length - (k + 1)) [] ≠ [] := by
    rw [List.getD_eq_getElem _ _ hlt]
    exact h.nonempty _ (List.getElem_mem hlt)
  have hbytes : shm.dataFree + (hist.getD (hist.length - (k + 1)) []).length ≤ shm.dataSize := by
    have h1 := h.dataFree
    have h2 := startOf_succ hlt
    have h3 := startOf_le hist (hist.length - (k + 1) + 1)
    omega
  have hs := h.sizeSmall
  have hnum : dbg = true → (hist.length - (k + 1) + 1) % 2 ^ 64 ≠ 0 := fun hd => by
    have := hseq hd
    rw [Nat.mod_eq_of_lt (by omega)]
    omega
  exact out_freeIndex dbg hslot hnum (by simpa using hne)
    (by rw [h.indexFree]; omega) h.cntSmall (by simp only; omega)

@[simp] theorem fixedPart_evict (i size : ℕ) : fixedPart (evict shm i size) = fixedPart shm := rfl

/-! ### The eviction loop -/

/-- The number of free bytes when the last `k` frames of `hist` are held. -/
def freeWith (hist : List (List UInt8)) (dataSize k : ℕ) : ℕ :=
  dataSize + startOf hist (hist.length - k) - hist.flatten.length

theorem Rep.dataFree_eq (h : Rep hist k shm) : shm.dataFree = freeWith hist shm.dataSize k := by
  have := h.dataFree
  unfold freeWith; omega

/-- **The loop** ends, with room for the new frame, and evicts no frame too many. -/
theorem clearOverlapping_spec (dbg : Bool) (len : ℕ) (hseq : dbg = true → hist.length < 2 ^ 64) :
    ∀ (k fuel : ℕ) (shm : AchHeader), Rep hist k shm → len ≤ shm.dataSize → k ≤ fuel →
      k < shm.indexCnt → ∃ k' shm', k' ≤ k ∧
        out (clearOverlapping len fuel ((hist.length - k) % shm.indexCnt)) dbg shm =
          .ok ((), shm') ∧
        Rep hist k' shm' ∧ fixedPart shm' = fixedPart shm ∧ len ≤ shm'.dataFree ∧
        (k' < k → freeWith hist shm.dataSize (k' + 1) < len)
  | 0, fuel, shm, h, hlen, _, _ => by
    have hroom : ¬ shm.dataFree < len := by
      have h1 := h.dataFree
      rw [Nat.sub_zero, startOf_length] at h1
      omega
    refine ⟨0, shm, le_rfl, ?_, h, rfl, by omega, by omega⟩
    cases fuel <;> simp [clearOverlapping, hroom]
  | k + 1, 0, _, _, _, hf, _ => by omega
  | k + 1, fuel + 1, shm, h, hlen, hf, hc => by
    by_cases hroom : shm.dataFree < len
    · have hkh := h.keptHist
      have hcnt := h.cntSmall
      have hhead : (hist.length - (k + 1)) % shm.indexCnt ≠ shm.indexHead := by
        rw [h.indexHead]; exact mod_ne (by omega) (by omega)
      have hnext : wadd ((hist.length - (k + 1)) % shm.indexCnt) 1 % shm.indexCnt =
          (hist.length - k) % shm.indexCnt := by
        have := Nat.mod_lt (hist.length - (k + 1)) (show 0 < shm.indexCnt by omega)
        rw [wadd_eq (by omega), Nat.mod_add_mod, show hist.length - (k + 1) + 1 = hist.length - k by
          omega]
      obtain ⟨k', shm', hk', hout, hrep, hfix, hfree, hmax⟩ :=
        clearOverlapping_spec dbg len hseq k fuel _ (rep_evict h) hlen (by omega)
          (by simp only [evict]; omega)
      refine ⟨k', shm', by omega, ?_, hrep, by rw [hfix, fixedPart_evict], hfree, fun hlt => ?_⟩
      · unfold clearOverlapping
        simp only [out_bind, out_load, Outcome.bind_ok, hroom, if_true, out_assert hhead,
          freeIndex_oldest dbg h hseq, out_umod (show 0 < shm.indexCnt by omega), hnext]
        exact hout
      · rcases Nat.lt_or_ge k' k with h1 | h1
        · exact hmax h1
        · rw [show k' = k by omega, ← Rep.dataFree_eq h]; exact hroom
    · exact ⟨k + 1, shm, le_rfl, by simp [clearOverlapping, hroom], h, rfl, by omega, by omega⟩

/-! ### Copying the frame -/

/-- The byte stream after the frame `m` was accepted. -/
theorem stream_append {m : List UInt8} {p : ℕ} (hp : p < hist.flatten.length) :
    (hist ++ [m]).flatten.getD p 0 = hist.flatten.getD p 0 := by
  rw [List.flatten_append, List.getD_append _ _ _ _ hp]

theorem stream_new (hist : List (List UInt8)) (buf : ℕ → UInt8) {len j : ℕ} (hj : j < len) :
    (hist ++ [frameOf buf len]).flatten.getD (hist.flatten.length + j) 0 = buf j := by
  rw [List.flatten_append, List.getD_append_right _ _ _ _ (by omega), Nat.add_sub_cancel_left,
    List.flatten_cons, List.flatten_nil, List.append_nil,
    List.getD_eq_getElem _ _ (by simpa [frameOf] using hj)]
  simp [frameOf]

/-- A copy depends on the bytes copied only. -/
theorem blit_congr {α : Type} (arr : List α) (off : ℕ) {g f : ℕ → α} :
    ∀ n, (∀ j < n, g j = f j) → blit arr off g n = blit arr off f n := by
  intro n
  induction n with
  | zero =>
    intro _
    rfl
  | succ n ih =>
    intro h
    rw [blit, blit, ih (fun j hj => h j (by omega)), h n (by omega)]

/-- **The copy** puts the bytes of the frame at the end of the window, in one piece or in two. -/
theorem copyIn_spec (dbg : Bool) (buf : ℕ → UInt8) {len : ℕ} (h : Rep hist k shm)
    (hlen : len ≤ shm.dataFree) (hpos : 0 < shm.dataSize) :
    ∃ data, out (copyIn buf len) dbg shm = .ok ((), { shm with data := data }) ∧
      data.length = shm.data.length ∧
      Window data (startOf hist (hist.length - k)) (hist.flatten.length + len)
        fun p => (hist ++ [frameOf buf len]).flatten.getD p 0 := by
  have hs := h.sizeSmall
  have hhead : shm.dataHead < shm.dataSize := by rw [h.dataHead]; exact Nat.mod_lt _ hpos
  have hfree := h.dataFree
  have hle := startOf_le hist (hist.length - k)
  have hsub : wsub shm.dataSize shm.dataHead = shm.dataSize - shm.dataHead :=
    wsub_eq hhead.le (by omega)
  have hend : hist.flatten.length % shm.data.length = shm.dataHead := by
    rw [h.dataLen, h.dataHead]
  -- the window grows by any piece of the frame that does not run over the end
  have hgrow := h.data.blit (g := fun p => (hist ++ [frameOf buf len]).flatten.getD p 0) hle
    (fun p _ hp => stream_append hp)
  rw [h.dataLen, ← h.dataHead] at hgrow
  have hbuf : ∀ n ≤ len, blit shm.data shm.dataHead
      (fun j => (hist ++ [frameOf buf len]).flatten.getD (hist.flatten.length + j) 0) n =
      blit shm.data shm.dataHead buf n := fun n hn =>
    blit_congr _ _ n fun j hj => stream_new hist buf (by omega)
  unfold copyIn
  simp only [out_bind, out_load, Outcome.bind_ok, hsub, out_ite]
  by_cases hfit : len ≤ shm.dataSize - shm.dataHead
  · refine ⟨blit shm.data shm.dataHead buf len, ?_, length_blit _ _ _ _, ?_⟩
    · rw [if_pos hfit, out_memcpyIn dbg _ _ _ (by rw [h.dataLen]; omega)]
    · rw [← hbuf len le_rfl]
      exact hgrow len (by omega) (by omega)
  · set endCnt := shm.dataSize - shm.dataHead with hendCnt
    have hsub2 : wsub len endCnt = len - endCnt := wsub_eq (by omega) (by omega)
    have hw := hgrow endCnt (by omega) (by omega)
    rw [hbuf endCnt (by omega)] at hw
    have hwrap : (hist.flatten.length + endCnt) % shm.dataSize = 0 := by
      rw [hendCnt, h.dataHead]; exact add_sub_mod _ hpos
    have hw2 := hw.blit (g := fun p => (hist ++ [frameOf buf len]).flatten.getD p 0) (by omega)
      (fun _ _ _ => rfl) (len - endCnt) (by rw [length_blit, h.dataLen]; omega)
      (by rw [length_blit, h.dataLen, hwrap]; omega)
    rw [length_blit, h.dataLen, hwrap] at hw2
    rw [blit_congr (f := fun j => buf (endCnt + j)) _ _ _ (fun j hj => by
      rw [Nat.add_assoc]; exact stream_new hist buf (by omega))] at hw2
    refine ⟨_, ?_, ?_, by convert hw2 using 1; omega⟩
    · rw [if_neg hfit, out_memcpyIn dbg _ _ _ (by rw [h.dataLen]; omega), Outcome.bind_ok, hsub2,
        out_memcpyIn dbg _ _ _ (by rw [length_blit, h.dataLen]; omega)]
    · rw [length_blit, length_blit]

/-! ### The frame is in the channel -/

/-- The block after the counters were updated for a frame of length `len` at slot `idx`. -/
def append (shm : AchHeader) (idx len : ℕ) : AchHeader :=
  { shm with lastSeq := wadd shm.lastSeq 1, dataHead := (shm.dataHead + len) % shm.dataSize,
             dataFree := shm.dataFree - len, indexHead := (shm.indexHead + 1) % shm.indexCnt,
             indexFree := shm.indexFree - 1,
             index := shm.index.set idx ⟨len, shm.dataHead, wadd shm.lastSeq 1⟩ }

theorem out_modifyCounts {idx len : ℕ} {e : AchIndex} (dbg : Bool)
    (he : shm.index[idx]? = some e) (hseq : dbg = true → 0 < wadd shm.lastSeq 1)
    (hhead : shm.dataHead < shm.dataSize) (hsize : shm.dataSize < 2 ^ 63)
    (hlen : len ≤ shm.dataFree) (hdf : shm.dataFree ≤ shm.dataSize)
    (hih : shm.indexHead < shm.indexCnt) (hcnt : shm.indexCnt < 2 ^ 63)
    (hif : 0 < shm.indexFree) (hic : shm.indexFree ≤ shm.indexCnt) :
    out (modifyCounts idx len) dbg shm = .ok ((), append shm idx len) := by
  have hdata : wsub shm.dataFree len = shm.dataFree - len := wsub_eq hlen (by omega)
  have hindex : wsub shm.indexFree 1 = shm.indexFree - 1 := wsub_eq hif (by omega)
  unfold modifyCounts
  simp only [out_bind, out_load, out_store, Outcome.bind_ok]
  rw [out_storeFields dbg _ (e := e) (by exact he)]
  simp only [Outcome.bind_ok, List.foldl_cons, List.foldl_nil,
    out_umod (show 0 < shm.dataSize by omega), out_umod (show 0 < shm.indexCnt by omega),
    wadd_eq (show shm.dataHead + len < 2 ^ 64 by omega),
    wadd_eq (show shm.indexHead + 1 < 2 ^ 64 by omega)]
  rw [out_assert (by rw [hindex]; omega), Outcome.bind_ok, out_assert (by rw [hdata]; omega),
    Outcome.bind_ok, out_assert_of hseq, hdata, hindex]
  rfl

/-- **Appending.** Once the bytes of `m` are in the data array, updating the counters makes `m` the
newest frame. -/
theorem rep_append {m : List UInt8} {data : List UInt8} (h : Rep hist k shm) (hm : m ≠ [])
    (hk : k < shm.indexCnt) (hlen : m.length ≤ shm.dataFree) (hdl : data.length = shm.data.length)
    (hw : Window data (startOf hist (hist.length - k)) (hist.flatten.length + m.length)
      fun p => (hist ++ [m]).flatten.getD p 0) :
    Rep (hist ++ [m]) (k + 1) (append { shm with data := data } shm.indexHead m.length) := by
  have hkh := h.keptHist
  have hn : (hist ++ [m]).length - (k + 1) = hist.length - k := by simp
  have hn1 : (hist ++ [m]).length = hist.length + 1 := by simp
  have hst : startOf (hist ++ [m]) (hist.length - k) = startOf hist (hist.length - k) :=
    startOf_append (by omega)
  refine ⟨h.cntSmall, h.sizeSmall, ?_, by omega, by simp only [append]; omega, ?_, ?_, ?_, ?_, ?_,
    by simpa [append] using h.indexLen, ?_, by rw [← h.dataLen, ← hdl]; rfl, ?_⟩
  · intro f hf
    rcases List.mem_append.mp hf with hf | hf
    · exact h.nonempty f hf
    · rw [List.mem_singleton.mp hf]; exact hm
  · simp only [append]; rw [hn1, h.lastSeq, wadd, Nat.mod_add_mod]
  · simp only [append]; rw [hn1, h.indexHead, Nat.mod_add_mod]
  · simp only [append]; rw [h.indexFree]; omega
  · simp only [append]; rw [length_flatten_append, h.dataHead, Nat.mod_add_mod]
  · have := h.dataFree
    simp only [append]; rw [length_flatten_append, hn, hst]
    omega
  · have hupd := h.index.update (g := slotOf (hist ++ [m]) shm.dataSize) (q := hist.length)
      (by omega) (by have := h.indexLen; omega) (fun p _ _ hp => slotOf_append hp)
    have hentry : slotOf (hist ++ [m]) shm.dataSize hist.length =
        ⟨m.length, shm.dataHead, wadd shm.lastSeq 1⟩ := by
      rw [slotOf_lt (by omega), startOf_append le_rfl, startOf_length, h.lastSeq, h.dataHead, wadd,
        Nat.mod_add_mod]
      simp
    rw [hentry, h.indexLen, ← h.indexHead] at hupd
    simp only [append]
    rw [hn, List.length_set, h.indexLen]
    exact hupd
  · simp only [append]
    rw [hn, hst, length_flatten_append]
    exact hw

@[simp] theorem fixedPart_append (idx len : ℕ) (data : List UInt8) :
    fixedPart (append { shm with data := data } idx len) = fixedPart shm := rfl

/-! ### The critical section -/

/-- **The invariant between calls:** the frames held are the longest suffix that fits. -/
structure Inv (hist : List (List UInt8)) (kept : ℕ) (shm : AchHeader) : Prop extends
    Rep hist kept shm where
  keptPos : hist ≠ [] → 0 < kept
  longest : Longest (FitsIn shm.indexCnt shm.dataSize) hist (held hist kept)

/-- Clearing the head slot evicts the oldest frame if the index is full. -/
theorem clearHead_spec (dbg : Bool) (h : Rep hist k shm) (hcnt : 0 < shm.indexCnt)
    (hseq : dbg = true → hist.length < 2 ^ 64) :
    ∃ k' shm', out clearHead dbg shm = .ok ((), shm') ∧ Rep hist k' shm' ∧
      fixedPart shm' = fixedPart shm ∧ k' ≤ k ∧ k' < shm.indexCnt ∧
      (k' < k → k' + 1 = shm.indexCnt) := by
  have hkc := h.keptCnt
  have hkh := h.keptHist
  have hfree := h.indexFree
  unfold clearHead
  by_cases hfull : shm.indexFree = 0
  · obtain ⟨j, rfl⟩ : ∃ j, k = j + 1 := ⟨k - 1, by omega⟩
    have hpos : shm.indexHead = (hist.length - (j + 1)) % shm.indexCnt := by
      rw [h.indexHead, show hist.length = hist.length - (j + 1) + shm.indexCnt by omega,
        Nat.add_mod_right]
      congr 1
      omega
    refine ⟨j, _, ?_, rep_evict h, rfl, by omega, by omega, by omega⟩
    simp only [out_bind, out_load, Outcome.bind_ok, hfull, if_true]
    rw [hpos]
    exact freeIndex_oldest dbg h hseq
  · have hslot := h.freeSlot (s := hist.length) le_rfl (by omega)
    rw [← h.indexHead] at hslot
    refine ⟨k, shm, ?_, h, rfl, le_rfl, by omega, by omega⟩
    simp only [out_bind, out_load, Outcome.bind_ok, hfull, if_false, out_indexAt dbg hslot]
    exact out_assert rfl dbg shm

/-- Evicting no more than needed keeps the longest suffix that fits. -/
theorem longest_append {kept k₁ k₂ cnt size len : ℕ} {m : List UInt8}
    (h : Longest (FitsIn cnt size) hist (held hist kept)) (hkept : kept ≤ hist.length)
    (hm : m.length = len) (h1 : k₁ ≤ kept) (h1c : k₁ < cnt) (h1max : k₁ < kept → k₁ + 1 = cnt)
    (h2 : k₂ ≤ k₁) (hroom : len ≤ freeWith hist size k₂)
    (hsize : hist.flatten.length ≤ startOf hist (hist.length - k₂) + size)
    (h2max : k₂ < k₁ → freeWith hist size (k₂ + 1) < len) :
    Longest (FitsIn cnt size) (hist ++ [m]) (held (hist ++ [m]) (k₂ + 1)) := by
  have hnew : held (hist ++ [m]) (k₂ + 1) = held hist k₂ ++ [m] := by
    unfold held
    rw [List.length_append, List.length_singleton, Nat.add_sub_add_right,
      List.drop_append_of_le_length (by omega)]
  have hbytes := length_flatten_drop hist (hist.length - k₂)
  rw [hnew]
  refine h.append (fitsIn_hereditary _ _) ?_ ?_ fun a ha hfit => ?_
  · refine List.suffix_of_suffix_length_le (List.drop_suffix _ _) (List.drop_suffix _ _) ?_
    unfold held
    rw [List.length_drop, List.length_drop]; omega
  · unfold freeWith at hroom
    refine ⟨by simp only [held, List.length_append, List.length_drop, List.length_singleton]; omega,
      ?_⟩
    rw [length_flatten_append, held]; omega
  · -- one more frame: either a frame too many, or too many bytes
    obtain ⟨hlen, hfl⟩ := hfit
    have hal := ha.length_le
    simp only [held, List.length_cons, List.length_drop, List.length_append] at hlen hal
    rcases Nat.lt_or_ge k₂ k₁ with hlt | hge
    · have hcons : a :: held hist k₂ = held hist (k₂ + 1) := by
        have hsuf : a :: held hist k₂ <:+ hist := ha.trans (List.drop_suffix _ _)
        refine List.IsSuffix.eq_of_length
          (List.suffix_of_suffix_length_le hsuf (List.drop_suffix _ _) ?_) ?_ <;>
        · simp only [held, List.length_cons, List.length_drop]; omega
      have hb := length_flatten_drop hist (hist.length - (k₂ + 1))
      rw [hcons, length_flatten_append, held] at hfl
      have := h2max hlt
      unfold freeWith at this
      omega
    · omega

/-- **The critical section of `ach_put`.** A build with asserts stops at the frame with number
`2 ^ 64`; a build without them goes on. -/
theorem putCritical_spec (dbg : Bool) (buf : ℕ → UInt8) {kept len : ℕ} (h : Inv hist kept shm)
    (hcnt : 0 < shm.indexCnt) (hpos : 0 < len) (hlen : len ≤ shm.dataSize)
    (hseq : dbg = true → hist.length + 1 < 2 ^ 64) :
    ∃ kept' shm', out (putCritical buf len) dbg shm = .ok ((), shm') ∧
      Inv (hist ++ [frameOf buf len]) kept' shm' ∧ fixedPart shm' = fixedPart shm := by
  have hml : (frameOf buf len).length = len := by simp [frameOf]
  have hseq' : dbg = true → hist.length < 2 ^ 64 := fun hd => Nat.lt_of_succ_lt (hseq hd)
  obtain ⟨k₁, shm₁, hout₁, hrep₁, hfix₁, hk₁, hk₁c, hk₁max⟩ :=
    clearHead_spec dbg h.toRep hcnt hseq'
  have hcnt₁ : shm₁.indexCnt = shm.indexCnt := indexCnt_of_fixedPart hfix₁
  have hsize₁ : shm₁.dataSize = shm.dataSize := dataSize_of_fixedPart hfix₁
  obtain ⟨k₂, shm₂, hk₂, hout₂, hrep₂, hfix₂, hroom, hk₂max⟩ := clearOverlapping_spec dbg
    len hseq' k₁ shm₁.indexCnt shm₁ hrep₁ (by omega) (by omega) (by omega)
  have hcnt₂ : shm₂.indexCnt = shm₁.indexCnt := indexCnt_of_fixedPart hfix₂
  have hsize₂ : shm₂.dataSize = shm₁.dataSize := dataSize_of_fixedPart hfix₂
  obtain ⟨data, hout₃, hdl, hw⟩ := copyIn_spec dbg buf hrep₂ hroom (by omega)
  have hfree₁ := hrep₁.indexFree
  have hfree₂ := hrep₂.indexFree
  have hcs := hrep₂.cntSmall
  have hss := hrep₂.sizeSmall
  have hold : wadd shm₁.indexHead shm₁.indexFree % shm₁.indexCnt =
      (hist.length - k₁) % shm₁.indexCnt := by
    have hlt := Nat.mod_lt hist.length (show 0 < shm₁.indexCnt by omega)
    have hkh := hrep₁.keptHist
    rw [hrep₁.indexHead, wadd_eq (by omega), Nat.mod_add_mod, hfree₁,
      show hist.length + (shm₁.indexCnt - k₁) = hist.length - k₁ + shm₁.indexCnt by omega,
      Nat.add_mod_right]
  have hhead : shm₂.indexHead = shm.indexHead := by
    rw [hrep₂.indexHead, h.indexHead, hcnt₂, hcnt₁]
  have hslot := hrep₂.freeSlot (s := hist.length) le_rfl (by omega)
  rw [← hrep₂.indexHead] at hslot
  refine ⟨k₂ + 1, append { shm₂ with data := data } shm₂.indexHead len, ?_, ?_, ?_⟩
  · have hfree : 0 < shm₁.indexFree := by omega
    have hpos₁ : 0 < shm₁.indexCnt := by omega
    have holdest : out (oldestIndexI shm₁) dbg shm₁ =
        .ok ((hist.length - k₁) % shm₁.indexCnt, shm₁) := by
      rw [oldestIndexI, out_umod hpos₁, hold]
    -- one line for each statement of the critical section, in the order of the source
    refine (out_bind_of (out_load dbg shm)).trans ?_
    refine (out_bind_of hout₁).trans ?_
    refine (out_bind_of (out_load dbg shm₁)).trans ?_
    refine (out_bind_of (out_assert hfree dbg shm₁)).trans ?_
    refine (out_bind_of holdest).trans ?_
    refine (out_bind_of hout₂).trans ?_
    refine (out_bind_of (out_load dbg shm₂)).trans ?_
    refine (out_bind_of (out_assert hroom dbg shm₂)).trans ?_
    refine (out_bind_of hout₃).trans ?_
    rw [← hhead]
    have hdf := hrep₂.startOf_le_dataSize
    have hdf' := hrep₂.dataFree
    have hsl := startOf_le hist (hist.length - k₂)
    refine out_modifyCounts dbg hslot ?_ ?_ ?_ hroom ?_ ?_ ?_ ?_ ?_
    · intro hd
      have := hseq hd
      show 0 < wadd shm₂.lastSeq 1
      rw [hrep₂.lastSeq, wadd, Nat.mod_add_mod, Nat.mod_eq_of_lt this]
      exact Nat.succ_pos _
    · show shm₂.dataHead < shm₂.dataSize
      rw [hrep₂.dataHead]; exact Nat.mod_lt _ (by omega)
    · exact hss
    · show shm₂.dataFree ≤ shm₂.dataSize
      omega
    · show shm₂.indexHead < shm₂.indexCnt
      rw [hrep₂.indexHead]; exact Nat.mod_lt _ (by omega)
    · exact hcs
    · show 0 < shm₂.indexFree
      omega
    · show shm₂.indexFree ≤ shm₂.indexCnt
      omega
  · have hrep := rep_append (m := frameOf buf len) hrep₂
      (by rw [← List.length_pos_iff, hml]; exact hpos) (by omega) (by omega) hdl
        (by rw [hml]; exact hw)
    rw [hml] at hrep
    refine ⟨hrep, fun _ => Nat.succ_pos k₂, ?_⟩
    show Longest (FitsIn shm₂.indexCnt shm₂.dataSize) _ _
    rw [hcnt₂, hsize₂, hcnt₁, hsize₁]
    have hdf := hrep₂.startOf_le_dataSize
    rw [hsize₂, hsize₁] at hdf
    refine longest_append h.longest h.keptHist hml hk₁ hk₁c hk₁max hk₂ ?_ hdf ?_
    · rw [← hsize₁, ← hsize₂, ← Rep.dataFree_eq hrep₂]; exact hroom
    · rw [← hsize₁]; exact hk₂max
  · rw [fixedPart_append, hfix₂, hfix₁]

/-! ### The call -/

/-- The invariant says nothing about the mutex and the dirty flag. -/
theorem Inv.sync (h : Inv hist kept shm) (m : Mutex) (d : Bool) :
    Inv hist kept { shm with mutex := m, dirty := d } :=
  ⟨⟨h.cntSmall, h.sizeSmall, h.nonempty, h.keptHist, h.keptCnt, h.lastSeq, h.indexHead, h.indexFree,
    h.dataHead, h.dataFree, h.indexLen, h.index, h.dataLen, h.data⟩, h.keptPos, h.longest⟩

theorem clean_of_fixedPart {s t : AchHeader} (h : fixedPart s = fixedPart t) (ht : Clean t) :
    Clean s :=
  ⟨by rw [mutex_of_fixedPart h, ht.mutex], by rw [dirty_of_fixedPart h, ht.dirty],
    (guardsOk_of_fixedPart h).mpr ht.guards⟩

/-- **An accepted `ach_put`** appends its frame. -/
theorem achPut_spec (dbg : Bool) {chan : AchChannel} (buf : ℕ → UInt8) {len : ℕ}
    (h : Inv hist kept shm) (hc : Clean shm) (hmap : chan.mapped = true) (hcnt : 0 < shm.indexCnt)
    (hpos : 0 < len) (hlen : len ≤ shm.dataSize) (hseq : dbg = true → hist.length + 1 < 2 ^ 64) :
    ∃ kept' shm', out (achPut chan (some buf) len) dbg shm = .ok (.ok, shm') ∧
      Inv (hist ++ [frameOf buf len]) kept' shm' ∧ fixedPart shm' = fixedPart shm := by
  obtain ⟨kept', shm', hout, hinv, hfix⟩ :=
    putCritical_spec dbg buf (h.sync .held true) hcnt hpos hlen hseq
  have hm : shm'.mutex = .held := mutex_of_fixedPart hfix
  have hd : shm'.dirty = true := dirty_of_fixedPart hfix
  refine ⟨kept', _, ?_, hinv.sync .free false, ?_⟩
  · have hg : checkGuards shm = .ok := if_pos hc.guards
    unfold achPut
    simp only [show ¬ (len = 0 ∨ chan.mapped = false) by simp [hmap]; omega, if_false, out_bind,
      out_load, Outcome.bind_ok, hg, ne_eq, not_true_eq_false, out_ite,
      show ¬ shm.dataSize < len by omega, out_wrlock dbg hc.mutex hc.dirty]
    rw [hout, Outcome.bind_ok]
    exact out_unwrlock dbg hm hd
  · have h1 : fixedPart { shm' with mutex := .free, dirty := false } =
        { fixedPart shm' with mutex := .free, dirty := false } := rfl
    have h2 : fixedPart shm = { fixedPart { shm with mutex := .held, dirty := true } with
        mutex := .free, dirty := false } := by
      simp [fixedPart, hc.mutex, hc.dirty]
    rw [h1, hfix, h2]

end Ach.Channel.PutSpec
