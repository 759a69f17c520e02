import Ach.Channel.History
import Mathlib.Order.CompletePartialOrder

/-! # Eviction is safe and ends

`ach_put` frees the entry in the head slot if the index is full, and then entries from the oldest
one on until the data array has room. The loop looks at the number of free bytes only. It ends
because freeing every entry frees every byte: at loop entry `index_cnt - index_free` entries are
used, each round frees one of them, and the head slot is not among them.

`freeCalls` lists the calls of `free_index` that an `ach_put` makes, each with the slot and the
block it is made on, and `copyRanges` the ranges of the data array that it writes. -/

namespace Ach.Channel.Evict

open Ach.Lib.Run Ach.Lib.Word Ach.Lib.Ring
open Ach.Channel.Types Ach.Channel.Lock Ach.Channel.Put Ach.Channel.Create
open Ach.Channel.Invariant Ach.Channel.PutSpec Ach.Channel.GetSpec Ach.Channel.History

variable {hist : List (List UInt8)} {k : ℕ} {shm : AchHeader}

/-! ### The calls of `free_index` -/

/-- The call made to clear the head slot. -/
def headCalls (shm : AchHeader) : List (ℕ × AchHeader) :=
  if shm.indexFree = 0 then [(shm.indexHead, shm)] else []

/-- The calls made in the rounds of the loop. -/
def loopCalls (dbg : Bool) (len : ℕ) : ℕ → ℕ → AchHeader → List (ℕ × AchHeader)
  | 0, _, _ => []
  | n + 1, i, shm =>
    if shm.dataFree < len then
      (i, shm) :: match out (freeIndex i) dbg shm with
        | .ok p => loopCalls dbg len n (wadd i 1 % shm.indexCnt) p.2
        | _ => []
    else []

/-- A call that frees a used entry of non-zero size, with the index not empty. -/
def Freeable (c : ℕ × AchHeader) : Prop :=
  ∃ e, c.2.index[c.1]? = some e ∧ e.seqNum ≠ 0 ∧ e.size ≠ 0 ∧ c.2.indexFree < c.2.indexCnt

/-- The entry of the oldest frame is used. -/
theorem freeable_oldest (h : Rep hist (k + 1) shm) (hseq : hist.length < 2 ^ 64) :
    Freeable ((hist.length - (k + 1)) % shm.indexCnt, shm) := by
  have hkh := h.keptHist
  have hkc := h.keptCnt
  have hfree := h.indexFree
  have hlt : hist.length - (k + 1) < hist.length := by omega
  have hne : 0 < (hist.getD (hist.length - (k + 1)) []).length := by
    rw [List.getD_eq_getElem _ _ hlt]
    exact List.length_pos_iff.mpr (h.nonempty _ (List.getElem_mem hlt))
  refine ⟨_, Rep.numbered h hseq le_rfl hlt, ?_, ?_, ?_⟩
  · simp only
    omega
  · simp only
    omega
  · simp only
    omega

theorem freeable_head (h : Rep hist k shm) (hcnt : 0 < shm.indexCnt) (hseq : hist.length < 2 ^ 64) :
    ∀ c ∈ headCalls shm, Freeable c := by
  intro c hc
  unfold headCalls at hc
  split_ifs at hc with hfull
  · obtain rfl : c = (shm.indexHead, shm) := by simpa using hc
    have hfree := h.indexFree
    have hkc := h.keptCnt
    have hkh := h.keptHist
    obtain ⟨j, rfl⟩ : ∃ j, k = j + 1 := ⟨k - 1, by omega⟩
    have hpos : shm.indexHead = (hist.length - (j + 1)) % shm.indexCnt := by
      rw [h.indexHead, show hist.length = hist.length - (j + 1) + shm.indexCnt by omega,
        Nat.add_mod_right]
      congr 1
      omega
    rw [hpos]
    exact freeable_oldest h hseq
  · simp at hc

/-- **The rounds of the loop**, by induction on the number of entries that are used: there are at
most so many rounds, none of them at the head slot, and each one frees a used entry. -/
theorem loopCalls_spec (dbg : Bool) (len : ℕ) (hseq : hist.length < 2 ^ 64) :
    ∀ (fuel k : ℕ) (shm : AchHeader), Rep hist k shm → len ≤ shm.dataSize → k < shm.indexCnt →
      (loopCalls dbg len fuel ((hist.length - k) % shm.indexCnt) shm).length ≤ k ∧
      ∀ c ∈ loopCalls dbg len fuel ((hist.length - k) % shm.indexCnt) shm,
        c.1 ≠ c.2.indexHead ∧ Freeable c := by
  intro fuel
  induction fuel with
  | zero =>
    intro k shm _ _ _
    simp [loopCalls]
  | succ fuel ih =>
    intro k shm h hlen hk
    by_cases hroom : shm.dataFree < len
    · -- without a used entry every byte would be free
      obtain ⟨j, rfl⟩ : ∃ j, k = j + 1 := by
        refine ⟨k - 1, ?_⟩
        by_contra h0
        obtain rfl : k = 0 := by omega
        have hfree := h.dataFree
        rw [Nat.sub_zero, startOf_length] at hfree
        omega
      have hkh := h.keptHist
      have hcs := h.cntSmall
      have hhead : (hist.length - (j + 1)) % shm.indexCnt ≠ shm.indexHead := by
        rw [h.indexHead]
        exact mod_ne (by omega) (by omega)
      have hnext : wadd ((hist.length - (j + 1)) % shm.indexCnt) 1 % shm.indexCnt =
          (hist.length - j) % shm.indexCnt := by
        have := Nat.mod_lt (hist.length - (j + 1)) (show 0 < shm.indexCnt by omega)
        rw [wadd_eq (by omega), Nat.mod_add_mod, show hist.length - (j + 1) + 1 = hist.length - j by
          omega]
      have hrest := ih j _ (rep_evict h) hlen (show j < shm.indexCnt by omega)
      have hcalls : loopCalls dbg len (fuel + 1) ((hist.length - (j + 1)) % shm.indexCnt) shm =
          ((hist.length - (j + 1)) % shm.indexCnt, shm) ::
            loopCalls dbg len fuel ((hist.length - j) % shm.indexCnt)
              (evict shm ((hist.length - (j + 1)) % shm.indexCnt)
                (hist.getD (hist.length - (j + 1)) []).length) := by
        rw [loopCalls, if_pos hroom, freeIndex_oldest dbg h fun _ => hseq, hnext]
      rw [hcalls]
      constructor
      · have := hrest.1
        rw [List.length_cons]
        exact Nat.succ_le_succ this
      · rintro c hc
        rcases List.mem_cons.mp hc with rfl | hc
        · exact ⟨hhead, freeable_oldest h hseq⟩
        · exact hrest.2 c hc
    · rw [loopCalls, if_neg hroom]
      simp

/-! ### The ranges that are written -/

/-- The ranges of the data array that the copy writes: the first position and the length of each. -/
def copyRanges (shm : AchHeader) (len : ℕ) : List (ℕ × ℕ) :=
  if len ≤ shm.dataSize - shm.dataHead then [(shm.dataHead, len)]
  else [(shm.dataHead, shm.dataSize - shm.dataHead), (0, len - (shm.dataSize - shm.dataHead))]

/-- The positions of the data array that hold the bytes of an entry. -/
def bytesOf (dataSize : ℕ) (e : AchIndex) : Set ℕ :=
  {p | ∃ j < e.size, p = (e.offset + j) % dataSize}

/-- A position that is written is that of a byte after the last one accepted. -/
theorem exists_of_mem_copyRanges {len p : ℕ} {r : ℕ × ℕ} (h : Rep hist k shm)
    (hsize : 0 < shm.dataSize) (hr : r ∈ copyRanges shm len) (h1 : r.1 ≤ p) (h2 : p < r.1 + r.2)
    (hlen : len ≤ shm.dataSize) :
    ∃ j < len, p = (hist.flatten.length + j) % shm.dataSize := by
  have hhead := h.dataHead
  have hlt : shm.dataHead < shm.dataSize := by rw [hhead]; exact Nat.mod_lt _ hsize
  -- a position from the head on is that many bytes after the last one accepted
  have hat : ∀ j, (hist.flatten.length + j) % shm.dataSize = (shm.dataHead + j) % shm.dataSize := by
    intro j
    rw [hhead, Nat.mod_add_mod]
  unfold copyRanges at hr
  split_ifs at hr with hfit
  · obtain rfl : r = (shm.dataHead, len) := by simpa using hr
    simp only at h1 h2
    refine ⟨p - shm.dataHead, by omega, ?_⟩
    rw [hat, Nat.mod_eq_of_lt (by omega)]
    omega
  · rcases List.mem_cons.mp hr with rfl | hr
    · simp only at h1 h2
      refine ⟨p - shm.dataHead, by omega, ?_⟩
      rw [hat, Nat.mod_eq_of_lt (by omega)]
      omega
    · obtain rfl : r = (0, len - (shm.dataSize - shm.dataHead)) := by simpa using hr
      simp only at h1 h2
      refine ⟨shm.dataSize - shm.dataHead + p, by omega, ?_⟩
      rw [hat, show shm.dataHead + (shm.dataSize - shm.dataHead + p) = p + shm.dataSize by omega,
        Nat.add_mod_right, Nat.mod_eq_of_lt (by omega)]

/-- **The copy writes to no byte of a frame that is held.** -/
theorem copyRanges_disjoint {len : ℕ} {r : ℕ × ℕ} {e : AchIndex} (h : Rep hist k shm)
    (hseq : hist.length < 2 ^ 64) (hlen : len ≤ shm.dataFree) (hr : r ∈ copyRanges shm len)
    (he : e ∈ shm.index) (hused : e.seqNum ≠ 0) :
    Disjoint (Set.Ico r.1 (r.1 + r.2)) (bytesOf shm.dataSize e) := by
  rw [Set.disjoint_left]
  rintro p ⟨h1, h2⟩ ⟨j, hj, hp⟩
  obtain ⟨i, hi, rfl⟩ := List.getElem_of_mem he
  have hil := h.indexLen
  obtain ⟨e', he', hcase⟩ := Rep.slot_cases h hseq (show i < shm.indexCnt by omega)
  rw [List.getElem?_eq_getElem hi, Option.some.injEq] at he'
  rcases hcase with h0 | ⟨s, -, rfl, hlo, hhi⟩
  · rw [← he'] at h0
    exact hused h0
  · have hslot := Rep.numbered h hseq hlo hhi
    rw [List.getElem?_eq_getElem hi, Option.some.injEq] at hslot
    rw [hslot] at hj hp
    simp only at hj hp
    have hstart := startOf_mono hist hlo
    have hsucc := startOf_succ hhi
    have hle := startOf_le hist (s + 1)
    have hfree := h.dataFree
    have hsl := startOf_le hist (hist.length - k)
    have hwin := h.startOf_le_dataSize
    obtain ⟨j', hj', hp'⟩ := exists_of_mem_copyRanges h (by omega) hr h1 h2 (by omega)
    rw [Nat.mod_add_mod] at hp
    exact mod_ne (show startOf hist s + j < hist.flatten.length + j' by omega) (by omega)
      (hp.symm.trans hp')

/-- A position outside the range copied to stays as it is. -/
theorem getElem?_blit {arr : List UInt8} {off p : ℕ} (g : ℕ → UInt8) {n : ℕ}
    (hp : p ∉ Set.Ico off (off + n)) : (blit arr off g n)[p]? = arr[p]? := by
  induction n with
  | zero =>
    rfl
  | succ n ih =>
    simp only [Set.mem_Ico, not_and] at hp ih
    rw [blit, List.getElem?_set_ne (by omega), ih (by omega)]

/-- **The copy** writes to the ranges only. -/
theorem copyIn_ranges (dbg : Bool) (buf : ℕ → UInt8) {len : ℕ} (h : Rep hist k shm)
    (hlen : len ≤ shm.dataSize) (hsize : 0 < shm.dataSize) :
    ∃ data, out (copyIn buf len) dbg shm = .ok ((), { shm with data := data }) ∧
      ∀ p, (∀ r ∈ copyRanges shm len, p ∉ Set.Ico r.1 (r.1 + r.2)) → data[p]? = shm.data[p]? := by
  have hss := h.sizeSmall
  have hdl := h.dataLen
  have hhead : shm.dataHead < shm.dataSize := by rw [h.dataHead]; exact Nat.mod_lt _ hsize
  have hsub : wsub shm.dataSize shm.dataHead = shm.dataSize - shm.dataHead :=
    wsub_eq hhead.le (by omega)
  unfold copyIn copyRanges
  simp only [out_bind, out_load, Outcome.bind_ok, hsub, out_ite]
  by_cases hfit : len ≤ shm.dataSize - shm.dataHead
  · refine ⟨blit shm.data shm.dataHead buf len, ?_, fun p hp => ?_⟩
    · rw [if_pos hfit, out_memcpyIn dbg _ _ _ (by omega)]
    · rw [if_pos hfit] at hp
      exact getElem?_blit buf (hp (shm.dataHead, len) (by simp))
  · have hrest : wsub len (shm.dataSize - shm.dataHead) = len - (shm.dataSize - shm.dataHead) :=
      wsub_eq (by omega) (by omega)
    refine ⟨blit (blit shm.data shm.dataHead buf (shm.dataSize - shm.dataHead)) 0
      (fun j => buf (shm.dataSize - shm.dataHead + j)) (len - (shm.dataSize - shm.dataHead)), ?_,
      fun p hp => ?_⟩
    · rw [if_neg hfit, out_memcpyIn dbg _ _ _ (by omega), Outcome.bind_ok, hrest,
        out_memcpyIn dbg _ _ _ (by rw [length_blit]; omega)]
    · rw [if_neg hfit] at hp
      rw [getElem?_blit _ (hp (0, len - (shm.dataSize - shm.dataHead)) (by simp)),
        getElem?_blit buf (hp (shm.dataHead, shm.dataSize - shm.dataHead) (by simp))]

/-! ### A put -/

/-- **A safe eviction** for a frame of length `len`, from the block `s₀` on which the lock was
taken: `s₁` is the block at loop entry, `i` the slot the loop starts at and `s₂` the block that the
frame is copied to. -/
structure SafeEviction (dbg : Bool) (buf : ℕ → UInt8) (len : ℕ) (s₀ s₁ s₂ : AchHeader) (i : ℕ) :
    Prop where
  head : out clearHead dbg s₀ = .ok ((), s₁)
  oldest : out (oldestIndexI s₁) dbg s₁ = .ok (i, s₁)
  /-- The loop needs no more rounds than there are used entries at loop entry. -/
  loop : ∀ fuel, s₁.indexCnt - s₁.indexFree ≤ fuel →
    out (clearOverlapping len fuel i) dbg s₁ = .ok ((), s₂)
  rounds : ∀ fuel, (loopCalls dbg len fuel i s₁).length ≤ s₁.indexCnt - s₁.indexFree
  notHead : ∀ fuel, ∀ c ∈ loopCalls dbg len fuel i s₁, c.1 ≠ c.2.indexHead
  frees : ∀ fuel, ∀ c ∈ headCalls s₀ ++ loopCalls dbg len fuel i s₁, Freeable c
  noUnderflow : s₂.dataHead ≤ s₂.dataSize ∧ len ≤ s₂.dataFree ∧ 1 ≤ s₂.indexFree
  copy : ∃ data, out (copyIn buf len) dbg s₂ = .ok ((), { s₂ with data := data }) ∧
    ∀ p, (∀ r ∈ copyRanges s₂ len, p ∉ Set.Ico r.1 (r.1 + r.2)) → data[p]? = s₂.data[p]?
  inside : ∀ r ∈ copyRanges s₂ len, r.1 + r.2 ≤ s₂.data.length
  disjoint : ∀ r ∈ copyRanges s₂ len, ∀ e ∈ s₂.index, e.seqNum ≠ 0 →
    Disjoint (Set.Ico r.1 (r.1 + r.2)) (bytesOf s₂.dataSize e)

theorem copyRanges_inside {len : ℕ} (hhead : shm.dataHead ≤ shm.dataSize)
    (hlen : len ≤ shm.dataSize) : ∀ r ∈ copyRanges shm len, r.1 + r.2 ≤ shm.dataSize := by
  intro r hr
  unfold copyRanges at hr
  split_ifs at hr with hfit
  · obtain rfl : r = (shm.dataHead, len) := by simpa using hr
    simp only
    omega
  · rcases List.mem_cons.mp hr with rfl | hr
    · simp only
      omega
    · obtain rfl : r = (0, len - (shm.dataSize - shm.dataHead)) := by simpa using hr
      simp only
      omega

/-- A loop that ends does the same under a larger bound on its rounds. -/
theorem clearOverlapping_mono {dbg : Bool} {len n m : ℕ} (hnm : n ≤ m) :
    ∀ (i : ℕ) (s : AchHeader) (p : Unit × AchHeader),
      out (clearOverlapping len n i) dbg s = .ok p →
        out (clearOverlapping len m i) dbg s = .ok p := by
  induction n generalizing m with
  | zero =>
    intro i s p h
    rw [clearOverlapping, out_bind, out_load, Outcome.bind_ok] at h
    split_ifs at h with hroom
    · simp at h
    · cases m with
      | zero => rwa [clearOverlapping, out_bind, out_load, Outcome.bind_ok, if_neg hroom]
      | succ m => rwa [clearOverlapping, out_bind, out_load, Outcome.bind_ok, if_neg hroom]
  | succ n ih =>
    intro i s p h
    obtain ⟨m, rfl⟩ : ∃ l, m = l + 1 := ⟨m - 1, by omega⟩
    rw [clearOverlapping, out_bind, out_load, Outcome.bind_ok] at h ⊢
    split_ifs at h ⊢ with hroom
    · simp only [out_bind] at h ⊢
      obtain ⟨a, ha, h⟩ := Outcome.bind_eq_ok.mp h
      obtain ⟨b, hb, h⟩ := Outcome.bind_eq_ok.mp h
      obtain ⟨c, hc, h⟩ := Outcome.bind_eq_ok.mp h
      rw [ha, Outcome.bind_ok, hb, Outcome.bind_ok, hc, Outcome.bind_ok]
      exact ih (by omega) _ _ _ h
    · exact h

/-- Eviction is safe on every channel that represents a list of frames. -/
theorem safeEviction (dbg : Bool) (buf : ℕ → UInt8) {len : ℕ} (h : Rep hist k shm)
    (hcnt : 0 < shm.indexCnt) (hpos : 1 ≤ len) (hlen : len ≤ shm.dataSize)
    (hseq : hist.length < 2 ^ 64) : ∃ s₁ s₂ i, SafeEviction dbg buf len shm s₁ s₂ i := by
  obtain ⟨k₁, s₁, hout₁, hrep₁, hfix₁, -, hk₁c, -⟩ := clearHead_spec dbg h hcnt fun _ => hseq
  have hcnt₁ : s₁.indexCnt = shm.indexCnt := indexCnt_of_fixedPart hfix₁
  have hsize₁ : s₁.dataSize = shm.dataSize := dataSize_of_fixedPart hfix₁
  have hfree₁ := hrep₁.indexFree
  have hused : s₁.indexCnt - s₁.indexFree = k₁ := by omega
  obtain ⟨k₂, s₂, hk₂, hout₂, hrep₂, hfix₂, hroom, -⟩ := clearOverlapping_spec dbg len
    (fun _ => hseq) k₁ k₁ s₁ hrep₁ (by omega) le_rfl (by omega)
  have hcnt₂ : s₂.indexCnt = s₁.indexCnt := indexCnt_of_fixedPart hfix₂
  have hsize₂ : s₂.dataSize = s₁.dataSize := dataSize_of_fixedPart hfix₂
  have hfree₂ := hrep₂.indexFree
  have hcalls := fun fuel => loopCalls_spec dbg len hseq fuel k₁ s₁ hrep₁ (by omega) (by omega)
  have hhead : s₂.dataHead ≤ s₂.dataSize := by
    rw [hrep₂.dataHead]
    exact (Nat.mod_lt _ (by omega)).le
  refine ⟨s₁, s₂, (hist.length - k₁) % s₁.indexCnt, ?_⟩
  constructor
  case head => exact hout₁
  case oldest => exact oldestIndexI_spec dbg hrep₁ (by omega)
  case loop =>
    intro fuel hf
    exact clearOverlapping_mono (by omega) _ _ _ hout₂
  case rounds =>
    intro fuel
    rw [hused]
    exact (hcalls fuel).1
  case notHead =>
    intro fuel c hc
    exact ((hcalls fuel).2 c hc).1
  case frees =>
    intro fuel c hc
    rcases List.mem_append.mp hc with hc | hc
    · exact freeable_head h hcnt hseq c hc
    · exact ((hcalls fuel).2 c hc).2
  case noUnderflow => exact ⟨hhead, hroom, by omega⟩
  case copy => exact copyIn_ranges dbg buf hrep₂ (by omega) (by omega)
  case inside =>
    rw [hrep₂.dataLen]
    exact copyRanges_inside hhead (by omega)
  case disjoint =>
    intro r hr e he hne
    exact copyRanges_disjoint hrep₂ hseq hroom hr he hne

/-- **Eviction in `ach_put` is safe and ends**, in every state that puts reach on a channel
`ach_create` made, for every length the channel can hold; and every assert of the put holds, since a
build with asserts returns from it. -/
theorem put_evicts_safely (dbg : Bool) {env : CreateEnv} {name : List UInt8} {cnt size : ℕ}
    {mapAnon : Bool} {shm shm' : AchHeader}
    (hcreate : achCreate dbg env name cnt size mapAnon = .ok (.ok shm)) (hcnt : 1 ≤ cnt)
    (hwrap : NoWrap cnt size) {calls : List PutCall} (hmap : ∀ c ∈ calls, c.chan.mapped = true)
    (hn : calls.length < 2 ^ 64 - 1) {rs : List AchStatus}
    (hrun : putAll dbg calls shm = .ok (rs, shm')) (asserts : Bool) {chan : AchChannel}
    (hm : chan.mapped = true) (buf : ℕ → UInt8) {len : ℕ} (hpos : 1 ≤ len)
    (hlen : len ≤ shm'.dataSize) :
    (∃ s₁ s₂ i, SafeEviction asserts buf len { shm' with mutex := .held, dirty := true } s₁ s₂ i) ∧
      ∃ shm'', out (achPut chan (some buf) len) asserts shm' = .ok (.ok, shm'') := by
  obtain ⟨rs', kept, t, hrun', -, -, hinv, hclean, hic, -⟩ :=
    putAll_created dbg hcreate hcnt hwrap hmap (by omega)
  rw [hrun, Outcome.ok.injEq, Prod.mk.injEq] at hrun'
  obtain ⟨rfl, rfl⟩ := hrun'
  have hacc : (accepted (cnt * size) calls).length ≤ calls.length := by
    rw [accepted, List.length_map]
    exact List.length_filter_le _ _
  have hpos' : 0 < shm'.indexCnt := by omega
  constructor
  · exact safeEviction asserts buf (hinv.sync .held true).toRep hpos' hpos hlen (by omega)
  · obtain ⟨kept', shm'', hout, -⟩ := achPut_spec asserts buf hinv hclean hm hpos' hpos hlen
      fun _ => by omega
    exact ⟨shm'', hout⟩

/-- A put of 6 bytes after the sample puts, which evicts two frames. -/
theorem put_evicts_safely_sample : ∃ rs shm',
    putAll true samplePuts (created 2 3) = .ok (rs, shm') ∧
    (∃ s₁ s₂ i, SafeEviction true (fun _ => 7) 6 { shm' with mutex := .held, dirty := true }
      s₁ s₂ i) ∧
    ∃ shm'', out (achPut (openedChan (created 2 3)) (some fun _ => 7) 6) true shm' =
      .ok (.ok, shm'') := by
  have hval : ((putAll true samplePuts (created 2 3)).bind fun p => .ok p.2.dataSize) = .ok 6 := by
    decide +kernel
  obtain ⟨⟨rs, shm'⟩, hrun, hval⟩ := Outcome.bind_eq_ok.mp hval
  have hsize : shm'.dataSize = 6 := by simpa using hval
  exact ⟨rs, shm', hrun, put_evicts_safely true
    (show achCreate true CreateEnv.allOk [97] 2 3 false = .ok (.ok (created 2 3)) by decide)
    (by decide) (by decide) (by decide) (by decide) hrun true rfl _ (by decide)
    (by rw [hsize])⟩

end Ach.Channel.Evict
