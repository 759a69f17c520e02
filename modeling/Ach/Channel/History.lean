import Ach.Channel.Create
import Ach.Channel.GetSpec

/-! # Runs of `ach_put`: the channel is a bounded history

From the block `ach_create` makes, any run of `ach_put` calls keeps the invariant of
`Ach.Channel.PutSpec`, so that the channel holds, in order and byte for byte, the longest suffix of
the frames accepted that fits (`putAll_refines_history`), and its counters and index entries agree
with each other (`putAll_ringInvariant`). -/

namespace Ach.Channel.History

open Ach.Lib.Run Ach.Lib.Word Ach.Lib.Ring Ach.Lib.Suffix
open Ach.Channel.Types Ach.Channel.Lock Ach.Channel.Put Ach.Channel.Get Ach.Channel.Create
open Ach.Channel.Invariant Ach.Channel.PutSpec Ach.Channel.GetSpec

variable {hist : List (List UInt8)} {kept : ℕ} {shm : AchHeader}

/-! ### The created channel -/

theorem inv_created {cnt size : ℕ} (hcnt : cnt < 2 ^ 63) (hsize : wmul cnt size < 2 ^ 63) :
    Inv [] 0 (created cnt size) := by
  refine ⟨⟨hcnt, hsize, by simp, le_rfl, Nat.zero_le _, rfl, by simp [created],
    by simp [created], by simp [created], by simp [created, startOf], by simp [created], ?_,
    by simp [created], ?_⟩, fun h => absurd rfl h, ?_⟩
  · refine ⟨le_rfl, fun p _ hp => ?_⟩
    have hlen : (created cnt size).index.length = cnt := by simp [created]
    rw [hlen] at hp ⊢
    have hlt := Nat.mod_lt p (show 0 < cnt by simp at hp; omega)
    simp [created, slotOf, hlt]
  · exact ⟨by simp, fun p _ hp => absurd hp (by simp)⟩
  · exact Longest.nil ⟨by simp, by simp⟩

theorem clean_created (cnt size : ℕ) : Clean (created cnt size) :=
  ⟨rfl, rfl, rfl, rfl, rfl, rfl⟩

/-! ### One call -/

/-- A call of `ach_put`. -/
structure PutCall where
  chan : AchChannel
  buf : Option (ℕ → UInt8)
  len : ℕ

/-- The call gives a buffer, and a length the channel can hold. -/
def Accepts (dataSize : ℕ) (c : PutCall) : Prop := c.buf.isSome ∧ 1 ≤ c.len ∧ c.len ≤ dataSize

instance (dataSize : ℕ) (c : PutCall) : Decidable (Accepts dataSize c) := by
  unfold Accepts; infer_instance

/-- The frame a call gives. -/
def PutCall.frame (c : PutCall) : List UInt8 :=
  match c.buf with
  | some buf => frameOf buf c.len
  | none => []

/-- The frames accepted by a channel of the given size, in order. -/
def accepted (dataSize : ℕ) (calls : List PutCall) : List (List UInt8) :=
  (calls.filter fun c => decide (Accepts dataSize c)).map PutCall.frame

/-- **A rejected `ach_put`** leaves the channel alone. -/
theorem achPut_rejected (dbg : Bool) {c : PutCall} (hg : GuardsOk shm)
    (hc : ¬ Accepts shm.dataSize c) :
    ∃ r, out (achPut c.chan c.buf c.len) dbg shm = .ok (r, shm) ∧
      (r = .einval ∨ r = .overflow) := by
  obtain ⟨chan, buf, len⟩ := c
  cases buf with
  | none => exact ⟨.einval, rfl, Or.inl rfl⟩
  | some buf =>
    have hguards : checkGuards shm = .ok := if_pos hg
    simp only [Accepts, Option.isSome_some, true_and, not_and, not_le] at hc
    unfold achPut
    by_cases h0 : len = 0 ∨ chan.mapped = false
    · exact ⟨.einval, by simp [h0], Or.inl rfl⟩
    · have hbig := hc (by omega)
      exact ⟨.overflow, by simp [h0, hguards, hbig], Or.inr rfl⟩

/-! ### Runs -/

/-- The calls one after the other, with their statuses. -/
def putAll (dbg : Bool) : List PutCall → AchHeader → Outcome (List AchStatus × AchHeader)
  | [], shm => .ok ([], shm)
  | c :: cs, shm => (out (achPut c.chan c.buf c.len) dbg shm).bind fun p =>
    (putAll dbg cs p.2).bind fun q => .ok (p.1 :: q.1, q.2)

/-- What a status says about its call. -/
def StatusOf (dataSize : ℕ) (c : PutCall) (r : AchStatus) : Prop :=
  (r = .ok ↔ Accepts dataSize c) ∧ (r ≠ .ok → r = .einval ∨ r = .overflow)

/-- **The run lemma.** A run of `ach_put` calls appends the frames accepted. -/
theorem putAll_spec (dbg : Bool) : ∀ (calls : List PutCall) (hist : List (List UInt8)) (kept : ℕ)
    (shm : AchHeader), Inv hist kept shm → Clean shm → 0 < shm.indexCnt →
      (∀ c ∈ calls, c.chan.mapped = true) → hist.length + calls.length < 2 ^ 64 →
      ∃ rs kept' shm', putAll dbg calls shm = .ok (rs, shm') ∧
        List.Forall₂ (StatusOf shm.dataSize) calls rs ∧
        Inv (hist ++ accepted shm.dataSize calls) kept' shm' ∧ fixedPart shm' = fixedPart shm := by
  intro cs
  induction cs with
  | nil =>
    intro hist kept shm h _ _ _ _
    exact ⟨[], kept, shm, rfl, List.Forall₂.nil, by simpa [accepted] using h, rfl⟩
  | cons c cs ih =>
    intro hist kept shm h hc hcnt hmap hn
    rw [List.length_cons] at hn
    by_cases ha : Accepts shm.dataSize c
    · obtain ⟨hbuf, hpos, hlen⟩ := ha
      obtain ⟨buf, hb⟩ := Option.isSome_iff_exists.mp hbuf
      obtain ⟨k₁, shm₁, hout, hinv, hfix⟩ := achPut_spec dbg buf h hc
        (hmap c List.mem_cons_self) hcnt hpos hlen (fun _ => by omega)
      have hsize := dataSize_of_fixedPart hfix
      obtain ⟨rs, kept', shm', hrun, hst, hinv', hfix'⟩ := ih _ k₁ shm₁ hinv
        (clean_of_fixedPart hfix hc) (by rw [indexCnt_of_fixedPart hfix]; exact hcnt)
        (fun d hd => hmap d (List.mem_cons_of_mem c hd)) (by simp; omega)
      rw [hsize] at hst hinv'
      have hframe : c.frame = frameOf buf c.len := by simp [PutCall.frame, hb]
      have hacc : accepted shm.dataSize (c :: cs) =
          frameOf buf c.len :: accepted shm.dataSize cs := by
        simp [accepted, show Accepts shm.dataSize c from ⟨hbuf, hpos, hlen⟩, hframe]
      refine ⟨.ok :: rs, kept', shm', ?_, List.Forall₂.cons ?_ hst, ?_, by rw [hfix', hfix]⟩
      · rw [← hb] at hout
        simp [putAll, hout, hrun]
      · exact ⟨⟨fun _ => ⟨hbuf, hpos, hlen⟩, fun _ => rfl⟩, fun hne => absurd rfl hne⟩
      · rw [hacc, List.append_cons]; exact hinv'
    · obtain ⟨r, hout, hr⟩ := achPut_rejected dbg hc.guards ha
      obtain ⟨rs, kept', shm', hrun, hst, hinv', hfix'⟩ := ih hist kept shm h hc
        hcnt (fun d hd => hmap d (List.mem_cons_of_mem c hd)) (by omega)
      have hacc : accepted shm.dataSize (c :: cs) = accepted shm.dataSize cs := by
        simp [accepted, ha]
      refine ⟨r :: rs, kept', shm', by simp [putAll, hout, hrun], List.Forall₂.cons ?_ hst,
        by rw [hacc]; exact hinv', hfix'⟩
      exact ⟨⟨fun h => by rw [h] at hr; simp at hr, fun h => absurd h ha⟩, fun _ => hr⟩

/-! ### Reading the channel back -/

/-- The slots from `i` on, `n` of them, each with its frame as `ach_get_from_offset` copies it. -/
def heldFrom : ℕ → ℕ → Exec AchHeader (List (ℕ × List UInt8))
  | 0, _ => pure []
  | n + 1, i => do
    let e ← indexAt i
    let frame ← copyOut e
    let shm ← load
    let i' ← umod (wadd i 1) shm.indexCnt
    let rest ← heldFrom n i'
    pure ((i, frame) :: rest)

/-- The used slots in ring order from `oldest_index_i` on, each with its frame. -/
def heldFrames : Exec AchHeader (List (ℕ × List UInt8)) := do
  let shm ← load
  let i ← oldestIndexI shm
  heldFrom (shm.indexCnt - shm.indexFree) i

theorem heldFrom_spec (dbg : Bool) (h : Rep hist kept shm) (hcnt : 0 < shm.indexCnt) :
    ∀ n, n ≤ kept → out (heldFrom n ((hist.length - n) % shm.indexCnt)) dbg shm =
      .ok ((List.range' (hist.length - n) n).map fun s => (s % shm.indexCnt, hist.getD s []),
        shm) := by
  intro n
  induction n with
  | zero =>
    intro _
    rfl
  | succ n ih =>
    intro hn
    have hkh := h.keptHist
    have hcs := h.cntSmall
    have hlt := Nat.mod_lt (hist.length - (n + 1)) hcnt
    have hnext : wadd ((hist.length - (n + 1)) % shm.indexCnt) 1 % shm.indexCnt =
        (hist.length - n) % shm.indexCnt := by
      rw [wadd_eq (by omega), Nat.mod_add_mod, show hist.length - (n + 1) + 1 = hist.length - n by
        omega]
    have hslot := h.slot (s := hist.length - (n + 1)) (by omega) (by omega)
    have hcopy := copyOut_spec dbg h ((hist.length - (n + 1) + 1) % 2 ^ 64)
      (s := hist.length - (n + 1)) (by omega) (by omega)
    replace ih := ih (by omega)
    rw [heldFrom]
    simp only [out_bind, out_indexAt dbg hslot, Outcome.bind_ok, hcopy, out_load, out_umod hcnt,
      hnext, ih, out_pure]
    rw [List.range'_succ, List.map_cons, show hist.length - (n + 1) + 1 = hist.length - n by omega]

/-- The frames held, by their numbers. -/
theorem map_held (h : kept ≤ hist.length) :
    (List.range' (hist.length - kept) kept).map (fun s => hist.getD s []) = held hist kept := by
  rw [map_getD_range' hist [] (by omega), held]
  exact List.take_of_length_le (by simp; omega)

/-- The walk reads the frames held. -/
theorem heldFrames_spec (dbg : Bool) (h : Rep hist kept shm) (hcnt : 0 < shm.indexCnt) :
    ∃ fs, out heldFrames dbg shm = .ok (fs, shm) ∧ fs.map Prod.snd = held hist kept ∧
      fs.map Prod.fst = (List.range' (hist.length - kept) kept).map (· % shm.indexCnt) := by
  have hkc := h.keptCnt
  have hfree := h.indexFree
  refine ⟨(List.range' (hist.length - kept) kept).map fun s => (s % shm.indexCnt, hist.getD s []),
    ?_, ?_, ?_⟩
  · unfold heldFrames
    simp only [out_bind, out_load, Outcome.bind_ok, oldestIndexI_spec dbg h hcnt]
    rw [show shm.indexCnt - shm.indexFree = kept by omega]
    exact heldFrom_spec dbg h hcnt kept le_rfl
  · rw [List.map_map, ← map_held h.keptHist]
    rfl
  · rw [List.map_map]
    rfl

/-- The run of `ach_put` calls on a channel `ach_create` made. -/
theorem putAll_created (dbg : Bool) {env : CreateEnv} {name : List UInt8} {cnt size : ℕ}
    {mapAnon : Bool} {shm : AchHeader}
    (hcreate : achCreate dbg env name cnt size mapAnon = .ok (.ok shm)) (hcnt : 1 ≤ cnt)
    (hwrap : NoWrap cnt size) {calls : List PutCall} (hmap : ∀ c ∈ calls, c.chan.mapped = true)
    (hn : calls.length < 2 ^ 64) :
    ∃ rs kept shm', putAll dbg calls shm = .ok (rs, shm') ∧
      List.Forall₂ (StatusOf (cnt * size)) calls rs ∧
        (accepted (cnt * size) calls).length < 2 ^ 64 ∧
      Inv (accepted (cnt * size) calls) kept shm' ∧ Clean shm' ∧ shm'.indexCnt = cnt ∧
      shm'.dataSize = cnt * size := by
  obtain ⟨rfl, hlen⟩ := achCreate_ok hcreate
  have hsum := createLen_eq hwrap
  have hmul : wmul cnt size = cnt * size := wmul_eq (by unfold NoWrap at hwrap; omega)
  have hcs : cnt < 2 ^ 63 := by unfold sizeofIndex at hsum; omega
  obtain ⟨rs, kept, shm', hrun, hst, hinv, hfix⟩ := putAll_spec dbg calls [] 0 (created cnt size)
    (inv_created hcs (by rw [hmul]; omega)) (clean_created cnt size) hcnt hmap (by simpa using hn)
  have hds : (created cnt size).dataSize = cnt * size := hmul
  rw [hds] at hst hinv
  have hacc : (accepted (cnt * size) calls).length ≤ calls.length := by
    rw [accepted, List.length_map]
    exact List.length_filter_le _ _
  exact ⟨rs, kept, shm', hrun, hst, by omega, hinv,
    clean_of_fixedPart hfix (clean_created cnt size),
    indexCnt_of_fixedPart hfix, by rw [dataSize_of_fixedPart hfix, hds]⟩

/-- **The channel is a bounded history.** After any run of `ach_put` calls on a channel `ach_create`
made, the used slots run from `oldest_index_i` to `last_index_i`, and their frames are the longest
suffix of the frames accepted that has at most `frame_cnt` frames and `frame_cnt * frame_size`
bytes. A call is accepted if and only if it gives a buffer and a length the channel can hold; a call
that is not accepted changes nothing. -/
theorem putAll_refines_history (dbg : Bool) {env : CreateEnv} {name : List UInt8} {cnt size : ℕ}
    {mapAnon : Bool} {shm : AchHeader}
    (hcreate : achCreate dbg env name cnt size mapAnon = .ok (.ok shm)) (hcnt : 1 ≤ cnt)
    (hwrap : NoWrap cnt size) (calls : List PutCall) (hmap : ∀ c ∈ calls, c.chan.mapped = true)
    (hn : calls.length < 2 ^ 64) :
    ∃ rs shm' fs o l, putAll dbg calls shm = .ok (rs, shm') ∧
      List.Forall₂ (StatusOf (cnt * size)) calls rs ∧
      out heldFrames dbg shm' = .ok (fs, shm') ∧
      out (oldestIndexI shm') dbg shm' = .ok (o, shm') ∧
      out (lastIndexI shm') dbg shm' = .ok (l, shm') ∧
      (∀ p ∈ fs.head?, p.1 = o) ∧ (∀ p ∈ fs.getLast?, p.1 = l) ∧
      Longest (FitsIn cnt (cnt * size)) (accepted (cnt * size) calls) (fs.map Prod.snd) ∧
      ∀ c : PutCall, ¬ Accepts (cnt * size) c → ∃ r,
        out (achPut c.chan c.buf c.len) dbg shm' = .ok (r, shm') ∧
          (r = .einval ∨ r = .overflow) := by
  obtain ⟨rs, kept, shm', hrun, hst, -, hinv, hclean, hic, hds⟩ :=
    putAll_created dbg hcreate hcnt hwrap hmap hn
  have hpos : 0 < shm'.indexCnt := by omega
  obtain ⟨fs, hfs, hsnd, hfst⟩ := heldFrames_spec dbg hinv.toRep hpos
  refine ⟨rs, shm', fs, _, _, hrun, hst, hfs, oldestIndexI_spec dbg hinv.toRep hpos,
    out_lastIndexI dbg hinv.toRep hpos, fun p hp => ?_, fun p hp => ?_, ?_, fun c hc => ?_⟩
  · have hhead := congrArg List.head? hfst
    rw [List.head?_map, hp, List.head?_map] at hhead
    cases kept with
    | zero => simp at hhead
    | succ k => simpa [List.range'_succ] using hhead
  · have hlast := congrArg List.getLast? hfst
    rw [List.getLast?_map, hp, List.getLast?_map, List.getLast?_range'] at hlast
    have hkh := hinv.keptHist
    split_ifs at hlast with h0
    · simp at hlast
    · simp only [Option.map_some, Option.some.injEq] at hlast
      rw [hlast, ← Nat.add_mod_right]
      congr 1
      omega
  · have hlongest := hinv.longest
    rw [hic, hds] at hlongest
    rw [hsnd]
    exact hlongest
  · rw [← hds] at hc
    exact achPut_rejected dbg hclean.guards hc

/-- An environment in which every system call succeeds. -/
def CreateEnv.allOk : CreateEnv where
  malloc := true
  shmOpen := fun _ => none
  ftruncate := fun _ => none
  mmap := true
  pthreadInit := true
  munmap := true
  close := fun _ => none

/-- Puts of lengths 2, 3, 7 and 4 into a channel of 2 frames of 3 bytes: the third is rejected, the
fourth runs over the end of the data array and evicts the first. -/
def samplePuts : List PutCall :=
  [2, 3, 7, 4].map fun len =>
    ⟨openedChan (created 2 3), some fun j => UInt8.ofNat (10 * len + j), len⟩

theorem putAll_refines_history_samplePuts :
    ∃ rs shm' fs o l, putAll true samplePuts (created 2 3) = .ok (rs, shm') ∧
      List.Forall₂ (StatusOf 6) samplePuts rs ∧
      out heldFrames true shm' = .ok (fs, shm') ∧
      out (oldestIndexI shm') true shm' = .ok (o, shm') ∧
      out (lastIndexI shm') true shm' = .ok (l, shm') ∧
      (∀ p ∈ fs.head?, p.1 = o) ∧ (∀ p ∈ fs.getLast?, p.1 = l) ∧
      Longest (FitsIn 2 6) (accepted 6 samplePuts) (fs.map Prod.snd) ∧
      ∀ c : PutCall, ¬ Accepts 6 c → ∃ r,
        out (achPut c.chan c.buf c.len) true shm' = .ok (r, shm') ∧ (r = .einval ∨ r = .overflow) :=
  putAll_refines_history true
    (show achCreate true CreateEnv.allOk [97] 2 3 false = .ok (.ok (created 2 3)) by decide)
    (by decide) (by decide) samplePuts (by decide) (by decide)

/-! ### The counters and the entries agree -/

/-- The entry in the `j`-th slot from slot `o` on. -/
def ringAt (shm : AchHeader) (o j : ℕ) : Option AchIndex := shm.index[(o + j) % shm.indexCnt]?

/-- **The ring-buffer invariant**, in terms of the block alone. `o` and `l` are `oldest_index_i` and
`last_index_i`. -/
structure RingInvariant (shm : AchHeader) (o l : ℕ) : Prop where
  indexHead_lt : shm.indexHead < shm.indexCnt
  dataHead_lt : shm.dataHead < shm.dataSize
  indexFree_le : shm.indexFree ≤ shm.indexCnt
  indexHead_eq : shm.indexHead = shm.lastSeq % shm.indexCnt
  free : ∀ j < shm.indexFree, ringAt shm shm.indexHead j = some .zero
  used : ∀ j < shm.indexCnt - shm.indexFree, ∃ e, ringAt shm o j = some e ∧ 0 < e.size ∧
    0 < e.seqNum ∧ e.seqNum + (shm.indexCnt - shm.indexFree - 1 - j) = shm.lastSeq
  last : shm.indexFree < shm.indexCnt →
    (o + (shm.indexCnt - shm.indexFree - 1)) % shm.indexCnt = l
  slot : ∀ (i : ℕ) (e : AchIndex), shm.index[i]? = some e → 0 < e.seqNum →
    i = (e.seqNum - 1) % shm.indexCnt
  chained : ∀ (j : ℕ) (e e' : AchIndex), j + 1 < shm.indexCnt - shm.indexFree →
    ringAt shm o j = some e → ringAt shm o (j + 1) = some e' →
    e'.offset = (e.offset + e.size) % shm.dataSize
  ends : ∀ e : AchIndex, shm.indexFree < shm.indexCnt → shm.index[l]? = some e →
    (e.offset + e.size) % shm.dataSize = shm.dataHead
  bytes : ((List.range (shm.indexCnt - shm.indexFree)).map fun j =>
    ((ringAt shm o j).map AchIndex.size).getD 0).sum + shm.dataFree = shm.dataSize

section
variable (h : Rep hist kept shm) (hseq : hist.length < 2 ^ 64)
include h

theorem Rep.ringAt_free {j : ℕ} (hj : j < shm.indexFree) :
    ringAt shm shm.indexHead j = some .zero := by
  unfold ringAt
  rw [h.indexHead, Nat.mod_add_mod]
  exact h.freeSlot (by omega) (by omega)

include hseq

/-- The used slots, from the oldest on. -/
theorem Rep.ringAt_used {j : ℕ} (hj : j < kept) :
    ringAt shm ((hist.length - kept) % shm.indexCnt) j =
      some ⟨(hist.getD (hist.length - kept + j) []).length,
        startOf hist (hist.length - kept + j) % shm.dataSize, hist.length - kept + j + 1⟩ := by
  have hkh := h.keptHist
  unfold ringAt
  rw [Nat.mod_add_mod]
  exact Rep.numbered h hseq (by omega) (by omega)

/-- The sizes of the used frames add up to the bytes held. -/
theorem Rep.sum_sizes :
    ((List.range kept).map fun j => ((ringAt shm ((hist.length - kept) % shm.indexCnt) j).map
      AchIndex.size).getD 0).sum = (held hist kept).flatten.length := by
  have hmap : ((List.range kept).map fun j => ((ringAt shm ((hist.length - kept) % shm.indexCnt)
      j).map AchIndex.size).getD 0) = (held hist kept).map List.length := by
    rw [← map_held h.keptHist, List.map_map, List.range'_eq_map_range,
      List.map_map]
    refine List.map_congr_left fun j hj => ?_
    rw [Rep.ringAt_used h hseq (List.mem_range.mp hj)]
    rfl
  rw [hmap, List.length_flatten]

/-- The representation invariant implies the ring-buffer invariant. -/
theorem Rep.ringInvariant (hcnt : 0 < shm.indexCnt) (hsize : 0 < shm.dataSize) :
    RingInvariant shm ((hist.length - kept) % shm.indexCnt)
      ((hist.length + (shm.indexCnt - 1)) % shm.indexCnt) := by
  have hkh := h.keptHist
  have hkc := h.keptCnt
  have hfree := h.indexFree
  have hused : shm.indexCnt - shm.indexFree = kept := by omega
  refine ⟨?_, ?_, by omega, by rw [h.indexHead, Rep.lastSeq_eq h hseq],
    fun j hj => Rep.ringAt_free h hj, ?_, ?_,
    ?_, ?_, ?_, ?_⟩
  · rw [h.indexHead]; exact Nat.mod_lt _ hcnt
  · rw [h.dataHead]; exact Nat.mod_lt _ hsize
  · intro j hj
    rw [hused] at hj
    have hlt : hist.length - kept + j < hist.length := by omega
    refine ⟨_, Rep.ringAt_used h hseq hj, ?_, Nat.succ_pos _, ?_⟩
    · rw [List.getD_eq_getElem _ _ hlt]
      exact List.length_pos_iff.mpr (h.nonempty _ (List.getElem_mem hlt))
    · rw [hused, Rep.lastSeq_eq h hseq]
      simp only
      omega
  · intro hlt
    rw [hused, Nat.mod_add_mod, ← Nat.add_mod_right]
    congr 1
    omega
  · intro i e he hpos
    have hi : i < shm.indexCnt := by
      rw [← h.indexLen]
      exact (List.getElem?_eq_some_iff.mp he).1
    obtain ⟨e', he', hcase⟩ := Rep.slot_cases h hseq hi
    obtain rfl : e' = e := by rw [he'] at he; exact Option.some.inj he
    rcases hcase with h0 | ⟨s, hs, his, -, -⟩
    · omega
    · rw [hs, Nat.add_sub_cancel, his]
  · intro j e e' hj he he'
    rw [hused] at hj
    rw [Rep.ringAt_used h hseq (by omega), Option.some.injEq] at he he'
    subst he he'
    simp only
    rw [← Nat.add_assoc, startOf_succ (by omega), Nat.mod_add_mod]
  · intro e hlt he
    have hpos : 0 < kept := by omega
    have hl : (hist.length + (shm.indexCnt - 1)) % shm.indexCnt =
        (hist.length - 1) % shm.indexCnt := by
      rw [← Nat.add_mod_right (hist.length - 1)]
      congr 1
      omega
    rw [hl, h.slot (by omega) (by omega), Option.some.injEq] at he
    subst he
    simp only
    rw [Nat.mod_add_mod, ← startOf_succ (by omega), show hist.length - 1 + 1 = hist.length by omega,
      startOf_length, h.dataHead]
  · have hb := h.dataFree
    have hd := length_flatten_drop hist (hist.length - kept)
    rw [hused, Rep.sum_sizes h hseq, held]
    omega

end

/-- **The ring-buffer invariant** holds after every run of `ach_put` calls on a channel `ach_create`
made. -/
theorem putAll_ringInvariant (dbg : Bool) {env : CreateEnv} {name : List UInt8} {cnt size : ℕ}
    {mapAnon : Bool} {shm : AchHeader}
    (hcreate : achCreate dbg env name cnt size mapAnon = .ok (.ok shm)) (hcnt : 1 ≤ cnt)
    (hsize : 1 ≤ size) (hwrap : NoWrap cnt size) (calls : List PutCall)
    (hmap : ∀ c ∈ calls, c.chan.mapped = true) (hn : calls.length < 2 ^ 64) :
    ∃ rs shm' o l, putAll dbg calls shm = .ok (rs, shm') ∧
      shm'.indexCnt = cnt ∧ shm'.dataSize = cnt * size ∧
      out (oldestIndexI shm') dbg shm' = .ok (o, shm') ∧
      out (lastIndexI shm') dbg shm' = .ok (l, shm') ∧ RingInvariant shm' o l := by
  obtain ⟨rs, kept, shm', hrun, -, hseq, hinv, -, hic, hds⟩ :=
    putAll_created dbg hcreate hcnt hwrap hmap hn
  have hpos : 0 < shm'.indexCnt := by omega
  have hbytes : 0 < shm'.dataSize := by rw [hds]; exact Nat.mul_pos hcnt hsize
  exact ⟨rs, shm', _, _, hrun, hic, hds, oldestIndexI_spec dbg hinv.toRep hpos,
    out_lastIndexI dbg hinv.toRep hpos, Rep.ringInvariant hinv.toRep hseq hpos hbytes⟩

theorem putAll_ringInvariant_samplePuts :
    ∃ rs shm' o l, putAll true samplePuts (created 2 3) = .ok (rs, shm') ∧
      shm'.indexCnt = 2 ∧ shm'.dataSize = 2 * 3 ∧
      out (oldestIndexI shm') true shm' = .ok (o, shm') ∧
      out (lastIndexI shm') true shm' = .ok (l, shm') ∧ RingInvariant shm' o l :=
  putAll_ringInvariant true
    (show achCreate true CreateEnv.allOk [97] 2 3 false = .ok (.ok (created 2 3)) by decide)
    (by decide) (by decide) (by decide) samplePuts (by decide) (by decide)

end Ach.Channel.History
