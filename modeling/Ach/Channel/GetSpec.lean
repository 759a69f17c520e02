import Ach.Channel.PutSpec

/-! # What `ach_get` and `ach_flush` deliver

On a channel that represents the list `hist` of frames, a handle whose cursor is sound (`Cursor`)
gets the frame whose number `pick` computes: the newest one, or the one after the handle's position,
or the oldest one held if that one is gone. The index slot a handle remembers may have been freed or
reused any number of times; it is used only if it carries the number looked for, and a slot that
carries a number holds the frame of that number (`Rep.slot_cases`). -/

namespace Ach.Channel.GetSpec

open Ach.Lib.Run Ach.Lib.Word Ach.Lib.Ring Ach.Lib.Suffix
open Ach.Channel.Types Ach.Channel.Lock Ach.Channel.Put Ach.Channel.Get
open Ach.Channel.Invariant Ach.Channel.PutSpec

variable {hist : List (List UInt8)} {kept : ℕ} {shm : AchHeader}

/-! ### Reading a frame back -/

/-- **The copy** of a frame that is held gives the bytes that were put. -/
theorem copyOut_spec (dbg : Bool) (h : Rep hist kept shm) {s : ℕ} (n : ℕ)
    (h1 : hist.length - kept ≤ s) (h2 : s < hist.length) :
    out (copyOut ⟨(hist.getD s []).length, startOf hist s % shm.dataSize, n⟩) dbg shm =
      .ok (hist.getD s [], shm) := by
  have hne : 0 < (hist.getD s []).length := by
    rw [List.getD_eq_getElem _ _ h2]
    exact List.length_pos_iff.mpr (h.nonempty _ (List.getElem_mem h2))
  have hlo := startOf_mono hist h1
  have hsucc := startOf_succ h2
  have hhi := startOf_le hist (s + 1)
  have hwin := h.startOf_le_dataSize
  have hs := h.sizeSmall
  have hmod := Nat.mod_lt (startOf hist s) (show 0 < shm.dataSize by omega)
  have hlen := h.dataLen
  unfold copyOut
  simp only [out_bind, out_load, Outcome.bind_ok, out_ite]
  rw [wadd_eq (by omega)]
  split_ifs with hfit
  · rw [out_memcpyOut dbg (by omega)]
    have := h.data.slice (p := startOf hist s) (n := (hist.getD s []).length) hlo (by omega)
      (by rw [hlen]; omega)
    rw [hlen, stream_eq h2] at this
    rw [this]
  · have hsub : wsub shm.dataSize (startOf hist s % shm.dataSize) =
        shm.dataSize - startOf hist s % shm.dataSize := wsub_eq hmod.le (by omega)
    have := h.data.slice_wrap (p := startOf hist s) (n := (hist.getD s []).length)
      (by omega) hlo (by omega) (by rw [hlen]; omega)
    rw [hlen, stream_eq h2] at this
    rw [hsub, wsub_eq (by omega) (by omega), out_memcpyOut dbg (by omega), Outcome.bind_ok]
    simp only
    rw [out_memcpyOut dbg (by omega), Outcome.bind_ok, out_pure, this]

/-! ### Which slot is read -/

/-- Before the sequence numbers wrap around they are the numbers of the frames. -/
theorem Rep.numbered (h : Rep hist kept shm) (hseq : hist.length < 2 ^ 64) {s : ℕ}
    (h1 : hist.length - kept ≤ s) (h2 : s < hist.length) :
    shm.index[s % shm.indexCnt]? =
      some ⟨(hist.getD s []).length, startOf hist s % shm.dataSize, s + 1⟩ := by
  rw [h.slot h1 h2, Nat.mod_eq_of_lt (show s + 1 < 2 ^ 64 by omega)]

theorem Rep.lastSeq_eq (h : Rep hist kept shm) (hseq : hist.length < 2 ^ 64) :
    shm.lastSeq = hist.length := by
  rw [h.lastSeq, Nat.mod_eq_of_lt hseq]

/-- Every slot is either free or holds the frame whose number it carries. -/
theorem Rep.slot_cases (h : Rep hist kept shm) (hseq : hist.length < 2 ^ 64) {i : ℕ}
    (hi : i < shm.indexCnt) :
    ∃ e, shm.index[i]? = some e ∧ (e.seqNum = 0 ∨ ∃ s, e.seqNum = s + 1 ∧ i = s % shm.indexCnt ∧
      hist.length - kept ≤ s ∧ s < hist.length) := by
  obtain ⟨p, h1, h2, rfl⟩ := exists_mod_eq (hist.length - kept) hi
  have hlen := h.indexLen
  have hget := h.index.get p h1 (by omega)
  rw [hlen] at hget
  rcases Nat.lt_or_ge p hist.length with hp | hp
  · rw [slotOf_lt hp, Nat.mod_eq_of_lt (show p + 1 < 2 ^ 64 by omega)] at hget
    exact ⟨_, hget, Or.inr ⟨p, rfl, rfl, h1, hp⟩⟩
  · rw [slotOf_ge hp] at hget
    exact ⟨_, hget, Or.inl rfl⟩

theorem out_lastIndexI (dbg : Bool) (h : Rep hist kept shm) (hcnt : 0 < shm.indexCnt) :
    out (lastIndexI shm) dbg shm =
      .ok ((hist.length + (shm.indexCnt - 1)) % shm.indexCnt, shm) := by
  have hcs := h.cntSmall
  have hlt := Nat.mod_lt hist.length hcnt
  unfold lastIndexI
  rw [out_umod hcnt, h.indexHead, wadd_eq (by omega), wsub_eq (by omega) (by omega),
    Nat.add_sub_assoc (by omega), Nat.mod_add_mod]

theorem lastIndexI_spec (dbg : Bool) (h : Rep hist kept shm) (hcnt : 0 < shm.indexCnt)
    (hn : 0 < hist.length) :
    out (lastIndexI shm) dbg shm = .ok ((hist.length - 1) % shm.indexCnt, shm) := by
  rw [out_lastIndexI dbg h hcnt,
    show hist.length + (shm.indexCnt - 1) = hist.length - 1 + shm.indexCnt by omega,
    Nat.add_mod_right]

theorem oldestIndexI_spec (dbg : Bool) (h : Rep hist kept shm) (hcnt : 0 < shm.indexCnt) :
    out (oldestIndexI shm) dbg shm = .ok ((hist.length - kept) % shm.indexCnt, shm) := by
  have hcs := h.cntSmall
  have hlt := Nat.mod_lt hist.length hcnt
  have hkh := h.keptHist
  have hkc := h.keptCnt
  unfold oldestIndexI
  rw [out_umod hcnt, h.indexHead, h.indexFree, wadd_eq (by omega), Nat.mod_add_mod,
    show hist.length + (shm.indexCnt - kept) = hist.length - kept + shm.indexCnt by omega,
    Nat.add_mod_right]

/-- **A sound cursor:** not beyond the newest frame, and remembering the slot the next frame goes
to. A handle just opened remembers slot 1 instead. -/
structure Cursor (n cnt : ℕ) (chan : AchChannel) : Prop where
  seqNum : chan.seqNum ≤ n
  nextIndex : chan.nextIndex = chan.seqNum % cnt ∨ chan.seqNum = 0 ∧ chan.nextIndex = 1

theorem Cursor.mono {n m cnt : ℕ} {chan : AchChannel} (h : Cursor n cnt chan) (hnm : n ≤ m) :
    Cursor m cnt chan :=
  ⟨h.seqNum.trans hnm, h.nextIndex⟩

theorem Cursor.nextIndex_lt {n cnt : ℕ} {chan : AchChannel} (h : Cursor n cnt chan)
    (hcnt : 2 ≤ cnt) : chan.nextIndex < cnt := by
  rcases h.nextIndex with h | ⟨-, h⟩ <;> rw [h]
  · exact Nat.mod_lt _ (by omega)
  · omega

/-- The number of the frame a handle at position `s` gets, of `n` frames the last `kept` of which
are held. -/
def pick (n kept s : ℕ) (opts : AchGetOpts) : ℕ :=
  if opts.last ∨ s = n then n else max (s + 1) (n - kept + 1)

theorem pick_bounds {n kept s : ℕ} (opts : AchGetOpts) (hk : 0 < kept) (hkn : kept ≤ n)
    (hs : s ≤ n) : n - kept < pick n kept s opts ∧ pick n kept s opts ≤ n ∧
      s ≤ pick n kept s opts ∧ (s < n → s < pick n kept s opts) := by
  unfold pick
  split_ifs with h
  · omega
  · simp only [not_or] at h
    omega

/-- **The slot read** is that of the frame picked. -/
theorem readIndex_spec (dbg : Bool) {chan : AchChannel} {opts : AchGetOpts} (h : Inv hist kept shm)
    (hcur : Cursor hist.length shm.indexCnt chan)
    (hnext : opts.last = true ∨ chan.nextIndex < shm.indexCnt) (hn : hist ≠ [])
    (hseq : hist.length + 1 < 2 ^ 64) (hcopy : chan.seqNum = hist.length → opts.copy = true) :
    out (readIndex chan opts) dbg shm =
      .ok ((pick hist.length kept chan.seqNum opts - 1) % shm.indexCnt, shm) := by
  have hpos : 0 < hist.length := List.length_pos_iff.mpr hn
  have hkept := h.keptPos hn
  have hkh := h.keptHist
  have hkc := h.keptCnt
  have hle := hcur.seqNum
  have hlast := lastIndexI_spec dbg h.toRep (by omega) hpos
  unfold readIndex
  simp only [out_bind, out_load, Outcome.bind_ok, out_ite]
  by_cases hl : opts.last = true
  · rw [if_pos hl, hlast, pick, if_pos (Or.inl hl)]
  rw [if_neg hl]
  obtain ⟨e, he, hcase⟩ := Rep.slot_cases h.toRep (by omega) (hnext.resolve_left hl)
  rw [out_indexAt dbg he, Outcome.bind_ok, wadd_eq (by omega), Rep.lastSeq_eq h.toRep (by omega)]
  by_cases hprobe : e.seqNum = chan.seqNum + 1
  · -- the remembered slot carries the next number
    rw [if_pos hprobe, out_pure]
    rcases hcase with h0 | ⟨s, hs, hi, hlo, hhi⟩
    · omega
    · have hsq : s = chan.seqNum := by omega
      subst hsq
      have hp : pick hist.length kept chan.seqNum opts = chan.seqNum + 1 := by
        rw [pick, if_neg (by rintro (h' | h'); exacts [hl h', by omega])]
        omega
      rw [hp, hi, Nat.add_sub_cancel]
  rw [if_neg hprobe]
  by_cases hstale : chan.seqNum = hist.length
  · rw [if_pos hstale, out_assert (hcopy hstale), Outcome.bind_ok, hlast, pick,
      if_pos (Or.inr hstale)]
  · -- the next frame is not held any more, or is the oldest
    rw [if_neg hstale, oldestIndexI_spec dbg h.toRep (by omega), pick,
      if_neg (by rintro (h' | h'); exacts [hl h', hstale h'])]
    have hgone : chan.seqNum ≤ hist.length - kept := by
      by_contra hlt
      rcases hcur.nextIndex with hslot' | ⟨h0, -⟩
      · have hslot := Rep.numbered h.toRep (by omega) (s := chan.seqNum) (by omega) (by omega)
        rw [← hslot', he] at hslot
        obtain rfl := Option.some.inj hslot
        exact hprobe rfl
      · omega
    rw [show max (chan.seqNum + 1) (hist.length - kept + 1) - 1 = hist.length - kept by omega]

/-! ### What is delivered -/

/-- **A delivery.** A handle at position `chan.seqNum` gets frame number `chan'.seqNum` of `hist`:
its bytes and its size, the status that says whether frames in between were missed, and a cursor
just after it. -/
structure Delivers (hist : List (List UInt8)) (cnt size : ℕ) (opts : AchGetOpts) (chan : AchChannel)
    (res : GetResult) (chan' : AchChannel) : Prop where
  pos : 0 < chan'.seqNum
  le : chan'.seqNum ≤ hist.length
  mono : chan.seqNum ≤ chan'.seqNum
  repeated : chan'.seqNum = chan.seqNum → opts.copy = true
  bytes : res.bytes = hist.getD (chan'.seqNum - 1) []
  frameSize : res.frameSize = some res.bytes.length
  fits : res.bytes.length ≤ size
  status : res.status = if chan.seqNum + 1 < chan'.seqNum then .missedFrame else .ok
  cursor : chan' = { chan with seqNum := chan'.seqNum, nextIndex := chan'.seqNum % cnt }

/-- There is no frame to answer with. -/
def NoFrame (opts : AchGetOpts) (last s : ℕ) : Prop := last = 0 ∨ s = last ∧ opts.copy = false

/-- A call that delivers nothing: the caller's buffer and the cursor stay as they are. It answers
`ACH_STALE_FRAMES` where there is no frame and it does not wait, unless the handle is canceled. -/
structure Refuses (hist : List (List UInt8)) (size : ℕ) (opts : AchGetOpts) (chan : AchChannel)
    (res : GetResult) (chan' : AchChannel) : Prop where
  stale : res.status = .staleFrames ↔ res.status ≠ .canceled ∧ opts.wait = false ∧
    NoFrame opts hist.length chan.seqNum
  status : res.status ≠ .ok ∧ res.status ≠ .missedFrame
  bytes : res.bytes = []
  overflow : res.status = .overflow → size < res.frameSize.getD 0
  cursor : chan' = chan

/-- The read of the slot of frame `s + 1`. -/
theorem achGetFromOffset_spec (dbg : Bool) {chan : AchChannel} {size s : ℕ} (h : Rep hist kept shm)
    (hcnt : 0 < shm.indexCnt) (hseq : hist.length < 2 ^ 64) (h1 : hist.length - kept ≤ s)
    (h2 : s < hist.length) (hle : chan.seqNum ≤ s + 1) :
    out (achGetFromOffset chan (s % shm.indexCnt) size) dbg shm =
      .ok (if size < (hist.getD s []).length then
          (⟨.overflow, [], some (hist.getD s []).length⟩, chan)
        else (⟨.ok, hist.getD s [], some (hist.getD s []).length⟩,
          { chan with seqNum := s + 1, nextIndex := (s + 1) % shm.indexCnt }), shm) := by
  have hlt := Nat.mod_lt s hcnt
  have hcs := h.cntSmall
  have hsize : 0 < shm.dataSize := by
    have hne : 0 < (hist.getD s []).length := by
      rw [List.getD_eq_getElem _ _ h2]
      exact List.length_pos_iff.mpr (h.nonempty _ (List.getElem_mem h2))
    have := startOf_mono hist h1
    have := startOf_succ h2
    have := startOf_le hist (s + 1)
    have := h.startOf_le_dataSize
    omega
  have hoff := Nat.mod_lt (startOf hist s) hsize
  unfold achGetFromOffset
  simp only [out_bind, out_load, Outcome.bind_ok, out_assert hlt,
    out_indexAt dbg (Rep.numbered h hseq h1 h2),
    out_assert (Nat.succ_ne_zero s), out_assert hoff, out_ite, show ¬ s + 1 < chan.seqNum by omega,
    if_false]
  split_ifs with hbig
  · rfl
  · rw [copyOut_spec dbg h _ h1 h2, Outcome.bind_ok, out_umod hcnt, Outcome.bind_ok, out_pure,
      wadd_eq (by omega), Nat.mod_add_mod]

/-- The number of the frame chosen: the newest one, or the one after the handle's position, or the
oldest one held if that one is gone. -/
def chosen (last old s : ℕ) (opts : AchGetOpts) : ℕ :=
  if opts.last ∨ s = last then last else max (s + 1) old

theorem chosen_eq_pick (n kept s : ℕ) (opts : AchGetOpts) :
    chosen n (n - kept + 1) s opts = pick n kept s opts := rfl

/-- **What `ach_get` answers.** The channel has accepted `hist` and its oldest frame is number
`old`; the handle is at `chan.seqNum`. -/
def getAnswer (hist : List (List UInt8)) (old cnt size : ℕ) (opts : AchGetOpts)
    (chan : AchChannel) : GetResult × AchChannel :=
  let last := hist.length
  if last = 0 ∨ (chan.seqNum = last ∧ opts.copy = false) then (.bare .staleFrames, chan)
  else
    let q := chosen last old chan.seqNum opts
    let frame := hist.getD (q - 1) []
    if size < frame.length then (⟨.overflow, [], some frame.length⟩, chan)
    else (⟨if chan.seqNum + 1 < q then .missedFrame else .ok, frame, some frame.length⟩,
      { chan with seqNum := q, nextIndex := q % cnt })

/-- **The critical section of `ach_get`** computes the answer. -/
theorem getCritical_eq (dbg : Bool) {chan : AchChannel} (size : ℕ) (opts : AchGetOpts)
    (h : Inv hist kept shm) (hcur : Cursor hist.length shm.indexCnt chan)
    (hnext : opts.last = true ∨ chan.nextIndex < shm.indexCnt) (hseq : hist.length + 1 < 2 ^ 64)
    (hwait : opts.wait = true → chan.seqNum ≠ hist.length) :
    out (getCritical chan size opts) dbg shm =
      .ok (getAnswer hist (hist.length - kept + 1) shm.indexCnt size opts chan, shm) := by
  have hle := hcur.seqNum
  have hlast := Rep.lastSeq_eq h.toRep (Nat.lt_of_succ_lt hseq)
  have hle' : chan.seqNum ≤ shm.lastSeq := by rw [hlast]; exact hle
  unfold getCritical getAnswer
  simp only [out_bind, out_load, Outcome.bind_ok, out_assert hle', out_ite, hlast]
  by_cases hstale : chan.seqNum = hist.length ∧ opts.copy = false ∨ hist.length = 0
  · have hnw : opts.wait = false := by
      by_contra hw
      have := hwait (by simpa using hw)
      omega
    rw [if_pos hstale, if_pos hstale.symm, out_assert hnw]
    rfl
  rw [if_neg hstale, if_neg fun h' => hstale h'.symm]
  have hne : hist ≠ [] := fun he => hstale (Or.inr (by rw [he]; rfl))
  have hcopy : chan.seqNum = hist.length → opts.copy = true := fun he => by
    by_contra hc
    exact hstale (Or.inl ⟨he, by simpa using hc⟩)
  have hkept := h.keptPos hne
  have hkc := h.keptCnt
  obtain ⟨hlo, hhi, hmono, -⟩ := pick_bounds (s := chan.seqNum) opts hkept h.keptHist hle
  rw [readIndex_spec dbg h hcur hnext hne hseq hcopy, Outcome.bind_ok, chosen_eq_pick]
  set q := pick hist.length kept chan.seqNum opts with hq
  have hslot := Rep.numbered h.toRep (by omega) (s := q - 1) (by omega) (by omega)
  simp only
  rw [out_indexAt dbg hslot, Outcome.bind_ok]
  simp only [wadd_eq (show chan.seqNum + 1 < 2 ^ 64 by omega)]
  rw [achGetFromOffset_spec dbg h.toRep (by omega) (by omega) (by omega) (by omega) (by omega),
    Outcome.bind_ok, show q - 1 + 1 = q by omega]
  simp only
  rw [out_assert (by omega), Outcome.bind_ok]
  by_cases hbig : size < (hist.getD (q - 1) []).length
  · simp only [hbig, if_true, reduceCtorEq, false_and, if_false, out_pure]
  · simp only [hbig, if_false, true_and, decide_eq_true_eq]
    by_cases hmiss : chan.seqNum + 1 < q
    · simp only [hmiss, if_true, out_pure]
    · simp only [hmiss, if_false, out_pure]

/-- An answer refuses or delivers. -/
theorem getAnswer_cases {chan : AchChannel} (cnt size : ℕ) (opts : AchGetOpts)
    (hkept : hist ≠ [] → 0 < kept) (hkh : kept ≤ hist.length) (hle : chan.seqNum ≤ hist.length)
    (hnew : opts.wait = true → chan.seqNum ≠ hist.length) :
    Refuses hist size opts chan (getAnswer hist (hist.length - kept + 1) cnt size opts chan).1
        (getAnswer hist (hist.length - kept + 1) cnt size opts chan).2 ∨
      Delivers hist cnt size opts chan
        (getAnswer hist (hist.length - kept + 1) cnt size opts chan).1
        (getAnswer hist (hist.length - kept + 1) cnt size opts chan).2 := by
  simp only [getAnswer]
  by_cases hstale : hist.length = 0 ∨ chan.seqNum = hist.length ∧ opts.copy = false
  · have hwait : opts.wait = false := by
      by_contra hw
      have := hnew (by simpa using hw)
      omega
    simp only [hstale, if_true]
    exact Or.inl ⟨iff_of_true rfl ⟨by simp [GetResult.bare], hwait, hstale⟩,
      by simp [GetResult.bare], rfl, by simp [GetResult.bare], rfl⟩
  simp only [hstale, if_false]
  have hne : hist ≠ [] := fun he => hstale (Or.inl (by rw [he]; rfl))
  obtain ⟨hlo, hhi, hmono, hfresh⟩ := pick_bounds (s := chan.seqNum) opts (hkept hne) hkh hle
  rw [← chosen_eq_pick] at hlo hhi hmono hfresh
  set q := chosen hist.length (hist.length - kept + 1) chan.seqNum opts with hq
  by_cases hbig : size < (hist.getD (q - 1) []).length
  · simp only [hbig, if_true]
    exact Or.inl ⟨iff_of_false (by simp) fun h => hstale h.2.2, by simp, rfl, fun _ => hbig, rfl⟩
  · simp only [hbig, if_false]
    refine Or.inr ⟨by simp only; omega, hhi, hmono, fun he => ?_, rfl, rfl, by simp only; omega,
      rfl, rfl⟩
    simp only at he
    by_contra hc
    simp only [Bool.not_eq_true] at hc
    have := hfresh (by by_contra hlt; exact hstale (Or.inr ⟨by omega, hc⟩))
    omega

/-- A handle that remembers no slot of the index array finds no frame, or reads outside of it. -/
theorem getCritical_unready (dbg : Bool) {chan chan' : AchChannel} (size : ℕ) {opts : AchGetOpts}
    {s : AchHeader} {res : GetResult} (hlen : shm.index.length = shm.indexCnt)
    (hl : opts.last = false) (hnext : shm.indexCnt ≤ chan.nextIndex)
    (hout : out (getCritical chan size opts) dbg shm = .ok ((res, chan'), s)) :
    res = .bare .staleFrames ∧ chan' = chan ∧ s = shm := by
  have hnone : shm.index[chan.nextIndex]? = none := List.getElem?_eq_none (by omega)
  have hread : out (readIndex chan opts) dbg shm = .fault := by
    simp [readIndex, hl, indexAt, hnone, Outcome.bind]
  rw [getCritical, out_bind, out_load, Outcome.bind_ok, out_bind] at hout
  obtain ⟨⟨u, shm'⟩, hassert, hout⟩ := Outcome.bind_eq_ok.mp hout
  obtain rfl : shm = shm' := eq_of_out_assert hassert
  rw [out_ite] at hout
  split_ifs at hout with hstale
  · rw [out_bind] at hout
    obtain ⟨⟨u', shm'⟩, hassert', hout⟩ := Outcome.bind_eq_ok.mp hout
    obtain rfl : shm = shm' := eq_of_out_assert hassert'
    simpa [eq_comm, and_assoc] using hout
  · rw [out_bind, hread] at hout
    simp [Outcome.bind] at hout

/-! ### The calls -/

/-- The ways a wait can end while nobody else does anything: a spurious wake-up, or a timeout. -/
inductive WaitEnd where
  | spurious | timedOut
  deriving DecidableEq, Repr

/-- The wait that ends so. -/
def WaitEnd.event : WaitEnd → WaitEvent
  | .spurious => .quiet .zero
  | .timedOut => .quiet .etimedout

theorem setMutex_self (s : AchHeader) {m : Mutex} (h : s.mutex = m) : setMutex m s = s := by
  subst h; rfl

/-- The tests of the loop of `rdlock`, on a channel whose mutex is held. -/
theorem out_rdlockCheck (dbg : Bool) {chan : AchChannel} {wait : Bool} (hm : shm.mutex = .held) :
    out (rdlockCheck chan wait) dbg shm =
      .ok (if chan.cancel then (some .canceled, setMutex .free shm)
      else if wait = true ∧ chan.seqNum = shm.lastSeq then (none, shm) else (some .ok, shm)) := by
  unfold rdlockCheck
  by_cases hc : chan.cancel
  · simp [hc, pthreadMutexUnlock, hm]
  · cases wait <;> by_cases hs : chan.seqNum = shm.lastSeq <;> simp [hc, hs]

/-- **The loop of `rdlock`** while nobody else does anything: it blocks, or gives up and releases
the mutex, or goes on with the mutex held. -/
theorem rdlockLoop_quiet (dbg wait abstime : Bool) (chan : AchChannel)
    (hm : shm.mutex = .held) (hd : shm.dirty = false) : ∀ ws : List WaitEnd,
      (out (rdlockLoop wait abstime (ws.map WaitEnd.event) chan) dbg shm = .block ∧ wait = true) ∨
      (∃ r, out (rdlockLoop wait abstime (ws.map WaitEnd.event) chan) dbg shm =
        .ok ((r, chan), setMutex .free shm) ∧ (r = .canceled ∨ r = .timeout ∧ wait = true)) ∨
      (out (rdlockLoop wait abstime (ws.map WaitEnd.event) chan) dbg shm = .ok ((.ok, chan), shm) ∧
        (wait = true → chan.seqNum ≠ shm.lastSeq)) := by
  intro ws
  induction ws with
  | nil =>
    rw [List.map_nil, rdlockLoop, out_bind, out_rdlockCheck dbg hm, Outcome.bind_ok]
    split_ifs with hc hw
    · exact Or.inr (Or.inl ⟨_, rfl, Or.inl rfl⟩)
    · exact Or.inl ⟨rfl, hw.1⟩
    · exact Or.inr (Or.inr ⟨rfl, fun h1 h2 => hw ⟨h1, h2⟩⟩)
  | cons w ws ih =>
    rw [List.map_cons, rdlockLoop, out_bind, out_rdlockCheck dbg hm, Outcome.bind_ok]
    split_ifs with hc hw
    · exact Or.inr (Or.inl ⟨_, rfl, Or.inl rfl⟩)
    · have hcancel : { chan with cancel := chan.cancel || w.event.cancel } = chan := by
        cases w <;> simp [WaitEnd.event, WaitEvent.quiet]
      have hheld : setMutex .held shm = shm := setMutex_self shm hm
      have hzero : out (checkLock .zero true) dbg shm = .ok (.ok, shm) := by
        simp [checkLock, checkDirty, hd]
      have htime : out (checkLock .etimedout true) dbg shm =
        .ok (.timeout, setMutex .free shm) := by
        simp [checkLock, releaseIf, pthreadMutexUnlock, hm]
      simp only [out_bind, hcancel]
      by_cases ht : w = .timedOut ∧ abstime = true
      · obtain ⟨rfl, rfl⟩ := ht
        have hwait : out (pthreadCondWait true WaitEnd.timedOut.event) dbg shm =
            .ok (.etimedout, shm) := by
          simp [pthreadCondWait, WaitEnd.event, WaitEvent.quiet, mutexAfterWait, hheld]
        rw [hwait, Outcome.bind_ok, htime]
        exact Or.inr (Or.inl ⟨_, rfl, Or.inr ⟨rfl, hw.1⟩⟩)
      · have hwait : out (pthreadCondWait abstime w.event) dbg shm = .ok (.zero, shm) := by
          rcases w with _ | _
          · simp [pthreadCondWait, WaitEnd.event, WaitEvent.quiet, mutexAfterWait, hheld]
          · have ha : abstime = false := by simpa using ht
            simp [pthreadCondWait, WaitEnd.event, WaitEvent.quiet, mutexAfterWait, hheld, ha]
        rw [hwait, Outcome.bind_ok, hzero]
        exact ih
    · exact Or.inr (Or.inr ⟨rfl, fun h1 h2 => hw ⟨h1, h2⟩⟩)

/-- **`rdlock`** on a clean channel. -/
theorem rdlock_quiet (dbg wait abstime : Bool) (chan : AchChannel) (hc : Clean shm)
    (ws : List WaitEnd) :
    (out (rdlock chan wait abstime (ws.map WaitEnd.event)) dbg shm = .block ∧ wait = true) ∨
      (∃ r, out (rdlock chan wait abstime (ws.map WaitEnd.event)) dbg shm = .ok ((r, chan), shm) ∧
        (r = .canceled ∨ r = .timeout ∧ wait = true)) ∨
      (out (rdlock chan wait abstime (ws.map WaitEnd.event)) dbg shm =
        .ok ((.ok, chan), setMutex .held shm) ∧ (wait = true → chan.seqNum ≠ shm.lastSeq)) := by
  have hrw : out (rdlock chan wait abstime (ws.map WaitEnd.event)) dbg shm =
      out (rdlockLoop wait abstime (ws.map WaitEnd.event) chan) dbg (setMutex .held shm) := by
    unfold rdlock
    rw [out_bind, out_chanLock dbg hc.mutex hc.dirty]
    simp
  have hfree : setMutex .free (setMutex .held shm) = shm := setMutex_self shm hc.mutex
  have hmutex : (setMutex .held shm).mutex = .held := rfl
  have := rdlockLoop_quiet dbg wait abstime chan hmutex hc.dirty ws
  rwa [hfree, ← hrw] at this

/-- `unrdlock` gives the channel back as it was before the lock. -/
theorem out_unrdlock_held (dbg : Bool) (hc : Clean shm) :
    out unrdlock dbg (setMutex .held shm) = .ok (.ok, shm) := by
  have hmutex : (setMutex .held shm).mutex = .held := rfl
  rw [out_unrdlock dbg hmutex hc.dirty]
  exact congrArg (fun s => Outcome.ok (AchStatus.ok, s)) (setMutex_self shm hc.mutex)

/-- The mutex is not part of what the channel represents. -/
theorem Inv.setMutex (h : Inv hist kept shm) (m : Mutex) : Inv hist kept (setMutex m shm) :=
  h.sync m shm.dirty

/-- **The answer of `ach_get`** on a clean channel: it blocks, fails at the lock, or returns what
its critical section found. -/
theorem achGet_answer (dbg : Bool) {chan : AchChannel} (size : ℕ) (abstime : Bool)
    (opts : AchGetOpts) (ws : List WaitEnd) (h : Inv hist kept shm) (hc : Clean shm)
    (hmap : chan.mapped = true) (hcur : Cursor hist.length shm.indexCnt chan)
    (hnext : opts.last = true ∨ chan.nextIndex < shm.indexCnt) (hseq : hist.length + 1 < 2 ^ 64) :
    out (achGet chan size abstime opts (ws.map WaitEnd.event)) dbg shm = .block ∨
      (∃ r, (r = .canceled ∨ r = .timeout ∧ opts.wait = true) ∧
        out (achGet chan size abstime opts (ws.map WaitEnd.event)) dbg shm =
          .ok ((.bare r, chan), shm)) ∨
      (opts.wait = true → chan.seqNum ≠ hist.length) ∧
        out (achGet chan size abstime opts (ws.map WaitEnd.event)) dbg shm =
          .ok (getAnswer hist (hist.length - kept + 1) shm.indexCnt size opts chan, shm) := by
  have hg : checkGuards shm = .ok := if_pos hc.guards
  unfold achGet
  simp only [out_bind, out_load, Outcome.bind_ok, hmap, hg, ne_eq, not_true_eq_false, if_false,
    Bool.true_eq_false]
  rcases rdlock_quiet dbg opts.wait abstime chan hc ws with
    ⟨hb, -⟩ | ⟨r, hr, hr'⟩ | ⟨hr, hw⟩
  · rw [hb]; exact Or.inl rfl
  · have hne : r ≠ .ok := by rcases hr' with rfl | ⟨rfl, -⟩ <;> simp
    rw [hr, Outcome.bind_ok]
    simp only [hne, not_false_eq_true, if_true, out_pure]
    exact Or.inr (Or.inl ⟨r, hr', rfl⟩)
  · rw [hr, Outcome.bind_ok]
    rw [Rep.lastSeq_eq h.toRep (Nat.lt_of_succ_lt hseq)] at hw
    have hout := getCritical_eq dbg size opts (Inv.setMutex h .held) hcur hnext hseq hw
    have hun := out_unrdlock_held dbg hc
    refine Or.inr (Or.inr ⟨hw, ?_⟩)
    simp only [not_true_eq_false, if_false, out_bind, hout, Outcome.bind_ok, hun, out_pure]
    rfl

/-- **`ach_get`** on a clean channel blocks, or leaves the channel as it was and either delivers
nothing or delivers a frame. -/
theorem achGet_spec (dbg : Bool) {chan : AchChannel} (size : ℕ) (abstime : Bool) (opts : AchGetOpts)
    (ws : List WaitEnd) (h : Inv hist kept shm) (hc : Clean shm) (hmap : chan.mapped = true)
    (hcur : Cursor hist.length shm.indexCnt chan)
    (hnext : opts.last = true ∨ chan.nextIndex < shm.indexCnt) (hseq : hist.length + 1 < 2 ^ 64) :
    out (achGet chan size abstime opts (ws.map WaitEnd.event)) dbg shm = .block ∨
      ∃ res chan', out (achGet chan size abstime opts (ws.map WaitEnd.event)) dbg shm =
        .ok ((res, chan'), shm) ∧
        (Refuses hist size opts chan res chan' ∨
          Delivers hist shm.indexCnt size opts chan res chan') := by
  rcases achGet_answer dbg size abstime opts ws h hc hmap hcur hnext hseq with
    hb | ⟨r, hr, hout⟩ | ⟨hnew, hout⟩
  · exact Or.inl hb
  · refine Or.inr ⟨_, _, hout, Or.inl ⟨?_, ?_, rfl, fun ho => ?_, rfl⟩⟩
    · rcases hr with rfl | ⟨rfl, hw⟩
      · simp [GetResult.bare]
      · simp [GetResult.bare, hw]
    · rcases hr with rfl | ⟨rfl, -⟩ <;> simp [GetResult.bare]
    · rcases hr with rfl | ⟨rfl, -⟩ <;> simp [GetResult.bare] at ho
  · exact Or.inr ⟨_, _, hout,
      getAnswer_cases shm.indexCnt size opts h.keptPos h.keptHist hcur.seqNum hnew⟩

/-- `ach_get` of a handle that remembers no slot of the index array does not move the handle. -/
theorem achGet_unready (dbg : Bool) {chan chan' : AchChannel} {size : ℕ} {abstime : Bool}
    {opts : AchGetOpts} {ws : List WaitEnd} {s : AchHeader} {res : GetResult}
    (hlen : shm.index.length = shm.indexCnt) (hc : Clean shm) (hmap : chan.mapped = true)
    (hl : opts.last = false) (hnext : shm.indexCnt ≤ chan.nextIndex)
    (hout : out (achGet chan size abstime opts (ws.map WaitEnd.event)) dbg shm =
      .ok ((res, chan'), s)) : chan' = chan := by
  have hg : checkGuards shm = .ok := if_pos hc.guards
  unfold achGet at hout
  simp only [out_bind, out_load, Outcome.bind_ok, hmap, hg, ne_eq, not_true_eq_false, if_false,
    Bool.true_eq_false] at hout
  rcases rdlock_quiet dbg opts.wait abstime chan hc ws with
    ⟨hb, -⟩ | ⟨r, hr, hr'⟩ | ⟨hr, hw⟩
  · rw [hb] at hout
    simp [Outcome.bind] at hout
  · have hne : r ≠ .ok := by rcases hr' with rfl | ⟨rfl, -⟩ <;> simp
    rw [hr, Outcome.bind_ok] at hout
    simp only [hne, not_false_eq_true, if_true, out_pure, Outcome.ok.injEq, Prod.mk.injEq] at hout
    exact hout.1.2.symm
  · rw [hr, Outcome.bind_ok] at hout
    simp only [not_true_eq_false, if_false, out_bind] at hout
    obtain ⟨⟨⟨res', chan''⟩, s'⟩, hcrit, hout⟩ := Outcome.bind_eq_ok.mp hout
    have hlen' : (setMutex .held shm).index.length = (setMutex .held shm).indexCnt := hlen
    obtain ⟨-, rfl, rfl⟩ := getCritical_unready dbg size hlen' hl hnext hcrit
    have hun := out_unrdlock_held dbg hc
    simp only [hun, Outcome.bind_ok, not_true_eq_false, if_false, out_pure, Outcome.ok.injEq,
      Prod.mk.injEq] at hout
    exact hout.1.2.symm

/-- **`ach_flush`** on a clean channel moves the cursor past the newest frame, unless the handle
was cancelled. -/
theorem achFlush_spec (dbg : Bool) {chan : AchChannel} (h : Rep hist kept shm) (hc : Clean shm)
    (hmap : chan.mapped = true) :
    ∃ r chan', out (achFlush chan) dbg shm = .ok ((r, chan'), shm) ∧
      (r = .ok ∧ chan' = { chan with seqNum := hist.length % 2 ^ 64,
                                     nextIndex := hist.length % shm.indexCnt } ∨
        r = .canceled ∧ chan' = chan) := by
  unfold achFlush
  simp only [hmap, Bool.true_eq_false, if_false, out_bind]
  rcases rdlock_quiet dbg false false chan hc [] with
    ⟨-, hb⟩ | ⟨r, hr, hr' | ⟨-, hr'⟩⟩ | ⟨hr, -⟩
  · simp at hb
  · rw [List.map_nil] at hr
    rw [hr, hr', Outcome.bind_ok]
    exact ⟨_, _, rfl, Or.inr ⟨rfl, rfl⟩⟩
  · simp at hr'
  · rw [List.map_nil] at hr
    have hun := out_unrdlock_held dbg hc
    refine ⟨_, _, ?_, Or.inl ⟨rfl, rfl⟩⟩
    rw [hr]
    simp only [ne_eq, not_true_eq_false, if_false, Outcome.bind_ok, out_bind, flushCritical,
      out_load, out_pure, hun]
    rw [← h.indexHead, ← h.lastSeq, ← hmap]
    rfl

end Ach.Channel.GetSpec
