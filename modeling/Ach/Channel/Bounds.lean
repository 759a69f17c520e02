import Ach.Channel.Reach

/-! # Accesses to the two arrays

Every access to the index and data arrays is in bounds as long as the positions kept in the block
and in the handles are: the two heads, the offsets and sizes of the entries, and the index slot each
handle remembers. These are far fewer facts than the channel's invariant, and they hold for any
number of puts, also after the sequence numbers have run out.

`ach_put`, `ach_get` and `ach_flush` keep them. `ach_open` starts a handle at index slot 1, which a
channel with one index entry does not have, so the bounds hold if and only if there are two entries
or more (`index_in_bounds_iff`). -/

namespace Ach.Channel.Bounds

open Ach.Lib.Run Ach.Lib.Word
open Ach.Channel.Types Ach.Channel.Lock Ach.Channel.Put Ach.Channel.Get Ach.Channel.Create
open Ach.Channel.Invariant Ach.Channel.PutSpec Ach.Channel.Frame Ach.Channel.GetSpec
open Ach.Channel.History Ach.Channel.Runs Ach.Channel.Reach

/-- **The positions in the block are inside its arrays**, of `cnt` entries and `size` bytes. -/
structure InBounds (cnt size : ℕ) (s : AchHeader) : Prop where
  indexCnt : s.indexCnt = cnt
  dataSize : s.dataSize = size
  indexLen : s.index.length = cnt
  dataLen : s.data.length = size
  indexHead : s.indexHead < cnt
  dataHead : s.dataHead < size
  entries : ∀ e ∈ s.index, e.offset < size ∧ e.size ≤ size

section
variable {cnt size : ℕ} {P : AchHeader → Prop}

/-! ### Access to the arrays -/

theorem indexAt_safe {i : ℕ} (hi : i < cnt) :
    Safe (InBounds cnt size) (indexAt i)
      (fun e s => (e.offset < size ∧ e.size ≤ size) ∧ InBounds cnt size s) := by
  refine Safe.read fun shm => ?_
  rintro dbg s ⟨rfl, hs⟩
  have hlt : i < s.index.length := by rw [hs.indexLen]; exact hi
  have hentry := hs.entries _ (List.getElem_mem hlt)
  rw [List.getElem?_eq_getElem hlt]
  exact Safe.pure' (fun s hs => ⟨hentry, hs⟩) dbg s hs

/-- Changing the fields of an entry keeps the bounds if each change does. -/
theorem storeFields_safe {i : ℕ} (hi : i < cnt) {fs : List (AchIndex → AchIndex)}
    (hfs : ∀ f ∈ fs, ∀ e, e.offset < size ∧ e.size ≤ size →
      (f e).offset < size ∧ (f e).size ≤ size) :
    Safe (InBounds cnt size) (storeFields i fs) (fun _ => InBounds cnt size) := by
  induction fs with
  | nil =>
    exact Safe.pure' fun s hs => hs
  | cons f fs ih =>
    refine Safe.bind ?_ fun _ => ih fun g hg => hfs g (by simp [hg])
    refine (indexAt_safe hi).bind fun e => Safe.of_pure fun he => Safe.store' fun s hs => ?_
    refine ⟨hs.indexCnt, hs.dataSize, by simpa using hs.indexLen, hs.dataLen, hs.indexHead,
      hs.dataHead, fun e' he' => ?_⟩
    rcases List.mem_or_eq_of_mem_set he' with hmem | rfl
    · exact hs.entries e' hmem
    · exact hfs f (by simp) e he

theorem memcpyIn_safe (buf : ℕ → UInt8) {off n : ℕ} (h : off + n ≤ size) :
    Safe (InBounds cnt size) (memcpyIn off buf n) (fun _ => InBounds cnt size) := by
  induction n with
  | zero =>
    exact Safe.pure' fun s hs => hs
  | succ n ih =>
    refine (ih (by omega)).bind fun _ => Safe.read fun shm => Safe.ite' (fun _ => ?_) fun hge => ?_
    · refine Safe.store' ?_
      rintro s ⟨-, hs⟩
      exact ⟨hs.indexCnt, hs.dataSize, hs.indexLen, by simpa using hs.dataLen, hs.indexHead,
        hs.dataHead, hs.entries⟩
    · rintro dbg s ⟨rfl, hs⟩
      have := hs.dataLen
      omega

theorem memcpyOut_safe {off n : ℕ} (h : off + n ≤ size) :
    Safe (InBounds cnt size) (memcpyOut off n) (fun _ => InBounds cnt size) := by
  refine Safe.read fun shm => Safe.ite' (fun _ => Safe.pure' fun s hs => hs.2) fun hge => ?_
  rintro dbg s ⟨rfl, hs⟩
  have := hs.dataLen
  omega

/-! ### `ach_put` -/

/-- A store that keeps the positions in bounds, and what follows. -/
theorem store_then {α : Type} {f : AchHeader → AchHeader} {m : Exec AchHeader α}
    {Q : α → AchHeader → Prop} (hf : ∀ s, InBounds cnt size s → InBounds cnt size (f s))
    (hm : Safe (InBounds cnt size) m Q) : Safe (InBounds cnt size) (store f >>= fun _ => m) Q :=
  (Safe.store' hf).bind fun _ => hm

theorem freeIndex_safe {i : ℕ} (hi : i < cnt) (hsize : 0 < size) :
    Safe (InBounds cnt size) (freeIndex i) (fun _ => InBounds cnt size) := by
  refine (indexAt_safe hi).bind fun e => Safe.of_pure fun _ => ?_
  refine Safe.assert'.bind fun _ => Safe.assert'.bind fun _ => Safe.read fun shm => ?_
  refine Safe.conseq (P := InBounds cnt size) ?_ (fun s hs => hs.2) fun _ _ h => h
  refine Safe.assert'.bind fun _ => ?_
  refine store_then (fun s hs => ⟨hs.1, hs.2, hs.3, hs.4, hs.5, hs.6, hs.7⟩) ?_
  refine store_then (fun s hs => ⟨hs.1, hs.2, hs.3, hs.4, hs.5, hs.6, hs.7⟩) ?_
  refine storeFields_safe hi ?_
  simp only [List.mem_cons, List.not_mem_nil, or_false, forall_eq_or_imp, forall_eq]
  exact ⟨fun e he => ⟨he.1, by simp⟩, fun e he => ⟨hsize, he.2⟩, fun e he => he⟩

theorem clearHead_safe (hsize : 0 < size) :
    Safe (InBounds cnt size) clearHead (fun _ => InBounds cnt size) := by
  refine Safe.read fun shm => ?_
  rintro dbg s ⟨rfl, hs⟩
  refine Safe.ite' (fun _ => freeIndex_safe hs.indexHead hsize) (fun _ => ?_) dbg s hs
  exact (indexAt_safe hs.indexHead).bind fun e => Safe.of_pure fun _ => Safe.assert'

theorem clearOverlapping_safe (hcnt : 0 < cnt) (hsize : 0 < size) (len : ℕ) :
    ∀ fuel i, i < cnt →
      Safe (InBounds cnt size) (clearOverlapping len fuel i) (fun _ => InBounds cnt size) := by
  intro fuel
  induction fuel with
  | zero =>
    intro i _
    refine Safe.read fun shm => Safe.ite' (fun _ => ?_) fun _ => ?_
    · exact Safe.stop' (by simp) (by simp)
    · exact Safe.pure' fun s hs => hs.2
  | succ n ih =>
    intro i hi
    refine Safe.read fun shm => ?_
    rintro dbg s ⟨rfl, hs⟩
    have hic : s.indexCnt = cnt := hs.indexCnt
    refine Safe.ite' (fun _ => ?_) (fun _ => Safe.pure' fun s hs => hs) dbg s hs
    refine Safe.assert'.bind fun _ => (freeIndex_safe hi hsize).bind fun _ => ?_
    refine (Safe.umod' (by omega)).bind fun i' => Safe.of_pure fun hi' => ?_
    exact ih i' (by omega)

theorem copyIn_safe (buf : ℕ → UInt8) {len : ℕ} (hsize : size < 2 ^ 63) (hlen : len ≤ size) :
    Safe (InBounds cnt size) (copyIn buf len) (fun _ => InBounds cnt size) := by
  refine Safe.read fun shm => ?_
  rintro dbg s ⟨rfl, hs⟩
  have hdh := hs.dataHead
  have hds := hs.dataSize
  have hsub : wsub s.dataSize s.dataHead = size - s.dataHead := by
    rw [hds]
    exact wsub_eq (by omega) (by omega)
  rw [hsub]
  refine Safe.ite' (fun hfit => memcpyIn_safe buf (by omega)) (fun hwrap => ?_) dbg s hs
  have hrest : wsub len (size - s.dataHead) = len - (size - s.dataHead) :=
    wsub_eq (by omega) (by omega)
  refine (memcpyIn_safe buf (by omega)).bind fun _ => ?_
  rw [hrest]
  exact memcpyIn_safe _ (by omega)

theorem modifyCounts_safe {idx len : ℕ} (hcnt : 0 < cnt) (hsize : 0 < size) (hidx : idx < cnt)
    (hlen : len ≤ size) :
    Safe (InBounds cnt size) (modifyCounts idx len) (fun _ => InBounds cnt size) := by
  refine store_then (fun s hs => ⟨hs.1, hs.2, hs.3, hs.4, hs.5, hs.6, hs.7⟩) ?_
  refine Safe.read fun shm => ?_
  rintro dbg s ⟨rfl, hs⟩
  have hic := hs.indexCnt
  have hds := hs.dataSize
  have hdh := hs.dataHead
  refine ((storeFields_safe hidx ?_).bind fun _ => ?_) dbg s hs
  · simp only [List.mem_cons, List.not_mem_nil, or_false, forall_eq_or_imp, forall_eq]
    exact ⟨fun e he => he, fun e he => ⟨he.1, hlen⟩, fun e he => ⟨hdh, he.2⟩⟩
  refine (Safe.umod' (by omega)).bind fun dataHead => Safe.of_pure fun hlt => ?_
  refine store_then (fun s hs => ⟨hs.1, hs.2, hs.3, hs.4, hs.5, by simp only; omega,
    hs.7⟩) ?_
  refine store_then (fun s hs => ⟨hs.1, hs.2, hs.3, hs.4, hs.5, hs.6, hs.7⟩) ?_
  refine (Safe.umod' (by omega)).bind fun indexHead => Safe.of_pure fun hlt => ?_
  refine store_then (fun s hs => ⟨hs.1, hs.2, hs.3, hs.4, by simp only; omega, hs.6,
    hs.7⟩) ?_
  refine store_then (fun s hs => ⟨hs.1, hs.2, hs.3, hs.4, hs.5, hs.6, hs.7⟩) ?_
  refine Safe.read fun shm => ?_
  refine Safe.conseq (P := InBounds cnt size) ?_ (fun s hs => hs.2) fun _ _ h => h
  exact Safe.assert'.bind fun _ => Safe.assert'.bind fun _ => Safe.assert'

/-- **The critical section of `ach_put`.** -/
theorem putCritical_safe (buf : ℕ → UInt8) {len : ℕ} (hcnt : 0 < cnt) (hsize : 0 < size)
    (hsmall : size < 2 ^ 63) (hlen : len ≤ size) :
    Safe (InBounds cnt size) (putCritical buf len) (fun _ => InBounds cnt size) := by
  refine Safe.read fun shm => ?_
  rintro dbg s ⟨rfl, hs⟩
  have hidx := hs.indexHead
  refine ((clearHead_safe hsize).bind fun _ => Safe.read fun shm => ?_) dbg s hs
  rintro dbg t ⟨rfl, ht⟩
  have hic := ht.indexCnt
  refine (Safe.assert'.bind fun _ => (Safe.umod' (by omega)).bind fun i =>
    Safe.of_pure fun hi => ?_) dbg t ht
  refine (clearOverlapping_safe hcnt hsize len _ i (by omega)).bind fun _ => Safe.read fun shm => ?_
  refine Safe.conseq (P := InBounds cnt size) ?_ (fun s hs => hs.2) fun _ _ h => h
  refine Safe.assert'.bind fun _ => (copyIn_safe buf hsmall hlen).bind fun _ => ?_
  exact modifyCounts_safe hcnt hsize hidx hlen

/-- **`ach_put`** on a clean channel. -/
theorem achPut_safe {shm : AchHeader} (dbg : Bool) (chan : AchChannel) (buf : Option (ℕ → UInt8))
    (len : ℕ) (hs : InBounds cnt size shm) (hc : Clean shm) (hcnt : 0 < cnt) (hsize : 0 < size)
    (hsmall : size < 2 ^ 63) : out (achPut chan buf len) dbg shm ≠ .fault ∧
      ∀ r t, out (achPut chan buf len) dbg shm = .ok (r, t) → InBounds cnt size t := by
  have hg : checkGuards shm = .ok := if_pos hc.guards
  have hsame : ∀ (r : AchStatus), (Outcome.ok (r, shm) : Outcome (AchStatus × AchHeader)) ≠ .fault ∧
      ∀ r' t, Outcome.ok (r, shm) = .ok (r', t) → InBounds cnt size t := by
    refine fun r => ⟨by simp, fun r' t ht => ?_⟩
    obtain ⟨-, rfl⟩ : r = r' ∧ shm = t := by simpa using ht
    exact hs
  cases buf with
  | none => exact hsame .einval
  | some buf =>
    by_cases h0 : len = 0 ∨ chan.mapped = false
    · rw [achPut, if_pos h0]
      exact hsame .einval
    by_cases hbig : shm.dataSize < len
    · have hout : out (achPut chan (some buf) len) dbg shm = .ok (.overflow, shm) := by
        simp [achPut, h0, hg, hbig]
      rw [hout]
      exact hsame .overflow
    have hout : out (achPut chan (some buf) len) dbg shm =
        (out (putCritical buf len) dbg { shm with mutex := .held, dirty := true }).bind fun p =>
          out unwrlock dbg p.2 := by
      simp [achPut, h0, hg, hbig, out_wrlock dbg hc.mutex hc.dirty]
    have hs' : InBounds cnt size { shm with mutex := .held, dirty := true } :=
      ⟨hs.1, hs.2, hs.3, hs.4, hs.5, hs.6, hs.7⟩
    have hlen : len ≤ size := by rw [← hs.dataSize]; omega
    obtain ⟨hne, hret⟩ := putCritical_safe buf hcnt hsize hsmall hlen dbg _ hs'
    rw [hout]
    cases hcrit : out (putCritical buf len) dbg { shm with mutex := .held, dirty := true } with
    | ok p =>
      have hfix : fixedPart p.2 = fixedPart { shm with mutex := .held, dirty := true } :=
        (putCritical_keeps (stable_fixed _) buf len dbg _ rfl).2 p.1 p.2 hcrit
      have hp := hret p.1 p.2 hcrit
      have hm : p.2.mutex = .held := mutex_of_fixedPart hfix
      have hd : p.2.dirty = true := dirty_of_fixedPart hfix
      rw [Outcome.bind_ok, out_unwrlock dbg hm hd]
      refine ⟨by simp, fun r t ht => ?_⟩
      obtain ⟨-, rfl⟩ : AchStatus.ok = r ∧ { p.2 with mutex := .free, dirty := false } = t := by
        simpa using ht
      exact ⟨hp.1, hp.2, hp.3, hp.4, hp.5, hp.6, hp.7⟩
    | fault => exact absurd hcrit hne
    | abort => simp [Outcome.bind]
    | hang => simp [Outcome.bind]
    | block => simp [Outcome.bind]

/-! ### `ach_get` and `ach_flush` -/

theorem copyOut_safe {e : AchIndex} (hsmall : size < 2 ^ 63)
    (he : e.offset < size ∧ e.size ≤ size) :
    Safe (InBounds cnt size) (copyOut e) (fun _ => InBounds cnt size) := by
  obtain ⟨hoff, hlen⟩ := he
  refine Safe.read fun shm => ?_
  rintro dbg s ⟨rfl, hs⟩
  have hadd : wadd e.offset e.size = e.offset + e.size := wadd_eq (by omega)
  have hsub : wsub s.dataSize e.offset = size - e.offset := by
    rw [hs.dataSize]
    exact wsub_eq (by omega) (by omega)
  have hds := hs.dataSize
  rw [hadd, hsub]
  refine Safe.ite' (fun hfit => memcpyOut_safe (by omega)) (fun hwrap => ?_) dbg s hs
  have hrest : wsub e.size (size - e.offset) = e.size - (size - e.offset) :=
    wsub_eq (by omega) (by omega)
  refine (memcpyOut_safe (by omega)).bind fun a => ?_
  rw [hrest]
  exact (memcpyOut_safe (by omega)).bind fun b => Safe.pure' fun s hs => hs

theorem achGetFromOffset_safe {chan : AchChannel} {i bufSize : ℕ} (hi : i < cnt)
    (hnext : chan.nextIndex < cnt) (hsmall : size < 2 ^ 63) :
    Safe (InBounds cnt size) (achGetFromOffset chan i bufSize)
      (fun r s => r.2.nextIndex < cnt ∧ InBounds cnt size s) := by
  refine Safe.read fun shm => ?_
  rintro dbg s ⟨rfl, hs⟩
  have hic := hs.indexCnt
  refine (Safe.assert'.bind fun _ => (indexAt_safe hi).bind fun e => Safe.of_pure fun he => ?_)
    dbg s hs
  refine Safe.assert'.bind fun _ => Safe.assert'.bind fun _ => ?_
  refine Safe.ite' (fun _ => Safe.pure' fun s hs => ⟨hnext, hs⟩) fun _ => ?_
  refine Safe.ite' (fun _ => Safe.pure' fun s hs => ⟨hnext, hs⟩) fun _ => ?_
  refine (copyOut_safe hsmall he).bind fun bytes => ?_
  refine (Safe.umod' (by omega)).bind fun next => Safe.of_pure fun hlt => ?_
  exact Safe.pure' fun s hs => ⟨by simp only; omega, hs⟩

theorem readIndex_safe {chan : AchChannel} (opts : AchGetOpts) (hcnt : 0 < cnt)
    (hnext : chan.nextIndex < cnt) :
    Safe (InBounds cnt size) (readIndex chan opts) (fun i s => i < cnt ∧ InBounds cnt size s) := by
  refine Safe.read fun shm => ?_
  rintro dbg s ⟨rfl, hs⟩
  have hic := hs.indexCnt
  have hmod : ∀ a, Safe (InBounds cnt size) (umod a s.indexCnt)
      (fun i s => i < cnt ∧ InBounds cnt size s) :=
    fun a => by rw [hic]; exact Safe.umod' hcnt
  refine Safe.ite' (fun _ => hmod _) (fun _ => ?_) dbg s hs
  refine (indexAt_safe hnext).bind fun e => Safe.of_pure fun _ => ?_
  refine Safe.ite' (fun _ => Safe.pure' fun s hs => ⟨hnext, hs⟩) fun _ => ?_
  exact Safe.ite' (fun _ => Safe.assert'.bind fun _ => hmod _) fun _ => hmod _

/-- **The critical section of `ach_get`** of a handle that remembers a slot of the index array. -/
theorem getCritical_safe {chan : AchChannel} (bufSize : ℕ) (opts : AchGetOpts) (hcnt : 0 < cnt)
    (hnext : chan.nextIndex < cnt) (hsmall : size < 2 ^ 63) :
    Safe (InBounds cnt size) (getCritical chan bufSize opts)
      (fun r s => r.2.nextIndex < cnt ∧ InBounds cnt size s) := by
  refine Safe.read fun shm => ?_
  refine Safe.conseq (P := InBounds cnt size) ?_ (fun s hs => hs.2) fun _ _ h => h
  refine Safe.assert'.bind fun _ => Safe.ite' (fun _ => ?_) fun _ => ?_
  · exact Safe.assert'.bind fun _ => Safe.pure' fun s hs => ⟨hnext, hs⟩
  · refine (readIndex_safe opts hcnt hnext).bind fun i => Safe.of_pure fun hi => ?_
    refine (indexAt_safe hi).bind fun e => Safe.of_pure fun _ => ?_
    refine (achGetFromOffset_safe hi hnext hsmall).bind fun r => Safe.of_pure fun hr => ?_
    refine Safe.assert'.bind fun _ => ?_
    exact Safe.ite' (fun _ => Safe.pure' fun s hs => ⟨hr, hs⟩) fun _ =>
      Safe.pure' fun s hs => ⟨hr, hs⟩

end

/-! ### Reachable states -/

variable {H : Type} [DecidableEq H] {dbg : Bool}

/-- **The positions in the block and in the open handles are in bounds.** -/
structure Bounded (cnt size : ℕ) (s : Sys H) : Prop where
  block : InBounds cnt size s.shm
  clean : Clean s.shm
  next : ∀ h, (s.chan h).mapped = true → (s.chan h).nextIndex < cnt
  live : ∀ h, (s.chan h).mapped = true → (s.chan h).cancel = false

section
variable {cnt size : ℕ} {s t : Sys H} {h : H}

/-- A read moves the cursor of its handle to a slot of the index array. -/
theorem Bounded.read {chan : AchChannel} (hs : Bounded cnt size s) (hnext : chan.nextIndex < cnt)
    (hlive : chan.cancel = false) : Bounded cnt size ⟨s.shm, Function.update s.chan h chan⟩ := by
  refine ⟨hs.block, hs.clean, fun g hg => ?_, fun g hg => ?_⟩
  · by_cases hgh : g = h
    · subst hgh; simpa using hnext
    · simp only [Function.update_of_ne hgh] at hg ⊢
      exact hs.next g hg
  · by_cases hgh : g = h
    · subst hgh; simpa using hlive
    · simp only [Function.update_of_ne hgh] at hg ⊢
      exact hs.live g hg

/-- `ach_get` does not fault if no state in which its wait can end makes its critical section
fault. -/
theorem achGet_safe {ws : List WaitEvent} {fs : List (List UInt8)} (bufSize : ℕ) (abstime : Bool)
    (opts : AchGetOpts) (hs : Bounded cnt size s) (hcnt : 0 < cnt) (hsmall : size < 2 ^ 63)
    (hm : (s.chan h).mapped = true) (hws : Waits dbg h s ws fs)
    (hend : ∀ gs t, Steps dbg (· ≠ h) s gs t → InBounds cnt size t.shm) :
    out (achGet (s.chan h) bufSize abstime opts ws) dbg s.shm ≠ .fault ∧
      ∀ r u, out (achGet (s.chan h) bufSize abstime opts ws) dbg s.shm = .ok (r, u) →
        r.2.nextIndex < cnt := by
  cases achGet_waits bufSize abstime opts hws hs.clean hm (hs.live h hm) with
  | blocked hw hon ho =>
    rw [ho]
    simp
  | timeout hsteps hgs hw hran ho =>
    rw [ho]
    refine ⟨by simp, fun r u hr => ?_⟩
    obtain ⟨rfl, -⟩ : (GetResult.bare .timeout, s.chan h) = r ∧ _ = u := by simpa using hr
    exact hs.next h hm
  | taken hsteps hgs hnow hnew ho =>
    rename_i t gs
    have ht := hend gs t hsteps
    have ht' : InBounds cnt size (setMutex .held t.shm) :=
      ⟨ht.1, ht.2, ht.3, ht.4, ht.5, ht.6, ht.7⟩
    obtain ⟨hne, hret⟩ := getCritical_safe bufSize opts hcnt (hs.next h hm) hsmall dbg _ ht'
    rw [ho]
    cases hcrit : out (getCritical (s.chan h) bufSize opts) dbg (setMutex .held t.shm) with
    | ok p =>
      refine ⟨by simp, fun r u hr => ?_⟩
      obtain ⟨rfl, -⟩ : p.1 = r ∧ t.shm = u := by simpa using hr
      exact (hret p.1 p.2 hcrit).1
    | fault => exact absurd hcrit hne
    | abort => simp [Outcome.bind]
    | hang => simp [Outcome.bind]
    | block => simp [Outcome.bind]

/-- `ach_flush` on a clean channel. -/
theorem out_achFlush {shm : AchHeader} {chan : AchChannel} (dbg : Bool) (hc : Clean shm)
    (hm : chan.mapped = true) (hlive : chan.cancel = false) :
    out (achFlush chan) dbg shm =
      .ok ((.ok, { chan with seqNum := shm.lastSeq, nextIndex := shm.indexHead }), shm) := by
  have hr : out (rdlock chan false false []) dbg shm = .ok ((.ok, chan), setMutex .held shm) :=
    rdlock_now dbg false [] hc hlive (by simp)
  have hun := out_unrdlock_held dbg hc
  rw [achFlush, if_neg (by simp [hm]), out_bind, hr, Outcome.bind_ok]
  simp only [ne_eq, not_true_eq_false, if_false, out_bind, flushCritical, out_load, out_pure,
    Outcome.bind_ok, hun]
  rfl

/-- The block stays in bounds whatever slots the handles remember. -/
theorem Step.inBounds {fs : List (List UInt8)} (hstep : Step dbg h s fs t) (hc : Clean s.shm)
    (hs : InBounds cnt size s.shm) (hcnt : 0 < cnt) (hsize : 0 < size) (hsmall : size < 2 ^ 63) :
    InBounds cnt size t.shm := by
  cases hstep with
  | opens ho => exact hs
  | call hm hcall =>
    rename_i c r
    by_cases hput : ∃ buf len, c = .put buf len
    · obtain ⟨buf, len, rfl⟩ := hput
      obtain ⟨p, hp, hr⟩ := Outcome.bind_eq_ok.mp hcall
      obtain ⟨-, rfl⟩ : Reply.put p.1 p.2 = r ∧ { s with shm := p.2 } = t := by simpa using hr
      exact (achPut_safe dbg _ buf len hs hc hcnt hsize hsmall).2 p.1 p.2 hp
    · rw [(call_read hc (fun buf len he => hput ⟨buf, len, he⟩) hcall).1]
      exact hs

theorem Steps.inBounds {who : H → Prop} {fs : List (List UInt8)} (hsteps : Steps dbg who s fs t)
    (hc : Clean s.shm) (hs : InBounds cnt size s.shm) (hcnt : 0 < cnt) (hsize : 0 < size)
    (hsmall : size < 2 ^ 63) : InBounds cnt size t.shm := by
  induction hsteps with
  | refl =>
    exact hs
  | step hsteps _ hstep ih =>
    exact Step.inBounds hstep (hsteps.clean hc) ih hcnt hsize hsmall

/-- **The step lemma.** Opening a handle needs a second index entry. -/
theorem Bounded.step {fs : List (List UInt8)} (hs : Bounded cnt size s) (hcnt : 2 ≤ cnt)
    (hsize : 0 < size) (hsmall : size < 2 ^ 63) (hstep : Step dbg h s fs t) :
    Bounded cnt size t := by
  have hblock := Step.inBounds hstep hs.clean hs.block (by omega) hsize hsmall
  have hclean := hstep.clean hs.clean
  cases hstep with
  | opens ho =>
    rw [(achOpen_ok ho).1]
    exact hs.read hcnt rfl
  | call hm hcall =>
    rename_i c r
    cases c with
    | put buf len =>
      obtain ⟨p, hp, hr⟩ := Outcome.bind_eq_ok.mp hcall
      obtain ⟨-, rfl⟩ : Reply.put p.1 p.2 = r ∧ { s with shm := p.2 } = t := by simpa using hr
      exact ⟨hblock, hclean, hs.next, hs.live⟩
    | get bufSize abstime opts ws =>
      obtain ⟨hshm, -, -, -, hcancel⟩ := call_read hs.clean (by simp) hcall
      obtain ⟨p, hp, hr⟩ := Outcome.bind_eq_ok.mp hcall
      obtain ⟨-, rfl⟩ : Reply.get p.1.1 p.1.2 = r ∧ ⟨p.2, Function.update s.chan h p.1.2⟩ = t := by
        simpa using hr
      have hsame : p.2 = s.shm := hshm
      rw [hsame]
      refine hs.read ?_ ?_
      · exact (achGet_safe bufSize abstime opts hs (by omega) hsmall hm (waits_quiet h s ws)
          fun gs t ht => Steps.inBounds ht hs.clean hs.block (by omega) hsize hsmall).2 _ _ hp
      · simp only [Function.update_self] at hcancel
        rw [hcancel, hs.live h hm]
    | flush =>
      rw [Sys.call, out_achFlush dbg hs.clean hm (hs.live h hm), Outcome.bind_ok,
        Outcome.ok.injEq, Prod.mk.injEq] at hcall
      obtain ⟨-, rfl⟩ := hcall
      exact hs.read hs.block.indexHead (hs.live h hm)

/-- The block stays in bounds, also with one index entry. -/
theorem Reachable.inBounds {frameSize : ℕ} {hist : List (List UInt8)}
    (hs : Reachable dbg cnt frameSize hist s) (hcnt : 0 < cnt) (hpos : 0 < cnt * frameSize)
    (hwrap : NoWrap cnt frameSize) :
    InBounds cnt (cnt * frameSize) s.shm ∧ cnt * frameSize < 2 ^ 63 := by
  induction hs with
  | create hc _ =>
    obtain ⟨hshm, hlen⟩ := achCreate_ok hc
    have hsum := createLen_eq hwrap
    have hmul : wmul cnt frameSize = cnt * frameSize := wmul_eq (by unfold NoWrap at hwrap; omega)
    refine ⟨?_, by omega⟩
    rw [hshm]
    refine ⟨rfl, hmul, by simp [created], by simp [created, hmul], hcnt, hpos, fun e he => ?_⟩
    obtain rfl : e = .zero := List.eq_of_mem_replicate he
    exact ⟨hpos, Nat.zero_le _⟩
  | step hs hstep ih => exact ⟨Step.inBounds hstep hs.clean ih.1 hcnt hpos ih.2, ih.2⟩

theorem Reachable.bounded {frameSize : ℕ} {hist : List (List UInt8)}
    (hs : Reachable dbg cnt frameSize hist s) (hcnt : 2 ≤ cnt) (hsize : 1 ≤ frameSize)
    (hwrap : NoWrap cnt frameSize) :
    Bounded cnt (cnt * frameSize) s ∧ cnt * frameSize < 2 ^ 63 := by
  have hpos : 0 < cnt * frameSize := Nat.mul_pos (by omega) hsize
  have hsmall := (Reachable.inBounds hs (by omega) hpos hwrap).2
  refine ⟨?_, hsmall⟩
  induction hs with
  | create hc hm =>
    have hcreated := Reachable.create (H := H) hc hm
    refine ⟨(Reachable.inBounds hcreated (by omega) hpos hwrap).1, hcreated.clean, ?_, ?_⟩
    all_goals
      intro h hh
      rw [hm h] at hh
      simp at hh
  | step _ hstep ih => exact ih.step hcnt hpos hsmall hstep

end

/-- **Every access to the index array is at one of its entries**, from this state on: each open
handle remembers one, and no call on an open handle faults, also if it waits while the other handles
go on. An access to either array outside of it is a fault. -/
structure InRange (dbg : Bool) (s : Sys H) : Prop where
  slots : s.shm.index.length = s.shm.indexCnt
  next : ∀ h, (s.chan h).mapped = true → (s.chan h).nextIndex < s.shm.indexCnt
  calls : ∀ h c, (s.chan h).mapped = true → s.call dbg h c ≠ .fault
  waiting : ∀ h bufSize abstime opts ws fs, (s.chan h).mapped = true → Waits dbg h s ws fs →
    out (achGet (s.chan h) bufSize abstime opts ws) dbg s.shm ≠ .fault

theorem Bounded.inRange {cnt size : ℕ} {s : Sys H} (hs : Bounded cnt size s) (hcnt : 0 < cnt)
    (hsize : 0 < size) (hsmall : size < 2 ^ 63) : InRange dbg s := by
  have hget : ∀ h bufSize abstime opts ws fs, (s.chan h).mapped = true → Waits dbg h s ws fs →
      out (achGet (s.chan h) bufSize abstime opts ws) dbg s.shm ≠ .fault :=
    fun h bufSize abstime opts ws fs hm hws =>
      (achGet_safe bufSize abstime opts hs hcnt hsmall hm hws fun gs t ht =>
        Steps.inBounds ht hs.clean hs.block hcnt hsize hsmall).1
  constructor
  case slots => rw [hs.block.indexLen, hs.block.indexCnt]
  case next =>
    intro h hm
    rw [hs.block.indexCnt]
    exact hs.next h hm
  case calls =>
    intro h c hm
    cases c with
    | put buf len =>
      have hne := (achPut_safe dbg (s.chan h) buf len hs.block hs.clean hcnt hsize hsmall).1
      rw [Sys.call]
      cases hout : out (achPut (s.chan h) buf len) dbg s.shm <;> simp_all [Outcome.bind]
    | get bufSize abstime opts ws =>
      have hne := hget h bufSize abstime opts _ _ hm (waits_quiet h s ws)
      rw [Sys.call]
      cases hout : out (achGet (s.chan h) bufSize abstime opts (ws.map WaitEnd.event)) dbg s.shm <;>
        simp_all [Outcome.bind]
    | flush =>
      rw [Sys.call, out_achFlush dbg hs.clean hm (hs.live h hm)]
      simp
  case waiting => exact hget

/-- **The index array is accessed in bounds** in every reachable state, for any number of puts, if
and only if the channel has at least two index entries. -/
theorem index_in_bounds_iff [Nonempty H] {env : CreateEnv} {name : List UInt8}
    {cnt frameSize : ℕ} {mapAnon : Bool} {shm : AchHeader} (hcnt : 1 ≤ cnt) (hsize : 1 ≤ frameSize)
    (hwrap : NoWrap cnt frameSize)
    (hcreate : achCreate dbg env name cnt frameSize mapAnon = .ok (.ok shm)) :
    (∀ (hist : List (List UInt8)) (s : Sys H), Reachable dbg cnt frameSize hist s →
      InRange dbg s) ↔ 2 ≤ cnt := by
  constructor
  · intro hall
    by_contra hlt
    obtain ⟨h⟩ := ‹Nonempty H›
    have hshm : shm = created cnt frameSize := (achCreate_ok hcreate).1
    have hopen : achOpen OpenEnv.allOk [] true shm = .ok (.ok (openedChan shm)) := by
      have hg : checkGuards shm = .ok := by rw [hshm]; exact if_pos (clean_created _ _).guards
      simp [achOpen, initChan, hg]
    have hreach : Reachable dbg cnt frameSize []
        (⟨shm, fun _ => ⟨false, 0, 0, 0, false⟩⟩ : Sys H) :=
      .create hcreate fun _ => rfl
    have hrange := hall _ _ (hreach.step (.opens (h := h) hopen))
    have hnext := hrange.next h (by simp [openedChan])
    simp only [Function.update_self, openedChan, hshm, created] at hnext
    omega
  · intro hcnt hist s hs
    obtain ⟨hbounded, hsmall⟩ := Reachable.bounded hs hcnt hsize hwrap
    exact hbounded.inRange (by omega) (Nat.mul_pos (by omega) hsize) hsmall

theorem index_in_bounds_iff_sample :
    (∀ (hist : List (List UInt8)) (s : Sys Bool), Reachable true 2 3 hist s → InRange true s) ↔
      2 ≤ 2 :=
  index_in_bounds_iff (by decide) (by decide) (by decide)
    (show achCreate true CreateEnv.allOk [97] 2 3 false = .ok (.ok (created 2 3)) by decide)

/-- A handle on a channel of one frame of 3 bytes remembers slot 1, which is past the end. After a
put it reads that slot. -/
theorem one_slot_out_of_range : NoWrap 1 3 ∧ ∃ (hist : List (List UInt8)) (s : Sys Unit),
    Reachable true 1 3 hist s ∧ (s.chan ()).mapped = true ∧
      ¬ (s.chan ()).nextIndex < s.shm.indexCnt ∧
      s.call true () (.get 8 false ⟨false, false, false⟩ []) = .fault := by
  refine ⟨by decide, ?_⟩
  have hcreate : achCreate true CreateEnv.allOk [97] 1 3 false = .ok (.ok (created 1 3)) := by
    decide
  have hopen : achOpen OpenEnv.allOk [97] false (created 1 3) =
      .ok (.ok (openedChan (created 1 3))) := by
    decide
  let s : Sys Unit := ⟨created 1 3, fun _ => ⟨false, 0, 0, 0, false⟩⟩
  have hreach : Reachable true 1 3 [] s := .create hcreate fun _ => rfl
  have hopened := hreach.step (.opens (h := ()) hopen)
  have hval : ((Sys.call true ⟨created 1 3, Function.update s.chan () (openedChan (created 1 3))⟩ ()
      (.put (some fun _ => 7) 2)).bind fun p => .ok ((p.2.chan ()).mapped, (p.2.chan ()).nextIndex,
        p.2.shm.indexCnt,
        p.2.call true () (.get 8 false ⟨false, false, false⟩ []) matches .fault)) =
      .ok (true, 1, 1, true) := by
    decide +kernel
  obtain ⟨⟨r, t⟩, hcall, hval⟩ := Outcome.bind_eq_ok.mp hval
  simp only [Outcome.ok.injEq, Prod.mk.injEq] at hval
  obtain ⟨hm, hnext, hic, hfault⟩ := hval
  refine ⟨_, t, hopened.step (.call (h := ()) rfl hcall), hm, by rw [hnext, hic]; decide, ?_⟩
  revert hfault
  cases t.call true () (.get 8 false ⟨false, false, false⟩ []) <;> simp

end Ach.Channel.Bounds
