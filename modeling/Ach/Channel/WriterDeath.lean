import Ach.Channel.Runs

/-! # The death of a writer

A writer that dies inside `ach_put` while the dirty flag is set leaves a channel whose mutex is
abandoned, whose dirty flag is set and whose guards are intact (`dead_of_log`). `ach_get` and
`ach_flush` look at the status of the lock and report `ACH_CORRUPT`, for good. `ach_put` takes the
lock with `wrlock` and does not look at its status: it works on the half-written channel without
holding the mutex, clears the dirty flag and releases a mutex it does not hold. So the death stays
detected exactly as long as nobody puts (`detected_iff`). -/

namespace Ach.Channel.WriterDeath

open Ach.Lib.Run
open Ach.Channel.Types Ach.Channel.Lock Ach.Channel.Put Ach.Channel.Get Ach.Channel.Create
open Ach.Channel.Invariant Ach.Channel.PutSpec Ach.Channel.Frame Ach.Channel.GetSpec
open Ach.Channel.History Ach.Channel.Runs

variable {H : Type} [DecidableEq H] {shm : AchHeader}

/-! ### What the writer leaves behind -/

/-- A channel some writer died in. -/
structure Dead (shm : AchHeader) : Prop where
  dirty : shm.dirty = true
  mutex : shm.mutex = .free ∨ shm.mutex = .abandoned
  guards : GuardsOk shm

/-- The block when the process that runs on it dies. -/
def ownerDies (shm : AchHeader) : AchHeader := { shm with mutex := shm.mutex.ownerDies }

theorem wrlock_holds (hc : Clean shm) :
    Holds (· = shm) wrlock
      (fun _ => Fixed (fixedPart { shm with mutex := .held, dirty := true }))
      fun t => t.dirty = true →
        fixedPart t = fixedPart { shm with mutex := .held, dirty := true } := by
  rintro dbg s rfl
  have hlog : log wrlock dbg s = [setMutex .held s, { s with mutex := .held, dirty := true }] := by
    simp [wrlock, chanLock, pthreadMutexLock, checkLock, checkDirty, log_bind, hc.mutex, hc.dirty,
      setMutex, out_assert]
  constructor
  · intro t ht hd
    rw [hlog] at ht
    rcases List.mem_cons.mp ht with rfl | ht
    · exact absurd hd (by simp [setMutex, hc.dirty])
    · rw [List.mem_singleton.mp ht]
  · intro r t hr
    rw [out_wrlock dbg hc.mutex hc.dirty, Outcome.ok.injEq, Prod.mk.injEq] at hr
    rw [← hr.2]
    rfl

/-- `unwrlock` clears the dirty flag first. -/
theorem unwrlock_holds {P : AchHeader → Prop} :
    Holds P unwrlock (fun _ t => t.dirty = false) fun t => t.dirty = false := by
  unfold unwrlock
  refine Holds.read fun s => Holds.assert'.bind fun _ => ?_
  refine Holds.bind (Q := fun _ (t : AchHeader) => t.dirty = false)
    (Holds.store' fun s _ => ⟨rfl, rfl⟩) fun _ => ?_
  refine (pthreadMutexUnlock_keeps fun _ _ _ hs => hs).bind fun r => ?_
  refine Holds.ite' (fun _ => Holds.pure' fun _ hs => hs) fun _ => ?_
  unfold pthreadCondBroadcast
  refine (Holds.pure' (Q := fun _ (t : AchHeader) => t.dirty = false)
    fun _ hs => hs).bind fun r => ?_
  exact Holds.ite' (fun _ => Holds.pure' fun _ hs => hs) fun _ => Holds.pure' fun _ hs => hs

/-- While a put has the dirty flag set, the mutex is held, and the guards and sizes are as before.
-/
theorem log_achPut {dbg : Bool} {chan : AchChannel} {buf : ℕ → UInt8} {len : ℕ} (hc : Clean shm)
    {t : AchHeader} (ht : t ∈ log (achPut chan (some buf) len) dbg shm) (hd : t.dirty = true) :
    fixedPart t = fixedPart { shm with mutex := .held, dirty := true } := by
  set v := fixedPart { shm with mutex := .held, dirty := true } with hv
  have key : Holds (· = shm) (achPut chan (some buf) len) (fun _ _ => True)
      fun t => t.dirty = true → fixedPart t = v := by
    unfold achPut
    refine Holds.ite' (fun _ => Holds.pure' fun _ _ => trivial) fun _ => Holds.read fun s => ?_
    refine Holds.ite' (fun _ => Holds.pure' fun _ _ => trivial) fun _ => ?_
    refine Holds.ite' (fun _ => Holds.pure' fun _ _ => trivial) fun _ => ?_
    refine Holds.ite' (fun _ => Holds.pure' fun _ _ => trivial) fun _ => ?_
    refine (wrlock_holds hc).bind fun r => ?_
    refine Holds.bind (Q := fun _ => Fixed v) ?_ fun _ => ?_
    · intro dbg s hs
      obtain ⟨hlog, hout⟩ := putCritical_keeps (stable_fixed v) buf len dbg s hs
      exact ⟨fun t ht _ => hlog t ht, hout⟩
    · intro dbg s hs
      obtain ⟨hlog, -⟩ := unwrlock_holds (P := Fixed v) dbg s hs
      exact ⟨fun t ht hd => absurd hd (by rw [hlog t ht]; simp), fun _ _ _ => trivial⟩
  exact (key dbg shm rfl).1 t ht hd

/-- **What a dying writer leaves** is a dead channel of the same size. -/
theorem dead_of_log {dbg : Bool} {chan : AchChannel} {buf : ℕ → UInt8} {len : ℕ} (hc : Clean shm)
    {t : AchHeader} (ht : t ∈ log (achPut chan (some buf) len) dbg shm) (hd : t.dirty = true) :
    Dead (ownerDies t) ∧ (ownerDies t).dataSize = shm.dataSize := by
  have hfix := log_achPut hc ht hd
  have hm : t.mutex = .held := mutex_of_fixedPart hfix
  have hg : GuardsOk t := (guardsOk_of_fixedPart hfix).mpr hc.guards
  have hsize := dataSize_of_fixedPart hfix
  exact ⟨⟨hd, Or.inr (by simp [ownerDies, hm, Mutex.ownerDies]), hg⟩, hsize⟩

/-! ### The calls on a dead channel -/

/-- The lock is refused, and released again. -/
theorem out_chanLock_dead (dbg : Bool) (h : Dead shm) :
    out chanLock dbg shm = .ok (.corrupt, setMutex .free shm) := by
  have hd := h.dirty
  rcases h.mutex with hm | hm <;>
    simp [chanLock, pthreadMutexLock, checkLock, pthreadMutexConsistent, checkDirty,
      pthreadMutexUnlock, hm, hd, setMutex]

theorem Dead.free (h : Dead shm) : Dead (setMutex .free shm) := ⟨h.dirty, Or.inl rfl, h.guards⟩

theorem out_rdlock_dead (dbg : Bool) (h : Dead shm) (chan : AchChannel) (wait abstime : Bool)
    (ws : List WaitEvent) :
    out (rdlock chan wait abstime ws) dbg shm = .ok ((.corrupt, chan), setMutex .free shm) := by
  simp [rdlock, out_chanLock_dead dbg h]

/-- `ach_get` reports the death. -/
theorem achGet_dead (dbg : Bool) (h : Dead shm) {chan : AchChannel} (hmap : chan.mapped = true)
    (n : ℕ) (abstime : Bool) (opts : AchGetOpts) (ws : List WaitEvent) :
    out (achGet chan n abstime opts ws) dbg shm =
      .ok ((.bare .corrupt, chan), setMutex .free shm) := by
  have hg : checkGuards shm = .ok := if_pos h.guards
  simp [achGet, hmap, hg, out_rdlock_dead dbg h]

/-- `ach_flush` reports the death. -/
theorem achFlush_dead (dbg : Bool) (h : Dead shm) {chan : AchChannel} (hmap : chan.mapped = true) :
    out (achFlush chan) dbg shm = .ok ((.corrupt, chan), setMutex .free shm) := by
  simp [achFlush, hmap, out_rdlock_dead dbg h]

/-- **`ach_put` does not:** if it returns at all, it has cleared the dirty flag, has released a
mutex it does not hold, and returns `ACH_FAILED_SYSCALL`. -/
theorem achPut_dead {dbg : Bool} (h : Dead shm) {chan : AchChannel} (hmap : chan.mapped = true)
    {buf : ℕ → UInt8} {len : ℕ} (hpos : 1 ≤ len) (hlen : len ≤ shm.dataSize) {r : AchStatus}
    {shm' : AchHeader} (hout : out (achPut chan (some buf) len) dbg shm = .ok (r, shm')) :
    r = .failedSyscall ∧ shm'.dirty = false ∧ shm'.strayUnlocks = shm.strayUnlocks + 1 := by
  have hg : checkGuards shm = .ok := if_pos h.guards
  have hlock : out wrlock dbg shm = .ok (.corrupt, setMutex .free shm) := by
    simp [wrlock, out_chanLock_dead dbg h]
  unfold achPut at hout
  simp only [show ¬ (len = 0 ∨ chan.mapped = false) by simp [hmap]; omega, if_false, out_bind,
    out_load, Outcome.bind_ok, hg, ne_eq, not_true_eq_false, out_ite,
    show ¬ shm.dataSize < len by omega, hlock] at hout
  obtain ⟨⟨⟨⟩, s₁⟩, hcrit, hout⟩ := Outcome.bind_eq_ok.mp hout
  have hfix : fixedPart s₁ = fixedPart (setMutex .free shm) :=
    (putCritical_keeps (stable_fixed _) buf len dbg _ rfl).2 _ _ hcrit
  have hm : s₁.mutex = .free := mutex_of_fixedPart hfix
  have hd : s₁.dirty = true := (dirty_of_fixedPart hfix).trans h.dirty
  have hstray : s₁.strayUnlocks = shm.strayUnlocks := by
    have := congrArg AchHeader.strayUnlocks hfix
    exact this
  simp only [unwrlock, out_bind, out_load, Outcome.bind_ok, out_assert hd, out_store,
    pthreadMutexUnlock, hm, out_pure, ne_eq, reduceCtorEq, not_false_eq_true, if_true,
    Outcome.ok.injEq, Prod.mk.injEq] at hout
  obtain ⟨rfl, rfl⟩ := hout
  exact ⟨rfl, rfl, by simp [hstray]⟩

/-! ### Later calls -/

/-- The status of a call. -/
def Reply.status : Reply → AchStatus
  | .put r _ => r
  | .get res _ => res.status
  | .flush r _ => r

/-- **Detected for good:** every one of the calls returns `ACH_CORRUPT` and leaves everything but
the mutex as it was, the count of releases of a mutex that was not held included. -/
def Detected (dbg : Bool) : List (H × Call) → Sys H → Prop
  | [], _ => True
  | (h, c) :: cs, s => ∃ r s', s.call dbg h c = .ok (r, s') ∧ Reply.status r = .corrupt ∧
    setMutex .free s'.shm = setMutex .free s.shm ∧ Detected dbg cs s'

/-- A put has a buffer and a length the channel can hold. -/
def Valid (size : ℕ) : Call → Prop
  | .put buf len => buf.isSome ∧ 1 ≤ len ∧ len ≤ size
  | _ => True

/-- A read on a dead channel. -/
theorem call_dead (dbg : Bool) {s : Sys H} (hs : Dead s.shm) (hmap : ∀ h, (s.chan h).mapped = true)
    (h : H) {c : Call} (hc : c.isPut = false) :
    ∃ r s', s.call dbg h c = .ok (r, s') ∧ Reply.status r = .corrupt ∧
      s'.shm = setMutex .free s.shm ∧ s'.chan = s.chan := by
  cases c with
  | put buf len => simp [Call.isPut] at hc
  | get n abstime opts ws =>
    refine ⟨.get (.bare .corrupt) (s.chan h), ⟨setMutex .free s.shm, s.chan⟩, ?_, rfl, rfl, rfl⟩
    rw [Sys.call, achGet_dead dbg hs (hmap h), Outcome.bind_ok, Function.update_eq_self]
  | flush =>
    refine ⟨.flush .corrupt (s.chan h), ⟨setMutex .free s.shm, s.chan⟩, ?_, rfl, rfl, rfl⟩
    rw [Sys.call, achFlush_dead dbg hs (hmap h), Outcome.bind_ok, Function.update_eq_self]

/-- **The run lemma:** on a dead channel the death stays detected if and only if nobody puts. -/
theorem detected_iff_of_dead (dbg : Bool) : ∀ (calls : List (H × Call)) (s : Sys H), Dead s.shm →
    (∀ h, (s.chan h).mapped = true) → (∀ c ∈ calls, Valid s.shm.dataSize c.2) →
    (Detected dbg calls s ↔ putCount calls = 0) := by
  intro cs
  induction cs with
  | nil =>
    intro s _ _ _
    simp [Detected, putCount]
  | cons p cs ih =>
    intro s hs hmap hvalid
    obtain ⟨h, c⟩ := p
    have hcount := putCount_cons h c cs
    cases hput : c.isPut with
    | true =>
      rw [hcount, hput, if_pos rfl]
      refine ⟨?_, fun h0 => absurd h0 (by omega)⟩
      rintro ⟨r, s', hcall, hst, -⟩
      cases c with
      | put buf len =>
        obtain ⟨hbuf, hpos, hlen⟩ := hvalid (h, .put buf len) List.mem_cons_self
        obtain ⟨buf, rfl⟩ := Option.isSome_iff_exists.mp hbuf
        obtain ⟨p, hp, hr⟩ := Outcome.bind_eq_ok.mp hcall
        obtain ⟨rfl, -⟩ : Reply.put p.1 p.2 = r ∧ { s with shm := p.2 } = s' := by simpa using hr
        have hfail := (achPut_dead hs (hmap h) hpos hlen hp).1
        rw [Reply.status, hfail] at hst
        simp at hst
      | get n abstime opts ws => simp [Call.isPut] at hput
      | flush => simp [Call.isPut] at hput
    | false =>
      obtain ⟨r, s', hcall, hst, hshm, hchan⟩ := call_dead dbg hs hmap h hput
      replace ih := ih s' (by rw [hshm]; exact hs.free)
        (by rw [hchan]; exact hmap)
        (fun d hd => by rw [hshm]; exact hvalid d (List.mem_cons_of_mem _ hd))
      rw [hcount, hput, if_neg (by simp), Nat.add_zero, ← ih]
      constructor
      · rintro ⟨r', s'', hcall', -, -, hrest⟩
        rw [hcall, Outcome.ok.injEq, Prod.mk.injEq] at hcall'
        rw [hcall'.2]
        exact hrest
      · exact fun hrest => ⟨r, s', hcall, hst, by rw [hshm]; rfl, hrest⟩

/-- **The death of a writer** at any point of `ach_put` at which the dirty flag is set is detected
by every later call, for good, if and only if none of the later calls is an `ach_put`. -/
theorem writer_death_detected_iff (dbg : Bool) (hc : Clean shm) (chan : AchChannel)
    (buf : ℕ → UInt8) (len : ℕ) {t : AchHeader}
    (ht : t ∈ log (achPut chan (some buf) len) dbg shm) (hd : t.dirty = true)
    (chans : H → AchChannel) (hmap : ∀ h, (chans h).mapped = true) (calls : List (H × Call))
    (hvalid : ∀ c ∈ calls, Valid shm.dataSize c.2) :
    Detected dbg calls ⟨ownerDies t, chans⟩ ↔ ∀ c ∈ calls, c.2.isPut = false := by
  obtain ⟨hdead, hsize⟩ := dead_of_log hc ht hd
  rw [detected_iff_of_dead dbg calls _ hdead hmap (by rw [hsize]; exact hvalid), putCount,
    List.countP_eq_zero]
  simp

/-- A put of two bytes on a channel of 2 frames of 3 bytes, whose writer dies right after it has set
the dirty flag. -/
def sampleDeath : AchHeader := ownerDies { created 2 3 with mutex := .held, dirty := true }

theorem writer_death_detected_iff_sample :
    Detected true [(true, .get 8 false ⟨false, false, false⟩ []), (false, .flush)]
        ⟨sampleDeath, fun _ : Bool => openedChan (created 2 3)⟩ ↔
      ∀ c ∈ [(true, Call.get 8 false ⟨false, false, false⟩ []), (false, Call.flush)],
        c.2.isPut = false :=
  writer_death_detected_iff true (clean_created 2 3) (openedChan (created 2 3)) (fun _ => 1) 2
    (by decide +kernel) rfl _ (fun _ => rfl) _ (by simp [Valid])

/-- The next put works on the channel without the lock and clears the dirty flag, and from then on
nobody detects anything. -/
theorem writer_death_undetected :
    { created 2 3 with mutex := .held, dirty := true } ∈
        log (achPut (openedChan (created 2 3)) (some fun _ => 1) 2) true (created 2 3) ∧
      ¬ Detected true [(true, .put (some fun _ => 7) 3)]
        ⟨sampleDeath, fun _ : Bool => openedChan (created 2 3)⟩ ∧
      (out (achPut (openedChan (created 2 3)) (some fun _ => 7) 3) true sampleDeath).bind
        (fun p => (out (achGet (openedChan (created 2 3)) 8 false ⟨false, false, false⟩ []) true
          p.2).bind fun q => .ok (p.1, p.2.dirty, p.2.strayUnlocks, q.1.1.status)) =
        .ok (.failedSyscall, false, 1, .ok) := by
  refine ⟨by decide +kernel, ?_, by decide +kernel⟩
  have hdead : Dead sampleDeath := ⟨rfl, Or.inr rfl, rfl, rfl, rfl, rfl⟩
  have hvalid : ∀ c ∈ [(true, Call.put (some fun _ => 7) 3)], Valid sampleDeath.dataSize c.2 := by
    intro c hc
    rw [List.mem_singleton.mp hc]
    exact ⟨rfl, by decide, by decide⟩
  rw [detected_iff_of_dead true _ _ hdead (fun _ => rfl) hvalid]
  decide

end Ach.Channel.WriterDeath
