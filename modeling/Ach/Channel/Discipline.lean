import Ach.Channel.Create
import Ach.Channel.Frame

/-! # Lock discipline of the read paths

`rdlock` is followed through any list of waits: any result of the lock and of each wait, any change
other parties make to the block while the caller waits, and the cancel flag set at any time. The
block is described as a block `b` with the mutex in a state `m` (`setMutex m b`): the lock functions
change nothing but `m`, and during a wait `b` becomes what the other parties made of it (`advance`).

So `rdlock` returns `ACH_OK` only with the mutex held and any other status only without it
(`rdlock_holds`), and `ach_get`, `ach_flush` and `ach_cancel` give back what they take. -/

namespace Ach.Channel.Discipline

open Ach.Lib.Run
open Ach.Channel.Types Ach.Channel.Lock Ach.Channel.Get Ach.Channel.Create Ach.Channel.Frame

/-! ### `ach_cancel` -/

/-- `ach_cancel`. `attr` is the `async_unsafe` field of the attributes given, `none` for `NULL`;
`forked` says whether `fork` succeeds. What the child process does is `achCancelChild`. -/
def achCancel (chan : AchChannel) (attr : Option Bool) (forked : Bool) :
    Exec AchHeader (AchStatus × AchChannel) :=
  if attr.getD false then
    if chan.mapped = false then stop .fault
    else do
      let r ← chanLock
      if r ≠ .ok then pure (r, chan)
      else do
        let chan := { chan with cancel := true }
        let r ← pthreadMutexUnlock
        if r ≠ .zero then pure (.failedSyscall, chan)
        else do
          let r ← pthreadCondBroadcast
          if r ≠ .zero then pure (.failedSyscall, chan) else pure (.ok, chan)
  else do
    let chan := { chan with cancel := true }
    if forked then pure (.ok, chan) else pure (.failedSyscall, chan)

/-- The child that an async-safe `ach_cancel` forks; it exits with success or failure. -/
def achCancelChild (chan : AchChannel) : Exec AchHeader Bool :=
  if chan.mapped = false then stop .fault
  else do
    let r ← chanLock
    if r ≠ .ok then pure false
    else do
      let r ← pthreadMutexUnlock
      if r ≠ .zero then pure false
      else do
        let r ← pthreadCondBroadcast
        if r ≠ .zero then pure false else pure true

/-! ### Holding the mutex -/

/-- The calling thread holds the mutex. -/
def heldByCaller : Mutex → Bool
  | .held => true
  | .heldDead => true
  | _ => false

/-- How often a sequence of values that starts at `a` becomes `b`. -/
def becomes (b : Bool) : Bool → List Bool → ℕ
  | _, [] => 0
  | a, x :: xs => (if a ≠ b ∧ x = b then 1 else 0) + becomes b x xs

/-- The value a sequence becomes most often is, up to one, the value it ends with. -/
theorem becomes_balance (a : Bool) (xs : List Bool) :
    becomes true a xs + (if a then 1 else 0) =
      becomes false a xs + (if xs.getLast?.getD a then 1 else 0) := by
  induction xs generalizing a with
  | nil =>
    rfl
  | cons x xs ih =>
    have := ih x
    rw [List.getLast?_cons, Option.getD_some]
    cases a <;> cases x <;> simp [becomes] at this ⊢ <;> omega

/-- How often the caller holds the mutex and then does not (`false`), or the other way round
(`true`), in the run of `m` that ends in `t`. A wait that gives the mutex back and takes it again
is one store. -/
def turns {α : Type} (b : Bool) (m : Exec AchHeader α) (dbg : Bool) (s t : AchHeader) : ℕ :=
  becomes b (heldByCaller s.mutex) ((log m dbg s ++ [t]).map fun u => heldByCaller u.mutex)

/-- **Lock discipline.** A call that returns does so without the mutex, having released it as often
as it acquired it, and at no time did it release a mutex it did not hold. -/
structure Disciplined {α : Type} (dbg : Bool) (m : Exec AchHeader α) (s : AchHeader) : Prop where
  notHeld : ∀ a t, out m dbg s = .ok (a, t) → heldByCaller t.mutex = false
  balanced : ∀ a t, out m dbg s = .ok (a, t) → turns true m dbg s t = turns false m dbg s t
  noStray : ∀ t ∈ log m dbg s, t.strayUnlocks = s.strayUnlocks

/-- The mutex is given back as often as it is taken if it is held neither before nor after. -/
theorem turns_eq {α : Type} {m : Exec AchHeader α} {dbg : Bool} {s t : AchHeader}
    (hs : heldByCaller s.mutex = false) (ht : heldByCaller t.mutex = false) :
    turns true m dbg s t = turns false m dbg s t := by
  have := becomes_balance (heldByCaller s.mutex)
    ((log m dbg s ++ [t]).map fun u => heldByCaller u.mutex)
  simpa [turns, hs, ht] using this

/-! ### The lock functions -/

section
variable {b : AchHeader} {n : ℕ}

/-- No stray unlock so far but the first `n`. -/
def Stray (n : ℕ) (s : AchHeader) : Prop := s.strayUnlocks = n

/-- The state `lockResult` leaves the mutex in: a failed lock does not get it, a failed wait has it
again unless it is lost. -/
def LeftBy (lockResult : PthreadResult) (isCondCheck : Bool) (m : Mutex) : Prop :=
  match lockResult with
  | .zero => m = .held
  | .eownerdead => m = .heldDead
  | .enotrecoverable => heldByCaller m = false
  | _ => if isCondCheck then m = .held else heldByCaller m = false

/-- What `check_lock` establishes: `ACH_OK` with the mutex of a consistent channel, or another
status without the mutex. -/
def Checked (b : AchHeader) (r : AchStatus) (s : AchHeader) : Prop :=
  ∃ m, s = setMutex m b ∧ (r = .ok ∧ m = .held ∧ b.dirty = false ∨ r ≠ .ok ∧ heldByCaller m = false)

theorem unlock_holds (hb : b.strayUnlocks = n) :
    Holds (· = setMutex .held b) pthreadMutexUnlock (fun r s => r = .zero ∧ s = setMutex .free b)
      (Stray n) := by
  rintro dbg s rfl
  constructor
  · intro t ht
    obtain rfl : t = setMutex .free b := by
      simpa [pthreadMutexUnlock, log_bind, setMutex] using ht
    exact hb
  · intro r t ht
    simpa [pthreadMutexUnlock, setMutex, eq_comm] using ht

theorem releaseIf_holds (hb : b.strayUnlocks = n) {isCondCheck : Bool} {m : Mutex}
    (hm : if isCondCheck then m = .held else heldByCaller m = false) :
    Holds (· = setMutex m b) (releaseIf isCondCheck)
      (fun _ s => ∃ m', s = setMutex m' b ∧ heldByCaller m' = false) (Stray n) := by
  unfold releaseIf
  cases isCondCheck with
  | true =>
    obtain rfl : m = .held := hm
    exact (unlock_holds hb).bind fun _ => Holds.pure' fun s hs => ⟨.free, hs.2, rfl⟩
  | false =>
    exact Holds.pure' fun s hs => ⟨m, hs, hm⟩

theorem checkDirty_holds (hb : b.strayUnlocks = n) :
    Holds (· = setMutex .held b) checkDirty (Checked b) (Stray n) := by
  unfold checkDirty
  refine Holds.load'.bind fun shm => Holds.ite' (fun hd => ?_) fun hd => ?_
  · refine ((unlock_holds hb).conseq (fun s hs => hs.2) fun _ _ h => h).bind fun r => ?_
    exact Holds.pure' fun s hs => ⟨.free, hs.2, Or.inr ⟨by simp, rfl⟩⟩
  · refine Holds.pure' ?_
    rintro s ⟨rfl, rfl⟩
    exact ⟨.held, rfl, Or.inl ⟨rfl, rfl, by simpa [setMutex] using hd⟩⟩

/-- **`check_lock`**, whatever the result of the lock or the wait was. -/
theorem checkLock_holds (hb : b.strayUnlocks = n) {i : PthreadResult} {isCondCheck : Bool}
    {m : Mutex} (hm : LeftBy i isCondCheck m) :
    Holds (· = setMutex m b) (checkLock i isCondCheck) (Checked b) (Stray n) := by
  have hfail : ∀ r : AchStatus, r ≠ .ok →
      (if isCondCheck then m = .held else heldByCaller m = false) →
      Holds (· = setMutex m b) (do releaseIf isCondCheck; pure r) (Checked b) (Stray n) := by
    intro r hr hm
    refine (releaseIf_holds hb hm).bind fun _ => Holds.pure' ?_
    rintro s ⟨m', rfl, hm'⟩
    exact ⟨m', rfl, Or.inr ⟨hr, hm'⟩⟩
  cases i with
  | zero =>
    obtain rfl : m = .held := hm
    exact checkDirty_holds hb
  | etimedout => exact hfail .timeout (by simp) hm
  | enotrecoverable =>
    exact Holds.pure' fun s hs => ⟨m, hs, Or.inr ⟨by simp, hm⟩⟩
  | eownerdead =>
    obtain rfl : m = .heldDead := hm
    refine Holds.bind (Q := fun _ s => s = setMutex .held b) ?_ fun _ => checkDirty_holds hb
    rintro dbg s rfl
    constructor
    · intro t ht
      obtain rfl : t = setMutex .held b := by
        simpa [pthreadMutexConsistent, log_bind, setMutex] using ht
      exact hb
    · intro a t ht
      simpa [pthreadMutexConsistent, setMutex, eq_comm] using ht
  | eperm => exact hfail .failedSyscall (by simp) hm
  | other => exact hfail .failedSyscall (by simp) hm

theorem lock_holds (hb : b.strayUnlocks = n) (hm : heldByCaller b.mutex = false) :
    Holds (· = b) pthreadMutexLock (fun i s => ∃ m, s = setMutex m b ∧ LeftBy i false m)
      (Stray n) := by
  rintro dbg s rfl
  have hself : setMutex s.mutex s = s := rfl
  cases hmut : s.mutex with
  | free =>
    simp only [pthreadMutexLock, log_bind, out_bind, out_load, Outcome.bind_ok, hmut]
    constructor
    · simp [Stray, setMutex, hb]
    · intro i t ht
      obtain ⟨rfl, rfl⟩ : PthreadResult.zero = i ∧ setMutex .held s = t := by simpa using ht
      exact ⟨.held, rfl, rfl⟩
  | abandoned =>
    simp only [pthreadMutexLock, log_bind, out_bind, out_load, Outcome.bind_ok, hmut]
    constructor
    · simp [Stray, setMutex, hb]
    · intro i t ht
      obtain ⟨rfl, rfl⟩ : PthreadResult.eownerdead = i ∧ setMutex .heldDead s = t := by
        simpa using ht
      exact ⟨.heldDead, rfl, rfl⟩
  | unrecoverable =>
    simp only [pthreadMutexLock, log_bind, out_bind, out_load, Outcome.bind_ok, hmut]
    refine ⟨by simp, fun i t ht => ?_⟩
    obtain ⟨rfl, rfl⟩ : PthreadResult.enotrecoverable = i ∧ s = t := by simpa using ht
    exact ⟨s.mutex, hself.symm, hm⟩
  | failing =>
    simp only [pthreadMutexLock, log_bind, out_bind, out_load, Outcome.bind_ok, hmut]
    refine ⟨by simp, fun i t ht => ?_⟩
    obtain ⟨rfl, rfl⟩ : PthreadResult.other = i ∧ s = t := by simpa using ht
    exact ⟨s.mutex, hself.symm, hm⟩
  | held => simp [hmut, heldByCaller] at hm
  | heldDead => simp [hmut, heldByCaller] at hm

/-- **`chan_lock`**, whatever state the mutex is in. -/
theorem chanLock_holds (hb : b.strayUnlocks = n) (hm : heldByCaller b.mutex = false) :
    Holds (· = b) chanLock (Checked b) (Stray n) := by
  refine (lock_holds hb hm).bind fun i => ?_
  rintro dbg s ⟨m, rfl, hleft⟩
  exact checkLock_holds hb hleft dbg _ rfl

/-! ### `rdlock` -/

/-- What the other parties make of the block during the waits. -/
def advance : List WaitEvent → AchHeader → AchHeader
  | [], b => b
  | w :: ws, b => advance ws (w.others (setMutex .free b))

/-- What other parties do is not an unlock by the caller. -/
def WaitEvent.Others (w : WaitEvent) : Prop :=
  ∀ s, (w.others s).strayUnlocks = s.strayUnlocks

/-- The handle after the waits, in which it may have been cancelled. -/
def cancelledBy (chan : AchChannel) (ws : List WaitEvent) : AchChannel :=
  { chan with cancel := chan.cancel || ws.any WaitEvent.cancel }

/-- What `rdlock` establishes after some of the waits: `ACH_OK` with the mutex of a consistent
channel that has a new frame if one was waited for, or another status without the mutex. The handle
may have been cancelled; its cursor is where it was. -/
def RdLocked (b : AchHeader) (chan : AchChannel) (wait : Bool) (ws : List WaitEvent)
    (r : AchStatus × AchChannel) (s : AchHeader) : Prop :=
  ∃ past, past <+: ws ∧ r.2 = cancelledBy chan past ∧ ∃ m, s = setMutex m (advance past b) ∧
    (r.1 = .ok ∧ m = .held ∧ s.dirty = false ∧ (wait = true → r.2.seqNum ≠ s.lastSeq) ∨
      r.1 ≠ .ok ∧ heldByCaller m = false)

/-- The head of the loop of `rdlock`. -/
theorem rdlockCheck_holds (hb : b.strayUnlocks = n) (chan : AchChannel) (wait : Bool) :
    Holds (· = setMutex .held b) (rdlockCheck chan wait)
      (fun r s => match r with
        | some r => ∃ m, s = setMutex m b ∧
          (r = .ok ∧ m = .held ∧ (wait = true → chan.seqNum ≠ b.lastSeq) ∨
            r ≠ .ok ∧ heldByCaller m = false)
        | none => s = setMutex .held b)
      (Stray n) := by
  unfold rdlockCheck
  refine Holds.load'.bind fun shm => Holds.ite' (fun _ => ?_) fun _ => ?_
  · refine ((unlock_holds hb).conseq (fun s hs => hs.2) fun _ _ h => h).bind fun r => ?_
    exact Holds.pure' fun s hs => ⟨.free, hs.2, Or.inr ⟨by simp, rfl⟩⟩
  refine Holds.ite' (fun hw => ?_) fun hw => Holds.ite' (fun hs => ?_) fun hs => ?_
  · exact Holds.pure' fun s h => ⟨.held, h.2, Or.inl ⟨rfl, rfl, by simp [hw]⟩⟩
  · refine Holds.pure' ?_
    rintro s ⟨rfl, rfl⟩
    exact ⟨.held, rfl, Or.inl ⟨rfl, rfl, fun _ => hs⟩⟩
  · exact Holds.pure' fun s h => h.2

/-- A wait, whatever its result. -/
theorem condWait_holds (hb : b.strayUnlocks = n) (abstime : Bool) {w : WaitEvent}
    (hw : WaitEvent.Others w) :
    Holds (· = setMutex .held b) (pthreadCondWait abstime w)
      (fun i s => ∃ m, s = setMutex m (w.others (setMutex .free b)) ∧ LeftBy i true m)
      (Stray n) := by
  rintro dbg s rfl
  have hstray : (w.others (setMutex .free b)).strayUnlocks = n := (hw _).trans hb
  constructor
  · intro t ht
    rw [pthreadCondWait, log_bind, log_store, out_store] at ht
    obtain rfl : t = _ := by simpa using ht
    exact hstray
  · intro i t ht
    simp only [pthreadCondWait, out_bind, out_store, Outcome.bind_ok, out_pure, Outcome.ok.injEq,
      Prod.mk.injEq] at ht
    obtain ⟨hi, rfl⟩ := ht
    rw [hi]
    refine ⟨mutexAfterWait i, rfl, ?_⟩
    cases i <;> rfl

theorem cancelledBy_nil (chan : AchChannel) : cancelledBy chan [] = chan := by
  simp [cancelledBy]

theorem cancelledBy_cons (chan : AchChannel) (w : WaitEvent) (ws : List WaitEvent) :
    cancelledBy { chan with cancel := chan.cancel || w.cancel } ws =
      cancelledBy chan (w :: ws) := by
  simp [cancelledBy, Bool.or_assoc]

/-- `rdlock` leaves the loop without a wait. -/
theorem RdLocked.now {chan : AchChannel} {wait : Bool} {ws : List WaitEvent} {r : AchStatus}
    {s : AchHeader} (hd : b.dirty = false)
    (h : ∃ m, s = setMutex m b ∧ (r = .ok ∧ m = .held ∧ (wait = true → chan.seqNum ≠ b.lastSeq) ∨
      r ≠ .ok ∧ heldByCaller m = false)) : RdLocked b chan wait ws (r, chan) s := by
  obtain ⟨m, rfl, h⟩ := h
  refine ⟨[], List.nil_prefix, (cancelledBy_nil chan).symm, m, rfl, ?_⟩
  rcases h with ⟨hr, hm, hw⟩ | h
  · exact Or.inl ⟨hr, hm, hd, hw⟩
  · exact Or.inr h

/-- `rdlock` goes round its loop once more. -/
theorem RdLocked.later {chan : AchChannel} {wait : Bool} {w : WaitEvent} {ws : List WaitEvent}
    {r : AchStatus × AchChannel} {s : AchHeader}
    (h : RdLocked (w.others (setMutex .free b)) { chan with cancel := chan.cancel || w.cancel }
      wait ws r s) : RdLocked b chan wait (w :: ws) r s := by
  obtain ⟨past, hpast, hr, m, hs, h⟩ := h
  refine ⟨w :: past, List.cons_prefix_cons.mpr ⟨rfl, hpast⟩, ?_, m, hs, h⟩
  rw [hr, cancelledBy_cons]

/-- **The loop of `rdlock`**, by induction on the waits: it goes round holding the mutex of a
consistent channel. -/
theorem rdlockLoop_holds (wait abstime : Bool) {ws : List WaitEvent}
    (hws : ∀ w ∈ ws, WaitEvent.Others w) :
    ∀ (chan : AchChannel) (b : AchHeader), b.strayUnlocks = n → b.dirty = false →
      Holds (· = setMutex .held b) (rdlockLoop wait abstime ws chan) (RdLocked b chan wait ws)
        (Stray n) := by
  induction ws with
  | nil =>
    intro chan b hb hd
    refine (rdlockCheck_holds hb chan wait).bind fun r => ?_
    cases r with
    | some r => exact Holds.pure' fun s hs => RdLocked.now hd hs
    | none => exact Holds.block'
  | cons w ws ih =>
    intro chan b hb hd
    have hw : WaitEvent.Others w := hws w (by simp)
    have hb' : (w.others (setMutex .free b)).strayUnlocks = n := (hw _).trans hb
    refine (rdlockCheck_holds hb chan wait).bind fun r => ?_
    cases r with
    | some r => exact Holds.pure' fun s hs => RdLocked.now hd hs
    | none =>
      refine (condWait_holds hb abstime hw).bind fun i => ?_
      refine Holds.bind (Q := Checked (w.others (setMutex .free b))) ?_ fun c => ?_
      · rintro dbg s ⟨m, rfl, hleft⟩
        exact checkLock_holds hb' hleft dbg _ rfl
      refine Holds.ite' (fun hc => Holds.pure' ?_) fun hc => ?_
      · rintro s ⟨m, rfl, ⟨hok, -⟩ | ⟨-, hm⟩⟩
        · exact absurd hok hc
        · refine RdLocked.later ⟨[], List.nil_prefix, (cancelledBy_nil _).symm, m, rfl, ?_⟩
          exact Or.inr ⟨hc, hm⟩
      · rintro dbg s ⟨m, rfl, ⟨-, rfl, hdirty⟩ | ⟨hne, -⟩⟩
        · have := ih (fun w hw => hws w (by simp [hw]))
            { chan with cancel := chan.cancel || w.cancel } _ hb' hdirty dbg _ rfl
          exact ⟨this.1, fun a t h => RdLocked.later (this.2 a t h)⟩
        · exact absurd hne hc

/-- **`rdlock`.** -/
theorem rdlock_holds (chan : AchChannel) (wait abstime : Bool) {ws : List WaitEvent}
    (hws : ∀ w ∈ ws, WaitEvent.Others w) (hb : b.strayUnlocks = n)
    (hm : heldByCaller b.mutex = false) :
    Holds (· = b) (rdlock chan wait abstime ws) (RdLocked b chan wait ws) (Stray n) := by
  refine (chanLock_holds hb hm).bind fun r => ?_
  refine Holds.ite' (fun hr => Holds.pure' ?_) fun hr => ?_
  · rintro s ⟨m, rfl, ⟨hok, -⟩ | ⟨-, hm⟩⟩
    · exact absurd hok hr
    · exact ⟨[], List.nil_prefix, (cancelledBy_nil chan).symm, m, rfl, Or.inr ⟨hr, hm⟩⟩
  · rintro dbg s ⟨m, rfl, ⟨-, rfl, hdirty⟩ | ⟨hne, -⟩⟩
    · exact rdlockLoop_holds wait abstime hws chan b hb hdirty dbg _ rfl
    · exact absurd hne hr

/-- `unrdlock` after the critical section of a read: its assert holds and it gives the mutex
back. -/
theorem unrdlock_holds (hb : b.strayUnlocks = n) (hd : b.dirty = false) :
    Holds (· = setMutex .held b) unrdlock (fun r s => r = .ok ∧ s = setMutex .free b)
      (Stray n) := by
  rintro dbg s rfl
  have hdirty : (setMutex .held b).dirty = false := hd
  have hlog := (unlock_holds hb dbg (setMutex .held b) rfl).1
  constructor
  · intro t ht
    unfold unrdlock at ht
    rw [log_bind, log_load, out_load, List.nil_append] at ht
    simp only [log_bind, log_assert, out_assert hdirty, List.nil_append] at ht
    rcases List.mem_append.mp ht with ht | ht
    · exact hlog t ht
    · simp [pthreadMutexUnlock, setMutex] at ht
  · intro r t ht
    rw [out_unrdlock dbg rfl hdirty] at ht
    obtain ⟨rfl, rfl⟩ : AchStatus.ok = r ∧ setMutex .free b = t := by simpa using ht
    exact ⟨rfl, rfl⟩

/-! ### The calls -/

/-- A result that delivers nothing leaves the caller's buffer and the handle as they were. -/
def FailsQuietly (chan : AchChannel) (r : GetResult × AchChannel) : Prop :=
  r.1.status ≠ .ok → r.1.status ≠ .missedFrame → r.1.bytes = [] ∧ r.2 = chan

theorem achGetFromOffset_fails (P C : AchHeader → Prop) (chan : AchChannel) (i size : ℕ) :
    Holds P (achGetFromOffset chan i size) (fun r s => P s ∧ FailsQuietly chan r) C := by
  unfold achGetFromOffset
  refine Holds.read fun _ => ?_
  refine Holds.assert'.bind fun _ => (indexAt_holds _).bind fun e => ?_
  refine Holds.assert'.bind fun _ => Holds.assert'.bind fun _ => ?_
  refine Holds.ite' (fun _ => ?_) fun _ => Holds.ite' (fun _ => ?_) fun _ => ?_
  · exact Holds.pure' fun _ h => ⟨h, fun _ _ => ⟨rfl, rfl⟩⟩
  · exact Holds.pure' fun _ h => ⟨h, fun _ _ => ⟨rfl, rfl⟩⟩
  · refine (copyOut_holds e).bind fun bytes => Holds.umod'.bind fun next => ?_
    exact Holds.pure' fun _ h => ⟨h, fun hok _ => absurd rfl hok⟩

/-- The critical section of `ach_get` delivers a frame or fails quietly. -/
theorem getCritical_fails (P C : AchHeader → Prop) (chan : AchChannel) (size : ℕ)
    (opts : AchGetOpts) :
    Holds P (getCritical chan size opts) (fun r s => P s ∧ FailsQuietly chan r) C := by
  unfold getCritical
  refine Holds.read fun _ => ?_
  refine Holds.assert'.bind fun _ => Holds.ite' (fun _ => ?_) fun _ => ?_
  · exact Holds.assert'.bind fun _ => Holds.pure' fun _ h => ⟨h, fun _ _ => ⟨rfl, rfl⟩⟩
  · refine (readIndex_holds chan opts).bind fun i => (indexAt_holds i).bind fun e => ?_
    refine (achGetFromOffset_fails P C chan i size).bind fun r => ?_
    refine (Holds.assert' (P := fun s => P s ∧ FailsQuietly chan r)).bind fun _ => ?_
    refine Holds.ite' (fun _ => ?_) fun _ => Holds.pure' fun _ h => h
    exact Holds.pure' fun _ h => ⟨h.1, fun _ hne => absurd rfl hne⟩

/-- What `ach_get` establishes when it returns, after some of the waits: the mutex is not held, the
block is what the other parties made of it, and a call that delivers nothing fails quietly. -/
def GetDone (b : AchHeader) (chan : AchChannel) (ws : List WaitEvent) (r : GetResult × AchChannel)
    (s : AchHeader) : Prop :=
  ∃ past, past <+: ws ∧ FailsQuietly (cancelledBy chan past) r ∧
    ∃ m, s = setMutex m (advance past b) ∧ heldByCaller m = false

theorem strayUnlocks_advance {ws : List WaitEvent} (hws : ∀ w ∈ ws, WaitEvent.Others w) :
    ∀ b : AchHeader, (advance ws b).strayUnlocks = b.strayUnlocks := by
  induction ws with
  | nil =>
    intro b
    rfl
  | cons w ws ih =>
    intro b
    rw [advance, ih (fun w hw => hws w (by simp [hw])), hws w (by simp)]
    rfl

/-- **`ach_get`**, whatever state the mutex is in and whatever happens while it waits. -/
theorem achGet_holds (chan : AchChannel) (size : ℕ) (abstime : Bool) (opts : AchGetOpts)
    {ws : List WaitEvent} (hws : ∀ w ∈ ws, WaitEvent.Others w) (hb : b.strayUnlocks = n)
    (hm : heldByCaller b.mutex = false) :
    Holds (· = b) (achGet chan size abstime opts ws) (GetDone b chan ws) (Stray n) := by
  unfold achGet
  refine Holds.read fun _ => Holds.ite' (fun _ => ?_) fun _ => ?_
  · exact Holds.fault'
  refine Holds.ite' (fun _ => Holds.pure' ?_) fun _ => ?_
  · rintro s rfl
    exact ⟨[], List.nil_prefix, fun _ _ => ⟨rfl, (cancelledBy_nil chan).symm⟩, s.mutex, rfl, hm⟩
  refine (rdlock_holds chan opts.wait abstime hws hb hm).bind fun p => ?_
  obtain ⟨r, chan₁⟩ := p
  refine Holds.ite' (fun hr => Holds.pure' ?_) fun hr => ?_
  · rintro s ⟨past, hpast, hchan, m, rfl, ⟨hok, -⟩ | ⟨-, hm'⟩⟩
    · exact absurd hok hr
    · obtain rfl : chan₁ = cancelledBy chan past := hchan
      exact ⟨past, hpast, fun _ _ => ⟨rfl, rfl⟩, m, rfl, hm'⟩
  · -- the mutex is held: the critical section leaves the block alone, `unrdlock` releases it
    rintro dbg s ⟨past, hpast, hchan, m, rfl, ⟨-, rfl, hdirty, -⟩ | ⟨hne, -⟩⟩
    · obtain rfl : chan₁ = cancelledBy chan past := hchan
      have hstray : (advance past b).strayUnlocks = n :=
        (strayUnlocks_advance (fun w hw => hws w (hpast.subset hw)) b).trans hb
      refine ((getCritical_fails (· = setMutex .held (advance past b)) (Stray n) _ size
        opts).bind fun p => ?_) dbg _ rfl
      obtain ⟨res, chan'⟩ := p
      rintro dbg s ⟨rfl, hquiet⟩
      refine ((unrdlock_holds hstray hdirty).bind fun r => ?_) dbg _ rfl
      refine Holds.ite' (fun hr => Holds.pure' ?_) fun _ => Holds.pure' ?_
      · rintro s ⟨hok, -⟩
        exact absurd hok hr
      · rintro s ⟨-, rfl⟩
        exact ⟨past, hpast, hquiet, .free, rfl, rfl⟩
    · exact absurd hne hr

/-- **`ach_flush`.** -/
theorem achFlush_holds (chan : AchChannel) (hb : b.strayUnlocks = n)
    (hm : heldByCaller b.mutex = false) :
    Holds (· = b) (achFlush chan) (fun _ s => ∃ m, s = setMutex m b ∧ heldByCaller m = false)
      (Stray n) := by
  unfold achFlush
  refine Holds.ite' (fun _ => Holds.fault') fun _ => ?_
  refine (rdlock_holds chan false false (by simp) hb hm).bind fun p => ?_
  obtain ⟨r, chan₁⟩ := p
  refine Holds.ite' (fun hr => Holds.pure' ?_) fun hr => ?_
  · rintro s ⟨past, hpast, -, m, rfl, ⟨hok, -⟩ | ⟨-, hm'⟩⟩
    · exact absurd hok hr
    · obtain rfl := List.prefix_nil.mp hpast
      exact ⟨m, rfl, hm'⟩
  · rintro dbg s ⟨past, hpast, -, m, rfl, ⟨-, rfl, hdirty, -⟩ | ⟨hne, -⟩⟩
    · obtain rfl := List.prefix_nil.mp hpast
      refine ((flushCritical_holds chan₁).bind fun chan' => ?_) dbg _ rfl
      rintro dbg s ⟨rfl, -⟩
      refine ((unrdlock_holds hb hdirty).bind fun r => Holds.pure' ?_) dbg _ rfl
      rintro s ⟨-, rfl⟩
      exact ⟨.free, rfl, rfl⟩
    · exact absurd hne hr

/-- Taking the mutex, giving it back and broadcasting, whatever is returned in each case. -/
theorem lockBroadcast_holds {α : Type} (failed : AchStatus → α) (syscall done : α)
    (hb : b.strayUnlocks = n) (hm : heldByCaller b.mutex = false) :
    Holds (· = b) (do
        let r ← chanLock
        if r ≠ .ok then pure (failed r)
        else do
          let r ← pthreadMutexUnlock
          if r ≠ .zero then pure syscall
          else do
            let r ← pthreadCondBroadcast
            if r ≠ .zero then pure syscall else pure done)
      (fun _ s => ∃ m, s = setMutex m b ∧ heldByCaller m = false) (Stray n) := by
  refine (chanLock_holds hb hm).bind fun r => Holds.ite' (fun hr => Holds.pure' ?_) fun hr => ?_
  · rintro s ⟨m, rfl, ⟨hok, -⟩ | ⟨-, hm'⟩⟩
    · exact absurd hok hr
    · exact ⟨m, rfl, hm'⟩
  · rintro dbg s ⟨m, rfl, ⟨-, rfl, -⟩ | ⟨hne, -⟩⟩
    · refine ((unlock_holds hb).bind fun i => ?_) dbg _ rfl
      have hdone : ∀ a : α, Holds (fun s => i = .zero ∧ s = setMutex .free b) (pure a)
          (fun _ s => ∃ m, s = setMutex m b ∧ heldByCaller m = false) (Stray n) :=
        fun _ => Holds.pure' fun s hs => ⟨.free, hs.2, rfl⟩
      refine Holds.ite' (fun _ => hdone _) fun _ => ?_
      refine Holds.bind (Q := fun _ s => i = .zero ∧ s = setMutex .free b)
        (Holds.pure' fun _ h => h) fun _ => ?_
      exact Holds.ite' (fun _ => hdone _) fun _ => hdone _
    · exact absurd hne hr

/-- **`ach_cancel`.** -/
theorem achCancel_holds (chan : AchChannel) (attr : Option Bool) (forked : Bool)
    (hb : b.strayUnlocks = n) (hm : heldByCaller b.mutex = false) :
    Holds (· = b) (achCancel chan attr forked)
      (fun _ s => ∃ m, s = setMutex m b ∧ heldByCaller m = false) (Stray n) := by
  unfold achCancel
  refine Holds.ite' (fun _ => ?_) fun _ => ?_
  · refine Holds.ite' (fun _ => Holds.fault') fun _ => ?_
    exact lockBroadcast_holds (fun r => (r, chan)) _ _ hb hm
  · have hdone : ∀ (r : AchStatus) (c : AchChannel), Holds (· = b) (pure (r, c))
        (fun _ s => ∃ m, s = setMutex m b ∧ heldByCaller m = false) (Stray n) :=
      fun _ _ => Holds.pure' fun s hs => ⟨b.mutex, hs, hm⟩
    exact Holds.ite' (fun _ => hdone _ _) fun _ => hdone _ _

/-- The child of `ach_cancel`. -/
theorem achCancelChild_holds (chan : AchChannel) (hb : b.strayUnlocks = n)
    (hm : heldByCaller b.mutex = false) :
    Holds (· = b) (achCancelChild chan)
      (fun _ s => ∃ m, s = setMutex m b ∧ heldByCaller m = false) (Stray n) := by
  unfold achCancelChild
  refine Holds.ite' (fun _ => Holds.fault') fun _ => ?_
  exact lockBroadcast_holds (fun _ => false) _ _ hb hm

end

/-! ### What returns -/

/-- Code that always returns. -/
def Total {α : Type} (m : Exec AchHeader α) : Prop := ∀ dbg s, ∃ p, out m dbg s = .ok p

theorem Total.bind {α β : Type} {m : Exec AchHeader α} {f : α → Exec AchHeader β} (hm : Total m)
    (hf : ∀ a, Total (f a)) : Total (m >>= f) := by
  intro dbg s
  obtain ⟨p, hp⟩ := hm dbg s
  rw [out_bind, hp]
  exact hf p.1 dbg p.2

theorem Total.pure' {α : Type} (a : α) : Total (pure a) := fun _ s => ⟨(a, s), rfl⟩

theorem Total.ite' {α : Type} {c : Prop} [Decidable c] {m n : Exec AchHeader α} (hm : Total m)
    (hn : Total n) : Total (if c then m else n) := by
  by_cases h : c
  · rwa [if_pos h]
  · rwa [if_neg h]

theorem total_load : Total load := fun _ s => ⟨(s, s), rfl⟩

theorem total_store (f : AchHeader → AchHeader) : Total (store f) := fun _ s => ⟨((), f s), rfl⟩

theorem unlock_total : Total pthreadMutexUnlock := by
  refine total_load.bind fun shm => ?_
  cases shm.mutex <;> exact (total_store _).bind fun _ => Total.pure' _

theorem checkDirty_total : Total checkDirty :=
  total_load.bind fun _ => Total.ite' (unlock_total.bind fun _ => Total.pure' _) (Total.pure' _)

theorem releaseIf_total (isCondCheck : Bool) : Total (releaseIf isCondCheck) :=
  Total.ite' (unlock_total.bind fun _ => Total.pure' _) (Total.pure' _)

theorem checkLock_total (i : PthreadResult) (isCondCheck : Bool) :
    Total (checkLock i isCondCheck) := by
  cases i with
  | zero => exact checkDirty_total
  | enotrecoverable => exact Total.pure' _
  | eownerdead =>
    refine Total.bind (total_load.bind fun shm => ?_) fun _ => checkDirty_total
    cases shm.mutex <;> first | exact Total.pure' _ | exact total_store _
  | etimedout => exact (releaseIf_total _).bind fun _ => Total.pure' _
  | eperm => exact (releaseIf_total _).bind fun _ => Total.pure' _
  | other => exact (releaseIf_total _).bind fun _ => Total.pure' _

theorem chanLock_total : Total chanLock := by
  refine Total.bind (total_load.bind fun shm => ?_) fun i => checkLock_total i false
  cases shm.mutex <;>
    first | exact Total.pure' _ | exact (total_store _).bind fun _ => Total.pure' _

theorem rdlockCheck_total (chan : AchChannel) (wait : Bool) : Total (rdlockCheck chan wait) :=
  total_load.bind fun _ => Total.ite' (unlock_total.bind fun _ => Total.pure' _)
    (Total.ite' (Total.pure' _) (Total.ite' (Total.pure' _) (Total.pure' _)))

theorem rdlockCheck_none {chan : AchChannel} {wait dbg : Bool} {s t : AchHeader}
    (h : out (rdlockCheck chan wait) dbg s = .ok (none, t)) : wait = true := by
  unfold rdlockCheck at h
  rw [out_bind, out_load, Outcome.bind_ok] at h
  by_cases hc : chan.cancel = true
  · obtain ⟨p, hp⟩ := unlock_total dbg s
    simp [hc, hp] at h
  · cases wait with
    | true => rfl
    | false => simp [hc] at h

/-- The loop of `rdlock` returns, or has to wait once more. -/
theorem rdlockLoop_returns (dbg wait abstime : Bool) (ws : List WaitEvent) :
    ∀ chan s, (∃ p, out (rdlockLoop wait abstime ws chan) dbg s = .ok p) ∨
      out (rdlockLoop wait abstime ws chan) dbg s = .block ∧ wait = true := by
  induction ws with
  | nil =>
    intro chan s
    obtain ⟨⟨r, t⟩, hr⟩ := rdlockCheck_total chan wait dbg s
    rw [rdlockLoop, out_bind, hr, Outcome.bind_ok]
    cases r with
    | some r => exact Or.inl ⟨_, rfl⟩
    | none =>
      exact Or.inr ⟨rfl, rdlockCheck_none hr⟩
  | cons w ws ih =>
    intro chan s
    obtain ⟨⟨r, t⟩, hr⟩ := rdlockCheck_total chan wait dbg s
    rw [rdlockLoop, out_bind, hr, Outcome.bind_ok]
    cases r with
    | some r => exact Or.inl ⟨_, rfl⟩
    | none =>
      simp only [out_bind, pthreadCondWait, out_store, Outcome.bind_ok, out_pure]
      obtain ⟨⟨c, u⟩, hc⟩ := checkLock_total
        (if w.result = .etimedout ∧ abstime = false then .zero else w.result) true dbg
        (setMutex (mutexAfterWait (if w.result = .etimedout ∧ abstime = false then .zero
          else w.result)) (w.others (setMutex .free t)))
      rw [hc, Outcome.bind_ok]
      by_cases hok : c = .ok
      · simp only [hok, ne_eq, not_true_eq_false, if_false]
        exact ih _ _
      · simp only [hok, ne_eq, not_false_eq_true, if_true]
        exact Or.inl ⟨_, rfl⟩

/-- `rdlock` returns, or has to wait once more. -/
theorem rdlock_returns (dbg wait abstime : Bool) (ws : List WaitEvent) (chan : AchChannel)
    (s : AchHeader) : (∃ p, out (rdlock chan wait abstime ws) dbg s = .ok p) ∨
      out (rdlock chan wait abstime ws) dbg s = .block ∧ wait = true := by
  obtain ⟨⟨r, t⟩, hr⟩ := chanLock_total dbg s
  rw [rdlock, out_bind, hr, Outcome.bind_ok, out_ite]
  split_ifs with hok
  · exact Or.inl ⟨_, rfl⟩
  · exact rdlockLoop_returns dbg wait abstime ws chan t

/-- Code that ends without the mutex and makes no stray unlock on the way is disciplined. -/
theorem disciplined_of_holds {α : Type} {m : Exec AchHeader α} {Q : α → AchHeader → Prop}
    {shm : AchHeader} (dbg : Bool) (hm : heldByCaller shm.mutex = false)
    (h : Holds (· = shm) m Q (Stray shm.strayUnlocks))
    (hQ : ∀ a t, Q a t → heldByCaller t.mutex = false) : Disciplined dbg m shm := by
  obtain ⟨hlog, hout⟩ := h dbg shm rfl
  refine ⟨?_, ?_, hlog⟩
  · intro a t ht
    exact hQ a t (hout a t ht)
  · intro a t ht
    exact turns_eq hm (hQ a t (hout a t ht))

/-- **The child that an async-safe `ach_cancel` forks** keeps the lock discipline too. -/
theorem achCancelChild_disciplined (dbg : Bool) (chan : AchChannel) {shm : AchHeader}
    (hm : heldByCaller shm.mutex = false) : Disciplined dbg (achCancelChild chan) shm := by
  refine disciplined_of_holds dbg hm (achCancelChild_holds chan rfl hm) ?_
  rintro _ t ⟨m, rfl, hm'⟩
  exact hm'

/-- A status of `rdlock` and the state it returns it in. -/
def LockedAs (wait : Bool) (r : AchStatus) (chan : AchChannel) (t : AchHeader) : Prop :=
  if r = .ok then t.mutex = .held ∧ t.dirty = false ∧ (wait = true → chan.seqNum ≠ t.lastSeq)
  else heldByCaller t.mutex = false

theorem RdLocked.lockedAs {b : AchHeader} {chan : AchChannel} {wait : Bool} {ws : List WaitEvent}
    {r : AchStatus × AchChannel} {t : AchHeader} (h : RdLocked b chan wait ws r t) :
    LockedAs wait r.1 r.2 t := by
  obtain ⟨past, -, -, m, rfl, ⟨hr, rfl, hd, hw⟩ | ⟨hr, hm⟩⟩ := h
  · rw [LockedAs, if_pos hr]
    exact ⟨rfl, hd, hw⟩
  · rw [LockedAs, if_neg hr]
    exact hm

/-- `ach_flush` returns. -/
theorem achFlush_returns (dbg : Bool) {shm : AchHeader} {chan : AchChannel}
    (hm : heldByCaller shm.mutex = false) (hmap : chan.mapped = true) :
    ∃ p, out (achFlush chan) dbg shm = .ok p := by
  rw [achFlush, if_neg (by simp [hmap]), out_bind]
  rcases rdlock_returns dbg false false [] chan shm with ⟨⟨⟨r, chan'⟩, t⟩, hr⟩ | ⟨-, hw⟩
  · have hlock := ((rdlock_holds chan false false (by simp) rfl hm dbg shm rfl).2 _ t hr).lockedAs
    rw [hr, Outcome.bind_ok]
    by_cases hok : r = .ok
    · subst hok
      obtain ⟨hheld, hdirty, -⟩ := hlock
      exact ⟨_, by simp [flushCritical, out_unrdlock dbg hheld hdirty]; rfl⟩
    · exact ⟨_, by simp [hok]; rfl⟩
  · simp at hw

/-- `ach_cancel` returns. -/
theorem achCancel_returns (dbg : Bool) {chan : AchChannel} (shm : AchHeader) (forked : Bool)
    (hmap : chan.mapped = true) :
    ∃ p, out (achCancel chan (some true) forked) dbg shm = .ok p := by
  have h : Total (achCancel chan (some true) forked) := by
    rw [achCancel, Option.getD_some, if_pos rfl, if_neg (by simp [hmap])]
    refine chanLock_total.bind fun _ => Total.ite' (Total.pure' _) ?_
    refine unlock_total.bind fun _ => Total.ite' (Total.pure' _) ?_
    exact (Total.pure' _).bind fun _ => Total.ite' (Total.pure' _) (Total.pure' _)
  exact h dbg shm

/-- `ach_get` returns unless it has to wait once more, or its critical section does not return. -/
theorem achGet_returns (dbg : Bool) {shm : AchHeader} {chan : AchChannel} {waits : List WaitEvent}
    (size : ℕ) (abstime : Bool) (opts : AchGetOpts) (hm : heldByCaller shm.mutex = false)
    (hws : ∀ w ∈ waits, WaitEvent.Others w) (hmap : chan.mapped = true) :
    (∃ p, out (achGet chan size abstime opts waits) dbg shm = .ok p) ∨
      out (achGet chan size abstime opts waits) dbg shm = .block ∧ opts.wait = true ∨
      ∃ chan' s, out (rdlock chan opts.wait abstime waits) dbg shm = .ok ((.ok, chan'), s) ∧
        ∀ p, out (getCritical chan' size opts) dbg s ≠ .ok p := by
  rw [achGet, out_bind, out_load, Outcome.bind_ok, if_neg (by simp [hmap])]
  by_cases hg : checkGuards shm = .ok
  · rw [if_neg (by simp [hg]), out_bind]
    rcases rdlock_returns dbg opts.wait abstime waits chan shm with ⟨⟨⟨r, chan'⟩, t⟩, hr⟩ | ⟨hb, hw⟩
    · have hlock := ((rdlock_holds chan opts.wait abstime hws rfl hm dbg shm rfl).2 _ t hr).lockedAs
      rw [hr, Outcome.bind_ok]
      by_cases hok : r = .ok
      · subst hok
        obtain ⟨hheld, hdirty, -⟩ := hlock
        by_cases hcrit : ∃ p, out (getCritical chan' size opts) dbg t = .ok p
        · obtain ⟨⟨⟨res, chan''⟩, u⟩, hcrit⟩ := hcrit
          obtain ⟨rfl, -⟩ := (getCritical_holds (P := (· = t)) (C := fun _ => True) chan' size opts
            dbg t rfl).2 _ u hcrit
          exact Or.inl ⟨_, by simp [hcrit, out_unrdlock dbg hheld hdirty]; rfl⟩
        · exact Or.inr (Or.inr ⟨chan', t, rfl, fun p hp => hcrit ⟨p, hp⟩⟩)
      · exact Or.inl ⟨_, by simp [hok]; rfl⟩
    · exact Or.inr (Or.inl ⟨by rw [hb]; rfl, hw⟩)
  · exact Or.inl ⟨_, by simp [hg]; rfl⟩

/-- **Lock discipline of the read paths** of a handle, through the given waits. -/
structure LockDiscipline (dbg : Bool) (chan : AchChannel) (waits : List WaitEvent)
    (shm : AchHeader) : Prop where
  /-- After any result of the lock or the wait, `check_lock` goes on only with the mutex and
  otherwise without it. -/
  checkLock : ∀ i isCondCheck s r t, LeftBy i isCondCheck s.mutex →
    out (checkLock i isCondCheck) dbg s = .ok (r, t) → LockedAs false r chan t
  rdlock : ∀ wait abstime r chan' t,
    out (rdlock chan wait abstime waits) dbg shm = .ok ((r, chan'), t) → LockedAs wait r chan' t
  get : ∀ size abstime opts, Disciplined dbg (achGet chan size abstime opts waits) shm
  flush : Disciplined dbg (achFlush chan) shm
  cancel : ∀ forked, Disciplined dbg (achCancel chan (some true) forked) shm
  /-- Where `ach_get` calls `unrdlock`, its assert holds and it releases the mutex. -/
  unrdlockGet : ∀ size abstime opts chan' s res t,
    out (Lock.rdlock chan opts.wait abstime waits) dbg shm = .ok ((.ok, chan'), s) →
    out (getCritical chan' size opts) dbg s = .ok (res, t) →
    out unrdlock dbg t = .ok (.ok, setMutex .free t)
  /-- Where `ach_flush` calls it, too. -/
  unrdlockFlush : ∀ chan' s chan'' t,
    out (Lock.rdlock chan false false []) dbg shm = .ok ((.ok, chan'), s) →
    out (flushCritical chan') dbg s = .ok (chan'', t) →
    out unrdlock dbg t = .ok (.ok, setMutex .free t)
  /-- `ach_get` does not return only if it has to wait once more, or because its critical section
  does not. -/
  getReturns : chan.mapped = true → ∀ size abstime opts,
    (∃ p, out (achGet chan size abstime opts waits) dbg shm = .ok p) ∨
      out (achGet chan size abstime opts waits) dbg shm = .block ∧ opts.wait = true ∨
      ∃ chan' s, out (Lock.rdlock chan opts.wait abstime waits) dbg shm = .ok ((.ok, chan'), s) ∧
        ∀ p, out (getCritical chan' size opts) dbg s ≠ .ok p
  flushReturns : chan.mapped = true → ∃ p, out (achFlush chan) dbg shm = .ok p
  cancelReturns : chan.mapped = true → ∀ forked,
    ∃ p, out (achCancel chan (some true) forked) dbg shm = .ok p

/-- **The read paths keep the lock discipline**, whatever state a handle finds the mutex in,
whatever each wait returns and whatever the other parties do meanwhile. -/
theorem read_paths_disciplined (dbg : Bool) {shm : AchHeader} (chan : AchChannel)
    {waits : List WaitEvent} (hm : heldByCaller shm.mutex = false)
    (hws : ∀ w ∈ waits, WaitEvent.Others w) : LockDiscipline dbg chan waits shm := by
  have hlock : ∀ wait abstime ws, (∀ w ∈ ws, WaitEvent.Others w) → ∀ p t,
      out (rdlock chan wait abstime ws) dbg shm = .ok (p, t) → LockedAs wait p.1 p.2 t :=
    fun wait abstime ws hws p t h =>
      ((rdlock_holds chan wait abstime hws rfl hm dbg shm rfl).2 p t h).lockedAs
  constructor
  case checkLock =>
    intro i isCondCheck s r t hleft h
    have hself : s = setMutex s.mutex s := rfl
    obtain ⟨m, rfl, ⟨rfl, rfl, hd⟩ | ⟨hr, hm'⟩⟩ := (checkLock_holds rfl hleft dbg s hself).2 r t h
    · exact ⟨rfl, hd, by simp⟩
    · rw [LockedAs, if_neg hr]
      exact hm'
  case rdlock =>
    intro wait abstime r chan' t h
    exact hlock wait abstime waits hws (r, chan') t h
  case get =>
    intro size abstime opts
    refine disciplined_of_holds dbg hm (achGet_holds chan size abstime opts hws rfl hm) ?_
    rintro a t ⟨past, -, -, m, rfl, hm'⟩
    exact hm'
  case flush =>
    refine disciplined_of_holds dbg hm (achFlush_holds chan rfl hm) ?_
    rintro a t ⟨m, rfl, hm'⟩
    exact hm'
  case cancel =>
    intro forked
    refine disciplined_of_holds dbg hm (achCancel_holds chan (some true) forked rfl hm) ?_
    rintro a t ⟨m, rfl, hm'⟩
    exact hm'
  case unrdlockGet =>
    intro size abstime opts chan' s res t h hcrit
    obtain ⟨hheld, hdirty, -⟩ := hlock opts.wait abstime waits hws _ s h
    obtain ⟨rfl, -⟩ := (getCritical_holds (P := (· = s)) (C := fun _ => True) chan' size opts dbg
      s rfl).2 res t hcrit
    exact out_unrdlock dbg hheld hdirty
  case unrdlockFlush =>
    intro chan' s chan'' t h hcrit
    obtain ⟨hheld, hdirty, -⟩ := hlock false false [] (by simp) _ s h
    obtain ⟨rfl, -⟩ := (flushCritical_holds (P := (· = s)) (C := fun _ => True) chan' dbg
      s rfl).2 chan'' t hcrit
    exact out_unrdlock dbg hheld hdirty
  case getReturns =>
    intro hmap size abstime opts
    exact achGet_returns dbg size abstime opts hm hws hmap
  case flushReturns => exact achFlush_returns dbg hm
  case cancelReturns =>
    intro hmap forked
    exact achCancel_returns dbg shm forked hmap

/-- An owner of the mutex died, then another one while the caller waits; it left the channel in the
middle of a write. -/
def sampleWaits : List WaitEvent :=
  [.quiet .zero, ⟨.eownerdead, fun s => { s with dirty := true }, false⟩]

theorem read_paths_disciplined_sample :
    ∃ chan shm, heldByCaller shm.mutex = false ∧ (∀ w ∈ sampleWaits, WaitEvent.Others w) ∧
      out (achGet chan 8 true ⟨true, false, false⟩ sampleWaits) true shm =
        .ok ((.bare .corrupt, chan), setMutex .free { shm with dirty := true }) ∧
      LockDiscipline true chan sampleWaits shm := by
  have hws : ∀ w ∈ sampleWaits, WaitEvent.Others w := by
    simp [sampleWaits, WaitEvent.Others, WaitEvent.quiet]
  refine ⟨⟨true, 0, 0, 1, false⟩, setMutex .abandoned (created 2 3), rfl, hws,
    by decide +kernel, ?_⟩
  exact read_paths_disciplined true _ rfl hws

end Ach.Channel.Discipline
