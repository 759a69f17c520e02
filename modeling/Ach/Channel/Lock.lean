import Ach.Channel.Types

/-! # Locking

The pthread calls on the channel's robust mutex and condition variable, and the lock functions of
`ach.c` over them. `check_lock` decides from the result of a lock or a wait, and from the dirty
flag, whether the caller may go on; it releases the mutex on every path on which it may not.

A wait releases the mutex and blocks. What happens until it ends is not the caller's doing, so a
wait is described by a `WaitEvent`: the result it returns, what the other parties did to the block
in the meantime, and whether they set the handle's cancel flag. A waiting call is given the list of
its waits; if they run out while it still has to wait, it blocks. -/

namespace Ach.Channel.Lock

open Ach.Lib.Run Ach.Channel.Types

def setMutex (m : Mutex) (s : AchHeader) : AchHeader := { s with mutex := m }

@[simp] theorem setMutex_setMutex (m m' : Mutex) (s : AchHeader) :
    setMutex m (setMutex m' s) = setMutex m s := rfl

/-! ### The pthread calls -/

/-- `pthread_mutex_lock`, called when no other process holds the mutex. The mutex is of the
error-checking kind: locking it again is an error (`EDEADLK`). -/
def pthreadMutexLock : Exec AchHeader PthreadResult := do
  let shm ← load
  match shm.mutex with
  | .free => do store (setMutex .held); pure .zero
  | .abandoned => do store (setMutex .heldDead); pure .eownerdead
  | .unrecoverable => pure .enotrecoverable
  | .failing => pure .other
  | .held => pure .other
  | .heldDead => pure .other

/-- `pthread_mutex_consistent`. -/
def pthreadMutexConsistent : Exec AchHeader Unit := do
  let shm ← load
  match shm.mutex with
  | .heldDead => store (setMutex .held)
  | _ => pure ()

/-- `pthread_mutex_unlock`. The mutex refuses a caller that does not hold it (`EPERM`), and one
released without having been made consistent is lost. -/
def pthreadMutexUnlock : Exec AchHeader PthreadResult := do
  let shm ← load
  match shm.mutex with
  | .held => do store (setMutex .free); pure .zero
  | .heldDead => do store (setMutex .unrecoverable); pure .zero
  | _ => do
    store fun s => { s with strayUnlocks := s.strayUnlocks + 1 }
    pure .eperm

/-- `pthread_cond_broadcast`. Who is woken is the business of the threads that wait. -/
def pthreadCondBroadcast : Exec AchHeader PthreadResult := pure .zero

/-- How a wait went. -/
structure WaitEvent where
  result : PthreadResult
  others : AchHeader → AchHeader
  cancel : Bool

/-- A wait during which nobody did anything. -/
def WaitEvent.quiet (r : PthreadResult) : WaitEvent := ⟨r, id, false⟩

/-- The mutex after a wait: held again, except after `ENOTRECOVERABLE`. -/
def mutexAfterWait : PthreadResult → Mutex
  | .eownerdead => .heldDead
  | .enotrecoverable => .unrecoverable
  | _ => .held

/-- `pthread_cond_timedwait`, or `pthread_cond_wait` if there is no `abstime`, which never times
out. -/
def pthreadCondWait (abstime : Bool) (w : WaitEvent) : Exec AchHeader PthreadResult := do
  let r := if w.result = .etimedout ∧ abstime = false then .zero else w.result
  store fun s => setMutex (mutexAfterWait r) (w.others (setMutex .free s))
  pure r

/-! ### The lock functions -/

/-- The check of the dirty flag in `check_lock`, reached from `EOWNERDEAD` and from `0`. -/
def checkDirty : Exec AchHeader AchStatus := do
  let shm ← load
  if shm.dirty then do
    let _ ← pthreadMutexUnlock
    pure .corrupt
  else pure .ok

/-- Releases the mutex after a failed wait; after a failed lock there is nothing to release. -/
def releaseIf (isCondCheck : Bool) : Exec AchHeader Unit :=
  if isCondCheck then do
    let _ ← pthreadMutexUnlock
    pure ()
  else pure ()

/-- `check_lock`. -/
def checkLock (lockResult : PthreadResult) (isCondCheck : Bool) : Exec AchHeader AchStatus :=
  match lockResult with
  | .etimedout => do
    releaseIf isCondCheck
    pure .timeout
  | .enotrecoverable => pure .corrupt
  | .eownerdead => do
    pthreadMutexConsistent
    checkDirty
  | .zero => checkDirty
  | _ => do
    releaseIf isCondCheck
    pure .failedSyscall

/-- `chan_lock`. -/
def chanLock : Exec AchHeader AchStatus := do
  let i ← pthreadMutexLock
  checkLock i false

/-- The tests at the head of the loop of `rdlock`: the status to leave the loop with, or `none` if
the caller has to wait. -/
def rdlockCheck (chan : AchChannel) (wait : Bool) : Exec AchHeader (Option AchStatus) := do
  let shm ← load
  if chan.cancel then do
    let _ ← pthreadMutexUnlock
    pure (some .canceled)
  else if wait = false then pure (some .ok)
  else if chan.seqNum ≠ shm.lastSeq then pure (some .ok)
  else pure none

/-- The loop of `rdlock`. -/
def rdlockLoop (wait abstime : Bool) :
    List WaitEvent → AchChannel → Exec AchHeader (AchStatus × AchChannel)
  | [], chan => do
    let r ← rdlockCheck chan wait
    match r with
    | some r => pure (r, chan)
    | none => stop .block
  | w :: ws, chan => do
    let r ← rdlockCheck chan wait
    match r with
    | some r => pure (r, chan)
    | none => do
      let i ← pthreadCondWait abstime w
      let chan' := { chan with cancel := chan.cancel || w.cancel }
      let c ← checkLock i true
      if c ≠ .ok then pure (c, chan') else rdlockLoop wait abstime ws chan'

/-- `rdlock`. -/
def rdlock (chan : AchChannel) (wait abstime : Bool) (waits : List WaitEvent) :
    Exec AchHeader (AchStatus × AchChannel) := do
  let r ← chanLock
  if r ≠ .ok then pure (r, chan) else rdlockLoop wait abstime waits chan

/-- `unrdlock`. -/
def unrdlock : Exec AchHeader AchStatus := do
  let shm ← load
  assert (shm.dirty = false)
  let r ← pthreadMutexUnlock
  if r ≠ .zero then pure .failedSyscall else pure .ok

/-- `wrlock`. -/
def wrlock : Exec AchHeader AchStatus := do
  let r ← chanLock
  if r ≠ .ok then pure r
  else do
    let shm ← load
    assert (shm.dirty = false)
    store fun s => { s with dirty := true }
    pure r

/-- `unwrlock`. -/
def unwrlock : Exec AchHeader AchStatus := do
  let shm ← load
  assert (shm.dirty = true)
  store fun s => { s with dirty := false }
  let r ← pthreadMutexUnlock
  if r ≠ .zero then pure .failedSyscall
  else do
    let r ← pthreadCondBroadcast
    if r ≠ .zero then pure .failedSyscall else pure .ok

/-! ### On a channel nobody is writing -/

section
variable {shm : AchHeader} (dbg : Bool)

theorem out_chanLock (hm : shm.mutex = .free) (hd : shm.dirty = false) :
    out chanLock dbg shm = .ok (.ok, setMutex .held shm) := by
  simp [chanLock, pthreadMutexLock, checkLock, checkDirty, hm, hd, setMutex]

theorem out_wrlock (hm : shm.mutex = .free) (hd : shm.dirty = false) :
    out wrlock dbg shm = .ok (.ok, { shm with mutex := .held, dirty := true }) := by
  unfold wrlock
  rw [out_bind, out_chanLock dbg hm hd]
  simp only [Outcome.bind_ok, ne_eq, not_true_eq_false, if_false, out_bind, out_load,
    setMutex, out_assert hd, out_store, out_pure]

theorem out_unwrlock (hm : shm.mutex = .held) (hd : shm.dirty = true) :
    out unwrlock dbg shm = .ok (.ok, { shm with mutex := .free, dirty := false }) := by
  unfold unwrlock
  simp [out_assert hd, pthreadMutexUnlock, pthreadCondBroadcast, hm, setMutex]

theorem out_unrdlock (hm : shm.mutex = .held) (hd : shm.dirty = false) :
    out unrdlock dbg shm = .ok (.ok, setMutex .free shm) := by
  unfold unrdlock
  simp [out_assert hd, pthreadMutexUnlock, hm]

end

end Ach.Channel.Lock
