import Ach.Channel.PutSpec

/-! # What the critical sections leave alone

Statements about every channel, whatever it holds. Between its lock and its unlock `ach_put` writes
the counters and the two arrays and nothing else; `ach_get` and `ach_flush` write nothing at all,
and change nothing of the handle but its cursor. -/

namespace Ach.Channel.Frame

open Ach.Lib.Run Ach.Lib.Word
open Ach.Channel.Types Ach.Channel.Lock Ach.Channel.Put Ach.Channel.Get Ach.Channel.PutSpec

/-- Code that keeps a property of the block, also while it runs. -/
def Keeps {α : Type} (P : AchHeader → Prop) (m : Exec AchHeader α) : Prop :=
  Holds P m (fun _ => P) P

variable {P C : AchHeader → Prop} {α : Type}

/-! ### Reading -/

theorem indexAt_holds (i : ℕ) : Holds P (indexAt i) (fun _ => P) C := by
  unfold indexAt
  refine Holds.read fun shm => ?_
  cases shm.index[i]? with
  | some e => exact Holds.pure' fun _ h => h
  | none => exact Holds.fault'

theorem memcpyOut_holds (off n : ℕ) : Holds P (memcpyOut off n) (fun _ => P) C := by
  unfold memcpyOut
  refine Holds.read fun _ => Holds.ite' (fun _ => ?_) fun _ => ?_
  · exact Holds.pure' fun _ h => h
  · exact Holds.fault'

theorem copyOut_holds (e : AchIndex) : Holds P (copyOut e) (fun _ => P) C := by
  unfold copyOut
  refine Holds.read fun _ => ?_
  refine Holds.ite' (fun _ => memcpyOut_holds _ _) fun _ => ?_
  refine (memcpyOut_holds _ _).bind fun a => (memcpyOut_holds _ _).bind fun b => ?_
  exact Holds.pure' fun _ h => h

theorem readIndex_holds (chan : AchChannel) (opts : AchGetOpts) :
    Holds P (readIndex chan opts) (fun _ => P) C := by
  unfold readIndex
  refine Holds.read fun _ => ?_
  refine Holds.ite' (fun _ => Holds.umod') fun _ => (indexAt_holds _).bind fun e => ?_
  refine Holds.ite' (fun _ => Holds.pure' fun _ h => h) fun _ => ?_
  refine Holds.ite' (fun _ => ?_) fun _ => Holds.umod'
  exact Holds.assert'.bind fun _ => Holds.umod'

/-- Everything of a handle but its cursor. -/
def SameHandle (chan chan' : AchChannel) : Prop :=
  chan'.mapped = chan.mapped ∧ chan'.len = chan.len ∧ chan'.cancel = chan.cancel

theorem achGetFromOffset_holds (chan : AchChannel) (i size : ℕ) :
    Holds P (achGetFromOffset chan i size) (fun r s => P s ∧ SameHandle chan r.2) C := by
  unfold achGetFromOffset
  refine Holds.read fun _ => ?_
  refine Holds.assert'.bind fun _ => (indexAt_holds _).bind fun e => ?_
  refine Holds.assert'.bind fun _ => Holds.assert'.bind fun _ => ?_
  refine Holds.ite' (fun _ => Holds.pure' fun _ h => ⟨h, rfl, rfl, rfl⟩) fun _ => ?_
  refine Holds.ite' (fun _ => Holds.pure' fun _ h => ⟨h, rfl, rfl, rfl⟩) fun _ => ?_
  refine (copyOut_holds e).bind fun bytes => Holds.umod'.bind fun next => ?_
  exact Holds.pure' fun _ h => ⟨h, rfl, rfl, rfl⟩

/-- **The critical section of `ach_get`** stores nothing. -/
theorem getCritical_holds (chan : AchChannel) (size : ℕ) (opts : AchGetOpts) :
    Holds P (getCritical chan size opts) (fun r s => P s ∧ SameHandle chan r.2) C := by
  unfold getCritical
  refine Holds.read fun _ => ?_
  refine Holds.assert'.bind fun _ => Holds.ite' (fun _ => ?_) fun _ => ?_
  · exact Holds.assert'.bind fun _ => Holds.pure' fun _ h => ⟨h, rfl, rfl, rfl⟩
  · refine (readIndex_holds chan opts).bind fun i => (indexAt_holds i).bind fun e => ?_
    refine (achGetFromOffset_holds chan i size).bind fun r => ?_
    refine (Holds.assert' (P := fun s => P s ∧ SameHandle chan r.2)).bind fun _ => ?_
    exact Holds.ite' (fun _ => Holds.pure' fun _ h => h) fun _ => Holds.pure' fun _ h => h

/-- **The critical section of `ach_flush`** stores nothing. -/
theorem flushCritical_holds (chan : AchChannel) :
    Holds P (flushCritical chan) (fun r s => P s ∧ SameHandle chan r) C := by
  unfold flushCritical
  exact Holds.read fun shm => Holds.pure' fun _ h => ⟨h, rfl, rfl, rfl⟩

/-! ### Writing -/

theorem store_keeps {f : AchHeader → AchHeader} (h : ∀ s, P s → P (f s)) : Keeps P (store f) :=
  Holds.store' fun s hs => ⟨h s hs, h s hs⟩

/-- A property of the block that no store of the critical section of `ach_put` changes, be it to a
counter, to an index entry or to a data byte. -/
structure Stable (P : AchHeader → Prop) : Prop where
  counters : ∀ s dataHead dataFree indexHead indexFree lastSeq, P s → P { s with
    dataHead := dataHead, dataFree := dataFree, indexHead := indexHead, indexFree := indexFree,
    lastSeq := lastSeq }
  entry : ∀ s i e, P s → P { s with index := s.index.set i e }
  byte : ∀ s p b, P s → P { s with data := s.data.set p b }

/-- The part of the block that `ach_put` may only change outside its critical section is `v`. -/
def Fixed (v : AchHeader) (s : AchHeader) : Prop := fixedPart s = v

theorem stable_fixed (v : AchHeader) : Stable (Fixed v) :=
  ⟨fun _ _ _ _ _ _ h => h, fun _ _ _ h => h, fun _ _ _ h => h⟩

section
variable (hP : Stable P)
include hP

theorem storeFields_keeps (i : ℕ) : ∀ fs, Keeps P (storeFields i fs) := by
  intro fs
  induction fs with
  | nil =>
    exact Holds.pure' fun _ h => h
  | cons f fs ih =>
    refine Holds.bind ?_ fun _ => ih
    exact (indexAt_holds i).bind fun e => store_keeps fun s hs => hP.entry s i (f e) hs

theorem memcpyIn_keeps (off : ℕ) (buf : ℕ → UInt8) : ∀ n, Keeps P (memcpyIn off buf n) := by
  intro n
  induction n with
  | zero =>
    exact Holds.pure' fun _ h => h
  | succ n ih =>
    refine (ih).bind fun _ => Holds.read fun _ => ?_
    refine Holds.ite' (fun _ => store_keeps fun s hs => hP.byte s _ _ hs) fun _ => ?_
    exact Holds.fault'

theorem freeIndex_keeps (i : ℕ) : Keeps P (freeIndex i) := by
  unfold freeIndex
  refine (indexAt_holds i).bind fun e => Holds.assert'.bind fun _ => Holds.assert'.bind fun _ => ?_
  refine Holds.read fun _ => Holds.assert'.bind fun _ => ?_
  refine (store_keeps fun s hs => hP.counters s _ _ _ _ _ hs).bind fun _ => ?_
  refine (store_keeps fun s hs => hP.counters s _ _ _ _ _ hs).bind fun _ => ?_
  exact storeFields_keeps hP i _

theorem clearHead_keeps : Keeps P clearHead := by
  refine Holds.read fun _ => ?_
  refine Holds.ite' (fun _ => freeIndex_keeps hP _) fun _ => ?_
  exact (indexAt_holds _).bind fun e => Holds.assert'

theorem clearOverlapping_keeps (len : ℕ) : ∀ fuel i, Keeps P (clearOverlapping len fuel i) := by
  intro n
  induction n with
  | zero =>
    intro i
    refine Holds.read fun _ => Holds.ite' (fun _ => ?_) fun _ => ?_
    · exact Holds.stop' nofun
    · exact Holds.pure' fun _ h => h
  | succ n ih =>
    intro i
    refine Holds.read fun _ => ?_
    refine Holds.ite' (fun _ => ?_) fun _ => Holds.pure' fun _ h => h
    refine Holds.assert'.bind fun _ => (freeIndex_keeps hP i).bind fun _ => ?_
    exact Holds.umod'.bind fun i' => ih i'

theorem copyIn_keeps (buf : ℕ → UInt8) (len : ℕ) : Keeps P (copyIn buf len) := by
  refine Holds.read fun _ => Holds.ite' (fun _ => memcpyIn_keeps hP _ _ _) fun _ => ?_
  exact (memcpyIn_keeps hP _ _ _).bind fun _ => memcpyIn_keeps hP _ _ _

theorem modifyCounts_keeps (idx len : ℕ) : Keeps P (modifyCounts idx len) := by
  unfold modifyCounts
  refine (store_keeps fun s hs => hP.counters s _ _ _ _ _ hs).bind fun _ => Holds.read fun shm => ?_
  refine (storeFields_keeps hP idx _).bind fun _ => Holds.umod'.bind fun _ => ?_
  refine (store_keeps fun s hs => hP.counters s _ _ _ _ _ hs).bind fun _ => ?_
  refine (store_keeps fun s hs => hP.counters s _ _ _ _ _ hs).bind fun _ => ?_
  refine Holds.umod'.bind fun _ => ?_
  refine (store_keeps fun s hs => hP.counters s _ _ _ _ _ hs).bind fun _ => ?_
  refine (store_keeps fun s hs => hP.counters s _ _ _ _ _ hs).bind fun _ => Holds.read fun shm => ?_
  exact Holds.assert'.bind fun _ => Holds.assert'.bind fun _ => Holds.assert'

/-- **The critical section of `ach_put`** writes the counters and the arrays only. -/
theorem putCritical_keeps (buf : ℕ → UInt8) (len : ℕ) : Keeps P (putCritical buf len) := by
  refine Holds.read fun _ => ?_
  refine (clearHead_keeps hP).bind fun _ => Holds.read fun _ => ?_
  refine Holds.assert'.bind fun _ => Holds.umod'.bind fun i => ?_
  refine (clearOverlapping_keeps hP len _ i).bind fun _ => Holds.read fun _ => ?_
  exact Holds.assert'.bind fun _ => (copyIn_keeps hP buf len).bind fun _ =>
    modifyCounts_keeps hP _ len

end

/-! ### The locks -/

theorem pthreadMutexUnlock_keeps (h : ∀ s m n, P s → P { s with mutex := m, strayUnlocks := n }) :
    Keeps P pthreadMutexUnlock := by
  refine Holds.read fun s => ?_
  split
  · exact (store_keeps fun s hs => h s _ s.strayUnlocks hs).bind fun _ => Holds.pure' fun _ hs => hs
  · exact (store_keeps fun s hs => h s _ s.strayUnlocks hs).bind fun _ => Holds.pure' fun _ hs => hs
  · exact (store_keeps fun s hs => h s s.mutex _ hs).bind fun _ => Holds.pure' fun _ hs => hs

section
variable (hS : ∀ s m d n, P s → P { s with mutex := m, dirty := d, strayUnlocks := n })
include hS

theorem checkLock_keeps (r : PthreadResult) (isCondCheck : Bool) :
    Keeps P (checkLock r isCondCheck) := by
  have hunlock : Keeps P pthreadMutexUnlock :=
    pthreadMutexUnlock_keeps fun s m n hs => hS s m s.dirty n hs
  have hset : ∀ m, Keeps P (store (setMutex m)) :=
    fun m => store_keeps fun s hs => hS s m s.dirty s.strayUnlocks hs
  have hret : ∀ r : AchStatus, Keeps P (pure r) := fun r => Holds.pure' fun _ h => h
  have hdirty : Keeps P checkDirty := by
    refine Holds.read fun s => Holds.ite' (fun _ => ?_) fun _ => hret _
    exact hunlock.bind fun _ => hret _
  have hrelease : Keeps P (releaseIf isCondCheck) := by
    refine Holds.ite' (fun _ => ?_) fun _ => Holds.pure' fun _ h => h
    exact hunlock.bind fun _ => Holds.pure' fun _ h => h
  unfold checkLock
  split
  · exact hrelease.bind fun _ => hret _
  · exact hret _
  · refine Holds.bind (Q := fun _ => P) (Holds.read fun s => ?_) fun _ => hdirty
    split
    · exact hset _
    · exact Holds.pure' fun _ h => h
  · exact hdirty
  · exact hrelease.bind fun _ => hret _

theorem chanLock_keeps : Keeps P chanLock := by
  have hset : ∀ m, Keeps P (store (setMutex m)) :=
    fun m => store_keeps fun s hs => hS s m s.dirty s.strayUnlocks hs
  have hlock : Keeps P pthreadMutexLock := by
    refine Holds.read fun s => ?_
    split
    · exact (hset _).bind fun _ => Holds.pure' fun _ h => h
    · exact (hset _).bind fun _ => Holds.pure' fun _ h => h
    all_goals exact Holds.pure' fun _ h => h
  exact hlock.bind fun i => checkLock_keeps hS i false

theorem wrlock_keeps : Keeps P wrlock := by
  refine Holds.bind (chanLock_keeps hS) fun r => ?_
  refine Holds.ite' (fun _ => Holds.pure' fun _ h => h) fun _ => Holds.read fun shm => ?_
  refine Holds.assert'.bind fun _ => ?_
  exact (store_keeps fun s hs => hS s s.mutex _ s.strayUnlocks hs).bind fun _ =>
    Holds.pure' fun _ h => h

theorem unwrlock_keeps : Keeps P unwrlock := by
  refine Holds.read fun s => Holds.assert'.bind fun _ => ?_
  refine (store_keeps fun s hs => hS s s.mutex _ s.strayUnlocks hs).bind fun _ => ?_
  refine (pthreadMutexUnlock_keeps fun s m n hs => hS s m s.dirty n hs).bind fun r => ?_
  refine Holds.ite' (fun _ => Holds.pure' fun _ h => h) fun _ => ?_
  refine Holds.bind (Q := fun _ => P) (Holds.pure' fun _ h => h) fun r => ?_
  exact Holds.ite' (fun _ => Holds.pure' fun _ h => h) fun _ => Holds.pure' fun _ h => h

/-- **`ach_put`** writes the counters, the arrays and the synchronization variables only. -/
theorem achPut_keeps (hP : Stable P) (chan : AchChannel) (buf : Option (ℕ → UInt8)) (len : ℕ) :
    Keeps P (achPut chan buf len) := by
  have hret : ∀ r : AchStatus, Keeps P (pure r) := fun r => Holds.pure' fun _ h => h
  cases buf with
  | none => exact hret _
  | some buf =>
    unfold achPut
    refine Holds.ite' (fun _ => hret _) fun _ => Holds.read fun s => ?_
    refine Holds.ite' (fun _ => hret _) fun _ => Holds.ite' (fun _ => hret _) fun _ => ?_
    refine Holds.ite' (fun _ => hret _) fun _ => ?_
    exact (wrlock_keeps hS).bind fun _ => (putCritical_keeps hP buf len).bind fun _ =>
      unwrlock_keeps hS

end

/-- A put that goes into its critical section gives what the section gives, with the mutex free. -/
theorem out_achPut_of_critical {dbg : Bool} {shm shm' : AchHeader} {chan : AchChannel}
    {buf : ℕ → UInt8} {len : ℕ} (hc : Invariant.Clean shm) (hlen : len ≠ 0) (hm : chan.mapped = true)
    (hfit : len ≤ shm.dataSize)
    (hcrit : out (putCritical buf len) dbg { shm with mutex := .held, dirty := true } =
      .ok ((), shm')) :
    out (achPut chan (some buf) len) dbg shm =
      .ok (.ok, { shm' with mutex := .free, dirty := false }) := by
  have hg : checkGuards shm = .ok := if_pos hc.guards
  have hfix : Fixed (fixedPart { shm with mutex := .held, dirty := true }) shm' :=
    (putCritical_keeps (stable_fixed _) buf len dbg _ rfl).2 _ _ hcrit
  have hmutex : shm'.mutex = .held := mutex_of_fixedPart hfix
  have hdirty : shm'.dirty = true := dirty_of_fixedPart hfix
  simp only [achPut]
  rw [if_neg (by simp [hlen, hm]), out_bind_of (out_load dbg shm), if_neg (by simp [hg]),
    if_neg (by omega), if_neg (by omega), out_bind_of (out_wrlock dbg hc.mutex hc.dirty),
    out_bind_of hcrit, out_unwrlock dbg hmutex hdirty]

end Ach.Channel.Frame
