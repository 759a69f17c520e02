import Ach.Channel.Delivery
import Ach.Channel.Reach
import Ach.Sync.Lockset

/-! # Histories of interleaved calls

`Ach.Channel.Runs` takes every call as one atomic step; the machine takes it in several, between
which others come in. A history is a run of the machine with instants marked in it at which calls
take effect (`Mark`); it is in order if every call takes effect once, between its beginning and its
return, and returns what it gave then (`Placed`), and if an `ach_cancel` takes effect with the step
that sets the flag (`Flagged`). The effects of a history, one after the other, are a run of the
atomic system (`atomic`) in which handles can be canceled in between.

Here is also what an atomic call does, for each way in which a call of the machine can go. -/

namespace Ach.Sync.Atomic

open Ach.Lib.Run
open Ach.Channel.Types Ach.Channel.Lock Ach.Channel.Put Ach.Channel.Get Ach.Channel.Create
open Ach.Channel.Invariant Ach.Channel.PutSpec Ach.Channel.Frame Ach.Channel.GetSpec
open Ach.Channel.Runs (Call Reply Sys)
open Ach.Channel.Reach
open Ach.Sync.Machine Ach.Sync.Lockset

variable {H : Type} [DecidableEq H]

/-! ### Histories -/

/-- The atomic call that a call of the machine is, with the ends of its waits. -/
def callOf : Op → List WaitEnd → Call
  | .put buf len, _ => .put buf len
  | .read (.get size abstime opts), ws => .get size abstime opts ws
  | .read .flush, _ => .flush

/-- What takes effect at one instant: a call with its reply, or the setting of a cancel flag. -/
inductive Effect (H : Type) where
  | call (h : H) (c : Call) (r : Reply)
  | cancel (h : H)

/-- The handle's cancel flag is set. -/
def setCancel (a : Sys H) (h : H) : Sys H :=
  { a with chan := Function.update a.chan h { a.chan h with cancel := true } }

/-- The effect in the atomic system; there is none if the call gives another reply there. -/
def Effect.apply (dbg : Bool) (a : Sys H) : Effect H → Option (Sys H)
  | .call h c r =>
    match a.call dbg h c with
    | .ok (r', a') => if r' = r then some a' else none
    | _ => none
  | .cancel h => some (setCancel a h)

theorem apply_call {dbg : Bool} {a a' : Sys H} {h : H} {c : Call} {r : Reply} :
    Effect.apply dbg a (.call h c r) = some a' ↔ a.call dbg h c = .ok (r, a') := by
  rw [Effect.apply]
  generalize a.call dbg h c = o
  cases o with
  | ok p =>
    obtain ⟨r', a''⟩ := p
    by_cases hr : r' = r <;> simp [hr]
  | _ => simp

/-- The effects one after the other. -/
def atomic (dbg : Bool) : List (Effect H) → Sys H → Option (Sys H)
  | [], a => some a
  | e :: es, a => (e.apply dbg a).bind (atomic dbg es)

/-- An entry of a history: a step of the machine, or the instant of an effect. -/
inductive Mark (H : Type) where
  | step (l : Label H)
  | effect (e : Effect H)

/-- The steps of a history. -/
def labels (ms : List (Mark H)) : List (Label H) :=
  ms.filterMap fun
    | .step l => some l
    | .effect _ => none

/-- The effects of a history. -/
def effects (ms : List (Mark H)) : List (Effect H) :=
  ms.filterMap fun
    | .step _ => none
    | .effect e => some e

/-- How far the handle is with its call: it has called, and the call has taken effect. -/
inductive Progress where
  | idle
  | called (op : Op)
  | took (op : Op) (r : Reply)
  | gone

/-- What the caller is given is the reply. The cancel flag can have been set in between. -/
def Gives (ret : Ret) (chan : AchChannel) : Reply → Prop
  | .put r _ => ret = .put r
  | .get res chan' => ret = .get res ∧ chan = { chan' with cancel := chan.cancel }
  | .flush r chan' => ret = .flush r ∧ chan = { chan' with cancel := chan.cancel }

/-- **Every call takes effect once, between its beginning and its return,** and returns what it gave
at that instant. Of a process that dies nothing is asked. -/
def Placed : List (Mark H) → (H → Progress) → Prop
  | [], _ => True
  | .step (.begin h op) :: ms, p =>
    p h = .idle ∧ Placed ms (Function.update p h (.called op))
  | .effect (.call h c r) :: ms, p =>
    ∃ op ws, p h = .called op ∧ c = callOf op ws ∧ Placed ms (Function.update p h (.took op r))
  | .step (.ret h ret chan _) :: ms, p =>
    ∃ op r, p h = .took op r ∧ Gives ret chan r ∧ Placed ms (Function.update p h .idle)
  | .step (.die h) :: ms, p => Placed ms (Function.update p h .gone)
  | .step _ :: ms, p => Placed ms p
  | .effect (.cancel _) :: ms, p => Placed ms p

/-- The handle whose cancel flag the step sets. -/
def sets (s : St H) : Label H → Option H
  | .handler h =>
    match s.sig h with
    | .set :: _ => some h
    | _ => none
  | .task i =>
    match s.tasks[i]? with
    | some ⟨h, _, .set⟩ => some h
    | _ => none
  | _ => none

/-- **Every `ach_cancel` takes effect once, with its step that sets the flag,** in the signal
handler or in the canceller. `due` is the handle whose flag the step just taken has set. -/
def Flagged (dbg : Bool) : List (Mark H) → Option H → St H → Prop
  | [], due, _ => due = none
  | .step l :: ms, due, s =>
    due = none ∧ ∃ s', s.next dbg l = some s' ∧ Flagged dbg ms (sets s l) s'
  | .effect (.cancel h) :: ms, due, s => due = some h ∧ Flagged dbg ms none s
  | .effect (.call _ _ _) :: ms, due, s => due = none ∧ Flagged dbg ms none s

/-! ### The atomic calls -/

/-- The block with its lock as it is between two calls. -/
def settled (shm : AchHeader) : AchHeader := { shm with mutex := .free, dirty := false }

/-- The reply of a call that gives `ret`. -/
def replyOf (ret : Ret) (chan : AchChannel) (shm : AchHeader) : Reply :=
  match ret with
  | .put r => .put r shm
  | .get res => .get res chan
  | .flush r => .flush r chan

theorem gives_replyOf (ret : Ret) (chan : AchChannel) (shm : AchHeader) :
    Gives ret chan (replyOf ret chan shm) := by
  cases ret with
  | put r => rfl
  | get res => exact ⟨rfl, rfl⟩
  | flush r => exact ⟨rfl, rfl⟩

theorem Gives.cancel {ret : Ret} {chan : AchChannel} {r : Reply} (h : Gives ret chan r) (c : Bool) :
    Gives ret { chan with cancel := c } r := by
  cases r with
  | put r shm => exact h
  | get res chan' => exact ⟨h.1, by rw [h.2]⟩
  | flush r chan' => exact ⟨h.1, by rw [h.2]⟩

/-- What a read does between `rdlock` and `unrdlock`: what it gives, and the handle. -/
def bodyOut (dbg : Bool) (shm : AchHeader) (chan : AchChannel) : ReadOp → Outcome (Ret × AchChannel)
  | .get size _ opts =>
    (out (getCritical chan size opts) dbg shm).bind fun p => .ok (.get p.1.1, p.1.2)
  | .flush => (out (flushCritical chan) dbg shm).bind fun p => .ok (.flush .ok, p.1)

section
variable (dbg : Bool) {a : Sys H} {h : H}

/-- A put takes effect with its critical section. -/
theorem call_put {buf : ℕ → UInt8} {len : ℕ} {shm' : AchHeader} (hc : Clean a.shm) (hlen : len ≠ 0)
    (hm : (a.chan h).mapped = true) (hfit : len ≤ a.shm.dataSize)
    (hcrit : out (putCritical buf len) dbg { a.shm with mutex := .held, dirty := true } =
      .ok ((), shm')) :
    a.call dbg h (.put (some buf) len) =
      .ok (.put .ok (settled shm'), { a with shm := settled shm' }) := by
  have hput := out_achPut_of_critical hc hlen hm hfit hcrit
  simp only [Sys.call, hput, Outcome.bind_ok]
  rfl

/-- A read that is not canceled and does not have to wait takes effect with its critical section. -/
theorem call_read {r : ReadOp} {ret : Ret} {chan' : AchChannel} (hc : Clean a.shm)
    (hm : (a.chan h).mapped = true) (hlive : (a.chan h).cancel = false)
    (hnew : r.wait = true → (a.chan h).seqNum ≠ a.shm.lastSeq)
    (hbody : bodyOut dbg (setMutex .held a.shm) (a.chan h) r = .ok (ret, chan')) :
    a.call dbg h (callOf (.read r) []) =
      .ok (replyOf ret chan' a.shm, { a with chan := Function.update a.chan h chan' }) := by
  cases r with
  | get size abstime opts =>
    obtain ⟨p, hp, he⟩ := Outcome.bind_eq_ok.mp hbody
    obtain ⟨rfl, rfl⟩ : Ret.get p.1.1 = ret ∧ p.1.2 = chan' := by simpa using he
    have hget := achGet_of_rdlock size hc hc hm (rdlock_now dbg abstime [] hc hlive hnew)
    rw [hp] at hget
    simp only [callOf, Sys.call, List.map_nil, hget, Outcome.bind_ok]
    rfl
  | flush =>
    rw [bodyOut] at hbody
    obtain ⟨p, hp, he⟩ := Outcome.bind_eq_ok.mp hbody
    obtain ⟨rfl, rfl⟩ : Ret.flush .ok = ret ∧ p.1 = chan' := by simpa using he
    have hr : out (rdlock (a.chan h) false false []) dbg a.shm =
        .ok ((.ok, a.chan h), setMutex .held a.shm) := rdlock_now dbg false [] hc hlive (by simp)
    obtain ⟨hstate, -⟩ := (flushCritical_holds (P := (· = setMutex .held a.shm))
      (C := fun _ => True) (a.chan h) dbg _ rfl).2 p.1 p.2 hp
    have hflush : out (achFlush (a.chan h)) dbg a.shm = .ok ((.ok, p.1), a.shm) := by
      rw [achFlush, if_neg (by simp [hm]), out_bind_of hr]
      simp only [ne_eq, not_true_eq_false, if_false]
      rw [out_bind_of hp, hstate, out_bind_of (out_unrdlock_held dbg hc), out_pure]
    simp only [callOf, Sys.call, hflush, Outcome.bind_ok]
    rfl

/-- A canceled read. -/
theorem call_canceled (r : ReadOp) (hc : Clean a.shm) (hm : (a.chan h).mapped = true)
    (hcancel : (a.chan h).cancel = true) :
    a.call dbg h (callOf (.read r) []) =
      .ok (replyOf (r.fail .canceled) (a.chan h) a.shm, a) := by
  have hg : checkGuards a.shm = .ok := if_pos hc.guards
  have hheld : (setMutex .held a.shm).mutex = .held := rfl
  have hr : ∀ wait abstime, out (rdlock (a.chan h) wait abstime []) dbg a.shm =
      .ok ((.canceled, a.chan h), a.shm) := fun wait abstime => by
    rw [rdlock, out_bind_of (out_chanLock dbg hc.mutex hc.dirty)]
    simp only [ne_eq, not_true_eq_false, if_false, rdlockLoop]
    rw [out_bind, out_rdlockCheck dbg hheld, if_pos hcancel, Outcome.bind_ok, setMutex_setMutex,
      setMutex_self a.shm hc.mutex]
    rfl
  cases r with
  | get size abstime opts =>
    have hget : out (achGet (a.chan h) size abstime opts []) dbg a.shm =
        .ok ((.bare .canceled, a.chan h), a.shm) := by
      rw [achGet, out_bind_of (out_load dbg a.shm), if_neg (by simp [hm]), if_neg (by simp [hg]),
        out_bind_of (hr _ _)]
      rfl
    simp only [callOf, Sys.call, List.map_nil, hget, Outcome.bind_ok, Function.update_eq_self]
    rfl
  | flush =>
    have hflush : out (achFlush (a.chan h)) dbg a.shm = .ok ((.canceled, a.chan h), a.shm) := by
      rw [achFlush, if_neg (by simp [hm]), out_bind_of (hr _ _)]
      rfl
    simp only [callOf, Sys.call, hflush, Outcome.bind_ok, Function.update_eq_self]
    rfl

/-- A get that finds nothing and times out. -/
theorem call_timeout {r : ReadOp} (hc : Clean a.shm) (hm : (a.chan h).mapped = true)
    (hlive : (a.chan h).cancel = false) (hwait : r.wait = true) (habs : r.abstime = true)
    (hold : (a.chan h).seqNum = a.shm.lastSeq) :
    a.call dbg h (callOf (.read r) [.timedOut]) =
      .ok (replyOf (r.fail .timeout) (a.chan h) a.shm, a) := by
  cases r with
  | flush => simp [ReadOp.wait] at hwait
  | get size abstime opts =>
    obtain rfl : abstime = true := habs
    replace hwait : opts.wait = true := hwait
    have hg : checkGuards a.shm = .ok := if_pos hc.guards
    have hheld : (setMutex .held a.shm).mutex = .held := rfl
    have hcheck : out (rdlockCheck (a.chan h) opts.wait) dbg (setMutex .held a.shm) =
        .ok (none, setMutex .held a.shm) := by
      rw [out_rdlockCheck dbg hheld, if_neg (by simp [hlive]), if_pos ⟨hwait, hold⟩]
    have hcond : out (pthreadCondWait true WaitEnd.timedOut.event) dbg (setMutex .held a.shm) =
        .ok (.etimedout, setMutex .held a.shm) := rfl
    have hrelease : out (checkLock .etimedout true) dbg (setMutex .held a.shm) =
        .ok (.timeout, a.shm) := by
      simp [checkLock, releaseIf, pthreadMutexUnlock, hheld, setMutex_self a.shm hc.mutex]
    have hr : out (rdlock (a.chan h) opts.wait true [WaitEnd.timedOut.event]) dbg a.shm =
        .ok ((.timeout, a.chan h), a.shm) := by
      rw [rdlock, out_bind_of (out_chanLock dbg hc.mutex hc.dirty)]
      simp only [ne_eq, not_true_eq_false, if_false, rdlockLoop]
      rw [out_bind_of hcheck, out_bind_of hcond, out_bind_of hrelease]
      simp [WaitEnd.event, WaitEvent.quiet]
    have hget : out (achGet (a.chan h) size true opts [WaitEnd.timedOut.event]) dbg a.shm =
        .ok ((.bare .timeout, a.chan h), a.shm) := by
      rw [achGet, out_bind_of (out_load dbg a.shm), if_neg (by simp [hm]), if_neg (by simp [hg]),
        out_bind_of hr]
      rfl
    simp only [callOf, Sys.call, List.map_cons, List.map_nil, hget, Outcome.bind_ok,
      Function.update_eq_self]
    rfl

/-- The tests a put makes before it takes the lock. -/
theorem call_put_refused {buf : Option (ℕ → UInt8)} {len : ℕ} {ret : Ret} (hc : Clean a.shm)
    (he : enter a.shm (a.chan h) (.put buf len) = some (.done ret)) :
    a.call dbg h (.put buf len) = .ok (replyOf ret (a.chan h) a.shm, a) := by
  have hg : checkGuards a.shm = .ok := if_pos hc.guards
  cases buf with
  | none =>
    obtain rfl : Ret.put .einval = ret := by simpa [enter] using he
    rfl
  | some buf =>
    simp only [enter] at he
    by_cases h0 : len = 0 ∨ (a.chan h).mapped = false
    · obtain rfl : Ret.put .einval = ret := by simpa [h0] using he
      simp only [Sys.call, achPut, if_pos h0]
      rfl
    by_cases hbig : a.shm.dataSize < len
    · obtain rfl : Ret.put .overflow = ret := by simpa [h0, hg, hbig] using he
      have hput : out (achPut (a.chan h) (some buf) len) dbg a.shm = .ok (.overflow, a.shm) := by
        simp only [achPut]
        rw [if_neg h0, out_bind_of (out_load dbg a.shm), if_neg (by simp [hg]), if_pos hbig,
          out_pure]
      simp only [Sys.call, hput]
      rfl
    · simp [h0, hg, hbig] at he

end

/-! ### The cancel flag does not matter once it has been read -/

theorem getCritical_cancel (chan : AchChannel) (size : ℕ) (opts : AchGetOpts) (c : Bool) :
    Maps (fun p : GetResult × AchChannel => (p.1, { p.2 with cancel := c }))
      (getCritical chan size opts) (getCritical { chan with cancel := c } size opts) := by
  have hoffset : ∀ i, Maps (fun p : GetResult × AchChannel => (p.1, { p.2 with cancel := c }))
      (achGetFromOffset chan i size) (achGetFromOffset { chan with cancel := c } i size) := fun i =>
    .same fun shm => .same fun _ => .same fun idx => .same fun _ => .same fun _ =>
      .ite' (.pure' _) (.ite' (.pure' _) (.same fun bytes => .same fun next => .pure' _))
  refine .same fun shm => .same fun _ => .ite' (.same fun _ => .pure' _) ?_
  refine .same fun i => .same fun e => .bind (hoffset i) fun p => .same fun _ => ?_
  exact .ite' (.pure' _) (.pure' _)

theorem bodyOut_cancel {dbg : Bool} {shm : AchHeader} {chan chan' : AchChannel} {r : ReadOp}
    {ret : Ret} (hb : bodyOut dbg shm chan r = .ok (ret, chan')) (c : Bool) :
    bodyOut dbg shm { chan with cancel := c } r = .ok (ret, { chan' with cancel := c }) := by
  cases r with
  | get size abstime opts =>
    rw [bodyOut] at hb
    obtain ⟨p, hp, he⟩ := Outcome.bind_eq_ok.mp hb
    obtain ⟨rfl, rfl⟩ : Ret.get p.1.1 = ret ∧ p.1.2 = chan' := by simpa using he
    rw [bodyOut, getCritical_cancel chan size opts c dbg shm, hp]
    rfl
  | flush =>
    have hf : ∀ ch : AchChannel, bodyOut dbg shm ch .flush =
        .ok (.flush .ok, { ch with seqNum := shm.lastSeq, nextIndex := shm.indexHead }) :=
      fun _ => rfl
    rw [hf, Outcome.ok.injEq, Prod.mk.injEq] at hb
    obtain ⟨rfl, rfl⟩ := hb
    rw [hf]

end Ach.Sync.Atomic
