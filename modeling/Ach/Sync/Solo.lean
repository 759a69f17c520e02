import Ach.Sync.Lockset

/-! # Calls that nobody comes in between

The steps of a call, taken one after the other on a channel nobody else uses, do what the function
of `Ach.Channel` does: the same result, the same handle and the same block. The machine is cut from
the functions and not written beside them. -/

namespace Ach.Sync.Solo

open Ach.Lib.Run
open Ach.Channel.Types Ach.Channel.Lock Ach.Channel.Put Ach.Channel.Get
open Ach.Channel.Invariant Ach.Channel.PutSpec Ach.Channel.Frame Ach.Channel.GetSpec
open Ach.Sync.Machine Ach.Sync.Lockset

variable {H : Type} [DecidableEq H]

/-- The call, begun by an idle handle and stepped `n` times, is about to return. -/
def Completes (dbg : Bool) (s : St H) (h : H) (op : Op) (n : ℕ) (ret : Ret) (shm : AchHeader)
    (chan : AchChannel) : Prop :=
  ∃ s', run dbg (.begin h op :: List.replicate n (.step h)) s = some s' ∧ s'.pc h = .done ret ∧
    s'.shm = shm ∧ s'.chan h = chan

/-- Steps of one handle alone. -/
def walk (dbg : Bool) : ℕ → AchHeader × AchChannel × Pc → Option (AchHeader × AchChannel × Pc)
  | 0, c => some c
  | n + 1, c => (advance dbg c.1 c.2.1 c.2.2).bind fun m => walk dbg n (m.shm, m.chan, m.pc)

section
variable {dbg : Bool} {s : St H} {h : H}

theorem run_walk : ∀ (n : ℕ) (s : St H), s.sig h = [] → ∀ c,
    walk dbg n (s.shm, s.chan h, s.pc h) = some c →
    ∃ s', run dbg (List.replicate n (.step h)) s = some s' ∧ (s'.shm, s'.chan h, s'.pc h) = c := by
  intro n
  induction n with
  | zero =>
    intro s _ c hw
    exact ⟨s, rfl, Option.some.inj hw⟩
  | succ n ih =>
    intro s hsig c hw
    obtain ⟨m, hm, hw⟩ := Option.bind_eq_some_iff.mp hw
    have hnext : s.next dbg (.step h) = some (s.apply h m) := by
      simp only [St.next, hsig, hm, Option.map_some]
    obtain ⟨s', hrun, hc⟩ := ih (s.apply h m) hsig c (by simpa [St.apply] using hw)
    exact ⟨s', by rw [List.replicate_succ, run, hnext, Option.bind_some, hrun], hc⟩

/-- A call completes if its steps do. -/
theorem completes_of_walk {op : Op} {p : Pc} {n : ℕ} {ret : Ret} {shm : AchHeader}
    {chan : AchChannel} (hidle : s.pc h = .idle) (hsig : s.sig h = [])
    (hp : enter s.shm (s.chan h) op = some p)
    (hw : walk dbg n (s.shm, s.chan h, p) = some (shm, chan, .done ret)) :
    Completes dbg s h op n ret shm chan := by
  have hbegin : s.next dbg (.begin h op) = some { s with pc := Function.update s.pc h p } := by
    simp only [St.next, hidle, hsig, hp, Option.map_some]
  obtain ⟨s', hrun, hc⟩ := run_walk n { s with pc := Function.update s.pc h p } hsig _
    (by simpa using hw)
  simp only [Prod.mk.injEq] at hc
  exact ⟨s', by rw [run, hbegin, Option.bind_some, hrun], hc.2.2, hc.1, hc.2.1⟩

end

section
variable {dbg : Bool} {s : St H} {h : H} (hidle : s.pc h = .idle) (hsig : s.sig h = [])
  (hc : Clean s.shm)
include hidle hsig hc

/-- **`ach_put`.** -/
theorem put_alone {buf : Option (ℕ → UInt8)} {len : ℕ} {r : AchStatus} {shm : AchHeader}
    (hout : out (achPut (s.chan h) buf len) dbg s.shm = .ok (r, shm)) :
    ∃ n, Completes dbg s h (.put buf len) n (.put r) shm (s.chan h) := by
  cases buf with
  | none =>
    simp only [achPut, out_pure, Outcome.ok.injEq, Prod.mk.injEq] at hout
    obtain ⟨rfl, rfl⟩ := hout
    exact ⟨0, completes_of_walk hidle hsig rfl rfl⟩
  | some buf =>
    have hg : checkGuards s.shm = .ok := if_pos hc.guards
    simp only [achPut] at hout
    by_cases h0 : len = 0 ∨ (s.chan h).mapped = false
    · rw [if_pos h0] at hout
      simp only [out_pure, Outcome.ok.injEq, Prod.mk.injEq] at hout
      obtain ⟨rfl, rfl⟩ := hout
      exact ⟨0, completes_of_walk hidle hsig (by simp only [enter, if_pos h0]) rfl⟩
    rw [if_neg h0] at hout
    simp only [out_bind, out_load, Outcome.bind_ok, hg, ne_eq, not_true_eq_false, if_false,
      out_ite] at hout
    by_cases hbig : s.shm.dataSize < len
    · simp only [hbig, if_true, out_pure, Outcome.ok.injEq, Prod.mk.injEq] at hout
      obtain ⟨rfl, rfl⟩ := hout
      exact ⟨0, completes_of_walk hidle hsig (by simp [enter, h0, hg, hbig]) rfl⟩
    simp only [hbig, if_false, out_wrlock dbg hc.mutex hc.dirty, Outcome.bind_ok] at hout
    obtain ⟨p, hbody, hout⟩ := Outcome.bind_eq_ok.mp hout
    obtain ⟨⟨⟩, shm₁⟩ := p
    have hfix : Fixed (fixedPart { s.shm with mutex := .held, dirty := true }) shm₁ :=
      (putCritical_keeps (stable_fixed _) buf len dbg _ rfl).2 _ _ hbody
    have hm : shm₁.mutex = .held := mutex_of_fixedPart hfix
    have hd : shm₁.dirty = true := dirty_of_fixedPart hfix
    rw [out_unwrlock dbg hm hd] at hout
    simp only [Outcome.ok.injEq, Prod.mk.injEq] at hout
    obtain ⟨rfl, rfl⟩ := hout
    refine ⟨5, completes_of_walk hidle hsig (p := .putLock buf len) (by simp [enter, h0, hg, hbig])
      ?_⟩
    -- one step at a time, for `advance` is small only where the phase is known
    iterate 5
      rw [walk]
      simp [advance, hc.mutex, out_wrlock dbg hc.mutex hc.dirty, moveOn, hbody, hd,
        out_pthreadMutexUnlock_held, hm, setMutex]
    rfl

/-- **`ach_get`** that does not have to wait. -/
theorem get_alone {size : ℕ} {abstime : Bool} {opts : AchGetOpts} {res : GetResult}
    {chan : AchChannel} {shm : AchHeader}
    (hout : out (achGet (s.chan h) size abstime opts []) dbg s.shm = .ok ((res, chan), shm)) :
    ∃ n, Completes dbg s h (.read (.get size abstime opts)) n (.get res) shm chan := by
  have hg : checkGuards s.shm = .ok := if_pos hc.guards
  have hfree : setMutex .free (setMutex .held s.shm) = s.shm := setMutex_self s.shm hc.mutex
  have hheld : (setMutex .held s.shm).mutex = .held := rfl
  have hlock := out_chanLock dbg hc.mutex hc.dirty
  simp only [achGet, out_bind, out_load, Outcome.bind_ok, out_ite] at hout
  by_cases hmap : (s.chan h).mapped = false
  · simp [hmap] at hout
  simp only [hmap, if_false, hg, ne_eq, not_true_eq_false, rdlock, out_bind, hlock, Outcome.bind_ok,
    rdlockLoop, out_rdlockCheck dbg hheld, hfree] at hout
  have henter : enter s.shm (s.chan h) (.read (.get size abstime opts)) =
      some (.lock (.get size abstime opts)) := by simp [enter, hmap, hg]
  by_cases hcancel : (s.chan h).cancel
  · simp only [hcancel, if_true, out_pure, Outcome.bind_ok, reduceCtorEq,
      not_false_eq_true] at hout
    obtain ⟨⟨rfl, rfl⟩, rfl⟩ := hout
    refine ⟨3, completes_of_walk hidle hsig henter ?_⟩
    iterate 3
      rw [walk]
      simp [advance, hc.mutex, hlock, moveOn, hcancel, out_pthreadMutexUnlock_held, hheld, hfree,
        ReadOp.fail]
    rfl
  by_cases hwait : opts.wait = true ∧ (s.chan h).seqNum = (setMutex .held s.shm).lastSeq
  · simp [hcancel, hwait, Outcome.bind] at hout
  simp only [hcancel, hwait, if_false, out_pure, Outcome.bind_ok, not_true_eq_false,
    Bool.false_eq_true] at hout
  obtain ⟨p, hbody, hout⟩ := Outcome.bind_eq_ok.mp hout
  obtain ⟨⟨res₁, chan₁⟩, shm₁⟩ := p
  obtain ⟨rfl, -⟩ := (getCritical_holds (P := (setMutex .held s.shm = ·)) (C := fun _ => True)
    (s.chan h) size opts dbg _ rfl).2 _ _ hbody
  simp only [out_unrdlock_held dbg hc, Outcome.bind_ok, not_true_eq_false, if_false] at hout
  obtain ⟨⟨rfl, rfl⟩, rfl⟩ := hout
  refine ⟨4, completes_of_walk hidle hsig henter ?_⟩
  have hgo : ¬ ((ReadOp.get size abstime opts).wait = true ∧
      (s.chan h).seqNum = (setMutex .held s.shm).lastSeq) := hwait
  iterate 4
    rw [walk]
    simp [advance, hc.mutex, hlock, moveOn, hcancel, hgo, hbody, out_unrdlock_held dbg hc,
      Ret.afterUnlock]
  rfl

/-- **`ach_flush`.** -/
theorem flush_alone {r : AchStatus} {chan : AchChannel} {shm : AchHeader}
    (hout : out (achFlush (s.chan h)) dbg s.shm = .ok ((r, chan), shm)) :
    ∃ n, Completes dbg s h (.read .flush) n (.flush r) shm chan := by
  have hfree : setMutex .free (setMutex .held s.shm) = s.shm := setMutex_self s.shm hc.mutex
  have hheld : (setMutex .held s.shm).mutex = .held := rfl
  have hlock := out_chanLock dbg hc.mutex hc.dirty
  unfold achFlush at hout
  by_cases hmap : (s.chan h).mapped = false
  · simp [hmap] at hout
  simp only [hmap, if_false, rdlock, out_bind, out_ite, ne_eq, not_true_eq_false, hlock,
    Outcome.bind_ok, rdlockLoop, out_rdlockCheck dbg hheld, hfree] at hout
  have henter : enter s.shm (s.chan h) (.read .flush) = some (.lock .flush) := by simp [enter, hmap]
  by_cases hcancel : (s.chan h).cancel
  · simp only [hcancel, if_true, out_pure, Outcome.bind_ok, reduceCtorEq,
      not_false_eq_true] at hout
    obtain ⟨⟨rfl, rfl⟩, rfl⟩ := hout
    refine ⟨3, completes_of_walk hidle hsig henter ?_⟩
    iterate 3
      rw [walk]
      simp [advance, hc.mutex, hlock, moveOn, hcancel, out_pthreadMutexUnlock_held, hheld, hfree,
        ReadOp.fail]
    rfl
  simp only [hcancel, Bool.false_eq_true, false_and, if_false, out_pure, Outcome.bind_ok,
    not_true_eq_false, flushCritical, out_bind, out_load, out_unrdlock_held dbg hc] at hout
  obtain ⟨⟨rfl, rfl⟩, rfl⟩ := hout
  refine ⟨4, completes_of_walk hidle hsig henter ?_⟩
  iterate 4
    rw [walk]
    simp [advance, hc.mutex, hlock, moveOn, hcancel, ReadOp.wait, flushCritical,
      out_unrdlock_held dbg hc, Ret.afterUnlock]
  rfl

end

end Ach.Sync.Solo
