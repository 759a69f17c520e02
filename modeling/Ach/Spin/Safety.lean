import Ach.Spin.Check
import Ach.Spin.Put
import Mathlib.Data.Fintype.Card

/-! # No assertion of the SPIN model fails

Any number of putters, getters, monitors and `consts` on one channel, with constants that are wide
enough: in no interleaving does an assertion fail, does a condition of the never claim become true,
or is whoever has the mutex stuck. When the mutex is free the globals are the block that as many
calls of `ach_put` leave.

The sections are those of `Ach.Spin.Put`, `Ach.Spin.Get` and `Ach.Spin.Check`; `Outside` lists the
points outside of them. The putters look at the last sequence number before they take the mutex, so
each of them can put one frame more than the loop allows: the ghost value of a process says whether
it is one that has looked and not yet put, and the last number with these is bounded (`Ok`). -/

namespace Ach.Spin.Safety

open Ach.Lib.Interleave
open Ach.Lib.Suffix Ach.Channel.Types Ach.Channel.Create Ach.Channel.Invariant Ach.Channel.PutSpec
open Ach.Channel.History
open Ach.Spin.Model Ach.Spin.Abstract Ach.Spin.Put Ach.Spin.Get Ach.Spin.Check

/-! ### Counting -/

section
variable {ι : Type} [Fintype ι]

/-- How many putters there are. -/
def putters (kind : ι → Kind) : ℕ := (Finset.univ.filter fun i => kind i = .putter).card

/-- How many have looked at the last sequence number and not yet put. -/
def pending (φ : ι → Bool) : ℕ := (Finset.univ.filter fun i => φ i = true).card

theorem pending_le {φ : ι → Bool} {kind : ι → Kind} (h : ∀ i, φ i = true → kind i = .putter) :
    pending φ ≤ putters kind :=
  Finset.card_le_card fun i hi => by simpa using h i (by simpa using hi)

theorem pending_pos {φ : ι → Bool} {i : ι} (h : φ i = true) : 0 < pending φ :=
  Finset.card_pos.mpr ⟨i, by simpa using h⟩

theorem pending_false [DecidableEq ι] {φ : ι → Bool} {i : ι} (h : φ i = true) :
    pending (Function.update φ i false) + 1 = pending φ := by
  have herase : (Finset.univ.filter fun j => Function.update φ i false j = true) =
      (Finset.univ.filter fun j => φ j = true).erase i := by
    ext j
    by_cases hj : j = i <;> simp [hj]
  rw [pending, herase]
  exact Finset.card_erase_add_one (by simpa using h)

theorem pending_none : pending (fun _ : ι => false) = 0 := by simp [pending]

end

/-! ### The points outside of the sections -/

section
variable (c : Consts)

/-- The putter after its section. -/
def putDone : Code := check (fun s => decide (0 < s.1.shmLastSeq)) ++ putter c

/-- The putter before its section. -/
def putLock : Code := lock always ++ ((fillBuf ++ achPut c) ++ (unlock ++ putDone c))

/-- The putter after its choice of a length. -/
def putChosen : Code := check (fun s => decide (s.2.buflen ≤ c.dataSize)) ++ putLock c

theorem putterRound_append : putterRound c ++ putter c =
    .select c.maxMsgSize (fun n s => (s.1, { s.2 with buflen := n + 1 })) (putChosen c) := by
  simp only [putterRound, Prog.append_assoc, Prog.select_append]
  simp only [putChosen, putLock, putDone, Prog.append_assoc]

/-- The getter at its second section. -/
def getSecond : Code := getSection c ++ (unlock ++ print)

/-- The getter before its second section. -/
def getChoose : Code :=
  ifElse always (fun s => s.2.oWait) (lock fun s => decide (s.2.seqNum < s.1.shmLastSeq))
    (lock always) ++ getSecond c

/-- The getter before its first section. -/
def getFirst : Code := lock always ++ (lookAnywhere c ++ (unlock ++ getChoose c))

/-- The getter after its choice of options. -/
def getCopy : Code :=
  .select 2 (fun n s => (s.1, { s.2 with oCopy := decide (n = 1) })) (getFirst c)

def getWait : Code :=
  .select 2 (fun n s => (s.1, { s.2 with oWait := decide (n = 1) })) (getCopy c)

theorem getter_eq : getter c =
    .select 2 (fun n s => (s.1, { s.2 with oLast := decide (n = 1) })) (getWait c) := by
  simp only [getter, Prog.append_assoc, Prog.select_append, Prog.done_append]
  simp only [getWait, getCopy, getFirst, getChoose, getSecond]

/-- The monitor before its section. -/
def monLock : Code := lock always ++ (monitorSection c ++ (unlock ++ .done))

/-- The monitor after its choice of an entry. -/
def monChosen : Code := check (fun s => decide (s.2.j < c.indexCnt)) ++ monLock c

theorem append_done (p : Code) : p ++ .done = p := by
  induction p with
  | done => rfl
  | exec ok f k ih => exact congrArg _ ih
  | await p f k ih => exact congrArg _ ih
  | select n f k ih => exact congrArg _ ih
  | choose ok n g b k _ ih => exact congrArg _ ih
  | loop g b k _ ih => exact congrArg _ ih

theorem monitor_eq : monitor c =
    .select c.indexCnt (fun n s => (s.1, { s.2 with j := n })) (monChosen c) := by
  simp only [monitor, Prog.append_assoc, Prog.select_append, Prog.done_append]
  simp only [monChosen, monLock, append_done]

/-- The locals of a getter that has not begun. -/
def Fresh (l : Locals) : Prop := l.staleFrames = false ∧ l.missedFrame = false ∧ l.readIdx = 0

/-- The buffer and a length that fits. -/
def Filled (l : Locals) : Prop :=
  l.buf.length = c.maxMsgSize ∧ 0 < l.buflen ∧ l.buflen ≤ c.maxMsgSize

/-- **A process outside of its sections**, with its ghost value. -/
inductive Outside (g : Shm) : Kind → Bool → Code → Locals → Prop
  | done (κ : Kind) (l : Locals) : Outside g κ false .done l
  | print (κ : Kind) (l : Locals) : Outside g κ false print l
  | putter {l : Locals} (hb : l.buf.length = c.maxMsgSize) : Outside g .putter false (putter c) l
  | putRound {l : Locals} (hb : l.buf.length = c.maxMsgSize) :
      Outside g .putter true (putterRound c ++ Model.putter c) l
  | putChosen {l : Locals} (hl : Filled c l) : Outside g .putter true (putChosen c) l
  | putLock {l : Locals} (hl : Filled c l) : Outside g .putter true (putLock c) l
  | putDone {l : Locals} (hb : l.buf.length = c.maxMsgSize) (hg : 0 < g.shmLastSeq) :
      Outside g .putter false (putDone c) l
  | getter {l : Locals} (hl : Fresh l) : Outside g .getter false (getter c) l
  | getWait {l : Locals} (hl : Fresh l) : Outside g .getter false (getWait c) l
  | getCopy {l : Locals} (hl : Fresh l) : Outside g .getter false (getCopy c) l
  | getFirst {l : Locals} (hl : Fresh l) : Outside g .getter false (getFirst c) l
  | getChoose {l : Locals} (hl : Looked c g l) : Outside g .getter false (getChoose c) l
  | getNew {l : Locals} (hl : Looked c g l) : Outside g .getter false
      (lock (fun s => decide (s.2.seqNum < s.1.shmLastSeq)) ++ getSecond c) l
  | getNow {l : Locals} (hl : Looked c g l) (hw : l.oWait = false) :
      Outside g .getter false (lock always ++ getSecond c) l
  | monitor (l : Locals) : Outside g .monitor false (monitor c) l
  | monChosen {l : Locals} (hj : l.j < c.indexCnt) : Outside g .monitor false (monChosen c) l
  | monLock {l : Locals} (hj : l.j < c.indexCnt) : Outside g .monitor false (monLock c) l
  | consts (l : Locals) : Outside g .consts false (consts c) l
  | constSize (l : Locals) : Outside g .consts false
      (check fun _ => decide ((c.dataSize : ℤ) < 2 ^ c.sizeBits - 1)) l

end

variable {c : Consts} {g g' g₀ : Shm} {κ : Kind} {f : Bool} {p : Code} {l : Locals} {n : ℕ}

theorem looked_mono (h : Looked c g l) (hv : View c g g') : Looked c g' l :=
  ⟨h.stale, h.missed, h.read, h.next, h.seqNum.trans hv.lastSeq, h.place⟩

/-- The others do not disturb. -/
theorem Outside.mono (h : Outside c g κ f p l) (hv : View c g g') : Outside c g' κ f p l := by
  cases h with
  | done κ l => exact .done κ l
  | print κ l => exact .print κ l
  | putter hb => exact .putter hb
  | putRound hb => exact .putRound hb
  | putChosen hl => exact .putChosen hl
  | putLock hl => exact .putLock hl
  | putDone hb hg => exact .putDone hb (hg.trans_le hv.lastSeq)
  | getter hl => exact .getter hl
  | getWait hl => exact .getWait hl
  | getCopy hl => exact .getCopy hl
  | getFirst hl => exact .getFirst hl
  | getChoose hl => exact .getChoose (looked_mono hl hv)
  | getNew hl => exact .getNew (looked_mono hl hv)
  | getNow hl hw => exact .getNow (looked_mono hl hv) hw
  | monitor l => exact .monitor l
  | monChosen hj => exact .monChosen hj
  | monLock hj => exact .monLock hj
  | consts l => exact .consts l
  | constSize l => exact .constSize l

theorem fails_check {ok : State → Bool} {s : State} (h : ok s = true) :
    (check ok ++ p).fails s = false := by
  show (!ok s) = false
  rw [h]
  rfl

/-- The assertions outside hold. -/
theorem Outside.safe (hw : Wide c n) (h : Outside c g κ f p l) (hv : View c g g') :
    p.fails (g', l) = false := by
  have hbits : ∀ m : ℕ, m + 1 < 2 ^ c.sizeBits → (m : ℤ) < 2 ^ c.sizeBits - 1 := fun m hm => by
    zify at hm
    omega
  cases h with
  | putRound hb => rw [putterRound_append]; rfl
  | getter hl => rw [getter_eq]; rfl
  | monitor l => rw [monitor_eq]; rfl
  | putChosen hl => exact fails_check (decide_eq_true (hl.2.2.trans hw.msg))
  | putDone hb hg => exact fails_check (decide_eq_true (hg.trans_le hv.lastSeq))
  | monChosen hj => exact fails_check (decide_eq_true hj)
  | consts l => exact fails_check (decide_eq_true (hbits _ hw.cntBits))
  | constSize l => exact fails_check (p := .done) (decide_eq_true (hbits _ hw.sizeBits))
  | _ => rfl

/-! ### The invariant -/

section
variable {ι : Type} [Fintype ι] {kind : ι → Kind} {φ : ι → Bool}

/-- **The invariant when the mutex is free.** -/
structure Ok (c : Consts) (kind : ι → Kind) (φ : ι → Bool) (g : Shm) : Prop where
  free : g.shmMutex = false
  chan : ∃ hist k, Chan c hist k g ∧ g.shmLastSeq = hist.length
  putter : ∀ i, φ i = true → kind i = .putter
  count : g.shmLastSeq + pending φ ≤ c.nMsgs + putters kind - 1

/-- The numbers fit. -/
theorem Ok.small (hw : Wide c (putters kind)) (h : Ok c kind φ g) :
    g.shmLastSeq + pending φ < 2 ^ c.seqNumBits ∧ g.shmLastSeq + pending φ < 256 := by
  have hcount := h.count
  have hseq := hw.seqBits
  have hbyte := hw.seqByte
  have hpos : 0 < 2 ^ c.seqNumBits := Nat.two_pow_pos _
  exact ⟨by omega, by omega⟩

theorem Ok.view (hw : Wide c n) (h : Ok c kind φ g) : View c g g := by
  obtain ⟨hist, k, hchan, -⟩ := h.chan
  have hrep := hchan.inv.toRep
  have hif : g.shmIdxFree = c.indexCnt - k := hrep.indexFree
  have hih : g.shmIdxHead = hist.length % c.indexCnt := hrep.indexHead
  have hdh : g.shmDataHead = hist.flatten.length % c.dataSize := hrep.dataHead
  have hdf : g.shmDataFree + hist.flatten.length =
      c.dataSize + startOf hist (hist.length - k) := hrep.dataFree
  have hle := startOf_le hist (hist.length - k)
  have h1 := Nat.mod_lt hist.length hw.cnt
  have h2 := Nat.mod_lt hist.flatten.length hw.size
  exact ⟨by omega, by omega, by omega, by omega, le_rfl⟩

variable [DecidableEq ι]

/-- What a process promises of its section. -/
abbrev Sec (c : Consts) (kind : ι → Kind) (i : ι) (f : Bool) (g : Shm) : Code → State → Prop :=
  Section Shm.shmMutex (Ok c kind) (fun i f p l g => Outside c g (kind i) f p l) (View c) i f g

variable {i : ι}

/-- A section that is left in good order. -/
theorem sec_unlock (f' : Bool) (hs : Inside c g₀ (g, l))
    (hok : ∀ φ, φ i = f → Ok c kind φ g₀ →
      Ok c kind (Function.update φ i f') { g with shmMutex := false })
    (hout : Outside c { g with shmMutex := false } (kind i) f' p l) :
    Sec c kind i f g₀ (unlock ++ p) (g, l) := by
  have hmutex : g.shmMutex = true := hs.1
  obtain ⟨h1, h2, h3, h4, h5⟩ := hs.2
  refine .go hs ?_ ?_ fun x hx => ?_
  · show (!g.shmMutex) = false
    rw [hmutex]
    rfl
  · simp [unlock, Prog.next, hmutex]
  · obtain rfl : x = (p, { g with shmMutex := false }, l) := by
      simpa [unlock, Prog.next, hmutex] using hx
    exact .leave (fun h => by simp at h) ⟨f', hok, hout, h1, h2, h3, h4, h5⟩

/-- A section that only looked. -/
theorem sec_looked (hfree : g₀.shmMutex = false)
    (hs : Inside c g₀ ({ g₀ with shmMutex := true }, l)) (hout : Outside c g₀ (kind i) f p l) :
    Sec c kind i f g₀ (unlock ++ p) ({ g₀ with shmMutex := true }, l) := by
  have hback : ({ ({ g₀ with shmMutex := true } : Shm) with shmMutex := false } : Shm) = g₀ := by
    rw [← hfree]
  refine sec_unlock f hs (fun φ hφ hok => ?_) ?_
  · rw [hback, ← hφ, Function.update_eq_self]
    exact hok
  · rw [hback]
    exact hout

/-! ### The sections -/

theorem inside_locked (hv : View c g g) : Inside c g ({ g with shmMutex := true }, l) :=
  ⟨rfl, hv.1, hv.2, hv.3, hv.4, hv.5⟩

omit [DecidableEq ι] in
theorem Ok.locked (h : Ok c kind φ g) :
    ∃ hist k, Chan c hist k { g with shmMutex := true } ∧ g.shmLastSeq = hist.length := by
  obtain ⟨hist, k, ⟨h1, h2, h3, h4⟩, hlast⟩ := h.chan
  exact ⟨hist, k, ⟨h1, h2, h3, h4⟩, hlast⟩

theorem sec_put (hw : Wide c (putters kind)) (hok : Ok c kind φ g) (hi : φ i = true)
    (hl : Filled c l) : Sec c kind i true g ((fillBuf ++ achPut c) ++ (unlock ++ putDone c))
      ({ g with shmMutex := true }, l) := by
  obtain ⟨hist, k, hchan, hlast⟩ := hok.chan
  obtain ⟨hseq, hbyte⟩ := hok.small hw
  obtain ⟨hbuf, hpos, hmax⟩ := hl
  have hpend := pending_pos hi
  refine wp_putSection (R := Sec c kind i true g (unlock ++ putDone c)) hw hchan
    (inside_locked (hok.view hw)) hpos hmax hbuf (by omega) (by omega)
    (fun g' k' m buf j hchan' hin hnum hbuf' => ?_) _ fun t ht => ht
  refine sec_unlock false hin (fun ψ hψ hok' => ⟨rfl, ?_, fun j hj => ?_, ?_⟩) ?_
  · obtain ⟨h1, h2, h3, h4⟩ := hchan'
    exact ⟨_, k', ⟨h1, h2, h3, h4⟩, by simp only [hnum, List.length_append, hlast]; rfl⟩
  · by_cases hji : j = i
    · subst hji
      exact hok.putter j hi
    · rw [Function.update_of_ne hji] at hj
      exact hok'.putter j hj
  · have hcount := hok'.count
    have hdown := pending_false hψ
    simp only [hnum]
    omega
  · rw [hok.putter i hi]
    exact .putDone hbuf' (by simp only [hnum]; omega)

theorem sec_getFirst (hw : Wide c (putters kind)) (hok : Ok c kind φ g) (hi : kind i = .getter)
    (hl : Fresh l) : Sec c kind i false g (lookAnywhere c ++ (unlock ++ getChoose c))
      ({ g with shmMutex := true }, l) := by
  obtain ⟨hist, k, hchan, hlast⟩ := hok.chan
  obtain ⟨hseq, hbyte⟩ := hok.small hw
  have hin : ∀ l, Inside c g ({ g with shmMutex := true }, l) := fun l =>
    inside_locked (hok.view hw)
  refine wp_lookAnywhere (R := Sec c kind i false g (unlock ++ getChoose c)) hw hchan (hin l)
    (by omega) (by omega) hl (fun next seq hlooked => ?_) _ fun t ht => ht
  refine sec_looked hok.free (hin _) ?_
  rw [hi]
  exact .getChoose hlooked

theorem sec_getSecond (hw : Wide c (putters kind)) (hok : Ok c kind φ g)
    (hl : Looked c g l) (hwait : l.oWait = true → l.seqNum < g.shmLastSeq) :
    Sec c kind i false g (getSecond c) ({ g with shmMutex := true }, l) := by
  obtain ⟨hist, k, hchan, hlast⟩ := hok.locked
  obtain ⟨-, hbyte⟩ := hok.small hw
  have hin : ∀ l, Inside c g ({ g with shmMutex := true }, l) := fun l =>
    inside_locked (hok.view hw)
  refine wp_getSection (R := Sec c kind i false g (unlock ++ print)) hw hchan hin (by omega)
    ⟨hl.stale, hl.missed, hl.read, hl.next, hl.seqNum, hl.place⟩ hwait (fun l' => ?_) _
    fun t ht => ht
  exact sec_looked hok.free (hin l') (.print _ _)

theorem sec_monitor (hw : Wide c (putters kind)) (hok : Ok c kind φ g) (hj : l.j < c.indexCnt) :
    Sec c kind i false g (monitorSection c ++ (unlock ++ Prog.done))
      ({ g with shmMutex := true }, l) := by
  obtain ⟨hist, k, hchan, hlast⟩ := hok.locked
  obtain ⟨-, hbyte⟩ := hok.small hw
  have hin := inside_locked (l := l) (hok.view hw)
  refine wp_monitorSection (R := Sec c kind i false g (unlock ++ Prog.done)) hchan hin (by omega)
    hw.cnt hj ?_ _ fun t ht => ht
  exact sec_looked hok.free hin (.done _ _)

/-! ### The steps -/

theorem mem_lock {cond : State → Bool} {x : Code × State}
    (hx : x ∈ (lock cond ++ p).next (g, l)) :
    g.shmMutex = false ∧ cond (g, l) = true ∧ x = (p, { g with shmMutex := true }, l) := by
  have hnext : (lock cond ++ p).next (g, l) = if !g.shmMutex && cond (g, l) then
      [(p, { g with shmMutex := true }, l)] else [] := rfl
  rw [hnext] at hx
  split at hx
  · rename_i hc
    simp only [Bool.and_eq_true, Bool.not_eq_true'] at hc
    exact ⟨hc.1, hc.2, List.mem_singleton.mp hx⟩
  · simp at hx

theorem next_lock {cond : State → Bool} (hfree : g.shmMutex = false) (hc : cond (g, l) = true) :
    (lock cond ++ p).next (g, l) ≠ [] := by
  have hnext : (lock cond ++ p).next (g, l) = if !g.shmMutex && cond (g, l) then
      [(p, { g with shmMutex := true }, l)] else [] := rfl
  rw [hnext, hfree, hc]
  exact List.cons_ne_nil _ _

theorem mem_check {ok : State → Bool} {s : State} {x : Code × State}
    (hx : x ∈ (check ok ++ p).next s) : x = (p, s) := by
  have hnext : (check ok ++ p).next s = if ok s then [(p, s)] else [] := rfl
  rw [hnext] at hx
  split at hx
  · exact List.mem_singleton.mp hx
  · simp at hx

theorem next_check {ok : State → Bool} {s : State} (hf : (check ok ++ p).fails s = false) :
    (check ok ++ p).next s ≠ [] := by
  have hok : (!ok s) = false := hf
  have hnext : (check ok ++ p).next s = if ok s then [(p, s)] else [] := rfl
  rw [hnext, if_pos (by simpa using hok)]
  exact List.cons_ne_nil _ _

theorem mem_ifElse {gd : State → Bool} {a b : Code} {s : State} {x : Code × State}
    (hx : x ∈ (ifElse always gd a b ++ p).next s) :
    (gd s = true ∧ x = (a ++ p, s)) ∨ (gd s = false ∧ x = (b ++ p, s)) := by
  obtain ⟨j, hj, rfl⟩ : ∃ j : Fin 2, (![gd, fun s => !gd s] : Fin 2 → State → Bool) j s = true ∧
      ((![a, b] : Fin 2 → Code) j ++ p, s) = x := by
    simpa [ifElse, Prog.next, always] using hx
  obtain rfl | rfl := two_cases j
  · exact .inl ⟨hj, rfl⟩
  · have hnot : (!gd s) = true := hj
    exact .inr ⟨by simpa using hnot, rfl⟩

theorem next_ifElse {gd : State → Bool} {a b : Code} {s : State} :
    (ifElse always gd a b ++ p).next s ≠ [] := by
  have hex : ∃ j : Fin 2, (![gd, fun s => !gd s] : Fin 2 → State → Bool) j s = true := by
    cases hg : gd s with
    | true => exact ⟨0, hg⟩
    | false =>
      have hnot : (!gd s) = true := by rw [hg]; rfl
      exact ⟨1, hnot⟩
  obtain ⟨j, hj⟩ := hex
  simp only [ifElse, Prog.choose_append, Prog.next, always, if_true, ne_eq, List.map_eq_nil_iff,
    List.filter_eq_nil_iff, not_forall]
  exact ⟨j, List.mem_finRange j, by rw [hj]; simp⟩

theorem mem_select {m : ℕ} {upd : ℕ → State → State} {s : State} {x : Code × State}
    (hx : x ∈ (Prog.select m upd p).next s) : ∃ j < m, x = (p, upd j s) := by
  obtain ⟨j, hj, rfl⟩ : ∃ j < m, (p, upd j s) = x := by simpa [Prog.next] using hx
  exact ⟨j, hj, rfl⟩

theorem next_select {m : ℕ} {upd : ℕ → State → State} {s : State} (hm : 0 < m) :
    (Prog.select m upd p).next s ≠ [] := by
  simp only [Prog.next, ne_eq, List.map_eq_nil_iff, List.range_eq_nil]
  omega

/-- What comes of a step outside. -/
def Moves (c : Consts) (kind : ι → Kind) (φ : ι → Bool) (i : ι) (g g' : Shm) (x : Code × State) :
    Prop :=
  (x.2.1 = g' ∧ ∃ f, Ok c kind (Function.update φ i f) g ∧ Outside c g (kind i) f x.1 x.2.2) ∨
    (g'.shmMutex = false ∧ Sec c kind i (φ i) g x.1 x.2)

/-- A step that does not touch the globals. -/
theorem Moves.local {x : Code × State} (hok : Ok c kind φ g) (hg : x.2.1 = g')
    (ho : Outside c g (kind i) (φ i) x.1 x.2.2) : Moves c kind φ i g g' x :=
  .inl ⟨hg, φ i, by rw [Function.update_eq_self]; exact hok, ho⟩

/-- A step that takes the mutex. -/
theorem Moves.take {cond : State → Bool} {x : Code × State}
    (hx : x ∈ (lock cond ++ p).next (g', l)) (hsame : g'.shmMutex = false → g' = g)
    (hsec : cond (g, l) = true → Sec c kind i (φ i) g p ({ g with shmMutex := true }, l)) :
    Moves c kind φ i g g' x := by
  obtain ⟨hfree, hcond, rfl⟩ := mem_lock hx
  obtain rfl := hsame hfree
  exact .inr ⟨hfree, hsec hcond⟩

/-- The putter has looked at the last number. -/
theorem Ok.look (hok : Ok c kind φ g) (hv : View c g g') (hi : kind i = .putter)
    (hlt : g'.shmLastSeq < c.nMsgs) :
    Ok c kind (Function.update φ i true) g := by
  have hput : ∀ j, Function.update φ i true j = true → kind j = .putter := fun j hj => by
    by_cases hji : j = i
    · rw [hji, hi]
    · rw [Function.update_of_ne hji] at hj
      exact hok.putter j hj
  have hle := pending_le hput
  have hpos := pending_pos (show Function.update φ i true i = true from Function.update_self ..)
  have hlast := hv.lastSeq
  exact ⟨hok.free, hok.chan, hput, by omega⟩

/-- **Every step outside of the sections is in good order.** -/
theorem Outside.step (hw : Wide c (putters kind)) (hok : Ok c kind φ g)
    (h : Outside c g (kind i) (φ i) p l) (hv : View c g g')
    (hsame : g'.shmMutex = false → g' = g) {x : Code × State} (hx : x ∈ p.next (g', l)) :
    Moves c kind φ i g g' x := by
  generalize hκ : kind i = κ at h
  generalize hf : φ i = f at h
  have hloc : ∀ {q : Code} {l' : Locals}, x = (q, g', l') → Outside c g κ f q l' →
      Moves c kind φ i g g' x := fun hxq ho => by
    subst hxq
    exact .local hok rfl (by rw [hκ, hf]; exact ho)
  cases h with
  | done κ l => simp [Prog.next] at hx
  | print κ l => exact hloc (List.mem_singleton.mp hx) (.done κ l)
  | putter hb =>
    have hnext : (Model.putter c).next (g', l) = if decide (g'.shmLastSeq < c.nMsgs) then
        [(putterRound c ++ Model.putter c, g', l)] else [(Model.print, g', l)] := rfl
    rw [hnext] at hx
    split at hx
    · rename_i hlt
      obtain rfl := List.mem_singleton.mp hx
      refine .inl ⟨rfl, true, hok.look hv hκ (of_decide_eq_true hlt), ?_⟩
      rw [hκ]
      exact .putRound hb
    · exact hloc (List.mem_singleton.mp hx) (.print _ _)
  | putRound hb =>
    rw [putterRound_append] at hx
    obtain ⟨j, hj, rfl⟩ := mem_select hx
    exact hloc rfl (.putChosen ⟨hb, Nat.succ_pos j, hj⟩)
  | putChosen hl => exact hloc (mem_check hx) (.putLock hl)
  | putLock hl => exact .take hx hsame fun _ => by rw [hf]; exact sec_put hw hok hf hl
  | putDone hb hg => exact hloc (mem_check hx) (.putter hb)
  | getter hl =>
    rw [getter_eq] at hx
    obtain ⟨j, -, rfl⟩ := mem_select hx
    exact hloc rfl (.getWait hl)
  | getWait hl =>
    obtain ⟨j, -, rfl⟩ := mem_select hx
    exact hloc rfl (.getCopy hl)
  | getCopy hl =>
    obtain ⟨j, -, rfl⟩ := mem_select hx
    exact hloc rfl (.getFirst hl)
  | getFirst hl => exact .take hx hsame fun _ => by rw [hf]; exact sec_getFirst hw hok hκ hl
  | getChoose hl =>
    rcases mem_ifElse hx with ⟨-, hxq⟩ | ⟨hnw, hxq⟩
    · exact hloc hxq (.getNew hl)
    · exact hloc hxq (.getNow hl hnw)
  | getNew hl =>
    refine .take hx hsame fun hnew => ?_
    rw [hf]
    exact sec_getSecond hw hok hl fun _ => of_decide_eq_true hnew
  | getNow hl hnw =>
    refine .take hx hsame fun _ => ?_
    rw [hf]
    exact sec_getSecond hw hok hl fun hwt => by simp [hnw] at hwt
  | monitor l =>
    rw [monitor_eq] at hx
    obtain ⟨j, hj, rfl⟩ := mem_select hx
    exact hloc rfl (.monChosen hj)
  | monChosen hj => exact hloc (mem_check hx) (.monLock hj)
  | monLock hj => exact .take hx hsame fun _ => by rw [hf]; exact sec_monitor hw hok hj
  | consts l => exact hloc (mem_check hx) (.constSize l)
  | constSize l => exact hloc (mem_check (p := .done) hx) (.done _ l)

/-! ### Every interleaving -/

/-- **The discipline of the model.** -/
def discipline (hw : Wide c (putters kind)) : Discipline ι Shm Locals Bool where
  mutex := Shm.shmMutex
  Inv := Ok c kind
  Out i f p l g := Outside c g (kind i) f p l
  View := View c
  free := Ok.free
  refl := Ok.view hw
  mono := Outside.mono
  safe := Outside.safe hw
  step hok h hv hsame hx := h.step hw hok hv hsame hx

omit [DecidableEq ι] in
/-- The channel at the beginning. -/
theorem ok_init (hw : Wide c (putters kind)) : Ok c kind (fun _ => false) (initShm c) := by
  have hsmall := hw.small
  have hcnt : trunc c.sizeBits c.indexCnt = c.indexCnt :=
    trunc_eq rfl (by have := hw.cntBits; omega)
  have hsize : trunc c.sizeBits c.dataSize = c.dataSize :=
    trunc_eq rfl (by have := hw.sizeBits; omega)
  have hinv : Inv [] 0 (header c (initShm c)) := by
    refine ⟨⟨?_, ?_, by simp, le_rfl, Nat.zero_le _, rfl, by simp [header, initShm], hcnt,
      by simp [header, initShm], by simp [header, initShm, hsize, startOf],
      by simp [header, initShm], ?_, by simp [header, initShm], ?_⟩, fun h => absurd rfl h, ?_⟩
    · have := hw.cntByte
      show c.indexCnt < 2 ^ 63
      omega
    · show c.dataSize < 2 ^ 63
      omega
    · refine ⟨le_rfl, fun p _ hp => ?_⟩
      have hlen : (header c (initShm c)).index.length = c.indexCnt := by simp [header, initShm]
      rw [hlen] at hp ⊢
      have hlt := Nat.mod_lt p hw.cnt
      simp [header, initShm, slotOf, hlt, absIndex, Index.zero, AchIndex.zero]
    · exact ⟨by simp, fun p _ hp => absurd hp (by simp)⟩
    · exact Longest.nil ⟨by simp, by simp⟩
  have hused : UsedOk (initShm c) := fun e he => by
    rw [List.eq_of_mem_replicate (show e ∈ List.replicate c.indexCnt .zero from he)]
    rfl
  refine ⟨rfl, ⟨[], 0, ⟨hinv, hused, fun s hs => absurd hs (by simp), [], ?_, rfl⟩, rfl⟩, ?_, ?_⟩
  · rfl
  · simp
  · rw [pending_none]
    exact Nat.zero_le _

theorem ordered_init (hw : Wide c (putters kind)) : (discipline hw).Ordered none (init c kind) := by
  refine .free (fun _ => false) ⟨ok_init hw, fun i => ?_⟩
  show Outside c (initShm c) (kind i) false ((kind i).code c) (initLocals c)
  cases kind i with
  | putter => exact .putter (List.length_replicate ..)
  | getter => exact .getter ⟨rfl, rfl, rfl⟩
  | monitor => exact .monitor _
  | consts => exact .consts _

/-- The steps from the beginning stay in good order. -/
theorem ordered (hw : Wide c (putters kind)) {o : Option ι} {s : Sys ι Shm Locals}
    (hs : Runs Shm.shmMutex (init c kind) o s) : (discipline hw).Ordered o s :=
  (ordered_init hw).runs hs

/-- In good order with the mutex free. -/
theorem free_of_ordered {hw : Wide c (putters kind)} {o : Option ι} {s : Sys ι Shm Locals}
    (h : (discipline hw).Ordered o s) (hfree : s.shm.shmMutex = false) :
    ∃ φ, (discipline hw).Free φ s := by
  cases h with
  | free φ h => exact ⟨φ, h⟩
  | held φ i g h =>
    have hheld : s.shm.shmMutex = true := h.held
    simp [hfree] at hheld

omit [DecidableEq ι] in
/-- A process outside that cannot go on has ended, or waits for a frame after the last one. -/
theorem Outside.stuck (hw : Wide c n) (hmsg : 0 < c.maxMsgSize) (h : Outside c g κ f p l)
    (hok : Ok c kind φ g) (hn : p.next (g, l) = []) :
    p = .done ∨ (κ = .getter ∧ l.seqNum = g.shmLastSeq ∧
      p = lock (fun s => decide (s.2.seqNum < s.1.shmLastSeq)) ++ getSecond c) := by
  have hsafe := h.safe hw (hok.view hw)
  cases h with
  | done κ l => exact .inl rfl
  | print κ l => exact absurd hn (List.cons_ne_nil _ _)
  | putter hb =>
    have hnext : (Model.putter c).next (g, l) = if decide (g.shmLastSeq < c.nMsgs) then
        [(putterRound c ++ Model.putter c, g, l)] else [(Model.print, g, l)] := rfl
    rw [hnext] at hn
    split at hn <;> simp at hn
  | putRound hb =>
    rw [putterRound_append] at hn
    exact absurd hn (next_select hmsg)
  | putChosen hl => exact absurd hn (next_check hsafe)
  | putLock hl => exact absurd hn (next_lock hok.free rfl)
  | putDone hb hg => exact absurd hn (next_check hsafe)
  | getter hl =>
    rw [getter_eq] at hn
    exact absurd hn (next_select Nat.two_pos)
  | getWait hl => exact absurd hn (next_select Nat.two_pos)
  | getCopy hl => exact absurd hn (next_select Nat.two_pos)
  | getFirst hl => exact absurd hn (next_lock hok.free rfl)
  | getChoose hl => exact absurd hn next_ifElse
  | getNew hl =>
    have hseq := hl.seqNum
    have hge : ¬ l.seqNum < g.shmLastSeq := fun hlt => next_lock hok.free (decide_eq_true hlt) hn
    exact .inr ⟨rfl, by omega, rfl⟩
  | getNow hl hnw => exact absurd hn (next_lock hok.free rfl)
  | monitor l =>
    rw [monitor_eq] at hn
    exact absurd hn (next_select hw.cnt)
  | monChosen hj => exact absurd hn (next_check hsafe)
  | monLock hj => exact absurd hn (next_lock hok.free rfl)
  | consts l => exact absurd hn (next_check hsafe)
  | constSize l => exact absurd hn (next_check (p := .done) hsafe)

end

/-! ### What holds of the model -/

/-- **No assertion fails** and no condition of the never claim becomes true, in any interleaving of
any number of processes. The process that has set the mutex can go on, and until it clears it no
other one changes the globals. -/
theorem spin_safe {ι : Type} [Fintype ι] [DecidableEq ι] {c : Consts} {kind : ι → Kind}
    (hw : Wide c (putters kind)) {o : Option ι} {s : Sys ι Shm Locals}
    (hs : Runs Shm.shmMutex (init c kind) o s) :
    ¬ s.Fails ∧ ¬ NeverClaim c s.shm ∧ (s.shm.shmMutex = true → ∃ i, o = some i ∧
      (s.prog i).next (s.shm, s.loc i) ≠ [] ∧
      ∀ j, j ≠ i → ∀ x ∈ (s.prog j).next (s.shm, s.loc j), x.2.1 = s.shm) := by
  have ho := ordered hw hs
  obtain ⟨hfails, φ, g, -, hview⟩ := ho.safe
  refine ⟨hfails, View.not_neverClaim hview, fun hm => ?_⟩
  obtain ⟨i, rfl⟩ := ho.holder hm
  exact ⟨i, rfl, ho.progress, fun j hj x hx => ho.alone hj hx⟩

/-- The processes of the file's `init`. -/
def sourceKind : Fin 3 → Kind
  | 0 => .putter
  | 1 => .putter
  | 2 => .getter

/-- Both putters look at the last number, and then one of them puts. -/
def sampleRun : Sys (Fin 3) Shm Locals :=
  (init Consts.source sourceKind).go
    (List.replicate 3 (0, 0) ++ List.replicate 3 (1, 0) ++ List.replicate 28 (0, 0))

/-- Both have looked, and one is in its section. -/
def sampleHeld : Sys (Fin 3) Shm Locals :=
  (init Consts.source sourceKind).go
    (List.replicate 3 (0, 0) ++ List.replicate 3 (1, 0) ++ List.replicate 20 (0, 0))

theorem spin_safe_sample : ¬ sampleHeld.Fails ∧ ¬ NeverClaim Consts.source sampleHeld.shm ∧
    ∃ i, Runs Shm.shmMutex (init Consts.source sourceKind) (some i) sampleHeld ∧
      (sampleHeld.prog i).next (sampleHeld.shm, sampleHeld.loc i) ≠ [] ∧
      ∀ j, j ≠ i → ∀ x ∈ (sampleHeld.prog j).next (sampleHeld.shm, sampleHeld.loc j),
        x.2.1 = sampleHeld.shm := by
  obtain ⟨o, hs⟩ : ∃ o, Runs Shm.shmMutex (init Consts.source sourceKind) o sampleHeld :=
    (steps_go _ _).runs _
  obtain ⟨hfails, hclaim, hheld⟩ := spin_safe (c := Consts.source) (by decide) hs
  obtain ⟨i, rfl, hgo⟩ := hheld (by decide +kernel)
  exact ⟨hfails, hclaim, i, hs, hgo⟩

/-- **When the mutex is free** the globals are the block of an empty channel after successful calls
of `ach_put`, as many as the last sequence number says, with frames that begin with their numbers.
-/
theorem spin_refines {ι : Type} [Fintype ι] [DecidableEq ι] {c : Consts} {kind : ι → Kind}
    (hw : Wide c (putters kind)) {s : Sys ι Shm Locals} (hs : Steps (init c kind) s)
    (hfree : s.shm.shmMutex = false) :
    ∃ hist, PutBy c hist s.shm ∧ Stamped hist ∧ hist.length = s.shm.shmLastSeq := by
  obtain ⟨o, hruns⟩ := hs.runs Shm.shmMutex
  obtain ⟨φ, hf⟩ := free_of_ordered (ordered hw hruns) hfree
  obtain ⟨hist, k, hchan, hlast⟩ := Ok.chan hf.inv
  exact ⟨hist, hchan.puts, hchan.stamped, hlast.symm⟩

theorem spin_refines_sample : ∃ hist, PutBy Consts.source hist sampleRun.shm ∧ Stamped hist ∧
    hist.length = sampleRun.shm.shmLastSeq :=
  spin_refines (c := Consts.source) (by decide) (steps_go _ _) (by decide +kernel)

/-- **Where nothing can go on** every process has ended, but for getters that wait for a frame after
the last one. -/
theorem spin_ends {ι : Type} [Fintype ι] [DecidableEq ι] {c : Consts} {kind : ι → Kind}
    (hw : Wide c (putters kind)) (hmsg : 0 < c.maxMsgSize) {s : Sys ι Shm Locals}
    (hs : Steps (init c kind) s) (hend : ∀ s', ¬ Step s s') (i : ι) :
    s.prog i = .done ∨ (kind i = .getter ∧ (s.loc i).seqNum = s.shm.shmLastSeq ∧
      s.prog i = lock (fun s => decide (s.2.seqNum < s.1.shmLastSeq)) ++ getSecond c) := by
  obtain ⟨o, hruns⟩ := hs.runs Shm.shmMutex
  have ho := ordered hw hruns
  have hfree : s.shm.shmMutex = false := by
    by_contra hm
    obtain ⟨j, rfl⟩ := ho.holder (show s.shm.shmMutex = true by simpa using hm)
    obtain ⟨x, hx⟩ := List.exists_mem_of_ne_nil _ ho.progress
    exact hend _ (.mk j hx)
  obtain ⟨φ, hf⟩ := free_of_ordered ho hfree
  refine (show Outside c s.shm (kind i) (φ i) (s.prog i) (s.loc i) from hf.out i).stuck hw hmsg
    hf.inv ?_
  rw [List.eq_nil_iff_forall_not_mem]
  exact fun x hx => hend _ (.mk i hx)

/-- One putter puts all frames, the other finds nothing to do, and the getter looks at the newest
frame and waits. -/
def waitingRun : Sys (Fin 3) Shm Locals :=
  (init Consts.source sourceKind).go (List.replicate 215 (0, 0) ++ List.replicate 2 (1, 0) ++
    [(2, 0), (2, 1)] ++ List.replicate 6 (2, 0))

theorem spin_ends_sample : waitingRun.shm.shmLastSeq = 6 ∧ ∀ i, waitingRun.prog i = .done ∨
    (sourceKind i = .getter ∧ (waitingRun.loc i).seqNum = waitingRun.shm.shmLastSeq ∧
      waitingRun.prog i =
        lock (fun s => decide (s.2.seqNum < s.1.shmLastSeq)) ++ getSecond Consts.source) :=
  ⟨by decide +kernel, spin_ends (c := Consts.source) (by decide) (by decide) (steps_go _ _)
    (not_step fun i => List.length_eq_zero_iff.mp
      ((by decide +kernel : ∀ i, ((waitingRun.prog i).next
        (waitingRun.shm, waitingRun.loc i)).length = 0) i))⟩

end Ach.Spin.Safety
