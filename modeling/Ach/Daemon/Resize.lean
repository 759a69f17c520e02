import Ach.Channel.Answer
import Ach.Daemon.Push

/-! # The loops that enlarge their buffer

`get_frame` of `achd` and `worker` of `achlog` take frames in the same way: a get that waits; if the
buffer is too small a new one of the size reported, and the get again; else the size into the
header. Between two gets and while a get waits the other handles put what they want, so the frame
that did not fit may be gone at the next get and a larger one may be in its place.

Each time the buffer grows, and never beyond the size of the data array, which bounds the number of
gets that fail (`Midway`). The header is rebuilt with every new buffer, so a frame that is taken is
staged whole (`take_loops_stage_frames`).

This needs a handle that remembers a slot of the index array, or `ACH_O_LAST`. A handle that was
opened and not flushed on a channel with one index entry remembers slot 1, and its first get reads
there (`worker_one_slot_faults`). -/

namespace Ach.Daemon.Resize

open Ach.Lib.Run
open Ach.Channel.Types Ach.Channel.Lock Ach.Channel.Put Ach.Channel.Get Ach.Channel.Create
open Ach.Channel.Invariant Ach.Channel.PutSpec Ach.Channel.GetSpec Ach.Channel.Runs
open Ach.Channel.History Ach.Channel.Reach Ach.Channel.Answer
open Ach.Daemon.Pipe Ach.Daemon.Push

variable {H : Type} [DecidableEq H] {dbg : Bool} {fresh : ℕ → ℕ → UInt8}

/-! ### The two loops -/

/-- The options of both loops: `ACH_O_WAIT`, and maybe `ACH_O_LAST`. -/
def takeOpts (last : Bool) : AchGetOpts := ⟨true, last, false⟩

/-- What `worker` of `achlog` keeps: the frame buffer and its size, what it has written to the log
after the header, and whether it is to end. -/
structure WorkerSt where
  frame : PipeFrame
  max : ℕ
  fout : List UInt8
  canceled : Bool

/-- One pass of the loop of `worker`; `accepted` is what `fwrite` returns. The bytes the get stores
are in the buffer before the result is looked at. -/
def worker (fresh : ℕ → ℕ → UInt8) (st : WorkerSt) (res : GetResult) (accepted : ℕ) : WorkerSt :=
  let frameSize := res.frameSize.getD 0
  let frame := st.frame.storeData res.bytes
  match res.status with
  | .overflow => { st with frame := achPipeAlloc fresh frameSize, max := frameSize }
  | .missedFrame | .ok =>
    let frame := achPipeSetSize frame frameSize
    { st with
      frame := frame
      fout := st.fout ++ (frame.memory frameSize).take accepted
      canceled := decide (accepted ≠ 16 + frameSize) }
  | .canceled => { st with frame := frame, canceled := true }
  | _ => { st with frame := frame, canceled := true }

/-- **A loop that takes frames**: where its buffer is, and what a pass does with what `ach_get`
gives. What it does with the buffer is what `get_frame` does. -/
structure TakeLoop (fresh : ℕ → ℕ → UInt8) (B : Type) where
  buf : B → AchdConn
  next : B → GetResult → B → Prop
  buf_next : ∀ {b res c}, next b res c → buf c = (getFrame fresh (buf b) res).1

/-- The loop of `get_frame`, which ends when a frame has been taken. -/
def getFrameLoop (fresh : ℕ → ℕ → UInt8) : TakeLoop fresh (AchdConn × Bool) where
  buf := Prod.fst
  next b res c := b.2 = false ∧ c = getFrame fresh b.1 res
  buf_next := by
    rintro b res c ⟨-, rfl⟩
    rfl

/-- The loop of `worker`, which goes on until it is to end. -/
def workerLoop (fresh : ℕ → ℕ → UInt8) : TakeLoop fresh WorkerSt where
  buf st := ⟨st.frame, st.max⟩
  next st res st' := st.canceled = false ∧ ∃ accepted ≤ 16 + res.frameSize.getD 0,
    st' = worker fresh st res accepted
  buf_next := by
    rintro st res st' ⟨-, accepted, -, rfl⟩
    unfold worker getFrame
    cases res.status <;> rfl

/-! ### Runs -/

/-- **One get of a loop** whose handle is `h` and whose buffer has `size` bytes: the other handles
take steps before it and while it waits. -/
inductive Pass (dbg : Bool) (h : H) (opts : AchGetOpts) (size : ℕ) :
    Sys H → List (List UInt8) → GetResult → Sys H → Prop where
  | get {s t u : Sys H} {fs gs fs' : List (List UInt8)} {ws : List WaitEvent} {res : GetResult}
      {chan' : AchChannel} (hbefore : Steps dbg (· ≠ h) s fs t) (hws : Waits dbg h t ws fs')
      (hduring : Steps dbg (· ≠ h) t gs u)
      (hget : out (achGet (t.chan h) size false opts ws) dbg t.shm = .ok ((res, chan'), u.shm)) :
      Pass dbg h opts size s (fs ++ gs) res ⟨u.shm, Function.update u.chan h chan'⟩

/-- **Runs of a loop**, with the frames the other handles put meanwhile and the results of the
gets. -/
inductive TakeRun {B : Type} (dbg : Bool) (h : H) (opts : AchGetOpts) (L : TakeLoop fresh B) :
    Sys H → B → List (List UInt8) → List GetResult → Sys H → B → Prop where
  | refl (s : Sys H) (b : B) : TakeRun dbg h opts L s b [] [] s b
  | pass {s t u : Sys H} {b c d : B} {fs gs : List (List UInt8)} {rs : List GetResult}
      {res : GetResult} (hrun : TakeRun dbg h opts L s b fs rs t c)
      (hpass : Pass dbg h opts (L.buf c).pipeframeSize t gs res u) (hnext : L.next c res d) :
      TakeRun dbg h opts L s b (fs ++ gs) (rs ++ [res]) u d

/-! ### One get -/

theorem frame_le_dataSize {hist : List (List UInt8)} {kept s : ℕ} {shm : AchHeader}
    (h : Rep hist kept shm) (h1 : hist.length - kept ≤ s) (h2 : s < hist.length) :
    (hist.getD s []).length ≤ shm.dataSize := by
  have hmono := startOf_mono hist h1
  have hsucc := startOf_succ h2
  have hle := startOf_le hist (s + 1)
  have hwin := h.startOf_le_dataSize
  omega

/-- What a get of such a loop gives: the frame is larger than the buffer, but not than the data
array, or a frame is delivered. -/
inductive Took (hist : List (List UInt8)) (cnt dataSize bufSize : ℕ) (opts : AchGetOpts)
    (chan : AchChannel) (res : GetResult) (chan' : AchChannel) : Prop where
  | overflow {n : ℕ} (hres : res = ⟨.overflow, [], some n⟩) (hlt : bufSize < n) (hle : n ≤ dataSize)
      (hchan : chan' = chan)
  | frame (hd : Delivers hist cnt bufSize opts chan res chan') (hle : res.bytes.length ≤ dataSize)
      (hcnt : 0 < cnt)

/-- A handle that remembers a slot of the index array. With `ACH_O_LAST` it is not looked at. -/
def Ready (cnt : ℕ) (opts : AchGetOpts) (chan : AchChannel) : Prop :=
  opts.last = true ∨ chan.nextIndex < cnt

section
variable {cnt size : ℕ} {hist : List (List UInt8)} {s t : Sys H} {h : H} {opts : AchGetOpts}

omit [DecidableEq H] in
/-- The critical section of a get for which there is a frame. -/
theorem getCritical_took (dbg : Bool) {chan : AchChannel} (bufSize : ℕ)
    (ht : Consistent cnt size hist t) (hseq : hist.length + 1 < 2 ^ 64)
    (hcur : Cursor hist.length cnt chan) (hready : Ready cnt opts chan)
    (hnew : chan.seqNum ≠ t.shm.lastSeq) :
    ∃ res chan', out (getCritical chan bufSize opts) dbg (setMutex .held t.shm) =
        .ok ((res, chan'), setMutex .held t.shm) ∧
      Took hist cnt (cnt * size) bufSize opts chan res chan' := by
  obtain ⟨kept, hinv⟩ := ht.inv
  have hlast := Rep.lastSeq_eq hinv.toRep (Nat.lt_of_succ_lt hseq)
  have hsz := ht.dataSize
  have hle := hcur.seqNum
  rw [hlast] at hnew
  have hne : hist ≠ [] := by
    rintro rfl
    simp only [List.length_nil] at hle hnew
    omega
  obtain ⟨hlo, hhi, -, -⟩ := pick_bounds (s := chan.seqNum) opts (hinv.keptPos hne) hinv.keptHist
    hle
  have heq : out (getCritical chan bufSize opts) dbg (setMutex .held t.shm) =
      .ok (getAnswer hist (hist.length - kept + 1) cnt bufSize opts chan,
        setMutex .held t.shm) := by
    rw [← ht.indexCnt] at hcur hready ⊢
    exact getCritical_eq dbg bufSize opts (Inv.setMutex hinv .held) hcur hready hseq fun _ => hnew
  have hframe : (chosenFrame hist (hist.length - kept + 1) opts chan).length ≤ cnt * size := by
    rw [← hsz, chosenFrame, chosen_eq_pick]
    exact frame_le_dataSize hinv.toRep (by omega) (by omega)
  have hno : ¬ NoFrame opts hist.length chan.seqNum := by
    rintro (h0 | ⟨h0, -⟩)
    · exact hne (List.length_eq_zero_iff.mp h0)
    · exact hnew h0
  refine ⟨(getAnswer hist (hist.length - kept + 1) cnt bufSize opts chan).1,
    (getAnswer hist (hist.length - kept + 1) cnt bufSize opts chan).2, heq, ?_⟩
  rcases Nat.lt_or_ge bufSize (chosenFrame hist (hist.length - kept + 1) opts chan).length with
    hbig | hfit
  · rw [getAnswer_overflow _ _ _ _ _ _ hno hbig]
    exact .overflow rfl hbig hframe rfl
  · rcases getAnswer_cases cnt bufSize opts hinv.keptPos hinv.keptHist hle
      (fun _ => hnew) with hr | hd
    · have hst := hr.status
      rw [getAnswer_delivers _ _ _ _ _ _ hno hfit] at hst
      simp only at hst
      split_ifs at hst <;> simp at hst
    · refine .frame hd ?_ ?_
      · rw [getAnswer_delivers _ _ _ _ _ _ hno hfit]
        exact hframe
      · have hkept := hinv.keptPos hne
        have hkc := hinv.keptCnt
        rw [ht.indexCnt] at hkc
        omega

/-- A get that waits without a time limit and returns is the same get made at once in the block `u`
in which its wait ends. -/
theorem achGet_returned {t : Sys H} {bufSize : ℕ} {ws : List WaitEvent} {fs : List (List UInt8)}
    {res : GetResult} {chan' : AchChannel} {u : AchHeader}
    (hws : Waits dbg h t ws fs) (hc : Clean t.shm) (hm : (t.chan h).mapped = true)
    (hlive : (t.chan h).cancel = false) (hw : opts.wait = true)
    (hget : out (achGet (t.chan h) bufSize false opts ws) dbg t.shm = .ok ((res, chan'), u)) :
    (t.chan h).seqNum ≠ u.lastSeq ∧
      out (achGet (t.chan h) bufSize false opts []) dbg u = .ok ((res, chan'), u) ∧
      ∃ v, out (getCritical (t.chan h) bufSize opts) dbg (setMutex .held u) =
        .ok ((res, chan'), v) := by
  cases achGet_waits bufSize false opts hws hc hm hlive with
  | blocked hw hon ho =>
    rw [ho] at hget
    simp at hget
  | timeout hsteps hgs hw hran ho => simpa using hran.abstime_eq
  | taken hsteps hgs hnow hnew ho =>
    rename_i t' gs
    have hc' : Clean t'.shm := hsteps.clean hc
    have hr := rdlock_now dbg false [] hc' hlive fun hw => (hnew hw).seqNum_ne
    have hnow := achGet_of_rdlock bufSize hc' hc' hm hr
    rw [ho] at hget
    obtain ⟨p, hcrit, hp⟩ := Outcome.bind_eq_ok.mp hget
    obtain ⟨hres, rfl⟩ : p.1 = (res, chan') ∧ t'.shm = u := by simpa using hp
    refine ⟨(hnew hw).seqNum_ne, ?_, p.2, ?_⟩
    · rw [hnow, hcrit, Outcome.bind_ok, hres]
    · rw [hcrit, ← hres]

/-- **A get of a loop** in a reachable state, and what it leads to. -/
theorem pass_took {bufSize : ℕ} {res : GetResult} {fs : List (List UInt8)} {last : Bool}
    (hs : Reachable dbg cnt size hist s) (hwrap : NoWrap cnt size)
    (hm : (s.chan h).mapped = true) (hready : Ready cnt (takeOpts last) (s.chan h))
    (hpass : Pass dbg h (takeOpts last) bufSize s fs res t)
    (hseq : (hist ++ fs).length + 1 < 2 ^ 64) :
    Took (hist ++ fs) cnt (cnt * size) bufSize (takeOpts last) (s.chan h) res (t.chan h) ∧
      Reachable dbg cnt size (hist ++ fs) t := by
  obtain ⟨hbefore, hws, hduring, hget⟩ := hpass
  rename_i t u fs gs fs' ws chan'
  have hu := (hs.steps hbefore).steps hduring
  rw [List.append_assoc] at hu
  have hcons := hu.consistent hwrap hseq
  have hchan : t.chan h = s.chan h := hbefore.chan_other
  have hchan' : u.chan h = s.chan h := hduring.chan_other.trans hchan
  have hcur := hcons.cursor h (by rw [hchan']; exact hm)
  have hlive := hcons.live h (by rw [hchan']; exact hm)
  rw [hchan'] at hcur hlive
  obtain ⟨hnew, hnow, v, hcrit⟩ := achGet_returned hws (hs.steps hbefore).clean
    (by rw [hchan]; exact hm) (by rw [hchan]; exact hlive) rfl hget
  rw [hchan] at hnew hnow hcrit
  obtain ⟨res', chan'', hout, htook⟩ := getCritical_took dbg bufSize hcons hseq hcur hready hnew
  obtain ⟨⟨rfl, rfl⟩, -⟩ : (res' = res ∧ chan'' = chan') ∧ _ = v := by
    rw [hout] at hcrit
    simpa using hcrit
  refine ⟨by simpa using htook, ?_⟩
  have hcall : u.call dbg h (.get bufSize false (takeOpts last) []) =
      .ok (.get res' chan'', ⟨u.shm, Function.update u.chan h chan''⟩) := by
    rw [Sys.call, hchan', List.map_nil, hnow]
    rfl
  have hstep := hu.step (.call (by rw [hchan']; exact hm) hcall)
  rwa [show
      Event.frames (⟨h, .get bufSize false (takeOpts last) [], .get res' chan''⟩ : Event H) = []
    from rfl, List.append_nil] at hstep

/-- What a get leaves behind is ready for the next one. -/
theorem Took.ready {dataSize bufSize : ℕ} {res : GetResult} {chan chan' : AchChannel}
    (h : Took hist cnt dataSize bufSize opts chan res chan') (hready : Ready cnt opts chan) :
    Ready cnt opts chan' ∧ chan'.mapped = chan.mapped := by
  cases h with
  | overflow hres hlt hle hchan =>
    subst hchan
    exact ⟨hready, rfl⟩
  | frame hd hle hcnt =>
    have hchan := hd.cursor
    constructor
    · right
      rw [hchan]
      exact Nat.mod_lt _ hcnt
    · rw [hchan]

/-- **A get of a loop in a reachable state** waits on, and then there is no frame for it yet, or
returns. -/
theorem achGet_goes_on {bufSize : ℕ} {ws : List WaitEvent} {fs : List (List UInt8)} {last : Bool}
    (hs : Reachable dbg cnt size hist s) (hwrap : NoWrap cnt size) (hm : (s.chan h).mapped = true)
    (hready : Ready cnt (takeOpts last) (s.chan h)) (hws : Waits dbg h s ws fs)
    (hseq : (hist ++ fs).length + 1 < 2 ^ 64) :
    (out (achGet (s.chan h) bufSize false (takeOpts last) ws) dbg s.shm = .block ∧
        (s.chan h).seqNum = s.shm.lastSeq) ∨
      ∃ r, out (achGet (s.chan h) bufSize false (takeOpts last) ws) dbg s.shm = .ok r := by
  rw [List.length_append] at hseq
  have hcons := hs.consistent hwrap (by omega)
  -- the critical section returns in every state in which there is a frame
  have hcrit : ∀ {gs t}, Steps dbg (· ≠ h) s gs t → gs.length ≤ fs.length →
      (s.chan h).seqNum ≠ t.shm.lastSeq →
      ∃ r, ((out (getCritical (s.chan h) bufSize (takeOpts last)) dbg (setMutex .held t.shm)).bind
        fun p => .ok (p.1, t.shm)) = .ok r := by
    intro gs t hsteps hgs hnew
    have hlen : (hist ++ gs).length + 1 < 2 ^ 64 := by
      rw [List.length_append]
      omega
    have ht := (hs.steps hsteps).consistent hwrap hlen
    have hchan : t.chan h = s.chan h := hsteps.chan_other
    have hcur := ht.cursor h (by rw [hchan]; exact hm)
    rw [hchan] at hcur
    obtain ⟨res, chan', hout, -⟩ := getCritical_took dbg bufSize ht hlen hcur hready hnew
    exact ⟨_, by rw [hout, Outcome.bind_ok]⟩
  by_cases hnew : (s.chan h).seqNum = s.shm.lastSeq
  · cases achGet_waits bufSize false (takeOpts last) hws hcons.clean hm (hcons.live h hm) with
    | blocked hw hon ho => exact Or.inl ⟨ho, hnew⟩
    | timeout hsteps hgs hw hran ho => simpa using hran.abstime_eq
    | taken hsteps hgs hnow hnew' ho =>
      rw [ho]
      exact Or.inr (hcrit hsteps hgs (hnew' rfl).seqNum_ne)
  · have hr := rdlock_now dbg false ws hcons.clean (hcons.live h hm)
      (show (takeOpts last).wait = true → _ from fun _ => hnew)
    rw [achGet_of_rdlock bufSize hcons.clean hcons.clean hm hr]
    exact Or.inr (hcrit (.refl s) (by simp) hnew)

/-! ### Whole runs -/

/-- **What a pass makes of the buffer.** It was too small, and the new one is larger, but not larger
than the data array; or it holds, after the magic word and its size, a frame of the channel that the
loop had not taken before. -/
inductive Staging (fresh : ℕ → ℕ → UInt8) (dataSize : ℕ) (hist : List (List UInt8))
    (chan chan' : AchChannel) (conn conn' : AchdConn) (res : GetResult) : Prop where
  | enlarged {n : ℕ} (hst : res.status = .overflow) (hn : res.frameSize = some n)
      (hlt : conn.pipeframeSize < n) (hle : n ≤ dataSize) (hbuf : conn' = .alloc fresh n)
      (hchan : chan' = chan)
  | staged {f : List UInt8} (hst : res.status = .ok ∨ res.status = .missedFrame)
      (hnew : chan.seqNum < chan'.seqNum) (hf : hist[chan'.seqNum - 1]? = some f)
      (hmagic : conn'.pipeframe.magic = achpipe) (hsize : sizeField conn'.pipeframe = f.length)
      (hdata : (List.range f.length).map conn'.pipeframe.data = f)
      (hbuf : conn'.pipeframeSize = conn.pipeframeSize)

omit [DecidableEq H] in
theorem Took.staging {dataSize : ℕ} {res : GetResult} {chan chan' : AchChannel} {conn : AchdConn}
    {last : Bool} (h : Took hist cnt dataSize conn.pipeframeSize (takeOpts last) chan res chan')
    (hsmall : dataSize < 2 ^ 64) (hm : conn.pipeframe.magic = achpipe) :
    Staging fresh dataSize hist chan chan' conn (getFrame fresh conn res).1 res := by
  cases h with
  | overflow hres hlt hle hchan =>
    subst hres
    exact .enlarged rfl rfl hlt hle rfl hchan
  | frame hd hle hcnt =>
    have hst : res.status = .ok ∨ res.status = .missedFrame := by
      rw [hd.status]
      split_ifs <;> simp
    have hp : Possible conn.pipeframeSize res := by
      unfold Possible
      rcases hst with h | h <;> rw [h] <;> exact ⟨hd.frameSize, hd.fits⟩
    have hdone : (getFrame fresh conn res).2 = true ∧
        (getFrame fresh conn res).1.pipeframeSize = conn.pipeframeSize := by
      unfold getFrame
      rcases hst with h | h <;> simp [h]
    have hs : Staged (getFrame fresh conn res).1 res.bytes := (getFrame_cases hp hm).2 hdone.1
    have hpos := hd.pos
    have hle' := hd.le
    have hnew : chan.seqNum < chan'.seqNum := by
      refine lt_of_le_of_ne hd.mono fun he => ?_
      simpa [takeOpts] using hd.repeated he.symm
    refine .staged hst hnew ?_ hs.magic (sizeField_of_sizeBytes (by omega) hs.sizeBytes) hs.data
      hdone.2
    rw [hd.bytes, List.getElem?_eq_getElem (by omega), List.getD_eq_getElem _ _ (by omega)]

/-- The number of gets that failed because the buffer was too small. -/
def overflows (rs : List GetResult) : ℕ := rs.countP fun r => decide (r.status = .overflow)

theorem overflows_concat (rs : List GetResult) (res : GetResult) :
    overflows (rs ++ [res]) = overflows rs + if res.status = .overflow then 1 else 0 := by
  simp [overflows, List.countP_append, List.countP_singleton]

/-- What holds at every point of a run that started with a buffer of `size₀` bytes. -/
structure Midway (dbg : Bool) (cnt size : ℕ) (h : H) (opts : AchGetOpts) (size₀ : ℕ)
    (hist : List (List UInt8)) (rs : List GetResult) (s : Sys H) (conn : AchdConn) : Prop where
  reach : Reachable dbg cnt size hist s
  mapped : (s.chan h).mapped = true
  ready : Ready cnt opts (s.chan h)
  magic : conn.pipeframe.magic = achpipe
  grown : size₀ + overflows rs ≤ conn.pipeframeSize
  bounded : conn.pipeframeSize ≤ max size₀ (cnt * size)

/-- **The step lemma.** -/
theorem Midway.pass (fresh : ℕ → ℕ → UInt8) {size₀ : ℕ} {rs : List GetResult} {conn : AchdConn}
    {res : GetResult}
    {fs : List (List UInt8)} {last : Bool}
    (hs : Midway dbg cnt size h (takeOpts last) size₀ hist rs s conn) (hwrap : NoWrap cnt size)
    (hpass : Pass dbg h (takeOpts last) conn.pipeframeSize s fs res t)
    (hseq : (hist ++ fs).length + 1 < 2 ^ 64) :
    Midway dbg cnt size h (takeOpts last) size₀ (hist ++ fs) (rs ++ [res]) t
        (getFrame fresh conn res).1 ∧
      Staging fresh (cnt * size) (hist ++ fs) (s.chan h) (t.chan h) conn
        (getFrame fresh conn res).1 res := by
  obtain ⟨htook, hreach⟩ := pass_took hs.reach hwrap hs.mapped hs.ready hpass hseq
  obtain ⟨hready, hmapped⟩ := htook.ready hs.ready
  have hsmall : cnt * size < 2 ^ 64 := by
    unfold NoWrap at hwrap
    omega
  have hstaging : Staging fresh (cnt * size) (hist ++ fs) (s.chan h) (t.chan h) conn
      (getFrame fresh conn res).1 res := htook.staging hsmall hs.magic
  have hgrown := hs.grown
  have hbounded := hs.bounded
  have hcount := overflows_concat rs res
  have hmapped' : (t.chan h).mapped = true := by rw [hmapped]; exact hs.mapped
  refine ⟨?_, hstaging⟩
  cases hstaging with
  | enlarged hst hn hlt hle hbuf hchan =>
    rename_i n
    rw [if_pos hst] at hcount
    have hsize : (AchdConn.alloc fresh n).pipeframeSize = n := rfl
    rw [hbuf]
    refine ⟨hreach, hmapped', hready, rfl, ?_, ?_⟩
    · rw [hcount, hsize]
      omega
    · exact le_max_of_le_right hle
  | staged hst hnew hf hmagic hfield hdata hbuf =>
    rw [if_neg (by rcases hst with h | h <;> simp [h])] at hcount
    refine ⟨hreach, hmapped', hready, hmagic, ?_, ?_⟩
    · rw [hbuf, hcount]
      omega
    · rw [hbuf]
      exact hbounded

/-- **The run lemma.** -/
theorem TakeRun.midway {B : Type} {L : TakeLoop fresh B} {b c : B} {fs : List (List UInt8)}
    {rs : List GetResult} {last : Bool} (hrun : TakeRun dbg h (takeOpts last) L s b fs rs t c)
    (hwrap : NoWrap cnt size) (hs : Reachable dbg cnt size hist s)
    (hm : (s.chan h).mapped = true) (hready : Ready cnt (takeOpts last) (s.chan h))
    (hmagic : (L.buf b).pipeframe.magic = achpipe) : (hist ++ fs).length + 1 < 2 ^ 64 →
      Midway dbg cnt size h (takeOpts last) (L.buf b).pipeframeSize (hist ++ fs) rs t
        (L.buf c) := by
  induction hrun with
  | refl =>
    intro _
    rw [List.append_nil]
    exact ⟨hs, hm, hready, hmagic, le_rfl, le_max_left _ _⟩
  | pass _ hpass hnext ih =>
    intro hseq
    rw [← List.append_assoc] at hseq ⊢
    rw [L.buf_next hnext]
    refine ((ih hmagic ?_).pass fresh hwrap hpass hseq).1
    rw [List.length_append] at hseq
    omega

/-- `get_frame` ends with the first frame it takes: before that every get failed because the buffer
was too small. -/
theorem TakeRun.getFrame_length {b c : AchdConn × Bool} {fs : List (List UInt8)}
    {rs : List GetResult} {last : Bool}
    (hrun : TakeRun dbg h (takeOpts last) (getFrameLoop fresh) s b fs rs t c)
    (hwrap : NoWrap cnt size) (hs : Reachable dbg cnt size hist s)
    (hm : (s.chan h).mapped = true) (hready : Ready cnt (takeOpts last) (s.chan h))
    (hmagic : b.1.pipeframe.magic = achpipe) : (hist ++ fs).length + 1 < 2 ^ 64 →
      rs.length ≤ overflows rs + 1 ∧ (c.2 = false → rs.length = overflows rs) := by
  induction hrun with
  | refl =>
    intro _
    simp [overflows]
  | pass hrun hpass hnext ih =>
    intro hseq
    rename_i c d fs gs rs res
    obtain ⟨hopen, rfl⟩ := hnext
    rw [← List.append_assoc] at hseq
    have hseq' := hseq
    rw [List.length_append] at hseq'
    have hmid := hrun.midway hwrap hs hm hready hmagic (by omega)
    obtain ⟨-, hall⟩ := ih hmagic (by omega)
    have hlen := hall hopen
    have hcount := overflows_concat rs res
    obtain ⟨-, hstaging⟩ := hmid.pass fresh hwrap hpass hseq
    rw [List.length_append, List.length_singleton]
    cases hstaging with
    | enlarged hst hn hlt hle hbuf hchan =>
      rw [if_pos hst] at hcount
      omega
    | staged hst hnew hf hmagic hfield hdata hbuf =>
      have hdone : (getFrame fresh c.1 res).2 = true := by
        unfold getFrame
        rcases hst with h | h <;> simp [h]
      constructor
      · omega
      · intro hf
        rw [hdone] at hf
        simp at hf

end

/-- **A loop that takes frames does so.** In every run from the state `s`, whatever the other
handles put meanwhile: at most as many gets fail for want of space as the buffer is smaller than the
data array, every pass enlarges the buffer or stages a frame, and the next get waits for a frame or
returns. -/
structure TakesFrames {B : Type} (dbg : Bool) (cnt size : ℕ) (h : H) (last : Bool)
    (L : TakeLoop fresh B) (hist : List (List UInt8)) (s : Sys H) (b : B) : Prop where
  overflows_le : ∀ fs rs t c, TakeRun dbg h (takeOpts last) L s b fs rs t c →
    (hist ++ fs).length + 1 < 2 ^ 64 → overflows rs ≤ cnt * size - (L.buf b).pipeframeSize
  stages : ∀ fs rs t c gs res u d, TakeRun dbg h (takeOpts last) L s b fs rs t c →
    Pass dbg h (takeOpts last) (L.buf c).pipeframeSize t gs res u → L.next c res d →
    (hist ++ fs ++ gs).length + 1 < 2 ^ 64 →
    Staging fresh (cnt * size) (hist ++ fs ++ gs) (t.chan h) (u.chan h) (L.buf c) (L.buf d) res
  goes_on : ∀ fs rs t c ws gs, TakeRun dbg h (takeOpts last) L s b fs rs t c →
    Waits dbg h t ws gs → (hist ++ fs ++ gs).length + 1 < 2 ^ 64 →
    let o := out (achGet (t.chan h) (L.buf c).pipeframeSize false (takeOpts last) ws) dbg t.shm
    (o = .block ∧ (t.chan h).seqNum = t.shm.lastSeq) ∨ ∃ r, o = .ok r

section
variable {cnt size : ℕ} {hist : List (List UInt8)} {s : Sys H} {h : H}

theorem takesFrames {B : Type} {L : TakeLoop fresh B} {b : B} (last : Bool)
    (hs : Reachable dbg cnt size hist s) (hwrap : NoWrap cnt size) (hm : (s.chan h).mapped = true)
    (hready : Ready cnt (takeOpts last) (s.chan h))
    (hmagic : (L.buf b).pipeframe.magic = achpipe) :
    TakesFrames dbg cnt size h last L hist s b := by
  constructor
  case overflows_le =>
    intro fs rs t c hrun hseq
    have hmid := hrun.midway hwrap hs hm hready hmagic hseq
    have hgrown := hmid.grown
    have hbounded := hmid.bounded
    omega
  case stages =>
    intro fs rs t c gs res u d hrun hpass hnext hseq
    have hseq' := hseq
    rw [List.length_append] at hseq'
    have hmid := hrun.midway hwrap hs hm hready hmagic (by omega)
    rw [L.buf_next hnext]
    exact (hmid.pass fresh hwrap hpass hseq).2
  case goes_on =>
    intro fs rs t c ws gs hrun hws hseq
    have hseq' := hseq
    rw [List.length_append] at hseq'
    have hmid := hrun.midway hwrap hs hm hready hmagic (by omega)
    exact achGet_goes_on hmid.reach hwrap hmid.mapped hmid.ready hws hseq

/-- **Both loops terminate and stage an intact frame** if the handle remembers a slot of the index
array, or takes the newest frame. -/
theorem take_loops_stage_frames (fresh : ℕ → ℕ → UInt8) (last : Bool)
    (hs : Reachable dbg cnt size hist s) (hwrap : NoWrap cnt size) (hm : (s.chan h).mapped = true)
    (hready : Ready cnt (takeOpts last) (s.chan h)) :
    (∀ b : AchdConn × Bool, b.1.pipeframe.magic = achpipe →
      TakesFrames dbg cnt size h last (getFrameLoop fresh) hist s b) ∧
    (∀ st : WorkerSt, st.frame.magic = achpipe →
      TakesFrames dbg cnt size h last (workerLoop fresh) hist s st) ∧
    ∀ conn fs rs t c, conn.pipeframe.magic = achpipe →
      TakeRun dbg h (takeOpts last) (getFrameLoop fresh) s (conn, false) fs rs t c →
      (hist ++ fs).length + 1 < 2 ^ 64 → rs.length ≤ cnt * size + 1 := by
  have hget : ∀ b : AchdConn × Bool, b.1.pipeframe.magic = achpipe →
      TakesFrames dbg cnt size h last (getFrameLoop fresh) hist s b :=
    fun b hmagic => takesFrames last hs hwrap hm hready hmagic
  refine ⟨hget, fun st hmagic => takesFrames last hs hwrap hm hready hmagic, ?_⟩
  intro conn fs rs t c hmagic hrun hseq
  have hover := (hget (conn, false) hmagic).overflows_le fs rs t c hrun hseq
  obtain ⟨hlen, -⟩ := hrun.getFrame_length hwrap hs hm hready hmagic hseq
  omega

end

/-- Two handles on a new channel of 2 frames of 3 bytes, and a buffer of one byte. -/
theorem take_loops_stage_frames_sample : ∃ s : Sys Bool, Reachable true 2 3 [] s ∧
    (s.chan true).mapped = true ∧ Ready 2 (takeOpts false) (s.chan true) ∧
    TakesFrames true 2 3 true false (getFrameLoop fun _ _ => 0) [] s
      (AchdConn.alloc (fun _ _ => 0) 1, false) :=
  ⟨sampleOpened, reachable_sampleOpened true, rfl, Or.inr (by decide),
    (take_loops_stage_frames (fun _ _ => 0) false (reachable_sampleOpened true) (by decide) rfl
      (Or.inr (by decide))).1 _ rfl⟩

/-! ### One index entry -/

/-- `worker` as it starts. -/
def WorkerSt.start (fresh : ℕ → ℕ → UInt8) : WorkerSt := ⟨achPipeAlloc fresh 512, 512, [], false⟩

/-- A frame of 16 bytes whose last 8 bytes are the number 1. -/
def sampleFrame (i : ℕ) : UInt8 := if i = 8 then 1 else 0

/-- **A channel with one index entry.** After the first put the first get of `worker` reads past the
index array: it does not stage the frame. -/
theorem worker_one_slot_faults : NoWrap 1 16 ∧ ∃ (hist : List (List UInt8)) (s : Sys Bool),
    Reachable true 1 16 hist s ∧ (s.chan true).mapped = true ∧
      (s.chan true).seqNum ≠ s.shm.lastSeq ∧
      ¬ TakesFrames true 1 16 true false (workerLoop fun _ _ => 0) hist s
        (.start fun _ _ => 0) := by
  refine ⟨by decide, ?_⟩
  have hcreate : achCreate true CreateEnv.allOk [97] 1 16 false = .ok (.ok (created 1 16)) := by
    decide
  have hopen : achOpen OpenEnv.allOk [97] false (created 1 16) =
      .ok (.ok (openedChan (created 1 16))) := by
    decide
  let s : Sys Bool := ⟨created 1 16, fun _ => ⟨false, 0, 0, 0, false⟩⟩
  have h0 : Reachable true 1 16 [] s := .create hcreate fun _ => rfl
  have h2 := (h0.step (.opens (h := false) hopen)).step (.opens (h := true) hopen)
  have hval : ((Sys.call true ⟨created 1 16, Function.update (Function.update s.chan false
      (openedChan (created 1 16))) true (openedChan (created 1 16))⟩ false
      (.put (some sampleFrame) 16)).bind fun p => .ok ((p.2.chan true).mapped,
        (p.2.chan true).seqNum, p.2.shm.lastSeq,
        out (achGet (p.2.chan true) 512 false (takeOpts false) []) true p.2.shm matches .fault)) =
      .ok (true, 0, 1, true) := by
    decide +kernel
  obtain ⟨⟨r, t⟩, hcall, hval⟩ := Outcome.bind_eq_ok.mp hval
  simp only [Outcome.ok.injEq, Prod.mk.injEq] at hval
  obtain ⟨hm, hseq, hlast, hfault⟩ := hval
  refine ⟨_, t, h2.step (.call (h := false) rfl hcall), hm, by rw [hseq, hlast]; decide, ?_⟩
  intro htakes
  have hlen := length_frames false (.put (some sampleFrame) 16) r
  have hgo := htakes.goes_on [] [] t _ [] [] (.refl t _) (.nil t) (by
    simp only [List.append_nil, List.nil_append, Call.isPut, if_true] at hlen ⊢
    omega)
  revert hfault
  rcases hgo with ⟨hb, -⟩ | ⟨q, hq⟩
  · have hb' : out (achGet (t.chan true) 512 false (takeOpts false) []) true t.shm = .block := hb
    rw [hb']
    simp
  · have hq' : out (achGet (t.chan true) 512 false (takeOpts false) []) true t.shm = .ok q := hq
    rw [hq']
    simp

end Ach.Daemon.Resize
