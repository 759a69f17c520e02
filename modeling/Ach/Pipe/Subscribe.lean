import Ach.Channel.Delivery
import Ach.Daemon.Push
import Ach.Lib.Text

/-! # Frames on request

`subscribe` of `achpipe` writes the frames of a channel to a stream. In synchronous mode the other
side asks for each one with a command of four bytes: `next`, `last` or `poll`. Other handles use the
channel meanwhile, and the command, the frame taken and the frame written are steps of their own.

Every command is answered by one frame, in the order of the commands (`subscribe_answers`), and the
answers are what the delivery contract says for a handle that makes these calls. There is one
exception, the first answer: before anything was written the loop takes any status but
`ACH_OVERFLOW` for a frame, so that a first `poll` of an empty channel is answered by an empty
frame. -/

namespace Ach.Pipe.Subscribe

open Ach.Lib.Run Ach.Lib.Text Ach.Lib.Word
open Ach.Channel.Types Ach.Channel.Lock Ach.Channel.Get Ach.Channel.Create Ach.Channel.Invariant
open Ach.Channel.PutSpec Ach.Channel.GetSpec Ach.Channel.History Ach.Channel.Runs
open Ach.Channel.Delivery
open Ach.Daemon.Pipe Ach.Daemon.Push

variable {H : Type} [DecidableEq H]

/-! ### The program -/

/-- What is fixed: whether asserts are compiled in, the shift, the contents of new memory, the
handle, `opt_sync`, `opt_last` and `is_freq`. -/
structure SubEnv (H : Type) where
  dbg : Bool
  wide : WideShift
  fresh : ℕ → ℕ → UInt8
  me : H
  sync : Bool
  last : Bool
  freq : Bool

/-- The options of `ach_get` for a command. -/
def commandOpts (cmd : List UInt8) : Option AchGetOpts :=
  if cmd = ascii "next" then some ⟨true, false, false⟩
  else if cmd = ascii "last" then some ⟨true, true, false⟩
  else if cmd = ascii "poll" then some ⟨false, true, true⟩
  else none

/-- The options of `ach_get`, unless the command is invalid. -/
def SubEnv.opts (env : SubEnv H) (cmd : List UInt8) : Option AchGetOpts :=
  if env.sync then commandOpts cmd else some ⟨true, env.last || env.freq, false⟩

/-- Where the program is. -/
inductive Phase where
  /-- The channel is open. -/
  | flush
  /-- At the head of the loop. -/
  | head
  | get
  /-- There is a frame. -/
  | write
  | returned
  | aborted
  deriving DecidableEq

/-- An answer: the command, the number of frames put by then, and the frame. -/
structure Answer where
  cmd : List UInt8
  newest : ℕ
  frame : List UInt8
  deriving DecidableEq

/-- The buffer (`frame` and `max`), `t0`, the command, what is still to be read and what was
written, and, for the record, the commands and the answers. -/
structure SubSt where
  conn : AchdConn
  t0 : Bool
  cmd : List UInt8
  phase : Phase
  fin : List UInt8
  fout : List UInt8
  cmds : List (List UInt8)
  answers : List Answer

/-- The head of the loop. A signal can come while a command is read, so that `fread` reads `n` bytes
at most. -/
def SubSt.head (env : SubEnv H) (st : SubSt) (sig : Bool) (n : ℕ) : SubSt :=
  if sig then { st with phase := .returned }
  else if env.sync then
    if st.fin.length < 4 ∨ n < 4 then { st with phase := .aborted }
    else { st with
      cmd := st.fin.take 4, fin := st.fin.drop 4, phase := .get
      cmds := st.cmds ++ [st.fin.take 4] }
  else { st with cmd := [0, 0, 0, 0], phase := .get, cmds := st.cmds ++ [[0, 0, 0, 0]] }

/-- The loop around `ach_get`, after a call; `newest` frames have been put. -/
def SubSt.got (env : SubEnv H) (st : SubSt) (newest : ℕ) (res : GetResult) : SubSt :=
  let frameSize := res.frameSize.getD 0
  let conn := { st.conn with pipeframe := st.conn.pipeframe.storeData res.bytes }
  if res.status = .overflow then
    if env.dbg ∧ ¬ st.conn.pipeframeSize < frameSize then { st with phase := .aborted }
    else { st with conn := .alloc env.fresh frameSize }
  else if res.status = .ok ∨ res.status = .missedFrame ∨ st.t0 = true then
    { st with
      conn := { conn with pipeframe := achPipeSetSize conn.pipeframe frameSize }
      phase := .write
      answers := st.answers ++
        [⟨st.cmd, newest, (List.range frameSize).map conn.pipeframe.data⟩] }
  else { st with phase := .aborted }

/-- The frame is written, or `n` bytes of it; `flushed` is what `fflush` says. -/
def SubSt.write (env : SubEnv H) (st : SubSt) (n : ℕ) (flushed : Bool) : SubSt :=
  let cnt := achPipeGetSize env.wide st.conn.pipeframe
  let fout := st.fout ++ (st.conn.pipeframe.memory cnt).take n
  if n < 16 + cnt ∨ flushed = false then { st with fout := fout, phase := .returned }
  else if env.dbg ∧ env.freq ∧ env.sync then
    { st with fout := fout, t0 := false, phase := .aborted }
  else { st with fout := fout, t0 := false, phase := .head }

/-- The channel, the calls made on it, and the program. -/
structure World (H : Type) where
  sys : Channel.Runs.Sys H
  evs : List (Event H)
  sub : SubSt

/-- A step: a call of another handle, or a step of the program. -/
inductive Act (H : Type) where
  | other (h : H) (c : Call)
  | flush
  | head (sig : Bool) (n : ℕ)
  | get (waits : List WaitEnd)
  | write (n : ℕ) (flushed : Bool)

variable (env : SubEnv H)

/-- **One step.** A call that blocks is not one. -/
def World.next (w : World H) : Act H → Option (World H)
  | .other h c =>
    if h ≠ env.me then
      match w.sys.call env.dbg h c with
      | .ok (rep, s) => some { w with sys := s, evs := w.evs ++ [⟨h, c, rep⟩] }
      | _ => none
    else none
  | .flush =>
    if w.sub.phase = .flush then
      match w.sys.call env.dbg env.me .flush with
      | .ok (rep, s) => some ⟨s, w.evs ++ [⟨env.me, .flush, rep⟩],
        { w.sub with phase := match rep with | .flush .ok _ => .head | _ => .aborted }⟩
      | _ => none
    else none
  | .head sig n =>
    if w.sub.phase = .head then some { w with sub := w.sub.head env sig n } else none
  | .get waits =>
    if w.sub.phase = .get then
      match env.opts w.sub.cmd with
      | none => some { w with sub := { w.sub with phase := .aborted } }
      | some opts =>
        match w.sys.call env.dbg env.me (.get w.sub.conn.pipeframeSize false opts waits) with
        | .ok (.get res chan, s) => some ⟨s,
          w.evs ++ [⟨env.me, .get w.sub.conn.pipeframeSize false opts waits, .get res chan⟩],
          w.sub.got env (puts w.evs).length res⟩
        | _ => none
    else none
  | .write n flushed =>
    if w.sub.phase = .write then some { w with sub := w.sub.write env n flushed } else none

/-- The steps one after the other. -/
def World.run : List (Act H) → World H → Option (World H)
  | [], w => some w
  | a :: as, w => (w.next env a).bind (World.run as)

/-- `INIT_BUF_SIZE`. -/
def initBufSize : ℕ := 512

/-- The channel is open; `fin` is what the other side will have written. -/
def World.start (shm : AchHeader) (fin : List UInt8) : World H where
  sys := ⟨shm, fun _ => openedChan shm⟩
  evs := []
  sub := ⟨.alloc env.fresh initBufSize, true, [], .flush, fin, [], [], []⟩

/-! ### What `ach_get` returns -/

/-- **The result of a get:** an error without a frame, or the answer. -/
theorem get_result {dbg : Bool} {cnt size : ℕ} {evs : List (Event H)} {s s' : Channel.Runs.Sys H}
    {h : H} {n : ℕ} {opts : AchGetOpts} {ws : List WaitEnd} {rep : Reply}
    (hs : Tracked cnt size evs s) (hcnt : 2 ≤ cnt) (hseq : (puts evs).length + 1 < 2 ^ 64)
    (hcall : s.call dbg h (.get n false opts ws) = .ok (rep, s')) :
    ∃ res chan', rep = .get res chan' ∧
      ((res = .bare res.status ∧ res.status ≠ .ok ∧ res.status ≠ .missedFrame ∧
          res.status ≠ .overflow) ∨
        ∃ old, (res, chan') = getAnswer (puts evs) old cnt n opts (s.chan h)) := by
  obtain ⟨kept, hinv⟩ := hs.good.inv
  have hic := hs.good.indexCnt
  have hcur := hs.cursor h
  obtain ⟨p, hout, hrep⟩ := Outcome.bind_eq_ok.mp hcall
  obtain ⟨rfl, -⟩ : Reply.get p.1.1 p.1.2 = rep ∧ _ := by simpa using hrep
  refine ⟨_, _, rfl, ?_⟩
  rcases achGet_answer dbg n false opts ws hinv hs.good.clean (hs.good.mapped h)
    (by rw [hic]; exact hcur) (.inr (by rw [hic]; exact hcur.nextIndex_lt hcnt)) hseq with
    hb | ⟨r, hr, hget⟩ | ⟨-, hget⟩
  · simp [hb] at hout
  · obtain rfl := Outcome.ok.inj (hget.symm.trans hout)
    left
    rcases hr with rfl | ⟨rfl, -⟩ <;> simp [GetResult.bare]
  · obtain rfl := Outcome.ok.inj (hget.symm.trans hout)
    rw [← hic]
    exact .inr ⟨_, rfl⟩

/-- What the loop can see of it: the buffer is too small, a frame, or an error. -/
theorem seen_cases {hist : List (List UInt8)} {cnt n : ℕ} {opts : AchGetOpts}
    {chan chan' : AchChannel} {res : GetResult}
    (h : (res = .bare res.status ∧ res.status ≠ .ok ∧ res.status ≠ .missedFrame ∧
        res.status ≠ .overflow) ∨
      ∃ old, (res, chan') = getAnswer hist old cnt n opts chan) :
    (res.status = .overflow ∧ n < res.frameSize.getD 0) ∨
    ((res.status = .ok ∨ res.status = .missedFrame) ∧ res.frameSize = some res.bytes.length ∧
      (opts.last = true → 1 ≤ hist.length ∧ res.bytes = hist.getD (hist.length - 1) [])) ∨
    (res = .bare res.status ∧ res.status ≠ .ok ∧ res.status ≠ .missedFrame ∧
      res.status ≠ .overflow) := by
  rcases h with h | ⟨old, h⟩
  · exact .inr (.inr h)
  unfold getAnswer at h
  simp only at h
  split_ifs at h with hno hbig
  · obtain ⟨rfl, -⟩ := Prod.mk.inj h
    exact .inr (.inr ⟨rfl, by simp [GetResult.bare], by simp [GetResult.bare],
      by simp [GetResult.bare]⟩)
  · obtain ⟨rfl, -⟩ := Prod.mk.inj h
    exact .inl ⟨rfl, hbig⟩
  all_goals
    obtain ⟨rfl, -⟩ := Prod.mk.inj h
    refine .inr (.inl ⟨by simp, rfl, fun hl => ⟨by omega, ?_⟩⟩)
    simp [chosen, hl]

/-! ### The first answer -/

/-- The status of a get of the handle, unless its buffer was too small. -/
def ended (h : H) (e : Event H) : Option AchStatus :=
  match e.reply with
  | .get res _ => if e.handle = h ∧ res.status ≠ .overflow then some res.status else none
  | _ => none

/-- The status with which the first loop around `ach_get` ended, if one did. -/
def firstStatus (h : H) (evs : List (Event H)) : Option AchStatus := evs.findSome? (ended h)

theorem firstStatus_concat (h : H) (evs : List (Event H)) (e : Event H) :
    firstStatus h (evs ++ [e]) = (firstStatus h evs).or (ended h e) := by
  simp [firstStatus, List.findSome?_append]

/-- The frame that no get delivered: an empty one, if the first loop ended with an error. -/
def blank : Option AchStatus → List (List UInt8)
  | some st => if st = .ok ∨ st = .missedFrame then [] else [[]]
  | none => []

theorem blank_cases (first : Option AchStatus) : blank first = [] ∨ blank first = [[]] := by
  unfold blank
  split
  · split_ifs <;> simp
  · exact .inl rfl

/-- While the first loop has not ended there is no answer, and `t0` is cleared when the first one is
written. -/
def Begun (first : Option AchStatus) (st : SubSt) : Prop :=
  if first = none then st.t0 = true ∧ st.answers = []
  else st.t0 = true → st.phase ≠ .flush ∧ st.phase ≠ .head ∧ st.phase ≠ .get

/-! ### The invariant -/

/-- The frames of the answers. -/
def SubSt.frames (st : SubSt) : List (List UInt8) := st.answers.map Answer.frame

/-- A stream with the frames one after the other; of the last one there may be a part only. -/
def Cut (frames : List (List UInt8)) (fout : List UInt8) : Prop :=
  frames = [] ∧ fout = [] ∨
    ∃ done f part, frames = done ++ [f] ∧ fout = done.flatMap wire ++ part ∧ part <+: wire f

theorem cut_whole (frames : List (List UInt8)) : Cut frames (frames.flatMap wire) := by
  rcases List.eq_nil_or_concat frames with rfl | ⟨done, f, rfl⟩
  · exact .inl ⟨rfl, rfl⟩
  · exact .inr ⟨done, f, wire f, by simp, by simp, List.prefix_refl _⟩

/-- What was written, and where the frame taken last is. -/
def Written (st : SubSt) : Prop :=
  match st.phase with
  | .write => ∃ done f, st.frames = done ++ [f] ∧ st.fout = done.flatMap wire ∧
    Staged st.conn f ∧ f.length < 2 ^ 32
  | .returned => Cut st.frames st.fout
  | _ => st.fout = st.frames.flatMap wire

/-- The commands that were read, and those that were answered. -/
def Asked (st : SubSt) : Prop :=
  match st.phase with
  | .get => st.cmds = st.answers.map Answer.cmd ++ [st.cmd]
  | .aborted => st.answers.map Answer.cmd <+: st.cmds ∧ st.cmds.length ≤ st.answers.length + 1
  | _ => st.cmds = st.answers.map Answer.cmd

/-- An answer to a command for the newest frame is the newest frame, or empty. -/
def Newest (hist : List (List UInt8)) (a : Answer) : Prop :=
  a.newest ≤ hist.length ∧ ∀ opts, env.opts a.cmd = some opts → opts.last = true →
    a.frame = [] ∨ (1 ≤ a.newest ∧ a.frame = hist.getD (a.newest - 1) [])

/-- **The invariant of the program.** -/
structure SubInv (cnt size : ℕ) (fin : List UInt8) (w : World H) : Prop where
  tracked : Tracked cnt size w.evs w.sys
  sound : Sound w.evs
  small : ∀ f ∈ puts w.evs, f.length ≤ size
  magic : w.sub.conn.pipeframe.magic = achpipe
  frames : w.sub.frames =
    blank (firstStatus env.me w.evs) ++ (received env.me w.evs).map Prod.snd
  begun : Begun (firstStatus env.me w.evs) w.sub
  written : Written w.sub
  input : env.sync = true → fin = w.sub.cmds.flatten ++ w.sub.fin
  asked : Asked w.sub
  four : ∀ cmd ∈ w.sub.cmds, cmd.length = 4
  newest : ∀ a ∈ w.sub.answers, Newest env (puts w.evs) a

omit [DecidableEq H] in
theorem Newest.append {hist : List (List UInt8)} {a : Answer} (h : Newest env hist a)
    (fs : List (List UInt8)) : Newest env (hist ++ fs) a := by
  refine ⟨by rw [List.length_append]; exact h.1.trans (Nat.le_add_right _ _), fun opts ho hl => ?_⟩
  refine (h.2 opts ho hl).imp_right fun ⟨h1, h2⟩ => ⟨h1, ?_⟩
  have hle := h.1
  rw [List.getD_append _ _ _ _ (by omega)]
  exact h2

section
variable {env} {cnt size : ℕ} {fin : List UInt8} {w w' : World H}

omit [DecidableEq H] in
/-- A step from the flush, the head of the loop or a get that ends no first loop. -/
theorem Begun.leave {first : Option AchStatus} {st : SubSt} (h : Begun first st)
    (hph : st.phase = .flush ∨ st.phase = .head ∨ st.phase = .get) (ph : Phase) (cmd fin cmds) :
    Begun first { st with phase := ph, cmd := cmd, fin := fin, cmds := cmds } := by
  unfold Begun at h ⊢
  split_ifs at h ⊢ with hf
  · exact h
  · intro ht0
    have := h ht0
    tauto

/-- A call of another handle. -/
theorem SubInv.other {h : H} {c : Call} (hw : SubInv env cnt size fin w) (hcnt : 2 ≤ cnt)
    (hseq : (puts w.evs).length + 1 < 2 ^ 64) (hs : w.next env (.other h c) = some w') :
    SubInv env cnt size fin w' := by
  obtain ⟨hne, hs⟩ := Option.ite_none_right_eq_some.mp hs
  cases hcall : w.sys.call env.dbg h c with
  | ok x =>
    obtain ⟨rep, s⟩ := x
    rw [hcall] at hs
    obtain rfl := Option.some.inj hs
    obtain ⟨ht, hsound, hsmall⟩ := call_keeps hw.tracked hw.sound hw.small hcnt hseq hcall
    have hnone : delivery env.me ⟨h, c, rep⟩ = none := by
      cases rep <;> simp [delivery, hne]
    have hfirst : firstStatus env.me (w.evs ++ [⟨h, c, rep⟩]) = firstStatus env.me w.evs := by
      rw [firstStatus_concat, show ended env.me ⟨h, c, rep⟩ = none by
        cases rep <;> simp [ended, hne], Option.or_none]
    refine { hw with
      tracked := ht, sound := hsound, small := hsmall, frames := ?_, begun := ?_
      newest := fun a ha => ?_ }
    · rw [received_concat, hnone, Option.toList_none, List.append_nil, hfirst]
      exact hw.frames
    · rw [hfirst]
      exact hw.begun
    · rw [puts_concat]
      exact (hw.newest a ha).append env _
  | _ => simp [hcall] at hs

/-- `ach_flush`. -/
theorem SubInv.flush (hw : SubInv env cnt size fin w) (hcnt : 2 ≤ cnt)
    (hseq : (puts w.evs).length + 1 < 2 ^ 64) (hs : w.next env .flush = some w') :
    SubInv env cnt size fin w' := by
  obtain ⟨hph, hs⟩ := Option.ite_none_right_eq_some.mp hs
  cases hcall : w.sys.call env.dbg env.me .flush with
  | ok x =>
    obtain ⟨rep, s⟩ := x
    rw [hcall] at hs
    obtain rfl := Option.some.inj hs
    obtain ⟨ht, hsound, hsmall⟩ := call_keeps hw.tracked hw.sound hw.small hcnt hseq hcall
    obtain ⟨p, -, hr⟩ := Outcome.bind_eq_ok.mp hcall
    obtain ⟨rfl, -⟩ : Reply.flush p.1.1 p.1.2 = rep ∧ _ := by simpa using hr
    have hnone : delivery env.me ⟨env.me, .flush, .flush p.1.1 p.1.2⟩ = none := rfl
    have hfirst : firstStatus env.me (w.evs ++ [⟨env.me, .flush, .flush p.1.1 p.1.2⟩]) =
        firstStatus env.me w.evs := by
      rw [firstStatus_concat]
      exact Option.or_none
    have hwr : w.sub.fout = w.sub.frames.flatMap wire := by simpa [Written, hph] using hw.written
    have has : w.sub.cmds = w.sub.answers.map Answer.cmd := by simpa [Asked, hph] using hw.asked
    refine ⟨ht, hsound, hsmall, hw.magic, ?_, ?_, ?_, hw.input, ?_, hw.four, fun a ha => ?_⟩
    · rw [received_concat, hnone, Option.toList_none, List.append_nil, hfirst]
      exact hw.frames
    · rw [hfirst]
      exact hw.begun.leave (.inl hph) _ _ _ _
    · cases p.1.1 <;> exact hwr
    · cases p.1.1 <;> first | exact has | exact ⟨by simp [has], by simp [has]⟩
    · rw [puts_concat]
      exact (hw.newest a ha).append env _
  | _ => simp [hcall] at hs

/-- The head of the loop. -/
theorem SubInv.head {sig : Bool} {n : ℕ} (hw : SubInv env cnt size fin w)
    (hs : w.next env (.head sig n) = some w') : SubInv env cnt size fin w' := by
  obtain ⟨hph, hs⟩ := Option.ite_none_right_eq_some.mp hs
  obtain rfl := Option.some.inj hs
  have hwr : w.sub.fout = w.sub.frames.flatMap wire := by simpa [Written, hph] using hw.written
  have has : w.sub.cmds = w.sub.answers.map Answer.cmd := by simpa [Asked, hph] using hw.asked
  have hbegun := hw.begun.leave (.inr (.inl hph))
  unfold SubSt.head
  split_ifs with hsig hsync hshort
  · exact { hw with begun := hbegun _ _ _ _, written := hwr ▸ cut_whole _, asked := has }
  · exact { hw with
      begun := hbegun _ _ _ _, written := hwr, asked := ⟨by simp [has], by simp [has]⟩ }
  · refine { hw with
      begun := hbegun _ _ _ _, written := hwr, input := fun hy => ?_
      asked := by simp [Asked, has], four := fun cmd hc => ?_ }
    · rw [List.flatten_append, List.append_assoc]
      simpa using hw.input hy
    · rcases List.mem_append.mp hc with hc | hc
      · exact hw.four cmd hc
      · obtain rfl := List.mem_singleton.mp hc
        rw [List.length_take]
        omega
  · refine { hw with
      begun := hbegun _ _ _ _, written := hwr
      input := fun hy => absurd hy hsync, asked := by simp [Asked, has], four := fun cmd hc => ?_ }
    rcases List.mem_append.mp hc with hc | hc
    · exact hw.four cmd hc
    · obtain rfl := List.mem_singleton.mp hc
      rfl

/-- The write of a frame. -/
theorem SubInv.write {n : ℕ} {flushed : Bool} (hw : SubInv env cnt size fin w)
    (hs : w.next env (.write n flushed) = some w') : SubInv env cnt size fin w' := by
  obtain ⟨hph, hs⟩ := Option.ite_none_right_eq_some.mp hs
  obtain rfl := Option.some.inj hs
  obtain ⟨done, f, hframes, hfout, hst, hf⟩ : ∃ done f, w.sub.frames = done ++ [f] ∧
      w.sub.fout = done.flatMap wire ∧ Staged w.sub.conn f ∧ f.length < 2 ^ 32 := by
    simpa [Written, hph] using hw.written
  have has : w.sub.cmds = w.sub.answers.map Answer.cmd := by simpa [Asked, hph] using hw.asked
  have hsize : achPipeGetSize env.wide w.sub.conn.pipeframe = f.length :=
    getSize_of_sizeBytes env.wide hf hst.sizeBytes
  have hmem : w.sub.conn.pipeframe.memory f.length = wire f := by
    rw [PipeFrame.memory, hst.magic, hst.sizeBytes, hst.data]
    rfl
  have hall : w.sub.frames.flatMap wire = done.flatMap wire ++ wire f := by
    rw [hframes, List.flatMap_append]
    simp
  -- there is an answer, so that the first loop has ended
  have hfirst : firstStatus env.me w.evs ≠ none := fun hnone => by
    have hb := hw.begun
    rw [Begun, if_pos hnone] at hb
    simp [SubSt.frames, hb.2] at hframes
  have hbegun : ∀ st : SubSt, (st.t0 = true → st.phase = .returned) →
      Begun (firstStatus env.me w.evs) st := fun st hst => by
    rw [Begun, if_neg hfirst]
    intro ht0
    simp [hst ht0]
  unfold SubSt.write
  simp only [hsize, hmem]
  split_ifs with hc
  · exact { hw with
      begun := hbegun _ fun _ => rfl, asked := has
      written := .inr ⟨done, f, _, hframes, by rw [hfout], List.take_prefix _ _⟩ }
  all_goals
    have hfull : w.sub.fout ++ (wire f).take n = w.sub.frames.flatMap wire := by
      rw [hall, hfout, List.take_of_length_le (by rw [length_wire]; omega)]
  · exact { hw with
      begun := hbegun _ (by simp), written := hfull, asked := ⟨by simp [has], by simp [has]⟩ }
  · exact { hw with begun := hbegun _ (by simp), written := hfull, asked := has }

omit [DecidableEq H] in
/-- What the program does with what `ach_get` gave it. -/
theorem got_cases (env : SubEnv H) {st : SubSt} (newest : ℕ) {res : GetResult}
    (hres : (res.status = .overflow ∧ st.conn.pipeframeSize < res.frameSize.getD 0) ∨
      ((res.status = .ok ∨ res.status = .missedFrame) ∧ res.frameSize = some res.bytes.length) ∨
      (res = .bare res.status ∧ res.status ≠ .ok ∧ res.status ≠ .missedFrame ∧
        res.status ≠ .overflow)) :
    (res.status = .overflow ∧
      st.got env newest res = { st with conn := .alloc env.fresh (res.frameSize.getD 0) }) ∨
    (∃ conn, res.status ≠ .overflow ∧ ((res.status = .ok ∨ res.status = .missedFrame) ∨
        (st.t0 = true ∧ res.status ≠ .ok ∧ res.status ≠ .missedFrame ∧ res.bytes = [])) ∧
      (st.conn.pipeframe.magic = achpipe → Staged conn res.bytes) ∧
      st.got env newest res = { st with
        conn := conn, phase := .write, answers := st.answers ++ [⟨st.cmd, newest, res.bytes⟩] }) ∨
    (res.status ≠ .ok ∧ res.status ≠ .missedFrame ∧ st.t0 ≠ true ∧
      st.got env newest res = { st with phase := .aborted }) := by
  have hstaged : res.frameSize.getD 0 = res.bytes.length →
      st.conn.pipeframe.magic = achpipe → Staged { st.conn with
        pipeframe := achPipeSetSize (st.conn.pipeframe.storeData res.bytes)
          (res.frameSize.getD 0) } res.bytes := fun hn hm => by
    rw [hn]
    exact ⟨hm, rfl, map_range_storeData st.conn.pipeframe res.bytes⟩
  rcases hres with ⟨ho, hbig⟩ | ⟨hok, hn⟩ | ⟨hbare, h1, h2, h3⟩
  · left
    refine ⟨ho, ?_⟩
    simp [SubSt.got, ho, hbig]
  · right
    left
    have hsize : res.frameSize.getD 0 = res.bytes.length := by rw [hn]; rfl
    have hno : res.status ≠ .overflow := by rcases hok with h | h <;> simp [h]
    refine ⟨_, hno, .inl hok, hstaged hsize, ?_⟩
    unfold SubSt.got
    simp only [hno, if_false]
    rw [if_pos (or_assoc.mp (.inl hok)), hsize, map_range_storeData]
  · right
    have hbytes : res.bytes = [] := by rw [hbare]; rfl
    have hsize : res.frameSize.getD 0 = res.bytes.length := by rw [hbare]; rfl
    by_cases ht0 : st.t0 = true
    · refine .inl ⟨_, h3, .inr ⟨ht0, h1, h2, hbytes⟩, hstaged hsize, ?_⟩
      unfold SubSt.got
      simp only [h3, if_false]
      rw [if_pos (.inr (.inr ht0)), hsize, map_range_storeData]
    · refine .inr ⟨h1, h2, ht0, ?_⟩
      simp [SubSt.got, h1, h2, h3, ht0]

/-- The frames of the answers and those received, after one more answer. -/
theorem SubInv.answer {res : GetResult} (hw : SubInv env cnt size fin w)
    (hph : w.sub.phase = .get) (n : ℕ)
    (htook : (res.status = .ok ∨ res.status = .missedFrame) ∨
      (w.sub.t0 = true ∧ res.status ≠ .ok ∧ res.status ≠ .missedFrame ∧ res.bytes = [])) :
    w.sub.frames ++ [res.bytes] = blank ((firstStatus env.me w.evs).or (some res.status)) ++
      (received env.me w.evs ++
        if res.status = .ok ∨ res.status = .missedFrame then [(n, res.bytes)] else []).map
          Prod.snd := by
  have hframes := hw.frames
  have hbegun := hw.begun
  cases hfirst : firstStatus env.me w.evs with
  | some st =>
    rw [Begun, if_neg (by simp [hfirst])] at hbegun
    have hok := htook.resolve_right fun h => (hbegun h.1).2.2 hph
    rw [hframes, hfirst, if_pos hok, List.map_append, ← List.append_assoc]
    rfl
  | none =>
    -- nothing was received before
    rw [Begun, if_pos hfirst] at hbegun
    have hnone : w.sub.frames = [] := by rw [SubSt.frames, hbegun.2, List.map_nil]
    have hrec : (received env.me w.evs).map Prod.snd = [] := by
      rw [hnone, hfirst] at hframes
      exact hframes.symm
    rw [hnone, List.map_append, hrec, Option.none_or, blank]
    rcases htook with hok | ⟨-, h1, h2, hnil⟩
    · rw [if_pos hok, if_pos hok]
      rfl
    · rw [if_neg (by simp [h1, h2]), if_neg (by simp [h1, h2]), hnil]
      rfl

/-- A pass of the loop around `ach_get`. -/
theorem SubInv.get {ws : List WaitEnd} (hw : SubInv env cnt size fin w) (hcnt : 2 ≤ cnt)
    (hsize : size < 2 ^ 32) (hseq : (puts w.evs).length + 1 < 2 ^ 64)
    (hs : w.next env (.get ws) = some w') : SubInv env cnt size fin w' := by
  obtain ⟨hph, hs⟩ := Option.ite_none_right_eq_some.mp hs
  have hwr : w.sub.fout = w.sub.frames.flatMap wire := by simpa [Written, hph] using hw.written
  have has : w.sub.cmds = w.sub.answers.map Answer.cmd ++ [w.sub.cmd] := by
    simpa [Asked, hph] using hw.asked
  have habort : Asked { w.sub with phase := .aborted } :=
    ⟨by simp [has], by simp [has]⟩
  cases hopts : env.opts w.sub.cmd with
  | none =>
    rw [hopts] at hs
    obtain rfl := Option.some.inj hs
    exact { hw with
      begun := hw.begun.leave (.inr (.inr hph)) _ _ _ _, written := hwr, asked := habort }
  | some opts =>
    simp only [hopts] at hs
    cases hcall : w.sys.call env.dbg env.me (.get w.sub.conn.pipeframeSize false opts ws) with
    | ok x =>
      obtain ⟨rep, s⟩ := x
      obtain ⟨ht, hsound, hsmall⟩ := call_keeps hw.tracked hw.sound hw.small hcnt hseq hcall
      obtain ⟨res, chan', rfl, hres⟩ := get_result hw.tracked hcnt hseq hcall
      rw [hcall] at hs
      obtain rfl := Option.some.inj hs
      have hcases := seen_cases hres
      have hputs : puts (w.evs ++ [⟨env.me, .get w.sub.conn.pipeframeSize false opts ws,
          .get res chan'⟩]) = puts w.evs := by
        rw [puts_concat]
        exact List.append_nil _
      have hrec : received env.me (w.evs ++ [⟨env.me, .get w.sub.conn.pipeframeSize false opts ws,
          .get res chan'⟩]) = received env.me w.evs ++
            if res.status = .ok ∨ res.status = .missedFrame then [(chan'.seqNum, res.bytes)]
            else [] := by
        rw [received_concat]
        by_cases hok : res.status = .ok ∨ res.status = .missedFrame <;> simp [delivery, hok]
      have hfirst : firstStatus env.me (w.evs ++ [⟨env.me,
          .get w.sub.conn.pipeframeSize false opts ws, .get res chan'⟩]) =
          (firstStatus env.me w.evs).or
            (if res.status ≠ .overflow then some res.status else none) := by
        rw [firstStatus_concat]
        simp [ended]
      have hbegun := hw.begun
      have hnew : ∀ a ∈ w.sub.answers, Newest env (puts (w.evs ++
          [⟨env.me, .get w.sub.conn.pipeframeSize false opts ws, .get res chan'⟩])) a := by
        rw [hputs]
        exact hw.newest
      rcases got_cases env (puts w.evs).length
        (hcases.imp_right (.imp_left fun h => ⟨h.1, h.2.1⟩)) with
        ⟨ho, heq⟩ | ⟨conn, hno, htook, hstaged, heq⟩ | ⟨h1, h2, ht0, heq⟩
      · -- the buffer was too small
        rw [heq]
        rw [if_neg (by simp [ho]), Option.or_none] at hfirst
        refine ⟨ht, hsound, hsmall, rfl, ?_, ?_, ?_, hw.input, ?_, hw.four, hnew⟩
        · rw [hrec, if_neg (by simp [ho]), List.append_nil, hfirst]
          exact hw.frames
        · rw [hfirst]
          exact hbegun
        · simp only [Written, hph]
          exact hwr
        · simp only [Asked, hph]
          exact has
      · rw [heq]
        have hframes := hw.answer hph (chan'.seqNum) htook
        rw [if_pos hno] at hfirst
        rw [← hrec, ← hfirst] at hframes
        have hshort : res.bytes.length < 2 ^ 32 := by
          rcases htook with hok | ⟨-, -, -, hnil⟩
          · have hmem := hsound.mem_puts (d := (chan'.seqNum, res.bytes)) env.me (by
              rw [hrec, if_pos hok]
              simp)
            exact (hsmall _ hmem).trans_lt hsize
          · simp [hnil]
        refine ⟨ht, hsound, hsmall, (hstaged hw.magic).magic, ?_, ?_,
          ⟨w.sub.frames, res.bytes, by simp [SubSt.frames], hwr, hstaged hw.magic, hshort⟩,
          hw.input, by simp [Asked, has], hw.four, fun a ha => ?_⟩
        · simpa [SubSt.frames] using hframes
        · rw [Begun, hfirst, if_neg (by simp)]
          simp
        · rcases List.mem_append.mp ha with ha | ha
          · exact hnew a ha
          · obtain rfl := List.mem_singleton.mp ha
            rw [hputs]
            refine ⟨le_rfl, fun opts' ho hl => ?_⟩
            obtain rfl : opts = opts' := Option.some.inj (hopts.symm.trans ho)
            rcases htook with hok | ⟨-, -, -, hnil⟩
            · rcases hcases with ⟨ho, -⟩ | ⟨-, -, hlast⟩ | ⟨-, h1, h2, -⟩
              · simp [ho] at hok
              · exact .inr (hlast hl)
              · exact absurd hok (by simp [h1, h2])
            · exact .inl hnil
      · rw [heq]
        -- this was not the first loop
        obtain ⟨st, hst⟩ : ∃ st, firstStatus env.me w.evs = some st := by
          refine Option.ne_none_iff_exists'.mp fun hnone => ht0 ?_
          rw [Begun, if_pos hnone] at hbegun
          exact hbegun.1
        rw [hst, Option.some_or, ← hst] at hfirst
        refine ⟨ht, hsound, hsmall, hw.magic, ?_, ?_, hwr, hw.input, habort, hw.four, hnew⟩
        · rw [hrec, if_neg (by simp [h1, h2]), List.append_nil, hfirst]
          exact hw.frames
        · rw [hfirst]
          exact hbegun.leave (.inr (.inr hph)) _ _ _ _
    | _ => simp [hcall] at hs

/-- **The step lemma.** -/
theorem SubInv.step {a : Act H} (hw : SubInv env cnt size fin w) (hcnt : 2 ≤ cnt)
    (hsize : size < 2 ^ 32) (hseq : (puts w.evs).length + 1 < 2 ^ 64)
    (hs : w.next env a = some w') : SubInv env cnt size fin w' := by
  cases a with
  | other h c => exact hw.other hcnt hseq hs
  | flush => exact hw.flush hcnt hseq hs
  | head sig n => exact hw.head hs
  | get ws => exact hw.get hcnt hsize hseq hs
  | write n flushed => exact hw.write hs

/-! ### Whole runs -/

/-- The step can put a frame. -/
def Act.isPut : Act H → Bool
  | .other _ c => c.isPut
  | _ => false

/-- A step puts at most one frame. -/
theorem puts_next {a : Act H} (hs : w.next env a = some w') :
    (puts w'.evs).length ≤ (puts w.evs).length + if a.isPut then 1 else 0 := by
  cases a with
  | other h c =>
    obtain ⟨-, hs⟩ := Option.ite_none_right_eq_some.mp hs
    split at hs
    · obtain rfl := Option.some.inj hs
      exact length_puts_concat w.evs h c _
    · simp at hs
  | flush =>
    obtain ⟨-, hs⟩ := Option.ite_none_right_eq_some.mp hs
    split at hs
    · obtain rfl := Option.some.inj hs
      exact length_puts_concat w.evs env.me .flush _
    · simp at hs
  | get ws =>
    obtain ⟨-, hs⟩ := Option.ite_none_right_eq_some.mp hs
    split at hs
    · obtain rfl := Option.some.inj hs
      exact Nat.le_add_right _ _
    · split at hs
      · obtain rfl := Option.some.inj hs
        exact length_puts_concat w.evs env.me (.get _ _ _ _) _
      · simp at hs
  | head sig n =>
    obtain ⟨-, hs⟩ := Option.ite_none_right_eq_some.mp hs
    obtain rfl := Option.some.inj hs
    exact Nat.le_add_right _ _
  | write n flushed =>
    obtain ⟨-, hs⟩ := Option.ite_none_right_eq_some.mp hs
    obtain rfl := Option.some.inj hs
    exact Nat.le_add_right _ _

/-- **The run lemma.** -/
theorem run_inv (hcnt : 2 ≤ cnt) (hsize : size < 2 ^ 32) :
    ∀ (as : List (Act H)) (w : World H), SubInv env cnt size fin w →
      (puts w.evs).length + as.countP Act.isPut < 2 ^ 64 - 1 →
      w.run env as = some w' → SubInv env cnt size fin w' := by
  intro as
  induction as with
  | nil =>
    intro w hw _ hrun
    obtain rfl := Option.some.inj hrun
    exact hw
  | cons a as ih =>
    intro w hw hn hrun
    obtain ⟨w₁, hs, hrun⟩ := Option.bind_eq_some_iff.mp hrun
    rw [List.countP_cons] at hn
    have hcount := puts_next hs
    exact ih w₁ (hw.step hcnt hsize (by omega) hs) (by omega) hrun

end

theorem subInv_start {cnt size : ℕ} {shm : AchHeader} (fin : List UInt8)
    (hs : Tracked cnt size [] (⟨shm, fun _ => openedChan shm⟩ : Channel.Runs.Sys H)) :
    SubInv env cnt size fin (.start env shm fin) where
  tracked := hs
  sound := fun pre e post he => by simp [World.start] at he
  small := by simp [World.start, puts]
  magic := rfl
  frames := rfl
  begun := ⟨rfl, rfl⟩
  written := rfl
  input := fun _ => rfl
  asked := rfl
  four := by simp [World.start]
  newest := by simp [World.start]

/-- **What the other side can rely on.** -/
structure Serves (fin : List UInt8) (w : World H) : Prop where
  /-- The gets keep the delivery contract. -/
  contract : Contract env.me w.evs
  /-- The answers are what the gets delivered, after an empty one if the first loop around `ach_get`
  ended with an error. -/
  frames : w.sub.frames =
    blank (firstStatus env.me w.evs) ++ (received env.me w.evs).map Prod.snd
  /-- The stream is the answers one after the other, only the last one possibly cut off. -/
  stream : Cut w.sub.frames w.sub.fout
  whole : w.sub.phase = .head → w.sub.fout = w.sub.frames.flatMap wire
  /-- The commands are what was sent, in pieces of four bytes. -/
  sent : env.sync = true → w.sub.cmds.flatten <+: fin
  four : ∀ cmd ∈ w.sub.cmds, cmd.length = 4
  /-- The commands are answered in order, one after the other. -/
  asked : w.sub.answers.map Answer.cmd <+: w.sub.cmds
  prompt : w.sub.cmds.length ≤ w.sub.answers.length + 1
  /-- The newest frame is what a command for it gets, unless it is the first one. -/
  newest : ∀ a ∈ w.sub.answers, Newest env (puts w.evs) a
  nonempty : ∀ a ∈ w.sub.answers.tail, a.frame ≠ []

/-- Only the first answer can be empty. -/
theorem SubInv.nonempty {cnt size : ℕ} {fin : List UInt8} {w : World H}
    (hw : SubInv env cnt size fin w) : ∀ a ∈ w.sub.answers.tail, a.frame ≠ [] := by
  obtain ⟨kept, hinv⟩ := hw.tracked.good.inv
  intro a ha
  have hmem : a.frame ∈ w.sub.frames.tail := by
    rw [SubSt.frames, ← List.map_tail]
    exact List.mem_map_of_mem ha
  have hrec : a.frame ∈ (received env.me w.evs).map Prod.snd := by
    rw [hw.frames] at hmem
    rcases blank_cases (firstStatus env.me w.evs) with h | h
    · rw [h] at hmem
      exact List.mem_of_mem_tail hmem
    · rw [h] at hmem
      exact hmem
  obtain ⟨d, hd, heq⟩ := List.mem_map.mp hrec
  exact heq ▸ hinv.toRep.nonempty _ (hw.sound.mem_puts env.me hd)

theorem SubInv.serves {cnt size : ℕ} {fin : List UInt8} {w : World H}
    (hw : SubInv env cnt size fin w) : Serves env fin w where
  contract := hw.sound.contract env.me
  frames := hw.frames
  stream := by
    have h := hw.written
    unfold Written at h
    split at h
    · obtain ⟨done, f, hframes, hfout, -⟩ := h
      exact .inr ⟨done, f, [], hframes, by rw [hfout, List.append_nil], List.nil_prefix⟩
    · exact h
    · exact h ▸ cut_whole _
  whole := fun hph => by simpa [Written, hph] using hw.written
  sent := fun hy => ⟨_, (hw.input hy).symm⟩
  four := hw.four
  asked := by
    have h := hw.asked
    unfold Asked at h
    split at h
    · exact h ▸ List.prefix_append _ _
    · exact h.1
    · exact h ▸ List.prefix_refl _
  prompt := by
    have h := hw.asked
    unfold Asked at h
    split at h
    · rw [h, List.length_append, List.length_map]
      rfl
    · exact h.2
    · rw [h, List.length_map]
      exact Nat.le_succ _
  newest := hw.newest
  nonempty := hw.nonempty

/-- **Every command is answered in its turn.** A channel that `ach_create` made, whose frames the
size field has room for. After any steps of the program, of the other handles and of the signals in
any order, the answers are the frames that the contract promises to a handle that makes these calls,
in the order of the commands. -/
theorem subscribe_answers {cenv : CreateEnv} {name : List UInt8} {cnt size : ℕ} {anon : Bool}
    {shm : AchHeader} (hcreate : achCreate env.dbg cenv name cnt size anon = .ok (.ok shm))
    (hcnt : 2 ≤ cnt) (hwrap : NoWrap cnt size) (hsmall : cnt * size < 2 ^ 32) {fin : List UInt8}
    {as : List (Act H)} (hn : as.countP Act.isPut < 2 ^ 64 - 1) {w : World H}
    (hrun : (World.start env shm fin).run env as = some w) : Serves env fin w := by
  obtain ⟨rfl, hlen⟩ := achCreate_ok hcreate
  have hs := subInv_start env fin (tracked_created hwrap hlen)
  have hmul : wmul cnt size = cnt * size := wmul_eq (by unfold NoWrap at hwrap; omega)
  rw [hmul] at hs
  exact (run_inv hcnt hsmall as _ hs (by simpa [World.start, puts] using hn) hrun).serves

/-- A program whose handle is `true`. -/
def sampleEnv : SubEnv Bool := ⟨true, .x86, fun _ _ => 0, true, true, false, false⟩

/-- A first `poll`, when the channel is empty, then `next` and `last`, and no more commands. -/
def sampleWorld : Option (World Bool) :=
  (World.start sampleEnv (created 3 4) (ascii "pollnextlast")).run sampleEnv
    [.flush, .head false 4, .get [], .write 16 true,
      .other false (.put (some fun i => i.toUInt8) 3), .other false (.put (some fun _ => 7) 2),
      .head false 4, .get [], .write 19 true, .other false (.put (some fun _ => 8) 1),
      .head false 4, .get [], .write 17 true, .head false 4]

theorem subscribe_answers_sample : ∃ w, sampleWorld = some w ∧
    w.sub.answers = [⟨ascii "poll", 0, []⟩, ⟨ascii "next", 2, [0, 1, 2]⟩,
      ⟨ascii "last", 3, [8]⟩] ∧
    w.sub.fout.length = 52 ∧ Serves sampleEnv (ascii "pollnextlast") w := by
  have hvals : sampleWorld.map (fun w => (w.sub.answers, w.sub.fout.length)) =
      some ([⟨ascii "poll", 0, []⟩, ⟨ascii "next", 2, [0, 1, 2]⟩, ⟨ascii "last", 3, [8]⟩], 52) := by
    decide +kernel
  obtain ⟨w, hw, heq⟩ := Option.map_eq_some_iff.mp hvals
  obtain ⟨hans, hlen⟩ := Prod.mk.inj heq
  refine ⟨w, hw, hans, hlen, subscribe_answers sampleEnv
    (show achCreate true CreateEnv.allOk [97] 3 4 false = .ok (.ok (created 3 4)) by decide)
    (by decide) (by decide) (by decide) (by decide) hw⟩

end Ach.Pipe.Subscribe
