import Ach.Channel.Get
import Ach.Daemon.Pipe
import Mathlib.Data.List.Forall2

/-! # `achd_push_tcp`

The sending side: take a frame from the channel (`get_frame`), write it to the connection, and, if
that fails, connect anew and write it again (`achd_reconnect`). The three loops are one machine. A
step is one pass of the innermost loop that runs: one `ach_get`, one `achd_write`, or one attempt to
connect. What the channel gives, what the system calls do and how an attempt goes come from outside,
as the event of the step. The state records all connections with what was written to them, and the
frames taken. -/

namespace Ach.Daemon.Push

open Ach.Channel.Types Ach.Channel.Get
open Ach.Daemon.Io Ach.Daemon.Pipe

/-- What the transports use of `struct achd_conn`: the frame buffer, and how much data it holds. -/
structure AchdConn where
  pipeframe : PipeFrame
  pipeframeSize : ℕ

/-- A new buffer. -/
def AchdConn.alloc (fresh : ℕ → ℕ → UInt8) (size : ℕ) : AchdConn := ⟨achPipeAlloc fresh size, size⟩

/-! ### `get_frame` -/

/-- What `ach_get` can give for a buffer of the given size. -/
def Possible (size : ℕ) (res : GetResult) : Prop :=
  match res.status with
  | .ok | .missedFrame => res.frameSize = some res.bytes.length ∧ res.bytes.length ≤ size
  | .overflow => res.bytes = [] ∧ size < res.frameSize.getD 0
  | _ => res.bytes = []

instance (size : ℕ) (res : GetResult) : Decidable (Possible size res) := by
  unfold Possible
  split <;> infer_instance

/-- One pass of the loop of `get_frame`: the buffer, and whether a frame was taken. The assert of
the first case is part of `Possible`. -/
def getFrame (fresh : ℕ → ℕ → UInt8) (conn : AchdConn) (res : GetResult) : AchdConn × Bool :=
  let frameSize := res.frameSize.getD 0
  let conn := { conn with pipeframe := conn.pipeframe.storeData res.bytes }
  match res.status with
  | .overflow => (.alloc fresh frameSize, false)
  | .ok | .missedFrame =>
    ({ conn with pipeframe := achPipeSetSize conn.pipeframe frameSize }, true)
  | _ => (conn, false)

/-! ### The machine -/

/-- A connection: what was written of the request, what was written after it, and whether the last
`achd_write` on it failed. -/
structure Link where
  request : List UInt8
  sent : List UInt8
  broken : Bool

/-- Where the daemon is. -/
inductive Phase where
  /-- In the loop of `get_frame`. -/
  | getFrame
  /-- About to write the frame. -/
  | write
  /-- In the loop of `achd_reconnect`. -/
  | reconnect
  /-- `achd_push_tcp` has returned. -/
  | returned
  /-- The process has ended with an error. -/
  | exited
  /-- In the empty loop of `achd_write`. -/
  | spinning
  deriving DecidableEq

/-- The daemon: the buffer, the connections in their order, the last of them the current one, and
the frames taken from the channel. -/
structure PushSt where
  conn : AchdConn
  phase : Phase
  earlier : List Link
  link : Link
  taken : List (List UInt8)

/-- How an attempt to connect goes: there is no connection, or there is one, on which the request is
written with the given calls and the server then accepts it or not. -/
inductive Attempt where
  | noSocket
  | socket (calls : List Sys) (accepted : Bool)

/-- What comes from outside in a step, and whether the termination signal has come after it. -/
inductive PushEvent where
  | get (res : GetResult) (sig : Bool)
  | write (calls : List Sys)
  | attempt (a : Attempt) (sig : Bool)

/-- What is fixed while the daemon runs: the shift, the contents of new memory, the request of
`server_connect`, and `cx.reconnect`. -/
structure PushEnv where
  wide : WideShift
  fresh : ℕ → ℕ → UInt8
  request : List UInt8
  reconnect : Bool

variable (env : PushEnv)

/-- The body of the inner loop of `achd_push_tcp`. -/
def PushSt.writeFrame (st : PushSt) (calls : List Sys) : PushSt :=
  let cnt := achPipeGetSize env.wide st.conn.pipeframe
  let e := achdWrite false calls (st.conn.pipeframe.memory cnt)
  let sent := st.link.sent ++ e.written
  match e.ret with
  | none => { st with link := { st.link with sent := sent }, phase := .spinning }
  | some r =>
    if r < 0 ∨ r.toNat ≠ 16 + cnt then
      { st with
        link := { st.link with sent := sent, broken := true }
        phase := if env.reconnect = true ∧ e.sig = false then .reconnect else .returned }
    else
      { st with
        link := { st.link with sent := sent }
        phase := if e.sig then .returned else .getFrame }

/-- One pass of the loop of `achd_reconnect`. -/
def PushSt.attempt (st : PushSt) (a : Attempt) (sig : Bool) : PushSt :=
  match a with
  | .noSocket => { st with phase := if sig then .returned else .reconnect }
  | .socket calls accepted =>
    let e := achdWrite false calls env.request
    let failed := decide (e.ret ≠ some (env.request.length : ℤ))
    { st with
      earlier := st.earlier ++ [st.link]
      link := ⟨e.written, [], failed⟩
      phase :=
        if e.ret = none then .spinning
        else if failed then (if e.sig || sig then .returned else .reconnect)
        else if accepted then (if e.sig || sig then .returned else .write)
        else .exited }

/-- **One step of the daemon.** -/
def PushSt.next (st : PushSt) : PushEvent → Option PushSt
  | .get res sig =>
    if st.phase = .getFrame ∧ Possible st.conn.pipeframeSize res then
      let g := getFrame env.fresh st.conn res
      some { st with
        conn := g.1
        taken := if g.2 then st.taken ++ [res.bytes] else st.taken
        phase := if sig then .returned else if g.2 then .write else .getFrame }
    else none
  | .write calls => if st.phase = .write then some (st.writeFrame env calls) else none
  | .attempt a sig => if st.phase = .reconnect then some (st.attempt env a sig) else none

/-- The steps one after the other. -/
def push : List PushEvent → PushSt → Option PushSt
  | [], st => some st
  | e :: es, st => (st.next env e).bind (push es)

/-- `achd_push_tcp` is called on a connection over which the request has been sent. -/
def PushSt.start (size : ℕ) : PushSt :=
  ⟨.alloc env.fresh size, .getFrame, [], ⟨env.request, [], false⟩, []⟩

/-! ### Events -/

/-- No termination signal. -/
def PushEvent.Quiet : PushEvent → Prop
  | .get _ sig => sig = false
  | .write calls => NoSignal calls
  | .attempt .noSocket sig => sig = false
  | .attempt (.socket calls _) sig => NoSignal calls ∧ sig = false

/-- No termination signal, and no write fails. -/
def PushEvent.Smooth : PushEvent → Prop
  | .write calls => Io.Smooth calls
  | e => e.Quiet

/-- A frame delivered is less than `2 ^ 32` bytes long. -/
def PushEvent.Short : PushEvent → Prop
  | .get res _ => res.bytes.length < 2 ^ 32
  | _ => True

theorem PushEvent.Smooth.quiet {e : PushEvent} (h : e.Smooth) : e.Quiet := by
  cases e with
  | get res sig => exact h
  | write calls => exact Io.Smooth.noSignal h
  | attempt a sig => exact h

/-! ### The invariant -/

/-- The buffer holds the frame, ready to be written. -/
structure Staged (conn : AchdConn) (f : List UInt8) : Prop where
  magic : conn.pipeframe.magic = achpipe
  sizeBytes : conn.pipeframe.sizeBytes = sizeByte f.length
  data : (List.range f.length).map conn.pipeframe.data = f

/-- What is on a connection: whole frames, and after them, only if its last write failed, a proper
prefix of a frame. -/
def LinkHolds (taken : List (List UInt8)) (link : Link) (frames : List (List UInt8)) : Prop :=
  ∃ rest, link.sent = frames.flatMap wire ++ rest ∧
    (rest ≠ [] → link.broken = true ∧ ∃ f ∈ taken, rest <+: wire f ∧ rest.length < (wire f).length)

/-- Where the frame taken last is, and what is on the current connection, in each phase; `fs` are
the whole frames on earlier connections, `cur` those on the current one. -/
def Stage (st : PushSt) (fs cur : List (List UInt8)) : Prop :=
  match st.phase with
  | .getFrame => st.taken = fs ++ cur ∧ st.link.sent = cur.flatMap wire
  | .write => ∃ f, st.taken = fs ++ cur ++ [f] ∧ st.link.sent = cur.flatMap wire ∧
      Staged st.conn f ∧ f.length < 2 ^ 32
  | .reconnect => ∃ f, st.taken = fs ++ cur ++ [f] ∧ Staged st.conn f ∧ f.length < 2 ^ 32
  | .returned | .exited => ∃ f, st.taken = fs ++ cur ++ [f]
  | .spinning => False

/-- **The invariant of the daemon.** -/
structure PushInv (st : PushSt) (frames : List (List (List UInt8))) (cur : List (List UInt8)) :
    Prop where
  magic : st.conn.pipeframe.magic = achpipe
  earlier : List.Forall₂ (LinkHolds st.taken) st.earlier frames
  link : LinkHolds st.taken st.link cur
  stage : Stage st frames.flatten cur

theorem Staged.memory {conn : AchdConn} {f : List UInt8} (h : Staged conn f)
    (hf : f.length < 2 ^ 32) :
    achPipeGetSize env.wide conn.pipeframe = f.length ∧
      conn.pipeframe.memory f.length = wire f := by
  refine ⟨getSize_of_sizeBytes env.wide hf h.sizeBytes, ?_⟩
  rw [PipeFrame.memory, h.magic, h.sizeBytes, h.data]
  rfl

theorem LinkHolds.mono {taken taken' : List (List UInt8)} {link : Link} {frames : List (List UInt8)}
    (h : LinkHolds taken link frames) (hsub : taken ⊆ taken') : LinkHolds taken' link frames := by
  obtain ⟨rest, hsent, hrest⟩ := h
  refine ⟨rest, hsent, fun hne => ?_⟩
  obtain ⟨hb, f, hf, hp⟩ := hrest hne
  exact ⟨hb, f, hsub hf, hp⟩

theorem linkHolds_of_sent {taken : List (List UInt8)} {link : Link} {frames : List (List UInt8)}
    (h : link.sent = frames.flatMap wire) : LinkHolds taken link frames :=
  ⟨[], by simp [h], fun hne => absurd rfl hne⟩

/-- What a pass of `get_frame` leaves in the buffer. -/
theorem getFrame_cases {fresh : ℕ → ℕ → UInt8} {conn : AchdConn} {res : GetResult}
    (hp : Possible conn.pipeframeSize res) (hm : conn.pipeframe.magic = achpipe) :
    (getFrame fresh conn res).1.pipeframe.magic = achpipe ∧
      ((getFrame fresh conn res).2 = true → Staged (getFrame fresh conn res).1 res.bytes) := by
  have hkeep : (conn.pipeframe.storeData res.bytes).magic = achpipe := hm
  have hdone : res.frameSize = some res.bytes.length →
      Staged ⟨achPipeSetSize (conn.pipeframe.storeData res.bytes) (res.frameSize.getD 0),
        conn.pipeframeSize⟩ res.bytes := by
    intro hn
    rw [hn]
    exact ⟨hm, rfl, map_range_storeData conn.pipeframe res.bytes⟩
  unfold Possible at hp
  unfold getFrame
  cases hs : res.status <;> simp only [hs] at hp ⊢
  case ok => exact ⟨hkeep, fun _ => hdone hp.1⟩
  case missedFrame => exact ⟨hkeep, fun _ => hdone hp.1⟩
  case overflow => exact ⟨rfl, by simp⟩
  all_goals exact ⟨hkeep, by simp⟩

section
variable {env} {st st' : PushSt} {frames : List (List (List UInt8))} {cur : List (List UInt8)}

theorem PushInv.get {res : GetResult} (h : PushInv st frames cur)
    (hshort : res.bytes.length < 2 ^ 32)
    (hs : st.next env (.get res false) = some st') : PushInv st' frames cur := by
  obtain ⟨⟨hph, hp⟩, hs⟩ := Option.ite_none_right_eq_some.mp hs
  obtain rfl := Option.some.inj hs
  obtain ⟨htaken, hsent⟩ : st.taken = frames.flatten ++ cur ∧ st.link.sent = cur.flatMap wire := by
    simpa [Stage, hph] using h.stage
  obtain ⟨hm, hst⟩ := getFrame_cases hp h.magic
  have hsub : st.taken ⊆ if (getFrame env.fresh st.conn res).2 then st.taken ++ [res.bytes]
      else st.taken := by split_ifs <;> simp
  refine ⟨hm, h.earlier.imp fun _ _ hl => hl.mono hsub, linkHolds_of_sent hsent, ?_⟩
  cases hd : (getFrame env.fresh st.conn res).2 with
  | true => exact ⟨res.bytes, by simp [htaken], hsent, hst hd, hshort⟩
  | false => exact ⟨htaken, hsent⟩

theorem PushInv.write {calls : List Sys} (h : PushInv st frames cur) (hq : NoSignal calls)
    (hs : st.next env (.write calls) = some st') : ∃ cur', PushInv st' frames cur' := by
  obtain ⟨hph, hs⟩ := Option.ite_none_right_eq_some.mp hs
  obtain rfl := Option.some.inj hs
  obtain ⟨f, htaken, hsent, hst, hf⟩ : ∃ f, st.taken = frames.flatten ++ cur ++ [f] ∧
      st.link.sent = cur.flatMap wire ∧ Staged st.conn f ∧ f.length < 2 ^ 32 := by
    simpa [Stage, hph] using h.stage
  obtain ⟨hsize, hmem⟩ := hst.memory env hf
  rcases achdWrite_spec calls (wire f) hq with ⟨hw, hret, hsig⟩ | ⟨-, hw, hlt, hret, hsig⟩
  · -- the frame is on the connection
    refine ⟨cur ++ [f], ?_⟩
    have hsent' : st.link.sent ++ wire f = (cur ++ [f]).flatMap wire := by simp [hsent]
    simp only [PushSt.writeFrame, hsize, hmem, hret, hw, hsig, length_wire]
    rw [if_neg (by omega)]
    exact ⟨h.magic, h.earlier, linkHolds_of_sent hsent', by simp [Stage, htaken, hsent']⟩
  · -- a part of it is, and it is still in the buffer
    refine ⟨cur, ?_⟩
    simp only [PushSt.writeFrame, hsize, hmem, hret, hsig]
    rw [if_pos (by omega)]
    refine ⟨h.magic, h.earlier, ⟨_, by rw [hsent], fun _ => ⟨rfl, f, by simp [htaken], hw, hlt⟩⟩,
      ?_⟩
    cases hr : env.reconnect with
    | true => simpa [Stage] using ⟨f, by simpa using htaken, hst, hf⟩
    | false => simpa [Stage] using ⟨f, by simpa using htaken⟩

theorem PushInv.attempt {a : Attempt} (h : PushInv st frames cur)
    (hq : (PushEvent.attempt a false).Quiet) (hs : st.next env (.attempt a false) = some st') :
    ∃ frames' cur', PushInv st' frames' cur' := by
  obtain ⟨hph, hs⟩ := Option.ite_none_right_eq_some.mp hs
  obtain rfl := Option.some.inj hs
  obtain ⟨f, htaken, hst, hf⟩ : ∃ f, st.taken = frames.flatten ++ cur ++ [f] ∧ Staged st.conn f ∧
      f.length < 2 ^ 32 := by
    simpa [Stage, hph] using h.stage
  cases a with
  | noSocket =>
    exact ⟨frames, cur, h.magic, h.earlier, h.link, ⟨f, htaken, hst, hf⟩⟩
  | socket calls accepted =>
    refine ⟨frames ++ [cur], [], h.magic, ?_, linkHolds_of_sent rfl, ?_⟩
    · exact List.rel_append h.earlier (.cons h.link .nil)
    · rcases achdWrite_spec calls env.request hq.1 with ⟨-, hret, hsig⟩ | ⟨-, -, -, hret, hsig⟩
      · cases accepted
        · simpa [Stage, PushSt.attempt, hret, hsig] using ⟨f, by simpa using htaken⟩
        · simpa [Stage, PushSt.attempt, hret, hsig] using ⟨f, by simpa using htaken, hst, hf⟩
      · have hne : (-1 : ℤ) ≠ env.request.length := by omega
        simpa [Stage, PushSt.attempt, hret, hsig, hne] using ⟨f, by simpa using htaken, hst, hf⟩

/-- **The step lemma.** -/
theorem PushInv.next {e : PushEvent} (h : PushInv st frames cur) (hq : e.Quiet) (hshort : e.Short)
    (hs : st.next env e = some st') : ∃ frames' cur', PushInv st' frames' cur' := by
  cases e with
  | get res sig =>
    obtain rfl : sig = false := hq
    exact ⟨frames, cur, h.get hshort hs⟩
  | write calls =>
    obtain ⟨cur', h'⟩ := h.write hq hs
    exact ⟨frames, cur', h'⟩
  | attempt a sig =>
    obtain rfl : sig = false := by cases a with
      | noSocket => exact hq
      | socket calls accepted => exact hq.2
    exact h.attempt hq hs

end

theorem pushInv_start (size : ℕ) : PushInv (PushSt.start env size) [] [] :=
  ⟨rfl, .nil, linkHolds_of_sent rfl, ⟨rfl, rfl⟩⟩

/-- **The run lemma.** -/
theorem push_inv : ∀ (es : List PushEvent) (st st' : PushSt) (frames : List (List (List UInt8)))
    (cur : List (List UInt8)), PushInv st frames cur → (∀ e ∈ es, e.Quiet) → (∀ e ∈ es, e.Short) →
    push env es st = some st' → ∃ frames' cur', PushInv st' frames' cur' := by
  intro es
  induction es with
  | nil =>
    intro st st' frames cur h _ _ hrun
    obtain rfl := Option.some.inj hrun
    exact ⟨frames, cur, h⟩
  | cons e es ih =>
    intro st st' frames cur h hq hshort hrun
    obtain ⟨st₁, hst₁, hrun⟩ := Option.bind_eq_some_iff.mp hrun
    obtain ⟨frames₁, cur₁, h₁⟩ := h.next (hq e List.mem_cons_self) (hshort e List.mem_cons_self)
      hst₁
    exact ih st₁ st' frames₁ cur₁ h₁ (fun d hd => hq d (List.mem_cons_of_mem e hd))
      (fun d hd => hshort d (List.mem_cons_of_mem e hd)) hrun

/-! ### Runs without a failing write -/

section
variable {env} {st st' : PushSt}

/-- Only frames are taken, and every frame delivered is. -/
theorem taken_next {e : PushEvent} (hs : st.next env e = some st') :
    st.taken ⊆ st'.taken ∧ ((∀ f ∈ st'.taken, f.length < 2 ^ 32) → e.Short) := by
  cases e with
  | get res sig =>
    obtain ⟨⟨-, hp⟩, hs⟩ := Option.ite_none_right_eq_some.mp hs
    obtain rfl := Option.some.inj hs
    refine ⟨by simp only; split_ifs <;> simp, fun hsmall => ?_⟩
    unfold Possible at hp
    unfold getFrame at hsmall
    cases hst : res.status <;> simp only [hst] at hp hsmall
    case ok => exact hsmall res.bytes (by simp)
    case missedFrame => exact hsmall res.bytes (by simp)
    case overflow => simp [PushEvent.Short, hp.1]
    all_goals simp [PushEvent.Short, hp]
  | write calls =>
    obtain ⟨-, hs⟩ := Option.ite_none_right_eq_some.mp hs
    obtain rfl := Option.some.inj hs
    refine ⟨?_, fun _ => trivial⟩
    simp only [PushSt.writeFrame]
    split
    · simp
    · split_ifs <;> simp
  | attempt a sig =>
    obtain ⟨-, hs⟩ := Option.ite_none_right_eq_some.mp hs
    obtain rfl := Option.some.inj hs
    exact ⟨by cases a <;> simp [PushSt.attempt], fun _ => trivial⟩

/-- If the frames taken are short, no event of the run delivers a long one. -/
theorem taken_push : ∀ (es : List PushEvent) (st st' : PushSt), push env es st = some st' →
    st.taken ⊆ st'.taken ∧ ((∀ f ∈ st'.taken, f.length < 2 ^ 32) → ∀ e ∈ es, e.Short) := by
  intro es
  induction es with
  | nil =>
    intro st st' hrun
    obtain rfl := Option.some.inj hrun
    exact ⟨List.Subset.refl _, by simp⟩
  | cons e es ih =>
    intro st st' hrun
    obtain ⟨st₁, hst₁, hrun⟩ := Option.bind_eq_some_iff.mp hrun
    obtain ⟨hsub, hshort⟩ := taken_next hst₁
    obtain ⟨hsub', hshort'⟩ := ih st₁ st' hrun
    refine ⟨List.Subset.trans hsub hsub', fun hsmall d hd => ?_⟩
    rcases List.mem_cons.mp hd with rfl | hd
    · exact hshort fun f hf => hsmall f (hsub' hf)
    · exact hshort' hsmall d hd

/-- The first connection is in use. -/
def Steady (st : PushSt) : Prop :=
  (st.phase = .getFrame ∨ st.phase = .write) ∧ st.earlier = []

/-- A write that does not fail ends in the loop of `get_frame`. -/
theorem writeFrame_smooth (st : PushSt) {calls : List Sys} (hc : Io.Smooth calls) :
    st.writeFrame env calls = { st with
      link := { st.link with
        sent := st.link.sent ++
          st.conn.pipeframe.memory (achPipeGetSize env.wide st.conn.pipeframe) }
      phase := .getFrame } := by
  set cnt := achPipeGetSize env.wide st.conn.pipeframe with hcnt
  obtain ⟨hw, hret, hsig⟩ := achdWrite_smooth calls (st.conn.pipeframe.memory cnt) hc
  simp only [PushSt.writeFrame, ← hcnt, hw, hret, hsig, PipeFrame.length_memory]
  rw [if_neg (by omega)]
  rfl

theorem Steady.next {e : PushEvent} (h : Steady st) (he : e.Smooth)
    (hs : st.next env e = some st') : Steady st' := by
  cases e with
  | get res sig =>
    obtain rfl : sig = false := he
    obtain ⟨-, hs⟩ := Option.ite_none_right_eq_some.mp hs
    obtain rfl := Option.some.inj hs
    refine ⟨?_, h.2⟩
    simp only [Bool.false_eq_true, if_false]
    split_ifs
    · exact Or.inr rfl
    · exact Or.inl rfl
  | write calls =>
    obtain ⟨-, hs⟩ := Option.ite_none_right_eq_some.mp hs
    obtain rfl := Option.some.inj hs
    rw [writeFrame_smooth st he]
    exact ⟨Or.inl rfl, h.2⟩
  | attempt a sig =>
    obtain ⟨hph, -⟩ := Option.ite_none_right_eq_some.mp hs
    rcases h.1 with h' | h' <;> simp [hph] at h'

theorem push_steady : ∀ (es : List PushEvent) (st st' : PushSt), Steady st → (∀ e ∈ es, e.Smooth) →
    push env es st = some st' → Steady st' := by
  intro es
  induction es with
  | nil =>
    intro st st' h _ hrun
    obtain rfl := Option.some.inj hrun
    exact h
  | cons e es ih =>
    intro st st' h he hrun
    obtain ⟨st₁, hst₁, hrun⟩ := Option.bind_eq_some_iff.mp hrun
    exact ih st₁ st' (h.next (he e List.mem_cons_self) hst₁)
      (fun d hd => he d (List.mem_cons_of_mem e hd)) hrun

end

/-- **What `achd_push_tcp` writes** when no write fails: the frames taken, one after the other. -/
theorem push_sent {size : ℕ} {es : List PushEvent} {st : PushSt} (hs : ∀ e ∈ es, e.Smooth)
    (hrun : push env es (PushSt.start env size) = some st)
    (hsmall : ∀ f ∈ st.taken, f.length < 2 ^ 32) (hph : st.phase = .getFrame) :
    st.link.sent = st.taken.flatMap wire := by
  obtain ⟨-, hshort⟩ := taken_push es _ st hrun
  obtain ⟨frames, cur, h⟩ := push_inv env es _ st [] [] (pushInv_start env size)
    (fun e he => (hs e he).quiet) (hshort hsmall) hrun
  obtain ⟨-, hearlier⟩ := push_steady es _ st ⟨Or.inl rfl, rfl⟩ hs hrun
  have hframes : frames = [] := by
    have := h.earlier
    rw [hearlier, List.forall₂_nil_left_iff] at this
    exact this
  have hstage := h.stage
  unfold Stage at hstage
  simp only [hph, hframes, List.flatten_nil, List.nil_append] at hstage
  rw [hstage.1, hstage.2]

/-- The events of a run that sends the given frames: a frame larger than the buffer overflows it
first. -/
def eventsOf (size : ℕ) : List (List UInt8 × List Sys) → List PushEvent
  | [] => []
  | (f, calls) :: fs =>
    (if size < f.length then [.get ⟨.overflow, [], some f.length⟩ false] else []) ++
      .get ⟨.ok, f, some f.length⟩ false :: .write calls :: eventsOf (max size f.length) fs

theorem push_append : ∀ (es es' : List PushEvent) (st : PushSt),
    push env (es ++ es') st = (push env es st).bind (push env es') := by
  intro es
  induction es with
  | nil =>
    intro _ _
    rfl
  | cons e es ih =>
    intro es' st
    simp only [List.cons_append, push]
    cases st.next env e with
    | none => rfl
    | some st₁ => exact ih es' st₁

/-- **Any list of frames can be sent**, with any short counts and interruptions. -/
theorem push_eventsOf : ∀ (fs : List (List UInt8 × List Sys)) (st : PushSt), st.phase = .getFrame →
    (∀ p ∈ fs, Io.Smooth p.2) → ∃ st', push env (eventsOf st.conn.pipeframeSize fs) st = some st' ∧
      st'.phase = .getFrame ∧ st'.taken = st.taken ++ fs.map Prod.fst := by
  intro fs
  induction fs with
  | nil =>
    intro st hph _
    exact ⟨st, rfl, hph, by simp⟩
  | cons p fs ih =>
    intro st hph hs
    obtain ⟨f, calls⟩ := p
    have hgrow : ∃ st₁, push env (if st.conn.pipeframeSize < f.length then
        [.get ⟨.overflow, [], some f.length⟩ false] else []) st = some st₁ ∧ st₁.phase = .getFrame ∧
        st₁.taken = st.taken ∧ st₁.conn.pipeframeSize = max st.conn.pipeframeSize f.length := by
      split_ifs with hbig
      · have hp : Possible st.conn.pipeframeSize ⟨.overflow, [], some f.length⟩ := ⟨rfl, hbig⟩
        refine ⟨{ st with conn := .alloc env.fresh f.length, phase := .getFrame }, ?_, rfl, rfl,
          (max_eq_right hbig.le).symm⟩
        rw [push, PushSt.next, if_pos ⟨hph, hp⟩]
        rfl
      · exact ⟨st, rfl, hph, rfl, (max_eq_left (by omega)).symm⟩
    obtain ⟨st₁, hrun₁, hph₁, htaken₁, hsize₁⟩ := hgrow
    have hp : Possible st₁.conn.pipeframeSize ⟨.ok, f, some f.length⟩ :=
      ⟨rfl, by rw [hsize₁]; exact le_max_right _ _⟩
    have hget : st₁.next env (.get ⟨.ok, f, some f.length⟩ false) = some { st₁ with
        conn := (getFrame env.fresh st₁.conn ⟨.ok, f, some f.length⟩).1
        taken := st₁.taken ++ [f]
        phase := .write } := by
      rw [PushSt.next, if_pos ⟨hph₁, hp⟩]
      rfl
    obtain ⟨st', hrun', hph', htaken'⟩ := ih (PushSt.writeFrame env { st₁ with
        conn := (getFrame env.fresh st₁.conn ⟨.ok, f, some f.length⟩).1
        taken := st₁.taken ++ [f]
        phase := .write } calls) (by rw [writeFrame_smooth _ (hs _ List.mem_cons_self)])
      fun p hp => hs p (List.mem_cons_of_mem _ hp)
    rw [writeFrame_smooth _ (hs _ List.mem_cons_self)] at hrun' htaken'
    refine ⟨st', ?_, hph', by simp [htaken', htaken₁]⟩
    rw [eventsOf, push_append, hrun₁, Option.bind_some, push, hget, Option.bind_some, push,
      PushSt.next, if_pos rfl, Option.bind_some, writeFrame_smooth _ (hs _ List.mem_cons_self),
      ← hsize₁]
    exact hrun'

end Ach.Daemon.Push
