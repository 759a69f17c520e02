import Ach.Channel.GetSpec
import Ach.Daemon.Push

/-! # A pushing client that reconnects

With `cx.reconnect` set a frame whose write fails is written again, whole, on the next connection.
So, over all connections, the frames written whole are the frames taken from the channel, each once
and in order; and a connection ends with a part of a frame only where the write failed
(`push_exactly_once`). The frame is in the buffer while the daemon reconnects, and nothing else is.

This needs frames shorter than `2 ^ 32` bytes. Of a longer frame `ach_pipe_get_size` does not give
the size, and the daemon takes what it has written for the whole frame (`push_cuts_long_frame`). -/

namespace Ach.Daemon.Reconnect

open Ach.Lib.Run
open Ach.Channel.Types Ach.Channel.Get Ach.Channel.Invariant Ach.Channel.PutSpec Ach.Channel.GetSpec
open Ach.Daemon.Io Ach.Daemon.Pipe Ach.Daemon.Push

/-- What `ach_get` gives on a clean channel is one of the results the daemon is prepared for. -/
theorem achGet_possible (dbg : Bool) {hist : List (List UInt8)} {kept : ℕ} {shm shm' : AchHeader}
    {chan chan' : AchChannel} {size : ℕ} {abstime : Bool} {opts : AchGetOpts} {ws : List WaitEnd}
    {res : GetResult} (h : Inv hist kept shm) (hc : Clean shm) (hmap : chan.mapped = true)
    (hcur : Cursor hist.length shm.indexCnt chan)
    (hnext : opts.last = true ∨ chan.nextIndex < shm.indexCnt) (hseq : hist.length + 1 < 2 ^ 64)
    (hout : out (achGet chan size abstime opts (ws.map WaitEnd.event)) dbg shm =
      .ok ((res, chan'), shm')) : Possible size res := by
  rcases achGet_spec dbg size abstime opts ws h hc hmap hcur hnext hseq with
    hb | ⟨res', chan'', hout', hres⟩
  · rw [hb] at hout
    simp at hout
  · rw [hout'] at hout
    simp only [Outcome.ok.injEq, Prod.mk.injEq] at hout
    obtain ⟨⟨rfl, rfl⟩, rfl⟩ := hout
    unfold Possible
    rcases hres with hr | hd
    · have hne := hr.status
      split
      · rename_i hs; exact absurd hs hne.1
      · rename_i hs; exact absurd hs hne.2
      · rename_i hs; exact ⟨hr.bytes, hr.overflow hs⟩
      · exact hr.bytes
    · have hst := hd.status
      have hgood : res'.frameSize = some res'.bytes.length ∧ res'.bytes.length ≤ size :=
        ⟨hd.frameSize, hd.fits⟩
      split_ifs at hst <;> rw [hst] <;> exact hgood

/-- The connections, in their order, hold whole frames and at most one proper prefix of a frame
each, after a write that failed; the whole frames are the frames taken, but for one that is not
written yet. -/
def ExactlyOnce (st : PushSt) : Prop :=
  ∃ frames : List (List (List UInt8)),
    List.Forall₂ (LinkHolds st.taken) (st.earlier ++ [st.link]) frames ∧
      (st.taken = frames.flatten ∨
        st.phase ≠ .getFrame ∧ ∃ f, st.taken = frames.flatten ++ [f])

theorem exactlyOnce_of_inv {st : PushSt} {frames : List (List (List UInt8))}
    {cur : List (List UInt8)} (h : PushInv st frames cur) : ExactlyOnce st := by
  refine ⟨frames ++ [cur], List.rel_append h.earlier (.cons h.link .nil), ?_⟩
  have hflat : (frames ++ [cur]).flatten = frames.flatten ++ cur := by simp
  rw [hflat]
  have hs := h.stage
  unfold Stage at hs
  cases hp : st.phase <;> simp only [hp] at hs
  case getFrame => exact Or.inl hs.1
  case write => obtain ⟨f, hf, -⟩ := hs; exact Or.inr ⟨by simp, f, hf⟩
  case reconnect => obtain ⟨f, hf, -⟩ := hs; exact Or.inr ⟨by simp, f, hf⟩
  case returned => exact Or.inr ⟨by simp, hs⟩
  case exited => exact Or.inr ⟨by simp, hs⟩

/-- **A client that reconnects loses and repeats nothing it wrote**, whatever its writes and its
attempts to connect do, as long as no frame has `2 ^ 32` bytes or more and no termination signal
comes. -/
theorem push_exactly_once (env : PushEnv) (size : ℕ) {es : List PushEvent} {st : PushSt}
    (hq : ∀ e ∈ es, e.Quiet) (hshort : ∀ e ∈ es, e.Short)
    (hrun : push env es (PushSt.start env size) = some st) : ExactlyOnce st := by
  obtain ⟨frames, cur, h⟩ := push_inv env es _ st [] [] (pushInv_start env size) hq hshort hrun
  exact exactlyOnce_of_inv h

/-- A client with an empty request. -/
def sampleEnv : PushEnv := ⟨.x86, fun _ _ => 0, [], true⟩

/-- The buffer is too small, then a frame is taken; its write fails after 18 bytes, the first
attempt to connect fails too, and the frame is written on the second connection. -/
def sampleEvents : List PushEvent :=
  [.get ⟨.overflow, [], some 3⟩ false, .get ⟨.ok, [1, 2, 3], some 3⟩ false,
    .write [⟨.upTo 9, false⟩, ⟨.eintr, false⟩, ⟨.upTo 7, false⟩, ⟨.fail, false⟩],
    .attempt .noSocket false, .attempt (.socket [] true) false, .write [⟨.upTo 0, false⟩]]

theorem push_exactly_once_sample : ∃ st,
    push sampleEnv sampleEvents (PushSt.start sampleEnv 2) = some st ∧
      st.earlier.map (·.sent) = [(wire [1, 2, 3]).take 18] ∧ st.link.sent = wire [1, 2, 3] ∧
      ExactlyOnce st := by
  obtain ⟨st, hst⟩ : ∃ st, push sampleEnv sampleEvents (PushSt.start sampleEnv 2) = some st :=
    Option.isSome_iff_exists.mp (by decide +kernel)
  have hsent : st.earlier.map (·.sent) = [(wire [1, 2, 3]).take 18] ∧
      st.link.sent = wire [1, 2, 3] := by
    have : (push sampleEnv sampleEvents (PushSt.start sampleEnv 2)).map
        (fun st => (st.earlier.map (·.sent), st.link.sent)) =
        some ([(wire [1, 2, 3]).take 18], wire [1, 2, 3]) := by decide +kernel
    rw [hst] at this
    simpa using this
  refine ⟨st, hst, hsent.1, hsent.2, push_exactly_once sampleEnv 2 ?_ ?_ hst⟩
  · simp [sampleEvents, PushEvent.Quiet, NoSignal]
  · simp [sampleEvents, PushEvent.Short]

/-! ### Long frames -/

/-- A frame of `2 ^ 32` bytes. -/
def longFrame : List UInt8 := List.replicate (2 ^ 32) 0

theorem length_longFrame : longFrame.length = 2 ^ 32 := List.length_replicate

/-- The frame is taken and its write returns the count. -/
def longEvents : List PushEvent := [.get ⟨.ok, longFrame, some (2 ^ 32)⟩ false, .write []]

/-- **A long frame is cut** and taken for sent: not all of it is on the connection, and the daemon
goes on to the next one. -/
theorem push_cuts_long_frame : (∀ e ∈ longEvents, e.Quiet) ∧
    ∃ st, push sampleEnv longEvents (PushSt.start sampleEnv (2 ^ 32)) = some st ∧
      ¬ ExactlyOnce st := by
  refine ⟨by simp [longEvents, PushEvent.Quiet, NoSignal], ?_⟩
  set st₀ := PushSt.start sampleEnv (2 ^ 32) with hst₀
  have hp : Possible st₀.conn.pipeframeSize ⟨.ok, longFrame, some (2 ^ 32)⟩ :=
    ⟨by rw [length_longFrame], by rw [length_longFrame]; exact le_rfl⟩
  set st₁ : PushSt := { st₀ with
    conn := (getFrame sampleEnv.fresh st₀.conn ⟨.ok, longFrame, some (2 ^ 32)⟩).1
    taken := [longFrame]
    phase := .write } with hst₁
  have hget : st₀.next sampleEnv (.get ⟨.ok, longFrame, some (2 ^ 32)⟩ false) = some st₁ := by
    simp only [PushSt.next]
    rw [if_pos ⟨rfl, hp⟩]
    rfl
  set cnt := achPipeGetSize sampleEnv.wide st₁.conn.pipeframe with hcnt
  have hlt : cnt < 2 ^ 32 := getSize_lt sampleEnv.wide st₁.conn.pipeframe
  have hmem : (st₁.conn.pipeframe.memory cnt).length = 16 + cnt := PipeFrame.length_memory _ cnt
  obtain ⟨hw, hret, hsig⟩ := achdWrite_smooth [] (st₁.conn.pipeframe.memory cnt) (by simp [Smooth])
  have hwrite : st₁.next sampleEnv (.write []) = some { st₁ with
      link := { st₁.link with sent := st₁.link.sent ++ st₁.conn.pipeframe.memory cnt }
      phase := .getFrame } := by
    simp only [PushSt.next, PushSt.writeFrame, ← hcnt, hw, hret, hsig, hmem]
    rw [if_pos rfl, if_neg (by omega)]
    rfl
  refine ⟨_, by rw [longEvents, push, hget, Option.bind_some, push, hwrite, Option.bind_some, push],
    ?_⟩
  rintro ⟨frames, hlinks, htaken | ⟨hne, -⟩⟩
  · -- all of the frame would have to be on the one connection
    obtain ⟨fs, rfl⟩ : ∃ fs, frames = [fs] := by
      have := hlinks.length_eq
      simp only [hst₁, hst₀, PushSt.start, List.nil_append, List.length_singleton] at this
      exact List.length_eq_one_iff.mp this.symm
    have hfs : fs = [longFrame] := by simpa using htaken.symm
    subst hfs
    have hl : LinkHolds [longFrame] ⟨st₁.link.request,
        st₁.link.sent ++ st₁.conn.pipeframe.memory cnt, st₁.link.broken⟩ [longFrame] := by
      simpa [hst₁, hst₀, PushSt.start] using hlinks
    obtain ⟨rest, hsent, -⟩ := hl
    have hlen := congrArg List.length hsent
    have h0 : st₁.link.sent = [] := rfl
    rw [h0, List.nil_append, hmem] at hlen
    simp only [List.flatMap_cons, List.flatMap_nil, List.append_nil, List.length_append,
      length_wire, length_longFrame] at hlen
    omega
  · exact hne rfl

end Ach.Daemon.Reconnect
