import Ach.Channel.History
import Ach.Daemon.Push
import Ach.Lib.Framing
import Ach.Lib.Loop

/-! # `achd_pull_tcp`

The receiving side: read a header, check it, enlarge the buffer if the frame does not fit, read the
data, and publish the frame with `ach_put`. What was written by `achd_push_tcp` and arrives in any
pieces is published frame by frame; a stream that is cut gives the frames before the cut
(`tcp_framing_lossless`). -/

namespace Ach.Daemon.Pull

open Ach.Lib.Run Ach.Lib.Loop Ach.Lib.Framing
open Ach.Channel.Types Ach.Channel.Put Ach.Channel.Create Ach.Channel.Invariant Ach.Channel.PutSpec
open Ach.Channel.History
open Ach.Daemon.Io Ach.Daemon.Pipe Ach.Daemon.Push

/-! ### The loop -/

/-- What is fixed while the daemon runs: whether asserts are compiled in, the shift, the contents of
new memory, the handle of the channel, and `cx.reconnect`. -/
structure PullEnv where
  dbg : Bool
  wide : WideShift
  fresh : ℕ → ℕ → UInt8
  chan : AchChannel
  reconnect : Bool

/-- The daemon: the buffer, the connection, the connections to come if it reconnects, the channel,
and the frames given to `ach_put`. -/
structure PullSt where
  conn : AchdConn
  fd : Fd
  later : List Fd
  shm : AchHeader
  puts : List (List UInt8)

/-- How the daemon ends. -/
inductive PullEnd where
  /-- `achd_pull_tcp` has returned. -/
  | returned (st : PullSt)
  /-- `ach_put` has failed: the process ends with an error. -/
  | error (r : AchStatus) (st : PullSt)
  /-- `ach_put` has not returned. -/
  | crashed (st : PullSt)
  /-- There are no more connections: it tries for ever. -/
  | retrying (st : PullSt)

/-- What an attempt to read a frame gives: the buffer, the connection, `got_frame`, and
`cx.sig_received`. -/
structure FrameRead where
  conn : AchdConn
  fd : Fd
  gotFrame : Bool
  sig : Bool

variable (env : PullEnv)

/-- The body of the inner loop of `achd_pull_tcp`, without the reconnecting. -/
def readFrame (conn : AchdConn) (fd : Fd) : FrameRead :=
  let s := achdRead false fd 16
  let conn := { conn with pipeframe := conn.pipeframe.storeHeader s.bytes }
  if s.bytes.length = 0 then ⟨conn, s.fd, false, s.sig⟩
  else if s.bytes.length ≠ 16 then ⟨conn, s.fd, false, s.sig⟩
  else if List.ofFn conn.pipeframe.magic ≠ List.ofFn achpipe then ⟨conn, s.fd, false, s.sig⟩
  else
    let cnt := achPipeGetSize env.wide conn.pipeframe
    -- the new buffer replaces the one the header was read into
    let conn :=
      if conn.pipeframeSize < cnt then
        { pipeframe := achPipeSetSize (achPipeAlloc env.fresh cnt) cnt, pipeframeSize := cnt }
      else conn
    let s := achdRead s.sig s.fd cnt
    let conn := { conn with pipeframe := conn.pipeframe.storeData s.bytes }
    ⟨conn, s.fd, decide (s.bytes.length = cnt), s.sig⟩

/-- `put_frame`, with no termination signal. -/
def putFrame (st : PullSt) : PullSt ⊕ PullEnd :=
  let cnt := achPipeGetSize env.wide st.conn.pipeframe
  let st := { st with puts := st.puts ++ [frameOf st.conn.pipeframe.data cnt] }
  match out (achPut env.chan (some st.conn.pipeframe.data) cnt) env.dbg st.shm with
  | .ok (.ok, shm) => .inl { st with shm := shm }
  | .ok (r, shm) => .inr (.error r { st with shm := shm })
  | _ => .inr (.crashed st)

/-- One pass of the loops of `achd_pull_tcp`. -/
def pullTcp (st : PullSt) : PullSt ⊕ PullEnd :=
  let r := readFrame env st.conn st.fd
  let st := { st with conn := r.conn, fd := r.fd }
  if r.gotFrame then
    if r.sig then .inr (.returned st) else putFrame env st
  else if r.sig = true ∨ env.reconnect = false then .inr (.returned st)
  else match st.later with
    | [] => .inr (.retrying st)
    | fd :: later => .inl { st with fd := fd, later := later }

/-! ### One frame -/

section
variable (conn : AchdConn) {fd : Fd} {f rest : List UInt8}

/-- A frame that is there wholly is read, whatever the size of the buffer. -/
theorem readFrame_whole (hf : f.length < 2 ^ 32) (hfd : fd.unread = wire f ++ rest)
    (hs : Smooth fd.calls) : ∃ frame size calls, Smooth calls ∧
      readFrame env conn fd = ⟨⟨frame, size⟩, ⟨rest, calls⟩, true, false⟩ ∧
      frame.sizeBytes = sizeByte f.length ∧ frameOf frame.data f.length = f := by
  obtain ⟨calls, hc, hread⟩ := achdRead_spec fd 16 hs
  have htake : fd.unread.take 16 = header f.length := by
    rw [hfd, wire, List.append_assoc, List.take_left' (length_header _)]
  have hdrop : fd.unread.drop 16 = f ++ rest := by
    rw [hfd, wire, List.append_assoc, List.drop_left' (length_header _)]
  obtain ⟨calls', hc', hread'⟩ := achdRead_spec ⟨f ++ rest, calls⟩ f.length hc
  have hsize : achPipeGetSize env.wide
      { conn.pipeframe with magic := achpipe, sizeBytes := sizeByte f.length } = f.length :=
    getSize_of_sizeBytes env.wide hf rfl
  rw [List.take_left, List.drop_left] at hread'
  unfold readFrame
  simp only [hread, htake, hdrop, length_header, storeHeader_header, hsize, hread', ne_eq,
    not_true_eq_false, if_false, decide_true, show ¬ (16 = 0) by omega]
  by_cases hbig : conn.pipeframeSize < f.length
  · simp only [hbig, if_true]
    exact ⟨_, _, calls', hc', rfl, rfl, map_range_storeData _ f⟩
  · simp only [hbig, if_false]
    exact ⟨_, _, calls', hc', rfl, rfl, map_range_storeData _ f⟩

/-- A frame of which a part is missing is not read. -/
theorem readFrame_cut {n : ℕ} (hf : f.length < 2 ^ 32) (hn : n < (wire f).length)
    (hfd : fd.unread = (wire f).take n) (hs : Smooth fd.calls) :
    (readFrame env conn fd).gotFrame = false := by
  obtain ⟨calls, hc, hread⟩ := achdRead_spec fd 16 hs
  rw [length_wire] at hn
  unfold readFrame
  by_cases h16 : n < 16
  · have hlen : (fd.unread.take 16).length = n := by
      rw [hfd]
      simp
      omega
    rcases Nat.eq_zero_or_pos n with h0 | h0
    · simp [hread, hlen, h0]
    · simp [hread, hlen, show n ≠ 0 by omega, show n ≠ 16 by omega]
  · -- the header is there, some of the data is not
    have htake : fd.unread.take 16 = header f.length := by
      rw [hfd, List.take_take, min_eq_left (by omega), wire, List.take_left' (length_header _)]
    have hdrop : fd.unread.drop 16 = f.take (n - 16) := by
      rw [hfd, List.drop_take, wire, List.drop_left' (length_header _)]
    obtain ⟨calls', hc', hread'⟩ := achdRead_spec ⟨f.take (n - 16), calls⟩ f.length hc
    have hsize : achPipeGetSize env.wide
        { conn.pipeframe with magic := achpipe, sizeBytes := sizeByte f.length } = f.length :=
      getSize_of_sizeBytes env.wide hf rfl
    have hshort : ((f.take (n - 16)).take f.length).length ≠ f.length := by
      simp
      omega
    simp only [hread, htake, hdrop, length_header, storeHeader_header, hsize, hread', ne_eq,
      not_true_eq_false, if_false, show ¬ (16 = 0) by omega]
    exact decide_eq_false hshort

/-- Without a frame and without reconnecting the function returns. -/
theorem pullTcp_cut {st : PullSt} (hrec : env.reconnect = false)
    (hgot : (readFrame env st.conn st.fd).gotFrame = false) :
    pullTcp env st = .inr (.returned { st with
      conn := (readFrame env st.conn st.fd).conn
      fd := (readFrame env st.conn st.fd).fd }) := by
  simp [pullTcp, hgot, hrec]

end

/-! ### Streams -/

/-- **The loop lemma.** The frames of the stream that are there wholly are published, then the
function returns. -/
theorem pull_loops (hrec : env.reconnect = false) (hmap : env.chan.mapped = true) :
    ∀ (fs : List (List UInt8)) (cut : ℕ) (st : PullSt) (hist : List (List UInt8)) (kept : ℕ),
      Inv hist kept st.shm → Clean st.shm → 0 < st.shm.indexCnt →
      (env.dbg = true → hist.length + fs.length < 2 ^ 64) →
      (∀ f ∈ fs, 1 ≤ f.length ∧ f.length < 2 ^ 32 ∧ f.length ≤ st.shm.dataSize) →
      st.fd.unread = (fs.flatMap wire).take cut → Smooth st.fd.calls →
      ∃ st' kept', Loops (pullTcp env) st (.returned st') ∧
        st'.puts = st.puts ++ whole wire fs cut ∧
          Inv (hist ++ whole wire fs cut) kept' st'.shm := by
  intro fs
  induction fs with
  | nil =>
    intro cut st hist kept h _ _ _ _ hfd hs
    have hgot := readFrame_cut env st.conn (f := []) (n := 0) (by simp) (by simp)
      (by simpa using hfd) hs
    exact ⟨_, kept, Loops.leave (pullTcp_cut env hrec hgot), by simp [whole],
      by simpa [whole] using h⟩
  | cons f fs ih =>
    intro cut st hist kept h hc hcnt hseq hfs hfd hs
    obtain ⟨hpos, hlt, hfit⟩ := hfs f List.mem_cons_self
    by_cases hcut : (wire f).length ≤ cut
    · rw [take_flatMap_of_le wire hcut] at hfd
      obtain ⟨frame, size, calls, hcalls, hread, hbytes, hdata⟩ :=
        readFrame_whole env st.conn hlt hfd hs
      obtain ⟨kept', shm', hput, hinv, hfix⟩ := achPut_spec env.dbg frame.data h hc hmap hcnt hpos
        hfit (fun hd => by have := hseq hd; rw [List.length_cons] at this; omega)
      rw [hdata] at hinv
      obtain ⟨st', kept'', hl, hputs, hinv'⟩ := ih (cut - (wire f).length)
        ⟨⟨frame, size⟩, ⟨_, calls⟩, st.later, shm', st.puts ++ [f]⟩ _ kept' hinv
        (clean_of_fixedPart hfix hc) (by rw [indexCnt_of_fixedPart hfix]; exact hcnt)
        (fun hd => by have := hseq hd; simp only [List.length_cons, List.length_append,
          List.length_nil] at this ⊢; omega)
        (fun g hg => by rw [dataSize_of_fixedPart hfix]; exact hfs g (List.mem_cons_of_mem f hg))
        rfl hcalls
      refine ⟨st', kept'', Loops.goOn ?_ hl, ?_, ?_⟩
      · simp only [pullTcp, hread, putFrame, getSize_of_sizeBytes env.wide hlt hbytes, hput, hdata]
        rfl
      · rw [hputs, whole_cons_of_le wire hcut, List.append_assoc, List.singleton_append]
      · rw [whole_cons_of_le wire hcut, List.append_cons]
        exact hinv'
    · rw [take_flatMap_of_lt wire (by omega)] at hfd
      have hgot := readFrame_cut env st.conn hlt (by omega) hfd hs
      rw [whole_cons_of_lt wire (by omega)]
      simp only [List.append_nil]
      exact ⟨_, kept, Loops.leave (pullTcp_cut env hrec hgot), rfl, h⟩

/-- **TCP framing is lossless.** Take any run of `achd_push_tcp` in which no write fails, of which
`fs` are the frames taken and written, and any receiver, with a buffer of any size, whose channel is
large enough for each of them. However the bytes are split into writes and reads, `achd_pull_tcp`
calls `ach_put` once for each frame, in order and with its bytes; and of a stream that is cut, for
the frames that lie wholly before the cut, and then returns. -/
theorem tcp_framing_lossless (penv : PushEnv) (size : ℕ) {es : List PushEvent} {sender : PushSt}
    (hes : ∀ e ∈ es, e.Smooth) (hrun : push penv es (PushSt.start penv size) = some sender)
    (hph : sender.phase = .getFrame) {fs : List (List UInt8)} (htaken : sender.taken = fs)
    (env : PullEnv) (hrec : env.reconnect = false) (hmap : env.chan.mapped = true)
    {st : PullSt} {hist : List (List UInt8)} {kept : ℕ} (h : Inv hist kept st.shm)
    (hc : Clean st.shm) (hcnt : 0 < st.shm.indexCnt)
    (hseq : env.dbg = true → hist.length + fs.length < 2 ^ 64) (hputs : st.puts = [])
    (hcalls : Smooth st.fd.calls)
    (hfs : ∀ f ∈ fs, 1 ≤ f.length ∧ f.length < 2 ^ 32 ∧ f.length ≤ st.shm.dataSize) :
    (st.fd.unread = sender.link.sent → ∃ st' kept', Loops (pullTcp env) st (.returned st') ∧
      st'.puts = fs ∧ Inv (hist ++ fs) kept' st'.shm) ∧
    ∀ cut, st.fd.unread = sender.link.sent.take cut →
      ∃ st' kept', Loops (pullTcp env) st (.returned st') ∧ st'.puts = whole wire fs cut ∧
        Inv (hist ++ whole wire fs cut) kept' st'.shm := by
  subst htaken
  have hsent := push_sent penv hes hrun (fun f hf => (hfs f hf).2.1) hph
  have hcut : ∀ cut, st.fd.unread = (sender.taken.flatMap wire).take cut →
      ∃ st' kept', Loops (pullTcp env) st (.returned st') ∧ st'.puts = whole wire sender.taken cut ∧
        Inv (hist ++ whole wire sender.taken cut) kept' st'.shm := fun cut hfd => by
    obtain ⟨st', kept', hl, hp, hinv⟩ := pull_loops env hrec hmap sender.taken cut st hist kept h hc
      hcnt hseq hfs hfd hcalls
    exact ⟨st', kept', hl, by rw [hp, hputs, List.nil_append], hinv⟩
  rw [hsent]
  refine ⟨fun hfd => ?_, hcut⟩
  have := hcut (sender.taken.flatMap wire).length (by rw [hfd, List.take_length])
  rwa [whole_of_le wire _ _ le_rfl] at this

/-- Two frames, the first larger than the buffer of the sender, written in pieces. -/
def sampleFrames : List (List UInt8 × List Sys) :=
  [([1, 2, 3], [⟨.upTo 4, false⟩, ⟨.eintr, false⟩, ⟨.upTo 0, false⟩]), ([4, 5], [])]

/-- The sender. -/
def sampleSender : PushEnv := ⟨.x86, fun _ _ => 0, [], false⟩

/-- The receiver. -/
def sampleReceiver : PullEnv := ⟨true, .x86, fun _ _ => 0, openedChan (created 2 3), false⟩

/-- The receiver with the given bytes to read, in pieces, and a buffer for one byte. -/
def samplePull (bytes : List UInt8) : PullSt :=
  ⟨.alloc (fun _ _ => 0) 1, ⟨bytes, [⟨.upTo 10, false⟩, ⟨.eintr, false⟩, ⟨.upTo 2, false⟩]⟩, [],
    created 2 3, []⟩

theorem tcp_framing_lossless_sample : ∃ sender st st',
    push sampleSender (eventsOf 1 sampleFrames) (PushSt.start sampleSender 1) = some sender ∧
      Loops (pullTcp sampleReceiver) (samplePull sender.link.sent) (.returned st) ∧
      st.puts = [[1, 2, 3], [4, 5]] ∧
      Loops (pullTcp sampleReceiver) (samplePull (sender.link.sent.take 25)) (.returned st') ∧
      st'.puts = [[1, 2, 3]] := by
  obtain ⟨sender, hrun, hph, htaken⟩ := push_eventsOf sampleSender sampleFrames
    (PushSt.start sampleSender 1) rfl (by decide)
  have hes : ∀ e ∈ eventsOf 1 sampleFrames, e.Smooth := by
    simp [eventsOf, sampleFrames, PushEvent.Smooth, PushEvent.Quiet, Smooth]
  have htaken' : sender.taken = [[1, 2, 3], [4, 5]] := htaken
  have hinv : ∀ bytes, Inv [] 0 (samplePull bytes).shm :=
    fun _ => inv_created (by decide) (by decide)
  have hclean : ∀ bytes, Clean (samplePull bytes).shm := fun _ => clean_created 2 3
  have hcnt : 0 < (created 2 3).indexCnt := by decide
  have hcalls : Smooth [⟨.upTo 10, false⟩, ⟨.eintr, false⟩, ⟨.upTo 2, false⟩] := by decide
  have hfs : ∀ f ∈ ([[1, 2, 3], [4, 5]] : List (List UInt8)),
      1 ≤ f.length ∧ f.length < 2 ^ 32 ∧ f.length ≤ (created 2 3).dataSize := by decide
  obtain ⟨st, -, hl, hp, -⟩ := (tcp_framing_lossless sampleSender 1 hes hrun hph htaken'
    sampleReceiver rfl rfl (hinv sender.link.sent) (hclean _) hcnt (fun _ => by decide) rfl hcalls
    hfs).1 rfl
  obtain ⟨st', -, hl', hp', -⟩ := (tcp_framing_lossless sampleSender 1 hes hrun hph htaken'
    sampleReceiver rfl rfl (hinv (sender.link.sent.take 25)) (hclean _) hcnt (fun _ => by decide)
      rfl hcalls hfs).2 25 rfl
  exact ⟨sender, st, st', hrun, hl, hp, hl', by rw [hp']; decide⟩

end Ach.Daemon.Pull
