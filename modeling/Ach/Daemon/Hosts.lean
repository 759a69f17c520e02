import Ach.Channel.Delivery
import Ach.Daemon.Pull
import Ach.Lib.Replace

/-! # A relay

Two hosts, each with a channel: `achd_push_tcp` takes frames from the one and writes them to a
connection, `achd_pull_tcp` reads them from it and puts them into the other. On both hosts local
processes put, get and flush as well. A step is one call of a local process, one pass of a loop of
one of the daemons, or the loss of a connection; what was written and not yet read is on its way. A
pass of `achd_pull_tcp` waits for the bytes it reads, and nobody sees what it has read so far, so it
is one step, taken when all of them have come (`Arrived`) or no more will.

One of the two daemons is a client, and may have been told to reconnect. When a connection is lost
it goes on at the next one, and at the other end of that is a new server, with a handle of its own
(`attempt` if the client pushes, `redial` if it pulls). The server of the old one still comes to the
end of what was written to it.

The daemons call `ach_get` and `ach_put` themselves, and both channels record the calls made on
them. So what holds of the calls on one channel (`Contract`) holds on both, and the relay connects
them. -/

namespace Ach.Daemon.Hosts

open Ach.Lib.Run Ach.Lib.Framing Ach.Lib.Word Ach.Lib.Replace
open Ach.Channel.Types Ach.Channel.Get Ach.Channel.Create Ach.Channel.Invariant
open Ach.Channel.PutSpec Ach.Channel.GetSpec Ach.Channel.History Ach.Channel.Runs
open Ach.Channel.Delivery
open Ach.Daemon.Io Ach.Daemon.Pipe Ach.Daemon.Push Ach.Daemon.Pull

variable {H K : Type} [DecidableEq H] [DecidableEq K]

/-! ### The relay -/

/-- What is fixed: the daemons, whether asserts are compiled in on the sending host, `get_last`, and
which handles are those of daemons. -/
structure RelayEnv (H K : Type) where
  push : PushEnv
  pull : PullEnv
  dbg : Bool
  last : Bool
  pushers : H → Bool
  pullers : K → Bool

/-- How far the pulling daemon is with a connection. -/
inductive Reading where
  /-- In its loop. -/
  | active
  /-- In `achd_reconnect`. -/
  | lost
  /-- It reads from this connection no more. -/
  | left
  deriving DecidableEq

/-- A connection with the daemons at its ends: the handle and the state of the one that pushes,
whether the connection is closed, what is on its way, the handle of the one that pulls, its buffer,
the frames of this connection that it has put, and how far it is. -/
structure Conn (H K : Type) where
  pusher : H
  push : PushSt
  closed : Bool
  unread : List UInt8
  puller : K
  conn : AchdConn
  puts : List (List UInt8)
  reading : Reading

/-- The two channels, the connections in their order, and the calls made on the channels. -/
structure RelaySt (H K : Type) where
  source : Channel.Runs.Sys H
  target : Channel.Runs.Sys K
  conns : List (Conn H K)
  sent : List (Event H)
  got : List (Event K)

/-- A step: a call on the source; at a connection, a pass of `get_frame`, of `achd_push_tcp`, of its
`achd_reconnect`, the loss of all but `n` of the bytes on their way, a pass of `achd_pull_tcp`, and
of its `achd_reconnect`; or a call on the target. A new server has a handle and a buffer. -/
inductive RelayEvent (H K : Type) where
  | source (h : H) (c : Call)
  | get (i : ℕ) (waits : List WaitEnd)
  | write (i : ℕ) (calls : List Io.Sys)
  | attempt (i : ℕ) (a : Attempt) (k : K) (size : ℕ)
  | lose (i n : ℕ)
  | pull (i : ℕ) (calls : List Io.Sys)
  | redial (i : ℕ) (h : H) (size : ℕ)
  | target (k : K) (c : Call)

variable (env : RelayEnv H K)

/-- The call of `ach_get` in `get_frame`. -/
def getCall (conn : AchdConn) (waits : List WaitEnd) : Call :=
  .get conn.pipeframeSize false ⟨true, env.last, false⟩ waits

/-- The call of `ach_put` in `put_frame`, and what it did. -/
def putEvent (k : K) (st : PullSt) (r : AchStatus) : Event K :=
  ⟨k, .put (some st.conn.pipeframe.data) (achPipeGetSize env.pull.wide st.conn.pipeframe),
    .put r st.shm⟩

/-- All that a pass of `achd_pull_tcp` reads has come. -/
def Arrived (c : Conn H K) : Prop :=
  let frame := c.conn.pipeframe.storeHeader (c.unread.take 16)
  16 ≤ c.unread.length ∧ (List.ofFn frame.magic = List.ofFn achpipe →
    16 + achPipeGetSize env.pull.wide frame ≤ c.unread.length)

instance (c : Conn H K) : Decidable (Arrived env c) := by unfold Arrived; infer_instance

/-- The call is a flush. -/
def isFlush : Call → Bool
  | .flush => true
  | _ => false

theorem isFlush_iff {c : Call} : isFlush c = true ↔ c = .flush := by cases c <;> simp [isFlush]

/-- A call of a local process. The handles of the daemons can be flushed. -/
def Local (h : H) (c : Call) : Prop := env.pushers h = false ∨ isFlush c = true

instance (h : H) (c : Call) : Decidable (Local env h c) := by unfold Local; infer_instance

/-- The bytes are on their way, unless the connection is closed. A daemon whose write fails closes
it. -/
def Conn.carry (c : Conn H K) (p : PushSt) : Conn H K :=
  { c with
    push := p
    closed := c.closed || decide (p.phase = .returned ∨ p.phase = .reconnect)
    unread :=
      if c.closed then c.unread else c.unread ++ p.link.sent.drop c.push.link.sent.length }

/-- The daemon that pulls, with the calls of the next pass. -/
def Conn.pullSt (c : Conn H K) (shm : AchHeader) (calls : List Io.Sys) : PullSt :=
  ⟨c.conn, ⟨c.unread, calls⟩, [], shm, c.puts⟩

/-- The handle is not that of a daemon of any of the connections. -/
def NewPuller (cs : List (Conn H K)) (k : K) : Prop :=
  env.pullers k = true ∧ ∀ c ∈ cs, c.puller ≠ k

def NewPusher (cs : List (Conn H K)) (h : H) : Prop :=
  env.pushers h = true ∧ ∀ c ∈ cs, c.pusher ≠ h

instance (cs : List (Conn H K)) (k : K) : Decidable (NewPuller env cs k) := by
  unfold NewPuller; infer_instance

instance (cs : List (Conn H K)) (h : H) : Decidable (NewPusher env cs h) := by
  unfold NewPusher; infer_instance

/-- After a pass of `achd_pull_tcp` at the connection `i`, with the calls it made. -/
def RelaySt.afterPull (r : RelaySt H K) (i : ℕ) (c : Conn H K) (st : PullSt) (reading : Reading)
    (calls : List (Event K)) : RelaySt H K :=
  { r with
    target := ⟨st.shm, r.target.chan⟩
    conns := r.conns.set i
      { c with conn := st.conn, unread := st.fd.unread, puts := st.puts, reading := reading }
    got := r.got ++ calls }

/-- **One step.** A call that blocks is not one. -/
def RelaySt.next (r : RelaySt H K) : RelayEvent H K → Option (RelaySt H K)
  | .source h c =>
    if Local env h c then
      match r.source.call env.dbg h c with
      | .ok (rep, s) => some { r with source := s, sent := r.sent ++ [⟨h, c, rep⟩] }
      | _ => none
    else none
  | .get i waits => r.conns[i]?.bind fun c =>
    match r.source.call env.dbg c.pusher (getCall env c.push.conn waits) with
    | .ok (.get res chan, s) => (c.push.next env.push (.get res false)).map fun p =>
      { r with
        source := s, conns := r.conns.set i { c with push := p }
        sent := r.sent ++ [⟨c.pusher, getCall env c.push.conn waits, .get res chan⟩] }
    | _ => none
  | .write i calls => r.conns[i]?.bind fun c =>
    (c.push.next env.push (.write calls)).map fun p =>
      { r with conns := r.conns.set i (c.carry p) }
  | .attempt i a k size => r.conns[i]?.bind fun c =>
    (c.push.next env.push (.attempt a false)).bind fun p =>
      match a with
      | .noSocket => some { r with conns := r.conns.set i { c with push := p } }
      | .socket _ _ =>
        if NewPuller env r.conns k then
          -- the daemon goes on at the new connection, and a new server is at its other end
          some { r with
            conns := r.conns.set i { c with push := { c.push with phase := .returned } } ++
              [⟨c.pusher, p, decide (p.phase ≠ .write), [], k, .alloc env.pull.fresh size, [],
                .active⟩] }
        else none
  | .lose i n => r.conns[i]?.map fun c =>
    { r with conns := r.conns.set i { c with unread := c.unread.take n, closed := true } }
  | .pull i calls => r.conns[i]?.bind fun c =>
    if c.reading = .active ∧ (c.closed = true ∨ Arrived env c) then
      match pullTcp { env.pull with chan := r.target.chan c.puller }
          (c.pullSt r.target.shm calls) with
      | .inl st => some (r.afterPull i c st .active [putEvent env c.puller st .ok])
      | .inr (.returned st) => some (r.afterPull i c st .left [])
      | .inr (.retrying st) => some (r.afterPull i c st .lost [])
      | .inr (.error s st) => some (r.afterPull i c st .left [putEvent env c.puller st s])
      | .inr (.crashed _) => none
    else none
  | .redial i h size => r.conns[i]?.bind fun c =>
    if c.reading = .lost ∧ NewPusher env r.conns h then
      -- the new server opens the channel and flushes it, with a handle that nobody has cancelled
      match r.source.call env.dbg h .flush with
      | .ok (.flush .ok chan, s) => some { r with
          source := s, sent := r.sent ++ [⟨h, .flush, .flush .ok chan⟩]
          conns := r.conns.set i { c with reading := .left } ++
            [⟨h, .start env.push size, false, [], c.puller, c.conn, [], .active⟩] }
      | _ => none
    else none
  | .target k c =>
    if env.pullers k = false then
      match r.target.call env.pull.dbg k c with
      | .ok (rep, s) => some { r with target := s, got := r.got ++ [⟨k, c, rep⟩] }
      | _ => none
    else none

/-- The steps one after the other. -/
def relay : List (RelayEvent H K) → RelaySt H K → Option (RelaySt H K)
  | [], r => some r
  | e :: es, r => (r.next env e).bind (relay es)

/-- Two empty channels, every handle open, and one connection with daemons at the beginning of their
loops, with buffers of the given sizes. -/
def RelaySt.start (shm shm' : AchHeader) (h : H) (k : K) (size size' : ℕ) : RelaySt H K where
  source := ⟨shm, fun _ => openedChan shm⟩
  target := ⟨shm', fun _ => openedChan shm'⟩
  conns := [⟨h, .start env.push size, false, [], k, .alloc env.pull.fresh size', [], .active⟩]
  sent := []
  got := []

/-- No termination signal, and reads do not fail. -/
def RelayEvent.Quiet : RelayEvent H K → Prop
  | .write _ calls => NoSignal calls
  | .attempt _ (.socket calls _) _ _ => NoSignal calls
  | .pull _ calls => Smooth calls
  | _ => True

instance : (e : RelayEvent H K) → Decidable e.Quiet
  | .write _ calls => inferInstanceAs (Decidable (NoSignal calls))
  | .attempt _ (.socket calls _) _ _ => inferInstanceAs (Decidable (NoSignal calls))
  | .pull _ calls => inferInstanceAs (Decidable (Smooth calls))
  | .source .. | .get .. | .attempt _ .noSocket _ _ | .lose .. | .redial .. | .target .. =>
    .isTrue trivial

/-- The step can put a frame. -/
def RelayEvent.puts : RelayEvent H K → Bool
  | .source _ c => c.isPut
  | .pull _ _ => true
  | .target _ c => c.isPut
  | _ => false

/-- The frames that were put on both hosts. -/
def RelaySt.count (r : RelaySt H K) : ℕ :=
  (Channel.Runs.puts r.sent).length + (Channel.Runs.puts r.got).length

/-- The connections of a pushing daemon. -/
def ofPusher (h : H) (cs : List (Conn H K)) : List (Conn H K) :=
  cs.filter fun c => decide (c.pusher = h)

/-- The connections of a pulling daemon. -/
def ofPuller (k : K) (cs : List (Conn H K)) : List (Conn H K) :=
  cs.filter fun c => decide (c.puller = k)

/-- The frames a handle has put. -/
def putsBy (k : K) (evs : List (Event K)) : List (List UInt8) :=
  Channel.Runs.puts (evs.filter fun e => decide (e.handle = k))

theorem putsBy_concat (k : K) (evs : List (Event K)) (e : Event K) :
    putsBy k (evs ++ [e]) = putsBy k evs ++ if e.handle = k then e.frames else [] := by
  by_cases he : e.handle = k <;> simp [putsBy, Channel.Runs.puts, List.filter_append, he]

/-! ### The stream -/

/-- The size field has room for the frame. -/
def Short (f : List UInt8) : Prop := f.length < 2 ^ 32

/-- The header says where a frame ends. -/
theorem prefixFree_wire : PrefixFree wire Short := by
  refine ⟨fun f g u hf hg hp => ?_, fun f _ hnil => ?_⟩
  · have hheader : header f.length = header g.length := by
      have htake := congrArg (List.take 16) (List.prefix_iff_eq_take.mp hp)
      rw [List.take_take, min_eq_left (by simp), wire, List.take_left' (length_header _), wire,
        List.append_assoc, List.take_left' (length_header _)] at htake
      exact htake
    have hsize : sizeByte f.length = sizeByte g.length := by
      have := (List.append_inj hheader (by simp)).2
      exact List.ofFn_injective this
    have hlen : f.length = g.length := by
      let frame : PipeFrame := ⟨achpipe, sizeByte f.length, fun _ => 0⟩
      have h1 : achPipeGetSize .x86 frame = f.length := getSize_of_sizeBytes .x86 hf rfl
      have h2 : achPipeGetSize .x86 frame = g.length := getSize_of_sizeBytes .x86 hg hsize
      exact h1.symm.trans h2
    obtain ⟨t, ht⟩ := hp
    rw [wire, wire, hheader, List.append_assoc, List.append_assoc,
      List.append_cancel_left_eq] at ht
    exact (List.append_inj ht hlen).1
  · have := congrArg List.length hnil
    simp at this

/-- A part of the encoding of a frame, or nothing. -/
theorem part_take {come : List UInt8} (h : Part wire Short come) :
    ∃ f n, Short f ∧ n < (wire f).length ∧ come = (wire f).take n := by
  by_cases hnil : come = []
  · exact ⟨[], 0, by simp [Short], by simp, by simp [hnil]⟩
  · obtain ⟨f, hf, hp, hlt⟩ := h hnil
    exact ⟨f, come.length, hf, hlt, List.prefix_iff_eq_take.mp hp⟩

/-- The size in a header that was read. -/
theorem getSize_header (wide : WideShift) (frame : PipeFrame) {f : List UInt8} (hf : Short f) :
    achPipeGetSize wide (frame.storeHeader (header f.length)) = f.length := by
  rw [storeHeader_header]
  exact getSize_of_sizeBytes wide hf rfl


omit [DecidableEq H] [DecidableEq K] in
/-- `achd_pull_tcp` waits for the rest of the frame. -/
theorem not_arrived {env : RelayEnv H K} {c : Conn H K} (h : Part wire Short c.unread) :
    ¬ Arrived env c := by
  obtain ⟨f, n, hf, hn, hfd⟩ := part_take h
  rintro ⟨h16, hall⟩
  rw [length_wire] at hn
  have hlen : c.unread.length = n := by
    rw [hfd, List.length_take, length_wire]
    omega
  have htake : c.unread.take 16 = header f.length := by
    rw [hfd, List.take_take, min_eq_left (by omega), wire, List.take_left' (length_header _)]
  rw [htake, getSize_header _ _ hf, storeHeader_header] at hall
  have := hall rfl
  omega

/-! ### The connections of a daemon -/

/-- What a daemon was given over its connections: it writes to the last one only, and knows what it
wrote to the ones before. -/
inductive PushChain : List PushSt → List (List UInt8) → Prop
  | nil : PushChain [] []
  | last {old : List PushSt} {p : PushSt} {frames : List (List (List UInt8))}
      {cur : List (List UInt8)} (hold : ∀ q ∈ old, q.phase = .returned)
      (hearlier : p.earlier = old.map PushSt.link) (h : PushInv p frames cur) :
      PushChain (old ++ [p]) p.taken

/-- What a daemon put over its connections: it reads from the last one only. -/
inductive PullChain : List (List (List UInt8) × Reading) → List (List UInt8) → Prop
  | nil : PullChain [] []
  | last {old : List (List (List UInt8) × Reading)} {x : List (List UInt8) × Reading}
      (hold : ∀ y ∈ old, y.2 = .left) : PullChain (old ++ [x]) ((old ++ [x]).flatMap Prod.fst)

/-- Nothing was taken without a connection. -/
theorem PushChain.eq_nil {taken : List (List UInt8)} (h : PushChain [] taken) : taken = [] := by
  generalize hps : ([] : List PushSt) = ps at h
  cases h with
  | nil => rfl
  | last hold hearlier hinv => simp at hps

theorem PullChain.eq_nil {puts : List (List UInt8)} (h : PullChain [] puts) : puts = [] := by
  generalize hxs : ([] : List (List (List UInt8) × Reading)) = xs at h
  cases h with
  | nil => rfl
  | last hold => simp at hxs

/-- What a daemon has put. -/
theorem PullChain.puts_eq {xs : List (List (List UInt8) × Reading)} {puts : List (List UInt8)}
    (h : PullChain xs puts) : puts = xs.flatMap Prod.fst := by
  cases h with
  | nil => rfl
  | last hold => rfl

/-- The connection to which a daemon writes is its last one. -/
theorem PushChain.current {pre post : List PushSt} {p : PushSt} {taken : List (List UInt8)}
    (h : PushChain (pre ++ p :: post) taken) (hp : p.phase ≠ .returned) :
    post = [] ∧ (∀ q ∈ pre, q.phase = .returned) ∧ p.earlier = pre.map PushSt.link ∧
      p.taken = taken ∧ ∃ frames cur, PushInv p frames cur := by
  generalize hps : pre ++ p :: post = ps at h
  cases h with
  | nil => simp at hps
  | @last old q frames cur hold hearlier hinv =>
    rcases List.eq_nil_or_concat post with rfl | ⟨post', b, rfl⟩
    · obtain ⟨rfl, hpq⟩ := List.append_inj' hps rfl
      obtain rfl : p = q := by simpa using hpq
      exact ⟨rfl, hold, hearlier, rfl, frames, cur, hinv⟩
    · rw [List.concat_eq_append, ← List.cons_append, ← List.append_assoc] at hps
      obtain ⟨rfl, -⟩ := List.append_inj' hps rfl
      exact absurd (hold p (by simp)) hp

/-- The connection from which a daemon reads is its last one. -/
theorem PullChain.current {pre post : List (List (List UInt8) × Reading)}
    {x : List (List UInt8) × Reading} {puts : List (List UInt8)}
    (h : PullChain (pre ++ x :: post) puts) (hx : x.2 ≠ .left) :
    post = [] ∧ (∀ y ∈ pre, y.2 = .left) ∧ puts = (pre ++ [x]).flatMap Prod.fst := by
  generalize hxs : pre ++ x :: post = xs at h
  cases h with
  | nil => simp at hxs
  | @last old y hold =>
    rcases List.eq_nil_or_concat post with rfl | ⟨post', b, rfl⟩
    · obtain ⟨rfl, hxy⟩ := List.append_inj' hxs rfl
      obtain rfl : x = y := by simpa using hxy
      exact ⟨rfl, hold, rfl⟩
    · rw [List.concat_eq_append, ← List.cons_append, ← List.append_assoc] at hxs
      obtain ⟨rfl, -⟩ := List.append_inj' hxs rfl
      exact absurd (hold x (by simp)) hx

/-- The whole frames on the connections are those that were taken, the last one aside unless the
daemon is in `get_frame`. -/
theorem wholes_taken {st : PushSt} {frames : List (List (List UInt8))} {cur : List (List UInt8)}
    (h : PushInv st frames cur) : ∃ last, st.taken = frames.flatten ++ cur ++ last ∧
      last.length ≤ 1 ∧ (st.phase = .getFrame → last = []) := by
  have hst := h.stage
  unfold Stage at hst
  cases hph : st.phase <;> simp only [hph] at hst
  case getFrame => exact ⟨[], by simpa using hst.1, by simp, fun _ => rfl⟩
  case write =>
    obtain ⟨f, hf, -⟩ := hst
    exact ⟨[f], hf, le_rfl, by simp⟩
  case reconnect =>
    obtain ⟨f, hf, -⟩ := hst
    exact ⟨[f], hf, le_rfl, by simp⟩
  case returned =>
    obtain ⟨f, hf⟩ := hst
    exact ⟨[f], hf, le_rfl, by simp⟩
  case exited =>
    obtain ⟨f, hf⟩ := hst
    exact ⟨[f], hf, le_rfl, by simp⟩

/-- **Every frame goes over one connection:** the whole frames on the connections of a daemon, one
connection after the other, are those it has taken, the last one aside. -/
theorem PushChain.holds {ps : List PushSt} {taken : List (List UInt8)} (h : PushChain ps taken) :
    ∃ wholes last, List.Forall₂ (fun p fs => LinkHolds taken p.link fs) ps wholes ∧
      taken = wholes.flatten ++ last ∧ last.length ≤ 1 ∧
      ∀ p ∈ ps, p.phase = .getFrame → last = [] := by
  cases h with
  | nil => exact ⟨[], [], .nil, rfl, by simp, by simp⟩
  | @last old p frames cur hold hearlier hinv =>
    obtain ⟨last, htaken, hlast, hdone⟩ := wholes_taken hinv
    have hearly := hinv.earlier
    rw [hearlier, List.forall₂_map_left_iff] at hearly
    refine ⟨frames ++ [cur], last, List.rel_append hearly (.cons hinv.link .nil),
      by simpa using htaken, hlast, fun q hq hph => ?_⟩
    rcases List.mem_append.mp hq with hq | hq
    · simp [hold q hq] at hph
    · obtain rfl := List.mem_singleton.mp hq
      exact hdone hph

/-- The frames put from a connection, and how far the daemon is with it. -/
def Conn.read (c : Conn H K) : List (List UInt8) × Reading := (c.puts, c.reading)

/-- What each pushing daemon was given. -/
def Pushed (env : RelayEnv H K) (cs : List (Conn H K)) (taken : H → List (List UInt8)) : Prop :=
  ∀ h, env.pushers h = true → PushChain ((ofPusher h cs).map Conn.push) (taken h)

/-- What each pulling daemon has put. -/
def Pulled (env : RelayEnv H K) (cs : List (Conn H K)) (puts : K → List (List UInt8)) : Prop :=
  ∀ k, env.pullers k = true → PullChain ((ofPuller k cs).map Conn.read) (puts k)

section
omit [DecidableEq K]

variable {env : RelayEnv H K} {cs : List (Conn H K)} {taken taken' : H → List (List UInt8)} {i : ℕ}
  {c d : Conn H K}

/-- A step that does not concern the daemon that pushes. -/
theorem Pushed.same (h : Pushed env cs taken) (hc : cs[i]? = some c)
    (hpusher : d.pusher = c.pusher) (hpush : d.push = c.push) :
    Pushed env (cs.set i d) taken := by
  intro g hg
  have hmap : (ofPusher g (cs.set i d)).map Conn.push = (ofPusher g cs).map Conn.push :=
    map_filter_set Conn.push hc (by rw [hpusher]) fun _ => hpush
  rw [hmap]
  exact h g hg

/-- A connection that is new to the daemon that pushes. -/
theorem Pushed.append (h : Pushed env cs taken) (hnew : ∀ c ∈ cs, c.pusher ≠ d.pusher)
    (hearlier : d.push.earlier = []) (htaken : d.push.taken = [])
    (hinv : PushInv d.push [] []) : Pushed env (cs ++ [d]) taken := by
  intro g hg
  have hchain := h g hg
  by_cases hgd : g = d.pusher
  · subst hgd
    have hnil : ofPusher d.pusher cs = [] := by
      rw [ofPusher, List.filter_eq_nil_iff]
      exact fun c hc => by simpa using hnew c hc
    have hone : (ofPusher d.pusher (cs ++ [d])).map Conn.push = [] ++ [d.push] := by
      rw [ofPusher, List.filter_append, ← ofPusher, hnil]
      simp
    rw [hnil, List.map_nil] at hchain
    rw [hone, hchain.eq_nil, ← htaken]
    exact .last (by simp) hearlier hinv
  · have hold : ofPusher g (cs ++ [d]) = ofPusher g cs := by
      simp [ofPusher, List.filter_append, Ne.symm hgd]
    rw [hold]
    exact hchain

/-- What a daemon that still writes knows. -/
theorem Pushed.current (h : Pushed env cs taken) (hc : cs[i]? = some c)
    (henv : env.pushers c.pusher = true) (hlive : c.push.phase ≠ .returned) :
    c.push.taken = taken c.pusher ∧ ∃ frames cur, PushInv c.push frames cur := by
  obtain ⟨pre, post, hcs, -⟩ :=
    filter_set (p := fun e : Conn H K => decide (e.pusher = c.pusher)) (y := c) hc (by simp)
      (by simp)
  have hchain := h c.pusher henv
  rw [ofPusher, hcs, List.map_append, List.map_cons] at hchain
  obtain ⟨-, -, -, htaken, hinv⟩ := hchain.current hlive
  exact ⟨htaken, hinv⟩

/-- **A step of the daemon that pushes**, at its current connection. -/
theorem Pushed.set (h : Pushed env cs taken) (hc : cs[i]? = some c)
    (hlive : c.push.phase ≠ .returned) (hpusher : d.pusher = c.pusher)
    (hearlier : d.push.earlier = c.push.earlier) {frames : List (List (List UInt8))}
    {cur : List (List UInt8)} (hinv : PushInv d.push frames cur)
    (htaken : taken' c.pusher = d.push.taken)
    (hsame : ∀ g, env.pushers g = true → g ≠ c.pusher → taken' g = taken g) :
    Pushed env (cs.set i d) taken' := by
  intro g hg
  have hchain := h g hg
  by_cases hgc : g = c.pusher
  · subst hgc
    obtain ⟨pre, post, hcs, hset⟩ :=
      filter_set (p := fun e : Conn H K => decide (e.pusher = c.pusher)) (y := d) hc (by simp)
        (by simp [hpusher])
    rw [ofPusher, hcs, List.map_append, List.map_cons] at hchain
    obtain ⟨hpost, hold, hear, -, -⟩ := hchain.current hlive
    obtain rfl := List.map_eq_nil_iff.mp hpost
    rw [ofPusher, hset, List.map_append, htaken]
    exact .last hold (hearlier.trans hear) hinv
  · have hmap : (ofPusher g (cs.set i d)).map Conn.push = (ofPusher g cs).map Conn.push :=
      map_filter_set Conn.push hc (by rw [hpusher]) fun hp =>
        absurd (of_decide_eq_true hp).symm hgc
    rw [hmap, hsame g hg hgc]
    exact hchain

/-- **The daemon that pushes goes on at a new connection.** -/
theorem Pushed.next (h : Pushed env cs taken) (hc : cs[i]? = some c)
    (henv : env.pushers c.pusher = true) (hlive : c.push.phase ≠ .returned) {n : Conn H K}
    (hpusher : n.pusher = c.pusher) (hearlier : n.push.earlier = c.push.earlier ++ [c.push.link])
    (htaken : n.push.taken = c.push.taken) {frames : List (List (List UInt8))}
    {cur : List (List UInt8)} (hinv : PushInv n.push frames cur) :
    Pushed env (cs.set i { c with push := { c.push with phase := .returned } } ++ [n]) taken := by
  intro g hg
  have hchain := h g hg
  obtain ⟨hcur, -⟩ := h.current hc henv hlive
  by_cases hgc : g = c.pusher
  · subst hgc
    obtain ⟨pre, post, hcs, hset⟩ :=
      filter_set (p := fun e : Conn H K => decide (e.pusher = c.pusher))
        (y := { c with push := { c.push with phase := .returned } }) hc (by simp) (by simp)
    rw [ofPusher, hcs, List.map_append, List.map_cons] at hchain
    obtain ⟨hpost, hold, hear, -, -⟩ := hchain.current hlive
    obtain rfl := List.map_eq_nil_iff.mp hpost
    have hlast : PushChain ((pre.map Conn.push ++ [{ c.push with phase := .returned }]) ++ [n.push])
        n.push.taken := by
      refine .last (fun q hq => ?_) ?_ hinv
      · rcases List.mem_append.mp hq with hq | hq
        · exact hold q hq
        · rw [List.mem_singleton.mp hq]
      · rw [hearlier, hear, List.map_append, List.map_cons, List.map_nil]
    rw [← hcur, ← htaken]
    simpa [ofPusher, List.filter_append, hset, hpusher] using hlast
  · have hmap := map_filter_set (p := fun e : Conn H K => decide (e.pusher = g)) Conn.push hc
      (y := { c with push := { c.push with phase := .returned } }) rfl fun hp =>
        absurd (of_decide_eq_true hp).symm hgc
    have hn : ¬ n.pusher = g := fun he => hgc (he.symm.trans hpusher)
    rw [ofPusher, List.filter_append, List.map_append, hmap]
    simpa [ofPusher, hn] using hchain

end

section
omit [DecidableEq H]

variable {env : RelayEnv H K} {cs : List (Conn H K)} {puts puts' : K → List (List UInt8)} {i : ℕ}
  {c d : Conn H K}

/-- A step that does not concern the daemon that pulls. -/
theorem Pulled.same (h : Pulled env cs puts) (hc : cs[i]? = some c)
    (hpuller : d.puller = c.puller) (hread : d.read = c.read) :
    Pulled env (cs.set i d) puts := by
  intro g hg
  have hmap : (ofPuller g (cs.set i d)).map Conn.read = (ofPuller g cs).map Conn.read :=
    map_filter_set Conn.read hc (by rw [hpuller]) fun _ => hread
  rw [hmap]
  exact h g hg

/-- A connection that is new to the daemon that pulls. -/
theorem Pulled.append (h : Pulled env cs puts) (hnew : ∀ c ∈ cs, c.puller ≠ d.puller)
    (hputs : d.puts = []) : Pulled env (cs ++ [d]) puts := by
  intro g hg
  have hchain := h g hg
  by_cases hgd : g = d.puller
  · subst hgd
    have hnil : ofPuller d.puller cs = [] := by
      rw [ofPuller, List.filter_eq_nil_iff]
      exact fun c hc => by simpa using hnew c hc
    have hone : (ofPuller d.puller (cs ++ [d])).map Conn.read = [] ++ [d.read] := by
      rw [ofPuller, List.filter_append, ← ofPuller, hnil]
      simp
    rw [hnil, List.map_nil] at hchain
    have hlast : PullChain ([] ++ [d.read]) _ := .last (by simp)
    rw [hone, hchain.eq_nil]
    simpa [Conn.read, hputs] using hlast
  · have hold : ofPuller g (cs ++ [d]) = ofPuller g cs := by
      simp [ofPuller, List.filter_append, Ne.symm hgd]
    rw [hold]
    exact hchain

/-- **A step of the daemon that pulls**, at its current connection. -/
theorem Pulled.set (h : Pulled env cs puts) (hc : cs[i]? = some c) (hlive : c.reading ≠ .left)
    (hpuller : d.puller = c.puller) {fs : List (List UInt8)} (hd : d.puts = c.puts ++ fs)
    (hputs : puts' c.puller = puts c.puller ++ fs)
    (hsame : ∀ g, g ≠ c.puller → puts' g = puts g) : Pulled env (cs.set i d) puts' := by
  intro g hg
  have hchain := h g hg
  by_cases hgc : g = c.puller
  · subst hgc
    obtain ⟨pre, post, hcs, hset⟩ :=
      filter_set (p := fun e : Conn H K => decide (e.puller = c.puller)) (y := d) hc (by simp)
        (by simp [hpuller])
    rw [ofPuller, hcs, List.map_append, List.map_cons] at hchain
    obtain ⟨hpost, hold, heq⟩ := hchain.current hlive
    obtain rfl := List.map_eq_nil_iff.mp hpost
    have hlast : PullChain (pre.map Conn.read ++ [d.read]) _ := .last hold
    rw [ofPuller, hset, List.map_append, hputs, heq]
    simpa [Conn.read, hd] using hlast
  · have hmap : (ofPuller g (cs.set i d)).map Conn.read = (ofPuller g cs).map Conn.read :=
      map_filter_set Conn.read hc (by rw [hpuller]) fun hp =>
        absurd (of_decide_eq_true hp).symm hgc
    rw [hmap, hsame g hgc]
    exact hchain

/-- **The daemon that pulls goes on at a new connection.** -/
theorem Pulled.next (h : Pulled env cs puts) (hc : cs[i]? = some c) (hlive : c.reading ≠ .left)
    {n : Conn H K} (hpuller : n.puller = c.puller) (hputs : n.puts = []) :
    Pulled env (cs.set i { c with reading := .left } ++ [n]) puts := by
  intro g hg
  have hchain := h g hg
  by_cases hgc : g = c.puller
  · subst hgc
    obtain ⟨pre, post, hcs, hset⟩ :=
      filter_set (p := fun e : Conn H K => decide (e.puller = c.puller))
        (y := { c with reading := .left }) hc (by simp) (by simp)
    rw [ofPuller, hcs, List.map_append, List.map_cons] at hchain
    obtain ⟨hpost, hold, heq⟩ := hchain.current hlive
    obtain rfl := List.map_eq_nil_iff.mp hpost
    have hleft : ∀ y ∈ pre.map Conn.read ++ [(c.puts, Reading.left)], y.2 = .left := fun y hy => by
      rcases List.mem_append.mp hy with hy | hy
      · exact hold y hy
      · rw [List.mem_singleton.mp hy]
    have hlast := PullChain.last (x := n.read) hleft
    rw [heq]
    simpa [ofPuller, List.filter_append, hset, hpuller, Conn.read, hputs] using hlast
  · have hmap := map_filter_set (p := fun e : Conn H K => decide (e.puller = g)) Conn.read hc
      (y := { c with reading := .left }) rfl fun hp =>
        absurd (of_decide_eq_true hp).symm hgc
    have hn : ¬ n.puller = g := fun he => hgc (he.symm.trans hpuller)
    rw [ofPuller, List.filter_append, List.map_append, hmap]
    simpa [ofPuller, hn] using hchain

end

end Ach.Daemon.Hosts
