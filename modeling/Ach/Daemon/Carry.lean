import Ach.Daemon.Hosts

/-! # What the daemons carry

The invariant of two hosts and its step lemma, one case for each kind of step. On both channels the
calls keep the delivery contract; what was written to a connection is what was read, what is on its
way, and what is lost (`ConnInv`). So every frame that a daemon takes goes over one connection
(`RelayInv.wholes`), and what is put on the other side was read from the connections
(`RelayInv.puts`). -/

namespace Ach.Daemon.Carry

open Ach.Lib.Run Ach.Lib.Framing Ach.Lib.Word Ach.Lib.Replace
open Ach.Channel.Types Ach.Channel.Get Ach.Channel.Create Ach.Channel.Invariant
open Ach.Channel.PutSpec Ach.Channel.GetSpec Ach.Channel.History Ach.Channel.Runs
open Ach.Channel.Delivery
open Ach.Daemon.Io Ach.Daemon.Pipe Ach.Daemon.Push Ach.Daemon.Pull Ach.Daemon.Hosts

variable {H K : Type} [DecidableEq H] [DecidableEq K]

/-! ### The invariant -/

/-- **The invariant of a connection:** what was written to it is what was read, what is on its way,
and, after a loss, something more. -/
structure ConnInv (env : RelayEnv H K) (c : Conn H K) : Prop where
  pusher : env.pushers c.pusher = true
  puller : env.pullers c.puller = true
  short : ∀ f ∈ c.puts, Short f
  order : c.puts.flatMap wire <+: c.push.link.sent
  stream : c.reading = .active → ∃ lost, c.push.link.sent =
    c.puts.flatMap wire ++ (c.unread ++ lost) ∧ (c.closed = false → lost = [])
  ends : c.reading ≠ .active → c.closed = true

/-- **The invariant of the relay:** the calls made on each channel explain it and keep the contract,
a daemon that pushes was given the frames its handle received, and the frames a daemon that pulls
has put are those its handle put. -/
structure RelayInv (env : RelayEnv H K) (cnt size cnt' size' : ℕ) (r : RelaySt H K) : Prop where
  source : Tracked cnt size r.sent r.source
  sourceSound : Sound r.sent
  small : ∀ f ∈ Channel.Runs.puts r.sent, f.length ≤ size
  target : Tracked cnt' size' r.got r.target
  targetSound : Sound r.got
  fresh : ∀ e ∈ r.sent, env.pushers e.handle = true → ¬ Copies e
  conns : ∀ c ∈ r.conns, ConnInv env c
  pushed : Pushed env r.conns fun h => (received h r.sent).map Prod.snd
  pulled : Pulled env r.conns fun k => putsBy k r.got

section
variable {env : RelayEnv H K} {cnt size cnt' size' : ℕ} {r r' : RelaySt H K}

/-- What a call on the source keeps. -/
theorem RelayInv.call {h : H} {c : Call} {rep : Reply} {s : Channel.Runs.Sys H}
    (hr : RelayInv env cnt size cnt' size' r) (hcnt : 2 ≤ cnt)
    (hseq : (Channel.Runs.puts r.sent).length + 1 < 2 ^ 64)
    (hcall : r.source.call env.dbg h c = .ok (rep, s)) :
    Tracked cnt size (r.sent ++ [⟨h, c, rep⟩]) s ∧ Sound (r.sent ++ [⟨h, c, rep⟩]) ∧
      ∀ f ∈ Channel.Runs.puts (r.sent ++ [⟨h, c, rep⟩]), f.length ≤ size :=
  call_keeps hr.source hr.sourceSound hr.small hcnt hseq hcall

omit [DecidableEq K] in
/-- A local call takes nothing from a daemon. -/
theorem delivery_local {dbg : Bool} {s s' : Channel.Runs.Sys H} {g h : H} {c : Call} {rep : Reply}
    (hg : env.pushers g = true) (hl : Local env h c) (hcall : s.call dbg h c = .ok (rep, s')) :
    delivery g ⟨h, c, rep⟩ = none := by
  by_cases hh : h = g
  · subst hh
    obtain rfl := isFlush_iff.mp (hl.resolve_left (by simp [hg]))
    obtain ⟨p, -, hr⟩ := Outcome.bind_eq_ok.mp hcall
    obtain ⟨rfl, -⟩ : Reply.flush p.1.1 p.1.2 = rep ∧ _ := by simpa using hr
    rfl
  · cases rep with
    | get res chan => simp [delivery, hh]
    | put r shm => rfl
    | flush r chan => rfl

omit [DecidableEq H] [DecidableEq K] in
/-- A local call copies nothing for a daemon. -/
theorem copies_local {h : H} {c : Call} {rep : Reply} (hl : Local env h c)
    (hh : env.pushers h = true) : ¬ Copies ⟨h, c, rep⟩ := by
  obtain rfl := isFlush_iff.mp (hl.resolve_left (by simp [hh]))
  exact id

/-- **A call of a local process on the source.** -/
theorem RelayInv.sourceStep {h : H} {c : Call} (hr : RelayInv env cnt size cnt' size' r)
    (hcnt : 2 ≤ cnt) (hseq : (Channel.Runs.puts r.sent).length + 1 < 2 ^ 64)
    (hs : r.next env (.source h c) = some r') : RelayInv env cnt size cnt' size' r' := by
  obtain ⟨hl, hs⟩ := Option.ite_none_right_eq_some.mp hs
  cases hcall : r.source.call env.dbg h c with
  | ok x =>
    obtain ⟨rep, s⟩ := x
    rw [hcall] at hs
    obtain rfl := Option.some.inj hs
    obtain ⟨htracked, hsound, hsmall⟩ := hr.call hcnt hseq hcall
    refine { hr with
      source := htracked, sourceSound := hsound, small := hsmall
      fresh := forall_concat hr.fresh (copies_local hl), pushed := fun g hg => ?_ }
    have hchain := hr.pushed g hg
    simpa [received_concat, delivery_local hg hl hcall] using hchain
  | _ => simp [hcall] at hs

/-- `get_frame` is done if a frame was delivered. -/
theorem getFrame_done (fresh : ℕ → ℕ → UInt8) (conn : AchdConn) (res : GetResult) :
    (getFrame fresh conn res).2 = decide (res.status = .ok ∨ res.status = .missedFrame) := by
  unfold getFrame
  cases res.status <;> rfl

omit [DecidableEq K] in
/-- A frame in an order of frames that fit. -/
theorem short_of_received {evs : List (Event H)} {h : H} (hs : Sound evs) (hsize : size < 2 ^ 32)
    (hsmall : ∀ f ∈ Channel.Runs.puts evs, f.length ≤ size) {d : ℕ × List UInt8}
    (hd : d ∈ received h evs) : Short d.2 ∧ d.2 ∈ Channel.Runs.puts evs := by
  have hmem := hs.mem_puts h hd
  exact ⟨(hsmall _ hmem).trans_lt hsize, hmem⟩

/-- What was given to a daemon. -/
theorem RelayInv.shorts (hr : RelayInv env cnt size cnt' size' r) (hsize : size < 2 ^ 32) (h : H) :
    ∀ f ∈ (received h r.sent).map Prod.snd, Short f ∧ f ∈ Channel.Runs.puts r.sent := by
  intro f hf
  obtain ⟨d, hd, rfl⟩ := List.mem_map.mp hf
  exact short_of_received hr.sourceSound hsize hr.small hd

/-- **A pass of `get_frame`.** -/
theorem RelayInv.getStep {i : ℕ} {ws : List WaitEnd} (hr : RelayInv env cnt size cnt' size' r)
    (hcnt : 2 ≤ cnt) (hsize : size < 2 ^ 32)
    (hseq : (Channel.Runs.puts r.sent).length + 1 < 2 ^ 64)
    (hs : r.next env (.get i ws) = some r') : RelayInv env cnt size cnt' size' r' := by
  obtain ⟨c, hc, hs⟩ := Option.bind_eq_some_iff.mp hs
  have hconn := hr.conns c (List.mem_of_getElem? hc)
  cases hcall : r.source.call env.dbg c.pusher (getCall env c.push.conn ws) with
  | ok x =>
    obtain ⟨rep, s⟩ := x
    rw [hcall] at hs
    cases rep with
    | get res chan =>
      obtain ⟨p, hp, rfl⟩ := Option.map_eq_some_iff.mp hs
      obtain ⟨htracked, hsound, hsmall⟩ := hr.call hcnt hseq hcall
      obtain ⟨⟨hph, hposs⟩, hp'⟩ := Option.ite_none_right_eq_some.mp hp
      have hlive : c.push.phase ≠ .returned := by simp [hph]
      obtain ⟨hcur, frames, cur, hpush⟩ := hr.pushed.current hc hconn.pusher hlive
      have hdel : delivery c.pusher ⟨c.pusher, getCall env c.push.conn ws, .get res chan⟩ =
          if res.status = .ok ∨ res.status = .missedFrame then some (chan.seqNum, res.bytes)
          else none := by simp [delivery]
      have htaken : (received c.pusher (r.sent ++
          [⟨c.pusher, getCall env c.push.conn ws, .get res chan⟩])).map Prod.snd = p.taken := by
        obtain rfl := Option.some.inj hp'
        rw [received_concat, hdel, List.map_append, ← hcur]
        simp only [getFrame_done]
        by_cases hst : res.status = .ok ∨ res.status = .missedFrame <;> simp [hst]
      have hshort : res.bytes.length < 2 ^ 32 := by
        by_cases hst : res.status = .ok ∨ res.status = .missedFrame
        · have hmem : (chan.seqNum, res.bytes) ∈ received c.pusher (r.sent ++
              [⟨c.pusher, getCall env c.push.conn ws, .get res chan⟩]) := by
            rw [received_concat, hdel, if_pos hst]
            simp
          exact (short_of_received hsound hsize hsmall hmem).1
        · rw [not_or] at hst
          have hnil : res.bytes = [] := by
            unfold Possible at hposs
            cases h : res.status <;> simp_all
          simp [hnil]
      obtain ⟨hlink, hearlier⟩ : p.link = c.push.link ∧ p.earlier = c.push.earlier := by
        obtain rfl := Option.some.inj hp'
        exact ⟨rfl, rfl⟩
      refine { hr with
        source := htracked, sourceSound := hsound, small := hsmall
        fresh := forall_concat hr.fresh fun _ => by simp [Copies, getCall]
        conns := forall_set hr.conns { hconn with
          order := by simp only [hlink]; exact hconn.order
          stream := by simp only [hlink]; exact hconn.stream }
        pushed := hr.pushed.set hc hlive rfl hearlier (hpush.get hshort hp) htaken
          fun g _ hg => ?_
        pulled := hr.pulled.same hc rfl rfl }
      simp [received_concat, delivery, Ne.symm hg]
    | _ => simp at hs
  | _ => simp [hcall] at hs

omit [DecidableEq H] [DecidableEq K] in
/-- A write adds to the connection and takes nothing. -/
theorem writeFrame_link (penv : PushEnv) (st : PushSt) (calls : List Io.Sys) :
    (∃ w, (st.writeFrame penv calls).link.sent = st.link.sent ++ w) ∧
      (st.writeFrame penv calls).taken = st.taken ∧
      (st.writeFrame penv calls).earlier = st.earlier := by
  unfold PushSt.writeFrame
  dsimp only
  split
  · exact ⟨⟨_, rfl⟩, rfl, rfl⟩
  · split_ifs <;> exact ⟨⟨_, rfl⟩, rfl, rfl⟩

omit [DecidableEq H] [DecidableEq K] in
/-- What was written is on its way, or lost. -/
theorem ConnInv.carry {c : Conn H K} {p : PushSt} (h : ConnInv env c) {w : List UInt8}
    (hw : p.link.sent = c.push.link.sent ++ w) : ConnInv env (c.carry p) where
  pusher := h.pusher
  puller := h.puller
  short := h.short
  order := by
    simp only [Conn.carry, hw]
    exact h.order.trans (List.prefix_append _ _)
  stream he := by
    obtain ⟨lost, hsent, hlost⟩ := h.stream he
    cases hc : c.closed with
    | true =>
      refine ⟨lost ++ w, ?_, by simp [Conn.carry, hc]⟩
      simp only [Conn.carry, hc, if_true]
      rw [hw, hsent]
      simp
    | false =>
      refine ⟨[], ?_, fun _ => rfl⟩
      simp only [Conn.carry, hc, Bool.false_eq_true, if_false]
      rw [hw, List.drop_left, hsent, hlost hc]
      simp
  ends he := by simp [Conn.carry, h.ends he]

/-- **A pass of `achd_push_tcp`.** -/
theorem RelayInv.writeStep {i : ℕ} {calls : List Io.Sys}
    (hr : RelayInv env cnt size cnt' size' r) (hq : NoSignal calls)
    (hs : r.next env (.write i calls) = some r') : RelayInv env cnt size cnt' size' r' := by
  obtain ⟨c, hc, hs⟩ := Option.bind_eq_some_iff.mp hs
  obtain ⟨p, hp, rfl⟩ := Option.map_eq_some_iff.mp hs
  have hconn := hr.conns c (List.mem_of_getElem? hc)
  obtain ⟨hph, hp'⟩ := Option.ite_none_right_eq_some.mp hp
  have hlive : c.push.phase ≠ .returned := by simp [hph]
  obtain ⟨hcur, frames, cur, hpush⟩ := hr.pushed.current hc hconn.pusher hlive
  obtain ⟨⟨w, hw⟩, htaken, hearlier⟩ := writeFrame_link env.push c.push calls
  rw [Option.some.inj hp'] at hw htaken hearlier
  obtain ⟨cur', hpush'⟩ := hpush.write hq hp
  exact { hr with
    conns := forall_set hr.conns (hconn.carry hw)
    pushed := hr.pushed.set hc hlive rfl hearlier hpush' (hcur.symm.trans htaken.symm)
      fun _ _ _ => rfl
    pulled := hr.pulled.same hc rfl rfl }

omit [DecidableEq H] [DecidableEq K] in
/-- A connection over which nothing has gone. -/
theorem connInv_new {c : Conn H K} (hpusher : env.pushers c.pusher = true)
    (hpuller : env.pullers c.puller = true) (hputs : c.puts = []) (hunread : c.unread = [])
    (hsent : c.push.link.sent = []) (hreading : c.reading = .active) : ConnInv env c where
  pusher := hpusher
  puller := hpuller
  short := by simp [hputs]
  order := by simp [hputs]
  stream _ := ⟨[], by simp [hputs, hunread, hsent], fun _ => rfl⟩
  ends h := absurd hreading h

/-- **A pass of `achd_reconnect`** in `achd_push_tcp`. -/
theorem RelayInv.attemptStep {i : ℕ} {a : Attempt} {k : K} {n : ℕ}
    (hr : RelayInv env cnt size cnt' size' r)
    (hq : (RelayEvent.attempt i a k n : RelayEvent H K).Quiet)
    (hs : r.next env (.attempt i a k n) = some r') : RelayInv env cnt size cnt' size' r' := by
  obtain ⟨c, hc, hs⟩ := Option.bind_eq_some_iff.mp hs
  obtain ⟨p, hp, hs⟩ := Option.bind_eq_some_iff.mp hs
  have hconn := hr.conns c (List.mem_of_getElem? hc)
  obtain ⟨hph, hp'⟩ := Option.ite_none_right_eq_some.mp hp
  have hlive : c.push.phase ≠ .returned := by simp [hph]
  obtain ⟨hcur, frames, cur, hpush⟩ := hr.pushed.current hc hconn.pusher hlive
  cases a with
  | noSocket =>
    obtain rfl := Option.some.inj hs
    obtain ⟨frames', cur', hpush'⟩ := hpush.attempt (by rfl) hp
    obtain rfl := Option.some.inj hp'
    exact { hr with
      conns := forall_set hr.conns { hconn with }
      pushed := hr.pushed.set hc hlive rfl rfl hpush' hcur.symm fun _ _ _ => rfl
      pulled := hr.pulled.same hc rfl rfl }
  | socket calls accepted =>
    obtain ⟨hnew, hs⟩ := Option.ite_none_right_eq_some.mp hs
    obtain rfl := Option.some.inj hs
    obtain ⟨frames', cur', hpush'⟩ := hpush.attempt (a := .socket calls accepted) ⟨hq, rfl⟩ hp
    obtain rfl := Option.some.inj hp'
    have hsame := hr.pulled.same (d := { c with push := { c.push with phase := .returned } }) hc rfl
      rfl
    -- the old connection stays as it is, to the new one nothing was written yet
    refine { hr with
      conns := forall_concat (forall_set hr.conns { hconn with })
        (connInv_new hconn.pusher hnew.1 rfl rfl rfl rfl)
      pushed := hr.pushed.next hc hconn.pusher hlive rfl rfl rfl hpush'
      pulled := hsame.append (fun e he => ?_) rfl }
    rcases List.mem_or_eq_of_mem_set he with he | rfl
    · exact hnew.2 e he
    · exact hnew.2 c (List.mem_of_getElem? hc)

/-- **The loss of a connection.** -/
theorem RelayInv.loseStep {i n : ℕ} (hr : RelayInv env cnt size cnt' size' r)
    (hs : r.next env (.lose i n) = some r') : RelayInv env cnt size cnt' size' r' := by
  obtain ⟨c, hc, rfl⟩ := Option.map_eq_some_iff.mp hs
  have hconn := hr.conns c (List.mem_of_getElem? hc)
  refine { hr with
    conns := forall_set hr.conns { hconn with stream := fun he => ?_, ends := fun _ => rfl }
    pushed := hr.pushed.same hc rfl rfl
    pulled := hr.pulled.same hc rfl rfl }
  obtain ⟨lost, hsent, -⟩ := hconn.stream he
  refine ⟨c.unread.drop n ++ lost, ?_, fun hc => by simp at hc⟩
  simp only
  rw [hsent, ← List.append_assoc (c.unread.take n), List.take_append_drop]

/-- **A call of a local process on the target.** -/
theorem RelayInv.targetStep {k : K} {c : Call} (hr : RelayInv env cnt size cnt' size' r)
    (hcnt : 2 ≤ cnt') (hseq : (Channel.Runs.puts r.got).length + 1 < 2 ^ 64)
    (hs : r.next env (.target k c) = some r') : RelayInv env cnt size cnt' size' r' := by
  obtain ⟨hk, hs⟩ := Option.ite_none_right_eq_some.mp hs
  rcases call_tracked env.pull.dbg hr.target hcnt hseq k c with hb | ⟨rep, s, hcall, htracked, hok⟩
  · simp [hb] at hs
  · rw [hcall] at hs
    obtain rfl := Option.some.inj hs
    refine { hr with
      target := htracked, targetSound := hr.targetSound.concat hok, pulled := fun g hg => ?_ }
    have hne : k ≠ g := by
      rintro rfl
      simp [hk] at hg
    simpa [putsBy_concat, hne] using hr.pulled g hg

omit [DecidableEq H] [DecidableEq K] in
/-- What is on a connection after the frames that were read. -/
theorem read_of_link {taken fs puts : List (List UInt8)} {link : Link}
    (h : LinkHolds taken link fs) (hfs : fs ⊆ taken) (hshort : ∀ f ∈ taken, Short f)
    (hputs : ∀ f ∈ puts, Short f) (horder : puts.flatMap wire <+: link.sent) :
    ∃ cs rest, fs = puts ++ cs ∧ Part wire Short rest ∧
      link.sent = puts.flatMap wire ++ (cs.flatMap wire ++ rest) := by
  obtain ⟨rest, hsent, hrest⟩ := h
  have hpart : Part wire Short rest := fun hne => by
    obtain ⟨-, f, hf, hp, hlt⟩ := hrest hne
    exact ⟨f, hshort f hf, hp, hlt⟩
  have hle : puts <+: fs := prefixFree_wire.first hpart hputs (fun f hf => hshort f (hfs hf))
    (by rw [← hsent]; exact horder)
  obtain ⟨cs, rfl⟩ := hle
  exact ⟨cs, rest, rfl, hpart, by rw [hsent, List.flatMap_append, List.append_assoc]⟩

/-- The whole frames on a connection. -/
theorem RelayInv.link (hr : RelayInv env cnt size cnt' size' r) {c : Conn H K} (hc : c ∈ r.conns) :
    ∃ fs, LinkHolds ((received c.pusher r.sent).map Prod.snd) c.push.link fs ∧
      fs ⊆ (received c.pusher r.sent).map Prod.snd := by
  obtain ⟨wholes, last, hholds, htaken, -⟩ := (hr.pushed c.pusher (hr.conns c hc).pusher).holds
  have hmem : c.push ∈ (ofPusher c.pusher r.conns).map Conn.push :=
    List.mem_map_of_mem (List.mem_filter.mpr ⟨hc, by simp⟩)
  obtain ⟨fs, hfs, hlink⟩ := exists_of_forall₂ hholds hmem
  refine ⟨fs, hlink, fun f hf => ?_⟩
  simp only at htaken
  rw [htaken]
  exact List.mem_append_left _ (List.mem_flatten.mpr ⟨fs, hfs, hf⟩)

omit [DecidableEq H] in
/-- **A pass of `achd_pull_tcp`** that finds a whole frame puts it. -/
theorem pullTcp_whole (env : RelayEnv H K) {c : Conn H K} {f u : List UInt8} {calls : List Io.Sys}
    (htarget : Tracked cnt' size' r.got r.target) (hcnt : 2 ≤ cnt')
    (hseq : (Channel.Runs.puts r.got).length + 1 < 2 ^ 64) (hf : Short f) (hpos : 1 ≤ f.length)
    (hfit : f.length ≤ size') (hq : Smooth calls) (hcome : c.unread = wire f ++ u) :
    ∃ st', pullTcp { env.pull with chan := r.target.chan c.puller }
        (c.pullSt r.target.shm calls) = .inl st' ∧
      st'.puts = c.puts ++ [f] ∧ st'.fd.unread = u ∧
      Tracked cnt' size' (r.got ++ [putEvent env c.puller st' .ok]) ⟨st'.shm, r.target.chan⟩ ∧
      StepOk r.got (putEvent env c.puller st' .ok) ∧
      (putEvent env c.puller st' .ok).frames = [f] := by
  obtain ⟨frame, size, calls', hcalls, hread, hbytes, hdata⟩ :=
    readFrame_whole { env.pull with chan := r.target.chan c.puller } c.conn hf
      (show (⟨c.unread, calls⟩ : Fd).unread = wire f ++ u from hcome) hq
  have hget : achPipeGetSize env.pull.wide frame = f.length :=
    getSize_of_sizeBytes env.pull.wide hf hbytes
  obtain ⟨s', hcall, hgood⟩ := put_good env.pull.dbg htarget.good (by omega) (fun _ => hseq)
    c.puller frame.data hpos hfit
  obtain ⟨rep, s'', hcall', htracked, hok⟩ := put_tracked env.pull.dbg htarget hcnt hseq c.puller
    (some frame.data) f.length
  obtain ⟨rfl, rfl⟩ : Reply.put .ok s'.shm = rep ∧ s' = s'' := by simpa [hcall] using hcall'
  obtain ⟨⟨r₁, shm₁⟩, hout, hs'⟩ := Outcome.bind_eq_ok.mp hcall
  obtain ⟨⟨rfl, hshm⟩, rfl⟩ : (r₁ = .ok ∧ shm₁ = s'.shm) ∧ ⟨shm₁, r.target.chan⟩ = s' := by
    simpa using hs'
  refine ⟨⟨⟨frame, size⟩, ⟨u, calls'⟩, [], shm₁, c.puts ++ [f]⟩, ?_, rfl, rfl, ?_, ?_, ?_⟩
  · simp only [pullTcp, Conn.pullSt, hread, putFrame, hget, hdata, hout]
    rfl
  · simpa only [putEvent, hget] using htracked
  · simpa only [putEvent, hget] using hok
  · simp only [putEvent, hget, Event.frames, hdata]

omit [DecidableEq H] [DecidableEq K] in
/-- A pass that finds none puts nothing. -/
theorem pullTcp_none {penv : PullEnv} {st : PullSt} (hlater : st.later = [])
    (hgot : (readFrame penv st.conn st.fd).gotFrame = false) :
    ∃ conn fd, pullTcp penv st = .inr (.returned { st with conn := conn, fd := fd }) ∨
      pullTcp penv st = .inr (.retrying { st with conn := conn, fd := fd }) := by
  refine ⟨(readFrame penv st.conn st.fd).conn, (readFrame penv st.conn st.fd).fd, ?_⟩
  by_cases hret : (readFrame penv st.conn st.fd).sig = true ∨ penv.reconnect = false
  · exact .inl (by simp [pullTcp, hgot, hret])
  · exact .inr (by simp [pullTcp, hgot, hret, hlater])

/-- **The daemon that pulls is done with a connection.** -/
theorem RelayInv.quit {i : ℕ} {c : Conn H K} (hr : RelayInv env cnt size cnt' size' r)
    (hc : r.conns[i]? = some c) (hclosed : c.closed = true) (hactive : c.reading = .active)
    (conn : AchdConn) (unread : List UInt8) {reading : Reading} (hreading : reading ≠ .active) :
    RelayInv env cnt size cnt' size' { r with
      conns := r.conns.set i { c with conn := conn, unread := unread, reading := reading } } := by
  have hconn := hr.conns c (List.mem_of_getElem? hc)
  exact { hr with
    conns := forall_set hr.conns { hconn with
      stream := fun he => absurd he hreading, ends := fun _ => hclosed }
    pushed := hr.pushed.same hc rfl rfl
    pulled := hr.pulled.set hc (by simp [hactive]) rfl (List.append_nil _).symm
      (List.append_nil _).symm fun _ _ => rfl }

/-- **A pass of `achd_pull_tcp`.** -/
theorem RelayInv.pullStep {i : ℕ} {calls : List Io.Sys} (hr : RelayInv env cnt size cnt' size' r)
    (hcnt : 2 ≤ cnt') (hsize : size < 2 ^ 32) (hfit : size ≤ size')
    (hseq : (Channel.Runs.puts r.got).length + 1 < 2 ^ 64) (hq : Smooth calls)
    (hs : r.next env (.pull i calls) = some r') : RelayInv env cnt size cnt' size' r' := by
  obtain ⟨c, hc, hs⟩ := Option.bind_eq_some_iff.mp hs
  obtain ⟨⟨hactive, hready⟩, hs⟩ := Option.ite_none_right_eq_some.mp hs
  have hmem := List.mem_of_getElem? hc
  have hconn := hr.conns c hmem
  have hlive : c.reading ≠ .left := by simp [hactive]
  obtain ⟨lost, hsent, hlost⟩ := hconn.stream hactive
  have hshorts := hr.shorts hsize c.pusher
  obtain ⟨fs, hlink, hfs⟩ := hr.link hmem
  obtain ⟨cs, rest, rfl, hrest, hstream⟩ := read_of_link hlink hfs
    (fun f hf => (hshorts f hf).1) hconn.short hconn.order
  rw [hsent, List.append_cancel_left_eq] at hstream
  rcases come_cases (fun f hf => (hshorts f (hfs (List.mem_append_right _ hf))).1) hrest
    hstream with ⟨f, ys, u, rfl, hcome, hu⟩ | hpart
  · -- a whole frame has come
    have hf := hshorts f (hfs (by simp))
    obtain ⟨kept, hinv⟩ := hr.source.good.inv
    have hpos : 1 ≤ f.length := List.length_pos_iff.mpr (hinv.nonempty f hf.2)
    obtain ⟨st', hpull, hputs, hun, htracked, hok, hframes⟩ := pullTcp_whole env
      hr.target hcnt hseq hf.1 hpos ((hr.small f hf.2).trans hfit) hq hcome
    rw [hpull] at hs
    obtain rfl := Option.some.inj hs
    refine { hr with
      target := htracked, targetSound := hr.targetSound.concat hok
      conns := forall_set hr.conns { hconn with
        short := ?_, order := ?_, stream := fun _ => ⟨lost, ?_, hlost⟩
        ends := fun h => absurd rfl h }
      pushed := hr.pushed.same hc rfl rfl
      pulled := hr.pulled.set hc hlive rfl hputs ?_ fun g hg => ?_ }
    · simp only [hputs]
      exact forall_concat hconn.short hf.1
    · simp only [hputs]
      rw [hsent, hcome]
      simp
    · simp only [hputs]
      rw [hsent, hcome, hun]
      simp
    · simp only [RelaySt.afterPull]
      rw [putsBy_concat, if_pos (show (putEvent env c.puller st' .ok).handle = c.puller from rfl),
        hframes]
    · simp only [RelaySt.afterPull]
      rw [putsBy_concat, if_neg (show (putEvent env c.puller st' .ok).handle ≠ g from Ne.symm hg),
        List.append_nil]
  · -- the connection was closed before the rest of the frame came
    obtain ⟨f, n, hf, hn, hfd⟩ := part_take hpart
    have hclosed := hready.resolve_right (not_arrived hpart)
    have hcut := readFrame_cut { env.pull with chan := r.target.chan c.puller } c.conn hf hn
      (show (⟨c.unread, calls⟩ : Fd).unread = _ from hfd) hq
    obtain ⟨conn, fd, hpull | hpull⟩ := pullTcp_none
      (show (c.pullSt r.target.shm calls).later = [] from rfl) hcut
    · rw [hpull] at hs
      obtain rfl := Option.some.inj hs
      simpa [RelaySt.afterPull, Conn.pullSt] using
        hr.quit hc hclosed hactive conn fd.unread (by simp : Reading.left ≠ .active)
    · rw [hpull] at hs
      obtain rfl := Option.some.inj hs
      simpa [RelaySt.afterPull, Conn.pullSt] using
        hr.quit hc hclosed hactive conn fd.unread (by simp : Reading.lost ≠ .active)

/-- **A pass of `achd_reconnect`** in `achd_pull_tcp`. -/
theorem RelayInv.redialStep {i : ℕ} {h : H} {n : ℕ} (hr : RelayInv env cnt size cnt' size' r)
    (hcnt : 2 ≤ cnt) (hseq : (Channel.Runs.puts r.sent).length + 1 < 2 ^ 64)
    (hs : r.next env (.redial i h n) = some r') : RelayInv env cnt size cnt' size' r' := by
  obtain ⟨c, hc, hs⟩ := Option.bind_eq_some_iff.mp hs
  obtain ⟨⟨hlost, hnew⟩, hs⟩ := Option.ite_none_right_eq_some.mp hs
  have hconn := hr.conns c (List.mem_of_getElem? hc)
  split at hs
  · rename_i chan s hcall
    obtain rfl := Option.some.inj hs
    obtain ⟨htracked, hsound, hsmall⟩ := hr.call hcnt hseq hcall
    have hclosed : c.closed = true := hconn.ends (by simp [hlost])
    have hsame := hr.pushed.same (d := { c with reading := .left }) hc rfl rfl
    have hpushed : Pushed env (r.conns.set i { c with reading := .left } ++
        [⟨h, .start env.push n, false, [], c.puller, c.conn, [], .active⟩])
        fun g => (received g r.sent).map Prod.snd := by
      refine hsame.append (fun e he => ?_) rfl rfl (pushInv_start env.push n)
      rcases List.mem_or_eq_of_mem_set he with he | rfl
      · exact hnew.2 e he
      · exact hnew.2 c (List.mem_of_getElem? hc)
    have hold : ∀ e ∈ r.conns.set i { c with reading := .left }, ConnInv env e :=
      forall_set hr.conns { hconn with stream := fun he => by simp at he, ends := fun _ => hclosed }
    refine { hr with
      source := htracked, sourceSound := hsound, small := hsmall
      fresh := forall_concat hr.fresh fun _ => id
      conns := forall_concat hold (connInv_new hnew.1 hconn.puller rfl rfl rfl rfl)
      pushed := fun g hg => ?_
      pulled := hr.pulled.next hc (by simp [hlost]) rfl rfl }
    simpa [received_concat, delivery] using hpushed g hg
  · simp at hs

/-- The daemons at the beginning. -/
theorem relayInv_start (env : RelayEnv H K) {cnt size cnt' size' : ℕ} {shm shm' : AchHeader} {h : H}
    {k : K} (hh : env.pushers h = true) (hk : env.pullers k = true) (n n' : ℕ)
    (hs : Tracked cnt size [] (⟨shm, fun _ => openedChan shm⟩ : Channel.Runs.Sys H))
    (ht : Tracked cnt' size' [] (⟨shm', fun _ => openedChan shm'⟩ : Channel.Runs.Sys K)) :
    RelayInv env cnt size cnt' size' (.start env shm shm' h k n n') where
  source := hs
  sourceSound := fun pre e post he => by simp [RelaySt.start] at he
  small := by simp [RelaySt.start, Channel.Runs.puts]
  target := ht
  targetSound := fun pre e post he => by simp [RelaySt.start] at he
  fresh := by simp [RelaySt.start]
  conns := by
    simp only [RelaySt.start, List.mem_singleton, forall_eq]
    exact connInv_new hh hk rfl rfl rfl rfl
  pushed := by
    have hnil : Pushed env ([] : List (Conn H K)) fun _ => [] := fun _ _ => .nil
    exact hnil.append (by simp) rfl rfl (pushInv_start env.push n)
  pulled := by
    have hnil : Pulled env ([] : List (Conn H K)) fun _ => [] := fun _ _ => .nil
    exact hnil.append (by simp) rfl

/-- A step puts at most one frame. -/
theorem count_next {e : RelayEvent H K} (hs : r.next env e = some r') :
    r'.count ≤ r.count + if e.puts then 1 else 0 := by
  unfold RelaySt.count
  cases e with
  | source h c =>
    obtain ⟨-, hs⟩ := Option.ite_none_right_eq_some.mp hs
    split at hs
    · rename_i rep s _
      obtain rfl := Option.some.inj hs
      have := length_puts_concat r.sent h c rep
      have heq : (RelayEvent.source h c : RelayEvent H K).puts = c.isPut := rfl
      simp only [heq]
      omega
    · simp at hs
  | get i ws =>
    obtain ⟨c, -, hs⟩ := Option.bind_eq_some_iff.mp hs
    split at hs
    · rename_i res chan s _
      obtain ⟨p, -, rfl⟩ := Option.map_eq_some_iff.mp hs
      have := length_puts_concat r.sent c.pusher (getCall env c.push.conn ws) (.get res chan)
      simp only [getCall, Call.isPut, Bool.false_eq_true, if_false] at this
      simp only [RelayEvent.puts, Bool.false_eq_true, if_false, getCall]
      omega
    · simp at hs
  | write i calls =>
    obtain ⟨c, -, hs⟩ := Option.bind_eq_some_iff.mp hs
    obtain ⟨p, -, rfl⟩ := Option.map_eq_some_iff.mp hs
    simp [RelayEvent.puts]
  | attempt i a k n =>
    obtain ⟨c, -, hs⟩ := Option.bind_eq_some_iff.mp hs
    obtain ⟨p, -, hs⟩ := Option.bind_eq_some_iff.mp hs
    cases a with
    | noSocket =>
      obtain rfl := Option.some.inj hs
      simp [RelayEvent.puts]
    | socket calls accepted =>
      obtain ⟨-, hs⟩ := Option.ite_none_right_eq_some.mp hs
      obtain rfl := Option.some.inj hs
      simp [RelayEvent.puts]
  | lose i n =>
    obtain ⟨c, -, rfl⟩ := Option.map_eq_some_iff.mp hs
    simp [RelayEvent.puts]
  | pull i calls =>
    obtain ⟨c, -, hs⟩ := Option.bind_eq_some_iff.mp hs
    obtain ⟨-, hs⟩ := Option.ite_none_right_eq_some.mp hs
    have hput : ∀ st s, (Channel.Runs.puts (r.got ++ [putEvent env c.puller st s])).length ≤
        (Channel.Runs.puts r.got).length + 1 := fun st s => by
      have := length_puts_concat r.got c.puller (.put (some st.conn.pipeframe.data)
        (achPipeGetSize env.pull.wide st.conn.pipeframe)) (.put s st.shm)
      simpa only [Call.isPut, if_true, putEvent] using this
    split at hs
    · rename_i st _
      obtain rfl := Option.some.inj hs
      have := hput st .ok
      simp only [RelayEvent.puts, if_true, RelaySt.afterPull]
      omega
    · obtain rfl := Option.some.inj hs
      simp [RelayEvent.puts, RelaySt.afterPull]
    · obtain rfl := Option.some.inj hs
      simp [RelayEvent.puts, RelaySt.afterPull]
    · rename_i s st _
      obtain rfl := Option.some.inj hs
      have := hput st s
      simp only [RelayEvent.puts, if_true, RelaySt.afterPull]
      omega
    · simp at hs
  | redial i h n =>
    obtain ⟨c, -, hs⟩ := Option.bind_eq_some_iff.mp hs
    obtain ⟨-, hs⟩ := Option.ite_none_right_eq_some.mp hs
    split at hs
    · rename_i chan s _
      obtain rfl := Option.some.inj hs
      have := length_puts_concat r.sent h .flush (.flush .ok chan)
      simp only [Call.isPut, Bool.false_eq_true, if_false] at this
      simp only [RelayEvent.puts, Bool.false_eq_true, if_false]
      omega
    · simp at hs
  | target k c =>
    obtain ⟨-, hs⟩ := Option.ite_none_right_eq_some.mp hs
    split at hs
    · rename_i rep s _
      obtain rfl := Option.some.inj hs
      have := length_puts_concat r.got k c rep
      have heq : (RelayEvent.target k c : RelayEvent H K).puts = c.isPut := rfl
      simp only [heq]
      omega
    · simp at hs

/-- **The step lemma.** -/
theorem RelayInv.step {e : RelayEvent H K} (hr : RelayInv env cnt size cnt' size' r)
    (hcnt : 2 ≤ cnt) (hcnt' : 2 ≤ cnt') (hsize : size < 2 ^ 32) (hfit : size ≤ size')
    (hseq : r.count + 1 < 2 ^ 64) (hq : e.Quiet) (hs : r.next env e = some r') :
    RelayInv env cnt size cnt' size' r' := by
  unfold RelaySt.count at hseq
  cases e with
  | source h c => exact hr.sourceStep hcnt (by omega) hs
  | get i ws => exact hr.getStep hcnt hsize (by omega) hs
  | write i calls => exact hr.writeStep hq hs
  | attempt i a k n => exact hr.attemptStep hq hs
  | lose i n => exact hr.loseStep hs
  | pull i calls => exact hr.pullStep hcnt' hsize hfit (by omega) hq hs
  | redial i h n => exact hr.redialStep hcnt (by omega) hs
  | target k c => exact hr.targetStep hcnt' (by omega) hs

end

/-- The frames `fs` were written whole to the connection, and those put from it are the first ones
of them: all of them while it is open and nothing is on its way. -/
def Carries (c : Conn H K) (fs : List (List UInt8)) : Prop :=
  c.puts <+: fs ∧ (c.closed = false → c.unread = [] → c.puts = fs)

section
variable {env : RelayEnv H K} {cnt size cnt' size' : ℕ} {r : RelaySt H K}

/-- **What goes over the connections of a daemon.** -/
theorem RelayInv.wholes (hr : RelayInv env cnt size cnt' size' r) (hsize : size < 2 ^ 32) {h : H}
    (hh : env.pushers h = true) : ∃ wholes last,
    List.Forall₂ Carries (ofPusher h r.conns) wholes ∧
      (received h r.sent).map Prod.snd = wholes.flatten ++ last ∧ last.length ≤ 1 ∧
      ∀ c ∈ ofPusher h r.conns, c.push.phase = .getFrame → last = [] := by
  obtain ⟨wholes, last, hholds, htaken, hlast, hdone⟩ := (hr.pushed h hh).holds
  rw [List.forall₂_map_left_iff] at hholds
  refine ⟨wholes, last, (forall₂_mem hholds).imp fun c fs hc => ?_, htaken, hlast,
    fun c hc => hdone c.push (List.mem_map_of_mem hc)⟩
  obtain ⟨hlink, hmem, hfs⟩ := hc
  have hconn := hr.conns c (List.mem_filter.mp hmem).1
  obtain ⟨cs, rest, rfl, -, hstream⟩ := read_of_link hlink
    (fun f hf => by
      rw [htaken]
      exact List.mem_append_left _ (List.mem_flatten.mpr ⟨fs, hfs, hf⟩))
    (fun f hf => (hr.shorts hsize h f hf).1) hconn.short hconn.order
  refine ⟨List.prefix_append _ _, fun hopen hempty => ?_⟩
  have hactive : c.reading = .active := by
    by_contra hne
    simp [hconn.ends hne] at hopen
  -- nothing is on the connection but what was read
  obtain ⟨lost, hsent, hlost⟩ := hconn.stream hactive
  rw [hsent, hlost hopen, hempty, List.append_cancel_left_eq] at hstream
  have hflat : cs.flatMap wire = [] := (List.append_eq_nil_iff.mp hstream.symm).1
  have hnil : cs = [] := List.eq_nil_iff_forall_not_mem.mpr fun f hf => by
    have := congrArg List.length (List.flatMap_eq_nil_iff.mp hflat f hf)
    simp at this
  rw [hnil, List.append_nil]

/-- What a daemon that pulls has put. -/
theorem RelayInv.puts (hr : RelayInv env cnt size cnt' size' r) {k : K}
    (hk : env.pullers k = true) : putsBy k r.got = (ofPuller k r.conns).flatMap Conn.puts := by
  have h := (hr.pulled k hk).puts_eq
  rw [List.flatMap_map] at h
  exact h

/-- What was put from a connection is a part of what its daemon was given. -/
theorem RelayInv.part (hr : RelayInv env cnt size cnt' size' r) (hsize : size < 2 ^ 32)
    {c : Conn H K} (hc : c ∈ r.conns) :
    c.puts.Sublist ((received c.pusher r.sent).map Prod.snd) := by
  obtain ⟨wholes, last, hcarry, htaken, -⟩ := hr.wholes hsize (hr.conns c hc).pusher
  obtain ⟨fs, hfs, hputs, -⟩ := exists_of_forall₂ hcarry (List.mem_filter.mpr ⟨hc, by simp⟩)
  rw [htaken]
  exact (hputs.sublist.trans (List.sublist_flatten_of_mem hfs)).trans (List.sublist_append_left _ _)

/-- A handle that no daemon has used was given nothing. -/
theorem RelayInv.unused (hr : RelayInv env cnt size cnt' size' r) {g : H}
    (hg : NewPusher env r.conns g) : received g r.sent = [] := by
  have hchain := hr.pushed g hg.1
  have hnil : ofPusher g r.conns = [] := by
    rw [ofPusher, List.filter_eq_nil_iff]
    exact fun c hc => by simpa using hg.2 c hc
  rw [hnil, List.map_nil] at hchain
  exact List.map_eq_nil_iff.mp hchain.eq_nil

omit [DecidableEq H] [DecidableEq K] in
/-- The frames put are some of those that were written whole. -/
theorem sublist_of_carries {cs : List (Conn H K)} {wholes : List (List (List UInt8))}
    (h : List.Forall₂ Carries cs wholes) : (cs.flatMap Conn.puts).Sublist wholes.flatten := by
  induction h with
  | nil => exact List.Sublist.refl []
  | cons hc _ ih =>
    rw [List.flatMap_cons, List.flatten_cons]
    exact hc.1.sublist.append ih

/-- If the others put nothing, what is in the channel is what the handle put. -/
theorem putsBy_eq {k : K} {evs : List (Event K)} (h : ∀ e ∈ evs, e.handle ≠ k → e.frames = []) :
    putsBy k evs = Channel.Runs.puts evs := by
  induction evs using List.reverseRecOn with
  | nil => rfl
  | append_singleton evs e ih =>
    rw [putsBy_concat, puts_concat, ih fun d hd => h d (List.mem_append_left _ hd)]
    by_cases he : e.handle = k
    · rw [if_pos he]
    · rw [if_neg he, h e (by simp) he]

/-- A handle that has put nothing. -/
theorem frames_of_putsBy {k : K} {evs : List (Event K)} (h : putsBy k evs = []) {e : Event K}
    (he : e ∈ evs) (hk : e.handle = k) : e.frames = [] :=
  List.flatMap_eq_nil_iff.mp h e (List.mem_filter.mpr ⟨he, by simpa using hk⟩)

/-- If one daemon pulls, and local processes put nothing into the target, what is in it was put from
its connections, one after the other. -/
theorem RelayInv.single (hr : RelayInv env cnt size cnt' size' r) {k : K}
    (hk : env.pullers k = true) (hone : ∀ c ∈ r.conns, c.puller = k)
    (honly : ∀ e ∈ r.got, env.pullers e.handle = false → e.frames = []) :
    Channel.Runs.puts r.got = r.conns.flatMap Conn.puts := by
  have hother : ∀ e ∈ r.got, e.handle ≠ k → e.frames = [] := fun e he hne => by
    cases hek : env.pullers e.handle with
    | false => exact honly e he hek
    | true =>
      refine frames_of_putsBy ?_ he rfl
      have hnil : ofPuller e.handle r.conns = [] := by
        rw [ofPuller, List.filter_eq_nil_iff]
        exact fun c hc => by simpa [hone c hc] using Ne.symm hne
      rw [hr.puts hek, hnil, List.flatMap_nil]
  have hputs := hr.puts hk
  rw [putsBy_eq hother, ofPuller, List.filter_eq_self.mpr] at hputs
  · exact hputs
  · exact fun c hc => by simpa using hone c hc

end

end Ach.Daemon.Carry
