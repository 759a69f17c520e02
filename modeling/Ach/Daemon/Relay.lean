import Ach.Daemon.Carry

/-! # What a relay delivers

Whole runs of two hosts: what every step keeps (`RelayInv`, and for the order of the connections
`Sides`) every run keeps. The calls on both channels keep the delivery contract, every frame that a
daemon takes goes over one connection, and what is put on the other side was read from the
connections, one after the other (`relay_delivers`); so what comes out at the end is a part of what
was put at the beginning (`relay_end_to_end`). -/

namespace Ach.Daemon.Relay

open Ach.Lib.Run Ach.Lib.Framing Ach.Lib.Word Ach.Lib.Replace
open Ach.Channel.Types Ach.Channel.Get Ach.Channel.Create Ach.Channel.Invariant
open Ach.Channel.PutSpec Ach.Channel.GetSpec Ach.Channel.History Ach.Channel.Runs
open Ach.Channel.Delivery
open Ach.Daemon.Io Ach.Daemon.Pipe Ach.Daemon.Push Ach.Daemon.Pull Ach.Daemon.Hosts
open Ach.Daemon.Carry

variable {H K : Type} [DecidableEq H] [DecidableEq K]

/-! ### One connection after the other -/

/-- What was put from the connections before the last one had been put into the source before all
that the daemon at the last one is given. -/
inductive InTurn (sent : List (Event H)) : List (Conn H K) → Prop
  | last {pre : List (Conn H K)} {c : Conn H K} {n : ℕ} (hleft : ∀ e ∈ pre, e.reading = .left)
      (hn : n ≤ position c.pusher sent) (hnew : ∀ d ∈ received c.pusher sent, n < d.1)
      (hold : (pre.flatMap Conn.puts).Sublist ((Channel.Runs.puts sent).take n)) :
      InTurn sent (pre ++ [c])

section
variable {sent : List (Event H)} {cs : List (Conn H K)} {i : ℕ} {c d : Conn H K}

omit [DecidableEq K] in
/-- One more call on the source. -/
theorem InTurn.concat {e : Event H} (h : InTurn sent cs) (hs : Sound (sent ++ [e]))
    (hcopy : ∀ c ∈ cs, e.handle = c.pusher → ¬ Copies e) : InTurn (sent ++ [e]) cs := by
  obtain ⟨hs, he⟩ := hs.init
  cases h with
  | @last pre c n hleft hn hnew hold =>
    have hle := (hs.position_bounds c.pusher).1
    have hold' : (pre.flatMap Conn.puts).Sublist
        ((Channel.Runs.puts (sent ++ [e])).take n) := by
      rwa [puts_concat, List.take_append_of_le_length (hn.trans hle)]
    rcases nextPosition_cases c.pusher (Channel.Runs.puts sent).length (position c.pusher sent) e
      with ⟨d, hd, hp⟩ | ⟨hd, hp⟩ | ⟨hd, hp, -⟩
    · have hmono := he.mono c.pusher d hd
      have hne : d.1 ≠ position c.pusher sent := fun heq =>
        hcopy c (by simp) (handle_of_delivery hd) (he.copies c.pusher d hd heq)
      refine .last hleft (by rw [position_concat, hp]; omega) (fun d' hd' => ?_) hold'
      rw [received_concat, hd] at hd'
      rcases List.mem_append.mp hd' with hd' | hd'
      · exact hnew d' hd'
      · obtain rfl : d' = d := by simpa using hd'
        omega
    · exact .last hleft (by rw [position_concat, hp]; exact hn)
        (by simpa [received_concat, hd] using hnew) hold'
    · exact .last hleft (by rw [position_concat, hp]; exact hn.trans hle)
        (by simpa [received_concat, hd] using hnew) hold'

omit [DecidableEq K] in
/-- A step at one of the connections. -/
theorem InTurn.set (h : InTurn sent cs) (hc : cs[i]? = some c) (hpusher : d.pusher = c.pusher)
    (hd : c.reading = .left → d.reading = .left ∧ d.puts = c.puts) :
    InTurn sent (cs.set i d) := by
  cases h with
  | @last pre b n hleft hn hnew hold =>
    rcases concat_set hc d with ⟨hc, hset⟩ | ⟨rfl, hset⟩
    · obtain ⟨hleft', hputs⟩ := hd (hleft c (List.mem_of_getElem? hc))
      rw [hset]
      refine .last (forall_set hleft hleft') hn hnew ?_
      obtain ⟨xs, ys, hpre, hset⟩ := split_set hc d
      rw [hset, List.flatMap_append, List.flatMap_cons, hputs]
      rwa [hpre, List.flatMap_append, List.flatMap_cons] at hold
    · rw [hset]
      exact .last hleft (hpusher ▸ hn) (hpusher ▸ hnew) hold

omit [DecidableEq K] in
/-- All that was put is a part of what was put into the source. -/
theorem InTurn.all (h : InTurn sent cs) (hs : Sound sent)
    (hcopy : ∀ c ∈ cs, ∀ e ∈ sent, e.handle = c.pusher → ¬ Copies e)
    (hputs : ∀ c ∈ cs, c.puts.Sublist ((received c.pusher sent).map Prod.snd)) :
    (cs.flatMap Conn.puts).Sublist (Channel.Runs.puts sent) := by
  cases h with
  | @last pre c n hleft hn hnew hold =>
    have hle := hn.trans (hs.position_bounds c.pusher).1
    have hdrop := hs.sublist_drop c.pusher hle hnew
    rw [(hs.nodup c.pusher (hcopy c (by simp))).dedup] at hdrop
    rw [List.flatMap_append, ← List.take_append_drop n (Channel.Runs.puts sent)]
    exact hold.append (by simpa using (hputs c (by simp)).trans hdrop)

omit [DecidableEq K] in
/-- The daemon that pulls goes on at a new connection, with a daemon that has flushed. -/
theorem InTurn.next (h : InTurn sent cs) (hc : cs[i]? = some c) (hlive : c.reading ≠ .left)
    {n : Conn H K} (hall : (cs.flatMap Conn.puts).Sublist (Channel.Runs.puts sent))
    (hpos : position n.pusher sent = (Channel.Runs.puts sent).length)
    (hnil : received n.pusher sent = []) :
    InTurn sent (cs.set i { c with reading := .left } ++ [n]) := by
  have hleft : ∀ e ∈ cs.set i { c with reading := .left }, e.reading = .left := by
    cases h with
    | @last pre b m hleft =>
      rcases concat_set hc { c with reading := .left } with ⟨hc, -⟩ | ⟨-, hset⟩
      · exact absurd (hleft c (List.mem_of_getElem? hc)) hlive
      · rw [hset]
        exact forall_concat hleft rfl
  refine .last hleft hpos.ge (by simp [hnil]) ?_
  obtain ⟨xs, ys, hcs, hset⟩ := split_set hc { c with reading := .left }
  rw [List.take_length, hset]
  rw [hcs] at hall
  simpa using hall

end

/-- What follows if a daemon does not reconnect. If it is the one that pushes, all connections are
those of one that pulls, and in turn; if it is the one that pulls, all are those of one that pushes.
-/
structure Sides (env : RelayEnv H K) (h : H) (k : K) (r : RelaySt H K) : Prop where
  turn : env.push.reconnect = false → InTurn r.sent r.conns ∧
    ∀ c ∈ r.conns, c.push.phase ≠ .reconnect ∧ c.puller = k
  one : env.pull.reconnect = false → ∀ c ∈ r.conns, c.reading ≠ .lost ∧ c.pusher = h

section
variable {env : RelayEnv H K} {h : H} {k : K} {cnt size cnt' size' : ℕ} {r r' : RelaySt H K} {i : ℕ}
  {c d : Conn H K}

/-- A call on the source. -/
theorem Sides.concat {e : Event H} {s : Channel.Runs.Sys H}
    (hr : RelayInv env cnt size cnt' size' r) (ht : Sides env h k r) (hs : Sound (r.sent ++ [e]))
    (hcopy : env.pushers e.handle = true → ¬ Copies e) :
    Sides env h k { r with source := s, sent := r.sent ++ [e] } where
  turn hrec := by
    obtain ⟨hturn, hcalm⟩ := ht.turn hrec
    exact ⟨hturn.concat hs fun c hc he => hcopy (he ▸ (hr.conns c hc).pusher), hcalm⟩
  one := ht.one

omit [DecidableEq K] in
/-- A step at one of the connections. -/
theorem Sides.set (ht : Sides env h k r) (hc : r.conns[i]? = some c) (hpusher : d.pusher = c.pusher)
    (hpuller : d.puller = c.puller)
    (hd : c.reading = .left → d.reading = .left ∧ d.puts = c.puts)
    (hphase : env.push.reconnect = false → c.push.phase ≠ .reconnect → d.push.phase ≠ .reconnect)
    (hreading : env.pull.reconnect = false → c.reading ≠ .lost → d.reading ≠ .lost) :
    Sides env h k { r with conns := r.conns.set i d } where
  turn hrec := by
    obtain ⟨hturn, hcalm⟩ := ht.turn hrec
    have hcc := hcalm c (List.mem_of_getElem? hc)
    exact ⟨hturn.set hc hpusher hd,
      forall_set hcalm ⟨hphase hrec hcc.1, hpuller.trans hcc.2⟩⟩
  one hrec := by
    have hcc := ht.one hrec c (List.mem_of_getElem? hc)
    exact forall_set (ht.one hrec) ⟨hreading hrec hcc.1, hpusher.trans hcc.2⟩

end

section
variable {env : RelayEnv H K} {h : H} {k : K} {cnt size cnt' size' : ℕ} {r r' : RelaySt H K}

omit [DecidableEq H] [DecidableEq K] in
/-- Without reconnecting the daemon that pushes does not come to `achd_reconnect`. -/
theorem writeFrame_phase {penv : PushEnv} (hrec : penv.reconnect = false) (st : PushSt)
    (calls : List Io.Sys) : (st.writeFrame penv calls).phase ≠ .reconnect := by
  unfold PushSt.writeFrame
  dsimp only
  split
  · simp
  · split_ifs <;> simp_all

omit [DecidableEq H] [DecidableEq K] in
/-- Without reconnecting the daemon that pulls does not try to. -/
theorem pullTcp_retrying {penv : PullEnv} (hrec : penv.reconnect = false) (st st' : PullSt) :
    pullTcp penv st ≠ .inr (.retrying st') := by
  unfold pullTcp putFrame
  dsimp only
  split_ifs with hgot hsig
  · simp
  · split <;> simp
  · simp
  · simp_all

/-- **The step lemma.** -/
theorem Sides.step {e : RelayEvent H K} (hr : RelayInv env cnt size cnt' size' r)
    (hr' : RelayInv env cnt size cnt' size' r') (hsize : size < 2 ^ 32) (ht : Sides env h k r)
    (hs : r.next env e = some r') : Sides env h k r' := by
  have hsound := hr'.sourceSound
  have hfresh := hr'.fresh
  cases e with
  | source g c =>
    obtain ⟨-, hs⟩ := Option.ite_none_right_eq_some.mp hs
    split at hs
    · obtain rfl := Option.some.inj hs
      exact ht.concat hr hsound (hfresh _ (by simp))
    · simp at hs
  | get i ws =>
    obtain ⟨c, hc, hs⟩ := Option.bind_eq_some_iff.mp hs
    split at hs
    · rename_i res chan s _
      obtain ⟨p, hp, rfl⟩ := Option.map_eq_some_iff.mp hs
      obtain ⟨-, hp⟩ := Option.ite_none_right_eq_some.mp hp
      have hstep := ht.concat (s := s) hr hsound (hfresh _ (by simp))
      refine hstep.set hc rfl rfl (fun hl => ⟨hl, rfl⟩) (fun _ _ => ?_) fun _ hne => hne
      obtain rfl := Option.some.inj hp
      simp only [Bool.false_eq_true, if_false]
      split_ifs <;> simp
    · simp at hs
  | write i calls =>
    obtain ⟨c, hc, hs⟩ := Option.bind_eq_some_iff.mp hs
    obtain ⟨p, hp, rfl⟩ := Option.map_eq_some_iff.mp hs
    obtain ⟨-, hp⟩ := Option.ite_none_right_eq_some.mp hp
    obtain rfl := Option.some.inj hp
    exact ht.set hc rfl rfl (fun hl => ⟨hl, rfl⟩) (fun hrec _ => writeFrame_phase hrec _ _)
      fun _ hne => hne
  | attempt i a g n =>
    obtain ⟨c, hc, hs⟩ := Option.bind_eq_some_iff.mp hs
    obtain ⟨p, hp, hs⟩ := Option.bind_eq_some_iff.mp hs
    obtain ⟨hph, hp⟩ := Option.ite_none_right_eq_some.mp hp
    have hmem := List.mem_of_getElem? hc
    -- a daemon that does not reconnect does not come here
    refine ⟨fun hrec => absurd hph ((ht.turn hrec).2 c hmem).1, fun hrec => ?_⟩
    have hone := ht.one hrec
    cases a with
    | noSocket =>
      obtain rfl := Option.some.inj hs
      exact forall_set hone (hone c hmem)
    | socket calls accepted =>
      obtain ⟨-, hs⟩ := Option.ite_none_right_eq_some.mp hs
      obtain rfl := Option.some.inj hs
      exact forall_concat (forall_set hone (hone c hmem)) ⟨by simp, (hone c hmem).2⟩
  | lose i n =>
    obtain ⟨c, hc, rfl⟩ := Option.map_eq_some_iff.mp hs
    exact ht.set hc rfl rfl (fun hl => ⟨hl, rfl⟩) (fun _ hne => hne) fun _ hne => hne
  | pull i calls =>
    obtain ⟨c, hc, hs⟩ := Option.bind_eq_some_iff.mp hs
    obtain ⟨⟨hactive, -⟩, hs⟩ := Option.ite_none_right_eq_some.mp hs
    have hleft : c.reading ≠ .left := by simp [hactive]
    have hset : ∀ st reading (calls : List (Event K)),
        (env.pull.reconnect = false → reading ≠ .lost) →
        Sides env h k (r.afterPull i c st reading calls) := fun st reading calls hreading => by
      have hd := ht.set (d := { c with
        conn := st.conn, unread := st.fd.unread, puts := st.puts, reading := reading }) hc rfl rfl
        (fun hl => absurd hl hleft) (fun _ hne => hne) fun hrec _ => hreading hrec
      exact ⟨hd.turn, hd.one⟩
    split at hs
    · obtain rfl := Option.some.inj hs
      exact hset _ _ _ (by simp)
    · obtain rfl := Option.some.inj hs
      exact hset _ _ _ (by simp)
    · rename_i st hpull
      obtain rfl := Option.some.inj hs
      exact hset _ _ _ fun hrec => absurd hpull (pullTcp_retrying (by exact hrec) _ _)
    · obtain rfl := Option.some.inj hs
      exact hset _ _ _ (by simp)
    · simp at hs
  | redial i g n =>
    obtain ⟨c, hc, hs⟩ := Option.bind_eq_some_iff.mp hs
    obtain ⟨⟨hlost, hnew⟩, hs⟩ := Option.ite_none_right_eq_some.mp hs
    have hmem := List.mem_of_getElem? hc
    split at hs
    · obtain rfl := Option.some.inj hs
      refine ⟨fun hrec => ?_, fun hrec => absurd hlost (ht.one hrec c hmem).1⟩
      obtain ⟨hturn, hcalm⟩ := ht.turn hrec
      have hturn' := hturn.concat hsound fun c hc he =>
        hfresh _ (by simp) (he ▸ (hr.conns c hc).pusher)
      have hall := hturn'.all hsound (fun c hc e he hec =>
        hfresh e he (hec ▸ (hr.conns c hc).pusher)) fun c hc => by
          simpa [received_concat, delivery] using hr.part hsize hc
      have hnil := hr.unused hnew
      refine ⟨hturn'.next hc (by simp [hlost]) hall ?_ ?_, ?_⟩
      · simp [position_concat, nextPosition, puts_concat, Event.frames]
      · simpa [received_concat, delivery] using hnil
      · exact forall_concat (forall_set hcalm (hcalm c hmem)) ⟨by simp [PushSt.start],
          (hcalm c hmem).2⟩
    · simp at hs
  | target g c =>
    obtain ⟨-, hs⟩ := Option.ite_none_right_eq_some.mp hs
    split at hs
    · obtain rfl := Option.some.inj hs
      exact ⟨ht.turn, ht.one⟩
    · simp at hs

end

omit [DecidableEq K] in
/-- The daemons at the beginning. -/
theorem sides_start (env : RelayEnv H K) (shm shm' : AchHeader) (h : H) (k : K) (n n' : ℕ) :
    Sides env h k (.start env shm shm' h k n n') where
  turn _ := by
    have hlast : ∀ c : Conn H K, InTurn [] ([] ++ [c]) := fun c =>
      .last (n := 0) (by simp) (by simp) (by simp [received]) (by simp)
    exact ⟨hlast _, by simp [RelaySt.start, PushSt.start]⟩
  one _ := by simp [RelaySt.start]

/-! ### Whole runs -/

/-- **The run lemma.** -/
theorem relay_inv {env : RelayEnv H K} {h : H} {k : K} {cnt size cnt' size' : ℕ} {r' : RelaySt H K}
    (hcnt : 2 ≤ cnt) (hcnt' : 2 ≤ cnt') (hsize : size < 2 ^ 32) (hfit : size ≤ size') :
    ∀ (es : List (RelayEvent H K)) (r : RelaySt H K), RelayInv env cnt size cnt' size' r →
      Sides env h k r → (∀ e ∈ es, e.Quiet) →
      r.count + es.countP RelayEvent.puts < 2 ^ 64 - 1 → relay env es r = some r' →
      RelayInv env cnt size cnt' size' r' ∧ Sides env h k r' := by
  intro es
  induction es with
  | nil =>
    intro r hr ht _ _ hrun
    obtain rfl := Option.some.inj hrun
    exact ⟨hr, ht⟩
  | cons e es ih =>
    intro r hr ht hq hn hrun
    obtain ⟨r₁, hs, hrun⟩ := Option.bind_eq_some_iff.mp hrun
    rw [List.countP_cons] at hn
    have hcount := count_next hs
    have hr₁ := hr.step hcnt hcnt' hsize hfit (by omega) (hq e List.mem_cons_self) hs
    exact ih r₁ hr₁ (ht.step hr hr₁ hsize hs) (fun d hd => hq d (List.mem_cons_of_mem e hd))
      (by omega) hrun

/-- What the run of a relay between two channels that `ach_create` made keeps. -/
theorem relay_created (env : RelayEnv H K) {cenv cenv' : CreateEnv} {name name' : List UInt8}
    {cnt size cnt' size' : ℕ} {anon anon' : Bool} {shm shm' : AchHeader}
    (hcreate : achCreate env.dbg cenv name cnt size anon = .ok (.ok shm))
    (hcreate' : achCreate env.pull.dbg cenv' name' cnt' size' anon' = .ok (.ok shm'))
    (hcnt : 2 ≤ cnt) (hcnt' : 2 ≤ cnt') (hwrap : NoWrap cnt size) (hwrap' : NoWrap cnt' size')
    (hsmall : cnt * size < 2 ^ 32) (hfit : cnt * size ≤ cnt' * size') {h : H} {k : K}
    (hh : env.pushers h = true) (hk : env.pullers k = true) {n n' : ℕ}
    {es : List (RelayEvent H K)} (hq : ∀ e ∈ es, e.Quiet)
    (hn : es.countP RelayEvent.puts < 2 ^ 64 - 1) {r : RelaySt H K}
    (hrun : relay env es (.start env shm shm' h k n n') = some r) :
    RelayInv env cnt (cnt * size) cnt' (cnt' * size') r ∧ Sides env h k r := by
  obtain ⟨rfl, hlen⟩ := achCreate_ok hcreate
  obtain ⟨rfl, hlen'⟩ := achCreate_ok hcreate'
  have hs := relayInv_start env hh hk n n' (tracked_created hwrap hlen)
    (tracked_created hwrap' hlen')
  have hmul : wmul cnt size = cnt * size := wmul_eq (by unfold NoWrap at hwrap; omega)
  have hmul' : wmul cnt' size' = cnt' * size' := wmul_eq (by unfold NoWrap at hwrap'; omega)
  rw [hmul, hmul'] at hs
  exact relay_inv hcnt hcnt' hsmall hfit es _ hs (sides_start env _ _ h k n n') hq
    (by simpa [RelaySt.count, RelaySt.start, Channel.Runs.puts] using hn) hrun

/-- **The relay delivers.** Two channels that `ach_create` made, of two slots or more, whose sizes
do not wrap, the target no smaller than the source, and frames shorter than `2 ^ 32`; two daemons
that reconnect or not. After any steps of the daemons and of the local processes in any order, with
connections lost at any point, the calls on both channels keep the delivery contract. The frames a
daemon got are written whole each to one connection, in their order, but for the last one while the
daemon is still at it; what is put from a connection are the first ones of the frames written whole
to it, and all of them if it was not lost and nothing is on its way; and a daemon that pulls puts
what it reads from one connection after the other. -/
theorem relay_delivers (env : RelayEnv H K) {cenv cenv' : CreateEnv} {name name' : List UInt8}
    {cnt size cnt' size' : ℕ} {anon anon' : Bool} {shm shm' : AchHeader}
    (hcreate : achCreate env.dbg cenv name cnt size anon = .ok (.ok shm))
    (hcreate' : achCreate env.pull.dbg cenv' name' cnt' size' anon' = .ok (.ok shm'))
    (hcnt : 2 ≤ cnt) (hcnt' : 2 ≤ cnt') (hwrap : NoWrap cnt size) (hwrap' : NoWrap cnt' size')
    (hsmall : cnt * size < 2 ^ 32) (hfit : cnt * size ≤ cnt' * size') {h : H} {k : K}
    (hh : env.pushers h = true) (hk : env.pullers k = true) {n n' : ℕ}
    {es : List (RelayEvent H K)} (hq : ∀ e ∈ es, e.Quiet)
    (hn : es.countP RelayEvent.puts < 2 ^ 64 - 1) {r : RelaySt H K}
    (hrun : relay env es (.start env shm shm' h k n n') = some r) :
    (∀ g, Contract g r.sent) ∧ (∀ g, Contract g r.got) ∧
      (∀ g, env.pushers g = true → ∃ wholes last,
        List.Forall₂ Carries (ofPusher g r.conns) wholes ∧
        (received g r.sent).map Prod.snd = wholes.flatten ++ last ∧ last.length ≤ 1 ∧
        ∀ c ∈ ofPusher g r.conns, c.push.phase = .getFrame → last = []) ∧
      ∀ g, env.pullers g = true → putsBy g r.got = (ofPuller g r.conns).flatMap Conn.puts := by
  obtain ⟨hr, -⟩ := relay_created env hcreate hcreate' hcnt hcnt' hwrap hwrap' hsmall hfit hh hk hq
    hn hrun
  exact ⟨fun g => hr.sourceSound.contract g, fun g => hr.targetSound.contract g,
    fun g hg => hr.wholes hsmall hg, fun g hg => hr.puts hg⟩

/-- A daemon that pushes and reconnects, with the handle `true`, and servers with the handles `1`
and `2`. -/
def sampleEnv : RelayEnv Bool ℕ where
  push := ⟨.x86, fun _ _ => 0, [9], true⟩
  pull := ⟨true, .x86, fun _ _ => 0, openedChan (created 2 4), false⟩
  dbg := true
  last := false
  pushers := id
  pullers := fun k => decide (k ≠ 0)

/-- Two frames are put; the first one does not fit into the buffer of the pusher at first. It is put
on the other side, where it is read; then the connection is lost in the middle of the second one,
and the daemon writes it again to a new connection. -/
def sampleEvents : List (RelayEvent Bool ℕ) :=
  [.source false (.put (some fun i => i.toUInt8) 3), .get 0 [],
    .source false (.put (some fun _ => 7) 2), .get 0 [],
    .write 0 [⟨.upTo 4, false⟩, ⟨.eintr, false⟩], .get 0 [], .pull 0 [⟨.upTo 8, false⟩],
    .target 0 (.get 4 false ⟨false, false, false⟩ []), .lose 0 0,
    .write 0 [⟨.upTo 3, false⟩, ⟨.fail, false⟩], .pull 0 [], .attempt 0 .noSocket 2 2,
    .attempt 0 (.socket [] true) 2 2, .write 1 [], .pull 1 []]

/-- The relay after these steps. -/
def sampleRelay : Option (RelaySt Bool ℕ) :=
  relay sampleEnv sampleEvents (.start sampleEnv (created 2 3) (created 2 4) true 1 2 2)

theorem relay_delivers_sample : ∃ r, sampleRelay = some r ∧
    received true r.sent = [(1, [0, 1, 2]), (2, [7, 7])] ∧ putsBy 1 r.got = [[0, 1, 2]] ∧
    putsBy 2 r.got = [[7, 7]] ∧ (∀ g, Contract g r.sent) ∧ (∀ g, Contract g r.got) := by
  have hvals : sampleRelay.map (fun r => (received true r.sent, putsBy 1 r.got, putsBy 2 r.got)) =
      some ([(1, [0, 1, 2]), (2, [7, 7])], [[0, 1, 2]], [[7, 7]]) := by decide +kernel
  obtain ⟨r, hr, heq⟩ := Option.map_eq_some_iff.mp hvals
  obtain ⟨hsent, hgot⟩ := Prod.mk.inj heq
  obtain ⟨hgot, hgot'⟩ := Prod.mk.inj hgot
  have h := relay_delivers sampleEnv
    (show achCreate true CreateEnv.allOk [97] 2 3 false = .ok (.ok (created 2 3)) by decide)
    (show achCreate true CreateEnv.allOk [97] 2 4 false = .ok (.ok (created 2 4)) by decide)
    (by decide) (by decide) (by decide) (by decide) (by decide) (by decide) (by decide) (by decide)
    (by decide) (by decide) hr
  exact ⟨r, hr, hsent, hgot, hgot', h.1, h.2.1⟩

/-- **From end to end.** Only the daemons put frames into the target. If the one that pulls is the
only one that may reconnect, or else the servers of the one that pushes put their frames one after
the other, then what a handle of the target got, copies aside, is a part of what was put into the
source, in the same order, however often a connection was lost. And over one connection it is the
beginning of it, if neither the pusher nor the handle flushes or misses a frame. -/
theorem relay_end_to_end (env : RelayEnv H K) {cenv cenv' : CreateEnv} {name name' : List UInt8}
    {cnt size cnt' size' : ℕ} {anon anon' : Bool} {shm shm' : AchHeader}
    (hcreate : achCreate env.dbg cenv name cnt size anon = .ok (.ok shm))
    (hcreate' : achCreate env.pull.dbg cenv' name' cnt' size' anon' = .ok (.ok shm'))
    (hcnt : 2 ≤ cnt) (hcnt' : 2 ≤ cnt') (hwrap : NoWrap cnt size) (hwrap' : NoWrap cnt' size')
    (hsmall : cnt * size < 2 ^ 32) (hfit : cnt * size ≤ cnt' * size') {h : H} {k : K}
    (hh : env.pushers h = true) (hk : env.pullers k = true) {n n' : ℕ}
    {es : List (RelayEvent H K)} (hq : ∀ e ∈ es, e.Quiet)
    (hn : es.countP RelayEvent.puts < 2 ^ 64 - 1) {r : RelaySt H K}
    (hrun : relay env es (.start env shm shm' h k n n') = some r)
    (honly : ∀ e ∈ r.got, env.pullers e.handle = false → e.frames = [])
    (hturn : env.push.reconnect = false ∨
      env.pull.reconnect = false ∧ Channel.Runs.puts r.got = r.conns.flatMap Conn.puts) (g : K) :
    ((received g r.got).dedup.map Prod.snd).Sublist (Channel.Runs.puts r.sent) ∧
      ∀ c, r.conns = [c] → (∀ e ∈ r.sent, e.handle = c.pusher → e.call ≠ .flush ∧ ¬ Missed e) →
        (∀ e ∈ r.got, e.handle = g → e.call ≠ .flush ∧ ¬ Missed e) →
        (received g r.got).dedup.map Prod.snd <+: Channel.Runs.puts r.sent := by
  obtain ⟨hr, hsides⟩ := relay_created env hcreate hcreate' hcnt hcnt' hwrap hwrap' hsmall hfit hh
    hk hq hn hrun
  have hcopy : ∀ g, env.pushers g = true → ∀ e ∈ r.sent, e.handle = g → ¬ Copies e :=
    fun g hg e he heg => hr.fresh e he (heg ▸ hg)
  refine ⟨(hr.targetSound.sublist g).trans ?_, fun c hc hpusher hg => ?_⟩
  · rcases hturn with hrec | ⟨hrec, hturn⟩
    · obtain ⟨hturn, hone⟩ := hsides.turn hrec
      rw [hr.single hk (fun c hc => (hone c hc).2) honly]
      exact hturn.all hr.sourceSound (fun c hc => hcopy c.pusher (hr.conns c hc).pusher)
        fun c hc => hr.part hsmall hc
    · obtain ⟨wholes, last, hcarry, htaken, -⟩ := hr.wholes hsmall hh
      rw [ofPusher, List.filter_eq_self.mpr fun c hc => by simpa using (hsides.one hrec c hc).2]
        at hcarry
      have hsource := hr.sourceSound.sublist h
      rw [(hr.sourceSound.nodup h (hcopy h hh)).dedup] at hsource
      rw [htaken] at hsource
      rw [hturn]
      exact (sublist_of_carries hcarry).trans ((List.sublist_append_left _ _).trans hsource)
  · have hconn := hr.conns c (by simp [hc])
    obtain ⟨wholes, last, hcarry, htaken, -⟩ := hr.wholes hsmall hconn.pusher
    have hsource := hr.sourceSound.first c.pusher (fun e he heh => (hpusher e he heh).1)
      fun e he heh => (hpusher e he heh).2
    rw [(hr.sourceSound.nodup c.pusher (hcopy c.pusher hconn.pusher)).dedup] at hsource
    have hputs : Channel.Runs.puts r.got <+: (received c.pusher r.sent).map Prod.snd := by
      rw [hr.single hconn.puller (by simp [hc]) honly]
      rw [hc] at hcarry ⊢
      rw [ofPusher, List.filter_eq_self.mpr (by simp)] at hcarry
      obtain ⟨fs, us, hfs, hus, rfl⟩ := List.forall₂_cons_left_iff.mp hcarry
      obtain rfl := List.forall₂_nil_left_iff.mp hus
      rw [htaken]
      simpa using hfs.1.trans (List.prefix_append fs last)
    rw [hr.targetSound.first g (fun e he heg => (hg e he heg).1) fun e he heg => (hg e he heg).2]
    rw [hsource] at hputs
    exact (List.take_prefix _ _).trans (hputs.trans (List.take_prefix _ _))

/-- A daemon that pulls and reconnects, with the handle `true`, and servers with the handles `1` and
`2`. -/
def samplePullEnv : RelayEnv ℕ Bool where
  push := ⟨.x86, fun _ _ => 0, [], false⟩
  pull := ⟨true, .x86, fun _ _ => 0, openedChan (created 2 4), true⟩
  dbg := true
  last := false
  pushers := fun h => decide (h ≠ 0)
  pullers := id

/-- Of three frames the second one is lost with the connection. -/
def samplePullEvents : List (RelayEvent ℕ Bool) :=
  [.source 0 (.put (some fun i => i.toUInt8) 3), .get 0 [], .get 0 [], .write 0 [], .pull 0 [],
    .target false (.get 4 false ⟨false, false, false⟩ []), .lose 0 0,
    .source 0 (.put (some fun _ => 7) 2), .get 0 [], .write 0 [], .pull 0 [], .redial 0 2 2,
    .source 0 (.put (some fun _ => 5) 1), .get 1 [], .write 1 [], .pull 1 [],
    .target false (.get 4 false ⟨false, false, false⟩ [])]

/-- The relay after these steps. -/
def samplePullRelay : Option (RelaySt ℕ Bool) :=
  relay samplePullEnv samplePullEvents
    (.start samplePullEnv (created 2 3) (created 2 4) 1 true 2 2)

theorem relay_end_to_end_sample : ∃ r, samplePullRelay = some r ∧
    (received false r.got).map Prod.snd = [[0, 1, 2], [5]] ∧
    ((received false r.got).dedup.map Prod.snd).Sublist (Channel.Runs.puts r.sent) := by
  have hvals : samplePullRelay.map (fun r => ((received false r.got).map Prod.snd,
      r.got.all fun e => e.handle || e.frames.isEmpty)) = some ([[0, 1, 2], [5]], true) := by
    decide +kernel
  obtain ⟨r, hr, heq⟩ := Option.map_eq_some_iff.mp hvals
  obtain ⟨hgot, honly⟩ := Prod.mk.inj heq
  rw [List.all_eq_true] at honly
  refine ⟨r, hr, hgot, (relay_end_to_end samplePullEnv
    (show achCreate true CreateEnv.allOk [97] 2 3 false = .ok (.ok (created 2 3)) by decide)
    (show achCreate true CreateEnv.allOk [97] 2 4 false = .ok (.ok (created 2 4)) by decide)
    (by decide) (by decide) (by decide) (by decide) (by decide) (by decide) (by decide) (by decide)
    (by decide) (by decide) hr (fun e he hk => ?_) (.inl rfl) false).1⟩
  have hk : e.handle = false := hk
  have := honly e he
  rw [hk, Bool.false_or, List.isEmpty_iff] at this
  exact this

end Ach.Daemon.Relay
