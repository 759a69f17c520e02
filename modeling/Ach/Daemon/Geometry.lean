import Ach.Channel.History
import Ach.Daemon.ErrorReply

/-! # The geometry of a new channel

Where a client finds no local channel it creates one like the channel of the server. The numbers
come with the response of `achd_serve`: the count of frames, and the size of the data array divided
by the count. They are printed from a `size_t`, read into a `long`, kept in an `int`, and given to
`ach_create` as `size_t` again; a zero stands for the default. The new channel has the count and the
size of the one it is made for if and only if both are below `2 ^ 31` (`geometry_iff`). It can be
opened then, since the server has opened the one it is made for: what `mmap` makes of the length
`ach_open` computes depends on nothing but the two sizes. -/

namespace Ach.Daemon.Geometry

open Ach.Lib.Run Ach.Lib.Word Ach.Lib.Text
open Ach.Channel.Types Ach.Channel.Create Ach.Channel.History
open Ach.Daemon.Io Ach.Daemon.Headers Ach.Daemon.Request Ach.Daemon.ErrorReply

/-! ### The server -/

/-- The text `achd_serve` prints before its handler runs; the handler's `connect` prints first. -/
def responseText (connect : Connect) (port : ℕ) (shm : AchHeader) : List UInt8 :=
  connectText connect port ++ (headerLine "frame-count" (decimal shm.indexCnt) ++
    (headerLine "frame-size" (decimal (shm.dataSize / shm.indexCnt)) ++
      (ascii "status: " ++ decimal (statusCode .ok) ++ ascii " # " ++
        ascii (achResultToString .ok) ++ ascii "\n" ++ ascii ".\n")))

/-! ### The client -/

/-- `ACH_DEFAULT_FRAME_COUNT` -/
def achDefaultFrameCount : ℕ := 16

/-- `ACH_DEFAULT_FRAME_SIZE` -/
def achDefaultFrameSize : ℕ := 512

/-- The conversion of an `int` to a `size_t`. -/
def toSizeT (i : ℤ) : ℕ := (i % 2 ^ 64).toNat

/-- The call of `ach_create` in `server_connect`. -/
def createLocal (dbg : Bool) (env : CreateEnv) (name : List UInt8) (recv : AchdHeaders) :
    Outcome (Except AchStatus AchHeader) :=
  let frameSize := if recv.frameSize ≠ 0 then recv.frameSize else achDefaultFrameSize
  let frameCount := if recv.frameCount ≠ 0 then recv.frameCount else achDefaultFrameCount
  achCreate dbg env name (toSizeT frameCount) (toSizeT frameSize) false

/-- The part of `server_connect` that opens the channel, up to `ach_flush`. `opened` is what the
first `ach_open` gives: the block of the channel, or an error. -/
def tryCreate (dbg : Bool) (env : CreateEnv) (reopen : OpenEnv) (name : List UInt8)
    (recv : AchdHeaders) (opened : Except AchStatus AchHeader) :
    Outcome (Except Report AchHeader) :=
  match opened with
  | .ok shm => .ok (.ok shm)
  | .error .enoent =>
    (createLocal dbg env name recv).bind fun r =>
      match r with
      | .error e => .ok (.error ⟨statusCode e, ascii "Couldn't create channel\n"⟩)
      | .ok shm =>
        (achOpen reopen name false shm).bind fun r =>
          match r with
          | .error e => .ok (.error ⟨statusCode e, ascii "Couldn't open channel\n"⟩)
          | .ok _ => .ok (.ok shm)
  | .error e => .ok (.error ⟨statusCode e, ascii "Couldn't open channel\n"⟩)

/-- The name is one of a channel, and no system call of `ach_create` and `ach_open` fails. -/
structure Obliging (env : CreateEnv) (reopen : OpenEnv) (name : List UInt8) : Prop where
  name : channelNameOk name = true
  shmOpen : retryIntr env.shmOpen achIntrRetry 0 = none
  ftruncate : retryIntr env.ftruncate achIntrRetry 0 = none
  mmap : env.mmap = true
  pthreadInit : env.pthreadInit = true
  munmap : env.munmap = true
  close : retryIntr env.close achIntrRetry 0 = none
  reopened : retryIntr reopen.shmOpen achIntrRetry 0 = none
  remapped : reopen.mmap = true ∧ reopen.munmap = none ∧ reopen.remap = none

/-- **The client creates a channel like the server's**: it takes the response, and its call of
`ach_create` makes a channel with the count of frames and the data size of the given one. -/
def Negotiated (dbg : Bool) (env : CreateEnv) (name : List UInt8) (errno : Option (List UInt8))
    (fd : Fd) (headers : AchdHeaders) (shm : AchHeader) : Prop :=
  ∃ recv shm', getResponse errno (achdParseHeaders false fd headers) = .ok recv ∧
    createLocal dbg env name recv = .ok (.ok shm') ∧
    shm'.indexCnt = shm.indexCnt ∧ shm'.dataSize = shm.dataSize

/-- **The client has a channel like the server's**: it has created and opened it. -/
def Connected (dbg : Bool) (env : CreateEnv) (reopen : OpenEnv) (name : List UInt8)
    (errno : Option (List UInt8)) (fd : Fd) (headers : AchdHeaders) (shm : AchHeader) : Prop :=
  ∃ recv shm', getResponse errno (achdParseHeaders false fd headers) = .ok recv ∧
    tryCreate dbg env reopen name recv (.error .enoent) = .ok (.ok shm') ∧
    shm'.indexCnt = shm.indexCnt ∧ shm'.dataSize = shm.dataSize

/-! ### Numbers -/

/-- A number as it arrives: printed, read into a `long`, cut to an `int`, and converted back, unless
it is zero. -/
def arrived (n dflt : ℕ) : ℕ := toSizeT (if toInt32 n ≠ 0 then toInt32 n else dflt)

/-- A small number arrives. -/
theorem arrived_small {n : ℕ} (dflt : ℕ) (h1 : 1 ≤ n) (h : n < 2 ^ 31) : arrived n dflt = n := by
  have hint : toInt32 (n : ℤ) = n := by
    unfold toInt32
    rw [Int.bmod_eq_of_le_mul_two] <;> omega
  rw [arrived, hint, if_pos (by omega), toSizeT]
  omega

/-- A number arrives as a small one, or with its sign extended. -/
theorem arrived_cases (n : ℕ) {dflt : ℕ} (hd : dflt < 2 ^ 31) : arrived n dflt < 2 ^ 31 ∨
    ∃ k, n < k * 2 ^ 32 ∧ k * 2 ^ 32 ≤ n + 2 ^ 31 ∧ arrived n dflt + k * 2 ^ 32 = n + 2 ^ 64 := by
  unfold arrived toInt32 toSizeT
  rw [Int.bmod_def]
  have hdiv := Nat.div_add_mod n (2 ^ 32)
  have hmod := Nat.mod_lt n (show 0 < 2 ^ 32 by norm_num)
  by_cases hhalf : n % 2 ^ 32 < 2 ^ 31
  · left
    split_ifs <;> omega
  · right
    refine ⟨n / 2 ^ 32 + 1, by omega, by omega, ?_⟩
    split_ifs <;> omega

theorem arrived_eq_iff {n dflt : ℕ} (hd : dflt < 2 ^ 31) (h1 : 1 ≤ n) (h : n < 2 ^ 63) :
    arrived n dflt = n ↔ n < 2 ^ 31 := by
  constructor
  · intro heq
    rcases arrived_cases n hd with hlt | ⟨k, -, hk, hsum⟩
    · omega
    · omega
  · exact arrived_small dflt h1

/-- **The product tells a wrong size**: what is lost of the size is a multiple of `2 ^ 32`, and the
count is too small to make that a multiple of `2 ^ 64`. -/
theorem wmul_arrived_iff {cnt size dflt : ℕ} (hd : dflt < 2 ^ 31) (hcnt : 1 ≤ cnt)
    (hsize : 1 ≤ size) (hsmall : cnt < 2 ^ 31) (hprod : cnt * size < 2 ^ 63) :
    wmul cnt (arrived size dflt) = cnt * size ↔ size < 2 ^ 31 := by
  constructor
  · intro heq
    by_contra hlarge
    rw [wmul] at heq
    rcases arrived_cases size hd with hlt | ⟨k, hk, hk', hsum⟩
    · -- a smaller size makes a smaller product
      have hmul : cnt * arrived size dflt < cnt * size :=
        Nat.mul_lt_mul_of_pos_left (by omega) (by omega)
      omega
    · have hmul : cnt * arrived size dflt + cnt * k * 2 ^ 32 = cnt * size + cnt * 2 ^ 64 := by
        rw [← Nat.mul_add, ← hsum]
        ring
      have hle : cnt * k * 2 ^ 32 ≤ cnt * size + cnt * 2 ^ 31 := by
        rw [← Nat.mul_add, Nat.mul_assoc]
        exact Nat.mul_le_mul_left cnt hk'
      have hpos : 0 < cnt * k := Nat.mul_pos (by omega) (by omega)
      generalize cnt * arrived size dflt = x at *
      generalize cnt * k = y at *
      generalize cnt * size = z at *
      omega
  · intro hlt
    rw [arrived_small dflt hsize hlt, wmul_eq (by omega)]

/-! ### The response -/

section
variable (headers : AchdHeaders) {n : ℕ} (hn : n < 2 ^ 63)
include hn

theorem set_frameCount : achdSetHeader (ascii "frame-count") (decimal n) headers =
    .ok { headers with frameCount := toInt32 n } := by
  simp +decide [achdSetHeader, achdSetInt, strtol_decimal hn, Except.map]

theorem set_frameSize : achdSetHeader (ascii "frame-size") (decimal n) headers =
    .ok { headers with frameSize := toInt32 n } := by
  simp +decide [achdSetHeader, achdSetInt, strtol_decimal hn, Except.map]

omit headers in
theorem plainLine_number {key : String} (hkey : (ascii key).all plain = true)
    (h2 : 2 ≤ (ascii key).length) (h12 : (ascii key).length ≤ 12) : PlainLine (key, decimal n) := by
  have hlen := length_decimal_le (show n < 2 ^ 64 by omega)
  refine ⟨List.all_eq_true.mp hkey, plain_decimal, h2, ?_⟩
  simp only [achdLineLength]
  omega

end

/-- What `connect` prints is read back. -/
theorem parseHeaders_connect (connect : Connect) {port : ℕ} (hport : port < 2 ^ 16)
    (headers : AchdHeaders) {calls : List Sys} (hs : Smooth calls) {rest : List UInt8} :
    ∃ calls' headers', Smooth calls' ∧
      achdParseHeaders false ⟨connectText connect port ++ rest, calls⟩ headers =
        achdParseHeaders false ⟨rest, calls'⟩ headers' := by
  cases connect with
  | achdConnectNop => exact ⟨calls, headers, hs, rfl⟩
  | achdUdpSock =>
    obtain ⟨calls', hs', h⟩ := parseHeaders_headerLine
      (plainLine_number (show port < 2 ^ 63 by omega) (by decide) (by decide) (by decide)) headers
      hs (set_remotePort headers hport)
    exact ⟨calls', _, hs', h⟩

theorem getResponse_ok (errno : Option (List UInt8)) {h : HeadersEnd} (hst : h.status = .ok)
    (hstatus : h.headers.status = statusCode .ok) : getResponse errno (.ok h) = .ok h.headers := by
  simp [getResponse, hst, hstatus]

/-- **The response is read** to its end, and the numbers are kept as `int`. -/
theorem response_read (connect : Connect) {port : ℕ} (hport : port < 2 ^ 16) {shm : AchHeader}
    (hcnt : shm.indexCnt < 2 ^ 63) (hsize : shm.dataSize / shm.indexCnt < 2 ^ 63)
    (headers : AchdHeaders) {fd : Fd} (hs : Smooth fd.calls) {following : List UInt8}
    (hfd : fd.unread = responseText connect port shm ++ following)
    (errno : Option (List UInt8)) : ∃ recv,
      getResponse errno (achdParseHeaders false fd headers) = .ok recv ∧
        recv.frameCount = toInt32 shm.indexCnt ∧
        recv.frameSize = toInt32 ((shm.dataSize / shm.indexCnt : ℕ) : ℤ) := by
  obtain ⟨unread, calls⟩ := fd
  have htext : unread = connectText connect port ++
      (headerLine "frame-count" (decimal shm.indexCnt) ++
        (headerLine "frame-size" (decimal (shm.dataSize / shm.indexCnt)) ++
          (ascii "status: " ++ decimal (statusCode .ok) ++ ascii " # " ++
            ascii (achResultToString .ok) ++ ascii "\n" ++ 46 :: 10 :: following))) := by
    simp only at hfd
    rw [hfd, responseText, show ascii ".\n" = [46, 10] from rfl]
    simp only [List.append_assoc, List.cons_append, List.nil_append]
  subst htext
  obtain ⟨calls₁, headers₁, hs₁, h₁⟩ := parseHeaders_connect connect hport headers hs
  obtain ⟨calls₂, hs₂, h₂⟩ := parseHeaders_headerLine
    (plainLine_number hcnt (by decide) (by decide) (by decide)) headers₁ hs₁
    (set_frameCount headers₁ hcnt)
  obtain ⟨calls₃, hs₃, h₃⟩ := parseHeaders_headerLine
    (plainLine_number hsize (by decide) (by decide) (by decide)) _ hs₂ (set_frameSize _ hsize)
  obtain ⟨calls₄, hs₄, h₄⟩ := @parseHeaders_statusLine _ calls₃ .ok (46 :: 10 :: following) hs₃
  obtain ⟨calls₅, -, h₅⟩ := @parseHeaders_dot _ calls₄ hs₄ following
  rw [h₁.trans (h₂.trans (h₃.trans (h₄.trans h₅)))]
  refine ⟨_, getResponse_ok errno ?_ ?_, ?_, ?_⟩ <;> simp only
/-! ### The new channel -/

theorem indexCnt_created (cnt size : ℕ) : (created cnt size).indexCnt = cnt := rfl

theorem dataSize_created (cnt size : ℕ) : (created cnt size).dataSize = wmul cnt size := rfl

theorem defaults_small : achDefaultFrameCount < 2 ^ 31 ∧ achDefaultFrameSize < 2 ^ 31 := by
  norm_num [achDefaultFrameCount, achDefaultFrameSize]

section
variable {env : CreateEnv} {reopen : OpenEnv} {name : List UInt8} (h : Obliging env reopen name)
include h

theorem initBlock_eq (dbg : Bool) (cnt size : ℕ) :
    initBlock dbg env cnt size = .ok (.ok (created cnt size)) := by
  have hlen : wadd (wadd (wadd sizeofHeader (wmul (created cnt size).indexFree sizeofIndex))
      (created cnt size).dataFree) (3 * 8) = (created cnt size).len := rfl
  simp [initBlock, h.pthreadInit, hlen]

/-- Only a length that the kernel does not take keeps the channel from being created. -/
theorem achCreate_eq (dbg : Bool) (cnt size : ℕ) : achCreate dbg env name cnt size false =
    if 2 ^ 63 ≤ createLen cnt size then .ok (.error .failedSyscall)
    else .ok (.ok (created cnt size)) := by
  simp [achCreate, h.name, h.shmOpen, h.ftruncate, h.mmap, initBlock_eq h, h.munmap, h.close,
    Outcome.bind]

/-- A channel that can be mapped can be opened. -/
theorem achOpen_created {past : Bool} {shm : AchHeader}
    (hmap : checkMapped (openLen shm) past shm = .ok .ok) (hmagic : shm.magic = achShmMagicNum) :
    achOpen reopen name false shm = .ok (.ok (openedChan shm)) := by
  simp [achOpen, h.name, h.reopened, h.remapped, hmagic, checkMapped_ok hmap, initChan,
    Outcome.bind]

/-- **What `server_connect` makes of the numbers.** -/
theorem createLocal_eq (dbg : Bool) {recv : AchdHeaders} {cnt size : ℕ}
    (hcnt : recv.frameCount = toInt32 cnt) (hsize : recv.frameSize = toInt32 size) :
    createLocal dbg env name recv =
      if 2 ^ 63 ≤ createLen (arrived cnt achDefaultFrameCount) (arrived size achDefaultFrameSize)
      then .ok (.error .failedSyscall)
      else .ok (.ok
        (created (arrived cnt achDefaultFrameCount) (arrived size achDefaultFrameSize))) := by
  have hc : toSizeT (if recv.frameCount ≠ 0 then recv.frameCount else achDefaultFrameCount) =
      arrived cnt achDefaultFrameCount := by rw [hcnt, arrived]
  have hs : toSizeT (if recv.frameSize ≠ 0 then recv.frameSize else achDefaultFrameSize) =
      arrived size achDefaultFrameSize := by rw [hsize, arrived]
  simp only [createLocal, hc, hs, achCreate_eq h]

end

/-- **The negotiation of the geometry.** For every channel of at least one frame of at least one
byte that `ach_create` makes without a wrap-around and that the server opens, what `achd_serve`
prints of it makes the client create a channel of the same count of frames and the same data size if
and only if the count and the size of a frame are below `2 ^ 31`. The client can open this channel
too. -/
theorem geometry_iff {dbg dbg' : Bool} {env env' : CreateEnv} {sopen reopen : OpenEnv}
    {name name' : List UInt8} {mapAnon : Bool} {cnt size port : ℕ} {shm : AchHeader}
    {schan : AchChannel} (hcreate : achCreate dbg env name cnt size mapAnon = .ok (.ok shm))
    (hopen : achOpen sopen name false shm = .ok (.ok schan)) (hcnt : 1 ≤ cnt) (hsize : 1 ≤ size)
    (hwrap : NoWrap cnt size) (hlocal : Obliging env' reopen name') (connect : Connect)
    (hport : port < 2 ^ 16) (headers : AchdHeaders) {fd : Fd} (hs : Smooth fd.calls)
    {following : List UInt8} (hfd : fd.unread = responseText connect port shm ++ following)
    (errno : Option (List UInt8)) :
    (Negotiated dbg' env' name' errno fd headers shm ↔ cnt < 2 ^ 31 ∧ size < 2 ^ 31) ∧
      (Negotiated dbg' env' name' errno fd headers shm →
        Connected dbg' env' reopen name' errno fd headers shm) := by
  obtain ⟨rfl, hlen⟩ := achCreate_ok hcreate
  have hmap := (achOpen_ok hopen).2 rfl
  have hlen' := createLen_eq hwrap
  have hcs : cnt ≤ cnt * size := Nat.le_mul_of_pos_right cnt (by omega)
  have hsc : size ≤ cnt * size := Nat.le_mul_of_pos_left size (by omega)
  have hdata : (created cnt size).dataSize = cnt * size := wmul_eq (by omega)
  have hquot : (created cnt size).dataSize / (created cnt size).indexCnt = size := by
    rw [hdata]
    exact Nat.mul_div_cancel_left size (by omega)
  obtain ⟨recv, hresp, hrcnt, hrsize⟩ := response_read connect hport
    (show (created cnt size).indexCnt < 2 ^ 63 by rw [indexCnt_created]; omega)
    (by rw [hquot]; omega) headers hs hfd errno
  rw [indexCnt_created] at hrcnt
  rw [hquot] at hrsize
  have hmake := createLocal_eq hlocal dbg' hrcnt hrsize
  have hsmall_of : Negotiated dbg' env' name' errno fd headers (created cnt size) →
      cnt < 2 ^ 31 ∧ size < 2 ^ 31 := by
    rintro ⟨recv', shm', hresp', hcreated, hidx, hds⟩
    obtain rfl : recv = recv' := Except.ok.inj (hresp.symm.trans hresp')
    rw [hmake] at hcreated
    split_ifs at hcreated with hbig
    · simp at hcreated
    · obtain rfl := Except.ok.inj (Outcome.ok.inj hcreated)
      rw [indexCnt_created, indexCnt_created] at hidx
      rw [hdata, dataSize_created, hidx] at hds
      have hsmall := (arrived_eq_iff defaults_small.1 hcnt (by omega)).mp hidx
      exact ⟨hsmall,
        (wmul_arrived_iff defaults_small.2 hcnt hsize hsmall (by omega)).mp hds⟩
  have hmake_of : cnt < 2 ^ 31 ∧ size < 2 ^ 31 →
      createLocal dbg' env' name' recv = .ok (.ok (created cnt size)) := by
    rintro ⟨hsmall, hsmall'⟩
    rwa [arrived_small _ hcnt hsmall, arrived_small _ hsize hsmall', if_neg (by omega)] at hmake
  refine ⟨⟨hsmall_of, fun hsmall => ?_⟩, fun hneg => ?_⟩
  · exact ⟨recv, created cnt size, hresp, hmake_of hsmall, rfl, rfl⟩
  · refine ⟨recv, created cnt size, hresp, ?_, rfl, rfl⟩
    simp only [tryCreate, hmake_of (hsmall_of hneg), Outcome.bind,
      achOpen_created hlocal hmap rfl]

theorem obliging_allOk : Obliging CreateEnv.allOk OpenEnv.allOk (ascii "x") :=
  ⟨by decide, rfl, rfl, rfl, rfl, rfl, rfl, rfl, rfl, rfl, rfl⟩

theorem geometry_iff_sample :
    Negotiated true CreateEnv.allOk (ascii "x") none
      ⟨responseText .achdUdpSock 40123 (created 2 3) ++ [97], [⟨.upTo 4, false⟩]⟩ AchdHeaders.zero
      (created 2 3) ∧
    Connected true CreateEnv.allOk OpenEnv.allOk (ascii "x") none
      ⟨responseText .achdUdpSock 40123 (created 2 3) ++ [97], [⟨.upTo 4, false⟩]⟩ AchdHeaders.zero
      (created 2 3) := by
  have hcreate : achCreate true CreateEnv.allOk [97] 2 3 false = .ok (.ok (created 2 3)) := by
    decide
  have hopen : achOpen OpenEnv.allOk [97] false (created 2 3) =
      .ok (.ok (openedChan (created 2 3))) := by
    decide
  have h := @geometry_iff true true _ _ _ _ _ _ _ _ _ _ _ _ hcreate hopen (by decide) (by decide)
    (by decide) obliging_allOk .achdUdpSock (show 40123 < 2 ^ 16 by decide) AchdHeaders.zero
    ⟨responseText .achdUdpSock 40123 (created 2 3) ++ [97], [⟨.upTo 4, false⟩]⟩ (by decide) [97] rfl
    none
  have hneg := h.1.mpr ⟨by decide, by decide⟩
  exact ⟨hneg, h.2 hneg⟩

/-- A channel of one frame of `2 ^ 32` bytes: the size arrives as zero, and the client creates a
channel of the default size. -/
theorem large_frame_shrinks :
    achCreate true CreateEnv.allOk (ascii "x") 1 (2 ^ 32) false = .ok (.ok (created 1 (2 ^ 32))) ∧
      achOpen OpenEnv.allOk (ascii "x") false (created 1 (2 ^ 32)) =
        .ok (.ok (openedChan (created 1 (2 ^ 32)))) ∧
      (∃ recv, getResponse none (achdParseHeaders false
          ⟨responseText .achdConnectNop 0 (created 1 (2 ^ 32)), []⟩ AchdHeaders.zero) = .ok recv ∧
        createLocal true CreateEnv.allOk (ascii "x") recv = .ok (.ok (created 1 512)) ∧
        tryCreate true CreateEnv.allOk OpenEnv.allOk (ascii "x") recv (.error .enoent) =
          .ok (.ok (created 1 512))) ∧
      ¬ Negotiated true CreateEnv.allOk (ascii "x") none
        ⟨responseText .achdConnectNop 0 (created 1 (2 ^ 32)), []⟩ AchdHeaders.zero
        (created 1 (2 ^ 32)) := by
  have hquot : (created 1 (2 ^ 32)).dataSize / (created 1 (2 ^ 32)).indexCnt = 2 ^ 32 := by
    norm_num [indexCnt_created, dataSize_created, wmul]
  obtain ⟨recv, hresp, hcnt, hsize⟩ := @response_read .achdConnectNop 0 (by norm_num)
    (created 1 (2 ^ 32)) (by norm_num [indexCnt_created]) (by rw [hquot]; norm_num) AchdHeaders.zero
    ⟨responseText .achdConnectNop 0 (created 1 (2 ^ 32)), []⟩ (by decide) []
    (List.append_nil _).symm none
  rw [hquot] at hsize
  have hmake : createLocal true CreateEnv.allOk (ascii "x") recv = .ok (.ok (created 1 512)) := by
    have harrived : arrived 1 achDefaultFrameCount = 1 ∧
        arrived (2 ^ 32) achDefaultFrameSize = 512 := by decide
    have hlen : ¬ 2 ^ 63 ≤ createLen 1 512 := by decide
    rw [createLocal_eq obliging_allOk true hcnt hsize, indexCnt_created, harrived.1, harrived.2,
      if_neg hlen]
  have hmapped : checkMapped (openLen (created 1 512)) false (created 1 512) = .ok .ok :=
    checkMapped_created (by decide) (by decide)
  have hmapped' : checkMapped (openLen (created 1 (2 ^ 32))) false (created 1 (2 ^ 32)) = .ok .ok :=
    checkMapped_created (by decide) (by decide)
  refine ⟨?_, ?_, ⟨recv, hresp, hmake, ?_⟩, ?_⟩
  · rw [achCreate_eq obliging_allOk, if_neg (by decide)]
  · exact achOpen_created obliging_allOk hmapped' rfl
  · simp only [tryCreate, hmake, Outcome.bind,
      achOpen_created obliging_allOk hmapped rfl]
  · rintro ⟨recv', shm', hresp', hmake', -, hdata⟩
    obtain rfl : recv = recv' := Except.ok.inj (hresp.symm.trans hresp')
    obtain rfl := Except.ok.inj (Outcome.ok.inj (hmake.symm.trans hmake'))
    rw [dataSize_created, dataSize_created] at hdata
    exact absurd hdata (by decide)

end Ach.Daemon.Geometry
