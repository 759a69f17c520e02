import Ach.Daemon.Request

/-! # Error replies

Until its handler runs, the server answers an error with a header block: the status and, as the
value of the key `message`, the text of the error (`achd_error_header`). The client reads the block
with `achd_parse_headers`.

A value is not quoted. What a line gives back as a value has no colon, no equals sign, no number
sign and no carriage return (`parseHeaders_message`), and most texts have a colon before the
argument of their format: the client takes such a reply for a malformed header. So a reply is
delivered if and only if its text is one of those without a colon, or says that the channel could
not be opened and the name and the description of the error can be sent
(`error_reply_delivered_iff`). -/

namespace Ach.Daemon.ErrorReply

open Ach.Lib.Regex Ach.Lib.Text
open Ach.Channel.Types Ach.Daemon.Io Ach.Daemon.Headers Ach.Daemon.Request

/-! ### The reply -/

/-- The values of `enum ach_status`. -/
def statusCode : AchStatus → ℕ
  | .ok => 0
  | .overflow => 1
  | .invalidName => 2
  | .badShmFile => 3
  | .failedSyscall => 4
  | .staleFrames => 5
  | .missedFrame => 6
  | .timeout => 7
  | .eexist => 8
  | .enoent => 9
  | .closed => 10
  | .bug => 11
  | .einval => 12
  | .corrupt => 13
  | .badHeader => 14
  | .eacces => 15
  | .canceled => 16

theorem statusCode_ne {code : AchStatus} (h : code ≠ .ok) :
    (statusCode code : ℤ) ≠ statusCode .ok := by
  cases code <;> simp [statusCode] at h ⊢

/-- `ach_result_to_string`. -/
def achResultToString : AchStatus → String
  | .ok => "ACH_OK"
  | .overflow => "ACH_OVERFLOW"
  | .invalidName => "ACH_INVALID_NAME"
  | .badShmFile => "ACH_BAD_SHM_FILE"
  | .failedSyscall => "ACH_FAILED_SYSCALL"
  | .staleFrames => "ACH_STALE_FRAMES"
  | .missedFrame => "ACH_MISSED_FRAME"
  | .timeout => "ACH_TIMEOUT"
  | .closed => "ACH_CLOSED"
  | .eexist => "ACH_EEXIST"
  | .enoent => "ACH_ENOENT"
  | .bug => "ACH_BUG"
  | .einval => "ACH_EINVAL"
  | .corrupt => "ACH_CORRUPT"
  | .badHeader => "ACH_BAD_HEADER"
  | .eacces => "ACH_EACCES"
  | .canceled => "ACH_CANCELED"

/-- What `achd_error_header` prints. -/
def achdErrorHeader (e : CxError) : List UInt8 :=
  ascii "status: " ++ decimal (statusCode e.code) ++ ascii " # " ++
    ascii (achResultToString e.code) ++ ascii "\n" ++ ascii "message: " ++ e.message ++
    ascii "\n.\n"

/-- What `server_connect` reports of an error: the status and the text. -/
structure Report where
  code : ℤ
  message : List UInt8
  deriving DecidableEq, Repr

/-- What `server_connect` makes of the response; `errno` is the description of an error that
`achd_parse_headers` may have left there. -/
def getResponse (errno : Option (List UInt8)) (r : Except CxError HeadersEnd) :
    Except Report AchdHeaders :=
  match r with
  | .error e => .error ⟨statusCode e.code, e.message⟩
  | .ok h =>
    if h.status ≠ .ok then
      match errno with
      | some err =>
        .error ⟨statusCode h.status, ascii "Bad response from server: " ++ err ++ ascii "\n"⟩
      | none => .error ⟨statusCode h.status, ascii "Bad response from server\n"⟩
    else if h.headers.status ≠ statusCode .ok then
      match h.headers.message with
      | some m => .error ⟨h.headers.status, ascii "Server error: " ++ m ++ ascii "\n"⟩
      | none => .error ⟨h.headers.status, ascii "Bad response from server\n"⟩
    else .ok h.headers

/-- **The reply is delivered**: the client reads it, with the status and with the text but for its
newline, and reports these. -/
structure Delivered (fd : Fd) (headers : AchdHeaders) (e : CxError) : Prop where
  accepted : ∃ r, achdParseHeaders false fd headers = .ok r ∧ r.status = .ok ∧
    r.headers.status = statusCode e.code ∧ r.headers.message = some e.message.dropLast
  reported : ∀ errno, getResponse errno (achdParseHeaders false fd headers) =
    .error ⟨statusCode e.code, ascii "Server error: " ++ e.message.dropLast ++ ascii "\n"⟩

/-! ### Reading a reply -/

section
variable (headers : AchdHeaders) {calls : List Sys} {code : AchStatus} {text rest : List UInt8}

theorem set_status (code : AchStatus) :
    achdSetHeader (ascii "status") (decimal (statusCode code) ++ [32]) headers =
      .ok { headers with status := statusCode code } := by
  have hlt : statusCode code < 17 := by cases code <;> decide
  have hint : toInt32 (statusCode code : ℤ) = statusCode code := by
    unfold toInt32
    rw [Int.bmod_eq_of_le_mul_two] <;> omega
  have hnum := strtol_decimal_append (show statusCode code < 2 ^ 63 by omega) (t := [32])
    (by decide)
  simp +decide [achdSetHeader, achdSetStatus, hnum, hint, Except.map]

theorem set_message (text : List UInt8) :
    achdSetHeader (ascii "message") text headers = .ok { headers with message := some text } := by
  simp +decide [achdSetHeader]

/-- The line with the status. -/
theorem parseHeaders_statusLine (hs : Smooth calls) : ∃ calls', Smooth calls' ∧
    achdParseHeaders false ⟨ascii "status: " ++ decimal (statusCode code) ++ ascii " # " ++
        ascii (achResultToString code) ++ ascii "\n" ++ rest, calls⟩ headers =
      achdParseHeaders false ⟨rest, calls'⟩ { headers with status := statusCode code } := by
  have hname : (ascii (achResultToString code)).all (fun b => decide (LineByte b)) = true ∧
      (ascii (achResultToString code)).length ≤ 18 := by
    cases code <;> decide
  have hdigits := length_decimal_le (show statusCode code < 2 ^ 64 by cases code <;> decide)
  have hval : Value (decimal (statusCode code) ++ [32]) := by
    constructor
    · intro b hb
      rcases List.mem_append.mp hb with hb | hb
      · exact (value_of_plain plain_decimal).bytes b hb
      · rw [List.mem_singleton.mp hb]
        decide
    · intro b hb
      obtain ⟨c, d, hd⟩ := List.exists_cons_of_ne_nil (decimal_ne_nil (statusCode code))
      rw [hd, List.cons_append, List.head?_cons, Option.some.injEq] at hb
      exact (value_of_plain plain_decimal).head b (by rw [hd, ← hb]; rfl)
  have htext : ascii "status: " ++ decimal (statusCode code) ++ ascii " # " ++
        ascii (achResultToString code) ++ ascii "\n" ++ rest =
      ascii "status" ++ 58 :: 32 :: (decimal (statusCode code) ++ [32]) ++
        35 :: 32 :: ascii (achResultToString code) ++ 10 :: rest := by
    rw [show ascii "status: " = ascii "status" ++ [58, 32] from rfl,
      show ascii " # " = [32, 35, 32] from rfl, show ascii "\n" = [10] from rfl]
    simp only [List.append_assoc, List.cons_append, List.nil_append]
  rw [htext]
  refine parseHeaders_line headers hs (List.all_iff_forall_prop.mp (by decide)) (by decide) hval
    (by simp [Comment]) ?_ ?_
    (set_status headers code)
  · intro b hb
    simp only [List.mem_cons] at hb
    rcases hb with rfl | rfl | hb
    · decide
    · decide
    · exact of_decide_eq_true (List.all_eq_true.mp hname.1 b hb)
  · have hstatus : (ascii "status").length = 6 := rfl
    simp only [List.length_append, List.length_cons, List.length_nil, hstatus, achdLineLength]
    omega

/-- The first line of a reply. -/
theorem parseHeaders_status (hs : Smooth calls) : ∃ calls', Smooth calls' ∧
    achdParseHeaders false ⟨achdErrorHeader ⟨code, text⟩ ++ rest, calls⟩ headers =
      achdParseHeaders false ⟨ascii "message: " ++ text ++ ascii "\n.\n" ++ rest, calls'⟩
        { headers with status := statusCode code } := by
  have hline := @parseHeaders_statusLine headers calls code
    (ascii "message: " ++ text ++ ascii "\n.\n" ++ rest) hs
  simpa only [achdErrorHeader, List.append_assoc] using hline

/-- **A reply is read** if its text is a value, and short enough. -/
theorem parseHeaders_reply (hs : Smooth calls) (htext : Value text)
    (hshort : text.length + 9 < achdLineLength) : ∃ calls',
      achdParseHeaders false ⟨achdErrorHeader ⟨code, text ++ [10]⟩ ++ rest, calls⟩ headers =
        .ok ⟨.ok, { headers with status := statusCode code, message := some text },
          ⟨rest, calls'⟩, false⟩ := by
  obtain ⟨calls₁, hs₁, h₁⟩ := parseHeaders_status headers hs
  set headers₁ : AchdHeaders := { headers with status := statusCode code }
  have hline : ascii "message: " ++ (text ++ [10]) ++ ascii "\n.\n" ++ rest =
      ascii "message" ++ 58 :: 32 :: text ++ [] ++ 10 :: 10 :: 46 :: 10 :: rest := by
    rw [show ascii "message: " = ascii "message" ++ [58, 32] from rfl,
      show ascii "\n.\n" = [10, 46, 10] from rfl]
    simp only [List.append_assoc, List.cons_append, List.nil_append]
  have hshort' : (ascii "message" ++ 58 :: 32 :: text ++ []).length < achdLineLength := by
    have hlen : (ascii "message").length = 7 := rfl
    simp only [List.length_append, List.length_cons, List.length_nil, hlen]
    omega
  obtain ⟨calls₂, hs₂, h₂⟩ := parseHeaders_line headers₁ hs₁
    (List.all_iff_forall_prop.mp (by decide)) (by decide) htext
    (by simp [Comment]) (by simp) hshort' (set_message headers₁ text)
  rw [← hline] at h₂
  obtain ⟨calls₃, hs₃, h₃⟩ := parseHeaders_empty { headers₁ with message := some text } hs₂
  obtain ⟨calls₄, -, h₄⟩ := parseHeaders_dot { headers₁ with message := some text } hs₃
  exact ⟨calls₄, ((h₁.trans h₂).trans h₃).trans h₄⟩

/-- A reply whose text is too long is not read. -/
theorem parseHeaders_long (hs : Smooth calls) (htext : ∀ b ∈ text, LineByte b)
    (hlong : achdLineLength ≤ text.length + 9) :
    ∃ r, achdParseHeaders false ⟨achdErrorHeader ⟨code, text ++ [10]⟩ ++ rest, calls⟩ headers =
      .ok r ∧ r.status = .overflow := by
  obtain ⟨calls₁, hs₁, h₁⟩ := parseHeaders_status headers hs
  have hline : ascii "message: " ++ (text ++ [10]) ++ ascii "\n.\n" ++ rest =
      (ascii "message: " ++ text) ++ ([10] ++ ascii "\n.\n" ++ rest) := by
    simp only [List.append_assoc]
  have hlen : (ascii "message: ").length = 9 := rfl
  have hover : (achdReadline false ⟨ascii "message: " ++ (text ++ [10]) ++ ascii "\n.\n" ++ rest,
      calls₁⟩ achdLineLength).status = .overflow := by
    refine readlineLoop_overflow achdLineLength (ascii "message: " ++ text) _ [] ?_ hline ?_ hs₁
    · intro b hb
      rcases List.mem_append.mp hb with hb | hb
      · have hkey : ∀ c ∈ ascii "message: ", LineByte c :=
          List.all_iff_forall_prop.mp (by decide)
        exact hkey b hb
      · exact htext b hb
    · simp only [List.length_append, List.length_nil, hlen]
      omega
  rw [h₁, achdParseHeaders, hover, if_neg (by decide)]
  exact ⟨_, rfl, rfl⟩

/-- **Which replies are delivered**: those whose text is made of the bytes of a value and that fit
into a line. -/
theorem delivered_iff (hcode : code ≠ .ok) (hm : headers.message = none) (hs : Smooth calls)
    (hhead : ∀ b, text.head? = some b → regexSpace b = false) :
    Delivered ⟨achdErrorHeader ⟨code, text ++ [10]⟩ ++ rest, calls⟩ headers ⟨code, text ++ [10]⟩ ↔
      (∀ b ∈ text, ValueByte b) ∧ text.length + 9 < achdLineLength := by
  have hlast : (text ++ [10]).dropLast = text := List.dropLast_concat
  constructor
  · rintro ⟨⟨r, hr, hst, -, hmsg⟩, -⟩
    rw [hlast] at hmsg
    have hbytes := parseHeaders_message (by simp [hm]) r hr text hmsg
    refine ⟨hbytes, ?_⟩
    by_contra hlong
    obtain ⟨r', hr', hover⟩ := parseHeaders_long headers hs (fun b hb => (hbytes b hb).1)
      (Nat.not_lt.mp hlong)
    obtain rfl : r = r' := Except.ok.inj (hr.symm.trans hr')
    rw [hst] at hover
    simp at hover
  · rintro ⟨hbytes, hshort⟩
    obtain ⟨calls, hr⟩ := parseHeaders_reply headers hs ⟨hbytes, hhead⟩ hshort
    have hne := statusCode_ne hcode
    constructor
    · exact ⟨_, hr, rfl, rfl, by rw [hlast]⟩
    · intro errno
      rw [hr, hlast]
      simp [getResponse, hne]

end

/-! ### The errors of the server -/

/-- **The calls of `cx.error` that `achd_serve` can reach** before its handler runs, with the
arguments of their formats. -/
inductive ErrorSite where
  /-- In `achd_serve`; `err` is `strerror(errno)`. -/
  | peerName (err : List UInt8)
  | badHeaders
  | noChannel (addr : List UInt8) (port : ℕ)
  | noTransport (addr : List UInt8) (port : ℕ)
  | noDirection (addr : List UInt8) (port : ℕ)
  | openChannel (name err : List UInt8)
  /-- In `achd_parse_headers`. -/
  | regcomp
  | malformedHeader
  /-- In `achd_set_int`, `achd_set_ul` and `achd_set_status`. -/
  | invalidNumber (name val err : List UInt8)
  /-- In `achd_parse_boolean`. -/
  | invalidBoolean (val : List UInt8)
  /-- In `achd_set_header`. -/
  | invalidDirection (val : List UInt8)
  | invalidHeader (key val : List UInt8)
  /-- In `achd_get_vtab`. -/
  | noTransportHeader
  | noDirectionHeader
  | notFound
  /-- In `achd_udp_sock`. -/
  | udpSocket (err : List UInt8)
  | udpBind (err : List UInt8)
  | udpName (err : List UInt8)
  | udpPort (err : List UInt8)

/-- The text without its newline. -/
def ErrorSite.line : ErrorSite → List UInt8
  | .peerName err => ascii "Server couldn't determine name of peer: " ++ err
  | .badHeaders => ascii "Bad headers"
  | .noChannel addr port => addr ++ ascii ":" ++ decimal port ++ ascii " no channel header"
  | .noTransport addr port => addr ++ ascii ":" ++ decimal port ++ ascii " no transport header"
  | .noDirection addr port => addr ++ ascii ":" ++ decimal port ++ ascii " no direction header"
  | .openChannel name err => ascii "Couldn't open channel " ++ name ++ ascii " - " ++ err
  | .regcomp => ascii "couldn't compile regex"
  | .malformedHeader => ascii "malformed header"
  | .invalidNumber name val err =>
    ascii "Invalid " ++ name ++ ascii " " ++ val ++ ascii ": " ++ err
  | .invalidBoolean val => ascii "Invalid boolean: " ++ val
  | .invalidDirection val => ascii "Invalid direction: " ++ val
  | .invalidHeader key val => ascii "Invalid header: `" ++ key ++ ascii ": " ++ val ++ ascii "'"
  | .noTransportHeader => ascii "No transport header"
  | .noDirectionHeader => ascii "No direction header"
  | .notFound => ascii "Requested transport or direction not found"
  | .udpSocket err => ascii "Couldn't create UDP socket: " ++ err
  | .udpBind err => ascii "Could not bind udp socket: " ++ err
  | .udpName err => ascii "Couldn't determine name of UDP receiver: " ++ err
  | .udpPort err => ascii "Couldn't write remote-port: " ++ err

/-- The text of the error. -/
def ErrorSite.text (site : ErrorSite) : List UInt8 := site.line ++ [10]

/-- What a reply can be delivered for: the texts without a colon, and a channel that could not be
opened, if its name and the description of the error are made of the bytes of a value and fit into a
line. -/
def ErrorSite.Sendable : ErrorSite → Prop
  | .badHeaders | .regcomp | .malformedHeader | .noTransportHeader | .noDirectionHeader
  | .notFound => True
  | .openChannel name err => (∀ b ∈ name, ValueByte b) ∧ (∀ b ∈ err, ValueByte b) ∧
      name.length + err.length < 990
  | _ => False

/-- A text with a colon, an equals sign, a number sign or another byte that no value has. -/
theorem not_delivered {headers : AchdHeaders} {fd : Fd} {code : AchStatus} {text : List UInt8}
    (hm : headers.message = none) {b : UInt8} (hb : b ∈ text) (hbyte : ¬ ValueByte b) :
    ¬ Delivered fd headers ⟨code, text ++ [10]⟩ := by
  rintro ⟨⟨r, hr, -, -, hmsg⟩, -⟩
  rw [List.dropLast_concat] at hmsg
  exact hbyte (parseHeaders_message (by simp [hm]) r hr text hmsg b hb)

theorem sendable_openChannel (name err : List UInt8) :
    ((∀ b ∈ (ErrorSite.openChannel name err).line, ValueByte b) ∧
      (ErrorSite.openChannel name err).line.length + 9 < achdLineLength) ↔
        (ErrorSite.openChannel name err).Sendable := by
  have hleft : ∀ b ∈ ascii "Couldn't open channel ", ValueByte b :=
    List.all_iff_forall_prop.mp (by decide)
  have hmid : ∀ b ∈ ascii " - ", ValueByte b := List.all_iff_forall_prop.mp (by decide)
  have hlen : (ErrorSite.openChannel name err).line.length = name.length + err.length + 25 := by
    have h22 : (ascii "Couldn't open channel ").length = 22 := rfl
    have h3 : (ascii " - ").length = 3 := rfl
    simp only [ErrorSite.line, List.length_append, h22, h3]
    omega
  rw [hlen]
  constructor
  · rintro ⟨hbytes, hshort⟩
    refine ⟨fun b hb => hbytes b ?_, fun b hb => hbytes b ?_, ?_⟩
    · simp [ErrorSite.line, hb]
    · simp [ErrorSite.line, hb]
    · unfold achdLineLength at hshort
      omega
  · rintro ⟨hname, herr, hshort⟩
    constructor
    · intro b hb
      simp only [ErrorSite.line, List.mem_append] at hb
      rcases hb with ((hb | hb) | hb) | hb
      · exact hleft b hb
      · exact hname b hb
      · exact hmid b hb
      · exact herr b hb
    · unfold achdLineLength
      omega

/-- **Which error replies reach the client as sent.** -/
theorem error_reply_delivered_iff {code : AchStatus} (hcode : code ≠ .ok) (site : ErrorSite)
    {headers : AchdHeaders} (hm : headers.message = none) {calls : List Sys} (hs : Smooth calls)
    (rest : List UInt8) :
    Delivered ⟨achdErrorHeader ⟨code, site.text⟩ ++ rest, calls⟩ headers ⟨code, site.text⟩ ↔
      site.Sendable := by
  have hfixed : ∀ line : List UInt8, ((line.all fun b => decide (ValueByte b)) = true ∧
      (line.head?.all fun b => !regexSpace b) = true ∧ line.length ≤ 100) →
      Delivered ⟨achdErrorHeader ⟨code, line ++ [10]⟩ ++ rest, calls⟩ headers
        ⟨code, line ++ [10]⟩ := by
    rintro line ⟨hbytes, hhead, hlen⟩
    refine (delivered_iff headers hcode hm hs ?_).mpr ⟨?_, ?_⟩
    · intro b hb
      simpa [hb] using hhead
    · intro b hb
      exact of_decide_eq_true (List.all_eq_true.mp hbytes b hb)
    · unfold achdLineLength
      omega
  have hcolon : ∀ line : List UInt8, 58 ∈ line → (Delivered ⟨achdErrorHeader ⟨code, line ++ [10]⟩ ++
      rest, calls⟩ headers ⟨code, line ++ [10]⟩ ↔ False) := by
    intro line hmem
    exact iff_false_intro (not_delivered hm hmem (by decide))
  unfold ErrorSite.text
  cases site
  case openChannel name err =>
    refine (delivered_iff headers hcode hm hs fun b hb => ?_).trans ?_
    · obtain rfl : 67 = b := by simpa [ErrorSite.line, ascii] using hb
      decide
    · exact sendable_openChannel name err
  case badHeaders | regcomp | malformedHeader | noTransportHeader | noDirectionHeader | notFound =>
    exact iff_true_intro (hfixed _ (by decide))
  case noChannel | noTransport | noDirection =>
    exact hcolon _ (by simp [ErrorSite.line, show ascii ":" = [58] from rfl])
  case invalidNumber | invalidHeader =>
    exact hcolon _ (by simp [ErrorSite.line, show ascii ": " = [58, 32] from rfl])
  -- the colon is in front of the only argument
  all_goals exact hcolon _ (List.mem_append_left _ (by decide))

/-- `recv_hdr` of a client before its first response. -/
def responseHeaders : AchdHeaders := { AchdHeaders.zero with status := statusCode .bug }

/-- A request with a line that is too long. -/
theorem error_reply_delivered_iff_sample :
    Delivered ⟨achdErrorHeader ⟨.overflow, ErrorSite.badHeaders.text⟩ ++ [], [⟨.upTo 6, false⟩]⟩
      responseHeaders ⟨.overflow, ErrorSite.badHeaders.text⟩ := by
  have hs : Smooth [⟨.upTo 6, false⟩] := by decide
  exact (error_reply_delivered_iff (by decide) .badHeaders rfl hs []).mpr trivial

/-- **A request without a channel name**: the reply does not reach the client as sent. -/
theorem no_channel_reply_lost :
    ¬ Delivered ⟨achdErrorHeader ⟨.badHeader, (ErrorSite.noChannel (ascii "10.0.0.7") 48028).text⟩,
      []⟩ responseHeaders ⟨.badHeader, (ErrorSite.noChannel (ascii "10.0.0.7") 48028).text⟩ := by
  have hmem : 58 ∈ (ErrorSite.noChannel (ascii "10.0.0.7") 48028).line := by
    simp [ErrorSite.line, show ascii ":" = [58] from rfl]
  exact not_delivered rfl hmem (by decide)

/-! ### The server -/

/-- What the system gives `achd_udp_sock`: for each call that fails, `strerror(errno)`. -/
structure UdpSockEnv where
  socket : Option (List UInt8)
  bind : Option (List UInt8)
  getsockname : Option (List UInt8)
  printf : Option (List UInt8)

/-- A call that fails ends in `cx.error`. -/
def checkCall (fails : Option (List UInt8)) (text : List UInt8) : Except CxError Unit :=
  match fails with
  | some err => .error ⟨.failedSyscall, text ++ err ++ [10]⟩
  | none => .ok ()

/-- The errors of `achd_udp_sock`. -/
def achdUdpSock (env : UdpSockEnv) : Except CxError Unit := do
  checkCall env.socket (ascii "Couldn't create UDP socket: ")
  checkCall env.bind (ascii "Could not bind udp socket: ")
  checkCall env.getsockname (ascii "Couldn't determine name of UDP receiver: ")
  checkCall env.printf (ascii "Couldn't write remote-port: ")

/-- What the system gives `achd_serve`: the peer, as `inet_ntoa` and `sin_port` have it, or
`strerror(errno)`; whether the regular expressions can be compiled; what `ach_open` returns for a
name, with `strerror(errno)` if it fails. -/
structure ServeEnv where
  peer : Except (List UInt8) (List UInt8 × ℕ)
  regcomp : Bool
  achOpen : List UInt8 → Except (AchStatus × List UInt8) AchHeader
  udp : UdpSockEnv

/-- What `achd_serve` has found out when it answers the request. -/
structure Served where
  headers : AchdHeaders
  shm : AchHeader
  vtab : AchdConnVtab

/-- The text of the three errors about a header that is not there. -/
def missingHeader (addr : List UInt8 × ℕ) (what : String) : CxError :=
  ⟨.badHeader, addr.1 ++ ascii ":" ++ decimal addr.2 ++ ascii what ++ [10]⟩

/-- The address of the peer. -/
def getPeer (env : ServeEnv) : Except CxError (List UInt8 × ℕ) :=
  match env.peer with
  | .error err =>
    .error ⟨.failedSyscall, ascii "Server couldn't determine name of peer: " ++ err ++ [10]⟩
  | .ok addr => .ok addr

/-- The request. -/
def readRequest (env : ServeEnv) (fd : Fd) : Except CxError AchdHeaders :=
  if env.regcomp = false then .error ⟨.bug, ascii "couldn't compile regex\n"⟩
  else do
    let r ← achdParseHeaders false fd AchdHeaders.zero
    if r.status ≠ .ok then .error ⟨r.status, ascii "Bad headers\n"⟩ else .ok r.headers

/-- The headers a request must have; gives the name of the channel. The field `remote_chan_name`,
which would do for it, is not set by any header. -/
def checkTransportHeaders (addr : List UInt8 × ℕ) (headers : AchdHeaders) :
    Except CxError (List UInt8) :=
  match headers.chanName with
  | none => .error (missingHeader addr " no channel header")
  | some name =>
    if headers.transport = none then .error (missingHeader addr " no transport header")
    else if headers.direction = .void then .error (missingHeader addr " no direction header")
    else .ok name

/-- The channel. -/
def openChannel (env : ServeEnv) (name : List UInt8) : Except CxError AchHeader :=
  match env.achOpen name with
  | .error (code, err) =>
    .error ⟨code, ascii "Couldn't open channel " ++ name ++ ascii " - " ++ err ++ [10]⟩
  | .ok shm => .ok shm

/-- `vtab->connect`. -/
def connectVtab (env : ServeEnv) (vtab : AchdConnVtab) : Except CxError Unit :=
  match vtab.connect with
  | .achdConnectNop => .ok ()
  | .achdUdpSock => achdUdpSock env.udp

/-- `achd_serve` up to its answer. -/
def achdServe (env : ServeEnv) (fd : Fd) : Except CxError Served := do
  let addr ← getPeer env
  let headers ← readRequest env fd
  let name ← checkTransportHeaders addr headers
  let shm ← openChannel env name
  let vtab ← achdGetVtab headers.transport headers.direction
  connectVtab env vtab
  return ⟨headers, shm, vtab⟩

/-- An error of the list. -/
def Listed {α : Type} (r : Except CxError α) : Prop :=
  ∀ e, r = .error e → ∃ site : ErrorSite, e.message = site.text

section
variable {α β : Type}

theorem Listed.ok (a : α) : Listed (.ok a) := by
  intro e he
  simp at he

theorem Listed.error {e : CxError} (site : ErrorSite) (h : e.message = site.text) :
    Listed (.error e : Except CxError α) := by
  intro e' he
  obtain rfl := Except.error.inj he
  exact ⟨site, h⟩

theorem Listed.ite {c : Prop} [Decidable c] {r r' : Except CxError α} (h : Listed r)
    (h' : Listed r') : Listed (if c then r else r') := by
  split_ifs
  · exact h
  · exact h'

theorem Listed.bind {r : Except CxError α} {f : α → Except CxError β} (h : Listed r)
    (hf : ∀ a, Listed (f a)) : Listed (r >>= f) := by
  cases r with
  | error e => exact fun e' he => h e' (by simpa [Bind.bind, Except.bind] using he)
  | ok a => exact hf a

theorem Listed.map {r : Except CxError α} {f : α → β} (h : Listed r) : Listed (r.map f) := by
  cases r with
  | error e => exact fun e' he => h e' (by simpa [Except.map] using he)
  | ok a => exact .ok (f a)

end

theorem listed_range {α : Type} (name : String) (val : List UInt8) :
    Listed (.error (rangeError name val) : Except CxError α) :=
  .error (.invalidNumber (ascii name) val strerrorErange) rfl

theorem listed_boolean (val : List UInt8) : Listed (achdParseBoolean val) :=
  .ite (.ok 1) (.ite (.ok 0) (.error (.invalidBoolean val) rfl))

theorem listed_setHeader (key val : List UInt8) (headers : AchdHeaders) :
    Listed (achdSetHeader key val headers) := by
  have hnumber : ∀ name, Listed (achdSetInt name val) := fun name =>
    .ite (listed_range name val) (.ok _)
  have hul : ∀ name, Listed (achdSetUl name val) := fun name => .ite (listed_range name val) (.ok _)
  unfold achdSetHeader
  repeat' apply Listed.ite
  all_goals first
    | exact .ok _
    | exact .map (hnumber _)
    | exact .map (hul _)
    | exact .map (listed_boolean val)
    | exact .error (.invalidDirection val) rfl
    | exact .error (.invalidHeader key val) (by simp [ErrorSite.text, ErrorSite.line, ascii])

theorem listed_parseHeaders {sig : Bool} {fd : Fd} {headers : AchdHeaders} :
    Listed (achdParseHeaders sig fd headers) := by
  fun_induction achdParseHeaders sig fd headers with
  | case1 => exact .ok _
  | case2 => exact .error .malformedHeader (by decide)
  | case3 sig fd headers hok hempty ih => exact ih
  | case4 sig fd headers hok key val hline e hset =>
    obtain ⟨site, hsite⟩ := listed_setHeader key val headers e hset
    exact .error site hsite
  | case5 sig fd headers hok key val hline headers' hset ih => exact ih
  | case6 => exact .ok _

theorem listed_getVtab (transport : Option (List UInt8)) (direction : AchdDirection) :
    Listed (achdGetVtab transport direction) := by
  unfold achdGetVtab
  split
  · exact .error .noTransportHeader (by decide)
  · refine .ite (.error .noDirectionHeader (by decide)) ?_
    split
    · exact .ok _
    · exact .error .notFound (by decide)

theorem listed_checkCall {fails : Option (List UInt8)} {text : List UInt8}
    (site : List UInt8 → ErrorSite) (h : ∀ err, (site err).line = text ++ err) :
    Listed (checkCall fails text) := by
  unfold checkCall
  split
  · rename_i err
    exact .error (site err) (by rw [ErrorSite.text, h])
  · exact .ok ()

theorem listed_udpSock (env : UdpSockEnv) : Listed (achdUdpSock env) := by
  unfold achdUdpSock
  refine .bind (listed_checkCall .udpSocket fun _ => rfl) fun _ => ?_
  refine .bind (listed_checkCall .udpBind fun _ => rfl) fun _ => ?_
  refine .bind (listed_checkCall .udpName fun _ => rfl) fun _ => ?_
  exact listed_checkCall .udpPort fun _ => rfl

theorem listed_getPeer (env : ServeEnv) : Listed (getPeer env) := by
  unfold getPeer
  split
  · rename_i err _
    exact .error (.peerName err) rfl
  · exact .ok _

theorem listed_readRequest (env : ServeEnv) (fd : Fd) : Listed (readRequest env fd) :=
  .ite (.error .regcomp (by decide)) (.bind listed_parseHeaders fun r =>
    .ite (.error .badHeaders rfl) (.ok r.headers))

theorem listed_checkTransportHeaders (addr : List UInt8 × ℕ) (headers : AchdHeaders) :
    Listed (checkTransportHeaders addr headers) := by
  unfold checkTransportHeaders
  split
  · exact .error (.noChannel addr.1 addr.2) rfl
  · exact .ite (.error (.noTransport addr.1 addr.2) rfl)
      (.ite (.error (.noDirection addr.1 addr.2) rfl) (.ok _))

theorem listed_openChannel (env : ServeEnv) (name : List UInt8) :
    Listed (openChannel env name) := by
  unfold openChannel
  split
  · rename_i code err _
    exact .error (.openChannel name err) rfl
  · exact .ok _

theorem listed_connectVtab (env : ServeEnv) (vtab : AchdConnVtab) :
    Listed (connectVtab env vtab) := by
  unfold connectVtab
  split
  · exact .ok ()
  · exact listed_udpSock env.udp

/-- **Every error of `achd_serve` is one of the list.** -/
theorem listed_achdServe (env : ServeEnv) (fd : Fd) : Listed (achdServe env fd) := by
  unfold achdServe
  refine .bind (listed_getPeer env) fun addr => ?_
  refine .bind (listed_readRequest env fd) fun headers => ?_
  refine .bind (listed_checkTransportHeaders addr headers) fun name => ?_
  refine .bind (listed_openChannel env name) fun shm => ?_
  refine .bind (listed_getVtab headers.transport headers.direction) fun vtab => ?_
  exact .bind (listed_connectVtab env vtab) fun _ => .ok _

end Ach.Daemon.ErrorReply
