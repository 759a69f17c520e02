import Ach.Channel.Create
import Ach.Daemon.Headers
import Mathlib.Data.Bool.AllAny

/-! # The request of a client

`server_connect` writes its request as header lines; before them, for UDP, `achd_udp_sock` writes
the port of the socket. `achd_parse_headers` on the other side reads them back: the same values, and
not one byte of what follows (`request_round_trip`). Every key and every value of a request consists
of letters, digits, dashes, underscores and dots (`plain`), of which the regular expressions take
none for a blank or a separator. -/

namespace Ach.Daemon.Request

open Ach.Lib.Regex Ach.Lib.Text
open Ach.Channel.Types Ach.Channel.Create Ach.Daemon.Io Ach.Daemon.Headers

/-! ### The client -/

/-- The `connect` functions of the handlers. -/
inductive Connect where
  | achdConnectNop | achdUdpSock
  deriving DecidableEq, Repr

/-- `struct achd_conn_vtab`, without its `handler`. -/
structure AchdConnVtab where
  transport : List UInt8
  direction : AchdDirection
  connect : Connect
  deriving DecidableEq, Repr

/-- `handlers` -/
def handlers : List AchdConnVtab :=
  [⟨ascii "tcp", .push, .achdConnectNop⟩, ⟨ascii "tcp", .pull, .achdConnectNop⟩,
    ⟨ascii "udp", .push, .achdUdpSock⟩, ⟨ascii "udp", .pull, .achdUdpSock⟩]

/-- `achd_get_vtab`. -/
def achdGetVtab (transport : Option (List UInt8)) (direction : AchdDirection) :
    Except CxError AchdConnVtab :=
  match transport with
  | none => .error ⟨.badHeader, ascii "No transport header\n"⟩
  | some transport =>
    if direction = .void then .error ⟨.badHeader, ascii "No direction header\n"⟩
    else match handlers.find? fun h =>
      direction = h.direction && strcaseEq h.transport transport with
      | some h => .ok h
      | none => .error ⟨.badHeader, ascii "Requested transport or direction not found\n"⟩

/-- What the request is made of: `conn->send_hdr` and the direction the client was given. -/
structure ClOpts where
  chanName : List UInt8
  transport : List UInt8
  direction : AchdDirection
  periodNs : ℕ
  getLast : ℕ

/-- A header line. -/
def headerLine (key : String) (val : List UInt8) : List UInt8 :=
  ascii key ++ ascii ": " ++ val ++ ascii "\n"

/-- What the server is asked to do: the opposite. -/
def askedDirection (direction : AchdDirection) : String :=
  if direction = .pull then "push" else "pull"

/-- The text `server_connect` prints. -/
def requestText (opts : ClOpts) : List UInt8 :=
  headerLine "channel-name" opts.chanName ++ headerLine "transport" opts.transport ++
    headerLine "period-ns" (decimal opts.periodNs) ++
      headerLine "get-last" (decimal opts.getLast) ++
    headerLine "direction" (ascii (askedDirection opts.direction)) ++ ascii ".\n"

/-- The text the `connect` function prints; `port` is the port of the new socket. -/
def connectText (connect : Connect) (port : ℕ) : List UInt8 :=
  match connect with
  | .achdConnectNop => []
  | .achdUdpSock => headerLine "remote-port" (decimal port)

/-- What is written of a request, and whether that is all of it. -/
structure Requested where
  written : List UInt8
  sent : Bool

/-- `server_connect` up to the response, on a new connection and with the given system calls. If the
port cannot be written the process ends, if the request cannot be written the connection is closed.
-/
def serverConnect (opts : ClOpts) (port : ℕ) (calls calls' : List Sys) :
    Except CxError Requested := do
  let vtab ← achdGetVtab (some opts.transport) opts.direction
  let (r, connected) := achdPrintf calls (connectText vtab.connect port)
  if r ≠ some .ok then return ⟨connected, false⟩
  else
    let (r, request) := achdPrintf calls' (requestText opts)
    return ⟨connected ++ request, decide (r = some .ok)⟩

/-! ### Characters -/

/-- A character of a channel name. -/
def plain (b : UInt8) : Bool := isalnum b || b == 45 || b == 95 || b == 46

theorem plain_spec {b : UInt8} (h : plain b = true) :
    InLine b ∧ b ≠ 0 ∧ b ≠ 35 ∧ regexSpace b = false ∧ regexWord b = true ∧ regexSep b = false := by
  have hn : 45 ≤ b.toNat ∧ b.toNat < 123 ∧ b.toNat ≠ 58 ∧ b.toNat ≠ 61 := by
    simp only [plain, isalnum, Bool.or_eq_true, Bool.and_eq_true, decide_eq_true_eq,
      beq_iff_eq, UInt8.le_iff_toNat_le, ← UInt8.toNat_inj, UInt8.reduceToNat] at h
    omega
  simp only [InLine, regexSpace, regexWord, regexSep, isBlank, Bool.or_eq_false_iff,
    Bool.and_eq_true, bne_iff_ne, beq_eq_false_iff_ne, ne_eq, ← UInt8.toNat_inj, UInt8.reduceToNat]
  omega

theorem plain_decimal {n : ℕ} : ∀ b ∈ decimal n, plain b = true := fun b hb => by
  have := isDigit_of_mem_decimal hb
  simp only [isDigit] at this
  simp [plain, isalnum, this]

/-! ### One line -/

/-- A value that a line gives back as it is: a blank at its end stays, one at its start would go. -/
structure Value (val : List UInt8) : Prop where
  bytes : ∀ b ∈ val, ValueByte b
  head : ∀ b, val.head? = some b → regexSpace b = false

theorem value_of_plain {val : List UInt8} (h : ∀ b ∈ val, plain b = true) : Value val := by
  constructor
  · intro b hb
    obtain ⟨hline, h0, h35, -, hword, -⟩ := plain_spec (h b hb)
    exact ⟨hline.lineByte, h0, h35, hword⟩
  · intro b hb
    exact (plain_spec (h b (List.mem_of_mem_head? hb))).2.2.2.1

/-- Nothing, or a comment. -/
def Comment (cmt : List UInt8) : Prop := ∀ b, cmt.head? = some b → b = 35

/-- Nothing is left of a comment. -/
theorem takeWhile_comment {cmt : List UInt8} (hcmt : Comment cmt) :
    (cString cmt).takeWhile (· != 35) = [] := by
  cases cmt with
  | nil => rfl
  | cons c t =>
    obtain rfl : c = 35 := hcmt c rfl
    rfl

section
variable {lead key mid val : List UInt8} {sep : UInt8}

theorem slice_key (t : List UInt8) :
    slice (lead ++ (key ++ t)) (lead.length, lead.length + key.length) = key := by
  rw [slice, List.take_length_add_append, List.drop_left, List.take_left]

theorem slice_val : slice (lead ++ (key ++ sep :: (mid ++ val)))
    (lead.length + key.length + 1 + mid.length,
      lead.length + key.length + 1 + mid.length + val.length) = val := by
  have hsplit : lead ++ (key ++ sep :: (mid ++ val)) = (lead ++ key ++ [sep] ++ mid) ++ val := by
    simp
  have hlen : (lead ++ key ++ [sep] ++ mid).length =
      lead.length + key.length + 1 + mid.length := by
    simp only [List.length_append, List.length_singleton]
  rw [slice, hsplit, ← hlen, List.take_length_add_append, List.drop_left,
    List.take_of_length_le le_rfl]

variable (hlead : ∀ b ∈ lead, regexSpace b = true) (hkey : Value key) (hne : key ≠ [])
  (hsep : regexSep sep = true) (hmid : ∀ b ∈ mid, regexSpace b = true) (hval : Value val)

include hkey hne in
/-- A key begins with a character that is not a space. -/
theorem exists_solid : ∃ b k, key = b :: k ∧ regexSpace b = false := by
  obtain ⟨b, k, rfl⟩ := List.exists_cons_of_ne_nil hne
  exact ⟨b, k, rfl, hkey.head b rfl⟩

include hlead hkey hsep hmid hval

/-- A scan that the bytes of a line pass goes on in the comment. -/
theorem takeWhile_line {p : UInt8 → Bool} (hp : ∀ b, b ≠ 0 → b ≠ 35 → p b = true)
    (cmt : List UInt8) : (lead ++ (key ++ sep :: (mid ++ val)) ++ cmt).takeWhile p =
      lead ++ (key ++ sep :: (mid ++ val)) ++ cmt.takeWhile p := by
  refine List.takeWhile_append_of_pos fun b hb => ?_
  simp only [List.mem_append, List.mem_cons] at hb
  rcases hb with hb | hb | rfl | hb | hb
  · exact hp b (regexSpace_spec (hlead b hb)).1 (regexSpace_spec (hlead b hb)).2
  · exact hp b (hkey.bytes b hb).2.1 (hkey.bytes b hb).2.2.1
  · exact hp b (regexSep_spec hsep).2.1 (regexSep_spec hsep).2.2.1
  · exact hp b (regexSpace_spec (hmid b hb)).1 (regexSpace_spec (hmid b hb)).2
  · exact hp b (hval.bytes b hb).2.1 (hval.bytes b hb).2.2.1

include hne

/-- The parts of a line as the expression takes it apart. A word may hold blanks, so those at its
end are part of it. -/
theorem greedy_keyValue : greedy (keyValueItems ++ [.eol]) true
    (lead ++ (key ++ sep :: (mid ++ val))) =
      some [0, lead.length, key.length, 0, 1, mid.length, val.length, 0, 0] := by
  have hspace : (lead ++ (key ++ sep :: (mid ++ val))).takeWhile regexSpace = lead := by
    obtain ⟨b, k, rfl, hb⟩ := exists_solid hkey hne
    rw [List.takeWhile_append_of_pos hlead, List.cons_append,
      List.takeWhile_cons_of_neg (by simp [hb]), List.append_nil]
  have hword : (key ++ sep :: (mid ++ val)).takeWhile regexWord = key := by
    rw [List.takeWhile_append_of_pos fun b hb => (hkey.bytes b hb).2.2.2,
      List.takeWhile_cons_of_neg (by simp [(regexSep_spec hsep).2.2.2.2]), List.append_nil]
  have hnone : (sep :: (mid ++ val)).takeWhile regexSpace = [] :=
    List.takeWhile_cons_of_neg (by simpa [solid] using (regexSep_spec hsep).2.2.2.1)
  have hspace' : (mid ++ val).takeWhile regexSpace = mid := by
    rw [List.takeWhile_append_of_pos hmid]
    have hhead := hval.head
    cases val with
    | nil => simp
    | cons b v => simp [hhead b rfl]
  have hword' : val.takeWhile regexWord = val :=
    List.takeWhile_eq_self_iff.mpr fun b hb => (hval.bytes b hb).2.2.2
  simp [keyValueItems, greedy, hspace, hword, hnone, hspace', hword', hsep]

/-- **A line is split** into its key and its value, and a comment is dropped. -/
theorem splitLine_keyValue {cmt : List UInt8} (hcmt : Comment cmt) :
    splitLine (lead ++ (key ++ sep :: (mid ++ val)) ++ cmt) = .keyValue key val := by
  have hz : cString (lead ++ (key ++ sep :: (mid ++ val)) ++ cmt) =
      lead ++ (key ++ sep :: (mid ++ val)) ++ cString cmt :=
    takeWhile_line hlead hkey hsep hmid hval (fun b h0 _ => by simpa using h0) cmt
  have hc := takeWhile_line hlead hkey hsep hmid hval (p := (· != 35))
    (fun b _ h35 => by simpa using h35) (cString cmt)
  rw [takeWhile_comment hcmt, List.append_nil] at hc
  obtain ⟨b, k, hk, hb⟩ := exists_solid hkey hne
  have hdot : ∀ t, regexec dotRegex (lead ++ (key ++ sep :: (mid ++ val)) ++ t) = none := by
    intro t
    rw [← Option.not_isSome_iff_eq_none, dotRegex_iff, hk]
    rintro ⟨-, hle⟩
    -- the first character of the key and the separator are not spaces
    have hb' : solid b = true := by simp [solid, hb]
    simp only [List.cons_append, List.filter_append, List.filter_cons, hb',
      (regexSep_spec hsep).2.2.2.1, if_true, List.length_append, List.length_cons] at hle
    omega
  have hempty : parses emptyBranch true (lead ++ (key ++ sep :: (mid ++ val))) = [] := by
    by_contra hparse
    simp only [emptyBranch, ← ne_eq, parses_bol_ne_nil, parses_many_ne_nil, parses_eol_ne_nil]
      at hparse
    obtain ⟨a, t, hs, ha, rfl⟩ := hparse
    have := ha b (by rw [← List.append_nil a, ← hs, hk]; simp)
    rw [hb] at this
    simp at this
  have hline := regexec_of_greedy [emptyBranch] []
    (greedy_keyValue hlead hkey hne hsep hmid hval) (by simpa using hempty) (by simp)
  have hpmatch : pmatch ([emptyBranch] ++ (keyValueItems ++ [.eol]) :: []) [emptyBranch].length 0
      [0, lead.length, key.length, 0, 1, mid.length, val.length, 0, 0] =
      [some (lead.length, lead.length + key.length),
        some (lead.length + key.length + 1 + mid.length,
          lead.length + key.length + 1 + mid.length + val.length)] := by
    simp [pmatch, groups, spans, emptyBranch, keyValueItems]
  unfold splitLine
  simp only [hz, hdot, Option.isSome_none, Bool.false_eq_true, if_false, hc]
  rw [show lineRegex = [emptyBranch] ++ (keyValueItems ++ [.eol]) :: [] from rfl, hline, hpmatch]
  simp only [slice_key, slice_val]

end

theorem splitLine_dot : splitLine [46] = .dot := by decide

theorem splitLine_empty : splitLine [] = .empty := by decide

/-! ### Header blocks -/

section
variable (headers : AchdHeaders) {calls : List Sys} (hs : Smooth calls) {rest : List UInt8}
include hs

/-- The line that ends a header block. -/
theorem parseHeaders_dot : ∃ calls', Smooth calls' ∧
    achdParseHeaders false ⟨46 :: 10 :: rest, calls⟩ headers =
      .ok ⟨.ok, headers, ⟨rest, calls'⟩, false⟩ := by
  have hfd : (⟨46 :: 10 :: rest, calls⟩ : Fd).unread = [46] ++ 10 :: rest := rfl
  obtain ⟨calls', hc, hread⟩ := achdReadline_spec achdLineLength
    (List.all_iff_forall_prop.mp (by decide)) hfd (by decide) hs
  refine ⟨calls', hc, ?_⟩
  rw [achdParseHeaders, hread]
  simp [splitLine_dot]

/-- An empty line. -/
theorem parseHeaders_empty : ∃ calls', Smooth calls' ∧
    achdParseHeaders false ⟨10 :: rest, calls⟩ headers =
      achdParseHeaders false ⟨rest, calls'⟩ headers := by
  have hfd : (⟨10 :: rest, calls⟩ : Fd).unread = [] ++ 10 :: rest := rfl
  obtain ⟨calls', hc, hread⟩ := achdReadline_spec achdLineLength (by simp) hfd (by decide) hs
  refine ⟨calls', hc, ?_⟩
  rw [achdParseHeaders, hread]
  simp [splitLine_empty]

/-- A line that sets a field. -/
theorem parseHeaders_line {key val cmt : List UInt8} {headers' : AchdHeaders}
    (hkey : ∀ b ∈ key, plain b = true) (hne : key ≠ []) (hval : Value val)
    (hcmt : Comment cmt) (hbytes : ∀ b ∈ cmt, LineByte b)
    (hshort : (key ++ 58 :: 32 :: val ++ cmt).length < achdLineLength)
    (hset : achdSetHeader key val headers = .ok headers') : ∃ calls', Smooth calls' ∧
      achdParseHeaders false ⟨key ++ 58 :: 32 :: val ++ cmt ++ 10 :: rest, calls⟩ headers =
        achdParseHeaders false ⟨rest, calls'⟩ headers' := by
  have hline : ∀ b ∈ key ++ 58 :: 32 :: val ++ cmt, LineByte b := by
    intro b hb
    simp only [List.mem_append, List.mem_cons] at hb
    rcases hb with (hb | rfl | rfl | hb) | hb
    · exact (plain_spec (hkey b hb)).1.lineByte
    · decide
    · decide
    · exact (hval.bytes b hb).1
    · exact hbytes b hb
  have hfd : (⟨key ++ 58 :: 32 :: val ++ cmt ++ 10 :: rest, calls⟩ : Fd).unread =
      (key ++ 58 :: 32 :: val ++ cmt) ++ 10 :: rest := rfl
  obtain ⟨calls', hc, hread⟩ := achdReadline_spec achdLineLength hline hfd hshort hs
  refine ⟨calls', hc, ?_⟩
  have hsplit := @splitLine_keyValue [] key [32] val 58 (by simp) (value_of_plain hkey) hne
    (by decide) (List.forall_mem_singleton.mpr (by decide)) hval cmt hcmt
  simp only [List.nil_append, List.singleton_append] at hsplit
  rw [achdParseHeaders, hread]
  simp only [if_true, hsplit, hset]

end

/-- Lines one after the other. -/
def linesText (lines : List (String × List UInt8)) : List UInt8 :=
  lines.flatMap fun l => headerLine l.1 l.2

/-- The fields set one after the other. -/
def setHeaders : List (String × List UInt8) → AchdHeaders → Except CxError AchdHeaders
  | [], headers => .ok headers
  | (key, val) :: lines, headers =>
    match achdSetHeader (ascii key) val headers with
    | .error e => .error e
    | .ok headers' => setHeaders lines headers'

/-- A line that is read back. -/
structure PlainLine (l : String × List UInt8) : Prop where
  key : ∀ b ∈ ascii l.1, plain b = true
  val : ∀ b ∈ l.2, plain b = true
  long : 2 ≤ (ascii l.1).length
  short : (ascii l.1).length + l.2.length + 2 < achdLineLength

/-- A printed line. -/
theorem parseHeaders_headerLine {l : String × List UInt8} (hl : PlainLine l) (headers : AchdHeaders)
    {headers' : AchdHeaders} {calls : List Sys} (hs : Smooth calls) {rest : List UInt8}
    (hset : achdSetHeader (ascii l.1) l.2 headers = .ok headers') : ∃ calls', Smooth calls' ∧
      achdParseHeaders false ⟨headerLine l.1 l.2 ++ rest, calls⟩ headers =
        achdParseHeaders false ⟨rest, calls'⟩ headers' := by
  have htext : headerLine l.1 l.2 ++ rest = ascii l.1 ++ 58 :: 32 :: l.2 ++ [] ++ 10 :: rest := by
    simp [headerLine, show ascii ": " = [58, 32] from rfl, show ascii "\n" = [10] from rfl]
  have hne : ascii l.1 ≠ [] := List.ne_nil_of_length_pos (by have := hl.long; omega)
  have hshort : (ascii l.1 ++ 58 :: 32 :: l.2 ++ []).length < achdLineLength := by
    have := hl.short
    simp only [List.length_append, List.length_cons, List.length_nil]
    omega
  rw [htext]
  exact parseHeaders_line headers hs hl.key hne (value_of_plain hl.val) (by simp [Comment])
    (by simp) hshort hset

/-- **A header block is read back**: its fields are set, in order, and what follows it is not
touched. -/
theorem parseHeaders_lines {rest : List UInt8} : ∀ (lines : List (String × List UInt8))
    (headers headers' : AchdHeaders) (fd : Fd), (∀ l ∈ lines, PlainLine l) →
    setHeaders lines headers = .ok headers' → fd.unread = linesText lines ++ (ascii ".\n" ++ rest) →
    Smooth fd.calls → ∃ calls, Smooth calls ∧
      achdParseHeaders false fd headers = .ok ⟨.ok, headers', ⟨rest, calls⟩, false⟩ := by
  intro lines
  induction lines with
  | nil =>
    rintro headers headers' ⟨unread, calls⟩ _ hset rfl hs
    obtain rfl := Except.ok.inj hset
    exact parseHeaders_dot headers hs
  | cons l lines ih =>
    rintro headers headers' ⟨unread, calls⟩ hlines hset hfd hs
    have hl := hlines l List.mem_cons_self
    obtain rfl : unread = headerLine l.1 l.2 ++ (linesText lines ++ (ascii ".\n" ++ rest)) := by
      simpa [linesText] using hfd
    simp only [setHeaders] at hset
    split at hset
    · simp at hset
    · rename_i headers₁ hset₁
      obtain ⟨calls₁, hc, hline⟩ := parseHeaders_headerLine hl headers hs hset₁
      obtain ⟨calls', hc', hrec⟩ := ih headers₁ headers' ⟨_, calls₁⟩
        (fun m hm => hlines m (List.mem_cons_of_mem l hm)) hset rfl hc
      exact ⟨calls', hc', hline.trans hrec⟩

/-! ### The request -/

section
variable (headers : AchdHeaders)

theorem set_remotePort {port : ℕ} (h : port < 2 ^ 16) :
    achdSetHeader (ascii "remote-port") (decimal port) headers =
      .ok { headers with remotePort := port } := by
  have hint : toInt32 (port : ℤ) = port := by
    unfold toInt32
    rw [Int.bmod_eq_of_le_mul_two] <;> omega
  simp +decide [achdSetHeader, achdSetInt, strtol_decimal (show port < 2 ^ 63 by omega), hint,
    Except.map]

theorem set_periodNs {n : ℕ} (h : n < 2 ^ 64) :
    achdSetHeader (ascii "period-ns") (decimal n) headers = .ok { headers with periodNs := n } := by
  simp +decide [achdSetHeader, achdSetUl, strtoul_decimal h, Except.map]

theorem set_getLast {n : ℕ} (h : n ≤ 1) :
    achdSetHeader (ascii "get-last") (decimal n) headers = .ok { headers with getLast := n } := by
  interval_cases n <;> simp +decide [achdSetHeader, achdParseBoolean, Except.map]

theorem set_chanName (name : List UInt8) :
    achdSetHeader (ascii "channel-name") name headers =
      .ok { headers with chanName := some name } := by
  simp +decide [achdSetHeader]

theorem set_transport (transport : List UInt8) :
    achdSetHeader (ascii "transport") transport headers =
      .ok { headers with transport := some transport } := by
  simp +decide [achdSetHeader]

/-- The opposite direction. -/
def opposite (direction : AchdDirection) : AchdDirection :=
  if direction = .pull then .push else .pull

theorem set_direction (direction : AchdDirection) :
    achdSetHeader (ascii "direction") (ascii (askedDirection direction)) headers =
      .ok { headers with direction := opposite direction } := by
  cases direction <;> simp +decide [achdSetHeader, opposite]

end

/-- The lines of `requestText`. -/
def requestLines (opts : ClOpts) : List (String × List UInt8) :=
  [("channel-name", opts.chanName), ("transport", opts.transport),
    ("period-ns", decimal opts.periodNs), ("get-last", decimal opts.getLast),
    ("direction", ascii (askedDirection opts.direction))]

/-- The lines of `connectText`. -/
def connectLines (connect : Connect) (port : ℕ) : List (String × List UInt8) :=
  match connect with
  | .achdConnectNop => []
  | .achdUdpSock => [("remote-port", decimal port)]

theorem request_eq (opts : ClOpts) (connect : Connect) (port : ℕ) :
    connectText connect port ++ requestText opts =
      linesText (connectLines connect port ++ requestLines opts) ++ ascii ".\n" := by
  cases connect <;> simp [connectText, requestText, linesText, connectLines, requestLines]

/-- What the server knows after the request. -/
def requested (opts : ClOpts) (connect : Connect) (port : ℕ) : AchdHeaders :=
  { AchdHeaders.zero with
    chanName := some opts.chanName
    transport := some opts.transport
    periodNs := opts.periodNs
    getLast := opts.getLast
    remotePort := if connect = .achdUdpSock then port else 0
    direction := opposite opts.direction }

theorem setHeaders_request {opts : ClOpts} {port : ℕ} (connect : Connect)
    (hperiod : opts.periodNs < 2 ^ 64) (hlast : opts.getLast ≤ 1) (hport : port < 2 ^ 16) :
    setHeaders (connectLines connect port ++ requestLines opts) AchdHeaders.zero =
      .ok (requested opts connect port) := by
  cases connect <;>
    simp [connectLines, requestLines, setHeaders, set_remotePort _ hport, set_periodNs _ hperiod,
      set_getLast _ hlast, set_chanName, set_transport, set_direction, requested, AchdHeaders.zero]

/-- The keys of a request. -/
def requestKeys : List String :=
  ["remote-port", "channel-name", "transport", "period-ns", "get-last", "direction"]

theorem plainLine_of_key {key : String} {val : List UInt8} (hkey : key ∈ requestKeys)
    (hval : ∀ b ∈ val, plain b = true) (hlen : val.length ≤ 64) : PlainLine (key, val) := by
  have hkeys : ∀ k ∈ requestKeys, (ascii k).all plain = true ∧ 2 ≤ (ascii k).length ∧
      (ascii k).length ≤ 12 := by decide
  obtain ⟨hk, h2, h12⟩ := hkeys key hkey
  exact ⟨List.all_eq_true.mp hk, hval, h2, by simp only [achdLineLength]; omega⟩

theorem plainLine_request {opts : ClOpts} {port : ℕ} (connect : Connect)
    (hname : channelNameOk opts.chanName = true)
    (htransport : ∃ v ∈ handlers, v.transport = opts.transport) (hperiod : opts.periodNs < 2 ^ 64)
    (hlast : opts.getLast ≤ 1) (hport : port < 2 ^ 16) :
    ∀ l ∈ connectLines connect port ++ requestLines opts, PlainLine l := by
  have hchan : PlainLine ("channel-name", opts.chanName) := by
    simp only [channelNameOk, Bool.and_eq_true, List.all_eq_true] at hname
    have hlen : opts.chanName.length < 64 := of_decide_eq_true hname.1.1
    exact plainLine_of_key (by decide) hname.2 hlen.le
  have htr : PlainLine ("transport", opts.transport) := by
    obtain ⟨v, hv, hvt⟩ := htransport
    have hplain : ∀ v ∈ handlers,
        v.transport.all plain = true ∧ v.transport.length ≤ 64 := by decide
    rw [← hvt]
    exact plainLine_of_key (by decide) (List.all_eq_true.mp (hplain v hv).1) (hplain v hv).2
  have hdir : PlainLine ("direction", ascii (askedDirection opts.direction)) := by
    have hplain : (ascii (askedDirection opts.direction)).all plain = true ∧
        (ascii (askedDirection opts.direction)).length ≤ 64 := by
      cases opts.direction <;> decide
    exact plainLine_of_key (by decide) (List.all_eq_true.mp hplain.1) hplain.2
  have hnum : ∀ key ∈ requestKeys, ∀ n < 2 ^ 64, PlainLine (key, decimal n) := fun key hk n hn =>
    plainLine_of_key hk plain_decimal (length_decimal_le hn)
  intro l hl
  rcases List.mem_append.mp hl with hl | hl
  · cases connect with
    | achdConnectNop => simp [connectLines] at hl
    | achdUdpSock =>
      obtain rfl := List.mem_singleton.mp hl
      exact hnum _ (by decide) port (by omega)
  · simp only [requestLines, List.mem_cons, List.not_mem_nil, or_false] at hl
    rcases hl with rfl | rfl | rfl | rfl | rfl
    · exact hchan
    · exact htr
    · exact hnum _ (by decide) _ hperiod
    · exact hnum _ (by decide) _ (by omega)
    · exact hdir

/-- The row of the table a transport and a direction of the table are found in. -/
theorem achdGetVtab_handlers :
    ∀ v ∈ handlers, achdGetVtab (some v.transport) v.direction = .ok v := by
  decide

/-- **The request round trip.** For every channel name `channel_name_ok` accepts, every transport
and direction of the table of handlers, every period, either value of `get_last` and every port, the
request comes back from `achd_parse_headers`, however it is split into reads: the same values, the
opposite direction, for UDP the port; and what follows the request is not read. -/
theorem request_round_trip {opts : ClOpts} {v : AchdConnVtab} {port : ℕ}
    (hname : channelNameOk opts.chanName = true) (hv : v ∈ handlers)
    (htransport : opts.transport = v.transport) (hdirection : opts.direction = v.direction)
    (hperiod : opts.periodNs < 2 ^ 64) (hlast : opts.getLast ≤ 1) (hport : port < 2 ^ 16)
    {calls calls' : List Sys} (hc : Smooth calls) (hc' : Smooth calls') :
    ∃ request, serverConnect opts port calls calls' = .ok ⟨request, true⟩ ∧
      ∀ (fd : Fd) (following : List UInt8), fd.unread = request ++ following → Smooth fd.calls →
        ∃ e, achdParseHeaders false fd AchdHeaders.zero = .ok e ∧ e.status = .ok ∧
          e.fd.unread = following ∧ e.headers.chanName = some opts.chanName ∧
          e.headers.transport = some opts.transport ∧ e.headers.periodNs = opts.periodNs ∧
          e.headers.getLast = opts.getLast ∧ e.headers.direction = opposite opts.direction ∧
          (opts.transport = ascii "udp" → e.headers.remotePort = port) := by
  have hvtab : achdGetVtab (some opts.transport) opts.direction = .ok v := by
    rw [htransport, hdirection]
    exact achdGetVtab_handlers v hv
  refine ⟨connectText v.connect port ++ requestText opts, ?_, fun fd following hfd hs => ?_⟩
  · simp only [serverConnect, hvtab, achdPrintf_smooth _ _ hc, achdPrintf_smooth _ _ hc']
    rfl
  · rw [request_eq, List.append_assoc] at hfd
    obtain ⟨calls, -, hparse⟩ := parseHeaders_lines _ _ _ fd
      (plainLine_request v.connect hname ⟨v, hv, htransport.symm⟩ hperiod hlast hport)
      (setHeaders_request v.connect hperiod hlast hport) hfd hs
    refine ⟨_, hparse, rfl, rfl, rfl, rfl, rfl, rfl, rfl, fun hudp => ?_⟩
    have hconnect : ∀ v ∈ handlers, v.transport = ascii "udp" →
        v.connect = .achdUdpSock := by decide
    simp [requested, hconnect v hv (htransport ▸ hudp)]

/-- A client that pulls over UDP. -/
def sampleOpts : ClOpts := ⟨ascii "state-1.golem", ascii "udp", .pull, 100000000, 1⟩

theorem request_round_trip_sample : ∃ request,
    serverConnect sampleOpts 40123 [⟨.upTo 3, false⟩] [⟨.eintr, false⟩] = .ok ⟨request, true⟩ ∧
      ∃ e, achdParseHeaders false ⟨request ++ [97, 99], [⟨.upTo 0, false⟩, ⟨.eintr, false⟩]⟩
          AchdHeaders.zero = .ok e ∧
        e.fd.unread = [97, 99] ∧ e.headers.remotePort = 40123 ∧ e.headers.direction = .push := by
  obtain ⟨request, hreq, h⟩ := request_round_trip (v := ⟨ascii "udp", .pull, .achdUdpSock⟩)
    (show channelNameOk sampleOpts.chanName = true by decide) (by decide) rfl rfl (by decide)
    (by decide) (show 40123 < 2 ^ 16 by decide) (show Smooth [⟨.upTo 3, false⟩] by decide)
    (show Smooth [⟨.eintr, false⟩] by decide)
  obtain ⟨e, he, -, hrest, -, -, -, -, hdir, hport⟩ := h
    ⟨request ++ [97, 99], [⟨.upTo 0, false⟩, ⟨.eintr, false⟩]⟩ [97, 99] rfl
    (show Smooth [⟨.upTo 0, false⟩, ⟨.eintr, false⟩] by decide)
  exact ⟨request, hreq, e, he, hrest, hport rfl, hdir⟩

end Ach.Daemon.Request
