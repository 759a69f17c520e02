import Ach.Daemon.Io
import Ach.Lib.Regex
import Ach.Lib.Text

/-! # Headers

A connection begins with header lines, each a key and a value, up to a line with a dot.
`achd_parse_headers` reads lines, drops comments, splits each line with a regular expression and
sets the field of the key. The expression for the last line is
`^[[:blank:]\n\r]*.[[:blank:]\n\r]*$`: its dot is not quoted and stands for any character. -/

namespace Ach.Daemon.Headers

open Ach.Lib.Regex Ach.Lib.Text
open Ach.Channel.Types Ach.Daemon.Io

/-! ### Fields -/

inductive AchdDirection where
  | void | push | pull
  deriving DecidableEq, Repr

/-- What `achd_set_header` sets of `struct achd_headers`. -/
structure AchdHeaders where
  chanName : Option (List UInt8)
  frameCount : ℤ
  frameSize : ℤ
  localPort : ℤ
  remotePort : ℤ
  tcpNodelay : ℤ
  retry : ℤ
  getLast : ℤ
  periodNs : ℕ
  remoteHost : Option (List UInt8)
  transport : Option (List UInt8)
  direction : AchdDirection
  status : ℤ
  message : Option (List UInt8)
  deriving DecidableEq, Repr

/-- The headers after `memset`. -/
def AchdHeaders.zero : AchdHeaders :=
  ⟨none, 0, 0, 0, 0, 0, 0, 0, 0, none, none, .void, 0, none⟩

/-- A call of `cx.error`, which does not return. -/
structure CxError where
  code : AchStatus
  message : List UInt8
  deriving DecidableEq, Repr

/-- `strerror(ERANGE)`. -/
def strerrorErange : List UInt8 := ascii "Numerical result out of range"

/-- The error of a conversion out of range. -/
def rangeError (name : String) (val : List UInt8) : CxError :=
  ⟨.badHeader, ascii "Invalid " ++ ascii name ++ ascii " " ++ val ++ ascii ": " ++ strerrorErange ++
    ascii "\n"⟩

/-- `achd_set_int`. -/
def achdSetInt (name : String) (val : List UInt8) : Except CxError ℤ :=
  let i := strtol val
  if i.erange then .error (rangeError name val) else .ok (toInt32 i.value)

/-- `achd_set_ul`. -/
def achdSetUl (name : String) (val : List UInt8) : Except CxError ℕ :=
  let i := strtoul val
  if i.erange then .error (rangeError name val) else .ok i.value

/-- `achd_set_status`. -/
def achdSetStatus (name : String) (val : List UInt8) : Except CxError ℤ :=
  let i := strtol val
  if i.erange then .error (rangeError name val) else .ok (toInt32 i.value)

/-- `achd_parse_boolean`. -/
def achdParseBoolean (value : List UInt8) : Except CxError ℤ :=
  let yes := ["yes", "true", "1", "t", "y", "+", "aye"]
  let no := ["no", "false", "0", "f", "n", "-", "nay"]
  if yes.any fun s => strcaseEq (ascii s) value then .ok 1
  else if no.any fun s => strcaseEq (ascii s) value then .ok 0
  else .error ⟨.badHeader, ascii "Invalid boolean: " ++ value ++ ascii "\n"⟩

/-- `achd_set_header`. -/
def achdSetHeader (key val : List UInt8) (headers : AchdHeaders) : Except CxError AchdHeaders :=
  if strcaseEq key (ascii "channel-name") then .ok { headers with chanName := some val }
  else if strcaseEq key (ascii "frame-size") then
    (achdSetInt "frame size" val).map fun i => { headers with frameSize := i }
  else if strcaseEq key (ascii "frame-count") then
    (achdSetInt "frame count" val).map fun i => { headers with frameCount := i }
  else if strcaseEq key (ascii "remote-port") then
    (achdSetInt "remote port" val).map fun i => { headers with remotePort := i }
  else if strcaseEq key (ascii "local-port") then
    (achdSetInt "local port" val).map fun i => { headers with localPort := i }
  else if strcaseEq key (ascii "remote-host") then .ok { headers with remoteHost := some val }
  else if strcaseEq key (ascii "period-ns") then
    (achdSetUl "period-ns" val).map fun i => { headers with periodNs := i }
  else if strcaseEq key (ascii "get-last") then
    (achdParseBoolean val).map fun i => { headers with getLast := i }
  else if strcaseEq key (ascii "transport") then .ok { headers with transport := some val }
  else if strcaseEq key (ascii "tcp-nodelay") then
    (achdParseBoolean val).map fun i => { headers with tcpNodelay := i }
  else if strcaseEq key (ascii "retry") then
    (achdParseBoolean val).map fun i => { headers with retry := i }
  else if strcaseEq key (ascii "direction") then
    if strcaseEq val (ascii "push") then .ok { headers with direction := .push }
    else if strcaseEq val (ascii "pull") then .ok { headers with direction := .pull }
    else .error ⟨.badHeader, ascii "Invalid direction: " ++ val ++ ascii "\n"⟩
  else if strcaseEq key (ascii "status") then
    (achdSetStatus "status" val).map fun i => { headers with status := i }
  else if strcaseEq key (ascii "message") then .ok { headers with message := some val }
  else .error ⟨.badHeader, ascii "Invalid header: `" ++ key ++ ascii ": " ++ val ++ ascii "'\n"⟩

/-! ### Lines -/

/-- `[[:blank:]\n\r]` -/
def regexSpace (b : UInt8) : Bool := isBlank b || b == 10 || b == 13

/-- `[^:=\n]` -/
def regexWord (b : UInt8) : Bool := b != 58 && b != 61 && b != 10

/-- `[:=]` -/
def regexSep (b : UInt8) : Bool := b == 58 || b == 61

/-- The first branch of `line_regex`: an empty line. -/
def emptyBranch : List (Item UInt8) := [.bol, .many false regexSpace, .eol]

/-- The second branch of `line_regex` up to its `$`: a key and a value. -/
def keyValueItems : List (Item UInt8) :=
  [.bol, .many false regexSpace, .many true regexWord, .many false regexSpace, .one regexSep,
    .many false regexSpace, .many true regexWord, .many false regexSpace]

/-- `line_regex`. -/
def lineRegex : Branches UInt8 := [emptyBranch, keyValueItems ++ [.eol]]

/-- `dot_regex` up to its `$`. -/
def dotItems : List (Item UInt8) :=
  [.bol, .many false regexSpace, .one fun _ => true, .many false regexSpace]

/-- `dot_regex`. -/
def dotRegex : Branches UInt8 := [dotItems ++ [.eol]]

/-- `ACHD_LINE_LENGTH` -/
def achdLineLength : ℕ := 1024

/-- What a line holds. -/
inductive Line where
  | dot
  | malformed
  | empty
  | keyValue (key val : List UInt8)
  deriving DecidableEq, Repr

/-- The bytes of a span. -/
def slice (s : List UInt8) (span : ℕ × ℕ) : List UInt8 := (s.take span.2).drop span.1

/-- The part of the loop body of `achd_parse_headers` between reading a line and setting a field. -/
def splitLine (buf : List UInt8) : Line :=
  let lineptr := cString buf
  if (regexec dotRegex lineptr).isSome then .dot
  else
    -- comments are cut off
    let lineptr := lineptr.takeWhile (· != 35)
    match regexec lineRegex lineptr with
    | none => .malformed
    | some [some k, some v] => .keyValue (slice lineptr k) (slice lineptr v)
    | some _ => .empty

/-- What `achd_parse_headers` gives. -/
structure HeadersEnd where
  status : AchStatus
  headers : AchdHeaders
  fd : Fd
  sig : Bool

theorem readlineLoop_lt {cnt : ℕ} {sig : Bool} {fd : Fd} {buf : List UInt8} :
    (readlineLoop cnt sig fd buf).status = .ok →
      (readlineLoop cnt sig fd buf).fd.unread.length < fd.unread.length := by
  fun_induction readlineLoop cnt sig fd buf with
  | case1 sig fd buf hlt h10 => exact fun _ => achdGetc_lt (by rw [h10]; decide)
  | case2 sig fd buf hlt h10 h13 ih =>
    exact fun h => (ih h).trans (achdGetc_lt (by rw [h13]; decide))
  | case3 => intro h; simp at h
  | case4 sig fd buf hlt h10 h13 heof ih => exact fun h => (ih h).trans (achdGetc_lt heof)
  | case5 => intro h; simp at h

/-- `achd_parse_headers`. -/
def achdParseHeaders (sig : Bool) (fd : Fd) (headers : AchdHeaders) : Except CxError HeadersEnd :=
  if (achdReadline sig fd achdLineLength).status = .ok then
    match splitLine (achdReadline sig fd achdLineLength).buf with
    | .dot => .ok ⟨.ok, headers, (achdReadline sig fd achdLineLength).fd,
        (achdReadline sig fd achdLineLength).sig⟩
    | .malformed => .error ⟨.badHeader, ascii "malformed header\n"⟩
    | .empty => achdParseHeaders (achdReadline sig fd achdLineLength).sig
        (achdReadline sig fd achdLineLength).fd headers
    | .keyValue key val =>
      match achdSetHeader key val headers with
      | .error e => .error e
      | .ok headers' => achdParseHeaders (achdReadline sig fd achdLineLength).sig
          (achdReadline sig fd achdLineLength).fd headers'
  else .ok ⟨(achdReadline sig fd achdLineLength).status, headers,
    (achdReadline sig fd achdLineLength).fd, (achdReadline sig fd achdLineLength).sig⟩
termination_by fd.unread.length
decreasing_by all_goals exact readlineLoop_lt (by assumption)

/-! ### The last line -/

/-- A character that is not a space. -/
def solid (b : UInt8) : Bool := !regexSpace b

theorem filter_solid_eq_nil {s : List UInt8} :
    s.filter solid = [] ↔ ∀ b ∈ s, regexSpace b = true := by
  simp [List.filter_eq_nil_iff, solid]

/-- **The lines that end a header block**: one character with nothing but spaces around it, and that
may be a space too. -/
theorem dotRegex_iff {s : List UInt8} :
    (regexec dotRegex s).isSome = true ↔ s ≠ [] ∧ (s.filter solid).length ≤ 1 := by
  have hsplit : (regexec dotRegex s).isSome = true ↔ ∃ a b t, s = a ++ b :: t ∧
      a.filter solid = [] ∧ t.filter solid = [] := by
    rw [regexec_isSome_iff (by simp [dotRegex, dotItems])]
    simp only [dotRegex, dotItems, List.cons_append, List.nil_append, List.mem_singleton,
      exists_eq_left, parses_bol_ne_nil, parses_many_ne_nil, parses_one_ne_nil, parses_eol_ne_nil,
      filter_solid_eq_nil]
    constructor
    · rintro ⟨a, u, rfl, ha, b, t, rfl, -, t', u', rfl, ht, rfl⟩
      exact ⟨a, b, t', by simp, ha, ht⟩
    · rintro ⟨a, b, t, rfl, ha, ht⟩
      exact ⟨a, _, rfl, ha, b, t, rfl, trivial, t, [], by simp, ht, rfl⟩
  rw [hsplit]
  constructor
  · rintro ⟨a, b, t, rfl, ha, ht⟩
    refine ⟨by simp, ?_⟩
    rw [List.filter_append, List.filter_cons, ha, ht]
    split_ifs <;> simp
  · rintro ⟨hne, hle⟩
    cases hs : s.filter solid with
    | nil =>
      obtain ⟨b, t, rfl⟩ := List.exists_cons_of_ne_nil hne
      have htail := filter_solid_eq_nil.mp hs
      exact ⟨[], b, t, rfl, rfl,
        filter_solid_eq_nil.mpr fun c hc => htail c (List.mem_cons_of_mem b hc)⟩
    | cons b u =>
      obtain ⟨a, t, rfl, ha, -, ht⟩ := List.filter_eq_cons_iff.mp hs
      obtain rfl : u = [] := by
        rw [hs, List.length_cons] at hle
        exact List.length_eq_zero_iff.mp (by omega)
      exact ⟨a, b, t, rfl, List.filter_eq_nil_iff.mpr ha, ht⟩

theorem regexSep_spec {b : UInt8} (h : regexSep b = true) :
    LineByte b ∧ b ≠ 0 ∧ b ≠ 35 ∧ solid b = true ∧ regexWord b = false := by
  simp only [regexSep, Bool.or_eq_true, beq_iff_eq] at h
  rcases h with rfl | rfl <;> decide

theorem regexSpace_spec {b : UInt8} (h : regexSpace b = true) : b ≠ 0 ∧ b ≠ 35 := by
  constructor
  · rintro rfl
    exact absurd h (by decide)
  · rintro rfl
    exact absurd h (by decide)

/-! ### What a value is made of -/

/-- A byte a value read from a line can have. -/
def ValueByte (b : UInt8) : Prop := LineByte b ∧ b ≠ 0 ∧ b ≠ 35 ∧ regexWord b = true

instance (b : UInt8) : Decidable (ValueByte b) := by unfold ValueByte; infer_instance

theorem splitLine_word {buf key val : List UInt8} (h : splitLine buf = .keyValue key val) :
    ∀ b ∈ key ++ val, b ∈ buf ∧ b ≠ 0 ∧ b ≠ 35 ∧ regexWord b = true := by
  have hclass : ∀ c ∈ lineRegex, ∀ p, .many true p ∈ c → ∀ a, p a = true → regexWord a = true := by
    intro c hc p hp a ha
    simp only [lineRegex, List.mem_cons, List.not_mem_nil, or_false] at hc
    rcases hc with rfl | rfl
    · simp [emptyBranch] at hp
    · have hpw : p = regexWord := by simpa [keyValueItems] using hp
      rw [← hpw]
      exact ha
  unfold splitLine at h
  simp only at h
  split_ifs at h
  split at h
  · simp at h
  · rename_i k v hm
    obtain ⟨rfl, rfl⟩ := Line.keyValue.inj h
    have hspan : ∀ span, some span ∈ [some k, some v] →
        ∀ b ∈ slice ((cString buf).takeWhile (· != 35)) span,
          b ∈ buf ∧ b ≠ 0 ∧ b ≠ 35 ∧ regexWord b = true := by
      intro span hmatch b hb
      have hmem : b ∈ (cString buf).takeWhile (· != 35) :=
        List.mem_of_mem_take (List.mem_of_mem_drop hb)
      have h35 := List.mem_takeWhile_imp hmem
      have hc := (List.takeWhile_prefix _).subset hmem
      have h0 := List.mem_takeWhile_imp hc
      refine ⟨(List.takeWhile_prefix _).subset hc, by simpa using h0, by simpa using h35, ?_⟩
      exact mem_span_of_regexec hm hclass span hmatch b hb
    intro b hb
    rcases List.mem_append.mp hb with hb | hb
    · exact hspan k (by simp) b hb
    · exact hspan v (by simp) b hb
  · simp at h

/-- The message stays what it was, or becomes the value. -/
def MessageFrom (headers : AchdHeaders) (val : List UInt8) (r : Except CxError AchdHeaders) :
    Prop :=
  ∀ headers', r = .ok headers' → headers'.message = headers.message ∨ headers'.message = some val

section
variable {headers headers' : AchdHeaders} {val : List UInt8}

theorem MessageFrom.ite {c : Prop} [Decidable c] {r r' : Except CxError AchdHeaders}
    (h : MessageFrom headers val r) (h' : MessageFrom headers val r') :
    MessageFrom headers val (if c then r else r') := by
  split_ifs
  · exact h
  · exact h'

theorem MessageFrom.ok (h : headers'.message = headers.message ∨ headers'.message = some val) :
    MessageFrom headers val (.ok headers') := by
  intro headers'' he
  obtain rfl := Except.ok.inj he
  exact h

theorem MessageFrom.error (e : CxError) : MessageFrom headers val (.error e) := by
  intro headers' he
  simp at he

theorem MessageFrom.map {α : Type} {r : Except CxError α} {f : α → AchdHeaders}
    (h : ∀ i, (f i).message = headers.message) : MessageFrom headers val (r.map f) := by
  intro headers' he
  cases r with
  | error e => simp [Except.map] at he
  | ok i =>
    obtain rfl : f i = headers' := by simpa [Except.map] using he
    exact Or.inl (h i)

theorem setHeader_message (key : List UInt8) :
    MessageFrom headers val (achdSetHeader key val headers) := by
  unfold achdSetHeader
  repeat' apply MessageFrom.ite
  all_goals first
    | exact .ok (Or.inl rfl)
    | exact .ok (Or.inr rfl)
    | exact .error _
    | exact .map fun _ => rfl

end

/-- **The message that is read** has none but the bytes of a value, whatever comes in. -/
theorem parseHeaders_message {sig : Bool} {fd : Fd} {headers : AchdHeaders} :
    (∀ m, headers.message = some m → ∀ b ∈ m, ValueByte b) →
      ∀ e, achdParseHeaders sig fd headers = .ok e →
        ∀ m, e.headers.message = some m → ∀ b ∈ m, ValueByte b := by
  fun_induction achdParseHeaders sig fd headers with
  | case1 sig fd headers hok hdot =>
    intro h0 e he
    obtain rfl := Except.ok.inj he
    exact h0
  | case2 => simp
  | case3 sig fd headers hok hempty ih => exact ih
  | case4 sig fd headers hok key val hline e hset => simp
  | case5 sig fd headers hok key val hline headers' hset ih =>
    intro h0
    refine ih fun m hm b hb => ?_
    rcases setHeader_message key headers' hset with hsame | hval
    · exact h0 m (hsame ▸ hm) b hb
    · obtain rfl : val = m := Option.some.inj (hval.symm.trans hm)
      obtain ⟨hbuf, hword⟩ := splitLine_word hline b (List.mem_append_right key hb)
      exact ⟨readlineLoop_bytes (by simp) b hbuf, hword⟩
  | case6 sig fd headers hok =>
    intro h0 e he
    obtain rfl := Except.ok.inj he
    exact h0

end Ach.Daemon.Headers
