import Ach.Daemon.Readline
import Ach.Daemon.Request

/-! # Header blocks

A header block as it is meant: blank lines, comment lines, and lines with a key and a value, between
blanks as one likes, up to the line with the dot. `setCalls` says which keys and values
`achd_parse_headers` hands to `achd_set_header` on the way.

The class of a word has blanks in it. So the blanks before a separator become a part of the key and
those after a value a part of the value, and a line gives the key and the value that stand in it if
and only if there are none (`setHeader_called_iff`). And the dot of the expression for the last line
is not quoted. So a line with at most one character that is not a space ends the block, unless it is
empty; in particular a line of blanks does, and a comment line with nothing in it
(`header_block_iff`). -/

namespace Ach.Daemon.Block

open Ach.Lib.Regex Ach.Lib.Text
open Ach.Channel.Types Ach.Daemon.Io Ach.Daemon.Readline Ach.Daemon.Headers Ach.Daemon.Request

/-! ### The fields that are set -/

/-- The keys and values of the calls of `achd_set_header` that `achd_parse_headers` makes. -/
def setCalls (sig : Bool) (fd : Fd) (headers : AchdHeaders) : List (List UInt8 × List UInt8) :=
  if (achdReadline sig fd achdLineLength).status = .ok then
    match splitLine (achdReadline sig fd achdLineLength).buf with
    | .dot => []
    | .malformed => []
    | .empty => setCalls (achdReadline sig fd achdLineLength).sig
        (achdReadline sig fd achdLineLength).fd headers
    | .keyValue key val => (key, val) ::
      match achdSetHeader key val headers with
      | .error _ => []
      | .ok headers' => setCalls (achdReadline sig fd achdLineLength).sig
          (achdReadline sig fd achdLineLength).fd headers'
  else []
termination_by fd.unread.length
decreasing_by all_goals exact readlineLoop_lt (by assumption)

/-- The calls one after the other. -/
def setFields (calls : List (List UInt8 × List UInt8)) (headers : AchdHeaders) :
    Except CxError AchdHeaders :=
  calls.foldlM (fun headers call => achdSetHeader call.1 call.2 headers) headers

/-- What `achd_parse_headers` gives back is what these calls make of the headers. -/
theorem setFields_setCalls {sig : Bool} {fd : Fd} {headers : AchdHeaders} :
    ∀ e, achdParseHeaders sig fd headers = .ok e →
      setFields (setCalls sig fd headers) headers = .ok e.headers := by
  fun_induction achdParseHeaders sig fd headers with
  | case1 sig fd headers hok hdot =>
    intro e he
    obtain rfl := Except.ok.inj he
    rw [setCalls, if_pos hok, hdot]
    rfl
  | case2 => simp
  | case3 sig fd headers hok hempty ih =>
    intro e he
    rw [setCalls, if_pos hok, hempty]
    exact ih e he
  | case4 sig fd headers hok key val hline e hset => simp
  | case5 sig fd headers hok key val hline headers' hset ih =>
    intro e he
    rw [setCalls, if_pos hok, hline]
    simp only [hset, setFields, List.foldlM_cons]
    exact ih e he
  | case6 sig fd headers hok =>
    intro e he
    obtain rfl := Except.ok.inj he
    rw [setCalls, if_neg hok]
    rfl

/-- No other bytes than those of a value are handed over. -/
theorem mem_setCalls {sig : Bool} {fd : Fd} {headers : AchdHeaders} :
    ∀ call ∈ setCalls sig fd headers, ∀ b ∈ call.1 ++ call.2, ValueByte b := by
  have hhere : ∀ {sig : Bool} {fd : Fd} {key val : List UInt8},
      splitLine (achdReadline sig fd achdLineLength).buf = .keyValue key val →
        ∀ b ∈ key ++ val, ValueByte b := by
    intro sig fd key val hline b hb
    obtain ⟨hbuf, hword⟩ := splitLine_word hline b hb
    exact ⟨readlineLoop_bytes (by simp) b hbuf, hword⟩
  fun_induction setCalls sig fd headers with
  | case1 => simp
  | case2 => simp
  | case3 sig fd headers hok hempty ih => exact ih
  | case4 sig fd headers hok key val hline ih =>
    intro call hcall
    rcases List.mem_cons.mp hcall with rfl | hcall
    · exact hhere hline
    · split at hcall
      · simp at hcall
      · exact ih _ call hcall
  | case5 => simp

/-- At the end of a block at least one byte has been read. -/
theorem parseHeaders_lt {sig : Bool} {fd : Fd} {headers : AchdHeaders} :
    ∀ e, achdParseHeaders sig fd headers = .ok e → e.status = .ok →
      e.fd.unread.length < fd.unread.length := by
  fun_induction achdParseHeaders sig fd headers with
  | case1 sig fd headers hok hdot =>
    intro e he _
    obtain rfl := Except.ok.inj he
    exact readlineLoop_lt hok
  | case2 => simp
  | case3 sig fd headers hok hempty ih =>
    intro e he hst
    exact (ih e he hst).trans (readlineLoop_lt hok)
  | case4 sig fd headers hok key val hline e hset => simp
  | case5 sig fd headers hok key val hline headers' hset ih =>
    intro e he hst
    exact (ih e he hst).trans (readlineLoop_lt hok)
  | case6 sig fd headers hok =>
    intro e he hst
    obtain rfl := Except.ok.inj he
    exact absurd hst hok

/-! ### Kinds of lines -/

theorem received_append (s t : List UInt8) : received (s ++ t) = received s ++ received t :=
  List.filter_append s t

theorem received_eq_self {s : List UInt8} (h : 13 ∉ s) : received s = s := by
  refine List.filter_eq_self.mpr fun b hb => decide_eq_true ?_
  rintro rfl
  exact h hb

/-- Carriage returns are not seen among the characters that are not spaces. -/
theorem solid_received (s : List UInt8) :
    (cString (received s)).filter solid = (cString s).filter solid := by
  induction s with
  | nil => rfl
  | cons b s ih =>
    unfold received cString at ih ⊢
    by_cases h13 : b = 13
    · subst h13
      rw [List.filter_cons_of_neg (by decide), List.takeWhile_cons_of_pos (by decide),
        List.filter_cons_of_neg (by decide), ih]
    · rw [List.filter_cons_of_pos (by simpa using h13)]
      by_cases h0 : b = 0
      · subst h0
        rfl
      · rw [List.takeWhile_cons_of_pos (by simpa using h0),
          List.takeWhile_cons_of_pos (by simpa using h0), List.filter_cons, List.filter_cons, ih]

/-- **The lines that are taken for the last one.** -/
theorem splitLine_eq_dot_iff {buf : List UInt8} : splitLine buf = .dot ↔
    cString buf ≠ [] ∧ ((cString buf).filter solid).length ≤ 1 := by
  rw [← dotRegex_iff]
  unfold splitLine
  simp only
  split_ifs with h
  · simp [h]
  · simp only [h]
    split <;> simp

/-- A text of spaces is an empty line. -/
theorem lineRegex_spaces {s : List UInt8} (h : ∀ b ∈ s, regexSpace b = true) :
    regexec lineRegex s = some [none, none] := by
  have hself : s.takeWhile regexSpace = s := List.takeWhile_eq_self_iff.mpr h
  have hgreedy : greedy ([.bol, .many false regexSpace] ++ [.eol]) true s =
      some [0, s.length, 0] := by
    simp [greedy, hself]
  have hpost : parses (keyValueItems ++ [.eol]) true s = [] := by
    by_contra hparse
    simp only [keyValueItems, List.cons_append, List.nil_append, ← ne_eq, parses_bol_ne_nil,
      parses_many_ne_nil, parses_one_ne_nil] at hparse
    -- the separator is not a space
    obtain ⟨a₁, t₁, rfl, -, a₂, t₂, rfl, -, a₃, t₃, rfl, -, sep, t₄, rfl, hsep, -⟩ := hparse
    have hsolid := (regexSep_spec hsep).2.2.2.1
    have hspace := h sep (by simp)
    simp [solid, hspace] at hsolid
  have hline := regexec_of_greedy [] [keyValueItems ++ [.eol]] hgreedy (by simp)
    (by simpa using hpost)
  rw [show lineRegex = [] ++ ([.bol, .many false regexSpace] ++ [.eol]) ::
    [keyValueItems ++ [.eol]] from rfl, hline]
  rfl

/-- Blanks and then a comment. -/
theorem splitLine_blanks {lead cmt : List UInt8} (hlead : ∀ b ∈ lead, regexSpace b = true)
    (hcmt : Comment cmt) (hdot : splitLine (lead ++ cmt) ≠ .dot) :
    splitLine (lead ++ cmt) = .empty := by
  have hnodot : ¬ (regexec dotRegex (cString (lead ++ cmt))).isSome = true := by
    rwa [dotRegex_iff, ← splitLine_eq_dot_iff]
  have hz : cString (lead ++ cmt) = lead ++ cString cmt :=
    List.takeWhile_append_of_pos fun b hb => by simpa using (regexSpace_spec (hlead b hb)).1
  have hc : (lead ++ cString cmt).takeWhile (· != 35) = lead := by
    rw [List.takeWhile_append_of_pos fun b hb => by simpa using (regexSpace_spec (hlead b hb)).2,
      takeWhile_comment hcmt, List.append_nil]
  rw [hz] at hnodot
  unfold splitLine
  simp only [hz, if_neg hnodot, hc, lineRegex_spaces hlead]

/-! ### One line is read -/

section
variable {fd : Fd} {line rest : List UInt8} (headers : AchdHeaders) (h10 : 10 ∉ line)
  (hlen : line.length < achdLineLength) (hfd : fd.unread = line ++ 10 :: rest)
  (hs : Smooth fd.calls)
include h10 hlen hfd hs

/-- A line that cannot be read. -/
theorem read_eof (h255 : 255 ∈ line) : setCalls false fd headers = [] ∧
    ∀ e, achdParseHeaders false fd headers = .ok e → e.status ≠ .ok := by
  have hst := achdReadline_eof h10 hlen hfd hs h255
  constructor
  · rw [setCalls, if_neg (by simp [hst])]
  · intro e he
    rw [achdParseHeaders, if_neg (by simp [hst])] at he
    obtain rfl := Except.ok.inj he
    simp [hst]

variable (h255 : 255 ∉ line)
include h255

/-- A line that is taken for the last one. -/
theorem read_dot (hline : splitLine (received line) = .dot) : ∃ calls,
    achdParseHeaders false fd headers = .ok ⟨.ok, headers, ⟨rest, calls⟩, false⟩ ∧
      setCalls false fd headers = [] := by
  obtain ⟨calls, -, hread⟩ := achdReadline_line h10 hlen hfd hs h255
  refine ⟨calls, ?_, ?_⟩
  · rw [achdParseHeaders, hread]
    simp only [if_true, hline]
  · rw [setCalls, hread]
    simp only [if_true, hline]

/-- A line without a key. -/
theorem read_empty (hline : splitLine (received line) = .empty) : ∃ calls, Smooth calls ∧
    achdParseHeaders false fd headers = achdParseHeaders false ⟨rest, calls⟩ headers ∧
      setCalls false fd headers = setCalls false ⟨rest, calls⟩ headers := by
  obtain ⟨calls, hc, hread⟩ := achdReadline_line h10 hlen hfd hs h255
  refine ⟨calls, hc, ?_, ?_⟩
  · rw [achdParseHeaders, hread]
    simp only [if_true, hline]
  · rw [setCalls, hread]
    simp only [if_true, hline]

/-- A line with a key and a value. -/
theorem read_keyValue {key val : List UInt8}
    (hline : splitLine (received line) = .keyValue key val) :
    (setCalls false fd headers).head? = some (key, val) ∧
      ∀ headers', achdSetHeader key val headers = .ok headers' → ∃ calls, Smooth calls ∧
        achdParseHeaders false fd headers = achdParseHeaders false ⟨rest, calls⟩ headers' ∧
        setCalls false fd headers = (key, val) :: setCalls false ⟨rest, calls⟩ headers' := by
  obtain ⟨calls, hc, hread⟩ := achdReadline_line h10 hlen hfd hs h255
  constructor
  · rw [setCalls, hread]
    simp only [if_true, hline, List.head?_cons]
  · intro headers' hset
    refine ⟨calls, hc, ?_, ?_⟩
    · rw [achdParseHeaders, hread]
      simp only [if_true, hline, hset]
    · rw [setCalls, hread]
      simp only [if_true, hline, hset]

end

/-! ### Lines with a key and a value -/

/-- Spaces and tabs. -/
def Blanks (s : List UInt8) : Prop := ∀ b ∈ s, isBlank b = true

instance (s : List UInt8) : Decidable (Blanks s) := List.decidableBAll _ s

/-- A key or a value as it is meant: no separator, no comment, and no blank at either end. -/
structure Token (w : List UInt8) : Prop where
  ne : w ≠ []
  bytes : ∀ b ∈ w, b ≠ 58 ∧ b ≠ 61 ∧ b ≠ 35 ∧ b ≠ 10 ∧ b ≠ 13
  head : ∀ b, w.head? = some b → isBlank b = false
  last : ∀ b, w.getLast? = some b → isBlank b = false

theorem token_of_plain {w : List UInt8} (hne : w ≠ []) (h : w.all plain = true) : Token w := by
  have hb : ∀ b ∈ w, plain b = true := List.all_eq_true.mp h
  have hblank : ∀ b ∈ w, isBlank b = false := by
    intro b hw
    have := (plain_spec (hb b hw)).2.2.2.1
    simp only [regexSpace, Bool.or_eq_false_iff] at this
    exact this.1.1
  constructor
  · exact hne
  · intro b hw
    obtain ⟨hline, -, h35, -, -, hsep⟩ := plain_spec (hb b hw)
    simp only [regexSep, Bool.or_eq_false_iff, beq_eq_false_iff_ne] at hsep
    exact ⟨hsep.1, hsep.2, h35, hline.2⟩
  · exact fun b hw => hblank b (List.mem_of_mem_head? hw)
  · exact fun b hw => hblank b (List.mem_of_getLast? hw)

/-- A header line as it is meant. -/
structure KeyValueLine where
  lead : List UInt8
  key : List UInt8
  mid : List UInt8
  sep : UInt8
  mid' : List UInt8
  val : List UInt8
  trail : List UInt8
  comment : List UInt8
  blanks : Blanks lead ∧ Blanks mid ∧ Blanks mid' ∧ Blanks trail
  token_key : Token key
  token_val : Token val
  isSep : regexSep sep = true
  isComment : Comment comment
  noNewline : 10 ∉ comment

/-- The line up to the comment. -/
def KeyValueLine.body (l : KeyValueLine) : List UInt8 :=
  l.lead ++ (l.key ++ l.mid ++ l.sep :: (l.mid' ++ (l.val ++ l.trail)))

/-- The bytes of the line. -/
def KeyValueLine.text (l : KeyValueLine) : List UInt8 := l.body ++ l.comment

/-- No blanks before the separator, none after the value, no zero byte in the key or the value, and
no byte 255. -/
def KeyValueLine.Tight (l : KeyValueLine) : Prop :=
  l.mid = [] ∧ l.trail = [] ∧ 0 ∉ l.key ++ l.val ∧ 255 ∉ l.key ++ l.val ++ l.comment

theorem isBlank_spec {b : UInt8} (h : isBlank b = true) : ValueByte b ∧ regexSpace b = true := by
  simp only [isBlank, Bool.or_eq_true, beq_iff_eq] at h
  rcases h with rfl | rfl <;> decide

theorem Blanks.space {s : List UInt8} (h : Blanks s) : ∀ b ∈ s, regexSpace b = true :=
  fun b hb => (isBlank_spec (h b hb)).2

theorem Blanks.notMem {s : List UInt8} (h : Blanks s) {b : UInt8} (hb : isBlank b = false) :
    b ∉ s := by
  intro hmem
  rw [h b hmem] at hb
  simp at hb

/-- A key or a value with the blanks after it. -/
theorem Token.value {w trail : List UInt8} (hw : Token w) (h0 : 0 ∉ w) (h255 : 255 ∉ w)
    (htrail : Blanks trail) : Value (w ++ trail) := by
  constructor
  · intro b hb
    rcases List.mem_append.mp hb with hb | hb
    · obtain ⟨h58, h61, h35, h10, h13⟩ := hw.bytes b hb
      refine ⟨⟨h10, h13, ?_⟩, ?_, h35, by simp [regexWord, h58, h61, h10]⟩
      · rintro rfl
        exact h255 hb
      · rintro rfl
        exact h0 hb
    · exact (isBlank_spec (htrail b hb)).1
  · intro b hb
    rw [List.head?_append_of_ne_nil _ hw.ne] at hb
    obtain ⟨-, -, -, h10, h13⟩ := hw.bytes b (List.mem_of_mem_head? hb)
    simp [regexSpace, hw.head b hb, h10, h13]

section
variable (l : KeyValueLine)

/-- A byte that neither a blank nor a separator can be is in the key or in the value. -/
theorem mem_body {b : UInt8} (hblank : isBlank b = false) (hsep : regexSep b = false) :
    b ∈ l.body ↔ b ∈ l.key ++ l.val := by
  obtain ⟨h₁, h₂, h₃, h₄⟩ := l.blanks
  have hne : b ≠ l.sep := by
    rintro rfl
    simp [l.isSep] at hsep
  simp [KeyValueLine.body, h₁.notMem hblank, h₂.notMem hblank, h₃.notMem hblank, h₄.notMem hblank,
    hne]

/-- The characters that end a line are not in it. -/
theorem lineEnd_notMem : 10 ∉ l.body ∧ 13 ∉ l.body := by
  rw [mem_body l (by decide) (by decide), mem_body l (by decide) (by decide)]
  have hbytes : ∀ b ∈ l.key ++ l.val, b ≠ 10 ∧ b ≠ 13 := by
    intro b hb
    rcases List.mem_append.mp hb with hb | hb
    · exact (l.token_key.bytes b hb).2.2.2
    · exact (l.token_val.bytes b hb).2.2.2
  exact ⟨fun h => (hbytes 10 h).1 rfl, fun h => (hbytes 13 h).2 rfl⟩

theorem newline_notMem : 10 ∉ l.text := by
  rw [KeyValueLine.text, List.mem_append, not_or]
  exact ⟨(lineEnd_notMem l).1, l.noNewline⟩

theorem eof_mem_text : 255 ∈ l.text ↔ 255 ∈ l.key ++ l.val ++ l.comment := by
  rw [KeyValueLine.text, List.mem_append, mem_body l (by decide) (by decide), ← List.mem_append]

/-- **What is made of the line**: the blanks after the key and after the value stay. -/
theorem splitLine_text (h0 : 0 ∉ l.key ++ l.val) (h255 : 255 ∉ l.key ++ l.val ++ l.comment) :
    splitLine (received l.text) = .keyValue (l.key ++ l.mid) (l.val ++ l.trail) := by
  simp only [List.mem_append, not_or] at h0 h255
  obtain ⟨h₁, h₂, h₃, h₄⟩ := l.blanks
  have hkey := l.token_key.value h0.1 h255.1.1 h₂
  have hval := l.token_val.value h0.2 h255.1.2 h₄
  have hcmt : Comment (received l.comment) := by
    intro b hb
    have hc := l.isComment
    cases hcase : l.comment with
    | nil => simp [hcase, received] at hb
    | cons c t =>
      obtain rfl : c = 35 := hc c (by simp [hcase])
      rw [hcase, received, List.filter_cons_of_pos (by decide)] at hb
      simpa using hb.symm
  rw [KeyValueLine.text, received_append, received_eq_self (lineEnd_notMem l).2]
  exact splitLine_keyValue h₁.space hkey (by simp [l.token_key.ne]) l.isSep h₃.space hval hcmt

end

section
variable (l : KeyValueLine) {fd : Fd} {rest : List UInt8} (headers : AchdHeaders)
  (hlen : l.text.length < achdLineLength) (hfd : fd.unread = l.text ++ 10 :: rest)
  (hs : Smooth fd.calls)
include hlen hfd hs

/-- What `achd_set_header` is called with. -/
theorem head_setCalls (h0 : 0 ∉ l.key ++ l.val) (h255 : 255 ∉ l.key ++ l.val ++ l.comment) :
    (setCalls false fd headers).head? = some (l.key ++ l.mid, l.val ++ l.trail) := by
  have hline := splitLine_text l h0 h255
  rw [← eof_mem_text] at h255
  exact (read_keyValue headers (newline_notMem l) hlen hfd hs h255 hline).1

theorem tight_of_head (hhead : (setCalls false fd headers).head? = some (l.key, l.val)) :
    l.Tight := by
  have hbytes := mem_setCalls _ (List.mem_of_mem_head? hhead)
  have h0 : 0 ∉ l.key ++ l.val := fun h => (hbytes 0 h).2.1 rfl
  have h255 : 255 ∉ l.key ++ l.val ++ l.comment := by
    rw [← eof_mem_text]
    intro h
    rw [(read_eof headers (newline_notMem l) hlen hfd hs h).1] at hhead
    simp at hhead
  rw [head_setCalls l headers hlen hfd hs h0 h255] at hhead
  simp only [Option.some.injEq, Prod.mk.injEq, List.append_right_eq_self] at hhead
  exact ⟨hhead.1, hhead.2, h0, h255⟩

/-- **A header line is read as it is meant** if and only if no blanks stand before the separator and
none after the value, its key and its value have no zero byte, and it has no byte 255. -/
theorem setHeader_called_iff :
    (setCalls false fd headers).head? = some (l.key, l.val) ↔ l.Tight := by
  constructor
  · exact tight_of_head l headers hlen hfd hs
  · rintro ⟨hmid, htrail, h0, h255⟩
    rw [head_setCalls l headers hlen hfd hs h0 h255, hmid, htrail, List.append_nil, List.append_nil]

end

/-- `channel-name: x`, with any blanks before the separator and any comment. -/
def channelLine (mid comment : List UInt8) (hmid : Blanks mid) (hcmt : Comment comment)
    (h10 : 10 ∉ comment) : KeyValueLine where
  lead := [9]
  key := ascii "channel-name"
  mid := mid
  sep := 58
  mid' := [32]
  val := ascii "x"
  trail := []
  comment := comment
  blanks := ⟨by decide, hmid, by decide, by decide⟩
  token_key := token_of_plain (by decide) (by decide)
  token_val := token_of_plain (by decide) (by decide)
  isSep := by decide
  isComment := hcmt
  noNewline := h10

/-- A line with a comment. -/
def commentedLine : KeyValueLine :=
  channelLine [] [35, 33, 13] (by decide) (by simp [Comment]) (by decide)

/-- A line with a blank before the separator. -/
def spacedLine : KeyValueLine := channelLine [32] [] (by decide) (by simp [Comment]) (by decide)

theorem setHeader_called_iff_sample :
    (setCalls false ⟨commentedLine.text ++ 10 :: [46, 10], [⟨.upTo 0, false⟩]⟩
      AchdHeaders.zero).head? = some (ascii "channel-name", ascii "x") :=
  (setHeader_called_iff commentedLine _ (by decide) rfl (by decide)).mpr
    ⟨rfl, rfl, by decide, by decide⟩

/-- The blank before the separator is handed over as a part of the key. -/
theorem blank_before_separator :
    (setCalls false ⟨spacedLine.text ++ 10 :: [46, 10], []⟩ AchdHeaders.zero).head? =
        some (ascii "channel-name ", ascii "x") ∧
      (setCalls false ⟨spacedLine.text ++ 10 :: [46, 10], []⟩ AchdHeaders.zero).head? ≠
        some (spacedLine.key, spacedLine.val) := by
  have hhead := @head_setCalls spacedLine ⟨spacedLine.text ++ 10 :: [46, 10], []⟩ _
    AchdHeaders.zero (by decide) rfl (by decide) (by decide) (by decide)
  constructor
  · exact hhead
  · rw [hhead]
    decide

/-! ### Blocks -/

/-- A line of a block: blanks, a comment, or a key that is known with a value that it takes. -/
inductive HeaderLine where
  | blank (width : List UInt8) (blanks : Blanks width)
  | comment (lead text : List UInt8) (blanks : Blanks lead) (noNewline : 10 ∉ text)
  | keyValue (l : KeyValueLine)
      (known : ∀ headers, ∃ headers', achdSetHeader l.key l.val headers = .ok headers')

/-- The bytes of the line. -/
def HeaderLine.text : HeaderLine → List UInt8
  | .blank width _ => width
  | .comment lead text _ _ => lead ++ 35 :: text
  | .keyValue l _ => l.text

/-- The field that the line sets. -/
def HeaderLine.field : HeaderLine → List (List UInt8 × List UInt8)
  | .blank _ _ => []
  | .comment _ _ _ _ => []
  | .keyValue l _ => [(l.key, l.val)]

/-- The lines that are read as they are meant: a blank line is empty, a comment line has more than
its first character (up to a zero byte), and no byte is 255. -/
def HeaderLine.Safe : HeaderLine → Prop
  | .blank width _ => width = []
  | .comment _ text _ _ => (cString text).filter solid ≠ [] ∧ 255 ∉ text
  | .keyValue l _ => l.Tight

/-- The line that ends a block. -/
structure DotLine where
  before : List UInt8
  after : List UInt8
  blanks : Blanks before ∧ Blanks after

def DotLine.text (dot : DotLine) : List UInt8 := dot.before ++ 46 :: dot.after

/-- The bytes of a block. -/
def blockText (block : List HeaderLine) (dot : DotLine) : List UInt8 :=
  block.flatMap (fun l => l.text ++ [10]) ++ (dot.text ++ [10])

/-- `achd_parse_headers` ends, with success, before `rest`. -/
def Stops (fd : Fd) (headers : AchdHeaders) (rest : List UInt8) : Prop :=
  ∃ e, achdParseHeaders false fd headers = .ok e ∧ e.status = .ok ∧ e.fd.unread = rest

/-- **A block is read as it is meant**: the fields of its lines are set, in order, and what follows
the block is left. -/
structure ReadsBlock (block : List HeaderLine) (fd : Fd) (headers : AchdHeaders)
    (rest : List UInt8) : Prop where
  calls : setCalls false fd headers = block.flatMap HeaderLine.field
  ends : ∃ e, achdParseHeaders false fd headers = .ok e ∧ e.status = .ok ∧
    setFields (block.flatMap HeaderLine.field) headers = .ok e.headers ∧ e.fd.unread = rest

/-- The only character of the line that is not a space is a dot. -/
def IsDot (line : List UInt8) : Prop := line.filter solid = [46]

theorem readsBlock_iff_stops {block : List HeaderLine} {fd : Fd} {headers : AchdHeaders}
    {rest : List UInt8} : ReadsBlock block fd headers rest ↔
      setCalls false fd headers = block.flatMap HeaderLine.field ∧ Stops fd headers rest := by
  constructor
  · rintro ⟨hcalls, e, he, hst, -, hrest⟩
    exact ⟨hcalls, e, he, hst, hrest⟩
  · rintro ⟨hcalls, e, he, hst, hrest⟩
    refine ⟨hcalls, e, he, hst, ?_, hrest⟩
    rw [← hcalls]
    exact setFields_setCalls e he

/-! ### The end of a block -/

section
variable {fd : Fd} {line rest : List UInt8} (headers : AchdHeaders) (h10 : 10 ∉ line)
  (hlen : line.length < achdLineLength) (hfd : fd.unread = line ++ 10 :: rest)
  (hs : Smooth fd.calls)
include h10 hlen hfd hs

/-- After any other line more is read. -/
theorem stops_iff_splitLine (h255 : 255 ∉ line) :
    Stops fd headers rest ↔ splitLine (received line) = .dot := by
  constructor
  · rintro ⟨e, he, hst, hrest⟩
    obtain ⟨calls, -, hread⟩ := achdReadline_line h10 hlen hfd hs h255
    rw [achdParseHeaders, hread] at he
    simp only [if_true] at he
    have hmore : ∀ headers', achdParseHeaders false ⟨rest, calls⟩ headers' ≠ .ok e := by
      intro headers' he'
      have := parseHeaders_lt e he' hst
      rw [hrest] at this
      exact lt_irrefl _ this
    split at he
    · assumption
    · simp at he
    · exact absurd he (hmore headers)
    · split at he
      · simp at he
      · exact absurd he (hmore _)
  · intro hdot
    obtain ⟨calls, hparse, -⟩ := read_dot headers h10 hlen hfd hs h255 hdot
    exact ⟨_, hparse, rfl, rfl⟩

/-- **The lines that end a block**: as C strings they are not empty and have at most one character
that is not a space. -/
theorem stops_iff : Stops fd headers rest ↔
    255 ∉ line ∧ cString (received line) ≠ [] ∧ ((cString line).filter solid).length ≤ 1 := by
  by_cases h255 : 255 ∈ line
  · simp only [h255, not_true_eq_false, false_and, iff_false]
    rintro ⟨e, he, hst, -⟩
    exact (read_eof headers h10 hlen hfd hs h255).2 e he hst
  · rw [stops_iff_splitLine headers h10 hlen hfd hs h255, splitLine_eq_dot_iff, solid_received]
    simp [h255]

theorem stops_of_isDot (hdot : IsDot line) : Stops fd headers rest := by
  have hsolid : ∀ b ∈ line, solid b = true → b = 46 := by
    intro b hb hsol
    have : b ∈ line.filter solid := List.mem_filter.mpr ⟨hb, hsol⟩
    rw [hdot] at this
    exact List.mem_singleton.mp this
  have hz : cString line = line := by
    refine List.takeWhile_eq_self_iff.mpr fun b hb => ?_
    by_contra h0
    obtain rfl : b = 0 := by simpa using h0
    exact absurd (hsolid 0 hb (by decide)) (by decide)
  rw [stops_iff headers h10 hlen hfd hs]
  refine ⟨fun h255 => absurd (hsolid 255 h255 (by decide)) (by decide), ?_, ?_⟩
  · intro hnil
    have := solid_received line
    rw [hnil, hz, hdot] at this
    simp at this
  · rw [hz, hdot, List.length_singleton]

end

/-! ### The lines of a block -/

theorem newline_notMem_text (l : HeaderLine) : 10 ∉ l.text := by
  cases l with
  | blank width blanks => exact blanks.notMem (by decide)
  | comment lead text blanks noNewline =>
    simp [HeaderLine.text, blanks.notMem (show isBlank 10 = false by decide), noNewline]
  | keyValue l known => exact newline_notMem l

theorem received_blanks {s : List UInt8} (h : Blanks s) : received s = s :=
  received_eq_self (h.notMem (by decide))

theorem cString_blanks {s : List UInt8} (h : Blanks s) (t : List UInt8) :
    cString (s ++ t) = s ++ cString t :=
  List.takeWhile_append_of_pos fun b hb => by simpa using (isBlank_spec (h b hb)).1.2.1

/-- The characters of a comment line that are not spaces. -/
theorem solid_comment {lead : List UInt8} (h : Blanks lead) (text : List UInt8) :
    (cString (lead ++ 35 :: text)).filter solid = 35 :: (cString text).filter solid := by
  rw [cString_blanks h, List.filter_append, filter_solid_eq_nil.mpr h.space, List.nil_append,
    cString, List.takeWhile_cons_of_pos (by decide), List.filter_cons_of_pos (by decide), cString]

theorem eof_mem_comment {lead text : List UInt8} (h : Blanks lead) :
    255 ∈ lead ++ 35 :: text ↔ 255 ∈ text := by
  have hlead : 255 ∉ lead := h.notMem (by decide)
  simp [hlead]

section
variable {fd : Fd} {rest : List UInt8} {l : HeaderLine} (headers : AchdHeaders)
  (hlen : l.text.length < achdLineLength) (hfd : fd.unread = l.text ++ 10 :: rest)
  (hs : Smooth fd.calls)
include hlen hfd hs

/-- A safe line sets its field, and then the next line is read. -/
theorem passes (hsafe : l.Safe) : ∃ calls headers', Smooth calls ∧
    achdParseHeaders false fd headers = achdParseHeaders false ⟨rest, calls⟩ headers' ∧
    setCalls false fd headers = l.field ++ setCalls false ⟨rest, calls⟩ headers' := by
  have h10 := newline_notMem_text l
  cases l with
  | blank width blanks =>
    obtain rfl : width = [] := hsafe
    obtain ⟨calls, hc, h⟩ := read_empty headers h10 hlen hfd hs (by simp [HeaderLine.text])
      (show splitLine [] = .empty by decide)
    exact ⟨calls, headers, hc, h⟩
  | comment lead text blanks noNewline =>
    obtain ⟨hsolid, h255⟩ := hsafe
    have hline : splitLine (received (lead ++ 35 :: text)) = .empty := by
      rw [received_append, received_blanks blanks]
      refine splitLine_blanks blanks.space (by simp [Comment, received]) ?_
      rw [← received_blanks blanks, ← received_append, ne_eq, splitLine_eq_dot_iff, solid_received,
        solid_comment blanks, List.length_cons]
      have := List.length_pos_of_ne_nil hsolid
      omega
    rw [← eof_mem_comment blanks] at h255
    obtain ⟨calls, hc, h⟩ := read_empty headers h10 hlen hfd hs h255 hline
    exact ⟨calls, headers, hc, h⟩
  | keyValue l known =>
    obtain ⟨hmid, htrail, h0, h255⟩ := hsafe
    obtain ⟨headers', hset⟩ := known headers
    have hline := splitLine_text l h0 h255
    rw [hmid, htrail, List.append_nil, List.append_nil] at hline
    rw [← eof_mem_text] at h255
    obtain ⟨calls, hc, h⟩ := (read_keyValue headers h10 hlen hfd hs h255 hline).2 headers' hset
    exact ⟨calls, headers', hc, h⟩

/-- A line that is not safe does not set its field, or the block ends before its dot. -/
theorem stuck (hsafe : ¬ l.Safe) {fields : List (List UInt8 × List UInt8)} {rest' : List UInt8}
    (hrest : rest'.length < rest.length) :
    ¬ (setCalls false fd headers = l.field ++ fields ∧ Stops fd headers rest') := by
  rintro ⟨hcalls, hstops⟩
  have h10 := newline_notMem_text l
  -- a line that ends the block is followed by `rest`
  have hnot : ¬ Stops fd headers rest := by
    rintro ⟨e, he, -, hunread⟩
    obtain ⟨e', he', -, hunread'⟩ := hstops
    obtain rfl : e = e' := Except.ok.inj (he.symm.trans he')
    rw [← hunread, ← hunread'] at hrest
    exact lt_irrefl _ hrest
  cases l with
  | blank width blanks =>
    have hz : cString (received width) = width := by
      rw [received_blanks blanks, ← List.append_nil width, cString_blanks blanks]
      rfl
    refine hnot ((stops_iff headers h10 hlen hfd hs).mpr ⟨?_, ?_, ?_⟩)
    · exact blanks.notMem (by decide)
    · exact fun h => hsafe (hz.symm.trans h)
    · have hspaces : (cString width).filter solid = [] := by
        rw [← solid_received, hz]
        exact filter_solid_eq_nil.mpr blanks.space
      rw [HeaderLine.text, hspaces]
      exact Nat.zero_le 1
  | comment lead text blanks noNewline =>
    obtain ⟨e, he, hst, -⟩ := hstops
    have h255 : 255 ∉ text := by
      rw [← eof_mem_comment blanks]
      exact fun h255 => (read_eof headers h10 hlen hfd hs h255).2 e he hst
    have hempty : (cString text).filter solid = [] := by
      by_contra hne
      exact hsafe ⟨hne, h255⟩
    refine hnot ((stops_iff headers h10 hlen hfd hs).mpr ⟨?_, ?_, ?_⟩)
    · rwa [HeaderLine.text, eof_mem_comment blanks]
    · rw [HeaderLine.text, received_append, received_blanks blanks, cString_blanks blanks]
      simp [received, cString]
    · rw [HeaderLine.text, solid_comment blanks, hempty, List.length_singleton]
  | keyValue l known =>
    refine hsafe (tight_of_head l headers hlen hfd hs ?_)
    rw [hcalls]
    rfl

end

/-- **A block is read as it is meant** if and only if each of its lines is. -/
theorem readsBlock_iff (dot : DotLine) (hdot : dot.text.length < achdLineLength)
    {rest : List UInt8} : ∀ (block : List HeaderLine) (fd : Fd) (headers : AchdHeaders),
    (∀ l ∈ block, l.text.length < achdLineLength) → Smooth fd.calls →
    fd.unread = blockText block dot ++ rest →
    (ReadsBlock block fd headers rest ↔ ∀ l ∈ block, l.Safe) := by
  have h10 : 10 ∉ dot.text := by
    obtain ⟨hbefore, hafter⟩ := dot.blanks
    have h10 : isBlank 10 = false := by decide
    simp [DotLine.text, hbefore.notMem h10, hafter.notMem h10]
  have hisDot : IsDot dot.text := by
    obtain ⟨hbefore, hafter⟩ := dot.blanks
    rw [IsDot, DotLine.text, List.filter_append, filter_solid_eq_nil.mpr hbefore.space,
      List.filter_cons_of_pos (by decide), filter_solid_eq_nil.mpr hafter.space, List.nil_append]
  intro block
  induction block with
  | nil =>
    intro fd headers _ hs hfd
    have hfd' : fd.unread = dot.text ++ 10 :: rest := by simpa [blockText] using hfd
    have hstops := stops_of_isDot headers h10 hdot hfd' hs hisDot
    simp only [List.not_mem_nil, false_imp_iff, implies_true, iff_true]
    rw [readsBlock_iff_stops]
    refine ⟨?_, hstops⟩
    have h255 := ((stops_iff headers h10 hdot hfd' hs).mp hstops).1
    have hline := (stops_iff_splitLine headers h10 hdot hfd' hs h255).mp hstops
    obtain ⟨calls, -, hcalls⟩ := read_dot headers h10 hdot hfd' hs h255 hline
    exact hcalls
  | cons l block ih =>
    intro fd headers hlen hs hfd
    have hfd' : fd.unread = l.text ++ 10 :: (blockText block dot ++ rest) := by
      simpa [blockText] using hfd
    have hl := hlen l List.mem_cons_self
    rw [readsBlock_iff_stops, List.forall_mem_cons, List.flatMap_cons]
    by_cases hsafe : l.Safe
    · obtain ⟨calls, headers', hc, hparse, hcalls⟩ := passes headers hl hfd' hs hsafe
      have hrec := ih ⟨blockText block dot ++ rest, calls⟩ headers'
        (fun m hm => hlen m (List.mem_cons_of_mem l hm)) hc rfl
      rw [readsBlock_iff_stops] at hrec
      rw [hcalls, List.append_cancel_left_eq, Stops, hparse, ← Stops, hrec]
      simp [hsafe]
    · have hlt : rest.length < (blockText block dot ++ rest).length := by
        simp [blockText]
        omega
      simp only [hsafe, false_and, iff_false]
      exact stuck headers hl hfd' hs hsafe hlt

/-- **Header blocks.** A block is read as it is meant if and only if its blank lines are empty, its
comment lines have more than their first character, its keys and values have no blanks after them
and no zero byte in them, and no byte is 255. And a line ends the block if and only if it should,
unless it is, as a C string, not empty and has at most one character that is not a space. -/
theorem header_block_iff (headers : AchdHeaders) (rest : List UInt8) :
    (∀ (block : List HeaderLine) (dot : DotLine) (fd : Fd),
      (∀ l ∈ block, l.text.length < achdLineLength) → dot.text.length < achdLineLength →
      Smooth fd.calls → fd.unread = blockText block dot ++ rest →
      (ReadsBlock block fd headers rest ↔ ∀ l ∈ block, l.Safe)) ∧
    ∀ (line : List UInt8) (fd : Fd), 10 ∉ line → line.length < achdLineLength →
      Smooth fd.calls → fd.unread = line ++ 10 :: rest →
      ((Stops fd headers rest ↔ IsDot line) ↔
        (IsDot line ∨ 255 ∈ line ∨ cString (received line) = [] ∨
          2 ≤ ((cString line).filter solid).length)) := by
  constructor
  · intro block dot fd hlen hdot hs hfd
    exact readsBlock_iff dot hdot block fd headers hlen hs hfd
  · intro line fd h10 hlen hs hfd
    by_cases hdot : IsDot line
    · simp [hdot, stops_of_isDot headers h10 hlen hfd hs hdot]
    · simp only [hdot, iff_false, false_or, stops_iff headers h10 hlen hfd hs]
      by_cases h255 : 255 ∈ line
      · simp [h255]
      · by_cases hnil : cString (received line) = []
        · simp [hnil]
        · simp only [h255, hnil, not_false_eq_true, true_and, ne_eq, false_or]
          omega

/-- The line of the channel. -/
def channelField : HeaderLine := .keyValue commentedLine fun headers => ⟨_, set_chanName headers _⟩

/-- A line that is a dot between blanks. -/
def sampleDot : DotLine := ⟨[32], [9], by decide⟩

/-- An empty line, a comment and a field. -/
def sampleBlock : List HeaderLine :=
  [.blank [] (by decide), .comment [32] [33] (by decide) (by decide), channelField]

theorem header_block_iff_sample :
    ReadsBlock sampleBlock ⟨blockText sampleBlock sampleDot ++ [97], [⟨.upTo 0, false⟩]⟩
        AchdHeaders.zero [97] ∧
      ¬ Stops ⟨[97, 98] ++ 10 :: [97], []⟩ AchdHeaders.zero [97] := by
  constructor
  · refine ((header_block_iff _ _).1 sampleBlock sampleDot _ (by decide) (by decide) (by decide)
      rfl).mpr ?_
    simp only [sampleBlock, List.forall_mem_cons]
    exact ⟨rfl, ⟨by decide, by decide⟩, ⟨rfl, rfl, by decide, by decide⟩, by simp⟩
  · have h := (header_block_iff AchdHeaders.zero [97]).2 [97, 98] ⟨[97, 98] ++ 10 :: [97], []⟩
      (by decide) (by decide) (by decide) rfl
    have hdot : ¬ IsDot [97, 98] := by unfold IsDot; decide
    exact fun hstops => hdot ((h.mpr (Or.inr (by decide))).mp hstops)

/-- A blank line and a field. -/
def blankBlock : List HeaderLine := [.blank [32] (by decide), channelField]

/-- A line with one blank ends the block: the channel is not set, and its line is left. -/
theorem blank_line_ends_block :
    Stops ⟨blockText blankBlock sampleDot, []⟩ AchdHeaders.zero
        (blockText [channelField] sampleDot) ∧
      ¬ ReadsBlock blankBlock ⟨blockText blankBlock sampleDot, []⟩ AchdHeaders.zero [] := by
  constructor
  · refine (@stops_iff ⟨blockText blankBlock sampleDot, []⟩ [32] _ AchdHeaders.zero (by decide)
      (by decide) rfl (by decide)).mpr ?_
    decide
  · intro h
    have hsafe := (readsBlock_iff sampleDot (by decide) blankBlock _ _ (by decide) (by decide)
      (List.append_nil _).symm).mp h (.blank [32] (by decide)) List.mem_cons_self
    exact absurd hsafe (by simp [HeaderLine.Safe])

end Ach.Daemon.Block
