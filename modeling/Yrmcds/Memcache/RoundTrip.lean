/-
  Storage requests of the text protocol, written and read back (src/memcache/memcache.cpp,
  `text_request::parse` and `parse_storage`).

  `StorageRequest` is what a client wants to store, with any number of extra spaces, and `render` the bytes
  it sends.  The parser walks over the header word by word, so its reading is assembled word by word: a
  gap of spaces and a word are skipped together (`field_append`), a number is read back from its decimal
  text (`toUint_decimal`), and each part of `parse_storage` is followed on the text that is left.

  The data is found by its LENGTH: nothing in it is looked at but the CR LF behind it, so it may hold any
  bytes.  Until all of it has arrived the parser reports length 0, wherever the buffer ends.
-/
import Yrmcds.Memcache.Words

namespace Yrmcds.Memcache

open TextRequest

/-! ## Texts of numbers and words -/

namespace TextRequest

variable (n : Nat)

/-- A gap: `n` spaces. -/
def sp : Bytes := List.replicate n SP

theorem skip_sp (b : Bytes) : skip (sp n ++ b) = skip b := by
  unfold skip sp
  rw [List.dropWhile_append_of_pos]
  intro c hc
  rw [List.eq_of_mem_replicate hc]
  decide

theorem skip_sp_nil : skip (sp n) = [] := by
  have h := skip_sp n []
  rwa [List.append_nil] at h

theorem headD_sp {t : Bytes} (ht : t.headD SP = SP) : (sp n ++ t).headD SP = SP := by
  cases n with
  | zero => exact ht
  | succ n => rfl

/-- **A gap and a word**, with SP or nothing behind it. -/
theorem field_append {w t : Bytes} (hne : w ≠ []) (hw : SP ∉ w) (ht : t.headD SP = SP) (n : Nat) :
    skip (sp n ++ (w ++ t)) = w ++ t ∧ w ++ t ≠ [] ∧ word (w ++ t) = w ∧ afterWord (w ++ t) = t := by
  have hall : ∀ c ∈ w, (c != SP) = true := fun c hc => bne_iff_ne.mpr fun heq => hw (heq ▸ hc)
  obtain ⟨c, w, rfl⟩ := List.exists_cons_of_ne_nil hne
  refine ⟨?_, List.cons_ne_nil _ _, ?_, ?_⟩
  · rw [skip_sp]
    exact skip_of_head (fun heq => hw (heq ▸ List.mem_cons_self))
  · unfold word
    rw [List.takeWhile_append_of_pos hall]
    cases t with
    | nil => rw [List.takeWhile_nil, List.append_nil]
    | cons d t => rw [show d = SP from ht, List.takeWhile_cons_of_neg (by decide), List.append_nil]
  · unfold afterWord
    rw [List.dropWhile_append_of_pos hall]
    cases t with
    | nil => rfl
    | cons d t => rw [show d = SP from ht, List.dropWhile_cons_of_neg (by decide)]

theorem sp_not_mem_decimal : SP ∉ decimal n := by
  intro h
  exact absurd (isDigit_of_mem_decimal h) (by decide)

/-- **A number is read back from its decimal text.** -/
theorem toUint_decimal {max n : Nat} (hle : n ≤ max) (hlt : n < 2 ^ 64 - 1) (u : Around) {t : Bytes}
    (ht : t.headD SP = SP) : toUint max u (decimal n ++ t) = some n := by
  have hdigits : ∀ c ∈ decimal n, isDigit c = true := fun c hc => isDigit_of_mem_decimal hc
  obtain ⟨htake, hdrop, hhead⟩ := span_digits hdigits ht (LF :: u.after)
  obtain ⟨d, w, hd⟩ := List.exists_cons_of_ne_nil (decimal_ne_nil n)
  have hsign : splitSign ((decimal n ++ (t ++ CR :: LF :: u.after)).dropWhile isSpace)
      = (false, decimal n ++ (t ++ CR :: LF :: u.after)) := by
    rw [hd]
    exact splitSign_of_clean (clean_of_digit (hdigits d (hd ▸ List.mem_cons_self))) _
  have hread : strtoull (decimal n ++ (t ++ CR :: LF :: u.after))
      = some (n, false, t ++ CR :: LF :: u.after) := by
    unfold strtoull fromDigits
    rw [hsign]
    dsimp only
    rw [htake, hdrop, digitsValue_decimal, if_neg (by simpa using decimal_ne_nil n), if_neg (by omega)]
    rfl
  unfold toUint
  rw [List.append_assoc, hread]
  dsimp only [accept]
  rw [if_neg (by omega), if_neg fun hno => hhead.elim hno.2.2 hno.1, if_neg (by omega)]

/-- **A gap and a number.** -/
theorem number_append (max : Nat) {n : Nat} (hle : n ≤ max) (hlt : n < 2 ^ 64 - 1) (u : Around) (g : Nat)
    {t : Bytes} (ht : t.headD SP = SP) : skip (sp g ++ (decimal n ++ t)) = decimal n ++ t ∧ decimal n ++ t ≠ [] ∧
      toUint max u (decimal n ++ t) = some n ∧ afterWord (decimal n ++ t) = t := by
  obtain ⟨hskip, hne, -, hafter⟩ := field_append (decimal_ne_nil n) (sp_not_mem_decimal n) ht g
  exact ⟨hskip, hne, toUint_decimal hle hlt u ht, hafter⟩

theorem lf_not_mem_sp : LF ∉ sp n := fun h => absurd (List.eq_of_mem_replicate h) (by decide)

theorem lf_not_mem_decimal : LF ∉ decimal n := fun h =>
  absurd (isDigit_of_mem_decimal h) (by decide)

/-- The end of a line: `noreply` or not, and spaces. -/
def ending (noReply : Bool) (g g' : Nat) : Bytes :=
  (if noReply then sp (g + 1) ++ ascii "noreply" else []) ++ sp g'

theorem headD_ending (noReply : Bool) (g g' : Nat) : (ending noReply g g').headD SP = SP := by
  unfold ending
  cases noReply with
  | false => exact List.append_nil (sp g') ▸ headD_sp g' rfl
  | true => rfl

theorem lf_not_mem_ending (noReply : Bool) (g g' : Nat) : LF ∉ ending noReply g g' := by
  unfold ending
  rw [List.mem_append, not_or]
  refine ⟨?_, lf_not_mem_sp _⟩
  split_ifs
  · rw [List.mem_append, not_or]
    exact ⟨lf_not_mem_sp _, by decide⟩
  · exact List.not_mem_nil

theorem parseNoReply_ending (r : TextRequest) (hr : r.noReply = false) {noReply : Bool} {g g' : Nat} :
    parseNoReply r (ending noReply g g') = ({ r with noReply := noReply }, true) := by
  unfold parseNoReply ending
  cases noReply with
  | false =>
    simp only [Bool.false_eq_true, if_false, List.nil_append, skip_sp_nil, if_true]
    rw [← hr]
  | true =>
    obtain ⟨hskip, hne, hword, hafter⟩ := field_append (w := ascii "noreply") (t := sp g') (by decide)
      (by decide) (List.append_nil (sp g') ▸ headD_sp g' rfl) (g + 1)
    simp only [if_true, List.append_assoc, hskip, if_neg hne, hword, hafter, skip_sp_nil, ne_eq,
      not_true_eq_false, if_false, List.isEmpty_nil]

/-- A line that ends in CR LF: the command, by its word, gets the rest. -/
theorem parseLine_crlf (now : Int) (u : Around) (body : Bytes) : parseLine now u (body ++ [CR, LF])
    = parseCommand now u (commandOf (word (skip body))) (afterWord (skip body)) := by
  have hlen : (body ++ [CR, LF]).length - 2 = body.length := by simp
  unfold parseLine
  rw [hlen, List.take_left, if_neg ?_]
  rw [not_or]
  refine ⟨by simp, not_not.mpr ?_⟩
  rw [List.getD_eq_getElem?_getD, List.getElem?_append_right (Nat.le_refl _), Nat.sub_self]
  rfl

theorem splitLine_of_not_mem {l : Bytes} (h : LF ∉ l) (rest : Bytes) :
    splitLine (l ++ LF :: rest) = some (l ++ [LF], rest) := by
  induction l with
  | nil => rfl
  | cons c l ih =>
    rw [List.mem_cons, not_or] at h
    exact splitLine_cons.mpr (.inr ⟨fun heq => h.1 heq.symm, l ++ [LF], rfl, ih h.2⟩)

theorem splitLine_crlf {l : Bytes} (h : LF ∉ l) (rest : Bytes) :
    splitLine (l ++ [CR, LF] ++ rest) = some (l ++ [CR, LF], rest) := by
  have hcr : LF ∉ l ++ [CR] := by
    rw [List.mem_append, not_or]
    exact ⟨h, by decide⟩
  simpa using splitLine_of_not_mem hcr rest

theorem splitLine_none {p : Bytes} (h : LF ∉ p) : splitLine p = none := by
  induction p with
  | nil => rfl
  | cons c p ih =>
    rw [List.mem_cons, not_or] at h
    rw [splitLine, if_neg fun heq => h.1 heq.symm, ih h.2]

end TextRequest

/-! ## Storage requests -/

/-- The commands that store data. -/
inductive StorageCommand where
  | set | add | replace | append | prepend | cas
deriving DecidableEq, Repr

namespace StorageCommand

/-- The word a client writes. -/
def name : StorageCommand → Bytes
  | set => ascii "set"
  | add => ascii "add"
  | replace => ascii "replace"
  | append => ascii "append"
  | prepend => ascii "prepend"
  | cas => ascii "cas"

/-- The command it is. -/
def command : StorageCommand → TextCommand
  | set => .SET
  | add => .ADD
  | replace => .REPLACE
  | append => .APPEND
  | prepend => .PREPEND
  | cas => .CAS

end StorageCommand

/-- What a client wants to store.  `gap` is the number of EXTRA spaces: before the command, then behind
    each word.  The cas value is sent by `cas` only. -/
structure StorageRequest where
  command : StorageCommand
  key : Key
  flags : Nat
  time : Nat
  data : Bytes
  casUnique : Nat
  noReply : Bool
  gap : Nat → Nat
  key_ne : key ≠ []
  key_bytes : SP ∉ key ∧ CR ∉ key ∧ LF ∉ key
  flags_lt : flags < 2 ^ 32
  time_lt : time < 2 ^ 63
  data_lt : data.length < 2 ^ 32
  cas_lt : casUnique < 2 ^ 64 - 1

namespace StorageRequest

variable (q : StorageRequest)

/-- The end of the line. -/
def ending : Bytes := TextRequest.ending q.noReply (q.gap 6) (q.gap 7)

/-- ... from the cas value on. -/
def casText : Bytes :=
  (if q.command = .cas then sp (q.gap 5 + 1) ++ decimal q.casUnique else []) ++ q.ending

/-- ... from the time on. -/
def sizeText : Bytes :=
  sp (q.gap 3 + 1) ++ (decimal q.time ++ (sp (q.gap 4 + 1) ++ (decimal q.data.length ++ q.casText)))

/-- ... from the key on. -/
def keyText : Bytes := sp (q.gap 1 + 1) ++ (q.key ++ (sp (q.gap 2 + 1) ++ (decimal q.flags ++ q.sizeText)))

/-- The line, without CR LF. -/
def line : Bytes := sp (q.gap 0) ++ (q.command.name ++ q.keyText)

/-- The bytes of the request. -/
def render : Bytes := q.line ++ [CR, LF] ++ (q.data ++ [CR, LF])

variable (now : Int)

/-- What the parser is to make of it. -/
def header : TextRequest where
  command := q.command.command
  noReply := q.noReply
  key := q.key
  flags := UInt32.ofNat q.flags
  exptime := if q.time ≠ 0 then expireAt now q.time else 0
  casUnique := if q.command = .cas then UInt64.ofNat q.casUnique else 0

/-- The request, with its data. -/
def request : TextRequest := { q.header now with data := q.data, valid := true }

/-! ### Word by word -/

theorem headD_casText : q.casText.headD SP = SP := by
  unfold casText
  split_ifs
  · rfl
  · exact headD_ending _ _ _

theorem parseStorageEnd_casText (u : Around) (n : Nat) (r : TextRequest) (hr : r.noReply = false)
    (hc : r.casUnique = 0) :
    parseStorageEnd u (q.command = .cas) n r q.casText = .data { r with
      noReply := q.noReply
      casUnique := if q.command = .cas then UInt64.ofNat q.casUnique else 0 } n := by
  unfold parseStorageEnd casText ending
  by_cases hcas : q.command = .cas
  · obtain ⟨hskip, hne, hread, hafter⟩ := number_append UINT64_MAX (Nat.le_of_lt q.cas_lt) q.cas_lt
      u (q.gap 5 + 1) (headD_ending q.noReply (q.gap 6) (q.gap 7))
    simp only [hcas, decide_true, if_true, List.append_assoc, hskip, if_neg hne, hread, hafter,
      parseNoReply_ending { r with casUnique := UInt64.ofNat q.casUnique } hr]
  · simp only [hcas, decide_false, Bool.false_eq_true, if_false, List.nil_append,
      parseNoReply_ending r hr]
    rw [← hc]

theorem parseStorageSize_sizeText (u : Around) (r : TextRequest) (hr : r.noReply = false)
    (hc : r.casUnique = 0) (ht : r.exptime = 0) :
    parseStorageSize now u (q.command = .cas) r q.sizeText = .data { r with
      exptime := if q.time ≠ 0 then expireAt now q.time else 0
      noReply := q.noReply
      casUnique := if q.command = .cas then UInt64.ofNat q.casUnique else 0 } q.data.length := by
  obtain ⟨hskip, hne, htime, hafter⟩ := number_append TIME_MAX (Nat.le_sub_one_of_lt q.time_lt)
    (q.time_lt.trans (by decide)) u (q.gap 3 + 1)
    (t := sp (q.gap 4 + 1) ++ (decimal q.data.length ++ q.casText)) rfl
  obtain ⟨hskip', hne', hbytes, hafter'⟩ := number_append UINT32_MAX
    (Nat.le_sub_one_of_lt q.data_lt) (q.data_lt.trans (by decide)) u (q.gap 4 + 1) q.headD_casText
  have hgap : sp (q.gap 4 + 1) ++ (decimal q.data.length ++ q.casText) ≠ [] := List.cons_ne_nil _ _
  unfold parseStorageSize sizeText
  simp only [hskip, hafter, hne, hgap, or_self, if_false, htime, hskip', hne', hbytes, hafter']
  by_cases h0 : q.time ≠ 0
  · rw [if_pos h0, if_pos h0]
    exact q.parseStorageEnd_casText u _ { r with exptime := expireAt now q.time } hr hc
  · rw [if_neg h0, if_neg h0, q.parseStorageEnd_casText u _ r hr hc, ← ht]

/-- **The header is read as it was written.** -/
theorem parseStorage_keyText (u : Around) :
    parseStorage now u (q.command = .cas) { command := q.command.command } q.keyText
      = .data (q.header now) q.data.length := by
  obtain ⟨hskip, hne, hword, hafter⟩ := field_append
    (t := sp (q.gap 2 + 1) ++ (decimal q.flags ++ q.sizeText)) q.key_ne q.key_bytes.1 rfl (q.gap 1 + 1)
  obtain ⟨hskip', hne', hflags, hafter'⟩ := number_append UINT32_MAX
    (Nat.le_sub_one_of_lt q.flags_lt) (q.flags_lt.trans (by decide)) u (q.gap 2 + 1) (t := q.sizeText) rfl
  have hgap : sp (q.gap 2 + 1) ++ (decimal q.flags ++ q.sizeText) ≠ [] := List.cons_ne_nil _ _
  have hgap' : q.sizeText ≠ [] := List.cons_ne_nil _ _
  unfold parseStorage keyText
  simp only [hskip, hafter, hne, hgap, or_self, if_false, hskip', hne', hafter', hgap', hflags, hword]
  exact q.parseStorageSize_sizeText now u
    { command := q.command.command, key := q.key, flags := UInt32.ofNat q.flags } rfl rfl rfl

theorem parseCommand_keyText (u : Around) :
    parseCommand now u q.command.command q.keyText = .data (q.header now) q.data.length := by
  rw [← q.parseStorage_keyText now u]
  cases q.command <;> rfl

theorem lf_not_mem_line : LF ∉ q.line := by
  have hname : LF ∉ q.command.name := by cases q.command <;> decide
  have hcas : LF ∉ q.casText := by
    unfold casText
    rw [List.mem_append, not_or]
    refine ⟨?_, lf_not_mem_ending _ _ _⟩
    split_ifs
    · rw [List.mem_append, not_or]
      exact ⟨lf_not_mem_sp _, lf_not_mem_decimal _⟩
    · exact List.not_mem_nil
  unfold line keyText sizeText
  simp only [List.mem_append, not_or]
  exact ⟨lf_not_mem_sp _, hname, lf_not_mem_sp _, q.key_bytes.2.2, lf_not_mem_sp _, lf_not_mem_decimal _,
    lf_not_mem_sp _, lf_not_mem_decimal _, lf_not_mem_sp _, lf_not_mem_decimal _, hcas⟩

theorem lf_not_mem_cr : LF ∉ q.line ++ [CR] := by
  rw [List.mem_append, not_or]
  exact ⟨q.lf_not_mem_line, by decide⟩

/-- **The line**, whatever is around it. -/
theorem parseLine_line (u : Around) :
    parseLine now u (q.line ++ [CR, LF]) = .data (q.header now) q.data.length := by
  have hne : q.command.name ≠ [] := by cases q.command <;> decide
  have hsp : SP ∉ q.command.name := by cases q.command <;> decide
  have hname : commandOf q.command.name = q.command.command := by cases q.command <;> decide
  obtain ⟨hskip, -, hword, hafter⟩ := field_append (t := q.keyText) hne hsp rfl (q.gap 0)
  rw [parseLine_crlf, line, hskip, hword, hafter, hname, q.parseCommand_keyText]

/-- The line and a beginning of what follows. -/
theorem parse_line (u : Around) (d : Bytes) :
    parse now u (q.line ++ [CR, LF] ++ d) = if d.length < q.data.length + 2 then (0, q.header now)
      else ((q.line ++ [CR, LF]).length + q.data.length + 2, checkData (q.header now) q.data.length d) := by
  unfold parse
  rw [splitLine_crlf q.lf_not_mem_line d]
  dsimp only
  rw [q.parseLine_line]

theorem parse_render (u : Around) (tail : Bytes) :
    parse now u (q.render ++ tail) = (q.render.length, q.request now) := by
  have hcheck : checkData (q.header now) q.data.length (q.data ++ [CR, LF] ++ tail) = q.request now := by
    unfold checkData
    rw [List.append_assoc, List.drop_left, List.take_left]
    exact if_neg (not_not.mpr rfl)
  have hlen : ¬ (q.data ++ [CR, LF] ++ tail).length < q.data.length + 2 := by
    simp only [List.length_append, List.length_cons, List.length_nil]
    omega
  rw [render, List.append_assoc, q.parse_line, if_neg hlen, hcheck]
  simp only [List.length_append, List.length_cons, List.length_nil, Nat.add_assoc]

/-- Where the buffer ends too early: in the line, or in the data. -/
theorem cut_render {p : Bytes} (hp : p <+: q.render) (hne : p ≠ q.render) :
    LF ∉ p ∨ ∃ d, p = q.line ++ [CR, LF] ++ d ∧ d.length < q.data.length + 2 := by
  obtain ⟨y, hy⟩ := hp
  rcases List.append_eq_append_iff.mp hy with ⟨z, hline, -⟩ | ⟨d, hpd, hd⟩
  · rcases List.eq_nil_or_concat z with rfl | ⟨z, c, rfl⟩
    · exact .inr ⟨[], by rw [hline]; simp, by simp⟩
    · left
      have hcr : q.line ++ [CR] = p ++ z := by
        have h := congrArg List.dropLast hline
        simpa [List.dropLast_append_of_ne_nil, ← List.append_assoc] using h
      exact fun hmem => q.lf_not_mem_cr (hcr ▸ List.mem_append_left z hmem)
  · refine .inr ⟨d, hpd, ?_⟩
    have hlen := congrArg List.length hd
    have hy : y ≠ [] := by
      rintro rfl
      exact hne (by rw [← hy, List.append_nil])
    have := List.length_pos_iff.mpr hy
    simp only [List.length_append, List.length_cons, List.length_nil] at hlen
    omega

/-- **Storage requests round-trip, and are binary safe.** -/
theorem storage_round_trip (now : Int) (u : Around) :
    (∀ tail, parse now u (q.render ++ tail) = (q.render.length, q.request now)) ∧
      ∀ p, p ≠ [] → p <+: q.render → p ≠ q.render → (parse now u p).1 = 0 := by
  refine ⟨q.parse_render now u, fun p _ hp hne => ?_⟩
  rcases q.cut_render hp hne with hlf | ⟨d, rfl, hd⟩
  · unfold parse
    rw [splitLine_none hlf]
  · rw [q.parse_line, if_pos hd]

/-- A set of "x" for a minute, with one space too many before the command.  The data is CR LF. -/
def setCrLf : StorageRequest where
  command := .set
  key := ascii "x"
  flags := 5
  time := 60
  data := [CR, LF]
  casUnique := 1
  noReply := false
  gap i := if i = 0 then 1 else 0
  key_ne := by decide
  key_bytes := by decide
  flags_lt := by decide
  time_lt := by decide
  data_lt := by decide
  cas_lt := by decide

theorem storage_round_trip_crlf :
    setCrLf.render = ascii " set x 5 60 2\r\n\r\n\r\n" ∧ setCrLf.request 1000
      = { command := .SET, valid := true, key := ascii "x", flags := 5, exptime := 1060, data := [CR, LF] } ∧
    ∀ tail, parse 1000 ⟨[], false⟩ (setCrLf.render ++ tail) = (setCrLf.render.length, setCrLf.request 1000) :=
  ⟨by decide, by rfl, (setCrLf.storage_round_trip 1000 ⟨[], false⟩).1⟩

end StorageRequest

end Yrmcds.Memcache
