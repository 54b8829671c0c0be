/-
  The words of a request line, and the numbers among them.

  The parser (src/memcache/memcache.cpp) walks over a line with `skip`, `word` and `afterWord`.  What it
  walks over are the WORDS of the line: its maximal substrings without SP.  Numbers are not read from a
  word: `to_uint` hands the pointer to `strtoull`, which skips white space of its own, takes a sign, and
  stops at the first byte that is not a digit, and `to_uint` then looks at that ONE byte.  So the word
  behind an accepted number need not be a numeral: it may start with a TAB, with a sign, or go on after
  a CR.

  `numbers_iff` says that this is all that can go wrong: in a valid request the words of the numeric
  fields are numerals that fit, and are what was parsed, exactly if no such byte is in them.
-/
import Yrmcds.Memcache.TextRequest

namespace Yrmcds.Memcache.TextRequest

/-! ## Words -/

/-- The maximal substrings without SP. -/
def words (b : Bytes) : List Bytes := (b.splitOnP (· == SP)).filter fun w => ! w.isEmpty

theorem words_sp_cons (b : Bytes) : words (SP :: b) = words b := by
  unfold words
  rw [List.splitOnP_cons_eq_if_modifyHead, if_pos (by decide), List.filter_cons_of_neg (by decide)]

/-- A word, and what follows it: nothing, or SP. -/
theorem words_append {w t : Bytes} (hne : w ≠ []) (hw : SP ∉ w) (ht : t.headD SP = SP) :
    words (w ++ t) = w :: words t := by
  have hall : ∀ c ∈ w, (c == SP) = false := fun c hc => beq_false_of_ne fun heq => hw (heq ▸ hc)
  have hkeep : (! w.isEmpty) = true := by simpa using hne
  cases t with
  | nil =>
    unfold words
    rw [List.append_nil, List.splitOnP_eq_singleton hall, List.filter_cons, if_pos hkeep]
    rfl
  | cons c t =>
    rw [show c = SP from ht, words_sp_cons]
    unfold words
    rw [List.splitOnP_append_cons_of_forall_mem hall SP (by decide), List.filter_cons, if_pos hkeep]

theorem words_skip (b : Bytes) : words (skip b) = words b := by
  unfold skip
  induction b with
  | nil => rfl
  | cons c b ih =>
    by_cases hc : c = SP
    · rw [hc, List.dropWhile_cons_of_pos (by decide), ih, words_sp_cons]
    · rw [List.dropWhile_cons_of_neg (by simpa using hc)]

theorem skip_of_head {b : Bytes} (h : b.headD 0 ≠ SP) : skip b = b := by
  cases b with
  | nil => rfl
  | cons c b => exact List.dropWhile_cons_of_neg (by simpa using h)

theorem not_mem_word (b : Bytes) : SP ∉ word b := by
  intro h
  have hp := List.mem_takeWhile_imp h
  simp at hp

/-- What follows a word starts with SP, if there is anything. -/
theorem headD_afterWord (b : Bytes) : (afterWord b).headD SP = SP := by
  unfold afterWord
  cases hs : b.dropWhile (· != SP) with
  | nil => rfl
  | cons c s =>
    have hc := List.head_dropWhile_not (· != SP) (l := b) (by rw [hs]; exact List.cons_ne_nil c s)
    simpa [hs] using hc

theorem word_append_afterWord (b : Bytes) : word b ++ afterWord b = b := List.takeWhile_append_dropWhile

/-- **The parser goes from word to word.** -/
theorem words_cons {b : Bytes} (h : skip b ≠ []) :
    words b = word (skip b) :: words (afterWord (skip b)) := by
  calc words b = words (word (skip b) ++ afterWord (skip b)) := by rw [word_append_afterWord, words_skip]
    _ = word (skip b) :: words (afterWord (skip b)) :=
      words_append (word_skip_ne_nil h) (not_mem_word _) (headD_afterWord _)

theorem words_of_skip {b : Bytes} (h : skip b = []) : words b = [] := by
  rw [← words_skip, h]
  rfl

/-! ## Numerals -/

/-- What a numeric field should be: digits, and a value the field's type can hold. -/
structure Numeral (max : Nat) (w : Bytes) : Prop where
  ne_nil : w ≠ []
  digits : ∀ c ∈ w, isDigit c = true
  le : digitsValue w ≤ max

/-- A word without white space (there is still TAB, VT, FF and CR) and without a sign. -/
def Clean (w : Bytes) : Prop := ∀ c ∈ w, isSpace c = false ∧ c ≠ 43 ∧ c ≠ 45

instance (w : Bytes) : Decidable (Clean w) :=
  List.decidableBAll (fun c => isSpace c = false ∧ c ≠ 43 ∧ c ≠ 45) w

theorem Numeral.clean {max : Nat} {w : Bytes} (h : Numeral max w) : Clean w :=
  fun c hc => clean_of_digit (h.digits c hc)

/-- The digits of a word end with it: SP or the CR of the line follows. -/
theorem span_digits {w t : Bytes} (hw : ∀ c ∈ w, isDigit c = true) (ht : t.headD SP = SP) (y : Bytes) :
    (w ++ (t ++ CR :: y)).takeWhile isDigit = w ∧ (w ++ (t ++ CR :: y)).dropWhile isDigit = t ++ CR :: y ∧
      ((t ++ CR :: y).headD 0 = SP ∨ (t ++ CR :: y).headD 0 = CR) := by
  obtain ⟨c, z, hz, hc⟩ : ∃ c z, t ++ CR :: y = c :: z ∧ (c = SP ∨ c = CR) := by
    cases t with
    | nil => exact ⟨CR, y, rfl, .inr rfl⟩
    | cons c t => exact ⟨c, t ++ CR :: y, rfl, .inl ht⟩
  have hstop : isDigit c = false := by rcases hc with rfl | rfl <;> decide
  rw [hz, List.takeWhile_append_of_pos hw, List.dropWhile_append_of_pos hw,
    List.takeWhile_cons_of_neg (by rw [hstop]; decide), List.dropWhile_cons_of_neg (by rw [hstop]; decide)]
  exact ⟨List.append_nil w, rfl, hc⟩

/-- What `strtoull` has read: a number out of range, or one in range. -/
theorem strtoull_some {s rest : Bytes} {i : Nat} {overflow : Bool}
    (h : strtoull s = some (i, overflow, rest)) : (overflow = true ∧ i = 2 ^ 64 - 1) ∨
      (overflow = false ∧ ((splitSign (s.dropWhile isSpace)).1 = false →
        i = digitsValue ((fromDigits s).takeWhile isDigit))) := by
  unfold strtoull at h
  dsimp only at h
  split_ifs at h with hds hmax hneg <;> cases h
  · exact .inl ⟨rfl, rfl⟩
  · exact .inr ⟨rfl, fun hpos => absurd (hneg.symm.trans hpos) (by decide)⟩
  · exact .inr ⟨rfl, fun _ => rfl⟩

/-- What was accepted: a number that fits, without overflow, and followed by CR, LF or SP. -/
theorem toUint_some {max : Nat} {u : Around} {s : Bytes} {v : Nat} (h : toUint max u s = some v) :
    ∃ rest, strtoull (s ++ CR :: LF :: u.after) = some (v, false, rest) ∧ v ≤ max ∧
      isSpace (rest.headD 0) = true := by
  unfold toUint at h
  cases hs : strtoull (s ++ CR :: LF :: u.after) with
  | none => rw [hs] at h; cases h
  | some x =>
    obtain ⟨i, overflow, rest⟩ := x
    rw [hs] at h
    dsimp only [accept] at h
    split_ifs at h with hmax hstop hle
    cases h
    have hoverflow : overflow = false := by
      rcases strtoull_some hs with ⟨rfl, hi⟩ | ⟨rfl, _⟩
      · exact absurd ⟨hi, rfl⟩ hmax
      · rfl
    refine ⟨rest, by rw [hoverflow], Nat.le_of_not_lt hle, ?_⟩
    by_contra hspace
    refine hstop ⟨?_, ?_, ?_⟩ <;> (intro heq; exact hspace (by rw [heq]; decide))

/-- **A clean word is accepted only as the numeral it is.** -/
theorem numeral_of_clean {max : Nat} {u : Around} {s : Bytes} {v : Nat} (hne : s ≠ [])
    (hhead : s.headD 0 ≠ SP) (hclean : Clean (word s)) (h : toUint max u s = some v) :
    Numeral max (word s) ∧ v = digitsValue (word s) := by
  obtain ⟨rest, hs, hle, hstop⟩ := toUint_some h
  obtain ⟨t, ht⟩ : ∃ t, t = afterWord s ++ CR :: LF :: u.after := ⟨_, rfl⟩
  have hsplit : s ++ CR :: LF :: u.after = word s ++ t := by
    rw [ht, ← List.append_assoc, word_append_afterWord]
  have hw := word_ne_nil hne hhead
  obtain ⟨c, w, hcw⟩ := List.exists_cons_of_ne_nil hw
  have hsign : splitSign ((word s ++ t).dropWhile isSpace) = (false, word s ++ t) := by
    rw [hcw]
    exact splitSign_of_clean (hclean c (hcw ▸ List.mem_cons_self)) (w ++ t)
  have hfrom : fromDigits (word s ++ t) = word s ++ t := by
    unfold fromDigits
    rw [hsign]
  rw [hsplit] at hs
  have hrest := strtoull_rest hs
  rw [hfrom, List.dropWhile_append] at hrest
  -- the digits do not end inside the word: the byte after them would be clean
  have hdigits : ∀ b ∈ word s, isDigit b = true := by
    by_contra hnot
    have hdrop : (word s).dropWhile isDigit ≠ [] := fun hnil => hnot (List.dropWhile_eq_nil_iff.mp hnil)
    obtain ⟨d, ds, hd⟩ := List.exists_cons_of_ne_nil hdrop
    rw [if_neg (by simpa using hdrop), hd] at hrest
    have hmem : d ∈ word s := (List.dropWhile_suffix isDigit).subset (hd ▸ List.mem_cons_self)
    rw [hrest] at hstop
    exact absurd (hstop.symm.trans (hclean d hmem).1) (by decide)
  -- and they end with the word: SP or CR follows
  have htake : (word s ++ t).takeWhile isDigit = word s := by
    rw [ht]
    exact (span_digits hdigits (headD_afterWord s) _).1
  have hv : v = digitsValue (word s) := by
    rcases strtoull_some hs with ⟨hfalse, _⟩ | ⟨_, hv⟩
    · cases hfalse
    · rw [hv (by rw [hsign]), hfrom, htake]
  exact ⟨⟨hw, hdigits, hv ▸ hle⟩, hv⟩

/-! ## Valid requests -/

/-- The parser has read the number `v` at `s`, the start of a word. -/
structure NumberAt (u : Around) (max : Nat) (s : Bytes) (v : Nat) : Prop where
  ne_nil : s ≠ []
  head : s.headD 0 ≠ SP
  read : toUint max u s = some v

theorem NumberAt.clean_iff {u : Around} {max v : Nat} {s : Bytes} (h : NumberAt u max s v) :
    Clean (word s) ↔ Numeral max (word s) ∧ v = digitsValue (word s) :=
  ⟨fun hc => numeral_of_clean h.ne_nil h.head hc h.read, fun hn => hn.1.clean⟩

section

variable {now : Int} {u : Around} {r r' : TextRequest} {b : Bytes}

theorem parseNoReply_fst (r : TextRequest) (b : Bytes) :
    ∃ nr, (parseNoReply r b).1 = { r with noReply := nr } := by
  unfold parseNoReply
  dsimp only
  split_ifs
  · exact ⟨r.noReply, rfl⟩
  · exact ⟨r.noReply, rfl⟩
  · exact ⟨true, rfl⟩

/-- The end of a request decides on `noreply` and on validity, and changes nothing else. -/
theorem finish_eq (r : TextRequest) (b : Bytes) :
    ∃ nr v, finish r b = { r with noReply := nr, valid := v } := by
  obtain ⟨nr, hnr⟩ := parseNoReply_fst r b
  unfold finish
  dsimp only
  rw [hnr]
  split_ifs
  · exact ⟨nr, true, rfl⟩
  · exact ⟨nr, r.valid, rfl⟩

/-- **A valid touch**: a key and a number. -/
theorem parseTouch_valid (hr : r.valid = false) (h : (parseTouch now u r b).valid = true) :
    ∃ k s t, words b = k :: word s :: words (afterWord s) ∧ NumberAt u TIME_MAX s t ∧
      (parseTouch now u r b).exptime = if t ≠ 0 then expireAt now t else r.exptime := by
  unfold parseTouch at h ⊢
  dsimp only at h ⊢
  split_ifs at h ⊢ with hk ht
  · exact absurd (h.symm.trans hr) (by decide)
  · exact absurd (h.symm.trans hr) (by decide)
  · have hb := (not_or.mp hk).1
    cases hread : toUint TIME_MAX u (skip (afterWord (skip b))) with
    | none => rw [hread] at h; exact absurd (h.symm.trans hr) (by decide)
    | some t =>
      refine ⟨word (skip b), skip (afterWord (skip b)), t, ?_, ⟨ht, headD_skip ht, hread⟩, ?_⟩
      · rw [words_cons hb, words_cons ht]
      · obtain ⟨nr, v, heq⟩ := finish_eq
          (if t ≠ 0 then { r with key := word (skip b), exptime := expireAt now t }
            else { r with key := word (skip b) }) (afterWord (skip (afterWord (skip b))))
        dsimp only
        rw [heq]
        split_ifs <;> rfl

/-- **A valid increment or decrement**: a key and a number. -/
theorem parseIncdec_valid (hr : r.valid = false) (h : (parseIncdec u r b).valid = true) :
    ∃ k s v, words b = k :: word s :: words (afterWord s) ∧ NumberAt u UINT64_MAX s v ∧
      (parseIncdec u r b).value = UInt64.ofNat v := by
  unfold parseIncdec at h ⊢
  dsimp only at h ⊢
  split_ifs at h ⊢ with hk hv
  · exact absurd (h.symm.trans hr) (by decide)
  · exact absurd (h.symm.trans hr) (by decide)
  · have hb := (not_or.mp hk).1
    cases hread : toUint UINT64_MAX u (skip (afterWord (skip b))) with
    | none => rw [hread] at h; exact absurd (h.symm.trans hr) (by decide)
    | some v =>
      refine ⟨word (skip b), skip (afterWord (skip b)), v, ?_, ⟨hv, headD_skip hv, hread⟩, ?_⟩
      · rw [words_cons hb, words_cons hv]
      · obtain ⟨nr, w, heq⟩ := finish_eq { r with key := word (skip b), value := UInt64.ofNat v }
          (afterWord (skip (afterWord (skip b))))
        exact congrArg value heq

theorem finish_valid (hr : r.valid = false) (h : (finish r b).valid = true) :
    skip b = [] ∨ word (skip b) = ascii "noreply" := by
  unfold finish parseNoReply at h
  dsimp only at h
  by_contra hno
  rw [not_or] at hno
  rw [if_neg hno.1, if_pos hno.2] at h
  exact absurd (h.symm.trans hr) (by decide)

/-- **A valid flush**: with a time, or without. -/
theorem parseFlushall_valid (hr : r.valid = false) (h : (parseFlushall now u r b).valid = true) :
    words b = [] ∨ (∃ ws, words b = ascii "noreply" :: ws) ∨
      ∃ s t, words b = word s :: words (afterWord s) ∧ isDigit (s.headD 0) = true ∧
        NumberAt u TIME_MAX s t ∧ (parseFlushall now u r b).exptime = expireAt now t := by
  unfold parseFlushall at h ⊢
  dsimp only at h ⊢
  split_ifs at h ⊢ with hb hd
  · exact .inl (words_of_skip hb)
  · cases hread : toUint TIME_MAX u (skip b) with
    | none => rw [hread] at h; exact absurd (h.symm.trans hr) (by decide)
    | some t =>
      obtain ⟨nr, w, heq⟩ := finish_eq { r with exptime := expireAt now t } (afterWord (skip b))
      exact .inr (.inr ⟨skip b, t, words_cons hb, hd, ⟨hb, headD_skip hb, hread⟩, congrArg exptime heq⟩)
  · have hskip : skip (skip b) = skip b := skip_of_head (headD_skip hb)
    rcases finish_valid (r := { r with exptime := now }) hr h with hnil | hword
    · exact absurd (hskip ▸ hnil) hb
    · exact .inr (.inl ⟨_, (words_cons hb).trans (by rw [← hskip, hword])⟩)

/-! ### Storage commands -/

/-- The cas value that follows the number of bytes, if there is to be one. -/
def CasAt (u : Around) (isCas : Bool) (b : Bytes) (c : UInt64) : Prop :=
  isCas = true → ∃ s v, words b = word s :: words (afterWord s) ∧ NumberAt u UINT64_MAX s v ∧
    c = UInt64.ofNat v

theorem ending_data {n m : Nat} (h : (match parseNoReply r b with
      | (r, true) => Header.data r n
      | (r, false) => .done r) = .data r' m) : m = n ∧ ∃ nr, r' = { r with noReply := nr } := by
  obtain ⟨nr, hnr⟩ := parseNoReply_fst r b
  generalize parseNoReply r b = x at h hnr
  obtain ⟨r1, _ | _⟩ := x
  · cases h
  · cases h
    exact ⟨rfl, nr, hnr⟩

theorem parseStorageEnd_data {isCas : Bool} {n m : Nat} (h : parseStorageEnd u isCas n r b = .data r' m) :
    m = n ∧ ∃ nr c, r' = { r with noReply := nr, casUnique := c } ∧ CasAt u isCas b c := by
  unfold parseStorageEnd at h
  dsimp only at h
  split_ifs at h with hcas hb
  · cases hread : toUint UINT64_MAX u (skip b) with
    | none => rw [hread] at h; cases h
    | some v =>
      rw [hread] at h
      obtain ⟨hm, nr, rfl⟩ := ending_data h
      exact ⟨hm, nr, UInt64.ofNat v, rfl, fun _ =>
        ⟨skip b, v, words_cons hb, ⟨hb, headD_skip hb, hread⟩, rfl⟩⟩
  · obtain ⟨hm, nr, rfl⟩ := ending_data h
    exact ⟨hm, nr, r.casUnique, rfl, fun hc => absurd hc hcas⟩

theorem parseStorageSize_data {isCas : Bool} {n : Nat} (h : parseStorageSize now u isCas r b = .data r' n) :
    ∃ st t sn, words b = word st :: word sn :: words (afterWord sn) ∧ NumberAt u TIME_MAX st t ∧
      NumberAt u UINT32_MAX sn n ∧ ∃ nr c,
      r' = { r with exptime := if t ≠ 0 then expireAt now t else r.exptime, noReply := nr, casUnique := c } ∧
      CasAt u isCas (afterWord sn) c := by
  unfold parseStorageSize at h
  dsimp only at h
  by_cases hb : skip b = [] ∨ afterWord (skip b) = []
  · rw [if_pos hb] at h
    cases h
  rw [if_neg hb] at h
  have hb1 := (not_or.mp hb).1
  cases ht : toUint TIME_MAX u (skip b) with
  | none => rw [ht] at h; cases h
  | some t =>
    rw [ht] at h
    dsimp only at h
    by_cases hb2 : skip (afterWord (skip b)) = []
    · rw [if_pos hb2] at h
      cases h
    rw [if_neg hb2] at h
    cases hn : toUint UINT32_MAX u (skip (afterWord (skip b))) with
    | none => rw [hn] at h; cases h
    | some m =>
      rw [hn] at h
      obtain ⟨rfl, nr, c, rfl, hc⟩ := parseStorageEnd_data h
      refine ⟨skip b, t, skip (afterWord (skip b)), by rw [words_cons hb1, words_cons hb2],
        ⟨hb1, headD_skip hb1, ht⟩, ⟨hb2, headD_skip hb2, hn⟩, nr, c, ?_, hc⟩
      split_ifs <;> rfl

/-- **The header of a storage request**: a key, three numbers, and for `cas` a fourth. -/
theorem parseStorage_data {isCas : Bool} {n : Nat} (h : parseStorage now u isCas r b = .data r' n) :
    ∃ k sf f st t sn, words b = k :: word sf :: word st :: word sn :: words (afterWord sn) ∧
      NumberAt u UINT32_MAX sf f ∧ NumberAt u TIME_MAX st t ∧ NumberAt u UINT32_MAX sn n ∧ ∃ nr c,
      r' = { r with
        key := k, flags := UInt32.ofNat f, exptime := if t ≠ 0 then expireAt now t else r.exptime
        noReply := nr, casUnique := c } ∧
      CasAt u isCas (afterWord sn) c := by
  unfold parseStorage at h
  dsimp only at h
  split_ifs at h with hb hb'
  have hb1 := (not_or.mp hb).1
  have hb2 := (not_or.mp hb').1
  cases hf : toUint UINT32_MAX u (skip (afterWord (skip b))) with
  | none => rw [hf] at h; cases h
  | some f =>
    rw [hf] at h
    obtain ⟨st, t, sn, hw, ht, hn, nr, c, rfl, hc⟩ := parseStorageSize_data h
    exact ⟨word (skip b), skip (afterWord (skip b)), f, st, t, sn,
      by rw [words_cons hb1, words_cons hb2, hw], ⟨hb2, headD_skip hb2, hf⟩, ht, hn, nr, c, rfl, hc⟩

end

/-! ## Numeric fields -/

/-- The numeric fields of the requests. -/
inductive Field where
  | flags | exptime | bytes | casUnique | delta | delay
deriving DecidableEq, Repr

namespace Field

/-- The largest value of the type the field is parsed as. -/
def max : Field → Nat
  | flags | bytes => UINT32_MAX
  | exptime | delay => TIME_MAX
  | casUnique | delta => UINT64_MAX

/-- The request carries the value `v` in this field: as it is, or as the time it means. -/
def Holds (now : Int) (r : TextRequest) (v : Nat) : Field → Prop
  | flags => r.flags.toNat = v
  | exptime => r.exptime = if v ≠ 0 then expireAt now v else 0
  | bytes => r.data.length = v
  | casUnique => r.casUnique.toNat = v
  | delta => r.value.toNat = v
  | delay => r.exptime = expireAt now v

end Field

/-- The request line, without CR LF. -/
def lineBody (p : Bytes) : Bytes :=
  match splitLine p with
  | none => []
  | some (line, _) => line.take (line.length - 2)

/-- The words of the request line: the command, and its arguments. -/
def lineWords (p : Bytes) : List Bytes := words (lineBody p)

/-- The numeric fields of a command with these arguments; the time of `flush_all` is optional. -/
def fieldsOf (c : TextCommand) (args : List Bytes) : List Field :=
  match c with
  | .SET | .ADD | .REPLACE | .APPEND | .PREPEND => [.flags, .exptime, .bytes]
  | .CAS => [.flags, .exptime, .bytes, .casUnique]
  | .TOUCH => [.exptime]
  | .INCR | .DECR => [.delta]
  | .FLUSH_ALL => if args = [] ∨ args.head? = some (ascii "noreply") then [] else [.delay]
  | _ => []

/-- The fields with their words: after the key, and for `flush_all` right after the command. -/
def numbersOf (c : TextCommand) (args : List Bytes) : List (Field × Bytes) :=
  (fieldsOf c args).zip (if c = .FLUSH_ALL then args else args.drop 1)

/-- **What the parser has read of a valid request**: each numeric field from its word, and the request
    carries what was read. -/
structure Reads (now : Int) (u : Around) (r : TextRequest) (args : List Bytes)
    (xs : List (Field × Bytes × Nat)) : Prop where
  fields : xs.map (fun x => x.1) = fieldsOf r.command args
  words : numbersOf r.command args = xs.map fun x => (x.1, word x.2.1)
  read : ∀ x ∈ xs, NumberAt u x.1.max x.2.1 x.2.2 ∧ x.1.Holds now r x.2.2

theorem toNat_uint32 {v : Nat} (h : v ≤ UINT32_MAX) : (UInt32.ofNat v).toNat = v :=
  UInt32.toNat_ofNat_of_lt' (Nat.lt_of_le_of_lt h (by decide))

theorem toNat_uint64 {v : Nat} (h : v ≤ UINT64_MAX) : (UInt64.ofNat v).toNat = v :=
  UInt64.toNat_ofNat_of_lt' (Nat.lt_of_le_of_lt h (by decide))

theorem NumberAt.le {u : Around} {max v : Nat} {s : Bytes} (h : NumberAt u max s v) : v ≤ max := by
  obtain ⟨_, _, hle, _⟩ := toUint_some h.read
  exact hle

section

variable {now : Int} {u : Around} {b : Bytes}

theorem checkData_valid {r : TextRequest} {n : Nat} {rest : Bytes} (hr : r.valid = false)
    (h : (checkData r n rest).valid = true) :
    checkData r n rest = { r with data := rest.take n, valid := true } := by
  unfold checkData at h ⊢
  split_ifs at h ⊢
  · exact absurd (h.symm.trans hr) (by decide)
  · rfl

/-- The storage commands, without and with the cas value. -/
theorem reads_storage {c : TextCommand} {isCas : Bool} {r : TextRequest} {n : Nat} {rest : Bytes}
    (hc : ∀ args, fieldsOf c args = [.flags, .exptime, .bytes] ++ if isCas then [.casUnique] else [])
    (hf : c ≠ .FLUSH_ALL) (h : parseStorage now u isCas { command := c } b = .data r n)
    (hn : n + 2 ≤ rest.length) (hv : (checkData r n rest).valid = true) :
    ∃ xs, Reads now u (checkData r n rest) (words b) xs := by
  obtain ⟨k, sf, f, st, t, sn, hw, hflags, htime, hbytes, nr, cas, rfl, hcas⟩ := parseStorage_data h
  rw [checkData_valid rfl hv]
  have hlen : (rest.take n).length = n := by
    rw [List.length_take]
    omega
  cases isCas with
  | false =>
    refine ⟨[(.flags, sf, f), (.exptime, st, t), (.bytes, sn, n)], (hc _).symm, ?_, ?_⟩
    · unfold numbersOf
      rw [hc, if_neg hf, hw]
      rfl
    · exact List.forall_mem_cons.mpr ⟨⟨hflags, toNat_uint32 hflags.le⟩,
        List.forall_mem_cons.mpr ⟨⟨htime, rfl⟩, List.forall_mem_singleton.mpr ⟨hbytes, hlen⟩⟩⟩
  | true =>
    obtain ⟨sc, v, hwc, hread, rfl⟩ := hcas rfl
    refine ⟨[(.flags, sf, f), (.exptime, st, t), (.bytes, sn, n), (.casUnique, sc, v)], (hc _).symm, ?_, ?_⟩
    · unfold numbersOf
      rw [hc, if_neg hf, hw, hwc]
      rfl
    · exact List.forall_mem_cons.mpr ⟨⟨hflags, toNat_uint32 hflags.le⟩,
        List.forall_mem_cons.mpr ⟨⟨htime, rfl⟩, List.forall_mem_cons.mpr ⟨⟨hbytes, hlen⟩,
          List.forall_mem_singleton.mpr ⟨hread, toNat_uint64 hread.le⟩⟩⟩⟩

/-- A command without numeric fields. -/
theorem reads_nil {r : TextRequest} {args : List Bytes} (h : fieldsOf r.command args = []) :
    Reads now u r args [] := by
  refine ⟨h.symm, ?_, by simp⟩
  unfold numbersOf
  rw [h]
  rfl

theorem reads_touch (hv : (parseTouch now u { command := .TOUCH } b).valid = true) :
    ∃ xs, Reads now u (parseTouch now u { command := .TOUCH } b) (words b) xs := by
  obtain ⟨k, s, t, hw, hread, htime⟩ := parseTouch_valid rfl hv
  have hc : (parseTouch now u { command := .TOUCH } b).command = .TOUCH := parseTouch_command
  exact ⟨[(.exptime, s, t)], by rw [hc]; rfl, by rw [hc, hw]; rfl,
    List.forall_mem_singleton.mpr ⟨hread, htime⟩⟩

theorem reads_incdec {c : TextCommand} (hc : c = .INCR ∨ c = .DECR)
    (hv : (parseIncdec u { command := c } b).valid = true) :
    ∃ xs, Reads now u (parseIncdec u { command := c } b) (words b) xs := by
  obtain ⟨k, s, v, hw, hread, hvalue⟩ := parseIncdec_valid rfl hv
  have hcmd : (parseIncdec u { command := c } b).command = c := parseIncdec_command
  refine ⟨[(.delta, s, v)], ?_, ?_, ?_⟩
  · rw [hcmd]; rcases hc with rfl | rfl <;> rfl
  · rw [hcmd, hw]; rcases hc with rfl | rfl <;> rfl
  · exact List.forall_mem_singleton.mpr
      ⟨hread, (congrArg UInt64.toNat hvalue).trans (toNat_uint64 hread.le)⟩

theorem reads_flushall (hv : (parseFlushall now u { command := .FLUSH_ALL } b).valid = true) :
    ∃ xs, Reads now u (parseFlushall now u { command := .FLUSH_ALL } b) (words b) xs := by
  have hc : (parseFlushall now u { command := .FLUSH_ALL } b).command = .FLUSH_ALL := parseFlushall_command
  rcases parseFlushall_valid rfl hv with hnil | ⟨ws, hno⟩ | ⟨s, t, hw, hd, hread, htime⟩
  · refine ⟨[], reads_nil ?_⟩
    rw [hc, hnil]
    rfl
  · refine ⟨[], reads_nil ?_⟩
    rw [hc, hno]
    rfl
  · have hword : word s ≠ ascii "noreply" := by
      intro hno
      rw [← word_append_afterWord s, hno] at hd
      cases hd
    have hfields : fieldsOf .FLUSH_ALL (words b) = [.delay] := by
      rw [hw]
      refine if_neg (not_or.mpr ⟨List.cons_ne_nil _ _, fun hhead => hword (Option.some.inj hhead)⟩)
    refine ⟨[(.delay, s, t)], by rw [hc, hfields]; rfl, ?_, List.forall_mem_singleton.mpr ⟨hread, htime⟩⟩
    unfold numbersOf
    rw [hc, hfields, if_pos rfl, hw]
    rfl

theorem reads_command {c : TextCommand} {r : TextRequest} (h : parseCommand now u c b = .done r)
    (hv : r.valid = true) : ∃ xs, Reads now u r (words b) xs := by
  have hc : r.command = c := by
    have hcmd := parseCommand_command now u c b
    rw [h] at hcmd
    exact hcmd
  cases c with
  | TOUCH => cases h; exact reads_touch hv
  | INCR => cases h; exact reads_incdec (.inl rfl) hv
  | DECR => cases h; exact reads_incdec (.inr rfl) hv
  | FLUSH_ALL => cases h; exact reads_flushall hv
  | UNLOCK_ALL | VERSION | SLABS | QUIT | VERBOSITY | DELETE | LOCK | UNLOCK | STATS | GET | GETS | KEYS
    | UNKNOWN => exact ⟨[], reads_nil (by rw [hc]; rfl)⟩
  | SET | ADD | REPLACE | APPEND | PREPEND | CAS =>
    have hinvalid : r.valid = false := parseStorage_invalid h rfl
    exact absurd (hv.symm.trans hinvalid) (by decide)

/-- Only the storage commands have data. -/
theorem reads_data {c : TextCommand} {r : TextRequest} {n : Nat} {rest : Bytes}
    (h : parseCommand now u c b = .data r n) (hn : n + 2 ≤ rest.length)
    (hv : (checkData r n rest).valid = true) : ∃ xs, Reads now u (checkData r n rest) (words b) xs := by
  cases c with
  | SET | ADD | REPLACE | APPEND | PREPEND => exact reads_storage (fun _ => rfl) (by decide) h hn hv
  | CAS => exact reads_storage (fun _ => rfl) (by decide) h hn hv
  | TOUCH | INCR | DECR | FLUSH_ALL | UNLOCK_ALL | VERSION | SLABS | QUIT | VERBOSITY | DELETE | LOCK | UNLOCK
    | STATS | GET | GETS | KEYS | UNKNOWN => cases h

theorem checkData_command (r : TextRequest) (n : Nat) (rest : Bytes) :
    (checkData r n rest).command = r.command := by
  unfold checkData
  split_ifs <;> rfl

/-- **Every valid request** has a command word; its command made it of the rest of the line, or of that and
    the data. -/
theorem parse_valid {p : Bytes} {n : Nat} {r : TextRequest} (h : parse now u p = (n, r))
    (hv : r.valid = true) : skip (lineBody p) ≠ [] ∧ ∃ u',
      parseCommand now u' r.command (afterWord (skip (lineBody p))) = .done r ∨
      ∃ r' m rest, parseCommand now u' r.command (afterWord (skip (lineBody p))) = .data r' m ∧
        m + 2 ≤ rest.length ∧ r = checkData r' m rest := by
  unfold parse at h
  unfold lineBody
  cases hs : splitLine p with
  | none => rw [hs] at h; cases h; cases hv
  | some x =>
    obtain ⟨line, rest⟩ := x
    rw [hs] at h
    dsimp only at h ⊢
    unfold parseLine at h
    by_cases hline : line.length = 1 ∨ line.getD (line.length - 2) 0 ≠ CR
    · rw [if_pos hline] at h; cases h; cases hv
    rw [if_neg hline] at h
    dsimp only at h
    generalize line.take (line.length - 2) = body at h ⊢
    by_cases hb : skip body = []
    · -- no command
      rw [hb] at h
      cases h; cases hv
    obtain ⟨u', hu'⟩ : ∃ u' : Around, u' = ⟨rest ++ u.after, u.erange⟩ := ⟨_, rfl⟩
    generalize commandOf (word (skip body)) = c at h
    have hcmd := parseCommand_command now u' c (afterWord (skip body))
    rw [← hu'] at h
    refine ⟨hb, u', ?_⟩
    cases hc : parseCommand now u' c (afterWord (skip body)) with
    | done r' =>
      rw [hc] at h hcmd
      obtain rfl : r' = r := (Prod.mk.inj h).2
      obtain rfl : r'.command = c := hcmd
      exact .inl hc
    | data r' m =>
      rw [hc] at h hcmd
      obtain rfl : r'.command = c := hcmd
      dsimp only at h
      split_ifs at h with hlen
      · cases h
        exact absurd (hv.symm.trans (parseCommand_data hc)) (by decide)
      · obtain rfl : checkData r' m rest = r := (Prod.mk.inj h).2
        exact .inr ⟨r', m, rest, by rw [checkData_command, hc], Nat.le_of_not_lt hlen, rfl⟩

theorem reads_parse {p : Bytes} {n : Nat} {r : TextRequest} (h : parse now u p = (n, r))
    (hv : r.valid = true) : ∃ u' xs, Reads now u' r ((lineWords p).drop 1) xs := by
  obtain ⟨hb, u', hdone | ⟨r', m, rest, hdata, hlen, rfl⟩⟩ := parse_valid h hv
  · rw [lineWords, words_cons hb]
    exact ⟨u', reads_command hdone hv⟩
  · rw [lineWords, words_cons hb]
    exact ⟨u', reads_data hdata hlen hv⟩

end

/-- **Numbers of valid requests.**  The words of the numeric fields are numerals that fit their type, and
    the request carries their values, exactly if there is no white space and no sign in them. -/
theorem numbers_iff (now : Int) (u : Around) (p : Bytes) {n : Nat} {r : TextRequest}
    (h : parse now u p = (n, r)) (hv : r.valid = true) :
    ((numbersOf r.command ((lineWords p).drop 1)).map (fun x => x.1)
        = fieldsOf r.command ((lineWords p).drop 1) ∧
      ∀ x ∈ numbersOf r.command ((lineWords p).drop 1),
        Numeral x.1.max x.2 ∧ x.1.Holds now r (digitsValue x.2)) ↔
    ∀ x ∈ numbersOf r.command ((lineWords p).drop 1), Clean x.2 := by
  obtain ⟨u', xs, hreads⟩ := reads_parse h hv
  rw [hreads.words, ← hreads.fields, List.map_map]
  refine ⟨fun hall x hx => (hall.2 x hx).1.clean, fun hclean => ⟨rfl, fun x hx => ?_⟩⟩
  obtain ⟨y, hy, rfl⟩ := List.mem_map.mp hx
  obtain ⟨hread, hholds⟩ := hreads.read y hy
  obtain ⟨hnum, hval⟩ := hread.clean_iff.mp (hclean _ hx)
  exact ⟨hnum, hval ▸ hholds⟩

/-- An increment by 5. -/
def incrFive : Bytes := ascii "incr x 5\r\n"

theorem numbers_incrFive :
    (parse 0 ⟨[], false⟩ incrFive).2.valid = true ∧
      ∀ x ∈ numbersOf .INCR ((lineWords incrFive).drop 1),
        Numeral x.1.max x.2 ∧ x.1.Holds 0 (parse 0 ⟨[], false⟩ incrFive).2 (digitsValue x.2) := by
  have hnumbers : numbersOf .INCR ((lineWords incrFive).drop 1) = [(.delta, ascii "5")] := by decide
  have hclean : ∀ x ∈ numbersOf .INCR ((lineWords incrFive).drop 1), Clean x.2 := by
    rw [hnumbers]
    intro x hx
    rw [List.mem_singleton.mp hx]
    decide
  have hvalid : (parse 0 ⟨[], false⟩ incrFive).2.valid = true := by decide
  exact ⟨hvalid, ((numbers_iff 0 ⟨[], false⟩ incrFive rfl hvalid).mpr hclean).2⟩

/-- An increment by -1 is valid, and adds 2^64 - 1. -/
def incrNegative : Bytes := ascii "incr x -1\r\n"

theorem negative_delta_accepted :
    (parse 0 ⟨[], false⟩ incrNegative).2.valid = true ∧
      (parse 0 ⟨[], false⟩ incrNegative).2.value = 18446744073709551615 ∧
      ¬ ∀ x ∈ numbersOf .INCR ((lineWords incrNegative).drop 1), Numeral x.1.max x.2 := by
  refine ⟨by decide, by decide, fun h => ?_⟩
  have hmem : (Field.delta, ascii "-1") ∈ numbersOf .INCR ((lineWords incrNegative).drop 1) := by decide
  exact absurd (h _ hmem).clean (by decide)

end Yrmcds.Memcache.TextRequest
