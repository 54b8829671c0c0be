/-
  What a text request depends on (src/memcache/memcache.cpp, `text_request::parse`).

  The parser finds the end of the line, and for a storage request the end of the data; it reports the
  length of the whole.  Its words end at SP or at the end of the line.  Its numbers do not: `strtoull` is
  given a pointer, skips white space, and takes CR and LF for white space.  A number field that is BLANK up
  to the end of the line is read from the bytes behind it, whoever has sent them.

  `isolated_iff` says when a request is read from its own bytes only.  Up to the first blank field the line
  decides alone; there the script of the parser stops (`Script.resume`), and what follows is read in the
  memory behind the line, for all fields that are left.  This goes wrong unless the number ends within the
  data of the request, which is part of it, or the blank field is the number of data bytes of a request
  that is refused in any case (`Matters`).
-/
import Yrmcds.Memcache.Numbers

namespace Yrmcds.Memcache

namespace TextRequest

open Script

/-! ## Blank fields -/

/-- The field is blank up to the end of the line. -/
def blank (q : Query) : Bool := q.2.all isSpace

/-- What stands at the beginning of these bytes in the place of a number, ends before they end. -/
def EndsIn (s : Bytes) : Prop := (fromDigits s).dropWhile isDigit ≠ []

instance (s : Bytes) : Decidable (EndsIn s) := inferInstanceAs (Decidable (_ ≠ _))

variable {b s : Bytes}

/-- What was read in `s`, if it ends there, is read there whatever follows. -/
theorem toUint_endsIn {max : Nat} {erange : Bool} (h : EndsIn (b ++ CR :: LF :: s))
    (t : Bytes) : toUint max ⟨s ++ t, erange⟩ b = toUint max ⟨s, erange⟩ b := by
  have hsplit : b ++ CR :: LF :: (s ++ t) = (b ++ CR :: LF :: s) ++ t := by
    rw [List.append_assoc]
    rfl
  unfold toUint
  rw [hsplit, strtoull_append h]
  cases hs : strtoull (b ++ CR :: LF :: s) with
  | none => rfl
  | some x =>
    obtain ⟨i, overflow, rest⟩ := x
    exact accept_append (strtoull_rest hs ▸ h) ..

/-- A field that is not blank ends on the line. -/
theorem endsIn_of_not_blank (h : b.all isSpace = false) : EndsIn (b ++ [CR, LF]) := by
  induction b with
  | nil => cases h
  | cons c b ih =>
    cases hc : isSpace c with
    | false => exact fromDigits_stops hc
    | true =>
      rw [List.all_cons, hc, Bool.true_and] at h
      have hskip : fromDigits (c :: b ++ [CR, LF]) = fromDigits (b ++ [CR, LF]) := by
        unfold fromDigits
        rw [List.cons_append, List.dropWhile_cons_of_pos hc]
      unfold EndsIn
      rw [hskip]
      exact ih h

theorem answer_of_not_blank {q : Query} (h : blank q = false) (after : Bytes) (erange : Bool) :
    answer ⟨after, erange⟩ q = answer ⟨[], erange⟩ q :=
  toUint_endsIn (endsIn_of_not_blank h) after

/-- A blank one is read behind it. -/
theorem strtoull_blank (h : b.all isSpace = true) (s : Bytes) :
    strtoull (b ++ CR :: LF :: s) = strtoull s := by
  have hskip : (b ++ CR :: LF :: s).dropWhile isSpace = s.dropWhile isSpace := by
    rw [List.dropWhile_append_of_pos (List.all_eq_true.mp h)]
    rfl
  unfold strtoull fromDigits
  rw [hskip]

theorem answer_blank {q : Query} (h : blank q = true) (s : Bytes) (erange : Bool) :
    answer ⟨s, erange⟩ q
      = (strtoull s).bind fun x => accept q.1.max erange x.1 x.2.1 x.2.2 := by
  unfold answer toUint
  rw [strtoull_blank h]
  cases strtoull s <;> rfl

/-- With nothing behind the line it cannot be read. -/
theorem answer_blank_nil {q : Query} (h : blank q = true) (erange : Bool) : answer ⟨[], erange⟩ q = none := by
  rw [answer_blank h]
  rfl

/-- All is read alike in bytes where the number ends. -/
theorem answer_endsIn (h : EndsIn s) (q : Query) (t : Bytes) (erange : Bool) :
    answer ⟨s ++ t, erange⟩ q = answer ⟨s, erange⟩ q := by
  cases hq : blank q with
  | false => rw [answer_of_not_blank hq, answer_of_not_blank hq s]
  | true =>
    rw [answer_blank hq, answer_blank hq, strtoull_append h]
    cases hs : strtoull s with
    | none => rfl
    | some x =>
      obtain ⟨i, overflow, rest⟩ := x
      exact accept_append (strtoull_rest hs ▸ h) ..

/-- A byte that ends a number and that `to_uint` does not accept behind one. -/
def LETTER : UInt8 := 120

theorem accept_letter (max : Nat) (erange : Bool) (i : Nat) (overflow : Bool) :
    accept max erange i overflow [LETTER] = none := by
  unfold accept
  by_cases h : i = 2 ^ 64 - 1 ∧ (overflow || erange) = true
  · rw [if_pos h]
  · rw [if_neg h]
    exact if_pos ⟨by decide, by decide, by decide⟩

/-- Where the number has not ended, a letter spoils it. -/
theorem answer_spoilt (h : ¬ EndsIn s) {q : Query} (hq : blank q = true) (erange : Bool) :
    answer ⟨s ++ [LETTER], erange⟩ q = none := by
  have hfrom : fromDigits (s ++ [LETTER]) = fromDigits s ++ [LETTER] := by
    unfold fromDigits
    by_cases hs : s.dropWhile isSpace = []
    · rw [List.dropWhile_append, if_pos (by rw [hs]; rfl), hs]
      rfl
    · rw [List.dropWhile_append, if_neg (by simpa using hs), splitSign_append hs]
  have hdrop : (fromDigits (s ++ [LETTER])).dropWhile isDigit = [LETTER] := by
    rw [hfrom, List.dropWhile_append_of_pos (List.dropWhile_eq_nil_iff.mp (not_not.mp h))]
    rfl
  rw [answer_blank hq]
  cases hs : strtoull (s ++ [LETTER]) with
  | none => rfl
  | some x =>
    obtain ⟨i, overflow, rest⟩ := x
    have hrest : rest = [LETTER] := (strtoull_rest hs).trans hdrop
    rw [hrest]
    exact accept_letter _ _ _ _

/-- A line with a number that any field takes, and that is in no request by itself: one second more than
    30 days. -/
def PROBE : Bytes := ascii "2592001\r\n"

theorem answer_probe {q : Query} (hq : blank q = true) (erange : Bool) :
    answer ⟨PROBE, erange⟩ q = some 2592001 := by
  have hread : strtoull PROBE = some (2592001, false, [CR, LF]) := by decide
  have haccept : ∀ f : Field, accept f.max erange 2592001 false [CR, LF] = some 2592001 := by
    intro f
    cases f <;> cases erange <;> decide
  rw [answer_blank hq, hread]
  exact haccept q.1

/-! ## What is left of the script -/

/-- The value of a blank field makes a difference.  The number of data bytes does not if the line goes on
    with something that is no `noreply`, and for `cas` if it ends where the cas value should be. -/
def Matters (isCas : Bool) (q : Query) : Prop :=
  q.1 = .bytes → (isCas = true ↔ skip (afterWord q.2) ≠ [])

/-- With nothing behind the line, the parser gets to a blank field whose value matters. -/
def Dangling (now : Int) (erange : Bool) (line : Bytes) : Prop :=
  ∃ q ∈ (lineScript now line).asked (answer ⟨[], erange⟩), blank q = true ∧
    Matters (lineCommand line = .CAS) q

theorem all_afterWord (h : b.all isSpace = true) : (afterWord b).all isSpace = true :=
  List.all_eq_true.mpr fun c hc => List.all_eq_true.mp h c ((List.dropWhile_suffix _).subset hc)

theorem all_skip (h : b.all isSpace = true) : (skip b).all isSpace = true :=
  List.all_eq_true.mpr fun c hc => List.all_eq_true.mp h c ((List.dropWhile_suffix _).subset hc)

/-- A blank is no `noreply`. -/
theorem storageEnding_blank (h : b.all isSpace = true) (hb : skip b ≠ []) (n : Nat)
    (r : TextRequest) : storageEnding n r b = .done r := by
  have hword : word (skip b) ≠ ascii "noreply" := by
    intro heq
    have hmem : (110 : UInt8) ∈ skip b := by
      refine ( List.takeWhile_prefix (· != SP)).subset ?_
      show (110 : UInt8) ∈ word (skip b)
      rw [heq]
      decide
    exact absurd (List.all_eq_true.mp (all_skip h) 110 hmem) (by decide)
  unfold storageEnding parseNoReply
  simp only [if_neg hb, if_pos hword]

section

variable {now : Int} {isCas : Bool} {q : Query} {fail : Header} {k : Nat → Script Query Nat Header}
  (hnode : Node now isCas q fail k) (hq : blank q = true)
include hnode hq

/-- Where it does not matter, the request is refused. -/
theorem run_of_not_matters (hm : ¬ Matters isCas q) (v : Nat) (g : Query → Option Nat) :
    (k v).run g = fail := by
  unfold Matters at hm
  rw [Classical.not_imp] at hm
  obtain ⟨hf, hm⟩ := hm
  obtain ⟨r, rfl, -, hk⟩ := hnode.bytes hf
  have hblank := all_afterWord hq
  rw [hk]
  unfold storageEndScript
  cases isCas with
  | true =>
    have hnil : skip (afterWord q.2) = [] := by
      by_contra hne
      exact hm ⟨fun _ => hne, fun _ => rfl⟩
    rw [if_pos rfl, if_pos hnil, run]
  | false =>
    have hne : skip (afterWord q.2) ≠ [] := by
      intro hnil
      exact hm ⟨fun h => absurd h (by decide), fun h => absurd hnil h⟩
    rw [if_neg (by decide), run, storageEnding_blank hblank hne]

omit hq in
/-- A value that goes into the request shows. -/
theorem probe_carried (hf : q.1 ≠ .bytes ∧ q.1 ≠ .delay) (line rest rest' : Bytes) (g : Query → Option Nat) :
    ofLine line rest' ((k 2592001).run g) ≠ ofLine line rest fail := by
  obtain ⟨r, rfl, h0⟩ := hnode.fails
  intro heq
  have hsame := ofLine_same line rest' ((k 2592001).run g)
  rw [heq] at hsame
  have hv : q.1.Carries now r 2592001 := hsame.carries (run_every (hnode.carries 2592001) g)
  obtain ⟨f, b⟩ := q
  cases f with
  | flags => exact absurd (Eq.trans (Eq.symm h0) hv : UInt32.ofNat 0 = UInt32.ofNat 2592001) (by decide)
  | exptime => exact absurd (Eq.trans (Eq.symm h0) hv : (0 : Int) = 2592001) (by decide)
  | bytes => exact hf.1 rfl
  | casUnique => exact absurd (Eq.trans (Eq.symm h0) hv : UInt64.ofNat 0 = UInt64.ofNat 2592001) (by decide)
  | delta => exact absurd (Eq.trans (Eq.symm h0) hv : UInt64.ofNat 0 = UInt64.ofNat 2592001) (by decide)
  | delay => exact hf.2 rfl

/-- A blank is no digit. -/
theorem not_delay : q.1 ≠ .delay := by
  intro hf
  have hdigit := hnode.delay hf
  unfold blank at hq
  cases hb : q.2 with
  | nil =>
    rw [hb] at hdigit
    cases hdigit
  | cons c b =>
    rw [hb] at hdigit hq
    have hspace : isSpace c = true := List.all_eq_true.mp hq c List.mem_cons_self
    have hno : isSpace c = false := (clean_of_digit hdigit).1
    rw [hspace] at hno
    cases hno

/-- Where it does, `PROBE` behind the line makes another request of it than nothing. -/
theorem probe_differs (hm : Matters isCas q) {line : Bytes} (hline : line ≠ []) (erange : Bool)
    (rest : Bytes) :
    ofLine line PROBE ((k 2592001).run (answer ⟨PROBE, erange⟩)) ≠ ofLine line rest fail := by
  by_cases hf : q.1 = .bytes
  · obtain ⟨r, rfl, hr, hk⟩ := hnode.bytes hf
    have hblank := all_afterWord hq
    rw [hk]
    unfold storageEndScript
    cases isCas with
    | false =>
      -- a number of data bytes makes it a storage request, whose data is not there
      have hnil : skip (afterWord q.2) = [] := by
        by_contra hne
        exact absurd ((hm hf).mpr hne) (by decide)
      have hdata : storageEnding 2592001 r (afterWord q.2) = .data r 2592001 := by
        unfold storageEnding parseNoReply
        simp only [if_pos hnil]
      rw [if_neg (by decide), run, hdata]
      intro heq
      have hlen : 0 = line.length := congrArg Prod.fst heq
      exact hline (List.eq_nil_of_length_eq_zero hlen.symm)
    | true =>
      -- the cas value is blank as well
      have hne : skip (afterWord q.2) ≠ [] := (hm hf).mp rfl
      have hcas : answer ⟨PROBE, erange⟩ (.casUnique, skip (afterWord q.2)) = some 2592001 :=
        answer_probe (q := (.casUnique, _)) (all_skip hblank) erange
      rw [if_pos rfl, if_neg hne, run, hcas]
      intro heq
      have hend := storageEnding_same 2592001 { r with casUnique := UInt64.ofNat 2592001 }
        (afterWord (skip (afterWord q.2)))
      have hsame := ofLine_same line PROBE (storageEnding 2592001
        { r with casUnique := UInt64.ofNat 2592001 } (afterWord (skip (afterWord q.2))))
      have hshown : r.casUnique = UInt64.ofNat 2592001 :=
        (congrArg (fun x => x.2.casUnique) heq).symm.trans (hsame.casUnique.trans hend.casUnique)
      exact absurd (hr.symm.trans hshown) (by decide)
  · exact probe_carried hnode ⟨hf, not_delay hnode hq⟩ line rest PROBE _

end

/-! ## Requests -/

/-- Any buffer with the same first bytes, as many as were reported, is parsed to the same request. -/
def Isolated (now : Int) (u : Around) (p : Bytes) : Prop :=
  ∀ q after, q.take (parse now u p).1 = p.take (parse now u p).1 →
    parse now ⟨after, u.erange⟩ q = parse now u p

/-- A request with its data looks at no more than that. -/
theorem ofLine_take {line rest rest' : Bytes} {h : Header} (hn : (ofLine line rest h).1 ≠ 0)
    (htake : rest'.take ((ofLine line rest h).1 - line.length)
      = rest.take ((ofLine line rest h).1 - line.length)) :
    ofLine line rest' h = ofLine line rest h := by
  cases h with
  | done r => rfl
  | data r n =>
    unfold ofLine at hn htake ⊢
    dsimp only at hn htake ⊢
    by_cases hlen : rest.length < n + 2
    · rw [if_pos hlen] at hn
      exact absurd rfl hn
    · rw [if_neg hlen] at htake ⊢
      dsimp only at htake
      have hsub : line.length + n + 2 - line.length = n + 2 := by omega
      rw [hsub] at htake
      have hlen' : ¬ rest'.length < n + 2 := by
        have h := congrArg List.length htake
        rw [List.length_take, List.length_take] at h
        omega
      have hend : ∀ l : Bytes, (l.drop n).take 2 = (l.take (n + 2)).drop n := by
        intro l
        rw [List.drop_take, Nat.add_sub_cancel_left]
      have hdata : ∀ l : Bytes, l.take n = (l.take (n + 2)).take n := by
        intro l
        rw [List.take_take, Nat.min_eq_left (Nat.le_add_right n 2)]
      rw [if_neg hlen']
      unfold checkData
      rw [hend rest', hend rest, hdata rest', hdata rest, htake]

/-- A buffer with the same first bytes has the same line, and behind it the same bytes. -/
theorem same_line {p q line rest : Bytes} {n : Nat} (hp : splitLine p = some (line, rest))
    (hle : line.length ≤ n) (hq : q.take n = p.take n) :
    ∃ rest', splitLine q = some (line, rest') ∧
      rest'.take (n - line.length) = rest.take (n - line.length) := by
  obtain ⟨hsplit, -⟩ := splitLine_eq hp
  have hdrop : ∀ l : Bytes, (l.drop line.length).take (n - line.length) = (l.take n).drop line.length :=
    fun l => (List.drop_take ..).symm
  have hline : q.take line.length = line := by
    calc q.take line.length = (q.take n).take line.length := by rw [List.take_take, Nat.min_eq_left hle]
      _ = (p.take n).take line.length := by rw [hq]
      _ = line := by rw [List.take_take, Nat.min_eq_left hle, hsplit, List.take_left]
  refine ⟨q.drop line.length, ?_, ?_⟩
  · have hwhole : line ++ q.drop line.length = q := by
      calc line ++ q.drop line.length = q.take line.length ++ q.drop line.length := by rw [hline]
        _ = q := List.take_append_drop ..
    have h := splitLine_append (splitLine_self hp) (q.drop line.length)
    rwa [hwhole, List.nil_append] at h
  · rw [hdrop, hq, ← hdrop, hsplit, List.drop_left]

section

variable {now : Int} {u : Around} {p line rest : Bytes} (hp : splitLine p = some (line, rest))
  (hn : (parse now u p).1 ≠ 0)
include hp hn

theorem line_le : line.length ≤ (parse now u p).1 := by
  rw [parse_eq_ofLine now u hp] at hn ⊢
  generalize (lineScript now line).run (answer ⟨rest ++ u.after, u.erange⟩) = h at hn ⊢
  cases h with
  | done r => exact Nat.le_refl _
  | data r n =>
    unfold ofLine at hn ⊢
    dsimp only at hn ⊢
    split_ifs at hn ⊢
    · exact absurd rfl hn
    · dsimp only
      omega

/-- If the header is read alike from the known bytes, so is the request. -/
theorem isolated_of_header
    (h : ∀ s, s.take ((parse now u p).1 - line.length) = rest.take ((parse now u p).1 - line.length) →
      ∀ after, (lineScript now line).run (answer ⟨s ++ after, u.erange⟩)
        = (lineScript now line).run (answer ⟨rest ++ u.after, u.erange⟩)) : Isolated now u p := by
  intro q after hq
  obtain ⟨rest', hq', htake⟩ := same_line hp (line_le hp hn) hq
  have hfst := congrArg Prod.fst (parse_eq_ofLine now u hp)
  rw [parse_eq_ofLine now _ hq', h rest' htake, parse_eq_ofLine now u hp]
  refine ofLine_take (by rw [← hfst]; exact hn) ?_
  rw [← hfst]
  exact htake

/-- What an isolated request is with other bytes behind the known ones. -/
theorem Isolated.behind (h : Isolated now u p)
    (hs : s.take ((parse now u p).1 - line.length) = rest.take ((parse now u p).1 - line.length)) :
    ofLine line s ((lineScript now line).run (answer ⟨s, u.erange⟩)) = parse now u p := by
  have hle := line_le hp hn
  have htake : ∀ t : Bytes, (line ++ t).take (parse now u p).1
      = line ++ t.take ((parse now u p).1 - line.length) := by
    intro t
    rw [List.take_append, List.take_of_length_le hle]
  have hline : splitLine (line ++ s) = some (line, s) := splitLine_append (splitLine_self hp) s
  have hparse := h (line ++ s) [] (by rw [htake, hs, ← htake, ← (splitLine_eq hp).1])
  rw [parse_eq_ofLine now _ hline] at hparse
  simpa only [List.append_nil] using hparse

end

/-- The line decides up to the first blank field. -/
theorem run_unblank (now : Int) (erange : Bool) (line after : Bytes) :
    ((lineScript now line).resume (answer ⟨[], erange⟩) blank).run (answer ⟨after, erange⟩)
      = (lineScript now line).run (answer ⟨after, erange⟩) :=
  run_resume (fun _ hq => answer_of_not_blank hq after erange) _

/-! ## The blank field -/

section

variable {now : Int} {u : Around} {p line rest : Bytes} (hp : splitLine p = some (line, rest))
  (hn : (parse now u p).1 ≠ 0)
include hp hn

/-- All fields are read alike in known bytes where a number ends. -/
theorem isolated_of_endsIn (h : EndsIn (rest.take ((parse now u p).1 - line.length))) :
    Isolated now u p := by
  have hanswer : ∀ s after, s.take ((parse now u p).1 - line.length)
      = rest.take ((parse now u p).1 - line.length) → answer ⟨s ++ after, u.erange⟩
        = answer ⟨rest.take ((parse now u p).1 - line.length), u.erange⟩ := by
    intro s after hs
    funext q
    rw [← answer_endsIn h q (s.drop ((parse now u p).1 - line.length) ++ after), ← hs, ← List.append_assoc,
      List.take_append_drop]
  refine isolated_of_header hp hn fun s hs after => ?_
  rw [hanswer s after hs, hanswer rest u.after rfl]

variable {q : Query} {fail : Header} {k : Nat → Script Query Nat Header}
  (hres : (lineScript now line).resume (answer ⟨[], u.erange⟩) blank = .read q fail k)
include hres

omit hp hn in
theorem dangling_iff : Dangling now u.erange line ↔ Matters (lineCommand line = .CAS) q := by
  obtain ⟨hq, hmem, -⟩ := resume_read (lineScript_nodes now line) hres
  constructor
  · rintro ⟨q', hmem', hq', hm⟩
    rwa [resume_unique (fun _ h => answer_blank_nil h u.erange) hres hmem' hq'] at hm
  · exact fun hm => ⟨q, hmem, hq, hm⟩

omit hp hn in
theorem run_of_blank (after : Bytes) : (lineScript now line).run (answer ⟨after, u.erange⟩)
    = (Script.read q fail k).run (answer ⟨after, u.erange⟩) := by
  rw [← run_unblank, hres]

theorem isolated_of_not_matters (hm : ¬ Matters (lineCommand line = .CAS) q) : Isolated now u p := by
  obtain ⟨hq, -, hnode⟩ := resume_read (lineScript_nodes now line) hres
  have hfail : ∀ after, (lineScript now line).run (answer ⟨after, u.erange⟩) = fail := by
    intro after
    rw [run_of_blank hres, run]
    cases answer ⟨after, u.erange⟩ q with
    | none => rfl
    | some v => exact run_of_not_matters hnode hq hm v _
  exact isolated_of_header hp hn fun s _ after => by rw [hfail, hfail]

/-- A letter behind the known bytes spoils a storage request, and `PROBE` another one. -/
theorem not_isolated (hm : Matters (lineCommand line = .CAS) q)
    (hends : ¬ EndsIn (rest.take ((parse now u p).1 - line.length))) : ¬ Isolated now u p := by
  obtain ⟨hq, -, hnode⟩ := resume_read (lineScript_nodes now line) hres
  obtain ⟨r, hfail, -⟩ := hnode.fails
  intro h
  have hspoilt : ∀ s, ¬ EndsIn s → (lineScript now line).run (answer ⟨s ++ [LETTER], u.erange⟩) = fail := by
    intro s hs
    rw [run_of_blank hres, run, answer_spoilt hs hq]
  have hparse := parse_eq_ofLine now u hp
  cases hh : (lineScript now line).run (answer ⟨rest ++ u.after, u.erange⟩) with
  | done r' =>
    have hlen : (parse now u p).1 - line.length = 0 := by
      rw [hparse, hh]
      exact Nat.sub_self _
    have hx := h.behind hp hn (s := [] ++ [LETTER]) (by rw [hlen]; rfl)
    have hprobe := h.behind hp hn (s := PROBE) (by rw [hlen]; rfl)
    rw [hspoilt [] (fun hne => hne rfl)] at hx
    rw [run_of_blank hres, run, answer_probe hq] at hprobe
    exact probe_differs hnode hq hm (splitLine_eq hp).2 u.erange _ (hprobe.trans hx.symm)
  | data r' n =>
    rw [hh] at hparse
    have hrest : ¬ rest.length < n + 2 := by
      intro hlt
      rw [hparse] at hn
      exact hn (congrArg Prod.fst (if_pos hlt))
    have hlen : (parse now u p).1 = line.length + n + 2 := by
      rw [hparse]
      exact congrArg Prod.fst (if_neg hrest)
    have hsub : (parse now u p).1 - line.length = n + 2 := by omega
    rw [hsub] at hends
    have hknown : (rest.take (n + 2)).length = n + 2 := by
      rw [List.length_take]
      omega
    have hx := h.behind hp hn (s := rest.take (n + 2) ++ [LETTER])
      (by rw [hsub]; exact List.take_left' hknown)
    rw [hspoilt _ hends, hfail] at hx
    have hshort : line.length = (parse now u p).1 := congrArg Prod.fst hx
    omega

end

/-- **A text request is read from its own bytes, unless a blank number field dangles**: one whose value
    matters, and which does not end in the data of the request. -/
theorem isolated_iff (now : Int) (u : Around) (p : Bytes) (hn : (parse now u p).1 ≠ 0) :
    Isolated now u p ↔ ¬ ∃ line rest, splitLine p = some (line, rest) ∧ Dangling now u.erange line ∧
      ¬ EndsIn (rest.take ((parse now u p).1 - line.length)) := by
  cases hp : splitLine p with
  | none =>
    unfold parse at hn
    rw [hp] at hn
    exact absurd rfl hn
  | some x =>
    obtain ⟨line, rest⟩ := x
    rw [← hp, exists_line_iff hp]
    cases hres : (lineScript now line).resume (answer ⟨[], u.erange⟩) blank with
    | ret h =>
      refine iff_of_true (isolated_of_header hp hn fun s _ after => ?_) ?_
      · rw [← run_unblank, ← run_unblank now u.erange line (rest ++ u.after), hres]
        rfl
      · rintro ⟨⟨q, hq, hblank, -⟩, -⟩
        rw [resume_ret hres q hq] at hblank
        cases hblank
    | read q fail k =>
      rw [dangling_iff hres]
      by_cases hm : Matters (lineCommand line = .CAS) q
      · by_cases hends : EndsIn (rest.take ((parse now u p).1 - line.length))
        · exact iff_of_true (isolated_of_endsIn hp hn hends) fun h => h.2 hends
        · exact iff_of_false (not_isolated hp hn hres hm hends) (not_not.mpr ⟨hm, hends⟩)
      · exact iff_of_true (isolated_of_not_matters hp hn hres hm) fun h => hm h.1

/-- An increment by 5. -/
theorem isolated_incr : Isolated 100 ⟨[], false⟩ (ascii "incr x 5\r\n") := by
  refine (isolated_iff 100 ⟨[], false⟩ (ascii "incr x 5\r\n") (by decide)).mpr ?_
  rintro ⟨line, rest, hp, ⟨q, hq, hblank, -⟩, -⟩
  cases hp
  have hall : ∀ q ∈ (lineScript 100 (ascii "incr x 5\r\n")).asked (answer ⟨[], false⟩),
      blank q = false := by decide
  rw [hall q hq] at hblank
  cases hblank

/-- An increment by nothing takes the number from the next line, if there is one. -/
theorem incr_reads_next_line :
    ((parse 100 ⟨[], false⟩ (ascii "incr x \t\r\n")).1,
      (parse 100 ⟨[], false⟩ (ascii "incr x \t\r\n")).2.valid) = (10, false) ∧
    ((parse 100 ⟨[], false⟩ (ascii "incr x \t\r\n5\r\n")).1,
      (parse 100 ⟨[], false⟩ (ascii "incr x \t\r\n5\r\n")).2.valid,
      (parse 100 ⟨[], false⟩ (ascii "incr x \t\r\n5\r\n")).2.value) = (10, true, 5) ∧
    ¬ Isolated 100 ⟨[], false⟩ (ascii "incr x \t\r\n") := by
  refine ⟨by decide, by decide, fun h => ?_⟩
  have heq := congrArg (fun x => x.2.valid) (h (ascii "incr x \t\r\n5\r\n") [] (by decide))
  revert heq
  decide

end TextRequest

end Yrmcds.Memcache
