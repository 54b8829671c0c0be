/-
  The keys of GET and GETS (src/memcache/memcache.hpp, `first_key` and `next_key`).

  `parse_get` delimits the first key only.  The others are found by `next_key`, which starts from the key
  before and knows no bounds: it skips spaces, looks for the next CR with `rawmemchr`, and takes the word
  up to there.  A pointer is modelled by the bytes from it on, as far as they may be READ; a read
  further on is `none`.

  So there are two ends of the line: the CR before the LF, by which the parser goes, and the next CR, by
  which `next_key` goes.  `keyLoop_eq` follows the loop up to its end: it terminates and reads nothing
  behind the line's own CR.  `multiGet_iff` says when the two ends agree: exactly if no key after the
  first contains a CR.
-/
import Yrmcds.Memcache.Words

namespace Yrmcds.Memcache.TextRequest

/-! ## The loop -/

/-- `while( *b == SP ) ++b;` -/
def skipSp : Bytes → Option Bytes
  | [] => none
  | c :: b => if c = SP then skipSp b else some (c :: b)

/-- `rawmemchr(b, x)`: how far it is to the next `x`. -/
def rawmemchr (x : UInt8) : Bytes → Option Nat
  | [] => none
  | c :: b => if c = x then some 0 else (rawmemchr x b).map (· + 1)

/-- `next_key`: an item is a pointer and a length; the inner `none` is `eos`. -/
def nextKey (prev : Bytes × Nat) : Option (Option (Bytes × Nat)) :=
  match skipSp (prev.1.drop prev.2) with
  | none => none
  | some b =>
    match rawmemchr CR b with
    | none => none
    | some e => if e = 0 then some none else some (some (b, (word (b.take e)).length))

/-- The loop of GET and GETS, from an item that is not `eos`: the keys it visits.  `none`: it has read
    where it may not, or has not ended after so many rounds. -/
def keyLoop : Nat → Bytes × Nat → Option (List Key)
  | 0, _ => none
  | n + 1, it =>
    match nextKey it with
    | none => none
    | some none => some [it.1.take it.2]
    | some (some it') => (keyLoop n it').map (it.1.take it.2 :: ·)

/-- `first_key`, where the line's CR is followed by `y`. -/
def firstKey (p y : Bytes) : Bytes × Nat :=
  let b := skip (afterWord (skip (lineBody p)))
  (b ++ CR :: y, (word b).length)

/-! ## One round -/

theorem skipSp_eq (t y : Bytes) : skipSp (t ++ CR :: y) = some (skip t ++ CR :: y) := by
  unfold skip
  induction t with
  | nil => rfl
  | cons c t ih =>
    rw [List.cons_append, skipSp]
    by_cases hc : c = SP
    · rw [if_pos hc, ih, hc, List.dropWhile_cons_of_pos (by decide)]
    · rw [if_neg hc, List.dropWhile_cons_of_neg (by simpa using hc)]
      rfl

theorem rawmemchr_eq (b y : Bytes) :
    rawmemchr CR (b ++ CR :: y) = some (b.takeWhile (· != CR)).length := by
  induction b with
  | nil => rfl
  | cons c b ih =>
    rw [List.cons_append, rawmemchr]
    by_cases hc : c = CR
    · rw [if_pos hc, hc, List.takeWhile_cons_of_neg (by decide)]
      rfl
    · rw [if_neg hc, ih, List.takeWhile_cons_of_pos (by simpa using hc)]
      rfl

/-- The line up to the next CR. -/
def upToCr (b : Bytes) : Bytes := b.takeWhile (· != CR)

/-- **One call of `next_key`**, with `t` left of the line: nothing behind the CR is read. -/
theorem nextKey_eq (k t y : Bytes) : nextKey (k ++ (t ++ CR :: y), k.length) =
    some (if upToCr (skip t) = [] then none
      else some (skip t ++ CR :: y, (word (upToCr (skip t))).length)) := by
  have htake : (skip t ++ CR :: y).take (upToCr (skip t)).length = upToCr (skip t) := by
    unfold upToCr
    rw [List.take_append_of_le_length ( List.takeWhile_prefix _).length_le]
    exact (List.prefix_iff_eq_take.mp ( List.takeWhile_prefix _)).symm
  unfold nextKey
  rw [List.drop_left, skipSp_eq]
  dsimp only
  rw [rawmemchr_eq]
  dsimp only
  rw [show List.takeWhile (fun x => x != CR) (skip t) = upToCr (skip t) from rfl, htake]
  by_cases h : upToCr (skip t) = []
  · rw [if_pos h, h]
    rfl
  · rw [if_neg h, if_neg (by simpa using h)]

/-- What follows a key, and the key, make up the line again. -/
theorem append_drop_key (b : Bytes) :
    word (upToCr b) ++ b.drop (word (upToCr b)).length = b := by
  have hpre : word (upToCr b) <+: b := ( List.takeWhile_prefix _).trans ( List.takeWhile_prefix _)
  conv_rhs => rw [← List.take_append_drop (word (upToCr b)).length b]
  rw [← List.prefix_iff_eq_take.mp hpre]

theorem nextKeys_succ (n : Nat) (t : Bytes) : nextKeys (n + 1) t =
    if upToCr (skip t) = [] then []
    else word (upToCr (skip t)) :: nextKeys n ((skip t).drop (word (upToCr (skip t))).length) := rfl

theorem nextKeys_end {t : Bytes} (h : upToCr (skip t) = []) (n : Nat) : nextKeys n t = [] := by
  cases n with
  | zero => rfl
  | succ n => rw [nextKeys_succ, if_pos h]

theorem length_skip_le (t : Bytes) : (skip t).length ≤ t.length := (List.dropWhile_suffix _).length_le

/-- A key is not empty, so less is left after it. -/
theorem length_drop_key {t : Bytes} (h : upToCr (skip t) ≠ []) :
    ((skip t).drop (word (upToCr (skip t))).length).length < t.length := by
  have hb : skip t ≠ [] := fun hnil => h (by rw [hnil]; rfl)
  have hhead : (upToCr (skip t)).headD 0 ≠ SP := by
    obtain ⟨y, hy⟩ : upToCr (skip t) <+: skip t := List.takeWhile_prefix _
    have hskip := headD_skip hb
    rwa [← hy, headD_append h] at hskip
  have hpos := List.length_pos_iff.mpr (word_ne_nil h hhead)
  have hle := length_skip_le t
  have hskip := List.length_pos_iff.mpr hb
  rw [List.length_drop]
  omega

theorem keyLoop_end {t : Bytes} (h : upToCr (skip t) = []) (n : Nat) (k y : Bytes) :
    keyLoop (n + 1) (k ++ (t ++ CR :: y), k.length) = some (k :: nextKeys n t) := by
  rw [keyLoop, nextKey_eq, if_pos h, nextKeys_end h, List.take_left]

/-- **The loop ends, and visits the keys the parser's model lists.** -/
theorem keyLoop_eq (n : Nat) (k t y : Bytes) (h : t.length ≤ n) :
    keyLoop (n + 1) (k ++ (t ++ CR :: y), k.length) = some (k :: nextKeys n t) := by
  induction n generalizing k t with
  | zero =>
    obtain rfl := List.eq_nil_of_length_eq_zero (Nat.le_zero.mp h)
    exact keyLoop_end rfl 0 k y
  | succ n ih =>
    by_cases hnil : upToCr (skip t) = []
    · exact keyLoop_end hnil (n + 1) k y
    · have hnext : skip t ++ CR :: y = word (upToCr (skip t)) ++
          ((skip t).drop (word (upToCr (skip t))).length ++ CR :: y) := by
        rw [← List.append_assoc, append_drop_key]
      have hlen := length_drop_key hnil
      rw [keyLoop, nextKey_eq, if_neg hnil, nextKeys_succ, if_neg hnil, hnext]
      dsimp only
      rw [ih _ _ (by omega), List.take_left]
      rfl

/-! ## Keys and words -/

/-- Without a CR the keys are the words. -/
theorem nextKeys_words {t : Bytes} (hcr : CR ∉ t) (n : Nat) (h : t.length ≤ n) : nextKeys n t = words t := by
  induction n generalizing t with
  | zero =>
    obtain rfl := List.eq_nil_of_length_eq_zero (Nat.le_zero.mp h)
    rfl
  | succ n ih =>
    have hskip : CR ∉ skip t := fun hmem => hcr ((List.dropWhile_suffix _).subset hmem)
    have hup : upToCr (skip t) = skip t :=
      List.takeWhile_eq_self_iff.mpr fun c hc => bne_iff_ne.mpr fun heq => hskip (heq ▸ hc)
    have hlen := @length_drop_key t
    rw [nextKeys_succ]
    rw [hup] at hlen ⊢
    by_cases hnil : skip t = []
    · rw [if_pos hnil, words_of_skip hnil]
    · have hafter : (skip t).drop (word (skip t)).length = afterWord (skip t) := by
        have hdrop : (word (skip t) ++ afterWord (skip t)).drop (word (skip t)).length
            = afterWord (skip t) := List.drop_left
        rwa [word_append_afterWord] at hdrop
      have hless := hlen hnil
      rw [hafter] at hless
      have hcr' : CR ∉ afterWord (skip t) := fun hmem => hskip ((List.dropWhile_suffix _).subset hmem)
      rw [if_neg hnil, words_cons hnil, hafter, ih hcr' (by omega)]

/-- A key found by `next_key` contains no CR. -/
theorem cr_not_mem_nextKeys (n : Nat) (t : Bytes) : ∀ k ∈ nextKeys n t, CR ∉ k := by
  induction n generalizing t with
  | zero => exact fun k hk => absurd hk List.not_mem_nil
  | succ n ih =>
    rw [nextKeys_succ]
    split_ifs
    · exact fun k hk => absurd hk List.not_mem_nil
    · intro k hk hcr
      rcases List.mem_cons.mp hk with rfl | hk
      · have hup : CR ∈ upToCr (skip t) := ( List.takeWhile_prefix _).subset hcr
        exact absurd (List.mem_takeWhile_imp hup) (by decide)
      · exact ih _ k hk hcr

/-- Every byte but SP is in a word. -/
theorem mem_words {c : UInt8} (hc : c ≠ SP) (n : Nat) {t : Bytes} (hn : t.length ≤ n) (h : c ∈ t) :
    ∃ w ∈ words t, c ∈ w := by
  induction n generalizing t with
  | zero =>
    obtain rfl := List.eq_nil_of_length_eq_zero (Nat.le_zero.mp hn)
    exact absurd h List.not_mem_nil
  | succ n ih =>
    have hskip : c ∈ skip t := by
      rw [← List.takeWhile_append_dropWhile (p := (· == SP)) (l := t), List.mem_append] at h
      exact h.resolve_left fun hsp => hc (by simpa using List.mem_takeWhile_imp hsp)
    have hne := List.ne_nil_of_mem hskip
    have hlen := congrArg List.length (word_append_afterWord (skip t))
    have hpos := List.length_pos_iff.mpr (word_skip_ne_nil hne)
    have hle := length_skip_le t
    rw [List.length_append] at hlen
    rw [words_cons hne]
    rw [← word_append_afterWord (skip t), List.mem_append] at hskip
    rcases hskip with hword | hafter
    · exact ⟨_, List.mem_cons_self, hword⟩
    · obtain ⟨w, hw, hmem⟩ := ih (by omega) hafter
      exact ⟨w, List.mem_cons_of_mem _ hw, hmem⟩

/-- **The keys behind the first are the words behind it exactly if no CR is in them.** -/
theorem nextKeys_eq_words_iff {n : Nat} {t : Bytes} (h : t.length ≤ n) :
    nextKeys n t = words t ↔ ∀ w ∈ words t, CR ∉ w := by
  refine ⟨fun heq w hw => cr_not_mem_nextKeys n t w (heq ▸ hw), fun hall => nextKeys_words ?_ n h⟩
  intro hcr
  obtain ⟨w, hw, hmem⟩ := mem_words (by decide) t.length le_rfl hcr
  exact hall w hw hmem

theorem parseGet_valid {r : TextRequest} {b : Bytes} (hr : r.valid = false)
    (h : (parseGet r b).valid = true) : skip b ≠ [] ∧
      (parseGet r b).keys = word (skip b) :: nextKeys (skip b).length (afterWord (skip b)) := by
  unfold parseGet at h ⊢
  dsimp only at h ⊢
  split_ifs at h ⊢ with hb
  · exact absurd (h.symm.trans hr) (by decide)
  · exact ⟨hb, rfl⟩

/-- **Multi-key get.**  For a valid GET or GETS the loop ends after the same number of rounds whatever
    stands behind the CR of the line, even if nothing may be read there.  The keys it visits are the words
    after the command exactly if no word after the first of them contains a CR. -/
theorem multiGet_iff (now : Int) (u : Around) (p : Bytes) {n : Nat} {r : TextRequest}
    (h : parse now u p = (n, r)) (hv : r.valid = true) (hc : r.command = .GET ∨ r.command = .GETS) :
    (∃ rounds, ∀ y, keyLoop rounds (firstKey p y) = some r.keys) ∧
      (r.keys = (lineWords p).drop 1 ↔ ∀ w ∈ (lineWords p).drop 2, CR ∉ w) := by
  obtain ⟨hb, u', hcase⟩ := parse_valid h hv
  -- GET and GETS have no data
  have hget : parseGet { command := r.command } (afterWord (skip (lineBody p))) = r := by
    rcases hcase with hdone | ⟨r', m, rest, hdata, -, -⟩
    · rcases hc with hc | hc <;> rw [hc] at hdone ⊢ <;> exact Header.done.inj hdone
    · rcases hc with hc | hc <;> rw [hc] at hdata <;> cases hdata
  obtain ⟨hkey, hkeys⟩ := parseGet_valid (r := { command := r.command }) rfl (by rw [hget]; exact hv)
  rw [hget] at hkeys
  obtain ⟨b, hbdef⟩ : ∃ b, b = skip (afterWord (skip (lineBody p))) := ⟨_, rfl⟩
  rw [← hbdef] at hkey hkeys
  have hlen : (afterWord b).length ≤ b.length := (List.dropWhile_suffix _).length_le
  have hwords : (lineWords p).drop 1 = word b :: words (afterWord b) := by
    rw [lineWords, words_cons hb, List.drop_one, List.tail_cons, hbdef, words_cons (hbdef ▸ hkey)]
  refine ⟨⟨b.length + 1, fun y => ?_⟩, ?_⟩
  · rw [hkeys, firstKey, ← hbdef, ← keyLoop_eq b.length (word b) (afterWord b) y hlen, ← List.append_assoc,
      word_append_afterWord]
  · rw [show (lineWords p).drop 2 = ((lineWords p).drop 1).drop 1 by rw [List.drop_drop], hwords, hkeys,
      List.drop_one, List.tail_cons, List.cons.injEq, ← nextKeys_eq_words_iff hlen]
    exact and_iff_right rfl

/-- Two keys. -/
def getTwo : Bytes := ascii "get x y\r\n"

theorem multiGet_two : (parse 0 ⟨[], false⟩ getTwo).2.valid = true ∧
    (parse 0 ⟨[], false⟩ getTwo).2.keys = (lineWords getTwo).drop 1 :=
  ⟨by decide, (multiGet_iff 0 ⟨[], false⟩ getTwo (r := (parse 0 ⟨[], false⟩ getTwo).2) rfl (by decide)
    (.inl (by decide))).2.mpr (by decide)⟩

/-- Three keys, with a CR in the second: it is cut, and the third is not visited. -/
def getCut : Bytes := ascii "get x y\rz k\r\n"

theorem keys_lost_after_cr : (parse 0 ⟨[], false⟩ getCut).2.valid = true ∧
    (lineWords getCut).drop 1 = [ascii "x", ascii "y\rz", ascii "k"] ∧
    ∀ y, keyLoop 13 (firstKey getCut y) = some [ascii "x", ascii "y"] := by
  refine ⟨by decide, by decide, fun y => ?_⟩
  exact keyLoop_eq 12 (ascii "x") (ascii " y\rz k") y (by decide)

end Yrmcds.Memcache.TextRequest
