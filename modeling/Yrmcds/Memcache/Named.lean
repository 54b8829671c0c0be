/-
  Stored keys are not empty (src/memcache/memcache.cpp, both `parse` functions).

  The hash map takes any key, and Keys would send an empty one in a packet that looks like the end of its
  answer.  What keeps empty keys out are the PARSERS: a binary request that can create an object is
  Invalid without a key, and the text parser reads a key as a word, of one byte at least.  So the property
  is one of runs whose commands come from the parsers, which is where all commands come from.
-/
import Yrmcds.Memcache.Contents
import Yrmcds.Memcache.Receive

namespace Yrmcds.Memcache

open BigEndian Run

/-- The command is what the receive job has found at the head of some buffer. -/
def Cmd.Received (c : Cmd) : Prop := ∃ now e head n, nextRequest now e head = some (n, c)

/-! ## Binary requests -/

namespace BinaryRequest

variable {now : Int} {p : Bytes}

theorem status_of_creates {r : BinaryRequest} (h : (Cmd.bin r).creates = true) : r.status = .OK := by
  unfold Cmd.creates at h
  dsimp only at h
  cases hcmd : r.command with
  | Set | SetQ | Add | AddQ | Increment | IncrementQ | Decrement | DecrementQ =>
    rw [hcmd] at h
    exact eq_of_beq h
  | _ => rw [hcmd] at h; cases h

/-- Without a key a request that can create an object keeps the status it had. -/
theorem parseExtras_named {K X D : Nat} {r : BinaryRequest} (hst : r.status ≠ .OK)
    (hc : (Cmd.bin (parseExtras now p K X D r)).creates = true) : K ≠ 0 := by
  rintro rfl
  cases hcmd : r.command with
  | Set | SetQ | Add | AddQ | Increment | IncrementQ | Decrement | DecrementQ =>
    have hsame : parseExtras now p 0 X D r = r := by
      unfold parseExtras
      rw [hcmd]
      exact if_pos (.inr (.inl rfl))
    rw [hsame] at hc
    exact hst (status_of_creates hc)
  -- the command stays what it is, and creates nothing
  | Quit | QuitQ | Version | Noop | UnlockAll | UnlockAllQ | Unknown | raw _ =>
    unfold parseExtras Cmd.creates at hc
    rw [hcmd] at hc
    cases hc
  | _ =>
    unfold parseExtras Cmd.creates at hc
    rw [hcmd] at hc
    dsimp only at hc
    split_ifs at hc <;> simp [hcmd] at hc

/-- **A complete request that can create an object has a key.** -/
theorem parse_named (hn : (parse now p).length ≠ 0) (hc : (Cmd.bin (parse now p)).creates = true) :
    (parse now p).key ≠ [] := by
  obtain ⟨hhdr, hlen⟩ := (complete_iff now p).mp hn
  unfold parse at hc ⊢
  rw [if_neg (by omega)] at hc ⊢
  dsimp only at hc ⊢
  rw [if_neg (by omega)] at hc ⊢
  by_cases hk : ntoh16 p 2 > MAX_KEY_LENGTH
  · rw [dif_pos hk] at hc
    exact nomatch status_of_creates hc
  rw [dif_neg hk] at hc ⊢
  by_cases hx : (ntoh32 p 8).toNat < ntoh16 p 2 + (p.getD 4 0).toNat
  · rw [if_pos hx] at hc
    exact nomatch status_of_creates hc
  rw [if_neg hx] at hc ⊢
  by_cases hd : (ntoh32 p 8).toNat - ntoh16 p 2 - (p.getD 4 0).toNat > MAX_REQUEST_LENGTH
  · rw [if_pos hd] at hc
    exact nomatch status_of_creates hc
  rw [if_neg hd] at hc ⊢
  have hK := parseExtras_named (show BinaryStatus.Invalid ≠ .OK by decide) hc
  rw [(parseExtras_frame ..).2.1]
  -- the key lies in the request, so the slice is as long as the header says
  show slice (BINARY_HEADER_SIZE + (p.getD 4 0).toNat) (ntoh16 p 2) p ≠ []
  rw [← List.length_pos_iff, slice, List.length_take, List.length_drop]
  omega

end BinaryRequest

/-! ## Text requests -/

namespace TextRequest

/-- Not a complete storage request, or one with a key. -/
def Header.Named : Header → Prop
  | .done r => (Cmd.text r).creates = false
  | .data r _ => r.key ≠ []

section

variable {now : Int} {u : Around} {isCas : Bool} {r : TextRequest} {b : Bytes}

theorem not_creates_of_invalid (h : r.valid = false) : (Cmd.text r).creates = false := by
  show (r.valid && (r.command == .SET || r.command == .ADD)) = false
  rw [h, Bool.false_and]

theorem Keeps.named {x : Header} (h : Keeps r x.request) (hv : r.valid = false) (hk : r.key ≠ []) :
    x.Named := by
  cases x with
  | done r' => exact not_creates_of_invalid (h.valid.trans hv)
  | data r' n => exact fun hnil => hk (h.key.symm.trans hnil)

theorem parseStorage_named (hv : r.valid = false) : (parseStorage now u isCas r b).Named := by
  unfold parseStorage
  dsimp only
  split_ifs with h1 h2
  · exact not_creates_of_invalid hv
  · exact not_creates_of_invalid hv
  · split
    · exact not_creates_of_invalid hv
    · exact parseStorageSize_keeps.named hv (word_skip_ne_nil fun h => h1 (.inl h))

/-- Only SET and ADD create objects. -/
theorem not_creates_of_command {c : TextCommand} (h : r.command = c) (hset : c ≠ .SET) (hadd : c ≠ .ADD) :
    (Cmd.text r).creates = false := by
  show (r.valid && (r.command == .SET || r.command == .ADD)) = false
  rw [h, beq_eq_false_iff_ne.mpr hset, beq_eq_false_iff_ne.mpr hadd]
  exact Bool.and_false _

theorem parseCommand_named (c : TextCommand) : (parseCommand now u c b).Named := by
  cases c with
  | PREPEND | REPLACE | APPEND | SET | ADD | CAS => exact parseStorage_named rfl
  | UNLOCK_ALL | VERSION | SLABS | QUIT | UNKNOWN => rfl
  | FLUSH_ALL => exact not_creates_of_command parseFlushall_command (by decide) (by decide)
  | VERBOSITY => exact not_creates_of_command parseVerbosity_command (by decide) (by decide)
  | DELETE => exact not_creates_of_command parseDelete_command (by decide) (by decide)
  | LOCK | UNLOCK => exact not_creates_of_command parseLock_command (by decide) (by decide)
  | TOUCH => exact not_creates_of_command parseTouch_command (by decide) (by decide)
  | STATS => exact not_creates_of_command parseStats_command (by decide) (by decide)
  | GET | GETS => exact not_creates_of_command parseGet_command (by decide) (by decide)
  | INCR | DECR => exact not_creates_of_command parseIncdec_command (by decide) (by decide)
  | KEYS => exact not_creates_of_command parseKeys_command (by decide) (by decide)

/-- **A complete request that can create an object has a key.** -/
theorem parse_named {p : Bytes} (hn : (parse now u p).1 ≠ 0)
    (hc : (Cmd.text (parse now u p).2).creates = true) : (parse now u p).2.key ≠ [] := by
  unfold parse at hn hc ⊢
  cases hs : splitLine p with
  | none => rw [hs] at hn; exact absurd rfl hn
  | some lr =>
    obtain ⟨line, rest⟩ := lr
    simp only [hs] at hn hc ⊢
    have hnamed : (parseLine now ⟨rest ++ u.after, u.erange⟩ line).Named := by
      unfold parseLine
      split_ifs
      · rfl
      · exact parseCommand_named _
    cases hline : parseLine now ⟨rest ++ u.after, u.erange⟩ line with
    | done r =>
      rw [hline] at hnamed hc
      exact absurd hc (by rw [show (Cmd.text r).creates = false from hnamed]; decide)
    | data r n =>
      simp only [hline] at hn hnamed ⊢
      by_cases hr : rest.length < n + 2
      · rw [if_pos hr] at hn
        exact absurd rfl hn
      · rw [if_neg hr]
        unfold checkData
        split_ifs <;> exact hnamed

end

end TextRequest

/-! ## Runs -/

/-- What is received is a request that a parser has found complete. -/
theorem Cmd.Received.parsed {c : Cmd} (h : c.Received) :
    (∃ now p, ¬ (BinaryRequest.parse now p).length = 0 ∧ c = .bin (BinaryRequest.parse now p)) ∨
      ∃ now u p, ¬ (TextRequest.parse now u p).1 = 0 ∧ c = .text (TextRequest.parse now u p).2 := by
  obtain ⟨now, e, head, n, hnext⟩ := h
  unfold nextRequest at hnext
  split_ifs at hnext
  · obtain ⟨x, hx, heq⟩ := Option.map_eq_some_iff.mp hnext
    unfold nextBinary at hx
    dsimp only at hx
    split_ifs at hx with hl
    cases hx
    cases heq
    exact .inl ⟨_, _, hl, rfl⟩
  · unfold nextText at hnext
    dsimp only at hnext
    split_ifs at hnext with hl
    cases hnext
    exact .inr ⟨_, _, _, hl, rfl⟩

theorem Cmd.Received.key_ne_nil {c : Cmd} (h : c.Received) (hc : c.creates = true) :
    (match c with | .bin r => r.key | .text r => r.key) ≠ [] := by
  rcases h.parsed with ⟨now, p, hl, rfl⟩ | ⟨now, u, p, hl, rfl⟩
  · exact BinaryRequest.parse_named hl hc
  · exact TextRequest.parse_named hl hc

/-- No object is stored under an empty key. -/
def Server.Named (s : Server) : Prop := Every (fun k _ => k ≠ []) s.hash

/-- **Step.** -/
theorem Server.Named.step {s s' : Server} {e : Event} (h : s.Named)
    (he : ∀ c slaves r, e = .cmd c slaves r → r.Received) (hs : s.step e = .ok s') : s'.Named := by
  refine Server.step_every ⟨fun _ h => h, fun _ h => h, fun h => h, fun h => h⟩ h ?_ hs
  intro c slaves r heq conn _ k o hput
  have hrec := he c slaves r heq
  -- what is put under a key of the map is named already, and a new object has the key of the request
  cases hput with
  | binSet hp _ => exact h _ _ hp
  | binNew hc _ => exact hrec.key_ne_nil hc
  | textSet hp _ => exact h _ _ hp
  | textNew hc _ => exact hrec.key_ne_nil hc
  | number hp _ => exact h _ _ hp
  | initial hc => exact hrec.key_ne_nil hc
  | binConcat _ _ hp _ => exact h _ _ hp
  | textConcat _ _ hp _ => exact h _ _ hp
  | textCas _ _ hp _ => exact h _ _ hp

/-- **Run.** -/
theorem Server.Named.run {s s' : Server} {es : List Event} (h : s.Named)
    (hes : ∀ c slaves r, Event.cmd c slaves r ∈ es → r.Received)
    (hrun : Run.run Server.step s es = .ok s') : s'.Named := by
  refine run_preserves_of_mem (C := fun e => ∀ c slaves r, e = .cmd c slaves r → r.Received)
    (fun s e s' h he hs => h.step he hs) ?_ h hrun
  intro e he c slaves r heq
  exact hes c slaves r (heq ▸ he)

end Yrmcds.Memcache
