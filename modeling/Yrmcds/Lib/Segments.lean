/-
  Reading requests from a stream that arrives in pieces.

  A `Reader` looks at what has arrived and says whether a whole request stands at its front: `some
  (n, a)` is the request `a`, which takes `n` elements; `none` asks for more.  It may also look at an
  ENVIRONMENT (the memory behind the buffer, a global variable), which is different at every piece; the
  law `view` says that what has arrived behind a point can pass for environment just as well.

  `receive` is the usual loop around a reader: append the piece to what was left, execute every whole
  request (`drain`), keep the rest; give up if the rest is too long.  A request may STOP the connection:
  what is in the buffer is still executed, but nothing more is received.

  When does the sequence of requests not depend on the pieces?  `Reads p xs` is the answer: at every
  request boundary the reader settles on one request, whatever the environment and however much has
  arrived, and no request comes soon after one that stops.  `run_of_reads` says that it suffices,
  `Drained.reads` that it is needed; together they are `uniform_iff`.
-/
import Mathlib.Data.List.Infix
import Mathlib.Data.Nat.Find
import Mathlib.Tactic.Common

namespace Segments

/-- A reader of requests of type `α` from a stream of `β`s, in environments of type `ε`. -/
structure Reader (ε β α : Type) where
  next : ε → List β → Option (Nat × α)
  stop : α → Bool
  /-- A request is not empty. -/
  pos : ∀ {e b n a}, next e b = some (n, a) → 0 < n
  /-- A request is whole. -/
  le : ∀ {e b n a}, next e b = some (n, a) → n ≤ b.length
  /-- Elements that have arrived can pass for environment. -/
  view : ∀ e q y, ∃ e', next e' q = (next e (q ++ y)).filter fun x => x.1 ≤ q.length

/-- A piece of the stream, and the environment of the calls it causes. -/
structure Piece (ε β : Type) where
  data : List β
  env : ε

/-- The receiving side of a connection: the requests executed, what was left, and whether it is open. -/
structure State (β α : Type) where
  done : List α := []
  buf : List β := []
  live : Bool := true

variable {ε β α : Type}

/-- Many parsers report the length 0 until a request is whole.  Part of a request then shows nothing, and
    a whole one shows itself, whatever follows. -/
theorem view_of_parse {parse : List β → α} {len : α → Nat}
    (hfit : ∀ p, len (parse p) ≠ 0 → len (parse p) ≤ p.length)
    (happ : ∀ q y, len (parse q) ≠ 0 → parse (q ++ y) = parse q)
    (hwhole : ∀ q y, len (parse (q ++ y)) ≠ 0 → len (parse (q ++ y)) ≤ q.length → len (parse q) ≠ 0)
    (q y : List β) :
    (if len (parse q) = 0 then none else some (len (parse q), parse q))
      = (if len (parse (q ++ y)) = 0 then none else some (len (parse (q ++ y)), parse (q ++ y))).filter
          fun x => x.1 ≤ q.length := by
  by_cases hq : len (parse q) = 0
  · rw [if_pos hq]
    by_cases hy : len (parse (q ++ y)) = 0
    · rw [if_pos hy]
      rfl
    · -- the whole request is longer than the part
      have hlong : ¬ len (parse (q ++ y)) ≤ q.length := fun hle => hwhole q y hy hle hq
      rw [if_neg hy, Option.filter_some, if_neg (by simpa using hlong)]
  · have hle := hfit q hq
    rw [if_neg hq, happ q y hq, if_neg hq, Option.filter_some, if_pos (by simpa using hle)]

/-! ## The loop -/

/-- Read requests from `b`, at most `k` of them: the requests and the rest. -/
def drainN (next : List β → Option (Nat × α)) : Nat → List β → List α × List β
  | 0, b => ([], b)
  | k + 1, b =>
    match next b with
    | none => ([], b)
    | some (n, a) => (a :: (drainN next k (b.drop n)).1, (drainN next k (b.drop n)).2)

/-- Read all requests from `b`. -/
def drain (next : List β → Option (Nat × α)) (b : List β) : List α × List β := drainN next b.length b

namespace Reader

variable (R : Reader ε β α) (limit : Nat)

variable (s : State β α)

/-- Receive a piece.  `limit` is the longest rest that is kept. -/
def receive (c : Piece ε β) : State β α :=
  if s.live then
    let r := drain (R.next c.env) (s.buf ++ c.data)
    if r.2.length > limit ∨ r.1.any R.stop then { done := s.done ++ r.1, buf := [], live := false }
    else { done := s.done ++ r.1, buf := r.2, live := true }
  else s

/-- A whole stream, piece by piece. -/
def run (cs : List (Piece ε β)) : State β α := cs.foldl (R.receive limit) s

variable {R limit}

theorem next_nil (e : ε) : R.next e [] = none := by
  cases h : R.next e [] with
  | none => rfl
  | some x =>
    have hpos := R.pos h
    have hle := R.le h
    simp only [List.length_nil] at hle
    omega

variable {b p q y : List β} {e : ε} {n : Nat} {a : α} {xs : List α} {cs : List (Piece ε β)}

/-- More rounds than elements change nothing. -/
theorem drainN_eq_drain (e : ε) {k : Nat} (hk : b.length ≤ k) :
    drainN (R.next e) k b = drain (R.next e) b := by
  unfold drain
  induction k using Nat.strong_induction_on generalizing b with
  | _ k ih =>
    cases hn : R.next e b with
    | none => cases k <;> cases hb : b.length <;> simp [drainN, hn]
    | some x =>
      obtain ⟨n, a⟩ := x
      have hpos := R.pos hn
      have hle := R.le hn
      obtain ⟨k, rfl⟩ : ∃ j, k = j + 1 := ⟨k - 1, by omega⟩
      obtain ⟨l, hl⟩ : ∃ l, b.length = l + 1 := ⟨b.length - 1, by omega⟩
      have hdrop : (b.drop n).length = b.length - n := List.length_drop
      have h1 := ih k (by omega) (b := b.drop n) (by omega)
      have h2 := ih l (by omega) (b := b.drop n) (by omega)
      rw [hl]
      simp only [drainN, hn, h1, h2]

theorem drain_of_none (h : R.next e b = none) : drain (R.next e) b = ([], b) := by
  unfold drain
  cases b.length with
  | zero => rfl
  | succ k => simp only [drainN, h]

theorem drain_of_some (h : R.next e b = some (n, a)) :
    drain (R.next e) b
      = (a :: (drain (R.next e) (b.drop n)).1, (drain (R.next e) (b.drop n)).2) := by
  have hpos := R.pos h
  have hle := R.le h
  obtain ⟨l, hl⟩ : ∃ l, b.length = l + 1 := ⟨b.length - 1, by omega⟩
  have hdrop : (b.drop n).length ≤ l := by rw [List.length_drop]; omega
  conv_lhs => unfold drain
  rw [hl]
  simp only [drainN, h]
  rw [drainN_eq_drain e hdrop]

/-- All that could be read has been read. -/
theorem next_drain (e : ε) (b : List β) :
    R.next e (drain (R.next e) b).2 = none ∧ (drain (R.next e) b).2.length ≤ b.length := by
  induction hk : b.length using Nat.strong_induction_on generalizing b with
  | _ k ih =>
    cases hn : R.next e b with
    | none =>
      rw [drain_of_none hn]
      exact ⟨hn, Nat.le_of_eq hk⟩
    | some x =>
      obtain ⟨n, a⟩ := x
      have hpos := R.pos hn
      have hle := R.le hn
      have hlen : (b.drop n).length = b.length - n := List.length_drop
      rw [drain_of_some hn]
      obtain ⟨hnone, hshort⟩ := ih (b.drop n).length (by omega) (b.drop n) rfl
      exact ⟨hnone, by dsimp only; omega⟩

/-- A request can be read from its own elements alone. -/
theorem next_take (h : R.next e b = some (n, a)) :
    ∃ e', R.next e' (b.take n) = some (n, a) := by
  obtain ⟨e', he'⟩ := R.view e (b.take n) (b.drop n)
  rw [List.take_append_drop, h] at he'
  refine ⟨e', he'.trans ?_⟩
  have hlen : (b.take n).length = n := List.length_take_of_le (R.le h)
  simp [hlen]

/-! ## What every cutting reads -/

/-- At `p` the reader settles on the request `a` of length `n`: any part of `p` shows it, in any
    environment, as soon as it is whole. -/
structure Settles (R : Reader ε β α) (p : List β) (n : Nat) (a : α) : Prop where
  le : n ≤ p.length
  whole : ∀ e q, q <+: p → n ≤ q.length → R.next e q = some (n, a)
  part : ∀ e q, q <+: p → q.length < n → R.next e q = none

/-- No part of `p` shows a request. -/
def Waits (R : Reader ε β α) (p : List β) : Prop := ∀ e q, q <+: p → R.next e q = none

/-- No part of `p` with less than `M` elements shows a request. -/
def Quiet (R : Reader ε β α) (M : Nat) (p : List β) : Prop :=
  ∀ e q, q <+: p → q.length < M → R.next e q = none

/-- `Reads M p xs` — from `p` the requests `xs` are read, whatever the pieces of at most `M` elements. -/
inductive Reads (R : Reader ε β α) (M : Nat) : List β → List α → Prop
  | wait {p : List β} : R.Waits p → Reads R M p []
  | item {p : List β} {n : Nat} {a : α} {xs : List α} :
      R.Settles p n a → R.stop a = false → Reads R M (p.drop n) xs → Reads R M p (a :: xs)
  | last {p : List β} {n : Nat} {a : α} :
      R.Settles p n a → R.stop a = true → R.Quiet M (p.drop n) → Reads R M p [a]

/-- No request of `p` is longer than `limit`, as read in the environment `e`. -/
inductive Bounded (R : Reader ε β α) (e : ε) (limit : Nat) : List β → Prop
  | wait {p : List β} : R.next e p = none → p.length ≤ limit → Bounded R e limit p
  | item {p : List β} {n : Nat} {a : α} :
      R.next e p = some (n, a) → n ≤ limit → (R.stop a = false → Bounded R e limit (p.drop n)) →
      Bounded R e limit p

variable {M : Nat} {e0 : ε}

namespace Bounded

theorem le_of_waits {p : List β} (h : R.Bounded e0 limit p) (hw : R.Waits p) : p.length ≤ limit := by
  cases h with
  | wait _ hle => exact hle
  | item hn => cases (hw e0 p (List.prefix_refl p)).symm.trans hn

theorem of_settles {p : List β} {n : Nat} {a : α} (h : R.Bounded e0 limit p) (hs : R.Settles p n a) :
    n ≤ limit ∧ (R.stop a = false → R.Bounded e0 limit (p.drop n)) := by
  have hwhole := hs.whole e0 p (List.prefix_refl p) hs.le
  cases h with
  | wait hn => cases hwhole.symm.trans hn
  | item hn hle hrest =>
    cases hwhole.symm.trans hn
    exact ⟨hle, hrest⟩

end Bounded

theorem Settles.of_part (h : R.Settles p n a) (hq : q <+: p) (hn : n ≤ q.length) : R.Settles q n a where
  le := hn
  whole := fun e q' hq' => h.whole e q' (hq'.trans hq)
  part := fun e q' hq' => h.part e q' (hq'.trans hq)

/-- A part of a request waits for the rest. -/
theorem Settles.waits (h : R.Settles p n a) (hq : q <+: p) (hn : q.length < n) : R.Waits q :=
  fun e q' hq' => h.part e q' (hq'.trans hq) (Nat.lt_of_le_of_lt hq'.length_le hn)

/-- What holds of a stream holds of what has arrived of it. -/
theorem Reads.of_part (h : R.Reads M p xs) (hb : R.Bounded e0 limit p)
    (hq : q <+: p) : (∃ ys, R.Reads M q ys) ∧ R.Bounded e0 limit q := by
  -- a part that shows no request yet
  have hwait : ∀ {q : List β}, R.Waits q → q.length ≤ limit →
      (∃ ys, R.Reads M q ys) ∧ R.Bounded e0 limit q := fun hw hle =>
    ⟨⟨[], .wait hw⟩, .wait (hw e0 _ (List.prefix_refl _)) hle⟩
  induction h generalizing q with
  | wait hw =>
    have hle := hb.le_of_waits hw
    exact hwait (fun e q' hq' => hw e q' (hq'.trans hq)) (le_trans hq.length_le hle)
  | @item p n a xs hs hstop _ ih =>
    obtain ⟨hle, hrest⟩ := hb.of_settles hs
    rcases Nat.lt_or_ge q.length n with hn | hn
    · exact hwait (hs.waits hq hn) (by omega)
    · have hs' := hs.of_part hq hn
      obtain ⟨⟨ys, hys⟩, hb'⟩ := ih (hrest hstop) (hq.drop n)
      exact ⟨⟨a :: ys, .item hs' hstop hys⟩,
        .item (hs'.whole e0 q (List.prefix_refl q) hn) hle fun _ => hb'⟩
  | @last p n a hs hstop hquiet =>
    obtain ⟨hle, _⟩ := hb.of_settles hs
    rcases Nat.lt_or_ge q.length n with hn | hn
    · exact hwait (hs.waits hq hn) (by omega)
    · have hs' := hs.of_part hq hn
      refine ⟨⟨[a], .last hs' hstop fun e q' hq' => hquiet e q' (hq'.trans (hq.drop n))⟩, ?_⟩
      exact .item (hs'.whole e0 q (List.prefix_refl q) hn) hle fun h => by rw [hstop] at h; cases h

/-! ## Readers that do not look around -/

/-- On the parts of `p` the environment makes no difference. -/
def Blind (R : Reader ε β α) (p : List β) : Prop := ∀ q, q <+: p → ∀ e e', R.next e q = R.next e' q

/-- A part shows the request of the whole, once it is there. -/
theorem Blind.next_eq (h : R.Blind p) (hq : q <+: p) (e e0 : ε) :
    R.next e q = (R.next e0 p).filter fun x => x.1 ≤ q.length := by
  obtain ⟨y, rfl⟩ := hq
  obtain ⟨e', he'⟩ := R.view e0 q y
  rw [h q (List.prefix_append q y) e e', he']

theorem Blind.settles (h : R.Blind p) (hn : R.next e0 p = some (n, a)) :
    R.Settles p n a where
  le := R.le hn
  whole := by
    intro e q hq hle
    rw [h.next_eq hq e e0, hn, Option.filter_some, if_pos (by simpa using hle)]
  part := by
    intro e q hq hlt
    rw [h.next_eq hq e e0, hn, Option.filter_some, if_neg (by simpa using hlt)]

theorem Blind.waits (h : R.Blind p) (hn : R.next e0 p = none) : R.Waits p := by
  intro e q hq
  rw [h.next_eq hq e e0, hn, Option.filter_none]

/-- A reader that never looks around and never stops settles everywhere. -/
theorem reads_of_blind (hblind : ∀ p, R.Blind p) (hstop : ∀ a, R.stop a = false) (e0 : ε) (p : List β) :
    ∃ xs, R.Reads M p xs := by
  induction hk : p.length using Nat.strong_induction_on generalizing p with
  | _ k ih =>
    cases hn : R.next e0 p with
    | none => exact ⟨[], .wait ((hblind p).waits hn)⟩
    | some x =>
      obtain ⟨n, a⟩ := x
      have hpos := R.pos hn
      have hle := R.le hn
      obtain ⟨xs, hxs⟩ := ih (p.drop n).length (by rw [List.length_drop]; omega) (p.drop n) rfl
      exact ⟨a :: xs, .item ((hblind p).settles hn) (hstop a) hxs⟩

/-- For such a reader, reading in two steps is reading in one. -/
theorem drain_append (hblind : ∀ p, R.Blind p) (e : ε) (b c : List β) :
    drain (R.next e) (b ++ c) =
      ((drain (R.next e) b).1 ++ (drain (R.next e) ((drain (R.next e) b).2 ++ c)).1,
        (drain (R.next e) ((drain (R.next e) b).2 ++ c)).2) := by
  induction hk : b.length using Nat.strong_induction_on generalizing b with
  | _ k ih =>
    cases hn : R.next e b with
    | none => rw [drain_of_none hn]; rfl
    | some x =>
      obtain ⟨n, a⟩ := x
      have hpos := R.pos hn
      have hle := R.le hn
      have hsettles : R.next e (b ++ c) = some (n, a) := by
        have := (hblind (b ++ c)).next_eq ( List.prefix_append b c) e e
        rw [hn] at this
        exact (Option.filter_eq_some_iff.mp this.symm).1
      have hrest := ih (b.drop n).length (by rw [List.length_drop]; omega) (b.drop n) rfl
      rw [drain_of_some hsettles, drain_of_some hn, List.drop_append_of_le_length hle, hrest]
      rfl

/-! ## Any pieces will do -/

/-- The pieces `cs` make up `b`; each has between 1 and `M` elements. -/
structure Cuts (M : Nat) (b : List β) (cs : List (Piece ε β)) : Prop where
  flatten : (cs.map Piece.data).flatten = b
  ne : ∀ c ∈ cs, c.data ≠ []
  le : ∀ c ∈ cs, c.data.length ≤ M

theorem Cuts.nil : Cuts M [] ([] : List (Piece ε β)) :=
  ⟨rfl, fun _ h => absurd h List.not_mem_nil, fun _ h => absurd h List.not_mem_nil⟩

theorem Cuts.append {b' : List β} {cs' : List (Piece ε β)} (h : Cuts M b cs) (h' : Cuts M b' cs') :
    Cuts M (b ++ b') (cs ++ cs') where
  flatten := by rw [List.map_append, List.flatten_append, h.flatten, h'.flatten]
  ne := fun c hc => (List.mem_append.mp hc).elim (h.ne c) (h'.ne c)
  le := fun c hc => (List.mem_append.mp hc).elim (h.le c) (h'.le c)

theorem Cuts.singleton (e : ε) {d : List β} (hne : d ≠ []) (hle : d.length ≤ M) :
    Cuts M d [⟨d, e⟩] where
  flatten := by simp
  ne := fun c hc => by rw [List.mem_singleton.mp hc]; exact hne
  le := fun c hc => by rw [List.mem_singleton.mp hc]; exact hle

theorem Cuts.of_cons {c : Piece ε β} (h : Cuts M b (c :: cs)) :
    ∃ y, b = c.data ++ y ∧ Cuts M y cs := by
  refine ⟨(cs.map Piece.data).flatten, ?_, rfl, ?_, ?_⟩
  · rw [← h.flatten, List.map_cons, List.flatten_cons]
  · exact fun c' hc' => h.ne c' (List.mem_cons_of_mem c hc')
  · exact fun c' hc' => h.le c' (List.mem_cons_of_mem c hc')

/-- A connection that is closed executes nothing. -/
theorem run_dead (hs : s.live = false) (cs : List (Piece ε β)) :
    R.run limit s cs = s := by
  induction cs with
  | nil => rfl
  | cons c cs ih =>
    have hc : R.receive limit s c = s := by
      unfold receive
      rw [hs]
      rfl
    show R.run limit (R.receive limit s c) cs = s
    rw [hc, ih]

/-- What is left over is not too long. -/
theorem Reads.length_le (h : R.Reads M p xs) (hb : R.Bounded e0 limit p)
    (hq : q <+: p) (hw : R.Waits q) : q.length ≤ limit := by
  -- a part that waits is shorter than the request it is a part of
  have hpart : ∀ {n : Nat} {a : α}, R.Settles p n a → q.length ≤ limit := fun {n a} hs => by
    have hle := (hb.of_settles hs).1
    rcases Nat.lt_or_ge q.length n with hn | hn
    · omega
    · cases (hw e0 q (List.prefix_refl q)).symm.trans (hs.whole e0 q hq hn)
  cases h with
  | wait hw' => exact le_trans hq.length_le (hb.le_of_waits hw')
  | item hs => exact hpart hs
  | last hs => exact hpart hs

/-- What is known after a piece has been read, with `y` still to come and `xs` to be read in all: either
    the requests read so far are a first part of `xs` and the rest waits, or all of `xs` has been read
    and the connection is closed. -/
inductive After (R : Reader ε β α) (M : Nat) (e0 : ε) (limit : Nat) (y : List β) (xs : List α) :
    List α × List β → Prop
  | opened {zs ys : List α} {r : List β} : xs = zs ++ ys → zs.any R.stop = false → R.Reads M (r ++ y) ys →
      R.Bounded e0 limit (r ++ y) → R.Waits r → After R M e0 limit y xs (zs, r)
  | closed {r : List β} : xs.any R.stop = true → After R M e0 limit y xs (xs, r)

theorem After.of_waits (h : R.Reads M (b ++ y) xs) (hb : R.Bounded e0 limit (b ++ y)) (hw : R.Waits b) (e : ε) :
    R.After M e0 limit y xs (drain (R.next e) b) := by
  rw [drain_of_none (hw e b (List.prefix_refl b))]
  exact .opened rfl rfl h hb hw

/-- A request that is whole now was not whole before the last piece. -/
theorem Settles.lt_of_waits (h : R.Settles p n a) (hq : q <+: p) (hw : R.Waits q) (e : ε) : q.length < n := by
  by_contra hn
  cases (hw e q (List.prefix_refl q)).symm.trans (h.whole e q hq (Nat.le_of_not_lt hn))

theorem waits_nil : R.Waits [] := fun e q hq => by rw [List.prefix_nil.mp hq]; exact next_nil e

/-- **One piece.**  `q` was left over and `d` has arrived; `y` is still to come. -/
theorem drain_of_reads (h : R.Reads M p xs) (hb : R.Bounded e0 limit p)
    (e : ε) {d : List β} (hp : p = (q ++ d) ++ y) (hq : R.Waits q) (hd : d.length ≤ M) :
    R.After M e0 limit y xs (drain (R.next e) (q ++ d)) := by
  induction h generalizing q d with
  | @wait p hw =>
    subst hp
    exact .of_waits (.wait hw) hb (fun e' q' hq' => hw e' q' (hq'.trans (List.prefix_append _ y))) e
  | @item p n a xs hs hstop hxs ih =>
    have hpre : (q ++ d) <+: p := ⟨y, hp.symm⟩
    rcases Nat.lt_or_ge (q ++ d).length n with hn | hn
    · subst hp
      exact .of_waits (.item hs hstop hxs) hb (hs.waits hpre hn) e
    · -- after the request nothing is left of `q`
      have hqn := hs.lt_of_waits ((List.prefix_append q d).trans hpre) hq e
      have hdrop : (q ++ d).drop n = [] ++ d.drop (n - q.length) := by
        rw [List.drop_append, List.drop_eq_nil_of_le (Nat.le_of_lt hqn)]
      have hp' : p.drop n = ([] ++ d.drop (n - q.length)) ++ y := by
        rw [hp, List.drop_append_of_le_length hn, hdrop]
      have hd' : (d.drop (n - q.length)).length ≤ M := by rw [List.length_drop]; omega
      have hrest := ih ((hb.of_settles hs).2 hstop) hp' waits_nil hd'
      rw [drain_of_some (hs.whole e _ hpre hn), hdrop]
      generalize drain (R.next e) ([] ++ d.drop (n - q.length)) = r at hrest ⊢
      cases hrest with
      | opened hxs' hstop' hr hb' hw =>
        exact .opened (congrArg (a :: ·) hxs') (by simp [hstop, hstop']) hr hb' hw
      | closed hstop' => exact .closed (by simp [hstop'])
  | @last p n a hs hstop hquiet =>
    have hpre : (q ++ d) <+: p := ⟨y, hp.symm⟩
    rcases Nat.lt_or_ge (q ++ d).length n with hn | hn
    · subst hp
      exact .of_waits (.last hs hstop hquiet) hb (hs.waits hpre hn) e
    · -- fewer than `M` elements have arrived after the last request
      have hqn := hs.lt_of_waits ((List.prefix_append q d).trans hpre) hq e
      have hlen : ((q ++ d).drop n).length < M := by
        rw [List.length_drop]
        simp only [List.length_append] at hn ⊢
        omega
      rw [drain_of_some (hs.whole e _ hpre hn), drain_of_none (hquiet e _ (hpre.drop n) hlen)]
      exact .closed (by simp [hstop])

/-- **Any pieces will do.** -/
theorem run_of_reads (cs : List (Piece ε β)) : ∀ {p q y : List β} {xs zs : List α}, R.Reads M p xs →
    R.Bounded e0 limit p → p = q ++ y → R.Waits q → Cuts M y cs →
    (R.run limit { done := zs, buf := q, live := true } cs).done = zs ++ xs := by
  induction cs with
  | nil =>
    intro p q y xs zs h hb hp hq hcs
    -- the stream has ended: what is left waits, so nothing was to be read
    have hy : y = [] := hcs.flatten.symm
    rw [hy, List.append_nil] at hp
    subst hp
    cases h with
    | wait => exact (List.append_nil zs).symm
    | item hs => cases (hq e0 p (List.prefix_refl p)).symm.trans (hs.whole e0 p (List.prefix_refl p) hs.le)
    | last hs => cases (hq e0 p (List.prefix_refl p)).symm.trans (hs.whole e0 p (List.prefix_refl p) hs.le)
  | cons c cs ih =>
    intro p q y xs zs h hb hp hq hcs
    obtain ⟨y', hy, hcs'⟩ := hcs.of_cons
    have hafter : R.After M e0 limit y' xs (drain (R.next c.env) (q ++ c.data)) :=
      drain_of_reads h hb c.env (by rw [hp, hy, List.append_assoc]) hq (hcs.le c List.mem_cons_self)
    show (R.run limit (R.receive limit _ c) cs).done = zs ++ xs
    unfold receive
    simp only [if_true]
    generalize drain (R.next c.env) (q ++ c.data) = r at hafter ⊢
    cases hafter with
    | @opened us ys r hxs hstop hr hb' hw =>
      have hle := hr.length_le hb' (List.prefix_append r y') hw
      rw [if_neg (by simp only [hstop, Bool.false_eq_true, or_false]; omega), hxs, ← List.append_assoc]
      exact ih hr hb' rfl hw hcs'
    | closed hstop =>
      rw [if_pos (.inr hstop), run_dead _ rfl]

/-- The sequence of requests read from `b`, and from every first part of it, does not depend on the
    pieces. -/
def Uniform (R : Reader ε β α) (limit M : Nat) (b : List β) : Prop :=
  ∀ b', b' <+: b → ∀ cs cs', Cuts M b' cs → Cuts M b' cs' →
    (R.run limit {} cs).done = (R.run limit {} cs').done

theorem Reads.uniform (h : R.Reads M b xs) (hb : R.Bounded e0 limit b) :
    R.Uniform limit M b := by
  intro b' hb' cs cs' hcs hcs'
  obtain ⟨⟨ys, hys⟩, hbound⟩ := h.of_part hb hb'
  have hall : ∀ {cs : List (Piece ε β)}, Cuts M b' cs → (R.run limit {} cs).done = ys := by
    intro cs hcs
    have hrun : (R.run limit {} cs).done = [] ++ ys :=
      run_of_reads _ hys hbound (List.nil_append b').symm waits_nil hcs
    rwa [List.nil_append] at hrun
  rw [hall hcs, hall hcs']

/-! ## Nothing less will do -/

/-- The elements of `q` one by one. -/
def singles (e : ε) (q : List β) : List (Piece ε β) := q.map fun x => ⟨[x], e⟩

theorem cuts_singles (hM : 0 < M) (e : ε) (q : List β) : Cuts M q (singles e q) where
  flatten := by
    unfold singles
    rw [List.map_map]
    show (q.map fun x => [x]).flatten = q
    rw [← List.flatMap_def, List.flatMap_singleton']
  ne := fun c hc => by
    obtain ⟨x, _, rfl⟩ := List.mem_map.mp hc
    exact List.cons_ne_nil x []
  le := fun c hc => by
    obtain ⟨x, _, rfl⟩ := List.mem_map.mp hc
    exact hM

/-- Elements that complete no request are kept. -/
theorem run_singles (e : ε) (xs : List α) : ∀ q b : List β, R.Waits (b ++ q) → (b ++ q).length ≤ limit →
    R.run limit { done := xs, buf := b, live := true } (singles e q)
      = { done := xs, buf := b ++ q, live := true } := by
  intro q
  induction q with
  | nil =>
    intro b _ _
    rw [List.append_nil]
    rfl
  | cons x q ih =>
    intro b hw hle
    have hsplit : b ++ x :: q = (b ++ [x]) ++ q := by rw [List.append_assoc]; rfl
    rw [hsplit] at hw hle ⊢
    have hnone : R.next e (b ++ [x]) = none := hw e _ (List.prefix_append _ q)
    have hstep : R.receive limit { done := xs, buf := b, live := true } ⟨[x], e⟩
        = { done := xs, buf := b ++ [x], live := true } := by
      have hlen : (b ++ [x]).length ≤ limit := le_trans (List.prefix_append _ q).length_le hle
      unfold receive
      rw [if_pos rfl]
      simp only [drain_of_none hnone, List.append_nil]
      rw [if_neg (by simp only [List.any_nil, Bool.false_eq_true, or_false]; omega)]
    show R.run limit (R.receive limit _ _) (singles e q) = _
    rw [hstep]
    exact ih (b ++ [x]) hw hle

theorem run_append (cs cs' : List (Piece ε β)) :
    R.run limit s (cs ++ cs') = R.run limit (R.run limit s cs) cs' := List.foldl_append

/-- The shortest part of `p` that shows a request in some environment. -/
theorem exists_first (h : ¬ R.Waits p) :
    ∃ n e a, n ≤ p.length ∧ R.next e (p.take n) = some (n, a) ∧ ∀ m < n, R.Waits (p.take m) := by
  classical
  have hex : ∃ n, ∃ e, R.next e (p.take n) ≠ none := by
    unfold Waits at h
    push Not at h
    obtain ⟨e, q, hq, hne⟩ := h
    exact ⟨q.length, e, by rwa [← List.prefix_iff_eq_take.mp hq]⟩
  obtain ⟨e, hne⟩ := Nat.find_spec hex
  have hmin : ∀ m < Nat.find hex, ∀ e, R.next e (p.take m) = none := fun m hm e => by
    by_contra hne
    exact Nat.find_min hex hm ⟨e, hne⟩
  generalize Nat.find hex = n at hne hmin
  have hn : n ≤ p.length := by
    by_contra hlt
    refine hne (hmin p.length (Nat.lt_of_not_le hlt) e ▸ ?_)
    rw [List.take_length, List.take_of_length_le (by omega)]
  obtain ⟨⟨k, a⟩, ha⟩ := Option.ne_none_iff_exists'.mp hne
  have hk : k ≤ n := le_trans (R.le ha) (List.length_take_le n p)
  have hkn : k = n := by
    by_contra hne'
    obtain ⟨e', he'⟩ := next_take ha
    rw [List.take_take, Nat.min_eq_left hk, hmin k (by omega) e'] at he'
    cases he'
  refine ⟨n, e, a, hn, hkn ▸ ha, fun m hm e' q hq => ?_⟩
  have hq' := List.prefix_iff_eq_take.mp hq
  rw [List.take_take] at hq'
  rw [hq']
  exact hmin _ (Nat.lt_of_le_of_lt (Nat.min_le_right _ _) hm) e'

/-- If every environment shows the same request in the shortest part, the reader settles on it. -/
theorem settles_of_first (hn : n ≤ p.length)
    (hall : ∀ e, R.next e (p.take n) = some (n, a)) (hmin : ∀ m < n, R.Waits (p.take m)) :
    R.Settles p n a where
  le := hn
  whole := by
    intro e q hq hle
    -- what has arrived behind the request passes for environment
    obtain ⟨e', he'⟩ := R.view e (q.take n) (q.drop n)
    have htake : q.take n = p.take n := by
      rw [List.prefix_iff_eq_take.mp hq, List.take_take, Nat.min_eq_left hle]
    rw [List.take_append_drop, htake, hall e'] at he'
    exact (Option.filter_eq_some_iff.mp he'.symm).1
  part := by
    intro e q hq hlt
    rw [List.prefix_iff_eq_take.mp hq]
    exact hmin q.length hlt e _ (List.prefix_refl _)

/-- A part that shows no request in any environment is not too long. -/
theorem Bounded.length_le (h : R.Bounded e0 limit p) (hq : q <+: p) (hw : R.Waits q) :
    q.length ≤ limit := by
  cases h with
  | wait _ hle => exact le_trans hq.length_le hle
  | @item _ n a hn hle =>
    rcases Nat.lt_or_ge q.length n with hlt | hge
    · omega
    · obtain ⟨e', he'⟩ := next_take hn
      have htake : p.take n <+: q := by
        rw [List.prefix_iff_eq_take.mp hq, List.prefix_take_iff]
        exact ⟨ List.take_prefix n p, le_trans (List.length_take_le n p) hge⟩
      cases (hw e' _ htake).symm.trans he'

/-- A connection that has executed all of `b`, with nothing left over. -/
structure Drained (R : Reader ε β α) (limit M : Nat) (b : List β) (xs : List α)
    (cs : List (Piece ε β)) : Prop where
  cuts : Cuts M b cs
  run_eq : R.run limit {} cs = { done := xs, buf := [], live := true }

theorem receive_done (xs : List α) (b : List β) (e : ε) :
    (R.receive limit { done := xs, buf := [], live := true } ⟨b, e⟩).done
      = xs ++ (drain (R.next e) b).1 := by
  unfold receive
  rw [if_pos rfl]
  simp only [List.nil_append]
  split_ifs <;> rfl

/-- Everything up to the last element of the first request, one by one; then the last element, with
    `y` behind it, in the environment `e`. -/
theorem Drained.deliver
    (h : R.Drained limit M b xs cs) (hb : R.Bounded e0 limit p) (hpos : 0 < n) (hn : n ≤ p.length)
    (hmin : ∀ m < n, R.Waits (p.take m)) (hy : y.length < M) (e : ε) :
    ∃ cs', Cuts M (b ++ (p.take n ++ y)) cs' ∧ R.run limit {} cs'
      = R.receive limit { done := xs, buf := [], live := true } ⟨p.take n ++ y, e⟩ := by
  have hM : 0 < M := by omega
  have hwait := hmin (n - 1) (by omega)
  have hsplit : p.take n ++ y = p.take (n - 1) ++ (p.get ⟨n - 1, by omega⟩ :: y) := by
    have htake : p.take n = p.take (n - 1) ++ [p.get ⟨n - 1, by omega⟩] := by
      conv_lhs => rw [show n = (n - 1) + 1 by omega]
      rw [List.take_succ_eq_append_getElem (by omega)]
      rfl
    rw [htake, List.append_assoc]
    rfl
  refine ⟨cs ++ (singles e (p.take (n - 1)) ++ [⟨p.get ⟨n - 1, by omega⟩ :: y, e⟩]), ?_, ?_⟩
  · rw [hsplit]
    exact h.cuts.append ((cuts_singles hM e _).append
      (.singleton e (List.cons_ne_nil _ _) (by rw [List.length_cons]; omega)))
  · rw [run_append, h.run_eq, run_append,
      run_singles e xs _ [] hwait (hb.length_le ( List.take_prefix _ p) hwait), hsplit]
    rfl

/-- Reading exactly one request. -/
theorem drain_exact (h : R.next e (p.take n) = some (n, a)) :
    drain (R.next e) (p.take n) = ([a], []) := by
  rw [drain_of_some h, List.drop_eq_nil_of_le (List.length_take_le n p), drain_of_none (next_nil e)]

/-- The same requests, so the same first request. -/
theorem Drained.first_unique (h : R.Drained limit M b xs cs) (hM : 0 < M) (hb : R.Bounded e0 limit p)
    (hu : R.Uniform limit M (b ++ p)) (hn : n ≤ p.length) (hmin : ∀ m < n, R.Waits (p.take m)) {e1 : ε}
    (ha : R.next e1 (p.take n) = some (n, a)) (e : ε) : R.next e (p.take n) = some (n, a) := by
  obtain ⟨cs1, hc1, hr1⟩ := h.deliver (y := []) hb (R.pos ha) hn hmin hM e1
  obtain ⟨cs2, hc2, hr2⟩ := h.deliver (y := []) hb (R.pos ha) hn hmin hM e
  rw [List.append_nil] at hc1 hc2 hr1 hr2
  have hpre : b ++ p.take n <+: b ++ p := (List.prefix_append_right_inj b).mpr ( List.take_prefix n p)
  have hsame := hu _ hpre cs1 cs2 hc1 hc2
  rw [hr1, hr2, receive_done, receive_done, drain_exact ha] at hsame
  have hone := List.append_cancel_left hsame
  cases hx : R.next e (p.take n) with
  | none => rw [drain_of_none hx] at hone; cases hone
  | some x =>
    obtain ⟨k, c⟩ := x
    rw [drain_of_some hx] at hone
    obtain ⟨rfl, _⟩ := List.cons_eq_cons.mp hone
    have hk : k ≤ n := le_trans (R.le hx) (List.length_take_le n p)
    have hkn : k = n := by
      by_contra hne
      obtain ⟨e', he'⟩ := next_take hx
      rw [List.take_take, Nat.min_eq_left hk, hmin k (by omega) e' _ (List.prefix_refl _)] at he'
      cases he'
    rw [hkn]

/-- After a request that stops, a request in the same piece would be executed, and one in the next piece
    would not. -/
theorem Drained.quiet (h : R.Drained limit M b xs cs) (hM : 0 < M) (hb : R.Bounded e0 limit p)
    (hu : R.Uniform limit M (b ++ p)) (hmin : ∀ m < n, R.Waits (p.take m)) (hs : R.Settles p n a)
    (hstop : R.stop a = true) : R.Quiet M (p.drop n) := by
  have hwhole : ∀ e, R.next e (p.take n) = some (n, a) := fun e =>
    hs.whole e _ ( List.take_prefix n p) (by rw [List.length_take_of_le hs.le])
  intro e q hq hlt
  by_contra hne
  obtain ⟨⟨k, c⟩, hc⟩ := Option.ne_none_iff_exists'.mp hne
  have hpos := R.pos (hwhole e)
  have hqne : q ≠ [] := by
    rintro rfl
    exact hne (next_nil e)
  obtain ⟨cs1, hc1, hr1⟩ := h.deliver hb hpos hs.le hmin hlt e
  obtain ⟨cs2, hc2, hr2⟩ := h.deliver (y := []) hb hpos hs.le hmin hM e
  have hc2' : Cuts M (b ++ (p.take n ++ q)) (cs2 ++ [⟨q, e⟩]) := by
    have := hc2.append (.singleton e hqne (Nat.le_of_lt hlt))
    rwa [List.append_nil, List.append_assoc] at this
  have hpre : p.take n ++ q <+: p := by
    conv_rhs => rw [← List.take_append_drop n p]
    exact (List.prefix_append_right_inj _).mpr hq
  have hsame := hu _ ((List.prefix_append_right_inj b).mpr hpre) cs1 _ hc1 hc2'
  -- together: the request after the last one is executed
  have hboth : R.next e (p.take n ++ q) = some (n, a) :=
    hs.whole e _ hpre (by rw [List.length_append, List.length_take_of_le hs.le]; omega)
  have hdrop : (p.take n ++ q).drop n = q := by
    rw [List.drop_append_of_le_length (by rw [List.length_take_of_le hs.le]),
      List.drop_eq_nil_of_le (List.length_take_le n p), List.nil_append]
  rw [hr1, receive_done, drain_of_some hboth, hdrop, drain_of_some hc] at hsame
  -- apart: it is not
  have hdead : R.run limit {} cs2 = { done := xs ++ [a], buf := [], live := false } := by
    rw [hr2, List.append_nil]
    unfold receive
    simp only [if_true, List.nil_append, drain_exact (hwhole e)]
    rw [if_pos (.inr (by simp [hstop]))]
  rw [run_append, hdead, run_dead _ rfl] at hsame
  have := congrArg List.length hsame
  simp at this

/-- **Nothing less will do**, from a point where everything before has been executed. -/
theorem Drained.reads (hM : 0 < M) : ∀ {b : List β} {xs : List α} {cs : List (Piece ε β)},
    R.Drained limit M b xs cs → R.Bounded e0 limit p → R.Uniform limit M (b ++ p) →
    ∃ ys, R.Reads M p ys := by
  induction hk : p.length using Nat.strong_induction_on generalizing p with
  | _ k ih =>
    intro b xs cs h hb hu
    by_cases hw : R.Waits p
    · exact ⟨[], .wait hw⟩
    obtain ⟨n, e1, a, hn, ha, hmin⟩ := exists_first hw
    have hpos := R.pos ha
    have hs := settles_of_first hn (h.first_unique hM hb hu hn hmin ha) hmin
    cases hstop : R.stop a with
    | true => exact ⟨[a], .last hs hstop (h.quiet hM hb hu hmin hs hstop)⟩
    | false =>
      obtain ⟨cs', hc', hr'⟩ := h.deliver (y := []) hb hpos hn hmin hM e1
      rw [List.append_nil] at hc' hr'
      have hd : R.Drained limit M (b ++ p.take n) (xs ++ [a]) cs' := by
        refine ⟨hc', hr'.trans ?_⟩
        unfold receive
        simp only [if_true, List.nil_append, drain_exact ha]
        rw [if_neg (by simp [hstop])]
      have hlen : (p.drop n).length < k := by rw [List.length_drop]; omega
      have hu' : R.Uniform limit M ((b ++ p.take n) ++ p.drop n) := by
        rwa [List.append_assoc, List.take_append_drop]
      obtain ⟨ys, hys⟩ := ih _ hlen rfl hd ((hb.of_settles hs).2 hstop) hu'
      exact ⟨a :: ys, .item hs hstop hys⟩

/-- **When the pieces do not matter.** -/
theorem uniform_iff (hM : 0 < M) (hb : R.Bounded e0 limit b) :
    R.Uniform limit M b ↔ ∃ xs, R.Reads M b xs := by
  constructor
  · intro hu
    have hd : R.Drained limit M [] [] [] := ⟨.nil, rfl⟩
    exact hd.reads hM hb hu
  · rintro ⟨xs, hxs⟩
    exact hxs.uniform hb

/-! ## Jobs

  In a server with worker threads the loop is cut into JOBS: a job takes over what the last one has left,
  receives until nothing more is there, and leaves what it has not used.  Within a job the rest stands in
  the worker's own buffer; a connection that has been closed is noticed at the next call of `receive`. -/

/-- The loop of a job: `buf` is the worker's buffer; the pieces are what `receive` returns before it says
    that nothing more is there. -/
def jobLoop (R : Reader ε β α) (limit : Nat) : List (Piece ε β) → List β → State β α → List β × State β α
  | [], buf, s => if s.live then (buf, s) else ([], s)
  | c :: cs, buf, s =>
    if s.live then
      let r := drain (R.next c.env) (buf ++ c.data)
      let s := { s with done := s.done ++ r.1, live := ! r.1.any R.stop }
      if r.2.length > limit then ([], { s with live := false })
      else jobLoop R limit cs r.2 s
    else ([], s)

/-- A job: load what is pending, loop, and save what is left. -/
def job (R : Reader ε β α) (limit : Nat) (s : State β α) (cs : List (Piece ε β)) : State β α :=
  let r := R.jobLoop limit cs s.buf { s with buf := [] }
  { r.2 with buf := r.2.buf ++ r.1 }

theorem jobLoop_dead (cs : List (Piece ε β)) (buf : List β) {s : State β α} (h : s.live = false) :
    R.jobLoop limit cs buf s = ([], s) := by
  cases cs <;> (unfold jobLoop; rw [h]; rfl)

/-- The loop of a job is a run over its pieces. -/
theorem jobLoop_eq (cs : List (Piece ε β)) : ∀ (buf : List β) (xs : List α) {t : State β α},
    R.run limit ⟨xs, buf, true⟩ cs = t →
    R.jobLoop limit cs buf ⟨xs, [], true⟩ = (t.buf, ⟨t.done, [], t.live⟩) := by
  induction cs with
  | nil => rintro buf xs t rfl; rfl
  | cons c cs ih =>
    intro buf xs t ht
    change R.run limit (R.receive limit ⟨xs, buf, true⟩ c) cs = t at ht
    unfold receive at ht
    unfold jobLoop
    simp only [if_true] at ht ⊢
    generalize drain (R.next c.env) (buf ++ c.data) = r at ht ⊢
    by_cases hlong : r.2.length > limit
    · rw [if_pos (.inl hlong), run_dead _ rfl] at ht
      subst ht
      rw [if_pos hlong]
    · rw [if_neg hlong]
      cases hstop : r.1.any R.stop with
      | true =>
        rw [if_pos (.inr hstop), run_dead _ rfl] at ht
        subst ht
        exact jobLoop_dead cs r.2 rfl
      | false =>
        rw [if_neg (by rw [hstop]; simpa using hlong)] at ht
        exact ih r.2 _ ht

/-- Nothing is kept of a closed connection. -/
theorem run_buf (cs : List (Piece ε β)) : ∀ {s : State β α}, (s.live = false → s.buf = []) →
    (R.run limit s cs).live = false → (R.run limit s cs).buf = [] := by
  induction cs with
  | nil => exact fun hs => hs
  | cons c cs ih =>
    intro s hs
    refine ih (s := R.receive limit s c) ?_
    unfold receive
    dsimp only
    split_ifs
    · exact fun _ => rfl
    · exact fun h => (nomatch h)
    · exact hs

theorem job_eq (hs : s.live = false → s.buf = []) (cs : List (Piece ε β)) :
    R.job limit s cs = R.run limit s cs := by
  obtain ⟨xs, buf, live⟩ := s
  unfold job
  cases live with
  | true => rw [jobLoop_eq cs buf xs rfl]; rfl
  | false =>
    obtain rfl : buf = [] := hs rfl
    rw [jobLoop_dead cs [] rfl, run_dead _ rfl]
    rfl

/-- **Jobs do not matter**, only the pieces. -/
theorem foldl_job (jobs : List (List (Piece ε β))) : ∀ s : State β α, (s.live = false → s.buf = []) →
    jobs.foldl (R.job limit) s = R.run limit s jobs.flatten := by
  induction jobs with
  | nil => exact fun _ _ => rfl
  | cons cs jobs ih =>
    intro s hs
    rw [List.foldl_cons, List.flatten_cons, run_append, job_eq s hs, ih _ (run_buf cs hs)]

end Reader

end Segments
