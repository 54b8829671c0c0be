/-
  What the reactor's tables say, and who is going to remove a resource.

  Three invariants, each about the fields that it names, so that a step that does not touch them keeps it
  without a proof:

  * `Table` — objects, descriptors and `m_resources`: an entry names an object that is alive and not
    closed, no two open objects share a descriptor, every object is registered or has been removed ONCE,
    and has been closed once if it is destroyed.
  * `Tokens` — a registered resource that is invalid has EXACTLY ONE thread or queue that is going to remove
    it: a thread that has won the compare-exchange, a drop request, or the reactor itself.
  * `Control` — what the loops of `poll` and of the callback still have to visit is registered.
-/
import Yrmcds.Reactor.Model

namespace Yrmcds.Reactor

/-- Reading back after a write. -/
theorem update_eq_some {α β : Type} [DecidableEq α] {f : α → Option β} {a b : α} {x y : β}
    (h : Function.update f a (some x) b = some y) : (b = a ∧ x = y) ∨ (b ≠ a ∧ f b = some y) := by
  by_cases hb : b = a
  · rw [hb, Function.update_self, Option.some.injEq] at h
    exact .inl ⟨hb, h⟩
  · rw [Function.update_of_ne hb] at h
    exact .inr ⟨hb, h⟩

/-! ## Objects and descriptors -/

/-- An object is registered. -/
def Registered (resources : List Entry) (c : Nat) : Prop := ∃ e ∈ resources, e.owner = c

/-- The table of resources, the open descriptors and what has been removed agree. -/
structure Table (res : Nat → Option Resource) (created : Nat) (openFds : List Nat) (resources : List Entry)
    (removed closes : List Nat) : Prop where
  fresh : ∀ {c r}, res c = some r → c < created
  entry : ∀ e ∈ resources, ∃ r, res e.owner = some r ∧ r.fd = e.fd ∧ r.closed = false
  keys : (resources.map Entry.fd).Nodup
  opened : ∀ {c r}, res c = some r → r.closed = false → r.fd ∈ openFds
  sole : ∀ {c d r q}, res c = some r → res d = some q → r.closed = false → q.closed = false →
    r.fd = q.fd → c = d
  removedOnce : removed.Nodup
  removed_lt : ∀ c ∈ removed, c < created
  parted : ∀ c < created, Registered resources c ↔ c ∉ removed
  closedOnce : closes.Nodup
  closes_lt : ∀ c ∈ closes, c < created
  closed_iff : ∀ {c r}, res c = some r → (r.closed = true ↔ c ∈ closes)
  destroyed : ∀ c < created, res c = none → c ∈ closes

/-- The lookup of `m_resources`, where every descriptor has one entry. -/
theorem find_of_mem {s : State} (h : (s.resources.map Entry.fd).Nodup) {e : Entry} (he : e ∈ s.resources) :
    s.find e.fd = some e.owner := by
  unfold State.find
  generalize s.resources = l at h he ⊢
  induction l with
  | nil => cases he
  | cons a l ih =>
    rw [List.map_cons, List.nodup_cons] at h
    rcases List.mem_cons.mp he with rfl | he
    · rw [List.find?_cons_of_pos (by simp)]
      rfl
    · have hne : a.fd ≠ e.fd := fun heq => h.1 (heq ▸ List.mem_map_of_mem he)
      rw [List.find?_cons_of_neg (by simpa using hne)]
      exact ih h.2 he

theorem find_eq_none {s : State} {fd : Nat} : s.find fd = none ↔ fd ∉ s.resources.map Entry.fd := by
  simp [State.find]

namespace Table

variable {res res' : Nat → Option Resource} {created : Nat} {openFds : List Nat} {resources : List Entry}
  {removed closes : List Nat} {c : Nat} {r r' : Resource} {e e' : Entry}

theorem entry_inj (h : Table res created openFds resources removed closes) (he : e ∈ resources)
    (he' : e' ∈ resources) (hfd : e.fd = e'.fd) : e = e' := by
  obtain ⟨r, hr, hrfd, hrc⟩ := h.entry e he
  obtain ⟨r', hr', hrfd', hrc'⟩ := h.entry e' he'
  have hown := h.sole hr hr' hrc hrc' (by rw [hrfd, hrfd', hfd])
  cases e
  cases e'
  simp_all

theorem owner_inj (h : Table res created openFds resources removed closes) (he : e ∈ resources)
    (he' : e' ∈ resources) (hown : e.owner = e'.owner) : e = e' := by
  obtain ⟨r, hr, hrfd, -⟩ := h.entry e he
  obtain ⟨r', hr', hrfd', -⟩ := h.entry e' he'
  rw [hown, hr'] at hr
  exact h.entry_inj he he' (by rw [← hrfd, ← hrfd', Option.some.inj hr])

/-- The entry of a registered object has its descriptor. -/
theorem entry_of_registered (h : Table res created openFds resources removed closes)
    (hreg : Registered resources c) (hr : res c = some r) : ⟨r.fd, c⟩ ∈ resources := by
  obtain ⟨e, he, rfl⟩ := hreg
  obtain ⟨q, hq, hfd, -⟩ := h.entry e he
  rw [hr] at hq
  rw [Option.some.inj hq, hfd]
  exact he

theorem owner_lt (h : Table res created openFds resources removed closes) (he : e ∈ resources) :
    e.owner < created := by
  obtain ⟨r, hr, -⟩ := h.entry e he
  exact h.fresh hr

/-- An object has changed, but neither its descriptor nor `m_closed`. -/
theorem setRes (h : Table res created openFds resources removed closes) (hr : res c = some r)
    (hfd : r'.fd = r.fd) (hcl : r'.closed = r.closed) :
    Table (Function.update res c (some r')) created openFds resources removed closes := by
  -- what is read off the new object can be read off the old one
  have back : ∀ {d q'}, Function.update res c (some r') d = some q' →
      ∃ q, res d = some q ∧ q.fd = q'.fd ∧ q.closed = q'.closed := by
    intro d q' hq
    rcases update_eq_some hq with ⟨rfl, rfl⟩ | ⟨-, hq⟩
    · exact ⟨r, hr, hfd.symm, hcl.symm⟩
    · exact ⟨q', hq, rfl, rfl⟩
  refine { h with fresh := ?_, entry := ?_, opened := ?_, sole := ?_, closed_iff := ?_, destroyed := ?_ }
  · intro d q' hq
    obtain ⟨q, hq, -⟩ := back hq
    exact h.fresh hq
  · intro e he
    obtain ⟨q, hq, hqfd, hqcl⟩ := h.entry e he
    by_cases hd : e.owner = c
    · rw [hd, Function.update_self]
      rw [hd, hr] at hq
      cases hq
      exact ⟨r', rfl, hfd.trans hqfd, hcl.trans hqcl⟩
    · rw [Function.update_of_ne hd]
      exact ⟨q, hq, hqfd, hqcl⟩
  · intro d q' hq hc
    obtain ⟨q, hq, hqfd, hqcl⟩ := back hq
    rw [← hqfd]
    exact h.opened hq (hqcl.trans hc)
  · intro d d' q q' hq hq' hc hc' heq
    obtain ⟨p, hp, hpfd, hpcl⟩ := back hq
    obtain ⟨p', hp', hpfd', hpcl'⟩ := back hq'
    exact h.sole hp hp' (hpcl.trans hc) (hpcl'.trans hc') (by rw [hpfd, hpfd', heq])
  · intro d q' hq
    obtain ⟨q, hq, -, hqcl⟩ := back hq
    rw [← hqcl]
    exact h.closed_iff hq
  · intro d hd hnone
    by_cases hdc : d = c
    · rw [hdc, Function.update_self] at hnone
      cases hnone
    · rw [Function.update_of_ne hdc] at hnone
      exact h.destroyed d hd hnone

/-- A new object, with a descriptor that was not open, and its entry. -/
theorem create (h : Table res created openFds resources removed closes) {fd : Nat} (hfd : fd ∉ openFds)
    (kind : Kind) :
    Table (Function.update res created (some { fd := fd, kind := kind })) (created + 1) (fd :: openFds)
      (⟨fd, created⟩ :: resources) removed closes := by
  have hold : ∀ {d q}, res d = some q → d ≠ created := fun hq => Nat.ne_of_lt (h.fresh hq)
  have hne : ∀ {d q}, res d = some q → q.closed = false → q.fd ≠ fd :=
    fun hq hc heq => hfd (heq ▸ h.opened hq hc)
  refine ⟨?_, ?_, ?_, ?_, ?_, h.removedOnce, ?_, ?_, h.closedOnce, ?_, ?_, ?_⟩
  · intro d q hq
    rcases update_eq_some hq with ⟨rfl, -⟩ | ⟨-, hq⟩
    · exact Nat.lt_succ_self _
    · exact Nat.lt_succ_of_lt (h.fresh hq)
  · intro e he
    rcases List.mem_cons.mp he with rfl | he
    · exact ⟨_, Function.update_self .., rfl, rfl⟩
    · obtain ⟨q, hq, hqfd⟩ := h.entry e he
      exact ⟨q, by rw [Function.update_of_ne (hold hq), hq], hqfd⟩
  · rw [List.map_cons, List.nodup_cons]
    refine ⟨?_, h.keys⟩
    intro hmem
    obtain ⟨e, he, heq⟩ := List.mem_map.mp hmem
    obtain ⟨q, hq, hqfd, hqcl⟩ := h.entry e he
    exact hne hq hqcl (hqfd.trans heq)
  · intro d q hq hc
    rcases update_eq_some hq with ⟨-, rfl⟩ | ⟨-, hq⟩
    · exact List.mem_cons_self
    · exact List.mem_cons_of_mem _ (h.opened hq hc)
  · intro d d' q q' hq hq' hc hc' heq
    rcases update_eq_some hq with ⟨hd, rfl⟩ | ⟨-, hq0⟩
    · rcases update_eq_some hq' with ⟨hd', rfl⟩ | ⟨-, hq0'⟩
      · exact hd.trans hd'.symm
      · exact absurd heq.symm (hne hq0' hc')
    · rcases update_eq_some hq' with ⟨-, rfl⟩ | ⟨-, hq0'⟩
      · exact absurd heq (hne hq0 hc)
      · exact h.sole hq0 hq0' hc hc' heq
  · exact fun d hd => Nat.lt_succ_of_lt (h.removed_lt d hd)
  · intro d hd
    rcases Nat.lt_succ_iff_lt_or_eq.mp hd with hlt | rfl
    · rw [← h.parted d hlt]
      constructor
      · rintro ⟨e, he, rfl⟩
        rcases List.mem_cons.mp he with rfl | he
        · exact absurd hlt (Nat.lt_irrefl _)
        · exact ⟨e, he, rfl⟩
      · rintro ⟨e, he, rfl⟩
        exact ⟨e, List.mem_cons_of_mem _ he, rfl⟩
    · exact ⟨fun _ hd => Nat.lt_irrefl _ (h.removed_lt _ hd), fun _ => ⟨_, List.mem_cons_self, rfl⟩⟩
  · exact fun d hd => Nat.lt_succ_of_lt (h.closes_lt d hd)
  · intro d q hq
    rcases update_eq_some hq with ⟨rfl, rfl⟩ | ⟨-, hq⟩
    · exact ⟨fun hc => (nomatch hc), fun hd => absurd (h.closes_lt _ hd) (Nat.lt_irrefl _)⟩
    · exact h.closed_iff hq
  · intro d hd hnone
    by_cases hdc : d = created
    · rw [hdc, Function.update_self] at hnone
      cases hnone
    · rw [Function.update_of_ne hdc] at hnone
      exact h.destroyed d (Nat.lt_of_le_of_ne (Nat.lt_succ_iff.mp hd) hdc) hnone

/-- `remove_resource`, before it tries to close the descriptor. -/
theorem remove (h : Table res created openFds resources removed closes) (he : e ∈ resources) :
    Table res created openFds (resources.filter (·.fd ≠ e.fd)) (e.owner :: removed) closes := by
  have hmem : ∀ {e'}, e' ∈ resources.filter (·.fd ≠ e.fd) ↔ e' ∈ resources ∧ e'.fd ≠ e.fd := by
    intro e'
    rw [List.mem_filter, decide_eq_true_iff]
  refine { h with entry := ?_, keys := ?_, removedOnce := ?_, removed_lt := ?_, parted := ?_ }
  · exact fun e' he' => h.entry e' (hmem.mp he').1
  · exact h.keys.sublist (List.filter_sublist.map _)
  · exact List.nodup_cons.mpr ⟨(h.parted _ (h.owner_lt he)).mp ⟨e, he, rfl⟩, h.removedOnce⟩
  · intro d hd
    rcases List.mem_cons.mp hd with rfl | hd
    · exact h.owner_lt he
    · exact h.removed_lt d hd
  · intro d hd
    rw [List.mem_cons, not_or, ← h.parted d hd]
    constructor
    · rintro ⟨e', he', rfl⟩
      obtain ⟨he', hne⟩ := hmem.mp he'
      exact ⟨fun heq => hne (by rw [h.owner_inj he' he heq]), e', he', rfl⟩
    · rintro ⟨hne, e', he', rfl⟩
      exact ⟨e', hmem.mpr ⟨he', fun hfd => hne (by rw [h.entry_inj he' he hfd])⟩, rfl⟩

/-- A removed object's descriptor is closed. -/
theorem close (h : Table res created openFds resources removed closes) (hr : res c = some r)
    (hcl : r.closed = false) (hreg : ¬ Registered resources c) :
    Table (Function.update res c (some { r with closed := true })) created
      (openFds.filter (· ≠ r.fd)) resources removed (c :: closes) := by
  have hnot : c ∉ closes := fun hmem => Bool.false_ne_true (hcl.symm.trans ((h.closed_iff hr).mpr hmem))
  refine { h with fresh := ?_, entry := ?_, opened := ?_, sole := ?_, closedOnce := ?_, closes_lt := ?_,
                  closed_iff := ?_, destroyed := ?_ }
  · intro d q hq
    rcases update_eq_some hq with ⟨rfl, -⟩ | ⟨-, hq⟩
    · exact h.fresh hr
    · exact h.fresh hq
  · intro e he
    rw [Function.update_of_ne (fun heq => hreg ⟨e, he, heq⟩)]
    exact h.entry e he
  · intro d q hq hc
    rcases update_eq_some hq with ⟨-, rfl⟩ | ⟨hd, hq⟩
    · cases hc
    · refine List.mem_filter.mpr ⟨h.opened hq hc, decide_eq_true fun hfd => hd ?_⟩
      exact h.sole hq hr hc hcl hfd
  · intro d d' q q' hq hq' hc hc' hfd
    rcases update_eq_some hq with ⟨-, rfl⟩ | ⟨-, hq⟩
    · cases hc
    · rcases update_eq_some hq' with ⟨-, rfl⟩ | ⟨-, hq'⟩
      · cases hc'
      · exact h.sole hq hq' hc hc' hfd
  · exact List.nodup_cons.mpr ⟨hnot, h.closedOnce⟩
  · intro d hd
    rcases List.mem_cons.mp hd with rfl | hd
    · exact h.fresh hr
    · exact h.closes_lt d hd
  · intro d q hq
    rcases update_eq_some hq with ⟨rfl, rfl⟩ | ⟨hd, hq⟩
    · exact ⟨fun _ => List.mem_cons_self, fun _ => rfl⟩
    · rw [List.mem_cons, h.closed_iff hq]
      exact ⟨.inr, fun hmem => hmem.resolve_left hd⟩
  · intro d hd hnone
    by_cases hdc : d = c
    · exact hdc ▸ List.mem_cons_self
    · rw [Function.update_of_ne hdc] at hnone
      exact List.mem_cons_of_mem _ (h.destroyed d hd hnone)

/-- A removed and closed object is destroyed. -/
theorem destroy (h : Table res created openFds resources removed closes) (hr : res c = some r)
    (hcl : r.closed = true) (hreg : ¬ Registered resources c) :
    Table (Function.update res c none) created openFds resources removed closes := by
  have hupd : ∀ {d q}, Function.update res c none d = some q → res d = some q := by
    intro d q hq
    by_cases hd : d = c
    · rw [hd, Function.update_self] at hq
      cases hq
    · rwa [Function.update_of_ne hd] at hq
  refine { h with fresh := fun hq => h.fresh (hupd hq), entry := ?_,
                  opened := fun hq => h.opened (hupd hq),
                  sole := fun hq hq' => h.sole (hupd hq) (hupd hq'),
                  closed_iff := fun hq => h.closed_iff (hupd hq), destroyed := ?_ }
  · intro e he
    rw [Function.update_of_ne (fun heq => hreg ⟨e, he, heq⟩)]
    exact h.entry e he
  · intro d hd hnone
    by_cases hdc : d = c
    · rw [hdc]
      exact (h.closed_iff hr).mp hcl
    · rw [Function.update_of_ne hdc] at hnone
      exact h.destroyed d hd hnone

end Table

/-! ## Who removes a resource -/

/-- The one that is going to remove a resource. -/
inductive Token where
  | thread (t : Thread)
  | drop
  | reactor

/-- Who is about to remove resource `c`. -/
def Holds (drop : List Entry) (removing : Option Entry) (inside : Thread → Option (Nat × Stage)) (c : Nat) :
    Token → Prop
  | .thread t => inside t = some (c, .removing)
  | .drop => ∃ e ∈ drop, e.owner = c
  | .reactor => ∃ e, removing = some e ∧ e.owner = c

/-- A resource that is invalid and still in the table is about to be removed, by one only. -/
structure Tokens (res : Nat → Option Resource) (resources drop : List Entry) (removing : Option Entry)
    (inside : Thread → Option (Nat × Stage)) : Prop where
  drop_mem : ∀ e ∈ drop, e ∈ resources
  removing_mem : ∀ e, removing = some e → e ∈ resources
  registered : ∀ {c k}, Holds drop removing inside c k → Registered resources c
  invalid : ∀ {c k r}, Holds drop removing inside c k → res c = some r → r.valid = false
  sole : ∀ {c k l}, Holds drop removing inside c k → Holds drop removing inside c l → k = l
  nodup : (drop.map Entry.owner).Nodup
  full : ∀ {c r}, Registered resources c → res c = some r → r.valid = false →
    ∃ k, Holds drop removing inside c k

namespace Tokens

variable {res res' : Nat → Option Resource} {resources drop : List Entry} {removing : Option Entry}
  {inside : Thread → Option (Nat × Stage)} {c : Nat} {r : Resource} {e : Entry} {t : Thread}

/-- Only `m_valid` of the registered objects matters. -/
theorem setRes (h : Tokens res resources drop removing inside)
    (hv : ∀ d q', res' d = some q' → Registered resources d → ∃ q, res d = some q ∧ q.valid = q'.valid) :
    Tokens res' resources drop removing inside := by
  refine { h with invalid := ?_, full := ?_ }
  · intro d k q' hk hq'
    obtain ⟨q, hq, hval⟩ := hv d q' hq' (h.registered hk)
    exact hval ▸ h.invalid hk hq
  · intro d q' hreg hq' hval'
    obtain ⟨q, hq, hval⟩ := hv d q' hq' hreg
    exact h.full hreg hq (hval.trans hval')

/-- A thread moves inside `with_fd`, without a token before and after. -/
theorem setInside (h : Tokens res resources drop removing inside) {x : Option (Nat × Stage)}
    (hold : ∀ d, inside t ≠ some (d, .removing)) (hnew : ∀ d, x ≠ some (d, .removing)) :
    Tokens res resources drop removing (Function.update inside t x) := by
  have hiff : ∀ {d k}, Holds drop removing (Function.update inside t x) d k
      ↔ Holds drop removing inside d k := by
    intro d k
    cases k with
    | thread u =>
      by_cases hu : u = t
      · subst hu
        simp only [Holds, Function.update_self]
        exact ⟨fun hx => absurd hx (hnew d), fun hx => absurd hx (hold d)⟩
      · simp only [Holds, Function.update_of_ne hu]
    | drop => exact Iff.rfl
    | reactor => exact Iff.rfl
  refine { h with registered := ?_, invalid := ?_, sole := ?_, full := ?_ }
  · exact fun hk => h.registered (hiff.mp hk)
  · exact fun hk => h.invalid (hiff.mp hk)
  · exact fun hk hl => h.sole (hiff.mp hk) (hiff.mp hl)
  · intro d q hreg hq hval
    obtain ⟨k, hk⟩ := h.full hreg hq hval
    exact ⟨k, hiff.mpr hk⟩

/-- No one is going to remove a valid resource. -/
theorem none_of_valid (h : Tokens res resources drop removing inside) (hr : res c = some r)
    (hval : r.valid = true) (k : Token) : ¬ Holds drop removing inside c k := by
  intro hk
  have hinv := h.invalid hk hr
  rw [hval] at hinv
  cases hinv

variable {k : Token} {fd created : Nat} {closes openFds removed : List Nat}

/-- The winner of the compare-exchange has the token. -/
theorem take (h : Tokens res resources drop removing inside) (hreg : Registered resources c)
    (hr : res c = some r) (hval : r.valid = true) {removing' : Option Entry}
    {inside' : Thread → Option (Nat × Stage)} (hrem : ∀ e, removing' = some e → e ∈ resources)
    (hiff : ∀ d l, Holds drop removing' inside' d l ↔ (d = c ∧ l = k) ∨ Holds drop removing inside d l) :
    Tokens (Function.update res c (some { r with valid := false })) resources drop removing' inside' := by
  have hnone := h.none_of_valid hr hval
  refine ⟨h.drop_mem, hrem, ?_, ?_, ?_, h.nodup, ?_⟩
  · intro d l hl
    rcases (hiff d l).mp hl with ⟨rfl, -⟩ | hl
    · exact hreg
    · exact h.registered hl
  · intro d l q hl hq
    rcases update_eq_some hq with ⟨-, rfl⟩ | ⟨hd, hq⟩
    · rfl
    · rcases (hiff d l).mp hl with ⟨rfl, -⟩ | hl
      · exact absurd rfl hd
      · exact h.invalid hl hq
  · intro d l l' hl hl'
    rcases (hiff d l).mp hl with ⟨rfl, rfl⟩ | hl
    · rcases (hiff _ l').mp hl' with ⟨-, rfl⟩ | hl'
      · rfl
      · exact absurd hl' (hnone _)
    · rcases (hiff d l').mp hl' with ⟨rfl, rfl⟩ | hl'
      · exact absurd hl (hnone _)
      · exact h.sole hl hl'
  · intro d q hreg' hq hval'
    by_cases hd : d = c
    · exact ⟨k, (hiff d k).mpr (.inl ⟨hd, rfl⟩)⟩
    · rw [Function.update_of_ne hd] at hq
      obtain ⟨l, hl⟩ := h.full hreg' hq hval'
      exact ⟨l, (hiff d l).mpr (.inr hl)⟩

/-- The compare-exchange of a thread. -/
theorem takeThread (h : Tokens res resources drop removing inside) (hreg : Registered resources c)
    (hr : res c = some r) (hval : r.valid = true) (hold : ∀ d, inside t ≠ some (d, .removing)) :
    Tokens (Function.update res c (some { r with valid := false })) resources drop removing
      (Function.update inside t (some (c, .removing))) := by
  refine h.take (k := .thread t) hreg hr hval h.removing_mem ?_
  intro d l
  cases l with
  | thread u =>
    by_cases hu : u = t
    · subst hu
      simp only [Holds, Function.update_self, Option.some.injEq, Prod.mk.injEq, and_true, hold, or_false]
      exact eq_comm
    · simp [Holds, hu]
  | drop => simp [Holds]
  | reactor => simp [Holds]

/-- The compare-exchange of the reactor. -/
theorem takeReactor (h : Tokens res resources drop none inside) (he : ⟨fd, c⟩ ∈ resources)
    (hr : res c = some r) (hval : r.valid = true) :
    Tokens (Function.update res c (some { r with valid := false })) resources drop (some ⟨fd, c⟩)
      inside := by
  refine h.take (k := .reactor) ⟨_, he, rfl⟩ hr hval (fun e' he' => Option.some.inj he' ▸ he) ?_
  intro d l
  cases l with
  | thread u => simp [Holds]
  | drop => simp [Holds]
  | reactor =>
    simp only [Holds, Option.some.injEq, exists_eq_left', and_true, reduceCtorEq, false_and, exists_false,
      or_false]
    exact eq_comm

/-- Two tokens are for two resources. -/
theorem owner_ne (h : Tokens res resources drop removing inside) {d : Nat} {l : Token}
    (hk : Holds drop removing inside d k) (hl : Holds drop removing inside c l) (hne : k ≠ l) : d ≠ c := by
  rintro rfl
  exact hne (h.sole hk hl)

/-- The tokens after `request_removal`: the thread's one is in the queue, the others are where they were. -/
theorem holds_request (h : Tokens res resources drop removing inside) (ht : inside t = some (c, .removing))
    {d : Nat} :
    Holds (drop ++ [⟨fd, c⟩]) removing (Function.update inside t none) d k
      ↔ (d = c ∧ k = .drop) ∨ (d ≠ c ∧ Holds drop removing inside d k) := by
  have hown : Holds drop removing inside c (.thread t) := ht
  cases k with
  | thread u =>
    constructor
    · intro hk
      have hu : u ≠ t := by
        rintro rfl
        simp [Holds] at hk
      rw [Holds, Function.update_of_ne hu] at hk
      exact .inr ⟨h.owner_ne (k := .thread u) hk hown fun heq => hu (Token.thread.inj heq), hk⟩
    · rintro (⟨-, heq⟩ | ⟨hd, hk⟩)
      · cases heq
      · have hu : u ≠ t := by
          rintro rfl
          have heq : some (c, Stage.removing) = some (d, Stage.removing) := ht.symm.trans hk
          simp only [Option.some.injEq, Prod.mk.injEq, and_true] at heq
          exact hd heq.symm
        rw [Holds, Function.update_of_ne hu]
        exact hk
  | drop =>
    constructor
    · rintro ⟨e, he, rfl⟩
      rcases List.mem_append.mp he with he | he
      · have hk : Holds drop removing inside e.owner .drop := ⟨e, he, rfl⟩
        exact .inr ⟨h.owner_ne hk hown (by rintro ⟨⟩), hk⟩
      · rw [List.mem_singleton.mp he]
        exact .inl ⟨rfl, rfl⟩
    · rintro (⟨rfl, -⟩ | ⟨-, e, he, rfl⟩)
      · exact ⟨_, List.mem_append_right _ (List.mem_singleton.mpr rfl), rfl⟩
      · exact ⟨e, List.mem_append_left _ he, rfl⟩
  | reactor =>
    constructor
    · intro hk
      exact .inr ⟨h.owner_ne (k := .reactor) hk hown (by rintro ⟨⟩), hk⟩
    · rintro (⟨-, heq⟩ | ⟨-, hk⟩)
      · cases heq
      · exact hk

/-- `request_removal`: the token goes to the queue. -/
theorem request (h : Tokens res resources drop removing inside) (ht : inside t = some (c, .removing))
    (he : ⟨fd, c⟩ ∈ resources) :
    Tokens res resources (drop ++ [⟨fd, c⟩]) removing (Function.update inside t none) := by
  have hown : Holds drop removing inside c (.thread t) := ht
  refine ⟨?_, h.removing_mem, ?_, ?_, ?_, ?_, ?_⟩
  · intro e he'
    rcases List.mem_append.mp he' with he' | he'
    · exact h.drop_mem e he'
    · exact List.mem_singleton.mp he' ▸ he
  · intro d k hk
    rcases (h.holds_request ht).mp hk with ⟨rfl, -⟩ | ⟨-, hk⟩
    · exact ⟨_, he, rfl⟩
    · exact h.registered hk
  · intro d k q hk hq
    rcases (h.holds_request ht).mp hk with ⟨rfl, -⟩ | ⟨-, hk⟩
    · exact h.invalid hown hq
    · exact h.invalid hk hq
  · intro d k l hk hl
    rcases (h.holds_request ht).mp hk with ⟨rfl, rfl⟩ | ⟨hd, hk⟩
    · rcases (h.holds_request ht).mp hl with ⟨-, rfl⟩ | ⟨hd, -⟩
      · rfl
      · exact absurd rfl hd
    · rcases (h.holds_request ht).mp hl with ⟨rfl, -⟩ | ⟨-, hl⟩
      · exact absurd rfl hd
      · exact h.sole hk hl
  · rw [List.map_append, List.nodup_append]
    refine ⟨h.nodup, List.nodup_singleton _, ?_⟩
    intro d hd d' hd'
    obtain ⟨e, he, rfl⟩ := List.mem_map.mp hd
    rw [List.mem_singleton.mp hd']
    exact h.owner_ne (k := .drop) ⟨e, he, rfl⟩ hown (by rintro ⟨⟩)
  · intro d q hreg hq hval
    obtain ⟨k, hk⟩ := h.full hreg hq hval
    by_cases hd : d = c
    · exact ⟨.drop, (h.holds_request ht).mpr (.inl ⟨hd, rfl⟩)⟩
    · exact ⟨k, (h.holds_request ht).mpr (.inr ⟨hd, hk⟩)⟩

/-- `remove_resource`, by the one that has the token. -/
theorem remove (h : Tokens res resources drop removing inside) {drop' : List Entry} {removing' : Option Entry}
    (ht : Table res created openFds resources removed closes) (he : e ∈ resources) (hsub : drop'.Sublist drop)
    (hfrom : ∀ {d k}, Holds drop' removing' inside d k → d ≠ e.owner ∧ Holds drop removing inside d k)
    (hrem : ∀ e', removing' = some e' → removing = some e')
    (hto : ∀ {d k}, Holds drop removing inside d k → d ≠ e.owner → Holds drop' removing' inside d k) :
    Tokens res (resources.filter (·.fd ≠ e.fd)) drop' removing' inside := by
  have hmem : ∀ {e'}, e' ∈ resources → e'.owner ≠ e.owner → e' ∈ resources.filter (·.fd ≠ e.fd) := by
    intro e' he' hne
    refine List.mem_filter.mpr ⟨he', decide_eq_true fun hfd => hne ?_⟩
    rw [ht.entry_inj he' he hfd]
  refine ⟨?_, ?_, ?_, ?_, ?_, ?_, ?_⟩
  · intro e' he'
    exact hmem (h.drop_mem e' (hsub.subset he')) (hfrom (k := .drop) ⟨e', he', rfl⟩).1
  · intro e' he'
    exact hmem (h.removing_mem e' (hrem e' he')) (hfrom (k := .reactor) ⟨e', he', rfl⟩).1
  · intro d k hk
    obtain ⟨hd, hk⟩ := hfrom hk
    obtain ⟨e', he', rfl⟩ := h.registered hk
    exact ⟨e', hmem he' hd, rfl⟩
  · exact fun hk => h.invalid (hfrom hk).2
  · exact fun hk hl => h.sole (hfrom hk).2 (hfrom hl).2
  · exact h.nodup.sublist (hsub.map _)
  · rintro d q ⟨e', he', rfl⟩ hq hval
    obtain ⟨he', hne⟩ := List.mem_filter.mp he'
    obtain ⟨k, hk⟩ := h.full ⟨e', he', rfl⟩ hq hval
    refine ⟨k, hto hk fun heq => of_decide_eq_true hne ?_⟩
    rw [ht.owner_inj he' he heq]

/-- ... by the loop over the drop requests. -/
theorem removeDrop (h : Tokens res resources (e :: drop) removing inside)
    (ht : Table res created openFds resources removed closes) :
    Tokens res (resources.filter (·.fd ≠ e.fd)) drop removing inside := by
  have hown : Holds (e :: drop) removing inside e.owner .drop := ⟨e, List.mem_cons_self, rfl⟩
  have hnodup := List.nodup_cons.mp (List.map_cons ▸ h.nodup)
  refine h.remove ht (h.drop_mem e List.mem_cons_self) (List.sublist_cons_self e drop) ?_ (fun _ => id) ?_
  · intro d k hk
    cases k with
    | thread u => exact ⟨h.owner_ne (k := .thread u) hk hown (by rintro ⟨⟩), hk⟩
    | drop =>
      obtain ⟨e', he', rfl⟩ := hk
      refine ⟨?_, e', List.mem_cons_of_mem _ he', rfl⟩
      intro heq
      exact hnodup.1 (heq ▸ List.mem_map_of_mem he')
    | reactor => exact ⟨h.owner_ne (k := .reactor) hk hown (by rintro ⟨⟩), hk⟩
  · intro d k hk hd
    cases k with
    | drop =>
      obtain ⟨e', he', rfl⟩ := hk
      rcases List.mem_cons.mp he' with rfl | he'
      · exact absurd rfl hd
      · exact ⟨e', he', rfl⟩
    | thread u => exact hk
    | reactor => exact hk

/-- ... and by the reactor, after a handler or a time-out. -/
theorem removeReactor (h : Tokens res resources drop (some e) inside)
    (ht : Table res created openFds resources removed closes) :
    Tokens res (resources.filter (·.fd ≠ e.fd)) drop none inside := by
  have hown : Holds drop (some e) inside e.owner .reactor := ⟨e, rfl, rfl⟩
  refine h.remove ht (h.removing_mem e rfl) (List.Sublist.refl drop) ?_ (fun _ he => nomatch he) ?_
  · intro d k hk
    cases k with
    | thread u => exact ⟨h.owner_ne (k := .thread u) hk hown (by rintro ⟨⟩), hk⟩
    | drop => exact ⟨h.owner_ne (k := .drop) hk hown (by rintro ⟨⟩), hk⟩
    | reactor =>
      obtain ⟨e', he', -⟩ := hk
      cases he'
  · intro d k hk hd
    cases k with
    | reactor =>
      obtain ⟨e', he', rfl⟩ := hk
      exact absurd (by rw [Option.some.inj he']) hd
    | thread u => exact hk
    | drop => exact hk

/-- A new, valid resource. -/
theorem create (h : Tokens res resources drop removing inside) {c : Nat} (hc : ¬ Registered resources c)
    (hr : res' c = some r) (hval : r.valid = true) (hres : ∀ d, d ≠ c → res' d = res d) :
    Tokens res' (⟨fd, c⟩ :: resources) drop removing inside := by
  have hne : ∀ {d k}, Holds drop removing inside d k → d ≠ c := by
    rintro d k hk rfl
    exact hc (h.registered hk)
  refine ⟨fun e he => List.mem_cons_of_mem _ (h.drop_mem e he),
    fun e he => List.mem_cons_of_mem _ (h.removing_mem e he), ?_, ?_, h.sole, h.nodup, ?_⟩
  · intro d k hk
    obtain ⟨e, he, rfl⟩ := h.registered hk
    exact ⟨e, List.mem_cons_of_mem _ he, rfl⟩
  · intro d k q hk hq
    rw [hres d (hne hk)] at hq
    exact h.invalid hk hq
  · rintro d q ⟨e, he, rfl⟩ hq hval'
    rcases List.mem_cons.mp he with rfl | he
    · rw [hr, Option.some.injEq] at hq
      rw [← hq, hval] at hval'
      cases hval'
    · rw [hres _ fun heq => hc ⟨e, he, heq⟩] at hq
      exact h.full ⟨e, he, rfl⟩ hq hval'

end Tokens

/-! ## The loops -/

/-- The drop requests that `poll` has taken over. -/
def Phase.dropped : Phase → List Entry
  | .drops todo => todo
  | _ => []

/-- What `poll` still has to visit is registered, and the descriptor at hand is not among it. -/
structure Visits (resources : List Entry) (cur : Option Dispatch) (removing : Option Entry)
    (todo : List Nat) : Prop where
  mem : ∀ fd ∈ todo, fd ∈ resources.map Entry.fd
  nodup : todo.Nodup
  notCur : ∀ d, cur = some d → d.fd ∉ todo
  notRemoving : ∀ e, removing = some e → e.fd ∉ todo

/-- Where the reactor is, and what is at hand there. -/
def PhaseOk (resources : List Entry) (cur : Option Dispatch) (removing : Option Entry)
    (slaves garbage : List Nat) : Phase → Prop
  | .readables todo =>
    Visits resources cur removing (todo.map Entry.fd) ∧ ∀ e ∈ todo, e ∈ resources
  | .events todo => Visits resources cur removing (todo.map Prod.fst)
  | .prune todo =>
    cur = none ∧ (∀ e, removing = some e → e.owner ∉ slaves) ∧ (∀ c ∈ garbage, c ∈ slaves → c ∈ todo) ∧
      todo.Nodup ∧ ∀ c ∈ todo, c ∈ slaves
  | .gc => (cur = none ∧ removing = none) ∧ ∀ c ∈ garbage, c ∉ slaves
  | .fix => (cur = none ∧ removing = none) ∧ ∀ c ∈ garbage, c ∉ slaves
  | _ => cur = none ∧ removing = none

/-- What the reactor has in hand is in the table. -/
structure Control (resources readables : List Entry) (cur : Option Dispatch) (removing : Option Entry)
    (slaves garbage : List Nat) (phase : Phase) : Prop where
  again : ∀ e ∈ readables, e ∈ resources
  atHand : ∀ d, cur = some d → ⟨d.fd, d.res⟩ ∈ resources
  one : cur = none ∨ removing = none
  once : slaves.Nodup
  loop : PhaseOk resources cur removing slaves garbage phase

namespace Visits

variable {resources : List Entry} {cur : Option Dispatch} {removing : Option Entry} {todo : List Nat}

theorem mono (h : Visits resources cur removing todo) {resources' : List Entry} {cur' : Option Dispatch}
    {removing' : Option Entry}
    (hmem : ∀ fd ∈ todo, fd ∈ resources.map Entry.fd → fd ∈ resources'.map Entry.fd)
    (hcur : ∀ d, cur' = some d → d.fd ∉ todo) (hrem : ∀ e, removing' = some e → e.fd ∉ todo) :
    Visits resources' cur' removing' todo :=
  ⟨fun fd hfd => hmem fd hfd (h.mem fd hfd), h.nodup, hcur, hrem⟩

/-- The next element is taken up. -/
theorem next {fd : Nat} (h : Visits resources none none (fd :: todo)) (c : Nat) (calls : List Call) :
    Visits resources (Dispatch.rest ⟨fd, c, []⟩ calls) none todo := by
  refine ⟨fun x hx => h.mem x (List.mem_cons_of_mem _ hx), (List.nodup_cons.mp h.nodup).2, ?_,
    fun _ he => nomatch he⟩
  intro d hd
  unfold Dispatch.rest at hd
  split_ifs at hd
  cases hd
  exact (List.nodup_cons.mp h.nodup).1

end Visits

/-- `std::sort` and `std::unique_copy`. -/
theorem uniqueFrom_spec (last : Nat) (l : List Entry) (hs : l.Pairwise fun a b => a.fd ≤ b.fd)
    (hl : ∀ e ∈ l, last ≤ e.fd) :
    (∀ e ∈ State.uniqueFrom last l, e ∈ l ∧ last < e.fd) ∧
      ((State.uniqueFrom last l).map Entry.fd).Nodup := by
  induction l generalizing last with
  | nil => exact ⟨fun e he => (nomatch he), List.nodup_nil⟩
  | cons a l ih =>
    rw [List.pairwise_cons] at hs
    rw [State.uniqueFrom]
    split_ifs with heq
    · obtain ⟨hmem, hnd⟩ := ih last hs.2 fun e he => hl e (List.mem_cons_of_mem _ he)
      exact ⟨fun e he => ⟨List.mem_cons_of_mem _ (hmem e he).1, (hmem e he).2⟩, hnd⟩
    · obtain ⟨hmem, hnd⟩ := ih a.fd hs.2 hs.1
      have ha : last < a.fd := Nat.lt_of_le_of_ne (hl a List.mem_cons_self) (Ne.symm heq)
      refine ⟨?_, ?_⟩
      · intro e he
        rcases List.mem_cons.mp he with rfl | he
        · exact ⟨List.mem_cons_self, ha⟩
        · exact ⟨List.mem_cons_of_mem _ (hmem e he).1, Nat.lt_trans ha (hmem e he).2⟩
      · rw [List.map_cons, List.nodup_cons]
        refine ⟨?_, hnd⟩
        intro hfd
        obtain ⟨e, he, hfd⟩ := List.mem_map.mp hfd
        exact absurd hfd (Nat.ne_of_gt (hmem e he).2)

theorem uniqueCopy_spec (l : List Entry) :
    (∀ e ∈ State.uniqueCopy (l.mergeSort fun a b => a.fd ≤ b.fd), e ∈ l) ∧
      ((State.uniqueCopy (l.mergeSort fun a b => a.fd ≤ b.fd)).map Entry.fd).Nodup := by
  have hsorted : (l.mergeSort fun a b => a.fd ≤ b.fd).Pairwise fun a b => a.fd ≤ b.fd := by
    have htrans : ∀ a b c : Entry, decide (a.fd ≤ b.fd) = true → decide (b.fd ≤ c.fd) = true →
        decide (a.fd ≤ c.fd) = true := fun a b c hab hbc =>
      decide_eq_true (Nat.le_trans (of_decide_eq_true hab) (of_decide_eq_true hbc))
    have htotal : ∀ a b : Entry, (decide (a.fd ≤ b.fd) || decide (b.fd ≤ a.fd)) = true := fun a b => by
      simpa using Nat.le_total a.fd b.fd
    exact (List.pairwise_mergeSort htrans htotal l).imp of_decide_eq_true
  have hperm : ∀ e, e ∈ l.mergeSort (fun a b => a.fd ≤ b.fd) → e ∈ l := fun e he => List.mem_mergeSort.mp he
  generalize l.mergeSort (fun a b => a.fd ≤ b.fd) = m at hsorted hperm ⊢
  cases m with
  | nil => exact ⟨fun e he => (nomatch he), List.nodup_nil⟩
  | cons a m =>
    rw [List.pairwise_cons] at hsorted
    obtain ⟨hmem, hnd⟩ := uniqueFrom_spec a.fd m hsorted.2 hsorted.1
    refine ⟨?_, ?_⟩
    · intro e he
      rcases List.mem_cons.mp he with rfl | he
      · exact hperm _ List.mem_cons_self
      · exact hperm e (List.mem_cons_of_mem _ (hmem e he).1)
    · rw [State.uniqueCopy, List.map_cons, List.nodup_cons]
      refine ⟨?_, hnd⟩
      intro hfd
      obtain ⟨e, he, hfd⟩ := List.mem_map.mp hfd
      exact absurd hfd (Nat.ne_of_gt (hmem e he).2)

end Yrmcds.Reactor
