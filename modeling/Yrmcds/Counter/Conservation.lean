/-
  Conservation of counters.

  The amount in use is kept twice: the total in the counter object, the shares in each connection's
  `m_acquired_resources`.  This file runs the counter server — any number of connections, requests
  as raw bytes in any interleaving, `release_all` visiting one counter at a time, GC one bucket at a
  time, the clock — and asks whether the two stay equal.

  They do NOT: `object::acquire` compares a 32-bit sum with the maximum, so an `Acquire` can be
  granted because the sum wrapped around.  `acquire_wraps` is such a run, and it ends in the
  `logic_error` of `cmd_release`, which stops the server.

  1. **Exact condition** (`NoWrap`): every granted `Acquire` on an existing counter stays below 2^32,
     i.e. obeys the documented rule `consumption + resources ≤ maximum` in plain arithmetic.
  2. **Invariant** (`Inv`): the total equals the sum of the shares; every recorded key is the key of a
     live counter; no recorded share is 0.  The last one is what keeps GC from deleting a counter
     somebody still points to: GC deletes at total 0, so all shares would be 0.
  3. **Step** (`Inv.step`) and **run** (`conservation_of_noWrap`).

  While `release_all` is running, what a connection holds is what it has still to visit; otherwise it
  is `m_acquired_resources` (`Socket.held`).
-/
import Yrmcds.Counter.Sockets
import Yrmcds.Lib.Ledger
import Yrmcds.Lib.Run

namespace Yrmcds.Counter

open ChainTable Ledger Run

/-! ## The server -/

namespace Socket

/-- What the connection still has to give back: its record, or the rest of a running `release_all`. -/
def held (s : Socket) : Recorded := s.releasing.getD s.acquired

/-- The connection's share of the counter whose key is at `a`. -/
def amount (s : Socket) (a : Nat) : Nat := (s.held.lookup a).elim 0 UInt32.toNat

end Socket

/-- The counter side of the server: the map, the connections ever accepted, and the GC thread with
    the number of the bucket it visits next. -/
structure State where
  hash : HashMap Object
  conns : List Socket
  env : Env
  gc : Option (Nat × GcThread)

/-- What can happen to the counter server. -/
inductive Event where
  | accept
  | request (c : Nat) (buf : Bytes)     -- `m_recvjob` executes the request at the head of `buf`
  | releaseAll (c : Nat)                -- `release_all` begins (receive job or destructor)
  | releaseNext (c : Nat) (a : Nat)     -- its loop visits the entry of the key at `a`
  | releaseDone (c : Nat)               -- its loop is over: `m_acquired_resources.clear()`
  | tick (t : Int)
  | gcStart
  | gcNext                              -- the GC thread visits its next bucket, or ends

/-- The server with no counter and no connection. -/
def State.init (hash : Key → Nat) (alloc : List Nat → Nat) (fresh : ∀ live, alloc live ∉ live) (n : Nat)
    (env : Env) : State :=
  ⟨Table.empty hash alloc fresh n, [], env, none⟩

/-- Run `f` on connection `c`, if there is one. -/
def State.withConn (s : State) (c : Nat) (f : Socket → Except Err State) : Except Err State :=
  match s.conns[c]? with
  | none => .ok s
  | some sock => f sock

/-- The receive job executes the request at the head of `buf`. -/
def requestStep (s : State) (c : Nat) (buf : Bytes) (sock : Socket) : Except Err State :=
  if sock.releasing.isSome ∨ (Request.parse buf).length = 0 then .ok s
  else
    match execute s.env s.hash (Request.parse buf) sock with
    | .ok (m, sock') => .ok { s with hash := m, conns := s.conns.set c sock' }
    | .error e => .error e

/-- One visit of a running `release_all`. -/
def releaseStep (s : State) (c : Nat) (a : Nat) (sock : Socket) : Except Err State :=
  match sock.releasing.bind fun rest => (rest.lookup a).map (rest, ·) with
  | none => .ok s
  | some (rest, count) =>
    match releaseOne s.env s.hash a count with
    | .ok m => .ok { s with
        hash := m, conns := s.conns.set c { sock with releasing := some (rest.erase a) } }
    | .error e => .error e

/-- The GC thread visits bucket `i`, or ends after the last one. -/
def gcStep (s : State) : State :=
  match s.gc with
  | none => s
  | some (i, t) =>
    if i < s.hash.buckets.length then
      let res := HashMap.gc s.hash i (gcPred s.env) { t with objectsInBucket := 0 }
      { s with hash := res.1, gc := some (i + 1, res.2) }
    else { s with gc := none }

/-- One step of the counter server.  An event that is not enabled leaves the state alone. -/
def step (s : State) : Event → Except Err State
  | .accept => .ok { s with conns := s.conns ++ [{}] }
  | .request c buf => s.withConn c (requestStep s c buf)
  | .releaseAll c => s.withConn c fun sock =>
      if sock.releasing.isSome then .ok s
      else .ok { s with conns := s.conns.set c { sock with releasing := some sock.acquired } }
  | .releaseNext c a => s.withConn c (releaseStep s c a)
  | .releaseDone c => s.withConn c fun sock =>
      if sock.releasing.map AList.entries = some [] then
        .ok { s with conns := s.conns.set c { sock with acquired := ∅, releasing := none } }
      else .ok s
  | .tick t => .ok { s with env := { s.env with now := t } }
  | .gcStart => .ok { s with gc := some (s.gc.getD (0, {})) }
  | .gcNext => .ok (gcStep s)

/-- Conservation, as a property of a state. -/
structure Conserved (s : State) : Prop where
  /-- The stored total is the sum of the shares. -/
  sum : ∀ name p, s.hash.find name = some p →
    p.val.consumption.toNat = total Socket.amount s.conns p.addr
  /-- A recorded key pointer points to the key of a counter in the map. -/
  live : ∀ sock ∈ s.conns, ∀ a ∈ sock.held, ∃ name p, s.hash.find name = some p ∧ p.addr = a

/-- The step condition: an `Acquire` granted by an existing counter does not wrap around. -/
def NoWrap (s : State) : Event → Prop
  | .request _ buf =>
    (Request.parse buf).command = .Acquire → (Request.parse buf).status = .OK →
    ∀ p ∈ s.hash.find (Request.parse buf).name,
      p.val.consumption + (Request.parse buf).resources ≤ (Request.parse buf).maximum →
      p.val.consumption.toNat + (Request.parse buf).resources.toNat < 2 ^ 32
  | _ => True

instance (s : State) (e : Event) : Decidable (NoWrap s e) :=
  match e with
  | .request _ buf =>
    inferInstanceAs (Decidable (_ → _ → ∀ p ∈ s.hash.find (Request.parse buf).name, _ → _))
  | .accept | .releaseAll _ | .releaseNext _ _ | .releaseDone _ | .tick _ | .gcStart | .gcNext =>
    .isTrue trivial

/-! ## Shares -/

namespace Socket

variable {s : Socket} {a : Nat}

theorem held_of_releasing (h : s.releasing = none) : s.held = s.acquired := by
  unfold held; rw [h, Option.getD_none]

theorem amount_of_lookup {n : UInt32} (h : s.held.lookup a = some n) :
    s.amount a = n.toNat := by
  unfold amount; rw [h]; rfl

theorem amount_of_held_eq {s' : Socket} (h : s'.held = s.held) (a : Nat) :
    s'.amount a = s.amount a := by
  unfold amount; rw [h]

theorem amount_of_lookup_eq {s' : Socket} (h : s'.held.lookup a = s.held.lookup a) :
    s'.amount a = s.amount a := by
  unfold amount; rw [h]

theorem amount_eq_zero (h : s.held.lookup a = none) : s.amount a = 0 := by
  unfold amount; rw [h]; rfl

end Socket

/-! ## The invariant -/

/-- The invariant of the server. -/
structure Inv (s : State) : Prop where
  sum : ∀ k p, s.hash.find k = some p →
    p.val.consumption.toNat = total Socket.amount s.conns p.addr
  live : ∀ sock ∈ s.conns, ∀ a n, sock.held.lookup a = some n → a ∈ s.hash.addrs
  pos : ∀ sock ∈ s.conns, ∀ a n, sock.held.lookup a = some n → n ≠ 0

theorem Inv.conserved {s : State} (h : Inv s) : Conserved s where
  sum := h.sum
  live := by
    intro sock hsock a ha
    obtain ⟨n, hn⟩ := Option.isSome_iff_exists.mp (AList.lookup_isSome.mpr ha)
    exact s.hash.mem_addrs_iff.mp (h.live sock hsock a n hn)

theorem inv_init (hash : Key → Nat) (alloc : List Nat → Nat) (fresh : ∀ live, alloc live ∉ live) (n : Nat)
    (env : Env) : Inv (State.init hash alloc fresh n env) where
  sum := by
    intro k p hp
    have hmem := Table.find_mem _ hp
    simp [State.init, Table.cells, Table.empty] at hmem
  live := by intro sock hsock; cases hsock
  pos := by intro sock hsock; cases hsock

/-- **One connection and the map change.**  What a step has to show: the map's totals moved as the
    connection's share did, no address died, and the new record is live and positive. -/
theorem Inv.setConn {s : State} (h : Inv s) {c : Nat} {sock sock' : Socket} {m : HashMap Object}
    (hc : s.conns[c]? = some sock)
    (hsum : ∀ k p, m.find k = some p → p.val.consumption.toNat + sock.amount p.addr
      = total Socket.amount s.conns p.addr + sock'.amount p.addr)
    (haddr : ∀ a ∈ s.hash.addrs, a ∈ m.addrs)
    (hnew : ∀ a n, sock'.held.lookup a = some n → a ∈ m.addrs ∧ n ≠ 0) :
    Inv { s with hash := m, conns := s.conns.set c sock' } where
  sum := by
    intro k p hp
    have h1 := hsum k p hp
    have h2 := total_set Socket.amount hc sock' p.addr
    show _ = total Socket.amount (s.conns.set c sock') p.addr
    omega
  live := by
    intro x hx a n hn
    rcases List.mem_or_eq_of_mem_set hx with hx | rfl
    · exact haddr a (h.live x hx a n hn)
    · exact (hnew a n hn).1
  pos := by
    intro x hx a n hn
    rcases List.mem_or_eq_of_mem_set hx with hx | rfl
    · exact h.pos x hx a n hn
    · exact (hnew a n hn).2

/-- A connection changes without changing what it holds. -/
theorem Inv.setHeld {s : State} (h : Inv s) {c : Nat} {sock sock' : Socket}
    (hc : s.conns[c]? = some sock) (hheld : sock'.held = sock.held) :
    Inv { s with conns := s.conns.set c sock' } := by
  refine h.setConn (m := s.hash) hc ?_ (fun a ha => ha) ?_
  · intro k p hp
    rw [h.sum k p hp, Socket.amount_of_held_eq hheld]
  · intro a n hn
    rw [hheld] at hn
    exact ⟨h.live sock (List.mem_of_getElem? hc) a n hn, h.pos sock (List.mem_of_getElem? hc) a n hn⟩

variable {k : Key} {p : Cell Key Object} {o : Object} {r : UInt32}

/-- A share never exceeds the total. -/
theorem Inv.amount_le {s : State} (h : Inv s) {sock : Socket} (hs : sock ∈ s.conns)
    (hp : s.hash.find k = some p) : sock.amount p.addr ≤ p.val.consumption.toNat := by
  rw [h.sum k p hp]
  exact amount_le_total hs p.addr

/-- Nobody holds anything of an address that is not live. -/
theorem Inv.lookup_dead {s : State} (h : Inv s) {sock : Socket} (hs : sock ∈ s.conns) {a : Nat}
    (ha : a ∉ s.hash.addrs) : sock.held.lookup a = none := by
  cases hl : sock.held.lookup a with
  | none => rfl
  | some n => exact absurd (h.live sock hs a n hl) ha

/-! ## The map and one record change together

  `write` at one address, with the connection's share of that address moving by as much: both
  `Acquire` and `Release`, and one visit of `release_all`. -/

theorem Inv.writeShare {s : State} (h : Inv s) {c : Nat} {sock sock' : Socket}
    (hc : s.conns[c]? = some sock) (hp : s.hash.find k = some p)
    (hsame : ∀ a, a ≠ p.addr → sock'.held.lookup a = sock.held.lookup a)
    (hbal : o.consumption.toNat + sock.amount p.addr = p.val.consumption.toNat + sock'.amount p.addr)
    (hpos : ∀ n, sock'.held.lookup p.addr = some n → n ≠ 0) :
    Inv { s with hash := s.hash.write p.addr o, conns := s.conns.set c sock' } := by
  have hsock := List.mem_of_getElem? hc
  refine h.setConn hc ?_ (fun a ha => (s.hash.mem_addrs_write _ _).mpr ha) ?_
  · intro l q hq
    by_cases hl : l = k
    · subst hl
      rw [s.hash.find_write_self hp, Option.some.injEq] at hq
      subst hq
      rw [Cell.put_val, Cell.put_addr, hbal, h.sum l p hp]
    · rw [s.hash.find_write_of_ne hp o hl] at hq
      have hne : q.addr ≠ p.addr := fun ha => hl (s.hash.find_addr_inj hq hp ha).1
      rw [h.sum l q hq, Socket.amount_of_lookup_eq (hsame q.addr hne)]
  · intro a n hn
    rw [s.hash.mem_addrs_write]
    by_cases ha : a = p.addr
    · subst ha
      exact ⟨s.hash.mem_addrs_iff.mpr ⟨k, p, hp, rfl⟩, hpos n hn⟩
    · rw [hsame a ha] at hn
      exact ⟨h.live sock hsock a n hn, h.pos sock hsock a n hn⟩

/-! ## Commands -/

section Command

variable {s : State} {c : Nat} {sock sock' : Socket}

theorem Inv.create (h : Inv s) (hc : s.conns[c]? = some sock) (hrel : sock.releasing = none)
    (hk : s.hash.find k = none) (hr0 : r ≠ 0)
    (ho : o.consumption = r) (ha : sock'.acquired = (sock.onAcquire ⟨s.hash.newAddr, k⟩ r).acquired)
    (hr : sock'.releasing = sock.releasing) :
    Inv { s with hash := s.hash.push k o, conns := s.conns.set c sock' } := by
  have hsock := List.mem_of_getElem? hc
  have hdead : sock.held.lookup s.hash.newAddr = none :=
    h.lookup_dead hsock (s.hash.fresh s.hash.addrs)
  have hheld : ∀ a, sock'.held.lookup a
      = if a = s.hash.newAddr then some r else sock.held.lookup a := by
    intro a
    rw [Socket.held_of_releasing (hr.trans hrel), Socket.held_of_releasing hrel, ha,
      Socket.lookup_onAcquire]
    by_cases hn : a = s.hash.newAddr
    · rw [Socket.held_of_releasing hrel] at hdead
      simp only [if_pos hn]
      rw [hn, hdead, Option.getD_none, UInt32.zero_add]
    · simp only [if_neg hn]
  refine h.setConn hc ?_ (fun a ha => (s.hash.mem_addrs_push _ hk).mpr (Or.inr ha)) ?_
  · intro l p hp
    by_cases hl : l = k
    · -- the new counter: nobody else can hold its address yet
      subst hl
      rw [s.hash.find_push_self _ hk, Option.some.injEq] at hp
      subst hp
      have hzero : total Socket.amount s.conns s.hash.newAddr = 0 := total_eq_zero fun x hx =>
        Socket.amount_eq_zero (h.lookup_dead hx (s.hash.fresh s.hash.addrs))
      have hshare : sock'.amount s.hash.newAddr = r.toNat :=
        Socket.amount_of_lookup (by rw [hheld, if_pos rfl])
      show o.consumption.toNat + sock.amount s.hash.newAddr
        = total Socket.amount s.conns s.hash.newAddr + sock'.amount s.hash.newAddr
      rw [hzero, hshare, ho, Socket.amount_eq_zero hdead, Nat.zero_add, Nat.add_zero]
    · rw [s.hash.find_push_of_ne _ hk hl] at hp
      rw [h.sum l p hp, Socket.amount_of_lookup_eq (by rw [hheld, if_neg (s.hash.newAddr_ne hp)])]
  · intro a n hn
    rw [hheld] at hn
    rw [s.hash.mem_addrs_push _ hk]
    by_cases hna : a = s.hash.newAddr
    · rw [if_pos hna, Option.some.injEq] at hn
      exact ⟨Or.inl hna, hn ▸ hr0⟩
    · rw [if_neg hna] at hn
      exact ⟨Or.inr (h.live sock hsock a n hn), h.pos sock hsock a n hn⟩

theorem Inv.acquire (h : Inv s) (hc : s.conns[c]? = some sock) (hrel : sock.releasing = none)
    (hk : s.hash.find k = some p) (hr0 : r ≠ 0) (hwrap : p.val.consumption.toNat + r.toNat < 2 ^ 32)
    (ho : o.consumption = p.val.consumption + r) (ha : sock'.acquired = (sock.onAcquire (itemRef p) r).acquired)
    (hr : sock'.releasing = sock.releasing) :
    Inv { s with hash := s.hash.write p.addr o, conns := s.conns.set c sock' } := by
  have hheld : ∀ a, sock'.held.lookup a
      = if a = p.addr then some ((sock.held.lookup a).getD 0 + r) else sock.held.lookup a := by
    intro a
    rw [Socket.held_of_releasing (hr.trans hrel), Socket.held_of_releasing hrel, ha,
      Socket.lookup_onAcquire]
    rfl
  -- the share is at most the total, so the share's sum does not wrap either
  have hshare : sock.amount p.addr = ((sock.held.lookup p.addr).getD 0).toNat := by
    unfold Socket.amount
    cases sock.held.lookup p.addr <;> rfl
  have hle := h.amount_le (List.mem_of_getElem? hc) hk
  have hnew : (((sock.held.lookup p.addr).getD 0) + r).toNat = sock.amount p.addr + r.toNat := by
    rw [UInt32.toNat_add, hshare, Nat.mod_eq_of_lt (by omega)]
  have hself : sock'.held.lookup p.addr = some ((sock.held.lookup p.addr).getD 0 + r) := by
    rw [hheld, if_pos rfl]
  have hrpos : r.toNat ≠ 0 := fun h0 => hr0 (UInt32.toNat_inj.mp h0)
  refine h.writeShare hc hk (fun a hne => by rw [hheld, if_neg hne]) ?_ ?_
  · rw [Socket.amount_of_lookup hself, hnew, ho, UInt32.toNat_add, Nat.mod_eq_of_lt hwrap]
    omega
  · intro n hn hn0
    rw [hself, Option.some.injEq] at hn
    rw [hn, hn0] at hnew
    have : (0 : UInt32).toNat = 0 := rfl
    omega

theorem Inv.release (h : Inv s) (hc : s.conns[c]? = some sock) (hrel : sock.releasing = none)
    (hk : s.hash.find k = some p) (hrec : (sock.onRelease (itemRef p) r).1 = true) (hle : r ≤ p.val.consumption)
    (ho : o.consumption = p.val.consumption - r)
    (ha : sock'.acquired = (sock.onRelease (itemRef p) r).2.acquired) (hr : sock'.releasing = sock.releasing) :
    Inv { s with hash := s.hash.write p.addr o, conns := s.conns.set c sock' } := by
  obtain ⟨n, hn, hrn, hlook⟩ := Socket.lookup_onRelease hrec
  have hheld : ∀ a, sock'.held.lookup a
      = if a = p.addr then (if n = r then none else some (n - r)) else sock.held.lookup a := by
    intro a
    rw [Socket.held_of_releasing (hr.trans hrel), Socket.held_of_releasing hrel, ha, hlook]
    rfl
  have hold : sock.amount p.addr = n.toNat :=
    Socket.amount_of_lookup (by rw [Socket.held_of_releasing hrel]; exact hn)
  have hnew : sock'.amount p.addr = n.toNat - r.toNat := by
    unfold Socket.amount
    rw [hheld, if_pos rfl]
    by_cases heq : n = r
    · rw [if_pos heq, heq]; simp
    · rw [if_neg heq]; exact UInt32.toNat_sub_of_le n r hrn
  have hrn' : r.toNat ≤ n.toNat := hrn
  have hle' : r.toNat ≤ p.val.consumption.toNat := hle
  refine h.writeShare hc hk (fun a hne => by rw [hheld, if_neg hne]) ?_ ?_
  · rw [hnew, hold, ho, UInt32.toNat_sub_of_le _ _ hle]
    omega
  · intro q hq hq0
    rw [hheld, if_pos rfl] at hq
    by_cases heq : n = r
    · rw [if_pos heq] at hq; cases hq
    · rw [if_neg heq, Option.some.injEq] at hq
      have hsub := UInt32.toNat_sub_of_le n r hrn
      rw [hq, hq0] at hsub
      have hzero : (0 : UInt32).toNat = 0 := rfl
      exact heq (UInt32.toNat_inj.mp (by omega))

/-- A command keeps the invariant, and does not throw. -/
theorem Inv.execute (h : Inv s) (hc : s.conns[c]? = some sock) (hrel : sock.releasing = none)
    {buf : Bytes} (hw : NoWrap s (.request c buf)) :
    ∃ m sock', execute s.env s.hash (Request.parse buf) sock = .ok (m, sock') ∧
      Inv { s with hash := m, conns := s.conns.set c sock' } := by
  have hout := execute_outcome s.env s.hash buf sock
  generalize hres : Counter.execute s.env s.hash (Request.parse buf) sock = res at hout
  cases hout with
  | reply ha hr =>
    refine ⟨_, _, rfl, h.setHeld hc ?_⟩
    rw [Socket.held_of_releasing (hr.trans hrel), Socket.held_of_releasing hrel, ha]
  | create hk hr0 ho ha hr => exact ⟨_, _, rfl, h.create hc hrel hk hr0 ho ha hr⟩
  | acquire hcmd hst hk hr0 hle ho ha hr =>
    exact ⟨_, _, rfl, h.acquire hc hrel hk hr0 (hw hcmd hst _ hk hle) ho ha hr⟩
  | release hk hrec hle ho ha hr => exact ⟨_, _, rfl, h.release hc hrel hk hrec hle ho ha hr⟩
  | broken hk hrec hlt =>
    -- the recorded share covers the request, and the total covers the share
    obtain ⟨n, hn, hrn, -⟩ := Socket.lookup_onRelease hrec
    have hshare := h.amount_le (List.mem_of_getElem? hc) hk
    rw [Socket.amount_of_lookup (n := n) (by rw [Socket.held_of_releasing hrel]; exact hn)] at hshare
    have hle := UInt32.le_trans hrn (UInt32.le_iff_toNat_le.mpr hshare)
    exact absurd (UInt32.lt_of_lt_of_le hlt hle) (UInt32.lt_irrefl _)

end Command

/-! ## `release_all` and GC -/

/-- One visit of `release_all` keeps the invariant, and does not throw. -/
theorem Inv.releaseStep {s : State} (h : Inv s) {c : Nat} {sock : Socket}
    (hc : s.conns[c]? = some sock) (a : Nat) : ∃ s', releaseStep s c a sock = .ok s' ∧ Inv s' := by
  have hsock := List.mem_of_getElem? hc
  unfold Counter.releaseStep
  cases hv : sock.releasing.bind fun rest => (rest.lookup a).map (rest, ·) with
  | none => exact ⟨s, rfl, h⟩
  | some it =>
    obtain ⟨rest, hrel, hv⟩ := Option.bind_eq_some_iff.mp hv
    obtain ⟨count, hl, rfl⟩ := Option.map_eq_some_iff.mp hv
    have hheld : sock.held = rest := by unfold Socket.held; rw [hrel, Option.getD_some]
    obtain ⟨k, p, hk, rfl⟩ := s.hash.mem_addrs_iff.mp (h.live sock hsock a count (by rw [hheld, hl]))
    have hshare := h.amount_le hsock hk
    have hamount : sock.amount p.addr = count.toNat := Socket.amount_of_lookup (by rw [hheld, hl])
    rw [hamount] at hshare
    cases hr : p.val.release s.env count with
    | mk done o =>
      cases done with
      | false =>
        have hlt := Object.release_failed (congrArg Prod.fst hr)
        exact absurd (UInt32.lt_of_lt_of_le hlt (UInt32.le_iff_toNat_le.mpr hshare)) (UInt32.lt_irrefl _)
      | true =>
        obtain ⟨ho, hle⟩ := Object.release_done (congrArg Prod.fst hr)
        rw [hr] at ho
        have hone : releaseOne s.env s.hash p.addr count = .ok (s.hash.write p.addr o) := by
          unfold releaseOne
          rw [s.hash.deref_eq_some_iff.mpr ⟨p, hk, rfl⟩]
          simp only [HashMap.apply_found hk, releaseAllHandler, hr]
        dsimp only
        rw [hone]
        refine ⟨_, rfl, h.writeShare hc hk ?_ ?_ ?_⟩
        · intro b hb
          rw [hheld]
          exact AList.lookup_erase_ne hb
        · have hnone : Socket.amount { sock with releasing := some (rest.erase p.addr) } p.addr = 0 :=
            Socket.amount_eq_zero (AList.lookup_erase p.addr rest)
          rw [hnone, hamount, ho, UInt32.toNat_sub_of_le _ _ hle]
          omega
        · intro n hn
          rw [show Socket.held { sock with releasing := some (rest.erase p.addr) }
            = rest.erase p.addr from rfl, AList.lookup_erase] at hn
          cases hn

/-- A GC pass over one bucket keeps the invariant: it deletes counters with total 0 only, and nobody
    holds a share of those. -/
theorem Inv.gcBucket {s : State} (h : Inv s) (i : Nat) (t t' : GcThread) (j : Nat) :
    Inv { s with hash := (HashMap.gc s.hash i (gcPred s.env) t).1, gc := some (j, t') } := by
  rw [HashMap.gc_eq_sweep (gcPred_steady s.env)]
  have hfind : ∀ k p, (s.hash.sweep i fun c =>
      if c.val.deletable s.env then none else some c.val).find k = some p → s.hash.find k = some p := by
    intro k p hp
    rw [Table.find_sweep] at hp
    split_ifs at hp with hi
    · obtain ⟨c, hc, hcp⟩ := Option.bind_eq_some_iff.mp hp
      split_ifs at hcp
      · cases hcp
      · rw [hc, ← hcp]; rfl
    · exact hp
  refine ⟨fun k p hp => h.sum k p (hfind k p hp), fun sock hs a n hn => ?_, h.pos⟩
  obtain ⟨k, p, hk, rfl⟩ := s.hash.mem_addrs_iff.mp (h.live sock hs a n hn)
  refine (Table.mem_addrs_iff _).mpr ⟨k, p, ?_, rfl⟩
  -- a share of `p` is held, so its total is not 0 and it is not deletable
  have hne : p.val.deletable s.env = false := by
    have hshare := h.amount_le hs hk
    rw [Socket.amount_of_lookup hn] at hshare
    have hpos : n.toNat ≠ 0 := fun h0 => h.pos sock hs p.addr n hn (UInt32.toNat_inj.mp h0)
    have hcons : p.val.consumption ≠ 0 := by
      intro h0
      rw [h0] at hshare
      have : (0 : UInt32).toNat = 0 := rfl
      omega
    unfold Object.deletable
    rw [beq_eq_false_iff_ne.mpr hcons, Bool.false_and]
  rw [Table.find_sweep, hk]
  split_ifs
  · rw [Option.bind_some, if_neg (by rw [hne]; decide)]
    rfl
  · rfl

/-! ## Steps and runs -/

theorem Inv.withConn {s : State} (h : Inv s) {c : Nat} {f : Socket → Except Err State}
    (hf : ∀ sock, s.conns[c]? = some sock → ∃ s', f sock = .ok s' ∧ Inv s') :
    ∃ s', s.withConn c f = .ok s' ∧ Inv s' := by
  unfold State.withConn
  cases hc : s.conns[c]? with
  | none => exact ⟨s, rfl, h⟩
  | some sock => exact hf sock hc

theorem Inv.requestStep {s : State} (h : Inv s) {c : Nat} {buf : Bytes}
    (hw : NoWrap s (.request c buf)) {sock : Socket} (hc : s.conns[c]? = some sock) :
    ∃ s', requestStep s c buf sock = .ok s' ∧ Inv s' := by
  unfold Counter.requestStep
  by_cases hg : sock.releasing.isSome ∨ (Request.parse buf).length = 0
  · rw [if_pos hg]; exact ⟨s, rfl, h⟩
  · rw [if_neg hg]
    have hrel : sock.releasing = none := by
      rw [← Option.not_isSome_iff_eq_none]
      exact fun hs => hg (Or.inl hs)
    obtain ⟨m, sock', hex, hinv⟩ := h.execute hc hrel hw
    rw [hex]
    exact ⟨_, rfl, hinv⟩

theorem Inv.accept {s : State} (h : Inv s) : Inv { s with conns := s.conns ++ [({} : Socket)] } := by
  have hnew : ∀ x ∈ s.conns ++ [({} : Socket)], x ∈ s.conns ∨ x.held = ∅ := by
    intro x hx
    rcases List.mem_append.mp hx with hx | hx
    · exact Or.inl hx
    · rw [List.mem_singleton.mp hx]; exact Or.inr rfl
  refine ⟨fun k p hp => ?_, fun x hx a n hn => ?_, fun x hx a n hn => ?_⟩
  · show _ = total Socket.amount (s.conns ++ [({} : Socket)]) p.addr
    rw [total_append, total_singleton, h.sum k p hp]
    rfl
  · rcases hnew x hx with hx | hx
    · exact h.live x hx a n hn
    · rw [hx] at hn; cases hn
  · rcases hnew x hx with hx | hx
    · exact h.pos x hx a n hn
    · rw [hx] at hn; cases hn

/-- **Step**: under `NoWrap` no event throws, and the invariant is kept. -/
theorem Inv.step {s : State} (e : Event) (h : Inv s) (hw : NoWrap s e) :
    ∃ s', step s e = .ok s' ∧ Inv s' := by
  cases e with
  | accept => exact ⟨_, rfl, h.accept⟩
  | request c buf => exact h.withConn fun sock hc => h.requestStep hw hc
  | releaseAll c =>
    refine h.withConn fun sock hc => ?_
    cases hrel : sock.releasing with
    | some rest => exact ⟨s, rfl, h⟩
    | none => exact ⟨_, rfl, h.setHeld hc (Socket.held_of_releasing hrel).symm⟩
  | releaseNext c a => exact h.withConn fun sock hc => h.releaseStep hc a
  | releaseDone c =>
    refine h.withConn fun sock hc => ?_
    by_cases hdone : sock.releasing.map AList.entries = some []
    · -- nothing is left to visit, and nothing is held after the `clear`
      obtain ⟨rest, hrest, hnil⟩ := Option.map_eq_some_iff.mp hdone
      have hempty : rest = ∅ := AList.ext hnil
      rw [if_pos hdone]
      refine ⟨_, rfl, h.setHeld hc ?_⟩
      unfold Socket.held
      rw [hrest, hempty]
      rfl
    · rw [if_neg hdone]; exact ⟨s, rfl, h⟩
  | tick t => exact ⟨_, rfl, h.sum, h.live, h.pos⟩
  | gcStart => exact ⟨_, rfl, h.sum, h.live, h.pos⟩
  | gcNext =>
    refine ⟨_, rfl, ?_⟩
    unfold gcStep
    split
    · exact h
    · split_ifs
      · exact h.gcBucket _ _ _ _
      · exact ⟨h.sum, h.live, h.pos⟩

/-- **Conservation.**  Every run in which no granted `Acquire` wraps around succeeds — none of the
    `logic_error`s is thrown — and its last state is conserved. -/
theorem conservation_of_noWrap (hash : Key → Nat) (alloc : List Nat → Nat)
    (fresh : ∀ live, alloc live ∉ live) (n : Nat) (env : Env) (es : List Event)
    (hw : Along NoWrap step (State.init hash alloc fresh n env) es) :
    ∃ s, run step (State.init hash alloc fresh n env) es = .ok s ∧ Conserved s := by
  obtain ⟨s, hrun, hinv⟩ := run_invariant (fun s e h hp => Inv.step e h hp) es _
    (inv_init hash alloc fresh n env) hw
  exact ⟨s, hrun, hinv.conserved⟩

/-! ## The run that wraps around -/

/-- An `Acquire` (opcode 2) or `Release` (opcode 3) packet for the counter named "a". -/
def acquirePacket (resources maximum : Nat) : Bytes :=
  [0x90, 2, 0, 0] ++ BigEndian.encode 4 11 ++ [0, 0, 0, 0]
    ++ BigEndian.encode 4 resources ++ BigEndian.encode 4 maximum ++ [0, 1, 97]

/-- A Release of "a", as it arrives. -/
def releasePacket (resources : Nat) : Bytes :=
  [0x90, 3, 0, 0] ++ BigEndian.encode 4 7 ++ [0, 0, 0, 0]
    ++ BigEndian.encode 4 resources ++ [0, 1, 97]

/-- A server with one bucket. -/
def oneBucket : State :=
  State.init (fun _ => 0) Table.bump Table.bump_fresh 0 ⟨1000, 10, fun _ => "", 16, 16⟩

/-- One connection takes all of 2^32 - 1; the other then asks for 2 of a maximum of 10. -/
def wrapRun : List Event :=
  [.accept, .accept, .request 0 (acquirePacket (2 ^ 32 - 1) (2 ^ 32 - 1)), .request 1 (acquirePacket 2 10)]

/-- **The shares and the total part**, and the second connection's `Release` of what it was granted
    throws. -/
theorem acquire_wraps :
    (∃ s, run step oneBucket wrapRun = .ok s ∧ ¬ Conserved s) ∧
      run step oneBucket (wrapRun ++ [.request 1 (releasePacket 2)]) = .error .cmdRelease := by
  refine ⟨⟨_, rfl, fun h => ?_⟩, rfl⟩
  have hsum := h.sum [97] _ rfl
  revert hsum
  decide

/-- A run that meets the condition: two connections share a counter, one of them ends. -/
theorem conservation_two_clients :
    ∃ s, run step oneBucket
      [.accept, .accept, .request 0 (acquirePacket 3 10), .request 1 (acquirePacket 7 10),
        .request 0 (releasePacket 1), .releaseAll 1, .releaseNext 1 0, .releaseDone 1, .tick 5000,
        .gcStart, .gcNext] = .ok s ∧ Conserved s := by
  exact conservation_of_noWrap _ _ _ _ _ _ (by decide)

end Yrmcds.Counter
