/-
  The counter commands against their documentation (docs/counter.md, "Acquire", "Release", "Get").

  `documented` is the documentation, in plain arithmetic: from the consumption of the named counter and the
  number of units the connection holds of it, the new consumption, the new number and the reply.
  `Meets` compares one request of a running server with it.

  There are TWO requests that do not meet it:

  1. an `Acquire` whose sum wraps around.  `object::acquire` compares a 32-bit sum with the maximum, so it
     grants what the documented `Consumption + Resources <= Maximum` refuses;
  2. a `Release` of zero units by a connection that holds none.  "It can be zero", and zero is not greater
     than the number of acquired resources — but `on_release` has no entry to look at and answers
     "Not acquired".

  `documented_iff`: in every run, all requests meet the documentation exactly if none of them is one of the
  two.  The invariant is the conservation of `Yrmcds.Counter.Conservation`; without the first kind of
  request a connection never holds more than the counter has given out, so nothing else can wrap around.
-/
import Yrmcds.Counter.Conservation

namespace Yrmcds.Counter

open ChainTable Run

/-! ## The documentation -/

/-- What a request should do to a counter and its holder, and what the holder should be told. -/
structure Documented where
  consumption : Option Nat
  held : Nat
  reply : Packet
  /-- A refused request changes nothing. -/
  changes : Bool

/-- `Acquire`. -/
def documentedAcquire (cmd : Request) (consumption : Option Nat) (held : Nat) : Documented :=
  let r := cmd.resources.toNat
  match consumption with
  | none => ⟨some r, held + r, cmd.get cmd.resources, true⟩
  | some c =>
    if c + r ≤ cmd.maximum.toNat then ⟨some (c + r), held + r, cmd.get cmd.resources, true⟩
    else ⟨some c, held, cmd.error .ResourceNotAvailable, false⟩

/-- `Release`. -/
def documentedRelease (cmd : Request) (consumption : Option Nat) (held : Nat) : Documented :=
  let r := cmd.resources.toNat
  match consumption with
  | none => ⟨none, held, cmd.error .NotFound, false⟩
  | some c =>
    if r ≤ held then ⟨some (c - r), held - r, cmd.success, true⟩
    else ⟨some c, held, cmd.error .NotAcquired, false⟩

/-- `Get`. -/
def documentedGet (cmd : Request) (consumption : Option Nat) (held : Nat) : Documented :=
  match consumption with
  | none => ⟨none, held, cmd.error .NotFound, false⟩
  | some c => ⟨some c, held, cmd.get (UInt32.ofNat c), false⟩

/-- The documented commands on a counter. -/
def documented (cmd : Request) (consumption : Option Nat) (held : Nat) : Option Documented :=
  match cmd.command with
  | .Acquire => some (documentedAcquire cmd consumption held)
  | .Release => some (documentedRelease cmd consumption held)
  | .Get => some (documentedGet cmd consumption held)
  | _ => none

/-! ## The code -/

/-- The consumption of a counter; `none` if there is no such counter. -/
def consumptionOf (m : HashMap Object) (name : Key) : Option Nat :=
  (m.find name).map fun p => p.val.consumption.toNat

/-- How many units of a counter the connection has recorded. -/
def Socket.holds (s : Socket) (m : HashMap Object) (name : Key) : Nat :=
  ((m.find name).bind fun p => s.acquired.lookup p.addr).elim 0 UInt32.toNat

/-- The connection and the counters after a command, against what is documented. -/
structure Answers (m : HashMap Object) (s : Socket) (cmd : Request) (d : Documented) (m' : HashMap Object)
    (s' : Socket) : Prop where
  consumption : consumptionOf m' cmd.name = d.consumption
  held : s'.holds m' cmd.name = d.held
  reply : s'.sent = s.sent ++ [d.reply]
  refused : d.changes = false → m' = m ∧ s'.acquired = s.acquired
  /-- Other counters, and what the connection holds of them, stay as they are. -/
  others : ∀ name, name ≠ cmd.name →
    m'.find name = m.find name ∧ s'.holds m' name = s.holds m name

/-- **One request of a running server meets the documentation**: it is answered, no other connection is
    touched, and the rest is as documented. -/
def Meets (s : State) : Event → Prop
  | .request c buf =>
    ∀ sock ∈ s.conns[c]?, sock.releasing = none → (Request.parse buf).status = .OK →
      ∀ d ∈ documented (Request.parse buf) (consumptionOf s.hash (Request.parse buf).name)
          (sock.holds s.hash (Request.parse buf).name),
        ∃ m sock', step s (.request c buf) = .ok { s with hash := m, conns := s.conns.set c sock' } ∧
          Answers s.hash sock (Request.parse buf) d m sock'
  | _ => True

/-- The two kinds of requests that do not. -/
def Deviates (s : State) : Event → Prop
  | .request c buf =>
    ∃ sock ∈ s.conns[c]?, sock.releasing = none ∧ (Request.parse buf).status = .OK ∧
      ∃ p ∈ s.hash.find (Request.parse buf).name,
        ((Request.parse buf).command = .Acquire ∧
          p.val.consumption + (Request.parse buf).resources ≤ (Request.parse buf).maximum ∧
          2 ^ 32 ≤ p.val.consumption.toNat + (Request.parse buf).resources.toNat) ∨
        ((Request.parse buf).command = .Release ∧ (Request.parse buf).resources = 0 ∧
          sock.acquired.lookup p.addr = none)
  | _ => False

instance (s : State) (e : Event) : Decidable (Deviates s e) :=
  match e with
  | .request c buf => inferInstanceAs (Decidable (∃ sock ∈ s.conns[c]?, _ ∧ _ ∧
      ∃ p ∈ s.hash.find (Request.parse buf).name, _))
  | .accept | .releaseAll _ | .releaseNext _ _ | .releaseDone _ | .tick _ | .gcStart | .gcNext =>
    .isFalse id

/-! ## What a connection holds -/

namespace Socket

variable {m : HashMap Object} {s : Socket} {name : Key} {p : Cell Key Object}

theorem holds_of_find (hp : m.find name = some p) :
    s.holds m name = ((s.acquired.lookup p.addr).getD 0).toNat := by
  unfold holds
  rw [hp, Option.bind_some]
  cases s.acquired.lookup p.addr <;> rfl

theorem holds_of_absent (hp : m.find name = none) : s.holds m name = 0 := by
  unfold holds
  rw [hp]
  rfl

/-- Only the counter and the record matter. -/
theorem holds_congr {m' : HashMap Object} {s' : Socket} (hm : m'.find name = m.find name)
    (hs : ∀ p, m.find name = some p → s'.acquired.lookup p.addr = s.acquired.lookup p.addr) :
    s'.holds m' name = s.holds m name := by
  unfold holds
  rw [hm]
  cases hp : m.find name with
  | none => rfl
  | some p => rw [Option.bind_some, Option.bind_some, hs p hp]

end Socket

variable {k : KeyRef} {r : UInt32} {e : Event}

section Commands

variable {g : Env} {m : HashMap Object} {cmd : Request} {s : Socket} {p : Cell Key Object}

theorem consumptionOf_find (hp : m.find cmd.name = some p) :
    consumptionOf m cmd.name = some p.val.consumption.toNat := congrArg (Option.map _) hp

theorem consumptionOf_absent (hp : m.find cmd.name = none) : consumptionOf m cmd.name = none :=
  congrArg (Option.map _) hp

/-- A reply and nothing else. -/
theorem answers_reply {d : Documented} {r : Packet} (hc : d.consumption = consumptionOf m cmd.name)
    (hh : d.held = s.holds m cmd.name) (hr : d.reply = r) : Answers m s cmd d m (s.send r) :=
  ⟨hc.symm, hh.symm, by rw [hr]; rfl, fun _ => ⟨rfl, rfl⟩, fun _ _ => ⟨rfl, rfl⟩⟩

/-- A counter is written, and the record at its address changes. -/
theorem answers_write {d : Documented} {o : Object} {s' : Socket} (hp : m.find cmd.name = some p)
    (hc : d.consumption = some o.consumption.toNat)
    (hh : ((s'.acquired.lookup p.addr).getD 0).toNat = d.held) (hr : s'.sent = s.sent ++ [d.reply])
    (hch : d.changes = true)
    (hothers : ∀ a, a ≠ p.addr → s'.acquired.lookup a = s.acquired.lookup a) :
    Answers m s cmd d (m.write p.addr o) s' := by
  have hself := m.find_write_self hp o
  refine ⟨?_, ?_, hr, fun h => ?_, fun name hne => ?_⟩
  · rw [consumptionOf_find hself, hc]
    rfl
  · rw [Socket.holds_of_find hself]
    exact hh
  · rw [hch] at h
    cases h
  · have hfind := m.find_write_of_ne hp o hne
    refine ⟨hfind, Socket.holds_congr hfind fun q hq => hothers q.addr fun ha => hne ?_⟩
    exact (m.find_addr_inj hq hp ha).1

theorem cmdGet_answers (m : HashMap Object) (cmd : Request) (s : Socket) :
    ∃ m' s', cmdGet m cmd s = .ok (m', s') ∧
      Answers m s cmd (documentedGet cmd (consumptionOf m cmd.name) (s.holds m cmd.name)) m' s' := by
  unfold cmdGet
  cases hp : m.find cmd.name with
  | none =>
    rw [HashMap.apply_absent hp]
    refine ⟨_, _, rfl, answers_reply ?_ ?_ ?_⟩ <;> rw [consumptionOf_absent hp] <;> rfl
  | some p =>
    rw [HashMap.apply_found hp]
    dsimp only [getHandler]
    rw [m.write_val hp]
    refine ⟨_, _, rfl, answers_reply ?_ ?_ ?_⟩ <;> rw [consumptionOf_find hp]
    · rfl
    · rfl
    · show cmd.get (UInt32.ofNat p.val.consumption.toNat) = _
      rw [UInt32.ofNat_toNat]

theorem onAcquire_sent (s : Socket) (k : KeyRef) (r : UInt32) : (s.onAcquire k r).sent = s.sent := by
  unfold Socket.onAcquire
  split <;> rfl

theorem onRelease_sent (s : Socket) (k : KeyRef) (r : UInt32) : (s.onRelease k r).2.sent = s.sent := by
  unfold Socket.onRelease
  split
  · rfl
  · split_ifs <;> rfl

/-- `Acquire` of a counter that is not there. -/
theorem cmdAcquire_absent (hp : m.find cmd.name = none) (hdead : s.acquired.lookup m.newAddr = none) :
    ∃ m' s', cmdAcquire g m cmd s = .ok (m', s') ∧
      Answers m s cmd (documentedAcquire cmd none (s.holds m cmd.name)) m' s' := by
  unfold cmdAcquire
  rw [HashMap.apply_create hp]
  dsimp only [acquireCreator]
  have hself := m.find_push_self (Object.new g cmd.resources) hp
  refine ⟨_, _, rfl, ?_, ?_, ?_, nofun, fun name hne => ?_⟩
  · exact consumptionOf_find hself
  · rw [Socket.holds_of_find hself, Socket.holds_of_absent hp]
    show (((s.onAcquire ⟨m.newAddr, cmd.name⟩ cmd.resources).acquired.lookup m.newAddr).getD 0).toNat = _
    rw [Socket.lookup_onAcquire, if_pos rfl, hdead, Option.getD_some, Option.getD_none, UInt32.zero_add]
    exact (Nat.zero_add _).symm
  · exact congrArg (· ++ [cmd.get cmd.resources]) (onAcquire_sent s _ _)
  · have hfind := m.find_push_of_ne (Object.new g cmd.resources) hp hne
    refine ⟨hfind, Socket.holds_congr hfind fun q hq => ?_⟩
    show (s.onAcquire ⟨m.newAddr, cmd.name⟩ cmd.resources).acquired.lookup q.addr = _
    rw [Socket.lookup_onAcquire, if_neg (m.newAddr_ne hq)]

/-- `Acquire` of a counter that is there, when neither sum wraps around. -/
theorem cmdAcquire_found (hp : m.find cmd.name = some p)
    (hwrap : p.val.consumption + cmd.resources ≤ cmd.maximum →
      p.val.consumption.toNat + cmd.resources.toNat < 2 ^ 32)
    (hheld : s.holds m cmd.name ≤ p.val.consumption.toNat) :
    ∃ m' s', cmdAcquire g m cmd s = .ok (m', s') ∧
      Answers m s cmd (documentedAcquire cmd (some p.val.consumption.toNat) (s.holds m cmd.name)) m' s' := by
  unfold cmdAcquire documentedAcquire
  rw [HashMap.apply_found hp]
  dsimp only [acquireHandler]
  cases ha : p.val.acquire g cmd.resources cmd.maximum with
  | mk granted o =>
    cases granted with
    | false =>
      -- The 32-bit sum is over the maximum, and the sum is not less.
      have ho := Object.acquire_refused (congrArg Prod.fst ha)
      have hgt : ¬ p.val.consumption + cmd.resources ≤ cmd.maximum := by
        intro hle
        unfold Object.acquire at ha
        rw [if_neg (UInt32.not_lt.mpr hle)] at ha
        cases ha
      have hover : ¬ p.val.consumption.toNat + cmd.resources.toNat ≤ cmd.maximum.toNat := by
        intro hle
        refine hgt (UInt32.le_iff_toNat_le.mpr ?_)
        rw [UInt32.toNat_add]
        exact Nat.le_trans (Nat.mod_le _ _) hle
      rw [ha] at ho
      dsimp only at ho ⊢
      rw [ho, m.write_val hp, if_neg hover]
      exact ⟨_, _, rfl, answers_reply (consumptionOf_find hp).symm rfl rfl⟩
    | true =>
      obtain ⟨ho, hle⟩ := Object.acquire_granted (congrArg Prod.fst ha)
      rw [ha] at ho
      have hsum :
        (p.val.consumption + cmd.resources).toNat = p.val.consumption.toNat + cmd.resources.toNat := by
        rw [UInt32.toNat_add, Nat.mod_eq_of_lt (hwrap hle)]
      have hunder : p.val.consumption.toNat + cmd.resources.toNat ≤ cmd.maximum.toNat :=
        hsum ▸ UInt32.le_iff_toNat_le.mp hle
      rw [Socket.holds_of_find hp] at hheld ⊢
      dsimp only
      rw [if_pos hunder]
      have hsent := onAcquire_sent s (itemRef p) cmd.resources
      refine ⟨_, _, rfl, answers_write hp ?_ ?_ (congrArg (· ++ _) hsent) rfl fun a hne => ?_⟩
      · rw [ho, hsum]
      · show (((s.onAcquire (itemRef p) cmd.resources).acquired.lookup p.addr).getD 0).toNat = _
        rw [Socket.lookup_onAcquire, if_pos (show p.addr = (itemRef p).addr from rfl), Option.getD_some,
          UInt32.toNat_add, Nat.mod_eq_of_lt]
        have := hwrap hle
        omega
      · show (s.onAcquire (itemRef p) cmd.resources).acquired.lookup a = _
        rw [Socket.lookup_onAcquire]
        exact if_neg hne

/-- `Release` of a counter that is not there. -/
theorem cmdRelease_absent (hp : m.find cmd.name = none) :
    ∃ m' s', cmdRelease g m cmd s = .ok (m', s') ∧
      Answers m s cmd (documentedRelease cmd none (s.holds m cmd.name)) m' s' := by
  unfold cmdRelease
  rw [HashMap.apply_absent hp]
  exact ⟨_, _, rfl, answers_reply (consumptionOf_absent hp).symm rfl rfl⟩

/-- `on_release` succeeds exactly if there is an entry that covers the units. -/
theorem onRelease_eq_true :
    (s.onRelease k r).1 = true ↔ ∃ n, s.acquired.lookup k.addr = some n ∧ r ≤ n := by
  constructor
  · intro h
    obtain ⟨n, hn, hle, -⟩ := Socket.lookup_onRelease h
    exact ⟨n, hn, hle⟩
  · rintro ⟨n, hn, hle⟩
    unfold Socket.onRelease
    rw [hn]
    dsimp only
    rw [if_neg (UInt32.not_lt.mpr hle)]
    split_ifs <;> rfl

/-- A refused release is of more than is held, unless it is of nothing by one who has nothing. -/
theorem over_of_refused (h : (s.onRelease k r).1 = false) (hzero : r = 0 → s.acquired.lookup k.addr ≠ none) :
    ¬ r.toNat ≤ ((s.acquired.lookup k.addr).getD 0).toNat := by
  intro hle
  cases hl : s.acquired.lookup k.addr with
  | none =>
    rw [hl] at hle
    exact hzero (UInt32.toNat_inj.mp (Nat.le_zero.mp hle)) hl
  | some n =>
    rw [hl] at hle
    have htrue := onRelease_eq_true.mpr ⟨n, hl, UInt32.le_iff_toNat_le.mpr hle⟩
    rw [h] at htrue
    cases htrue

/-- What a release that is recorded leaves of the entry. -/
theorem left_of_released (h : (s.onRelease k r).1 = true) :
    r.toNat ≤ ((s.acquired.lookup k.addr).getD 0).toNat ∧
      (((s.onRelease k r).2.acquired.lookup k.addr).getD 0).toNat
        = ((s.acquired.lookup k.addr).getD 0).toNat - r.toNat := by
  obtain ⟨n, hn, hle, hlook⟩ := Socket.lookup_onRelease h
  rw [hlook k.addr, if_pos rfl, hn]
  refine ⟨UInt32.le_iff_toNat_le.mp hle, ?_⟩
  by_cases heq : n = r
  · rw [if_pos heq, heq]
    exact (Nat.sub_self _).symm
  · rw [if_neg heq]
    exact UInt32.toNat_sub_of_le n r hle

/-- `Release` of a counter that is there, unless it is of nothing by one who has nothing. -/
theorem cmdRelease_found (hp : m.find cmd.name = some p)
    (hzero : cmd.resources = 0 → s.acquired.lookup p.addr ≠ none)
    (hheld : s.holds m cmd.name ≤ p.val.consumption.toNat) :
    ∃ m' s', cmdRelease g m cmd s = .ok (m', s') ∧
      Answers m s cmd (documentedRelease cmd (some p.val.consumption.toNat) (s.holds m cmd.name)) m' s' := by
  unfold cmdRelease documentedRelease
  rw [HashMap.apply_found hp]
  dsimp only [releaseHandler]
  rw [Socket.holds_of_find hp] at hheld ⊢
  cases hrec : s.onRelease (itemRef p) cmd.resources with
  | mk ok s' =>
    cases ok with
    | false =>
      have hfalse : (s.onRelease (itemRef p) cmd.resources).1 = false := congrArg Prod.fst hrec
      have hover : ¬ cmd.resources.toNat ≤ ((s.acquired.lookup p.addr).getD 0).toNat :=
        over_of_refused hfalse hzero
      have hs' := Socket.onRelease_refused hfalse
      rw [hrec] at hs'
      dsimp only at hs' ⊢
      rw [hs', m.write_val hp, if_neg hover]
      exact ⟨_, _, rfl, answers_reply (consumptionOf_find hp).symm (Socket.holds_of_find hp).symm rfl⟩
    | true =>
      have htrue : (s.onRelease (itemRef p) cmd.resources).1 = true := congrArg Prod.fst hrec
      obtain ⟨n, -, -, hlook⟩ := Socket.lookup_onRelease htrue
      obtain ⟨hle, hleft⟩ := left_of_released htrue
      have hle' : cmd.resources.toNat ≤ ((s.acquired.lookup p.addr).getD 0).toNat := hle
      have hsent : s'.sent = s.sent := by
        rw [← onRelease_sent s (itemRef p) cmd.resources, hrec]
      rw [hrec] at hlook hleft
      have hcover : cmd.resources ≤ p.val.consumption :=
        UInt32.le_iff_toNat_le.mpr (Nat.le_trans hle' hheld)
      cases hr : p.val.release g cmd.resources with
      | mk done o =>
        cases done with
        | false =>
          have hlt := Object.release_failed (congrArg Prod.fst hr)
          exact absurd (UInt32.lt_of_lt_of_le hlt hcover) (UInt32.lt_irrefl _)
        | true =>
          obtain ⟨ho, -⟩ := Object.release_done (congrArg Prod.fst hr)
          rw [hr] at ho
          dsimp only
          rw [if_pos hle']
          refine ⟨_, _, rfl, answers_write hp ?_ hleft ?_ rfl fun a hne => ?_⟩
          · rw [ho, UInt32.toNat_sub_of_le _ _ hcover]
          · show s'.sent ++ [cmd.success] = _
            rw [hsent]
          · show s'.acquired.lookup a = _
            rw [hlook a]
            exact if_neg hne

/-- The grant, and the refusal, that the documentation does not have. -/
theorem cmdAcquire_grants (g : Env) (hp : m.find cmd.name = some p) (s : Socket)
    (hle : p.val.consumption + cmd.resources ≤ cmd.maximum) :
    ∃ m' s', cmdAcquire g m cmd s = .ok (m', s') ∧ s'.sent = s.sent ++ [cmd.get cmd.resources] := by
  unfold cmdAcquire
  rw [HashMap.apply_found hp]
  unfold acquireHandler Object.acquire
  rw [if_neg (UInt32.not_lt.mpr hle)]
  exact ⟨_, _, rfl, congrArg (· ++ _) (onAcquire_sent s (itemRef p) cmd.resources)⟩

theorem cmdRelease_refuses (g : Env) (hp : m.find cmd.name = some p)
    (hnone : s.acquired.lookup p.addr = none) :
    cmdRelease g m cmd s = .ok (m, s.send (cmd.error .NotAcquired)) := by
  unfold cmdRelease
  rw [HashMap.apply_found hp]
  unfold releaseHandler Socket.onRelease
  rw [show s.acquired.lookup (itemRef p).addr = none from hnone]
  dsimp only
  rw [m.write_val hp]

end Commands

/-! ## Requests -/

section Requests

variable {s : State} {c : Nat} {buf : Bytes} {sock : Socket}

/-- A request that is executed. -/
theorem step_request (hc : s.conns[c]? = some sock) (hrel : sock.releasing = none)
    (hlen : (Request.parse buf).length ≠ 0) :
    step s (.request c buf)
      = match execute s.env s.hash (Request.parse buf) sock with
        | .ok (m, sock') => .ok { s with hash := m, conns := s.conns.set c sock' }
        | .error e => .error e := by
  show s.withConn c (requestStep s c buf) = _
  unfold State.withConn requestStep
  rw [hc]
  dsimp only
  have hrun : ¬ (sock.releasing.isSome ∨ (Request.parse buf).length = 0) := by
    rw [hrel, not_or]
    exact ⟨by simp, hlen⟩
  exact if_neg hrun

/-- The units a connection holds are covered by the counter. -/
theorem Inv.holds_le (hi : Inv s) (hc : s.conns[c]? = some sock) (hrel : sock.releasing = none) {name : Key}
    {p : Cell Key Object} (hp : s.hash.find name = some p) :
    sock.holds s.hash name ≤ p.val.consumption.toNat := by
  have hle := hi.amount_le (List.mem_of_getElem? hc) hp
  rw [Socket.holds_of_find hp]
  unfold Socket.amount at hle
  rw [Socket.held_of_releasing hrel] at hle
  cases hl : sock.acquired.lookup p.addr with
  | none => exact Nat.zero_le _
  | some n => rw [hl] at hle; exact hle

/-- **A request that does not deviate meets the documentation.** -/
theorem Inv.meets (hi : Inv s) (hd : ¬ Deviates s e) : Meets s e := by
  cases e with
  | request c buf =>
    intro sock hc hrel hst d hdoc
    have hstep := step_request hc hrel (Request.complete_of_status hst)
    -- It is enough to look at the command.
    suffices h : ∃ m sock', Counter.execute s.env s.hash (Request.parse buf) sock = .ok (m, sock') ∧
        Answers s.hash sock (Request.parse buf) d m sock' by
      obtain ⟨m, sock', hex, hans⟩ := h
      rw [hex] at hstep
      exact ⟨m, sock', hstep, hans⟩
    unfold Counter.execute
    rw [if_neg (not_not.mpr hst)]
    unfold documented at hdoc
    generalize hcmd : (Request.parse buf).command = command at hdoc
    cases command with
    | Get => cases hdoc; exact cmdGet_answers s.hash (Request.parse buf) sock
    | Acquire =>
      cases hdoc
      cases hp : s.hash.find (Request.parse buf).name with
      | none =>
        rw [consumptionOf_absent hp]
        refine cmdAcquire_absent hp ?_
        have hdead := hi.lookup_dead (List.mem_of_getElem? hc) (s.hash.fresh s.hash.addrs)
        rwa [Socket.held_of_releasing hrel] at hdead
      | some p =>
        rw [consumptionOf_find hp]
        refine cmdAcquire_found hp (fun hle => ?_) (hi.holds_le hc hrel hp)
        by_contra hwrap
        exact hd ⟨sock, hc, hrel, hst, p, hp, .inl ⟨hcmd, hle, Nat.not_lt.mp hwrap⟩⟩
    | Release =>
      cases hdoc
      cases hp : s.hash.find (Request.parse buf).name with
      | none =>
        rw [consumptionOf_absent hp]
        exact cmdRelease_absent hp
      | some p =>
        rw [consumptionOf_find hp]
        refine cmdRelease_found hp (fun hzero hnone => ?_) (hi.holds_le hc hrel hp)
        exact hd ⟨sock, hc, hrel, hst, p, hp, .inr ⟨hcmd, hzero, hnone⟩⟩
    | Noop | Stats | Dump | Unknown | raw b => cases hdoc
  | accept | releaseAll _ | releaseNext _ _ | releaseDone _ | tick _ | gcStart | gcNext => trivial

/-- The connection a request leaves is the one it answers to. -/
theorem conn_unique {m m' : HashMap Object} {sock1 sock' : Socket} (hc : s.conns[c]? = some sock)
    (h : (Except.ok { s with hash := m, conns := s.conns.set c sock1 } : Except Err State)
      = .ok { s with hash := m', conns := s.conns.set c sock' }) : sock1 = sock' := by
  have hconns : s.conns.set c sock1 = s.conns.set c sock' := congrArg State.conns (Except.ok.inj h)
  have hlt : c < s.conns.length := (List.getElem?_eq_some_iff.mp hc).1
  have heq : some sock1 = some sock' := by
    rw [← List.getElem?_set_self hlt, hconns, List.getElem?_set_self hlt]
  exact Option.some.inj heq

/-- **A request that deviates does not.**  The replies show it. -/
theorem not_meets_of_deviates (hd : Deviates s e) : ¬ Meets s e := by
  cases e with
  | request c buf =>
    obtain ⟨sock, hc, hrel, hst, p, hp, hcase⟩ := hd
    intro hmeets
    have hmeets := hmeets sock hc hrel hst
    have hstep := step_request hc hrel (Request.complete_of_status hst)
    unfold execute at hstep
    rw [if_neg (not_not.mpr hst)] at hstep
    unfold documented at hmeets
    rcases hcase with ⟨hcmd, hle, hwrap⟩ | ⟨hcmd, hzero, hnone⟩
    · -- The code grants, the documentation refuses.
      rw [hcmd] at hmeets hstep
      obtain ⟨m', sock', hok, hans⟩ := hmeets _ rfl
      obtain ⟨m1, sock1, hcode, hsent⟩ := cmdAcquire_grants s.env hp sock hle
      dsimp only at hstep
      rw [hcode, hok] at hstep
      have hreply := hans.reply
      rw [← conn_unique hc hstep.symm] at hreply
      have hover : ¬ p.val.consumption.toNat + (Request.parse buf).resources.toNat
          ≤ (Request.parse buf).maximum.toNat := by
        have := (Request.parse buf).maximum.toNat_lt
        omega
      unfold documentedAcquire at hreply
      rw [consumptionOf_find hp] at hreply
      dsimp only at hreply
      rw [if_neg hover, hsent] at hreply
      exact absurd (congrArg Packet.status (List.singleton_inj.mp (List.append_cancel_left hreply))) nofun
    · -- The code refuses, the documentation grants.
      rw [hcmd] at hmeets hstep
      obtain ⟨m', sock', hok, hans⟩ := hmeets _ rfl
      dsimp only at hstep
      rw [cmdRelease_refuses s.env hp hnone, hok] at hstep
      have hreply := hans.reply
      rw [← conn_unique hc hstep.symm] at hreply
      unfold documentedRelease at hreply
      rw [consumptionOf_find hp, hzero] at hreply
      dsimp only at hreply
      rw [if_pos (show UInt32.toNat 0 ≤ _ from Nat.zero_le _)] at hreply
      exact absurd (congrArg Packet.status (List.singleton_inj.mp (List.append_cancel_left hreply))) nofun
  | accept | releaseAll _ | releaseNext _ _ | releaseDone _ | tick _ | gcStart | gcNext => exact hd.elim

/-- Without a deviating request the invariant is kept. -/
theorem Inv.step_of_not_deviates {s s' : State} (hi : Inv s) (hd : ¬ Deviates s e)
    (h : Counter.step s e = .ok s') : Inv s' := by
  have hkeep : NoWrap s e → Inv s' := by
    intro hw
    obtain ⟨s1, h1, hi1⟩ := hi.step e hw
    rw [h] at h1
    cases h1
    exact hi1
  cases e with
  | request c buf =>
    cases hc : s.conns[c]? with
    | none =>
      change s.withConn c (Counter.requestStep s c buf) = .ok s' at h
      unfold State.withConn at h
      rw [hc] at h
      cases h
      exact hi
    | some sock =>
      cases hrel : sock.releasing with
      | some rest =>
        change s.withConn c (Counter.requestStep s c buf) = .ok s' at h
        unfold State.withConn Counter.requestStep at h
        rw [hc] at h
        dsimp only at h
        rw [if_pos (.inl (by rw [hrel]; rfl))] at h
        cases h
        exact hi
      | none =>
        refine hkeep fun hcmd hst p hp hle => ?_
        by_contra hwrap
        exact hd ⟨sock, hc, hrel, hst, p, hp, .inl ⟨hcmd, hle, Nat.not_lt.mp hwrap⟩⟩
  | accept | releaseAll _ | releaseNext _ _ | releaseDone _ | tick _ | gcStart | gcNext => exact hkeep trivial

end Requests

/-- **The commands meet their documentation** in every run, at every request, exactly if the run has no
    `Acquire` that is granted because its sum wrapped around and no `Release` of zero units by a connection
    that holds none. -/
theorem documented_iff (hash : Key → Nat) (alloc : List Nat → Nat) (fresh : ∀ live, alloc live ∉ live)
    (n : Nat) (env : Env) (es : List Event) :
    Along Meets step (State.init hash alloc fresh n env) es
      ↔ Along (fun s e => ¬ Deviates s e) step (State.init hash alloc fresh n env) es := by
  refine along_iff_along (I := Inv) (fun s e hi => ?_)
    (fun s e s' hi hd h => hi.step_of_not_deviates hd h) es
    (inv_init hash alloc fresh n env)
  exact ⟨fun hm hd => not_meets_of_deviates hd hm, fun hd => hi.meets hd⟩

/-- Two connections share a counter, up to its maximum and back to nothing. -/
theorem documented_two_clients :
    Along Meets step oneBucket
      [.accept, .accept, .request 0 (acquirePacket 3 10), .request 1 (acquirePacket 7 10),
        .request 0 (acquirePacket 1 10), .request 1 (releasePacket 0), .request 1 (releasePacket 8),
        .request 1 (releasePacket 7), .request 0 (releasePacket 3)] :=
  (documented_iff _ _ _ _ _ _).mpr (by decide)

/-- A connection that has not acquired anything releases nothing; and an `Acquire` of 2 where 2^32 - 1 are in
    use and the maximum is 10. -/
theorem requests_deviate :
    (∃ s, run step oneBucket [.accept, .accept, .request 0 (acquirePacket 3 10)] = .ok s ∧
      ¬ Meets s (.request 1 (releasePacket 0))) ∧
    ∃ s, run step oneBucket
      [.accept, .accept, .request 0 (acquirePacket (2 ^ 32 - 1) (2 ^ 32 - 1))] = .ok s ∧
      ¬ Meets s (.request 1 (acquirePacket 2 10)) :=
  ⟨⟨_, rfl, not_meets_of_deviates (by decide)⟩, ⟨_, rfl, not_meets_of_deviates (by decide)⟩⟩

end Yrmcds.Counter
