/-
  Every step of the reactor, the workers and the GC thread keeps the invariants (`Reactor/Table.lean`,
  `Reactor/Reclaim.lean`), and what follows for whole runs:

  * **`reclaim_safe`** — `reactor::gc` destroys only what no job, list or GC thread has a pointer to, and
    `fix_garbage` is not called before the last garbage is destroyed.
  * **`removed_once`** — every resource is removed from the reactor once, by the descriptor that denotes
    it, and its descriptor is closed once, when no thread uses it.

  The steps of the other threads change flags and tokens; the steps of the reactor change its tables.  A
  model step fails exactly where the code throws, makes an empty entry or uses a destroyed object, so that
  NO RUN FAILS is part of both results.
-/
import Yrmcds.Reactor.Reclaim

namespace Yrmcds.Reactor

open Memcache (Callback SyncRequest MAX_SLAVES)
open Run

variable {s : State} {rs : List SyncRequest} {c : Nat} {r r' : Resource} {e : Entry}

variable {p : Phase} {fd : Nat} {d : Dispatch} {t : Thread}

theorem Inv.loop (h : Inv rs s) (hp : s.phase = p) :
    PhaseOk s.resources s.cur s.removing s.slaves s.garbage p := hp ▸ h.control.loop

theorem Inv.tokens_at (h : Inv rs s) (hp : s.phase = p) :
    Tokens s.res s.resources (p.dropped ++ s.dropReq) s.removing s.inside := hp ▸ h.tokens

/-- The reactor goes on to another phase. -/
theorem Good.setPhase (h : Inv [] s) {q : Phase} (hp : s.phase = p) (hdrop : q.dropped = p.dropped)
    (hloop : PhaseOk s.resources s.cur s.removing s.slaves s.garbage q) :
    Good s (.ok { s with phase := q }) := by
  refine ⟨_, rfl, ⟨h.table, ?_,
    ⟨h.control.again, h.control.atHand, h.control.one, h.control.once, hloop⟩, h.grace, h.bin,
    h.working⟩, .same (fun hr => ⟨_, hr⟩) rfl⟩
  show Tokens s.res s.resources (q.dropped ++ s.dropReq) s.removing s.inside
  rw [hdrop]
  exact h.tokens_at hp

/-- A valid object is registered. -/
theorem Inv.registered_of_valid (h : Inv rs s) (hr : s.res c = some r) (hv : r.valid = true) :
    Registered s.resources c := by
  refine (h.table.parted c (h.table.fresh hr)).mpr fun hc => ?_
  have hinv := h.bin.invalid c hc r hr
  rw [hv] at hinv
  cases hinv

/-! ## Control -/

theorem Dispatch.rest_eq {c : Nat} {calls : List Call}
    (h : Dispatch.rest ⟨fd, c, []⟩ calls = some d) : d.fd = fd ∧ d.res = c := by
  unfold Dispatch.rest at h
  split_ifs at h
  cases h
  exact ⟨rfl, rfl⟩

/-- While a descriptor is at hand, the reactor is in a loop of `poll`; the loop goes on with the same
    descriptor at hand, or removes it, or is done with it. -/
theorem Control.ofCur {resources readables resources' readables' : List Entry}
    {removing removing' : Option Entry} {slaves slaves' garbage : List Nat} {phase : Phase}
    {cur' : Option Dispatch} (h : Control resources readables (some d) removing slaves garbage phase)
    (hsub : ∀ e ∈ resources, e ∈ resources') (hread : ∀ e ∈ readables', e ∈ resources')
    (hcur : ∀ d', cur' = some d' → d'.fd = d.fd ∧ d'.res = d.res)
    (hrem : ∀ e, removing' = some e → e.fd = d.fd) (hone : cur' = none ∨ removing' = none)
    (honce : slaves'.Nodup) :
    Control resources' readables' cur' removing' slaves' garbage phase := by
  have hvisits : ∀ {todo}, Visits resources (some d) removing todo →
      Visits resources' cur' removing' todo := by
    intro todo hv
    refine hv.mono ?_ ?_ ?_
    · intro fd _ hfd
      obtain ⟨e, he, rfl⟩ := List.mem_map.mp hfd
      exact List.mem_map_of_mem (hsub e he)
    · intro d' hd'
      rw [(hcur d' hd').1]
      exact hv.notCur d rfl
    · intro e he
      rw [hrem e he]
      exact hv.notCur d rfl
  refine ⟨hread, ?_, hone, honce, ?_⟩
  · intro d' hd'
    obtain ⟨hfd, hres⟩ := hcur d' hd'
    rw [hfd, hres]
    exact hsub _ (h.atHand d rfl)
  · have hloop := h.loop
    cases phase with
    | readables todo => exact ⟨hvisits hloop.1, fun e he => hsub e (hloop.2 e he)⟩
    | events todo => exact hvisits hloop
    | prune todo => exact nomatch hloop.1
    | gc => exact nomatch hloop.1.1
    | fix => exact nomatch hloop.1.1
    | idle => exact nomatch hloop.1
    | drops todo => exact nomatch hloop.1
    | wait => exact nomatch hloop.1
    | check => exact nomatch hloop.1

theorem Inv.poll (h : Inv [] s) : Good s (.ok s.poll) := by
  unfold State.poll
  split
  · rename_i hp
    obtain ⟨hcur, hrem⟩ := h.loop hp
    obtain ⟨hmem, hnd⟩ := uniqueCopy_spec s.readables
    refine ⟨_, rfl, ⟨h.table, h.tokens_at (p := .idle) hp,
      ⟨fun e he => (nomatch he), h.control.atHand, h.control.one, h.control.once, ?_⟩, h.grace, h.bin,
      h.working⟩,
      .same (fun hr => ⟨_, hr⟩) rfl⟩
    refine ⟨⟨?_, hnd, ?_, ?_⟩, fun e he => h.control.again e (hmem e he)⟩
    · intro fd hfd
      obtain ⟨e, he, rfl⟩ := List.mem_map.mp hfd
      exact List.mem_map_of_mem (h.control.again e (hmem e he))
    · exact fun d hd => nomatch hcur.symm.trans hd
    · exact fun e he => nomatch hrem.symm.trans he
  · exact .idle h

theorem Inv.epollWait (h : Inv [] s) (evs : List (Nat × Flags)) : Good s (.ok (s.epollWait evs)) := by
  unfold State.epollWait
  split
  · rename_i hp
    split_ifs with hevs
    · obtain ⟨hcur, hrem⟩ := h.loop hp
      refine .setPhase h hp rfl ⟨?_, hevs.1, ?_, ?_⟩
      · intro fd hfd
        obtain ⟨ev, hev, rfl⟩ := List.mem_map.mp hfd
        exact hevs.2 ev hev
      · exact fun d hd => nomatch hcur.symm.trans hd
      · exact fun e he => nomatch hrem.symm.trans he
    · exact .idle h
  · exact .idle h

theorem Inv.callback (h : Inv [] s) : Good s (.ok s.callback) := by
  unfold State.callback
  split
  · rename_i hp
    exact .setPhase h hp rfl (h.loop (p := .idle) hp)
  · exact .idle h

/-- The next element of a loop is registered. -/
theorem Inv.dispatch (h : Inv [] s) (hrem : s.removing = none) {calls : List Call}
    (hdrop : p.dropped = s.phase.dropped) (hfd : fd ∈ s.resources.map Entry.fd)
    (hloop : ∀ c, PhaseOk s.resources (Dispatch.rest ⟨fd, c, []⟩ calls) s.removing s.slaves s.garbage p) :
    Good s (State.dispatch { s with phase := p } fd calls) := by
  obtain ⟨e, he, rfl⟩ := List.mem_map.mp hfd
  have hfind : State.find { s with phase := p } e.fd = some e.owner := find_of_mem h.table.keys he
  unfold State.dispatch
  rw [hfind]
  refine ⟨_, rfl, ⟨h.table, ?_, ⟨h.control.again, ?_, .inr hrem, h.control.once, hloop _⟩, h.grace, h.bin,
    h.working⟩,
    .same (fun hr => ⟨_, hr⟩) rfl⟩
  · show Tokens s.res s.resources (p.dropped ++ s.dropReq) s.removing s.inside
    rw [hdrop]
    exact h.tokens
  · intro d hd
    obtain ⟨hdfd, hdres⟩ := Dispatch.rest_eq hd
    rw [hdfd, hdres]
    exact he

/-! ## Removal -/

/-- `remove_resource`, by the holder of the token. -/
theorem removeResource_good (s0 : State) (hres : s0.res = s.res) (hcl : s0.closes = s.closes)
    (hin : s0.inside = s.inside) (ht : Table s.res s.created s.openFds s.resources s.removed s.closes)
    (he : e ∈ s.resources) (hinv : ∀ r, s.res e.owner = some r → r.valid = false)
    (htok : Tokens s.res (s.resources.filter (·.fd ≠ e.fd)) (s.phase.dropped ++ s.dropReq) s.removing
      s.inside)
    (hctl : Control (s.resources.filter (·.fd ≠ e.fd)) (s.readables.filter (·.fd ≠ e.fd)) s.cur s.removing
      s.slaves (s.garbage ++ [e.owner]) s.phase)
    (hgrace : Grace s.res s.garbageCopy (Listed s.slaves s.newSlaves s.gc s.requests) (Uses s.res s.jobs)
      s.requests)
    (hbin : Bin s.res s.garbage s.garbageCopy s.removed)
    (hwork : Working s.res s.nWorkers s.jobs s.inside s.gc) (locks : Bool) :
    Good s0 (s.removeResource e.fd locks) := by
  unfold State.removeResource
  rw [find_of_mem ht.keys he]
  have hbin' : Bin s.res (s.garbage ++ [e.owner]) s.garbageCopy (e.owner :: s.removed) := by
    refine ⟨?_, ?_, fun d hd => List.mem_cons_of_mem _ (hbin.copy_sub d hd)⟩
    · intro d hd r hr
      rcases List.mem_cons.mp hd with rfl | hd
      · exact hinv r hr
      · exact hbin.invalid d hd r hr
    · intro d hd
      rcases List.mem_append.mp hd with hd | hd
      · exact List.mem_cons_of_mem _ (hbin.garbage_sub d hd)
      · exact List.mem_singleton.mp hd ▸ List.mem_cons_self
  have h1 : Inv [] { s with
      resources := s.resources.filter (·.fd ≠ e.fd)
      garbage := s.garbage ++ [e.owner]
      readables := s.readables.filter (·.fd ≠ e.fd)
      removed := e.owner :: s.removed } := ⟨ht.remove he, htok, hctl, hgrace, hbin', hwork⟩
  obtain ⟨h2, hc⟩ := h1.tryClose (c := e.owner) List.mem_cons_self locks
  refine ⟨_, rfl, h2, ?_, ?_⟩
  · intro d q hq hnone
    obtain ⟨q', hq'⟩ := hc.same.alive (hres ▸ hq)
    rw [hq'] at hnone
    cases hnone
  · intro d hd hn
    rw [hin]
    exact hc.closed d hd (hcl ▸ hn)

/-- What stays in the queues is registered still. -/
theorem mem_filter_entry {l resources : List Entry} (h : ∀ e ∈ l, e ∈ resources) :
    ∀ e ∈ l.filter (·.fd ≠ fd), e ∈ resources.filter (·.fd ≠ fd) := by
  intro e he
  obtain ⟨he, hne⟩ := List.mem_filter.mp he
  exact List.mem_filter.mpr ⟨h e he, hne⟩

theorem Inv.next (h : Inv [] s) (locks : Bool) : Good s (s.next locks) := by
  unfold State.next
  split_ifs with hbusy
  · exact .idle h
  · obtain ⟨hcur, hrem⟩ : s.cur = none ∧ s.removing = none := by simpa using hbusy
    split
    · -- `m_readables_copy` is done; the drop requests are taken over
      rename_i hp
      refine ⟨_, rfl, ⟨h.table, ?_,
        ⟨h.control.again, h.control.atHand, h.control.one, h.control.once, hcur, hrem⟩,
        h.grace, h.bin, h.working⟩, .same (fun hr => ⟨_, hr⟩) rfl⟩
      show Tokens s.res s.resources (s.dropReq ++ []) s.removing s.inside
      rw [List.append_nil]
      exact h.tokens_at hp
    · rename_i e todo hp
      obtain ⟨hv, hmem⟩ := h.loop hp
      rw [hcur, hrem, List.map_cons] at hv
      refine h.dispatch hrem (by rw [hp]; rfl) (hv.mem _ List.mem_cons_self) fun c => ?_
      rw [hrem]
      exact ⟨hv.next c _, fun e' he' => hmem e' (List.mem_cons_of_mem _ he')⟩
    · rename_i hp
      exact .setPhase h hp rfl ⟨hcur, hrem⟩
    · -- a drop request
      rename_i e todo hp
      have htok : Tokens s.res s.resources (e :: (todo ++ s.dropReq)) s.removing s.inside := h.tokens_at hp
      refine removeResource_good (s := { s with phase := .drops todo }) s rfl rfl rfl h.table
        (htok.drop_mem e List.mem_cons_self)
        (fun r hr => htok.invalid (k := .drop) ⟨e, List.mem_cons_self, rfl⟩ hr) (htok.removeDrop h.table)
        ⟨mem_filter_entry h.control.again, ?_, h.control.one, h.control.once, hcur, hrem⟩ h.grace h.bin
        h.working locks
      exact fun d hd => nomatch hcur.symm.trans hd
    · rename_i hp
      exact .setPhase h hp rfl ⟨hcur, hrem⟩
    · rename_i ev todo hp
      have hv : Visits s.resources s.cur s.removing ((ev :: todo).map Prod.fst) := h.loop hp
      rw [hcur, hrem, List.map_cons] at hv
      refine h.dispatch hrem (by rw [hp]; rfl) (hv.mem _ List.mem_cons_self) fun c => ?_
      rw [hrem]
      exact hv.next c _
    · exact .idle h

/-- The reactor removes what a handler or the callback has made invalid. -/
theorem Inv.remove (h : Inv [] s) (hrem : s.removing = some e) (locks : Bool) :
    Good s (State.removeResource { s with removing := none } e.fd locks) := by
  have htok := h.tokens
  rw [hrem] at htok
  have hcur : s.cur = none := h.control.one.resolve_right fun hn => nomatch hn.symm.trans hrem
  refine removeResource_good (s := { s with removing := none }) s rfl rfl rfl h.table
    (htok.removing_mem e rfl) (fun r hr => htok.invalid (k := .reactor) ⟨e, rfl, rfl⟩ hr)
    (htok.removeReactor h.table)
    ⟨mem_filter_entry h.control.again, ?_, .inr rfl, h.control.once, ?_⟩ h.grace h.bin h.working locks
  · exact fun d hd => nomatch hcur.symm.trans hd
  -- what the loop still has to visit has other descriptors
  have hloop := h.control.loop
  have hvisits : ∀ {todo}, Visits s.resources s.cur s.removing todo →
      Visits (s.resources.filter (·.fd ≠ e.fd)) s.cur none todo := by
    intro todo hv
    refine hv.mono ?_ hv.notCur fun _ he => nomatch he
    intro fd hfd hreg
    obtain ⟨e', he', rfl⟩ := List.mem_map.mp hreg
    refine List.mem_map_of_mem (List.mem_filter.mpr ⟨he', decide_eq_true fun heq => ?_⟩)
    exact hv.notRemoving e hrem (heq ▸ hfd)
  show PhaseOk _ s.cur none s.slaves _ s.phase
  cases hp : s.phase with
  | readables todo =>
    rw [hp] at hloop
    refine ⟨hvisits hloop.1, fun e' he' => ?_⟩
    refine List.mem_filter.mpr ⟨hloop.2 e' he', decide_eq_true fun heq => ?_⟩
    exact hloop.1.notRemoving e hrem (heq ▸ List.mem_map_of_mem he')
  | events todo =>
    rw [hp] at hloop
    exact hvisits hloop
  | prune todo =>
    rw [hp] at hloop
    refine ⟨hcur, fun _ he => (nomatch he), fun d hd hs => ?_, hloop.2.2.2⟩
    rcases List.mem_append.mp hd with hd | hd
    · exact hloop.2.2.1 d hd hs
    · rw [List.mem_singleton.mp hd] at hs
      exact absurd hs (hloop.2.1 e hrem)
  | gc => rw [hp] at hloop; exact nomatch hloop.1.2.symm.trans hrem
  | fix => rw [hp] at hloop; exact nomatch hloop.1.2.symm.trans hrem
  | idle => rw [hp] at hloop; exact nomatch hloop.2.symm.trans hrem
  | drops todo => rw [hp] at hloop; exact nomatch hloop.2.symm.trans hrem
  | wait => rw [hp] at hloop; exact nomatch hloop.2.symm.trans hrem
  | check => rw [hp] at hloop; exact nomatch hloop.2.symm.trans hrem

/-! ## New resources -/

/-- A job's pointers are not to an object that is yet to be created. -/
theorem Inv.refs_fresh (h : Inv rs s) {w : Nat} {j : Job} (hj : s.jobs w = some j) (x : Option Resource) :
    j.refs (Function.update s.res s.created x) = j.refs s.res := by
  have hne : ∀ d, d ∈ j.refs s.res → d ≠ s.created := by
    intro d hd
    obtain ⟨r, hr⟩ := h.grace.usesAlive ⟨j, hj, hd⟩
    exact Nat.ne_of_lt (h.table.fresh hr)
  cases j with
  | recv d => simp only [Job.refs, Function.update_of_ne (hne d List.mem_cons_self)]
  | ending d => simp only [Job.refs, Function.update_of_ne (hne d List.mem_cons_self)]
  | send d => rfl

/-- A resource is created and registered; `listed'` are the lists after that. -/
theorem Inv.create (h : Inv rs s) (hfd : fd ∉ s.openFds) (kind : Kind) (slaves : List Nat)
    (rs' : List SyncRequest) (hctl : Control (⟨fd, s.created⟩ :: s.resources) s.readables s.cur s.removing slaves
    s.garbage s.phase) (hlisted : ∀ {d}, Listed slaves s.newSlaves s.gc (rs' ++ s.requests) d →
    Listed s.slaves s.newSlaves s.gc (rs ++ s.requests) d ∨ d = s.created)
    (hreq : ∀ r ∈ rs' ++ s.requests, r ∈ rs ++ s.requests ∨ r.callback ≠ .reactorGc)
    (hreq' : ∀ r ∈ rs ++ s.requests, r ∈ rs' ++ s.requests) :
    Inv rs' { s.create fd kind with resources := ⟨fd, s.created⟩ :: s.resources, slaves := slaves } := by
  have hnew : Function.update s.res s.created (some { fd := fd, kind := kind }) s.created
      = some { fd := fd, kind := kind } := Function.update_self ..
  have hold : ∀ {d q}, s.res d = some q →
      Function.update s.res s.created (some { fd := fd, kind := kind }) d = some q := by
    intro d q hq
    rw [Function.update_of_ne (Nat.ne_of_lt (h.table.fresh hq)), hq]
  have hcopy : s.created ∉ s.garbageCopy := fun hc =>
    Nat.lt_irrefl _ (h.table.removed_lt _ (h.bin.copy_sub _ hc))
  have hback : ∀ {d q}, Function.update s.res s.created (some { fd := fd, kind := kind }) d = some q →
      d ≠ s.created → s.res d = some q := by
    intro d q hq hd
    rwa [Function.update_of_ne hd] at hq
  have huses :
    ∀ {w d}, Uses (Function.update s.res s.created (some { fd := fd, kind := kind })) s.jobs w d →
      Uses s.res s.jobs w d := by
    rintro w d ⟨j, hj, hd⟩
    exact ⟨j, hj, h.refs_fresh hj _ ▸ hd⟩
  refine ⟨h.table.create hfd kind, ?_, hctl, ?_, ?_, ?_⟩
  · refine h.tokens.create ?_ hnew rfl fun d hd => Function.update_of_ne hd ..
    rintro ⟨e, he, heq⟩
    exact Nat.lt_irrefl _ (heq ▸ h.table.owner_lt he)
  · have hg : Grace (Function.update s.res s.created (some { fd := fd, kind := kind })) s.garbageCopy
        (Listed slaves s.newSlaves s.gc (rs' ++ s.requests))
        (Uses (Function.update s.res s.created (some { fd := fd, kind := kind })) s.jobs)
        (rs ++ s.requests) := by
      refine h.grace.step (fun hq => ⟨_, hold hq⟩) (fun hu => .inl (huses hu)) fun hl => ?_
      rcases hlisted hl with hl | rfl
      · exact .inl hl
      · exact .inr ⟨⟨_, hnew⟩, hcopy⟩
    refine { hg with waited := ?_, asked := ?_ }
    · intro d hd w hu r hr hcb
      rcases hreq r hr with hr | hne
      · exact hg.waited d hd w hu r hr hcb
      · exact absurd hcb hne
    · intro hne
      obtain ⟨r, hr, hcb⟩ := hg.asked hne
      exact ⟨r, hreq' r hr, hcb⟩
  · refine ⟨?_, h.bin.garbage_sub, h.bin.copy_sub⟩
    exact fun d hd q hq => h.bin.invalid d hd q (hback hq (Nat.ne_of_lt (h.table.removed_lt d hd)))
  · refine ⟨h.working.lt, ?_, h.working.one, ?_⟩
    · intro w d q hj hq
      obtain ⟨q0, hq0⟩ := h.grace.usesAlive (w := w) (c := d) ⟨_, hj, List.mem_cons_self⟩
      exact h.working.busy hj (hback hq (Nat.ne_of_lt (h.table.fresh hq0)))
    · intro t d st ht
      have hm := h.working.may ht
      cases t with
      | worker w =>
        obtain ⟨j, hj, ha, hd⟩ := hm
        exact ⟨j, hj, ha, (h.refs_fresh hj _).symm ▸ hd⟩
      | gc => exact hm

/-- The descriptor of a new resource has no entry. -/
theorem Inv.find_fresh (h : Inv rs s) (hfd : fd ∉ s.openFds) : s.find fd = none := by
  rw [find_eq_none]
  intro hmem
  obtain ⟨e, he, rfl⟩ := List.mem_map.mp hmem
  obtain ⟨r, hr, hrfd, hcl⟩ := h.table.entry e he
  exact hfd (hrfd ▸ h.table.opened hr hcl)

theorem Gentle.create (h : Inv rs s) {s' : State} {x : Option Resource}
    (hres : s'.res = Function.update s.res s.created x) (hcl : s'.closes = s.closes) : Gentle s s' := by
  refine .same (fun {d q} hq => ⟨q, ?_⟩) hcl
  rw [hres, Function.update_of_ne (Nat.ne_of_lt (h.table.fresh hq)), hq]

/-- A resource that is not a slave. -/
theorem Inv.add (h : Inv [] s) (hfd : fd ∉ s.openFds) (kind : Kind)
    (hctl : Control (⟨fd, s.created⟩ :: s.resources) s.readables s.cur s.removing s.slaves s.garbage s.phase) :
    Good s (State.addResource (s.create fd kind) ⟨fd, s.created⟩) := by
  have hfind : State.find (s.create fd kind) fd = none := h.find_fresh hfd
  unfold State.addResource
  rw [hfind]
  exact ⟨_, rfl, h.create hfd kind s.slaves [] hctl .inl (fun r hr => .inl hr) (fun r hr => hr),
    .create h rfl rfl⟩

/-- `add_request` for a new slave does not look at `m_resources`. -/
theorem addResource_addRequest (s : State) (x : Nat) (seen : List Nat) (e : Entry)
    (hfind : s.find e.fd = none) :
    State.addResource (s.addRequest (.newSlave x) seen) e
      = .ok (State.addRequest { s with resources := e :: s.resources } (.newSlave x) seen) := by
  unfold State.addRequest
  dsimp only
  split_ifs with hw hw'
  · show State.addResource { s with newSlaves := s.newSlaves ++ [x] } e = _
    have hf : State.find { s with newSlaves := s.newSlaves ++ [x] } e.fd = none := hfind
    unfold State.addResource
    rw [hf]
    rfl
  · exact absurd hw hw'
  · rename_i hw'
    exact absurd hw' hw
  · have hf : State.find { s with requests := s.requests ++
        [⟨.newSlave x, (List.range s.nWorkers).filter (s.unseen seen)⟩] } e.fd = none := hfind
    unfold State.addResource
    rw [hf]
    rfl

theorem Inv.accept (h : Inv [] s) (hcur : s.cur = some d) (fd : Nat) (kind : Kind)
    (seen : List Nat) : Good s (s.accept fd kind seen) := by
  have hctl : ∀ slaves : List Nat, slaves.Nodup → Control (⟨fd, s.created⟩ :: s.resources) s.readables s.cur
      s.removing slaves s.garbage s.phase := by
    intro slaves honce
    have hc := h.control
    have hrem : s.removing = none :=
      h.control.one.resolve_left fun hn => Option.some_ne_none d (hcur.symm.trans hn)
    rw [hcur, hrem] at hc ⊢
    exact hc.ofCur (fun e he => List.mem_cons_of_mem _ he)
      (fun e he => List.mem_cons_of_mem _ (h.control.again e he))
      (fun d' hd' => Option.some.inj hd' ▸ ⟨rfl, rfl⟩) (fun x he => (Option.some_ne_none x he.symm).elim)
      (.inr rfl) honce
  unfold State.accept
  split_ifs with hopen hkind hmax
  · exact .idle h
  · exact .idle h
  · -- a slave, with the request that it be told of the store
    have hfind : State.find { s.create fd kind with slaves := s.slaves ++ [s.created] } fd = none :=
      h.find_fresh hopen
    rw [addResource_addRequest _ _ _ ⟨fd, s.created⟩ hfind]
    have honce : (s.slaves ++ [s.created]).Nodup := by
      refine List.nodup_append.mpr ⟨h.control.once, List.nodup_singleton _, ?_⟩
      intro x hx y hy heq
      obtain ⟨q, hq⟩ := h.grace.listedAlive (c := x) (.inl hx)
      rw [heq, List.mem_singleton.mp hy] at hq
      exact Nat.lt_irrefl _ (h.table.fresh hq)
    have h1 := h.create hopen kind (s.slaves ++ [s.created])
      [⟨.newSlave s.created, (List.range s.nWorkers).filter (s.unseen seen)⟩] (hctl _ honce) (by
        intro x hx
        simp only [Listed, List.mem_append, List.singleton_append, List.mem_cons,
          or_and_right, exists_or, exists_eq_left, Callback.newSlave.injEq, List.not_mem_nil, or_false,
          List.nil_append] at hx ⊢
        rcases hx with (hx | hx) | hx | hx | hx | hx
        · exact .inl (.inl hx)
        · exact .inr hx
        · exact .inl (.inr (.inl hx))
        · exact .inl (.inr (.inr (.inl hx)))
        · exact .inr hx.symm
        · exact .inl (.inr (.inr (.inr hx))))
      (by
        intro r hr
        rcases List.mem_cons.mp hr with rfl | hr
        · refine .inr fun hcb => ?_
          cases hcb
        · exact .inl hr)
      (fun r hr => List.mem_cons_of_mem _ hr)
    obtain ⟨h2, -⟩ := h1.addRequest rfl
    refine ⟨_, rfl, h2, ?_⟩
    unfold State.addRequest
    dsimp only
    split_ifs
    · exact .create h rfl rfl
    · exact .create h rfl rfl
  · exact h.add hopen kind (hctl _ h.control.once)

/-! ## Handlers -/

namespace Working

variable {res : Nat → Option Resource} {nWorkers : Nat} {jobs : Nat → Option Job}
  {inside : Thread → Option (Nat × Stage)} {gc : Option GcThread} {w : Nat}

/-- A job other than a receive job. -/
theorem setJob (h : Working res nWorkers jobs inside gc) {x : Option Job} (hlt : w < nWorkers)
    (hin : ∀ c st, inside (.worker w) ≠ some (c, st)) (hx : ∀ d, x ≠ some (.recv d)) :
    Working res nWorkers (Function.update jobs w x) inside gc := by
  have hrecv : ∀ {v d}, Function.update jobs w x v = some (.recv d) → jobs v = some (.recv d) := by
    intro v d hj
    by_cases hv : v = w
    · rw [hv, Function.update_self] at hj
      exact absurd hj (hx d)
    · rwa [Function.update_of_ne hv] at hj
  refine ⟨?_, fun hj => h.busy (hrecv hj), fun hj hj' => h.one (hrecv hj) (hrecv hj'), ?_⟩
  · intro v j hj
    by_cases hv : v = w
    · exact hv ▸ hlt
    · rw [Function.update_of_ne hv] at hj
      exact h.lt hj
  · intro t c st ht
    have hm := h.may ht
    cases t with
    | worker v =>
      obtain ⟨j, hj, hjc⟩ := hm
      have hv : v ≠ w := fun hv => hin c st (hv ▸ ht)
      exact ⟨j, by rw [Function.update_of_ne hv, hj], hjc⟩
    | gc => exact hm

/-- The receive job of a socket that is not busy. -/
theorem postRecv (h : Working res nWorkers jobs inside gc) (hlt : w < nWorkers) (hidle : jobs w = none)
    (hr : res c = some r) (hbusy : r.busy = false) (hbusy' : r'.busy = true) :
    Working (Function.update res c (some r')) nWorkers (Function.update jobs w (some (.recv c))) inside
      gc := by
  have hfree : ∀ {v}, jobs v ≠ some (.recv c) := fun hv => nomatch hbusy.symm.trans (h.busy hv hr)
  refine ⟨?_, ?_, ?_, ?_⟩
  · intro v j hj
    rcases update_eq_some hj with ⟨rfl, -⟩ | ⟨-, hj⟩
    · exact hlt
    · exact h.lt hj
  · intro v d q hj hq
    rcases update_eq_some hq with ⟨-, rfl⟩ | ⟨hd, hq⟩
    · exact hbusy'
    · rcases update_eq_some hj with ⟨-, heq⟩ | ⟨-, hj⟩
      · exact absurd (Job.recv.inj heq).symm hd
      · exact h.busy hj hq
  · intro v v' d hj hj'
    rcases update_eq_some hj with ⟨hv, heq⟩ | ⟨-, hj⟩
    · rcases update_eq_some hj' with ⟨hv', -⟩ | ⟨-, hj'⟩
      · exact hv.trans hv'.symm
      · exact absurd (Job.recv.inj heq ▸ hj') hfree
    · rcases update_eq_some hj' with ⟨-, heq⟩ | ⟨-, hj'⟩
      · exact absurd (Job.recv.inj heq ▸ hj) hfree
      · exact h.one hj hj'
  · intro t x st ht
    have hm := h.may ht
    cases t with
    | worker v =>
      obtain ⟨j, hj, ha, hx⟩ := hm
      have hv : v ≠ w := fun hv => nomatch (hv ▸ hidle).symm.trans hj
      refine ⟨j, by rw [Function.update_of_ne hv, hj], ha, ?_⟩
      cases j with
      | recv d =>
        have hd : d ≠ c := fun hd => hfree (hd ▸ hj)
        rw [Job.refs, Function.update_of_ne hd]
        exact hx
      | ending d => cases ha
      | send d => exact hx
    | gc => exact hm

end Working

/-- **The pointers of a receive job are to its socket and to slaves in the list.** -/
theorem Grace.postRecv {res : Nat → Option Resource} {copy : List Nat} {listed : Nat → Prop}
    {jobs : Nat → Option Job} {requests : List SyncRequest} {w : Nat}
    (h : Grace res copy listed (Uses res jobs) requests) (hr : res c = some r) (hcopy : c ∉ copy)
    (hs : ∀ x ∈ r'.slaves, listed x) (hfree : ∀ v, jobs v ≠ some (.recv c)) :
    Grace (Function.update res c (some r')) copy listed
      (Uses (Function.update res c (some r')) (Function.update jobs w (some (.recv c)))) requests := by
  have hself : Function.update res c (some r') c = some r' := Function.update_self ..
  have halive : ∀ {d q}, res d = some q → ∃ q', Function.update res c (some r') d = some q' := by
    intro d q hq
    by_cases hd : d = c
    · exact ⟨r', hd ▸ hself⟩
    · exact ⟨q, by rw [Function.update_of_ne hd, hq]⟩
  refine h.step halive ?_ .inl
  rintro v x ⟨j, hj, hx⟩
  have hnew : x ∈ c :: r'.slaves → Uses res jobs v x ∨ listed x ∨
      ((∃ q, Function.update res c (some r') x = some q) ∧ x ∉ copy) := by
    intro hx
    rcases List.mem_cons.mp hx with rfl | hx
    · exact .inr (.inr ⟨⟨r', hself⟩, hcopy⟩)
    · exact .inr (.inl (hs x hx))
  rcases update_eq_some hj with ⟨-, rfl⟩ | ⟨-, hj⟩
  · rw [Job.refs, hself] at hx
    exact hnew hx
  · cases j with
    | recv d =>
      have hd : d ≠ c := fun hd => hfree v (hd ▸ hj)
      rw [Job.refs, Function.update_of_ne hd] at hx
      exact .inl ⟨_, hj, hx⟩
    | ending d =>
      -- a receive job that has cleared `m_busy` does not look at the list any more
      by_cases hd : d = c
      · rw [Job.refs, hd, hself] at hx
        exact hnew hx
      · rw [Job.refs, Function.update_of_ne hd] at hx
        exact .inl ⟨_, hj, hx⟩
    | send d => exact .inl ⟨_, hj, hx⟩

theorem Inv.inside_of_idle (h : Inv rs s) {w : Nat} (hw : s.jobs w = none) (c : Nat) (st : Stage) :
    s.inside (.worker w) ≠ some (c, st) := by
  intro hin
  obtain ⟨j, hj, -⟩ := h.working.may hin
  exact nomatch hw.symm.trans hj

/-- A job is posted for a registered resource. -/
theorem Inv.post (h : Inv [] s) (hr : s.res c = some r) (hreg : Registered s.resources c) {w : Nat}
    {call : Call} (hfits : Act.fits s r call (.post w) = true) {cur : Option Dispatch}
    (hctl : Control s.resources s.readables cur s.removing s.slaves s.garbage s.phase) :
    Good s (.ok { s.post c r w call with cur := cur }) := by
  have hcopy : c ∉ s.garbageCopy := fun hc => h.not_registered (h.bin.copy_sub c hc) hreg
  have hsend : w < s.nWorkers ∧ s.jobs w = none →
      Good s (.ok { s.setJob w (some (.send c)) with cur := cur }) := by
    rintro ⟨hlt, hidle⟩
    refine ⟨_, rfl, ⟨h.table, h.tokens, hctl, ?_, h.bin, ?_⟩, .same (fun hq => ⟨_, hq⟩) rfl⟩
    · refine h.grace.step (fun hq => ⟨_, hq⟩) ?_ .inl
      rintro v x ⟨j, hj, hx⟩
      rcases update_eq_some hj with ⟨-, rfl⟩ | ⟨-, hj⟩
      · rw [List.mem_singleton.mp hx]
        exact .inr (.inr ⟨⟨r, hr⟩, hcopy⟩)
      · exact .inl ⟨j, hj, hx⟩
    · exact h.working.setJob hlt (h.inside_of_idle hidle) fun _ hx => nomatch hx
  cases call with
  | readable =>
    obtain ⟨-, hbusy, hlt, hidle⟩ : (r.kind = .memcache ∨ r.kind = .counter) ∧ r.busy = false ∧
        w < s.nWorkers ∧ s.jobs w = none := of_decide_eq_true hfits
    have hfree : ∀ v, s.jobs v ≠ some (.recv c) := fun v hv =>
      nomatch hbusy.symm.trans (h.working.busy hv hr)
    refine ⟨_, rfl, ⟨h.table.setRes hr rfl rfl, h.tokens.flag hr rfl, hctl,
      h.grace.postRecv hr hcopy ?_ hfree, h.bin.setRes hr id, h.working.postRecv hlt hidle hr hbusy rfl⟩,
      .same ?_ rfl⟩
    · intro x hx
      dsimp only at hx
      split_ifs at hx
      · exact .inl hx
      · cases hx
    · intro d q hq
      by_cases hd : d = c
      · subst hd
        exact ⟨_, Function.update_self ..⟩
      · exact ⟨q, (Function.update_of_ne hd ..).trans hq⟩
  | error => cases hfits
  | hangup => cases hfits
  | writable => exact hsend (of_decide_eq_true hfits : _ ∧ _ ∧ _).2

theorem Inv.handle (h : Inv [] s) (a : Act) : Good s (s.handle a) := by
  unfold State.handle
  split
  · exact .idle h
  · exact .idle h
  · rename_i fd c call calls hcur
    have hctl := h.control
    have hrem : s.removing = none := hctl.one.resolve_left fun hn => nomatch hn.symm.trans hcur
    have hentry : ⟨fd, c⟩ ∈ s.resources := hctl.atHand _ hcur
    obtain ⟨r, hr, hfd, -⟩ := h.table.entry _ hentry
    rw [hcur, hrem] at hctl
    -- the call has returned true
    have hnext : ∀ readables', (∀ e ∈ readables', e ∈ s.resources) →
        Control s.resources readables' (Dispatch.rest ⟨fd, c, []⟩ calls) s.removing s.slaves s.garbage
          s.phase := by
      intro readables' hread
      rw [hrem]
      exact hctl.ofCur (fun _ he => he) hread (fun _ hd => Dispatch.rest_eq hd) (fun _ he => nomatch he)
        (.inr rfl) h.control.once
    rw [show s.res c = some r from hr]
    dsimp only
    by_cases hfits : a.fits s r call = true
    · rw [if_pos hfits]
      cases a with
      | done =>
        exact ⟨_, rfl, ⟨h.table, h.tokens, hnext _ h.control.again, h.grace, h.bin, h.working⟩,
          .same (fun hq => ⟨_, hq⟩) rfl⟩
      | later =>
        refine ⟨_, rfl, ⟨h.table, h.tokens, hnext _ ?_, h.grace, h.bin, h.working⟩,
          .same (fun hq => ⟨_, hq⟩) rfl⟩
        intro e he
        rcases List.mem_append.mp he with he | he
        · exact h.control.again e he
        · rw [List.mem_singleton.mp he]
          exact h.table.entry_of_registered ⟨_, hentry, rfl⟩ hr
      | invalidate =>
        dsimp only
        split_ifs with hv
        · have htok := h.tokens
          rw [hrem] at htok
          refine ⟨_, rfl, ⟨h.table.setRes hr rfl rfl, htok.takeReactor hentry hr hv, ?_,
            h.grace.setRes hr rfl, h.bin.setRes hr fun _ => rfl, h.working.setRes hr rfl rfl⟩,
            .same (SameSlaves.update (q := { r with valid := false }) hr rfl).alive rfl⟩
          exact hctl.ofCur (fun _ he => he) h.control.again (fun _ hd => nomatch hd)
            (fun e he => Option.some.inj he ▸ rfl) (.inl rfl) h.control.once
        · exact ⟨_, rfl, ⟨h.table, h.tokens, hnext _ h.control.again, h.grace, h.bin, h.working⟩,
            .same (fun hq => ⟨_, hq⟩) rfl⟩
      | post w => exact h.post hr ⟨_, hentry, rfl⟩ hfits (hnext _ h.control.again)
      | accept fd' kind seen => exact h.accept hcur fd' kind seen
    · rw [if_neg hfits]
      exact .idle h

/-! ## The callback -/

theorem Inv.checkRequests (h : Inv [] s) (seen : List Nat) : Good s (.ok (s.checkRequests seen)) := by
  unfold State.checkRequests
  split
  · rename_i hp
    obtain ⟨h1, hg, hslaves, hphase⟩ := h.check seen
    obtain ⟨hcur, hrem⟩ := h1.loop (p := .check) (hphase.trans hp)
    refine ⟨_, rfl, ⟨h1.table, ?_,
      ⟨h1.control.again, h1.control.atHand, h1.control.one, h1.control.once, hcur, ?_, ?_, h.control.once,
        ?_⟩, h1.grace, h1.bin, h1.working⟩, ?_, hg.closed⟩
    · exact h1.tokens_at (p := .check) (hphase.trans hp)
    · exact fun e he => nomatch hrem.symm.trans he
    · exact fun c _ hc => hslaves ▸ hc
    · exact fun c hc => hslaves.symm ▸ hc
    · intro c r hr hn
      obtain ⟨hu, hu'⟩ := hg.destroyed c r hr hn
      exact ⟨hu, hu'.congr (fun _ => rfl) rfl rfl rfl rfl⟩
  · exact .idle h

/-- Fewer slaves are listed. -/
theorem Listed.filter {slaves newSlaves : List Nat} {gc : Option GcThread} {requests : List SyncRequest}
    {p : Nat → Bool} (h : Listed (slaves.filter p) newSlaves gc requests c) :
    Listed slaves newSlaves gc requests c :=
  h.imp_left fun hc => (List.mem_filter.mp hc).1

theorem Inv.prune (h : Inv [] s) (timedOut : Bool) : Good s (s.prune timedOut) := by
  unfold State.prune
  by_cases hbusy : s.removing.isSome = true
  · rw [if_pos hbusy]
    exact .idle h
  · rw [if_neg hbusy]
    have hrem : s.removing = none := by simpa using hbusy
    split
    · rename_i hp
      obtain ⟨hcur, -, hslaves, -⟩ := h.loop hp
      exact .setPhase h hp rfl ⟨⟨hcur, hrem⟩, fun c hc hs => nomatch hslaves c hc hs⟩
    · rename_i x todo hp
      obtain ⟨hcur, -, hslaves, hnodup, htodo⟩ := h.loop hp
      have hne : ∀ c ∈ todo, c ≠ x := fun c hc heq => (List.nodup_cons.mp hnodup).1 (heq ▸ hc)
      obtain ⟨r, hr⟩ := h.grace.listedAlive (c := x) (.inl (htodo x List.mem_cons_self))
      -- the slave is dropped from the list
      have hdrop : ∀ c ∈ s.garbage, c ∈ s.slaves.filter (· ≠ x) → c ∈ todo := by
        intro c hc hs
        obtain ⟨hs, hne⟩ := List.mem_filter.mp hs
        exact (List.mem_cons.mp (hslaves c hc hs)).resolve_left (of_decide_eq_true hne)
      have hkept : ∀ c ∈ todo, c ∈ s.slaves.filter (· ≠ x) := fun c hc =>
        List.mem_filter.mpr ⟨htodo c (List.mem_cons_of_mem _ hc), decide_eq_true (hne c hc)⟩
      rw [hr]
      dsimp only
      split_ifs with hv ht
      · refine ⟨_, rfl, ⟨h.table, h.tokens_at (p := .prune (x :: todo)) hp,
          ⟨h.control.again, h.control.atHand, h.control.one, h.control.once.filter _, hcur, ?_, hdrop,
            (List.nodup_cons.mp hnodup).2, hkept⟩,
          h.grace.step (fun hq => ⟨_, hq⟩) .inl fun hl => .inl hl.filter, h.bin, h.working⟩,
          .same (fun hq => ⟨_, hq⟩) rfl⟩
        exact fun e he => nomatch hrem.symm.trans he
      · -- timed out: the reactor wins the compare-exchange
        have hvalid : r.valid = true := by simpa using hv
        have htok := h.tokens_at (p := .prune (x :: todo)) hp
        rw [hrem] at htok
        have hentry := h.table.entry_of_registered (h.registered_of_valid hr hvalid) hr
        have hgrace := h.grace.setRes (q := { r with valid := false }) hr rfl
        refine ⟨_, rfl, ⟨h.table.setRes hr rfl rfl, htok.takeReactor hentry hr hvalid,
          ⟨h.control.again, h.control.atHand, .inl hcur, h.control.once.filter _, hcur, ?_, hdrop,
            (List.nodup_cons.mp hnodup).2, hkept⟩,
          hgrace.step (fun hq => ⟨_, hq⟩) .inl fun hl => .inl hl.filter, h.bin.setRes hr fun _ => rfl,
          h.working.setRes hr rfl rfl⟩,
          .same (SameSlaves.update (q := { r with valid := false }) hr rfl).alive rfl⟩
        intro e he
        rw [← Option.some.inj he]
        simp
      · -- a valid slave is not in the garbage
        have hvalid : r.valid = true := by simpa using hv
        refine .setPhase h hp rfl ⟨hcur, fun e he => (nomatch hrem.symm.trans he), ?_,
          (List.nodup_cons.mp hnodup).2, fun c hc => htodo c (List.mem_cons_of_mem _ hc)⟩
        intro c hc hs
        refine (List.mem_cons.mp (hslaves c hc hs)).resolve_left fun heq => ?_
        have hinv := h.bin.invalid c (h.bin.garbage_sub c hc) r (heq ▸ hr)
        rw [hvalid] at hinv
        cases hinv
    · exact .idle h

/-- A GC thread that is done, or that does not exist, is not in `with_fd`. -/
theorem Inv.gc_not_inside (h : Inv rs s) (hgc : ¬ (s.gc.any fun t => ! t.done) = true) (c : Nat)
    (st : Stage) : s.inside .gc ≠ some (c, st) := by
  intro hin
  obtain ⟨t, ht, hd, -⟩ := h.working.may hin
  exact hgc (by rw [ht]; simp [hd])

/-- Another GC thread, while none is in `with_fd`. -/
theorem Working.setGc {res : Nat → Option Resource} {nWorkers : Nat} {jobs : Nat → Option Job}
    {inside : Thread → Option (Nat × Stage)} {gc : Option GcThread}
    (h : Working res nWorkers jobs inside gc)
    (hin : ∀ c st, inside .gc ≠ some (c, st)) (gc' : Option GcThread) :
    Working res nWorkers jobs inside gc' := by
  refine ⟨h.lt, h.busy, h.one, ?_⟩
  intro t c st ht
  cases t with
  | worker w => exact h.may ht
  | gc => exact absurd ht (hin c st)

theorem Inv.gcReady (h : Inv [] s) (ready : Bool) : Good s (.ok (s.gcReady ready)) := by
  unfold State.gcReady
  split
  · rename_i hp
    obtain ⟨hnone, hslaves⟩ := h.loop hp
    split_ifs with hgc hready
    · exact .setPhase h hp rfl ⟨hnone, hslaves⟩
    · -- the GC thread gets copies of the lists
      refine ⟨_, rfl, ⟨h.table, h.tokens_at (p := .gc) hp,
        ⟨h.control.again, h.control.atHand, h.control.one, h.control.once, hnone, hslaves⟩,
        h.grace.step (fun hq => ⟨_, hq⟩) .inl ?_, h.bin, h.working.setGc (h.gc_not_inside hgc) _⟩,
        .same (fun hq => ⟨_, hq⟩) rfl⟩
      rintro c (hc | hc | ⟨t, ht, hc⟩ | hc)
      · exact .inl (.inl hc)
      · cases hc
      · cases ht
        have hmem : c ∈ s.slaves ∨ c ∈ s.newSlaves := by
          rcases hc with hc | hc
          · rcases List.mem_append.mp hc with hc | hc
            · exact .inl hc
            · exact .inr (List.mem_filter.mp hc).1
          · exact .inr hc
        exact .inl (hmem.imp_right .inl)
      · exact .inl (.inr (.inr (.inr hc)))
    · refine ⟨_, rfl, ⟨h.table, h.tokens_at (p := .gc) hp,
        ⟨h.control.again, h.control.atHand, h.control.one, h.control.once, hnone, hslaves⟩,
        h.grace.step (fun hq => ⟨_, hq⟩) .inl ?_, h.bin, h.working.setGc (h.gc_not_inside hgc) _⟩,
        .same (fun hq => ⟨_, hq⟩) rfl⟩
      rintro c (hc | hc | ⟨t, ht, -⟩ | hc)
      · exact .inl (.inl hc)
      · exact .inl (.inr (.inl hc))
      · cases ht
      · exact .inl (.inr (.inr (.inr hc)))
  · exact .idle h

/-- The garbage can be the next to wait for: it is on no list, and the new request waits for every running
    worker. -/
theorem Inv.grace_garbage (h : Inv [] s) (seen : List Nat) (hreq : s.requests = []) (hgc : s.gc = none)
    (hnew : s.newSlaves = []) (hslaves : ∀ c ∈ s.garbage, c ∉ s.slaves) :
    Grace s.res s.garbage
      (Listed s.slaves s.newSlaves s.gc
        (⟨.reactorGc, (List.range s.nWorkers).filter (s.unseen seen)⟩ :: s.requests))
      (Uses s.res s.jobs)
      (⟨.reactorGc, (List.range s.nWorkers).filter (s.unseen seen)⟩ :: s.requests) := by
  have hl : ∀ c, Listed s.slaves s.newSlaves s.gc
      (⟨.reactorGc, (List.range s.nWorkers).filter (s.unseen seen)⟩ :: s.requests) c → c ∈ s.slaves := by
    rintro c (hc | hc | ⟨t, ht, -⟩ | ⟨r, hr, hcb⟩)
    · exact hc
    · rw [hnew] at hc
      cases hc
    · rw [hgc] at ht
      cases ht
    · rw [hreq, List.mem_singleton] at hr
      rw [hr] at hcb
      cases hcb
  refine ⟨h.grace.usesAlive, fun hc => h.grace.listedAlive (.inl (hl _ hc)),
    fun c hc hlc => hslaves c hc (hl c hlc), ?_, fun _ => ⟨_, List.mem_cons_self, rfl⟩⟩
  intro c _ w hu r hr _
  rw [hreq, List.mem_singleton] at hr
  rw [hr]
  obtain ⟨j, hj, -⟩ := id hu
  exact List.mem_filter.mpr ⟨List.mem_range.mpr (h.working.lt hj), unseen_of_uses hu⟩

/-- **`fix_garbage`**: when it is called, nothing is waiting to be destroyed, and no one but running jobs
    has a pointer to the garbage. -/
theorem Inv.fixGarbage (h : Inv [] s) (seen locks : List Nat) : Good s (s.fixGarbage seen locks) := by
  unfold State.fixGarbage
  split
  · rename_i hp
    obtain ⟨hnone, hslaves⟩ := h.loop hp
    split_ifs with hready hcopy
    · exact .setPhase h hp rfl hnone
    · obtain ⟨-, hreq, -⟩ := not_or.mp hready |>.imp_right not_or.mp
      obtain ⟨r, hr, -⟩ := h.grace.asked hcopy
      rw [not_not.mp hreq] at hr
      cases hr
    · simp only [not_or, not_not, Bool.not_eq_true, Option.isSome_eq_false_iff,
        Option.isNone_iff_eq_none] at hready
      obtain ⟨-, hreq, hgc, hnew⟩ := hready
      have hgrace := h.grace_garbage seen hreq hgc hnew hslaves
      have h1 : Inv [⟨.reactorGc, (List.range s.nWorkers).filter (s.unseen seen)⟩]
          { s with garbageCopy := s.garbage, garbage := [], phase := .idle } :=
        ⟨h.table, h.tokens_at (p := .fix) hp,
          ⟨h.control.again, h.control.atHand, h.control.one, h.control.once, hnone⟩, hgrace,
          ⟨h.bin.invalid, fun c hc => (nomatch hc), h.bin.garbage_sub⟩, h.working⟩
      obtain ⟨h2, hc2⟩ := h1.tryCloseAll s.garbage locks h.bin.garbage_sub
      have heq := hc2.eq
      generalize s.garbage.foldl (fun s c => s.tryClose c (c ∈ locks))
        { s with garbageCopy := s.garbage, garbage := [], phase := .idle } = s2 at h2 hc2 heq ⊢
      have hws : (List.range s.nWorkers).filter (s.unseen seen)
          = (List.range s2.nWorkers).filter (s2.unseen seen) := by rw [heq]; rfl
      obtain ⟨h3, hg, -⟩ := h2.addRequest hws
      refine ⟨_, rfl, h3, ?_, ?_⟩
      · intro c r hr hn
        obtain ⟨r2, hr2⟩ := hc2.same.alive hr
        obtain ⟨hu, hu'⟩ := hg.destroyed c r2 hr2 hn
        refine ⟨hu.congr (fun d => (hc2.same d).symm) ?_ ?_ ?_ ?_, hu'⟩ <;> rw [heq]
      · intro c hc hn t st
        by_cases hc' : c ∈ s2.closes
        · exact hc2.closed c hc' hn t st
        · have hin := hg.closed c hc hc' t st
          rw [heq] at hin
          exact hin
  · exact .idle h

/-! ## The other threads -/

theorem may_of_mayUse (h : s.mayUse c t = true) : May s.res s.jobs s.gc c t := by
  cases t with
  | worker w =>
    cases hj : s.jobs w with
    | none =>
      rw [State.mayUse, hj] at h
      cases h
    | some j =>
      rw [State.mayUse, hj] at h
      exact ⟨j, hj, of_decide_eq_true h⟩
  | gc =>
    cases ht : s.gc with
    | none =>
      rw [State.mayUse, ht] at h
      cases h
    | some t =>
      rw [State.mayUse, ht] at h
      exact ⟨t, rfl, of_decide_eq_true h⟩

theorem Working.setInside {res : Nat → Option Resource} {nWorkers : Nat} {jobs : Nat → Option Job}
    {inside : Thread → Option (Nat × Stage)} {gc : Option GcThread} (h : Working res nWorkers jobs inside gc)
    {x : Option (Nat × Stage)} (hx : ∀ c st, x = some (c, st) → May res jobs gc c t) :
    Working res nWorkers jobs (Function.update inside t x) gc := by
  refine ⟨h.lt, h.busy, h.one, ?_⟩
  intro u c st hu
  by_cases hut : u = t
  · subst hut
    rw [Function.update_self] at hu
    exact hx c st hu
  · rw [Function.update_of_ne hut] at hu
    exact h.may hu

/-- What a thread uses is alive. -/
theorem Inv.alive_of_may (h : Inv rs s) (hm : May s.res s.jobs s.gc c t) :
    ∃ r, s.res c = some r := by
  cases t with
  | worker w =>
    obtain ⟨j, hj, -, hc⟩ := hm
    exact h.grace.usesAlive ⟨j, hj, hc⟩
  | gc =>
    obtain ⟨t, ht, -, hc⟩ := hm
    exact h.grace.listedAlive (.inr (.inr (.inl ⟨t, ht, hc⟩)))

/-- A thread moves in `with_fd`, but not to or from the compare-exchange. -/
theorem Inv.setInside (h : Inv [] s) {x : Option (Nat × Stage)}
    (hold : ∀ d, s.inside t ≠ some (d, .removing)) (hnew : ∀ d, x ≠ some (d, .removing))
    (hx : ∀ c st, x = some (c, st) → May s.res s.jobs s.gc c t) : Good s (.ok (s.setInside t x)) :=
  ⟨_, rfl, ⟨h.table, h.tokens.setInside hold hnew, h.control, h.grace, h.bin, h.working.setInside hx⟩,
    .same (fun hq => ⟨_, hq⟩) rfl⟩

theorem Inv.lock (h : Inv [] s) (t : Thread) (c : Nat) : Good s (s.lock t c) := by
  unfold State.lock
  split_ifs with hcond
  · have hm := may_of_mayUse hcond.1
    obtain ⟨r, hr⟩ := h.alive_of_may hm
    rw [hr]
    refine h.setInside ?_ ?_ ?_
    · exact fun d hd => nomatch hcond.2.symm.trans hd
    · exact fun d hd => nomatch hd
    · rintro d st hd
      cases hd
      exact hm
  · exact .idle h

theorem Inv.valid (h : Inv [] s) (t : Thread) : Good s (s.valid t) := by
  unfold State.valid
  split
  · rename_i c ht
    have hm := h.working.may ht
    obtain ⟨r, hr⟩ := h.alive_of_may hm
    rw [hr]
    refine h.setInside ?_ ?_ ?_
    · exact fun d hd => nomatch ht.symm.trans hd
    · intro d hd
      split_ifs at hd
      cases hd
    · intro d st hd
      split_ifs at hd
      cases hd
      exact hm
  · exact .idle h

theorem Inv.ret (h : Inv [] s) (t : Thread) (ok : Bool) : Good s (s.ret t ok) := by
  unfold State.ret
  split
  · rename_i c ht
    have hm := h.working.may ht
    have hleave : Good s (.ok (s.setInside t none)) :=
      h.setInside (fun d hd => nomatch ht.symm.trans hd) (fun d hd => nomatch hd) fun d st hd => nomatch hd
    obtain ⟨r, hr⟩ := h.alive_of_may hm
    rw [hr]
    dsimp only
    split_ifs with hok hv
    · exact hleave
    · -- the thread wins the compare-exchange
      have htok := h.tokens.takeThread (h.registered_of_valid hr hv) hr hv
        (t := t) fun d hd => nomatch ht.symm.trans hd
      have hsame : SameSlaves s.res (Function.update s.res c (some { r with valid := false })) :=
        .update hr rfl
      have hwork :
        Working (Function.update s.res c (some { r with valid := false })) s.nWorkers s.jobs s.inside
        s.gc := h.working.setRes hr rfl rfl
      refine ⟨_, rfl, ⟨h.table.setRes hr rfl rfl, htok, h.control, h.grace.setRes hr rfl,
        h.bin.setRes hr fun _ => rfl, hwork.setInside ?_⟩, .same hsame.alive rfl⟩
      intro d st hd
      cases hd
      exact (hsame.may _ _ _ _).mpr hm
    · exact hleave
  · exact .idle h

theorem Inv.requestRemoval (h : Inv [] s) (t : Thread) : Good s (s.requestRemoval t) := by
  unfold State.requestRemoval
  split
  · rename_i c ht
    obtain ⟨r, hr⟩ := h.alive_of_may (h.working.may ht)
    have hentry := h.table.entry_of_registered (h.tokens.registered (k := .thread t) ht) hr
    rw [hr]
    refine ⟨_, rfl, ⟨h.table, ?_, h.control, h.grace, h.bin, h.working.setInside fun _ _ hd => nomatch hd⟩,
      .same (fun hq => ⟨_, hq⟩) rfl⟩
    show Tokens s.res s.resources (s.phase.dropped ++ (s.dropReq ++ [⟨r.fd, c⟩])) s.removing _
    rw [← List.append_assoc]
    exact h.tokens.request ht hentry
  · exact .idle h

/-- `m_busy` is cleared: the job's pointers are what they were. -/
theorem Inv.free (h : Inv [] s) (w : Nat) : Good s (s.free w) := by
  unfold State.free
  split
  · rename_i c hj
    split_ifs with hin
    · obtain ⟨r, hr⟩ := h.grace.usesAlive (w := w) (c := c) ⟨_, hj, List.mem_cons_self⟩
      have hsame := SameSlaves.update (q := { r with busy := false }) hr rfl
      rw [hr]
      refine ⟨_, rfl, ⟨h.table.setRes hr rfl rfl, h.tokens.flag hr rfl, h.control, ?_, h.bin.setRes hr id,
        ?_, ?_, ?_, ?_⟩, .same hsame.alive rfl⟩
      · refine (h.grace.setRes (q := { r with busy := false }) hr rfl).step (fun hq => ⟨_, hq⟩) ?_ .inl
        rintro v x ⟨j, hjv, hx⟩
        rcases update_eq_some hjv with ⟨rfl, rfl⟩ | ⟨-, hjv⟩
        · exact .inl ⟨_, hj, hx⟩
        · exact .inl ⟨j, hjv, hx⟩
      · intro v j hjv
        rcases update_eq_some hjv with ⟨rfl, -⟩ | ⟨-, hjv⟩
        · exact h.working.lt hj
        · exact h.working.lt hjv
      · intro v d q hjv hq
        rcases update_eq_some hjv with ⟨-, hjv⟩ | ⟨hv, hjv⟩
        · cases hjv
        · rcases update_eq_some hq with ⟨rfl, -⟩ | ⟨-, hq⟩
          · exact absurd (h.working.one hjv hj) hv
          · exact h.working.busy hjv hq
      · intro v v' d hjv hjv'
        rcases update_eq_some hjv with ⟨-, hjv⟩ | ⟨-, hjv⟩
        · cases hjv
        · rcases update_eq_some hjv' with ⟨-, hjv'⟩ | ⟨-, hjv'⟩
          · cases hjv'
          · exact h.working.one hjv hjv'
      · intro t d st ht
        have hm := (hsame.may _ _ _ _).mpr (h.working.may ht)
        cases t with
        | worker v =>
          obtain ⟨j, hjv, hjd⟩ := hm
          have hv : v ≠ w := by
            rintro rfl
            exact nomatch hin.symm.trans ht
          exact ⟨j, (Function.update_of_ne hv ..).trans hjv, hjd⟩
        | gc => exact hm
    · exact .idle h
  · exact .idle h

/-- A job ends: its pointers are gone. -/
theorem Inv.finish (h : Inv [] s) (w : Nat) : Good s (.ok (s.finish w)) := by
  have hend : s.inside (.worker w) = none → Good s (.ok (s.setJob w none)) := by
    intro hin
    have hjob : ∀ {v j}, Function.update s.jobs w none v = some j → v ≠ w ∧ s.jobs v = some j := by
      intro v j hj
      by_cases hv : v = w
      · rw [hv, Function.update_self] at hj
        cases hj
      · rw [Function.update_of_ne hv] at hj
        exact ⟨hv, hj⟩
    refine ⟨_, rfl, ⟨h.table, h.tokens, h.control, ?_, h.bin, fun hj => h.working.lt (hjob hj).2,
      fun hj => h.working.busy (hjob hj).2, fun hj hj' => h.working.one (hjob hj).2 (hjob hj').2, ?_⟩,
      .same (fun hq => ⟨_, hq⟩) rfl⟩
    · refine h.grace.step (fun hq => ⟨_, hq⟩) ?_ .inl
      rintro v x ⟨j, hj, hx⟩
      exact .inl ⟨j, (hjob hj).2, hx⟩
    · intro t d st ht
      have hm := h.working.may ht
      cases t with
      | worker v =>
        obtain ⟨j, hj, hjd⟩ := hm
        have hv : v ≠ w := by
          rintro rfl
          exact nomatch hin.symm.trans ht
        exact ⟨j, (Function.update_of_ne hv ..).trans hj, hjd⟩
      | gc => exact hm
  unfold State.finish
  split
  · exact .idle h
  · split_ifs with hin
    · exact hend hin
    · exact .idle h

theorem Inv.gcEnd (h : Inv [] s) : Good s (.ok s.gcEnd) := by
  unfold State.gcEnd
  split_ifs with hin
  · refine ⟨_, rfl, ⟨h.table, h.tokens, h.control, h.grace.step (fun hq => ⟨_, hq⟩) .inl ?_, h.bin,
      h.working.setGc (fun c st ht => nomatch hin.symm.trans ht) _⟩, .same (fun hq => ⟨_, hq⟩) rfl⟩
    rintro c (hc | hc | ⟨t, ht, hc⟩ | hc)
    · exact .inl (.inl hc)
    · exact .inl (.inr (.inl hc))
    · obtain ⟨t0, ht0, rfl⟩ := Option.map_eq_some_iff.mp ht
      exact .inl (.inr (.inr (.inl ⟨t0, ht0, hc⟩)))
    · exact .inl (.inr (.inr (.inr hc)))
  · exact .idle h

/-! ## Runs -/

theorem inv_init (nWorkers : Nat) (openFds : List Nat) : Inv [] (State.init nWorkers openFds) where
  table := {
    fresh := fun hr => nomatch hr
    entry := fun _ he => nomatch he
    keys := List.nodup_nil
    opened := fun hr => nomatch hr
    sole := fun hr => nomatch hr
    removedOnce := List.nodup_nil
    removed_lt := fun _ hc => nomatch hc
    parted := fun _ hc => absurd hc (Nat.not_lt_zero _)
    closedOnce := List.nodup_nil
    closes_lt := fun _ hc => nomatch hc
    closed_iff := fun hr => nomatch hr
    destroyed := fun _ hc => absurd hc (Nat.not_lt_zero _) }
  tokens := {
    drop_mem := fun _ he => nomatch he
    removing_mem := fun _ he => nomatch he
    registered := fun {c k} hk => by cases k <;> simp [Holds, State.init, Phase.dropped] at hk
    invalid := fun _ hr => nomatch hr
    sole := fun {c k l} hk => by cases k <;> simp [Holds, State.init, Phase.dropped] at hk
    nodup := List.nodup_nil
    full := fun _ hr => nomatch hr }
  control := ⟨fun _ he => (nomatch he), fun _ hd => (nomatch hd), .inl rfl, List.nodup_nil, rfl, rfl⟩
  grace := {
    usesAlive := fun ⟨_, hj, _⟩ => nomatch hj
    listedAlive := fun {c} hc => by simp [Listed, State.init] at hc
    notListed := fun _ hc => nomatch hc
    waited := fun _ hc => nomatch hc
    asked := fun hne => absurd rfl hne }
  bin := ⟨fun _ hc => (nomatch hc), fun _ hc => (nomatch hc), fun _ hc => (nomatch hc)⟩
  working :=
    ⟨fun hj => (nomatch hj), fun hj => (nomatch hj), fun hj => (nomatch hj), fun ht => (nomatch ht)⟩

/-- **No step fails, and each keeps the invariants.** -/
theorem step_good (h : Inv [] s) (e : Event) : Good s (s.step e) := by
  cases e with
  | listen fd =>
    show Good s (if s.phase = .idle ∧ fd ∉ s.openFds then _ else _)
    split_ifs with hcond
    · refine h.add hcond.2 .server ?_
      obtain ⟨hcur, hrem⟩ := h.loop hcond.1
      refine ⟨fun e he => List.mem_cons_of_mem _ (h.control.again e he),
        fun d hd => (nomatch hcur.symm.trans hd), h.control.one, h.control.once, ?_⟩
      rw [hcond.1]
      exact ⟨hcur, hrem⟩
    · exact .idle h
  | poll => exact h.poll
  | next locks => exact h.next locks
  | epollWait evs => exact h.epollWait evs
  | handle a => exact h.handle a
  | remove locks =>
    cases hrem : s.removing with
    | none =>
      rw [State.step, hrem]
      exact .idle h
    | some e =>
      rw [State.step, hrem]
      exact h.remove hrem locks
  | callback => exact h.callback
  | check seen => exact h.checkRequests seen
  | prune timedOut => exact h.prune timedOut
  | gcReady ready => exact h.gcReady ready
  | fixGarbage seen locks => exact h.fixGarbage seen locks
  | lock t c => exact h.lock t c
  | valid t => exact h.valid t
  | ret t ok => exact h.ret t ok
  | requestRemoval t => exact h.requestRemoval t
  | free w => exact h.free w
  | finish w => exact h.finish w
  | gcEnd => exact h.gcEnd

theorem inv_step {s s' : State} {e : Event} (h : Inv [] s) (hs : s.step e = .ok s') : Inv [] s' := by
  obtain ⟨s1, hs1, h1, -⟩ := step_good h e
  exact Except.ok.inj (hs1.symm.trans hs) ▸ h1

/-- **Deferred reclamation is safe**: in every run, whatever is destroyed was neither the socket nor in the
    slave list of a job, nor in the lists of a GC thread, nor in `m_slaves` or `m_new_slaves`; and every step
    succeeds, `fix_garbage` and the use of objects included. -/
theorem reclaim_safe (nWorkers : Nat) (openFds : List Nat) (es : List Event) :
    Along (fun s e => ∃ s', s.step e = .ok s' ∧
      ∀ c r, s.res c = some r → s'.res c = none → Unused s c ∧ Unused s' c)
      State.step (State.init nWorkers openFds) es := by
  refine along_of_invariant (fun e h => ?_) inv_step es (inv_init nWorkers openFds)
  obtain ⟨s', hs', -, hg⟩ := step_good h e
  exact ⟨s', hs', hg.destroyed⟩

/-- A client is accepted; the worker that runs its receive job finds the connection broken; the reactor
    removes the socket and fixes the garbage while the job is still running. -/
def brokenRun : List Event :=
  [.listen 3, .poll, .next true, .next true, .epollWait [(3, ⟨false, false, true, false⟩)], .next true,
   .handle (.accept 4 .memcache []), .handle .done, .next true,
   .poll, .next true, .next true, .epollWait [(4, ⟨false, false, true, false⟩)], .next true,
   .handle (.post 0), .next true,
   .lock (.worker 0) 1, .valid (.worker 0), .ret (.worker 0) false, .requestRemoval (.worker 0),
   .poll, .next true, .next true, .next true, .epollWait [], .next true,
   .callback, .check [], .prune false, .gcReady false, .fixGarbage [0] []]

/-- The socket waits for the job, and is destroyed after it. -/
example :
    (run State.step (State.init 1 []) brokenRun).toOption.map (fun s => (s.garbageCopy, s.closes)) =
      some ([1], [1]) ∧
    (run State.step (State.init 1 []) (brokenRun ++ [.free 0, .finish 0, .callback, .check [0]])).toOption.map
      (fun s => (s.garbageCopy, s.removed, (s.res 1).isNone)) = some ([], [1], true) := by
  decide +kernel

/-- The readable resources that `poll` has taken over. -/
def Phase.copied : Phase → List Entry
  | .readables todo => todo
  | _ => []

/-- **What the reactor's queues and histories say.** -/
structure Attributed (s : State) : Prop where
  /-- A drop request or a readable resource denotes the resource that it was made for. -/
  drop : ∀ e ∈ s.phase.dropped ++ s.dropReq, s.find e.fd = some e.owner
  readable : ∀ e ∈ s.phase.copied ++ s.readables, s.find e.fd = some e.owner
  /-- Removed at most once; and what is not registered has been removed. -/
  once : s.removed.Nodup
  parted : ∀ c < s.created, Registered s.resources c ↔ c ∉ s.removed
  /-- A registered resource that is invalid will be removed, by exactly one. -/
  token : ∀ c r, Registered s.resources c → s.res c = some r → r.valid = false →
    ∃! k, Holds (s.phase.dropped ++ s.dropReq) s.removing s.inside c k
  /-- Closed at most once; what is destroyed has been closed; no two open ones share a descriptor. -/
  closedOnce : s.closes.Nodup
  closed : ∀ c < s.created, s.res c = none → c ∈ s.closes
  sole : ∀ c d r q, s.res c = some r → s.res d = some q → r.closed = false → q.closed = false →
    r.fd = q.fd → c = d

theorem Inv.attributed (h : Inv [] s) : Attributed s where
  drop e he := find_of_mem h.table.keys (h.tokens.drop_mem e he)
  readable e he := by
    refine find_of_mem h.table.keys ?_
    rcases List.mem_append.mp he with he | he
    · have hloop := h.control.loop
      cases hp : s.phase with
      | readables todo =>
        rw [hp] at he hloop
        exact hloop.2 e he
      | _ =>
        rw [hp] at he
        cases he
    · exact h.control.again e he
  once := h.table.removedOnce
  parted := h.table.parted
  token c r hreg hr hv := by
    obtain ⟨k, hk⟩ := h.tokens.full hreg hr hv
    exact ⟨k, hk, fun l hl => h.tokens.sole hl hk⟩
  closedOnce := h.table.closedOnce
  closed := h.table.destroyed
  sole c d r q hr hq hc hc' := h.table.sole hr hq hc hc'

/-- **Every resource is removed once, and descriptors are not mistaken**: in every run, every step succeeds
    and leaves the queues denoting registered resources; and what it closes, no thread is in `with_fd` of. -/
theorem removed_once (nWorkers : Nat) (openFds : List Nat) (es : List Event) :
    Along (fun s e => ∃ s', s.step e = .ok s' ∧ Attributed s' ∧
      ∀ c ∈ s'.closes, c ∉ s.closes → ∀ t st, s.inside t ≠ some (c, st))
      State.step (State.init nWorkers openFds) es := by
  refine along_of_invariant (fun e h => ?_) inv_step es (inv_init nWorkers openFds)
  obtain ⟨s', hs', h', hg⟩ := step_good h e
  exact ⟨s', hs', h'.attributed, hg.closed⟩

end Yrmcds.Reactor
