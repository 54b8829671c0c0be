/-
  Compare-and-swap: what a successful conditional store says about the past.

  An object counts its modifications in `m_cas`, from 1.  A client that has read data, flags and cas
  value of a key can store under the condition that the cas value is still the same (text cas, binary
  Set and Replace with a cas value).

  `step_versioned` is the rule behind it: a step of the server that finds a key and leaves it there
  either leaves data, flags and cas value alone or counts the cas value up by one — a command changes
  the contents of at most ONE object, once (`exec_effects`), GC and the clock none.  With the library's
  `unchanged_of_version`, a conditional store that succeeds proves that nothing was changed since the
  read, PROVIDED the key was there all the time.

  The proviso is needed.  The count belongs to the object, not to the key: a key that is deleted (or
  evicted, or expired and collected) and set again starts at 1 again, and the cas value of a read before
  the deletion fits the new object (`cas_fits_recreated`).
-/
import Yrmcds.Memcache.CasGuard
import Yrmcds.Memcache.LockTable
import Yrmcds.Lib.Version

namespace Yrmcds.Memcache

open ChainTable Run Version

/-- What the map shows under a key: data and flags, and the cas value. -/
def look (k : Key) (m : HashMap Object) : Option ((Bytes × UInt32) × UInt64) :=
  (m.find k).map fun p => ((p.val.data, p.val.flags), p.val.cas)

theorem look_of_find {k : Key} {m : HashMap Object} {p : Cell Key Object} (h : m.find k = some p) :
    look k m = some ((p.val.data, p.val.flags), p.val.cas) := by
  unfold look
  rw [h]
  rfl

/-! ## One step -/

section

variable {k l : Key} {m : HashMap Object} {q : Cell Key Object}

theorem look_write_of_ne (hq : m.find l = some q) (o : Object) (hkl : k ≠ l) :
    look k (m.write q.addr o) = look k m := by
  unfold look
  rw [m.find_write_of_ne hq o hkl]

theorem look_write_self (hq : m.find l = some q) (o : Object) :
    look l (m.write q.addr o) = some ((o.data, o.flags), o.cas) :=
  look_of_find (m.find_write_self hq o)

/-- A write that keeps the contents. -/
theorem look_write (hq : m.find l = some q) {o : Object}
    (ho : ((o.data, o.flags), o.cas) = ((q.val.data, q.val.flags), q.val.cas)) :
    look k (m.write q.addr o) = look k m := by
  by_cases hkl : k = l
  · subst hkl
    rw [look_write_self hq, look_of_find hq, ho]
  · exact look_write_of_ne hq o hkl

/-- Giving up locks does not show. -/
theorem look_unlockLoop {ctx : Int} {force : Bool} {ls : List Nat} {m' : HashMap Object}
    (hu : unlockLoop ctx force m ls = .ok m') : look k m' = look k m := by
  unfold look
  rw [unlockLoop_find hu, Option.map_map]
  congr 1
  funext p
  show _ = ((p.val.data, p.val.flags), p.val.cas)
  rw [Function.comp_apply]
  split_ifs <;> rfl

end

section

variable {g : Env} {k : Key} {w w' : World}

/-- A quiet step of a command does not show under any key. -/
theorem look_of_quiet (hs : Prim g false w w') : look k w'.1 = look k w.1 := by
  cases hs with
  | chat hc => rfl
  | flush t hc => rfl
  | obj hq hs =>
    refine look_write hq ?_
    cases hs <;> rfl
  | unlockAll hu hc => exact look_unlockLoop hu

/-- A loud step counts up the cas value, if it finds the key and leaves it there. -/
theorem look_of_loud (hs : Prim g true w w') {x x' : (Bytes × UInt32) × UInt64}
    (hx : look k w.1 = some x) (hx' : look k w'.1 = some x') : x' = x ∨ x'.2 = x.2 + 1 := by
  cases hs with
  | @obj _ m σ σ' l q o hq hs =>
    by_cases hkl : k = l
    · subst hkl
      rw [look_of_find hq, Option.some.injEq] at hx
      rw [look_write_self hq, Option.some.injEq] at hx'
      cases hs with
      | store hl hcas hlock hc =>
        rw [← hx, ← hx']
        exact .inr hcas
    · rw [look_write_of_ne hq o hkl, hx, Option.some.injEq] at hx'
      exact .inl hx'.symm
  | @create m σ σ' l o hl hlen hlock hcas hc =>
    by_cases hkl : k = l
    · subst hkl
      unfold look at hx
      rw [hl] at hx
      cases hx
    · unfold look at hx hx'
      rw [m.find_push_of_ne o hl hkl, hx, Option.some.injEq] at hx'
      exact .inl hx'.symm
  | @remove m σ σ' l q ls hq hl hr hc =>
    by_cases hkl : k = l
    · subst hkl
      unfold look at hx'
      rw [m.find_erase_self hq] at hx'
      cases hx'
    · unfold look at hx hx'
      rw [m.find_erase_of_ne hq hkl, hx, Option.some.injEq] at hx'
      exact .inl hx'.symm

/-- Commands that make quiet steps only. -/
theorem look_of_quiet_effects (h : Effects g false w (.ok w')) : look k w'.1 = look k w.1 := by
  generalize hn : false = n at h
  generalize hr : Except.ok w' = r at h
  induction h with
  | done => cases hr; rfl
  | quiet hs _ ih => exact (ih hn hr).trans (look_of_quiet hs)
  | loud => cases hn
  | fail => cases hr

theorem look_of_effects {n : Bool} (h : Effects g n w (.ok w')) {x x' : (Bytes × UInt32) × UInt64}
    (hx : look k w.1 = some x) (hx' : look k w'.1 = some x') : x' = x ∨ x'.2 = x.2 + 1 := by
  generalize hr : Except.ok w' = r at h
  induction h with
  | done =>
    cases hr
    rw [hx, Option.some.injEq] at hx'
    exact .inl hx'.symm
  | quiet hs _ ih => exact ih ((look_of_quiet hs).trans hx) hr
  | loud hs hrest _ =>
    -- whatever the loud step leaves, the rest of the command keeps
    cases hr
    rw [look_of_quiet_effects hrest] at hx'
    exact look_of_loud hs hx hx'
  | fail => cases hr

end

/-- What the server shows under a key. -/
def Server.look (k : Key) (s : Server) : Option ((Bytes × UInt32) × UInt64) := Memcache.look k s.hash

/-- A visit of GC removes a key or does not show. -/
theorem look_gcStep (s : Server) (t : GcThread) (k : Key) :
    (s.gcStep t).look k = none ∨ (s.gcStep t).look k = s.look k := by
  unfold Server.look Memcache.look
  by_cases hn : t.next < s.hash.buckets.length
  · rw [s.gcStep_find t hn]
    split_ifs
    · cases s.hash.find k with
      | none => exact .inl rfl
      | some p =>
        rw [Option.bind_some]
        split_ifs
        · exact .inl rfl
        · refine .inr ?_
          simp only [Option.map_some, Cell.put, gcKeeps_data, gcKeeps_flags, gcKeeps_cas]
    · exact .inr rfl
  · rw [s.gcStep_end t hn]
    exact .inr rfl

/-- **Step**: a key that is there before and after a step keeps data, flags and cas value, or its cas
    value is counted up. -/
theorem step_versioned (k : Key) : Versioned (Server.look k) (· + 1) Server.step := by
  intro s e s' x x' hs hx hx'
  have hkeep : s'.look k = s.look k → x' = x ∨ x'.2 = x.2 + 1 := by
    intro h
    rw [h, hx, Option.some.injEq] at hx'
    exact .inl hx'.symm
  cases Server.stepped_of_step hs with
  | idle | accept | tick | gcStart => exact hkeep rfl
  | @cmd c conn slaves r w hc hw =>
    have heff := exec_effects (s.env conn.fd) r s.hash (s.session conn slaves)
    rw [hw] at heff
    exact look_of_effects heff hx hx'
  | close hc hu => exact hkeep (look_unlockLoop hu)
  | @gcNext t ht =>
    rcases look_gcStep s t k with hnone | hsame
    · rw [hnone] at hx'; cases hx'
    · exact hkeep hsame

/-- `m_cas` comes round after 2^64 modifications, not before. -/
theorem cas_period : Period (fun u : UInt64 => u + 1) (2 ^ 64) := by
  have hiter : ∀ (n : Nat) (u : UInt64), (fun u : UInt64 => u + 1)^[n] u = u + UInt64.ofNat n := by
    intro n
    induction n with
    | zero => intro u; simp
    | succ n ih =>
      intro u
      rw [Function.iterate_succ_apply, ih, UInt64.ofNat_add, UInt64.ofNat_one, UInt64.add_assoc,
        UInt64.add_comm 1]
  intro u n hpos hlt heq
  rw [hiter] at heq
  have hzero : UInt64.ofNat n = 0 := by simpa using heq
  have hn : n % 2 ^ 64 = 0 := by simpa using congrArg UInt64.toNat hzero
  omega

/-! ## Replies -/

/-- What a reply says about key `k`, if the reply is to a read of it: data, flags and cas value. -/
def Reply.shows (k : Key) : Reply → Option ((Bytes × UInt32) × UInt64)
  | .text (.VALUE k' f d (some u)) => if k' = k then some ((d, f), u) else none
  | .binary ⟨_, _, .get f d u _⟩ => some ((d, f), u)
  | _ => none

/-- The replies to a store that was done. -/
def Reply.isStored : Reply → Bool
  | .text .STORED => true
  | .binary ⟨_, _, .set _⟩ => true
  | _ => false

/-- Whatever the connection is sent from `σ` to `σ'` satisfies `P`. -/
def Says (P : Reply → Prop) (σ σ' : Session) : Prop := ∃ new, σ'.out = σ.out ++ new ∧ ∀ r ∈ new, P r

namespace Says

variable {P : Reply → Prop} {σ σ1 σ2 : Session}

@[refl] theorem refl (P : Reply → Prop) (σ : Session) : Says P σ σ :=
  ⟨[], (List.append_nil _).symm, fun _ h => nomatch h⟩

theorem trans (h : Says P σ σ1) (h' : Says P σ1 σ2) : Says P σ σ2 := by
  obtain ⟨l, hl, hP⟩ := h
  obtain ⟨l', hl', hP'⟩ := h'
  refine ⟨l ++ l', by rw [hl', hl, List.append_assoc], fun r hr => ?_⟩
  exact (List.mem_append.mp hr).elim (hP r) (hP' r)

/-- One more reply. -/
theorem send {r : Reply} (hP : P r) (ho : σ1.out = σ.out ++ [r]) : Says P σ σ1 :=
  ⟨[r], ho, fun _ h => List.mem_singleton.mp h ▸ hP⟩

theorem bin {cmd : BinaryRequest} {b : BinaryBody}
    (hP : P (.binary ⟨cmd.command.toByte, cmd.opaqueBytes, b⟩)) : Says P σ (σ.bin cmd b) := .send hP rfl

theorem textUnlessNoReply {cmd : TextRequest} {r : TextReply} (hP : P (.text r)) :
    Says P σ (σ.textUnlessNoReply cmd r) := by
  unfold Session.textUnlessNoReply
  split_ifs
  · exact refl P σ
  · exact send hP rfl

/-- A reply among the new ones. -/
theorem of_mem (h : Says P σ σ1) {new : List Reply} (ho : σ1.out = σ.out ++ new) {r : Reply}
    (hr : r ∈ new) : P r := by
  obtain ⟨l, hl, hP⟩ := h
  rw [hl, List.append_cancel_left_eq] at ho
  exact hP r (ho ▸ hr)

end Says

/-! ## Reads -/

/-- The command reads `k` with its cas value: a get of the binary protocol, in any of its variants, or
    GETS. -/
def Cmd.reads (k : Key) : Cmd → Bool
  | .bin r => r.key = k && r.command ∈ [.Get, .GetQ, .GetK, .GetKQ, .GaT, .GaTQ, .GaTK, .GaTKQ, .LaG, .LaGQ,
      .LaGK, .LaGKQ]
  | .text r => r.command = .GETS

section

variable (g : Env)

/-- A reply to a read of `k` shows what the map shows. -/
abbrev Truthful (k : Key) (m : HashMap Object) (r : Reply) : Prop :=
  ∀ x, r.shows k = some x → look k m = some x

/-- A reply that shows nothing. -/
theorem truthful_of_none {k : Key} {m : HashMap Object} {r : Reply} (h : r.shows k = none) :
    Truthful k m r := by
  intro x hx
  rw [h] at hx
  cases hx

theorem getMiss_tells (cmd : BinaryRequest) (k : Key) (m : HashMap Object) (σ : Session) :
    Says (Truthful k m) σ (getMiss cmd σ) := by
  unfold getMiss
  split_ifs
  · exact .bin (truthful_of_none rfl)
  · exact .refl _ σ

/-- The reply of the get family carries data, flags and cas value. -/
theorem getReply_shows (cmd : BinaryRequest) (k : KeyRef) (o : Object) (k' : Key) (op : UInt8)
    (ob : Bytes) :
    Reply.shows k' (.binary ⟨op, ob, getReply cmd k o⟩) = some ((o.data, o.flags), o.cas) := by
  unfold getReply
  split <;> rfl

theorem getBody_tells (cmd : BinaryRequest) (k : KeyRef) {o : Object} (σ : Session) {key : Key}
    {m : HashMap Object} (ho : look key m = some ((o.data, o.flags), o.cas)) :
    Says (Truthful key m) σ (getBody g cmd k o σ).2.2 := by
  unfold getBody
  split_ifs
  · exact .refl _ σ
  · refine .send (r := .binary ⟨_, _, getReply cmd k (o.touch cmd.exptime)⟩) ?_ rfl
    intro x hx
    rw [getReply_shows] at hx
    exact ho.trans hx
  · refine .bin ?_
    intro x hx
    rw [getReply_shows] at hx
    exact ho.trans hx

theorem getHandler_tells (cmd : BinaryRequest) (k : KeyRef) {o o' : Object} {σ σ' : Session} {b : Bool}
    {key : Key} {m : HashMap Object} (ho : look key m = some ((o.data, o.flags), o.cas))
    (h : getHandler g cmd k o σ = .ok (b, o', σ')) : Says (Truthful key m) σ σ' := by
  unfold getHandler at h
  split_ifs at h with hlag hlocked
  · cases h
    exact .bin (truthful_of_none rfl)
  · have hun := o.locked_eq_false.mp (Bool.eq_false_iff.mpr hlocked)
    rw [acquire_ok g k σ hun] at h
    have hbody := getBody_tells g cmd k (σ.addLock k) (o := { o with lock := g.ctx }) ho
    rw [Except.ok.inj h] at hbody
    exact hbody
  · have hbody := getBody_tells g cmd k σ ho
    rw [Except.ok.inj h] at hbody
    exact hbody

/-- A binary get. -/
theorem bin_read (cmd : BinaryRequest) {m m' : HashMap Object} {σ σ' : Session}
    (h : applyOr m cmd.key (getHandler g cmd) none (getMiss cmd) σ = .ok (m', σ')) :
    look cmd.key m' = look cmd.key m ∧ Says (Truthful cmd.key m) σ σ' := by
  have heff : Effects g false (m, σ) (applyOr m cmd.key (getHandler g cmd) none (getMiss cmd) σ) :=
    (applyOr_calm' g σ (getHandler_lawful g m.deref cmd) (getMiss_chat cmd)).effects
  rw [h] at heff
  refine ⟨look_of_quiet_effects heff, ?_⟩
  unfold applyOr at h
  cases hp : m.find cmd.key with
  | none =>
    rw [HashMap.apply_absent hp] at h
    cases h
    exact getMiss_tells cmd _ _ σ
  | some p =>
    rw [HashMap.apply_found hp] at h
    cases hh : getHandler g cmd (itemRef p) p.val σ with
    | error e => rw [hh] at h; cases h
    | ok res =>
      obtain ⟨b, o, σ1⟩ := res
      have hsays := getHandler_tells g cmd (itemRef p) (look_of_find hp) hh
      rw [hh] at h
      cases b with
      | true => cases h; exact hsays
      | false => cases h; exact hsays.trans (getMiss_tells cmd _ _ σ1)

/-- One key of GETS. -/
theorem gets_one (cmd : TextRequest) {k l : Key} {m m' : HashMap Object} {σ σ' : Session} {b : Bool}
    (h : HashMap.apply m l (some (Text.getHandler g cmd)) none σ = .ok (b, m', σ')) :
    look k m' = look k m ∧ Says (Truthful k m) σ σ' := by
  cases hp : m.find l with
  | none =>
    rw [HashMap.apply_absent hp] at h
    cases h
    exact ⟨rfl, .refl _ σ⟩
  | some p =>
    rw [HashMap.apply_found hp] at h
    have hkey : (itemRef p).key = l := m.find_key hp
    unfold Text.getHandler at h
    split_ifs at h
    · cases h
      exact ⟨look_write hp rfl, .refl _ σ⟩
    all_goals
      cases h
      refine ⟨look_write hp rfl, .send (r := .text (.VALUE ..)) ?_ rfl⟩
      intro x hx
      simp only [Reply.shows, hkey] at hx
    · split_ifs at hx with hkl
      subst hkl
      exact (look_of_find hp).trans hx
    · cases hx

/-- GETS, by induction on its keys: the map shows the same all along. -/
theorem gets_read (cmd : TextRequest) (k : Key) (ks : List Key) :
    ∀ {m m' : HashMap Object} {σ σ' : Session}, Text.getLoop g cmd ks m σ = .ok (m', σ') →
      look k m' = look k m ∧ Says (Truthful k m) σ σ' := by
  induction ks with
  | nil =>
    intro m m' σ σ' h
    cases h
    exact ⟨rfl, .refl _ σ⟩
  | cons l ks ih =>
    intro m m' σ σ' h
    rw [Text.getLoop] at h
    cases ha : HashMap.apply m l (some (Text.getHandler g cmd)) none σ with
    | error e => rw [ha] at h; cases h
    | ok res =>
      obtain ⟨b, m1, σ1⟩ := res
      rw [ha] at h
      obtain ⟨hlook, hsays⟩ := gets_one g cmd (k := k) ha
      obtain ⟨hlook', hsays'⟩ := ih h
      unfold Truthful at hsays'
      rw [hlook] at hsays'
      exact ⟨hlook'.trans hlook, hsays.trans hsays'⟩

/-- **A read tells what is stored, and changes nothing of it.** -/
theorem exec_read {r : Cmd} {k : Key} (hr : r.reads k = true) {m m' : HashMap Object} {σ σ' : Session}
    (h : r.exec g m σ = .ok (m', σ')) : look k m' = look k m ∧ Says (Truthful k m) σ σ' := by
  cases r with
  | bin cmd =>
    simp only [Cmd.reads, Bool.and_eq_true, decide_eq_true_eq] at hr
    obtain ⟨rfl, hcmd⟩ := hr
    have h' : cmdBin g cmd m σ = .ok (m', σ') := h
    unfold cmdBin at h'
    by_cases hst : cmd.status ≠ .OK
    · rw [if_pos hst] at h'
      cases h'
      exact ⟨rfl, .bin (truthful_of_none rfl)⟩
    · rw [if_neg hst] at h'
      refine bin_read g cmd ?_
      simp only [List.mem_cons, List.not_mem_nil, or_false] at hcmd
      rcases hcmd with hc | hc | hc | hc | hc | hc | hc | hc | hc | hc | hc | hc <;>
        simpa only [hc] using h'
  | text cmd =>
    simp only [Cmd.reads, decide_eq_true_eq] at hr
    have h' : cmdText g cmd m σ = .ok (m', σ') := h
    unfold cmdText at h'
    by_cases hv : (! cmd.valid) = true
    · rw [if_pos hv] at h'
      cases h'
      exact ⟨rfl, .send (r := .text .ERROR) (truthful_of_none rfl) rfl⟩
    · rw [if_neg hv, hr] at h'
      dsimp only at h'
      cases hl : Text.getLoop g cmd cmd.keys m σ with
      | error e => rw [hl] at h'; cases h'
      | ok res =>
        rw [hl] at h'
        cases h'
        obtain ⟨hlook, hsays⟩ := gets_read g cmd k cmd.keys hl
        exact ⟨hlook, hsays.trans (.send (r := .text .END) (truthful_of_none rfl) rfl)⟩

end

/-! ## Conditional stores -/

/-- The command stores under `k` on condition that the cas value is `u`: text cas, or binary Set or
    Replace with a cas value. -/
def Cmd.storesIf (k : Key) (u : UInt64) : Cmd → Bool
  | .bin r => r.key = k && r.casUnique = u && u ≠ 0 && r.command ∈ [.Set, .SetQ, .Replace, .ReplaceQ]
  | .text r => r.key = k && r.casUnique = u && r.command = .CAS

/-- The command was refused: the map is as before, and the client is not told that it stored. -/
def Refused (m : HashMap Object) (σ : Session) (r : Except Err World) : Prop :=
  ∃ σ', r = .ok (m, σ') ∧ Says (fun x => x.isStored = false) σ σ'

section

variable (g : Env) {m : HashMap Object} {u : UInt64}

/-- A handler that refuses objects with another cas value. -/
theorem applyOr_refused {key : Key} {h : Handler} {miss : Session → Session} (σ : Session)
    (hh : ∀ k o σ, o.cas ≠ u → ∃ b σ', h k o σ = .ok (b, o, σ') ∧ Says (fun x => x.isStored = false) σ σ')
    (hmiss : ∀ σ, Says (fun x => x.isStored = false) σ (miss σ))
    (hu : ∀ p, m.find key = some p → p.val.cas ≠ u) : Refused m σ (applyOr m key h none miss σ) := by
  unfold applyOr
  cases hp : m.find key with
  | none =>
    rw [HashMap.apply_absent hp]
    exact ⟨_, rfl, hmiss σ⟩
  | some p =>
    obtain ⟨b, σ1, heq, hsays⟩ := hh (itemRef p) p.val σ (hu p hp)
    rw [HashMap.apply_found hp, heq]
    dsimp only
    rw [m.write_val hp]
    cases b with
    | true => exact ⟨_, rfl, hsays⟩
    | false => exact ⟨_, rfl, hsays.trans (hmiss σ1)⟩

theorem casHandler_refuses {cmd : TextRequest} (hc : cmd.casUnique = u) (k : KeyRef) (o : Object)
    (σ : Session) (ho : o.cas ≠ u) :
    ∃ b σ', Text.casHandler g cmd k o σ = .ok (b, o, σ') ∧ Says (fun x => x.isStored = false) σ σ' := by
  unfold Text.casHandler Text.modifyHandler
  dsimp only
  rw [if_pos (show o.cas ≠ cmd.casUnique from fun h => ho (h.trans hc))]
  split_ifs
  · exact ⟨_, _, rfl, .textUnlessNoReply rfl⟩
  · exact ⟨_, _, rfl, .refl _ σ⟩
  · exact ⟨_, _, rfl, .textUnlessNoReply rfl⟩

/-- **A conditional store is refused unless the key is there with the cas value of the condition.** -/
theorem exec_refused {r : Cmd} {k : Key} (hr : r.storesIf k u = true) (σ : Session)
    (hu : ∀ p, m.find k = some p → p.val.cas ≠ u) : Refused m σ (r.exec g m σ) := by
  cases r with
  | bin cmd =>
    simp only [Cmd.storesIf, Bool.and_eq_true, decide_eq_true_eq] at hr
    obtain ⟨⟨⟨rfl, hcas⟩, hne⟩, hcmd⟩ := hr
    have hguarded : cmd.command ∈ BinaryCommand.guarded := by
      simp only [List.mem_cons, List.not_mem_nil, or_false] at hcmd
      rcases hcmd with hc | hc | hc | hc <;> rw [hc] <;> decide
    have hinit : ¬ (cmd.Initialises ∧ m.find cmd.key = none) := by
      rintro ⟨⟨-, hinit, -⟩, -⟩
      simp only [List.mem_cons, List.not_mem_nil, or_false] at hcmd
      rcases hcmd with hc | hc | hc | hc <;> rw [hc] at hinit <;> exact absurd hinit (by decide)
    obtain ⟨σ', heq, hreject⟩ := cmdBin_rejected (g := g) (σ := σ) (hcas ▸ hne)
      (fun p hp => hcas ▸ hu p hp) hguarded hinit
    refine ⟨σ', heq, ?_⟩
    rcases hreject with rfl | ⟨_, rfl⟩
    · exact .refl _ _
    · exact .bin rfl
  | text cmd =>
    simp only [Cmd.storesIf, Bool.and_eq_true, decide_eq_true_eq] at hr
    obtain ⟨⟨rfl, hcas⟩, hcmd⟩ := hr
    show Refused m σ (cmdText g cmd m σ)
    unfold cmdText
    by_cases hv : (! cmd.valid) = true
    · rw [if_pos hv]
      exact ⟨_, rfl, .send (r := .text .ERROR) rfl rfl⟩
    · rw [if_neg hv, hcmd]
      exact applyOr_refused σ (casHandler_refuses g hcas) (fun _ => .textUnlessNoReply rfl) hu

end

/-! ## Between a read and a conditional store -/

/-- The event is the command `r` of some connection, which is sent `new`. -/
def Server.Answers (s : Server) (e : Event) (r : Cmd) (s' : Server) (new : List Reply) : Prop :=
  ∃ c slaves conn conn', e = .cmd c slaves r ∧ s.conns c = some conn ∧ s.step e = .ok s' ∧
    s'.conns c = some conn' ∧ conn'.out = conn.out ++ new

/-- A client reads under `k` data, flags and cas value `x`. -/
def Server.Reads (s : Server) (e : Event) (k : Key) (x : (Bytes × UInt32) × UInt64) (s' : Server) : Prop :=
  ∃ r new, s.Answers e r s' new ∧ r.reads k = true ∧ ∃ reply ∈ new, reply.shows k = some x

/-- A conditional store under `k` with cas value `u` succeeds: the client is told so, or (if it asked
    not to be told) the key shows something new. -/
def Server.StoresIf (s : Server) (e : Event) (k : Key) (u : UInt64) : Prop :=
  ∃ r new s', s.Answers e r s' new ∧ r.storesIf k u = true ∧
    ((∃ reply ∈ new, reply.isStored = true) ∨ s'.look k ≠ s.look k)

section

variable {s s' : Server} {e : Event} {r : Cmd} {new : List Reply} {k : Key} {u : UInt64}

/-- What a command has done, and what it has said. -/
theorem Server.Answers.exec (h : s.Answers e r s' new) :
    ∃ g σ w, r.exec g s.hash σ = .ok w ∧ s'.hash = w.1 ∧ w.2.out = σ.out ++ new := by
  obtain ⟨c, slaves, conn, conn', rfl, hc, hs, hc', hout⟩ := h
  simp only [Server.step, hc] at hs
  obtain ⟨w, hw, rfl⟩ := RecordsAgree.runCmd_eq_ok hs
  refine ⟨_, _, w, hw, rfl, ?_⟩
  rw [s.commit_conns_self, Option.some.injEq] at hc'
  rw [← hc'] at hout
  exact hout

theorem Server.Reads.look {x : (Bytes × UInt32) × UInt64} (h : s.Reads e k x s') : s'.look k = some x := by
  obtain ⟨r, new, ha, hr, reply, hmem, hx⟩ := h
  obtain ⟨g, σ, w, hw, hhash, hout⟩ := ha.exec
  obtain ⟨hlook, hsays⟩ := exec_read g hr hw
  unfold Server.look
  rw [hhash, hlook]
  exact hsays.of_mem hout hmem x hx

theorem Server.StoresIf.look (h : s.StoresIf e k u) : ∃ v, s.look k = some (v, u) := by
  obtain ⟨r, new, s', ha, hr, hdone⟩ := h
  obtain ⟨g, σ, w, hw, hhash, hout⟩ := ha.exec
  by_contra hnot
  have hu : ∀ p, s.hash.find k = some p → p.val.cas ≠ u := by
    intro p hp hcas
    exact hnot ⟨_, hcas ▸ look_of_find hp⟩
  obtain ⟨σ', heq, hsays⟩ := exec_refused g hr σ hu
  rw [hw, Except.ok.injEq] at heq
  subst heq
  rcases hdone with ⟨reply, hmem, hst⟩ | hne
  · have hnst : reply.isStored = false := hsays.of_mem hout hmem
    rw [hst] at hnst
    cases hnst
  · refine hne ?_
    unfold Server.look
    rw [hhash]

end

/-- **A conditional store that succeeds has lost no update**: if a client reads under `k` data, flags and
    cas value, the key is not removed afterwards (and changed fewer than 2^64 times), and then a store
    on condition of that cas value succeeds, data and flags were the same all the time in between. -/
theorem cas_prevents_lost_update {k : Key} {d : Bytes} {f : UInt32} {u : UInt64} {s₀ s₁ s₂ : Server}
    {e₁ e₂ : Event} {es : List Event} (hread : s₀.Reads e₁ k ((d, f), u) s₁)
    (hrun : run Server.step s₁ es = .ok s₂)
    (hthere : Throughout (fun s => (s.look k).isSome = true) Server.step s₁ es)
    (hfew : changes (Server.look k) Server.step s₁ es < 2 ^ 64) (hstore : s₂.StoresIf e₂ k u) :
    Throughout (fun s => s.look k = some ((d, f), u)) Server.step s₁ es := by
  obtain ⟨v, hv⟩ := hstore.look
  exact unchanged_of_version (step_versioned k) cas_period hthere hfew hrun hread.look hv rfl

/-! ## Two runs -/

namespace CasRun

/-- Connections 0 and 1; the first stores [1] under "x". -/
def start : List Event :=
  [.accept 0 5, .accept 1 6,
    .cmd 0 [] (.text { command := .SET, valid := true, key := [120], data := [1] })]

/-- "x" with its cas value is asked for. -/
def gets : Event := .cmd 0 [] (.text { command := .GETS, valid := true, keys := [[120]] })

/-- Store [3] if the cas value is still 1. -/
def cas : Event :=
  .cmd 0 [] (.text { command := .CAS, valid := true, key := [120], data := [3], casUnique := 1 })

/-- Connection 1 touches the object and asks for it. -/
def reading : List Event :=
  [.cmd 1 [] (.text { command := .TOUCH, valid := true, key := [120], exptime := 500 }), .tick 200,
    .cmd 1 [] (.text { command := .GET, valid := true, keys := [[120]] })]

/-- Connection 1 deletes the object and stores [2]. -/
def recreating : List Event :=
  [.cmd 1 [] (.text { command := .DELETE, valid := true, key := [120] }),
    .cmd 1 [] (.text { command := .SET, valid := true, key := [120], data := [2] })]

end CasRun

open CasRun in
/-- A store after reads and touches of others. -/
theorem cas_after_reading :
    ∃ s₀ s₁ s₂, run Server.step Server.oneBucket start = .ok s₀ ∧ s₀.Reads gets [120] (([1], 0), 1) s₁ ∧
      run Server.step s₁ reading = .ok s₂ ∧ s₂.StoresIf cas [120] 1 ∧
      Throughout (fun s => s.look [120] = some (([1], 0), 1)) Server.step s₁ reading := by
  suffices h : ∃ s₀ s₁ s₂, run Server.step Server.oneBucket start = .ok s₀ ∧
      s₀.Reads gets [120] (([1], 0), 1) s₁ ∧ run Server.step s₁ reading = .ok s₂ ∧
      s₂.StoresIf cas [120] 1 ∧ Throughout (fun s => (s.look [120]).isSome = true) Server.step s₁ reading ∧
      changes (Server.look [120]) Server.step s₁ reading < 2 ^ 64 by
    obtain ⟨s₀, s₁, s₂, h₀, hread, hrun, hstore, hthere, hfew⟩ := h
    exact ⟨s₀, s₁, s₂, h₀, hread, hrun, hstore, cas_prevents_lost_update hread hrun hthere hfew hstore⟩
  exact ⟨_, _, _, rfl,
    ⟨_, _, ⟨0, [], _, _, rfl, rfl, rfl, rfl, rfl⟩, rfl, _, List.mem_cons_self, rfl⟩, rfl,
    ⟨_, _, _, ⟨0, [], _, _, rfl, rfl, rfl, rfl, rfl⟩, rfl, .inl ⟨_, List.mem_cons_self, rfl⟩⟩,
    by decide, by decide⟩

open CasRun in
/-- **The cas value of a deleted object fits the next one**: between the read and the conditional store
    the object is removed and created again with other data, and the store succeeds. -/
theorem cas_fits_recreated :
    ∃ s₀ s₁ s₂, run Server.step Server.oneBucket start = .ok s₀ ∧ s₀.Reads gets [120] (([1], 0), 1) s₁ ∧
      run Server.step s₁ recreating = .ok s₂ ∧ s₂.StoresIf cas [120] 1 ∧
      changes (Server.look [120]) Server.step s₁ recreating = 2 ∧ s₂.look [120] = some (([2], 0), 1) :=
  ⟨_, _, _, rfl, ⟨_, _, ⟨0, [], _, _, rfl, rfl, rfl, rfl, rfl⟩, rfl, _, List.mem_cons_self, rfl⟩, rfl,
    ⟨_, _, _, ⟨0, [], _, _, rfl, rfl, rfl, rfl, rfl⟩, rfl, .inl ⟨_, List.mem_cons_self, rfl⟩⟩, rfl, rfl⟩

end Yrmcds.Memcache
