/-
  What a command can put in the map.

  `Effects` says what a command does to locks, cas values and messages; it leaves open WHAT is stored.
  `Puts g m t c k o` says just that: on the map `m`, at flush time `t`, the command `c` may store `o` under
  `k` — with everything it has checked by then.  A property of stored objects (and their keys) that does
  not depend on lock, age and expiration time is kept by a command if what it puts has the property
  (`exec_every`); nothing else a command does touches it.
-/
import Yrmcds.Memcache.LockTable
import Yrmcds.Memcache.Pairs

namespace Yrmcds.Memcache

open ChainTable

/-! ## Properties of stored objects -/

/-- Every stored object, with its key, has the property `P`. -/
def Every (P : Key → Object → Prop) (m : HashMap Object) : Prop := ∀ k p, m.find k = some p → P k p.val

/-- A property that does not depend on the lock, the age or the expiration time. -/
structure Stable (P : Key → Object → Prop) : Prop where
  lock : ∀ {k o} l, P k o → P k { o with lock := l }
  touch : ∀ {k o} t, P k o → P k (o.touch t)
  accessed : ∀ {k o}, P k o → P k o.accessed
  survive : ∀ {k o}, P k o → P k o.survive

namespace Every

variable {P : Key → Object → Prop} {m m' : HashMap Object} {k : Key} {q : Cell Key Object} {o : Object}

theorem write (h : Every P m) (hq : m.find k = some q) (ho : P k o) : Every P (m.write q.addr o) := by
  intro l p hp
  by_cases hl : l = k
  · subst hl
    rw [m.find_write_self hq] at hp
    exact Option.some.inj hp ▸ ho
  · rw [m.find_write_of_ne hq o hl] at hp
    exact h l p hp

theorem erase (h : Every P m) (a : Nat) : Every P (m.erase a) := by
  intro l p hp
  rw [m.find_erase, Option.filter_eq_some_iff] at hp
  exact h l p hp.1

theorem push (h : Every P m) (hk : m.find k = none) (ho : P k o) : Every P (m.push k o) := by
  intro l p hp
  by_cases hl : l = k
  · subst hl
    rw [m.find_push_self o hk] at hp
    exact Option.some.inj hp ▸ ho
  · rw [m.find_push_of_ne o hk hl] at hp
    exact h l p hp

theorem unlockLoop (h : Every P m) (hP : Stable P) {ctx : Int} {force : Bool} {ls : List Nat}
    (hu : unlockLoop ctx force m ls = .ok m') : Every P m' := by
  intro l p hp
  rw [unlockLoop_find hu, Option.map_eq_some_iff] at hp
  obtain ⟨c, hc, rfl⟩ := hp
  split_ifs
  · exact hP.lock (-1) (h l c hc)
  · exact h l c hc

/-- GC removes objects, and ages the others. -/
theorem gcStep {s : Server} (h : Every P s.hash) (hP : Stable P) (t : GcThread) :
    Every P (s.gcStep t).hash := by
  by_cases hlt : t.next < s.hash.buckets.length
  · intro k p hp
    rw [s.gcStep_find t hlt] at hp
    split_ifs at hp
    · obtain ⟨c, hc, hp⟩ := Option.bind_eq_some_iff.mp hp
      split_ifs at hp
      cases hp
      have hkeep : P k c.val.survive := hP.survive (h k c hc)
      show P k (gcKeeps t.pass c.val)
      unfold gcKeeps
      split_ifs
      · exact hkeep
      · exact hP.accessed hkeep
    · exact h k p hp
  · rw [s.gcStep_end t hlt]
    exact h

end Every

/-! ## What is put -/

/-- The operation of Append and Prepend. -/
def BinaryRequest.concatOp (cmd : BinaryRequest) : Option (Nat → Object → Bytes → Object) :=
  match cmd.command with
  | .Append | .AppendQ => some Object.append
  | .Prepend | .PrependQ => some Object.prepend
  | _ => none

/-- The operation of APPEND and PREPEND. -/
def TextRequest.concatOp (cmd : TextRequest) : Option (Nat → Object → Bytes → Object) :=
  match cmd.command with
  | .APPEND => some Object.append
  | .PREPEND => some Object.prepend
  | _ => none

theorem BinaryRequest.concatOp_cases {cmd : BinaryRequest} {op : Nat → Object → Bytes → Object}
    (h : cmd.concatOp = some op) : op = Object.append ∨ op = Object.prepend := by
  unfold BinaryRequest.concatOp at h
  split at h
  any_goals cases h
  all_goals simp

theorem TextRequest.concatOp_cases {cmd : TextRequest} {op : Nat → Object → Bytes → Object}
    (h : cmd.concatOp = some op) : op = Object.append ∨ op = Object.prepend := by
  unfold TextRequest.concatOp at h
  split at h
  any_goals cases h
  all_goals simp

/-- The commands that can create an object. -/
def Cmd.creates : Cmd → Bool
  | .bin r =>
    match r.command with
    | .Set | .SetQ | .Add | .AddQ | .Increment | .IncrementQ | .Decrement | .DecrementQ => r.status == .OK
    | _ => false
  | .text r => r.valid && (r.command == .SET || r.command == .ADD)

/-- The tests of the binary commands that modify an object: one of them fails. -/
def BinaryRequest.Blocked (g : Env) (flushTime : Int) (cmd : BinaryRequest) (o : Object) : Prop :=
  o.lockedByOther g.ctx ∨ o.expired g.now flushTime ∨ cmd.casUnique ≠ 0 ∧ cmd.casUnique ≠ o.cas

/-- ... and of the text commands. -/
def Text.Blocked (g : Env) (flushTime : Int) (o : Object) : Prop :=
  o.lockedByOther g.ctx ∨ o.expired g.now flushTime

instance (g : Env) (t : Int) (cmd : BinaryRequest) (o : Object) : Decidable (cmd.Blocked g t o) :=
  inferInstanceAs (Decidable (_ ∨ _))

instance (g : Env) (t : Int) (o : Object) : Decidable (Text.Blocked g t o) :=
  inferInstanceAs (Decidable (_ ∨ _))

/-- What a command can put in the map, and under which key. -/
inductive Puts (g : Env) (m : HashMap Object) (flushTime : Int) : Cmd → Key → Object → Prop
  -- a request's data, checked
  | binSet {r : BinaryRequest} {p : Cell Key Object} (hp : m.find r.key = some p)
      (hd : r.data.length ≤ g.config.maxDataSize) :
      Puts g m flushTime (.bin r) r.key (p.val.set g.config.heapDataLimit r.data r.flags r.exptime)
  | binNew {r : BinaryRequest} (hc : (Cmd.bin r).creates) (hd : r.data.length ≤ g.config.maxDataSize) :
      Puts g m flushTime (.bin r) r.key (Object.new g.config.heapDataLimit r.data r.flags r.exptime)
  | textSet {r : TextRequest} {p : Cell Key Object} (hp : m.find r.key = some p)
      (hd : r.data.length ≤ g.config.maxDataSize) :
      Puts g m flushTime (.text r) r.key (p.val.set g.config.heapDataLimit r.data r.flags r.exptime)
  | textNew {r : TextRequest} (hc : (Cmd.text r).creates) (hd : r.data.length ≤ g.config.maxDataSize) :
      Puts g m flushTime (.text r) r.key (Object.new g.config.heapDataLimit r.data r.flags r.exptime)
  -- a number
  | number {c : Cmd} {k : Key} {p : Cell Key Object} {f : UInt64 → UInt64} {n : UInt64} {o : Object}
      (hp : m.find k = some p) (ho : p.val.renumber f = some (n, o)) : Puts g m flushTime c k o
  | initial {r : BinaryRequest} (hc : (Cmd.bin r).creates) :
      Puts g m flushTime (.bin r) r.key (Object.ofInitial r.initial r.exptime)
  -- a request's data, unchecked
  | binConcat {r : BinaryRequest} {p : Cell Key Object} {op : Nat → Object → Bytes → Object}
      (hst : r.status = .OK) (hop : r.concatOp = some op) (hp : m.find r.key = some p)
      (hb : ¬ r.Blocked g flushTime p.val) :
      Puts g m flushTime (.bin r) r.key (op g.config.heapDataLimit p.val r.data)
  | textConcat {r : TextRequest} {p : Cell Key Object} {op : Nat → Object → Bytes → Object}
      (hv : r.valid = true) (hop : r.concatOp = some op) (hp : m.find r.key = some p)
      (hb : ¬ Text.Blocked g flushTime p.val) :
      Puts g m flushTime (.text r) r.key (op g.config.heapDataLimit p.val r.data)
  | textCas {r : TextRequest} {p : Cell Key Object} (hv : r.valid = true) (hcmd : r.command = .CAS)
      (hp : m.find r.key = some p) (hc : CasStores g r p.val flushTime) :
      Puts g m flushTime (.text r) r.key (p.val.set g.config.heapDataLimit r.data r.flags r.exptime)

/-! ## Handlers -/

/-- If the handler returns, it leaves an object with the property `P`. -/
def Leaves (P : Object → Prop) (r : Except Err (Bool × Object × Session)) : Prop :=
  ∀ b o σ, r = .ok (b, o, σ) → P o

/-- A handler that only reads, touches, locks or unlocks leaves what it finds. -/
theorem HRun.leaves {P : Key → Object → Prop} (hP : Stable P) {g : Env} {deref : Nat → Option Key}
    {k : KeyRef} {key : Key} {o : Object} {σ : Session} {r : Except Err (Bool × Object × Session)}
    (h : HRun g deref k false (o, σ) r) (ho : P key o) : Leaves (P key) r := by
  generalize hn : false = n at h
  generalize hx : (o, σ) = x at h
  induction h generalizing o σ with
  | done b => rintro _ _ _ ⟨⟩; cases hx; exact ho
  | quiet hs _ ih =>
    cases hx
    refine ih ?_ hn rfl
    cases hs with
    | chat => exact ho
    | access => exact hP.accessed ho
    | touch t => exact hP.touch t ho
    | lock => exact hP.lock _ ho
    | unlock => exact hP.lock _ ho
  | loud => cases hn
  | fail => rintro _ _ _ ⟨⟩

section Carry

variable {P : Key → Object → Prop} {m : HashMap Object} {key : Key} {σ : Session}
  {miss : Session → Session} {w : World}

/-- What a handler leaves and a creator makes, the map holds. -/
theorem applyOr_every (hm : Every P m) {h : Handler} {c : Option Creator}
    (hh : ∀ p, m.find key = some p → Leaves (P key) (h (itemRef p) p.val σ))
    (hc : ∀ c' ∈ c, P key (c' ⟨m.newAddr, key⟩ σ).1) (hw : applyOr m key h c miss σ = .ok w) :
    Every P w.1 := by
  obtain ⟨p, r, hp, hr, rfl⟩ | ⟨hp, rfl⟩ := applyOr_cases hw
  · have hl := hh p hp
    generalize h (itemRef p) p.val σ = x at hl hr
    rcases x with e | ⟨_ | _, o, σ'⟩
    · cases hr
    · cases hr
      exact hm.write hp (hl _ _ _ rfl)
    · cases hr
      exact hm.write hp (hl _ _ _ rfl)
  · cases c with
    | none => exact hm
    | some c => exact hm.push hp (hc c rfl)

/-- A handler that only reads, touches, locks or unlocks. -/
theorem applyOr_quiet_every (hm : Every P m) (hP : Stable P) {g : Env} {h : Handler}
    (hl : Lawful g m.deref false h) (hw : applyOr m key h none miss σ = .ok w) : Every P w.1 :=
  applyOr_every hm (fun p hp => (hl _ _ _).leaves hP (hm _ p hp)) (by simp) hw

theorem removeOr_every (hm : Every P m) {g : Env}
    {pred : Key → Object → Session → Except Err (Bool × Object × Session)}
    (hpred : ∀ o, RemoveRun g m.deref key o σ (pred key o σ)) (hw : removeOr m key pred miss σ = .ok w) :
    Every P w.1 := by
  unfold removeOr HashMap.removeIf at hw
  cases hp : m.find key with
  | none =>
    rw [hp] at hw
    cases hw
    exact hm
  | some p =>
    simp only [hp] at hw
    have hrun := hpred p.val
    generalize pred key p.val σ = r at hrun hw
    cases hrun with
    | refuse => cases hw; exact hm.write hp (hm key p hp)
    | remove => cases hw; exact hm.erase p.addr
    | fail => cases hw

theorem unlockAll_every (hm : Every P m) (hP : Stable P) {g : Env} {post : Session → Session}
    (hw : (match unlockAll g m σ with
      | .ok (m', σ') => .ok (m', post σ')
      | .error e => .error e) = Except.ok w) : Every P w.1 := by
  unfold unlockAll at hw
  cases hu : unlockLoop g.ctx false m σ.locks with
  | error e => rw [hu] at hw; cases hw
  | ok m' => rw [hu] at hw; cases hw; exact hm.unlockLoop hP hu

theorem foreach_every (hm : Every P m) {pred : KeyRef → Object → Session → Except Err Session}
    {post : Session → Session} (hw : (match HashMap.foreach m pred σ with
      | .ok σ' => .ok (m, post σ')
      | .error e => .error e) = Except.ok w) : Every P w.1 := by
  cases hf : HashMap.foreach m pred σ with
  | error e => rw [hf] at hw; cases hw
  | ok σ' => rw [hf] at hw; cases hw; exact hm

end Carry

section Handlers

variable {g : Env} {P : Object → Prop} {k : KeyRef} {o : Object} {σ : Session}

/-- `release` only unlocks. -/
theorem release_object {deref : Nat → Option Key} {key : Key} {r : Object × Session}
    (h : release g deref key o σ = .ok r) : r.1 = { o with lock := -1 } := by
  unfold release Object.unlock at h
  by_cases hs : (! false && ! o.lockedBySelf g.ctx) = true
  · rw [if_pos hs] at h
    cases h
  · rw [if_neg hs] at h
    cases hr : removeLock deref key σ.locks with
    | error e => rw [hr] at h; cases h
    | ok l => rw [hr] at h; cases h; rfl

section Binary

variable {cmd : BinaryRequest}

theorem setHandler_leaves (ho : P o)
    (hset : P (o.set g.config.heapDataLimit cmd.data cmd.flags cmd.exptime)) :
    Leaves P (setHandler g cmd k o σ) := by
  unfold setHandler casCheck setStore
  intro b o' σ' h
  split_ifs at h <;> cases h <;> first | exact ho | exact hset

theorem rauHandler_leaves (deref : Nat → Option Key) (ho : P o)
    (hset : P { o.set g.config.heapDataLimit cmd.data cmd.flags cmd.exptime with lock := -1 }) :
    Leaves P (rauHandler g cmd deref k o σ) := by
  unfold rauHandler
  intro b o' σ' h
  split_ifs at h
  · cases h; exact ho
  · cases h; exact ho
  · cases hr : release g deref k.key (o.set g.config.heapDataLimit cmd.data cmd.flags cmd.exptime) σ with
    | error e => rw [hr] at h; cases h
    | ok r =>
      rw [hr] at h
      cases h
      rw [release_object hr]
      exact hset

theorem modifyHandler_leaves {body : KeyRef → Object → Session → Bool × Object × Session} (ho : P o)
    (hbody : ¬ cmd.Blocked g σ.flushTime o → P (body k o σ).2.1) :
    Leaves P (modifyHandler g cmd body k o σ) := by
  unfold modifyHandler casCheck
  intro b o' σ' h
  split_ifs at h with hl he hc
  · cases h; exact ho
  · cases h; exact ho
  · cases h; exact ho
  · have hP := hbody (by rintro (h | h | h); exacts [hl h, he h, hc h])
    rw [Except.ok.inj h] at hP
    exact hP

theorem incdecHandler_leaves {op : Object → UInt64 → Option (UInt64 × Object)} (ho : P o)
    (hop : ∀ n v o', op o n = some (v, o') → P o') : Leaves P (incdecHandler g cmd op k o σ) := by
  refine modifyHandler_leaves ho fun _ => ?_
  rcases hn : op o cmd.value with _ | ⟨v, o'⟩
  · exact ho
  · exact hop _ _ _ hn

end Binary

namespace Text

variable {cmd : TextRequest}

theorem setHandler_leaves (ho : P o)
    (hset : P (o.set g.config.heapDataLimit cmd.data cmd.flags cmd.exptime)) :
    Leaves P (Text.setHandler g cmd k o σ) := by
  unfold Text.setHandler Text.store
  intro b o' σ' h
  split_ifs at h <;> cases h <;> first | exact ho | exact hset

theorem modifyHandler_leaves {body : KeyRef → Object → Session → Bool × Object × Session} (ho : P o)
    (hbody : ¬ Text.Blocked g σ.flushTime o → P (body k o σ).2.1) :
    Leaves P (Text.modifyHandler g cmd body k o σ) := by
  unfold Text.modifyHandler
  intro b o' σ' h
  split_ifs at h with hl he
  · cases h; exact ho
  · cases h; exact ho
  · have hP := hbody (by rintro (h | h); exacts [hl h, he h])
    rw [Except.ok.inj h] at hP
    exact hP

theorem casHandler_leaves (ho : P o) (hset : CasStores g cmd o σ.flushTime →
      P (o.set g.config.heapDataLimit cmd.data cmd.flags cmd.exptime)) :
    Leaves P (Text.casHandler g cmd k o σ) := by
  refine Text.modifyHandler_leaves ho fun hb => ?_
  have hb' := not_or.mp hb
  split_ifs with hc
  · exact ho
  · exact hset ⟨by simpa using hb'.1, by simpa using hb'.2, not_not.mp hc⟩

theorem incdecHandler_leaves {op : Object → UInt64 → Option (UInt64 × Object)} (ho : P o)
    (hop : ∀ n v o', op o n = some (v, o') → P o') : Leaves P (Text.incdecHandler g cmd op k o σ) := by
  refine Text.modifyHandler_leaves ho fun _ => ?_
  rcases hn : op o cmd.value with _ | ⟨v, o'⟩
  · exact ho
  · exact hop _ _ _ hn

end Text

end Handlers

/-! ## Commands -/

section Commands

variable {g : Env} {P : Key → Object → Prop} (hP : Stable P) {m : HashMap Object} (hm : Every P m)
  {σ : Session} {w : World}
include hP hm

/-- **Binary commands** keep a stable property of the stored objects, if what they put has it. -/
theorem cmdBin_every {cmd : BinaryRequest} (hput : ∀ k o, Puts g m σ.flushTime (.bin cmd) k o → P k o)
    (hw : cmdBin g cmd m σ = .ok w) : Every P w.1 := by
  unfold cmdBin at hw
  by_cases hst : cmd.status = .OK
  case neg => rw [if_pos hst] at hw; cases hw; exact hm
  rw [if_neg (not_not.mpr hst)] at hw
  have hsize : ∀ {x}, sizeChecked g cmd m σ x = .ok w →
      (cmd.data.length ≤ g.config.maxDataSize → x = .ok w → Every P w.1) → Every P w.1 := by
    intro x hx hxw
    unfold sizeChecked at hx
    split_ifs at hx with hk hd
    · cases hx; exact hm
    · cases hx; exact hm
    · exact hxw (Nat.not_lt.mp hd) hx
  have hset : ∀ {c}, (∀ c' ∈ c, c' = setCreator g cmd ∧ (Cmd.bin cmd).creates) → sizeChecked g cmd m σ
      (applyOr m cmd.key (setHandler g cmd) c (notFound cmd) σ) = .ok w → Every P w.1 := by
    intro c hc hw
    refine hsize hw fun hd hw => applyOr_every hm
      (fun p hp => setHandler_leaves (hm _ p hp) (hput _ _ (.binSet hp hd))) (fun c' hc' => ?_) hw
    obtain ⟨rfl, hcr⟩ := hc c' hc'
    exact hput _ _ (.binNew hcr hd)
  have hconcat : ∀ {op}, cmd.concatOp = some op →
      applyOr m cmd.key (concatHandler g cmd op) none (notFound cmd) σ = .ok w → Every P w.1 := by
    intro op hop hw
    exact applyOr_every hm (fun p hp => modifyHandler_leaves (hm _ p hp) fun hb =>
      hput _ _ (.binConcat hst hop hp hb)) (by simp) hw
  have hincdec : ∀ {op : Object → UInt64 → Option (UInt64 × Object)},
      (∀ o n, ∃ f, op o n = o.renumber f) → (Cmd.bin cmd).creates →
      applyOr m cmd.key (incdecHandler g cmd op)
        (if cmd.exptime ≠ EXPTIME_NONE then some (initialCreator cmd) else none) (notFound cmd) σ = .ok w →
      Every P w.1 := by
    intro op hop hcr hw
    refine applyOr_every hm (fun p hp => incdecHandler_leaves (hm _ p hp) fun n v o' ho => ?_)
      (fun c hc => ?_) hw
    · obtain ⟨f, hf⟩ := hop p.val n
      exact hput _ _ (.number hp (hf ▸ ho))
    · split_ifs at hc
      · cases hc; exact hput _ _ (.initial hcr)
      · cases hc
  cases hcmd : cmd.command with
  | Get | GetQ | GetK | GetKQ | GaT | GaTQ | GaTK | GaTKQ | LaG | LaGQ | LaGK | LaGKQ =>
    rw [hcmd] at hw
    exact applyOr_quiet_every hm hP (getHandler_lawful g _ cmd) hw
  | Set | SetQ | Add | AddQ =>
    rw [hcmd] at hw
    refine hset (fun c' hc' => ?_) hw
    split_ifs at hc'
    · cases hc'; exact ⟨rfl, by simp [Cmd.creates, hcmd, hst]⟩
    · cases hc'
  | Replace | ReplaceQ => rw [hcmd] at hw; exact hset (by simp) hw
  | RaU | RaUQ =>
    rw [hcmd] at hw
    exact hsize hw fun hd hw => applyOr_every hm (fun p hp => rauHandler_leaves m.deref (hm _ p hp)
      (hP.lock (-1) (hput _ _ (.binSet hp hd)))) (by simp) hw
  | Append | AppendQ | Prepend | PrependQ =>
    rw [hcmd] at hw
    exact hconcat (by simp [BinaryRequest.concatOp, hcmd]) hw
  | Delete | DeleteQ =>
    rw [hcmd] at hw
    exact removeOr_every hm (fun o => deletePred_run g cmd _ o σ) hw
  | Increment | IncrementQ | Decrement | DecrementQ =>
    rw [hcmd] at hw
    exact hincdec (fun _ _ => ⟨_, rfl⟩) (by simp [Cmd.creates, hcmd, hst]) hw
  | Touch => rw [hcmd] at hw; exact applyOr_quiet_every hm hP (touchHandler_lawful g _ cmd) hw
  | Lock | LockQ => rw [hcmd] at hw; exact applyOr_quiet_every hm hP (lockHandler_lawful g _ cmd) hw
  | Unlock | UnlockQ =>
    rw [hcmd] at hw
    exact applyOr_quiet_every hm hP (unlockOneHandler_lawful g _ cmd) hw
  | UnlockAll | UnlockAllQ | Quit | QuitQ => rw [hcmd] at hw; exact unlockAll_every hm hP hw
  | Flush | FlushQ | Noop | Version | Stat | Unknown | raw _ => rw [hcmd] at hw; cases hw; exact hm
  | Keys => rw [hcmd] at hw; exact foreach_every hm hw

theorem Text.getLoop_every {cmd : TextRequest} (ks : List Key)
    (hw : Text.getLoop g cmd ks m σ = .ok w) : Every P w.1 := by
  induction ks generalizing m σ with
  | nil => cases hw; exact hm
  | cons key ks ih =>
    rw [Text.getLoop] at hw
    cases hp : m.find key with
    | none => rw [HashMap.apply_absent hp] at hw; exact ih hm hw
    | some p =>
      rw [HashMap.apply_found hp] at hw
      have hl := (Text.getHandler_lawful (n := false) g m.deref cmd (itemRef p) p.val σ).leaves hP
        (hm key p hp)
      cases hr : Text.getHandler g cmd (itemRef p) p.val σ with
      | error e => rw [hr] at hw; cases hw
      | ok r =>
        rw [hr] at hw hl
        exact ih (hm.write hp (hl _ _ _ rfl)) hw

/-- **Text commands**, likewise. -/
theorem cmdText_every {cmd : TextRequest} (hput : ∀ k o, Puts g m σ.flushTime (.text cmd) k o → P k o)
    (hw : cmdText g cmd m σ = .ok w) : Every P w.1 := by
  unfold cmdText at hw
  cases hv : cmd.valid with
  | false => rw [hv] at hw; cases hw; exact hm
  | true =>
  rw [hv, if_neg (by decide)] at hw
  have hset : (cmd.command ≠ .REPLACE → (Cmd.text cmd).creates) →
      (if cmd.key.length > MAX_KEY_LENGTH then .ok (m, σ.text .ERROR)
      else if cmd.data.length > g.config.maxDataSize then .ok (m, σ.text .ERROR)
      else applyOr m cmd.key (Text.setHandler g cmd)
        (if cmd.command ≠ .REPLACE then some (Text.setCreator g cmd) else none)
        (fun σ => σ.textUnlessNoReply cmd .NOT_STORED) σ) = Except.ok w → Every P w.1 := by
    intro hcr hw
    by_cases hk : cmd.key.length > MAX_KEY_LENGTH
    · rw [if_pos hk] at hw; cases hw; exact hm
    by_cases hd : cmd.data.length > g.config.maxDataSize
    · rw [if_neg hk, if_pos hd] at hw; cases hw; exact hm
    rw [if_neg hk, if_neg hd] at hw
    refine applyOr_every hm (fun p hp => Text.setHandler_leaves (hm _ p hp)
      (hput _ _ (.textSet hp (Nat.not_lt.mp hd)))) (fun c hc => ?_) hw
    split_ifs at hc with hr
    · cases hc; exact hput _ _ (.textNew (hcr hr) (Nat.not_lt.mp hd))
    · cases hc
  have hconcat : ∀ {op}, cmd.concatOp = some op →
      applyOr m cmd.key (Text.concatHandler g cmd op) none
        (fun σ => σ.textUnlessNoReply cmd .NOT_STORED) σ = .ok w → Every P w.1 := by
    intro op hop hw
    exact applyOr_every hm (fun p hp => Text.modifyHandler_leaves (hm _ p hp) fun hb =>
      hput _ _ (.textConcat hv hop hp hb)) (by simp) hw
  have hincdec : ∀ {op : Object → UInt64 → Option (UInt64 × Object)},
      (∀ o n, ∃ f, op o n = o.renumber f) → applyOr m cmd.key (Text.incdecHandler g cmd op) none
        (fun σ => σ.textUnlessNoReply cmd .NOT_FOUND) σ = .ok w → Every P w.1 := by
    intro op hop hw
    refine applyOr_every hm (fun p hp => Text.incdecHandler_leaves (hm _ p hp) fun n v o' ho => ?_)
      (by simp) hw
    obtain ⟨f, hf⟩ := hop p.val n
    exact hput _ _ (.number hp (hf ▸ ho))
  cases hcmd : cmd.command with
  | SET | ADD | REPLACE =>
    rw [hcmd] at hw hset
    exact hset (by simp [Cmd.creates, hv, hcmd]) hw
  | APPEND | PREPEND => rw [hcmd] at hw; exact hconcat (by simp [TextRequest.concatOp, hcmd]) hw
  | CAS =>
    rw [hcmd] at hw
    exact applyOr_every hm (fun p hp => Text.casHandler_leaves (hm _ p hp) fun hc =>
      hput _ _ (.textCas hv hcmd hp hc)) (by simp) hw
  | INCR | DECR => rw [hcmd] at hw; exact hincdec (fun _ _ => ⟨_, rfl⟩) hw
  | TOUCH => rw [hcmd] at hw; exact applyOr_quiet_every hm hP (Text.touchHandler_lawful g _ cmd) hw
  | DELETE => rw [hcmd] at hw; exact removeOr_every hm (fun o => Text.deletePred_run g cmd _ o σ) hw
  | LOCK => rw [hcmd] at hw; exact applyOr_quiet_every hm hP (Text.lockHandler_lawful g _) hw
  | UNLOCK => rw [hcmd] at hw; exact applyOr_quiet_every hm hP (Text.unlockOneHandler_lawful g _) hw
  | UNLOCK_ALL | QUIT => rw [hcmd] at hw; exact unlockAll_every hm hP hw
  | GET | GETS =>
    rw [hcmd] at hw
    dsimp only at hw
    cases hg : Text.getLoop g cmd cmd.keys m σ with
    | error e => rw [hg] at hw; cases hw
    | ok r => rw [hg] at hw; cases hw; exact Text.getLoop_every (w := r) hP hm cmd.keys hg
  | KEYS => rw [hcmd] at hw; exact foreach_every hm hw
  | SLABS | VERSION | UNKNOWN | STATS | FLUSH_ALL | VERBOSITY => rw [hcmd] at hw; cases hw; exact hm

theorem exec_every {c : Cmd} (hput : ∀ k o, Puts g m σ.flushTime c k o → P k o)
    (hw : c.exec g m σ = .ok w) : Every P w.1 := by
  cases c with
  | bin r => exact cmdBin_every hP hm hput hw
  | text r => exact cmdText_every hP hm hput hw

end Commands

/-- **A step of the server** keeps a stable property of the stored objects, if what a command puts has
    it. -/
theorem Server.step_every {P : Key → Object → Prop} (hP : Stable P) {s s' : Server} {e : Event}
    (hs : Every P s.hash) (hput : ∀ c slaves r, e = .cmd c slaves r → ∀ conn ∈ s.conns c,
      ∀ k o, Puts (s.env conn.fd) s.hash s.flushTime r k o → P k o)
    (h : s.step e = .ok s') : Every P s'.hash := by
  cases stepped_of_step h with
  | idle => exact hs
  | accept => exact hs
  | cmd hc hw => exact exec_every (g := s.env _) hP hs (hput _ _ _ rfl _ hc) hw
  | close hc hl => exact hs.unlockLoop hP hl
  | tick => exact hs
  | gcStart => exact hs
  | gcNext ht => exact hs.gcStep hP _

end Yrmcds.Memcache
