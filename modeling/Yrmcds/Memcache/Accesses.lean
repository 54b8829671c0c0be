/-
  Which objects a command accesses, and what that does to their ages (src/memcache/sockets.cpp).

  Every handler that reads, touches or modifies an object sets `m_gc_old` to 0, and no other does.  Whether a
  client has accessed an object is told by the REPLIES, not by the age: `Cmd.accessed` lists the keys for which
  a command, in its plain form, reports a value, STORED, TOUCHED or a number.

  One case per handler: an object, and the reply to the request (`Reports`).  `applyOr_reported` and
  `removeOr_reported` carry it to the map, `exec_ages` is the result.
-/
import Yrmcds.Memcache.Plain
import Yrmcds.Memcache.Replies

namespace Yrmcds.Memcache

open ChainTable

/-! ## Accesses -/

/-- The object that has been read, touched or modified, as the reply to a request for `key` tells. -/
def Reply.accessed (key : Key) : Reply → Option Key
  | .binary r =>
    match r.body with
    | .get .. | .set _ | .incdec .. => some key
    | _ => none
  | .text (.VALUE k ..) => some k
  | .text .STORED | .text .TOUCHED | .text (.NUMBER _) => some key
  | .text _ => none

/-- What a command replies. -/
def Cmd.replies (g : Env) (m : HashMap Object) (σ : Session) (c : Cmd) : List Reply :=
  match c.exec g m σ with
  | .ok w => w.2.out.drop σ.out.length
  | .error _ => []

/-- The objects that a command successfully reads, touches or modifies. -/
def Cmd.accessed (g : Env) (m : HashMap Object) (σ : Session) (c : Cmd) : List Key :=
  (c.plain.replies g m σ).filterMap (Reply.accessed c.key)

/-! ## What a command does to the ages -/

/-- The age of the object stored under a key. -/
def ageOf (m : HashMap Object) (k : Key) : Option UInt32 := (m.find k).map fun p => p.val.gcOld

/-- The objects of `ks` have age 0, the others the age they had. -/
def AgedBy (ks : List Key) (m m' : HashMap Object) : Prop :=
  ∀ k u, ageOf m' k = some u → k ∈ ks ∧ u = 0 ∨ k ∉ ks ∧ ageOf m k = some u

namespace AgedBy

variable {m m' : HashMap Object} {key : Key} {p : Cell Key Object} {o : Object}

/-- What is there has the age it had. -/
theorem of_same (h : ∀ k u, ageOf m' k = some u → ageOf m k = some u) : AgedBy [] m m' :=
  fun k u hu => .inr ⟨List.not_mem_nil, h k u hu⟩

theorem refl (m : HashMap Object) : AgedBy [] m m := of_same fun _ _ => id

theorem trans {m1 : HashMap Object} {ks ls : List Key} (h : AgedBy ks m m1) (h' : AgedBy ls m1 m') :
    AgedBy (ks ++ ls) m m' := by
  intro k u hu
  rw [List.mem_append]
  rcases h' k u hu with ⟨hl, hz⟩ | ⟨hl, hu1⟩
  · exact .inl ⟨.inr hl, hz⟩
  · rcases h k u hu1 with ⟨hk, hz⟩ | ⟨hk, hu2⟩
    · exact .inl ⟨.inl hk, hz⟩
    · exact .inr ⟨not_or.mpr ⟨hk, hl⟩, hu2⟩

/-- The object of `key` has age 0, the others the age they had. -/
theorem of_zero (hz : ∀ u, ageOf m' key = some u → u = 0) (h : ∀ k, k ≠ key → ageOf m' k = ageOf m k) :
    AgedBy [key] m m' := by
  intro k u hu
  by_cases hk : k = key
  · subst hk
    exact .inl ⟨List.mem_singleton_self k, hz u hu⟩
  · exact .inr ⟨mt List.mem_singleton.mp hk, h k hk ▸ hu⟩

/-- An object is written back with the age it had ... -/
theorem write_same (hp : m.find key = some p) (ho : o.gcOld = p.val.gcOld) :
    AgedBy [] m (m.write p.addr o) := by
  refine of_same fun k u hu => ?_
  unfold ageOf at hu ⊢
  by_cases hk : k = key
  · subst hk
    rw [m.find_write_self hp, Option.map_some, Cell.put_val, ho] at hu
    rw [hp, Option.map_some]
    exact hu
  · rwa [m.find_write_of_ne hp o hk] at hu

/-- ... or with age 0. -/
theorem write_zero (hp : m.find key = some p) (ho : o.gcOld = 0) : AgedBy [key] m (m.write p.addr o) := by
  refine of_zero (fun u hu => ?_) fun k hk => ?_
  · unfold ageOf at hu
    rw [m.find_write_self hp, Option.map_some, Cell.put_val, ho] at hu
    exact (Option.some.inj hu).symm
  · unfold ageOf
    rw [m.find_write_of_ne hp o hk]

theorem push (hk : m.find key = none) (ho : o.gcOld = 0) : AgedBy [key] m (m.push key o) := by
  refine of_zero (fun u hu => ?_) fun k hkey => ?_
  · unfold ageOf at hu
    rw [m.find_push_self o hk] at hu
    exact (Option.some.inj hu).symm.trans ho
  · unfold ageOf
    rw [m.find_push_of_ne o hk hkey]

theorem erase (m : HashMap Object) (a : Nat) : AgedBy [] m (m.erase a) := by
  refine of_same fun k u hu => ?_
  unfold ageOf at hu ⊢
  obtain ⟨p, hp, rfl⟩ := Option.map_eq_some_iff.mp hu
  rw [m.find_erase, Option.filter_eq_some_iff] at hp
  rw [hp.1]
  rfl

theorem unlockLoop {ctx : Int} {force : Bool} {ls : List Nat}
    (hu : unlockLoop ctx force m ls = .ok m') : AgedBy [] m m' := by
  refine of_same fun k u hk => ?_
  unfold ageOf at hk ⊢
  rw [unlockLoop_find hu, Option.map_map] at hk
  rw [← hk]
  refine congrArg (fun f => (m.find k).map f) (funext fun c => ?_)
  dsimp only [Function.comp]
  split_ifs <;> rfl

end AgedBy

/-- An object, or none, and the reply to a request for it: a reply that tells of an access goes with age 0,
    any other with the age there was. -/
inductive Reports (key : Key) (σ : Session) (o : Option Object) : Option Object × Session → Prop
  | access {o' : Object} {σ' : Session} (r : Reply) (hr : r.accessed key = some key)
      (hs : σ'.out = σ.out ++ [r]) (ho : o'.gcOld = 0) : Reports key σ o (some o', σ')
  | other {o' : Option Object} {σ' : Session} (r : Reply) (hr : r.accessed key = none)
      (hs : σ'.out = σ.out ++ [r]) (ho : o'.map Object.gcOld = o.map Object.gcOld) : Reports key σ o (o', σ')

/-- A command, in its plain form: the replies tell which objects have age 0. -/
def AgesReported (key : Key) (m : HashMap Object) (σ : Session) (w : World) : Prop :=
  ∃ rs, w.2.out = σ.out ++ rs ∧ AgedBy (rs.filterMap (Reply.accessed key)) m w.1

/-- From one session to the next nothing was sent that tells of an access. -/
def Mute (key : Key) (σ σ' : Session) : Prop :=
  ∃ rs : List Reply, (∀ r ∈ rs, r.accessed key = none) ∧ σ'.out = σ.out ++ rs

namespace Mute

variable {key : Key} {σ σ' σ'' : Session}

theorem refl (σ : Session) : Mute key σ σ :=
  ⟨[], List.forall_mem_nil _, (List.append_nil _).symm⟩

theorem trans (h : Mute key σ σ') (h' : Mute key σ' σ'') : Mute key σ σ'' := by
  obtain ⟨rs, hrs, hout⟩ := h
  obtain ⟨rs', hrs', hout'⟩ := h'
  refine ⟨rs ++ rs', fun r hr => ?_, by rw [hout', hout, List.append_assoc]⟩
  exact (List.mem_append.mp hr).elim (hrs r) (hrs' r)

theorem reply (r : Reply) (hr : r.accessed key = none) (hs : σ'.out = σ.out ++ [r]) : Mute key σ σ' :=
  ⟨[r], List.forall_mem_singleton.mpr hr, hs⟩

theorem foldlM {α : Type} {f : Session → α → Except Err Session}
    (hf : ∀ σ a σ', f σ a = .ok σ' → Mute key σ σ') :
    ∀ (as : List α) {σ σ' : Session}, as.foldlM f σ = .ok σ' → Mute key σ σ'
  | [], σ, _, h => by
    cases h
    exact .refl σ
  | a :: as, σ, σ', h => by
    rw [List.foldlM_cons] at h
    cases ha : f σ a with
    | error e => rw [ha] at h; cases h
    | ok σ1 =>
      rw [ha] at h
      exact (hf σ a σ1 ha).trans (foldlM hf as h)

end Mute

variable {miss : Session → Session} {body : KeyRef → Object → Session → Bool × Object × Session}
    {deref : Nat → Option Key} {o' : Object}

section AgesReported

variable {m : HashMap Object} {key : Key} {σ : Session} {w : World}

theorem AgesReported.mute {m' : HashMap Object} {σ' : Session} (hσ : Mute key σ σ') (hm : AgedBy [] m m') :
    AgesReported key m σ (m', σ') := by
  obtain ⟨rs, hrs, hout⟩ := hσ
  exact ⟨rs, hout, by rwa [List.filterMap_eq_nil_iff.mpr hrs]⟩

/-- One reply that tells of no access, and nothing has changed. -/
theorem AgesReported.idle (m : HashMap Object) {σ' : Session} (r : Reply) (hr : r.accessed key = none)
    (hs : σ'.out = σ.out ++ [r]) : AgesReported key m σ (m, σ') :=
  .mute (.reply r hr hs) (.refl m)

theorem applyOr_reported {h : Handler} {c : Option Creator}
    (hfound : ∀ k o r, finish miss (h k o σ) = .ok r → Reports key σ (some o) (some r.1, r.2))
    (habsent : ∀ k, Reports key σ none (absent c miss k σ)) (hw : applyOr m key h c miss σ = .ok w) :
    AgesReported key m σ w := by
  obtain ⟨p, r, hp, hr, rfl⟩ | ⟨hp, rfl⟩ := applyOr_cases hw
  · cases hfound _ _ r hr with
    | access rep hrep hs ho =>
      exact ⟨[rep], hs, by rw [List.filterMap_cons_some hrep]; exact .write_zero hp ho⟩
    | other rep hrep hs ho =>
      exact .mute (.reply rep hrep hs) (.write_same hp (Option.some.inj ho))
  · have hab := habsent ⟨m.newAddr, key⟩
    generalize absent c miss ⟨m.newAddr, key⟩ σ = x at hab ⊢
    cases hab with
    | access rep hrep hs ho =>
      exact ⟨[rep], hs, by rw [List.filterMap_cons_some hrep]; exact .push hp ho⟩
    | @other o' σ' rep hrep hs ho =>
      obtain rfl : o' = none := Option.map_eq_none_iff.mp ho
      exact .idle m rep hrep hs

theorem removeOr_reported {pred : Key → Object → Session → Except Err (Bool × Object × Session)}
    (hfound : ∀ o b o' σ', pred key o σ = .ok (b, o', σ') → o' = o ∧ ∃ r : Reply, r.accessed key = none ∧
    σ'.out = σ.out ++ [r]) (habsent : ∃ r : Reply, r.accessed key = none ∧ (miss σ).out = σ.out ++ [r])
    (hw : removeOr m key pred miss σ = .ok w) : AgesReported key m σ w := by
  unfold removeOr HashMap.removeIf at hw
  cases hp : m.find key with
  | none =>
    obtain ⟨r, hr, hs⟩ := habsent
    rw [hp] at hw
    cases hw
    exact .idle m r hr hs
  | some p =>
    simp only [hp] at hw
    rcases hx : pred key p.val σ with e | ⟨b, o', σ'⟩
    · rw [hx] at hw
      cases hw
    · obtain ⟨rfl, r, hr, hs⟩ := hfound _ _ _ _ hx
      rw [hx] at hw
      cases b
      · cases hw
        exact .mute (.reply r hr hs) (.write_same hp rfl)
      · cases hw
        exact .mute (.reply r hr hs) (.erase m p.addr)

end AgesReported

/-! ## Binary commands -/

section Binary

variable {g : Env} {cmd : BinaryRequest} {k : KeyRef} {o : Object} {σ : Session} {r : Object × Session}

theorem Reports.error (o : Option Object) (σ : Session) (st : BinaryStatus) :
    Reports cmd.key σ o (o, σ.bin cmd (.error st)) := .other _ rfl rfl rfl

/-- The reply is sent, since the request is not quiet. -/
theorem binUnlessQuiet_eq (hq : cmd.quiet = false) (σ : Session) (b : BinaryBody) :
    σ.binUnlessQuiet cmd b = σ.bin cmd b := by
  unfold Session.binUnlessQuiet
  rw [if_neg (by rw [hq]; decide)]

theorem getHandler_reports (h : finish (getMiss cmd) (getHandler g cmd k o σ) = .ok r)
    (hq : cmd.quiet = false) : Reports cmd.key σ (some o) (some r.1, r.2) := by
  have hmiss : ∀ (σ1 : Session) (o1 : Object), σ1.out = σ.out → o1.gcOld = o.gcOld →
      Reports cmd.key σ (some o) (some o1, getMiss cmd σ1) := by
    intro σ1 o1 hs ho
    unfold getMiss
    rw [if_pos (by rw [hq]; rfl)]
    exact .other _ rfl (congrArg (· ++ _) hs) (congrArg some ho)
  have hbody : ∀ (σ1 : Session) (o1 : Object), σ1.out = σ.out → o1.gcOld = o.gcOld →
      finish (getMiss cmd) (.ok (getBody g cmd k o1 σ1)) = .ok r →
      Reports cmd.key σ (some o) (some r.1, r.2) := by
    intro σ1 o1 hs ho h
    unfold getBody at h
    split_ifs at h
    · cases h
      exact hmiss σ1 o1 hs ho
    · cases h
      exact .access _ (by unfold getReply; split <;> rfl) (congrArg (· ++ _) hs) rfl
    · cases h
      exact .access _ (by unfold getReply; split <;> rfl) (congrArg (· ++ _) hs) rfl
  unfold getHandler acquire at h
  split_ifs at h
  · cases h
    exact .error _ σ _
  · cases hl : o.lockIt g.ctx with
    | error e => rw [hl] at h; cases h
    | ok o' =>
      rw [hl] at h
      refine hbody (σ.addLock k) o' rfl ?_ h
      unfold Object.lockIt at hl
      split_ifs at hl
      cases hl
      rfl
  · exact hbody σ o rfl rfl h

theorem casCheck_reports
    (hbody : ∀ r, finish miss (.ok (body k o σ)) = .ok r → Reports cmd.key σ (some o) (some r.1, r.2))
    (h : finish miss (.ok (casCheck cmd body k o σ)) = .ok r) :
    Reports cmd.key σ (some o) (some r.1, r.2) := by
  unfold casCheck at h
  split_ifs at h
  · cases h; exact .error _ σ _
  · exact hbody r h

theorem setStore_reports (hq : cmd.quiet = false)
    (h : finish miss (.ok (setStore g cmd k o σ)) = .ok r) : Reports cmd.key σ (some o) (some r.1, r.2) := by
  unfold setStore at h
  dsimp only at h
  rw [binUnlessQuiet_eq hq] at h
  cases h
  exact .access _ rfl rfl rfl

theorem setHandler_reports (hq : cmd.quiet = false)
    (h : finish (notFound cmd) (setHandler g cmd k o σ) = .ok r) :
    Reports cmd.key σ (some o) (some r.1, r.2) := by
  unfold setHandler at h
  split_ifs at h
  · cases h; exact .error _ σ _
  · cases h; exact .error _ σ _
  · exact casCheck_reports (fun r => setStore_reports hq) h
  · cases h; exact .error _ σ _
  · exact casCheck_reports (fun r => setStore_reports hq) h

theorem rauHandler_reports (hq : cmd.quiet = false)
    (h : finish (notFound cmd) (rauHandler g cmd deref k o σ) = .ok r) :
    Reports cmd.key σ (some o) (some r.1, r.2) := by
  unfold rauHandler at h
  split_ifs at h
  · cases h; exact .error _ σ _
  · cases h; exact .error _ σ _
  · cases hr : release g deref k.key (o.set g.config.heapDataLimit cmd.data cmd.flags cmd.exptime) σ with
    | error e => rw [hr] at h; cases h
    | ok x =>
      simp only [hr, binUnlessQuiet_eq hq] at h
      cases h
      have hage : x.1.gcOld = 0 := by rw [release_object hr]; rfl
      exact .access _ rfl (congrArg (· ++ _) (release_session hr).1) hage

theorem modifyHandler_reports (hbody : ∀ r, finish (notFound cmd) (.ok (body k o σ)) = .ok r →
    Reports cmd.key σ (some o) (some r.1, r.2))
    (h : finish (notFound cmd) (modifyHandler g cmd body k o σ) = .ok r) :
    Reports cmd.key σ (some o) (some r.1, r.2) := by
  unfold modifyHandler at h
  split_ifs at h
  · cases h; exact .error _ σ _
  · cases h; exact .error _ σ _
  · exact casCheck_reports hbody h

/-- Append and Prepend, like every modification, start the age again. -/
theorem append_gcOld (limit : Nat) (o : Object) (p : Bytes) : (o.append limit p).gcOld = 0 := by
  unfold Object.append
  split_ifs
  · rfl
  · split <;> rfl
  · rfl

theorem prepend_gcOld (limit : Nat) (o : Object) (p : Bytes) : (o.prepend limit p).gcOld = 0 := by
  unfold Object.prepend
  split_ifs
  · rfl
  · split <;> rfl
  · rfl

theorem renumber_gcOld {f : UInt64 → UInt64} {n : UInt64} (h : o.renumber f = some (n, o')) :
    o'.gcOld = 0 := by
  unfold Object.renumber at h
  split at h
  · cases h; rfl
  · cases h

theorem concatHandler_reports (hq : cmd.quiet = false) {op : Nat → Object → Bytes → Object}
    (hop : ∀ limit o p, (op limit o p).gcOld = 0)
    (h : finish (notFound cmd) (concatHandler g cmd op k o σ) = .ok r) :
    Reports cmd.key σ (some o) (some r.1, r.2) := by
  refine modifyHandler_reports (fun r h => ?_) h
  dsimp only at h
  rw [binUnlessQuiet_eq hq] at h
  cases h
  exact .access _ rfl rfl (hop _ _ _)

theorem incdecHandler_reports (hq : cmd.quiet = false) {op : Object → UInt64 → Option (UInt64 × Object)}
    (hop : ∀ o n v o', op o n = some (v, o') → o'.gcOld = 0)
    (h : finish (notFound cmd) (incdecHandler g cmd op k o σ) = .ok r) :
    Reports cmd.key σ (some o) (some r.1, r.2) := by
  refine modifyHandler_reports (fun r h => ?_) h
  rcases hn : op o cmd.value with _ | ⟨v, o'⟩
  · rw [hn] at h
    cases h
    exact .error _ σ _
  · simp only [hn, binUnlessQuiet_eq hq] at h
    cases h
    exact .access _ rfl rfl (hop _ _ _ _ hn)

theorem touchHandler_reports (h : finish (notFound cmd) (touchHandler g cmd k o σ) = .ok r) :
    Reports cmd.key σ (some o) (some r.1, r.2) := by
  unfold touchHandler at h
  split_ifs at h
  · cases h; exact .error _ σ _
  · cases h; exact .access _ rfl rfl rfl

theorem lockHandler_reports (hq : cmd.quiet = false)
    (h : finish (notFound cmd) (lockHandler g cmd k o σ) = .ok r) :
    Reports cmd.key σ (some o) (some r.1, r.2) := by
  unfold lockHandler acquire Object.lockIt at h
  split_ifs at h
  · cases h; exact .error _ σ _
  · cases h; exact .error _ σ _
  · dsimp only at h
    rw [binUnlessQuiet_eq hq] at h
    cases h
    exact .other _ rfl rfl rfl

theorem unlockOneHandler_reports (hq : cmd.quiet = false)
    (h : finish (notFound cmd) (unlockOneHandler g cmd deref k o σ) = .ok r) :
    Reports cmd.key σ (some o) (some r.1, r.2) := by
  unfold unlockOneHandler at h
  split_ifs at h
  · cases h; exact .error _ σ _
  · cases hr : release g deref k.key o σ with
    | error e => rw [hr] at h; cases h
    | ok x =>
      simp only [hr, binUnlessQuiet_eq hq] at h
      cases h
      have hage : x.1.gcOld = o.gcOld := by rw [release_object hr]
      exact .other _ rfl (congrArg (· ++ _) (release_session hr).1) (congrArg some hage)

theorem deletePred_reports (hq : cmd.quiet = false) {key : Key} {b : Bool}
    {σ' : Session} (h : deletePred g cmd deref key o σ = .ok (b, o', σ')) :
    o' = o ∧ ∃ r : Reply, r.accessed cmd.key = none ∧ σ'.out = σ.out ++ [r] := by
  unfold deletePred at h
  simp only [binUnlessQuiet_eq hq] at h
  split_ifs at h
  · cases h; exact ⟨rfl, _, rfl, rfl⟩
  · cases h; exact ⟨rfl, _, rfl, rfl⟩
  · cases hr : removeLock deref key σ.locks with
    | error e => rw [hr] at h; cases h
    | ok l => rw [hr] at h; cases h; exact ⟨rfl, _, rfl, rfl⟩
  · cases h; exact ⟨rfl, _, rfl, rfl⟩

end Binary

section Commands

variable {g : Env} {m : HashMap Object} {σ : Session} {w : World}

/-- `unlock_all`, and a reply. -/
theorem unlockAll_reported {key : Key} {post : Session → Session} (hpost : ∀ σ', Mute key σ' (post σ'))
    (hw : (match unlockAll g m σ with
      | .ok (m', σ') => .ok (m', post σ')
      | .error e => .error e) = Except.ok w) : AgesReported key m σ w := by
  unfold unlockAll at hw
  cases hu : unlockLoop g.ctx false m σ.locks with
  | error e => rw [hu] at hw; cases hw
  | ok m' =>
    rw [hu] at hw
    cases hw
    exact .mute (hpost { σ with locks := [] }) (.unlockLoop hu)

/-- `foreach` sends keys. -/
theorem foreach_reported {key : Key} {pred : KeyRef → Object → Session → Except Err Session}
    (hpred : ∀ k o σ σ', pred k o σ = .ok σ' → Mute key σ σ')
    {post : Session → Session} (hpost : ∀ σ', Mute key σ' (post σ'))
    (hw : (match HashMap.foreach m pred σ with
      | .ok σ' => .ok (m, post σ')
      | .error e => .error e) = Except.ok w) : AgesReported key m σ w := by
  cases hf : HashMap.foreach m pred σ with
  | error e => rw [hf] at hw; cases hw
  | ok σ' =>
    rw [hf] at hw
    cases hw
    have hloop : Mute key σ σ' := Mute.foldlM (fun σ c σ' => hpred (itemRef c) c.val σ σ') m.cells hf
    exact .mute (hloop.trans (hpost σ')) (.refl m)

/-- The reply when there is no object. -/
theorem notFound_reports (cmd : BinaryRequest) (σ : Session) (k : KeyRef) :
    Reports cmd.key σ none (absent none (notFound cmd) k σ) := .error none σ _

/-- **Binary commands** report what they access. -/
theorem cmdBin_reported {cmd : BinaryRequest} (hplain : cmd.command.plain = cmd.command)
    (hw : cmdBin g cmd m σ = .ok w) : AgesReported cmd.key m σ w := by
  have herror : ∀ st, AgesReported cmd.key m σ (m, σ.bin cmd (.error st)) := fun st =>
    .idle m (.binary ⟨cmd.command.toByte, cmd.opaqueBytes, .error st⟩) rfl rfl
  have hquiet : ∀ {c}, cmd.command = c → c.quiet = false → cmd.quiet = false := by
    rintro _ rfl h
    exact h
  have hsize : ∀ {x}, sizeChecked g cmd m σ x = .ok w → (x = .ok w → AgesReported cmd.key m σ w) →
      AgesReported cmd.key m σ w := by
    intro x hx hxw
    unfold sizeChecked at hx
    split_ifs at hx
    · cases hx; exact herror _
    · cases hx; exact herror _
    · exact hxw hx
  unfold cmdBin at hw
  by_cases hst : cmd.status ≠ .OK
  · rw [if_pos hst] at hw
    cases hw
    exact herror _
  rw [if_neg hst] at hw
  cases hcmd : cmd.command with
  | Get | GetK | GaT | GaTK | LaG | LaGK =>
    have hq := hquiet hcmd (by decide)
    rw [hcmd] at hw
    refine applyOr_reported (fun k o r h => getHandler_reports h hq) (fun k => ?_) hw
    unfold absent getMiss
    rw [if_pos (by rw [hq]; rfl)]
    exact .error none σ _
  | Set | Add =>
    have hq := hquiet hcmd (by decide)
    rw [hcmd] at hw
    refine hsize hw (applyOr_reported (fun k o r => setHandler_reports hq) fun k => ?_)
    split_ifs
    · unfold absent setCreator
      dsimp only
      rw [binUnlessQuiet_eq hq]
      exact .access _ rfl rfl rfl
    · exact notFound_reports cmd σ k
  | Replace =>
    have hq := hquiet hcmd (by decide)
    rw [hcmd] at hw
    exact hsize hw (applyOr_reported (fun k o r => setHandler_reports hq) (notFound_reports cmd σ))
  | RaU =>
    have hq := hquiet hcmd (by decide)
    rw [hcmd] at hw
    exact hsize hw (applyOr_reported (fun k o r => rauHandler_reports hq) (notFound_reports cmd σ))
  | Append =>
    have hq := hquiet hcmd (by decide)
    rw [hcmd] at hw
    exact applyOr_reported (fun k o r => concatHandler_reports hq append_gcOld) (notFound_reports cmd σ) hw
  | Prepend =>
    have hq := hquiet hcmd (by decide)
    rw [hcmd] at hw
    exact applyOr_reported (fun k o r => concatHandler_reports hq prepend_gcOld) (notFound_reports cmd σ) hw
  | Delete =>
    have hq := hquiet hcmd (by decide)
    rw [hcmd] at hw
    refine removeOr_reported (fun o b o' σ' h => deletePred_reports hq h) ?_ hw
    rw [binUnlessQuiet_eq hq]
    exact ⟨_, rfl, rfl⟩
  | Increment | Decrement =>
    have hq := hquiet hcmd (by decide)
    rw [hcmd] at hw
    refine applyOr_reported (fun k o r => incdecHandler_reports hq fun _ _ _ _ => renumber_gcOld)
      (fun k => ?_) hw
    split_ifs
    · unfold absent initialCreator
      dsimp only
      rw [binUnlessQuiet_eq hq]
      exact .access _ rfl rfl rfl
    · exact notFound_reports cmd σ k
  | Touch =>
    rw [hcmd] at hw
    exact applyOr_reported (fun k o r => touchHandler_reports) (notFound_reports cmd σ) hw
  | Lock =>
    have hq := hquiet hcmd (by decide)
    rw [hcmd] at hw
    exact applyOr_reported (fun k o r => lockHandler_reports hq) (notFound_reports cmd σ) hw
  | Unlock =>
    have hq := hquiet hcmd (by decide)
    rw [hcmd] at hw
    exact applyOr_reported (fun k o r => unlockOneHandler_reports hq) (notFound_reports cmd σ) hw
  | UnlockAll | Quit =>
    have hq := hquiet hcmd (by decide)
    rw [hcmd] at hw
    simp only [binUnlessQuiet_eq hq] at hw
    refine unlockAll_reported ?_ hw
    exact fun σ' => .reply _ rfl rfl
  | Flush =>
    have hq := hquiet hcmd (by decide)
    rw [hcmd] at hw
    simp only [binUnlessQuiet_eq hq] at hw
    cases hw
    exact .idle m _ rfl rfl
  | Noop | Version | Stat | Unknown | raw _ =>
    rw [hcmd] at hw
    cases hw
    exact .idle m _ rfl rfl
  | Keys =>
    rw [hcmd] at hw
    refine foreach_reported (fun k o σ σ' h => ?_) (fun σ' => .reply _ rfl rfl) hw
    unfold keysPred at h
    split_ifs at h
    · cases h; exact .refl σ
    · cases h; exact .reply _ rfl rfl
    · cases h; exact .refl σ
  | _ => rw [hcmd] at hplain; cases hplain

end Commands

/-! ## Text commands -/

section Text

variable {g : Env} {cmd : TextRequest} {k : KeyRef} {o : Object} {σ : Session} {r : Object × Session}

/-- The line is sent, since the request does not say `noreply`. -/
theorem textUnlessNoReply_eq (hq : cmd.noReply = false) (σ : Session) (t : TextReply) :
    σ.textUnlessNoReply cmd t = σ.text t := by
  unfold Session.textUnlessNoReply
  rw [if_neg (by rw [hq]; decide)]

theorem Reports.line (key : Key) (o : Option Object) (σ : Session) {t : TextReply}
    (ht : Reply.accessed key (.text t) = none) : Reports key σ o (o, σ.text t) := .other _ ht rfl rfl

theorem Text.setHandler_reports (hq : cmd.noReply = false)
    (h : finish (fun σ => σ.textUnlessNoReply cmd .NOT_STORED) (Text.setHandler g cmd k o σ) = .ok r) :
    Reports cmd.key σ (some o) (some r.1, r.2) := by
  unfold Text.setHandler Text.store at h
  simp only [textUnlessNoReply_eq hq] at h
  split_ifs at h
  · cases h; exact .line _ _ σ rfl
  · cases h; exact .line _ _ σ rfl
  · cases h; exact .access _ rfl rfl rfl
  · cases h; exact .line _ _ σ rfl
  · cases h; exact .access _ rfl rfl rfl

theorem Text.modifyHandler_reports (hq : cmd.noReply = false) {t : TextReply}
    (ht : Reply.accessed cmd.key (.text t) = none)
    (hbody : ∀ r, finish (fun σ => σ.textUnlessNoReply cmd t) (.ok (body k o σ)) = .ok r →
    Reports cmd.key σ (some o) (some r.1, r.2))
    (h : finish (fun σ => σ.textUnlessNoReply cmd t) (Text.modifyHandler g cmd body k o σ) = .ok r) :
    Reports cmd.key σ (some o) (some r.1, r.2) := by
  unfold Text.modifyHandler at h
  split_ifs at h
  · rw [textUnlessNoReply_eq hq] at h
    cases h
    exact .line _ _ σ rfl
  · cases h
    dsimp only
    rw [textUnlessNoReply_eq hq]
    exact .line _ _ σ ht
  · exact hbody r h

theorem Text.concatHandler_reports (hq : cmd.noReply = false) {op : Nat → Object → Bytes → Object}
    (hop : ∀ limit o p, (op limit o p).gcOld = 0)
    (h : finish (fun σ => σ.textUnlessNoReply cmd .NOT_STORED) (Text.concatHandler g cmd op k o σ) = .ok r) :
    Reports cmd.key σ (some o) (some r.1, r.2) := by
  refine Text.modifyHandler_reports hq rfl (fun r h => ?_) h
  dsimp only at h
  rw [textUnlessNoReply_eq hq] at h
  cases h
  exact .access _ rfl rfl (hop _ _ _)

theorem Text.casHandler_reports (hq : cmd.noReply = false)
    (h : finish (fun σ => σ.textUnlessNoReply cmd .NOT_FOUND) (Text.casHandler g cmd k o σ) = .ok r) :
    Reports cmd.key σ (some o) (some r.1, r.2) := by
  refine Text.modifyHandler_reports hq rfl (fun r h => ?_) h
  unfold Text.store at h
  simp only [textUnlessNoReply_eq hq] at h
  split_ifs at h
  · cases h; exact .line _ _ σ rfl
  · cases h; exact .access _ rfl rfl rfl

theorem Text.incdecHandler_reports (hq : cmd.noReply = false)
    {op : Object → UInt64 → Option (UInt64 × Object)} (hop : ∀ o n v o', op o n = some (v, o') → o'.gcOld = 0)
    (h : finish (fun σ => σ.textUnlessNoReply cmd .NOT_FOUND) (Text.incdecHandler g cmd op k o σ) = .ok r) :
    Reports cmd.key σ (some o) (some r.1, r.2) := by
  refine Text.modifyHandler_reports hq rfl (fun r h => ?_) h
  simp only [textUnlessNoReply_eq hq] at h
  rcases hn : op o cmd.value with _ | ⟨v, o'⟩
  · rw [hn] at h
    cases h
    exact .line _ _ σ rfl
  · rw [hn] at h
    cases h
    exact .access _ rfl rfl (hop _ _ _ _ hn)

theorem Text.touchHandler_reports (hq : cmd.noReply = false)
    (h : finish (fun σ => σ.textUnlessNoReply cmd .NOT_FOUND) (Text.touchHandler g cmd k o σ) = .ok r) :
    Reports cmd.key σ (some o) (some r.1, r.2) := by
  unfold Text.touchHandler at h
  simp only [textUnlessNoReply_eq hq] at h
  split_ifs at h
  · cases h; exact .line _ _ σ rfl
  · cases h; exact .access _ rfl rfl rfl

theorem Text.lockHandler_reports (key : Key)
    (h : finish (fun σ => σ.text .NOT_FOUND) (Text.lockHandler g k o σ) = .ok r) :
    Reports key σ (some o) (some r.1, r.2) := by
  unfold Text.lockHandler acquire Object.lockIt at h
  split_ifs at h
  · cases h; exact .line _ _ σ rfl
  · cases h; exact .line _ _ σ rfl
  · cases h; exact .other _ rfl rfl rfl

theorem Text.unlockOneHandler_reports (key : Key)
    (h : finish (fun σ => σ.text .NOT_LOCKED) (Text.unlockOneHandler g deref k o σ) = .ok r) :
    Reports key σ (some o) (some r.1, r.2) := by
  unfold Text.unlockOneHandler at h
  split_ifs at h
  · cases h; exact .line _ _ σ rfl
  · cases hr : release g deref k.key o σ with
    | error e => rw [hr] at h; cases h
    | ok x =>
      rw [hr] at h
      cases h
      have hage : x.1.gcOld = o.gcOld := by rw [release_object hr]
      exact .other _ rfl (congrArg (· ++ _) (release_session hr).1) (congrArg some hage)

theorem Text.deletePred_reports (hq : cmd.noReply = false) {key : Key} {b : Bool}
    {σ' : Session} (h : Text.deletePred g cmd deref key o σ = .ok (b, o', σ')) :
    o' = o ∧ ∃ r : Reply, r.accessed cmd.key = none ∧ σ'.out = σ.out ++ [r] := by
  unfold Text.deletePred at h
  simp only [textUnlessNoReply_eq hq] at h
  split_ifs at h
  · cases h; exact ⟨rfl, _, rfl, rfl⟩
  · cases hr : removeLock deref key σ.locks with
    | error e => rw [hr] at h; cases h
    | ok l => rw [hr] at h; cases h; exact ⟨rfl, _, rfl, rfl⟩
  · cases h; exact ⟨rfl, _, rfl, rfl⟩

end Text

section Commands

variable {g : Env} {m : HashMap Object} {σ : Session} {w : World} {cmd : TextRequest}

/-- The loop of GET and GETS: every VALUE is an access to its key. -/
theorem Text.getLoop_reported (key : Key) (ks : List Key) :
    ∀ {m : HashMap Object} {σ : Session}, Text.getLoop g cmd ks m σ = .ok w → AgesReported key m σ w := by
  induction ks with
  | nil =>
    intro m σ h
    cases h
    exact ⟨[], (List.append_nil _).symm, .refl m⟩
  | cons k ks ih =>
    intro m σ h
    rw [Text.getLoop] at h
    cases hp : m.find k with
    | none =>
      rw [HashMap.apply_absent hp] at h
      exact ih h
    | some p =>
      rw [HashMap.apply_found hp] at h
      unfold Text.getHandler at h
      by_cases he : p.val.expired g.now σ.flushTime = true
      · -- the object is written back as it was
        rw [if_pos he] at h
        obtain ⟨rs, hs, hage⟩ := ih h
        exact ⟨rs, hs, (AgedBy.write_same hp rfl).trans hage⟩
      rw [if_neg he] at h
      by_cases hl : (itemRef p).key.length > MAX_KEY_LENGTH
      · rw [if_pos hl] at h
        cases h
      rw [if_neg hl] at h
      obtain ⟨rs, hs, hage⟩ := ih h
      refine ⟨_ :: rs, by rw [hs]; exact List.append_assoc .., ?_⟩
      show AgedBy ([(itemRef p).key] ++ rs.filterMap (Reply.accessed key)) m w.1
      rw [itemRef_key, m.find_key hp]
      exact (AgedBy.write_zero hp rfl).trans hage

/-- **Text commands** report what they access. -/
theorem cmdText_reported (hq : cmd.noReply = false) (hw : cmdText g cmd m σ = .ok w) :
    AgesReported cmd.key m σ w := by
  have hmiss : ∀ {t : TextReply}, Reply.accessed cmd.key (.text t) = none → ∀ k,
      Reports cmd.key σ none (absent none (fun σ => σ.textUnlessNoReply cmd t) k σ) := by
    intro t ht k
    unfold absent
    dsimp only
    rw [textUnlessNoReply_eq hq]
    exact .line _ none σ ht
  unfold cmdText at hw
  by_cases hv : (! cmd.valid) = true
  · rw [if_pos hv] at hw
    cases hw
    exact .idle m _ rfl rfl
  rw [if_neg hv] at hw
  cases hcmd : cmd.command with
  | SET | ADD | REPLACE =>
    rw [hcmd] at hw
    dsimp only at hw
    by_cases hk : cmd.key.length > MAX_KEY_LENGTH
    · rw [if_pos hk] at hw
      cases hw
      exact .idle m _ rfl rfl
    by_cases hd : cmd.data.length > g.config.maxDataSize
    · rw [if_neg hk, if_pos hd] at hw
      cases hw
      exact .idle m _ rfl rfl
    rw [if_neg hk, if_neg hd] at hw
    refine applyOr_reported (fun k o r => Text.setHandler_reports hq) (fun k => ?_) hw
    split_ifs
    · unfold absent Text.setCreator
      dsimp only
      rw [textUnlessNoReply_eq hq]
      exact .access _ rfl rfl rfl
    · exact hmiss rfl k
  | APPEND =>
    rw [hcmd] at hw
    exact applyOr_reported (fun k o r => Text.concatHandler_reports hq append_gcOld) (hmiss rfl) hw
  | PREPEND =>
    rw [hcmd] at hw
    exact applyOr_reported (fun k o r => Text.concatHandler_reports hq prepend_gcOld) (hmiss rfl) hw
  | CAS =>
    rw [hcmd] at hw
    exact applyOr_reported (fun k o r => Text.casHandler_reports hq) (hmiss rfl) hw
  | INCR | DECR =>
    rw [hcmd] at hw
    exact applyOr_reported (fun k o r => Text.incdecHandler_reports hq fun _ _ _ _ => renumber_gcOld)
      (hmiss rfl) hw
  | TOUCH =>
    rw [hcmd] at hw
    exact applyOr_reported (fun k o r => Text.touchHandler_reports hq) (hmiss rfl) hw
  | DELETE =>
    rw [hcmd] at hw
    refine removeOr_reported (fun o b o' σ' h => Text.deletePred_reports hq h) ?_ hw
    rw [textUnlessNoReply_eq hq]
    exact ⟨_, rfl, rfl⟩
  | LOCK =>
    rw [hcmd] at hw
    exact applyOr_reported (fun k o r => Text.lockHandler_reports _) (fun k => .line _ none σ rfl) hw
  | UNLOCK =>
    rw [hcmd] at hw
    exact applyOr_reported (fun k o r => Text.unlockOneHandler_reports _) (fun k => .line _ none σ rfl) hw
  | UNLOCK_ALL =>
    rw [hcmd] at hw
    exact unlockAll_reported (fun σ' => .reply _ rfl rfl) hw
  | QUIT =>
    rw [hcmd] at hw
    refine unlockAll_reported ?_ hw
    exact Mute.refl
  | GET | GETS =>
    rw [hcmd] at hw
    dsimp only at hw
    cases hg : Text.getLoop g cmd cmd.keys m σ with
    | error e => rw [hg] at hw; cases hw
    | ok x =>
      rw [hg] at hw
      cases hw
      obtain ⟨rs, hs, hage⟩ := Text.getLoop_reported cmd.key cmd.keys hg
      refine ⟨rs ++ [.text .END], ?_, ?_⟩
      · rw [← List.append_assoc, ← hs]
        rfl
      · rw [List.filterMap_append]
        exact (List.append_nil _).symm ▸ hage
  | KEYS =>
    rw [hcmd] at hw
    refine foreach_reported (fun k o σ σ' h => ?_) (fun σ' => .reply _ rfl rfl) hw
    unfold Text.keysPred at h
    split_ifs at h
    · cases h; exact .refl σ
    · cases h; exact .reply _ rfl rfl
    · cases h; exact .refl σ
  | STATS =>
    rw [hcmd] at hw
    cases hw
    exact ⟨[.text (.STATS cmd.stats σ.slaves.length), .text .END], List.append_assoc .., .refl m⟩
  | FLUSH_ALL | VERBOSITY =>
    rw [hcmd] at hw
    simp only [textUnlessNoReply_eq hq] at hw
    cases hw
    exact .idle m _ rfl rfl
  | SLABS | VERSION | UNKNOWN =>
    rw [hcmd] at hw
    cases hw
    exact .idle m _ rfl rfl

end Commands

theorem BinaryCommand.plain_plain (c : BinaryCommand) : c.plain.plain = c.plain := by cases c <;> rfl

/-- **What a command does to the ages** is what its replies, in the plain form, tell. -/
theorem exec_ages {g : Env} {m : HashMap Object} {σ : Session} {c : Cmd} {w : World}
    (hw : c.exec g m σ = .ok w) : AgedBy (c.accessed g m σ) m w.1 := by
  obtain ⟨w', hw', hfst⟩ := exec_fst_plain hw
  have hrep : AgesReported c.key m σ w' := by
    cases c with
    | bin r =>
      have hbin : AgesReported r.plain.key m σ w' := cmdBin_reported r.command.plain_plain hw'
      exact hbin
    | text r =>
      have htext : AgesReported r.plain.key m σ w' := cmdText_reported rfl hw'
      exact htext
  obtain ⟨rs, hout, hage⟩ := hrep
  have hreplies : c.plain.replies g m σ = rs := by
    unfold Cmd.replies
    rw [hw']
    dsimp only
    rw [hout, List.drop_left]
  unfold Cmd.accessed
  rw [hreplies, ← hfst]
  exact hage

end Yrmcds.Memcache
