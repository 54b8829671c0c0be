/-
  Expired objects, before and after GC removes them.

  An object that has expired stays in the hash map until the next GC pass, and every handler has to treat
  it as absent by itself.  This file compares a command on a store with the same command on the store
  from which some expired objects have been removed (`collect`).

  `Thin` relates the two stores while the command runs.  Away from the removed keys both sides do the
  same, whatever the handler (`applyOr_kept`, `removeOr_kept`).  On a removed key the handler has to SKIP
  the expired object (`Skips`), or to do what the creator does.  Some handlers do neither:

  * LaG locks the object before it asks whether it has expired, and a locked object never expires;
  * Increment and Decrement skip it, but where there is no object they create one;
  * Delete (of both protocols), RaU and binary Unlock do not ask at all;
  * Flush moves `flush_time`, and objects that had expired by the old one are back.

  `Notices` lists these cases, and `gc_unobservable_iff` shows that they are all there are.
-/
import Yrmcds.Memcache.Replication

namespace Yrmcds.Memcache

open ChainTable Run

/-! ## What clients can see -/

/-- A reply without its cas value. -/
def BinaryBody.sansCas : BinaryBody → BinaryBody
  | .get f d _ k => .get f d 0 k
  | .set _ => .set 0
  | .incdec v _ => .incdec v 0
  | b => b

/-- A text reply without its cas value. -/
def TextReply.sansCas : TextReply → TextReply
  | .VALUE k f d c => .VALUE k f d (c.map fun _ => 0)
  | r => r

/-- A reply without its cas value. -/
def Reply.sansCas : Reply → Reply
  | .binary r => .binary { r with body := r.body.sansCas }
  | .text r => .text r.sansCas

/-- What can be seen of a key: the contents of its object, unless it has expired, and where and by whom
    it is locked. -/
structure Seen where
  item : Option Item := none
  lock : Option (Nat × Int) := none
deriving DecidableEq

/-- What a client can see of a key. -/
def seen (now flushTime : Int) : Option (Cell Key Object) → Seen
  | none => {}
  | some c =>
    { item := if c.val.expired now flushTime then none else some c.val.item
      lock := (lockOf c.val).map fun fd => (c.addr, fd) }

/-- Two worlds that a client cannot tell apart: the connection's replies are the same up to cas values,
    it holds the same locks, and every key looks the same. -/
structure Alike (now : Int) (w w' : World) : Prop where
  out : w.2.out.map Reply.sansCas = w'.2.out.map Reply.sansCas
  locks : w.2.locks = w'.2.locks
  closing : w.2.closing = w'.2.closing
  keys : ∀ k, seen now w.2.flushTime (w.1.find k) = seen now w'.2.flushTime (w'.1.find k)

/-- Two outcomes of a command. -/
def Indistinct (now : Int) : Except Err World → Except Err World → Prop
  | .ok w, .ok w' => Alike now w w'
  | .error e, .error e' => e = e'
  | _, _ => False

variable {o : Object} {f f' : Handler} {n : Bool} {σ1 : Session}

theorem expired_congr {o' : Object} (hi : o.item = o'.item) (hl : o.lock = o'.lock) (now t : Int) :
    o.expired now t = o'.expired now t := by
  have he : o.exptime = o'.exptime := congrArg Item.exptime hi
  unfold Object.expired Object.locked
  rw [he, hl]

section

variable {now t : Int} {c c' : Cell Key Object}

theorem seen_some (now t : Int) (c : Cell Key Object) :
    seen now t (some c) = ⟨if c.val.expired now t then none else some c.val.item,
      (lockOf c.val).map fun fd => (c.addr, fd)⟩ := rfl

theorem seen_of_expired (h : c.val.expired now t = true) : seen now t (some c) = seen now t none := by
  have hl : lockOf c.val = none := lockOf_eq_none.mpr (Object.unlocked_of_expired h)
  rw [seen_some, if_pos h, hl, Option.map_none, seen]

/-- Where an object that is not locked is, is not seen. -/
theorem seen_of_unlocked (hi : c.val.item = c'.val.item) (hl : c.val.lock = -1) (hl' : c'.val.lock = -1) :
    seen now t (some c) = seen now t (some c') := by
  rw [seen_some, seen_some, expired_congr hi (hl.trans hl'.symm), hi, lockOf_eq_none.mpr hl,
    lockOf_eq_none.mpr hl']
  rfl

end

/-! ## Sessions -/

/-- Two sessions of one connection, up to cas values and what was sent to slaves. -/
structure Akin (σ σ' : Session) : Prop where
  out : σ.out.map Reply.sansCas = σ'.out.map Reply.sansCas
  locks : σ.locks = σ'.locks
  closing : σ.closing = σ'.closing
  flushTime : σ.flushTime = σ'.flushTime

namespace Akin

@[refl] theorem refl (σ : Session) : Akin σ σ := ⟨rfl, rfl, rfl, rfl⟩

theorem repl {σ σ' : Session} (h : Akin σ σ') (msg msg' : ReplMsg) : Akin (σ.repl msg) (σ'.repl msg') :=
  ⟨h.out, h.locks, h.closing, h.flushTime⟩

theorem binUnlessQuiet (σ : Session) (cmd : BinaryRequest) {b b' : BinaryBody}
    (h : b.sansCas = b'.sansCas) :
    Akin (σ.binUnlessQuiet cmd b) (σ.binUnlessQuiet cmd b') := by
  unfold Session.binUnlessQuiet
  split
  · exact refl σ
  · refine ⟨?_, rfl, rfl, rfl⟩
    unfold Session.bin Session.send
    rw [List.map_append, List.map_append, List.map_singleton, List.map_singleton, Reply.sansCas,
      Reply.sansCas, h]

end Akin

/-- What a command answers to its client. -/
def Answers (σ : Session) (res : Except Err World) (rs : List Reply) : Prop :=
  ∃ w, res = .ok w ∧ w.2.out = σ.out ++ rs

theorem out_unlessQuiet (σ : Session) (cmd : BinaryRequest) (b : BinaryBody) :
    (σ.binUnlessQuiet cmd b).out
      = σ.out ++ if cmd.quiet then [] else [.binary ⟨cmd.command.toByte, cmd.opaqueBytes, b⟩] := by
  unfold Session.binUnlessQuiet
  split_ifs
  · exact (List.append_nil _).symm
  · rfl

/-- Different answers tell the outcomes apart. -/
theorem not_indistinct {now : Int} {σ : Session} {res res' : Except Err World} {rs rs' : List Reply}
    (h : Answers σ res rs) (h' : Answers σ res' rs')
    (hne : rs.map Reply.sansCas ≠ rs'.map Reply.sansCas) : ¬ Indistinct now res res' := by
  obtain ⟨w, rfl, hw⟩ := h
  obtain ⟨w', rfl, hw'⟩ := h'
  intro hi
  have hout : w.2.out.map Reply.sansCas = w'.2.out.map Reply.sansCas := Alike.out hi
  rw [hw, hw', List.map_append, List.map_append] at hout
  exact hne (List.append_cancel_left hout)

/-! ## The two stores -/

/-- `m` after GC has removed the items of the keys in `E`. -/
def collect (E : List Key) (m : HashMap Object) : HashMap Object :=
  m.rewrite fun _ c => if c.key ∈ E then none else some c.val

theorem find_collect (E : List Key) (m : HashMap Object) (k : Key) :
    (collect E m).find k = if k ∈ E then none else m.find k := by
  unfold collect
  rw [Table.find_rewrite]
  cases hf : m.find k with
  | none => split_ifs <;> rfl
  | some c =>
    rw [Option.bind_some, m.find_key hf]
    split_ifs <;> rfl

/-- The keys of `E` have objects that have expired. -/
def AllExpired (now t : Int) (E : List Key) (m : HashMap Object) : Prop :=
  ∀ k ∈ E, ∃ p, m.find k = some p ∧ p.val.expired now t = true

/-- `m'` is `m` without the expired objects of `E`. -/
structure Thin (now t : Int) (E : List Key) (m m' : HashMap Object) : Prop where
  kept : ∀ k, k ∉ E → m'.find k = m.find k
  gone : ∀ k, k ∈ E → m'.find k = none
  dead : AllExpired now t E m

theorem thin_collect {now t : Int} {E : List Key} {m : HashMap Object} (h : AllExpired now t E m) :
    Thin now t E m (collect E m) where
  kept k hk := by rw [find_collect, if_neg hk]
  gone k hk := by rw [find_collect, if_pos hk]
  dead := h

namespace Thin

variable {now t : Int} {E : List Key} {m m' : HashMap Object} {key : Key} {p : Cell Key Object}

theorem seen_eq (h : Thin now t E m m') (k : Key) : seen now t (m.find k) = seen now t (m'.find k) := by
  by_cases hk : k ∈ E
  · obtain ⟨q, hq, he⟩ := h.dead k hk
    rw [hq, h.gone k hk, seen_of_expired he]
  · rw [h.kept k hk]

/-- The stores themselves look the same. -/
theorem alike (h : Thin now t E m m') {σ σ' : Session} (hs : Akin σ σ') (ht : σ.flushTime = t) :
    Alike now (m, σ) (m', σ') where
  out := hs.out
  locks := hs.locks
  closing := hs.closing
  keys k := by
    show seen now σ.flushTime (m.find k) = seen now σ'.flushTime (m'.find k)
    rw [← hs.flushTime, ht, h.seen_eq]

/-- ... and so do they after a change of one key that looks the same. -/
theorem alike_of_change (h : Thin now t E m m') {m1 m1' : HashMap Object} {σ σ' : Session} (key : Key)
    (hm : ∀ k, k ≠ key → m1.find k = m.find k) (hm' : ∀ k, k ≠ key → m1'.find k = m'.find k)
    (hkey : seen now t (m1.find key) = seen now t (m1'.find key)) (hs : Akin σ σ')
    (ht : σ.flushTime = t) : Alike now (m1, σ) (m1', σ') where
  out := hs.out
  locks := hs.locks
  closing := hs.closing
  keys k := by
    show seen now σ.flushTime (m1.find k) = seen now σ'.flushTime (m1'.find k)
    rw [← hs.flushTime, ht]
    by_cases hk : k = key
    · rw [hk, hkey]
    · rw [hm k hk, hm' k hk, h.seen_eq]

/-- What is done to a key that is not removed is done on both sides. -/
theorem change (h : Thin now t E m m') (hk : key ∉ E) {m1 m1' : HashMap Object}
    (hm : ∀ k, k ≠ key → m1.find k = m.find k) (hm' : ∀ k, k ≠ key → m1'.find k = m'.find k)
    (hkey : m1'.find key = m1.find key) : Thin now t E m1 m1' := by
  have hne : ∀ k ∈ E, k ≠ key := by
    rintro k hkE rfl
    exact hk hkE
  refine ⟨fun k hkE => ?_, fun k hkE => ?_, fun k hkE => ?_⟩
  · by_cases hkk : k = key
    · rw [hkk, hkey]
    · rw [hm k hkk, hm' k hkk, h.kept k hkE]
  · rw [hm' k (hne k hkE), h.gone k hkE]
  · rw [hm k (hne k hkE)]
    exact h.dead k hkE

theorem write (h : Thin now t E m m') (hk : key ∉ E) (hp : m.find key = some p) (o : Object) :
    Thin now t E (m.write p.addr o) (m'.write p.addr o) := by
  have hp' : m'.find key = some p := (h.kept key hk).trans hp
  refine h.change hk (fun k hkk => m.find_write_of_ne hp o hkk)
    (fun k hkk => m'.find_write_of_ne hp' o hkk) ?_
  rw [m.find_write_self hp, m'.find_write_self hp']

theorem erase (h : Thin now t E m m') (hk : key ∉ E) (hp : m.find key = some p) :
    Thin now t E (m.erase p.addr) (m'.erase p.addr) := by
  have hp' : m'.find key = some p := (h.kept key hk).trans hp
  refine h.change hk (fun k hkk => m.find_erase_of_ne hp hkk) (fun k hkk => m'.find_erase_of_ne hp' hkk) ?_
  rw [m.find_erase_self hp, m'.find_erase_self hp']

/-- A locked object is not removed. -/
theorem find_of_owner (h : Thin now t E m m') {a : Nat} {w : Int} (ha : owner m a = some w) :
    ∃ k q, m'.find k = some q ∧ q.addr = a ∧ owner m' a = some w := by
  obtain ⟨k, q, hq, hqa, hlock, hw⟩ := exists_find_of_owner ha
  have hk : k ∉ E := by
    intro hkE
    obtain ⟨r, hr, he⟩ := h.dead k hkE
    rw [hq, Option.some.injEq] at hr
    exact hw (hlock.symm.trans (hr ▸ Object.unlocked_of_expired he))
  have hq' : m'.find k = some q := (h.kept k hk).trans hq
  refine ⟨k, q, hq', hqa, ?_⟩
  rw [← hqa, owner_of_find hq', ← owner_of_find hq, hqa]
  exact ha

end Thin

/-! ## Keys that were not removed -/

section

variable {g : Env} {E : List Key} {m m' : HashMap Object} {σ : Session} {key : Key}
  {miss : Session → Session}

/-- A creator does not look at the address it is given. -/
def AddrFree (key : Key) (c : Creator) : Prop := ∀ a b σ, c ⟨a, key⟩ σ = c ⟨b, key⟩ σ

/-- **Away from the removed keys a command does the same on both sides**: the case of `apply`. -/
theorem applyOr_kept (h : Thin g.now σ.flushTime E m m') (hk : key ∉ E) (hlaw : Lawful g m.deref n f)
    (heq : ∀ p, m.find key = some p → f' (itemRef p) p.val σ = f (itemRef p) p.val σ)
    {c : Option Creator} (hc : ∀ c' ∈ c, CreatorLawful key c' ∧ AddrFree key c')
    (hmiss : ∀ σ, Chat σ (miss σ)) :
    Indistinct g.now (applyOr m key f c miss σ) (applyOr m' key f' c miss σ) := by
  have hfind := h.kept key hk
  unfold applyOr
  cases hp : m.find key with
  | some p =>
    rw [hp] at hfind
    rw [HashMap.apply_found hp, HashMap.apply_found hfind, heq p hp]
    cases hr : f (itemRef p) p.val σ with
    | error e => rfl
    | ok res =>
      obtain ⟨b, o, σ1⟩ := res
      have hrun := hlaw (itemRef p) p.val σ
      rw [hr] at hrun
      cases b with
      | true => exact (h.write hk hp o).alike (.refl σ1) hrun.flushTime
      | false =>
        exact (h.write hk hp o).alike (.refl (miss σ1)) ((hmiss σ1).flushTime.trans hrun.flushTime)
  | none =>
    rw [hp] at hfind
    cases hcc : c with
    | none =>
      rw [HashMap.apply_absent hp, HashMap.apply_absent hfind]
      exact h.alike (.refl (miss σ)) (hmiss σ).flushTime
    | some c' =>
      obtain ⟨⟨-, hnew⟩, hfree⟩ := hc c' (by rw [hcc]; rfl)
      obtain ⟨hlock, -, hchat⟩ := hnew m.newAddr σ
      rw [HashMap.apply_create hp, HashMap.apply_create hfind, hfree m'.newAddr m.newAddr σ]
      refine h.alike_of_change key (fun k hkk => m.find_push_of_ne _ hp hkk)
        (fun k hkk => m'.find_push_of_ne _ hfind hkk) ?_ (.refl _) hchat.flushTime
      rw [m.find_push_self _ hp, m'.find_push_self _ hfind]
      exact seen_of_unlocked rfl hlock hlock

/-- ... and of `remove_if`. -/
theorem removeOr_kept (h : Thin g.now σ.flushTime E m m') (hk : key ∉ E)
    {f f' : Key → Object → Session → Except Err (Bool × Object × Session)}
    (hrun : ∀ o, RemoveRun g m.deref key o σ (f key o σ))
    (heq : ∀ p, m.find key = some p → f' key p.val σ = f key p.val σ)
    (hmiss : ∀ σ, Chat σ (miss σ)) :
    Indistinct g.now (removeOr m key f miss σ) (removeOr m' key f' miss σ) := by
  have hfind := h.kept key hk
  unfold removeOr HashMap.removeIf
  rw [hfind]
  cases hp : m.find key with
  | none => exact h.alike (.refl (miss σ)) (hmiss σ).flushTime
  | some p =>
    have hr := hrun p.val
    dsimp only
    rw [heq p hp]
    generalize f key p.val σ = res at hr
    cases hr with
    | refuse hc => exact (h.write hk hp p.val).alike (.refl _) hc.flushTime
    | remove hl hrl hc => exact (h.erase hk hp).alike (.refl _) hc.flushTime
    | fail hl hrl => rfl

end

/-! ## Removed keys -/

/-- The handler passes over an expired object. -/
def Skips (g : Env) (f : Handler) : Prop :=
  ∀ k o σ, o.expired g.now σ.flushTime = true → f k o σ = .ok (false, o, σ)

section

variable {g : Env} {E : List Key} {m m' : HashMap Object} {σ : Session} {key : Key}
  {miss : Session → Session} {p : Cell Key Object}

/-- What `apply` does where a handler only talks. -/
theorem applyOr_talk (hp : m.find key = some p) {b : Bool}
    (hf : f (itemRef p) p.val σ = .ok (b, p.val, σ1)) (c : Option Creator) (miss : Session → Session) :
    applyOr m key f c miss σ = .ok (m, if b then σ1 else miss σ1) := by
  unfold applyOr
  rw [HashMap.apply_found hp, hf]
  dsimp only
  rw [m.write_val hp]
  cases b <;> rfl

/-- What `apply` does where there is nothing. -/
theorem applyOr_absent (hp : m.find key = none) (f : Handler) (miss : Session → Session) (σ : Session) :
    applyOr m key f none miss σ = .ok (m, miss σ) := by
  unfold applyOr
  rw [HashMap.apply_absent hp]

/-- **A handler that skips, and does not create, does not notice GC.** -/
theorem applyOr_skips (h : Thin g.now σ.flushTime E m m') (hlaw : Lawful g m.deref n f) (hskip : Skips g f)
    (heq : ∀ p, key ∉ E → m.find key = some p → f' (itemRef p) p.val σ = f (itemRef p) p.val σ)
    (hmiss : ∀ σ, Chat σ (miss σ)) :
    Indistinct g.now (applyOr m key f none miss σ) (applyOr m' key f' none miss σ) := by
  by_cases hk : key ∈ E
  · obtain ⟨p, hp, he⟩ := h.dead key hk
    rw [applyOr_talk hp (hskip _ _ _ he), applyOr_absent (h.gone key hk)]
    exact h.alike (.refl (miss σ)) (hmiss σ).flushTime
  · exact applyOr_kept h hk hlaw (fun p hp => heq p hk hp) (fun c hc => by cases hc) hmiss

/-- On a removed key: a store into the expired object, and the creator. -/
theorem applyOr_stores (h : Thin g.now σ.flushTime E m m') (hk : key ∈ E) (hp : m.find key = some p)
    {c : Option Creator} {c' : Creator} (hf : f (itemRef p) p.val σ = .ok (true, o, σ1))
    (hs : Akin σ1 (c' ⟨m'.newAddr, key⟩ σ).2) (hi : o.item = (c' ⟨m'.newAddr, key⟩ σ).1.item)
    (hl : o.lock = -1) (hl' : (c' ⟨m'.newAddr, key⟩ σ).1.lock = -1) (ht : σ1.flushTime = σ.flushTime) :
    Indistinct g.now (applyOr m key f c miss σ) (applyOr m' key f' (some c') miss σ) := by
  have hgone := h.gone key hk
  unfold applyOr
  rw [HashMap.apply_found hp, hf, HashMap.apply_create hgone]
  refine h.alike_of_change key (fun k hkk => m.find_write_of_ne hp o hkk)
    (fun k hkk => m'.find_push_of_ne _ hgone hkk) ?_ hs ht
  rw [m.find_write_self hp, m'.find_push_self _ hgone]
  exact seen_of_unlocked hi hl hl'

end

/-! ## `m_locks`, on both sides -/

section

variable {g : Env} {held : Nat → Option (Int × List Nat)} {c : Nat} {E : List Key}
  {m m' : HashMap Object} {σ : Session} {key : Key} {p : Cell Key Object}

/-- `remove_lock` reads the same keys. -/
theorem Thin.removeLock (h : Thin g.now σ.flushTime E m m') (hinv : TableInv g held c (m, σ))
    (hk : key ∉ E) (hp : m.find key = some p) :
    removeLock m'.deref key σ.locks = removeLock m.deref key σ.locks := by
  rw [hinv.removeLock_eq hp]
  refine removeLock_eq ((h.kept key hk).trans hp) fun a ha => ?_
  obtain ⟨k, q, hq, hqa, -⟩ := h.find_of_owner (hinv.table.owned hinv.self ha)
  exact ⟨k, m'.deref_eq_some_iff.mpr ⟨q, hq, hqa⟩⟩

theorem Thin.release (h : Thin g.now σ.flushTime E m m') (hinv : TableInv g held c (m, σ))
    (hk : key ∉ E) (hp : m.find key = some p) (o : Object) :
    release g m'.deref (itemRef p).key o σ = release g m.deref (itemRef p).key o σ := by
  unfold Memcache.release
  rw [itemRef_key, m.find_key hp, h.removeLock hinv hk hp]

/-- `unlock_all` on both sides: it succeeds, and unlocks the same objects. -/
theorem Thin.unlockLoop (h : Thin g.now σ.flushTime E m m') (hinv : TableInv g held c (m, σ)) :
    ∃ m1 m1', unlockLoop g.ctx false m σ.locks = .ok m1 ∧ unlockLoop g.ctx false m' σ.locks = .ok m1' ∧
      Thin g.now σ.flushTime E m1 m1' := by
  obtain ⟨m1, hm1, -⟩ := hinv.unlockLoop_ok
  have hown' : ∀ a ∈ σ.locks, owner m' a = some g.ctx := by
    intro a ha
    obtain ⟨k, q, hq, hqa, ho⟩ := h.find_of_owner (hinv.table.owned hinv.self ha)
    exact ho
  obtain ⟨m1', hm1', -⟩ := unlockLoop_ok (.inr rfl) (hinv.table.nodup hinv.self) hown'
  refine ⟨m1, m1', hm1, hm1', fun k hk => ?_, fun k hk => ?_, fun k hk => ?_⟩
  · rw [unlockLoop_find hm1, unlockLoop_find hm1', h.kept k hk]
  · rw [unlockLoop_find hm1', h.gone k hk, Option.map_none]
  · obtain ⟨q, hq, he⟩ := h.dead k hk
    have hnot : q.addr ∉ σ.locks := by
      intro ha
      have ho := hinv.table.owned hinv.self ha
      rw [owner_of_find hq, lockOf_eq_none.mpr (Object.unlocked_of_expired he)] at ho
      cases ho
    refine ⟨q, ?_, he⟩
    rw [unlockLoop_find hm1, hq, Option.map_some, if_neg hnot]

/-- Commands that give up all locks. -/
theorem unlockAll_indistinct (h : Thin g.now σ.flushTime E m m') (hinv : TableInv g held c (m, σ))
    (post : Session → Session) (hpost : ∀ σ, Chat σ (post σ)) :
    Indistinct g.now
      (match unlockAll g m σ with
        | .ok (m1, σ1) => .ok (m1, post σ1)
        | .error e => .error e)
      (match unlockAll g m' σ with
        | .ok (m1, σ1) => .ok (m1, post σ1)
        | .error e => .error e) := by
  obtain ⟨m1, m1', hm1, hm1', hthin⟩ := h.unlockLoop hinv
  unfold unlockAll
  rw [hm1, hm1']
  exact hthin.alike (.refl _) (hpost { σ with locks := [] }).flushTime

end

/-! ## KEYS -/

section

variable {g : Env} {E : List Key} {m : HashMap Object} {σ : Session}
  {pred : KeyRef → Object → Session → Except Err Session}

theorem cells_collect (E : List Key) (m : HashMap Object) :
    (collect E m).cells = m.cells.filter fun c => c.key ∉ E := by
  unfold collect
  rw [Table.cells_rewrite]
  induction m.cells with
  | nil => rfl
  | cons c cs ih =>
    rw [List.filterMap_cons, List.filter_cons, ih]
    by_cases hc : c.key ∈ E
    · simp [hc]
    · simp [hc, Cell.put]

/-- A `foreach` whose predicate passes over expired objects. -/
theorem foreach_collect (hE : AllExpired g.now σ.flushTime E m)
    (hskip : ∀ k o σ, o.expired g.now σ.flushTime = true → pred k o σ = .ok σ)
    (hchat : ∀ k o σ σ', pred k o σ = .ok σ' → Chat σ σ') :
    HashMap.foreach (collect E m) pred σ = HashMap.foreach m pred σ ∧
      ∀ σ', HashMap.foreach m pred σ = .ok σ' → Chat σ σ' := by
  have hdead : ∀ c ∈ m.cells, c.key ∈ E → c.val.expired g.now σ.flushTime = true := by
    intro c hc hcE
    obtain ⟨q, hq, he⟩ := hE c.key hcE
    rw [m.mem_cells_iff.mp hc, Option.some.injEq] at hq
    exact hq ▸ he
  unfold HashMap.foreach
  rw [cells_collect]
  -- the flush time does not change on the way, so what was expired at the start is skipped
  have hfold : ∀ cs : List (Cell Key Object), (∀ c ∈ cs, c ∈ m.cells) → ∀ σ1, Chat σ σ1 →
      (cs.filter fun c => c.key ∉ E).foldlM (fun st c => pred (itemRef c) c.val st) σ1
          = cs.foldlM (fun st c => pred (itemRef c) c.val st) σ1 ∧
        ∀ σ', cs.foldlM (fun st c => pred (itemRef c) c.val st) σ1 = .ok σ' → Chat σ σ' := by
    intro cs
    induction cs with
    | nil =>
      intro _ σ1 hσ1
      refine ⟨rfl, fun σ' hσ' => ?_⟩
      obtain rfl := Except.ok.inj hσ'
      exact hσ1
    | cons c cs ih =>
      intro hmem σ1 hσ1
      have ih' := ih fun d hd => hmem d (List.mem_cons_of_mem _ hd)
      rw [List.foldlM_cons]
      by_cases hcE : c.key ∈ E
      · have he := hdead c (hmem c List.mem_cons_self) hcE
        rw [List.filter_cons_of_neg (by simpa using hcE), hskip (itemRef c) c.val σ1 (hσ1.flushTime ▸ he)]
        exact ih' σ1 hσ1
      · rw [List.filter_cons_of_pos (by simpa using hcE), List.foldlM_cons]
        cases hr : pred (itemRef c) c.val σ1 with
        | error e => exact ⟨rfl, fun σ' hσ' => by cases hσ'⟩
        | ok σ2 => exact ih' σ2 (hσ1.trans (hchat _ _ _ _ hr))
  exact hfold m.cells (fun _ hc => hc) σ (.refl σ)

theorem foreach_indistinct (hE : AllExpired g.now σ.flushTime E m)
    (hskip : ∀ k o σ, o.expired g.now σ.flushTime = true → pred k o σ = .ok σ)
    (hchat : ∀ k o σ σ', pred k o σ = .ok σ' → Chat σ σ') {post : Session → Session}
    (hpost : ∀ σ, Chat σ (post σ)) :
    Indistinct g.now
      (match HashMap.foreach m pred σ with
        | .ok σ' => .ok (m, post σ')
        | .error e => .error e)
      (match HashMap.foreach (collect E m) pred σ with
        | .ok σ' => .ok (collect E m, post σ')
        | .error e => .error e) := by
  obtain ⟨heq, hres⟩ := foreach_collect hE hskip hchat
  rw [heq]
  cases hr : HashMap.foreach m pred σ with
  | error e => rfl
  | ok σ' =>
    exact (thin_collect hE).alike (.refl _) ((hpost σ').flushTime.trans (hres σ' hr).flushTime)

end

/-! ## Binary commands -/

/-- No one is locked out of an expired object. -/
theorem not_lockedByOther_of_expired {now t : Int} (h : o.expired now t = true) (ctx : Int) :
    o.lockedByOther ctx = false :=
  (o.lockedByOther_eq_false ctx).mpr (.inl (Object.unlocked_of_expired h))

theorem not_lockedBySelf_of_expired {now t : Int} (h : o.expired now t = true) {ctx : Int}
    (hctx : ctx ≠ -1) : o.lockedBySelf ctx = false := by
  rw [o.lockedBySelf_eq_false, Object.unlocked_of_expired h]
  exact hctx.symm

section

variable (g : Env) (cmd : BinaryRequest)

/-- When a binary command notices that GC has removed the expired objects of `E` from `m`. -/
def BinaryRequest.Notices (m : HashMap Object) (E : List Key) : Prop :=
  cmd.status = .OK ∧
    match cmd.command with
    | .LaG | .LaGQ | .LaGK | .LaGKQ | .Unlock | .UnlockQ | .Delete => cmd.key ∈ E
    | .RaU | .RaUQ => cmd.key ∈ E ∧ cmd.data.length ≤ g.config.maxDataSize
    | .DeleteQ =>
      cmd.key ∈ E ∧ cmd.casUnique ≠ 0 ∧ ∃ p, m.find cmd.key = some p ∧ cmd.casUnique ≠ p.val.cas
    | .Increment | .IncrementQ | .Decrement | .DecrementQ => cmd.key ∈ E ∧ cmd.exptime ≠ EXPTIME_NONE
    | .Flush | .FlushQ => ¬ AllExpired g.now cmd.exptime E m
    | _ => False

theorem getHandler_skips (hlag : cmd.command.isLaG = false) : Skips g (getHandler g cmd) := by
  intro k o σ he
  unfold getHandler getBody
  rw [hlag, if_neg Bool.false_ne_true, if_pos he]

theorem modifyHandler_skips (body : KeyRef → Object → Session → Bool × Object × Session) :
    Skips g (modifyHandler g cmd body) := by
  intro k o σ he
  unfold modifyHandler
  rw [not_lockedByOther_of_expired he, if_neg Bool.false_ne_true, if_pos he]

theorem touchHandler_skips : Skips g (touchHandler g cmd) := by
  intro k o σ he
  unfold touchHandler
  rw [if_pos he]

theorem lockHandler_skips : Skips g (lockHandler g cmd) := by
  intro k o σ he
  unfold lockHandler
  rw [if_pos he]

section

variable {g : Env} {cmd : BinaryRequest} {held : Nat → Option (Int × List Nat)} {c : Nat} {E : List Key}
  {m m' : HashMap Object} {σ : Session}

/-- Set, Add and Replace on an expired object: NotFound, where that is the answer to an absent one, and
    otherwise a store. -/
theorem set_indistinct (h : Thin g.now σ.flushTime E m m') (c : Option Creator)
    (hc : c = if cmd.casUnique ≠ 0 ∨ cmd.command = .Replace ∨ cmd.command = .ReplaceQ then none
      else some (setCreator g cmd)) :
    Indistinct g.now (applyOr m cmd.key (setHandler g cmd) c (notFound cmd) σ)
      (applyOr m' cmd.key (setHandler g cmd) c (notFound cmd) σ) := by
  by_cases hk : cmd.key ∈ E
  · obtain ⟨p, hp, he⟩ := h.dead cmd.key hk
    have hlock := Object.unlocked_of_expired he
    by_cases hnf : cmd.casUnique ≠ 0 ∨ cmd.command = .Replace ∨ cmd.command = .ReplaceQ
    · have hf : setHandler g cmd (itemRef p) p.val σ = .ok (true, p.val, notFound cmd σ) := by
        unfold setHandler
        rw [not_lockedByOther_of_expired he, if_neg Bool.false_ne_true, if_pos he, if_pos hnf]
        rfl
      rw [hc, if_pos hnf, applyOr_talk hp hf, applyOr_absent (h.gone cmd.key hk)]
      exact h.alike (.refl _) rfl
    · have hcas : cmd.casUnique = 0 := not_not.mp fun h0 => hnf (.inl h0)
      have hf : setHandler g cmd (itemRef p) p.val σ = .ok (setStore g cmd (itemRef p) p.val σ) := by
        unfold setHandler casCheck
        rw [not_lockedByOther_of_expired he, if_neg Bool.false_ne_true, if_pos he, if_neg hnf,
          if_neg fun h0 => h0.1 hcas]
      have hakin : Akin (σ.binUnlessQuiet cmd (.set (p.val.cas + 1))) (σ.binUnlessQuiet cmd (.set 1)) :=
        .binUnlessQuiet σ cmd rfl
      rw [hc, if_neg hnf]
      refine applyOr_stores h hk hp hf (hakin.repl _ _) ?_ hlock rfl
        (Chat.binUnlessQuiet σ cmd _).flushTime
      exact (Object.item_set ..).trans (Object.item_new ..).symm
  · refine applyOr_kept h hk (setHandler_lawful g m.deref cmd) (fun _ _ => rfl) ?_ (notFound_chat cmd)
    intro c' hc'
    rw [hc] at hc'
    split_ifs at hc'
    · cases hc'
    · cases hc'
      exact ⟨setCreator_lawful g cmd, fun _ _ _ => rfl⟩

/-- LaG on an expired object: it is locked, and then no longer expired. -/
theorem lag_answers (hctx : g.ctx ≠ -1) (hlag : cmd.command.isLaG = true) {p : Cell Key Object}
    (hp : m.find cmd.key = some p) (he : p.val.expired g.now σ.flushTime = true) :
    ∃ f d cas k, Answers σ (applyOr m cmd.key (getHandler g cmd) none (getMiss cmd) σ)
      [.binary ⟨cmd.command.toByte, cmd.opaqueBytes, .get f d cas k⟩] := by
  have hlock := Object.unlocked_of_expired he
  have hlive : ({ p.val with lock := g.ctx } : Object).expired g.now σ.flushTime = false :=
    Object.not_expired_of_locked hctx _ _
  have hget : ∀ o : Object, ∃ f d cas k, getReply cmd (itemRef p) o = .get f d cas k := by
    intro o
    unfold getReply
    split <;> exact ⟨_, _, _, _, rfl⟩
  unfold applyOr
  rw [HashMap.apply_found hp]
  unfold getHandler
  rw [if_pos hlag, if_neg (by rw [Object.locked_eq_true]; exact not_not.mpr hlock), acquire_ok g _ σ hlock]
  dsimp only
  unfold getBody
  rw [if_neg (by rw [Bool.not_eq_true]; exact hlive)]
  split_ifs
  · obtain ⟨f, d, cas, k, hr⟩ := hget (({ p.val with lock := g.ctx } : Object).touch cmd.exptime)
    exact ⟨f, d, cas, k, _, rfl, by rw [← hr]; rfl⟩
  · obtain ⟨f, d, cas, k, hr⟩ := hget { p.val with lock := g.ctx }
    exact ⟨f, d, cas, k, _, rfl, by rw [← hr]; rfl⟩

/-- The get family. -/
theorem get_indistinct_iff (hctx : g.ctx ≠ -1) (h : Thin g.now σ.flushTime E m m') :
    Indistinct g.now (applyOr m cmd.key (getHandler g cmd) none (getMiss cmd) σ)
        (applyOr m' cmd.key (getHandler g cmd) none (getMiss cmd) σ)
      ↔ ¬ (cmd.command.isLaG = true ∧ cmd.key ∈ E) := by
  have hlaw : Lawful g m.deref true (getHandler g cmd) := getHandler_lawful g m.deref cmd
  by_cases hk : cmd.key ∈ E
  · cases hlag : cmd.command.isLaG with
    | false =>
      refine iff_of_true ?_ (by simp)
      exact applyOr_skips h hlaw (getHandler_skips g cmd hlag) (fun _ _ _ => rfl) (getMiss_chat cmd)
    | true =>
      refine iff_of_false ?_ (by simp [hk])
      obtain ⟨p, hp, he⟩ := h.dead cmd.key hk
      obtain ⟨f, d, cas, k, hans⟩ := lag_answers hctx hlag hp he
      have hmiss : Answers σ (applyOr m' cmd.key (getHandler g cmd) none (getMiss cmd) σ)
          (if ! cmd.quiet || cmd.command == .LaGQ then
            [.binary ⟨cmd.command.toByte, cmd.opaqueBytes, .error .NotFound⟩] else []) := by
        rw [applyOr_absent (h.gone cmd.key hk)]
        refine ⟨_, rfl, ?_⟩
        show (getMiss cmd σ).out = _
        unfold getMiss
        split_ifs
        · rfl
        · exact (List.append_nil _).symm
      refine not_indistinct hans hmiss ?_
      split_ifs <;> simp [Reply.sansCas, BinaryBody.sansCas]
  · refine iff_of_true ?_ fun hn => hk hn.2
    exact applyOr_kept h hk hlaw (fun _ _ => rfl) (fun c hc => by cases hc) (getMiss_chat cmd)

/-- RaU and Unlock answer NotLocked for an expired object, and NotFound for an absent one. -/
theorem unlock_indistinct_iff (h : Thin g.now σ.flushTime E m m') (hlaw : Lawful g m.deref n f)
    (heq : ∀ p, cmd.key ∉ E → m.find cmd.key = some p → f' (itemRef p) p.val σ = f (itemRef p) p.val σ)
    (hf : ∀ k o, o.expired g.now σ.flushTime = true → f k o σ = .ok (true, o, σ.bin cmd (.error .NotLocked))) :
    Indistinct g.now (applyOr m cmd.key f none (notFound cmd) σ)
        (applyOr m' cmd.key f' none (notFound cmd) σ) ↔ cmd.key ∉ E := by
  by_cases hk : cmd.key ∈ E
  · refine iff_of_false ?_ (not_not.mpr hk)
    obtain ⟨p, hp, he⟩ := h.dead cmd.key hk
    rw [applyOr_talk hp (hf _ _ he), applyOr_absent (h.gone cmd.key hk)]
    refine not_indistinct ⟨_, rfl, rfl⟩ ⟨_, rfl, rfl⟩ ?_
    simp [Reply.sansCas, BinaryBody.sansCas]
  · exact iff_of_true (applyOr_kept h hk hlaw (fun p hp => heq p hk hp) (fun c hc => by cases hc)
      (notFound_chat cmd)) hk

/-- Increment and Decrement answer NotFound for an expired object, but create an absent one. -/
theorem incdec_indistinct_iff (h : Thin g.now σ.flushTime E m m')
    {op : Object → UInt64 → Option (UInt64 × Object)}
    (hop : ∀ o n v o', op o n = some (v, o') → o'.cas = o.cas + 1 ∧ o'.lock = o.lock) :
    Indistinct g.now
        (applyOr m cmd.key (incdecHandler g cmd op)
          (if cmd.exptime ≠ EXPTIME_NONE then some (initialCreator cmd) else none) (notFound cmd) σ)
        (applyOr m' cmd.key (incdecHandler g cmd op)
          (if cmd.exptime ≠ EXPTIME_NONE then some (initialCreator cmd) else none) (notFound cmd) σ)
      ↔ ¬ (cmd.key ∈ E ∧ cmd.exptime ≠ EXPTIME_NONE) := by
  have hlaw := incdecHandler_lawful g m.deref cmd hop
  have hskip : Skips g (incdecHandler g cmd op) := modifyHandler_skips g cmd _
  by_cases hne : cmd.exptime ≠ EXPTIME_NONE
  · rw [if_pos hne]
    by_cases hk : cmd.key ∈ E
    · refine iff_of_false ?_ (by simp [hk, hne])
      obtain ⟨p, hp, he⟩ := h.dead cmd.key hk
      have hgone := h.gone cmd.key hk
      have hans : Answers σ (applyOr m' cmd.key (incdecHandler g cmd op) (some (initialCreator cmd))
          (notFound cmd) σ) (if cmd.quiet then [] else
            [.binary ⟨cmd.command.toByte, cmd.opaqueBytes, .incdec cmd.initial 1⟩]) := by
        unfold applyOr
        rw [HashMap.apply_create hgone]
        exact ⟨_, rfl, out_unlessQuiet σ cmd (.incdec cmd.initial 1)⟩
      rw [applyOr_talk hp (hskip _ _ _ he)]
      refine not_indistinct ⟨_, rfl, rfl⟩ hans ?_
      split_ifs <;> simp [Reply.sansCas, BinaryBody.sansCas]
    · refine iff_of_true (applyOr_kept h hk hlaw (fun _ _ => rfl) ?_ (notFound_chat cmd)) fun hn => hk hn.1
      rintro c' ⟨⟩
      exact ⟨initialCreator_lawful cmd, fun _ _ _ => rfl⟩
  · rw [if_neg hne]
    exact iff_of_true (applyOr_skips h hlaw hskip (fun _ _ _ => rfl) (notFound_chat cmd))
      fun hn => hne hn.2

/-- Delete of an expired object: it is removed and replied to like any other. -/
theorem delete_indistinct_iff (hctx : g.ctx ≠ -1) (h : Thin g.now σ.flushTime E m m')
    (hinv : TableInv g held c (m, σ)) :
    Indistinct g.now
        (removeOr m cmd.key (deletePred g cmd m.deref)
          (fun σ => σ.binUnlessQuiet cmd (.error .NotFound)) σ)
        (removeOr m' cmd.key (deletePred g cmd m'.deref)
          (fun σ => σ.binUnlessQuiet cmd (.error .NotFound)) σ)
      ↔ ¬ (cmd.key ∈ E ∧ (cmd.quiet = true →
          cmd.casUnique ≠ 0 ∧ ∃ p, m.find cmd.key = some p ∧ cmd.casUnique ≠ p.val.cas)) := by
  by_cases hk : cmd.key ∈ E
  · obtain ⟨p, hp, he⟩ := h.dead cmd.key hk
    have hgone := h.gone cmd.key hk
    have hright : removeOr m' cmd.key (deletePred g cmd m'.deref)
        (fun σ => σ.binUnlessQuiet cmd (.error .NotFound)) σ
          = .ok (m', σ.binUnlessQuiet cmd (.error .NotFound)) := by
      unfold removeOr HashMap.removeIf
      rw [hgone]
    have hpred : deletePred g cmd m.deref cmd.key p.val σ
        = if cmd.casUnique ≠ 0 ∧ cmd.casUnique ≠ p.val.cas then
            .ok (false, p.val, σ.bin cmd (.error .Exists))
          else .ok (true, p.val, (σ.binUnlessQuiet cmd .success).replDelete cmd.key) := by
      unfold deletePred
      rw [not_lockedByOther_of_expired he, not_lockedBySelf_of_expired he hctx,
        if_neg Bool.false_ne_true, if_neg Bool.false_ne_true]
    have hcas : (cmd.casUnique ≠ 0 ∧ ∃ q, m.find cmd.key = some q ∧ cmd.casUnique ≠ q.val.cas)
        ↔ cmd.casUnique ≠ 0 ∧ cmd.casUnique ≠ p.val.cas := by simp [hp]
    rw [hcas, hright]
    unfold removeOr HashMap.removeIf
    rw [hp]
    dsimp only
    rw [hpred]
    by_cases hmis : cmd.casUnique ≠ 0 ∧ cmd.casUnique ≠ p.val.cas
    · -- Exists is sent even by DeleteQ
      rw [if_pos hmis]
      refine iff_of_false ?_ (by simp [hk, hmis])
      refine not_indistinct ⟨_, rfl, rfl⟩ ⟨_, rfl, out_unlessQuiet σ cmd (.error .NotFound)⟩ ?_
      split_ifs <;> simp [Reply.sansCas, BinaryBody.sansCas]
    · rw [if_neg hmis]
      cases hq : cmd.quiet with
      | false =>
        refine iff_of_false ?_ (by simp [hk])
        unfold Session.binUnlessQuiet
        rw [hq]
        refine not_indistinct ⟨_, rfl, rfl⟩ ⟨_, rfl, rfl⟩ ?_
        simp [Reply.sansCas, BinaryBody.sansCas]
      | true =>
        refine iff_of_true ?_ (by simp [hmis])
        unfold Session.binUnlessQuiet
        rw [hq]
        refine h.alike_of_change cmd.key (fun k hkk => m.find_erase_of_ne hp hkk) (fun k hkk => rfl) ?_
          ⟨rfl, rfl, rfl, rfl⟩ rfl
        rw [m.find_erase_self hp, hgone]
  · refine iff_of_true ?_ fun hn => hk hn.1
    refine removeOr_kept h hk (fun o => deletePred_run g cmd m.deref o σ) (fun p hp => ?_)
      fun σ => .binUnlessQuiet σ cmd _
    unfold deletePred
    rw [h.removeLock hinv hk hp]

/-- A new flush time. -/
theorem flush_indistinct_iff (h : Thin g.now σ.flushTime E m m') {t : Int} (ht : σ1.flushTime = t) :
    Indistinct g.now (.ok (m, σ1)) (.ok (m', σ1)) ↔ AllExpired g.now t E m := by
  constructor
  · intro hi k hk
    obtain ⟨p, hp, -⟩ := h.dead k hk
    refine ⟨p, hp, ?_⟩
    by_contra he
    have hseen : seen g.now σ1.flushTime (m.find k) = seen g.now σ1.flushTime (m'.find k) :=
      Alike.keys hi k
    have hitem := congrArg Seen.item hseen
    rw [hp, h.gone k hk, ht, seen_some, if_neg he] at hitem
    cases hitem
  · intro hE
    exact (Thin.mk h.kept h.gone hE).alike (.refl σ1) ht

theorem sizeChecked_indistinct_iff {r r' : Except Err World} (h : Thin g.now σ.flushTime E m m') {P : Prop}
    (hr : Indistinct g.now r r' ↔ ¬ P) :
    Indistinct g.now (sizeChecked g cmd m σ r) (sizeChecked g cmd m' σ r')
      ↔ ¬ (P ∧ cmd.data.length ≤ g.config.maxDataSize) := by
  unfold sizeChecked
  rw [if_neg (Nat.not_lt.mpr cmd.key_le), if_neg (Nat.not_lt.mpr cmd.key_le)]
  by_cases hd : cmd.data.length > g.config.maxDataSize
  · rw [if_pos hd, if_pos hd]
    exact iff_of_true (h.alike (.refl _) rfl) fun hn => Nat.not_lt.mpr hn.2 hd
  · rw [if_neg hd, if_neg hd, hr]
    exact not_congr (by simp [Nat.le_of_not_lt hd])

end

end

/-- **When a binary command notices that GC has run.** -/
theorem cmdBin_indistinct_iff {g : Env} {cmd : BinaryRequest} {held : Nat → Option (Int × List Nat)}
    {c : Nat} {E : List Key} {m : HashMap Object} {σ : Session} (hctx : g.ctx ≠ -1)
    (hinv : TableInv g held c (m, σ)) (hE : AllExpired g.now σ.flushTime E m) :
    Indistinct g.now (cmdBin g cmd m σ) (cmdBin g cmd (collect E m) σ) ↔ ¬ cmd.Notices g m E := by
  have h := thin_collect hE
  have htalk : ∀ b, Indistinct g.now (.ok (m, σ.bin cmd b)) (.ok (collect E m, σ.bin cmd b)) := fun b =>
    h.alike (.refl _) rfl
  unfold cmdBin BinaryRequest.Notices
  by_cases hst : cmd.status = .OK
  case neg =>
    rw [if_pos hst, if_pos hst]
    exact iff_of_true (htalk _) fun hn => hst hn.1
  rw [if_neg (not_not.mpr hst), if_neg (not_not.mpr hst)]
  cases hcmd : cmd.command with
  | Get | GetQ | GetK | GetKQ | GaT | GaTQ | GaTK | GaTKQ =>
    refine iff_of_true ((get_indistinct_iff hctx h).mpr fun hn => ?_) fun hn => hn.2
    rw [hcmd] at hn
    exact absurd hn.1 (by decide)
  | LaG | LaGQ | LaGK | LaGKQ =>
    refine (get_indistinct_iff hctx h).trans (not_congr ⟨fun hn => ⟨hst, hn.2⟩, fun hn => ⟨?_, hn.2⟩⟩)
    rw [hcmd]
    decide
  | Set | SetQ | Add | AddQ =>
    refine iff_of_true ?_ fun hn => hn.2
    refine (sizeChecked_indistinct_iff h (iff_of_true (set_indistinct h _ ?_) not_false)).mpr And.left
    by_cases hcas : cmd.casUnique = 0 <;> simp [hcas, hcmd]
  | Replace | ReplaceQ =>
    refine iff_of_true ?_ fun hn => hn.2
    refine (sizeChecked_indistinct_iff h (iff_of_true (set_indistinct h _ ?_) not_false)).mpr And.left
    simp [hcmd]
  | RaU | RaUQ =>
    refine (sizeChecked_indistinct_iff h (unlock_indistinct_iff h (rauHandler_lawful g m.deref cmd)
      (fun p hk hp => ?_) fun k o he => ?_)).trans (not_congr ⟨fun hn => ⟨hst, hn⟩, And.right⟩)
    · unfold rauHandler
      rw [h.release hinv hk hp]
    · unfold rauHandler
      rw [not_lockedBySelf_of_expired he hctx]
      rfl
  | Append | AppendQ =>
    exact iff_of_true (applyOr_skips h (concatHandler_lawful g m.deref cmd Object.append_cas_lock)
      (modifyHandler_skips g cmd _) (fun _ _ _ => rfl) (notFound_chat cmd)) fun hn => hn.2
  | Prepend | PrependQ =>
    exact iff_of_true (applyOr_skips h (concatHandler_lawful g m.deref cmd Object.prepend_cas_lock)
      (modifyHandler_skips g cmd _) (fun _ _ _ => rfl) (notFound_chat cmd)) fun hn => hn.2
  | Delete =>
    have hq : cmd.quiet = false := by
      unfold BinaryRequest.quiet
      rw [hcmd]
      decide
    refine (delete_indistinct_iff hctx h hinv).trans (not_congr ⟨fun hn => ⟨hst, hn.1⟩, fun hn => ?_⟩)
    exact ⟨hn.2, fun hq' => absurd (hq.symm.trans hq') Bool.false_ne_true⟩
  | DeleteQ =>
    have hq : cmd.quiet = true := by
      unfold BinaryRequest.quiet
      rw [hcmd]
      decide
    refine (delete_indistinct_iff hctx h hinv).trans (not_congr ⟨fun hn => ?_, fun hn => ?_⟩)
    · exact ⟨hst, hn.1, hn.2 hq⟩
    · exact ⟨hn.2.1, fun _ => hn.2.2⟩
  | Increment | IncrementQ =>
    exact (incdec_indistinct_iff h fun _ _ _ _ => Object.renumber_cas_lock).trans
      (not_congr ⟨fun hn => ⟨hst, hn⟩, And.right⟩)
  | Decrement | DecrementQ =>
    exact (incdec_indistinct_iff h fun _ _ _ _ => Object.renumber_cas_lock).trans
      (not_congr ⟨fun hn => ⟨hst, hn⟩, And.right⟩)
  | Touch =>
    exact iff_of_true (applyOr_skips h (touchHandler_lawful (n := false) g m.deref cmd)
      (touchHandler_skips g cmd) (fun _ _ _ => rfl) (notFound_chat cmd)) fun hn => hn.2
  | Lock | LockQ =>
    exact iff_of_true (applyOr_skips h (lockHandler_lawful (n := false) g m.deref cmd)
      (lockHandler_skips g cmd) (fun _ _ _ => rfl) (notFound_chat cmd)) fun hn => hn.2
  | Unlock | UnlockQ =>
    refine (unlock_indistinct_iff h (unlockOneHandler_lawful (n := false) g m.deref cmd) (fun p hk hp => ?_)
      fun k o he => ?_).trans (not_congr ⟨fun hn => ⟨hst, hn⟩, And.right⟩)
    · unfold unlockOneHandler
      rw [h.release hinv hk hp]
    · unfold unlockOneHandler
      rw [not_lockedBySelf_of_expired he hctx]
      rfl
  | UnlockAll | UnlockAllQ =>
    exact iff_of_true (unlockAll_indistinct h hinv _ fun σ => .binUnlessQuiet σ cmd _) fun hn => hn.2
  | Quit | QuitQ =>
    refine iff_of_true (unlockAll_indistinct h hinv
      (fun σ => { σ.binUnlessQuiet cmd .quit with closing := true }) fun σ => ?_) fun hn => hn.2
    exact (Chat.binUnlessQuiet σ cmd _).trans ⟨rfl, rfl, rfl, rfl, fun _ => rfl⟩
  | Flush | FlushQ =>
    refine (flush_indistinct_iff h (t := cmd.exptime) ?_).trans ?_
    · exact (Chat.binUnlessQuiet { σ with flushTime := cmd.exptime } cmd _).flushTime
    · exact ⟨fun hE' hn => hn.2 hE', fun hn => not_not.mp fun hE' => hn ⟨hst, hE'⟩⟩
  | Noop | Version | Stat | Unknown | raw _ => exact iff_of_true (htalk _) fun hn => hn.2
  | Keys =>
    refine iff_of_true (foreach_indistinct hE (fun k o σ he => ?_) (fun k o σ σ' hr => ?_)
      fun σ => .bin σ cmd _) fun hn => hn.2
    · unfold keysPred
      rw [if_pos he]
    · obtain ⟨σ1, hok, hc⟩ := keysPred_chat g cmd k o σ
      rw [hr] at hok
      exact Except.ok.inj hok ▸ hc

/-! ## Text commands -/

section

variable (g : Env) (cmd : TextRequest)

/-- When a text command notices that GC has removed the expired objects of `E` from `m`. -/
def TextRequest.Notices (m : HashMap Object) (E : List Key) : Prop :=
  cmd.valid = true ∧
    match cmd.command with
    | .DELETE => cmd.key ∈ E ∧ cmd.noReply = false
    | .FLUSH_ALL => ¬ AllExpired g.now cmd.exptime E m
    | _ => False

namespace Text

theorem modifyHandler_skips (body : KeyRef → Object → Session → Bool × Object × Session) :
    Skips g (Text.modifyHandler g cmd body) := by
  intro k o σ he
  unfold Text.modifyHandler
  rw [not_lockedByOther_of_expired he, if_neg Bool.false_ne_true, if_pos he]

theorem touchHandler_skips : Skips g (Text.touchHandler g cmd) := by
  intro k o σ he
  unfold Text.touchHandler
  rw [if_pos he]

theorem lockHandler_skips : Skips g (Text.lockHandler g) := by
  intro k o σ he
  unfold Text.lockHandler
  rw [if_pos he]

/-- Unlike its binary namesake, UNLOCK has ONE answer, to all objects that it does not unlock. -/
theorem unlockOneHandler_skips (hctx : g.ctx ≠ -1) (deref : Nat → Option Key) :
    Skips g (Text.unlockOneHandler g deref) := by
  intro k o σ he
  unfold Text.unlockOneHandler
  rw [not_lockedBySelf_of_expired he hctx]
  rfl

theorem getHandler_skips : Skips g (Text.getHandler g cmd) := by
  intro k o σ he
  unfold Text.getHandler
  rw [if_pos he]

section

variable {g : Env} {cmd : TextRequest} {held : Nat → Option (Int × List Nat)} {c : Nat} {E : List Key}
  {m m' : HashMap Object} {σ : Session}

/-- SET, ADD and REPLACE. -/
theorem set_indistinct (h : Thin g.now σ.flushTime E m m') (hlen : cmd.key.length ≤ MAX_KEY_LENGTH) :
    Indistinct g.now
      (applyOr m cmd.key (Text.setHandler g cmd)
        (if cmd.command ≠ .REPLACE then some (Text.setCreator g cmd) else none)
        (fun σ => σ.textUnlessNoReply cmd .NOT_STORED) σ)
      (applyOr m' cmd.key (Text.setHandler g cmd)
        (if cmd.command ≠ .REPLACE then some (Text.setCreator g cmd) else none)
        (fun σ => σ.textUnlessNoReply cmd .NOT_STORED) σ) := by
  by_cases hk : cmd.key ∈ E
  · obtain ⟨p, hp, he⟩ := h.dead cmd.key hk
    by_cases hr : cmd.command = .REPLACE
    · have hf : Text.setHandler g cmd (itemRef p) p.val σ = .ok (false, p.val, σ) := by
        unfold Text.setHandler
        rw [not_lockedByOther_of_expired he, if_neg Bool.false_ne_true, if_pos he, if_pos hr]
      rw [if_neg (not_not.mpr hr), applyOr_talk hp hf, applyOr_absent (h.gone cmd.key hk)]
      exact h.alike (.refl _) (Chat.textUnlessNoReply σ cmd _).flushTime
    · have hf : Text.setHandler g cmd (itemRef p) p.val σ = .ok (Text.store g cmd (itemRef p) p.val σ) := by
        unfold Text.setHandler
        rw [not_lockedByOther_of_expired he, if_neg Bool.false_ne_true, if_pos he, if_neg hr]
      have hlock := Object.unlocked_of_expired he
      rw [if_pos hr]
      refine applyOr_stores h hk hp hf ((Akin.refl (σ.textUnlessNoReply cmd .STORED)).repl _ _) ?_
        hlock rfl (Chat.textUnlessNoReply σ cmd _).flushTime
      exact (Object.item_set ..).trans (Object.item_new ..).symm
  · refine applyOr_kept h hk (Text.setHandler_lawful g m.deref cmd) (fun _ _ => rfl) ?_
      fun σ => .textUnlessNoReply σ cmd _
    intro c' hc'
    split_ifs at hc'
    · cases hc'
      exact ⟨Text.setCreator_lawful g cmd hlen, fun _ _ _ => rfl⟩
    · cases hc'

/-- DELETE tells an expired object from an absent one, unless it is not to reply. -/
theorem delete_indistinct_iff (hctx : g.ctx ≠ -1) (h : Thin g.now σ.flushTime E m m')
    (hinv : TableInv g held c (m, σ)) :
    Indistinct g.now
        (removeOr m cmd.key (Text.deletePred g cmd m.deref)
          (fun σ => σ.textUnlessNoReply cmd .NOT_FOUND) σ)
        (removeOr m' cmd.key (Text.deletePred g cmd m'.deref)
          (fun σ => σ.textUnlessNoReply cmd .NOT_FOUND) σ)
      ↔ ¬ (cmd.key ∈ E ∧ cmd.noReply = false) := by
  by_cases hk : cmd.key ∈ E
  · obtain ⟨p, hp, he⟩ := h.dead cmd.key hk
    have hgone := h.gone cmd.key hk
    have hpred : Text.deletePred g cmd m.deref cmd.key p.val σ
        = .ok (true, p.val, (σ.textUnlessNoReply cmd .DELETED).replDelete cmd.key) := by
      unfold Text.deletePred
      rw [not_lockedByOther_of_expired he, not_lockedBySelf_of_expired he hctx,
        if_neg Bool.false_ne_true, if_neg Bool.false_ne_true]
    unfold removeOr HashMap.removeIf
    rw [hp, hgone]
    dsimp only
    rw [hpred]
    unfold Session.textUnlessNoReply
    cases hq : cmd.noReply with
    | false =>
      refine iff_of_false ?_ (by simp [hk])
      refine not_indistinct ⟨_, rfl, rfl⟩ ⟨_, rfl, rfl⟩ ?_
      simp [Reply.sansCas, TextReply.sansCas]
    | true =>
      refine iff_of_true ?_ (by simp)
      refine h.alike_of_change cmd.key (fun k hkk => m.find_erase_of_ne hp hkk) (fun k hkk => rfl) ?_
        ⟨rfl, rfl, rfl, rfl⟩ rfl
      rw [m.find_erase_self hp, hgone]
  · refine iff_of_true ?_ fun hn => hk hn.1
    refine removeOr_kept h hk (fun o => Text.deletePred_run g cmd m.deref o σ) (fun p hp => ?_)
      fun σ => .textUnlessNoReply σ cmd _
    unfold Text.deletePred
    rw [h.removeLock hinv hk hp]

end

/-- A multi-key get goes through both stores in step. -/
theorem getLoop_thin {E : List Key} {t : Int} (ks : List Key) : ∀ {m m' : HashMap Object} {σ : Session},
    Thin g.now t E m m' → σ.flushTime = t →
      (∃ m1 m1' σ1, Text.getLoop g cmd ks m σ = .ok (m1, σ1) ∧ Text.getLoop g cmd ks m' σ = .ok (m1', σ1) ∧
        Thin g.now t E m1 m1' ∧ σ1.flushTime = t) ∨
      ∃ e, Text.getLoop g cmd ks m σ = .error e ∧ Text.getLoop g cmd ks m' σ = .error e := by
  induction ks with
  | nil =>
    intro m m' σ h ht
    exact .inl ⟨m, m', σ, rfl, rfl, h, ht⟩
  | cons k ks ih =>
    intro m m' σ h ht
    rw [Text.getLoop, Text.getLoop]
    by_cases hk : k ∈ E
    · obtain ⟨p, hp, he⟩ := h.dead k hk
      rw [HashMap.apply_found hp, getHandler_skips g cmd _ _ σ (ht ▸ he),
        HashMap.apply_absent (h.gone k hk)]
      dsimp only
      rw [m.write_val hp]
      exact ih h ht
    · have hfind := h.kept k hk
      cases hp : m.find k with
      | none =>
        rw [HashMap.apply_absent hp, HashMap.apply_absent (hfind.trans hp)]
        exact ih h ht
      | some p =>
        rw [HashMap.apply_found hp, HashMap.apply_found (hfind.trans hp)]
        cases hr : Text.getHandler g cmd (itemRef p) p.val σ with
        | error e => exact .inr ⟨e, rfl, rfl⟩
        | ok res =>
          obtain ⟨b, o, σ1⟩ := res
          have hlaw : HRun g m.deref (itemRef p) false (p.val, σ)
              (Text.getHandler g cmd (itemRef p) p.val σ) :=
            Text.getHandler_lawful g m.deref cmd (itemRef p) p.val σ
          rw [hr] at hlaw
          exact ih (h.write hk hp o) (hlaw.flushTime.trans ht)

end Text

end

/-- **When a text command notices that GC has run.** -/
theorem cmdText_indistinct_iff {g : Env} {cmd : TextRequest} {held : Nat → Option (Int × List Nat)}
    {c : Nat} {E : List Key} {m : HashMap Object} {σ : Session} (hctx : g.ctx ≠ -1)
    (hinv : TableInv g held c (m, σ)) (hE : AllExpired g.now σ.flushTime E m) :
    Indistinct g.now (cmdText g cmd m σ) (cmdText g cmd (collect E m) σ) ↔ ¬ cmd.Notices g m E := by
  have h := thin_collect hE
  have hquiet : ∀ r (σ : Session), Chat σ (σ.textUnlessNoReply cmd r) :=
    fun r σ => .textUnlessNoReply σ cmd r
  have htalk : ∀ {σ1}, Chat σ σ1 → Indistinct g.now (.ok (m, σ1)) (.ok (collect E m, σ1)) :=
    fun hc => h.alike (.refl _) hc.flushTime
  unfold cmdText TextRequest.Notices
  cases hv : cmd.valid with
  | false => exact iff_of_true (htalk (.text σ _)) fun hn => Bool.false_ne_true hn.1
  | true =>
    have hvalid : ¬ (! true) = true := by decide
    rw [if_neg hvalid, if_neg hvalid]
    have hset : Indistinct g.now
        (if cmd.key.length > MAX_KEY_LENGTH then .ok (m, σ.text .ERROR)
        else if cmd.data.length > g.config.maxDataSize then .ok (m, σ.text .ERROR)
        else applyOr m cmd.key (Text.setHandler g cmd)
          (if cmd.command ≠ .REPLACE then some (Text.setCreator g cmd) else none)
          (fun σ => σ.textUnlessNoReply cmd .NOT_STORED) σ)
        (if cmd.key.length > MAX_KEY_LENGTH then .ok (collect E m, σ.text .ERROR)
        else if cmd.data.length > g.config.maxDataSize then .ok (collect E m, σ.text .ERROR)
        else applyOr (collect E m) cmd.key (Text.setHandler g cmd)
          (if cmd.command ≠ .REPLACE then some (Text.setCreator g cmd) else none)
          (fun σ => σ.textUnlessNoReply cmd .NOT_STORED) σ) := by
      by_cases hk : cmd.key.length > MAX_KEY_LENGTH
      · rw [if_pos hk, if_pos hk]
        exact htalk (.text σ _)
      by_cases hd : cmd.data.length > g.config.maxDataSize
      · rw [if_neg hk, if_neg hk, if_pos hd, if_pos hd]
        exact htalk (.text σ _)
      rw [if_neg hk, if_neg hk, if_neg hd, if_neg hd]
      exact Text.set_indistinct h (Nat.not_lt.mp hk)
    cases hcmd : cmd.command with
    | SET | ADD | REPLACE =>
      rw [hcmd] at hset
      exact iff_of_true hset fun hn => hn.2
    | APPEND =>
      exact iff_of_true (applyOr_skips h (Text.concatHandler_lawful g m.deref cmd Object.append_cas_lock)
        (Text.modifyHandler_skips g cmd _) (fun _ _ _ => rfl) (hquiet _)) fun hn => hn.2
    | PREPEND =>
      exact iff_of_true (applyOr_skips h (Text.concatHandler_lawful g m.deref cmd Object.prepend_cas_lock)
        (Text.modifyHandler_skips g cmd _) (fun _ _ _ => rfl) (hquiet _)) fun hn => hn.2
    | CAS =>
      exact iff_of_true (applyOr_skips h (Text.casHandler_lawful g m.deref cmd)
        (Text.modifyHandler_skips g cmd _) (fun _ _ _ => rfl) (hquiet _)) fun hn => hn.2
    | INCR | DECR =>
      exact iff_of_true (applyOr_skips h
        (Text.incdecHandler_lawful g m.deref cmd fun _ _ _ _ => Object.renumber_cas_lock)
        (Text.modifyHandler_skips g cmd _) (fun _ _ _ => rfl) (hquiet _)) fun hn => hn.2
    | TOUCH =>
      exact iff_of_true (applyOr_skips h (Text.touchHandler_lawful (n := false) g m.deref cmd)
        (Text.touchHandler_skips g cmd) (fun _ _ _ => rfl) (hquiet _)) fun hn => hn.2
    | DELETE =>
      exact (Text.delete_indistinct_iff hctx h hinv).trans (not_congr ⟨fun hn => ⟨rfl, hn⟩, And.right⟩)
    | LOCK =>
      exact iff_of_true (applyOr_skips h (Text.lockHandler_lawful (n := false) g m.deref)
        (Text.lockHandler_skips g) (fun _ _ _ => rfl) fun σ => .text σ _) fun hn => hn.2
    | UNLOCK =>
      refine iff_of_true (applyOr_skips h (Text.unlockOneHandler_lawful (n := false) g m.deref)
        (Text.unlockOneHandler_skips g hctx m.deref) (fun p hk hp => ?_) fun σ => .text σ _) fun hn => hn.2
      unfold Text.unlockOneHandler
      rw [h.release hinv hk hp]
    | UNLOCK_ALL =>
      exact iff_of_true (unlockAll_indistinct h hinv _ fun σ => .text σ _) fun hn => hn.2
    | GET | GETS =>
      refine iff_of_true ?_ fun hn => hn.2
      rcases Text.getLoop_thin g cmd cmd.keys h rfl with
        ⟨m1, m1', σ1, h1, h1', hthin, ht⟩ | ⟨e, h1, h1'⟩
      · simp only [h1, h1']
        exact hthin.alike (.refl _) ht
      · simp only [h1, h1']
        rfl
    | KEYS =>
      refine iff_of_true (foreach_indistinct hE (fun k o σ he => ?_) (fun k o σ σ' hr => ?_)
        fun σ => .text σ _) fun hn => hn.2
      · unfold Text.keysPred
        rw [if_pos he]
      · rcases Text.keysPred_chat g cmd k o σ with ⟨σ1, hok, hc⟩ | ⟨herr, -⟩
        · rw [hr] at hok
          exact Except.ok.inj hok ▸ hc
        · rw [hr] at herr
          cases herr
    | SLABS | VERSION | UNKNOWN => exact iff_of_true (htalk (.text σ _)) fun hn => hn.2
    | STATS => exact iff_of_true (htalk ((Chat.text σ _).trans (.text _ _))) fun hn => hn.2
    | FLUSH_ALL =>
      refine (flush_indistinct_iff h (t := cmd.exptime) ?_).trans ?_
      · exact (Chat.textUnlessNoReply { σ with flushTime := cmd.exptime } cmd _).flushTime
      · exact ⟨fun hE' hn => hn.2 hE', fun hn => not_not.mp fun hE' => hn ⟨rfl, hE'⟩⟩
    | VERBOSITY =>
      have hverb : Chat σ { σ with verbosity := cmd.verbosity } := ⟨rfl, rfl, rfl, rfl, id⟩
      exact iff_of_true (htalk (hverb.trans (.textUnlessNoReply _ cmd _))) fun hn => hn.2
    | QUIT =>
      exact iff_of_true (unlockAll_indistinct h hinv (fun σ => { σ with closing := true })
        fun _ => ⟨rfl, rfl, rfl, rfl, fun _ => rfl⟩) fun hn => hn.2

/-! ## The server -/

/-- When a command notices that GC has removed the expired objects of `E`. -/
def Cmd.Notices (g : Env) (m : HashMap Object) (E : List Key) : Cmd → Prop
  | .bin r => r.Notices g m E
  | .text r => r.Notices g m E

theorem exec_indistinct_iff {g : Env} {held : Nat → Option (Int × List Nat)} {c : Nat} {E : List Key}
    {m : HashMap Object} {σ : Session} (hctx : g.ctx ≠ -1) (hinv : TableInv g held c (m, σ))
    (hE : AllExpired g.now σ.flushTime E m) (r : Cmd) :
    Indistinct g.now (r.exec g m σ) (r.exec g (collect E m) σ) ↔ ¬ r.Notices g m E := by
  cases r with
  | bin r => exact cmdBin_indistinct_iff hctx hinv hE
  | text r => exact cmdText_indistinct_iff hctx hinv hE

/-- A connection, up to the cas values it was told. -/
def Conn.shown (conn : Conn) : Conn :=
  { conn with out := conn.out.map Reply.sansCas, sent := conn.sent.map Reply.sansCas }

namespace Server

/-- The server, had GC just removed the objects of `E`. -/
def collected (s : Server) (E : List Key) : Server := { s with hash := collect E s.hash }

/-- Two states no client can tell apart: every connection has been told the same, up to cas values, and
    holds the same locks; every key has the same contents, unless expired, and the same lock. -/
structure LooksLike (s s' : Server) : Prop where
  conns : ∀ c, (s.conns c).map Conn.shown = (s'.conns c).map Conn.shown
  keys : ∀ k, seen s.now s.flushTime (s.hash.find k) = seen s'.now s'.flushTime (s'.hash.find k)

/-- Two outcomes of a step. -/
def SameOutcome : Except Err Server → Except Err Server → Prop
  | .ok s, .ok s' => s.LooksLike s'
  | .error e, .error e' => e = e'
  | _, _ => False

theorem commit_looksLike_iff (s : Server) (E : List Key) (c : Nat) (conn : Conn) (w w' : World) :
    (s.commit c conn w).LooksLike ((s.collected E).commit c conn w') ↔ Alike s.now w w' := by
  constructor
  · intro h
    have hself : (conn.after w).shown = (conn.after w').shown := by
      have hc := h.conns c
      rwa [commit_conns_self, commit_conns_self, Option.map_some, Option.map_some, Option.some.injEq] at hc
    have hvalid : (! w.2.closing) = ! w'.2.closing := congrArg Conn.valid hself
    refine ⟨congrArg Conn.out hself, congrArg Conn.locks hself, ?_, h.keys⟩
    rw [← Bool.not_not w.2.closing, hvalid, Bool.not_not]
  · intro h
    refine ⟨fun d => ?_, h.keys⟩
    by_cases hd : d = c
    · -- the same replies get through, since the connection is the same
      have hsent : (conn.delivered w).map Reply.sansCas = (conn.delivered w').map Reply.sansCas := by
        unfold Conn.delivered
        split_ifs
        · rw [List.map_drop, List.map_drop, h.out]
        · rfl
      rw [hd, commit_conns_self, commit_conns_self, Option.map_some, Option.map_some]
      unfold Conn.shown Conn.after
      dsimp only
      rw [h.out, h.locks, h.closing, List.map_append, List.map_append, hsent]
    · show (Function.update s.conns c _ d).map _ = (Function.update s.conns c _ d).map _
      rw [Function.update_of_ne hd, Function.update_of_ne hd]

end Server

/-- **Exactly these commands notice whether GC has removed expired objects.**  In every state the server
    can reach, for every set `E` of keys with expired objects, every connection and every command. -/
theorem gc_unobservable_iff {s₀ s : Server} (hb : Boot s₀) {es : List Event}
    (hfd : ∀ c fd, Event.accept c fd ∈ es → 0 ≤ fd) (hrun : run Server.step s₀ es = .ok s)
    {E : List Key} (hE : AllExpired s.now s.flushTime E s.hash) {c : Nat} {conn : Conn}
    (hc : s.conns c = some conn) (slaves : List Nat) (r : Cmd) :
    Server.SameOutcome (s.step (.cmd c slaves r)) ((s.collected E).step (.cmd c slaves r))
      ↔ ¬ r.Notices (s.env conn.fd) s.hash E := by
  have hagree : RecordsAgree s := by
    refine run_preserves_of_mem (C := fun e => ∀ c fd, e = Event.accept c fd → 0 ≤ fd)
      (fun s e s' h hf hs => h.step hf hs) (fun e he c fd hefd => ?_)
      (LockInv.of_boot hb).toRecordsAgree hrun
    exact hfd c fd (hefd ▸ he)
  rw [← exec_indistinct_iff (hagree.fd_ne' hc) (hagree.tableInv hc slaves) hE r]
  have hleft : s.step (.cmd c slaves r) = s.runCmd c conn conn.fd slaves r := by
    simp only [Server.step, hc]
  have hright : (s.collected E).step (.cmd c slaves r)
      = (s.collected E).runCmd c conn conn.fd slaves r := by
    have hc' : (s.collected E).conns c = some conn := hc
    simp only [Server.step, hc']
  rw [hleft, hright]
  have hexec : r.exec ((s.collected E).env conn.fd) (s.collected E).hash
      ((s.collected E).session conn slaves)
      = r.exec (s.env conn.fd) (collect E s.hash) (s.session conn slaves) := rfl
  unfold Server.runCmd
  rw [hexec]
  cases r.exec (s.env conn.fd) s.hash (s.session conn slaves) with
  | error e =>
    cases r.exec (s.env conn.fd) (collect E s.hash) (s.session conn slaves) with
    | error e' => exact Iff.rfl
    | ok w' => exact Iff.rfl
  | ok w =>
    cases r.exec (s.env conn.fd) (collect E s.hash) (s.session conn slaves) with
    | error e' => exact Iff.rfl
    | ok w' => exact s.commit_looksLike_iff E c conn w w'

/-- A client stores "x" until 200; then it is 300. -/
def expiredRun : List Event :=
  [.accept 0 5,
    .cmd 0 []
      (.bin { command := .Set, status := .OK, key := [120], key_le := x_le, data := [1], exptime := 200 }),
    .tick 300]

/-- A Get does not notice. -/
theorem get_after_expiredRun : ∃ s, run Server.step Server.oneBucket expiredRun = .ok s ∧
    AllExpired s.now s.flushTime [[120]] s.hash ∧
    Server.SameOutcome (s.step (.cmd 0 [] (.bin { command := .Get, status := .OK, key := [120] })))
      ((s.collected [[120]]).step (.cmd 0 [] (.bin { command := .Get, status := .OK, key := [120] }))) := by
  have hfd : ∀ c fd, Event.accept c fd ∈ expiredRun → 0 ≤ fd := by
    intro c fd h
    unfold expiredRun at h
    simp at h
    omega
  have hE : ∀ {s : Server}, run Server.step Server.oneBucket expiredRun = .ok s →
      AllExpired s.now s.flushTime [[120]] s.hash := by
    intro s hs k hk
    obtain rfl := Except.ok.inj hs
    obtain rfl := List.mem_singleton.mp hk
    exact ⟨_, rfl, rfl⟩
  have hboot : Boot Server.oneBucket := boot_init ..
  obtain ⟨s, conn, hs, hc⟩ : ∃ s conn, run Server.step Server.oneBucket expiredRun = .ok s ∧
    s.conns 0 = some conn := ⟨_, _, rfl, rfl⟩
  exact ⟨s, hs, hE hs, (gc_unobservable_iff hboot hfd hs (hE hs) hc [] _).mpr fun hn => hn.2⟩

/-- LaG does: it locks the expired object and returns it, and does not find it once it is removed. -/
theorem lag_finds_expired : ∃ s t t', run Server.step Server.oneBucket expiredRun = .ok s ∧
    AllExpired s.now s.flushTime [[120]] s.hash ∧
    s.step (.cmd 0 [] (.bin { command := .LaG, status := .OK, key := [120], exptime := EXPTIME_NONE }))
      = .ok t ∧
    (s.collected [[120]]).step
      (.cmd 0 [] (.bin { command := .LaG, status := .OK, key := [120], exptime := EXPTIME_NONE }))
      = .ok t' ∧
    (t.conns 0).map (fun conn => conn.out.drop 1) = some [.binary ⟨0x46, [], .get 0 [1] 1 none⟩] ∧
    (t'.conns 0).map (fun conn => conn.out.drop 1) = some [.binary ⟨0x46, [], .error .NotFound⟩] := by
  refine ⟨_, _, _, rfl, ?_, rfl, rfl, rfl, rfl⟩
  intro k hk
  obtain rfl := List.mem_singleton.mp hk
  exact ⟨_, rfl, rfl⟩

end Yrmcds.Memcache
