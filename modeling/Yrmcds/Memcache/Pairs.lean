/-
  The two protocols, command by command.

  `cmd_text` and `cmd_bin` (src/memcache/sockets.cpp) were written separately, each with its own order of
  size, lock, expiration and cas tests.  Twelve text commands have a binary form; `Pair t b` says that
  `b` asks for what `t` asks for, and `Same` that two results are: one store, one list of locks, one list
  of messages to the slaves — everything of the session but the output — and a reply that tells of
  success in the one exactly when it does in the other.

  Both interpreters hand a closure to the hash map and reply once more when it returns false, and they
  differ in WHERE a failure is reported: the text handler returns false where the binary one sends the
  error itself.  `finish` is the closure together with that last reply; the handlers are compared there,
  and one lemma carries the comparison over `apply`, one over `remove_if`.

  There is ONE difference.  The text command `cas` stores whatever it is given; Set, with or without a
  cas value, refuses data longer than `max_data_size`.
-/
import Yrmcds.Memcache.Server

namespace Yrmcds.Memcache

open ChainTable

/-- The lines that tell of success. -/
def TextReply.succeeds : TextReply → Bool
  | .OK | .STORED | .TOUCHED | .DELETED | .NUMBER _ => true
  | _ => false

/-- A packet tells of success unless it is an error packet. -/
def BinaryBody.succeeds : BinaryBody → Bool
  | .error _ => false
  | _ => true

/-- The binary form of a text command. -/
def TextCommand.binary : TextCommand → Option BinaryCommand
  | .SET | .CAS => some .Set
  | .ADD => some .Add
  | .REPLACE => some .Replace
  | .APPEND => some .Append
  | .PREPEND => some .Prepend
  | .INCR => some .Increment
  | .DECR => some .Decrement
  | .DELETE => some .Delete
  | .TOUCH => some .Touch
  | .LOCK => some .Lock
  | .UNLOCK => some .Unlock
  | _ => none

/-- The binary request `b` asks for what the text request `t` asks for.  Only `cas` carries a cas value,
    and it is not the 0 that means "any"; Increment and Decrement are told not to create. -/
structure Pair (t : TextRequest) (b : BinaryRequest) : Prop where
  valid : t.valid = true
  status : b.status = .OK
  command : t.command.binary = some b.command
  key : b.key = t.key
  flags : b.flags = t.flags
  data : b.data = t.data
  value : b.value = t.value
  exptime : b.exptime = if t.command = .INCR ∨ t.command = .DECR then EXPTIME_NONE else t.exptime
  cas : b.casUnique = if t.command = .CAS then t.casUnique else 0
  cas_ne : t.command = .CAS → t.casUnique ≠ 0

/-- Two sessions that began as `σ` and have both replied: they differ in the output only, and there in
    one reply each.  After a `noreply` the text session need not have one. -/
structure Parallel (noReply : Bool) (σ t b : Session) : Prop where
  same : { t with out := [] } = { b with out := [] }
  replies : noReply = false → ∃ r p, t.out = σ.out ++ [.text r] ∧ b.out = σ.out ++ [.binary p] ∧
    r.succeeds = p.body.succeeds

/-- Two results are the same: the same value beside sessions that are parallel, or the same exception. -/
inductive Same {α : Type} (noReply : Bool) (σ : Session) :
    Except Err (α × Session) → Except Err (α × Session) → Prop
  | ok (a : α) {t b : Session} (h : Parallel noReply σ t b) : Same noReply σ (.ok (a, t)) (.ok (a, b))
  | error (e : Err) : Same noReply σ (.error e) (.error e)

/-! ## Replies that make sessions parallel -/

namespace Parallel

variable {nr : Bool} {σ σ' t b : Session}

/-- What was done to `σ` before both replied does not matter, if it left the output alone. -/
theorem of_out (h : Parallel nr σ' t b) (ho : σ'.out = σ.out) : Parallel nr σ t b where
  same := h.same
  replies := ho ▸ h.replies

/-- A message to the slaves goes out of both. -/
theorem repl (h : Parallel nr σ t b) (msg : ReplMsg) : Parallel nr σ (t.repl msg) (b.repl msg) where
  same := by
    obtain ⟨⟨l, s, o, c, lg, f, v⟩, ⟨l', s', o', c', lg', f', v'⟩⟩ := t, b
    obtain ⟨⟩ := h.same
    rfl
  replies := h.replies

/-- A line in the one and a packet in the other. -/
theorem text (nr : Bool) (σ : Session) (cmd : BinaryRequest) {r : TextReply} {body : BinaryBody}
    (h : r.succeeds = body.succeeds) : Parallel nr σ (σ.text r) (σ.bin cmd body) where
  same := rfl
  replies _ := ⟨r, _, rfl, rfl, h⟩

theorem textUnlessNoReply (σ : Session) (t : TextRequest) (cmd : BinaryRequest) {r : TextReply}
    {body : BinaryBody} (h : r.succeeds = body.succeeds) :
    Parallel t.noReply σ (σ.textUnlessNoReply t r) (σ.bin cmd body) := by
  unfold Session.textUnlessNoReply
  split
  · next hn => exact ⟨rfl, fun h => nomatch hn.symm.trans h⟩
  · exact Parallel.text _ σ cmd h

end Parallel

/-! ## A handler and the reply to its verdict -/

/-- The result of a handler, followed by `miss` if it returned false. -/
def finish (miss : Session → Session) : Except Err (Bool × Object × Session) → Except Err (Object × Session)
  | .ok (true, o, σ) => .ok (o, σ)
  | .ok (false, o, σ) => .ok (o, miss σ)
  | .error e => .error e

/-- What `apply` does without an object: create one, or `miss`. -/
def absent (c : Option Creator) (miss : Session → Session) (k : KeyRef) (σ : Session) :
    Option Object × Session :=
  match c with
  | some c => (some (c k σ).1, (c k σ).2)
  | none => (none, miss σ)

section Carry

variable {nr : Bool} {m : HashMap Object} {key : Key} {σ : Session}

theorem applyOr_of_found {p : Cell Key Object} (hp : m.find key = some p) (h : Handler) (c : Option Creator)
    (miss : Session → Session) :
    applyOr m key h c miss σ
      = (finish miss (h (itemRef p) p.val σ)).map fun r => (m.write p.addr r.1, r.2) := by
  unfold applyOr
  rw [HashMap.apply_found hp]
  rcases h (itemRef p) p.val σ with e | ⟨_ | _, o, σ'⟩ <;> rfl

theorem applyOr_of_absent (hp : m.find key = none) (h : Handler) (c : Option Creator)
    (miss : Session → Session) :
    applyOr m key h c miss σ = .ok (((absent c miss ⟨m.newAddr, key⟩ σ).1.map (m.push key)).getD m,
      (absent c miss ⟨m.newAddr, key⟩ σ).2) := by
  unfold applyOr
  cases c with
  | none => rw [HashMap.apply_absent hp]; rfl
  | some c => rw [HashMap.apply_create hp]; rfl

/-- What became of the map: an object was written back, or one was put in its place or none. -/
theorem applyOr_cases {h : Handler} {c : Option Creator} {miss : Session → Session} {w : World}
    (hw : applyOr m key h c miss σ = .ok w) :
    (∃ p r, m.find key = some p ∧ finish miss (h (itemRef p) p.val σ) = .ok r ∧
      w = (m.write p.addr r.1, r.2)) ∨
    (m.find key = none ∧ w = (((absent c miss ⟨m.newAddr, key⟩ σ).1.map (m.push key)).getD m,
      (absent c miss ⟨m.newAddr, key⟩ σ).2)) := by
  cases hp : m.find key with
  | none =>
    rw [applyOr_of_absent hp] at hw
    exact .inr ⟨rfl, (Except.ok.inj hw).symm⟩
  | some p =>
    rw [applyOr_of_found hp] at hw
    cases hr : finish miss (h (itemRef p) p.val σ) with
    | error e => rw [hr] at hw; cases hw
    | ok r =>
      rw [hr] at hw
      exact .inl ⟨p, r, rfl, hr, (Except.ok.inj hw).symm⟩

/-- The same follows from the same, whatever is made of the value. -/
theorem Same.map {α β : Type} {x y : Except Err (α × Session)} (h : Same nr σ x y) (f : α → β) :
    Same nr σ (x.map fun r => (f r.1, r.2)) (y.map fun r => (f r.1, r.2)) := by
  cases h with
  | ok a h => exact Same.ok (f a) h
  | error e => exact Same.error e

/-- Handlers that do the same with every object, and with none, do the same in the map. -/
theorem applyOr_same {ht hb : Handler} {ct cb : Option Creator} {mt mb : Session → Session}
    (hfound : ∀ k o, Same nr σ (finish mt (ht k o σ)) (finish mb (hb k o σ)))
    (habsent : ∀ k, Same nr σ (.ok (absent ct mt k σ)) (.ok (absent cb mb k σ))) :
    Same nr σ (applyOr m key ht ct mt σ) (applyOr m key hb cb mb σ) := by
  cases hp : m.find key with
  | some p =>
    rw [applyOr_of_found hp, applyOr_of_found hp]
    exact (hfound (itemRef p) p.val).map (m.write p.addr)
  | none =>
    rw [applyOr_of_absent hp, applyOr_of_absent hp]
    exact (habsent ⟨m.newAddr, key⟩).map fun o => (o.map (m.push key)).getD m

end Carry

/-! ## The handlers, pair by pair -/

section Handlers

variable {g : Env} {t : TextRequest} {b : BinaryRequest} (h : Pair t b)
include h

theorem Pair.exptime_eq (hi : t.command ≠ .INCR) (hd : t.command ≠ .DECR) : b.exptime = t.exptime := by
  rw [h.exptime, if_neg (by rintro (hc | hc); exacts [hi hc, hd hc])]

theorem Pair.cas_zero (hc : t.command ≠ .CAS) : b.casUnique = 0 := by rw [h.cas, if_neg hc]

/-- None of the binary forms is a quiet one. -/
theorem Pair.quiet : b.quiet = false := by
  have hc := h.command
  unfold BinaryRequest.quiet
  revert hc
  generalize t.command = c
  generalize b.command = d
  cases c <;> intro hc <;> simp only [TextCommand.binary, Option.some.injEq, reduceCtorEq] at hc <;>
    subst hc <;> decide

omit h in
/-- A cas value of 0 is no condition. -/
theorem casCheck_zero (hz : b.casUnique = 0) (body : KeyRef → Object → Session → Bool × Object × Session) :
    casCheck b body = body := by
  funext k o σ
  unfold casCheck
  rw [if_neg fun hne => hne.1 hz]

theorem Pair.binUnlessQuiet (σ : Session) (body : BinaryBody) :
    σ.binUnlessQuiet b body = σ.bin b body := by
  unfold Session.binUnlessQuiet
  rw [if_neg (by rw [h.quiet]; decide)]

/-- Success, reported unless asked not to. -/
theorem Pair.reply (σ : Session) {r : TextReply} {body : BinaryBody} (hr : r.succeeds = body.succeeds) :
    Parallel t.noReply σ (σ.textUnlessNoReply t r) (σ.binUnlessQuiet b body) := by
  rw [h.binUnlessQuiet]
  exact Parallel.textUnlessNoReply σ t b hr

/-- The data goes into an object in the same way. -/
theorem store_same (hi : t.command ≠ .INCR) (hd : t.command ≠ .DECR) (mt mb : Session → Session)
    (k : KeyRef) (o : Object) (σ : Session) :
    Same t.noReply σ (finish mt (.ok (Text.store g t k o σ))) (finish mb (.ok (setStore g b k o σ))) := by
  unfold Text.store setStore
  rw [h.data, h.flags, h.exptime_eq hi hd]
  exact Same.ok _ ((h.reply σ rfl).repl _)

theorem setCreator_same (hi : t.command ≠ .INCR) (hd : t.command ≠ .DECR) (mt mb : Session → Session)
    (k : KeyRef) (σ : Session) :
    Same t.noReply σ (.ok (absent (some (Text.setCreator g t)) mt k σ))
      (.ok (absent (some (setCreator g b)) mb k σ)) := by
  unfold absent Text.setCreator setCreator
  rw [h.data, h.flags, h.exptime_eq hi hd]
  exact Same.ok _ ((h.reply σ rfl).repl _)

theorem Pair.replace_iff : t.command = .REPLACE ↔ b.command = .Replace ∨ b.command = .ReplaceQ := by
  have hc := h.command
  cases ht : t.command <;> rw [ht] at hc <;> simp [TextCommand.binary] at hc <;> simp [← hc]

theorem Pair.add_iff : t.command = .ADD ↔ b.command = .Add ∨ b.command = .AddQ := by
  have hc := h.command
  cases ht : t.command <;> rw [ht] at hc <;> simp [TextCommand.binary] at hc <;> simp [← hc]

/-- SET, ADD and REPLACE.  A text handler that returns false leaves the reply to the caller of `apply`;
    the binary one has sent its error. -/
theorem setHandler_same (hi : t.command ≠ .INCR) (hd : t.command ≠ .DECR) (hc : t.command ≠ .CAS)
    (k : KeyRef) (o : Object) (σ : Session) :
    Same t.noReply σ (finish (fun σ => σ.textUnlessNoReply t .NOT_STORED) (Text.setHandler g t k o σ))
      (finish (notFound b) (setHandler g b k o σ)) := by
  have hz : b.casUnique = 0 := h.cas_zero hc
  unfold Text.setHandler setHandler
  rw [casCheck_zero hz]
  by_cases hl : o.lockedByOther g.ctx
  · rw [if_pos hl, if_pos hl]
    exact Same.ok _ (Parallel.textUnlessNoReply σ t b rfl)
  · rw [if_neg hl, if_neg hl]
    by_cases he : o.expired g.now σ.flushTime
    · rw [if_pos he, if_pos he]
      by_cases hr : t.command = .REPLACE
      · rw [if_pos hr, if_pos (.inr (h.replace_iff.mp hr))]
        exact Same.ok _ (Parallel.textUnlessNoReply σ t b rfl)
      · rw [if_neg hr, if_neg (by rintro (hne | hne); exacts [hne hz, hr (h.replace_iff.mpr hne)])]
        exact store_same h hi hd _ _ k o σ
    · rw [if_neg he, if_neg he]
      by_cases ha : t.command = .ADD
      · rw [if_pos ha, if_pos (h.add_iff.mp ha)]
        exact Same.ok _ (Parallel.textUnlessNoReply σ t b rfl)
      · rw [if_neg ha, if_neg (mt h.add_iff.mpr ha)]
        exact store_same h hi hd _ _ k o σ

/-- The commands that change an object found unlocked and live: APPEND, PREPEND, INCR and DECR. -/
theorem modifyHandler_same (hc : t.command ≠ .CAS)
    {bt bb : KeyRef → Object → Session → Bool × Object × Session}
    {miss : TextReply} (hm : miss.succeeds = false) (k : KeyRef) (o : Object) (σ : Session)
    (hbody : Same t.noReply σ (finish (fun σ => σ.textUnlessNoReply t miss) (.ok (bt k o σ)))
      (finish (notFound b) (.ok (bb k o σ)))) :
    Same t.noReply σ (finish (fun σ => σ.textUnlessNoReply t miss) (Text.modifyHandler g t bt k o σ))
      (finish (notFound b) (modifyHandler g b bb k o σ)) := by
  unfold Text.modifyHandler modifyHandler
  rw [casCheck_zero (h.cas_zero hc)]
  by_cases hl : o.lockedByOther g.ctx
  · rw [if_pos hl, if_pos hl]
    exact Same.ok _ (Parallel.textUnlessNoReply σ t b rfl)
  · rw [if_neg hl, if_neg hl]
    by_cases he : o.expired g.now σ.flushTime
    · rw [if_pos he, if_pos he]
      exact Same.ok _ (Parallel.textUnlessNoReply σ t b hm)
    · rw [if_neg he, if_neg he]
      exact hbody

theorem concatHandler_same (hc : t.command ≠ .CAS) (op : Nat → Object → Bytes → Object) (k : KeyRef)
    (o : Object) (σ : Session) :
    Same t.noReply σ
      (finish (fun σ => σ.textUnlessNoReply t .NOT_STORED) (Text.concatHandler g t op k o σ))
      (finish (notFound b) (concatHandler g b op k o σ)) := by
  refine modifyHandler_same h hc rfl k o σ ?_
  rw [h.data]
  exact Same.ok _ ((h.reply σ rfl).repl _)

theorem incdecHandler_same (hc : t.command ≠ .CAS) (op : Object → UInt64 → Option (UInt64 × Object))
    (k : KeyRef) (o : Object) (σ : Session) :
    Same t.noReply σ
      (finish (fun σ => σ.textUnlessNoReply t .NOT_FOUND) (Text.incdecHandler g t op k o σ))
      (finish (notFound b) (incdecHandler g b op k o σ)) := by
  refine modifyHandler_same h hc rfl k o σ ?_
  rw [h.value]
  rcases op o t.value with _ | ⟨n, o'⟩
  · exact Same.ok _ (Parallel.textUnlessNoReply σ t b rfl)
  · exact Same.ok _ ((h.reply σ rfl).repl _)

theorem touchHandler_same (hi : t.command ≠ .INCR) (hd : t.command ≠ .DECR) (k : KeyRef) (o : Object)
    (σ : Session) :
    Same t.noReply σ (finish (fun σ => σ.textUnlessNoReply t .NOT_FOUND) (Text.touchHandler g t k o σ))
      (finish (notFound b) (touchHandler g b k o σ)) := by
  unfold Text.touchHandler touchHandler
  rw [h.exptime_eq hi hd]
  by_cases he : o.expired g.now σ.flushTime
  · rw [if_pos he, if_pos he]
    exact Same.ok _ (Parallel.textUnlessNoReply σ t b rfl)
  · rw [if_neg he, if_neg he]
    exact Same.ok _ ((Parallel.textUnlessNoReply (σ.replTouch k.key _) t b rfl).of_out rfl)

/-- LOCK replies whatever the request says. -/
theorem lockHandler_same (k : KeyRef) (o : Object) (σ : Session) :
    Same t.noReply σ (finish (fun σ => σ.text .NOT_FOUND) (Text.lockHandler g k o σ))
      (finish (notFound b) (lockHandler g b k o σ)) := by
  unfold Text.lockHandler lockHandler
  by_cases he : o.expired g.now σ.flushTime
  · rw [if_pos he, if_pos he]
    exact Same.ok _ (Parallel.text _ σ b rfl)
  · rw [if_neg he, if_neg he]
    by_cases hl : o.locked
    · rw [if_pos hl, if_pos hl]
      exact Same.ok _ (Parallel.text _ σ b rfl)
    · rw [if_neg hl, if_neg hl]
      unfold acquire
      rcases o.lockIt g.ctx with e | o'
      · exact Same.error e
      · refine Same.ok _ ?_
        rw [h.binUnlessQuiet]
        exact (Parallel.text _ (σ.addLock k) b rfl).of_out rfl

theorem unlockOneHandler_same (deref : Nat → Option Key) (k : KeyRef) (o : Object) (σ : Session) :
    Same t.noReply σ (finish (fun σ => σ.text .NOT_LOCKED) (Text.unlockOneHandler g deref k o σ))
      (finish (notFound b) (unlockOneHandler g b deref k o σ)) := by
  unfold Text.unlockOneHandler unlockOneHandler
  by_cases hs : ! o.lockedBySelf g.ctx
  · rw [if_pos hs, if_pos hs]
    exact Same.ok _ (Parallel.text _ σ b rfl)
  · rw [if_neg hs, if_neg hs]
    unfold release
    rcases o.unlock g.ctx false with e | o'
    · exact Same.error e
    · rcases removeLock deref k.key σ.locks with e | l
      · exact Same.error e
      · refine Same.ok _ ?_
        rw [h.binUnlessQuiet]
        exact (Parallel.text _ { σ with locks := l } b rfl).of_out rfl

/-- CAS against Set with a cas value. -/
theorem casHandler_same (hc : t.command = .CAS) (k : KeyRef) (o : Object) (σ : Session) :
    Same t.noReply σ (finish (fun σ => σ.textUnlessNoReply t .NOT_FOUND) (Text.casHandler g t k o σ))
      (finish (notFound b) (setHandler g b k o σ)) := by
  have hi : t.command ≠ .INCR := by rw [hc]; decide
  have hd : t.command ≠ .DECR := by rw [hc]; decide
  have ha : ¬ (b.command = .Add ∨ b.command = .AddQ) := mt h.add_iff.mpr (by rw [hc]; decide)
  have hu : b.casUnique = t.casUnique := by rw [h.cas, if_pos hc]
  have hne : b.casUnique ≠ 0 := hu ▸ h.cas_ne hc
  unfold Text.casHandler Text.modifyHandler setHandler
  by_cases hl : o.lockedByOther g.ctx
  · rw [if_pos hl, if_pos hl]
    exact Same.ok _ (Parallel.textUnlessNoReply σ t b rfl)
  · rw [if_neg hl, if_neg hl]
    by_cases he : o.expired g.now σ.flushTime
    · rw [if_pos he, if_pos he, if_pos (.inl hne)]
      exact Same.ok _ (Parallel.textUnlessNoReply σ t b rfl)
    · rw [if_neg he, if_neg he, if_neg ha]
      unfold casCheck
      beta_reduce
      by_cases hu' : o.cas ≠ t.casUnique
      · rw [if_pos hu', if_pos ⟨hne, fun hn => hu' (hn.symm.trans hu)⟩]
        exact Same.ok _ (Parallel.textUnlessNoReply σ t b rfl)
      · rw [if_neg hu', if_neg fun hn => hn.2 (hu.trans (not_not.mp hu').symm)]
        exact store_same h hi hd _ _ k o σ

/-- DELETE: the two predicates decide the same, and `remove_if` does the same. -/
theorem delete_same (hc : t.command ≠ .CAS) (m : HashMap Object) (key : Key) (σ : Session) :
    Same t.noReply σ
      (removeOr m key (Text.deletePred g t m.deref) (fun σ => σ.textUnlessNoReply t .NOT_FOUND) σ)
      (removeOr m key (deletePred g b m.deref) (fun σ => σ.binUnlessQuiet b (.error .NotFound)) σ) := by
  unfold removeOr HashMap.removeIf
  cases hp : m.find key with
  | none => exact Same.ok _ (h.reply σ rfl)
  | some p =>
    dsimp only
    unfold Text.deletePred deletePred
    rw [h.cas_zero hc, if_neg (c := (0 : UInt64) ≠ 0 ∧ _) fun hne => hne.1 rfl]
    by_cases hl : p.val.lockedByOther g.ctx
    · rw [if_pos hl, if_pos hl]
      exact Same.ok _ (Parallel.textUnlessNoReply σ t b rfl)
    · rw [if_neg hl, if_neg hl]
      by_cases hs : p.val.lockedBySelf g.ctx
      · rw [if_pos hs, if_pos hs]
        rcases removeLock m.deref key σ.locks with e | l
        · exact Same.error e
        · have hr := h.reply { σ with locks := l }
            (show TextReply.succeeds .DELETED = BinaryBody.succeeds .success from rfl)
          exact Same.ok _ ((hr.repl (.delete key)).of_out rfl)
      · rw [if_neg hs, if_neg hs]
        exact Same.ok _ ((h.reply σ rfl).repl _)

end Handlers

/-! ## The commands -/

section Commands

variable (g : Env) {t : TextRequest} {b : BinaryRequest} (m : HashMap Object) (σ : Session)

/-- The text command `cas` would store in `o`: the object is not locked by another, not expired, and has
    the cas value asked for. -/
def CasStores (g : Env) (t : TextRequest) (o : Object) (flushTime : Int) : Prop :=
  o.lockedByOther g.ctx = false ∧ o.expired g.now flushTime = false ∧ o.cas = t.casUnique

/-- The text command `cas` is about to store more than `max_data_size` bytes. -/
def Oversized (g : Env) (t : TextRequest) (m : HashMap Object) (σ : Session) : Prop :=
  t.command = .CAS ∧ g.config.maxDataSize < t.data.length ∧
    ∃ p, m.find t.key = some p ∧ CasStores g t p.val σ.flushTime

/-- The length checks of the storage commands. -/
theorem sizeChecked_same (h : Pair t b) {x y : Except Err (HashMap Object × Session)}
    (hxy : Same t.noReply σ x y) :
    Same t.noReply σ
      (if t.key.length > MAX_KEY_LENGTH then .ok (m, σ.text .ERROR)
        else if t.data.length > g.config.maxDataSize then .ok (m, σ.text .ERROR) else x)
      (sizeChecked g b m σ y) := by
  unfold sizeChecked
  rw [h.key, h.data]
  by_cases hk : t.key.length > MAX_KEY_LENGTH
  · rw [if_pos hk, if_pos hk]
    exact Same.ok m (Parallel.text _ σ b rfl)
  · rw [if_neg hk, if_neg hk]
    by_cases hd : t.data.length > g.config.maxDataSize
    · rw [if_pos hd, if_pos hd]
      exact Same.ok m (Parallel.text _ σ b rfl)
    · rw [if_neg hd, if_neg hd]
      exact hxy

/-- All pairs but `cas`. -/
theorem exec_same (h : Pair t b) (hc : t.command ≠ .CAS) :
    Same t.noReply σ (cmdText g t m σ) (cmdBin g b m σ) := by
  have hb := h.command
  have hmiss : ∀ {r : TextReply}, r.succeeds = false → ∀ k, Same t.noReply σ
      (.ok (absent none (fun σ => σ.textUnlessNoReply t r) k σ)) (.ok (absent none (notFound b) k σ)) :=
    fun hr _ => Same.ok none (Parallel.textUnlessNoReply σ t b hr)
  cases ht : t.command <;> rw [ht] at hb <;>
    simp only [TextCommand.binary, Option.some.injEq, reduceCtorEq] at hb
  all_goals
    simp only [cmdText, cmdBin, h.valid, h.status, ht, ← hb, h.key, Bool.not_true, Bool.false_eq_true,
      if_false, ne_eq, not_true_eq_false]
  case SET =>
    rw [if_pos (h.cas_zero hc)]
    exact sizeChecked_same g m σ h (applyOr_same
      (fun k o => setHandler_same h (by rw [ht]; decide) (by rw [ht]; decide) hc k o σ)
      fun k => setCreator_same h (by rw [ht]; decide) (by rw [ht]; decide) _ _ k σ)
  case ADD =>
    rw [if_pos (h.cas_zero hc)]
    exact sizeChecked_same g m σ h (applyOr_same
      (fun k o => setHandler_same h (by rw [ht]; decide) (by rw [ht]; decide) hc k o σ)
      fun k => setCreator_same h (by rw [ht]; decide) (by rw [ht]; decide) _ _ k σ)
  case REPLACE =>
    exact sizeChecked_same g m σ h (applyOr_same
      (fun k o => setHandler_same h (by rw [ht]; decide) (by rw [ht]; decide) hc k o σ) (hmiss rfl))
  case INCR =>
    rw [if_neg (not_not.mpr (by rw [h.exptime, if_pos (.inl ht)]))]
    exact applyOr_same (fun k o => incdecHandler_same h hc _ k o σ) (hmiss rfl)
  case DECR =>
    rw [if_neg (not_not.mpr (by rw [h.exptime, if_pos (.inr ht)]))]
    exact applyOr_same (fun k o => incdecHandler_same h hc _ k o σ) (hmiss rfl)
  case TOUCH =>
    exact applyOr_same (fun k o => touchHandler_same h (by rw [ht]; decide) (by rw [ht]; decide) k o σ)
      (hmiss rfl)
  case LOCK =>
    exact applyOr_same (fun k o => lockHandler_same h k o σ) fun _ => Same.ok none (Parallel.text _ σ b rfl)
  case UNLOCK =>
    exact applyOr_same (fun k o => unlockOneHandler_same h m.deref k o σ) fun _ =>
      Same.ok none (Parallel.text _ σ b rfl)
  case APPEND => exact applyOr_same (fun k o => concatHandler_same h hc _ k o σ) (hmiss rfl)
  case PREPEND => exact applyOr_same (fun k o => concatHandler_same h hc _ k o σ) (hmiss rfl)
  case DELETE => exact delete_same h hc m t.key σ
  case CAS => exact absurd ht hc

theorem cmdText_cas (h : Pair t b) (hc : t.command = .CAS) :
    cmdText g t m σ = applyOr m t.key (Text.casHandler g t) none
      (fun σ => σ.textUnlessNoReply t .NOT_FOUND) σ := by
  simp only [cmdText, h.valid, hc, Bool.not_true, Bool.false_eq_true, if_false]

/-- Set with a cas value checks the length first. -/
theorem cmdBin_cas (h : Pair t b) (hc : t.command = .CAS) :
    cmdBin g b m σ = if t.data.length > g.config.maxDataSize then .ok (m, σ.bin b (.error .TooLargeValue))
      else applyOr m t.key (setHandler g b) none (notFound b) σ := by
  have hb : b.command = .Set := by
    have hb := h.command
    rw [hc] at hb
    exact (Option.some.inj hb).symm
  have hne : b.casUnique ≠ 0 := by
    rw [h.cas, if_pos hc]
    exact h.cas_ne hc
  have hk : ¬ b.key.length > MAX_KEY_LENGTH := Nat.not_lt.mpr b.key_le
  simp only [cmdBin, h.status, hb, sizeChecked, ne_eq, not_true_eq_false, if_false]
  rw [if_neg hk, if_neg hne, h.data, h.key]

/-- Within the limit `cas` does what Set does. -/
theorem cas_same (h : Pair t b) (hc : t.command = .CAS) (hd : t.data.length ≤ g.config.maxDataSize) :
    Same t.noReply σ (cmdText g t m σ) (cmdBin g b m σ) := by
  rw [cmdText_cas g m σ h hc, cmdBin_cas g m σ h hc, if_neg (Nat.not_lt.mpr hd)]
  exact applyOr_same (fun k o => casHandler_same h hc k o σ) fun _ =>
    Same.ok none (Parallel.textUnlessNoReply σ t b rfl)

theorem casHandler_stored {o : Object} (ho : CasStores g t o σ.flushTime) (k : KeyRef) :
    Text.casHandler g t k o σ = .ok (Text.store g t k o σ) := by
  obtain ⟨hl, he, hu⟩ := ho
  simp only [Text.casHandler, Text.modifyHandler, hl, he, hu, Bool.false_eq_true, if_false, ne_eq,
    not_true_eq_false]

/-- ... or it refuses, with the object as it was. -/
theorem casHandler_refused {o : Object} (ho : ¬ CasStores g t o σ.flushTime) (k : KeyRef) :
    ∃ r : TextReply, r.succeeds = false ∧
      finish (fun σ => σ.textUnlessNoReply t .NOT_FOUND) (Text.casHandler g t k o σ)
        = .ok (o, σ.textUnlessNoReply t r) := by
  unfold Text.casHandler Text.modifyHandler
  by_cases hl : o.lockedByOther g.ctx
  · exact ⟨.LOCKED, rfl, by rw [if_pos hl]; rfl⟩
  · by_cases he : o.expired g.now σ.flushTime
    · exact ⟨.NOT_FOUND, rfl, by rw [if_neg hl, if_pos he]; rfl⟩
    · have hu : o.cas ≠ t.casUnique := fun hu => ho ⟨by simpa using hl, by simpa using he, hu⟩
      exact ⟨.EXISTS, rfl, by rw [if_neg hl, if_neg he]; beta_reduce; rw [if_pos hu]; rfl⟩

/-- Beyond the limit Set refuses, so `cas` has to. -/
theorem cas_oversized_iff (h : Pair t b) (hc : t.command = .CAS)
    (hd : g.config.maxDataSize < t.data.length) :
    Same t.noReply σ (cmdText g t m σ) (cmdBin g b m σ)
      ↔ ∀ p, m.find t.key = some p → ¬ CasStores g t p.val σ.flushTime := by
  rw [cmdText_cas g m σ h hc, cmdBin_cas g m σ h hc, if_pos hd]
  cases hp : m.find t.key with
  | none =>
    rw [applyOr_of_absent hp]
    exact ⟨fun _ p hp' => (nomatch hp'), fun _ => Same.ok m (Parallel.textUnlessNoReply σ t b rfl)⟩
  | some p =>
    rw [applyOr_of_found hp]
    constructor
    · rintro hs q hq hst
      cases Option.some.inj hq
      rw [casHandler_stored g σ hst] at hs
      -- the stored object has another cas value than the one it replaces
      have hm : m.write p.addr (p.val.set g.config.heapDataLimit t.data t.flags t.exptime) = m := by
        generalize hx : Except.map _ _ = x at hs
        generalize hy : Except.ok _ = y at hs
        cases hs with
        | error e => cases hy
        | ok a ha =>
          cases hy
          exact (congrArg Prod.fst (Except.ok.inj hx))
      have hf := m.find_write_self hp (p.val.set g.config.heapDataLimit t.data t.flags t.exptime)
      rw [hm, hp] at hf
      have hcas : p.val.cas = p.val.cas + 1 := congrArg (fun c => c.val.cas) (Option.some.inj hf)
      exact absurd hcas (by simp)
    · intro hn
      obtain ⟨r, hr, hf⟩ := casHandler_refused g σ (hn p rfl) (itemRef p)
      rw [hf]
      show Same t.noReply σ (.ok (m.write p.addr p.val, _)) _
      rw [m.write_val hp]
      exact Same.ok m (Parallel.textUnlessNoReply σ t b hr)

/-- **The two protocols implement the same operations**: from any store and any session, a text command
    and its binary form leave the same store, locks and messages, and one reports success exactly when
    the other does — unless the command is `cas` and what it stores is longer than `max_data_size`. -/
theorem protocols_agree_iff (h : Pair t b) :
    Same t.noReply σ ((Cmd.text t).exec g m σ) ((Cmd.bin b).exec g m σ) ↔ ¬ Oversized g t m σ := by
  show Same t.noReply σ (cmdText g t m σ) (cmdBin g b m σ) ↔ _
  by_cases hc : t.command = .CAS
  · by_cases hd : g.config.maxDataSize < t.data.length
    · rw [cas_oversized_iff g m σ h hc hd]
      constructor
      · rintro hn ⟨-, -, p, hp, hst⟩
        exact hn p hp hst
      · intro hn p hp hst
        exact hn ⟨hc, hd, p, hp, hst⟩
    · exact iff_of_true (cas_same g m σ h hc (Nat.not_lt.mp hd)) fun ho => hd ho.2.1
  · exact iff_of_true (exec_same g m σ h hc) fun ho => hc ho.1

end Commands

/-! ## A run -/

/-- A server that takes 20 bytes of data at most. -/
def smallServer : Server :=
  Server.init (fun _ => 0) Table.bump Table.bump_fresh 0 ⟨20, 100⟩ ⟨1024, 10, 100, 32, 64⟩ 100

/-- `set x 0 0 1` with the data "a", in both protocols. -/
def storeX : TextRequest := { command := .SET, valid := true, key := [120], data := [97] }

/-- Set of "x". -/
def storeXBinary : BinaryRequest :=
  { status := .OK, command := .Set, key := [120], data := [97], key_le := x_le }

/-- A `set` within the limit, on the empty store. -/
theorem protocols_agree_set :
    Pair storeX storeXBinary ∧ ¬ Oversized (smallServer.env 5) storeX smallServer.hash {} ∧
    Same storeX.noReply {} ((Cmd.text storeX).exec (smallServer.env 5) smallServer.hash {})
      ((Cmd.bin storeXBinary).exec (smallServer.env 5) smallServer.hash {}) := by
  have hp : Pair storeX storeXBinary :=
    ⟨rfl, rfl, rfl, rfl, rfl, rfl, rfl, rfl, rfl, fun h => nomatch h⟩
  have ho : ¬ Oversized (smallServer.env 5) storeX smallServer.hash {} := fun h => nomatch h.1
  exact ⟨hp, ho, (protocols_agree_iff (smallServer.env 5) smallServer.hash {} hp).mpr ho⟩

/-- `cas x 0 0 21 1` with 21 bytes, in both protocols. -/
def casX : TextRequest :=
  { command := .CAS, valid := true, key := [120], data := List.replicate 21 97, casUnique := 1 }

/-- The same condition in the binary protocol, with data over the limit. -/
def casXBinary : BinaryRequest :=
  { status := .OK, command := .Set, key := [120], data := List.replicate 21 97, casUnique := 1,
    key_le := x_le }

/-- **`cas` is not held to `max_data_size`.**  After `set x`, the text `cas` with 21 bytes of data is
    answered STORED and the object has 21 bytes; the binary form is answered "too large". -/
theorem cas_exceeds_limit :
    ∃ s conn, Run.run Server.step smallServer [.accept 1 5, .cmd 1 [] (.text storeX)] = .ok s ∧
      s.conns 1 = some conn ∧ Pair casX casXBinary ∧
      ¬ Same casX.noReply (s.session conn []) ((Cmd.text casX).exec (s.env 5) s.hash (s.session conn []))
        ((Cmd.bin casXBinary).exec (s.env 5) s.hash (s.session conn [])) := by
  have hp : Pair casX casXBinary := ⟨rfl, rfl, rfl, rfl, rfl, rfl, rfl, rfl, rfl, fun _ => by decide⟩
  refine ⟨_, _, rfl, rfl, hp, fun hs => ?_⟩
  refine (cas_oversized_iff _ _ _ hp rfl ?_).mp hs _ rfl ⟨?_, ?_, ?_⟩
  · show 20 < (List.replicate 21 97).length
    decide
  all_goals rfl

end Yrmcds.Memcache
