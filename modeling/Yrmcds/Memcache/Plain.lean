/-
  Quiet commands, and `noreply` (src/memcache/sockets.cpp, src/memcache/memcache.cpp).

  Most binary commands have a form with a Q, most text commands take `noreply`: the client does not want to be
  told of success.  The handlers look at this in few places, where a reply is sent.  Hence a request in its
  PLAIN form, without Q or `noreply`, leaves the same store (`exec_fst_plain`), and its reply tells what the
  quiet one has done.
-/
import Yrmcds.Memcache.Pairs

namespace Yrmcds.Memcache

open ChainTable

/-! ## The plain form -/

/-- The command without its Q. -/
def BinaryCommand.plain : BinaryCommand → BinaryCommand
  | .GetQ => .Get
  | .GetKQ => .GetK
  | .GaTQ => .GaT
  | .GaTKQ => .GaTK
  | .LaGQ => .LaG
  | .LaGKQ => .LaGK
  | .SetQ => .Set
  | .AddQ => .Add
  | .ReplaceQ => .Replace
  | .RaUQ => .RaU
  | .AppendQ => .Append
  | .PrependQ => .Prepend
  | .DeleteQ => .Delete
  | .IncrementQ => .Increment
  | .DecrementQ => .Decrement
  | .LockQ => .Lock
  | .UnlockQ => .Unlock
  | .UnlockAllQ => .UnlockAll
  | .QuitQ => .Quit
  | .FlushQ => .Flush
  | c => c

/-- The request in the form that is always answered. -/
def BinaryRequest.plain (cmd : BinaryRequest) : BinaryRequest := { cmd with command := cmd.command.plain }

/-- ... without `noreply`. -/
def TextRequest.plain (cmd : TextRequest) : TextRequest := { cmd with noReply := false }

/-- A request that wants an answer. -/
def Cmd.plain : Cmd → Cmd
  | .bin r => .bin r.plain
  | .text r => .text r.plain

/-! ## The plain form does the same -/

section Plain

variable {g : Env} {m : HashMap Object} {key : Key} {σ : Session}

/-- Handlers that leave the same objects leave the same map. -/
theorem applyOr_fst {h h' : Handler} {c c' : Option Creator} {miss miss' : Session → Session}
    (hfound : ∀ k o, (finish miss (h k o σ)).map Prod.fst = (finish miss' (h' k o σ)).map Prod.fst)
    (habsent : ∀ k, (absent c miss k σ).1 = (absent c' miss' k σ).1) :
    (applyOr m key h c miss σ).map Prod.fst = (applyOr m key h' c' miss' σ).map Prod.fst := by
  cases hp : m.find key with
  | none =>
    rw [applyOr_of_absent hp, applyOr_of_absent hp]
    simp only [Except.map, habsent]
  | some p =>
    have heq := hfound (itemRef p) p.val
    rw [applyOr_of_found hp, applyOr_of_found hp]
    have hmap : ∀ x : Except Err (Object × Session),
        (x.map fun r => (m.write p.addr r.1, r.2)).map Prod.fst = (x.map Prod.fst).map (m.write p.addr) := by
      intro x
      cases x <;> rfl
    rw [hmap, hmap, heq]

/-- The last reply does not touch the object. -/
theorem finish_fst (miss : Session → Session) (x : Bool × Object × Session) :
    (finish miss (.ok x)).map Prod.fst = .ok x.2.1 := by
  obtain ⟨_ | _, x⟩ := x <;> rfl

/-- The request asks for the same thing. -/
structure Asks (cmd cmd' : BinaryRequest) : Prop where
  data : cmd'.data = cmd.data
  flags : cmd'.flags = cmd.flags
  exptime : cmd'.exptime = cmd.exptime
  casUnique : cmd'.casUnique = cmd.casUnique
  value : cmd'.value = cmd.value
  initial : cmd'.initial = cmd.initial
  replace : cmd'.command = .Replace ∨ cmd'.command = .ReplaceQ
    ↔ cmd.command = .Replace ∨ cmd.command = .ReplaceQ
  add : cmd'.command = .Add ∨ cmd'.command = .AddQ ↔ cmd.command = .Add ∨ cmd.command = .AddQ
  lag : cmd'.command.isLaG = cmd.command.isLaG

theorem asks_plain (cmd : BinaryRequest) : Asks cmd cmd.plain := by
  refine ⟨rfl, rfl, rfl, rfl, rfl, rfl, ?_, ?_, ?_⟩ <;> unfold BinaryRequest.plain <;> dsimp only
  · cases cmd.command <;> first | exact Iff.rfl | decide
  · cases cmd.command <;> first | exact Iff.rfl | decide
  · cases cmd.command <;> rfl

variable {cmd cmd' : BinaryRequest} (h : Asks cmd cmd') (k : KeyRef) (o : Object)
  (miss miss' : Session → Session)
include h

theorem getHandler_fst : (finish miss (getHandler g cmd k o σ)).map Prod.fst
    = (finish miss' (getHandler g cmd' k o σ)).map Prod.fst := by
  unfold getHandler getBody acquire
  rw [h.lag, h.exptime]
  cases o.lockIt g.ctx <;> dsimp only <;> split_ifs <;> rfl

theorem setHandler_fst : (finish miss (setHandler g cmd k o σ)).map Prod.fst
    = (finish miss' (setHandler g cmd' k o σ)).map Prod.fst := by
  unfold setHandler casCheck setStore
  simp only [h.replace, h.add, h.casUnique, h.data, h.flags, h.exptime]
  split_ifs <;> rfl

theorem rauHandler_fst (deref : Nat → Option Key) :
    (finish miss (rauHandler g cmd deref k o σ)).map Prod.fst
      = (finish miss' (rauHandler g cmd' deref k o σ)).map Prod.fst := by
  unfold rauHandler
  rw [h.casUnique, h.data, h.flags, h.exptime]
  cases release g deref k.key (o.set g.config.heapDataLimit cmd.data cmd.flags cmd.exptime) σ <;>
    split_ifs <;> rfl

theorem modifyHandler_fst {body body' : KeyRef → Object → Session → Bool × Object × Session}
    (hbody : (body k o σ).2.1 = (body' k o σ).2.1) :
    (finish miss (modifyHandler g cmd body k o σ)).map Prod.fst
      = (finish miss' (modifyHandler g cmd' body' k o σ)).map Prod.fst := by
  unfold modifyHandler casCheck
  rw [h.casUnique]
  split_ifs <;> rw [finish_fst, finish_fst]
  exact congrArg _ hbody

theorem incdecHandler_fst (op : Object → UInt64 → Option (UInt64 × Object)) :
    (finish miss (incdecHandler g cmd op k o σ)).map Prod.fst
      = (finish miss' (incdecHandler g cmd' op k o σ)).map Prod.fst := by
  refine modifyHandler_fst h k o miss miss' ?_
  rw [h.value]
  cases op o cmd.value <;> rfl

omit h in
/-- The same for predicates of `remove_if`: the verdict and the object count. -/
theorem removeOr_fst {pred pred' : Key → Object → Session → Except Err (Bool × Object × Session)}
    (hpred : ∀ o, (pred key o σ).map (fun r => (r.1, r.2.1)) = (pred' key o σ).map fun r => (r.1, r.2.1)) :
    (removeOr m key pred miss σ).map Prod.fst = (removeOr m key pred' miss' σ).map Prod.fst := by
  unfold removeOr HashMap.removeIf
  cases hp : m.find key with
  | none => rfl
  | some p =>
    have heq := hpred p.val
    dsimp only
    rcases hx : pred key p.val σ with e | ⟨b, o, σ1⟩ <;>
      rcases hy : pred' key p.val σ with e' | ⟨b', o', σ2⟩ <;> rw [hx, hy] at heq
    · rw [Except.error.inj heq]
    · cases heq
    · cases heq
    · obtain ⟨rfl, rfl⟩ : b = b' ∧ o = o' := Prod.mk.inj (Except.ok.inj heq)
      cases b <;> rfl

theorem deletePred_fst (deref : Nat → Option Key) :
    (deletePred g cmd deref key o σ).map (fun r => (r.1, r.2.1))
      = (deletePred g cmd' deref key o σ).map fun r => (r.1, r.2.1) := by
  unfold deletePred
  rw [h.casUnique]
  cases removeLock deref key σ.locks <;> split_ifs <;> rfl

end Plain

section Plain

variable (g : Env) (m : HashMap Object) (σ : Session)

/-- `unlock_all`, and then something that leaves the map alone. -/
theorem unlockAll_fst (post post' : Session → Session) :
    Except.map Prod.fst (match unlockAll g m σ with
      | .ok (m', σ') => .ok (m', post σ')
      | .error e => .error e : Except Err World) = Except.map Prod.fst (match unlockAll g m σ with
      | .ok (m', σ') => .ok (m', post' σ')
      | .error e => .error e : Except Err World) := by
  cases unlockAll g m σ <;> rfl

/-- The checks of the lengths are the same. -/
theorem sizeChecked_fst (cmd : BinaryRequest) {x x' : Except Err World}
    (h : x.map Prod.fst = x'.map Prod.fst) :
    (sizeChecked g cmd m σ x).map Prod.fst = (sizeChecked g cmd.plain m σ x').map Prod.fst := by
  unfold sizeChecked
  rw [show cmd.plain.key = cmd.key from rfl, show cmd.plain.data = cmd.data from rfl]
  split_ifs
  · rfl
  · rfl
  · exact h

/-- **Quietness is about replies only**, in the binary protocol ... -/
theorem cmdBin_fst_plain (cmd : BinaryRequest) :
    (cmdBin g cmd m σ).map Prod.fst = (cmdBin g cmd.plain m σ).map Prod.fst := by
  have h := asks_plain cmd
  unfold cmdBin
  rw [show cmd.plain.status = cmd.status from rfl]
  by_cases hst : cmd.status ≠ .OK
  · rw [if_pos hst, if_pos hst]
    rfl
  rw [if_neg hst, if_neg hst, show cmd.plain.command = cmd.command.plain from rfl]
  cases hcmd : cmd.command with
  | Get | GetQ | GetK | GetKQ | GaT | GaTQ | GaTK | GaTKQ | LaG | LaGQ | LaGK | LaGKQ =>
    exact applyOr_fst (fun k o => getHandler_fst h k o _ _) fun _ => rfl
  | Set | SetQ | Add | AddQ =>
    refine sizeChecked_fst g m σ cmd (applyOr_fst (fun k o => setHandler_fst h k o _ _) fun k => ?_)
    rw [show cmd.plain.casUnique = cmd.casUnique from rfl]
    split_ifs <;> rfl
  | Replace | ReplaceQ =>
    exact sizeChecked_fst g m σ cmd (applyOr_fst (fun k o => setHandler_fst h k o _ _) fun _ => rfl)
  | RaU | RaUQ =>
    exact sizeChecked_fst g m σ cmd (applyOr_fst (fun k o => rauHandler_fst h k o _ _ _) fun _ => rfl)
  | Append | AppendQ | Prepend | PrependQ =>
    exact applyOr_fst (fun k o => modifyHandler_fst h k o _ _ rfl) fun _ => rfl
  | Delete | DeleteQ => exact removeOr_fst _ _ fun o => deletePred_fst h o _
  | Increment | IncrementQ | Decrement | DecrementQ =>
    refine applyOr_fst (fun k o => incdecHandler_fst h k o _ _ _) fun k => ?_
    rw [show cmd.plain.exptime = cmd.exptime from rfl]
    split_ifs <;> rfl
  | Lock | LockQ =>
    refine applyOr_fst (fun k o => ?_) fun _ => rfl
    unfold lockHandler
    cases acquire g k o σ <;> dsimp only <;> split_ifs <;> rfl
  | Unlock | UnlockQ =>
    refine applyOr_fst (fun k o => ?_) fun _ => rfl
    unfold unlockOneHandler
    cases release g m.deref k.key o σ <;> dsimp only <;> split_ifs <;> rfl
  | UnlockAll | UnlockAllQ | Quit | QuitQ => exact unlockAll_fst g m σ _ _
  | Flush | FlushQ | Noop | Version | Stat | Unknown | raw _ => rfl
  | Touch =>
    refine applyOr_fst (fun k o => ?_) fun _ => rfl
    unfold touchHandler
    split_ifs <;> rfl
  | Keys =>
    have hsame : cmd.plain = cmd := by
      unfold BinaryRequest.plain
      rw [hcmd]
      exact congrArg (fun c => { cmd with command := c }) hcmd.symm
    rw [hsame]
    rfl

theorem Text.modifyHandler_fst {g : Env} {σ : Session} (cmd : TextRequest) (k : KeyRef) (o : Object)
    (miss miss' : Session → Session) {body body' : KeyRef → Object → Session → Bool × Object × Session}
    (hbody : (body k o σ).2.1 = (body' k o σ).2.1) :
    (finish miss (Text.modifyHandler g cmd body k o σ)).map Prod.fst
      = (finish miss' (Text.modifyHandler g cmd.plain body' k o σ)).map Prod.fst := by
  unfold Text.modifyHandler
  split_ifs <;> rw [finish_fst, finish_fst]
  exact congrArg _ hbody

theorem Text.concatHandler_fst {g : Env} {σ : Session} (cmd : TextRequest)
    (op : Nat → Object → Bytes → Object) (k : KeyRef) (o : Object) (miss miss' : Session → Session) :
    (finish miss (Text.concatHandler g cmd op k o σ)).map Prod.fst
      = (finish miss' (Text.concatHandler g cmd.plain op k o σ)).map Prod.fst := by
  unfold Text.concatHandler
  exact Text.modifyHandler_fst cmd k o miss miss' rfl

theorem Text.incdecHandler_fst {g : Env} {σ : Session} (cmd : TextRequest)
    (op : Object → UInt64 → Option (UInt64 × Object)) (k : KeyRef) (o : Object)
    (miss miss' : Session → Session) :
    (finish miss (Text.incdecHandler g cmd op k o σ)).map Prod.fst
      = (finish miss' (Text.incdecHandler g cmd.plain op k o σ)).map Prod.fst := by
  unfold Text.incdecHandler
  refine Text.modifyHandler_fst cmd k o miss miss' ?_
  rw [show cmd.plain.value = cmd.value from rfl]
  cases op o cmd.value <;> rfl

/-- GET and GETS have no `noreply`. -/
theorem Text.getLoop_plain (cmd : TextRequest) (ks : List Key) :
    ∀ (m : HashMap Object) (σ : Session), Text.getLoop g cmd.plain ks m σ = Text.getLoop g cmd ks m σ := by
  induction ks with
  | nil => intro m σ; rfl
  | cons k ks ih =>
    intro m σ
    rw [Text.getLoop, Text.getLoop,
      show Text.getHandler g cmd.plain = Text.getHandler g cmd from rfl]
    split
    · exact ih _ _
    · rfl

/-- ... and in the text protocol. -/
theorem cmdText_fst_plain (cmd : TextRequest) :
    (cmdText g cmd m σ).map Prod.fst = (cmdText g cmd.plain m σ).map Prod.fst := by
  unfold cmdText
  rw [show cmd.plain.valid = cmd.valid from rfl]
  by_cases hv : (! cmd.valid) = true
  · rw [if_pos hv, if_pos hv]
  rw [if_neg hv, if_neg hv, show cmd.plain.command = cmd.command from rfl]
  cases hcmd : cmd.command with
  | SET | ADD | REPLACE =>
    rw [show cmd.plain.key = cmd.key from rfl, show cmd.plain.data = cmd.data from rfl]
    dsimp only
    by_cases hk : cmd.key.length > MAX_KEY_LENGTH
    · rw [if_pos hk, if_pos hk]
    by_cases hd : cmd.data.length > g.config.maxDataSize
    · rw [if_neg hk, if_neg hk, if_pos hd, if_pos hd]
    rw [if_neg hk, if_neg hk, if_neg hd, if_neg hd]
    refine applyOr_fst (fun k o => ?_) fun _ => ?_
    · unfold Text.setHandler
      rw [show cmd.plain.command = cmd.command from rfl]
      split_ifs <;> rfl
    · split_ifs <;> rfl
  | APPEND | PREPEND =>
    exact applyOr_fst (fun k o => Text.concatHandler_fst cmd _ k o _ _) fun _ => rfl
  | CAS =>
    refine applyOr_fst (fun k o => Text.modifyHandler_fst cmd k o _ _ ?_) fun _ => rfl
    rw [show cmd.plain.casUnique = cmd.casUnique from rfl]
    split_ifs <;> rfl
  | INCR | DECR =>
    exact applyOr_fst (fun k o => Text.incdecHandler_fst cmd _ k o _ _) fun _ => rfl
  | TOUCH =>
    refine applyOr_fst (fun k o => ?_) fun _ => rfl
    unfold Text.touchHandler
    split_ifs <;> rfl
  | DELETE =>
    refine removeOr_fst _ _ fun o => ?_
    unfold Text.deletePred
    cases removeLock m.deref cmd.key σ.locks <;> split_ifs <;> rfl
  | GET | GETS =>
    dsimp only
    rw [show cmd.plain.keys = cmd.keys from rfl, Text.getLoop_plain]
  | _ => rfl

end Plain

/-- **Quietness is about replies only.** -/
theorem exec_fst_plain {g : Env} {m : HashMap Object} {σ : Session} {c : Cmd} {w : World}
    (hw : c.exec g m σ = .ok w) : ∃ w', c.plain.exec g m σ = .ok w' ∧ w'.1 = w.1 := by
  have heq : (c.exec g m σ).map Prod.fst = (c.plain.exec g m σ).map Prod.fst := by
    cases c with
    | bin r => exact cmdBin_fst_plain g m σ r
    | text r => exact cmdText_fst_plain g m σ r
  rw [hw] at heq
  cases hw' : c.plain.exec g m σ with
  | error e => rw [hw'] at heq; cases heq
  | ok w' => rw [hw'] at heq; exact ⟨w', rfl, (Except.ok.inj heq).symm⟩

end Yrmcds.Memcache
