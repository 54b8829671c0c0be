/-
  The cas value of a binary request (src/memcache/sockets.cpp, `cmd_bin`).

  A request that carries a cas value other than 0 is meant for ONE version of an object.  The condition is
  written out in each handler, and where no object is found it is left to the creator: Set and Add give
  the hash map none when there is a cas value, and Replace, Append, Prepend and RaU never do.  Increment
  and Decrement give one whenever the request has a time, cas value or not, so they create an object for
  a version that is not there.

  `cas_guard_iff` says that this is the only leak.  Each handler is shown to REFUSE an object with another
  cas value: it gives the object back as it was and does nothing but report an error; one lemma carries
  this over `apply`, one over `remove_if`.
-/
import Yrmcds.Memcache.Pairs

namespace Yrmcds.Memcache

open ChainTable Run

/-- The commands that look at the cas value. -/
def BinaryCommand.guarded : List BinaryCommand :=
  [.Set, .SetQ, .Add, .AddQ, .Replace, .ReplaceQ, .Append, .AppendQ, .Prepend, .PrependQ, .Increment,
    .IncrementQ, .Decrement, .DecrementQ, .Delete, .DeleteQ, .RaU, .RaUQ]

/-- An Increment or Decrement that creates an object if there is none. -/
def BinaryRequest.Initialises (r : BinaryRequest) : Prop :=
  r.status = .OK ∧ r.command ∈ [.Increment, .IncrementQ, .Decrement, .DecrementQ] ∧ r.exptime ≠ EXPTIME_NONE

/-! ## Handlers that refuse -/

/-- All that was done is to report an error, if that. -/
def Rejects (r : BinaryRequest) (σ σ' : Session) : Prop := σ' = σ ∨ ∃ status, σ' = σ.bin r (.error status)

theorem Rejects.locks {r : BinaryRequest} {σ σ' : Session} (h : Rejects r σ σ') : σ'.locks = σ.locks := by
  rcases h with rfl | ⟨_, rfl⟩ <;> rfl

/-- A handler that gives the object back as it was. -/
def Refuses (r : BinaryRequest) (o : Object) (σ : Session) (x : Except Err (Bool × Object × Session)) :
    Prop :=
  x = .ok (false, o, σ) ∨ ∃ status, x = .ok (true, o, σ.bin r (.error status))

section

variable {g : Env} {r : BinaryRequest} {σ : Session} (hu : r.casUnique ≠ 0) {k : KeyRef} {o : Object}
  (ho : o.cas ≠ r.casUnique)
include hu ho

theorem casCheck_refuses (body : KeyRef → Object → Session → Bool × Object × Session) :
    casCheck r body k o σ = (true, o, σ.bin r (.error .Exists)) := if_pos ⟨hu, ho.symm⟩

theorem setHandler_refuses : Refuses r o σ (setHandler g r k o σ) := by
  unfold setHandler
  rw [casCheck_refuses hu ho]
  split_ifs <;> exact .inr ⟨_, rfl⟩

theorem modifyHandler_refuses (body : KeyRef → Object → Session → Bool × Object × Session) :
    Refuses r o σ (modifyHandler g r body k o σ) := by
  unfold modifyHandler
  rw [casCheck_refuses hu ho]
  split_ifs
  · exact .inr ⟨_, rfl⟩
  · exact .inl rfl
  · exact .inr ⟨_, rfl⟩

theorem rauHandler_refuses (deref : Nat → Option Key) : Refuses r o σ (rauHandler g r deref k o σ) := by
  unfold rauHandler
  split_ifs with hl hne
  · exact .inr ⟨_, rfl⟩
  · exact .inr ⟨_, rfl⟩
  · exact absurd ⟨hu, ho.symm⟩ hne

/-- `remove_if` returns true when it has found the key, also if the predicate has not: the error is the
    predicate's own. -/
theorem deletePred_refuses (deref : Nat → Option Key) (k : Key) :
    ∃ status, deletePred g r deref k o σ = .ok (false, o, σ.bin r (.error status)) := by
  unfold deletePred
  split_ifs with hl hne hs
  · exact ⟨_, rfl⟩
  · exact ⟨_, rfl⟩
  · exact absurd ⟨hu, ho.symm⟩ hne
  · exact absurd ⟨hu, ho.symm⟩ hne

end

/-! ## Requests that are rejected -/

/-- The map is as before, and so is the session but for an error. -/
def Rejected (r : BinaryRequest) (m : HashMap Object) (σ : Session) (x : Except Err World) : Prop :=
  ∃ σ', x = .ok (m, σ') ∧ Rejects r σ σ'

section

variable {g : Env} {m : HashMap Object} {σ : Session} {r : BinaryRequest}

/-- `apply` with a handler that refuses what is there, and no creator where nothing is there. -/
theorem applyOr_rejected {h : Handler} {c : Option Creator}
    (hfound : ∀ p, m.find r.key = some p → Refuses r p.val σ (h (itemRef p) p.val σ))
    (hc : m.find r.key = none → c = none) : Rejected r m σ (applyOr m r.key h c (notFound r) σ) := by
  cases hp : m.find r.key with
  | none =>
    rw [hc hp, applyOr_of_absent hp]
    exact ⟨_, rfl, .inr ⟨_, rfl⟩⟩
  | some p =>
    rw [applyOr_of_found hp]
    rcases hfound p hp with hh | ⟨_, hh⟩ <;> rw [hh] <;> dsimp only [finish, Except.map] <;>
      rw [m.write_val hp] <;> exact ⟨_, rfl, .inr ⟨_, rfl⟩⟩

theorem sizeChecked_rejected {x : Except Err World} (h : Rejected r m σ x) :
    Rejected r m σ (sizeChecked g r m σ x) := by
  unfold sizeChecked
  split_ifs
  · exact ⟨_, rfl, .inr ⟨_, rfl⟩⟩
  · exact ⟨_, rfl, .inr ⟨_, rfl⟩⟩
  · exact h

variable (hu : r.casUnique ≠ 0) (hno : ∀ p, m.find r.key = some p → p.val.cas ≠ r.casUnique)
include hu hno

theorem delete_rejected : Rejected r m σ (removeOr m r.key (deletePred g r m.deref)
    (fun σ => σ.binUnlessQuiet r (.error .NotFound)) σ) := by
  unfold removeOr HashMap.removeIf
  cases hp : m.find r.key with
  | none =>
    refine ⟨_, rfl, ?_⟩
    unfold Session.binUnlessQuiet
    split_ifs
    · exact .inl rfl
    · exact .inr ⟨_, rfl⟩
  | some p =>
    obtain ⟨status, hpred⟩ := deletePred_refuses (g := g) (σ := σ) hu (hno p hp) m.deref r.key
    dsimp only
    rw [hpred]
    dsimp only
    rw [m.write_val hp]
    exact ⟨_, rfl, .inr ⟨_, rfl⟩⟩

/-- **A guarded request for another version is rejected**, unless it creates what it does not find. -/
theorem cmdBin_rejected (hr : r.command ∈ BinaryCommand.guarded)
    (hinit : ¬ (r.Initialises ∧ m.find r.key = none)) : Rejected r m σ (cmdBin g r m σ) := by
  have hset : ∀ p, m.find r.key = some p → Refuses r p.val σ (setHandler g r (itemRef p) p.val σ) :=
    fun p hp => setHandler_refuses hu (hno p hp)
  have hmodify : ∀ body p, m.find r.key = some p →
      Refuses r p.val σ (modifyHandler g r body (itemRef p) p.val σ) :=
    fun body p hp => modifyHandler_refuses hu (hno p hp) body
  unfold cmdBin
  by_cases hst : r.status = .OK
  · rw [if_neg (not_not.mpr hst)]
    cases hc : r.command
    case Set | SetQ | Add | AddQ =>
      dsimp only
      rw [if_neg hu]
      exact sizeChecked_rejected (applyOr_rejected hset fun _ => rfl)
    case Replace | ReplaceQ => exact sizeChecked_rejected (applyOr_rejected hset fun _ => rfl)
    case RaU | RaUQ =>
      exact sizeChecked_rejected (applyOr_rejected
        (fun p hp => rauHandler_refuses hu (hno p hp) m.deref) fun _ => rfl)
    case Append | AppendQ | Prepend | PrependQ => exact applyOr_rejected (hmodify _) fun _ => rfl
    case Delete | DeleteQ => exact delete_rejected hu hno
    case Increment | IncrementQ | Decrement | DecrementQ =>
      refine applyOr_rejected (hmodify _) fun hp => if_neg fun ht => hinit ⟨⟨hst, ?_, ht⟩, hp⟩
      rw [hc]
      decide
    all_goals
      rw [hc] at hr
      exact absurd hr (by simp [BinaryCommand.guarded])
  · rw [if_pos hst]
    exact ⟨_, rfl, .inr ⟨_, rfl⟩⟩

end

/-- The leak: the creator does not look at the cas value. -/
theorem cmdBin_creates {g : Env} {m : HashMap Object} {σ : Session} {r : BinaryRequest}
    (hinit : r.Initialises) (hp : m.find r.key = none) : ∃ σ',
      cmdBin g r m σ = .ok (m.push r.key (Object.ofInitial r.initial r.exptime), σ') := by
  obtain ⟨hst, hc, ht⟩ := hinit
  simp only [List.mem_cons, List.not_mem_nil, or_false] at hc
  unfold cmdBin
  rw [if_neg (not_not.mpr hst)]
  rcases hc with hc | hc | hc | hc <;> rw [hc] <;> dsimp only <;>
    rw [if_pos ht, applyOr_of_absent hp] <;> exact ⟨_, rfl⟩

/-! ## The server -/

namespace Server

/-- The keys, the data, flags, time and cas value of every object, and the lock table are the same. -/
structure Untouched (s t : Server) : Prop where
  contents : ∀ k, (t.hash.find k).map (fun p => (p.val.data, p.val.flags, p.val.exptime, p.val.cas))
    = (s.hash.find k).map fun p => (p.val.data, p.val.flags, p.val.exptime, p.val.cas)
  locks : ∀ k, (t.hash.find k).map (fun p => p.val.lock) = (s.hash.find k).map fun p => p.val.lock
  held : ∀ d, (t.conns d).map Conn.locks = (s.conns d).map Conn.locks

/-- **A request with a cas value acts on that version only**, but for the objects Increment and Decrement
    create. -/
theorem cas_guard_iff {s : Server} {c : Nat} {conn : Conn} (hc : s.conns c = some conn) (slaves : List Nat)
    {r : BinaryRequest} (hr : r.command ∈ BinaryCommand.guarded) (hu : r.casUnique ≠ 0)
    (hno : ∀ p, s.hash.find r.key = some p → p.val.cas ≠ r.casUnique) :
    (∃ t, s.step (.cmd c slaves (.bin r)) = .ok t ∧ s.Untouched t)
      ↔ ¬ (r.Initialises ∧ s.hash.find r.key = none) := by
  constructor
  · rintro ⟨t, ht, h⟩ ⟨hinit, hp⟩
    obtain ⟨σ', hrun⟩ := cmdBin_creates (g := s.env conn.fd) (σ := s.session conn slaves) hinit hp
    rw [step_cmd hc slaves (r := .bin r) hrun] at ht
    cases ht
    have hk : ((s.hash.push r.key (Object.ofInitial r.initial r.exptime)).find r.key).map _
        = (s.hash.find r.key).map _ := h.contents r.key
    rw [hp, s.hash.find_push_self _ hp] at hk
    cases hk
  · intro hinit
    obtain ⟨σ', hrun, hreject⟩ :=
      cmdBin_rejected (g := s.env conn.fd) (σ := s.session conn slaves) hu hno hr hinit
    refine ⟨_, step_cmd hc slaves (r := .bin r) hrun, fun _ => rfl, fun _ => rfl, fun d => ?_⟩
    rw [commit_locks, hreject.locks]
    split_ifs with hd
    · rw [hd, hc]
      rfl
    · rfl

end Server

/-- Increment of "x" by 1 under the cas value 5, with the initial value 7. -/
def incrementX (exptime : Int) : BinaryRequest :=
  { command := .Increment, status := .OK, key := [120], key_le := x_le, casUnique := 5, value := 1
    initial := 7, exptime := exptime }

/-- Without a time it is refused. -/
theorem cas_guard_absent : ∃ s conn, run Server.step Server.oneBucket [.accept 0 5] = .ok s ∧
    s.conns 0 = some conn ∧
    ∃ t, s.step (.cmd 0 [] (.bin (incrementX EXPTIME_NONE))) = .ok t ∧ s.Untouched t := by
  obtain ⟨s, conn, hs, hc, hp⟩ : ∃ s conn, run Server.step Server.oneBucket [.accept 0 5] = .ok s ∧
    s.conns 0 = some conn ∧ s.hash.find [120] = none := ⟨_, _, rfl, rfl, rfl⟩
  refine ⟨s, conn, hs, hc, (Server.cas_guard_iff hc [] (r := incrementX EXPTIME_NONE) (by decide) (by decide)
    fun p hp' => ?_).mpr fun h => h.1.2.2 rfl⟩
  rw [show (incrementX EXPTIME_NONE).key = [120] from rfl, hp] at hp'
  cases hp'

/-- With one it creates "x", though nothing with the cas value 5 is there. -/
theorem cas_ignored_by_creator : ∃ s t, run Server.step Server.oneBucket [.accept 0 5] = .ok s ∧
    s.hash.find [120] = none ∧ s.step (.cmd 0 [] (.bin (incrementX 0))) = .ok t ∧
    (t.hash.find [120]).map (fun p => (p.val.data, p.val.cas)) = some (ascii "7", 1) ∧
    (t.conns 0).map Conn.out = some [.binary ⟨0x05, [], .incdec 7 1⟩] ∧
    ¬ ∃ t, s.step (.cmd 0 [] (.bin (incrementX 0))) = .ok t ∧ s.Untouched t := by
  obtain ⟨s, t, hs, hp, ht, hval, hout⟩ : ∃ s t,
      run Server.step Server.oneBucket [.accept 0 5] = .ok s ∧ s.hash.find [120] = none ∧
      s.step (.cmd 0 [] (.bin (incrementX 0))) = .ok t ∧
      (t.hash.find [120]).map (fun p => (p.val.data, p.val.cas)) = some (ascii "7", 1) ∧
      (t.conns 0).map Conn.out = some [.binary ⟨0x05, [], .incdec 7 1⟩] :=
    ⟨_, _, rfl, rfl, rfl, rfl, rfl⟩
  refine ⟨s, t, hs, hp, ht, hval, hout, ?_⟩
  rintro ⟨t', ht', h⟩
  rw [ht] at ht'
  cases ht'
  have hk := h.locks [120]
  rw [hp] at hk
  cases hf : t.hash.find [120] with
  | none =>
    rw [hf] at hval
    cases hval
  | some p =>
    rw [hf] at hk
    cases hk

end Yrmcds.Memcache
