/-
  `secure_erase` (docs/usage.md, "Erasing confidential data in memory"): memory used by objects is erased.

  Any number of objects live on one heap; they are constructed, moved, changed and destroyed in any order.
  `Heap.freed` has every block that was given back, as it was at that moment, so the promise of the option
  is that all of them are `Clean`.

  It is kept by every member function of the object but one.  `prepend` puts the new contents together in a
  local buffer that does not have the erase flag, and `swap` leaves the flags where they are: the block
  that `m_data` had goes to the local buffer and is given back WITH the old contents.
  `secure_erase_iff` says that this is the only leak: a run keeps the promise exactly if it has no such
  `prepend`.
-/
import Yrmcds.Memcache.Stored
import Yrmcds.Lib.Run
import Mathlib.Logic.Function.Basic

namespace Yrmcds.Memcache

open Block Run

/-- The objects, by any kind of number, and the heap. -/
structure Objects where
  heap : Heap
  objs : Nat → Option Stored

/-- What is done with an object. -/
inductive Use where
  | construct (p : Bytes) (flags : UInt32) (exptime : Int)
  | constructInitial (initial : UInt64) (exptime : Int)
  | move
  | set (p : Bytes) (flags : UInt32) (exptime : Int)
  | append (p : Bytes)
  | prepend (p : Bytes)
  | incr (n : UInt64)
  | decr (n : UInt64)
  | destroy
deriving DecidableEq, Repr

/-- A number that is in use cannot be used for a new object, and only an object can be used otherwise. -/
inductive Misuse where
  | taken
  | missing
deriving DecidableEq, Repr

namespace Objects

/-- The object after a use, or none if it is destroyed; a thrown `not_a_number` leaves it as it is. -/
def use (limit : Nat) (o : Stored) (h : Heap) : Use → Option Stored × Heap
  | .move => ((o.move h).1, (o.move h).2)
  | .set p f t => ((o.set limit h p f t).1, (o.set limit h p f t).2)
  | .append p => ((o.append limit h p).1, (o.append limit h p).2)
  | .prepend p => ((o.prepend limit h p).1, (o.prepend limit h p).2)
  | .incr n =>
    match o.incr h n with
    | some (_, o', h') => (o', h')
    | none => (o, h)
  | .decr n =>
    match o.decr h n with
    | some (_, o', h') => (o', h')
    | none => (o, h)
  | .destroy => (none, o.destroy h)
  | .construct _ _ _ => (o, h)
  | .constructInitial _ _ => (o, h)

/-- A new object, if the use is the construction of one. -/
def make (limit : Nat) (secure : Bool) (h : Heap) : Use → Option (Stored × Heap)
  | .construct p f t => some (Stored.new limit secure h p f t)
  | .constructInitial n t => some (Stored.ofInitial secure h n t)
  | _ => none

/-- Use the object with number `e.1`. -/
def step (limit : Nat) (secure : Bool) (s : Objects) (e : Nat × Use) : Except Misuse Objects :=
  match make limit secure s.heap e.2, s.objs e.1 with
  | some x, none => .ok ⟨x.2, Function.update s.objs e.1 (some x.1)⟩
  | some _, some _ => .error .taken
  | none, some o =>
    .ok ⟨(use limit o s.heap e.2).2, Function.update s.objs e.1 (use limit o s.heap e.2).1⟩
  | none, none => .error .missing

/-- No object yet; `fill` and `moves` are what the allocator will do. -/
def init (fill : Nat → Nat → UInt8) (moves : Nat → Bool) : Objects := ⟨⟨fill, moves, 0, []⟩, fun _ => none⟩

/-- **The promise**: every block that was given back had been cleared of all object data. -/
def Erased (s : Objects) : Prop := ∀ b ∈ s.heap.freed, Clean b

/-- This use gives back a block with object data in it. -/
def Leaks (limit : Nat) (s : Objects) (e : Nat × Use) : Prop :=
  ∃ p, e.2 = .prepend p ∧ ∃ o, s.objs e.1 = some o ∧ o.PrependLeaks limit p

/-- The invariant: the objects are well formed, and their buffers have the flag. -/
structure Inv (limit : Nat) (s : Objects) : Prop where
  wf : ∀ i o, s.objs i = some o → o.WF limit ∧ o.mdata.merase = true
  erased : s.Erased

variable {limit : Nat} {s s' : Objects} {e : Nat × Use}

/-- One use of a well-formed object under the flag. -/
theorem use_spec {o : Stored} (w : o.WF limit) (he : o.mdata.merase = true) (h : Heap) (u : Use) :
    (∀ o', (use limit o h u).1 = some o' → o'.WF limit ∧ o'.mdata.merase = true) ∧
    ((∀ p, u ≠ .prepend p) → Heap.Tidied h (use limit o h u).2) := by
  -- What a member function does is enough.
  have hdoes : ∀ {v : Object} {r : Stored × Heap}, Stored.Does limit o h v r →
      (∀ o', some r.1 = some o' → o'.WF limit ∧ o'.mdata.merase = true) ∧
      ((∀ p, u ≠ .prepend p) → Heap.Tidied h r.2) := by
    intro v r hd
    refine ⟨fun o' ho' => ?_, fun _ => hd.tidied he⟩
    cases ho'
    exact ⟨hd.wf, hd.merase.trans he⟩
  have hrenumber : ∀ f : UInt64 → UInt64, (∀ o', (match o.renumber h f with
        | some (_, o', h') => (some o', h')
        | none => (some o, h)).1 = some o' → o'.WF limit ∧ o'.mdata.merase = true) ∧
      ((∀ p, u ≠ .prepend p) → Heap.Tidied h (match o.renumber h f with
        | some (_, o', h') => (some o', h')
        | none => (some o, h)).2) := by
    intro f
    have hspec := Stored.renumber_spec w h f
    rcases hr : o.renumber h f with _ | ⟨n, r⟩
    · refine ⟨fun o' ho' => ?_, fun _ => Heap.Tidied.refl h⟩
      cases ho'
      exact ⟨w, he⟩
    · rw [hr] at hspec
      obtain ⟨v, -, hd⟩ := hspec
      exact hdoes hd
  cases u with
  | move => exact hdoes (Stored.move_does w h)
  | set p f t => exact hdoes (Stored.set_spec w h p f t)
  | append p => exact hdoes (Stored.append_spec w h p)
  | prepend p =>
    have hshows := Stored.prepend_shows w h p
    refine ⟨fun o' ho' => ?_, fun hno => absurd rfl (hno p)⟩
    cases ho'
    exact ⟨hshows.wf, hshows.merase.trans he⟩
  | incr n => exact hrenumber fun v => v + n
  | decr n => exact hrenumber fun v => if v < n then 0 else v - n
  | destroy => exact ⟨nofun, fun _ => w.tidied_destroy he h⟩
  | construct _ _ _ | constructInitial _ _ =>
    refine ⟨fun o' ho' => ?_, fun _ => Heap.Tidied.refl h⟩
    cases ho'
    exact ⟨w, he⟩

theorem make_spec {h : Heap} {u : Use} {x : Stored × Heap} (hx : make limit true h u = some x) :
    x.1.WF limit ∧ x.1.mdata.merase = true ∧ Heap.Tidied h x.2 := by
  cases u with
  | construct p f t =>
    cases hx
    obtain ⟨hw, -, he, ht⟩ := Stored.new_spec limit true h p f t
    exact ⟨hw, he, ht rfl⟩
  | constructInitial n t =>
    cases hx
    obtain ⟨hw, -, he, ht⟩ := Stored.ofInitial_spec limit true h n t
    exact ⟨hw, he, ht rfl⟩
  | _ => cases hx

/-- What a step can do. -/
theorem step_cases (h : step limit true s e = .ok s') :
    (∃ x, make limit true s.heap e.2 = some x ∧ s' = ⟨x.2, Function.update s.objs e.1 (some x.1)⟩) ∨
    ∃ o, make limit true s.heap e.2 = none ∧ s.objs e.1 = some o ∧
      s' = ⟨(use limit o s.heap e.2).2, Function.update s.objs e.1 (use limit o s.heap e.2).1⟩ := by
  unfold step at h
  split at h
  · rename_i x hmake hnone
    cases h
    exact .inl ⟨x, hmake, rfl⟩
  · cases h
  · rename_i o hmake ho
    cases h
    exact .inr ⟨o, hmake, ho, rfl⟩
  · cases h

/-- Objects stay well formed, whatever happens to the blocks. -/
theorem Inv.step_wf (hi : Inv limit s) (h : step limit true s e = .ok s') :
    ∀ i o, s'.objs i = some o → o.WF limit ∧ o.mdata.merase = true := by
  intro i o ho
  obtain ⟨x, hx, rfl⟩ | ⟨o0, -, ho0, rfl⟩ := step_cases h
  · by_cases hie : i = e.1
    · rw [hie] at ho
      have hox : some x.1 = some o := (Function.update_self e.1 (some x.1) s.objs).symm.trans ho
      cases hox
      exact ⟨(make_spec hx).1, (make_spec hx).2.1⟩
    · exact hi.wf i o ((Function.update_of_ne hie (some x.1) s.objs).symm.trans ho)
  · by_cases hie : i = e.1
    · rw [hie] at ho
      obtain ⟨hw, he⟩ := hi.wf _ _ ho0
      exact (use_spec hw he s.heap e.2).1 o ((Function.update_self e.1 _ s.objs).symm.trans ho)
    · exact hi.wf i o ((Function.update_of_ne hie _ s.objs).symm.trans ho)

/-- **One step**: the promise is kept exactly if the use does not leak. -/
theorem Inv.erased_iff (hi : Inv limit s) (e : Nat × Use) :
    ¬ Leaks limit s e ↔ ∀ s', step limit true s e = .ok s' → s'.Erased := by
  constructor
  · intro hno s' h
    obtain ⟨x, hx, rfl⟩ | ⟨o, -, ho, rfl⟩ := step_cases h
    · exact (make_spec hx).2.2.clean hi.erased
    · obtain ⟨hw, he⟩ := hi.wf _ _ ho
      by_cases hp : ∃ p, e.2 = .prepend p
      · obtain ⟨p, hp⟩ := hp
        have htidy := (Stored.prepend_leaks hw he s.heap p).1 fun hl => hno ⟨p, hp, o, ho, hl⟩
        show ∀ b ∈ (use limit o s.heap e.2).2.freed, Clean b
        rw [hp]
        exact htidy.clean hi.erased
      · exact ((use_spec hw he s.heap e.2).2 fun p heq => hp ⟨p, heq⟩).clean hi.erased
  · rintro herased ⟨p, hp, o, ho, hleak⟩
    obtain ⟨hw, he⟩ := hi.wf _ _ ho
    obtain ⟨b, hb, hdirty⟩ := (Stored.prepend_leaks hw he s.heap p).2 hleak
    obtain ⟨i, u⟩ := e
    cases hp
    have hstep : step limit true s (i, .prepend p)
        = .ok ⟨(o.prepend limit s.heap p).2,
          Function.update s.objs i (some (o.prepend limit s.heap p).1)⟩ := by
      unfold step
      rw [show s.objs (i, Use.prepend p).1 = some o from ho]
      rfl
    exact hdirty (herased _ hstep b hb)

/-- **`secure_erase` keeps its promise exactly in the runs without a leaking `prepend`**: whatever the
    limit, the allocator and the sequence of uses of however many objects. -/
theorem secure_erase_iff (limit : Nat) (fill : Nat → Nat → UInt8) (moves : Nat → Bool)
    (es : List (Nat × Use)) :
    Throughout Erased (step limit true) (init fill moves) es
      ↔ Along (fun s e => ¬ Leaks limit s e) (step limit true) (init fill moves) es := by
  refine throughout_iff_along (I := Inv limit) (fun s hi => hi.erased) (fun s e hi => hi.erased_iff e)
    (fun s e s' hi h hp => ⟨hi.step_wf h, hp⟩) es ⟨fun i o ho => ?_, fun b hb => ?_⟩
  · cases ho
  · cases hb

/-- An object of two bytes, one byte in front of it, and the end of the object. -/
def prependRun : List (Nat × Use) := [(0, .construct [1, 2] 0 0), (0, .prepend [3]), (0, .destroy)]

/-- The two bytes are given back in the block they were in. -/
theorem prepend_leaves_data :
    ∃ s, run (step 1024 true) (init (fun _ _ => 0) fun _ => false) prependRun = .ok s ∧
      [Byte.data 1, Byte.data 2] ∈ s.heap.freed ∧ ¬ s.Erased := by
  refine ⟨_, rfl, by decide, fun h => ?_⟩
  exact absurd (h [Byte.data 1, Byte.data 2] (by decide)) (by decide)

end Objects

end Yrmcds.Memcache
