/-
  The arithmetic of `object::incr` and `object::decr` (src/memcache/object.cpp).

  The two methods are written out statement by statement, over a state (the object) and an exception
  (`not_a_number`), so that what a throw leaves behind is part of the model: everything that is assigned
  BEFORE the throw would stay.  The number is printed into a buffer of 24 bytes; `snprintf` cuts what does
  not fit, and still returns the length of the whole text.

  `call_renumber` says that the statements do what the functions of `Object` say.  Over it, a counter: an
  object that holds a number holds the canonical text of the next one after each call (`Shows`), so the
  calls compose, and a sequence of them returns the partial results of a fold (`execAll_some`).
-/
import Yrmcds.Memcache.Object

namespace Yrmcds.Memcache

/-- `object::not_a_number`. -/
inductive NotANumber where
  | notANumber
deriving DecidableEq, Repr

/-- `snprintf(s, size, "%llu", n)`: what stands in the buffer, up to the NUL, and what is returned. -/
def snprintf (size n : Nat) : Bytes × Nat := ((decimal n).take (size - 1), (decimal n).length)

namespace Object

/-! ## The statements -/

/-- A method of `object` that may throw. -/
abbrev Method (α : Type) := ExceptT NotANumber (StateM Object) α

namespace Method

/-- The beginning of `incr` and `decr`: the value of the data. -/
def number : Method UInt64 := do
  let o ← get
  if o.mfile.isSome then throw .notANumber
  match stoull (o.mdata.take o.length) with
  | none => throw .notANumber
  | some v => return v

/-- Their end: the new value is printed, and becomes the data. -/
def assign (v : UInt64) : Method Unit := do
  let (sValue, n) := snprintf 24 v.toNat
  modify fun o => { o with length := n }
  modify fun o => { o with mdata := [] }
  modify fun o => { o with mdata := o.mdata ++ sValue.take o.length }
  modify fun o => { o with cas := o.cas + 1 }
  modify fun o => { o with gcOld := 0 }

/-- `incr` and `decr`, by what they do to the number. -/
def renumber (f : UInt64 → UInt64) : Method UInt64 := do
  let v ← number
  assign (f v)
  return f v

/-- `object::incr`. -/
def incr (n : UInt64) : Method UInt64 := renumber fun v => v + n

/-- `object::decr`. -/
def decr (n : UInt64) : Method UInt64 := renumber fun v => if v < n then 0 else v - n

end Method

/-- What a call returns or throws, and the object after it. -/
def call {α : Type} (m : Method α) (o : Object) : Except NotANumber α × Object := m.run.run o

/-- The number an object holds, if it does: not in a file, and a text that parses. -/
def number (o : Object) : Option UInt64 :=
  if o.mfile.isSome then none else stoull (o.mdata.take o.length)

/-- No number is cut: the buffer has room for 23 characters. -/
theorem snprintf_uint64 (v : UInt64) : snprintf 24 v.toNat = (decimal v.toNat, (decimal v.toNat).length) := by
  unfold snprintf
  rw [List.take_of_length_le ((length_decimal_le v).trans (by decide))]

/-- The object after its number has been replaced. -/
def numbered (o : Object) (v : UInt64) : Object :=
  { o.modified with mdata := decimal v.toNat, length := (decimal v.toNat).length }

/-! ## What they do -/

section

variable {α β : Type} (o : Object)

@[simp] theorem call_get : call get o = (.ok o, o) := rfl

@[simp] theorem call_modify (f : Object → Object) : call (modify f) o = (.ok (), f o) := rfl

/-- Statements in sequence: the second runs if the first did not throw. -/
theorem call_bind {m : Method α} {a : α} {o o' : Object} (h : call m o = (.ok a, o')) (k : α → Method β) :
    call (m >>= k) o = call (k a) o' := by
  unfold call at h ⊢
  rw [ExceptT.run_bind, StateT.run_bind, h]
  rfl

theorem call_bind_throw {m : Method α} {e : NotANumber} {o o' : Object} (h : call m o = (.error e, o'))
    (k : α → Method β) : call (m >>= k) o = (.error e, o') := by
  unfold call at h ⊢
  rw [ExceptT.run_bind, StateT.run_bind, h]
  rfl

end

theorem call_number_some {o : Object} {v : UInt64} (h : o.number = some v) :
    call Method.number o = (.ok v, o) := by
  unfold number at h
  split_ifs at h with hf
  refine (call_bind (call_get o) _).trans ?_
  rw [if_neg hf, h]
  rfl

theorem call_number_none {o : Object} (h : o.number = none) :
    call Method.number o = (.error .notANumber, o) := by
  unfold number at h
  refine (call_bind (call_get o) _).trans ?_
  split_ifs at h ⊢ with hf
  · rfl
  · rw [h]; rfl

theorem call_assign (o : Object) (v : UInt64) : call (Method.assign v) o = (.ok (), o.numbered v) := by
  unfold Method.assign numbered
  rw [snprintf_uint64]
  refine (call_bind (call_modify ..) _).trans ((call_bind (call_modify ..) _).trans
    ((call_bind (call_modify ..) _).trans ((call_bind (call_modify ..) _).trans ?_)))
  rw [call_modify, List.nil_append, List.take_length]
  rfl

theorem call_renumber_some {o : Object} {v : UInt64} (h : o.number = some v) (f : UInt64 → UInt64) :
    call (Method.renumber f) o = (.ok (f v), o.numbered (f v)) :=
  (call_bind (call_number_some h) _).trans (call_bind (call_assign o (f v)) _)

/-- The only throws are at the beginning: nothing has been assigned yet. -/
theorem call_renumber_none {o : Object} (h : o.number = none) (f : UInt64 → UInt64) :
    call (Method.renumber f) o = (.error .notANumber, o) :=
  call_bind_throw (call_number_none h) _

/-- The functions the commands use do what the statements do. -/
theorem call_renumber (o : Object) (f : UInt64 → UInt64) : call (Method.renumber f) o
    = ((o.renumber f).elim (.error .notANumber) fun r => .ok r.1, ((o.renumber f).map Prod.snd).getD o) := by
  have heq : o.renumber f = o.number.map fun v => (f v, o.numbered (f v)) := by
    unfold Object.renumber number
    cases o.mfile with
    | some file => rfl
    | none => cases stoull (o.mdata.take o.length) <;> rfl
  rw [heq]
  cases h : o.number with
  | none => exact call_renumber_none h f
  | some v => exact call_renumber_some h f

/-! ## Counters -/

/-- The object shows the number: canonical text on the heap, of the length that is noted. -/
structure Shows (o : Object) (v : UInt64) : Prop where
  data : o.data = decimal v.toNat
  length : o.length = o.data.length
  number : o.number = some v

theorem mfile_of_number {o : Object} {v : UInt64} (h : o.number = some v) : o.mfile = none := by
  unfold number at h
  split_ifs at h with hf
  exact Option.not_isSome_iff_eq_none.mp hf

/-- **An object with a number shows the new number after a call.** -/
theorem shows_numbered {o : Object} {v : UInt64} (h : o.number = some v) (w : UInt64) :
    (o.numbered w).Shows w := by
  have hf : (o.numbered w).mfile = none := (mfile_of_number h :)
  have hdata : (o.numbered w).data = decimal w.toNat := by
    unfold Object.data
    rw [hf]
    rfl
  refine ⟨hdata, by rw [hdata]; rfl, ?_⟩
  unfold number
  rw [hf, if_neg (by decide)]
  show stoull ((decimal w.toNat).take (decimal w.toNat).length) = some w
  rw [List.take_length, stoull_decimal]

end Object

/-- A call of `incr` or of `decr`. -/
inductive Incdec where
  | incr (n : UInt64)
  | decr (n : UInt64)

namespace Incdec

open Object

/-- The call, made. -/
def exec : Incdec → Object → Except NotANumber UInt64 × Object
  | incr n => call (Method.incr n)
  | decr n => call (Method.decr n)

/-- What a call means: addition modulo 2^64, and subtraction that stops at 0. -/
def value : Incdec → Nat → Nat
  | incr n, v => (v + n.toNat) % 2 ^ 64
  | decr n, v => v - n.toNat

/-- The outcomes of calls made one after the other, and the object at the end.  A caller that catches
    `not_a_number` goes on. -/
def execAll : List Incdec → Object → List (Except NotANumber UInt64) × Object
  | [], o => ([], o)
  | c :: cs, o => ((c.exec o).1 :: (execAll cs (c.exec o).2).1, (execAll cs (c.exec o).2).2)

theorem exec_none {o : Object} (h : o.number = none) (c : Incdec) : c.exec o = (.error .notANumber, o) := by
  cases c with
  | incr n => exact call_renumber_none h _
  | decr n => exact call_renumber_none h _

theorem exec_some {o : Object} {v : UInt64} (h : o.number = some v) (c : Incdec) :
    ∃ w o', c.exec o = (.ok w, o') ∧ w.toNat = c.value v.toNat ∧ o'.Shows w := by
  cases c with
  | incr n => exact ⟨_, _, call_renumber_some h _, UInt64.toNat_add v n, shows_numbered h _⟩
  | decr n =>
    refine ⟨_, _, call_renumber_some h _, ?_, shows_numbered h _⟩
    show (if v < n then 0 else v - n).toNat = v.toNat - n.toNat
    split_ifs with hlt
    · rw [UInt64.lt_iff_toNat_lt] at hlt
      exact (Nat.sub_eq_zero_of_le hlt.le).symm
    · rw [UInt64.lt_iff_toNat_lt] at hlt
      exact UInt64.toNat_sub_of_le v n (UInt64.le_iff_toNat_le.mpr (Nat.le_of_not_lt hlt))

/-- **The calls return the partial results of a fold.** -/
theorem execAll_some {o : Object} {v : UInt64} (h : o.number = some v) (cs : List Incdec) (i : Nat)
    (hi : i < cs.length) : ∃ w, (execAll cs o).1[i]? = some (.ok w) ∧
      w.toNat = (cs.take (i + 1)).foldl (fun v c => c.value v) v.toNat := by
  induction cs generalizing o v i with
  | nil => cases hi
  | cons c cs ih =>
    obtain ⟨w, o', hexec, hw, hshows⟩ := exec_some h c
    rw [execAll, hexec, List.take_succ_cons, List.foldl_cons, ← hw]
    cases i with
    | zero => exact ⟨w, rfl, rfl⟩
    | succ i => exact ih hshows.number i (Nat.lt_of_succ_lt_succ hi)

end Incdec

/-- **Increment and decrement.**  An object in a file, or whose data does not parse, refuses every call and
    stays as it is in all its fields.  An object with the number `v` takes every call: the result is `v + n`
    modulo 2^64, or `v - n` but not below 0; it is returned, and stored as its canonical text, which reads
    back as itself.  So the calls of a sequence return the results of folding these operations from `v`. -/
theorem incr_decr_fold (o : Object) :
    (o.mfile ≠ none ∨ stoull (o.mdata.take o.length) = none → ∀ n,
      o.call (.incr n) = (.error .notANumber, o) ∧ o.call (.decr n) = (.error .notANumber, o)) ∧
    ∀ v, o.mfile = none → stoull (o.mdata.take o.length) = some v →
      (∀ n, ∃ w o', o.call (.incr n) = (.ok w, o') ∧ w.toNat = (v.toNat + n.toNat) % 2 ^ 64 ∧
        o'.data = decimal w.toNat ∧ o'.length = o'.data.length ∧ stoull o'.data = some w) ∧
      (∀ n, ∃ w o', o.call (.decr n) = (.ok w, o') ∧ w.toNat = v.toNat - n.toNat ∧
        o'.data = decimal w.toNat ∧ o'.length = o'.data.length ∧ stoull o'.data = some w) ∧
      ∀ (cs : List Incdec) (i : Nat), i < cs.length → ∃ w, (Incdec.execAll cs o).1[i]? = some (.ok w) ∧
        w.toNat = (cs.take (i + 1)).foldl (fun v c => c.value v) v.toNat := by
  refine ⟨fun h n => ?_, fun v hf hs => ?_⟩
  · have hnone : o.number = none := by
      unfold Object.number
      split_ifs with hf
      · rfl
      · exact h.resolve_left fun hne => hf (Option.isSome_iff_ne_none.mpr hne)
    exact ⟨Incdec.exec_none hnone (.incr n), Incdec.exec_none hnone (.decr n)⟩
  · have hsome : o.number = some v := by
      unfold Object.number
      rw [hf, if_neg (by decide), hs]
    have hone : ∀ c : Incdec, ∃ w o', c.exec o = (.ok w, o') ∧ w.toNat = c.value v.toNat ∧
        o'.data = decimal w.toNat ∧ o'.length = o'.data.length ∧ stoull o'.data = some w := by
      intro c
      obtain ⟨w, o', hc, hw, hshows⟩ := Incdec.exec_some hsome c
      exact ⟨w, o', hc, hw, hshows.data, hshows.length, hshows.data ▸ stoull_decimal w⟩
    exact ⟨fun n => hone (.incr n), fun n => hone (.decr n), Incdec.execAll_some hsome⟩

end Yrmcds.Memcache
