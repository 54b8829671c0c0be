/-
  The size of objects: what keeps them within `max_data_size`, and what does not.

  Set, Add, Replace and RaU of the binary protocol, SET, ADD and REPLACE of the text protocol check the
  length of the data they are given before they look for the object.  Numbers have 20 digits at most.
  Nothing else is checked: Append and Prepend of both protocols, and the text CAS.

  `Cmd.unchecked` is the size such a command is about to give to the object it finds.  The step rule is an
  equivalence — from a state within the limit, a command leaves a state within the limit EXACTLY if its
  unchecked size is within it — so the whole run is within the limit exactly if every step is, and one
  append to a full object is enough to leave it.

  Sizes are exact only for objects that are SOUND: `m_length` is the length of the data, and a temporary
  file is used only above `heap_data_limit`.  Every object a command makes is sound.
-/
import Yrmcds.Memcache.Contents

namespace Yrmcds.Memcache

open ChainTable Run

/-! ## Objects -/

namespace Object

/-- The members of an object fit together. -/
structure Sound (limit : Nat) (o : Object) : Prop where
  length_eq : o.length = o.size
  file : ∀ f, o.mfile = some f → limit < o.length

/-- Sound, and of a size with the property `B`. -/
structure Sized (limit : Nat) (B : Nat → Prop) (o : Object) : Prop extends o.Sound limit where
  bound : B o.size

section

variable {limit : Nat} {B : Nat → Prop} {o : Object} {p : Bytes}

/-- Data just stored: in a file if it is too long for the heap. -/
theorem Sized.of_stored (hl : o.length = p.length) (hd : o.data = p)
    (hf : o.mfile = if p.length > limit then some p else none) (hB : B p.length) : o.Sized limit B where
  length_eq := by rw [hl, Object.size, hd]
  file f ho := by
    by_contra hle
    rw [hf, if_neg (by omega)] at ho
    cases ho
  bound := by rwa [Object.size, hd]

theorem Sized.set (o : Object) (f : UInt32) (t : Int) (hB : B p.length) :
    (o.set limit p f t).Sized limit B :=
  .of_stored rfl (set_data limit o p f t) rfl hB

theorem Sized.new (f : UInt32) (t : Int) (hB : B p.length) : (Object.new limit p f t).Sized limit B :=
  .of_stored rfl (new_data limit p f t) rfl hB

/-- A number, on the heap. -/
theorem Sized.of_number (n : UInt64) (hl : o.length = (decimal n.toNat).length)
    (hd : o.mdata = decimal n.toNat) (hf : o.mfile = none) (hB : ∀ n, n ≤ 20 → B n) : o.Sized limit B := by
  have hdata : o.data = decimal n.toNat := by rw [data, hf, hd]; rfl
  refine ⟨⟨by rw [hl, Object.size, hdata], fun f ho => ?_⟩, ?_⟩
  · rw [hf] at ho
    cases ho
  · rw [Object.size, hdata]
    exact hB _ (length_decimal_le n)

theorem Sized.renumber {o' : Object} {f : UInt64 → UInt64} {n : UInt64} (h : o.renumber f = some (n, o'))
    (hB : ∀ n, n ≤ 20 → B n) : o'.Sized limit B := by
  unfold Object.renumber at h
  split at h
  · next hf _ =>
    rw [Option.some.injEq, Prod.mk.injEq] at h
    rw [← h.2]
    exact .of_number _ rfl rfl hf hB
  · cases h

/-- A sound object on the heap has all of `m_data` in use. -/
theorem Sound.take_mdata (h : o.Sound limit) (hf : o.mfile = none) : o.mdata.take o.length = o.mdata := by
  have hlen := h.length_eq
  rw [Object.size, data, hf, Option.getD_none] at hlen
  rw [hlen, List.take_length]

/-- The data after `object::append`. -/
theorem Sound.append_data (h : o.Sound limit) (p : Bytes) : (o.append limit p).data = o.data ++ p := by
  unfold append
  split_ifs with hp hlim
  · rw [List.length_eq_zero_iff.mp hp, List.append_nil]
    rfl
  · cases hf : o.mfile with
    | none => rw [h.take_mdata hf]; simp only [data, hf, Option.getD_some, Option.getD_none]
    | some f => simp only [data, hf, Option.getD_some]
  · have hf : o.mfile = none := by
      cases hf : o.mfile with
      | none => rfl
      | some f => have := h.file f hf; omega
    simp only [data, modified, hf, Option.getD_none]

/-- ... and after `object::prepend`. -/
theorem Sound.prepend_data (h : o.Sound limit) (p : Bytes) : (o.prepend limit p).data = p ++ o.data := by
  unfold prepend
  split_ifs with hp hlim
  · rw [List.length_eq_zero_iff.mp hp, List.nil_append]
    rfl
  · cases hf : o.mfile with
    | none => rw [h.take_mdata hf]; simp only [data, hf, Option.getD_some, Option.getD_none]
    | some f =>
      have hlen := h.length_eq
      rw [Object.size, data, hf, Option.getD_some] at hlen
      simp only [data, hf, Option.getD_some]
      exact List.take_of_length_le (by rw [List.length_append]; omega)
  · have hf : o.mfile = none := by
      cases hf : o.mfile with
      | none => rfl
      | some f => have := h.file f hf; omega
    rw [h.take_mdata hf]
    simp only [data, modified, hf, Option.getD_none]

/-- Both count the length up, and use a file from `heap_data_limit` on. -/
theorem append_shape (limit : Nat) (o : Object) (p : Bytes) :
    (o.append limit p).length = o.length + p.length ∧
      ((o.append limit p).mfile = o.mfile ∨ limit < o.length + p.length) := by
  unfold append
  split_ifs with hp hlim
  · exact ⟨by rw [hp]; rfl, .inl rfl⟩
  · split <;> exact ⟨rfl, .inr hlim⟩
  · exact ⟨rfl, .inl rfl⟩

theorem prepend_shape (limit : Nat) (o : Object) (p : Bytes) :
    (o.prepend limit p).length = o.length + p.length ∧
      ((o.prepend limit p).mfile = o.mfile ∨ limit < o.length + p.length) := by
  unfold prepend
  split_ifs with hp hlim
  · exact ⟨by rw [hp]; rfl, .inl rfl⟩
  · split <;> exact ⟨rfl, .inr hlim⟩
  · exact ⟨rfl, .inl rfl⟩

/-- An operation that makes an object longer by the data it is given. -/
structure Grows (op : Nat → Object → Bytes → Object) : Prop where
  size : ∀ {limit o}, o.Sound limit → ∀ p, (op limit o p).size = o.size + p.length
  shape : ∀ limit o p, (op limit o p).length = o.length + p.length ∧
    ((op limit o p).mfile = o.mfile ∨ limit < o.length + p.length)

theorem grows_append : Grows append where
  size h p := by rw [Object.size, h.append_data, List.length_append]; rfl
  shape := append_shape

theorem grows_prepend : Grows prepend where
  size h p := by rw [Object.size, h.prepend_data, List.length_append, Nat.add_comm]; rfl
  shape := prepend_shape

theorem Grows.sized {op : Nat → Object → Bytes → Object} (hop : Grows op) (h : o.Sound limit)
    (hB : B (o.size + p.length)) : (op limit o p).Sized limit B := by
  obtain ⟨hl, hf⟩ := hop.shape limit o p
  refine ⟨⟨?_, fun f ho => ?_⟩, ?_⟩
  · rw [hl, hop.size h, h.length_eq]
  · rw [hl]
    rcases hf with hf | hf
    · have := h.file f (hf ▸ ho)
      omega
    · exact hf
  · rwa [hop.size h]

end

end Object

theorem stable_sized (limit : Nat) (B : Nat → Prop) : Stable fun _ => Object.Sized limit B where
  lock _ h := ⟨⟨h.length_eq, h.file⟩, h.bound⟩
  touch _ h := ⟨⟨h.length_eq, h.file⟩, h.bound⟩
  accessed h := ⟨⟨h.length_eq, h.file⟩, h.bound⟩
  survive h := ⟨⟨h.length_eq, h.file⟩, h.bound⟩

/-! ## What is not checked -/

/-- The size a binary command gives to the object it finds without a look at `max_data_size`: Append and
    Prepend, if they get past their tests. -/
def BinaryRequest.growth (g : Env) (flushTime : Int) (cmd : BinaryRequest) (o : Object) : Option Nat :=
  if cmd.Blocked g flushTime o then none else cmd.concatOp.map fun _ => o.size + cmd.data.length

/-- The same for a text command: APPEND, PREPEND, and CAS. -/
def TextRequest.growth (g : Env) (flushTime : Int) (cmd : TextRequest) (o : Object) : Option Nat :=
  if Text.Blocked g flushTime o then none
  else if cmd.command = .CAS then if o.cas = cmd.casUnique then some cmd.data.length else none
  else cmd.concatOp.map fun _ => o.size + cmd.data.length

/-- The size a command is about to give to a stored object, if it does not check it. -/
def Cmd.unchecked (g : Env) (m : HashMap Object) (flushTime : Int) : Cmd → Option Nat
  | .bin r => if r.status = .OK then (m.find r.key).bind fun p => r.growth g flushTime p.val else none
  | .text r => if r.valid then (m.find r.key).bind fun p => r.growth g flushTime p.val else none

variable {op : Nat → Object → Bytes → Object}

section Commands

variable {g : Env} {B : Nat → Prop} {m : HashMap Object} {t : Int}

theorem Object.grows_of_concat (h : op = Object.append ∨ op = Object.prepend) : Object.Grows op := by
  rcases h with rfl | rfl
  · exact Object.grows_append
  · exact Object.grows_prepend

theorem CasStores.not_blocked {r : TextRequest} {o : Object} (h : CasStores g r o t) :
    ¬ Text.Blocked g t o := by
  rintro (hb | hb)
  · rw [h.1] at hb; cases hb
  · rw [h.2.1] at hb; cases hb

/-- What a command puts is sound and of a size within `B`, if what it does not check is. -/
theorem Puts.sized (hmax : ∀ n, n ≤ g.config.maxDataSize → B n) (h20 : ∀ n, n ≤ 20 → B n) {c : Cmd}
    (hm : Every (fun _ => Object.Sized g.config.heapDataLimit B) m) (hu : ∀ n ∈ c.unchecked g m t, B n)
    {k : Key} {o : Object} (h : Puts g m t c k o) : o.Sized g.config.heapDataLimit B := by
  cases h with
  | binSet hp hd => exact .set _ _ _ (hmax _ hd)
  | binNew hc hd => exact .new _ _ (hmax _ hd)
  | textSet hp hd => exact .set _ _ _ (hmax _ hd)
  | textNew hc hd => exact .new _ _ (hmax _ hd)
  | number hp ho => exact .renumber ho h20
  | initial hc => exact .of_number _ rfl rfl rfl h20
  | @binConcat r p op hst hop hp hb =>
    refine (Object.grows_of_concat (BinaryRequest.concatOp_cases hop)).sized (hm _ _ hp).toSound (hu _ ?_)
    rw [Cmd.unchecked, if_pos hst, hp, Option.bind_some, BinaryRequest.growth, if_neg hb, hop]
    rfl
  | @textConcat r p op hv hop hp hb =>
    have hcas : r.command ≠ .CAS := by
      intro hc
      rw [TextRequest.concatOp, hc] at hop
      cases hop
    refine (Object.grows_of_concat (TextRequest.concatOp_cases hop)).sized (hm _ _ hp).toSound (hu _ ?_)
    rw [Cmd.unchecked, if_pos hv, hp, Option.bind_some, TextRequest.growth, if_neg hb, if_neg hcas, hop]
    rfl
  | @textCas r p hv hcmd hp hc =>
    refine .set _ _ _ (hu _ ?_)
    rw [Cmd.unchecked, if_pos hv, hp, Option.bind_some, TextRequest.growth, if_neg hc.not_blocked,
      if_pos hcmd, if_pos hc.2.2]
    rfl

/-! The other way round: an unchecked size is the size of an object afterwards. -/

variable {σ : Session} {k : KeyRef} {o : Object}

theorem applyOr_puts {key : Key} {p : Cell Key Object} (hp : m.find key = some p)
    {h : Handler} (c : Option Creator) (miss : Session → Session) {r : Bool × Object × Session}
    (hr : h (itemRef p) p.val σ = .ok r) :
    ∃ w, applyOr m key h c miss σ = .ok w ∧ w.1.find key = some (p.put r.2.1) := by
  obtain ⟨b, o', σ'⟩ := r
  rw [applyOr_of_found hp, hr]
  cases b <;> exact ⟨_, rfl, m.find_write_self hp o'⟩

theorem modifyHandler_passes {cmd : BinaryRequest} (hn : ¬ cmd.Blocked g σ.flushTime o)
    (body : KeyRef → Object → Session → Bool × Object × Session) :
    modifyHandler g cmd body k o σ = .ok (body k o σ) := by
  simp only [BinaryRequest.Blocked, not_or] at hn
  unfold modifyHandler casCheck
  rw [if_neg hn.1, if_neg hn.2.1, if_neg hn.2.2]

theorem Text.modifyHandler_passes {cmd : TextRequest} (hn : ¬ Text.Blocked g σ.flushTime o)
    (body : KeyRef → Object → Session → Bool × Object × Session) :
    Text.modifyHandler g cmd body k o σ = .ok (body k o σ) := by
  simp only [Text.Blocked, not_or] at hn
  unfold Text.modifyHandler
  rw [if_neg hn.1, if_neg hn.2]

theorem cmdBin_concat {r : BinaryRequest} (hst : r.status = .OK) (hop : r.concatOp = some op) :
    cmdBin g r m σ = applyOr m r.key (concatHandler g r op) none (notFound r) σ := by
  unfold BinaryRequest.concatOp at hop
  unfold cmdBin
  rw [if_neg (not_not.mpr hst)]
  cases hcmd : r.command <;> rw [hcmd] at hop <;> cases hop <;> rfl

theorem cmdText_concat {r : TextRequest} (hv : r.valid = true) (hop : r.concatOp = some op) :
    cmdText g r m σ = applyOr m r.key (Text.concatHandler g r op) none
      (fun σ => σ.textUnlessNoReply r .NOT_STORED) σ := by
  unfold TextRequest.concatOp at hop
  unfold cmdText
  rw [if_neg (by rw [hv]; decide)]
  cases hcmd : r.command <;> rw [hcmd] at hop <;> cases hop <;> rfl

/-- What a command does not check, it stores. -/
theorem exec_unchecked {c : Cmd} (hm : Every (fun _ => Object.Sound g.config.heapDataLimit) m)
    {n : Nat} (hn : n ∈ c.unchecked g m σ.flushTime) :
    ∃ w k p, c.exec g m σ = .ok w ∧ w.1.find k = some p ∧ p.val.size = n := by
  cases c with
  | bin r =>
    rw [Cmd.unchecked, Option.mem_def] at hn
    split_ifs at hn with hst
    obtain ⟨p, hp, hg⟩ := Option.bind_eq_some_iff.mp hn
    rw [BinaryRequest.growth] at hg
    split_ifs at hg with hb
    obtain ⟨op, hop, rfl⟩ := Option.map_eq_some_iff.mp hg
    obtain ⟨w, hw, hf⟩ := applyOr_puts hp none (notFound r) (modifyHandler_passes hb _)
    exact ⟨w, r.key, _, (cmdBin_concat hst hop).trans hw, hf,
      (Object.grows_of_concat (BinaryRequest.concatOp_cases hop)).size (hm _ p hp) r.data⟩
  | text r =>
    rw [Cmd.unchecked, Option.mem_def] at hn
    split_ifs at hn with hv
    obtain ⟨p, hp, hg⟩ := Option.bind_eq_some_iff.mp hn
    rw [TextRequest.growth] at hg
    split_ifs at hg with hb hcas hu
    · -- CAS
      have hb' := not_or.mp hb
      have hst : CasStores g r p.val σ.flushTime := ⟨by simpa using hb'.1, by simpa using hb'.2, hu⟩
      obtain ⟨w, hw, hf⟩ := applyOr_puts hp none (fun σ => σ.textUnlessNoReply r .NOT_FOUND)
        (casHandler_stored g σ hst (itemRef p))
      have hexec : cmdText g r m σ = .ok w := by
        unfold cmdText
        rw [if_neg (by rw [hv]; decide), hcas]
        exact hw
      refine ⟨w, r.key, _, hexec, hf, ?_⟩
      rw [← Option.some.inj hg, Object.size]
      exact congrArg List.length (Object.set_data ..)
    · obtain ⟨op, hop, rfl⟩ := Option.map_eq_some_iff.mp hg
      obtain ⟨w, hw, hf⟩ := applyOr_puts hp none (fun σ => σ.textUnlessNoReply r .NOT_STORED)
        (Text.modifyHandler_passes hb _)
      exact ⟨w, r.key, _, (cmdText_concat hv hop).trans hw, hf,
        (Object.grows_of_concat (TextRequest.concatOp_cases hop)).size (hm _ p hp) r.data⟩

end Commands

/-! ## Runs -/

namespace Server

/-- Every stored object is within `max_data_size`. -/
def Limited (s : Server) : Prop := ∀ c ∈ s.hash.cells, c.val.size ≤ s.config.maxDataSize

/-- What the step does not check is within `max_data_size` all the same. -/
def Within (s : Server) : Event → Prop
  | .cmd c _ r => ∀ conn ∈ s.conns c, ∀ n ∈ r.unchecked (s.env conn.fd) s.hash s.flushTime,
      n ≤ s.config.maxDataSize
  | _ => True

instance (s : Server) (e : Event) : Decidable (s.Within e) :=
  match e with
  | .cmd c _ r => inferInstanceAs (Decidable (∀ conn ∈ s.conns c,
      ∀ n ∈ r.unchecked (s.env conn.fd) s.hash s.flushTime, n ≤ s.config.maxDataSize))
  | .accept .. | .close .. | .tick .. | .gcStart .. | .gcNext => isTrue trivial

/-- The objects of the server are sound and of a size with the property `B`. -/
def AllSized (B : Nat → Prop) (s : Server) : Prop :=
  Every (fun _ => Object.Sized s.config.heapDataLimit B) s.hash

theorem limited_iff {s : Server} :
    s.Limited ↔ Every (fun _ o => o.size ≤ s.config.maxDataSize) s.hash := by
  constructor
  · intro h k p hp
    exact h p (s.hash.mem_cells_iff.mpr ((s.hash.find_key hp).symm ▸ hp))
  · intro h c hc
    exact h c.key c (s.hash.mem_cells_iff.mp hc)

/-- Nothing changes the configuration. -/
theorem step_config {s s' : Server} {e : Event} (h : s.step e = .ok s') : s'.config = s.config := by
  cases stepped_of_step h with
  | gcNext => unfold gcStep; split <;> rfl
  | _ => rfl

/-- A step keeps the sizes of objects within `B`, if what it does not check is. -/
theorem step_allSized {B : Nat → Prop} {s s' : Server} {e : Event} (hs : s.AllSized B)
    (hmax : ∀ n, n ≤ s.config.maxDataSize → B n) (h20 : ∀ n, n ≤ 20 → B n)
    (hu : ∀ c slaves r, e = .cmd c slaves r → ∀ conn ∈ s.conns c,
      ∀ n ∈ r.unchecked (s.env conn.fd) s.hash s.flushTime, B n)
    (h : s.step e = .ok s') : s'.AllSized B := by
  unfold AllSized
  rw [step_config h]
  refine step_every (stable_sized s.config.heapDataLimit B) hs ?_ h
  intro c slaves r he conn hc k o hput
  exact Puts.sized (g := s.env conn.fd) hmax h20 hs (hu c slaves r he conn hc) hput

/-- **The step rule**: from a state within the limit, a step that returns leaves one within the limit
    exactly if what it does not check is within it. -/
theorem within_iff {s : Server} (hs : s.AllSized (· ≤ s.config.maxDataSize))
    (h20 : 20 ≤ s.config.maxDataSize) (e : Event) :
    s.Within e ↔ ∀ s', s.step e = .ok s' → s'.Limited := by
  constructor
  · intro hw s' h
    rw [limited_iff, step_config h]
    intro k p hp
    have hs' := step_allSized hs (fun _ => id) (fun n hn => hn.trans h20)
      (by rintro c slaves r rfl; exact hw) h
    exact (hs' k p hp).bound
  · intro hlim
    cases e with
    | cmd c slaves r =>
      intro conn hc n hn
      obtain ⟨w, k, p, hw, hp, hsize⟩ := exec_unchecked (g := s.env conn.fd) (σ := s.session conn slaves)
        (fun k p hp => (hs k p hp).toSound) hn
      have hstep := step_cmd hc slaves hw
      have hp' := limited_iff.mp (hlim _ hstep) k p hp
      exact hsize ▸ hp'
    | _ => exact trivial

end Server

/-- **The object size limit, and exactly what it depends on**: a master that starts with an empty store is
    within `max_data_size` in every state of a run if and only if every append, prepend and text `cas` of
    the run that takes effect leaves its object within it. -/
theorem limited_throughout_iff (hash : Key → Nat) (alloc : List Nat → Nat)
    (fresh : ∀ live, alloc live ∉ live) (n : Nat) (config : Config) (gcConfig : GcConfig) (now : Int)
    (h20 : 20 ≤ config.maxDataSize)
    (es : List Event) :
    Throughout Server.Limited Server.step (Server.init hash alloc fresh n config gcConfig now) es
      ↔ Along Server.Within Server.step (Server.init hash alloc fresh n config gcConfig now) es := by
  have hinit : Every (fun _ => Object.Sized config.heapDataLimit (· ≤ config.maxDataSize))
      (Server.init hash alloc fresh n config gcConfig now).hash := by
    intro k p hp
    rw [Server.init, Table.find_empty] at hp
    cases hp
  refine throughout_iff_along
    (I := fun s => s.AllSized (· ≤ s.config.maxDataSize) ∧ 20 ≤ s.config.maxDataSize)
    ?_ ?_ ?_ es ⟨hinit, h20⟩
  · intro s hs
    exact Server.limited_iff.mpr fun k p hp => (hs.1 k p hp).bound
  · intro s e hs
    exact Server.within_iff hs.1 hs.2 e
  · -- soundness is kept by every step, the bound is what the step was required to keep
    intro s e s' hs h hlim
    have hsound : s'.AllSized fun _ => True :=
      Server.step_allSized (fun k p hp => ⟨(hs.1 k p hp).toSound, trivial⟩) (fun _ _ => trivial)
        (fun _ _ => trivial) (fun _ _ _ _ _ _ _ _ => trivial) h
    refine ⟨fun k p hp => ⟨(hsound k p hp).toSound, Server.limited_iff.mp hlim k p hp⟩, ?_⟩
    rw [Server.step_config h]
    exact hs.2

/-- APPEND of one byte to "x", in a step of connection 1. -/
def appendX : Event := .cmd 1 [] (.text { command := .APPEND, valid := true, key := [120], data := [98] })

/-- A run that stays within 20 bytes: one byte, and one more. -/
theorem limited_append :
    20 ≤ smallServer.config.maxDataSize ∧
      Throughout Server.Limited Server.step smallServer [.accept 1 5, .cmd 1 [] (.text storeX), appendX] :=
  ⟨by decide, (limited_throughout_iff (fun _ => 0) Table.bump Table.bump_fresh 0 ⟨20, 100⟩
    ⟨1024, 10, 100, 32, 64⟩ 100 (by decide) _).mpr (by decide)⟩

/-- **One append is enough**: 20 bytes are stored under "x", which is the limit, and then one more. -/
theorem append_exceeds_limit :
    ∃ s, run Server.step smallServer [.accept 1 5,
        .cmd 1 [] (.text { command := .SET, valid := true, key := [120], data := List.replicate 20 97 }),
        appendX] = .ok s ∧ ¬ s.Limited := by
  refine ⟨_, rfl, fun h => ?_⟩
  have hsize := Server.limited_iff.mp h [120] _ rfl
  exact absurd hsize (by decide)

end Yrmcds.Memcache
