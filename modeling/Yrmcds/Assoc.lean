/-
  What a hash map is for: a finite association of keys with objects.

  `Assoc α` maps a key to the object stored under it, and to the place where the map keeps its copy of the
  key (callbacks get a reference to that copy, so it can be seen from outside).  `Spec` states, call by
  call, what the comments of cybozu/hash_map.hpp promise:

  1. `apply` hands an object that is there to the handler and returns the handler's answer; for a key that
     is not there it stores what the creator makes and returns true; otherwise it returns false and
     changes nothing;
  2. `remove` and `remove_if` say whether the object was there, and take it out — `remove_if` only if the
     predicate says so;
  3. a scan (`gc` of a bucket, `foreach` of a bucket, `foreach` of the map) visits a list of keys that has
     each stored key of its range EXACTLY ONCE (`Visits`), one after the other.

  `call_meets` compares each call of the map in memory (`Yrmcds.Bucket`) with it: the lists of
  colliding items, the unlinking through a pointer to the previous `next` field while a scan is under way,
  and the address `new` happens to return.  `run_refines` is the same for every sequence of calls.
-/
import Yrmcds.Bucket
import Yrmcds.Lib.Run
import Mathlib.Logic.Function.Basic

namespace Yrmcds

open ChainTable Linked

/-- Which object is stored under a key, and where the map's copy of that key is. -/
abbrev Assoc (α : Type) := Key → Option (Nat × α)

/-- The calls of a map with `n + 1` buckets.  A bucket's `foreach` is a call of its own, because other
    threads may use the map between one bucket and the next. -/
inductive Op (n : Nat) (α σ ε : Type) where
  | apply (key : Key) (h : Option (HashMap.Handler α σ ε)) (c : Option (HashMap.Creator α σ))
  | remove (key : Key) (callback : Option (Key → σ → σ))
  | removeIf (key : Key) (pred : Key → α → σ → Except ε (Bool × α × σ))
  | gc (i : Fin (n + 1)) (pred : KeyRef → α → σ → Except ε (Bool × α × σ))
  | foreachBucket (i : Fin (n + 1)) (pred : KeyRef → α → σ → Except ε (α × σ))
  | foreach (pred : KeyRef → α → σ → Except ε (α × σ))

namespace Assoc

variable {n : Nat} {α σ ε : Type}

/-- One object is visited: it goes, or it stays as the predicate leaves it. -/
def visit (pred : KeyRef → α → σ → Except ε (Bool × α × σ)) (x : Assoc α × σ) (k : Key) :
    Except ε (Assoc α × σ) :=
  match x.1 k with
  | none => .ok x
  | some (a, o) =>
    match pred ⟨a, k⟩ o x.2 with
    | .ok (true, _, st') => .ok (Function.update x.1 k none, st')
    | .ok (false, o', st') => .ok (Function.update x.1 k (some (a, o')), st')
    | .error e => .error e

/-- The list `ks` has every stored key of the range exactly once, and no other. -/
def Visits (f : Assoc α) (range : Key → Prop) (ks : List Key) : Prop :=
  ks.Nodup ∧ ∀ k, k ∈ ks ↔ f k ≠ none ∧ range k

/-- **The documented semantics.**  `index` is the bucket number of a key; `none` is the result of a call
    that returns nothing. -/
inductive Spec (index : Key → Nat) :
    Op n α σ ε → Assoc α × σ → Option Bool → Assoc α × σ → Prop
  | handled {f : Assoc α} {key : Key} {a : Nat} {o o' : α} {h : HashMap.Handler α σ ε} {r : Bool}
      {st st' : σ}
      (c : Option (HashMap.Creator α σ)) (there : f key = some (a, o))
      (answer : h ⟨a, key⟩ o st = .ok (r, o', st')) :
      Spec index (.apply key (some h) c) (f, st) (some r) (Function.update f key (some (a, o')), st')
  | unhandled {f : Assoc α} {key : Key} (c : Option (HashMap.Creator α σ)) (st : σ) (there : f key ≠ none) :
      Spec index (.apply key none c) (f, st) (some false) (f, st)
  | created {f : Assoc α} {key : Key} {a : Nat} (h : Option (HashMap.Handler α σ ε))
      (c : HashMap.Creator α σ) (st : σ) (absent : f key = none) (fresh : ∀ k o, f k ≠ some (a, o)) :
      Spec index (.apply key h (some c)) (f, st) (some true)
        (Function.update f key (some (a, (c ⟨a, key⟩ st).1)), (c ⟨a, key⟩ st).2)
  | uncreated {f : Assoc α} {key : Key} (h : Option (HashMap.Handler α σ ε)) (st : σ)
      (absent : f key = none) :
      Spec index (.apply key h none) (f, st) (some false) (f, st)
  | removed {f : Assoc α} {key : Key} (callback : Option (Key → σ → σ)) (st : σ) (there : f key ≠ none) :
      Spec index (.remove key callback) (f, st) (some true)
        (Function.update f key none, match callback with | some g => g key st | none => st)
  | notRemoved {f : Assoc α} {key : Key} (callback : Option (Key → σ → σ)) (st : σ)
      (absent : f key = none) :
      Spec index (.remove key callback) (f, st) (some false) (f, st)
  | dropped {f : Assoc α} {key : Key} {a : Nat} {o o' : α}
      {pred : Key → α → σ → Except ε (Bool × α × σ)} {st st' : σ} (there : f key = some (a, o))
      (answer : pred key o st = .ok (true, o', st')) :
      Spec index (.removeIf key pred) (f, st) (some true) (Function.update f key none, st')
  | kept {f : Assoc α} {key : Key} {a : Nat} {o o' : α}
      {pred : Key → α → σ → Except ε (Bool × α × σ)} {st st' : σ} (there : f key = some (a, o))
      (answer : pred key o st = .ok (false, o', st')) :
      Spec index (.removeIf key pred) (f, st) (some true) (Function.update f key (some (a, o')), st')
  | notFound {f : Assoc α} {key : Key} (pred : Key → α → σ → Except ε (Bool × α × σ)) (st : σ)
      (absent : f key = none) : Spec index (.removeIf key pred) (f, st) (some false) (f, st)
  | gc {f : Assoc α} {ks : List Key} {i : Fin (n + 1)} {pred : KeyRef → α → σ → Except ε (Bool × α × σ)}
      {st : σ} {x : Assoc α × σ} (once : Visits f (fun k => index k = i) ks)
      (scan : ks.foldlM (visit pred) (f, st) = .ok x) : Spec index (.gc i pred) (f, st) none x
  | foreachBucket {f : Assoc α} {ks : List Key} {i : Fin (n + 1)} {pred : KeyRef → α → σ → Except ε (α × σ)}
      {st : σ} {x : Assoc α × σ} (once : Visits f (fun k => index k = i) ks)
      (scan : ks.foldlM (visit (ItemMap.keep pred)) (f, st) = .ok x) :
      Spec index (.foreachBucket i pred) (f, st) none x
  | foreach {f : Assoc α} {ks : List Key} {pred : KeyRef → α → σ → Except ε (α × σ)} {st : σ}
      {x : Assoc α × σ} (once : Visits f (fun _ => True) ks)
      (scan : ks.foldlM (visit (ItemMap.keep pred)) (f, st) = .ok x) :
      Spec index (.foreach pred) (f, st) none x

/-- A sequence of calls, with the results in order. -/
inductive SpecRun (index : Key → Nat) :
    List (Op n α σ ε) → Assoc α × σ → List (Option Bool) → Assoc α × σ → Prop
  | nil (x : Assoc α × σ) : SpecRun index [] x [] x
  | cons {op : Op n α σ ε} {ops : List (Op n α σ ε)} {x y z : Assoc α × σ} {r : Option Bool}
      {rs : List (Option Bool)} (first : Spec index op x r y) (rest : SpecRun index ops y rs z) :
      SpecRun index (op :: ops) x (r :: rs) z

end Assoc

namespace Op

variable {n : Nat} {α σ ε : Type}

/-- The keys whose objects a call may touch. -/
def Targets (index : Key → Nat) : Op n α σ ε → Key → Prop
  | .apply key _ _, k => k = key
  | .remove key _, k => k = key
  | .removeIf key _, k => k = key
  | .gc i _, k => index k = i
  | .foreachBucket i _, k => index k = i
  | .foreach _, _ => True

/-- One of the call's callbacks can throw `e`. -/
def Throws : Op n α σ ε → ε → Prop
  | .apply _ h _, e => ∃ g, h = some g ∧ ∃ k o st, g k o st = .error e
  | .remove _ _, _ => False
  | .removeIf _ pred, e => ∃ k o st, pred k o st = .error e
  | .gc _ pred, e => ∃ k o st, pred k o st = .error e
  | .foreachBucket _ pred, e => ∃ k o st, pred k o st = .error e
  | .foreach pred, e => ∃ k o st, pred k o st = .error e

end Op

namespace Assoc

variable {n : Nat} {α σ ε : Type} {index : Key → Nat}

/-- A scan touches the keys it visits. -/
theorem foldlM_visit_frame {pred : KeyRef → α → σ → Except ε (Bool × α × σ)} {k : Key} (ks : List Key) :
    ∀ {x y : Assoc α × σ}, ks.foldlM (visit pred) x = .ok y → k ∉ ks → y.1 k = x.1 k := by
  induction ks with
  | nil => intro x y h _; cases h; rfl
  | cons l ks ih =>
    intro x y h hk
    rw [List.mem_cons, not_or] at hk
    rw [List.foldlM_cons] at h
    rcases hv : visit pred x l with e | z
    · rw [hv] at h; cases h
    · rw [hv] at h
      have hz : z.1 k = x.1 k := by
        unfold visit at hv
        split at hv
        · cases hv; rfl
        · split at hv
          · cases hv; exact Function.update_of_ne hk.1 _ _
          · cases hv; exact Function.update_of_ne hk.1 _ _
          · cases hv
      exact (ih h hk.2).trans hz

/-- **The frame of a call**: the objects it does not target stay as they are. -/
theorem Spec.frame {op : Op n α σ ε} {x y : Assoc α × σ} {r : Option Bool} (h : Spec index op x r y)
    {k : Key}
    (hk : ¬ op.Targets index k) : y.1 k = x.1 k := by
  cases h with
  | handled => exact Function.update_of_ne hk _ _
  | unhandled => rfl
  | created => exact Function.update_of_ne hk _ _
  | uncreated => rfl
  | removed => exact Function.update_of_ne hk _ _
  | notRemoved => rfl
  | dropped => exact Function.update_of_ne hk _ _
  | kept => exact Function.update_of_ne hk _ _
  | notFound => rfl
  | gc once scan => exact foldlM_visit_frame _ scan fun hm => hk ((once.2 k).mp hm).2
  | foreachBucket once scan => exact foldlM_visit_frame _ scan fun hm => hk ((once.2 k).mp hm).2
  | foreach => exact absurd trivial hk

/-! ## The association of a table -/

/-- What a table associates. -/
def look (t : HashMap α) : Assoc α := fun k => (t.find k).map fun c => (c.addr, c.val)

section Look

variable (t : HashMap α) {key : Key} {p : Cell Key α}

theorem look_of_find (hp : t.find key = some p) : look t key = some (p.addr, p.val) :=
  congrArg (Option.map _) hp

theorem look_of_absent (hk : t.find key = none) : look t key = none := congrArg (Option.map _) hk

theorem look_eq_none : look t key = none ↔ t.find key = none := Option.map_eq_none_iff

theorem look_ne_of_fresh {a : Nat} (ha : a ∉ t.addrs) (k : Key) (o : α) : look t k ≠ some (a, o) := by
  intro h
  obtain ⟨c, hc, hco⟩ := Option.map_eq_some_iff.mp h
  obtain ⟨rfl, -⟩ := Prod.mk.inj hco
  exact ha (List.mem_map_of_mem (t.find_mem hc))

theorem look_write (hp : t.find key = some p) (o : α) :
    look (t.write p.addr o) = Function.update (look t) key (some (p.addr, o)) := by
  funext k
  by_cases hk : k = key
  · rw [hk, Function.update_self]
    exact look_of_find _ (t.find_write_self hp o)
  · rw [Function.update_of_ne hk]
    exact congrArg (Option.map _) (t.find_write_of_ne hp o hk)

theorem look_erase (hp : t.find key = some p) :
    look (t.erase p.addr) = Function.update (look t) key none := by
  funext k
  by_cases hk : k = key
  · rw [hk, Function.update_self]
    exact look_of_absent _ (t.find_erase_self hp)
  · rw [Function.update_of_ne hk]
    exact congrArg (Option.map _) (t.find_erase_of_ne hp hk)

theorem look_push (hk : t.find key = none) (o : α) :
    look (t.push key o) = Function.update (look t) key (some (t.newAddr, o)) := by
  funext k
  by_cases hne : k = key
  · rw [hne, Function.update_self]
    exact look_of_find _ (t.find_push_self o hk)
  · rw [Function.update_of_ne hne]
    exact congrArg (Option.map _) (t.find_push_of_ne o hk hne)

end Look

/-! ## Scans -/

/-- The keys of bucket `i`, in list order. -/
def bucketKeys (t : HashMap α) (i : Nat) : List Key := ((t.buckets[i]?).getD []).map Cell.key

theorem visits_bucketKeys (t : HashMap α) (i : Nat) :
    Visits (look t) (fun k => t.index k = i) (bucketKeys t i) := by
  refine ⟨t.nodup_bucket i, fun k => ⟨fun hk => ?_, fun ⟨hk, hi⟩ => ?_⟩⟩
  · obtain ⟨c, hc, rfl⟩ := List.mem_map.mp hk
    obtain ⟨hfind, hi⟩ := t.mem_bucket_iff.mp hc
    exact ⟨by rw [look_of_find t hfind]; simp, hi⟩
  · obtain ⟨c, hc⟩ := Option.ne_none_iff_exists'.mp fun hn => hk ((look_eq_none t).mpr hn)
    have hck : c.key = k := t.find_key hc
    refine List.mem_map.mpr ⟨c, t.mem_bucket_iff.mpr ⟨?_, ?_⟩, hck⟩
    · rw [hck, hc]
    · rw [hck, hi]

/-- The keys of all buckets are the stored keys. -/
theorem visits_all (t : HashMap α) :
    Visits (look t) (fun _ => True) ((List.range t.buckets.length).flatMap (bucketKeys t)) := by
  have hks : (List.range t.buckets.length).flatMap (bucketKeys t) = t.cells.map Cell.key := by
    refine (ItemMap.flatMap_range t (List.map Cell.key)).trans ?_
    rw [List.flatMap_def, ← List.map_flatten]
    rfl
  rw [hks]
  refine ⟨t.idents.1, fun k => ?_⟩
  rw [List.mem_map, ne_eq, look_eq_none, t.find_eq_none_iff]
  simp

/-- `f`, with what `cs` associates for the keys `ks`. -/
def patch (f : Assoc α) (ks : List Key) (cs : List (Cell Key α)) : Assoc α := fun k =>
  if ks.contains k then (cs.find? fun c => c.key = k).map fun c => (c.addr, c.val) else f k

section

variable {f : Assoc α} {ks : List Key} {cs : List (Cell Key α)} {k : Key}

theorem patch_of_mem (hk : k ∈ ks) :
    patch f ks cs k = (cs.find? fun c => c.key = k).map fun c => (c.addr, c.val) :=
  if_pos (List.contains_iff_mem.mpr hk)

theorem patch_of_not_mem (hk : k ∉ ks) : patch f ks cs k = f k :=
  if_neg (mt List.contains_iff_mem.mp hk)

/-- The first key may be settled before the others: `x` is what `ds` has for it, and for the others `ds`
    has what `cs` has. -/
theorem patch_update {key : Key} (hkey : key ∉ ks) (ds : List (Cell Key α)) {x : Option (Nat × α)}
    (hds : ∀ k, k ≠ key → ds.find? (fun d => d.key = k) = cs.find? (fun d => d.key = k))
    (hx : (ds.find? (fun d => d.key = key)).map (fun d => (d.addr, d.val)) = x) :
    patch (Function.update f key x) ks cs = patch f (key :: ks) ds := by
  funext k
  by_cases hk : k = key
  · rw [hk, patch_of_not_mem hkey, patch_of_mem List.mem_cons_self, Function.update_self, hx]
  by_cases hmem : k ∈ ks
  · rw [patch_of_mem hmem, patch_of_mem (List.mem_cons_of_mem _ hmem), hds k hk]
  · have hmem' : k ∉ key :: ks := by
      rw [List.mem_cons, not_or]
      exact ⟨hk, hmem⟩
    rw [patch_of_not_mem hmem, patch_of_not_mem hmem', Function.update_of_ne hk]

end

/-- No cell is left for a key that is not in the list the loop goes through. -/
theorem find?_edit {test : Key → Bool} {visit : Visitor Key α σ ε} {b cs : List (Cell Key α)} {st st' : σ}
    {r : Bool} (h : edit test visit b st = .ok (r, cs, st')) {k : Key} (hk : k ∉ b.map Cell.key) :
    cs.find? (fun c => c.key = k) = none := by
  rw [List.find?_eq_none]
  intro c hc hck
  have hsub := Table.ident_sublist_key (edit_sublist h)
  have hmem : c.key ∈ b.map Cell.key := hsub.subset (List.mem_map_of_mem hc)
  rw [show c.key = k by simpa using hck] at hmem
  exact hk hmem

/-- **A scan of a list is the scan of its keys**, cuts included. -/
theorem foldlM_visit (pred : KeyRef → α → σ → Except ε (Bool × α × σ)) (b : List (Cell Key α)) :
    ∀ (f : Assoc α) (st : σ), (b.map Cell.key).Nodup → (∀ c ∈ b, f c.key = some (c.addr, c.val)) →
      (b.map Cell.key).foldlM (visit pred) (f, st)
        = match edit (fun _ => true) (ItemMap.collect pred) b st with
          | .error e => .error e
          | .ok (_, cs, st') => .ok (patch f (b.map Cell.key) cs, st') := by
  induction b with
  | nil => intro f st _ _; rfl
  | cons c b ih =>
    intro f st hnd hf
    rw [List.map_cons, List.nodup_cons] at hnd
    have hfc : f c.key = some (c.addr, c.val) := hf c List.mem_cons_self
    -- Whatever becomes of `c`, the rest of the list is found as before.
    have hrest : ∀ x d, d ∈ b → Function.update f c.key x d.key = some (d.addr, d.val) := by
      intro x d hd
      have hmem : d.key ∈ b.map Cell.key := List.mem_map_of_mem hd
      have hne : d.key ≠ c.key := fun heq => hnd.1 (heq ▸ hmem)
      rw [Function.update_of_ne hne]
      exact hf d (List.mem_cons_of_mem _ hd)
    have hvisit : visit pred (f, st) c.key = match pred ⟨c.addr, c.key⟩ c.val st with
        | .ok (true, _, st') => .ok (Function.update f c.key none, st')
        | .ok (false, o', st') => .ok (Function.update f c.key (some (c.addr, o')), st')
        | .error e => .error e := by
      unfold visit
      dsimp only
      rw [hfc]
    have hcollect : ItemMap.collect pred c.addr c.key c.val st = match pred ⟨c.addr, c.key⟩ c.val st with
        | .ok (true, o', st') => .ok (.cut, o', st')
        | .ok (false, o', st') => .ok (.pass, o', st')
        | .error e => .error e := rfl
    rw [List.map_cons, List.foldlM_cons, edit, if_pos rfl, hvisit, hcollect]
    rcases pred ⟨c.addr, c.key⟩ c.val st with e | ⟨_ | _, o, st'⟩
    · rfl
    · refine (ih (Function.update f c.key (some (c.addr, o))) st' hnd.2 (hrest _)).trans ?_
      dsimp only
      rcases he : edit (fun _ => true) (ItemMap.collect pred) b st' with e | ⟨r, cs, st''⟩
      · rfl
      · refine congrArg (fun g => Except.ok (g, st'')) (patch_update hnd.1 (c.put o :: cs) ?_ ?_)
        · intro k hk
          have hne : ¬ decide ((c.put o).key = k) = true := fun h => hk (of_decide_eq_true h).symm
          exact List.find?_cons_of_neg hne
        · rw [List.find?_cons_of_pos (by simp [Cell.put])]
          rfl
    · refine (ih (Function.update f c.key none) st' hnd.2 (hrest _)).trans ?_
      dsimp only
      rcases he : edit (fun _ => true) (ItemMap.collect pred) b st' with e | ⟨r, cs, st''⟩
      · rfl
      · refine congrArg (fun g => Except.ok (g, st'')) (patch_update hnd.1 cs (fun _ _ => rfl) ?_)
        rw [find?_edit he hnd.1]
        rfl

theorem look_swept (t : HashMap α) {i : Nat} {b cs : List (Cell Key α)} (hb : t.buckets[i]? = some b)
    {pred : KeyRef → α → σ → Except ε (Bool × α × σ)} {r : Bool} {st st' : σ}
    (he : edit (fun _ => true) (ItemMap.collect pred) b st = .ok (r, cs, st')) :
    look (ItemMap.swept t i pred st) = patch (look t) (b.map Cell.key) cs := by
  have hbs := ItemMap.buckets_swept hb he
  have hi : i < t.buckets.length := (List.getElem?_eq_some_iff.mp hb).1
  have hlook : ∀ k, look (ItemMap.swept t i pred st) k
      = ((((t.buckets.set i cs)[t.index k]?).getD []).find? fun c => c.key = k).map
        fun c => (c.addr, c.val) := by
    intro k
    unfold look Table.find Table.chain Table.index
    rw [hbs, List.length_set]
    rfl
  funext k
  rw [hlook k]
  by_cases hk : t.index k = i
  · rw [hk, List.getElem?_set_self hi, Option.getD_some]
    by_cases hmem : k ∈ b.map Cell.key
    · rw [patch_of_mem hmem]
    · rw [patch_of_not_mem hmem, find?_edit he hmem]
      have hnone : look t k = none := by
        by_contra hne
        have := ((visits_bucketKeys t i).2 k).mpr ⟨hne, hk⟩
        unfold bucketKeys at this
        rw [hb] at this
        exact hmem this
      rw [hnone]
      rfl
  · have hmem : k ∉ b.map Cell.key := by
      intro hm
      obtain ⟨c, hc, rfl⟩ := List.mem_map.mp hm
      exact hk (t.placed i b hb c hc)
    rw [patch_of_not_mem hmem, List.getElem?_set_ne (Ne.symm hk)]
    rfl

/-- How a table may look after a scan of bucket `i`. -/
structure After (t t' : HashMap α) (i : Nat) : Prop where
  index : t'.index = t.index
  length : t'.buckets.length = t.buckets.length
  others : ∀ j, j ≠ i → t'.buckets[j]? = t.buckets[j]?

/-- **A scan of one bucket in memory** visits the keys of the bucket, unless the predicate throws. -/
theorem gc_visits {m : ItemMap α} {t : HashMap α} (h : m.Holds t) {i : Nat} (hi : i < t.buckets.length)
    (pred : KeyRef → α → σ → Except ε (Bool × α × σ)) (st : σ) :
    (∃ e, m.gc i pred st = .error (.thrown e) ∧ ∃ k o st', pred k o st' = .error e) ∨
    ∃ m' t' st', m.gc i pred st = .ok (m', st') ∧ m'.Holds t' ∧ After t t' i ∧
      (bucketKeys t i).foldlM (visit pred) (look t, st) = .ok (look t', st') := by
  have hb := List.getElem?_eq_getElem hi
  have hspec := ItemMap.gc_refines h hb pred st
  have hcells : ∀ c ∈ t.buckets[i], look t c.key = some (c.addr, c.val) := by
    intro c hc
    exact look_of_find t (t.mem_bucket_iff (i := i).mp (by rw [hb]; exact hc)).1
  have hfold := foldlM_visit pred t.buckets[i] (look t) st ?_ hcells
  · have hkeys : bucketKeys t i = t.buckets[i].map Cell.key := by
      unfold bucketKeys
      rw [hb]
      rfl
    rcases he : edit (fun _ => true) (ItemMap.collect pred) t.buckets[i] st with e | ⟨r, cs, st'⟩
    · rw [he] at hspec
      obtain ⟨a, k, o, st', hcol⟩ := edit_error he
      refine .inl ⟨e, hspec, ⟨a, k⟩, o, st', ?_⟩
      unfold ItemMap.collect at hcol
      split at hcol
      · cases hcol
      · cases hcol
      · rename_i heq
        cases hcol
        exact heq
    · rw [he] at hspec hfold
      obtain ⟨m', hm', hm⟩ := hspec
      have hbs := ItemMap.buckets_swept hb he
      refine .inr ⟨m', _, st', hm', hm, ⟨?_, ?_, fun j hj => ?_⟩, ?_⟩
      · funext k
        unfold Table.index
        rw [hbs, List.length_set]
        rfl
      · rw [hbs, List.length_set]
      · rw [hbs, List.getElem?_set_ne (Ne.symm hj)]
      · rw [hkeys, look_swept t hb he]
        exact hfold
  · have hnd := t.nodup_bucket i
    rw [hb] at hnd
    exact hnd

/-- **`foreach` of the map**: the buckets `is`, each once. -/
theorem foreach_visits (pred : KeyRef → α → σ → Except ε (α × σ)) (is : List Nat) :
    ∀ {m : ItemMap α} {t : HashMap α} (st : σ), m.Holds t → is.Nodup → (∀ i ∈ is, i < t.buckets.length) →
      (∃ e, is.foldlM (fun x i => x.1.foreachBucket i pred x.2) (m, st) = .error (.thrown e) ∧
        ∃ k o st', pred k o st' = .error e) ∨
      ∃ m' t' st', is.foldlM (fun x i => x.1.foreachBucket i pred x.2) (m, st)
          = (.ok (m', st') : Except (Fault ε) _) ∧ m'.Holds t' ∧ t'.index = t.index ∧
        t'.buckets.length = t.buckets.length ∧
        (is.flatMap (bucketKeys t)).foldlM (visit (ItemMap.keep pred)) (look t, st) = .ok (look t', st') := by
  induction is with
  | nil => intro m t st h _ _; exact .inr ⟨m, t, st, rfl, h, rfl, rfl, rfl⟩
  | cons i is ih =>
    intro m t st h hnd hlt
    rw [List.nodup_cons] at hnd
    rw [List.foldlM_cons, List.flatMap_cons, List.foldlM_append]
    rcases gc_visits h (hlt i List.mem_cons_self) (ItemMap.keep pred) st with
      ⟨e, hgc, k, o, st', hkeep⟩ | ⟨m1, t1, st1, hgc, h1, ha, hfold⟩
    · refine .inl ⟨e, ?_, k, o, st', ?_⟩
      · rw [show m.foreachBucket i pred st = _ from hgc]
        rfl
      · unfold ItemMap.keep at hkeep
        split at hkeep
        · cases hkeep
        · rename_i heq
          cases hkeep
          exact heq
    · have hkeys : is.flatMap (bucketKeys t1) = is.flatMap (bucketKeys t) := by
        refine List.flatMap_congr fun j hj => ?_
        have hne : j ≠ i := fun heq => hnd.1 (heq ▸ hj)
        unfold bucketKeys
        rw [ha.others j hne]
      rw [show m.foreachBucket i pred st = _ from hgc, hfold]
      rcases ih st1 h1 hnd.2 fun j hj => ha.length ▸ hlt j (List.mem_cons_of_mem _ hj) with
        hthrow | ⟨m', t', st', hm', h', hidx, hlen, hfold'⟩
      · exact .inl hthrow
      · rw [hkeys] at hfold'
        exact .inr ⟨m', t', st', hm', h', hidx.trans ha.index, hlen.trans ha.length, hfold'⟩

end Assoc

/-! ## Calls of the map in memory -/

namespace ItemMap

variable {n : Nat} {α σ ε : Type}

/-- A call: its result, if it has one, and the map and the captured state after it. -/
def call (m : ItemMap α) (st : σ) : Op n α σ ε → Except (Fault ε) (Option Bool × ItemMap α × σ)
  | .apply key h c => (m.applyNolock key h c st).map fun x => (some x.1, x.2)
  | .remove key callback => (m.removeNolock key callback st).map fun x => (some x.1, x.2)
  | .removeIf key pred => (m.removeIf key pred st).map fun x => (some x.1, x.2)
  | .gc i pred => (m.gc i pred st).map fun x => (none, x)
  | .foreachBucket i pred => (m.foreachBucket i pred st).map fun x => (none, x)
  | .foreach pred => (m.foreach pred st).map fun x => (none, x)

/-- What a call owes to the abstract map. -/
inductive Meets (t : HashMap α) (op : Op n α σ ε) (st : σ) :
    Except (Fault ε) (Option Bool × ItemMap α × σ) → Prop
  | ok {m : ItemMap α} {t' : HashMap α} {r : Option Bool} {st' : σ} (holds : m.Holds t')
      (index : t'.index = t.index) (length : t'.buckets.length = t.buckets.length)
      (spec : Assoc.Spec t.index op (Assoc.look t, st) r (Assoc.look t', st')) :
      Meets t op st (.ok (r, m, st'))
  | thrown {e : ε} (h : op.Throws e) : Meets t op st (.error (.thrown e))

section Calls

variable {m : ItemMap α} {t : HashMap α}

theorem apply_meets (h : m.Holds t) (key : Key) (hd : Option (HashMap.Handler α σ ε))
    (c : Option (HashMap.Creator α σ)) (st : σ) :
    Meets t (.apply key hd c : Op n α σ ε) st (m.call st (.apply key hd c : Op n α σ ε)) := by
  obtain ⟨a, ha, href⟩ := applyNolock_refines h key hd c st
  show Meets t _ st ((m.applyNolock key hd c st).map fun x => (some x.1, x.2))
  generalize m.applyNolock key hd c st = x at href ⊢
  cases hp : t.find key with
  | none =>
    have hfind : (steer t a).find key = none := hp
    cases c with
    | none =>
      rw [HashMap.apply_absent hfind] at href
      cases href with
      | ok _ hm _ => exact .ok (t := t) hm rfl rfl (.uncreated hd st (Assoc.look_of_absent t hp))
    | some c =>
      rw [HashMap.apply_create hfind, newAddr_steer t ha] at href
      have hlook := Assoc.look_push (steer t a) hfind (c ⟨a, key⟩ st).1
      rw [newAddr_steer t ha] at hlook
      cases href with
      | ok _ hm _ =>
        refine .ok (t := t) hm (Table.index_push (steer t a) key _) ?_ ?_
        · unfold Table.push
          rw [dif_pos hfind]
          exact List.length_modify _ _ _
        · rw [hlook]
          exact .created hd c st (Assoc.look_of_absent t hp) (Assoc.look_ne_of_fresh t ha)
  | some p =>
    have hfind : (steer t a).find key = some p := hp
    have hlook := Assoc.look_of_find t hp
    cases hd with
    | none =>
      unfold HashMap.apply at href
      rw [hfind] at href
      cases href with
      | ok _ hm _ =>
        have hthere : Assoc.look t key ≠ none := by rw [hlook]; simp
        exact .ok (t := t) hm rfl rfl (.unhandled c st hthere)
    | some g =>
      rw [HashMap.apply_found hfind] at href
      have hkey : (itemRef p) = ⟨p.addr, key⟩ := by rw [← t.find_key hp]; rfl
      rw [hkey] at href
      rcases hr : g ⟨p.addr, key⟩ p.val st with e | ⟨r, o, st'⟩
      · rw [hr] at href
        cases href with
        | thrown =>
          have hthrow : (Op.apply key (some g) c : Op n α σ ε).Throws e := ⟨g, rfl, _, _, _, hr⟩
          exact .thrown hthrow
      · rw [hr] at href
        cases href with
        | ok _ hm _ =>
          refine .ok (t := t) hm (Table.index_write (steer t a) p.addr o) List.length_mapIdx ?_
          rw [Assoc.look_write (steer t a) hfind o]
          exact .handled c hlook hr

theorem remove_meets (h : m.Holds t) (key : Key) (callback : Option (Key → σ → σ)) (st : σ) :
    Meets t (.remove key callback : Op n α σ ε) st (m.call st (.remove key callback : Op n α σ ε)) := by
  have href := removeNolock_refines (ε := ε) h key callback st
  unfold HashMap.removeNolock at href
  show Meets t _ st ((m.removeNolock key callback st).map fun x => (some x.1, x.2))
  generalize (m.removeNolock key callback st : Except (Fault ε) _) = x at href ⊢
  cases hp : t.find key with
  | none =>
    rw [hp] at href
    cases href with
    | ok _ hm _ => exact .ok (t := t) hm rfl rfl (.notRemoved callback st (Assoc.look_of_absent t hp))
  | some p =>
    rw [hp] at href
    have hthere : Assoc.look t key ≠ none := by rw [Assoc.look_of_find t hp]; simp
    have hspec : Assoc.Spec t.index (.remove key callback : Op n α σ ε) (Assoc.look t, st) (some true) _ :=
      .removed callback st hthere
    rw [← Assoc.look_erase t hp] at hspec
    cases callback with
    | none =>
      cases href with
      | ok _ hm _ => exact .ok hm (t.index_erase p.addr) List.length_mapIdx hspec
    | some g =>
      cases href with
      | ok _ hm _ => exact .ok hm (t.index_erase p.addr) List.length_mapIdx hspec

theorem removeIf_meets (h : m.Holds t) (key : Key) (pred : Key → α → σ → Except ε (Bool × α × σ)) (st : σ) :
    Meets t (.removeIf key pred : Op n α σ ε) st (m.call st (.removeIf key pred : Op n α σ ε)) := by
  have href := removeIf_refines h key pred st
  unfold HashMap.removeIf at href
  show Meets t _ st ((m.removeIf key pred st).map fun x => (some x.1, x.2))
  generalize m.removeIf key pred st = x at href ⊢
  cases hp : t.find key with
  | none =>
    rw [hp] at href
    cases href with
    | ok _ hm _ => exact .ok hm rfl rfl (.notFound pred st (Assoc.look_of_absent t hp))
  | some p =>
    rw [hp] at href
    dsimp only at href
    have hlook := Assoc.look_of_find t hp
    rcases hr : pred key p.val st with e | ⟨_ | _, o, st'⟩
    · rw [hr] at href
      cases href with
      | thrown =>
        have hthrow : (Op.removeIf key pred : Op n α σ ε).Throws e := ⟨key, p.val, st, hr⟩
        exact .thrown hthrow
    · rw [hr] at href
      cases href with
      | ok _ hm _ =>
        refine .ok hm (t.index_write p.addr o) List.length_mapIdx ?_
        rw [Assoc.look_write t hp o]
        exact .kept hlook hr
    · rw [hr] at href
      cases href with
      | ok _ hm _ =>
        refine .ok hm (t.index_erase p.addr) List.length_mapIdx ?_
        rw [Assoc.look_erase t hp]
        exact .dropped hlook hr

theorem gc_meets (h : m.Holds t) (hn : t.buckets.length = n + 1) (i : Fin (n + 1))
    (pred : KeyRef → α → σ → Except ε (Bool × α × σ)) (st : σ) :
    Meets t (.gc i pred : Op n α σ ε) st (m.call st (.gc i pred : Op n α σ ε)) := by
  have hi : i.val < t.buckets.length := by rw [hn]; exact i.isLt
  show Meets t _ st ((m.gc i pred st).map fun x => (none, x))
  rcases Assoc.gc_visits h hi pred st with ⟨e, hgc, hthrow⟩ | ⟨m', t', st', hgc, h', ha, hfold⟩
  · rw [hgc]
    exact .thrown hthrow
  · rw [hgc]
    exact .ok h' ha.index ha.length (.gc (Assoc.visits_bucketKeys t i) hfold)

theorem foreachBucket_meets (h : m.Holds t) (hn : t.buckets.length = n + 1) (i : Fin (n + 1))
    (pred : KeyRef → α → σ → Except ε (α × σ)) (st : σ) :
    Meets t (.foreachBucket i pred : Op n α σ ε) st (m.call st (.foreachBucket i pred : Op n α σ ε)) := by
  have hone := Assoc.foreach_visits pred [i.val] st h (List.nodup_singleton _)
    (fun j hj => by rw [List.mem_singleton.mp hj, hn]; exact i.isLt)
  have hfold :
    [i.val].foldlM (fun x i => x.1.foreachBucket i pred x.2) (m, st) = m.foreachBucket i pred st :=
    bind_pure _
  rw [hfold, List.flatMap_singleton] at hone
  show Meets t _ st ((m.foreachBucket i pred st).map fun x => (none, x))
  rcases hone with ⟨e, hfor, hthrow⟩ | ⟨m', t', st', hfor, h', hidx, hlen, hscan⟩
  · rw [hfor]
    exact .thrown hthrow
  · rw [hfor]
    exact .ok h' hidx hlen (.foreachBucket (Assoc.visits_bucketKeys t i) hscan)

theorem foreach_meets (h : m.Holds t) (pred : KeyRef → α → σ → Except ε (α × σ)) (st : σ) :
    Meets t (.foreach pred : Op n α σ ε) st (m.call st (.foreach pred : Op n α σ ε)) := by
  have hall := Assoc.foreach_visits pred (List.range t.buckets.length) st h List.nodup_range
    (fun j hj => List.mem_range.mp hj)
  show Meets t _ st ((m.foreach pred st).map fun x => (none, x))
  unfold foreach
  rw [h.bucketCount]
  rcases hall with ⟨e, hfor, hthrow⟩ | ⟨m', t', st', hfor, h', hidx, hlen, hscan⟩
  · rw [hfor]
    exact .thrown hthrow
  · rw [hfor]
    exact .ok h' hidx hlen (.foreach (Assoc.visits_all t) hscan)

/-- **Every call** of the map in memory does what the documentation says of it. -/
theorem call_meets (h : m.Holds t) (hn : t.buckets.length = n + 1) (op : Op n α σ ε) (st : σ) :
    Meets t op st (m.call st op) := by
  cases op with
  | apply key hd c => exact apply_meets h key hd c st
  | remove key callback => exact remove_meets h key callback st
  | removeIf key pred => exact removeIf_meets h key pred st
  | gc i pred => exact gc_meets h hn i pred st
  | foreachBucket i pred => exact foreachBucket_meets h hn i pred st
  | foreach pred => exact foreach_meets h pred st

end Calls

end ItemMap

/-! ## Sequences of calls -/

/-- A map in use: the map, what its callbacks have captured, and the results so far. -/
structure InUse (α σ : Type) where
  map : ItemMap α
  st : σ
  results : List (Option Bool)

namespace InUse

variable {n : Nat} {α σ ε : Type}

/-- A call; its answer is noted. -/
def step (s : InUse α σ) (op : Op n α σ ε) : Except (Fault ε) (InUse α σ) :=
  (s.map.call s.st op).map fun x => ⟨x.2.1, x.2.2, s.results ++ [x.1]⟩

/-- A run from a map that holds a table: it ends in a throw of a callback, or as the abstract map does. -/
theorem run_refines (ops : List (Op n α σ ε)) :
    ∀ {s : InUse α σ} {t : HashMap α}, s.map.Holds t → t.buckets.length = n + 1 →
      match Run.run step s ops with
      | .error x => ∃ e, x = .thrown e ∧ ∃ op ∈ ops, op.Throws e
      | .ok s' => ∃ t' rs, s'.map.Holds t' ∧ t'.index = t.index ∧ t'.buckets.length = n + 1 ∧
          s'.results = s.results ++ rs ∧
          Assoc.SpecRun t.index ops (Assoc.look t, s.st) rs (Assoc.look t', s'.st) := by
  induction ops with
  | nil => intro s t h hn; exact ⟨t, [], h, rfl, hn, (List.append_nil _).symm, .nil _⟩
  | cons op ops ih =>
    intro s t h hn
    have hcall := ItemMap.call_meets h hn op s.st
    rw [Run.run]
    unfold step
    generalize s.map.call s.st op = x at hcall
    cases hcall with
    | thrown hthrow => exact ⟨_, rfl, op, List.mem_cons_self, hthrow⟩
    | @ok m1 t1 r st1 h1 hidx hlen hspec =>
      have hrest := ih (s := ⟨m1, st1, s.results ++ [r]⟩) h1 (hlen.trans hn)
      show match Run.run step ⟨m1, st1, s.results ++ [r]⟩ ops with | .error x => _ | .ok s' => _
      rcases hr : Run.run step ⟨m1, st1, s.results ++ [r]⟩ ops with x | s'
      · rw [hr] at hrest
        obtain ⟨e, rfl, op', hop, hthrow⟩ := hrest
        exact ⟨e, rfl, op', List.mem_cons_of_mem _ hop, hthrow⟩
      · rw [hr] at hrest
        obtain ⟨t', rs, h', hidx', hlen', hres, hrun⟩ := hrest
        rw [hidx] at hrun hidx'
        refine ⟨t', r :: rs, h', hidx', hlen', ?_, .cons hspec hrun⟩
        rw [hres, List.append_assoc]
        rfl

/-- One more call: the objects it does not target are found as before. -/
theorem step_frame {s s' : InUse α σ} {t : HashMap α} (h : s.map.Holds t) (hn : t.buckets.length = n + 1)
    {op : Op n α σ ε} (hs : step s op = .ok s') {k : Key} (hk : ¬ op.Targets s.map.getBucket k) :
    s'.map.lookup k = s.map.lookup k := by
  have hcall := ItemMap.call_meets h hn op s.st
  unfold step at hs
  generalize s.map.call s.st op = x at hcall hs
  cases hcall with
  | thrown => cases hs
  | ok h' hidx hlen hspec =>
    cases hs
    rw [funext h.getBucket] at hk
    exact (h'.lookup k).trans ((hspec.frame hk).trans (h.lookup k).symm)

/-- **The hash map is a finite map.**  Whatever the hash function, the allocator and the number of buckets,
    and whatever the callbacks do, for every sequence of calls on a new map:

    * the only way to fail is a callback that throws — no freed item is read, and no loop runs for ever;
    * no key occurs twice;
    * results, captured state and association are those of the documented semantics, scans visiting every
      stored object of their range exactly once;
    * one more call leaves alone every object that it does not target. -/
theorem map_refines (hash : Key → Nat) (alloc : List Nat → Nat) (fresh : ∀ live, alloc live ∉ live)
    (n : Nat)
    (st : σ) (ops : List (Op n α σ ε)) :
    (∀ x, Run.run step ⟨ItemMap.init hash alloc fresh n, st, []⟩ ops = .error x →
      ∃ e, x = .thrown e ∧ ∃ op ∈ ops, op.Throws e) ∧
    ∀ s, Run.run step ⟨ItemMap.init hash alloc fresh n, st, []⟩ ops = .ok s →
      s.map.keys.Nodup ∧
      Assoc.SpecRun (fun k => hash k % (n + 1)) ops (fun _ => none, st) s.results (s.map.lookup, s.st) ∧
      ∀ (op : Op n α σ ε) s', step s op = .ok s' →
        ∀ k, ¬ op.Targets s.map.getBucket k → s'.map.lookup k = s.map.lookup k := by
  have h₀ := ItemMap.holds_init (α := α) hash alloc fresh n
  have hn : (Table.empty (α := α) hash alloc fresh n).buckets.length = n + 1 := List.length_replicate
  have hindex : (Table.empty (α := α) hash alloc fresh n).index = fun k => hash k % (n + 1) := by
    funext k
    unfold Table.index
    rw [hn]
    rfl
  have hlook : Assoc.look (Table.empty (α := α) hash alloc fresh n) = fun _ => none := by
    funext k
    exact Assoc.look_of_absent _ (Table.find_empty hash alloc fresh n k)
  have hrun := run_refines ops (s := ⟨ItemMap.init hash alloc fresh n, st, []⟩) h₀ hn
  refine ⟨fun x hx => ?_, fun s hs => ?_⟩
  · rw [hx] at hrun
    exact hrun
  · rw [hs] at hrun
    obtain ⟨t, rs, ht, -, htn, hres, hspec⟩ := hrun
    rw [hindex, hlook] at hspec
    have hseen : s.map.lookup = Assoc.look t := funext ht.lookup
    refine ⟨ht.nodup_keys, ?_, fun op s' hs' k hk => step_frame ht htn hs' hk⟩
    rw [hseen, hres]
    exact hspec

/-- Three keys that collide, and a scan that takes out the middle one and its neighbour. -/
def collisions : List (Op 0 Nat (List Key) Unit) :=
  let store (key : Key) (o : Nat) : Op 0 Nat (List Key) Unit := .apply key none (some fun _ st => (o, st))
  [store [1] 10, store [2] 20, store [3] 30, store [4] 40,
    .gc 0 fun k o seen => .ok (decide (o = 20 ∨ o = 30), o + 1, seen ++ [k.key]),
    .remove [4] none, .apply [4] none none]

theorem map_refines_collisions :
    ∃ s, Run.run step ⟨ItemMap.init (fun _ => 7) Table.bump Table.bump_fresh 0, [], []⟩ collisions = .ok s ∧
      s.map.keys = [[1]] ∧ s.map.lookup [1] = some (0, 11) ∧ s.st = [[4], [3], [2], [1]] ∧
      s.results = [some true, some true, some true, some true, none, some true, some false] ∧
      s.map.keys.Nodup :=
  ⟨_, rfl, by decide, by decide, by decide, by decide,
    ((map_refines (fun _ => 7) Table.bump Table.bump_fresh 0 [] collisions).2 _ rfl).1⟩

end InUse

end Yrmcds
