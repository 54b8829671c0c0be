/-
  A Keys request beside everything else (cybozu/hash_map.hpp, src/memcache/sockets.cpp, docs/keys.md).

  `hash_map::foreach` takes the lock of ONE bucket, reports its keys, gives the lock back and goes on to the
  next.  Between two buckets other connections execute commands, the garbage collector visits buckets, the
  clock moves and the map may be flushed.  In the server model a command is one step, which is right for
  all commands but this; here a Keys request is a `Scan` that is visiting bucket `next`, and a run is any
  interleaving of its visits with steps of the server.

  What holds of the whole request comes from three facts about a single visit.

  * A visit reports the keys of its bucket that have the prefix and have not expired, each once
    (`visited`, `step_visit_reported`).
  * The bucket of a key never changes (`Server.step_index`), so a key can be reported by one visit only.
  * The visits of a run are visits of the buckets 0, 1, 2, .. (`Trail`).
-/
import Yrmcds.Memcache.Keys

namespace Yrmcds.Memcache

open ChainTable Run

/-! ## The request -/

/-- A Keys request of either protocol. -/
inductive KeysRequest where
  | binary (cmd : BinaryRequest)
  | text (cmd : TextRequest)

namespace KeysRequest

/-- The prefix asked for. -/
def key : KeysRequest → Key
  | binary cmd => cmd.key
  | text cmd => cmd.key

/-- The predicate passed to `foreach`. -/
def pred (q : KeysRequest) (g : Env) : KeyRef → Object → Session → Except Err Session :=
  match q with
  | binary cmd => keysPred g cmd
  | text cmd => Text.keysPred g cmd

end KeysRequest

/-- The key a reply reports. -/
def Reply.reported : Reply → Option Key
  | .binary r =>
    match r.body with
    | .key k => some k
    | _ => none
  | .text (.KEY k) => some k
  | _ => none

/-- A request under way: the server, the bucket to be visited next, and what the request has sent. -/
structure Scan where
  server : Server
  next : Nat := 0
  session : Session := {}

/-- What happens while a request enumerates keys. -/
inductive ScanEvent where
  | visit                      -- the request visits its next bucket
  | other (e : Event)          -- anything else happens

namespace Scan

/-- The request begins. -/
def start (v : Server) : Scan := { server := v }

/-- One step, of a request of the connection with descriptor `ctx`. -/
def step (q : KeysRequest) (ctx : Int) (s : Scan) : ScanEvent → Except Err Scan
  | .visit =>
    if s.next < s.server.hash.buckets.length then
      match HashMap.foreachBucket s.server.hash s.next (q.pred (s.server.env ctx))
        { s.session with flushTime := s.server.flushTime } with
      | .ok σ => .ok { s with next := s.next + 1, session := σ }
      | .error e => .error e
    else .ok s
  | .other e =>
    match s.server.step e with
    | .ok v => .ok { s with server := v }
    | .error e => .error e

/-- The keys reported so far. -/
def reported (s : Scan) : List Key := s.session.out.filterMap Reply.reported

/-- Every bucket has been visited. -/
def Done (s : Scan) : Prop := s.server.hash.buckets.length ≤ s.next

/-- The key is stored, and has not expired. -/
def Live (k : Key) (s : Scan) : Prop :=
  ∃ p, s.server.hash.find k = some p ∧ p.val.expired s.server.now s.server.flushTime = false

end Scan

/-! ## One visit -/

/-- A key that is reported. -/
def KeysRequest.picks (q : KeysRequest) (now flushTime : Int) (c : Cell Key Object) : Bool :=
  ! c.val.expired now flushTime && q.key.isPrefixOf c.key

/-- The predicate on one object. -/
theorem KeysRequest.pred_reported {q : KeysRequest} {g : Env} {c : Cell Key Object} {σ σ' : Session}
    (h : q.pred g (itemRef c) c.val σ = .ok σ') :
    σ'.flushTime = σ.flushTime ∧ σ'.out.filterMap Reply.reported
      = σ.out.filterMap Reply.reported ++ if q.picks g.now σ.flushTime c then [c.key] else [] := by
  unfold KeysRequest.picks
  cases q with
  | binary cmd =>
    dsimp only [KeysRequest.pred, keysPred, KeysRequest.key] at h ⊢
    by_cases he : c.val.expired g.now σ.flushTime = true
    · rw [if_pos he] at h
      cases h
      simp [he]
    · rw [if_neg he] at h
      by_cases hp : cmd.key.isPrefixOf c.key = true
      · rw [if_pos (show cmd.key.isPrefixOf (itemRef c).key = true from hp)] at h
        cases h
        simp [he, hp, Session.bin, Session.send, Reply.reported]
      · rw [if_neg (show ¬ cmd.key.isPrefixOf (itemRef c).key = true from hp)] at h
        cases h
        simp [he, hp]
  | text cmd =>
    dsimp only [KeysRequest.pred, Text.keysPred, KeysRequest.key] at h ⊢
    by_cases he : c.val.expired g.now σ.flushTime = true
    · rw [if_pos he] at h
      cases h
      simp [he]
    · rw [if_neg he] at h
      by_cases hp : cmd.key.isPrefixOf c.key = true
      · rw [if_pos (show cmd.key.isPrefixOf (itemRef c).key = true from hp)] at h
        split_ifs at h
        cases h
        simp [he, hp, Session.text, Session.send, Reply.reported]
      · rw [if_neg (show ¬ cmd.key.isPrefixOf (itemRef c).key = true from hp)] at h
        cases h
        simp [he, hp]

/-- ... and on a list of objects. -/
theorem KeysRequest.foldlM_reported {q : KeysRequest} {g : Env} (b : List (Cell Key Object)) :
    ∀ {σ σ' : Session}, b.foldlM (fun σ c => q.pred g (itemRef c) c.val σ) σ = .ok σ' →
      σ'.flushTime = σ.flushTime ∧ σ'.out.filterMap Reply.reported
        = σ.out.filterMap Reply.reported ++ (b.filter (q.picks g.now σ.flushTime)).map Cell.key := by
  induction b with
  | nil =>
    intro σ σ' h
    cases h
    simp
  | cons c b ih =>
    intro σ σ' h
    rw [List.foldlM_cons] at h
    cases hc : q.pred g (itemRef c) c.val σ with
    | error e => rw [hc] at h; cases h
    | ok σ1 =>
      rw [hc] at h
      obtain ⟨hflush, hout⟩ := q.pred_reported hc
      obtain ⟨hflush', hout'⟩ := ih h
      refine ⟨hflush'.trans hflush, ?_⟩
      rw [hout', hout, hflush, List.append_assoc, List.filter_cons]
      split_ifs <;> rfl

namespace Scan

variable {q : KeysRequest} {ctx : Int} {s s' : Scan} {k : Key}

/-- The keys that a visit reports. -/
def visited (q : KeysRequest) (s : Scan) : List Key :=
  (((s.server.hash.buckets[s.next]?).getD []).filter (q.picks s.server.now s.server.flushTime)).map Cell.key

theorem mem_visited : k ∈ s.visited q ↔ s.Live k ∧ q.key <+: k ∧ s.server.hash.index k = s.next := by
  unfold visited Live KeysRequest.picks
  rw [List.mem_map]
  constructor
  · rintro ⟨c, hc, rfl⟩
    obtain ⟨hc, hpick⟩ := List.mem_filter.mp hc
    obtain ⟨hfind, hidx⟩ := s.server.hash.mem_bucket_iff.mp hc
    obtain ⟨hlive, hp⟩ : c.val.expired s.server.now s.server.flushTime = false ∧ q.key <+: c.key := by
      simpa using hpick
    exact ⟨⟨c, hfind, hlive⟩, hp, hidx⟩
  · rintro ⟨⟨p, hp, hlive⟩, hpre, hidx⟩
    have hkey : p.key = k := s.server.hash.find_key hp
    refine ⟨p, List.mem_filter.mpr ⟨s.server.hash.mem_bucket_of_find hp hidx, ?_⟩, hkey⟩
    simp [hlive, hpre, hkey]

/-- The keys of a bucket are different. -/
theorem nodup_visited (q : KeysRequest) (s : Scan) : (s.visited q).Nodup :=
  (s.server.hash.nodup_bucket s.next).sublist ((List.filter_sublist).map Cell.key)

/-- **One visit.** -/
theorem step_visit_reported (h : s.step q ctx .visit = .ok s') :
    (s' = s ∧ s.Done) ∨ (s'.server = s.server ∧ s'.next = s.next + 1 ∧
      s'.reported = s.reported ++ s.visited q) := by
  unfold step at h
  dsimp only at h
  by_cases hnext : s.next < s.server.hash.buckets.length
  · rw [if_pos hnext] at h
    cases hσ : HashMap.foreachBucket s.server.hash s.next (q.pred (s.server.env ctx))
        { s.session with flushTime := s.server.flushTime } with
    | error e => rw [hσ] at h; cases h
    | ok σ =>
      rw [hσ] at h
      cases h
      exact .inr ⟨rfl, rfl, (q.foldlM_reported _ hσ).2⟩
  · rw [if_neg hnext] at h
    cases h
    exact .inl ⟨rfl, Nat.le_of_not_lt hnext⟩

/-- **No visit fails** where the stored keys are no longer than `MAX_KEY_LENGTH`. -/
theorem step_visit_ok (q : KeysRequest) (ctx : Int) (h : Short s.server.hash) :
    ∃ s', s.step q ctx .visit = .ok s' := by
  have hbucket : ∀ (b : List (Cell Key Object)), (∀ c ∈ b, c.key.length ≤ MAX_KEY_LENGTH) → ∀ σ : Session,
      ∃ σ', b.foldlM (fun σ c => q.pred (s.server.env ctx) (itemRef c) c.val σ) σ = .ok σ' := by
    intro b
    induction b with
    | nil => intro _ σ; exact ⟨σ, rfl⟩
    | cons c b ih =>
      intro hb σ
      obtain ⟨σ1, h1⟩ : ∃ σ1, q.pred (s.server.env ctx) (itemRef c) c.val σ = .ok σ1 := by
        cases q with
        | binary cmd =>
          dsimp only [KeysRequest.pred, keysPred]
          split_ifs <;> exact ⟨_, rfl⟩
        | text cmd => exact Text.keysPred_ok (hb c List.mem_cons_self)
      rw [List.foldlM_cons, h1]
      exact ih (fun d hd => hb d (List.mem_cons_of_mem _ hd)) σ1
  unfold step
  dsimp only
  split_ifs with hnext
  · have hshort : ∀ c ∈ (s.server.hash.buckets[s.next]?).getD [], c.key.length ≤ MAX_KEY_LENGTH :=
      fun c hc => h c.key c (s.server.hash.mem_bucket_iff.mp hc).1
    obtain ⟨σ, hσ⟩ := hbucket _ hshort { s.session with flushTime := s.server.flushTime }
    unfold HashMap.foreachBucket
    rw [hσ]
    exact ⟨_, rfl⟩
  · exact ⟨s, rfl⟩

/-- **With nothing in between, the visits are the `foreach` of the command.** -/
theorem run_visits (q : KeysRequest) (ctx : Int) (v : Server) (n : Nat) : ∀ {i : Nat} {σ : Session},
    i + n = v.hash.buckets.length → σ.flushTime = v.flushTime →
      run (step q ctx) ⟨v, i, σ⟩ (List.replicate n .visit)
        = ((List.range' i n).foldlM
            (fun σ j => HashMap.foreachBucket v.hash j (q.pred (v.env ctx)) σ) σ).map
          fun σ' => ⟨v, i + n, σ'⟩ := by
  induction n with
  | zero => intro i σ _ _; rfl
  | succ n ih =>
    intro i σ hlen hσ
    have hsame : { σ with flushTime := v.flushTime } = σ := by rw [← hσ]
    rw [List.replicate_succ, List.range'_succ, List.foldlM_cons, run, step]
    dsimp only
    rw [if_pos (by omega), hsame]
    cases hb : HashMap.foreachBucket v.hash i (q.pred (v.env ctx)) σ with
    | error e => rfl
    | ok σ1 =>
      have hflush := (q.foldlM_reported _ hb).1.trans hσ
      have hadd : i + 1 + n = i + (n + 1) := by omega
      dsimp only
      rw [ih (by omega) hflush, hadd]
      rfl

theorem run_visits_start (q : KeysRequest) (ctx : Int) (v : Server) :
    run (step q ctx) { start v with session := { flushTime := v.flushTime } }
        (List.replicate v.hash.buckets.length .visit)
      = (HashMap.foreach v.hash (q.pred (v.env ctx)) { flushTime := v.flushTime }).map
        fun σ => ⟨v, v.hash.buckets.length, σ⟩ := by
  have h := run_visits q ctx v v.hash.buckets.length (i := 0) (σ := { flushTime := v.flushTime })
    (Nat.zero_add _) rfl
  rw [Nat.zero_add, ← List.range_eq_range', ← HashMap.foreach_eq_buckets] at h
  exact h

/-- Anything else does not concern the request, and leaves every key in its bucket. -/
theorem step_other {e : Event} (h : s.step q ctx (.other e) = .ok s') :
    s'.next = s.next ∧ s'.reported = s.reported ∧ s'.server.hash.index = s.server.hash.index := by
  unfold step at h
  dsimp only at h
  cases hv : s.server.step e with
  | error x => rw [hv] at h; cases h
  | ok v =>
    rw [hv] at h
    cases h
    exact ⟨rfl, rfl, Server.step_index hv⟩

/-! ## The whole request -/

/-- `trail`: the states in which the run of `es` from `s` to `s'` has visited a bucket. -/
structure Trail (q : KeysRequest) (ctx : Int) (s : Scan) (es : List ScanEvent) (s' : Scan)
    (trail : List Scan) : Prop where
  reported : s'.reported = s.reported ++ trail.flatMap (visited q)
  /-- The buckets are visited in order, none is left out. -/
  nexts : trail.map Scan.next = List.range' s.next trail.length
  next : s'.next = s.next + trail.length
  index : s'.server.hash.index = s.server.hash.index
  visits : ∀ t ∈ trail, t.server.hash.index = s.server.hash.index ∧
    ∃ before after, es = before ++ .visit :: after ∧ run (step q ctx) s before = .ok t

theorem Trail.nil (q : KeysRequest) (ctx : Int) (s : Scan) (es : List ScanEvent) :
    Trail q ctx s es s [] := ⟨by simp, rfl, rfl, rfl, fun _ ht => by cases ht⟩

variable {es : List ScanEvent} {trail : List Scan}

/-- A step before the rest of the run. -/
theorem Trail.visits_cons {e : ScanEvent} {s1 : Scan} (hs : s.step q ctx e = .ok s1)
    (hidx : s1.server.hash.index = s.server.hash.index) (h : Trail q ctx s1 es s' trail) :
    ∀ t ∈ trail, t.server.hash.index = s.server.hash.index ∧
      ∃ before after, e :: es = before ++ .visit :: after ∧ run (step q ctx) s before = .ok t := by
  intro t ht
  obtain ⟨hi, before, after, rfl, hr⟩ := h.visits t ht
  exact ⟨hi.trans hidx, e :: before, after, rfl, by rw [run_cons_ok hs, hr]⟩

theorem exists_trail (es : List ScanEvent) : ∀ {s s' : Scan}, run (step q ctx) s es = .ok s' →
    ∃ trail, Trail q ctx s es s' trail := by
  induction es with
  | nil =>
    intro s s' h
    cases h
    exact ⟨[], .nil q ctx s []⟩
  | cons e es ih =>
    intro s s' h
    obtain ⟨s1, hs, hr⟩ := run_cons_inv h
    obtain ⟨trail, ht⟩ := ih hr
    cases e with
    | other e =>
      obtain ⟨hnext, hrep, hidx⟩ := step_other hs
      exact ⟨trail, hrep ▸ ht.reported, hnext ▸ ht.nexts, hnext ▸ ht.next, ht.index.trans hidx,
        ht.visits_cons hs hidx⟩
    | visit =>
      rcases step_visit_reported hs with ⟨rfl, -⟩ | ⟨hv, hnext, hrep⟩
      · exact ⟨trail, ht.reported, ht.nexts, ht.next, ht.index, ht.visits_cons hs rfl⟩
      · have hidx : s1.server.hash.index = s.server.hash.index := by rw [hv]
        refine ⟨s :: trail, ?_, ?_, ?_, ht.index.trans hidx, List.forall_mem_cons.mpr ⟨⟨rfl, ?_⟩, ?_⟩⟩
        · rw [ht.reported, hrep, List.append_assoc, List.flatMap_cons]
        · rw [List.map_cons, ht.nexts, hnext, List.length_cons, List.range'_succ]
        · rw [ht.next, hnext, List.length_cons]
          omega
        · exact ⟨[], es, rfl, rfl⟩
        · exact ht.visits_cons hs hidx

/-- A key is reported at the visit of its bucket, if it is live then. -/
theorem Trail.mem_reported (h : Trail q ctx s es s' trail) :
    k ∈ s'.reported ↔ k ∈ s.reported ∨
      ∃ t ∈ trail, t.Live k ∧ q.key <+: k ∧ t.server.hash.index k = t.next := by
  rw [h.reported, List.mem_append, List.mem_flatMap]
  simp only [mem_visited]

/-- The states of a trail are states of the run. -/
theorem throughout_of_run {P : Scan → Prop} {before after : List ScanEvent} :
    ∀ {s t : Scan}, run (step q ctx) s before = .ok t →
      Throughout P (step q ctx) s (before ++ after) → P t := by
  induction before with
  | nil =>
    intro s t h ht
    cases h
    exact ht.head
  | cons e before ih =>
    intro s t h ht
    obtain ⟨s1, hs, hr⟩ := run_cons_inv h
    exact ih hr (ht.2 s1 hs)

/-- Keys of different buckets are different. -/
theorem Trail.nodup (h : Trail q ctx s es s' trail) (hs : s.reported = []) : s'.reported.Nodup := by
  have hnexts : (trail.map Scan.next).Nodup := by
    rw [h.nexts]
    exact List.nodup_range'
  rw [h.reported, hs, List.nil_append]
  refine Table.nodup_flatMap_of_index s.server.hash.index hnexts (fun t _ => nodup_visited q t) ?_
  intro t ht k hk
  rw [← (h.visits t ht).1]
  exact (mem_visited.mp hk).2.2

end Scan

/-- **Key enumeration beside everything else.**  For every interleaving of a Keys request with other commands and
    GC: a key that has the prefix and is live from the begin of the request to its end is reported exactly once; no
    key is reported twice; and a key that is reported has the prefix and was live when its bucket was visited. -/
theorem keys_enumerated (q : KeysRequest) (ctx : Int) (v : Server) {es : List ScanEvent} {s : Scan}
    (hrun : run (Scan.step q ctx) (Scan.start v) es = .ok s) (hdone : s.Done) :
    (∀ k, q.key <+: k → Throughout (Scan.Live k) (Scan.step q ctx) (Scan.start v) es →
      s.reported.count k = 1) ∧
    s.reported.Nodup ∧
    (∀ k ∈ s.reported, q.key <+: k ∧ ∃ before after t, es = before ++ .visit :: after ∧
      run (Scan.step q ctx) (Scan.start v) before = .ok t ∧ t.next = t.server.hash.index k ∧ t.Live k) := by
  obtain ⟨trail, ht⟩ := Scan.exists_trail es hrun
  have hnodup := ht.nodup rfl
  refine ⟨fun k hpre hlive => ?_, hnodup, fun k hk => ?_⟩
  · refine List.count_eq_one_of_mem hnodup (ht.mem_reported.mpr (.inr ?_))
    -- the bucket of `k` is among those visited
    have hlt : v.hash.index k < trail.length := by
      have hidx := s.server.hash.index_lt k
      rw [show s.server.hash.index = v.hash.index from ht.index] at hidx
      have hnext : s.next = 0 + trail.length := ht.next
      have hle : s.server.hash.buckets.length ≤ s.next := hdone
      omega
    have hmem : v.hash.index k ∈ trail.map Scan.next := by
      rw [ht.nexts]
      exact List.mem_range'_1.mpr ⟨Nat.zero_le _, (Nat.zero_add _).symm ▸ hlt⟩
    obtain ⟨t, htrail, hnext⟩ := List.mem_map.mp hmem
    obtain ⟨hidx, before, after, rfl, hr⟩ := ht.visits t htrail
    exact ⟨t, htrail, Scan.throughout_of_run hr hlive, hpre, by rw [hidx, hnext]; rfl⟩
  · rcases ht.mem_reported.mp hk with hk | ⟨t, htrail, hlive, hpre, hidx⟩
    · cases hk
    · obtain ⟨-, before, after, hes, hr⟩ := ht.visits t htrail
      exact ⟨hpre, before, after, t, hes, hr, hidx.symm, hlive⟩

/-- A server of two buckets that has "x" in the first and "y" in the second. -/
def twoKeys : List Event :=
  [.accept 0 5, .cmd 0 [] (.text { command := .SET, valid := true, key := [120], data := [1] }),
    .cmd 0 [] (.text { command := .SET, valid := true, key := [121], data := [2] })]

/-- "x" is deleted after its bucket was visited: it was live then and is reported; "y" is there all the time. -/
theorem keys_enumerated_twoKeys :
    let q : KeysRequest := .text { command := .KEYS, valid := true }
    let es : List ScanEvent :=
      [.visit, .other (.cmd 0 [] (.text { command := .DELETE, valid := true, key := [120] })), .visit]
    ∃ v s, run Server.step (Server.init (fun k => (k.headD 0).toNat) Table.bump Table.bump_fresh 1
        ⟨1000, 100⟩ ⟨1024, 10, 100, 32, 64⟩ 100) twoKeys = .ok v ∧
      run (Scan.step q 6) (Scan.start v) es = .ok s ∧ s.reported = [[120], [121]] ∧
      s.reported.count [121] = 1 ∧ s.reported.Nodup := by
  intro q es
  obtain ⟨v, s, hv, hs, hrep, hdone, hlive⟩ : ∃ v s, run Server.step (Server.init (fun k => (k.headD 0).toNat)
        Table.bump Table.bump_fresh 1 ⟨1000, 100⟩ ⟨1024, 10, 100, 32, 64⟩ 100) twoKeys = .ok v ∧
      run (Scan.step q 6) (Scan.start v) es = .ok s ∧ s.reported = [[120], [121]] ∧ s.Done ∧
      Throughout (Scan.Live [121]) (Scan.step q 6) (Scan.start v) es := by
    refine ⟨_, _, rfl, rfl, rfl, Nat.le_refl 2, ⟨_, rfl, rfl⟩, ?_⟩
    rintro _ ⟨⟩
    refine ⟨⟨_, rfl, rfl⟩, ?_⟩
    rintro _ ⟨⟩
    refine ⟨⟨_, rfl, rfl⟩, ?_⟩
    rintro _ ⟨⟩
    exact ⟨_, rfl, rfl⟩
  obtain ⟨hall, hnodup, -⟩ := keys_enumerated q 6 v hs hdone
  exact ⟨v, s, hv, hs, hrep, hall [121] List.nil_prefix hlive, hnodup⟩

end Yrmcds.Memcache
