/-
  Ownership recorded on both sides.

  Things `a : α` may be owned; the owner is written down AT THE THING as a name `w : ω` (`owner a`).
  Holders `i : ι` keep a name and a list of the things they own (`held i`).  The two records are
  `Consistent` when each says what the other says: every listed thing names its holder, no list names
  a thing twice, no thing is on two lists, and every owned thing is on the list of a holder of that
  name.

  Two holders may have the same name, as in a program that recycles names.  For a holder that shares
  its name with no other, a thing names it exactly when it is on its list (`mem_iff`).

  The rules — `take`, `drop`, `dropAll`, `enter`, `leave` — say that the usual operations keep the
  records consistent.
-/
import Mathlib.Data.List.Nodup
import Mathlib.Logic.Function.Basic

namespace Ownership

variable {α ω ι : Type}

/-- The record at the things and the lists of the holders agree. -/
structure Consistent (owner : α → Option ω) (held : ι → Option (ω × List α)) : Prop where
  owned : ∀ {i w l a}, held i = some (w, l) → a ∈ l → owner a = some w
  nodup : ∀ {i w l}, held i = some (w, l) → l.Nodup
  disjoint : ∀ {i j w v l l' a}, held i = some (w, l) → held j = some (v, l') → a ∈ l → a ∈ l' → i = j
  recorded : ∀ {a w}, owner a = some w → ∃ i l, held i = some (w, l) ∧ a ∈ l

namespace Consistent

variable {owner : α → Option ω} {held : ι → Option (ω × List α)}

variable {i : ι} {w : ω} {l : List α}

/-- **What consistency says**: a thing names a holder exactly when it is on that holder's list, if no
    other holder has the name. -/
theorem mem_iff (h : Consistent owner held) (hi : held i = some (w, l))
    (hsole : ∀ j l', held j = some (w, l') → j = i) (a : α) : owner a = some w ↔ a ∈ l := by
  constructor
  · intro ha
    obtain ⟨j, l', hj, haj⟩ := h.recorded ha
    have hji := hsole j l' hj
    subst hji
    rw [hi, Option.some.injEq, Prod.mk.injEq] at hj
    exact hj.2 ▸ haj
  · exact h.owned hi

variable [DecidableEq ι] [DecidableEq α]

omit [DecidableEq α] in
theorem update_some {j : ι} {x : ω × List α} {y : ω × List α}
    (h : Function.update held i (some x) j = some y) : (j = i ∧ x = y) ∨ (j ≠ i ∧ held j = some y) := by
  by_cases hj : j = i
  · subst hj
    rw [Function.update_self, Option.some.injEq] at h
    exact Or.inl ⟨rfl, h⟩
  · rw [Function.update_of_ne hj] at h
    exact Or.inr ⟨hj, h⟩

/-- Giving things up: holder `i` keeps a sublist of its list, the things it gives up have no owner
    any more, and nothing else changes. -/
theorem shrink (h : Consistent owner held) {l' : List α} {owner' : α → Option ω}
    (hi : held i = some (w, l)) (hsub : l'.Sublist l)
    (hin : ∀ a ∈ l, owner' a = if a ∈ l' then some w else none) (hout : ∀ a, a ∉ l → owner' a = owner a) :
    Consistent owner' (Function.update held i (some (w, l'))) where
  owned := by
    intro j v m a hj ha
    rcases update_some hj with ⟨rfl, he⟩ | ⟨hne, hk⟩
    · obtain ⟨rfl, rfl⟩ := Prod.mk.inj he
      rw [hin a (hsub.subset ha), if_pos ha]
    · have hal : a ∉ l := fun hal => hne (h.disjoint hk hi ha hal)
      rw [hout a hal]
      exact h.owned hk ha
  nodup := by
    intro j v m hj
    rcases update_some hj with ⟨rfl, he⟩ | ⟨_, hk⟩
    · obtain ⟨rfl, rfl⟩ := Prod.mk.inj he
      exact (h.nodup hi).sublist hsub
    · exact h.nodup hk
  recorded := by
    intro a v ha
    by_cases hal : a ∈ l
    · rw [hin a hal] at ha
      split_ifs at ha with hal'
      · rw [Option.some.injEq] at ha
        subst ha
        exact ⟨i, l', Function.update_self .., hal'⟩
    · rw [hout a hal] at ha
      obtain ⟨j, m, hj, haj⟩ := h.recorded ha
      have hne : j ≠ i := by
        rintro rfl
        rw [hi, Option.some.injEq, Prod.mk.injEq] at hj
        exact hal (hj.2 ▸ haj)
      exact ⟨j, m, by rw [Function.update_of_ne hne]; exact hj, haj⟩
  disjoint := by
    intro j j' v v' m m' a hj hj' ha ha'
    rcases update_some hj with ⟨rfl, he⟩ | ⟨_, hk⟩
    · obtain ⟨rfl, rfl⟩ := Prod.mk.inj he
      rcases update_some hj' with ⟨rfl, _⟩ | ⟨_, hk'⟩
      · rfl
      · exact h.disjoint hi hk' (hsub.subset ha) ha'
    · rcases update_some hj' with ⟨rfl, he⟩ | ⟨_, hk'⟩
      · obtain ⟨rfl, rfl⟩ := Prod.mk.inj he
        exact h.disjoint hk hi ha (hsub.subset ha')
      · exact h.disjoint hk hk' ha ha'

/-- Taking an unowned thing. -/
theorem take (h : Consistent owner held) {a : α} (hi : held i = some (w, l)) (ha : owner a = none) :
    Consistent (Function.update owner a (some w)) (Function.update held i (some (w, l ++ [a]))) where
  owned := by
    intro j v m b hj hb
    rcases update_some hj with ⟨rfl, he⟩ | ⟨_, hk⟩
    · obtain ⟨rfl, rfl⟩ := Prod.mk.inj he
      rcases List.mem_append.mp hb with hb | hb
      · by_cases hba : b = a
        · rw [hba, Function.update_self]
        · rw [Function.update_of_ne hba]; exact h.owned hi hb
      · rw [List.mem_singleton.mp hb, Function.update_self]
    · have hba : b ≠ a := by
        rintro rfl
        rw [h.owned hk hb] at ha
        cases ha
      rw [Function.update_of_ne hba]
      exact h.owned hk hb
  nodup := by
    intro j v m hj
    rcases update_some hj with ⟨rfl, he⟩ | ⟨_, hk⟩
    · obtain ⟨rfl, rfl⟩ := Prod.mk.inj he
      refine List.nodup_append.mpr ⟨h.nodup hi, List.nodup_singleton a, ?_⟩
      intro b hb c hc hbc
      rw [List.mem_singleton.mp hc] at hbc
      rw [hbc] at hb
      rw [h.owned hi hb] at ha
      cases ha
    · exact h.nodup hk
  recorded := by
    intro b v hb
    by_cases hba : b = a
    · subst hba
      rw [Function.update_self, Option.some.injEq] at hb
      subst hb
      exact ⟨i, l ++ [b], Function.update_self .., by simp⟩
    · rw [Function.update_of_ne hba] at hb
      obtain ⟨j, m, hj, hbj⟩ := h.recorded hb
      by_cases hji : j = i
      · subst hji
        rw [hi, Option.some.injEq, Prod.mk.injEq] at hj
        obtain ⟨rfl, rfl⟩ := hj
        exact ⟨j, l ++ [a], Function.update_self .., List.mem_append_left _ hbj⟩
      · exact ⟨j, m, by rw [Function.update_of_ne hji]; exact hj, hbj⟩
  disjoint := by
    have hnot : ∀ {j v m}, held j = some (v, m) → a ∉ m := by
      intro j v m hj ham
      rw [h.owned hj ham] at ha
      cases ha
    have hnew : ∀ {b j v m}, b ∈ l ++ [a] → held j = some (v, m) → b ∈ m → b ∈ l := by
      intro b j v m hb hj hbm
      rcases List.mem_append.mp hb with hb | hb
      · exact hb
      · rw [List.mem_singleton.mp hb] at hbm
        exact absurd hbm (hnot hj)
    intro j j' v v' m m' b hj hj' hb hb'
    rcases update_some hj with ⟨rfl, he⟩ | ⟨_, hk⟩
    · obtain ⟨rfl, rfl⟩ := Prod.mk.inj he
      rcases update_some hj' with ⟨rfl, _⟩ | ⟨_, hk'⟩
      · rfl
      · exact h.disjoint hi hk' (hnew hb hk' hb') hb'
    · rcases update_some hj' with ⟨rfl, he⟩ | ⟨_, hk'⟩
      · obtain ⟨rfl, rfl⟩ := Prod.mk.inj he
        exact h.disjoint hk hi hb (hnew hb' hk hb)
      · exact h.disjoint hk hk' hb hb'

/-- Giving up one thing. -/
theorem drop (h : Consistent owner held) (a : α) (hi : held i = some (w, l)) (ha : a ∈ l) :
    Consistent (Function.update owner a none) (Function.update held i (some (w, l.erase a))) := by
  refine h.shrink hi List.erase_sublist ?_ ?_
  · intro b hb
    have hnd := (h.nodup hi).mem_erase_iff (a := b) (b := a)
    by_cases hba : b = a
    · rw [hba, Function.update_self, if_neg]
      rw [hba] at hnd
      exact fun hmem => (hnd.mp hmem).1 rfl
    · rw [Function.update_of_ne hba, if_pos (hnd.mpr ⟨hba, hb⟩)]
      exact h.owned hi hb
  · intro b hb
    rw [Function.update_of_ne]
    rintro rfl
    exact hb ha

/-- Giving up everything. -/
theorem dropAll (h : Consistent owner held) (hi : held i = some (w, l)) :
    Consistent (fun a => if a ∈ l then none else owner a) (Function.update held i (some (w, []))) :=
  h.shrink hi (List.nil_sublist l) (fun a ha => by simp [ha]) (fun a ha => by simp [ha])

omit [DecidableEq α] in
/-- A holder that holds nothing comes in. -/
theorem enter (h : Consistent owner held) (w : ω) (hi : held i = none) :
    Consistent owner (Function.update held i (some (w, []))) := by
  have hof : ∀ {j v m a}, Function.update held i (some (w, [])) j = some (v, m) → a ∈ m →
      held j = some (v, m) := by
    intro j v m a hj ha
    rcases update_some hj with ⟨rfl, he⟩ | ⟨_, hk⟩
    · obtain ⟨rfl, rfl⟩ := Prod.mk.inj he
      cases ha
    · exact hk
  refine ⟨fun hj ha => h.owned (hof hj ha) ha, ?_,
    fun hj hj' ha ha' => h.disjoint (hof hj ha) (hof hj' ha') ha ha', ?_⟩
  · intro j v m hj
    rcases update_some hj with ⟨rfl, he⟩ | ⟨_, hk⟩
    · obtain ⟨rfl, rfl⟩ := Prod.mk.inj he
      exact List.nodup_nil
    · exact h.nodup hk
  · intro a v ha
    obtain ⟨j, m, hj, haj⟩ := h.recorded ha
    have hne : j ≠ i := by rintro rfl; rw [hi] at hj; cases hj
    exact ⟨j, m, by rw [Function.update_of_ne hne]; exact hj, haj⟩

omit [DecidableEq α] in
/-- A holder that holds nothing goes. -/
theorem leave (h : Consistent owner held) (hi : held i = some (w, [])) :
    Consistent owner (Function.update held i none) := by
  have hof : ∀ {j v m}, Function.update held i none j = some (v, m) → held j = some (v, m) := by
    intro j v m hj
    by_cases hji : j = i
    · rw [hji, Function.update_self] at hj; cases hj
    · rw [Function.update_of_ne hji] at hj; exact hj
  refine ⟨fun hj ha => h.owned (hof hj) ha, fun hj => h.nodup (hof hj),
    fun hj hj' => h.disjoint (hof hj) (hof hj'), ?_⟩
  intro a v ha
  obtain ⟨j, m, hj, haj⟩ := h.recorded ha
  have hne : j ≠ i := by
    rintro rfl
    rw [hi, Option.some.injEq, Prod.mk.injEq] at hj
    rw [← hj.2] at haj
    cases haj
  exact ⟨j, m, by rw [Function.update_of_ne hne]; exact hj, haj⟩

end Consistent
end Ownership
