import Mathlib.Data.Set.Finite.Lemmas
import Mathlib.Data.Set.Lattice

/-!
# Versioned records and what they show

A store keeps several versions of a key, told apart by a sequence number, and
spreads them over places that are searched one after the other.  `Shows S v`
says that the records `S` stand for the map `v`: each key has the value of its
newest record, none when that is a deletion or when there is no record.

* `Above S T`: where `S` has a key at all, it has a version of it at least as new
  as any version in `T`.  A search that stops at the first place with the key is
  right when each place is above the later ones (`Newest.union`).
* `Recent S T`: the newest version in `S` is at least as new as that in `T`, and the
  same record when it is not newer.
* `Shows.insert`: a record newer than all others changes the map at its key.
* `Shows.shrink`: records may be dropped as long as the newest of each key stays,
  or was a deletion and no version of its key is left.
-/

namespace Recency

/-- Records with a key, a version number, and a value unless they delete their key. -/
class Versioned (ρ : Type) (κ ν : outParam Type) where
  key : ρ → κ
  seq : ρ → Nat
  value : ρ → Option ν

open Versioned

variable {ρ κ ν : Type} [Versioned ρ κ ν]

/-- Some version of the key is there. -/
def Holds (S : Set ρ) (k : κ) : Prop := ∃ r ∈ S, key r = k

/-- No version of the record's key is newer. -/
def Newest (S : Set ρ) (r : ρ) : Prop := r ∈ S ∧ ∀ r' ∈ S, key r' = key r → seq r' ≤ seq r

def Above (S T : Set ρ) : Prop :=
  ∀ s ∈ S, ∀ t ∈ T, key s = key t → ∃ s' ∈ S, key s' = key s ∧ seq t ≤ seq s'

/-- Where both have a key, the newest version in `S` is newer, or the same record. -/
def Recent (S T : Set ρ) : Prop :=
  ∀ s t, Newest S s → Newest T t → key s = key t → seq t ≤ seq s ∧ (seq t = seq s → t = s)

/-- A sequence number belongs to one record. -/
def SeqUnique (S : Set ρ) : Prop := ∀ r ∈ S, ∀ r' ∈ S, seq r = seq r' → r = r'

def Shows (S : Set ρ) (v : κ → Option ν) : Prop :=
  ∀ k, (¬ Holds S k ∧ v k = none) ∨ ∃ r, Newest S r ∧ key r = k ∧ v k = value r

variable {S S' T T' : Set ρ} {r : ρ} {k : κ} {v : κ → Option ν}

/-! ## Newest versions -/

theorem exists_newest (hfin : S.Finite) (h : Holds S k) : ∃ r, Newest S r ∧ key r = k := by
  obtain ⟨r₀, hr₀, hk₀⟩ := h
  have hsub : ({r ∈ S | key r = k} : Set ρ).Finite := hfin.subset fun _ h => h.1
  obtain ⟨r, ⟨hr, hk⟩, hmax⟩ := Set.exists_max_image _ seq hsub ⟨r₀, hr₀, hk₀⟩
  exact ⟨r, ⟨hr, fun r' hr' hk' => hmax r' ⟨hr', hk'.trans hk⟩⟩, hk⟩

theorem Newest.unique {r' : ρ} (hu : SeqUnique S) (h : Newest S r) (h' : Newest S r') (hk : key r' = key r) :
    r' = r := by
  have h1 := h.2 r' h'.1 hk
  have h2 := h'.2 r h.1 hk.symm
  exact hu r' h'.1 r h.1 (by omega)

theorem Newest.subset (h : Newest S r) (hsub : S' ⊆ S) (hr : r ∈ S') : Newest S' r :=
  ⟨hr, fun r' hr' hk => h.2 r' (hsub hr') hk⟩

theorem SeqUnique.subset (h : SeqUnique S) (hsub : S' ⊆ S) : SeqUnique S' :=
  fun r hr r' hr' hs => h r (hsub hr) r' (hsub hr') hs

/-! ## Places above others -/

theorem Above.newest_le (h : Above S T) (hr : Newest S r) {t : ρ} (ht : t ∈ T) (hk : key t = key r) :
    seq t ≤ seq r := by
  obtain ⟨s', hs', hk', hle⟩ := h r hr.1 t ht hk.symm
  have := hr.2 s' hs' hk'
  omega

/-- The newest version of the first place is the newest of all. -/
theorem Newest.union (hr : Newest S r) (h : Above S T) : Newest (S ∪ T) r := by
  refine ⟨.inl hr.1, fun r' hr' hk => ?_⟩
  rcases hr' with hr' | hr'
  · exact hr.2 r' hr' hk
  · exact h.newest_le hr hr' hk

theorem Recent.above (h : Recent S T) (hS : S.Finite) (hT : T.Finite) : Above S T := by
  intro s hs t ht hk
  obtain ⟨s', hs', hks⟩ := exists_newest hS ⟨s, hs, rfl⟩
  obtain ⟨t', ht', hkt⟩ := exists_newest hT ⟨t, ht, rfl⟩
  have hle := (h s' t' hs' ht' (hks.trans (hk.trans hkt.symm))).1
  have htt := ht'.2 t ht hkt.symm
  exact ⟨s', hs'.1, hks, by omega⟩

/-- Places without a common key. -/
theorem recent_of_disjoint (h : ∀ s ∈ S, ∀ t ∈ T, key s ≠ key t) : Recent S T :=
  fun s t hs ht hk => absurd hk (h s hs.1 t ht.1)

/-! ## The map shown -/

theorem Shows.of_newest (h : Shows S v) (hu : SeqUnique S) (hr : Newest S r) : v (key r) = value r := by
  rcases h (key r) with ⟨hno, -⟩ | ⟨r', hr', hk, hv⟩
  · exact absurd ⟨r, hr.1, rfl⟩ hno
  · rw [hv, hr.unique hu hr' hk]

theorem Shows.of_not_holds (h : Shows S v) (hk : ¬ Holds S k) : v k = none := by
  rcases h k with ⟨-, hv⟩ | ⟨r, hr, hkr, -⟩
  · exact hv
  · exact absurd ⟨r, hr.1, hkr⟩ hk

theorem Shows.insert [DecidableEq κ] (h : Shows S v) (hr : ∀ s ∈ S, seq s < seq r) :
    Shows (insert r S) (Function.update v (key r) (value r)) := by
  intro k
  by_cases hk : k = key r
  · subst hk
    refine .inr ⟨r, ⟨Set.mem_insert _ _, fun r' hr' _ => ?_⟩, rfl, Function.update_self _ _ _⟩
    rcases Set.mem_insert_iff.mp hr' with rfl | hr'
    · exact Nat.le_refl _
    · exact Nat.le_of_lt (hr r' hr')
  · have hother : ∀ r' ∈ Insert.insert r S, key r' = k → r' ∈ S := by
      intro r' hr' hkr'
      rcases Set.mem_insert_iff.mp hr' with rfl | hr'
      · exact absurd hkr'.symm hk
      · exact hr'
    rw [Function.update_of_ne hk]
    rcases h k with ⟨hno, hv⟩ | ⟨s, hs, hks, hv⟩
    · exact .inl ⟨fun ⟨r', hr', hkr'⟩ => hno ⟨r', hother r' hr' hkr', hkr'⟩, hv⟩
    · refine .inr ⟨s, ⟨Set.mem_insert_of_mem _ hs.1, fun r' hr' hkr' => ?_⟩, hks, hv⟩
      exact hs.2 r' (hother r' hr' (hkr'.trans hks)) hkr'

theorem Shows.shrink (h : Shows S v) (hsub : S' ⊆ S)
    (hkeep : ∀ r, Newest S r → r ∈ S' ∨ (value r = none ∧ ¬ Holds S' (key r))) : Shows S' v := by
  intro k
  rcases h k with ⟨hno, hv⟩ | ⟨r, hr, rfl, hv⟩
  · exact .inl ⟨fun ⟨r, hr, hk⟩ => hno ⟨r, hsub hr, hk⟩, hv⟩
  · rcases hkeep r hr with hr' | ⟨hnone, hno⟩
    · exact .inr ⟨r, hr.subset hsub hr', rfl, hv⟩
    · exact .inl ⟨hno, hv.trans hnone⟩

/-! ## A newer part -/

/-- Every version in `S` is also in `X`, or older than all of `X`. -/
def Newer (X S : Set ρ) : Prop := ∀ s ∈ S, s ∈ X ∨ ∀ x ∈ X, seq s < seq x

variable {X : Set ρ}

theorem Newer.mono (h : Newer X S) (hsub : S' ⊆ S) : Newer X S' := fun s hs => h s (hsub hs)

theorem newer_empty : Newer (∅ : Set ρ) S := fun _ _ => .inr fun _ hx => absurd hx (Set.notMem_empty _)

theorem Newer.recent (h : Newer X S) (hu : SeqUnique X) : Recent X S := by
  intro x s hx hs hk
  rcases h s hs.1 with hin | hlt
  · exact ⟨hx.2 s hin hk.symm, fun heq => hu s hin x hx.1 heq⟩
  · have := hlt x hx.1
    exact ⟨Nat.le_of_lt this, fun heq => absurd heq (Nat.ne_of_lt this)⟩

theorem SeqUnique.union (hS : SeqUnique S) (hX : SeqUnique X) (h : Newer X S) : SeqUnique (S ∪ X) := by
  have hcross : ∀ s ∈ S, ∀ x ∈ X, seq s = seq x → s = x := by
    intro s hs x hx heq
    rcases h s hs with hin | hlt
    · exact hX s hin x hx heq
    · exact absurd heq (Nat.ne_of_lt (hlt x hx))
  rintro a (ha | ha) b (hb | hb) heq
  · exact hS a ha b hb heq
  · exact hcross a ha b hb heq
  · exact (hcross b hb a ha heq.symm).symm
  · exact hX a ha b hb heq

/-- Versions that are dropped below a newer part change nothing. -/
theorem Shows.shrink_below (h : Shows (S ∪ X) v) (hnew : Newer X S) (hsub : S' ⊆ S)
    (hkeep : ∀ r, Newest S r → r ∈ S' ∨ (value r = none ∧ ¬ Holds S' (key r))) : Shows (S' ∪ X) v := by
  refine h.shrink (Set.union_subset_union_left X hsub) fun r hr => ?_
  by_cases hX : r ∈ X
  · exact .inl (.inr hX)
  have hS : r ∈ S := hr.1.resolve_right hX
  have hrS : Newest S r := ⟨hS, fun r' hr' hk => hr.2 r' (.inl hr') hk⟩
  rcases hkeep r hrS with hin | ⟨hnone, hno⟩
  · exact .inl (.inl hin)
  · refine .inr ⟨hnone, ?_⟩
    rintro ⟨x, hx | hx, hk⟩
    · exact hno ⟨x, hx, hk⟩
    · have hlt := (hnew r hS).resolve_left hX x hx
      exact absurd (hr.2 x (.inr hx) hk) (Nat.not_le.mpr hlt)

end Recency
