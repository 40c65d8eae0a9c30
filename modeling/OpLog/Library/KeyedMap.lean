import Mathlib.Data.List.Nodup
import OpLog.Library.Total

/-!
# Finite maps with an iteration order

A map is the list of its entries in the order in which an iteration yields them; the
field `nodup` keeps a key from occurring twice. Iterations that rewrite the values
while a state is threaded through them (`mapAccum`) may visit the entries in any
order (`reorder`); what happens to one key is read off by `get?_visit`, where the order
occurs in nothing but the state of the visit.
-/
namespace OpLog.Library

structure KeyedMap (κ υ : Type) where
  entries : List (κ × υ)
  nodup : (entries.map Prod.fst).Nodup

namespace KeyedMap
variable {κ υ σ ω : Type} [DecidableEq κ]

def empty : KeyedMap κ υ := ⟨[], by simp⟩

def get? (m : KeyedMap κ υ) (k : κ) : Option υ :=
  (m.entries.find? (fun e => e.1 = k)).map Prod.snd

def values (m : KeyedMap κ υ) : List υ := m.entries.map Prod.snd

def size (m : KeyedMap κ υ) : Nat := m.entries.length

/-- Put `v` under `k`, in place of any value already there. -/
def insert (m : KeyedMap κ υ) (k : κ) (v : υ) : KeyedMap κ υ where
  entries := m.entries.filter (fun e => e.1 ≠ k) ++ [(k, v)]
  nodup := by
    rw [List.map_append, List.nodup_append]
    refine ⟨(List.filter_sublist.map Prod.fst).nodup m.nodup, by simp, ?_⟩
    intro a ha b hb
    simp only [List.mem_map, List.mem_filter, decide_eq_true_eq] at ha
    obtain ⟨e, ⟨-, different⟩, rfl⟩ := ha
    simp only [List.map_cons, List.map_nil, List.mem_singleton] at hb
    exact hb ▸ different

/-- Keep the entries that satisfy `keep`. -/
def retain (m : KeyedMap κ υ) (keep : κ → υ → Bool) : KeyedMap κ υ where
  entries := m.entries.filter (fun e => keep e.1 e.2)
  nodup := (List.filter_sublist.map Prod.fst).nodup m.nodup

def mapValues (m : KeyedMap κ υ) (f : υ → υ) : KeyedMap κ υ where
  entries := m.entries.map (fun e => (e.1, f e.2))
  nodup := by simpa [List.map_map, Function.comp_def] using m.nodup

/-- The same entries in the order of `rank`, entries of equal rank in the order they had. -/
def reorder (m : KeyedMap κ υ) (rank : κ → Nat) : KeyedMap κ υ where
  entries := m.entries.mergeSort (fun a b => rank a.1 ≤ rank b.1)
  nodup := ((List.mergeSort_perm _ _).map Prod.fst).nodup_iff.mpr m.nodup

/-- Rewrite the values from left to right, threading a state and collecting one
output for each key. -/
def accumEntries (f : κ → υ → σ → υ × σ × ω) :
    List (κ × υ) → σ → List (κ × υ) × σ × List (κ × ω)
  | [], s => ([], s, [])
  | (k, v) :: rest, s =>
    let (v', s', out) := f k v s
    let (rest', s'', outs) := accumEntries f rest s'
    ((k, v') :: rest', s'', (k, out) :: outs)

omit [DecidableEq κ] in
theorem accumEntries_keys (f : κ → υ → σ → υ × σ × ω) (es : List (κ × υ)) (s : σ) :
    (accumEntries f es s).1.map Prod.fst = es.map Prod.fst := by
  induction es generalizing s with
  | nil => rfl
  | cons e es ih =>
    obtain ⟨k, v⟩ := e
    unfold accumEntries
    simp only [List.map_cons, ih]

def mapAccum (m : KeyedMap κ υ) (f : κ → υ → σ → υ × σ × ω) (s : σ) :
    KeyedMap κ υ × σ × List (κ × ω) :=
  let out := accumEntries f m.entries s
  (⟨out.1, by rw [accumEntries_keys]; exact m.nodup⟩, out.2)

/-- The state in which such a rewriting arrives at `k`. -/
def stateAt (f : κ → υ → σ → υ × σ × ω) : List (κ × υ) → σ → κ → σ
  | [], s, _ => s
  | (k', v) :: rest, s, k => if k' = k then s else stateAt f rest (f k' v s).2.1 k

def visitState (m : KeyedMap κ υ) (f : κ → υ → σ → υ × σ × ω) (s : σ) (k : κ) : σ :=
  stateAt f m.entries s k

/-- The outputs an iteration collected for `k`. -/
def outsOf (k : κ) (outs : List (κ × ω)) : List ω :=
  outs.filterMap (fun o => if o.1 = k then some o.2 else none)

/-! ## What is stored under a key -/

theorem get?_eq_some (m : KeyedMap κ υ) (k : κ) (v : υ) :
    m.get? k = some v ↔ (k, v) ∈ m.entries := by
  unfold get?
  simp only [Option.map_eq_some_iff]
  constructor
  · rintro ⟨⟨k', v'⟩, found, rfl⟩
    have same : k' = k := by simpa using List.find?_some found
    exact same ▸ List.mem_of_find?_eq_some found
  · intro member
    cases found : m.entries.find? (fun e => e.1 = k) with
    | none =>
      rw [List.find?_eq_none] at found
      exact absurd (decide_eq_true rfl) (found (k, v) member)
    | some e =>
      have key : e.1 = k := by simpa using List.find?_some found
      have same : e = (k, v) :=
        List.inj_on_of_nodup_map m.nodup (List.mem_of_find?_eq_some found) member key
      exact ⟨e, rfl, by rw [same]⟩

theorem get?_eq_none (m : KeyedMap κ υ) (k : κ) :
    m.get? k = none ↔ ∀ v, (k, v) ∉ m.entries := by
  constructor
  · intro h v member
    rw [(m.get?_eq_some k v).mpr member] at h
    cases h
  · intro h
    cases found : m.get? k with
    | none => rfl
    | some v => exact absurd ((m.get?_eq_some k v).mp found) (h v)

/-- Two maps with the same members store the same under every key, in any order. -/
theorem get?_congr {m n : KeyedMap κ υ} (same : ∀ e, e ∈ m.entries ↔ e ∈ n.entries) (k : κ) :
    m.get? k = n.get? k := by
  cases h : n.get? k with
  | none =>
    rw [get?_eq_none] at h ⊢
    exact fun v member => h v ((same _).mp member)
  | some v =>
    rw [get?_eq_some] at h ⊢
    exact (same _).mpr h

@[simp] theorem get?_empty (k : κ) : (empty : KeyedMap κ υ).get? k = none := rfl

theorem get?_insert (m : KeyedMap κ υ) (k k' : κ) (v : υ) :
    (m.insert k v).get? k' = if k' = k then some v else m.get? k' := by
  by_cases same : k' = k
  · rw [if_pos same, get?_eq_some]
    simp [insert, same]
  · rw [if_neg same]
    cases h : m.get? k' with
    | none =>
      rw [get?_eq_none] at h ⊢
      intro v' member
      simp only [insert, List.mem_append, List.mem_filter, List.mem_singleton,
        Prod.mk.injEq] at member
      rcases member with ⟨member, -⟩ | ⟨eq, -⟩
      · exact h v' member
      · exact same eq
    | some v' =>
      rw [get?_eq_some] at h ⊢
      simp [insert, h, same]

@[simp] theorem get?_insert_self (m : KeyedMap κ υ) (k : κ) (v : υ) :
    (m.insert k v).get? k = some v := by
  rw [get?_insert, if_pos rfl]

theorem get?_insert_ne (m : KeyedMap κ υ) {k k' : κ} (v : υ) (different : k' ≠ k) :
    (m.insert k v).get? k' = m.get? k' := by
  rw [get?_insert, if_neg different]

theorem get?_retain (m : KeyedMap κ υ) (keep : κ → υ → Bool) (k : κ) :
    (m.retain keep).get? k = (m.get? k).filter (keep k) := by
  cases h : m.get? k with
  | none =>
    rw [get?_eq_none] at h
    rw [Option.filter_none, get?_eq_none]
    intro v member
    exact h v (List.mem_filter.mp member).1
  | some v =>
    have member := (m.get?_eq_some k v).mp h
    by_cases kept : keep k v
    · rw [Option.filter_some, if_pos kept, get?_eq_some]
      exact List.mem_filter.mpr ⟨member, kept⟩
    · rw [Option.filter_some, if_neg kept, get?_eq_none]
      intro v' member'
      obtain ⟨old, kept'⟩ := List.mem_filter.mp member'
      have : some v = some v' := h ▸ (m.get?_eq_some k v').mpr old
      cases this
      exact kept kept'

theorem get?_mapValues (m : KeyedMap κ υ) (f : υ → υ) (k : κ) :
    (m.mapValues f).get? k = (m.get? k).map f := by
  cases h : m.get? k with
  | none =>
    rw [get?_eq_none] at h
    rw [Option.map_none, get?_eq_none]
    intro v member
    obtain ⟨e, he, eq⟩ := List.mem_map.mp member
    simp only [Prod.mk.injEq] at eq
    exact h e.2 (eq.1 ▸ he)
  | some v =>
    rw [Option.map_some, get?_eq_some]
    exact List.mem_map.mpr ⟨(k, v), (m.get?_eq_some k v).mp h, rfl⟩

@[simp] theorem get?_reorder (m : KeyedMap κ υ) (rank : κ → Nat) (k : κ) :
    (m.reorder rank).get? k = m.get? k :=
  get?_congr (fun _ => (List.mergeSort_perm _ _).mem_iff) k

omit [DecidableEq κ] in
/-- Among equal ranks the order is that of the entries. -/
theorem reorder_const (m : KeyedMap κ υ) (n : Nat) : m.reorder (fun _ => n) = m := by
  unfold reorder
  have same : m.entries.mergeSort (fun _ _ => decide (n ≤ n)) = m.entries := by
    apply List.mergeSort_of_pairwise
    exact List.pairwise_of_forall fun _ _ => by simp
  simp only [same]

theorem mem_values {m : KeyedMap κ υ} {v : υ} : v ∈ m.values ↔ ∃ k, m.get? k = some v := by
  unfold values
  simp only [List.mem_map, Prod.exists, exists_eq_right, get?_eq_some]

/-! ## One key of an iteration -/

theorem accumEntries_absent (f : κ → υ → σ → υ × σ × ω) (es : List (κ × υ)) (s : σ) (k : κ)
    (absent : k ∉ es.map Prod.fst) : outsOf k (accumEntries f es s).2.2 = [] := by
  induction es generalizing s with
  | nil => rfl
  | cons e es ih =>
    obtain ⟨k', v⟩ := e
    simp only [List.map_cons, List.mem_cons, not_or] at absent
    unfold accumEntries outsOf
    simp only [List.filterMap_cons, Ne.symm absent.1, if_false]
    exact ih _ absent.2

omit [DecidableEq κ] in
/-- Every output is that of some visit. -/
theorem mem_accumEntries_outs (f : κ → υ → σ → υ × σ × ω) (es : List (κ × υ)) (s : σ) {k : κ}
    {out : ω}
    (member : (k, out) ∈ (accumEntries f es s).2.2) : ∃ v t, out = (f k v t).2.2 := by
  induction es generalizing s with
  | nil => cases member
  | cons e es ih =>
    obtain ⟨k₀, v⟩ := e
    unfold accumEntries at member
    simp only [List.mem_cons, Prod.mk.injEq] at member
    rcases member with ⟨rfl, rfl⟩ | later
    · exact ⟨v, s, rfl⟩
    · exact ih _ later

/-- An invariant of the threaded state that every visit keeps holds at the visit of
each key, and at the end. -/
theorem accumEntries_invariant (f : κ → υ → σ → υ × σ × ω) (P : σ → Prop) (es : List (κ × υ))
    (kept : ∀ k v s, (k, v) ∈ es → P s → P (f k v s).2.1) (s : σ) (hs : P s) :
    P (accumEntries f es s).2.1 ∧ ∀ k, P (stateAt f es s k) := by
  induction es generalizing s with
  | nil => exact ⟨hs, fun _ => hs⟩
  | cons e es ih =>
    obtain ⟨k₀, v₀⟩ := e
    have hs' : P (f k₀ v₀ s).2.1 := kept k₀ v₀ s (by simp) hs
    obtain ⟨final, rest⟩ := ih (fun k v s member => kept k v s (List.mem_cons_of_mem _ member))
      (f k₀ v₀ s).2.1 hs'
    refine ⟨final, fun k => ?_⟩
    unfold stateAt
    split
    · exact hs
    · exact rest k

omit [DecidableEq κ] in
/-- Behind an entry whose key does not come again all keys are others. -/
theorem key_ne_of_later {es : List (κ × υ)} {k₀ k : κ} {v : υ} (fresh : k₀ ∉ es.map Prod.fst)
    (later : (k, v) ∈ es) : k₀ ≠ k := by
  rintro rfl
  exact fresh (List.mem_map.mpr ⟨(k₀, v), later, rfl⟩)

/-- What is stored under a key and put out for it comes from its one visit. -/
theorem accumEntries_visit (f : κ → υ → σ → υ × σ × ω) (es : List (κ × υ)) (s : σ)
    (nodup : (es.map Prod.fst).Nodup) (k : κ) (v : υ) (member : (k, v) ∈ es) :
    (k, (f k v (stateAt f es s k)).1) ∈ (accumEntries f es s).1 ∧
      outsOf k (accumEntries f es s).2.2 = [(f k v (stateAt f es s k)).2.2] := by
  induction es generalizing s with
  | nil => cases member
  | cons e es ih =>
    obtain ⟨k₀, v₀⟩ := e
    rw [List.map_cons, List.nodup_cons] at nodup
    rcases List.mem_cons.mp member with first | later
    · cases first
      have none_later := accumEntries_absent f es (f k v s).2.1 k nodup.1
      unfold outsOf at none_later
      unfold accumEntries outsOf stateAt
      simp only [List.filterMap_cons, if_true, none_later, and_true]
      exact List.mem_cons_self
    · have different := key_ne_of_later nodup.1 later
      obtain ⟨stored, out⟩ := ih (f k₀ v₀ s).2.1 nodup.2 later
      unfold outsOf at out
      unfold accumEntries outsOf stateAt
      simp only [List.filterMap_cons, different, if_false, out, and_true]
      exact List.mem_cons_of_mem _ stored

/-- What of the state only the visit of `k` may change is at that visit what it was at the
beginning, and in the end what the visit makes of it. -/
theorem accumEntries_slot {β : Type} (f : κ → υ → σ → υ × σ × ω) (read : σ → β) {k : κ} {v : υ}
    (es : List (κ × υ)) (nodup : (es.map Prod.fst).Nodup) (member : (k, v) ∈ es)
    (others : ∀ k' v' s, (k', v') ∈ es → k' ≠ k → read (f k' v' s).2.1 = read s) (s : σ) :
    read (stateAt f es s k) = read s ∧
      read (accumEntries f es s).2.1 = read (f k v (stateAt f es s k)).2.1 := by
  induction es generalizing s with
  | nil => cases member
  | cons e es ih =>
    obtain ⟨k₀, v₀⟩ := e
    rw [List.map_cons, List.nodup_cons] at nodup
    rcases List.mem_cons.mp member with first | later
    · cases first
      have rest : read (accumEntries f es (f k v s).2.1).2.1 = read (f k v s).2.1 := by
        apply (accumEntries_invariant f (fun t => read t = read (f k v s).2.1) es ?_ _ rfl).1
        intro k' v' t later same
        have different := (key_ne_of_later nodup.1 later).symm
        exact (others k' v' t (List.mem_cons_of_mem _ later) different).trans same
      unfold stateAt accumEntries
      simp only [if_true, true_and]
      exact rest
    · have different := key_ne_of_later nodup.1 later
      have first := others k₀ v₀ s List.mem_cons_self different
      have rest := ih nodup.2 later
        (fun k' v' t later => others k' v' t (List.mem_cons_of_mem _ later)) (f k₀ v₀ s).2.1
      unfold stateAt accumEntries
      simp only [different, if_false]
      exact ⟨rest.1.trans first, rest.2⟩

/-- What an iteration in any order does to one key: nothing if it is absent, one visit if it
is there. -/
theorem get?_visit (m : KeyedMap κ υ) (rank : κ → Nat) (f : κ → υ → σ → υ × σ × ω) (s : σ) (k : κ) :
    match m.get? k with
    | none => ((m.reorder rank).mapAccum f s).1.get? k = none ∧
        outsOf k ((m.reorder rank).mapAccum f s).2.2 = []
    | some v =>
      ((m.reorder rank).mapAccum f s).1.get? k = some (f k v ((m.reorder rank).visitState f s k)).1 ∧
        outsOf k ((m.reorder rank).mapAccum f s).2.2 =
          [(f k v ((m.reorder rank).visitState f s k)).2.2] := by
  generalize ordered : m.reorder rank = m'
  have same : m'.get? k = m.get? k := by rw [← ordered, get?_reorder]
  rw [← same]
  cases h : m'.get? k with
  | none =>
    rw [get?_eq_none] at h
    have absent : k ∉ m'.entries.map Prod.fst := by
      intro member
      obtain ⟨e, he, rfl⟩ := List.mem_map.mp member
      exact h e.2 he
    refine ⟨?_, accumEntries_absent f m'.entries s k absent⟩
    rw [get?_eq_none]
    intro v member
    apply absent
    rw [← accumEntries_keys f m'.entries s]
    exact List.mem_map.mpr ⟨(k, v), member, rfl⟩
  | some v =>
    obtain ⟨stored, out⟩ :=
      accumEntries_visit f m'.entries s m'.nodup k v ((m'.get?_eq_some k v).mp h)
    exact ⟨(get?_eq_some _ _ _).mpr stored, out⟩

/-! ## The state -/

/-- What no visit changes stays, in any order. -/
theorem visit_frame {β : Type} (m : KeyedMap κ υ) (rank : κ → Nat) (f : κ → υ → σ → υ × σ × ω)
    (read : σ → β) (kept : ∀ k v s, m.get? k = some v → read (f k v s).2.1 = read s) (s : σ) :
    read ((m.reorder rank).mapAccum f s).2.1 = read s := by
  apply (accumEntries_invariant f (fun t => read t = read s) (m.reorder rank).entries ?_ s rfl).1
  intro k v t member same
  rw [← get?_eq_some, get?_reorder] at member
  exact (kept k v t member).trans same

/-- What only the visit of `k` changes, in any order. -/
theorem visit_slot {β : Type} (m : KeyedMap κ υ) (rank : κ → Nat) (f : κ → υ → σ → υ × σ × ω)
    (read : σ → β) {k : κ} {v : υ} (there : m.get? k = some v)
    (others : ∀ k' v' s, m.get? k' = some v' → k' ≠ k → read (f k' v' s).2.1 = read s) (s : σ) :
    read ((m.reorder rank).visitState f s k) = read s ∧
      read ((m.reorder rank).mapAccum f s).2.1 =
        read (f k v ((m.reorder rank).visitState f s k)).2.1 := by
  refine accumEntries_slot f read (m.reorder rank).entries (m.reorder rank).nodup ?_ ?_ s
  · rwa [← get?_eq_some, get?_reorder]
  · intro k' v' t member different
    rw [← get?_eq_some, get?_reorder] at member
    exact others k' v' t member different

/-! ## Totals over the values -/

omit [DecidableEq κ] in
theorem total_accumEntries_le (f : κ → υ → σ → υ × σ × ω) (amount : υ → Nat)
    (le : ∀ k v s, amount (f k v s).1 ≤ amount v) (es : List (κ × υ)) (s : σ) :
    total amount ((accumEntries f es s).1.map Prod.snd) ≤ total amount (es.map Prod.snd) := by
  induction es generalizing s with
  | nil => exact Nat.le_refl 0
  | cons e es ih =>
    obtain ⟨k, v⟩ := e
    unfold accumEntries
    simp only [List.map_cons, total_cons]
    exact Nat.add_le_add (le k v s) (ih _)

omit [DecidableEq κ] in
/-- An iteration in any order that makes no value's amount larger leaves the total no larger. -/
theorem total_visit_le (m : KeyedMap κ υ) (rank : κ → Nat) (f : κ → υ → σ → υ × σ × ω)
    (amount : υ → Nat) (le : ∀ k v s, amount (f k v s).1 ≤ amount v) (s : σ) :
    total amount ((m.reorder rank).mapAccum f s).1.values ≤ total amount m.values := by
  have same : total amount (m.reorder rank).values = total amount m.values :=
    total_perm amount ((List.mergeSort_perm _ _).map Prod.snd)
  rw [← same]
  exact total_accumEntries_le f amount le _ s

end KeyedMap
end OpLog.Library
