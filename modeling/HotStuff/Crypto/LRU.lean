import Mathlib.Data.List.AList
import Mathlib.Data.List.Perm.Basic

/-!
# The crypto cache's LRU list

`cache.insert`, `cache.check` and `cache.evict` keep a `map[string]*list.Element` beside a
`container/list` in most-recently-used order. Their model refines `LRU`, a list of distinct keys
with the most recently used first (`insert_refines`, `check_refines`), so that along every run
of inserts and checks from `newCache` the cache never panics, never holds more than `capacity`
keys, and holds exactly the most recently touched ones (`newCache_refines_lru`).
-/

namespace HotStuff

variable {K : Type} [DecidableEq K]

/-- A `*list.Element` of `container/list`: the identity of the node and the value it holds. -/
structure Element (K : Type) where
  id : Nat
  value : K
deriving DecidableEq

/-- `l.MoveToFront(e)`, which leaves `l` alone unless `e` is one of its elements. -/
def moveToFront (l : List (Element K)) (e : Element K) : List (Element K) :=
  if e ∈ l then e :: l.erase e else l

/-- The LRU state of the `cache` struct: `entries` maps each key to the element of
`accessOrder` that holds it, and `accessOrder` runs from the most recently used key at the front
to the least recently used at the back. `nextElement` names the element `PushFront` allocates. -/
structure Cache (K : Type) where
  capacity : Int
  entries : AList (fun _ : K => Element K)
  accessOrder : List (Element K)
  nextElement : Nat

namespace Cache

/-- The LRU state `NewCache` builds. -/
def newCache (capacity : Int) : Cache K := ⟨capacity, ∅, [], 0⟩

/-- `cache.evict`: once `len(entries)` reaches `capacity`, remove the back of `accessOrder` and
its key. `none` is the panic of `Remove` on the `nil` that `Back` returns for an empty list. -/
def evict (c : Cache K) : Option (Cache K) :=
  if (c.entries.keys.length : Int) < c.capacity then some c
  else
    match c.accessOrder.getLast? with
    | none => none
    | some e => some { c with accessOrder := c.accessOrder.erase e, entries := c.entries.erase e.value }

/-- `cache.insert`: promote a present key, or evict and push a new element to the front. -/
def insert (c : Cache K) (key : K) : Option (Cache K) :=
  match c.entries.lookup key with
  | some elem => some { c with accessOrder := moveToFront c.accessOrder elem }
  | none =>
    c.evict.map fun c =>
      { c with
        accessOrder := ⟨c.nextElement, key⟩ :: c.accessOrder
        entries := c.entries.insert key ⟨c.nextElement, key⟩
        nextElement := c.nextElement + 1 }

/-- `cache.check`: whether the key is present, promoting it if so. -/
def check (c : Cache K) (key : K) : Bool × Cache K :=
  match c.entries.lookup key with
  | none => (false, c)
  | some elem => (true, { c with accessOrder := moveToFront c.accessOrder elem })

omit [DecidableEq K] in
@[simp] theorem capacity_newCache (capacity : Int) : (newCache capacity : Cache K).capacity = capacity :=
  rfl

@[simp] theorem capacity_check (c : Cache K) (k : K) : (c.check k).2.capacity = c.capacity := by
  unfold check; split <;> rfl

@[simp] theorem entries_check (c : Cache K) (k : K) : (c.check k).2.entries = c.entries := by
  unfold check; split <;> rfl

@[simp] theorem fst_check (c : Cache K) (k : K) : (c.check k).1 = decide (k ∈ c.entries) := by
  unfold check
  split <;> rename_i h <;> simp [← AList.lookup_isSome, h]

theorem mem_entries_of_evict {c c' : Cache K} {k : K} (h : c.evict = some c')
    (hk : k ∈ c'.entries) : k ∈ c.entries := by
  unfold evict at h
  split_ifs at h
  · cases h; exact hk
  · split at h <;> cases h
    exact (AList.mem_erase.1 hk).2

/-- An insert stores no key but its own. -/
theorem mem_entries_of_insert {c c' : Cache K} {k k' : K} (h : c.insert k = some c')
    (hk : k' ∈ c'.entries) : k' = k ∨ k' ∈ c.entries := by
  unfold insert at h
  split at h
  · cases h; exact .inr hk
  · obtain ⟨c₁, h₁, rfl⟩ := Option.map_eq_some'.1 h
    exact (AList.mem_insert _).1 hk |>.imp_right (mem_entries_of_evict h₁)

end Cache

/-- The list an LRU cache is meant to keep: distinct keys, the most recently used first. -/
structure LRU (K : Type) where
  keys : List K
  nodup : keys.Nodup

namespace LRU

/-- The empty list. -/
def empty : LRU K := ⟨[], List.nodup_nil⟩

/-- Move `k` to the front. -/
def touch (A : LRU K) (k : K) : LRU K :=
  ⟨k :: A.keys.erase k, List.nodup_cons.2 ⟨fun h => (A.nodup.mem_erase_iff.1 h).1 rfl,
    A.nodup.erase k⟩⟩

/-- Drop the least recently used key. -/
def dropLast (A : LRU K) : LRU K := ⟨A.keys.dropLast, A.nodup.sublist (List.dropLast_sublist _)⟩

/-- Push an absent key on the front. -/
def push (A : LRU K) (k : K) (hk : k ∉ A.keys) : LRU K :=
  ⟨k :: A.keys, List.nodup_cons.2 ⟨hk, A.nodup⟩⟩

/-- Insert `k`: move it to the front if present; otherwise drop the last key of a full list
and push `k` on the front. -/
def insert (cap : Nat) (A : LRU K) (k : K) : LRU K :=
  if hk : k ∈ A.keys then A.touch k
  else if A.keys.length = cap then A.dropLast.push k fun h => hk (List.dropLast_subset _ h)
  else A.push k hk

/-- Check `k`: whether it is present, moving it to the front if so. -/
def check (A : LRU K) (k : K) : Bool × LRU K :=
  if k ∈ A.keys then (true, A.touch k) else (false, A)

@[simp] theorem keys_touch (A : LRU K) (k : K) : (A.touch k).keys = k :: A.keys.erase k := rfl

theorem keys_insert_of_mem {cap : Nat} {A : LRU K} {k : K} (hk : k ∈ A.keys) :
    (A.insert cap k).keys = k :: A.keys.erase k := by
  simp [insert, hk]

theorem keys_insert_of_not_mem {cap : Nat} {A : LRU K} {k : K} (hk : k ∉ A.keys) :
    (A.insert cap k).keys = k :: if A.keys.length = cap then A.keys.dropLast else A.keys := by
  unfold insert
  split_ifs <;> rfl

end LRU

/-! ## The concrete state refines the LRU list -/

section Lists

variable {α β : Type} [DecidableEq α] [DecidableEq β]

/-- Erasing an element whose image is unique erases its image. -/
theorem map_erase_of_nodup (f : α → β) {l : List α} {a : α} (ha : a ∈ l)
    (hl : (l.map f).Nodup) : (l.erase a).map f = (l.map f).erase (f a) := by
  induction l with
  | nil => simp at ha
  | cons b t ih =>
    by_cases hb : b = a
    · subst hb; simp
    · have hat : a ∈ t := (List.mem_cons.1 ha).resolve_left (Ne.symm hb)
      have hl' := List.nodup_cons.1 hl
      have hfb : f b ≠ f a := fun h => hl'.1 (h ▸ List.mem_map_of_mem f hat)
      rw [List.erase_cons_tail (by simpa using hb), List.map_cons, List.map_cons,
        List.erase_cons_tail (by simpa using hfb), ih hat hl'.2]

/-- In a list without duplicates, erasing the last element drops it. -/
theorem erase_getLast_of_nodup {l : List α} (hl : l.Nodup) (h : l ≠ []) :
    l.erase (l.getLast h) = l.dropLast := by
  obtain ⟨init, a, rfl⟩ := (List.eq_nil_or_concat l).resolve_left h
  rw [List.concat_eq_append] at hl
  have ha : a ∉ init := fun hm => (List.nodup_append.1 hl).2.2 hm (List.mem_singleton_self a)
  simp [List.erase_append_right _ ha]

theorem take_erase_of_mem {k : α} : ∀ {l : List α} {n : Nat}, k ∈ l.take n →
    (l.take n).erase k = (l.erase k).take (n - 1)
  | [], n, h => by simp at h
  | _ :: _, 0, h => by simp at h
  | a :: t, n + 1, h => by
    by_cases ha : a = k
    · subst ha; simp
    · have ht : k ∈ t.take n := by simpa [Ne.symm ha] using h
      obtain ⟨m, rfl⟩ : ∃ m, n = m + 1 := ⟨n - 1, by cases n <;> simp_all⟩
      rw [List.take_succ_cons, List.erase_cons_tail (by simpa using ha),
        List.erase_cons_tail (by simpa using ha), take_erase_of_mem ht]
      rfl

theorem take_erase_of_not_mem {k : α} : ∀ {l : List α} {n : Nat}, k ∉ l.take n →
    (l.erase k).take n = l.take n
  | [], _, _ => by simp
  | _ :: _, 0, _ => by simp
  | a :: t, n + 1, h => by
    have ha : a ≠ k := fun hak => h (by simp [hak])
    rw [List.erase_cons_tail (by simpa using ha), List.take_succ_cons, List.take_succ_cons,
      take_erase_of_not_mem fun ht => h (by simp [ht])]

end Lists

/-- The cache's state matches the LRU list `A`: `accessOrder` holds `A`'s keys in order,
`entries` maps exactly `A`'s keys, each to the element that holds it, and `A` fits. -/
structure Refines (c : Cache K) (A : LRU K) : Prop where
  order : c.accessOrder.map Element.value = A.keys
  keys : c.entries.keys.Perm A.keys
  elem : ∀ {k e}, c.entries.lookup k = some e → e ∈ c.accessOrder ∧ e.value = k
  size : (A.keys.length : Int) ≤ c.capacity

namespace Refines

variable {c : Cache K} {A : LRU K}

theorem mem_iff (h : Refines c A) {k : K} : k ∈ c.entries ↔ k ∈ A.keys :=
  AList.mem_keys.trans h.keys.mem_iff

theorem length_keys (h : Refines c A) : c.entries.keys.length = A.keys.length :=
  h.keys.length_eq

theorem nodup_order (h : Refines c A) : c.accessOrder.Nodup :=
  List.Nodup.of_map Element.value (h.order ▸ A.nodup)

/-- Promoting the element of a present key refines `touch`. -/
theorem moveToFront {k : K} {e : Element K} (h : Refines c A) (he : c.entries.lookup k = some e) :
    Refines { c with accessOrder := HotStuff.moveToFront c.accessOrder e } (A.touch k) := by
  obtain ⟨hmem, rfl⟩ := h.elem he
  have hk : e.value ∈ A.keys := h.mem_iff.1 (AList.lookup_isSome.1 (by simp [he]))
  have hperm : (HotStuff.moveToFront c.accessOrder e).Perm c.accessOrder := by
    simpa [HotStuff.moveToFront, hmem] using (List.perm_cons_erase hmem).symm
  refine ⟨?_, h.keys.trans (List.perm_cons_erase hk), fun hl => ?_, ?_⟩
  · simp [HotStuff.moveToFront, hmem, map_erase_of_nodup _ hmem (h.order ▸ A.nodup), h.order]
  · exact ⟨hperm.mem_iff.2 (h.elem hl).1, (h.elem hl).2⟩
  · simpa [(List.perm_cons_erase hk).length_eq] using h.size


theorem lookup_eq_none_iff (h : Refines c A) {k : K} : c.entries.lookup k = none ↔ k ∉ A.keys :=
  AList.lookup_eq_none.trans (not_congr h.mem_iff)

/-- Pushing a fresh element for an absent key refines `push`. -/
theorem pushFront {k : K} (h : Refines c A) (hk : k ∉ A.keys)
    (hlt : (A.keys.length : Int) < c.capacity) :
    Refines { c with
      accessOrder := ⟨c.nextElement, k⟩ :: c.accessOrder
      entries := c.entries.insert k ⟨c.nextElement, k⟩
      nextElement := c.nextElement + 1 } (A.push k hk) := by
  have hk' : k ∉ c.entries.keys := fun hm => hk (h.mem_iff.1 (AList.mem_keys.2 hm))
  refine ⟨by simp [LRU.push, h.order], ?_, fun {k' e} hl => ?_, ?_⟩
  · rw [AList.keys_insert, List.erase_of_not_mem hk']
    exact h.keys.cons k
  · by_cases hkk : k' = k
    · subst hkk
      rw [AList.lookup_insert] at hl
      cases hl
      simp
    · rw [AList.lookup_insert_ne hkk] at hl
      exact ⟨List.mem_cons_of_mem _ (h.elem hl).1, (h.elem hl).2⟩
  · simp only [LRU.push, List.length_cons]
    push_cast
    omega

/-- `evict` never panics on a refined state of positive capacity: it drops the last key of a
full list and leaves any other alone. -/
theorem evict (h : Refines c A) (hcap : 1 ≤ c.capacity) :
    ∃ c', c.evict = some c' ∧ c'.capacity = c.capacity ∧ c'.nextElement = c.nextElement ∧
      Refines c' (if A.keys.length = c.capacity.toNat then A.dropLast else A) := by
  have hsize := h.size
  unfold Cache.evict
  rw [h.length_keys]
  by_cases hlt : (A.keys.length : Int) < c.capacity
  · rw [if_pos hlt, if_neg (by omega)]
    exact ⟨c, rfl, rfl, rfl, h⟩
  have hfull : A.keys.length = c.capacity.toNat := by omega
  have hne : c.accessOrder ≠ [] := List.ne_nil_of_length_pos (by
    rw [← List.length_map _ Element.value, h.order]
    omega)
  have hmem := List.getLast_mem hne
  have hnd : (c.accessOrder.map Element.value).Nodup := h.order ▸ A.nodup
  have hdrop : (c.accessOrder.erase (c.accessOrder.getLast hne)).map Element.value =
      A.keys.dropLast := by
    rw [erase_getLast_of_nodup h.nodup_order hne, List.map_dropLast, h.order]
  have hkeys : A.keys.erase (c.accessOrder.getLast hne).value = A.keys.dropLast := by
    rw [← hdrop, map_erase_of_nodup _ hmem hnd, h.order]
  rw [if_neg hlt, List.getLast?_eq_getLast _ hne, if_pos hfull]
  refine ⟨_, rfl, rfl, rfl, hdrop, ?_, fun {k e} hl => ?_, ?_⟩
  · rw [AList.keys_erase]
    exact (h.keys.erase _).trans (by rw [hkeys]; rfl)
  · have hk : k ≠ (c.accessOrder.getLast hne).value := by
      rintro rfl
      simp [AList.lookup_erase] at hl
    rw [AList.lookup_erase_ne hk] at hl
    obtain ⟨he, rfl⟩ := h.elem hl
    exact ⟨(List.mem_erase_of_ne fun hee => hk (congrArg Element.value hee)).2 he, rfl⟩
  · simp only [LRU.dropLast, List.length_dropLast]
    omega

end Refines

open Refines in
/-- `insert` never panics on a refined state of positive capacity, and refines `LRU.insert`. -/
theorem insert_refines {c : Cache K} {A : LRU K} (h : Refines c A) (hcap : 1 ≤ c.capacity)
    (k : K) : ∃ c', c.insert k = some c' ∧ c'.capacity = c.capacity ∧
      Refines c' (A.insert c.capacity.toNat k) := by
  unfold Cache.insert
  cases hl : c.entries.lookup k with
  | some e =>
    have hk : k ∈ A.keys := by
      by_contra hk
      rw [(h.lookup_eq_none_iff).2 hk] at hl
      cases hl
    exact ⟨_, rfl, rfl, by simpa [LRU.insert, hk] using h.moveToFront hl⟩
  | none =>
    have hk : k ∉ A.keys := h.lookup_eq_none_iff.1 hl
    have hsize := h.size
    obtain ⟨c₁, he, hc₁, -, h₁⟩ := h.evict hcap
    rw [he]
    refine ⟨_, rfl, hc₁, ?_⟩
    unfold LRU.insert
    rw [dif_neg hk]
    split_ifs at h₁ ⊢ with hfull
    · refine h₁.pushFront _ ?_
      simp only [LRU.dropLast, List.length_dropLast]
      omega
    · exact h₁.pushFront _ (by omega)

/-- `check` answers as `LRU.check` does, and refines it. -/
theorem check_refines {c : Cache K} {A : LRU K} (h : Refines c A) (k : K) :
    (c.check k).1 = (A.check k).1 ∧ Refines (c.check k).2 (A.check k).2 := by
  unfold Cache.check LRU.check
  cases hl : c.entries.lookup k with
  | none => simp [h.lookup_eq_none_iff.1 hl, h]
  | some e =>
    have hk : k ∈ A.keys := by
      by_contra hk
      rw [(h.lookup_eq_none_iff).2 hk] at hl
      cases hl
    simpa [hk] using h.moveToFront hl

theorem refines_newCache (capacity : Int) (h : 0 ≤ capacity) :
    Refines (Cache.newCache capacity : Cache K) LRU.empty :=
  ⟨rfl, List.Perm.refl _, fun hl => by simp [Cache.newCache] at hl, by simpa [LRU.empty] using h⟩

/-! ## Runs -/

/-- A call the crypto cache makes on its LRU state. -/
inductive Op (K : Type)
  | insert (key : K)
  | check (key : K)

/-- A run of `insert` and `check` calls, with the answers of the checks; `none` if a call
panics. -/
def Cache.run : Cache K → List (Op K) → Option (Cache K × List Bool)
  | c, [] => some (c, [])
  | c, .insert k :: ops => (c.insert k).bind fun c => c.run ops
  | c, .check k :: ops => ((c.check k).2.run ops).map fun r => (r.1, (c.check k).1 :: r.2)

/-- The same run on the LRU list. -/
def LRU.run (cap : Nat) : LRU K → List (Op K) → LRU K × List Bool
  | A, [] => (A, [])
  | A, .insert k :: ops => (A.insert cap k).run cap ops
  | A, .check k :: ops =>
    (((A.check k).2.run cap ops).1, (A.check k).1 :: ((A.check k).2.run cap ops).2)

/-- Every run from a refined state of positive capacity completes, answers every check as the
LRU list does, and ends refining it. -/
theorem run_refines : ∀ (ops : List (Op K)) {c : Cache K} {A : LRU K}, Refines c A →
    1 ≤ c.capacity → ∃ c', c.run ops = some (c', (A.run c.capacity.toNat ops).2) ∧
      c'.capacity = c.capacity ∧ Refines c' (A.run c.capacity.toNat ops).1
  | [], c, _, h, _ => ⟨c, rfl, rfl, h⟩
  | .insert k :: ops, c, A, h, hcap => by
    obtain ⟨c₁, h₁, hc₁, hr₁⟩ := insert_refines h hcap k
    obtain ⟨c₂, h₂, hc₂, hr₂⟩ := run_refines ops hr₁ (hc₁ ▸ hcap)
    rw [hc₁] at h₂ hr₂
    exact ⟨c₂, by simp [Cache.run, LRU.run, h₁, h₂], hc₂.trans hc₁, hr₂⟩
  | .check k :: ops, c, A, h, hcap => by
    obtain ⟨hb, hr₁⟩ := check_refines h k
    obtain ⟨c₂, h₂, hc₂, hr₂⟩ := run_refines ops hr₁ (by simpa using hcap)
    simp only [Cache.capacity_check] at h₂ hc₂ hr₂
    exact ⟨c₂, by rw [Cache.run, h₂, hb]; rfl, hc₂, hr₂⟩

/-! ## Which keys stay -/

/-- The distinct keys of a newest-first list of touches, each at its latest touch. -/
def mru : List K → List K
  | [] => []
  | k :: t => k :: (mru t).erase k

/-- The keys a run touches, oldest first: every inserted key, and every checked key that hit. -/
def LRU.touches (cap : Nat) : LRU K → List (Op K) → List K
  | _, [] => []
  | A, .insert k :: ops => k :: (A.insert cap k).touches cap ops
  | A, .check k :: ops =>
    (if (A.check k).1 then [k] else []) ++ (A.check k).2.touches cap ops

/-- A list holding the `cap` most recent of the distinct touched keys still does after one more
insert. -/
theorem keys_insert_mru {cap : Nat} (hcap : 1 ≤ cap) {A : LRU K} {T : List K}
    (hA : A.keys = (mru T).take cap) (k : K) :
    (A.insert cap k).keys = (mru (k :: T)).take cap := by
  obtain ⟨c, rfl⟩ : ∃ c, cap = c + 1 := ⟨cap - 1, by omega⟩
  rw [mru, List.take_succ_cons]
  by_cases hk : k ∈ A.keys
  · rw [LRU.keys_insert_of_mem hk, hA, take_erase_of_mem (hA ▸ hk)]
    rfl
  · rw [LRU.keys_insert_of_not_mem hk, hA]
    rw [hA] at hk
    rw [take_erase_of_not_mem fun h => hk (List.take_subset_take_left _ (Nat.le_succ c) h)]
    congr 1
    split_ifs with hfull
    · rw [List.dropLast_eq_take, List.take_take, hfull]
      simp
    · have hlen : (mru T).length ≤ c := by
        simp only [List.length_take] at hfull
        omega
      rw [List.take_of_length_le (by omega), List.take_of_length_le hlen]

theorem run_keys_mru (cap : Nat) (hcap : 1 ≤ cap) : ∀ (ops : List (Op K)) {A : LRU K}
    {T : List K}, A.keys = (mru T).take cap →
      (A.run cap ops).1.keys = (mru ((A.touches cap ops).reverse ++ T)).take cap
  | [], A, T, hA => by simpa [LRU.run, LRU.touches] using hA
  | .insert k :: ops, A, T, hA => by
    simpa [LRU.run, LRU.touches] using run_keys_mru cap hcap ops (keys_insert_mru hcap hA k)
  | .check k :: ops, A, T, hA => by
    by_cases hk : k ∈ A.keys
    · have hT : (A.touch k).keys = (mru (k :: T)).take cap := by
        rw [← keys_insert_mru hcap hA k, LRU.keys_insert_of_mem hk, LRU.keys_touch]
      simpa [LRU.run, LRU.touches, LRU.check, hk] using run_keys_mru cap hcap ops hT
    · simpa [LRU.run, LRU.touches, LRU.check, hk] using run_keys_mru cap hcap ops hA

/-- From `NewCache` with `capacity ≥ 1`, every run of inserts and checks completes, so `evict`
never removes from an empty list; it answers every check as the LRU list does and ends refining
it, with at most `capacity` entries: the `capacity` most recently touched distinct keys. -/
theorem newCache_refines_lru (capacity : Int) (hcap : 1 ≤ capacity) (ops : List (Op K)) :
    ∃ c, (Cache.newCache capacity).run ops = some (c, (LRU.empty.run capacity.toNat ops).2) ∧
      Refines c (LRU.empty.run capacity.toNat ops).1 ∧
      (c.entries.keys.length : Int) ≤ capacity ∧
      (LRU.empty.run capacity.toNat ops).1.keys =
        (mru (LRU.empty.touches capacity.toNat ops).reverse).take capacity.toNat := by
  obtain ⟨c, hrun, hc, hr⟩ :=
    run_refines ops (refines_newCache (K := K) capacity (by omega)) (by simpa using hcap)
  simp only [Cache.capacity_newCache] at hrun hr hc
  refine ⟨c, hrun, hr, ?_, ?_⟩
  · rw [hr.length_keys]
    exact hc ▸ hr.size
  · simpa using run_keys_mru capacity.toNat (by omega) ops (A := LRU.empty) (T := [])
      (by simp [LRU.empty, mru])

theorem newCache_refines_lru_two : (1 : Int) ≤ 2 ∧
    ∃ c, (Cache.newCache 2 : Cache Nat).run [.insert 1, .insert 2, .check 1, .insert 3] =
        some (c, (LRU.empty.run 2 [.insert 1, .insert 2, .check 1, .insert 3]).2) ∧
      Refines c (LRU.empty.run 2 [.insert 1, .insert 2, .check 1, .insert 3]).1 ∧
      (c.entries.keys.length : Int) ≤ 2 ∧
      (LRU.empty.run 2 [.insert 1, .insert 2, .check 1, .insert 3]).1.keys =
        (mru (LRU.empty.touches 2 [.insert 1, .insert 2, .check 1, .insert 3]).reverse).take 2 :=
  ⟨by decide, newCache_refines_lru 2 (by decide) _⟩

/-- A state of positive capacity that some LRU list refines: no call on it panics. -/
def Cache.WellFormed (c : Cache K) : Prop := 1 ≤ c.capacity ∧ ∃ A, Refines c A

namespace Cache.WellFormed

variable {c : Cache K}

theorem newCache {capacity : Int} (h : 1 ≤ capacity) : (Cache.newCache capacity : Cache K).WellFormed :=
  ⟨h, _, refines_newCache capacity (by omega)⟩

theorem insert (h : c.WellFormed) (k : K) : ∃ c', c.insert k = some c' ∧ c'.WellFormed := by
  obtain ⟨hcap, A, hA⟩ := h
  obtain ⟨c', h', hc', hr'⟩ := insert_refines hA hcap k
  exact ⟨c', h', hc' ▸ hcap, _, hr'⟩

theorem check (h : c.WellFormed) (k : K) : (c.check k).2.WellFormed :=
  ⟨by simpa using h.1, _, (check_refines h.2.choose_spec k).2⟩

end Cache.WellFormed

end HotStuff
