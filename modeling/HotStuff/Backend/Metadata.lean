import HotStuff.Basic
import Mathlib.Data.List.Infix
import Mathlib.Data.List.Perm.Basic

/-!
# Connection metadata

`Connect` sends a replica's `ConnectionMetadata` to its peers as gRPC metadata, each key put
under `keyPrefix` by `mapToMetadata`, beside the `id` key and gRPC's own keys; a peer's
`replicaConnected` reads it back with `readMetadata`. For keys that gRPC's lower-casing leaves as
they are, and foreign keys that do not hold `keyPrefix`, the round trip gives the map back, in
every order in which `range` visits the two maps (`readMetadata_mapToMetadata`).

Two things stand in the way of more: `metadata.MD.Set` lower-cases its key, and `strings.Cut`
cuts at the first `keyPrefix` anywhere in a key, not only at its start
(`readMetadata_changes_keys`).
-/

namespace HotStuff.Backend

/-- `m[k] = v` on a Go map, kept as its entries with distinct keys. -/
def setKey {α β : Type} [DecidableEq α] : List (α × β) → α → β → List (α × β)
  | [], k, v => [(k, v)]
  | e :: rest, k, v => if e.1 = k then (k, v) :: rest else e :: setKey rest k v

/-- A gRPC `metadata.MD`: each key with its values. -/
abbrev MD := List (Bytes × List Bytes)

/-- `md.Set(k, v)`: gRPC keeps the key as `strings.ToLower` gives it, here `lower`. -/
def MD.set (lower : Bytes → Bytes) (md : MD) (k v : Bytes) : MD := setKey md (lower k) [v]

/-- `keyPrefix`. -/
def keyPrefix : Bytes := bytes "hotstuff-"

/-- `mapToMetadata`, its `range` visiting the entries of `m` in order. -/
def mapToMetadata (lower : Bytes → Bytes) (m : List (Bytes × Bytes)) : MD :=
  m.foldl (fun md e => md.set lower (keyPrefix ++ e.1) e.2) []

/-- `strings.Cut(s, sep)`: the bytes before and after the first instance of `sep` in `s`, and
whether there is one. -/
def cut (s sep : Bytes) : Bytes × Bytes × Bool :=
  if sep <+: s then ([], s.drop sep.length, true)
  else
    match s with
    | [] => ([], [], false)
    | c :: s' =>
      let r := cut s' sep
      if r.2.2 then (c :: r.1, r.2.1, true) else (c :: s', [], false)

/-- One turn of the `range` in `readMetadata`; `none` is the panic of `values[0]` on a key with
no values. -/
def readEntry (m : List (Bytes × Bytes)) (e : Bytes × List Bytes) :
    Option (List (Bytes × Bytes)) :=
  let r := cut e.1 keyPrefix
  if r.2.2 then e.2.head?.map (setKey m r.2.1) else some m

/-- `readMetadata`, its `range` visiting the entries of `md` in order. -/
def readMetadata (md : MD) : Option (List (Bytes × Bytes)) := md.foldlM readEntry []

/-- ASCII lower-casing, which is what `strings.ToLower` does to an ASCII string. -/
def asciiLower (s : Bytes) : Bytes := s.map fun b => if 65 ≤ b ∧ b ≤ 90 then b + 32 else b

/-! ## Go maps and `strings.Cut` -/

theorem setKey_of_not_mem {α β : Type} [DecidableEq α] {k : α} (v : β) :
    ∀ {m : List (α × β)}, k ∉ m.map Prod.fst → setKey m k v = m ++ [(k, v)]
  | [], _ => rfl
  | e :: m, hk => by
    rw [List.map_cons, List.mem_cons, not_or] at hk
    rw [setKey, if_neg (Ne.symm hk.1), setKey_of_not_mem v hk.2, List.cons_append]

/-- A key that begins with `sep` is cut right after it. -/
theorem cut_append (sep s : Bytes) : cut (sep ++ s) sep = ([], s, true) := by
  unfold cut
  rw [if_pos (List.prefix_append _ _), List.drop_left]

/-- `strings.Cut` finds `sep` exactly when `sep` stands anywhere in `s`. -/
theorem cut_found_iff (sep : Bytes) : ∀ s : Bytes, (cut s sep).2.2 = true ↔ sep <:+: s
  | [] => by
    rw [cut]
    split
    · exact iff_of_true rfl ‹sep <+: []›.isInfix
    · exact iff_of_false Bool.false_ne_true fun h =>
        ‹¬ sep <+: []› (List.infix_nil.1 h ▸ List.prefix_refl [])
  | c :: s => by
    rw [cut, List.infix_cons_iff]
    split
    · exact iff_of_true rfl (.inl ‹_›)
    · rw [or_iff_right ‹_›, ← cut_found_iff sep s]
      simp only
      split <;> simp_all

/-! ## The round trip -/

section RoundTrip

variable (lower : Bytes → Bytes)

/-- What `readMetadata` keeps of an entry: the key after the cut and the first value. -/
def kept (e : Bytes × List Bytes) : Option (Bytes × Bytes) :=
  if (cut e.1 keyPrefix).2.2 then e.2.head?.map ((cut e.1 keyPrefix).2.1, ·) else none

/-- Keys that gRPC leaves as they are go in under `keyPrefix`, one value each, in order. -/
theorem mapToMetadata_eq {m : List (Bytes × Bytes)} (hm : (m.map Prod.fst).Nodup)
    (hlower : ∀ k ∈ m.map Prod.fst, lower (keyPrefix ++ k) = keyPrefix ++ k) :
    mapToMetadata lower m = m.map fun e => (keyPrefix ++ e.1, [e.2]) := by
  suffices h : ∀ (m : List (Bytes × Bytes)) (acc : MD),
      (∀ k ∈ m.map Prod.fst, lower (keyPrefix ++ k) = keyPrefix ++ k) →
      (acc.map Prod.fst ++ (m.map Prod.fst).map (keyPrefix ++ ·)).Nodup →
      m.foldl (fun md e => md.set lower (keyPrefix ++ e.1) e.2) acc =
        acc ++ m.map fun e => (keyPrefix ++ e.1, [e.2]) from
    h m [] hlower (by simpa using hm.map fun _ _ => List.append_cancel_left)
  intro m
  induction m with
  | nil => simp
  | cons e m ih =>
    intro acc hlow hnd
    simp only [List.map_cons, List.mem_cons, forall_eq_or_imp] at hlow hnd
    have hfresh : keyPrefix ++ e.1 ∉ acc.map Prod.fst := fun h =>
      List.disjoint_of_nodup_append hnd h (List.mem_cons_self _ _)
    rw [List.foldl_cons, MD.set, hlow.1, setKey_of_not_mem _ hfresh,
      ih _ hlow.2 (by simpa using hnd), List.map_cons, List.append_assoc, List.singleton_append]

/-- `readMetadata` does not panic when every entry it keeps has a value and the keys it keeps
differ; then it returns what it keeps, in order. -/
theorem foldlM_readEntry :
    ∀ (md : MD) (acc : List (Bytes × Bytes)),
      (∀ e ∈ md, (cut e.1 keyPrefix).2.2 → e.2 ≠ []) →
      (acc.map Prod.fst ++ (md.filterMap kept).map Prod.fst).Nodup →
      md.foldlM readEntry acc = some (acc ++ md.filterMap kept)
  | [], acc, _, _ => by simp
  | e :: md, acc, hval, hnd => by
    have hval' := fun e' he' => hval e' (List.mem_cons_of_mem e he')
    rw [List.foldlM_cons]
    by_cases hf : (cut e.1 keyPrefix).2.2
    · obtain ⟨v, vs, hv⟩ := List.exists_cons_of_ne_nil (hval e (List.mem_cons_self _ _) hf)
      have hk : kept (e.1, v :: vs) = some ((cut e.1 keyPrefix).2.1, v) := by simp [kept, hf]
      obtain ⟨k, vals⟩ := e
      subst hv
      rw [List.filterMap_cons_some hk] at hnd ⊢
      simp only [List.map_cons] at hnd
      have hfresh : (cut k keyPrefix).2.1 ∉ acc.map Prod.fst := fun h =>
        List.disjoint_of_nodup_append hnd h (List.mem_cons_self _ _)
      simp only [readEntry, hf, if_true, List.head?_cons, Option.map_some', Option.bind_eq_bind,
        Option.some_bind, setKey_of_not_mem _ hfresh]
      rw [foldlM_readEntry md _ hval' (by simpa using hnd), List.append_assoc,
        List.singleton_append]
    · have hk : kept e = none := by simp [kept, hf]
      rw [List.filterMap_cons_none hk] at hnd ⊢
      simp only [readEntry, hf, Bool.false_eq_true, if_false, Option.bind_eq_bind, Option.some_bind]
      exact foldlM_readEntry md acc hval' hnd

/-- For every map `m` whose keys gRPC's lower-casing leaves as they are under `keyPrefix`, every
map `md'` of foreign keys none of which holds `keyPrefix`, and every order in which `range`
visits the merged metadata: `readMetadata` does not panic and gives back `m`. -/
theorem readMetadata_mapToMetadata {m : List (Bytes × Bytes)} (hm : (m.map Prod.fst).Nodup)
    (hlower : ∀ k ∈ m.map Prod.fst, lower (keyPrefix ++ k) = keyPrefix ++ k)
    {md' : MD} (hmd' : ∀ k ∈ md'.map Prod.fst, ¬ keyPrefix <:+: k)
    {md : MD} (hmd : md.Perm (mapToMetadata lower m ++ md')) :
    ∃ r, readMetadata md = some r ∧ r.Perm m := by
  rw [mapToMetadata_eq lower hm hlower] at hmd
  have hforeign : ∀ e ∈ md', (cut e.1 keyPrefix).2.2 = false := fun e he =>
    Bool.eq_false_iff.2 fun h => hmd' e.1 (List.mem_map_of_mem _ he) ((cut_found_iff _ _).1 h)
  -- what `readMetadata` keeps of the merged metadata is `m`
  have hkept : ((m.map fun e => (keyPrefix ++ e.1, [e.2])) ++ md').filterMap kept = m := by
    have hmd'_kept : md'.filterMap kept = [] :=
      List.filterMap_eq_nil_iff.2 fun e he => by simp [kept, hforeign e he]
    rw [List.filterMap_append, hmd'_kept, List.append_nil, List.filterMap_map]
    conv_rhs => rw [← List.filterMap_some m]
    exact List.filterMap_congr fun e _ => by simp [kept, cut_append]
  have hperm : (md.filterMap kept).Perm m := hkept ▸ hmd.filterMap kept
  refine ⟨_, foldlM_readEntry md [] (fun e he hf => ?_) ?_, hperm⟩
  · rcases List.mem_append.1 (hmd.mem_iff.1 he) with he | he
    · obtain ⟨e, -, rfl⟩ := List.mem_map.1 he
      simp
    · simp [hforeign e he] at hf
  · simpa using (hperm.map Prod.fst).nodup_iff.2 hm

theorem readMetadata_mapToMetadata_region :
    ([(bytes "region", bytes "eu")].map Prod.fst).Nodup ∧
    (∀ k ∈ [(bytes "region", bytes "eu")].map Prod.fst,
      asciiLower (keyPrefix ++ k) = keyPrefix ++ k) ∧
    (∀ k ∈ [(bytes "id", [bytes "2"])].map Prod.fst, ¬ keyPrefix <:+: k) ∧
    ([(bytes "id", [bytes "2"])] ++ mapToMetadata asciiLower [(bytes "region", bytes "eu")]).Perm
      (mapToMetadata asciiLower [(bytes "region", bytes "eu")] ++ [(bytes "id", [bytes "2"])]) ∧
    ∃ r, readMetadata ([(bytes "id", [bytes "2"])] ++
        mapToMetadata asciiLower [(bytes "region", bytes "eu")]) = some r ∧
      r.Perm [(bytes "region", bytes "eu")] :=
  ⟨by decide, by decide, by decide, List.perm_append_comm,
    readMetadata_mapToMetadata asciiLower (by decide) (by decide) (by decide)
      List.perm_append_comm⟩

end RoundTrip

/-- gRPC lower-cases the key `Region`, so it comes back as `region`; and the foreign key
`x-hotstuff-trace`, which does not begin with `keyPrefix`, is read as `trace`. -/
theorem readMetadata_changes_keys :
    readMetadata (mapToMetadata asciiLower [(bytes "Region", bytes "eu")]) =
        some [(bytes "region", bytes "eu")] ∧
      ¬ keyPrefix <+: bytes "x-hotstuff-trace" ∧
      readMetadata (mapToMetadata asciiLower [] ++ [(bytes "x-hotstuff-trace", [bytes "1"])]) =
        some [(bytes "trace", bytes "1")] := by
  decide

end HotStuff.Backend
