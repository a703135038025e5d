import HotStuff.Orchestration.Controller
import HotStuff.Backend.Metadata
import Mathlib.Data.List.Basic

/-!
# The quorum functions of the experiment controller

Each host of an experiment answers `CreateReplica` with the replicas it created, and
`StopReplica` with a hash of what each of its replicas executed. `CreateReplicaQF` merges the
first answers into the configuration that `startReplicas` and `startClients` hand to every host;
`StopReplicaQF` merges the hashes, which `stopReplicas` then compares. Both merges write a Go map
entry by entry, a later reply overwriting an earlier one's entry. Since `createReplicas` records
disjoint blocks of IDs under the hosts (`flatMap_getIDs_createReplicas`), no entry is overwritten
when each host answers for the IDs it was given. So whatever order gorums collects the replies
in, the configuration holds every created replica once, at the host that runs it
(`createReplicaQF_createReplicas`), and `stopReplicas` reports a mismatch exactly when two
replicas' hashes differ (`stopReplicas_mismatch_iff`).
-/

namespace HotStuff.Orchestration

open Backend (setKey setKey_of_not_mem)

variable {α : Type}

/-- An `orchestrationpb.ReplicaInfo`: its `ID`, its `Address`, which `CreateReplicaQF` sets, and
the fields the controller passes on as they are. -/
structure ReplicaInfo (α : Type) where
  id : UInt32
  address : Bytes
  other : α
deriving DecidableEq

/-- A turn of the inner `range` of `CreateReplicaQF`, for a reply from the node at `addr`:
`cfg[replica.ID] = replica`, its `Address` set to the host part of `addr`. `splitHost` gives the
host `net.SplitHostPort` cuts from an address (`none`: its error, a panic). -/
def setReplica (splitHost : Bytes → Option Bytes) (addr : Bytes) (cfg : List (UInt32 × ReplicaInfo α))
    (replica : ReplicaInfo α) : Option (List (UInt32 × ReplicaInfo α)) := do
  let host ← splitHost addr
  return setKey cfg replica.id { replica with address := host }

/-- A turn of the outer `range` of `CreateReplicaQF`: `address u` is the address of the manager's
node `u` (`none`: the manager has no such node, a panic). -/
def addReply (address : UInt32 → Option Bytes) (splitHost : Bytes → Option Bytes)
    (cfg : List (UInt32 × ReplicaInfo α)) (reply : UInt32 × List (ReplicaInfo α)) :
    Option (List (UInt32 × ReplicaInfo α)) := do
  let addr ← address reply.1
  reply.2.foldlM (setReplica splitHost addr) cfg

/-- `CreateReplicaQF`, its `range` visiting the replies and each reply's replicas in order;
`size` is `e.config.Size()`. `none` is a panic, `some none` the `nil, false` of a missing reply. -/
def createReplicaQF (size : Nat) (address : UInt32 → Option Bytes)
    (splitHost : Bytes → Option Bytes) (replies : List (UInt32 × List (ReplicaInfo α))) :
    Option (Option (List (UInt32 × ReplicaInfo α))) :=
  if replies.length ≠ size then some none
  else (replies.foldlM (addReply address splitHost) []).map some

/-- `StopReplicaQF`, its `range` visiting the replies and each reply's hashes in order: the merged
hashes, and whether every host replied. A `nil` hash is `none`. -/
def stopReplicaQF (size : Nat) (replies : List (UInt32 × List (UInt32 × Option Bytes))) :
    List (UInt32 × Option Bytes) × Bool :=
  (replies.foldl (fun hashes reply =>
    reply.2.foldl (fun hashes e => setKey hashes e.1 e.2) hashes) [], replies.length == size)

/-- The loop of `stopReplicas` from `cmp` on: `cmp` stays `nil` until a hash that is not, and
`bytes.Equal` compares contents, `nil` being empty; `false` is its early return. -/
def hashesAgree : Option Bytes → List (Option Bytes) → Bool
  | _, [] => true
  | cmp, hash :: rest =>
    let cmp := if cmp.isNone then hash else cmp
    if cmp.getD [] = hash.getD [] then hashesAgree cmp rest else false

/-- `stopReplicas`, once `StopReplica` returned the merged `hashes`, which `range` visits in
order, and the error `err`. -/
def stopReplicas (hashes : List (UInt32 × Option Bytes)) (err : Option String) : Option String :=
  if hashesAgree none (hashes.map Prod.snd) then err else some "hash mismatch"

/-- The entries the replicas of a reply make in the configuration, at `host`. -/
def entries (host : Bytes) (infos : List (ReplicaInfo α)) : List (UInt32 × ReplicaInfo α) :=
  infos.map fun r => (r.id, { r with address := host })

/-! ## Merging replies with distinct IDs -/

/-- Writing entries with fresh keys into a Go map appends them. -/
theorem foldl_setKey {β : Type} :
    ∀ (l acc : List (UInt32 × β)), (acc.map Prod.fst ++ l.map Prod.fst).Nodup →
      l.foldl (fun m e => setKey m e.1 e.2) acc = acc ++ l
  | [], acc, _ => by simp
  | e :: l, acc, h => by
    have hfresh : e.1 ∉ acc.map Prod.fst := fun he =>
      List.disjoint_of_nodup_append h he (List.mem_cons_self _ _)
    rw [List.foldl_cons, setKey_of_not_mem _ hfresh, foldl_setKey l _ (by simpa using h),
      List.append_assoc, List.singleton_append]

theorem stopReplicaQF_fst (size : Nat) {replies : List (UInt32 × List (UInt32 × Option Bytes))}
    (hnd : ((replies.flatMap Prod.snd).map Prod.fst).Nodup) :
    (stopReplicaQF size replies).1 = replies.flatMap Prod.snd := by
  suffices h : ∀ (replies : List (UInt32 × List (UInt32 × Option Bytes))) acc,
      (acc.map Prod.fst ++ (replies.flatMap Prod.snd).map Prod.fst).Nodup →
      replies.foldl (fun hashes reply =>
        reply.2.foldl (fun hashes e => setKey hashes e.1 e.2) hashes) acc =
        acc ++ replies.flatMap Prod.snd from h replies [] hnd
  intro replies
  induction replies with
  | nil => simp
  | cons reply replies ih =>
    intro acc h
    rw [List.flatMap_cons, List.map_append, ← List.append_assoc] at h
    rw [List.foldl_cons, foldl_setKey _ _ (List.nodup_append.1 h).1, ih _ (by simpa using h),
      List.flatMap_cons, List.append_assoc]

/-- The replicas of a reply from a node whose address has a host enter the configuration at
that host, when their IDs are fresh. -/
theorem foldlM_setReplica {splitHost : Bytes → Option Bytes} {addr host : Bytes}
    (hsplit : splitHost addr = some host) :
    ∀ (infos : List (ReplicaInfo α)) (cfg : List (UInt32 × ReplicaInfo α)),
      (cfg.map Prod.fst ++ infos.map ReplicaInfo.id).Nodup →
      infos.foldlM (setReplica splitHost addr) cfg = some (cfg ++ entries host infos)
  | [], cfg, _ => by simp [entries]
  | r :: infos, cfg, h => by
    have hfresh : r.id ∉ cfg.map Prod.fst := fun he =>
      List.disjoint_of_nodup_append h he (List.mem_cons_self _ _)
    have hstep : setReplica splitHost addr cfg r = some (cfg ++ [(r.id, { r with address := host })]) := by
      simp [setReplica, hsplit, setKey_of_not_mem _ hfresh]
    rw [List.foldlM_cons, hstep]
    exact (foldlM_setReplica hsplit infos _ (by simpa [entries] using h)).trans (by simp [entries])

/-- When every node that replied has an address with a host and the replicas' IDs are distinct,
`CreateReplicaQF` gives the entries of all replies, in the order it visits them. -/
theorem createReplicaQF_eq {address : UInt32 → Option Bytes} {splitHost : Bytes → Option Bytes}
    {host : UInt32 → Bytes} {replies : List (UInt32 × List (ReplicaInfo α))}
    (hhost : ∀ r ∈ replies, ∃ a, address r.1 = some a ∧ splitHost a = some (host r.1))
    (hnd : (replies.flatMap fun r => r.2.map ReplicaInfo.id).Nodup) :
    createReplicaQF replies.length address splitHost replies =
      some (some (replies.flatMap fun r => entries (host r.1) r.2)) := by
  suffices h : ∀ (replies : List (UInt32 × List (ReplicaInfo α))) cfg,
      (∀ r ∈ replies, ∃ a, address r.1 = some a ∧ splitHost a = some (host r.1)) →
      (cfg.map Prod.fst ++ replies.flatMap fun r => r.2.map ReplicaInfo.id).Nodup →
      replies.foldlM (addReply address splitHost) cfg =
        some (cfg ++ replies.flatMap fun r => entries (host r.1) r.2) by
    rw [createReplicaQF, if_neg (not_not.2 rfl), h replies [] hhost hnd]
    rfl
  intro replies
  induction replies with
  | nil => simp
  | cons reply replies ih =>
    intro cfg hh h
    obtain ⟨a, ha, hs⟩ := hh reply (List.mem_cons_self _ _)
    rw [List.flatMap_cons, ← List.append_assoc] at h
    have hstep : addReply address splitHost cfg reply = some (cfg ++ entries (host reply.1) reply.2) := by
      rw [addReply, ha]
      exact foldlM_setReplica hs _ _ (List.nodup_append.1 h).1
    rw [List.foldlM_cons, hstep]
    exact (ih _ (fun r hr => hh r (List.mem_cons_of_mem _ hr))
      (by simpa [entries, Function.comp_def] using h)).trans (by simp)

/-! ## The hash comparison -/

theorem hashesAgree_some_iff (c : Bytes) :
    ∀ {l : List (Option Bytes)}, (∀ x ∈ l, x.isSome) →
      (hashesAgree (some c) l = true ↔ ∀ x ∈ l, x = some c)
  | [], _ => by simp [hashesAgree]
  | x :: l, h => by
    obtain ⟨d, rfl⟩ := Option.isSome_iff_exists.1 (h x (List.mem_cons_self _ _))
    rw [hashesAgree, List.forall_mem_cons,
      ← hashesAgree_some_iff c fun y hy => h y (List.mem_cons_of_mem _ hy)]
    by_cases hcd : c = d
    · simp [hcd]
    · simp [hcd, Ne.symm hcd]

/-- With no `nil` hash, the loop of `stopReplicas` runs through exactly when all hashes are
equal. -/
theorem hashesAgree_none_iff {l : List (Option Bytes)} (h : ∀ x ∈ l, x.isSome) :
    hashesAgree none l = true ↔ ∀ a ∈ l, ∀ b ∈ l, a = b := by
  cases l with
  | nil => simp [hashesAgree]
  | cons x l =>
    obtain ⟨c, rfl⟩ := Option.isSome_iff_exists.1 (h x (List.mem_cons_self _ _))
    simp only [hashesAgree, Option.isNone_none, if_true, Option.getD_some,
      hashesAgree_some_iff c fun y hy => h y (List.mem_cons_of_mem _ hy)]
    constructor
    · intro hall a ha b hb
      have hx : ∀ y ∈ some c :: l, y = some c := List.forall_mem_cons.2 ⟨rfl, hall⟩
      rw [hx a ha, hx b hb]
    · exact fun hall y hy => hall y (List.mem_cons_of_mem _ hy) _ (List.mem_cons_self _ _)

/-! ## The experiment -/

section Created

variable {numReplicas : Nat} (hr : numReplicas < 2 ^ 32) (hosts : List UInt32)
include hr

/-- The requests of `createReplicas`: one for each host, in order, together with the IDs
`1, ..., h * (n / h)`. -/
theorem createReplicas_requests :
    (createReplicas numReplicas hosts).1.map Prod.fst = hosts ∧
      assigned (createReplicas numReplicas hosts).1 =
        block 1 (hosts.length * (numReplicas / hosts.length)) := by
  have := Nat.mul_div_le numReplicas hosts.length
  have hcb : ∀ u a m, a + numReplicas / hosts.length ≤ numReplicas + 1 →
      createReplicaRequest numReplicas hosts.length u (UInt32.ofNat a, m) =
        (some (block a (numReplicas / hosts.length)),
          UInt32.ofNat (a + numReplicas / hosts.length),
          (block a (numReplicas / hosts.length)).foldl (fun m id => appendID m u id) m) :=
    fun u a m h => assignLoop_eq hr _ _ a m h
  obtain ⟨h₁, -, h₃, -⟩ := requests_ids hr hcb hosts 1 [] (by omega)
  exact ⟨h₁, h₃⟩

/-- `createReplicas` records under each host the IDs of its request. -/
theorem getIDs_createReplicas {hosts : List UInt32} (hnd : hosts.Nodup)
    {r : UInt32 × Option (List ID)} (hmem : r ∈ (createReplicas numReplicas hosts).1) :
    getIDs r.1 (createReplicas numReplicas hosts).2 = r.2.getD [] := by
  have := Nat.mul_div_le numReplicas hosts.length
  have hmem' : r ∈ (requests (createReplicaRequest numReplicas hosts.length) hosts
      (UInt32.ofNat 1, [])).1 := hmem
  have hrec := getIDs_requests hosts.length hr r.1 hosts 1 [] (by omega)
  have hnd' : ((requests (createReplicaRequest numReplicas hosts.length) hosts
      (UInt32.ofNat 1, [])).1.map Prod.fst).Nodup :=
    (congrArg List.Nodup (createReplicas_requests hr hosts).1).mpr hnd
  rw [filter_fst_eq_singleton hnd' hmem'] at hrec
  exact hrec.trans (by simp [getIDs])

/-- `createReplicas` records under the hosts, taken in order, the IDs `1, ..., h * (n / h)`. -/
theorem flatMap_getIDs_createReplicas {hosts : List UInt32} (hnd : hosts.Nodup) :
    hosts.flatMap (fun u => getIDs u (createReplicas numReplicas hosts).2) =
      block 1 (hosts.length * (numReplicas / hosts.length)) := by
  obtain ⟨h₁, h₂⟩ := createReplicas_requests hr hosts
  calc hosts.flatMap (fun u => getIDs u (createReplicas numReplicas hosts).2)
      = ((createReplicas numReplicas hosts).1.map Prod.fst).flatMap
          (fun u => getIDs u (createReplicas numReplicas hosts).2) := by rw [h₁]
    _ = assigned (createReplicas numReplicas hosts).1 := by
      rw [List.flatMap_map, assigned]
      exact List.flatMap_congr fun r hmem => getIDs_createReplicas hr hnd hmem
    _ = block 1 (hosts.length * (numReplicas / hosts.length)) := h₂

end Created

/-- For fewer than `2^32` replicas, hosts with addresses that have a host part, and workers that
answer `CreateReplica` with one `ReplicaInfo` for each ID of their request: in whatever order
gorums collects the replies, `CreateReplicaQF` returns a configuration whose IDs are
`1, ..., h * (n / h)`, once each, holding for each host the replicas it created under the IDs
`nodesToReplicas` records for it, at its host. -/
theorem createReplicaQF_createReplicas {numReplicas : Nat} (hr : numReplicas < 2 ^ 32)
    {hosts : List UInt32} (hnd : hosts.Nodup)
    {create : UInt32 → List ID → List (ReplicaInfo α)}
    (hcreate : ∀ u ids, (create u ids).map ReplicaInfo.id = ids)
    {address : UInt32 → Option Bytes} {splitHost : Bytes → Option Bytes} {host : UInt32 → Bytes}
    (hhost : ∀ u ∈ hosts, ∃ a, address u = some a ∧ splitHost a = some (host u))
    {replies : List (UInt32 × List (ReplicaInfo α))}
    (hreplies : replies.Perm ((createReplicas numReplicas hosts).1.map fun r =>
      (r.1, create r.1 (r.2.getD [])))) :
    ∃ cfg, createReplicaQF hosts.length address splitHost replies = some (some cfg) ∧
      cfg.Perm (hosts.flatMap fun u =>
        entries (host u) (create u (getIDs u (createReplicas numReplicas hosts).2))) ∧
      (cfg.map Prod.fst).Perm (block 1 (hosts.length * (numReplicas / hosts.length))) := by
  obtain ⟨h₁, -⟩ := createReplicas_requests hr hosts
  have := Nat.mul_div_le numReplicas hosts.length
  -- the replies, in the order of the hosts
  have hsorted : ((createReplicas numReplicas hosts).1.map fun r =>
      (r.1, create r.1 (r.2.getD []))) =
      hosts.map fun u => (u, create u (getIDs u (createReplicas numReplicas hosts).2)) := by
    calc _ = ((createReplicas numReplicas hosts).1.map Prod.fst).map fun u =>
          (u, create u (getIDs u (createReplicas numReplicas hosts).2)) := by
          rw [List.map_map]
          exact List.map_congr_left fun r hmem => by
            simp [getIDs_createReplicas hr hnd hmem]
      _ = _ := by rw [h₁]
  rw [hsorted] at hreplies
  have hids : (replies.flatMap fun r => r.2.map ReplicaInfo.id).Perm
      (block 1 (hosts.length * (numReplicas / hosts.length))) := by
    refine (hreplies.flatMap_right _).trans (List.Perm.of_eq ?_)
    rw [List.flatMap_map, ← flatMap_getIDs_createReplicas hr hnd]
    simp only [hcreate]
  have hhost' : ∀ r ∈ replies, ∃ a, address r.1 = some a ∧ splitHost a = some (host r.1) :=
    fun r hmem => by
      obtain ⟨u, hu, rfl⟩ := List.mem_map.1 (hreplies.mem_iff.1 hmem)
      exact hhost u hu
  have hlen : replies.length = hosts.length := by rw [hreplies.length_eq, List.length_map]
  refine ⟨replies.flatMap fun r => entries (host r.1) r.2, by
      rw [← hlen]; exact createReplicaQF_eq hhost' (hids.nodup_iff.2 (nodup_block (by omega))),
    (hreplies.flatMap_right _).trans (List.Perm.of_eq (List.flatMap_map _ _ _)), ?_⟩
  simpa [List.map_flatMap, entries, Function.comp_def] using hids

/-- Workers that name each replica they create after their host. -/
def createNamed (u : UInt32) (ids : List ID) : List (ReplicaInfo UInt32) :=
  ids.map fun id => ⟨id, [], u⟩

/-- Hosts whose address is their number and a colon, cut at its first byte. -/
def hostAddress (u : UInt32) : Option Bytes := some [u.toUInt8, 58]

/-- The first byte of an address. -/
def firstByte (a : Bytes) : Option Bytes := a.head?.map ([·])

theorem map_id_createNamed (u : UInt32) (ids : List ID) :
    (createNamed u ids).map ReplicaInfo.id = ids := by
  simp [createNamed, Function.comp_def]

theorem firstByte_hostAddress (u : UInt32) :
    ∃ a, hostAddress u = some a ∧ firstByte a = some [u.toUInt8] :=
  ⟨_, rfl, rfl⟩

/-- Four replicas on two hosts, the second host answering first. -/
theorem createReplicaQF_createReplicas_two_hosts :
    ((4 : Nat) < 2 ^ 32 ∧ [(1 : UInt32), 2].Nodup ∧
      (∀ u ids, (createNamed u ids).map ReplicaInfo.id = ids) ∧
      (∀ u ∈ [(1 : UInt32), 2], ∃ a, hostAddress u = some a ∧ firstByte a = some [u.toUInt8]) ∧
      [(2, createNamed 2 [3, 4]), (1, createNamed 1 [1, 2])].Perm
        ((createReplicas 4 [1, 2]).1.map fun r => (r.1, createNamed r.1 (r.2.getD [])))) ∧
    ∃ cfg, createReplicaQF [(1 : UInt32), 2].length hostAddress firstByte
        [(2, createNamed 2 [3, 4]), (1, createNamed 1 [1, 2])] = some (some cfg) ∧
      cfg.Perm ([(1 : UInt32), 2].flatMap fun u =>
        entries [u.toUInt8] (createNamed u (getIDs u (createReplicas 4 [1, 2]).2))) ∧
      (cfg.map Prod.fst).Perm (block 1 ([(1 : UInt32), 2].length * (4 / [(1 : UInt32), 2].length))) :=
  ⟨⟨by decide, by decide, map_id_createNamed, fun u _ => firstByte_hostAddress u, by decide⟩,
    createReplicaQF_createReplicas (by decide) (by decide) map_id_createNamed
      (fun u _ => firstByte_hostAddress u) (by decide)⟩

/-- For fewer than `2^32` replicas and workers that answer `StopReplica` with one hash, not `nil`,
for each ID of their request: in whatever order gorums collects the replies and `range` visits
the merged hashes, `StopReplicaQF` sees every host reply and keeps the hash of every replica
`createReplicas` made, and `stopReplicas` reports "hash mismatch" exactly when two replicas'
hashes differ, and the call's error otherwise. -/
theorem stopReplicas_mismatch_iff {numReplicas : Nat} (hr : numReplicas < 2 ^ 32)
    {hosts : List UInt32} (hnd : hosts.Nodup)
    {report : UInt32 → List UInt32 → List (UInt32 × Option Bytes)}
    (hreport : ∀ u ids, (report u ids).map Prod.fst = ids)
    (hnil : ∀ u ids, ∀ e ∈ report u ids, e.2.isSome)
    {replies : List (UInt32 × List (UInt32 × Option Bytes))}
    (hreplies : replies.Perm (hosts.map fun u =>
      (u, report u (getIDs u (createReplicas numReplicas hosts).2))))
    {hashes : List (UInt32 × Option Bytes)}
    (hhashes : hashes.Perm (stopReplicaQF hosts.length replies).1) (err : Option String) :
    (stopReplicaQF hosts.length replies).2 = true ∧
      (hashes.map Prod.fst).Perm (block 1 (hosts.length * (numReplicas / hosts.length))) ∧
      stopReplicas hashes err =
        if ∀ u₁ ∈ hosts, ∀ u₂ ∈ hosts,
            ∀ e₁ ∈ report u₁ (getIDs u₁ (createReplicas numReplicas hosts).2),
            ∀ e₂ ∈ report u₂ (getIDs u₂ (createReplicas numReplicas hosts).2), e₁.2 = e₂.2
        then err else some "hash mismatch" := by
  have := Nat.mul_div_le numReplicas hosts.length
  -- the hashes of all replicas, host after host
  have hL : (replies.flatMap Prod.snd).Perm (hosts.flatMap fun u =>
      report u (getIDs u (createReplicas numReplicas hosts).2)) :=
    (hreplies.flatMap_right _).trans (List.Perm.of_eq (List.flatMap_map _ _ _))
  have hkeys : (hosts.flatMap fun u => report u (getIDs u (createReplicas numReplicas hosts).2)).map
      Prod.fst = block 1 (hosts.length * (numReplicas / hosts.length)) := by
    rw [List.map_flatMap]
    simp only [hreport]
    exact flatMap_getIDs_createReplicas hr hnd
  rw [stopReplicaQF_fst _ ((hL.map _).nodup_iff.2 (hkeys ▸ nodup_block (by omega)))] at hhashes
  have hall := hhashes.trans hL
  have hmem : ∀ a, a ∈ hashes.map Prod.snd ↔
      ∃ u ∈ hosts, ∃ e ∈ report u (getIDs u (createReplicas numReplicas hosts).2), e.2 = a :=
    fun a => by
      rw [(hall.map Prod.snd).mem_iff]
      simp only [List.mem_map, List.mem_flatMap]
      exact ⟨fun ⟨e, ⟨u, hu, he⟩, hea⟩ => ⟨u, hu, e, he, hea⟩,
        fun ⟨u, hu, e, he, hea⟩ => ⟨e, ⟨u, hu, he⟩, hea⟩⟩
  have hsome : ∀ x ∈ hashes.map Prod.snd, x.isSome := fun x hx => by
    obtain ⟨u, -, e, he, rfl⟩ := (hmem x).1 hx
    exact hnil _ _ e he
  refine ⟨by simp [stopReplicaQF, hreplies.length_eq], hkeys ▸ hall.map Prod.fst, ?_⟩
  rw [stopReplicas]
  by_cases hC : ∀ u₁ ∈ hosts, ∀ u₂ ∈ hosts,
      ∀ e₁ ∈ report u₁ (getIDs u₁ (createReplicas numReplicas hosts).2),
      ∀ e₂ ∈ report u₂ (getIDs u₂ (createReplicas numReplicas hosts).2), e₁.2 = e₂.2
  · rw [if_pos hC, if_pos ((hashesAgree_none_iff hsome).2 fun a ha b hb => by
      obtain ⟨u₁, hu₁, e₁, he₁, rfl⟩ := (hmem a).1 ha
      obtain ⟨u₂, hu₂, e₂, he₂, rfl⟩ := (hmem b).1 hb
      exact hC u₁ hu₁ u₂ hu₂ e₁ he₁ e₂ he₂)]
  · rw [if_neg hC, if_neg fun h => hC fun u₁ hu₁ u₂ hu₂ e₁ he₁ e₂ he₂ =>
      (hashesAgree_none_iff hsome).1 h _ ((hmem _).2 ⟨u₁, hu₁, e₁, he₁, rfl⟩) _
        ((hmem _).2 ⟨u₂, hu₂, e₂, he₂, rfl⟩)]

/-- Workers whose replicas all executed the same commands. -/
def reportSame (_ : UInt32) (ids : List UInt32) : List (UInt32 × Option Bytes) :=
  ids.map fun id => (id, some [7])

/-- Four replicas on two hosts that agree, the merged hashes visited backwards. -/
theorem stopReplicas_mismatch_iff_two_hosts :
    ((4 : Nat) < 2 ^ 32 ∧ [(1 : UInt32), 2].Nodup ∧
      (∀ u ids, (reportSame u ids).map Prod.fst = ids) ∧
      (∀ u ids, ∀ e ∈ reportSame u ids, e.2.isSome) ∧
      [(2, reportSame 2 [3, 4]), (1, reportSame 1 [1, 2])].Perm
        ([(1 : UInt32), 2].map fun u => (u, reportSame u (getIDs u (createReplicas 4 [1, 2]).2))) ∧
      [(2, some [7]), (1, some [7]), (4, some [7]), (3, some [7])].Perm
        (stopReplicaQF [(1 : UInt32), 2].length
          [(2, reportSame 2 [3, 4]), (1, reportSame 1 [1, 2])]).1) ∧
    (stopReplicaQF [(1 : UInt32), 2].length
        [(2, reportSame 2 [3, 4]), (1, reportSame 1 [1, 2])]).2 = true ∧
      (([(2, some [7]), (1, some [7]), (4, some [7]), (3, some [7])] :
          List (UInt32 × Option Bytes)).map Prod.fst).Perm
        (block 1 ([(1 : UInt32), 2].length * (4 / [(1 : UInt32), 2].length))) ∧
      stopReplicas [(2, some [7]), (1, some [7]), (4, some [7]), (3, some [7])] none =
        if ∀ u₁ ∈ [(1 : UInt32), 2], ∀ u₂ ∈ [(1 : UInt32), 2],
            ∀ e₁ ∈ reportSame u₁ (getIDs u₁ (createReplicas 4 [1, 2]).2),
            ∀ e₂ ∈ reportSame u₂ (getIDs u₂ (createReplicas 4 [1, 2]).2), e₁.2 = e₂.2
        then none else some "hash mismatch" :=
  ⟨⟨by decide, by decide, fun _ _ => by simp [reportSame, Function.comp_def], fun _ _ e he => by
      obtain ⟨_, -, rfl⟩ := List.mem_map.1 he
      rfl, by decide, by decide⟩,
    stopReplicas_mismatch_iff (by decide) (by decide) (fun _ _ => by simp [reportSame, Function.comp_def])
      (fun _ _ e he => by
        obtain ⟨_, -, rfl⟩ := List.mem_map.1 he
        rfl) (by decide) (by decide) none⟩

end HotStuff.Orchestration
