import HotStuff.Basic
import Mathlib.Data.List.Range

/-!
# Handing out replica and client IDs to the hosts of an experiment

`createReplicas` and `startClients` run a callback once for each host of the configuration;
each callback takes the next `count / h` IDs of a counter the callbacks share, and
`createReplicas` records them under the host in `nodesToReplicas`. While the counts fit a
`consensus.ID`, the callbacks hand out consecutive blocks of IDs in the order they run
(`requests_ids`), so together the requests hold `1, 2, ..., h * (count / h)` once each
(`createReplicas_startClients_ids`), host `i`'s request the `count / h` IDs from
`1 + i * (count / h)` on: the last `count % h` IDs go to no host. From `2^32` on,
`consensus.ID(e.NumReplicas)` wraps and the first callback already returns `nil`. The callback of
`startClients` records no client under any host, though `stopClients` reads `nodesToClients` to
find the clients to stop.
-/

namespace HotStuff.Orchestration

/-- A `map[uint32][]consensus.ID` from hosts to the IDs they run. -/
abbrev NodesToIDs := List (UInt32 × List ID)

/-- `m[u] = append(m[u], id)`. -/
def appendID : NodesToIDs → UInt32 → ID → NodesToIDs
  | [], u, id => [(u, [id])]
  | (v, ids) :: rest, u, id =>
    if v = u then (v, ids ++ [id]) :: rest else (v, ids) :: appendID rest u id

/-- `getIDs`. -/
def getIDs (nodeID : UInt32) (m : NodesToIDs) : List UInt32 := (m.lookup nodeID).getD []

/-- The loop of a per-host callback, with `k` iterations left: `count` is `NumReplicas` or
`NumClients`, and `record` notes an ID given to the host. The IDs put into the request (`none`
when the callback returns `nil`), then the counter and the record. -/
def assignLoop (count : Nat) (record : NodesToIDs → ID → NodesToIDs) :
    Nat → ID × NodesToIDs → Option (List ID) × ID × NodesToIDs
  | 0, st => (some [], st)
  | k + 1, (nextID, m) =>
    if nextID > UInt32.ofNat count then (none, nextID, m)
    else
      let r := assignLoop count record k (nextID + 1, record m nextID)
      (r.1.map (nextID :: ·), r.2)

/-- The callback of `createReplicas` for host `u`, of `size` hosts. -/
def createReplicaRequest (numReplicas size : Nat) (u : UInt32) :
    ID × NodesToIDs → Option (List ID) × ID × NodesToIDs :=
  assignLoop numReplicas (fun m id => appendID m u id) (numReplicas / size)

/-- The callback of `startClients`, of `size` hosts: it records nothing in `nodesToClients`. -/
def startClientRequest (numClients size : Nat) :
    ID × NodesToIDs → Option (List ID) × ID × NodesToIDs :=
  assignLoop numClients (fun m _ => m) (numClients / size)

/-- A call whose callback runs for the hosts in the order `hosts`: each host with its request,
then the counter and the record. -/
def requests (callback : UInt32 → ID × NodesToIDs → Option (List ID) × ID × NodesToIDs) :
    List UInt32 → ID × NodesToIDs → List (UInt32 × Option (List ID)) × ID × NodesToIDs
  | [], st => ([], st)
  | u :: hosts, st =>
    let r := callback u st
    let rest := requests callback hosts r.2
    ((u, r.1) :: rest.1, rest.2)

/-- `createReplicas`, its callback run for the hosts in the order `hosts`: the requests and
`nodesToReplicas`. -/
def createReplicas (numReplicas : Nat) (hosts : List UInt32) :
    List (UInt32 × Option (List ID)) × NodesToIDs :=
  let r := requests (createReplicaRequest numReplicas hosts.length) hosts (1, [])
  (r.1, r.2.2)

/-- `startClients`, its callback run for the hosts in the order `hosts`: the requests and
`nodesToClients`. -/
def startClients (numClients : Nat) (hosts : List UInt32) :
    List (UInt32 × Option (List ID)) × NodesToIDs :=
  let r := requests (fun _ => startClientRequest numClients hosts.length) hosts (1, [])
  (r.1, r.2.2)

/-- The IDs put into the requests, in the order the callbacks ran. -/
def assigned (reqs : List (UInt32 × Option (List ID))) : List ID := reqs.flatMap fun r => r.2.getD []

/-! ## IDs below `2^32` -/

theorem ofNat_add_one (a : Nat) : UInt32.ofNat a + 1 = UInt32.ofNat (a + 1) := by
  apply UInt32.toNat.inj
  simp only [UInt32.toNat, UInt32.add_def, UInt32.ofNat, UInt32.one_def, BitVec.toNat_add,
    BitVec.toNat_ofNat]
  bv_omega

theorem ofNat_lt_ofNat {a b : Nat} (ha : a < 2 ^ 32) (hb : b < 2 ^ 32) :
    UInt32.ofNat a < UInt32.ofNat b ↔ a < b := by
  simp only [UInt32.lt_def, UInt32.ofNat, BitVec.lt_def, BitVec.toNat_ofNat]
  omega

theorem toNat_ofNat_of_lt {a : Nat} (ha : a < 2 ^ 32) : (UInt32.ofNat a).toNat = a := by
  simp only [UInt32.toNat, UInt32.ofNat, BitVec.toNat_ofNat]
  omega

/-- The IDs `a, a + 1, ..., a + k - 1`. -/
def block (a k : Nat) : List ID := (List.range' a k).map UInt32.ofNat

theorem block_add (a k l : Nat) : block a (k + l) = block a k ++ block (a + k) l := by
  rw [block, block, block, ← List.map_append, List.range'_append_1, Nat.add_comm]

/-- A callback with room for its `k` IDs puts the next `k` into its request and records them
one by one. -/
theorem assignLoop_eq {count : Nat} (hcount : count < 2 ^ 32) (record : NodesToIDs → ID → NodesToIDs) :
    ∀ (k a : Nat) (m : NodesToIDs), a + k ≤ count + 1 →
      assignLoop count record k (UInt32.ofNat a, m) =
        (some (block a k), UInt32.ofNat (a + k), (block a k).foldl record m)
  | 0, a, m, _ => rfl
  | k + 1, a, m, h => by
    rw [assignLoop, if_neg (by rw [gt_iff_lt, ofNat_lt_ofNat (by omega) (by omega)]; omega),
      ofNat_add_one, assignLoop_eq hcount record k (a + 1) _ (by omega)]
    simp [block, List.range'_succ, Nat.add_assoc, Nat.add_comm 1 k]

/-- Callbacks that each take the next `q` IDs hand out consecutive blocks in the order they run. -/
theorem requests_ids {count q : Nat} (hcount : count < 2 ^ 32)
    {callback : UInt32 → ID × NodesToIDs → Option (List ID) × ID × NodesToIDs}
    {rec : UInt32 → Nat → NodesToIDs → NodesToIDs}
    (hcb : ∀ u a m, a + q ≤ count + 1 →
      callback u (UInt32.ofNat a, m) = (some (block a q), UInt32.ofNat (a + q), rec u a m)) :
    ∀ (hosts : List UInt32) (a : Nat) (m : NodesToIDs), a + hosts.length * q ≤ count + 1 →
      (requests callback hosts (UInt32.ofNat a, m)).1.map Prod.fst = hosts ∧
      (∀ r ∈ (requests callback hosts (UInt32.ofNat a, m)).1, r.2.isSome) ∧
      assigned (requests callback hosts (UInt32.ofNat a, m)).1 = block a (hosts.length * q) ∧
      ∀ i, (requests callback hosts (UInt32.ofNat a, m)).1[i]? =
        hosts[i]?.map fun u => (u, some (block (a + i * q) q))
  | [], a, m, _ => by simp [requests, block, assigned]
  | u :: hosts, a, m, h => by
    have h' : a + q + hosts.length * q ≤ count + 1 := by
      simp only [List.length_cons, Nat.succ_mul] at h
      omega
    obtain ⟨ih₁, ih₂, ih₃, ih₄⟩ := requests_ids hcount hcb hosts (a + q) (rec u a m) h'
    rw [requests, hcb u a m (by omega)]
    refine ⟨by simpa using ih₁, by simpa using ih₂, ?_, ?_⟩
    · simp only [assigned, List.flatMap_cons, Option.getD_some] at ih₃ ⊢
      simp only [ih₃, List.length_cons, Nat.succ_mul, Nat.add_comm (hosts.length * q) q, block_add]
    · -- host `i + 1` of the list is host `i` of the rest, whose IDs start `q` further on
      rintro (_ | i)
      · simp
      · have hi : a + q + i * q = a + (i + 1) * q := by rw [Nat.succ_mul]; omega
        simpa [hi] using ih₄ i

theorem mem_block {a k : Nat} (hak : a + k ≤ 2 ^ 32) {id : ID} :
    id ∈ block a k ↔ a ≤ id.toNat ∧ id.toNat < a + k := by
  simp only [block, List.mem_map, List.mem_range'_1]
  constructor
  · rintro ⟨i, hi, rfl⟩
    rw [toNat_ofNat_of_lt (by omega)]
    exact hi
  · intro h
    refine ⟨id.toNat, h, UInt32.toNat.inj ?_⟩
    rw [toNat_ofNat_of_lt (by omega)]

theorem nodup_block {a k : Nat} (hak : a + k ≤ 2 ^ 32) : (block a k).Nodup := by
  refine (List.nodup_range' a k).map_on fun i hi j hj hij => ?_
  rw [List.mem_range'_1] at hi hj
  have := congrArg UInt32.toNat hij
  rwa [toNat_ofNat_of_lt (by omega), toNat_ofNat_of_lt (by omega)] at this

/-! ## What the callbacks record -/

theorem getIDs_appendID (v u : UInt32) (id : ID) (m : NodesToIDs) :
    getIDs v (appendID m u id) = if v = u then getIDs v m ++ [id] else getIDs v m := by
  induction m with
  | nil => by_cases h : v = u <;> simp [appendID, getIDs, List.lookup_cons, h, beq_false_of_ne]
  | cons p m ih =>
    obtain ⟨w, ids⟩ := p
    by_cases hw : w = u
    · subst hw
      by_cases h : v = w <;> simp [appendID, getIDs, List.lookup_cons, h, beq_false_of_ne]
    · by_cases h : v = w
      · subst h
        simp [appendID, getIDs, List.lookup_cons, hw]
      · simpa [appendID, getIDs, List.lookup_cons, hw, h, beq_false_of_ne] using ih

theorem getIDs_foldl_appendID (v u : UInt32) :
    ∀ (ids : List ID) (m : NodesToIDs),
      getIDs v (ids.foldl (fun m id => appendID m u id) m) =
        if v = u then getIDs v m ++ ids else getIDs v m
  | [], m => by simp
  | id :: ids, m => by
    rw [List.foldl_cons, getIDs_foldl_appendID v u ids, getIDs_appendID]
    split <;> simp

/-- `createReplicas` records under each host the IDs of its requests, in order. -/
theorem getIDs_requests {numReplicas : Nat} (size : Nat) (hcount : numReplicas < 2 ^ 32) (v : UInt32) :
    ∀ (hosts : List UInt32) (a : Nat) (m : NodesToIDs),
      a + hosts.length * (numReplicas / size) ≤ numReplicas + 1 →
      getIDs v (requests (createReplicaRequest numReplicas size) hosts (UInt32.ofNat a, m)).2.2 =
        getIDs v m ++ (((requests (createReplicaRequest numReplicas size) hosts
          (UInt32.ofNat a, m)).1.filter (·.1 = v)).flatMap fun r => r.2.getD [])
  | [], a, m, _ => by simp [requests]
  | u :: hosts, a, m, h => by
    have h' : a + numReplicas / size + hosts.length * (numReplicas / size) ≤ numReplicas + 1 := by
      simp only [List.length_cons, Nat.succ_mul] at h
      omega
    rw [requests, createReplicaRequest, assignLoop_eq hcount _ _ a m (by
      simp only [List.length_cons, Nat.succ_mul] at h
      omega)]
    simp only
    rw [getIDs_requests size hcount v hosts _ _ h', getIDs_foldl_appendID]
    by_cases hv : u = v
    · subst hv
      simp
    · simp [hv, Ne.symm hv]

theorem filter_fst_eq_singleton {β : Type} {l : List (UInt32 × β)} (hl : (l.map Prod.fst).Nodup)
    {r : UInt32 × β} (hr : r ∈ l) : l.filter (·.1 = r.1) = [r] := by
  induction l with
  | nil => simp at hr
  | cons p l ih =>
    rw [List.map_cons, List.nodup_cons] at hl
    have hnot : ∀ x ∈ l, ¬ x.1 = p.1 := fun x hx h =>
      hl.1 (h ▸ List.mem_map_of_mem Prod.fst hx)
    rcases List.mem_cons.1 hr with rfl | hr
    · rw [List.filter_cons_of_pos (by simp),
        List.filter_eq_nil_iff.2 fun x hx => by simpa using hnot x hx]
    · rw [List.filter_cons_of_neg (by simpa using fun h => hnot r hr h.symm), ih hl.2 hr]

theorem block_facts {count h : Nat} (hcount : count < 2 ^ 32) :
    (block 1 (h * (count / h))).Nodup ∧
      ∀ id ∈ block 1 (h * (count / h)), 1 ≤ id.toNat ∧ id.toNat ≤ count := by
  have := Nat.mul_div_le count h
  refine ⟨nodup_block (by omega), fun id hid => ?_⟩
  have := (mem_block (by omega)).1 hid
  omega

/-- For counts below `2^32` (a `consensus.ID` has 32 bits) and the callbacks run once for each
host, in any order: every callback returns a request; together the requests hold the IDs
`1, ..., h * (count / h)` in the order the callbacks ran, so no ID twice and none outside
`1..count`, the `i`-th host's request the `count / h` IDs from `1 + i * (count / h)` on; and
`nodesToReplicas` records under each host exactly the IDs of its request. -/
theorem createReplicas_startClients_ids {numReplicas numClients : Nat}
    (hr : numReplicas < 2 ^ 32) (hc : numClients < 2 ^ 32) {hosts : List UInt32}
    (hnd : hosts.Nodup) :
    ((createReplicas numReplicas hosts).1.map Prod.fst = hosts ∧
      ∀ r ∈ (createReplicas numReplicas hosts).1,
        r.2.isSome ∧ getIDs r.1 (createReplicas numReplicas hosts).2 = r.2.getD []) ∧
    assigned (createReplicas numReplicas hosts).1 =
      block 1 (hosts.length * (numReplicas / hosts.length)) ∧
    (∀ i, (createReplicas numReplicas hosts).1[i]? = hosts[i]?.map fun u =>
      (u, some (block (1 + i * (numReplicas / hosts.length)) (numReplicas / hosts.length)))) ∧
    (assigned (createReplicas numReplicas hosts).1).Nodup ∧
    (∀ id ∈ assigned (createReplicas numReplicas hosts).1, 1 ≤ id.toNat ∧ id.toNat ≤ numReplicas) ∧
    ((startClients numClients hosts).1.map Prod.fst = hosts ∧
      ∀ r ∈ (startClients numClients hosts).1, r.2.isSome) ∧
    assigned (startClients numClients hosts).1 =
      block 1 (hosts.length * (numClients / hosts.length)) ∧
    (∀ i, (startClients numClients hosts).1[i]? = hosts[i]?.map fun u =>
      (u, some (block (1 + i * (numClients / hosts.length)) (numClients / hosts.length)))) ∧
    (assigned (startClients numClients hosts).1).Nodup ∧
    ∀ id ∈ assigned (startClients numClients hosts).1, 1 ≤ id.toNat ∧ id.toNat ≤ numClients := by
  have hqr := Nat.mul_div_le numReplicas hosts.length
  have hqc := Nat.mul_div_le numClients hosts.length
  have hcbr : ∀ u a m, a + numReplicas / hosts.length ≤ numReplicas + 1 →
      createReplicaRequest numReplicas hosts.length u (UInt32.ofNat a, m) =
        (some (block a (numReplicas / hosts.length)),
          UInt32.ofNat (a + numReplicas / hosts.length),
          (block a (numReplicas / hosts.length)).foldl (fun m id => appendID m u id) m) :=
    fun u a m h => assignLoop_eq hr _ _ a m h
  have hcbc : ∀ (u : UInt32) a m, a + numClients / hosts.length ≤ numClients + 1 →
      (fun _ => startClientRequest numClients hosts.length) u (UInt32.ofNat a, m) =
        (some (block a (numClients / hosts.length)),
          UInt32.ofNat (a + numClients / hosts.length),
          (block a (numClients / hosts.length)).foldl (fun m _ => m) m) :=
    fun _ a m h => assignLoop_eq hc _ _ a m h
  obtain ⟨hr₁, hr₂, hr₃, hr₄⟩ := requests_ids hr hcbr hosts 1 [] (by omega)
  obtain ⟨hc₁, hc₂, hc₃, hc₄⟩ := requests_ids hc hcbc hosts 1 [] (by omega)
  obtain ⟨hrn, hrr⟩ := block_facts (h := hosts.length) hr
  obtain ⟨hcn, hcr⟩ := block_facts (h := hosts.length) hc
  refine ⟨⟨hr₁, fun r hmem => ⟨hr₂ r hmem, ?_⟩⟩, hr₃, hr₄, hr₃ ▸ hrn, hr₃ ▸ hrr, ⟨hc₁, hc₂⟩, hc₃,
    hc₄, hc₃ ▸ hcn, hc₃ ▸ hcr⟩
  have hmem' : r ∈ (requests (createReplicaRequest numReplicas hosts.length) hosts
      (UInt32.ofNat 1, [])).1 := hmem
  have hrec := getIDs_requests hosts.length hr r.1 hosts 1 [] (by omega)
  rw [filter_fst_eq_singleton (by rw [hr₁]; exact hnd) hmem'] at hrec
  exact hrec.trans (by simp [getIDs])

theorem createReplicas_startClients_ids_two_hosts :
    ((5 : Nat) < 2 ^ 32 ∧ (3 : Nat) < 2 ^ 32 ∧ [(1 : UInt32), 2].Nodup) ∧
    ((createReplicas 5 [1, 2]).1.map Prod.fst = [1, 2] ∧
      ∀ r ∈ (createReplicas 5 [1, 2]).1,
        r.2.isSome ∧ getIDs r.1 (createReplicas 5 [1, 2]).2 = r.2.getD []) ∧
    assigned (createReplicas 5 [1, 2]).1 = block 1 (2 * (5 / 2)) ∧
    (∀ i, (createReplicas 5 [1, 2]).1[i]? = ([1, 2] : List UInt32)[i]?.map fun u =>
      (u, some (block (1 + i * (5 / 2)) (5 / 2)))) ∧
    (assigned (createReplicas 5 [1, 2]).1).Nodup ∧
    (∀ id ∈ assigned (createReplicas 5 [1, 2]).1, 1 ≤ id.toNat ∧ id.toNat ≤ 5) ∧
    ((startClients 3 [1, 2]).1.map Prod.fst = [1, 2] ∧ ∀ r ∈ (startClients 3 [1, 2]).1, r.2.isSome) ∧
    assigned (startClients 3 [1, 2]).1 = block 1 (2 * (3 / 2)) ∧
    (∀ i, (startClients 3 [1, 2]).1[i]? = ([1, 2] : List UInt32)[i]?.map fun u =>
      (u, some (block (1 + i * (3 / 2)) (3 / 2)))) ∧
    (assigned (startClients 3 [1, 2]).1).Nodup ∧
    ∀ id ∈ assigned (startClients 3 [1, 2]).1, 1 ≤ id.toNat ∧ id.toNat ≤ 3 :=
  ⟨⟨by decide, by decide, by decide⟩,
    createReplicas_startClients_ids (by decide) (by decide) (by decide)⟩

/-- Each host gets `count / h` IDs, so with three replicas on two hosts replica 3 is in no request;
and with `2^32` replicas on one host `consensus.ID(e.NumReplicas)` is `0`, so the callback returns
`nil` at its first ID and no request holds replica 1. -/
theorem createReplicas_misses_ids :
    (createReplicas 3 [7, 8]).1 = [(7, some [1]), (8, some [2])] ∧
      (createReplicas 4294967296 [7]).1 = [(7, none)] := by
  decide

end HotStuff.Orchestration
