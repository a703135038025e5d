import HotStuff.Basic

/-!
# The twins network

The state of the simulated network of `twins/network.go`: the nodes of each replica (two for a
replica with a twin), the partitions of each view of the scenario, the message types dropped
across partitions, and the messages waiting for the next tick.
-/

namespace HotStuff.Twins

/-- `NodeID`: the replica a node acts as, and the network ID that tells twins apart. -/
structure NodeID where
  replicaID : ID
  networkID : UInt32
deriving DecidableEq

/-- `NodeSet`, a set of network IDs. -/
structure NodeSet where
  ids : List UInt32
  nodup : ids.Nodup
deriving DecidableEq

/-- `NodeSet.Contains`. -/
def NodeSet.contains (s : NodeSet) (v : UInt32) : Bool := decide (v ∈ s.ids)

/-- `View`: the leader and the partitions of one view of a scenario. -/
structure View where
  leader : ID
  partitions : List NodeSet
deriving DecidableEq

/-- The message types `dropTypes` can name, as `reflect.TypeOf` tells them apart. -/
inductive MsgType
  | proposeMsg
  | voteMsg
  | hash
  | newViewMsg
  | timeoutMsg
deriving DecidableEq

/-- `pendingMessage`. -/
structure PendingMessage (M : Type) where
  message : M
  receiver : UInt32
deriving DecidableEq

/-- A `node`: its `executedBlocks`, the `effectiveView` its timeout manager advances, and `mods`,
the state of its consensus modules. -/
structure Node (S : Type) where
  id : NodeID
  executedBlocks : List Block
  effectiveView : HotStuff.View
  mods : S

/-- `Network`: `replicas` maps each replica ID to its nodes; the nodes of all replicas are the
`nodes` map, keyed by network ID. -/
structure Network (S M : Type) where
  replicas : List (ID × List (Node S))
  views : List View
  dropTypes : List MsgType
  pendingMessages : List (PendingMessage M)

variable {S M : Type}

namespace Network

/-! ## Nodes -/

/-- The `nodes` map: every node of every replica, keyed by its network ID. -/
def nodes (n : Network S M) : List (Node S) := n.replicas.flatMap Prod.snd

/-- `n.nodes[nid]`. -/
def node? (n : Network S M) (nid : UInt32) : Option (Node S) :=
  n.nodes.find? (·.id.networkID == nid)

/-- The network once a node's fields were written through its pointer: the node with the network
ID of `node` is now `node`. -/
def setNode (n : Network S M) (node : Node S) : Network S M :=
  { n with replicas := n.replicas.map fun r =>
      (r.1, r.2.map fun x => if x.id.networkID = node.id.networkID then node else x) }

/-- Who is where: the IDs of the nodes of each replica, which no event changes. -/
def layout (n : Network S M) : List (ID × List NodeID) :=
  n.replicas.map fun r => (r.1, r.2.map Node.id)

@[simp] theorem setNode_views (n : Network S M) (node : Node S) :
    (n.setNode node).views = n.views := rfl

@[simp] theorem setNode_dropTypes (n : Network S M) (node : Node S) :
    (n.setNode node).dropTypes = n.dropTypes := rfl

@[simp] theorem setNode_pendingMessages (n : Network S M) (node : Node S) :
    (n.setNode node).pendingMessages = n.pendingMessages := rfl

theorem mem_nodes {n : Network S M} {x : Node S} :
    x ∈ n.nodes ↔ ∃ r ∈ n.replicas, x ∈ r.2 := by
  simp [nodes]

/-- What registering each node once through `GetNodeBuilder`, with distinct network IDs, gives:
the replica IDs are distinct keys, the network IDs are distinct, and each node sits under its
own replica ID. -/
structure WellFormed (n : Network S M) : Prop where
  nodup_keys : (n.layout.map Prod.fst).Nodup
  nodup_networkIDs : ((n.layout.flatMap Prod.snd).map NodeID.networkID).Nodup
  replicaID_eq : ∀ r ∈ n.layout, ∀ id ∈ r.2, id.replicaID = r.1

/-- The nodes after every node `x` became `g x`, as events and writes through pointers do. -/
theorem nodes_of_replicas_eq {n n' : Network S M} {g : Node S → Node S}
    (h : n'.replicas = n.replicas.map fun r => (r.1, r.2.map g)) : n'.nodes = n.nodes.map g := by
  simp only [nodes, h, List.flatMap, List.map_flatten, List.map_map]
  rfl

theorem node?_of_replicas_eq {n n' : Network S M} {g : Node S → Node S}
    (hg : ∀ x, (g x).id.networkID = x.id.networkID)
    (h : n'.replicas = n.replicas.map fun r => (r.1, r.2.map g)) (nid : UInt32) :
    n'.node? nid = (n.node? nid).map g := by
  rw [node?, nodes_of_replicas_eq h, List.find?_map, node?]
  congr 2
  funext y
  simp [hg]

theorem layout_of_replicas_eq {n n' : Network S M} {g : Node S → Node S}
    (hg : ∀ x ∈ n.nodes, (g x).id = x.id)
    (h : n'.replicas = n.replicas.map fun r => (r.1, r.2.map g)) : n'.layout = n.layout := by
  simp only [layout, h, List.map_map]
  refine List.map_congr_left fun r hr => ?_
  simp only [Function.comp_apply, List.map_map, Prod.mk.injEq, true_and]
  exact List.map_congr_left fun x hx => hg x (mem_nodes.2 ⟨r, hr, hx⟩)

/-- Looking a node up after a write finds the written node in place of the one it replaces. -/
theorem node?_setNode (n : Network S M) (x : Node S) (nid : UInt32) :
    (n.setNode x).node? nid =
      (n.node? nid).map fun y => if y.id.networkID = x.id.networkID then x else y :=
  node?_of_replicas_eq (fun y => by split <;> simp_all) rfl nid

/-- Writing back a node under the ID it has keeps the layout. -/
theorem layout_setNode (n : Network S M) (node : Node S)
    (h : ∀ x ∈ n.nodes, x.id.networkID = node.id.networkID → x.id = node.id) :
    (n.setNode node).layout = n.layout :=
  layout_of_replicas_eq (fun x hx => by split <;> simp_all) rfl

theorem node?_setNode_self {n : Network S M} {x : Node S}
    (h : (n.node? x.id.networkID).isSome) : (n.setNode x).node? x.id.networkID = some x := by
  rw [node?_setNode]
  obtain ⟨y, hy⟩ := Option.isSome_iff_exists.1 h
  have : y.id.networkID = x.id.networkID := by simpa using List.find?_some hy
  simp [hy, this]

theorem setNode_setNode (n : Network S M) {x y : Node S} (h : x.id.networkID = y.id.networkID) :
    (n.setNode x).setNode y = n.setNode y := by
  simp only [setNode, List.map_map, Network.mk.injEq, and_true]
  refine List.map_congr_left fun r _ => ?_
  simp only [Function.comp_apply, List.map_map, Prod.mk.injEq, true_and]
  refine List.map_congr_left fun z _ => ?_
  simp only [Function.comp_apply]
  split <;> simp_all

theorem lookup_map_snd {α β γ : Type} [BEq α] (f : β → γ) (l : List (α × β)) (a : α) :
    (l.map fun p => (p.1, f p.2)).lookup a = (l.lookup a).map f := by
  induction l with
  | nil => rfl
  | cons p l ih =>
    obtain ⟨k, b⟩ := p
    cases h : a == k <;> simp [List.lookup_cons, h, ih]

/-- The IDs of the nodes of a replica, as the layout records them. -/
theorem lookup_layout (n : Network S M) (id : ID) :
    n.layout.lookup id = (n.replicas.lookup id).map (List.map Node.id) :=
  lookup_map_snd _ _ _

theorem WellFormed.of_layout {n n' : Network S M} (h : n'.layout = n.layout)
    (hw : n.WellFormed) : n'.WellFormed := by
  exact ⟨h ▸ hw.nodup_keys, h ▸ hw.nodup_networkIDs, h ▸ hw.replicaID_eq⟩

theorem flatMap_layout (n : Network S M) : n.layout.flatMap Prod.snd = n.nodes.map Node.id := by
  simp only [layout, nodes, List.flatMap, List.map_flatten, List.map_map]
  rfl

theorem node?_eq_some {n : Network S M} {nid : UInt32} {x : Node S} (h : n.node? nid = some x) :
    x ∈ n.nodes ∧ x.id.networkID = nid :=
  ⟨List.mem_of_find?_eq_some h, by simpa using List.find?_some h⟩

/-- In a well-formed network a network ID names one node. -/
theorem WellFormed.eq_of_networkID {n : Network S M} (hw : n.WellFormed) {x y : Node S}
    (hx : x ∈ n.nodes) (hy : y ∈ n.nodes) (h : x.id.networkID = y.id.networkID) : x = y := by
  have := hw.nodup_networkIDs
  rw [flatMap_layout, List.map_map] at this
  exact List.inj_on_of_nodup_map this hx hy h

theorem WellFormed.node?_of_mem {n : Network S M} (hw : n.WellFormed) {x : Node S}
    (hx : x ∈ n.nodes) : n.node? x.id.networkID = some x := by
  obtain ⟨y, hy⟩ : ∃ y, n.node? x.id.networkID = some y :=
    Option.isSome_iff_exists.1 (List.find?_isSome.2 ⟨x, hx, by simp⟩)
  obtain ⟨hyn, hyid⟩ := node?_eq_some hy
  rw [hy, hw.eq_of_networkID hyn hx hyid]

/-- A `configuration`: the node it sends for, and the sub-configuration it is restricted to
(`nil` for the whole configuration). -/
structure Configuration where
  node : NodeID
  subConfig : Option IDSet

/-! ## The drop rule -/

/-- The index `shouldDrop` computes from a view `v`, as `i := -1; i += int(v)`: `v - 1` while `v`
fits an `int`. -/
theorem goInt_index_of_le {v : Nat} (h1 : 1 ≤ v) (h2 : v ≤ 2 ^ 63) :
    goInt (-1 + goInt v) = ((v - 1 : Nat) : Int) := by
  simp only [goInt, Int.bmod]
  split <;> split <;> omega

/-- Past `2^63`, `int(v)` is negative and so is the index. -/
theorem goInt_index_neg {v : Nat} (h1 : 2 ^ 63 < v) (h2 : v < 2 ^ 64) :
    goInt (-1 + goInt v) < 0 := by
  simp only [goInt, Int.bmod]
  split <;> split <;> omega

variable (syncView : S → HotStuff.View)

/-- The view `shouldDrop` indexes by: the larger of a node's effective view and the view of its
synchronizer. -/
def dropView (node : Node S) : HotStuff.View :=
  if node.effectiveView > syncView node.mods then node.effectiveView else syncView node.mods

/-- The decision of `Network.shouldDrop` once it has found the sender's node. -/
def dropsFrom (n : Network S M) (node : Node S) (sender receiver : UInt32) (t : MsgType) : Bool :=
  let i := goInt (-1 + goInt (dropView syncView node).toNat)
  if i < 0 then false
  else match n.views[i.toNat]? with
    | none => true
    | some view =>
      if view.partitions.any (fun p => p.contains sender && p.contains receiver) then false
      else decide (t ∈ n.dropTypes)

/-- `Network.shouldDrop`, for a message of type `t`; `none` is the panic when the sender is not a
node. -/
def shouldDrop (n : Network S M) (sender receiver : UInt32) (t : MsgType) : Option Bool :=
  (n.node? sender).map fun node => n.dropsFrom syncView node sender receiver t

/-- The drop rule as the spec states it, for a sender at view `v`: index `v - 1` into the views;
out of range drops; otherwise a message survives if some partition holds both ends, and else is
dropped iff its type is in the drop set. -/
def specDrop (n : Network S M) (v : HotStuff.View) (sender receiver : UInt32) (t : MsgType) :
    Bool :=
  match n.views[v.toNat - 1]? with
  | none => true
  | some view =>
    if view.partitions.any (fun p => p.contains sender && p.contains receiver) then false
    else decide (t ∈ n.dropTypes)

/-- While the sender's view fits an `int`, `shouldDrop` follows the spec's rule. -/
theorem shouldDrop_eq_specDrop {n : Network S M} {sender : UInt32} {node : Node S}
    (hs : n.node? sender = some node) (h1 : 1 ≤ (dropView syncView node).toNat)
    (h2 : (dropView syncView node).toNat ≤ 2 ^ 63) (receiver : UInt32) (t : MsgType) :
    n.shouldDrop syncView sender receiver t =
      some (n.specDrop (dropView syncView node) sender receiver t) := by
  simp only [shouldDrop, hs, Option.map_some', dropsFrom, goInt_index_of_le h1 h2,
    Int.toNat_ofNat, specDrop]
  rw [if_neg (by omega)]

/-- Past `2^63` the sender's view wraps to a negative index and `shouldDrop` keeps everything. -/
theorem shouldDrop_of_two_pow_lt {n : Network S M} {sender : UInt32} {node : Node S}
    (hs : n.node? sender = some node) (h : 2 ^ 63 < (dropView syncView node).toNat)
    (receiver : UInt32) (t : MsgType) :
    n.shouldDrop syncView sender receiver t = some false := by
  have hlt := UInt64.toNat_lt_size (dropView syncView node)
  simp only [shouldDrop, hs, Option.map_some', dropsFrom]
  rw [if_pos (goInt_index_neg h hlt)]

/-! ## Sending -/

variable (typeOf : M → MsgType)

/-- The loop of `sendMessage` over the nodes of the target replica: the pending messages it
appends, in order. -/
def sendLoop (n : Network S M) (c : Configuration) (message : M) :
    List (Node S) → Option (List (PendingMessage M))
  | [] => some []
  | node :: rest => do
    let drop ← n.shouldDrop syncView c.node.networkID node.id.networkID (typeOf message)
    let sent ← sendLoop n c message rest
    return if drop then sent else ⟨message, node.id.networkID⟩ :: sent

/-- `sendMessage`; `none` is the panic for a replica that does not exist. -/
def sendMessage (n : Network S M) (c : Configuration) (id : ID) (message : M) :
    Option (Network S M) := do
  let nodes ← n.replicas.lookup id
  let sent ← n.sendLoop syncView typeOf c message nodes
  return { n with pendingMessages := n.pendingMessages ++ sent }

/-- `broadcastMessage`, with `keys` the order in which `range` visits the replica IDs. -/
def broadcastMessage (n : Network S M) (c : Configuration) (keys : List ID) (message : M) :
    Option (Network S M) :=
  keys.foldlM (fun n id =>
    if id = c.node.replicaID then some n
    else if c.subConfig.all (·.contains id) then n.sendMessage syncView typeOf c id message
    else some n) n

/-- What `sendMessage` appends for the nodes `ids` of its target replica, from a sender whose
fields are `node`: a message for each node that `shouldDrop` keeps, in order. -/
def sentTo (n : Network S M) (c : Configuration) (node : Node S) (message : M)
    (ids : List NodeID) : List (PendingMessage M) :=
  (ids.filter fun id => !n.dropsFrom syncView node c.node.networkID id.networkID (typeOf message)).map
    fun id => ⟨message, id.networkID⟩

/-- What `broadcastMessage` appends when `range` visits the replica IDs in the order `keys`. -/
def broadcastSent (n : Network S M) (c : Configuration) (node : Node S) (keys : List ID)
    (message : M) : List (PendingMessage M) :=
  keys.flatMap fun id =>
    if id = c.node.replicaID then []
    else if c.subConfig.all (·.contains id) then
      n.sentTo syncView typeOf c node message ((n.layout.lookup id).getD [])
    else []

variable {syncView typeOf}
variable {n : Network S M} {c : Configuration} {node : Node S}

@[simp] theorem layout_withPending (n : Network S M) (p : List (PendingMessage M)) :
    ({ n with pendingMessages := p } : Network S M).layout = n.layout := rfl

@[simp] theorem node?_withPending (n : Network S M) (p : List (PendingMessage M)) :
    ({ n with pendingMessages := p } : Network S M).node? = n.node? := rfl

@[simp] theorem sentTo_withPending (n : Network S M) (p : List (PendingMessage M)) :
    ({ n with pendingMessages := p } : Network S M).sentTo syncView typeOf =
      n.sentTo syncView typeOf := rfl

theorem sendLoop_eq (hs : n.node? c.node.networkID = some node) (message : M)
    (nodes : List (Node S)) : n.sendLoop syncView typeOf c message nodes =
      some (n.sentTo syncView typeOf c node message (nodes.map Node.id)) := by
  induction nodes with
  | nil => rfl
  | cons x rest ih =>
    simp only [sendLoop, shouldDrop, hs, Option.map_some', ih, sentTo, List.map_cons,
      List.filter_cons]
    cases n.dropsFrom syncView node c.node.networkID x.id.networkID (typeOf message) <;> simp

/-- `sendMessage` appends `sentTo` for the replica's nodes, and panics only for a replica that
does not exist. -/
theorem sendMessage_eq (hs : n.node? c.node.networkID = some node) (id : ID) (message : M) :
    n.sendMessage syncView typeOf c id message = (n.layout.lookup id).map fun ids =>
      { n with pendingMessages := n.pendingMessages ++ n.sentTo syncView typeOf c node message ids } := by
  rw [lookup_layout]
  cases h : n.replicas.lookup id <;> simp [sendMessage, sendLoop_eq hs, h]

theorem broadcastMessage_withPending (hs : n.node? c.node.networkID = some node) (message : M) :
    ∀ (keys : List ID), (∀ id ∈ keys, id ∈ n.layout.map Prod.fst) →
      ∀ p : List (PendingMessage M),
        ({ n with pendingMessages := p } : Network S M).broadcastMessage syncView typeOf c keys message =
          some { n with pendingMessages := p ++ n.broadcastSent syncView typeOf c node keys message }
  | [], _, p => by simp [broadcastMessage, broadcastSent]
  | id :: keys, hkeys, p => by
    have ih := broadcastMessage_withPending hs message keys fun k hk => hkeys k (List.mem_cons_of_mem _ hk)
    obtain ⟨ids, hids⟩ : ∃ ids, n.layout.lookup id = some ids := by
      simpa [Option.isSome_iff_exists] using
        List.lookup_isSome_iff.2 (by simpa using hkeys id (List.mem_cons_self _ _))
    simp only [broadcastMessage, List.foldlM_cons] at ih ⊢
    by_cases hid : id = c.node.replicaID
    · simp [hid, ih, broadcastSent]
    · by_cases hsub : c.subConfig.all (·.contains id)
      · rw [if_neg hid, if_pos hsub, sendMessage_eq (by exact hs)]
        simp [ih, broadcastSent, hid, hsub, hids]
      · simp [hid, hsub, ih, broadcastSent]

/-- `broadcastMessage` appends `broadcastSent`. -/
theorem broadcastMessage_eq (hs : n.node? c.node.networkID = some node) (message : M)
    (keys : List ID) (hkeys : ∀ id ∈ keys, id ∈ n.layout.map Prod.fst) :
    n.broadcastMessage syncView typeOf c keys message =
      some { n with pendingMessages :=
        n.pendingMessages ++ n.broadcastSent syncView typeOf c node keys message } :=
  broadcastMessage_withPending hs message keys hkeys n.pendingMessages

theorem dropsFrom_congr {n₁ n₂ : Network S M} (hv : n₁.views = n₂.views)
    (hd : n₁.dropTypes = n₂.dropTypes) : n₁.dropsFrom syncView = n₂.dropsFrom syncView := by
  funext node sender receiver t
  simp only [dropsFrom, hv, hd]

theorem sentTo_congr {n₁ n₂ : Network S M} (hv : n₁.views = n₂.views)
    (hd : n₁.dropTypes = n₂.dropTypes) :
    n₁.sentTo syncView typeOf = n₂.sentTo syncView typeOf := by
  funext c node message ids
  simp only [sentTo, dropsFrom_congr hv hd]

theorem broadcastSent_congr {n₁ n₂ : Network S M} (hl : n₁.layout = n₂.layout)
    (hv : n₁.views = n₂.views) (hd : n₁.dropTypes = n₂.dropTypes) :
    n₁.broadcastSent syncView typeOf = n₂.broadcastSent syncView typeOf := by
  funext c node keys message
  simp only [broadcastSent, sentTo_congr hv hd, hl]

/-- The failing input of the drop rule: replica 1 has node 1, whose effective view is the largest
64-bit value, and replica 2 has node 2; no view has partitions. -/
def lateSenderNetwork : Network Unit Unit :=
  { replicas := [(1, [⟨⟨1, 1⟩, [], 18446744073709551615, ()⟩]), (2, [⟨⟨2, 2⟩, [], 0, ()⟩])]
    views := []
    dropTypes := []
    pendingMessages := [] }

/-- Where `shouldDrop` leaves the spec's drop rule, for a sender whose node it finds at view `v`.
While `v` fits an `int`, `1 ≤ v ≤ 2^63`, it follows the rule. Past `2^63`, `int(v)` is negative,
and so is the index: `shouldDrop` keeps every message, where the rule drops all of them. At the
failing input node 1, at view `2^64 - 1`, votes for replica 2 in a network with no views: the rule
drops the vote, and `sendMessage` appends it for node 2. -/
theorem sendMessage_keeps_vote_past_int_range :
    (∀ (syncView : S → HotStuff.View) (n : Network S M) (sender receiver : UInt32)
        (node : Node S) (t : MsgType), n.node? sender = some node →
        1 ≤ (dropView syncView node).toNat → (dropView syncView node).toNat ≤ 2 ^ 63 →
        n.shouldDrop syncView sender receiver t =
          some (n.specDrop (dropView syncView node) sender receiver t)) ∧
    (∀ (syncView : S → HotStuff.View) (n : Network S M) (sender receiver : UInt32)
        (node : Node S) (t : MsgType), n.node? sender = some node →
        2 ^ 63 < (dropView syncView node).toNat → n.views.length ≤ 2 ^ 63 →
        n.specDrop (dropView syncView node) sender receiver t = true ∧
          n.shouldDrop syncView sender receiver t = some false) ∧
    lateSenderNetwork.specDrop 18446744073709551615 1 2 .voteMsg = true ∧
      (lateSenderNetwork.sendMessage (fun _ => 0) (fun _ => .voteMsg) ⟨⟨1, 1⟩, none⟩ 2 ()).map
        (·.pendingMessages) = some [⟨(), 2⟩] :=
  ⟨fun syncView _ _ receiver _ t hs h1 h2 => shouldDrop_eq_specDrop syncView hs h1 h2 receiver t,
    fun syncView n _ receiver node t hs h hlen =>
      ⟨by simp [specDrop, List.getElem?_eq_none
          (show n.views.length ≤ (dropView syncView node).toNat - 1 by omega)],
        shouldDrop_of_two_pow_lt syncView hs h receiver t⟩,
    by decide⟩

/-- Every message `sentTo` appends carries the message, for a node of the replica. -/
theorem mem_sentTo {message : M} {ids : List NodeID} {q : PendingMessage M}
    (h : q ∈ n.sentTo syncView typeOf c node message ids) :
    q.message = message ∧ ∃ id ∈ ids, q.receiver = id.networkID := by
  obtain ⟨id, hid, rfl⟩ := List.mem_map.1 h
  exact ⟨rfl, id, (List.mem_filter.1 hid).1, rfl⟩

/-! ## Fetching -/

variable (syncView) (localGet : S → Hash → Option Block)

variable {syncView localGet}

end Network

end HotStuff.Twins
