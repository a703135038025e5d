import HotStuff.Twins.Tick

/-!
# Whole runs of the twins network

`createTwinsNodes` registers the nodes of a scenario through `GetNodeBuilder`; with distinct
network IDs the network it builds is well formed (`createTwinsNodes_wellFormed`). `run` kicks the
protocol off, with a proposal from every node whose replica leads view 1, and then ticks `ticks`
times. No call and no tick changes who is where, the views or the drop types,
and a message is only ever queued for a node of the layout: `Ready` holds of every network a run
goes through, kept by the kick-off at a node (`kickoffNode_ready`) and by a tick (`tick_ready`).
So the one panic a run can reach is a `sendMessage` to a replica that does not exist: when the
consensus modules send only to replicas of the network, a run of any length returns a network,
whatever orders the Go maps are visited in (`run_never_panics`).
-/

namespace HotStuff.Twins

variable {S M : Type}

namespace Network

variable (syncView : S → HotStuff.View) (typeOf : M → MsgType)
  (drain : Node S → List (Event M) → List (Node S × Call M) × Node S)
  (propose : Node S → List (Node S × Call M) × Node S) (leader : ID)

/-- The kick-off at node `nid`: if `leader`, the leader of view 1, is its replica, its consensus
module proposes; `propose` gives the calls it makes, each with the node's fields at that moment,
and its fields after. -/
def kickoffNode (keys : UInt32 → Nat → List ID) (n : Network S M) (nid : UInt32) :
    Option (Network S M) :=
  (n.node? nid).bind fun node =>
    if leader = node.id.replicaID then
      let out := propose node
      (out.1.enum.foldlM (fun (m : Network S M) call =>
        m.applyCall syncView typeOf node.id (keys nid call.1) call.2) n).map fun m =>
          m.setNode { out.2 with id := node.id }
    else some n

/-- The loop of `run` over its ticks: tick `t` visits the nodes in the order `orders t`, and the
`k`-th broadcast of node `nid` in it visits the replicas in the order `keys t nid k`. -/
def runTicks (orders : Nat → List UInt32) (keys : Nat → UInt32 → Nat → List ID) :
    Nat → Network S M → Option (Network S M)
  | 0, n => some n
  | t + 1, n => (runTicks orders keys t n).bind fun m =>
    m.tick syncView typeOf drain (orders t) (keys t)

/-- `run`: the kick-off visits the nodes in the order `kickoffOrder`, then come `ticks` ticks. -/
def run (n : Network S M) (kickoffOrder : List UInt32) (kickoffKeys : UInt32 → Nat → List ID)
    (orders : Nat → List UInt32) (keys : Nat → UInt32 → Nat → List ID) (ticks : Int) :
    Option (Network S M) :=
  (kickoffOrder.foldlM (kickoffNode syncView typeOf propose leader kickoffKeys) n).bind
    (runTicks syncView typeOf drain orders keys ticks.toNat)

/-! ## Building the network -/

/-- `NewPartitionedNetwork(views, dropTypes...)`: no nodes yet, no messages. -/
def newPartitionedNetwork (views : List View) (dropTypes : List MsgType) : Network S M :=
  { replicas := [], views, dropTypes, pendingMessages := [] }

/-- `n.replicas[id] = append(n.replicas[id], node)`. -/
def appendNode : List (ID × List (Node S)) → ID → Node S → List (ID × List (Node S))
  | [], id, node => [(id, [node])]
  | (k, nodes) :: rest, id, node =>
    if k = id then (k, nodes ++ [node]) :: rest else (k, nodes) :: appendNode rest id node

/-- `GetNodeBuilder(id, pk)`: a new node with the ID `id`, the zero value's other fields and the
modules `mods` its builder makes, put into `nodes` and appended to its replica. -/
def getNodeBuilder (n : Network S M) (mods : S) (id : NodeID) : Network S M :=
  { n with replicas := appendNode n.replicas id.replicaID ⟨id, [], 0, mods⟩ }

/-- `createTwinsNodes` when every key is generated and the consensus module is known: the nodes
registered in turn, `mods id` the modules built for node `id`. -/
def createTwinsNodes (n : Network S M) (mods : NodeID → S) (nodes : List NodeID) : Network S M :=
  nodes.foldl (fun n id => n.getNodeBuilder (mods id) id) n

/-- Calls that send only to replicas of `n`. -/
def SendsWithin (n : Network S M) (calls : List (Node S × Call M)) : Prop :=
  ∀ call ∈ calls, ∀ id message, call.2 = .send id message → id ∈ n.layout.map Prod.fst

/-- What every network a run from `n₀` goes through keeps: the frame of `n₀`, and messages only
for nodes of its layout. -/
structure Ready (n₀ n : Network S M) : Prop where
  frame : n.SameFrame n₀
  receivers : ∀ p ∈ n.pendingMessages,
    p.receiver ∈ (n₀.layout.flatMap Prod.snd).map NodeID.networkID

variable {syncView typeOf drain propose leader}
variable {n n₀ : Network S M}

theorem SameFrame.trans {n₁ n₂ n₃ : Network S M} (h₁ : n₁.SameFrame n₂) (h₂ : n₂.SameFrame n₃) :
    n₁.SameFrame n₃ :=
  ⟨h₁.layout.trans h₂.layout, h₁.views.trans h₂.views, h₁.dropTypes.trans h₂.dropTypes⟩

theorem networkIDs_eq (n : Network S M) :
    n.nodes.map (·.id.networkID) = (n.layout.flatMap Prod.snd).map NodeID.networkID := by
  rw [flatMap_layout, List.map_map]
  rfl

/-- A network ID names a node exactly when the layout records it. -/
theorem node?_isSome_iff {nid : UInt32} :
    (n.node? nid).isSome ↔ nid ∈ (n.layout.flatMap Prod.snd).map NodeID.networkID := by
  rw [node?, List.find?_isSome, ← networkIDs_eq]
  simp

/-- The nodes that a replica's entry lists are nodes of the layout. -/
theorem mem_flatMap_of_lookup {l : List (ID × List NodeID)} {k : ID} {i : NodeID}
    (h : i ∈ (l.lookup k).getD []) : i ∈ l.flatMap Prod.snd := by
  cases hl : l.lookup k with
  | none => simp [hl] at h
  | some ids =>
    obtain ⟨l₁, l₂, rfl, -⟩ := List.lookup_eq_some_iff.1 hl
    simp only [hl, Option.getD_some] at h
    simp [h]

/-- Every message a call appends is for a node of the layout. -/
theorem receiver_mem_of_callSent {id : NodeID} {keys : List ID} {call : Node S × Call M}
    {sent : List (PendingMessage M)} (h : n.callSent syncView typeOf id keys call = some sent)
    {p : PendingMessage M} (hp : p ∈ sent) :
    p.receiver ∈ (n.layout.flatMap Prod.snd).map NodeID.networkID := by
  obtain ⟨now, call⟩ := call
  cases call with
  | broadcast subConfig message =>
    cases h
    obtain ⟨k, -, hk⟩ := List.mem_flatMap.1 hp
    split_ifs at hk
    · simp at hk
    · obtain ⟨-, i, hi, hpi⟩ := mem_sentTo hk
      exact hpi ▸ List.mem_map_of_mem _ (mem_flatMap_of_lookup hi)
    · simp at hk
  | send target message =>
    obtain ⟨ids, hids, rfl⟩ := Option.map_eq_some'.1 h
    obtain ⟨-, i, hi, hpi⟩ := mem_sentTo hp
    exact hpi ▸ List.mem_map_of_mem _ (mem_flatMap_of_lookup (by rw [hids]; exact hi))

theorem SendsWithin.of_layout {n n' : Network S M} (h : n.layout = n'.layout)
    {calls : List (Node S × Call M)} (hs : SendsWithin n' calls) : SendsWithin n calls :=
  fun call hc id message he => h ▸ hs call hc id message he

variable (syncView typeOf) in
/-- Calls that send only to replicas of `n` do not panic, and append messages only for nodes of
its layout. -/
theorem callsSent_ready (id : NodeID) (keys : Nat → List ID) {calls : List (Node S × Call M)}
    (hs : SendsWithin n calls) :
    ∃ sent, n.callsSent syncView typeOf id keys calls.enum = some sent ∧
      ∀ p ∈ sent, p.receiver ∈ (n.layout.flatMap Prod.snd).map NodeID.networkID := by
  have hsome : (n.callsSent syncView typeOf id keys calls.enum).isSome := by
    refine flatMapOpt_isSome_iff.2 fun ⟨k, now, call⟩ hc => ?_
    cases call with
    | broadcast subConfig message => rfl
    | send target message =>
      obtain ⟨r, hr, rfl⟩ := List.mem_map.1
        (hs _ (List.snd_mem_of_mem_enum hc) target message rfl)
      simp only [callSent, Option.isSome_map']
      exact List.lookup_isSome_iff.2 ⟨r, hr, beq_self_eq_true _⟩
  obtain ⟨sent, hsent⟩ := Option.isSome_iff_exists.1 hsome
  refine ⟨sent, hsent, fun p hp => ?_⟩
  obtain ⟨call, -, s, hs, hp⟩ := mem_of_flatMapOpt_eq_some hsent hp
  exact receiver_mem_of_callSent hs hp

/-! ## The network `createTwinsNodes` builds -/

theorem map_fst_appendNode (id : ID) (node : Node S) :
    ∀ l : List (ID × List (Node S)), (appendNode l id node).map Prod.fst =
      if id ∈ l.map Prod.fst then l.map Prod.fst else l.map Prod.fst ++ [id]
  | [] => rfl
  | (k, nodes) :: rest => by
    by_cases hk : k = id
    · simp [appendNode, hk]
    · simp only [appendNode, if_neg hk, List.map_cons, map_fst_appendNode id node rest,
        List.mem_cons, Ne.symm hk, false_or]
      split <;> rfl

theorem flatMap_appendNode_perm (id : ID) (node : Node S) :
    ∀ l : List (ID × List (Node S)),
      ((appendNode l id node).flatMap Prod.snd).Perm (l.flatMap Prod.snd ++ [node])
  | [] => by simp [appendNode]
  | (k, nodes) :: rest => by
    unfold appendNode
    split
    · simpa using (List.perm_append_singleton node _).symm.append_left nodes
    · simpa using (flatMap_appendNode_perm id node rest).append_left nodes

/-- A property of every node under its key, which the appended node has, survives
`appendNode`. -/
theorem forall_appendNode {P : ID → Node S → Prop} {id : ID} {node : Node S} (hnode : P id node) :
    ∀ {l : List (ID × List (Node S))}, (∀ r ∈ l, ∀ y ∈ r.2, P r.1 y) →
      ∀ r ∈ appendNode l id node, ∀ y ∈ r.2, P r.1 y
  | [], _ => by simpa [appendNode] using hnode
  | (k, nodes) :: rest, h => by
    rw [List.forall_mem_cons] at h
    unfold appendNode
    split
    · rename_i hk
      subst hk
      refine List.forall_mem_cons.2 ⟨fun y hy => ?_, h.2⟩
      rcases List.mem_append.1 hy with hy | hy
      · exact h.1 y hy
      · exact List.mem_singleton.1 hy ▸ hnode
    · exact List.forall_mem_cons.2 ⟨h.1, forall_appendNode hnode h.2⟩

/-- Registering a node under a fresh network ID keeps a network well formed, and adds the node
to its nodes. -/
theorem getNodeBuilder_wellFormed {n : Network S M} (hw : n.WellFormed) (mods : S) (id : NodeID)
    (hid : id.networkID ∉ n.nodes.map (·.id.networkID)) :
    (n.getNodeBuilder mods id).WellFormed ∧
      (n.getNodeBuilder mods id).nodes.Perm (n.nodes ++ [⟨id, [], 0, mods⟩]) := by
  have hkeys : ∀ m : Network S M, m.layout.map Prod.fst = m.replicas.map Prod.fst := fun m => by
    simp [layout]
  have hperm : (n.getNodeBuilder mods id).nodes.Perm (n.nodes ++ [⟨id, [], 0, mods⟩]) :=
    flatMap_appendNode_perm _ _ _
  refine ⟨⟨?_, ?_, ?_⟩, hperm⟩
  · have := hw.nodup_keys
    rw [hkeys] at this ⊢
    simp only [getNodeBuilder, map_fst_appendNode]
    split
    · exact this
    · exact this.append (List.nodup_singleton _) (List.disjoint_singleton.2 ‹_›)
  · have := hw.nodup_networkIDs
    rw [← networkIDs_eq] at this ⊢
    refine ((hperm.map _).nodup_iff).2 ?_
    rw [List.map_append]
    exact this.append (List.nodup_singleton _) (List.disjoint_singleton.2 hid)
  · intro r hr nid hnid
    obtain ⟨r', hr', rfl⟩ := List.mem_map.1 hr
    obtain ⟨y, hy, rfl⟩ := List.mem_map.1 hnid
    exact forall_appendNode (P := fun k y => y.id.replicaID = k)
      (rfl : (⟨id, [], 0, mods⟩ : Node S).id.replicaID = id.replicaID)
      (fun r hr y hy => hw.replicaID_eq _ (List.mem_map_of_mem _ hr) _ (List.mem_map_of_mem _ hy))
      r' hr' y hy

/-- For every list of node IDs with distinct network IDs, the network that `createTwinsNodes`
builds on `NewPartitionedNetwork` is well formed, has no message pending, keeps the views and
drop types it was given, and its nodes are the registered ones, once each. -/
theorem createTwinsNodes_wellFormed (views : List View) (dropTypes : List MsgType)
    (mods : NodeID → S) {ids : List NodeID} (hids : (ids.map NodeID.networkID).Nodup) :
    ((newPartitionedNetwork views dropTypes : Network S M).createTwinsNodes mods ids).WellFormed ∧
      ((newPartitionedNetwork views dropTypes : Network S M).createTwinsNodes mods ids).nodes.Perm
        (ids.map fun id => ⟨id, [], 0, mods id⟩) ∧
      ((newPartitionedNetwork views dropTypes : Network S M).createTwinsNodes mods
        ids).pendingMessages = [] ∧
      ((newPartitionedNetwork views dropTypes : Network S M).createTwinsNodes mods ids).views =
        views ∧
      ((newPartitionedNetwork views dropTypes : Network S M).createTwinsNodes mods
        ids).dropTypes = dropTypes := by
  suffices h : ∀ (ids : List NodeID) (n : Network S M), n.WellFormed →
      (n.nodes.map (·.id.networkID) ++ ids.map NodeID.networkID).Nodup →
      (n.createTwinsNodes mods ids).WellFormed ∧
        (n.createTwinsNodes mods ids).nodes.Perm (n.nodes ++ ids.map fun id => ⟨id, [], 0, mods id⟩) ∧
        (n.createTwinsNodes mods ids).pendingMessages = n.pendingMessages ∧
        (n.createTwinsNodes mods ids).views = n.views ∧
        (n.createTwinsNodes mods ids).dropTypes = n.dropTypes from
    h ids _ ⟨List.nodup_nil, List.nodup_nil, by simp [layout, newPartitionedNetwork]⟩ hids
  intro ids
  induction ids with
  | nil => exact fun n hw _ => ⟨hw, by simp [createTwinsNodes], rfl, rfl, rfl⟩
  | cons id ids ih =>
    intro n hw hnd
    rw [List.map_cons, List.nodup_middle, List.nodup_cons] at hnd
    obtain ⟨hw', hperm⟩ := getNodeBuilder_wellFormed hw (mods id) id
      fun h => hnd.1 (List.mem_append_left _ h)
    obtain ⟨h₁, h₂, h₃, h₄, h₅⟩ := ih _ hw' (((hperm.map _).append_right _).nodup_iff.2 (by
      simpa only [List.map_append, List.map_singleton, List.append_assoc, List.singleton_append,
        List.nodup_middle, List.nodup_cons] using hnd))
    exact ⟨h₁, h₂.trans (by simpa using hperm.append_right _), h₃, h₄, h₅⟩

/-- A replica with a twin and a replica without, in a network with no views. -/
theorem createTwinsNodes_wellFormed_twin :
    (([⟨1, 1⟩, ⟨1, 2⟩, ⟨2, 3⟩] : List NodeID).map NodeID.networkID).Nodup ∧
    ((newPartitionedNetwork [] [] : Network Unit Unit).createTwinsNodes (fun _ => ())
        [⟨1, 1⟩, ⟨1, 2⟩, ⟨2, 3⟩]).WellFormed ∧
      ((newPartitionedNetwork [] [] : Network Unit Unit).createTwinsNodes (fun _ => ())
        [⟨1, 1⟩, ⟨1, 2⟩, ⟨2, 3⟩]).nodes.Perm
        (([⟨1, 1⟩, ⟨1, 2⟩, ⟨2, 3⟩] : List NodeID).map fun id => ⟨id, [], 0, ()⟩) ∧
      ((newPartitionedNetwork [] [] : Network Unit Unit).createTwinsNodes (fun _ => ())
        [⟨1, 1⟩, ⟨1, 2⟩, ⟨2, 3⟩]).pendingMessages = [] ∧
      ((newPartitionedNetwork [] [] : Network Unit Unit).createTwinsNodes (fun _ => ())
        [⟨1, 1⟩, ⟨1, 2⟩, ⟨2, 3⟩]).views = [] ∧
      ((newPartitionedNetwork [] [] : Network Unit Unit).createTwinsNodes (fun _ => ())
        [⟨1, 1⟩, ⟨1, 2⟩, ⟨2, 3⟩]).dropTypes = [] :=
  ⟨by decide, createTwinsNodes_wellFormed [] [] (fun _ => ()) (by decide)⟩

/-! ## What each step keeps -/

section Steps

variable (hw₀ : n₀.WellFormed)
include hw₀

/-- The kick-off at a node of the layout returns a network, and keeps `Ready`. -/
theorem kickoffNode_ready (hpropose : ∀ x, SendsWithin n₀ (propose x).1)
    {keys : UInt32 → Nat → List ID} (hkeys : ∀ nid k, ∀ i ∈ keys nid k, i ∈ n₀.layout.map Prod.fst)
    (hr : Ready n₀ n) {nid : UInt32}
    (hnid : nid ∈ (n₀.layout.flatMap Prod.snd).map NodeID.networkID) :
    ∃ m, n.kickoffNode syncView typeOf propose leader keys nid = some m ∧ Ready n₀ m := by
  have hl := hr.frame.layout
  have hw := hw₀.of_layout hl
  obtain ⟨node, hnode⟩ := Option.isSome_iff_exists.1 (node?_isSome_iff.2 (hl ▸ hnid))
  obtain ⟨hmem, rfl⟩ := node?_eq_some hnode
  rw [kickoffNode, hnode, Option.some_bind]
  split_ifs
  · dsimp only
    have hid := mem_layout_of_mem_nodes hmem
    obtain ⟨sent, hsent, hrecv⟩ := callsSent_ready syncView typeOf node.id
      (keys node.id.networkID) ((hpropose node).of_layout hl)
    refine ⟨_, (foldlM_applyCall hw hid (hl ▸ hkeys _) (f := { (propose node).2 with id := node.id })
      rfl _ n ⟨rfl, rfl, rfl⟩).trans (by rw [hsent]; rfl),
      ((SameFrame.setNode hw ⟨rfl, rfl, rfl⟩ (x := { (propose node).2 with id := node.id })
        hid).withPending _).trans hr.frame,
      fun p hp => (List.mem_append.1 hp).elim (hr.receivers p) fun hp => hl ▸ hrecv p hp⟩
  · exact ⟨n, rfl, hr⟩

/-- The kick-off, over any nodes of the layout, returns a network, and keeps `Ready`. -/
theorem kickoff_ready (hpropose : ∀ x, SendsWithin n₀ (propose x).1)
    {keys : UInt32 → Nat → List ID} (hkeys : ∀ nid k, ∀ i ∈ keys nid k, i ∈ n₀.layout.map Prod.fst) :
    ∀ (order : List UInt32) {n : Network S M},
      (∀ nid ∈ order, nid ∈ (n₀.layout.flatMap Prod.snd).map NodeID.networkID) → Ready n₀ n →
      ∃ m, order.foldlM (kickoffNode syncView typeOf propose leader keys) n = some m ∧ Ready n₀ m
  | [], n, _, hr => ⟨n, rfl, hr⟩
  | nid :: order, n, ho, hr => by
    obtain ⟨m, hm, hrm⟩ :=
      kickoffNode_ready hw₀ hpropose hkeys hr (ho nid (List.mem_cons_self _ _))
    rw [List.foldlM_cons, hm]
    exact kickoff_ready hpropose hkeys order (fun nid h => ho nid (List.mem_cons_of_mem _ h)) hrm

/-- A tick that visits every node once returns a network, and keeps `Ready`. -/
theorem tick_ready (hdrain : ∀ x evs, SendsWithin n₀ (drain x evs).1)
    {keys : UInt32 → Nat → List ID} (hkeys : ∀ nid k, ∀ i ∈ keys nid k, i ∈ n₀.layout.map Prod.fst)
    {order : List UInt32} (ho : order.Perm ((n₀.layout.flatMap Prod.snd).map NodeID.networkID))
    (hr : Ready n₀ n) :
    ∃ t, n.tick syncView typeOf drain order keys = some t ∧ Ready n₀ t := by
  have hl := hr.frame.layout
  have hw := hw₀.of_layout hl
  have hp : ∀ p ∈ n.pendingMessages, (n.node? p.receiver).isSome :=
    fun p h => node?_isSome_iff.2 (hl ▸ hr.receivers p h)
  have ho' : order.Perm (n.nodes.map (·.id.networkID)) := by rwa [networkIDs_eq, hl]
  -- every node visited sends without panic, and only to nodes of the layout
  have hall : ∀ nid ∈ order, ∃ sent,
      (n.node? nid).bind (n.nodeSent syncView typeOf drain keys) = some sent ∧
        ∀ p ∈ sent, p.receiver ∈ (n₀.layout.flatMap Prod.snd).map NodeID.networkID := by
    intro nid hnid
    obtain ⟨x, hx⟩ := Option.isSome_iff_exists.1 (node?_isSome_iff.2 (hl ▸ ho.mem_iff.1 hnid))
    obtain ⟨-, rfl⟩ := node?_eq_some hx
    obtain ⟨sent, hsent, hrecv⟩ := callsSent_ready syncView typeOf x.id (keys x.id.networkID)
      ((hdrain x (n.events x)).of_layout hl)
    exact ⟨sent, by rw [hx, Option.some_bind]; exact hsent, hl ▸ hrecv⟩
  obtain ⟨sent, hsent⟩ : ∃ sent, flatMapOpt (fun nid => (n.node? nid).bind
      (n.nodeSent syncView typeOf drain keys)) order = some sent :=
    Option.isSome_iff_exists.1 (flatMapOpt_isSome_iff.2 fun nid h => by
      obtain ⟨s, hs, -⟩ := hall nid h
      simp [hs])
  rw [tick_eq hw (hl ▸ hkeys) ho' hp, hsent, Option.map_some']
  refine ⟨_, rfl, ⟨(layout_of_replicas_eq (g := n.drained drain) (fun _ _ => rfl) rfl).trans hl,
    hr.frame.views,
    hr.frame.dropTypes⟩, fun p hp => ?_⟩
  obtain ⟨nid, hnid, s, hs, hp⟩ := mem_of_flatMapOpt_eq_some hsent hp
  obtain ⟨s', hs', hrecv⟩ := hall nid hnid
  exact hrecv p (Option.some.inj (hs.symm.trans hs') ▸ hp)

/-- Ticks that each visit every node once return a network, and keep `Ready`. -/
theorem runTicks_ready (hdrain : ∀ x evs, SendsWithin n₀ (drain x evs).1)
    {orders : Nat → List UInt32}
    (horders : ∀ t, (orders t).Perm ((n₀.layout.flatMap Prod.snd).map NodeID.networkID))
    {keys : Nat → UInt32 → Nat → List ID}
    (hkeys : ∀ t nid k, ∀ i ∈ keys t nid k, i ∈ n₀.layout.map Prod.fst) :
    ∀ (t : Nat) {n : Network S M}, Ready n₀ n →
      ∃ m, n.runTicks syncView typeOf drain orders keys t = some m ∧ Ready n₀ m
  | 0, n, hr => ⟨n, rfl, hr⟩
  | t + 1, n, hr => by
    obtain ⟨m, hm, hrm⟩ := runTicks_ready hdrain horders hkeys t hr
    obtain ⟨m', hm', hrm'⟩ := tick_ready hw₀ hdrain (hkeys t) (horders t) hrm
    exact ⟨m', by rw [runTicks, hm, Option.some_bind, hm'], hrm'⟩

end Steps

/-- For every well-formed network whose pending messages are for nodes that exist, and
consensus modules whose `Vote` and `NewView` go only to replicas of the network: a run with any
number of ticks returns a network, whatever orders the kick-off and the ticks visit the nodes in
and the broadcasts visit the replicas in. It keeps who is where, the views and the drop types,
and every message it leaves pending is for a node that exists. -/
theorem run_never_panics (hw : n.WellFormed)
    (hp : ∀ p ∈ n.pendingMessages, (n.node? p.receiver).isSome)
    (hdrain : ∀ x evs, SendsWithin n (drain x evs).1) (hpropose : ∀ x, SendsWithin n (propose x).1)
    {kickoffOrder : List UInt32} (hko : ∀ nid ∈ kickoffOrder, nid ∈ n.nodes.map (·.id.networkID))
    {kickoffKeys : UInt32 → Nat → List ID}
    (hkk : ∀ nid k, ∀ i ∈ kickoffKeys nid k, i ∈ n.layout.map Prod.fst)
    {orders : Nat → List UInt32} (horders : ∀ t, (orders t).Perm (n.nodes.map (·.id.networkID)))
    {keys : Nat → UInt32 → Nat → List ID}
    (hkeys : ∀ t nid k, ∀ i ∈ keys t nid k, i ∈ n.layout.map Prod.fst) (ticks : Int) :
    ∃ m, n.run syncView typeOf drain propose leader kickoffOrder kickoffKeys orders keys ticks =
        some m ∧ m.SameFrame n ∧ ∀ p ∈ m.pendingMessages, (m.node? p.receiver).isSome := by
  rw [networkIDs_eq] at hko horders
  have hr : Ready n n := ⟨⟨rfl, rfl, rfl⟩, fun p h => node?_isSome_iff.1 (hp p h)⟩
  obtain ⟨k, hk, hrk⟩ := kickoff_ready hw hpropose hkk kickoffOrder hko hr
  obtain ⟨m, hm, hrm⟩ := runTicks_ready hw hdrain horders hkeys ticks.toNat hrk
  exact ⟨m, by rw [run, hk, Option.some_bind, hm], hrm.frame,
    fun p h => node?_isSome_iff.2 (hrm.frame.layout ▸ hrm.receivers p h)⟩

/-- A leader that proposes its network ID to every replica. -/
def proposeToAll (node : Node Unit) : List (Node Unit × Call UInt32) × Node Unit :=
  ([(node, .broadcast none node.id.networkID)], node)

theorem sendsWithin_voteForThree (x : Node Unit) (evs : List (Event UInt32)) :
    SendsWithin threeReplicas (voteForThree x evs).1 := by
  intro call hc id message he
  simp only [voteForThree] at hc
  split at hc
  · simp at hc
  · obtain ⟨rfl, -⟩ := Call.send.inj ((congrArg Prod.snd (List.mem_singleton.1 hc)).symm.trans he)
    decide

theorem sendsWithin_proposeToAll (x : Node Unit) : SendsWithin threeReplicas (proposeToAll x).1 := by
  intro call hc id message he
  simp only [proposeToAll, List.mem_singleton] at hc
  simp [hc] at he

/-- Five ticks of the three replicas voting for replica 3, after replica 1 proposed. -/
theorem run_never_panics_three :
    (threeReplicas.WellFormed ∧
      (∀ p ∈ threeReplicas.pendingMessages, (threeReplicas.node? p.receiver).isSome) ∧
      (∀ x evs, SendsWithin threeReplicas (voteForThree x evs).1) ∧
      (∀ x, SendsWithin threeReplicas (proposeToAll x).1) ∧
      (∀ nid ∈ [1, 2, 3], nid ∈ threeReplicas.nodes.map (·.id.networkID)) ∧
      (∀ i ∈ [1, 2, 3], i ∈ threeReplicas.layout.map Prod.fst) ∧
      ([1, 2, 3] : List UInt32).Perm (threeReplicas.nodes.map (·.id.networkID)) ∧
      (∀ i ∈ [3, 2, 1], i ∈ threeReplicas.layout.map Prod.fst)) ∧
    ∃ m, threeReplicas.run (fun _ => 0) (fun _ => .voteMsg) voteForThree proposeToAll 1 [1, 2, 3]
        (fun _ _ => [1, 2, 3]) (fun _ => [1, 2, 3]) (fun _ _ _ => [3, 2, 1]) 5 = some m ∧
      m.SameFrame threeReplicas ∧ ∀ p ∈ m.pendingMessages, (m.node? p.receiver).isSome :=
  ⟨⟨wellFormed_threeReplicas, by simp [threeReplicas], sendsWithin_voteForThree,
      sendsWithin_proposeToAll, by decide, by decide, by decide, by decide⟩,
    run_never_panics wellFormed_threeReplicas (by simp [threeReplicas]) sendsWithin_voteForThree
      sendsWithin_proposeToAll (by decide) (fun _ _ => by decide) (fun _ => by decide)
      (fun _ _ _ => by decide) 5⟩

end Network

end HotStuff.Twins
