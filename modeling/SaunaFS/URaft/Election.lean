import Mathlib.Logic.Function.Basic

/-! The leader election of `saunafs-uraft` (`uRaft` in `src/uraft/uraft.h`, `uraft.cc`).
Each server keeps its `RaftState`, its `node_` table of what it heard from the
others, and `block_leader_promotion_`. The servers talk over UDP, so the wire is the
list of every packet ever sent: a packet may be delivered any number of times, in
any order, or never. A run is any sequence of packet deliveries (`receivePacket`),
election timeouts, heartbeats, expiries of a loyalty agreement, `demoteLeader` and
`set_block_promotion`; the timers are not modelled, so each of them may fire at
any point.

A president whose promotion is blocked and who hears of a newer term takes that
term in `checkTerm` and stays leader, since `electionTimeout` returns at once; so a
server elected in that term and the president are both leaders of one term
(`blocked_president_joins_term`).
-/

set_option autoImplicit false

namespace SaunaFS

namespace URaft

/-- `uRaft::State`. -/
inductive State where
  | kFollower
  | kCandidate
  | kLeader
  deriving Repr, DecidableEq

/-- `uRaft::RpcType`. -/
inductive RpcType where
  | kRpcAppendEntries
  | kRpcRequestVote
  | kRpcAEResponse
  | kRpcRVResponse
  deriving Repr, DecidableEq

/-- `uRaft::Options` as far as the election reads them: the number of servers, from
which `init` sets `quorum`, `heartbeat_period` and `election_timeout_min`. -/
structure Options where
  servers : Nat
  heartbeatPeriod : Nat
  electionTimeoutMin : Nat
  deriving Repr, DecidableEq

/-- `opt_.quorum = opt_.server.size() / 2 + 1`, as `init` sets it. -/
def Options.quorum (opt : Options) : Nat := opt.servers / 2 + 1

/-- `uRaft::NodeInfo` without the address: the server's index stands for it. -/
structure NodeInfo where
  dataVersion : Nat
  heartbeat : Nat
  voteGranted : Bool
  recv : Bool
  deriving Repr, DecidableEq

/-- `uRaft::RaftState`; `voted_for` and `leader_id` are `-1` for none. -/
structure RaftState where
  id : Nat
  type : State
  currentTerm : Nat
  votedFor : Int
  leaderId : Int
  localTime : Nat
  president : Bool
  loyaltyAgreement : Bool
  dataVersion : Nat
  deriving Repr, DecidableEq

structure RpcRequest where
  type : RpcType
  term : Nat
  nodeId : Int
  time : Nat
  dataVersion : Nat
  deriving Repr, DecidableEq

structure RpcResponse where
  type : RpcType
  term : Nat
  result : Bool
  reqTime : Nat
  dataVersion : Nat
  deriving Repr, DecidableEq

/-- A packet: a request or a response, as its size tells them apart. -/
inductive Packet where
  | request (req : RpcRequest)
  | response (res : RpcResponse)
  deriving Repr, DecidableEq

/-- The `term` of the packet's `RpcHeader`. -/
def Packet.term : Packet → Nat
  | .request req => req.term
  | .response res => res.term

/-- A packet on the wire from server `src` to server `dst`. -/
structure Message where
  src : Nat
  dst : Nat
  packet : Packet
  deriving Repr, DecidableEq

end URaft

open URaft

/-- A `uRaft` object: its state, its `node_` table and `block_leader_promotion_`. -/
structure URaft where
  state : RaftState
  node : List NodeInfo
  blockLeaderPromotion : Bool
  deriving Repr, DecidableEq

namespace URaft

/-- A server after `init`: a follower of term 0 that has not voted, whose clock starts past
one election timeout, and that waits for the loyalty agreement it signs to expire. -/
def init (opt : Options) (id : Nat) : URaft :=
  ⟨⟨id, .kFollower, 0, -1, -1, opt.electionTimeoutMin / opt.heartbeatPeriod + 1, false, true, 0⟩,
    List.replicate opt.servers ⟨0, 0, false, false⟩, false⟩

/-- `node_[i]`; the source reads only entries of servers. -/
def nodeAt (raft : URaft) (i : Nat) : NodeInfo := raft.node.getD i ⟨0, 0, false, false⟩

def setNode (raft : URaft) (i : Nat) (info : NodeInfo) : URaft := { raft with node := raft.node.set i info }

def setState (raft : URaft) (state : RaftState) : URaft := { raft with state }

/-- `nodeGetVersion` of the base class. -/
def nodeGetVersion (raft : URaft) : Nat := raft.state.dataVersion

/-- `voteCount(count_loyal)`: the servers that granted their vote, or those whose last
answer to a heartbeat is recent enough to be loyal still. -/
def voteCount (opt : Options) (raft : URaft) (countLoyal : Bool) : Nat :=
  raft.node.countP fun node =>
    (!countLoyal && node.voteGranted) ||
      (countLoyal && decide (opt.heartbeatPeriod * ((raft.state.localTime - node.heartbeat) + 1) ≤ opt.electionTimeoutMin))

/-- `sendHeartbeat`: an append entries request to every other server. -/
def sendHeartbeat (raft : URaft) : List Message :=
  let req : RpcRequest := ⟨.kRpcAppendEntries, raft.state.currentTerm, raft.state.id, raft.state.localTime,
    raft.state.dataVersion⟩
  (List.range raft.node.length).filterMap fun i =>
    if i = raft.state.id then none else some ⟨raft.state.id, i, .request req⟩

/-- `sendRequestForVotes`: a vote request to every server not heard from in this election. -/
def sendRequestForVotes (raft : URaft) : List Message :=
  let req : RpcRequest := ⟨.kRpcRequestVote, raft.state.currentTerm, raft.state.id, raft.state.localTime,
    raft.state.dataVersion⟩
  (List.range raft.node.length).filterMap fun i =>
    if (raft.nodeAt i).recv then none else some ⟨raft.state.id, i, .request req⟩

/-- `electionTimeout`: unless promotion is blocked, the server stands in a new term. -/
def electionTimeout (opt : Options) (raft : URaft) : URaft × List Message :=
  if raft.blockLeaderPromotion then (raft, [])
  else
    let id := raft.state.id
    let raft := raft.setState { raft.state with type := .kCandidate, currentTerm := raft.state.currentTerm + 1, votedFor := id }
    let raft := { raft with node := raft.node.map fun (info : NodeInfo) => { info with voteGranted := false, recv := false } }
    let raft := raft.setNode id ({ raft.nodeAt id with
      voteGranted := true, recv := true, dataVersion := raft.state.dataVersion, heartbeat := raft.state.localTime })
    if opt.quorum > 1 then
      let raft := raft.setState { raft.state with dataVersion := raft.nodeGetVersion }
      (raft, raft.sendRequestForVotes)
    else (raft.setState { raft.state with type := .kLeader }, [])

/-- `heartbeat`: the clock ticks; a president without a loyal quorum steps down, a
candidate asks again, and a leader sends heartbeats and becomes president once a
quorum is loyal. -/
def heartbeat (opt : Options) (raft : URaft) : URaft × List Message :=
  let raft := raft.setState { raft.state with localTime := raft.state.localTime + 1 }
  let raft := raft.setNode raft.state.id { raft.nodeAt raft.state.id with heartbeat := raft.state.localTime }
  if raft.state.president ∧ raft.voteCount opt true < opt.quorum then
    let raft := if raft.state.type = .kLeader then
      raft.setState { raft.state with type := .kFollower, votedFor := -1 } else raft
    (raft.setState { raft.state with president := false }, [])
  else
    let votes := if raft.state.type = .kCandidate then raft.sendRequestForVotes else []
    if raft.state.type = .kLeader then
      let beats := raft.sendHeartbeat
      let raft := if !raft.state.president ∧ raft.voteCount opt true ≥ opt.quorum then
        raft.setState { raft.state with president := true } else raft
      (raft, votes ++ beats)
    else (raft, votes)

/-- `checkTerm`: a newer term makes the server a follower of it, except a president, which
takes the term and runs `electionTimeout`. -/
def checkTerm (opt : Options) (raft : URaft) (term : Nat) : URaft × List Message :=
  if term > raft.state.currentTerm then
    if raft.state.president then electionTimeout opt (raft.setState { raft.state with currentTerm := term })
    else (raft.setState { raft.state with type := .kFollower, votedFor := -1, currentTerm := term }, [])
  else (raft, [])

/-- `validPacket`: a known type of the right size, of no older term. -/
def validPacket (raft : URaft) (packet : Packet) : Bool :=
  let typed : Bool := match packet with
    | .request req => req.type = .kRpcAppendEntries ∨ req.type = .kRpcRequestVote
    | .response res => res.type = .kRpcAEResponse ∨ res.type = .kRpcRVResponse
  typed && decide (packet.term ≥ raft.state.currentTerm)

/-- `rpcAppend`: the sender is taken as leader and a loyalty agreement is signed with it. -/
def rpcAppend (raft : URaft) (id : Nat) (data : RpcRequest) : URaft × List Message :=
  let raft := if (id : Int) ≠ raft.state.leaderId then raft.setState { raft.state with dataVersion := raft.nodeGetVersion }
    else raft
  let res : RpcResponse := ⟨.kRpcAEResponse, raft.state.currentTerm, true, data.time, raft.state.dataVersion⟩
  let raft := raft.setState { raft.state with leaderId := id, loyaltyAgreement := true }
  (raft.setState { raft.state with type := .kFollower }, [⟨raft.state.id, id, .response res⟩])

/-- `rpcAppendResponse`: a leader notes when the server last answered. -/
def rpcAppendResponse (raft : URaft) (id : Nat) (data : RpcResponse) : URaft :=
  if raft.state.type ≠ .kLeader then raft
  else raft.setNode id ({ raft.nodeAt id with
    heartbeat := max (raft.nodeAt id).heartbeat data.reqTime, dataVersion := data.dataVersion,
    voteGranted := true, recv := true })

/-- `rpcReqVote`: a follower grants its vote to the leader it is loyal to, or, without a
loyalty agreement, to the first candidate of the term. -/
def rpcReqVote (raft : URaft) (id : Nat) (data : RpcRequest) : URaft × List Message :=
  let raft := if raft.state.votedFor < 0 then raft.setState { raft.state with dataVersion := raft.nodeGetVersion }
    else raft
  let s := raft.state
  let result := decide (s.type = .kFollower ∧ data.term ≥ s.currentTerm ∧ data.dataVersion ≥ s.dataVersion ∧
    ((s.loyaltyAgreement ∧ s.leaderId = id) ∨ (¬s.loyaltyAgreement ∧ (s.votedFor < 0 ∨ s.votedFor = id))))
  let res : RpcResponse := ⟨.kRpcRVResponse, s.currentTerm, result, data.time, s.dataVersion⟩
  let raft := if result then raft.setState { raft.state with votedFor := id } else raft
  (raft, [⟨s.id, id, .response res⟩])

/-- `rpcReqVoteResponse`: a candidate with a quorum of votes becomes leader. -/
def rpcReqVoteResponse (opt : Options) (raft : URaft) (id : Nat) (data : RpcResponse) : URaft × List Message :=
  if raft.state.type ≠ .kCandidate then (raft, [])
  else
    let raft := raft.setNode id { raft.nodeAt id with voteGranted := data.result, recv := true }
    if raft.voteCount opt false ≥ opt.quorum then
      let raft := raft.setState { raft.state with type := .kLeader, leaderId := raft.state.id }
      (raft, raft.sendHeartbeat)
    else (raft, [])

/-- `receivePacket` from server `src`: `checkTerm`, then the handler of the packet's type. -/
def receivePacket (opt : Options) (raft : URaft) (src : Nat) (packet : Packet) : URaft × List Message :=
  if src < raft.node.length ∧ raft.validPacket packet then
    let (raft, sent) := raft.checkTerm opt packet.term
    let (raft, sent') := match packet with
      | .request req => match req.type with
        | .kRpcAppendEntries => raft.rpcAppend src req
        | .kRpcRequestVote => raft.rpcReqVote src req
        | _ => (raft, [])
      | .response res => match res.type with
        | .kRpcAEResponse => (raft.rpcAppendResponse src res, [])
        | .kRpcRVResponse => raft.rpcReqVoteResponse opt src res
        | _ => (raft, [])
    (raft, sent ++ sent')
  else (raft, [])

/-- `demoteLeader`. -/
def demoteLeader (raft : URaft) : URaft :=
  if raft.state.type = .kFollower then raft
  else raft.setState { raft.state with type := .kFollower, votedFor := -1, leaderId := -1, president := false }

/-- `set_block_promotion`. -/
def setBlockPromotion (raft : URaft) (block : Bool) : URaft := { raft with blockLeaderPromotion := block }

/-- The timer of `signLoyaltyAgreement` going off. -/
def expireLoyalty (raft : URaft) : URaft := raft.setState { raft.state with loyaltyAgreement := false }

/-! ### What one server's handlers change -/

@[simp] theorem setState_state (raft : URaft) (state : RaftState) : (raft.setState state).state = state := rfl

@[simp] theorem setState_node (raft : URaft) (state : RaftState) : (raft.setState state).node = raft.node := rfl

@[simp] theorem setState_blockLeaderPromotion (raft : URaft) (state : RaftState) :
    (raft.setState state).blockLeaderPromotion = raft.blockLeaderPromotion := rfl

@[simp] theorem setNode_state (raft : URaft) (i : Nat) (info : NodeInfo) : (raft.setNode i info).state = raft.state := rfl

@[simp] theorem setNode_node_length (raft : URaft) (i : Nat) (info : NodeInfo) :
    (raft.setNode i info).node.length = raft.node.length := by
  simp [setNode]

theorem electionTimeout_node_length (opt : Options) (raft : URaft) :
    (electionTimeout opt raft).1.node.length = raft.node.length := by
  unfold electionTimeout
  split
  · rfl
  · dsimp only
    split <;> simp

theorem heartbeat_node_length (opt : Options) (raft : URaft) :
    (heartbeat opt raft).1.node.length = raft.node.length := by
  unfold heartbeat
  dsimp only
  split
  · split <;> simp
  · split
    · split <;> simp
    · simp

theorem checkTerm_node_length (opt : Options) (raft : URaft) (term : Nat) :
    (raft.checkTerm opt term).1.node.length = raft.node.length := by
  unfold checkTerm
  split
  · split
    · exact electionTimeout_node_length opt _
    · rfl
  · rfl

/-- A promotion-blocked president that hears of a newer term takes it and stays as it is. -/
theorem checkTerm_blocked_president {opt : Options} {raft : URaft} {term : Nat}
    (president : raft.state.president = true) (blocked : raft.blockLeaderPromotion = true)
    (newer : raft.state.currentTerm < term) :
    raft.checkTerm opt term = (raft.setState { raft.state with currentTerm := term }, []) := by
  simp [checkTerm, newer, president, electionTimeout, blocked]

theorem rpcAppend_node_length (raft : URaft) (id : Nat) (data : RpcRequest) :
    (raft.rpcAppend id data).1.node.length = raft.node.length := by
  unfold rpcAppend
  dsimp only
  split <;> rfl

theorem rpcAppendResponse_node_length (raft : URaft) (id : Nat) (data : RpcResponse) :
    (raft.rpcAppendResponse id data).node.length = raft.node.length := by
  unfold rpcAppendResponse
  split <;> simp

/-- `rpcReqVote` changes no server's role or term: a vote is only recorded. -/
theorem rpcReqVote_frame (raft : URaft) (id : Nat) (data : RpcRequest) :
    (raft.rpcReqVote id data).1.state.type = raft.state.type ∧
      (raft.rpcReqVote id data).1.state.currentTerm = raft.state.currentTerm ∧
      (raft.rpcReqVote id data).1.node = raft.node := by
  unfold rpcReqVote
  dsimp only
  split <;> split <;> simp

theorem rpcReqVoteResponse_node_length (opt : Options) (raft : URaft) (id : Nat) (data : RpcResponse) :
    (raft.rpcReqVoteResponse opt id data).1.node.length = raft.node.length := by
  unfold rpcReqVoteResponse
  split
  · rfl
  · dsimp only
    split <;> simp

theorem receivePacket_node_length (opt : Options) (raft : URaft) (src : Nat) (packet : Packet) :
    (raft.receivePacket opt src packet).1.node.length = raft.node.length := by
  unfold receivePacket
  split
  · -- the handler runs on the server as `checkTerm` left it
    have checked := checkTerm_node_length opt raft packet.term
    generalize raft.checkTerm opt packet.term = result at checked
    obtain ⟨checkedRaft, sent⟩ := result
    dsimp only at checked ⊢
    rw [← checked]
    cases packet with
    | request req =>
      dsimp only
      split
      · exact rpcAppend_node_length _ _ _
      · rw [(rpcReqVote_frame _ _ _).2.2]
      · rfl
    | response res =>
      dsimp only
      split
      · exact rpcAppendResponse_node_length _ _ _
      · exact rpcReqVoteResponse_node_length _ _ _ _
      · rfl
  · rfl

/-- A promotion-blocked president that receives a vote request of a newer term is left a
leader of that term. -/
theorem receivePacket_blocked_president (opt : Options) (raft : URaft) (src : Nat) (req : RpcRequest)
    (known : src < raft.node.length) (president : raft.state.president = true)
    (blocked : raft.blockLeaderPromotion = true) (vote : req.type = .kRpcRequestVote)
    (newer : raft.state.currentTerm < req.term) :
    (raft.receivePacket opt src (.request req)).1.state.type = raft.state.type ∧
      (raft.receivePacket opt src (.request req)).1.state.currentTerm = req.term := by
  have valid : raft.validPacket (.request req) = true := by
    simp [validPacket, vote, Packet.term]
    omega
  have checked := @checkTerm_blocked_president opt raft req.term president blocked newer
  unfold receivePacket
  simp only [known, valid, and_self, if_true, Packet.term, checked, vote]
  obtain ⟨type, term, -⟩ := rpcReqVote_frame (raft.setState { raft.state with currentTerm := req.term }) src req
  exact ⟨type, term⟩

/-! ### The cluster -/

/-- The servers, by index, and every packet sent so far. -/
structure Cluster where
  nodes : Nat → URaft
  sent : List Message

/-- The servers right after `init`, with nothing sent. -/
def Cluster.init (opt : Options) : Cluster := ⟨fun i => URaft.init opt i, []⟩

/-- Server `i` acts; what it sends goes on the wire. -/
def Cluster.act (c : Cluster) (i : Nat) (action : URaft → URaft × List Message) : Cluster :=
  let (raft, sent) := action (c.nodes i)
  ⟨fun j => if j = i then raft else c.nodes j, c.sent ++ sent⟩

/-- Server `m.dst` receives the packet `m`. -/
def Cluster.deliver (opt : Options) (c : Cluster) (m : Message) : Cluster :=
  c.act m.dst fun raft => raft.receivePacket opt m.src m.packet

/-- One event of a run on server `i`, one of the `servers`. -/
inductive Step (opt : Options) : Cluster → Cluster → Prop
  | receivePacket (c : Cluster) (m : Message) : m ∈ c.sent → m.dst < opt.servers → Step opt c (c.deliver opt m)
  | electionTimeout (c : Cluster) (i : Nat) : i < opt.servers → Step opt c (c.act i (electionTimeout opt))
  | heartbeat (c : Cluster) (i : Nat) : i < opt.servers → Step opt c (c.act i (heartbeat opt))
  | expireLoyalty (c : Cluster) (i : Nat) : i < opt.servers → Step opt c (c.act i fun raft => (raft.expireLoyalty, []))
  | demoteLeader (c : Cluster) (i : Nat) : i < opt.servers → Step opt c (c.act i fun raft => (raft.demoteLeader, []))
  | setBlockPromotion (c : Cluster) (i : Nat) (block : Bool) : i < opt.servers →
      Step opt c (c.act i fun raft => (raft.setBlockPromotion block, []))

inductive Reachable (opt : Options) : Cluster → Prop
  | init : Reachable opt (Cluster.init opt)
  | step {c c' : Cluster} : Reachable opt c → Step opt c c' → Reachable opt c'


theorem Cluster.act_nodes_self (c : Cluster) (i : Nat) (action : URaft → URaft × List Message) :
    (c.act i action).nodes i = (action (c.nodes i)).1 := by
  simp [Cluster.act]

theorem Cluster.act_nodes_ne (c : Cluster) {i j : Nat} (action : URaft → URaft × List Message) (other : j ≠ i) :
    (c.act i action).nodes j = c.nodes j := by
  simp [Cluster.act, other]

/-- An action that keeps the acting server's table size keeps every server's. -/
theorem Cluster.act_node_length (c : Cluster) (i : Nat) (action : URaft → URaft × List Message)
    (keeps : (action (c.nodes i)).1.node.length = (c.nodes i).node.length) (j : Nat) :
    ((c.act i action).nodes j).node.length = (c.nodes j).node.length := by
  by_cases same : j = i
  · subst same
    rw [Cluster.act_nodes_self, keeps]
  · rw [Cluster.act_nodes_ne c action same]

theorem Step.node_length {opt : Options} {c c' : Cluster} (step : Step opt c c') (j : Nat) :
    (c'.nodes j).node.length = (c.nodes j).node.length := by
  cases step with
  | receivePacket m _ _ => exact Cluster.act_node_length c _ _ (receivePacket_node_length _ _ _ _) j
  | electionTimeout i _ => exact Cluster.act_node_length c i _ (electionTimeout_node_length _ _) j
  | heartbeat i _ => exact Cluster.act_node_length c i _ (heartbeat_node_length _ _) j
  | expireLoyalty i _ => exact Cluster.act_node_length c i _ rfl j
  | demoteLeader i _ =>
    refine Cluster.act_node_length c i _ ?_ j
    unfold URaft.demoteLeader
    split <;> rfl
  | setBlockPromotion i _ _ => exact Cluster.act_node_length c i _ rfl j

/-- Along every run each server's table has one entry per server. -/
theorem Reachable.node_length {opt : Options} {c : Cluster} (reachable : Reachable opt c) (j : Nat) :
    (c.nodes j).node.length = opt.servers := by
  induction reachable with
  | init => simp [Cluster.init, URaft.init]
  | step _ step ih => rw [step.node_length, ih]

/-- In any run, a president whose promotion is blocked and that receives the vote request
of a leader of a newer term becomes a leader of that term beside it: the run goes on to a
state with two leaders of one term. -/
theorem blocked_president_joins_term (opt : Options) (c : Cluster) (i j : Nat) (req : RpcRequest)
    (reachable : Reachable opt c) (server : i < opt.servers) (peer : j < opt.servers) (distinct : i ≠ j)
    (president : (c.nodes i).state.president = true) (leader : (c.nodes i).state.type = .kLeader)
    (blocked : (c.nodes i).blockLeaderPromotion = true) (elected : (c.nodes j).state.type = .kLeader)
    (newer : (c.nodes i).state.currentTerm < (c.nodes j).state.currentTerm)
    (sent : ⟨j, i, .request req⟩ ∈ c.sent) (vote : req.type = .kRpcRequestVote)
    (term : req.term = (c.nodes j).state.currentTerm) :
    Reachable opt (c.deliver opt ⟨j, i, .request req⟩) ∧
      ((c.deliver opt ⟨j, i, .request req⟩).nodes i).state.type = .kLeader ∧
      ((c.deliver opt ⟨j, i, .request req⟩).nodes j).state.type = .kLeader ∧
      ((c.deliver opt ⟨j, i, .request req⟩).nodes i).state.currentTerm =
        ((c.deliver opt ⟨j, i, .request req⟩).nodes j).state.currentTerm := by
  have known : j < (c.nodes i).node.length := by
    rw [reachable.node_length i]
    exact peer
  obtain ⟨type, newTerm⟩ :=
    receivePacket_blocked_president opt (c.nodes i) j req known president blocked vote (term ▸ newer)
  -- only server `i` acts
  have self : (c.deliver opt ⟨j, i, .request req⟩).nodes i = ((c.nodes i).receivePacket opt j (.request req)).1 :=
    Cluster.act_nodes_self c i _
  have other : (c.deliver opt ⟨j, i, .request req⟩).nodes j = c.nodes j :=
    Cluster.act_nodes_ne c _ (Ne.symm distinct)
  refine ⟨reachable.step (.receivePacket c _ sent server), ?_, ?_, ?_⟩
  · rw [self, type, leader]
  · rw [other, elected]
  · rw [self, other, newTerm, term]


/-- Three servers with the default timings. -/
def threeServers : Options := ⟨3, 20, 300⟩

theorem blocked_president_joins_term_threeServers :
    ∃ c : Cluster, Reachable threeServers c ∧ (c.nodes 0).state.president = true ∧
      (c.nodes 0).state.type = .kLeader ∧ (c.nodes 0).blockLeaderPromotion = true ∧
      (c.nodes 2).state.type = .kLeader ∧ (c.nodes 0).state.currentTerm < (c.nodes 2).state.currentTerm ∧
      ⟨2, 0, .request ⟨.kRpcRequestVote, 2, 2, 16, 0⟩⟩ ∈ c.sent ∧ (c.nodes 2).state.currentTerm = 2 ∧
      (Reachable threeServers (c.deliver threeServers ⟨2, 0, .request ⟨.kRpcRequestVote, 2, 2, 16, 0⟩⟩) ∧
        ((c.deliver threeServers ⟨2, 0, .request ⟨.kRpcRequestVote, 2, 2, 16, 0⟩⟩).nodes 0).state.type = .kLeader ∧
        ((c.deliver threeServers ⟨2, 0, .request ⟨.kRpcRequestVote, 2, 2, 16, 0⟩⟩).nodes 2).state.type = .kLeader ∧
        ((c.deliver threeServers ⟨2, 0, .request ⟨.kRpcRequestVote, 2, 2, 16, 0⟩⟩).nodes 0).state.currentTerm =
          ((c.deliver threeServers ⟨2, 0, .request ⟨.kRpcRequestVote, 2, 2, 16, 0⟩⟩).nodes 2).state.currentTerm) := by
  -- server 0 is elected in term 1 with the vote of server 1 and becomes president
  have r1 := (@Reachable.init threeServers).step (.expireLoyalty _ 1 (by decide))
  have r2 := r1.step (.electionTimeout _ 0 (by decide))
  have r3 := r2.step (.receivePacket _ ⟨0, 1, .request ⟨.kRpcRequestVote, 1, 0, 16, 0⟩⟩ (by decide) (by decide))
  have r4 := r3.step (.receivePacket _ ⟨1, 0, .response ⟨.kRpcRVResponse, 1, true, 16, 0⟩⟩ (by decide) (by decide))
  have r5 := r4.step (.receivePacket _ ⟨0, 1, .request ⟨.kRpcAppendEntries, 1, 0, 16, 0⟩⟩ (by decide) (by decide))
  have r6 := r5.step (.receivePacket _ ⟨1, 0, .response ⟨.kRpcAEResponse, 1, true, 16, 0⟩⟩ (by decide) (by decide))
  have r7 := r6.step (.heartbeat _ 0 (by decide))
  -- its promotion is blocked; server 1's loyalty runs out and server 2 is elected in term 2
  have r8 := r7.step (.setBlockPromotion _ 0 true (by decide))
  have r9 := r8.step (.expireLoyalty _ 1 (by decide))
  have r10 := r9.step (.electionTimeout _ 2 (by decide))
  have r11 := r10.step (.electionTimeout _ 2 (by decide))
  have r12 := r11.step (.receivePacket _ ⟨2, 1, .request ⟨.kRpcRequestVote, 2, 2, 16, 0⟩⟩ (by decide) (by decide))
  have r13 := r12.step (.receivePacket _ ⟨1, 2, .response ⟨.kRpcRVResponse, 2, true, 16, 0⟩⟩ (by decide) (by decide))
  exact ⟨_, r13, by decide, by decide, by decide, by decide, by decide, by decide, by decide,
    blocked_president_joins_term threeServers _ 0 2 _ r13 (by decide) (by decide) (by decide) (by decide) (by decide)
      (by decide) (by decide) (by decide) (by decide) rfl (by decide)⟩

end URaft

end SaunaFS
