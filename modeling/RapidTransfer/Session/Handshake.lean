/-
How two nodes connect: `makeConnectionIfNeeded` and `startListener` of `rapid_transfer.cpp`, `connect` and
`exchangeMetadata` of `session_manager.cpp`, over the virtual `Protocol`. The client prepares an endpoint and sends its
attributes; the server prepares an endpoint under a name of its own, sets it up with the attributes of the client and
answers with those of its endpoint; the client sets its endpoint up with the answer. The call may be lost on its way
there and back, the client may give up while it is on its way, and any of the verbs may fail.

There is any number of nodes, all of them clients and servers at the same time. A node has at most one thread at a time
for each peer name; the threads for different peers, the server and the other calls of the API interleave.
-/
import RapidTransfer.Session.Address
import RapidTransfer.Controller.Attributes
import RapidTransfer.Lib.Runs

namespace RapidTransfer.Handshake

open SessionManager

/-- What `RapidTransfer` calls of a `Protocol`, as far as connections are concerned; `δ` is what the device answers. A
`setupConnection` that throws is `none`. -/
structure Protocol (σ δ : Type) where
  prepareConnection : σ → String → δ → Int × Attributes × σ
  setupConnection : σ → String → Attributes → δ → Option (Int × σ)
  send : σ → String → δ → Int × σ
  receive : σ → String → δ → Int × σ

/-- `RapidTransfer` with its `SessionManager`. -/
structure Node (σ : Type) where
  protocol : σ
  sessions : Finset String
  uid : Nat
  listening : Bool

/-- A call of `exchangeMetadata`: the reply is there when the server has run it, and `some none` is `"<error>"`. -/
structure Call (ι : Type) where
  client : ι
  peer : String
  server : ι
  request : Attributes
  reply : Option (Option Attributes)

structure State (ι σ : Type) where
  node : ι → Node σ
  calls : List (Call ι)
  /-- the call that a thread for a peer waits for -/
  waiting : ι → String → Option Nat

/-- The name under which a server knows the client of a call. -/
def serverPeer (uid : Nat) : String := String.ofList (serverName uid)

namespace Node

variable {σ δ : Type} (P : Protocol σ δ)

/-- `makeConnectionIfNeeded` up to the call, with the request if there is one. Nothing happens for a multicast address,
for a peer that has a session, and where `isMulticastAddress` throws. -/
def makeConnectionIfNeeded (n : Node σ) (peer : String) (d : δ) : Option Attributes × Node σ :=
  if isMulticastAddress peer.toList = some false ∧ peer ∉ n.sessions then
    let (ret, request, protocol) := P.prepareConnection n.protocol peer d
    (if ret ≠ 0 then none else some request, { n with protocol := protocol })
  else (none, n)

/-- `exchangeMetadata` with `on_accept`. The server of the RPC library answers for a handler that throws. -/
def exchangeMetadata (n : Node σ) (request : Attributes) (d d' : δ) : Option Attributes × Node σ :=
  let peer := serverPeer n.uid
  let n := { n with uid := n.uid + 1 }
  let (ret, response, protocol) := P.prepareConnection n.protocol peer d
  if ret ≠ 0 then (none, { n with protocol := protocol })
  else
    match P.setupConnection protocol peer request d' with
    | none => (none, { n with protocol := protocol })
    | some (ret, protocol) => (if ret ≠ 0 then none else some response, { n with protocol := protocol })

/-- The rest of `connect` and of `makeConnectionIfNeeded`, after the reply. The session is there before the endpoint is
set up, and stays where `setupConnection` throws. -/
def connect (n : Node σ) (peer : String) (reply : Option Attributes) (d : δ) : Node σ :=
  match reply with
  | none => n
  | some response =>
    let n := { n with sessions := insert peer n.sessions }
    match P.setupConnection n.protocol peer response d with
    | none => n
    | some (ret, protocol) =>
      if ret ≠ 0 then { n with protocol := protocol, sessions := n.sessions.erase peer }
      else { n with protocol := protocol }

/-- `send` behind `makeConnectionIfNeeded`: a session whose `send` fails is given up. -/
def send (n : Node σ) (peer : String) (d : δ) : Node σ :=
  let (ret, protocol) := P.send n.protocol peer d
  if ret < 0 then { n with protocol := protocol, sessions := n.sessions.erase peer }
  else { n with protocol := protocol }

def receive (n : Node σ) (peer : String) (d : δ) : Node σ := { n with protocol := (P.receive n.protocol peer d).2 }

end Node

/-! ## The system -/

inductive Event (ι δ : Type)
  | startListener (i : ι)
  | shutdownListener (i : ι)
  | request (i : ι) (peer : String) (d : δ) (reached : Bool)
  | accept (k : Nat) (d d' : δ)
  | giveUp (i : ι) (peer : String)
  | finish (i : ι) (peer : String) (d : δ)
  | send (i : ι) (peer : String) (d : δ)
  | receive (i : ι) (peer : String) (d : δ)

section system

variable {ι σ δ : Type} [DecidableEq ι] (P : Protocol σ δ) (resolve : String → Option ι)

namespace State

def setNode (s : State ι σ) (i : ι) (n : Node σ) : State ι σ := { s with node := Function.update s.node i n }

theorem setNode_self (s : State ι σ) (i : ι) (n : Node σ) : (s.setNode i n).node i = n := Function.update_self ..

theorem setNode_of_ne (s : State ι σ) {i j : ι} (h : j ≠ i) (n : Node σ) : (s.setNode i n).node j = s.node j :=
  Function.update_of_ne h ..

def wait (s : State ι σ) (i : ι) (peer : String) (k : Option Nat) : State ι σ :=
  { s with waiting := Function.update s.waiting i (Function.update (s.waiting i) peer k) }

theorem wait_waiting (s : State ι σ) (i : ι) (peer : String) (k : Option Nat) (j : ι) (x : String) :
    (s.wait i peer k).waiting j x = if j = i ∧ x = peer then k else s.waiting j x := by
  unfold wait
  by_cases hj : j = i
  · subst hj
    by_cases hx : x = peer
    · subst hx
      simp
    · simp [hx]
  · simp [hj]

/-- The request is on its way if the peer can be reached. -/
def call (s : State ι σ) (i : ι) (peer : String) (request : Option Attributes) (reached : Bool) : State ι σ :=
  match request, resolve peer with
  | some request, some j =>
    if reached && (s.node j).listening then
      State.wait { s with calls := s.calls ++ [⟨i, peer, j, request, none⟩] } i peer (some s.calls.length)
    else s
  | _, _ => s

theorem call_node (s : State ι σ) (i : ι) (peer : String) (request : Option Attributes) (reached : Bool) :
    (s.call resolve i peer request reached).node = s.node := by
  unfold call
  split
  · split
    · rfl
    · rfl
  · rfl

end State

def step (s : State ι σ) : Event ι δ → Option (State ι σ)
  | .startListener i => some (s.setNode i { s.node i with listening := true })
  | .shutdownListener i => some (s.setNode i { s.node i with listening := false })
  | .request i peer d reached =>
    let (request, n) := (s.node i).makeConnectionIfNeeded P peer d
    some ((s.setNode i n).call resolve i peer request reached)
  | .accept k d d' =>
    match s.calls[k]? with
    | some ⟨i, peer, j, request, none⟩ =>
      if (s.node j).listening then
        let (reply, n) := (s.node j).exchangeMetadata P request d d'
        some { s.setNode j n with calls := s.calls.set k ⟨i, peer, j, request, some reply⟩ }
      else none
    | _ => none
  | .giveUp i peer => some (s.wait i peer none)
  | .finish i peer d =>
    match (s.waiting i peer).bind fun k => (s.calls[k]?).bind (·.reply) with
    | some reply => some ((s.setNode i ((s.node i).connect P peer reply d)).wait i peer none)
    | none => none
  | .send i peer d => some (s.setNode i ((s.node i).send P peer d))
  | .receive i peer d => some (s.setNode i ((s.node i).receive P peer d))

/-- One thread for each peer at a time, and `send` goes on only after `makeConnectionIfNeeded` has returned 0. -/
def ok (s : State ι σ) : Event ι δ → Prop
  | .request i peer _ _ => s.waiting i peer = none
  | .send i peer _ => s.waiting i peer = none ∧
      (isMulticastAddress peer.toList = some true ∨ peer ∈ (s.node i).sessions)
  | _ => True

instance (s : State ι σ) : ∀ e : Event ι δ, Decidable (ok s e)
  | .request i peer _ _ => inferInstanceAs (Decidable (s.waiting i peer = none))
  | .send i peer _ => inferInstanceAs (Decidable (s.waiting i peer = none ∧
      (isMulticastAddress peer.toList = some true ∨ peer ∈ (s.node i).sessions)))
  | .startListener _ => inferInstanceAs (Decidable True)
  | .shutdownListener _ => inferInstanceAs (Decidable True)
  | .accept .. => inferInstanceAs (Decidable True)
  | .giveUp .. => inferInstanceAs (Decidable True)
  | .finish .. => inferInstanceAs (Decidable True)
  | .receive .. => inferInstanceAs (Decidable True)

def start (protocol : ι → σ) : State ι σ := ⟨fun i => ⟨protocol i, ∅, 0, false⟩, [], fun _ _ => none⟩

end system

/-! ## What a protocol has to do -/

theorem serverPeer_injective : Function.Injective serverPeer := by
  intro m n h
  exact Text.decimal_injective (List.append_cancel_left (String.ofList_injective h))

/-- No client asks for a peer of a server's name. -/
theorem ne_serverPeer {peer : String} (h : isMulticastAddress peer.toList = some false) (uid : Nat) :
    peer ≠ serverPeer uid := by
  rintro rfl
  rw [serverPeer, String.toList_ofList, isMulticastAddress_serverName] at h
  cases h

/-- The endpoints of a protocol as the handshake sees them: their addresses, what they are connected to, which of them
were never set up, and the address that is in the attributes of one. -/
structure View (σ κ : Type) where
  own : σ → String → Option κ
  ConnectedTo : σ → String → κ → Prop
  Idle : σ → String → Prop
  read : Attributes → Option κ

namespace View

variable {σ κ : Type} (v : View σ κ)

/-- Endpoints are made, and keep their addresses; all names but those in `xs` are as they were. -/
structure Grows (xs : Set String) (s s' : σ) : Prop where
  own : ∀ x a, v.own s x = some a → v.own s' x = some a
  idle : ∀ x ∉ xs, v.Idle s x → v.Idle s' x
  connectedTo : ∀ x ∉ xs, v.ConnectedTo s' x = v.ConnectedTo s x

variable {v} {s s' s'' : σ} {xs : Set String}

theorem Grows.refl (xs : Set String) (s : σ) : v.Grows xs s s :=
  ⟨fun _ _ h => h, fun _ _ h => h, fun _ _ => rfl⟩

theorem Grows.trans (h : v.Grows xs s s') (h' : v.Grows xs s' s'') : v.Grows xs s s'' :=
  ⟨fun x a hx => h'.own x a (h.own x a hx), fun x hx hi => h'.idle x hx (h.idle x hx hi),
    fun x hx => (h'.connectedTo x hx).trans (h.connectedTo x hx)⟩

theorem Grows.mono {ys : Set String} (h : v.Grows xs s s') (hsub : xs ⊆ ys) : v.Grows ys s s' :=
  ⟨h.own, fun x hx => h.idle x fun hmem => hx (hsub hmem), fun x hx => h.connectedTo x fun hmem => hx (hsub hmem)⟩

end View

/-- What the handshake relies on: an endpoint that is prepared gives away its own address, and one that is set up with
the address of another is connected to it if nothing fails. -/
structure Lawful {σ δ κ : Type} (P : Protocol σ δ) (v : View σ κ) : Prop where
  prepare_grows (s : σ) (x : String) (d : δ) : v.Grows ∅ s (P.prepareConnection s x d).2.2
  prepare_read {s : σ} {x : String} {d : δ} : (P.prepareConnection s x d).1 = 0 →
    ∃ a, v.read (P.prepareConnection s x d).2.1 = some a ∧ v.own (P.prepareConnection s x d).2.2 x = some a
  setup {s : σ} {attrs : Attributes} {a : κ} : v.read attrs = some a → ∀ x d, ∃ ret s',
    P.setupConnection s x attrs d = some (ret, s') ∧ v.Grows {x} s s' ∧ (ret = 0 → v.ConnectedTo s' x a) ∧
      (ret ≠ 0 → v.Idle s x → v.Idle s' x)
  send_grows (s : σ) (x : String) (d : δ) : v.Grows ∅ s (P.send s x d).2
  receive_grows (s : σ) (x : String) (d : δ) : v.Grows ∅ s (P.receive s x d).2

/-! ## Agreement -/

section agreement

variable {ι σ δ κ : Type} {P : Protocol σ δ} {resolve : String → Option ι} {v : View σ κ} {f g : ι → Node σ}

/-- The endpoint of a server that has accepted a client at the address `a`. -/
structure Accepted (v : View σ κ) (node : ι → Node σ) (j : ι) (n : Nat) (a b : κ) : Prop where
  lt : n < (node j).uid
  own : v.own (node j).protocol (serverPeer n) = some b
  connectedTo : v.ConnectedTo (node j).protocol (serverPeer n) a

/-- A call carries the address of its client, and its reply that of an endpoint that is connected to it. -/
structure CallOk (resolve : String → Option ι) (v : View σ κ) (node : ι → Node σ) (c : Call ι) : Prop where
  name : isMulticastAddress c.peer.toList = some false
  server : resolve c.peer = some c.server
  request : ∃ a, v.read c.request = some a ∧ v.own (node c.client).protocol c.peer = some a ∧
    ∀ response, c.reply = some (some response) → ∃ n b, v.read response = some b ∧ Accepted v node c.server n a b

/-- The endpoint of a client and one of its server are connected to each other. -/
def Joined (resolve : String → Option ι) (v : View σ κ) (node : ι → Node σ) (i : ι) (peer : String) : Prop :=
  isMulticastAddress peer.toList = some false ∧ ∃ j n a b, resolve peer = some j ∧ Accepted v node j n a b ∧
    v.own (node i).protocol peer = some a ∧ v.ConnectedTo (node i).protocol peer b

/-- The endpoint of a server is connected to one that asked for it. -/
def Serves (resolve : String → Option ι) (v : View σ κ) (node : ι → Node σ) (q : σ) (j : ι) (n : Nat) : Prop :=
  ∃ a i peer, v.ConnectedTo q (serverPeer n) a ∧ resolve peer = some j ∧ v.own (node i).protocol peer = some a

structure Inv (resolve : String → Option ι) (v : View σ κ) (s : State ι σ) : Prop where
  calls : ∀ c ∈ s.calls, CallOk resolve v s.node c
  waiting : ∀ i peer k, s.waiting i peer = some k → ∃ c, s.calls[k]? = some c ∧ c.client = i ∧ c.peer = peer
  sessions : ∀ i, ∀ peer ∈ (s.node i).sessions, Joined resolve v s.node i peer
  idle : ∀ j n, (s.node j).uid ≤ n → v.Idle (s.node j).protocol (serverPeer n)
  served : ∀ j n, v.Idle (s.node j).protocol (serverPeer n) ∨ Serves resolve v s.node (s.node j).protocol j n

/-- What the steps of a node leave of it: addresses, and the endpoints of the clients it has accepted. -/
structure Later (v : View σ κ) (n n' : Node σ) : Prop where
  uid : n.uid ≤ n'.uid
  own : ∀ x a, v.own n.protocol x = some a → v.own n'.protocol x = some a
  accepted : ∀ m < n.uid, v.ConnectedTo n'.protocol (serverPeer m) = v.ConnectedTo n.protocol (serverPeer m)

theorem Later.refl (v : View σ κ) (n : Node σ) : Later v n n := ⟨le_rfl, fun _ _ h => h, fun _ _ => rfl⟩

theorem Accepted.later {j : ι} {n : Nat} {a b : κ} (h : Accepted v f j n a b) (hl : Later v (f j) (g j)) :
    Accepted v g j n a b :=
  ⟨h.lt.trans_le hl.uid, hl.own _ _ h.own, by rw [hl.accepted n h.lt]; exact h.connectedTo⟩

theorem CallOk.later {c : Call ι} (h : CallOk resolve v f c) (hl : ∀ j, Later v (f j) (g j)) :
    CallOk resolve v g c := by
  obtain ⟨a, hread, hown, hreply⟩ := h.request
  refine ⟨h.name, h.server, a, hread, (hl _).own _ _ hown, fun response hr => ?_⟩
  obtain ⟨n, b, hb, hacc⟩ := hreply response hr
  exact ⟨n, b, hb, hacc.later (hl _)⟩

theorem Joined.later {i : ι} {peer : String} (h : Joined resolve v f i peer) (hl : ∀ j, Later v (f j) (g j))
    (hc : v.ConnectedTo (g i).protocol peer = v.ConnectedTo (f i).protocol peer) : Joined resolve v g i peer := by
  obtain ⟨hname, j, n, a, b, hj, hacc, hown, hto⟩ := h
  exact ⟨hname, j, n, a, b, hj, hacc.later (hl j), (hl i).own _ _ hown, by rw [hc]; exact hto⟩

/-- The endpoints of the servers are as they were. -/
theorem Serves.congr {q q' : σ} {j : ι} {n : Nat} (h : Serves resolve v f q j n)
    (hto : v.ConnectedTo q' (serverPeer n) = v.ConnectedTo q (serverPeer n)) : Serves resolve v f q' j n := by
  obtain ⟨a, i, peer, ha, hpeer, hown⟩ := h
  exact ⟨a, i, peer, by rw [hto]; exact ha, hpeer, hown⟩

/-- The server has run a call. -/
theorem Inv.reply {s : State ι σ} (h : Inv resolve v s) {k : Nat} {c : Call ι} (hc : s.calls[k]? = some c) {a : κ}
    (ha : v.read c.request = some a) {reply : Option Attributes}
    (hreply : ∀ response ∈ reply, ∃ n b, v.read response = some b ∧ Accepted v s.node c.server n a b) :
    Inv resolve v { s with calls := s.calls.set k { c with reply := some reply } } := by
  have hold := h.calls c (List.mem_of_getElem? hc)
  have hnew : CallOk resolve v s.node { c with reply := some reply } := by
    obtain ⟨a', ha', hown, -⟩ := hold.request
    obtain rfl := Option.some.inj (ha.symm.trans ha')
    refine ⟨hold.name, hold.server, a, ha, hown, fun response hr => ?_⟩
    cases hr
    exact hreply response rfl
  refine ⟨fun c' hc' => ?_, fun i peer k' hk' => ?_, h.sessions, h.idle, h.served⟩
  · rcases List.mem_or_eq_of_mem_set hc' with hmem | rfl
    · exact h.calls c' hmem
    · exact hnew
  · obtain ⟨c', hc', hi, hp⟩ := h.waiting i peer k' hk'
    rw [List.getElem?_set]
    split
    · rename_i hkk
      subst hkk
      obtain rfl := Option.some.inj (hc.symm.trans hc')
      rw [if_pos (List.getElem?_eq_some_iff.1 hc).1]
      exact ⟨_, rfl, hi, hp⟩
    · exact ⟨c', hc', hi, hp⟩

theorem Inv.start {protocol : ι → σ} (hidle : ∀ i x, v.Idle (protocol i) x) : Inv resolve v (start protocol) :=
  ⟨fun c hc => (List.not_mem_nil hc).elim, fun i peer k hk => (by cases hk),
    fun i peer hp => absurd hp (Finset.notMem_empty peer), fun j n _ => hidle j _, fun j n => .inl (hidle j _)⟩

variable [DecidableEq ι] {s s' : State ι σ}

theorem Later.setNode {i : ι} {n : Node σ} (h : Later v (s.node i) n) (j : ι) :
    Later v (s.node j) ((s.setNode i n).node j) := by
  by_cases hj : j = i
  · subst hj
    rw [s.setNode_self]
    exact h
  · rw [s.setNode_of_ne hj]
    exact .refl v _

/-- One node changes. -/
theorem Inv.setNode (h : Inv resolve v s) {i : ι} {n : Node σ} (hl : Later v (s.node i) n)
    (hidle : ∀ m, n.uid ≤ m → v.Idle n.protocol (serverPeer m))
    (hsessions : ∀ peer ∈ n.sessions, peer ∈ (s.node i).sessions ∧
        v.ConnectedTo n.protocol peer = v.ConnectedTo (s.node i).protocol peer ∨
          Joined resolve v (s.setNode i n).node i peer)
    (hserved : ∀ m, v.Idle n.protocol (serverPeer m) ∨ Serves resolve v s.node n.protocol i m) :
    Inv resolve v (s.setNode i n) := by
  have hlater := hl.setNode
  refine ⟨fun c hc => (h.calls c hc).later hlater, h.waiting, fun j peer hp => ?_, fun j m hm => ?_, fun j m => ?_⟩
  · by_cases hj : j = i
    · subst hj
      rw [s.setNode_self] at hp
      rcases hsessions peer hp with ⟨hold, hc⟩ | hjoined
      · exact (h.sessions j peer hold).later hlater (by rw [s.setNode_self]; exact hc)
      · exact hjoined
    · rw [s.setNode_of_ne hj] at hp
      exact (h.sessions j peer hp).later hlater (by rw [s.setNode_of_ne hj])
  · by_cases hj : j = i
    · subst hj
      rw [s.setNode_self] at hm ⊢
      exact hidle m hm
    · rw [s.setNode_of_ne hj] at hm ⊢
      exact h.idle j m hm
  · have hserver : v.Idle ((s.setNode i n).node j).protocol (serverPeer m) ∨
        Serves resolve v s.node ((s.setNode i n).node j).protocol j m := by
      by_cases hj : j = i
      · subst hj
        rw [s.setNode_self]
        exact hserved m
      · rw [s.setNode_of_ne hj]
        exact h.served j m
    refine hserver.imp_right ?_
    rintro ⟨a, i', peer, ha, hpeer, hown⟩
    exact ⟨a, i', peer, ha, hpeer, (hlater i').own _ _ hown⟩

/-- A node makes endpoints and gives up sessions. -/
theorem Inv.grows (h : Inv resolve v s) {i : ι} {n : Node σ} (hg : v.Grows ∅ (s.node i).protocol n.protocol)
    (huid : n.uid = (s.node i).uid) (hsub : n.sessions ⊆ (s.node i).sessions) : Inv resolve v (s.setNode i n) := by
  have hto : ∀ x, v.ConnectedTo n.protocol x = v.ConnectedTo (s.node i).protocol x :=
    fun x => hg.connectedTo x (by simp)
  refine h.setNode ⟨huid.ge, hg.own, fun m _ => hto _⟩ (fun m hm => ?_)
    (fun peer hp => .inl ⟨hsub hp, hto peer⟩) fun m => ?_
  · exact hg.idle _ (by simp) (h.idle i m (huid ▸ hm))
  · exact (h.served i m).imp (hg.idle _ (by simp)) fun hs => hs.congr (hto _)

theorem Inv.giveUp (h : Inv resolve v s) (i : ι) (peer : String) : Inv resolve v (s.wait i peer none) := by
  refine ⟨h.calls, fun j p k hk => ?_, h.sessions, h.idle, h.served⟩
  rw [State.wait_waiting] at hk
  split at hk
  · cases hk
  · exact h.waiting j p k hk

/-- A request that carries the address of the client is sent. -/
theorem Inv.call (h : Inv resolve v s) {i : ι} {peer : String} {request : Option Attributes} (reached : Bool)
    (hname : request.isSome = true → isMulticastAddress peer.toList = some false)
    (hread : ∀ r ∈ request, ∃ a, v.read r = some a ∧ v.own (s.node i).protocol peer = some a) :
    Inv resolve v (s.call resolve i peer request reached) := by
  unfold State.call
  split
  · rename_i r j hj
    split
    · obtain ⟨a, ha, hown⟩ := hread r rfl
      have hnew : CallOk resolve v s.node ⟨i, peer, j, r, none⟩ :=
        ⟨hname rfl, hj, a, ha, hown, fun response hr => by cases hr⟩
      refine ⟨fun c hc => ?_, fun j' p k hk => ?_, h.sessions, h.idle, h.served⟩
      · rcases List.mem_append.1 hc with hc | hc
        · exact h.calls c hc
        · rw [List.mem_singleton.1 hc]
          exact hnew
      · rw [State.wait_waiting] at hk
        split at hk
        · rename_i heq
          cases hk
          exact ⟨_, List.getElem?_concat_length, heq.1.symm, heq.2.symm⟩
        · obtain ⟨c, hc, hci, hcp⟩ := h.waiting j' p k hk
          exact ⟨c, List.getElem?_append_left (List.getElem?_eq_some_iff.1 hc).1 ▸ hc, hci, hcp⟩
    · exact h
  · exact h

namespace Lawful

variable (n : Node σ)

theorem makeConnectionIfNeeded (hP : Lawful P v) (peer : String) (d : δ) :
    v.Grows ∅ n.protocol (n.makeConnectionIfNeeded P peer d).2.protocol ∧
      (n.makeConnectionIfNeeded P peer d).2.uid = n.uid ∧ (n.makeConnectionIfNeeded P peer d).2.sessions = n.sessions ∧
      ∀ r ∈ (n.makeConnectionIfNeeded P peer d).1, isMulticastAddress peer.toList = some false ∧
        ∃ a, v.read r = some a ∧ v.own (n.makeConnectionIfNeeded P peer d).2.protocol peer = some a := by
  unfold Node.makeConnectionIfNeeded
  split
  · rename_i hneeded
    refine ⟨hP.prepare_grows _ _ _, rfl, rfl, fun r hr => ⟨hneeded.1, ?_⟩⟩
    dsimp only at hr ⊢
    split at hr
    · cases hr
    · rename_i hret
      cases hr
      exact hP.prepare_read (not_not.1 hret)
  · exact ⟨.refl _ _, rfl, rfl, fun r hr => by cases hr⟩

/-- The server knows the client under a new name, and answers when its endpoint is connected to the client. -/
theorem exchangeMetadata (hP : Lawful P v) {request : Attributes} {a : κ} (ha : v.read request = some a)
    (hidle : v.Idle n.protocol (serverPeer n.uid)) {d d' : δ} {reply : Option Attributes} {n' : Node σ}
    (h : n.exchangeMetadata P request d d' = (reply, n')) :
    v.Grows {serverPeer n.uid} n.protocol n'.protocol ∧ n'.uid = n.uid + 1 ∧ n'.sessions = n.sessions ∧
      (v.Idle n'.protocol (serverPeer n.uid) ∨ v.ConnectedTo n'.protocol (serverPeer n.uid) a) ∧
      ∀ response ∈ reply, ∃ b, v.read response = some b ∧ v.own n'.protocol (serverPeer n.uid) = some b ∧
        v.ConnectedTo n'.protocol (serverPeer n.uid) a := by
  have hprep := hP.prepare_grows n.protocol (serverPeer n.uid) d
  have hidle' := hprep.idle _ (by simp) hidle
  unfold Node.exchangeMetadata at h
  dsimp only at h
  split at h
  · cases h
    exact ⟨hprep.mono (Set.empty_subset _), rfl, rfl, .inl hidle', fun response hr => by cases hr⟩
  · rename_i hret
    obtain ⟨b, hb, hown⟩ := hP.prepare_read (not_not.1 hret)
    obtain ⟨ret, q, hsetup, hgrows, hok, hfail⟩ :=
      hP.setup (s := (P.prepareConnection n.protocol (serverPeer n.uid) d).2.2) ha (serverPeer n.uid) d'
    rw [hsetup] at h
    cases h
    refine ⟨(hprep.mono (Set.empty_subset _)).trans hgrows, rfl, rfl, ?_, fun response hr => ?_⟩
    · by_cases hzero : ret = 0
      · exact .inr (hok hzero)
      · exact .inl (hfail hzero hidle')
    · split at hr
      · cases hr
      · rename_i hzero
        cases hr
        exact ⟨b, hb, hgrows.own _ _ hown, hok (not_not.1 hzero)⟩

/-- The client has a session when its endpoint is connected to the one that answered. -/
theorem connect (hP : Lawful P v) {response : Attributes} {b : κ} (hb : v.read response = some b) (peer : String)
    (d : δ) : v.Grows {peer} n.protocol (n.connect P peer (some response) d).protocol ∧
      (n.connect P peer (some response) d).uid = n.uid ∧
      ∀ x ∈ (n.connect P peer (some response) d).sessions, x ≠ peer ∧ x ∈ n.sessions ∨
        x = peer ∧ v.ConnectedTo (n.connect P peer (some response) d).protocol peer b := by
  obtain ⟨ret, q, hsetup, hgrows, hok, -⟩ := hP.setup (s := n.protocol) hb peer d
  unfold Node.connect
  dsimp only
  rw [hsetup]
  dsimp only
  split
  · refine ⟨hgrows, rfl, fun x hx => .inl ?_⟩
    rw [Finset.mem_erase, Finset.mem_insert] at hx
    exact ⟨hx.1, hx.2.resolve_left hx.1⟩
  · rename_i hzero
    refine ⟨hgrows, rfl, fun x hx => ?_⟩
    by_cases hpeer : x = peer
    · exact .inr ⟨hpeer, hok (not_not.1 hzero)⟩
    · exact .inl ⟨hpeer, (Finset.mem_insert.1 hx).resolve_left hpeer⟩

end Lawful

theorem Inv.accept (hP : Lawful P v) (h : Inv resolve v s) {k : Nat} {d d' : δ}
    (hs : step P resolve s (.accept k d d') = some s') : Inv resolve v s' := by
  unfold Handshake.step at hs
  dsimp only at hs
  split at hs
  · rename_i i peer j request hc
    split at hs
    · obtain ⟨reply, n', hx⟩ : ∃ reply n', (s.node j).exchangeMetadata P request d d' = (reply, n') := ⟨_, _, rfl⟩
      rw [hx] at hs
      cases hs
      have hcall := h.calls _ (List.mem_of_getElem? hc)
      obtain ⟨a, ha, hown, -⟩ := hcall.request
      obtain ⟨hgrows, huid, hsessions, honly, hreply⟩ := hP.exchangeMetadata (s.node j) ha (h.idle j _ le_rfl) hx
      -- the new name is that of no other endpoint
      have hnew : ∀ x, x ≠ serverPeer (s.node j).uid → x ∉ ({serverPeer (s.node j).uid} : Set String) := fun x hx => hx
      have hne : ∀ m, m ≠ (s.node j).uid → serverPeer m ≠ serverPeer (s.node j).uid := fun m hm heq =>
        hm (serverPeer_injective heq)
      have hnode : Inv resolve v (s.setNode j n') := by
        refine h.setNode ⟨by omega, hgrows.own, fun m hm => hgrows.connectedTo _ (hnew _ (hne m hm.ne))⟩
          (fun m hm => ?_) (fun p hp => .inl ?_) fun m => ?_
        · exact hgrows.idle _ (hnew _ (hne m (by omega))) (h.idle j m (by omega))
        · rw [hsessions] at hp
          obtain ⟨hname, -⟩ := h.sessions j p hp
          exact ⟨hp, hgrows.connectedTo _ (hnew _ (ne_serverPeer hname _))⟩
        · by_cases hm : m = (s.node j).uid
          · subst hm
            exact honly.imp_right fun hto => ⟨a, i, peer, hto, hcall.server, hown⟩
          · exact (h.served j m).imp (hgrows.idle _ (hnew _ (hne m hm))) fun hs =>
              hs.congr (hgrows.connectedTo _ (hnew _ (hne m hm)))
      refine hnode.reply (c := ⟨i, peer, j, request, none⟩) hc ha fun response hr => ?_
      obtain ⟨b, hb, hbown, hto⟩ := hreply response hr
      refine ⟨(s.node j).uid, b, hb, ?_⟩
      constructor
      · rw [s.setNode_self]
        omega
      · rw [s.setNode_self]
        exact hbown
      · rw [s.setNode_self]
        exact hto
    · cases hs
  · cases hs

theorem Inv.finish (hP : Lawful P v) (h : Inv resolve v s) {i : ι} {peer : String} {d : δ}
    (hs : step P resolve s (.finish i peer d) = some s') : Inv resolve v s' := by
  unfold Handshake.step at hs
  dsimp only at hs
  split at hs
  · rename_i reply hfound
    cases hs
    refine Inv.giveUp ?_ i peer
    obtain ⟨k, hk, hfound⟩ := Option.bind_eq_some_iff.1 hfound
    obtain ⟨c, hc, hreply⟩ := Option.bind_eq_some_iff.1 hfound
    obtain ⟨c', hc', rfl, rfl⟩ := h.waiting i peer k hk
    obtain rfl := Option.some.inj (hc.symm.trans hc')
    have hcall := h.calls c (List.mem_of_getElem? hc)
    obtain ⟨a, -, hown, hresponse⟩ := hcall.request
    cases reply with
    | none => exact h.grows (.refl _ _) rfl (Finset.Subset.refl _)
    | some response =>
      obtain ⟨n, b, hb, hacc⟩ := hresponse response hreply
      obtain ⟨hgrows, huid, hsessions⟩ := hP.connect (s.node c.client) hb c.peer d
      have hserver : ∀ m, serverPeer m ∉ ({c.peer} : Set String) := fun m heq => ne_serverPeer hcall.name m heq.symm
      have hl : Later v (s.node c.client) ((s.node c.client).connect P c.peer (some response) d) :=
        ⟨huid.ge, hgrows.own, fun m _ => hgrows.connectedTo _ (hserver m)⟩
      refine h.setNode hl (fun m hm => ?_) (fun x hx => ?_) fun m => ?_
      · exact hgrows.idle _ (hserver m) (h.idle _ m (huid ▸ hm))
      · rcases hsessions x hx with ⟨hne, hold⟩ | ⟨rfl, hto⟩
        · exact .inl ⟨hold, hgrows.connectedTo _ hne⟩
        · refine .inr ⟨hcall.name, c.server, n, a, b, hcall.server, hacc.later (hl.setNode _), ?_, ?_⟩
          · rw [s.setNode_self]
            exact hgrows.own _ _ hown
          · rw [s.setNode_self]
            exact hto
      · exact (h.served _ m).imp (hgrows.idle _ (hserver m)) fun hs => hs.congr (hgrows.connectedTo _ (hserver m))
  · cases hs

/-- Every step keeps the two sides in agreement. -/
theorem Inv.step (hP : Lawful P v) (h : Inv resolve v s) {e : Event ι δ} (hs : step P resolve s e = some s') :
    Inv resolve v s' := by
  cases e with
  | startListener i =>
    cases hs
    exact h.grows (.refl _ _) rfl (Finset.Subset.refl _)
  | shutdownListener i =>
    cases hs
    exact h.grows (.refl _ _) rfl (Finset.Subset.refl _)
  | request i peer d reached =>
    cases hs
    obtain ⟨hgrows, huid, hsessions, hread⟩ := hP.makeConnectionIfNeeded (s.node i) peer d
    refine (h.grows hgrows huid hsessions.subset).call reached (fun hr => ?_) fun r hr => ?_
    · obtain ⟨r, hr⟩ := Option.isSome_iff_exists.1 hr
      exact (hread r hr).1
    · rw [s.setNode_self]
      exact (hread r hr).2
  | accept k d d' => exact h.accept hP hs
  | giveUp i peer =>
    cases hs
    exact h.giveUp i peer
  | finish i peer d => exact h.finish hP hs
  | send i peer d =>
    cases hs
    unfold Node.send
    dsimp only
    split
    · exact h.grows (hP.send_grows _ _ _) rfl (Finset.erase_subset _ _)
    · exact h.grows (hP.send_grows _ _ _) rfl (Finset.Subset.refl _)
  | receive i peer d =>
    cases hs
    exact h.grows (hP.receive_grows _ _ _) rfl (Finset.Subset.refl _)

/-- In every run: the endpoint of a session and one of its server are connected to each other, and an endpoint of a
server is idle or connected to one that asked for it. -/
theorem Inv.run (hP : Lawful P v) {protocol : ι → σ} (hidle : ∀ i x, v.Idle (protocol i) x) {es : List (Event ι δ)}
    (hrun : Runs.Run (Handshake.step P resolve) ok (Handshake.start protocol) es s) : Inv resolve v s :=
  hrun.invariant (.start hidle) fun _ _ _ h _ hs => h.step hP hs

/-- A property that every call of the protocol keeps. -/
structure Kept (P : Protocol σ δ) (Q : σ → Prop) : Prop where
  prepare (q : σ) (x : String) (d : δ) : Q q → Q (P.prepareConnection q x d).2.2
  setup (q : σ) (x : String) (attrs : Attributes) (d : δ) : Q q → ∀ r ∈ P.setupConnection q x attrs d, Q r.2
  send (q : σ) (x : String) (d : δ) : Q q → Q (P.send q x d).2
  receive (q : σ) (x : String) (d : δ) : Q q → Q (P.receive q x d).2

namespace Kept

variable {Q : σ → Prop} {n : Node σ}

theorem makeConnectionIfNeeded (hP : Kept P Q) (h : Q n.protocol) (peer : String) (d : δ) :
    Q (n.makeConnectionIfNeeded P peer d).2.protocol := by
  unfold Node.makeConnectionIfNeeded
  split
  · exact hP.prepare _ _ _ h
  · exact h

theorem exchangeMetadata (hP : Kept P Q) (h : Q n.protocol) (request : Attributes) (d d' : δ) :
    Q (n.exchangeMetadata P request d d').2.protocol := by
  have hprep := hP.prepare n.protocol (serverPeer n.uid) d h
  unfold Node.exchangeMetadata
  dsimp only
  split
  · exact hprep
  · split
    · exact hprep
    · rename_i hsetup
      exact hP.setup _ _ _ _ hprep _ hsetup

theorem connect (hP : Kept P Q) (h : Q n.protocol) (peer : String) (reply : Option Attributes) (d : δ) :
    Q (n.connect P peer reply d).protocol := by
  unfold Node.connect
  split
  · exact h
  · dsimp only
    split
    · exact h
    · rename_i hsetup
      split
      · exact hP.setup _ _ _ _ h _ hsetup
      · exact hP.setup _ _ _ _ h _ hsetup

variable {R : ι → σ → Prop}

theorem setNode (h : ∀ i, R i (s.node i).protocol) {i : ι} (hn : R i n.protocol) (j : ι) :
    R j ((s.setNode i n).node j).protocol := by
  by_cases hj : j = i
  · subst hj
    rw [s.setNode_self]
    exact hn
  · rw [s.setNode_of_ne hj]
    exact h j

/-- Every node has a property of its own, and its protocol keeps it. -/
theorem step (hP : ∀ i, Kept P (R i)) (h : ∀ i, R i (s.node i).protocol) {e : Event ι δ}
    (hs : Handshake.step P resolve s e = some s') (i : ι) : R i (s'.node i).protocol := by
  cases e with
  | startListener j =>
    cases hs
    exact setNode (n := { s.node j with listening := true }) h (h j) i
  | shutdownListener j =>
    cases hs
    exact setNode (n := { s.node j with listening := false }) h (h j) i
  | request j peer d reached =>
    cases hs
    rw [State.call_node]
    exact setNode h ((hP j).makeConnectionIfNeeded (h j) peer d) i
  | accept k d d' =>
    unfold Handshake.step at hs
    dsimp only at hs
    split at hs
    · split at hs
      · cases hs
        exact setNode h ((hP _).exchangeMetadata (h _) _ d d') i
      · cases hs
    · cases hs
  | giveUp j peer =>
    cases hs
    exact h i
  | finish j peer d =>
    unfold Handshake.step at hs
    dsimp only at hs
    split at hs
    · cases hs
      exact setNode h ((hP j).connect (h j) peer _ d) i
    · cases hs
  | send j peer d =>
    cases hs
    have hsend : R j ((s.node j).send P peer d).protocol := by
      unfold Node.send
      dsimp only
      split
      · exact (hP j).send _ _ _ (h j)
      · exact (hP j).send _ _ _ (h j)
    exact setNode h hsend i
  | receive j peer d =>
    cases hs
    exact setNode (n := (s.node j).receive P peer d) h ((hP j).receive _ _ _ (h j)) i

theorem run (hP : ∀ i, Kept P (R i)) {protocol : ι → σ} (h0 : ∀ i, R i (protocol i)) {es : List (Event ι δ)}
    (hrun : Runs.Run (Handshake.step P resolve) ok (start protocol) es s) (i : ι) : R i (s.node i).protocol :=
  hrun.invariant (P := fun s => ∀ i, R i (s.node i).protocol) h0 (fun _ _ _ h _ hs => step hP h hs) i

end Kept

end agreement

end RapidTransfer.Handshake
