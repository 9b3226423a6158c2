import Sintr.Client.Queries

/-!
# Who speaks for a transaction

A client that validates the transactions of its peers gets five kinds of messages about them. Each
is authenticated with the session key of its sender, and names the transaction in its content.
-/

namespace Sintr.Client

/-! ## Messages -/

inductive PeerHandler where
  | beginValidateTxn
  | forwardReadResult
  | forwardPointQueryResult
  | forwardQueryResult
  | blindWrite

inductive PeerBody where
  | beginValidateTxn (ts : Version) (txnState : Bytes)
  | forwardReadResult (r : ForwardReadResult)
  | forwardPointQueryResult (r : ForwardReadResult)
  | forwardQueryResult (r : ForwardQueryResult)
  | blindWrite

structure PeerContent where
  clientId : UInt64
  clientSeqNum : UInt64
  body : PeerBody

/-- A message with HMACs, of which `hmac` is the one for this client. -/
structure HMACedMessage where
  data : Bytes
  processId : UInt64
  hmac : Bytes

structure PeerMessage where
  handler : PeerHandler
  plain : PeerContent
  signed : Option HMACedMessage := none

structure PeerEnv where
  clientId : UInt64
  numClients : UInt64
  signFwdReadResults : Bool
  parse : PeerHandler → Bytes → PeerContent
  verifyHMAC : Bytes → Bytes → Bytes → Bool
  /-- `CheckPreparedCommittedEvidence`, where it is asked for. -/
  evidence : PeerMessage → PeerContent → Bool

/-- What a client has been told about a transaction of a peer. -/
structure PeerTxn where
  validationQueue : List (Version × Bytes) := []
  reads : List ForwardReadResult := []
  pointQueries : List ForwardReadResult := []
  queries : List ForwardQueryResult := []
  blindWriteMessageCount : Nat := 0
  deriving DecidableEq

def PeerTxn.process (t : PeerTxn) : PeerBody → PeerTxn
  | .beginValidateTxn ts txnState =>
    { t with validationQueue := t.validationQueue ++ [(ts, txnState)] }
  | .forwardReadResult r => { t with reads := t.reads ++ [r] }
  | .forwardPointQueryResult r => { t with pointQueries := t.pointQueries ++ [r] }
  | .forwardQueryResult r => { t with queries := t.queries ++ [r] }
  | .blindWrite => { t with blindWriteMessageCount := t.blindWriteMessageCount + 1 }

structure Peers where
  allValTxnStates : UInt64 × UInt64 → PeerTxn := fun _ => {}
  crashed : Bool := false

/-! ## Handlers -/

section
variable (penv : PeerEnv)

def sessionKeys (i : UInt64) : Bytes :=
  let key (id : UInt64) := List.replicate 8 (id.toUInt8 + 0x30)
  if penv.clientId < i then key penv.clientId ++ key i else key i ++ key penv.clientId

def validateHMACedMessage (m : HMACedMessage) : Bool :=
  penv.verifyHMAC m.data m.hmac (sessionKeys penv (m.processId % penv.numClients))

def PeerMessage.content (msg : PeerMessage) : Option PeerContent :=
  if penv.signFwdReadResults then
    (msg.signed.filter (validateHMACedMessage penv)).map (penv.parse msg.handler ·.data)
  else some msg.plain

def handlePeerMessage (s : Peers) (msg : PeerMessage) : Peers :=
  if s.crashed then s
  else
    match msg.content penv with
    | none => s
    | some c =>
      if !penv.evidence msg c then { s with crashed := true }
      else
        let id := (c.clientId, c.clientSeqNum)
        { s with allValTxnStates :=
            Function.update s.allValTxnStates id ((s.allValTxnStates id).process c.body) }

def peerMachine : Machine Peers PeerMessage := ⟨handlePeerMessage penv⟩

def authenticatedBy (c : UInt64) (msg : PeerMessage) : Bool :=
  msg.signed.any fun m => penv.verifyHMAC m.data m.hmac (sessionKeys penv c)

def OfSender (msg : PeerMessage) : Prop :=
  ∀ m ∈ msg.signed,
    (penv.parse msg.handler m.data).clientId = m.processId % penv.numClients

end

variable {penv : PeerEnv} {c seq : UInt64} {s : Peers} {msg : PeerMessage}

theorem handlePeerMessage_other (hsign : penv.signFwdReadResults = true)
    (howner : OfSender penv msg) (hauth : authenticatedBy penv c msg = false) :
    (handlePeerMessage penv s msg).allValTxnStates (c, seq) = s.allValTxnStates (c, seq) := by
  unfold handlePeerMessage
  split
  · rfl
  · split
    · rfl
    · rename_i content hcontent
      split
      · rfl
      · simp only [PeerMessage.content, hsign, if_true, Option.map_eq_some_iff,
          Option.filter_eq_some_iff] at hcontent
        obtain ⟨m, ⟨hm, hvalid⟩, rfl⟩ := hcontent
        have hsender := howner m hm
        refine Function.update_of_ne (fun heq => ?_) ..
        -- the sender would be `c` itself
        have hc : c = m.processId % penv.numClients := (Prod.mk.inj heq).1.trans hsender
        simp only [authenticatedBy, hm, Option.any_some, hc] at hauth
        exact Bool.false_ne_true (hauth.symm.trans hvalid)

/-- **A transaction is its owner's.** If peers name their own transactions, only messages
authenticated with the key of `c` change what is known of a transaction of `c`. -/
theorem transaction_of_owner (hsign : penv.signFwdReadResults = true) (s : Peers)
    (es : List PeerMessage) (howner : ∀ msg ∈ es, OfSender penv msg) (c seq : UInt64) :
    (∀ before msg after, es = before ++ msg :: after →
      ((peerMachine penv).run s (before ++ [msg])).allValTxnStates (c, seq) ≠
        ((peerMachine penv).run s before).allValTxnStates (c, seq) →
      authenticatedBy penv c msg = true) ∧
    ((∀ msg ∈ es, authenticatedBy penv c msg = false) →
      ((peerMachine penv).run s es).allValTxnStates (c, seq) = s.allValTxnStates (c, seq)) := by
  constructor
  · rintro before msg after rfl hchange
    by_contra hauth
    rw [Machine.run_append] at hchange
    exact hchange (handlePeerMessage_other hsign (howner msg (by simp)) (by simpa using hauth))
  · intro hothers
    refine Machine.run_along
      (I := fun t : Peers => t.allValTxnStates (c, seq) = s.allValTxnStates (c, seq))
      (fun t msg hmsg ht => ?_) rfl
      (Machine.along_of_forall fun msg hmsg => And.intro (howner msg hmsg) (hothers msg hmsg))
    exact (handlePeerMessage_other hsign hmsg.1 hmsg.2).trans ht

def threeClients : PeerEnv where
  clientId := 0
  numClients := 3
  signFwdReadResults := true
  parse _ data := ⟨(data.headD 0).toUInt64, 5, .blindWrite⟩
  verifyHMAC data hmac key := hmac == key ++ data
  evidence _ _ := true

def blindWriteOf (sender owner : UInt64) : PeerMessage where
  handler := .blindWrite
  plain := ⟨owner, 5, .blindWrite⟩
  signed := some ⟨[owner.toUInt8], sender, sessionKeys threeClients sender ++ [owner.toUInt8]⟩

theorem transaction_of_other :
    authenticatedBy threeClients 1 (blindWriteOf 2 1) = false ∧
      ((peerMachine threeClients).run {} [blindWriteOf 2 1]).allValTxnStates (1, 5) ≠
        ({} : Peers).allValTxnStates (1, 5) := by
  decide +kernel

theorem transaction_of_owner_one :
    ((peerMachine threeClients).run {} [blindWriteOf 1 1]).allValTxnStates (2, 5) =
      ({} : Peers).allValTxnStates (2, 5) := by
  refine (transaction_of_owner rfl {} [blindWriteOf 1 1] ?_ 2 5).2 (by decide +kernel)
  unfold OfSender
  decide +kernel

end Sintr.Client
