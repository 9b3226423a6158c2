import Sintr.Cert.Soundness
import Sintr.Lib.BallotBox
import Sintr.Lib.Machine
import Sintr.Lib.Updates
import Sintr.Shard.Messages

/-!
# Phase2 replies at a shard client

A shard client waits for `4 f + 1` replies of the logging group with the same decision and view,
and hands their signatures to the coordinator, who puts them into a writeback. Replies to a
transaction of its own are counted by `HandlePhase2Reply` (without proofs) or
`HandlePhase2Reply_MultiView`, those to a fallback by `ProcessP2FBR`.

None of the three looks at the digest and the group that the signed decision names, and only the
second asks for a view before it counts.
-/

namespace Sintr.Shard

open Quorum List Option Function

/-! ## State -/

structure Phase2Reply where
  reqId : UInt64
  signedP2Decision : Option SignedMessage := none
  deriving DecidableEq, Repr

/-- Signatures sorted by `β`, with the replicas that were counted. -/
abbrev Tally (β : Type) := Box β ProcessId Signature

/-- A transaction that waits for replies (`PendingPhase2`). The fields are those of the callback and
of the two handlers. -/
structure PendingPhase2 where
  txn : Transaction
  txnDigest : Digest
  decision : CommitDecision
  replies : Tally Unit := {}
  matchingReplies : Nat := 0
  /-- `manage_p2ReplySigs`: by view. -/
  viewReplies : UInt64 → Tally CommitDecision := fun _ => {}

structure FBTally where
  replies : Tally Unit := {}
  matchingReplies : Nat := 0

/-- A fallback (`PendingFB`), as far as it is about Phase2 replies. -/
structure PendingFB where
  txn : Transaction
  maxDecisionView : UInt64 := 0
  pendingP2s : UInt64 → CommitDecision → FBTally := fun _ _ => {}
  p2Replies : CommitDecision → List Phase2Reply := fun _ => []
  processIds : List ProcessId := []
  p1 : Bool := true
  lastView : UInt64 := 0
  conflictView : UInt64 := 0

/-- A decision with its signatures, as the coordinator gets it. -/
structure HandOver where
  txn : Transaction
  txnDigest : Digest
  decision : CommitDecision
  view : UInt64
  sigs : List Signature

/-- The pending Phase2 rounds and fallbacks. -/
structure State where
  lastReqId : UInt64 := 0
  pendingPhase2s : UInt64 → Option PendingPhase2 := fun _ => none
  pendingFallbacks : Digest → Option PendingFB := fun _ => none
  handed : List HandOver := []
  panicked : Bool := false

namespace State

variable (s : State)

def setPhase2 (reqId : UInt64) (p : Option PendingPhase2) : State :=
  { s with pendingPhase2s := Function.update s.pendingPhase2s reqId p }

def setFallback (d : Digest) (fb : Option PendingFB) : State :=
  { s with pendingFallbacks := Function.update s.pendingFallbacks d fb }

def hand (h : HandOver) : State := { s with handed := s.handed ++ [h] }

end State

/-! ## Handlers -/

section
variable (S : ShardEnv)

/-- `HandlePhase2Reply`. A replica counts as verified before its signature is looked at, and every
signature is kept, whatever decision it is for. -/
def handlePhase2Reply (r : Phase2Reply) (s : State) : State :=
  match s.pendingPhase2s r.reqId, r.signedP2Decision with
  | some p, some m =>
    if m.processId ∈ p.replies.seen then s
    else
      match S.authenticate S.parseP2Decision m with
      | none => s.setPhase2 r.reqId (some { p with replies := p.replies.see m.processId })
      | some p2 =>
        let p := { p with replies := p.replies.cast m.processId () (signatureOf m) }
        match p2.view with
        | none => s.setPhase2 r.reqId (some p)
        | some view =>
          if view ≠ 0 then { s with panicked := true }
          else
            let p := if p2.decision = p.decision then
              { p with matchingReplies := p.matchingReplies + 1 } else p
            if S.env.config.quorumSize ≤ p.matchingReplies then
              (s.hand ⟨p.txn, p.txnDigest, p.decision, 0, p.replies.ballots ()⟩).setPhase2 r.reqId
                none
            else s.setPhase2 r.reqId (some p)
  | _, _ => s

def handlePhase2ReplyMultiView (r : Phase2Reply) (s : State) : State :=
  match s.pendingPhase2s r.reqId, r.signedP2Decision with
  | some p, some m =>
    match S.authenticate S.parseP2Decision m with
    | some { decision, view := some view, .. } =>
      if m.processId ∈ (p.viewReplies view).seen then s
      else
        let viewP2RS := (p.viewReplies view).cast m.processId decision (signatureOf m)
        if S.env.config.quorumSize ≤ (viewP2RS.ballots decision).length then
          (s.hand ⟨p.txn, p.txnDigest, decision, view, viewP2RS.ballots decision⟩).setPhase2 r.reqId
            none
        else s.setPhase2 r.reqId
          (some { p with viewReplies := Function.update p.viewReplies view viewP2RS })
    | _ => s
  | _, _ => s

namespace PendingFB

variable (fb : PendingFB)

/-- A reply is counted for its view and decision, and `f + 1` replies move the current view on. -/
def count (f : Nat) (view : UInt64) (decision : CommitDecision) (sig : Signature) : PendingFB :=
  let t := fb.pendingP2s view decision
  let t := { t with
    replies := t.replies.cast sig.processId () sig
    matchingReplies := t.matchingReplies + 1 }
  { fb with
    pendingP2s := Function.update fb.pendingP2s view
      (Function.update (fb.pendingP2s view) decision t)
    maxDecisionView := if f < t.matchingReplies ∧ fb.maxDecisionView < view then view
      else fb.maxDecisionView }

/-- The first `f + 1` replies with one decision, in any views, end Phase1 and go to the client;
whether that has just happened is the second part. -/
def forward (f : Nat) (decision : CommitDecision) (id : ProcessId) (r : Phase2Reply) :
    PendingFB × Bool :=
  if !fb.p1 then (fb, false)
  else
    let fb := if id ∈ fb.processIds then fb else
      { fb with
        processIds := id :: fb.processIds
        p2Replies := Function.update fb.p2Replies decision (fb.p2Replies decision ++ [r]) }
    if (fb.p2Replies decision).length = f + 1 then ({ fb with p1 := false }, true) else (fb, false)

def Diverges (f : Nat) (view : UInt64) : Prop :=
  fb.maxDecisionView = view ∧ f + 1 ≤ (fb.pendingP2s view .commit).matchingReplies ∧
    f + 1 ≤ (fb.pendingP2s view .abort).matchingReplies
deriving Decidable

/-- Decisions that differ end Phase1; whether a leader has to be elected for it is the second
part. -/
def detect (f : Nat) (view : UInt64) : PendingFB × Bool :=
  if fb.Diverges f view then
    ({ fb with p1 := false, conflictView := view }, fb.lastView < view + 1)
  else (fb, false)

/-- Views that can get no quorum any more are dropped. -/
def dropOld : PendingFB :=
  { fb with pendingP2s := fun view =>
      if view + 1 < fb.maxDecisionView then fun _ => {} else fb.pendingP2s view }

end PendingFB

/-- `ProcessP2FBR`. The callbacks return false if the client has dropped the fallback (`active`);
the one that takes the signatures makes an active client write back, which removes it. -/
def processP2FBR (r : Phase2Reply) (d : Digest) (active : Bool) (s : State) : State :=
  match s.pendingFallbacks d, r.signedP2Decision with
  | some fb, some m =>
    match S.authenticate S.parseP2Decision m with
    | none => s
    | some p2 =>
      let view := p2.view.getD 0
      let t := fb.pendingP2s view p2.decision
      if view + 1 < fb.maxDecisionView then s
      else if m.processId ∈ t.replies.seen then s
      else
        let fb₁ := fb.count S.env.config.f view p2.decision (signatureOf m)
        let t := fb₁.pendingP2s view p2.decision
        if t.matchingReplies = S.env.config.quorumSize then
          (s.hand ⟨fb.txn, d, p2.decision, view, t.replies.ballots ()⟩).setFallback d
            (if active then none else some fb₁)
        else
          let (fb₂, forwarded) := fb₁.forward S.env.config.f p2.decision m.processId r
          if forwarded && !active then s.setFallback d (some fb₂)
          else
            let (fb₃, invoked) := fb₂.detect S.env.config.f view
            if invoked && !active then s.setFallback d (some fb₃)
            else s.setFallback d
              (some (if fb.maxDecisionView < fb₃.maxDecisionView then fb₃.dropOld else fb₃))
  | _, _ => s

/-! ## Runs -/

inductive Event where
  /-- `Phase2`, which a client calls at the shard client of the logging group. -/
  | phase2 (txn : Transaction) (txnDigest : Digest) (decision : CommitDecision)
  | timeout (reqId : UInt64)
  | phase2Reply (r : Phase2Reply)
  | phase2ReplyMultiView (r : Phase2Reply)
  /-- `Phase1FB`, which a client calls at every involved group. -/
  | phase1FB (txn : Transaction) (txnDigest : Digest)
  | p2FBReply (txnDigest : Digest) (r : Phase2Reply) (active : Bool)
  | stopP1FB (txnDigest : Digest)
  | cleanFB (txnDigest : Digest)
  | invokedFB (txnDigest : Digest) (view : UInt64)

def step (s : State) : Event → State
  | .phase2 txn d decision =>
    if getLogGroup txn d = some S.group then
      { s.setPhase2 s.lastReqId (some { txn, txnDigest := d, decision }) with
        lastReqId := s.lastReqId + 1 }
    else s
  | .timeout reqId => s.setPhase2 reqId none
  | .phase2Reply r => handlePhase2Reply S r s
  | .phase2ReplyMultiView r => handlePhase2ReplyMultiView S r s
  | .phase1FB txn d => s.setFallback d (some { txn })
  | .p2FBReply d r active => processP2FBR S r d active s
  | .stopP1FB d => s.setFallback d ((s.pendingFallbacks d).map ({ · with p1 := false }))
  | .cleanFB d => s.setFallback d none
  | .invokedFB d view => s.setFallback d ((s.pendingFallbacks d).map ({ · with lastView := view }))

def machine : Machine State Event where
  step s e := if s.panicked then s else step S s e

end

/-! ## Certificates -/

section
variable (S : ShardEnv)

def Good (txn : Transaction) (d : Digest) (decision : CommitDecision) (view : UInt64)
    (sig : Signature) : Prop :=
  ∃ lg, getLogGroup txn d = some lg ∧ S.env.config.InGroup sig.processId lg ∧
    S.env.verify sig.processId (.p2Decision decision d (some lg) (some view)) sig.signature = true

/-- The signatures show that a quorum of the logging group has logged the decision in the view, and
`ValidateP2Replies` accepts them. -/
def Certified (h : HandOver) : Prop :=
  (∃ lg, getLogGroup h.txn h.txnDigest = some lg ∧
    SignedBy S.env S.env.config.quorumSize
      (.p2Decision h.decision h.txnDigest (some lg) (some h.view)) lg h.sigs) ∧
  validateP2Replies S.env h.decision h.view h.txn h.txnDigest [(S.group, h.sigs)] none = .accept

def About (txn : Transaction) (d : Digest) (m : SignedMessage) : Prop :=
  ∃ lg decision view, getLogGroup txn d = some lg ∧ S.env.config.InGroup m.processId lg ∧
    m.data = S.data (.p2Decision decision d (some lg) (some view))

/-- Each reply that passes the checks is about the transaction that it is counted for, and with
`HandlePhase2Reply` it is for the decision that is asked for. -/
def Genuine (s : State) : Event → Prop
  | .phase2Reply r => ∀ p m p2, s.pendingPhase2s r.reqId = some p → r.signedP2Decision = some m →
      S.authenticate S.parseP2Decision m = some p2 →
      About S p.txn p.txnDigest m ∧ p2.decision = p.decision
  | .phase2ReplyMultiView r => ∀ p m p2, s.pendingPhase2s r.reqId = some p →
      r.signedP2Decision = some m → S.authenticate S.parseP2Decision m = some p2 →
      About S p.txn p.txnDigest m
  | .p2FBReply d r _ => ∀ fb m p2, s.pendingFallbacks d = some fb → r.signedP2Decision = some m →
      S.authenticate S.parseP2Decision m = some p2 → About S fb.txn d m
  | _ => True

def Counted (txn : Transaction) (d : Digest) (decision : CommitDecision) (view : UInt64)
    (t : FBTally) : Prop :=
  t.replies.Holds (·.processId) (fun _ => Good S txn d decision view) ∧
    (t.replies.ballots ()).length = t.matchingReplies

structure PendingPhase2.Inv (p : PendingPhase2) : Prop where
  replies : Counted S p.txn p.txnDigest p.decision 0 ⟨p.replies, p.matchingReplies⟩
  few : p.matchingReplies < S.env.config.quorumSize
  views : ∀ view, (p.viewReplies view).Holds (·.processId)
    fun decision => Good S p.txn p.txnDigest decision view
  viewFew : ∀ view decision,
    ((p.viewReplies view).ballots decision).length < S.env.config.quorumSize

def PendingFB.Inv (d : Digest) (fb : PendingFB) : Prop :=
  ∀ view decision, Counted S fb.txn d decision view (fb.pendingP2s view decision)

structure Inv (s : State) : Prop where
  phase2s : ∀ reqId p, s.pendingPhase2s reqId = some p → p.Inv S
  fallbacks : ∀ d fb, s.pendingFallbacks d = some fb → fb.Inv S d
  handed : ∀ h ∈ s.handed, Certified S h

end

variable {S : ShardEnv} {s : State} {h : HandOver}

/-! ## Signatures -/

theorem certified_of_good (hlen : h.sigs.length = S.env.config.quorumSize)
    (hnd : (h.sigs.map (·.processId)).Nodup)
    (hgood : ∀ sig ∈ h.sigs, Good S h.txn h.txnDigest h.decision h.view sig) : Certified S h := by
  have hpos : 0 < h.sigs.length := hlen ▸ quorumSize_pos _
  obtain ⟨lg, hlg, -, -⟩ := hgood _ (getElem_mem hpos)
  have hsigned : ∀ sig ∈ h.sigs, S.env.config.InGroup sig.processId lg ∧
      S.env.verify sig.processId (.p2Decision h.decision h.txnDigest (some lg) (some h.view))
        sig.signature = true := by
    intro sig hsig
    obtain ⟨lg', hlg', hin, hver⟩ := hgood sig hsig
    cases hlg.symm.trans hlg'
    exact ⟨hin, hver⟩
  refine ⟨⟨lg, hlg, h.sigs, List.Sublist.refl _, hlen, hnd, hsigned⟩, ?_⟩
  rw [validateP2Replies_accept_iff hlg]
  refine ⟨hlen, hnd, fun sig hsig => ⟨rfl, ?_⟩⟩
  rw [Ballot.ok, Bool.or_eq_true]
  exact .inr (hsigned sig hsig).2

variable {txn : Transaction} {view : UInt64} {decision : CommitDecision} {m : SignedMessage}

theorem good_of_about {d : Digest} {p2 : P2Decision} (habout : About S txn d m)
    (hauth : S.authenticate S.parseP2Decision m = some p2) :
    ∃ view, p2.view = some view ∧ Good S txn d p2.decision view (signatureOf m) := by
  obtain ⟨lg, decision, view, hlg, hin, hdata⟩ := habout
  obtain ⟨rfl, hver⟩ := ShardEnv.verify_of_authenticate hauth hdata (S.parse_p2Decision ..)
  exact ⟨view, rfl, lg, hlg, hin, hver⟩

theorem Counted.empty {d : Digest} : Counted S txn d decision view {} :=
  ⟨Box.Holds.empty, rfl⟩

theorem Counted.cast {d : Digest} {t : FBTally} {sig : Signature}
    (h : Counted S txn d decision view t) (hnew : sig.processId ∉ t.replies.seen)
    (hgood : Good S txn d decision view sig) :
    Counted S txn d decision view
      ⟨t.replies.cast sig.processId () sig, t.matchingReplies + 1⟩ := by
  refine ⟨h.1.cast hnew hgood, ?_⟩
  rw [Box.cast_ballots_self, length_append, h.2]
  rfl

theorem Counted.certified {t : FBTally} (hcount : Counted S h.txn h.txnDigest h.decision h.view t)
    (hsigs : h.sigs = t.replies.ballots ()) (hfull : t.matchingReplies = S.env.config.quorumSize) :
    Certified S h := by
  apply certified_of_good
  · rw [hsigs, hcount.2, hfull]
  · rw [hsigs]
    exact hcount.1.nodup ()
  · rw [hsigs]
    exact hcount.1.good ()

theorem PendingPhase2.Inv.setView {p : PendingPhase2} (h : p.Inv S) {t : Tally CommitDecision}
    (ht : t.Holds (·.processId) fun decision => Good S p.txn p.txnDigest decision view)
    (hfew : ∀ decision, (t.ballots decision).length < S.env.config.quorumSize) :
    PendingPhase2.Inv S { p with viewReplies := update p.viewReplies view t } where
  replies := h.replies
  few := h.few
  views := (forall_update_iff p.viewReplies fun v (t : Tally CommitDecision) =>
    t.Holds (·.processId) fun decision => Good S p.txn p.txnDigest decision v).2
      ⟨ht, fun v _ => h.views v⟩
  viewFew := (forall_update_iff p.viewReplies fun _ (t : Tally CommitDecision) =>
    ∀ decision, (t.ballots decision).length < S.env.config.quorumSize).2
      ⟨hfew, fun v _ => h.viewFew v⟩

namespace PendingFB

variable {fb : PendingFB} {d : Digest}

theorem Inv.count (h : fb.Inv S d) {f : Nat} {view : UInt64} {decision : CommitDecision}
    {sig : Signature} (hnew : sig.processId ∉ (fb.pendingP2s view decision).replies.seen)
    (hgood : Good S fb.txn d decision view sig) : (fb.count f view decision sig).Inv S d := by
  have hcount := (h view decision).cast hnew hgood
  apply (forall_update_iff fb.pendingP2s fun v ts =>
    ∀ decision, Counted S fb.txn d decision v (ts decision)).2
  refine ⟨?_, fun v _ => h v⟩
  exact (forall_update_iff (fb.pendingP2s view) fun decision t =>
    Counted S fb.txn d decision view t).2 ⟨hcount, fun dec _ => h view dec⟩

theorem forward_frame (fb : PendingFB) (f : Nat) (decision : CommitDecision) (id : ProcessId)
    (r : Phase2Reply) :
    (fb.forward f decision id r).1.txn = fb.txn ∧
      (fb.forward f decision id r).1.pendingP2s = fb.pendingP2s := by
  unfold forward
  dsimp only
  split_ifs <;> exact ⟨rfl, rfl⟩

theorem detect_frame (fb : PendingFB) (f : Nat) (view : UInt64) :
    (fb.detect f view).1.txn = fb.txn ∧ (fb.detect f view).1.pendingP2s = fb.pendingP2s := by
  unfold detect
  split_ifs <;> exact ⟨rfl, rfl⟩

theorem Inv.frame {fb' : PendingFB} (h : fb.Inv S d) (htxn : fb'.txn = fb.txn)
    (hp2s : fb'.pendingP2s = fb.pendingP2s) : fb'.Inv S d := by
  unfold Inv at h ⊢
  rw [htxn, hp2s]
  exact h

theorem Inv.dropOld (h : fb.Inv S d) : fb.dropOld.Inv S d := by
  intro view decision
  unfold PendingFB.dropOld
  dsimp only
  split_ifs
  · exact Counted.empty
  · exact h view decision

end PendingFB

/-! ## Steps keep the invariant -/

namespace Inv

theorem setPhase2 (h : Inv S s) {reqId : UInt64} {o : Option PendingPhase2}
    (ho : ∀ p, o = some p → p.Inv S) : Inv S (s.setPhase2 reqId o) := by
  refine { h with phase2s := fun id p hp => ?_ }
  obtain ⟨-, hp⟩ | ⟨-, hp⟩ := update_eq_some.1 hp
  · exact ho p hp
  · exact h.phase2s id p hp

theorem setFallback (h : Inv S s) {d : Digest} {o : Option PendingFB}
    (ho : ∀ fb, o = some fb → fb.Inv S d) : Inv S (s.setFallback d o) := by
  refine { h with fallbacks := fun d' fb hfb => ?_ }
  obtain ⟨rfl, heq⟩ | ⟨-, heq⟩ := update_eq_some.1 hfb
  · exact ho fb heq
  · exact h.fallbacks d' fb heq

theorem hand (h : Inv S s) {o : HandOver} (ho : Certified S o) : Inv S (s.hand o) := by
  refine { h with handed := fun o' ho' => ?_ }
  rcases mem_append.1 ho' with ho' | ho'
  · exact h.handed o' ho'
  · rw [mem_singleton.1 ho']
    exact ho

variable {r : Phase2Reply}

theorem handlePhase2Reply (h : Inv S s) (hgen : Genuine S s (.phase2Reply r)) :
    Inv S (handlePhase2Reply S r s) := by
  unfold Shard.handlePhase2Reply
  split
  case h_2 => exact h
  case h_1 p m hp hm =>
    have hinv := h.phase2s _ p hp
    split_ifs with hseen
    · exact h
    · split
      case h_1 =>
        apply h.setPhase2
        intro p' hp'
        cases hp'
        exact { hinv with replies := ⟨hinv.replies.1.see _, hinv.replies.2⟩ }
      case h_2 p2 hauth =>
        obtain ⟨habout, hdec⟩ := hgen p m p2 hp hm hauth
        obtain ⟨view, hview, hgood⟩ := good_of_about habout hauth
        rw [hdec] at hgood
        simp only [hview, hdec, if_true]
        split_ifs with hzero hfull
        · exact { h with }
        · cases not_not.1 hzero
          have hcount := hinv.replies.cast hseen hgood
          have heq : p.matchingReplies + 1 = S.env.config.quorumSize := by
            have := hinv.few
            omega
          apply (h.hand _).setPhase2
          · intro p' hp'
            cases hp'
          · exact hcount.certified rfl heq
        · cases not_not.1 hzero
          apply h.setPhase2
          intro p' hp'
          cases hp'
          exact { hinv with replies := hinv.replies.cast hseen hgood, few := not_le.1 hfull }

theorem handlePhase2ReplyMultiView (h : Inv S s) (hgen : Genuine S s (.phase2ReplyMultiView r)) :
    Inv S (handlePhase2ReplyMultiView S r s) := by
  unfold Shard.handlePhase2ReplyMultiView
  split
  case h_2 => exact h
  case h_1 p m hp hm =>
    split
    case h_2 => exact h
    case h_1 decision txnDigest group view hauth =>
      have hinv := h.phase2s _ p hp
      obtain ⟨_, hview, hgood⟩ := good_of_about (hgen p m _ hp hm hauth) hauth
      cases hview
      dsimp only
      have hlen : (((p.viewReplies view).cast m.processId decision (signatureOf m)).ballots
          decision).length = ((p.viewReplies view).ballots decision).length + 1 := by
        rw [Box.cast_ballots_self, length_append]
        rfl
      have hfew := hinv.viewFew view decision
      split_ifs with hseen hfull
      · exact h
      · have hbox := (hinv.views view).cast hseen hgood
        apply (h.hand _).setPhase2
        · intro p' hp'
          cases hp'
        · apply certified_of_good
          · show (((p.viewReplies view).cast m.processId decision (signatureOf m)).ballots
              decision).length = _
            omega
          · exact hbox.nodup decision
          · exact hbox.good decision
      · apply h.setPhase2
        intro p' hp'
        cases hp'
        exact hinv.setView (hinv.views view |>.cast hseen hgood) fun dec => by
          by_cases hdec : dec = decision
          · subst hdec
            omega
          · rw [Box.cast_ballots_of_ne _ _ _ hdec]
            exact hinv.viewFew view dec

theorem processP2FBR (h : Inv S s) {d : Digest} {active : Bool}
    (hgen : Genuine S s (.p2FBReply d r active)) : Inv S (processP2FBR S r d active s) := by
  unfold Shard.processP2FBR
  split
  case h_2 => exact h
  case h_1 fb m hfb hm =>
    split
    case h_1 => exact h
    case h_2 p2 hauth =>
      have hinv := h.fallbacks d fb hfb
      obtain ⟨view, hview, hgood⟩ := good_of_about (hgen fb m p2 hfb hm hauth) hauth
      simp only [hview, getD_some]
      split
      · exact h
      split
      · exact h
      rename_i hseen
      have hinv' := hinv.count (f := S.env.config.f) hseen hgood
      split
      · rename_i hfull
        apply (h.hand _).setFallback
        · intro fb' hfb'
          split at hfb'
          · cases hfb'
          · cases hfb'
            exact hinv'
        · exact (hinv' view p2.decision).certified rfl hfull
      -- whatever is set from here on, what is counted stays or is dropped
      obtain ⟨htxn₂, hp2s₂⟩ := PendingFB.forward_frame (fb.count S.env.config.f view p2.decision
        (signatureOf m)) S.env.config.f p2.decision m.processId r
      have hinv₂ := hinv'.frame htxn₂ hp2s₂
      split
      · exact h.setFallback fun fb' hfb' => by cases hfb'; exact hinv₂
      obtain ⟨htxn₃, hp2s₃⟩ := PendingFB.detect_frame ((fb.count S.env.config.f view p2.decision
        (signatureOf m)).forward S.env.config.f p2.decision m.processId r).1 S.env.config.f view
      have hinv₃ := hinv₂.frame htxn₃ hp2s₃
      split
      · exact h.setFallback fun fb' hfb' => by cases hfb'; exact hinv₃
      · apply h.setFallback
        intro fb' hfb'
        cases hfb'
        split_ifs
        · exact hinv₃.dropOld
        · exact hinv₃

theorem step (h : Inv S s) {e : Event} (hgen : Genuine S s e) : Inv S (step S s e) := by
  cases e with
  | phase2 txn d decision =>
    dsimp only [Shard.step]
    split_ifs
    · have hset : Inv S (s.setPhase2 s.lastReqId (some { txn, txnDigest := d, decision })) := by
        apply h.setPhase2
        intro p hp
        cases hp
        exact
          { replies := Counted.empty
            few := quorumSize_pos _
            views := fun _ => Box.Holds.empty
            viewFew := fun _ _ => quorumSize_pos _ }
      exact { hset with }
    · exact h
  | timeout reqId => exact h.setPhase2 fun p hp => by cases hp
  | phase2Reply r => exact h.handlePhase2Reply hgen
  | phase2ReplyMultiView r => exact h.handlePhase2ReplyMultiView hgen
  | phase1FB txn d =>
    apply h.setFallback
    intro fb hfb
    cases hfb
    exact fun _ _ => Counted.empty
  | p2FBReply d r active => exact h.processP2FBR hgen
  | cleanFB d => exact h.setFallback fun fb hfb => by cases hfb
  | stopP1FB d | invokedFB d _ =>
    apply h.setFallback
    intro fb hfb
    obtain ⟨fb₀, hfb₀, rfl⟩ := map_eq_some_iff.1 hfb
    exact (h.fallbacks d fb₀ hfb₀).frame rfl rfl

end Inv

theorem Inv.init : Inv S {} where
  phase2s _ _ hp := by cases hp
  fallbacks _ _ hfb := by cases hfb
  handed _ hh := by cases hh

/-- **Phase2 certificates**: in every run in which each counted reply is about the transaction that
it is counted for, every set of signatures that is handed over is a certificate. -/
theorem run_certified {es : List Event} (hes : (machine S).Along (Genuine S) {} es) :
    ∀ h ∈ ((machine S).run {} es).handed, Certified S h := by
  have hinv : Inv S ((machine S).run {} es) := by
    refine Machine.run_along (fun s e hgen h => ?_) Inv.init hes
    show Inv S (if s.panicked then s else step S s e)
    split_ifs
    · exact h
    · exact h.step hgen
  exact hinv.handed

theorem genuine_reply {txn : Transaction} {d : Digest}
    (hp : (s.pendingPhase2s 0).map (fun p => (p.txn, p.txnDigest)) = some (txn, d))
    (hm : About S txn d m) : Genuine S s (.phase2ReplyMultiView ⟨0, some m⟩) := by
  intro p m' p2 hp' hm' _
  cases hm'
  rw [hp', map_some, some.injEq, Prod.mk.injEq] at hp
  rw [hp.1, hp.2]
  exact hm

section
open ShardEnv

def sampleTxn : Transaction := { clientId := 1, clientSeqNum := 1, involvedGroups := [0] }

def sampleReply (d : Digest) (id : ProcessId) : Phase2Reply :=
  ⟨0, some (signSample id (.p2Decision .commit d (some 0) (some 0)))⟩

theorem run_certified_five :
    let es := .phase2 sampleTxn [7] .commit ::
      [0, 1, 2, 3, 4].map fun id => .phase2ReplyMultiView (sampleReply [7] id)
    ((machine sample).run {} es).handed.length = 1 ∧
      ∀ h ∈ ((machine sample).run {} es).handed, Certified sample h := by
  intro es
  have hreply (id : ProcessId) (hid : sample.env.config.InGroup id 0) :
      About sample sampleTxn [7] (signSample id (.p2Decision .commit [7] (some 0) (some 0))) :=
    ⟨0, .commit, 0, rfl, hid, rfl⟩
  refine ⟨by decide +kernel, run_certified ⟨trivial, ?_, ?_, ?_, ?_, ?_, trivial⟩⟩
  all_goals exact genuine_reply (by decide +kernel) (hreply _ (by decide))

/-- A quorum is handed over that `ValidateP2Replies` refuses: with a reply on another transaction,
without a view in a fallback, or of the other decision. -/
theorem run_not_certified :
    let own : List Phase2Reply := [0, 1, 2, 3].map (sampleReply [7])
    let abort : Phase2Reply := ⟨0, some (signSample 4 (.p2Decision .abort [7] (some 0) (some 0)))⟩
    let noView : Phase2Reply := ⟨0, some (signSample 4 (.p2Decision .commit [7] (some 0) none))⟩
    (∃ h ∈ ((machine sample).run {} (.phase2 sampleTxn [7] .commit ::
      (own ++ [sampleReply [8] 4]).map .phase2ReplyMultiView)).handed, ¬ Certified sample h) ∧
    (∃ h ∈ ((machine sample).run {} (.phase1FB sampleTxn [7] ::
      (own ++ [noView]).map (.p2FBReply [7] · true))).handed, ¬ Certified sample h) ∧
    ∃ h ∈ ((machine sample).run {} (.phase2 sampleTxn [7] .commit ::
      (abort :: own ++ [sampleReply [7] 5]).map .phase2Reply)).handed, ¬ Certified sample h := by
  intro own abort noView
  have hrefused {hs : List HandOver} (h : hs.any (fun h => validateP2Replies sample.env h.decision
      h.view h.txn h.txnDigest [(0, h.sigs)] none == .reject) = true) :
      ∃ h ∈ hs, ¬ Certified sample h := by
    obtain ⟨h, hmem, hreject⟩ := List.any_eq_true.1 h
    refine ⟨h, hmem, fun hcert => ?_⟩
    have hacc := hcert.2
    rw [show sample.group = 0 from rfl, eq_of_beq hreject] at hacc
    cases hacc
  exact ⟨hrefused (by decide +kernel), hrefused (by decide +kernel), hrefused (by decide +kernel)⟩

end

end Sintr.Shard
