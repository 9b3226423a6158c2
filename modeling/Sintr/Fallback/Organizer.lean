import Sintr.Data.Params

/-!
# Sending a Phase1FB reply

The parts of a Phase1FB reply are signed by callbacks that share an organizer: each clears its flag,
and the one that clears the last flag sends the reply and frees the organizer. A reply with nothing
to sign has no callback.
-/

namespace Sintr.Fallback

/-- The signed parts of the reply, one flag of the organizer each. -/
inductive Part where
  | cView
  | p1
  | p2
  deriving DecidableEq

structure Phase1FBReply where
  wb : Bool
  p1r : Option CCResult
  p2r : Bool

inductive ReplyAct where
  | sign (part : Part)
  | send
  | free
  | deadlock
  | useAfterFree
  deriving DecidableEq

structure P1FBorganizer where
  outstanding : List Part
  log : List ReplyAct := []

/-- The reply goes to the client that asked, or to all interested ones. -/
def P1FBorganizer.sendCB (o : P1FBorganizer) : P1FBorganizer :=
  if o.outstanding ≠ [] then o else { o with log := o.log ++ [.send, .free] }

def P1FBorganizer.signed (o : P1FBorganizer) (part : Part) : P1FBorganizer :=
  sendCB { outstanding := o.outstanding.filter (· ≠ part), log := o.log ++ [.sign part] }

def Phase1FBReply.signatures (params : Params) (reply : Phase1FBReply) : List Part :=
  if params.signedMessages then
    (if params.allToAllFb then [] else [.cView]) ++
      (if reply.p1r.any (· ≠ .abort) then [.p1] else []) ++ (if reply.p2r then [.p2] else [])
  else []

/-- `SendPhase1FBReply`, with the order in which the callbacks run. `fills` are the messages that
complete a batch of signatures. -/
def sendPhase1FBReply (params : Params) (fills : Part → Bool) (reply : Phase1FBReply)
    (multi : Bool) (order : List Part) : List ReplyAct :=
  -- This branch does not return: the freed organizer is used below.
  if reply.wb then [.send, .free, .useAfterFree]
  else if params.signedMessages then
    -- Without threads the callback runs inside MessageToSign, and locks a mutex its caller holds.
    if !params.multiThreading && (reply.signatures params).any fills then [.deadlock]
    else (order.foldl P1FBorganizer.signed { outstanding := reply.signatures params }).log
  -- The caller that asks for `multi` holds the entry of the interested clients.
  else if multi then [.deadlock]
  else (P1FBorganizer.sendCB { outstanding := [] }).log

/-- There is no writeback, something to sign and a thread to sign it, or nothing to be signed and
one client. -/
def Phase1FBReply.Sendable (params : Params) (fills : Part → Bool) (reply : Phase1FBReply)
    (multi : Bool) : Prop :=
  reply.wb = false ∧
    if params.signedMessages then
      reply.signatures params ≠ [] ∧
        (!params.multiThreading && (reply.signatures params).any fills) = false
    else multi = false

theorem foldl_signed {order : List Part} (hne : order ≠ []) (hnodup : order.Nodup)
    (o : P1FBorganizer) (hperm : o.outstanding.Perm order) :
    (order.foldl P1FBorganizer.signed o).log = o.log ++ order.map .sign ++ [.send, .free] := by
  induction order generalizing o with
  | nil => exact absurd rfl hne
  | cons p rest ih =>
    obtain ⟨hp, hrest⟩ := List.nodup_cons.1 hnodup
    have hflags : (o.outstanding.filter (· ≠ p)).Perm rest := by
      have hfilter : (p :: rest).filter (· ≠ p) = rest := by
        simpa using fun q hq (heq : q = p) => hp (heq ▸ hq)
      exact hfilter ▸ hperm.filter _
    rw [List.foldl_cons, P1FBorganizer.signed, P1FBorganizer.sendCB]
    by_cases hlast : rest = []
    · subst hlast
      rw [if_neg (by simpa using hflags)]
      simp
    · rw [if_pos (fun h => hlast (List.nil_perm.1 (.trans (.of_eq h.symm) hflags))),
        ih hlast hrest _ hflags]
      simp

/-- A reply is sent once, after its last signature, and its organizer freed once, whatever the
order of the callbacks, if and only if it is `Sendable`. -/
theorem sendPhase1FBReply_iff (params : Params) (fills : Part → Bool) (reply : Phase1FBReply)
    (multi : Bool) :
    (∀ order : List Part, order.Perm (reply.signatures params) →
      sendPhase1FBReply params fills reply multi order = order.map .sign ++ [.send, .free]) ↔
        reply.Sendable params fills multi := by
  constructor
  · intro h
    have hlast : (sendPhase1FBReply params fills reply multi
        (reply.signatures params)).getLast? = some .free := by
      simp [h _ (.refl _)]
    unfold sendPhase1FBReply at hlast
    split_ifs at hlast with hwb hs hlock hmulti
    · simp at hlast
    · simp at hlast
    · refine ⟨by simpa using hwb, ?_⟩
      rw [if_pos hs]
      exact ⟨fun hnil => by simp [hnil] at hlast, Bool.eq_false_iff.2 hlock⟩
    · simp at hlast
    · exact ⟨by simpa using hwb, by simpa [hs] using hmulti⟩
  · rintro ⟨hwb, h⟩ order hperm
    rw [sendPhase1FBReply, if_neg (by simp [hwb])]
    split_ifs at h ⊢ with hs hlock hmulti
    · exact absurd hlock (Bool.eq_false_iff.1 h.2)
    · exact foldl_signed (fun hnil => h.1 (by simpa [hnil] using hperm))
        (hperm.nodup_iff.2 (by unfold Phase1FBReply.signatures; split_ifs <;> simp)) _ hperm.symm
    · exact absurd hmulti (Bool.eq_false_iff.1 h)
    · simp_all [Phase1FBReply.signatures, P1FBorganizer.sendCB]

/-- With `all_to_all_fb` the reply that only says ABORT is never sent. -/
theorem sendPhase1FBReply_abort :
    let reply : Phase1FBReply := { wb := false, p1r := some .abort, p2r := false }
    let params : Params := { allToAllFb := true, multiThreading := true }
    reply.signatures params = [] ∧
      sendPhase1FBReply params (fun _ => true) reply false [] = [] := by
  decide

end Sintr.Fallback
