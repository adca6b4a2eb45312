import TimeChamp.Lib.Noninterference
import TimeChamp.Streaming.Isolation

/-!
# What a socket receives without the frames of others

A run is compared with the one in which the sockets of other organizations send no frames. All they leave behind is
counters that nobody of the organization reads, but for the month's, whose value nobody acts on.

* `Op.stores`, `Blind`, `blind_of_execNow` : what does not touch the store is the same whatever the counters are;
* `Sender`, `Alike`, `alike_body` : handlers that differ at most in what they found and stored as a month's count;
* `SameFor` : the gateway is the same but for counters of others and what others received;
* `Unseen`, `omission` : **each step keeps the two runs together**;
* `isolated_of_watchesOwn` : if everyone watches its own, all frames stay in their organization, and **what a socket
  receives is what it would receive if the sockets of other organizations had sent no frames**.
-/

namespace TimeChamp.Streaming
open Lib Api
open Function (update)

/-! ## Steps that leave the counters -/

/-- The call is one of the store. -/
def Op.stores : Op → Bool
  | .get _ => true
  | .set _ _ _ => true
  | _ => false

/-- The gateway with other counters, and another history of what was counted and emitted. -/
def Gateway.besides (g : Gateway) (redis : Mem CounterKey) (tracked : List (CounterKey × Nat)) (emitted : List Emission) :
    Gateway :=
  { g with redis, tracked, emitted }

section
variable {ch : Choice} {op : Op} {g g' : Gateway} {r : op.Reply} {redis : Mem CounterKey}
  {tracked : List (CounterKey × Nat)} {emitted : List Emission}

theorem join_besides (client : SocketId) (room : Room) :
    (g.besides redis tracked emitted).join client room = (g.join client room).besides redis tracked emitted := by
  unfold Gateway.join Gateway.besides
  dsimp only
  split_ifs <;> rfl

@[simp] theorem join_redis (g : Gateway) (client : SocketId) (room : Room) : (g.join client room).redis = g.redis := by
  unfold Gateway.join
  split_ifs <;> rfl

theorem acceptManager_besides (client : SocketId) (payload : JwtPayload) :
    (g.besides redis tracked emitted).acceptManager client payload =
      (g.acceptManager client payload).besides redis tracked emitted :=
  join_besides (g := g.accept client ⟨payload.sub, payload.orgId, false, none⟩) client _

theorem acceptAgent_besides (client : SocketId) (agentUser : User) :
    (g.besides redis tracked emitted).acceptAgent client agentUser =
      (g.acceptAgent client agentUser).besides redis tracked emitted := by
  unfold Gateway.acceptAgent
  dsimp only
  rw [← join_besides, ← join_besides]
  rfl

/-- The step has the same answer and does the same besides the counters; `sent` is what it emits. -/
def Blind (ch : Choice) (op : Op) (g g' : Gateway) (r : op.Reply) : Prop :=
  g'.redis = g.redis ∧ ∃ sent, g'.emitted = g.emitted ++ sent ∧ ∀ redis tracked emitted, ∃ tracked',
    execNow ch op (g.besides redis tracked emitted) = some (r, g'.besides redis tracked' (emitted ++ sent))

theorem blind_of_silent (hredis : g'.redis = g.redis) (hemitted : g'.emitted = g.emitted)
    (h : ∀ redis tracked emitted, execNow ch op (g.besides redis tracked emitted) =
      some (r, g'.besides redis tracked emitted)) : Blind ch op g g' r := by
  refine ⟨hredis, [], by rw [hemitted, List.append_nil], fun redis tracked emitted => ⟨tracked, ?_⟩⟩
  rw [List.append_nil]
  exact h redis tracked emitted

theorem answer_besides {α : Type} {outcome : Outcome} {a : α} {t : Gateway} {r : Except String α}
    (h : some (outcome.answer callError a g t) = some (r, g')) :
    some (outcome.answer callError a (g.besides redis tracked emitted) (t.besides redis tracked emitted)) =
        some (r, g'.besides redis tracked emitted) := by
  unfold Outcome.answer at h ⊢
  cases outcome <;> obtain ⟨rfl, rfl⟩ := Prod.mk.inj (Option.some.inj h) <;> rfl

theorem answer_kept {α : Type} {outcome : Outcome} {a : α} {t : Gateway} {r : Except String α}
    (h : some (outcome.answer callError a g t) = some (r, g')) (hredis : t.redis = g.redis)
    (hemitted : t.emitted = g.emitted) : g'.redis = g.redis ∧ g'.emitted = g.emitted := by
  rcases Outcome.answer_cases (Option.some.inj h) with ⟨rfl, -⟩ | ⟨-, rfl | rfl⟩
  · exact ⟨hredis, hemitted⟩
  · exact ⟨rfl, rfl⟩
  · exact ⟨hredis, hemitted⟩

theorem blind_connect {client : SocketId} {token : Option String} {r : Bool}
    (h : execNow ch (.connect client token) g = some (r, g')) : Blind ch (.connect client token) g g' r := by
  unfold execNow at h
  dsimp only at h
  split_ifs at h with hnew
  split at h
  next token payload hpayload =>
    obtain ⟨rfl, rfl⟩ := Prod.mk.inj (Option.some.inj h)
    refine blind_of_silent (by simp [Gateway.acceptManager, Gateway.accept, Gateway.open_])
      (by simp [Gateway.acceptManager, Gateway.accept, Gateway.open_]) fun redis tracked emitted => ?_
    rw [← acceptManager_besides]
    simp only [execNow, hpayload]
    exact if_neg hnew
  next hnone =>
    obtain ⟨rfl, rfl⟩ := Prod.mk.inj (Option.some.inj h)
    refine blind_of_silent rfl rfl fun redis tracked emitted => ?_
    unfold execNow
    refine (if_neg hnew).trans ?_
    split
    next t p hp => exact (hnone t p rfl hp).elim
    next => rfl

theorem blind_disconnect {client : SocketId} {r : Option ConnectionMeta}
    (h : execNow ch (.disconnect client) g = some (r, g')) : Blind ch (.disconnect client) g g' r := by
  unfold execNow at h
  dsimp only at h
  split_ifs at h with hconnected
  · split at h
    next hconn =>
      obtain ⟨rfl, rfl⟩ := Prod.mk.inj (Option.some.inj h)
      refine blind_of_silent rfl rfl fun redis tracked emitted => ?_
      refine (if_pos hconnected).trans ?_
      rw [show ((g.besides redis tracked emitted).drop client).connections client = none from hconn]
      rfl
    next conn hconn =>
      obtain ⟨rfl, rfl⟩ := Prod.mk.inj (Option.some.inj h)
      refine blind_of_silent rfl rfl fun redis tracked emitted => ?_
      refine (if_pos hconnected).trans ?_
      rw [show ((g.besides redis tracked emitted).drop client).connections client = some conn from hconn]
      rfl
  · obtain ⟨rfl, rfl⟩ := Prod.mk.inj (Option.some.inj h)
    exact blind_of_silent rfl rfl fun redis tracked emitted => if_neg hconnected

theorem blind_receive {client : SocketId} {data : List UInt8} {r : Option (ConnectionMeta × Int)}
    (h : execNow ch (.receive client data) g = some (r, g')) : Blind ch (.receive client data) g g' r := by
  unfold execNow at h
  dsimp only at h
  split at h
  next hconn =>
    obtain ⟨rfl, rfl⟩ := Prod.mk.inj (Option.some.inj h)
    refine blind_of_silent rfl rfl fun redis tracked emitted => ?_
    unfold execNow
    dsimp only
    rw [show (g.besides redis tracked emitted).connections client = none from hconn]
  next conn hconn =>
    split_ifs at h with hagent <;> obtain ⟨rfl, rfl⟩ := Prod.mk.inj (Option.some.inj h)
    · refine ⟨rfl, [], by simp, fun redis tracked emitted =>
        ⟨(.daily conn.userId (isoDay g.now), data.length) :: tracked, ?_⟩⟩
      unfold execNow
      dsimp only
      rw [show (g.besides redis tracked emitted).connections client = some conn from hconn]
      refine (if_pos hagent).trans ?_
      rw [List.append_nil]
      rfl
    · refine blind_of_silent rfl rfl fun redis tracked emitted => ?_
      unfold execNow
      dsimp only
      rw [show (g.besides redis tracked emitted).connections client = some conn from hconn]
      exact if_neg hagent

theorem blind_relay {conn : ConnectionMeta} {data : List UInt8} {r : Int × Int}
    (h : execNow ch (.relay conn data) g = some (r, g')) : Blind ch (.relay conn data) g g' r := by
  unfold execNow at h
  dsimp only at h
  split at h
  next frame hframe =>
    obtain ⟨rfl, rfl⟩ := Prod.mk.inj (Option.some.inj h)
    refine ⟨rfl, [_], rfl, fun redis tracked emitted =>
      ⟨(.monthly (isoMonth g.now), data.length) :: tracked, ?_⟩⟩
    unfold execNow
    dsimp only
    rw [hframe]
    rfl
  next e hframe =>
    obtain ⟨rfl, rfl⟩ := Prod.mk.inj (Option.some.inj h)
    refine ⟨rfl, [], by simp, fun redis tracked emitted =>
      ⟨(.monthly (isoMonth g.now), data.length) :: tracked, ?_⟩⟩
    unfold execNow
    dsimp only
    rw [hframe, List.append_nil]
    rfl

theorem blind_subscribe {client : SocketId} {userId : String} {r : Unit}
    (h : execNow ch (.subscribe client userId) g = some (r, g')) : Blind ch (.subscribe client userId) g g' r := by
  unfold execNow at h
  dsimp only at h
  split at h
  next hconn =>
    obtain ⟨rfl, rfl⟩ := Prod.mk.inj (Option.some.inj h)
    refine blind_of_silent rfl rfl fun redis tracked emitted => ?_
    unfold execNow
    dsimp only
    rw [show (g.besides redis tracked emitted).connections client = none from hconn]
  next conn hconn =>
    split_ifs at h with hagent <;> obtain ⟨rfl, rfl⟩ := Prod.mk.inj (Option.some.inj h)
    · refine blind_of_silent rfl rfl fun redis tracked emitted => ?_
      unfold execNow
      dsimp only
      rw [show (g.besides redis tracked emitted).connections client = some conn from hconn]
      exact if_pos hagent
    · refine blind_of_silent (by simp) (by simp) fun redis tracked emitted => ?_
      rw [← join_besides]
      unfold execNow
      dsimp only
      rw [show (g.besides redis tracked emitted).connections client = some conn from hconn]
      exact if_neg hagent

theorem blind_sendControlToAgent {userId action : String} {r : Bool}
    (h : execNow ch (.sendControlToAgent userId action) g = some (r, g')) : Blind ch (.sendControlToAgent userId action) g g' r := by
  unfold execNow at h
  dsimp only at h
  split at h
  next hsocket =>
    obtain ⟨rfl, rfl⟩ := Prod.mk.inj (Option.some.inj h)
    refine blind_of_silent rfl rfl fun redis tracked emitted => ?_
    unfold execNow
    dsimp only
    rw [show (g.besides redis tracked emitted).agentSockets userId = none from hsocket]
  next socketId hsocket =>
    obtain ⟨rfl, rfl⟩ := Prod.mk.inj (Option.some.inj h)
    refine ⟨rfl, [_], rfl, fun redis tracked emitted => ⟨tracked, ?_⟩⟩
    unfold execNow
    dsimp only
    rw [show (g.besides redis tracked emitted).agentSockets userId = some socketId from hsocket]
    rfl

/-- **What is no call of the store does not see the counters.** -/
theorem blind_of_execNow (hop : op.stores = false) (h : execNow ch op g = some (r, g')) : Blind ch op g g' r := by
  cases op with
  | connect client token => exact blind_connect h
  | findAgent token =>
      obtain ⟨hredis, hemitted⟩ := answer_kept h rfl rfl
      exact blind_of_silent hredis hemitted fun _ _ _ => answer_besides h
  | createSession userId orgId socketId =>
      obtain ⟨hredis, hemitted⟩ := answer_kept h rfl rfl
      exact blind_of_silent hredis hemitted fun _ _ _ => answer_besides h
  | closeSession socketId reason =>
      obtain ⟨hredis, hemitted⟩ := answer_kept h rfl rfl
      exact blind_of_silent hredis hemitted fun _ _ _ => answer_besides h
  | register client agentUser =>
      obtain ⟨rfl, rfl⟩ := Prod.mk.inj (Option.some.inj h)
      refine blind_of_silent (by simp [Gateway.acceptAgent, Gateway.accept])
          (by simp [Gateway.acceptAgent, Gateway.accept]) fun redis tracked emitted => ?_
      rw [← acceptAgent_besides]
      rfl
  | setConnection client conn =>
      obtain ⟨rfl, rfl⟩ := Prod.mk.inj (Option.some.inj h)
      exact blind_of_silent rfl rfl fun _ _ _ => rfl
  | disconnect client => exact blind_disconnect h
  | receive client data => exact blind_receive h
  | get key => cases hop
  | set key value ttlSeconds => cases hop
  | relay conn data => exact blind_relay h
  | subscribe client userId => exact blind_subscribe h
  | unsubscribe client userId =>
      obtain ⟨rfl, rfl⟩ := Prod.mk.inj (Option.some.inj h)
      exact blind_of_silent rfl rfl fun _ _ _ => rfl
  | emit room event =>
      obtain ⟨rfl, rfl⟩ := Prod.mk.inj (Option.some.inj h)
      exact ⟨rfl, [_], rfl, fun redis tracked emitted => ⟨tracked, rfl⟩⟩
  | emitTo client event =>
      obtain ⟨rfl, rfl⟩ := Prod.mk.inj (Option.some.inj h)
      exact ⟨rfl, [_], rfl, fun redis tracked emitted => ⟨tracked, rfl⟩⟩
  | sendControlToAgent userId action => exact blind_sendControlToAgent h
end

/-! ## Handlers side by side -/

/-- Whose frame a handler works on: nobody's, that of a socket, or that of a socket it found the connection of. -/
inductive Sender where
  | nobody
  | socket (client : SocketId)
  | found (client : SocketId) (conn : ConnectionMeta)

/-- Two handlers that differ at most in what they found and stored as a month's count. On a frame, they tell its sender,
count it under the sender's name, and relay it. -/
inductive Alike : Sender → Handler Unit → Handler Unit → Prop where
  | done {sender : Sender} : Alike sender (.ret ()) (.ret ())
  | plain {op : Op} {k k' : op.Reply → Handler Unit} (hop : op.stores = false) (hk : ∀ r, Alike .nobody (k r) (k' r)) :
    Alike .nobody (.op op k) (.op op k')
  | receive {client : SocketId} {data : List UInt8} {k k' : Option (ConnectionMeta × Int) → Handler Unit}
      (hnone : Alike (.socket client) (k none) (k' none))
      (hsome : ∀ conn day, Alike (.found client conn) (k (some (conn, day))) (k' (some (conn, day)))) :
    Alike (.socket client) (.op (.receive client data) k) (.op (.receive client data) k')
  | getDay {client : SocketId} {conn : ConnectionMeta} {day : Int} {k k' : Except String (Option String) → Handler Unit}
      (hk : ∀ r, Alike (.found client conn) (k r) (k' r)) :
    Alike (.found client conn) (.op (.get (.daily conn.userId day)) k) (.op (.get (.daily conn.userId day)) k')
  | setDay {client : SocketId} {conn : ConnectionMeta} {day : Int} {value : String} {ttlSeconds : Option Nat}
      {k k' : Except String Unit → Handler Unit} (hk : ∀ r, Alike (.found client conn) (k r) (k' r)) :
    Alike (.found client conn) (.op (.set (.daily conn.userId day) value ttlSeconds) k)
      (.op (.set (.daily conn.userId day) value ttlSeconds) k')
  | tell {client : SocketId} {conn : ConnectionMeta} {event : Event} {k k' : Unit → Handler Unit}
      (hk : ∀ r, Alike (.found client conn) (k r) (k' r)) :
    Alike (.found client conn) (.op (.emitTo client event) k) (.op (.emitTo client event) k')
  | relay {client : SocketId} {conn : ConnectionMeta} {data : List UInt8} {k k' : Int × Int → Handler Unit}
      (hk : ∀ r, Alike (.found client conn) (k r) (k' r)) :
    Alike (.found client conn) (.op (.relay conn data) k) (.op (.relay conn data) k')
  | getMonth {client : SocketId} {conn : ConnectionMeta} {month : Int × Int}
      {k k' : Except String (Option String) → Handler Unit}
      (herror : ∀ e, Alike (.found client conn) (k (.error e)) (k' (.error e)))
      (hok : ∀ x y, Alike (.found client conn) (k (.ok x)) (k' (.ok y))) :
    Alike (.found client conn) (.op (.get (.monthly month)) k) (.op (.get (.monthly month)) k')
  | setMonth {client : SocketId} {conn : ConnectionMeta} {month : Int × Int} {value value' : String}
      {ttlSeconds : Option Nat} {k k' : Except String Unit → Handler Unit}
      (hk : ∀ r, Alike (.found client conn) (k r) (k' r)) :
    Alike (.found client conn) (.op (.set (.monthly month) value ttlSeconds) k)
      (.op (.set (.monthly month) value' ttlSeconds) k')

theorem Alike.eq_done {sender : Sender} {p : Handler Unit} (h : Alike sender (.ret ()) p) : p = .ret () := by
  cases h
  rfl

/-- A handler that makes no call of the store is alike itself. -/
theorem alike_of_performs {p : Handler Unit} (h : Performs (fun op : Op => op.stores = false) p) : Alike .nobody p p := by
  induction p with
  | ret _ => exact .done
  | op op k ih => exact .plain h.1 fun r => ih r (h.2 r)

theorem performs_handleDisconnect (client : SocketId) :
    Performs (fun op : Op => op.stores = false) (handleDisconnect client) := by
  refine performs_perform rfl fun r => ?_
  rcases r with _ | conn
  · trivial
  · dsimp only
    split_ifs
    · refine performs_perform rfl fun r => ?_
      cases r with
      | error e => trivial
      | ok u => exact performs_one rfl
    · trivial

theorem performs_handleConnection (maxHours : Nat) (client : SocketId) (token : Option String) :
    Performs (fun op : Op => op.stores = false) (handleConnection maxHours client token) := by
  refine performs_perform rfl fun verified => ?_
  cases verified with
  | true => trivial
  | false =>
      cases token.filter (· ≠ "") with
      | none => exact performs_handleDisconnect client
      | some token =>
          refine performs_perform rfl fun r => ?_
          rcases r with e | _ | agentUser
          · exact performs_handleDisconnect client
          · exact performs_handleDisconnect client
          · refine performs_perform rfl fun _ => performs_perform rfl fun r => ?_
            cases r with
            | error e => exact performs_handleDisconnect client
            | ok u => exact performs_perform rfl fun _ => performs_one rfl

theorem alike_trackEgress (client : SocketId) (conn : ConnectionMeta) (month : Int × Int) (bytes : Nat) :
    Alike (.found client conn) (trackEgress (.monthly month) bytes) (trackEgress (.monthly month) bytes) := by
  refine .getMonth (fun e => .done) fun x y => .setMonth fun r => ?_
  exact .done

/-- **A frame is counted under the name of its sender**, who is told if it is one too many. -/
theorem alike_handleFrame (client : SocketId) (data : List UInt8) :
    Alike (.socket client) (handleFrame client data) (handleFrame client data) := by
  refine .receive .done fun conn today => .getDay fun r => ?_
  cases r with
  | error e => exact .done
  | ok current =>
      refine .setDay fun r => ?_
      cases r with
      | error e => exact .done
      | ok u =>
          dsimp only
          cases decide (current.elim 0 parseInt + data.length < dailyCap) with
          | false => exact .tell fun _ => .done
          | true => exact .relay fun month => alike_trackEgress client conn month data.length

def Call.sender : Call → Sender
  | .frame client _ => .socket client
  | _ => .nobody

theorem alike_body (maxHours : Nat) (call : Call) :
    Alike call.sender (call.body maxHours) (call.body maxHours) := by
  cases call with
  | connect client token => exact alike_of_performs (performs_handleConnection maxHours client token)
  | disconnect client => exact alike_of_performs (performs_handleDisconnect client)
  | sessionTimeout client => exact alike_of_performs (performs_perform rfl fun _ => performs_handleDisconnect client)
  | frame client data => exact alike_handleFrame client data
  | subscribe client userId => exact alike_of_performs (performs_one rfl)
  | unsubscribe client userId => exact alike_of_performs (performs_one rfl)
  | sendControlToAgent userId action => exact alike_of_performs (performs_perform rfl fun _ => trivial)
  | addUser user => exact .done
  | setAgentToken userId token => exact .done

/-! ## The same for an organization -/

/-- What a socket hears of what is emitted. -/
def heard (s : SocketId) (sent : List Emission) : List Event :=
  (sent.filter fun e => e.receivers.contains s).map Emission.event

theorem heard_append (s : SocketId) (sent sent' : List Emission) :
    heard s (sent ++ sent') = heard s sent ++ heard s sent' := by
  rw [heard, List.filter_append, List.map_append]
  rfl

theorem heard_eq_nil {s : SocketId} {sent : List Emission} (h : ∀ e ∈ sent, s ∉ e.receivers) : heard s sent = [] := by
  have hnone : (sent.filter fun e => e.receivers.contains s) = [] :=
    List.filter_eq_nil_iff.mpr fun e he hmem => h e he (List.contains_iff_mem.mp hmem)
  rw [heard, hnone, List.map_nil]

/-- What a socket received. -/
def Gateway.received (g : Gateway) (s : SocketId) : List Event := heard s g.emitted

/-- A day's counter of the organization: its user is of no other. -/
def CounterKey.Of (g : Gateway) (orgId : String) : CounterKey → Prop
  | .daily userId _ => ∀ u ∈ g.users.rows, u.id = userId → u.organizationId = orgId
  | .monthly _ => False

/-- The socket is one of another organization. -/
def foreign (accepted : SocketId → Option ConnectionMeta) (orgId : String) (client : SocketId) : Bool :=
  (accepted client).any (·.orgId != orgId)

/-- The gateway is the same but for the counters of others and what others received; the clock may be behind. -/
structure SameFor (accepted : SocketId → Option ConnectionMeta) (orgId : String) (g g' : Gateway) : Prop where
  rest : g' = { g with now := g'.now }.besides g'.redis g'.tracked g'.emitted
  now : g'.now ≤ g.now
  counters : ∀ key, key.Of g orgId → g'.redis key = g.redis key
  received : ∀ s a, accepted s = some a → a.orgId = orgId → g'.received s = g.received s

section
variable {accepted : SocketId → Option ConnectionMeta} {orgId : String} {ch : Choice} {op : Op} {g g' g₁ : Gateway}

theorem SameFor.refl (accepted : SocketId → Option ConnectionMeta) (orgId : String) (g : Gateway) :
    SameFor accepted orgId g g :=
  ⟨rfl, Int.le_refl _, fun _ _ => rfl, fun _ _ _ _ => rfl⟩

/-- At a time that both allow, the gateways differ only in counters and history. -/
theorem SameFor.at (h : SameFor accepted orgId g g') (now : Int) :
    ({ g' with now } : Gateway) = { g with now }.besides g'.redis g'.tracked g'.emitted := by
  conv_lhs => rw [h.rest]
  rfl

theorem exec_of_execNow {r : op.Reply} (hnow : g.now ≤ ch.now) (h : execNow ch op { g with now := ch.now } = some (r, g₁)) :
    exec ch op g = some (r, g₁) := by
  rw [exec, if_neg (Int.not_lt.mpr hnow), h]

theorem CounterKey.Of.of_users {key : CounterKey} (h : key.Of g₁ orgId) (husers : g₁.users = g.users) :
    key.Of g orgId := by
  cases key with
  | daily userId day =>
      intro u hu
      rw [← husers] at hu
      exact h u hu
  | monthly month => exact h

/-- **A step of the organization's, that is no call of the store.** -/
theorem SameFor.blind (h : SameFor accepted orgId g g') {r : op.Reply} (hop : op.stores = false)
    (hr : exec ch op g = some (r, g₁)) : ∃ g₁', exec ch op g' = some (r, g₁') ∧ SameFor accepted orgId g₁ g₁' := by
  obtain ⟨hnow, hr⟩ := exec_cases hr
  obtain ⟨hredis, sent, hemitted, hblind⟩ := blind_of_execNow hop hr
  obtain ⟨tracked, hstep⟩ := hblind g'.redis g'.tracked g'.emitted
  rw [← h.at ch.now] at hstep
  have husers : g₁.users = ({ g with now := ch.now } : Gateway).users := users_eq hr
  refine ⟨_, exec_of_execNow (Int.le_trans h.now hnow) hstep, rfl, Int.le_refl _, fun key hkey => ?_, fun s a ha horg => ?_⟩
  · show g'.redis key = g₁.redis key
    rw [hredis]
    exact h.counters key (hkey.of_users husers)
  · show heard s (g'.emitted ++ sent) = heard s g₁.emitted
    rw [hemitted, heard_append, heard_append]
    exact congrArg (· ++ _) (h.received s a ha horg)

/-- What others do: they count for themselves, and emit to others. -/
theorem SameFor.other (h : SameFor accepted orgId g g') {now : Int} {redis : Mem CounterKey}
    (tracked : List (CounterKey × Nat)) (sent : List Emission) (hnow : g.now ≤ now)
    (hredis : ∀ key, key.Of g orgId → redis key = g.redis key)
    (hsent : ∀ s a, accepted s = some a → a.orgId = orgId → ∀ e ∈ sent, s ∉ e.receivers) :
    SameFor accepted orgId ({ g with now }.besides redis tracked (g.emitted ++ sent)) g' := by
  refine ⟨h.rest, Int.le_trans h.now hnow, fun key hkey => ?_, fun s a ha horg => ?_⟩
  · exact (h.counters key hkey).trans (hredis key hkey).symm
  · show g'.received s = heard s (g.emitted ++ sent)
    rw [heard_append, heard_eq_nil (hsent s a ha horg), List.append_nil]
    exact h.received s a ha horg

/-- What was counted is history. -/
theorem SameFor.quiet (h : SameFor accepted orgId g g') {now : Int} (hnow : g.now ≤ now)
    (tracked : List (CounterKey × Nat)) : SameFor accepted orgId { g with now, tracked } g' := by
  have hother := h.other tracked [] hnow (fun _ _ => rfl)
    fun _ _ _ _ _ he => absurd he List.not_mem_nil
  rw [List.append_nil] at hother
  exact hother

/-- Others read and write a counter that is not the organization's, however the call ends. -/
theorem SameFor.store_other (h : SameFor accepted orgId g g') {α : Type} {x : α} {r : Except String α} {key : CounterKey}
    {redis : Mem CounterKey} (hnow : g.now ≤ ch.now) (hkey : ¬ key.Of g orgId)
    (hredis : ∀ k, k ≠ key → redis k = g.redis k)
    (hr : some (ch.outcome.answer callError x { g with now := ch.now } { g with now := ch.now, redis }) = some (r, g₁)) :
    SameFor accepted orgId g₁ g' := by
  have quiet : ∀ redis : Mem CounterKey, (∀ k, k ≠ key → redis k = g.redis k) →
      SameFor accepted orgId { g with now := ch.now, redis } g' := by
    intro redis hredis
    have hother := h.other g.tracked [] hnow
      (fun k hk => hredis k fun heq => hkey (heq ▸ hk)) fun _ _ _ _ _ he => absurd he List.not_mem_nil
    rw [List.append_nil] at hother
    exact hother
  rcases Outcome.answer_cases (Option.some.inj hr) with ⟨rfl, -⟩ | ⟨-, rfl | rfl⟩
  · exact quiet redis hredis
  · exact quiet g.redis fun _ _ => rfl
  · exact quiet redis hredis

theorem SameFor.answer {α : Type} {outcome : Outcome} {x : α} {r : Except String α} (h : SameFor accepted orgId g g')
    {redis redis' : Mem CounterKey}
    (hsame : ∀ key, key.Of g orgId → redis' key = redis key) (y : α)
    (hr : some (outcome.answer callError x { g with now := ch.now } { g with now := ch.now, redis }) = some (r, g₁)) :
    ∃ r' g₁', some (outcome.answer callError y { g' with now := ch.now } { g' with now := ch.now, redis := redis' }) =
        some (r', g₁') ∧ SameFor accepted orgId g₁ g₁' ∧
      ((∃ e, r = .error e ∧ r' = .error e) ∨ r = .ok x ∧ r' = .ok y) := by
  have hnot : SameFor accepted orgId { g with now := ch.now } { g' with now := ch.now } :=
    ⟨h.at ch.now, Int.le_refl _, h.counters, h.received⟩
  have hdone : SameFor accepted orgId { g with now := ch.now, redis } { g' with now := ch.now, redis := redis' } := by
    refine ⟨?_, Int.le_refl _, hsame, h.received⟩
    conv_lhs => rw [h.rest]
    rfl
  unfold Outcome.answer at hr ⊢
  cases outcome <;> obtain ⟨rfl, rfl⟩ := Prod.mk.inj (Option.some.inj hr)
  · exact ⟨_, _, rfl, hdone, Or.inr ⟨rfl, rfl⟩⟩
  · exact ⟨_, _, rfl, hnot, Or.inl ⟨_, rfl, rfl⟩⟩
  · exact ⟨_, _, rfl, hdone, Or.inl ⟨_, rfl, rfl⟩⟩

theorem SameFor.get (h : SameFor accepted orgId g g') {key : CounterKey} {r : (Op.get key).Reply}
    (hr : exec ch (.get key) g = some (r, g₁)) :
    ∃ r' g₁', exec ch (.get key) g' = some (r', g₁') ∧ SameFor accepted orgId g₁ g₁' ∧
      (key.Of g orgId → r' = r) ∧ ((∃ e, r = .error e ∧ r' = .error e) ∨ ∃ x y, r = .ok x ∧ r' = .ok y) := by
  obtain ⟨hnow, hr⟩ := exec_cases hr
  have hsame : ∀ k, k.Of g orgId → g'.redis.afterGet ch.now key k = g.redis.afterGet ch.now key k := by
    intro k hk
    exact Mem.afterGet_congr (h.counters k hk)
  obtain ⟨r', g₁', hr', hworld, hcases⟩ := h.answer hsame (g'.redis.get ch.now key) hr
  refine ⟨r', g₁', exec_of_execNow (Int.le_trans h.now hnow) hr', hworld, fun hkey => ?_, ?_⟩
  · have hget : g'.redis.get ch.now key = g.redis.get ch.now key := Mem.get_congr (h.counters key hkey)
    rcases hcases with ⟨e, rfl, rfl⟩ | ⟨rfl, rfl⟩
    · rfl
    · rw [hget]
  · exact hcases.imp id fun ⟨hx, hy⟩ => ⟨_, _, hx, hy⟩

theorem SameFor.set (h : SameFor accepted orgId g g') {key : CounterKey} {value value' : String} {ttlSeconds : Option Nat}
    {r : (Op.set key value ttlSeconds).Reply} (hvalue : key.Of g orgId → value' = value)
    (hr : exec ch (.set key value ttlSeconds) g = some (r, g₁)) :
    ∃ g₁', exec ch (.set key value' ttlSeconds) g' = some (r, g₁') ∧ SameFor accepted orgId g₁ g₁' := by
  obtain ⟨hnow, hr⟩ := exec_cases hr
  have hsame : ∀ k, k.Of g orgId →
      g'.redis.set ch.now key value' ttlSeconds k = g.redis.set ch.now key value ttlSeconds k := by
    intro k hk
    by_cases hkey : k = key
    · subst hkey
      rw [hvalue hk, Mem.set, Mem.set, Function.update_self, Function.update_self]
    · rw [Mem.set_of_ne hkey, Mem.set_of_ne hkey]
      exact h.counters k hk
  obtain ⟨r', g₁', hr', hworld, hcases⟩ := h.answer hsame () hr
  refine ⟨g₁', exec_of_execNow (Int.le_trans h.now hnow) ?_, hworld⟩
  have hreply : r' = r := by
    rcases hcases with ⟨e, rfl, rfl⟩ | ⟨rfl, rfl⟩ <;> rfl
  exact hreply ▸ hr'

theorem SameFor.call (h : SameFor accepted orgId g g') {call : Call} (hadmits : call.admits g = some g₁) :
    ∃ g₁', call.admits g' = some g₁' ∧ SameFor accepted orgId g₁ g₁' := by
  have husers : g'.users = g.users := by rw [h.rest]; rfl
  have hrooms : g'.rooms = g.rooms := by rw [h.rest]; rfl
  obtain ⟨users, rfl, hkept, -⟩ := admits_cases hadmits
  have hworld : SameFor accepted orgId { g with users } { g' with users } := by
    refine ⟨?_, h.now, fun key hkey => h.counters key ?_, h.received⟩
    · conv_lhs => rw [h.rest]
      rfl
    · cases key with
      | daily userId day =>
          intro u hu hid
          obtain ⟨v, hv, hvid, hvorg⟩ := hkept u hu
          exact hvorg.symm.trans (hkey v hv (hvid.trans hid))
      | monthly month => exact hkey
  refine ⟨{ g' with users }, ?_, hworld⟩
  cases call with
  | addUser user =>
      unfold Call.admits at hadmits ⊢
      dsimp only at hadmits ⊢
      split_ifs at hadmits with hnew
      have hnew' : (∀ u ∈ g'.users.rows, u.id ≠ user.id) ∧ ∀ x ∈ g'.rooms, x.1 ≠ .watchers user.id := by
        rwa [husers, hrooms]
      rw [dif_pos hnew']
      obtain rfl : g.users.insert user hnew.1 = users := congrArg Gateway.users (Option.some.inj hadmits)
      simp only [husers]
  | setAgentToken userId token =>
      obtain rfl : g.users.setToken userId token = users := congrArg Gateway.users (Option.some.inj hadmits)
      show some ({ g' with users := g'.users.setToken userId token } : Gateway) = _
      rw [husers]
  | _ =>
      obtain rfl : g.users = users := congrArg Gateway.users (Option.some.inj hadmits)
      show some g' = _
      rw [← husers]

/-! ## The two runs -/

/-- What is known of the sender of a frame; the handlers of the others' frames are silent in one of the runs. -/
def Sender.Known (accepted : SocketId → Option ConnectionMeta) (orgId : String) (g : Gateway) (silent : Bool) :
    Sender → Prop
  | .nobody => silent = false
  | .socket client => silent = foreign accepted orgId client
  | .found client conn => silent = (conn.orgId != orgId) ∧ g.Member conn.userId conn.orgId ∧
      ∃ a, accepted client = some a ∧ a.orgId = conn.orgId

theorem Sender.Known.later {silent : Bool} {sender : Sender} (h : sender.Known accepted orgId g silent)
    (hmember : ∀ userId orgId, g.Member userId orgId → g₁.Member userId orgId) :
    sender.Known accepted orgId g₁ silent := by
  cases sender with
  | nobody => exact h
  | socket client => exact h
  | found client conn => exact ⟨h.1, hmember _ _ h.2.1, h.2.2⟩

/-- Where a handler stands in the two runs. -/
def Beside (accepted : SocketId → Option ConnectionMeta) (orgId : String) (g : Gateway) (silent : Bool)
    (p p' : Handler Unit) : Prop :=
  ∃ sender q, sender.Known accepted orgId g silent ∧ Alike sender p q ∧ p' = if silent then .ret () else q

/-- A user is of one organization. -/
theorem Gateway.Member.eq {userId orgId : String} (h : g.Member userId orgId) {u : User} (hu : u ∈ g.users.rows)
    (hid : u.id = userId) : u.organizationId = orgId := by
  obtain ⟨v, hv, hvid, hvorg⟩ := h
  rw [← hvorg, List.inj_on_of_nodup_map g.users.ids hu hv (hid.trans hvid.symm)]

theorem daily_of {userId : String} {day : Int} {other : String} (h : g.Member userId other) :
    (CounterKey.daily userId day).Of g orgId ↔ other = orgId := by
  obtain ⟨u, hu, hid, horg⟩ := id h
  refine ⟨fun hof => horg.symm.trans (hof u hu hid), ?_⟩
  rintro rfl v hv hvid
  exact h.eq hv hvid

theorem later_of_exec {r : op.Reply} (hr : exec ch op g = some (r, g₁)) (userId orgId : String)
    (h : g.Member userId orgId) : g₁.Member userId orgId := by
  unfold Gateway.Member
  rw [users_eq (exec_cases hr).2]
  exact h

section
variable {ι : Type} {m : ι → Stage} {silent : Bool}

/-- A socket that a connection is found of was accepted as what the connection says. -/
theorem known_receive {client : SocketId} {data : List UInt8} {conn : ConnectionMeta} {day : Int}
    (hinv : IsolationInv g m) (haccepted : ∀ s a, g.authenticated s = some a → accepted s = some a)
    (hknown : (Sender.socket client).Known accepted orgId g silent)
    (hr : exec ch (.receive client data) g = some (some (conn, day), g₁)) :
    (Sender.found client conn).Known accepted orgId g₁ silent := by
  obtain ⟨-, hr⟩ := exec_cases hr
  obtain ⟨hnone, -⟩ | ⟨conn', hconn, hagent, hfound, rfl⟩ := receive_cases hr
  · cases hnone
  · obtain ⟨rfl, -⟩ := Prod.mk.inj (Option.some.inj hfound)
    obtain ⟨a, ha, huser, horg, hisAgent⟩ := hinv.accepted.known client conn hconn
    have hmember := hinv.facts.agents client a ha (hisAgent.trans hagent)
    rw [huser, horg] at hmember
    refine ⟨?_, hmember, a, haccepted client a ha, horg⟩
    change silent = foreign accepted orgId client at hknown
    rw [hknown, foreign, haccepted client a ha, Option.any_some, horg]

/-- The counters of the organization are not another's. -/
theorem not_daily_of {conn : ConnectionMeta} {day : Int} (hmember : g.Member conn.userId conn.orgId)
    (hother : (conn.orgId != orgId) = true) : ¬ (CounterKey.daily conn.userId day).Of g orgId := by
  rw [daily_of hmember]
  exact bne_iff_ne.mp hother

/-- **A step of a frame from elsewhere.** It counts for others, and only others hear of it. -/
theorem SameFor.out (h : SameFor accepted orgId g g') (hinv : IsolationInv g m)
    (haccepted : ∀ s a, g.authenticated s = some a → accepted s = some a) {sender : Sender}
    (hknown : sender.Known accepted orgId g true) {k : op.Reply → Handler Unit} {q : Handler Unit}
    (halike : Alike sender (.op op k) q) {r : op.Reply} (hr : exec ch op g = some (r, g₁)) :
    SameFor accepted orgId g₁ g' ∧ Beside accepted orgId g₁ true (k r) (.ret ()) := by
  have hlater := later_of_exec hr
  obtain ⟨hnow, hexec⟩ := exec_cases hr
  -- the handler goes on, silent in the other run
  have goes : ∀ (sender' : Sender) {q' : Handler Unit}, sender'.Known accepted orgId g₁ true → Alike sender' (k r) q' →
      Beside accepted orgId g₁ true (k r) (.ret ()) := fun _ _ hknown halike => ⟨_, _, hknown, halike, rfl⟩
  cases halike with
  | plain => cases hknown
  | @receive client data _ k' hnone hsome =>
      have hworld : SameFor accepted orgId g₁ g' := by
        obtain ⟨-, rfl⟩ | ⟨conn, -, -, -, rfl⟩ := receive_cases hexec
        · exact h.quiet hnow g.tracked
        · exact h.quiet hnow _
      refine ⟨hworld, ?_⟩
      rcases r with _ | ⟨conn, day⟩
      · exact goes (.socket client) hknown hnone
      · exact goes _ (known_receive hinv haccepted hknown hr) (hsome conn day)
  | getDay hk =>
      exact ⟨h.store_other hnow (not_daily_of hknown.2.1 hknown.1.symm) (fun _ hne => Mem.afterGet_of_ne hne) hexec,
        goes _ (hknown.later hlater) (hk r)⟩
  | setDay hk =>
      exact ⟨h.store_other hnow (not_daily_of hknown.2.1 hknown.1.symm) (fun _ hne => Mem.set_of_ne hne) hexec,
        goes _ (hknown.later hlater) (hk r)⟩
  | @tell client conn event _ _ hk =>
      refine ⟨?_, goes _ (hknown.later hlater) (hk r)⟩
      obtain ⟨-, rfl⟩ := Prod.mk.inj (Option.some.inj hexec)
      refine h.other g.tracked _ hnow (fun _ _ => rfl) fun s a ha horg e he hmem => ?_
      obtain rfl := List.mem_singleton.mp he
      obtain ⟨b, hb, hborg⟩ := hknown.2.2
      obtain ⟨-, hs⟩ := List.mem_filter.mp hmem
      obtain rfl : s = client := of_decide_eq_true hs
      obtain rfl := Option.some.inj (ha.symm.trans hb)
      exact bne_iff_ne.mp hknown.1.symm (hborg.symm.trans horg)
  | @relay client conn data _ _ hk =>
      refine ⟨?_, goes _ (hknown.later hlater) (hk r)⟩
      obtain ⟨-, tracked, rfl, rfl | ⟨type, rfl⟩⟩ := relay_cases hexec
      · exact h.quiet hnow _
      · refine h.other ((.monthly (isoMonth ch.now), data.length) :: g.tracked) _ hnow (fun _ _ => rfl)
          fun s a ha horg e he hmem => ?_
        obtain rfl := List.mem_singleton.mp he
        -- whoever watches the sender is of the sender's organization
        obtain ⟨x, hx, rfl⟩ := List.mem_map.mp hmem
        obtain ⟨hx, hroom⟩ := List.mem_filter.mp hx
        obtain ⟨room, s⟩ := x
        obtain rfl := of_decide_eq_true hroom
        obtain ⟨b, hb, hwatch⟩ := hinv.facts.watchers conn.userId s hx
        obtain ⟨u, hu, hid, huorg⟩ := hknown.2.1
        obtain rfl := Option.some.inj (ha.symm.trans (haccepted s b hb))
        exact bne_iff_ne.mp hknown.1.symm (huorg.symm.trans ((hwatch u hu hid).trans horg))
  | getMonth herror hok =>
      refine ⟨h.store_other hnow id (fun _ hne => Mem.afterGet_of_ne hne) hexec, ?_⟩
      cases r with
      | error e => exact goes _ (hknown.later hlater) (herror e)
      | ok x => exact goes _ (hknown.later hlater) (hok x x)
  | setMonth hk =>
      exact ⟨h.store_other hnow id (fun _ hne => Mem.set_of_ne hne) hexec, goes _ (hknown.later hlater) (hk r)⟩

/-- **A step of all else.** It is possible in the other run, and answered alike. -/
theorem SameFor.own (h : SameFor accepted orgId g g') (hinv : IsolationInv g m)
    (haccepted : ∀ s a, g.authenticated s = some a → accepted s = some a) {sender : Sender}
    (hknown : sender.Known accepted orgId g false) {k : op.Reply → Handler Unit} {q : Handler Unit}
    (halike : Alike sender (.op op k) q) {r : op.Reply} (hr : exec ch op g = some (r, g₁)) :
    ∃ (op' : Op) (k' : op'.Reply → Handler Unit) (r' : op'.Reply) (g₁' : Gateway), q = .op op' k' ∧
      exec ch op' g' = some (r', g₁') ∧ SameFor accepted orgId g₁ g₁' ∧ Beside accepted orgId g₁ false (k r) (k' r') := by
  have hlater := later_of_exec hr
  have goes : ∀ (sender' : Sender) {q' : Handler Unit}, sender'.Known accepted orgId g₁ false → Alike sender' (k r) q' →
      Beside accepted orgId g₁ false (k r) q' := fun _ _ hknown halike => ⟨_, _, hknown, halike, rfl⟩
  cases halike with
  | plain hop hk =>
      obtain ⟨g₁', hr', hworld⟩ := h.blind hop hr
      exact ⟨op, _, r, g₁', rfl, hr', hworld, goes _ (hknown.later hlater) (hk r)⟩
  | @receive client data _ k' hnone hsome =>
      obtain ⟨g₁', hr', hworld⟩ := h.blind rfl hr
      refine ⟨.receive client data, _, r, g₁', rfl, hr', hworld, ?_⟩
      rcases r with _ | ⟨conn, day⟩
      · exact goes (.socket client) hknown hnone
      · exact goes _ (known_receive hinv haccepted hknown hr) (hsome conn day)
  | getDay hk =>
      obtain ⟨r', g₁', hr', hworld, hsame, -⟩ := h.get hr
      obtain rfl := hsame ((daily_of hknown.2.1).mpr (bne_eq_false_iff_eq.mp hknown.1.symm))
      exact ⟨_, _, r', g₁', rfl, hr', hworld, goes _ (hknown.later hlater) (hk r')⟩
  | setDay hk =>
      obtain ⟨g₁', hr', hworld⟩ := h.set (fun _ => rfl) hr
      exact ⟨_, _, r, g₁', rfl, hr', hworld, goes _ (hknown.later hlater) (hk r)⟩
  | tell hk =>
      obtain ⟨g₁', hr', hworld⟩ := h.blind rfl hr
      exact ⟨_, _, r, g₁', rfl, hr', hworld, goes _ (hknown.later hlater) (hk r)⟩
  | relay hk =>
      obtain ⟨g₁', hr', hworld⟩ := h.blind rfl hr
      exact ⟨_, _, r, g₁', rfl, hr', hworld, goes _ (hknown.later hlater) (hk r)⟩
  | getMonth herror hok =>
      obtain ⟨r', g₁', hr', hworld, -, ⟨e, rfl, rfl⟩ | ⟨x, y, rfl, rfl⟩⟩ := h.get hr
      · exact ⟨_, _, _, g₁', rfl, hr', hworld, goes _ (hknown.later hlater) (herror e)⟩
      · exact ⟨_, _, _, g₁', rfl, hr', hworld, goes _ (hknown.later hlater) (hok x y)⟩
  | @setMonth client conn month value value' ttlSeconds _ k' hk =>
      obtain ⟨g₁', hr', hworld⟩ : ∃ g₁', exec ch (.set (.monthly month) value' ttlSeconds) g' = some (r, g₁') ∧
        SameFor accepted orgId g₁ g₁' := h.set False.elim hr
      exact ⟨.set (.monthly month) value' ttlSeconds, k', r, g₁', rfl, hr', hworld, goes _ (hknown.later hlater) (hk r)⟩

end

end

section
variable {ι : Type} [DecidableEq ι] {maxHours : Nat} {users : UserTable} {accepted : SocketId → Option ConnectionMeta}
  {orgId : String} {silent : ι → Bool} {c c' : Running ι}

/-- The call is a frame of a socket of another organization. -/
def Call.foreign (accepted : SocketId → Option ConnectionMeta) (orgId : String) : Call → Bool
  | .frame client _ => Streaming.foreign accepted orgId client
  | _ => false

/-- The two runs: the silent handlers are idle in the second. -/
structure Unseen (maxHours : Nat) (users : UserTable) (accepted : SocketId → Option ConnectionMeta) (orgId : String)
    (silent : ι → Bool) (c c' : Running ι) : Prop where
  reached : Reaches (gateway maxHours) WatchesOwn (Config.start (Gateway.start users)) c
  world : SameFor accepted orgId c.world c'.world
  beside : ∀ i, Beside accepted orgId c.world (silent i) (c.thread i) (c'.thread i)

/-- What a socket was accepted as is what it is accepted as in the end. -/
def AcceptedAs (accepted : SocketId → Option ConnectionMeta) (c : Running ι) (a : Act ι Choice Call) : Prop :=
  WatchesOwn c a ∧ ∀ s b, c.world.authenticated s = some b → accepted s = some b

theorem Unseen.idle (h : Unseen maxHours users accepted orgId silent c c') {i : ι} (hret : c.thread i = .ret ()) :
    c'.thread i = .ret () := by
  obtain ⟨sender, q, -, halike, hq⟩ := h.beside i
  rw [hret] at halike
  rw [hq, halike.eq_done, ite_self]

/-- One handler goes on; the others stand where they stood. -/
theorem Unseen.beside_update (h : Unseen maxHours users accepted orgId silent c c') {g₁ : Gateway} {i : ι} {b : Bool}
    {p p' : Handler Unit} (hmember : ∀ userId orgId, c.world.Member userId orgId → g₁.Member userId orgId)
    (hi : Beside accepted orgId g₁ b p p') (j : ι) :
    Beside accepted orgId g₁ (update silent i b j) (update c.thread i p j) (update c'.thread i p' j) := by
  by_cases hj : j = i
  · subst hj
    rw [Function.update_self, Function.update_self, Function.update_self]
    exact hi
  · rw [Function.update_of_ne hj, Function.update_of_ne hj, Function.update_of_ne hj]
    obtain ⟨sender, q, hknown, halike, heq⟩ := h.beside j
    exact ⟨sender, q, hknown.later hmember, halike, heq⟩

/-- **Each step keeps the two runs together.** -/
theorem omission (maxHours : Nat) (users : UserTable) (accepted : SocketId → Option ConnectionMeta) (orgId : String) :
    Omission (gateway maxHours) (AcceptedAs (ι := ι) accepted) (Call.foreign accepted orgId)
      (Unseen maxHours users accepted orgId) where
  call_out := by
    intro silent c c' c₁ i call h hG hout hn
    have hreached := h.reached.next hG.1 hn
    rcases System.next_cases hn with ⟨i', call', w, heq, hret, hw, rfl⟩ | ⟨_, _, _, _, _, _, heq, -⟩
    · cases heq
      cases call with
      | frame client data =>
          obtain rfl : c.world = w := Option.some.inj hw
          have hi : Beside accepted orgId c.world true (handleFrame client data) (.ret ()) :=
            ⟨.socket client, _, hout.symm, alike_handleFrame client data, rfl⟩
          have hbeside := h.beside_update (i := i) (fun _ _ hmember => hmember) hi
          have hkeep : update c'.thread i (.ret ()) = c'.thread := Function.update_eq_self_iff.mpr (h.idle hret).symm
          rw [hkeep] at hbeside
          exact ⟨hreached, h.world, hbeside⟩
      | _ => cases hout
    · cases heq
  call_in := by
    intro silent c c' c₁ i call h hG hout hn
    have hreached := h.reached.next hG.1 hn
    rcases System.next_cases hn with ⟨i', call', w, heq, hret, hw, rfl⟩ | ⟨_, _, _, _, _, _, heq, -⟩
    · cases heq
      obtain ⟨w', hw', hworld⟩ := h.world.call hw
      have hnext : (gateway maxHours).next c' (.call i call) =
          some { c' with world := w', thread := update c'.thread i (call.body maxHours) } := by
        simp only [System.next, h.idle hret]
        rw [show (gateway maxHours).admits call c'.world = some w' from hw', Option.map_some]
        rfl
      have hknown : call.sender.Known accepted orgId w false := by
        cases call with
        | frame client data => exact hout.symm
        | _ => rfl
      refine ⟨_, hnext, hreached, hworld, h.beside_update (fun userId orgId hmember => ?_)
        ⟨call.sender, _, hknown, alike_body maxHours call, rfl⟩⟩
      obtain ⟨users, rfl, hkept, -⟩ := admits_cases hw
      obtain ⟨u, hu, rfl, rfl⟩ := hmember
      exact hkept u hu
    · cases heq
  step_out := by
    intro silent c c' c₁ i ch h hG hsilent hn
    have hreached := h.reached.next hG.1 hn
    obtain ⟨m, hinv, -⟩ := isolationInv_of_reaches h.reached
    rcases System.next_cases hn with ⟨_, _, _, heq, -⟩ | ⟨i', ch', op, k, r, g₁, heq, hop, hr, rfl⟩
    · cases heq
    · cases heq
      obtain ⟨sender, q, hknown, halike, hq⟩ := h.beside i
      rw [hsilent] at hknown hq
      rw [hop] at halike
      obtain ⟨hworld, hbeside⟩ := h.world.out hinv hG.2 hknown halike hr
      have hall := h.beside_update (i := i) (b := true) (later_of_exec hr) hbeside
      have hkeep : update c'.thread i (.ret ()) = c'.thread := Function.update_eq_self_iff.mpr hq.symm
      rw [Function.update_eq_self_iff.mpr hsilent.symm, hkeep] at hall
      exact ⟨hreached, hworld, hall⟩
  step_in := by
    intro silent c c' c₁ i ch h hG hsilent hn
    have hreached := h.reached.next hG.1 hn
    obtain ⟨m, hinv, -⟩ := isolationInv_of_reaches h.reached
    rcases System.next_cases hn with ⟨_, _, _, heq, -⟩ | ⟨i', ch', op, k, r, g₁, heq, hop, hr, rfl⟩
    · cases heq
    · cases heq
      obtain ⟨sender, q, hknown, halike, hq⟩ := h.beside i
      rw [hsilent] at hknown hq
      rw [hop] at halike
      obtain ⟨op', k', r', g₁', rfl, hr', hworld, hbeside⟩ := h.world.own hinv hG.2 hknown halike hr
      have hnext : (gateway maxHours).next c' (.step i ch) =
          some ⟨g₁', update c'.thread i (k' r'), c'.trace ++ [(i, ⟨op', r'⟩)]⟩ := by
        have hthread : c'.thread i = .op op' k' := hq
        simp only [System.next, hthread]
        rw [show (gateway maxHours).exec ch op' c'.world = some (r', g₁') from hr', Option.map_some]
      have hall := h.beside_update (i := i) (b := false) (later_of_exec hr) hbeside
      rw [Function.update_eq_self_iff.mpr hsilent.symm] at hall
      exact ⟨_, hnext, hreached, hworld, hall⟩

/-! ## Isolation -/

/-- Nobody forgets what a socket was accepted as. -/
theorem remembers_next {c₁ : Running ι} {a : Act ι Choice Call}
    (h : Reaches (gateway maxHours) WatchesOwn (Config.start (Gateway.start users)) c)
    (hn : (gateway maxHours).next c a = some c₁) : c.world.Remembers c₁.world := by
  obtain ⟨m, hinv, hfollows⟩ := isolationInv_of_reaches h
  rcases System.next_cases hn with ⟨i, call, w, rfl, -, hw, rfl⟩ | ⟨i, ch, op, k, r, g₁, rfl, hop, hr, rfl⟩
  · obtain ⟨users, rfl, -, -⟩ := admits_cases hw
    exact fun _ _ hs => hs
  · have hi := hfollows i
    rw [hop] at hi
    obtain ⟨stage, hpost⟩ := exists_post hi.1 r
    exact ((hinv.accepted.now_users ch.now c.world.users).step hi.1 (exec_cases hr).2 hpost).2

theorem allowed_acceptedAs {as : List (Act ι Choice Call)} {d : Running ι}
    (h : Reaches (gateway maxHours) WatchesOwn (Config.start (Gateway.start users)) c)
    (hallowed : (gateway maxHours).Allowed WatchesOwn c as) (hplay : (gateway maxHours).play c as = some d) :
    (gateway maxHours).Allowed (AcceptedAs d.world.authenticated) c as ∧ c.world.Remembers d.world := by
  induction as generalizing c with
  | nil =>
      obtain rfl := Option.some.inj hplay
      exact ⟨trivial, fun _ _ hs => hs⟩
  | cons a as ih =>
      obtain ⟨hown, hrest⟩ := hallowed
      obtain ⟨c₁, hn, htail⟩ := Option.bind_eq_some_iff.mp hplay
      obtain ⟨hall, hlater⟩ := ih (h.next hown hn) (hrest c₁ hn) htail
      have hremembers : c.world.Remembers d.world := fun s b hs => hlater s b (remembers_next h hn s b hs)
      refine ⟨⟨⟨hown, hremembers⟩, fun c' hc' => ?_⟩, hremembers⟩
      obtain rfl := Option.some.inj (hn.symm.trans hc')
      exact hall

/-- After the schedule, nobody has received a frame of another organization; and in the schedule without the frames of
other organizations' sockets, which is possible, a socket receives the same. -/
structure Isolated (maxHours : Nat) (users : UserTable) (as : List (Act ι Choice Call)) (c : Running ι) : Prop where
  onlyOwn : ∀ e ∈ c.world.emitted, ∀ sender data type, e.event = .frame sender data type →
    ∀ s ∈ e.receivers, ∃ a, c.world.authenticated s = some a ∧ a.orgId = sender.orgId
  unaffected : ∀ s a, c.world.authenticated s = some a → ∃ c',
    (gateway maxHours).play (Config.start (Gateway.start users))
        (leavingOut (Call.foreign c.world.authenticated a.orgId) (fun _ => false) as) = some c' ∧
      c'.world.received s = c.world.received s

/-- **If everyone watches its own**, all frames stay in their organization, and what a socket receives does not depend on
the frames of others. -/
theorem isolated_of_watchesOwn {as : List (Act ι Choice Call)}
    (hallowed : (gateway maxHours).Allowed WatchesOwn (Config.start (Gateway.start users)) as)
    (hplay : (gateway maxHours).play (Config.start (Gateway.start users)) as = some c) :
    Isolated maxHours users as c := by
  obtain ⟨m, hinv, -⟩ := isolationInv_of_reaches (Reaches.start.play hallowed hplay)
  refine ⟨hinv.facts.onlyOwn, fun s a ha => ?_⟩
  obtain ⟨hall, -⟩ := allowed_acceptedAs .start hallowed hplay
  have hstart : Unseen maxHours users c.world.authenticated a.orgId (fun _ : ι => false)
      (Config.start (Gateway.start users)) (Config.start (Gateway.start users)) :=
    ⟨.start, .refl _ _ _, fun i => ⟨.nobody, _, rfl, .done, rfl⟩⟩
  obtain ⟨c', silent, hplay', hend⟩ :=
    (omission maxHours users c.world.authenticated a.orgId).play hstart hall hplay
  exact ⟨c', hplay', hend.world.received s a ha rfl⟩

end

section Runs

/-- The agent connects, a dashboard of this organization connects and subscribes to the agent, and a frame is sent. -/
def watched (orgId : String) : List (Act Nat Choice Call) :=
  connects 0 "s" ++
    ([.call 1 (.connect "d" (some "jwt")), .step 1 (answers 0 (some ⟨"v", orgId⟩)), .call 1 (.subscribe "d" "u")] :
      List (Act Nat Choice Call)) ++
    steps 1 1 ++ (.call 0 (.frame "s" emptyFrame) :: steps 0 6 : List (Act Nat Choice Call))

theorem isolated_of_watchesOwn_named : Isolated 8 oneUser (watched "a")
    ((gateway 8).endOf (Config.start (Gateway.start oneUser)) (watched "a")) :=
  isolated_of_watchesOwn (by decide +kernel) (System.play_endOf (by decide +kernel))

/-- A dashboard of the organization `b` subscribes to an agent of `a`, and receives its frames. -/
theorem not_isolated_otherOrganization : ¬ ∀ (as : List (Act Nat Choice Call)) (c : Running Nat),
    (gateway 8).play (Config.start (Gateway.start oneUser)) as = some c → Isolated 8 oneUser as c := by
  intro h
  have honly := (h (watched "b") _ (System.play_endOf (by decide +kernel))).onlyOwn
  obtain ⟨a, ha, horg⟩ := honly ⟨.frame ⟨"u", "a", true, some 28800000⟩ emptyFrame 2, ["d"]⟩ (by decide +kernel)
    _ _ _ rfl "d" (by decide)
  have hdashboard : ((gateway 8).endOf (Config.start (Gateway.start oneUser)) (watched "b")).world.authenticated "d" =
      some ⟨"v", "b", false, none⟩ := by decide +kernel
  rw [hdashboard] at ha
  obtain rfl := Option.some.inj ha
  exact absurd horg (by decide)

end Runs

end TimeChamp.Streaming
