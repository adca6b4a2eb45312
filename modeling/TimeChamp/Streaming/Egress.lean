import TimeChamp.Lib.InFlight
import TimeChamp.Streaming.Accepted

/-!
# The bytes that are counted

A counter is read, and written with the bytes of a frame added, in two calls. What another handler wrote in between is
lost.

* `Gateway.total`, `Gateway.counter` : the bytes that are to be counted under a key, and what is stored under it;
* `Undisturbed` : no read fails, no write fails before it took effect, and no other handler wrote in between;
* `Undisturbed` also says that a day's counter is read at most an hour after the day, when it has not expired yet;
* `counted` : **if no handler is disturbed, all bytes are counted** once all handlers have finished.
-/

namespace TimeChamp.Streaming
open Lib Api
open Function (update)

/-- The bytes of all frames that are to be counted under the key. -/
def Gateway.total (g : Gateway) (key : CounterKey) : Nat := ((g.tracked.filter (·.1 = key)).map Prod.snd).sum

/-- What is stored under the key. -/
def Gateway.counter (g : Gateway) (key : CounterKey) : Nat := (g.redis key).elim 0 fun e => parseInt e.value

/-- All bytes are counted. -/
def Counted (g : Gateway) : Prop := ∀ key, g.counter key = g.total key

/-- The counter was written. -/
def setsKey {ι : Type} (key : CounterKey) : Performed ι Op Op.Reply → Bool
  | (_, ⟨.set k _ _, _⟩) => k == key
  | _ => false

/-- The counter does not expire before. A day's lasts for 25 hours from its last write. -/
def CounterKey.lasts (now : Int) : CounterKey → Bool
  | .daily _ day => decide (now ≤ day * 86400000 + 90000 * 1000)
  | .monthly _ => true

/-- A counter is read in time, and written only if no other handler wrote it since it was read; these calls do not fail
unless they have taken effect. -/
def Undisturbed {ι : Type} [DecidableEq ι] (c : Running ι) (a : Act ι Choice Call) : Prop :=
  (match c.performs a with
    | some (ch, .get key) => ch.outcome == .ok && key.lasts ch.now
    | some (ch, .set key _ _) => ch.outcome != .failed && !(since a.who c.trace).any (setsKey key)
    | _ => true) = true

instance {ι : Type} [DecidableEq ι] (c : Running ι) (a : Act ι Choice Call) : Decidable (Undisturbed c a) :=
  inferInstanceAs (Decidable (_ = true))

/-! ## The store -/

/-- The day of the counter has begun. -/
def CounterKey.Begun (now : Int) : CounterKey → Prop
  | .daily _ day => day * 86400000 ≤ now
  | .monthly _ => True

theorem CounterKey.Begun.later {key : CounterKey} {now now' : Int} (h : key.Begun now) (hle : now ≤ now') :
    key.Begun now' := by
  cases key with
  | daily userId day => exact Int.le_trans h hle
  | monthly month => trivial

/-- The entry of a day's counter expires no sooner than an hour after the day, that of a month never. -/
def CounterKey.Lasting : CounterKey → MemEntry → Prop
  | .daily _ day, e => ∃ at_, e.expiresAt = some at_ ∧ day * 86400000 + 90000 * 1000 ≤ at_
  | .monthly _, e => e.expiresAt = none

theorem lasting_set {key : CounterKey} {now : Int} (h : key.Begun now) (value : String) :
    key.Lasting ⟨value, expiry now key.ttl⟩ := by
  cases key with
  | daily userId day =>
      refine ⟨now + (90000 : Nat) * 1000, rfl, ?_⟩
      have hbegun : day * 86400000 ≤ now := h
      omega
  | monthly month => rfl

theorem not_expired {key : CounterKey} {e : MemEntry} {now : Int} (h : key.Lasting e) (hlasts : key.lasts now = true) :
    e.expired now = false := by
  unfold MemEntry.expired
  cases key with
  | daily userId day =>
      obtain ⟨at_, hat, hle⟩ := h
      have hnow : now ≤ day * 86400000 + 90000 * 1000 := of_decide_eq_true hlasts
      rw [hat, Option.any_some, decide_eq_false_iff_not]
      omega
  | monthly month =>
      rw [show e.expiresAt = none from h]
      rfl

/-- A read in time returns what is stored, and leaves it. -/
theorem get_lasting {g : Gateway} {key : CounterKey} (h : ∀ e, g.redis key = some e → key.Lasting e)
    (hlasts : key.lasts g.now = true) :
    (g.redis.get g.now key).elim 0 parseInt = g.counter key ∧ g.redis.afterGet g.now key = g.redis := by
  unfold Mem.get Mem.afterGet Gateway.counter
  cases he : g.redis key with
  | none => exact ⟨rfl, rfl⟩
  | some e =>
      have hnot := not_expired (h e he) hlasts
      simp [hnot]

/-! ## Steps that count nothing -/

/-- The step is one of those that count a frame. -/
def Op.counts : Op → Bool
  | .receive _ _ => true
  | .get _ => true
  | .set _ _ _ => true
  | .relay _ _ => true
  | _ => false

structure SameCounters (g g' : Gateway) : Prop where
  now : g'.now = g.now
  redis : g'.redis = g.redis
  tracked : g'.tracked = g.tracked

theorem SameCounters.refl (g : Gateway) : SameCounters g g := ⟨rfl, rfl, rfl⟩

theorem SameCounters.join {g g' : Gateway} (h : SameCounters g g') (client : SocketId) (room : Room) :
    SameCounters g (g'.join client room) := by
  unfold Gateway.join
  split_ifs
  · exact ⟨h.now, h.redis, h.tracked⟩
  · exact h

theorem sameCounters_acceptManager (g : Gateway) (client : SocketId) (payload : JwtPayload) :
    SameCounters g ((g.open_ client).acceptManager client payload) := by
  have haccept : SameCounters g ((g.open_ client).accept client ⟨payload.sub, payload.orgId, false, none⟩) :=
    ⟨rfl, rfl, rfl⟩
  exact haccept.join client _

theorem sameCounters_acceptAgent (g : Gateway) (client : SocketId) (agentUser : User) :
    SameCounters g (g.acceptAgent client agentUser) := by
  unfold Gateway.acceptAgent
  have haccept : SameCounters g { g.accept client ⟨agentUser.id, agentUser.organizationId, true, none⟩ with
      agentSockets := update g.agentSockets agentUser.id (some client) } := ⟨rfl, rfl, rfl⟩
  exact (haccept.join client _).join client _

theorem sameCounters {ch : Choice} {op : Op} {g g' : Gateway} {r : op.Reply} (hop : op.counts = false)
    (h : execNow ch op g = some (r, g')) : SameCounters g g' := by
  cases op with
  | connect client token =>
      obtain ⟨-, ⟨payload, -, rfl⟩ | ⟨-, rfl⟩⟩ := connect_cases h
      · exact sameCounters_acceptManager g client payload
      · exact ⟨rfl, rfl, rfl⟩
  | findAgent token => rcases Outcome.answer_cases (Option.some.inj h) with ⟨rfl, -⟩ | ⟨-, rfl | rfl⟩ <;> exact .refl _
  | register client agentUser =>
      obtain ⟨-, rfl⟩ := Prod.mk.inj (Option.some.inj h)
      exact sameCounters_acceptAgent g client agentUser
  | createSession userId orgId socketId =>
      rcases Outcome.answer_cases (Option.some.inj h) with ⟨rfl, -⟩ | ⟨-, rfl | rfl⟩ <;> exact ⟨rfl, rfl, rfl⟩
  | closeSession socketId reason =>
      rcases Outcome.answer_cases (Option.some.inj h) with ⟨rfl, -⟩ | ⟨-, rfl | rfl⟩ <;> exact ⟨rfl, rfl, rfl⟩
  | disconnect client =>
      obtain rfl | ⟨-, ⟨-, rfl⟩ | ⟨conn, -, rfl⟩⟩ := disconnect_cases h
      · exact .refl _
      · exact ⟨rfl, rfl, rfl⟩
      · exact ⟨rfl, rfl, rfl⟩
  | subscribe client userId =>
      obtain rfl | ⟨conn, -, -, rfl⟩ := subscribe_cases h
      · exact .refl _
      · exact (SameCounters.refl g).join client _
  | sendControlToAgent userId action =>
      obtain rfl | ⟨socketId, rfl⟩ := control_cases h
      · exact .refl _
      · exact ⟨rfl, rfl, rfl⟩
  | setConnection client conn =>
      obtain ⟨-, rfl⟩ := Prod.mk.inj (Option.some.inj h)
      exact ⟨rfl, rfl, rfl⟩
  | unsubscribe client userId =>
      obtain ⟨-, rfl⟩ := Prod.mk.inj (Option.some.inj h)
      exact ⟨rfl, rfl, rfl⟩
  | emit room event =>
      obtain ⟨-, rfl⟩ := Prod.mk.inj (Option.some.inj h)
      exact ⟨rfl, rfl, rfl⟩
  | emitTo client event =>
      obtain ⟨-, rfl⟩ := Prod.mk.inj (Option.some.inj h)
      exact ⟨rfl, rfl, rfl⟩
  | _ => exact nomatch hop

/-- Such a step is taken by a handler that has nothing to add, and leaves it so. -/
theorem settled_of_pre {m : Stage} {op : Op} (hop : op.counts = false) (hpre : gatewayProtocol.pre m op) : m.Settled := by
  cases op with
  | findAgent token =>
      obtain ⟨client, rfl⟩ := hpre
      trivial
  | register client agentUser =>
      have hm : m = .found client agentUser := hpre
      exact hm ▸ trivial
  | createSession userId orgId socketId =>
      obtain ⟨client, agentUser, rfl⟩ := hpre
      trivial
  | setConnection client conn =>
      obtain ⟨agentUser, timeout, rfl, -⟩ := hpre
      trivial
  | emit room event => exact hpre.1
  | emitTo client event => exact hpre.1
  | receive _ _ => exact nomatch hop
  | get _ => exact nomatch hop
  | set _ _ _ => exact nomatch hop
  | relay _ _ => exact nomatch hop
  | _ => exact hpre

theorem settled_of_post {m stage : Stage} {op : Op} {r : op.Reply} (hop : op.counts = false) (hm : m.Settled)
    (hpost : gatewayProtocol.post m op r stage) : stage.Settled := by
  cases moves_of_post hpost with
  | created => exact hm
  | emitted => exact hm
  | received => exact nomatch hop
  | read _ => exact nomatch hop
  | written _ => exact nomatch hop
  | relayed => exact nomatch hop
  | _ => trivial

/-! ## The invariant -/

/-- The bytes a handler has still to add to the counter. -/
def Stage.held (key : CounterKey) : Stage → Nat
  | .counting _ k bytes => if k = key then bytes else 0
  | .read _ k _ bytes => if k = key then bytes else 0
  | _ => 0

theorem Stage.Settled.held {m : Stage} (h : m.Settled) (key : CounterKey) : m.held key = 0 := by
  cases m with
  | counting _ _ _ => exact h.elim
  | read _ _ _ _ => exact h.elim
  | _ => rfl

section
variable {ι : Type} [DecidableEq ι]

/-- What a handler relies on: it read what is stored, unless the counter was written since. -/
def Fresh (g : Gateway) (tr : List (Performed ι Op Op.Reply)) (i : ι) : Stage → Prop
  | .counting _ key _ => key.Begun g.now
  | .read _ key current _ => key.Begun g.now ∧ (current = g.counter key ∨ (since i tr).any (setsKey key) = true)
  | _ => True

/-- What is to be counted is counted, or a handler has still to add it. -/
structure EgressInv (g : Gateway) (tr : List (Performed ι Op Op.Reply)) (m : ι → Stage) : Prop where
  balance : ∀ key, ∃ n, InFlight (Stage.held key) m n ∧ g.total key = g.counter key + n
  lasting : ∀ key e, g.redis key = some e → key.Lasting e
  fresh : ∀ i, Fresh g tr i (m i)

variable {g g' : Gateway} {tr : List (Performed ι Op Op.Reply)} {m : ι → Stage} {i : ι} {stage : Stage}

omit [DecidableEq ι] in
theorem Stage.Settled.fresh [DecidableEq ι] (h : stage.Settled) : Fresh g tr i stage := by
  cases stage with
  | counting _ _ _ => exact h.elim
  | read _ _ _ _ => exact h.elim
  | _ => trivial

theorem EgressInv.now (h : EgressInv g tr m) {now : Int} (hle : g.now ≤ now) : EgressInv { g with now } tr m := by
  refine ⟨h.balance, h.lasting, fun i => ?_⟩
  have hi := h.fresh i
  cases hstage : m i with
  | counting _ key _ => rw [hstage] at hi; exact hi.later hle
  | read _ key current _ => rw [hstage] at hi; exact ⟨hi.1.later hle, hi.2⟩
  | _ => trivial

/-- What the others rely on after a step of `i` that leaves the counters it does not write. -/
theorem Fresh.concat {j : ι} (hij : i ≠ j) {stage : Stage} (h : Fresh g tr j stage) (hnow : g'.now = g.now)
    (p : (e : Op) × e.Reply) (hcounter : ∀ key, setsKey key (i, p) = false → g'.counter key = g.counter key) :
    Fresh g' (tr ++ [(i, p)]) j stage := by
  cases stage with
  | counting _ key _ =>
      show key.Begun g'.now
      rw [hnow]
      exact h
  | read _ key current _ =>
      refine ⟨by rw [hnow]; exact h.1, ?_⟩
      rw [since_concat_of_ne hij, List.any_cons, Bool.or_eq_true]
      cases hsets : setsKey key (i, p) with
      | true => exact Or.inr (Or.inl rfl)
      | false =>
          rw [hcounter key hsets]
          exact h.2.imp id Or.inr
  | _ => trivial

/-- A step that leaves the counters and changes what is to be counted by what the handler takes on. -/
theorem EgressInv.move (h : EgressInv g tr m) (hnow : g'.now = g.now) (hredis : g'.redis = g.redis)
    (p : (e : Op) × e.Reply)
    (htotal : ∀ key, g'.total key + (m i).held key = g.total key + stage.held key)
    (hstage : Fresh g' (tr ++ [(i, p)]) i stage) : EgressInv g' (tr ++ [(i, p)]) (update m i stage) := by
  have hcounter : ∀ key, g'.counter key = g.counter key := fun key => by rw [Gateway.counter, hredis]; rfl
  refine ⟨fun key => ?_, hredis ▸ h.lasting, (Function.forall_update_iff m fun j stage =>
    Fresh g' (tr ++ [(i, p)]) j stage).mpr ⟨hstage, fun j hj => ?_⟩⟩
  · obtain ⟨n, hn, hsum⟩ := h.balance key
    obtain ⟨rest, rfl, hrest⟩ := hn.update i stage
    refine ⟨_, hrest, ?_⟩
    have hmove := htotal key
    rw [hcounter]
    omega
  · exact (h.fresh j).concat hj.symm hnow p fun key _ => hcounter key

theorem EgressInv.read (h : EgressInv g tr m) {conn : ConnectionMeta} {key : CounterKey} {bytes : Nat}
    (hm : m i = .counting conn key bytes) (hlasts : key.lasts g.now = true) (r : Except String (Option String)) :
    EgressInv { g with redis := g.redis.afterGet g.now key } (tr ++ [(i, ⟨.get key, r⟩)])
      (update m i (.read conn key ((g.redis.get g.now key).elim 0 parseInt) bytes)) := by
  obtain ⟨hvalue, hsame⟩ := get_lasting (h.lasting key) hlasts
  have hbegun : key.Begun g.now := by
    have hi := h.fresh i
    rw [hm] at hi
    exact hi
  rw [hvalue, hsame]
  refine h.move rfl rfl _ (fun k => ?_) ⟨hbegun, Or.inl rfl⟩
  rw [hm]
  rfl

/-- **A counter is written** with what is stored and the bytes. -/
theorem EgressInv.write (h : EgressInv g tr m) {conn : ConnectionMeta} {key : CounterKey} {current bytes : Nat}
    (hm : m i = .read conn key current bytes) (halone : (since i tr).any (setsKey key) = false) (hstage : stage.Settled)
    (hnow : g'.now = g.now) (htracked : g'.tracked = g.tracked)
    (hredis : g'.redis = g.redis.set g.now key (toString (current + bytes)) key.ttl) (r : Except String Unit) :
    EgressInv g' (tr ++ [(i, ⟨.set key (toString (current + bytes)) key.ttl, r⟩)]) (update m i stage) := by
  obtain ⟨hbegun, hcurrent⟩ : Fresh g tr i (.read conn key current bytes) := hm ▸ h.fresh i
  obtain rfl : current = g.counter key := hcurrent.resolve_right fun hany => nomatch halone.symm.trans hany
  have hself : g'.counter key = g.counter key + bytes := by
    rw [Gateway.counter, hredis, Mem.set, Function.update_self, Option.elim_some, parseInt_toString]
  have hother : ∀ k, k ≠ key → g'.counter k = g.counter k := fun k hk => by
    rw [Gateway.counter, hredis, Mem.set, Function.update_of_ne hk]
    rfl
  refine ⟨fun k => ?_, fun k e he => ?_, (Function.forall_update_iff m fun j stage => Fresh g' _ j stage).mpr
    ⟨hstage.fresh, fun j hj => (h.fresh j).concat hj.symm hnow _ fun k hk => hother k fun heq => ?_⟩⟩
  · obtain ⟨n, hn, hsum⟩ := h.balance k
    obtain ⟨rest, rfl, hrest⟩ := hn.update i stage
    rw [hstage.held] at hrest
    refine ⟨_, hrest, ?_⟩
    rw [Gateway.total, htracked]
    show g.total k = _
    rw [hsum, hm]
    by_cases hk : k = key
    · subst hk
      rw [hself, Stage.held, if_pos rfl]
      omega
    · rw [hother k hk, Stage.held, if_neg fun heq => hk heq.symm]
  · rw [hredis] at he
    rcases Mem.set_eq_some he with ⟨rfl, rfl⟩ | ⟨-, he⟩
    · exact lasting_set hbegun _
    · exact h.lasting k e he
  · subst heq
    exact absurd hk (by simp [setsKey])

/-- The bytes of a frame are to be counted, under one key. -/
theorem total_cons {key : CounterKey} {bytes : Nat} (htracked : g'.tracked = (key, bytes) :: g.tracked) (k : CounterKey) :
    g'.total k = g.total k + if key = k then bytes else 0 := by
  unfold Gateway.total
  rw [htracked, List.filter_cons]
  split_ifs with hk hkey hkey
  · rw [List.map_cons, List.sum_cons, Nat.add_comm]
  · exact absurd (of_decide_eq_true hk) hkey
  · exact absurd (decide_eq_true hkey) hk
  · rfl

theorem EgressInv.count (h : EgressInv g tr m) (hm : (m i).Settled) {key : CounterKey} {bytes : Nat}
    (hnow : g'.now = g.now) (hredis : g'.redis = g.redis) (htracked : g'.tracked = (key, bytes) :: g.tracked)
    (conn : ConnectionMeta) (hbegun : key.Begun g.now) (p : (e : Op) × e.Reply) :
    EgressInv g' (tr ++ [(i, p)]) (update m i (.counting conn key bytes)) := by
  refine h.move hnow hredis p (fun k => ?_) ?_
  · rw [total_cons htracked, hm.held]
    rfl
  · show key.Begun g'.now
    rw [hnow]
    exact hbegun

theorem EgressInv.receive {ch : Choice} {client : SocketId} {data : List UInt8} {r : (Op.receive client data).Reply}
    (h : EgressInv g tr m) (hm : (m i).Settled) (hr : execNow ch (.receive client data) g = some (r, g')) :
    ∃ stage, gatewayProtocol.post (m i) (.receive client data) r stage ∧
      EgressInv g' (tr ++ [(i, ⟨.receive client data, r⟩)]) (update m i stage) := by
  have hnothing : EgressInv g (tr ++ [(i, ⟨.receive client data, none⟩)]) (update m i .idle) := by
    refine h.move rfl rfl _ (fun key => ?_) trivial
    rw [hm.held]
    rfl
  obtain ⟨rfl, rfl⟩ | ⟨conn, -, -, rfl, rfl⟩ := receive_cases hr
  · exact ⟨.idle, rfl, hnothing⟩
  · refine ⟨_, rfl, h.count hm (by rfl) (by rfl) (by rfl) conn ?_ _⟩
    show isoDay g.now * 86400000 ≤ g.now
    unfold isoDay
    omega

/-- A write that was not lost before it took effect. -/
theorem execNow_set {ch : Choice} {key : CounterKey} {value : String} {ttlSeconds : Option Nat}
    {r : (Op.set key value ttlSeconds).Reply} (hr : execNow ch (.set key value ttlSeconds) g = some (r, g'))
    (hfailed : ch.outcome ≠ .failed) :
    g' = { g with redis := g.redis.set g.now key value ttlSeconds } ∧ (r = .ok () ∨ ∃ e, r = .error e) := by
  unfold execNow at hr
  dsimp only at hr
  cases hout : ch.outcome with
  | failed => exact absurd hout hfailed
  | ok =>
      rw [hout] at hr
      obtain ⟨rfl, rfl⟩ := Prod.mk.inj (Option.some.inj hr)
      exact ⟨rfl, Or.inl rfl⟩
  | lost =>
      rw [hout] at hr
      obtain ⟨rfl, rfl⟩ := Prod.mk.inj (Option.some.inj hr)
      exact ⟨rfl, Or.inr ⟨_, rfl⟩⟩

/-- **One step.** -/
theorem EgressInv.step (h : EgressInv g tr m) {ch : Choice} {op : Op} {r : op.Reply}
    (hpre : gatewayProtocol.pre (m i) op) (hr : execNow ch op g = some (r, g'))
    (hread : ∀ key, op = .get key → ch.outcome = .ok ∧ key.lasts g.now = true)
    (hwrite : ∀ key value ttlSeconds, op = .set key value ttlSeconds →
      ch.outcome ≠ .failed ∧ (since i tr).any (setsKey key) = false) :
    ∃ stage, gatewayProtocol.post (m i) op r stage ∧ EgressInv g' (tr ++ [(i, ⟨op, r⟩)]) (update m i stage) := by
  cases hop : op.counts with
  | false =>
      obtain ⟨stage, hpost⟩ := exists_post hpre r
      obtain ⟨hnow, hredis, htracked⟩ := sameCounters hop hr
      have hm := settled_of_pre hop hpre
      have hstage := settled_of_post hop hm hpost
      refine ⟨stage, hpost, h.move hnow hredis _ (fun key => ?_) hstage.fresh⟩
      rw [Gateway.total, htracked, hm.held, hstage.held]
      rfl
  | true =>
      cases op with
      | receive client data => exact h.receive hpre hr
      | relay conn data =>
          have hcounted : m i = .counted conn := hpre
          have hm : (m i).Settled := hcounted ▸ trivial
          have hbegun : (CounterKey.monthly (isoMonth g.now)).Begun g.now := trivial
          obtain ⟨rfl, tracked, rfl, rfl | ⟨type, rfl⟩⟩ := relay_cases hr
          · exact ⟨_, rfl, h.count hm (by rfl) (by rfl) (by rfl) conn hbegun _⟩
          · exact ⟨_, rfl, h.count hm (by rfl) (by rfl) (by rfl) conn hbegun _⟩
      | get key =>
          obtain ⟨conn, bytes, hm⟩ := hpre
          obtain ⟨hok, hlasts⟩ := hread key rfl
          unfold execNow at hr
          dsimp only at hr
          rw [hok] at hr
          obtain ⟨rfl, rfl⟩ := Prod.mk.inj (Option.some.inj hr)
          exact ⟨_, ⟨conn, bytes, hm, rfl⟩, h.read hm hlasts _⟩
      | set key value ttlSeconds =>
          obtain ⟨conn, current, bytes, hm, rfl, rfl⟩ := hpre
          obtain ⟨hfailed, halone⟩ := hwrite key _ _ rfl
          obtain ⟨hwritten, rfl | ⟨e, rfl⟩⟩ := execNow_set hr hfailed
          · have hsettled : (Stage.counted conn).Settled := trivial
            exact ⟨.counted conn, ⟨conn, current, bytes, hm, rfl⟩, h.write hm halone hsettled (by rw [hwritten])
              (by rw [hwritten]) (by rw [hwritten]) _⟩
          · have hsettled : Stage.idle.Settled := trivial
            exact ⟨.idle, rfl, h.write hm halone hsettled (by rw [hwritten]) (by rw [hwritten]) (by rw [hwritten]) _⟩
      | _ => exact nomatch hop

/-- **If no handler is disturbed, all bytes are counted** once all handlers have finished. -/
theorem counted {maxHours : Nat} {users : UserTable} {c : Running ι}
    (h : Reaches (gateway maxHours) Undisturbed (Config.start (Gateway.start users)) c) (hidle : c.Idle) :
    Counted c.world := by
  have hinv : ∃ m, EgressInv c.world c.trace m ∧
      ∀ i, Follows gatewayProtocol (fun m _ => m.Settled) (m i) (c.thread i) := by
    refine Reaches.inv (P := gatewayProtocol) (F := Stage.Settled) EgressInv ?_ ?_ ?_ h
    · exact ⟨fun _ => .idle, ⟨fun key => ⟨0, inFlight_zero fun _ => rfl, rfl⟩, fun _ _ he => (nomatch he),
        fun _ => trivial⟩, fun _ => trivial⟩
    · intro c m i call g hI hm _ hg
      obtain ⟨users', rfl, -⟩ := admits_cases hg
      refine ⟨.idle, ⟨fun key => ?_, hI.lasting, ?_⟩, follows_body maxHours call⟩
      · obtain ⟨n, hn, hsum⟩ := hI.balance key
        obtain ⟨rest, rfl, hrest⟩ := hn.update i .idle
        refine ⟨_, hrest, hsum.trans ?_⟩
        rw [hm.held]
        rfl
      · exact (Function.forall_update_iff m fun j stage => Fresh { c.world with users := users' } c.trace j stage).mpr
          ⟨trivial, fun j _ => hI.fresh j⟩
    · intro c m i ch op k r g' hI hG hop hpre hr
      obtain ⟨hnow, hr⟩ := exec_cases hr
      rw [Undisturbed, Config.performs_step hop ch] at hG
      refine (hI.now hnow).step hpre hr ?_ ?_
      · rintro key rfl
        obtain ⟨hok, hlasts⟩ := (Bool.and_eq_true _ _).mp hG
        exact ⟨beq_iff_eq.mp hok, hlasts⟩
      · rintro key value ttlSeconds rfl
        obtain ⟨hfailed, halone⟩ := (Bool.and_eq_true _ _).mp hG
        exact ⟨bne_iff_ne.mp hfailed, (Bool.not_eq_true' _).mp halone⟩
  obtain ⟨m, hI, hF⟩ := hinv
  intro key
  obtain ⟨n, hn, hsum⟩ := hI.balance key
  have hnone : n = 0 := hn.eq_zero fun i => by
    have hi := hF i
    rw [hidle i] at hi
    exact Stage.Settled.held hi key
  rw [hsum, hnone, Nat.add_zero]

end

section Runs

/-- The agent connects, and two handlers are called with a frame each. -/
def twoFrames : List (Act Bool Choice Call) :=
  connects false "s" ++
    ([.call false (.frame "s" emptyFrame), .call true (.frame "s" emptyFrame)] : List (Act Bool Choice Call))

theorem counted_in_turn : Counted ((gateway 8).endOf (Config.start (Gateway.start oneUser))
    (twoFrames ++ steps false 6 ++ steps true 6)).world :=
  counted (reaches_endOf (by decide +kernel) (by decide +kernel)) (by decide +kernel)

/-- Both read the day's counter before either writes it: one frame's bytes are lost. -/
theorem not_counted_together : ¬ ∀ c : Running Bool,
    Reaches (gateway 8) (fun _ _ => True) (Config.start (Gateway.start oneUser)) c → c.Idle → Counted c.world := by
  intro h
  let race : List (Act Bool Choice Call) := twoFrames ++ steps false 2 ++ steps true 6 ++ steps false 4
  have hcounted := h _ (reaches_endOf (System.allowed_true _ _ race) (by decide +kernel)) (by decide +kernel)
    (.daily "u" 0)
  exact absurd hcounted (by decide +kernel)

end Runs

end TimeChamp.Streaming
