import Mathlib.Data.List.Pairwise
import TimeChamp.Agent.NativeHost
import TimeChamp.Lib.Runs

/-!
# The URL relay

The native messaging host and the agent's URL listener (`listenBrowserURLs` in `cmd/agent/main.go`), with a goroutine
for each connection and no order among these.

* `State`, `step` : the host, the connections not accepted yet, the handlers and `urlCache`;
* `Relay` : what holds of every state while there is room for each connection;
* `InTurn` : no handler stores while that of an older connection still has another URL; `settled_step`;
* `Relayed` : all URLs taken, none overwritten by an older one, and the last one in the cache;
* `relay_iff` : **on every run, and over all runs, when the URLs are relayed**.
-/

namespace TimeChamp.Agent.BrowserURL
open Lib NativeHost

/-! ## The listener -/

/-- How far the handler of a connection is. -/
inductive Handler where
  | reading (sent : Bytes)
  | storing (url : String)
  | closing
  | closed
deriving DecidableEq

/-- The host has these URLs still to forward; what it sent waits in the backlog. `stored` are the stores so far, each
with the number of its connection. -/
structure State where
  pending : List String
  backlog : List Bytes
  handlers : List Handler
  urlCache : String
  stored : List (Nat × String)

def initial (urls : List String) : State := ⟨urls, [], [], "", []⟩

/-- The handlers that hold one of the eight slots. -/
def State.active (s : State) : Nat := s.handlers.countP fun h => h ≠ .closed

inductive Event where
  | forward
  | accept
  | read (i : Nat)
  | store (i : Nat)
  | release (i : Nat)
deriving DecidableEq

/-- What a handler does next with what it was sent. -/
@[irreducible] def Handler.read (sent : Bytes) : Handler :=
  match receive sent with
  | some url => .storing url
  | none => .closing

/-- One step of the host, of the loop that accepts connections, or of the `i`-th handler. The host sends a message with
its connection; a handler that is there before it waits for it. -/
def step : Event → State → Option State
  | .forward, s =>
      match s.pending with
      | [] => none
      | url :: pending => some { s with pending, backlog := s.backlog ++ [forwardURL url] }
  | .accept, s =>
      match s.backlog with
      | [] => none
      | sent :: backlog =>
          -- at capacity the connection is closed
          if s.active < 8 then some { s with backlog, handlers := s.handlers ++ [.reading sent] }
          else some { s with backlog }
  | .read i, s =>
      match s.handlers[i]? with
      | some (.reading sent) => some { s with handlers := s.handlers.set i (.read sent) }
      | _ => none
  | .store i, s =>
      match s.handlers[i]? with
      | some (.storing url) =>
          some { s with urlCache := url, stored := s.stored ++ [(i, url)], handlers := s.handlers.set i .closing }
      | _ => none
  | .release i, s =>
      match s.handlers[i]? with
      | some .closing => some { s with handlers := s.handlers.set i .closed }
      | _ => none

/-- Fewer than eight handlers are active when a connection is accepted. -/
def Room (s : State) (e : Event) : Prop := e = .accept → s.active < 8

/-- All is forwarded and accepted, and all handlers have finished. -/
structure Complete (s : State) : Prop where
  pending : s.pending = []
  backlog : s.backlog = []
  handlers : ∀ h ∈ s.handlers, h = .closed

/-- The URL that a handler has still to store. -/
def Handler.url : Handler → Option String
  | .reading sent => receive sent
  | .storing url => some url
  | _ => none

def State.toStore (s : State) (i : Nat) : Option String := s.handlers[i]?.bind Handler.url

/-- No handler stores while that of an older connection has still to store another URL. -/
def InTurn (s : State) (e : Event) : Prop :=
  ∀ j, e = .store j → ∀ i < j, ∀ url ∈ s.toStore i, ∀ url' ∈ s.toStore j, url = url'

/-- No store came after that of a newer connection, but for the same URL. -/
def Ordered (stored : List (Nat × String)) : Prop := stored.Pairwise fun a b => a.1 < b.1 ∨ a.2 = b.2

/-- The URLs have been relayed: all are taken, none was overwritten by an older one, and the last is in the cache. -/
structure Relayed (urls : List String) (s : State) : Prop where
  taken : ∀ i url, urls[i]? = some url → (i, url) ∈ s.stored
  ordered : Ordered s.stored
  last : s.urlCache = urls.getLast?.getD ""

/-- The message of the URL is not longer than the agent reads. -/
def Fits (url : String) : Prop := (marshal ⟨"url", url⟩).utf8ByteSize ≤ 4096

instance (url : String) : Decidable (Fits url) := inferInstanceAs (Decidable (_ ≤ _))

section
variable {urls : List String} {s s' : State} {e : Event}

/-! ## Steps -/

/-- What a step can do. -/
inductive Stepped (s : State) : Event → State → Prop where
  | forward {url : String} {pending : List String} (h : s.pending = url :: pending) :
      Stepped s .forward { s with pending, backlog := s.backlog ++ [forwardURL url] }
  | accept {sent : Bytes} {backlog : List Bytes} (h : s.backlog = sent :: backlog) (hroom : s.active < 8) :
      Stepped s .accept { s with backlog, handlers := s.handlers ++ [.reading sent] }
  | reject {sent : Bytes} {backlog : List Bytes} (h : s.backlog = sent :: backlog) (hroom : ¬ s.active < 8) :
      Stepped s .accept { s with backlog }
  | read {i : Nat} {sent : Bytes} (h : s.handlers[i]? = some (.reading sent)) :
      Stepped s (.read i) { s with handlers := s.handlers.set i (.read sent) }
  | store {i : Nat} {url : String} (h : s.handlers[i]? = some (.storing url)) : Stepped s (.store i)
      { s with urlCache := url, stored := s.stored ++ [(i, url)], handlers := s.handlers.set i .closing }
  | release {i : Nat} (h : s.handlers[i]? = some .closing) :
      Stepped s (.release i) { s with handlers := s.handlers.set i .closed }

theorem stepped_of_step (h : step e s = some s') : Stepped s e s' := by
  cases e with
  | forward =>
      cases hpending : s.pending with
      | nil => simp [step, hpending] at h
      | cons url pending =>
          simp only [step, hpending, Option.some.injEq] at h
          exact h ▸ .forward hpending
  | accept =>
      cases hbacklog : s.backlog with
      | nil => simp [step, hbacklog] at h
      | cons sent backlog =>
          simp only [step, hbacklog] at h
          split_ifs at h with hroom <;> rw [← Option.some.inj h]
          · exact .accept hbacklog hroom
          · exact .reject hbacklog hroom
  | read i =>
      simp only [step] at h
      split at h
      · next sent hsent => exact Option.some.inj h ▸ .read hsent
      · exact absurd h (by simp)
  | store i =>
      simp only [step] at h
      split at h
      · next url hurl => exact Option.some.inj h ▸ .store hurl
      · exact absurd h (by simp)
  | release i =>
      simp only [step] at h
      split at h
      · next hclosing => exact Option.some.inj h ▸ .release hclosing
      · exact absurd h (by simp)

/-! ## What is still to store -/

theorem Handler.url_read (sent : Bytes) : (Handler.read sent).url = receive sent := by
  unfold Handler.read
  cases receive sent <;> rfl

theorem toStore_of_le {i : Nat} (h : s.handlers.length ≤ i) : s.toStore i = none := by
  rw [State.toStore, List.getElem?_eq_none h, Option.bind_none]

theorem lt_length_of_toStore {i : Nat} {url : String} (h : s.toStore i = some url) : i < s.handlers.length := by
  by_contra hge
  rw [toStore_of_le (by omega)] at h
  exact absurd h (by simp)

theorem toStore_set {i : Nat} {old new : Handler} (h : s.handlers[i]? = some old) (pending : List String)
    (backlog : List Bytes) (urlCache : String) (stored : List (Nat × String)) :
    State.toStore ⟨pending, backlog, s.handlers.set i new, urlCache, stored⟩ =
      Function.update s.toStore i new.url := by
  obtain ⟨hlt, -⟩ := List.getElem?_eq_some_iff.mp h
  funext k
  simp only [State.toStore, List.getElem?_set]
  by_cases hk : i = k
  · subst hk
    rw [if_pos rfl, if_pos hlt, Function.update_self]
    rfl
  · rw [if_neg hk, Function.update_of_ne (Ne.symm hk)]
    rfl

theorem toStore_of_getElem {i : Nat} {h : Handler} (hi : s.handlers[i]? = some h) : s.toStore i = h.url := by
  rw [State.toStore, hi, Option.bind_some]

theorem toStore_set_same {i : Nat} {old new : Handler} (h : s.handlers[i]? = some old) (hurl : new.url = old.url)
    (pending : List String) (backlog : List Bytes) (urlCache : String) (stored : List (Nat × String)) :
    State.toStore ⟨pending, backlog, s.handlers.set i new, urlCache, stored⟩ = s.toStore := by
  rw [toStore_set h, hurl, ← toStore_of_getElem h, Function.update_eq_self]

theorem toStore_append (s : State) (h : Handler) (pending : List String) (backlog : List Bytes) (urlCache : String)
    (stored : List (Nat × String)) : State.toStore ⟨pending, backlog, s.handlers ++ [h], urlCache, stored⟩ =
      Function.update s.toStore s.handlers.length h.url := by
  funext k
  obtain hk | rfl | hk := Nat.lt_trichotomy k s.handlers.length
  · rw [Function.update_of_ne hk.ne, State.toStore, List.getElem?_append_left hk]
    rfl
  · rw [Function.update_self, State.toStore, List.getElem?_concat_length]
    rfl
  · rw [Function.update_of_ne hk.ne', toStore_of_le hk.le]
    exact toStore_of_le (by rw [List.length_append, List.length_singleton]; omega)

/-- **What a step changes of the stores**: a handler stores, a connection is accepted, or nothing. -/
theorem stores_cases (h : step e s = some s') :
    (∃ i url, e = .store i ∧ s.toStore i = some url ∧ s'.toStore = Function.update s.toStore i none ∧
      s'.stored = s.stored ++ [(i, url)] ∧ s'.handlers.length = s.handlers.length) ∨
    (∃ url, (∀ i, e ≠ .store i) ∧ s'.toStore = Function.update s.toStore s.handlers.length url ∧
      s'.stored = s.stored ∧ s'.handlers.length = s.handlers.length + 1) ∨
    ((∀ i, e ≠ .store i) ∧ s'.toStore = s.toStore ∧ s'.stored = s.stored ∧
      s'.handlers.length = s.handlers.length) := by
  cases stepped_of_step h with
  | forward => exact Or.inr (Or.inr ⟨by simp, rfl, rfl, rfl⟩)
  | reject => exact Or.inr (Or.inr ⟨by simp, rfl, rfl, rfl⟩)
  | accept => exact Or.inr (Or.inl ⟨_, by simp, toStore_append _ _ _ _ _ _, rfl, by simp⟩)
  | read hi => exact Or.inr (Or.inr ⟨by simp, toStore_set_same hi (Handler.url_read _) _ _ _ _, rfl, List.length_set⟩)
  | release hi =>
      have hurl : Handler.closed.url = Handler.closing.url := rfl
      exact Or.inr (Or.inr ⟨by simp, toStore_set_same hi hurl _ _ _ _, rfl, List.length_set⟩)
  | store hi => exact Or.inl ⟨_, _, rfl, toStore_of_getElem hi, toStore_set hi _ _ _ _, rfl, List.length_set⟩

/-! ## Stores in turn -/

/-- The handlers that have stored are there, and have nothing more to store. -/
def Known (s : State) : Prop := ∀ p ∈ s.stored, p.1 < s.handlers.length ∧ s.toStore p.1 = none

/-- The stores are in order, and no older connection has still to store another URL than a newer one has. -/
structure Settled (s : State) : Prop where
  ordered : Ordered s.stored
  older : ∀ p ∈ s.stored, ∀ i < p.1, ∀ url ∈ s.toStore i, url = p.2

theorem Known.step (h : Known s) (hs : BrowserURL.step e s = some s') : Known s' := by
  intro p hp
  obtain ⟨i, url, -, hsome, hstores, hstored, hlength⟩ | ⟨url, -, hstores, hstored, hlength⟩ |
    ⟨-, hstores, hstored, hlength⟩ := stores_cases hs
  · rw [hstored, List.mem_append, List.mem_singleton] at hp
    rw [hstores, hlength]
    obtain hp | rfl := hp
    · obtain ⟨hlt, hnone⟩ := h p hp
      refine ⟨hlt, ?_⟩
      rw [Function.update_apply, hnone, ite_self]
    · exact ⟨lt_length_of_toStore hsome, Function.update_self ..⟩
  · obtain ⟨hlt, hnone⟩ := h p (hstored ▸ hp)
    rw [hstores, hlength, Function.update_of_ne (by omega)]
    exact ⟨by omega, hnone⟩
  · rw [hstores, hlength]
    exact h p (hstored ▸ hp)

theorem ordered_append {stored : List (Nat × String)} {p : Nat × String} :
    Ordered (stored ++ [p]) ↔ Ordered stored ∧ ∀ q ∈ stored, q.1 < p.1 ∨ q.2 = p.2 := by
  unfold Ordered
  rw [List.pairwise_append]
  simp

theorem inTurn_of_ne (h : ∀ i, e ≠ .store i) : InTurn s e := fun i hi => absurd hi (h i)

theorem inTurn_store {i : Nat} {url : String} (h : s.toStore i = some url) :
    InTurn s (.store i) ↔ ∀ k < i, ∀ older ∈ s.toStore k, older = url := by
  constructor
  · intro hturn k hk older holder
    exact hturn i rfl k hk older holder url h
  · intro hall j hj k hk older holder url' hurl'
    obtain rfl := Event.store.inj hj
    rw [h] at hurl'
    rw [hall k hk older holder]
    exact Option.some.inj hurl'

/-- Without a store, what the older connections have still to store decides. -/
theorem settled_congr (hstored : s'.stored = s.stored)
    (hother : ∀ p ∈ s.stored, ∀ k < p.1, s'.toStore k = s.toStore k) : Settled s' ↔ Settled s := by
  constructor
  · rintro ⟨hordered, holder⟩
    rw [hstored] at hordered holder
    exact ⟨hordered, fun p hp k hk older hmem => holder p hp k hk older (hother p hp k hk ▸ hmem)⟩
  · rintro ⟨hordered, holder⟩
    refine ⟨hstored ▸ hordered, fun p hp k hk older hmem => ?_⟩
    rw [hstored] at hp
    exact holder p hp k hk older (hother p hp k hk ▸ hmem)

/-- A store leads to a settled state exactly from one in which the older connections have the same URL to store. -/
theorem settled_store {i : Nat} {url : String} (hknown : Known s) (hsome : s.toStore i = some url)
    (hstores : s'.toStore = Function.update s.toStore i none) (hstored : s'.stored = s.stored ++ [(i, url)]) :
    Settled s' ↔ Settled s ∧ ∀ k < i, ∀ older ∈ s.toStore k, older = url := by
  have hother : ∀ k, k ≠ i → s'.toStore k = s.toStore k := fun k hk => by rw [hstores, Function.update_of_ne hk]
  constructor
  · rintro ⟨hordered, holder⟩
    rw [hstored] at hordered holder
    obtain ⟨hbefore, hlast⟩ := ordered_append.mp hordered
    refine ⟨⟨hbefore, fun p hp k hk older hmem => ?_⟩, fun k hk older hmem => ?_⟩
    · by_cases hki : k = i
      · subst hki
        obtain rfl := Option.some.inj (hsome.symm.trans hmem)
        obtain hlt | heq := hlast p hp
        · exact absurd hk (by dsimp only at hlt; omega)
        · exact heq.symm
      · exact holder p (List.mem_append_left _ hp) k hk older (hother k hki ▸ hmem)
    · exact holder (i, url) List.mem_concat_self k hk older (hother k (by omega) ▸ hmem)
  · rintro ⟨⟨hordered, holder⟩, hturn⟩
    constructor
    · rw [hstored, ordered_append]
      refine ⟨hordered, fun p hp => ?_⟩
      obtain hlt | heq | hgt := Nat.lt_trichotomy p.1 i
      · exact Or.inl hlt
      · rw [← heq, (hknown p hp).2] at hsome
        exact absurd hsome (by simp)
      · exact Or.inr (holder p hp i hgt url hsome).symm
    · intro p hp k hk older hmem
      have hki : k ≠ i := by
        rintro rfl
        rw [hstores, Function.update_self] at hmem
        exact absurd hmem (by simp)
      rw [hother k hki] at hmem
      rw [hstored, List.mem_append, List.mem_singleton] at hp
      obtain hp | rfl := hp
      · exact holder p hp k hk older hmem
      · exact hturn k hk older hmem

/-- **A step leads to a settled state** exactly from one, in turn. -/
theorem settled_step (hknown : Known s) (h : step e s = some s') : Settled s' ↔ Settled s ∧ InTurn s e := by
  obtain ⟨i, url, rfl, hsome, hstores, hstored, -⟩ | ⟨url, hne, hstores, hstored, -⟩ | ⟨hne, hstores, hstored, -⟩ :=
    stores_cases h
  · rw [inTurn_store hsome]
    exact settled_store hknown hsome hstores hstored
  · rw [and_iff_left (inTurn_of_ne hne)]
    apply settled_congr hstored
    intro p hp k hk
    have hlt := (hknown p hp).1
    rw [hstores, Function.update_of_ne (by omega)]
  · rw [and_iff_left (inTurn_of_ne hne)]
    exact settled_congr hstored fun _ _ k _ => congrFun hstores k

/-- **In the end of a run the stores are in order** exactly when each was in turn. -/
theorem ordered_iff_inTurn {es : List Event} (h : play step (initial urls) es = some s) (hcomplete : Complete s) :
    Ordered s.stored ↔ Allowed step InTurn (initial urls) es := by
  have hinit : Settled (initial urls) := ⟨List.Pairwise.nil, fun p hp => absurd hp List.not_mem_nil⟩
  obtain ⟨-, hiff⟩ := holds_iff_allowed (R := Known) (I := Settled) (G := InTurn) h
    (fun p hp => absurd hp List.not_mem_nil) hinit (fun s e s' hknown hs => ⟨hknown.step hs, settled_step hknown hs⟩)
  rw [← hiff]
  refine ⟨fun hordered => ⟨hordered, fun p _ i _ url hurl => ?_⟩, Settled.ordered⟩
  -- all handlers have finished
  obtain ⟨handler, hhandler, hsome⟩ := Option.bind_eq_some_iff.mp hurl
  rw [hcomplete.handlers handler (List.mem_of_getElem? hhandler)] at hsome
  exact absurd hsome (by simp [Handler.url])

/-! ## What becomes of each URL -/

/-- What the handler of a connection makes of the URL that was forwarded on it. -/
def Handler.Serves (stored : List (Nat × String)) (i : Nat) (url : String) : Handler → Prop
  | .reading sent => sent = forwardURL url
  | .storing found => found = url ∧ Fits url
  | _ => Fits url → (i, url) ∈ stored

theorem Handler.Serves.mono {stored more : List (Nat × String)} {i : Nat} {url : String} {h : Handler}
    (hserves : h.Serves stored i url) : h.Serves (stored ++ more) i url := by
  cases h with
  | reading sent => exact hserves
  | storing found => exact hserves
  | closing => exact fun hfits => List.mem_append_left _ (hserves hfits)
  | closed => exact fun hfits => List.mem_append_left _ (hserves hfits)

/-- What holds as long as there is room for each connection: they are accepted in the order of the URLs, each handler
serves its URL, and the cache has what was stored last. -/
structure Relay (urls : List String) (s : State) : Prop where
  queue : s.backlog ++ s.pending.map forwardURL = (urls.drop s.handlers.length).map forwardURL
  serves : ∀ i (h : Handler), s.handlers[i]? = some h → ∃ url, urls[i]? = some url ∧ h.Serves s.stored i url
  stored : ∀ p ∈ s.stored, urls[p.1]? = some p.2 ∧ Fits p.2
  cache : s.urlCache = (s.stored.getLast?.map Prod.snd).getD ""

theorem relay_initial (urls : List String) : Relay urls (initial urls) :=
  ⟨rfl, fun i h hi => absurd hi (by simp [initial]), fun p hp => absurd hp List.not_mem_nil, rfl⟩

/-- The others serve as before when one handler goes on. -/
theorem serves_set {stored stored' : List (Nat × String)} {handlers : List Handler} {i : Nat} {new : Handler}
    {url : String} (h : ∀ k (h : Handler), handlers[k]? = some h → ∃ url, urls[k]? = some url ∧ h.Serves stored k url)
    (hmono : ∀ k h url, Handler.Serves stored k url h → h.Serves stored' k url) (hurl : urls[i]? = some url)
    (hnew : new.Serves stored' i url) (k : Nat) (handler : Handler) (hk : (handlers.set i new)[k]? = some handler) :
    ∃ url, urls[k]? = some url ∧ handler.Serves stored' k url := by
  rw [List.getElem?_set] at hk
  split_ifs at hk with hik hlt
  · obtain rfl := Option.some.inj hk
    subst hik
    exact ⟨url, hurl, hnew⟩
  · obtain ⟨found, hfound, hserves⟩ := h k handler hk
    exact ⟨found, hfound, hmono k handler found hserves⟩

/-- The URLs can be written with a length of 32 bits, and are there. -/
def Short (urls : List String) : Prop := ∀ url ∈ urls, url ≠ "" ∧ (marshal ⟨"url", url⟩).utf8ByteSize < 2 ^ 32

theorem receive_of_fits {url : String} (hshort : Short urls) (hurl : url ∈ urls) (hfits : Fits url) :
    receive (forwardURL url) = some url := by
  rw [receive_forwardURL (hshort url hurl).1 (hshort url hurl).2]
  exact if_pos hfits

theorem receive_of_not_fits {url : String} (hshort : Short urls) (hurl : url ∈ urls) (hfits : ¬ Fits url) :
    receive (forwardURL url) = none := by
  rw [receive_forwardURL (hshort url hurl).1 (hshort url hurl).2]
  exact if_neg hfits

theorem Handler.read_of_some {sent : Bytes} {url : String} (h : receive sent = some url) :
    Handler.read sent = .storing url := by
  rw [Handler.read, h]

theorem Handler.read_of_none {sent : Bytes} (h : receive sent = none) : Handler.read sent = .closing := by
  rw [Handler.read, h]

theorem Handler.serves_read {stored : List (Nat × String)} {i : Nat} {url : String} (hshort : Short urls)
    (hurl : urls[i]? = some url) : (Handler.read (forwardURL url)).Serves stored i url := by
  have hmem := List.mem_of_getElem? hurl
  obtain hfits | hfits := Classical.em (Fits url)
  · rw [Handler.read_of_some (receive_of_fits hshort hmem hfits)]
    exact ⟨rfl, hfits⟩
  · rw [Handler.read_of_none (receive_of_not_fits hshort hmem hfits)]
    exact fun h => absurd h hfits

theorem Relay.next (h : Relay urls s) {sent : Bytes} {backlog : List Bytes} (hbacklog : s.backlog = sent :: backlog) :
    ∃ url, urls[s.handlers.length]? = some url ∧ sent = forwardURL url ∧
      backlog ++ s.pending.map forwardURL = (urls.drop (s.handlers.length + 1)).map forwardURL := by
  have hqueue := h.queue
  rw [hbacklog] at hqueue
  cases hdrop : urls.drop s.handlers.length with
  | nil =>
      rw [hdrop] at hqueue
      exact absurd hqueue (by simp)
  | cons url rest =>
      rw [hdrop, List.map_cons] at hqueue
      obtain ⟨hsent, hrest⟩ := List.cons.inj hqueue
      refine ⟨url, ?_, hsent, ?_⟩
      · rw [← Nat.add_zero s.handlers.length, ← List.getElem?_drop, hdrop]
        rfl
      · rw [← List.drop_drop, hdrop]
        exact hrest

/-- **A step keeps it.** -/
theorem Relay.step (hshort : Short urls) (h : Relay urls s) (hroom : Room s e) (hs : BrowserURL.step e s = some s') :
    Relay urls s' := by
  cases stepped_of_step hs with
  | forward hpending =>
      refine ⟨?_, h.serves, h.stored, h.cache⟩
      have hqueue := h.queue
      rw [hpending] at hqueue
      rw [← hqueue, List.append_assoc]
      rfl
  | reject _ hfull => exact absurd (hroom rfl) hfull
  | accept hbacklog hroom =>
      obtain ⟨url, hurl, rfl, hrest⟩ := h.next hbacklog
      refine ⟨?_, fun k handler hk => ?_, h.stored, h.cache⟩
      · rw [List.length_append, List.length_singleton]
        exact hrest
      · obtain hlt | rfl | hgt := Nat.lt_trichotomy k s.handlers.length
        · rw [List.getElem?_append_left hlt] at hk
          exact h.serves k handler hk
        · rw [List.getElem?_concat_length] at hk
          exact ⟨url, hurl, Option.some.inj hk ▸ rfl⟩
        · rw [List.getElem?_eq_none (by rw [List.length_append, List.length_singleton]; omega)] at hk
          exact absurd hk (by simp)
  | read hi =>
      obtain ⟨url, hurl, hsent⟩ := h.serves _ _ hi
      obtain rfl := hsent
      refine ⟨?_, serves_set h.serves (fun _ _ _ => id) hurl (Handler.serves_read hshort hurl), h.stored, h.cache⟩
      rw [List.length_set]
      exact h.queue
  | store hi =>
      obtain ⟨url, hurl, rfl, hfits⟩ := h.serves _ _ hi
      refine ⟨?_, serves_set h.serves (fun _ _ _ => Handler.Serves.mono) hurl fun _ => List.mem_concat_self, ?_, ?_⟩
      · rw [List.length_set]
        exact h.queue
      · intro p hp
        rw [List.mem_append, List.mem_singleton] at hp
        obtain hp | rfl := hp
        · exact h.stored p hp
        · exact ⟨hurl, hfits⟩
      · simp
  | release hi =>
      obtain ⟨url, hurl, hstored⟩ := h.serves _ _ hi
      refine ⟨?_, serves_set h.serves (fun _ _ _ => id) hurl hstored, h.stored, h.cache⟩
      rw [List.length_set]
      exact h.queue

theorem relay_of_reached (hshort : Short urls) (h : Reached step Room (initial urls) s) : Relay urls s :=
  h.inv (relay_initial urls) fun _ _ _ hrelay hroom hs => hrelay.step hshort hroom hs

/-- When all handlers have finished, every URL that fits has been stored. -/
theorem Relay.taken (h : Relay urls s) (hcomplete : Complete s) {i : Nat} {url : String} (hi : urls[i]? = some url)
    (hfits : Fits url) : (i, url) ∈ s.stored := by
  have hqueue := h.queue
  rw [hcomplete.backlog, hcomplete.pending] at hqueue
  have hlength : urls.length ≤ s.handlers.length := by
    have hnil := congrArg List.length hqueue
    simp only [List.map_nil, List.append_nil, List.length_nil, List.length_map, List.length_drop] at hnil
    omega
  obtain ⟨hlt, -⟩ := List.getElem?_eq_some_iff.mp hi
  have hthere : i < s.handlers.length := by omega
  have hhandler : s.handlers[i]? = some s.handlers[i] := List.getElem?_eq_getElem hthere
  obtain ⟨found, hfound, hserves⟩ := h.serves i _ hhandler
  rw [hcomplete.handlers _ (List.mem_of_getElem? hhandler)] at hserves
  rw [hi, Option.some.injEq] at hfound
  exact hfound ▸ hserves (hfound ▸ hfits)

/-- In order, the store of the last URL is the last, or one of the same URL. -/
theorem Relay.last (h : Relay urls s) (htaken : ∀ i url, urls[i]? = some url → (i, url) ∈ s.stored)
    (hordered : Ordered s.stored) : s.urlCache = urls.getLast?.getD "" := by
  rw [h.cache]
  obtain hnil | ⟨before, p, hstored⟩ := List.eq_nil_or_concat s.stored
  · -- with nothing stored there was no URL
    have hurls : urls = [] := List.eq_nil_iff_forall_not_mem.mpr fun url hurl => by
      obtain ⟨i, hi⟩ := List.mem_iff_getElem?.mp hurl
      have hmem := htaken i url hi
      rw [hnil] at hmem
      exact absurd hmem List.not_mem_nil
    rw [hnil, hurls]
    rfl
  · rw [List.concat_eq_append] at hstored
    have hlast := (h.stored p (hstored ▸ List.mem_concat_self)).1
    obtain ⟨hlt, -⟩ := List.getElem?_eq_some_iff.mp hlast
    obtain ⟨url, hurl⟩ : ∃ url, urls.getLast? = some url :=
      Option.ne_none_iff_exists'.mp fun hnone => by
        rw [List.getLast?_eq_none_iff.mp hnone] at hlt
        exact absurd hlt (by simp)
    have hmem := htaken (urls.length - 1) url (by rw [← List.getLast?_eq_getElem?, hurl])
    rw [hurl, hstored, List.getLast?_concat, Option.map_some, Option.getD_some, Option.getD_some]
    rw [hstored] at hmem hordered
    obtain hbefore | heq := List.mem_append.mp hmem
    · obtain hless | hsame := (ordered_append.mp hordered).2 _ hbefore
      · dsimp only at hless
        omega
      · exact hsame.symm
    · rw [← List.mem_singleton.mp heq]

/-- **When the URLs have been relayed.** -/
theorem Relay.relayed_iff (h : Relay urls s) (hcomplete : Complete s) :
    Relayed urls s ↔ (∀ url ∈ urls, Fits url) ∧ Ordered s.stored := by
  constructor
  · intro hrelayed
    refine ⟨fun url hurl => ?_, hrelayed.ordered⟩
    obtain ⟨i, hi⟩ := List.mem_iff_getElem?.mp hurl
    exact (h.stored _ (hrelayed.taken i url hi)).2
  · rintro ⟨hfits, hordered⟩
    have htaken : ∀ i url, urls[i]? = some url → (i, url) ∈ s.stored := fun i url hi =>
      h.taken hcomplete hi (hfits url (List.mem_of_getElem? hi))
    exact ⟨htaken, hordered, h.last htaken hordered⟩

/-! ## Schedules -/

/-- Between two messages: nothing waits, and all handlers have finished. -/
structure Idle (s : State) : Prop where
  backlog : s.backlog = []
  handlers : ∀ h ∈ s.handlers, h = .closed

theorem set_concat (hs : List Handler) (h h' : Handler) : (hs ++ [h]).set hs.length h' = hs ++ [h'] := by
  rw [List.set_append_right _ _ (Nat.le_refl _), Nat.sub_self, List.set_cons_zero]

theorem active_eq_zero {s : State} (h : ∀ h ∈ s.handlers, h = .closed) : s.active = 0 :=
  List.countP_eq_zero.mpr fun handler hmem => by simp [h handler hmem]

theorem closed_concat {hs : List Handler} (h : ∀ h ∈ hs, h = .closed) : ∀ h ∈ hs ++ [Handler.closed], h = .closed :=
  fun handler hmem => (List.mem_append.mp hmem).elim (h handler) List.mem_singleton.mp

section
variable {pending : List String} {backlog : List Bytes} {hs : List Handler} {urlCache url : String}
  {stored : List (Nat × String)} {sent : Bytes} {i : Nat}

theorem step_forward : step .forward ⟨url :: pending, backlog, hs, urlCache, stored⟩ =
    some ⟨pending, backlog ++ [forwardURL url], hs, urlCache, stored⟩ := rfl

theorem step_accept (h : (⟨pending, sent :: backlog, hs, urlCache, stored⟩ : State).active < 8) :
    step .accept ⟨pending, sent :: backlog, hs, urlCache, stored⟩ =
      some ⟨pending, backlog, hs ++ [.reading sent], urlCache, stored⟩ := if_pos h

theorem step_read (h : hs[i]? = some (.reading sent)) : step (.read i) ⟨pending, backlog, hs, urlCache, stored⟩ =
    some ⟨pending, backlog, hs.set i (.read sent), urlCache, stored⟩ := by
  simp only [step, h]

theorem step_store (h : hs[i]? = some (.storing url)) : step (.store i) ⟨pending, backlog, hs, urlCache, stored⟩ =
    some ⟨pending, backlog, hs.set i .closing, url, stored ++ [(i, url)]⟩ := by
  simp only [step, h]

theorem step_release (h : hs[i]? = some .closing) : step (.release i) ⟨pending, backlog, hs, urlCache, stored⟩ =
    some ⟨pending, backlog, hs.set i .closed, urlCache, stored⟩ := by
  simp only [step, h]

end

theorem room_of_ne (h : e ≠ .accept) : Room s e := fun he => absurd he h

theorem serve {rest : List String} {url : String} (h : Reached step Room (initial urls) s) (hidle : Idle s)
    (hpending : s.pending = url :: rest) : ∃ s', Reached step Room (initial urls) s' ∧ Idle s' ∧ s'.pending = rest ∧
      ∃ more, s'.stored = s.stored ++ more := by
  obtain ⟨pending, backlog, hs, urlCache, stored⟩ := s
  obtain ⟨hbacklog, hclosed⟩ := hidle
  dsimp only at hpending hbacklog hclosed
  subst hpending hbacklog
  have hroom : (⟨rest, [] ++ [forwardURL url], hs, urlCache, stored⟩ : State).active < 8 := by
    rw [active_eq_zero hclosed]
    omega
  have haccepted := (h.next (room_of_ne (by decide)) step_forward).next (fun _ => hroom) (step_accept hroom)
  have hread := haccepted.next (room_of_ne (by simp)) (step_read List.getElem?_concat_length)
  rw [set_concat] at hread
  cases hreceive : receive (forwardURL url) with
  | none =>
      rw [Handler.read_of_none hreceive] at hread
      have hdone := hread.next (room_of_ne (by simp)) (step_release List.getElem?_concat_length)
      rw [set_concat] at hdone
      exact ⟨_, hdone, ⟨rfl, closed_concat hclosed⟩, rfl, [], (List.append_nil _).symm⟩
  | some found =>
      rw [Handler.read_of_some hreceive] at hread
      have hstored := hread.next (room_of_ne (by simp)) (step_store List.getElem?_concat_length)
      rw [set_concat] at hstored
      have hdone := hstored.next (room_of_ne (by simp)) (step_release List.getElem?_concat_length)
      rw [set_concat] at hdone
      exact ⟨_, hdone, ⟨rfl, closed_concat hclosed⟩, rfl, _, rfl⟩

theorem serve_all {rest : List String} (before : List String) (h : Reached step Room (initial urls) s) (hidle : Idle s)
    (hpending : s.pending = before ++ rest) : ∃ s', Reached step Room (initial urls) s' ∧ Idle s' ∧ s'.pending = rest ∧
      ∃ more, s'.stored = s.stored ++ more := by
  induction before generalizing s with
  | nil => exact ⟨s, h, hidle, hpending, [], (List.append_nil _).symm⟩
  | cons url before ih =>
      obtain ⟨t, ht, hidle', hpending', more, hstored⟩ := serve h hidle hpending
      obtain ⟨s', hs', hidle'', hrest, more', hstored'⟩ := ih ht hidle' hpending'
      exact ⟨s', hs', hidle'', hrest, more ++ more', by rw [hstored', hstored, List.append_assoc]⟩

section
variable (hs : List Handler) (a b c : Handler)

theorem getElem?_first : (hs ++ [a, b])[hs.length]? = some a := by simp

theorem getElem?_second : (hs ++ [a, b])[hs.length + 1]? = some b := by simp

theorem set_first : (hs ++ [a, b]).set hs.length c = hs ++ [c, b] := by simp

theorem set_second : (hs ++ [a, b]).set (hs.length + 1) c = hs ++ [a, c] := by simp

end

/-- **Two messages whose handlers run at once**: the second stores first, and the first has the last word. -/
theorem swap {rest : List String} {url url' : String} (h : Reached step Room (initial urls) s) (hidle : Idle s)
    (hpending : s.pending = url :: url' :: rest) (hurl : receive (forwardURL url) = some url)
    (hurl' : receive (forwardURL url') = some url') :
    ∃ s', Reached step Room (initial urls) s' ∧ Idle s' ∧ s'.pending = rest ∧ s'.urlCache = url ∧
      s'.stored = s.stored ++ [(s.handlers.length + 1, url'), (s.handlers.length, url)] := by
  obtain ⟨pending, backlog, hs, urlCache, stored⟩ := s
  obtain ⟨hbacklog, hclosed⟩ := hidle
  dsimp only at hpending hbacklog hclosed
  subst hpending hbacklog
  have hroom : (⟨rest, [forwardURL url, forwardURL url'], hs, urlCache, stored⟩ : State).active < 8 := by
    rw [active_eq_zero hclosed]
    omega
  have hroom' : (⟨rest, [forwardURL url'], hs ++ [.reading (forwardURL url)], urlCache, stored⟩ : State).active < 8 := by
    have hzero : hs.countP (fun h => h ≠ .closed) = 0 :=
      List.countP_eq_zero.mpr fun handler hmem => by simp [hclosed handler hmem]
    rw [State.active, List.countP_append, hzero]
    simp
  have hsent := (h.next (room_of_ne (by decide)) step_forward).next (room_of_ne (by decide)) step_forward
  have haccepted := (hsent.next (fun _ => hroom) (step_accept hroom)).next (fun _ => hroom') (step_accept hroom')
  rw [List.append_assoc, List.singleton_append] at haccepted
  have hread := haccepted.next (room_of_ne (by simp)) (step_read (getElem?_first hs _ _))
  rw [set_first, Handler.read_of_some hurl] at hread
  have hread' := hread.next (room_of_ne (by simp)) (step_read (getElem?_second hs _ _))
  rw [set_second, Handler.read_of_some hurl'] at hread'
  have hnewer := hread'.next (room_of_ne (by simp)) (step_store (getElem?_second hs _ _))
  rw [set_second] at hnewer
  have holder := hnewer.next (room_of_ne (by simp)) (step_store (getElem?_first hs _ _))
  rw [set_first] at holder
  have hclosing := holder.next (room_of_ne (by simp)) (step_release (getElem?_first hs _ _))
  rw [set_first] at hclosing
  have hdone := hclosing.next (room_of_ne (by simp)) (step_release (getElem?_second hs _ _))
  rw [set_second] at hdone
  refine ⟨_, hdone, ⟨rfl, fun handler hmem => ?_⟩, rfl, rfl, List.append_assoc _ _ _⟩
  obtain hmem | hmem := List.mem_append.mp hmem
  · exact hclosed handler hmem
  · simpa using hmem

theorem eq_of_neighbours {urls : List String}
    (h : ∀ before url url' rest, urls = before ++ url :: url' :: rest → url = url') :
    ∀ a ∈ urls, ∀ b ∈ urls, a = b := by
  induction urls with
  | nil => exact fun a ha => absurd ha List.not_mem_nil
  | cons x rest ih =>
      have hrest := ih fun before url url' more heq => h (x :: before) url url' more (by rw [heq]; rfl)
      have hx : ∀ b ∈ rest, x = b := by
        intro b hb
        cases rest with
        | nil => exact absurd hb List.not_mem_nil
        | cons y more => exact (h [] x y more rfl).trans (hrest y List.mem_cons_self b hb)
      intro a ha b hb
      obtain rfl | ha' := List.mem_cons.mp ha
      · obtain rfl | hb' := List.mem_cons.mp hb
        · rfl
        · exact hx b hb'
      · obtain rfl | hb' := List.mem_cons.mp hb
        · exact (hx a ha').symm
        · exact hrest a ha' b hb'

theorem Idle.complete (h : Idle s) (hpending : s.pending = []) : Complete s := ⟨hpending, h.backlog, h.handlers⟩

theorem idle_initial (urls : List String) : Idle (initial urls) := ⟨rfl, fun _ hmem => absurd hmem List.not_mem_nil⟩

/-- Where all runs relay the URLs, each of these fits, and they are all the same. -/
theorem same_of_relayed (hshort : Short urls)
    (hall : ∀ s, Reached step Room (initial urls) s → Complete s → Relayed urls s) :
    (∀ url ∈ urls, Fits url) ∧ ∀ a ∈ urls, ∀ b ∈ urls, a = b := by
  have hfits : ∀ url ∈ urls, Fits url := by
    obtain ⟨s, hs, hidle, hpending, -⟩ :=
      serve_all urls .start (idle_initial urls) (List.append_nil urls).symm
    have hcomplete := hidle.complete hpending
    exact ((relay_of_reached hshort hs).relayed_iff hcomplete).mp (hall s hs hcomplete) |>.1
  refine ⟨hfits, eq_of_neighbours fun before url url' rest heq => ?_⟩
  have htaken : ∀ u ∈ urls, receive (forwardURL u) = some u := fun u hu => receive_of_fits hshort hu (hfits u hu)
  obtain ⟨s, hs, hidle, hpending, -⟩ := serve_all before .start (idle_initial urls) heq
  obtain ⟨t, ht, hidle', hpending', -, hstored⟩ := swap hs hidle hpending
    (htaken url (by simp [heq])) (htaken url' (by simp [heq]))
  obtain ⟨s', hs', hidle'', hpending'', more, hstored'⟩ :=
    serve_all rest ht hidle' (hpending'.trans (List.append_nil rest).symm)
  have hordered := (hall s' hs' (hidle''.complete hpending'')).ordered
  rw [hstored', hstored] at hordered
  obtain ⟨hpair, -⟩ := List.pairwise_append.mp hordered
  obtain ⟨-, hpair, -⟩ := List.pairwise_append.mp hpair
  obtain hlt | hsame := (List.pairwise_cons.mp hpair).1 _ List.mem_cons_self
  · dsimp only at hlt
    omega
  · exact hsame.symm

theorem relayed_of_same (hshort : Short urls) (hfits : ∀ url ∈ urls, Fits url) (hsame : ∀ a ∈ urls, ∀ b ∈ urls, a = b)
    (h : Reached step Room (initial urls) s) (hcomplete : Complete s) : Relayed urls s := by
  have hrelay := relay_of_reached hshort h
  refine (hrelay.relayed_iff hcomplete).mpr ⟨hfits, ?_⟩
  have hmem : ∀ p ∈ s.stored, p.2 ∈ urls := fun p hp => List.mem_of_getElem? (hrelay.stored p hp).1
  exact List.pairwise_of_forall_mem_list fun p hp q hq => Or.inr (hsame _ (hmem p hp) _ (hmem q hq))

end

theorem short_forwardedURLs (stdin : Bytes) : Short (forwardedURLs stdin) := fun _ h => size_of_mem_forwardedURLs h

/-- **The relay.** Whatever the host reads, all schedules relay its URLs exactly when each message is short enough for
the agent and all URLs are the same. A single run relays them exactly when each message is short enough and every
handler stores in turn. -/
theorem relay_iff (stdin : Bytes) :
    ((∀ s, Reached step Room (initial (forwardedURLs stdin)) s → Complete s → Relayed (forwardedURLs stdin) s) ↔
      (∀ url ∈ forwardedURLs stdin, Fits url) ∧ ∀ a ∈ forwardedURLs stdin, ∀ b ∈ forwardedURLs stdin, a = b) ∧
    ∀ es s, play step (initial (forwardedURLs stdin)) es = some s →
      Allowed step Room (initial (forwardedURLs stdin)) es → Complete s →
      (Relayed (forwardedURLs stdin) s ↔
        (∀ url ∈ forwardedURLs stdin, Fits url) ∧ Allowed step InTurn (initial (forwardedURLs stdin)) es) := by
  have hshort := short_forwardedURLs stdin
  refine ⟨⟨same_of_relayed hshort, fun h s hs hcomplete => relayed_of_same hshort h.1 h.2 hs hcomplete⟩, ?_⟩
  intro es s hplay hroom hcomplete
  have hrelay := relay_of_reached hshort (Reached.start.play hroom hplay)
  rw [hrelay.relayed_iff hcomplete, ordered_iff_inTurn hplay hcomplete]

section Runs

/-- Two pages, one after the other. -/
def twoPages : Bytes := [(⟨"url", "https://a.example/"⟩ : Message), ⟨"url", "https://b.example/"⟩].flatMap frame

theorem forwardedURLs_twoPages : forwardedURLs twoPages = ["https://a.example/", "https://b.example/"] := by
  have hsmall : ∀ msg ∈ [(⟨"url", "https://a.example/"⟩ : Message), ⟨"url", "https://b.example/"⟩],
      (marshal msg).utf8ByteSize ≤ 1 <<< 20 := by decide +kernel
  rw [forwardedURLs, twoPages, messagesRead_frames hsmall]
  decide +kernel

/-- The handler of the first page stores last, and the cache is left with the first page. -/
theorem not_relayed : ¬ ∀ stdin s, Reached step Room (initial (forwardedURLs stdin)) s → Complete s →
    s.urlCache = (forwardedURLs stdin).getLast?.getD "" := by
  intro h
  have hurls := forwardedURLs_twoPages
  have hshort := short_forwardedURLs twoPages
  have hfits : ∀ url ∈ forwardedURLs twoPages, Fits url := by
    rw [hurls]
    decide +kernel
  have htaken : ∀ url ∈ forwardedURLs twoPages, receive (forwardURL url) = some url := fun url hurl =>
    receive_of_fits hshort hurl (hfits url hurl)
  obtain ⟨s, hs, hidle, hpending, hcache, -⟩ := swap .start (idle_initial _) hurls
    (htaken "https://a.example/" (by simp [hurls])) (htaken "https://b.example/" (by simp [hurls]))
  have hlast := h twoPages s hs (hidle.complete hpending)
  rw [hcache, hurls] at hlast
  exact absurd hlast (by decide)

end Runs

end TimeChamp.Agent.BrowserURL
