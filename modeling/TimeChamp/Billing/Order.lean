import TimeChamp.Billing.Webhook
import TimeChamp.Lib.LastWrite

/-!
# The order of the events

Stripe repeats and reorders its events, and the handlers do not compare their times. The status of a subscription is a
register that the last event decides.

* `sets` : the status that an event sets; `Owns.run` : what deliveries leave in the row;
* `Settled` : the status does not depend on the order, a deletion is final, and a subscription is canceled exactly when
  it has the time of it;
* `settled_iff` : **it holds exactly when all events that set the status set the same, and the time was not there before**.
-/

namespace TimeChamp.Billing
open Lib

/-- The status that an event sets. -/
def sets : StripeEvent → Option SubscriptionStatus
  | .checkoutSessionCompleted session => session.seatCount.map fun _ => .active
  | .subscriptionUpdated stripeSub =>
    if stripeSub.status = "active" then some .active else if stripeSub.status = "past_due" then some .pastDue else none
  | .paymentFailed _ => some .pastDue
  | .subscriptionDeleted _ => some .canceled
  | .paymentSucceeded _ | .trialWillEnd | .other _ => none

def StripeEvent.isDeletion : StripeEvent → Bool
  | subscriptionDeleted _ => true
  | _ => false

theorem sets_eq_canceled {e : StripeEvent} : sets e = some .canceled ↔ e.isDeletion = true := by
  cases e with
  | checkoutSessionCompleted session => cases h : session.seatCount <;> simp [sets, h, StripeEvent.isDeletion]
  | subscriptionUpdated stripeSub =>
      simp only [sets, StripeEvent.isDeletion]
      split_ifs <;> simp
  | _ => simp [sets, StripeEvent.isDeletion]

/-- The rows after some deliveries. -/
def run (prices : Prices) (rows : Rows) (ds : List Delivery) : Rows := ds.foldl (deliver prices) rows

def events (ds : List Delivery) : List StripeEvent := ds.map Delivery.event

section
variable {a : Account} {rows : Rows} {row : Subscription} {prices : Prices}

theorem status_applyTo (prices : Prices) (d : Delivery) (row : Subscription) :
    (applyTo prices d row).status = (sets d.event).getD row.status := by
  obtain ⟨event, now⟩ := d
  cases event with
  | checkoutSessionCompleted session => cases h : session.seatCount <;> simp [applyTo, sets, h, checkedOut]
  | subscriptionUpdated stripeSub =>
      simp only [applyTo, sets, updated]
      split_ifs <;> rfl
  | _ => rfl

theorem canceledAt_applyTo (prices : Prices) (d : Delivery) (row : Subscription) :
    (applyTo prices d row).canceledAt = if d.event.isDeletion then some d.now else row.canceledAt := by
  obtain ⟨event, now⟩ := d
  cases event with
  | checkoutSessionCompleted session => cases h : session.seatCount <;> simp [applyTo, h, checkedOut, StripeEvent.isDeletion]
  | _ => rfl

/-- **What deliveries leave in the row**: the last status that was set, and the time of a deletion if there was one. -/
theorem Owns.run (h : Owns a rows row) (hlinked : Linked a row) {ds : List Delivery} (habout : ∀ e ∈ events ds, About a e) :
    ∃ row', Owns a (run prices rows ds) row' ∧ row'.status = lastWrite sets row.status (events ds) ∧
      (row'.canceledAt.isSome = true ↔ row.canceledAt.isSome = true ∨ ∃ e ∈ events ds, e.isDeletion = true) := by
  induction ds generalizing rows row with
  | nil => exact ⟨row, h, rfl, by simp [events]⟩
  | cons d ds ih =>
      obtain ⟨hd, hds⟩ := List.forall_mem_cons.mp habout
      obtain ⟨howns, hlinked'⟩ : Owns a (Billing.deliver prices rows d) _ ∧ Linked a _ := h.deliver hlinked hd
      obtain ⟨row', howns', hstatus, hcanceled⟩ := ih howns hlinked' hds
      refine ⟨row', howns', ?_, ?_⟩
      · rw [hstatus, status_applyTo]
        rfl
      · rw [hcanceled, canceledAt_applyTo]
        show _ ↔ _ ∨ ∃ e ∈ d.event :: events ds, e.isDeletion = true
        simp only [List.exists_mem_cons_iff]
        cases hdel : d.event.isDeletion <;> simp

/-! ## Order -/

/-- What the subscription of an account is like after a checkout and any deliveries of some events after it. -/
structure Settled (prices : Prices) (a : Account) (rows : Rows) (checkout : Delivery) (E : List StripeEvent) : Prop where
  /-- The status does not depend on the order or on repetitions. -/
  order : ∀ ds ds', SameEvents E (events ds) → SameEvents E (events ds') →
    (subscriptionOf a.organizationId (run prices rows (checkout :: ds))).map Subscription.status =
      (subscriptionOf a.organizationId (run prices rows (checkout :: ds'))).map Subscription.status
  /-- After a deletion the subscription stays canceled, and the organization is locked out. -/
  final : ∀ ds, events ds ⊆ E → (∃ e ∈ events ds, e.isDeletion = true) →
    (subscriptionOf a.organizationId (run prices rows (checkout :: ds))).map Subscription.status = some .canceled ∧
      ∀ active, canActivate active (run prices rows (checkout :: ds)) (some a.organizationId) ≠ .ok true
  /-- It has the time of its cancellation exactly when it is canceled. -/
  canceledAt : ∀ ds, events ds ⊆ E → ∀ row ∈ subscriptionOf a.organizationId (run prices rows (checkout :: ds)),
    row.canceledAt.isSome = true ↔ row.status = .canceled

/-- After the checkout the status is active, and whatever events come after it decide. -/
theorem Owns.run_checkout (h : Owns a rows row) {checkout : Delivery} {session : Session} {seats : Int}
    (hevent : checkout.event = .checkoutSessionCompleted session) (habout : About a checkout.event)
    (hseats : session.seatCount = some seats) {ds : List Delivery} (hds : ∀ e ∈ events ds, About a e) :
    ∃ row', subscriptionOf a.organizationId (Billing.run prices rows (checkout :: ds)) = some row' ∧
      row'.status = lastWrite sets .active (events ds) ∧
      (row'.canceledAt.isSome = true ↔ row.canceledAt.isSome = true ∨ ∃ e ∈ events ds, e.isDeletion = true) := by
  obtain ⟨howns, hlinked⟩ : Owns a (Billing.deliver prices rows checkout) _ ∧ Linked a _ :=
    h.checkout hevent habout hseats
  obtain ⟨row', howns', hstatus, hcanceled⟩ := howns.run hlinked hds
  refine ⟨row', howns'.subscriptionOf_eq, ?_, ?_⟩
  · rw [hstatus, status_applyTo, hevent, sets, hseats]
    rfl
  · rw [hcanceled, canceledAt_applyTo, hevent]
    rfl

theorem canActivate_of_canceled {active : List Uuid} {organizationId : Uuid}
    (h : (subscriptionOf organizationId rows).map Subscription.status = some .canceled) :
    canActivate active rows (some organizationId) ≠ .ok true := by
  simp only [canActivate, if_pos h]
  split_ifs
  · exact nofun
  · exact nofun

/-- Events that agree leave a canceled subscription exactly when one of them is a deletion. -/
theorem lastWrite_eq_canceled {E es : List StripeEvent} (hagree : WritersAgree sets E) (hes : es ⊆ E) :
    lastWrite sets .active es = .canceled ↔ ∃ e ∈ es, e.isDeletion = true := by
  constructor
  · intro hlast
    have hwriter : lastWrite sets .active es = .active ∨ ∃ e ∈ es, sets e = some (lastWrite sets .active es) :=
      lastWrite_cases SubscriptionStatus.active es
    rw [hlast] at hwriter
    rcases hwriter with hfirst | ⟨e, he, hwrite⟩
    · cases hfirst
    · exact ⟨e, he, sets_eq_canceled.mp hwrite⟩
  · rintro ⟨e, he, hdel⟩
    have hsets := sets_eq_canceled.mpr hdel
    refine lastWrite_eq (fun e' he' s hs => hagree e' (hes he') e (hes he) s hs _ hsets) _ (Or.inr ⟨e, he, ?_⟩)
    rw [hsets]
    rfl

/-- **The events of a subscription may come in any order** exactly when all that set the status set the same, and the time
of a cancellation was not there before. -/
theorem settled_iff (h : Owns a rows row) {checkout : Delivery} {session : Session}
    (hevent : checkout.event = .checkoutSessionCompleted session) (habout : About a checkout.event)
    (hseats : session.seatCount.isSome = true) {E : List StripeEvent} (hE : ∀ e ∈ E, About a e) :
    Settled prices a rows checkout E ↔ WritersAgree sets E ∧ row.canceledAt = none := by
  obtain ⟨seats, hseats⟩ := Option.isSome_iff_exists.mp hseats
  have hrun : ∀ ds, events ds ⊆ E → ∃ row',
      subscriptionOf a.organizationId (Billing.run prices rows (checkout :: ds)) = some row' ∧
        row'.status = lastWrite sets .active (events ds) ∧
        (row'.canceledAt.isSome = true ↔ row.canceledAt.isSome = true ∨ ∃ e ∈ events ds, e.isDeletion = true) :=
    fun ds hds => h.run_checkout hevent habout hseats fun e he => hE e (hds he)
  have hstatus : ∀ ds, events ds ⊆ E →
      (subscriptionOf a.organizationId (Billing.run prices rows (checkout :: ds))).map Subscription.status =
        some (lastWrite sets .active (events ds)) := by
    intro ds hds
    obtain ⟨row', hrow', hstatus, -⟩ := hrun ds hds
    rw [hrow', Option.map_some, hstatus]
  constructor
  · intro hsettled
    constructor
    · apply (orderIndependent_iff .active E).mp
      intro es es' hes hes'
      have hevents : ∀ es, events (es.map fun e => ⟨e, 0⟩) = es := fun es => by simp [events, Function.comp_def]
      have heq := hsettled.order (es.map fun e => ⟨e, 0⟩) (es'.map fun e => ⟨e, 0⟩) (by rwa [hevents]) (by rwa [hevents])
      rw [hstatus _ (by rw [hevents]; exact fun e => (hes e).mp), hstatus _ (by rw [hevents]; exact fun e => (hes' e).mp),
        hevents, hevents] at heq
      exact Option.some.inj heq
    · obtain ⟨row', hrow', hactive, hcanceled⟩ := hrun [] (List.nil_subset _)
      have hiff := hsettled.canceledAt [] (List.nil_subset _) row' hrow'
      rw [hcanceled, hactive] at hiff
      simpa [events, lastWrite] using hiff
  · rintro ⟨hagree, hnone⟩
    refine ⟨fun ds ds' hds hds' => ?_, fun ds hds hdel => ?_, fun ds hds row' hrow' => ?_⟩
    · rw [hstatus ds fun e => (hds e).mp, hstatus ds' fun e => (hds' e).mp,
        (orderIndependent_iff .active E).mpr hagree _ _ hds hds']
    · have hcanceled := (hstatus ds hds).trans (congrArg some ((lastWrite_eq_canceled hagree hds).mpr hdel))
      exact ⟨hcanceled, fun active => canActivate_of_canceled hcanceled⟩
    · obtain ⟨row'', hrow'', hlast, hcanceled⟩ := hrun ds hds
      obtain rfl := Option.some.inj (hrow''.symm.trans hrow')
      rw [hcanceled, hnone, hlast, lastWrite_eq_canceled hagree hds]
      simp

end

/-! ### A deletion and a late update -/

section Late

def acme : Account := ⟨⟨"00000000-0000-4000-8000-00000000000a", by decide, by decide⟩, "cus_1", "sub_1"⟩

/-- The row of a trial. -/
def trial : Subscription := ⟨1, acme.organizationId, some "cus_1", none, some "starter", .trialing, 5, none, none, none⟩

def purchase : Session := ⟨"sub_1", "cus_1", acme.organizationId, "25", none⟩

def purchased : Delivery := ⟨.checkoutSessionCompleted purchase, 0⟩

def noPrices : Prices := ⟨none, none, none⟩

theorem owns_trial : Owns acme [trial] trial := ⟨List.mem_singleton_self _, rfl, fun _ hr _ => List.mem_singleton.mp hr⟩

/-- Stripe says that the subscription is active, and then that an invoice was paid. -/
def renewed : List StripeEvent :=
  [.subscriptionUpdated ⟨"sub_1", "active", 1775120400, 1777712400⟩, .paymentSucceeded ⟨"cus_1", some 1777712400⟩,
    purchased.event]

theorem settled_iff_renewed :
    Owns acme [trial] trial ∧ About acme purchased.event ∧ purchase.seatCount.isSome = true ∧
      (∀ e ∈ renewed, About acme e) ∧
      (Settled noPrices acme [trial] purchased renewed ↔ WritersAgree sets renewed ∧ trial.canceledAt = none) :=
  have habout : ∀ e ∈ renewed, About acme e := by decide +kernel
  have hseats : purchase.seatCount.isSome = true := by decide +kernel
  ⟨owns_trial, by decide, hseats, habout, settled_iff owns_trial rfl (by decide) hseats habout⟩

/-- The subscription is deleted, and an update from before arrives late. -/
def lateUpdate : List Delivery :=
  [⟨.subscriptionDeleted ⟨"sub_1", "canceled", 1775120400, 1777712400⟩, 10⟩,
    ⟨.subscriptionUpdated ⟨"sub_1", "active", 1775120400, 1777712400⟩, 20⟩]

theorem not_settled_lateUpdate :
    ¬ ∀ (prices : Prices) (a : Account) (rows : Rows) (row : Subscription) (checkout : Delivery) (session : Session)
      (E : List StripeEvent), Owns a rows row → checkout.event = .checkoutSessionCompleted session →
        About a checkout.event → session.seatCount.isSome = true → (∀ e ∈ E, About a e) →
          Settled prices a rows checkout E := by
  intro h
  have hsettled := h noPrices acme [trial] trial purchased purchase (events lateUpdate) owns_trial rfl (by decide)
    (by decide +kernel) (by decide +kernel)
  have hcanceled := (hsettled.final lateUpdate (fun _ he => he) (by decide +kernel)).1
  exact absurd hcanceled (by decide +kernel)

end Late

end TimeChamp.Billing
