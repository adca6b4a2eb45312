import TimeChamp.Lib.Texts
import TimeChamp.Registration.PersonalToken

/-!
# The Stripe webhook

Stripe tells the service what becomes of the subscriptions. The service keeps a row for each organization, which guards
every request.

* `Subscription`, `StripeEvent` : the rows, and what Stripe sends;
* `handleWebhook`, `deliver` : what an event does to the rows, and a delivery of it that may fail;
* `canActivate` : the guard;
* `Account`, `About`, `Owns` : an organization with its ids at Stripe, the events about it, and the row that is its own;
* `Owns.deliver` : **an event about an account changes its own row**, as `applyTo` does.
-/

namespace TimeChamp.Billing
open Lib

/-! ## Rows and events -/

inductive SubscriptionStatus where
  | active
  | pastDue
  | canceled
  | trialing
deriving DecidableEq

structure Subscription where
  id : Nat
  organizationId : Uuid
  stripeCustomerId : Option String
  stripeSubscriptionId : Option String
  plan : Option String
  status : SubscriptionStatus
  seats : Int
  currentPeriodStart : Option Int
  currentPeriodEnd : Option Int
  canceledAt : Option Int
deriving DecidableEq

/-- A checkout session, with its metadata. -/
structure Session where
  subscription : String
  customer : String
  organizationId : Uuid
  seats : String
  priceId : Option String
deriving DecidableEq

structure StripeSubscription where
  id : String
  status : String
  currentPeriodStart : Int
  currentPeriodEnd : Int
deriving DecidableEq

/-- An invoice, with the end of the period of its first line. -/
structure Invoice where
  customer : String
  periodEnd : Option Int
deriving DecidableEq

inductive StripeEvent where
  | checkoutSessionCompleted (session : Session)
  | subscriptionUpdated (stripeSub : StripeSubscription)
  | paymentFailed (invoice : Invoice)
  | paymentSucceeded (invoice : Invoice)
  | trialWillEnd
  | subscriptionDeleted (stripeSub : StripeSubscription)
  | other (type : String)
deriving DecidableEq

/-! ## Plans and seats -/

/-- The prices that the environment names. -/
structure Prices where
  starter : Option String
  pro : Option String
  enterprise : Option String

/-- The plan of a price. Of two names for one price the later one counts. -/
def getPlanName (prices : Prices) (priceId : String) : Option String :=
  if prices.enterprise.getD "" = priceId then some "enterprise"
  else if prices.pro.getD "" = priceId then some "pro"
  else if prices.starter.getD "" = priceId then some "starter"
  else none

/-- `parseInt(text, 10)`; `none` when it is not a number. -/
def parseInt (text : String) : Option Int :=
  let chars := text.toList.dropWhile Registration.isWhiteSpace
  let digits := (if chars.head? = some '-' ∨ chars.head? = some '+' then chars.tail else chars).takeWhile Char.isDigit
  if digits = [] then none
  else
    let n : Int := Nat.ofDigitChars 10 digits 0
    some (if chars.head? = some '-' then -n else n)

example : parseInt " 25 seats" = some 25 ∧ parseInt "-3" = some (-3) ∧ parseInt "many" = none := by decide +kernel

/-- The seats of a session, if the column takes them. -/
def Session.seatCount (session : Session) : Option Int :=
  (parseInt session.seats).filter fun n => -2147483648 ≤ n && n < 2147483648

/-! ## The handler -/

abbrev Rows := List Subscription

/-- Change the rows that satisfy `p`. -/
def Rows.update (rows : Rows) (p : Subscription → Bool) (f : Subscription → Subscription) : Rows :=
  rows.map fun row => if p row then f row else row

/-- The row that was found, if one was, is changed by its id. -/
def Rows.updateFound (rows : Rows) (p : Subscription → Bool) (f : Subscription → Subscription → Subscription) : Rows :=
  match rows.find? p with
  | none => rows
  | some sub => rows.update (fun row => row.id = sub.id) (f sub)

def checkedOut (prices : Prices) (session : Session) (seats : Int) (row : Subscription) : Subscription :=
  { row with
    stripeSubscriptionId := some session.subscription
    stripeCustomerId := some session.customer
    status := .active
    seats
    plan := some ((getPlanName prices (session.priceId.getD "")).getD "starter") }

/-- `sub` is the row as it was found. -/
def updated (stripeSub : StripeSubscription) (sub row : Subscription) : Subscription :=
  { row with
    status := if stripeSub.status = "active" then .active else if stripeSub.status = "past_due" then .pastDue else sub.status
    currentPeriodStart := some (stripeSub.currentPeriodStart * 1000)
    currentPeriodEnd := some (stripeSub.currentPeriodEnd * 1000) }

/-- The end of a period counts if it is there and not zero. -/
def succeeded (invoice : Invoice) (row : Subscription) : Subscription :=
  { row with
    currentPeriodEnd := ((invoice.periodEnd.filter fun t => t ≠ 0).map fun t => t * 1000).or row.currentPeriodEnd }

/-- What a verified event does to the rows; an error when the signature is wrong, or when a column refuses a value. -/
def handleWebhook (prices : Prices) (now : Int) (event : Option StripeEvent) (rows : Rows) : Except String Rows :=
  match event with
  | none => .error "Invalid webhook signature"
  | some (.checkoutSessionCompleted session) =>
    match session.seatCount with
    | none => .error "invalid input for type integer"
    | some seats => .ok (rows.update (fun row => row.organizationId = session.organizationId) (checkedOut prices session seats))
  | some (.subscriptionUpdated stripeSub) =>
    .ok (rows.updateFound (fun row => row.stripeSubscriptionId = some stripeSub.id) (updated stripeSub))
  | some (.paymentFailed invoice) =>
    .ok (rows.updateFound (fun row => row.stripeCustomerId = some invoice.customer)
      fun _ row => { row with status := .pastDue })
  | some (.paymentSucceeded invoice) =>
    .ok (rows.updateFound (fun row => row.stripeCustomerId = some invoice.customer) fun _ => succeeded invoice)
  | some (.subscriptionDeleted stripeSub) =>
    .ok (rows.updateFound (fun row => row.stripeSubscriptionId = some stripeSub.id)
      fun _ row => { row with status := .canceled, canceledAt := some now })
  | some .trialWillEnd | some (.other _) => .ok rows

/-- An event, and the time at which it is handled. -/
structure Delivery where
  event : StripeEvent
  now : Int
deriving DecidableEq

/-- A delivery that is not handled leaves the rows as they are. -/
def deliver (prices : Prices) (rows : Rows) (d : Delivery) : Rows :=
  (handleWebhook prices d.now (some d.event) rows).toOption.getD rows

def subscriptionOf (organizationId : Uuid) (rows : Rows) : Option Subscription :=
  rows.find? fun row => row.organizationId = organizationId

/-- The guard, given the active organizations. -/
def canActivate (active : List Uuid) (rows : Rows) (organizationId : Option Uuid) : Except String Bool :=
  match organizationId with
  | none => .ok true
  | some organizationId =>
    if organizationId ∉ active then .error "Organization not found or inactive"
    else if ((subscriptionOf organizationId rows).map Subscription.status) = some .canceled then
      .error "Subscription canceled. Please reactivate to continue."
    else .ok true

/-! ## Events about an account -/

/-- An organization, with its ids at Stripe. -/
structure Account where
  organizationId : Uuid
  customer : String
  subscription : String

/-- What an event is about. -/
def About (a : Account) : StripeEvent → Prop
  | .checkoutSessionCompleted session =>
    session.organizationId = a.organizationId ∧ session.customer = a.customer ∧ session.subscription = a.subscription
  | .subscriptionUpdated stripeSub => stripeSub.id = a.subscription
  | .paymentFailed invoice => invoice.customer = a.customer
  | .paymentSucceeded invoice => invoice.customer = a.customer
  | .subscriptionDeleted stripeSub => stripeSub.id = a.subscription
  | .trialWillEnd => True
  | .other _ => True

instance (a : Account) : (e : StripeEvent) → Decidable (About a e)
  | .checkoutSessionCompleted _ => inferInstanceAs (Decidable (_ ∧ _))
  | .subscriptionUpdated _ => inferInstanceAs (Decidable (_ = _))
  | .paymentFailed _ => inferInstanceAs (Decidable (_ = _))
  | .paymentSucceeded _ => inferInstanceAs (Decidable (_ = _))
  | .subscriptionDeleted _ => inferInstanceAs (Decidable (_ = _))
  | .trialWillEnd => isTrue trivial
  | .other _ => isTrue trivial

/-- The row is the account's, and no other row is its organization's or has one of its ids. -/
structure Owns (a : Account) (rows : Rows) (row : Subscription) : Prop where
  mem : row ∈ rows
  organization : row.organizationId = a.organizationId
  alone : ∀ r ∈ rows, r.id = row.id ∨ r.organizationId = a.organizationId ∨ r.stripeCustomerId = some a.customer ∨
    r.stripeSubscriptionId = some a.subscription → r = row

/-- The row knows the ids. -/
def Linked (a : Account) (row : Subscription) : Prop :=
  row.stripeCustomerId = some a.customer ∧ row.stripeSubscriptionId = some a.subscription

/-- What an event about an account does to its row. -/
def applyTo (prices : Prices) (d : Delivery) (row : Subscription) : Subscription :=
  match d.event with
  | .checkoutSessionCompleted session => (session.seatCount.map fun seats => checkedOut prices session seats row).getD row
  | .subscriptionUpdated stripeSub => updated stripeSub row row
  | .paymentFailed _ => { row with status := .pastDue }
  | .paymentSucceeded invoice => succeeded invoice row
  | .subscriptionDeleted _ => { row with status := .canceled, canceledAt := some d.now }
  | .trialWillEnd | .other _ => row

section
variable {a : Account} {rows : Rows} {row : Subscription} {prices : Prices}

theorem find?_of_alone {p : Subscription → Bool} (hmem : row ∈ rows) (hp : p row = true)
    (halone : ∀ r ∈ rows, p r = true → r = row) : rows.find? p = some row := by
  cases hfind : rows.find? p with
  | none => exact absurd hp (List.find?_eq_none.mp hfind row hmem)
  | some r => rw [halone r (List.mem_of_find?_eq_some hfind) (List.find?_some hfind)]

theorem Owns.update (h : Owns a rows row) {p : Subscription → Bool} (hp : p row = true)
    (halone : ∀ r ∈ rows, p r = true → r = row) {f : Subscription → Subscription} (hid : (f row).id = row.id)
    (horg : (f row).organizationId = row.organizationId) (hlinked : Linked a (f row)) :
    Owns a (rows.update p f) (f row) where
  mem := List.mem_map.mpr ⟨row, h.mem, if_pos hp⟩
  organization := horg.trans h.organization
  alone := by
    intro r hr hids
    obtain ⟨r₀, hr₀, rfl⟩ := List.mem_map.mp hr
    split_ifs at hids ⊢ with hpr
    · rw [halone r₀ hr₀ hpr]
    · rw [hid] at hids
      obtain rfl := h.alone r₀ hr₀ hids
      exact absurd hp hpr

theorem Owns.updateFound (h : Owns a rows row) {p : Subscription → Bool} (hp : p row = true)
    (halone : ∀ r ∈ rows, p r = true → r = row) {f : Subscription → Subscription → Subscription}
    (hid : (f row row).id = row.id) (horg : (f row row).organizationId = row.organizationId)
    (hlinked : Linked a (f row row)) : Owns a (rows.updateFound p f) (f row row) := by
  unfold Rows.updateFound
  rw [find?_of_alone h.mem hp halone]
  refine h.update (decide_eq_true rfl) (fun r hr hrid => ?_) hid horg hlinked
  exact h.alone r hr (Or.inl (of_decide_eq_true hrid))

/-- **The checkout** changes the row of its organization, and tells it the ids. -/
theorem Owns.checkout (h : Owns a rows row) {d : Delivery} {session : Session} {seats : Int}
    (hevent : d.event = .checkoutSessionCompleted session) (habout : About a d.event)
    (hseats : session.seatCount = some seats) :
    Owns a (deliver prices rows d) (applyTo prices d row) ∧ Linked a (applyTo prices d row) := by
  rw [hevent] at habout
  obtain ⟨horg, hcustomer, hsub⟩ := habout
  have happly : applyTo prices d row = checkedOut prices session seats row := by
    simp only [applyTo, hevent, hseats, Option.map_some, Option.getD_some]
  have hdeliver : deliver prices rows d =
      rows.update (fun row => row.organizationId = session.organizationId) (checkedOut prices session seats) := by
    simp only [deliver, handleWebhook, hevent, hseats]
    rfl
  have hlinked : Linked a (checkedOut prices session seats row) :=
    ⟨congrArg some hcustomer, congrArg some hsub⟩
  rw [happly, hdeliver]
  refine ⟨h.update ?_ (fun r hr hrorg => ?_) rfl rfl hlinked, hlinked⟩
  · exact decide_eq_true (h.organization.trans horg.symm)
  · exact h.alone r hr (Or.inr (Or.inl ((of_decide_eq_true hrorg).trans horg)))

/-- **An event about an account** changes its own row. -/
theorem Owns.deliver (h : Owns a rows row) (hlinked : Linked a row) {d : Delivery} (habout : About a d.event) :
    Owns a (deliver prices rows d) (applyTo prices d row) ∧ Linked a (applyTo prices d row) := by
  obtain ⟨event, now⟩ := d
  have byCustomer : ∀ {customer : String} {f : Subscription → Subscription → Subscription}, customer = a.customer →
      (f row row).id = row.id → (f row row).organizationId = row.organizationId → Linked a (f row row) →
      Owns a (rows.updateFound (fun row => row.stripeCustomerId = some customer) f) (f row row) := by
    rintro _ f rfl hid horg hl
    refine h.updateFound (decide_eq_true hlinked.1) (fun r hr hc => ?_) hid horg hl
    exact h.alone r hr (Or.inr (Or.inr (Or.inl (of_decide_eq_true hc))))
  have bySubscription : ∀ {id : String} {f : Subscription → Subscription → Subscription}, id = a.subscription →
      (f row row).id = row.id → (f row row).organizationId = row.organizationId → Linked a (f row row) →
      Owns a (rows.updateFound (fun row => row.stripeSubscriptionId = some id) f) (f row row) := by
    rintro _ f rfl hid horg hl
    refine h.updateFound (decide_eq_true hlinked.2) (fun r hr hs => ?_) hid horg hl
    exact h.alone r hr (Or.inr (Or.inr (Or.inr (of_decide_eq_true hs))))
  cases event with
  | checkoutSessionCompleted session =>
      cases hseats : session.seatCount with
      | some seats => exact h.checkout rfl habout hseats
      | none =>
          have happly : applyTo prices ⟨.checkoutSessionCompleted session, now⟩ row = row := by
            simp only [applyTo, hseats, Option.map_none, Option.getD_none]
          have hdeliver : Billing.deliver prices rows ⟨.checkoutSessionCompleted session, now⟩ = rows := by
            simp only [Billing.deliver, handleWebhook, hseats]
            rfl
          rw [happly, hdeliver]
          exact ⟨h, hlinked⟩
  | subscriptionUpdated stripeSub => exact ⟨bySubscription habout rfl rfl hlinked, hlinked⟩
  | paymentFailed invoice => exact ⟨byCustomer habout rfl rfl hlinked, hlinked⟩
  | paymentSucceeded invoice => exact ⟨byCustomer habout rfl rfl hlinked, hlinked⟩
  | subscriptionDeleted stripeSub => exact ⟨bySubscription habout rfl rfl hlinked, hlinked⟩
  | trialWillEnd => exact ⟨h, hlinked⟩
  | other type => exact ⟨h, hlinked⟩

theorem Owns.subscriptionOf_eq (h : Owns a rows row) : subscriptionOf a.organizationId rows = some row :=
  find?_of_alone h.mem (decide_eq_true h.organization) fun r hr horg =>
    h.alone r hr (Or.inr (Or.inl (of_decide_eq_true horg)))

end

end TimeChamp.Billing
