import QuotaGuard.Service.System
import QuotaGuard.Service.Webhooks

/-!
# Passes among the other events

`webhook_loop` calls `deliver_webhooks` again and again. In between, checks and runs of the rollup job
add rows to the outbox, and admin requests change the plans.
-/

namespace QuotaGuard

/-- A pass: when it starts, the rows its query returns, and how the POST for each row would go. -/
structure DeliveryPass where
  now : ℚ
  batch : List WebhookOutbox
  attempts : Nat → Attempt

inductive DeliveryEvent where
  | service (event : SystemEvent)
  | deliver (pass : DeliveryPass)

namespace System

def deliver (settings : WebhookSettings) (pass : DeliveryPass) (s : System) : List Post × System :=
  let out := deliverWebhooks settings s.db pass.attempts pass.batch s.world.history
  (out.posts, { s with world := { s.world with history := out.history } })

/-- The requests an event makes, and the state it leaves. -/
def deliveryExec (settings : WebhookSettings) : DeliveryEvent → System → List Post × System
  | .service event, s => ([], (exec event s).2)
  | .deliver pass, s => s.deliver settings pass

end System

abbrev DeliveryStep := Step System DeliveryEvent (List Post)

/-- A pass goes as it should: its query has returned what it may return, and every POST ends in a response
or in a `RequestError`. -/
structure DeliveryStep.Regular (settings : WebhookSettings) (step : DeliveryStep) : Prop where
  queried : ∀ pass, step.event = .deliver pass →
    IsBatch settings pass.now step.before.world.history pass.batch
  caught : ∀ pass, step.event = .deliver pass → ∀ rowId name,
    (pass.attempts rowId).outcome ≠ .otherError name

end QuotaGuard
