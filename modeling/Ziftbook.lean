import Ziftbook.Foundation.Intervals
import Ziftbook.Foundation.Bisect
import Ziftbook.Foundation.Runs
import Ziftbook.Foundation.Table
import Ziftbook.Foundation.Journal
import Ziftbook.Foundation.Leaky
import Ziftbook.Foundation.Pool
import Ziftbook.Foundation.Rows
import Ziftbook.Foundation.FixedWindow
import Ziftbook.Schedule
import Ziftbook.LocalTime
import Ziftbook.Availability.Slots
import Ziftbook.Availability.Offered
import Ziftbook.Availability.Reading
import Ziftbook.Blocks
import Ziftbook.Bookings.Anchor
import Ziftbook.Bookings.Cancellation
import Ziftbook.Bookings.Clear
import Ziftbook.Bookings.FreeUntil
import Ziftbook.Bookings.Gap
import Ziftbook.Bookings.Picker
import Ziftbook.Bookings.Refundable
import Ziftbook.Bookings.Replay
import Ziftbook.Bookings.Staffed
import Ziftbook.Bookings.Reserved
import Ziftbook.Payments.Carried
import Ziftbook.Payments.InStep
import Ziftbook.Payments.Watched
import Ziftbook.Payments.Figures
import Ziftbook.Payments.Repaid
import Ziftbook.Payments.Flag
import Ziftbook.Jobs.Kept
import Ziftbook.Contact.Confirmed
import Ziftbook.Contact.Capped
import Ziftbook.Admin.Guesses
import Ziftbook.Admin.SingleUse
import Ziftbook.Accounts.PasswordReset
import Ziftbook.Team.LastOwner
import Ziftbook.Team.Readmitted
import Ziftbook.Ledger.Finished
import Ziftbook.Ledger.Reading
import Ziftbook.Availability.LookBack
import Ziftbook.Mail.Reminders
import Ziftbook.Availability.Clipped
import Ziftbook.Availability.Grid
import Ziftbook.Clock
import Ziftbook.TimeOffListing
import Ziftbook.Mail.Sequence
import Ziftbook.Console.HistoryLabel
import Ziftbook.Console.Lanes
import Ziftbook.Console.Links
import Ziftbook.Console.TimeOffForm
import Ziftbook.Console.Week
import Ziftbook.Availability.Joined
import Ziftbook.Csp.Closed
import Ziftbook.Limits.InFlight
import Ziftbook.Jobs.Origins
import Ziftbook.Bookings.Placed
import Ziftbook.Limits.Progress
import Ziftbook.Limits.AtOnce
import Ziftbook.Limits.Swept
import Ziftbook.Accounts.Sessions
import Ziftbook.Clients.Kept
import Ziftbook.Clients.Consents
import Ziftbook.Clients.Erased
import Ziftbook.Clients.Directory
import Ziftbook.Accounts.History
import Ziftbook.Services.Audit
import Ziftbook.Services.Photos
import Ziftbook.BookingPage.Suggestion
import Ziftbook.BookingPage.Times
import Ziftbook.Photos.Containers
