import QuicheH3.Driver.Quota
import QuicheH3.Send.Held
import QuicheH3.Send.Writable
import QuicheH3.Accept.Resume
import QuicheH3.Accept.Cleanup
import QuicheH3.Close.Publish
import QuicheH3.Recv.Integrity
import QuicheH3.Life.Ledger
import QuicheH3.Life.Fate
import QuicheH3.Open.Order
import QuicheH3.Life.Undelivered
import QuicheH3.Life.Stop
import QuicheH3.Budget.Waiters
import QuicheH3.Budget.Conserved
import QuicheH3.Rest.Settle
import QuicheH3.Stream.Finish
import QuicheH3.Endpoint.Idle
import QuicheH3.Endpoint.Accept
import QuicheH3.Life.Reset
import QuicheH3.Registry.Invariant
import QuicheH3.Stream.Terminal
import QuicheH3.Lib.RoundRobin
import QuicheH3.Send.RoundRobin
import QuicheH3.Accept.Admission
import QuicheH3.Accept.Queues
import QuicheH3.Lib.Channel
import QuicheH3.Stream.Poll
import QuicheH3.Life.Guarded
import QuicheH3.Stream.Sealed
import QuicheH3.Budget.Outcome
import QuicheH3.Send.Late
import QuicheH3.Send.Integrity
import QuicheH3.Life.Kept
import QuicheH3.Driver.StepFrame
import QuicheH3.Open.Slots
import QuicheH3.Close.Cut
import QuicheH3.Close.Resolve
import QuicheH3.Driver.Pipeline
import QuicheH3.Close.Reach
