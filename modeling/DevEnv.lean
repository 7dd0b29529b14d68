import DevEnv.Main
import DevEnv.Proofs.Cli.Up
import DevEnv.Proofs.Context
import DevEnv.Proofs.Context.Address
import DevEnv.Proofs.Docker.Arguments
import DevEnv.Proofs.Docker.Inspect
import DevEnv.Proofs.Gpu.Grammar
import DevEnv.Proofs.Gpu.Precedence
import DevEnv.Proofs.Gpu.RoundTrip
import DevEnv.Proofs.Gpu.Total
import DevEnv.Proofs.Json.RoundTrip
import DevEnv.Proofs.Local.Creation
import DevEnv.Proofs.Local.Discipline
import DevEnv.Proofs.Local.Images
import DevEnv.Proofs.Local.Isolation
import DevEnv.Proofs.Local.Listing
import DevEnv.Proofs.Local.Ports
import DevEnv.Proofs.Local.Race
import DevEnv.Proofs.Local.Refusal
import DevEnv.Proofs.Local.Release
import DevEnv.Proofs.Local.Retry
import DevEnv.Proofs.Local.Sparing
import DevEnv.Proofs.Local.Workdir
import DevEnv.Proofs.Memory.Booking
import DevEnv.Proofs.Memory.Delay
import DevEnv.Proofs.Memory.Failure
import DevEnv.Proofs.Naming
import DevEnv.Proofs.Plan.Booking
import DevEnv.Proofs.Remote.Conversation
import DevEnv.Proofs.Text.Record.Grammar
import DevEnv.Proofs.Wait.Bounds
