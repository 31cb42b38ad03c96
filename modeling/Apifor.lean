import Apifor.Theorems.Merged
import Apifor.Theorems.Gates
import Apifor.Theorems.Terminal
import Apifor.Theorems.Dunning
import Apifor.Theorems.Payments
import Apifor.Theorems.Cap
import Apifor.Theorems.Work
import Apifor.Lib.Runs
import Apifor.Theorems.Revocation
import Apifor.Theorems.Accounts
import Apifor.Theorems.Owners
import Apifor.Theorems.Viewer
import Apifor.Theorems.Webhook
import Apifor.Theorems.Routines
import Apifor.Theorems.Vault
import Apifor.Theorems.Crash
import Apifor.Theorems.Relay
import Apifor.Theorems.Denials
import Apifor.Theorems.Order
import Apifor.Theorems.Overshoot
import Apifor.Theorems.Ledger
import Apifor.Theorems.Expiry
import Apifor.Theorems.Recorded
import Apifor.Theorems.Spacing
import Apifor.Theorems.Secrets
import Apifor.Theorems.Documents
import Apifor.Theorems.Confinement
import Apifor.Theorems.CloneURLs
import Apifor.Theorems.Codec
import Apifor.Theorems.Workers
import Apifor.Theorems.Plans
import Apifor.Theorems.Timeline
import Apifor.Theorems.Usage
import Apifor.Theorems.Manual
import Apifor.Theorems.Export
import Apifor.Theorems.Signature
import Apifor.Theorems.Limiter
import Apifor.Theorems.Quota
import Apifor.Theorems.Connections
import Apifor.Theorems.Device
import Apifor.Theorems.Answers
import Apifor.Theorems.Submit
import Apifor.Theorems.Registry
import Apifor.Theorems.Leaks
import Apifor.Theorems.Chunks
import Apifor.Theorems.WebFlow
import Apifor.Theorems.Isolation
import Apifor.Theorems.Delivery
import Apifor.Theorems.Rounds
